import TwinLink.Proofs.Link.Routing

/-!
# The event channel

The loop alone sends into the event channel, so it finds a place there whenever nothing is queued.

* `Channel.Solo` : a channel into which the loop alone sends; `Channel.Solo.offer_of_empty`;
* `LoopPoint.work` : how far the loop is from its end; `Host.offerEvent_ne_none`, `Acts.takes` : nobody waits forever;
* `Acts.solo`, `Setup.solo_run` : the event channel is one.
-/

namespace TwinLink

/-! ## One sender -/

/-- A channel into which the loop alone sends: it stands in line only where something is queued, and then is the next to
get a place. -/
structure Channel.Solo {α : Type} (c : Channel α) : Prop where
  capacity : 0 < c.capacity
  senders : c.line = [] ∧ c.granted = [] ∨ c.line = [.loop] ∧ c.granted = [] ∧ c.queue ≠ [] ∨
    c.line = [] ∧ c.granted = [.loop]

namespace Channel.Solo

variable {α : Type} {c : Channel α}

theorem ofCapacity (n : Nat) : (Channel.ofCapacity n : Channel α).Solo :=
  ⟨Nat.lt_of_lt_of_le Nat.zero_lt_one (Nat.le_max_right n 1), .inl ⟨rfl, rfl⟩⟩

theorem discard (hc : c.Solo) : c.discard.1.Solo := ⟨hc.capacity, .inl ⟨rfl, rfl⟩⟩

theorem hasRoom_iff (capacity : Nat) (queue : List α) (closed : Bool) :
    (Channel.mk capacity queue [] [] closed).hasRoom ↔ queue.length < capacity := by
  rw [hasRoom, Bool.and_eq_true]
  exact ⟨fun h => of_decide_eq_true h.2, fun h => ⟨rfl, decide_eq_true h⟩⟩

theorem offer (hc : c.Solo) (x : α) : (c.offer .loop x).1.Solo := by
  obtain ⟨capacity, queue, line, granted, closed⟩ := c
  obtain ⟨hcap, ⟨hl, hg⟩ | ⟨hl, hg, hq⟩ | ⟨hl, hg⟩⟩ := hc <;> dsimp only at * <;> subst hl hg
  · have hroom := hasRoom_iff capacity queue closed
    have he : (Channel.mk capacity queue [] [] closed).offer .loop x =
        if closed then (⟨capacity, queue, [], [], closed⟩, .refused)
        else if (Channel.mk capacity queue [] [] closed).hasRoom then
          (⟨capacity, queue ++ [x], [], [], closed⟩, .admitted)
        else (⟨capacity, queue, [.loop], [], closed⟩, .queued) := by
      cases closed <;> rfl
    rw [he]
    split_ifs with hclosed hr
    · exact ⟨hcap, .inl ⟨rfl, rfl⟩⟩
    · exact ⟨hcap, .inl ⟨rfl, rfl⟩⟩
    · -- without a place something is queued
      refine ⟨hcap, .inr (.inl ⟨rfl, rfl, fun hq => hr (hroom.mpr ?_)⟩)⟩
      obtain rfl : queue = [] := hq
      exact hcap
  · have he : ((Channel.mk capacity queue [.loop] [] closed).offer .loop x).1 =
        ⟨capacity, queue, [.loop], [], closed⟩ := by
      cases closed <;> rfl
    rw [he]
    exact ⟨hcap, .inr (.inl ⟨rfl, rfl, hq⟩)⟩
  · cases closed
    · exact ⟨hcap, .inl ⟨rfl, rfl⟩⟩
    · exact ⟨hcap, .inr (.inr ⟨rfl, rfl⟩)⟩

theorem take (hc : c.Solo) {x : α} {c' : Channel α} {woken : Option Actor} (e : c.take? = some (x, c', woken)) :
    c'.Solo := by
  obtain ⟨capacity, queue, line, granted, closed⟩ := c
  cases queue with
  | nil => cases e
  | cons y rest =>
    obtain ⟨hcap, ⟨hl, hg⟩ | ⟨hl, hg, -⟩ | ⟨hl, hg⟩⟩ := hc <;> dsimp only at * <;> subst hl hg <;> cases e
    · exact ⟨hcap, .inl ⟨rfl, rfl⟩⟩
    · exact ⟨hcap, .inr (.inr ⟨rfl, rfl⟩)⟩
    · exact ⟨hcap, .inr (.inr ⟨rfl, rfl⟩)⟩

/-- The loop finds a place when nothing is queued. -/
theorem offer_of_empty (hc : c.Solo) (hq : c.queue = []) (ho : c.closed = false) (x : α) :
    ∃ c', c.offer .loop x = (c', .admitted) := by
  obtain ⟨capacity, queue, line, granted, closed⟩ := c
  obtain ⟨hcap, ⟨hl, hg⟩ | ⟨-, -, hne⟩ | ⟨hl, hg⟩⟩ := hc <;> dsimp only at *
  · subst hl hg hq ho
    have hroom := (hasRoom_iff capacity ([] : List α) false).mpr hcap
    refine ⟨⟨capacity, [x], [], [], false⟩, ?_⟩
    unfold Channel.offer
    rw [hroom]
    rfl
  · exact absurd hq hne
  · subst hl hg ho
    exact ⟨_, rfl⟩

end Channel.Solo

/-! ## Progress -/

/-- How far the loop is from its end, as long as nothing more arrives. -/
def LoopPoint.work : LoopPoint → Nat
  | .absent => 0
  | .listening => 3
  | .sorting frames _ => 3 * frames.length + 4
  | .writing _ rest => rest.length + 4
  | .offering _ frames _ => 3 * frames.length + 6
  | .parting _ => 2
  | .gone => 0

/-- The loop does not wait where nothing is queued. -/
theorem Host.offerEvent_ne_none (h : Host) (hs : h.link.events.Solo) (hq : h.link.events.queue = []) (event : LinkEvent)
    (next : LoopPoint) : h.offerEvent event next ≠ none := by
  unfold offerEvent
  cases hc : h.link.events.closed with
  | true =>
    have ho : h.link.events.offer .loop event = (h.link.events, .refused) := if_pos hc
    rw [ho]
    exact nofun
  | false =>
    obtain ⟨events, ho⟩ := hs.offer_of_empty hq hc event
    rw [ho]
    exact nofun

/-- The listener takes what is queued. -/
theorem Acts.takes {h h' : Host} (ha : Acts h .takeEvent h') (hd : h.session.dispatch = .absent)
    (hq : h.link.events.queue ≠ []) : ∃ event, h.link.events.queue = event :: h'.link.events.queue ∧
      h'.link.loop = h.link.loop ∧ h'.wire = h.wire := by
  cases ha with
  | idle a hr =>
    have hr : h.takeEvent? = none := hr
    unfold Host.takeEvent? at hr
    rw [hd] at hr
    have hr := Option.map_eq_none_iff.mp hr
    unfold Channel.take? at hr
    split at hr
    · exact absurd ‹_› hq
    · cases hr
  | takeEvent hd hev ready => exact ⟨_, (Channel.take_eq_some hev).1, rfl, rfl⟩

/-! ## Every run -/

/-- Only the loop sends events. -/
theorem Acts.solo {h h' : Host} {a : Action} (ha : Acts h a h') (hu : h.Unstarted) (hs : h.link.events.Solo) :
    h'.link.events.Solo := by
  have hoffer : ∀ {event : LinkEvent} {events : Channel LinkEvent} {admission : Admission},
      h.link.events.offer .loop event = (events, admission) → events.Solo := fun {event} _ _ ho => by
    have := hs.offer event
    rwa [ho] at this
  cases ha with
  | loop i hm ht =>
    rw [ht.link]
    generalize h.link.loop = p at hm
    cases hm with
    | handed p rest fault ho | waits p rest fault ho => exact hoffer ho
    | parts reason ho | partsLater reason ho => exact hoffer ho
    | _ => exact hs
  | dispatcher i hm ht =>
    rw [ht.link]
    rcases hm.takes with ⟨-, event, events, woken, he, hl | hl⟩ | ⟨-, hl⟩ <;> rw [hl]
    · exact hs.take he
    · exact (hs.take he).discard
    · exact hs
  | call i hc hm hl =>
    rw [(hl.edits hu hm).frame.events]
    exact hs
  | abandon hc released hr ready =>
    show (h.link.vacate _).events.Solo
    rw [(Link.EditsBy.vacate .refl).frame.events]
    exact hs
  | takeEvent hd he ready => exact hs.take he
  | dropListener hd ready => exact hs.discard
  | _ => exact hs

theorem Setup.solo_run (setup : Setup) (as : List Action) : (setup.host.run as).link.events.Solo := by
  induction as using List.reverseRecOn with
  | nil => cases setup <;> exact .ofCapacity _
  | append_singleton as a ih =>
    rw [Host.run_concat]
    exact (setup.acts_run as a).solo (setup.unstarted_run as) ih

end TwinLink
