import TwinLink.Proofs.Host.Endless
import TwinLink.Proofs.Link.Closing
import TwinLink.Proofs.Session.Notifications

/-!
# The loop ends when it is told to

A link that has been closed ends in the end: the loop comes back to its commands again and again, and each time there is
one less before the one that ends it. Then every send returns.

* `Host.Bare` : what holds of a host without a session;
* `Acts.loop_waits` : what others leave alone;
* `Acts.loop_works`, `Acts.loop_offers`, `Host.obey_apply` : what the loop does when it acts;
* `Host.ShutsWithin` : how many commands are left before the end;
* `Host.Unhindered`, `Flowing` : runs that go on forever; `Flowing.listens`, `Flowing.ends`, `Flowing.returns`.
-/

namespace TwinLink

variable {h h' : Host} {a : Action}

/-! ## Progress -/

/-- No session runs on the link, and its loop does. -/
structure Host.Bare (h : Host) : Prop where
  port : h.session.portTaken = true
  dispatch : h.session.dispatch = .absent
  loop : h.link.loop ≠ .absent

theorem LoopMove.present {q : LoopPoint} {t : LoopTurn} (hm : LoopMove h q t) (hq : h.link.loop ≠ .absent) :
    t.link.loop ≠ .absent := by
  cases hm with
  | waits | partsLater => exact hq
  | _ => exact nofun

/-- A link that has been set up is not taken down. -/
theorem Acts.present (ha : Acts h a h') (hu : h.Unstarted) (hl : h.link.loop ≠ .absent) : h'.link.loop ≠ .absent := by
  rcases ha.link hu with ⟨i, t, -, hm, ht⟩ | ⟨events, he⟩ | ⟨ok, hedits⟩
  · rw [ht.link]
    exact hm.present hl
  · rw [he]
    exact hl
  · rcases hedits.frame.loop with he | ⟨-, he⟩
    · rw [he]
      exact hl
    · rw [he]
      exact nofun

theorem Host.Bare.acts (hb : h.Bare) (ha : Acts h a h') : h'.Bare := by
  have hloop := ha.present (fun hp => by rw [hb.port] at hp; cases hp) hb.loop
  cases ha with
  | loop i hm ht => exact ⟨by rw [ht.session, hb.port], by rw [ht.session, hb.dispatch], hloop⟩
  | dispatcher i hm ht =>
    rw [hb.dispatch] at hm
    cases hm
  | call i hc hm hl =>
    refine ⟨?_, ?_, hloop⟩
    · rw [hl.session, Move.sessionAfter_portTaken]
      rcases hm.loop with ⟨-, hp⟩ | hp
      · rw [hp, hb.port]
      · exact hp
    · rw [hl.session, Move.sessionAfter_dispatch]
      rcases hm.dispatch with ⟨hd, -⟩ | ⟨hp, -⟩
      · rw [hd, hb.dispatch]
      · rw [hb.port] at hp
        cases hp
  | abandon hc released hr ready =>
    exact ⟨(Session.vacate_portTaken _ _).trans hb.port, (Session.vacate_dispatch _ _).trans hb.dispatch, hloop⟩
  | _ => exact ⟨hb.port, hb.dispatch, hloop⟩

theorem Host.bare_run (config : LinkConfig) (as : List Action) : ((ofLink config).run as).Bare :=
  (Setup.link config).tidy.run_inv (P := Bare) ⟨rfl, rfl, by exact nofun⟩ (fun _ _ _ ha hb => hb.acts ha) as

/-- A device that takes whatever is written goes on doing so. -/
theorem Acts.room (ha : Acts h a h') (hn : ∀ room, a ≠ .allow room) (hr : h.wire.room = none) :
    h'.wire.room = none := by
  cases ha with
  | loop i hm ht =>
    rw [ht.wire]
    generalize h.link.loop = p at hm
    cases hm with
    | writes caller rest hf hne n hn h0 => simp [hr]
    | _ => exact hr
  | dispatcher i hm ht => rw [ht.wire, hr]
  | call i hc hm hl => rw [hl.wire, hr]
  | allow room ready => exact absurd rfl (hn room)
  | _ => exact hr

/-- While others act the loop stays where it is, and nothing is sent to the listener. -/
theorem Acts.loop_waits (ha : Acts h a h') (hb : h.Bare) (hn : ∀ i, a ≠ .advance .loop i) :
    h'.link.loop = h.link.loop ∧ h'.link.events.queue.length ≤ h.link.events.queue.length := by
  have hu : h.Unstarted := fun hp => by rw [hb.port] at hp; cases hp
  have hframe : ∀ {l : Link}, Link.Edits.Frame h.link l →
      l.loop = h.link.loop ∧ l.events.queue.length ≤ h.link.events.queue.length := by
    intro l hf
    refine ⟨?_, by rw [hf.events]⟩
    rcases hf.loop with hl | ⟨hl, -⟩
    · exact hl
    · exact absurd hl hb.loop
  cases ha with
  | loop i hm ht => exact absurd rfl (hn i)
  | dispatcher i hm ht =>
    rw [hb.dispatch] at hm
    cases hm
  | call i hc hm hl => exact hframe (hl.edits hu hm).frame
  | abandon hc released hr ready => exact hframe (Link.EditsBy.vacate .refl).frame
  | takeEvent hd he ready =>
    refine ⟨rfl, ?_⟩
    rw [(Channel.take_eq_some he).1]
    exact Nat.le_succ _
  | dropListener hd ready => exact ⟨rfl, Nat.zero_le _⟩
  | _ => exact ⟨rfl, Nat.le_refl _⟩

/-- The loop is at its work: it sorts, or writes to a device that takes all. -/
theorem Acts.loop_works {i : Bool} (ha : Acts h (.advance .loop i) h') (hr : h.wire.room = none)
    (hl : (∃ frames fault, h.link.loop = .sorting frames fault) ∨ ∃ caller rest, h.link.loop = .writing caller rest) :
    h'.link.loop.work < h.link.loop.work := by
  cases ha with
  | idle a hno =>
    -- it does not wait there
    have hno : h.loopStep i = none := hno
    unfold Host.loopStep at hno
    rcases hl with ⟨frames, fault, hl⟩ | ⟨caller, rest, hl⟩
    · rw [hl] at hno
      cases frames with
      | nil => cases fault <;> cases hno
      | cons frame frames => cases hno
    · rw [hl] at hno
      dsimp only at hno
      unfold Host.writeFrame at hno
      rw [hr] at hno
      cases hf : h.wire.writeFault with
      | some text => rw [hf] at hno; cases hno
      | none =>
        rw [hf] at hno
        cases rest <;> cases hno
  | loop i hm ht =>
    rw [ht.link]
    rcases hl with ⟨frames, fault, hl⟩ | ⟨caller, rest, hl⟩
    · rw [hl] at hm ⊢
      cases hm <;>
        simp only [LoopPoint.work, Host.loopEnd, Link.stopped, Host.counted, List.length_cons, List.length_nil] <;>
        omega
    · rw [hl] at hm ⊢
      cases hm with
      | writeFailed caller rest text hf =>
        simp only [LoopPoint.work, Host.loopEnd, Link.stopped]
        omega
      | written caller hf => exact Nat.lt_succ_self _
      | writes caller rest hf hne n hn h0 =>
        have hpos : 0 < rest.length := List.length_pos_iff.mpr hne
        simp only [LoopPoint.work, List.length_drop]
        omega

/-- The loop hands over its packet, or stands in line as long as something is queued. -/
theorem Acts.loop_offers {i : Bool} (ha : Acts h (.advance .loop i) h') (hs : h.link.events.Solo) {p : Packet}
    {frames : List Bytes} {fault : Option FrameError} (hl : h.link.loop = .offering p frames fault) :
    h'.link.loop = .sorting frames fault ∨
      h'.link.loop = h.link.loop ∧ h'.link.events.queue = h.link.events.queue ∧ h.link.events.queue ≠ [] := by
  cases ha with
  | idle a hno =>
    refine .inr ⟨rfl, rfl, fun hq => ?_⟩
    have hno : h.loopStep i = none := hno
    unfold Host.loopStep at hno
    rw [hl] at hno
    exact h.offerEvent_ne_none hs hq _ _ hno
  | loop i hm ht =>
    rw [ht.link]
    rw [hl] at hm ⊢
    cases hm with
    | handed | unheard => exact .inl rfl
    | waits p rest fault ho =>
      refine .inr ⟨hl, (h.link.events.offer_queued ho).1, fun hq => ?_⟩
      cases hc : h.link.events.closed with
      | true => simp [Channel.offer, hc] at ho
      | false =>
        obtain ⟨events, ho'⟩ := hs.offer_of_empty hq hc (.packet p)
        rw [ho] at ho'
        cases ho'

/-- The loop obeys the command at the head of the queue where it looks for commands first. -/
theorem Host.obey_apply {x : LinkCommand} {rest : List LinkCommand} (hl : h.link.loop = .listening)
    (hq : h.link.commands.queue = x :: rest) :
    (h.apply (.advance .loop false)).link.loop.ended = true ∨
      x ≠ .shutdown ∧ (h.apply (.advance .loop false)).link.commands.queue = rest := by
  obtain ⟨commands, woken, hc⟩ : ∃ commands woken, h.link.commands.take? = some (x, commands, woken) := by
    unfold Channel.take?
    rw [hq]
    exact ⟨_, _, rfl⟩
  have hrest : commands.queue = rest := by
    have := (Channel.take_eq_some hc).1
    rw [hq] at this
    exact (List.cons.inj this).2.symm
  show ((h.loopStep false).getD h).link.loop.ended = true ∨ _ ∧ ((h.loopStep false).getD h).link.commands.queue = _
  unfold loopStep
  rw [hl]
  dsimp only
  unfold obeyCommand
  rw [hc]
  dsimp only
  cases x with
  | shutdown => exact .inl rfl
  | write caller frame =>
    refine .inr ⟨nofun, ?_⟩
    generalize hw : wake? _ woken = h₁
    obtain ⟨r, rfl⟩ := wake?_eq hw
    exact hrest

/-- At most `n` commands stand before the one that ends the loop, or it has ended. -/
def Host.ShutsWithin (n : Nat) (h : Host) : Prop :=
  h.link.loop.ended = true ∨ ∃ xs ys, h.link.commands.queue = xs ++ .shutdown :: ys ∧ xs.length ≤ n

theorem Host.ShutsWithin.acts {n : Nat} (hs : h.ShutsWithin n) (ha : Acts h a h') (hu : h.Unstarted) :
    h'.ShutsWithin n := by
  rcases hs with he | ⟨xs, ys, hxs, hle⟩
  · exact .inl (ha.stays_ended hu he)
  rcases ha.queue hu with he | ⟨i, caller, frame, -, -, -, htake⟩ | ⟨⟨zs, hz⟩, -⟩
  · exact .inl he
  · rw [htake] at hxs
    cases xs with
    | nil => cases hxs
    | cons x xs => exact .inr ⟨xs, ys, (List.cons.inj hxs).2, Nat.le_of_succ_le hle⟩
  · exact .inr ⟨xs, ys ++ zs, by rw [hz, hxs, List.append_assoc, List.cons_append], hle⟩

/-- Each command that the loop obeys is one less. -/
theorem Host.ShutsWithin.obey {n : Nat} (hs : h.ShutsWithin n) (hl : h.link.loop = .listening) :
    (h.apply (.advance .loop false)).link.loop.ended = true ∨
      ∃ k < n, (h.apply (.advance .loop false)).ShutsWithin k := by
  rcases hs with he | ⟨xs, ys, hxs, hle⟩
  · rw [hl] at he
    cases he
  cases xs with
  | nil => exact (obey_apply hl hxs).imp_right fun h => absurd rfl h.1
  | cons x xs => exact (obey_apply hl hxs).imp_right fun h => ⟨xs.length, hle, .inr ⟨xs, ys, h.2, Nat.le_refl _⟩⟩

/-! ## Endless runs -/

/-- Nothing holds up the link: the loop gets to act again and again and does not always look for input first, the listener
takes events again and again, and the device takes whatever is written. -/
structure Host.Unhindered (h : Host) (as : List Action) (next : Nat → Action) : Prop where
  loop : ∀ n, ∃ k ≥ n, ∃ i, next k = .advance .loop i
  commands : ∀ n, (h.run (onward as next n)).link.loop = .listening → ∃ k ≥ n,
    (h.run (onward as next k)).link.loop.ended = true ∨
      (h.run (onward as next k)).link.loop = .listening ∧ next k = .advance .loop false
  listener : ∀ n, ∃ k ≥ n, next k = .takeEvent
  device : ∀ n, (h.run (onward as next n)).wire.room = none

/-- A run of a link that goes on forever and that nothing holds up. -/
structure Flowing where
  config : LinkConfig
  as : List Action
  next : Nat → Action
  fair : (Host.ofLink config).Unhindered as next

namespace Flowing

variable (r : Flowing) {n : Nat}

def host (n : Nat) : Host := (Host.ofLink r.config).run (onward r.as r.next n)

theorem host_succ (n : Nat) : r.host (n + 1) = (r.host n).apply (r.next n) := by
  unfold host
  rw [onward_succ, Host.run_concat]

theorem acts (n : Nat) : Acts (r.host n) (r.next n) (r.host (n + 1)) := by
  rw [r.host_succ]
  exact Host.acts_ofLink _ _ _

theorem bare (n : Nat) : (r.host n).Bare := Host.bare_run _ _

theorem solo (n : Nat) : (r.host n).link.events.Solo := (Setup.link r.config).solo_run _

theorem unstarted (n : Nat) : (r.host n).Unstarted := (Setup.link r.config).unstarted_run _

/-- The loop gets through what it has to sort and to write. -/
theorem works {p : LoopPoint} (hl : (r.host n).link.loop = p)
    (hp : (∃ frames fault, p = .sorting frames fault) ∨ ∃ caller rest, p = .writing caller rest) :
    ∃ j ≥ n, (r.host j).link.loop.work < p.work := by
  refine exists_of_turn (T := fun a => ∃ i, a = .advance .loop i) (P := fun j => (r.host j).link.loop = p)
    (Q := fun j => (r.host j).link.loop.work < p.work) (r.fair.loop n) hl ?step ?keep
  case step =>
    intro j hl ⟨i, hi⟩
    have ha := r.acts j
    rw [hi] at ha
    rw [← hl]
    exact ha.loop_works (r.fair.device j) (by rw [hl]; exact hp)
  case keep =>
    intro j hl hact
    exact .inl (((r.acts j).loop_waits (r.bare j) (not_exists.mp hact)).1.trans hl)

/-- The listener makes room for a packet, or has stopped listening, and the loop goes on. -/
theorem hands {p : Packet} {frames : List Bytes} {fault : Option FrameError}
    (hl : (r.host n).link.loop = .offering p frames fault) : ∃ j ≥ n, (r.host j).link.loop = .sorting frames fault := by
  generalize hd : (r.host n).link.events.queue.length = d
  -- as long as the loop waits, only the listener changes what is queued
  have hkeep : ∀ j d, (r.host j).link.loop = .offering p frames fault ∧ (r.host j).link.events.queue.length ≤ d →
      ((r.host (j + 1)).link.loop = .offering p frames fault ∧ (r.host (j + 1)).link.events.queue.length ≤ d) ∨
        (r.host (j + 1)).link.loop = .sorting frames fault := by
    intro j d ⟨hl, hle⟩
    have ha := r.acts j
    by_cases hact : ∃ i, r.next j = .advance .loop i
    · obtain ⟨i, hi⟩ := hact
      rw [hi] at ha
      rcases ha.loop_offers (r.solo j) hl with hs | ⟨hw, hq, -⟩
      · exact .inr hs
      · exact .inl ⟨hw.trans hl, by rw [hq]; exact hle⟩
    · obtain ⟨hw, hq⟩ := ha.loop_waits (r.bare j) (not_exists.mp hact)
      exact .inl ⟨hw.trans hl, Nat.le_trans hq hle⟩
  have hle := Nat.le_of_eq hd
  clear hd
  induction d generalizing n with
  | zero =>
    refine exists_of_turn (T := fun a => ∃ i, a = .advance .loop i)
      (P := fun j => (r.host j).link.loop = .offering p frames fault ∧ (r.host j).link.events.queue.length ≤ 0)
      (r.fair.loop n) ⟨hl, hle⟩ (fun j hj hi => ?_) fun j hj _ => hkeep j 0 hj
    obtain ⟨hl, hle⟩ := hj
    obtain ⟨i, hi⟩ := hi
    have ha := r.acts j
    rw [hi] at ha
    have hnil : (r.host j).link.events.queue = [] := List.eq_nil_of_length_eq_zero (Nat.le_zero.mp hle)
    exact (ha.loop_offers (r.solo j) hl).resolve_right fun h => h.2.2 hnil
  | succ d ih =>
    have htaken : ∃ j ≥ n, (r.host j).link.loop = .sorting frames fault ∨
        (r.host j).link.loop = .offering p frames fault ∧ (r.host j).link.events.queue.length ≤ d := by
      refine exists_of_turn (T := fun a => a = .takeEvent)
        (P := fun j => (r.host j).link.loop = .offering p frames fault ∧ (r.host j).link.events.queue.length ≤ d + 1)
        (r.fair.listener n) ⟨hl, hle⟩ (fun j hj hi => ?_) fun j hj _ => (hkeep j _ hj).imp_right .inl
      obtain ⟨hl, hle⟩ := hj
      have ha := r.acts j
      rw [hi] at ha
      by_cases hq : (r.host j).link.events.queue = []
      · obtain ⟨hw, hlen⟩ := ha.loop_waits (r.bare j) nofun
        refine .inr ⟨hw.trans hl, Nat.le_trans hlen ?_⟩
        rw [hq]
        exact Nat.zero_le _
      · obtain ⟨event, hrest, hw, -⟩ := ha.takes (r.bare j).dispatch hq
        rw [hrest, List.length_cons] at hle
        exact .inr ⟨hw.trans hl, Nat.le_of_succ_le_succ hle⟩
    obtain ⟨j, hj, hs | ⟨hl', hle'⟩⟩ := htaken
    · exact ⟨j, hj, hs⟩
    · obtain ⟨k, hk, hs⟩ := ih hl' hle'
      exact ⟨k, Nat.le_trans hj hk, hs⟩

/-- **The loop comes back to its commands**, if it does not end. -/
theorem listens (n : Nat) : ∃ j ≥ n, (r.host j).link.loop = .listening ∨ (r.host j).link.loop.ended = true := by
  generalize hw : (r.host n).link.loop.work = w
  induction w using Nat.strongRecOn generalizing n with
  | ind w ih =>
    have hless : (∃ j ≥ n, (r.host j).link.loop.work < w) →
        ∃ j ≥ n, (r.host j).link.loop = .listening ∨ (r.host j).link.loop.ended = true := by
      intro ⟨j, hj, hlt⟩
      obtain ⟨k, hk, hx⟩ := ih _ hlt j rfl
      exact ⟨k, Nat.le_trans hj hk, hx⟩
    cases hl : (r.host n).link.loop with
    | absent => exact absurd hl (r.bare n).loop
    | listening => exact ⟨n, Nat.le_refl n, .inl hl⟩
    | sorting frames fault =>
      rw [hl] at hw
      exact hless (hw ▸ r.works hl (.inl ⟨frames, fault, rfl⟩))
    | writing caller rest =>
      rw [hl] at hw
      exact hless (hw ▸ r.works hl (.inr ⟨caller, rest, rfl⟩))
    | offering p frames fault =>
      obtain ⟨j, hj, hs⟩ := r.hands hl
      refine hless ⟨j, hj, ?_⟩
      rw [hl] at hw
      rw [hs, ← hw]
      simp only [LoopPoint.work]
      omega
    | parting reason => exact ⟨n, Nat.le_refl n, .inr (by rw [hl]; rfl)⟩
    | gone => exact ⟨n, Nat.le_refl n, .inr (by rw [hl]; rfl)⟩

theorem shutsWithin_mono {m k : Nat} (hs : (r.host n).ShutsWithin m) (hk : n ≤ k) : (r.host k).ShutsWithin m := by
  induction hk with
  | refl => exact hs
  | step _ ih => exact ih.acts (r.acts _) (r.unstarted _)

/-- **The loop ends when it is told to.** -/
theorem ends {m : Nat} (hs : (r.host n).ShutsWithin m) : ∃ j ≥ n, (r.host j).link.loop.ended = true := by
  induction m using Nat.strongRecOn generalizing n with
  | ind m ih =>
    obtain ⟨j, hj, hl | he⟩ := r.listens n
    · obtain ⟨k, hk, he | ⟨hl, hi⟩⟩ := r.fair.commands j hl
      · exact ⟨k, Nat.le_trans hj hk, he⟩
      · have hnk : n ≤ k + 1 := Nat.le_succ_of_le (Nat.le_trans hj hk)
        have hobey := (r.shutsWithin_mono hs (Nat.le_trans hj hk)).obey hl
        rw [← hi, ← r.host_succ] at hobey
        rcases hobey with he | ⟨l, hlt, hs'⟩
        · exact ⟨k + 1, hnk, he⟩
        · obtain ⟨i, hi, he⟩ := ih l hlt hs'
          exact ⟨i, Nat.le_trans hnk hi, he⟩
    · exact ⟨j, hj, he⟩

/-- **Then every send returns**, unless its call is given up before. -/
theorem returns {s : Send} (he : (r.host n).link.loop.ended = true)
    (hs : s ∈ ((Host.ofLink r.config).outbox (onward r.as r.next n)).called)
    (hturn : ∀ n, ∃ k ≥ n, ∃ i, r.next k = .advance (.call s.caller) i) :
    ∃ j ≥ n, s ∈ ((Host.ofLink r.config).outbox (onward r.as r.next j)).returned.map (·.1) ∨
      ∃ m ∈ (Host.ofLink r.config).moments (onward r.as r.next j), m.givesUp s := by
  rcases (Setup.link r.config).called_run _ hs with hr | hw | hg
  · exact ⟨n, Nat.le_refl n, .inl hr⟩
  · refine exists_of_turn (T := fun a => ∃ i, a = .advance (.call s.caller) i)
      (P := fun j => (r.host j).link.loop.ended = true ∧
        ((Host.ofLink r.config).outbox (onward r.as r.next j)).Awaits (r.host j) s)
      (hturn n) ⟨he, hw⟩ (fun j hj hi => ?_) fun j hj _ => ?_
    · obtain ⟨he, hw⟩ := hj
      obtain ⟨i, hi⟩ := hi
      rw [onward_succ, hi]
      exact .inl ((Setup.link r.config).returned_of_ended _ he hw i)
    · obtain ⟨he, hw⟩ := hj
      have hnext := (Setup.link r.config).awaits_concat _ hw (r.next j)
      rw [← onward_succ] at hnext
      rcases hnext with hr | hw | hg
      · exact .inr (.inl hr)
      · refine .inl ⟨?_, hw⟩
        exact (r.acts j).stays_ended (r.unstarted j) he
      · exact .inr (.inr hg)
  · exact ⟨n, Nat.le_refl n, .inr hg⟩

end Flowing

end TwinLink
