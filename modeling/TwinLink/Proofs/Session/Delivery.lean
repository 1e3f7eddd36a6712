import TwinLink.Proofs.Host.Endless
import TwinLink.Proofs.Link.Events
import TwinLink.Proofs.Session.Notifications

/-!
# Every notification is passed on once

The switch lets nothing in before the session is operational, and what it lets in is handled, queued or held by the loop.
What is left is that nothing waits forever. The loop alone sends into the event channel, so it finds a place there
whenever nothing is queued; the dispatcher listens again as soon as the twin has answered, and takes up what is queued.
Each of this stays so until it happens, whatever the others do in the meantime.

* `Acts.dispatcher_stays`, `Acts.loop_stays` : what the others leave alone; `Host.reporting_apply`,
  `Host.listening_apply`, `Host.offering_apply` : what the step does that is waited for;
* `Host.Fair`, `Ongoing` : runs that go on forever; `Ongoing.progress`, `Ongoing.delivered` : nothing waits forever;
* `Host.NotifiesOnce` : what a session tells of its device; `Host.notified_once`.
-/

namespace TwinLink

/-! ## Invariants -/

variable {h h' : Host} {a : Action}

/-- Before a dispatcher listens no loop runs and nothing is queued. -/
def Host.Unheard (h : Host) : Prop :=
  h.session.dispatch = .absent → h.link.loop = .absent ∧ h.link.events.queue = []

theorem Host.Unheard.acts (hi : h.Unheard) (ha : Acts h a h') (hu : h.Unstarted) (hv : a.leavesEvents) :
    h'.Unheard := by
  intro hd
  cases ha with
  | loop i hm ht =>
    rw [ht.session] at hd
    rw [(hi hd).1] at hm
    cases hm
  | dispatcher i hm ht =>
    rw [ht.session] at hd
    generalize hp : h.session.dispatch = p at hm
    cases hm with
    | premature | undescribed | drops => rw [hp] at hd; cases hd
    | _ => cases hd
  | call i hc hm hl =>
    have hframe := (hl.edits hu hm).frame
    rw [hl.session, Move.sessionAfter_dispatch] at hd
    rw [hframe.events, hl.link, Move.linkAfter_loop]
    rcases hm.dispatch with ⟨he, hloop⟩ | ⟨-, he⟩
    · rw [hloop]
      exact hi (he.symm.trans hd)
    · rw [he] at hd
      cases hd
  | @abandon id c hc released hr ready =>
    have hd : (h.session.vacate c).dispatch = .absent := hd
    rw [Session.vacate_dispatch] at hd
    have hframe := (Link.EditsBy.vacate (l := h.link) (c := c) .refl).frame
    exact ⟨(Link.loop_vacate _ _).trans (hi hd).1, (congrArg Channel.queue hframe.events).trans (hi hd).2⟩
  | forward | takeEvent | dropListener => cases hv
  | _ => exact hi hd

theorem Acts.now_le (ha : Acts h a h') : h.now ≤ h'.now := by
  cases ha with
  | loop i hm ht => exact Nat.le_of_eq ht.now.symm
  | dispatcher i hm ht => exact Nat.le_of_eq ht.now.symm
  | call i hc hm hl => exact Nat.le_of_eq hl.now.symm
  | pass ms ready => exact Nat.le_add_right _ _
  | _ => exact Nat.le_refl _

/-! ## Progress -/

/-- While others act the dispatcher stays where it is, and what is queued stays queued. -/
theorem Acts.dispatcher_stays (ha : Acts h a h') (ho : Orderly h) (hu : h.Unstarted) (hv : a.leavesEvents)
    (hd : h.session.dispatch ≠ .absent) (hn : ∀ i, a ≠ .advance .dispatcher i) :
    h'.session.dispatch = h.session.dispatch ∧ h.link.events.queue <+: h'.link.events.queue := by
  cases ha with
  | loop i hm ht =>
    rw [ht.session, ht.link]
    refine ⟨rfl, ?_⟩
    generalize h.link.loop = p at hm
    cases hm with
    | handed p rest fault ho | parts reason ho =>
      rw [(h.link.events.offer_admitted ho).1]
      exact List.prefix_append _ _
    | waits p rest fault ho | partsLater reason ho =>
      rw [(h.link.events.offer_queued ho).1]
    | _ => exact List.prefix_refl _
  | dispatcher i hm ht => exact absurd rfl (hn i)
  | call i hc hm hl =>
    rw [(hl.edits hu hm).frame.events, hl.session, Move.sessionAfter_dispatch]
    refine ⟨?_, List.prefix_refl _⟩
    rcases hm.dispatch with ⟨he, -⟩ | ⟨ht, -⟩
    · exact he
    · exact absurd (ho.idle ht).2.1 hd
  | @abandon id c hc released hr ready =>
    refine ⟨Session.vacate_dispatch _ _, ?_⟩
    show _ <+: (h.link.vacate c).events.queue
    rw [(Link.EditsBy.vacate .refl).frame.events]
  | forward | takeEvent | dropListener => cases hv
  | _ => exact ⟨rfl, List.prefix_refl _⟩

/-- While others act the loop holds on to its packet. -/
theorem Acts.loop_stays (ha : Acts h a h') (hu : h.Unstarted) (hv : a.leavesEvents) {p : Packet}
    {frames : List Bytes} {fault : Option FrameError} (hl : h.link.loop = .offering p frames fault)
    (hn : ∀ i, a ≠ .advance .loop i) (hnd : ∀ i, a ≠ .advance .dispatcher i) :
    h'.link.loop = .offering p frames fault ∧ h'.link.events = h.link.events := by
  have hframe : ∀ {l : Link}, Link.Edits.Frame h.link l → l.loop = .offering p frames fault ∧ l.events = h.link.events :=
    fun hf => by
      refine ⟨?_, hf.events⟩
      rcases hf.loop with he | ⟨he, -⟩
      · rw [he, hl]
      · rw [he] at hl
        cases hl
  cases ha with
  | loop i hm ht => exact absurd rfl (hn i)
  | dispatcher i hm ht => exact absurd rfl (hnd i)
  | call i hc hm hl' => exact hframe (hl'.edits hu hm).frame
  | abandon hc released hr ready => exact hframe (Link.EditsBy.vacate .refl).frame
  | forward | takeEvent | dropListener => cases hv
  | _ => exact ⟨hl, rfl⟩

/-- The dispatcher goes on as soon as the twin is ready. -/
theorem Host.reporting_apply (h : Host) (i : Bool) {call : TwinCall} {pending : Pending}
    (hd : h.session.dispatch = .reporting call pending) :
    ((h.apply (.advance .dispatcher i)).session.dispatch = .reporting call pending ∧ h.now < pending.alarm.due) ∨
    (h.apply (.advance .dispatcher i)).session.dispatch = .listening := by
  show ((h.dispatchStep.getD h).session.dispatch = _ ∧ _) ∨ (h.dispatchStep.getD h).session.dispatch = _
  cases e : h.dispatchStep with
  | none =>
    refine .inl ⟨hd, Nat.lt_of_not_le fun hdue => ?_⟩
    unfold dispatchStep at e
    rw [hd] at e
    dsimp only at e
    rw [if_pos hdue] at e
    cases e
  | some h' =>
    obtain ⟨t, hm, ht⟩ := dispatchStep_move e
    rw [hd] at hm
    cases hm with
    | reported ha =>
      refine .inr ?_
      show h'.session.dispatch = _
      rw [ht.session]

/-- The dispatcher takes up what is queued: it handles a packet, or ends, or finds the session dropped. -/
theorem Host.listening_apply (h : Host) (i : Bool) (hd : h.session.dispatch = .listening)
    (hq : h.link.events.queue ≠ []) :
    (Moment.mk h (.advance .dispatcher i)).deserts ∨ (Moment.mk h (.advance .dispatcher i)).handled.isSome ∨
      (h.apply (.advance .dispatcher i)).session.dispatch = .gone := by
  obtain ⟨event, rest, hq⟩ := List.exists_cons_of_ne_nil hq
  obtain ⟨events, woken, he⟩ : ∃ events woken, h.link.events.take? = some (event, events, woken) := by
    unfold Channel.take?
    rw [hq]
    exact ⟨_, _, rfl⟩
  have htaken : (Moment.mk h (.advance .dispatcher i)).taken = some event := by rw [Moment.dispatch_taken hd, he]; rfl
  cases ha : h.attached with
  | false => exact .inl (by simp [Moment.deserts, htaken, ha])
  | true =>
    refine .inr ?_
    cases event with
    | packet p =>
      rw [Moment.dispatch_handled ha hd he]
      exact .inl rfl
    | closed reason =>
      refine .inr ?_
      show (h.dispatchStep.getD h).session.dispatch = _
      cases e : h.dispatchStep with
      | none =>
        rw [Moment.refused_taken (m := ⟨h, .advance .dispatcher i⟩) e] at htaken
        cases htaken
      | some h' =>
        obtain ⟨t, hm, ht⟩ := dispatchStep_move e
        rw [hd] at hm
        show h'.session.dispatch = _
        rw [ht.session]
        cases hm with
        | deserted | ends => rfl
        | premature he' | undescribed he' | drops he' | reports he' => rw [he] at he'; cases he'

/-- The dispatcher waits where nothing is queued. -/
theorem Host.unqueued_apply (h : Host) (i : Bool) (hd : h.session.dispatch = .listening)
    (hq : h.link.events.queue = []) : h.apply (.advance .dispatcher i) = h := by
  have he : h.link.events.take? = none := by
    unfold Channel.take?
    rw [hq]
  show h.dispatchStep.getD h = h
  unfold dispatchStep
  rw [hd]
  dsimp only
  rw [he]
  rfl

/-- The loop hands its packet over where nothing is queued. -/
theorem Host.offering_apply (h : Host) (i : Bool) {p : Packet} {frames : List Bytes} {fault : Option FrameError}
    (hl : h.link.loop = .offering p frames fault) (hs : h.link.events.Solo) (hq : h.link.events.queue = [])
    (hc : h.link.events.closed = false) : (h.apply (.advance .loop i)).link.events.queue ≠ [] := by
  obtain ⟨events, ho⟩ := hs.offer_of_empty hq hc (.packet p)
  show ((h.loopStep i).getD h).link.events.queue ≠ []
  unfold loopStep
  rw [hl]
  dsimp only
  unfold offerEvent
  rw [ho]
  dsimp only
  rw [Option.getD_some]
  generalize hw : wake _ Actor.dispatcher = h'
  obtain ⟨r, rfl⟩ := wake_eq hw
  show events.queue ≠ []
  rw [(h.link.events.offer_admitted ho).1]
  exact List.append_ne_nil_of_right_ne_nil _ (List.cons_ne_nil _ _)

/-! ## Every run -/

namespace Host

section

variable (config : SessionConfig) (twin : Twin) (as : List Action)

theorem unheard_run (hv : ∀ a ∈ as, a.leavesEvents) : ((ofSession config twin).run as).Unheard := by
  induction as using List.reverseRecOn with
  | nil => exact fun _ => ⟨rfl, rfl⟩
  | append_singleton as a ih =>
    rw [run_concat]
    exact (ih fun a ha => hv a (List.mem_append_left _ ha)).acts (acts_ofSession config twin _ a)
      ((Setup.session config twin).unstarted_run as) (hv a (by simp))

/-- What was once operational has been so ever after. -/
theorem wasOperational_run {h : Host} (ht : h.Tidy) {as bs : List Action} (hb : bs <+: as) (ho : (h.run bs).wasOperational) :
    (h.run as).wasOperational := by
  obtain ⟨cs, rfl⟩ := hb
  rw [run_append]
  refine (ht.run bs).run_inv (P := fun h => h.wasOperational) ho (fun h a h' ha ho => ?_) cs
  obtain ⟨notes, hn⟩ := history_acts ha
  rw [wasOperational_append hn, ho]
  rfl

end

variable {config : SessionConfig} {twin : Twin} {as : List Action}

/-- **What is passed on is what nobody waits for from the moment the session has become operational.** -/
theorem unclaimed_run (hv : ∀ a ∈ as, a.leavesEvents) :
    ((ofSession config twin).moments as).filterMap Moment.unclaimed =
      ((ofSession config twin).moments as).filterMap Moment.forwarded := by
  refine List.filterMap_congr fun m hm => ?_
  obtain ⟨bs, hb, he⟩ := exists_of_mem_moments hm
  have hs := switched_run config twin bs fun a ha => hv a (hb.subset (List.mem_append_left _ ha))
  rw [← he] at hs
  unfold Moment.unclaimed
  rw [← hs.forwarding]
  rfl

/-- What is handled, and what is on its way, at the end of a run. -/
theorem inFlight_run (hv : ∀ a ∈ as, a.leavesEvents) :
    let ms := (ofSession config twin).moments as
    let h := (ofSession config twin).run as
    ms.filterMap Moment.handled <+: ms.filterMap Moment.unclaimed ∧
    ((¬∃ m ∈ ms, m.deserts) → ms.filterMap Moment.handled ++
      (h.link.events.queue ++ h.link.loop.held).filterMap LinkEvent.packet? = ms.filterMap Moment.unclaimed) ∧
    ((¬∃ m ∈ ms, m.deserts) → h.session.dispatch = .gone →
      ms.filterMap Moment.handled = ms.filterMap Moment.unclaimed) := by
  obtain ⟨closing, hp⟩ := (Setup.session config twin).passed_run as
  dsimp only
  rw [unclaimed_run hv]
  exact (ledger_run config twin as hv).inFlight hp

end Host

/-! ## Endless runs -/

/-- The loop and the dispatcher get to act again and again, and time goes on. -/
structure Host.Fair (h : Host) (as : List Action) (next : Nat → Action) : Prop where
  loop : ∀ n, ∃ k ≥ n, ∃ i, next k = .advance .loop i
  dispatcher : ∀ n, ∃ k ≥ n, ∃ i, next k = .advance .dispatcher i
  clock : ∀ t, ∃ n, t ≤ (h.run (onward as next n)).now

/-- A run of a session that goes on forever, in which nobody is kept from acting and the application leaves the events to
the session. -/
structure Ongoing where
  config : SessionConfig
  twin : Twin
  as : List Action
  next : Nat → Action
  leaves : ∀ a ∈ as, a.leavesEvents
  leavesNext : ∀ n, (next n).leavesEvents
  fair : (Host.ofSession config twin).Fair as next

namespace Ongoing

variable (r : Ongoing)

def actions (n : Nat) : List Action := onward r.as r.next n

def host (n : Nat) : Host := (Host.ofSession r.config r.twin).run (r.actions n)

def moments (n : Nat) : List Moment := (Host.ofSession r.config r.twin).moments (r.actions n)

def handled (n : Nat) : List Packet := (r.moments n).filterMap Moment.handled

def unclaimed (n : Nat) : List Packet := (r.moments n).filterMap Moment.unclaimed

def deserted (n : Nat) : Prop := ∃ m ∈ r.moments n, m.deserts

variable {n k : Nat}

theorem leaves_actions : ∀ a ∈ r.actions n, a.leavesEvents := fun a ha => by
  rcases List.mem_append.mp ha with ha | ha
  · exact r.leaves a ha
  · obtain ⟨i, -, rfl⟩ := List.mem_map.mp ha
    exact r.leavesNext i

theorem host_succ (n : Nat) : r.host (n + 1) = (r.host n).apply (r.next n) := by
  unfold host actions
  rw [onward_succ, Host.run_concat]

theorem acts (n : Nat) : Acts (r.host n) (r.next n) (r.host (n + 1)) := by
  rw [r.host_succ]
  exact Host.acts_ofSession _ _ _ _

theorem orderly (n : Nat) : Orderly (r.host n) := Host.orderly_run _ _ _

theorem unstarted (n : Nat) : (r.host n).Unstarted := (Setup.session r.config r.twin).unstarted_run _

theorem handled_succ (n : Nat) :
    r.handled (n + 1) = r.handled n ++ (Moment.mk (r.host n) (r.next n)).handled.toList := by
  unfold handled moments actions
  rw [onward_succ, Host.seen_concat]
  rfl

theorem deserted_succ (n : Nat) : r.deserted (n + 1) ↔ r.deserted n ∨ (Moment.mk (r.host n) (r.next n)).deserts := by
  unfold deserted moments actions
  rw [onward_succ]
  exact Host.exists_moment_concat _ _ _

theorem moments_mono (h : n ≤ k) : r.moments n <+: r.moments k := Host.moments_mono _ (onward_mono _ _ h)

theorem handled_mono (h : n ≤ k) : r.handled n <+: r.handled k := (r.moments_mono h).filterMap _

theorem unclaimed_mono (h : n ≤ k) : r.unclaimed n <+: r.unclaimed k := (r.moments_mono h).filterMap _

theorem now_mono (h : n ≤ k) : (r.host n).now ≤ (r.host k).now := by
  induction h with
  | refl => exact Nat.le_refl _
  | step _ ih => exact Nat.le_trans ih (r.acts _).now_le

/-- While others act the dispatcher stays where it is, and what is queued stays queued. -/
theorem stays {p : DispatchPoint} (hd : (r.host n).session.dispatch = p) (hp : p ≠ .absent)
    (hn : ∀ i, r.next n ≠ .advance .dispatcher i) : (r.host (n + 1)).session.dispatch = p ∧
      (r.host n).link.events.queue <+: (r.host (n + 1)).link.events.queue := by
  subst hd
  exact (r.acts n).dispatcher_stays (r.orderly n) (r.unstarted n) (r.leavesNext n) hp hn

/-- The twin answers in time, and then the dispatcher listens again. -/
theorem listens (ha : (r.host n).session.dispatch ≠ .absent) (hg : (r.host n).session.dispatch ≠ .gone) :
    ∃ j ≥ n, (r.host j).session.dispatch = .listening := by
  cases hd : (r.host n).session.dispatch with
  | absent => exact absurd hd ha
  | gone => exact absurd hd hg
  | listening => exact ⟨n, Nat.le_refl n, hd⟩
  | reporting call pending =>
    obtain ⟨k₁, hdue⟩ := r.fair.clock pending.alarm.due
    obtain ⟨k, hk, i, hi⟩ := r.fair.dispatcher (max n k₁)
    have hdue : pending.alarm.due ≤ (r.host k).now :=
      Nat.le_trans hdue (r.now_mono (Nat.le_trans (Nat.le_max_right n k₁) hk))
    refine exists_of_persists (P := fun j => (r.host j).session.dispatch = .reporting call pending)
      (Q := fun j => (r.host j).session.dispatch = .listening) hd (fun j hj => ?_)
      (Nat.le_trans (Nat.le_max_left n k₁) hk) fun hj => ?_
    · by_cases hact : ∃ i, r.next j = .advance .dispatcher i
      · obtain ⟨i, hi⟩ := hact
        rw [r.host_succ, hi]
        exact (Host.reporting_apply _ i hj).imp_left And.left
      · exact .inl (r.stays hj nofun (not_exists.mp hact)).1
    · rw [r.host_succ, hi]
      exact (Host.reporting_apply _ i hj).resolve_left fun h => Nat.not_lt.mpr hdue h.2

/-- What stays until `who` acts leads to what comes of that. -/
theorem leads {P Q : Nat → Prop} {who : Actor} (hfair : ∃ k ≥ n, ∃ i, r.next k = .advance who i) (hn : P n)
    (hstep : ∀ j i, P j → r.next j = .advance who i → Q (j + 1))
    (hkeep : ∀ j, P j → (∀ i, r.next j ≠ .advance who i) → P (j + 1) ∨ Q (j + 1)) : ∃ j ≥ n, Q j := by
  refine exists_of_turn (T := fun a => ∃ i, a = .advance who i) hfair hn (fun j hj ⟨i, hi⟩ => hstep j i hj hi)
    fun j hj hact => hkeep j hj (not_exists.mp hact)

/-- While the dispatcher listens the channel is open. -/
theorem events_open (hd : (r.host n).session.dispatch = .listening) : (r.host n).link.events.closed = false := by
  by_contra hc
  have hgone : (r.host n).session.dispatch = .gone :=
    (Host.ledger_run r.config r.twin _ r.leaves_actions).deaf (Bool.of_not_eq_false hc)
  rw [hgone] at hd
  cases hd

/-- The loop hands over what it holds. -/
theorem queues {p : Packet} {frames : List Bytes} {fault : Option FrameError}
    (hd : (r.host n).session.dispatch = .listening) (hq : (r.host n).link.events.queue = [])
    (hl : (r.host n).link.loop = .offering p frames fault) :
    ∃ j ≥ n, (r.host j).session.dispatch = .listening ∧ (r.host j).link.events.queue ≠ [] := by
  refine r.leads (P := fun j => (r.host j).session.dispatch = .listening ∧ (r.host j).link.events.queue = [] ∧
      (r.host j).link.loop = .offering p frames fault)
    (Q := fun j => (r.host j).session.dispatch = .listening ∧ (r.host j).link.events.queue ≠ [])
    (r.fair.loop n) ⟨hd, hq, hl⟩ ?step ?keep
  case step =>
    intro j i ⟨hd, hq, hl⟩ hi
    refine ⟨(r.stays hd nofun (by rw [hi]; exact nofun)).1, ?_⟩
    rw [r.host_succ, hi]
    exact Host.offering_apply _ i hl ((Setup.session r.config r.twin).solo_run _) hq (r.events_open hd)
  case keep =>
    intro j ⟨hd, hq, hl⟩ hact
    refine .inl ?_
    by_cases hdisp : ∃ i, r.next j = .advance .dispatcher i
    · obtain ⟨i, hi⟩ := hdisp
      rw [r.host_succ, hi, Host.unqueued_apply _ i hd hq]
      exact ⟨hd, hq, hl⟩
    · obtain ⟨hl', he⟩ := (r.acts j).loop_stays (r.unstarted j) (r.leavesNext j) hl hact (not_exists.mp hdisp)
      exact ⟨(r.stays hd nofun (not_exists.mp hdisp)).1, by rw [he]; exact hq, hl'⟩

/-- The dispatcher takes up what is queued. -/
theorem handles (hd : (r.host n).session.dispatch = .listening) (hq : (r.host n).link.events.queue ≠ []) :
    ∃ j ≥ n, r.deserted j ∨ (r.handled n).length < (r.handled j).length ∨
      (r.host j).session.dispatch = .gone := by
  refine r.leads (P := fun j => (r.host j).session.dispatch = .listening ∧ (r.host j).link.events.queue ≠ [] ∧
      (r.handled n).length ≤ (r.handled j).length)
    (Q := fun j => r.deserted j ∨ (r.handled n).length < (r.handled j).length ∨ (r.host j).session.dispatch = .gone)
    (r.fair.dispatcher n) ⟨hd, hq, Nat.le_refl _⟩ ?step ?keep
  case step =>
    intro j i ⟨hd, hq, hle⟩ hi
    rcases Host.listening_apply (r.host j) i hd hq with hx | hx | hx <;> rw [← hi] at hx
    · exact .inl ((r.deserted_succ j).mpr (.inr hx))
    · obtain ⟨p, hp⟩ := Option.isSome_iff_exists.mp hx
      refine .inr (.inl ?_)
      rw [r.handled_succ, hp, Option.toList_some, List.length_append]
      exact Nat.lt_succ_of_le hle
    · exact .inr (.inr (by rw [r.host_succ]; exact hx))
  case keep =>
    intro j ⟨hd, hq, hle⟩ hact
    obtain ⟨hd', hpre⟩ := r.stays hd nofun hact
    refine .inl ⟨hd', fun hnil => hq (List.prefix_nil.mp (hnil ▸ hpre)), ?_⟩
    rw [r.handled_succ, List.length_append]
    exact Nat.le_add_right_of_le hle

/-- What is handled, and what is on its way. -/
theorem inFlight (n : Nat) : r.handled n <+: r.unclaimed n ∧
    (¬r.deserted n → r.handled n ++
      ((r.host n).link.events.queue ++ (r.host n).link.loop.held).filterMap LinkEvent.packet? = r.unclaimed n) ∧
    (¬r.deserted n → (r.host n).session.dispatch = .gone → r.handled n = r.unclaimed n) :=
  Host.inFlight_run r.leaves_actions

/-- Where all is taken up, more is than where something was missing. -/
theorem lt_of_all (hleft : r.handled n ≠ r.unclaimed n) (hk : n ≤ k) (hall : r.handled k = r.unclaimed k) :
    (r.handled n).length < (r.handled k).length := by
  rw [hall]
  refine Nat.lt_of_lt_of_le (Nat.lt_of_not_le fun hle => hleft ?_) (r.unclaimed_mono hk).length_le
  exact (r.inFlight n).1.eq_of_length_le hle

/-- What is not taken up is on its way. -/
theorem pending (hno : ¬r.deserted n) (hleft : r.handled n ≠ r.unclaimed n) :
    ((r.host n).link.events.queue ++ (r.host n).link.loop.held).filterMap LinkEvent.packet? ≠ [] := fun hnil => by
  have hall := (r.inFlight n).2.1 hno
  rw [hnil, List.append_nil] at hall
  exact hleft hall

/-- **While a packet is on its way, one more is taken up in the end.** -/
theorem progress (hno : ¬r.deserted n) (hleft : r.handled n ≠ r.unclaimed n) :
    ∃ j ≥ n, r.deserted j ∨ (r.handled n).length < (r.handled j).length := by
  have hgone : (r.host n).session.dispatch ≠ .gone := fun hd => hleft ((r.inFlight n).2.2 hno hd)
  have habsent : (r.host n).session.dispatch ≠ .absent := fun hd => r.pending hno hleft (by
    obtain ⟨hl, hq⟩ := Host.unheard_run r.config r.twin _ r.leaves_actions hd
    rw [show (r.host n).link.loop = .absent from hl, show (r.host n).link.events.queue = [] from hq]
    rfl)
  obtain ⟨j, hj, hlistens⟩ := r.listens habsent hgone
  by_cases hnoj : r.deserted j
  · exact ⟨j, hj, .inl hnoj⟩
  by_cases hleftj : r.handled j = r.unclaimed j
  · exact ⟨j, hj, .inr (r.lt_of_all hleft hj hleftj)⟩
  -- something is queued by the time the dispatcher gets to it
  obtain ⟨i, hi, hlistens, hq⟩ :
      ∃ i ≥ j, (r.host i).session.dispatch = .listening ∧ (r.host i).link.events.queue ≠ [] := by
    by_cases hq : (r.host j).link.events.queue = []
    · have hpending := r.pending hnoj hleftj
      rw [hq] at hpending
      cases hl : (r.host j).link.loop with
      | offering p frames fault => exact r.queues hlistens hq hl
      | _ => rw [hl] at hpending; exact absurd rfl hpending
    · exact ⟨j, Nat.le_refl j, hlistens, hq⟩
  have hle : (r.handled n).length ≤ (r.handled i).length := (r.handled_mono (Nat.le_trans hj hi)).length_le
  obtain ⟨k, hk, hx⟩ := r.handles hlistens hq
  have hnk : n ≤ k := Nat.le_trans hj (Nat.le_trans hi hk)
  rcases hx with hx | hx | hx
  · exact ⟨k, hnk, .inl hx⟩
  · exact ⟨k, hnk, .inr (Nat.lt_of_le_of_lt hle hx)⟩
  · by_cases hnok : r.deserted k
    · exact ⟨k, hnk, .inl hnok⟩
    · exact ⟨k, hnk, .inr (r.lt_of_all hleft hnk ((r.inFlight k).2.2 hnok hx))⟩

/-- **Everything that came in for the dispatcher is taken up in the end**, unless the session is dropped. -/
theorem delivered : ∃ n, r.deserted n ∨
    ((Host.ofSession r.config r.twin).moments r.as).filterMap Moment.unclaimed <+: r.handled n := by
  have hstart : r.actions 0 = r.as := List.append_nil _
  suffices ∀ d n, (r.unclaimed 0).length ≤ (r.handled n).length + d →
      ∃ j, r.deserted j ∨ r.unclaimed 0 <+: r.handled j by
    have := this _ 0 (Nat.le_add_left _ _)
    rwa [unclaimed, moments, hstart] at this
  intro d
  induction d with
  | zero =>
    intro n hle
    exact ⟨n, .inr (List.prefix_of_prefix_length_le (r.unclaimed_mono (Nat.zero_le n)) (r.inFlight n).1 hle)⟩
  | succ d ih =>
    intro n hle
    by_cases hd : r.deserted n
    · exact ⟨n, .inl hd⟩
    by_cases hall : r.handled n = r.unclaimed n
    · exact ⟨n, .inr (hall ▸ r.unclaimed_mono (Nat.zero_le n))⟩
    obtain ⟨j, -, hj | hj⟩ := r.progress hd hall
    · exact ⟨j, .inl hj⟩
    · exact ih j (by omega)

end Ongoing

/-! ## Notifications -/

namespace Moment

theorem unclaimed_eq_some_iff {m : Moment} {p : Packet} : m.unclaimed = some p ↔
    ∃ frame, m.sorted = some frame ∧ Packet.ofFrame frame = .ok p ∧ m.host.wasOperational ∧
      m.host.link.table.entries.any (·.accepts p) = false := by
  unfold unclaimed
  rw [Option.bind_eq_some_iff]
  refine exists_congr fun frame => and_congr_right fun _ => ?_
  cases hp : Packet.ofFrame frame with
  | error e => exact ⟨nofun, fun h => nomatch h.1⟩
  | ok q =>
    dsimp only
    constructor
    · intro h
      split_ifs at h with hx
      obtain rfl := Option.some.inj h
      exact ⟨rfl, by simpa using hx⟩
    · rintro ⟨hq, hw, hno⟩
      obtain rfl := Except.ok.inj hq
      rw [hw, hno]
      rfl

theorem listening_of_handled {m : Moment} {p : Packet} (hp : m.handled = some p) (hv : m.action.leavesEvents) :
    m.host.session.dispatch = .listening := by
  obtain ⟨h, a⟩ := m
  unfold handled at hp
  split_ifs at hp
  cases ht : (Moment.mk h a).taken with
  | none => rw [ht] at hp; cases hp
  | some event =>
    unfold taken at ht
    split at ht
    · rename_i ha
      rw [ha] at hv
      cases hv
    · split at ht
      · assumption
      · cases ht
    · cases ht

/-- A frame that is sorted while nothing is passed on is kept for nobody. -/
theorem held_of_sorted {m : Moment} (hcl : m.host.Claimed) (hoff : m.host.link.forwarding = false)
    (hs : m.sorted.isSome) : m.after.link.events = m.host.link.events ∧ m.after.link.loop.held = [] := by
  obtain ⟨frame, hs⟩ := Option.isSome_iff_exists.mp hs
  obtain ⟨rest, fault, t, hl, hm, ht⟩ := sorted_move hs hcl
  rw [hl] at hm
  rw [ht.link]
  cases hm with
  | passed frame rest fault p hp hm hon => rw [hoff] at hon; cases hon
  | _ => exact ⟨rfl, rfl⟩

end Moment

/-- **What a session tells of its device**, in a run and however it goes on. -/
structure Host.NotifiesOnce (start : Host) (as : List Action) : Prop where
  /-- The frames are sorted in the order in which their bytes arrive. -/
  arrival : ∃ read fault, (start.moments as).flatMap Moment.arrived = read ++ (start.run as).wire.inbound ∧
    (Decoder.ofLimit start.session.config.link.maxFrameSize).feedChunk read =
      ((start.run as).link.decoder,
        (start.moments as).filterMap Moment.sorted ++ (start.run as).link.loop.waiting, fault)
  /-- The observers and the twin are told at the moments at which the dispatcher takes up a packet: each observer in
  turn, then the twin. -/
  told : (start.run as).notifications = (start.moments as).flatMap Moment.notices
  /-- They are told what the packet reports, if the session is operational. -/
  reported : ∀ m ∈ start.moments as, ∀ call, m.reported = some call ↔
    ∃ p d, m.handled = some p ∧ m.host.session.phase = .operational ∧ m.host.session.descriptor = some d ∧
      d.Reports p call
  /-- The packets taken up are those of the frames that were sorted after the session had become operational and that
  nobody waited for, each of them once and in their order. -/
  inOrder : (start.moments as).filterMap Moment.handled <+: (start.moments as).filterMap Moment.unclaimed
  /-- None is lost, unless the session is dropped: what is not taken up is queued, or about to be. -/
  onItsWay : (∀ m ∈ start.moments as, ¬m.deserts) →
    (start.moments as).filterMap Moment.handled ++
      ((start.run as).link.events.queue ++ (start.run as).link.loop.held).filterMap LinkEvent.packet? =
        (start.moments as).filterMap Moment.unclaimed
  /-- A packet that is taken up finds the session operational and its device known, unless there was a close. -/
  operational : ∀ bs a p, bs ++ [a] <+: as → (Moment.mk (start.run bs) a).handled = some p →
    (∀ m ∈ start.moments bs, ¬m.closes) →
      (start.run bs).session.phase = .operational ∧ (start.run bs).session.descriptor.isSome
  /-- A frame that is sorted before the session has become operational is kept for nobody. -/
  early : ∀ m ∈ start.moments as, m.sorted.isSome → ¬m.host.wasOperational →
    m.after.link.events = m.host.link.events ∧ m.after.link.loop.held = []
  /-- In the end every packet is taken up, unless the session is dropped. -/
  inTheEnd : ∀ next, (∀ n, (next n).leavesEvents) → start.Fair as next →
    ∃ n, (∃ m ∈ start.moments (onward as next n), m.deserts) ∨
      (start.moments as).filterMap Moment.unclaimed <+:
        (start.moments (onward as next n)).filterMap Moment.handled

namespace Host

/-- **What is taken up finds the session operational**, unless there was a close. -/
theorem operational_of_handled {config : SessionConfig} {twin : Twin} {as : List Action} {a : Action} {p : Packet}
    (hv : ∀ x ∈ as ++ [a], x.leavesEvents) (hp : (Moment.mk ((ofSession config twin).run as) a).handled = some p)
    (hc : ∀ m ∈ (ofSession config twin).moments as, ¬m.closes) :
    ((ofSession config twin).run as).session.phase = .operational ∧
      ((ofSession config twin).run as).session.descriptor.isSome := by
  have hs := switched_run config twin as fun x hx => hv x (List.mem_append_left _ hx)
  -- its frame was sorted after the session had become operational
  have hmem : p ∈ ((ofSession config twin).moments (as ++ [a])).filterMap Moment.unclaimed := by
    refine (inFlight_run hv).1.subset ?_
    rw [seen_concat, hp]
    exact List.mem_append_right _ (List.mem_singleton.mpr rfl)
  obtain ⟨m, hm, hmp⟩ := List.mem_filterMap.mp hmem
  obtain ⟨frame, -, -, hwas, -⟩ := Moment.unclaimed_eq_some_iff.mp hmp
  obtain ⟨bs, hb, he⟩ := exists_of_mem_moments hm
  have hle : bs.length ≤ as.length := by
    have := hb.length_le
    rw [List.length_append, List.length_append] at this
    exact Nat.le_of_add_le_add_right this
  have hb : bs <+: as :=
    List.prefix_of_prefix_length_le ((List.prefix_append _ _).trans hb) (List.prefix_append _ _) hle
  have hwas := wasOperational_run (Setup.session config twin).tidy hb (he ▸ hwas)
  have hd : ((ofSession config twin).run as).session.dispatch = .listening :=
    Moment.listening_of_handled hp (hv a (by simp))
  refine ⟨(hs.phase hwas).resolve_right ?_, hs.descriptor hwas⟩
  rintro ⟨-, ⟨m, hm, hmc⟩ | hgone⟩
  · exact hc m hm hmc
  · rw [hd] at hgone
    cases hgone

/-- The loop, the dispatcher and the clock take turns. -/
def inTurn (n : Nat) : Action :=
  match n % 3 with
  | 0 => .advance .loop true
  | 1 => .advance .dispatcher true
  | _ => .pass 1

theorem fair_inTurn (ht : h.Tidy) (as : List Action) : h.Fair as inTurn := by
  refine ⟨fun n => ⟨3 * n, by omega, true, ?_⟩, fun n => ⟨3 * n + 1, by omega, true, ?_⟩, fun t => ⟨3 * t, ?_⟩⟩
  · simp [inTurn]
  · simp [inTurn, Nat.add_mod]
  · induction t with
    | zero => exact Nat.zero_le _
    | succ t ih =>
      have hpass : inTurn (3 * t + 2) = .pass 1 := by simp [inTurn, Nat.add_mod]
      show t + 1 ≤ (h.run (onward as inTurn (3 * t + 3))).now
      rw [onward_succ, run_concat, hpass, onward_succ, run_concat, onward_succ, run_concat]
      have hnow : ∀ h : Host, (h.apply (.pass 1)).now = h.now + 1 := fun h => by
        generalize hw : h.apply (.pass 1) = h₁
        obtain ⟨r, rfl⟩ := wakeAll_eq hw
        rfl
      rw [hnow]
      have ht' := ht.run (onward as inTurn (3 * t))
      exact Nat.succ_le_succ (Nat.le_trans ih
        (Nat.le_trans (apply_acts ht'.claimed _).now_le (apply_acts (ht'.apply _).claimed _).now_le))

/-- An event comes during the handshake and two come after it, then the link is lost. The twin takes five milliseconds
over each event. -/
def toldSlowly : List Action :=
  let call := Action.advance (.call 0) false
  let loop := Action.advance .loop false
  let dispatcher := Action.advance .dispatcher false
  let device := fun p : Packet => Action.receive (Frame.encode p.toBytes)
  let event := fun text : Bytes => device (.ofKind .eventNotification ([0, 1, 98] ++ text))
  [.observe, .make .start, call, call, loop, loop, loop, call,
    device (.bare .resetResponse), loop, loop, loop, call, call, loop, loop, loop, call,
    event [48], loop, loop, loop,
    device (.ofKind .descriptorResponse [1, 0, 5, 1, 0, 97, 3, 1, 98, 0, 0, 0, 7, 0]), loop, loop, loop,
    call, call, call, call, call, call,
    event [49], event [50], loop, loop, loop, loop, loop, loop,
    dispatcher, .hangUp, loop, loop, .pass 5, dispatcher, dispatcher]

end Host
end TwinLink
