import Mathlib.Data.List.Induction
import Mathlib.Data.List.Nodup
import TwinLink.Proofs.Host.Moves
import TwinLink.Proofs.Host.Turns

/-!
# Runs

* `Acts h a h'` : what the action `a` can make of the host, `h'` being the host after it; `Host.apply_acts`;
* `Host.Numbered` : calls are numbered; `Acts.point` : what is kept by the moves of a call;
* `Moment`, `Host.moments` : the states of a run, each with the action that comes next;
* `Setup` : how a run begins, with a bare link or with a session.
-/

namespace TwinLink

/-! ## Actions -/

/-- The registrations that the application still keeps when it makes a call. -/
def Host.ticketsWithout (h : Host) : Request → List Ticket
  | .await ticket _ => h.tickets.erase ticket
  | _ => h.tickets

/-- The action is not possible: the actor has to wait, or what the action needs is not there. -/
def Host.Refuses (h : Host) : Action → Prop
  | .advance a inputFirst => h.step a inputFirst = none
  | .receive _ => (h.wire.hungUp || h.wire.released) = true
  | .make r => h.canMake r = false
  | .abandon id => h.call? id = none
  | .register .. => h.link.table.closed ≠ none
  | .withdraw ticket => ticket ∉ h.tickets
  | .takeEvent => h.takeEvent? = none
  | .dropListener => h.session.dispatch ≠ .absent
  | _ => False

/-- What an action can make of a host. The steps of actors are their moves; everything else comes from outside. -/
inductive Acts (h : Host) : Action → Host → Prop
  | idle (a : Action) (hr : h.Refuses a) : Acts h a h
  | loop (inputFirst : Bool) {t : LoopTurn} {h' : Host} (hm : LoopMove h h.link.loop t) (ht : h.LoopTurns t h') :
      Acts h (.advance .loop inputFirst) h'
  | dispatcher (inputFirst : Bool) {t : DispatchTurn} {h' : Host} (hm : DispatchMove h h.session.dispatch t)
      (ht : h.DispatchTurns t h') : Acts h (.advance .dispatcher inputFirst) h'
  | call {id : Nat} (inputFirst : Bool) {c : Call} {m : Move} {h' : Host} (hc : h.call? id = some c)
      (hm : CallMove h c c.point m) (hl : h.Leaves c m h') : Acts h (.advance (.call id) inputFirst) h'
  | pass (ms : Nat) (ready : List Actor) : Acts h (.pass ms) { h with now := h.now + ms, ready := ready }
  | receive (bytes : Bytes) (hu : h.wire.hungUp = false) (hr : h.wire.released = false) (ready : List Actor) :
      Acts h (.receive bytes) { h with
        wire := { h.wire with inbound := h.wire.inbound ++ bytes }, ready := ready }
  | hangUp (ready : List Actor) : Acts h .hangUp { h with wire := { h.wire with hungUp := true }, ready := ready }
  | breakRead (text : String) (ready : List Actor) : Acts h (.breakRead text)
      { h with wire := { h.wire with readFault := some text }, ready := ready }
  | breakWrite (text : String) : Acts h (.breakWrite text)
      { h with wire := { h.wire with writeFault := some text } }
  | allow (room : Option Nat) (ready : List Actor) : Acts h (.allow room)
      { h with wire := { h.wire with room := room }, ready := ready }
  | make (r : Request) (hm : h.canMake r) (ready : List Actor) : Acts h (.make r) { h with
      calls := h.calls ++ [{ id := h.made, point := .begun r, holds := r.holdsAtOnce }]
      made := h.made + 1
      tickets := h.ticketsWithout r
      ready := ready }
  | abandon {id : Nat} {c : Call} (hc : h.call? id = some c) (released : Bool)
      (hr : released = h.wire.released ∨ released = true ∧ h.link.loop = .absent) (ready : List Actor) :
      Acts h (.abandon id) { h with
        wire := { h.wire with released := released }
        link := h.link.vacate c
        session := h.session.vacate c
        calls := h.calls.filter fun x => x.id != c.id
        ready := ready }
  | register (type : UInt8) (matcher : Matcher) (ho : h.link.table.closed = none) : Acts h (.register type matcher)
      { h with link := h.link.enroll type matcher, tickets := h.tickets ++ [⟨h.link.table.nextId, type⟩] }
  | withdraw (ticket : Ticket) (ht : ticket ∈ h.tickets) : Acts h (.withdraw ticket)
      { h with link := h.link.withdraw ticket.id, tickets := h.tickets.erase ticket }
  | forward (on : Bool) : Acts h (.forward on) { h with link := { h.link with forwarding := on } }
  | takeEvent (hd : h.session.dispatch = .absent) {event : LinkEvent} {events : Channel LinkEvent} {woken : Option Actor}
      (he : h.link.events.take? = some (event, events, woken)) (ready : List Actor) : Acts h .takeEvent
      { h with link := { h.link with events := events }, ready := ready }
  | dropListener (hd : h.session.dispatch = .absent) (ready : List Actor) : Acts h .dropListener
      { h with link := { h.link with events := h.link.events.discard.1 }, ready := ready }
  | observe : Acts h .observe { h with session := { h.session with observers := h.session.observers + 1 } }
  | dropHandle (released : Bool) (hr : released = h.wire.released ∨ released = true ∧ h.link.loop = .absent)
      (ready : List Actor) : Acts h .dropHandle
      { h with held := false, wire := { h.wire with released := released }, ready := ready }

namespace Host

variable {h h' : Host}

theorem call?_id {id : Nat} {c : Call} (hc : h.call? id = some c) : c.id = id := by
  have := List.find?_some hc
  simpa using this

theorem call?_mem {id : Nat} {c : Call} (hc : h.call? id = some c) : c ∈ h.calls := List.mem_of_find?_eq_some hc

theorem advance_acts (hc : h.Claimed) (a : Actor) (inputFirst : Bool) :
    Acts h (.advance a inputFirst) (h.apply (.advance a inputFirst)) := by
  show Acts h _ ((h.step a inputFirst).getD h)
  cases e : h.step a inputFirst with
  | none => exact .idle _ e
  | some h' =>
    cases a with
    | loop =>
      obtain ⟨t, hm, ht⟩ := loopStep_move hc e
      exact .loop inputFirst hm ht
    | dispatcher =>
      obtain ⟨t, hm, ht⟩ := dispatchStep_move e
      exact .dispatcher inputFirst hm ht
    | call id =>
      obtain ⟨c, m, hc, hm, hl⟩ := callStep_move e
      exact .call inputFirst hc hm hl

/-- The host after waking is the host before it, but for who will act. -/
theorem acts_wake {h₁ : Host} {a : Action} (actor : Actor) (ha : ∀ ready, Acts h a { h₁ with ready := ready }) :
    Acts h a (h₁.wake actor) := by
  generalize hw : h₁.wake actor = h₂
  obtain ⟨r, rfl⟩ := wake_eq hw
  exact ha r

/-- **What an action makes of a host is one of the things that it can.** -/
theorem apply_acts (hc : h.Claimed) (a : Action) : Acts h a (h.apply a) := by
  cases a with
  | advance a inputFirst => exact advance_acts hc a inputFirst
  | pass ms =>
    generalize hw : h.apply (.pass ms) = h₁
    obtain ⟨r, rfl⟩ := wakeAll_eq hw
    exact .pass ms r
  | receive bytes =>
    show Acts h _ (h.receive bytes)
    unfold receive
    split
    · exact .idle _ ‹_›
    · rename_i hw
      simp only [Bool.or_eq_true, not_or, Bool.not_eq_true] at hw
      exact acts_wake .loop fun r => .receive bytes hw.1 hw.2 r
  | hangUp => exact acts_wake .loop fun r => .hangUp r
  | breakRead text => exact acts_wake .loop fun r => .breakRead text r
  | breakWrite text => exact .breakWrite text
  | allow room => exact acts_wake .loop fun r => .allow room r
  | make r =>
    show Acts h _ (h.make r)
    unfold make
    split
    · rename_i hm
      refine acts_wake _ fun ready => ?_
      cases r <;> exact .make _ hm ready
    · rename_i hm
      exact .idle _ (by simpa [Refuses] using hm)
  | abandon id =>
    show Acts h _ ((h.call? id).elim h h.remove)
    cases hc : h.call? id with
    | none => exact .idle _ hc
    | some c =>
      generalize hw : h.remove c = h₁
      obtain ⟨released, r, rfl, hr⟩ := remove_eq hw
      show Acts h _ (h.remove c)
      rw [hw]
      exact .abandon hc released hr r
  | register type matcher =>
    have hreg := register_eq h type matcher
    cases hc : h.link.table.closed <;> rw [hc] at hreg <;> simp only [apply, keepTicket, hreg, Except.map]
    · exact .register type matcher hc
    · exact .idle _ (by simp [Refuses, hc])
  | withdraw ticket =>
    show Acts h _ (h.withdrawTicket ticket)
    unfold withdrawTicket
    split
    · rename_i ht
      exact .withdraw ticket (by simpa using ht)
    · rename_i ht
      exact .idle _ (by simpa [Refuses] using ht)
  | forward on => exact .forward on
  | takeEvent =>
    show Acts h _ ((h.takeEvent?.map (·.2)).getD h)
    cases ht : h.takeEvent? with
    | none => exact .idle _ ht
    | some x =>
      unfold takeEvent? at ht
      split at ht
      · rename_i hd
        obtain ⟨⟨event, events, woken⟩, he, rfl⟩ := Option.map_eq_some_iff.mp ht
        simp only [Option.map_some, Option.getD_some]
        generalize hw : wake? _ woken = h₁
        obtain ⟨r, rfl⟩ := wake?_eq hw
        exact .takeEvent hd he r
      · cases ht
  | dropListener =>
    show Acts h _ (if h.session.dispatch = .absent then h.dropListener else h)
    split
    · rename_i hd
      generalize hw : h.dropListener = h₁
      obtain ⟨r, rfl⟩ := wakeAll_eq hw
      exact .dropListener hd r
    · exact .idle _ ‹_›
  | observe => exact .observe
  | dropHandle =>
    generalize hw : h.apply .dropHandle = h₁
    obtain ⟨released, r, rfl, hr⟩ := checkAttached_eq hw
    exact Acts.dropHandle (h := h) released hr r

end Host

/-! ## Calls -/

/-- Calls are numbered in the order they were made. -/
structure Host.Numbered (h : Host) : Prop where
  ordered : (h.calls.map (·.id)).Pairwise (· < ·)
  made : ∀ c ∈ h.calls, c.id < h.made

namespace Host.Numbered

variable {h h' : Host} {a : Action}

theorem of_sublist (hn : h.Numbered) (hs : (h'.calls.map (·.id)).Sublist (h.calls.map (·.id)))
    (hm : h'.made = h.made) : h'.Numbered := by
  refine ⟨hn.ordered.sublist hs, fun c hc => ?_⟩
  obtain ⟨c', hc', he⟩ := List.mem_map.mp (hs.subset (List.mem_map_of_mem hc))
  rw [hm, ← he]
  exact hn.made c' hc'

theorem leaves {c : Call} {m : Move} (hl : h.Leaves c m h') (hn : h.Numbered) : h'.Numbered :=
  hn.of_sublist (by rw [hl.calls]; exact Move.callsAfter_ids _ _ _) hl.made

theorem acts (ha : Acts h a h') (hn : h.Numbered) : h'.Numbered := by
  cases ha with
  | loop inputFirst hm ht => exact hn.of_sublist (by rw [ht.calls]) ht.made
  | dispatcher inputFirst hm ht => exact hn.of_sublist (by rw [ht.calls]) ht.made
  | call inputFirst hc hm hl => exact hn.leaves hl
  | make r hm ready =>
    constructor
    · rw [List.map_append, List.pairwise_append]
      refine ⟨hn.ordered, by simp, fun i hi j hj => ?_⟩
      obtain ⟨c, hc, rfl⟩ := List.mem_map.mp hi
      obtain rfl : j = h.made := by simpa using hj
      exact hn.made c hc
    · intro c hc
      rcases List.mem_append.mp hc with hc | hc
      · exact Nat.lt_succ_of_lt (hn.made c hc)
      · obtain rfl := List.mem_singleton.mp hc
        exact Nat.lt_succ_self _
  | abandon hc released hr ready => exact hn.of_sublist (List.filter_sublist.map _) rfl
  | _ => exact ⟨hn.ordered, hn.made⟩

/-- A call is known by its number. -/
theorem eq_of_id (hn : h.Numbered) {c c' : Call} (hc : c ∈ h.calls) (hc' : c' ∈ h.calls) (he : c.id = c'.id) :
    c = c' :=
  List.inj_on_of_nodup_map (hn.ordered.imp Nat.ne_of_lt) hc hc' he

theorem call?_of_mem (hn : h.Numbered) {c : Call} (hc : c ∈ h.calls) : h.call? c.id = some c := by
  cases he : h.call? c.id with
  | none => exact absurd (List.find?_eq_none.mp he c hc) (by simp)
  | some c' => rw [hn.eq_of_id (call?_mem he) hc (call?_id he)]

/-- A call after a move of `c` is another one, or what became of `c`. -/
theorem mem_callsAfter (hn : h.Numbered) {c x : Call} {m : Move} (hc : c ∈ h.calls)
    (hx : x ∈ m.callsAfter c h.calls) :
    x ∈ h.calls ∧ x.id ≠ c.id ∨
      (∃ p keeps, m.fate = .goes p keeps ∧ x = { c with point := p, holds := keeps || c.holds }) ∨
      m.fate = .stays ∧ x = c := by
  unfold Move.callsAfter at hx
  split at hx
  · rename_i p keeps hf
    obtain ⟨y, hy, rfl⟩ := List.mem_map.mp hx
    by_cases he : y.id = c.id
    · obtain rfl := hn.eq_of_id hy hc he
      exact .inr (.inl ⟨p, keeps, hf, by simp [Call.goTo]⟩)
    · exact .inl ⟨by simpa [Call.goTo, he] using hy, by simp [Call.goTo, he]⟩
  · rw [List.mem_filter] at hx
    exact .inl ⟨hx.1, by simpa using hx.2⟩
  · rename_i hf
    by_cases he : x.id = c.id
    · exact .inr (.inr ⟨hf, hn.eq_of_id hx hc he⟩)
    · exact .inl ⟨hx, he⟩

/-- What holds of the point of a call holds of every call with its number. -/
theorem point (hn : h.Numbered) {c : Call} (hc : c ∈ h.calls) {P : Point → Prop} (hp : P c.point) :
    c.id < h.made ∧ ∀ x ∈ h.calls, x.id = c.id → P x.point := by
  refine ⟨hn.made c hc, fun x hx he => ?_⟩
  obtain rfl := hn.eq_of_id hc hx he.symm
  exact hp

end Host.Numbered

/-- What holds of the point of a call, and is kept by its moves, holds of it as long as it lasts. -/
theorem Acts.point {h h' : Host} {a : Action} (ha : Acts h a h') (hn : h.Numbered) {P : Point → Prop}
    (hmove : ∀ c ∈ h.calls, ∀ m p keeps, CallMove h c c.point m → m.fate = .goes p keeps → P c.point → P p) {id : Nat}
    (hp : id < h.made ∧ ∀ c ∈ h.calls, c.id = id → P c.point) :
    id < h'.made ∧ ∀ c ∈ h'.calls, c.id = id → P c.point := by
  cases ha with
  | loop inputFirst hm ht => rwa [ht.made, ht.calls]
  | dispatcher inputFirst hm ht => rwa [ht.made, ht.calls]
  | @call _ inputFirst c m h' hc hm hl =>
    refine ⟨by rw [hl.made]; exact hp.1, fun x hx he => ?_⟩
    have hc := Host.call?_mem hc
    rcases hn.mem_callsAfter hc (hl.calls ▸ hx) with ⟨hx, -⟩ | ⟨p, keeps, hf, rfl⟩ | ⟨-, rfl⟩
    · exact hp.2 x hx he
    · exact hmove c hc m p keeps hm hf (hp.2 c hc he)
    · exact hp.2 x hc he
  | make r hm ready =>
    refine ⟨Nat.lt_succ_of_lt hp.1, fun x hx he => ?_⟩
    rcases List.mem_append.mp hx with hx | hx
    · exact hp.2 x hx he
    · obtain rfl := List.mem_singleton.mp hx
      exact absurd hp.1 (by rw [← he]; exact Nat.lt_irrefl _)
  | abandon hc released hr ready => exact ⟨hp.1, fun x hx => hp.2 x (List.mem_filter.mp hx).1⟩
  | _ => exact hp

/-! ## Runs -/

/-- A state of a run and what happens next. -/
structure Moment where
  host : Host
  action : Action

/-- The state that comes next. -/
def Moment.after (m : Moment) : Host := m.host.apply m.action

theorem Moment.acts {m : Moment} (hc : m.host.Claimed) : Acts m.host m.action m.after := Host.apply_acts hc m.action

namespace Host

/-- The moments of a run, in their order. -/
def moments (h : Host) : List Action → List Moment
  | [] => []
  | a :: as => ⟨h, a⟩ :: (h.apply a).moments as

theorem run_concat (h : Host) (as : List Action) (a : Action) : h.run (as ++ [a]) = (h.run as).apply a := by
  simp [run, List.foldl_append]

theorem run_append (h : Host) (as bs : List Action) : h.run (as ++ bs) = (h.run as).run bs :=
  List.foldl_append

theorem moments_append (h : Host) (as bs : List Action) :
    h.moments (as ++ bs) = h.moments as ++ (h.run as).moments bs := by
  induction as generalizing h with
  | nil => rfl
  | cons a as ih => exact congrArg (⟨h, a⟩ :: ·) (ih (h.apply a))

theorem moments_concat (h : Host) (as : List Action) (a : Action) :
    h.moments (as ++ [a]) = h.moments as ++ [⟨h.run as, a⟩] := h.moments_append as [a]

/-- A longer run goes on from a shorter one. -/
theorem moments_mono (h : Host) {as bs : List Action} (hb : bs <+: as) : h.moments bs <+: h.moments as := by
  obtain ⟨cs, rfl⟩ := hb
  rw [moments_append]
  exact List.prefix_append _ _

/-- A moment of a run comes after a shorter run. -/
theorem exists_of_mem_moments {h : Host} {as : List Action} {m : Moment} (hm : m ∈ h.moments as) :
    ∃ bs, bs ++ [m.action] <+: as ∧ m.host = h.run bs := by
  induction as using List.reverseRecOn with
  | nil => cases hm
  | append_singleton as a ih =>
    rw [moments_concat, List.mem_append, List.mem_singleton] at hm
    rcases hm with hm | rfl
    · obtain ⟨bs, hb, he⟩ := ih hm
      exact ⟨bs, hb.trans (List.prefix_append _ _), he⟩
    · exact ⟨as, List.prefix_rfl, rfl⟩

/-- What is seen in a run, moment by moment. -/
theorem seen_concat {α : Type} (f : Moment → Option α) (h : Host) (as : List Action) (a : Action) :
    (h.moments (as ++ [a])).filterMap f = (h.moments as).filterMap f ++ (f ⟨h.run as, a⟩).toList := by
  rw [moments_concat, List.filterMap_append]
  cases hf : f ⟨h.run as, a⟩ <;> simp [hf]

/-- Only what the run itself does is ever entered into the history. -/
theorem history_acts {h h' : Host} {a : Action} (ha : Acts h a h') : ∃ notes, h'.history = notes ++ h.history := by
  cases ha with
  | loop inputFirst hm ht => exact ⟨_, ht.history⟩
  | dispatcher inputFirst hm ht => exact ⟨_, ht.history⟩
  | call inputFirst hc hm hl => exact ⟨_, hl.history⟩
  | _ => exact ⟨[], rfl⟩

end Host

/-- What an action adds to the history, newest first. -/
def Moment.news (m : Moment) : List Note := m.after.history.take (m.after.history.length - m.host.history.length)

theorem Moment.news_eq {m : Moment} {notes : List Note} (h : m.after.history = notes ++ m.host.history) :
    m.news = notes := by
  unfold news
  rw [h, List.length_append, Nat.add_sub_cancel, List.take_left]

/-- How a run begins. -/
inductive Setup
  | link (config : LinkConfig)
  | session (config : SessionConfig) (twin : Twin)

namespace Setup

/-- The host at the beginning. -/
def host : Setup → Host
  | link config => .ofLink config
  | session config twin => .ofSession config twin

/-- The configuration of its link. -/
def linkConfig : Setup → LinkConfig
  | link config => config
  | session config _ => config.link

end Setup
end TwinLink
