import TwinLink.Proofs.Link.Routing
import TwinLink.Proofs.Session.Switch

/-!
# What observers and the twin are told

The dispatcher takes up, one by one, the packets that the loop has passed on, and tells the observers and the twin what
each of them reports. No call tells them anything of the kind, so what they were told can be read off the packets taken
up; and what was taken up, what is queued and what the loop holds are the packets passed on.

* `Descriptor.Reports d p call` : what the packet `p` reports about the device `d`;
* `Host.notifications` : the calls by which observers and the twin were told of the device;
* `Moment.unclaimed`, `Moment.handled`, `Moment.deserts`, `Moment.notices` : the packet that comes in for the dispatcher,
  the one that it takes up, that it finds the session dropped, and whom it tells;
* `CallMove.silent` : what a call does tells nobody; `Moment.filter_news`, `Host.notifications_run` : what is told;
* `Ledger` : what the dispatcher has made of the events that it took; `Ledger.inFlight` : the packets on their way.
-/

namespace TwinLink

/-! ## What a packet reports -/

/-- A notification reports a value of an event or a property that the device has, if its payload has a name and the
value can be read under the schema of that field. -/
inductive Descriptor.Reports (d : Descriptor) (p : Packet) : TwinCall → Prop
  | event (payload : NamedPayload) (i : Interface) (e : Event) (value : String)
      (hk : p.kind? = some .eventNotification) (hp : NamedPayload.decode p.payload = .ok payload)
      (hf : d.resolve (·.event? payload.name) payload.index.toNat = some (i, e))
      (hv : e.schema.toText payload.data = .ok value) : Reports d p (.event i.id payload.name value)
  | property (payload : NamedPayload) (i : Interface) (x : Property) (value : String)
      (hk : p.kind? = some .propertyNotification) (hp : NamedPayload.decode p.payload = .ok payload)
      (hf : d.resolve (·.property? payload.name) payload.index.toNat = some (i, x))
      (hv : x.schema.toText payload.data = .ok value) : Reports d p (.property i.id payload.name value)

theorem Descriptor.understand_eq_ok_iff {d : Descriptor} {p : Packet} {call : TwinCall} :
    d.understand p = .ok call ↔ d.Reports p call := by
  constructor
  · intro hu
    unfold understand understandEvent understandProperty at hu
    split at hu
    · rename_i hk
      split at hu
      · cases hu
      · rename_i payload hp
        split at hu
        · cases hu
        · rename_i i e hf
          split at hu
          · cases hu
          · rename_i value hv
            cases hu
            exact .event payload i e value hk hp hf hv
    · rename_i hk
      split at hu
      · cases hu
      · rename_i payload hp
        split at hu
        · cases hu
        · rename_i i x hf
          split at hu
          · cases hu
          · rename_i value hv
            cases hu
            exact .property payload i x value hk hp hf hv
    · cases hu
  · intro hr
    cases hr with
    | event payload i e value hk hp hf hv => simp only [understand, hk, hp, understandEvent, hf, hv]
    | property payload i x value hk hp hf hv => simp only [understand, hk, hp, understandProperty, hf, hv]

/-! ## What is seen of a run -/

/-- The entry tells an observer or the twin of the device: a value reported to an observer, an event reported to the
twin, or a property reported to it by the dispatcher. -/
def Note.notifies (n : Note) : Bool :=
  match n.what with
  | .observed .. => true
  | .toldTwin (.event ..) _ => true
  | .toldTwin (.property ..) _ => n.actor == .dispatcher
  | _ => false

/-- The calls by which observers and the twin were told of the device, oldest first. -/
def Host.notifications (h : Host) : List Note := (h.history.filter Note.notifies).reverse

/-- The packet that an event brings. -/
def LinkEvent.packet? : LinkEvent → Option Packet
  | packet p => some p
  | closed _ => none

namespace Moment

/-- The packet of a frame that the loop sorts after the session has become operational, and that nobody waits for. -/
def unclaimed (m : Moment) : Option Packet :=
  m.sorted.bind fun frame => match Packet.ofFrame frame with
    | .ok p => if m.host.wasOperational && !m.host.link.table.entries.any (·.accepts p) then some p else none
    | .error _ => none

/-- The packet that the dispatcher takes up, as long as something keeps the session alive. -/
def handled (m : Moment) : Option Packet := if m.host.attached then m.taken.bind LinkEvent.packet? else none

/-- The dispatcher finds the session dropped. -/
def deserts (m : Moment) : Bool := m.taken.isSome && !m.host.attached

/-- What is reported at this moment: what the packet taken up reports, if the session is operational. -/
def reported (m : Moment) : Option TwinCall :=
  if m.host.session.phase = .operational then
    m.handled.bind fun p => m.host.session.descriptor.bind fun d => (d.understand p).toOption
  else none

/-- The calls by which that is reported: to each observer in turn, then to the twin. -/
def notices (m : Moment) : List Note :=
  m.reported.elim [] fun call =>
    (List.range m.host.session.observers).map (fun n => ⟨.dispatcher, m.host.now, .observed n call⟩) ++
      [⟨.dispatcher, m.host.now, .toldTwin call (m.host.session.twin m.host.session.asked call)⟩]

theorem reported_eq_some_iff {m : Moment} {call : TwinCall} : m.reported = some call ↔
    ∃ p d, m.handled = some p ∧ m.host.session.phase = .operational ∧ m.host.session.descriptor = some d ∧
      d.Reports p call := by
  unfold reported
  constructor
  · intro hr
    split_ifs at hr with hph
    obtain ⟨p, hp, hr⟩ := Option.bind_eq_some_iff.mp hr
    obtain ⟨d, hd, hr⟩ := Option.bind_eq_some_iff.mp hr
    refine ⟨p, d, hp, hph, hd, Descriptor.understand_eq_ok_iff.mp ?_⟩
    cases hu : d.understand p with
    | error r => rw [hu] at hr; cases hr
    | ok x => rw [hu] at hr; cases hr; rfl
  · rintro ⟨p, d, hp, hph, hd, hr⟩
    rw [if_pos hph, hp, Option.bind_some, hd, Option.bind_some, Descriptor.understand_eq_ok_iff.mpr hr]
    rfl

theorem handled_none {m : Moment} (ht : m.taken = none) : m.handled = none := by
  unfold handled
  rw [ht]
  exact ite_self _

theorem notices_none {m : Moment} (hh : m.handled = none) : m.notices = [] := by
  unfold notices reported
  rw [hh, Option.bind_none, ite_self]
  rfl

end Moment

/-! ## What a moment adds -/

variable {h : Host} {c : Call} {q : Point} {m : Move}

/-- What is only logged tells nobody. -/
theorem filter_logged (actor : Actor) (time : Nat) {notes : List Happening} (hn : ∀ x ∈ notes, ∃ r, x = .logged r) :
    (notes.map (⟨actor, time, ·⟩)).filter Note.notifies = [] := by
  refine List.filter_eq_nil_iff.mpr fun n hmem => ?_
  obtain ⟨x, hx, rfl⟩ := List.mem_map.mp hmem
  obtain ⟨r, rfl⟩ := hn x hx
  exact nofun

theorem LoopMove.logged {p : LoopPoint} {t : LoopTurn} (hm : LoopMove h p t) : ∀ x ∈ t.notes, ∃ r, x = .logged r := by
  cases hm <;> simp [Host.loopEnd]

theorem phaseChange_logged (a b : Phase) : ∀ x ∈ phaseChange a b, ∃ r, x = .logged r := by
  unfold phaseChange
  split <;> simp

/-- What a call does tells nobody of the device, other than what registers it. -/
def Happening.Silent (x : Happening) : Prop := ∀ id time, Note.notifies ⟨.call id, time, x⟩ = false

theorem Happening.Silent.logged (r : Remark) : (Happening.logged r).Silent := fun _ _ => rfl

theorem Happening.Silent.append {xs ys : List Happening} (hx : ∀ x ∈ xs, x.Silent) (hy : ∀ x ∈ ys, x.Silent) :
    ∀ x ∈ xs ++ ys, x.Silent := fun x h => (List.mem_append.mp h).elim (hx x) (hy x)

theorem Happening.Silent.singleton {y : Happening} (hy : y.Silent) : ∀ x ∈ [y], x.Silent := fun _ h =>
  List.mem_singleton.mp h ▸ hy

theorem Happening.Silent.phaseChange (a b : Phase) : ∀ x ∈ phaseChange a b, x.Silent := fun x hx => by
  obtain ⟨r, rfl⟩ := phaseChange_logged a b x hx
  exact fun _ _ => rfl

theorem Move.faulting_silent (l : Link) (s : Session) {notes : List Happening} (e : SessionError)
    (hn : ∀ x ∈ notes, x.Silent) : ∀ x ∈ (Move.faulting l s notes e).notes, x.Silent := by
  intro x hx
  rcases List.mem_append.mp hx with hx | hx
  · exact Happening.Silent.phaseChange _ _ x hx
  · rcases List.mem_cons.mp hx with rfl | hx
    · exact fun _ _ => rfl
    · exact hn x hx

theorem Attempts.silent {l : Link} {s : Session} {notes : List Happening} {stage : Stage} {retries : Nat}
    (ha : Attempts l s notes stage retries m) (hn : ∀ x ∈ notes, x.Silent) : ∀ x ∈ m.notes, x.Silent := by
  cases ha with
  | opened ho => exact hn
  | closed reason hc => exact Move.faulting_silent _ _ _ hn

theorem Fails.silent {l : Link} {purpose : Purpose} {e : LinkError} {notes : List Happening}
    (hf : Fails h l notes purpose e m) (hn : ∀ x ∈ notes, x.Silent) : ∀ x ∈ m.notes, x.Silent := by
  cases hf with
  | direct | operation => exact hn
  | retry stage retries hr =>
    intro x hx
    rcases List.mem_cons.mp hx with rfl | hx
    · exact fun _ _ => rfl
    · exact hn x hx
  | fault stage retries e he => exact Move.faulting_silent _ _ _ hn

/-- **A call tells nobody of events**, and of properties only the twin, when it has written one. -/
theorem CallMove.silent (hm : CallMove h c q m)
    (hq : ∀ d todo pending, q = .registering d todo pending → ∀ call ∈ todo, call.registers) :
    ∀ x ∈ m.notes, x.Silent := by
  have hnil : ∀ x ∈ ([] : List Happening), x.Silent := fun x hx => absurd hx List.not_mem_nil
  have hlogged : ∀ r, ∀ x ∈ [Happening.logged r], x.Silent := fun r =>
    Happening.Silent.singleton (.logged r)
  cases hm with
  | begin hm =>
    cases hm with
    | start hp ht ha => exact ha.silent (Happening.Silent.phaseChange _ _)
    | closeIdle | close => exact Happening.Silent.phaseChange _ _
    | _ => exact hnil
  | shutOut frame ticket limit purpose hc hf => exact hf.silent hnil
  | unwritten ticket limit purpose e hr hf => exact hf.silent hnil
  | failed ticket limit alarm purpose e hd hf => exact hf.silent hnil
  | timedOut ticket limit alarm purpose hd ha hf => exact hf.silent (hlogged _)
  | taken ticket limit alarm plan p hd value hp hk hcall =>
    subst hcall
    exact Happening.Silent.singleton fun _ _ => rfl
  | acknowledged ticket limit alarm retries p hd ha =>
    exact ha.silent (Happening.Silent.append (Happening.Silent.phaseChange _ _) (hlogged _))
  | misdescribed ticket limit alarm retries p hd e hp => exact Move.faulting_silent _ _ _ hnil
  | described ticket limit alarm retries p hd d hp =>
    exact Happening.Silent.append (Happening.Silent.phaseChange _ _) (hlogged _)
  | paused alarm stage retries ha hm => exact hm.silent hnil
  | asked d call todo =>
    have hr := hq d _ _ rfl call List.mem_cons_self
    refine Happening.Silent.singleton fun _ _ => ?_
    cases call with
    | publish | bind => rfl
    | event | property => cases hr
  | refused d call todo pending ha text hr => exact Move.faulting_silent _ _ _ hnil
  | started d =>
    refine Happening.Silent.append (Happening.Silent.phaseChange _ _) fun x hx => ?_
    obtain ⟨n, -, rfl⟩ := List.mem_map.mp hx
    exact fun _ _ => rfl
  | updated plan value pending ha =>
    cases pending.refusal with
    | none => exact hnil
    | some text => exact hlogged _
  | _ => exact hnil

theorem Move.happenings_silent (m : Move) (hn : ∀ x ∈ m.notes, x.Silent) : ∀ x ∈ m.happenings, x.Silent := by
  unfold happenings
  split
  · intro x hx
    rcases List.mem_cons.mp hx with rfl | hx
    · exact fun _ _ => rfl
    · exact hn x hx
  · exact hn

theorem filter_silent {id time : Nat} {notes : List Happening} (hn : ∀ x ∈ notes, x.Silent) :
    (notes.map (⟨.call id, time, ·⟩)).filter Note.notifies = [] := by
  refine List.filter_eq_nil_iff.mpr fun n hmem => ?_
  obtain ⟨x, hx, rfl⟩ := List.mem_map.mp hmem
  rw [hn x hx]
  exact nofun

/-! ## The dispatcher -/

/-- A dispatcher that takes an event in a session that was dropped ends, and does nothing else. -/
theorem Host.dispatchStep_deserted {h' : Host} {event : LinkEvent} {events : Channel LinkEvent} {woken : Option Actor}
    (hd : h.session.dispatch = .listening) (he : h.link.events.take? = some (event, events, woken))
    (ha : h.attached = false) (e : h.dispatchStep = some h') :
    h.DispatchTurns ⟨{ h.link with events := events.discard.1 }, { h.session with dispatch := .gone }, []⟩ h' := by
  unfold dispatchStep at e
  rw [hd] at e
  dsimp only at e
  rw [he] at e
  dsimp only at e
  generalize hw : wake? _ woken = h₁ at e
  obtain ⟨r, rfl⟩ := wake?_eq hw
  have ha' : Host.attached { { h with link := { h.link with events := events } } with ready := r } = false := ha
  rw [ha'] at e
  obtain rfl := Option.some.inj e
  exact (((DispatchTurns.refl h).setLink { h.link with events := events }).wakes h.serial r).endDispatch

/-- The calls that make a device known to the twin are all that a start asks of it. -/
def Host.Registers (h : Host) : Prop :=
  ∀ c ∈ h.calls, ∀ d todo pending, c.point = .registering d todo pending → ∀ call ∈ todo, call.registers

namespace Moment

theorem dispatch_taken {h : Host} {i : Bool} (hd : h.session.dispatch = .listening) :
    (Moment.mk h (.advance .dispatcher i)).taken = h.link.events.take?.map (·.1) := by
  unfold taken
  dsimp only
  rw [hd]

theorem dispatch_taken_none {h : Host} {i : Bool} (hd : h.session.dispatch ≠ .listening) :
    (Moment.mk h (.advance .dispatcher i)).taken = none := by
  unfold taken
  dsimp only
  split
  · exact absurd ‹_› hd
  · rfl

theorem dispatch_handled {h : Host} {i : Bool} {event : LinkEvent} {events : Channel LinkEvent} {woken : Option Actor}
    (ha : h.attached) (hd : h.session.dispatch = .listening) (he : h.link.events.take? = some (event, events, woken)) :
    (Moment.mk h (.advance .dispatcher i)).handled = event.packet? := by
  unfold handled
  rw [if_pos ha, dispatch_taken hd, he]
  rfl

/-- What the dispatcher adds to the history in one step. -/
theorem notices_dispatch {h : Host} {t : DispatchTurn} {i : Bool} (ha : h.attached)
    (hm : DispatchMove h h.session.dispatch t) :
    ((t.notes.map (⟨.dispatcher, h.now, ·⟩)).filter Note.notifies).reverse =
      (Moment.mk h (.advance .dispatcher i)).notices := by
  have hsilent : (∀ x ∈ t.notes, ∃ r, x = .logged r) → (Moment.mk h (.advance .dispatcher i)).reported = none →
      ((t.notes.map (⟨.dispatcher, h.now, ·⟩)).filter Note.notifies).reverse =
        (Moment.mk h (.advance .dispatcher i)).notices := fun hn hr => by
    rw [filter_logged _ _ hn, notices, hr]
    rfl
  generalize hd : h.session.dispatch = p at hm
  cases hm with
  | deserted he ha' => rw [ha] at ha'; cases ha'
  | premature he hp => exact hsilent (by simp) (if_neg hp)
  | undescribed he hdesc =>
    refine hsilent (by simp) ?_
    rw [reported, dispatch_handled ha hd he]
    simp [LinkEvent.packet?, hdesc]
  | drops he hp hdesc hu =>
    refine hsilent (by simp) ?_
    rw [reported, dispatch_handled ha hd he]
    simp [LinkEvent.packet?, hdesc, hu, Except.toOption]
  | reports he hp hdesc hu =>
    rename_i p events woken d call
    have hr : (Moment.mk h (.advance .dispatcher i)).reported = some call :=
      reported_eq_some_iff.mpr ⟨p, d, dispatch_handled ha hd he, hp, hdesc, Descriptor.understand_eq_ok_iff.mp hu⟩
    have hcall : Note.notifies ⟨.dispatcher, h.now, .toldTwin call (h.session.twin h.session.asked call)⟩ := by
      cases Descriptor.understand_eq_ok_iff.mp hu <;> rfl
    rw [notices, hr, List.map_cons, List.filter_cons_of_pos hcall, List.reverse_cons, List.map_map,
      List.filter_eq_self.mpr]
    · simp [Function.comp_def]
    · intro n hn
      obtain ⟨k, -, rfl⟩ := List.mem_map.mp hn
      rfl
  | ends he hn =>
    refine hsilent (fun x hx => ?_) ?_
    · subst hn
      split at hx
      · cases hx
      · rcases List.mem_append.mp hx with hx | hx
        · exact phaseChange_logged _ _ x hx
        · exact ⟨_, List.mem_singleton.mp hx⟩
    · rw [reported, dispatch_handled ha hd he]
      simp [LinkEvent.packet?]
  | reported ha' =>
    rename_i call pending
    refine hsilent (fun x hx => ?_) ?_
    · cases hp : pending.refusal with
      | none => rw [hp] at hx; cases hx
      | some text => rw [hp] at hx; exact ⟨_, List.mem_singleton.mp hx⟩
    · have ht : (Moment.mk h (.advance .dispatcher i)).taken = none :=
        dispatch_taken_none (by rw [hd]; exact nofun)
      rw [reported, handled_none ht]
      simp

/-- A dispatcher that finds the session dropped tells nobody of anything. -/
theorem filter_dropped {h h' : Host} (ha : h.attached = false) (e : h.dispatchStep = some h') :
    ∃ notes, h'.history = notes ++ h.history ∧ notes.filter Note.notifies = [] := by
  obtain ⟨t, hm, ht⟩ := Host.dispatchStep_move e
  rcases hm.takes with ⟨hd, event, events, woken, he, -⟩ | ⟨hd, -⟩
  · exact ⟨[], (Host.dispatchStep_deserted hd he ha e).history, rfl⟩
  · refine ⟨_, ht.history, filter_logged _ _ ?_⟩
    generalize h.session.dispatch = p at hm hd
    cases hm with
    | reported ha' =>
      rename_i call pending
      cases pending.refusal with
      | none => exact nofun
      | some text => exact fun x hx => ⟨_, List.mem_singleton.mp hx⟩
    | _ => exact absurd rfl hd

/-- **What an action tells of the device** is what the dispatcher makes of the packet that it takes up. -/
theorem filter_news {m : Moment} (hc : m.host.Claimed) (hs : m.host.Registers) (hv : m.action.leavesEvents) :
    (m.news.filter Note.notifies).reverse = m.notices := by
  obtain ⟨h, a⟩ := m
  have hquiet : (Moment.mk h a).handled = none → ∀ notes : List Note,
      (Moment.mk h a).after.history = notes ++ h.history → notes.filter Note.notifies = [] →
      ((Moment.mk h a).news.filter Note.notifies).reverse = (Moment.mk h a).notices := fun hh notes hn hf => by
    rw [news_eq hn, hf, notices_none hh]
    rfl
  by_cases hdisp : ∃ i, a = .advance .dispatcher i
  · obtain ⟨i, rfl⟩ := hdisp
    have hafter : (Moment.mk h (.advance .dispatcher i)).after = h.dispatchStep.getD h := rfl
    cases e : h.dispatchStep with
    | none => exact hquiet (handled_none (refused_taken (m := ⟨h, _⟩) e)) [] (by rw [hafter, e]; rfl) rfl
    | some h' =>
      rw [e, Option.getD_some] at hafter
      cases ha : h.attached with
      | true =>
        obtain ⟨t, hm, ht⟩ := Host.dispatchStep_move e
        rw [news_eq (by rw [hafter]; exact ht.history)]
        exact notices_dispatch ha hm
      | false =>
        obtain ⟨notes, hn, hf⟩ := filter_dropped ha e
        exact hquiet (by simp [handled, ha]) notes (by rw [hafter]; exact hn) hf
  · have hacts := Moment.acts (m := ⟨h, a⟩) hc
    generalize (Moment.mk h a).after = h' at hacts hquiet
    cases hacts with
    | idle a hr => exact hquiet (handled_none (refused_taken (m := ⟨h, a⟩) hr)) [] rfl rfl
    | loop i hm ht => exact hquiet (handled_none rfl) _ ht.history (filter_logged _ _ hm.logged)
    | dispatcher i hm ht => exact absurd ⟨i, rfl⟩ hdisp
    | @call id i c mv h' hc hm hl =>
      have hsilent := hm.silent fun d todo pending hq => hs c (Host.call?_mem hc) d todo pending hq
      exact hquiet (handled_none rfl) _ hl.history (filter_silent (mv.happenings_silent hsilent))
    | forward | takeEvent | dropListener => cases hv
    | _ => exact hquiet (handled_none rfl) [] rfl rfl

end Moment

/-- **Observers and the twin are told of the device** in every run by the dispatcher, packet by packet. -/
theorem Host.notifications_run (config : SessionConfig) (twin : Twin) (as : List Action)
    (hv : ∀ a ∈ as, a.leavesEvents) :
    ((ofSession config twin).run as).notifications = ((ofSession config twin).moments as).flatMap Moment.notices := by
  induction as using List.reverseRecOn with
  | nil => rfl
  | append_singleton as a ih =>
    have hva : ∀ a ∈ as, a.leavesEvents := fun a ha => hv a (List.mem_append_left _ ha)
    have hs := switched_run config twin as hva
    have hnews := Moment.filter_news (m := ⟨(ofSession config twin).run as, a⟩)
      ((Setup.session config twin).claimed_run as)
      (fun c hc d todo pending hq => (hs.registering c hc d todo pending hq).2) (hv a (by simp))
    obtain ⟨notes, hn⟩ := history_acts (Moment.acts (m := ⟨(ofSession config twin).run as, a⟩)
      ((Setup.session config twin).claimed_run as))
    rw [moments_concat, List.flatMap_append, List.flatMap_singleton, ← ih hva, ← hnews, Moment.news_eq hn, run_concat]
    show (((Moment.mk ((ofSession config twin).run as) a).after.history.filter Note.notifies)).reverse = _
    rw [hn, List.filter_append, List.reverse_append]
    rfl

/-! ## Packets on their way -/

/-- The dispatcher has handled what it took, unless it found the session dropped, and ends with that or with the link. -/
structure Ledger (taken : List LinkEvent) (handled : List Packet) (deserted : Prop) (h : Host) : Prop where
  all : ¬deserted → handled = taken.filterMap LinkEvent.packet?
  inOrder : handled <+: taken.filterMap LinkEvent.packet?
  dropped : deserted → h.session.dispatch = .gone
  ended : h.session.dispatch = .gone → deserted ∨ ∃ reason, .closed reason ∈ taken
  deaf : h.link.events.closed → h.session.dispatch = .gone

/-- Only the call that takes the port sets the dispatcher and the loop to work. -/
theorem CallMove.dispatch (hm : CallMove h c q m) :
    m.session.dispatch = h.session.dispatch ∧ m.link.loop = h.link.loop ∨
      h.session.portTaken = false ∧ m.session.dispatch = .listening := by
  have hfails : ∀ {l : Link} {purpose : Purpose} {e : LinkError} {notes : List Happening},
      Fails h l notes purpose e m → l.loop = h.link.loop →
      m.session.dispatch = h.session.dispatch ∧ m.link.loop = h.link.loop := fun hf hl =>
    ⟨by cases hf <;> rfl, hf.loop.1.trans hl⟩
  have hattempts : ∀ {l : Link} {s : Session} {notes : List Happening} {stage : Stage} {retries : Nat},
      Attempts l s notes stage retries m → m.session.dispatch = s.dispatch ∧ m.link.loop = l.loop := fun ha =>
    ⟨by cases ha <;> rfl, ha.loop.1⟩
  cases hm with
  | begin hm =>
    cases hm with
    | start hp ht ha => exact .inr ⟨ht, (hattempts ha).1⟩
    | _ => exact .inl ⟨rfl, rfl⟩
  | locked | lockedClosed | lined => exact .inl ⟨by simp, rfl⟩
  | shutOut frame ticket limit purpose hc hf => exact .inl (hfails hf (loop_withdraw? _ _))
  | unwritten ticket limit purpose e hr hf => exact .inl (hfails hf (loop_withdraw? _ _))
  | failed ticket limit alarm purpose e hd hf => exact .inl (hfails hf rfl)
  | timedOut ticket limit alarm purpose hd ha hf => exact .inl (hfails hf rfl)
  | acknowledged ticket limit alarm retries p hd ha => exact .inl ⟨(hattempts ha).1, (hattempts ha).2⟩
  | paused alarm stage retries ha hm => exact .inl (hattempts hm)
  | _ => exact .inl ⟨rfl, rfl⟩

/-- The loop never closes the event channel. -/
theorem LoopMove.events_closed {p : LoopPoint} {t : LoopTurn} (hm : LoopMove h p t) :
    t.link.events.closed = h.link.events.closed := by
  cases hm with
  | handed p rest fault ho | parts reason ho =>
    obtain ⟨-, hc, hc'⟩ := h.link.events.offer_admitted ho
    exact hc'.trans hc.symm
  | waits p rest fault ho | partsLater reason ho => exact (h.link.events.offer_queued ho).2
  | _ => rfl

namespace Ledger

variable {taken : List LinkEvent} {handled : List Packet} {deserted : Prop} {h' : Host} {a : Action}

theorem quiet (hl : Ledger taken handled deserted h) (hd : h'.session.dispatch = .gone ↔ h.session.dispatch = .gone)
    (hc : h'.link.events.closed = h.link.events.closed) : Ledger taken handled deserted h' :=
  ⟨hl.all, hl.inOrder, fun hx => hd.mpr (hl.dropped hx), fun hx => hl.ended (hd.mp hx),
    fun hx => hd.mpr (hl.deaf (hc ▸ hx))⟩

/-- The dispatcher takes an event up. -/
theorem take (hl : Ledger taken handled deserted h) {t : DispatchTurn} {i : Bool} (ha : h.attached)
    (hd : h.session.dispatch = .listening) (hm : DispatchMove h .listening t) (ht : h.DispatchTurns t h') :
    Ledger (taken ++ (Moment.mk h (.advance .dispatcher i)).taken.toList)
      (handled ++ (Moment.mk h (.advance .dispatcher i)).handled.toList)
      (deserted ∨ (Moment.mk h (.advance .dispatcher i)).deserts) h' := by
  obtain ⟨-, event, events, woken, he, -⟩ | ⟨hne, -⟩ := hm.takes
  case inr => exact absurd rfl hne
  have htaken : (Moment.mk h (.advance .dispatcher i)).taken = some event := by rw [Moment.dispatch_taken hd, he]; rfl
  have hnot : ¬deserted := fun hx => by
    rw [hl.dropped hx] at hd
    cases hd
  have hdeserts : (Moment.mk h (.advance .dispatcher i)).deserts = false := by simp [Moment.deserts, ha]
  have hno : ¬(deserted ∨ (Moment.mk h (.advance .dispatcher i)).deserts) := by
    rw [hdeserts]
    exact fun hx => hx.elim hnot nofun
  have hall : handled ++ event.packet?.toList = (taken ++ [event]).filterMap LinkEvent.packet? := by
    rw [hl.all hnot, List.filterMap_append]
    cases event <;> rfl
  have hopen : h.link.events.closed = false := by
    by_contra hc
    rw [hl.deaf (by simpa using hc)] at hd
    cases hd
  rw [htaken, Moment.dispatch_handled ha hd he]
  refine ⟨fun _ => hall, hall ▸ List.prefix_refl _, fun hx => absurd hx hno, fun hx => ?_, fun hx => ?_⟩
  · rw [ht.session] at hx
    cases hm with
    | deserted he' ha' => rw [ha] at ha'; cases ha'
    | @ends reason events' woken' he' notes hn =>
      obtain rfl : event = .closed reason := by
        rw [he] at he'
        exact congrArg Prod.fst (Option.some.inj he')
      exact .inr ⟨reason, List.mem_append_right _ (List.mem_singleton.mpr rfl)⟩
    | premature | undescribed | drops => rw [hd] at hx; cases hx
    | reports => cases hx
  · rw [ht.link] at hx
    rw [ht.session]
    have hkept : ∀ {event events woken}, h.link.events.take? = some (event, events, woken) → events.closed = false :=
      fun he => (Channel.take_eq_some he).2.trans hopen
    cases hm with
    | deserted | ends => rfl
    | premature he | undescribed he | drops he | reports he => rw [hkept he] at hx; cases hx

/-- Nothing is taken. -/
theorem untaken (hl : Ledger taken handled deserted h) (ht : (Moment.mk h a).taken = none)
    (hd : h'.session.dispatch = .gone ↔ h.session.dispatch = .gone)
    (hc : h'.link.events.closed = h.link.events.closed) :
    Ledger (taken ++ (Moment.mk h a).taken.toList) (handled ++ (Moment.mk h a).handled.toList)
      (deserted ∨ (Moment.mk h a).deserts) h' := by
  have hno : (Moment.mk h a).deserts = false := by simp [Moment.deserts, ht]
  rw [ht, Moment.handled_none ht, hno]
  simpa using hl.quiet hd hc

/-- The dispatcher finds the session dropped. -/
theorem desert (hl : Ledger taken handled deserted h) {i : Bool} {event : LinkEvent} {events : Channel LinkEvent}
    {woken : Option Actor} (ha : h.attached = false) (hd : h.session.dispatch = .listening)
    (he : h.link.events.take? = some (event, events, woken)) (hgone : h'.session.dispatch = .gone) :
    Ledger (taken ++ (Moment.mk h (.advance .dispatcher i)).taken.toList)
      (handled ++ (Moment.mk h (.advance .dispatcher i)).handled.toList)
      (deserted ∨ (Moment.mk h (.advance .dispatcher i)).deserts) h' := by
  have hdeserts : (Moment.mk h (.advance .dispatcher i)).deserts := by
    simp [Moment.deserts, Moment.dispatch_taken hd, he, ha]
  have hhandled : (Moment.mk h (.advance .dispatcher i)).handled = none := by simp [Moment.handled, ha]
  rw [hhandled, Option.toList_none, List.append_nil]
  refine ⟨fun hx => absurd (.inr hdeserts) hx, ?_, fun _ => hgone, fun _ => .inl (.inr hdeserts), fun _ => hgone⟩
  rw [List.filterMap_append]
  exact hl.inOrder.trans (List.prefix_append _ _)

theorem dispatcher (hl : Ledger taken handled deserted h) {i : Bool} (e : h.dispatchStep = some h') :
    Ledger (taken ++ (Moment.mk h (.advance .dispatcher i)).taken.toList)
      (handled ++ (Moment.mk h (.advance .dispatcher i)).handled.toList)
      (deserted ∨ (Moment.mk h (.advance .dispatcher i)).deserts) h' := by
  obtain ⟨t, hm, ht⟩ := Host.dispatchStep_move e
  rcases hm.takes with ⟨hd, event, events, woken, he, -⟩ | ⟨hd, hlink⟩
  · cases ha : h.attached with
    | true => exact hl.take ha hd (hd ▸ hm) ht
    | false =>
      have ht := Host.dispatchStep_deserted hd he ha e
      exact hl.desert ha hd he (by rw [ht.session])
  · refine hl.untaken (Moment.dispatch_taken_none hd) ?_ (by rw [ht.link, hlink])
    rw [ht.session]
    generalize h.session.dispatch = p at hm hd
    cases hm with
    | reported => simp
    | _ => exact absurd rfl hd

theorem acts (hl : Ledger taken handled deserted h) (hc : h.Claimed) (ho : Orderly h) (hu : h.Unstarted) (hv : a.leavesEvents) :
    Ledger (taken ++ (Moment.mk h a).taken.toList) (handled ++ (Moment.mk h a).handled.toList)
      (deserted ∨ (Moment.mk h a).deserts) (Moment.mk h a).after := by
  by_cases hdisp : ∃ i, a = .advance .dispatcher i
  · obtain ⟨i, rfl⟩ := hdisp
    show Ledger _ _ _ (h.dispatchStep.getD h)
    cases e : h.dispatchStep with
    | none => exact hl.untaken (Moment.refused_taken (m := ⟨h, _⟩) e) .rfl rfl
    | some h' => exact hl.dispatcher e
  · have hacts := Moment.acts (m := ⟨h, a⟩) hc
    generalize (Moment.mk h a).after = h' at hacts
    cases hacts with
    | idle a hr => exact hl.untaken (Moment.refused_taken (m := ⟨h, a⟩) hr) .rfl rfl
    | loop i hm ht => exact hl.untaken rfl (by rw [ht.session]) (by rw [ht.link, hm.events_closed])
    | dispatcher i hm ht => exact absurd ⟨i, rfl⟩ hdisp
    | @call id i c mv h' hc hm hl' =>
      refine hl.untaken rfl ?_ (congrArg Channel.closed (Link.Edits.frame (hl'.edits hu hm)).events)
      rw [hl'.session, mv.sessionAfter_dispatch]
      rcases hm.dispatch with ⟨hd, -⟩ | ⟨ht, hd⟩
      · rw [hd]
      · rw [hd, (ho.idle ht).2.1]
        simp
    | abandon hc released hr ready =>
      exact hl.untaken rfl (by simp) (congrArg Channel.closed (Link.EditsBy.vacate (l := h.link) .refl).frame.events)
    | forward | takeEvent | dropListener => cases hv
    | _ => exact hl.untaken rfl .rfl rfl

end Ledger

/-- **Packets are handled in the order they were passed on**, and unless the session is dropped none is lost. -/
theorem Ledger.inFlight {forwarded handled : List Packet} {taken closing : List LinkEvent} {deserted : Prop} {h : Host}
    (hl : Ledger taken handled deserted h) (hp : Passed forwarded taken closing h) :
    handled <+: forwarded ∧ (¬deserted →
      handled ++ (h.link.events.queue ++ h.link.loop.held).filterMap LinkEvent.packet? = forwarded) ∧
    (¬deserted → h.session.dispatch = .gone → handled = forwarded) := by
  have hpackets : ∀ xs : List Packet, (xs.map LinkEvent.packet).filterMap LinkEvent.packet? = xs := fun xs => by
    rw [List.filterMap_map]
    exact List.filterMap_some
  have hclosing : closing.filterMap LinkEvent.packet? = [] := by
    rcases hp.once with rfl | ⟨reason, rfl⟩ <;> rfl
  have hall : (forwarded.map LinkEvent.packet ++ closing).filterMap LinkEvent.packet? = forwarded := by
    rw [List.filterMap_append, hpackets, hclosing, List.append_nil]
  -- when the dispatcher has ended in time, the end of the link was the last that it took
  have hended : ¬deserted → h.session.dispatch = .gone → handled = forwarded ∧ closing ≠ [] := fun hno hd => by
    obtain ⟨reason, hr⟩ := (hl.ended hd).resolve_left hno
    have hclosing : closing = [.closed reason] := by
      rcases List.mem_append.mp (hp.inOrder.subset hr) with hr | hr
      · simp at hr
      · rcases hp.once with rfl | ⟨reason', rfl⟩
        · cases hr
        · rw [List.mem_singleton.mp hr]
    subst hclosing
    refine ⟨?_, nofun⟩
    rcases List.prefix_concat_iff.mp hp.inOrder with he | he
    · rw [hl.all hno, he, hall]
    · have := he.subset hr
      simp at this
  refine ⟨hl.inOrder.trans (hall ▸ hp.inOrder.filterMap _), fun hno => ?_, fun hno hd => (hended hno hd).1⟩
  cases hc : h.link.events.closed with
  | false => rw [hl.all hno, ← List.filterMap_append, ← List.append_assoc, hp.listening hc, hall]
  | true =>
    obtain ⟨hforwarded, hne⟩ := hended hno (hl.deaf hc)
    have hloop : h.link.loop.ended = true := by
      by_contra hn
      exact hne (hp.running (by simpa using hn))
    have hheld : h.link.loop.held.filterMap LinkEvent.packet? = [] := by
      generalize h.link.loop = p at hloop
      cases p <;> first | rfl | cases hloop
    rw [hp.deaf hc, List.nil_append, hheld, List.append_nil, hforwarded]

namespace Host

variable (config : SessionConfig) (twin : Twin) (as : List Action)

theorem ledger_run (hv : ∀ a ∈ as, a.leavesEvents) :
    Ledger (((ofSession config twin).moments as).filterMap Moment.taken)
      (((ofSession config twin).moments as).filterMap Moment.handled)
      (∃ m ∈ (ofSession config twin).moments as, m.deserts) ((ofSession config twin).run as) := by
  induction as using List.reverseRecOn with
  | nil =>
    exact ⟨fun _ => rfl, List.nil_prefix, fun ⟨m, hm, _⟩ => absurd hm List.not_mem_nil, nofun, nofun⟩
  | append_singleton as a ih =>
    have hl := (ih fun a ha => hv a (List.mem_append_left _ ha)).acts
      ((Setup.session config twin).claimed_run as) (orderly_run config twin as)
      ((Setup.session config twin).unstarted_run as) (hv a (by simp))
    rw [run_concat, seen_concat, seen_concat, propext (exists_moment_concat _ as a)]
    exact hl

end Host

end TwinLink
