import TwinLink.Proofs.Link.Edits
import TwinLink.Proofs.Session.Lifecycle

/-!
# The switch for unmatched packets

The loop passes packets on that nobody waits for from the moment the session becomes operational, and never before. From
then on the session stays operational until it is closed or the dispatcher has ended.

* `Host.wasOperational` : the history records that the session became operational;
* `Action.leavesEvents` : the application leaves the events of the link to the session;
* `Moment.closes` : a close takes effect;
* `Host.Registering` : the device that is made known to the twin is the one that the session knows;
* `Switched` : the switch is on exactly if the session was operational, and what holds from then on;
* `Switched.acts` : every action keeps it.
-/

namespace TwinLink

/-- The session has been operational. -/
def Host.wasOperational (h : Host) : Bool := h.phaseChanges.any (·.2 == .operational)

/-- The application leaves the events of the link to the session: it neither takes events nor stops listening, as only
the owner of a bare link can, and it does not turn the switch behind the back of the session. -/
def Action.leavesEvents : Action → Bool
  | .forward _ => false
  | .takeEvent => false
  | .dropListener => false
  | _ => true

/-- The call is a close that has not yet run. -/
def Point.isClose : Point → Bool
  | .begun .close => true
  | _ => false

/-- A close takes effect at this moment. -/
def Moment.closes (m : Moment) : Bool :=
  match m.action with
  | .advance (.call id) _ => (m.host.call? id).any (·.point.isClose)
  | _ => false

/-- The call makes an interface known to the twin. -/
def TwinCall.registers : TwinCall → Bool
  | publish _ => true
  | bind _ => true
  | _ => false

theorem Descriptor.registration_registers (d : Descriptor) : ∀ call ∈ d.registration, call.registers := by
  intro call hc
  obtain ⟨i, -, hc⟩ := List.mem_flatMap.mp hc
  have hc : call = .publish i.id ∨ call = .bind i.id := by simpa using hc
  rcases hc with rfl | rfl <;> rfl

/-! ## Calls outside the handshake -/

variable {h : Host} {c : Call} {q : Point} {m : Move}

/-- What a move leaves alone that belongs to a call outside the handshake, once the port is taken: a close faults the
session, and nothing else touches what the handshake has set up. -/
structure Aside (h : Host) (q : Point) (m : Move) : Prop where
  forwarding : m.link.forwarding = h.link.forwarding
  portTaken : m.session.portTaken
  descriptor : m.session.descriptor = h.session.descriptor
  dispatch : m.session.dispatch = h.session.dispatch
  phase : m.session.phase = h.session.phase ∨ q.isClose ∧ m.session.phase = .faulted
  changes : ∀ x ∈ changesOf m.notes, x.2 ≠ .operational
  outside : m.phaseAt q = none

theorem Fails.aside {l : Link} {purpose : Purpose} {e : LinkError} {notes : List Happening}
    (hf : Fails h l notes purpose e m) (ht : h.session.portTaken) (hq : purpose.phase? = none)
    (hl : l.forwarding = h.link.forwarding) (hn : changesOf notes = []) : Aside h q m := by
  cases hf with
  | direct e => exact ⟨hl, ht, rfl, rfl, .inl rfl, by simp [hn], rfl⟩
  | operation plan e => exact ⟨hl, ht, rfl, rfl, .inl rfl, by simp [hn], rfl⟩
  | retry | fault => cases hq

theorem forwarding_withdraw? (l : Link) (ticket : Option Ticket) :
    (ticket.elim l fun t => l.withdraw t.id).forwarding = l.forwarding := by
  cases ticket <;> rfl

@[simp] theorem Session.setLock_descriptor (s : Session) (kind : OperationKind) (l : Lock) :
    (s.setLock kind l).descriptor = s.descriptor := by
  cases kind <;> rfl

theorem changesOf_ne {a b : Phase} (hb : b ≠ .operational) : ∀ x ∈ changesOf (phaseChange a b), x.2 ≠ .operational := by
  rw [changesOf_phaseChange]
  split
  · exact nofun
  · simpa using hb

theorem changesOf_nil_ne : ∀ x ∈ changesOf [], x.2 ≠ .operational := fun _ hx => absurd hx List.not_mem_nil

theorem CallMove.aside (hm : CallMove h c q m) (ht : h.session.portTaken) (hq : q.phase? = none) : Aside h q m := by
  cases hm with
  | begin hm =>
    cases hm with
    | start hp ht' => rw [ht] at ht'; cases ht'
    | closeIdle hl => exact ⟨rfl, rfl, rfl, rfl, .inr ⟨rfl, rfl⟩, changesOf_ne (by decide), rfl⟩
    | close hl => exact ⟨rfl, rfl, rfl, rfl, .inr ⟨rfl, rfl⟩, changesOf_ne (by decide), rfl⟩
    | _ => exact ⟨rfl, ht, rfl, rfl, .inl rfl, changesOf_nil_ne, rfl⟩
  | locked plan | lockedClosed plan | lined plan =>
    exact ⟨rfl, by simpa using ht, by simp, by simp, .inl (by simp), changesOf_nil_ne, rfl⟩
  | shutOut frame ticket limit purpose hc hf => exact hf.aside ht hq (forwarding_withdraw? _ _) rfl
  | unwritten ticket limit purpose e hr hf => exact hf.aside ht hq (forwarding_withdraw? _ _) rfl
  | failed ticket limit alarm purpose e hd hf => exact hf.aside ht hq rfl rfl
  | timedOut ticket limit alarm purpose hd ha hf => exact hf.aside ht hq rfl rfl
  | updated plan value pending ha =>
    refine ⟨rfl, ht, rfl, rfl, .inl rfl, ?_, rfl⟩
    cases pending.refusal <;> exact changesOf_nil_ne
  | acknowledged | misdescribed | described | paused | asked | skipped | refused | registered | started => cases hq
  | _ => exact ⟨rfl, ht, rfl, rfl, .inl rfl, changesOf_nil_ne, by first | rfl | exact hq⟩

/-! ## Calls of the handshake -/

/-- The start is complete. -/
structure Completes (h : Host) (q : Point) (m : Move) : Prop where
  forwarding : m.link.forwarding
  portTaken : m.session.portTaken = h.session.portTaken
  descriptor : m.session.descriptor = h.session.descriptor
  phase : m.session.phase = .operational
  changes : changesOf m.notes = changesOf (phaseChange h.session.phase .operational)
  outside : m.phaseAt q = none

theorem Move.faulting_changes (l : Link) (s : Session) {notes : List Happening} (e : SessionError)
    (hn : ∀ x ∈ changesOf notes, x.2 ≠ .operational) :
    ∀ x ∈ changesOf (Move.faulting l s notes e).notes, x.2 ≠ .operational := by
  intro x hx
  simp only [Move.faulting, changesOf_append, changesOf_handshakeFailed, List.mem_append] at hx
  exact hx.elim (changesOf_ne (by decide) x) (hn x)

theorem Attempts.changes {l : Link} {s : Session} {notes : List Happening} {stage : Stage} {retries : Nat}
    (ha : Attempts l s notes stage retries m) (hl : l.forwarding = h.link.forwarding)
    (hn : ∀ x ∈ changesOf notes, x.2 ≠ .operational) :
    m.link.forwarding = h.link.forwarding ∧ ∀ x ∈ changesOf m.notes, x.2 ≠ .operational := by
  cases ha with
  | opened ho => exact ⟨hl, hn⟩
  | closed reason hc => exact ⟨hl, Move.faulting_changes _ _ _ hn⟩

theorem Fails.changes {l : Link} {purpose : Purpose} {e : LinkError} {notes : List Happening}
    (hf : Fails h l notes purpose e m) (hl : l.forwarding = h.link.forwarding) (hn : changesOf notes = []) :
    m.link.forwarding = h.link.forwarding ∧ ∀ x ∈ changesOf m.notes, x.2 ≠ .operational := by
  cases hf with
  | direct e => exact ⟨hl, by simp [hn]⟩
  | operation plan e => exact ⟨hl, by simp [hn]⟩
  | retry stage retries hr =>
    refine ⟨hl, ?_⟩
    show ∀ x ∈ changesOf notes, x.2 ≠ .operational
    simp [hn]
  | fault stage retries e he => exact ⟨hl, Move.faulting_changes _ _ _ (by simp [hn])⟩

/-- Only a start that is complete turns the switch, and the session becomes operational with that. -/
theorem CallMove.switch (hm : CallMove h c q m) :
    (∃ d, q = .registering d [] none) ∧ Completes h q m ∨
      m.link.forwarding = h.link.forwarding ∧ ∀ x ∈ changesOf m.notes, x.2 ≠ .operational := by
  cases hm with
  | begin hm =>
    cases hm with
    | start hp ht ha => exact .inr (ha.changes rfl (changesOf_ne (by decide)))
    | closeIdle hl => exact .inr ⟨rfl, changesOf_ne (by decide)⟩
    | close hl => exact .inr ⟨rfl, changesOf_ne (by decide)⟩
    | _ => exact .inr ⟨rfl, changesOf_nil_ne⟩
  | shutOut frame ticket limit purpose hc hf => exact .inr (hf.changes (forwarding_withdraw? _ _) rfl)
  | unwritten ticket limit purpose e hr hf => exact .inr (hf.changes (forwarding_withdraw? _ _) rfl)
  | failed ticket limit alarm purpose e hd hf => exact .inr (hf.changes rfl rfl)
  | timedOut ticket limit alarm purpose hd ha hf => exact .inr (hf.changes rfl rfl)
  | acknowledged ticket limit alarm retries p hd ha =>
    refine .inr (ha.changes rfl fun x hx => ?_)
    rw [changesOf_append, List.mem_append] at hx
    exact hx.elim (changesOf_ne (by decide) x) (changesOf_nil_ne x)
  | described ticket limit alarm retries p hd d hp =>
    refine .inr ⟨rfl, fun x hx => ?_⟩
    rw [changesOf_append, List.mem_append] at hx
    exact hx.elim (changesOf_ne (by decide) x) (changesOf_nil_ne x)
  | misdescribed ticket limit alarm retries p hd e hp => exact .inr ⟨rfl, Move.faulting_changes _ _ _ changesOf_nil_ne⟩
  | paused alarm stage retries ha hm => exact .inr (hm.changes rfl changesOf_nil_ne)
  | refused d call todo pending ha text hr => exact .inr ⟨rfl, Move.faulting_changes _ _ _ changesOf_nil_ne⟩
  | started d =>
    refine .inl ⟨⟨d, rfl⟩, rfl, rfl, rfl, rfl, ?_, rfl⟩
    simp [changesOf, Happening.phaseChange?]
  | updated plan value pending ha =>
    refine .inr ⟨rfl, ?_⟩
    cases pending.refusal <;> exact changesOf_nil_ne
  | _ => exact .inr ⟨rfl, changesOf_nil_ne⟩

theorem Attempts.registering {l : Link} {s : Session} {notes : List Happening} {stage : Stage} {retries : Nat}
    (ha : Attempts l s notes stage retries m) : m.session.descriptor = s.descriptor ∧
      ∀ d todo pending keeps, m.fate ≠ .goes (.registering d todo pending) keeps := by
  cases ha with
  | opened ho => exact ⟨rfl, nofun⟩
  | closed reason hc => exact ⟨rfl, nofun⟩

theorem Fails.registering {l : Link} {purpose : Purpose} {e : LinkError} {notes : List Happening}
    (hf : Fails h l notes purpose e m) : m.session.descriptor = h.session.descriptor ∧
      ∀ d todo pending keeps, m.fate ≠ .goes (.registering d todo pending) keeps := by
  cases hf <;> exact ⟨rfl, nofun⟩

/-- What a move makes of the descriptor, and of a call that makes the device known to the twin: the descriptor is set as
such a call begins, and the calls to the twin are those it calls for. -/
theorem CallMove.registering (hm : CallMove h c q m) :
    (m.session.descriptor = h.session.descriptor ∧ ∀ d todo pending keeps,
      m.fate = .goes (.registering d todo pending) keeps →
        ∃ before asked, q = .registering d before asked ∧ todo <:+ before) ∨
    q.phase? = some .awaitingDescriptor ∧ ∃ d, m.session.descriptor = some d ∧
      m.fate = .goes (.registering d d.registration none) false := by
  have hnone : (m.session.descriptor = h.session.descriptor ∧
      ∀ d todo pending keeps, m.fate ≠ .goes (.registering d todo pending) keeps) →
      m.session.descriptor = h.session.descriptor ∧ ∀ d todo pending keeps,
        m.fate = .goes (.registering d todo pending) keeps →
          ∃ before asked, q = .registering d before asked ∧ todo <:+ before :=
    fun ⟨hd, hn⟩ => ⟨hd, fun d todo pending keeps hf => absurd hf (hn d todo pending keeps)⟩
  cases hm with
  | begin hm =>
    refine .inl (hnone ?_)
    cases hm with
    | start hp ht ha => exact ha.registering
    | _ => exact ⟨rfl, nofun⟩
  | locked plan | lockedClosed plan | lined plan => exact .inl (hnone ⟨by simp, nofun⟩)
  | shutOut frame ticket limit purpose hc hf => exact .inl (hnone hf.registering)
  | unwritten ticket limit purpose e hr hf => exact .inl (hnone hf.registering)
  | failed ticket limit alarm purpose e hd hf => exact .inl (hnone hf.registering)
  | timedOut ticket limit alarm purpose hd ha hf => exact .inl (hnone hf.registering)
  | acknowledged ticket limit alarm retries p hd ha => exact .inl (hnone ha.registering)
  | paused alarm stage retries ha hm => exact .inl (hnone hm.registering)
  | described ticket limit alarm retries p hd d hp => exact .inr ⟨rfl, d, rfl, rfl⟩
  | asked d call todo =>
    refine .inl ⟨rfl, fun d' todo' pending keeps hf => ?_⟩
    cases hf
    exact ⟨_, _, rfl, List.suffix_refl _⟩
  | skipped d pending =>
    refine .inl ⟨rfl, fun d' todo' pending keeps hf => ?_⟩
    cases hf
    exact ⟨_, _, rfl, List.suffix_refl _⟩
  | registered d call todo pending ha hr =>
    refine .inl ⟨rfl, fun d' todo' pending keeps hf => ?_⟩
    cases hf
    exact ⟨_, _, rfl, List.suffix_cons _ _⟩
  | _ => exact .inl (hnone ⟨rfl, nofun⟩)

/-! ## The switch -/

theorem Link.forwarding_vacate (l : Link) (c : Call) : (l.vacate c).forwarding = l.forwarding := by
  unfold vacate
  rw [forwarding_withdraw?]
  rfl

theorem Move.linkAfter_forwarding (m : Move) (c : Call) : (m.linkAfter c).forwarding = m.link.forwarding := by
  unfold linkAfter
  split
  · exact m.link.forwarding_vacate c
  · rfl

theorem Session.vacate_descriptor (s : Session) (c : Call) : (s.vacate c).descriptor = s.descriptor := by
  unfold vacate
  cases c.point.plan? with
  | none => rfl
  | some plan => exact s.setLock_descriptor _ _

theorem Move.sessionAfter_descriptor (m : Move) (c : Call) : (m.sessionAfter c).descriptor = m.session.descriptor := by
  unfold sessionAfter
  split
  · exact m.session.vacate_descriptor c
  · rfl

theorem LoopMove.forwarding {p : LoopPoint} {t : LoopTurn} (hm : LoopMove h p t) :
    t.link.forwarding = h.link.forwarding := by
  cases hm <;> rfl

/-- What an action adds to the history tells whether the session has been operational. -/
theorem Host.wasOperational_append {h h' : Host} {notes : List Note} (hn : h'.history = notes ++ h.history) :
    h'.wasOperational = (h.wasOperational || (changesOf (notes.map (·.what))).any (·.2 == .operational)) := by
  unfold wasOperational
  rw [phaseChanges_append hn, List.any_append, List.any_reverse]

/-- A call that makes the device known to the twin does so by what the session knows of it. -/
def Host.Registering (h : Host) : Prop := ∀ c ∈ h.calls, ∀ d todo pending, c.point = .registering d todo pending →
  h.session.descriptor = some d ∧ ∀ call ∈ todo, call.registers

theorem Host.Registering.call (hr : h.Registering) (ho : Orderly h) (hc : c ∈ h.calls) (hm : CallMove h c c.point m)
    {x : Call} (hx : x ∈ m.callsAfter c h.calls) {d : Descriptor} {todo : List TwinCall} {pending : Option Pending}
    (hq : x.point = .registering d todo pending) :
    m.session.descriptor = some d ∧ ∀ call ∈ todo, call.registers := by
  rcases hm.registering with ⟨hd, hgoes⟩ | ⟨hph, d', hd, hgoes⟩
  · rw [hd]
    rcases ho.numbered.mem_callsAfter hc hx with ⟨hx, -⟩ | ⟨p, keeps, hf, rfl⟩ | ⟨-, rfl⟩
    · exact hr x hx d todo pending hq
    · obtain rfl : p = .registering d todo pending := hq
      obtain ⟨before, asked, hq, hsuf⟩ := hgoes d todo pending keeps hf
      obtain ⟨hd, hb⟩ := hr c hc d before asked hq
      exact ⟨hd, fun call hcall => hb call (hsuf.subset hcall)⟩
    · exact hr x hc d todo pending hq
  · rcases ho.numbered.mem_callsAfter hc hx with ⟨hx, hne⟩ | ⟨p, keeps, hf, rfl⟩ | ⟨hf, -⟩
    · -- another call is not in the handshake
      have hxq : x.point.phase? = some .registering := by
        rw [hq]
        rfl
      exact absurd (congrArg Call.id (ho.alone x hx c hc (by rw [hxq]; exact Option.some_ne_none _)
        (by rw [hph]; exact Option.some_ne_none _))) hne
    · obtain rfl : p = .registering d todo pending := hq
      rw [hgoes] at hf
      cases hf
      exact ⟨hd, d.registration_registers⟩
    · rw [hgoes] at hf
      cases hf

/-- The switch is on exactly if the session was operational. From then on no call is in the handshake, and the session
is operational until it is closed or the dispatcher ends. -/
structure Switched (closed : Prop) (h : Host) : Prop where
  forwarding : h.link.forwarding = h.wasOperational
  registering : ∀ c ∈ h.calls, ∀ d todo pending, c.point = .registering d todo pending →
    h.session.descriptor = some d ∧ ∀ call ∈ todo, call.registers
  portTaken : h.wasOperational → h.session.portTaken
  descriptor : h.wasOperational → h.session.descriptor.isSome
  outside : h.wasOperational → ∀ c ∈ h.calls, c.point.phase? = none
  phase : h.wasOperational →
    h.session.phase = .operational ∨ h.session.phase = .faulted ∧ (closed ∨ h.session.dispatch = .gone)

namespace Switched

variable {closed closed' : Prop} {h' : Host} {a : Action}

theorem ofSession (config : SessionConfig) (twin : Twin) : Switched closed (.ofSession config twin) := by
  have hno : (Host.ofSession config twin).wasOperational = false := rfl
  have hnot : ¬(Host.ofSession config twin).wasOperational := by
    rw [hno]
    exact Bool.false_ne_true
  exact ⟨hno.symm, fun c hc => absurd hc List.not_mem_nil, fun ho => absurd ho hnot, fun ho => absurd ho hnot,
    fun ho => absurd ho hnot, fun ho => absurd ho hnot⟩

theorem mono (hs : Switched closed h) (hc : closed → closed') : Switched closed' h :=
  ⟨hs.forwarding, hs.registering, hs.portTaken, hs.descriptor, hs.outside,
    fun ho => (hs.phase ho).imp_right fun hf => ⟨hf.1, hf.2.imp_left hc⟩⟩

/-- Nothing that matters changes, but calls may leave or begin. -/
theorem quiet (hs : Switched closed h) (hh : h'.history = h.history)
    (hf : h'.link.forwarding = h.link.forwarding) (hx : ∀ c ∈ h'.calls, c ∈ h.calls ∨ ∃ r, c.point = .begun r)
    (hp : h'.session.portTaken = h.session.portTaken) (hd : h'.session.descriptor = h.session.descriptor)
    (hph : h'.session.phase = h.session.phase) (hdi : h'.session.dispatch = h.session.dispatch) :
    Switched closed h' := by
  have hw : h'.wasOperational = h.wasOperational := by
    unfold Host.wasOperational Host.phaseChanges
    rw [hh]
  refine ⟨by rw [hf, hw, hs.forwarding], fun c hcm d todo pending hq => ?_, by rw [hw, hp]; exact hs.portTaken,
    by rw [hw, hd]; exact hs.descriptor, fun ho c hcm => ?_, ?_⟩
  · rw [hd]
    rcases hx c hcm with hcm | ⟨r, hr⟩
    · exact hs.registering c hcm d todo pending hq
    · rw [hr] at hq
      cases hq
  · rcases hx c hcm with hcm | ⟨r, hr⟩
    · exact hs.outside (hw ▸ ho) c hcm
    · rw [hr]
      rfl
  · rw [hw, hph, hdi]
    exact hs.phase

/-- A move that ends outside the handshake leaves no call in it, if no other is. -/
theorem outside_callsAfter (hn : h.Numbered) (hc : c ∈ h.calls) (hm : m.phaseAt c.point = none)
    (hothers : ∀ x ∈ h.calls, x.id ≠ c.id → x.point.phase? = none) {x : Call} (hx : x ∈ m.callsAfter c h.calls) :
    x.point.phase? = none := by
  rcases hn.mem_callsAfter hc hx with ⟨hx, hne⟩ | ⟨p, keeps, hf, rfl⟩ | ⟨hf, rfl⟩
  · exact hothers x hx hne
  · rwa [Move.phaseAt, hf] at hm
  · rwa [Move.phaseAt, hf] at hm

theorem call (hs : Switched closed h) (ho : Orderly h) (hc : c ∈ h.calls) (hm : CallMove h c c.point m)
    (hl : h.Leaves c m h') (hcl : closed ∨ c.point.isClose → closed') : Switched closed' h' := by
  have hfw : h'.link.forwarding = m.link.forwarding := by rw [hl.link, m.linkAfter_forwarding]
  have hdesc : h'.session.descriptor = m.session.descriptor := by rw [hl.session, m.sessionAfter_descriptor]
  have hport : h'.session.portTaken = m.session.portTaken := by rw [hl.session, m.sessionAfter_portTaken]
  have hph : h'.session.phase = m.session.phase := by rw [hl.session, m.sessionAfter_phase]
  have hdi : h'.session.dispatch = m.session.dispatch := by rw [hl.session, m.sessionAfter_dispatch]
  have hwas : h'.wasOperational = (h.wasOperational || (changesOf m.notes).any (·.2 == .operational)) := by
    rw [Host.wasOperational_append hl.history, changesOf_what, Move.changes]
  have hreg : ∀ x ∈ h'.calls, ∀ d todo pending, x.point = .registering d todo pending →
      h'.session.descriptor = some d ∧ ∀ call ∈ todo, call.registers := fun x hx d todo pending hq => by
    rw [hdesc]
    exact Host.Registering.call hs.registering ho hc hm (hl.calls ▸ hx) hq
  have hstill : ∀ {xs : List (Phase × Phase)}, (∀ x ∈ xs, x.2 ≠ .operational) →
      xs.any (·.2 == .operational) = false := fun hxs => by simpa using hxs
  by_cases hop : h.wasOperational
  · have ha := hm.aside (hs.portTaken hop) (hs.outside hop c hc)
    have hwas : h'.wasOperational = h.wasOperational := by rw [hwas, hstill ha.changes, Bool.or_false]
    refine ⟨by rw [hfw, ha.forwarding, hwas, hs.forwarding], hreg, fun _ => by rw [hport]; exact ha.portTaken,
      fun _ => by rw [hdesc, ha.descriptor]; exact hs.descriptor hop, fun _ x hx => ?_, fun _ => ?_⟩
    · exact outside_callsAfter ho.numbered hc ha.outside (fun y hy _ => hs.outside hop y hy) (hl.calls ▸ hx)
    · rw [hph, hdi, ha.dispatch]
      rcases ha.phase with hp | ⟨hq, hp⟩
      · rw [hp]
        exact (hs.phase hop).imp_right fun hf => ⟨hf.1, hf.2.imp_left fun h => hcl (.inl h)⟩
      · exact .inr ⟨hp, .inl (hcl (.inr hq))⟩
  · rcases hm.switch with ⟨⟨d, hq⟩, hdone⟩ | ⟨hf, hch⟩
    · have hin : c.point.phase? = some .registering := by
        rw [hq]
        rfl
      have hno : h.session.phase ≠ .operational := by
        rcases ho.inPhase c hc _ hin with hp | hp <;> rw [hp] <;> decide
      have hwas : h'.wasOperational := by
        rw [hwas, hdone.changes, changesOf_phaseChange, if_neg hno]
        simp
      refine ⟨by rw [hfw, hdone.forwarding, hwas], hreg, fun _ => ?_, fun _ => ?_, fun _ x hx => ?_, fun _ => ?_⟩
      · rw [hport, hdone.portTaken]
        by_contra ht
        rw [(ho.idle (by simpa using ht)).2.2 c hc] at hin
        cases hin
      · rw [hdesc, hdone.descriptor, (hs.registering c hc d [] none hq).1]
        rfl
      · refine outside_callsAfter ho.numbered hc hdone.outside (fun y hy hne => ?_) (hl.calls ▸ hx)
        by_contra hyq
        exact hne (congrArg Call.id (ho.alone y hy c hc hyq (by rw [hin]; exact Option.some_ne_none _)))
      · exact .inl (by rw [hph, hdone.phase])
    · have hwas : h'.wasOperational = h.wasOperational := by rw [hwas, hstill hch, Bool.or_false]
      have hnot : ¬h'.wasOperational := by rwa [hwas]
      exact ⟨by rw [hfw, hf, hwas, hs.forwarding], hreg, fun ho => absurd ho hnot, fun ho => absurd ho hnot,
        fun ho => absurd ho hnot, fun ho => absurd ho hnot⟩

theorem dispatcher (hs : Switched closed h) {t : DispatchTurn} (hm : DispatchMove h h.session.dispatch t)
    (ht : h.DispatchTurns t h') : Switched closed h' := by
  obtain ⟨hport, hphase, -⟩ := hm.phases
  obtain ⟨events, hl⟩ := hm.link
  have hdesc := hm.descriptor
  have hgone : t.session.phase = h.session.phase ∧ (h.session.dispatch = .gone → t.session.dispatch = .gone) ∨
      t.session.phase = .faulted ∧ t.session.dispatch = .gone := by
    generalize h.session.dispatch = p at hm
    cases hm with
    | ends => exact .inr ⟨rfl, rfl⟩
    | _ => exact .inl ⟨rfl, nofun⟩
  have hfw : h'.link.forwarding = h.link.forwarding := by rw [ht.link, hl]
  have hwas : h'.wasOperational = h.wasOperational := by
    rw [Host.wasOperational_append ht.history, changesOf_what]
    have : ∀ x ∈ changesOf t.notes, x.2 ≠ .operational := by
      rcases hphase with ⟨-, hn⟩ | ⟨-, hn⟩ <;> rw [hn]
      · exact changesOf_nil_ne
      · exact changesOf_ne (by decide)
    rw [show (changesOf t.notes).any (·.2 == .operational) = false by simpa using this, Bool.or_false]
  rw [← ht.session] at hport hdesc hgone
  refine ⟨by rw [hfw, hwas, hs.forwarding], by rw [ht.calls, hdesc]; exact hs.registering,
    by rw [hwas, hport]; exact hs.portTaken, by rw [hwas, hdesc]; exact hs.descriptor,
    by rw [hwas, ht.calls]; exact hs.outside, fun ho => ?_⟩
  rcases hgone with ⟨hp, hd⟩ | ⟨hp, hd⟩
  · rw [hp]
    exact (hs.phase (hwas ▸ ho)).imp_right fun hf => ⟨hf.1, hf.2.imp_right hd⟩
  · exact .inr ⟨hp, .inr hd⟩

/-- **Every action keeps the switch with the session**, as long as the application leaves it alone. -/
theorem acts (ha : Acts h a h') (hs : Switched closed h) (ho : Orderly h) (hv : a.leavesEvents) :
    Switched (closed ∨ (Moment.mk h a).closes) h' := by
  have hmono : Switched closed h' → Switched (closed ∨ (Moment.mk h a).closes) h' := fun hs => hs.mono .inl
  cases ha with
  | loop inputFirst hm ht =>
    have hwas : h'.wasOperational = h.wasOperational := by
      rw [Host.wasOperational_append ht.history, changesOf_what, hm.changes.1, List.any_nil, Bool.or_false]
    refine hmono ⟨?_, ?_, ?_, ?_, ?_, ?_⟩
    · rw [ht.link, hm.forwarding, hwas, hs.forwarding]
    · rw [ht.calls, ht.session]
      exact hs.registering
    · rw [hwas, ht.session]
      exact hs.portTaken
    · rw [hwas, ht.session]
      exact hs.descriptor
    · rw [hwas, ht.calls]
      exact hs.outside
    · rw [hwas, ht.session]
      exact hs.phase
  | dispatcher inputFirst hm ht => exact hmono (hs.dispatcher hm ht)
  | @call id i c m h' hc hm hl =>
    refine hs.call ho (Host.call?_mem hc) hm hl (Or.imp_right fun hq => ?_)
    show (h.call? id).any (·.point.isClose) = true
    rw [hc]
    exact hq
  | make r hm ready =>
    refine hmono (hs.quiet rfl rfl (fun c hc => ?_) rfl rfl rfl rfl)
    rcases List.mem_append.mp hc with hc | hc
    · exact .inl hc
    · obtain rfl := List.mem_singleton.mp hc
      exact .inr ⟨r, rfl⟩
  | abandon hc released hr ready =>
    exact hmono (hs.quiet rfl (Link.forwarding_vacate _ _) (fun c hc => .inl (List.mem_filter.mp hc).1) (by simp)
      (Session.vacate_descriptor _ _) (by simp) (by simp))
  | forward | takeEvent | dropListener => cases hv
  | _ => exact hmono (hs.quiet rfl rfl (fun c hc => .inl hc) rfl rfl rfl rfl)

end Switched

/-- What has happened in a longer run. -/
theorem Host.exists_moment_concat {P : Moment → Prop} (h : Host) (as : List Action) (a : Action) :
    (∃ m ∈ h.moments (as ++ [a]), P m) ↔ (∃ m ∈ h.moments as, P m) ∨ P ⟨h.run as, a⟩ := by
  rw [moments_concat]
  simp [or_and_right, exists_or]

/-- The switch is kept with the session in every run in which the application leaves it alone. -/
theorem Host.switched_run (config : SessionConfig) (twin : Twin) (as : List Action) (hv : ∀ a ∈ as, a.leavesEvents) :
    Switched (∃ m ∈ (ofSession config twin).moments as, m.closes) ((ofSession config twin).run as) := by
  induction as using List.reverseRecOn with
  | nil => exact .ofSession config twin
  | append_singleton as a ih =>
    have hs := ih fun a ha => hv a (List.mem_append_left _ ha)
    rw [run_concat]
    refine (hs.acts (acts_ofSession config twin _ a) (orderly_run config twin as) (hv a (by simp))).mono ?_
    exact (exists_moment_concat _ as a).mpr

end TwinLink
