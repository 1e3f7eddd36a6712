import TwinLink.Proofs.Host.Holders
import TwinLink.Proofs.Link.Edits
import TwinLink.Proofs.Packet.Codec

/-!
# What calls of a session are for

* `Plan.Named` : the request of a plan carries the name that its reply is known by; `Operation.plan_named`;
* `Operation.Plans` : what planning an operation comes to; `Operation.plan_cases`;
* `Point.command?` : the command of a call at this point; `Call.Commands c t plan` : the call has its turn;
* `Action.viaSession` : the application uses the session and not the link under it;
* `Point.Regular` : a call of a session has a plan that it made itself, and sends what that plan says;
* `CallMove.plan`, `CallMove.ticket`, `CallMove.turn`, `CallMove.holder` : what a move makes of plan, registration, lock;
* `CallMove.regular` : what it makes of a call of a session.
-/

namespace TwinLink

/-! ## Requests -/

/-- The request is of the type that its kind has, and it carries the name of the field. -/
structure Plan.Named (plan : Plan) : Prop where
  type : plan.request.type = plan.kind.request.code
  name : ∃ payload, NamedPayload.decode plan.request.payload = .ok payload ∧ payload.name = plan.name

section

variable {α : Type} {kind : OperationKind} {name : String} {found : Located α} {data : Except SchemaError Bytes}
  {result : Schema} {plan : Plan} {d : Descriptor} {op : Operation}

/-- A plan is made if the index has room in its byte, there is a value, and the name has room behind its length. -/
theorem Plan.make_eq_ok_iff :
    make kind name found data result = .ok plan ↔ found.index < 256 ∧ ∃ bytes request, data = .ok bytes ∧
      NamedPayload.toPacket ⟨UInt8.ofNat found.index, name, bytes⟩ kind.request = .ok request ∧
      plan = ⟨kind, found.interface.id, name, request, result⟩ := by
  unfold make
  split
  · cases data with
    | error e => simp [*]
    | ok bytes =>
      cases he : NamedPayload.toPacket ⟨UInt8.ofNat found.index, name, bytes⟩ kind.request <;> simp [*, eq_comm]
  · simp [*]

theorem Plan.make_named (h : make kind name found data result = .ok plan) : plan.Named := by
  obtain ⟨-, bytes, request, -, hr, rfl⟩ := make_eq_ok_iff.mp h
  obtain ⟨payload, -, rfl⟩ := NamedPayload.toPacket_eq_ok_iff.mp hr
  exact ⟨rfl, _, NamedPayload.decode_toPacket hr, rfl⟩

/-- What planning an operation comes to: a plan made for the field that is found by its name, unless there is none, or it
is a property that cannot be written. -/
inductive Operation.Plans (d : Descriptor) : Operation → Except SessionError Plan → Prop
  | unknownCommand {name input : String} (hf : d.command? name = none) :
      Plans d (.invoke name input) (.error (.unknownCommand name))
  | invoke {name input : String} {found : Located Command} (hf : d.command? name = some found) :
      Plans d (.invoke name input)
        (Plan.make .command name found (found.definition.request.toBytes input) found.definition.response)
  | unknownRead {name : String} (hf : d.property? name = none) : Plans d (.read name) (.error (.unknownProperty name))
  | read {name : String} {found : Located Property} (hf : d.property? name = some found) :
      Plans d (.read name) (Plan.make .read name found (.ok []) found.definition.schema)
  | unknownWrite {name value : String} (hf : d.property? name = none) :
      Plans d (.write name value) (.error (.unknownProperty name))
  | notWriteable {name value : String} {found : Located Property} (hf : d.property? name = some found)
      (hw : found.definition.writeable = false) : Plans d (.write name value) (.error (.notWriteable name))
  | write {name value : String} {found : Located Property} (hf : d.property? name = some found)
      (hw : found.definition.writeable) :
      Plans d (.write name value)
        (Plan.make .write name found (found.definition.schema.toBytes value) found.definition.schema)

theorem Operation.plan_cases (d : Descriptor) (op : Operation) : op.Plans d (op.plan d) := by
  cases op with
  | invoke name input =>
    rw [plan]
    split
    · exact .unknownCommand ‹_›
    · exact .invoke ‹_›
  | read name =>
    rw [plan]
    split
    · exact .unknownRead ‹_›
    · exact .read ‹_›
  | write name value =>
    rw [plan]
    split
    · exact .unknownWrite ‹_›
    · split
      · exact .write ‹_› ‹_›
      · exact .notWriteable ‹_› (Bool.eq_false_iff.mpr ‹_›)

/-- Every plan is named. -/
theorem Operation.plan_named (h : op.plan d = .ok plan) : plan.Named := by
  have hc := op.plan_cases d
  generalize op.plan d = planned at h hc
  cases hc with
  | invoke | read | write => exact Plan.make_named h
  | _ => cases h

/-- A command is planned by the device's definition of it. -/
theorem Operation.plan_command (h : op.plan d = .ok plan)
    (hk : plan.kind = .command) : ∃ input found data, op = .invoke plan.name input ∧ d.command? plan.name = some found ∧
      found.definition.request.toBytes input = .ok data ∧ plan.result = found.definition.response ∧
      NamedPayload.decode plan.request.payload = .ok ⟨UInt8.ofNat found.index, plan.name, data⟩ := by
  have hc := op.plan_cases d
  generalize op.plan d = planned at h hc
  cases hc with
  | invoke hf =>
    obtain ⟨-, bytes, request, hb, hr, rfl⟩ := Plan.make_eq_ok_iff.mp h
    exact ⟨_, _, bytes, rfl, hf, hb, rfl, NamedPayload.decode_toPacket hr⟩
  | read | write =>
    obtain ⟨-, bytes, request, -, -, rfl⟩ := Plan.make_eq_ok_iff.mp h
    cases hk
  | _ => cases h

end

/-! ## Points -/

/-- The command of a call at this point. -/
def Point.command? (q : Point) : Option Plan := q.plan?.filter (·.kind == .command)

theorem Point.command?_eq_some {q : Point} {plan : Plan} :
    q.command? = some plan ↔ q.plan? = some plan ∧ plan.kind = .command := by
  simp [command?, Option.filter_eq_some_iff]

/-- The call has its turn with the command `plan`, and the registration `t` for the reply. -/
def Call.Commands (c : Call) (t : Ticket) (plan : Plan) : Prop :=
  c.point.ticket? = some t ∧ c.point.command? = some plan

/-- The call is over with its first step, and it is no command. -/
def Point.Foreign (q : Point) : Prop := (∀ r, q ≠ .begun r) ∧ q.command? = none

variable {h : Host} {c : Call} {q p : Point} {m : Move} {l : Link} {s : Session} {notes : List Happening} {keeps : Bool}

/-! ## What a move makes of the plan, the registration and the lock -/

theorem Fails.goes {purpose : Purpose} {e : LinkError} (hf : Fails h l notes purpose e m) (hg : m.fate = .goes p keeps) :
    p.plan? = none ∧ p.ticket? = none ∧ ∀ r, p ≠ .begun r := by
  cases hf with
  | direct | operation => cases hg
  | retry | fault => cases hg; exact ⟨rfl, rfl, nofun⟩

theorem Attempts.goes {stage : Stage} {retries : Nat} (ha : Attempts l s notes stage retries m)
    (hg : m.fate = .goes p keeps) : p.plan? = none ∧ (∀ r, p ≠ .begun r) ∧
      ∀ t, p.ticket? = some t → t.id = l.table.nextId ∧ m.link.table.nextId = l.table.nextId + 1 := by
  cases ha with
  | opened ho => cases hg; exact ⟨rfl, nofun, fun t ht => by cases ht; exact ⟨rfl, rfl⟩⟩
  | closed => cases hg; exact ⟨rfl, nofun, nofun⟩

/-- Only a first step brings a plan, and it leads into the line for the lock. -/
theorem CallMove.plan (hm : CallMove h c q m) (hg : m.fate = .goes p keeps) : (∀ r, p ≠ .begun r) ∧
    ∀ plan, p.plan? = some plan →
      q.plan? = some plan ∧ p ≠ .inLine plan ∨ (∃ r, q = .begun r) ∧ p = .inLine plan := by
  have hnone : p.plan? = none → ∀ plan, p.plan? = some plan →
      q.plan? = some plan ∧ p ≠ .inLine plan ∨ (∃ r, q = .begun r) ∧ p = .inLine plan :=
    fun hp plan h => by rw [hp] at h; cases h
  cases hm with
  | begin hm =>
    cases hm with
    | start hp ht ha => exact ⟨(ha.goes hg).2.1, hnone (ha.goes hg).1⟩
    | operate op plan | twinOperate op plan =>
      cases hg
      exact ⟨nofun, fun plan' h => .inr ⟨⟨_, rfl⟩, by cases h; rfl⟩⟩
    | send | exchange | receive | await | shutDown | close => cases hg; exact ⟨nofun, nofun⟩
    | _ => cases hg
  | shutOut frame ticket limit purpose hc hf => exact ⟨(hf.goes hg).2.2, hnone (hf.goes hg).1⟩
  | unwritten ticket limit purpose e hr hf => exact ⟨(hf.goes hg).2.2, hnone (hf.goes hg).1⟩
  | failed ticket limit alarm purpose e hd hf => exact ⟨(hf.goes hg).2.2, hnone (hf.goes hg).1⟩
  | timedOut ticket limit alarm purpose hd ha hf => exact ⟨(hf.goes hg).2.2, hnone (hf.goes hg).1⟩
  | acknowledged ticket limit alarm retries p' hd ha => exact ⟨(ha.goes hg).2.1, hnone (ha.goes hg).1⟩
  | paused alarm stage retries ha hm => exact ⟨(hm.goes hg).2.1, hnone (hm.goes hg).1⟩
  | locked | entered | written | taken => cases hg; exact ⟨nofun, fun plan h => .inl ⟨h, nofun⟩⟩
  | misdescribed | described | asked | skipped | refused | registered => cases hg; exact ⟨nofun, nofun⟩
  | _ => cases hg

/-- A call that goes on keeps its registration, or has none, or has the newest. -/
theorem CallMove.ticket (hm : CallMove h c q m) (hg : m.fate = .goes p keeps) {t : Ticket} (ht : p.ticket? = some t) :
    q.ticket? = some t ∨ t.id = h.link.table.nextId ∧ m.link.table.nextId = h.link.table.nextId + 1 := by
  have hnone : p.ticket? = none → q.ticket? = some t ∨
      t.id = h.link.table.nextId ∧ m.link.table.nextId = h.link.table.nextId + 1 := fun hp => by rw [hp] at ht; cases ht
  cases hm with
  | begin hm =>
    cases hm with
    | start hp hf ha => exact .inr ((ha.goes hg).2.2 t ht)
    | exchange | receive => cases hg; cases ht; exact .inr ⟨rfl, rfl⟩
    | await => cases hg; exact .inl ht
    | operate | twinOperate | send | shutDown | close => cases hg; cases ht
    | _ => cases hg
  | shutOut frame ticket limit purpose hc hf => exact hnone (hf.goes hg).2.1
  | unwritten ticket limit purpose e hr hf => exact hnone (hf.goes hg).2.1
  | failed ticket limit alarm purpose e hd hf => exact hnone (hf.goes hg).2.1
  | timedOut ticket limit alarm purpose hd ha hf => exact hnone (hf.goes hg).2.1
  | acknowledged ticket limit alarm retries p' hd ha => exact .inr ((ha.goes hg).2.2 t ht)
  | paused alarm stage retries ha hm => exact .inr ((hm.goes hg).2.2 t ht)
  | locked => cases hg; cases ht; exact .inr ⟨rfl, rfl⟩
  | entered | written => cases hg; exact .inl ht
  | taken | misdescribed | described | asked | skipped | refused | registered => cases hg; cases ht
  | _ => cases hg

/-- A call that goes on with a registration and a plan had both before and leaves all registrations alone, or it has just
got the lock. -/
theorem CallMove.turn (hm : CallMove h c q m) (hg : m.fate = .goes p keeps) {t : Ticket} {plan : Plan}
    (ht : p.ticket? = some t) (hp : p.plan? = some plan) :
      (q.ticket? = some t ∧ q.plan? = some plan ∧ m.link.table = h.link.table ∧
        m.link.deliveries = h.link.deliveries) ∨
      q = .inLine plan ∧ ((h.session.lock plan.kind).acquire c.id).2 ∧ h.link.table.closed = none ∧
        t = ⟨h.link.table.nextId, plan.kind.response.code⟩ ∧
        m.link = h.link.enroll plan.kind.response.code (.named plan.name) ∧
        m.session = h.session.setLock plan.kind ((h.session.lock plan.kind).acquire c.id).1 := by
  have hnone : p.plan? ≠ none := by rw [hp]; exact nofun
  cases hm with
  | begin hm =>
    cases hm with
    | start hp hf ha => exact absurd (ha.goes hg).1 hnone
    | operate | twinOperate => cases hg; cases ht
    | send | exchange | receive | await | shutDown | close => cases hg; cases hp
    | _ => cases hg
  | locked plan ha ho => cases hg; cases hp; cases ht; exact .inr ⟨rfl, ha, ho, rfl, rfl, rfl⟩
  | shutOut frame ticket limit purpose hc hf => exact absurd (hf.goes hg).1 hnone
  | unwritten ticket limit purpose e hr hf => exact absurd (hf.goes hg).1 hnone
  | failed ticket limit alarm purpose e hd hf => exact absurd (hf.goes hg).1 hnone
  | timedOut ticket limit alarm purpose hd ha hf => exact absurd (hf.goes hg).1 hnone
  | acknowledged ticket limit alarm retries p' hd ha => exact absurd (ha.goes hg).1 hnone
  | paused alarm stage retries ha hm => exact absurd (hm.goes hg).1 hnone
  | entered | written => cases hg; exact .inl ⟨ht, hp, rfl, rfl⟩
  | taken => cases hg; cases ht
  | misdescribed | described | asked | skipped | refused | registered => cases hg; cases hp
  | _ => cases hg

/-- A command that has its turn keeps it as long as it goes on. -/
theorem CallMove.keepsTurn (hm : CallMove h c q m) (hg : m.fate = .goes p keeps) {t : Ticket} {plan : Plan}
    (ht : q.ticket? = some t) (hp : q.plan? = some plan) (hk : plan.kind = .command) : p.ticket? = some t ∧
      p.plan? = some plan ∧ m.link.table = h.link.table ∧ m.link.deliveries = h.link.deliveries := by
  -- a failed operation ends its call
  have hends : ∀ {l : Link} {notes : List Happening} {purpose : Purpose} {e : LinkError},
      purpose.plan? = some plan → ¬Fails h l notes purpose e m := fun hp hf => by
    cases hf with
    | direct | operation => cases hg
    | retry | fault => cases hp
  cases hm with
  | begin => cases hp
  | entered | written => cases hg; exact ⟨ht, hp, rfl, rfl⟩
  | shutOut frame ticket limit purpose hc hf => exact (hends hp hf).elim
  | unwritten ticket limit purpose e hr hf => exact (hends hp hf).elim
  | failed ticket limit alarm purpose e hd hf => exact (hends hp hf).elim
  | timedOut ticket limit alarm purpose hd ha hf => exact (hends hp hf).elim
  | taken ticket limit alarm plan' p hd value hr hkind =>
    cases hp
    rw [hkind] at hk
    cases hk
  | acknowledged | misdescribed | described => cases hp
  | locked | paused | asked | skipped | refused | registered => cases ht
  | _ => cases hg

/-- A call that stays leaves all registrations alone. -/
theorem CallMove.stays (hm : CallMove h c q m) (hf : m.fate = .stays) :
    m.link.table = h.link.table ∧ m.link.deliveries = h.link.deliveries := by
  have hfails : ∀ {l : Link} {notes : List Happening} {purpose : Purpose} {e : LinkError},
      ¬Fails h l notes purpose e m := fun h => by cases h <;> cases hf
  have hattempts : ∀ {l : Link} {s : Session} {notes : List Happening} {stage : Stage} {retries : Nat},
      ¬Attempts l s notes stage retries m := fun h => by cases h <;> cases hf
  cases hm with
  | begin hm =>
    cases hm with
    | start hp ht ha => exact (hattempts ha).elim
    | _ => cases hf
  | lined | queued | telling => exact ⟨rfl, rfl⟩
  | shutOut frame ticket limit purpose hc h => exact (hfails h).elim
  | unwritten ticket limit purpose e hr h => exact (hfails h).elim
  | failed ticket limit alarm purpose e hd h => exact (hfails h).elim
  | timedOut ticket limit alarm purpose hd ha h => exact (hfails h).elim
  | acknowledged ticket limit alarm retries p hd ha => exact (hattempts ha).elim
  | paused alarm stage retries ha hm => exact (hattempts hm).elim
  | _ => cases hf

/-! ## The lock for commands -/

theorem Lock.acquire_holder {l : Lock} {id id' : Nat} (hl : l.holder = some id') :
    (l.acquire id).1.holder = some id' := by
  unfold acquire
  rw [hl]
  dsimp only
  split_ifs
  · exact hl
  · exact hl
  · rfl

theorem Lock.acquire_held {l : Lock} {id : Nat} (ha : (l.acquire id).2) :
    (l.acquire id).1.holder = some id ∧ (l.holder = none ∨ l.holder = some id) := by
  unfold acquire at ha ⊢
  split
  · exact ⟨rfl, .inl ‹_›⟩
  · rename_i id' hl
    rw [hl] at ha
    dsimp only at ha
    split_ifs at ha with he
    subst he
    rw [if_pos rfl]
    exact ⟨hl, .inr hl⟩

theorem Lock.release_holder {l : Lock} {id id' : Nat} (hl : l.holder = some id') (hne : id' ≠ id) :
    (l.release id).1.holder = some id' := by
  unfold release
  rw [if_neg (by rw [hl]; simpa using hne)]
  exact hl

theorem Point.kind_ne_command (hq : q.command? = none) {plan : Plan} (hp : q.plan? = some plan) :
    plan.kind ≠ .command := fun hk => by
  rw [Point.command?_eq_some.mpr ⟨hp, hk⟩] at hq
  cases hq

/-- Who leaves gives back the lock for commands, or never asked for it. -/
theorem Session.vacate_commandLock (s : Session) (c : Call) :
    (s.vacate c).commandLock = s.commandLock ∨ (s.vacate c).commandLock = (s.commandLock.release c.id).1 := by
  unfold vacate
  cases c.point.plan? with
  | none => exact .inl rfl
  | some plan =>
    dsimp only [Option.elim]
    cases plan.kind with
    | command => exact .inr rfl
    | read => exact .inl rfl
    | write => exact .inl rfl

theorem Fails.commandLock {purpose : Purpose} {e : LinkError} (hf : Fails h l notes purpose e m) :
    m.session.commandLock = h.session.commandLock := by
  cases hf <;> rfl

theorem Attempts.commandLock {stage : Stage} {retries : Nat} (ha : Attempts l s notes stage retries m) :
    m.session.commandLock = s.commandLock := by
  cases ha <;> rfl

/-- Only a command in line asks for the lock. -/
theorem CallMove.commandLock (hm : CallMove h c q m) : m.session.commandLock = h.session.commandLock ∨
    ∃ plan, q = .inLine plan ∧ plan.kind = .command ∧
      m.session.commandLock = (h.session.commandLock.acquire c.id).1 := by
  have hlock : ∀ plan : Plan, m.session = h.session.setLock plan.kind ((h.session.lock plan.kind).acquire c.id).1 →
      q = .inLine plan → m.session.commandLock = h.session.commandLock ∨ ∃ plan, q = .inLine plan ∧
        plan.kind = .command ∧ m.session.commandLock = (h.session.commandLock.acquire c.id).1 := by
    intro plan hs hq
    cases hk : plan.kind with
    | command => exact .inr ⟨plan, hq, hk, by rw [hs, hk]; rfl⟩
    | read => exact .inl (by rw [hs, hk]; rfl)
    | write => exact .inl (by rw [hs, hk]; rfl)
  cases hm with
  | begin hm =>
    cases hm with
    | start hp hf ha => exact .inl ha.commandLock
    | _ => exact .inl rfl
  | locked plan | lockedClosed plan | lined plan => exact hlock plan rfl rfl
  | shutOut frame ticket limit purpose hc hf => exact .inl hf.commandLock
  | unwritten ticket limit purpose e hr hf => exact .inl hf.commandLock
  | failed ticket limit alarm purpose e hd hf => exact .inl hf.commandLock
  | timedOut ticket limit alarm purpose hd ha hf => exact .inl hf.commandLock
  | acknowledged ticket limit alarm retries p hd ha => exact .inl ha.commandLock
  | paused alarm stage retries ha hm => exact .inl hm.commandLock
  | _ => exact .inl rfl

/-- Who holds the lock for commands keeps it while others move. -/
theorem CallMove.holder (hm : CallMove h c c.point m) {id : Nat} (hl : h.session.commandLock.holder = some id) :
    m.session.commandLock.holder = some id ∧ (id ≠ c.id → (m.sessionAfter c).commandLock.holder = some id) := by
  have hs : m.session.commandLock.holder = some id := by
    rcases hm.commandLock with he | ⟨-, -, -, he⟩ <;> rw [he]
    · exact hl
    · exact Lock.acquire_holder hl
  refine ⟨hs, fun hne => ?_⟩
  unfold Move.sessionAfter
  split
  · rcases m.session.vacate_commandLock c with he | he <;> rw [he]
    · exact hs
    · exact Lock.release_holder hs hne
  · exact hs

/-! ## Calls of a session -/

/-- The request is one that a session takes. -/
def Request.ofSession : Request → Bool
  | .start => true
  | .operate _ => true
  | .twinOperate _ => true
  | .close => true
  | _ => false

/-- The action does not go past the session to its link. -/
def Action.viaSession : Action → Bool
  | .make r => r.ofSession
  | .register .. => false
  | .withdraw _ => false
  | .forward _ => false
  | .takeEvent => false
  | .dropListener => false
  | _ => true

/-- The plan that a call makes in its first step. -/
def Host.planned (h : Host) (c : Call) : Option Plan :=
  match c.point with
  | .begun (.operate op) => (h.planOperation op).toOption
  | .begun (.twinOperate op) => if h.attached then (h.planOperation op).toOption else none
  | _ => none

/-- What an exchange sends. -/
def Purpose.packet? : Purpose → Option Packet
  | .direct => none
  | .handshake stage _ => some (.bare stage.request)
  | .operation plan => some plan.request

/-- The plans made so far contain the one that the call `id` follows. -/
def Purpose.Regular (planned : List (Nat × Plan)) (id : Nat) : Purpose → Prop
  | .direct => False
  | .handshake .. => True
  | .operation plan => (id, plan) ∈ planned

/-- The call `id` at this point was made through the session, and follows a plan of its own. -/
def Point.Regular (planned : List (Nat × Plan)) (id : Nat) : Point → Prop
  | .begun r => r.ofSession
  | .inLine plan => (id, plan) ∈ planned
  | .entering frame ticket _ purpose => ticket.isSome ∧ purpose.Regular planned id ∧
      ∃ p, purpose.packet? = some p ∧ frame = Frame.encode p.toBytes
  | .writing ticket _ purpose => ticket.isSome ∧ purpose.Regular planned id
  | .awaiting _ _ _ purpose => purpose.Regular planned id
  | .updating plan _ _ => plan.kind = .write
  | _ => True

theorem Purpose.Regular.mono {planned planned' : List (Nat × Plan)} (hs : planned ⊆ planned') {id : Nat}
    {purpose : Purpose} (hr : purpose.Regular planned id) : purpose.Regular planned' id := by
  cases purpose with
  | operation plan => exact hs hr
  | _ => exact hr

theorem Point.Regular.mono {planned planned' : List (Nat × Plan)} (hs : planned ⊆ planned') {id : Nat}
    (hr : q.Regular planned id) : q.Regular planned' id := by
  cases q with
  | inLine plan => exact hs hr
  | entering frame ticket limit purpose => exact ⟨hr.1, hr.2.1.mono hs, hr.2.2⟩
  | writing ticket limit purpose => exact ⟨hr.1, hr.2.mono hs⟩
  | awaiting ticket limit alarm purpose => exact Purpose.Regular.mono hs hr
  | _ => exact hr

/-- A call of a session registers for the reply to a command only as a command that gets the lock. -/
theorem Point.Regular.asks {planned : List (Nat × Plan)} {id : Nat} (hr : q.Regular planned id) {type : UInt8}
    (ha : q.Asks type) (ht : type = PacketKind.commandResponse.code) :
    ∃ plan, q = .inLine plan ∧ plan.kind = .command := by
  -- the handshake asks for other types
  have hshake : ∀ stage : Stage, type ≠ stage.response.code := fun stage he => by
    rw [he] at ht
    cases stage <;> exact absurd ht (by decide)
  cases q with
  | begun r =>
    cases r with
    | start => exact absurd ha (hshake .reset)
    | exchange | receive => cases hr
    | _ => cases ha
  | inLine plan =>
    refine ⟨plan, rfl, ?_⟩
    have ha : type = plan.kind.response.code := ha
    rw [ha] at ht
    cases hk : plan.kind with
    | command => rfl
    | _ => rw [hk] at ht; exact absurd ht (by decide)
  | awaiting ticket limit alarm purpose =>
    cases purpose with
    | handshake stage retries => exact absurd ha (hshake .describe)
    | _ => cases ha
  | pausing alarm stage retries => exact absurd ha (hshake stage)
  | _ => cases ha

/-- A command of a session is in line, or has a registration. -/
theorem Point.Regular.stage {planned : List (Nat × Plan)} {id : Nat} (hr : q.Regular planned id) {plan : Plan}
    (hp : q.command? = some plan) : q = .inLine plan ∨ ∃ t, q.ticket? = some t := by
  obtain ⟨hp, hk⟩ := command?_eq_some.mp hp
  cases q with
  | inLine plan' => cases hp; exact .inl rfl
  | entering frame ticket limit purpose => exact .inr (Option.isSome_iff_exists.mp hr.1)
  | writing ticket limit purpose => exact .inr (Option.isSome_iff_exists.mp hr.1)
  | awaiting ticket limit alarm purpose => exact .inr ⟨ticket, rfl⟩
  | updating plan' value pending =>
    cases hp
    have hr : plan.kind = .write := hr
    rw [hr] at hk
    cases hk
  | _ => cases hp

theorem Purpose.Regular.planned {planned : List (Nat × Plan)} {id : Nat} {purpose : Purpose}
    (hr : purpose.Regular planned id) {plan : Plan} (hp : purpose.plan? = some plan) : (id, plan) ∈ planned := by
  cases purpose with
  | operation plan' => cases hp; exact hr
  | _ => cases hp

/-- A command of a session has made its plan itself. -/
theorem Point.Regular.planned {planned : List (Nat × Plan)} {id : Nat} (hr : q.Regular planned id) {plan : Plan}
    (hp : q.command? = some plan) : (id, plan) ∈ planned := by
  obtain ⟨hp, hk⟩ := command?_eq_some.mp hp
  cases q with
  | inLine plan' => cases hp; exact hr
  | entering frame ticket limit purpose => exact hr.2.1.planned hp
  | writing ticket limit purpose => exact hr.2.planned hp
  | awaiting ticket limit alarm purpose => exact Purpose.Regular.planned hr hp
  | updating plan' value pending =>
    cases hp
    have hr : plan.kind = .write := hr
    rw [hr] at hk
    cases hk
  | _ => cases hp

theorem Fails.regular {purpose : Purpose} {e : LinkError} (hf : Fails h l notes purpose e m)
    (hg : m.fate = .goes p keeps) {planned : List (Nat × Plan)} : p.Regular planned c.id := by
  cases hf with
  | direct | operation => cases hg
  | retry | fault => cases hg; trivial

theorem Attempts.regular {stage : Stage} {retries : Nat} (ha : Attempts l s notes stage retries m)
    (hg : m.fate = .goes p keeps) {planned : List (Nat × Plan)} : p.Regular planned c.id := by
  cases ha with
  | opened ho => cases hg; exact ⟨rfl, trivial, _, rfl, rfl⟩
  | closed => cases hg; trivial

/-- A call of a session goes on as one, with the plan that it has made. -/
theorem CallMove.regular {planned : List (Nat × Plan)} (hm : CallMove h c c.point m) (hg : m.fate = .goes p keeps)
    (hr : c.point.Regular planned c.id) :
    p.Regular (planned ++ ((h.planned c).map (c.id, ·)).toList) c.id := by
  have hplanned : h.planned c = match c.point with
    | .begun (.operate op) => (h.planOperation op).toOption
    | .begun (.twinOperate op) => if h.attached then (h.planOperation op).toOption else none
    | _ => none := rfl
  generalize c.point = q at hm hr hplanned
  have hs : planned ⊆ planned ++ ((h.planned c).map (c.id, ·)).toList := List.subset_append_left _ _
  cases hm with
  | begin hm =>
    cases hm with
    | start hp hf ha => exact ha.regular hg
    | operate op plan hp =>
      cases hg
      rw [hplanned]
      dsimp only
      rw [hp]
      exact List.mem_append_right _ (List.mem_singleton.mpr rfl)
    | twinOperate op plan hp ha =>
      cases hg
      rw [hplanned]
      dsimp only
      rw [hp, ha]
      exact List.mem_append_right _ (List.mem_singleton.mpr rfl)
    | send | exchange | receive | await | shutDown => cases hr
    | close => cases hg; trivial
    | _ => cases hg
  | locked plan => cases hg; exact ⟨rfl, hs hr, _, rfl, rfl⟩
  | entered frame ticket limit purpose ho => cases hg; exact ⟨hr.1, hr.2.1.mono hs⟩
  | written ticket limit purpose => cases hg; exact hr.2.mono hs
  | taken ticket limit alarm plan p hd value hv hk => cases hg; exact hk
  | shutOut frame ticket limit purpose hc hf => exact hf.regular hg
  | unwritten ticket limit purpose e hd hf => exact hf.regular hg
  | failed ticket limit alarm purpose e hd hf => exact hf.regular hg
  | timedOut ticket limit alarm purpose hd ha hf => exact hf.regular hg
  | acknowledged ticket limit alarm retries p hd ha => exact ha.regular hg
  | paused alarm stage retries ha hm => exact hm.regular hg
  | misdescribed | described | asked | skipped | refused | registered => cases hg; trivial
  | _ => cases hg

theorem Fails.not_ok {purpose : Purpose} {e : LinkError} (hf : Fails h l notes purpose e m) {plan : Plan}
    (hp : purpose.plan? = some plan) {reply : Reply} (ha : .answered (.ok reply) ∈ m.happenings) :
    .answered (.ok reply) ∈ notes := by
  cases hf with
  | operation plan' => exact (List.mem_cons.mp ha).resolve_left nofun
  | _ => cases hp

/-- A command of a session succeeds only with a packet that was delivered to it. -/
theorem CallMove.succeeds {planned : List (Nat × Plan)} (hm : CallMove h c c.point m) (hr : c.point.Regular planned c.id)
    {plan : Plan} (hp : c.point.command? = some plan) {reply : Reply} (ha : .answered (.ok reply) ∈ m.happenings) :
    ∃ ticket limit alarm p, c.point = .awaiting ticket limit alarm (.operation plan) ∧
      h.link.delivery? ticket.id = some (.ok p) := by
  obtain ⟨hp, hk⟩ := Point.command?_eq_some.mp hp
  generalize c.point = q at hm hr hp
  cases hm with
  | answered ticket limit alarm plan' p hd value hread hkind =>
    cases hp
    exact ⟨ticket, limit, alarm, p, rfl, hd⟩
  | shutOut frame ticket limit purpose hc hf => cases hf.not_ok hp ha
  | unwritten ticket limit purpose e hd hf => cases hf.not_ok hp ha
  | failed ticket limit alarm purpose e hd hf => cases hf.not_ok hp ha
  | timedOut ticket limit alarm purpose hd hdue hf => cases List.mem_singleton.mp (hf.not_ok hp ha)
  | sent limit purpose hd => cases hr.1
  | lockedClosed | unreadable => cases List.mem_singleton.mp ha
  | locked | lined | entered | queued | written => cases ha
  | taken ticket limit alarm plan' p hd value hread hkind =>
    cases hp
    rw [hk] at hkind
    cases hkind
  | updated plan' value pending hdue =>
    cases hp
    have hr : plan.kind = .write := hr
    rw [hk] at hr
    cases hr
  | _ => cases hp

/-- A packet delivered to a command is its answer. -/
theorem CallMove.answer (hm : CallMove h c c.point m) {ticket : Ticket} {limit : Option Nat} {alarm : Option Alarm}
    {plan : Plan} (hq : c.point = .awaiting ticket limit alarm (.operation plan)) (hk : plan.kind = .command)
    {p : Packet} (hd : h.link.delivery? ticket.id = some (.ok p)) :
    m.happenings = [.answered (((plan.read p).map .text).mapError .session)] := by
  rw [hq] at hm
  cases hm with
  | unreadable ticket limit alarm plan p' hd' e hr =>
    rw [hd] at hd'
    cases hd'
    rw [hr]
    rfl
  | answered ticket limit alarm plan p' hd' value hr =>
    rw [hd] at hd'
    cases hd'
    rw [hr]
    rfl
  | taken ticket limit alarm plan p' hd' value hr hkind =>
    rw [hk] at hkind
    cases hkind
  | failed ticket limit alarm purpose e hd' => rw [hd] at hd'; cases hd'
  | timedOut ticket limit alarm purpose hd' => rw [hd] at hd'; cases hd'

end TwinLink
