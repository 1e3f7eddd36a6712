import TwinLink.Proofs.Session.Exchanges

/-!
# One request in flight for each type of reply

Registrations are for a type of packet, and those of operations also for the name of a field. Where the application uses
the session and not the link under it no packet is ever accepted by two of them, so that their order decides nothing: the
handshake has one request at a time, operations with one type of reply share a lock, and the handshake is over before an
operation begins.

* `WaitTable.waitingFor` : the registrations for one kind of packet;
* `Waiter.Of` : what a call of a session has registered for; `Host.owner`;
* `Host.Distinct` : no two registrations can take one packet; `Host.entries_distinct`;
* `Host.bothAsked` : a run in which a command and a property are asked for at a time.
-/

namespace TwinLink

/-! ## Lists -/

theorem length_le_one {α : Type} {xs : List α} (hn : xs.Nodup) (he : ∀ x ∈ xs, ∀ y ∈ xs, x = y) : xs.length ≤ 1 := by
  match xs with
  | [] => exact Nat.zero_le _
  | [_] => exact Nat.le_refl _
  | x :: y :: rest =>
    have hxy : x = y := he x List.mem_cons_self y (List.mem_cons_of_mem _ List.mem_cons_self)
    exact absurd (hxy ▸ List.mem_cons_self) (List.nodup_cons.mp hn).1

/-- Where at most one element will do, the order does not matter. -/
theorem find?_eq_of_perm {α : Type} {xs ys : List α} {f : α → Bool} (hp : xs.Perm ys)
    (he : ∀ x ∈ ys, ∀ y ∈ ys, f x → f y → x = y) : xs.find? f = ys.find? f := by
  cases hy : ys.find? f with
  | none => exact List.find?_eq_none.mpr fun x hx => List.find?_eq_none.mp hy x (hp.mem_iff.mp hx)
  | some y =>
    cases hx : xs.find? f with
    | none =>
      have hno := List.find?_eq_none.mp hx y (hp.mem_iff.mpr (List.mem_of_find?_eq_some hy))
      exact absurd (List.find?_some hy) hno
    | some x =>
      have hxy := he x (hp.mem_iff.mp (List.mem_of_find?_eq_some hx)) y (List.mem_of_find?_eq_some hy)
        (List.find?_some hx) (List.find?_some hy)
      rw [hxy]

/-! ## Who has registered for what -/

/-- The registrations for packets of one kind. -/
def WaitTable.waitingFor (t : WaitTable) (kind : PacketKind) : List Waiter := t.entries.filter (·.type == kind.code)

theorem WaitTable.mem_waitingFor {t : WaitTable} {kind : PacketKind} {w : Waiter} :
    w ∈ t.waitingFor kind ↔ w ∈ t.entries ∧ w.type = kind.code := by
  simp [waitingFor]

/-- The registration is that of a call at this point: of an operation, for the reply to it, or of a start, for the reply
to a request of the handshake. -/
inductive Waiter.Of (w : Waiter) (q : Point) : Prop
  | operation (plan : Plan) (hq : q.plan? = some plan) (hw : w.type = plan.kind.response.code)
  | handshake (stage : Stage) (hq : q.phase? ≠ none) (hw : w.type = stage.response.code)

/-- A call of a session that has a registration has it for an exchange of the session. -/
theorem Point.Regular.exchanges {planned : List (Nat × Plan)} {id : Nat} {q : Point} (hr : q.Regular planned id)
    {t : Ticket} (ht : q.ticket? = some t) : ∃ purpose, q.purpose? = some purpose ∧ purpose ≠ .direct := by
  have hdirect : ∀ {purpose : Purpose}, purpose.Regular planned id → purpose ≠ .direct := by
    rintro purpose hr rfl
    exact hr
  cases q with
  | begun r =>
    cases r with
    | await => cases hr
    | _ => cases ht
  | entering frame ticket limit purpose => exact ⟨purpose, rfl, hdirect hr.2.1⟩
  | writing ticket limit purpose => exact ⟨purpose, rfl, hdirect hr.2⟩
  | awaiting ticket limit alarm purpose => exact ⟨purpose, rfl, hdirect hr⟩
  | _ => cases ht

theorem Purpose.waiter?_of {q : Point} {purpose : Purpose} (hq : q.purpose? = some purpose) {t : Nat} {w : Waiter}
    (hw : purpose.waiter? t = some w) : w.Of q := by
  cases purpose with
  | direct => cases hw
  | handshake stage retries =>
    cases hw
    refine .handshake stage ?_ rfl
    cases q <;> cases hq <;> exact nofun
  | operation plan =>
    cases hw
    refine .operation plan ?_ rfl
    cases q <;> cases hq <;> rfl

/-- Kinds are told apart by their codes. -/
theorem OperationKind.response_inj {kind kind' : OperationKind} (he : kind.response.code = kind'.response.code) :
    kind.response = kind'.response := by
  cases kind <;> cases kind' <;> first | rfl | exact absurd he (by decide)

theorem OperationKind.response_ne (kind : OperationKind) (stage : Stage) :
    kind.response.code ≠ stage.response.code := by
  cases kind <;> cases stage <;> decide

namespace Host

/-- No two registrations can take one packet. -/
structure Distinct (h : Host) : Prop where
  /-- At most one waits for the reply to a command, and at most one for a notification of a property. -/
  commands : (h.link.table.waitingFor .commandResponse).length ≤ 1
  properties : (h.link.table.waitingFor .propertyNotification).length ≤ 1
  /-- None waits for a reply to the handshake beside those. -/
  handshake : h.link.table.waitingFor .commandResponse ≠ [] ∨ h.link.table.waitingFor .propertyNotification ≠ [] →
    h.link.table.waitingFor .resetResponse = [] ∧ h.link.table.waitingFor .descriptorResponse = []
  /-- Until the session is operational there is at most one. -/
  starting : h.wasOperational = false → h.link.table.entries.length ≤ 1
  /-- They wait for nothing else. -/
  kinds : ∀ w ∈ h.link.table.entries, w.type = PacketKind.resetResponse.code ∨
    w.type = PacketKind.descriptorResponse.code ∨ w.type = PacketKind.commandResponse.code ∨
    w.type = PacketKind.propertyNotification.code
  /-- A packet is accepted by at most one. -/
  accepted : ∀ p, (h.link.table.entries.filter (·.accepts p)).length ≤ 1
  /-- In whatever order they stand, the same one takes it. -/
  order : ∀ entries, entries.Perm h.link.table.entries → ∀ p,
    (({ h.link.table with entries := entries } : WaitTable).takeMatch? p).map (·.1)
      = (h.link.table.takeMatch? p).map (·.1)

section

variable {config : SessionConfig} {twin : Twin} {as : List Action} (hv : ∀ a ∈ as, a.viaSession)
include hv

/-- A registration of a session is that of a call. -/
theorem owner {w : Waiter} (hw : w ∈ ((ofSession config twin).run as).link.table.entries) :
    ∃ c ∈ ((ofSession config twin).run as).calls, c.point.ticket? = some w.ticket ∧ w.Of c.point := by
  have hk := (Setup.session config twin).kept_run as
  obtain ⟨hlive, -⟩ := hk.of_mem hw
  have hlive : w.ticket ∈ ((ofSession config twin).run as).live := hlive
  rw [live, (bound_run hv).tickets, List.nil_append] at hlive
  obtain ⟨c, hc, ht⟩ := List.mem_filterMap.mp hlive
  obtain ⟨purpose, hp, hd⟩ := ((separate_run hv).regular c hc).exchanges ht
  obtain ⟨w', hw', ht', hwaiter⟩ := registered_run config twin as c hc purpose hp hd
  -- the number of a registration tells which it is
  have hid : w.id = w'.id := congrArg Ticket.id (Option.some.inj (ht.symm.trans ht'))
  obtain rfl := hk.eq_of_id (hk.mem_opened hw) hw' hid
  exact ⟨c, hc, ht, Purpose.waiter?_of hp hwaiter⟩

/-- Two calls of a session with registrations for one type of packet are the same. -/
theorem owner_unique {v w : Waiter} {c c' : Call} (hc : c ∈ ((ofSession config twin).run as).calls)
    (hc' : c' ∈ ((ofSession config twin).run as).calls) (hv' : c.point.ticket? = some v.ticket)
    (hw : c'.point.ticket? = some w.ticket) (hvo : v.Of c.point) (hwo : w.Of c'.point) (ht : v.type = w.type) :
    c = c' := by
  cases hvo with
  | operation plan hq hvt =>
    cases hwo with
    | operation plan' hq' hwt =>
      rw [hvt, hwt] at ht
      exact (bound_run hv).eq_of_turn (separate_run hv).numbered hc hc' hv' hq hw hq' (OperationKind.response_inj ht)
    | handshake stage hq' hwt =>
      rw [hvt, hwt] at ht
      exact absurd ht (plan.kind.response_ne stage)
  | handshake stage hq hvt =>
    cases hwo with
    | operation plan hq' hwt =>
      rw [hvt, hwt] at ht
      exact absurd ht.symm (plan.kind.response_ne stage)
    | handshake stage' hq' hwt => exact (orderly_run config twin as).alone c hc c' hc' hq hq'

omit hv in
/-- A call has one registration. -/
theorem eq_of_ticket {v w : Waiter} (hv : v ∈ ((ofSession config twin).run as).link.table.entries)
    (hw : w ∈ ((ofSession config twin).run as).link.table.entries) {c : Call} (hct : c.point.ticket? = some v.ticket)
    (hct' : c.point.ticket? = some w.ticket) : v = w := by
  have hk := (Setup.session config twin).kept_run as
  exact hk.eq_of_id (hk.mem_opened hv) (hk.mem_opened hw)
    (congrArg Ticket.id (Option.some.inj (hct.symm.trans hct')))

/-- No two registrations of a session are for one type of packet. -/
theorem eq_of_type {v w : Waiter} (hv' : v ∈ ((ofSession config twin).run as).link.table.entries)
    (hw : w ∈ ((ofSession config twin).run as).link.table.entries) (ht : v.type = w.type) : v = w := by
  obtain ⟨c, hc, hct, hvo⟩ := owner hv hv'
  obtain ⟨c', hc', hct', hwo⟩ := owner hv hw
  obtain rfl := owner_unique hv hc hc' hct hct' hvo hwo ht
  exact eq_of_ticket hv' hw hct hct'

/-- An operation registers only after the handshake. -/
theorem wasOperational_of_type (kind : OperationKind) {w : Waiter} (hw : w ∈ ((ofSession config twin).run as).link.table.entries)
    (ht : w.type = kind.response.code) : ((ofSession config twin).run as).wasOperational := by
  obtain ⟨c, hc, -, hwo⟩ := owner hv hw
  cases hwo with
  | operation plan hq hwt => exact (launched_run config twin as).planned c hc plan hq
  | handshake stage hq hwt => exact absurd (ht.symm.trans hwt) (kind.response_ne stage)

/-- The handshake has no registration after it. -/
theorem not_wasOperational_of_type (stage : Stage) {w : Waiter} (hw : w ∈ ((ofSession config twin).run as).link.table.entries)
    (ht : w.type = stage.response.code) : ¬((ofSession config twin).run as).wasOperational := by
  obtain ⟨c, hc, -, hwo⟩ := owner hv hw
  cases hwo with
  | operation plan hq hwt => exact absurd (hwt.symm.trans ht) (plan.kind.response_ne stage)
  | handshake stage hq hwt => exact fun ho => hq ((launched_run config twin as).outside ho c hc)

/-- No two registrations of a session accept one packet. -/
theorem eq_of_accepts {v w : Waiter} (hv' : v ∈ ((ofSession config twin).run as).link.table.entries)
    (hw : w ∈ ((ofSession config twin).run as).link.table.entries) {p : Packet} (hvp : v.accepts p) (hwp : w.accepts p) :
    v = w :=
  eq_of_type hv hv' hw (((v.accepts_iff p).mp hvp).1.trans ((w.accepts_iff p).mp hwp).1.symm)

/-- A registration for the reply to an operation is there only after the handshake. -/
theorem wasOperational_of_waitingFor (kind : OperationKind)
    (hne : ((ofSession config twin).run as).link.table.waitingFor kind.response ≠ []) :
    ((ofSession config twin).run as).wasOperational := by
  obtain ⟨w, hw⟩ := List.exists_mem_of_ne_nil _ hne
  obtain ⟨hw, ht⟩ := WaitTable.mem_waitingFor.mp hw
  exact wasOperational_of_type hv kind hw ht

/-- After the handshake no registration for a reply to it is left. -/
theorem waitingFor_stage (ho : ((ofSession config twin).run as).wasOperational) (stage : Stage) :
    ((ofSession config twin).run as).link.table.waitingFor stage.response = [] :=
  List.eq_nil_iff_forall_not_mem.mpr fun w hw => by
    obtain ⟨hw, ht⟩ := WaitTable.mem_waitingFor.mp hw
    exact not_wasOperational_of_type hv stage hw ht ho

/-- Until the session is operational, all registrations belong to the one start that is under way. -/
theorem eq_of_starting (hno : ((ofSession config twin).run as).wasOperational = false) {v w : Waiter}
    (hv' : v ∈ ((ofSession config twin).run as).link.table.entries)
    (hw : w ∈ ((ofSession config twin).run as).link.table.entries) : v = w := by
  obtain ⟨c, hc, hct, hvo⟩ := owner hv hv'
  obtain ⟨c', hc', hct', hwo⟩ := owner hv hw
  have hstart : ∀ {u : Waiter} {x : Call}, x ∈ ((ofSession config twin).run as).calls → u.Of x.point →
      x.point.phase? ≠ none := fun hx ho => by
    cases ho with
    | operation plan hq => rw [(launched_run config twin as).planned _ hx plan hq] at hno; cases hno
    | handshake stage hq => exact hq
  obtain rfl := (orderly_run config twin as).alone c hc c' hc' (hstart hc hvo) (hstart hc' hwo)
  exact eq_of_ticket hv' hw hct hct'

end

/-- **In a session used through its own operations, at most one request for each type of reply is in flight,** none of the
handshake beside that of an operation, and a single one until the session is operational. So no packet is accepted by two
registrations, and their order never decides who gets it. -/
theorem entries_distinct (config : SessionConfig) (twin : Twin) (as : List Action) (hv : ∀ a ∈ as, a.viaSession) :
    ((ofSession config twin).run as).Distinct := by
  have hnodup : ((ofSession config twin).run as).link.table.entries.Nodup :=
    ((Setup.session config twin).ordered_run as).pairwise.imp fun hlt he => Nat.ne_of_lt hlt (congrArg Waiter.id he)
  have hone : ∀ kind, (((ofSession config twin).run as).link.table.waitingFor kind).length ≤ 1 := fun kind =>
    length_le_one (hnodup.filter _) fun v hvm w hwm =>
      have hvm := WaitTable.mem_waitingFor.mp hvm
      have hwm := WaitTable.mem_waitingFor.mp hwm
      eq_of_type hv hvm.1 hwm.1 (hvm.2.trans hwm.2.symm)
  refine ⟨hone _, hone _, fun hbusy => ?_, fun hno => ?_, fun w hw => ?_, fun p => ?_, fun entries hperm p => ?_⟩
  · have hop : ((ofSession config twin).run as).wasOperational :=
      hbusy.elim (wasOperational_of_waitingFor hv .command) (wasOperational_of_waitingFor hv .read)
    exact ⟨waitingFor_stage hv hop .reset, waitingFor_stage hv hop .describe⟩
  · exact length_le_one hnodup fun v hvm w hwm => eq_of_starting hv hno hvm hwm
  · obtain ⟨c, -, -, hwo⟩ := owner hv hw
    cases hwo with
    | operation plan hq hwt =>
      rw [hwt]
      cases plan.kind <;> simp [OperationKind.response]
    | handshake stage hq hwt =>
      rw [hwt]
      cases stage <;> simp [Stage.response]
  · refine length_le_one (hnodup.filter _) fun v hvm w hwm => ?_
    obtain ⟨hvm, hvp⟩ := List.mem_filter.mp hvm
    obtain ⟨hwm, hwp⟩ := List.mem_filter.mp hwm
    exact eq_of_accepts hv hvm hwm hvp hwp
  · rw [WaitTable.takeMatch_waiter, WaitTable.takeMatch_waiter]
    exact find?_eq_of_perm hperm fun v hvm w hwm => eq_of_accepts hv hvm hwm

/-- A session starts with a device that has a command and a property. The command is invoked twice and the property is
read: the first command and the read have registered for their replies, and the second command waits for the lock. -/
def bothAsked : List Action :=
  let call := fun id => Action.advance (.call id) false
  let loop := Action.advance .loop false
  let device := fun p : Packet => Action.receive (Frame.encode p.toBytes)
  [.make .start, call 0, call 0, loop, loop, loop, call 0,
    device (.bare .resetResponse), loop, loop, loop, call 0, call 0, loop, loop, loop, call 0,
    device (.ofKind .descriptorResponse
      [1, 0, 5, 1, 0, 97, 1, 1, 98, 0, 0, 0, 0, 7, 0, 2, 1, 99, 0, 0, 0, 7, 0, 1]), loop, loop, loop,
    call 0, call 0, call 0, call 0, call 0, call 0,
    .make (.operate (.invoke "b" "")), .make (.operate (.read "c")), .make (.operate (.invoke "b" "")),
    call 1, call 2, call 3, call 1, call 2, call 3]

theorem entries_distinct_bothAsked :
    let h := (ofSession {} (.scripted [] 0 0)).run bothAsked
    (∀ a ∈ bothAsked, a.viaSession) ∧
      h.link.table.entries = [⟨2, PacketKind.commandResponse.code, .named "b"⟩,
        ⟨3, PacketKind.propertyNotification.code, .named "c"⟩] ∧
      h.session.commandLock = { holder := some 1, line := [3] } ∧ h.Distinct := by
  intro h
  have hv : ∀ a ∈ bothAsked, a.viaSession := by decide
  exact ⟨hv, by decide +kernel, by decide +kernel, entries_distinct _ _ _ hv⟩

end Host
end TwinLink
