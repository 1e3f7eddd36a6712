import Mathlib.Tactic.SplitIfs
import TwinLink.Host.Run

/-!
# What the shared steps of the host change

Waking changes nothing but who will act. Up to that, each shared step updates a few fields, and its equation says which:

* `Link.enroll`, `Link.shut`, `Link.stopped`, `Link.vacate`, `Session.vacate`, `Session.ask` : the updates of link and
  session;
* `Host.wakeAll_eq`, `Host.setPhase_eq`, `Host.tellObservers_eq`, `Host.checkAttached_eq` : small changes;
* `Host.closeTable_eq`, `Host.stopLoop_eq` : the end of the table of waiters and of the receive loop;
* `Host.remove_eq`, `Host.finish_eq` : the end of a call.
-/

namespace TwinLink

/-! ## Channels -/

namespace Channel

variable {α : Type}

/-- Only a closed channel refuses an offer, and it stays as it is. -/
theorem offer_refused (c : Channel α) {a : Actor} {x : α} {c' : Channel α} (e : c.offer a x = (c', .refused)) :
    c.closed ∧ c' = c := by
  unfold offer at e
  split_ifs at e with hc <;> simp at e
  exact ⟨hc, e.symm⟩

/-- An element that is admitted is the last in the queue. -/
theorem offer_admitted (c : Channel α) {a : Actor} {x : α} {c' : Channel α} (e : c.offer a x = (c', .admitted)) :
    c'.queue = c.queue ++ [x] ∧ c.closed = false ∧ c'.closed = false := by
  unfold offer at e
  split_ifs at e with hc <;> simp at e <;> subst e <;> simpa using hc

/-- Who stands in line has not sent anything yet. -/
theorem offer_queued (c : Channel α) {a : Actor} {x : α} {c' : Channel α} (e : c.offer a x = (c', .queued)) :
    c'.queue = c.queue ∧ c'.closed = c.closed := by
  unfold offer at e
  split_ifs at e with hc <;> simp at e
  subst e
  exact ⟨rfl, rfl⟩

@[simp] theorem grant_queue (c : Channel α) : c.grant.1.queue = c.queue := by
  unfold grant
  split <;> rfl

@[simp] theorem grant_closed (c : Channel α) : c.grant.1.closed = c.closed := by
  unfold grant
  split <;> rfl

/-- The oldest element leaves the queue. -/
theorem take_eq_some {c c' : Channel α} {x : α} {woken : Option Actor} (e : c.take? = some (x, c', woken)) :
    c.queue = x :: c'.queue ∧ c'.closed = c.closed := by
  unfold take? at e
  split at e
  · cases e
  · rename_i y rest hq
    rcases hg : ({ c with queue := rest } : Channel α).grant with ⟨c₁, w⟩
    rw [hg] at e
    cases e
    obtain rfl : _ = c' := congrArg Prod.fst hg
    simp [hq]

@[simp] theorem withdraw_queue (c : Channel α) (a : Actor) : (c.withdraw a).1.queue = c.queue := by
  unfold withdraw
  split <;> simp

@[simp] theorem withdraw_closed (c : Channel α) (a : Actor) : (c.withdraw a).1.closed = c.closed := by
  unfold withdraw
  split <;> simp

end Channel

/-! ## The table of waiters -/

/-- Withdrawing again changes nothing. -/
theorem WaitTable.cancel_cancel (t : WaitTable) (id : Nat) : (t.cancel id).cancel id = t.cancel id := by
  simp [cancel, List.filter_filter]

theorem WaitTable.takeMatch_sublist {t t' : WaitTable} {p : Packet} {w : Waiter} (e : t.takeMatch? p = some (w, t')) :
    w ∈ t.entries ∧ t'.entries.Sublist t.entries := by
  unfold takeMatch? at e
  split at e
  · cases e
  · rename_i v hf
    obtain ⟨rfl, rfl⟩ : v = w ∧ _ = t' := by simpa using e
    exact ⟨List.mem_of_find?_eq_some hf, List.eraseP_sublist⟩

/-! ## Updates -/

namespace Link

/-- The link with one more registration, which gets the next number. -/
def enroll (l : Link) (type : UInt8) (matcher : Matcher) : Link :=
  { l with table := { l.table with
    entries := l.table.entries ++ [⟨l.table.nextId, type, matcher⟩]
    nextId := l.table.nextId + 1 } }

/-- The link with its table closed, and those in it told. -/
def shut (l : Link) (reason : String) : Link :=
  { l with
    table := (l.table.close reason).1
    deliveries := l.deliveries ++ l.table.entries.map fun w => (w.id, .error (.closed reason)) }

/-- The link after the end of its loop, `refused` being the answers to the commands left in the queue. -/
def stopped (l : Link) (reason : String) (refused : List (Nat × Except LinkError Unit)) : Link :=
  { l.shut reason with
    metrics := { l.metrics with lastError := some reason }
    commands := l.commands.discard.1
    receipts := l.receipts ++ refused
    loop := .parting reason }

/-- The link without what a call holds of it. -/
def vacate (l : Link) (c : Call) : Link :=
  c.point.ticket?.elim ({ l with commands := (l.commands.withdraw (.call c.id)).1 }.dropReceipt c.id) fun ticket =>
    ({ l with commands := (l.commands.withdraw (.call c.id)).1 }.dropReceipt c.id).withdraw ticket.id

end Link

/-- The session without what a call holds of it. -/
def Session.vacate (s : Session) (c : Call) : Session :=
  c.point.plan?.elim s fun plan => s.setLock plan.kind ((s.lock plan.kind).release c.id).1

namespace Session

@[simp] theorem setLock_config (s : Session) (kind : OperationKind) (l : Lock) :
    (s.setLock kind l).config = s.config := by
  cases kind <;> rfl

@[simp] theorem setLock_phase (s : Session) (kind : OperationKind) (l : Lock) :
    (s.setLock kind l).phase = s.phase := by
  cases kind <;> rfl

@[simp] theorem setLock_portTaken (s : Session) (kind : OperationKind) (l : Lock) :
    (s.setLock kind l).portTaken = s.portTaken := by
  cases kind <;> rfl

@[simp] theorem setLock_dispatch (s : Session) (kind : OperationKind) (l : Lock) :
    (s.setLock kind l).dispatch = s.dispatch := by
  cases kind <;> rfl

@[simp] theorem vacate_phase (s : Session) (c : Call) : (s.vacate c).phase = s.phase := by
  unfold vacate
  cases c.point.plan? <;> simp

@[simp] theorem vacate_portTaken (s : Session) (c : Call) : (s.vacate c).portTaken = s.portTaken := by
  unfold vacate
  cases c.point.plan? <;> simp

@[simp] theorem vacate_dispatch (s : Session) (c : Call) : (s.vacate c).dispatch = s.dispatch := by
  unfold vacate
  cases c.point.plan? <;> simp

end Session

/-- The session after a call to the twin. -/
def Session.ask (s : Session) (call : TwinCall) : Session :=
  { s with asked := (call, s.twin s.asked call) :: s.asked }

/-- The answer to a call to the twin, as the one who asked waits for it. -/
def Host.answerTo (h : Host) (call : TwinCall) : Pending :=
  ⟨⟨h.now + (h.session.twin h.session.asked call).delay, h.serial⟩, (h.session.twin h.session.asked call).refusal⟩

/-- What is logged when a phase follows another. -/
def phaseChange (before after : Phase) : List Happening :=
  if before = after then [] else [.logged (.phaseChanged before after)]

namespace Host

variable {h h' : Host}

/-! ## Small changes -/

theorem wake_eq {a : Actor} (e : h.wake a = h') : ∃ ready, h' = { h with ready := ready } := by
  rw [← e]
  unfold wake
  split
  · exact ⟨h.ready, rfl⟩
  · exact ⟨_, rfl⟩

theorem wakeAll_eq {as : List Actor} (e : h.wakeAll as = h') : ∃ ready, h' = { h with ready := ready } := by
  induction as generalizing h with
  | nil => exact ⟨h.ready, e.symm⟩
  | cons a as ih =>
    obtain ⟨r, hr⟩ := wake_eq (h := h) (a := a) rfl
    obtain ⟨r', rfl⟩ := ih (h := h.wake a) e
    exact ⟨r', by rw [hr]⟩

theorem wakeCalls_eq {ids : List Nat} (e : h.wakeCalls ids = h') : ∃ ready, h' = { h with ready := ready } :=
  wakeAll_eq e

theorem wake?_eq {a : Option Actor} (e : h.wake? a = h') : ∃ ready, h' = { h with ready := ready } := by
  cases a with
  | none => exact ⟨h.ready, e.symm⟩
  | some a => exact wake_eq e

theorem setPhase_eq (h : Host) (a : Actor) (p : Phase) :
    h.setPhase a p = { h with
      session := { h.session with phase := p }
      history := (phaseChange h.session.phase p).map (⟨a, h.now, ·⟩) ++ h.history } := by
  unfold setPhase phaseChange
  dsimp only
  split <;> rfl

theorem tellObservers_eq (h : Host) (a : Actor) (what : Nat → Happening) :
    h.tellObservers a what = { h with
      history := ((List.range h.session.observers).reverse.map fun n => ⟨a, h.now, what n⟩) ++ h.history } := by
  have hfold : ∀ (ns : List Nat) (h : Host), ns.foldl (fun h n => h.note a (what n)) h =
      { h with history := (ns.reverse.map fun n => ⟨a, h.now, what n⟩) ++ h.history } := by
    intro ns
    induction ns with
    | nil => intro h; rfl
    | cons n ns ih =>
      intro h
      rw [List.foldl_cons, ih]
      simp [note]
  exact hfold _ h

/-- Nothing but the host end of a byte stream that no loop runs on is given up. -/
theorem checkAttached_eq (e : h.checkAttached = h') : ∃ released ready,
    h' = { h with wire := { h.wire with released := released }, ready := ready } ∧
      (released = h.wire.released ∨ released = true ∧ h.link.loop = .absent) := by
  unfold checkAttached at e
  split at e
  · exact ⟨h.wire.released, h.ready, e.symm, .inl rfl⟩
  · split at e
    · exact ⟨true, h.ready, e.symm, .inr ⟨rfl, ‹_›⟩⟩
    · obtain ⟨r, rfl⟩ := wake_eq e
      exact ⟨h.wire.released, r, rfl, .inl rfl⟩

/-! ## Registrations -/

theorem deliver_eq {ticket : Nat} {result : Except LinkError Packet} (e : h.deliver ticket result = h') :
    ∃ ready, h' = { h with
      link := { h.link with deliveries := h.link.deliveries ++ [(ticket, result)] }, ready := ready } :=
  wakeCalls_eq e

theorem closeTable_eq {reason : String} (e : h.closeTable reason = h') :
    ∃ ready, h' = { h with link := h.link.shut reason, ready := ready } := by
  have hfold : ∀ (ws : List Waiter) (h h' : Host),
      ws.foldl (fun h w => h.deliver w.id (.error (.closed reason))) h = h' → ∃ ready, h' = { h with
        link := { h.link with
          deliveries := h.link.deliveries ++ ws.map fun w => (w.id, .error (.closed reason)) }
        ready := ready } := by
    intro ws
    induction ws with
    | nil => intro h h' e; exact ⟨h.ready, by simp [← e]⟩
    | cons w ws ih =>
      intro h h' e
      rw [List.foldl_cons] at e
      generalize hd : h.deliver w.id _ = h₁ at e
      obtain ⟨r, rfl⟩ := deliver_eq hd
      obtain ⟨r', rfl⟩ := ih _ _ e
      exact ⟨r', by simp⟩
  exact hfold _ _ _ e

theorem register_eq (h : Host) (type : UInt8) (matcher : Matcher) :
    h.register type matcher = match h.link.table.closed with
      | some reason => .error (.closed reason)
      | none => .ok ({ h with link := h.link.enroll type matcher }, ⟨h.link.table.nextId, type⟩) := by
  cases hc : h.link.table.closed with
  | none => simp [register, WaitTable.register, Except.map, Link.enroll, hc]
  | some reason => simp [register, WaitTable.register, Except.map, hc]

/-! ## The end of the loop -/

/-- The report to the writer of a frame, if it is among the calls and still waits. -/
def receiptFor (calls : List Call) (caller : Nat) (result : Except LinkError Unit) :
    List (Nat × Except LinkError Unit) :=
  match calls.find? (·.id == caller) with
  | some ⟨_, .writing .., _⟩ => [(caller, result)]
  | _ => []

/-- The answers to the commands left in a queue. -/
def refusals (calls : List Call) (reason : String) : List LinkCommand → List (Nat × Except LinkError Unit)
  | [] => []
  | .write caller _ :: rest => receiptFor calls caller (.error (.closed reason)) ++ refusals calls reason rest
  | .shutdown :: rest => refusals calls reason rest

theorem report_eq {caller : Nat} {result : Except LinkError Unit} (e : h.report caller result = h') :
    ∃ ready, h' = { h with
      link := { h.link with receipts := h.link.receipts ++ receiptFor h.calls caller result }, ready := ready } := by
  unfold report call? at e
  unfold receiptFor
  cases hf : h.calls.find? (·.id == caller) with
  | none =>
    rw [hf] at e
    exact ⟨h.ready, by rw [← e, List.append_nil]⟩
  | some c =>
    obtain ⟨id, point, holds⟩ := c
    rw [hf] at e
    cases point with
    | writing ticket limit purpose => exact wake_eq e
    | _ => exact ⟨h.ready, by rw [← e, List.append_nil]⟩

theorem refuseCommands_eq {reason : String} {q : List LinkCommand} (e : h.refuseCommands reason q = h') :
    ∃ ready, h' = { h with
      link := { h.link with receipts := h.link.receipts ++ refusals h.calls reason q }, ready := ready } := by
  induction q generalizing h with
  | nil => exact ⟨h.ready, by simp [← e, refuseCommands, refusals]⟩
  | cons x q ih =>
    cases x with
    | shutdown => exact ih e
    | write caller frame =>
      rw [refuseCommands] at e
      generalize hr : h.report caller _ = h₁ at e
      obtain ⟨r, rfl⟩ := report_eq hr
      obtain ⟨r', rfl⟩ := ih e
      exact ⟨r', by simp [refusals]⟩

theorem stopLoop_eq {reason : String} (e : h.stopLoop reason = h') : ∃ ready, h' = { h with
    link := h.link.stopped reason (refusals h.calls reason h.link.commands.queue)
    history := ⟨.loop, h.now, .logged (.loopEnded reason)⟩ :: h.history
    ready := ready } := by
  unfold stopLoop at e
  generalize hc : closeTable _ _ = h₁ at e
  obtain ⟨r, rfl⟩ := closeTable_eq hc
  dsimp only [updateMetrics] at e
  generalize hw : wakeAll _ _ = h₂ at e
  obtain ⟨r', rfl⟩ := wakeAll_eq hw
  generalize hq : refuseCommands _ _ _ = h₃ at e
  obtain ⟨r'', rfl⟩ := refuseCommands_eq hq
  exact ⟨r'', e.symm⟩

/-! ## The end of a call -/

theorem withdrawCommand_eq {id : Nat} (e : h.withdrawCommand id = h') : ∃ ready, h' = { h with
    link := { h.link with commands := (h.link.commands.withdraw (.call id)).1 }, ready := ready } :=
  wake?_eq e

theorem releaseLock_eq {id : Nat} {kind : OperationKind} (e : h.releaseLock id kind = h') :
    ∃ ready, h' = { h with
      session := h.session.setLock kind ((h.session.lock kind).release id).1, ready := ready } :=
  wake?_eq e

theorem vacate_eq {c : Call} (e : h.vacate c = h') : ∃ ready, h' = { h with
    link := h.link.vacate c, session := h.session.vacate c, ready := ready } := by
  unfold vacate at e
  unfold Link.vacate Session.vacate
  generalize hw : h.withdrawCommand c.id = h₁ at e
  obtain ⟨r, rfl⟩ := withdrawCommand_eq hw
  cases ht : c.point.ticket? <;> cases hp : c.point.plan? <;> rw [ht, hp] at e
  · exact ⟨r, e.symm⟩
  · exact releaseLock_eq e
  · exact ⟨r, e.symm⟩
  · exact releaseLock_eq e

theorem remove_eq {c : Call} (e : h.remove c = h') : ∃ released ready, h' = { h with
      wire := { h.wire with released := released }
      link := h.link.vacate c
      session := h.session.vacate c
      calls := h.calls.filter fun x => x.id != c.id
      ready := ready } ∧ (released = h.wire.released ∨ released = true ∧ h.link.loop = .absent) := by
  have hloop : (h.link.vacate c).loop = h.link.loop := by
    unfold Link.vacate
    cases c.point.ticket? <;> rfl
  unfold remove at e
  generalize hv : h.vacate c = h₁ at e
  obtain ⟨r, rfl⟩ := vacate_eq hv
  obtain ⟨released, r', rfl, hrel⟩ := checkAttached_eq e
  rw [hloop] at hrel
  exact ⟨released, r', rfl, hrel⟩

theorem finish_eq {c : Call} {answer : Answer} (e : h.finish c answer = h') : ∃ released ready, h' = { h with
      wire := { h.wire with released := released }
      link := h.link.vacate c
      session := h.session.vacate c
      calls := h.calls.filter fun x => x.id != c.id
      history := ⟨.call c.id, h.now, .answered answer⟩ :: h.history
      ready := ready } ∧ (released = h.wire.released ∨ released = true ∧ h.link.loop = .absent) :=
  remove_eq e

end Host
end TwinLink
