import TwinLink.Proofs.Host.Runs

/-!
# One thread that gives everyone turns

`Host.settle` is what one thread does: whoever has been woken acts, in the order in which they were woken, each until it
has to wait. `Host.elapse` lets time pass besides. Both are runs: whom they let act is chosen by who is ready, but what an
actor then does is not.

* `Alike` : hosts that differ at most in who is ready to act; `Alike.step`, `Alike.apply`, `Alike.run` : the same happens
  to both;
* `Host.settle_run`, `Host.elapse_run` : turns on one thread are a run;
* `Host.Reaches` : what a run comes to, but for who is ready.
-/

namespace TwinLink

/-- What happens when nobody interferes: an actor acts, or time passes. -/
def Action.ofItself : Action → Bool
  | advance .. => true
  | pass _ => true
  | _ => false

namespace Host

variable {h h' g : Host}

/-- The two hosts differ at most in who is ready to act. -/
def Alike (h h' : Host) : Prop := ∃ ready, h' = { h with ready := ready }

namespace Alike

theorem refl (h : Host) : h.Alike h := ⟨h.ready, rfl⟩

theorem symm (e : h.Alike h') : h'.Alike h := by
  obtain ⟨r, rfl⟩ := e
  exact ⟨h.ready, rfl⟩

theorem trans (e : h.Alike h') (e' : h'.Alike g) : h.Alike g := by
  obtain ⟨r, rfl⟩ := e
  obtain ⟨r', rfl⟩ := e'
  exact ⟨r', rfl⟩

/-! ### Choices -/

theorem ite {p : Prop} [Decidable p] {x x' y y' : Host} (hx : x.Alike x') (hy : y.Alike y') :
    (if p then x else y).Alike (if p then x' else y') := by
  split
  · exact hx
  · exact hy

theorem orElse {x x' y y' : Option Host} (hx : Option.Rel Alike x x') (hy : Option.Rel Alike y y') :
    Option.Rel Alike (x <|> y) (x' <|> y') := by
  cases hx with
  | some e => exact .some e
  | none => exact hy

theorem getD {x x' : Option Host} (hx : Option.Rel Alike x x') (e : h.Alike h') : (x.getD h).Alike (x'.getD h') := by
  cases hx with
  | some e' => exact e'
  | none => exact e

theorem map {x x' : Option Host} (hx : Option.Rel Alike x x') (f : Host → Host)
    (hf : ∀ h h', h.Alike h' → (f h).Alike (f h')) : Option.Rel Alike (x.map f) (x'.map f) := by
  cases hx with
  | some e => exact .some (hf _ _ e)
  | none => exact .none

/-! ### Small changes -/

/-- Hosts stay alike if all that happens to them, but for who is woken, is `g`. -/
theorem of_eq (e : h.Alike h') (f g : Host → Host) (hf : ∀ h, (g h).Alike (f h))
    (hg : ∀ h r, (g h).Alike (g { h with ready := r })) : (f h).Alike (f h') := by
  obtain ⟨r, rfl⟩ := e
  exact ((hf h).symm.trans (hg h r)).trans (hf _)

theorem wakeAll (e : h.Alike h') (as : List Actor) : (h.wakeAll as).Alike (h'.wakeAll as) :=
  e.of_eq (Host.wakeAll · as) id (fun _ => wakeAll_eq rfl) fun _ r => ⟨r, rfl⟩

theorem wake (e : h.Alike h') (a : Actor) : (h.wake a).Alike (h'.wake a) := e.wakeAll [a]

theorem wake? (e : h.Alike h') (a : Option Actor) : (h.wake? a).Alike (h'.wake? a) :=
  e.of_eq (Host.wake? · a) id (fun _ => wake?_eq rfl) fun _ r => ⟨r, rfl⟩

theorem setLoop (e : h.Alike h') (p : LoopPoint) : (h.setLoop p).Alike (h'.setLoop p) := by
  obtain ⟨r, rfl⟩ := e
  exact ⟨r, rfl⟩

theorem setPoint (e : h.Alike h') (id : Nat) (p : Point) : (h.setPoint id p).Alike (h'.setPoint id p) := by
  obtain ⟨r, rfl⟩ := e
  exact ⟨r, rfl⟩

theorem setPhase (e : h.Alike h') (a : Actor) (p : Phase) : (h.setPhase a p).Alike (h'.setPhase a p) := by
  obtain ⟨r, rfl⟩ := e
  rw [setPhase_eq, setPhase_eq]
  exact ⟨r, rfl⟩

theorem updateMetrics (e : h.Alike h') (f : Metrics → Metrics) : (h.updateMetrics f).Alike (h'.updateMetrics f) := by
  obtain ⟨r, rfl⟩ := e
  exact ⟨r, rfl⟩

theorem checkAttached (e : h.Alike h') : h.checkAttached.Alike h'.checkAttached := by
  obtain ⟨r, rfl⟩ := e
  refine ite (p := h.attached) ⟨r, rfl⟩ ?_
  dsimp only
  cases h.link.loop with
  | absent => exact ⟨r, rfl⟩
  | _ => exact wake ⟨r, rfl⟩ _

theorem deliver (e : h.Alike h') (ticket : Nat) (result : Except LinkError Packet) :
    (h.deliver ticket result).Alike (h'.deliver ticket result) := by
  obtain ⟨r, rfl⟩ := e
  exact wakeAll ⟨r, rfl⟩ _

theorem closeTable (e : h.Alike h') (reason : String) : (h.closeTable reason).Alike (h'.closeTable reason) :=
  e.of_eq (Host.closeTable · reason) (fun h => { h with link := h.link.shut reason }) (fun _ => closeTable_eq rfl)
    fun _ r => ⟨r, rfl⟩

theorem report (e : h.Alike h') (caller : Nat) (result : Except LinkError Unit) :
    (h.report caller result).Alike (h'.report caller result) :=
  e.of_eq (Host.report · caller result) (fun h => { h with link := { h.link with
    receipts := h.link.receipts ++ receiptFor h.calls caller result } }) (fun _ => report_eq rfl) fun _ r => ⟨r, rfl⟩

/-! ### The receive loop -/

theorem stopLoop (e : h.Alike h') (reason : String) : (h.stopLoop reason).Alike (h'.stopLoop reason) :=
  e.of_eq (Host.stopLoop · reason) (fun h => { h with
    link := h.link.stopped reason (refusals h.calls reason h.link.commands.queue)
    history := ⟨.loop, h.now, .logged (.loopEnded reason)⟩ :: h.history }) (fun _ => stopLoop_eq rfl) fun _ r => ⟨r, rfl⟩

theorem handOver (e : h.Alike h') (waiter : Waiter) (p : Packet) :
    Option.Rel Alike (h.handOver waiter p) (h'.handOver waiter p) := by
  obtain ⟨r, rfl⟩ := e
  unfold Host.handOver live
  dsimp only
  split
  · exact .some (updateMetrics (deliver ⟨r, rfl⟩ _ _) _)
  · exact .none

theorem passOn (e : h.Alike h') (p : Packet) (rest : List Bytes) (fault : Option FrameError) :
    (h.passOn p rest fault).Alike (h'.passOn p rest fault) := by
  obtain ⟨r, rfl⟩ := e
  exact ite ⟨r, rfl⟩ ⟨r, rfl⟩

theorem sortFrame (e : h.Alike h') (frame : Bytes) (rest : List Bytes) (fault : Option FrameError) :
    (h.sortFrame frame rest fault).Alike (h'.sortFrame frame rest fault) := by
  obtain ⟨r, rfl⟩ := e
  unfold Host.sortFrame lookUp Host.setLoop
  dsimp only
  cases Packet.ofFrame frame with
  | error x => exact ⟨r, rfl⟩
  | ok p =>
    dsimp only [Host.updateMetrics]
    cases h.link.table.takeMatch? p with
    | none => exact passOn ⟨r, rfl⟩ _ _ _
    | some x => exact getD (handOver ⟨r, rfl⟩ _ _) (passOn ⟨r, rfl⟩ _ _ _)

theorem readInput (e : h.Alike h') : Option.Rel Alike h.readInput h'.readInput := by
  obtain ⟨r, rfl⟩ := e
  unfold Host.readInput
  dsimp only
  split
  · exact .some (stopLoop ⟨r, rfl⟩ _)
  · split
    · split
      · exact .some (stopLoop ⟨r, rfl⟩ _)
      · exact .none
    · exact .some ⟨r, rfl⟩

theorem writeFrame (e : h.Alike h') (caller : Nat) (rest : Bytes) :
    Option.Rel Alike (h.writeFrame caller rest) (h'.writeFrame caller rest) := by
  obtain ⟨r, rfl⟩ := e
  unfold Host.writeFrame
  dsimp only
  split
  · exact .some (stopLoop (report ⟨r, rfl⟩ _ _) _)
  · split
    · exact .some (setLoop (report ⟨r, rfl⟩ _ _) _)
    · split
      · exact .none
      · exact .some ⟨r, rfl⟩

theorem obeyCommand (e : h.Alike h') : Option.Rel Alike h.obeyCommand h'.obeyCommand := by
  obtain ⟨r, rfl⟩ := e
  unfold Host.obeyCommand attached
  dsimp only
  split
  · split
    · exact .some (setLoop (wake? ⟨r, rfl⟩ _) _)
    · exact .some (stopLoop (wake? ⟨r, rfl⟩ _) _)
  · split
    · exact .none
    · exact .some (stopLoop ⟨r, rfl⟩ _)

theorem offerEvent (e : h.Alike h') (event : LinkEvent) (next : LoopPoint) :
    Option.Rel Alike (h.offerEvent event next) (h'.offerEvent event next) := by
  obtain ⟨r, rfl⟩ := e
  unfold Host.offerEvent
  dsimp only
  split
  · exact .some (wake ⟨r, rfl⟩ _)
  · exact .some ⟨r, rfl⟩
  · exact .some ⟨r, rfl⟩
  · exact .none

theorem loopStep (e : h.Alike h') (inputFirst : Bool) :
    Option.Rel Alike (h.loopStep inputFirst) (h'.loopStep inputFirst) := by
  have hread := e.readInput
  have hobey := e.obeyCommand
  obtain ⟨r, rfl⟩ := e
  unfold Host.loopStep
  dsimp only
  split
  · exact .none
  · cases inputFirst
    · exact orElse hobey hread
    · exact orElse hread hobey
  · exact .some ⟨r, rfl⟩
  · exact .some (stopLoop ⟨r, rfl⟩ _)
  · exact .some (sortFrame ⟨r, rfl⟩ _ _ _)
  · exact writeFrame ⟨r, rfl⟩ _ _
  · exact offerEvent ⟨r, rfl⟩ _ _
  · refine map (offerEvent ⟨r, rfl⟩ _ _) _ fun h h' e => ?_
    obtain ⟨r, rfl⟩ := e
    dsimp only
    cases h.link.loop <;> exact ⟨r, rfl⟩
  · exact .none

/-! ### The dispatcher -/

theorem endDispatch (e : h.Alike h') : h.endDispatch.Alike h'.endDispatch := by
  obtain ⟨r, rfl⟩ := e
  exact wakeAll ⟨r, rfl⟩ _

theorem dispatchPacket (e : h.Alike h') (p : Packet) : (h.dispatchPacket p).Alike (h'.dispatchPacket p) := by
  obtain ⟨r, rfl⟩ := e
  unfold Host.dispatchPacket
  dsimp only
  split
  · split
    · exact ⟨r, rfl⟩
    · split
      · exact ⟨r, rfl⟩
      · rw [tellObservers_eq, tellObservers_eq]
        exact ⟨r, rfl⟩
  · exact ⟨r, rfl⟩

theorem dispatchEnd (e : h.Alike h') (reason : String) : (h.dispatchEnd reason).Alike (h'.dispatchEnd reason) := by
  obtain ⟨r, rfl⟩ := e
  exact endDispatch (ite ⟨r, rfl⟩ (setPhase ⟨r, rfl⟩ _ _))

theorem dispatchStep (e : h.Alike h') : Option.Rel Alike h.dispatchStep h'.dispatchStep := by
  obtain ⟨r, rfl⟩ := e
  unfold Host.dispatchStep
  dsimp only
  split
  · exact .none
  · exact .none
  · split
    · exact .none
    · rename_i event events woken _
      -- whoever gets the place of the event is woken first
      obtain ⟨r', hr⟩ := wake? (h := { h with link := { h.link with events := events } }) ⟨r, rfl⟩ woken
      rw [hr]
      generalize Host.wake? _ _ = h₁
      unfold attached
      dsimp only
      split
      · cases event with
        | packet p => exact .some (dispatchPacket ⟨r', rfl⟩ _)
        | closed reason => exact .some (dispatchEnd ⟨r', rfl⟩ _)
      · exact .some (endDispatch ⟨r', rfl⟩)
  · rename_i call pending _
    split
    · cases pending.refusal <;> exact .some (checkAttached ⟨r, rfl⟩)
    · exact .none

/-! ### Calls -/

theorem vacate (e : h.Alike h') (c : Call) : (h.vacate c).Alike (h'.vacate c) :=
  e.of_eq (Host.vacate · c) (fun h => { h with link := h.link.vacate c, session := h.session.vacate c })
    (fun _ => vacate_eq rfl) fun _ r => ⟨r, rfl⟩

theorem remove (e : h.Alike h') (c : Call) : (h.remove c).Alike (h'.remove c) := by
  obtain ⟨r, hr⟩ := e.vacate c
  unfold Host.remove
  rw [hr]
  exact checkAttached ⟨r, rfl⟩

theorem finish (e : h.Alike h') (c : Call) (answer : Answer) : (h.finish c answer).Alike (h'.finish c answer) := by
  obtain ⟨r, rfl⟩ := e
  exact remove ⟨r, rfl⟩ c

theorem beginWait (e : h.Alike h') (c : Call) (ticket : Ticket) (limit : Option Nat) (purpose : Purpose) :
    (h.beginWait c ticket limit purpose).Alike (h'.beginWait c ticket limit purpose) := by
  obtain ⟨r, rfl⟩ := e
  cases limit <;> exact ⟨r, rfl⟩

theorem beginShutdown (e : h.Alike h') (c : Call) (answer : Answer) :
    (h.beginShutdown c answer).Alike (h'.beginShutdown c answer) := (e.closeTable _).setPoint _ _

theorem failHandshake (e : h.Alike h') (c : Call) (x : SessionError) :
    (h.failHandshake c x).Alike (h'.failHandshake c x) := by
  obtain ⟨r, rfl⟩ := e
  exact beginShutdown (setPhase ⟨r, rfl⟩ _ _) _ _

theorem attempt (e : h.Alike h') (c : Call) (stage : Stage) (retries : Nat) :
    (h.attempt c stage retries).Alike (h'.attempt c stage retries) := by
  obtain ⟨r, rfl⟩ := e
  unfold Host.attempt
  rw [register_eq, register_eq]
  dsimp only
  cases h.link.table.closed with
  | none => exact ⟨r, rfl⟩
  | some reason => exact failHandshake ⟨r, rfl⟩ _ _

theorem beginStart (e : h.Alike h') (c : Call) : (h.beginStart c).Alike (h'.beginStart c) := by
  obtain ⟨r, rfl⟩ := e
  refine ite (finish ⟨r, rfl⟩ _ _) (ite (finish ⟨r, rfl⟩ _ _) ?_)
  exact attempt (setPhase (wake (wake (setLoop ⟨r, rfl⟩ _) _) _) _ _) _ _ _

theorem beginRegistration (e : h.Alike h') (c : Call) (p : Packet) :
    (h.beginRegistration c p).Alike (h'.beginRegistration c p) := by
  obtain ⟨r, rfl⟩ := e
  unfold Host.beginRegistration
  dsimp only
  cases Descriptor.parse h.session.config.revision p.payload with
  | error x => exact failHandshake ⟨r, rfl⟩ _ _
  | ok d =>
    dsimp only
    rw [setPhase_eq, setPhase_eq]
    exact ⟨r, rfl⟩

theorem completeStart (e : h.Alike h') (c : Call) (d : Descriptor) :
    (h.completeStart c d).Alike (h'.completeStart c d) := by
  obtain ⟨r, rfl⟩ := e
  unfold Host.completeStart becomeOperational
  dsimp only
  rw [tellObservers_eq, tellObservers_eq, setPhase_eq, setPhase_eq]
  exact finish ⟨r, rfl⟩ _ _

theorem beginOperation (e : h.Alike h') (c : Call) (op : Operation) :
    (h.beginOperation c op).Alike (h'.beginOperation c op) := by
  obtain ⟨r, rfl⟩ := e
  unfold Host.beginOperation planOperation
  dsimp only
  split
  · exact finish ⟨r, rfl⟩ _ _
  · exact ⟨r, rfl⟩

theorem readReply (e : h.Alike h') (c : Call) (plan : Plan) (p : Packet) :
    (h.readReply c plan p).Alike (h'.readReply c plan p) := by
  obtain ⟨r, rfl⟩ := e
  unfold Host.readReply
  cases plan.read p with
  | error x => exact finish ⟨r, rfl⟩ _ _
  | ok value =>
    dsimp only
    cases plan.kind with
    | write => exact ⟨r, rfl⟩
    | _ => exact finish ⟨r, rfl⟩ _ _

theorem failExchange (e : h.Alike h') (c : Call) (purpose : Purpose) (x : LinkError) :
    (h.failExchange c purpose x).Alike (h'.failExchange c purpose x) := by
  obtain ⟨r, rfl⟩ := e
  cases purpose with
  | direct | operation => exact finish ⟨r, rfl⟩ _ _
  | handshake stage retries => exact ite ⟨r, rfl⟩ (failHandshake ⟨r, rfl⟩ _ _)

theorem concludeExchange (e : h.Alike h') (c : Call) (purpose : Purpose) (p : Packet) :
    (h.concludeExchange c purpose p).Alike (h'.concludeExchange c purpose p) := by
  cases purpose with
  | direct => exact e.finish _ _
  | operation plan => exact e.readReply _ _ _
  | handshake stage retries =>
    obtain ⟨r, rfl⟩ := e
    cases stage with
    | reset => exact attempt (setPhase ⟨r, rfl⟩ _ _) _ _ _
    | describe => exact beginRegistration ⟨r, rfl⟩ _ _

theorem pickUp (e : h.Alike h') (c : Call) (ticket : Ticket) (purpose : Purpose) (delivery : Except LinkError Packet) :
    (h.pickUp c ticket purpose delivery).Alike (h'.pickUp c ticket purpose delivery) := by
  obtain ⟨r, rfl⟩ := e
  cases delivery with
  | ok p => exact concludeExchange ⟨r, rfl⟩ _ _ _
  | error x => exact failExchange ⟨r, rfl⟩ _ _ _

theorem beginCall (e : h.Alike h') (c : Call) (request : Request) :
    (h.beginCall c request).Alike (h'.beginCall c request) := by
  obtain ⟨r, rfl⟩ := e
  cases request with
  | send p => exact ⟨r, rfl⟩
  | exchange p expect limit =>
    dsimp only [Host.beginCall]
    rw [register_eq, register_eq]
    dsimp only
    cases h.link.table.closed with
    | none => exact ⟨r, rfl⟩
    | some reason => exact finish ⟨r, rfl⟩ _ _
  | receive type limit =>
    dsimp only [Host.beginCall]
    rw [register_eq, register_eq]
    dsimp only
    cases h.link.table.closed with
    | none => exact beginWait ⟨r, rfl⟩ _ _ _ _
    | some reason => exact finish ⟨r, rfl⟩ _ _
  | await ticket limit => exact beginWait ⟨r, rfl⟩ _ _ _ _
  | shutDown => exact beginShutdown ⟨r, rfl⟩ _ _
  | start => exact beginStart ⟨r, rfl⟩ c
  | operate op => exact beginOperation ⟨r, rfl⟩ c op
  | twinOperate op => exact ite (beginOperation ⟨r, rfl⟩ _ op) (finish ⟨r, rfl⟩ _ _)
  | close =>
    dsimp only [Host.beginCall, releaseWire]
    rw [setPhase_eq, setPhase_eq]
    cases hp : h.session.portTaken
    all_goals
      simp only [hp, if_true, Bool.false_eq_true, if_false]
      cases h.link.loop with
      | absent => exact finish ⟨r, rfl⟩ _ _
      | _ => exact beginShutdown ⟨r, rfl⟩ _ _

theorem lockStep (e : h.Alike h') (c : Call) (plan : Plan) :
    Option.Rel Alike (h.lockStep c plan) (h'.lockStep c plan) := by
  obtain ⟨r, rfl⟩ := e
  unfold Host.lockStep
  dsimp only
  rw [register_eq, register_eq]
  dsimp only
  split
  · cases h.link.table.closed with
    | none => exact .some ⟨r, rfl⟩
    | some reason => exact .some (finish ⟨r, rfl⟩ _ _)
  · split
    · exact .some ⟨r, rfl⟩
    · exact .none

theorem enterStep (e : h.Alike h') (c : Call) (frame : Bytes) (ticket : Option Ticket) (limit : Option Nat)
    (purpose : Purpose) :
    Option.Rel Alike (h.enterStep c frame ticket limit purpose) (h'.enterStep c frame ticket limit purpose) := by
  obtain ⟨r, rfl⟩ := e
  unfold Host.enterStep
  dsimp only
  split
  · exact .some (wake ⟨r, rfl⟩ _)
  · cases ticket <;> exact .some (failExchange ⟨r, rfl⟩ _ _ _)
  · exact .some ⟨r, rfl⟩
  · exact .none

theorem writeStep (e : h.Alike h') (c : Call) (ticket : Option Ticket) (limit : Option Nat) (purpose : Purpose) :
    Option.Rel Alike (h.writeStep c ticket limit purpose) (h'.writeStep c ticket limit purpose) := by
  obtain ⟨r, rfl⟩ := e
  unfold Host.writeStep
  dsimp only
  split
  · exact .none
  · split
    · cases ticket <;> exact .some (failExchange ⟨r, rfl⟩ _ _ _)
    · split
      · exact .some (finish ⟨r, rfl⟩ _ _)
      · exact .some (beginWait ⟨r, rfl⟩ _ _ _ _)

theorem waitStep (e : h.Alike h') (c : Call) (ticket : Ticket) (limit : Option Nat) (alarm : Option Alarm)
    (purpose : Purpose) :
    Option.Rel Alike (h.waitStep c ticket limit alarm purpose) (h'.waitStep c ticket limit alarm purpose) := by
  obtain ⟨r, rfl⟩ := e
  unfold Host.waitStep
  dsimp only
  split
  · exact .some (pickUp ⟨r, rfl⟩ _ _ _ _)
  · split
    · exact .none
    · split
      · split
        · exact .some (pickUp ⟨r, rfl⟩ _ _ _ _)
        · exact .some (failExchange ⟨r, rfl⟩ _ _ _)
      · exact .none

theorem registerStep (e : h.Alike h') (c : Call) (d : Descriptor) (todo : List TwinCall) (pending : Option Pending) :
    Option.Rel Alike (h.registerStep c d todo pending) (h'.registerStep c d todo pending) := by
  obtain ⟨r, rfl⟩ := e
  unfold Host.registerStep
  dsimp only
  split
  · exact .some (completeStart ⟨r, rfl⟩ _ _)
  · exact .some ⟨r, rfl⟩
  · exact .some ⟨r, rfl⟩
  · split
    · split
      · exact .some (failHandshake ⟨r, rfl⟩ _ _)
      · exact .some ⟨r, rfl⟩
    · exact .none

theorem updateStep (e : h.Alike h') (c : Call) (plan : Plan) (value : String) (pending : Pending) :
    Option.Rel Alike (h.updateStep c plan value pending) (h'.updateStep c plan value pending) := by
  obtain ⟨r, rfl⟩ := e
  unfold Host.updateStep
  dsimp only
  split
  · cases pending.refusal <;> exact .some (finish ⟨r, rfl⟩ _ _)
  · exact .none

theorem shutStep (e : h.Alike h') (c : Call) (answer : Answer) :
    Option.Rel Alike (h.shutStep c answer) (h'.shutStep c answer) := by
  obtain ⟨r, rfl⟩ := e
  unfold Host.shutStep
  dsimp only
  split
  · exact .some (finish (wake ⟨r, rfl⟩ _) _ _)
  · exact .some (finish ⟨r, rfl⟩ _ _)
  · exact .some ⟨r, rfl⟩
  · exact .none

theorem pointStep (e : h.Alike h') (c : Call) : Option.Rel Alike (h.pointStep c) (h'.pointStep c) := by
  unfold Host.pointStep
  cases c.point with
  | begun request => exact .some (e.beginCall _ _)
  | inLine plan => exact e.lockStep _ _
  | entering frame ticket limit purpose => exact e.enterStep _ _ _ _ _
  | writing ticket limit purpose => exact e.writeStep _ _ _ _
  | awaiting ticket limit alarm purpose => exact e.waitStep _ _ _ _ _
  | pausing alarm stage retries =>
    obtain ⟨r, rfl⟩ := e
    dsimp only
    split
    · exact .some (attempt ⟨r, rfl⟩ _ _ _)
    · exact .none
  | registering d todo pending => exact e.registerStep _ _ _ _
  | updating plan value pending => exact e.updateStep _ _ _ _
  | shutting answer => exact e.shutStep _ _

/-! ### Any actor -/

/-- **Who is ready to act has no say in what an actor does.** -/
theorem step (e : h.Alike h') (a : Actor) (inputFirst : Bool) :
    Option.Rel Alike (h.step a inputFirst) (h'.step a inputFirst) := by
  cases a with
  | loop => exact e.loopStep _
  | dispatcher => exact e.dispatchStep
  | call id =>
    obtain ⟨r, rfl⟩ := e
    dsimp only [Host.step, callStep, call?]
    cases h.calls.find? (·.id == id) with
    | none => exact .none
    | some c => exact pointStep ⟨r, rfl⟩ c

theorem pass (e : h.Alike h') (ms : Nat) : (h.pass ms).Alike (h'.pass ms) := by
  obtain ⟨r, rfl⟩ := e
  exact wakeAll ⟨r, rfl⟩ _

theorem make (e : h.Alike h') (request : Request) : (h.make request).Alike (h'.make request) := by
  obtain ⟨r, rfl⟩ := e
  exact ite (p := h.canMake request) (wake ⟨r, rfl⟩ _) ⟨r, rfl⟩

theorem abandon (e : h.Alike h') (id : Nat) : (h.abandon id).Alike (h'.abandon id) := by
  obtain ⟨r, rfl⟩ := e
  dsimp only [Host.abandon, call?]
  cases h.calls.find? (·.id == id) with
  | none => exact ⟨r, rfl⟩
  | some c => exact remove ⟨r, rfl⟩ c

theorem takeEvent (e : h.Alike h') : ((h.takeEvent?.map (·.2)).getD h).Alike ((h'.takeEvent?.map (·.2)).getD h') := by
  obtain ⟨r, rfl⟩ := e
  unfold takeEvent?
  dsimp only
  split
  · cases h.link.events.take? with
    | none => exact ⟨r, rfl⟩
    | some x => exact wake? ⟨r, rfl⟩ _
  · exact ⟨r, rfl⟩

theorem dropListener (e : h.Alike h') : h.dropListener.Alike h'.dropListener := by
  obtain ⟨r, rfl⟩ := e
  exact wakeAll ⟨r, rfl⟩ _

/-- **Who is ready to act has no say in what an action does.** -/
theorem apply (e : h.Alike h') (a : Action) : (h.apply a).Alike (h'.apply a) := by
  cases a with
  | advance actor inputFirst => exact getD (e.step actor inputFirst) e
  | pass ms => exact e.pass ms
  | make request => exact e.make request
  | abandon id => exact e.abandon id
  | takeEvent => exact e.takeEvent
  | receive bytes =>
    obtain ⟨r, rfl⟩ := e
    exact ite (p := h.wire.hungUp || h.wire.released) ⟨r, rfl⟩ (wake ⟨r, rfl⟩ _)
  | hangUp | breakRead | allow =>
    obtain ⟨r, rfl⟩ := e
    exact wake ⟨r, rfl⟩ _
  | register type matcher =>
    obtain ⟨r, rfl⟩ := e
    dsimp only [Host.apply, keepTicket]
    rw [register_eq, register_eq]
    cases h.link.table.closed <;> exact ⟨r, rfl⟩
  | withdraw ticket =>
    obtain ⟨r, rfl⟩ := e
    exact ite (p := h.tickets.contains ticket) ⟨r, rfl⟩ ⟨r, rfl⟩
  | dropListener =>
    have hdrop := e.dropListener
    obtain ⟨r, rfl⟩ := e
    exact ite (p := h.session.dispatch = .absent) hdrop ⟨r, rfl⟩
  | dropHandle =>
    obtain ⟨r, rfl⟩ := e
    exact checkAttached ⟨r, rfl⟩
  | breakWrite | forward | observe =>
    obtain ⟨r, rfl⟩ := e
    exact ⟨r, rfl⟩

theorem run (e : h.Alike h') (as : List Action) : (h.run as).Alike (h'.run as) := by
  induction as generalizing h h' with
  | nil => exact e
  | cons a as ih => exact ih (e.apply a)

end Alike

/-! ## Turns -/

/-- **Turns on one thread are a run**, of steps by those who are ready, each of them with commands before input. -/
theorem settle_run (h : Host) (steps : Nat) :
    ∃ as, (∀ a ∈ as, ∃ actor, a = .advance actor false) ∧ (h.run as).Alike (h.settle steps) := by
  induction steps generalizing h with
  | zero => exact ⟨[], nofun, .refl h⟩
  | succ steps ih =>
    unfold settle
    cases h.ready with
    | nil => exact ⟨[], nofun, .refl h⟩
    | cons actor rest =>
      dsimp only
      cases hs : h.step actor false with
      | none =>
        obtain ⟨as, has, hrun⟩ := ih { h with ready := rest }
        exact ⟨as, has, (Alike.run ⟨rest, rfl⟩ as).trans hrun⟩
      | some h₁ =>
        obtain ⟨as, has, hrun⟩ := ih h₁
        have happly : h.apply (.advance actor false) = h₁ := by
          show (h.step actor false).getD h = h₁
          rw [hs]
          rfl
        refine ⟨.advance actor false :: as, by simpa using has, ?_⟩
        show ((h.apply (.advance actor false)).run as).Alike _
        rw [happly]
        exact hrun

/-- **So are turns while time passes.** -/
theorem elapse_run (h : Host) (patience limit rounds : Nat) :
    ∃ as, (∀ a ∈ as, a.ofItself) ∧ (h.run as).Alike (h.elapse patience limit rounds) := by
  -- time passes, and then everyone acts
  have hround : ∀ (h : Host) (ms : Nat), ∃ as, (∀ a ∈ as, a.ofItself) ∧
      (h.run as).Alike ((h.pass ms).settle patience) := fun h ms => by
    obtain ⟨as, has, hrun⟩ := (h.pass ms).settle_run patience
    refine ⟨.pass ms :: as, fun a ha => ?_, hrun⟩
    rcases List.mem_cons.mp ha with rfl | ha
    · rfl
    · obtain ⟨actor, rfl⟩ := has a ha
      rfl
  induction rounds generalizing h with
  | zero => exact ⟨[], nofun, .refl h⟩
  | succ rounds ih =>
    unfold elapse
    cases h.nextAlarm? limit with
    | none => exact hround h _
    | some due =>
      obtain ⟨as, has, hrun⟩ := hround h (due - h.now)
      obtain ⟨bs, hbs, hrest⟩ := ih ((h.pass (due - h.now)).settle patience)
      refine ⟨as ++ bs, fun a ha => (List.mem_append.mp ha).elim (has a) (hbs a), ?_⟩
      rw [run_append]
      exact (hrun.run bs).trans hrest

/-! ## What a run comes to -/

/-- A run from `h` comes to `g`, but for who is ready to act. -/
def Reaches (h g : Host) : Prop := ∃ as, (h.run as).Alike g

namespace Reaches

theorem refl (h : Host) : h.Reaches h := ⟨[], .refl h⟩

theorem trans (hr : h.Reaches h') (hg : h'.Reaches g) : h.Reaches g := by
  obtain ⟨as, e⟩ := hr
  obtain ⟨bs, e'⟩ := hg
  refine ⟨as ++ bs, ?_⟩
  rw [run_append]
  exact (e.run bs).trans e'

theorem apply (hr : h.Reaches g) (a : Action) : h.Reaches (g.apply a) := hr.trans ⟨[a], .refl _⟩

theorem settle (hr : h.Reaches g) (steps : Nat) : h.Reaches (g.settle steps) :=
  hr.trans ((g.settle_run steps).imp fun _ x => x.2)

theorem elapse (hr : h.Reaches g) (patience limit rounds : Nat) : h.Reaches (g.elapse patience limit rounds) :=
  hr.trans ((g.elapse_run patience limit rounds).imp fun _ x => x.2)

end Reaches

end Host
end TwinLink
