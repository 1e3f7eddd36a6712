import TwinLink.Link.Basic
import TwinLink.Session.Config
import TwinLink.Session.Lock
import TwinLink.Session.Operation
import TwinLink.Session.Remark

/-!
# The host

The host has one link, one session and any number of calls. Everything that can act, the receive loop, the dispatcher
and each call, stands at a point where it may have to wait; a step takes it to the next. They share one thread, so nobody
acts while a step is under way (see the module on runs).

* `Request`, `Answer` : what a call asks and how it ends;
* `Point`, `Call` : where a call stands;
* `DispatchPoint`, `Session` : where the dispatcher stands, and the session;
* `Note` : an entry of the history, with the actor that made it and the time;
* `Host` : all of it, with the clock, the history and the actors that have been woken.
-/

namespace TwinLink

/-! ## Calls -/

/-- A registration held by a call or by the application, and the type it is for. -/
structure Ticket where
  id : Nat
  type : UInt8
deriving DecidableEq, Repr

/-- The ticket of an entry of the table. -/
def Waiter.ticket (w : Waiter) : Ticket := ⟨w.id, w.type⟩

/-- What a call asks: of the link, or of the session. Times are in milliseconds, no time meaning no limit. -/
inductive Request
  | send (p : Packet)
  | exchange (p : Packet) (expect : UInt8) (limit : Option Nat)
  | receive (type : UInt8) (limit : Option Nat)
  | await (ticket : Ticket) (limit : Option Nat)
  | shutDown
  | start
  | operate (op : Operation)
  | twinOperate (op : Operation)
  | close
deriving DecidableEq, Repr

/-- Why a call failed: an error of the link, or of the session. -/
inductive Failure
  | link (e : LinkError)
  | session (e : SessionError)
deriving DecidableEq, Repr

/-- What a call that succeeded gives back. -/
inductive Reply
  | done
  | packet (p : Packet)
  | text (s : String)
  | device (d : Descriptor)
deriving DecidableEq, Repr

/-- How a call ends. -/
abbrev Answer := Except Failure Reply

/-- A moment to go on at. Of alarms for one moment the one set first rings first. -/
structure Alarm where
  due : Nat
  serial : Nat
deriving DecidableEq, Repr

/-- A call to the twin that has not come back: when it will, and with what refusal. -/
structure Pending where
  alarm : Alarm
  refusal : Option String
deriving DecidableEq, Repr

/-- The two requests of the handshake. -/
inductive Stage
  | reset
  | describe
deriving DecidableEq, Repr

def Stage.request : Stage → PacketKind
  | reset => .resetRequest
  | describe => .descriptorRequest

def Stage.response : Stage → PacketKind
  | reset => .resetResponse
  | describe => .descriptorResponse

/-- What an exchange with the device is for. -/
inductive Purpose
  | direct
  | handshake (stage : Stage) (retries : Nat)
  | operation (plan : Plan)
deriving DecidableEq, Repr

/-- Where a call stands.

* `begun` : it has not yet run;
* `inLine` : it waits for the lock of its operation;
* `entering` : it waits for a place in the command queue;
* `writing` : it waits for its frame to be written;
* `awaiting` : it waits for its packet;
* `pausing` : it waits before it repeats a request of the handshake;
* `registering` : it makes the device known to the twin, `todo` being the calls still to make;
* `updating` : it waits for the twin to take the value that was written;
* `shutting` : it waits for a place for the command that ends the receive loop. -/
inductive Point
  | begun (request : Request)
  | inLine (plan : Plan)
  | entering (frame : Bytes) (ticket : Option Ticket) (limit : Option Nat) (purpose : Purpose)
  | writing (ticket : Option Ticket) (limit : Option Nat) (purpose : Purpose)
  | awaiting (ticket : Ticket) (limit : Option Nat) (alarm : Option Alarm) (purpose : Purpose)
  | pausing (alarm : Alarm) (stage : Stage) (retries : Nat)
  | registering (d : Descriptor) (todo : List TwinCall) (pending : Option Pending)
  | updating (plan : Plan) (value : String) (pending : Pending)
  | shutting (answer : Answer)

/-- A call that has not ended. `holds` tells whether it keeps the application's handle alive. -/
structure Call where
  id : Nat
  point : Point
  holds : Bool

namespace Request

/-- Whether the call keeps the application's handle alive from the moment it is made. A call by the twin does so only
once it runs, and a registration is kept apart from the handle. -/
def holdsAtOnce : Request → Bool
  | await .. => false
  | twinOperate _ => false
  | _ => true

end Request

namespace Purpose

/-- The operation whose lock is held. -/
def plan? : Purpose → Option Plan
  | operation plan => some plan
  | _ => none

end Purpose

namespace Point

/-- The registration that a call at this point holds. -/
def ticket? : Point → Option Ticket
  | begun (.await ticket _) => some ticket
  | entering _ ticket _ _ => ticket
  | writing ticket _ _ => ticket
  | awaiting ticket _ _ _ => some ticket
  | _ => none

/-- The operation whose lock a call at this point holds or waits for. -/
def plan? : Point → Option Plan
  | inLine plan => some plan
  | entering _ _ _ purpose => purpose.plan?
  | writing _ _ purpose => purpose.plan?
  | awaiting _ _ _ purpose => purpose.plan?
  | updating plan _ _ => some plan
  | _ => none

/-- The alarm that a call at this point has set. -/
def alarm? : Point → Option Alarm
  | awaiting _ _ alarm _ => alarm
  | pausing alarm _ _ => some alarm
  | registering _ _ pending => pending.map (·.alarm)
  | updating _ _ pending => some pending.alarm
  | _ => none

end Point

/-! ## The session -/

/-- Where the dispatcher stands. While it reports to the twin it keeps the session alive. -/
inductive DispatchPoint
  | absent
  | listening
  | reporting (call : TwinCall) (pending : Pending)
  | gone
deriving DecidableEq, Repr

def DispatchPoint.isReporting : DispatchPoint → Bool
  | reporting .. => true
  | _ => false

/-- A session, started or not. -/
structure Session where
  config : SessionConfig
  phase : Phase := .disconnected
  portTaken : Bool := false
  descriptor : Option Descriptor := none
  twin : Twin
  asked : List (TwinCall × Verdict) := []
  observers : Nat := 0
  commandLock : Lock := {}
  propertyLock : Lock := {}
  operationalSince : Option Nat := none
  dispatch : DispatchPoint := .absent

namespace Session

/-- The lock that an operation needs. -/
def lock (s : Session) : OperationKind → Lock
  | .command => s.commandLock
  | .read => s.propertyLock
  | .write => s.propertyLock

def setLock (s : Session) (kind : OperationKind) (l : Lock) : Session :=
  match kind with
  | .command => { s with commandLock := l }
  | .read => { s with propertyLock := l }
  | .write => { s with propertyLock := l }

/-- The twin has been given a way to call back. -/
def isBound (s : Session) : Bool := s.asked.any fun x => x.1.isBind && x.2.accepts

end Session

/-! ## History -/

/-- What can be seen to happen. -/
inductive Happening
  | logged (r : Remark)
  | toldTwin (call : TwinCall) (verdict : Verdict)
  | discovered (observer : Nat) (d : Descriptor)
  | observed (observer : Nat) (call : TwinCall)
  | answered (answer : Answer)
deriving Repr

/-- An entry of the history. -/
structure Note where
  actor : Actor
  time : Nat
  what : Happening
deriving Repr

/-! ## The host -/

/-- The host: its clock, the byte stream, the link, the session, the calls under way, and the application's share: the
handle it may still hold and the registrations it keeps. The history has its newest entry first. -/
structure Host where
  now : Nat := 0
  serial : Nat := 0
  wire : Wire := {}
  link : Link
  session : Session
  calls : List Call := []
  made : Nat := 0
  held : Bool := true
  tickets : List Ticket := []
  ready : List Actor := []
  history : List Note := []

namespace Host

/-- A host whose session has not started. -/
def ofSession (config : SessionConfig) (twin : Twin) : Host where
  link := { Link.ofConfig config.link with forwarding := false }
  session := { config := config, twin := twin }

/-- A host with a bare link, used without a session. Its receive loop is about to run. -/
def ofLink (config : LinkConfig) : Host where
  link := { Link.ofConfig config with loop := .listening }
  session := { config := { link := config }, twin := .scripted [] 0 0, portTaken := true }
  ready := [.loop]

/-! ## Reading the state -/

def call? (h : Host) (id : Nat) : Option Call := h.calls.find? (·.id == id)

/-- The tickets that somebody holds, the application or a call on its way. -/
def live (h : Host) : List Ticket := h.tickets ++ h.calls.filterMap (·.point.ticket?)

/-- Something still keeps the application's handle alive. -/
def attached (h : Host) : Bool := h.held || h.calls.any (·.holds) || h.session.dispatch.isReporting

/-- The alarms set, with those who set them. -/
def alarms (h : Host) : List (Alarm × Actor) :=
  (match h.session.dispatch with
    | .reporting _ pending => [(pending.alarm, .dispatcher)]
    | _ => [])
  ++ h.calls.filterMap fun c => c.point.alarm?.map (·, .call c.id)

/-! ## Small changes -/

/-- Put an actor at the end of those who will act, unless it is among them. -/
def wake (h : Host) (a : Actor) : Host :=
  if h.ready.contains a then h else { h with ready := h.ready ++ [a] }

def wakeAll (h : Host) (as : List Actor) : Host := as.foldl wake h

def wakeCalls (h : Host) (ids : List Nat) : Host := h.wakeAll (ids.map .call)

def wake? (h : Host) (a : Option Actor) : Host := a.elim h h.wake

/-- Enter something into the history. -/
def note (h : Host) (a : Actor) (what : Happening) : Host :=
  { h with history := ⟨a, h.now, what⟩ :: h.history }

def remark (h : Host) (a : Actor) (r : Remark) : Host := h.note a (.logged r)

def setLoop (h : Host) (p : LoopPoint) : Host := { h with link := { h.link with loop := p } }

def setDispatch (h : Host) (p : DispatchPoint) : Host := { h with session := { h.session with dispatch := p } }

def setPoint (h : Host) (id : Nat) (p : Point) : Host :=
  { h with calls := h.calls.map fun c => if c.id = id then { c with point := p } else c }

def updateMetrics (h : Host) (f : Metrics → Metrics) : Host :=
  { h with link := { h.link with metrics := f h.link.metrics } }

/-- Pass unmatched packets on, or not. -/
def forward (h : Host) (on : Bool) : Host := { h with link := { h.link with forwarding := on } }

/-- Enter a phase. Only a change is logged. -/
def setPhase (h : Host) (a : Actor) (p : Phase) : Host :=
  let before := h.session.phase
  let h := { h with session := { h.session with phase := p } }
  if before = p then h else h.remark a (.phaseChanged before p)

/-- Set an alarm `delay` milliseconds from now. -/
def setAlarm (h : Host) (delay : Nat) : Host × Alarm :=
  ({ h with serial := h.serial + 1 }, ⟨h.now + delay, h.serial⟩)

/-- The host end of the byte stream is given up. -/
def releaseWire (h : Host) : Host := { h with wire := { h.wire with released := true } }

/-- After something that may have kept the handle alive is gone: the last one ends the receive loop, or gives up the
byte stream that no loop runs on. -/
def checkAttached (h : Host) : Host :=
  if h.attached then h
  else match h.link.loop with
    | .absent => h.releaseWire
    | _ => h.wake .loop

/-! ## Shared steps -/

/-- The calls that wait for a registration. -/
def awaiters (h : Host) (ticket : Nat) : List Nat :=
  (h.calls.filter fun c => match c.point with
    | .awaiting t _ _ _ => t.id == ticket
    | _ => false).map (·.id)

/-- Deliver to a registration that has just left the table. -/
def deliver (h : Host) (ticket : Nat) (result : Except LinkError Packet) : Host :=
  { h with link := { h.link with deliveries := h.link.deliveries ++ [(ticket, result)] } }.wakeCalls (h.awaiters ticket)

/-- Report to the writer of a frame, if it still waits. -/
def report (h : Host) (caller : Nat) (result : Except LinkError Unit) : Host :=
  match h.call? caller with
  | some ⟨_, .writing .., _⟩ =>
    { h with link := { h.link with receipts := h.link.receipts ++ [(caller, result)] } }.wake (.call caller)
  | _ => h

/-- Close the table of waiters. Those still in it are told. -/
def closeTable (h : Host) (reason : String) : Host :=
  let (table, dropped) := h.link.table.close reason
  dropped.foldl (fun h w => h.deliver w.id (.error (.closed reason))) { h with link := { h.link with table := table } }

/-- Open a registration. -/
def register (h : Host) (type : UInt8) (matcher : Matcher) : Except LinkError (Host × Ticket) :=
  (h.link.table.register type matcher).map fun (table, id) =>
    ({ h with link := { h.link with table := table } }, ⟨id, type⟩)

/-- Ask the twin. -/
def askTwin (h : Host) (a : Actor) (call : TwinCall) : Host × Pending :=
  let verdict := h.session.twin h.session.asked call
  let h := { h with session := { h.session with asked := (call, verdict) :: h.session.asked } }
  let h := h.note a (.toldTwin call verdict)
  let (h, alarm) := h.setAlarm verdict.delay
  (h, ⟨alarm, verdict.refusal⟩)

/-- Tell every observer, in order. -/
def tellObservers (h : Host) (a : Actor) (what : Nat → Happening) : Host :=
  (List.range h.session.observers).foldl (fun h n => h.note a (what n)) h

end Host
end TwinLink
