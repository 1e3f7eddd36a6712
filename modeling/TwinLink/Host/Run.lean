import TwinLink.Host.Calls
import TwinLink.Host.Dispatcher
import TwinLink.Host.Loop

/-!
# Runs of the host

* `Action` : what can happen next: a step of an actor, time passing, the device, the application;
* `Host.apply h a`, `Host.run h as` : an action, and any sequence of actions in any order;
* `Host.settle` : the one order in which woken actors act in turn, each until it has to wait;
* `Host.elapse` : time passing with every alarm rung in its turn.

`Host.run` leaves the order open; `Host.settle` and `Host.elapse` are runs with one particular order (`Host.settle_run`,
`Host.elapse_run`).

## One thread

The receive loop, the dispatcher and the calls are tasks that share one thread. A task that has its turn goes on to a
point where it has to wait, and nobody else acts until it gets there. A step is at most the stretch between two points
where the task may have to wait, so whatever the tasks of one thread do is a run, in whichever order they get their
turns; a run may besides let others act between two steps of one turn. In particular every scenario is a run
(`Setup.played_run`).

That there is one thread is an assumption. Nothing here starts a thread: the tasks run where the link and the session are
used, and the tests use them on a single thread. The specification has a task suspended only where it waits, and counts
one thread among the ways to protect what the tasks share. Here that is under locks, so several threads can share it too,
but then somebody else may act in the middle of a step:

* `sortFrame` : when a registration has been looked up, its holder may give up before the packet is handed over;
* `beginStart` : when the port has been taken (`openPort`), the session may be closed before the first phase is entered
  (`beginHandshake`);
* `completeStart` : when the session is operational (`becomeOperational`), a frame may be sorted before packets are
  passed on;
* `writeFrame` : when a write has failed, its writer may hear of it before the loop has ended.

None of this is a run, and what is proved of every run does not extend to it.
-/

namespace TwinLink

/-- What can happen next. -/
inductive Action
  | advance (a : Actor) (inputFirst : Bool)
  | pass (ms : Nat)
  | receive (bytes : Bytes)
  | hangUp
  | breakRead (text : String)
  | breakWrite (text : String)
  | allow (room : Option Nat)
  | make (r : Request)
  | abandon (id : Nat)
  | register (type : UInt8) (matcher : Matcher)
  | withdraw (ticket : Ticket)
  | forward (on : Bool)
  | takeEvent
  | dropListener
  | observe
  | dropHandle

namespace Host

/-! ## Actors -/

/-- One step of an actor, or nothing if it has to wait. -/
def step (h : Host) (a : Actor) (inputFirst : Bool) : Option Host :=
  match a with
  | .loop => h.loopStep inputFirst
  | .dispatcher => h.dispatchStep
  | .call id => h.callStep id

/-- Alarms ring in the order of their moments, those for one moment in the order they were set. -/
def before (a b : Alarm × Actor) : Bool :=
  a.1.due < b.1.due || (a.1.due == b.1.due && a.1.serial ≤ b.1.serial)

/-- Let time pass and ring the alarms that are due. -/
def pass (h : Host) (ms : Nat) : Host :=
  let h := { h with now := h.now + ms }
  h.wakeAll (((h.alarms.filter fun a => a.1.due ≤ h.now).mergeSort before).map (·.2))

/-! ## The device -/

/-- The device writes bytes, while both ends are there. -/
def receive (h : Host) (bytes : Bytes) : Host :=
  if h.wire.hungUp || h.wire.released then h
  else { h with wire := { h.wire with inbound := h.wire.inbound ++ bytes } }.wake .loop

def hangUp (h : Host) : Host := { h with wire := { h.wire with hungUp := true } }.wake .loop

def breakRead (h : Host) (text : String) : Host :=
  { h with wire := { h.wire with readFault := some text } }.wake .loop

def breakWrite (h : Host) (text : String) : Host := { h with wire := { h.wire with writeFault := some text } }

/-- The device takes so many more bytes, or any number. -/
def allow (h : Host) (room : Option Nat) : Host := { h with wire := { h.wire with room := room } }.wake .loop

/-! ## The application -/

/-- Whether a call can be made: with the handle, with the registration that it waits for, or by a twin that has been
given a way to call. -/
def canMake (h : Host) : Request → Bool
  | .await ticket _ => h.tickets.contains ticket
  | .twinOperate _ => h.session.isBound
  | _ => h.held

/-- Make a call. A registration that it waits for goes over to it. -/
def make (h : Host) (r : Request) : Host :=
  if h.canMake r then
    let tickets := match r with
      | .await ticket _ => h.tickets.erase ticket
      | _ => h.tickets
    let call : Call := { id := h.made, point := .begun r, holds := r.holdsAtOnce }
    { h with calls := h.calls ++ [call], made := h.made + 1, tickets := tickets }.wake (.call call.id)
  else h

/-- Open a registration for the application to keep. -/
def keepTicket (h : Host) (type : UInt8) (matcher : Matcher) : Except LinkError (Host × Ticket) :=
  (h.register type matcher).map fun (h, ticket) => ({ h with tickets := h.tickets ++ [ticket] }, ticket)

/-- Withdraw a registration that the application keeps. -/
def withdrawTicket (h : Host) (ticket : Ticket) : Host :=
  if h.tickets.contains ticket then
    { h with link := h.link.withdraw ticket.id, tickets := h.tickets.erase ticket }
  else h

/-- The oldest event, taken by the application where no dispatcher listens. -/
def takeEvent? (h : Host) : Option (LinkEvent × Host) :=
  match h.session.dispatch with
  | .absent => (h.link.events.take?).map fun (event, events, woken) =>
    (event, { h with link := { h.link with events := events } }.wake? woken)
  | _ => none

/-- The application stops listening for events. -/
def dropListener (h : Host) : Host :=
  let (events, line) := h.link.events.discard
  { h with link := { h.link with events := events } }.wakeAll line

def observe (h : Host) : Host := { h with session := { h.session with observers := h.session.observers + 1 } }

/-- The application drops its handle. -/
def dropHandle (h : Host) : Host := { h with held := false }.checkAttached

/-! ## Runs -/

/-- What an action makes of the host. An action that is not possible changes nothing. -/
def apply (h : Host) : Action → Host
  | .advance a inputFirst => (h.step a inputFirst).getD h
  | .pass ms => h.pass ms
  | .receive bytes => h.receive bytes
  | .hangUp => h.hangUp
  | .breakRead text => h.breakRead text
  | .breakWrite text => h.breakWrite text
  | .allow room => h.allow room
  | .make r => h.make r
  | .abandon id => h.abandon id
  | .register type matcher =>
    match h.keepTicket type matcher with
    | .ok (h, _) => h
    | .error _ => h
  | .withdraw ticket => h.withdrawTicket ticket
  | .forward on => h.forward on
  | .takeEvent => (h.takeEvent?.map (·.2)).getD h
  | .dropListener => if h.session.dispatch = .absent then h.dropListener else h
  | .observe => h.observe
  | .dropHandle => h.dropHandle

/-- Any sequence of actions. -/
def run (h : Host) (as : List Action) : Host := as.foldl apply h

/-! ## Taking turns -/

/-- Let the woken actors act in turn, each until it has to wait, for at most so many steps. -/
def settle : (steps : Nat) → Host → Host
  | 0, h => h
  | steps + 1, h =>
    match h.ready with
    | [] => h
    | a :: rest =>
      match h.step a false with
      | some h => settle steps h
      | none => settle steps { h with ready := rest }

/-- The first moment up to `limit` at which an alarm rings. -/
def nextAlarm? (h : Host) (limit : Nat) : Option Nat :=
  ((h.alarms.map (·.1.due)).filter (· ≤ limit)).min?

/-- Let time pass up to `limit`, ringing each alarm at its moment and letting what it wakes act then. -/
def elapse (patience limit : Nat) : (rounds : Nat) → Host → Host
  | 0, h => h
  | rounds + 1, h =>
    match h.nextAlarm? limit with
    | some due => elapse patience limit rounds (settle patience (h.pass (due - h.now)))
    | none => settle patience (h.pass (limit - h.now))

end Host
end TwinLink
