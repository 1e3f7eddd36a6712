import TwinLink.Descriptor.Reader
import TwinLink.Host.Basic

/-!
# Steps of calls

* `Host.vacate h c` : give back what a call holds: its place in the command queue, its registration, its lock;
* `Host.finish h c answer`, `Host.abandon h id` : end a call, with an answer or by dropping it;
* `Host.callStep h id` : one step of a call, or nothing if it has to wait.
-/

namespace TwinLink.Host

/-! ## The end of a call -/

/-- Leave the line for a lock, or hand the lock on. -/
def releaseLock (h : Host) (id : Nat) (kind : OperationKind) : Host :=
  let (lock, next) := (h.session.lock kind).release id
  { h with session := h.session.setLock kind lock }.wake? (next.map .call)

/-- Give back a place in the command queue or in the line for one. -/
def withdrawCommand (h : Host) (id : Nat) : Host :=
  let (commands, next) := h.link.commands.withdraw (.call id)
  { h with link := { h.link with commands := commands } }.wake? next

/-- Withdraw a registration, if there is one. -/
def dropTicket (h : Host) (ticket : Option Ticket) : Host :=
  ticket.elim h fun ticket => { h with link := h.link.withdraw ticket.id }

/-- Give back what a call holds: its place in the command queue, its registration, its lock. -/
def vacate (h : Host) (c : Call) : Host :=
  let h := h.withdrawCommand c.id
  let h := { h with link := h.link.dropReceipt c.id }
  let h := h.dropTicket c.point.ticket?
  c.point.plan?.elim h fun plan => h.releaseLock c.id plan.kind

/-- A call under way is no more. -/
def remove (h : Host) (c : Call) : Host :=
  let h := h.vacate c
  { h with calls := h.calls.filter fun x => x.id != c.id }.checkAttached

/-- End a call with an answer. -/
def finish (h : Host) (c : Call) (answer : Answer) : Host :=
  (h.note (.call c.id) (.answered answer)).remove c

/-- Drop a call. -/
def abandon (h : Host) (id : Nat) : Host := (h.call? id).elim h h.remove

/-! ## Sending and waiting -/

/-- Go on to wait for a packet; the limit counts from here. -/
def beginWait (h : Host) (c : Call) (ticket : Ticket) (limit : Option Nat) (purpose : Purpose) : Host :=
  match limit with
  | none => h.setPoint c.id (.awaiting ticket none none purpose)
  | some ms =>
    let (h, alarm) := h.setAlarm ms
    h.setPoint c.id (.awaiting ticket (some ms) (some alarm) purpose)

/-- End the link: nobody waits any more, and the receive loop is told. The call ends with `answer` after that. -/
def beginShutdown (h : Host) (c : Call) (answer : Answer) : Host :=
  (h.closeTable "transport closed by host").setPoint c.id (.shutting answer)

/-! ## The handshake -/

/-- The handshake has failed, and the session with it. -/
def failHandshake (h : Host) (c : Call) (e : SessionError) : Host :=
  let h := (h.remark (.call c.id) (.handshakeFailed e)).setPhase (.call c.id) .faulted
  h.beginShutdown c (.error (.session e))

/-- Send a request of the handshake, having repeated it `retries` times. -/
def attempt (h : Host) (c : Call) (stage : Stage) (retries : Nat) : Host :=
  match h.register stage.response.code .any with
  | .error e => h.failHandshake c (.link e)
  | .ok (h, ticket) =>
    h.setPoint c.id (.entering (Frame.encode (Packet.bare stage.request).toBytes) (some ticket)
      (some h.session.config.requestTimeout) (.handshake stage retries))

/-- The device has described itself. -/
def beginRegistration (h : Host) (c : Call) (p : Packet) : Host :=
  match Descriptor.parse h.session.config.revision p.payload with
  | .error e => h.failHandshake c (.descriptor e)
  | .ok d =>
    let h := h.remark (.call c.id) (.reported d.displayName d.interfaces.length)
    let h := h.setPhase (.call c.id) .registering
    { h with session := { h.session with descriptor := some d } }.setPoint c.id (.registering d d.registration none)

/-- The device is known, and the session operational. -/
def becomeOperational (h : Host) (c : Call) (d : Descriptor) : Host :=
  let h := h.tellObservers (.call c.id) (.discovered · d)
  let h := { h with session := { h.session with operationalSince := some h.now } }
  h.setPhase (.call c.id) .operational

/-- The twin knows the device: the session becomes operational, and unmatched packets are passed on. No frame is sorted
in between. -/
def completeStart (h : Host) (c : Call) (d : Descriptor) : Host :=
  ((h.becomeOperational c d).forward true).finish c (.ok (.device d))

/-- The error of a call to the twin that was refused during registration. -/
def registrationError (call : TwinCall) (text : String) : SessionError :=
  .twin (call.action.name ++ " " ++ call.key ++ ": " ++ text)

/-- Make the next call to the twin, or find that there is none left. -/
def registerStep (h : Host) (c : Call) (d : Descriptor) (todo : List TwinCall) (pending : Option Pending) :
    Option Host :=
  match pending, todo with
  | none, [] => some (h.completeStart c d)
  | none, call :: _ =>
    let (h, pending) := h.askTwin (.call c.id) call
    some (h.setPoint c.id (.registering d todo (some pending)))
  | some _, [] => some (h.setPoint c.id (.registering d [] none))
  | some pending, call :: rest =>
    if pending.alarm.due ≤ h.now then
      match pending.refusal with
      | some text => some (h.failHandshake c (registrationError call text))
      | none => some (h.setPoint c.id (.registering d rest none))
    else none

/-- Take the port, and run the receive loop and the dispatcher on it. -/
def openPort (h : Host) : Host :=
  let h := { h with session := { h.session with portTaken := true, dispatch := .listening } }
  ((h.setLoop .listening).wake .loop).wake .dispatcher

/-- Enter the first phase of the handshake and send its first request. -/
def beginHandshake (h : Host) (c : Call) : Host := (h.setPhase (.call c.id) .resetting).attempt c .reset 0

/-- Take the port and begin the handshake. A start does not wait on the way: whoever closes the session comes before,
and the port is taken, or after, and the link is there to be closed. -/
def beginStart (h : Host) (c : Call) : Host :=
  if h.session.phase = .faulted then h.finish c (.error (.session (.faulted "session was closed")))
  else if h.session.portTaken then h.finish c (.error (.session .alreadyStarted))
  else h.openPort.beginHandshake c

/-! ## Operations -/

/-- The plan of an operation in the present phase. -/
def planOperation (h : Host) (op : Operation) : Except SessionError Plan :=
  match h.session.phase with
  | .faulted => .error (.faulted "session is faulted")
  | .operational =>
    match h.session.descriptor with
    | some d => op.plan d
    | none => .error (.notOperational .operational)
  | phase => .error (.notOperational phase)

/-- Check an operation and stand in line for its lock. -/
def beginOperation (h : Host) (c : Call) (op : Operation) : Host :=
  match h.planOperation op with
  | .error e => h.finish c (.error (.session e))
  | .ok plan => h.setPoint c.id (.inLine plan)

/-- With the lock in hand, register for the reply and go on to send. -/
def lockStep (h : Host) (c : Call) (plan : Plan) : Option Host :=
  let (lock, held) := (h.session.lock plan.kind).acquire c.id
  let changed := lock != h.session.lock plan.kind
  let h := { h with session := h.session.setLock plan.kind lock }
  if held then
    match h.register plan.kind.response.code (.named plan.name) with
    | .error e => some (h.finish c (.error (.session (.link e))))
    | .ok (h, ticket) =>
      some (h.setPoint c.id (.entering (Frame.encode plan.request.toBytes) (some ticket)
        (some h.session.config.requestTimeout) (.operation plan)))
  else if changed then some h
  else none

/-- Read the reply of an operation. A value that was written goes to the twin first. -/
def readReply (h : Host) (c : Call) (plan : Plan) (p : Packet) : Host :=
  match plan.read p with
  | .error e => h.finish c (.error (.session e))
  | .ok value =>
    match plan.kind with
    | .write =>
      let (h, pending) := h.askTwin (.call c.id) (.property plan.interface plan.name value)
      h.setPoint c.id (.updating plan value pending)
    | _ => h.finish c (.ok (.text value))

/-- The twin has taken the value that was written, or not; the caller gets it either way. -/
def updateStep (h : Host) (c : Call) (plan : Plan) (value : String) (pending : Pending) : Option Host :=
  if pending.alarm.due ≤ h.now then
    let h := match pending.refusal with
      | none => h
      | some text => h.remark (.call c.id) (.updateRejected plan.name text)
    some (h.finish c (.ok (.text value)))
  else none

/-! ## Results of exchanges -/

/-- An exchange has failed. Only timeouts of the handshake are tried again. -/
def failExchange (h : Host) (c : Call) (purpose : Purpose) (e : LinkError) : Host :=
  match purpose with
  | .direct => h.finish c (.error (.link e))
  | .operation _ => h.finish c (.error (.session (.link e)))
  | .handshake stage retries =>
    let config := h.session.config
    if e = .timeout ∧ retries < config.handshakeRetries then
      let h := h.remark (.call c.id)
        (.retrying stage.request (retries + 1) config.handshakeRetries config.retryDelay)
      let (h, alarm) := h.setAlarm config.retryDelay
      h.setPoint c.id (.pausing alarm stage (retries + 1))
    else h.failHandshake c (.link e)

/-- An exchange has brought its packet. -/
def concludeExchange (h : Host) (c : Call) (purpose : Purpose) (p : Packet) : Host :=
  match purpose with
  | .direct => h.finish c (.ok (.packet p))
  | .operation plan => h.readReply c plan p
  | .handshake .reset _ =>
    let h := h.remark (.call c.id) .resetAcknowledged
    (h.setPhase (.call c.id) .awaitingDescriptor).attempt c .describe 0
  | .handshake .describe _ => h.beginRegistration c p

/-! ## Steps -/

/-- From here on a call keeps the application's handle alive. -/
def keepHandle (h : Host) (id : Nat) : Host :=
  { h with calls := h.calls.map fun (c : Call) => if c.id = id then { c with holds := true } else c }

/-- The first step of a call. -/
def beginCall (h : Host) (c : Call) : Request → Host
  | .send p => h.setPoint c.id (.entering (Frame.encode p.toBytes) none none .direct)
  | .exchange p expect limit =>
    match h.register expect .any with
    | .error e => h.finish c (.error (.link e))
    | .ok (h, ticket) => h.setPoint c.id (.entering (Frame.encode p.toBytes) (some ticket) limit .direct)
  | .receive type limit =>
    match h.register type .any with
    | .error e => h.finish c (.error (.link e))
    | .ok (h, ticket) => h.beginWait c ticket limit .direct
  | .await ticket limit => h.beginWait c ticket limit .direct
  | .shutDown => h.beginShutdown c (.ok .done)
  | .start => h.beginStart c
  | .operate op => h.beginOperation c op
  | .twinOperate op =>
    if h.attached then
      (h.keepHandle c.id).beginOperation c op
    else h.finish c (.error (.session (.faulted "session dropped")))
  | .close =>
    let h := h.setPhase (.call c.id) .faulted
    let h := if h.session.portTaken then h
      else { h with session := { h.session with portTaken := true } }.releaseWire
    match h.link.loop with
    | .absent => h.finish c (.ok .done)
    | _ => h.beginShutdown c (.ok .done)

/-- Try to hand a frame to the receive loop. -/
def enterStep (h : Host) (c : Call) (frame : Bytes) (ticket : Option Ticket) (limit : Option Nat)
    (purpose : Purpose) : Option Host :=
  let (commands, admission) := h.link.commands.offer (.call c.id) (.write c.id frame)
  let h := { h with link := { h.link with commands := commands } }
  match admission with
  | .admitted => some ((h.setPoint c.id (.writing ticket limit purpose)).wake .loop)
  | .refused => some ((h.dropTicket ticket).failExchange c purpose h.link.closedError)
  | .queued => some h
  | .waiting => none

/-- Learn whether the frame was written. -/
def writeStep (h : Host) (c : Call) (ticket : Option Ticket) (limit : Option Nat) (purpose : Purpose) : Option Host :=
  match h.link.receipt? c.id with
  | none => none
  | some receipt =>
    let h := { h with link := h.link.dropReceipt c.id }
    match receipt with
    | .error e => some ((h.dropTicket ticket).failExchange c purpose e)
    | .ok () =>
      match ticket with
      | none => some (h.finish c (.ok .done))
      | some ticket => some (h.beginWait c ticket limit purpose)

/-- Go on with what was delivered, the registration being withdrawn. -/
def pickUp (h : Host) (c : Call) (ticket : Ticket) (purpose : Purpose) (delivery : Except LinkError Packet) : Host :=
  let h := { h with link := h.link.withdraw ticket.id }
  match delivery with
  | .ok p => h.concludeExchange c purpose p
  | .error e => h.failExchange c purpose e

/-- Look for the packet, then at the clock. When the time is over the registration leaves the table, and what was
delivered before it did so is still picked up. -/
def waitStep (h : Host) (c : Call) (ticket : Ticket) (limit : Option Nat) (alarm : Option Alarm) (purpose : Purpose) :
    Option Host :=
  match h.link.delivery? ticket.id with
  | some delivery => some (h.pickUp c ticket purpose delivery)
  | none =>
    match alarm with
    | none => none
    | some alarm =>
      if alarm.due ≤ h.now then
        let h := { h with link := { h.link with table := h.link.table.cancel ticket.id } }
        match h.link.delivery? ticket.id with
        | some delivery => some (h.pickUp c ticket purpose delivery)
        | none =>
          let h := h.updateMetrics fun m => { m with timeouts := m.timeouts + 1 }
          let h := h.remark (.call c.id) (.noReply ticket.type (limit.getD 0))
          some (({ h with link := h.link.withdraw ticket.id } : Host).failExchange c purpose .timeout)
      else none

/-- Try to tell the receive loop to end. -/
def shutStep (h : Host) (c : Call) (answer : Answer) : Option Host :=
  let (commands, admission) := h.link.commands.offer (.call c.id) .shutdown
  let h := { h with link := { h.link with commands := commands } }
  match admission with
  | .admitted => some ((h.wake .loop).finish c answer)
  | .refused => some (h.finish c answer)
  | .queued => some h
  | .waiting => none

/-- One step of a call at its point, or nothing if it has to wait. -/
def pointStep (h : Host) (c : Call) : Option Host :=
  match c.point with
  | .begun request => some (h.beginCall c request)
  | .inLine plan => h.lockStep c plan
  | .entering frame ticket limit purpose => h.enterStep c frame ticket limit purpose
  | .writing ticket limit purpose => h.writeStep c ticket limit purpose
  | .awaiting ticket limit alarm purpose => h.waitStep c ticket limit alarm purpose
  | .pausing alarm stage retries => if alarm.due ≤ h.now then some (h.attempt c stage retries) else none
  | .registering d todo pending => h.registerStep c d todo pending
  | .updating plan value pending => h.updateStep c plan value pending
  | .shutting answer => h.shutStep c answer

/-- One step of a call, or nothing if it has to wait or has ended. -/
def callStep (h : Host) (id : Nat) : Option Host := (h.call? id).bind h.pointStep

end TwinLink.Host
