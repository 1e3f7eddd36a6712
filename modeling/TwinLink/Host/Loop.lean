import TwinLink.Host.Basic

/-!
# Steps of the receive loop

* `Host.stopLoop h reason` : end the loop: tell everyone who waits, take no more commands, then pass on why;
* `Host.lookUp`, `Host.handOver`, `Host.passOn` : a packet goes to the oldest registration that accepts it, else on to
  the event channel; `Host.sortFrame` : all of that for one frame;
* `Host.loopStep h inputFirst` : one step, or nothing if the loop has to wait. With a command and input both at hand,
  either may come first.
-/

namespace TwinLink.Host

/-! ## The end -/

/-- Answer the commands that are left in the queue. -/
def refuseCommands (h : Host) (reason : String) : List LinkCommand → Host
  | [] => h
  | .write caller _ :: rest => (h.report caller (.error (.closed reason))).refuseCommands reason rest
  | .shutdown :: rest => h.refuseCommands reason rest

/-- End the loop: everyone who waits is told, no more commands are taken, and `reason` is still to be passed on. -/
def stopLoop (h : Host) (reason : String) : Host :=
  let h := (h.remark .loop (.loopEnded reason)).closeTable reason
  let h := h.updateMetrics fun m => { m with lastError := some reason }
  let queued := h.link.commands.queue
  let (commands, line) := h.link.commands.discard
  let h := { h with link := { h.link with commands := commands } }.wakeAll line
  (h.refuseCommands reason queued).setLoop (.parting reason)

/-! ## Input -/

/-- Take the oldest registration that accepts a packet out of the table. -/
def lookUp (h : Host) (p : Packet) : Option (Waiter × Host) :=
  (h.link.table.takeMatch? p).map fun (waiter, table) => (waiter, { h with link := { h.link with table := table } })

/-- Hand a packet to a registration that has left the table, or find that its holder has given up. -/
def handOver (h : Host) (waiter : Waiter) (p : Packet) : Option Host :=
  if h.live.contains waiter.ticket then
    some ((h.deliver waiter.id (.ok p)).updateMetrics fun m => { m with matchedResponses := m.matchedResponses + 1 })
  else none

/-- Pass on a packet that no registration gets. -/
def passOn (h : Host) (p : Packet) (rest : List Bytes) (fault : Option FrameError) : Host :=
  let h := h.updateMetrics fun m => { m with unsolicitedPackets := m.unsolicitedPackets + 1 }
  if h.link.forwarding then h.setLoop (.offering p rest fault) else h.remark .loop (.notForwarded p.type)

/-- Hand one frame on. A holder that gives up between the look-up and the hand-over misses its packet, which is passed
on then; as nobody acts in between, every registration in the table still has its holder (`Setup.handOver_lookUp`). -/
def sortFrame (h : Host) (frame : Bytes) (rest : List Bytes) (fault : Option FrameError) : Host :=
  let h := h.setLoop (.sorting rest fault)
  match Packet.ofFrame frame with
  | .error e => h.remark .loop (.undecodable e)
  | .ok p =>
    let h := h.updateMetrics fun m =>
      { m with framesReceived := m.framesReceived + 1, lastFrameAt := some h.now }
    match h.lookUp p with
    | some (waiter, h) => (h.handOver waiter p).getD (h.passOn p rest fault)
    | none => h.passOn p rest fault

/-- Take one read and decode all of it, or find that there will be no more. -/
def readInput (h : Host) : Option Host :=
  match h.wire.readFault with
  | some text => some (h.stopLoop ("read failed: " ++ text))
  | none =>
    if h.wire.inbound.isEmpty then
      if h.wire.hungUp then some (h.stopLoop "serial stream closed") else none
    else
      let chunk := h.wire.inbound.take h.link.readSize
      let (decoder, frames, fault) := h.link.decoder.feedChunk chunk
      let h := { h with wire := { h.wire with inbound := h.wire.inbound.drop h.link.readSize } }
      let h := h.updateMetrics fun m => { m with bytesRead := m.bytesRead + chunk.length }
      some { h with link := { h.link with decoder := decoder, loop := .sorting frames fault } }

/-! ## Commands -/

/-- Write what the device takes of the rest of a frame, or find that all is written. A failure ends the loop, and the
writer, who has been told of it, acts when the loop has ended. -/
def writeFrame (h : Host) (caller : Nat) (rest : Bytes) : Option Host :=
  match h.wire.writeFault with
  | some text => some ((h.report caller (.error (.io text))).stopLoop ("write failed: " ++ text))
  | none =>
    if rest.isEmpty then
      let h := h.updateMetrics fun m => { m with framesSent := m.framesSent + 1 }
      some ((h.report caller (.ok ())).setLoop .listening)
    else
      let n := h.wire.room.getD rest.length
      if n = 0 then none
      else
        let wire := { h.wire with
          outbound := h.wire.outbound ++ rest.take n
          room := h.wire.room.map (· - rest.length) }
        some ({ h with wire := wire }.setLoop (.writing caller (rest.drop n)))

/-- Carry out one command. Without a handle there will be no more. -/
def obeyCommand (h : Host) : Option Host :=
  match h.link.commands.take? with
  | some (command, commands, woken) =>
    let h := { h with link := { h.link with commands := commands } }.wake? woken
    match command with
    | .write caller frame => some (h.setLoop (.writing caller frame))
    | .shutdown => some (h.stopLoop "transport closed by host")
  | none => if h.attached then none else some (h.stopLoop "transport closed by host")

/-! ## Events -/

/-- Offer an event, `next` being where the loop stands once the event is taken or nobody listens. -/
def offerEvent (h : Host) (event : LinkEvent) (next : LoopPoint) : Option Host :=
  let (events, admission) := h.link.events.offer .loop event
  let h := { h with link := { h.link with events := events } }
  match admission with
  | .admitted => some ((h.setLoop next).wake .dispatcher)
  | .refused => some (h.setLoop next)
  | .queued => some h
  | .waiting => none

/-- One step of the receive loop, or nothing if it has to wait. -/
def loopStep (h : Host) (inputFirst : Bool) : Option Host :=
  match h.link.loop with
  | .absent => none
  | .listening => if inputFirst then h.readInput <|> h.obeyCommand else h.obeyCommand <|> h.readInput
  | .sorting [] none => some (h.setLoop .listening)
  | .sorting [] (some e) => some ((h.remark .loop (.framingFailed e)).stopLoop ("frame error: " ++ e.message))
  | .sorting (frame :: rest) fault => some (h.sortFrame frame rest fault)
  | .writing caller rest => h.writeFrame caller rest
  | .offering p rest fault => h.offerEvent (.packet p) (.sorting rest fault)
  | .parting reason => (h.offerEvent (.closed reason) .gone).map fun h => match h.link.loop with
    | .gone => h.releaseWire
    | _ => h
  | .gone => none

end TwinLink.Host
