import TwinLink.Frame.Decoder
import TwinLink.Link.Channel
import TwinLink.Link.Config
import TwinLink.Link.Waiters

/-!
# The link: a byte stream with frames, requests and replies on it

* `Wire` : the host end of the byte stream;
* `Command`, `LinkEvent` : what callers ask of the receive loop, and what it passes on;
* `Metrics` : what the loop counts;
* `LoopPoint` : where the receive loop stands;
* `Link` : all of it.
-/

namespace TwinLink

/-- The host end of the byte stream. `room` bounds what the device takes for now, if anything does. -/
structure Wire where
  inbound : Bytes := []
  outbound : Bytes := []
  room : Option Nat := none
  hungUp : Bool := false
  released : Bool := false
  readFault : Option String := none
  writeFault : Option String := none

/-- What a caller asks of the receive loop. -/
inductive LinkCommand
  | write (caller : Nat) (frame : Bytes)
  | shutdown
deriving DecidableEq, Repr

/-- What the receive loop passes on: packets that nobody waited for, and last of all why it ended. -/
inductive LinkEvent
  | packet (p : Packet)
  | closed (reason : String)
deriving DecidableEq, Repr

/-- What the receive loop counts. -/
structure Metrics where
  bytesRead : Nat := 0
  framesReceived : Nat := 0
  framesSent : Nat := 0
  matchedResponses : Nat := 0
  unsolicitedPackets : Nat := 0
  timeouts : Nat := 0
  lastError : Option String := none
  lastFrameAt : Option Nat := none
deriving DecidableEq, Repr

/-- Where the receive loop stands. The frames of one read are sorted one by one, then a framing error ends the loop.
While a frame is written nothing is read. -/
inductive LoopPoint
  | absent
  | listening
  | sorting (frames : List Bytes) (fault : Option FrameError)
  | writing (caller : Nat) (rest : Bytes)
  | offering (p : Packet) (frames : List Bytes) (fault : Option FrameError)
  | parting (reason : String)
  | gone
deriving DecidableEq, Repr

/-- The link with its receive loop. What has been delivered to a registration, or reported to the writer of a frame,
is kept until it is picked up. -/
structure Link where
  config : LinkConfig
  loop : LoopPoint := .absent
  decoder : Decoder
  commands : Channel LinkCommand
  events : Channel LinkEvent
  table : WaitTable := {}
  deliveries : List (Nat × Except LinkError Packet) := []
  receipts : List (Nat × Except LinkError Unit) := []
  metrics : Metrics := {}
  forwarding : Bool

namespace Link

/-- A link before its receive loop runs. -/
def ofConfig (c : LinkConfig) : Link where
  config := c
  decoder := .ofLimit c.maxFrameSize
  commands := .ofCapacity c.commandCapacity
  events := .ofCapacity c.eventCapacity
  forwarding := c.forwardUnsolicited

/-- Bytes taken by one read. -/
def readSize (l : Link) : Nat := max l.config.readChunk 1

/-- The error of a request made after the end. -/
def closedError (l : Link) : LinkError := .closed (l.table.closed.getD "receive loop terminated")

/-- What was delivered to a registration. -/
def delivery? (l : Link) (id : Nat) : Option (Except LinkError Packet) := l.deliveries.lookup id

/-- What was reported to the writer of a frame. -/
def receipt? (l : Link) (caller : Nat) : Option (Except LinkError Unit) := l.receipts.lookup caller

/-- Withdraw a registration, with what was delivered to it. -/
def withdraw (l : Link) (id : Nat) : Link :=
  { l with table := l.table.cancel id, deliveries := l.deliveries.filter fun d => d.1 != id }

/-- Forget what was reported to the writer of a frame. -/
def dropReceipt (l : Link) (caller : Nat) : Link :=
  { l with receipts := l.receipts.filter fun r => r.1 != caller }

end Link
end TwinLink
