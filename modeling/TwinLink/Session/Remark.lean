import TwinLink.Packet.Basic
import TwinLink.Session.Error
import TwinLink.Session.Twin

/-!
# Remarks: the log of a session

* `Remark` : everything that is logged, by cause;
* `Remark.level`, `Remark.text` : how it reads in the log;
* `millisText` : a time in milliseconds, in the largest unit that it fills.
-/

namespace TwinLink

/-- The levels of the log that are kept. -/
inductive Level
  | error
  | warn
  | info
deriving DecidableEq, Repr

def Level.name : Level → String
  | error => "ERROR"
  | warn => "WARN"
  | info => "INFO"

/-- The digits of thousandths without zeros at the end. -/
def thousandths (n : Nat) : String :=
  let ds := [n / 100 % 10, n / 10 % 10, n % 10]
  String.ofList ((ds.reverse.dropWhile (· == 0)).reverse.map Decimal.digitChar)

/-- A time in milliseconds: whole milliseconds below a second, seconds and their decimals from there on. -/
def millisText (ms : Nat) : String :=
  if ms = 0 then "0ns"
  else if ms < 1000 then s!"{ms}ms"
  else
    let seconds := toString (ms / 1000)
    if ms % 1000 = 0 then seconds ++ "s" else seconds ++ "." ++ thousandths (ms % 1000) ++ "s"

/-- Everything that is logged. -/
inductive Remark
  | loopEnded (reason : String)
  | framingFailed (e : FrameError)
  | undecodable (e : FrameError)
  | notForwarded (type : UInt8)
  | noReply (type : UInt8) (limit : Nat)
  | phaseChanged (before after : Phase)
  | handshakeFailed (e : SessionError)
  | retrying (request : PacketKind) (attempt retries delay : Nat)
  | resetAcknowledged
  | reported (device : String) (interfaces : Nat)
  | premature (type : UInt8) (phase : Phase)
  | malformedEvent (e : FrameError)
  | malformedProperty (e : FrameError)
  | unknownField (e : SessionError)
  | unreadableEvent (name : String) (e : SchemaError)
  | unreadableProperty (name : String) (e : SchemaError)
  | eventRejected (name text : String)
  | updateRejected (name text : String)
  | ignored (type : UInt8)
  | connectionLost (reason : String)
deriving DecidableEq, Repr

namespace Remark

def level : Remark → Level
  | loopEnded _ => .info
  | framingFailed _ => .error
  | phaseChanged .. => .info
  | handshakeFailed _ => .error
  | resetAcknowledged => .info
  | reported .. => .info
  | connectionLost _ => .error
  | _ => .warn

/-- A remark as it reads in the log. The session stands for itself by a placeholder. -/
def text : Remark → String
  | loopEnded reason => "Packet transport stopped: " ++ reason
  | framingFailed e => "Fatal framing error: " ++ e.message
  | undecodable e => "Discarding undecodable frame: " ++ e.message
  | notForwarded type => "Dropping unsolicited packet type 0x" ++ Bytes.hex2 type ++ ", forwarding disabled"
  | noReply type limit => "No packet of type 0x" ++ Bytes.hex2 type ++ " within " ++ millisText limit
  | phaseChanged before after => "Session <id> state " ++ before.name ++ " -> " ++ after.name
  | handshakeFailed e => "Handshake failed: " ++ e.message
  | retrying request attempt retries delay =>
    request.name ++ s!" timed out, retry {attempt}/{retries} in " ++ millisText delay
  | resetAcknowledged => "Device acknowledged reset"
  | reported device interfaces => s!"Device '{device}' reported {interfaces} interface(s)"
  | premature type phase =>
    "Dropping packet type 0x" ++ Bytes.hex2 type ++ " received while " ++ phase.name
  | malformedEvent e => "Malformed event notification: " ++ e.message
  | malformedProperty e => "Malformed property notification: " ++ e.message
  | unknownField e => e.message
  | unreadableEvent name e => s!"Event {name} has an unreadable value: " ++ e.message
  | unreadableProperty name e => s!"Property {name} has an unreadable value: " ++ e.message
  | eventRejected name text => s!"Twin rejected event {name}: {text}"
  | updateRejected name text => s!"Twin rejected update of {name}: {text}"
  | ignored type => "Ignoring unsolicited packet type 0x" ++ Bytes.hex2 type
  | connectionLost reason => "Connection lost: " ++ reason

end Remark

/-- The remark on a refused report to the twin. -/
def TwinCall.complaint (c : TwinCall) (text : String) : Remark :=
  match c.action with
  | .event => .eventRejected c.key text
  | _ => .updateRejected c.key text

end TwinLink
