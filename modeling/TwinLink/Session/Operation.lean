import TwinLink.Packet.Named
import TwinLink.Session.Error

/-!
# Operations

* `Operation` : what a caller can ask of an operational session;
* `Plan` : the request that an operation sends and how its reply is read;
* `Operation.plan` : the plan of an operation on a device, or why it has none;
* `Plan.result` : the text of a reply.
-/

namespace TwinLink

/-- What a caller can ask of an operational session. -/
inductive Operation
  | invoke (name input : String)
  | read (name : String)
  | write (name value : String)
deriving DecidableEq, Repr

/-- Commands exclude one another, and so do reads and writes of properties. -/
inductive OperationKind
  | command
  | read
  | write
deriving DecidableEq, Repr

namespace OperationKind

/-- The type of the request. -/
def request : OperationKind → PacketKind
  | command => .commandRequest
  | read => .propertyRequest
  | write => .propertyRequest

/-- The type of the reply. -/
def response : OperationKind → PacketKind
  | command => .commandResponse
  | read => .propertyNotification
  | write => .propertyNotification

end OperationKind

/-- The request that an operation sends, and how its reply is read. -/
structure Plan where
  kind : OperationKind
  interface : String
  name : String
  request : Packet
  result : Schema
deriving DecidableEq, Repr

/-- The plan for a field found on the device, `data` being the value sent along. -/
def Plan.make {α : Type} (kind : OperationKind) (name : String) (found : Located α) (data : Except SchemaError Bytes)
    (result : Schema) : Except SessionError Plan :=
  if found.index < 256 then
    match data with
    | .error e => .error (.schema e)
    | .ok data =>
      match (NamedPayload.mk (UInt8.ofNat found.index) name data).toPacket kind.request with
      | .error e => .error (.link (.frame e))
      | .ok request => .ok ⟨kind, found.interface.id, name, request, result⟩
  else .error (.indexOutOfRange found.index)

/-- The plan of an operation on a device. -/
def Operation.plan (d : Descriptor) : Operation → Except SessionError Plan
  | invoke name input =>
    match d.command? name with
    | none => .error (.unknownCommand name)
    | some found =>
      Plan.make .command name found (found.definition.request.toBytes input) found.definition.response
  | read name =>
    match d.property? name with
    | none => .error (.unknownProperty name)
    | some found => Plan.make .read name found (.ok []) found.definition.schema
  | write name value =>
    match d.property? name with
    | none => .error (.unknownProperty name)
    | some found =>
      if found.definition.writeable then
        Plan.make .write name found (found.definition.schema.toBytes value) found.definition.schema
      else .error (.notWriteable name)

/-- The text of a reply. -/
def Plan.read (p : Plan) (reply : Packet) : Except SessionError String :=
  match NamedPayload.decode reply.payload with
  | .error e => .error (.link (.frame e))
  | .ok payload => (p.result.toText payload.data).mapError .schema

end TwinLink
