import TwinLink.Packet.Basic
import TwinLink.Text.Utf8

/-!
# Named payloads

The payload of a command, property or event packet: the index of an interface, a field name behind a one-byte length,
and the value bytes.

* `NamedPayload.encode`, `NamedPayload.decode` : to bytes and back;
* `NamedPayload.toPacket` : the packet that carries it.
-/

namespace TwinLink

/-- An interface index, a field name and the bytes of a value. -/
structure NamedPayload where
  index : UInt8
  name : String
  data : Bytes
deriving DecidableEq, Repr

namespace NamedPayload

/-- Index, length of the name, name, value. -/
def encode (p : NamedPayload) : Except FrameError Bytes :=
  let name := Text.utf8 p.name
  if name.length < 256 then .ok (p.index :: UInt8.ofNat name.length :: (name ++ p.data))
  else .error (.nameTooLong name.length)

/-- Read index and name; the bytes after the name are the value. -/
def decode : Bytes → Except FrameError NamedPayload
  | index :: size :: rest =>
    let name := rest.take size.toNat
    if name.length < size.toNat then .error (.truncated 2 size.toNat name.length)
    else match Text.ofUtf8? name with
      | some text => .ok ⟨index, text, rest.drop size.toNat⟩
      | none => .error .invalidName
  | short => .error (.truncated 0 2 short.length)

/-- The packet of a known type that carries the payload. -/
def toPacket (p : NamedPayload) (kind : PacketKind) : Except FrameError Packet :=
  p.encode.map (Packet.ofKind kind)

end NamedPayload
end TwinLink
