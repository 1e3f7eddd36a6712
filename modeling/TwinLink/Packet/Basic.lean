import TwinLink.Frame.Basic

/-!
# Packets

* `PacketKind` : the packet types of the protocol; `PacketKind.code`, `PacketKind.ofCode?`;
* `Packet` : a type byte, known or not, and a payload;
* `Packet.toBytes`, `Packet.ofFrame` : a packet with its header, and back.
-/

namespace TwinLink

/-- The packet types of the protocol. -/
inductive PacketKind
  | resetRequest
  | resetResponse
  | descriptorRequest
  | descriptorResponse
  | commandRequest
  | commandResponse
  | propertyRequest
  | propertyNotification
  | eventNotification
deriving DecidableEq, Repr

namespace PacketKind

/-- The type byte. -/
def code : PacketKind → UInt8
  | resetRequest => 0x01
  | resetResponse => 0x02
  | descriptorRequest => 0x03
  | descriptorResponse => 0x04
  | commandRequest => 0x05
  | commandResponse => 0x06
  | propertyRequest => 0x07
  | propertyNotification => 0x08
  | eventNotification => 0x0A

/-- The packet type of a type byte. -/
def ofCode? (b : UInt8) : Option PacketKind :=
  if b = 0x01 then some resetRequest
  else if b = 0x02 then some resetResponse
  else if b = 0x03 then some descriptorRequest
  else if b = 0x04 then some descriptorResponse
  else if b = 0x05 then some commandRequest
  else if b = 0x06 then some commandResponse
  else if b = 0x07 then some propertyRequest
  else if b = 0x08 then some propertyNotification
  else if b = 0x0A then some eventNotification
  else none

/-- The name of a packet type in logs. -/
def name : PacketKind → String
  | resetRequest => "ResetRequest"
  | resetResponse => "ResetResponse"
  | descriptorRequest => "DescriptorRequest"
  | descriptorResponse => "DescriptorResponse"
  | commandRequest => "CommandRequest"
  | commandResponse => "CommandResponse"
  | propertyRequest => "PropertyRequest"
  | propertyNotification => "PropertyNotification"
  | eventNotification => "EventNotification"

@[simp] theorem ofCode?_code (k : PacketKind) : ofCode? k.code = some k := by
  cases k <;> decide

end PacketKind

/-- A packet whose header has been read. Its type byte need not be one that the protocol knows. -/
structure Packet where
  type : UInt8
  payload : Bytes
deriving DecidableEq, Repr

namespace Packet

/-- A packet of a known type. -/
def ofKind (kind : PacketKind) (payload : Bytes) : Packet := ⟨kind.code, payload⟩

/-- A packet that is nothing but its header. -/
def bare (kind : PacketKind) : Packet := ofKind kind []

/-- The packet type, if the type byte is known. -/
def kind? (p : Packet) : Option PacketKind := PacketKind.ofCode? p.type

/-- The length of header and payload together. -/
def totalLength (p : Packet) : Nat := Frame.headerSize + p.payload.length

/-- Header and payload. The length field holds the low sixteen bits of the length. -/
def toBytes (p : Packet) : Bytes := Bytes.ofNat 2 p.totalLength ++ p.type :: 0 :: p.payload

/-- The packet in a complete frame. -/
def ofFrame : Bytes → Except FrameError Packet
  | lo :: hi :: type :: reserved :: payload =>
    let actual := (lo :: hi :: type :: reserved :: payload).length
    if Frame.declared lo hi = actual then .ok ⟨type, payload⟩
    else .error (.lengthMismatch (Frame.declared lo hi) actual)
  | short => .error (.malformedHeader short.length)

end Packet
end TwinLink
