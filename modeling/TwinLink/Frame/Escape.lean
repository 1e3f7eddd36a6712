import TwinLink.Frame.Basic

/-!
# Escaping

* `Frame.escape bs` : `bs` with each marker and each escape mark written as an escape mark and the byte before it;
* `Frame.unescape w` : the bytes written by `w`; a run of escape marks counts once, one at the end not at all;
* `Frame.encode p` : the frame of the packet `p`;
* `Frame.Escaped w` : `w` is in the form that `escape` writes.
-/

namespace TwinLink.Frame

/-- A byte that cannot stand for itself inside a frame. -/
def reserved (b : UInt8) : Bool := b == marker || b == escapeMark

/-- Each reserved byte is written as an escape mark and the byte before it. -/
def escape : Bytes → Bytes
  | [] => []
  | b :: r => if reserved b then escapeMark :: (b - 1) :: escape r else b :: escape r

/-- Undo `escape`, `pending` telling whether an escape mark waits for its byte. -/
def unescapeFrom (pending : Bool) : Bytes → Bytes
  | [] => []
  | b :: r =>
    if b == escapeMark then unescapeFrom true r
    else (if pending then b + 1 else b) :: unescapeFrom false r

/-- The bytes that an escaped string stands for. -/
def unescape (w : Bytes) : Bytes := unescapeFrom false w

/-- The frame of a packet, ready for the wire. -/
def encode (packet : Bytes) : Bytes := marker :: escape packet

/-- No marker, and each escape mark followed by one of the two bytes that `escape` puts there. -/
def Escaped : Bytes → Prop
  | [] => True
  | [b] => reserved b = false
  | b :: c :: r => if b = escapeMark then (c = marker - 1 ∨ c = escapeMark - 1) ∧ Escaped r
      else b ≠ marker ∧ Escaped (c :: r)

end TwinLink.Frame
