import TwinLink.Bytes

/-!
# Frames: sizes, markers and the ways a frame can be wrong

A frame on the wire is the start marker followed by the escaped packet. The packet opens with its own length in two
little-endian bytes, so no frame is shorter than `headerSize` or longer than `maxLength`.
-/

namespace TwinLink

namespace Frame

/-- The byte that opens every frame and occurs nowhere else on the wire. -/
def marker : UInt8 := 0x5A

/-- The byte that announces an escaped byte. -/
def escapeMark : UInt8 := 0xEF

/-- The length of a packet header, and so of the shortest packet. -/
def headerSize : Nat := 4

/-- The largest length that the two length bytes can spell. -/
def maxLength : Nat := 65535

/-- The frame limit of a decoder that asks for none. -/
def defaultLimit : Nat := 4096

/-- The length spelled by the first two bytes of a packet. -/
def declared (lo hi : UInt8) : Nat := lo.toNat + 256 * hi.toNat

end Frame

/-- What can be wrong with a frame or with the named payload in it. -/
inductive FrameError
  | overflow (length capacity : Nat)
  | malformedHeader (length : Nat)
  | lengthMismatch (declared actual : Nat)
  | truncated (offset needed available : Nat)
  | nameTooLong (length : Nat)
  | invalidName
deriving DecidableEq, Repr

/-- The message that reports a frame error. -/
def FrameError.message : FrameError → String
  | .overflow length capacity => s!"frame declares {length} bytes, receive buffer holds {capacity}"
  | .malformedHeader length => s!"malformed header: length {length} is shorter than the 4 byte header"
  | .lengthMismatch declared actual => s!"frame length mismatch: header says {declared}, got {actual}"
  | .truncated offset needed available =>
    s!"payload truncated: needed {needed} bytes at offset {offset}, {available} available"
  | .nameTooLong length => s!"name of {length} bytes does not fit a 1 byte length prefix"
  | .invalidName => "invalid UTF-8 in name field"

end TwinLink
