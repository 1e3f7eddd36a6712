import TwinLink.Frame.Escape

/-!
# The streaming frame decoder

* `Decoder` : the frame in progress and whether an escape mark is pending; `Decoder.ofLimit` starts one;
* `Decoder.feed d b` : take one byte of the wire, perhaps completing a frame or finding it wrong;
* `Decoder.feedAll d w` : every byte, going on after errors;
* `Decoder.feedChunk d w` : up to the first error, with the frames completed before it;
* `Decoder.feedSlice d w` : the frames of a chunk, or its first error alone.
-/

namespace TwinLink

/-- The frame in progress: its bytes so far, without escapes. -/
structure Decoder where
  limit : Nat
  held : Array UInt8 := #[]
  pending : Bool := false

namespace Decoder

/-- What one byte brings about. -/
inductive Outcome
  | more
  | frame (packet : Bytes)
  | failed (error : FrameError)
deriving DecidableEq, Repr

/-- A limit is brought into the range of lengths that a packet can have. -/
def clamp (limit : Nat) : Nat := max Frame.headerSize (min limit Frame.maxLength)

/-- A decoder at the start of the stream. -/
def ofLimit (limit : Nat) : Decoder := { limit := clamp limit }

/-- The decoder as it stands between frames. -/
def reset (d : Decoder) : Decoder := { limit := d.limit }

/-- The length that the bytes so far declare. -/
def declared? (held : Array UInt8) : Option Nat :=
  if held.size < Frame.headerSize then none
  else some (Frame.declared (held.getD 0 0) (held.getD 1 0))

/-- Take one byte of the packet itself. The length is checked as soon as the header is complete. -/
def accept : Decoder → UInt8 → Decoder × Outcome
  | ⟨limit, held, _⟩, b =>
    let held := held.push b
    match declared? held with
    | none => (⟨limit, held, false⟩, .more)
    | some n =>
      if n < Frame.headerSize then (⟨limit, #[], false⟩, .failed (.malformedHeader n))
      else if limit < n then (⟨limit, #[], false⟩, .failed (.overflow n limit))
      else if held.size = n then (⟨limit, #[], false⟩, .frame held.toList)
      else (⟨limit, held, false⟩, .more)

/-- Take one byte of the wire. A marker discards whatever was in progress. -/
def feed (d : Decoder) (b : UInt8) : Decoder × Outcome :=
  if b == Frame.marker then (d.reset, .more)
  else if b == Frame.escapeMark then ({ d with pending := true }, .more)
  else if d.pending then d.accept (b + 1)
  else d.accept b

/-- The outcomes of every byte, with the position of each outcome that is a frame or an error. -/
def feedAllFrom (d : Decoder) (position : Nat) : Bytes → Decoder × List (Nat × Outcome)
  | [] => (d, [])
  | b :: r =>
    match d.feed b with
    | (d', .more) => d'.feedAllFrom (position + 1) r
    | (d', outcome) =>
      let (d'', rest) := d'.feedAllFrom (position + 1) r
      (d'', (position, outcome) :: rest)

/-- Feed every byte, going on after errors. -/
def feedAll (d : Decoder) (w : Bytes) : Decoder × List (Nat × Outcome) := d.feedAllFrom 0 w

/-- Feed bytes up to the first error. The frames completed before it are kept, newest first in `done`. -/
def feedChunkFrom (d : Decoder) (done : List Bytes) : Bytes → Decoder × List Bytes × Option FrameError
  | [] => (d, done.reverse, none)
  | b :: r =>
    match d.feed b with
    | (d', .more) => d'.feedChunkFrom done r
    | (d', .frame p) => d'.feedChunkFrom (p :: done) r
    | (d', .failed e) => (d', done.reverse, some e)

/-- The frames completed by a chunk, up to its first error. -/
def feedChunk (d : Decoder) (w : Bytes) : Decoder × List Bytes × Option FrameError := d.feedChunkFrom [] w

/-- The frames completed by a chunk without errors. With an error the frames completed before it are lost. -/
def feedSlice (d : Decoder) (w : Bytes) : Decoder × Except FrameError (List Bytes) :=
  match d.feedChunk w with
  | (d', frames, none) => (d', .ok frames)
  | (d', _, some e) => (d', .error e)

/-- The number of bytes held for the frame in progress. -/
def buffered (d : Decoder) : Nat := d.held.size

end Decoder
end TwinLink
