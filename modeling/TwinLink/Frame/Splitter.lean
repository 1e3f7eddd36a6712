import TwinLink.Frame.Decoder

/-!
# Splitting a whole stream at once

The frames and errors of a stream read without a decoder: the stream is cut at each marker, each segment is unescaped,
and what comes out is cut greedily by the lengths that it declares.

* `Splitter.segments w` : the stretches between markers;
* `Splitter.split limit bs` : the frames and errors in one unescaped segment, and the bytes left over;
* `Splitter.splitStream limit w` : the same for the whole stream.
-/

namespace TwinLink.Splitter

open Decoder (Outcome)

/-- The stretches between markers. There is always at least one. -/
def segments : Bytes → List Bytes
  | [] => [[]]
  | b :: r =>
    match segments r with
    | [] => [[]]
    | s :: rest => if b == Frame.marker then [] :: s :: rest else (b :: s) :: rest

/-- Cut one unescaped segment by the lengths that it declares. A wrong length costs the four bytes of its header. -/
def split (limit : Nat) (bs : Bytes) : List Outcome × Bytes :=
  match bs with
  | lo :: hi :: t :: r :: rest =>
    let n := Frame.declared lo hi
    if n < Frame.headerSize then
      let (out, left) := split limit rest
      (.failed (.malformedHeader n) :: out, left)
    else if limit < n then
      let (out, left) := split limit rest
      (.failed (.overflow n limit) :: out, left)
    else if n ≤ bs.length then
      let (out, left) := split limit (rest.drop (n - Frame.headerSize))
      (.frame (lo :: hi :: t :: r :: rest.take (n - Frame.headerSize)) :: out, left)
    else ([], bs)
  | short => ([], short)
termination_by bs.length
decreasing_by all_goals simp; try omega

/-- The frames and errors of a whole stream, and the bytes left over in its last segment. -/
def splitStream (limit : Nat) (w : Bytes) : List Outcome × Bytes :=
  ((segments w).map fun s => split limit (Frame.unescape s)).foldl
    (fun done next => (done.1 ++ next.1, next.2)) ([], [])

end TwinLink.Splitter
