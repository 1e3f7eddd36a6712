import TwinLink.Frame.Basic

/-!
# Configuration of the link

* `LinkConfig` : sizes of frames, reads and queues, and whether unmatched packets are passed on from the start.
-/

namespace TwinLink

/-- Sizes and switches of a link. -/
structure LinkConfig where
  maxFrameSize : Nat := Frame.defaultLimit
  eventCapacity : Nat := 256
  commandCapacity : Nat := 64
  readChunk : Nat := 512
  forwardUnsolicited : Bool := true
deriving DecidableEq, Repr

end TwinLink
