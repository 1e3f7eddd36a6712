import TwinLink.Descriptor.Wire
import TwinLink.Link.Config

/-!
# Configuration of a session

* `SessionConfig` : the port's name, the descriptor revision, times in milliseconds and the link's own configuration.
-/

namespace TwinLink

/-- What a session is told before it starts. Times are in milliseconds. -/
structure SessionConfig where
  portName : String := ""
  revision : Revision := .v2
  requestTimeout : Nat := 5000
  handshakeRetries : Nat := 3
  retryDelay : Nat := 5000
  link : LinkConfig := {}
deriving DecidableEq, Repr

end TwinLink
