import TwinLink.Frame.Basic

/-!
# Errors of the link

* `LinkError` : why a request over the link failed; `LinkError.message`;
* `LinkError.isFatal` : whether it ended the connection, not only the request.
-/

namespace TwinLink

/-- Why a request over the link failed. -/
inductive LinkError
  | portNotFound (text : String)
  | connectionFailed (text : String)
  | timeout
  | closed (reason : String)
  | frame (e : FrameError)
  | violation (text : String)
  | io (text : String)
deriving DecidableEq, Repr

namespace LinkError

/-- The message that reports a link error. -/
def message : LinkError → String
  | portNotFound text => "Port not found: " ++ text
  | connectionFailed text => "Connection failed: " ++ text
  | timeout => "Communication timeout"
  | closed reason => "Transport closed: " ++ reason
  | frame e => "Frame error: " ++ e.message
  | violation text => "Protocol error: " ++ text
  | io text => "IO error: " ++ text

/-- Whether the error ended the connection, not only the request. -/
def isFatal : LinkError → Bool
  | timeout => false
  | violation _ => false
  | _ => true

end LinkError
end TwinLink
