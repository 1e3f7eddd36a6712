import TwinLink.Descriptor.Wire
import TwinLink.Link.Error
import TwinLink.Session.Phase

/-!
# Errors of a session

* `SessionError` : why an operation of a session failed; `SessionError.message`;
* `SessionError.isFatal` : whether the session can still be used after it.
-/

namespace TwinLink

/-- Why an operation of a session failed. -/
inductive SessionError
  | notOperational (phase : Phase)
  | alreadyStarted
  | unknownCommand (name : String)
  | unknownProperty (name : String)
  | unknownEvent (name : String)
  | notWriteable (name : String)
  | descriptor (e : DescriptorError)
  | schema (e : SchemaError)
  | link (e : LinkError)
  | twin (text : String)
  | indexOutOfRange (index : Nat)
  | faulted (text : String)
deriving DecidableEq, Repr

namespace SessionError

/-- The message that reports a session error. -/
def message : SessionError → String
  | notOperational phase => "Session is not operational (state: " ++ phase.name ++ ")"
  | alreadyStarted => "Session already started"
  | unknownCommand name => "Unknown command: " ++ name
  | unknownProperty name => "Unknown property: " ++ name
  | unknownEvent name => "Unknown event: " ++ name
  | notWriteable name => "Property is not writeable: " ++ name
  | descriptor e => "Malformed descriptor: " ++ e.message
  | schema e => "Value conversion failed: " ++ e.message
  | link e => "Serial communication error: " ++ e.message
  | twin text => "Twin client error: " ++ text
  | indexOutOfRange index => s!"Interface index {index} does not fit the packet format"
  | faulted text => "Session faulted: " ++ text

/-- Whether the session can no longer be used. -/
def isFatal : SessionError → Bool
  | descriptor _ => true
  | faulted _ => true
  | link e => e.isFatal
  | _ => false

end SessionError
end TwinLink
