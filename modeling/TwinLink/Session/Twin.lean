import TwinLink.Descriptor.Basic

/-!
# The twin

A twin stands for the device elsewhere. A session publishes the device's interfaces to it and reports events and
property values.

* `TwinCall` : what a session asks of the twin;
* `Verdict` : how long the twin takes over a call, and whether it refuses;
* `Twin` : a verdict on every call, given the calls before it and what became of them;
* `Twin.scripted` : a twin with a list of refusals and fixed delays;
* `Descriptor.registration` : the calls that make a device known to the twin.
-/

namespace TwinLink

/-- What a session asks of the twin. -/
inductive TwinCall
  | publish (interface : String)
  | bind (interface : String)
  | event (interface name value : String)
  | property (interface name value : String)
deriving DecidableEq, Repr

/-- The kinds of call. -/
inductive TwinAction
  | publish
  | bind
  | event
  | property
deriving DecidableEq, Repr

def TwinAction.name : TwinAction → String
  | publish => "publish"
  | bind => "bind"
  | event => "event"
  | property => "property"

namespace TwinCall

def action : TwinCall → TwinAction
  | publish _ => .publish
  | bind _ => .bind
  | event .. => .event
  | property .. => .property

/-- What a call is about: an interface or a field. -/
def key : TwinCall → String
  | publish id => id
  | bind id => id
  | event _ name _ => name
  | property _ name _ => name

def isBind : TwinCall → Bool
  | bind _ => true
  | _ => false

end TwinCall

/-- How long a call takes, in milliseconds, and the text of the refusal if it is refused. -/
structure Verdict where
  delay : Nat := 0
  refusal : Option String := none
deriving DecidableEq, Repr

def Verdict.accepts (v : Verdict) : Bool := v.refusal.isNone

/-- A verdict on every call, given the calls before it with their verdicts, newest first. -/
abbrev Twin := List (TwinCall × Verdict) → TwinCall → Verdict

/-- The same call was made before and accepted. -/
def TwinCall.wasAccepted (c : TwinCall) (past : List (TwinCall × Verdict)) : Bool :=
  past.any fun x => x.1 == c && x.2.accepts

/-- A twin with a list of refusals and fixed delays. It publishes no interface twice. -/
def Twin.scripted (refused : List (TwinAction × String)) (publishDelay updateDelay : Nat) : Twin :=
  fun past call =>
    if call.action = .publish ∧ call.wasAccepted past then
      { refusal := some ("interface " ++ call.key ++ " already published") }
    else if (call.action, call.key) ∈ refused then
      { refusal := some (call.action.name ++ " refused for " ++ call.key) }
    else match call.action with
      | .publish => { delay := publishDelay }
      | .bind => {}
      | .event => { delay := updateDelay }
      | .property => { delay := updateDelay }

/-- Each interface in order is published, then bound. -/
def Descriptor.registration (d : Descriptor) : List TwinCall :=
  d.interfaces.flatMap fun i => [.publish i.id, .bind i.id]

end TwinLink
