import TwinLink.Host.Run

/-!
# Scenarios

A scenario plays the device and the callers against a host, one step at a time, and reports after each step what has
come of it. Calls and registrations go by labels.

* `Step` : what can be done;
* `Outcome` : what a step gives at once;
* `Report` : everything that can be seen after a step;
* `Play` : a host with the labels in use and how much of it has been reported.
-/

namespace TwinLink.Scenario

/-- What can be done in one step. -/
inductive Step
  | device (bytes : Bytes)
  | hangUp
  | breakRead (text : String)
  | breakWrite (text : String)
  | advance (ms : Nat)
  | status
  | call (label : String) (r : Request)
  | cancel (label : String)
  | register (label : String) (type : UInt8) (matcher : Matcher)
  | wait (label : String) (limit : Option Nat)
  | withdraw (label : String)
  | forward (on : Bool)
  | drain (most : Option Nat)
  | dropListener
  | dropHandle
  | observe
  | info
  | descriptor

/-- Why a step could not be done. -/
inductive Obstacle
  | gone
  | hungUp
  | hostClosed
  | noSuchLabel
  | notBound
deriving DecidableEq, Repr

/-- An event taken from a link, or the end of all events. -/
inductive Drained
  | event (e : LinkEvent)
  | finished

/-- A snapshot of a session. -/
structure Info where
  portName : String
  phase : Phase
  deviceName : Option String
  version : Option UInt8
  interfaces : List String
  started : Bool

/-- What a step gives at once. -/
inductive Outcome
  | nothing
  | impossible (o : Obstacle)
  | failed (e : LinkError)
  | registered (type : UInt8)
  | cancelled (wasRunning : Bool)
  | drained (events : List Drained)
  | info (i : Info)
  | descriptor (d : Option Descriptor)

/-- What has come of a call since the last report: what it did, and when and how it ended if it has. -/
structure CallNews where
  label : String
  trace : List Happening
  ending : Option (Nat × Answer)

/-- Everything that can be seen after a step. What needs a handle is missing without one. -/
structure Report where
  outcome : Outcome
  calls : List CallNews
  loop : List Happening
  dispatcher : List Happening
  written : Bytes
  closedByHost : Bool
  phase : Phase
  pending : Option Nat
  closed : Option Bool
  metrics : Option Metrics

/-- A host with the labels in use and how much of it has been reported. `labels` knows every call ever made, `current`
only those that a step can still name. `watching` tells whether the metrics have come into view, which takes a handle
on a link that runs; from then on they stay in view. -/
structure Play where
  host : Host
  labels : List (Nat × String) := []
  current : List (String × Nat) := []
  tickets : List (String × Ticket) := []
  listening : Bool := true
  reportedNotes : Nat := 0
  reportedBytes : Nat := 0
  closedByHost : Bool := false
  watching : Bool := false

end TwinLink.Scenario
