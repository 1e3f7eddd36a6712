/-!
# Actors

* `Actor` : who can act on the host: the receive loop, the dispatcher, or a call by its number.
-/

namespace TwinLink

/-- Who can act on the host. Calls are numbered in the order they were made. -/
inductive Actor
  | loop
  | dispatcher
  | call (id : Nat)
deriving DecidableEq, Repr

end TwinLink
