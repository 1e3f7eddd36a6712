import TwinLink.Actor

/-!
# Bounded channels

A sender that finds no place stands in line. A place given back goes to the head of the line at once, so a newcomer
never overtakes.

* `Channel α` : what is queued, who stands in line, who was given a place and has not used it yet;
* `Channel.offer c a x` : `a` tries to send `x`;
* `Channel.take? c` : the oldest element, and the sender that its place goes to;
* `Channel.withdraw c a` : `a` gives up;
* `Channel.close c` : from now on every offer is refused.
-/

namespace TwinLink

/-- A bounded queue with a line of senders waiting for a place. -/
structure Channel (α : Type) where
  capacity : Nat
  queue : List α := []
  line : List Actor := []
  granted : List Actor := []
  closed : Bool := false

/-- How an offer went. An offer that is `waiting` changes nothing. -/
inductive Admission
  | refused
  | admitted
  | queued
  | waiting
deriving DecidableEq, Repr

namespace Channel

variable {α : Type}

/-- A channel with at least one place. -/
def ofCapacity (n : Nat) : Channel α := { capacity := max n 1 }

/-- Places in use or promised. -/
def taken (c : Channel α) : Nat := c.queue.length + c.granted.length

/-- A newcomer finds a place only if nobody stands in line. -/
def hasRoom (c : Channel α) : Bool := c.line.isEmpty && c.taken < c.capacity

/-- An actor tries to send. -/
def offer (c : Channel α) (a : Actor) (x : α) : Channel α × Admission :=
  if c.closed then (c, .refused)
  else if c.granted.contains a then
    ({ c with granted := c.granted.erase a, queue := c.queue ++ [x] }, .admitted)
  else if c.line.contains a then (c, .waiting)
  else if c.hasRoom then ({ c with queue := c.queue ++ [x] }, .admitted)
  else ({ c with line := c.line ++ [a] }, .queued)

/-- Give a free place to the head of the line. -/
def grant (c : Channel α) : Channel α × Option Actor :=
  match c.line with
  | [] => (c, none)
  | a :: rest => ({ c with line := rest, granted := c.granted ++ [a] }, some a)

/-- The oldest element, and the sender that its place goes to. -/
def take? (c : Channel α) : Option (α × Channel α × Option Actor) :=
  match c.queue with
  | [] => none
  | x :: rest =>
    let (c', woken) := { c with queue := rest }.grant
    some (x, c', woken)

/-- An actor gives up its place or its stand in line; a place goes to the next. -/
def withdraw (c : Channel α) (a : Actor) : Channel α × Option Actor :=
  if c.granted.contains a then { c with granted := c.granted.erase a }.grant
  else ({ c with line := c.line.erase a }, none)

/-- Refuse every offer from now on. The senders in line are told. -/
def close (c : Channel α) : Channel α × List Actor :=
  ({ c with closed := true, line := [], granted := [] }, c.line)

/-- The receiver is gone, and with it what was queued. -/
def discard (c : Channel α) : Channel α × List Actor :=
  ({ c with closed := true, queue := [], line := [], granted := [] }, c.line)

end Channel
end TwinLink
