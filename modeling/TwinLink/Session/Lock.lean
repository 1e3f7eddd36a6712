/-!
# Fair locks

* `Lock` : who holds the lock and who waits for it, in order;
* `Lock.acquire l id` : `id` takes the lock if it is free or was handed to it, else stands in line;
* `Lock.release l id` : `id` leaves; a lock given back goes to the head of the line.
-/

namespace TwinLink

/-- A lock that is handed on in the order it was asked for. -/
structure Lock where
  holder : Option Nat := none
  line : List Nat := []
deriving DecidableEq, Repr

namespace Lock

/-- Whether the lock is held by `id` after it has asked. -/
def acquire (l : Lock) (id : Nat) : Lock × Bool :=
  match l.holder with
  | none => ({ l with holder := some id }, true)
  | some h => if h = id then (l, true) else if l.line.contains id then (l, false)
      else ({ l with line := l.line ++ [id] }, false)

/-- `id` gives up the lock or its stand in line. The next holder is told. -/
def release (l : Lock) (id : Nat) : Lock × Option Nat :=
  if l.holder = some id then
    match l.line with
    | [] => ({ holder := none, line := [] }, none)
    | next :: rest => ({ holder := some next, line := rest }, some next)
  else ({ l with line := l.line.erase id }, none)

end Lock
end TwinLink
