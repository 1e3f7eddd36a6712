import TwinLink.Link.Error
import TwinLink.Packet.Named

/-!
# The table of waiters

* `Matcher` : what a packet must satisfy besides its type;
* `Waiter` : a registration for one packet; `Waiter.accepts`;
* `WaitTable` : the registrations still open, oldest first;
* `WaitTable.register`, `WaitTable.cancel`, `WaitTable.close` : open one, withdraw one, end all;
* `WaitTable.takeMatch?` : the oldest registration that accepts a packet.
-/

namespace TwinLink

/-- What a packet must satisfy besides its type. Devices do not echo the interface index, so it plays no part. -/
inductive Matcher
  | any
  | named (name : String)
deriving DecidableEq, Repr

/-- A named matcher wants a named payload of that name. -/
def Matcher.accepts (m : Matcher) (p : Packet) : Bool :=
  match m with
  | any => true
  | named name =>
    match NamedPayload.decode p.payload with
    | .ok payload => payload.name == name
    | .error _ => false

/-- A registration for one packet. -/
structure Waiter where
  id : Nat
  type : UInt8
  matcher : Matcher
deriving DecidableEq, Repr

def Waiter.accepts (w : Waiter) (p : Packet) : Bool := w.type == p.type && w.matcher.accepts p

/-- The registrations still open, oldest first, and why no more are taken if none are. -/
structure WaitTable where
  entries : List Waiter := []
  nextId : Nat := 0
  closed : Option String := none
deriving DecidableEq, Repr

namespace WaitTable

/-- Open a registration, giving its number. A closed table takes none. -/
def register (t : WaitTable) (type : UInt8) (matcher : Matcher) : Except LinkError (WaitTable × Nat) :=
  match t.closed with
  | some reason => .error (.closed reason)
  | none => .ok ({ t with entries := t.entries ++ [⟨t.nextId, type, matcher⟩], nextId := t.nextId + 1 }, t.nextId)

/-- The oldest registration that accepts a packet, and the table without it. -/
def takeMatch? (t : WaitTable) (p : Packet) : Option (Waiter × WaitTable) :=
  match t.entries.find? (·.accepts p) with
  | none => none
  | some w => some (w, { t with entries := t.entries.eraseP (·.accepts p) })

/-- Withdraw a registration. -/
def cancel (t : WaitTable) (id : Nat) : WaitTable :=
  { t with entries := t.entries.filter fun w => w.id != id }

/-- End every registration. The first reason is kept. -/
def close (t : WaitTable) (reason : String) : WaitTable × List Waiter :=
  ({ t with entries := [], closed := some (t.closed.getD reason) }, t.entries)

end WaitTable
end TwinLink
