import TwinLink.Schema

/-!
# Device descriptors

* `Command`, `Property`, `Event` : the fields that an interface offers, each with its naming in a `Field`;
* `Interface`, `Descriptor` : an interface and the self-description of a device;
* `Record` : one field of an interface, whatever its kind; `Interface.ofRecords` sorts records by kind,
  `Interface.records` lists them again, commands first;
* `Descriptor.command?`, `Descriptor.property?`, `Descriptor.event?` : the first field of a name, with its interface.
-/

namespace TwinLink

/-- The naming that commands, properties and events share. -/
structure Field where
  name : String
  displayName : String
  description : String
deriving DecidableEq, Repr

/-- A command that a device carries out. -/
structure Command where
  field : Field
  request : Schema
  response : Schema
deriving DecidableEq, Repr

/-- A value that a device keeps. -/
structure Property where
  field : Field
  units : String
  required : Bool
  writeable : Bool
  schema : Schema
deriving DecidableEq, Repr

/-- A value that a device sends of its own accord. -/
structure Event where
  field : Field
  units : String
  schema : Schema
deriving DecidableEq, Repr

def Command.name (c : Command) : String := c.field.name

def Property.name (p : Property) : String := p.field.name

def Event.name (e : Event) : String := e.field.name

/-- The fields that a device offers under one identifier. -/
structure Interface where
  id : String
  properties : List Property
  commands : List Command
  events : List Event
deriving DecidableEq, Repr

/-- What a device says about itself. -/
structure Descriptor where
  version : UInt8
  displayName : String
  interfaces : List Interface
deriving DecidableEq, Repr

/-! ## Records -/

/-- The kinds of field. -/
inductive FieldKind
  | command
  | property
  | event
deriving DecidableEq, Repr

/-- The name of a kind in messages. -/
def FieldKind.name : FieldKind → String
  | command => "command"
  | property => "property"
  | event => "event"

/-- One field of an interface. -/
inductive Record
  | command (c : Command)
  | property (p : Property)
  | event (e : Event)
deriving DecidableEq, Repr

namespace Record

def kind : Record → FieldKind
  | command _ => .command
  | property _ => .property
  | event _ => .event

def field : Record → Field
  | command c => c.field
  | property p => p.field
  | event e => e.field

def command? : Record → Option Command
  | command c => some c
  | _ => none

def property? : Record → Option Property
  | property p => some p
  | _ => none

def event? : Record → Option Event
  | event e => some e
  | _ => none

/-- Two records that one interface cannot have together. -/
def clashes (r : Record) (kind : FieldKind) (name : String) : Bool :=
  r.kind == kind && r.field.name == name

end Record

namespace Interface

/-- The records sorted by kind, each kind in the order given. -/
def ofRecords (id : String) (rs : List Record) : Interface where
  id := id
  properties := rs.filterMap Record.property?
  commands := rs.filterMap Record.command?
  events := rs.filterMap Record.event?

/-- Every field: commands, then properties, then events. -/
def records (i : Interface) : List Record :=
  i.commands.map .command ++ i.properties.map .property ++ i.events.map .event

/-! ## Lookup -/

def command? (i : Interface) (name : String) : Option Command := i.commands.find? (·.name == name)

def property? (i : Interface) (name : String) : Option Property := i.properties.find? (·.name == name)

def event? (i : Interface) (name : String) : Option Event := i.events.find? (·.name == name)

end Interface

/-- A field with the interface that offers it and the position of that interface. -/
structure Located (α : Type) where
  index : Nat
  interface : Interface
  definition : α
deriving DecidableEq, Repr

namespace Descriptor

/-- The first interface, counting from `index`, in which `lookup` finds something. -/
def locateFrom {α : Type} (lookup : Interface → Option α) (index : Nat) : List Interface → Option (Located α)
  | [] => none
  | i :: rest =>
    match lookup i with
    | some definition => some ⟨index, i, definition⟩
    | none => locateFrom lookup (index + 1) rest

/-- The first interface in which `lookup` finds something. -/
def locate {α : Type} (d : Descriptor) (lookup : Interface → Option α) : Option (Located α) :=
  locateFrom lookup 0 d.interfaces

def command? (d : Descriptor) (name : String) : Option (Located Command) := d.locate (·.command? name)

def property? (d : Descriptor) (name : String) : Option (Located Property) := d.locate (·.property? name)

def event? (d : Descriptor) (name : String) : Option (Located Event) := d.locate (·.event? name)

def interfaceIds (d : Descriptor) : List String := d.interfaces.map (·.id)

/-- The interface that a notification means: the one it names by index, if `lookup` finds something there, else the
first in which it does. -/
def resolve {α : Type} (d : Descriptor) (lookup : Interface → Option α) (index : Nat) : Option (Interface × α) :=
  match d.interfaces[index]?.bind fun i => (lookup i).map (i, ·) with
  | some found => some found
  | none => (d.locate lookup).map fun l => (l.interface, l.definition)

end Descriptor
end TwinLink
