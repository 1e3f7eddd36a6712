import TwinLink.Descriptor.Basic

/-!
# The wire format of descriptors: revisions, tags and errors

A descriptor is a version byte, the display name, and interfaces. An interface is a marker, its identifier and records.
A record is a tag, three texts, and what its kind adds. Texts stand behind a one-byte length. The two revisions differ
in the marker and in the width of identifier lengths and schema codes.

* `Revision`, `Revision.marker`, `Revision.width` : the two revisions;
* `FieldKind.tag`, `FieldKind.ofTag?` : the tags of records;
* `DescriptorError`, `DescriptorError.message` : what can be wrong.
-/

namespace TwinLink

/-- The revisions of the format. A descriptor does not say which one it is in. -/
inductive Revision
  | v1
  | v2
deriving DecidableEq, Repr

namespace Revision

def name : Revision → String
  | v1 => "v1"
  | v2 => "v2"

/-- The byte that opens an interface. -/
def marker : Revision → UInt8
  | v1 => 0x04
  | v2 => 0x05

/-- The width of identifier lengths and of schema codes. -/
def width : Revision → Nat
  | v1 => 1
  | v2 => 2

end Revision

namespace FieldKind

/-- The byte that opens a record. -/
def tag : FieldKind → UInt8
  | command => 0x01
  | property => 0x02
  | event => 0x03

def ofTag? (b : UInt8) : Option FieldKind :=
  if b = 0x01 then some command
  else if b = 0x02 then some property
  else if b = 0x03 then some event
  else none

/-- Every byte up to this one is the tag of a record, or was meant to be. -/
def lastTag : UInt8 := 0x03

@[simp] theorem ofTag?_tag (k : FieldKind) : ofTag? k.tag = some k := by
  cases k <;> decide

end FieldKind

namespace Property

/-- The flags byte: bit 0 for writeable, bit 1 for required. -/
def flags (p : Property) : UInt8 :=
  (if p.writeable then 1 else 0) + (if p.required then 2 else 0)

end Property

/-- The texts of a descriptor that stand behind a length. -/
inductive TextPart
  | displayName
  | interfaceId
  | name
  | description
  | units
deriving DecidableEq, Repr

def TextPart.label : TextPart → String
  | displayName => "display name"
  | interfaceId => "interface id"
  | name => "name"
  | description => "description"
  | units => "units"

/-- What can be wrong with a descriptor. -/
inductive DescriptorError
  | truncated (offset needed available : Nat)
  | unknownRecord (offset : Nat) (value : UInt8)
  | unknownFieldType (offset : Nat) (value : UInt8)
  | unknownSchema (offset code : Nat)
  | invalidUtf8 (offset : Nat)
  | duplicateName (interface : String) (kind : FieldKind) (name : String)
  | fieldTooLong (part : TextPart) (length : Nat)
deriving DecidableEq, Repr

/-- The message that reports a descriptor error. -/
def DescriptorError.message : DescriptorError → String
  | .truncated offset needed available =>
    s!"descriptor truncated: needed {needed} bytes at offset {offset}, {available} available"
  | .unknownRecord offset value =>
    "unrecognized descriptor record 0x" ++ Bytes.hex2 value ++ s!" at offset {offset}"
  | .unknownFieldType offset value => "unknown field type 0x" ++ Bytes.hex2 value ++ s!" at offset {offset}"
  | .unknownSchema offset code => s!"unknown schema code {code} at offset {offset}"
  | .invalidUtf8 offset => s!"invalid UTF-8 string at offset {offset}"
  | .duplicateName interface kind name =>
    "duplicate " ++ kind.name ++ s!" '{name}' in interface '{interface}'"
  | .fieldTooLong part length => part.label ++ s!" of {length} bytes does not fit its length prefix"

end TwinLink
