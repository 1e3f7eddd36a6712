import TwinLink.Descriptor.Wire

/-!
# Writing descriptors

* `Descriptor.toBytes r d` : the bytes that write `d` in revision `r`, or the first text too long for its length;
* `Record.toBytes r x` : the bytes of one record, its tag in front.
-/

namespace TwinLink

namespace Schema

/-- A schema code in the width of the revision. -/
def codeBytes (r : Revision) (s : Schema) : Bytes := Bytes.ofNat r.width s.code

end Schema

/-- A text behind a length of `w` bytes. -/
def TextPart.toBytes (part : TextPart) (w : Nat) (s : String) : Except DescriptorError Bytes :=
  let bytes := Text.utf8 s
  if bytes.length < Bytes.span w then .ok (Bytes.ofNat w bytes.length ++ bytes)
  else .error (.fieldTooLong part bytes.length)

/-- The three texts that open every record. -/
def Field.toBytes (f : Field) : Except DescriptorError Bytes := do
  let name ← TextPart.name.toBytes 1 f.name
  let displayName ← TextPart.displayName.toBytes 1 f.displayName
  let description ← TextPart.description.toBytes 1 f.description
  return name ++ displayName ++ description

/-- The bytes of one record, its tag in front. -/
def Record.toBytes (r : Revision) (x : Record) : Except DescriptorError Bytes := do
  let field ← x.field.toBytes
  match x with
  | command c => return x.kind.tag :: (field ++ c.request.codeBytes r ++ c.response.codeBytes r)
  | property p =>
    let units ← TextPart.units.toBytes 1 p.units
    return x.kind.tag :: (field ++ units ++ p.schema.codeBytes r ++ [p.flags])
  | event e =>
    let units ← TextPart.units.toBytes 1 e.units
    return x.kind.tag :: (field ++ units ++ e.schema.codeBytes r)

/-- The bytes of one interface, its marker in front. -/
def Interface.toBytes (r : Revision) (i : Interface) : Except DescriptorError Bytes := do
  let id ← TextPart.interfaceId.toBytes r.width i.id
  let records ← i.records.mapM (Record.toBytes r)
  return r.marker :: (id ++ records.flatten)

/-- The bytes that write a descriptor in one revision, or the first text too long for its length. -/
def Descriptor.toBytes (r : Revision) (d : Descriptor) : Except DescriptorError Bytes := do
  let name ← TextPart.displayName.toBytes 1 d.displayName
  let interfaces ← d.interfaces.mapM (Interface.toBytes r)
  return d.version :: (name ++ interfaces.flatten)

end TwinLink
