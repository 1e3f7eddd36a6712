import TwinLink.Text.Utf8
import TwinLink.Text.Blank
import TwinLink.Number.FloatText

/-!
# Schemas: the types of values on the wire

* `Schema`, `Schema.code`, `Schema.ofCode?` : the value types and their codes in a descriptor;
* `Schema.width?` : the length of a value, for the types of fixed length;
* `Schema.toText` : the text of a value's bytes;
* `Schema.toBytes` : the bytes of a value's text.

Numbers are little-endian, signed ones in two's complement.
-/

namespace TwinLink

/-- The type of a value. `invalid` is the type of commands without an argument or a result. -/
inductive Schema
  | invalid
  | byte
  | float
  | double
  | int
  | long
  | boolean
  | string
deriving DecidableEq, Repr

namespace Schema

/-- The code of a type in a descriptor. -/
def code : Schema → Nat
  | invalid => 0
  | byte => 1
  | float => 2
  | double => 3
  | int => 4
  | long => 5
  | boolean => 6
  | string => 7

/-- The type of a code. -/
def ofCode? : Nat → Option Schema
  | 0 => some invalid
  | 1 => some byte
  | 2 => some float
  | 3 => some double
  | 4 => some int
  | 5 => some long
  | 6 => some boolean
  | 7 => some string
  | _ => none

/-- The name of a type in documents and messages. -/
def name : Schema → String
  | invalid => "Invalid"
  | byte => "Byte"
  | float => "Float"
  | double => "Double"
  | int => "Int"
  | long => "Long"
  | boolean => "Boolean"
  | string => "String"

@[simp] theorem ofCode?_code (s : Schema) : ofCode? s.code = some s := by
  cases s <;> rfl

theorem code_of_ofCode? {n : Nat} {s : Schema} (h : ofCode? n = some s) : s.code = n := by
  unfold ofCode? at h
  split at h <;> first | (cases h; rfl) | cases h

theorem code_le (s : Schema) : s.code ≤ 7 := by
  cases s <;> decide

/-- The length of a value; strings have none of their own. -/
def width? : Schema → Option Nat
  | invalid => some 0
  | byte => some 1
  | boolean => some 1
  | float => some 4
  | int => some 4
  | double => some 8
  | long => some 8
  | string => none

end Schema

/-- Why a value cannot be converted. -/
inductive SchemaError
  | lengthMismatch (schema : Schema) (expected actual : Nat)
  | invalidText (schema : Schema) (text : String)
  | invalidUtf8
deriving DecidableEq, Repr

/-- The message that reports a conversion error. -/
def SchemaError.message : SchemaError → String
  | .lengthMismatch schema expected actual =>
    schema.name ++ s!" value needs {expected} bytes, got {actual}"
  | .invalidText schema text => s!"'{text}' is not a valid " ++ schema.name ++ " value"
  | .invalidUtf8 => "string value is not valid UTF-8"

namespace Schema

/-- The integer that `bytes` spell in two's complement. -/
def signed (bytes : Bytes) : Int :=
  let n := Bytes.toNat bytes
  if 2 * n < Bytes.span bytes.length then n else (n : Int) - Bytes.span bytes.length

/-- The `w` bytes of an integer in two's complement. -/
def signedBytes (w : Nat) (i : Int) : Bytes := Bytes.ofNat w (i % Bytes.span w).toNat

/-- The text of a value whose length has been checked. -/
def textOf (s : Schema) (data : Bytes) : Except SchemaError String :=
  match s with
  | invalid => .ok ""
  | byte => .ok (String.ofList (Decimal.natText (Bytes.toNat data)))
  | boolean => .ok (if Bytes.toNat data = 0 then "false" else "true")
  | float => .ok (String.ofList (FloatText.write .single (Bytes.toNat data)))
  | double => .ok (String.ofList (FloatText.write .double (Bytes.toNat data)))
  | int => .ok (String.ofList (Decimal.intText (signed data)))
  | long => .ok (String.ofList (Decimal.intText (signed data)))
  | string =>
    match Text.ofUtf8? data with
    | some text => .ok text
    | none => .error .invalidUtf8

/-- The text of a value's bytes. -/
def toText (s : Schema) (data : Bytes) : Except SchemaError String :=
  match s.width? with
  | some w => if data.length = w then s.textOf data else .error (.lengthMismatch s w data.length)
  | none => s.textOf data

/-- An integer in `w` bytes, if it lies in their range. -/
def ranged? (w : Nat) (i : Int) : Option Bytes :=
  if -(Bytes.span w : Int) ≤ 2 * i ∧ 2 * i < Bytes.span w then some (signedBytes w i) else none

/-- The bytes of a value's text, if it is one. Blanks around it do not count, except in a string. -/
def bytesOf? (s : Schema) (text : String) : Option Bytes :=
  let cs := Text.trim text.toList
  match s with
  | invalid => some []
  | string => some (Text.utf8 text)
  | byte => (Decimal.readUnsigned? cs).bind fun n => if n < 256 then some (Bytes.ofNat 1 n) else none
  | boolean =>
    let word := String.ofList (cs.map Char.toLower)
    if word = "true" ∨ word = "1" then some [1]
    else if word = "false" ∨ word = "0" then some [0]
    else none
  | float => (FloatText.read? .single cs).map (Bytes.ofNat 4)
  | double => (FloatText.read? .double cs).map (Bytes.ofNat 8)
  | int => (Decimal.readSigned? cs).bind (ranged? 4)
  | long => (Decimal.readSigned? cs).bind (ranged? 8)

/-- The bytes of a value's text. -/
def toBytes (s : Schema) (text : String) : Except SchemaError Bytes :=
  match s.bytesOf? text with
  | some data => .ok data
  | none => .error (.invalidText s text)

end Schema
end TwinLink
