import TwinLink.Number.Decimal

/-!
# Reading JSON

* `JsonValue` : a value. Numbers are kept only if they are whole, without sign, point or exponent. A string that escapes
  half of a surrogate pair is well-formed but has no text: `garbled`;
* `JsonValue.parse? cs` : the value that the whole text writes.
-/

namespace TwinLink

/-- A JSON value, as far as it can be used for settings. -/
inductive JsonValue
  | null
  | bool (b : Bool)
  | whole (n : Nat)
  | number
  | text (s : String)
  | garbled
  | array (items : List JsonValue)
  | object (fields : List (Option String × JsonValue))

namespace JsonValue

/-- Blanks between tokens. -/
def isSpace (c : Char) : Bool := c == ' ' || c == '\n' || c == '\t' || c == '\r'

def skip (cs : List Char) : List Char := cs.dropWhile isSpace

/-! ## Strings -/

/-- A character of a string: itself, or the UTF-16 unit of an escape. -/
inductive Piece
  | char (c : Char)
  | unit (n : Nat)

/-- The value of a hexadecimal digit in either case. -/
def hexValue? (c : Char) : Option Nat :=
  if '0' ≤ c ∧ c ≤ '9' then some (c.toNat - 48)
  else if 'a' ≤ c ∧ c ≤ 'f' then some (c.toNat - 87)
  else if 'A' ≤ c ∧ c ≤ 'F' then some (c.toNat - 55)
  else none

/-- The unit of a four-digit escape. -/
def unit? (a b c d : Char) : Option Nat := do
  let a ← hexValue? a
  let b ← hexValue? b
  let c ← hexValue? c
  let d ← hexValue? d
  return ((a * 16 + b) * 16 + c) * 16 + d

/-- The character of a one-letter escape. -/
def escaped? (c : Char) : Option Char :=
  if c = '"' ∨ c = '\\' ∨ c = '/' then some c
  else if c = 'b' then some '\x08'
  else if c = 'f' then some '\x0c'
  else if c = 'n' then some '\n'
  else if c = 'r' then some '\r'
  else if c = 't' then some '\t'
  else none

/-- The pieces of a string after its opening quote, and what follows the closing one. -/
def pieces? : List Char → Option (List Piece × List Char)
  | [] => none
  | '"' :: r => some ([], r)
  | '\\' :: 'u' :: a :: b :: c :: d :: r => do
    let n ← unit? a b c d
    let (ps, r) ← pieces? r
    return (.unit n :: ps, r)
  | '\\' :: c :: r => do
    let c ← escaped? c
    let (ps, r) ← pieces? r
    return (.char c :: ps, r)
  | c :: r => do
    if c.toNat < 32 ∨ c = '\\' then none
    let (ps, r) ← pieces? r
    return (.char c :: ps, r)

/-- A unit that must be followed by a low one. -/
def isHigh (n : Nat) : Bool := 0xD800 ≤ n && n ≤ 0xDBFF

/-- A unit that must follow a high one. -/
def isLow (n : Nat) : Bool := 0xDC00 ≤ n && n ≤ 0xDFFF

/-- The text of pieces, if the surrogates among them are paired. -/
def join? : List Piece → Option (List Char)
  | [] => some []
  | .char c :: r => (join? r).map (c :: ·)
  | .unit high :: .unit low :: r =>
    if isHigh high then
      if isLow low then (join? r).map (Char.ofNat (0x10000 + (high - 0xD800) * 1024 + (low - 0xDC00)) :: ·) else none
    else if isLow high then none
    else (join? (.unit low :: r)).map (Char.ofNat high :: ·)
  | .unit n :: r =>
    if isHigh n || isLow n then none else (join? r).map (Char.ofNat n :: ·)

/-- The text of a string after its opening quote, if it has one. -/
def string? (cs : List Char) : Option (Option String × List Char) := do
  let (ps, r) ← pieces? cs
  return ((join? ps).map String.ofList, r)

/-! ## Numbers -/

def isDigit (c : Char) : Bool := (Decimal.digit? c).isSome

/-- One or more digits at the front. -/
def digits? (cs : List Char) : Option (List Char × List Char) :=
  let ds := cs.takeWhile isDigit
  if ds.isEmpty then none else some (ds, cs.dropWhile isDigit)

/-- The digits of a whole number, with no zero in front of others. -/
def integer? : List Char → Option (List Char × List Char)
  | '0' :: r => some (['0'], r)
  | cs => digits? cs

/-- What follows a fraction, and whether there was one. -/
def fraction? : List Char → Option (Bool × List Char)
  | '.' :: r => (digits? r).map fun x => (true, x.2)
  | r => some (false, r)

/-- What follows an exponent, and whether there was one. -/
def exponent? : List Char → Option (Bool × List Char)
  | mark :: r =>
    if mark = 'e' ∨ mark = 'E' then
      let r := match r with
        | '+' :: r => r
        | '-' :: r => r
        | r => r
      (digits? r).map fun x => (true, x.2)
    else some (false, mark :: r)
  | [] => some (false, [])

/-- A number without its sign. -/
def unsigned? (cs : List Char) : Option (JsonValue × List Char) := do
  let (ds, r) ← integer? cs
  let (pointed, r) ← fraction? r
  let (scaled, r) ← exponent? r
  if pointed || scaled then return (.number, r)
  let n ← Decimal.readNat? ds
  return (.whole n, r)

/-- A number. A sign makes it one that is not kept. -/
def number? : List Char → Option (JsonValue × List Char)
  | '-' :: r => (unsigned? r).map fun x => (.number, x.2)
  | cs => unsigned? cs

/-! ## Values -/

mutual

/-- A value at the front, `room` bounding the depth and length of what is in it. -/
def value? : (room : Nat) → List Char → Option (JsonValue × List Char)
  | 0, _ => none
  | room + 1, cs =>
    match skip cs with
    | 'n' :: 'u' :: 'l' :: 'l' :: r => some (.null, r)
    | 't' :: 'r' :: 'u' :: 'e' :: r => some (.bool true, r)
    | 'f' :: 'a' :: 'l' :: 's' :: 'e' :: r => some (.bool false, r)
    | '"' :: r => (string? r).map fun x => (x.1.elim .garbled .text, x.2)
    | '[' :: r =>
      match skip r with
      | ']' :: r => some (.array [], r)
      | r => (items? room r).map fun x => (.array x.1, x.2)
    | '\x7b' :: r =>
      match skip r with
      | '\x7d' :: r => some (.object [], r)
      | r => (fields? room r).map fun x => (.object x.1, x.2)
    | cs => number? cs

/-- The items of an array up to its end. -/
def items? : (room : Nat) → List Char → Option (List JsonValue × List Char)
  | 0, _ => none
  | room + 1, cs => do
    let (x, r) ← value? room cs
    match skip r with
    | ',' :: r => (items? room r).map fun y => (x :: y.1, y.2)
    | ']' :: r => some ([x], r)
    | _ => none

/-- The fields of an object up to its end. -/
def fields? : (room : Nat) → List Char → Option (List (Option String × JsonValue) × List Char)
  | 0, _ => none
  | room + 1, cs =>
    match skip cs with
    | '"' :: r => do
      let (key, r) ← string? r
      match skip r with
      | ':' :: r =>
        let (x, r) ← value? room r
        match skip r with
        | ',' :: r => (fields? room r).map fun y => ((key, x) :: y.1, y.2)
        | '\x7d' :: r => some ([(key, x)], r)
        | _ => none
      | _ => none
    | _ => none

end

/-- The value that the whole text writes. -/
def parse? (cs : List Char) : Option JsonValue :=
  match value? (cs.length + 1) cs with
  | some (x, r) => if (skip r).isEmpty then some x else none
  | none => none

end JsonValue
end TwinLink
