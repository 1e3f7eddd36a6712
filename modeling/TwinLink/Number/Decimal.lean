/-!
# Decimal numerals

* `Decimal.digits n` : the digits of `n`, most significant first; `Decimal.value` reads them back;
* `Decimal.natText`, `Decimal.intText` : numerals without leading zeros;
* `Decimal.readNat?` : one or more ASCII digits and nothing else;
* `Decimal.readUnsigned?`, `Decimal.readSigned?` : the same behind an optional sign.
-/

namespace TwinLink.Decimal

/-- The character of a digit. -/
def digitChar (d : Nat) : Char := Char.ofNat (48 + d)

/-- The digit of a character. -/
def digit? (c : Char) : Option Nat :=
  if 48 ≤ c.toNat ∧ c.toNat ≤ 57 then some (c.toNat - 48) else none

/-- The digits of a number, most significant first. -/
def digits (n : Nat) : List Nat :=
  if n < 10 then [n] else digits (n / 10) ++ [n % 10]

/-- The number spelled by digits, most significant first. -/
def value (ds : List Nat) : Nat := ds.foldl (fun v d => 10 * v + d) 0

/-- A number without leading zeros. -/
def natText (n : Nat) : List Char := (digits n).map digitChar

/-- An integer without leading zeros, a minus in front of a negative one. -/
def intText (i : Int) : List Char :=
  if i < 0 then '-' :: natText i.natAbs else natText i.natAbs

/-- One or more ASCII digits and nothing else. -/
def readNat? : List Char → Option Nat
  | [] => none
  | c :: r => ((c :: r).mapM digit?).map value

/-- Digits behind an optional plus. -/
def readUnsigned? : List Char → Option Nat
  | '+' :: r => readNat? r
  | cs => readNat? cs

/-- Digits behind an optional plus or minus. -/
def readSigned? : List Char → Option Int
  | '+' :: r => (readNat? r).map Int.ofNat
  | '-' :: r => (readNat? r).map fun n => -Int.ofNat n
  | cs => (readNat? cs).map Int.ofNat

end TwinLink.Decimal
