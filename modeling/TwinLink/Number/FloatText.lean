import TwinLink.Number.Binary
import TwinLink.Number.Decimal

/-!
# Floating-point numbers as text

* `FloatText.shortest f k` : the fewest decimal digits that read back as the magnitude `k`, of those the nearest to it;
* `FloatText.write f bits` : the text of a bit pattern, positional at every size;
* `FloatText.read? f cs` : the bit pattern of a text, rounded to nearest.
-/

namespace TwinLink.FloatText

/-! ## Writing -/

/-- The decimal `c · 10 ^ e` as numerator and denominator. -/
def fraction (c : Nat) (e : Int) : Nat × Nat := (c * Nat.pow 10 e.toNat, Nat.pow 10 (-e).toNat)

/-- The decimal `c · 10 ^ e` is read as the magnitude `k`. -/
def readsAs (f : BinaryFormat) (k c : Nat) (e : Int) : Bool :=
  f.nearest (fraction c e).1 (fraction c e).2 == k

/-- The zeros between the point and the first digit of `num / den`, looking at `room` places. -/
def leadingZeros (den : Nat) : (room num : Nat) → Nat
  | 0, _ => 0
  | room + 1, num => if den ≤ 10 * num then 0 else leadingZeros den room (10 * num) + 1

/-- The number of digits of `num / den` in front of the point, negative for zeros behind it. -/
def wholeDigits (num den : Nat) : Int :=
  if den ≤ num then (Decimal.digits (num / den)).length else -(leadingZeros den (den.log2 + 1) num)

/-- The decimal with `n` digits nearest to the magnitude `k` among its two neighbours that read back, a tie going up. -/
def withDigits? (f : BinaryFormat) (k : Nat) (n : Nat) : Option (Nat × Int) :=
  let e : Int := wholeDigits (f.units k) (1 <<< f.scale) - n
  let num := f.units k * Nat.pow 10 (-e).toNat
  let den := Nat.pow 10 e.toNat <<< f.scale
  let c := num / den
  match readsAs f k c e, readsAs f k (c + 1) e with
  | true, true => some (if den ≤ 2 * (num % den) then c + 1 else c, e)
  | true, false => some (c, e)
  | false, true => some (c + 1, e)
  | false, false => none

/-- The first of the next `tries` digit counts, from `n` on, that reads back; else every digit of the exact value. -/
def shortestFrom (f : BinaryFormat) (k : Nat) : (tries n : Nat) → Nat × Int
  | 0, _ => (f.units k * Nat.pow 5 f.scale, -f.scale)
  | tries + 1, n =>
    match withDigits? f k n with
    | some found => found
    | none => shortestFrom f k tries (n + 1)

/-- The fewest decimal digits that read back as the magnitude `k`. Seventeen are enough for eight bytes. -/
def shortest (f : BinaryFormat) (k : Nat) : Nat × Int := shortestFrom f k 17 1

/-- The decimal `c · 10 ^ e` with a point where one is needed and no exponent. -/
def positional (c : Nat) (e : Int) : List Char :=
  let ds := Decimal.digits c
  if 0 ≤ e then (ds ++ List.replicate e.toNat 0).map Decimal.digitChar
  else
    let places := (-e).toNat
    let padded := List.replicate (places + 1 - ds.length) 0 ++ ds
    let whole := padded.take (padded.length - places)
    let behind := ((padded.drop (padded.length - places)).reverse.dropWhile (· == 0)).reverse
    if behind.isEmpty then whole.map Decimal.digitChar
    else whole.map Decimal.digitChar ++ '.' :: behind.map Decimal.digitChar

/-- The text of a magnitude that is a number. -/
def writeMagnitude (f : BinaryFormat) (k : Nat) : List Char :=
  if k = f.infinity then ['i', 'n', 'f']
  else if k = 0 then ['0']
  else positional (shortest f k).1 (shortest f k).2

/-- The text of a bit pattern. What is not a number has no sign. -/
def write (f : BinaryFormat) (bits : Nat) : List Char :=
  let k := bits % f.signBit
  if f.infinity < k then ['N', 'a', 'N']
  else if bits < f.signBit then writeMagnitude f k
  else '-' :: writeMagnitude f k

/-! ## Reading -/

/-- A character of a numeral. -/
def isDigit (c : Char) : Bool := (Decimal.digit? c).isSome

/-- The digits at the front of a text, and what follows them. -/
def takeDigits (cs : List Char) : List Nat × List Char :=
  (cs.takeWhile isDigit |>.filterMap Decimal.digit?, cs.dropWhile isDigit)

/-- The size of an exponent. Digits count until the exponent has reached `2 ^ 16`. -/
def exponentSize (ds : List Nat) : Nat :=
  ds.foldl (fun v d => if v < 65536 then 10 * v + d else v) 0

/-- An exponent up to the end of the text; an empty text is the exponent zero. -/
def readExponent? : List Char → Option Int
  | [] => some 0
  | mark :: r =>
    if mark = 'e' ∨ mark = 'E' then
      let (negative, r) := match r with
        | '-' :: r => (true, r)
        | '+' :: r => (false, r)
        | r => (false, r)
      match takeDigits r with
      | ([], _) => none
      | (ds, []) => some (if negative then -(exponentSize ds : Int) else exponentSize ds)
      | (_, _ :: _) => none
    else none

/-- An unsigned numeral with at least one digit, a point or none, and an exponent or none, as `c · 10 ^ e`. -/
def readDecimal? (cs : List Char) : Option (Nat × Int) :=
  let (whole, r) := takeDigits cs
  let (behind, r) := match r with
    | '.' :: r => takeDigits r
    | r => ([], r)
  if whole.isEmpty && behind.isEmpty then none
  else (readExponent? r).map fun e => (Decimal.value (whole ++ behind), e - behind.length)

/-- The magnitude of an unsigned text: a numeral or one of the names, in any case. -/
def readMagnitude? (f : BinaryFormat) (cs : List Char) : Option Nat :=
  match readDecimal? cs with
  | some (c, e) => some (f.nearest (fraction c e).1 (fraction c e).2)
  | none =>
    let name := String.ofList (cs.map Char.toLower)
    if name = "inf" ∨ name = "infinity" then some f.infinity
    else if name = "nan" then some f.quietNaN
    else none

/-- The bit pattern of a text with an optional sign. -/
def read? (f : BinaryFormat) : List Char → Option Nat
  | '-' :: r => (readMagnitude? f r).map (f.signBit + ·)
  | '+' :: r => readMagnitude? f r
  | cs => readMagnitude? f cs

end TwinLink.FloatText
