/-!
# Binary floating-point formats

A bit pattern is a number: the sign bit on top, below it the magnitude, which is the exponent field followed by the
fraction field. Every finite magnitude stands for a whole number of units of `2 ^ -scale`.

* `BinaryFormat`, `BinaryFormat.single`, `BinaryFormat.double` : the widths of the two fields;
* `BinaryFormat.units f k` : the value of the finite magnitude `k`, in units;
* `BinaryFormat.nearest f num den` : the magnitude nearest to `num / den`, a tie going to the even one.
-/

namespace TwinLink

/-- The widths of the fraction field and of the exponent field. -/
structure BinaryFormat where
  fractionBits : Nat
  exponentBits : Nat
deriving DecidableEq, Repr

namespace BinaryFormat

/-- Four bytes. -/
def single : BinaryFormat := ⟨23, 8⟩

/-- Eight bytes. -/
def double : BinaryFormat := ⟨52, 11⟩

/-- One unit is `2 ^ -scale`, the least positive magnitude. -/
def scale (f : BinaryFormat) : Nat := 1 <<< (f.exponentBits - 1) + f.fractionBits - 2

/-- The magnitude of infinity. Larger ones are not numbers. -/
def infinity (f : BinaryFormat) : Nat := (1 <<< f.exponentBits - 1) <<< f.fractionBits

/-- The magnitude that reading gives to what is not a number. -/
def quietNaN (f : BinaryFormat) : Nat := f.infinity + 1 <<< (f.fractionBits - 1)

/-- The weight of the sign bit. -/
def signBit (f : BinaryFormat) : Nat := 1 <<< (f.exponentBits + f.fractionBits)

/-- The value of a finite magnitude, in units. With an exponent field of zero or one, a unit is one step. -/
def units (f : BinaryFormat) (k : Nat) : Nat :=
  let hidden := 1 <<< f.fractionBits
  if k < hidden then k else (k % hidden + hidden) <<< (k / hidden - 1)

/-- The magnitude nearest to `num / den`, a tie going to the even one and a value out of range to infinity. -/
def nearest (f : BinaryFormat) (num den : Nat) : Nat :=
  let whole := num <<< f.scale
  let shift := (whole / den).log2 - f.fractionBits
  let step := den <<< shift
  let below := shift <<< f.fractionBits + whole / step
  let rest := whole % step
  let k := if 2 * rest < step then below
    else if step < 2 * rest then below + 1
    else below + below % 2
  min k f.infinity

end BinaryFormat
end TwinLink
