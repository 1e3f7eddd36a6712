/-!
# Bytes and little-endian numbers

* `Bytes` : a byte string;
* `Bytes.span w` : how many numbers `w` bytes can spell;
* `Bytes.ofNat w n` : the `w` low bytes of `n`, least significant first;
* `Bytes.toNat bs` : the number that `bs` spells, least significant byte first;
* `Bytes.toNat_ofNat`, `Bytes.ofNat_toNat` : each undoes the other, up to the width;
* `Bytes.hex2` : a byte as two upper-case hexadecimal digits.
-/

namespace TwinLink

/-- A byte string. -/
abbrev Bytes := List UInt8

namespace Bytes

/-- How many numbers `w` bytes can spell. -/
def span (w : Nat) : Nat := Nat.pow 256 w

theorem span_zero : span 0 = 1 := rfl

theorem span_succ (w : Nat) : span (w + 1) = span w * 256 := rfl

/-- The `w` low bytes of `n`, least significant first. -/
def ofNat : (w : Nat) → (n : Nat) → Bytes
  | 0, _ => []
  | w + 1, n => UInt8.ofNat n :: ofNat w (n / 256)

/-- The number spelled by a byte string, least significant byte first. -/
def toNat : Bytes → Nat
  | [] => 0
  | b :: r => b.toNat + 256 * toNat r

@[simp] theorem length_ofNat (w n : Nat) : (ofNat w n).length = w := by
  induction w generalizing n with
  | zero => rfl
  | succ w ih => simp [ofNat, ih]

theorem toNat_lt (bs : Bytes) : toNat bs < span bs.length := by
  induction bs with
  | nil => simp [toNat, span_zero]
  | cons b r ih =>
    have hb := b.toNat_lt
    simp only [toNat, List.length_cons, span_succ]
    omega

theorem toNat_ofNat (w n : Nat) : toNat (ofNat w n) = n % span w := by
  induction w generalizing n with
  | zero => simp [ofNat, toNat, span_zero, Nat.mod_one]
  | succ w ih =>
    have hb : (UInt8.ofNat n).toNat = n % 256 := UInt8.toNat_ofNat'
    rw [ofNat, toNat, ih, hb, span_succ, Nat.mul_comm (span w) 256, Nat.mod_mul]

theorem ofNat_toNat (bs : Bytes) : ofNat bs.length (toNat bs) = bs := by
  induction bs with
  | nil => rfl
  | cons b r ih =>
    have hb := b.toNat_lt
    have hq : toNat (b :: r) / 256 = toNat r := by simp only [toNat]; omega
    rw [List.length_cons, ofNat, hq, ih]
    congr 1
    apply UInt8.toNat_inj.mp
    have hn : (UInt8.ofNat (toNat (b :: r))).toNat = toNat (b :: r) % 256 := UInt8.toNat_ofNat'
    rw [hn, toNat]
    omega

/-! ## Hexadecimal digits -/

/-- A digit below sixteen, in upper case. -/
def hexDigit (n : Nat) : Char :=
  if n < 10 then Char.ofNat (48 + n) else Char.ofNat (55 + n)

/-- A byte as two upper-case hexadecimal digits. -/
def hex2 (b : UInt8) : String :=
  String.ofList [hexDigit (b.toNat / 16), hexDigit (b.toNat % 16)]

end Bytes
end TwinLink
