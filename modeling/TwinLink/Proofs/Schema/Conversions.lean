import TwinLink.Proofs.Number.Decimal
import TwinLink.Schema

/-!
# Values as bytes and as text

The bytes of a value have a text, and a text that is accepted has bytes. For all types but the floating-point ones each
is had back from the other, except that the truth value "true" is written in one way and read in many. The texts of
integers are numerals of their range, with blanks around them or none.

* `Bytes.TwosComplement` : the bytes of an integer; `Schema.signedBytes_eq_iff`, `Schema.twosComplement_signed`;
* `Decimal.Written` : the texts of the integers of a range, and their bytes;
* `Schema.Holds`, `Schema.normal` : the bytes of values, and those that are written for them;
* `Schema.Exact`, `Schema.conversions_exact` : both conversions.
-/

namespace TwinLink

/-! ## Integers in bytes -/

/-- The bytes spell the integer in two's complement, least significant byte first. -/
structure Bytes.TwosComplement (w : Nat) (i : Int) (v : Bytes) : Prop where
  length : v.length = w
  value : (toNat v : Int) = i % 256 ^ w

theorem Bytes.cast_span (w : Nat) : (span w : Int) = 256 ^ w := by
  simp [span]

namespace Schema

variable {s : Schema} {text : String} {v : Bytes} {w : Nat} {i : Int}

theorem signedBytes_eq_iff : signedBytes w i = v ↔ Bytes.TwosComplement w i v := by
  have hpos : (0 : Int) < 256 ^ w := by positivity
  have hvalue : ((i % 256 ^ w).toNat : Int) = i % 256 ^ w := Int.toNat_of_nonneg (Int.emod_nonneg _ hpos.ne')
  rw [signedBytes, Bytes.cast_span]
  constructor
  · rintro rfl
    refine ⟨Bytes.length_ofNat _ _, ?_⟩
    rw [Bytes.toNat_ofNat, Int.natCast_emod, hvalue, Bytes.cast_span, Int.emod_emod]
  · rintro ⟨rfl, hv⟩
    rw [← hv, Int.toNat_natCast, Bytes.ofNat_toNat]

/-- The bytes of a natural number. -/
theorem twosComplement_ofNat (w n : Nat) : Bytes.TwosComplement w n (Bytes.ofNat w n) where
  length := Bytes.length_ofNat w n
  value := by rw [Bytes.toNat_ofNat, Int.natCast_emod, Bytes.cast_span]

/-- Bytes spell the integer that is read from them. -/
theorem twosComplement_signed (v : Bytes) : Bytes.TwosComplement v.length (signed v) v where
  length := rfl
  value := by
    have hlt : (Bytes.toNat v : Int) < 256 ^ v.length := by
      rw [← Bytes.cast_span]
      exact_mod_cast Bytes.toNat_lt v
    unfold signed
    dsimp only
    rw [Bytes.cast_span]
    split
    · exact (Int.emod_eq_of_lt (Int.natCast_nonneg _) hlt).symm
    · rw [Int.sub_emod_right, Int.emod_eq_of_lt (Int.natCast_nonneg _) hlt]

/-- What is read from `w` bytes lies in their range. -/
theorem signed_range (v : Bytes) :
    -(Bytes.span v.length : Int) ≤ 2 * signed v ∧ 2 * signed v < Bytes.span v.length := by
  have hlt := Bytes.toNat_lt v
  unfold signed
  dsimp only
  split <;> omega

theorem ranged?_eq_some_iff : ranged? w i = some v ↔
    (-(Bytes.span w : Int) ≤ 2 * i ∧ 2 * i < Bytes.span w) ∧ Bytes.TwosComplement w i v := by
  rw [ranged?]
  split
  · rename_i h
    rw [Option.some_inj, signedBytes_eq_iff]
    exact (and_iff_right h).symm
  · rename_i h
    simp [h]

/-! ## Both conversions -/

theorem toBytes_eq_ok_iff : s.toBytes text = .ok v ↔ s.bytesOf? text = some v := by
  unfold toBytes
  cases s.bytesOf? text with
  | some data => simp
  | none => simp

/-- A value of a fixed length has it. -/
theorem length_of_bytesOf? (hw : s.width? = some w)
    (hv : s.bytesOf? text = some v) : v.length = w := by
  cases s with
  | invalid =>
    cases hw
    cases hv
    rfl
  | string => cases hw
  | byte =>
    cases hw
    obtain ⟨n, -, hn⟩ := Option.bind_eq_some_iff.mp hv
    split at hn
    · cases hn
      rfl
    · cases hn
  | boolean =>
    cases hw
    dsimp only [bytesOf?] at hv
    split at hv
    · cases hv
      rfl
    · split at hv
      · cases hv
        rfl
      · cases hv
  | float | double =>
    cases hw
    obtain ⟨n, -, rfl⟩ := Option.map_eq_some_iff.mp hv
    exact Bytes.length_ofNat _ _
  | int | long =>
    cases hw
    obtain ⟨i, -, hi⟩ := Option.bind_eq_some_iff.mp hv
    exact (ranged?_eq_some_iff.mp hi).2.length

/-- The bytes are those of a value: as many as the type has, or well-formed UTF-8. -/
def Holds (s : Schema) (v : Bytes) : Prop :=
  match s.width? with
  | some w => v.length = w
  | none => (ByteArray.mk v.toArray).IsValidUTF8

/-- The bytes that are written for a value: the truth value "true" may be read from others. -/
def normal (s : Schema) (v : Bytes) : Bytes := if s = .boolean ∧ v ≠ [0] then [1] else v

/-- A type other than a string has a text for all bytes of its length. -/
theorem exists_textOf (hs : s ≠ .string) (v : Bytes) : ∃ t, s.textOf v = .ok t := by
  cases s <;> first | exact ⟨_, rfl⟩ | exact absurd rfl hs

theorem exists_ofUtf8?_iff : (∃ t, Text.ofUtf8? v = some t) ↔ (ByteArray.mk v.toArray).IsValidUTF8 := by
  constructor
  · rintro ⟨t, ht⟩
    by_contra hv
    rw [Text.ofUtf8?, String.fromUTF8?, dif_neg hv] at ht
    cases ht
  · exact fun hv => ⟨_, Text.ofUtf8?_eq v hv⟩

theorem toText_eq_textOf (hv : s.Holds v) : s.toText v = s.textOf v := by
  unfold Holds at hv
  unfold toText
  split
  · rename_i w hw
    rw [hw] at hv
    exact if_pos hv
  · rfl

/-- The bytes of values are those that have a text. -/
theorem exists_toText_iff (s : Schema) (v : Bytes) : (∃ t, s.toText v = .ok t) ↔ s.Holds v := by
  unfold Holds toText
  cases hw : s.width? with
  | some w =>
    dsimp only
    split
    · rename_i hv
      exact iff_of_true (exists_textOf (by rintro rfl; cases hw) v) hv
    · rename_i hv
      exact iff_of_false nofun hv
  | none =>
    have hs : s = .string := by cases s <;> first | rfl | cases hw
    subst hs
    dsimp only [textOf]
    rw [← exists_ofUtf8?_iff]
    cases Text.ofUtf8? v <;> simp

/-- The bytes of a text are those of a value. -/
theorem holds_of_toBytes (h : s.toBytes text = .ok v) : s.Holds v := by
  have hb := toBytes_eq_ok_iff.mp h
  unfold Holds
  cases hw : s.width? with
  | some w => exact length_of_bytesOf? hw hb
  | none =>
    have hs : s = .string := by cases s <;> first | rfl | cases hw
    subst hs
    obtain rfl := Option.some.inj hb
    exact exists_ofUtf8?_iff.mp ⟨_, Text.ofUtf8?_utf8 text⟩

theorem normal_of_toBytes (h : s.toBytes text = .ok v) : s.normal v = v := by
  have hb := toBytes_eq_ok_iff.mp h
  unfold normal
  split
  · rename_i hn
    obtain ⟨rfl, hv⟩ := hn
    dsimp only [bytesOf?] at hb
    split at hb
    · exact Option.some.inj hb
    · split at hb
      · exact absurd (Option.some.inj hb).symm hv
      · cases hb
  · rfl

/-- The text of an integer is read as the integer. -/
theorem readSigned?_intText (i : Int) :
    Decimal.readSigned? (Text.trim (String.ofList (Decimal.intText i)).toList) = some i := by
  have h := Decimal.numeral_intText i
  rw [String.toList_ofList, Text.trim_eq_self h.not_blank, Decimal.readSigned?_eq_some_iff]
  exact h

theorem readUnsigned?_natText (n : Nat) :
    Decimal.readUnsigned? (Text.trim (String.ofList (Decimal.natText n)).toList) = some n := by
  have h : Decimal.Numeral false (Decimal.natText n) n := .plain (Decimal.spells_natText n)
  rw [String.toList_ofList, Text.trim_eq_self h.not_blank, Decimal.readUnsigned?_eq_some_iff]
  exact h

/-- The bytes of an integer are those that are read from its text. -/
theorem bytesOf?_intText (v : Bytes) :
    (Decimal.readSigned? (Text.trim (String.ofList (Decimal.intText (signed v))).toList)).bind (ranged? v.length) =
      some v := by
  rw [readSigned?_intText, Option.bind_some, ranged?_eq_some_iff]
  exact ⟨signed_range v, twosComplement_signed v⟩

/-- The bytes of a value are had back from its text. -/
theorem toBytes_of_toText (hf : s ≠ .float) (hd : s ≠ .double) (h : s.toText v = .ok text) :
    s.toBytes text = .ok (s.normal v) := by
  have hv := (exists_toText_iff s v).mp ⟨text, h⟩
  rw [toText_eq_textOf hv] at h
  rw [toBytes_eq_ok_iff]
  cases s with
  | float => exact absurd rfl hf
  | double => exact absurd rfl hd
  | invalid =>
    obtain rfl : v = [] := List.length_eq_zero_iff.mp hv
    rfl
  | byte =>
    obtain ⟨b, rfl⟩ := List.length_eq_one_iff.mp hv
    have hb : Bytes.toNat [b] = b.toNat := rfl
    have hlt := b.toNat_lt
    cases h
    rw [bytesOf?, readUnsigned?_natText, Option.bind_some, hb, if_pos hlt]
    simp [Bytes.ofNat, normal]
  | boolean =>
    obtain ⟨b, rfl⟩ := List.length_eq_one_iff.mp hv
    have hb : Bytes.toNat [b] = b.toNat := rfl
    obtain rfl : _ = text := Except.ok.inj h
    by_cases hz : b = 0
    · subst hz
      rfl
    · have hn : b.toNat ≠ 0 := fun hn => hz (UInt8.toNat_inj.mp hn)
      have hone : normal .boolean [b] = [1] := by simp [normal, hz]
      rw [hb, if_neg hn, hone]
      rfl
  | int =>
    have hv : v.length = 4 := hv
    cases h
    rw [bytesOf?, ← hv]
    exact bytesOf?_intText v
  | long =>
    have hv : v.length = 8 := hv
    cases h
    rw [bytesOf?, ← hv]
    exact bytesOf?_intText v
  | string =>
    dsimp only [textOf] at h
    split at h
    · rename_i t ht
      cases h
      exact congrArg some (Text.utf8_of_ofUtf8? ht)
    · cases h

end Schema

/-! ## Integers as text -/

/-- The text is an integer between two bounds, with blanks around it or none, and these are its bytes. -/
inductive Decimal.Written (minus : Bool) (lo hi : Int) (w : Nat) (text : List Char) (v : Bytes) : Prop
  | mk (before cs after : List Char) (i : Int) (ht : text = before ++ cs ++ after)
      (hb : ∀ c ∈ before, Text.isBlank c) (ha : ∀ c ∈ after, Text.isBlank c) (hn : Numeral minus cs i) (hlo : lo ≤ i)
      (hhi : i ≤ hi) (hv : Bytes.TwosComplement w i v)

theorem Decimal.written_iff {minus : Bool} {lo hi : Int} {w : Nat} {text : List Char} {v : Bytes} :
    Written minus lo hi w text v ↔
      ∃ i, Numeral minus (Text.trim text) i ∧ (lo ≤ i ∧ i ≤ hi) ∧ Bytes.TwosComplement w i v := by
  simp only [numeral_trim_iff]
  constructor
  · rintro ⟨before, cs, after, i, ht, hb, ha, hn, hlo, hhi, hv⟩
    exact ⟨i, ⟨before, cs, after, ht, hb, ha, hn⟩, ⟨hlo, hhi⟩, hv⟩
  · rintro ⟨i, ⟨before, cs, after, ht, hb, ha, hn⟩, ⟨hlo, hhi⟩, hv⟩
    exact ⟨before, cs, after, i, ht, hb, ha, hn, hlo, hhi, hv⟩

namespace Schema

variable {s : Schema} {text : String} {v : Bytes} {w : Nat} {lo hi : Int}

/-- The texts of signed integers in `w` bytes. -/
theorem readSigned?_ranged (hr : ∀ i : Int, lo ≤ i ∧ i ≤ hi ↔ -(Bytes.span w : Int) ≤ 2 * i ∧ 2 * i < Bytes.span w)
    (text : List Char) : (Decimal.readSigned? (Text.trim text)).bind (ranged? w) = some v ↔
      Decimal.Written true lo hi w text v := by
  simp only [Decimal.written_iff, Option.bind_eq_some_iff, Decimal.readSigned?_eq_some_iff, ranged?_eq_some_iff, hr]

theorem byte_toBytes_iff : byte.toBytes text = .ok v ↔ Decimal.Written false 0 255 1 text.toList v := by
  rw [toBytes_eq_ok_iff, bytesOf?, Decimal.written_iff]
  simp only [Option.bind_eq_some_iff, Decimal.readUnsigned?_eq_some_iff]
  constructor
  · rintro ⟨n, hn, h⟩
    split at h
    · rename_i hlt
      cases h
      exact ⟨n, hn, by omega, twosComplement_ofNat 1 n⟩
    · cases h
  · rintro ⟨i, hn, ⟨hlo, hhi⟩, hv⟩
    lift i to Nat using hlo
    refine ⟨i, hn, ?_⟩
    rw [if_pos (by omega), ← signedBytes_eq_iff.mpr hv, signedBytes_eq_iff.mpr (twosComplement_ofNat 1 i)]

theorem int_toBytes_iff :
    int.toBytes text = .ok v ↔ Decimal.Written true (-2 ^ 31) (2 ^ 31 - 1) 4 text.toList v := by
  rw [toBytes_eq_ok_iff]
  exact readSigned?_ranged (fun i => by rw [Bytes.cast_span]; omega) text.toList

theorem long_toBytes_iff :
    long.toBytes text = .ok v ↔ Decimal.Written true (-2 ^ 63) (2 ^ 63 - 1) 8 text.toList v := by
  rw [toBytes_eq_ok_iff]
  exact readSigned?_ranged (fun i => by rw [Bytes.cast_span]; omega) text.toList

/-- The two conversions of a type lose nothing. -/
structure Exact (s : Schema) : Prop where
  /-- The bytes of a value, and no others, have a text. -/
  accepts : ∀ v, (∃ t, s.toText v = .ok t) ↔ s.Holds v
  /-- They are had back from it, as they are written. -/
  back : ∀ v t, s.toText v = .ok t → s.toBytes t = .ok (s.normal v)
  /-- A text that is accepted gives the bytes of a value, -/
  holds : ∀ t v, s.toBytes t = .ok v → s.Holds v
  /-- and those have a text that gives them again. -/
  forth : ∀ t v, s.toBytes t = .ok v → ∃ u, s.toText v = .ok u ∧ s.toBytes u = .ok v

/-- **Conversions are exact.** For every type but the floating-point ones: the bytes of a value are had back from their
text, and the bytes that a text gives have a text that gives them again. The integer types accept the numerals of their
range, with blanks around them or none, and give their bytes in two's complement; a byte is written without a minus. -/
theorem conversions_exact :
    (∀ s : Schema, s ≠ .float → s ≠ .double → s.Exact) ∧
    (∀ text v, byte.toBytes text = .ok v ↔ Decimal.Written false 0 255 1 text.toList v) ∧
    (∀ text v, int.toBytes text = .ok v ↔ Decimal.Written true (-2 ^ 31) (2 ^ 31 - 1) 4 text.toList v) ∧
    ∀ text v, long.toBytes text = .ok v ↔ Decimal.Written true (-2 ^ 63) (2 ^ 63 - 1) 8 text.toList v := by
  refine ⟨fun s hf hd => ?_, fun _ _ => byte_toBytes_iff, fun _ _ => int_toBytes_iff, fun _ _ => long_toBytes_iff⟩
  refine ⟨exists_toText_iff s, fun _ _ => toBytes_of_toText hf hd, fun _ _ => holds_of_toBytes, fun t v h => ?_⟩
  obtain ⟨u, hu⟩ := (exists_toText_iff s v).mpr (holds_of_toBytes h)
  have hback := toBytes_of_toText hf hd hu
  rw [normal_of_toBytes h] at hback
  exact ⟨u, hu, hback⟩

example : int.toBytes " -0042 " = .ok [0xD6, 0xFF, 0xFF, 0xFF] := by decide +kernel

end Schema
end TwinLink
