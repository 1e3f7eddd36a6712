import TwinLink.Proofs.Number.FloatText
import TwinLink.Proofs.Schema.Conversions

/-!
# Floating-point values as bytes and as text

Every bit pattern that is a number has a text, and its bytes are had back from it: both zeros, the smallest magnitudes
and the largest, and both infinities. All that is not a number has one text, which gives one bit pattern.

* `BinaryFormat.NotNumber`, `BinaryFormat.notNumber_iff` : what is not a number, by its fields and by its magnitude;
* `Schema.Lossless`, `Schema.floats_lossless` : both conversions of both types.
-/

namespace TwinLink

/-- The exponent field is full and the fraction field is not empty. -/
structure BinaryFormat.NotNumber (f : BinaryFormat) (bits : Nat) : Prop where
  exponent : bits / 2 ^ f.fractionBits % 2 ^ f.exponentBits = 2 ^ f.exponentBits - 1
  fraction : bits % 2 ^ f.fractionBits ≠ 0

theorem BinaryFormat.notNumber_iff {f : BinaryFormat} {bits : Nat} :
    f.NotNumber bits ↔ f.infinity < bits % f.signBit := by
  have hp := Nat.two_pow_pos f.fractionBits
  have he := Nat.two_pow_pos f.exponentBits
  have hsplit := Nat.div_add_mod' (bits % f.signBit) (2 ^ f.fractionBits)
  have hexp : bits % f.signBit / 2 ^ f.fractionBits = bits / 2 ^ f.fractionBits % 2 ^ f.exponentBits := by
    rw [signBit, Nat.one_shiftLeft, Nat.add_comm, Nat.pow_add, Nat.mod_mul_right_div_self]
  have hfrac : bits % f.signBit % 2 ^ f.fractionBits = bits % 2 ^ f.fractionBits := by
    rw [signBit, Nat.one_shiftLeft, Nat.add_comm, Nat.pow_add, Nat.mod_mul_right_mod]
  have hlt : bits / 2 ^ f.fractionBits % 2 ^ f.exponentBits < 2 ^ f.exponentBits := Nat.mod_lt _ he
  have hmod := Nat.mod_lt bits hp
  rw [hexp, hfrac] at hsplit
  rw [infinity, Nat.shiftLeft_eq, Nat.one_shiftLeft, ← hsplit]
  constructor
  · rintro ⟨hfull, hsome⟩
    rw [hfull]
    omega
  · intro h
    have hfull : 2 ^ f.exponentBits - 1 ≤ bits / 2 ^ f.fractionBits % 2 ^ f.exponentBits := by
      by_contra hless
      have := Nat.mul_le_mul_right (2 ^ f.fractionBits) (show bits / 2 ^ f.fractionBits % 2 ^ f.exponentBits + 1 ≤
        2 ^ f.exponentBits - 1 by omega)
      rw [Nat.add_mul] at this
      omega
    have hfull' : bits / 2 ^ f.fractionBits % 2 ^ f.exponentBits = 2 ^ f.exponentBits - 1 := by omega
    rw [hfull'] at h
    exact ⟨hfull', by omega⟩

namespace Schema

open FloatText

variable {s : Schema} {f : BinaryFormat} {w quiet : Nat} {v : Bytes}

/-- The conversions of a floating-point type lose no number. -/
structure Lossless (s : Schema) (f : BinaryFormat) (w quiet : Nat) : Prop where
  /-- A number is had back from its text, -/
  back : ∀ v, v.length = w → ¬ f.NotNumber (Bytes.toNat v) → ∃ text, s.toText v = .ok text ∧ s.toBytes text = .ok v
  /-- which is the shortest decimal that is rounded to it, behind a minus if the sign bit is set. -/
  written : ∀ v, v.length = w → ¬ f.NotNumber (Bytes.toNat v) → ∃ cs, Written f (Bytes.toNat v % f.signBit) cs ∧
    s.toText v = .ok (String.ofList (if Bytes.toNat v < f.signBit then cs else '-' :: cs))
  /-- A text of digits gives the bytes of the magnitude that its number is rounded to, with the sign bit for a minus. -/
  read : ∀ cs x, Plain cs x → ∃ k, f.Rounds x k ∧ s.toBytes (String.ofList cs) = .ok (Bytes.ofNat w k) ∧
    s.toBytes (String.ofList ('-' :: cs)) = .ok (Bytes.ofNat w (f.signBit + k))
  /-- All that is not a number has one text, -/
  nan : ∀ v, v.length = w → f.NotNumber (Bytes.toNat v) → s.toText v = .ok "NaN"
  /-- which gives one bit pattern. -/
  quiet : s.toBytes "NaN" = .ok (Bytes.ofNat w quiet)

/-- A type that is written and read in a format loses no number of it. -/
theorem lossless_of (he : 2 ≤ f.exponentBits) (hf : f.fractionBits ≤ 52) (hbits : Bytes.span w = 2 * f.signBit)
    (htext : ∀ v, v.length = w → s.toText v = .ok (String.ofList (write f (Bytes.toNat v))))
    (hbytes : ∀ text, s.bytesOf? text = (read? f (Text.trim text.toList)).map (Bytes.ofNat w)) :
    Lossless s f w f.quietNaN where
  back v hv hn := by
    rw [BinaryFormat.notNumber_iff] at hn
    have hlt := Bytes.toNat_lt v
    rw [hv, hbits] at hlt
    obtain ⟨hblank, hread⟩ := read?_write he hf hlt hn
    refine ⟨_, htext v hv, ?_⟩
    rw [toBytes_eq_ok_iff, hbytes, String.toList_ofList, Text.trim_eq_self hblank, hread, Option.map_some, ← hv,
      Bytes.ofNat_toNat]
  written v hv hn := by
    rw [BinaryFormat.notNumber_iff] at hn
    obtain ⟨cs, hcs, heq⟩ := write_written he hf hn
    exact ⟨cs, hcs, by rw [htext v hv, heq]⟩
  read cs x h := by
    obtain ⟨k, hread, hk⟩ := readMagnitude?_of_plain (f := f) he h
    refine ⟨k, hk, ?_, ?_⟩ <;> rw [toBytes_eq_ok_iff, hbytes, String.toList_ofList, Text.trim_eq_self]
    · rw [h.read?_eq, hread, Option.map_some]
    · exact h.not_blank
    · rw [read?, hread, Option.map_some, Option.map_some]
    · exact List.forall_mem_cons.mpr ⟨by decide, h.not_blank⟩
  nan v hv hn := by
    rw [BinaryFormat.notNumber_iff] at hn
    rw [htext v hv, write]
    exact congrArg (fun cs => Except.ok (String.ofList cs)) (if_pos hn)
  quiet := by
    rw [toBytes_eq_ok_iff, hbytes]
    rfl

/-- **Float texts lose nothing.** In four bytes and in eight, the bytes of every number are had back from its text, the
shortest decimal that is rounded to it; and what is not a number is written as "NaN", which gives the quiet pattern. -/
theorem floats_lossless : Lossless .float .single 4 0x7fc00000 ∧ Lossless .double .double 8 0x7ff8000000000000 := by
  constructor
  · exact lossless_of (by decide) (by decide) (by decide) (fun v hv => if_pos hv) fun _ => rfl
  · exact lossless_of (by decide) (by decide) (by decide) (fun v hv => if_pos hv) fun _ => rfl

example : float.toText [0xCD, 0xCC, 0xCC, 0x3D] = .ok "0.1" := by decide +kernel

end Schema
end TwinLink
