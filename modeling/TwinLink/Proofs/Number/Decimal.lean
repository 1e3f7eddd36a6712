import Mathlib.Data.List.Induction
import Mathlib.Data.List.TakeWhile
import Mathlib.Data.Nat.Digits.Defs
import TwinLink.Number.Decimal
import TwinLink.Text.Blank

/-!
# Decimal numerals

What a numeral spells is said by its digits alone: the sum of each digit times its power of ten. Reading accepts exactly
the numerals, leading zeros or not, and what is written is a numeral of the number.

* `Decimal.Spells`, `Decimal.Numeral` : one or more ASCII digits, with a sign or none, and the number that they spell;
* `Decimal.readNat?_eq_some_iff`, `Decimal.readUnsigned?_eq_some_iff`, `Decimal.readSigned?_eq_some_iff` : reading;
* `Decimal.value_digits`, `Decimal.spells_natText`, `Decimal.numeral_intText` : writing;
* `Text.trim_append`, `Text.exists_trim` : blanks at both ends.
-/

namespace TwinLink

namespace Decimal

/-! ## Digits -/

/-- One or more ASCII digits, and the number that they spell. -/
structure Spells (cs : List Char) (n : Nat) : Prop where
  nonempty : cs ≠ []
  digits : ∀ c ∈ cs, c.isDigit
  value : n = Nat.ofDigits 10 (cs.reverse.map fun c => c.toNat - '0'.toNat)

/-- Digits behind a sign or none. A minus may be refused. -/
inductive Numeral (minus : Bool) : List Char → Int → Prop
  | plain {cs : List Char} {n : Nat} (h : Spells cs n) : Numeral minus cs n
  | plus {cs : List Char} {n : Nat} (h : Spells cs n) : Numeral minus ('+' :: cs) n
  | minus {cs : List Char} {n : Nat} (hm : minus = true) (h : Spells cs n) : Numeral minus ('-' :: cs) (-n)

theorem isDigit_iff {c : Char} : c.isDigit ↔ 48 ≤ c.toNat ∧ c.toNat ≤ 57 := by
  simp only [Char.isDigit, Bool.and_eq_true, decide_eq_true_eq, ge_iff_le, UInt32.le_iff_toNat_le]
  exact Iff.rfl

theorem digit?_eq_some_iff {c : Char} {d : Nat} : digit? c = some d ↔ c.isDigit ∧ d = c.toNat - '0'.toNat := by
  rw [isDigit_iff, digit?]
  split
  · rename_i h
    simp [h, eq_comm]
  · rename_i h
    simp [h]

theorem toNat_digitChar {d : Nat} (h : d < 10) : (digitChar d).toNat = 48 + d := by
  have hv : Nat.isValidChar (48 + d) := .inl (by omega)
  rw [digitChar, Char.ofNat, dif_pos hv]
  rfl

theorem isDigit_digitChar {d : Nat} (h : d < 10) : (digitChar d).isDigit := by
  rw [isDigit_iff, toNat_digitChar h]
  omega

/-! ## Values -/

theorem value_concat (ds : List Nat) (d : Nat) : value (ds ++ [d]) = 10 * value ds + d := by
  simp [value]

theorem value_eq_ofDigits (ds : List Nat) : value ds = Nat.ofDigits 10 ds.reverse := by
  induction ds using List.reverseRecOn with
  | nil => rfl
  | append_singleton ds d ih =>
    rw [value_concat, ih, List.reverse_concat, Nat.ofDigits_cons]
    exact Nat.add_comm _ _

theorem value_append (xs ys : List Nat) : value (xs ++ ys) = value xs * 10 ^ ys.length + value ys := by
  rw [value_eq_ofDigits, value_eq_ofDigits, value_eq_ofDigits, List.reverse_append, Nat.ofDigits_append,
    List.length_reverse, Nat.mul_comm, Nat.add_comm]

@[simp] theorem value_zeros (n : Nat) : value (List.replicate n 0) = 0 := by
  induction n with
  | zero => rfl
  | succ n ih => rw [List.replicate_succ', value_concat, ih]

/-! ## Writing -/

theorem digits_lt (n : Nat) : ∀ d ∈ digits n, d < 10 := by
  fun_induction digits n with
  | case1 n h => simpa using h
  | case2 n h ih =>
    rw [List.forall_mem_append, List.forall_mem_singleton]
    exact ⟨ih, Nat.mod_lt _ (by decide)⟩

theorem digits_ne_nil (n : Nat) : digits n ≠ [] := by
  rw [digits]
  split <;> simp

/-- The digits of a number spell it. -/
@[simp] theorem value_digits (n : Nat) : value (digits n) = n := by
  fun_induction digits n with
  | case1 n h => simp [value]
  | case2 n h ih =>
    rw [value_concat, ih]
    exact Nat.div_add_mod n 10

theorem spells_digits {ds : List Nat} (hne : ds ≠ []) (hd : ∀ d ∈ ds, d < 10) :
    Spells (ds.map digitChar) (value ds) where
  nonempty := by simpa using hne
  digits := by
    rw [List.forall_mem_map]
    exact fun d h => isDigit_digitChar (hd d h)
  value := by
    rw [value_eq_ofDigits, ← List.map_reverse, List.map_map]
    congr 1
    refine (List.map_congr_left fun d h => ?_).trans (List.map_id _) |>.symm
    have hlt := hd d (List.mem_reverse.mp h)
    rw [Function.comp_apply, toNat_digitChar hlt]
    exact Nat.add_sub_cancel_left 48 d

theorem spells_natText (n : Nat) : Spells (natText n) n := by
  have h := spells_digits (digits_ne_nil n) (digits_lt n)
  rwa [value_digits] at h

theorem numeral_intText (i : Int) : Numeral true (intText i) i := by
  unfold intText
  split
  · rename_i hi
    have h := Numeral.minus rfl (spells_natText i.natAbs)
    rwa [Int.ofNat_natAbs_of_nonpos (Int.le_of_lt hi), Int.neg_neg] at h
  · rename_i hi
    have h : Numeral true (natText i.natAbs) i.natAbs := .plain (spells_natText i.natAbs)
    rwa [Int.natAbs_of_nonneg (Int.not_lt.mp hi)] at h

/-! ## Reading -/

theorem mapM_digit?_eq_some_iff {cs : List Char} {ds : List Nat} :
    cs.mapM digit? = some ds ↔ (∀ c ∈ cs, c.isDigit) ∧ ds = cs.map fun c => c.toNat - '0'.toNat := by
  induction cs generalizing ds with
  | nil =>
    rw [List.mapM_nil]
    exact ⟨fun h => ⟨List.forall_mem_nil _, by cases h; rfl⟩, fun h => by rw [h.2]; rfl⟩
  | cons c cs ih =>
    simp only [List.mapM_cons, Option.bind_eq_bind, Option.bind_eq_some_iff, digit?_eq_some_iff, ih,
      List.forall_mem_cons, List.map_cons]
    constructor
    · rintro ⟨d, ⟨hc, rfl⟩, ds, ⟨hcs, rfl⟩, h⟩
      cases h
      exact ⟨⟨hc, hcs⟩, rfl⟩
    · rintro ⟨⟨hc, hcs⟩, rfl⟩
      exact ⟨_, ⟨hc, rfl⟩, _, ⟨hcs, rfl⟩, rfl⟩

/-- Reading accepts exactly what digits spell. -/
theorem readNat?_eq_some_iff {cs : List Char} {n : Nat} : readNat? cs = some n ↔ Spells cs n := by
  cases cs with
  | nil =>
    constructor
    · intro h
      cases h
    · intro h
      exact absurd rfl h.nonempty
  | cons c cs =>
    simp only [readNat?, Option.map_eq_some_iff, mapM_digit?_eq_some_iff, value_eq_ofDigits]
    constructor
    · rintro ⟨_, ⟨hd, rfl⟩, rfl⟩
      exact ⟨List.cons_ne_nil _ _, hd, by rw [List.map_reverse]⟩
    · rintro ⟨-, hd, hv⟩
      exact ⟨_, ⟨hd, rfl⟩, by rw [hv, List.map_reverse]⟩

theorem Spells.ne_sign {c : Char} {cs : List Char} {n : Nat} (h : Spells (c :: cs) n) : c ≠ '+' ∧ c ≠ '-' := by
  have hc := h.digits c List.mem_cons_self
  constructor <;> rintro rfl <;> exact absurd hc (by decide)

theorem readUnsigned?_eq_some_iff {cs : List Char} {n : Nat} : readUnsigned? cs = some n ↔ Numeral false cs n := by
  unfold readUnsigned?
  split
  · rw [readNat?_eq_some_iff]
    constructor
    · exact .plus
    · intro h
      generalize hi : (n : Int) = i at h
      cases h with
      | plain h => exact absurd rfl h.ne_sign.1
      | plus h => rwa [Int.ofNat_inj.mp hi]
  · rename_i hplus
    rw [readNat?_eq_some_iff]
    constructor
    · exact .plain
    · intro h
      generalize hi : (n : Int) = i at h
      cases h with
      | plain h => rwa [Int.ofNat_inj.mp hi]
      | plus h => exact absurd rfl (hplus _)
      | minus hm => cases hm

theorem readSigned?_eq_some_iff {cs : List Char} {i : Int} : readSigned? cs = some i ↔ Numeral true cs i := by
  unfold readSigned?
  split
  all_goals simp only [Option.map_eq_some_iff, readNat?_eq_some_iff]
  · constructor
    · rintro ⟨n, h, rfl⟩
      exact .plus h
    · intro h
      cases h with
      | plain h => exact absurd rfl h.ne_sign.1
      | plus h => exact ⟨_, h, rfl⟩
  · constructor
    · rintro ⟨n, h, rfl⟩
      exact .minus rfl h
    · intro h
      cases h with
      | plain h => exact absurd rfl h.ne_sign.2
      | minus hm h => exact ⟨_, h, rfl⟩
  · rename_i hplus hminus
    constructor
    · rintro ⟨n, h, rfl⟩
      exact .plain h
    · intro h
      cases h with
      | plain h => exact ⟨_, h, rfl⟩
      | plus h => exact absurd rfl (hplus _)
      | minus hm h => exact absurd rfl (hminus _)

end Decimal

/-! ## Blanks -/

namespace Text

/-- No character of a numeral is blank. -/
theorem isBlank_of_isDigit {c : Char} (h : c.isDigit) : isBlank c = false := by
  rw [Decimal.isDigit_iff] at h
  rw [isBlank, List.contains_eq_mem, decide_eq_false_iff_not]
  intro hc
  have hall : ∀ n ∈ blankCodes, n < 48 ∨ 57 < n := by decide
  have := hall _ hc
  omega

/-- What is trimmed off is blank. -/
theorem exists_trim (cs : List Char) : ∃ before after, cs = before ++ trim cs ++ after ∧
    (∀ c ∈ before, isBlank c) ∧ ∀ c ∈ after, isBlank c := by
  refine ⟨cs.takeWhile isBlank, ((cs.dropWhile isBlank).reverse.takeWhile isBlank).reverse, ?_, ?_, ?_⟩
  · have h := List.takeWhile_append_dropWhile (p := isBlank) (l := (cs.dropWhile isBlank).reverse)
    have h' := congrArg List.reverse h
    rw [List.reverse_append, List.reverse_reverse] at h'
    rw [List.append_assoc, trim, h', List.takeWhile_append_dropWhile]
  · exact fun c h => List.mem_takeWhile_imp h
  · intro c h
    exact List.mem_takeWhile_imp (List.mem_reverse.mp h)

theorem dropWhile_append_of_all {xs ys : List Char} (h : ∀ c ∈ xs, isBlank c) :
    (xs ++ ys).dropWhile isBlank = ys.dropWhile isBlank := by
  induction xs with
  | nil => rfl
  | cons x xs ih =>
    obtain ⟨hx, hxs⟩ := List.forall_mem_cons.mp h
    rw [List.cons_append, List.dropWhile_cons_of_pos hx, ih hxs]

/-- Blanks around a text without blanks are all that is trimmed. -/
theorem trim_append {before cs after : List Char} (hb : ∀ c ∈ before, isBlank c) (ha : ∀ c ∈ after, isBlank c)
    (hcs : ∀ c ∈ cs, isBlank c = false) : trim (before ++ cs ++ after) = cs := by
  have hafter : ∀ c ∈ after.reverse, isBlank c := fun c h => ha c (List.mem_reverse.mp h)
  rw [trim, List.append_assoc, dropWhile_append_of_all hb]
  cases cs with
  | nil =>
    have h : (after ++ []).dropWhile isBlank = [] := dropWhile_append_of_all ha
    rw [List.append_nil] at h
    rw [List.nil_append, h]
    rfl
  | cons c cs =>
    have hfirst : (c :: cs ++ after).dropWhile isBlank = c :: cs ++ after :=
      List.dropWhile_cons_of_neg (by simp [hcs c])
    have hlast : (c :: cs).reverse.dropWhile isBlank = (c :: cs).reverse := by
      cases hr : (c :: cs).reverse with
      | nil => rfl
      | cons d ds =>
        have hd : d ∈ c :: cs := List.mem_reverse.mp (hr ▸ List.mem_cons_self)
        exact List.dropWhile_cons_of_neg (by simp [hcs d hd])
    rw [hfirst, List.reverse_append, dropWhile_append_of_all hafter, hlast, List.reverse_reverse]

theorem trim_eq_self {cs : List Char} (h : ∀ c ∈ cs, isBlank c = false) : trim cs = cs := by
  have := trim_append (List.forall_mem_nil _) (List.forall_mem_nil _) h
  rwa [List.nil_append, List.append_nil] at this

end Text

namespace Decimal

/-- A numeral has digits and a sign, none of them blank. -/
theorem Numeral.not_blank {minus : Bool} {cs : List Char} {i : Int} (h : Numeral minus cs i) :
    ∀ c ∈ cs, Text.isBlank c = false := by
  cases h with
  | plain h => exact fun c hc => Text.isBlank_of_isDigit (h.digits c hc)
  | plus h | minus _ h =>
    exact List.forall_mem_cons.mpr ⟨by decide, fun c hc => Text.isBlank_of_isDigit (h.digits c hc)⟩

/-- What is left of a text without the blanks around it is a numeral if the text is one with blanks around it, and only
then. -/
theorem numeral_trim_iff {minus : Bool} {text : List Char} {i : Int} : Numeral minus (Text.trim text) i ↔
    ∃ before cs after, text = before ++ cs ++ after ∧ (∀ c ∈ before, Text.isBlank c) ∧ (∀ c ∈ after, Text.isBlank c) ∧
      Numeral minus cs i := by
  constructor
  · intro h
    obtain ⟨before, after, ht, hb, ha⟩ := Text.exists_trim text
    exact ⟨before, _, after, ht, hb, ha, h⟩
  · rintro ⟨before, cs, after, rfl, hb, ha, h⟩
    rwa [Text.trim_append hb ha h.not_blank]

end Decimal
end TwinLink
