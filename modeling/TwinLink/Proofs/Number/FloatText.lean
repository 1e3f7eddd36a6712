import TwinLink.Proofs.Number.Shortest

/-!
# Floating-point numbers as text

A number is written with a point where one is needed and with no more zeros than it needs, and such a text is read as
the magnitude that its number is rounded to. What is written for a magnitude is rounded to it, so it is read as that
magnitude.

* `FloatText.Plain`, `FloatText.Positional` : digits with a point or none, and those without superfluous zeros;
* `FloatText.positional_spec` : what is written for a decimal;
* `FloatText.readDecimal?_of_plain`, `FloatText.readMagnitude?_of_plain` : reading is rounding;
* `FloatText.Written`, `FloatText.writeMagnitude_written` : the text of a magnitude;
* `FloatText.Written.read` : it is read as that magnitude.
-/

namespace TwinLink

namespace Decimal

theorem head?_digits {n : Nat} (hn : 0 < n) : (digits n).head? ≠ some 0 := by
  fun_induction digits n with
  | case1 n h => simpa using hn.ne'
  | case2 n h ih =>
    rw [List.head?_append_of_ne_nil _ (digits_ne_nil _)]
    exact ih (by omega)

theorem Spells.eq_value {cs : List Char} {n : Nat} (h : Spells cs n) :
    n = Decimal.value (cs.map fun c => c.toNat - '0'.toNat) := by
  rw [h.value, value_eq_ofDigits, List.map_reverse]

end Decimal

namespace FloatText

variable {f : BinaryFormat} {k : Nat} {cs : List Char} {x : ℚ}

/-! ## Positional texts -/

/-- Digits, with a point between two of them or none, and the number that they stand for. -/
inductive Plain : List Char → ℚ → Prop
  | whole {cs : List Char} {n : Nat} (h : Decimal.Spells cs n) : Plain cs n
  | point {cs ds : List Char} {n m : Nat} (h : Decimal.Spells cs n) (hb : Decimal.Spells ds m) :
    Plain (cs ++ '.' :: ds) (n + m / 10 ^ ds.length)

/-- A text with no more zeros than its number needs. -/
structure Positional (cs : List Char) (x : ℚ) : Prop where
  plain : Plain cs x
  leading : ∀ r, cs = '0' :: r → r = [] ∨ ∃ b, r = '.' :: b
  trailing : '.' ∈ cs → cs.getLast? ≠ some '0'

theorem Plain.not_blank (h : Plain cs x) : ∀ c ∈ cs, Text.isBlank c = false := by
  cases h with
  | whole h => exact fun c hc => Text.isBlank_of_isDigit (h.digits c hc)
  | point h hb =>
    rw [List.forall_mem_append, List.forall_mem_cons]
    exact ⟨fun c hc => Text.isBlank_of_isDigit (h.digits c hc), by decide,
      fun c hc => Text.isBlank_of_isDigit (hb.digits c hc)⟩

/-- Such a text begins with a digit. -/
theorem Plain.exists_cons (h : Plain cs x) : ∃ c r, cs = c :: r ∧ c.isDigit := by
  have hfirst {ds : List Char} {n : Nat} (hs : Decimal.Spells ds n) : ∃ c r, ds = c :: r ∧ c.isDigit := by
    obtain ⟨c, r, rfl⟩ := List.exists_cons_of_ne_nil hs.nonempty
    exact ⟨c, r, rfl, hs.digits c List.mem_cons_self⟩
  cases h with
  | whole h => exact hfirst h
  | point h hb =>
    obtain ⟨c, r, rfl, hc⟩ := hfirst h
    exact ⟨c, _, rfl, hc⟩

/-! ## Writing -/

theorem digitChar_eq_zero_iff {d : Nat} (hd : d < 10) : Decimal.digitChar d = '0' ↔ d = 0 := by
  constructor
  · intro h
    have := congrArg Char.toNat h
    rw [Decimal.toNat_digitChar hd] at this
    exact Nat.add_left_cancel this
  · rintro rfl
    rfl

theorem point_not_mem {ds : List Nat} (hd : ∀ d ∈ ds, d < 10) : '.' ∉ ds.map Decimal.digitChar := by
  intro h
  obtain ⟨d, hm, heq⟩ := List.mem_map.mp h
  have := Decimal.isDigit_digitChar (hd d hm)
  rw [heq] at this
  exact absurd this (by decide)

/-- A text that does not begin with the digit zero. -/
theorem head_ne_zero {ds : List Nat} {rest r : List Char} (hne : ds ≠ []) (hd : ∀ d ∈ ds, d < 10)
    (hz : ds.head? ≠ some 0) : ds.map Decimal.digitChar ++ rest ≠ '0' :: r := by
  obtain ⟨d, ds, rfl⟩ := List.exists_cons_of_ne_nil hne
  intro h
  have h0 := (digitChar_eq_zero_iff (hd d List.mem_cons_self)).mp (List.cons.inj h).1
  exact hz (congrArg some h0)

/-- The zeros at the end of digits. -/
theorem exists_zeros (ds : List Nat) : ∃ t, ds = (ds.reverse.dropWhile (· == 0)).reverse ++ List.replicate t 0 := by
  have h := List.takeWhile_append_dropWhile (p := (· == 0)) (l := ds.reverse)
  refine ⟨(ds.reverse.takeWhile (· == 0)).length, ?_⟩
  have hz : ds.reverse.takeWhile (· == 0) = List.replicate (ds.reverse.takeWhile (· == 0)).length 0 :=
    List.eq_replicate_iff.mpr ⟨rfl, fun d hm => by simpa using List.mem_takeWhile_imp hm⟩
  rw [← List.reverse_replicate, ← hz, ← List.reverse_append, h, List.reverse_reverse]

/-- Digits in front of a point and digits behind it, of which the zeros at the end are left out. -/
theorem point_spec {whole rest : List Nat} (hne : whole ≠ []) (hw : ∀ d ∈ whole, d < 10) (hr : ∀ d ∈ rest, d < 10)
    (hlead : whole.head? = some 0 → whole = [0]) : let behind := (rest.reverse.dropWhile (· == 0)).reverse
    Positional (if behind.isEmpty then whole.map Decimal.digitChar
      else whole.map Decimal.digitChar ++ '.' :: behind.map Decimal.digitChar)
      (Decimal.value (whole ++ rest) / 10 ^ rest.length) := by
  intro behind
  obtain ⟨t, ht⟩ := exists_zeros rest
  have hrest : rest = behind ++ List.replicate t 0 := ht
  have hb : ∀ d ∈ behind, d < 10 := fun d hd => hr d (by rw [hrest]; exact List.mem_append_left _ hd)
  have hvalue : (Decimal.value (whole ++ rest) / 10 ^ rest.length : ℚ) =
      Decimal.value whole + Decimal.value behind / 10 ^ behind.length := by
    rw [hrest, Decimal.value_append, Decimal.value_append, Decimal.value_zeros, List.length_append,
      List.length_replicate, pow_add]
    push_cast
    field_simp
    ring
  have hspells := Decimal.spells_digits hne hw
  rw [hvalue]
  split
  · rename_i hempty
    rw [List.isEmpty_iff.mp hempty]
    refine ⟨?_, fun r h => .inl ?_, fun h => absurd h (point_not_mem hw)⟩
    · simpa [Decimal.value] using Plain.whole hspells
    · by_cases hz : whole.head? = some 0
      · rw [hlead hz] at h
        exact (List.cons.inj h).2.symm
      · exact absurd ((List.append_nil _).trans h) (head_ne_zero hne hw hz)
  · rename_i hbehind
    rw [List.isEmpty_iff] at hbehind
    have hplain := Plain.point hspells (Decimal.spells_digits hbehind hb)
    rw [List.length_map] at hplain
    refine ⟨hplain, fun r h => .inr ?_, fun _ h => ?_⟩
    · by_cases hz : whole.head? = some 0
      · rw [hlead hz] at h
        exact ⟨_, (List.cons.inj h).2.symm⟩
      · exact absurd h (head_ne_zero hne hw hz)
    · -- the last digit behind the point is the first that is not dropped
      have hlast : (behind.map Decimal.digitChar).getLast? = some '0' := by
        obtain ⟨d, ds, hd⟩ := List.exists_cons_of_ne_nil hbehind
        rwa [List.getLast?_append_of_ne_nil _ (List.cons_ne_nil _ _), hd, List.map_cons, List.getLast?_cons_cons,
          ← List.map_cons, ← hd] at h
      rw [List.getLast?_map, Option.map_eq_some_iff] at hlast
      obtain ⟨d, hd, h0⟩ := hlast
      rw [digitChar_eq_zero_iff (hb d (List.mem_of_getLast? hd))] at h0
      rw [List.getLast?_reverse] at hd
      have hnot := List.head?_dropWhile_not (· == 0) rest.reverse
      rw [hd] at hnot
      simp [h0] at hnot

/-- **A decimal is written with a point where one is needed**, and with no more zeros than it needs. -/
theorem positional_spec {c : Nat} (hc : 0 < c) (e : ℤ) : Positional (positional c e) (c * 10 ^ e) := by
  have hne := Decimal.digits_ne_nil c
  have hlt := Decimal.digits_lt c
  have hzeros (t : Nat) : ∀ d ∈ List.replicate t 0, d < 10 := fun d h => by
    rw [List.eq_of_mem_replicate h]
    decide
  unfold positional
  dsimp only
  split
  · rename_i he
    obtain ⟨t, rfl⟩ := Int.eq_ofNat_of_zero_le he
    have hall : ∀ d ∈ Decimal.digits c ++ List.replicate t 0, d < 10 :=
      List.forall_mem_append.mpr ⟨hlt, hzeros t⟩
    have hvalue : Decimal.value (Decimal.digits c ++ List.replicate t 0) = c * 10 ^ t := by
      rw [Decimal.value_append, Decimal.value_digits, Decimal.value_zeros, List.length_replicate, Nat.add_zero]
    rw [Int.toNat_natCast]
    refine ⟨?_, fun r hr => ?_, fun h => absurd h (point_not_mem hall)⟩
    · have h := Plain.whole (Decimal.spells_digits (by simp [hne]) hall)
      rw [hvalue] at h
      rw [zpow_natCast]
      exact_mod_cast h
    · rw [List.map_append] at hr
      exact absurd hr (head_ne_zero hne hlt (Decimal.head?_digits hc))
  · rename_i he
    set padded := List.replicate ((-e).toNat + 1 - (Decimal.digits c).length) 0 ++ Decimal.digits c with hpadded
    have hall : ∀ d ∈ padded, d < 10 := List.forall_mem_append.mpr ⟨hzeros _, hlt⟩
    have hlong : (-e).toNat < padded.length := by
      rw [hpadded, List.length_append, List.length_replicate]
      omega
    have hvalue : Decimal.value padded = c := by
      rw [hpadded, Decimal.value_append, Decimal.value_zeros, Decimal.value_digits, Nat.zero_mul, Nat.zero_add]
    have hplaces : (padded.drop (padded.length - (-e).toNat)).length = (-e).toNat := by
      rw [List.length_drop]
      omega
    have hnumber : (c * 10 ^ e : ℚ) = Decimal.value (padded.take (padded.length - (-e).toNat) ++
        padded.drop (padded.length - (-e).toNat)) / 10 ^ (padded.drop (padded.length - (-e).toNat)).length := by
      rw [List.take_append_drop, hvalue, hplaces, div_eq_mul_inv, ← zpow_natCast, ← zpow_neg]
      congr 2
      omega
    rw [hnumber]
    refine point_spec ?_ (fun d hd => hall d (List.mem_of_mem_take hd)) (fun d hd => hall d (List.mem_of_mem_drop hd)) ?_
    · rw [Ne, List.take_eq_nil_iff, not_or]
      exact ⟨by omega, List.ne_nil_of_length_pos (by omega)⟩
    · intro hz
      rcases Nat.lt_or_ge (-e).toNat (Decimal.digits c).length with hmany | hfew
      · have hsame : padded = Decimal.digits c := by
          rw [hpadded, Nat.sub_eq_zero_of_le hmany, List.replicate_zero, List.nil_append]
        rw [List.head?_take, if_neg (by omega), hsame] at hz
        exact absurd hz (Decimal.head?_digits hc)
      · -- one zero stands in front of the point
        have hlen : padded.length = (-e).toNat + 1 := by
          rw [hpadded, List.length_append, List.length_replicate]
          omega
        obtain ⟨d, hd⟩ : ∃ d, padded.take (padded.length - (-e).toNat) = [d] :=
          List.length_eq_one_iff.mp (by rw [List.length_take]; omega)
        rw [hd] at hz ⊢
        exact congrArg (fun d => [d]) (Option.some.inj hz)

/-! ## Reading -/

theorem isDigit_eq (c : Char) : isDigit c = c.isDigit := by
  rw [isDigit, Bool.eq_iff_iff, Option.isSome_iff_exists]
  simp only [Decimal.digit?_eq_some_iff, exists_and_left, exists_eq, and_true]

theorem filterMap_digit? (h : ∀ c ∈ cs, c.isDigit) :
    cs.filterMap Decimal.digit? = cs.map fun c => c.toNat - '0'.toNat := by
  induction cs with
  | nil => rfl
  | cons c cs ih =>
    obtain ⟨hc, hcs⟩ := List.forall_mem_cons.mp h
    rw [List.filterMap_cons_some (Decimal.digit?_eq_some_iff.mpr ⟨hc, rfl⟩), ih hcs, List.map_cons]

/-- The digits of a number are taken off the text up to the first other character. -/
theorem takeDigits_append {n : Nat} (h : Decimal.Spells cs n) (rest : List Char)
    (hrest : ∀ c ∈ rest.head?, c.isDigit = false) :
    ∃ ds, takeDigits (cs ++ rest) = (ds, rest) ∧ ds ≠ [] ∧ Decimal.value ds = n ∧ ds.length = cs.length := by
  have hall : ∀ c ∈ cs, isDigit c := fun c hc => by
    rw [isDigit_eq]
    exact h.digits c hc
  have hstop : rest.takeWhile isDigit = [] ∧ rest.dropWhile isDigit = rest := by
    cases rest with
    | nil => exact ⟨rfl, rfl⟩
    | cons c r =>
      have hc : ¬ isDigit c = true := by rw [isDigit_eq, hrest c rfl]; exact Bool.false_ne_true
      exact ⟨List.takeWhile_cons_of_neg hc, List.dropWhile_cons_of_neg hc⟩
  refine ⟨_, Prod.ext ?_ ?_, ?_, h.eq_value.symm, List.length_map _⟩
  · rw [takeDigits, List.takeWhile_append_of_pos hall, hstop.1, List.append_nil]
    exact filterMap_digit? h.digits
  · rw [takeDigits, List.dropWhile_append_of_pos hall]
    exact hstop.2
  · simpa using h.nonempty

/-- A text is read as the decimal of its number. -/
theorem readDecimal?_of_plain (h : Plain cs x) : ∃ c e, readDecimal? cs = some (c, e) ∧ (c * 10 ^ e : ℚ) = x := by
  cases h with
  | @whole _ n h =>
    obtain ⟨ds, htake, hne, hvalue, -⟩ := takeDigits_append h [] nofun
    rw [List.append_nil] at htake
    refine ⟨n, 0, ?_, by simp⟩
    rw [readDecimal?, htake]
    simp [hne, hvalue, readExponent?]
  | @point cs ds n m h hb =>
    obtain ⟨ws, htake, hne, hvalue, -⟩ := takeDigits_append h ('.' :: ds) (by
      rintro c hc
      cases hc
      rfl)
    obtain ⟨bs, htake', -, hvalue', hlen⟩ := takeDigits_append hb [] nofun
    rw [List.append_nil] at htake'
    refine ⟨n * 10 ^ ds.length + m, -ds.length, ?_, ?_⟩
    · rw [readDecimal?, htake]
      simp [htake', hne, readExponent?, Decimal.value_append, hvalue, hvalue', hlen]
    · rw [zpow_neg, zpow_natCast]
      push_cast
      field_simp

/-- **Reading is rounding.** -/
theorem readMagnitude?_of_plain (he : 2 ≤ f.exponentBits) (h : Plain cs x) :
    ∃ k, readMagnitude? f cs = some k ∧ f.Rounds x k := by
  obtain ⟨c, e, hread, rfl⟩ := readDecimal?_of_plain h
  refine ⟨_, by rw [readMagnitude?, hread], ?_⟩
  rw [← fraction_eq]
  exact BinaryFormat.rounds_nearest he _ (fraction_pos c e)

/-! ## Magnitudes -/

/-- The text of a magnitude: the shortest decimal that is rounded to it, or a word. -/
inductive Written (f : BinaryFormat) : Nat → List Char → Prop
  | zero : Written f 0 ['0']
  | infinity : Written f f.infinity ['i', 'n', 'f']
  | finite {k n : Nat} {cs : List Char} {x : ℚ} (hpos : 0 < k) (hfin : k < f.infinity) (hx : Shortest f k n x)
    (ht : Positional cs x) : Written f k cs

theorem pos_of_rounds (he : 2 ≤ f.exponentBits) {c : Nat} {e : ℤ} (hk : 0 < k) (h : f.Rounds (c * 10 ^ e) k) :
    0 < c := by
  rcases Nat.eq_zero_or_pos c with rfl | hc
  · rw [Nat.cast_zero, zero_mul] at h
    exact absurd (h.unique he (BinaryFormat.rounds_zero he)) hk.ne'
  · exact hc

theorem writeMagnitude_written (he : 2 ≤ f.exponentBits) (hf : f.fractionBits ≤ 52) (hk : k ≤ f.infinity) :
    Written f k (writeMagnitude f k) := by
  unfold writeMagnitude
  split
  · rename_i h
    rw [h]
    exact .infinity
  · rename_i hfin
    split
    · rename_i h
      rw [h]
      exact .zero
    · rename_i hpos
      have hpos := Nat.pos_of_ne_zero hpos
      obtain ⟨n, hx⟩ := shortest_spec he hf hpos hk
      exact .finite hpos (by omega) hx (positional_spec (pos_of_rounds he hpos hx.rounds) _)

/-- **What is written for a magnitude is read as that magnitude.** -/
theorem Written.read (he : 2 ≤ f.exponentBits) (h : Written f k cs) : readMagnitude? f cs = some k := by
  have hplain {x : ℚ} {j : Nat} (hp : Plain cs x) (hr : f.Rounds x j) : readMagnitude? f cs = some j := by
    obtain ⟨l, hl, hlr⟩ := readMagnitude?_of_plain he hp
    rw [hl, hlr.unique he hr]
  cases h with
  | zero =>
    refine hplain (.whole (n := 0) ⟨List.cons_ne_nil _ _, List.forall_mem_singleton.mpr rfl, rfl⟩) ?_
    rw [Nat.cast_zero]
    exact BinaryFormat.rounds_zero he
  | infinity => rfl
  | finite hpos hfin hx ht => exact hplain ht.plain hx.rounds

theorem Written.not_blank (h : Written f k cs) : ∀ c ∈ cs, Text.isBlank c = false := by
  cases h with
  | zero => exact List.forall_mem_singleton.mpr rfl
  | infinity => exact List.forall_mem_cons.mpr ⟨rfl, List.forall_mem_cons.mpr ⟨rfl, List.forall_mem_singleton.mpr rfl⟩⟩
  | finite hpos hfin hx ht => exact ht.plain.not_blank

/-! ## Bit patterns -/

theorem read?_cons {c : Char} {r : List Char} (hplus : c ≠ '+') (hminus : c ≠ '-') :
    read? f (c :: r) = readMagnitude? f (c :: r) := by
  unfold read?
  split
  · rename_i h
    exact absurd (List.cons.inj h).1 hminus
  · rename_i h
    exact absurd (List.cons.inj h).1 hplus
  · rfl

theorem Plain.read?_eq (h : Plain cs x) : read? f cs = readMagnitude? f cs := by
  obtain ⟨c, r, rfl, hc⟩ := h.exists_cons
  refine read?_cons ?_ ?_ <;> rintro rfl <;> exact absurd hc (by decide)

theorem Written.read? (he : 2 ≤ f.exponentBits) (h : Written f k cs) : FloatText.read? f cs = some k := by
  have hread := h.read he
  cases h with
  | zero | infinity => exact (read?_cons (by decide) (by decide)).trans hread
  | finite hpos hfin hx ht => exact ht.plain.read?_eq.trans hread

/-- The text of a bit pattern that is a number. -/
theorem write_written (he : 2 ≤ f.exponentBits) (hf : f.fractionBits ≤ 52) {bits : Nat}
    (hn : ¬ f.infinity < bits % f.signBit) : ∃ cs, Written f (bits % f.signBit) cs ∧
      write f bits = if bits < f.signBit then cs else '-' :: cs :=
  ⟨_, writeMagnitude_written he hf (Nat.not_lt.mp hn), by rw [write]; exact if_neg hn⟩

/-- **A bit pattern that is a number is read from its text.** -/
theorem read?_write (he : 2 ≤ f.exponentBits) (hf : f.fractionBits ≤ 52) {bits : Nat} (hbits : bits < 2 * f.signBit)
    (hn : ¬ f.infinity < bits % f.signBit) :
    (∀ c ∈ write f bits, Text.isBlank c = false) ∧ FloatText.read? f (write f bits) = some bits := by
  obtain ⟨cs, hcs, heq⟩ := write_written he hf hn
  rw [heq]
  split
  · rename_i hlt
    rw [Nat.mod_eq_of_lt hlt] at hcs
    exact ⟨hcs.not_blank, hcs.read? he⟩
  · rename_i hge
    refine ⟨List.forall_mem_cons.mpr ⟨by decide, hcs.not_blank⟩, ?_⟩
    rw [FloatText.read?, hcs.read he, Option.map_some, Nat.mod_eq_sub_mod (Nat.not_lt.mp hge),
      Nat.mod_eq_of_lt (by omega), Nat.add_sub_cancel' (Nat.not_lt.mp hge)]

end FloatText
end TwinLink
