import TwinLink.Number.FloatText
import TwinLink.Proofs.Number.Decimal
import TwinLink.Proofs.Number.Rounding

/-!
# The shortest decimal of a magnitude

The decimals of `n` digits around a number lie on a grid, and the number in one cell of it. A decimal of no more digits
that is rounded to a magnitude lies on one side of the cell, so the corner on that side is rounded to it as well: if the
two corners of the cell are not, then no decimal of `n` digits is.

* `FloatText.HasDigits`, `FloatText.Shortest` : the decimals of `n` digits, and the one that is written;
* `FloatText.wholeDigits_spec` : the power of ten above a number;
* `FloatText.Cell`, `FloatText.Cell.neighbours` : the cell of a number, and that no decimal lies inside it;
* `FloatText.closest_of_withDigits?`, `FloatText.not_rounds_of_withDigits?` : the decimals of one digit count;
* `FloatText.exists_rounds_seventeen` : seventeen digits are enough;
* `FloatText.shortest_spec` : the decimal that is chosen is the shortest.
-/

namespace TwinLink.FloatText

variable {f : BinaryFormat} {k n : Nat}

/-! ## Decimals -/

theorem fraction_pos (c : Nat) (e : ℤ) : 0 < (fraction c e).2 := Nat.pow_pos (by decide)

/-- Numerator and denominator are those of the decimal. -/
theorem fraction_eq (c : Nat) (e : ℤ) : ((fraction c e).1 / (fraction c e).2 : ℚ) = c * 10 ^ e := by
  have hten : (10 : ℚ) ≠ 0 := by norm_num
  have hsplit : (10 : ℚ) ^ e = 10 ^ e.toNat / 10 ^ (-e).toNat := by
    rw [← zpow_natCast, ← zpow_natCast, ← zpow_sub₀ hten]
    congr 1
    omega
  simp only [hsplit, fraction, ← mul_div_assoc, Nat.pow_eq]
  push_cast
  rfl

theorem readsAs_iff (he : 2 ≤ f.exponentBits) {c : Nat} {e : ℤ} :
    readsAs f k c e = true ↔ f.Rounds (c * 10 ^ e) k := by
  rw [readsAs, beq_iff_eq, BinaryFormat.nearest_eq_iff he (fraction_pos c e), fraction_eq]

/-- A decimal of at most `n` digits, at any place. -/
def HasDigits (n : Nat) (x : ℚ) : Prop := ∃ (c : Nat) (e : ℤ), c < 10 ^ n ∧ x = c * 10 ^ e

/-- A decimal of `n` digits that is rounded to the magnitude `k`, the closest to it of these, and the larger of two that
are closest. -/
structure Closest (f : BinaryFormat) (k n : Nat) (x : ℚ) : Prop where
  digits : HasDigits n x
  rounds : f.Rounds x k
  closest : ∀ y, HasDigits n y → f.Rounds y k → |f.value k - x| ≤ |f.value k - y|
  larger : ∀ y, HasDigits n y → f.Rounds y k → |f.value k - y| = |f.value k - x| → y ≤ x

/-- No decimal of fewer digits is rounded to the magnitude. -/
structure Shortest (f : BinaryFormat) (k n : Nat) (x : ℚ) : Prop extends Closest f k n x where
  fewest : ∀ m y, HasDigits m y → f.Rounds y k → n ≤ m

/-! ## The first digit -/

theorem lt_pow_length_digits (n : Nat) : n < 10 ^ (Decimal.digits n).length := by
  fun_induction Decimal.digits n with
  | case1 n h => simpa using h
  | case2 n h ih =>
    rw [List.length_append, List.length_singleton, Nat.pow_succ]
    omega

theorem pow_length_digits_le {n : Nat} (hn : 0 < n) : 10 ^ ((Decimal.digits n).length - 1) ≤ n := by
  fun_induction Decimal.digits n with
  | case1 n h => exact hn
  | case2 n h ih =>
    have hlen : (Decimal.digits (n / 10)).length ≠ 0 := by simpa using Decimal.digits_ne_nil _
    have hle := ih (by omega)
    rw [List.length_append, List.length_singleton, Nat.add_sub_cancel]
    obtain ⟨l, hl⟩ := Nat.exists_eq_succ_of_ne_zero hlen
    rw [hl, Nat.succ_sub_one] at hle
    rw [hl, Nat.pow_succ]
    omega

theorem leadingZeros_spec {den : Nat} : ∀ {room num : Nat}, num < den → den ≤ 10 ^ room * num →
    den ≤ 10 ^ (leadingZeros den room num + 1) * num ∧ 10 ^ leadingZeros den room num * num < den
  | 0, num, hlt, hle => by omega
  | room + 1, num, hlt, hle => by
    rw [leadingZeros]
    split
    · rename_i h
      exact ⟨by omega, by omega⟩
    · rename_i h
      have hle' : den ≤ 10 ^ room * (10 * num) := by rwa [← Nat.mul_assoc, ← Nat.pow_succ]
      obtain ⟨hlo, hhi⟩ := leadingZeros_spec (Nat.not_le.mp h) hle'
      rw [← Nat.mul_assoc, ← Nat.pow_succ] at hlo hhi
      exact ⟨hlo, hhi⟩

/-- The number of digits in front of the point says between which powers of ten a number lies. -/
theorem wholeDigits_spec {num den : Nat} (hn : 0 < num) (hd : 0 < den) :
    (10 : ℚ) ^ (wholeDigits num den - 1) ≤ num / den ∧ (num / den : ℚ) < 10 ^ wholeDigits num den := by
  have hden : (0 : ℚ) < den := by exact_mod_cast hd
  have hten : (10 : ℚ) ≠ 0 := by norm_num
  unfold wholeDigits
  split
  · rename_i h
    have hpos : 0 < num / den := Nat.div_pos h hd
    have hlen : (Decimal.digits (num / den)).length ≠ 0 := by simpa using Decimal.digits_ne_nil _
    have hlo := (Nat.le_div_iff_mul_le hd).mp (pow_length_digits_le hpos)
    have hhi := (Nat.div_lt_iff_lt_mul hd).mp (lt_pow_length_digits (num / den))
    obtain ⟨l, hl⟩ := Nat.exists_eq_succ_of_ne_zero hlen
    rw [hl] at hlo hhi ⊢
    rw [le_div_iff₀ hden, div_lt_iff₀ hden, Nat.cast_succ, add_sub_cancel_right, ← Nat.cast_succ, zpow_natCast,
      zpow_natCast]
    exact ⟨by exact_mod_cast hlo, by exact_mod_cast hhi⟩
  · rename_i h
    have hroom : den ≤ 10 ^ (den.log2 + 1) * num :=
      calc den ≤ 2 ^ (den.log2 + 1) := Nat.lt_log2_self.le
        _ ≤ 10 ^ (den.log2 + 1) := Nat.pow_le_pow_left (by decide) _
        _ ≤ 10 ^ (den.log2 + 1) * num := Nat.le_mul_of_pos_right _ hn
    obtain ⟨hlo, hhi⟩ := leadingZeros_spec (Nat.not_le.mp h) hroom
    generalize leadingZeros den (den.log2 + 1) num = z at hlo hhi ⊢
    have hz : (-(z : ℤ) - 1) = -((z + 1 : Nat) : ℤ) := by push_cast; ring
    rw [hz, zpow_neg, zpow_neg, zpow_natCast, zpow_natCast, inv_le_iff_one_le_mul₀ (by positivity),
      lt_inv_comm₀ (by positivity) (by positivity), inv_div, lt_div_iff₀ (by exact_mod_cast hn), ← mul_div_right_comm,
      one_le_div hden]
    constructor
    · rw [mul_comm]
      exact_mod_cast hlo
    · exact_mod_cast hhi

/-! ## The cell of a number -/

/-- The number lies between two neighbours among the decimals that end at the place `e`, and the lower one has its first
digit where `n` digits have it. -/
structure Cell (v : ℚ) (n c : Nat) (e : ℤ) : Prop where
  low : c * 10 ^ e ≤ v
  high : v < (c + 1 : Nat) * 10 ^ e
  first : 10 ^ (n - 1) ≤ c
  digits : c < 10 ^ n

namespace Cell

variable {v : ℚ} {c : Nat} {e : ℤ}

theorem hasDigits_low (h : Cell v n c e) : HasDigits n (c * 10 ^ e) := ⟨c, e, h.digits, rfl⟩

theorem hasDigits_high (h : Cell v n c e) (hn : 0 < n) : HasDigits n ((c + 1 : Nat) * 10 ^ e) := by
  rcases Nat.lt_or_eq_of_le h.digits with hlt | heq
  · exact ⟨c + 1, e, hlt, rfl⟩
  · -- a power of ten, of one digit
    refine ⟨1, n + e, Nat.one_lt_pow hn.ne' (by decide), ?_⟩
    rw [← Nat.succ_eq_add_one, heq, zpow_add₀ (by norm_num), zpow_natCast]
    push_cast
    ring

/-- The size of a cell against the number in it. -/
theorem width_le (h : Cell v n c e) : 10 ^ e * 10 ^ (n - 1) ≤ v := by
  have hc : ((10 : ℚ) ^ (n - 1)) ≤ c := by exact_mod_cast h.first
  rw [mul_comm]
  exact le_trans (by gcongr) h.low

/-- No decimal of so few digits lies inside the cell. -/
theorem neighbours (h : Cell v n c e) (hn : 0 < n) {y : ℚ} (hy : HasDigits n y) :
    y ≤ c * 10 ^ e ∨ (c + 1 : Nat) * 10 ^ e ≤ y := by
  obtain ⟨d, q, hd, rfl⟩ := hy
  rcases le_or_gt e q with hq | hq
  · -- it ends no later than the corners do
    obtain ⟨t, rfl⟩ := Int.le.dest hq
    have hgrid : (d : ℚ) * 10 ^ (e + t) = (d * 10 ^ t : Nat) * 10 ^ e := by
      rw [zpow_add₀ (by norm_num), zpow_natCast]
      push_cast
      ring
    rw [hgrid]
    rcases Nat.lt_or_ge c (d * 10 ^ t) with hc | hc
    · right
      gcongr
      exact hc
    · left
      gcongr
  · -- it ends later, and is smaller than both
    left
    have hd' : (d : ℚ) ≤ 10 ^ n := by exact_mod_cast hd.le
    have hc : ((10 : ℚ) ^ (n - 1)) ≤ c := by exact_mod_cast h.first
    calc (d : ℚ) * 10 ^ q ≤ 10 ^ n * 10 ^ q := by gcongr
      _ = 10 ^ (n + q) := by rw [zpow_add₀ (by norm_num), zpow_natCast]
      _ ≤ 10 ^ (((n - 1 : Nat) : ℤ) + e) := zpow_le_zpow_right₀ (by norm_num) (by omega)
      _ = 10 ^ (n - 1) * 10 ^ e := by rw [zpow_add₀ (by norm_num), zpow_natCast]
      _ ≤ c * 10 ^ e := by gcongr

end Cell

/-- The cell of a number that is so many steps of the last place. -/
theorem cell_div {v : ℚ} {num den : Nat} {e : ℤ} (hn : 0 < n) (hd : 0 < den) (hv : num * 10 ^ e = v * den)
    (hlo : 10 ^ (n + e - 1) ≤ v) (hhi : v < 10 ^ (n + e)) : Cell v n (num / den) e := by
  have hten : (10 : ℚ) ≠ 0 := by norm_num
  have hstep : (0 : ℚ) < 10 ^ e := by positivity
  have hden : (0 : ℚ) < den := by exact_mod_cast hd
  have hscaled {a : Nat} : (a * 10 ^ e : ℚ) ≤ v ↔ a * den ≤ num := by
    rw [← mul_le_mul_iff_left₀ hden, ← hv, mul_right_comm, mul_le_mul_iff_left₀ hstep]
    exact_mod_cast Iff.rfl
  refine ⟨hscaled.mpr (Nat.div_mul_le_self _ _), ?_, ?_, ?_⟩
  · rw [← not_le, hscaled, Nat.not_le]
    exact (Nat.div_lt_iff_lt_mul hd).mp (Nat.lt_succ_self _)
  · rw [Nat.le_div_iff_mul_le hd, ← hscaled, Nat.cast_pow, Nat.cast_ofNat, ← zpow_natCast, ← zpow_add₀ hten]
    convert hlo using 2
    omega
  · rw [Nat.div_lt_iff_lt_mul hd, ← Nat.not_le, ← hscaled, not_le, Nat.cast_pow, Nat.cast_ofNat, ← zpow_natCast,
      ← zpow_add₀ hten]
    exact hhi

theorem half_le_mod_iff {v : ℚ} {num den : Nat} {e : ℤ} (hd : 0 < den) (hv : num * 10 ^ e = v * den) :
    den ≤ 2 * (num % den) ↔
      ((num / den + 1 : Nat) * 10 ^ e - v : ℚ) ≤ v - (num / den : Nat) * 10 ^ e := by
  have hstep : (0 : ℚ) < 10 ^ e := by positivity
  have hden : (0 : ℚ) < den := by exact_mod_cast hd
  have hsplit : ((num % den : Nat) : ℚ) = num - (num / den : Nat) * den := by
    rw [eq_sub_iff_add_eq]
    exact_mod_cast Nat.mod_add_div' num den
  have hdiff : (v - (num / den : Nat) * 10 ^ e) - ((num / den + 1 : Nat) * 10 ^ e - v) =
      ((2 * (num % den) : Nat) - den : ℚ) * (10 ^ e / den) := by
    push_cast
    rw [hsplit]
    have hv' : v = num * 10 ^ e / den := by rw [hv, mul_div_cancel_right₀ _ hden.ne']
    rw [hv']
    field_simp
    ring
  rw [← sub_nonneg (b := ((num / den + 1 : Nat) * 10 ^ e - v : ℚ)), hdiff, mul_nonneg_iff_of_pos_right (by positivity),
    sub_nonneg]
  exact_mod_cast Iff.rfl

/-- The candidates of `n` digits are the corners of a cell around the magnitude. -/
theorem withDigits?_eq (he : 2 ≤ f.exponentBits) (hk : 0 < k) (hn : 0 < n) : ∃ c e, Cell (f.value k) n c e ∧
    withDigits? f k n = match readsAs f k c e, readsAs f k (c + 1) e with
      | true, true => some (if (c + 1 : Nat) * 10 ^ e - f.value k ≤ f.value k - c * 10 ^ e then c + 1 else c, e)
      | true, false => some (c, e)
      | false, true => some (c + 1, e)
      | false, false => none := by
  have hten : (10 : ℚ) ≠ 0 := by norm_num
  have hunits : 0 < f.units k := by simpa [BinaryFormat.units_zero] using f.units_strictMono hk
  have hone : 0 < 1 <<< f.scale := by
    rw [Nat.one_shiftLeft]
    exact Nat.two_pow_pos _
  obtain ⟨hlo, hhi⟩ := wholeDigits_spec hunits hone
  have hvalue : (f.units k : ℚ) / (1 <<< f.scale : Nat) = f.value k := by
    rw [BinaryFormat.value_eq he, Nat.one_shiftLeft]
    push_cast
    rfl
  rw [hvalue] at hlo hhi
  unfold withDigits?
  generalize wholeDigits (f.units k) (1 <<< f.scale) = wd at hlo hhi ⊢
  dsimp only
  obtain ⟨e, rfl⟩ : ∃ e, wd = n + e := ⟨wd - n, by omega⟩
  rw [add_sub_cancel_left]
  generalize hnum : f.units k * Nat.pow 10 (-e).toNat = num
  generalize hden : Nat.pow 10 e.toNat <<< f.scale = den
  have hd : 0 < den := by
    rw [← hden, Nat.shiftLeft_eq]
    exact Nat.mul_pos (Nat.pow_pos (by decide)) (Nat.two_pow_pos _)
  have hv : (num * 10 ^ e : ℚ) = f.value k * den := by
    have hsplit : (10 : ℚ) ^ (-e).toNat * 10 ^ e = 10 ^ e.toNat := by
      rw [← zpow_natCast, ← zpow_natCast, ← zpow_add₀ hten]
      congr 1
      omega
    rw [← hnum, ← hden, BinaryFormat.value_eq he, Nat.shiftLeft_eq]
    push_cast
    rw [mul_assoc, Nat.pow_eq, Nat.pow_eq]
    push_cast
    rw [hsplit]
    field_simp
  refine ⟨num / den, e, cell_div hn hd hv hlo hhi, ?_⟩
  cases readsAs f k (num / den) e <;> cases readsAs f k (num / den + 1) e
  case true.true => exact congrArg (fun c => some (c, e)) (if_congr (half_le_mod_iff hd hv) rfl rfl)
  all_goals rfl

/-! ## The candidates -/

/-- The corner below is closest if every candidate that is rounded lies below it, or it is closer than the other. -/
theorem Cell.closest_low {c : Nat} {e : ℤ} (h : Cell (f.value k) n c e) (hn : 0 < n) (hr : f.Rounds (c * 10 ^ e) k)
    (hhigh : f.Rounds ((c + 1 : Nat) * 10 ^ e) k → f.value k - c * 10 ^ e < (c + 1 : Nat) * 10 ^ e - f.value k)
    (hconv : ∀ y, f.Rounds y k → (c + 1 : Nat) * 10 ^ e ≤ y → f.Rounds ((c + 1 : Nat) * 10 ^ e) k) :
    Closest f k n (c * 10 ^ e) := by
  have hlow : |f.value k - c * 10 ^ e| = f.value k - c * 10 ^ e := abs_of_nonneg (sub_nonneg.mpr h.low)
  refine ⟨h.hasDigits_low, hr, fun y hy hyr => ?_, fun y hy hyr hdist => ?_⟩ <;> rw [hlow] at *
  · rcases h.neighbours hn hy with hle | hge
    · exact (sub_le_sub_left hle _).trans (le_abs_self _)
    · have := hhigh (hconv y hyr hge)
      exact (this.le.trans (sub_le_sub_right hge _)).trans ((le_abs_self _).trans_eq (abs_sub_comm _ _))
  · rcases h.neighbours hn hy with hle | hge
    · exact hle
    · have := hhigh (hconv y hyr hge)
      rw [abs_sub_comm, abs_of_nonneg (by linarith [h.high])] at hdist
      linarith

theorem Cell.closest_high {c : Nat} {e : ℤ} (h : Cell (f.value k) n c e) (hn : 0 < n)
    (hr : f.Rounds ((c + 1 : Nat) * 10 ^ e) k)
    (hlow : f.Rounds (c * 10 ^ e) k → (c + 1 : Nat) * 10 ^ e - f.value k ≤ f.value k - c * 10 ^ e)
    (hconv : ∀ y, f.Rounds y k → y ≤ c * 10 ^ e → f.Rounds (c * 10 ^ e) k) :
    Closest f k n ((c + 1 : Nat) * 10 ^ e) := by
  have hhigh : |f.value k - (c + 1 : Nat) * 10 ^ e| = (c + 1 : Nat) * 10 ^ e - f.value k := by
    rw [abs_sub_comm]
    exact abs_of_nonneg (sub_nonneg.mpr h.high.le)
  refine ⟨h.hasDigits_high hn, hr, fun y hy hyr => ?_, fun y hy hyr hdist => ?_⟩ <;> rw [hhigh] at *
  · rcases h.neighbours hn hy with hle | hge
    · have := hlow (hconv y hyr hle)
      exact (this.trans (sub_le_sub_left hle _)).trans (le_abs_self _)
    · exact (sub_le_sub_right hge _).trans ((le_abs_self _).trans_eq (abs_sub_comm _ _))
  · rcases h.neighbours hn hy with hle | hge
    · linarith [h.low, h.high]
    · rw [abs_sub_comm, abs_of_nonneg (by linarith [h.high])] at hdist
      linarith

/-- A candidate that is found is the closest of its digit count. -/
theorem closest_of_withDigits? (he : 2 ≤ f.exponentBits) (hk : 0 < k) (hinf : k ≤ f.infinity) (hn : 0 < n) {c : Nat}
    {e : ℤ} (h : withDigits? f k n = some (c, e)) : Closest f k n (c * 10 ^ e) := by
  have hv := BinaryFormat.rounds_value he hinf
  obtain ⟨c₀, e₀, hcell, heq⟩ := withDigits?_eq he hk hn
  have hlow : ∀ y, f.Rounds y k → y ≤ c₀ * 10 ^ e₀ → f.Rounds (c₀ * 10 ^ e₀) k := fun y hy hle =>
    hy.convex he hv hle hcell.low
  have hhigh : ∀ y, f.Rounds y k → (c₀ + 1 : Nat) * 10 ^ e₀ ≤ y → f.Rounds ((c₀ + 1 : Nat) * 10 ^ e₀) k :=
    fun y hy hge => hv.convex he hy hcell.high.le hge
  rw [heq] at h
  split at h
  · rename_i hl hu
    rw [readsAs_iff he] at hl hu
    cases h
    split
    · rename_i hup
      exact hcell.closest_high hn hu (fun _ => hup) hlow
    · rename_i hdown
      exact hcell.closest_low hn hl (fun _ => not_le.mp hdown) hhigh
  · rename_i hl hu
    rw [readsAs_iff he] at hl
    rw [← Bool.not_eq_true, readsAs_iff he] at hu
    cases h
    exact hcell.closest_low hn hl (fun hr => absurd hr hu) hhigh
  · rename_i hl hu
    rw [readsAs_iff he] at hu
    rw [← Bool.not_eq_true, readsAs_iff he] at hl
    cases h
    exact hcell.closest_high hn hu (fun hr => absurd hr hl) hlow
  · cases h

/-- If no candidate is found, no decimal of so many digits is rounded to the magnitude. -/
theorem not_rounds_of_withDigits? (he : 2 ≤ f.exponentBits) (hk : 0 < k) (hinf : k ≤ f.infinity) (hn : 0 < n)
    (h : withDigits? f k n = none) {y : ℚ} (hy : HasDigits n y) : ¬ f.Rounds y k := by
  intro hr
  have hv := BinaryFormat.rounds_value he hinf
  obtain ⟨c, e, hcell, heq⟩ := withDigits?_eq he hk hn
  rw [heq] at h
  rcases hcell.neighbours hn hy with hle | hge
  · have hl := (readsAs_iff he).mpr (hr.convex he hv hle hcell.low)
    rw [hl] at h
    split at h <;> simp_all
  · have hu := (readsAs_iff he).mpr (hv.convex he hr hcell.high.le hge)
    rw [hu] at h
    split at h <;> simp_all

/-- Seventeen digits are enough for a fraction of 52 bits. -/
theorem exists_rounds_seventeen (he : 2 ≤ f.exponentBits) (hf : f.fractionBits ≤ 52) (hk : 0 < k)
    (hinf : k ≤ f.infinity) : ∃ y, HasDigits 17 y ∧ f.Rounds y k := by
  have hn : 0 < 17 := by decide
  obtain ⟨c, e, hcell, -⟩ := withDigits?_eq he hk hn
  have hwidth : ((c + 1 : Nat) * 10 ^ e - c * 10 ^ e : ℚ) * 10 ^ 16 ≤ f.value k := by
    convert hcell.width_le using 1
    push_cast
    ring
  rcases BinaryFormat.rounds_of_close he hf hk hinf hcell.low hcell.high.le hwidth with hr | hr
  · exact ⟨_, hcell.hasDigits_low, hr⟩
  · exact ⟨_, hcell.hasDigits_high hn, hr⟩

/-- The first digit count with a decimal that is rounded to the magnitude is found. -/
theorem shortestFrom_spec (he : 2 ≤ f.exponentBits) (hk : 0 < k) (hinf : k ≤ f.infinity) : ∀ {tries n : Nat}, 0 < n →
    (∀ m y, HasDigits m y → f.Rounds y k → n ≤ m) → (∃ y, HasDigits (n + tries - 1) y ∧ f.Rounds y k) →
    ∃ m, Shortest f k m ((shortestFrom f k tries n).1 * 10 ^ (shortestFrom f k tries n).2)
  | 0, n, hn, hfewest, ⟨y, hy, hr⟩ => by
    have := hfewest _ y hy hr
    omega
  | tries + 1, n, hn, hfewest, ⟨y, hy, hr⟩ => by
    rw [shortestFrom]
    split
    · rename_i found h
      exact ⟨n, closest_of_withDigits? he hk hinf hn h, hfewest⟩
    · rename_i h
      refine shortestFrom_spec he hk hinf (Nat.succ_pos n) (fun m z hz hzr => ?_) ⟨y, ?_, hr⟩
      · have hle := hfewest m z hz hzr
        rcases Nat.lt_or_eq_of_le hle with hlt | rfl
        · exact hlt
        · exact absurd hzr (not_rounds_of_withDigits? he hk hinf hn h hz)
      · rwa [Nat.add_assoc, Nat.add_comm 1]

/-- **The decimal that is chosen is the shortest** that is rounded to the magnitude, and the closest to it of these. -/
theorem shortest_spec (he : 2 ≤ f.exponentBits) (hf : f.fractionBits ≤ 52) (hk : 0 < k) (hinf : k ≤ f.infinity) :
    ∃ n, Shortest f k n ((shortest f k).1 * 10 ^ (shortest f k).2) := by
  refine shortestFrom_spec he hk hinf Nat.one_pos (fun m y hy hr => ?_) (exists_rounds_seventeen he hf hk hinf)
  by_contra hm
  -- without digits there is only zero
  obtain rfl : m = 0 := by omega
  obtain ⟨c, e, hc, rfl⟩ := hy
  obtain rfl : c = 0 := by simpa using hc
  rw [Nat.cast_zero, zero_mul] at hr
  exact hk.ne ((BinaryFormat.rounds_zero he).unique he hr)

end TwinLink.FloatText
