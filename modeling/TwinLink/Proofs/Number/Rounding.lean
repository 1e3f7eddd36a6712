import Mathlib.Algebra.Order.Field.Basic
import Mathlib.Data.Rat.Cast.Order
import Mathlib.Algebra.Order.Field.Power
import Mathlib.Tactic.Positivity
import Mathlib.Tactic.Linarith
import Mathlib.Tactic.Ring
import Mathlib.Tactic.FieldSimp
import TwinLink.Number.Binary

/-!
# Rounding to a binary format

The magnitudes of a format stand for numbers that grow with them, each a gap above the one before. The gaps are even
within a binade and double from one binade to the next. Rounding is to the nearest magnitude, infinity among them with
the number that would come next, and to the even one of two.

* `BinaryFormat.units_succ`, `BinaryFormat.units_le_gaps` : the gaps, and their size;
* `BinaryFormat.value`, `BinaryFormat.value_eq` : the number of a magnitude by its two fields, and in units;
* `BinaryFormat.Rounds`, `BinaryFormat.rounds_iff` : rounding, and rounding by midpoints;
* `BinaryFormat.rounds_nearest`, `BinaryFormat.nearest_eq_iff` : what is computed is the rounding of a ratio;
* `BinaryFormat.rounds_of_close` : of two close numbers around a magnitude one is rounded to it.
-/

namespace TwinLink.BinaryFormat

variable {f : BinaryFormat}

/-! ## Gaps -/

/-- The distance to the next magnitude, in units. -/
def gap (f : BinaryFormat) (k : Nat) : Nat := 2 ^ (k / 2 ^ f.fractionBits - 1)

theorem gap_pos (f : BinaryFormat) (k : Nat) : 0 < f.gap k := Nat.two_pow_pos _

theorem units_low {b : Nat} (hb : b < 2 ^ f.fractionBits) : f.units b = b := by
  have h : b < 1 <<< f.fractionBits := by rwa [Nat.shiftLeft_eq, Nat.one_mul]
  rw [units]
  exact if_pos h

theorem units_high {a b : Nat} (hb : b < 2 ^ f.fractionBits) :
    f.units ((a + 1) * 2 ^ f.fractionBits + b) = (b + 2 ^ f.fractionBits) * 2 ^ a := by
  have hpos := Nat.two_pow_pos f.fractionBits
  rw [units]
  simp only [Nat.shiftLeft_eq, Nat.one_mul]
  generalize 2 ^ f.fractionBits = h at *
  have hle : h ≤ (a + 1) * h := Nat.le_mul_of_pos_left h (Nat.succ_pos a)
  rw [if_neg (by omega), Nat.mul_comm (a + 1) h, Nat.mul_add_mod, Nat.mod_eq_of_lt hb, Nat.mul_add_div hpos,
    Nat.div_eq_of_lt hb, Nat.add_zero, Nat.add_sub_cancel]

/-- Each magnitude is followed by the next at its gap. -/
theorem units_succ (f : BinaryFormat) (k : Nat) : f.units (k + 1) = f.units k + f.gap k := by
  have hpos := Nat.two_pow_pos f.fractionBits
  have hk := Nat.div_add_mod' k (2 ^ f.fractionBits)
  have hb := Nat.mod_lt k hpos
  unfold gap
  generalize k / 2 ^ f.fractionBits = a at hk ⊢
  generalize k % 2 ^ f.fractionBits = b at hk hb
  subst hk
  rcases Nat.lt_or_ge (b + 1) (2 ^ f.fractionBits) with hb' | hb'
  · cases a with
    | zero => simp [units_low hb, units_low hb']
    | succ a =>
      rw [Nat.add_assoc, units_high hb, units_high hb', Nat.add_sub_cancel]
      ring
  · -- the next magnitude opens the next binade
    have hb' : b + 1 = 2 ^ f.fractionBits := by omega
    have hnext : a * 2 ^ f.fractionBits + b + 1 = (a + 1) * 2 ^ f.fractionBits + 0 := by
      rw [Nat.add_assoc, hb']
      ring
    rw [hnext, units_high hpos]
    cases a with
    | zero =>
      simp only [Nat.zero_mul, Nat.zero_add, units_low hb]
      omega
    | succ a =>
      rw [units_high hb, Nat.add_sub_cancel, ← hb']
      ring

theorem units_strictMono (f : BinaryFormat) : StrictMono f.units :=
  strictMono_nat_of_lt_succ fun k => by
    rw [units_succ]
    exact Nat.lt_add_of_pos_right (f.gap_pos k)

theorem units_zero (f : BinaryFormat) : f.units 0 = 0 := units_low (Nat.two_pow_pos _)

/-- A significand of full length, or of any length where a unit is one step. -/
theorem units_significand {s m : Nat} (hm : m < 2 * 2 ^ f.fractionBits) (hs : s = 0 ∨ 2 ^ f.fractionBits ≤ m) :
    f.units (s * 2 ^ f.fractionBits + m) = m * 2 ^ s ∧ f.gap (s * 2 ^ f.fractionBits + m) = 2 ^ s := by
  have hpos := Nat.two_pow_pos f.fractionBits
  rcases Nat.lt_or_ge m (2 ^ f.fractionBits) with hlow | hhigh
  · obtain rfl := hs.resolve_right (Nat.not_le.mpr hlow)
    rw [Nat.zero_mul, Nat.zero_add, units_low hlow, gap, Nat.div_eq_of_lt hlow]
    exact ⟨(Nat.mul_one m).symm, rfl⟩
  · obtain ⟨b, rfl⟩ := Nat.exists_eq_add_of_le hhigh
    have hb : b < 2 ^ f.fractionBits := by omega
    have hk : s * 2 ^ f.fractionBits + (2 ^ f.fractionBits + b) = (s + 1) * 2 ^ f.fractionBits + b := by ring
    rw [hk, units_high hb, gap, Nat.mul_comm (s + 1), Nat.mul_add_div hpos, Nat.div_eq_of_lt hb, Nat.add_comm b]
    exact ⟨rfl, rfl⟩

/-- The magnitude below a value, and the one that is chosen of it and the next. -/
theorem nearest_eq (f : BinaryFormat) (num : Nat) {den : Nat} (hd : 0 < den) : ∃ b,
    f.units b * den ≤ num * 2 ^ f.scale ∧ num * 2 ^ f.scale < f.units (b + 1) * den ∧
    f.nearest num den = min (if 2 * (num * 2 ^ f.scale - f.units b * den) < f.gap b * den then b
      else if f.gap b * den < 2 * (num * 2 ^ f.scale - f.units b * den) then b + 1 else b + b % 2) f.infinity := by
  set y := num * 2 ^ f.scale with hy
  set s := (y / den).log2 - f.fractionBits with hs
  set m := y / (den * 2 ^ s) with hm
  have hstep : 0 < den * 2 ^ s := Nat.mul_pos hd (Nat.two_pow_pos s)
  have hmw : m = y / den / 2 ^ s := (Nat.div_div_eq_div_mul y den (2 ^ s)).symm
  have hlog : y / den < 2 ^ ((y / den).log2 + 1) := Nat.lt_log2_self
  have hbound : m < 2 * 2 ^ f.fractionBits := by
    rw [hmw, Nat.div_lt_iff_lt_mul (Nat.two_pow_pos s), ← Nat.pow_succ', ← Nat.pow_add]
    exact Nat.lt_of_lt_of_le hlog (Nat.pow_le_pow_right (by decide) (by omega))
  have hfull : s = 0 ∨ 2 ^ f.fractionBits ≤ m := by
    rcases Nat.eq_zero_or_pos s with h | h
    · exact .inl h
    · refine .inr ?_
      have hw : y / den ≠ 0 := fun h0 => by
        rw [h0] at hs
        simp at hs
        omega
      rw [hmw, Nat.le_div_iff_mul_le (Nat.two_pow_pos s), ← Nat.pow_add]
      exact Nat.le_trans (Nat.pow_le_pow_right (by decide) (by omega)) (Nat.log2_self_le hw)
  obtain ⟨hunits, hgap⟩ := units_significand hbound hfull
  have hsplit : m * 2 ^ s * den + y % (den * 2 ^ s) = y := by
    rw [Nat.mul_assoc, Nat.mul_comm (2 ^ s) den, Nat.mul_comm m]
    exact Nat.div_add_mod y _
  have hrest := Nat.mod_lt y hstep
  refine ⟨s * 2 ^ f.fractionBits + m, ?_, ?_, ?_⟩
  · rw [hunits]
    omega
  · rw [units_succ, hunits, hgap, Nat.add_mul, Nat.mul_comm (2 ^ s) den]
    omega
  · rw [hunits, hgap, nearest]
    simp only [Nat.shiftLeft_eq, ← hy, ← hs, ← hm]
    rw [Nat.mul_comm (2 ^ s) den, ← Nat.sub_eq_of_eq_add' hsplit.symm]

/-! ## Values -/

/-- The number that a magnitude stands for, by its exponent field and its fraction field. Infinity counts as the number
that would follow the largest finite one. -/
def value (f : BinaryFormat) (k : Nat) : ℚ :=
  let exponent : ℤ := k / 2 ^ f.fractionBits
  let fraction : ℚ := (k % 2 ^ f.fractionBits : Nat)
  let bias : ℤ := 2 ^ (f.exponentBits - 1) - 1
  if exponent = 0 then fraction * 2 ^ (1 - bias - f.fractionBits)
  else (2 ^ f.fractionBits + fraction) * 2 ^ (exponent - bias - f.fractionBits)

theorem value_eq (he : 2 ≤ f.exponentBits) (k : Nat) : f.value k = f.units k / 2 ^ f.scale := by
  have hscale : (f.scale : ℤ) = 2 ^ (f.exponentBits - 1) + f.fractionBits - 2 := by
    have h2 : 2 ^ 1 ≤ 2 ^ (f.exponentBits - 1) := Nat.pow_le_pow_right (by decide) (by omega)
    rw [scale, Nat.shiftLeft_eq, Nat.one_mul, Nat.cast_sub (by omega)]
    push_cast
    ring
  have hzero : (2 : ℚ) ≠ 0 := two_ne_zero
  have hpos := Nat.two_pow_pos f.fractionBits
  have hk := Nat.div_add_mod' k (2 ^ f.fractionBits)
  have hb := Nat.mod_lt k hpos
  rw [div_eq_mul_inv, ← zpow_natCast, ← zpow_neg, hscale]
  unfold value
  dsimp only
  rw [show ((k : ℤ) / 2 ^ f.fractionBits) = ((k / 2 ^ f.fractionBits : ℕ) : ℤ) by push_cast; rfl]
  generalize k / 2 ^ f.fractionBits = a at hk ⊢
  generalize k % 2 ^ f.fractionBits = b at hk hb ⊢
  subst hk
  cases a with
  | zero =>
    rw [Nat.cast_zero, if_pos rfl, Nat.zero_mul, Nat.zero_add, units_low hb]
    congr 2
    ring
  | succ a =>
    have ha : ((a + 1 : ℕ) : ℤ) ≠ 0 := by exact_mod_cast Nat.succ_ne_zero a
    have hsplit : ((2 : ℚ) ^ a) = 2 ^ (a : ℤ) := (zpow_natCast 2 a).symm
    rw [if_neg ha, units_high hb, Nat.cast_mul, Nat.cast_pow, Nat.cast_ofNat, hsplit, mul_assoc, ← zpow_add₀ hzero]
    push_cast
    rw [add_comm (b : ℚ)]
    congr 2
    ring

theorem value_strictMono (he : 2 ≤ f.exponentBits) : StrictMono f.value := fun j k h => by
  have hu : (f.units j : ℚ) < f.units k := by exact_mod_cast f.units_strictMono h
  rw [value_eq he, value_eq he]
  gcongr

/-! ## Rounding -/

/-- The magnitude `k` is the nearest to `x`, and the even one of two that are nearest. -/
structure Rounds (f : BinaryFormat) (x : ℚ) (k : Nat) : Prop where
  inRange : k ≤ f.infinity
  nearest : ∀ j ≤ f.infinity, |x - f.value k| ≤ |x - f.value j|
  even : ∀ j ≤ f.infinity, j ≠ k → |x - f.value j| = |x - f.value k| → k % 2 = 0

theorem dist_le_iff {a b x : ℚ} (h : a < b) : |x - b| ≤ |x - a| ↔ a + b ≤ 2 * x := by
  rw [← sq_le_sq]
  constructor <;> intro hx <;> nlinarith

theorem dist_ge_iff {a b x : ℚ} (h : a < b) : |x - a| ≤ |x - b| ↔ 2 * x ≤ a + b := by
  rw [← sq_le_sq]
  constructor <;> intro hx <;> nlinarith

theorem dist_eq_iff {a b x : ℚ} (h : a < b) : |x - a| = |x - b| ↔ 2 * x = a + b := by
  rw [le_antisymm_iff, dist_le_iff h, dist_ge_iff h, ← le_antisymm_iff]

/-- Rounding by the midpoints: `x` is not below the one between `k` and any smaller magnitude, and not above the one
between `k` and any larger. -/
theorem rounds_iff (he : 2 ≤ f.exponentBits) {x : ℚ} {k : Nat} : f.Rounds x k ↔ k ≤ f.infinity ∧
    (∀ j < k, f.value j + f.value k ≤ 2 * x ∧ (2 * x = f.value j + f.value k → k % 2 = 0)) ∧
    ∀ j ≤ f.infinity, k < j → 2 * x ≤ f.value k + f.value j ∧ (2 * x = f.value k + f.value j → k % 2 = 0) := by
  have hlt {j k : Nat} (h : j < k) : f.value j < f.value k := value_strictMono he h
  constructor
  · rintro ⟨hk, hnear, heven⟩
    refine ⟨hk, fun j hj => ⟨(dist_le_iff (hlt hj)).mp (hnear j (hj.le.trans hk)), fun hx => ?_⟩,
      fun j hj hkj => ⟨(dist_ge_iff (hlt hkj)).mp (hnear j hj), fun hx => ?_⟩⟩
    · exact heven j (hj.le.trans hk) hj.ne ((dist_eq_iff (hlt hj)).mpr hx)
    · exact heven j hj hkj.ne' ((dist_eq_iff (hlt hkj)).mpr hx).symm
  · rintro ⟨hk, hbelow, habove⟩
    refine ⟨hk, fun j hj => ?_, fun j hj hne hx => ?_⟩
    · rcases Nat.lt_trichotomy j k with h | rfl | h
      · exact (dist_le_iff (hlt h)).mpr (hbelow j h).1
      · exact le_rfl
      · exact (dist_ge_iff (hlt h)).mpr (habove j hj h).1
    · rcases Nat.lt_or_gt_of_ne hne with h | h
      · exact (hbelow j h).2 ((dist_eq_iff (hlt h)).mp hx)
      · exact (habove j hj h).2 ((dist_eq_iff (hlt h)).mp hx.symm)

/-- Rounding keeps the order. -/
theorem Rounds.mono (he : 2 ≤ f.exponentBits) {x y : ℚ} {k l : Nat} (hx : f.Rounds x k) (hy : f.Rounds y l)
    (h : x ≤ y) : k ≤ l := by
  by_contra hlk
  have hlk : l < k := Nat.not_le.mp hlk
  obtain ⟨hk, hbelow, -⟩ := (rounds_iff he).mp hx
  obtain ⟨-, -, habove⟩ := (rounds_iff he).mp hy
  obtain ⟨hxl, hxe⟩ := hbelow l hlk
  obtain ⟨hyk, hye⟩ := habove k hk hlk
  -- both lie on the midpoint, so both magnitudes are even, and the one between them is nearer
  have hk2 := hxe (by linarith)
  have hl2 := hye (by linarith)
  have hnext := (hbelow (l + 1) (by omega)).1
  have hstep := value_strictMono he (Nat.lt_succ_self l)
  linarith

theorem Rounds.unique (he : 2 ≤ f.exponentBits) {x : ℚ} {k l : Nat} (hk : f.Rounds x k) (hl : f.Rounds x l) : k = l :=
  Nat.le_antisymm (hk.mono he hl le_rfl) (hl.mono he hk le_rfl)

/-- What is rounded to a magnitude is an interval. -/
theorem Rounds.convex (he : 2 ≤ f.exponentBits) {x y z : ℚ} {k : Nat} (hx : f.Rounds x k) (hz : f.Rounds z k)
    (hxy : x ≤ y) (hyz : y ≤ z) : f.Rounds y k := by
  obtain ⟨hk, hbelow, -⟩ := (rounds_iff he).mp hx
  obtain ⟨-, -, habove⟩ := (rounds_iff he).mp hz
  refine (rounds_iff he).mpr ⟨hk, fun j hj => ?_, fun j hj hkj => ?_⟩
  · obtain ⟨hmid, heven⟩ := hbelow j hj
    exact ⟨by linarith, fun h => heven (by linarith)⟩
  · obtain ⟨hmid, heven⟩ := habove j hj hkj
    exact ⟨by linarith, fun h => heven (by linarith)⟩

/-- The midpoints next to a magnitude decide. -/
theorem rounds_of_between (he : 2 ≤ f.exponentBits) {x : ℚ} {k : Nat} (hk : k ≤ f.infinity)
    (hbelow : ∀ j, j + 1 = k → f.value j + f.value k ≤ 2 * x ∧ (2 * x = f.value j + f.value k → k % 2 = 0))
    (habove : k < f.infinity → 2 * x ≤ f.value k + f.value (k + 1) ∧
      (2 * x = f.value k + f.value (k + 1) → k % 2 = 0)) : f.Rounds x k := by
  have hmono := (value_strictMono he).monotone
  refine (rounds_iff he).mpr ⟨hk, fun j hj => ?_, fun j hj hkj => ?_⟩
  · have hle := hmono (show j ≤ k - 1 by omega)
    obtain ⟨hmid, heven⟩ := hbelow (k - 1) (by omega)
    exact ⟨by linarith, fun h => heven (by linarith)⟩
  · have hle := hmono (show k + 1 ≤ j by omega)
    obtain ⟨hmid, heven⟩ := habove (by omega)
    exact ⟨by linarith, fun h => heven (by linarith)⟩

theorem rounds_of_within (he : 2 ≤ f.exponentBits) {x : ℚ} {k : Nat} (hk : k ≤ f.infinity)
    (hbelow : ∀ j, j + 1 = k → f.value j + f.value k < 2 * x)
    (habove : k < f.infinity → 2 * x < f.value k + f.value (k + 1)) : f.Rounds x k :=
  rounds_of_between he hk (fun j hj => ⟨(hbelow j hj).le, fun h => absurd h (hbelow j hj).ne'⟩)
    fun h => ⟨(habove h).le, fun hx => absurd hx (habove h).ne⟩

theorem rounds_value (he : 2 ≤ f.exponentBits) {k : Nat} (hk : k ≤ f.infinity) : f.Rounds (f.value k) k := by
  refine rounds_of_within he hk (fun j hj => ?_) fun _ => ?_
  · have := value_strictMono he (show j < k by omega)
    linarith
  · have := value_strictMono he (Nat.lt_succ_self k)
    linarith

theorem rounds_zero (he : 2 ≤ f.exponentBits) : f.Rounds 0 0 := by
  have h := rounds_value he (Nat.zero_le f.infinity)
  rwa [value_eq he, units_zero, Nat.cast_zero, zero_div] at h

/-- The choice between the magnitude below a value and the next, by the midpoint between them. -/
theorem nearest_eq_value (he : 2 ≤ f.exponentBits) (num : Nat) {den : Nat} (hd : 0 < den) {x : ℚ}
    (hx : x = num / den) : ∃ b, f.value b ≤ x ∧ x < f.value (b + 1) ∧
      f.nearest num den = min (if 2 * x < f.value b + f.value (b + 1) then b
        else if f.value b + f.value (b + 1) < 2 * x then b + 1 else b + b % 2) f.infinity := by
  obtain ⟨b, hlo, hhi, hn⟩ := f.nearest_eq num hd
  have hden : (0 : ℚ) < den := by exact_mod_cast hd
  have hunit : (0 : ℚ) < 2 ^ f.scale := by positivity
  refine ⟨b, ?_, ?_, ?_⟩
  · rw [value_eq he, hx, div_le_div_iff₀ hunit hden]
    exact_mod_cast hlo
  · rw [value_eq he, hx, div_lt_div_iff₀ hden hunit]
    exact_mod_cast hhi
  · have hunits := f.units_succ b
    rw [hn, value_eq he, value_eq he, hx, hunits]
    set rest := num * 2 ^ f.scale - f.units b * den with hr
    have hhalf : ((2 * rest : Nat) : ℚ) - (f.gap b * den : Nat) = (2 * (num / den) -
        (f.units b / 2 ^ f.scale + (f.units b + f.gap b : Nat) / 2 ^ f.scale)) * (den * 2 ^ f.scale) := by
      rw [Nat.cast_mul, hr, Nat.cast_sub hlo]
      push_cast
      field_simp
      ring
    have hpos : (0 : ℚ) < den * 2 ^ f.scale := by positivity
    have hless : 2 * rest < f.gap b * den ↔
        2 * (num / den : ℚ) < f.units b / 2 ^ f.scale + (f.units b + f.gap b : Nat) / 2 ^ f.scale := by
      rw [← Nat.cast_lt (α := ℚ), ← sub_neg, hhalf, ← zero_mul (den * 2 ^ f.scale : ℚ), mul_lt_mul_iff_left₀ hpos,
        sub_neg]
    have hmore : f.gap b * den < 2 * rest ↔
        (f.units b / 2 ^ f.scale + (f.units b + f.gap b : Nat) / 2 ^ f.scale : ℚ) < 2 * (num / den) := by
      rw [← Nat.cast_lt (α := ℚ), ← sub_pos, hhalf, mul_pos_iff_of_pos_right hpos, sub_pos]
    simp only [hless, hmore]

/-- **The magnitude that is chosen is the nearest**, the even one of two. -/
theorem rounds_nearest (he : 2 ≤ f.exponentBits) (num : Nat) {den : Nat} (hd : 0 < den) :
    f.Rounds (num / den) (f.nearest num den) := by
  obtain ⟨b, hb, hb', hn⟩ := nearest_eq_value he num hd rfl
  have hlt {j k : Nat} (h : j < k) : f.value j < f.value k := value_strictMono he h
  generalize (num / den : ℚ) = x at hb hb' hn ⊢
  rw [hn]
  rcases Nat.lt_or_ge b f.infinity with hfin | hinf
  · rw [Nat.min_eq_left (by split_ifs <;> omega)]
    have hbelow : ∀ j, j + 1 = b → f.value j + f.value b < 2 * x := fun j hj => by
      linarith [hlt (show j < b by omega)]
    have habove : 2 * x < f.value (b + 1) + f.value (b + 2) := by
      linarith [hlt (Nat.lt_succ_self (b + 1))]
    split_ifs with hless hmore
    · exact rounds_of_within he hfin.le hbelow fun _ => hless
    · refine rounds_of_within he hfin (fun j hj => ?_) fun _ => habove
      obtain rfl : j = b := Nat.succ.inj hj
      exact hmore
    · -- a tie
      have hmid : 2 * x = f.value b + f.value (b + 1) := le_antisymm (not_lt.mp hmore) (not_lt.mp hless)
      rcases Nat.mod_two_eq_zero_or_one b with hpar | hpar <;> rw [hpar]
      · exact rounds_of_between he hfin.le (fun j hj => ⟨(hbelow j hj).le, fun _ => hpar⟩) fun _ =>
          ⟨hmid.le, fun _ => hpar⟩
      · have heven : (b + 1) % 2 = 0 := by omega
        refine rounds_of_between he hfin (fun j hj => ?_) fun _ => ⟨habove.le, fun _ => heven⟩
        obtain rfl : j = b := Nat.succ.inj hj
        exact ⟨hmid.ge, fun _ => heven⟩
  · rw [Nat.min_eq_right (by split_ifs <;> omega)]
    refine rounds_of_within he le_rfl (fun j hj => ?_) fun h => absurd h (lt_irrefl _)
    linarith [hlt (show j < f.infinity by omega), (value_strictMono he).monotone hinf]

theorem nearest_eq_iff (he : 2 ≤ f.exponentBits) {num den k : Nat} (hd : 0 < den) :
    f.nearest num den = k ↔ f.Rounds (num / den) k := by
  constructor
  · rintro rfl
    exact rounds_nearest he num hd
  · exact fun h => (rounds_nearest he num hd).unique he h

/-! ## Precision -/

/-- A magnitude is at most as many steps as its significand counts, the steps on both sides of it averaged. -/
theorem units_le_gaps (f : BinaryFormat) (k : Nat) :
    f.units (k + 1) ≤ 2 ^ f.fractionBits * (f.gap k + f.gap (k + 1)) := by
  have hgap : f.gap k ≤ f.gap (k + 1) :=
    Nat.pow_le_pow_right (by decide) (Nat.sub_le_sub_right (Nat.div_le_div_right (Nat.le_succ k)) 1)
  have hstep : f.units (k + 1) ≤ 2 ^ f.fractionBits * (2 * f.gap k) := by
    have hpos := Nat.two_pow_pos f.fractionBits
    have hk := Nat.div_add_mod' k (2 ^ f.fractionBits)
    have hb := Nat.mod_lt k hpos
    rw [units_succ]
    unfold gap
    generalize k / 2 ^ f.fractionBits = a at hk ⊢
    generalize k % 2 ^ f.fractionBits = b at hk hb
    subst hk
    cases a with
    | zero =>
      rw [Nat.zero_mul, Nat.zero_add, units_low hb, Nat.zero_sub, Nat.pow_zero]
      omega
    | succ a =>
      rw [units_high hb, Nat.add_sub_cancel, ← Nat.succ_mul, ← Nat.mul_assoc]
      exact Nat.mul_le_mul_right _ (by omega)
  exact hstep.trans (Nat.mul_le_mul_left _ (by omega))

/-- Of two numbers around a magnitude that lie close together for its size, one is rounded to it. A step of
`10 ^ -16` is close enough for a fraction of 52 bits. -/
theorem rounds_of_close (he : 2 ≤ f.exponentBits) (hf : f.fractionBits ≤ 52) {x y : ℚ} {k : Nat} (hpos : 0 < k)
    (hk : k ≤ f.infinity) (hx : x ≤ f.value k) (hy : f.value k ≤ y) (hxy : (y - x) * 10 ^ 16 ≤ f.value k) :
    f.Rounds x k ∨ f.Rounds y k := by
  obtain ⟨k, rfl⟩ := Nat.exists_eq_add_of_lt hpos
  rw [Nat.zero_add] at *
  have hlo := value_strictMono he (Nat.lt_succ_self k)
  have hhi := value_strictMono he (Nat.lt_succ_self (k + 1))
  have hwide : f.value (k + 1) ≤ 2 ^ 52 * (f.value (k + 2) - f.value k) := by
    have hu : f.units (k + 1) ≤ 2 ^ 52 * (f.units (k + 2) - f.units k) := by
      rw [f.units_succ (k + 1), f.units_succ k, Nat.add_assoc, Nat.add_sub_cancel_left]
      rw [← units_succ]
      exact (f.units_le_gaps k).trans (Nat.mul_le_mul_right _ (Nat.pow_le_pow_right (by decide) hf))
    have hle := (f.units_strictMono (show k < k + 2 by omega)).le
    have hu' : (f.units (k + 1) : ℚ) ≤ 2 ^ 52 * (f.units (k + 2) - f.units k) := by exact_mod_cast hu
    rw [value_eq he, value_eq he, value_eq he, ← sub_div, ← mul_div_assoc]
    gcongr
  by_cases hx' : f.value k + f.value (k + 1) < 2 * x
  · refine .inl (rounds_of_within he hk (fun j hj => ?_) fun _ => by linarith)
    obtain rfl : j = k := Nat.succ.inj hj
    exact hx'
  · by_cases hy' : 2 * y < f.value (k + 1) + f.value (k + 2)
    · refine .inr (rounds_of_within he hk (fun j hj => ?_) fun _ => hy')
      obtain rfl : j = k := Nat.succ.inj hj
      linarith
    · linarith

end TwinLink.BinaryFormat
