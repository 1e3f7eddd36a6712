import TwinLink.Proofs.Frame.Stream

/-!
# Escaped strings

Escaping is undone by unescaping, and its results are the strings without a marker in which each escape mark is followed
by a byte that one was put in front of. On these strings unescaping is undone by escaping. It is defined on all others
too; there a run of escape marks counts as one.

* `Frame.marker_notMem_escape`, `Frame.length_escape` : what escaping writes;
* `Frame.unescape_escape`, `Frame.Escaped.escape_unescape` : each undoes the other;
* `Frame.exists_escape_iff`, `Frame.escaped_iff` : which strings are escaped ones;
* `Frame.unescape_run` : runs of escape marks; `Frame.unescape_snoc` : what one more byte adds;
* `Frame.escape_bijective` : all of these together.
-/

namespace TwinLink.Frame

variable {b : UInt8} {w : Bytes}

/-! ## What escaping writes -/

theorem marker_ne_escapeMark : marker ≠ escapeMark := by decide

/-- The byte before a reserved one is not reserved. -/
theorem pred_ne (hb : reserved b = true) : b - 1 ≠ marker ∧ b - 1 ≠ escapeMark := by
  rcases (reserved_iff b).mp hb with rfl | rfl <;> decide

theorem marker_notMem_escape (u : Bytes) : marker ∉ escape u := by
  induction u with
  | nil => exact List.not_mem_nil
  | cons b r ih =>
    rw [escape_cons, List.mem_append, not_or]
    refine ⟨?_, ih⟩
    split_ifs with hb
    · simpa [marker_ne_escapeMark] using (pred_ne hb).1.symm
    · have hm : b ≠ marker := by
        rintro rfl
        exact hb rfl
      simpa using hm.symm

/-- Each reserved byte takes one more. -/
theorem length_escape (u : Bytes) : (escape u).length = u.length + u.count marker + u.count escapeMark := by
  induction u with
  | nil => rfl
  | cons b r ih =>
    rw [escape_cons, List.length_append, ih, List.length_cons, List.count_cons, List.count_cons]
    by_cases hm : b = marker
    · subst hm
      simp [reserved, marker_ne_escapeMark]
      omega
    · by_cases he : b = escapeMark
      · subst he
        simp [reserved, marker_ne_escapeMark.symm]
        omega
      · simp [reserved, hm, he]
        omega

/-! ## Unescaping -/

@[simp] theorem unescapeFrom_nil (pending : Bool) : unescapeFrom pending [] = [] := rfl

@[simp] theorem unescapeFrom_mark (pending : Bool) (r : Bytes) :
    unescapeFrom pending (escapeMark :: r) = unescapeFrom true r := by
  rw [unescapeFrom, if_pos (beq_self_eq_true _)]

theorem unescapeFrom_cons (pending : Bool) (hb : b ≠ escapeMark) (r : Bytes) :
    unescapeFrom pending (b :: r) = (if pending then b + 1 else b) :: unescapeFrom false r := by
  rw [unescapeFrom, if_neg (by simpa using hb)]

/-- What was escaped is read again, whatever comes after it. -/
theorem unescape_escape_append (u v : Bytes) : unescape (escape u ++ v) = u ++ unescape v := by
  induction u with
  | nil => rfl
  | cons b r ih =>
    unfold unescape at ih ⊢
    rw [escape_cons]
    split_ifs with hb
    · simp only [List.cons_append, List.nil_append, unescapeFrom_mark]
      rw [unescapeFrom_cons true (pred_ne hb).2, ih, if_pos rfl, UInt8.sub_add_cancel]
    · have he : b ≠ escapeMark := by
        rintro rfl
        exact hb rfl
      simp only [List.cons_append, List.nil_append]
      rw [unescapeFrom_cons false he, ih]
      rfl

theorem unescape_escape (u : Bytes) : unescape (escape u) = u := by
  have h := unescape_escape_append u []
  rwa [List.append_nil, show unescape [] = [] from rfl, List.append_nil] at h

/-- A run of escape marks counts as one. -/
theorem unescapeFrom_run (pending : Bool) (u v : Bytes) (k : Nat) :
    unescapeFrom pending (u ++ List.replicate (k + 1) escapeMark ++ v) =
      unescapeFrom pending (u ++ escapeMark :: v) := by
  induction u generalizing pending with
  | nil =>
    rw [List.nil_append, List.nil_append]
    induction k generalizing pending with
    | zero => rfl
    | succ k ih =>
      rw [List.replicate_succ, List.cons_append, unescapeFrom_mark, ih true, unescapeFrom_mark, unescapeFrom_mark]
  | cons b r ih =>
    simp only [List.cons_append, unescapeFrom, ih]

theorem unescape_run (u v : Bytes) (k : Nat) :
    unescape (u ++ List.replicate (k + 1) escapeMark ++ v) = unescape (u ++ escapeMark :: v) :=
  unescapeFrom_run false u v k

/-- An escape mark at the end waits for its byte. -/
def endsInMark (u : Bytes) : Bool := u.getLast? == some escapeMark

theorem unescapeFrom_snoc (pending : Bool) (u : Bytes) (b : UInt8) :
    unescapeFrom pending (u ++ [b]) = unescapeFrom pending u ++ if b = escapeMark then [] else
      [if u.getLast?.elim pending (· == escapeMark) then b + 1 else b] := by
  induction u generalizing pending with
  | nil =>
    by_cases hb : b = escapeMark
    · rw [if_pos hb, hb, List.nil_append, unescapeFrom_mark]
      rfl
    · rw [if_neg hb, List.nil_append, unescapeFrom_cons pending hb]
      rfl
  | cons c r ih =>
    have hlast : (c :: r).getLast?.elim pending (· == escapeMark) =
        r.getLast?.elim (c == escapeMark) (· == escapeMark) := by
      rw [List.getLast?_cons]
      cases r.getLast? <;> rfl
    rw [hlast]
    by_cases hc : c = escapeMark
    · subst hc
      simp only [List.cons_append, unescapeFrom_mark, ih true, beq_self_eq_true]
    · rw [List.cons_append, unescapeFrom_cons pending hc, unescapeFrom_cons pending hc, ih false,
        beq_eq_false_iff_ne.mpr hc, List.cons_append]

/-- What one more byte adds to what is read. -/
theorem unescape_snoc (u : Bytes) (b : UInt8) : unescape (u ++ [b]) = unescape u ++
    if b = escapeMark then [] else [if endsInMark u then b + 1 else b] := by
  have hlast : u.getLast?.elim false (· == escapeMark) = endsInMark u := by
    unfold endsInMark
    cases u.getLast? <;> rfl
  rw [unescape, unescapeFrom_snoc, hlast]
  rfl

/-! ## Escaped strings -/

theorem Escaped.cons (hb : reserved b = false) (hw : Escaped w) : Escaped (b :: w) := by
  cases w with
  | nil => exact hb
  | cons c r =>
    have hn : ¬(b = marker ∨ b = escapeMark) := by
      rw [← reserved_iff, hb]
      exact Bool.false_ne_true
    rw [not_or] at hn
    rw [Escaped, if_neg hn.2]
    exact ⟨hn.1, hw⟩

theorem Escaped.mark (hb : reserved b = true) (hw : Escaped w) : Escaped (escapeMark :: (b - 1) :: w) := by
  rw [Escaped, if_pos rfl]
  refine ⟨?_, hw⟩
  rcases (reserved_iff b).mp hb with rfl | rfl
  · exact .inl rfl
  · exact .inr rfl

theorem escaped_escape (u : Bytes) : Escaped (escape u) := by
  induction u with
  | nil => exact trivial
  | cons b r ih =>
    rw [escape]
    split_ifs with hb
    · exact ih.mark hb
    · exact ih.cons (Bool.eq_false_iff.mpr hb)

/-- The two bytes that stand behind an escape mark are those before the reserved ones. -/
theorem escape_succ {c : UInt8} (hc : c = marker - 1 ∨ c = escapeMark - 1) (r : Bytes) :
    c ≠ escapeMark ∧ escape ((c + 1) :: r) = escapeMark :: c :: escape r := by
  rcases hc with rfl | rfl <;> exact ⟨by decide, rfl⟩

theorem Escaped.escape_unescape (hw : Escaped w) : escape (unescape w) = w := by
  unfold unescape
  induction w using Escaped.induct with
  | case1 => rfl
  | case2 b =>
    have hb : reserved b = false := hw
    have he : b ≠ escapeMark := by
      rintro rfl
      cases hb
    rw [unescapeFrom_cons false he, unescapeFrom_nil, if_neg Bool.false_ne_true, escape, hb]
    rfl
  | case3 c r ih =>
    rw [Escaped, if_pos rfl] at hw
    obtain ⟨he, hesc⟩ := escape_succ hw.1 (unescapeFrom false r)
    rw [unescapeFrom_mark, unescapeFrom_cons true he, if_pos rfl, hesc, ih hw.2]
  | case4 b c r he ih =>
    rw [Escaped, if_neg he] at hw
    have hb : reserved b = false := by simp [reserved, hw.1, he]
    rw [unescapeFrom_cons false he, if_neg Bool.false_ne_true, escape, hb, ih hw.2]
    rfl

/-- The strings that escaping writes are the escaped ones. -/
theorem exists_escape_iff : (∃ u, escape u = w) ↔ Escaped w := by
  constructor
  · rintro ⟨u, rfl⟩
    exact escaped_escape u
  · exact fun hw => ⟨unescape w, hw.escape_unescape⟩

/-- Each escape mark stands in front of a byte that needs one. -/
def MarksFollowed (w : Bytes) : Prop :=
  ∀ i, w[i]? = some escapeMark → w[i + 1]? = some 0x59 ∨ w[i + 1]? = some 0xEE

theorem marksFollowed_cons : MarksFollowed (b :: w) ↔
    (b = escapeMark → w[0]? = some 0x59 ∨ w[0]? = some 0xEE) ∧ MarksFollowed w := by
  constructor
  · intro h
    exact ⟨fun hb => h 0 (congrArg some hb), fun i hi => h (i + 1) hi⟩
  · rintro ⟨hb, hw⟩ i hi
    cases i with
    | zero => exact hb (Option.some.inj hi)
    | succ i => exact hw i hi

/-- An escaped string has no marker, and its escape marks stand in front of the bytes that need one. -/
theorem escaped_iff : Escaped w ↔ marker ∉ w ∧ MarksFollowed w := by
  induction w using Escaped.induct with
  | case1 => exact ⟨fun _ => ⟨List.not_mem_nil, nofun⟩, fun _ => trivial⟩
  | case2 b =>
    have hnil : MarksFollowed [] := nofun
    rw [Escaped, ← Bool.not_eq_true, reserved_iff, not_or, List.mem_singleton, marksFollowed_cons]
    simp [hnil, eq_comm]
  | case3 c r ih =>
    have hc : c = marker - 1 ∨ c = escapeMark - 1 → c ≠ marker ∧ c ≠ escapeMark := by
      rintro (rfl | rfl) <;> decide
    rw [Escaped, if_pos rfl, ih, marksFollowed_cons, marksFollowed_cons]
    constructor
    · rintro ⟨h, hm, hr⟩
      obtain ⟨hcm, hce⟩ := hc h
      refine ⟨?_, fun _ => ?_, fun he => absurd he hce, hr⟩
      · simpa [hcm.symm, hm] using marker_ne_escapeMark
      · exact h.imp (congrArg some) (congrArg some)
    · rintro ⟨hm, h, -, hr⟩
      refine ⟨(h rfl).imp Option.some.inj Option.some.inj, fun hmem => hm ?_, hr⟩
      exact List.mem_cons_of_mem _ (List.mem_cons_of_mem _ hmem)
  | case4 b c r he ih =>
    rw [Escaped, if_neg he, ih, marksFollowed_cons (b := b), List.mem_cons (b := b), not_or]
    constructor
    · exact fun ⟨hb, hm, hr⟩ => ⟨⟨Ne.symm hb, hm⟩, fun h => absurd h he, hr⟩
    · exact fun ⟨⟨hb, hm⟩, _, hr⟩ => ⟨Ne.symm hb, hm, hr⟩

/-- **Escaping is one to one between all strings and the escaped ones.** What is escaped has no marker, takes one more
byte for each reserved one, and is undone by unescaping; parts are escaped one after the other. The strings written are
those without a marker in which 0x59 or 0xEE stands behind each escape mark, and these are written again from what they
stand for. In any string a run of escape marks counts as one. -/
theorem escape_bijective :
    (∀ u, marker ∉ escape u ∧ (escape u).length = u.length + u.count marker + u.count escapeMark ∧
      unescape (escape u) = u) ∧
    (∀ u v, escape (u ++ v) = escape u ++ escape v) ∧
    (∀ w, (∃ u, escape u = w) ↔ marker ∉ w ∧
      ∀ i, w[i]? = some escapeMark → w[i + 1]? = some 0x59 ∨ w[i + 1]? = some 0xEE) ∧
    (∀ w, (∃ u, escape u = w) → escape (unescape w) = w) ∧
    (∀ u v k, unescape (u ++ List.replicate (k + 1) escapeMark ++ v) = unescape (u ++ escapeMark :: v)) := by
  refine ⟨fun u => ⟨marker_notMem_escape u, length_escape u, unescape_escape u⟩, escape_append, fun w => ?_,
    fun w hw => ?_, unescape_run⟩
  · exact exists_escape_iff.trans escaped_iff
  · exact (exists_escape_iff.mp hw).escape_unescape

end TwinLink.Frame
