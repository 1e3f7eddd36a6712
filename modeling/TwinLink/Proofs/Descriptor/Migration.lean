import TwinLink.Proofs.Descriptor.RoundTrip

/-!
# Descriptors from one revision to the other

What a descriptor holds does not depend on the revision in which it was read. It can be written in either, except that
the second revision has room for identifiers of interfaces that the first has not, and what is written is read back as
the same descriptor. Bytes of one revision that hold an interface are refused by the other at the first marker.

* `Descriptor.fits_iff` : in which texts the two revisions differ;
* `Descriptor.Spelled.fits`, `Descriptor.Spelled.distinct` : what reading in one revision guarantees for the other;
* `Descriptor.Spelled.toBytes_longId` : the identifier that the first revision has no room for;
* `Descriptor.Spelled.refused` : bytes of the wrong revision;
* `Descriptor.parse_migrated` : reading in one revision, writing in another, and reading again.
-/

namespace TwinLink

variable {r : Revision} {bs : Bytes}

/-! ## What reading guarantees -/

theorem Field.Spelled.fits {f : Field} (h : f.Spelled bs) :
    (Text.utf8 f.name).length ≤ 255 ∧ (Text.utf8 f.displayName).length ≤ 255 ∧
      (Text.utf8 f.description).length ≤ 255 := by
  obtain ⟨hn, hd, hx⟩ := h
  exact ⟨Nat.le_of_lt_succ hn.length_lt, Nat.le_of_lt_succ hd.length_lt, Nat.le_of_lt_succ hx.length_lt⟩

/-- The texts of a record stand behind one byte in both revisions. -/
theorem Record.Spelled.fits {x : Record} (h : x.Spelled r bs) : ∀ t ∈ x.texts, t.Fits := by
  obtain ⟨hf, hb⟩ := h
  have hfield := hf.fits
  generalize hg : x.field = g at hb hfield
  cases hb with
  | command => simpa [Record.texts, SizedText.Fits, SizedText.length, Record.field] using hfield
  | property _ hu =>
    have hunits := Nat.le_of_lt_succ hu.length_lt
    simpa [Record.texts, SizedText.Fits, SizedText.length, Record.field] using ⟨hfield.1, hfield.2.1, hfield.2.2, hunits⟩
  | event hu =>
    have hunits := Nat.le_of_lt_succ hu.length_lt
    simpa [Record.texts, SizedText.Fits, SizedText.length, Record.field] using ⟨hfield.1, hfield.2.1, hfield.2.2, hunits⟩

/-- The fields of an interface are the records that were read, sorted by kind. -/
theorem Interface.mem_records {id : String} {xs : List Record} {x : Record}
    (h : x ∈ (Interface.ofRecords id xs).records) : x ∈ xs := by
  simp only [Interface.records, Interface.ofRecords, List.mem_append, List.mem_map, List.mem_filterMap] at h
  obtain (⟨_, ⟨y, hy, he⟩, rfl⟩ | ⟨_, ⟨y, hy, he⟩, rfl⟩) | ⟨_, ⟨y, hy, he⟩, rfl⟩ := h <;> cases y <;> cases he <;>
    exact hy

/-- Sorting records by kind keeps the names of each kind distinct. -/
theorem Record.Distinct.ofRecords {xs : List Record} (h : Record.Distinct xs) (id : String) :
    (Interface.ofRecords id xs).Distinct where
  commands := List.pairwise_map.mpr <| h.filterMap Record.command? fun x y hxy c hc e he => by
    cases x <;> cases hc
    cases y <;> cases he
    exact hxy rfl
  properties := List.pairwise_map.mpr <| h.filterMap Record.property? fun x y hxy c hc e he => by
    cases x <;> cases hc
    cases y <;> cases he
    exact hxy rfl
  events := List.pairwise_map.mpr <| h.filterMap Record.event? fun x y hxy c hc e he => by
    cases x <;> cases hc
    cases y <;> cases he
    exact hxy rfl

theorem Interface.Spelled.distinct {i : Interface} (h : i.Spelled r bs) : i.Distinct := by
  obtain ⟨-, -, hd⟩ := h
  exact hd.ofRecords _

theorem Interface.Spelled.fits {i : Interface} (h : i.Spelled r bs) :
    (Text.utf8 i.id).length ≤ r.idLimit ∧ ∀ x ∈ i.records, ∀ t ∈ x.texts, t.Fits := by
  obtain ⟨hid, hxs, -⟩ := h
  have hlt := hid.length_lt
  rw [r.span_width] at hlt
  exact ⟨Nat.le_of_lt_succ hlt, fun x hx => hxs.forall (fun _ _ hy => hy.fits) x (Interface.mem_records hx)⟩

/-- The identifier has no room behind a length of one byte. -/
def Interface.LongId (i : Interface) : Prop := 255 < (Text.utf8 i.id).length

namespace Descriptor

variable {d : Descriptor}

/-- The revision matters to the identifiers of interfaces, and to no other text. -/
theorem fits_iff : (∀ t ∈ d.texts r, t.Fits) ↔ (Text.utf8 d.displayName).length ≤ 255 ∧
    ∀ i ∈ d.interfaces, (Text.utf8 i.id).length ≤ r.idLimit ∧ ∀ x ∈ i.records, ∀ t ∈ x.texts, t.Fits := by
  simp only [texts, Interface.texts, List.forall_mem_cons, List.forall_mem_flatMap, SizedText.Fits, SizedText.length]

/-- What was read fits, in the revision in which it was read. -/
theorem Spelled.fits (h : d.Spelled r bs) : ∀ t ∈ d.texts r, t.Fits := by
  obtain ⟨_, hn, his⟩ := h
  exact fits_iff.mpr ⟨Nat.le_of_lt_succ hn.length_lt, his.forall fun _ _ hi => hi.fits⟩

theorem Spelled.distinct (h : d.Spelled r bs) : ∀ i ∈ d.interfaces, i.Distinct := by
  obtain ⟨-, -, his⟩ := h
  exact his.forall fun _ _ hi => hi.distinct

/-! ## Writing in the other revision -/

variable {origin target : Revision}

/-- What was read in one revision can be written in either, but for long identifiers in the first. -/
theorem Spelled.fits_iff_migrated (h : d.Spelled origin bs) : (∀ t ∈ d.texts target, t.Fits) ↔
    ¬(origin = .v2 ∧ target = .v1 ∧ ∃ i ∈ d.interfaces, i.LongId) := by
  obtain ⟨hname, his⟩ := fits_iff.mp h.fits
  constructor
  · rintro hfits ⟨-, rfl, i, hi, hlong⟩
    exact Nat.not_lt.mpr ((fits_iff.mp hfits).2 i hi).1 hlong
  · intro hnone
    refine fits_iff.mpr ⟨hname, fun i hi => ⟨?_, (his i hi).2⟩⟩
    have hle := (his i hi).1
    cases target with
    | v2 => cases origin <;> simp only [Revision.idLimit] at hle ⊢ <;> omega
    | v1 =>
      cases origin with
      | v1 => exact hle
      | v2 => exact Nat.not_lt.mp fun hlong => hnone ⟨rfl, rfl, i, hi, hlong⟩

/-- Writing in the first revision stops at the first long identifier. -/
theorem Spelled.toBytes_longId (h : d.Spelled origin bs) {before after : List Interface} {i : Interface}
    (hd : d.interfaces = before ++ i :: after) (hbefore : ∀ j ∈ before, ¬j.LongId) (hi : i.LongId) :
    d.toBytes .v1 = .error (.fieldTooLong .interfaceId (Text.utf8 i.id).length) := by
  obtain ⟨hname, his⟩ := fits_iff.mp h.fits
  have htexts : d.texts .v1 = (⟨.displayName, 255, d.displayName⟩ :: before.flatMap (Interface.texts .v1)) ++
      ⟨.interfaceId, 255, i.id⟩ :: (i.records.flatMap Record.texts ++ after.flatMap (Interface.texts .v1)) := by
    simp only [texts, hd, List.flatMap_append, List.flatMap_cons, Interface.texts, Revision.idLimit, List.cons_append]
  refine (d.checks .v1).error htexts ?_ (Nat.not_le.mpr hi)
  refine List.forall_mem_cons.mpr ⟨hname, List.forall_mem_flatMap.mpr fun j hj => ?_⟩
  have hrecords := (his j (hd ▸ List.mem_append_left _ hj)).2
  exact List.forall_mem_cons.mpr ⟨Nat.not_lt.mp (hbefore j hj), List.forall_mem_flatMap.mpr hrecords⟩

/-! ## Reading in the wrong revision -/

/-- The length of what comes before the first interface: version byte, length byte and display name. -/
def headerLength (d : Descriptor) : Nat := 2 + (Text.utf8 d.displayName).length

/-- The first marker of a descriptor is where the other revision stops reading. -/
theorem Spelled.refused (h : d.Spelled r bs) (hd : d.interfaces ≠ []) {other : Revision} (hr : other ≠ r) :
    bs[d.headerLength]? = some r.marker ∧ Descriptor.parse other bs = .error (.unknownRecord d.headerLength r.marker) := by
  obtain ⟨version, hn, his⟩ := h
  rename_i name is n b
  obtain ⟨i, a, b, hi, rfl⟩ : ∃ i a c, Interface.Spelled r i a ∧ b = a ++ c := by
    cases his with
    | nil => exact absurd rfl hd
    | cons hi _ => exact ⟨_, _, _, hi, rfl⟩
  obtain ⟨rest, rfl⟩ := Reader.opens i a hi
  have hlength : (version :: n).length = headerLength ⟨version, name, is⟩ := by
    rw [List.length_cons, hn.length_eq]
    simp only [headerLength]
    omega
  have hmarker : r.marker ≠ other.marker := by
    cases r <;> cases other <;> first | exact absurd rfl hr | decide
  refine ⟨by rw [← hlength, ← List.cons_append, List.getElem?_append_right (Nat.le_refl _)]; simp, ?_⟩
  have hh := Reader.reads_header.run (a := (version, name)) (t := r.marker :: rest ++ b) ⟨n, hn, rfl⟩ trivial 0
  rw [Nat.zero_add, hlength] at hh
  rw [← List.cons_append, parse_of_header hh, List.cons_append, Reader.interfaces_unknown hmarker]
  rfl

/-- What becomes of a descriptor that was read in one revision when it is written in another. -/
structure Migrated (origin target : Revision) (bs : Bytes) (d : Descriptor) : Prop where
  /-- It can be written, unless it goes from the second revision to the first with a long identifier. -/
  written : (∃ out, d.toBytes target = .ok out) ↔
    ¬(origin = .v2 ∧ target = .v1 ∧ ∃ i ∈ d.interfaces, i.LongId)
  /-- Then the first long identifier is what is reported. -/
  tooLong : origin = .v2 → target = .v1 → (∃ i ∈ d.interfaces, i.LongId) → ∃ before i after,
    d.interfaces = before ++ i :: after ∧ (∀ j ∈ before, ¬j.LongId) ∧ i.LongId ∧
      d.toBytes target = .error (.fieldTooLong .interfaceId (Text.utf8 i.id).length)
  /-- What is written is read back as the same descriptor. -/
  kept : ∀ out, d.toBytes target = .ok out → parse target out = .ok d
  /-- If there is an interface, what is written is refused by the other revision at the first marker. -/
  refused : d.interfaces ≠ [] → ∀ out, d.toBytes target = .ok out → ∀ other, other ≠ target →
    out[d.headerLength]? = some target.marker ∧ parse other out = .error (.unknownRecord d.headerLength target.marker)
  /-- So were the bytes that were read. -/
  refusedBefore : d.interfaces ≠ [] → ∀ other, other ≠ origin →
    bs[d.headerLength]? = some origin.marker ∧ parse other bs = .error (.unknownRecord d.headerLength origin.marker)

/-- **Migration keeps the descriptor.** For all bytes and revisions: what was read in one revision can be written in the
other and is read back as the same descriptor, except that the first revision has no room for an identifier of more than
255 bytes. A revision refuses the bytes of the other at the first marker. -/
theorem parse_migrated (origin target : Revision) (bs : Bytes) (d : Descriptor) (h : parse origin bs = .ok d) :
    Migrated origin target bs d := by
  have hs := spelled_of_parse h
  have kept : ∀ out, d.toBytes target = .ok out → parse target out = .ok d :=
    fun out hout => parse_written hout hs.distinct
  constructor
  case written => exact (d.checks target).ok_iff.trans hs.fits_iff_migrated
  case tooLong =>
    rintro rfl rfl ⟨i, hi, hlong⟩
    obtain ⟨before, i, after, hd, hbefore, hi⟩ := exists_first (p := fun i => ¬i.LongId) fun hall => hall i hi hlong
    exact ⟨before, i, after, hd, hbefore, not_not.mp hi, hs.toBytes_longId hd hbefore (not_not.mp hi)⟩
  case kept => exact kept
  case refused => exact fun hd out hout other hr => (spelled_of_parse (kept out hout)).refused hd hr
  case refusedBefore => exact fun hd other hr => hs.refused hd hr

/-- An interface with one property, read in the second revision and written in the first. -/
theorem parse_migrated_oneProperty :
    let d : Descriptor := ⟨1, "", [⟨"a", [⟨⟨"b", "", ""⟩, "", false, true, .string⟩], [], []⟩]⟩
    parse .v2 [1, 0, 5, 1, 0, 97, 2, 1, 98, 0, 0, 0, 7, 0, 1] = .ok d ∧
      parse .v1 [1, 0, 4, 1, 97, 2, 1, 98, 0, 0, 0, 7, 1] = .ok d ∧
      parse .v2 [1, 0, 4, 1, 97, 2, 1, 98, 0, 0, 0, 7, 1] = .error (.unknownRecord 2 4) := by
  intro d
  have hread : parse .v2 [1, 0, 5, 1, 0, 97, 2, 1, 98, 0, 0, 0, 7, 0, 1] = .ok d := by decide +kernel
  have hwritten : d.toBytes .v1 = .ok [1, 0, 4, 1, 97, 2, 1, 98, 0, 0, 0, 7, 1] := by decide +kernel
  have hm := parse_migrated .v2 .v1 _ d hread
  exact ⟨hread, hm.kept _ hwritten, (hm.refused (List.cons_ne_nil _ _) _ hwritten .v2 (by decide)).2⟩

end Descriptor
end TwinLink
