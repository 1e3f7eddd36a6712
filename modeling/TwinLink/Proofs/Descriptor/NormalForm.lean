import Mathlib.Data.List.Forall2
import TwinLink.Proofs.Descriptor.Migration

/-!
# The normal form of a descriptor

Reading forgets two things: how the records of different kinds were mixed, and six bits of the flags of each property.
Writing puts commands first, then properties, then events, and zeros into these bits. So writing what was read moves the
bytes of whole records, changes bytes of flags, and leaves everything else.

* `regroup tag xs` : the items by kind, those of one kind in the order given; `regroup_eq_self` : if they were grouped;
* `Interface.Layout`, `Descriptor.Layout` : bytes cut into heads and records; `LaidOut` : what they are the layout of;
* `Descriptor.spelled_iff`, `Descriptor.LaidOut.unique` : whatever is spelled has a layout, and only one;
* `Descriptor.Layout.normal` : the records regrouped and their flags masked; `Descriptor.LaidOut.normal` : it means the
  same; `Descriptor.LaidOut.toBytes` : it is what writing writes;
* `Descriptor.toBytes_normalForm` : reading, then writing.
-/

namespace TwinLink

/-! ## Regrouping -/

section

variable {α : Type}

/-- Commands, then properties, then events, each in the order given. -/
def regroup (tag : α → UInt8) (xs : List α) : List α :=
  xs.filter (tag · = FieldKind.command.tag) ++ (xs.filter (tag · = FieldKind.property.tag) ++
    xs.filter (tag · = FieldKind.event.tag))

/-- No command comes after a property or an event, and no property after an event. -/
def Grouped (tag : α → UInt8) (xs : List α) : Prop := xs.Pairwise fun x y => tag x ≤ tag y

/-- Each item is of some kind. -/
def Tagged (tag : α → UInt8) (xs : List α) : Prop := ∀ x ∈ xs, ∃ kind : FieldKind, tag x = kind.tag

variable {tag : α → UInt8} {x : α} {xs : List α}

theorem regroup_perm (h : Tagged tag xs) : (regroup tag xs).Perm xs := by
  induction xs with
  | nil => exact .nil
  | cons x xs ih =>
    obtain ⟨⟨kind, hx⟩, hxs⟩ := List.forall_mem_cons.mp h
    refine .trans ?_ ((ih hxs).cons x)
    cases kind with
    | command => simp [regroup, hx, FieldKind.tag]
    | property => simp [regroup, hx, FieldKind.tag]
    | event => simp [regroup, hx, FieldKind.tag, ← List.append_assoc]

/-- The least of the items stays in front. -/
theorem regroup_cons {kind : FieldKind} (hx : tag x = kind.tag) (h : ∀ y ∈ xs, tag x ≤ tag y) :
    regroup tag (x :: xs) = x :: regroup tag xs := by
  have hnone : ∀ k : FieldKind, k.tag < kind.tag → xs.filter (tag · = k.tag) = [] := fun k hk => by
    refine List.filter_eq_nil_iff.mpr fun y hy => ?_
    have hlt : k.tag < tag y := UInt8.lt_of_lt_of_le hk (hx ▸ h y hy)
    simpa using (UInt8.ne_of_lt hlt).symm
  cases kind with
  | command => simp [regroup, hx, FieldKind.tag]
  | property =>
    have hc := hnone .command (by decide)
    simp only [FieldKind.tag] at hc hx
    simp [regroup, hx, FieldKind.tag, hc]
  | event =>
    have hc := hnone .command (by decide)
    have hp := hnone .property (by decide)
    simp only [FieldKind.tag] at hc hp hx
    simp [regroup, hx, FieldKind.tag, hc, hp]

theorem regroup_eq_self (h : Tagged tag xs) (hg : Grouped tag xs) : regroup tag xs = xs := by
  induction xs with
  | nil => rfl
  | cons x xs ih =>
    obtain ⟨⟨kind, hx⟩, hxs⟩ := List.forall_mem_cons.mp h
    obtain ⟨hle, hg⟩ := List.pairwise_cons.mp hg
    rw [regroup_cons hx hle, ih hxs hg]

theorem grouped_regroup (tag : α → UInt8) (xs : List α) : Grouped tag (regroup tag xs) := by
  have hsame : ∀ k : FieldKind, Grouped tag (xs.filter (tag · = k.tag)) := fun k =>
    List.pairwise_of_forall_mem_list fun x hx y hy => by
      simp only [List.mem_filter, decide_eq_true_eq] at hx hy
      rw [hx.2, hy.2]
      exact UInt8.le_refl _
  have hle : ∀ j k : FieldKind, j.tag ≤ k.tag → ∀ x ∈ xs.filter (tag · = j.tag), ∀ y ∈ xs.filter (tag · = k.tag),
      tag x ≤ tag y := fun j k hjk x hx y hy => by
    simp only [List.mem_filter, decide_eq_true_eq] at hx hy
    rw [hx.2, hy.2]
    exact hjk
  refine List.pairwise_append.mpr ⟨hsame _, List.pairwise_append.mpr ⟨hsame _, hsame _, ?_⟩, fun x hx y hy => ?_⟩
  · exact hle _ _ (by decide)
  · rcases List.mem_append.mp hy with hy | hy
    · exact hle _ _ (by decide) x hx y hy
    · exact hle _ _ (by decide) x hx y hy

end

theorem Record.map_filterMap {β : Type} {f : β → Record} {g : Record → Option β} {k : FieldKind}
    (h : ∀ x, (g x).map f = if x.kind.tag = k.tag then some x else none) (xs : List Record) :
    (xs.filterMap g).map f = xs.filter (·.kind.tag = k.tag) := by
  rw [List.map_filterMap, ← List.filterMap_eq_filter]
  congr 1
  funext x
  rw [h x, Option.guard_def]
  simp

/-- Sorting records by kind and listing them again regroups them. -/
theorem Interface.records_ofRecords (id : String) (xs : List Record) :
    (Interface.ofRecords id xs).records = regroup (fun x => x.kind.tag) xs := by
  have hc := Record.map_filterMap (f := .command) (g := Record.command?) (k := .command) (fun x => by cases x <;> rfl) xs
  have hp := Record.map_filterMap (f := .property) (g := Record.property?) (k := .property)
    (fun x => by cases x <;> rfl) xs
  have he := Record.map_filterMap (f := .event) (g := Record.event?) (k := .event) (fun x => by cases x <;> rfl) xs
  rw [records, ofRecords, hc, hp, he, List.append_assoc, regroup]

/-! ## The bytes of a record -/

namespace Record

/-- The byte that opens a record. -/
def tagOf (a : Bytes) : UInt8 := a.headD 0

/-- A property without any flags but the two that count; the flags are its last byte. -/
def maskFlags (a : Bytes) : Bytes :=
  if tagOf a = FieldKind.property.tag then a.dropLast ++ [a.getLastD 0 &&& 3] else a

/-- If this is a property, it has no flags but the two that count. -/
def Masked (a : Bytes) : Prop := tagOf a = FieldKind.property.tag → a.getLastD 0 < 4

theorem toNat_and_three (b : UInt8) : (b &&& 3).toNat = b.toNat % 4 := by
  rw [UInt8.toNat_and]
  exact Nat.and_two_pow_sub_one_eq_mod b.toNat 2

theorem exists_snoc {a : Bytes} (h : tagOf a = FieldKind.property.tag) : ∃ i b, a = i ++ [b] := by
  rcases List.eq_nil_or_concat a with rfl | ⟨i, b, rfl⟩
  · cases h
  · exact ⟨i, b, List.concat_eq_append⟩

theorem maskFlags_snoc {i : Bytes} {b : UInt8} (h : tagOf (i ++ [b]) = FieldKind.property.tag) :
    maskFlags (i ++ [b]) = i ++ [b &&& 3] := by
  rw [maskFlags, if_pos h, List.dropLast_concat, List.getLastD_concat]

theorem maskFlags_of_ne {a : Bytes} (h : tagOf a ≠ FieldKind.property.tag) : maskFlags a = a := if_neg h

theorem length_maskFlags (a : Bytes) : (maskFlags a).length = a.length := by
  by_cases h : tagOf a = FieldKind.property.tag
  · obtain ⟨i, b, rfl⟩ := exists_snoc h
    rw [maskFlags_snoc h, List.length_append, List.length_append]
    rfl
  · rw [maskFlags_of_ne h]

theorem tagOf_maskFlags (a : Bytes) : tagOf (maskFlags a) = tagOf a := by
  by_cases h : tagOf a = FieldKind.property.tag
  · obtain ⟨i, b, rfl⟩ := exists_snoc h
    rw [maskFlags_snoc h]
    cases i with
    | nil =>
      obtain rfl : b = FieldKind.property.tag := h
      decide
    | cons => rfl
  · rw [maskFlags_of_ne h]

theorem masked_maskFlags (a : Bytes) : Masked (maskFlags a) := by
  intro h
  rw [tagOf_maskFlags] at h
  obtain ⟨i, b, rfl⟩ := exists_snoc h
  rw [maskFlags_snoc h, List.getLastD_concat, UInt8.lt_iff_toNat_lt, toNat_and_three]
  exact Nat.mod_lt _ (by decide)

theorem Masked.maskFlags_eq {a : Bytes} (hm : Masked a) : maskFlags a = a := by
  by_cases h : tagOf a = FieldKind.property.tag
  · have hlt := hm h
    obtain ⟨i, b, rfl⟩ := exists_snoc h
    rw [List.getLastD_concat, UInt8.lt_iff_toNat_lt] at hlt
    have hb : b &&& 3 = b := UInt8.toNat_inj.mp (by rw [toNat_and_three]; exact Nat.mod_eq_of_lt hlt)
    rw [maskFlags_snoc h, hb]
  · exact maskFlags_of_ne h

theorem Spelled.tagOf {r : Revision} {x : Record} {a : Bytes} (h : x.Spelled r a) : tagOf a = x.kind.tag := by
  cases h
  rfl

end Record

/-! ## Layouts -/

/-- The bytes of an interface, cut into the marker with the identifier, and the records. -/
structure Interface.Layout where
  head : Bytes
  records : List Bytes
deriving DecidableEq, Repr

def Interface.Layout.bytes (l : Interface.Layout) : Bytes := l.head ++ l.records.flatten

/-- The bytes of a descriptor, cut into the version byte with the display name, and the interfaces. -/
structure Descriptor.Layout where
  head : Bytes
  interfaces : List Interface.Layout
deriving DecidableEq, Repr

def Descriptor.Layout.bytes (l : Descriptor.Layout) : Bytes := l.head ++ (l.interfaces.map (·.bytes)).flatten

/-- The layout of an interface in the grammar: one piece for each record. -/
inductive Interface.LaidOut (r : Revision) : Interface → Interface.Layout → Prop
  | mk {id : String} {xs : List Record} {i : Bytes} {pieces : List Bytes} (hi : Text.Spelled r.width id i)
      (hxs : List.Forall₂ (Record.Spelled r) xs pieces) (hd : Record.Distinct xs) :
      Interface.LaidOut r (.ofRecords id xs) ⟨r.marker :: i, pieces⟩

/-- The layout of a descriptor in the grammar. -/
inductive Descriptor.LaidOut (r : Revision) : Descriptor → Descriptor.Layout → Prop
  | mk (version : UInt8) {name : String} {n : Bytes} {is : List Interface} {ls : List Interface.Layout}
      (hn : Text.Spelled 1 name n) (his : List.Forall₂ (Interface.LaidOut r) is ls) :
      Descriptor.LaidOut r ⟨version, name, is⟩ ⟨version :: n, ls⟩

/-- One item after the other, each with its own piece. -/
theorem listSpelled_iff {α β : Type} {P : α → Bytes → Prop} {Q : α → β → Prop} {g : β → Bytes}
    (h : ∀ x a, P x a ↔ ∃ y, Q x y ∧ g y = a) {xs : List α} {bs : Bytes} :
    ListSpelled P xs bs ↔ ∃ ys, List.Forall₂ Q xs ys ∧ (ys.map g).flatten = bs := by
  constructor
  · intro hs
    induction hs with
    | nil => exact ⟨[], .nil, rfl⟩
    | cons hx _ ih =>
      obtain ⟨y, hy, rfl⟩ := (h _ _).mp hx
      obtain ⟨ys, hys, rfl⟩ := ih
      exact ⟨y :: ys, .cons hy hys, rfl⟩
  · rintro ⟨ys, hys, rfl⟩
    induction hys with
    | nil => exact .nil
    | cons hy _ ih => exact .cons ((h _ _).mpr ⟨_, hy, rfl⟩) ih

variable {r : Revision}

theorem records_spelled_iff {xs : List Record} {bs : Bytes} : ListSpelled (Record.Spelled r) xs bs ↔
    ∃ pieces, List.Forall₂ (Record.Spelled r) xs pieces ∧ pieces.flatten = bs := by
  have h : ∀ x a, Record.Spelled r x a ↔ ∃ y, Record.Spelled r x y ∧ id y = a := fun x a =>
    ⟨fun hx => ⟨a, hx, rfl⟩, fun ⟨_, hx, he⟩ => he ▸ hx⟩
  simpa using listSpelled_iff h

theorem Interface.spelled_iff {i : Interface} {bs : Bytes} :
    i.Spelled r bs ↔ ∃ l : Interface.Layout, i.LaidOut r l ∧ l.bytes = bs := by
  constructor
  · rintro ⟨hi, hxs, hd⟩
    obtain ⟨pieces, hp, rfl⟩ := records_spelled_iff.mp hxs
    exact ⟨_, .mk hi hp hd, rfl⟩
  · rintro ⟨l, ⟨hi, hp, hd⟩, rfl⟩
    exact .mk hi (records_spelled_iff.mpr ⟨_, hp, rfl⟩) hd

theorem interfaces_spelled_iff {is : List Interface} {bs : Bytes} : ListSpelled (Interface.Spelled r) is bs ↔
    ∃ ls, List.Forall₂ (Interface.LaidOut r) is ls ∧ (ls.map (·.bytes)).flatten = bs :=
  listSpelled_iff (P := Interface.Spelled r) fun _ _ => Interface.spelled_iff

/-- What is spelled is what has a layout. -/
theorem Descriptor.spelled_iff {d : Descriptor} {bs : Bytes} :
    d.Spelled r bs ↔ ∃ l : Descriptor.Layout, d.LaidOut r l ∧ l.bytes = bs := by
  constructor
  · rintro ⟨version, hn, his⟩
    obtain ⟨ls, hls, rfl⟩ := interfaces_spelled_iff.mp his
    exact ⟨_, .mk version hn hls, rfl⟩
  · rintro ⟨l, ⟨version, hn, hls⟩, rfl⟩
    exact .mk version hn (interfaces_spelled_iff.mpr ⟨_, hls, rfl⟩)

/-! ## There is only one -/

/-- A step reads the same bytes in the same way, whatever comes after them. -/
theorem Reader.Reads.unique {α : Type} {m : Reader α} {P : α → Bytes → Prop} {stop : Bytes → Prop}
    (hm : Reads m P stop) {x y : α} {a b t u : Bytes} (ha : P x a) (hb : P y b) (ht : stop t) (hu : stop u)
    (he : a ++ t = b ++ u) : a = b ∧ t = u := by
  have hx := hm.run ha ht 0
  rw [he, hm.run hb hu 0] at hx
  obtain rfl : u = t := congrArg (fun c => c.2.rest) (Except.ok.inj hx)
  exact ⟨List.append_cancel_right he, rfl⟩

theorem Text.Spelled.unique {w : Nat} {s s' : String} {a b t u : Bytes} (h : Text.Spelled w s a)
    (h' : Text.Spelled w s' b) (he : a ++ t = b ++ u) : a = b ∧ t = u :=
  (Reader.reads_sized w).unique h h' trivial trivial he

theorem FieldKind.tag_injective {j k : FieldKind} (h : j.tag = k.tag) : j = k :=
  Option.some.inj ((ofTag?_tag j).symm.trans ((congrArg ofTag? h).trans (ofTag?_tag k)))

theorem Record.Spelled.unique {x y : Record} {a b t u : Bytes} (hx : x.Spelled r a) (hy : y.Spelled r b)
    (he : a ++ t = b ++ u) : a = b ∧ t = u := by
  obtain ⟨k, a, rfl, rfl⟩ : ∃ k c, x.kind = k ∧ a = k.tag :: c := by cases hx; exact ⟨_, _, rfl, rfl⟩
  obtain ⟨k, b, hk, rfl⟩ : ∃ k c, y.kind = k ∧ b = k.tag :: c := by cases hy; exact ⟨_, _, rfl, rfl⟩
  obtain ⟨htag, hrest⟩ := List.cons.inj he
  obtain rfl := FieldKind.tag_injective htag
  have hnew : ∀ z : Record, z.NewTo [] := fun _ => List.forall_mem_nil _
  obtain ⟨rfl, rfl⟩ := (Reader.reads_record r "" [] x.kind).unique ⟨rfl, hnew x, hx⟩ ⟨hk, hnew y, hy⟩ trivial
    trivial hrest
  exact ⟨rfl, rfl⟩

/-- Records end where no tag follows, so their bytes are cut in one way. -/
theorem Record.pieces_unique {xs ys : List Record} {pieces pieces' : List Bytes} {t u : Bytes}
    (hx : List.Forall₂ (Record.Spelled r) xs pieces) (hy : List.Forall₂ (Record.Spelled r) ys pieces')
    (ht : Reader.Ends t) (hu : Reader.Ends u) (he : pieces.flatten ++ t = pieces'.flatten ++ u) :
    pieces = pieces' ∧ t = u := by
  -- the first byte of a record is a tag, and no byte that ends them is
  have hcut : ∀ {x : Record} {a s v : Bytes}, x.Spelled r a → Reader.Ends v → v ≠ a ++ s := fun hx hv he => by
    cases hx
    exact Reader.tag_le _ (hv _ (by rw [he]; rfl))
  induction hx generalizing ys pieces' with
  | nil =>
    cases hy with
    | nil => exact ⟨rfl, he⟩
    | cons hy _ => exact absurd (he.trans (List.append_assoc _ _ _)) (hcut hy ht)
  | cons hx _ ih =>
    cases hy with
    | nil => exact absurd (he.symm.trans (List.append_assoc _ _ _)) (hcut hx hu)
    | cons hy hys =>
      rw [List.flatten_cons, List.flatten_cons, List.append_assoc, List.append_assoc] at he
      obtain ⟨rfl, hrest⟩ := hx.unique hy he
      obtain ⟨rfl, rfl⟩ := ih hys hrest
      exact ⟨rfl, rfl⟩

theorem Interface.LaidOut.unique {i j : Interface} {l l' : Interface.Layout} {t u : Bytes} (h : i.LaidOut r l)
    (h' : j.LaidOut r l') (ht : Reader.Ends t) (hu : Reader.Ends u) (he : l.bytes ++ t = l'.bytes ++ u) :
    l = l' ∧ t = u := by
  obtain ⟨hi, hxs, -⟩ := h
  obtain ⟨hi', hxs', -⟩ := h'
  simp only [Layout.bytes, List.cons_append, List.append_assoc, List.cons.injEq, true_and] at he
  obtain ⟨rfl, hrest⟩ := hi.unique hi' he
  obtain ⟨rfl, rfl⟩ := Record.pieces_unique hxs hxs' ht hu hrest
  exact ⟨rfl, rfl⟩

theorem Interface.layouts_unique {is js : List Interface} {ls ls' : List Interface.Layout}
    (h : List.Forall₂ (Interface.LaidOut r) is ls) (h' : List.Forall₂ (Interface.LaidOut r) js ls')
    (he : (ls.map (·.bytes)).flatten = (ls'.map (·.bytes)).flatten) : ls = ls' := by
  have hends : ∀ {is : List Interface} {ls : List Interface.Layout}, List.Forall₂ (Interface.LaidOut r) is ls →
      Reader.Ends (ls.map (·.bytes)).flatten := fun h =>
    Reader.Ends.list Reader.opens (interfaces_spelled_iff.mpr ⟨_, h, rfl⟩)
  induction h generalizing js ls' with
  | nil =>
    cases h' with
    | nil => rfl
    | cons hi _ => cases hi; cases he
  | cons hi his ih =>
    cases h' with
    | nil => cases hi; cases he
    | cons hi' his' =>
      obtain ⟨rfl, hrest⟩ := hi.unique hi' (hends his) (hends his') he
      rw [ih his' hrest]

/-- Bytes have one layout at most. -/
theorem Descriptor.LaidOut.unique {d d' : Descriptor} {l l' : Descriptor.Layout} (h : d.LaidOut r l)
    (h' : d'.LaidOut r l') (he : l.bytes = l'.bytes) : l = l' := by
  obtain ⟨version, hn, his⟩ := h
  obtain ⟨version', hn', his'⟩ := h'
  simp only [Layout.bytes, List.cons_append, List.cons.injEq] at he
  obtain ⟨rfl, he⟩ := he
  obtain ⟨rfl, hrest⟩ := hn.unique hn' he
  rw [Interface.layouts_unique his his' hrest]

/-! ## Writing what was read -/

theorem Bytes.ofNat_eq {w n : Nat} {a : Bytes} (hw : a.length = w) (hn : Bytes.toNat a = n) : Bytes.ofNat w n = a := by
  rw [← hw, ← hn, Bytes.ofNat_toNat]

theorem Text.Spelled.toBytes {w : Nat} {s : String} {a : Bytes} (h : Text.Spelled w s a) (part : TextPart) :
    part.toBytes w s = .ok a := by
  have hlt := h.length_lt
  obtain ⟨size, hw, hn⟩ := h
  rw [TextPart.toBytes, if_pos hlt, Bytes.ofNat_eq hw hn]

theorem Schema.Spelled.codeBytes {s : Schema} {a : Bytes} (h : s.Spelled r a) : s.codeBytes r = a :=
  Bytes.ofNat_eq h.width h.code

theorem Field.Spelled.toBytes {f : Field} {a : Bytes} (h : f.Spelled a) : f.toBytes = .ok a := by
  obtain ⟨hn, hd, hx⟩ := h
  simp only [Field.toBytes, hn.toBytes, hd.toBytes, hx.toBytes, Bind.bind, Except.bind, pure, Except.pure,
    List.append_assoc]

/-- Reading and writing keep the two low bits of the flags. -/
theorem Property.flags_eq {f : Field} {units : String} {type : Schema} (flags : UInt8) :
    Property.flags ⟨f, units, flags.toNat.testBit 1, flags.toNat.testBit 0, type⟩ = flags &&& 3 := by
  apply UInt8.toNat_inj.mp
  rw [Record.toNat_and_three]
  simp only [Property.flags, Nat.testBit, Nat.shiftRight_eq_div_pow, Nat.one_and_eq_mod_two, bne_iff_ne]
  split_ifs <;> simp <;> omega

/-- A record is written as it was read, but for the flags that do not count. -/
theorem Record.Spelled.toBytes {x : Record} {a : Bytes} (h : x.Spelled r a) : x.toBytes r = .ok (maskFlags a) := by
  have htag := h.tagOf
  obtain ⟨hf, hb⟩ := h
  rename_i n b
  have hfield := hf.toBytes
  generalize hg : x.field = g at hb hfield
  cases hb with
  | command hq hs =>
    have hne : FieldKind.command.tag ≠ FieldKind.property.tag := by decide
    rw [Record.toBytes, hg, hfield, maskFlags_of_ne (htag.trans_ne hne)]
    simp only [Bind.bind, Except.bind, pure, Except.pure, hq.codeBytes, hs.codeBytes, List.append_assoc]
  | @property units type u s flags hu hs =>
    have hsnoc : ∀ c : UInt8, FieldKind.property.tag :: (n ++ (u ++ (s ++ [c]))) =
        FieldKind.property.tag :: (n ++ (u ++ s)) ++ [c] := fun c => by simp
    rw [Record.toBytes, hg, hfield, Record.kind, hsnoc, maskFlags_snoc rfl, ← hsnoc]
    simp only [Bind.bind, Except.bind, pure, Except.pure, hu.toBytes, hs.codeBytes, Property.flags_eq,
      List.append_assoc]
  | event hu hs =>
    have hne : FieldKind.event.tag ≠ FieldKind.property.tag := by decide
    rw [Record.toBytes, hg, hfield, maskFlags_of_ne (htag.trans_ne hne)]
    simp only [Bind.bind, Except.bind, pure, Except.pure, hu.toBytes, hs.codeBytes, List.append_assoc]

theorem mapM_of_forall₂ {α β : Type} {P : α → β → Prop} {f : α → Except DescriptorError Bytes} {g : β → Bytes}
    (h : ∀ x y, P x y → f x = .ok (g y)) {xs : List α} {ys : List β} (hs : List.Forall₂ P xs ys) :
    xs.mapM f = .ok (ys.map g) := by
  induction hs with
  | nil => rfl
  | cons hx _ ih =>
    rw [List.mapM_cons, h _ _ hx, ih]
    rfl

/-! ## The normal form -/

/-- The records regrouped, and the flags that do not count cleared. -/
def Interface.Layout.normal (l : Interface.Layout) : Interface.Layout :=
  ⟨l.head, (regroup Record.tagOf l.records).map Record.maskFlags⟩

def Descriptor.Layout.normal (l : Descriptor.Layout) : Descriptor.Layout := ⟨l.head, l.interfaces.map (·.normal)⟩

/-- The records are grouped by kind, and no property has flags that do not count. -/
def Interface.Layout.IsNormal (l : Interface.Layout) : Prop :=
  Grouped Record.tagOf l.records ∧ ∀ a ∈ l.records, Record.Masked a

theorem Record.tagged {xs : List Record} {pieces : List Bytes} (h : List.Forall₂ (Record.Spelled r) xs pieces) :
    Tagged Record.tagOf pieces := by
  induction h with
  | nil => exact List.forall_mem_nil _
  | cons hx _ ih => exact List.forall_mem_cons.mpr ⟨⟨_, hx.tagOf⟩, ih⟩

/-- Records are regrouped as their pieces are. -/
theorem Record.forall₂_regroup {xs : List Record} {pieces : List Bytes}
    (h : List.Forall₂ (Record.Spelled r) xs pieces) :
    List.Forall₂ (Record.Spelled r) (regroup (fun x => x.kind.tag) xs) (regroup Record.tagOf pieces) := by
  have hkind : ∀ k : FieldKind, List.Forall₂ (Record.Spelled r) (xs.filter (·.kind.tag = k.tag))
      (pieces.filter (Record.tagOf · = k.tag)) := fun k =>
    List.rel_filter (fun x a hx => by simp [hx.tagOf]) h
  exact List.rel_append (hkind _) (List.rel_append (hkind _) (hkind _))

namespace Interface.LaidOut

variable {i : Interface} {l : Interface.Layout}

/-- The records of the interface, in the order of writing, are the pieces regrouped. -/
theorem forall₂_records (h : i.LaidOut r l) :
    List.Forall₂ (Record.Spelled r) i.records (regroup Record.tagOf l.records) := by
  obtain ⟨-, hxs, -⟩ := h
  rw [Interface.records_ofRecords]
  exact Record.forall₂_regroup hxs

theorem toBytes (h : i.LaidOut r l) : i.toBytes r = .ok l.normal.bytes := by
  have hrecords := mapM_of_forall₂ (fun _ _ hx => Record.Spelled.toBytes hx) h.forall₂_records
  obtain ⟨hi, -, -⟩ := h
  rw [Interface.toBytes, hrecords]
  simp only [Interface.ofRecords, hi.toBytes, Bind.bind, Except.bind, pure, Except.pure]
  rfl

/-- The normal form is a layout of the same interface. -/
theorem normal (h : i.LaidOut r l) : i.LaidOut r l.normal := by
  have hrecords : List.Forall₂ (Record.Spelled r) i.records l.normal.records :=
    List.forall₂_map_right_iff.mpr (h.forall₂_records.imp fun _ _ hx => Record.spelled hx.toBytes)
  obtain ⟨hi, hxs, hd⟩ := h
  rename_i id xs a pieces
  have hn : (Interface.ofRecords (Interface.ofRecords id xs).id (Interface.ofRecords id xs).records).LaidOut r _ :=
    .mk hi hrecords (Interface.distinct_iff.mp (hd.ofRecords id))
  rwa [Interface.ofRecords_records] at hn

theorem length_normal (h : i.LaidOut r l) : l.normal.bytes.length = l.bytes.length := by
  obtain ⟨-, hxs, -⟩ := h
  have hlen : List.length ∘ Record.maskFlags = List.length := funext Record.length_maskFlags
  simp only [Layout.bytes, Layout.normal, List.length_append, List.length_flatten, List.map_map, hlen]
  rw [((regroup_perm (Record.tagged hxs)).map List.length).sum_nat]

/-- What is in normal form already stays as it is, and nothing else does. -/
theorem normal_eq_iff (h : i.LaidOut r l) : l.normal = l ↔ l.IsNormal := by
  constructor
  · intro he
    rw [← he]
    refine ⟨?_, List.forall_mem_map.mpr fun a _ => Record.masked_maskFlags a⟩
    refine List.pairwise_map.mpr ((grouped_regroup _ _).imp fun hle => ?_)
    rwa [Record.tagOf_maskFlags, Record.tagOf_maskFlags]
  · rintro ⟨hg, hm⟩
    obtain ⟨-, hxs, -⟩ := h
    rw [Layout.normal, regroup_eq_self (Record.tagged hxs) hg, List.map_congr_left fun a ha => (hm a ha).maskFlags_eq,
      List.map_id']

end Interface.LaidOut

namespace Descriptor

variable {d : Descriptor} {l : Descriptor.Layout} {bs : Bytes}

theorem LaidOut.forall_mem (h : d.LaidOut r l) : ∀ s ∈ l.interfaces, ∃ i : Interface, i.LaidOut r s := by
  obtain ⟨_, -, his⟩ := h
  induction his with
  | nil => exact List.forall_mem_nil _
  | cons hi _ ih => exact List.forall_mem_cons.mpr ⟨⟨_, hi⟩, ih⟩

/-- Writing writes the normal form of what was read. -/
theorem LaidOut.toBytes (h : d.LaidOut r l) : d.toBytes r = .ok l.normal.bytes := by
  obtain ⟨version, hn, his⟩ := h
  have hbytes := mapM_of_forall₂ (fun _ _ hi => Interface.LaidOut.toBytes hi) his
  rw [Descriptor.toBytes, hbytes]
  simp only [hn.toBytes, Bind.bind, Except.bind, pure, Except.pure, Layout.bytes, Layout.normal, List.map_map,
    List.cons_append]
  rfl

/-- The normal form is a layout of the same descriptor. -/
theorem LaidOut.normal (h : d.LaidOut r l) : d.LaidOut r l.normal := by
  obtain ⟨version, hn, his⟩ := h
  exact .mk version hn (List.forall₂_map_right_iff.mpr (his.imp fun _ _ hi => hi.normal))

theorem LaidOut.length_normal (h : d.LaidOut r l) : l.normal.bytes.length = l.bytes.length := by
  have hlen : l.interfaces.map (fun s => s.normal.bytes.length) = l.interfaces.map (·.bytes.length) :=
    List.map_congr_left fun s hs => by
      obtain ⟨i, hi⟩ := h.forall_mem s hs
      exact hi.length_normal
  simp only [Layout.bytes, Layout.normal, List.length_append, List.length_flatten, List.map_map, Function.comp_def, hlen]

theorem LaidOut.normal_eq_iff (h : d.LaidOut r l) : l.normal = l ↔ ∀ s ∈ l.interfaces, s.IsNormal := by
  have hself : l.normal = l ↔ ∀ s ∈ l.interfaces, s.normal = s := by
    obtain ⟨head, ls⟩ := l
    have hmap := List.map_inj_left (l := ls) (f := Interface.Layout.normal) (g := id)
    rw [List.map_id] at hmap
    simp only [Layout.normal, Layout.mk.injEq, true_and]
    exact hmap
  rw [hself]
  refine forall₂_congr fun s hs => ?_
  obtain ⟨i, hi⟩ := h.forall_mem s hs
  exact hi.normal_eq_iff

/-- What becomes of bytes that were read when they are written again, `l` being the layout of the bytes. -/
structure Normalized (r : Revision) (bs : Bytes) (d : Descriptor) (l : Descriptor.Layout) : Prop where
  /-- The bytes are cut as the grammar says, -/
  layout : d.LaidOut r l ∧ l.bytes = bs
  /-- and cannot be cut in another way. -/
  unique : ∀ (d' : Descriptor) (l' : Descriptor.Layout), d'.LaidOut r l' → l'.bytes = bs → l' = l
  /-- Writing can be done, and writes the normal form, -/
  written : d.toBytes r = .ok l.normal.bytes
  /-- which has the same length, -/
  length_eq : l.normal.bytes.length = bs.length
  /-- and is the same if it was there already. -/
  fixed : l.normal.bytes = bs ↔ ∀ s ∈ l.interfaces, s.IsNormal
  /-- Reading and writing that changes nothing. -/
  again : (parse r l.normal.bytes >>= fun d' => d'.toBytes r) = .ok l.normal.bytes

/-- **Writing what was read gives the normal form.** For all bytes and both revisions: what was read can be written, and
is written as the bytes that were read, with the records of each interface regrouped into commands, properties and
events, those of one kind in their order, and with the flags of each property reduced to their two low bits. That is as
long as before, the same only if it was grouped and masked before, and not changed when it is read and written again. -/
theorem toBytes_normalForm (r : Revision) (bs : Bytes) (d : Descriptor) (h : parse r bs = .ok d) :
    ∃ l, Normalized r bs d l := by
  obtain ⟨l, hl, rfl⟩ := spelled_iff.mp (spelled_of_parse h)
  refine ⟨l, ⟨hl, rfl⟩, fun d' l' hl' he => hl'.unique hl he, hl.toBytes, hl.length_normal, ?_, ?_⟩
  · exact ⟨fun he => hl.normal_eq_iff.mp (hl.normal.unique hl he), fun hs => by rw [hl.normal_eq_iff.mpr hs]⟩
  · have hread : parse r l.normal.bytes = .ok d := (spelled_iff.mpr ⟨_, hl.normal, rfl⟩).parse
    rw [hread]
    exact hl.toBytes

/-- An interface with an event, a property with stray flags, and a command, which change places. -/
theorem toBytes_normalForm_mixed :
    let bs : Bytes := [1, 0, 4, 1, 97, 3, 1, 101, 0, 0, 0, 4, 2, 1, 98, 0, 0, 0, 7, 0xFD, 1, 1, 99, 0, 0, 0, 1]
    let normal : Bytes := [1, 0, 4, 1, 97, 1, 1, 99, 0, 0, 0, 1, 2, 1, 98, 0, 0, 0, 7, 1, 3, 1, 101, 0, 0, 0, 4]
    let d : Descriptor := ⟨1, "", [⟨"a", [⟨⟨"b", "", ""⟩, "", false, true, .string⟩],
      [⟨⟨"c", "", ""⟩, .invalid, .byte⟩], [⟨⟨"e", "", ""⟩, "", .int⟩]⟩]⟩
    parse .v1 bs = .ok d ∧ ∃ l, Normalized .v1 bs d l ∧ l.normal.bytes = normal ∧ ¬∀ s ∈ l.interfaces, s.IsNormal := by
  intro bs normal d
  have hread : parse .v1 bs = .ok d := by decide +kernel
  have hwritten : d.toBytes .v1 = .ok normal := by decide +kernel
  obtain ⟨l, hl⟩ := toBytes_normalForm .v1 bs d hread
  have hnormal : l.normal.bytes = normal := Except.ok.inj (hl.written.symm.trans hwritten)
  refine ⟨hread, l, hl, hnormal, fun hs => ?_⟩
  have hsame : normal = bs := hnormal.symm.trans (hl.fixed.mpr hs)
  exact absurd hsame (by decide)

end Descriptor

end TwinLink
