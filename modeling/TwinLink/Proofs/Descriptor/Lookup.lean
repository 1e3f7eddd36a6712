import Mathlib.Data.List.Nodup
import TwinLink.Proofs.Descriptor.Migration

/-!
# Looking fields up by name

A name is looked up in all interfaces, in their order. Whoever has an index at hand looks there first, and in all of them
if the name means nothing there. So an index matters only if it is that of an interface that has the name: with any other,
and with none, the name means the same field.

* `Descriptor.locate_eq_some_iff`, `Descriptor.locate_eq_none_iff` : what is found without an index;
* `Descriptor.resolve_at`, `Descriptor.resolve_elsewhere` : what is found with one;
* `Descriptor.FirstNamed` : the first definition of a name, and the only one in its interface;
* `Descriptor.FindsFirst`, `Descriptor.findsFirst` : a lookup that finds it, for every name.
-/

namespace TwinLink.Descriptor

/-! ## The order of interfaces -/

section

variable {α : Type} {lookup : Interface → Option α} {d : Descriptor} {l : Located α} {k : Nat} {i : Interface} {x : α}

theorem locateFrom_eq_some_iff {is : List Interface} {n : Nat} : locateFrom lookup n is = some l ↔
    ∃ k, l.index = n + k ∧ is[k]? = some l.interface ∧ lookup l.interface = some l.definition ∧
      ∀ j < k, ∀ i, is[j]? = some i → lookup i = none := by
  induction is generalizing n with
  | nil => exact ⟨nofun, fun ⟨_, _, hk, _⟩ => nomatch hk⟩
  | cons i rest ih =>
    unfold locateFrom
    split
    · rename_i x hx
      constructor
      · intro he
        cases he
        exact ⟨0, rfl, rfl, hx, fun j hj => absurd hj (Nat.not_lt_zero j)⟩
      · rintro ⟨k, hi, hk, hd, hno⟩
        cases k with
        | zero =>
          obtain ⟨index, interface, definition⟩ := l
          cases hk
          cases hi
          cases hx.symm.trans hd
          rfl
        | succ k => cases hx.symm.trans (hno 0 (Nat.succ_pos k) i rfl)
    · rename_i hx
      rw [ih]
      constructor
      · rintro ⟨k, hi, hk, hd, hno⟩
        refine ⟨k + 1, by omega, hk, hd, fun j hj i' hi' => ?_⟩
        cases j with
        | zero =>
          cases hi'
          exact hx
        | succ j => exact hno j (Nat.lt_of_succ_lt_succ hj) i' hi'
      · rintro ⟨k, hi, hk, hd, hno⟩
        cases k with
        | zero =>
          cases hk
          cases hx.symm.trans hd
        | succ k => exact ⟨k, by omega, hk, hd, fun j hj => hno (j + 1) (Nat.succ_lt_succ hj)⟩

/-- What is found stands at its index, and nothing is found before. -/
theorem locate_eq_some_iff : d.locate lookup = some l ↔ d.interfaces[l.index]? = some l.interface ∧
    lookup l.interface = some l.definition ∧ ∀ k < l.index, ∀ i, d.interfaces[k]? = some i → lookup i = none := by
  rw [locate, locateFrom_eq_some_iff]
  constructor
  · rintro ⟨k, hi, hk⟩
    rw [Nat.zero_add] at hi
    exact hi ▸ hk
  · intro h
    exact ⟨l.index, (Nat.zero_add _).symm, h⟩

theorem locate_mem (h : d.locate lookup = some l) :
    l.interface ∈ d.interfaces ∧ lookup l.interface = some l.definition := by
  obtain ⟨hk, hd, -⟩ := locate_eq_some_iff.mp h
  exact ⟨List.mem_of_getElem? hk, hd⟩

theorem locateFrom_eq_none_iff {is : List Interface} {n : Nat} :
    locateFrom lookup n is = none ↔ ∀ i ∈ is, lookup i = none := by
  induction is generalizing n with
  | nil => exact ⟨fun _ => nofun, fun _ => rfl⟩
  | cons i rest ih =>
    unfold locateFrom
    rw [List.forall_mem_cons]
    cases hx : lookup i with
    | some x => exact ⟨nofun, fun h => nomatch h.1⟩
    | none => exact ih.trans (and_iff_right rfl).symm

theorem locate_eq_none_iff : d.locate lookup = none ↔ ∀ i ∈ d.interfaces, lookup i = none := locateFrom_eq_none_iff

/-- An index of an interface in which something is found decides. -/
theorem resolve_at (hi : d.interfaces[k]? = some i) (hx : lookup i = some x) : d.resolve lookup k = some (i, x) := by
  unfold resolve
  rw [hi, Option.bind_some, hx]
  rfl

/-- Any other index decides nothing. -/
theorem resolve_elsewhere (hno : ∀ i, d.interfaces[k]? = some i → lookup i = none) :
    d.resolve lookup k = (d.locate lookup).map fun l => (l.interface, l.definition) := by
  unfold resolve
  cases hi : d.interfaces[k]? with
  | none => rfl
  | some i => rw [Option.bind_some, hno i hi]; rfl

/-- Neither does the index at which the search ends anyway, nor one before it. -/
theorem resolve_le (hl : d.locate lookup = some l) (hk : k ≤ l.index) :
    d.resolve lookup k = some (l.interface, l.definition) := by
  obtain ⟨hi, hx, hno⟩ := locate_eq_some_iff.mp hl
  rcases Nat.lt_or_eq_of_le hk with hlt | rfl
  · rw [resolve_elsewhere (hno k hlt), hl]
    rfl
  · exact resolve_at hi hx

end

/-! ## Names -/

section

variable {α : Type} {nameOf : α → String} {name : String} {xs : List α} {x : α}

/-- Where names are distinct, the first definition of a name is the only one. -/
theorem find?_eq_some_iff_filter (hxs : (xs.map nameOf).Nodup) :
    xs.find? (nameOf · == name) = some x ↔ xs.filter (nameOf · == name) = [x] := by
  have hp : (xs.filter (nameOf · == name)).Pairwise fun a b => nameOf a ≠ nameOf b :=
    (List.pairwise_map.mp hxs).filter _
  have hnamed : ∀ a ∈ xs.filter (nameOf · == name), nameOf a = name := fun a ha => by
    simpa using (List.mem_filter.mp ha).2
  rw [← List.head?_filter]
  generalize xs.filter (nameOf · == name) = ys at hp hnamed
  match ys with
  | [] => simp
  | [y] => simp
  | y :: z :: rest =>
    have hy := hnamed y (by simp)
    have hz := hnamed z (by simp)
    exact absurd (hy.trans hz.symm) ((List.pairwise_cons.mp hp).1 z (by simp))

/-- Where names are distinct, a definition is found by its name. -/
theorem find?_of_mem (hxs : (xs.map nameOf).Nodup) (hx : x ∈ xs) (hname : nameOf x = name) :
    xs.find? (nameOf · == name) = some x := by
  cases hf : xs.find? (nameOf · == name) with
  | none => exact absurd hname (by simpa using List.find?_eq_none.mp hf x hx)
  | some y =>
    have hy : nameOf y = name := by simpa using List.find?_some hf
    rw [List.inj_on_of_nodup_map hxs (List.mem_of_find?_eq_some hf) hx (hy.trans hname.symm)]

theorem find?_name_eq_none_iff : xs.find? (nameOf · == name) = none ↔ ∀ x ∈ xs, nameOf x ≠ name := by
  simp [List.find?_eq_none]

end

variable {α : Type} {fields : Interface → List α} {nameOf : α → String}

/-- The first definition of a name: that of the interface of the least index that defines it, and no other definition of
that interface has the name. -/
structure FirstNamed (d : Descriptor) (fields : Interface → List α) (nameOf : α → String) (name : String)
    (l : Located α) : Prop where
  stands : d.interfaces[l.index]? = some l.interface
  least : ∀ k < l.index, ∀ i, d.interfaces[k]? = some i → ∀ x ∈ fields i, nameOf x ≠ name
  only : (fields l.interface).filter (nameOf · == name) = [l.definition]

/-- A lookup finds the first definition of every name, and nothing for the names that no interface defines. -/
structure FindsFirst (d : Descriptor) (find : String → Option (Located α)) (fields : Interface → List α)
    (nameOf : α → String) : Prop where
  found : ∀ name l, find name = some l ↔ d.FirstNamed fields nameOf name l
  missing : ∀ name, find name = none ↔ ∀ i ∈ d.interfaces, ∀ x ∈ fields i, nameOf x ≠ name

/-- **Names are looked up soundly**, if no interface gives two of its fields of one kind the same name. -/
theorem findsFirst {d : Descriptor} (hd : ∀ i ∈ d.interfaces, ((fields i).map nameOf).Nodup) :
    d.FindsFirst (fun name => d.locate fun i => (fields i).find? (nameOf · == name)) fields nameOf where
  found name l := by
    rw [locate_eq_some_iff]
    constructor
    · rintro ⟨hi, hx, hno⟩
      exact ⟨hi, fun k hk i hi' => find?_name_eq_none_iff.mp (hno k hk i hi'),
        (find?_eq_some_iff_filter (hd _ (List.mem_of_getElem? hi))).mp hx⟩
    · rintro ⟨hi, hno, hx⟩
      exact ⟨hi, (find?_eq_some_iff_filter (hd _ (List.mem_of_getElem? hi))).mpr hx,
        fun k hk i hi' => find?_name_eq_none_iff.mpr (hno k hk i hi')⟩
  missing name := by
    rw [locate_eq_none_iff]
    exact forall₂_congr fun i _ => find?_name_eq_none_iff

/-- The lookups of a device that has described itself. -/
theorem Spelled.finds {r : Revision} {d : Descriptor} {bs : Bytes} (h : d.Spelled r bs) :
    d.FindsFirst d.command? Interface.commands Command.name ∧
      d.FindsFirst d.property? Interface.properties Property.name ∧
      d.FindsFirst d.event? Interface.events Event.name :=
  ⟨findsFirst fun i hi => (h.distinct i hi).commands, findsFirst fun i hi => (h.distinct i hi).properties,
    findsFirst fun i hi => (h.distinct i hi).events⟩

end TwinLink.Descriptor
