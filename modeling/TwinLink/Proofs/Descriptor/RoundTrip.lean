import Mathlib.Data.List.Induction
import TwinLink.Descriptor.Writer
import TwinLink.Proofs.Descriptor.Grammar

/-!
# Reading back what was written

A descriptor can be written exactly if every text fits the length in front of it. What was written is read back as the
same descriptor, unless a name comes twice within one kind of one interface: writing does not look for that, and reading
refuses it.

* `Descriptor.texts` : the texts that stand behind a length, in the order in which they are written;
* `Checks ts m` : `m` fails at the first of `ts` that does not fit, and nowhere else;
* `Interface.Written` : the grammar of interfaces without the condition on names, which is what writing meets;
* `Descriptor.parse_toBytes` : writing, then parsing.
-/

namespace TwinLink

/-! ## The texts -/

/-- A text behind a length: which one it is, its longest possible length in UTF-8, and the text. -/
structure SizedText where
  part : TextPart
  limit : Nat
  text : String

namespace SizedText

/-- The length in UTF-8. -/
def length (t : SizedText) : Nat := (Text.utf8 t.text).length

/-- The text fits the length in front of it. -/
def Fits (t : SizedText) : Prop := t.length ≤ t.limit

instance (t : SizedText) : Decidable t.Fits := inferInstanceAs (Decidable (_ ≤ _))

/-- The error that reports the text. -/
def tooLong (t : SizedText) : DescriptorError := .fieldTooLong t.part t.length

end SizedText

/-- The longest identifier of an interface. -/
def Revision.idLimit : Revision → Nat
  | .v1 => 255
  | .v2 => 65535

/-- The texts of a record. Commands have no units. -/
def Record.texts (x : Record) : List SizedText :=
  [⟨.name, 255, x.field.name⟩, ⟨.displayName, 255, x.field.displayName⟩, ⟨.description, 255, x.field.description⟩] ++
    match x with
    | command _ => []
    | property p => [⟨.units, 255, p.units⟩]
    | event e => [⟨.units, 255, e.units⟩]

def Interface.texts (r : Revision) (i : Interface) : List SizedText :=
  ⟨.interfaceId, r.idLimit, i.id⟩ :: i.records.flatMap Record.texts

def Descriptor.texts (r : Revision) (d : Descriptor) : List SizedText :=
  ⟨.displayName, 255, d.displayName⟩ :: d.interfaces.flatMap (Interface.texts r)

/-! ## What writing checks -/

/-- If not all items have a property, there is a first that does not. -/
theorem exists_first {α : Type} {p : α → Prop} {xs : List α} (h : ¬∀ x ∈ xs, p x) :
    ∃ before x after, xs = before ++ x :: after ∧ (∀ y ∈ before, p y) ∧ ¬p x := by
  induction xs with
  | nil => exact absurd (fun _ => nofun) h
  | cons x xs ih =>
    by_cases hx : p x
    · have hxs : ¬∀ y ∈ xs, p y := fun hxs => h fun y hy => by
        rcases List.mem_cons.mp hy with rfl | hy
        · exact hx
        · exact hxs y hy
      obtain ⟨before, y, after, rfl, hbefore, hy⟩ := ih hxs
      refine ⟨x :: before, y, after, rfl, fun z hz => ?_, hy⟩
      rcases List.mem_cons.mp hz with rfl | hz
      · exact hx
      · exact hbefore z hz
    · exact ⟨[], x, xs, rfl, nofun, hx⟩

/-- The step fails with the first text that does not fit, and succeeds if there is none. -/
def Checks {α : Type} (ts : List SizedText) (m : Except DescriptorError α) : Prop :=
  match ts.find? fun t => ¬t.Fits with
  | some t => m = .error t.tooLong
  | none => ∃ a, m = .ok a

namespace Checks

variable {α β : Type} {ts us : List SizedText} {m : Except DescriptorError α}

theorem pure (a : α) : Checks [] (pure a : Except DescriptorError α) := ⟨a, rfl⟩

theorem bind {f : α → Except DescriptorError β} (hm : Checks ts m) (hf : ∀ a, Checks us (f a)) :
    Checks (ts ++ us) (m >>= f) := by
  unfold Checks at hm ⊢
  rw [List.find?_append]
  cases hts : ts.find? fun t => ¬t.Fits with
  | some t =>
    rw [hts] at hm
    rw [Option.some_or, hm]
    rfl
  | none =>
    rw [hts] at hm
    obtain ⟨a, rfl⟩ := hm
    rw [Option.none_or]
    exact hf a

theorem mapM {g : β → List SizedText} {f : β → Except DescriptorError α} (h : ∀ x, Checks (g x) (f x))
    (xs : List β) : Checks (xs.flatMap g) (xs.mapM f) := by
  induction xs with
  | nil => exact .pure []
  | cons x xs ih =>
    rw [List.mapM_cons, List.flatMap_cons]
    refine (h x).bind fun a => ?_
    have := ih.bind fun as => Checks.pure (a :: as)
    rwa [List.append_nil] at this

theorem ok (hm : Checks ts m) (h : ∀ t ∈ ts, t.Fits) : ∃ a, m = .ok a := by
  unfold Checks at hm
  have hnone : (ts.find? fun t => ¬t.Fits) = none := by simpa using h
  rwa [hnone] at hm

theorem error (hm : Checks ts m) {before after : List SizedText} {t : SizedText} (hts : ts = before ++ t :: after)
    (hbefore : ∀ s ∈ before, s.Fits) (ht : ¬t.Fits) : m = .error t.tooLong := by
  unfold Checks at hm
  have hnone : (before.find? fun t => ¬t.Fits) = none := by simpa using hbefore
  rw [hts, List.find?_append, hnone, Option.none_or, List.find?_cons_of_pos (by simpa using ht)] at hm
  exact hm

/-- The step succeeds exactly if everything fits. -/
theorem ok_iff (hm : Checks ts m) : (∃ a, m = .ok a) ↔ ∀ t ∈ ts, t.Fits := by
  refine ⟨?_, hm.ok⟩
  rintro ⟨a, ha⟩
  by_contra h
  obtain ⟨before, t, after, hts, hbefore, ht⟩ := exists_first h
  rw [hm.error hts hbefore ht] at ha
  cases ha

end Checks

variable {r : Revision}

/-- A text is written behind its length if that has room for it. -/
theorem TextPart.checks (part : TextPart) {w limit : Nat} (hw : Bytes.span w = limit + 1) (s : String) :
    Checks [⟨part, limit, s⟩] (part.toBytes w s) := by
  unfold Checks TextPart.toBytes
  by_cases h : (Text.utf8 s).length ≤ limit
  · have hlt : (Text.utf8 s).length < Bytes.span w := by omega
    simp [SizedText.Fits, SizedText.length, h, hlt]
  · have hlt : ¬(Text.utf8 s).length < Bytes.span w := by omega
    have hgt : limit < (Text.utf8 s).length := by omega
    simp [SizedText.Fits, SizedText.length, SizedText.tooLong, hgt, hlt]

theorem Field.checks (f : Field) : Checks
    [⟨.name, 255, f.name⟩, ⟨.displayName, 255, f.displayName⟩, ⟨.description, 255, f.description⟩] f.toBytes :=
  (TextPart.checks .name rfl f.name).bind fun _ => (TextPart.checks .displayName rfl f.displayName).bind fun _ =>
    (TextPart.checks .description rfl f.description).bind fun _ => .pure _

theorem Record.checks (r : Revision) (x : Record) : Checks x.texts (x.toBytes r) := by
  refine x.field.checks.bind fun field => ?_
  cases x with
  | command c => exact .pure _
  | property p => exact (TextPart.checks .units rfl p.units).bind fun _ => .pure _
  | event e => exact (TextPart.checks .units rfl e.units).bind fun _ => .pure _

theorem Revision.span_width (r : Revision) : Bytes.span r.width = r.idLimit + 1 := by
  cases r <;> rfl

theorem Interface.checks (r : Revision) (i : Interface) : Checks (i.texts r) (i.toBytes r) := by
  have h := (TextPart.checks .interfaceId r.span_width i.id).bind fun id =>
    (Checks.mapM (Record.checks r) i.records).bind fun records => Checks.pure (r.marker :: (id ++ records.flatten))
  rwa [List.append_nil] at h

theorem Descriptor.checks (r : Revision) (d : Descriptor) : Checks (d.texts r) (d.toBytes r) := by
  have hname : Checks [⟨.displayName, 255, d.displayName⟩] (TextPart.displayName.toBytes 1 d.displayName) :=
    TextPart.checks .displayName rfl d.displayName
  have h := hname.bind fun name =>
    (Checks.mapM (Interface.checks r) d.interfaces).bind fun is => Checks.pure (d.version :: (name ++ is.flatten))
  rwa [List.append_nil] at h

/-! ## What writing writes -/

variable {bs : Bytes} {α β : Type}

/-- A step of writing that succeeded, and what it was followed by. -/
theorem Except.bind_eq_ok {ε : Type} {m : Except ε α} {f : α → Except ε β} {b : β} :
    m >>= f = .ok b ↔ ∃ a, m = .ok a ∧ f a = .ok b := by
  cases m with
  | error e => simp [Bind.bind, Except.bind]
  | ok a => simp [Bind.bind, Except.bind]

theorem TextPart.spelled {part : TextPart} {w : Nat} {s : String} (h : part.toBytes w s = .ok bs) :
    Text.Spelled w s bs := by
  unfold TextPart.toBytes at h
  dsimp only at h
  split at h
  · rename_i hlt
    cases h
    exact .mk _ (Bytes.length_ofNat w _) (by rw [Bytes.toNat_ofNat, Nat.mod_eq_of_lt hlt])
  · cases h

theorem Schema.spelled (r : Revision) (s : Schema) : s.Spelled r (s.codeBytes r) where
  width := Bytes.length_ofNat _ _
  code := by
    have := s.code_le
    have hlt : s.code < Bytes.span r.width := by
      rw [r.span_width]
      cases r <;> simp only [Revision.idLimit] <;> omega
    rw [Schema.codeBytes, Bytes.toNat_ofNat, Nat.mod_eq_of_lt hlt]

theorem Field.spelled {f : Field} (h : f.toBytes = .ok bs) : f.Spelled bs := by
  simp only [Field.toBytes, Except.bind_eq_ok] at h
  obtain ⟨n, hn, d, hd, x, hx, h⟩ := h
  cases h
  rw [List.append_assoc]
  exact .mk (TextPart.spelled hn) (TextPart.spelled hd) (TextPart.spelled hx)

/-- The flags byte keeps its two bits apart. -/
theorem Property.testBit_flags (p : Property) :
    p.flags.toNat.testBit 1 = p.required ∧ p.flags.toNat.testBit 0 = p.writeable := by
  unfold Property.flags
  cases p.required <;> cases p.writeable <;> decide

theorem Record.spelled {x : Record} (h : x.toBytes r = .ok bs) : x.Spelled r bs := by
  simp only [Record.toBytes, Except.bind_eq_ok] at h
  obtain ⟨f, hf, h⟩ := h
  have hf := Field.spelled hf
  cases x with
  | command c =>
    cases h
    rw [List.append_assoc]
    exact .mk hf (.command (Schema.spelled r _) (Schema.spelled r _))
  | property p =>
    simp only [Except.bind_eq_ok] at h
    obtain ⟨u, hu, h⟩ := h
    cases h
    have hb : Record.BodySpelled r p.field _ _ := .property p.flags (TextPart.spelled hu) (p.schema.spelled r)
    rw [p.testBit_flags.1, p.testBit_flags.2] at hb
    rw [List.append_assoc, List.append_assoc]
    exact .mk hf hb
  | event e =>
    simp only [Except.bind_eq_ok] at h
    obtain ⟨u, hu, h⟩ := h
    cases h
    rw [List.append_assoc]
    exact .mk hf (.event (TextPart.spelled hu) (Schema.spelled r _))

theorem ListSpelled.imp {P Q : α → Bytes → Prop} {xs : List α} (h : ListSpelled P xs bs)
    (hPQ : ∀ x ∈ xs, ∀ a, P x a → Q x a) : ListSpelled Q xs bs := by
  induction h with
  | nil => exact .nil
  | cons hx _ ih =>
    exact .cons (hPQ _ List.mem_cons_self _ hx) (ih fun x hx => hPQ x (List.mem_cons_of_mem _ hx))

theorem ListSpelled.of_mapM {P : α → Bytes → Prop} {f : α → Except DescriptorError Bytes}
    (h : ∀ x b, f x = .ok b → P x b) {xs : List α} {bss : List Bytes} (hm : xs.mapM f = .ok bss) :
    ListSpelled P xs bss.flatten := by
  induction xs generalizing bss with
  | nil =>
    cases hm
    exact .nil
  | cons x xs ih =>
    simp only [List.mapM_cons, Except.bind_eq_ok] at hm
    obtain ⟨b, hb, bs, hbs, hm⟩ := hm
    cases hm
    exact .cons (h x b hb) (ih hbs)

/-- An interface as writing writes it: its records in the order of `Interface.records`, whatever their names. -/
inductive Interface.Written (r : Revision) (x : Interface) : Bytes → Prop
  | mk {i b : Bytes} (hi : Text.Spelled r.width x.id i) (hb : ListSpelled (Record.Spelled r) x.records b) :
      Interface.Written r x (r.marker :: (i ++ b))

theorem Interface.written {i : Interface} (h : i.toBytes r = .ok bs) : i.Written r bs := by
  simp only [Interface.toBytes, Except.bind_eq_ok] at h
  obtain ⟨id, hid, bss, hbss, h⟩ := h
  cases h
  exact .mk (TextPart.spelled hid) (.of_mapM (fun _ _ => Record.spelled) hbss)

/-! ## Names -/

/-- The commands, the properties and the events have distinct names each. -/
structure Interface.Distinct (i : Interface) : Prop where
  commands : (i.commands.map (·.field.name)).Nodup
  properties : (i.properties.map (·.field.name)).Nodup
  events : (i.events.map (·.field.name)).Nodup

theorem Interface.distinct_iff {i : Interface} : i.Distinct ↔ Record.Distinct i.records := by
  have h : Record.Distinct i.records ↔ ((i.commands.map (·.field.name)).Nodup ∧
      (i.properties.map (·.field.name)).Nodup) ∧ (i.events.map (·.field.name)).Nodup := by
    simp only [Record.Distinct, Interface.records, List.pairwise_append, List.pairwise_map, List.forall_mem_append,
      List.forall_mem_map, List.Nodup, Record.kind, Record.field, reduceCtorEq, false_imp_iff, true_imp_iff,
      implies_true, and_true]
  rw [h]
  exact ⟨fun ⟨c, p, e⟩ => ⟨⟨c, p⟩, e⟩, fun ⟨⟨c, p⟩, e⟩ => ⟨c, p, e⟩⟩

/-- Sorting the records of an interface gives the interface. -/
theorem Interface.ofRecords_records (i : Interface) : Interface.ofRecords i.id i.records = i := by
  have hnone : ∀ (α β : Type) (xs : List α), xs.filterMap (fun _ => (none : Option β)) = [] := fun α β xs => by simp
  simp [Interface.ofRecords, Interface.records, List.filterMap_append, List.filterMap_map, Function.comp_def,
    Record.property?, Record.command?, Record.event?, hnone]

theorem Record.distinct_snoc {xs : List Record} {x : Record} :
    Record.Distinct (xs ++ [x]) ↔ Record.Distinct xs ∧ x.NewTo xs := by
  simp [Record.Distinct, Record.NewTo, List.pairwise_append]

/-- Where names repeat, there is a first record that repeats one. -/
theorem Record.exists_repeat {xs : List Record} (h : ¬Record.Distinct xs) :
    ∃ before x after, xs = before ++ x :: after ∧ Record.Distinct before ∧ ¬x.NewTo before := by
  induction xs using List.reverseRecOn with
  | nil => exact absurd .nil h
  | append_singleton xs x ih =>
    by_cases hxs : Record.Distinct xs
    · exact ⟨xs, x, [], rfl, hxs, fun hn => h (Record.distinct_snoc.mpr ⟨hxs, hn⟩)⟩
    · obtain ⟨before, y, after, rfl, hy⟩ := ih hxs
      exact ⟨before, y, after ++ [x], by simp, hy⟩

theorem Interface.Written.opens (i : Interface) (a : Bytes) (h : i.Written r a) : ∃ t, a = r.marker :: t := by
  cases h
  exact ⟨_, rfl⟩

/-- What writing writes is what the grammar spells, if names are distinct. -/
theorem Interface.Written.spelled {i : Interface} (h : i.Written r bs) (hd : i.Distinct) : i.Spelled r bs := by
  obtain ⟨hi, hb⟩ := h
  have hs := Interface.Spelled.mk hi hb (Interface.distinct_iff.mp hd)
  rwa [← Interface.ofRecords, Interface.ofRecords_records] at hs

/-! ## Reading it back -/

namespace Reader

theorem records_repeat {id : String} {prior before after : List Record} {x : Record} {b : Bytes}
    (hb : ListSpelled (Record.Spelled r) (before ++ x :: after) b) (hd : Record.Distinct before)
    (hfresh : ∀ y ∈ before, y.NewTo prior) (hx : ¬x.NewTo (before.reverse ++ prior)) (offset : Nat) (rest : Bytes) :
    records r id prior ⟨offset, b ++ rest⟩ = .error (.duplicateName id x.kind x.field.name) := by
  induction before generalizing prior b offset with
  | nil =>
    cases hb with
    | cons hs _ =>
      rw [List.append_assoc]
      exact records_clash hs hx offset _
  | cons y before ih =>
    cases hb with
    | cons hy hbs =>
      obtain ⟨hy', hd⟩ := List.pairwise_cons.mp hd
      rw [List.append_assoc, records_cons hy (hfresh y List.mem_cons_self)]
      refine ih hbs hd (fun z hz w hw => ?_) (by simpa using hx) _
      rcases List.mem_cons.mp hw with rfl | hw
      · exact hy' z hz
      · exact hfresh z (List.mem_cons_of_mem _ hz) w hw

/-- Reading stops at the first record that repeats a name in the first interface that has one. -/
theorem interfaces_repeat {is is' : List Interface} {i : Interface} {before after : List Record} {x : Record} {b : Bytes}
    (hb : ListSpelled (Interface.Written r) (is ++ i :: is') b) (his : ∀ j ∈ is, j.Distinct)
    (hi : i.records = before ++ x :: after) (hd : Record.Distinct before) (hx : ¬x.NewTo before) (offset : Nat) :
    interfaces r ⟨offset, b⟩ = .error (.duplicateName i.id x.kind x.field.name) := by
  induction is generalizing b offset with
  | nil =>
    cases hb with
    | cons hw _ =>
      obtain ⟨hid, hrs⟩ := hw
      rename_i rest _ s c
      have hread : interface r ⟨offset + 1, (s ++ c) ++ rest⟩ = .error (.duplicateName i.id x.kind x.field.name) := by
        rw [interface_eq, List.append_assoc, bind_of_ok ((reads_sized _).run hid trivial _)]
        have h : records r i.id [] ⟨offset + 1 + s.length, c ++ rest⟩ = _ :=
          records_repeat (hi ▸ hrs) hd (fun _ _ _ hz => absurd hz List.not_mem_nil) (by simpa [Record.NewTo] using hx) _
            rest
        simp only [Bind.bind, StateT.bind, Except.bind, h]
      rw [List.cons_append, interfaces_marker, hread]
  | cons j is ih =>
    cases hb with
    | cons hj hbs =>
      rw [interfaces_cons (hj.spelled (his j List.mem_cons_self)) (.list Interface.Written.opens hbs),
        ih hbs fun k hk => his k (List.mem_cons_of_mem _ hk)]
      rfl

end Reader

namespace Descriptor

theorem written {d : Descriptor} (h : d.toBytes r = .ok bs) : ∃ n b, bs = d.version :: (n ++ b) ∧
    Text.Spelled 1 d.displayName n ∧ ListSpelled (Interface.Written r) d.interfaces b := by
  simp only [toBytes, Except.bind_eq_ok] at h
  obtain ⟨n, hn, bss, hbss, h⟩ := h
  cases h
  exact ⟨n, _, rfl, TextPart.spelled hn, .of_mapM (fun _ _ => Interface.written) hbss⟩

/-- What was written is read back, if names are distinct. -/
theorem parse_written {d : Descriptor} (h : d.toBytes r = .ok bs) (hd : ∀ i ∈ d.interfaces, i.Distinct) :
    parse r bs = .ok d := by
  obtain ⟨n, b, rfl, hn, hb⟩ := written h
  have his : ListSpelled (Interface.Spelled r) d.interfaces b := by
    exact hb.imp fun i hi a ha => ha.spelled (hd i hi)
  exact (Spelled.mk d.version hn his).parse

/-- What was written is refused for the first name that repeats one. -/
theorem parse_repeat {d : Descriptor} (h : d.toBytes r = .ok bs) {is is' : List Interface} {i : Interface}
    {before after : List Record} {x : Record} (his : d.interfaces = is ++ i :: is') (hd : ∀ j ∈ is, j.Distinct)
    (hi : i.records = before ++ x :: after) (hb : Record.Distinct before) (hx : ¬x.NewTo before) :
    parse r bs = .error (.duplicateName i.id x.kind x.field.name) := by
  obtain ⟨n, b, rfl, hn, hw⟩ := written h
  rw [his] at hw
  have hh := Reader.reads_header.run (a := (d.version, d.displayName)) (t := b) ⟨n, hn, rfl⟩ trivial 0
  rw [← List.cons_append, parse_of_header hh, Reader.interfaces_repeat hw hd hi hb hx]
  rfl

/-- **Parsing undoes writing.** Writing succeeds exactly if every text fits its length, and fails with the first text, in
the order of writing, that does not. What was written parses as the descriptor if within each interface the commands,
the properties and the events have distinct names; otherwise parsing fails with the first record that repeats a name, in
the order commands, properties, events, of the first interface that has one. -/
theorem parse_toBytes (r : Revision) (d : Descriptor) :
    ((∃ bs, d.toBytes r = .ok bs) ↔ ∀ t ∈ d.texts r, t.Fits) ∧
    ((¬∀ t ∈ d.texts r, t.Fits) → ∃ before t after, d.texts r = before ++ t :: after ∧ (∀ s ∈ before, s.Fits) ∧
      ¬t.Fits ∧ d.toBytes r = .error (.fieldTooLong t.part t.length)) ∧
    ∀ bs, d.toBytes r = .ok bs →
      ((∀ i ∈ d.interfaces, i.Distinct) → parse r bs = .ok d) ∧
      ((¬∀ i ∈ d.interfaces, i.Distinct) → ∃ is i is' before x after,
        d.interfaces = is ++ i :: is' ∧ (∀ j ∈ is, j.Distinct) ∧
        i.records = before ++ x :: after ∧ Record.Distinct before ∧
        (∃ y ∈ before, y.kind = x.kind ∧ y.field.name = x.field.name) ∧
        parse r bs = .error (.duplicateName i.id x.kind x.field.name)) := by
  have hlong : (¬∀ t ∈ d.texts r, t.Fits) → ∃ before t after, d.texts r = before ++ t :: after ∧
      (∀ s ∈ before, s.Fits) ∧ ¬t.Fits ∧ d.toBytes r = .error (.fieldTooLong t.part t.length) := by
    intro h
    obtain ⟨before, t, after, hts, hbefore, ht⟩ := exists_first h
    exact ⟨before, t, after, hts, hbefore, ht, (d.checks r).error hts hbefore ht⟩
  refine ⟨(d.checks r).ok_iff, hlong, fun bs hbs => ⟨parse_written hbs, fun h => ?_⟩⟩
  obtain ⟨is, i, is', his, hd, hi⟩ := exists_first h
  obtain ⟨before, x, after, hrecords, hb, hx⟩ := Record.exists_repeat fun hd => hi (Interface.distinct_iff.mpr hd)
  refine ⟨is, i, is', before, x, after, his, hd, hrecords, hb, ?_, parse_repeat hbs his hd hrecords hb hx⟩
  simpa [Record.NewTo] using hx

end Descriptor
end TwinLink
