import Mathlib.Tactic.Simproc.ExistsAndEq
import TwinLink.Proofs.Descriptor.Grammar

/-!
# Descriptors that are cut or go on

What parsing says of some bytes holds for these bytes and more of them. An error stays what it was, unless it says that
the bytes end too early. A descriptor may only grow: its last interface may get more fields, and more interfaces may
follow. So a cut descriptor is never taken for another one.

* `DescriptorError.PlacedIn e n` : `e` points into `n` bytes;
* `Reader.Settles m` : what `m` finds wrong it finds at a place in its bytes, and in whatever these begin;
* `Reader.records_append` : the records of an interface are read on where the bytes had ended;
* `Interface.Begins`, `Descriptor.Begins` : how what was read begins what is read from more bytes;
* `Descriptor.parse_append` : parsing some bytes, and more of them.
-/

namespace TwinLink

namespace DescriptorError

/-- The bytes end too early. -/
def isTruncated : DescriptorError → Bool
  | truncated .. => true
  | _ => false

/-- The error points into `n` bytes: at the place where something is wrong, or, if they end too early, at what they do
not suffice for. A length that does not fit is no error of reading. -/
def PlacedIn (n : Nat) : DescriptorError → Prop
  | truncated offset needed available => offset + available = n ∧ available < needed
  | unknownRecord offset _ => offset < n
  | unknownFieldType offset _ => offset < n
  | unknownSchema offset _ => offset < n
  | invalidUtf8 offset => offset < n
  | duplicateName .. => True
  | fieldTooLong .. => False

end DescriptorError

/-! ## Steps -/

namespace Reader

variable {α β : Type} {r : Revision}

/-- What the step finds wrong, it finds at a place in its bytes. Unless it is that they end too early, it finds the same
wrong in whatever they begin. -/
def Settles (m : Reader α) : Prop :=
  ∀ offset bs e, m ⟨offset, bs⟩ = .error e →
    e.PlacedIn (offset + bs.length) ∧ (e.isTruncated = false → ∀ more, m ⟨offset, bs ++ more⟩ = .error e)

/-- A step reads the same where more follows, if what follows may follow. -/
theorem Reads.append {m : Reader α} {P : α → Bytes → Prop} {stop : Bytes → Prop} (hm : Reads m P stop) {offset : Nat}
    {bs more : Bytes} {a : α} {c : Cursor} (h : m ⟨offset, bs⟩ = .ok (a, c)) (hs : stop (c.rest ++ more)) :
    m ⟨offset, bs ++ more⟩ = .ok (a, ⟨c.offset, c.rest ++ more⟩) := by
  obtain ⟨xs, hx, hrest, hoff, -⟩ := (hm _ _ _).mp h
  obtain rfl : bs = xs ++ c.rest := hrest
  rw [List.append_assoc, hm.run hx hs, hoff]

/-- A step moves on by as many bytes as it reads. -/
theorem Reads.total {m : Reader α} {P : α → Bytes → Prop} {stop : Bytes → Prop} (hm : Reads m P stop) {offset : Nat}
    {bs : Bytes} {a : α} {c : Cursor} (h : m ⟨offset, bs⟩ = .ok (a, c)) :
    c.offset + c.rest.length = offset + bs.length := by
  obtain ⟨xs, -, hrest, hoff, -⟩ := (hm _ _ _).mp h
  obtain rfl : bs = xs ++ c.rest := hrest
  rw [hoff, List.length_append, Nat.add_assoc]

theorem bind_of_error {m : Reader α} {c : Cursor} {e : DescriptorError} (h : m c = .error e) (f : α → Reader β) :
    (m >>= f) c = .error e := by
  simp only [Bind.bind, StateT.bind, Except.bind, h]

theorem bind_eq_error {m : Reader α} {f : α → Reader β} {c : Cursor} {e : DescriptorError} :
    (m >>= f) c = .error e ↔ m c = .error e ∨ ∃ a d, m c = .ok (a, d) ∧ f a d = .error e := by
  cases hm : m c with
  | error e' => simp [bind_of_error hm]
  | ok x =>
    obtain ⟨a, d⟩ := x
    simp [bind_of_ok hm]

namespace Settles

theorem pure (a : α) : Settles (pure a : Reader α) := nofun

/-- One step after the other. -/
theorem bind {m : Reader α} {f : α → Reader β} {P : α → Bytes → Prop} (hm : Settles m) (hr : Reads m P anything)
    (hf : ∀ a, Settles (f a)) : Settles (m >>= f) := by
  intro offset bs e h
  rcases bind_eq_error.mp h with h | ⟨a, d, ha, h⟩
  · obtain ⟨hp, hmore⟩ := hm offset bs e h
    exact ⟨hp, fun ht more => bind_of_error (hmore ht more) f⟩
  · obtain ⟨hp, hmore⟩ := hf a d.offset d.rest e h
    rw [hr.total ha] at hp
    exact ⟨hp, fun ht more => by rw [bind_of_ok (hr.append ha trivial), hmore ht more]⟩

theorem take (n : Nat) : Settles (take n) := by
  intro offset bs e h
  unfold Reader.take at h
  dsimp only at h
  split at h
  · rename_i hlt
    cases h
    rw [List.length_take] at hlt
    refine ⟨⟨?_, by rwa [List.length_take]⟩, nofun⟩
    rw [List.length_take, Nat.min_eq_right (by omega)]
  · cases h

theorem number (w : Nat) : Settles (number w) :=
  (take w).bind (reads_take w) fun _ => .pure _

/-- Bytes that are no text are not none. -/
theorem text (n : Nat) : Settles (text n) := by
  intro offset bs e h
  rw [text_eq] at h
  cases hm : Reader.take n ⟨offset, bs⟩ with
  | error e' =>
    rw [hm] at h
    cases h
    obtain ⟨hp, hmore⟩ := take n offset bs e hm
    exact ⟨hp, fun ht more => by rw [text_eq, hmore ht more]⟩
  | ok x =>
    obtain ⟨bytes, d⟩ := x
    rw [hm] at h
    dsimp only at h
    cases hu : Text.ofUtf8? bytes with
    | some s => rw [hu] at h; cases h
    | none =>
      rw [hu] at h
      cases h
      obtain ⟨_, ⟨rfl, -⟩, hrest, -, -⟩ := (reads_take n _ _ _).mp hm
      obtain rfl : bs = bytes ++ d.rest := hrest
      refine ⟨?_, fun _ more => ?_⟩
      · cases bytes with
        | nil => cases (Text.ofUtf8?_utf8 "").symm.trans hu
        | cons b bytes => simp [DescriptorError.PlacedIn]
      · rw [text_eq, (reads_take n).append hm trivial]
        dsimp only
        rw [hu]

theorem shortText : Settles shortText :=
  (number 1).bind (reads_number 1) text

theorem schema (r : Revision) : Settles (schema r) := by
  intro offset bs e h
  rw [schema_eq] at h
  cases hm : Reader.number r.width ⟨offset, bs⟩ with
  | error e' =>
    rw [hm] at h
    cases h
    obtain ⟨hp, hmore⟩ := number r.width offset bs e hm
    exact ⟨hp, fun ht more => by rw [schema_eq, hmore ht more]⟩
  | ok x =>
    obtain ⟨code, d⟩ := x
    rw [hm] at h
    dsimp only at h
    cases hs : Schema.ofCode? code with
    | some s => rw [hs] at h; cases h
    | none =>
      rw [hs] at h
      cases h
      obtain ⟨xs, ⟨hlen, -⟩, hrest, -, -⟩ := (reads_number r.width _ _ _).mp hm
      obtain rfl : bs = xs ++ d.rest := hrest
      have hwidth : 0 < r.width := by cases r <;> decide
      refine ⟨?_, fun _ more => ?_⟩
      · simp only [DescriptorError.PlacedIn, List.length_append]
        omega
      · rw [schema_eq, (reads_number r.width).append hm trivial]
        dsimp only
        rw [hs]

theorem field : Settles field :=
  shortText.bind reads_shortText fun _ => shortText.bind reads_shortText fun _ =>
    shortText.bind reads_shortText fun _ => .pure _

theorem body (r : Revision) (f : Field) (kind : FieldKind) : Settles (body r f kind) := by
  cases kind with
  | command => exact (schema r).bind (reads_schema r) fun _ => (schema r).bind (reads_schema r) fun _ => .pure _
  | property =>
    exact shortText.bind reads_shortText fun _ => (schema r).bind (reads_schema r) fun _ =>
      (number 1).bind (reads_number 1) fun _ => .pure _
  | event => exact shortText.bind reads_shortText fun _ => (schema r).bind (reads_schema r) fun _ => .pure _

theorem record (r : Revision) (id : String) (prior : List Record) (kind : FieldKind) :
    Settles (record r id prior kind) := by
  refine field.bind reads_field fun f => ?_
  split
  · intro offset bs e h
    cases h
    exact ⟨trivial, fun _ _ => rfl⟩
  · exact body r f kind

/-- What is wrong with a record is wrong whatever follows the bytes, and so is a tag that is none. -/
theorem records (r : Revision) (id : String) (prior : List Record) : Settles (records r id prior) := by
  intro offset bs e h
  generalize hc : Cursor.mk offset bs = c at h
  fun_induction Reader.records r id prior c generalizing offset bs with
  | case1 => cases h
  | case2 => cases h
  | case3 prior c tag rest hrest hlast hk =>
    cases h
    subst hc
    obtain rfl : bs = tag :: rest := hrest
    refine ⟨by simp [DescriptorError.PlacedIn], fun _ more => ?_⟩
    rw [List.cons_append, Reader.records]
    simp only [if_neg hlast, hk]
  | case4 prior c tag rest hrest hlast kind hk e' hr =>
    cases h
    subst hc
    obtain rfl : bs = tag :: rest := hrest
    obtain ⟨hp, hmore⟩ := record r id prior kind _ _ _ hr
    refine ⟨by rwa [List.length_cons, Nat.add_comm rest.length, ← Nat.add_assoc], fun ht more => ?_⟩
    obtain rfl := ofTag?_eq_some hk
    rw [List.cons_append, records_tag, hmore ht more]
  | case5 prior c tag rest hrest hlast kind hk next d hr ih =>
    subst hc
    obtain rfl : bs = tag :: rest := hrest
    obtain ⟨hp, hmore⟩ := ih d.offset d.rest rfl h
    rw [(reads_record r id prior kind).total hr] at hp
    refine ⟨by rwa [List.length_cons, Nat.add_comm rest.length, ← Nat.add_assoc], fun ht more => ?_⟩
    obtain rfl := ofTag?_eq_some hk
    rw [List.cons_append, records_tag, (reads_record r id prior kind).append hr trivial]
    exact hmore ht more

theorem interface (r : Revision) : Settles (interface r) := by
  intro offset bs e h
  rw [interface_eq] at h ⊢
  refine ((number r.width).bind (reads_number r.width) text).bind (reads_sized r.width) (fun id => ?_) offset bs e h
  intro offset bs e h
  rcases bind_eq_error.mp h with h | ⟨_, _, _, h⟩
  · obtain ⟨hp, hmore⟩ := records r id [] offset bs e h
    exact ⟨hp, fun ht more => bind_of_error (hmore ht more) _⟩
  · cases h

theorem header : Settles header :=
  (number 1).bind (reads_number 1) fun _ => shortText.bind reads_shortText fun _ => .pure _

end Settles

theorem Ends.append {bs : Bytes} (h : Ends bs) (hne : bs ≠ []) (more : Bytes) : Ends (bs ++ more) := by
  intro b hb
  rw [List.head?_append, List.head?_eq_some_head hne, Option.some_or] at hb
  exact h b (List.head?_eq_some_head hne ▸ hb)

/-- An interface that ends before the bytes do ends there whatever follows. -/
theorem interface_append {offset : Nat} {bs : Bytes} {i : Interface} {c : Cursor}
    (h : interface r ⟨offset, bs⟩ = .ok (i, c)) (hne : c.rest ≠ []) (more : Bytes) :
    interface r ⟨offset, bs ++ more⟩ = .ok (i, ⟨c.offset, c.rest ++ more⟩) := by
  obtain ⟨-, -, -, -, he⟩ := (reads_interface r _ _ _).mp h
  exact (reads_interface r).append h (he.append hne more)

/-- There are no interfaces exactly where there are no bytes. -/
theorem interfaces_eq_nil {c : Cursor} : interfaces r c = .ok [] ↔ c.rest = [] := by
  rw [interfaces_eq_ok]
  generalize c.rest = bs
  constructor
  · intro h
    cases h
    rfl
  · rintro rfl
    exact .nil

/-- What is wrong with an interface is wrong whatever follows the bytes, and so is a marker that is none. -/
theorem interfaces_settle {offset : Nat} {bs : Bytes} {e : DescriptorError}
    (h : interfaces r ⟨offset, bs⟩ = .error e) :
    e.PlacedIn (offset + bs.length) ∧
      (e.isTruncated = false → ∀ more, interfaces r ⟨offset, bs ++ more⟩ = .error e) := by
  generalize hc : Cursor.mk offset bs = c at h
  fun_induction interfaces r c generalizing offset bs with
  | case1 => cases h
  | case2 c rest e' hi hrest =>
    cases h
    subst hc
    obtain rfl : bs = r.marker :: rest := hrest
    obtain ⟨hp, hmore⟩ := Settles.interface r _ _ _ hi
    refine ⟨by rwa [List.length_cons, Nat.add_comm rest.length, ← Nat.add_assoc], fun ht more => ?_⟩
    rw [List.cons_append, interfaces_marker, hmore ht more]
  | case3 c rest i d hi hrest ih =>
    subst hc
    obtain rfl : bs = r.marker :: rest := hrest
    cases hd : interfaces r d with
    | ok is => rw [hd] at h; cases h
    | error e' =>
      rw [hd] at h
      cases h
      have hne : d.rest ≠ [] := fun hnil => by
        rw [interfaces_eq_nil.mpr hnil] at hd
        cases hd
      obtain ⟨hp, hmore⟩ := ih rfl hd
      rw [(reads_interface r).total hi] at hp
      refine ⟨by rwa [List.length_cons, Nat.add_comm rest.length, ← Nat.add_assoc], fun ht more => ?_⟩
      rw [List.cons_append, interfaces_marker, interface_append hi hne more]
      dsimp only
      rw [hmore ht more]
      rfl
  | case4 c marker rest hrest hm =>
    cases h
    subst hc
    obtain rfl : bs = marker :: rest := hrest
    refine ⟨by simp [DescriptorError.PlacedIn], fun _ more => ?_⟩
    rw [List.cons_append, interfaces_unknown hm]

/-- Where the bytes end, or a byte above all tags comes, the loop goes on with what follows. -/
theorem records_append {id : String} {prior xs : List Record} {offset : Nat} {bs : Bytes} {c : Cursor}
    (h : records r id prior ⟨offset, bs⟩ = .ok (xs, c)) (more : Bytes) :
    records r id prior ⟨offset, bs ++ more⟩ = records r id xs.reverse ⟨c.offset, c.rest ++ more⟩ := by
  generalize hc : Cursor.mk offset bs = d at h
  fun_induction records r id prior d generalizing offset bs with
  | case1 prior d hrest =>
    cases h
    subst hc
    rw [List.reverse_reverse]
  | case2 prior d tag rest hrest hlast =>
    cases h
    subst hc
    rw [List.reverse_reverse]
  | case3 => cases h
  | case4 => cases h
  | case5 prior d tag rest hrest hlast kind hk next d' hr ih =>
    subst hc
    obtain rfl : bs = tag :: rest := hrest
    obtain rfl := ofTag?_eq_some hk
    rw [List.cons_append, records_tag, (reads_record r id prior kind).append hr trivial]
    exact ih rfl h

end Reader

/-! ## What was read begins what is read from more bytes -/

/-- An interface that may get more fields of each kind. -/
structure Interface.Begins (i j : Interface) : Prop where
  id : i.id = j.id
  properties : i.properties <+: j.properties
  commands : i.commands <+: j.commands
  events : i.events <+: j.events

theorem Interface.begins_ofRecords (id : String) {xs ys : List Record} (h : xs <+: ys) :
    (Interface.ofRecords id xs).Begins (.ofRecords id ys) :=
  ⟨rfl, h.filterMap _, h.filterMap _, h.filterMap _⟩

/-- A descriptor that may go on: its last interface may get more fields, and more interfaces may follow. -/
structure Descriptor.Begins (d e : Descriptor) : Prop where
  version : d.version = e.version
  displayName : d.displayName = e.displayName
  /-- All interfaces but the last are at the same positions. -/
  earlier : d.interfaces.dropLast <+: e.interfaces
  /-- The last one begins the interface at its position. -/
  last : ∀ i ∈ d.interfaces.getLast?, ∃ j, e.interfaces[d.interfaces.length - 1]? = some j ∧ i.Begins j

namespace Reader

variable {r : Revision}

theorem interface_begins {offset : Nat} {bs more : Bytes} {i j : Interface} {c d : Cursor}
    (hi : interface r ⟨offset, bs⟩ = .ok (i, c)) (hj : interface r ⟨offset, bs ++ more⟩ = .ok (j, d)) : i.Begins j := by
  rw [interface_eq] at hi hj
  obtain ⟨id, b, hid, hi⟩ := bind_eq_ok.mp hi
  obtain ⟨xs, b', hxs, hi⟩ := bind_eq_ok.mp hi
  cases hi
  rw [bind_of_ok ((reads_sized r.width).append hid trivial)] at hj
  obtain ⟨ys, b'', hys, hj⟩ := bind_eq_ok.mp hj
  cases hj
  rw [records_append hxs] at hys
  obtain ⟨-, ⟨zs, rfl, -⟩, -⟩ := (reads_records r id xs.reverse _ _ _).mp hys
  rw [List.reverse_reverse]
  exact Interface.begins_ofRecords id (List.prefix_append xs zs)

theorem map_cons_eq_ok {m : Except DescriptorError (List Interface)} {i : Interface} {is : List Interface} :
    m.map (i :: ·) = .ok is ↔ ∃ js, m = .ok js ∧ is = i :: js := by
  cases m with
  | error e => simp [Except.map]
  | ok js => simp [Except.map, eq_comm]

/-- Where more bytes follow, the last interface may grow, and more may follow. -/
theorem interfaces_begin {offset : Nat} {bs more : Bytes} {is js : List Interface}
    (hi : interfaces r ⟨offset, bs⟩ = .ok is) (hj : interfaces r ⟨offset, bs ++ more⟩ = .ok js) :
    is = [] ∨ ∃ before i j after, is = before ++ [i] ∧ js = before ++ j :: after ∧ i.Begins j := by
  generalize hc : Cursor.mk offset bs = c at hi
  fun_induction interfaces r c generalizing offset bs is js with
  | case1 =>
    cases hi
    exact .inl rfl
  | case2 => cases hi
  | case3 c rest i d hread hrest ih =>
    subst hc
    obtain rfl : bs = r.marker :: rest := hrest
    obtain ⟨is, hd, rfl⟩ := map_cons_eq_ok.mp hi
    rw [List.cons_append, interfaces_marker] at hj
    by_cases hne : d.rest = []
    · -- the bytes end with this interface
      rw [interfaces_eq_nil.mpr hne] at hd
      cases hd
      split at hj
      · cases hj
      · rename_i j d' hread'
        obtain ⟨js, -, rfl⟩ := map_cons_eq_ok.mp hj
        exact .inr ⟨[], i, j, js, rfl, rfl, interface_begins hread hread'⟩
    · rw [interface_append hread hne] at hj
      obtain ⟨js, hd', rfl⟩ := map_cons_eq_ok.mp hj
      rcases ih hd' rfl hd with rfl | ⟨before, i', j, after, rfl, rfl, hb⟩
      · exact absurd (interfaces_eq_nil.mp hd) hne
      · exact .inr ⟨i :: before, i', j, after, rfl, rfl, hb⟩
  | case4 => cases hi

end Reader

namespace Descriptor

variable {r : Revision} {bs more : Bytes} {e : DescriptorError} {d₀ d : Descriptor}

theorem parse_eq_error_iff : parse r bs = .error e ↔ Reader.header ⟨0, bs⟩ = .error e ∨
    ∃ version name c, Reader.header ⟨0, bs⟩ = .ok ((version, name), c) ∧ Reader.interfaces r c = .error e := by
  cases hh : Reader.header ⟨0, bs⟩ with
  | error e' => simp [parse, Bind.bind, Except.bind, hh]
  | ok x =>
    obtain ⟨⟨version, name⟩, c⟩ := x
    rw [parse_of_header hh]
    cases hi : Reader.interfaces r c with
    | error e' => simp [Except.map, hi]
    | ok is => simp [Except.map, hi]

theorem parse_eq_ok_iff_header : parse r bs = .ok d ↔ ∃ c,
    Reader.header ⟨0, bs⟩ = .ok ((d.version, d.displayName), c) ∧ Reader.interfaces r c = .ok d.interfaces := by
  cases hh : Reader.header ⟨0, bs⟩ with
  | error e' => simp [parse, Bind.bind, Except.bind, hh]
  | ok x =>
    obtain ⟨⟨version, name⟩, c⟩ := x
    rw [parse_of_header hh]
    cases hi : Reader.interfaces r c with
    | error e' => simp [Except.map, hi]
    | ok is => 
      obtain ⟨v, n, js⟩ := d
      simp [Except.map, hi, and_assoc]

/-- What is wrong with a descriptor is wrong whatever follows the bytes. -/
theorem parse_settles (h : parse r bs = .error e) :
    e.PlacedIn bs.length ∧ (e.isTruncated = false → ∀ more, parse r (bs ++ more) = .error e) := by
  rcases parse_eq_error_iff.mp h with hh | ⟨version, name, c, hh, hi⟩
  · obtain ⟨hp, hmore⟩ := Reader.Settles.header 0 bs e hh
    exact ⟨by rwa [Nat.zero_add] at hp, fun ht more => parse_eq_error_iff.mpr (.inl (hmore ht more))⟩
  · obtain ⟨hp, hmore⟩ := Reader.interfaces_settle hi
    rw [Reader.reads_header.total hh, Nat.zero_add] at hp
    exact ⟨hp, fun ht more => parse_eq_error_iff.mpr
      (.inr ⟨version, name, _, Reader.reads_header.append hh trivial, hmore ht more⟩)⟩

/-- A descriptor that is cut between two fields or two interfaces begins the whole. -/
theorem parse_begins (h₀ : parse r bs = .ok d₀) (h : parse r (bs ++ more) = .ok d) : d₀.Begins d := by
  obtain ⟨c₀, hh₀, hi₀⟩ := parse_eq_ok_iff_header.mp h₀
  obtain ⟨c, hh, hi⟩ := parse_eq_ok_iff_header.mp h
  rw [Reader.reads_header.append hh₀ trivial] at hh
  obtain ⟨⟨hversion, hname⟩, rfl⟩ : (_ ∧ _) ∧ _ := by simpa using hh
  rcases Reader.interfaces_begin hi₀ hi with hnil | ⟨before, i, j, after, hi₀, hi, hb⟩
  · refine ⟨hversion, hname, ?_, ?_⟩ <;> rw [hnil]
    · exact List.nil_prefix
    · nofun
  · refine ⟨hversion, hname, ?_, ?_⟩ <;> rw [hi₀, hi]
    · rw [List.dropLast_concat]
      exact List.prefix_append _ _
    · intro k hk
      obtain rfl : i = k := by simpa using hk
      exact ⟨j, by simp, hb⟩

/-- **A cut descriptor is never taken for another.** For all bytes, all that may follow them, and both revisions: every
error points into the bytes it was found in; an error other than that the bytes end too early is the error of the longer
bytes too; what is accepted begins what is accepted of the longer bytes. So the beginning of a descriptor is accepted or
ends too early. -/
theorem parse_append (r : Revision) (bs more : Bytes) :
    (∀ e, parse r bs = .error e → e.PlacedIn bs.length ∧
      (e.isTruncated = false → parse r (bs ++ more) = .error e)) ∧
    (∀ d₀ d, parse r bs = .ok d₀ → parse r (bs ++ more) = .ok d → d₀.Begins d) ∧
    ∀ d, parse r (bs ++ more) = .ok d → (∃ d₀, parse r bs = .ok d₀) ∨ ∃ offset needed available,
      parse r bs = .error (.truncated offset needed available) := by
  refine ⟨fun e he => ⟨(parse_settles he).1, fun ht => (parse_settles he).2 ht more⟩, fun _ _ => parse_begins,
    fun d hd => ?_⟩
  cases hbs : parse r bs with
  | ok d₀ => exact .inl ⟨d₀, rfl⟩
  | error e =>
    cases ht : e.isTruncated with
    | false =>
      rw [(parse_settles hbs).2 ht more] at hd
      cases hd
    | true =>
      cases e with
      | truncated offset needed available => exact .inr ⟨offset, needed, available, rfl⟩
      | _ => cases ht

/-- Cut within the length of an identifier, which takes two bytes. -/
example : parse .v2 [1, 0, 5, 1] = .error (.truncated 3 2 1) := by cbv

end Descriptor
end TwinLink
