import Mathlib.Tactic.SplitIfs
import TwinLink.Descriptor.Reader

/-!
# The grammar of descriptors

A descriptor is a version byte, a display name and interfaces, up to the end of the bytes. An interface is a marker, an
identifier and records of any kinds in any order, no two records of one kind having the same name. The grammar says what
the bytes of each part are; it does not say where a part ends, and `Descriptor.parse_eq_ok_iff` says that no two readings
of the same bytes differ.

* `Text.Spelled`, `Schema.Spelled`, `Field.Spelled`, `Record.Spelled`, `Interface.Spelled`, `Descriptor.Spelled` : the
  grammar; `ListSpelled` : one item after the other;
* `Record.Distinct` : no name comes twice within one kind;
* `Reader.Reads m P stop` : what the step `m` reads is spelled as `P` says, and what follows satisfies `stop`;
* `Reader.reads_records`, `Reader.reads_interface`, `Reader.interfaces_eq_ok` : the loops;
* `Descriptor.parse_eq_ok_iff` : parsing accepts exactly what the grammar spells.
-/

namespace TwinLink

/-! ## The grammar -/

/-- A text behind its length in `w` bytes. -/
inductive Text.Spelled (w : Nat) (s : String) : Bytes → Prop
  | mk (size : Bytes) (hw : size.length = w) (hn : Bytes.toNat size = (Text.utf8 s).length) :
      Text.Spelled w s (size ++ Text.utf8 s)

/-- The code of a schema, in the width of the revision. -/
structure Schema.Spelled (r : Revision) (s : Schema) (bs : Bytes) : Prop where
  width : bs.length = r.width
  code : Bytes.toNat bs = s.code

/-- The three texts that open every record. -/
inductive Field.Spelled : Field → Bytes → Prop
  | mk {name displayName description : String} {n d x : Bytes} (hn : Text.Spelled 1 name n)
      (hd : Text.Spelled 1 displayName d) (hx : Text.Spelled 1 description x) :
      Field.Spelled ⟨name, displayName, description⟩ (n ++ (d ++ x))

/-- What follows the three texts in a record. Of the flags byte two bits count: bit 0 for writeable, bit 1 for
required. -/
inductive Record.BodySpelled (r : Revision) (field : Field) : Record → Bytes → Prop
  | command {request response : Schema} {q s : Bytes} (hq : request.Spelled r q) (hs : response.Spelled r s) :
      Record.BodySpelled r field (.command ⟨field, request, response⟩) (q ++ s)
  | property {units : String} {type : Schema} {u s : Bytes} (flags : UInt8) (hu : Text.Spelled 1 units u)
      (hs : type.Spelled r s) : Record.BodySpelled r field
      (.property ⟨field, units, flags.toNat.testBit 1, flags.toNat.testBit 0, type⟩) (u ++ (s ++ [flags]))
  | event {units : String} {type : Schema} {u s : Bytes} (hu : Text.Spelled 1 units u) (hs : type.Spelled r s) :
      Record.BodySpelled r field (.event ⟨field, units, type⟩) (u ++ s)

/-- A record: the tag of its kind, its three texts, and what its kind adds. -/
inductive Record.Spelled (r : Revision) : Record → Bytes → Prop
  | mk {x : Record} {f b : Bytes} (hf : x.field.Spelled f) (hb : x.BodySpelled r x.field b) :
      Record.Spelled r x (x.kind.tag :: (f ++ b))

/-- No name comes twice within one kind. -/
def Record.Distinct (xs : List Record) : Prop :=
  xs.Pairwise fun x y => x.kind = y.kind → x.field.name ≠ y.field.name

/-- The record does not repeat a name. -/
def Record.NewTo (x : Record) (prior : List Record) : Prop :=
  ∀ y ∈ prior, y.kind = x.kind → y.field.name ≠ x.field.name

/-- One item after the other. -/
inductive ListSpelled {α : Type} (P : α → Bytes → Prop) : List α → Bytes → Prop
  | nil : ListSpelled P [] []
  | cons {x : α} {xs : List α} {a b : Bytes} (hx : P x a) (hxs : ListSpelled P xs b) : ListSpelled P (x :: xs) (a ++ b)

/-- An interface: the marker of the revision, the identifier, and records with distinct names. Its three lists are the
records of each kind, in their order. -/
inductive Interface.Spelled (r : Revision) : Interface → Bytes → Prop
  | mk {id : String} {xs : List Record} {i b : Bytes} (hi : Text.Spelled r.width id i)
      (hxs : ListSpelled (Record.Spelled r) xs b) (hd : Record.Distinct xs) : Interface.Spelled r
      ⟨id, xs.filterMap Record.property?, xs.filterMap Record.command?, xs.filterMap Record.event?⟩
      (r.marker :: (i ++ b))

/-- A descriptor: version byte, display name, interfaces. -/
inductive Descriptor.Spelled (r : Revision) : Descriptor → Bytes → Prop
  | mk (version : UInt8) {name : String} {interfaces : List Interface} {n b : Bytes} (hn : Text.Spelled 1 name n)
      (hb : ListSpelled (Interface.Spelled r) interfaces b) :
      Descriptor.Spelled r ⟨version, name, interfaces⟩ (version :: (n ++ b))

/-! ## What is spelled -/

/-- What holds of each item that is spelled holds of all of them. -/
theorem ListSpelled.forall {α : Type} {P : α → Bytes → Prop} {Q : α → Prop} (hPQ : ∀ x a, P x a → Q x) {xs : List α}
    {bs : Bytes} (h : ListSpelled P xs bs) : ∀ x ∈ xs, Q x := by
  induction h with
  | nil => exact List.forall_mem_nil _
  | cons hx _ ih => exact List.forall_mem_cons.mpr ⟨hPQ _ _ hx, ih⟩

theorem Text.Spelled.length_eq {w : Nat} {s : String} {bs : Bytes} (h : Text.Spelled w s bs) :
    bs.length = w + (Text.utf8 s).length := by
  obtain ⟨size, hw, -⟩ := h
  rw [List.length_append, hw]

/-- A text behind a length has no more bytes than the length can count. -/
theorem Text.Spelled.length_lt {w : Nat} {s : String} {bs : Bytes} (h : Text.Spelled w s bs) :
    (Text.utf8 s).length < Bytes.span w := by
  obtain ⟨size, hw, hn⟩ := h
  have hlt := Bytes.toNat_lt size
  rwa [hw, hn] at hlt

/-! ## Steps -/

namespace Reader

variable {α β : Type} {stop : Bytes → Prop} {r : Revision}

/-- The step reads what `P` spells, where what follows satisfies `stop`, and succeeds nowhere else. -/
def Reads (m : Reader α) (P : α → Bytes → Prop) (stop : Bytes → Prop) : Prop :=
  ∀ c a c', m c = .ok (a, c') ↔
    ∃ bs, P a bs ∧ c.rest = bs ++ c'.rest ∧ c'.offset = c.offset + bs.length ∧ stop c'.rest

/-- Nothing is asked of what follows. -/
def anything : Bytes → Prop := fun _ => True

/-- What is spelled in front of the rest is read. -/
theorem Reads.run {m : Reader α} {P : α → Bytes → Prop} (hm : Reads m P stop) {a : α} {bs t : Bytes} (ha : P a bs)
    (hs : stop t) (offset : Nat) : m ⟨offset, bs ++ t⟩ = .ok (a, ⟨offset + bs.length, t⟩) :=
  (hm _ _ _).mpr ⟨bs, ha, rfl, rfl, hs⟩

theorem Reads.congr {m : Reader α} {P Q : α → Bytes → Prop} (hm : Reads m P stop) (h : ∀ a bs, P a bs ↔ Q a bs) :
    Reads m Q stop := by
  intro c a c'
  rw [hm c a c']
  simp only [h]

theorem bind_of_ok {m : Reader α} {c d : Cursor} {a : α} (h : m c = .ok (a, d)) (f : α → Reader β) :
    (m >>= f) c = f a d := by
  simp only [Bind.bind, StateT.bind, Except.bind, h]

theorem bind_eq_ok {m : Reader α} {f : α → Reader β} {c c' : Cursor} {b : β} :
    (m >>= f) c = .ok (b, c') ↔ ∃ a d, m c = .ok (a, d) ∧ f a d = .ok (b, c') := by
  cases hm : m c with
  | error e => simp [Bind.bind, StateT.bind, Except.bind, hm]
  | ok x =>
    obtain ⟨a, d⟩ := x
    rw [bind_of_ok hm]
    constructor
    · exact fun h => ⟨a, d, rfl, h⟩
    · rintro ⟨_, _, he, h⟩
      cases he
      exact h

/-- One step after the other. -/
theorem Reads.bind {m : Reader α} {f : α → Reader β} {P : α → Bytes → Prop} {Q : α → β → Bytes → Prop}
    (hm : Reads m P anything) (hf : ∀ a, Reads (f a) (Q a) stop) :
    Reads (m >>= f) (fun b bs => ∃ a xs ys, P a xs ∧ Q a b ys ∧ bs = xs ++ ys) stop := by
  intro c b c'
  rw [bind_eq_ok]
  constructor
  · rintro ⟨a, d, ha, hb⟩
    obtain ⟨xs, hx, hrest, hoff, -⟩ := (hm c a d).mp ha
    obtain ⟨ys, hy, hrest', hoff', hs⟩ := (hf a d b c').mp hb
    refine ⟨xs ++ ys, ⟨a, xs, ys, hx, hy, rfl⟩, ?_, ?_, hs⟩
    · rw [hrest, hrest', List.append_assoc]
    · rw [hoff', hoff, List.length_append, Nat.add_assoc]
  · rintro ⟨_, ⟨a, xs, ys, hx, hy, rfl⟩, hrest, hoff, hs⟩
    refine ⟨a, ⟨c.offset + xs.length, ys ++ c'.rest⟩, (hm c a _).mpr ⟨xs, hx, ?_, rfl, trivial⟩,
      (hf a _ b c').mpr ⟨ys, hy, rfl, ?_, hs⟩⟩
    · rw [hrest, List.append_assoc]
    · rw [hoff, List.length_append, Nat.add_assoc]

/-- A step whose result is used as `f` says. -/
theorem Reads.map {m : Reader α} {P : α → Bytes → Prop} (hm : Reads m P stop) (f : α → β) :
    Reads (m >>= fun a => pure (f a)) (fun b bs => ∃ a, P a bs ∧ b = f a) stop := by
  intro c b c'
  rw [bind_eq_ok]
  constructor
  · rintro ⟨a, d, ha, hb⟩
    obtain ⟨bs, h, hrest⟩ := (hm c a d).mp ha
    cases hb
    exact ⟨bs, ⟨a, h, rfl⟩, hrest⟩
  · rintro ⟨bs, ⟨a, h, rfl⟩, hrest⟩
    exact ⟨a, c', (hm c a c').mpr ⟨bs, h, hrest⟩, rfl⟩

theorem reads_pure (a : α) : Reads (pure a) (fun b bs => b = a ∧ bs = []) anything := by
  intro c b c'
  constructor
  · intro h
    cases h
    exact ⟨[], ⟨rfl, rfl⟩, rfl, rfl, trivial⟩
  · rintro ⟨_, ⟨rfl, rfl⟩, hrest, hoff, -⟩
    obtain ⟨offset, rest⟩ := c'
    obtain rfl : c.rest = rest := hrest
    obtain rfl : offset = c.offset := hoff
    rfl

theorem reads_take (n : Nat) : Reads (take n) (fun a bs => a = bs ∧ bs.length = n) anything := by
  intro c a c'
  unfold take
  dsimp only
  constructor
  · intro h
    split at h
    · cases h
    · rename_i hlen
      cases h
      refine ⟨c.rest.take n, ⟨rfl, ?_⟩, (List.take_append_drop n c.rest).symm, ?_, trivial⟩
      · simp at hlen ⊢
        omega
      · simp at hlen ⊢
        omega
  · rintro ⟨bs, ⟨rfl, rfl⟩, hrest, hoff, -⟩
    obtain ⟨offset, rest⟩ := c'
    obtain rfl : offset = c.offset + a.length := hoff
    rw [hrest, List.take_left, if_neg (Nat.lt_irrefl _), List.drop_left]

theorem reads_number (w : Nat) : Reads (number w) (fun n bs => bs.length = w ∧ Bytes.toNat bs = n) anything := by
  refine ((reads_take w).bind fun bytes => reads_pure (Bytes.toNat bytes)).congr fun n bs => ?_
  constructor
  · rintro ⟨_, xs, ys, ⟨rfl, hlen⟩, ⟨rfl, rfl⟩, rfl⟩
    simp [hlen]
  · rintro ⟨hlen, rfl⟩
    exact ⟨bs, bs, [], ⟨rfl, hlen⟩, ⟨rfl, rfl⟩, by simp⟩

theorem reads_byte : Reads (number 1) (fun n bs => ∃ b : UInt8, bs = [b] ∧ b.toNat = n) anything := by
  refine (reads_number 1).congr fun n bs => ?_
  rw [List.length_eq_one_iff]
  constructor
  · rintro ⟨⟨b, rfl⟩, rfl⟩
    exact ⟨b, rfl, by simp [Bytes.toNat]⟩
  · rintro ⟨b, rfl, rfl⟩
    exact ⟨⟨b, rfl⟩, by simp [Bytes.toNat]⟩

theorem text_eq (n : Nat) (c : Cursor) : text n c = match take n c with
    | .error e => .error e
    | .ok (bytes, c') => match Text.ofUtf8? bytes with
      | some s => .ok (s, c')
      | none => .error (.invalidUtf8 c.offset) := by
  simp only [text, Bind.bind, StateT.bind, Except.bind, MonadState.get, getThe, MonadStateOf.get, StateT.get, pure,
    Except.pure]
  cases take n c with
  | error e => rfl
  | ok x =>
    dsimp only
    cases Text.ofUtf8? x.1 <;> rfl

theorem reads_text (n : Nat) : Reads (text n) (fun s bs => bs = Text.utf8 s ∧ bs.length = n) anything := by
  intro c s c'
  have ht := reads_take n c
  rw [text_eq]
  constructor
  · intro h
    cases hm : take n c with
    | error e => rw [hm] at h; cases h
    | ok x =>
      obtain ⟨bytes, d⟩ := x
      obtain ⟨bs, ⟨rfl, hlen⟩, hrest, hoff, -⟩ := (ht bytes d).mp hm
      rw [hm] at h
      dsimp only at h
      cases hu : Text.ofUtf8? bytes with
      | none => rw [hu] at h; cases h
      | some s' =>
        rw [hu] at h
        cases h
        exact ⟨bytes, ⟨(Text.utf8_of_ofUtf8? hu).symm, hlen⟩, hrest, hoff, trivial⟩
  · rintro ⟨_, ⟨rfl, hlen⟩, hrest, hoff, -⟩
    rw [(ht _ c').mpr ⟨_, ⟨rfl, hlen⟩, hrest, hoff, trivial⟩]
    dsimp only
    rw [Text.ofUtf8?_utf8]

/-- A text behind its length. -/
theorem reads_sized (w : Nat) : Reads (number w >>= text) (Text.Spelled w) anything := by
  refine ((reads_number w).bind reads_text).congr fun s bs => ?_
  constructor
  · rintro ⟨_, size, _, ⟨hw, rfl⟩, ⟨rfl, hlen⟩, rfl⟩
    exact .mk size hw hlen.symm
  · rintro ⟨size, hw, hn⟩
    exact ⟨_, size, _, ⟨hw, rfl⟩, ⟨rfl, hn.symm⟩, rfl⟩

theorem reads_shortText : Reads shortText (Text.Spelled 1) anything := reads_sized 1

theorem schema_eq (r : Revision) (c : Cursor) : schema r c = match number r.width c with
    | .error e => .error e
    | .ok (code, c') => match Schema.ofCode? code with
      | some s => .ok (s, c')
      | none => .error (.unknownSchema c.offset code) := by
  simp only [schema, Bind.bind, StateT.bind, Except.bind, MonadState.get, getThe, MonadStateOf.get, StateT.get, pure,
    Except.pure]
  cases number r.width c with
  | error e => rfl
  | ok x =>
    dsimp only
    cases Schema.ofCode? x.1 <;> rfl

theorem reads_schema (r : Revision) : Reads (schema r) (Schema.Spelled r) anything := by
  intro c s c'
  have hn := reads_number r.width c
  rw [schema_eq]
  constructor
  · intro h
    cases hm : number r.width c with
    | error e => rw [hm] at h; cases h
    | ok x =>
      obtain ⟨code, d⟩ := x
      obtain ⟨bs, ⟨hlen, hcode⟩, hrest, hoff, -⟩ := (hn code d).mp hm
      rw [hm] at h
      dsimp only at h
      cases hs : Schema.ofCode? code with
      | none => rw [hs] at h; cases h
      | some s' =>
        rw [hs] at h
        cases h
        exact ⟨bs, ⟨hlen, hcode.trans (Schema.code_of_ofCode? hs).symm⟩, hrest, hoff, trivial⟩
  · rintro ⟨bs, ⟨hlen, hcode⟩, hrest, hoff, -⟩
    rw [(hn _ c').mpr ⟨bs, ⟨hlen, hcode⟩, hrest, hoff, trivial⟩]
    dsimp only
    rw [Schema.ofCode?_code]

theorem reads_field : Reads field Field.Spelled anything := by
  refine (reads_shortText.bind fun name => reads_shortText.bind fun displayName =>
    reads_shortText.bind fun description => reads_pure (Field.mk name displayName description)).congr fun f bs => ?_
  constructor
  · rintro ⟨name, n, _, hn, ⟨displayName, d, _, hd, ⟨description, x, _, hx, ⟨rfl, rfl⟩, rfl⟩, rfl⟩, rfl⟩
    rw [List.append_nil]
    exact .mk hn hd hx
  · rintro ⟨hn, hd, hx⟩
    exact ⟨_, _, _, hn, ⟨_, _, _, hd, ⟨_, _, _, hx, ⟨rfl, rfl⟩, rfl⟩, rfl⟩, by rw [List.append_nil]⟩

theorem reads_body (r : Revision) (f : Field) (kind : FieldKind) :
    Reads (body r f kind) (fun x bs => x.kind = kind ∧ x.BodySpelled r f bs) anything := by
  cases kind with
  | command =>
    refine ((reads_schema r).bind fun request => (reads_schema r).bind fun response =>
      reads_pure (Record.command ⟨f, request, response⟩)).congr fun x bs => ?_
    constructor
    · rintro ⟨request, q, _, hq, ⟨response, s, _, hs, ⟨rfl, rfl⟩, rfl⟩, rfl⟩
      rw [List.append_nil]
      exact ⟨rfl, .command hq hs⟩
    · rintro ⟨hk, hx⟩
      cases hx with
      | command hq hs => exact ⟨_, _, _, hq, ⟨_, _, _, hs, ⟨rfl, rfl⟩, rfl⟩, by rw [List.append_nil]⟩
      | property | event => cases hk
  | property =>
    refine (reads_shortText.bind fun units => (reads_schema r).bind fun type => reads_byte.bind fun flags =>
      reads_pure (Record.property ⟨f, units, flags / 2 % 2 == 1, flags % 2 == 1, type⟩)).congr fun x bs => ?_
    have hbits : ∀ n : Nat, (n / 2 % 2 == 1) = n.testBit 1 ∧ (n % 2 == 1) = n.testBit 0 := fun n => by
      simp [Nat.testBit, Nat.shiftRight_eq_div_pow, Nat.one_and_eq_mod_two]
    constructor
    · rintro ⟨units, u, _, hu, ⟨type, s, _, hs, ⟨_, _, _, ⟨flags, rfl, rfl⟩, ⟨rfl, rfl⟩, rfl⟩, rfl⟩, rfl⟩
      rw [(hbits _).1, (hbits _).2, List.append_nil]
      exact ⟨rfl, .property flags hu hs⟩
    · rintro ⟨hk, hx⟩
      cases hx with
      | property flags hu hs =>
        refine ⟨_, _, _, hu, ⟨_, _, _, hs, ⟨_, _, _, ⟨flags, rfl, rfl⟩, ⟨?_, rfl⟩, rfl⟩, rfl⟩, by rw [List.append_nil]⟩
        rw [(hbits _).1, (hbits _).2]
      | command | event => cases hk
  | event =>
    refine (reads_shortText.bind fun units => (reads_schema r).bind fun type =>
      reads_pure (Record.event ⟨f, units, type⟩)).congr fun x bs => ?_
    constructor
    · rintro ⟨units, u, _, hu, ⟨type, s, _, hs, ⟨rfl, rfl⟩, rfl⟩, rfl⟩
      rw [List.append_nil]
      exact ⟨rfl, .event hu hs⟩
    · rintro ⟨hk, hx⟩
      cases hx with
      | event hu hs => exact ⟨_, _, _, hu, ⟨_, _, _, hs, ⟨rfl, rfl⟩, rfl⟩, by rw [List.append_nil]⟩
      | command | property => cases hk

/-! ## Loops -/

/-- The bytes end, or go on with one above all tags. -/
def Ends (bs : Bytes) : Prop := ∀ b ∈ bs.head?, FieldKind.lastTag < b

theorem reads_record (r : Revision) (id : String) (prior : List Record) (kind : FieldKind) :
    Reads (record r id prior kind) (fun x bs => x.kind = kind ∧ x.NewTo prior ∧ x.Spelled r (kind.tag :: bs))
      anything := by
  have hrest : ∀ f : Field, Reads
      (if prior.any (·.clashes kind f.name) then fail (.duplicateName id kind f.name) else body r f kind)
      (fun x bs => prior.any (·.clashes kind f.name) = false ∧ x.kind = kind ∧ x.BodySpelled r f bs) anything := by
    intro f c x c'
    split
    · rename_i hany
      constructor
      · intro h
        cases h
      · rintro ⟨bs, ⟨hnone, -⟩, -⟩
        rw [hany] at hnone
        cases hnone
    · rename_i hany
      rw [reads_body r f kind c x c']
      simp [hany]
  have hnew : ∀ x : Record, x.kind = kind → (prior.any (·.clashes kind x.field.name) = false ↔ x.NewTo prior) := by
    rintro x rfl
    simp [Record.clashes, Record.NewTo]
  refine (reads_field.bind hrest).congr fun x bs => ?_
  constructor
  · rintro ⟨f, xs, ys, hf, ⟨hany, hk, hb⟩, rfl⟩
    have hfield : x.field = f := by cases hb <;> rfl
    subst hfield
    exact ⟨hk, (hnew x hk).mp hany, hk ▸ .mk hf hb⟩
  · rintro ⟨rfl, hn, hx⟩
    cases hx with
    | mk hf hb => exact ⟨x.field, _, _, hf, ⟨(hnew x rfl).mpr hn, rfl, hb⟩, rfl⟩

theorem Ends.nil : Ends [] := nofun

theorem Ends.marker (r : Revision) (bs : Bytes) : Ends (r.marker :: bs) := by
  intro b hb
  obtain rfl : r.marker = b := by simpa using hb
  cases r <;> decide

/-- The byte is the tag of a record, if it is not above all tags. -/
theorem ofTag?_eq_some {b : UInt8} {kind : FieldKind} (h : FieldKind.ofTag? b = some kind) : b = kind.tag := by
  unfold FieldKind.ofTag? at h
  split_ifs at h <;> cases h <;> assumption

theorem tag_le (kind : FieldKind) : ¬FieldKind.lastTag < kind.tag := by
  cases kind <;> decide

/-- What the loop does at the tag of a record. -/
theorem records_tag (id : String) (prior : List Record) (kind : FieldKind) (offset : Nat) (rest : Bytes) :
    records r id prior ⟨offset, kind.tag :: rest⟩ = match record r id prior kind ⟨offset + 1, rest⟩ with
      | .error e => .error e
      | .ok (next, c') => records r id (next :: prior) c' := by
  rw [records]
  simp only [if_neg (tag_le kind), FieldKind.ofTag?_tag]
  split <;> rename_i hread <;> rw [hread]

/-- The loop takes in a record with a new name and goes on. -/
theorem records_cons {id : String} {x : Record} {prior : List Record} {a : Bytes} (hx : x.Spelled r a)
    (hn : x.NewTo prior) (offset : Nat) (rest : Bytes) :
    records r id prior ⟨offset, a ++ rest⟩ = records r id (x :: prior) ⟨offset + a.length, rest⟩ := by
  obtain ⟨hf, hb⟩ := hx
  rename_i f b
  have hread := (reads_record r id prior x.kind).run (t := rest) ⟨rfl, hn, .mk hf hb⟩ trivial (offset + 1)
  rw [List.cons_append, records_tag, hread, List.length_cons, Nat.add_assoc, Nat.add_comm 1]

/-- The loop stops at a record whose name `prior` has. -/
theorem records_clash {id : String} {x : Record} {prior : List Record} {a : Bytes} (hx : x.Spelled r a)
    (hn : ¬x.NewTo prior) (offset : Nat) (rest : Bytes) :
    records r id prior ⟨offset, a ++ rest⟩ = .error (.duplicateName id x.kind x.field.name) := by
  obtain ⟨hf, hb⟩ := hx
  rename_i f b
  have hany : prior.any (·.clashes x.kind x.field.name) = true := by
    simpa [Record.NewTo, Record.clashes] using hn
  have hread : record r id prior x.kind ⟨offset + 1, f ++ b ++ rest⟩ =
      .error (.duplicateName id x.kind x.field.name) := by
    rw [List.append_assoc, record, bind_of_ok (reads_field.run hf trivial _), if_pos hany]
    rfl
  rw [List.cons_append, records_tag, hread]

/-- With what `prior` holds, the loop reads records until a byte above all tags comes, or none. -/
theorem reads_records (r : Revision) (id : String) (prior : List Record) : Reads (records r id prior)
    (fun xs bs => ∃ ys, xs = prior.reverse ++ ys ∧ ListSpelled (Record.Spelled r) ys bs ∧ Record.Distinct ys ∧
      ∀ y ∈ ys, y.NewTo prior) Ends := by
  intro c xs c'
  constructor
  · intro h
    fun_induction records r id prior c with
    | case1 prior c hc =>
      cases h
      exact ⟨[], ⟨[], by simp, .nil, .nil, fun _ hy => absurd hy List.not_mem_nil⟩, rfl, rfl, by rw [hc]; exact .nil⟩
    | case2 prior c tag rest hc hlast =>
      cases h
      refine ⟨[], ⟨[], by simp, .nil, .nil, fun _ hy => absurd hy List.not_mem_nil⟩, rfl, rfl, fun b hb => ?_⟩
      rw [hc] at hb
      obtain rfl : tag = b := by simpa using hb
      exact hlast
    | case3 => cases h
    | case4 => cases h
    | case5 prior c tag rest hc hlast kind hk next d hr ih =>
      obtain ⟨a, ⟨rfl, hnew, hx⟩, hrest, hoff, -⟩ := (reads_record r id prior kind _ _ _).mp hr
      obtain ⟨bs, ⟨ys, rfl, hys, hd, hfresh⟩, hrest', hoff', he⟩ := ih h
      refine ⟨tag :: a ++ bs, ⟨next :: ys, by simp, ?_, ?_, ?_⟩, ?_, ?_, he⟩
      · rw [ofTag?_eq_some hk]
        exact .cons hx hys
      · refine List.pairwise_cons.mpr ⟨fun y hy hkind => ?_, hd⟩
        exact hfresh y hy next List.mem_cons_self hkind
      · intro y hy
        rcases List.mem_cons.mp hy with rfl | hy
        · exact hnew
        · exact fun z hz => hfresh y hy z (List.mem_cons_of_mem _ hz)
      · have hrest : rest = a ++ d.rest := hrest
        rw [hc, hrest, hrest', List.cons_append, List.cons_append, List.append_assoc]
      · rw [hoff', hoff]
        simp
        omega
  · rintro ⟨bs, ⟨ys, rfl, hys, hd, hfresh⟩, hrest, hoff, he⟩
    obtain ⟨offset', rest'⟩ := c'
    dsimp only at hrest hoff he
    subst hoff
    induction hys generalizing prior c with
    | nil =>
      obtain ⟨offset, rest⟩ := c
      obtain rfl : rest = rest' := hrest
      rw [records, List.append_nil]
      split
      · rfl
      · rename_i tag tail hc
        obtain rfl : rest = tag :: tail := hc
        rw [if_pos (he tag (by simp))]
        rfl
    | @cons x ys a bs hx hys ih =>
      obtain ⟨hxy, hd⟩ := List.pairwise_cons.mp hd
      obtain ⟨offset, rest⟩ := c
      obtain rfl : rest = a ++ (bs ++ rest') := by simpa using hrest
      rw [records_cons hx (hfresh x List.mem_cons_self)]
      have := ih (x :: prior) ⟨offset + a.length, bs ++ rest'⟩ hd
        (fun y hy z hz => by
          rcases List.mem_cons.mp hz with rfl | hz
          · exact hxy y hy
          · exact hfresh y (List.mem_cons_of_mem _ hy) z hz) rfl
      simpa [Nat.add_assoc] using this

theorem interface_eq (r : Revision) : interface r = (number r.width >>= text) >>= fun id =>
    records r id [] >>= fun xs => pure (Interface.ofRecords id xs) := by
  rw [bind_assoc]
  rfl

/-- An interface after its marker, up to a byte above all tags, or none. -/
theorem reads_interface (r : Revision) :
    Reads (interface r) (fun i bs => i.Spelled r (r.marker :: bs)) Ends := by
  rw [interface_eq]
  refine ((reads_sized r.width).bind fun id => (reads_records r id []).map (Interface.ofRecords id)).congr
    fun i bs => ?_
  constructor
  · rintro ⟨id, _, _, hi, ⟨_, ⟨xs, rfl, hxs, hd, -⟩, rfl⟩, rfl⟩
    exact .mk hi hxs hd
  · rintro ⟨hi, hxs, hd⟩
    rename_i id xs s b
    exact ⟨id, s, b, hi, ⟨xs, ⟨xs, rfl, hxs, hd, fun _ _ => nofun⟩, rfl⟩, rfl⟩

/-- What the loop does at the marker of an interface. -/
theorem interfaces_marker (r : Revision) (offset : Nat) (rest : Bytes) :
    interfaces r ⟨offset, r.marker :: rest⟩ = match interface r ⟨offset + 1, rest⟩ with
      | .error e => .error e
      | .ok (i, c') => (interfaces r c').map (i :: ·) := by
  rw [interfaces]
  simp only [if_pos]
  split <;> rename_i hread <;> rw [hread]

/-- A list of what opens with the marker, if only of no items, ends the interface before it. -/
theorem Ends.list {P : Interface → Bytes → Prop} (hP : ∀ i a, P i a → ∃ t, a = r.marker :: t) {is : List Interface}
    {bs : Bytes} (h : ListSpelled P is bs) : Ends bs := by
  cases h with
  | nil => exact .nil
  | cons hi _ =>
    obtain ⟨t, rfl⟩ := hP _ _ hi
    exact .marker r _

theorem opens (i : Interface) (a : Bytes) (h : i.Spelled r a) : ∃ t, a = r.marker :: t := by
  cases h
  exact ⟨_, rfl⟩

/-- What the loop does at any other byte. -/
theorem interfaces_unknown {marker : UInt8} (hm : marker ≠ r.marker) (offset : Nat) (rest : Bytes) :
    interfaces r ⟨offset, marker :: rest⟩ = .error (.unknownRecord offset marker) := by
  rw [interfaces]
  exact if_neg hm

/-- The loop takes in an interface and goes on. -/
theorem interfaces_cons {i : Interface} {a rest : Bytes} (hi : i.Spelled r a) (hr : Ends rest) (offset : Nat) :
    interfaces r ⟨offset, a ++ rest⟩ = (interfaces r ⟨offset + a.length, rest⟩).map (i :: ·) := by
  have hi' := hi
  cases hi with
  | @mk id xs s b hid hxs hd =>
    rw [List.cons_append, interfaces_marker, (reads_interface r).run hi' hr, List.length_cons, Nat.add_assoc,
      Nat.add_comm 1]

/-- The loop reads interfaces up to the end of the bytes. -/
theorem interfaces_eq_ok {c : Cursor} {is : List Interface} :
    interfaces r c = .ok is ↔ ListSpelled (Interface.Spelled r) is c.rest := by
  constructor
  · intro h
    fun_induction interfaces r c generalizing is with
    | case1 c hc =>
      cases h
      rw [hc]
      exact .nil
    | case2 => cases h
    | case3 c rest i d hi hc ih =>
      obtain ⟨a, ha, hrest, -, -⟩ := (reads_interface r _ _ _).mp hi
      cases hrec : interfaces r d with
      | error e =>
        rw [hrec] at h
        cases h
      | ok js =>
        rw [hrec] at h
        cases h
        have hrest : rest = a ++ d.rest := hrest
        rw [hc, hrest, ← List.cons_append]
        exact .cons ha (ih hrec)
    | case4 => cases h
  · obtain ⟨offset, rest⟩ := c
    intro h
    dsimp only at h
    induction h generalizing offset with
    | nil => rw [interfaces]
    | cons hi his ih => rw [interfaces_cons hi (.list opens his), ih]; rfl

/-- The version byte and the display name. -/
theorem reads_header : Reads header
    (fun x bs => ∃ n, Text.Spelled 1 x.2 n ∧ bs = x.1 :: n) anything := by
  refine (reads_byte.bind fun version => reads_shortText.map (UInt8.ofNat version, ·)).congr fun x bs => ?_
  constructor
  · rintro ⟨_, _, n, ⟨b, rfl, rfl⟩, ⟨name, hn, rfl⟩, rfl⟩
    exact ⟨n, hn, by simp⟩
  · rintro ⟨n, hn, rfl⟩
    exact ⟨_, _, n, ⟨x.1, rfl, rfl⟩, ⟨x.2, hn, by simp⟩, rfl⟩

end Reader

namespace Descriptor

variable {r : Revision} {bs : Bytes} {d : Descriptor}

/-- What parsing does after a header. -/
theorem parse_of_header {version : UInt8} {name : String} {c : Cursor}
    (h : Reader.header ⟨0, bs⟩ = .ok ((version, name), c)) :
    parse r bs = (Reader.interfaces r c).map fun is => ⟨version, name, is⟩ := by
  simp only [parse, Bind.bind, Except.bind, h]
  cases Reader.interfaces r c <;> rfl

/-- Nothing but what the grammar spells is accepted. -/
theorem spelled_of_parse (h : parse r bs = .ok d) : d.Spelled r bs := by
  cases hh : Reader.header ⟨0, bs⟩ with
  | error e =>
    simp only [parse, Bind.bind, Except.bind, hh] at h
    cases h
  | ok x =>
    obtain ⟨⟨version, name⟩, c⟩ := x
    obtain ⟨_, ⟨n, hn, rfl⟩, hrest, -, -⟩ := (Reader.reads_header _ _ _).mp hh
    rw [parse_of_header hh] at h
    cases his : Reader.interfaces r c with
    | error e =>
      rw [his] at h
      cases h
    | ok is =>
      rw [his] at h
      cases h
      have hrest : bs = version :: n ++ c.rest := hrest
      rw [hrest]
      exact .mk version hn (Reader.interfaces_eq_ok.mp his)

/-- Everything the grammar spells is accepted, and as what it spells. -/
theorem Spelled.parse (h : d.Spelled r bs) : parse r bs = .ok d := by
  obtain ⟨version, hn, his⟩ := h
  rename_i name is n b
  have hh := Reader.reads_header.run (a := (version, name)) (t := b) ⟨n, hn, rfl⟩ trivial 0
  rw [← List.cons_append, parse_of_header hh, Reader.interfaces_eq_ok.mpr his]
  rfl

/-- **The grammar is what parsing accepts.** For all bytes and both revisions: parsing gives a descriptor exactly if the
grammar spells that descriptor with these bytes, all of them, and bytes spell at most one descriptor. -/
theorem parse_eq_ok_iff (r : Revision) (bs : Bytes) :
    (∀ d, parse r bs = .ok d ↔ d.Spelled r bs) ∧
      ∀ d d' : Descriptor, d.Spelled r bs → d'.Spelled r bs → d' = d := by
  refine ⟨fun d => ⟨spelled_of_parse, Spelled.parse⟩, fun d d' h h' => ?_⟩
  have hp : (.ok d' : Except DescriptorError Descriptor) = .ok d := h'.parse.symm.trans h.parse
  cases hp
  rfl

end Descriptor
end TwinLink
