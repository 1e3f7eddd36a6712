import TwinLink.Descriptor.Wire

/-!
# Reading descriptors

* `Cursor` : the bytes not yet read and how many were;
* `Reader α` : a step that reads an `α`; `Reader.take` is the only one that consumes bytes;
* `Reader.Shrinks m` : `m` leaves no more bytes than it found, which is why the loops below end;
* `Descriptor.parse r bs` : the descriptor written by `bs` in revision `r`, or the first thing wrong with them.
-/

namespace TwinLink

/-- The bytes not yet read, and the number of bytes before them. -/
structure Cursor where
  offset : Nat
  rest : Bytes

/-- A step that reads an `α`. -/
abbrev Reader (α : Type) := StateT Cursor (Except DescriptorError) α

namespace Reader

/-! ## Steps -/

def fail {α : Type} (e : DescriptorError) : Reader α := fun _ => .error e

/-- The next `n` bytes. -/
def take (n : Nat) : Reader Bytes := fun c =>
  let head := c.rest.take n
  if head.length < n then .error (.truncated c.offset n head.length)
  else .ok (head, ⟨c.offset + n, c.rest.drop n⟩)

/-- A number in the next `w` bytes. -/
def number (w : Nat) : Reader Nat := do
  let bytes ← take w
  return Bytes.toNat bytes

/-- The text in the next `n` bytes. -/
def text (n : Nat) : Reader String := do
  let start ← get
  let bytes ← take n
  match Text.ofUtf8? bytes with
  | some s => return s
  | none => fail (.invalidUtf8 start.offset)

/-- A text behind a one-byte length. -/
def shortText : Reader String := do
  let n ← number 1
  text n

/-- A schema code. -/
def schema (r : Revision) : Reader Schema := do
  let start ← get
  let code ← number r.width
  match Schema.ofCode? code with
  | some s => return s
  | none => fail (.unknownSchema start.offset code)

/-- The three texts that open every record. -/
def field : Reader Field := do
  let name ← shortText
  let displayName ← shortText
  let description ← shortText
  return ⟨name, displayName, description⟩

/-- What follows the three texts in a record of each kind. -/
def body (r : Revision) (field : Field) : FieldKind → Reader Record
  | .command => do
    let request ← schema r
    let response ← schema r
    return .command ⟨field, request, response⟩
  | .property => do
    let units ← shortText
    let type ← schema r
    let flags ← number 1
    return .property ⟨field, units, flags / 2 % 2 == 1, flags % 2 == 1, type⟩
  | .event => do
    let units ← shortText
    let type ← schema r
    return .event ⟨field, units, type⟩

/-- A record after its tag. Its name must be new among the records of its kind in `prior`. -/
def record (r : Revision) (id : String) (prior : List Record) (kind : FieldKind) : Reader Record := do
  let f ← field
  if prior.any (·.clashes kind f.name) then fail (.duplicateName id kind f.name)
  else body r f kind

/-! ## No step gives bytes back -/

/-- The step leaves no more bytes than it found. -/
def Shrinks {α : Type} (m : Reader α) : Prop :=
  ∀ c a c', m c = .ok (a, c') → c'.rest.length ≤ c.rest.length

theorem Shrinks.pure {α : Type} (a : α) : Shrinks (pure a : Reader α) := by
  intro c b c' h
  cases h
  exact Nat.le_refl _

theorem Shrinks.get : Shrinks (get : Reader Cursor) := by
  intro c b c' h
  cases h
  exact Nat.le_refl _

theorem Shrinks.fail {α : Type} (e : DescriptorError) : Shrinks (fail e : Reader α) := by
  intro c b c' h
  cases h

theorem Shrinks.bind {α β : Type} {m : Reader α} {f : α → Reader β} (hm : Shrinks m) (hf : ∀ a, Shrinks (f a)) :
    Shrinks (m >>= f) := by
  intro c b c' h
  match hr : m c with
  | .error e => simp [Bind.bind, StateT.bind, Except.bind, hr] at h
  | .ok (a, d) =>
    have hd : f a d = .ok (b, c') := by simpa [Bind.bind, StateT.bind, Except.bind, hr] using h
    exact Nat.le_trans (hf a d b c' hd) (hm c a d hr)

theorem Shrinks.take (n : Nat) : Shrinks (take n) := by
  intro c a c' h
  dsimp only [Reader.take] at h
  split at h
  · cases h
  · cases h
    simp

theorem Shrinks.number (w : Nat) : Shrinks (number w) :=
  (Shrinks.take w).bind fun _ => .pure _

theorem Shrinks.text (n : Nat) : Shrinks (text n) := by
  refine Shrinks.get.bind fun start => (Shrinks.take n).bind fun bytes => ?_
  split
  · exact .pure _
  · exact .fail _

theorem Shrinks.shortText : Shrinks shortText :=
  (Shrinks.number 1).bind Shrinks.text

theorem Shrinks.schema (r : Revision) : Shrinks (schema r) := by
  refine Shrinks.get.bind fun start => (Shrinks.number _).bind fun code => ?_
  split
  · exact .pure _
  · exact .fail _

theorem Shrinks.field : Shrinks field :=
  Shrinks.shortText.bind fun _ => Shrinks.shortText.bind fun _ => Shrinks.shortText.bind fun _ => .pure _

theorem Shrinks.body (r : Revision) (f : Field) (kind : FieldKind) : Shrinks (body r f kind) := by
  cases kind with
  | command => exact (Shrinks.schema r).bind fun _ => (Shrinks.schema r).bind fun _ => .pure _
  | property =>
    exact Shrinks.shortText.bind fun _ => (Shrinks.schema r).bind fun _ => (Shrinks.number 1).bind fun _ => .pure _
  | event => exact Shrinks.shortText.bind fun _ => (Shrinks.schema r).bind fun _ => .pure _

theorem Shrinks.record (r : Revision) (id : String) (prior : List Record) (kind : FieldKind) :
    Shrinks (record r id prior kind) := by
  refine Shrinks.field.bind fun f => ?_
  split
  · exact .fail _
  · exact .body r f kind

/-! ## Loops -/

/-- The records of an interface, `prior` holding those already read, newest first. A byte above the last tag ends
them. -/
def records (r : Revision) (id : String) (prior : List Record) (c : Cursor) :
    Except DescriptorError (List Record × Cursor) :=
  match _hc : c.rest with
  | [] => .ok (prior.reverse, c)
  | tag :: rest =>
    if FieldKind.lastTag < tag then .ok (prior.reverse, c)
    else
      match FieldKind.ofTag? tag with
      | none => .error (.unknownFieldType c.offset tag)
      | some kind =>
        match _hr : record r id prior kind ⟨c.offset + 1, rest⟩ with
        | .error e => .error e
        | .ok (next, c') => records r id (next :: prior) c'
termination_by c.rest.length
decreasing_by
  have := Shrinks.record r id prior kind _ _ _ _hr
  simp only [_hc, List.length_cons] at this ⊢
  omega

theorem Shrinks.records (r : Revision) (id : String) (prior : List Record) : Shrinks (records r id prior) := by
  intro c a c' h
  fun_induction Reader.records r id prior c with
  | case1 => cases h; exact Nat.le_refl _
  | case2 => cases h; exact Nat.le_refl _
  | case3 => cases h
  | case4 => cases h
  | case5 prior c tag rest hc _ kind _ next d hr ih =>
    have hd := Shrinks.record r id prior kind _ _ _ hr
    have := ih h
    simp only [hc, List.length_cons] at hd ⊢
    omega

/-- An interface after its marker. -/
def interface (r : Revision) : Reader Interface := do
  let size ← number r.width
  let id ← text size
  let rs ← records r id []
  return .ofRecords id rs

theorem Shrinks.interface (r : Revision) : Shrinks (interface r) :=
  (Shrinks.number _).bind fun _ => (Shrinks.text _).bind fun id => (Shrinks.records r id []).bind fun _ => .pure _

/-- Interfaces up to the end of the bytes. -/
def interfaces (r : Revision) (c : Cursor) : Except DescriptorError (List Interface) :=
  match _hc : c.rest with
  | [] => .ok []
  | marker :: rest =>
    if marker = r.marker then
      match _hr : interface r ⟨c.offset + 1, rest⟩ with
      | .error e => .error e
      | .ok (i, c') => (interfaces r c').map (i :: ·)
    else .error (.unknownRecord c.offset marker)
termination_by c.rest.length
decreasing_by
  have := Shrinks.interface r _ _ _ _hr
  simp only [_hc, List.length_cons] at this ⊢
  omega

/-- The version byte and the display name. -/
def header : Reader (UInt8 × String) := do
  let version ← number 1
  let name ← shortText
  return (UInt8.ofNat version, name)

end Reader

/-- The descriptor written by bytes in one revision, or the first thing wrong with them. -/
def Descriptor.parse (r : Revision) (bs : Bytes) : Except DescriptorError Descriptor := do
  let ((version, name), c) ← Reader.header ⟨0, bs⟩
  let interfaces ← Reader.interfaces r c
  return ⟨version, name, interfaces⟩

end TwinLink
