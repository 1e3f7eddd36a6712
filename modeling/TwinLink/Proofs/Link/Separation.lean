import Mathlib.Data.List.Find
import Mathlib.Data.List.Nodup
import Mathlib.Logic.Equiv.Basic
import TwinLink.Proofs.Link.Edits

/-!
# Registrations for different types

The registrations for all types of packets stand in one table, which is searched from the front, and they get their
numbers from one count. Still those for one type fare as if there were no others.

* `WaitTable.Call`, `WaitTable.step`, `WaitTable.run` : what is asked of a table, and what comes of it;
* `WaitTable.Open` : a table that takes registrations, with one lemma for each kind of call;
* `WaitTable.only` : the calls that concern one type, and `WaitTable.renumber`, the numbers they then go by;
* `WaitTable.Mirrors type known f u v` : of one type `v` holds what `u` holds; `Mirrors.run` : and goes on so;
* `WaitTable.Alone` : a type fares as if there were no others; `WaitTable.Open.alone` : it does;
* `WaitTable.Exchanged f a b u v` : `a` and `b` have changed places; `Exchanged.run` : if no packet is for both, nothing
  else comes of it;
* `WaitTable.types_apart` : calls for other types, and the order in which registrations without a common packet are
  opened, change nothing.
-/

namespace TwinLink

/-! ## Registrations under other numbers -/

/-- The registration under another number. -/
def Waiter.renumber (f : Nat → Nat) (w : Waiter) : Waiter := { w with id := f w.id }

namespace WaitTable

theorem map_renumber_eq_self {f : Nat → Nat} {ws : List Waiter} (h : ∀ w ∈ ws, f w.id = w.id) :
    ws.map (.renumber f) = ws := by
  have hself : ∀ w ∈ ws, w.renumber f = w := fun w hw => congrArg (Waiter.mk · w.type w.matcher) (h w hw)
  rw [List.map_congr_left hself, List.map_id']

/-- The registration that is withdrawn is the same one, if no other gets its number. -/
theorem filter_map_renumber {f : Nat → Nat} {ws : List Waiter} {id : Nat} (h : ∀ w ∈ ws, f w.id = f id → w.id = id) :
    (ws.map (Waiter.renumber f)).filter (·.id != f id) = (ws.filter (·.id != id)).map (Waiter.renumber f) := by
  rw [List.filter_map]
  refine congrArg (List.map _) (List.filter_congr fun w hw => Bool.eq_iff_iff.mpr ?_)
  rw [Function.comp_apply, bne_iff_ne, bne_iff_ne]
  exact not_congr ⟨h w hw, congrArg f⟩

/-! ## Calls -/

/-- What is asked of a table. -/
inductive Call
  | register (type : UInt8) (matcher : Matcher)
  | cancel (id : Nat)
  | take (p : Packet)
deriving DecidableEq, Repr

/-- What comes of a call: a registration is opened, or a packet is for one, or for none. -/
inductive Outcome
  | opened (w : Waiter)
  | matched (w : Waiter) (p : Packet)
  | unmatched (p : Packet)
deriving DecidableEq, Repr

namespace Outcome

/-- The type of packets that it is about. -/
def type : Outcome → UInt8
  | opened w => w.type
  | matched _ p => p.type
  | unmatched p => p.type

/-- The same of registrations under other numbers. -/
def renumber (f : Nat → Nat) : Outcome → Outcome
  | opened w => opened (w.renumber f)
  | matched w p => matched (w.renumber f) p
  | unmatched p => unmatched p

def opened? : Outcome → Option Waiter
  | opened w => some w
  | _ => none

end Outcome

/-- One call, with what comes of it. A registration that is refused or withdrawn leaves nothing to tell. -/
def step (t : WaitTable) : Call → WaitTable × Option Outcome
  | .register type matcher => match t.register type matcher with
    | .ok (t', id) => (t', some (.opened ⟨id, type, matcher⟩))
    | .error _ => (t, none)
  | .cancel id => (t.cancel id, none)
  | .take p => match t.takeMatch? p with
    | some (w, t') => (t', some (.matched w p))
    | none => (t, some (.unmatched p))

/-- One call after another. -/
def run (t : WaitTable) : List Call → WaitTable × List Outcome
  | [] => (t, [])
  | c :: calls => (((t.step c).1.run calls).1, (t.step c).2.toList ++ ((t.step c).1.run calls).2)

/-- The registrations that are opened on the way. -/
def opened (t : WaitTable) (calls : List Call) : List Waiter := (t.run calls).2.filterMap Outcome.opened?

/-! ## Calls for one type -/

/-- The registrations for one type. -/
def entriesFor (t : WaitTable) (type : UInt8) : List Waiter := t.entries.filter (·.type == type)

/-- The numbers of the registrations for one type: those that stand in the table and those to come. -/
def numbers (t : WaitTable) (type : UInt8) (calls : List Call) : List Nat :=
  ((t.entries ++ t.opened calls).filter (·.type == type)).map (·.id)

/-- A number less one for each of the registrations for other types that came before it. -/
def closeUp (type : UInt8) (ws : List Waiter) (id : Nat) : Nat :=
  id - ws.countP fun w => w.type != type && decide (w.id < id)

/-- The number of a registration if from now on only those for one type are opened. -/
def renumber (t : WaitTable) (type : UInt8) (calls : List Call) : Nat → Nat := closeUp type (t.opened calls)

/-- A call if it concerns the type, `numbers` being those of the registrations for it. -/
def Call.only (type : UInt8) (numbers : List Nat) (f : Nat → Nat) : Call → Option Call
  | .register type' matcher => if type' = type then some (.register type' matcher) else none
  | .cancel id => if id ∈ numbers then some (.cancel (f id)) else none
  | .take p => if p.type = type then some (.take p) else none

/-- The calls that concern one type. Who withdraws a registration goes by the number that it has without the others. -/
def only (t : WaitTable) (type : UInt8) (calls : List Call) : List Call :=
  calls.filterMap (Call.only type (t.numbers type calls) (t.renumber type calls))

/-- The same call of registrations under other numbers. -/
def Call.renumber (f : Nat → Nat) : Call → Call
  | .register type matcher => .register type matcher
  | .cancel id => .cancel (f id)
  | .take p => .take p

/-! ## Open tables -/

/-- A table that takes registrations, and has them in their order. -/
structure Open (t : WaitTable) : Prop extends t.Ordered where
  closed : t.closed = none

theorem open_new : Open {} := ⟨⟨.nil, List.forall_mem_nil _⟩, rfl⟩

namespace Open

variable {t : WaitTable} {v w : Waiter}

/-- A registration is known by its number. -/
theorem eq_of_id (ht : t.Open) (hv : v ∈ t.entries) (hw : w ∈ t.entries) (he : v.id = w.id) : v = w :=
  List.inj_on_of_nodup_map (List.pairwise_map.mpr (ht.pairwise.imp Nat.ne_of_lt)) hv hw he

theorem enroll (ht : t.Open) (type : UInt8) (matcher : Matcher) : (t.enroll type matcher).Open :=
  ⟨ht.toOrdered.enroll type matcher, ht.closed⟩

theorem cancel (ht : t.Open) (id : Nat) : (t.cancel id).Open :=
  ⟨ht.of_sublist List.filter_sublist rfl, ht.closed⟩

theorem step_register (ht : t.Open) (type : UInt8) (matcher : Matcher) :
    t.step (.register type matcher) = (t.enroll type matcher, some (.opened ⟨t.nextId, type, matcher⟩)) := by
  have hr : t.register type matcher = .ok (t.enroll type matcher, t.nextId) := by
    unfold register
    split
    · rename_i reason hc
      cases hc.symm.trans ht.closed
    · rfl
  rw [step, hr]

/-- A registration that leaves the table for its packet leaves it as one that is withdrawn does. -/
theorem erase_eq (ht : t.Open) (hw : w ∈ t.entries) : { t with entries := t.entries.erase w } = t.cancel w.id := by
  have hnodup : t.entries.Nodup := ht.pairwise.imp fun hlt he => Nat.ne_of_lt hlt (congrArg Waiter.id he)
  have hfilter : t.entries.erase w = t.entries.filter fun v => v.id != w.id := by
    rw [hnodup.erase_eq_filter]
    refine List.filter_congr fun v hv => Bool.eq_iff_iff.mpr ?_
    rw [bne_iff_ne, bne_iff_ne]
    exact not_congr ⟨congrArg Waiter.id, ht.eq_of_id hv hw⟩
  rw [hfilter]
  rfl

/-- A packet is for the first registration that accepts it. -/
theorem step_take (ht : t.Open) (p : Packet) : t.step (.take p) =
    (t.entries.find? (·.accepts p)).elim (t, some (.unmatched p)) fun w => (t.cancel w.id, some (.matched w p)) := by
  have hw := t.takeMatch_waiter p
  cases hm : t.takeMatch? p with
  | none =>
    rw [hm] at hw
    rw [step, hm, ← hw]
    rfl
  | some x =>
    obtain ⟨w, t'⟩ := x
    obtain ⟨hmem, -, -, rfl⟩ := ht.takeMatch hm
    rw [hm] at hw
    rw [step, hm, ← hw, ht.erase_eq hmem]
    rfl

theorem nextId_take (ht : t.Open) (p : Packet) : (t.step (.take p)).1.nextId = t.nextId := by
  rw [ht.step_take]
  cases t.entries.find? (·.accepts p) <;> rfl

/-- What comes of a packet is about its type. -/
theorem type_take (ht : t.Open) (p : Packet) : ∃ o, (t.step (.take p)).2 = some o ∧ o.type = p.type := by
  rw [ht.step_take]
  cases t.entries.find? (·.accepts p) <;> exact ⟨_, rfl, rfl⟩

theorem step (ht : t.Open) (c : Call) : (t.step c).1.Open := by
  cases c with
  | register type matcher => rw [ht.step_register]; exact ht.enroll type matcher
  | cancel id => exact ht.cancel id
  | take p =>
    rw [ht.step_take]
    cases t.entries.find? (·.accepts p) with
    | none => exact ht
    | some w => exact ht.cancel w.id

theorem run (ht : t.Open) (calls : List Call) : (t.run calls).1.Open := by
  induction calls generalizing t with
  | nil => exact ht
  | cons c calls ih => exact ih (ht.step c)

theorem opened_register (ht : t.Open) (type : UInt8) (matcher : Matcher) (calls : List Call) :
    t.opened (.register type matcher :: calls) =
      ⟨t.nextId, type, matcher⟩ :: (t.enroll type matcher).opened calls := by
  rw [opened, WaitTable.run, ht.step_register]
  rfl

theorem opened_take (ht : t.Open) (p : Packet) (calls : List Call) :
    t.opened (.take p :: calls) = (t.step (.take p)).1.opened calls := by
  rw [opened, WaitTable.run, ht.step_take]
  cases t.entries.find? (·.accepts p) <;> rfl

/-- Registrations get one number after the other. -/
theorem opened_ids (ht : t.Open) (calls : List Call) :
    (t.opened calls).map (·.id) = List.range' t.nextId (t.opened calls).length := by
  induction calls generalizing t with
  | nil => rfl
  | cons c calls ih =>
    have hrest := ih (ht.step c)
    cases c with
    | register type matcher =>
      rw [ht.step_register] at hrest
      rw [opened_register ht]
      exact congrArg (t.nextId :: ·) hrest
    | cancel id => exact hrest
    | take p =>
      rw [ht.nextId_take] at hrest
      rw [opened_take ht]
      exact hrest

end Open

/-! ## Numbers without the others -/

section Numbers

variable {type : UInt8} {ws : List Waiter} {k id : Nat}

theorem closeUp_of_le (h : ∀ w ∈ ws, id ≤ w.id) : closeUp type ws id = id := by
  have hnone : ws.countP (fun w => w.type != type && decide (w.id < id)) = 0 :=
    List.countP_eq_zero.mpr fun w hw hn => by
      have := h w hw
      simp at hn
      omega
  rw [closeUp, hnone, Nat.sub_zero]

theorem closeUp_cons {w : Waiter} (hw : w.id < id) :
    closeUp type (w :: ws) id = closeUp type ws id - if w.type = type then 0 else 1 := by
  rw [closeUp, closeUp, List.countP_cons, ← Nat.sub_sub]
  by_cases ht : w.type = type <;> simp [ht, hw]

/-- If registrations have one number after the other, so have those for one type once their numbers are closed up. -/
theorem closeUp_range (type : UInt8) (hws : ws.map (·.id) = List.range' k ws.length) :
    (ws.filter (·.type == type)).map (closeUp type ws ·.id) = List.range' k (ws.countP (·.type == type)) := by
  induction ws generalizing k with
  | nil => rfl
  | cons w ws ih =>
    rw [List.map_cons, List.length_cons, List.range'_succ] at hws
    obtain ⟨hw, hrest⟩ := List.cons.inj hws
    have hlt : ∀ v ∈ ws, w.id < v.id := fun v hv => by
      have hmem := List.mem_map_of_mem (f := Waiter.id) hv
      rw [hrest] at hmem
      have := (List.mem_range'_1.mp hmem).1
      omega
    have hcons : ∀ v ∈ ws.filter (·.type == type),
        closeUp type (w :: ws) v.id = closeUp type ws v.id - if w.type = type then 0 else 1 := fun v hv =>
      closeUp_cons (hlt v (List.mem_of_mem_filter hv))
    by_cases ht : w.type = type
    · have hhead : closeUp type (w :: ws) w.id = k := by
        refine (closeUp_of_le fun v hv => ?_).trans hw
        rcases List.mem_cons.mp hv with rfl | hv
        · exact Nat.le_refl _
        · exact Nat.le_of_lt (hlt v hv)
      rw [List.filter_cons_of_pos (by simpa using ht), List.countP_cons_of_pos (by simpa using ht), List.range'_succ,
        List.map_cons, hhead, ← ih hrest]
      refine congrArg (k :: ·) (List.map_congr_left fun v hv => ?_)
      rw [hcons v hv, if_pos ht, Nat.sub_zero]
    · have hback : List.range' k (ws.countP (·.type == type)) =
          (List.range' (k + 1) (ws.countP (·.type == type))).map (· - 1) := by
        rw [List.map_sub_range' (Nat.le_add_left 1 k), Nat.add_sub_cancel]
      rw [List.filter_cons_of_neg (by simpa using ht), List.countP_cons_of_neg (by simpa using ht), hback, ← ih hrest,
        List.map_map]
      refine List.map_congr_left fun v hv => ?_
      rw [hcons v hv, if_neg ht]
      rfl

end Numbers

namespace Open

variable {t : WaitTable} {w : Waiter}

theorem le_opened (ht : t.Open) {calls : List Call} (hw : w ∈ t.opened calls) : t.nextId ≤ w.id := by
  have hmem := List.mem_map_of_mem (f := Waiter.id) hw
  rw [ht.opened_ids] at hmem
  exact (List.mem_range'_1.mp hmem).1

/-- What stands in the table already keeps its number. -/
theorem renumber_entry (ht : t.Open) (type : UInt8) (calls : List Call) (hw : w ∈ t.entries) :
    t.renumber type calls w.id = w.id :=
  closeUp_of_le fun _ hv => Nat.le_of_lt (Nat.lt_of_lt_of_le (ht.lt w hw) (ht.le_opened hv))

/-- No two registrations for the type come to have one number. -/
theorem renumber_inj (ht : t.Open) (type : UInt8) (calls : List Call) {i j : Nat} (hi : i ∈ t.numbers type calls)
    (hj : j ∈ t.numbers type calls) (he : t.renumber type calls i = t.renumber type calls j) : i = j := by
  have hentries : (t.entriesFor type).map (t.renumber type calls ·.id) = (t.entriesFor type).map (·.id) :=
    List.map_congr_left fun w hw => ht.renumber_entry type calls (List.mem_of_mem_filter hw)
  have hnumbers : (t.numbers type calls).map (t.renumber type calls) = (t.entriesFor type).map (·.id) ++
      List.range' t.nextId ((t.opened calls).countP (·.type == type)) := by
    rw [numbers, List.filter_append, List.map_map, List.map_append]
    exact congrArg₂ (· ++ ·) hentries (closeUp_range type (ht.opened_ids calls))
  refine List.inj_on_of_nodup_map (hnumbers ▸ List.nodup_append'.mpr ⟨?_, List.nodup_range', ?_⟩) hi hj he
  · exact List.pairwise_map.mpr ((ht.pairwise.sublist List.filter_sublist).imp Nat.ne_of_lt)
  · intro id hold hnew
    obtain ⟨w, hw, rfl⟩ := List.mem_map.mp hold
    exact Nat.not_lt.mpr (List.mem_range'_1.mp hnew).1 (ht.lt w (List.mem_of_mem_filter hw))

end Open

/-! ## One type among others -/

section EntriesFor

variable {type type' : UInt8}

theorem entriesFor_enroll (t : WaitTable) (type : UInt8) (matcher : Matcher) :
    (t.enroll type matcher).entriesFor type = t.entriesFor type ++ [⟨t.nextId, type, matcher⟩] := by
  simp [entriesFor, enroll]

theorem entriesFor_enroll_of_ne (t : WaitTable) (ht : type' ≠ type) (matcher : Matcher) :
    (t.enroll type' matcher).entriesFor type = t.entriesFor type := by
  simp [entriesFor, enroll, ht]

theorem entriesFor_cancel (t : WaitTable) (type : UInt8) (id : Nat) :
    (t.cancel id).entriesFor type = (t.entriesFor type).filter (·.id != id) := List.filter_comm ..

/-- The first registration that accepts a packet is found among those for its type. -/
theorem find?_accepts (t : WaitTable) (p : Packet) :
    t.entries.find? (·.accepts p) = (t.entriesFor p.type).find? (·.accepts p) := by
  rw [entriesFor, List.find?_filter]
  refine List.find?_congr fun w _ => ?_
  by_cases ht : w.type = p.type <;> simp [Waiter.accepts, ht]

end EntriesFor

theorem run_append (t : WaitTable) (before calls : List Call) : t.run (before ++ calls) =
    (((t.run before).1.run calls).1, (t.run before).2 ++ ((t.run before).1.run calls).2) := by
  induction before generalizing t with
  | nil => rfl
  | cons c before ih =>
    rw [List.cons_append, run, ih, run, List.append_assoc]

theorem run_one (t : WaitTable) (c : Call) : t.run [c] = ((t.step c).1, (t.step c).2.toList) := by
  rw [run, run, List.append_nil]

/-- The registrations to come for the type are known, and get one number after the other from `next` on. -/
structure Foreseen (type : UInt8) (known : List Nat) (f : Nat → Nat) (next : Nat) (ws : List Waiter) : Prop where
  known : ∀ w ∈ ws, w.type = type → w.id ∈ known
  numbered : ∃ n, (ws.filter (·.type == type)).map (f ·.id) = List.range' next n

/-- Of one type `v` holds what `u` holds, under the numbers that `f` gives. -/
structure Mirrors (type : UInt8) (known : List Nat) (f : Nat → Nat) (u v : WaitTable) : Prop where
  left : u.Open
  right : v.Open
  entries : v.entriesFor type = (u.entriesFor type).map (.renumber f)
  known : ∀ w ∈ u.entries, w.type = type → w.id ∈ known

section Mirrors

variable {type type' : UInt8} {matcher : Matcher} {known : List Nat} {f : Nat → Nat} {next id : Nat} {w : Waiter}
  {ws : List Waiter} {u v : WaitTable} {p : Packet}

namespace Foreseen

theorem cons (hn : Foreseen type known f next (w :: ws)) (ht : w.type = type) :
    w.id ∈ known ∧ f w.id = next ∧ Foreseen type known f (next + 1) ws := by
  obtain ⟨n, hids⟩ := hn.numbered
  rw [List.filter_cons_of_pos (by simpa using ht), List.map_cons] at hids
  obtain ⟨rfl, -, hrest⟩ := List.range'_eq_cons_iff.mp hids.symm
  exact ⟨hn.known w List.mem_cons_self ht, rfl, fun v hv => hn.known v (List.mem_cons_of_mem w hv),
    n - 1, hrest⟩

theorem cons_other (hn : Foreseen type known f next (w :: ws)) (ht : w.type ≠ type) :
    Foreseen type known f next ws := by
  obtain ⟨n, hids⟩ := hn.numbered
  rw [List.filter_cons_of_neg (by simpa using ht)] at hids
  exact ⟨fun v hv => hn.known v (List.mem_cons_of_mem w hv), n, hids⟩

end Foreseen

namespace Mirrors

theorem register (hm : Mirrors type known f u v) (hknown : u.nextId ∈ known) (hnext : f u.nextId = v.nextId)
    (matcher : Matcher) : Mirrors type known f (u.enroll type matcher) (v.enroll type matcher) where
  left := hm.left.enroll type matcher
  right := hm.right.enroll type matcher
  entries := by
    rw [entriesFor_enroll, entriesFor_enroll, List.map_append, hm.entries, ← hnext]
    rfl
  known w hw ht := by
    rcases mem_enroll.mp hw with hw | rfl
    · exact hm.known w hw ht
    · exact hknown

theorem register_other (hm : Mirrors type known f u v) (ht : type' ≠ type) (matcher : Matcher) :
    Mirrors type known f (u.enroll type' matcher) v where
  left := hm.left.enroll type' matcher
  right := hm.right
  entries := by rw [entriesFor_enroll_of_ne u ht, hm.entries]
  known w hw htype := by
    rcases mem_enroll.mp hw with hw | rfl
    · exact hm.known w hw htype
    · exact absurd htype ht

theorem known_of_mem (hm : Mirrors type known f u v) (hw : w ∈ u.entriesFor type) : w.id ∈ known :=
  hm.known w (List.mem_of_mem_filter hw) (beq_iff_eq.mp (List.mem_filter.mp hw).2)

theorem cancel (hm : Mirrors type known f u v) (hf : ∀ i ∈ known, ∀ j ∈ known, f i = f j → i = j)
    (hid : id ∈ known) : Mirrors type known f (u.cancel id) (v.cancel (f id)) where
  left := hm.left.cancel id
  right := hm.right.cancel (f id)
  entries := by
    rw [entriesFor_cancel, entriesFor_cancel, hm.entries]
    exact filter_map_renumber fun w hw => hf w.id (hm.known_of_mem hw) id hid
  known w hw := hm.known w (List.mem_of_mem_filter hw)

theorem cancel_other (hm : Mirrors type known f u v) (hid : ∀ w ∈ u.entriesFor type, w.id ≠ id) :
    Mirrors type known f (u.cancel id) v where
  left := hm.left.cancel id
  right := hm.right
  entries := by
    rw [entriesFor_cancel, List.filter_eq_self.mpr fun w hw => bne_iff_ne.mpr (hid w hw), hm.entries]
  known w hw := hm.known w (List.mem_of_mem_filter hw)

/-- A packet of the type is for the same registration in both, and leaves both alike. -/
theorem take (hm : Mirrors type known f u v) (hf : ∀ i ∈ known, ∀ j ∈ known, f i = f j → i = j) (hp : p.type = type) :
    Mirrors type known f (u.step (.take p)).1 (v.step (.take p)).1 ∧
      (v.step (.take p)).2 = (u.step (.take p)).2.map (.renumber f) := by
  have hfirst : v.entries.find? (·.accepts p) = (u.entries.find? (·.accepts p)).map (.renumber f) := by
    rw [find?_accepts, find?_accepts, hp, hm.entries, List.find?_map]
    rfl
  rw [hm.left.step_take, hm.right.step_take, hfirst]
  cases hw : u.entries.find? (·.accepts p) with
  | none => exact ⟨hm, rfl⟩
  | some w =>
    rw [find?_accepts, hp] at hw
    exact ⟨hm.cancel hf (hm.known_of_mem (List.mem_of_find?_eq_some hw)), rfl⟩

/-- A packet of another type is for none of the registrations for the type. -/
theorem take_other (hm : Mirrors type known f u v) (hp : p.type ≠ type) :
    Mirrors type known f (u.step (.take p)).1 v := by
  rw [hm.left.step_take]
  cases hw : u.entries.find? (·.accepts p) with
  | none => exact hm
  | some w =>
    refine hm.cancel_other fun x hx he => hp ?_
    obtain ⟨hmem, htype⟩ := List.mem_filter.mp hx
    obtain rfl := hm.left.eq_of_id hmem (List.mem_of_find?_eq_some hw) he
    have hacc := List.find?_some hw
    rw [Waiter.accepts, Bool.and_eq_true] at hacc
    exact (beq_iff_eq.mp hacc.1).symm.trans (beq_iff_eq.mp htype)

/-- The two stay alike in a call, if a call that does not concern the type is left out for `v`. -/
theorem step (hm : Mirrors type known f u v) (hf : ∀ i ∈ known, ∀ j ∈ known, f i = f j → i = j) {c : Call}
    {calls : List Call} (hn : Foreseen type known f v.nextId (u.opened (c :: calls))) :
    let v' := v.run (c.only type known f).toList
    Mirrors type known f (u.step c).1 v'.1 ∧
      v'.2 = ((u.step c).2.toList.filter (·.type == type)).map (.renumber f) ∧
      Foreseen type known f v'.1.nextId ((u.step c).1.opened calls) := by
  cases c with
  | register type' matcher =>
    rw [hm.left.opened_register] at hn
    rw [hm.left.step_register]
    by_cases ht : type' = type
    · subst ht
      obtain ⟨hknown, hnext, hrest⟩ := hn.cons rfl
      rw [Call.only, if_pos rfl, Option.toList_some, run_one, hm.right.step_register]
      refine ⟨hm.register hknown hnext matcher, ?_, hrest⟩
      simp [Outcome.type, Outcome.renumber, Waiter.renumber, ← hnext]
    · rw [Call.only, if_neg ht]
      refine ⟨hm.register_other ht matcher, ?_, hn.cons_other ht⟩
      simp [run, Outcome.type, ht]
  | cancel id =>
    by_cases hid : id ∈ known
    · rw [Call.only, if_pos hid]
      exact ⟨hm.cancel hf hid, rfl, hn⟩
    · rw [Call.only, if_neg hid]
      exact ⟨hm.cancel_other fun w hw he => hid (he ▸ hm.known_of_mem hw), rfl, hn⟩
  | take p =>
    obtain ⟨o, ho, htype⟩ := hm.left.type_take p
    rw [hm.left.opened_take] at hn
    by_cases ht : p.type = type
    · obtain ⟨hm', hout⟩ := hm.take hf ht
      rw [← hm.right.nextId_take p] at hn
      rw [Call.only, if_pos ht, Option.toList_some, run_one, hout, ho]
      refine ⟨hm', ?_, hn⟩
      simp [htype, ht]
    · rw [Call.only, if_neg ht, ho]
      refine ⟨hm.take_other ht, ?_, hn⟩
      simp [run, htype, ht]

/-- **What is done for one type is the same with the calls for other types and without.** -/
theorem run (hm : Mirrors type known f u v) (hf : ∀ i ∈ known, ∀ j ∈ known, f i = f j → i = j) {calls : List Call}
    (hn : Foreseen type known f v.nextId (u.opened calls)) :
    let v' := v.run (calls.filterMap (Call.only type known f))
    Mirrors type known f (u.run calls).1 v'.1 ∧
      v'.2 = ((u.run calls).2.filter (·.type == type)).map (.renumber f) := by
  induction calls generalizing u v with
  | nil => exact ⟨hm, rfl⟩
  | cons c calls ih =>
    obtain ⟨hm', hout, hn'⟩ := hm.step hf hn
    obtain ⟨hlast, houts⟩ := ih hm' hn'
    have hsplit : (c :: calls).filterMap (Call.only type known f) =
        (c.only type known f).toList ++ calls.filterMap (Call.only type known f) := by
      rw [List.filterMap_cons]
      cases c.only type known f <;> rfl
    rw [hsplit, run_append, WaitTable.run, hout, houts, List.filter_append, List.map_append]
    exact ⟨hlast, rfl⟩

end Mirrors
end Mirrors

/-- The registrations for one type fare as if there were no others. Those that stand in the table keep their numbers,
and those to come are known by their order. -/
structure Alone (t : WaitTable) (type : UInt8) (calls : List Call) : Prop where
  standing : ∀ w ∈ t.entries, t.renumber type calls w.id = w.id
  coming : ((t.opened calls).filter (·.type == type)).map (t.renumber type calls ·.id) =
    List.range' t.nextId ((t.opened calls).countP (·.type == type))
  /-- The same are opened, the same packets are for the same registrations, and the same packets are for none. -/
  outcomes : (t.run (t.only type calls)).2 =
    ((t.run calls).2.filter (·.type == type)).map (.renumber (t.renumber type calls))
  /-- The same stay in the table. -/
  pending : (t.run (t.only type calls)).1.entriesFor type =
    ((t.run calls).1.entriesFor type).map (.renumber (t.renumber type calls))

/-- An open table mirrors itself, since what stands in it keeps its number. -/
theorem Open.mirrors {t : WaitTable} (ht : t.Open) (type : UInt8) (calls : List Call) :
    Mirrors type (t.numbers type calls) (t.renumber type calls) t t where
  left := ht
  right := ht
  entries := (map_renumber_eq_self fun _ hw => ht.renumber_entry type calls (List.mem_of_mem_filter hw)).symm
  known _ hw htype :=
    List.mem_map_of_mem (List.mem_filter.mpr ⟨List.mem_append_left _ hw, beq_iff_eq.mpr htype⟩)

theorem Open.alone {t : WaitTable} (ht : t.Open) (type : UInt8) (calls : List Call) : t.Alone type calls := by
  have hcoming := closeUp_range type (ht.opened_ids calls)
  have hn : Foreseen type (t.numbers type calls) (t.renumber type calls) t.nextId (t.opened calls) :=
    { known := fun w hw htype =>
        List.mem_map_of_mem (List.mem_filter.mpr ⟨List.mem_append_right _ hw, beq_iff_eq.mpr htype⟩)
      numbered := ⟨_, hcoming⟩ }
  obtain ⟨hlast, houts⟩ := (ht.mirrors type calls).run (fun _ hi _ hj => ht.renumber_inj type calls hi hj) hn
  exact ⟨fun w hw => ht.renumber_entry type calls hw, hcoming, houts, hlast.entries⟩

/-! ## Registrations without a common packet -/

/-- The same list, but for `a` and `b` that may have changed places if they stood next to each other. -/
inductive Swapped (a b : Waiter) : List Waiter → List Waiter → Prop
  | same (ws : List Waiter) : Swapped a b ws ws
  | swap (before after : List Waiter) : Swapped a b (before ++ a :: b :: after) (before ++ b :: a :: after)

namespace Swapped

variable {a b : Waiter} {us vs : List Waiter}

theorem perm (h : Swapped a b us vs) : us.Perm vs := by
  cases h with
  | same => exact .refl _
  | swap before after => exact .append_left before (.swap b a after)

theorem append (h : Swapped a b us vs) (ws : List Waiter) : Swapped a b (us ++ ws) (vs ++ ws) := by
  cases h with
  | same => exact .same _
  | swap before after =>
    rw [List.append_assoc, List.append_assoc]
    exact .swap before (after ++ ws)

/-- If one of the two goes, the other has no one to change places with. -/
theorem filter (h : Swapped a b us vs) (keep : Waiter → Bool) : Swapped a b (us.filter keep) (vs.filter keep) := by
  cases h with
  | same => exact .same _
  | swap before after =>
    rw [List.filter_append, List.filter_append, List.filter_cons, List.filter_cons, List.filter_cons, List.filter_cons]
    cases keep a <;> cases keep b
    · exact .same _
    · exact .same _
    · exact .same _
    · exact .swap _ _

theorem find? (h : Swapped a b us vs) {q : Waiter → Bool} (hq : ¬(q a ∧ q b)) : vs.find? q = us.find? q := by
  cases h with
  | same => rfl
  | swap before after =>
    rw [List.find?_append, List.find?_append, List.find?_cons, List.find?_cons, List.find?_cons, List.find?_cons]
    cases ha : q a <;> cases hb : q b
    · rfl
    · rfl
    · rfl
    · exact absurd ⟨ha, hb⟩ hq

end Swapped

/-- No packet is for either of the two. -/
theorem not_accepts_both {a b : Waiter} (h : a.type ≠ b.type ∨
    ∃ name name', a.matcher = .named name ∧ b.matcher = .named name' ∧ name ≠ name') (p : Packet) :
    ¬(a.accepts p ∧ b.accepts p) := by
  rintro ⟨ha, hb⟩
  rw [Waiter.accepts, Bool.and_eq_true, beq_iff_eq] at ha hb
  rcases h with ht | ⟨name, name', hname, hname', hne⟩
  · exact ht (ha.1.trans hb.1.symm)
  · have ha' := ha.2
    have hb' := hb.2
    rw [hname, Matcher.accepts] at ha'
    rw [hname', Matcher.accepts] at hb'
    cases hd : NamedPayload.decode p.payload with
    | error e => rw [hd] at ha'; cases ha'
    | ok payload =>
      rw [hd] at ha' hb'
      exact hne ((beq_iff_eq.mp ha').symm.trans (beq_iff_eq.mp hb'))

/-- `v` holds the registrations of `u` under other numbers, but for `a` and `b` that may have changed places. -/
structure Exchanged (f : Nat → Nat) (a b : Waiter) (u v : WaitTable) : Prop where
  left : u.Open
  right : v.Open
  next : v.nextId = u.nextId
  fixed : ∀ id, u.nextId ≤ id → f id = id
  entries : ∃ ws, Swapped a b u.entries ws ∧ v.entries = ws.map (.renumber f)

namespace Exchanged

variable {f : Nat → Nat} {a b : Waiter} {u v : WaitTable}

theorem register (he : Exchanged f a b u v) (type : UInt8) (matcher : Matcher) :
    Exchanged f a b (u.enroll type matcher) (v.enroll type matcher) where
  left := he.left.enroll type matcher
  right := he.right.enroll type matcher
  next := congrArg (· + 1) he.next
  fixed id hid := he.fixed id (Nat.le_of_succ_le hid)
  entries := by
    obtain ⟨ws, hs, hv⟩ := he.entries
    refine ⟨_, hs.append [⟨u.nextId, type, matcher⟩], ?_⟩
    rw [enroll, hv, List.map_append, List.map_singleton, Waiter.renumber, he.fixed _ (Nat.le_refl _), he.next]

theorem cancel (he : Exchanged f a b u v) (hf : f.Injective) (id : Nat) :
    Exchanged f a b (u.cancel id) (v.cancel (f id)) where
  left := he.left.cancel id
  right := he.right.cancel (f id)
  next := he.next
  fixed := he.fixed
  entries := by
    obtain ⟨ws, hs, hv⟩ := he.entries
    refine ⟨_, hs.filter (·.id != id), ?_⟩
    rw [WaitTable.cancel, hv]
    exact filter_map_renumber fun _ _ he => hf he

/-- Nothing else comes of a call than before the exchange. -/
theorem step (he : Exchanged f a b u v) (hf : f.Injective) (hab : ∀ p, ¬(a.accepts p ∧ b.accepts p)) (c : Call) :
    Exchanged f a b (u.step c).1 (v.step (c.renumber f)).1 ∧
      (v.step (c.renumber f)).2 = (u.step c).2.map (.renumber f) := by
  cases c with
  | register type matcher =>
    rw [Call.renumber, he.left.step_register, he.right.step_register]
    refine ⟨he.register type matcher, ?_⟩
    rw [Option.map_some, Outcome.renumber, Waiter.renumber, he.fixed _ (Nat.le_refl _), he.next]
  | cancel id => exact ⟨he.cancel hf id, rfl⟩
  | take p =>
    have hfirst : v.entries.find? (·.accepts p) = (u.entries.find? (·.accepts p)).map (.renumber f) := by
      obtain ⟨ws, hs, hv⟩ := he.entries
      rw [hv, List.find?_map, ← hs.find? (hab p)]
      rfl
    rw [Call.renumber, he.left.step_take, he.right.step_take, hfirst]
    cases u.entries.find? (·.accepts p) with
    | none => exact ⟨he, rfl⟩
    | some w => exact ⟨he.cancel hf w.id, rfl⟩

theorem run (he : Exchanged f a b u v) (hf : f.Injective) (hab : ∀ p, ¬(a.accepts p ∧ b.accepts p))
    (calls : List Call) : Exchanged f a b (u.run calls).1 (v.run (calls.map (.renumber f))).1 ∧
      (v.run (calls.map (.renumber f))).2 = (u.run calls).2.map (.renumber f) := by
  induction calls generalizing u v with
  | nil => exact ⟨he, rfl⟩
  | cons c calls ih =>
    obtain ⟨he', hout⟩ := he.step hf hab c
    obtain ⟨hlast, houts⟩ := ih he'
    refine ⟨hlast, ?_⟩
    rw [List.map_cons, WaitTable.run, WaitTable.run, List.map_append, houts, hout, Option.toList_map]

end Exchanged

theorem Open.run_two {t : WaitTable} (ht : t.Open) (type type' : UInt8) (matcher matcher' : Matcher) :
    (t.run [.register type matcher, .register type' matcher']).1 = (t.enroll type matcher).enroll type' matcher' := by
  rw [WaitTable.run, run_one, ht.step_register, (ht.enroll type matcher).step_register]

/-- Two registrations in a row get each other's numbers if they are opened in the other order. -/
theorem Open.exchanged {t : WaitTable} (ht : t.Open) (type type' : UInt8) (matcher matcher' : Matcher) :
    Exchanged (Equiv.swap t.nextId (t.nextId + 1)) ⟨t.nextId, type, matcher⟩ ⟨t.nextId + 1, type', matcher'⟩
      ((t.enroll type matcher).enroll type' matcher') ((t.enroll type' matcher').enroll type matcher) where
  left := (ht.enroll type matcher).enroll type' matcher'
  right := (ht.enroll type' matcher').enroll type matcher
  next := rfl
  fixed id hid := by
    change t.nextId + 1 + 1 ≤ id at hid
    exact Equiv.swap_apply_of_ne_of_ne (by omega) (by omega)
  entries := by
    have hfixed : ∀ w ∈ t.entries, Equiv.swap t.nextId (t.nextId + 1) w.id = w.id := fun w hw => by
      have hlt := ht.lt w hw
      exact Equiv.swap_apply_of_ne_of_ne (by omega) (by omega)
    refine ⟨t.entries ++ [⟨t.nextId + 1, type', matcher'⟩, ⟨t.nextId, type, matcher⟩], ?_, ?_⟩
    · rw [WaitTable.enroll, WaitTable.enroll, List.append_assoc]
      exact .swap t.entries []
    · rw [WaitTable.enroll, WaitTable.enroll, List.append_assoc, List.map_append, map_renumber_eq_self hfixed]
      simp [Waiter.renumber]

/-- **Traffic of different types does not interfere.** In an open table, whatever has been asked of it, the waiters for
one type fare as if there were no calls for others. And two registrations in a row for different types, or for named
packets of different names, may be opened in either order. -/
theorem types_apart (before : List Call) :
    let t := (({} : WaitTable).run before).1
    (∀ type calls, t.Alone type calls) ∧
    ∀ type type' matcher matcher' calls,
      (type ≠ type' ∨ ∃ name name', matcher = .named name ∧ matcher' = .named name' ∧ name ≠ name') →
      let f := Equiv.swap t.nextId (t.nextId + 1)
      let one := (t.run [.register type matcher, .register type' matcher']).1
      let other := (t.run [.register type' matcher', .register type matcher]).1
      (other.run (calls.map (.renumber f))).2 = (one.run calls).2.map (.renumber f) ∧
        (other.run (calls.map (.renumber f))).1.entries.Perm ((one.run calls).1.entries.map (.renumber f)) := by
  intro t
  have ht : t.Open := open_new.run before
  refine ⟨fun type calls => ht.alone type calls, fun type type' matcher matcher' calls h => ?_⟩
  have hab := not_accepts_both (a := ⟨t.nextId, type, matcher⟩) (b := ⟨t.nextId + 1, type', matcher'⟩) h
  obtain ⟨hlast, houts⟩ := (ht.exchanged type type' matcher matcher').run (Equiv.injective _) hab calls
  obtain ⟨ws, hs, hv⟩ := hlast.entries
  rw [ht.run_two, ht.run_two]
  exact ⟨houts, hv ▸ (hs.perm.map _).symm⟩

/-- Of two registrations for type 6 one gets its packet and the other is withdrawn, also without the calls for type 8,
when the second has a lower number. A packet named `b` is for the same of two registrations in whichever order. -/
theorem types_apart_mixedCalls :
    let t := (({} : WaitTable).run [.register 6 .any, .register 8 .any]).1
    let p : Packet := ⟨6, [0, 1, 97]⟩
    let calls : List Call := [.register 8 .any, .register 6 (.named "a"), .take ⟨8, []⟩, .take p, .cancel 3, .take p]
    let q : Packet := ⟨8, [0, 1, 98]⟩
    let one := (t.run [.register 8 (.named "a"), .register 8 (.named "b")]).1
    let other := (t.run [.register 8 (.named "b"), .register 8 (.named "a")]).1
    t.only 6 calls = [.register 6 (.named "a"), .take p, .cancel 2, .take p] ∧
    (t.run (t.only 6 calls)).2 = [.opened ⟨2, 6, .named "a"⟩, .matched ⟨0, 6, .any⟩ p, .unmatched p] ∧
    (t.run (t.only 6 calls)).1.entriesFor 6 = [] ∧
    (one.run [.cancel 1, .take q]).2 = [.matched ⟨3, 8, .named "b"⟩ q] ∧
    (other.run [.cancel 1, .take q]).2 = [.matched ⟨2, 8, .named "b"⟩ q] := by
  intro t p calls q one other
  obtain ⟨halone, hswap⟩ := types_apart [.register 6 .any, .register 8 .any]
  have hsix := halone 6 calls
  obtain ⟨houts, -⟩ := hswap 8 8 (.named "a") (.named "b") [.cancel 1, .take q] (.inr ⟨"a", "b", rfl, rfl, by decide⟩)
  exact ⟨by decide, hsix.outcomes.trans (by decide), hsix.pending.trans (by decide), by decide,
    houts.trans (by decide)⟩

end WaitTable
end TwinLink
