import TwinLink.Proofs.Link.Standing
import TwinLink.Proofs.Session.Plans

/-!
# Calls of a session are kept apart

Every call has a number and at most one registration of its own, and of the commands only the one that holds the lock has
a registration.

* `Moment.mover`, `Moment.planned` : the call that takes a step, and the plan that it makes in it;
* `Host.Separate` : the calls are kept apart; `Host.Separate.acts` : by everything that happens in a session;
* `Host.Separate.eq_of_commands` : only one command has its turn.
-/

namespace TwinLink

/-- The call that takes a step. -/
def Moment.mover (m : Moment) : Option Call :=
  match m.action with
  | .advance (.call id) _ => m.host.call? id
  | _ => none

/-- A call that takes a step has to wait, or moves. -/
theorem Moment.mover_acts {m : Moment} {c : Call} (hc : m.mover = some c) : c ∈ m.host.calls ∧
    (m.host.pointStep c = none ∧ m.after = m.host ∨
      ∃ move, CallMove m.host c c.point move ∧ m.host.Leaves c move m.after) := by
  obtain ⟨h, a⟩ := m
  unfold mover at hc
  split at hc
  · rename_i id i ha
    obtain rfl : a = _ := ha
    have hc : h.call? id = some c := hc
    have hafter : (Moment.mk h (.advance (.call id) i)).after = (h.pointStep c).getD h := by
      show ((h.call? id).bind h.pointStep).getD h = _
      rw [hc, Option.bind_some]
    rw [hafter]
    refine ⟨Host.call?_mem hc, ?_⟩
    cases e : h.pointStep c with
    | none => exact .inl ⟨rfl, rfl⟩
    | some h' =>
      obtain ⟨move, hm, hl⟩ := Host.pointStep_move e
      exact .inr ⟨move, hm, hl⟩
  · cases hc

/-- The call that makes its plan, and the plan. -/
def Moment.planned (m : Moment) : Option (Nat × Plan) := m.mover.bind fun c => (m.host.planned c).map (c.id, ·)

theorem LoopMove.nextId {h : Host} {q : LoopPoint} {t : LoopTurn} (ho : h.link.table.Ordered) (hm : LoopMove h q t) :
    t.link.table.nextId = h.link.table.nextId := by
  cases hm with
  | matched frame rest fault p hp hm =>
    obtain ⟨-, -, -, rfl⟩ := ho.takeMatch hm
    rfl
  | _ => rfl

theorem DispatchMove.commandLock {h : Host} {q : DispatchPoint} {t : DispatchTurn} (hm : DispatchMove h q t) :
    t.session.commandLock = h.session.commandLock := by
  cases hm <;> rfl

/-- The calls of a session, which have made the plans `planned` so far, are kept apart. -/
structure Host.Separate (planned : List (Nat × Plan)) (h : Host) : Prop where
  unstarted : h.Unstarted
  numbered : h.Numbered
  sound : h.link.Sound
  regular : ∀ c ∈ h.calls, c.point.Regular planned c.id
  issued : ∀ c ∈ h.calls, ∀ t, c.point.ticket? = some t → t.id < h.link.table.nextId
  apart : ∀ c ∈ h.calls, ∀ c' ∈ h.calls, ∀ t t', c.point.ticket? = some t → c'.point.ticket? = some t' →
    t.id = t'.id → c.id = c'.id
  locked : ∀ c ∈ h.calls, ∀ t plan, c.Commands t plan → h.session.commandLock.holder = some c.id

namespace Host.Separate

variable {planned : List (Nat × Plan)} {h h' : Host} {c : Call} {a : Action}

/-- There are no calls at the beginning. -/
theorem ofSession (config : SessionConfig) (twin : Twin) : (Host.ofSession config twin).Separate [] :=
  ⟨fun _ => rfl, ⟨.nil, List.forall_mem_nil _⟩, ⟨⟨.nil, List.forall_mem_nil _⟩, List.forall_mem_nil _, nofun, nofun⟩,
    List.forall_mem_nil _, List.forall_mem_nil _, List.forall_mem_nil _, List.forall_mem_nil _⟩

/-- Only one command has its turn. -/
theorem eq_of_commands (hs : h.Separate planned) {c' : Call} {t t' : Ticket} {plan plan' : Plan} (hc : c ∈ h.calls)
    (hc' : c' ∈ h.calls) (ht : c.Commands t plan) (ht' : c'.Commands t' plan') : c = c' :=
  hs.numbered.eq_of_id hc hc'
    (Option.some.inj ((hs.locked c hc t plan ht).symm.trans (hs.locked c' hc' t' plan' ht')))

/-- Nothing happens to the calls but that some are dropped. -/
theorem subset (hs : h.Separate planned) (ha : Acts h a h') (hc : h'.calls ⊆ h.calls)
    (hn : h.link.table.nextId ≤ h'.link.table.nextId)
    (hl : ∀ c ∈ h'.calls, h.session.commandLock.holder = some c.id → h'.session.commandLock.holder = some c.id) :
    h'.Separate planned where
  unstarted := hs.unstarted.acts ha
  numbered := hs.numbered.acts ha
  sound := hs.sound.acts ha hs.unstarted
  regular := fun c h => hs.regular c (hc h)
  issued := fun c h t ht => Nat.lt_of_lt_of_le (hs.issued c (hc h) t ht) hn
  apart := fun c h c' h' => hs.apart c (hc h) c' (hc h')
  locked := fun c h t plan ht => hl c h (hs.locked c (hc h) t plan ht)

/-- A new call begins. -/
theorem make (hs : h.Separate planned) {r : Request} (hr : r.ofSession) (ha : Acts h a h')
    (hc : h'.calls = h.calls ++ [{ id := h.made, point := .begun r, holds := r.holdsAtOnce }]) (hl : h'.link = h.link)
    (hse : h'.session = h.session) : h'.Separate planned := by
  -- it has no registration and no turn
  have hnone : (Point.begun r).ticket? = none := by
    cases r with
    | await => cases hr
    | _ => rfl
  have hmem : ∀ {x : Call}, x ∈ h'.calls → x ∈ h.calls ∨ x.point.ticket? = none ∧ x.point = .begun r := by
    intro x hx
    rw [hc] at hx
    rcases List.mem_append.mp hx with hx | hx
    · exact .inl hx
    · obtain rfl := List.mem_singleton.mp hx
      exact .inr ⟨hnone, rfl⟩
  refine ⟨hs.unstarted.acts ha, hs.numbered.acts ha, hs.sound.acts ha hs.unstarted, fun x hx => ?_, fun x hx t ht => ?_,
    fun x hx x' hx' t t' ht ht' he => ?_, fun x hx t plan ht => ?_⟩
  · rcases hmem hx with hx | ⟨-, hp⟩
    · exact hs.regular x hx
    · rw [hp]
      exact hr
  · rcases hmem hx with hx | ⟨hn, -⟩
    · rw [hl]
      exact hs.issued x hx t ht
    · rw [hn] at ht
      cases ht
  · rcases hmem hx with hx | ⟨hn, -⟩
    · rcases hmem hx' with hx' | ⟨hn, -⟩
      · exact hs.apart x hx x' hx' t t' ht ht' he
      · rw [hn] at ht'
        cases ht'
    · rw [hn] at ht
      cases ht
  · rcases hmem hx with hx | ⟨hn, -⟩
    · rw [hse]
      exact hs.locked x hx t plan ht
    · rw [ht.1] at hn
      cases hn

/-- A call moves. -/
theorem move (hs : h.Separate planned) (hc : c ∈ h.calls) {m : Move} (hm : CallMove h c c.point m)
    (hl : h.Leaves c m h') (ha : Acts h a h') : h'.Separate (planned ++ ((h.planned c).map (c.id, ·)).toList) := by
  have hreach := (hl.edits hs.unstarted hm).reach
  have hsub : planned ⊆ planned ++ ((h.planned c).map (c.id, ·)).toList := List.subset_append_left _ _
  -- a call after the move is another one, or `c` at its new point, or `c` where it was
  have hmem : ∀ {x : Call}, x ∈ h'.calls → x ∈ h.calls ∧ x.id ≠ c.id ∨
      (∃ p keeps, m.fate = .goes p keeps ∧ x = { c with point := p, holds := keeps || c.holds }) ∨
      m.fate = .stays ∧ x = c := fun hx => hs.numbered.mem_callsAfter hc (hl.calls ▸ hx)
  -- its registration is its old one or the newest
  have htick : ∀ {x : Call}, x ∈ h'.calls → ∀ {t}, x.point.ticket? = some t →
      (∃ y ∈ h.calls, y.id = x.id ∧ y.point.ticket? = some t) ∨
        t.id = h.link.table.nextId ∧ h'.link.table.nextId = h.link.table.nextId + 1 ∧ x.id = c.id := by
    intro x hx t ht
    rcases hmem hx with ⟨hx, -⟩ | ⟨p, keeps, hf, rfl⟩ | ⟨-, rfl⟩
    · exact .inl ⟨x, hx, rfl, ht⟩
    · rcases hm.ticket hf ht with hq | ⟨he, hn⟩
      · exact .inl ⟨c, hc, rfl, hq⟩
      · refine .inr ⟨he, ?_, rfl⟩
        rw [hl.link, Move.linkAfter, hf]
        exact hn
    · exact .inl ⟨x, hc, rfl, ht⟩
  refine ⟨hs.unstarted.acts ha, hs.numbered.acts ha, hs.sound.acts ha hs.unstarted, fun x hx => ?_, fun x hx t ht => ?_,
    fun x hx x' hx' t t' ht ht' he => ?_, fun x hx t plan ht => ?_⟩
  · rcases hmem hx with ⟨hx, -⟩ | ⟨p, keeps, hf, rfl⟩ | ⟨-, rfl⟩
    · exact (hs.regular x hx).mono hsub
    · exact hm.regular hf (hs.regular c hc)
    · exact (hs.regular x hc).mono hsub
  · rcases htick hx ht with ⟨y, hy, -, hyt⟩ | ⟨he, hn, -⟩
    · exact Nat.lt_of_lt_of_le (hs.issued y hy t hyt) hreach.nextId
    · omega
  · rcases htick hx ht with ⟨y, hy, hyx, hyt⟩ | ⟨hn, -, hxc⟩ <;>
      rcases htick hx' ht' with ⟨y', hy', hyx', hyt'⟩ | ⟨hn', -, hxc'⟩
    · rw [← hyx, ← hyx']
      exact hs.apart y hy y' hy' t t' hyt hyt' he
    · have := hs.issued y hy t hyt
      omega
    · have := hs.issued y' hy' t' hyt'
      omega
    · rw [hxc, hxc']
  · rw [hl.session]
    rcases hmem hx with ⟨hx, hne⟩ | ⟨p, keeps, hf, rfl⟩ | ⟨hf, rfl⟩
    · exact (hm.holder (hs.locked x hx t plan ht)).2 hne
    · rw [Move.sessionAfter, hf]
      obtain ⟨hp, hk⟩ := Point.command?_eq_some.mp ht.2
      rcases hm.turn hf ht.1 hp with ⟨hqt, hqp, -⟩ | ⟨-, hacq, -, -, -, hse⟩
      · exact (hm.holder (hs.locked c hc t plan ⟨hqt, Point.command?_eq_some.mpr ⟨hqp, hk⟩⟩)).1
      · rw [hk] at hacq hse
        show m.session.commandLock.holder = _
        rw [hse]
        exact (Lock.acquire_held hacq).1
    · rw [Move.sessionAfter, hf]
      exact (hm.holder (hs.locked x hc t plan ht)).1

/-- **The calls of a session stay apart.** -/
theorem acts (hs : h.Separate planned) (ha : Acts h a h') (hv : a.viaSession) :
    h'.Separate (planned ++ (Moment.mk h a).planned.toList) := by
  have hrest : (Moment.mk h a).planned = none → h'.Separate planned →
      h'.Separate (planned ++ (Moment.mk h a).planned.toList) := fun hn hs => by
    rw [hn, Option.toList_none, List.append_nil]
    exact hs
  have hact := ha
  cases ha with
  | idle a hr =>
    cases hp : (Moment.mk h a).planned with
    | none => rwa [Option.toList_none, List.append_nil]
    | some x =>
      refine ⟨hs.unstarted, hs.numbered, hs.sound, fun c hc => (hs.regular c hc).mono ?_, hs.issued, hs.apart, hs.locked⟩
      exact List.subset_append_left _ _
  | loop inputFirst hm ht =>
    refine hrest rfl (hs.subset hact (by rw [ht.calls]; exact fun _ => id) (Nat.le_of_eq ?_)
      (by rw [ht.session]; exact fun _ _ => id))
    rw [ht.link, hm.nextId hs.sound.table]
  | dispatcher inputFirst hm ht =>
    obtain ⟨events, he⟩ := hm.link
    refine hrest rfl (hs.subset hact (by rw [ht.calls]; exact fun _ => id) (Nat.le_of_eq (by rw [ht.link, he])) ?_)
    rw [ht.session, hm.commandLock]
    exact fun _ _ => id
  | @call id inputFirst c m h' hc hm hl =>
    have hp : (Moment.mk h (.advance (.call id) inputFirst)).planned = (h.planned c).map (c.id, ·) := by
      show Option.bind (h.call? id) _ = _
      rw [hc]
      rfl
    rw [hp]
    exact hs.move (Host.call?_mem hc) hm hl hact
  | make r hm ready => exact hrest rfl (hs.make hv hact rfl rfl rfl)
  | @abandon id c hc released hr ready =>
    refine hrest rfl (hs.subset hact (List.filter_subset_self _) (Link.EditsBy.vacate .refl).reach.nextId
      fun x hx hl => ?_)
    have hne : x.id ≠ c.id := by simpa using (List.mem_filter.mp hx).2
    rcases h.session.vacate_commandLock c with he | he <;> dsimp only <;> rw [he]
    · exact hl
    · exact Lock.release_holder hl hne
  | register | withdraw | forward | takeEvent | dropListener => cases hv
  | _ => exact hrest rfl (hs.subset hact (fun _ => id) (Nat.le_refl _) fun _ _ => id)

end Host.Separate
end TwinLink
