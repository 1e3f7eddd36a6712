import TwinLink.Proofs.Session.Plans
import TwinLink.Proofs.Session.Switch

/-!
# Before and after a session is operational

Until a session has been operational nothing is under way in it but its start, and from then on nothing but operations.
None of this depends on how the application uses the link.

* `Host.planOperation_eq_ok` : an operation is planned only in an operational session, by the descriptor it has;
  `Host.Declines` : why it is not planned else;
* `Launched` : what is under way before and after the session is operational; `Host.launched_run`;
* `Host.wasOperational_mono` : what a session has been it has been for the rest of its run.
-/

namespace TwinLink

variable {h h' : Host} {c : Call} {q p : Point} {m : Move} {a : Action} {keeps : Bool}

/-! ## Plans -/

theorem Host.planOperation_eq_ok {op : Operation} {plan : Plan} (hp : h.planOperation op = .ok plan) :
    h.session.phase = .operational ∧ ∃ d, h.session.descriptor = some d ∧ op.plan d = .ok plan := by
  unfold planOperation at hp
  split at hp
  · cases hp
  · split at hp
    · rename_i d hd
      exact ⟨‹_›, d, hd, hp⟩
    · cases hp
  · cases hp

/-- Why a session declines an operation: it is faulted or not operational, nothing is known of the device, or the operation
cannot be planned on it. -/
inductive Host.Declines (h : Host) (op : Operation) : SessionError → Prop
  | faulted (hp : h.session.phase = .faulted) : Declines h op (.faulted "session is faulted")
  | notOperational (hp : h.session.phase ≠ .operational) : Declines h op (.notOperational h.session.phase)
  | undescribed (hp : h.session.phase = .operational) (hd : h.session.descriptor = none) :
      Declines h op (.notOperational .operational)
  | unplanned {e : SessionError} (d : Descriptor) (hp : h.session.phase = .operational)
      (hd : h.session.descriptor = some d) (he : op.plan d = .error e) : Declines h op e

theorem Host.declines {op : Operation} {e : SessionError} (hp : h.planOperation op = .error e) : h.Declines op e := by
  unfold planOperation at hp
  split at hp
  · cases hp
    exact .faulted ‹_›
  · split at hp
    · exact .unplanned _ ‹_› ‹_› hp
    · cases hp
      exact .undescribed ‹_› ‹_›
  · cases hp
    exact .notOperational ‹_›

/-- A call comes into line with the plan that it has just made. -/
theorem CallMove.plans (hm : CallMove h c q m) {plan : Plan} (hg : m.fate = .goes (.inLine plan) keeps) :
    ∃ op, (q = .begun (.operate op) ∨ q = .begun (.twinOperate op)) ∧ h.planOperation op = .ok plan := by
  have hfails : ∀ {l : Link} {notes : List Happening} {purpose : Purpose} {e : LinkError},
      ¬Fails h l notes purpose e m := fun hf => by cases (hf.goes hg).1
  have hattempts : ∀ {l : Link} {s : Session} {notes : List Happening} {stage : Stage} {retries : Nat},
      ¬Attempts l s notes stage retries m := fun ha => by cases (ha.goes hg).1
  cases hm with
  | begin hm =>
    cases hm with
    | start hp ht ha => exact (hattempts ha).elim
    | operate op plan' hp => cases hg; exact ⟨op, .inl rfl, hp⟩
    | twinOperate op plan' hp ha => cases hg; exact ⟨op, .inr rfl, hp⟩
    | _ => cases hg
  | shutOut frame ticket limit purpose hc hf => exact (hfails hf).elim
  | unwritten ticket limit purpose e hr hf => exact (hfails hf).elim
  | failed ticket limit alarm purpose e hd hf => exact (hfails hf).elim
  | timedOut ticket limit alarm purpose hd ha hf => exact (hfails hf).elim
  | acknowledged ticket limit alarm retries p hd ha => exact (hattempts ha).elim
  | paused alarm stage retries ha hm => exact (hattempts hm).elim
  | _ => cases hg

/-! ## What a session has been -/

/-- Changes that lead to another phase end with it. -/
theorem Phase.Path.mem_of_ne {a b : Phase} {xs : List (Phase × Phase)} (hx : Phase.Path a xs b) (hne : a ≠ b) :
    ∃ x ∈ xs, x.2 = b := by
  induction xs generalizing a with
  | nil => exact absurd hx hne
  | cons x xs ih =>
    by_cases hb : x.2 = b
    · exact ⟨x, List.mem_cons_self, hb⟩
    · obtain ⟨y, hy, he⟩ := ih hx.2 hb
      exact ⟨y, List.mem_cons_of_mem _ hy, he⟩

namespace Host

theorem wasOperational_acts (ha : Acts h a h') (ho : h.wasOperational) : h'.wasOperational := by
  obtain ⟨notes, hn⟩ := history_acts ha
  rw [wasOperational_append hn, ho, Bool.true_or]

/-- What a session has been it has been for the rest of its run. -/
theorem wasOperational_mono (ht : h.Tidy) (ho : h.wasOperational) (as : List Action) : (h.run as).wasOperational :=
  ht.run_inv (P := fun h => h.wasOperational) ho (fun _ _ _ ha => wasOperational_acts ha) as

/-- Without a change to it, a session that has not been operational still has not. -/
theorem wasOperational_of_changes {notes : List Note} (hn : h'.history = notes ++ h.history)
    (hc : ∀ x ∈ changesOf (notes.map (·.what)), x.2 ≠ .operational) : h'.wasOperational = h.wasOperational := by
  have hnone : (changesOf (notes.map (·.what))).any (·.2 == .operational) = false := by simpa using hc
  rw [wasOperational_append hn, hnone, Bool.or_false]

end Host

/-- No step of the dispatcher makes a session operational. -/
theorem DispatchMove.changes {p : DispatchPoint} {t : DispatchTurn} (hm : DispatchMove h p t) :
    ∀ x ∈ changesOf t.notes, x.2 ≠ .operational := by
  rcases hm.phases.2.1 with ⟨-, hn⟩ | ⟨-, hn⟩ <;> rw [hn]
  · exact changesOf_nil_ne
  · exact changesOf_ne (by decide)

/-! Turns of the loop and of the dispatcher, and moves of calls that do not change the phase to operational, leave open
whether the session has been operational. -/

theorem LoopMove.wasOperational {q : LoopPoint} {t : LoopTurn} (hm : LoopMove h q t) (ht : h.LoopTurns t h') :
    h'.wasOperational = h.wasOperational := by
  refine Host.wasOperational_of_changes ht.history ?_
  rw [changesOf_what, hm.changes.1]
  exact changesOf_nil_ne

theorem DispatchMove.wasOperational {p : DispatchPoint} {t : DispatchTurn} (hm : DispatchMove h p t)
    (ht : h.DispatchTurns t h') : h'.wasOperational = h.wasOperational := by
  refine Host.wasOperational_of_changes ht.history ?_
  rw [changesOf_what]
  exact hm.changes

theorem Host.Leaves.wasOperational (hl : h.Leaves c m h') (hx : ∀ x ∈ changesOf m.notes, x.2 ≠ .operational) :
    h'.wasOperational = h.wasOperational := by
  refine Host.wasOperational_of_changes hl.history ?_
  rwa [changesOf_what, Move.changes]

/-- Once the session has been operational no call is in the handshake, and before that no call has a plan. -/
structure Launched (h : Host) : Prop where
  operational : h.session.phase = .operational → h.wasOperational
  portTaken : h.wasOperational → h.session.portTaken
  outside : h.wasOperational → ∀ c ∈ h.calls, c.point.phase? = none
  planned : ∀ c ∈ h.calls, ∀ plan, c.point.plan? = some plan → h.wasOperational

namespace Launched

theorem ofSession (config : SessionConfig) (twin : Twin) : Launched (.ofSession config twin) :=
  ⟨nofun, nofun, nofun, List.forall_mem_nil _⟩

/-- The session does not become operational, and calls may leave or begin. -/
theorem quiet (hl : Launched h) (hw : h'.wasOperational = h.wasOperational)
    (hx : ∀ c ∈ h'.calls, c ∈ h.calls ∨ ∃ r, c.point = .begun r)
    (hp : h'.session.portTaken = h.session.portTaken)
    (hph : h'.session.phase = h.session.phase ∨ h'.session.phase = .faulted) : Launched h' where
  operational ho := by
    rw [hw]
    rcases hph with hph | hph <;> rw [hph] at ho
    · exact hl.operational ho
    · cases ho
  portTaken ho := hp ▸ hl.portTaken (hw ▸ ho)
  outside ho c hc := by
    rcases hx c hc with hc | ⟨r, hr⟩
    · exact hl.outside (hw ▸ ho) c hc
    · rw [hr]
      rfl
  planned c hc plan hq := by
    rw [hw]
    rcases hx c hc with hc | ⟨r, hr⟩
    · exact hl.planned c hc plan hq
    · rw [hr] at hq
      cases hq

theorem call (hl : Launched h) (ho : Orderly h) (hc : c ∈ h.calls) (hm : CallMove h c c.point m)
    (hle : h.Leaves c m h') (ha : Acts h a h') : Launched h' := by
  have hpath := hm.phases.path
  have hph : h'.session.phase = m.session.phase := by rw [hle.session, m.sessionAfter_phase]
  have hport : h'.session.portTaken = m.session.portTaken := by rw [hle.session, m.sessionAfter_portTaken]
  refine ⟨fun hop => ?_, fun hop => ?_, fun hop x hx => ?_, fun x hx plan hq => ?_⟩
  · -- it was operational, or became so by a change
    rw [hph] at hop
    by_cases hbefore : h.session.phase = .operational
    · exact Host.wasOperational_acts ha (hl.operational hbefore)
    · obtain ⟨x, hx, he⟩ := hpath.mem_of_ne fun he => hbefore (he.trans hop)
      rw [Host.wasOperational_append hle.history, changesOf_what, Move.changes, Bool.or_eq_true, List.any_eq_true]
      exact .inr ⟨x, List.mem_reverse.mp hx, by rw [he, hop]; rfl⟩
  · rw [hport]
    by_cases hbefore : h.wasOperational
    · exact (hm.aside (hl.portTaken hbefore) (hl.outside hbefore c hc)).portTaken
    · rcases hm.switch with ⟨⟨d, hq⟩, hdone⟩ | ⟨-, hch⟩
      · rw [hdone.portTaken]
        by_contra ht
        have hnone := (ho.idle (by simpa using ht)).2.2 c hc
        rw [hq] at hnone
        cases hnone
      · rw [hle.wasOperational hch] at hop
        exact absurd hop hbefore
  · rw [hle.calls] at hx
    by_cases hbefore : h.wasOperational
    · exact Switched.outside_callsAfter ho.numbered hc
        (hm.aside (hl.portTaken hbefore) (hl.outside hbefore c hc)).outside (fun y hy _ => hl.outside hbefore y hy) hx
    · rcases hm.switch with ⟨⟨d, hq⟩, hdone⟩ | ⟨-, hch⟩
      · refine Switched.outside_callsAfter ho.numbered hc hdone.outside (fun y hy hne => ?_) hx
        by_contra hyq
        exact hne (congrArg Call.id (ho.alone y hy c hc hyq (by rw [hq]; exact nofun)))
      · rw [hle.wasOperational hch] at hop
        exact absurd hop hbefore
  · rw [hle.calls] at hx
    rcases ho.numbered.mem_callsAfter hc hx with ⟨hx, -⟩ | ⟨p, keeps, hf, rfl⟩ | ⟨-, rfl⟩
    · exact Host.wasOperational_acts ha (hl.planned x hx plan hq)
    · rcases (hm.plan hf).2 plan hq with ⟨hq, -⟩ | ⟨-, hp⟩
      · exact Host.wasOperational_acts ha (hl.planned c hc plan hq)
      · obtain rfl : p = .inLine plan := hp
        obtain ⟨op, -, hplan⟩ := hm.plans hf
        exact Host.wasOperational_acts ha (hl.operational (Host.planOperation_eq_ok hplan).1)
    · exact Host.wasOperational_acts ha (hl.planned x hc plan hq)

/-- **Every action keeps the handshake before the operations.** -/
theorem acts (ha : Acts h a h') (hl : Launched h) (ho : Orderly h) : Launched h' := by
  have hact := ha
  cases ha with
  | loop inputFirst hm ht =>
    exact hl.quiet (hm.wasOperational ht) (by rw [ht.calls]; exact fun c hc => .inl hc) (by rw [ht.session])
      (.inl (by rw [ht.session]))
  | dispatcher inputFirst hm ht =>
    refine hl.quiet (hm.wasOperational ht) (by rw [ht.calls]; exact fun c hc => .inl hc)
      (by rw [ht.session, hm.phases.1]) ?_
    rw [ht.session]
    exact hm.phases.2.1.imp And.left And.left
  | call inputFirst hc hm hle => exact hl.call ho (Host.call?_mem hc) hm hle hact
  | make r hm ready =>
    refine hl.quiet rfl (fun c hc => ?_) rfl (.inl rfl)
    rcases List.mem_append.mp hc with hc | hc
    · exact .inl hc
    · obtain rfl := List.mem_singleton.mp hc
      exact .inr ⟨r, rfl⟩
  | abandon hc released hr ready =>
    exact hl.quiet rfl (fun c hc => .inl (List.mem_filter.mp hc).1) (by simp) (.inl (by simp))
  | _ => exact hl.quiet rfl (fun c hc => .inl hc) rfl (.inl rfl)

end Launched

theorem Host.launched_run (config : SessionConfig) (twin : Twin) (as : List Action) :
    Launched ((ofSession config twin).run as) := by
  have hinv : Orderly ((ofSession config twin).run as) ∧ Launched ((ofSession config twin).run as) :=
    (Setup.session config twin).tidy.run_inv (P := fun h => Orderly h ∧ Launched h) ⟨.ofSession config twin, .ofSession config twin⟩
      (fun _ _ _ ha ⟨ho, hl⟩ => ⟨ho.acts ha, hl.acts ha ho⟩) as
  exact hinv.2

end TwinLink
