import TwinLink.Proofs.Link.Ending
import TwinLink.Proofs.Session.StartEnds

/-!
# What a close leaves

A session is closed in whatever state it is, and then its link is closed for good, if it ever had one. It is faulted as
well, but a start that was under way may still make it operational. No operation has begun by then, so that the locks are
free; and they stay so, as an operation that has lined up finds the table of waiters closed.

* `Host.Present`, `Acts.keepsAbsent` : when there is a link to be closed;
* `Host.LocksFree` : nobody holds a lock or waits for one;
* `CallMove.inLine` : an operation in line, where the table of waiters is closed;
* `Host.Closing` : what a close leaves; `Host.Closing.acts`, `Host.closing_of_closes`, `Host.closing_run`.
-/

namespace TwinLink

variable {h h' : Host} {c : Call} {q p : Point} {m : Move} {a : Action} {keeps : Bool}

/-! ## Whether there is a link -/

/-- Once the stream is taken, no call begins to run the loop. -/
theorem CallMove.keepsLoop (hm : CallMove h c q m) (ht : h.session.portTaken) : m.link.loop = h.link.loop := by
  cases hm with
  | begin hm =>
    cases hm with
    | start hp hf ha =>
      rw [ht] at hf
      cases hf
    | _ => rfl
  | shutOut frame ticket limit purpose hc hf => exact hf.loop.1.trans (loop_withdraw? _ _)
  | unwritten ticket limit purpose e hd hf => exact hf.loop.1.trans (loop_withdraw? _ _)
  | failed ticket limit alarm purpose e hd hf => exact hf.loop.1
  | timedOut ticket limit alarm purpose hd ha hf => exact hf.loop.1
  | acknowledged ticket limit alarm retries p hd ha => exact ha.loop.1
  | paused alarm stage retries ha hm => exact hm.loop.1
  | _ => rfl

/-- A session that was closed before it started never gets a link. -/
theorem Acts.keepsAbsent (ha : Acts h a h') (ht : h.session.portTaken) (hl : h.link.loop = .absent) :
    h'.link.loop = .absent := by
  cases ha with
  | loop i hm ht =>
    rw [hl] at hm
    cases hm
  | dispatcher i hm ht =>
    obtain ⟨events, he⟩ := hm.link
    rw [ht.link, he]
    exact hl
  | call i hc hm hle => rw [hle.link, Move.linkAfter_loop, hm.keepsLoop ht, hl]
  | abandon hc released hr ready => exact (Link.loop_vacate _ _).trans hl
  | _ => exact hl

/-- There is a link while a start is in its handshake, and once the session has been operational. -/
def Host.Present (h : Host) : Prop :=
  (h.wasOperational ∨ ∃ c ∈ h.calls, c.point.phase? ≠ none) → h.link.loop ≠ .absent

namespace Host.Present

/-- The session does not become operational, and calls may leave or begin. -/
theorem quiet (hp : h.Present) (hw : h'.wasOperational = h.wasOperational)
    (hx : ∀ c ∈ h'.calls, c ∈ h.calls ∨ c.point.phase? = none)
    (hl : h.link.loop ≠ .absent → h'.link.loop ≠ .absent) : h'.Present := by
  rintro (hop | ⟨c, hc, hq⟩)
  · exact hl (hp (.inl (hw ▸ hop)))
  · exact hl (hp (.inr ⟨c, (hx c hc).resolve_right hq, hq⟩))

theorem call (hp : h.Present) (hn : h.Numbered) (hc : c ∈ h.calls) (hm : CallMove h c c.point m)
    (hle : h.Leaves c m h') (hl : h.link.loop ≠ .absent → h'.link.loop ≠ .absent) : h'.Present := by
  by_cases hq : c.point.phase? = none
  · -- it enters the handshake only as the start that runs the loop
    have hbegins : ∀ {p keeps}, m.fate = .goes p keeps → p.phase? ≠ none → h'.link.loop ≠ .absent := fun hf hpq => by
      obtain ⟨hstart, hph, hport⟩ := hm.begins hq hf (.inl hpq)
      rw [hstart] at hm
      cases hm with
      | begin hm =>
        cases hm with
        | startFaulted hp => exact absurd hp hph
        | startTaken hp ht => rw [hport] at ht; cases ht
        | start hp ht ha =>
          rw [hle.link, Move.linkAfter_loop, ha.loop.1]
          exact nofun
    rintro (hop | ⟨x, hx, hxq⟩)
    · refine hl (hp (.inl ?_))
      rcases hm.switch with ⟨⟨d, hreg⟩, -⟩ | ⟨-, hch⟩
      · rw [hreg] at hq
        cases hq
      · rwa [hle.wasOperational hch] at hop
    · rcases hn.mem_callsAfter hc (hle.calls ▸ hx) with ⟨hx, -⟩ | ⟨p, keeps, hf, rfl⟩ | ⟨-, rfl⟩
      · exact hl (hp (.inr ⟨x, hx, hxq⟩))
      · exact hbegins hf hxq
      · exact absurd hq hxq
  · exact fun _ => hl (hp (.inr ⟨c, hc, hq⟩))

theorem acts (hp : h.Present) (hn : h.Numbered) (hu : h.Unstarted) (ha : Acts h a h') : h'.Present := by
  have hl := ha.present hu
  cases ha with
  | loop i hm ht => exact hp.quiet (hm.wasOperational ht) (by rw [ht.calls]; exact fun c hc => .inl hc) hl
  | dispatcher i hm ht => exact hp.quiet (hm.wasOperational ht) (by rw [ht.calls]; exact fun c hc => .inl hc) hl
  | call i hc hm hle => exact hp.call hn (Host.call?_mem hc) hm hle hl
  | make r hm ready =>
    refine hp.quiet rfl (fun c hc => ?_) hl
    rcases List.mem_append.mp hc with hc | hc
    · exact .inl hc
    · obtain rfl := List.mem_singleton.mp hc
      exact .inr rfl
  | abandon hc released hr ready => exact hp.quiet rfl (fun c hc => .inl (List.mem_filter.mp hc).1) hl
  | _ => exact hp.quiet rfl (fun c hc => .inl hc) hl

end Host.Present

theorem Host.present_run (config : SessionConfig) (twin : Twin) (as : List Action) :
    ((ofSession config twin).run as).Present := by
  induction as using List.reverseRecOn with
  | nil => exact (·.elim nofun fun ⟨c, hc, _⟩ => by cases hc)
  | append_singleton as a ih =>
    rw [run_concat]
    exact ih.acts ((Setup.session config twin).numbered_run as) ((Setup.session config twin).unstarted_run as)
      (acts_ofSession config twin _ a)

/-! ## The locks -/

/-- Nobody holds a lock or waits for one. -/
def Host.LocksFree (h : Host) : Prop := ∀ kind, h.session.lock kind = {}

theorem Lock.release_acquire_free (id : Nat) : ((({} : Lock).acquire id).1.release id).1 = {} := by
  simp [acquire, release]

/-- An operation in line that finds the table of waiters closed stays in line or ends with that. -/
theorem CallMove.inLine {plan : Plan} (hm : CallMove h c (.inLine plan) m) (hcl : h.link.table.closed.isSome) :
    m.session = h.session.setLock plan.kind ((h.session.lock plan.kind).acquire c.id).1 ∧
      (((h.session.lock plan.kind).acquire c.id).2 = false ∧ m.fate = .stays ∨
        ∃ reason, h.link.table.closed = some reason ∧ m.fate = .ends (.error (.session (.link (.closed reason))))) := by
  cases hm with
  | locked _ _ ho => rw [ho] at hcl; cases hcl
  | lockedClosed _ _ reason hr => exact ⟨rfl, .inr ⟨reason, hr, rfl⟩⟩
  | lined _ hno => exact ⟨rfl, .inl ⟨hno, rfl⟩⟩

/-- Only a call in line for a lock changes the locks. -/
theorem CallMove.keepsLocks (hm : CallMove h c q m) (hq : ∀ plan, q ≠ .inLine plan) (kind : OperationKind) :
    m.session.lock kind = h.session.lock kind := by
  have hfails : ∀ {l : Link} {notes : List Happening} {purpose : Purpose} {e : LinkError},
      Fails h l notes purpose e m → m.session.lock kind = h.session.lock kind := fun hf => by
    cases hf <;> cases kind <;> rfl
  have hattempts : ∀ {l : Link} {s : Session} {notes : List Happening} {stage : Stage} {retries : Nat},
      Attempts l s notes stage retries m → s.lock kind = h.session.lock kind →
        m.session.lock kind = h.session.lock kind := fun ha hs => by
    rw [← hs]
    cases ha <;> cases kind <;> rfl
  have hsame : ∀ phase port dispatch, ({ h.session with phase := phase, portTaken := port, dispatch := dispatch } :
      Session).lock kind = h.session.lock kind := fun _ _ _ => by cases kind <;> rfl
  cases hm with
  | begin hm =>
    cases hm with
    | start hp ht ha => exact hattempts ha (hsame _ _ _)
    | closeIdle | close => exact hsame _ _ _
    | _ => rfl
  | locked plan | lockedClosed plan | lined plan => exact absurd rfl (hq plan)
  | shutOut frame ticket limit purpose hc hf => exact hfails hf
  | unwritten ticket limit purpose e hd hf => exact hfails hf
  | failed ticket limit alarm purpose e hd hf => exact hfails hf
  | timedOut ticket limit alarm purpose hd ha hf => exact hfails hf
  | acknowledged ticket limit alarm retries p hd ha => exact hattempts ha (hsame _ _ _)
  | paused alarm stage retries ha hm => exact hattempts hm rfl
  | _ => cases kind <;> rfl

namespace Session

variable {s : Session}

theorem setLock_free (hs : ∀ kind, s.lock kind = {}) (kind' : OperationKind) :
    ∀ kind, (s.setLock kind' {}).lock kind = {} := fun kind => by
  cases kind <;> cases kind' <;> first | rfl | exact hs .command | exact hs .read

theorem vacate_free (hs : ∀ kind, s.lock kind = {}) (c : Call) : ∀ kind, (s.vacate c).lock kind = {} := by
  unfold vacate
  cases c.point.plan? with
  | none => exact hs
  | some plan =>
    show ∀ kind, (s.setLock plan.kind ((s.lock plan.kind).release c.id).1).lock kind = {}
    rw [hs]
    exact setLock_free hs plan.kind

end Session

namespace Host.LocksFree

/-- **Locks stay free** while no operation is in line for them, or is sent away as the table of waiters is closed. -/
theorem acts (hfree : h.LocksFree) (hc : (∃ c ∈ h.calls, ∃ plan, c.point = .inLine plan) → h.link.table.closed.isSome)
    (ha : Acts h a h') : h'.LocksFree := by
  cases ha with
  | loop i hm ht => rwa [LocksFree, ht.session]
  | dispatcher i hm ht =>
    intro kind
    rw [ht.session, hm.lock]
    exact hfree kind
  | @call _ i c m _ hcall hm hl =>
    rw [LocksFree, hl.session]
    by_cases hp : ∃ plan, c.point = .inLine plan
    · have hclosed := hc ⟨c, call?_mem hcall, hp⟩
      obtain ⟨plan, hp⟩ := hp
      rw [hp] at hm
      obtain ⟨hsession, ⟨hno, -⟩ | ⟨reason, -, hf⟩⟩ := hm.inLine hclosed
      · rw [hfree plan.kind] at hno
        cases hno
      · -- the lock is given back at once
        rw [Move.sessionAfter, hf, hsession]
        simp only [Session.vacate, hp, Point.plan?, Option.elim_some, Session.lock_setLock, hfree plan.kind,
          Lock.release_acquire_free]
        generalize plan.kind = kind'
        intro kind
        cases kind <;> cases kind' <;> first | rfl | exact hfree .command | exact hfree .read
    · have hsame : ∀ kind, m.session.lock kind = {} := fun kind =>
        (hm.keepsLocks (fun plan he => hp ⟨plan, he⟩) kind).trans (hfree kind)
      unfold Move.sessionAfter
      split
      · exact Session.vacate_free hsame c
      · exact hsame
  | abandon hcall released hr ready => exact Session.vacate_free hfree _
  | _ => exact hfree

end Host.LocksFree

/-- Until the session has been operational the locks are free. -/
theorem Host.locksFree_run (config : SessionConfig) (twin : Twin) (as : List Action) :
    ((ofSession config twin).run as).wasOperational = false → ((ofSession config twin).run as).LocksFree := by
  induction as using List.reverseRecOn with
  | nil => exact fun _ kind => by cases kind <;> rfl
  | append_singleton as a ih =>
    rw [run_concat]
    intro ho
    have ha := acts_ofSession config twin as a
    have hbefore : ((ofSession config twin).run as).wasOperational = false := by
      by_contra h
      rw [wasOperational_acts ha (by simpa using h)] at ho
      cases ho
    refine (ih hbefore).acts (fun ⟨c, hc, plan, hp⟩ => ?_) ha
    rw [(launched_run config twin as).planned c hc plan (by rw [hp]; rfl)] at hbefore
    cases hbefore

/-! ## What a close leaves -/

/-- No operation has got beyond the line for its lock, and the locks are free. -/
structure Host.Unclaimed (h : Host) : Prop where
  free : h.LocksFree
  inLine : ∀ c ∈ h.calls, ∀ plan, c.point.plan? = some plan → c.point = .inLine plan

/-- An operation comes into the line for its lock, and no further, where the table of waiters is closed. -/
theorem CallMove.comesInLine (hm : CallMove h c q m) (hf : m.fate = .goes p keeps) (hline : ∀ plan, q.plan? = some plan →
    q = .inLine plan ∧ h.link.table.closed.isSome) {plan : Plan} (hq : p.plan? = some plan) : p = .inLine plan := by
  rcases (hm.plan hf).2 plan hq with ⟨hq, -⟩ | ⟨-, hp⟩
  · obtain ⟨rfl, hclosed⟩ := hline plan hq
    obtain ⟨-, ⟨-, he⟩ | ⟨reason, -, he⟩⟩ := hm.inLine hclosed <;> rw [hf] at he <;> cases he
  · exact hp

/-- **Locks stay unclaimed** while every operation finds the table of waiters closed. -/
theorem Host.Unclaimed.acts (hs : h.Unclaimed) (hn : h.Numbered)
    (hclosed : ∀ c ∈ h.calls, ∀ plan, c.point.plan? = some plan → h.link.table.closed.isSome) (ha : Acts h a h') :
    h'.Unclaimed := by
  refine ⟨hs.free.acts (fun ⟨c, hc, plan, he⟩ => hclosed c hc plan (by rw [he]; rfl)) ha, ?_⟩
  cases ha with
  | loop i hm ht => rw [ht.calls]; exact hs.inLine
  | dispatcher i hm ht => rw [ht.calls]; exact hs.inLine
  | @call _ i c m _ hc hm hl =>
    intro x hx plan hq
    have hc := call?_mem hc
    rcases hn.mem_callsAfter hc (hl.calls ▸ hx) with ⟨hx, -⟩ | ⟨p, keeps, hf, rfl⟩ | ⟨-, rfl⟩
    · exact hs.inLine x hx plan hq
    · exact hm.comesInLine hf (fun plan hq => ⟨hs.inLine c hc plan hq, hclosed c hc plan hq⟩) hq
    · exact hs.inLine x hc plan hq
  | make r hm ready =>
    intro x hx plan hq
    rcases List.mem_append.mp hx with hx | hx
    · exact hs.inLine x hx plan hq
    · obtain rfl := List.mem_singleton.mp hx
      cases hq
  | abandon hc released hr ready => exact fun x hx => hs.inLine x (List.mem_filter.mp hx).1
  | _ => exact hs.inLine

/-- The session has been closed. It is faulted and no call is in its handshake; or a start may still make it operational,
but then nobody has claimed a lock. -/
structure Host.Closing (h : Host) : Prop where
  portTaken : h.session.portTaken
  ended : h.link.loop = .absent ∨ h.link.table.closed.isSome
  idle : h.HandshakeOver ∧ h.session.phase = .faulted ∨ h.Unclaimed

/-- A stream that is taken stays taken. -/
theorem Acts.portTaken (ha : Acts h a h') (ht : h.session.portTaken) : h'.session.portTaken := by
  cases ha with
  | loop i hm hl => rwa [hl.session]
  | dispatcher i hm hl => rwa [hl.session, hm.portTaken]
  | call i hc hm hl =>
    rw [hl.session, Move.sessionAfter_portTaken]
    exact hm.loop.elim (fun h => h.2.trans ht) fun h => h
  | abandon hc released hr ready => simpa using ht
  | _ => exact ht

namespace Host.Closing

/-- An operation finds the table of waiters closed. -/
theorem closed (hs : h.Closing) (hla : Launched h) (hp : h.Present) (hc : c ∈ h.calls) {plan : Plan}
    (hq : c.point.plan? = some plan) : h.link.table.closed.isSome :=
  hs.ended.resolve_left (hp (.inl (hla.planned c hc plan hq)))

/-- **A session that has been closed stays so.** -/
theorem acts (hs : h.Closing) (hn : h.Numbered) (hot : h.link.table.Ordered) (hla : Launched h) (hp : h.Present)
    (ha : Acts h a h') : h'.Closing where
  portTaken := ha.portTaken hs.portTaken
  ended := hs.ended.imp (ha.keepsAbsent hs.portTaken) (ha.tableClosed hn hot)
  idle := hs.idle.imp (fun ⟨hover, hph⟩ => ⟨hover.acts hn ha, hover.faulted ha hph⟩) fun hu =>
    hu.acts hn (fun _ hc _ hq => hs.closed hla hp hc hq) ha

end Host.Closing

theorem Moment.closes_mover {mo : Moment} (hc : mo.closes) : ∃ c, mo.mover = some c ∧ c.point = .begun .close := by
  obtain ⟨h, a⟩ := mo
  unfold closes at hc
  split at hc
  · rename_i id i ha
    obtain rfl : a = _ := ha
    cases hcall : h.call? id with
    | none =>
      rw [hcall] at hc
      cases hc
    | some c =>
      rw [hcall] at hc
      have hp : c.point.isClose = true := hc
      refine ⟨c, hcall, ?_⟩
      unfold Point.isClose at hp
      split at hp
      · assumption
      · cases hp
  · cases hc

/-- What a call leaves that closes the session. -/
theorem CallMove.closes (hm : CallMove h c (.begun .close) m) (hl : h.Leaves c m h') :
    h'.session.portTaken ∧ h'.session.phase = .faulted ∧ (h.link.loop = .absent ∧ h'.link.loop = .absent ∨
      h.link.loop ≠ .absent ∧ h'.link.table.closed.isSome) ∧
    ∀ x ∈ h'.calls, x ∈ h.calls ∧ x.id ≠ c.id ∨ x.point = .shutting (.ok .done) := by
  rw [hl.session, m.sessionAfter_portTaken, m.sessionAfter_phase, hl.link, hl.calls]
  cases hm with
  | begin hm =>
    cases hm with
    | closeIdle habs =>
      refine ⟨rfl, rfl, .inl ⟨habs, (Move.linkAfter_loop _ _).trans habs⟩, fun x hx => .inl ?_⟩
      simpa using List.mem_filter.mp hx
    | close hpr =>
      refine ⟨rfl, rfl, .inr ⟨hpr, rfl⟩, fun x hx => ?_⟩
      obtain ⟨y, hy, rfl⟩ := List.mem_map.mp hx
      by_cases he : y.id = c.id
      · exact .inr (by simp [Call.goTo, he])
      · exact .inl (by simp [Call.goTo, he, hy])

/-- **Closing closes the session**, in whatever state it is. -/
theorem Host.closing_of_closes {config : SessionConfig} {twin : Twin} {as : List Action} {a : Action}
    (hc : (Moment.mk ((ofSession config twin).run as) a).closes) : ((ofSession config twin).run (as ++ [a])).Closing := by
  obtain ⟨c, hmove, hp⟩ := Moment.closes_mover hc
  have hla := launched_run config twin as
  have hfree := locksFree_run config twin as
  have ha := acts_ofSession config twin as a
  obtain ⟨-, ⟨hw, -⟩ | ⟨m, hm, hl⟩⟩ := Moment.mover_acts hmove
  · exact absurd hp ((hearing_of_waits hw).2 _)
  rw [hp] at hm
  rw [run_concat]
  obtain ⟨hport, hph, hended, hcalls⟩ := hm.closes hl
  refine ⟨hport, hended.imp And.right And.right, ?_⟩
  by_cases ho : (∃ x ∈ ((ofSession config twin).run as).calls, x.point.phase? ≠ none) ∧
      ((ofSession config twin).run as).wasOperational = false
  · -- a start is in its handshake, so there are no operations
    have hnone : ∀ x ∈ ((ofSession config twin).run as).calls, ∀ plan, x.point.plan? ≠ some plan := fun x hx plan hq => by
      rw [hla.planned x hx plan hq] at ho
      cases ho.2
    have hu : ((ofSession config twin).run as).Unclaimed :=
      ⟨hfree ho.2, fun x hx plan hq => absurd hq (hnone x hx plan)⟩
    exact .inr (hu.acts ((Setup.session config twin).numbered_run as) (fun x hx plan hq => absurd hq (hnone x hx plan)) ha)
  · refine .inl ⟨⟨hport, fun x hx => ?_⟩, hph⟩
    rcases hcalls x hx with ⟨hx, -⟩ | he
    · by_contra hq
      have hop : ((ofSession config twin).run as).wasOperational := by
        by_contra hno
        exact ho ⟨⟨x, hx, hq⟩, by simpa using hno⟩
      exact hq (hla.outside hop x hx)
    · rw [he]
      rfl

/-- **A session that was closed is closed in every later state.** -/
theorem Host.closing_run {config : SessionConfig} {twin : Twin} {as bs : List Action}
    (hc : (Moment.mk ((ofSession config twin).run as) a).closes) (hb : as ++ [a] <+: bs) :
    ((ofSession config twin).run bs).Closing := by
  obtain ⟨cs, rfl⟩ := hb
  induction cs using List.reverseRecOn with
  | nil =>
    rw [List.append_nil]
    exact closing_of_closes hc
  | append_singleton cs b ih =>
    rw [← List.append_assoc, run_concat]
    exact ih.acts ((Setup.session config twin).numbered_run _) ((Setup.session config twin).ordered_run _)
      (launched_run config twin _) (present_run config twin _) (acts_ofSession config twin _ b)

end TwinLink
