import TwinLink.Proofs.Link.Waits
import TwinLink.Proofs.Session.Pairing

/-!
# Registrations of a session

Where the application uses the session and not the link under it, every registration is that of a call: an operation has
one for the replies to its plan, once it has got the lock that goes with its kind, and the handshake has its own.

* `Moment.packet` : the packet of a frame that is sorted;
* `Packet.Answers` : a reply to a plan; `Plan.waiter_accepts` : what an operation registers for; `Plan.read_of_answers`;
* `Session.setLock_holder`, `CallMove.keepsLock` : who holds a lock keeps it while others move;
* `Host.Bound` : registrations, locks and calls belong together; `Host.bound_run`;
* `Host.Bound.eq_of_turn` : of the operations that share a lock only one has a registration.
-/

namespace TwinLink

/-! ## Replies -/

/-- The packet of the frame that the loop sorts. -/
def Moment.packet (m : Moment) : Option Packet := m.sorted.bind fun frame => (Packet.ofFrame frame).toOption

theorem Moment.packet_eq_some {m : Moment} {p : Packet} : m.packet = some p ↔
    ∃ frame, m.sorted = some frame ∧ Packet.ofFrame frame = .ok p := by
  unfold packet
  rw [Option.bind_eq_some_iff]
  refine exists_congr fun frame => and_congr_right fun _ => ?_
  cases Packet.ofFrame frame <;> simp [Except.toOption]

/-- The packet has the type and the name of a reply to the plan, which is all that a reply says of its request. -/
def Packet.Answers (p : Packet) (plan : Plan) : Prop :=
  p.type = plan.kind.response.code ∧ p.name? = some plan.name

theorem Matcher.accepts_named {p : Packet} {name : String} : (Matcher.named name).accepts p ↔ p.name? = some name := by
  rw [Packet.name?_eq_some]
  unfold accepts
  cases NamedPayload.decode p.payload <;> simp

/-- A plan registers for its replies. -/
theorem Plan.waiter_accepts {plan : Plan} {t : Nat} {p : Packet} : (plan.waiter t).accepts p ↔ p.Answers plan := by
  rw [Waiter.accepts_iff, Plan.waiter, Matcher.accepts_named, Packet.Answers, eq_comm]

/-- A reply that has the name of the plan is read up to its value. -/
theorem Plan.read_of_answers {plan : Plan} {p : Packet} (ha : p.Answers plan) :
    ∃ payload, NamedPayload.decode p.payload = .ok payload ∧ payload.name = plan.name ∧
      plan.read p = (plan.result.toText payload.data).mapError .schema := by
  obtain ⟨payload, hp, hname⟩ := Packet.name?_eq_some.mp ha.2
  refine ⟨payload, hp, hname, ?_⟩
  rw [read, hp]

/-! ## Locks -/

namespace Session

variable {s : Session} {kind kind' : OperationKind} {l : Lock} {id : Nat}

/-- A lock is set, and whoever holds one still does. -/
theorem setLock_holder (hs : (s.lock kind').holder = some id)
    (hl : (s.lock kind).holder = some id → l.holder = some id) : ((s.setLock kind l).lock kind').holder = some id := by
  cases kind <;> cases kind' <;> first | exact hs | exact hl hs

theorem lock_setLock (s : Session) (kind : OperationKind) (l : Lock) : (s.setLock kind l).lock kind = l := by
  cases kind <;> rfl

/-- Operations that wait for the same kind of reply share a lock. -/
theorem lock_of_response (hk : kind.response = kind'.response) : s.lock kind = s.lock kind' := by
  cases kind <;> cases kind' <;> first | rfl | cases hk

theorem vacate_holder {c : Call} (hs : (s.lock kind).holder = some id) (hne : id ≠ c.id) :
    ((s.vacate c).lock kind).holder = some id := by
  unfold vacate
  cases c.point.plan? with
  | none => exact hs
  | some plan => exact setLock_holder hs fun hl => Lock.release_holder hl hne

end Session

/-- Who holds a lock keeps it while a call moves. -/
theorem CallMove.keepsLock {h : Host} {c : Call} {q : Point} {m : Move} {kind : OperationKind} {id : Nat}
    (hm : CallMove h c q m) (hl : (h.session.lock kind).holder = some id) : (m.session.lock kind).holder = some id := by
  have hsame : m.session.commandLock = h.session.commandLock → m.session.propertyLock = h.session.propertyLock →
      (m.session.lock kind).holder = some id := by
    intro hc hp
    have : m.session.lock kind = h.session.lock kind := by cases kind <;> assumption
    rw [this]
    exact hl
  have hfails : ∀ {l : Link} {notes : List Happening} {purpose : Purpose} {e : LinkError},
      Fails h l notes purpose e m → (m.session.lock kind).holder = some id := by
    intro l notes purpose e hf
    exact hsame (by cases hf <;> rfl) (by cases hf <;> rfl)
  have hattempts : ∀ {l : Link} {s : Session} {notes : List Happening} {stage : Stage} {retries : Nat},
      Attempts l s notes stage retries m → s.commandLock = h.session.commandLock →
      s.propertyLock = h.session.propertyLock → (m.session.lock kind).holder = some id := by
    intro l s notes stage retries ha hc hp
    exact hsame (by cases ha <;> exact hc) (by cases ha <;> exact hp)
  cases hm with
  | begin hm =>
    cases hm with
    | start hp hf ha => exact hattempts ha rfl rfl
    | _ => exact hl
  | locked | lockedClosed | lined => exact Session.setLock_holder hl Lock.acquire_holder
  | shutOut frame ticket limit purpose hc hf => exact hfails hf
  | unwritten ticket limit purpose e hd hf => exact hfails hf
  | failed ticket limit alarm purpose e hd hf => exact hfails hf
  | timedOut ticket limit alarm purpose hd ha hf => exact hfails hf
  | acknowledged ticket limit alarm retries p hd ha => exact hattempts ha rfl rfl
  | paused alarm stage retries ha hm => exact hattempts hm rfl rfl
  | _ => exact hsame rfl rfl

theorem DispatchMove.lock {h : Host} {q : DispatchPoint} {t : DispatchTurn} (hm : DispatchMove h q t)
    (kind : OperationKind) : t.session.lock kind = h.session.lock kind := by
  cases hm <;> cases kind <;> rfl

/-! ## Registrations and calls -/

/-- A call of a session that goes on with a registration and without a plan is in the handshake. -/
theorem CallMove.handshakes {h : Host} {c : Call} {q p : Point} {m : Move} {keeps : Bool} {planned : List (Nat × Plan)}
    (hm : CallMove h c q m) (hr : q.Regular planned c.id) (hg : m.fate = .goes p keeps) {t : Ticket}
    (ht : p.ticket? = some t) (hp : p.plan? = none) :
    q.ticket? = some t ∧ q.plan? = none ∨ ∃ stage : Stage, t.type = stage.response.code := by
  have hattempts : ∀ {l : Link} {s : Session} {notes : List Happening} {stage : Stage} {retries : Nat},
      Attempts l s notes stage retries m → ∃ stage : Stage, t.type = stage.response.code := by
    intro l s notes stage retries ha
    cases ha with
    | opened ho =>
      cases hg
      cases ht
      exact ⟨stage, rfl⟩
    | closed =>
      cases hg
      cases ht
  have hfails : ∀ {l : Link} {notes : List Happening} {purpose : Purpose} {e : LinkError},
      Fails h l notes purpose e m → False := by
    intro l notes purpose e hf
    have := (hf.goes hg).2.1
    rw [ht] at this
    cases this
  cases hm with
  | begin hm =>
    cases hm with
    | start hp hf ha => exact .inr (hattempts ha)
    | send | exchange | receive | await | shutDown => cases hr
    | operate | twinOperate | close => cases hg; cases ht
    | _ => cases hg
  | locked => cases hg; cases hp
  | entered | written => cases hg; exact .inl ⟨ht, hp⟩
  | shutOut frame ticket limit purpose hc hf => exact (hfails hf).elim
  | unwritten ticket limit purpose e hd hf => exact (hfails hf).elim
  | failed ticket limit alarm purpose e hd hf => exact (hfails hf).elim
  | timedOut ticket limit alarm purpose hd ha hf => exact (hfails hf).elim
  | acknowledged ticket limit alarm retries p hd ha => exact .inr (hattempts ha)
  | paused alarm stage retries ha hm => exact .inr (hattempts hm)
  | taken | misdescribed | described | asked | skipped | refused | registered => cases hg; cases ht
  | _ => cases hg

/-- The registrations of a session are those of its calls: an operation has one for the replies to its plan, and the lock
that goes with it, and the handshake has one for its own replies. -/
structure Host.Bound (opened : List Waiter) (h : Host) : Prop where
  tickets : h.tickets = []
  locked : ∀ c ∈ h.calls, ∀ t plan, c.point.ticket? = some t → c.point.plan? = some plan →
    (h.session.lock plan.kind).holder = some c.id
  planned : ∀ c ∈ h.calls, ∀ t plan, c.point.ticket? = some t → c.point.plan? = some plan →
    t = (plan.waiter t.id).ticket ∧ plan.waiter t.id ∈ opened
  handshake : ∀ c ∈ h.calls, ∀ t, c.point.ticket? = some t → c.point.plan? = none →
    ∃ stage : Stage, t.type = stage.response.code

namespace Host.Bound

variable {opened : List Waiter} {planned : List (Nat × Plan)} {h h' : Host} {a : Action} {c : Call}

/-- Nothing happens to the calls but that some are dropped. -/
theorem subset (hb : h.Bound opened) (hc : h'.calls ⊆ h.calls) (ht : h'.tickets = h.tickets)
    (hl : ∀ c ∈ h'.calls, ∀ kind, (h.session.lock kind).holder = some c.id → (h'.session.lock kind).holder = some c.id)
    (more : List Waiter) : h'.Bound (opened ++ more) where
  tickets := by rw [ht, hb.tickets]
  locked := fun c h t plan ht hp => hl c h _ (hb.locked c (hc h) t plan ht hp)
  planned := fun c h t plan ht hp => (hb.planned c (hc h) t plan ht hp).imp_right (List.mem_append_left _)
  handshake := fun c h => hb.handshake c (hc h)

theorem move (hb : h.Bound opened) (hn : h.Numbered) (hr : c.point.Regular planned c.id) (hc : c ∈ h.calls) {m : Move}
    (hm : CallMove h c c.point m) (hl : h.Leaves c m h') {more : List Waiter}
    (hmore : more = h'.link.table.entries.filter fun w => h.link.table.nextId ≤ w.id) : h'.Bound (opened ++ more) := by
  -- a call after the move is one from before, or `c` at its new point
  have hmem : ∀ {x : Call}, x ∈ h'.calls → x ∈ h.calls ∨
      ∃ p keeps, m.fate = .goes p keeps ∧ x = { c with point := p, holds := keeps || c.holds } := by
    intro x hx
    rcases hn.mem_callsAfter hc (hl.calls ▸ hx) with ⟨hx, -⟩ | hx | ⟨-, rfl⟩
    · exact .inl hx
    · exact .inr hx
    · exact .inl hc
  constructor
  · rw [hl.tickets, hb.tickets]
  · intro x hx t plan ht hp
    rw [hl.session, Move.sessionAfter]
    rcases hn.mem_callsAfter hc (hl.calls ▸ hx) with ⟨hx, hne⟩ | ⟨p, keeps, hf, rfl⟩ | ⟨hf, rfl⟩
    · have hheld := hm.keepsLock (hb.locked x hx t plan ht hp)
      split
      · exact Session.vacate_holder hheld hne
      · exact hheld
    · rw [hf]
      rcases hm.turn hf ht hp with ⟨hqt, hqp, -⟩ | ⟨-, hacq, -, -, -, hse⟩
      · exact hm.keepsLock (hb.locked c hc t plan hqt hqp)
      · show (m.session.lock plan.kind).holder = some c.id
        rw [hse, Session.lock_setLock]
        exact (Lock.acquire_held hacq).1
    · rw [hf]
      exact hm.keepsLock (hb.locked x hc t plan ht hp)
  · intro x hx t plan ht hp
    rcases hmem hx with hx | ⟨p, keeps, hf, rfl⟩
    · exact (hb.planned x hx t plan ht hp).imp_right (List.mem_append_left _)
    · rcases hm.turn hf ht hp with ⟨hqt, hqp, -⟩ | ⟨-, -, -, rfl, hlink, -⟩
      · exact (hb.planned c hc t plan hqt hqp).imp_right (List.mem_append_left _)
      · refine ⟨rfl, List.mem_append_right _ ?_⟩
        rw [hmore, hl.link, Move.linkAfter, hf, hlink, List.mem_filter]
        exact ⟨List.mem_append_right _ (List.mem_singleton.mpr rfl), decide_eq_true (Nat.le_refl _)⟩
  · intro x hx t ht hp
    rcases hmem hx with hx | ⟨p, keeps, hf, rfl⟩
    · exact hb.handshake x hx t ht hp
    · rcases hm.handshakes hr hf ht hp with ⟨hqt, hqp⟩ | hstage
      · exact hb.handshake c hc t hqt hqp
      · exact hstage

theorem acts (hb : h.Bound opened) (hs : h.Separate planned) (ha : Acts h a h') (hv : a.viaSession) :
    h'.Bound (opened ++ h'.link.table.entries.filter fun w => h.link.table.nextId ≤ w.id) := by
  have hdrop : h'.calls ⊆ h.calls → h'.tickets = h.tickets → (∀ c ∈ h'.calls, ∀ kind,
      (h.session.lock kind).holder = some c.id → (h'.session.lock kind).holder = some c.id) →
      h'.Bound (opened ++ h'.link.table.entries.filter fun w => h.link.table.nextId ≤ w.id) := by
    intro hc ht hl
    exact hb.subset hc ht hl _
  have hless : h'.calls ⊆ h.calls → h'.tickets = h.tickets → (∀ kind, h'.session.lock kind = h.session.lock kind) →
      h'.Bound (opened ++ h'.link.table.entries.filter fun w => h.link.table.nextId ≤ w.id) := by
    intro hc ht hl
    exact hdrop hc ht fun c _ kind hk => by rw [hl kind]; exact hk
  cases ha with
  | loop i hm ht =>
    exact hless (by rw [ht.calls]; exact List.Subset.refl _) ht.tickets fun kind => by rw [ht.session]
  | dispatcher i hm ht =>
    refine hless (by rw [ht.calls]; exact List.Subset.refl _) ht.tickets fun kind => ?_
    rw [ht.session, hm.lock kind]
  | call i hc hm hl => exact hb.move hs.numbered (hs.regular _ (call?_mem hc)) (call?_mem hc) hm hl rfl
  | make r hm ready =>
    have hnone : (Point.begun r).ticket? = none ∧ h.ticketsWithout r = h.tickets := by
      cases r with
      | await => cases hv
      | _ => exact ⟨rfl, rfl⟩
    have hmem : ∀ {x : Call}, x ∈ h.calls ++ [⟨h.made, .begun r, r.holdsAtOnce⟩] →
        x ∈ h.calls ∨ x.point.ticket? = none := by
      intro x hx
      rcases List.mem_append.mp hx with hx | hx
      · exact .inl hx
      · obtain rfl := List.mem_singleton.mp hx
        exact .inr hnone.1
    refine ⟨by rw [← hb.tickets]; exact hnone.2, fun x hx t plan ht hp => ?_, fun x hx t plan ht hp => ?_,
      fun x hx t ht hp => ?_⟩
    · rcases hmem hx with hx | hx
      · exact hb.locked x hx t plan ht hp
      · rw [hx] at ht
        cases ht
    · rcases hmem hx with hx | hx
      · exact (hb.planned x hx t plan ht hp).imp_right (List.mem_append_left _)
      · rw [hx] at ht
        cases ht
    · rcases hmem hx with hx | hx
      · exact hb.handshake x hx t ht hp
      · rw [hx] at ht
        cases ht
  | abandon hc released hr ready =>
    refine hdrop (List.filter_subset_self _) rfl fun x hx kind hk => ?_
    exact Session.vacate_holder hk (by simpa using (List.mem_filter.mp hx).2)
  | register | withdraw => cases hv
  | _ => exact hless (List.Subset.refl _) rfl fun _ => rfl

/-- The registration of an operation is for its kind of reply. -/
theorem type_eq (hb : h.Bound opened) {t : Ticket} {plan : Plan} (hc : c ∈ h.calls) (ht : c.point.ticket? = some t)
    (hp : c.point.plan? = some plan) : t.type = plan.kind.response.code :=
  congrArg Ticket.type (hb.planned c hc t plan ht hp).1

/-- Of the operations that wait for one kind of reply only one has a registration. -/
theorem eq_of_turn (hb : h.Bound opened) (hn : h.Numbered) {c' : Call} {t t' : Ticket} {plan plan' : Plan}
    (hc : c ∈ h.calls) (hc' : c' ∈ h.calls) (ht : c.point.ticket? = some t) (hp : c.point.plan? = some plan)
    (ht' : c'.point.ticket? = some t') (hp' : c'.point.plan? = some plan')
    (hk : plan.kind.response = plan'.kind.response) : c = c' := by
  have hheld := hb.locked c hc t plan ht hp
  rw [Session.lock_of_response hk] at hheld
  exact hn.eq_of_id hc hc' (Option.some.inj (hheld.symm.trans (hb.locked c' hc' t' plan' ht' hp')))

end Host.Bound

namespace Host

variable {config : SessionConfig} {twin : Twin} {as bs : List Action}

theorem separate_run (hv : ∀ a ∈ as, a.viaSession) :
    ((ofSession config twin).run as).Separate ((ofSession config twin).plannedIn as) := by
  induction as using List.reverseRecOn with
  | nil => exact .ofSession config twin
  | append_singleton as a ih =>
    rw [run_concat, plannedIn, seen_concat]
    exact (ih fun b hb => hv b (List.mem_append_left _ hb)).acts (acts_ofSession config twin _ a) (hv a (by simp))

theorem bound_run (hv : ∀ a ∈ as, a.viaSession) :
    ((ofSession config twin).run as).Bound (((ofSession config twin).moments as).flatMap Moment.opened) := by
  induction as using List.reverseRecOn with
  | nil => exact ⟨rfl, List.forall_mem_nil _, List.forall_mem_nil _, List.forall_mem_nil _⟩
  | append_singleton as a ih =>
    have hv' : ∀ b ∈ as, b.viaSession := fun b hb => hv b (List.mem_append_left _ hb)
    rw [run_concat, moments_concat, List.flatMap_append, List.flatMap_singleton]
    exact (ih hv').acts (separate_run hv') (acts_ofSession config twin _ a) (hv a (by simp))

end Host
end TwinLink
