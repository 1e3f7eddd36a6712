import TwinLink.Proofs.Session.Operations

/-!
# What operations cost

An operation that fails costs nothing but itself. If it is refused, by the state of the session, by what is known of the
device or by its value, it has done nothing at all. If its reply did not come, or has no value that can be read, one
request was written for it, and its registration is gone. Whatever it does, it leaves the session, the link and all that
other calls wait for as they are.

* `SessionError.isLocal`, `SessionError.isFruitless` : errors of operations that were refused, and of requests in vain;
* `Call.Spares` : what a call leaves alone; `CallMove.spares`, `Call.spares_abandon`;
* `Host.begun_run` : a call that has not begun has not taken a step; `Moment.OnlyAnswers` : a step that only answers;
* `Operation.FailsAt`, `CallMove.failsAt` : where an operation fails;
* `Host.OperationCosts`, `Host.operation_costs` : what operations cost, in every run.
-/

namespace TwinLink

variable {h h' : Host} {c : Call} {q p : Point} {m : Move} {a : Action} {op : Operation} {b : Outbox} {id : Nat}
  {e : SessionError} {plan : Plan}

/-! ## Errors -/

namespace SessionError

/-- The operation was refused before it sent anything. -/
def isLocal : SessionError → Bool
  | notOperational _ => true
  | faulted _ => true
  | unknownCommand _ => true
  | unknownProperty _ => true
  | notWriteable _ => true
  | indexOutOfRange _ => true
  | schema (.invalidText ..) => true
  | _ => false

/-- The operation has sent its request, and has got no reply in time or one whose value cannot be read. -/
def isFruitless : SessionError → Bool
  | link .timeout => true
  | schema (.lengthMismatch ..) => true
  | schema .invalidUtf8 => true
  | _ => false

theorem isFruitless_link {e : LinkError} (he : e ≠ .timeout) : (link e).isFruitless = false := by
  cases e with
  | timeout => exact absurd rfl he
  | _ => rfl

end SessionError

/-- A text cannot be what is wrong with bytes, -/
theorem Schema.toText_error {s : Schema} {data : Bytes} {e : SchemaError} (h : s.toText data = .error e) :
    (SessionError.schema e).isLocal = false := by
  have htext : ∀ {e}, s.textOf data = .error e → (SessionError.schema e).isLocal = false := fun h => by
    unfold textOf at h
    split at h <;> try cases h
    split at h <;> cases h
    rfl
  unfold toText at h
  split at h
  · split at h
    · exact htext h
    · cases h
      rfl
  · exact htext h

/-- and bytes not what is wrong with a text. -/
theorem Schema.toBytes_error {s : Schema} {text : String} {e : SchemaError} (h : s.toBytes text = .error e) :
    (SessionError.schema e).isFruitless = false := by
  unfold toBytes at h
  split at h <;> cases h
  rfl

theorem Plan.make_fruitful {α : Type} {kind : OperationKind} {name : String} {found : Located α}
    {data : Except SchemaError Bytes} {result : Schema} (h : Plan.make kind name found data result = .error e)
    (hd : ∀ e, data = .error e → (SessionError.schema e).isFruitless = false) : e.isFruitless = false := by
  unfold make at h
  split at h
  · split at h
    · cases h
      exact hd _ rfl
    · split at h <;> cases h
      rfl
  · cases h
    rfl

/-- An operation that has no plan has not sent anything. -/
theorem Operation.plan_fruitful {d : Descriptor} (h : op.plan d = .error e) : e.isFruitless = false := by
  have hc := op.plan_cases d
  generalize op.plan d = planned at h hc
  cases hc with
  | invoke | write => exact Plan.make_fruitful h fun _ => Schema.toBytes_error
  | read => exact Plan.make_fruitful h nofun
  | _ => cases h; rfl

theorem Host.planOperation_fruitful (h : Host) (he : h.planOperation op = .error e) : e.isFruitless = false := by
  cases declines he with
  | faulted | notOperational | undescribed => rfl
  | unplanned d hp hd hplan => exact Operation.plan_fruitful hplan

/-- A reply is read after the request was sent. -/
theorem Plan.read_notLocal {reply : Packet} (h : plan.read reply = .error e) : e.isLocal = false := by
  unfold read at h
  split at h
  · cases h; rfl
  · rename_i payload _
    cases ht : plan.result.toText payload.data with
    | error e' =>
      rw [ht] at h
      cases h
      exact Schema.toText_error ht
    | ok value => rw [ht] at h; cases h

/-! ## What a call leaves alone -/

/-- The tickets that others hold than the call `id`, the application or other calls. -/
def Host.heldBeside (h : Host) (id : Nat) : List Ticket :=
  h.tickets ++ (h.calls.filter fun x => x.id != id).filterMap (·.point.ticket?)

/-- What the call `c` leaves alone. The session stays in its phase, with its descriptor. The link stays open or closed and
its loop where it is, and nothing is added to the command queue but frames to write. The byte stream stays as it is, but
that the handle of the call may have been the last to keep one on which no loop runs. Whoever else waits for a packet
waits on for it, or has it. -/
structure Call.Spares (c : Call) (h h' : Host) : Prop where
  phase : h'.session.phase = h.session.phase
  descriptor : h'.session.descriptor = h.session.descriptor
  loop : h'.link.loop = h.link.loop
  table : h'.link.table.closed = h.link.table.closed
  commands : h'.link.commands.closed = h.link.commands.closed
  queue : ∃ xs, h'.link.commands.queue = h.link.commands.queue ++ xs ∧ ∀ x ∈ xs, ∃ frame, x = .write c.id frame
  wire : h'.wire = h.wire ∨ h.link.loop = .absent ∧ h'.wire = { h.wire with released := true }
  waiters : ∀ t ∈ h.heldBeside c.id, h'.link.openFor t.id = h.link.openFor t.id ∧
    h'.link.heldFor t.id = h.link.heldFor t.id

theorem Call.Spares.refl (c : Call) (h : Host) : c.Spares h h :=
  ⟨rfl, rfl, rfl, rfl, rfl, ⟨[], (List.append_nil _).symm, nofun⟩, .inl rfl, fun _ _ => ⟨rfl, rfl⟩⟩

/-- What is held for others is held under other numbers. -/
theorem Kept.ne_of_heldBeside {opened : List Waiter} {taken : List (Waiter × Packet)}
    (hk : Kept opened taken h.live h.link) (hn : h.Numbered) (hc : c ∈ h.calls) {t : Ticket}
    (ht : t ∈ h.heldBeside c.id) : t.id < h.link.table.nextId ∧ ∀ own ∈ c.point.ticket?, t.id ≠ own.id := by
  obtain ⟨others, hlive, -, hbeside⟩ := Host.live_split hn hc
  have ht : t ∈ others := hbeside.mem_iff.mp ht
  have hmem : t ∈ h.live := hlive.mem_iff.mpr (List.mem_append_right _ ht)
  refine ⟨hk.lt_nextId hmem, fun own hown hid => ?_⟩
  have hdistinct := hlive.nodup_iff.mp hk.distinct
  rw [show c.point.ticket? = some own from hown] at hlive hdistinct
  obtain ⟨v, hv, rfl⟩ := hk.holders t hmem
  obtain ⟨w, hw, rfl⟩ := hk.holders own (hlive.mem_iff.mpr (List.mem_append_left _ (List.mem_singleton.mpr rfl)))
  rw [hk.eq_of_id hv hw hid] at ht
  exact (List.nodup_cons.mp hdistinct).1 ht

theorem Link.openFor_of_desk {l l' : Link} {t : Nat} (he : l'.desk = l.desk) : l'.openFor t = l.openFor t := by
  unfold openFor
  rw [table_of_desk he]

/-- A call that neither opens nor closes the table leaves the registrations of others where they stand. -/
theorem Swap.others {l l' : Link} {own own' : Option Ticket} (hs : Swap l own own' l') (hl : l.Sound)
    (hc : l'.table.closed = l.table.closed) {t : Nat} (hlt : t < l.table.nextId) (hne : ∀ u ∈ own, t ≠ u.id) :
    l'.openFor t = l.openFor t ∧ l'.heldFor t = l.heldFor t := by
  have hgive : (l.giveUp own).openFor t = l.openFor t ∧ (l.giveUp own).heldFor t = l.heldFor t := by
    cases own with
    | none => exact ⟨rfl, rfl⟩
    | some u =>
      refine ⟨?_, (l.heldFor_withdraw _ _).trans (if_neg (hne u rfl))⟩
      show (l.table.entries.filter _).filter _ = l.table.entries.filter _
      rw [List.filter_filter]
      refine List.filter_congr fun w _ => ?_
      by_cases hw : w.id = t <;> simp [hw, hne u rfl]
  cases hs with
  | keeps he => exact ⟨Link.openFor_of_desk he, Link.heldFor_of_desk he⟩
  | drops he => exact ⟨(Link.openFor_of_desk he).trans hgive.1, (Link.heldFor_of_desk he).trans hgive.2⟩
  | enrolls type matcher ho he =>
    refine ⟨(Link.openFor_of_desk he).trans (Eq.trans ?_ hgive.1), (Link.heldFor_of_desk he).trans hgive.2⟩
    have hnew : ((l.giveUp own).table.nextId == t) = false := by
      rw [(l.table_giveUp own).1]
      exact beq_false_of_ne (Nat.ne_of_gt hlt)
    show ((l.giveUp own).table.entries ++ [_]).filter _ = _
    rw [List.filter_append, List.filter_singleton, hnew]
    exact List.append_nil _
  | shuts reason he =>
    -- the table was closed before, and nothing is left in it
    have hclosed : l.table.closed.isSome := by
      rw [← hc, Link.table_of_desk he]
      rfl
    have hempty : l.openFor t = [] := by
      rw [Link.openFor, hl.closed hclosed]
      rfl
    refine ⟨(Link.openFor_of_desk he).trans hempty.symm, (Link.heldFor_of_desk he).trans ?_⟩
    rw [Link.heldFor_shut, hgive.1, hgive.2, hempty]
    exact List.append_nil _

/-- A move of an operation changes neither the phase nor the descriptor, and closes nothing. -/
structure Move.Modest (h : Host) (m : Move) : Prop where
  phase : m.session.phase = h.session.phase
  descriptor : m.session.descriptor = h.session.descriptor
  loop : m.link.loop = h.link.loop
  table : m.link.table.closed = h.link.table.closed

theorem CallMove.modest (hm : CallMove h c q m) (hq : op.Serves h b id q) : m.Modest h := by
  have hfails : ∀ {l : Link} {notes : List Happening} {plan : Plan} {e : LinkError},
      Fails h l notes (.operation plan) e m → l.loop = h.link.loop → l.table.closed = h.link.table.closed →
        m.Modest h := fun hf hl hc => by
    cases hf
    exact ⟨rfl, rfl, hl, hc⟩
  cases hq with
  | begun hr hs =>
    cases hm with
    | begin hm =>
      cases hm with
      | operate | operateRefused | twinOperate | twinRefused | twinDropped => exact ⟨rfl, rfl, rfl, rfl⟩
      | _ => cases hr
  | inLine hp hs =>
    cases hm with
    | locked | lockedClosed | lined =>
      exact ⟨Session.setLock_phase _ _ _, Session.setLock_descriptor _ _ _, rfl, rfl⟩
  | entering hs frame ticket limit =>
    cases hm with
    | shutOut _ _ _ _ hcl hf => exact hfails hf rfl rfl
    | entered | queued => exact ⟨rfl, rfl, rfl, rfl⟩
  | writing hs ticket limit =>
    cases hm with
    | unwritten _ _ _ e hr hf => exact hfails hf rfl rfl
    | written => exact ⟨rfl, rfl, rfl, rfl⟩
  | awaiting hs hw ticket limit alarm =>
    cases hm with
    | failed _ _ _ _ e hd hf => exact hfails hf rfl rfl
    | timedOut _ _ _ _ hd ha hf => exact hfails hf rfl rfl
    | unreadable | answered | taken => exact ⟨rfl, rfl, rfl, rfl⟩
  | updating =>
    cases hm with
    | updated => exact ⟨rfl, rfl, rfl, rfl⟩

/-- An operation puts only frames into the command queue. -/
theorem Operation.Serves.sends (hq : op.Serves h b id q) {i : Nat} {x : LinkCommand} (hx : q.Sends i x) :
    ∃ frame, x = .write i frame := by
  cases hq with
  | entering hs frame => exact ⟨frame, hx⟩
  | _ => cases hx

theorem Link.table_vacate (l : Link) (c : Call) : (l.vacate c).table.closed = l.table.closed := by
  rw [table_of_desk (l.desk_vacate c)]
  exact (l.table_giveUp _).2

theorem Move.linkAfter_table (m : Move) (c : Call) : (m.linkAfter c).table.closed = m.link.table.closed := by
  unfold linkAfter
  split
  · exact m.link.table_vacate c
  · rfl

section

variable {opened : List Waiter} {taken : List (Waiter × Packet)}

/-- **A step of an operation leaves alone what is not its own.** -/
theorem CallMove.spares (hm : CallMove h c c.point m) (hl : h.Leaves c m h') (hq : op.Serves h b c.id c.point)
    (hc : c ∈ h.calls) (hn : h.Numbered) (hu : h.Unstarted) (hs : h.link.Sound)
    (hk : Kept opened taken h.live h.link) : c.Spares h h' := by
  have hmodest := hm.modest hq
  have hreach := (hl.edits hu hm).reach
  have htable : h'.link.table.closed = h.link.table.closed := by
    rw [hl.link, m.linkAfter_table, hmodest.table]
  refine ⟨?_, ?_, ?_, htable, hreach.commandsClosed, ?_, ?_, fun t ht => ?_⟩
  · rw [hl.session, m.sessionAfter_phase, hmodest.phase]
  · rw [hl.session, m.sessionAfter_descriptor, hmodest.descriptor]
  · rw [hl.link, m.linkAfter_loop, hmodest.loop]
  · obtain ⟨xs, hxs, hsends⟩ := hreach.queue
    exact ⟨xs, hxs, fun x hx => hq.sends (hsends x hx).2⟩
  · rcases hl.released with hr | ⟨hr, habs⟩
    · exact .inl (by rw [hl.wire, hr])
    · exact .inr ⟨habs.elim (fun h => h) hu, by rw [hl.wire, hr]⟩
  · obtain ⟨hlt, hne⟩ := hk.ne_of_heldBeside hn hc ht
    have hswap := hm.swap rfl
    rw [← hl.link] at hswap
    exact hswap.others hs htable hlt hne

/-- **So does an operation that is given up.** -/
theorem Call.spares_abandon (ha : Acts h (.abandon c.id) h') (hc : h.call? c.id = some c) (hn : h.Numbered)
    (hs : h.link.Sound) (hk : Kept opened taken h.live h.link) : c.Spares h h' := by
  cases ha with
  | idle a hr =>
    rw [show h.call? c.id = none from hr] at hc
    cases hc
  | @abandon _ x hx released hr ready =>
    obtain rfl : x = c := Option.some.inj (hx.symm.trans hc)
    refine ⟨by simp, h.session.vacate_descriptor x, h.link.loop_vacate x, h.link.table_vacate x, ?_,
      ⟨[], by rw [List.append_nil]; exact h.link.vacate_queue x, nofun⟩, ?_, fun t ht => ?_⟩
    · have hedits : Link.EditsBy x.id x.point h.link (h.link.vacate x) := .vacate .refl
      exact hedits.reach.commandsClosed
    · rcases hr with rfl | ⟨rfl, habs⟩
      · exact .inl rfl
      · exact .inr ⟨habs, rfl⟩
    · obtain ⟨hlt, hne⟩ := hk.ne_of_heldBeside hn (Host.call?_mem hc) ht
      have hswap : Swap h.link x.point.ticket? none (h.link.vacate x) := .drops (h.link.desk_vacate x)
      exact hswap.others hs (h.link.table_vacate x) hlt hne

end

/-! ## Calls that only answer -/

/-- After its first step a call does not stand at its beginning. -/
theorem Moment.mover_underway {mo : Moment} (hc : mo.mover = some c) (hn : mo.host.Numbered) :
    c.id < mo.after.made ∧ ∀ x ∈ mo.after.calls, x.id = c.id → ∀ r, x.point ≠ .begun r := by
  obtain ⟨hmem, ⟨hw, hsame⟩ | ⟨move, hm, hl⟩⟩ := mover_acts hc
  · rw [hsame]
    exact hn.point hmem (P := fun q => ∀ r, q ≠ .begun r) (Host.hearing_of_waits hw).2
  · refine ⟨hl.made ▸ hn.made c hmem, fun x hx hid => ?_⟩
    rcases hn.mem_callsAfter hmem (hl.calls ▸ hx) with ⟨-, hne⟩ | ⟨p, keeps, hf, rfl⟩ | ⟨hf, rfl⟩
    · exact absurd hid hne
    · exact (hm.plan hf).1
    · intro r hp
      rw [hp] at hm
      cases hm with
      | begin hm =>
        cases hm with
        | start _ _ ha => cases ha <;> cases hf
        | _ => cases hf

/-- A call that stands at its beginning has not taken a step. -/
theorem Setup.begun_run (setup : Setup) {as : List Action} (hc : c ∈ (setup.host.run as).calls) {r : Request}
    (hp : c.point = .begun r) : ∀ mo ∈ setup.host.moments as, ∀ x, mo.mover = some x → x.id ≠ c.id := by
  intro mo hmo x hx hid
  obtain ⟨bs, ⟨cs, rfl⟩, he⟩ := Host.exists_of_mem_moments hmo
  have ht : mo.host.Tidy := he ▸ setup.tidy_run bs
  have hrun : setup.host.run (bs ++ [mo.action] ++ cs) = mo.after.run cs := by
    rw [Host.run_append, Host.run_concat, ← he]
    rfl
  have hlater := (ht.apply mo.action).run_inv
    (P := fun h => h.Numbered ∧ x.id < h.made ∧ ∀ y ∈ h.calls, y.id = x.id → ∀ r, y.point ≠ .begun r)
    ⟨(ht.apply mo.action).numbered, Moment.mover_underway hx ht.numbered⟩
    (fun h a h' ha hs => ⟨hs.1.acts ha, ha.point hs.1 (fun y hy m p keeps hm hf _ => (hm.plan hf).1) hs.2⟩) cs
  rw [hrun] at hc
  exact hlater.2.2 c hc hid.symm r hp

/-- The call `c` answers and is gone, and all else stays as it is: the command queue, the registrations and the metrics of
the link, the phase, the locks and the twin of the session, and the other calls. Only the handle of the call may have been
the last to keep a byte stream on which no loop runs. -/
structure Moment.OnlyAnswers (m : Moment) (c : Call) (answer : Answer) : Prop where
  after : m.after = { m.host with
    calls := m.host.calls.filter fun x => x.id != c.id
    history := ⟨.call c.id, m.host.now, .answered answer⟩ :: m.host.history
    wire := { m.host.wire with released := m.after.wire.released }
    serial := m.after.serial
    ready := m.after.ready }
  released : m.after.wire.released = m.host.wire.released ∨ m.host.link.loop = .absent

theorem Host.Leaves.onlyAnswers {mo : Moment} {answer : Answer}
    (hl : mo.host.Leaves c ⟨mo.host.link, mo.host.session, [], .ends answer⟩ mo.after) (hu : mo.host.Unstarted)
    (hlink : mo.host.link.vacate c = mo.host.link) (hsession : mo.host.session.vacate c = mo.host.session) :
    mo.OnlyAnswers c answer := by
  have heq := hl.eq
  simp only [Move.linkAfter, Move.sessionAfter, Move.callsAfter, Move.happenings, hlink, hsession] at heq
  exact ⟨heq, hl.released.imp_right fun h => h.2.elim (fun h => h) hu⟩

/-! ## Where operations fail -/

/-- Where an operation fails, and with what error: as it begins, or because the link has ended, or when its reply has not
come in time or cannot be read. -/
inductive Operation.FailsAt (op : Operation) (h : Host) (c : Call) (m : Move) (e : SessionError) : Prop
  | refused {r : Request} (hp : c.point = .begun r) (hr : r.operation? = some op)
      (hm : m = ⟨h.link, h.session, [], .ends (.error (.session e))⟩)
      (he : h.planOperation op = .error e ∨ e = .faulted "session dropped")
  | broken {le : LinkError} (he : e = .link le) (hb : h.Broken le)
  | unanswered {ticket : Ticket} {limit : Option Nat} {alarm : Option Alarm} {plan : Plan}
      (hp : c.point = .awaiting ticket limit alarm (.operation plan)) (he : e = .link .timeout)
  | unreadable {ticket : Ticket} {limit : Option Nat} {alarm : Option Alarm} {plan : Plan} {reply : Packet}
      (hp : c.point = .awaiting ticket limit alarm (.operation plan)) (hr : plan.read reply = .error e)

theorem CallMove.failsAt (hm : CallMove h c c.point m) (hq : op.Serves h b c.id c.point)
    (hf : m.fate = .ends (.error (.session e))) (hc : c ∈ h.calls) (hcand : h.Candid) : op.FailsAt h c m e := by
  have hfails : ∀ {l : Link} {notes : List Happening} {plan : Plan} {le : LinkError},
      Fails h l notes (.operation plan) le m → e = .link le := fun hfail => by
    have := hfail.operation_ends
    rw [hf] at this
    cases this
    rfl
  have hdeliveries := hcand.deliveries c hc
  generalize hpt : c.point = q at hm hq hdeliveries
  cases hq with
  | begun hr hs =>
    cases hm with
    | begin hm =>
      cases hm with
      | operateRefused op' e' hp | twinRefused op' e' hp =>
        cases hr
        cases hf
        exact .refused hpt rfl rfl (.inl hp)
      | twinDropped op' ha =>
        cases hr
        cases hf
        exact .refused hpt rfl rfl (.inr rfl)
      | operate | twinOperate => cases hf
      | _ => cases hr
  | inLine hp hs =>
    cases hm with
    | lockedClosed _ ha reason hcl =>
      cases hf
      exact .broken rfl ⟨by rw [hcl]; rfl, .inl ⟨reason, rfl⟩⟩
    | locked | lined => cases hf
  | entering hs frame ticket limit =>
    cases hm with
    | shutOut _ _ _ _ hcl hfail => exact .broken (hfails hfail) (hcand.refused hcl)
    | entered | queued => cases hf
  | writing hs ticket limit =>
    cases hm with
    | unwritten _ _ _ le hr hfail => exact .broken (hfails hfail) (hcand.receipts _ _ hr)
    | written => cases hf
  | awaiting hs hw ticket limit alarm =>
    cases hm with
    | failed _ _ _ _ le hd hfail => exact .broken (hfails hfail) (hdeliveries ticket rfl le hd)
    | timedOut _ _ _ _ hd ha hfail => exact .unanswered hpt (hfails hfail)
    | unreadable _ _ _ _ reply hd e' hr =>
      cases hf
      exact .unreadable hpt hr
    | answered | taken => cases hf
  | updating =>
    cases hm with
    | updated => cases hf

namespace Operation.FailsAt

variable (hf : op.FailsAt h c m e)
include hf

theorem of_isLocal (he : e.isLocal) : ∃ r, c.point = .begun r ∧ r.operation? = some op ∧
    m = ⟨h.link, h.session, [], .ends (.error (.session e))⟩ := by
  cases hf with
  | refused hp hr hm => exact ⟨_, hp, hr, hm⟩
  | broken hle | unanswered _ hle =>
    rw [hle] at he
    cases he
  | unreadable hp hr =>
    rw [Plan.read_notLocal hr] at he
    cases he

theorem of_isFruitless (he : e.isFruitless) : ∃ ticket limit alarm plan,
    c.point = .awaiting ticket limit alarm (.operation plan) := by
  cases hf with
  | refused hp hr hm hplan =>
    rcases hplan with hplan | rfl
    · rw [h.planOperation_fruitful hplan] at he
      cases he
    · cases he
  | broken hle hb =>
    rw [hle, SessionError.isFruitless_link hb.ne_timeout] at he
    cases he
  | unanswered hp | unreadable hp => exact ⟨_, _, _, _, hp⟩

end Operation.FailsAt

/-! ## What operations cost -/

/-- The call that takes a step at this moment, or is given up. -/
def Moment.acting (m : Moment) : Option Call :=
  match m.action with
  | .advance (.call id) _ => m.host.call? id
  | .abandon id => m.host.call? id
  | _ => none

/-- The call `id` has cost nothing, `as` being the run up to the action `a` that brings its answer: it has not taken a step
before, nothing is written for it, and all that it does is to answer. -/
structure Host.CostsNothing (start : Host) (as : List Action) (a : Action) (id : Nat) (answer : Answer) : Prop where
  first : ∀ m ∈ start.moments as, ∀ c, m.mover = some c → c.id ≠ id
  silent : start.writtenFor (as ++ [a]) id = []
  only : ∃ c, (Moment.mk (start.run as) a).mover = some c ∧ c.id = id ∧
    (Moment.mk (start.run as) a).OnlyAnswers c answer

/-- The call `id` of the operation `op` has cost one request, the one of its plan by what the session knows of its device:
it has sent no other, and the frame of that is all that is written for it. Its registration for the reply is gone, and so
is whatever was delivered to it. -/
structure Host.CostsRequest (start : Host) (as : List Action) (a : Action) (id : Nat) (op : Operation) : Prop where
  request : ∃ d plan s, (start.run as).session.descriptor = some d ∧ op.plan d = .ok plan ∧
    (start.outbox (as ++ [a])).sendsOf id = [s] ∧ s.packet = plan.request ∧
    start.writtenFor (as ++ [a]) id = Decoder.frameOf plan.request ∧
    ∃ w ∈ (start.moments as).flatMap Moment.opened, w = plan.waiter w.id ∧
      (∃ c ∈ (start.run as).calls, c.id = id ∧ c.point.ticket? = some w.ticket) ∧
      (∀ v ∈ (start.run (as ++ [a])).link.table.entries, v.id ≠ w.id) ∧
      (start.run (as ++ [a])).link.delivery? w.id = none

/-- What the call `id` of the operation `op` costs, `as` being a run and `a` the action that comes next. -/
structure Host.OperationCosts (start : Host) (as : List Action) (a : Action) (id : Nat) (op : Operation) : Prop where
  /-- An operation that is refused costs nothing. -/
  refused : ∀ e : SessionError, e.isLocal → (Moment.mk (start.run as) a).Answers id (.error (.session e)) →
    start.CostsNothing as a id (.error (.session e))
  /-- One that gets no reply in time, or none that it can read, costs one request. -/
  fruitless : ∀ e : SessionError, e.isFruitless → (Moment.mk (start.run as) a).Answers id (.error (.session e)) →
    start.CostsRequest as a id op
  /-- Whatever it does, and if it is given up, it leaves alone what is not its own. -/
  spares : ∀ c, (Moment.mk (start.run as) a).acting = some c → c.id = id →
    c.Spares (start.run as) (start.run (as ++ [a]))

namespace Host

variable {config : SessionConfig} {twin : Twin} {as : List Action}

/-- An operation that is refused costs nothing. -/
theorem costsNothing (ha : (id, op) ∈ (ofSession config twin).asked as) (he : e.isLocal)
    (hans : (Moment.mk ((ofSession config twin).run as) a).Answers id (.error (.session e))) :
    (ofSession config twin).CostsNothing as a id (.error (.session e)) := by
  obtain ⟨c, m, hmove, rfl, hc, hm, hl, hf⟩ := Moment.answers_move ((Setup.session config twin).claimed_run _) hans
  have hserves := (serving_run config twin as ha).stands c hc rfl
  obtain ⟨r, hp, hr, rfl⟩ := (hm.failsAt hserves hf hc ((Setup.session config twin).candid_run as)).of_isLocal he
  have hticket : c.point.ticket? = none := by
    rw [hp]
    cases r <;> first | rfl | cases hr
  obtain ⟨hlink, hsession⟩ := vacate_begun rfl hc hp hticket
  refine ⟨(Setup.session config twin).begun_run hc hp, ?_,
    c, hmove, rfl, hl.onlyAnswers ((Setup.session config twin).unstarted_run as) hlink hsession⟩
  rw [hp] at hserves
  cases hserves with
  | begun _ hs =>
    have hbefore : (ofSession config twin).writtenFor as c.id = [] := (Setup.session config twin).writtenFor_nil hs
    have hout : (Moment.mk ((ofSession config twin).run as) a).after.wire.outbound =
        ((ofSession config twin).run as).wire.outbound := by
      rw [hl.wire]
    rw [writtenFor_concat, hbefore, List.nil_append]
    exact writesFor_quiet hout

/-- The ticket of a call that ends is nobody's then. -/
theorem Leaves.ticket_gone {answer : Answer} {t : Ticket} (hl : h.Leaves c m h') (hn : h.Numbered) (hc : c ∈ h.calls)
    (hd : h.live.Nodup) (hf : m.fate = .ends answer) (ht : c.point.ticket? = some t) : t ∉ h'.live := by
  obtain ⟨others, hbefore, hafter, -⟩ := live_split hn hc
  have hlive : h'.live.Perm ((m.ticketAfter c).toList ++ others) := by
    unfold live
    rw [hl.tickets, hl.calls]
    exact hafter m
  rw [Move.ticketAfter, hf] at hlive
  rw [ht] at hbefore
  exact fun hmem => (List.nodup_cons.mp (hbefore.nodup_iff.mp hd)).1 (hlive.mem_iff.mp hmem)

/-- An operation that has waited in vain costs one request. -/
theorem costsRequest (ha : (id, op) ∈ (ofSession config twin).asked as) (he : e.isFruitless)
    (hans : (Moment.mk ((ofSession config twin).run as) a).Answers id (.error (.session e))) :
    (ofSession config twin).CostsRequest as a id op := by
  have hn := (Setup.session config twin).numbered_run as
  have hk := (Setup.session config twin).kept_run as
  obtain ⟨c, m, hmove, rfl, hc, hm, hl, hf⟩ := Moment.answers_move ((Setup.session config twin).claimed_run _) hans
  have hserves := (serving_run config twin as ha).stands c hc rfl
  obtain ⟨ticket, limit, alarm, plan, hp⟩ :=
    (hm.failsAt hserves hf hc ((Setup.session config twin).candid_run as)).of_isFruitless he
  rw [hp] at hserves
  cases hserves with
  | @awaiting _ s hsent hw =>
    obtain ⟨⟨hwas, d, hd, hplan⟩, hs, hpacket⟩ := hsent
    -- it sends nothing more with its last step
    have hs' : ((ofSession config twin).outbox (as ++ [a])).sendsOf c.id = [s] := by
      rw [outbox_concat]
      refine (Outbox.sendsOf_record fun p he => ?_).trans hs
      rcases Moment.mover_sends hmove hn with ⟨-, -, hnone⟩ | ⟨move, -, -, hsend⟩
      · rw [hnone] at he
        cases he
      · rw [he] at hsend
        obtain ⟨hout, -⟩ := hsend.called rfl
        rw [hp] at hout
        cases hout
    have hw' := ((ofSession config twin).outbox_grows as [a]).written.subset hw
    obtain ⟨-, hbytes⟩ := ((Setup.session config twin).writtenFor_one hs').resolve_right fun h => h.1 hw'
    obtain ⟨w, hopened, ht, hwaiter⟩ := registered_run config twin as c hc (.operation plan) (by rw [hp]; rfl) nofun
    have hopened' : w ∈ ((ofSession config twin).moments (as ++ [a])).flatMap Moment.opened := by
      rw [moments_append, List.flatMap_append]
      exact List.mem_append_left _ hopened
    have hgone := (Setup.session config twin).kept_run (as ++ [a])
    refine ⟨d, plan, s, hd, hplan, hs', hpacket, ?_, w, hopened, (Option.some.inj hwaiter).symm, ⟨c, hc, rfl, ht⟩, ?_⟩
    · rw [← hpacket]
      exact hbytes
    · refine hgone.gone hopened' ?_
      rw [run_concat]
      exact hl.ticket_gone hn hc hk.distinct hf ht

/-- **What operations cost**, in every run of a session with any device and any twin, whatever other calls are under way. -/
theorem operation_costs (config : SessionConfig) (twin : Twin) (as : List Action) (a : Action) (id : Nat) (op : Operation)
    (ha : (id, op) ∈ (ofSession config twin).asked as) : (ofSession config twin).OperationCosts as a id op := by
  refine ⟨fun e he hans => costsNothing ha he hans, fun e he hans => costsRequest ha he hans, fun c hc hid => ?_⟩
  have hn := (Setup.session config twin).numbered_run as
  have hu := (Setup.session config twin).unstarted_run as
  have hs := (Setup.session config twin).sound_run as
  have hk := (Setup.session config twin).kept_run as
  have hacts := acts_ofSession config twin as a
  rw [run_concat]
  unfold Moment.acting at hc
  split at hc
  · rename_i i haction
    obtain ⟨hmem, ⟨-, hsame⟩ | ⟨m, hm, hl⟩⟩ :=
      Moment.mover_acts (m := ⟨(ofSession config twin).run as, a⟩) (by rw [Moment.mover, haction]; exact hc)
    · rw [show ((ofSession config twin).run as).apply a = _ from hsame]
      exact .refl c _
    · have hserves := (serving_run config twin as ha).stands c hmem hid
      rw [← hid] at hserves
      exact hm.spares hl hserves hmem hn hu hs hk
  · rename_i i haction
    have haction : a = .abandon i := haction
    obtain rfl : c.id = i := call?_id hc
    rw [haction] at hacts ⊢
    exact c.spares_abandon hacts hc hn hs hk
  · cases hc

/-- A device has a command and a property. The command is invoked, and its reply does not come, while the property is
read, the command is invoked once more, and another is invoked that the device does not have. -/
def unansweredAndUnknown : List Action :=
  let call := fun id => Action.advance (.call id) false
  let loop := Action.advance .loop false
  startedWith [1, 0, 5, 1, 0, 97, 1, 1, 98, 0, 0, 0, 0, 7, 0, 2, 1, 99, 0, 0, 0, 7, 0, 1] ++
    [.make (.operate (.invoke "b" "")), .make (.operate (.read "c")), .make (.operate (.invoke "b" "")),
      .make (.operate (.invoke "x" "")), call 1, call 2, call 3, call 1, call 2, call 3, call 1, loop, loop, loop, call 1,
      .pass 5000]

theorem operation_costs_unansweredAndUnknown :
    let h := ofSession {} (.scripted [] 0 0)
    let as := unansweredAndUnknown
    (Moment.mk (h.run as) (.advance (.call 4) false)).Answers 4 (.error (.session (.unknownCommand "x"))) ∧
      h.CostsNothing as (.advance (.call 4) false) 4 (.error (.session (.unknownCommand "x"))) ∧
    (Moment.mk (h.run as) (.advance (.call 1) false)).Answers 1 (.error (.session (.link .timeout))) ∧
      h.CostsRequest as (.advance (.call 1) false) 1 (.invoke "b" "") := by
  intro h as
  have hunknown : (Moment.mk (h.run as) (.advance (.call 4) false)).Answers 4 (.error (.session (.unknownCommand "x"))) :=
    Moment.answers_of_failure (by decide +kernel)
  have hunanswered : (Moment.mk (h.run as) (.advance (.call 1) false)).Answers 1 (.error (.session (.link .timeout))) :=
    Moment.answers_of_failure (by decide +kernel)
  exact ⟨hunknown, (operation_costs _ _ as _ 4 (.invoke "x" "") (by decide +kernel)).refused _ rfl hunknown,
    hunanswered, (operation_costs _ _ as _ 1 (.invoke "b" "") (by decide +kernel)).fruitless _ rfl hunanswered⟩

end Host

end TwinLink
