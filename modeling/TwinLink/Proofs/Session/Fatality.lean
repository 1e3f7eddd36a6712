import TwinLink.Proofs.Descriptor.Lookup
import TwinLink.Proofs.Session.StartEnds

/-!
# What a fatal error tells

An error is fatal if the session can no longer be used after it. A session gives such an error only when it is faulted or
its link is closed. A start that fails in its handshake faults the session whatever its error is; the error is fatal
unless the device did not answer in time or the twin refused a call.

* `Descriptor.Spelled.short`, `Operation.plan_error` : what can be wrong with an operation of a known device;
* `Host.descriptor_run` : a session knows its device from what it said;
* `SessionFailure`, `CallMove.sessionFailure` : why the session fails a call; `CallMove.fatal` : with a fatal error;
* `Host.FatalityTold`, `Host.fatality_told` : what a fatal error tells, in every run.
-/

namespace TwinLink

/-! ## Operations that cannot be planned -/

/-- Every field of a device that has described itself has a name that fits its one-byte length. -/
theorem Descriptor.Spelled.short {r : Revision} {d : Descriptor} {bs : Bytes} (h : d.Spelled r bs) :
    ∀ i ∈ d.interfaces, ∀ x ∈ i.records, (Text.utf8 x.field.name).length < 256 := by
  obtain ⟨version, -, his⟩ := h
  refine his.forall fun i a hi => ?_
  obtain ⟨-, hxs, -⟩ := hi
  rename_i id xs i b
  have hall : ∀ x ∈ xs, (Text.utf8 x.field.name).length < 256 := hxs.forall fun x a hx => by
    obtain ⟨hf, -⟩ := hx
    generalize x.field = f at hf
    obtain ⟨hn, -, -⟩ := hf
    exact hn.length_lt
  intro x hx
  simp only [Interface.records, List.mem_append, List.mem_map, List.mem_filterMap] at hx
  obtain (⟨_, ⟨y, hy, he⟩, rfl⟩ | ⟨_, ⟨y, hy, he⟩, rfl⟩) | ⟨_, ⟨y, hy, he⟩, rfl⟩ := hx <;>
    cases y <;> cases he <;> exact hall _ hy

/-- What can be wrong with a plan for a field of a short name: not the name. -/
theorem Plan.make_error {α : Type} {kind : OperationKind} {name : String} {found : Located α}
    {data : Except SchemaError Bytes} {result : Schema} {e : SessionError}
    (h : Plan.make kind name found data result = .error e) (hn : (Text.utf8 name).length < 256) : e.isFatal = false := by
  unfold make at h
  split at h
  · cases data with
    | error e => cases h; rfl
    | ok bytes =>
      dsimp only [NamedPayload.toPacket, NamedPayload.encode] at h
      rw [if_pos hn] at h
      cases h
  · cases h
    rfl

/-- A field that is found by its name has a short one. -/
theorem Descriptor.Spelled.short_of_locate {α : Type} {r : Revision} {d : Descriptor} {bs : Bytes} {name : String}
    {lookup : Interface → Option α} {found : Located α} (hd : d.Spelled r bs) (hf : d.locate lookup = some found)
    (hl : ∀ i x, lookup i = some x → ∃ y ∈ i.records, y.field.name = name) : (Text.utf8 name).length < 256 := by
  obtain ⟨hi, hx⟩ := locate_mem hf
  obtain ⟨y, hy, rfl⟩ := hl _ _ hx
  exact hd.short _ hi y hy

theorem Descriptor.Spelled.short_of_command {r : Revision} {d : Descriptor} {bs : Bytes} {name : String}
    {found : Located Command} (hd : d.Spelled r bs) (hf : d.command? name = some found) :
    (Text.utf8 name).length < 256 := hd.short_of_locate hf fun i x hx =>
  ⟨.command x, by simp [Interface.records, List.mem_of_find?_eq_some hx], beq_iff_eq.mp (@List.find?_some _ _ x _ hx)⟩

theorem Descriptor.Spelled.short_of_property {r : Revision} {d : Descriptor} {bs : Bytes} {name : String}
    {found : Located Property} (hd : d.Spelled r bs) (hf : d.property? name = some found) :
    (Text.utf8 name).length < 256 := hd.short_of_locate hf fun i x hx =>
  ⟨.property x, by simp [Interface.records, List.mem_of_find?_eq_some hx], beq_iff_eq.mp (@List.find?_some _ _ x _ hx)⟩

/-- Whatever is wrong with an operation of a device that has described itself, it is not fatal. -/
theorem Operation.plan_error {r : Revision} {d : Descriptor} {bs : Bytes} {op : Operation} {e : SessionError}
    (hd : d.Spelled r bs) (h : op.plan d = .error e) : e.isFatal = false := by
  have hc := op.plan_cases d
  generalize op.plan d = planned at h hc
  cases hc with
  | invoke hf => exact Plan.make_error h (hd.short_of_command hf)
  | read hf | write hf => exact Plan.make_error h (hd.short_of_property hf)
  | _ => cases h; rfl

/-- A reply that was matched for an operation can be read up to its value. -/
theorem Plan.read_error {plan : Plan} {t : Nat} {p : Packet} {e : SessionError} (ha : (plan.waiter t).accepts p)
    (h : plan.read p = .error e) : e.isFatal = false := by
  obtain ⟨payload, -, -, hread⟩ := read_of_answers (waiter_accepts.mp ha)
  rw [hread] at h
  cases ht : plan.result.toText payload.data with
  | error e' => rw [ht] at h; cases h; rfl
  | ok value => rw [ht] at h; cases h

/-! ## The descriptor -/

variable {h h' : Host} {c : Call} {q : Point} {m : Move} {e : SessionError}

/-- **A session knows its device from what it said**, in every run. -/
theorem Host.descriptor_run (config : SessionConfig) (twin : Twin) (as : List Action) :
    ∀ d, ((ofSession config twin).run as).session.descriptor = some d → ∃ bs, d.Spelled config.revision bs := by
  induction as using List.reverseRecOn with
  | nil => exact nofun
  | append_singleton as a ih =>
    have hs := starting_run config twin (as ++ [a])
    rw [run_concat] at hs ⊢
    have ha := acts_ofSession config twin as a
    generalize ((ofSession config twin).run as).apply a = h' at ha hs ⊢
    cases ha with
    | loop i hm ht => rwa [ht.session]
    | dispatcher i hm ht => rwa [ht.session, hm.descriptor]
    | @call _ i c m _ hc hm hl =>
      rw [hl.session, m.sessionAfter_descriptor]
      rcases hm.registering with ⟨hd, -⟩ | ⟨-, d, hd, hf⟩
      · rwa [hd]
      · -- its start has just begun to make the device known
        have hx := Move.mem_callsAfter_of_goes (call?_mem hc) hf
        rw [← hl.calls] at hx
        cases hs.stands _ hx (hs.ours _ hx (.inl nofun)) with
        | exchanges stage hq => cases stage <;> cases hq
        | registers d todo pending told hr =>
          obtain ⟨v, w, p, reply, -, -, -, -, hp⟩ := hr
          rw [hd]
          rintro d' ⟨⟩
          exact ⟨_, Descriptor.spelled_of_parse hp⟩
    | abandon hc released hr ready => rwa [Session.vacate_descriptor]
    | _ => exact ih

/-! ## Fatal errors -/

/-- The twin calls back after the session is gone. -/
def Host.Orphans (h : Host) (q : Point) : Prop := h.attached = false ∧ ∃ op, q = .begun (.twinOperate op)

/-- A session that cannot be used any more: it is faulted, or its link is closed. -/
def Host.Unusable (h : Host) : Prop := h.session.phase = .faulted ∨ h.link.table.closed.isSome

/-- Why the session fails a call with an error: a start is turned away, a callback of the twin comes too late or an
operation is refused as it begins; an exchange fails with the link, or has brought what cannot be read; or the call has
closed the link after it has failed. -/
inductive SessionFailure (h : Host) (c : Call) : SessionError → Prop
  | closed (hp : h.session.phase = .faulted) : SessionFailure h c (.faulted "session was closed")
  | taken : SessionFailure h c .alreadyStarted
  | dropped (ho : h.Orphans c.point) : SessionFailure h c (.faulted "session dropped")
  | refused {e : SessionError} (op : Operation) (hp : h.planOperation op = .error e) : SessionFailure h c e
  | link (le : LinkError) (hle : le = .timeout ∨ h.Broken le) : SessionFailure h c (.link le)
  | unreadable {e : SessionError} (ticket : Ticket) (limit : Option Nat) (alarm : Option Alarm) (plan : Plan) (p : Packet)
      (hpt : c.point = .awaiting ticket limit alarm (.operation plan))
      (hd : h.link.delivery? ticket.id = some (.ok p)) (hr : plan.read p = .error e) : SessionFailure h c e
  | shut {e : SessionError} (hpt : c.point = .shutting (.error (.session e))) : SessionFailure h c e

/-- **The session fails a call for one of these reasons.** -/
theorem CallMove.sessionFailure (hm : CallMove h c c.point m) (hc : c ∈ h.calls)
    (hf : m.fate = .ends (.error (.session e))) (hcand : h.Candid) : SessionFailure h c e := by
  -- a failed exchange gives its caller what the link was broken by, or that it timed out
  have hfails : ∀ {l : Link} {notes : List Happening} {purpose : Purpose} {le : LinkError},
      Fails h l notes purpose le m → le = .timeout ∨ h.Broken le → SessionFailure h c e := fun hfail hle => by
    cases hfail with
    | direct | retry | fault => cases hf
    | operation plan le => cases hf; exact .link _ hle
  generalize hpt : c.point = q at hm
  cases hm with
  | begin hm =>
    cases hm with
    | startFaulted hp => cases hf; exact .closed hp
    | startTaken => cases hf; exact .taken
    | start hp ht ha => exact absurd hf ha.not_ends
    | operateRefused op e' hp | twinRefused op e' hp => cases hf; exact .refused op hp
    | twinDropped op ha => cases hf; exact .dropped ⟨ha, op, hpt⟩
    | _ => cases hf
  | lockedClosed plan ha reason hcl =>
    cases hf
    exact .link _ (.inr ⟨by rw [hcl]; rfl, .inl ⟨reason, rfl⟩⟩)
  | shutOut frame ticket limit purpose hcl h => exact hfails h (.inr (hcand.refused hcl))
  | unwritten ticket limit purpose le hre h => exact hfails h (.inr (hcand.receipts _ _ hre))
  | failed ticket limit alarm purpose le hd h =>
    exact hfails h (.inr (hcand.deliveries c hc ticket (by rw [hpt]; rfl) le hd))
  | timedOut ticket limit alarm purpose hd ha h => exact hfails h (.inl rfl)
  | unreadable ticket limit alarm plan p hd e' hr => cases hf; exact .unreadable ticket limit alarm plan p hpt hd hr
  | told answer ho | untold answer hcl => cases hf; exact .shut hpt
  | acknowledged ticket limit alarm retries p hd ha => exact absurd hf ha.not_ends
  | paused alarm stage retries ha hm => exact absurd hf hm.not_ends
  | _ => cases hf

/-- **A fatal error comes of a session that cannot be used any more**, if the operations and the starts under way are
where they should be. -/
theorem CallMove.fatal (hm : CallMove h c c.point m) (hc : c ∈ h.calls) (hf : m.fate = .ends (.error (.session e)))
    (he : e.isFatal) (hcand : h.Candid)
    (hplan : ∀ op e, h.planOperation op = .error e → e.isFatal → h.session.phase = .faulted)
    (hread : ∀ t limit alarm plan p, c.point = .awaiting t limit alarm (.operation plan) →
      h.link.delivery? t.id = some (.ok p) → ∀ e, plan.read p = .error e → e.isFatal = false)
    (hshut : ∀ e, c.point = .shutting (.error (.session e)) → h.session.phase = .faulted) :
    h.Unusable ∨ h.Orphans c.point := by
  cases hm.sessionFailure hc hf hcand with
  | closed hp => exact .inl (.inl hp)
  | taken => cases he
  | dropped ho => exact .inr ho
  | refused op hp => exact .inl (.inl (hplan op e hp he))
  | link le hle =>
    rcases hle with rfl | hb
    · cases he
    · exact .inl (.inr hb.closed)
  | unreadable ticket limit alarm plan p hpt hd hr =>
    rw [hread ticket limit alarm plan p hpt hd e hr] at he
    cases he
  | shut hpt => exact .inl (.inl (hshut e hpt))

/-- The call that the session fails, with the error. -/
def Note.failure? : Note → Option (Nat × SessionError)
  | ⟨.call id, _, .answered (.error (.session e))⟩ => some (id, e)
  | _ => none

theorem Moment.answers_of_failure {mo : Moment} {id : Nat} (hf : (id, e) ∈ mo.news.filterMap Note.failure?) :
    mo.Answers id (.error (.session e)) := by
  obtain ⟨n, hn, he⟩ := List.mem_filterMap.mp hf
  refine ⟨n, hn, ?_⟩
  unfold Note.failure? at he
  split at he
  · cases he
    exact ⟨rfl, rfl⟩
  · cases he

/-- What a fatal error tells of a session, `r` being the record of a run and `m` its last moment. -/
structure FatalityTold (r : StartRecord) (m : Moment) : Prop where
  /-- A call whose error is fatal leaves a session that is faulted or whose link is closed. Only a callback of the twin
  that comes too late for the session may leave its link to its loop, which finds out by itself. -/
  fatal : ∀ id e, m.Answers id (.error (.session e)) → e.isFatal → m.after.Unusable ∨
    ∃ c, m.mover = some c ∧ m.host.Orphans c.point
  /-- A start that has failed in its handshake leaves a session that is faulted and whose link is closed. Its error is
  fatal exactly if it tells neither of a request that timed out nor of a call that the twin refused. -/
  failed : ∀ id ∈ r.takers, ∀ e, m.Answers id (.error (.session e)) → m.after.session.phase = .faulted ∧
    m.after.link.table.closed.isSome ∧ (e.isFatal ↔ e ≠ .link .timeout ∧ ∀ text, e ≠ .twin text)

/-- The errors with which a start fails that are fatal. -/
theorem StartRecord.Failed.isFatal_iff {r : StartRecord} {revision : Revision} {id : Nat}
    (hf : r.Failed revision h id e) : e.isFatal ↔ e ≠ .link .timeout ∧ ∀ text, e ≠ .twin text := by
  cases hf with
  | timeout => exact ⟨nofun, fun h => absurd rfl h.1⟩
  | link e hb => exact ⟨fun _ => ⟨fun he => hb.ne_timeout (SessionError.link.inj he), nofun⟩, fun _ => hb.isFatal⟩
  | descriptor e => exact ⟨fun _ => ⟨nofun, nofun⟩, fun _ => rfl⟩
  | twin d told call todo v text => exact ⟨nofun, fun h => absurd rfl (h.2 _)⟩

namespace Host

section

variable {config : SessionConfig} {twin : Twin} {as : List Action}

/-- A call that closes the link with an error is the start that has failed. -/
theorem failed_of_shutting (hc : c ∈ ((ofSession config twin).run as).calls)
    (hp : c.point = .shutting (.error (.session e))) : ((ofSession config twin).startRecord as).Failed config.revision
      ((ofSession config twin).run as) c.id e := by
  have hs := starting_run config twin as
  have hat := hs.stands c hc (hs.ours c hc (.inr ⟨_, hp⟩))
  rw [hp] at hat
  cases hat with
  | exchanges stage hq => cases stage <;> cases hq
  | fails e hp hcl hf => exact hf

/-- An operation is refused with a fatal error only in a faulted session, as a device that has described itself is known
by what it said. -/
theorem planOperation_fatal {op : Operation} (hp : ((ofSession config twin).run as).planOperation op = .error e)
    (he : e.isFatal) : ((ofSession config twin).run as).session.phase = .faulted := by
  cases declines hp with
  | faulted hphase => exact hphase
  | notOperational | undescribed => cases he
  | unplanned d hphase hd hplan =>
    obtain ⟨bs, hspelled⟩ := descriptor_run config twin as d hd
    rw [Operation.plan_error hspelled hplan] at he
    cases he

/-- A start that gives its caller an error is not in the handshake any more. -/
theorem shutting_of_ends (hc : c ∈ ((ofSession config twin).run as).calls)
    (hm : CallMove ((ofSession config twin).run as) c c.point m) (hf : m.fate = .ends (.error (.session e)))
    (hi : c.id ∈ ((ofSession config twin).startRecord as).takers) :
    c.point.phase? = none ∧ ((ofSession config twin).run as).session.phase = .faulted := by
  rcases ((starting_run config twin as).stands c hc hi).ends hm hf hc (registered_run config twin as) with
    ⟨d, told, -, he, -⟩ | ⟨e, hp, -, hph, -⟩
  · cases he
  · exact ⟨by rw [hp]; rfl, hph⟩

end

/-- **What a fatal error tells**, in every run of a session with any device and any twin. -/
theorem fatality_told (config : SessionConfig) (twin : Twin) (as : List Action) (a : Action) :
    FatalityTold ((ofSession config twin).startRecord (as ++ [a])) ⟨(ofSession config twin).run as, a⟩ where
  fatal id e ha he := by
    have hs := starting_run config twin as
    obtain ⟨c, m, hmove, rfl, hc, hm, hl, hf⟩ := Moment.answers_move ((Setup.session config twin).claimed_run _) ha
    have hq : c.point.phase? = none := by
      by_contra hq
      exact hq (shutting_of_ends hc hm hf (hs.ours c hc (.inl hq))).1
    have hclosed := (acts_ofSession config twin as a).tableClosed
      ((Setup.session config twin).numbered_run as) ((Setup.session config twin).ordered_run as)
    have hread : ∀ t limit alarm plan p, c.point = .awaiting t limit alarm (.operation plan) →
        ((ofSession config twin).run as).link.delivery? t.id = some (.ok p) →
          ∀ e, plan.read p = .error e → e.isFatal = false := fun t limit alarm plan p hp hd e hr => by
      obtain ⟨w, -, -, hwaiter, haccepts⟩ := (registered_run config twin as).delivered
        ((Setup.session config twin).kept_run as) hc hp nofun hd
      cases hwaiter
      exact Plan.read_error haccepts hr
    have hfatal := hm.fatal hc hf he ((Setup.session config twin).candid_run as) (fun _ _ => planOperation_fatal) hread
      fun e hp => (shutting_of_ends hc hm hf (hs.ours c hc (.inr ⟨_, hp⟩))).2
    refine hfatal.imp (Or.imp (fun hp => ?_) hclosed) fun ho => ⟨c, hmove, ho⟩
    rw [hl.session, m.sessionAfter_phase]
    exact hm.faulted hq hp
  failed id hi e ha := by
    obtain ⟨d, he, -⟩ | ⟨e', he, hfaults⟩ := ends_of_took ha (took_before ha hi)
    · cases he
    · cases he
      exact ⟨hfaults.faulted, hfaults.closed, hfaults.failed.isFatal_iff⟩

/-- A device that does not answer the first request of the handshake, which is not repeated. -/
def startUnanswered : List Action :=
  let start := Action.advance (.call 0) false
  let loop := Action.advance .loop false
  [.make .start, start, start, loop, loop, loop, start, .pass 5000, start]

/-- A device that describes itself, with one interface. -/
def startDescribed : List Action :=
  let start := Action.advance (.call 0) false
  let loop := Action.advance .loop false
  let device := fun p : Packet => Action.receive (Frame.encode p.toBytes)
  [.make .start, start, start, loop, loop, loop, start,
    device (.bare .resetResponse), loop, loop, loop, start, start, loop, loop, loop, start,
    device (.ofKind .descriptorResponse [1, 0, 5, 1, 0, 97]), loop, loop, loop, start, start, start]

/-- **A start can fault its session with an error that is not fatal:** when the device does not answer, and when the twin
refuses an interface. -/
theorem fatality_untold :
    let unanswered := ofSession { handshakeRetries := 0 } (.scripted [] 0 0)
    let refused := ofSession {} (.scripted [(.publish, "a")] 0 0)
    let last := Action.advance (.call 0) false
    let told := fun (h : Host) (as : List Action) => ∀ id ∈ (h.startRecord (as ++ [last])).takers, ∀ e,
      (Moment.mk (h.run as) last).Answers id (.error (.session e)) →
        (h.run (as ++ [last])).session.phase = .faulted → e.isFatal
    (Moment.mk (unanswered.run startUnanswered) last).Answers 0 (.error (.session (.link .timeout))) ∧
      ¬told unanswered startUnanswered ∧
    (Moment.mk (refused.run startDescribed) last).Answers 0
        (.error (.session (.twin "publish a: publish refused for a"))) ∧
      ¬told refused startDescribed := by
  intro unanswered refused last told
  have hu : (Moment.mk (unanswered.run startUnanswered) last).Answers 0 (.error (.session (.link .timeout))) :=
    Moment.answers_of_failure (by decide +kernel)
  have hr : (Moment.mk (refused.run startDescribed) last).Answers 0
      (.error (.session (.twin "publish a: publish refused for a"))) :=
    Moment.answers_of_failure (by decide +kernel)
  refine ⟨hu, fun h => ?_, hr, fun h => ?_⟩
  · cases h 0 (by decide +kernel) _ hu (by decide +kernel)
  · cases h 0 (by decide +kernel) _ hr (by decide +kernel)

end Host
end TwinLink
