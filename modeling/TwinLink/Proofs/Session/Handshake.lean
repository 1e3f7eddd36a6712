import TwinLink.Proofs.Session.Accounts

/-!
# The requests of a handshake

A start writes its first request until it is acknowledged, and then the second until the device describes itself, each
at most once more than it may be repeated. Whoever else uses the session, and whatever the device sends and when, this
is all that a handshake puts on the byte stream.

* `Host.Admits`, `Host.requests_run` : the requests that are in the command queue or written;
* `Host.failsIn_timeout`, `Host.failsIn_other`, `Host.over_of_failsIn` : when a phase fails, and what follows;
* `Host.HoldsRequests`, `Host.stream_run` : what the byte stream holds;
* `Host.MadeWith`, `Host.succeeds_run` : the requests of a handshake that succeeds;
* `Host.HandshakesWithin`, `Host.handshakes_within` : the handshakes of all sessions.
-/

namespace TwinLink

open Decoder (frameOf)

variable {c : Call} {m : Move}

/-! ## How many requests are written -/

/-- So many requests are no more than the waits that timed out, and `n`, allow; and the second is among them only if the
first was acknowledged. -/
structure Host.Admits (start : Host) (n : Nat) (as : List Action) (i j : Nat) : Prop where
  resets : i ≤ (start.tally as).expired .reset + 1 ∧ i ≤ n + 1
  describes : j ≤ (start.tally as).expired .describe + 1 ∧ j ≤ n + 1
  acknowledged : j ≠ 0 → (start.startRecord as).Acknowledged

theorem Host.Admits.mono {start : Host} {n i j i' j' : Nat} {as : List Action} (ha : start.Admits n as i j)
    (hi : i' ≤ i) (hj : j' ≤ j) : start.Admits n as i' j' where
  resets := ⟨Nat.le_trans hi ha.resets.1, Nat.le_trans hi ha.resets.2⟩
  describes := ⟨Nat.le_trans hj ha.describes.1, Nat.le_trans hj ha.describes.2⟩
  acknowledged h := ha.acknowledged fun h0 => h (Nat.le_zero.mp (h0 ▸ hj))

/-- The byte stream holds so many requests in their order, and at most the beginning of one more. -/
def Host.HoldsRequests (h : Host) (i j : Nat) : Prop :=
  ∃ (stage : Stage) (part : Bytes), h.wire.outbound = (requestsOf i j).flatMap frameOf ++ part ∧
    part <+: frameOf (.bare stage.request) ∧ part ≠ frameOf (.bare stage.request)

/-- The handshake has come to its end with so many requests: all are written, in each phase one more than waits have
timed out. If all is done through the session, there is nothing else on the byte stream, and these are all timeouts of
the link. -/
structure Host.MadeWith (start : Host) (as : List Action) (i j : Nat) : Prop where
  made : 0 < i ∧ 0 < j
  written : ((start.startRecord as).own (start.outbox as).written).map (·.packet) = requestsOf i j
  expired : (start.tally as).expired .reset = i - 1 ∧ (start.tally as).expired .describe = j - 1
  alone : (∀ a ∈ as, a.viaSession) → (start.run as).wire.outbound = (requestsOf i j).flatMap frameOf ∧
    (start.run as).link.metrics.timeouts = (i - 1) + (j - 1)

theorem sublist_requestsOf {xs : List Packet} {i j : Nat} (hs : xs.Sublist (requestsOf i j)) :
    ∃ i' ≤ i, ∃ j' ≤ j, xs = requestsOf i' j' := by
  obtain ⟨ys, zs, rfl, hys, hzs⟩ := List.sublist_append_iff.mp hs
  obtain ⟨i', hi, rfl⟩ := List.sublist_replicate_iff.mp hys
  obtain ⟨j', hj, rfl⟩ := List.sublist_replicate_iff.mp hzs
  exact ⟨i', hi, j', hj, rfl⟩

theorem mem_requestsOf {p : Packet} {i j : Nat} (hp : p ∈ requestsOf i j) :
    ∃ stage : Stage, p = .bare stage.request := by
  rcases List.mem_append.mp hp with hp | hp <;> exact ⟨_, List.eq_of_mem_replicate hp⟩

namespace Host

variable (config : SessionConfig) (twin : Twin) (as : List Action)

/-- The frames of a start are queued in the order of its requests. -/
theorem own_sublist {sends : List Send} (hs : sends <+: ((ofSession config twin).outbox as).queued) :
    (((ofSession config twin).startRecord as).own sends).Sublist
      (((ofSession config twin).startRecord as).own ((ofSession config twin).outbox as).called) := by
  have hone := (starting_run config twin as).one
  refine (hs.sublist.filter _).trans ?_
  cases htakers : ((ofSession config twin).startRecord as).takers with
  | nil => simp [StartRecord.own, htakers]
  | cons id rest =>
    obtain rfl : rest = [] := by
      rw [htakers] at hone
      exact List.length_eq_zero_iff.mp (Nat.le_zero.mp (Nat.le_of_succ_le_succ hone))
    have hid : ∀ s : Send, [id].contains s.caller = (s.caller == id) := fun s => by simp [beq_eq_decide]
    simp only [StartRecord.own, htakers, hid]
    exact (Setup.session config twin).queued_inOrder as id

/-- **What a start has got into the command queue is requests in their order, and no more than the accounts allow.** -/
theorem requests_run {sends : List Send} (hs : sends <+: ((ofSession config twin).outbox as).queued) :
    ∃ i j, (((ofSession config twin).startRecord as).own sends).map (·.packet) = requestsOf i j ∧
      (ofSession config twin).Admits config.handshakeRetries as i j := by
  have hacc := accounts_run config twin as
  have hsub := (own_sublist config twin as hs).map (·.packet)
  rw [hacc.inOrder] at hsub
  obtain ⟨i, hi, j, hj, he⟩ := sublist_requestsOf hsub
  have hall : (ofSession config twin).Admits config.handshakeRetries as
      (((ofSession config twin).tally as).asked .reset) (((ofSession config twin).tally as).asked .describe) :=
    ⟨⟨hacc.sound.paced _, hacc.sound.bounded _⟩, ⟨hacc.sound.paced _, hacc.sound.bounded _⟩, hacc.acknowledged⟩
  exact ⟨i, j, he, hall.mono hi hj⟩

variable {config twin as}

/-- Until the session has been operational, all that is sent through it is sent by the start. -/
theorem owned_run (hv : ∀ a ∈ as, a.viaSession) (hno : ((ofSession config twin).run as).wasOperational = false) :
    ∀ s ∈ ((ofSession config twin).outbox as).called, s.caller ∈ ((ofSession config twin).startRecord as).takers := by
  induction as using List.reverseRecOn with
  | nil => exact List.forall_mem_nil _
  | append_singleton as a ih =>
    have hbefore : ((ofSession config twin).run as).wasOperational = false := by
      by_contra hw
      rw [run_concat, wasOperational_acts (acts_ofSession config twin _ a) (by simpa using hw)] at hno
      cases hno
    have hold : ∀ s ∈ ((ofSession config twin).outbox as).called,
        s.caller ∈ ((ofSession config twin).startRecord (as ++ [a])).takers := fun s hs => by
      rw [startRecord_concat]
      exact List.mem_append_left _ (ih (fun b hb => hv b (List.mem_append_left _ hb)) hbefore s hs)
    rw [outbox_concat]
    cases he : Moment.sendEvent ⟨(ofSession config twin).run as, a⟩ with
    | none => exact hold
    | some e =>
      cases e with
      | called id p =>
        intro s hs
        rcases List.mem_append.mp hs with hs | hs
        · exact hold s hs
        · obtain rfl := List.mem_singleton.mp hs
          -- the call waits for a place in the queue now, and not as an operation
          obtain ⟨-, -, -, -, frame, ticket, limit, purpose, hpoint⟩ := Moment.sendEvent_called he
          obtain ⟨x, hx, hpt⟩ := Option.map_eq_some_iff.mp hpoint
          rw [Moment.after, ← run_concat] at hx
          have hmem := call?_mem hx
          obtain rfl := call?_id hx
          have hregular := (separate_run hv).regular x hmem
          rw [hpt] at hregular
          cases purpose with
          | direct => exact hregular.2.1.elim
          | handshake stage retries =>
            exact (starting_run config twin (as ++ [a])).ours x hmem (.inl (by rw [hpt]; rintro ⟨⟩))
          | operation plan =>
            rw [(launched_run config twin (as ++ [a])).planned x hmem plan (by rw [hpt]; rfl)] at hno
            cases hno
      | queued | taken | written | returned => exact hold

/-- Until then only waits of the handshake time out. -/
theorem timeouts_run (hv : ∀ a ∈ as, a.viaSession) (hno : ((ofSession config twin).run as).wasOperational = false) :
    ((ofSession config twin).run as).link.metrics.timeouts =
      ((ofSession config twin).tally as).expired .reset + ((ofSession config twin).tally as).expired .describe := by
  have hcount : ∀ xs : List Purpose, (∀ x ∈ xs, x.stage?.isSome) →
      xs.length = (xs.filterMap Purpose.stage?).count .reset + (xs.filterMap Purpose.stage?).count .describe := by
    intro xs hxs
    induction xs with
    | nil => rfl
    | cons x xs ih =>
      obtain ⟨stage, hstage⟩ := Option.isSome_iff_exists.mp (hxs x List.mem_cons_self)
      rw [List.filterMap_cons_some hstage, List.length_cons, ih fun y hy => hxs y (List.mem_cons_of_mem _ hy)]
      cases stage <;> simp <;> omega
  have hexpires : ((ofSession config twin).moments as).filterMap Moment.expires =
      (((ofSession config twin).moments as).filterMap Moment.overdue).filterMap Purpose.stage? := by
    rw [List.filterMap_filterMap]
    rfl
  have hlink := (Setup.session config twin).timeouts_run as
  rw [tally, hexpires]
  refine hlink.trans (hcount _ fun purpose hp => ?_)
  obtain ⟨mo, hmo, ho⟩ := List.mem_filterMap.mp hp
  obtain ⟨bs, hb, hhost⟩ := exists_of_mem_moments hmo
  obtain ⟨c, hc, ho⟩ := Option.bind_eq_some_iff.mp ho
  have hbs : bs <+: as := (List.prefix_append _ _).trans hb
  have hmem := (Moment.mover_acts hc).1
  unfold overdue at ho
  split at ho
  · rename_i ticket limit alarm purpose' hpt
    split at ho
    · cases ho
      rw [hhost] at hmem
      have hregular := (separate_run fun a ha => hv a (hbs.subset ha)).regular c hmem
      rw [hpt] at hregular
      cases purpose with
      | direct => exact hregular.elim
      | handshake stage retries => rfl
      | operation plan =>
        have hwas := (launched_run config twin bs).planned c hmem plan (by rw [hpt]; rfl)
        obtain ⟨cs, rfl⟩ := hbs
        have hmono := wasOperational_mono ((Setup.session config twin).tidy_run bs) hwas cs
        rw [run_append] at hno
        exact absurd (hmono.symm.trans hno) (by decide)
    · cases ho
  · cases ho

/-! ## Failure and success -/

/-- A start that is about to end leaves the handshake to nobody. -/
theorem handshakeOver_of_shutting {x : Call} {answer : Answer} (hx : x ∈ ((ofSession config twin).run as).calls)
    (hid : x.id ∈ ((ofSession config twin).startRecord as).takers) (hpt : x.point = .shutting answer) :
    ((ofSession config twin).run as).HandshakeOver := by
  have hs := starting_run config twin as
  refine ⟨hs.portTaken hid, fun y hy => ?_⟩
  by_contra hq
  obtain rfl := ((Setup.session config twin).numbered_run as).eq_of_id hy hx
    (hs.eq_of_takers (hs.ours y hy (.inl hq)) hid)
  exact hq (by rw [hpt]; rfl)

/-- **Once nobody is in the handshake no request is made any more**, and no wait times out. -/
theorem tally_over (ho : ((ofSession config twin).run as).HandshakeOver) (bs : List Action) :
    (ofSession config twin).tally (as ++ bs) = (ofSession config twin).tally as := by
  have hover : ∀ bs, ((ofSession config twin).run (as ++ bs)).HandshakeOver := fun bs => by
    induction bs using List.reverseRecOn with
    | nil => rwa [List.append_nil]
    | append_singleton bs a ih =>
      rw [← List.append_assoc, run_concat]
      exact ih.acts ((Setup.session config twin).numbered_run _) (acts_ofSession config twin _ a)
  induction bs using List.reverseRecOn with
  | nil => rw [List.append_nil]
  | append_singleton bs a ih =>
    rw [← List.append_assoc]
    cases startTurn config twin (as ++ bs) a with
    | aside ht hx hb hf hs hc => rw [tally_aside ht hx hs, ih]
    | steps hc hmem hq hm hl hs hst ht hr =>
      rcases hq with hq | ⟨-, hport⟩
      · exact absurd ((hover bs).outside _ hmem) hq
      · have hport : ((ofSession config twin).run (as ++ bs)).session.portTaken = false := hport
        rw [(hover bs).portTaken] at hport
        cases hport

/-- What a phase fails with, seen from the step of its start. -/
theorem failsIn_iff {mo : Moment} {stage : Stage} {e : SessionError} (hc : mo.mover = some c) (hmem : c ∈ mo.host.calls)
    (hl : mo.host.Leaves c m mo.after) (hn' : mo.after.Numbered) :
    mo.FailsIn stage e ↔ mo.host.stage? c = some stage ∧ m.pointAfter c = some (.shutting (.error (.session e))) := by
  rw [← hl.pointAfter hmem hn']
  refine ⟨fun ⟨c', hc', h⟩ => ?_, fun h => ⟨c, hc, h⟩⟩
  obtain rfl := Option.some.inj (hc.symm.trans hc')
  exact h

variable {a : Action} {stage : Stage} {e : SessionError}

/-- A phase fails for want of a reply exactly as the last wait of it times out. -/
theorem failsIn_timeout : (Moment.mk ((ofSession config twin).run as) a).FailsIn stage (.link .timeout) ↔
    (Moment.mk ((ofSession config twin).run as) a).expires = some stage ∧
      ((ofSession config twin).tally (as ++ [a])).expired stage = config.handshakeRetries + 1 := by
  have hacc := accounts_run config twin as
  cases startTurn config twin as a with
  | aside ht hx hb hf hs hc =>
    rw [hx]
    exact ⟨fun h => absurd h (hf _ _), nofun⟩
  | steps hc hmem hq hm hl hs hst ht hr =>
    have hn' := ((Setup.session config twin).numbered_run as).acts (acts_ofSession config twin _ a)
    rw [failsIn_iff hc hmem hl hn',
      tally_steps hc hs hst ((Setup.session config twin).unsent_run as _ hmem) ht hr, Moment.expires, Moment.overdue,
      hc, Option.bind_some]
    exact hst.timesOut_iff hacc.sound (hacc.at_step hmem hr)
      (by rw [(starting_run config twin as).configured])

/-- Any other error fails a phase at once. -/
theorem failsIn_other (he : e ≠ .link .timeout) : (Moment.mk ((ofSession config twin).run as) a).FailsIn stage e ↔
    (Moment.mk ((ofSession config twin).run as) a).breach = some (stage, e) := by
  cases startTurn config twin as a with
  | aside ht hx hb hf hs hc =>
    rw [hb]
    exact ⟨fun h => absurd h (hf _ _), nofun⟩
  | steps hc hmem hq hm hl hs hst ht hr =>
    have hn' := ((Setup.session config twin).numbered_run as).acts (acts_ofSession config twin _ a)
    rw [failsIn_iff hc hmem hl hn', Moment.breach, hc, Option.bind_some]
    exact hst.fails_iff he

/-- When a phase has failed, the session is faulted, and no request is made any more. -/
theorem over_of_failsIn (hf : (Moment.mk ((ofSession config twin).run as) a).FailsIn stage e) :
    ((ofSession config twin).run (as ++ [a])).session.phase = .faulted ∧
      ∀ bs, ((ofSession config twin).tally (as ++ [a] ++ bs)).asked = ((ofSession config twin).tally as).asked := by
  cases startTurn config twin as a with
  | aside ht hx hb hno hs hc => exact absurd hf (hno _ _)
  | @steps c m hc hmem hq hm hl hs hst ht hr =>
    have hn' := ((Setup.session config twin).numbered_run as).acts (acts_ofSession config twin _ a)
    have hafter := starting_run config twin (as ++ [a])
    have htally := tally_steps hc hs hst
      ((Setup.session config twin).unsent_run as _ hmem) ht hr
    obtain ⟨c', hc', -, hpoint⟩ := hf
    obtain rfl := Option.some.inj (hc.symm.trans hc')
    obtain ⟨x, hx, hpt⟩ := Option.map_eq_some_iff.mp hpoint
    rw [Moment.after, ← run_concat] at hx
    have hxmem := call?_mem hx
    have hxid : x.id ∈ ((ofSession config twin).startRecord (as ++ [a])).takers := by
      rw [startRecord_concat, ht, call?_id hx]
      exact List.mem_singleton.mpr rfl
    refine ⟨?_, fun bs => ?_⟩
    · have hstands := hafter.stands x hxmem hxid
      rw [hpt] at hstands
      cases hstands with
      | exchanges stage hphase => cases hphase
      | fails e hp hcl hfail => exact hp
    · rw [tally_over (handshakeOver_of_shutting hxmem hxid hpt), htally]
      have hasks : m.asks = none := Move.asks_of_not_entering fun frame ticket limit purpose keeps hg => by
        have hpointAfter := hl.pointAfter hmem hn'
        rw [hpoint, Move.pointAfter, hg] at hpointAfter
        cases hpointAfter
      rw [hasks]
      rfl

/-! ## The byte stream -/

variable (config twin as)

/-- **Until the session has been operational, the byte stream holds requests in their order**, and at most the beginning
of one more. -/
theorem stream_run (hv : ∀ a ∈ as, a.viaSession) (hno : ((ofSession config twin).run as).wasOperational = false) :
    ∃ i j, ((ofSession config twin).run as).HoldsRequests i j ∧
      (ofSession config twin).Admits config.handshakeRetries as i j := by
  obtain ⟨current, waiting, hmail⟩ := (Setup.session config twin).mailed_run as
  obtain ⟨hwritten, htaken⟩ := (Setup.session config twin).written_inOrder as
  -- what is taken up is all by the start
  have hframes : ∀ sends, sends <+: ((ofSession config twin).outbox as).queued → ∃ i j,
      sends.map (·.packet) = requestsOf i j ∧ sends.flatMap Send.frame = (requestsOf i j).flatMap frameOf ∧
        (ofSession config twin).Admits config.handshakeRetries as i j := fun sends hs => by
    obtain ⟨i, j, he, hadmits⟩ := requests_run config twin as hs
    have hown : ((ofSession config twin).startRecord as).own sends = sends :=
      List.filter_eq_self.mpr fun s hmem => by
        simpa using owned_run hv hno s (hmail.called s (hs.subset hmem))
    rw [hown] at he
    exact ⟨i, j, he, by rw [← he, List.flatMap_map]; rfl, hadmits⟩
  obtain ⟨part, hout, ⟨-, rfl⟩ | ⟨s, hs, hpart, -⟩⟩ := (Setup.session config twin).outbound_run as
  · obtain ⟨i, j, -, he, hadmits⟩ := hframes _ (hwritten.trans htaken)
    exact ⟨i, j, ⟨.reset, [], by rw [← he]; exact hout, List.nil_prefix, (List.cons_ne_nil _ _).symm⟩, hadmits⟩
  · obtain ⟨i, j, hpackets, he, hadmits⟩ := hframes _ htaken
    by_cases hall : part = s.frame
    · refine ⟨i, j, ⟨.reset, [], ?_, List.nil_prefix, (List.cons_ne_nil _ _).symm⟩, hadmits⟩
      rw [List.append_nil, ← he, hs, List.flatMap_append, List.flatMap_singleton, ← hall]
      exact hout
    · have hmem : s.packet ∈ requestsOf i j := by
        rw [← hpackets, hs]
        exact List.mem_map_of_mem List.mem_concat_self
      obtain ⟨stage, hp⟩ := mem_requestsOf hmem
      obtain ⟨i', j', -, he', hadmits'⟩ := hframes _ (hwritten.trans htaken)
      rw [Send.frame, hp] at hpart hall
      exact ⟨i', j', ⟨stage, part, by rw [← he']; exact hout, hpart, hall⟩, hadmits'⟩

variable {config twin as}

/-! ## A handshake that succeeds -/

/-- A start that makes its device known to the twin sends nothing. -/
theorem sendEvent_registering {mo : Moment} {d : Descriptor} {todo : List TwinCall} {pending : Option Pending}
    (hc : mo.mover = some c) (hn : mo.host.Numbered) (hq : c.point = .registering d todo pending) :
    mo.sendEvent = none := by
  obtain ⟨-, ⟨-, -, hnone⟩ | ⟨m, -, -, hs⟩⟩ := Moment.mover_moves hc hn
  · exact hnone
  · generalize mo.sendEvent = event at hs
    cases hs with
    | calls hp => rw [hq] at hp; cases hp
    | queues hp => rw [hq] at hp; cases hp
    | returns hsends => rw [hq] at hsends; cases hsends
    | other => rfl

/-- By the time a start makes its device known to the twin, each of its requests is written. -/
theorem own_written {d : Descriptor} {todo : List TwinCall} {pending : Option Pending}
    (hc : c ∈ ((ofSession config twin).run as).calls) (hq : c.point = .registering d todo pending) :
    ((ofSession config twin).startRecord as).own ((ofSession config twin).outbox as).written =
      ((ofSession config twin).startRecord as).own ((ofSession config twin).outbox as).called := by
  obtain ⟨current, waiting, hmail⟩ := (Setup.session config twin).mailed_run as
  obtain ⟨hwritten, htaken⟩ := (Setup.session config twin).written_inOrder as
  have hphase : c.point.phase? ≠ none := by rw [hq]; exact nofun
  have hid := (starting_run config twin as).ours c hc (.inl hphase)
  have hnodup : ((ofSession config twin).outbox as).called.Nodup :=
    .of_map Send.number (hmail.numbers.symm ▸ List.nodup_range)
  refine (own_sublist config twin as (hwritten.trans htaken)).eq_of_length_le
    (List.subperm_of_subset (hnodup.filter _) fun s hs => ?_).length_le
  refine StartRecord.mem_own.mpr ⟨?_, (StartRecord.mem_own.mp hs).2⟩
  refine ((accounts_run config twin as).filed c hc hid hphase s hs).resolve_right fun h => ?_
  rw [hq] at h
  cases h.1

/-- As a start gives its device, nothing is sent, written or waited for. -/
theorem quiet_of_answers {id : Nat} {d : Descriptor}
    (hans : (Moment.mk ((ofSession config twin).run as) a).Answers id (.ok (.device d))) :
    ∃ c ∈ ((ofSession config twin).run as).calls, c.point = .registering d [] none ∧
      ((ofSession config twin).startRecord (as ++ [a])).takers = ((ofSession config twin).startRecord as).takers ∧
      (ofSession config twin).outbox (as ++ [a]) = (ofSession config twin).outbox as ∧
      (ofSession config twin).tally (as ++ [a]) = (ofSession config twin).tally as ∧
      ((ofSession config twin).run (as ++ [a])).wire.outbound = ((ofSession config twin).run as).wire.outbound ∧
      ((ofSession config twin).run (as ++ [a])).link.metrics.timeouts =
        ((ofSession config twin).run as).link.metrics.timeouts := by
  obtain ⟨c, m, hmove, rfl, hc, hm, hl, hf⟩ := Moment.answers_move ((Setup.session config twin).claimed_run _) hans
  have hq : c.point = .registering d [] none := (hm.gives hf).resolve_right fun hp => by
    cases (orderly_run config twin as).spared c hc _ hp
  have hover : (Moment.mk ((ofSession config twin).run as) a).overdue = none := by
    rw [Moment.overdue, hmove, Option.bind_some]
    exact (no_stage hq).2.2
  have htakes := ((Moment.takesStream_cases hmove).resolve_left fun h => by rw [hq] at h; cases h.2.1).1
  have hsend := sendEvent_registering hmove ((Setup.session config twin).numbered_run as) hq
  refine ⟨c, hc, hq, ?_, ?_, ?_, ?_, ?_⟩
  · simp [startRecord_concat, StartRecord.add, htakes]
  · rw [outbox_concat, hsend]
    rfl
  · exact tally_aside htakes (by rw [Moment.expires, hover]; rfl) fun id p he => by rw [hsend] at he; cases he
  · rw [run_concat]
    exact (congrArg Wire.outbound hl.wire :)
  · rw [run_concat, (acts_ofSession config twin _ a).timeouts, hover]
    rfl

/-- When all that was sent is written, the byte stream holds just that. -/
theorem outbound_of_written (hall : ∀ s ∈ ((ofSession config twin).outbox as).called,
    s ∈ ((ofSession config twin).outbox as).written) :
    ((ofSession config twin).run as).wire.outbound =
      (((ofSession config twin).outbox as).written.map (·.packet)).flatMap frameOf := by
  obtain ⟨current, waiting, hmail⟩ := (Setup.session config twin).mailed_run as
  rw [List.flatMap_map]
  cases hmail.carries with
  | between hc ho hl => exact ho
  | within s part rest hc ho hp hl =>
    -- what is under way was sent and is not written
    have hs : s ∈ current ++ waiting := by simp [hc]
    have hqueued : s ∈ ((Setup.session config twin).host.outbox as).queued := by
      rw [hmail.queued, hmail.taken, List.append_assoc]
      exact List.mem_append_right _ hs
    exact absurd (hall s (hmail.called s hqueued)) (hmail.unwritten hs)

/-- Once a start makes its device known to the twin, its handshake has come to its end. -/
theorem madeWith_of_registering {d : Descriptor} {todo : List TwinCall} {pending : Option Pending}
    (hc : c ∈ ((ofSession config twin).run as).calls) (hq : c.point = .registering d todo pending) :
    (ofSession config twin).MadeWith as (((ofSession config twin).tally as).asked .reset)
      (((ofSession config twin).tally as).asked .describe) := by
  have hacc := accounts_run config twin as
  have hphase : c.point.phase? ≠ none := by rw [hq]; exact nofun
  have hid := (starting_run config twin as).ours c hc (.inl hphase)
  have hasked : ∀ stage, ((ofSession config twin).tally as).asked stage =
      ((ofSession config twin).tally as).expired stage + 1 := by
    have hat := hacc.stands c hc hid
    rw [hq] at hat
    exact hat
  have hown := own_written hc hq
  refine ⟨by simp [hasked], (congrArg _ hown).trans hacc.inOrder, by simp [hasked], fun hv => ?_⟩
  -- the session has not been operational, so all that was sent was sent by the start
  have hno : ((ofSession config twin).run as).wasOperational = false := by
    by_contra hwas
    exact hphase ((launched_run config twin as).outside (by simpa using hwas) c hc)
  have howned := owned_run hv hno
  have hwritten : ∀ s ∈ ((ofSession config twin).outbox as).called,
      s ∈ ((ofSession config twin).outbox as).written := fun s hs =>
    (StartRecord.mem_own.mp (hown.symm ▸ StartRecord.mem_own.mpr ⟨hs, howned s hs⟩)).1
  obtain ⟨current, waiting, hmail⟩ := (Setup.session config twin).mailed_run as
  have hsame : ((ofSession config twin).startRecord as).own ((ofSession config twin).outbox as).written =
      ((ofSession config twin).outbox as).written := List.filter_eq_self.mpr fun s hs => by
    simpa using howned s (hmail.called s (hmail.queued ▸ List.mem_append_left _
      (hmail.taken ▸ List.mem_append_left _ hs)))
  refine ⟨?_, ?_⟩
  · rw [outbound_of_written hwritten, ← hsame, hown, hacc.inOrder]
  · rw [timeouts_run hv hno, hasked, hasked, Nat.add_sub_cancel, Nat.add_sub_cancel]

/-- **A start that gives its device has made each request once more than it has waited in vain.** -/
theorem succeeds_run {id : Nat} {d : Descriptor}
    (hans : (Moment.mk ((ofSession config twin).run as) a).Answers id (.ok (.device d))) :
    ∃ i j, (ofSession config twin).MadeWith (as ++ [a]) i j := by
  obtain ⟨c, hc, hq, htakers, hbox, htally, hwire, htimeouts⟩ := quiet_of_answers hans
  obtain ⟨hmade, hwritten, hexpired, halone⟩ := madeWith_of_registering hc hq
  refine ⟨_, _, hmade, ?_, ?_, fun hv => ?_⟩
  · rw [StartRecord.own, htakers, hbox]
    exact hwritten
  · rw [htally]
    exact hexpired
  · rw [hwire, htimeouts]
    exact halone fun b hb => hv b (List.mem_append_left _ hb)

end Host

/-! ## Every handshake -/

/-- What a handshake has written, made and waited for after the actions `as`, and how it ends: a request may be repeated
`n` times. -/
structure Host.HandshakesWithin (start : Host) (n : Nat) (as : List Action) : Prop where
  /-- What a start hands to the link is requests in their order, each made again only after a wait for its reply has
  timed out, and the second only after the first is acknowledged. -/
  sent : ∃ i j, ((start.startRecord as).own (start.outbox as).called).map (·.packet) = requestsOf i j ∧
    start.Admits n as i j
  /-- So is what is written of that. -/
  written : ∃ i j, ((start.startRecord as).own (start.outbox as).written).map (·.packet) = requestsOf i j ∧
    start.Admits n as i j
  /-- No more waits of a phase time out. -/
  waits : ∀ stage, (start.tally as).expired stage ≤ n + 1
  /-- A phase fails for want of a reply exactly as the last of these times out. -/
  timedOut : ∀ a stage, (Moment.mk (start.run as) a).FailsIn stage (.link .timeout) ↔
    (Moment.mk (start.run as) a).expires = some stage ∧ (start.tally (as ++ [a])).expired stage = n + 1
  /-- Any other error makes it fail at once. -/
  atOnce : ∀ a stage e, e ≠ .link .timeout →
    ((Moment.mk (start.run as) a).FailsIn stage e ↔ (Moment.mk (start.run as) a).breach = some (stage, e))
  /-- Then the session is faulted, and no request is made any more. -/
  faults : ∀ a stage e, (Moment.mk (start.run as) a).FailsIn stage e →
    (start.run (as ++ [a])).session.phase = .faulted ∧
      ∀ bs, (start.tally (as ++ [a] ++ bs)).asked = (start.tally as).asked
  /-- If all is done through the session, the byte stream holds nothing else until the session has been operational. -/
  stream : (∀ a ∈ as, a.viaSession) → (start.run as).wasOperational = false →
    ∃ i j, (start.run as).HoldsRequests i j ∧ start.Admits n as i j
  /-- When the device is given to the caller, each request was made once more than its wait has timed out. -/
  succeeds : ∀ a id d, (Moment.mk (start.run as) a).Answers id (.ok (.device d)) →
    ∃ i j, start.MadeWith (as ++ [a]) i j

namespace Host

/-- **Handshakes are within their bounds**, in every run of a session with any device and any twin: requests are written
one after another, each again only after a wait has timed out, and what is not a timeout ends the handshake at once. -/
theorem handshakes_within (config : SessionConfig) (twin : Twin) (as : List Action) :
    (ofSession config twin).HandshakesWithin config.handshakeRetries as where
  sent :=
    have hacc := accounts_run config twin as
    ⟨_, _, hacc.inOrder, ⟨hacc.sound.paced _, hacc.sound.bounded _⟩, ⟨hacc.sound.paced _, hacc.sound.bounded _⟩,
      hacc.acknowledged⟩
  written :=
    have ⟨hwritten, htaken⟩ := (Setup.session config twin).written_inOrder as
    requests_run config twin as (hwritten.trans htaken)
  waits stage :=
    have hsound := (accounts_run config twin as).sound
    (hsound.waited stage).trans (hsound.bounded stage)
  timedOut _ _ := failsIn_timeout
  atOnce _ _ _ he := failsIn_other he
  faults _ _ _ hf := over_of_failsIn hf
  stream hv hno := stream_run config twin as hv hno
  succeeds _ _ _ hans := succeeds_run hans

/-- A device that leaves each request unanswered once. -/
def answersRepeated : List Action :=
  let start := Action.advance (.call 0) false
  let loop := Action.advance .loop false
  let device := fun p : Packet => Action.receive (Frame.encode p.toBytes)
  let request := [start, loop, loop, loop, start]
  let requestTwice := request ++ [.pass 5000, start, .pass 5000, start] ++ request
  [.make .start, start] ++ requestTwice ++ [device (.bare .resetResponse), loop, loop, loop, start] ++ requestTwice ++
    [device (.ofKind .descriptorResponse [1, 0, 5, 1, 0, 97]), loop, loop, loop] ++ List.replicate 6 start

example :
    let h := (ofSession { handshakeRetries := 1 } (.scripted [] 0 0)).run answersRepeated
    h.session.phase = .operational ∧ h.wire.outbound = (requestsOf 2 2).flatMap frameOf ∧
      h.link.metrics.timeouts = 2 := by
  decide +kernel

end Host

end TwinLink
