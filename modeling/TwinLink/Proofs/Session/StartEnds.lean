import TwinLink.Proofs.Link.Senders
import TwinLink.Proofs.Link.Writing
import TwinLink.Proofs.Session.Starts

/-!
# How starts end

The start that takes the byte stream gives its caller the device once the twin has taken all of it and every observer was
told, or it ends with the session faulted and the link closed. Nothing is ever added to what it has done. Every other
start is turned away.

* `Host.HandshakeOver` : no call is in the handshake, or ever will be; `Host.Settled.course_run` : the course of a start
  that is over is final;
* `StartsAt.ends` : where a start ends, and with what answer;
* `Moment.TurnsAway`, `Moment.Registers`, `Moment.Faults` : a start that finds the stream taken, one that succeeds, and
  one that fails;
* `Host.StartsEnd`, `Host.starts_end` : how starts end, in every run.
-/

namespace TwinLink

variable {h h' : Host} {c : Call} {q : Point} {m : Move} {a : Action} {r : StartRecord} {revision : Revision} {id : Nat}

/-! ## After the end -/

/-- The byte stream is taken and no call is in the handshake. -/
structure Host.HandshakeOver (h : Host) : Prop where
  portTaken : h.session.portTaken
  outside : ∀ c ∈ h.calls, c.point.phase? = none

namespace Host.HandshakeOver

/-- Calls may leave or begin. -/
theorem quiet (hs : h.HandshakeOver) (hp : h'.session.portTaken = h.session.portTaken)
    (hc : ∀ c ∈ h'.calls, c ∈ h.calls ∨ c.point.phase? = none) : h'.HandshakeOver :=
  ⟨hp ▸ hs.portTaken, fun c h => (hc c h).elim (hs.outside c) fun h => h⟩

/-- **The handshake is over for good.** -/
theorem acts (hs : h.HandshakeOver) (hn : h.Numbered) (ha : Acts h a h') : h'.HandshakeOver := by
  cases ha with
  | loop i hm ht => exact hs.quiet (by rw [ht.session]) (by rw [ht.calls]; exact fun c hc => .inl hc)
  | dispatcher i hm ht =>
    exact hs.quiet (by rw [ht.session, hm.portTaken]) (by rw [ht.calls]; exact fun c hc => .inl hc)
  | @call _ i c m _ hc hm hl =>
    have hc := call?_mem hc
    have haside := hm.aside hs.portTaken (hs.outside c hc)
    refine ⟨?_, fun x hx => ?_⟩
    · rw [hl.session, m.sessionAfter_portTaken]
      exact haside.portTaken
    · exact Switched.outside_callsAfter hn hc haside.outside (fun y hy _ => hs.outside y hy) (hl.calls ▸ hx)
  | make r hm ready =>
    refine hs.quiet rfl fun c hc => ?_
    rcases List.mem_append.mp hc with hc | hc
    · exact .inl hc
    · obtain rfl := List.mem_singleton.mp hc
      exact .inr rfl
  | abandon hc released hr ready => exact hs.quiet (by simp) fun c hc => .inl (List.mem_filter.mp hc).1
  | _ => exact hs.quiet rfl fun c hc => .inl hc

/-- Nothing takes a faulted session to another phase then. -/
theorem faulted (hs : h.HandshakeOver) (ha : Acts h a h') (hp : h.session.phase = .faulted) :
    h'.session.phase = .faulted := by
  cases ha with
  | loop i hm ht => rw [ht.session, hp]
  | dispatcher i hm ht =>
    rw [ht.session]
    exact hm.phases.2.1.elim (fun h => h.1.trans hp) And.left
  | call i hc hm hl =>
    rw [hl.session, Move.sessionAfter_phase]
    exact hm.faulted (hs.outside _ (call?_mem hc)) hp
  | abandon hc released hr ready => simpa using hp
  | _ => exact hp

end Host.HandshakeOver

/-- The start `id` is over, and no call is in the handshake. -/
structure Host.Settled (h : Host) (id : Nat) : Prop where
  handshakeOver : h.HandshakeOver
  gone : id < h.made ∧ ∀ c ∈ h.calls, c.id = id → False

namespace Host.Settled

/-- **No action adds to the course of a start that is over.** -/
theorem acts (hs : h.Settled id) (hn : h.Numbered) (ha : Acts h a h') : h'.Settled id ∧ h'.course id = h.course id := by
  refine ⟨⟨hs.handshakeOver.acts hn ha, ha.point hn (P := fun _ => False) (fun _ _ _ _ _ _ _ h => h) hs.gone⟩, ?_⟩
  cases ha with
  | loop i hm ht => rw [course_actor ht.history, hm.unmarked, List.append_nil]
  | dispatcher i hm ht =>
    have hactor : (Actor.dispatcher == Actor.call id) = false := rfl
    rw [course_actor ht.history, hactor, hm.unmarked, List.append_nil]
  | @call _ i c m _ hc hm hl =>
    have hc := call?_mem hc
    have hother : (c.id == id) = false := beq_false_of_ne (hs.gone.2 c hc)
    rw [hl.course, hother, hm.unmarked (hs.handshakeOver.outside c hc) (fun h => by cases h), List.append_nil]
  | _ => rfl

/-- **The course of a start that is over is final.** -/
theorem course_run (hs : h.Settled id) (ht : h.Tidy) (bs : List Action) :
    (h.run bs).course id = h.course id := by
  have hinv : (h.run bs).Numbered ∧ (h.run bs).Settled id ∧ (h.run bs).course id = h.course id :=
    ht.run_inv (P := fun h' => h'.Numbered ∧ h'.Settled id ∧ h'.course id = h.course id) ⟨ht.numbered, hs, rfl⟩
      (fun _ _ _ ha ⟨hn, hs, hc⟩ => ⟨hn.acts ha, (hs.acts hn ha).1, (hs.acts hn ha).2.trans hc⟩) bs
  exact hinv.2.2

end Host.Settled

/-! ## Where a start ends -/

/-- Only a start whose device is known to the twin gives its caller the device. -/
theorem CallMove.gives {d : Descriptor} (hm : CallMove h c q m) (hf : m.fate = .ends (.ok (.device d))) :
    q = .registering d [] none ∨ q = .shutting (.ok (.device d)) := by
  have hfails : ∀ {l : Link} {notes : List Happening} {purpose : Purpose} {e : LinkError},
      ¬Fails h l notes purpose e m := fun h => by cases h <;> cases hf
  cases hm with
  | begin hm =>
    cases hm with
    | start hp ht ha => exact absurd hf ha.not_ends
    | _ => cases hf
  | shutOut frame ticket limit purpose hc h => exact (hfails h).elim
  | unwritten ticket limit purpose e hr h => exact (hfails h).elim
  | failed ticket limit alarm purpose e hd h => exact (hfails h).elim
  | timedOut ticket limit alarm purpose hd ha h => exact (hfails h).elim
  | acknowledged ticket limit alarm retries p hd ha => exact absurd hf ha.not_ends
  | paused alarm stage retries ha hm => exact absurd hf hm.not_ends
  | started d => cases hf; exact .inl rfl
  | told answer ho => cases hf; exact .inr rfl
  | untold answer hc => cases hf; exact .inr rfl
  | _ => cases hf

/-- **A start that has taken the stream ends** with the twin told of the whole device, or after it has failed. -/
theorem StartsAt.ends {answer : Answer} {opened : List Waiter} (hs : StartsAt r revision h c.id c.point)
    (hm : CallMove h c c.point m) (hf : m.fate = .ends answer) (hc : c ∈ h.calls) (hreg : h.Registered opened) :
    (∃ d told, c.point = .registering d [] none ∧ answer = .ok (.device d) ∧ r.Described revision c.id d ∧
      Told d [] none told ∧ h.course c.id = told.map toldOf) ∨
    ∃ e, c.point = .shutting (.error (.session e)) ∧ answer = .error (.session e) ∧ h.session.phase = .faulted ∧
      h.link.table.closed.isSome ∧ r.Failed revision h c.id e := by
  generalize hpt : c.point = q at hs hm
  cases hs with
  | exchanges stage hq hr hcourse =>
    have hfails : ∀ {l : Link} {notes : List Happening} {purpose : Purpose} {e : LinkError},
        purpose.phase? = some stage.phase → ¬Fails h l notes purpose e m := fun hq hfail => by
      obtain ⟨retries, rfl⟩ := Purpose.phase?_eq hq
      cases hfail <;> cases hf
    cases hm with
    | sent limit purpose hre =>
      -- a request of the handshake has its registration
      obtain ⟨retries, rfl⟩ := Purpose.phase?_eq hq
      obtain ⟨w, -, hw, -⟩ := hreg c hc (.handshake stage retries) (by rw [hpt]; rfl) nofun
      rw [hpt] at hw
      cases hw
    | shutOut frame ticket limit purpose hcl h => exact (hfails hq h).elim
    | unwritten ticket limit purpose e hre h => exact (hfails hq h).elim
    | failed ticket limit alarm purpose e hd h => exact (hfails hq h).elim
    | timedOut ticket limit alarm purpose hd ha h => exact (hfails hq h).elim
    | acknowledged ticket limit alarm retries p hd ha => exact absurd hf ha.not_ends
    | paused alarm stage retries ha hm => exact absurd hf hm.not_ends
    | started => cases stage <;> cases hq
    | begin | lockedClosed | received | unreadable | answered | updated | told | untold => cases hq
    | _ => cases hf
  | registers d todo pending told hr ht hcourse =>
    cases hm with
    | started d =>
      cases hf
      exact .inl ⟨d, told, rfl, rfl, hr, ht, hcourse⟩
    | _ => cases hf
  | fails e hp hcl hfail =>
    cases hm with
    | telling => cases hf
    | told answer ho | untold answer hc => cases hf; exact .inr ⟨e, rfl, rfl, hp, hcl, hfail⟩

/-! ## Starts that are turned away -/

/-- The start `c` finds the session closed or the stream taken. It says so, and all else stays as it is: only the answer
is entered and the call is gone, whose handle may have been the last to keep an idle byte stream. -/
structure Moment.TurnsAway (m : Moment) (c : Call) : Prop where
  after : m.after = { m.host with
    calls := m.host.calls.filter fun x => x.id != c.id
    history := ⟨.call c.id, m.host.now, .answered (.error (.session
      (if m.host.session.phase = .faulted then .faulted "session was closed" else .alreadyStarted)))⟩ :: m.host.history
    wire := { m.host.wire with released := m.after.wire.released }
    serial := m.after.serial
    ready := m.after.ready }
  released : m.after.wire.released = m.host.wire.released ∨ m.host.link.loop = .absent

theorem Channel.withdraw_eq {α : Type} {commands : Channel α} {a : Actor} (ha : a ∉ commands.senders) :
    (commands.withdraw a).1 = commands := by
  unfold senders at ha
  rw [List.mem_append, not_or] at ha
  unfold Channel.withdraw
  split
  · rename_i hg
    exact absurd (by simpa using hg) ha.2
  · simp [List.erase_of_not_mem ha.1]

/-- A call that holds nothing of the link leaves it as it is. -/
theorem Link.vacate_eq {l : Link} (ht : c.point.ticket? = none) (hs : .call c.id ∉ l.commands.senders)
    (hr : ∀ x ∈ l.receipts, x.1 ≠ c.id) : l.vacate c = l := by
  unfold Link.vacate
  rw [ht, Channel.withdraw_eq hs, Option.elim_none, Link.dropReceipt,
    List.filter_eq_self.mpr fun x hx => by simpa using hr x hx]

/-- All that a move leaves, but for alarms, who will act, and whether the byte stream is given up. -/
theorem Host.Leaves.eq (hl : h.Leaves c m h') : h' = { h with
    link := m.linkAfter c
    session := m.sessionAfter c
    calls := m.callsAfter c h.calls
    history := m.happenings.map (⟨.call c.id, h.now, ·⟩) ++ h.history
    wire := { h.wire with released := h'.wire.released }
    serial := h'.serial
    ready := h'.ready } := by
  cases h'
  simp only [Host.mk.injEq]
  exact ⟨hl.now, trivial, hl.wire, hl.link, hl.session, hl.calls, hl.made, hl.held, hl.tickets, trivial, hl.history⟩

namespace Host

variable {config : SessionConfig} {twin : Twin} {as : List Action}

/-- A call that is about to begin holds nothing of the link and of the session. -/
theorem vacate_begun (hh : h = (ofSession config twin).run as) (hc : c ∈ h.calls) {request : Request}
    (hp : c.point = .begun request) (ht : c.point.ticket? = none) :
    h.link.vacate c = h.link ∧ h.session.vacate c = h.session := by
  have hnumbered : h.Numbered := hh ▸ (Setup.session config twin).numbered_run as
  refine ⟨Link.vacate_eq ht ?_ fun x hx he => ?_, by unfold Session.vacate; rw [hp]; rfl⟩
  · have hlined : h.Lined := hh ▸ (Setup.session config twin).lined_run as
    exact hlined.notMem hnumbered hc (by rw [hp]; rfl)
  · obtain ⟨current, waiting, hmail⟩ := (Setup.session config twin).mailed_run as
    obtain ⟨c', hc', hid, hw⟩ := hmail.receipts x (by rw [hh] at hx; exact hx)
    obtain rfl := hnumbered.eq_of_id hc (by rw [hh]; exact hc') (he.symm.trans hid.symm)
    rw [hp] at hw
    cases hw

/-- **A start that does not take the stream is turned away.** -/
theorem turnsAway {mo : Moment} (hh : mo.host = (ofSession config twin).run as) (hc : mo.mover = some c)
    (hp : c.point = .begun .start) (hn : mo.takesStream = none) : mo.TurnsAway c := by
  obtain ⟨hmem, ⟨hw, -⟩ | ⟨m, hm, hl⟩⟩ := mo.mover_acts hc
  · exact absurd hp ((hearing_of_waits hw).2 _)
  obtain ⟨hlink, hsession⟩ := vacate_begun hh hmem hp (by rw [hp]; rfl)
  have hno := ((Moment.takesStream_cases hc).resolve_left fun h => by rw [hn] at h; cases h.1).2 hp
  have hport : mo.host.session.portTaken := by
    by_contra ht
    have ho : Orderly mo.host := hh ▸ orderly_run config twin as
    rw [(ho.idle (by simpa using ht)).1] at hno
    exact hno.elim nofun ht
  have hreleased : mo.after.wire.released = mo.host.wire.released ∨ mo.host.link.loop = .absent :=
    hl.released.imp_right fun h => h.2.resolve_right fun h => by rw [hport] at h; cases h
  have heq := hl.eq
  rw [hp] at hm
  cases hm with
  | begin hm =>
    cases hm with
    | startFaulted hph =>
      simp only [Move.linkAfter, Move.sessionAfter, Move.callsAfter, Move.happenings, hlink, hsession] at heq
      exact ⟨by rw [if_pos hph]; exact heq, hreleased⟩
    | startTaken hph ht =>
      simp only [Move.linkAfter, Move.sessionAfter, Move.callsAfter, Move.happenings, hlink, hsession] at heq
      exact ⟨by rw [if_neg hph]; exact heq, hreleased⟩
    | start hph ht ha =>
      rw [hport] at ht
      cases ht

end Host

/-! ## How starts end -/

/-- The start `id` gives its caller the device `d`. It has heard from the device what it describes itself as, the twin has
accepted every interface in the device's order, first to be published and then to be bound, and after that every
observer was told of the device once, and the session became operational. -/
structure Moment.Registers (m : Moment) (r : StartRecord) (revision : Revision) (id : Nat) (d : Descriptor) : Prop where
  took : r.takers = [id]
  described : r.Described revision id d
  course : ∃ told : List (TwinCall × Verdict), told.map (·.1) = d.registration ∧ (∀ x ∈ told, x.2.accepts) ∧
    m.after.course id = told.map toldOf ++ (List.range m.host.session.observers).map (.discovered · d) ++
      [.logged (.phaseChanged m.host.session.phase .operational)]
  operational : m.after.session.phase = .operational

/-- The start `id` fails with the error `e`. The twin was told of nothing after what failed, no observer was told, and the
session has not been operational. By now it is faulted, and the link is closed and its loop told to end, or has ended. -/
structure Moment.Faults (m : Moment) (r : StartRecord) (revision : Revision) (id : Nat) (e : SessionError) : Prop where
  took : r.takers = [id]
  failed : r.Failed revision m.after id e
  faulted : m.after.session.phase = .faulted
  closed : m.after.link.table.closed.isSome
  told : .shutdown ∈ m.after.link.commands.queue ∨ m.after.link.commands.closed

/-- How starts end, `r` being the record of a run and `m` its last moment. -/
structure StartsEnd (r : StartRecord) (config : SessionConfig) (m : Moment) : Prop where
  /-- One start at most takes the byte stream. -/
  one : r.takers.length ≤ 1
  /-- Every other start is turned away as it begins. -/
  others : ∀ c, m.mover = some c → c.point = .begun .start → m.takesStream = none → m.TurnsAway c
  /-- Only the one that takes the stream gives its caller a device. From then on nothing is added to what it has done. -/
  succeeds : ∀ id d, m.Answers id (.ok (.device d)) → m.Registers r config.revision id d ∧
    ∀ bs, (m.after.run bs).course id = m.after.course id
  /-- If it gives its caller anything else, it has failed. From then on nothing is added to what it has done, and the
  session is never operational. -/
  fails : ∀ id ∈ r.takers, ∀ answer, m.Answers id answer → (∀ d, answer ≠ .ok (.device d)) →
    ∃ e, answer = .error (.session e) ∧ m.Faults r config.revision id e ∧
      ∀ bs, (m.after.run bs).course id = m.after.course id ∧ (m.after.run bs).wasOperational = false

/-- A start that has failed has announced nothing. -/
theorem StartRecord.Failed.unannounced {e : SessionError} (hf : r.Failed revision h id e) :
    ∀ before, .logged (.phaseChanged before .operational) ∉ h.course id := by
  intro before
  cases hf with
  | timeout hc | link _ _ hc | descriptor _ hc => rw [hc]; exact List.not_mem_nil
  | twin d told call todo v text hr hc =>
    rw [hc]
    intro hmem
    obtain ⟨x, -, hx⟩ := List.mem_map.mp hmem
    cases hx

/-- What a completed registration adds to the course of its start. -/
theorem courseOf_started {n : Nat} {d : Descriptor} {before : Phase} (hb : before ≠ .operational) :
    courseOf true (.answered (.ok (.device d)) ::
      (phaseChange before .operational ++ (List.range n).reverse.map (.discovered · d))) =
    (List.range n).map (.discovered · d) ++ [.logged (.phaseChanged before .operational)] := by
  rw [courseOf_answered, courseOf_append]
  congr 1
  · simp [courseOf, Happening.marks, List.filter_map, Function.comp_def]
  · simp [courseOf, phaseChange, hb, Happening.marks]

/-- A call that has told the loop to end, or has found the command queue closed. -/
theorem CallMove.shuts {answer : Answer} (hm : CallMove h c (.shutting answer) m) (hl : h.Leaves c m h')
    (hf : m.fate = .ends answer) :
    (.shutdown ∈ h'.link.commands.queue ∨ h'.link.commands.closed) ∧ h'.session.phase = h.session.phase ∧
      m.notes = [] := by
  have hlink : h'.link.commands = (m.link.commands.withdraw (.call c.id)).1 := by
    rw [hl.link, Move.linkAfter, hf]
    exact Host.Lined.commands_vacate _ _
  rw [hlink, Channel.withdraw_queue, Channel.withdraw_closed, hl.session, m.sessionAfter_phase]
  cases hm with
  | told answer ho =>
    refine ⟨.inl ?_, rfl, rfl⟩
    rw [(h.link.commands.offer_admitted ho).1]
    exact List.mem_append_right _ (List.mem_singleton.mpr rfl)
  | untold answer hc => exact ⟨.inr hc, rfl, rfl⟩
  | telling answer ho => cases hf

namespace Host

variable {config : SessionConfig} {twin : Twin} {as : List Action}

/-- A start that has ended is over for good. -/
theorem settled_of_answers {a : Action} {answer : Answer}
    (ha : (Moment.mk ((ofSession config twin).run as) a).Answers id answer)
    (hi : id ∈ ((ofSession config twin).startRecord (as ++ [a])).takers) :
    ((ofSession config twin).run (as ++ [a])).Settled id := by
  have hs := starting_run config twin (as ++ [a])
  obtain ⟨c, m, hmove, rfl, hc, hm, hl, hf⟩ := Moment.answers_move ((Setup.session config twin).claimed_run _) ha
  have hgone : ∀ x ∈ ((ofSession config twin).run (as ++ [a])).calls, x.id ≠ c.id := fun x hx => by
    rw [run_concat] at hx
    have hx : x ∈ m.callsAfter c _ := hl.calls ▸ hx
    rw [Move.callsAfter, hf] at hx
    simpa using (List.mem_filter.mp hx).2
  refine ⟨⟨hs.portTaken hi, fun x hx => ?_⟩, hs.made _ hi, hgone⟩
  by_contra hq
  exact hgone x hx (hs.eq_of_takers (hs.ours x hx (.inl hq)) hi)

/-- A start that is answered has taken the stream before, if it ever has. -/
theorem took_before {a : Action} {answer : Answer} (ha : (Moment.mk ((ofSession config twin).run as) a).Answers id answer)
    (hi : id ∈ ((ofSession config twin).startRecord (as ++ [a])).takers) :
    id ∈ ((ofSession config twin).startRecord as).takers := by
  obtain ⟨c, m, hmove, rfl, hc, hm, hl, hf⟩ := Moment.answers_move ((Setup.session config twin).claimed_run _) ha
  rw [startRecord_concat] at hi
  refine (List.mem_append.mp hi).resolve_right fun ht => ?_
  rcases Moment.takesStream_cases hmove with ⟨-, hp, hph, hport⟩ | ⟨hn, -⟩
  · rw [hp] at hm
    cases hm with
    | begin hm =>
      cases hm with
      | startFaulted h => exact hph h
      | startTaken _ h => rw [show ((ofSession config twin).run as).session.portTaken = false from hport] at h; cases h
      | start _ _ ha => cases ha <;> cases hf
  · rw [hn] at ht
    cases ht

/-- **A start that has taken the stream and is answered** has got to the end of its registration, or has failed. -/
theorem ends_of_took {a : Action} {answer : Answer} (ha : (Moment.mk ((ofSession config twin).run as) a).Answers id answer)
    (hi : id ∈ ((ofSession config twin).startRecord as).takers) :
    (∃ d, answer = .ok (.device d) ∧ (Moment.mk ((ofSession config twin).run as) a).Registers
      ((ofSession config twin).startRecord (as ++ [a])) config.revision id d) ∨
    ∃ e, answer = .error (.session e) ∧ (Moment.mk ((ofSession config twin).run as) a).Faults
      ((ofSession config twin).startRecord (as ++ [a])) config.revision id e := by
  have hs := starting_run config twin as
  obtain ⟨c, m, hmove, rfl, hc, hm, hl, hf⟩ := Moment.answers_move ((Setup.session config twin).claimed_run _) ha
  -- nothing is heard and no stream is taken at this moment
  have hrecord : (∀ r, c.point ≠ .begun r) → ((ofSession config twin).run as).hearing c = none →
      ((ofSession config twin).startRecord (as ++ [a])).heard = ((ofSession config twin).startRecord as).heard ∧
      ((ofSession config twin).startRecord (as ++ [a])).takers = [c.id] := fun hb hh => by
    have hheard : (Moment.mk ((ofSession config twin).run as) a).heard = none := by
      rw [Moment.heard, hmove, Option.bind_some]
      exact hh
    have htakes := ((Moment.takesStream_cases hmove).resolve_left fun h => hb _ h.2.1).1
    rw [startRecord_concat]
    simp only [StartRecord.add, hheard, htakes, Option.toList_none, List.append_nil]
    exact ⟨trivial, hs.takers_eq hi⟩
  have hserved := congrArg StartRecord.served ((ofSession config twin).startRecord_concat as a)
  rcases (hs.stands c hc hi).ends hm hf hc (registered_run config twin as) with
    ⟨d, told, hp, rfl, hr, htold, hcourse⟩ | ⟨e, hp, rfl, hph, hcl, hfail⟩
  · refine .inl ⟨d, rfl, ?_⟩
    obtain ⟨hheard, htakers⟩ := hrecord (fun r he => by rw [hp] at he; cases he) (by rw [hearing, hp])
    obtain ⟨hall, haccepts⟩ : told.map (·.1) = d.registration ∧ ∀ x ∈ told, x.2.accepts := by
      cases htold with
      | between told todo hd ha => exact ⟨(List.append_nil _).symm.trans hd, ha⟩
    have hbefore : ((ofSession config twin).run as).session.phase ≠ .operational := by
      rcases (orderly_run config twin as).inPhase c hc .registering (by rw [hp]; rfl) with he | he <;> rw [he] <;> decide
    rw [hp] at hm
    cases hm with
    | started d =>
      refine ⟨htakers, hr.mono hheard hserved, ⟨told, hall, haccepts, ?_⟩, ?_⟩
      · rw [hl.course, hcourse, beq_self_eq_true, List.append_assoc]
        congr 1
        exact courseOf_started hbefore
      · rw [hl.session, Move.sessionAfter_phase]
  · refine .inr ⟨e, rfl, ?_⟩
    obtain ⟨hheard, htakers⟩ := hrecord (fun r he => by rw [hp] at he; cases he) (by rw [hearing, hp])
    rw [hp] at hm
    obtain ⟨htold, hphase, hnotes⟩ := hm.shuts hl hf
    have hclosed := (acts_ofSession config twin as a).tableClosed
      ((Setup.session config twin).numbered_run as) ((Setup.session config twin).ordered_run as)
    refine ⟨htakers, ?_, hphase.trans hph, hclosed hcl, htold⟩
    refine hfail.mono hheard hserved (hl.course_eq ?_) hclosed (acts_ofSession config twin _ a).writeFault
    rw [Move.happenings, hf, hnotes]
    rfl

/-- **How starts end**, in every run of a session with any device and any twin, however many starts there are and
whatever else is called. -/
theorem starts_end (config : SessionConfig) (twin : Twin) (as : List Action) (a : Action) :
    StartsEnd ((ofSession config twin).startRecord (as ++ [a])) config ⟨(ofSession config twin).run as, a⟩ := by
  have hafter : (Moment.mk ((ofSession config twin).run as) a).after = (ofSession config twin).run (as ++ [a]) :=
    (run_concat _ as a).symm
  have ht := (Setup.session config twin).tidy_run (as ++ [a])
  refine ⟨(starting_run config twin (as ++ [a])).one, fun c hc hp ht => turnsAway rfl hc hp ht, fun id d ha => ?_,
    fun id hi answer ha hne => ?_⟩
  · -- only a call in the handshake gives a device, and it has taken the stream
    have hi : id ∈ ((ofSession config twin).startRecord as).takers := by
      obtain ⟨c, m, hmove, rfl, hc, hm, hl, hf⟩ := Moment.answers_move ((Setup.session config twin).claimed_run _) ha
      rcases hm.gives hf with hp | hp
      · exact (starting_run config twin as).ours c hc (.inl (by rw [hp]; exact nofun))
      · cases (orderly_run config twin as).spared c hc _ hp
    obtain ⟨d', he, hreg⟩ | ⟨e, he, -⟩ := ends_of_took ha hi
    · cases he
      refine ⟨hreg, fun bs => ?_⟩
      rw [hafter]
      exact (settled_of_answers ha (by rw [hreg.took]; exact List.mem_singleton.mpr rfl)).course_run ht bs
    · cases he
  · obtain ⟨d, he, -⟩ | ⟨e, he, hfaults⟩ := ends_of_took ha (took_before ha hi)
    · exact absurd he (hne d)
    · refine ⟨e, he, hfaults, fun bs => ?_⟩
      have hcourse := (settled_of_answers ha hi).course_run ht bs
      rw [hafter]
      refine ⟨hcourse, ?_⟩
      by_contra ho
      obtain ⟨before, hb⟩ := exists_course_of_wasOperational id (by simpa using ho)
      rw [hcourse, ← hafter] at hb
      exact hfaults.failed.unannounced before hb

end Host

end TwinLink
