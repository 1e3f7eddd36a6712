import TwinLink.Proofs.Session.Exchanges
import TwinLink.Proofs.Session.Failures

/-!
# Starts of a session

A start resets the device, has it describe itself, makes each interface known to the twin and then tells the observers.
Whatever fails on the way ends it there, and the session with it. Only one start ever gets so far as to take the byte
stream.

* `Moment.takesStream`, `Moment.heard` : the start that takes the stream, and what it hears from the device;
* `Host.course` : the calls of a start to the twin, and every announcement that the session is ready;
* `Described`, `Told`, `Failed` : how far a start has got; `StartsAt` : at each of its points;
* `Starting` : every start is where its record says; `Starting.acts`, `Host.starting_run`.
-/

namespace TwinLink

variable {h h' : Host} {c : Call} {q p : Point} {m : Move} {a : Action} {l : Link} {s : Session}
  {notes : List Happening} {own : Bool}

/-! ## The course of a start -/

/-- The entry belongs to the course of a start, `own` telling whether it is by the call of the start: a call to the twin
of its own, an observer told of the device, the session operational. -/
def Happening.marks (own : Bool) : Happening → Bool
  | .toldTwin .. => own
  | .discovered .. => true
  | .logged (.phaseChanged _ after) => after == .operational
  | _ => false

/-- What some happenings, newest first, add to the course of a start. -/
def courseOf (own : Bool) (notes : List Happening) : List Happening := (notes.filter (·.marks own)).reverse

/-- The calls to the twin that the call `id` has made, and all that announced the device: the observers told of it and
the changes to operational, whoever made them. Oldest first. -/
def Host.course (h : Host) (id : Nat) : List Happening :=
  ((h.history.filter fun n => n.what.marks (n.actor == .call id)).map (·.what)).reverse

@[simp] theorem courseOf_nil : courseOf own [] = [] := rfl

@[simp] theorem courseOf_append (xs ys : List Happening) :
    courseOf own (xs ++ ys) = courseOf own ys ++ courseOf own xs := by
  simp [courseOf]

@[simp] theorem courseOf_answered (answer : Answer) (notes : List Happening) :
    courseOf own (.answered answer :: notes) = courseOf own notes := rfl

@[simp] theorem courseOf_handshakeFailed (e : SessionError) (notes : List Happening) :
    courseOf own (.logged (.handshakeFailed e) :: notes) = courseOf own notes := rfl

/-- Only the phase in which a session can be used is an announcement. -/
theorem courseOf_phaseChange {before after : Phase} (hne : after ≠ .operational) :
    courseOf own (phaseChange before after) = [] := by
  unfold phaseChange
  split
  · rfl
  · simp [courseOf, Happening.marks, hne]

namespace Host

theorem course_append {added : List Note} (hn : h'.history = added ++ h.history) (id : Nat) :
    h'.course id = h.course id ++
      ((added.filter fun n => n.what.marks (n.actor == .call id)).map (·.what)).reverse := by
  simp [course, hn]

/-- What an actor does adds to a course what it adds by itself. -/
theorem course_actor {actor : Actor} {time : Nat} {happenings : List Happening}
    (hn : h'.history = happenings.map (⟨actor, time, ·⟩) ++ h.history) (id : Nat) :
    h'.course id = h.course id ++ courseOf (actor == .call id) happenings := by
  rw [course_append hn, List.filter_map, List.map_map]
  congr 2
  exact List.map_id _

/-- A session that has been operational was announced to be. -/
theorem exists_course_of_wasOperational (id : Nat) (ho : h.wasOperational) :
    ∃ before, .logged (.phaseChanged before .operational) ∈ h.course id := by
  obtain ⟨x, hx, he⟩ := List.any_eq_true.mp ho
  obtain ⟨n, hn, hc⟩ := List.mem_filterMap.mp (List.mem_reverse.mp hx)
  obtain ⟨note, hnote, rfl⟩ := List.mem_map.mp hn
  have he : x.2 = .operational := by simpa using he
  have hwhat : note.what = .logged (.phaseChanged x.1 .operational) := by
    unfold Happening.phaseChange? at hc
    split at hc
    · rename_i hw
      cases hc
      rw [hw, ← he]
    · cases hc
  refine ⟨x.1, List.mem_reverse.mpr (List.mem_map.mpr ⟨note, List.mem_filter.mpr ⟨hnote, ?_⟩, hwhat⟩)⟩
  rw [hwhat]
  rfl

end Host

/-! ## What adds to the course of a start -/

theorem Attempts.unmarked {stage : Stage} {retries : Nat} (ha : Attempts l s notes stage retries m)
    (hn : courseOf own notes = []) : courseOf own m.happenings = [] := by
  cases ha with
  | opened ho => exact hn
  | closed reason hc => simp [Move.faulting, Move.happenings, hn, courseOf_phaseChange]

theorem Fails.unmarked {purpose : Purpose} {e : LinkError} (hf : Fails h l notes purpose e m)
    (hn : courseOf own notes = []) : courseOf own m.happenings = [] := by
  cases hf with
  | direct | operation => exact hn
  | retry => exact hn
  | fault => simp [Move.faulting, Move.happenings, hn, courseOf_phaseChange]

/-- Outside the handshake nothing adds to the course of a start, and a call adds to its own only as an operation. -/
theorem CallMove.unmarked (hm : CallMove h c q m) (hq : q.phase? = none) (hp : own = true → q.plan? = none) :
    courseOf own m.happenings = [] := by
  cases hm with
  | begin hm =>
    cases hm with
    | start hp' ht ha => exact ha.unmarked (courseOf_phaseChange (by decide))
    | closeIdle hl | close hl => simp [Move.happenings, courseOf_phaseChange]
    | _ => rfl
  | shutOut frame ticket limit purpose hc hf => exact hf.unmarked rfl
  | unwritten ticket limit purpose e hr hf => exact hf.unmarked rfl
  | failed ticket limit alarm purpose e hd hf => exact hf.unmarked rfl
  | timedOut ticket limit alarm purpose hd ha hf => exact hf.unmarked rfl
  | taken ticket limit alarm plan p hd value hr hk hc =>
    cases own with
    | false => rfl
    | true => cases hp rfl
  | updated plan value pending ha =>
    cases hr : pending.refusal <;> simp [Move.happenings, courseOf, Happening.marks]
  | acknowledged | misdescribed | described | paused | asked | skipped | refused | registered | started => cases hq
  | _ => rfl

theorem LoopMove.unmarked {q : LoopPoint} {t : LoopTurn} (hm : LoopMove h q t) : courseOf own t.notes = [] := by
  cases hm <;> simp [Host.loopEnd, courseOf, Happening.marks]

/-- No step of the dispatcher adds to the course of a start. -/
theorem DispatchMove.unmarked {q : DispatchPoint} {t : DispatchTurn} (hm : DispatchMove h q t) :
    courseOf false t.notes = [] := by
  cases hm with
  | drops he hp hd hu =>
    have hr := Descriptor.understand_remark hu
    rename_i r
    cases r <;> first | rfl | cases hr
  | reports he hp hd hu => simp [courseOf, Happening.marks]
  | ends he hn =>
    subst hn
    split
    · rfl
    · rw [courseOf_append, courseOf_phaseChange (by decide)]
      rfl
  | @reported call pending ha =>
    cases pending.refusal with
    | none => rfl
    | some text => cases call <;> rfl
  | _ => rfl

/-! ## How far a start has got -/

/-- What a call hears from the device: the reply to its request of the handshake, as it takes it up. -/
def Host.hearing (h : Host) (c : Call) : Option (Nat × Stage × Packet) :=
  match c.point with
  | .awaiting ticket _ _ (.handshake stage _) =>
    match h.link.delivery? ticket.id with
    | some (.ok p) => some (c.id, stage, p)
    | _ => none
  | _ => none

namespace Moment

/-- The start that takes the byte stream. -/
def takesStream (m : Moment) : Option Nat :=
  m.mover.bind fun c => match c.point with
    | .begun .start => if m.host.session.phase = .faulted ∨ m.host.session.portTaken then none else some c.id
    | _ => none

/-- The start that takes up a reply of the device, with the request that it answers. -/
def heard (m : Moment) : Option (Nat × Stage × Packet) := m.mover.bind m.host.hearing

end Moment

/-- What is known of the starts of a session: which have taken the byte stream, what they have heard, and all that was
matched. -/
structure StartRecord where
  takers : List Nat := []
  heard : List (Nat × Stage × Packet) := []
  served : List (Waiter × Packet) := []

/-- The record of a run. -/
def Host.startRecord (h : Host) (as : List Action) : StartRecord where
  takers := (h.moments as).filterMap Moment.takesStream
  heard := (h.moments as).filterMap Moment.heard
  served := (h.moments as).filterMap Moment.served

/-- The record after another moment. -/
def StartRecord.add (r : StartRecord) (m : Moment) : StartRecord where
  takers := r.takers ++ m.takesStream.toList
  heard := r.heard ++ m.heard.toList
  served := r.served ++ m.served.toList

theorem Host.startRecord_concat (h : Host) (as : List Action) (a : Action) :
    h.startRecord (as ++ [a]) = (h.startRecord as).add ⟨h.run as, a⟩ := by
  simp only [startRecord, StartRecord.add, seen_concat]

/-- The start `id` has reached the request of this stage, for which it may have registered with the ticket `next`: before
the second request the reply to the first was matched. -/
def StartRecord.Reached (r : StartRecord) (id : Nat) (next : Option Ticket) : Stage → Prop
  | .reset => r.heard = []
  | .describe => ∃ w p early late, r.heard = [(id, .reset, p)] ∧ r.served = early ++ late ∧ (w, p) ∈ early ∧
      p.type = PacketKind.resetResponse.code ∧ ∀ t ∈ next, ∀ x ∈ early, x.1.id < t.id

/-- The start `id` has heard from the device: the reply to its first request was matched, then the reply to its second,
and that one describes the device `d`. -/
inductive StartRecord.Described (r : StartRecord) (revision : Revision) (id : Nat) (d : Descriptor) : Prop
  | mk (v w : Waiter) (p q : Packet) (hh : r.heard = [(id, .reset, p), (id, .describe, q)])
      (hs : [(v, p), (w, q)].Sublist r.served) (hp : p.type = PacketKind.resetResponse.code)
      (hq : q.type = PacketKind.descriptorResponse.code) (hd : Descriptor.parse revision q.payload = .ok d)

/-- The calls of a start to the twin, with their verdicts: those made so far were accepted and `todo` are still to make,
the first of which may be under way. -/
inductive Told (d : Descriptor) : List TwinCall → Option Pending → List (TwinCall × Verdict) → Prop
  | between (told : List (TwinCall × Verdict)) (todo : List TwinCall) (hd : told.map (·.1) ++ todo = d.registration)
      (ha : ∀ x ∈ told, x.2.accepts) : Told d todo none told
  | within (told : List (TwinCall × Verdict)) (call : TwinCall) (todo : List TwinCall) (v : Verdict) (pending : Pending)
      (hd : told.map (·.1) ++ call :: todo = d.registration) (ha : ∀ x ∈ told, x.2.accepts)
      (hv : pending.refusal = v.refusal) : Told d (call :: todo) (some pending) (told ++ [(call, v)])

/-- A call to the twin as it stands in the history. -/
def toldOf (x : TwinCall × Verdict) : Happening := .toldTwin x.1 x.2

/-- How a start fails: its link fails it, or the device does not describe itself, before any call to the twin; or the twin
refuses the last of the calls that were made. -/
inductive StartRecord.Failed (r : StartRecord) (revision : Revision) (h : Host) (id : Nat) : SessionError → Prop
  | timeout (hc : h.course id = []) : Failed r revision h id (.link .timeout)
  | link (e : LinkError) (hb : h.Broken e) (hc : h.course id = []) : Failed r revision h id (.link e)
  | descriptor (e : DescriptorError) (hc : h.course id = []) : Failed r revision h id (.descriptor e)
  | twin (d : Descriptor) (told : List (TwinCall × Verdict)) (call : TwinCall) (todo : List TwinCall) (v : Verdict)
      (text : String) (hr : r.Described revision id d) (hc : h.course id = (told ++ [(call, v)]).map toldOf)
      (hd : told.map (·.1) ++ call :: todo = d.registration) (ha : ∀ x ∈ told, x.2.accepts)
      (hv : v.refusal = some text) : Failed r revision h id (Host.registrationError call text)

/-- Where the start `id` stands that has taken the byte stream. -/
inductive StartsAt (r : StartRecord) (revision : Revision) (h : Host) (id : Nat) : Point → Prop
  | exchanges (stage : Stage) {q : Point} (hq : q.phase? = some stage.phase) (hr : r.Reached id q.ticket? stage)
      (hc : h.course id = []) : StartsAt r revision h id q
  | registers (d : Descriptor) (todo : List TwinCall) (pending : Option Pending) (told : List (TwinCall × Verdict))
      (hr : r.Described revision id d) (ht : Told d todo pending told) (hc : h.course id = told.map toldOf) :
      StartsAt r revision h id (.registering d todo pending)
  | fails (e : SessionError) (hp : h.session.phase = .faulted) (hc : h.link.table.closed.isSome)
      (hf : r.Failed revision h id e) : StartsAt r revision h id (.shutting (.error (.session e)))

/-! ## What stays true while others move -/

section

variable {r r' : StartRecord} {revision : Revision} {id : Nat}

theorem StartRecord.Reached.mono {next : Option Ticket} {stage : Stage} (hr : r.Reached id next stage)
    (hh : r'.heard = r.heard) {more : List (Waiter × Packet)} (hs : r'.served = r.served ++ more) :
    r'.Reached id next stage := by
  cases stage with
  | reset => exact hh.trans hr
  | describe =>
    obtain ⟨w, p, early, late, hheard, hserved, hrest⟩ := hr
    exact ⟨w, p, early, late ++ more, hh.trans hheard, by rw [hs, hserved, List.append_assoc], hrest⟩

theorem StartRecord.Described.mono {d : Descriptor} (hr : r.Described revision id d) (hh : r'.heard = r.heard)
    {more : List (Waiter × Packet)} (hs : r'.served = r.served ++ more) : r'.Described revision id d := by
  obtain ⟨v, w, p, q, hheard, hserved, hp, hq, hd⟩ := hr
  exact ⟨v, w, p, q, hh.trans hheard, hs ▸ hserved.trans (List.sublist_append_left _ _), hp, hq, hd⟩

theorem StartRecord.Failed.mono {e : SessionError} (hf : r.Failed revision h id e) (hh : r'.heard = r.heard)
    {more : List (Waiter × Packet)} (hs : r'.served = r.served ++ more) (hc : h'.course id = h.course id)
    (ht : h.link.table.closed.isSome → h'.link.table.closed.isSome)
    (hw : h.wire.writeFault.isSome → h'.wire.writeFault.isSome) : r'.Failed revision h' id e := by
  cases hf with
  | timeout hcourse => exact .timeout (hc.trans hcourse)
  | link e hb hcourse => exact .link e (hb.mono ht hw) (hc.trans hcourse)
  | descriptor e hcourse => exact .descriptor e (hc.trans hcourse)
  | twin d told call todo v text hr hcourse hd ha hv =>
    exact .twin d told call todo v text (hr.mono hh hs) (hc.trans hcourse) hd ha hv

theorem StartsAt.keep (hs : StartsAt r revision h id q) (hh : r'.heard = r.heard) {more : List (Waiter × Packet)}
    (hse : r'.served = r.served ++ more) (hc : h'.course id = h.course id)
    (hp : h.session.phase = .faulted → h'.session.phase = .faulted)
    (ht : h.link.table.closed.isSome → h'.link.table.closed.isSome)
    (hw : h.wire.writeFault.isSome → h'.wire.writeFault.isSome) : StartsAt r' revision h' id q := by
  cases hs with
  | exchanges stage hq hr hcourse => exact .exchanges stage hq (hr.mono hh hse) (hc.trans hcourse)
  | registers d todo pending told hr htold hcourse =>
    exact .registers d todo pending told (hr.mono hh hse) htold (hc.trans hcourse)
  | fails e hf hcl hfail => exact .fails e (hp hf) (ht hcl) (hfail.mono hh hse hc ht hw)

/-! ## Moves of a start -/

theorem Host.Leaves.course (hl : h.Leaves c m h') (id : Nat) :
    h'.course id = h.course id ++ courseOf (c.id == id) m.happenings := by
  rw [Host.course_actor hl.history]
  congr 2
  simp [BEq.beq]

theorem Host.Leaves.course_eq (hl : h.Leaves c m h') (hc : courseOf true m.happenings = []) :
    h'.course c.id = h.course c.id := by
  rw [hl.course, beq_self_eq_true, hc, List.append_nil]

theorem Host.Leaves.writeFault (hl : h.Leaves c m h') : h'.wire.writeFault = h.wire.writeFault := by rw [hl.wire]

/-- A start that repeats a request or makes the next one has registered for the reply, or the link is closed. -/
theorem Attempts.starts {stage : Stage} {retries : Nat} {keeps : Bool} (ha : Attempts l s notes stage retries m)
    (hl : h.Leaves c m h') (hg : m.fate = .goes p keeps) (hn : courseOf true notes = []) (hc : h.course c.id = [])
    (hr : ∀ t : Ticket, t.id = l.table.nextId → r.Reached c.id (some t) stage) : StartsAt r revision h' c.id p := by
  have hcourse : h'.course c.id = [] := (hl.course_eq (ha.unmarked hn)).trans hc
  cases ha with
  | opened ho =>
    cases hg
    exact .exchanges stage rfl (hr _ rfl) hcourse
  | closed reason hcl =>
    cases hg
    have hclosed : h'.link.table.closed.isSome := by rw [hl.link]; rfl
    exact .fails _ (by rw [hl.session]; rfl) hclosed (.link _ ⟨hclosed, .inl ⟨reason, rfl⟩⟩ hcourse)

/-- A start whose request has failed repeats it, or has failed. -/
theorem Fails.starts {stage : Stage} {retries : Nat} {e : LinkError} {keeps : Bool}
    (hf : Fails h l notes (.handshake stage retries) e m) (hl : h.Leaves c m h') (hg : m.fate = .goes p keeps)
    (hn : courseOf true notes = []) (hc : h.course c.id = []) (hr : r.Reached c.id none stage)
    (he : e = .timeout ∨ h.Broken e) : StartsAt r revision h' c.id p := by
  have hcourse : h'.course c.id = [] := (hl.course_eq (hf.unmarked hn)).trans hc
  cases hf with
  | retry =>
    cases hg
    exact .exchanges stage rfl hr hcourse
  | fault stage retries e hno =>
    cases hg
    have hclosed : h'.link.table.closed.isSome := by rw [hl.link]; rfl
    refine .fails _ (by rw [hl.session]; rfl) hclosed ?_
    rcases he with rfl | hb
    · exact .timeout hcourse
    · exact .link e (hb.mono (fun _ => hclosed) (by rw [hl.writeFault]; exact id)) hcourse

theorem StartRecord.Reached.next {stage : Stage} {next next' : Option Ticket} (hr : r.Reached id next stage)
    (hn : ∀ t ∈ next', t ∈ next ∨ ∀ x ∈ r.served, x.1.id < t.id) : r.Reached id next' stage := by
  cases stage with
  | reset => exact hr
  | describe =>
    obtain ⟨w, p, early, late, hheard, hserved, hw, hp, hlt⟩ := hr
    refine ⟨w, p, early, late, hheard, hserved, hw, hp, fun t ht => ?_⟩
    rcases hn t ht with ht | ht
    · exact hlt t ht
    · intro x hx
      rw [hserved] at ht
      exact ht x (List.mem_append_left _ hx)

/-- What the record knows of the packets that are matched. -/
structure StartRecord.Matches (r : StartRecord) (h : Host) : Prop where
  older : ∀ x ∈ r.served, x.1.id < h.link.table.nextId
  heard : ∀ c ∈ h.calls, ∀ t limit alarm stage retries p, c.point = .awaiting t limit alarm (.handshake stage retries) →
    h.link.delivery? t.id = some (.ok p) → ∃ w, (w, p) ∈ r.served ∧ w.ticket = t ∧ p.type = stage.response.code

/-- The record after a step of the call `c`. -/
def StartRecord.hear (r : StartRecord) (h : Host) (c : Call) : StartRecord :=
  { r with heard := r.heard ++ (h.hearing c).toList }

theorem StartRecord.hear_of_none (r : StartRecord) (hn : h.hearing c = none) : r.hear h c = r := by
  unfold hear
  rw [hn]
  exact congrArg (StartRecord.mk r.takers · r.served) (List.append_nil _)

theorem Stage.phase_inj {stage stage' : Stage} (he : stage.phase = stage'.phase) : stage = stage' := by
  cases stage <;> cases stage' <;> first | rfl | cases he

theorem Purpose.phase?_eq {purpose : Purpose} {stage : Stage} (hp : purpose.phase? = some stage.phase) :
    ∃ retries, purpose = .handshake stage retries := by
  cases purpose with
  | handshake stage' retries => exact ⟨retries, by rw [Stage.phase_inj (Option.some.inj hp)]⟩
  | _ => cases hp

/-- A start that hears the reply to its first request has reached the second. -/
theorem StartRecord.Reached.acknowledged {w : Waiter} {reply : Packet} {next : Option Ticket}
    (hr : r.Reached c.id next .reset) (hh : h.hearing c = some (c.id, .reset, reply)) (hw : (w, reply) ∈ r.served)
    (htype : reply.type = PacketKind.resetResponse.code) {t : Ticket} (ht : ∀ x ∈ r.served, x.1.id < t.id) :
    (r.hear h c).Reached c.id (some t) .describe := by
  refine ⟨w, reply, r.served, [], ?_, (List.append_nil _).symm, hw, htype, fun t' ht' x hx => ?_⟩
  · rw [StartRecord.hear, hh, show r.heard = [] from hr]
    rfl
  · cases ht'
    exact ht x hx

/-- A start that hears the reply to its second request has heard what the device is. -/
theorem StartRecord.Reached.described {w : Waiter} {reply : Packet} {ticket : Ticket} {d : Descriptor}
    (hr : r.Reached c.id (some ticket) .describe) (hh : h.hearing c = some (c.id, .describe, reply))
    (hw : (w, reply) ∈ r.served) (ht : w.ticket = ticket) (htype : reply.type = PacketKind.descriptorResponse.code)
    (hd : Descriptor.parse revision reply.payload = .ok d) : (r.hear h c).Described revision c.id d := by
  obtain ⟨v, first, early, late, hheard, hserved, hv, hfirst, hlt⟩ := hr
  -- the second reply was not matched among the early ones, as its registration is younger
  have hlate : (w, reply) ∈ late := by
    rw [hserved] at hw
    refine (List.mem_append.mp hw).resolve_left fun he => ?_
    have hless := hlt ticket rfl _ he
    rw [← ht] at hless
    exact Nat.lt_irrefl _ hless
  refine ⟨v, w, first, reply, ?_, ?_, hfirst, htype, hd⟩
  · rw [StartRecord.hear, hh, hheard]
    rfl
  · show [(v, first), (w, reply)].Sublist r.served
    rw [hserved]
    exact (List.singleton_sublist.mpr hv).append (List.singleton_sublist.mpr hlate)

/-- **A start that exchanges packets with the device** goes on with that, hears the reply, or has failed. -/
theorem StartsAt.exchange {stage : Stage} {keeps : Bool} (hpt : c.point = q) (hq : q.phase? = some stage.phase)
    (hr : r.Reached c.id q.ticket? stage) (hcourse : h.course c.id = []) (hm : CallMove h c q m)
    (hl : h.Leaves c m h') (hc : c ∈ h.calls) (hmt : r.Matches h) (hcand : h.Candid)
    (hrev : h.session.config.revision = revision) (hg : m.fate = .goes p keeps) :
    StartsAt (r.hear h c) revision h' c.id p := by
  -- nothing is heard but the packet that a call waits for
  have hsilent : h.hearing c = none → r.hear h c = r := r.hear_of_none
  have hdropped : r.Reached c.id none stage := hr.next nofun
  cases hm with
  | entered frame ticket limit purpose ho =>
    cases hg
    rw [hsilent (by rw [Host.hearing, hpt])]
    exact .exchanges stage hq hr ((hl.course_eq rfl).trans hcourse)
  | shutOut frame ticket limit purpose hcl hf =>
    obtain ⟨retries, rfl⟩ := Purpose.phase?_eq hq
    rw [hsilent (by rw [Host.hearing, hpt])]
    exact hf.starts hl hg rfl hcourse hdropped (.inr (hcand.refused hcl))
  | unwritten ticket limit purpose e hre hf =>
    obtain ⟨retries, rfl⟩ := Purpose.phase?_eq hq
    rw [hsilent (by rw [Host.hearing, hpt])]
    exact hf.starts hl hg rfl hcourse hdropped (.inr (hcand.receipts _ _ hre))
  | written ticket limit purpose hre =>
    cases hg
    rw [hsilent (by rw [Host.hearing, hpt])]
    exact .exchanges stage hq hr ((hl.course_eq rfl).trans hcourse)
  | failed ticket limit alarm purpose e hd hf =>
    obtain ⟨retries, rfl⟩ := Purpose.phase?_eq hq
    rw [hsilent (by simp only [Host.hearing, hpt, hd])]
    exact hf.starts hl hg rfl hcourse hdropped (.inr (hcand.deliveries c hc ticket (by rw [hpt]; rfl) e hd))
  | timedOut ticket limit alarm purpose hd ha hf =>
    obtain ⟨retries, rfl⟩ := Purpose.phase?_eq hq
    rw [hsilent (by simp only [Host.hearing, hpt, hd])]
    exact hf.starts hl hg rfl hcourse hdropped (.inl rfl)
  | acknowledged ticket limit alarm retries reply hd ha =>
    obtain rfl : stage = .reset := Stage.phase_inj (Option.some.inj hq).symm
    obtain ⟨w, hw, -, htype⟩ := hmt.heard c hc ticket limit alarm .reset retries reply hpt hd
    refine ha.starts hl hg ?_ hcourse fun t ht => hr.acknowledged (by simp only [Host.hearing, hpt, hd]) hw htype ?_
    · rw [courseOf_append, courseOf_phaseChange (by decide)]
      rfl
    · rw [ht]
      exact hmt.older
  | misdescribed ticket limit alarm retries reply hd e hp =>
    cases hg
    have hclosed : h'.link.table.closed.isSome := by rw [hl.link]; rfl
    refine .fails _ (by rw [hl.session]; rfl) hclosed (.descriptor e ?_)
    refine (hl.course_eq ?_).trans hcourse
    simp [Move.faulting, Move.happenings, courseOf_phaseChange]
  | described ticket limit alarm retries reply hd d hp =>
    cases hg
    obtain rfl : stage = .describe := Stage.phase_inj (Option.some.inj hq).symm
    obtain ⟨w, hw, ht, htype⟩ := hmt.heard c hc ticket limit alarm .describe retries reply hpt hd
    have hdescribed : (r.hear h c).Described revision c.id d :=
      hr.described (by simp only [Host.hearing, hpt, hd]) hw ht htype (hrev ▸ hp)
    refine .registers d _ none [] hdescribed (.between [] _ rfl (List.forall_mem_nil _)) ((hl.course_eq ?_).trans hcourse)
    simp [Move.happenings, courseOf, Happening.marks, phaseChange]
  | paused alarm stage' retries ha hm =>
    obtain rfl : stage = stage' := Stage.phase_inj (Option.some.inj hq).symm
    rw [hsilent (by rw [Host.hearing, hpt])]
    exact hm.starts hl hg rfl hcourse fun t ht => hr.next fun t' ht' => .inr fun x hx => by
      cases ht'
      rw [ht]
      exact hmt.older x hx
  | asked | skipped | refused | registered | started => cases stage <;> cases hq
  | queued | sent => cases hg
  | _ => cases hq

/-- **A start that makes the device known to the twin** makes the next call, or has failed. -/
theorem StartsAt.register {d : Descriptor} {todo : List TwinCall} {pending : Option Pending}
    {told : List (TwinCall × Verdict)} {keeps : Bool} (hpt : c.point = .registering d todo pending)
    (hr : r.Described revision c.id d) (ht : Told d todo pending told) (hcourse : h.course c.id = told.map toldOf)
    (hm : CallMove h c (.registering d todo pending) m) (hl : h.Leaves c m h') (hg : m.fate = .goes p keeps) :
    StartsAt (r.hear h c) revision h' c.id p := by
  rw [r.hear_of_none (by rw [Host.hearing, hpt])]
  cases hm with
  | asked d call todo =>
    cases hg
    obtain ⟨told, todo, hd, ha⟩ := ht
    refine .registers d _ _ _ hr (.within told call _ (h.session.twin h.session.asked call) _ hd ha rfl) ?_
    rw [hl.course, hcourse, beq_self_eq_true, List.map_append]
    rfl
  | skipped d pending => cases ht
  | refused d call todo pending hdue text hre =>
    cases hg
    cases ht with
    | within told call todo v pending hd ha hv =>
      have hclosed : h'.link.table.closed.isSome := by rw [hl.link]; rfl
      refine .fails _ (by rw [hl.session]; rfl) hclosed (.twin d told call todo v text hr ?_ hd ha (hv ▸ hre))
      refine (hl.course_eq ?_).trans hcourse
      simp [Move.faulting, Move.happenings, courseOf_phaseChange]
  | registered d call todo pending hdue hre =>
    cases hg
    cases ht with
    | within told call todo v pending hd ha hv =>
      refine .registers d todo none _ hr (.between _ todo ?_ fun x hx => ?_) ((hl.course_eq rfl).trans hcourse)
      · rw [List.map_append, List.append_assoc]
        exact hd
      · rcases List.mem_append.mp hx with hx | hx
        · exact ha x hx
        · obtain rfl := List.mem_singleton.mp hx
          rw [Verdict.accepts, ← hv, hre]
          rfl
  | started d => cases hg

/-- A start that goes on has got further, or has failed. -/
theorem StartsAt.move {keeps : Bool} (hs : StartsAt r revision h c.id c.point) (hm : CallMove h c c.point m)
    (hl : h.Leaves c m h') (hc : c ∈ h.calls) (hmt : r.Matches h) (hcand : h.Candid)
    (hrev : h.session.config.revision = revision) (hg : m.fate = .goes p keeps) :
    StartsAt (r.hear h c) revision h' c.id p := by
  generalize hpt : c.point = q at hs hm
  cases hs with
  | exchanges stage hq hr hcourse => exact exchange hpt hq hr hcourse hm hl hc hmt hcand hrev hg
  | registers d todo pending told hr ht hcourse => exact register hpt hr ht hcourse hm hl hg
  | fails e hp hcl hf => cases hm <;> cases hg

end

/-! ## The configuration -/

theorem CallMove.config (hm : CallMove h c q m) : m.session.config = h.session.config := by
  have hattempts : ∀ {l : Link} {s : Session} {notes : List Happening} {stage : Stage} {retries : Nat},
      Attempts l s notes stage retries m → s.config = h.session.config → m.session.config = h.session.config :=
    fun ha hs => by cases ha <;> exact hs
  have hfails : ∀ {l : Link} {notes : List Happening} {purpose : Purpose} {e : LinkError},
      Fails h l notes purpose e m → m.session.config = h.session.config := fun hf => by cases hf <;> rfl
  cases hm with
  | begin hm =>
    cases hm with
    | start hp ht ha => exact hattempts ha rfl
    | _ => rfl
  | locked | lockedClosed | lined => exact Session.setLock_config _ _ _
  | shutOut frame ticket limit purpose hc hf => exact hfails hf
  | unwritten ticket limit purpose e hr hf => exact hfails hf
  | failed ticket limit alarm purpose e hd hf => exact hfails hf
  | timedOut ticket limit alarm purpose hd ha hf => exact hfails hf
  | acknowledged ticket limit alarm retries p hd ha => exact hattempts ha rfl
  | paused alarm stage retries ha hm => exact hattempts hm rfl
  | _ => rfl

theorem Session.vacate_config (s : Session) (c : Call) : (s.vacate c).config = s.config := by
  unfold vacate
  cases c.point.plan? with
  | none => rfl
  | some plan => exact s.setLock_config _ _

/-- A session is configured once. -/
theorem Acts.config (ha : Acts h a h') : h'.session.config = h.session.config := by
  cases ha with
  | loop i hm ht => rw [ht.session]
  | dispatcher i hm ht =>
    rw [ht.session]
    generalize h.session.dispatch = q at hm
    cases hm <;> rfl
  | @call _ i c m _ hc hm hl =>
    rw [hl.session, Move.sessionAfter]
    split
    · rw [Session.vacate_config, hm.config]
    · exact hm.config
  | abandon hc released hr ready => exact Session.vacate_config _ _
  | _ => rfl

/-! ## Every start -/

section

variable {r : StartRecord} {config : SessionConfig}

/-- A call that is in no phase of the handshake enters it only as a start that takes the byte stream. -/
theorem CallMove.begins {keeps : Bool} (hm : CallMove h c q m) (hq : q.phase? = none)
    (hg : m.fate = .goes p keeps) (hp : p.phase? ≠ none ∨ ∃ e, p = .shutting (.error e)) :
    q = .begun .start ∧ h.session.phase ≠ .faulted ∧ h.session.portTaken = false := by
  have hquiet : p.phase? = none → (∀ e, p ≠ .shutting (.error e)) →
      q = .begun .start ∧ h.session.phase ≠ .faulted ∧ h.session.portTaken = false := fun hn he =>
    hp.elim (fun h => absurd hn h) fun ⟨e, h⟩ => absurd h (he e)
  have hfails : ∀ {l : Link} {notes : List Happening} {purpose : Purpose} {e : LinkError},
      purpose.phase? = none → ¬Fails h l notes purpose e m := fun hn hf => by
    cases hf with
    | direct | operation => cases hg
    | retry | fault => cases hn
  cases hm with
  | begin hm =>
    cases hm with
    | start hph ht ha => exact ⟨rfl, hph, ht⟩
    | send | exchange | receive | await | operate | twinOperate => cases hg; exact hquiet rfl nofun
    | shutDown | close => cases hg; exact hquiet rfl nofun
    | _ => cases hg
  | locked | taken => cases hg; exact hquiet rfl nofun
  | entered | written => cases hg; exact hquiet hq nofun
  | shutOut frame ticket limit purpose hc hf => exact (hfails hq hf).elim
  | unwritten ticket limit purpose e hr hf => exact (hfails hq hf).elim
  | failed ticket limit alarm purpose e hd hf => exact (hfails hq hf).elim
  | timedOut ticket limit alarm purpose hd ha hf => exact (hfails hq hf).elim
  | acknowledged | misdescribed | described | paused | asked | skipped | refused | registered | started => cases hq
  | _ => cases hg

/-- A call that stays where it is leaves all but locks and lines alone. -/
theorem CallMove.stays_quiet (hm : CallMove h c c.point m) (hf : m.fate = .stays) :
    m.notes = [] ∧ m.session.phase = h.session.phase ∧ h.hearing c = none := by
  have hfails : ∀ {l : Link} {notes : List Happening} {purpose : Purpose} {e : LinkError},
      ¬Fails h l notes purpose e m := fun h => by cases h <;> cases hf
  have hattempts : ∀ {l : Link} {s : Session} {notes : List Happening} {stage : Stage} {retries : Nat},
      ¬Attempts l s notes stage retries m := fun h => by cases h <;> cases hf
  generalize hpt : c.point = q at hm
  cases hm with
  | begin hm =>
    cases hm with
    | start hp ht ha => exact (hattempts ha).elim
    | _ => cases hf
  | lined plan => exact ⟨rfl, Session.setLock_phase _ _ _, by rw [Host.hearing, hpt]⟩
  | queued | telling => exact ⟨rfl, rfl, by rw [Host.hearing, hpt]⟩
  | shutOut frame ticket limit purpose hc h => exact (hfails h).elim
  | unwritten ticket limit purpose e hr h => exact (hfails h).elim
  | failed ticket limit alarm purpose e hd h => exact (hfails h).elim
  | timedOut ticket limit alarm purpose hd ha h => exact (hfails h).elim
  | acknowledged ticket limit alarm retries p hd ha => exact (hattempts ha).elim
  | paused alarm stage retries ha hm => exact (hattempts hm).elim
  | _ => cases hf

theorem Host.Refuses.waits (hr : h.Refuses a) (hc : (Moment.mk h a).mover = some c) : h.pointStep c = none := by
  unfold Moment.mover at hc
  split at hc
  · rename_i id i ha
    obtain rfl : a = _ := ha
    have hr : (h.call? id).bind h.pointStep = none := hr
    have hc : h.call? id = some c := hc
    rwa [hc] at hr
  · cases hc

/-- A call that has to wait hears nothing, and it is not about to begin. -/
theorem Host.hearing_of_waits (hw : h.pointStep c = none) : h.hearing c = none ∧ ∀ r, c.point ≠ .begun r := by
  refine ⟨?_, fun r hr => ?_⟩
  · unfold hearing
    split
    · rename_i ticket limit alarm stage retries hpt
      split
      · rename_i p hd
        unfold pointStep waitStep at hw
        rw [hpt] at hw
        simp only [hd] at hw
        cases hw
      · rfl
    · rfl
  · unfold pointStep at hw
    rw [hr] at hw
    cases hw

theorem Moment.takesStream_cases {mo : Moment} (hc : mo.mover = some c) :
    mo.takesStream = some c.id ∧ c.point = .begun .start ∧ mo.host.session.phase ≠ .faulted ∧
      mo.host.session.portTaken = false ∨
    mo.takesStream = none ∧ (c.point = .begun .start → mo.host.session.phase = .faulted ∨ mo.host.session.portTaken) := by
  unfold takesStream
  rw [hc, Option.bind_some]
  split
  · rename_i hpt
    split
    · exact .inr ⟨rfl, fun _ => ‹_›⟩
    · rename_i hno
      simp only [not_or, Bool.not_eq_true] at hno
      exact .inl ⟨rfl, hpt, hno.1, hno.2⟩
  · rename_i hpt
    exact .inr ⟨rfl, fun h => absurd h hpt⟩

/-- Only a call in the handshake hears from the device. -/
theorem Host.hearing_of_phase (hq : c.point.phase? = none) : h.hearing c = none := by
  unfold hearing
  split
  · rename_i hpt
    rw [hpt] at hq
    cases hq
  · rfl

/-- Every start that has taken the byte stream is where its record says, and no other call is in the handshake. -/
structure Starting (r : StartRecord) (config : SessionConfig) (h : Host) : Prop where
  configured : h.session.config = config
  one : r.takers.length ≤ 1
  idle : h.session.portTaken = false → r.takers = [] ∧ r.heard = [] ∧ ∀ id, h.course id = []
  made : ∀ id ∈ r.takers, id < h.made
  ours : ∀ c ∈ h.calls, (c.point.phase? ≠ none ∨ ∃ e, c.point = .shutting (.error e)) → c.id ∈ r.takers
  stands : ∀ c ∈ h.calls, c.id ∈ r.takers → StartsAt r config.revision h c.id c.point

namespace Starting

theorem ofSession (config : SessionConfig) (twin : Twin) : Starting {} config (.ofSession config twin) :=
  ⟨rfl, Nat.zero_le _, fun _ => ⟨rfl, rfl, fun _ => rfl⟩, List.forall_mem_nil _, List.forall_mem_nil _,
    List.forall_mem_nil _⟩

theorem takers_eq (hs : Starting r config h) {id : Nat} (hi : id ∈ r.takers) : r.takers = [id] := by
  obtain ⟨x, hx⟩ := List.length_eq_one_iff.mp (Nat.le_antisymm hs.one (List.length_pos_of_mem hi))
  rw [hx, List.mem_singleton] at hi
  rw [hx, hi]

theorem eq_of_takers (hs : Starting r config h) {id id' : Nat} (hi : id ∈ r.takers) (hi' : id' ∈ r.takers) :
    id = id' := by
  rw [hs.takers_eq hi', List.mem_singleton] at hi
  exact hi

theorem portTaken (hs : Starting r config h) {id : Nat} (hi : id ∈ r.takers) : h.session.portTaken = true := by
  by_contra ht
  rw [(hs.idle (by simpa using ht)).1] at hi
  cases hi

/-- No start takes the stream, and nothing happens to those that have. -/
theorem quiet (hs : Starting r config h) {m : Moment} (ht : m.takesStream = none) (hh : m.heard = none)
    (hconfig : h'.session.config = h.session.config)
    (hport : h'.session.portTaken = false → h.session.portTaken = false) (hmade : h.made ≤ h'.made)
    (hcalls : ∀ c ∈ h'.calls, c ∈ h.calls ∨
      c.id ∉ r.takers ∧ c.point.phase? = none ∧ ∀ e, c.point ≠ .shutting (.error e))
    (hcourse : ∀ id, id ∈ r.takers ∨ h.session.portTaken = false → h'.course id = h.course id)
    (hphase : h.session.phase = .faulted → h'.session.phase = .faulted)
    (hclosed : h.link.table.closed.isSome → h'.link.table.closed.isSome)
    (hfault : h.wire.writeFault.isSome → h'.wire.writeFault.isSome) : Starting (r.add m) config h' := by
  have htakers : (r.add m).takers = r.takers := by simp [StartRecord.add, ht]
  have hheard : (r.add m).heard = r.heard := by simp [StartRecord.add, hh]
  refine ⟨hconfig.trans hs.configured, htakers ▸ hs.one, fun hi => ?_, fun id hi => ?_, fun c hc hq => ?_,
    fun c hc hi => ?_⟩
  · obtain ⟨h1, h2, h3⟩ := hs.idle (hport hi)
    exact ⟨htakers.trans h1, hheard.trans h2, fun id => (hcourse id (.inr (hport hi))).trans (h3 id)⟩
  · exact Nat.lt_of_lt_of_le (hs.made id (htakers ▸ hi)) hmade
  · rw [htakers]
    rcases hcalls c hc with hc | ⟨-, hn, he⟩
    · exact hs.ours c hc hq
    · exact hq.elim (fun h => absurd hn h) fun ⟨e, h⟩ => absurd h (he e)
  · rw [htakers] at hi
    have hc := (hcalls c hc).resolve_right fun hn => hn.1 hi
    exact (hs.stands c hc hi).keep hheard rfl (hcourse _ (.inl hi)) hphase hclosed hfault

/-- A start takes the byte stream. -/
theorem take (hs : Starting r config h) (ho : Orderly h) {mo : Moment} (hc : c ∈ h.calls)
    (hm : CallMove h c (.begun .start) m) (hl : h.Leaves c m h') (hph : h.session.phase ≠ .faulted)
    (ht : h.session.portTaken = false) (hmt : mo.takesStream = some c.id) (hmh : mo.heard = none) :
    Starting (r.add mo) config h' := by
  obtain ⟨hnone, hheard, hcourse⟩ := hs.idle ht
  have htakers : (r.add mo).takers = [c.id] := by simp [StartRecord.add, hmt, hnone]
  have hheard' : (r.add mo).heard = [] := by simp [StartRecord.add, hmh, hheard]
  have hidle := (ho.idle ht).2.2
  have hconfig : h'.session.config = h.session.config := by
    rw [hl.session, Move.sessionAfter]
    split
    · rw [Session.vacate_config, hm.config]
    · exact hm.config
  cases hm with
  | begin hm =>
    cases hm with
    | startFaulted hp => exact absurd hp hph
    | startTaken hp ht' => rw [ht] at ht'; cases ht'
    | start hp ht' ha =>
      obtain ⟨p, keeps, hg⟩ : ∃ p keeps, m.fate = .goes p keeps := by
        cases ha <;> exact ⟨_, _, rfl⟩
      have hmem : ∀ x ∈ h'.calls, x ∈ h.calls ∧ x.id ≠ c.id ∨ x.id = c.id ∧ x.point = p := by
        intro x hx
        rcases ho.numbered.mem_callsAfter hc (hl.calls ▸ hx) with hx | ⟨p', keeps', hf, rfl⟩ | ⟨hf, -⟩
        · exact .inl hx
        · rw [hg] at hf
          cases hf
          exact .inr ⟨rfl, rfl⟩
        · rw [hg] at hf
          cases hf
      have hport : h'.session.portTaken = true := by rw [hl.session, m.sessionAfter_portTaken, ha.loop.2]
      refine ⟨hconfig.trans hs.configured, by rw [htakers]; exact Nat.le_refl _, fun hi => ?_, fun id hi => ?_,
        fun x hx hq => ?_, fun x hx hi => ?_⟩
      · rw [hport] at hi
        cases hi
      · rw [htakers, List.mem_singleton] at hi
        rw [hi, hl.made]
        exact ho.numbered.made c hc
      · rw [htakers, List.mem_singleton]
        rcases hmem x hx with ⟨hx, -⟩ | ⟨hid, -⟩
        · have hno := hs.ours x hx (.inr (hq.resolve_left fun hq => hq (hidle x hx)))
          rw [hnone] at hno
          cases hno
        · exact hid
      · rw [htakers, List.mem_singleton] at hi
        rcases hmem x hx with ⟨-, hne⟩ | ⟨-, hxp⟩
        · exact absurd hi hne
        · rw [hi, hxp]
          exact ha.starts hl hg (courseOf_phaseChange (by decide)) (hcourse c.id) fun _ _ => hheard'

/-- A start that has taken the stream moves. -/
theorem go (hs : Starting r config h) (hn : h.Numbered) {mo : Moment} (hc : c ∈ h.calls) (hi : c.id ∈ r.takers)
    (hm : CallMove h c c.point m) (hl : h.Leaves c m h') (ha : Acts h a h') (hmt : r.Matches h) (hcand : h.Candid)
    (hot : h.link.table.Ordered) (ht : mo.takesStream = none) (hh : mo.heard = h.hearing c) (hse : mo.served = none) :
    Starting (r.add mo) config h' := by
  have hadd : r.add mo = r.hear h c := by
    simp [StartRecord.add, StartRecord.hear, ht, hh, hse]
  have hport : h'.session.portTaken = true := by
    rw [hl.session, m.sessionAfter_portTaken]
    exact hm.loop.elim (fun h => h.2.trans (hs.portTaken hi)) id
  rw [hadd]
  refine ⟨ha.config.trans hs.configured, hs.one, fun hi' => ?_, fun id hi => ?_, fun x hx hq => ?_, fun x hx hi' => ?_⟩
  · rw [hport] at hi'
    cases hi'
  · rw [hl.made]
    exact hs.made id hi
  · rcases hn.mem_callsAfter hc (hl.calls ▸ hx) with ⟨hx, -⟩ | ⟨p, keeps, -, rfl⟩ | ⟨-, rfl⟩
    · exact hs.ours x hx hq
    · exact hi
    · exact hi
  · rcases hn.mem_callsAfter hc (hl.calls ▸ hx) with ⟨-, hne⟩ | ⟨p, keeps, hf, rfl⟩ | ⟨hf, rfl⟩
    · exact absurd (hs.eq_of_takers hi' hi) hne
    · exact (hs.stands c hc hi).move hm hl hc hmt hcand (by rw [hs.configured]) hf
    · obtain ⟨hnotes, hphase, hhear⟩ := hm.stays_quiet hf
      rw [r.hear_of_none hhear]
      refine (hs.stands x hc hi).keep rfl (List.append_nil _).symm (hl.course_eq ?_) (fun hp => ?_)
        (ha.tableClosed hn hot) ha.writeFault
      · rw [Move.happenings, hf, hnotes]
        rfl
      · rw [hl.session, m.sessionAfter_phase, hphase, hp]

/-- Another call moves. -/
theorem other (hs : Starting r config h) (ho : Orderly h) (hla : Launched h) {mo : Moment} (hc : c ∈ h.calls)
    (hi : c.id ∉ r.takers) (hm : CallMove h c c.point m) (hl : h.Leaves c m h') (ha : Acts h a h')
    (hot : h.link.table.Ordered) (ht : mo.takesStream = none) (hh : mo.heard = none)
    (hno : c.point = .begun .start → h.session.phase = .faulted ∨ h.session.portTaken) :
    Starting (r.add mo) config h' := by
  have hq : c.point.phase? = none := by
    by_contra hq
    exact hi (hs.ours c hc (.inl hq))
  have hshut : ∀ e, c.point ≠ .shutting (.error e) := fun e he => hi (hs.ours c hc (.inr ⟨e, he⟩))
  refine hs.quiet ht hh ha.config (fun hp => ?_) (Nat.le_of_eq hl.made.symm) (fun x hx => ?_) (fun id hid => ?_)
    (fun hp => ?_) (ha.tableClosed ho.numbered hot) ha.writeFault
  · rw [hl.session, m.sessionAfter_portTaken] at hp
    rcases hm.loop with ⟨-, he⟩ | he <;> rw [he] at hp
    · exact hp
    · cases hp
  · rcases ho.numbered.mem_callsAfter hc (hl.calls ▸ hx) with ⟨hx, -⟩ | ⟨p, keeps, hf, rfl⟩ | ⟨-, rfl⟩
    · exact .inl hx
    · refine .inr ⟨hi, ?_⟩
      by_contra hp
      have hbusy : p.phase? ≠ none ∨ ∃ e, p = .shutting (.error e) := by
        by_contra hn
        simp only [not_or, not_not, not_exists] at hn
        exact hp hn
      obtain ⟨hstart, hph, hport⟩ := hm.begins hq hf hbusy
      exact (hno hstart).elim hph fun h => by rw [hport] at h; cases h
    · exact .inl hc
  · rw [hl.course, hm.unmarked hq fun hown => ?_, List.append_nil]
    -- it is an operation only once the session has been operational
    have hid' : c.id = id := by simpa using hown
    have hport : h.session.portTaken = false := hid.resolve_left fun h => hi (hid' ▸ h)
    cases hplan : c.point.plan? with
    | none => rfl
    | some plan => rw [hla.portTaken (hla.planned c hc plan hplan)] at hport; cases hport
  · rw [hl.session, m.sessionAfter_phase]
    exact hm.faulted hq hp

/-- **Every action leaves every start where its record says.** -/
theorem acts (hs : Starting r config h) (ho : Orderly h) (hla : Launched h) (hmt : r.Matches h) (hcand : h.Candid)
    (hot : h.link.table.Ordered) (ha : Acts h a h') : Starting (r.add ⟨h, a⟩) config h' := by
  have hact := ha
  have hclosed := ha.tableClosed ho.numbered hot
  have hfault := ha.writeFault
  cases ha with
  | idle a hr =>
    cases hmove : (Moment.mk h a).mover with
    | none =>
      have hnone : (Moment.mk h a).takesStream = none ∧ (Moment.mk h a).heard = none := by
        simp [Moment.takesStream, Moment.heard, hmove]
      exact hs.quiet hnone.1 hnone.2 rfl id (Nat.le_refl _) (fun c hc => .inl hc) (fun _ _ => rfl) id id id
    | some c =>
      -- a call that has to wait is not heard of
      obtain ⟨hhear, hbegun⟩ := Host.hearing_of_waits (hr.waits hmove)
      have ht := (Moment.takesStream_cases hmove).resolve_left fun h => hbegun _ h.2.1
      have hh : (Moment.mk h a).heard = none := by
        rw [Moment.heard, hmove, Option.bind_some]
        exact hhear
      exact hs.quiet ht.1 hh rfl id (Nat.le_refl _) (fun c hc => .inl hc) (fun _ _ => rfl) id id id
  | loop i hm ht =>
    refine hs.quiet rfl rfl hact.config (by rw [ht.session]; exact id) (Nat.le_of_eq ht.made.symm)
      (by rw [ht.calls]; exact fun c hc => .inl hc) (fun id _ => ?_) (by rw [ht.session]; exact fun h => h) hclosed hfault
    rw [Host.course_actor ht.history, hm.unmarked, List.append_nil]
  | dispatcher i hm ht =>
    refine hs.quiet rfl rfl hact.config (by rw [ht.session, hm.phases.1]; exact id) (Nat.le_of_eq ht.made.symm)
      (by rw [ht.calls]; exact fun c hc => .inl hc) (fun id _ => ?_) (fun hp => ?_) hclosed hfault
    · have hactor : (Actor.dispatcher == Actor.call id) = false := rfl
      rw [Host.course_actor ht.history, hactor, hm.unmarked, List.append_nil]
    · rw [ht.session]
      exact hm.phases.2.1.elim (fun h => h.1.trans hp) And.left
  | @call id i c m _ hc hm hl =>
    have hmem := Host.call?_mem hc
    have hmove : (Moment.mk h (.advance (.call id) i)).mover = some c := hc
    have hh : (Moment.mk h (.advance (.call id) i)).heard = h.hearing c := by
      rw [Moment.heard, hmove, Option.bind_some]
    rcases Moment.takesStream_cases hmove with ⟨ht, hpt, hph, hport⟩ | ⟨ht, hno⟩
    · rw [hpt] at hm
      refine hs.take ho hmem hm hl hph hport ht (hh.trans (Host.hearing_of_phase ?_))
      rw [hpt]
      rfl
    · by_cases hi : c.id ∈ r.takers
      · exact hs.go ho.numbered hmem hi hm hl hact hmt hcand hot ht hh rfl
      · refine hs.other ho hla hmem hi hm hl hact hot ht (hh.trans (Host.hearing_of_phase ?_)) hno
        by_contra hq
        exact hi (hs.ours c hmem (.inl hq))
  | make r' hm ready =>
    refine hs.quiet rfl rfl rfl id (Nat.le_succ _) (fun c hc => ?_) (fun _ _ => rfl) id id id
    rcases List.mem_append.mp hc with hc | hc
    · exact .inl hc
    · obtain rfl := List.mem_singleton.mp hc
      exact .inr ⟨fun hi => Nat.lt_irrefl _ (hs.made _ hi), rfl, nofun⟩
  | abandon hc released hr ready =>
    exact hs.quiet rfl rfl hact.config (by simp) (Nat.le_refl _) (fun c hc => .inl (List.mem_filter.mp hc).1)
      (fun _ _ => rfl) (by simp) hclosed hfault
  | _ => exact hs.quiet rfl rfl rfl id (Nat.le_refl _) (fun c hc => .inl hc) (fun _ _ => rfl) id id hfault

end Starting

namespace Host

variable {config : SessionConfig} {twin : Twin} {as : List Action}

/-- What was matched in a run is what its registrations were for. -/
theorem matches_run (config : SessionConfig) (twin : Twin) (as : List Action) :
    ((ofSession config twin).startRecord as).Matches ((ofSession config twin).run as) where
  older x hx := by
    have hk := (Setup.session config twin).kept_run as
    exact hk.fresh x.1 (hk.accepted x hx).1
  heard c hc t limit alarm stage retries p hp hd := by
    obtain ⟨w, hw, ht, hwaiter, haccepts⟩ := (registered_run config twin as).delivered
      ((Setup.session config twin).kept_run as) hc hp nofun hd
    cases hwaiter
    exact ⟨_, hw, ht, ((Waiter.accepts_iff _ p).mp haccepts).1.symm⟩

/-- Every start is where its record says, in every run. -/
theorem starting_run (config : SessionConfig) (twin : Twin) (as : List Action) :
    Starting ((ofSession config twin).startRecord as) config ((ofSession config twin).run as) := by
  induction as using List.reverseRecOn with
  | nil => exact .ofSession config twin
  | append_singleton as a ih =>
    rw [startRecord_concat, run_concat]
    exact ih.acts (orderly_run config twin as) (launched_run config twin as) (matches_run config twin as)
      ((Setup.session config twin).candid_run as) ((Setup.session config twin).ordered_run as) (acts_ofSession config twin _ a)

end Host
end

end TwinLink
