import TwinLink.Proofs.Link.Shares
import TwinLink.Proofs.Session.Fatality

/-!
# What operations send

An operation sends one request at most: the one of the plan that it has made in its first step, by what the session knows
of its device. It waits for the reply, and takes it in, only when the request has been written.

* `Moment.asks`, `Host.asked` : the calls that carry out operations;
* `Operation.Planned`, `Operation.Sent` : a plan that a session has made, and what its call has sent;
* `Operation.Serves` : where the call of an operation stands, and what it has sent by then; `CallMove.serves`;
* `Host.Serving` : how far an operation has come; `Host.serving_run` : in every run.
-/

namespace TwinLink

variable {h h' : Host} {c : Call} {q p : Point} {m : Move} {a : Action} {op : Operation} {b b' : Outbox} {id : Nat}
  {plan : Plan} {s : Send}

/-! ## Operations and their calls -/

/-- The operation that is asked for. -/
def Request.operation? : Request → Option Operation
  | operate op => some op
  | twinOperate op => some op
  | _ => none

/-- The call that is made at this moment, with the operation that it is to carry out. -/
def Moment.asks (m : Moment) : Option (Nat × Operation) :=
  match m.action with
  | .make r => if m.host.canMake r then r.operation?.map (m.host.made, ·) else none
  | _ => none

/-- The calls made in a run that carry out operations. -/
def Host.asked (start : Host) (as : List Action) : List (Nat × Operation) := (start.moments as).filterMap Moment.asks

theorem Host.asked_append (start : Host) (as bs : List Action) :
    start.asked (as ++ bs) = start.asked as ++ (start.run as).asked bs := by
  rw [asked, moments_append, List.filterMap_append]
  rfl

theorem Host.asked_concat (start : Host) (as : List Action) (a : Action) :
    start.asked (as ++ [a]) = start.asked as ++ (Moment.asks ⟨start.run as, a⟩).toList := seen_concat _ _ _ _

theorem Moment.asks_eq {m : Moment} (ha : m.asks = some (id, op)) :
    ∃ r, m.action = .make r ∧ m.host.canMake r ∧ r.operation? = some op ∧ id = m.host.made := by
  unfold asks at ha
  split at ha
  · rename_i r hr
    split at ha
    · obtain ⟨op', hop, he⟩ := Option.map_eq_some_iff.mp ha
      cases he
      exact ⟨r, hr, ‹_›, hop, rfl⟩
    · cases ha
  · cases ha

/-! ## Sending -/

/-- A call that has made its send goes on to enter it. -/
theorem SendMove.called {e : SendEvent} {packet : Packet} (hs : SendMove h c m (some e)) (he : e = .called id packet) :
    c.point.outgoing = some packet ∧ ∃ ticket limit purpose keeps,
      m.fate = .goes (.entering (Decoder.frameOf packet) ticket limit purpose) keeps := by
  generalize hev : some e = event at hs
  cases hs with
  | calls hp hs hf =>
    obtain rfl := Option.some.inj hev
    cases he
    exact ⟨hp, _, _, _, _, hf⟩
  | queues => cases hev; cases he
  | returns => cases hev; cases he
  | other => cases hev

/-! ## Plans -/

/-- The session has been operational, and what it knows of its device gives the operation this plan. -/
structure Operation.Planned (op : Operation) (h : Host) (plan : Plan) : Prop where
  wasOperational : h.wasOperational
  plan : ∃ d, h.session.descriptor = some d ∧ op.plan d = .ok plan

/-- What a session knows of its device it knows for good, once it has been operational. -/
theorem Launched.descriptor (hl : Launched h) (hw : h.wasOperational) (ha : Acts h a h') :
    h'.session.descriptor = h.session.descriptor := by
  cases ha with
  | loop i hm ht => rw [ht.session]
  | dispatcher i hm ht => rw [ht.session, hm.descriptor]
  | @call _ i c m _ hc hm hle =>
    rw [hle.session, m.sessionAfter_descriptor]
    exact (hm.aside (hl.portTaken hw) (hl.outside hw c (Host.call?_mem hc))).descriptor
  | abandon hc released hr ready => exact h.session.vacate_descriptor _
  | _ => rfl

theorem Operation.Planned.acts (hp : op.Planned h plan) (hl : Launched h) (ha : Acts h a h') : op.Planned h' plan where
  wasOperational := Host.wasOperational_acts ha hp.wasOperational
  plan := by rw [hl.descriptor hp.wasOperational ha]; exact hp.plan

/-! ## Where the call of an operation stands -/

/-- The call `id` has sent the request of its plan, and nothing else. -/
structure Operation.Sent (op : Operation) (h : Host) (b : Outbox) (id : Nat) (plan : Plan) (s : Send) : Prop where
  planned : op.Planned h plan
  sends : b.sendsOf id = [s]
  packet : s.packet = plan.request

/-- Where the call `id` stands that carries out the operation, and what it has sent by then. -/
inductive Operation.Serves (op : Operation) (h : Host) (b : Outbox) (id : Nat) : Point → Prop
  | begun {r : Request} (hr : r.operation? = some op) (hs : b.sendsOf id = []) : Serves op h b id (.begun r)
  | inLine {plan : Plan} (hp : op.Planned h plan) (hs : b.sendsOf id = []) : Serves op h b id (.inLine plan)
  | entering {plan : Plan} {s : Send} (hs : op.Sent h b id plan s) (frame : Bytes) (ticket : Ticket)
      (limit : Option Nat) : Serves op h b id (.entering frame (some ticket) limit (.operation plan))
  | writing {plan : Plan} {s : Send} (hs : op.Sent h b id plan s) (ticket : Ticket) (limit : Option Nat) :
      Serves op h b id (.writing (some ticket) limit (.operation plan))
  | awaiting {plan : Plan} {s : Send} (hs : op.Sent h b id plan s) (hw : s ∈ b.written) (ticket : Ticket)
      (limit : Option Nat) (alarm : Option Alarm) : Serves op h b id (.awaiting ticket limit alarm (.operation plan))
  | updating {plan : Plan} {s : Send} (hs : op.Sent h b id plan s) (hw : s ∈ b.written) (value : String)
      (pending : Pending) : Serves op h b id (.updating plan value pending)

namespace Operation

theorem Sent.mono (hs : op.Sent h b id plan s) (hp : ∀ plan, op.Planned h plan → op.Planned h' plan)
    (hb : b'.sendsOf id = b.sendsOf id) : op.Sent h' b' id plan s :=
  ⟨hp _ hs.planned, hb.trans hs.sends, hs.packet⟩

/-- A call that does not move stays where it is. -/
theorem Serves.mono (hq : op.Serves h b id q) (hp : ∀ plan, op.Planned h plan → op.Planned h' plan)
    (hb : b'.sendsOf id = b.sendsOf id) (hw : b.written ⊆ b'.written) : op.Serves h' b' id q := by
  cases hq with
  | begun hr hs => exact .begun hr (hb.trans hs)
  | inLine hplan hs => exact .inLine (hp _ hplan) (hb.trans hs)
  | entering hs frame ticket limit => exact .entering (hs.mono hp hb) frame ticket limit
  | writing hs ticket limit => exact .writing (hs.mono hp hb) ticket limit
  | awaiting hs hwritten ticket limit alarm => exact .awaiting (hs.mono hp hb) (hw hwritten) ticket limit alarm
  | updating hs hwritten value pending => exact .updating (hs.mono hp hb) (hw hwritten) value pending

theorem Serves.sent (hq : op.Serves h b id q) : b.sendsOf id = [] ∨ ∃ plan s, op.Sent h b id plan s := by
  cases hq with
  | begun hr hs => exact .inl hs
  | inLine hp hs => exact .inl hs
  | entering hs | writing hs | awaiting hs | updating hs => exact .inr ⟨_, _, hs⟩

end Operation

/-- An operation that fails with its exchange ends. -/
theorem Fails.operation_ends {l : Link} {notes : List Happening} {e : LinkError}
    (hf : Fails h l notes (.operation plan) e m) : m.fate = .ends (.error (.session (.link e))) := by
  cases hf
  rfl

/-- A call that goes on to enter a frame has called the send of it. -/
theorem SendMove.enters {event : Option SendEvent} {frame : Bytes} {ticket : Option Ticket} {limit : Option Nat}
    {purpose : Purpose} {keeps : Bool} (hs : SendMove h c m event)
    (hf : m.fate = .goes (.entering frame ticket limit purpose) keeps) (hq : c.point.sends = false) :
    ∃ packet, event = some (.called c.id packet) ∧ c.point.outgoing = some packet := by
  cases hs with
  | calls hp hs hf' => exact ⟨_, rfl, hp⟩
  | queues hp =>
    rw [hp] at hq
    cases hq
  | returns hs =>
    rw [hq] at hs
    cases hs
  | other hr hw hf' =>
    rcases hf' with hf' | ⟨-, hg⟩
    · rw [hf] at hf'
      cases hf'
    · cases hg _ _ hf

/-- **The call of an operation goes on from stage to stage,** and calls its only send on the way. -/
theorem CallMove.serves {current waiting : List Send} {keeps : Bool} (hm : CallMove h c c.point m)
    (hq : op.Serves h b c.id c.point) (hf : m.fate = .goes p keeps) (hc : c ∈ h.calls) (hl : Launched h)
    (hmail : Mailed b current waiting h) :
    op.Serves h ((h.callEvent c (m.pointAfter c)).toList.foldl Outbox.record b) c.id p := by
  have hsend := hm.sends
  generalize h.callEvent c (m.pointAfter c) = event at hsend ⊢
  have hw := b.written_record event
  have hkeep : (∀ frame ticket limit purpose, p ≠ .entering frame ticket limit purpose) →
      (event.toList.foldl Outbox.record b).sendsOf c.id = b.sendsOf c.id := fun hno =>
    Outbox.sendsOf_record fun packet he => by
      rw [he] at hsend
      obtain ⟨-, ticket, limit, purpose, keeps', hgo⟩ := hsend.called rfl
      rw [hf] at hgo
      cases hgo
      exact hno _ _ _ _ rfl
  generalize hpt : c.point = q at hm hq
  cases hq with
  | begun hr hs =>
    cases hm with
    | begin hm =>
      cases hm with
      | operate op' plan hp | twinOperate op' plan hp =>
        cases hr
        cases hf
        obtain ⟨hphase, hplan⟩ := Host.planOperation_eq_ok hp
        exact .inLine ⟨hl.operational hphase, hplan⟩ ((hkeep nofun).trans hs)
      | operateRefused | twinRefused | twinDropped => cases hf
      | _ => cases hr
  | inLine hp hs =>
    cases hm with
    | locked plan ha ho =>
      obtain ⟨packet, he, hout⟩ := hsend.enters rfl (by rw [hpt]; rfl)
      cases hf
      rw [hpt] at hout
      refine .entering (s := ⟨b.called.length, c.id, packet⟩) ⟨hp, ?_, (Option.some.inj hout).symm⟩ _ _ _
      rw [he]
      exact (b.sendsOf_called _ _).trans (by rw [hs]; rfl)
    | lockedClosed | lined => cases hf
  | entering hs frame ticket limit =>
    cases hm with
    | entered frame ticket limit purpose ho =>
      cases hf
      exact .writing (hs.mono (fun _ h => h) (hkeep nofun)) _ _
    | queued => cases hf
    | shutOut frame ticket limit purpose hcl hfail => rw [hfail.operation_ends] at hf; cases hf
  | writing hs ticket limit =>
    cases hm with
    | unwritten ticket limit purpose e hr hfail => rw [hfail.operation_ends] at hf; cases hf
    | written ticket limit purpose hr =>
      cases hf
      -- its report tells that the frame is written
      obtain ⟨s, hlast, -, -, ⟨-, hnone, -⟩ | ⟨r, hr', ho⟩⟩ := hmail.writing c hc (by rw [hpt]; rfl)
      · rw [hr] at hnone
        cases hnone
      · obtain rfl := Option.some.inj (hr.symm.trans hr')
        obtain rfl := Option.some.inj (hlast.symm.trans (Outbox.last_of_sendsOf hs.sends))
        cases ho with
        | written hwritten => exact .awaiting (hs.mono (fun _ h => h) (hkeep nofun)) (hw hwritten) _ _ _
  | awaiting hs hwritten ticket limit alarm =>
    cases hm with
    | failed ticket limit alarm purpose e hd hfail => rw [hfail.operation_ends] at hf; cases hf
    | timedOut ticket limit alarm purpose hd ha hfail => rw [hfail.operation_ends] at hf; cases hf
    | unreadable | answered => cases hf
    | taken =>
      cases hf
      exact .updating (hs.mono (fun _ h => h) (hkeep nofun)) (hw hwritten) _ _
  | updating =>
    cases hm with
    | updated => cases hf

/-! ## How far an operation has come -/

/-- How far the operation that the call `id` carries out has come. It may have ended. -/
structure Host.Serving (op : Operation) (id : Nat) (b : Outbox) (h : Host) : Prop where
  made : id < h.made
  stands : ∀ c ∈ h.calls, c.id = id → op.Serves h b id c.point
  sent : b.sendsOf id = [] ∨ ∃ plan s, op.Sent h b id plan s

namespace Host.Serving

/-- The call does not take a step. It may be given up. -/
theorem rest (hs : h.Serving op id b) (hn : h.Numbered) (hl : Launched h) (ha : Acts h a h')
    (hno : ∀ i, a ≠ .advance (.call id) i) : h'.Serving op id ((h.sendEvent a h').toList.foldl Outbox.record b) := by
  have hb : ((h.sendEvent a h').toList.foldl Outbox.record b).sendsOf id = b.sendsOf id :=
    Outbox.sendsOf_record fun p he => by
      obtain ⟨i, hi⟩ := Host.sendEvent_called he
      exact hno i hi
  have hw := b.written_record (h.sendEvent a h')
  generalize (h.sendEvent a h').toList.foldl Outbox.record b = b' at hb hw ⊢
  have hplan : ∀ plan, op.Planned h plan → op.Planned h' plan := fun plan hp => hp.acts hl ha
  have hold : ∀ c ∈ h.calls, c.id = id → op.Serves h' b' id c.point := fun c hc hid =>
    (hs.stands c hc hid).mono hplan hb hw
  refine ⟨?_, fun x hx hid => ?_, hs.sent.imp hb.trans fun ⟨plan, s, hsent⟩ => ⟨plan, s, hsent.mono hplan hb⟩⟩
  · exact (ha.point hn (P := fun _ => True) (fun _ _ _ _ _ _ _ _ => trivial) ⟨hs.made, fun _ _ _ => trivial⟩).1
  · cases ha with
    | loop i hm ht => exact hold x (ht.calls ▸ hx) hid
    | dispatcher i hm ht => exact hold x (ht.calls ▸ hx) hid
    | @call _ i c m _ hc hm hle =>
      rcases hn.mem_callsAfter (call?_mem hc) (hle.calls ▸ hx) with ⟨hx, -⟩ | ⟨p, keeps, hf, rfl⟩ | ⟨-, rfl⟩
      · exact hold x hx hid
      · exact absurd (congrArg (Action.advance · i) (congrArg Actor.call ((call?_id hc).symm.trans hid))) (hno i)
      · exact hold x (call?_mem hc) hid
    | make r hm ready =>
      rcases List.mem_append.mp hx with hx | hx
      · exact hold x hx hid
      · obtain rfl := List.mem_singleton.mp hx
        exact absurd hs.made (Nat.not_lt.mpr (Nat.le_of_eq hid))
    | abandon hc released hr ready => exact hold x (List.mem_filter.mp hx).1 hid
    | _ => exact hold x hx hid

/-- **Every action leaves an operation where it is, or takes it on to its next stage.** -/
theorem acts {current waiting : List Send} (hs : h.Serving op id b) (hn : h.Numbered) (hl : Launched h)
    (hmail : Mailed b current waiting h) (ha : Acts h a h') :
    h'.Serving op id ((h.sendEvent a h').toList.foldl Outbox.record b) := by
  by_cases hmover : ∃ i, a = .advance (.call id) i
  · obtain ⟨i, rfl⟩ := hmover
    have hn' := hn.acts ha
    have hact := ha
    cases ha with
    | idle a hr =>
      rw [sendEvent_refused hr]
      exact hs
    | @call _ _ c m _ hc hm hle =>
      have hmem := call?_mem hc
      obtain rfl := call?_id hc
      rw [sendEvent_call i hc hle hn']
      have hstands := hs.stands c hmem rfl
      have hplan : ∀ plan, op.Planned h plan → op.Planned h' plan := fun plan hp => hp.acts hl hact
      have hserves : ∀ p keeps, m.fate = .goes p keeps →
          op.Serves h' ((h.callEvent c (m.pointAfter c)).toList.foldl Outbox.record b) c.id p := fun p keeps hf =>
        (hm.serves hstands hf hmem hl hmail).mono hplan rfl (List.Subset.refl _)
      have hsame : (∀ p keeps, m.fate ≠ .goes p keeps) →
          ((h.callEvent c (m.pointAfter c)).toList.foldl Outbox.record b).sendsOf c.id = b.sendsOf c.id := fun hno =>
        Outbox.sendsOf_record fun packet he => by
          have hsend := hm.sends
          rw [he] at hsend
          obtain ⟨-, _, _, _, _, hgo⟩ := hsend.called rfl
          exact hno _ _ hgo
      refine ⟨hle.made ▸ hs.made, fun x hx hid => ?_, ?_⟩
      · rcases hn.mem_callsAfter hmem (hle.calls ▸ hx) with ⟨-, hne⟩ | ⟨p, keeps, hf, rfl⟩ | ⟨hf, rfl⟩
        · exact absurd hid hne
        · exact hserves p keeps hf
        · exact hstands.mono hplan (hsame fun p keeps he => by rw [hf] at he; cases he) (b.written_record _)
      · cases hf : m.fate with
        | goes p keeps => exact (hserves p keeps hf).sent
        | ends | stays =>
          have hb := hsame fun p keeps he => by rw [hf] at he; cases he
          exact hs.sent.imp hb.trans fun ⟨plan, s, hsent⟩ => ⟨plan, s, hsent.mono hplan hb⟩
  · exact hs.rest hn hl ha fun i hi => hmover ⟨i, hi⟩

end Host.Serving

/-- **In every run, operations send what they have planned.** -/
theorem Host.serving_run (config : SessionConfig) (twin : Twin) (as : List Action)
    (ha : (id, op) ∈ (ofSession config twin).asked as) :
    ((ofSession config twin).run as).Serving op id ((ofSession config twin).outbox as) := by
  induction as using List.reverseRecOn with
  | nil => cases ha
  | append_singleton as a ih =>
    have hn := (Setup.session config twin).numbered_run as
    obtain ⟨current, waiting, hmail⟩ := (Setup.session config twin).mailed_run as
    have hacts := acts_ofSession config twin as a
    rw [asked_concat, List.mem_append, Option.mem_toList] at ha
    rw [run_concat, outbox_concat]
    rcases ha with ha | ha
    · exact (ih ha).acts hn (launched_run config twin as) hmail hacts
    · -- the call is made now
      obtain ⟨r, rfl, hcan, hr, rfl⟩ := Moment.asks_eq ha
      have hb : ((ofSession config twin).outbox as).sendsOf ((ofSession config twin).run as).made = [] :=
        List.filter_eq_nil_iff.mpr fun s hs => by
          have hlt : s.caller < ((ofSession config twin).run as).made := hmail.callers s hs
          simpa using Nat.ne_of_lt hlt
      generalize ((ofSession config twin).run as).apply (.make r) = h' at hacts ⊢
      cases hacts with
      | idle a hno => exact absurd hcan (Bool.eq_false_iff.mp hno)
      | make r hm ready =>
        refine ⟨Nat.lt_succ_self _, fun x hx hid => ?_, .inl hb⟩
        rcases List.mem_append.mp hx with hx | hx
        · exact absurd hid (Nat.ne_of_lt (hn.made x hx))
        · obtain rfl := List.mem_singleton.mp hx
          exact .begun hr hb

/-- A session starts with a device that has one interface and describes itself so, and becomes operational. -/
def Host.startedWith (description : Bytes) : List Action :=
  let start := Action.advance (.call 0) false
  let loop := Action.advance .loop false
  let device := fun p : Packet => Action.receive (Frame.encode p.toBytes)
  [.make .start, start, start, loop, loop, loop, start,
    device (.bare .resetResponse), loop, loop, loop, start, start, loop, loop, loop, start,
    device (.ofKind .descriptorResponse description), loop, loop, loop, start, start, start, start, start, start]

end TwinLink
