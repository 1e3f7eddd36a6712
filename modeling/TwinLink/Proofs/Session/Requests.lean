import TwinLink.Proofs.Session.Calls

/-!
# Requests on their way to the device

A command hands its request to the link once. The loop writes what is in the command queue, and reports back only what
it has written.

* `Host.sends`, `Moment.sent` : the command whose request the loop begins to write;
* `Host.Foreign h id` : the call `id` is none of the commands; `Host.Sent` : the request of a command has been taken up;
* `Due` : a frame in the command queue is the request of a command, or something else from another call;
* `Written sent h` : how queue, loop and reports belong to the requests `sent` so far; `Written.acts`.
-/

namespace TwinLink

/-! ## Requests of commands -/

/-- The registration and the plan of a call that has handed its request to the link. -/
def Point.requested? : Point → Option (Ticket × Plan)
  | .writing (some ticket) _ (.operation plan) => some (ticket, plan)
  | .awaiting ticket _ _ (.operation plan) => some (ticket, plan)
  | _ => none

theorem Point.requested?_eq {q : Point} {t : Ticket} {plan : Plan} (hq : q.requested? = some (t, plan)) :
    q.ticket? = some t ∧ q.plan? = some plan := by
  unfold requested? at hq
  split at hq <;> cases hq <;> exact ⟨rfl, rfl⟩

/-- The command whose request the loop has begun to write between two states, with its call. -/
def Host.sends (h h' : Host) : Option (Nat × Plan) :=
  match h.link.loop, h'.link.loop with
  | .listening, .writing caller _ => (h.call? caller).bind fun c => c.point.command?.map (caller, ·)
  | _, _ => none

/-- The command whose request the loop begins to write, with its call. -/
def Moment.sent (m : Moment) : Option (Nat × Plan) := m.host.sends m.after

def LinkCommand.caller? : LinkCommand → Option Nat
  | .write caller _ => some caller
  | .shutdown => none

namespace Host

variable {h h' : Host} {a : Action} {id : Nat}

/-- The loop begins to write only where it obeys a command. -/
theorem sends_eq_none (hl : h.link.loop = .listening → ∀ caller rest, h'.link.loop ≠ .writing caller rest) :
    h.sends h' = none := by
  unfold sends
  split
  · exact absurd ‹_› (hl ‹_› _ _)
  · rfl

/-- It does not where the loop stays as it is, or is started. -/
theorem sends_keep (hl : h'.link.loop = h.link.loop ∨ h.link.loop = .absent ∧ h'.link.loop = .listening) :
    h.sends h' = none := by
  refine sends_eq_none fun hlisten caller rest hwrite => ?_
  rcases hl with hl | ⟨hl, -⟩ <;> rw [hlisten] at hl
  · rw [hwrite] at hl
    cases hl
  · cases hl

/-- The call is none of the commands, and cannot become one. -/
def Foreign (h : Host) (id : Nat) : Prop := id < h.made ∧ ∀ c ∈ h.calls, c.id = id → c.point.Foreign

/-- The request of a command has been taken up by the loop. -/
def Sent (h : Host) (x : Nat × Plan) : Prop :=
  x.1 < h.made ∧ ∀ c ∈ h.calls, c.id = x.1 → x.2.kind = .command ∧ ∃ t, c.point.requested? = some (t, x.2)

theorem Numbered.foreign (hn : h.Numbered) {c : Call} (hc : c ∈ h.calls) (hq : c.point.Foreign) : h.Foreign c.id :=
  hn.point hc (P := (·.Foreign)) hq

/-- A command is not foreign. -/
theorem Foreign.kind_ne_command (hf : h.Foreign id) {c : Call} (hc : c ∈ h.calls) (hid : c.id = id) {plan : Plan}
    (hp : c.point.plan? = some plan) : plan.kind ≠ .command := Point.kind_ne_command (hf.2 c hc hid).2 hp

theorem Foreign.acts (hf : h.Foreign id) (ha : Acts h a h') (hn : h.Numbered) : h'.Foreign id := by
  refine ha.point hn (fun c _ m p keeps hm hg hq => ?_) hf
  obtain ⟨hbegun, hplan⟩ := hm.plan hg
  refine ⟨hbegun, ?_⟩
  by_contra hp
  obtain ⟨plan, hp⟩ := Option.ne_none_iff_exists'.mp hp
  obtain ⟨hp, hk⟩ := Point.command?_eq_some.mp hp
  rcases hplan plan hp with ⟨hqp, -⟩ | ⟨⟨r, hr⟩, -⟩
  · exact Point.kind_ne_command hq.2 hqp hk
  · exact hq.1 r hr

theorem Sent.acts {x : Nat × Plan} (hs : h.Sent x) (ha : Acts h a h') (hn : h.Numbered) : h'.Sent x := by
  refine ha.point hn (P := fun q => x.2.kind = .command ∧ ∃ t, q.requested? = some (t, x.2))
    (fun c _ m p keeps hm hg ⟨hk, t, hq⟩ => ⟨hk, ?_⟩) hs
  generalize c.point = q at hm hq
  unfold Point.requested? at hq
  -- a failed operation ends its call
  have hends : ∀ {l : Link} {notes : List Happening} {plan : Plan} {e : LinkError},
      ¬Fails h l notes (.operation plan) e m := fun hf => by cases hf; cases hg
  split at hq
  · cases hq
    cases hm with
    | written => cases hg; exact ⟨_, rfl⟩
    | unwritten ticket limit purpose e hr hf => exact (hends hf).elim
  · cases hq
    cases hm with
    | failed ticket limit alarm purpose e hd hf => exact (hends hf).elim
    | timedOut ticket limit alarm purpose hd ha hf => exact (hends hf).elim
    | taken ticket limit alarm plan p hd value hr hkind =>
      rw [hkind] at hk
      cases hk
    | _ => cases hg
  · cases hq

end Host

/-- What the session knows of a frame in the command queue. -/
inductive Due (sent : List (Nat × Plan)) (h : Host) (id : Nat) (frame : Bytes) : Prop
  /-- It is the request of a command that has not been taken up yet. -/
  | command (c : Call) (hc : c ∈ h.calls) (hid : c.id = id) (ticket : Ticket) (limit : Option Nat) (plan : Plan)
      (hp : c.point = .writing (some ticket) limit (.operation plan)) (hk : plan.kind = .command)
      (hf : frame = Frame.encode plan.request.toBytes) (hs : ∀ x ∈ sent, x.1 ≠ id)
  /-- It is something else from a call that is no command. -/
  | other (p : Packet) (hl : p.totalLength ≤ Frame.maxLength) (ht : p.type ≠ PacketKind.commandRequest.code)
      (hf : frame = Frame.encode p.toBytes) (hh : h.Foreign id)

/-- The call is a command whose request has been taken up, or no command. -/
def Covered (sent : List (Nat × Plan)) (h : Host) (id : Nat) : Prop := (∃ x ∈ sent, x.1 = id) ∨ h.Foreign id

/-- How the command queue, the loop and its reports belong to the requests taken up so far. -/
structure Written (sent : List (Nat × Plan)) (h : Host) : Prop where
  took : ∀ x ∈ sent, h.Sent x
  queue : ∀ id frame, .write id frame ∈ h.link.commands.queue → Due sent h id frame
  once : h.link.commands.queue.Pairwise fun x y => ∀ id, x.caller? = some id → y.caller? = some id → h.Foreign id
  writing : ∀ id rest, h.link.loop = .writing id rest → Covered sent h id
  receipts : ∀ id, (id, .ok ()) ∈ h.link.receipts → Covered sent h id
  refused : ∀ id e, (id, .error e) ∈ h.link.receipts → h.link.commands.closed ∧ h.link.commands.queue = []

/-! ## What a move puts into the queue -/

theorem Link.mem_receipts {l : Link} {id : Nat} {r : Except LinkError Unit} (hr : l.receipt? id = some r) :
    (id, r) ∈ l.receipts := by
  obtain ⟨l₁, l₂, he, -⟩ := List.lookup_eq_some_iff.mp hr
  rw [he]
  exact List.mem_append_right _ List.mem_cons_self

/-- A call puts a frame into the queue only as it goes on to wait for it to be written. -/
theorem CallMove.queue {h : Host} {c : Call} {q : Point} {m : Move} (hu : h.Unstarted) (hm : CallMove h c q m) :
    (∃ xs, m.link.commands.queue = h.link.commands.queue ++ xs ∧ ∀ x ∈ xs, x = .shutdown) ∨
    ∃ frame ticket limit purpose, q = .entering frame ticket limit purpose ∧
      m.fate = .goes (.writing ticket limit purpose) false ∧
      m.link.commands.queue = h.link.commands.queue ++ [.write c.id frame] := by
  obtain ⟨xs, hxs, hsends⟩ := (hm.edits hu).reach.queue
  cases hm with
  | entered frame ticket limit purpose ho =>
    exact .inr ⟨frame, ticket, limit, purpose, rfl, rfl, (Channel.offer_admitted _ ho).1⟩
  | queued frame ticket limit purpose ho =>
    exact .inl ⟨[], by rw [List.append_nil]; exact (Channel.offer_queued _ ho).1, nofun⟩
  | shutOut frame ticket limit purpose hc hf =>
    refine .inl ⟨xs, hxs, fun x hx => ?_⟩
    have := (hsends x hx).1
    rw [hc] at this
    cases this
  | told | untold | telling => exact .inl ⟨xs, hxs, fun x hx => (hsends x hx).2⟩
  | _ => exact .inl ⟨xs, hxs, fun x hx => (hsends x hx).2.elim⟩

theorem Link.vacate_queue (l : Link) (c : Call) : (l.vacate c).commands.queue = l.commands.queue := by
  unfold vacate
  cases c.point.ticket? <;> exact Channel.withdraw_queue _ _

theorem Move.linkAfter_queue (m : Move) (c : Call) : (m.linkAfter c).commands.queue = m.link.commands.queue := by
  unfold linkAfter
  split
  · exact m.link.vacate_queue c
  · rfl

/-- What a regular exchange sends fits a frame, and is a request for a command only if the exchange is for one. -/
theorem Purpose.Regular.packet {planned : List (Nat × Plan)} {id : Nat} {purpose : Purpose} {p : Packet}
    (hr : purpose.Regular planned id)
    (hplan : ∀ x ∈ planned, x.2.Named ∧ x.2.request.totalLength ≤ Frame.maxLength) (hp : purpose.packet? = some p) :
    p.totalLength ≤ Frame.maxLength ∧
      ((∃ plan, purpose = .operation plan ∧ plan.kind = .command ∧ p = plan.request) ∨
        p.type ≠ PacketKind.commandRequest.code ∧ ∀ plan, purpose.plan? = some plan → plan.kind ≠ .command) := by
  cases purpose with
  | direct => cases hr
  | handshake stage retries =>
    cases hp
    cases stage <;> exact ⟨by decide, .inr ⟨by decide, nofun⟩⟩
  | operation plan =>
    cases hp
    obtain ⟨hn, hl⟩ := hplan _ hr
    refine ⟨hl, ?_⟩
    have ht := hn.type
    cases hk : plan.kind with
    | command => exact .inl ⟨plan, rfl, hk, rfl⟩
    | _ =>
      rw [hk] at ht
      exact .inr ⟨by rw [ht]; decide, fun plan' he => by cases he; rw [hk]; exact nofun⟩

/-! ## What a report says -/

theorem Host.receiptFor_eq {calls : List Call} {caller : Nat} {result : Except LinkError Unit}
    {r : Nat × Except LinkError Unit} (hr : r ∈ Host.receiptFor calls caller result) : r = (caller, result) := by
  unfold receiptFor at hr
  split at hr
  · exact List.mem_singleton.mp hr
  · cases hr

theorem Host.refusals_error {calls : List Call} {reason : String} {queue : List LinkCommand} {id : Nat}
    (hr : (id, .ok ()) ∈ Host.refusals calls reason queue) : False := by
  induction queue with
  | nil => cases hr
  | cons x rest ih =>
    cases x with
    | shutdown => exact ih hr
    | write caller frame =>
      rcases List.mem_append.mp hr with hr | hr
      · cases Host.receiptFor_eq hr
      · exact ih hr

/-! ## What happens to requests -/

variable {sent : List (Nat × Plan)} {planned : List (Nat × Plan)} {h h' : Host} {a : Action} {id : Nat} {frame : Bytes}

theorem Covered.acts (hc : Covered sent h id) (ha : Acts h a h') (hn : h.Numbered) : Covered sent h' id :=
  hc.imp_right fun hf => hf.acts ha hn

theorem Covered.append (hc : Covered sent h id) (more : List (Nat × Plan)) : Covered (sent ++ more) h id :=
  hc.imp_left fun ⟨x, hx, he⟩ => ⟨x, List.mem_append_left _ hx, he⟩

/-- A frame in the queue stays due while the command that it is from waits for it. -/
theorem Due.acts (hd : Due sent h id frame) (ha : Acts h a h') (hn : h.Numbered)
    (hstay : ∀ c ∈ h.calls, c.id = id → ∀ ticket limit plan, c.point = .writing (some ticket) limit (.operation plan) →
      plan.kind = .command → (∀ x ∈ sent, x.1 ≠ id) → c ∈ h'.calls) : Due sent h' id frame := by
  cases hd with
  | command c hc hid ticket limit plan hp hk hf hs =>
    exact .command c (hstay c hc hid ticket limit plan hp hk hs) hid ticket limit plan hp hk hf hs
  | other p hl ht hf hh => exact .other p hl ht hf (hh.acts ha hn)

/-- A frame that the loop takes up is the request of a command, which is sent by that, or something else. -/
theorem Due.sends (hd : Due sent h id frame) (hn : h.Numbered) (hlisten : h.link.loop = .listening)
    (hl : h'.link.loop = .writing id frame) :
    (∃ c ∈ h.calls, c.id = id ∧ ∃ ticket limit plan, c.point = .writing (some ticket) limit (.operation plan) ∧
      plan.kind = .command ∧ frame = Frame.encode plan.request.toBytes ∧ (∀ x ∈ sent, x.1 ≠ id) ∧
      h.sends h' = some (id, plan)) ∨
    h.Foreign id ∧ h.sends h' = none ∧ ∃ p : Packet, p.totalLength ≤ Frame.maxLength ∧
      p.type ≠ PacketKind.commandRequest.code ∧ frame = Frame.encode p.toBytes := by
  have hsends : h.sends h' = (h.call? id).bind fun c => c.point.command?.map (id, ·) := by
    unfold Host.sends
    rw [hlisten, hl]
  rw [hsends]
  cases hd with
  | command c hm hid ticket limit plan hp hk hf hns =>
    subst hid
    refine .inl ⟨c, hm, rfl, ticket, limit, plan, hp, hk, hf, hns, ?_⟩
    rw [hn.call?_of_mem hm, Option.bind_some, Point.command?_eq_some.mpr ⟨by rw [hp]; rfl, hk⟩]
    rfl
  | other p hl ht hf hh =>
    refine .inr ⟨hh, ?_, p, hl, ht, hf⟩
    cases hcall : h.call? id with
    | none => rfl
    | some c =>
      rw [Option.bind_some, (hh.2 c (Host.call?_mem hcall) (Host.call?_id hcall)).2]
      rfl

namespace Written

theorem ofSession (config : SessionConfig) (twin : Twin) : Written [] (Host.ofSession config twin) :=
  ⟨nofun, nofun, .nil, nofun, nofun, nofun⟩

/-- Nothing is taken from the queue, no frame is put into it, and no request is reported as written. -/
theorem keep (hw : Written sent h) (ha : Acts h a h') (hn : h.Numbered)
    (hstay : ∀ id frame, .write id frame ∈ h.link.commands.queue → ∀ c ∈ h.calls, c.id = id → ∀ ticket limit plan,
      c.point = .writing (some ticket) limit (.operation plan) → plan.kind = .command → (∀ x ∈ sent, x.1 ≠ id) →
        c ∈ h'.calls)
    (hq : ∃ xs, h'.link.commands.queue = h.link.commands.queue ++ xs ∧
      ∀ x ∈ xs, h.link.commands.closed = false ∧ x = .shutdown)
    (hcl : h'.link.commands.closed = h.link.commands.closed)
    (hl : ∀ id rest, h'.link.loop = .writing id rest → ∃ rest', h.link.loop = .writing id rest')
    (hr : ∀ r ∈ h'.link.receipts, r ∈ h.link.receipts) : Written sent h' := by
  obtain ⟨xs, hq, hxs⟩ := hq
  refine ⟨fun x hx => (hw.took x hx).acts ha hn, fun id frame hf => ?_, ?_, fun id rest hw' => ?_, fun id hr' => ?_,
    fun id e hr' => ?_⟩
  · rw [hq] at hf
    rcases List.mem_append.mp hf with hf | hf
    · exact (hw.queue id frame hf).acts ha hn (hstay id frame hf)
    · cases (hxs _ hf).2
  · rw [hq, List.pairwise_append]
    have hnone : ∀ x ∈ xs, x.caller? = none := fun x hx => by rw [(hxs x hx).2]; rfl
    refine ⟨hw.once.imp fun hf id hx hy => (hf id hx hy).acts ha hn, ?_, fun x _ y hy id _ hy' => ?_⟩
    · refine List.pairwise_iff_forall_sublist.mpr fun hsub id hx => ?_
      rw [hnone _ (hsub.subset List.mem_cons_self)] at hx
      cases hx
    · rw [hnone y hy] at hy'
      cases hy'
  · obtain ⟨rest', hw'⟩ := hl id rest hw'
    exact (hw.writing id rest' hw').acts ha hn
  · exact (hw.receipts id (hr _ hr')).acts ha hn
  · obtain ⟨hc, he⟩ := hw.refused id e (hr _ hr')
    refine ⟨hcl.trans hc, ?_⟩
    cases xs with
    | nil => rw [hq, he, List.nil_append]
    | cons x xs =>
      have := (hxs x List.mem_cons_self).1
      rw [hc] at this
      cases this

/-- A command that waits for its request to be taken up stays where it is. -/
theorem waits (hw : Written sent h) {c : Call} (hc : c ∈ h.calls) {m : Move} (hm : CallMove h c c.point m)
    {ticket : Ticket} {limit : Option Nat} {plan : Plan} (hp : c.point = .writing (some ticket) limit (.operation plan))
    (hk : plan.kind = .command) (hs : ∀ x ∈ sent, x.1 ≠ c.id) : h.link.commands.queue = [] := by
  rw [hp] at hm
  cases hm with
  | unwritten ticket limit purpose e hr hf => exact (hw.refused c.id e (Link.mem_receipts hr)).2
  | written ticket limit purpose hr =>
    rcases hw.receipts c.id (Link.mem_receipts hr) with ⟨x, hx, he⟩ | hf
    · exact absurd he (hs x hx)
    · exact absurd hk (hf.kind_ne_command hc rfl (by rw [hp]; rfl))

/-- A call hands its frame to the link. -/
theorem enter (hw : Written sent h) (hs : h.Separate planned)
    (hplan : ∀ x ∈ planned, x.2.Named ∧ x.2.request.totalLength ≤ Frame.maxLength) {c : Call} (hc : c ∈ h.calls)
    {m : Move} (hm : CallMove h c c.point m) (hl : h.Leaves c m h') (ha : Acts h a h') {ticket : Option Ticket}
    {limit : Option Nat} {purpose : Purpose} (hp : c.point = .entering frame ticket limit purpose)
    (hg : m.fate = .goes (.writing ticket limit purpose) false)
    (hq : h'.link.commands.queue = h.link.commands.queue ++ [.write c.id frame]) : Written sent h' := by
  have hreach := (hl.edits hs.unstarted hm).reach
  have hloop := (hl.edits hs.unstarted hm).frame.loop
  have hin : { c with point := .writing ticket limit purpose, holds := false || c.holds } ∈ h'.calls := by
    rw [hl.calls]
    exact Move.mem_callsAfter_of_goes hc hg
  have hsome : ticket.isSome ∧ purpose.Regular planned c.id ∧
      ∃ p, purpose.packet? = some p ∧ frame = Frame.encode p.toBytes := by
    have := hs.regular c hc
    rwa [hp] at this
  obtain ⟨hticket, hpurpose, p, hpacket, hframe⟩ := hsome
  obtain ⟨hfits, hkind⟩ := hpurpose.packet hplan hpacket
  -- no request of this call has been taken up
  have hnot : ∀ x ∈ sent, x.1 ≠ c.id := fun x hx he => by
    obtain ⟨-, t, ht⟩ := (hw.took x hx).2 c hc he.symm
    rw [hp] at ht
    cases ht
  have hforeign : (∀ plan, purpose.plan? = some plan → plan.kind ≠ .command) → h.Foreign c.id := fun hk => by
    refine hs.numbered.foreign hc ⟨by rw [hp]; exact nofun, ?_⟩
    by_contra hne
    obtain ⟨plan, hpl⟩ := Option.ne_none_iff_exists'.mp hne
    rw [hp] at hpl
    obtain ⟨hpl, hkc⟩ := Point.command?_eq_some.mp hpl
    exact hk plan hpl hkc
  refine ⟨fun x hx => (hw.took x hx).acts ha hs.numbered, fun id f hf => ?_, ?_, fun id rest hw' => ?_, fun id hr' => ?_,
    fun id e hr' => ?_⟩
  · rw [hq] at hf
    rcases List.mem_append.mp hf with hf | hf
    · refine (hw.queue id f hf).acts ha hs.numbered fun x hx hid ticket' limit' plan' hp' hk' hs' => ?_
      rw [hl.calls]
      refine Move.mem_callsAfter_of_ne hx fun he => ?_
      obtain rfl := hs.numbered.eq_of_id hx hc he
      rw [hp] at hp'
      cases hp'
    · cases List.mem_singleton.mp hf
      rcases hkind with ⟨plan, rfl, hk, rfl⟩ | ⟨ht, hk⟩
      · obtain ⟨t, rfl⟩ := Option.isSome_iff_exists.mp hticket
        exact .command _ hin rfl t limit plan rfl hk hframe hnot
      · exact .other p hfits ht hframe ((hforeign hk).acts ha hs.numbered)
  · rw [hq, List.pairwise_append]
    refine ⟨hw.once.imp fun hf id hx hy => (hf id hx hy).acts ha hs.numbered, List.pairwise_singleton _ _,
      fun x hx y hy id hxi hyi => ?_⟩
    obtain rfl := List.mem_singleton.mp hy
    obtain rfl := Option.some.inj hyi
    rcases hkind with ⟨plan, he, hk, -⟩ | ⟨-, hk⟩
    · cases x with
      | shutdown => cases hxi
      | write caller f =>
        obtain rfl := Option.some.inj hxi
        -- a request of this command would already wait to be taken up
        cases hw.queue c.id f hx with
        | command c' hc' hid ticket' limit' plan' hp' =>
          obtain rfl := hs.numbered.eq_of_id hc hc' hid.symm
          rw [hp] at hp'
          cases hp'
        | other p' hl' ht' hf' hh' => exact absurd hk (hh'.kind_ne_command hc rfl (by rw [hp, he]; rfl))
    · exact (hforeign hk).acts ha hs.numbered
  · rcases hloop with hloop | ⟨-, hloop⟩ <;> rw [hloop] at hw'
    · exact (hw.writing id rest hw').acts ha hs.numbered
    · cases hw'
  · exact (hw.receipts id (hreach.receipts _ hr')).acts ha hs.numbered
  · obtain ⟨hcl, he⟩ := hw.refused id e (hreach.receipts _ hr')
    obtain ⟨xs, hxs, hsends⟩ := hreach.queue
    rw [hq] at hxs
    have : xs = [.write c.id frame] := (List.append_cancel_left hxs).symm
    have hopen := (hsends _ (this ▸ List.mem_singleton.mpr rfl)).1
    rw [hcl] at hopen
    cases hopen

/-- The loop takes up a frame. -/
theorem obey (hw : Written sent h) (hs : h.Separate planned) (ha : Acts h a h') (hlisten : h.link.loop = .listening)
    {caller : Nat} {commands : Channel LinkCommand} {woken : Option Actor}
    (hc : h.link.commands.take? = some (.write caller frame, commands, woken))
    (hl : h'.link = { h.link with commands := commands, loop := .writing caller frame }) (hcalls : h'.calls = h.calls) :
    Written (sent ++ (h.sends h').toList) h' := by
  have hq := (Channel.take_eq_some hc).1
  have honce := hw.once
  rw [hq, List.pairwise_cons] at honce
  have hhead : Due sent h caller frame := hw.queue caller frame (by rw [hq]; exact List.mem_cons_self)
  have hcover : Covered (sent ++ (h.sends h').toList) h caller ∧ (∀ x ∈ h.sends h', h'.Sent x ∧ ¬h.Foreign x.1) ∧
      ∀ x ∈ h.sends h', x.1 = caller := by
    rcases hhead.sends hs.numbered hlisten (by rw [hl]) with
      ⟨c, hm, rfl, ticket, limit, plan, hp, hk, -, -, he⟩ | ⟨hh, he, -⟩ <;> rw [he]
    · refine ⟨.inl ⟨_, List.mem_append_right _ (List.mem_singleton.mpr rfl), rfl⟩, fun x hx => ?_, fun x hx => ?_⟩
      · obtain rfl := Option.mem_some_iff.mp hx
        refine ⟨Host.Sent.acts ⟨hs.numbered.made c hm, fun c' hm' hid' => ⟨hk, ticket, ?_⟩⟩ ha hs.numbered,
          fun hf => hf.kind_ne_command hm rfl (by rw [hp]; rfl) hk⟩
        rw [hs.numbered.eq_of_id hm' hm hid', hp]
        rfl
      · obtain rfl := Option.mem_some_iff.mp hx
        rfl
    · exact ⟨.inr hh, nofun, nofun⟩
  obtain ⟨hcover, hnew, hid⟩ := hcover
  refine ⟨fun x hx => ?_, fun id f hf => ?_, ?_, fun id rest hw' => ?_, fun id hr' => ?_, fun id e hr' => ?_⟩
  · rcases List.mem_append.mp hx with hx | hx
    · exact (hw.took x hx).acts ha hs.numbered
    · exact (hnew x (Option.mem_toList.mp hx)).1
  · rw [hl] at hf
    have hrest := (hw.queue id f (by rw [hq]; exact List.mem_cons_of_mem _ hf)).acts ha hs.numbered
      fun c hm _ _ _ _ _ _ _ => hcalls ▸ hm
    cases hrest with
    | other p hl ht hf hh => exact .other p hl ht hf hh
    | command c hm hid' ticket limit plan hp hk hf' hns =>
      refine .command c hm hid' ticket limit plan hp hk hf' fun x hx he => ?_
      rcases List.mem_append.mp hx with hx | hx
      · exact hns x hx he
      · -- a second request of the command that has just been taken up
        have hx := Option.mem_toList.mp hx
        refine (hnew x hx).2 ?_
        rw [hid x hx]
        exact honce.1 _ hf caller rfl (congrArg some (he.symm.trans (hid x hx)))
  · rw [hl]
    exact honce.2.imp fun hf id hx hy => (hf id hx hy).acts ha hs.numbered
  · rw [hl] at hw'
    cases hw'
    exact hcover.acts ha hs.numbered
  · rw [hl] at hr'
    exact ((hw.receipts id hr').append _).acts ha hs.numbered
  · rw [hl] at hr'
    have := (hw.refused id e hr').2
    rw [hq] at this
    cases this

/-- A step of the loop begins to write no request of a command, or that of a command that waits for it. -/
theorem sends (hw : Written sent h) (hn : h.Numbered) {t : LoopTurn} (hm : LoopMove h h.link.loop t)
    (ht : h.LoopTurns t h') : h.sends h' = none ∨
      ∃ c ∈ h.calls, ∃ ticket limit plan, c.point = .writing (some ticket) limit (.operation plan) ∧
        plan.kind = .command ∧ (∀ x ∈ sent, x.1 ≠ c.id) ∧ h.sends h' = some (c.id, plan) ∧
        t.link.table = h.link.table ∧ t.link.deliveries = h.link.deliveries ∧ h.link.loop = .listening := by
  have hlink := ht.link
  generalize hl : h.link.loop = q at hm
  cases hm with
  | obeys hc =>
    have hdue := hw.queue _ _ (by rw [(Channel.take_eq_some hc).1]; exact List.mem_cons_self)
    rcases hdue.sends hn hl (by rw [hlink]) with ⟨c, hm, rfl, ticket, limit, plan, hp, hk, -, hns, he⟩ | ⟨-, he, -⟩
    · exact .inr ⟨c, hm, ticket, limit, plan, hp, hk, hns, he, rfl, rfl, rfl⟩
    · exact .inl he
  | read | told | deserted | readFailed | hungUp => exact .inl (Host.sends_eq_none (by rw [hlink]; exact nofun))
  | _ => exact .inl (Host.sends_eq_none (by rw [hl]; exact nofun))

/-- The loop ends. -/
theorem stop (hw : Written sent h) (hn : h.Numbered) (ha : Acts h a h') {l : Link} {reason : String}
    {refused : List (Nat × Except LinkError Unit)} (hl : h'.link = l.stopped reason refused)
    (hr : ∀ id, (id, .ok ()) ∈ l.receipts ++ refused → (id, .ok ()) ∈ h.link.receipts) : Written sent h' := by
  refine ⟨fun x hx => (hw.took x hx).acts ha hn, ?_, ?_, ?_, fun id hr' => ?_, ?_⟩
  · rw [hl]
    exact nofun
  · rw [hl]
    exact .nil
  · rw [hl]
    exact nofun
  · rw [hl] at hr'
    exact (hw.receipts id (hr id hr')).acts ha hn
  · rw [hl]
    exact fun id e _ => ⟨rfl, rfl⟩

theorem loop (hw : Written sent h) (hs : h.Separate planned) (ha : Acts h a h') {t : LoopTurn}
    (hm : LoopMove h h.link.loop t) (ht : h.LoopTurns t h') : Written (sent ++ (h.sends h').toList) h' := by
  have hn := hs.numbered
  have hlink := ht.link
  have hcalls := ht.calls
  have hsilent : (h.link.loop = .listening → ∀ caller rest, h'.link.loop ≠ .writing caller rest) → Written sent h' →
      Written (sent ++ (h.sends h').toList) h' := fun hl hw => by
    rw [Host.sends_eq_none hl, Option.toList_none, List.append_nil]
    exact hw
  have hkeep : t.link.commands = h.link.commands → t.link.receipts = h.link.receipts →
      (∀ id rest, t.link.loop = .writing id rest → ∃ rest', h.link.loop = .writing id rest') → Written sent h' :=
    fun hc hr hl => hw.keep ha hn (fun _ _ _ c hm _ _ _ _ _ _ _ => hcalls ▸ hm)
      ⟨[], by rw [hlink, hc, List.append_nil], nofun⟩ (by rw [hlink, hc]) (by rw [hlink]; exact hl)
      (by rw [hlink, hr]; exact fun _ => id)
  have hrefused : ∀ {calls reason queue} {id : Nat}, (id, .ok ()) ∈ h.link.receipts ++ Host.refusals calls reason queue →
      (id, .ok ()) ∈ h.link.receipts := fun hr => (List.mem_append.mp hr).resolve_right Host.refusals_error
  generalize hl : h.link.loop = q at hm hkeep hsilent
  cases hm with
  | readFailed | hungUp | told | deserted =>
    exact hsilent (by rw [hlink]; exact nofun) (hw.stop hn ha hlink fun _ => hrefused)
  | misframed e => exact hsilent nofun (hw.stop hn ha hlink fun _ => hrefused)
  | writeFailed caller rest text hf =>
    refine hsilent nofun (hw.stop hn ha hlink fun id hr => ?_)
    rcases List.mem_append.mp hr with hr | hr
    · exact (List.mem_append.mp hr).resolve_right fun hr => by cases Host.receiptFor_eq hr
    · exact (Host.refusals_error hr).elim
  | obeys hc => exact hw.obey hs ha hl hc hlink hcalls
  | written caller hf =>
    refine hsilent nofun ⟨fun x hx => (hw.took x hx).acts ha hn, ?_, ?_, ?_, fun id hr => ?_, fun id e hr => ?_⟩
    · rw [hlink]
      exact fun id f hf => (hw.queue id f hf).acts ha hn fun c hm _ _ _ _ _ _ _ => hcalls ▸ hm
    · rw [hlink]
      exact hw.once.imp fun hf id hx hy => (hf id hx hy).acts ha hn
    · rw [hlink]
      exact nofun
    · rw [hlink] at hr
      rcases List.mem_append.mp hr with hr | hr
      · exact (hw.receipts id hr).acts ha hn
      · cases Host.receiptFor_eq hr
        exact (hw.writing _ _ hl).acts ha hn
    · rw [hlink] at hr ⊢
      rcases List.mem_append.mp hr with hr | hr
      · exact hw.refused id e hr
      · cases Host.receiptFor_eq hr
  | writes caller rest hf hr n hn' h0 =>
    exact hsilent nofun (hkeep rfl rfl fun id rest hw => by cases hw; exact ⟨_, rfl⟩)
  | waits p rest fault ho => exact hsilent nofun (hkeep rfl rfl fun id rest hw => by rw [hl] at hw; cases hw)
  | partsLater reason ho => exact hsilent nofun (hkeep rfl rfl fun id rest hw => by rw [hl] at hw; cases hw)
  | read => exact hsilent (by rw [hlink]; exact nofun) (hkeep rfl rfl nofun)
  | _ => exact hsilent nofun (hkeep rfl rfl nofun)

/-- A step of a call. -/
theorem move (hw : Written sent h) (hs : h.Separate planned)
    (hplan : ∀ x ∈ planned, x.2.Named ∧ x.2.request.totalLength ≤ Frame.maxLength) {c : Call} (hc : c ∈ h.calls)
    {m : Move} (hm : CallMove h c c.point m) (hl : h.Leaves c m h') (ha : Acts h a h') : Written sent h' := by
  have hedits := hl.edits hs.unstarted hm
  have hqueue : h'.link.commands.queue = m.link.commands.queue := by rw [hl.link, Move.linkAfter_queue]
  rcases hm.queue hs.unstarted with ⟨xs, hxs, hshut⟩ | ⟨frame, ticket, limit, purpose, hp, hg, hq⟩
  · refine hw.keep ha hs.numbered (fun id frame hf x hx hid ticket limit plan hp hk hns => ?_) ⟨xs, hqueue.trans hxs, ?_⟩
      hedits.reach.commandsClosed (fun id rest hw' => ?_) hedits.reach.receipts
    · rw [hl.calls]
      refine Move.mem_callsAfter_of_ne hx fun he => ?_
      obtain rfl := hs.numbered.eq_of_id hx hc he
      rw [hw.waits hx hm hp hk (by rw [hid]; exact hns)] at hf
      cases hf
    · obtain ⟨ys, hys, hsends⟩ := hedits.reach.queue
      obtain rfl : xs = ys := List.append_cancel_left (hxs.symm.trans (hqueue.symm.trans hys))
      exact fun x hx => ⟨(hsends x hx).1, hshut x hx⟩
    · rcases hedits.frame.loop with hloop | ⟨-, hloop⟩ <;> rw [hloop] at hw'
      · exact ⟨rest, hw'⟩
      · cases hw'
  · exact hw.enter hs hplan hc hm hl ha hp hg (hqueue.trans hq)

/-- **Requests are handed over once**, unless a command is dropped that still waits for its request to be taken up. -/
theorem acts (hw : Written sent h) (hs : h.Separate planned)
    (hplan : ∀ x ∈ planned, x.2.Named ∧ x.2.request.totalLength ≤ Frame.maxLength) (ha : Acts h a h') (hv : a.viaSession)
    (hlost : ∀ c ∈ h.calls, a = .abandon c.id → ∀ t plan, c.point.requested? = some (t, plan) → plan.kind = .command →
      ∃ x ∈ sent, x.1 = c.id) : Written (sent ++ (h.sends h').toList) h' := by
  have hn := hs.numbered
  have hsilent : h'.link.loop = h.link.loop ∨ h.link.loop = .absent ∧ h'.link.loop = .listening → Written sent h' →
      Written (sent ++ (h.sends h').toList) h' := fun hl hw => by
    rw [Host.sends_keep hl, Option.toList_none, List.append_nil]
    exact hw
  have hkeep : (∀ c ∈ h.calls, c ∈ h'.calls) → h'.link.commands = h.link.commands → h'.link.receipts = h.link.receipts →
      h'.link.loop = h.link.loop → Written (sent ++ (h.sends h').toList) h' := fun hc hco hr hl =>
    hsilent (.inl hl) (hw.keep ha hn (fun _ _ _ c hm _ _ _ _ _ _ _ => hc c hm) ⟨[], by rw [hco, List.append_nil], nofun⟩
      (by rw [hco]) (by rw [hl]; exact fun id rest hw => ⟨rest, hw⟩) (by rw [hr]; exact fun _ => id))
  have hact := ha
  cases ha with
  | loop inputFirst hm ht => exact hw.loop hs hact hm ht
  | dispatcher inputFirst hm ht =>
    obtain ⟨events, he⟩ := hm.link
    exact hkeep (by rw [ht.calls]; exact fun _ => id) (by rw [ht.link, he]) (by rw [ht.link, he]) (by rw [ht.link, he])
  | call inputFirst hc hm hl =>
    exact hsilent (hl.edits hs.unstarted hm).frame.loop (hw.move hs hplan (Host.call?_mem hc) hm hl hact)
  | make r hm ready => exact hkeep (fun c hc => List.mem_append_left _ hc) rfl rfl rfl
  | @abandon id c hc released hr ready =>
    have hedits : Link.EditsBy c.id c.point h.link (h.link.vacate c) := .vacate .refl
    refine hsilent hedits.frame.loop (hw.keep hact hn (fun id' frame hf x hx hid ticket limit plan hp hk hns => ?_)
      ⟨[], by rw [List.append_nil]; exact h.link.vacate_queue c, nofun⟩ hedits.reach.commandsClosed
      (fun id rest hw' => ?_) hedits.reach.receipts)
    · refine List.mem_filter.mpr ⟨hx, ?_⟩
      by_contra he
      obtain rfl := hn.eq_of_id hx (Host.call?_mem hc) (by simpa using he)
      obtain ⟨y, hy, hyx⟩ := hlost x hx (by rw [Host.call?_id hc]) ticket plan (by rw [hp]; rfl) hk
      exact hns y hy (hyx.trans hid)
    · rw [Link.loop_vacate] at hw'
      exact ⟨rest, hw'⟩
  | register | withdraw | forward | takeEvent | dropListener => cases hv
  | _ => exact hkeep (fun _ => id) rfl rfl rfl

end Written
end TwinLink
