import TwinLink.Proofs.Host.Holders

/-!
# What calls and the application do to the link

Only the receive loop takes frames apart and only it counts and delivers packets. Everything else changes the link in a
few small ways, and what these leave alone, no call can touch.

* `Link.Edit` : the small changes; `Link.Edits ok` : any number of them, all `ok`;
* `Edit.By id q` : those within the reach of the call `id` that stands at the point `q`;
* `CallMove.edits` : a move of a call is some of these;
* `Link.Edits.frame` : what edits leave alone; `WaitTable.Ordered.edits` : the table of waiters stays in order.
-/

namespace TwinLink

/-! ## Small changes -/

/-- What a call at this point may register for. -/
def Point.Asks : Point → UInt8 → Prop
  | .begun (.exchange _ expect _), type => type = expect
  | .begun (.receive expect _), type => type = expect
  | .begun .start, type => type = Stage.reset.response.code
  | .inLine plan, type => type = plan.kind.response.code
  | .awaiting _ _ _ (.handshake _ _), type => type = Stage.describe.response.code
  | .pausing _ stage _, type => type = stage.response.code
  | _, _ => False

/-- What a call at this point may put into the command queue. -/
def Point.Sends (id : Nat) : Point → LinkCommand → Prop
  | .entering frame _ _ _, x => x = .write id frame
  | .shutting _, x => x = .shutdown
  | _, _ => False

namespace Link

/-- A small change of the link from outside its loop. -/
inductive Edit
  | enroll (type : UInt8) (matcher : Matcher)
  | withdraw (id : Nat)
  | shut (reason : String)
  | send (caller : Nat) (x : LinkCommand)
  | leave (caller : Nat)
  | dropReceipt (caller : Nat)
  | forward (on : Bool)
  | timedOut
  | listen

namespace Edit

/-- The link after the change. -/
def makes (l : Link) : Edit → Link
  | enroll type matcher => l.enroll type matcher
  | withdraw id => l.withdraw id
  | shut reason => l.shut reason
  | send caller x => { l with commands := (l.commands.offer (.call caller) x).1 }
  | leave caller => { l with commands := (l.commands.withdraw (.call caller)).1 }
  | dropReceipt caller => l.dropReceipt caller
  | forward on => { l with forwarding := on }
  | timedOut => { l with metrics := { l.metrics with timeouts := l.metrics.timeouts + 1 } }
  | listen => { l with loop := .listening }

/-- Whether the link can be changed so. -/
def Allowed (l : Link) : Edit → Prop
  | enroll _ _ => l.table.closed = none
  | listen => l.loop = .absent
  | _ => True

/-- Whether the change is within the reach of the call `id` at the point `q`. -/
def By (id : Nat) (q : Point) : Edit → Prop
  | enroll type _ => q.Asks type
  | withdraw ticket => q.ticket?.map (·.id) = some ticket
  | send caller x => caller = id ∧ q.Sends id x
  | leave caller => caller = id
  | dropReceipt caller => caller = id
  | _ => True

end Edit

/-- Any number of small changes, all of them `ok`. -/
inductive Edits (ok : Edit → Prop) (l : Link) : Link → Prop
  | refl : Edits ok l l
  | tail {l' : Link} (he : Edits ok l l') (e : Edit) (hok : ok e) (ha : e.Allowed l') : Edits ok l (e.makes l')

namespace Edits

variable {ok : Edit → Prop} {l l' l'' : Link}

theorem trans (h₁ : Edits ok l l') (h₂ : Edits ok l' l'') : Edits ok l l'' := by
  induction h₂ with
  | refl => exact h₁
  | tail _ e hok ha ih => exact ih.tail e hok ha

end Edits

/-! ### Changes by a call -/

/-- What the call `id` at the point `q` makes of a link. -/
abbrev EditsBy (id : Nat) (q : Point) : Link → Link → Prop := Edits (Edit.By id q)

namespace EditsBy

variable {id : Nat} {q : Point} {l l' : Link}

theorem enroll (he : EditsBy id q l l') (ho : l'.table.closed = none) {type : UInt8} (hq : q.Asks type)
    (matcher : Matcher) : EditsBy id q l (l'.enroll type matcher) := Edits.tail he (.enroll type matcher) hq ho

theorem withdraw (he : EditsBy id q l l') {ticket : Nat} (hq : q.ticket?.map (·.id) = some ticket) :
    EditsBy id q l (l'.withdraw ticket) := Edits.tail he (.withdraw ticket) hq trivial

theorem withdraw? (he : EditsBy id q l l') {ticket : Option Ticket} (hq : q.ticket? = ticket) :
    EditsBy id q l (ticket.elim l' fun t => l'.withdraw t.id) := by
  cases ticket with
  | none => exact he
  | some t => exact he.withdraw (by rw [hq]; rfl)

theorem shut (he : EditsBy id q l l') (reason : String) : EditsBy id q l (l'.shut reason) :=
  Edits.tail he (.shut reason) trivial trivial

theorem send (he : EditsBy id q l l') {x : LinkCommand} (hq : q.Sends id x) {commands : Channel LinkCommand}
    {admission : Admission} (ho : l'.commands.offer (.call id) x = (commands, admission)) :
    EditsBy id q l { l' with commands := commands } := by
  have := Edits.tail he (.send id x) ⟨rfl, hq⟩ trivial
  rwa [Edit.makes, ho] at this

theorem dropReceipt (he : EditsBy id q l l') : EditsBy id q l (l'.dropReceipt id) :=
  Edits.tail he (.dropReceipt id) rfl trivial

theorem vacate {c : Call} (he : EditsBy c.id c.point l l') : EditsBy c.id c.point l (l'.vacate c) :=
  (EditsBy.dropReceipt (Edits.tail he (.leave c.id) rfl trivial)).withdraw? rfl

end EditsBy

end Link

open Link (Edits EditsBy)

/-! ## Moves of calls -/

variable {h : Host} {c : Call} {q : Point} {m : Move} {l : Link} {s : Session} {notes : List Happening}

theorem Fails.edits {purpose : Purpose} {e : LinkError} {l₀ : Link} (hl : EditsBy c.id q l₀ l)
    (hf : Fails h l notes purpose e m) : EditsBy c.id q l₀ m.link := by
  cases hf with
  | fault stage retries e he => exact hl.shut _
  | _ => exact hl

theorem Attempts.edits {stage : Stage} {retries : Nat} {l₀ : Link} (hl : EditsBy c.id q l₀ l)
    (hq : q.Asks stage.response.code) (ha : Attempts l s notes stage retries m) : EditsBy c.id q l₀ m.link := by
  cases ha with
  | opened ho => exact hl.enroll ho hq _
  | closed reason hc => exact hl.shut _

/-- Before the port is taken no loop runs. -/
def Host.Unstarted (h : Host) : Prop := h.session.portTaken = false → h.link.loop = .absent

theorem BeginMove.edits {r : Request} (hu : h.Unstarted) (hm : BeginMove h c r m) :
    EditsBy c.id (.begun r) h.link m.link := by
  have hr : EditsBy c.id (.begun r) h.link h.link := .refl
  cases hm with
  | exchange p expect limit ho => exact hr.enroll ho rfl _
  | receive type limit ho => exact hr.enroll ho rfl _
  | shutDown => exact hr.shut _
  | start hp ht ha => exact ha.edits (hr.tail .listen trivial (hu ht)) rfl
  | close hl => exact hr.shut _
  | _ => exact hr

theorem CallMove.edits (hu : h.Unstarted) (hm : CallMove h c q m) : EditsBy c.id q h.link m.link := by
  have hr : EditsBy c.id q h.link h.link := .refl
  cases hm with
  | begin hm => exact hm.edits hu
  | locked plan ha ho => exact hr.enroll ho rfl _
  | entered frame ticket limit purpose ho => exact hr.send rfl ho
  | queued frame ticket limit purpose ho => exact hr.send rfl ho
  | shutOut frame ticket limit purpose hc hf => exact hf.edits (hr.withdraw? rfl)
  | unwritten ticket limit purpose e hd hf => exact hf.edits (hr.dropReceipt.withdraw? rfl)
  | sent limit purpose hd => exact hr.dropReceipt
  | written ticket limit purpose hd => exact hr.dropReceipt
  | failed ticket limit alarm purpose e hd hf => exact hf.edits (hr.withdraw rfl)
  | timedOut ticket limit alarm purpose hd ha hf => exact hf.edits ((hr.withdraw rfl).tail .timedOut trivial trivial)
  | received ticket limit alarm p hd => exact hr.withdraw rfl
  | unreadable ticket limit alarm plan p hd e hp => exact hr.withdraw rfl
  | answered ticket limit alarm plan p hd value hp hk => exact hr.withdraw rfl
  | taken ticket limit alarm plan p hd value hp hk hc => exact hr.withdraw rfl
  | acknowledged ticket limit alarm retries p hd ha => exact ha.edits (hr.withdraw rfl) rfl
  | misdescribed ticket limit alarm retries p hd e hp => exact (hr.withdraw rfl).shut _
  | described ticket limit alarm retries p hd d hp => exact hr.withdraw rfl
  | paused alarm stage retries ha hm => exact hm.edits hr rfl
  | refused d call todo pending ha text hp => exact hr.shut _
  | started d => exact hr.tail (.forward true) trivial trivial
  | told answer ho => exact hr.send rfl ho
  | telling answer ho => exact hr.send rfl ho
  | _ => exact hr

theorem Move.linkAfter_edits (m : Move) (c : Call) : EditsBy c.id c.point m.link (m.linkAfter c) := by
  unfold Move.linkAfter
  split
  · exact EditsBy.vacate .refl
  · exact .refl

theorem Host.Leaves.edits {h' : Host} (hl : h.Leaves c m h') (hu : h.Unstarted) (hm : CallMove h c c.point m) :
    EditsBy c.id c.point h.link h'.link := by
  rw [hl.link]
  exact (hm.edits hu).trans (m.linkAfter_edits c)

/-! ## Before the start -/

theorem Fails.loop {purpose : Purpose} {e : LinkError} (hf : Fails h l notes purpose e m) :
    m.link.loop = l.loop ∧ m.session.portTaken = h.session.portTaken := by
  cases hf <;> exact ⟨rfl, rfl⟩

theorem Attempts.loop {stage : Stage} {retries : Nat} (ha : Attempts l s notes stage retries m) :
    m.link.loop = l.loop ∧ m.session.portTaken = s.portTaken := by
  cases ha <;> exact ⟨rfl, rfl⟩

theorem loop_withdraw? (l : Link) (ticket : Option Ticket) : (ticket.elim l fun t => l.withdraw t.id).loop = l.loop := by
  cases ticket <;> rfl

theorem Link.loop_vacate (l : Link) (c : Call) : (l.vacate c).loop = l.loop := by
  unfold Link.vacate
  rw [loop_withdraw?]
  rfl

/-- A move that does not take the port leaves the loop where it is. -/
theorem CallMove.loop (hm : CallMove h c q m) :
    m.link.loop = h.link.loop ∧ m.session.portTaken = h.session.portTaken ∨ m.session.portTaken = true := by
  cases hm with
  | begin hm =>
    cases hm with
    | start hp ht ha => exact .inr ha.loop.2
    | closeIdle hl => exact .inr rfl
    | close hl => exact .inr rfl
    | _ => exact .inl ⟨rfl, rfl⟩
  | locked plan ha ho => exact .inl ⟨rfl, by simp⟩
  | lockedClosed plan ha reason hc => exact .inl ⟨rfl, by simp⟩
  | lined plan ha => exact .inl ⟨rfl, by simp⟩
  | shutOut frame ticket limit purpose hc hf => exact .inl ⟨hf.loop.1.trans (loop_withdraw? _ _), hf.loop.2⟩
  | unwritten ticket limit purpose e hd hf => exact .inl ⟨hf.loop.1.trans (loop_withdraw? _ _), hf.loop.2⟩
  | failed ticket limit alarm purpose e hd hf => exact .inl hf.loop
  | timedOut ticket limit alarm purpose hd ha hf => exact .inl hf.loop
  | acknowledged ticket limit alarm retries p hd ha => exact .inl ha.loop
  | paused alarm stage retries ha hm => exact .inl hm.loop
  | _ => exact .inl ⟨rfl, rfl⟩

theorem Move.linkAfter_loop (m : Move) (c : Call) : (m.linkAfter c).loop = m.link.loop := by
  unfold Move.linkAfter
  split
  · exact m.link.loop_vacate c
  · rfl

/-- The dispatcher takes an event when it listens, and may stop listening then. -/
theorem DispatchMove.takes {p : DispatchPoint} {t : DispatchTurn} (hm : DispatchMove h p t) :
    (p = .listening ∧ ∃ event events woken, h.link.events.take? = some (event, events, woken) ∧
      (t.link = { h.link with events := events } ∨ t.link = { h.link with events := events.discard.1 })) ∨
    p ≠ .listening ∧ t.link = h.link := by
  cases hm with
  | deserted he ha => exact .inl ⟨rfl, _, _, _, he, .inr rfl⟩
  | ends he hn => exact .inl ⟨rfl, _, _, _, he, .inr rfl⟩
  | premature he hp => exact .inl ⟨rfl, _, _, _, he, .inl rfl⟩
  | undescribed he hd => exact .inl ⟨rfl, _, _, _, he, .inl rfl⟩
  | drops he hp hd hu => exact .inl ⟨rfl, _, _, _, he, .inl rfl⟩
  | reports he hp hd hu => exact .inl ⟨rfl, _, _, _, he, .inl rfl⟩
  | reported ha => exact .inr ⟨nofun, rfl⟩

/-- It changes nothing of the link but the event channel. -/
theorem DispatchMove.link {p : DispatchPoint} {t : DispatchTurn} (hm : DispatchMove h p t) :
    ∃ events, t.link = { h.link with events := events } := by
  rcases hm.takes with ⟨-, _, events, _, -, hl | hl⟩ | ⟨-, hl⟩ <;> exact ⟨_, hl⟩

theorem DispatchMove.portTaken {p : DispatchPoint} {t : DispatchTurn} (hm : DispatchMove h p t) :
    t.session.portTaken = h.session.portTaken := by
  cases hm <;> rfl

/-- It learns nothing of the device. -/
theorem DispatchMove.descriptor {p : DispatchPoint} {t : DispatchTurn} (hm : DispatchMove h p t) :
    t.session.descriptor = h.session.descriptor := by
  cases hm <;> rfl

theorem Host.Unstarted.acts {h' : Host} {a : Action} (ha : Acts h a h') (hu : h.Unstarted) : h'.Unstarted := by
  intro ht
  cases ha with
  | loop inputFirst hm ht' =>
    rw [ht'.session] at ht
    rw [hu ht] at hm
    cases hm
  | dispatcher inputFirst hm ht' =>
    rw [ht'.session, hm.portTaken] at ht
    obtain ⟨events, he⟩ := hm.link
    rw [ht'.link, he]
    exact hu ht
  | call inputFirst hc hm hl =>
    rw [hl.session, Move.sessionAfter_portTaken] at ht
    obtain ⟨hloop, hp⟩ := hm.loop.resolve_right (by rw [ht]; exact nofun)
    rw [hl.link, Move.linkAfter_loop, hloop]
    exact hu (hp.symm.trans ht)
  | abandon hc released hr ready =>
    rw [Session.vacate_portTaken] at ht
    exact (Link.loop_vacate _ _).trans (hu ht)
  | _ => exact hu ht

/-- What an action does to the link: a move of the loop, or a change of the event channel alone, or edits. -/
theorem Acts.link {h' : Host} {a : Action} (ha : Acts h a h') (hu : h.Unstarted) :
    (∃ i t, a = .advance .loop i ∧ LoopMove h h.link.loop t ∧ h.LoopTurns t h') ∨
    (∃ events, h'.link = { h.link with events := events }) ∨ ∃ ok, Edits ok h.link h'.link := by
  have hr : Edits (fun _ => True) h.link h.link := .refl
  cases ha with
  | loop inputFirst hm ht => exact .inl ⟨inputFirst, _, rfl, hm, ht⟩
  | dispatcher inputFirst hm ht =>
    obtain ⟨events, he⟩ := hm.link
    exact .inr (.inl ⟨events, by rw [ht.link, he]⟩)
  | call inputFirst hc hm hl => exact .inr (.inr ⟨_, hl.edits hu hm⟩)
  | abandon hc released hr' ready => exact .inr (.inr ⟨_, EditsBy.vacate .refl⟩)
  | register type matcher ho => exact .inr (.inr ⟨_, hr.tail (.enroll type matcher) trivial ho⟩)
  | withdraw ticket ht => exact .inr (.inr ⟨_, hr.tail (.withdraw ticket.id) trivial trivial⟩)
  | forward on => exact .inr (.inr ⟨_, hr.tail (.forward on) trivial trivial⟩)
  | takeEvent hd he ready => exact .inr (.inl ⟨_, rfl⟩)
  | dropListener hd ready => exact .inr (.inl ⟨_, rfl⟩)
  | _ => exact .inr (.inr ⟨_, hr⟩)

/-! ## What edits leave alone -/

namespace Link.Edits

variable {l l' : Link}

/-- Decoding, counting of packets, passing on and, but for its first step, the loop are out of their reach, and they
deliver no packets. -/
structure Frame (l l' : Link) : Prop where
  config : l'.config = l.config
  decoder : l'.decoder = l.decoder
  events : l'.events = l.events
  loop : l'.loop = l.loop ∨ l.loop = .absent ∧ l'.loop = .listening
  framesReceived : l'.metrics.framesReceived = l.metrics.framesReceived
  matchedResponses : l'.metrics.matchedResponses = l.metrics.matchedResponses
  unsolicitedPackets : l'.metrics.unsolicitedPackets = l.metrics.unsolicitedPackets
  deliveries : ∀ id p, (id, .ok p) ∈ l'.deliveries → (id, .ok p) ∈ l.deliveries

theorem Frame.refl (l : Link) : Frame l l := ⟨rfl, rfl, rfl, .inl rfl, rfl, rfl, rfl, fun _ _ => id⟩

theorem Frame.edit {l l' : Link} (hf : Frame l l') {e : Edit} (ha : e.Allowed l') : Frame l (e.makes l') := by
  cases e with
  | withdraw id =>
    exact ⟨hf.config, hf.decoder, hf.events, hf.loop, hf.framesReceived, hf.matchedResponses, hf.unsolicitedPackets,
      fun id p hd => hf.deliveries id p (List.mem_filter.mp hd).1⟩
  | shut reason =>
    refine ⟨hf.config, hf.decoder, hf.events, hf.loop, hf.framesReceived, hf.matchedResponses, hf.unsolicitedPackets,
      fun id p hd => hf.deliveries id p ?_⟩
    rcases List.mem_append.mp hd with hd | hd
    · exact hd
    · obtain ⟨w, -, hw⟩ := List.mem_map.mp hd
      cases hw
  | listen =>
    refine ⟨hf.config, hf.decoder, hf.events, .inr ⟨?_, rfl⟩, hf.framesReceived, hf.matchedResponses,
      hf.unsolicitedPackets, hf.deliveries⟩
    have ha : l'.loop = .absent := ha
    rcases hf.loop with hloop | ⟨habs, hloop⟩
    · rw [← hloop, ha]
    · exact habs
  | _ =>
    exact ⟨hf.config, hf.decoder, hf.events, hf.loop, hf.framesReceived, hf.matchedResponses, hf.unsolicitedPackets,
      hf.deliveries⟩

theorem frame {ok : Edit → Prop} (he : Edits ok l l') : Frame l l' := by
  induction he with
  | refl => exact .refl l
  | tail _ e hok ha ih => exact ih.edit ha

end Link.Edits

/-! ## The table of waiters -/

/-- Registrations stand in the order they were opened, which is that of their numbers. -/
structure WaitTable.Ordered (t : WaitTable) : Prop where
  pairwise : t.entries.Pairwise fun v w => v.id < w.id
  lt : ∀ w ∈ t.entries, w.id < t.nextId

/-- The table with one more registration, which gets the next number. -/
def WaitTable.enroll (t : WaitTable) (type : UInt8) (matcher : Matcher) : WaitTable :=
  { t with entries := t.entries ++ [⟨t.nextId, type, matcher⟩], nextId := t.nextId + 1 }

theorem WaitTable.mem_enroll {t : WaitTable} {type : UInt8} {matcher : Matcher} {w : Waiter} :
    w ∈ (t.enroll type matcher).entries ↔ w ∈ t.entries ∨ w = ⟨t.nextId, type, matcher⟩ := by
  rw [enroll, List.mem_append, List.mem_singleton]

namespace WaitTable.Ordered

variable {t t' : WaitTable}

theorem of_sublist (ht : t.Ordered) (he : t'.entries.Sublist t.entries) (hn : t'.nextId = t.nextId) : t'.Ordered :=
  ⟨ht.pairwise.sublist he, fun w hw => hn ▸ ht.lt w (he.subset hw)⟩

theorem enroll (ht : t.Ordered) (type : UInt8) (matcher : Matcher) : (t.enroll type matcher).Ordered where
  pairwise := by
    refine List.pairwise_append.mpr ⟨ht.pairwise, List.pairwise_singleton _ _, fun v hv w hw => ?_⟩
    obtain rfl := List.mem_singleton.mp hw
    exact ht.lt v hv
  lt w hw := by
    rcases mem_enroll.mp hw with hw | rfl
    · exact Nat.lt_succ_of_lt (ht.lt w hw)
    · exact Nat.lt_succ_self _

theorem edit {l : Link} (ht : l.table.Ordered) (e : Link.Edit) : (e.makes l).table.Ordered := by
  cases e with
  | enroll type matcher => exact ht.enroll type matcher
  | withdraw id => exact ht.of_sublist List.filter_sublist rfl
  | shut reason => exact ht.of_sublist (List.nil_sublist _) rfl
  | _ => exact ht

theorem edits {l l' : Link} {ok : Link.Edit → Prop} (ht : l.table.Ordered) (he : Edits ok l l') :
    l'.table.Ordered := by
  induction he with
  | refl => exact ht
  | tail _ e hok ha ih => exact ih.edit e

/-- The registration that a packet is matched with is the first that accepts it, and it leaves the table. -/
theorem takeMatch {p : Packet} {w : Waiter} (ht : t.Ordered) (hm : t.takeMatch? p = some (w, t')) :
    w ∈ t.entries ∧ w.accepts p ∧ (∀ v ∈ t.entries, v.accepts p → w.id ≤ v.id) ∧
      t' = { t with entries := t.entries.erase w } := by
  unfold takeMatch? at hm
  split at hm
  · cases hm
  · rename_i v hf
    obtain ⟨rfl, rfl⟩ : v = w ∧ _ = t' := by simpa using hm
    obtain ⟨hacc, as, bs, hes, has⟩ := List.find?_eq_some_iff_append.mp hf
    have has : ∀ u ∈ as, u.accepts p = false := fun u hu => by simpa using has u hu
    refine ⟨List.mem_of_find?_eq_some hf, hacc, fun u hu hu' => ?_, ?_⟩
    · have hp := ht.pairwise
      rw [hes] at hp hu
      rcases List.mem_append.mp hu with hu | hu
      · rw [has u hu] at hu'
        cases hu'
      · rcases List.mem_cons.mp hu with rfl | hu
        · exact Nat.le_refl _
        · exact Nat.le_of_lt ((List.pairwise_cons.mp (List.pairwise_append.mp hp).2.1).1 u hu)
    · -- nothing before it accepts the packet, so it is not among what is before it
      have hmem : v ∉ as := fun hv => by rw [has v hv] at hacc; cases hacc
      rw [hes, List.eraseP_append_right _ (by simpa using has), List.eraseP_cons, hacc, cond_true,
        List.erase_append_right _ hmem, List.erase_cons_head]

end WaitTable.Ordered

theorem WaitTable.takeMatch_waiter (t : WaitTable) (p : Packet) :
    (t.takeMatch? p).map (·.1) = t.entries.find? (·.accepts p) := by
  unfold takeMatch?
  cases t.entries.find? (·.accepts p) <;> rfl

theorem WaitTable.takeMatch_none {t : WaitTable} {p : Packet} (hm : t.takeMatch? p = none) :
    ∀ w ∈ t.entries, w.accepts p = false := by
  unfold takeMatch? at hm
  split at hm
  · rename_i hf
    simpa using hf
  · cases hm

theorem WaitTable.any_accepts (t : WaitTable) (p : Packet) :
    t.entries.any (·.accepts p) = (t.takeMatch? p).isSome := by
  unfold takeMatch?
  cases hf : t.entries.find? (·.accepts p) with
  | none => simpa using hf
  | some w => exact List.any_eq_true.mpr ⟨w, List.mem_of_find?_eq_some hf, by simpa using List.find?_some hf⟩

/-- The table stays in order in every run. -/
theorem WaitTable.Ordered.acts {h' : Host} {a : Action} (ha : Acts h a h') (hu : h.Unstarted)
    (ht : h.link.table.Ordered) : h'.link.table.Ordered := by
  rcases ha.link hu with ⟨i, t, rfl, hm, hl⟩ | ⟨events, he⟩ | ⟨ok, he⟩
  · rw [hl.link]
    generalize h.link.loop = q at hm
    have hshut : ∀ {t' : WaitTable}, t'.entries = [] → t'.Ordered := fun he =>
      ⟨by rw [he]; exact .nil, by rw [he]; exact nofun⟩
    cases hm with
    | readFailed | hungUp | told | deserted | misframed | writeFailed => exact hshut rfl
    | matched frame rest fault p hp hm =>
      obtain ⟨-, -, -, rfl⟩ := ht.takeMatch hm
      exact ht.of_sublist List.erase_sublist rfl
    | _ => exact ht
  · rw [he]
    exact ht
  · exact ht.edits he

end TwinLink
