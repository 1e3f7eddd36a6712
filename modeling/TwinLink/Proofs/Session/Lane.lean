import TwinLink.Proofs.Link.Routing
import TwinLink.Proofs.Session.Requests

/-!
# Commands take turns

A command gets the lock, registers for its reply, has its request taken up, and is answered, before another one gets
there; so the replies that reach registrations pair off with the requests taken up.

* `Moment.acquired`, `Moment.reply`, `Moment.matched` : what is seen of commands at a moment of a run;
* `Book` : all that has been seen; `Turn b l id t plan` : how far the command that has its turn has got;
* `Lane b h` : what holds of the turns; `Lane.acts` : it is kept by everything that happens;
* `Lane.move`, `Lane.abandon` : steps of calls; `Lane.loop` : steps of the loop.
-/

namespace TwinLink
open Link (Standing Stands EditsBy)

/-! ## What is seen of commands -/

/-- The packet is the reply to a command. -/
def Packet.isReply (p : Packet) : Bool := p.type == PacketKind.commandResponse.code

namespace Host

/-- The call gets the lock for commands when it takes a step. -/
def acquires (h : Host) (c : Call) : Option Nat :=
  match c.point with
  | .inLine plan => if plan.kind = .command ∧ (h.session.commandLock.acquire c.id).2 then some c.id else none
  | _ => none

/-- The request of a command was handed to the link, and no reply has been delivered. -/
def outstanding (h : Host) (c : Call) : Bool :=
  c.point.requested?.any fun (ticket, plan) => plan.kind == .command && match h.link.delivery? ticket.id with
    | some (.ok _) => false
    | _ => true

/-- The call gives up waiting for its packet when it takes a step. -/
def timesOut (h : Host) (c : Call) : Bool :=
  match c.point with
  | .awaiting ticket _ (some alarm) _ => (h.link.delivery? ticket.id).isNone && decide (alarm.due ≤ h.now)
  | _ => false

end Host

namespace Moment

/-- The call that gets the lock for commands. -/
def acquired (m : Moment) : Option Nat := m.mover.bind m.host.acquires

/-- A command times out, or is dropped, while its request is outstanding. -/
def loses (m : Moment) : Bool :=
  match m.action with
  | .advance (.call id) _ => (m.host.call? id).any fun c => m.host.outstanding c && m.host.timesOut c
  | .abandon id => (m.host.call? id).any m.host.outstanding
  | _ => false

/-- The reply to a command, whoever it is for, that the loop sorts. -/
def reply (m : Moment) : Option Packet :=
  m.sorted.bind fun frame => (Packet.ofFrame frame).toOption.filter Packet.isReply

/-- The reply to a command that a registration takes. -/
def matched (m : Moment) : Option Packet :=
  m.reply.filter fun p => m.host.link.table.entries.any (·.accepts p)

end Moment

/-- What has been seen of commands: who got the lock, whose requests were taken up, the replies that were sorted and
those that registrations took. -/
structure Book where
  acquired : List Nat
  sent : List (Nat × Plan)
  replies : List Packet
  matched : List Packet

/-- The book after an action on `h`, which makes it `h'`. -/
def Book.add (b : Book) (h : Host) (a : Action) (h' : Host) : Book where
  acquired := b.acquired ++ (Moment.mk h a).acquired.toList
  sent := b.sent ++ (h.sends h').toList
  replies := b.replies ++ (Moment.mk h a).reply.toList
  matched := b.matched ++ (Moment.mk h a).matched.toList

theorem Book.add_eq_self (b : Book) {h h' : Host} {a : Action} (ha : (Moment.mk h a).acquired = none)
    (hs : h.sends h' = none) (hr : (Moment.mk h a).reply = none) : b.add h a h' = b := by
  simp [add, Moment.matched, ha, hs, hr]

/-- The reply carries the name of the first request that has no reply yet. -/
def Book.Expects (b : Book) (p : Packet) : Prop :=
  ∃ x payload, b.sent[b.replies.length]? = some x ∧ NamedPayload.decode p.payload = .ok payload ∧ payload.name = x.2.name

/-- Those whose requests were taken up. -/
def Book.callers (b : Book) : List Nat := b.sent.map (·.1)

/-- What a plan registers under a number. -/
def Plan.waiter (plan : Plan) (t : Nat) : Waiter := ⟨t, plan.kind.response.code, .named plan.name⟩

/-- How far the command `plan` of the call `id` has got, which holds the registration `t`. -/
inductive Turn (b : Book) (l : Link) (id : Nat) (t : Ticket) (plan : Plan) : Prop
  /-- Its request has not been taken up, and all before it were answered. -/
  | unsent (hs : id ∉ b.callers) (hn : b.sent.length = b.matched.length)
      (ha : ∃ before, b.acquired = before ++ [id] ∧ b.callers.Sublist before)
      (hst : l.Stands t.id (.waits (plan.waiter t.id)) ∨ l.Stands t.id .lost)
  /-- Its request was the last, and the only one without an answer. -/
  | asked (before : List (Nat × Plan)) (hs : b.sent = before ++ [(id, plan)]) (hn : before.length = b.matched.length)
      (hst : l.Stands t.id (.waits (plan.waiter t.id)))
  /-- Its request was the last, and so was the answer to it. -/
  | answered (before : List (Nat × Plan)) (answers : List Packet) (p : Packet) (hs : b.sent = before ++ [(id, plan)])
      (hm : b.matched = answers ++ [p]) (hn : before.length = answers.length) (hst : l.Stands t.id (.answered p))
  /-- Its request was taken up, and there will be no answer. -/
  | lost (hs : id ∈ b.callers) (hst : l.Stands t.id .lost)

/-- Commands take turns. -/
structure Lane (b : Book) (h : Host) : Prop where
  turn : ∀ c ∈ h.calls, ∀ t plan, c.Commands t plan → Turn b h.link c.id t plan
  free : (∀ c ∈ h.calls, ∀ t plan, ¬c.Commands t plan) → h.link.table.closed = none → b.sent.length = b.matched.length
  paced : b.sent.length ≤ b.matched.length + 1
  waiting : ∀ w ∈ h.link.table.entries, w.type = PacketKind.commandResponse.code →
    ∃ c ∈ h.calls, ∃ t plan, c.Commands t plan ∧ t.id = w.id
  matched : b.matched <+: b.replies
  current : h.link.table.closed = none → b.matched = b.replies
  once : b.acquired.Nodup
  past : ∀ id ∈ b.acquired, id < h.made ∧
    ∀ c ∈ h.calls, c.id = id → (∀ r, c.point ≠ .begun r) ∧ ∀ plan, c.point ≠ .inLine plan
  order : b.callers.Sublist b.acquired

variable {b : Book} {planned : List (Nat × Plan)} {h h' : Host} {a : Action} {c : Call} {t : Ticket} {plan : Plan}

/-- A registration that others leave where it stands, or end with the table, serves its turn as before. -/
theorem Turn.keep {l l' : Link} {id : Nat} (ht : Turn b l id t plan)
    (hst : ∀ s, l.Stands t.id s → l'.Stands t.id s ∨ (∃ w, s = .waits w) ∧ l'.Stands t.id .lost) :
    Turn b l' id t plan := by
  cases ht with
  | unsent hs hn ha hst' =>
    refine .unsent hs hn ha ?_
    rcases hst' with hst' | hst'
    · exact (hst _ hst').imp_right (·.2)
    · exact (hst _ hst').elim .inr fun h => .inr h.2
  | asked before hs hn hst' =>
    rcases hst _ hst' with h | ⟨-, h⟩
    · exact .asked before hs hn h
    · exact .lost (by rw [Book.callers, hs]; simp) h
  | answered before answers p hs hm hn hst' =>
    rcases hst _ hst' with h | ⟨⟨w, hw⟩, -⟩
    · exact .answered before answers p hs hm hn h
    · cases hw
  | lost hs hst' => exact .lost hs ((hst _ hst').elim (fun h => h) (·.2))

/-- Replies that no registration takes do not matter. -/
theorem Turn.more {l : Link} {id : Nat} (ht : Turn b l id t plan) {replies : List Packet} :
    Turn { b with replies := replies } l id t plan := by
  cases ht with
  | unsent hs hn ha hst => exact .unsent hs hn ha hst
  | asked before hs hn hst => exact .asked before hs hn hst
  | answered before answers p hs hm hn hst => exact .answered before answers p hs hm hn hst
  | lost hs hst => exact .lost hs hst

namespace Lane

theorem ofSession (config : SessionConfig) (twin : Twin) : Lane ⟨[], [], [], []⟩ (Host.ofSession config twin) :=
  ⟨List.forall_mem_nil _, fun _ _ => rfl, Nat.le_succ 0, List.forall_mem_nil _, List.prefix_rfl, fun _ => rfl, .nil,
    List.forall_mem_nil _, List.Sublist.refl _⟩

/-- A table that is not closed has never been. -/
theorem open_of_open {l l' : Link} (hcl : l.table.closed.isSome → l'.table.closed.isSome)
    (ho : l'.table.closed = none) : l.table.closed = none := by
  cases hc : l.table.closed with
  | none => rfl
  | some reason =>
    have := hcl (by rw [hc]; rfl)
    rw [ho] at this
    cases this

/-- What was asked lies behind a call for good. -/
theorem past_acts (hl : Lane b h) (ha : Acts h a h') (hn : h.Numbered) : ∀ id ∈ b.acquired, id < h'.made ∧
    ∀ c ∈ h'.calls, c.id = id → (∀ r, c.point ≠ .begun r) ∧ ∀ plan, c.point ≠ .inLine plan := by
  refine fun id hid => ha.point hn (P := fun q => (∀ r, q ≠ .begun r) ∧ ∀ plan, q ≠ .inLine plan)
    (fun c _ m p keeps hm hg hq => ?_) (hl.past id hid)
  obtain ⟨hbegun, hplan⟩ := hm.plan hg
  refine ⟨hbegun, fun plan hp => ?_⟩
  rcases hplan plan (by rw [hp]; rfl) with ⟨-, hne⟩ | ⟨⟨r, hr⟩, -⟩
  · exact hne hp
  · exact hq.1 r hr

/-- Nothing happens to the commands that have a turn, but that the table may be closed. -/
theorem keep (hl : Lane b h) (ha : Acts h a h') (hn : h.Numbered)
    (hc : ∀ x : Call, ∀ t plan, x.Commands t plan → (x ∈ h'.calls ↔ x ∈ h.calls))
    (hst : ∀ c ∈ h.calls, ∀ t plan, c.Commands t plan → ∀ s, h.link.Stands t.id s →
      h'.link.Stands t.id s ∨ (∃ w, s = .waits w) ∧ h'.link.Stands t.id .lost)
    (hcl : h.link.table.closed.isSome → h'.link.table.closed.isSome)
    (hw : ∀ w ∈ h'.link.table.entries, w.type = PacketKind.commandResponse.code → w ∈ h.link.table.entries) :
    Lane b h' := by
  have hopen := open_of_open hcl
  refine ⟨fun x hx t plan ht => ?_, fun hnone ho => hl.free (fun x hx t plan ht => ?_) (hopen ho), hl.paced,
    fun w hw' hty => ?_, hl.matched, fun ho => hl.current (hopen ho), hl.once, hl.past_acts ha hn, hl.order⟩
  · have hx := (hc x t plan ht).mp hx
    exact (hl.turn x hx t plan ht).keep (hst x hx t plan ht)
  · exact hnone x ((hc x t plan ht).mpr hx) t plan ht
  · obtain ⟨x, hx, t, plan, ht, he⟩ := hl.waiting w (hw w hw' hty) hty
    exact ⟨x, (hc x t plan ht).mpr hx, t, plan, ht, he⟩

/-- Table and deliveries stay as they are. -/
theorem same (hl : Lane b h) (ha : Acts h a h') (hn : h.Numbered)
    (hc : ∀ x : Call, ∀ t plan, x.Commands t plan → (x ∈ h'.calls ↔ x ∈ h.calls))
    (htable : h'.link.table = h.link.table) (hd : h'.link.deliveries = h.link.deliveries) : Lane b h' :=
  hl.keep ha hn hc (fun _ _ _ _ _ _ hst => .inl (hst.congr htable hd)) (by rw [htable]; exact fun hc => hc)
    (by rw [htable]; exact fun _ hw _ => hw)

/-- The table is closed. -/
theorem shut (hl : Lane b h) (ha : Acts h a h') (hn : h.Numbered) (hcalls : h'.calls = h.calls) {reason : String}
    (htable : h'.link.table = (h.link.shut reason).table) (hd : h'.link.deliveries = (h.link.shut reason).deliveries) :
    Lane b h' := by
  refine hl.keep ha hn (fun x t plan _ => by rw [hcalls]) (fun x _ t plan _ s hst => ?_) (fun _ => by rw [htable]; rfl)
    fun w hw => absurd hw (by rw [htable]; exact List.not_mem_nil)
  exact (hst.shut reason).imp (·.congr htable hd) fun h => ⟨h.1, h.2.congr htable hd⟩

/-- The command that has its turn gives up, and withdraws its registration. -/
theorem leave (hl : Lane b h) (ha : Acts h a h') (hs : h.Separate planned) (hc : c ∈ h.calls) (ht : c.Commands t plan)
    (hcalls : h'.calls = h.calls.filter fun x => x.id != c.id)
    (hw : ∀ w ∈ h'.link.table.entries, w ∈ h.link.table.entries ∧ w.id ≠ t.id)
    (hcl : h.link.table.closed.isSome → h'.link.table.closed.isSome)
    (hdone : h.link.table.closed = none → b.sent.length = b.matched.length) : Lane b h' := by
  have hopen := open_of_open hcl
  refine ⟨fun x hx t' plan' ht' => ?_, fun _ ho => hdone (hopen ho), hl.paced, fun w hw' hty => ?_, hl.matched,
    fun ho => hl.current (hopen ho), hl.once, hl.past_acts ha hs.numbered, hl.order⟩
  · rw [hcalls, List.mem_filter] at hx
    rw [hs.eq_of_commands hx.1 hc ht' ht] at hx
    simp at hx
  · obtain ⟨x, hx, t', plan', ht', he⟩ := hl.waiting w (hw w hw').1 hty
    obtain rfl := hs.eq_of_commands hx hc ht' ht
    obtain rfl : t' = t := Option.some.inj (ht'.1.symm.trans ht.1)
    exact absurd he.symm (hw w hw').2

/-- The command that has its turn goes on with it. -/
theorem carry (hl : Lane b h) (ha : Acts h a h') (hs : h.Separate planned) (hc : c ∈ h.calls) (ht : c.Commands t plan)
    (c' : Call) (hid : c'.id = c.id) (ht' : c'.Commands t plan) (hc' : c' ∈ h'.calls)
    (hcalls : ∀ x ∈ h'.calls, x = c' ∨ x ∈ h.calls ∧ x.id ≠ c.id) (htable : h'.link.table = h.link.table)
    (hd : h'.link.deliveries = h.link.deliveries) : Lane b h' := by
  refine ⟨fun x hx t' plan' htx => ?_, fun hnone => absurd ht' (hnone c' hc' t plan), hl.paced, fun w hw hty => ?_,
    hl.matched, by rw [htable]; exact hl.current, hl.once, hl.past_acts ha hs.numbered, hl.order⟩
  · rcases hcalls x hx with rfl | ⟨hx, hne⟩
    · obtain rfl : t' = t := Option.some.inj (htx.1.symm.trans ht'.1)
      obtain rfl : plan' = plan := Option.some.inj (htx.2.symm.trans ht'.2)
      rw [hid]
      exact (hl.turn c hc t' plan' ht).keep fun s hst => .inl (hst.congr htable hd)
    · exact absurd (by rw [hs.eq_of_commands hx hc htx ht]) hne
  · rw [htable] at hw
    obtain ⟨x, hx, t', plan', htx, he⟩ := hl.waiting w hw hty
    obtain rfl := hs.eq_of_commands hx hc htx ht
    obtain rfl : t' = t := Option.some.inj (htx.1.symm.trans ht.1)
    exact ⟨c', hc', t', plan, ht', he⟩

/-! ## Commands in line -/

/-- A command in line has not got the lock before. -/
theorem not_mem_acquired (hl : Lane b h) (hc : c ∈ h.calls) (hp : c.point = .inLine plan) : c.id ∉ b.acquired :=
  fun hin => ((hl.past c.id hin).2 c hc rfl).2 plan hp

/-- Where the lock is free, no command has its turn. -/
theorem no_turn (hs : h.Separate planned) (hc : c ∈ h.calls) (hp : c.point = .inLine plan)
    (ha : (h.session.commandLock.acquire c.id).2) : ∀ x ∈ h.calls, ∀ t plan, ¬x.Commands t plan := by
  intro x hx t plan' ht
  have hheld := hs.locked x hx t plan' ht
  rcases (Lock.acquire_held ha).2 with hnone | hsome
  · rw [hnone] at hheld
    cases hheld
  · obtain rfl := hs.numbered.eq_of_id hx hc (Option.some.inj (hheld.symm.trans hsome))
    have := ht.1
    rw [hp] at this
    cases this

/-- A command gets the lock and ends at once, the table being closed. -/
theorem acquire (hl : Lane b h) (hnone : ∀ x ∈ h.calls, ∀ t plan, ¬x.Commands t plan) {id : Nat} (hin : id ∉ b.acquired)
    (hpast : id < h.made ∧
      ∀ c ∈ h.calls, c.id = id → (∀ r, c.point ≠ .begun r) ∧ ∀ plan, c.point ≠ .inLine plan) :
    Lane { b with acquired := b.acquired ++ [id] } h where
  turn := fun x hx t plan ht => absurd ht (hnone x hx t plan)
  free := hl.free
  paced := hl.paced
  waiting := hl.waiting
  matched := hl.matched
  current := hl.current
  once := List.nodup_append.mpr ⟨hl.once, by simp, fun i hi j hj => by
    obtain rfl := List.mem_singleton.mp hj
    exact fun he => hin (he ▸ hi)⟩
  past := fun i hi => by
    rcases List.mem_append.mp hi with hi | hi
    · exact hl.past i hi
    · exact List.mem_singleton.mp hi ▸ hpast
  order := hl.order.trans (List.sublist_append_left _ _)

/-- A command gets the lock and registers for its reply. -/
theorem register (hl : Lane b h) (ha : Acts h a h') (hs : h.Separate planned)
    (hnone : ∀ x ∈ h.calls, ∀ t plan, ¬x.Commands t plan) (hin : c.id ∉ b.acquired)
    (ho : h.link.table.closed = none) (hk : plan.kind = .command) (c' : Call) (hid : c'.id = c.id)
    (ht' : c'.Commands ⟨h.link.table.nextId, plan.kind.response.code⟩ plan)
    (hpast : (∀ r, c'.point ≠ .begun r) ∧ ∀ plan, c'.point ≠ .inLine plan) (hc' : c' ∈ h'.calls)
    (hcalls : ∀ x ∈ h'.calls, x = c' ∨ x ∈ h.calls ∧ x.id ≠ c.id)
    (hlink : h'.link = h.link.enroll plan.kind.response.code (.named plan.name)) :
    Lane { b with acquired := b.acquired ++ [c.id] } h' where
  turn := fun x hx t' plan' ht => by
    rcases hcalls x hx with rfl | ⟨hx, -⟩
    · obtain rfl := Option.some.inj (ht.1.symm.trans ht'.1)
      obtain rfl := Option.some.inj (ht.2.symm.trans ht'.2)
      rw [hid, hlink]
      refine .unsent (fun hs => hin (hl.order.subset hs)) (hl.free hnone ho) ⟨b.acquired, rfl, hl.order⟩ (.inl ?_)
      exact Stands.enroll hs.sound _ _
    · exact absurd ht (hnone x hx t' plan')
  free := fun hno => absurd ht' (hno c' hc' _ plan)
  paced := hl.paced
  waiting := fun w hw hty => by
    rw [hlink] at hw
    rcases List.mem_append.mp hw with hw | hw
    · obtain ⟨x, hx, t, plan', ht, -⟩ := hl.waiting w hw hty
      exact absurd ht (hnone x hx t plan')
    · exact ⟨c', hc', _, plan, ht', by rw [List.mem_singleton.mp hw]⟩
  matched := hl.matched
  current := fun _ => hl.current ho
  once := List.nodup_append.mpr ⟨hl.once, by simp, fun i hi j hj => by
    obtain rfl := List.mem_singleton.mp hj
    exact fun he => hin (he ▸ hi)⟩
  past := fun i hi => by
    rcases List.mem_append.mp hi with hi | hi
    · exact hl.past_acts ha hs.numbered i hi
    · obtain rfl := List.mem_singleton.mp hi
      refine ⟨hid ▸ (hs.numbered.acts ha).made c' hc', fun x hx he => ?_⟩
      rcases hcalls x hx with rfl | ⟨-, hne⟩
      · exact hpast
      · exact absurd he hne
  order := hl.order.trans (List.sublist_append_left _ _)

/-! ## Steps of calls -/

/-- A call that is no command moves, or is dropped. -/
theorem foreign (hl : Lane b h) (ha : Acts h a h') (hs : h.Separate planned) (hc : c ∈ h.calls)
    (hq : c.point.command? = none) (he : EditsBy c.id c.point h.link h'.link)
    (hcalls : ∀ x : Call, ∀ t plan, x.Commands t plan → (x ∈ h'.calls ↔ x ∈ h.calls)) : Lane b h' := by
  have hreach := he.reach
  refine hl.keep ha hs.numbered hcalls (fun x hx t plan ht s hst => ?_) hreach.closed fun w hw hty => ?_
  · refine (hst.edits (fun hticket => ?_) (hs.issued x hx t ht.1) he).2
    obtain ⟨t', ht', he⟩ := Option.map_eq_some_iff.mp hticket
    obtain rfl := hs.numbered.eq_of_id hc hx (hs.apart c hc x hx t' t ht' ht.1 he)
    rw [ht.2] at hq
    cases hq
  · refine (hreach.entries w hw).resolve_right fun hasks => ?_
    obtain ⟨plan, hp, hk⟩ := (hs.regular c hc).asks hasks hty
    rw [hp, Point.command?_eq_some.mpr ⟨rfl, hk⟩] at hq
    cases hq

/-- A command in line takes a step. -/
theorem line (hl : Lane b h) (ha : Acts h a h') (hs : h.Separate planned) (hc : c ∈ h.calls)
    (hp : c.point = .inLine plan) (hk : plan.kind = .command) {m : Move} (hm : CallMove h c c.point m)
    (hle : h.Leaves c m h') : Lane { b with acquired := b.acquired ++ (h.acquires c).toList } h' := by
  have hlock : h.session.lock plan.kind = h.session.commandLock := by rw [hk]; rfl
  have hnc : ∀ t plan, ¬c.Commands t plan := fun t plan' ht => by
    have := ht.1
    rw [hp] at this
    cases this
  have hacq : h.acquires c = if (h.session.commandLock.acquire c.id).2 then some c.id else none := by
    unfold Host.acquires
    rw [hp]
    simp [hk]
  -- up to the line itself, nothing happens to the others
  have hkeep : (∀ x : Call, x ∈ h'.calls ↔ x ∈ h.calls ∧ x.id ≠ c.id ∨ m.fate = .stays ∧ x = c) →
      h'.link.table = h.link.table → h'.link.deliveries = h.link.deliveries → Lane b h' := fun hcalls htable hd => by
    refine hl.same ha hs.numbered (fun x t plan ht => ⟨fun hx => ?_, fun hx => ?_⟩) htable hd
    · rcases (hcalls x).mp hx with ⟨hx, -⟩ | ⟨-, rfl⟩
      · exact hx
      · exact hc
    · refine (hcalls x).mpr (.inl ⟨hx, fun he => ?_⟩)
      obtain rfl := hs.numbered.eq_of_id hx hc he
      exact hnc t plan ht
  have hm' := hm
  rw [hp] at hm'
  cases hm' with
  | locked plan hget ho =>
    rw [hlock] at hget
    rw [hacq, hget]
    refine hl.register ha hs (no_turn hs hc hp hget) (hl.not_mem_acquired hc hp) ho hk
      (Call.mk c.id (.entering (Frame.encode plan.request.toBytes)
        (some ⟨h.link.table.nextId, plan.kind.response.code⟩) (some h.session.config.requestTimeout) (.operation plan))
        (false || c.holds)) rfl ⟨rfl, Point.command?_eq_some.mpr ⟨rfl, hk⟩⟩ ⟨nofun, nofun⟩ ?_ (fun x hx => ?_) hle.link
    · rw [hle.calls]
      exact Move.mem_callsAfter_of_goes hc rfl
    · rcases hs.numbered.mem_callsAfter hc (hle.calls ▸ hx) with hx | ⟨p, keeps, hf, rfl⟩ | ⟨hf, -⟩
      · exact .inr hx
      · cases hf
        exact .inl rfl
      · cases hf
  | lockedClosed plan hget reason hcl =>
    rw [hlock] at hget
    rw [hacq, hget]
    have hcalls : ∀ x : Call, x ∈ h'.calls ↔ x ∈ h.calls ∧ x.id ≠ c.id := fun x => by
      rw [hle.calls]
      show x ∈ List.filter _ _ ↔ _
      simp [List.mem_filter]
    have hlink : h'.link = h.link.vacate c := hle.link
    have hvacate : (h.link.vacate c).table = h.link.table ∧ (h.link.vacate c).deliveries = h.link.deliveries := by
      unfold Link.vacate
      rw [hp]
      exact ⟨rfl, rfl⟩
    refine (hkeep (fun x => (hcalls x).trans ⟨.inl, fun hx => hx.resolve_right nofun⟩) (hlink ▸ hvacate.1)
      (hlink ▸ hvacate.2)).acquire (fun x hx => no_turn hs hc hp hget x ((hcalls x).mp hx).1) (hl.not_mem_acquired hc hp)
      ⟨?_, fun x hx he => absurd he ((hcalls x).mp hx).2⟩
    rw [hle.made]
    exact hs.numbered.made c hc
  | lined plan hget =>
    rw [hlock] at hget
    rw [hacq, hget]
    refine (List.append_nil b.acquired).symm ▸ hkeep (fun x => ?_) (by rw [hle.link]; rfl) (by rw [hle.link]; rfl)
    rw [hle.calls]
    show x ∈ h.calls ↔ _
    refine ⟨fun hx => ?_, fun hx => hx.elim (·.1) fun hx => hx.2 ▸ hc⟩
    by_cases he : x.id = c.id
    · exact .inr ⟨rfl, hs.numbered.eq_of_id hx hc he⟩
    · exact .inl ⟨hx, he⟩

/-- A command with an answer still to come has its request with the link or with the device, and waits. -/
theorem asked_outstanding (hw : Written b.sent h) (hc : c ∈ h.calls) (ht : c.Commands t plan)
    {before : List (Nat × Plan)} (hs : b.sent = before ++ [(c.id, plan)])
    (hst : h.link.Stands t.id (.waits (plan.waiter t.id))) :
    c.point.requested? = some (t, plan) ∧ h.link.delivery? t.id = none := by
  obtain ⟨-, t', hreq⟩ := (hw.took (c.id, plan) (by rw [hs]; simp)).2 c hc rfl
  obtain rfl : t' = t := Option.some.inj ((Point.requested?_eq hreq).1.symm.trans ht.1)
  refine ⟨hreq, ?_⟩
  cases hd : h.link.delivery? t'.id with
  | none => rfl
  | some r =>
    cases r with
    | ok p => cases hst.delivery? hd
    | error e => cases hst.delivery?_error hd

/-- A command gives up its turn. -/
theorem giveUp (hl : Lane b h) (ha : Acts h a h') (hs : h.Separate planned) (hw : Written b.sent h) (hc : c ∈ h.calls)
    (ht : c.Commands t plan) (hcalls : h'.calls = h.calls.filter fun x => x.id != c.id)
    (he : EditsBy c.id c.point h.link h'.link) (hwithdrawn : ∀ w ∈ h'.link.table.entries, w.id ≠ t.id)
    (hanswered : c.point.requested? = some (t, plan) → h.link.delivery? t.id = none →
      h.link.table.closed = none → False) : Lane b h' := by
  have hreach := he.reach
  refine hl.leave ha hs hc ht hcalls (fun w hw => ⟨?_, hwithdrawn w hw⟩) hreach.closed fun ho => ?_
  · refine (hreach.entries w hw).resolve_right fun hasks => ?_
    have hq := ht.1
    have hp := (Point.command?_eq_some.mp ht.2).1
    generalize c.point = q at hasks hq hp
    cases q with
    | entering frame ticket limit purpose => cases hasks
    | writing ticket limit purpose => cases hasks
    | awaiting ticket limit alarm purpose =>
      cases purpose with
      | operation plan => cases hasks
      | _ => cases hp
    | begun => cases hp
    | _ => cases hq
  · cases hl.turn c hc t plan ht with
    | unsent hsent hn hbefore hst => exact hn
    | answered before answers p hsent hm hn hst => rw [hsent, hm, List.length_append, List.length_append, hn]; rfl
    | asked before hsent hn hst =>
      obtain ⟨hreq, hd⟩ := asked_outstanding hw hc ht hsent hst
      exact (hanswered hreq hd ho).elim
    | lost hsent hst =>
      cases hst with
      | lost e hcl => rw [ho] at hcl; cases hcl

theorem withdrawn (l : Link) (hq : c.point.ticket? = some t) : ∀ w ∈ (l.vacate c).table.entries, w.id ≠ t.id := by
  intro w hw
  unfold Link.vacate at hw
  rw [hq] at hw
  simpa using (List.mem_filter.mp hw).2

/-- A command that has its turn takes a step. -/
theorem take (hl : Lane b h) (ha : Acts h a h') (hs : h.Separate planned) (hw : Written b.sent h) (hc : c ∈ h.calls)
    (ht : c.Commands t plan) {m : Move} (hm : CallMove h c c.point m) (hle : h.Leaves c m h')
    (hlose : ¬(h.outstanding c && h.timesOut c)) : Lane b h' := by
  obtain ⟨hp, hk⟩ := Point.command?_eq_some.mp ht.2
  have hedits := hle.edits hs.unstarted hm
  cases hf : m.fate with
  | goes p keeps =>
    have hcalls : ∀ x ∈ h'.calls, x = Call.mk c.id p (keeps || c.holds) ∨ x ∈ h.calls ∧ x.id ≠ c.id := fun x hx => by
      rcases hs.numbered.mem_callsAfter hc (hle.calls ▸ hx) with hx | ⟨p', keeps', hf', rfl⟩ | ⟨hf', -⟩
      · exact .inr hx
      · rw [hf] at hf'
        cases hf'
        exact .inl rfl
      · rw [hf] at hf'
        cases hf'
    have hlink : h'.link = m.link := by rw [hle.link, Move.linkAfter, hf]
    obtain ⟨hpt, hpp, htable, hd⟩ := hm.keepsTurn hf ht.1 hp hk
    refine hl.carry ha hs hc ht (Call.mk c.id p (keeps || c.holds)) rfl ⟨hpt, Point.command?_eq_some.mpr ⟨hpp, hk⟩⟩
      ?_ hcalls (hlink ▸ htable) (hlink ▸ hd)
    rw [hle.calls]
    exact Move.mem_callsAfter_of_goes hc hf
  | stays =>
    have hlink : h'.link = m.link := by rw [hle.link, Move.linkAfter, hf]
    have hcalls : h'.calls = h.calls := by rw [hle.calls, Move.callsAfter, hf]
    obtain ⟨htable, hd⟩ := hm.stays hf
    refine hl.carry ha hs hc ht c rfl ht (hcalls ▸ hc) (fun x hx => ?_) (hlink ▸ htable) (hlink ▸ hd)
    rw [hcalls] at hx
    by_cases he : x.id = c.id
    · exact .inl (hs.numbered.eq_of_id hx hc he)
    · exact .inr ⟨hx, he⟩
  | ends answer =>
    have hlink : h'.link = m.link.vacate c := by rw [hle.link, Move.linkAfter, hf]
    refine hl.giveUp ha hs hw hc ht (by rw [hle.calls, Move.callsAfter, hf]) hedits
      (by rw [hlink]; exact withdrawn m.link ht.1) fun hreq hd ho => ?_
    -- it has waited too long, or its request was not written
    have hout : h.outstanding c = true := by
      unfold Host.outstanding
      rw [hreq]
      simp [hk, hd]
    generalize hq : c.point = q at hm hreq
    unfold Point.requested? at hreq
    split at hreq
    · cases hreq
      cases hm with
      | unwritten ticket limit purpose e hr hfail =>
        have := hs.sound.ended (hw.refused c.id e (Link.mem_receipts hr)).1
        rw [ho] at this
        cases this
      | written => cases hf
    · cases hreq
      cases hm with
      | failed ticket limit alarm purpose e hd' hfail => rw [hd] at hd'; cases hd'
      | timedOut ticket limit alarm purpose hd' hdue hfail =>
        refine hlose ?_
        rw [hout, Host.timesOut, hq]
        simp [hd, hdue]
      | unreadable ticket limit alarm plan p hd' => rw [hd] at hd'; cases hd'
      | answered ticket limit alarm plan p hd' => rw [hd] at hd'; cases hd'
      | taken => cases hf
    · cases hreq

/-- **What a step of a call does to the turns of commands.** -/
theorem move (hl : Lane b h) (ha : Acts h a h') (hs : h.Separate planned) (hw : Written b.sent h) (hc : c ∈ h.calls)
    {m : Move} (hm : CallMove h c c.point m) (hle : h.Leaves c m h') (hlose : ¬(h.outstanding c && h.timesOut c)) :
    Lane { b with acquired := b.acquired ++ (h.acquires c).toList } h' := by
  have hedits := hle.edits hs.unstarted hm
  have hrest : (∀ plan, c.point = .inLine plan → plan.kind ≠ .command) → Lane b h' →
      Lane { b with acquired := b.acquired ++ (h.acquires c).toList } h' := fun hne hl => by
    have : h.acquires c = none := by
      unfold Host.acquires
      split
      · rename_i plan hp
        rw [if_neg fun hk => hne plan hp hk.1]
      · rfl
    rw [this, Option.toList_none, List.append_nil]
    exact hl
  cases hq : c.point.command? with
  | none =>
    refine hrest (fun plan hp => Point.kind_ne_command hq (by rw [hp]; rfl)) ?_
    refine hl.foreign ha hs hc hq hedits fun x t plan ht => ⟨fun hx => ?_, fun hx => ?_⟩
    · rcases hs.numbered.mem_callsAfter hc (hle.calls ▸ hx) with ⟨hx, -⟩ | ⟨p, keeps, hf, rfl⟩ | ⟨-, rfl⟩
      · exact hx
      · obtain ⟨hp, hk⟩ := Point.command?_eq_some.mp ht.2
        rcases hm.turn hf ht.1 hp with ⟨-, hqp, -⟩ | ⟨hqp, -⟩
        · exact absurd hk (Point.kind_ne_command hq hqp)
        · exact absurd hk (Point.kind_ne_command hq (by rw [hqp]; rfl))
      · exact hc
    · rw [hle.calls]
      refine Move.mem_callsAfter_of_ne hx fun he => ?_
      obtain rfl := hs.numbered.eq_of_id hx hc he
      rw [ht.2] at hq
      cases hq
  | some plan =>
    rcases (hs.regular c hc).stage hq with hp | ⟨t, ht⟩
    · exact hl.line ha hs hc hp (Point.command?_eq_some.mp hq).2 hm hle
    · refine hrest (fun plan' hp => ?_) (hl.take ha hs hw hc ⟨ht, hq⟩ hm hle hlose)
      rw [hp] at ht
      cases ht

/-- A call is dropped. -/
theorem abandon (hl : Lane b h) (ha : Acts h a h') (hs : h.Separate planned) (hw : Written b.sent h) (hc : c ∈ h.calls)
    (hcalls : h'.calls = h.calls.filter fun x => x.id != c.id) (hlink : h'.link = h.link.vacate c)
    (hlose : ¬h.outstanding c) : Lane b h' := by
  have hedits : EditsBy c.id c.point h.link h'.link := by rw [hlink]; exact .vacate .refl
  have hforeign : (∀ t plan, ¬c.Commands t plan) → ∀ x : Call, ∀ t plan, x.Commands t plan →
      (x ∈ h'.calls ↔ x ∈ h.calls) := fun hnc x t plan ht => by
    rw [hcalls, List.mem_filter]
    refine ⟨(·.1), fun hx => ⟨hx, ?_⟩⟩
    by_contra he
    obtain rfl := hs.numbered.eq_of_id hx hc (by simpa using he)
    exact hnc t plan ht
  cases hq : c.point.command? with
  | none =>
    refine hl.foreign ha hs hc hq hedits (hforeign fun t plan ht => ?_)
    rw [ht.2] at hq
    cases hq
  | some plan =>
    rcases (hs.regular c hc).stage hq with hp | ⟨t, ht⟩
    · have hvacate : (h.link.vacate c).table = h.link.table ∧ (h.link.vacate c).deliveries = h.link.deliveries := by
        unfold Link.vacate
        rw [hp]
        exact ⟨rfl, rfl⟩
      rw [← hlink] at hvacate
      refine hl.same ha hs.numbered (hforeign fun t plan ht => ?_) hvacate.1 hvacate.2
      have := ht.1
      rw [hp] at this
      cases this
    · refine hl.giveUp ha hs hw hc ⟨ht, hq⟩ hcalls hedits (by rw [hlink]; exact withdrawn h.link ht) fun hreq hd _ => ?_
      refine hlose ?_
      unfold Host.outstanding
      rw [hreq]
      simp [(Point.command?_eq_some.mp hq).2, hd]

/-! ## Steps of the loop -/

/-- The request of a command is taken up. -/
theorem obey (hl : Lane b h) (ha : Acts h a h') (hs : h.Separate planned) (hc : c ∈ h.calls) {limit : Option Nat}
    (hp : c.point = .writing (some t) limit (.operation plan)) (hk : plan.kind = .command)
    (hns : ∀ x ∈ b.sent, x.1 ≠ c.id) (hcalls : h'.calls = h.calls) (htable : h'.link.table = h.link.table)
    (hd : h'.link.deliveries = h.link.deliveries) : Lane { b with sent := b.sent ++ [(c.id, plan)] } h' := by
  have ht : c.Commands t plan := ⟨by rw [hp]; rfl, Point.command?_eq_some.mpr ⟨by rw [hp]; rfl, hk⟩⟩
  have hin : c.id ∉ b.callers := fun hin => by
    obtain ⟨x, hx, he⟩ := List.mem_map.mp hin
    exact hns x hx he
  have hlast : ∀ {before : List (Nat × Plan)}, b.sent = before ++ [(c.id, plan)] → c.id ∈ b.callers := fun he => by
    rw [Book.callers, he]
    simp
  have hstands : ∀ {s : Standing}, h.link.Stands t.id s → h'.link.Stands t.id s := fun hst => hst.congr htable hd
  obtain ⟨hn, ⟨before, hacq, hsub⟩, hst⟩ : b.sent.length = b.matched.length ∧
      (∃ before, b.acquired = before ++ [c.id] ∧ b.callers.Sublist before) ∧
      (h.link.Stands t.id (.waits (plan.waiter t.id)) ∨ h.link.Stands t.id .lost) := by
    cases hl.turn c hc t plan ht with
    | unsent hs hn hbefore hst => exact ⟨hn, hbefore, hst⟩
    | asked before hs hn hst => exact absurd (hlast hs) hin
    | answered before answers p hs hm hn hst => exact absurd (hlast hs) hin
    | lost hs hst => exact absurd hs hin
  refine ⟨fun x hx t' plan' htx => ?_, fun hnone => absurd ht (hnone c (hcalls ▸ hc) t plan), ?_, ?_, hl.matched,
    by rw [htable]; exact hl.current, hl.once, hl.past_acts ha hs.numbered, ?_⟩
  · obtain rfl := hs.eq_of_commands (hcalls ▸ hx) hc htx ht
    obtain rfl : t' = t := Option.some.inj (htx.1.symm.trans ht.1)
    obtain rfl : plan' = plan := Option.some.inj (htx.2.symm.trans ht.2)
    rcases hst with hst | hst
    · exact .asked b.sent rfl hn (hstands hst)
    · exact .lost (by simp [Book.callers]) (hstands hst)
  · show (b.sent ++ [_]).length ≤ _
    rw [List.length_append, hn]
    exact Nat.le_refl _
  · rw [htable, hcalls]
    exact hl.waiting
  · show ((b.sent ++ [_]).map _).Sublist b.acquired
    rw [List.map_append, hacq]
    exact hsub.append (List.Sublist.refl _)

/-- While a reply is expected and the table is open, the command that has its turn waits for it. -/
theorem expected (hl : Lane b h) {p : Packet} (he : b.Expects p) (ho : h.link.table.closed = none) :
    ∃ c ∈ h.calls, ∃ t plan before, c.Commands t plan ∧ b.sent = before ++ [(c.id, plan)] ∧
      before.length = b.matched.length ∧ h.link.Stands t.id (.waits (plan.waiter t.id)) ∧
      ∃ payload, NamedPayload.decode p.payload = .ok payload ∧ payload.name = plan.name := by
  obtain ⟨x, payload, hx, hdec, hname⟩ := he
  rw [← hl.current ho] at hx
  have hlt := (List.getElem?_eq_some_iff.mp hx).1
  have hactive : ¬∀ c ∈ h.calls, ∀ t plan, ¬c.Commands t plan := fun hnone => by
    rw [hl.free hnone ho] at hlt
    exact Nat.lt_irrefl _ hlt
  push Not at hactive
  obtain ⟨c, hc, t, plan, ht⟩ := hactive
  cases hl.turn c hc t plan ht with
  | unsent hs hn hbefore hst => rw [hn] at hlt; exact absurd hlt (Nat.lt_irrefl _)
  | asked before hs hn hst =>
    rw [hs, ← hn, List.getElem?_concat_length] at hx
    obtain rfl := Option.some.inj hx
    exact ⟨c, hc, t, plan, before, ht, hs, hn, hst, payload, hdec, hname⟩
  | answered before answers p' hs hm hn hst =>
    rw [hs, hm, List.length_append, List.length_append, hn] at hlt
    exact absurd hlt (Nat.lt_irrefl _)
  | lost hs hst =>
    cases hst with
    | lost e hcl => rw [ho] at hcl; cases hcl

/-- A registration takes a reply: it is that of the command that has its turn. -/
theorem answer (hl : Lane b h) (ha : Acts h a h') (hs : h.Separate planned) {p : Packet} (hr : p.isReply)
    (he : b.Expects p) {w : Waiter} (hw : w ∈ h.link.table.entries) (hacc : w.accepts p) (hcalls : h'.calls = h.calls)
    (hentries : h'.link.table.entries = h.link.table.entries.erase w)
    (hd : h'.link.deliveries = h.link.deliveries ++ [(w.id, .ok p)]) :
    Lane { b with replies := b.replies ++ [p], matched := b.matched ++ [p] } h' := by
  have ho : h.link.table.closed = none := by
    by_contra hne
    rw [hs.sound.closed (Option.isSome_iff_ne_none.mpr hne)] at hw
    cases hw
  have hty : w.type = PacketKind.commandResponse.code := by
    rw [((w.accepts_iff p).mp hacc).1]
    simpa [Packet.isReply] using hr
  obtain ⟨c, hc, t, plan, before, ht, hsent, hn, hst, -⟩ := hl.expected he ho
  obtain ⟨c', hc', t', plan', ht', htid⟩ := hl.waiting w hw hty
  obtain rfl := hs.eq_of_commands hc' hc ht' ht
  obtain rfl : t' = t := Option.some.inj (ht'.1.symm.trans ht.1)
  obtain rfl : plan' = plan := Option.some.inj (ht'.2.symm.trans ht.2)
  rw [htid] at hst
  have hwaits := hst.eq_of_mem hw
  rw [hwaits] at hst
  have hcurrent := hl.current ho
  refine ⟨fun x hx t plan htx => ?_, fun hnone => absurd ht (hnone c' (hcalls ▸ hc) t' plan'), ?_,
    fun v hv hvt => ?_, ?_, fun _ => by rw [hcurrent], hl.once, hl.past_acts ha hs.numbered, hl.order⟩
  · obtain rfl := hs.eq_of_commands (hcalls ▸ hx) hc htx ht
    obtain rfl := Option.some.inj (htx.1.symm.trans ht.1)
    obtain rfl := Option.some.inj (htx.2.symm.trans ht.2)
    exact .answered before b.matched p hsent rfl hn (htid ▸ hst.deliver hentries hd)
  · exact Nat.le_trans hl.paced (by simp)
  · rw [hentries] at hv
    rw [hcalls]
    exact hl.waiting v (List.mem_of_mem_erase hv) hvt
  · show b.matched ++ [p] <+: b.replies ++ [p]
    exact hcurrent ▸ List.prefix_rfl

/-- A registration takes a packet that is no reply to a command. -/
theorem deliver (hl : Lane b h) (ha : Acts h a h') (hs : h.Separate planned) {p : Packet} (hr : p.isReply = false)
    {w : Waiter} (hw : w ∈ h.link.table.entries) (hacc : w.accepts p) (hcalls : h'.calls = h.calls)
    (hclosed : h'.link.table.closed = h.link.table.closed)
    (hentries : h'.link.table.entries = h.link.table.entries.erase w)
    (hd : h'.link.deliveries = h.link.deliveries ++ [(w.id, .ok p)]) : Lane b h' := by
  refine hl.keep ha hs.numbered (fun x t plan _ => by rw [hcalls]) (fun x hx t plan ht s hst => .inl ?_)
    (by rw [hclosed]; exact fun hc => hc) (fun v hv _ => by rw [hentries] at hv; exact List.mem_of_mem_erase hv)
  refine hst.deliver_of_ne (fun hid => ?_) hclosed hentries hd
  -- the entry would be the registration of a command, which takes only replies
  have hstands : ∀ {s : Standing}, h.link.Stands t.id s → s = .waits w := fun hst => by
    rw [← hid] at hst
    exact hst.eq_of_mem hw
  obtain rfl : w = plan.waiter t.id := by
    cases hl.turn x hx t plan ht with
    | unsent hs hn hb hst => rcases hst with hst | hst <;> cases hstands hst; rfl
    | asked before hs hn hst => cases hstands hst; rfl
    | answered before answers p hs hm hn hst => cases hstands hst
    | lost hs hst => cases hstands hst
  have hty : plan.kind.response.code = p.type := (((plan.waiter t.id).accepts_iff p).mp hacc).1
  rw [(Point.command?_eq_some.mp ht.2).2] at hty
  simp [Packet.isReply, ← hty] at hr
  exact hr rfl

/-- No registration takes a reply: the table has been closed. -/
theorem pass (hl : Lane b h) (ha : Acts h a h') (hs : h.Separate planned) {p : Packet} (hr : p.isReply)
    (he : b.Expects p) (hno : ∀ w ∈ h.link.table.entries, w.accepts p = false) (hcalls : h'.calls = h.calls)
    (htable : h'.link.table = h.link.table) (hd : h'.link.deliveries = h.link.deliveries) :
    Lane { b with replies := b.replies ++ [p] } h' := by
  have hclosed : h'.link.table.closed ≠ none := fun ho => by
    rw [htable] at ho
    obtain ⟨c, hc, t, plan, before, ht, hsent, hn, hst, payload, hdec, hname⟩ := hl.expected he ho
    have hacc : (plan.waiter t.id).accepts p := by
      refine ((plan.waiter t.id).accepts_iff p).mpr ⟨?_, ?_⟩
      · show plan.kind.response.code = p.type
        rw [(Point.command?_eq_some.mp ht.2).2]
        exact (by simpa [Packet.isReply] using hr : p.type = PacketKind.commandResponse.code).symm
      · show (Matcher.named plan.name).accepts p = true
        unfold Matcher.accepts
        rw [hdec]
        simpa using hname
    rw [hno _ hst.mem_entries.1] at hacc
    cases hacc
  have hkeep := hl.same ha hs.numbered (fun x t plan _ => by rw [hcalls]) htable hd
  exact ⟨fun x hx t plan ht => (hkeep.turn x hx t plan ht).more, hkeep.free, hkeep.paced, hkeep.waiting,
    hkeep.matched.trans (List.prefix_append _ _), fun ho => absurd ho hclosed, hkeep.once, hkeep.past, hkeep.order⟩

/-- A step of the loop, while the replies that it sorts are expected. -/
theorem loop (hl : Lane b h) {i : Bool} (ha : Acts h (.advance .loop i) h') (hs : h.Separate planned)
    (hw : Written b.sent h) {turn : LoopTurn} (hm : LoopMove h h.link.loop turn) (ht : h.LoopTurns turn h')
    (he : ∀ p, (Moment.mk h (.advance .loop i)).reply = some p → b.Expects p) :
    Lane (b.add h (.advance .loop i) h') h' := by
  have hlink := ht.link
  have hcalls := ht.calls
  have hn := hs.numbered
  have hacq : (Moment.mk h (.advance .loop i)).acquired = none := rfl
  have hreply : (Moment.mk h (.advance .loop i)).reply =
      h.link.loop.next.bind fun frame => (Packet.ofFrame frame).toOption.filter Packet.isReply := rfl
  rcases hw.sends hn hm ht with hsends | ⟨c, hc, ticket, limit, plan, hp, hk, hns, hsends, htable, hd, hlisten⟩
  case inr =>
    have hobey := hl.obey ha hs hc hp hk hns hcalls (by rw [hlink, htable]) (by rw [hlink, hd])
    have hb : b.add h (.advance .loop i) h' = { b with sent := b.sent ++ [(c.id, plan)] } := by
      simp [Book.add, hsends, Moment.matched, hreply, hlisten, LoopPoint.next, hacq]
    rwa [hb]
  -- no request is taken up
  have hsorted : ∀ {frame p}, h.link.loop.next = some frame → Packet.ofFrame frame = .ok p →
      (Moment.mk h (.advance .loop i)).reply = if p.isReply then some p else none := fun hnext hp => by
    rw [hreply, hnext, Option.bind_some, hp]
    rfl
  have hsilent : (Moment.mk h (.advance .loop i)).reply = none → Lane b h' →
      Lane (b.add h (.advance .loop i) h') h' := fun hr hl => by rwa [b.add_eq_self hacq hsends hr]
  have hsame : turn.link.table = h.link.table → turn.link.deliveries = h.link.deliveries → Lane b h' := fun htable hd =>
    hl.same ha hn (fun x t plan _ => by rw [hcalls]) (by rw [hlink, htable]) (by rw [hlink, hd])
  have hstop : ∀ {reason : String}, turn.link.table = (h.link.shut reason).table →
      turn.link.deliveries = (h.link.shut reason).deliveries → Lane b h' := fun htable hd =>
    hl.shut ha hn hcalls (by rw [hlink, htable]) (by rw [hlink, hd])
  have hunmatched : ∀ {frame p}, h.link.loop.next = some frame → Packet.ofFrame frame = .ok p →
      h.link.table.takeMatch? p = none → turn.link.table = h.link.table → turn.link.deliveries = h.link.deliveries →
      Lane (b.add h (.advance .loop i) h') h' := fun {frame p} hnext hp hno htable hd => by
    have hreply := hsorted hnext hp
    cases hr : p.isReply with
    | true =>
      rw [hr, if_pos rfl] at hreply
      have hno := WaitTable.takeMatch_none hno
      have hany : h.link.table.entries.any (·.accepts p) = false := List.any_eq_false.mpr fun w hw => by simp [hno w hw]
      have hpass := hl.pass ha hs hr (he p hreply) hno hcalls (by rw [hlink, htable]) (by rw [hlink, hd])
      have hb : b.add h (.advance .loop i) h' = { b with replies := b.replies ++ [p] } := by
        simp [Book.add, hsends, Moment.matched, hreply, Option.filter, hany, hacq]
      rwa [hb]
    | false =>
      rw [hr] at hreply
      exact hsilent hreply (hsame htable hd)
  generalize hq : h.link.loop = q at hm hreply
  cases hm with
  | readFailed | hungUp | told | deserted | misframed | writeFailed => exact hsilent hreply (hstop rfl rfl)
  | undecodable frame rest fault e hp =>
    exact hsilent (by rw [hreply, LoopPoint.next, Option.bind_some, hp]; rfl) (hsame rfl rfl)
  | @matched frame rest fault p hp w table hm =>
    obtain ⟨hmem, hacc, -, rfl⟩ := hs.sound.table.takeMatch hm
    have hreply := hsorted (by rw [hq]; rfl) hp
    have hany : h.link.table.entries.any (·.accepts p) = true := List.any_eq_true.mpr ⟨w, hmem, hacc⟩
    cases hr : p.isReply with
    | true =>
      rw [hr, if_pos rfl] at hreply
      have hanswer := hl.answer ha hs hr (he p hreply) hmem hacc hcalls (by rw [hlink]) (by rw [hlink])
      have hb : b.add h (.advance .loop i) h' =
          { b with replies := b.replies ++ [p], matched := b.matched ++ [p] } := by
        simp [Book.add, hsends, Moment.matched, hreply, Option.filter, hany, hacq]
      rwa [hb]
    | false =>
      rw [hr] at hreply
      exact hsilent hreply (hl.deliver ha hs hr hmem hacc hcalls (by rw [hlink]) (by rw [hlink]) (by rw [hlink]))
  | passed frame rest fault p hp hm hf => exact hunmatched (by rw [hq]; rfl) hp hm rfl rfl
  | dropped frame rest fault p hp hm hf => exact hunmatched (by rw [hq]; rfl) hp hm rfl rfl
  | _ => exact hsilent hreply (hsame rfl rfl)

/-! ## Everything that happens -/

/-- A call that gets the lock does not have to wait. -/
theorem acquires_eq_none {id : Nat} (hc : h.call? id = some c) (hr : h.callStep id = none) : h.acquires c = none := by
  unfold Host.acquires
  split
  · rename_i plan hp
    refine if_neg fun ⟨hk, ha⟩ => ?_
    have hstep : h.callStep id = h.lockStep c plan := by
      unfold Host.callStep
      rw [hc, Option.bind_some, Host.pointStep, hp]
    have hlock : (h.session.lock plan.kind).acquire c.id = (((h.session.lock plan.kind).acquire c.id).1, true) := by
      rw [hk, ← ha]
      rfl
    rw [hstep, Host.lockStep, hlock] at hr
    simp only [if_true] at hr
    split at hr <;> cases hr
  · rfl

/-- **Commands take turns**, while no command times out or is dropped with its request outstanding, and no reply comes
but those that are expected. -/
theorem acts (hl : Lane b h) (ha : Acts h a h') (hs : h.Separate planned) (hw : Written b.sent h) (hv : a.viaSession)
    (hlose : ¬(Moment.mk h a).loses) (he : ∀ p, (Moment.mk h a).reply = some p → b.Expects p) :
    Lane (b.add h a h') h' := by
  have hn := hs.numbered
  have hact := ha
  have hsilent : h'.link.loop = h.link.loop ∨ h.link.loop = .absent ∧ h'.link.loop = .listening →
      h.sends h' = none := Host.sends_keep
  cases ha with
  | idle a hr =>
    rw [b.add_eq_self ?_ (hsilent (.inl rfl)) ?_]
    · exact hl
    · cases hmv : (Moment.mk h a).mover with
      | none => rw [Moment.acquired, hmv, Option.bind_none]
      | some c =>
        rw [Moment.acquired, hmv, Option.bind_some]
        unfold Moment.mover at hmv
        split at hmv
        · rename_i id i ha
          obtain rfl : a = _ := ha
          exact acquires_eq_none hmv hr
        · cases hmv
    · rw [Moment.reply, (Moment.refused (m := ⟨h, a⟩) hr).1, Option.bind_none]
  | loop inputFirst hm ht => exact hl.loop hact hs hw hm ht he
  | dispatcher inputFirst hm ht =>
    obtain ⟨events, hlink⟩ := hm.link
    rw [b.add_eq_self rfl (hsilent (.inl (by rw [ht.link, hlink]))) rfl]
    exact hl.same hact hn (fun x t plan _ => by rw [ht.calls]) (by rw [ht.link, hlink]) (by rw [ht.link, hlink])
  | @call id inputFirst c m h' hc hm hle =>
    have hmem := Host.call?_mem hc
    have hb : b.add h (.advance (.call id) inputFirst) h' =
        { b with acquired := b.acquired ++ (h.acquires c).toList } := by
      simp [Book.add, hsilent (hle.edits hs.unstarted hm).frame.loop, Moment.matched,
        show (Moment.mk h (.advance (.call id) inputFirst)).reply = none from rfl, Moment.acquired, Moment.mover, hc]
    rw [hb]
    refine hl.move hact hs hw hmem hm hle fun hout => hlose ?_
    simpa [Moment.loses, hc] using hout
  | make r hm ready =>
    rw [b.add_eq_self rfl (hsilent (.inl rfl)) rfl]
    refine hl.same hact hn (fun x t plan ht => ⟨fun hx => ?_, List.mem_append_left _⟩) rfl rfl
    rcases List.mem_append.mp hx with hx | hx
    · exact hx
    · obtain rfl := List.mem_singleton.mp hx
      cases (Point.command?_eq_some.mp ht.2).1
  | @abandon id c hc released hr ready =>
    obtain rfl := Host.call?_id hc
    rw [b.add_eq_self rfl (hsilent (.inl (h.link.loop_vacate c))) rfl]
    refine hl.abandon hact hs hw (Host.call?_mem hc) rfl rfl fun hout => hlose ?_
    simpa [Moment.loses, hc] using hout
  | register | withdraw | forward | takeEvent | dropListener => cases hv
  | _ =>
    rw [b.add_eq_self rfl (hsilent (.inl rfl)) rfl]
    exact hl.same hact hn (fun x t plan _ => Iff.rfl) rfl rfl

end Lane
end TwinLink
