import TwinLink.Proofs.Session.Lifecycle
import TwinLink.Proofs.Session.Registrations

/-!
# Late replies

Nothing but the type and the name of a field ties a reply to its request. A reply that comes after its call has timed out
is treated as unsolicited, unless another operation waits for a reply of the same type and name by then: that one takes it
for its own.

* `Plan.Alike` : plans whose replies cannot be told apart;
* `Host.Expects` : an operation that has registered for its reply and has not got it;
* `Host.exists_expects_iff` : who can take a packet;
* `Host.Late`, `Moment.Forgets` : a late reply, and what should become of it; `Host.late_forgotten_iff`;
* `Host.invokedAgain` : a run in which another call takes it.
-/

namespace TwinLink

/-! ## What is seen of late replies -/

/-- A reply to the one is a reply to the other. -/
def Plan.Alike (a b : Plan) : Prop := a.kind.response = b.kind.response ∧ a.name = b.name

/-- The call `id` has registered with the ticket `t` for the reply to its plan, and nothing was delivered to it. -/
structure Host.Expects (h : Host) (id : Nat) (t : Ticket) (plan : Plan) : Prop where
  call : ∃ c ∈ h.calls, c.id = id ∧ c.point.ticket? = some t ∧ c.point.plan? = some plan
  undelivered : h.link.delivery? t.id = none

/-- The call has returned a timeout. -/
def Happening.isTimeout : Happening → Bool
  | .answered (.error (.session (.link .timeout))) => true
  | _ => false

namespace Moment

/-- The operation that returns a timeout, with its call. -/
def timedOut (m : Moment) : Option (Nat × Plan) :=
  m.mover.bind fun c => (c.point.plan?.filter fun _ => m.news.any (·.what.isTimeout)).map (c.id, ·)

/-- The packet of the frame is counted as unsolicited, and no registration gets it. -/
structure Forgets (m : Moment) : Prop where
  counted : m.after.link.metrics.unsolicitedPackets = m.host.link.metrics.unsolicitedPackets + 1
  served : m.served = none
  deliveries : m.after.link.deliveries = m.host.link.deliveries

end Moment

/-- The action `a`, after the actions `bs`, is the one that sorts a late reply `p` to the request of the call `id`, which
has timed out before. Which frames are late replies, and to whom, the device tells in its `account`, frame by frame. -/
structure Host.Late (h : Host) (as : List Action) (account : Nat → Option Nat) (id : Nat) (plan : Plan)
    (bs : List Action) (a : Action) (p : Packet) : Prop where
  isPrefix : bs ++ [a] <+: as
  timedOut : (id, plan) ∈ (h.moments bs).filterMap Moment.timedOut
  packet : (Moment.mk (h.run bs) a).packet = some p
  meant : account ((h.moments bs).filterMap Moment.sorted).length = some id
  answers : p.Answers plan

/-! ## What becomes of a packet -/

namespace Moment

variable {m : Moment} {p : Packet}

/-- A registration is served if one takes the packet. -/
theorem served_eq (hp : m.packet = some p) :
    m.served = (m.host.link.table.takeMatch? p).map fun x => (x.1, p) := by
  obtain ⟨frame, hs, hf⟩ := packet_eq_some.mp hp
  unfold served
  rw [hs, Option.bind_some, hf]

/-- A packet is forgotten exactly if no registration takes it. -/
theorem forgets_iff (hp : m.packet = some p) (hc : m.host.Claimed) :
    m.Forgets ↔ ∀ w ∈ m.host.link.table.entries, ¬w.accepts p := by
  have hserved := served_eq hp
  constructor
  · intro hf w hw ha
    rw [hf.served, eq_comm, Option.map_eq_none_iff] at hserved
    rw [WaitTable.takeMatch_none hserved w hw] at ha
    cases ha
  · intro hno
    have hnone : m.host.link.table.takeMatch? p = none := by
      have hany := m.host.link.table.any_accepts p
      rw [List.any_eq_false.mpr hno, eq_comm, Option.isSome_eq_false_iff, Option.isNone_iff_eq_none] at hany
      exact hany
    obtain ⟨frame, hs, hf⟩ := packet_eq_some.mp hp
    obtain ⟨rest, fault, t, hl, hmove, ht⟩ := sorted_move hs hc
    rw [hl] at hmove
    rw [hnone] at hserved
    cases hmove with
    | undecodable frame rest fault e he => rw [hf] at he; cases he
    | matched frame rest fault q hq hm =>
      obtain rfl : p = q := Except.ok.inj (hf.symm.trans hq)
      rw [hnone] at hm
      cases hm
    | passed frame rest fault q hq hm hon => exact ⟨by rw [ht.link], hserved, by rw [ht.link]; rfl⟩
    | dropped frame rest fault q hq hm hoff => exact ⟨by rw [ht.link], hserved, by rw [ht.link]; rfl⟩

/-- A packet that a registration can take is delivered to one. -/
theorem served_of_accepts (hp : m.packet = some p) (ho : m.host.link.table.Ordered) (hc : m.host.Claimed)
    (ha : ∃ w ∈ m.host.link.table.entries, w.accepts p) : ∃ w ∈ m.host.link.table.entries, w.accepts p ∧
      m.served = some (w, p) ∧ m.after.link.deliveries = m.host.link.deliveries ++ [(w.id, .ok p)] := by
  obtain ⟨v, hv, hva⟩ := ha
  obtain ⟨frame, hs, hf⟩ := packet_eq_some.mp hp
  obtain ⟨rest, fault, t, hl, hmove, ht⟩ := sorted_move hs hc
  have hserved := served_eq hp
  have hmust : m.host.link.table.takeMatch? p = none → False := by
    intro hnone
    rw [WaitTable.takeMatch_none hnone v hv] at hva
    cases hva
  rw [hl] at hmove
  cases hmove with
  | undecodable frame rest fault e he => rw [hf] at he; cases he
  | @matched frame rest fault q hq w table hm =>
    obtain rfl : p = q := Except.ok.inj (hf.symm.trans hq)
    obtain ⟨hw, hwa, -⟩ := ho.takeMatch hm
    exact ⟨w, hw, hwa, by rw [hserved, hm]; rfl, by rw [ht.link]⟩
  | passed frame rest fault q hq hm hon =>
    obtain rfl : p = q := Except.ok.inj (hf.symm.trans hq)
    exact (hmust hm).elim
  | dropped frame rest fault q hq hm hoff =>
    obtain rfl : p = q := Except.ok.inj (hf.symm.trans hq)
    exact (hmust hm).elim

/-- A call that has returned a timeout is over. -/
theorem timedOut_ends {x : Nat × Plan} (ht : m.timedOut = some x) (hn : m.host.Numbered) :
    x.1 < m.after.made ∧ ∀ c ∈ m.after.calls, c.id ≠ x.1 := by
  obtain ⟨c, hc, hx⟩ := Option.bind_eq_some_iff.mp ht
  obtain ⟨plan, hf, rfl⟩ := Option.map_eq_some_iff.mp hx
  have hnews : m.news.any (·.what.isTimeout) = true := (Option.filter_eq_some_iff.mp hf).2
  obtain ⟨hmem, ⟨-, hafter⟩ | ⟨move, hmove, hl⟩⟩ := mover_acts hc
  · -- a call that has to wait returns nothing
    have hsame : m.after.history = [] ++ m.host.history := by
      rw [hafter]
      rfl
    rw [news_eq hsame] at hnews
    cases hnews
  · rw [news_eq hl.history, List.any_map] at hnews
    obtain ⟨what, hwhat, htimeout⟩ := List.any_eq_true.mp hnews
    obtain ⟨answer, rfl⟩ : ∃ answer, what = .answered answer := by
      cases what with
      | answered answer => exact ⟨answer, rfl⟩
      | _ => cases htimeout
    have hends : ∃ answer, move.fate = .ends answer := by
      unfold Move.happenings at hwhat
      split at hwhat
      · exact ⟨_, ‹_›⟩
      · exact absurd hwhat (hmove.unanswered _)
    obtain ⟨answer, hends⟩ := hends
    refine ⟨by rw [hl.made]; exact hn.made c hmem, fun x hx => ?_⟩
    rw [hl.calls, Move.callsAfter, hends] at hx
    simpa using (List.mem_filter.mp hx).2

end Moment

/-! ## Replies and registrations -/

theorem Plan.Alike.answers {a b : Plan} (hab : a.Alike b) {p : Packet} (hp : p.Answers b) : p.Answers a := by
  rw [Packet.Answers, hab.1, hab.2]
  exact hp

/-- Replies of operations have other types than those of the handshake, and the type tells the kind of reply. -/
theorem Plan.alike_of_answers {a b : Plan} {p : Packet} (ha : p.Answers a) (hb : p.Answers b) : a.Alike b := by
  obtain ⟨hta, hna⟩ := ha
  obtain ⟨htb, hnb⟩ := hb
  refine ⟨?_, Option.some.inj (hna.symm.trans hnb)⟩
  rw [hta] at htb
  cases ha : a.kind <;> cases hb : b.kind <;> rw [ha, hb] at htb <;> first | rfl | exact absurd htb (by decide)

theorem Packet.Answers.ne_stage {p : Packet} {plan : Plan} (hp : p.Answers plan) (stage : Stage) :
    p.type ≠ stage.response.code := by
  rw [hp.1]
  cases plan.kind <;> cases stage <;> decide

namespace Host

variable {config : SessionConfig} {twin : Twin} {as bs : List Action}

/-! ## Who can take a packet -/

/-- A registration that can take a reply to a plan is that of an operation that expects such a reply. -/
theorem expects_of_accepts (hv : ∀ a ∈ as, a.viaSession) {plan : Plan} {p : Packet} (hp : p.Answers plan) {w : Waiter}
    (hw : w ∈ ((ofSession config twin).run as).link.table.entries) (ha : w.accepts p) :
    ∃ id plan', ((ofSession config twin).run as).Expects id w.ticket plan' ∧ plan'.Alike plan := by
  have hb : ((ofSession config twin).run as).Bound _ := bound_run hv
  have hk : Kept _ _ ((ofSession config twin).run as).live _ := (Setup.session config twin).kept_run as
  obtain ⟨hheld, hnone, -⟩ := hk.of_mem hw
  rw [live, hb.tickets, List.nil_append] at hheld
  obtain ⟨c, hc, ht⟩ := List.mem_filterMap.mp hheld
  cases hplan : c.point.plan? with
  | none =>
    obtain ⟨stage, hstage⟩ := hb.handshake c hc _ ht hplan
    have htype : w.type = p.type := ((w.accepts_iff p).mp ha).1
    exact absurd (htype.symm.trans hstage) (hp.ne_stage stage)
  | some plan' =>
    obtain ⟨-, hopened⟩ := hb.planned c hc _ _ ht hplan
    have hw' : plan'.waiter w.id = w := hk.eq_of_id hopened (hk.mem_opened hw) rfl
    rw [← hw', Plan.waiter_accepts] at ha
    refine ⟨c.id, plan', ⟨⟨c, hc, rfl, ht, hplan⟩, ?_⟩, Plan.alike_of_answers ha hp⟩
    rw [Link.delivery?_eq]
    exact congrArg List.head? hnone

/-- The registration of an operation that expects a reply can take any reply to a plan alike. -/
theorem accepts_of_expects (hv : ∀ a ∈ as, a.viaSession) {plan plan' : Plan} {p : Packet} (hp : p.Answers plan)
    {id : Nat} {t : Ticket} (he : ((ofSession config twin).run as).Expects id t plan') (ha : plan'.Alike plan) :
    ∃ w ∈ ((ofSession config twin).run as).link.table.entries, w.ticket = t ∧ w.accepts p := by
  have hb : ((ofSession config twin).run as).Bound _ := bound_run hv
  have hk : Kept _ _ ((ofSession config twin).run as).live _ := (Setup.session config twin).kept_run as
  obtain ⟨⟨c, hc, -, ht, hplan⟩, hnone⟩ := he
  obtain ⟨hticket, hopened⟩ := hb.planned c hc _ _ ht hplan
  have hheld := mem_live hc ht
  obtain ⟨w, hw, rfl⟩ := List.mem_map.mp
    (hk.tickets.mem_iff.mpr (List.mem_filter.mpr ⟨hheld, Option.isNone_iff_eq_none.mpr hnone⟩))
  have hw' : plan'.waiter w.id = w := hk.eq_of_id hopened (hk.mem_opened hw) rfl
  exact ⟨w, hw, rfl, hw' ▸ Plan.waiter_accepts.mpr (ha.answers hp)⟩

/-- A call that has returned a timeout does not come back. -/
theorem timedOut_gone {id : Nat} {plan : Plan}
    (ht : (id, plan) ∈ ((ofSession config twin).moments bs).filterMap Moment.timedOut) :
    ∀ c ∈ ((ofSession config twin).run bs).calls, c.id ≠ id := by
  obtain ⟨m, hm, ht⟩ := List.mem_filterMap.mp ht
  obtain ⟨cs, ⟨ds, hds⟩, hhost⟩ := exists_of_mem_moments hm
  have hn : m.host.Numbered := hhost ▸ (Setup.session config twin).numbered_run cs
  have hends := Moment.timedOut_ends ht hn
  have hafter : m.after = (ofSession config twin).run (cs ++ [m.action]) := by rw [run_concat, Moment.after, hhost]
  rw [hafter] at hends
  -- its number is not given to another call
  have hgone := ((Setup.session config twin).tidy_run (cs ++ [m.action])).run_inv (P := fun h => h.Numbered ∧ id < h.made ∧ ∀ c ∈ h.calls, c.id = id → False)
    ⟨(Setup.session config twin).numbered_run (cs ++ [m.action]), hends⟩
    (fun h a h' ha hg => ⟨hg.1.acts ha, ha.point hg.1 (P := fun _ => False) (fun _ _ _ _ _ _ _ hf => hf) hg.2⟩) ds
  rw [Setup.host, ← run_append, hds] at hgone
  exact hgone.2.2

/-- What a wait returns whose registration was served with a packet is that packet. -/
theorem returned_served {cs : List Action} {a b : Action} {w : Waiter} {p : Packet} {t : Ticket}
    {r : Except LinkError Packet} (hs : (Moment.mk ((ofSession config twin).run bs) a).served = some (w, p))
    (hcs : bs ++ [a] <+: cs) (ht : w.ticket = t)
    (hr : (Moment.mk ((ofSession config twin).run cs) b).returned = some (t, r)) : r = .ok p := by
  have hk := (Setup.session config twin).kept_run cs
  have hserved : (w, p) ∈ ((ofSession config twin).moments cs).filterMap Moment.served := by
    refine ((moments_mono _ hcs).filterMap _).subset ?_
    rw [seen_concat, hs]
    exact List.mem_append_right _ (List.mem_singleton.mpr rfl)
  obtain ⟨-, -, v, hv, hvt, hres⟩ := ((Setup.session config twin).settles cs b).returns t r hr
  obtain rfl : v = w := hk.eq_of_id hv (hk.accepted _ hserved).1 (congrArg Ticket.id (hvt.trans ht.symm))
  cases hres with
  | packet q hq htype hm => rw [hk.eq_of_taken hq hserved]
  | timeout hn => exact absurd hserved (hn p)
  | closed reason hc hn => exact absurd hserved (hn p)

/-- **A late reply is treated as unsolicited exactly if no other operation expects a reply of its type and name.** In a
run in which the session is used and not the link under it, every reply that the device sends to a request which has timed
out is counted as unsolicited and goes to no registration if and only if, whenever such a reply is sorted, no operation
alike has registered and is without its reply. Each late reply for which one has goes to such an operation of another
call, and is all that its wait can return. -/
theorem late_forgotten_iff (config : SessionConfig) (twin : Twin) (as : List Action) (account : Nat → Option Nat)
    (hv : ∀ a ∈ as, a.viaSession) :
    let h := ofSession config twin
    ((∀ id plan bs a p, h.Late as account id plan bs a p → (Moment.mk (h.run bs) a).Forgets) ↔
      ∀ id plan bs a p, h.Late as account id plan bs a p →
        ∀ id' t plan', (h.run bs).Expects id' t plan' → ¬plan'.Alike plan) ∧
    ∀ id plan bs a p, h.Late as account id plan bs a p →
      (∃ id' t plan', (h.run bs).Expects id' t plan' ∧ plan'.Alike plan) →
      ∃ id' t plan', (h.run bs).Expects id' t plan' ∧ plan'.Alike plan ∧ id' ≠ id ∧
        (Moment.mk (h.run bs) a).after.link.deliveries = (h.run bs).link.deliveries ++ [(t.id, .ok p)] ∧
        ∀ cs b, bs ++ [a] <+: cs → ∀ r, (Moment.mk (h.run cs) b).returned = some (t, r) → r = .ok p := by
  intro h
  have hprefix : ∀ {bs a}, bs ++ [a] <+: as → ∀ b ∈ bs, b.viaSession := fun hb b hbb =>
    hv b (hb.subset (List.mem_append_left _ hbb))
  have hforgets : ∀ {id plan bs a p}, h.Late as account id plan bs a p → ((Moment.mk (h.run bs) a).Forgets ↔
      ∀ id' t plan', (h.run bs).Expects id' t plan' → ¬plan'.Alike plan) := by
    intro id plan bs a p hl
    have hvb := hprefix hl.isPrefix
    rw [Moment.forgets_iff hl.packet ((Setup.session config twin).claimed_run bs)]
    constructor
    · intro hno id' t plan' he halike
      obtain ⟨w, hw, -, ha⟩ := accepts_of_expects hvb hl.answers he halike
      exact hno w hw ha
    · intro hno w hw ha
      obtain ⟨id', plan', he, halike⟩ := expects_of_accepts hvb hl.answers hw ha
      exact hno id' _ plan' he halike
  refine ⟨⟨fun hall id plan bs a p hl => (hforgets hl).mp (hall id plan bs a p hl),
    fun hall id plan bs a p hl => (hforgets hl).mpr (hall id plan bs a p hl)⟩, ?_⟩
  rintro id plan bs a p hl ⟨id₀, t₀, plan₀, he₀, ha₀⟩
  have hvb := hprefix hl.isPrefix
  obtain ⟨w₀, hw₀, -, hacc₀⟩ := accepts_of_expects hvb hl.answers he₀ ha₀
  obtain ⟨w, hw, hacc, hserved, hdel⟩ := Moment.served_of_accepts hl.packet
    ((Setup.session config twin).ordered_run bs) ((Setup.session config twin).claimed_run bs) ⟨w₀, hw₀, hacc₀⟩
  obtain ⟨id', plan', he, halike⟩ := expects_of_accepts hvb hl.answers hw hacc
  obtain ⟨c, hc, rfl, -⟩ := he.call
  exact ⟨c.id, w.ticket, plan', he, halike, timedOut_gone hl.timedOut c hc, hdel,
    fun cs b hcs r hr => returned_served hserved hcs rfl hr⟩

/-- The command `b` of the device. -/
def commandB : Plan := ⟨.command, "a", "b", ⟨5, [0, 1, 98]⟩, .string⟩

/-- The reply of the device to a command. -/
def replyB (text : Bytes) : Packet := .ofKind .commandResponse ([0, 1, 98] ++ text)

/-- A session starts, and its first command times out. -/
def timedOutOnce : List Action :=
  let call := fun id => Action.advance (.call id) false
  let loop := Action.advance .loop false
  let device := fun p : Packet => Action.receive (Frame.encode p.toBytes)
  [.make .start, call 0, call 0, loop, loop, loop, call 0,
    device (.bare .resetResponse), loop, loop, loop, call 0, call 0, loop, loop, loop, call 0,
    device (.ofKind .descriptorResponse [1, 0, 5, 1, 0, 97, 1, 1, 98, 0, 0, 0, 0, 7, 0]), loop, loop, loop,
    call 0, call 0, call 0, call 0, call 0, call 0,
    .make (.operate (.invoke "b" "")), call 1, call 1, call 1, loop, loop, loop, call 1, .pass 5000, call 1]

/-- The device answers it then. -/
def answeredLate : List Action :=
  timedOutOnce ++ [.receive (Frame.encode (replyB [49]).toBytes), .advance .loop false, .advance .loop false]

theorem late_forgotten_iff_answeredLate :
    let h := ofSession {} (.scripted [] 0 0)
    let account := fun n => if n = 2 then some 1 else none
    let bs := answeredLate.take 39
    (∀ a ∈ answeredLate, a.viaSession) ∧
      h.Late answeredLate account 1 commandB bs (.advance .loop false) (replyB [49]) ∧
      (Moment.mk (h.run bs) (.advance .loop false)).Forgets := by
  intro h account bs
  have hv : ∀ a ∈ answeredLate, a.viaSession := by decide
  have hlate : h.Late answeredLate account 1 commandB bs (.advance .loop false) (replyB [49]) := by
    refine ⟨⟨[], ?_⟩, ?_, ?_, ?_, ?_, ?_⟩
    · rfl
    · decide +kernel
    · decide +kernel
    · decide +kernel
    · decide +kernel
    · decide +kernel
  -- once it has timed out there is no call any more
  have hidle : ∀ bs ∈ answeredLate.inits,
      (h.moments bs).filterMap Moment.timedOut = [] ∨ (h.run bs).calls.isEmpty = true := by
    decide +kernel
  refine ⟨hv, hlate, (late_forgotten_iff _ _ _ account hv).1.mpr ?_ _ _ _ _ _ hlate⟩
  intro id plan bs a p hl id' t plan' he
  obtain ⟨c, hc, -⟩ := he.call
  rcases hidle bs ((List.mem_inits bs _).mpr ((List.prefix_append bs [a]).trans hl.isPrefix)) with hnone | hnone
  · have ht := hl.timedOut
    rw [hnone] at ht
    cases ht
  · rw [List.isEmpty_iff.mp hnone] at hc
    cases hc

/-- It is invoked again before the device answers both requests. -/
def invokedAgain : List Action :=
  let call := fun id => Action.advance (.call id) false
  let loop := Action.advance .loop false
  let device := fun p : Packet => Action.receive (Frame.encode p.toBytes)
  timedOutOnce ++ [.make (.operate (.invoke "b" "")), call 2, call 2, call 2, loop, loop, loop, call 2,
    device (replyB [49]), loop, loop, loop, call 2, device (replyB [50]), loop, loop]

/-- **A late reply can answer another call:** the second call takes up the reply to the first, and the reply to its own
request is counted as unsolicited. -/
theorem invokedAgain_answered :
    let h := ofSession {} (.scripted [] 0 0)
    let account := fun n => if n = 2 then some 1 else none
    ¬(∀ id plan bs a p, h.Late invokedAgain account id plan bs a p → (Moment.mk (h.run bs) a).Forgets) ∧
      ((h.moments invokedAgain).filterMap Moment.timedOut) = [(1, commandB)] ∧
      ((h.moments invokedAgain).filterMap Moment.replied) = [(2, commandB, replyB [49])] ∧
      (h.run invokedAgain).link.metrics.unsolicitedPackets = 1 := by
  intro h account
  refine ⟨fun hall => ?_, by decide +kernel, by decide +kernel, by decide +kernel⟩
  have hlate : h.Late invokedAgain account 1 commandB (invokedAgain.take 47) (.advance .loop false) (replyB [49]) := by
    refine ⟨⟨invokedAgain.drop 48, ?_⟩, ?_, ?_, ?_, ?_, ?_⟩
    · rfl
    · decide +kernel
    · decide +kernel
    · decide +kernel
    · decide +kernel
    · decide +kernel
  have hserved := (hall _ _ _ _ _ hlate).served
  revert hserved
  decide +kernel

end Host

end TwinLink
