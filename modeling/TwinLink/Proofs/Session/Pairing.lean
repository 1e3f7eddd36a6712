import Mathlib.Data.List.Infix
import TwinLink.Proofs.Session.Lane
import TwinLink.Proofs.Session.Wire

/-!
# Every command gets its own reply

No number ties a reply to its request: that a command gets the reply to its own request follows from the order of both.

* `Host.requests`, `Host.replies` : what a device finds on the wire, and what it has sent;
* `Host.Cooperative` : the device answers in turn, and no command gives up while it is outstanding;
* `Moment.Invokes`, `Moment.replied` : a command that makes its plan, and one that takes up its reply;
* `Host.Commanded` : what holds of the commands after a run; `Host.Cooperative.commanded`;
* `Host.Paired` : every command gets its own reply; `Host.commands_paired`.
-/

namespace TwinLink
open Decoder (packets)

/-! ## Requests and replies -/

theorem getElem?_mono {α : Type} {xs ys : List α} (hp : xs <+: ys) {k : Nat} {x : α} (hx : xs[k]? = some x) :
    ys[k]? = some x := by
  obtain ⟨hk, rfl⟩ := List.getElem?_eq_some_iff.mp hx
  exact List.prefix_iff_getElem?.mp hp k hk

/-- The name that a request or a reply carries. -/
def Packet.name? (p : Packet) : Option String := (NamedPayload.decode p.payload).toOption.map (·.name)

theorem Packet.name?_eq_some {p : Packet} {name : String} :
    p.name? = some name ↔ ∃ payload, NamedPayload.decode p.payload = .ok payload ∧ payload.name = name := by
  unfold name?
  cases NamedPayload.decode p.payload <;> simp [Except.toOption]

theorem Plan.Named.name? {plan : Plan} (hn : plan.Named) : plan.request.name? = some plan.name :=
  Packet.name?_eq_some.mpr hn.name

namespace Host

/-- The requests of commands that are complete on the wire after a run. -/
def requests (h : Host) (as : List Action) : List Packet :=
  (packets Frame.maxLength (h.run as).wire.outbound).filter Packet.isRequest

/-- The replies to commands among the bytes that have come from the device in a run. -/
def replies (h : Host) (as : List Action) : List Packet :=
  (packets h.link.config.maxFrameSize ((h.moments as).flatMap Moment.arrived)).filter Packet.isReply

/-- The commands whose requests the loop has begun to write in a run, with their calls. -/
def sentIn (h : Host) (as : List Action) : List (Nat × Plan) := (h.moments as).filterMap Moment.sent

/-- The calls that have made their plans in a run, with those plans. -/
def plannedIn (h : Host) (as : List Action) : List (Nat × Plan) := (h.moments as).filterMap Moment.planned

/-- What has been seen of commands in a run. -/
def book (h : Host) (as : List Action) : Book where
  acquired := (h.moments as).filterMap Moment.acquired
  sent := h.sentIn as
  replies := (h.moments as).filterMap Moment.reply
  matched := (h.moments as).filterMap Moment.matched

/-- What is expected of the device and of those who use the session. -/
structure Cooperative (h : Host) (as : List Action) : Prop where
  /-- The session is used, and not the link under it. -/
  viaSession : ∀ a ∈ as, a.viaSession
  /-- At any time the device has sent replies to the first of the requests, in their order and with their names, and no
  others. -/
  inTurn : ∀ bs, bs <+: as → (h.replies bs).map Packet.name? <+: (h.requests bs).map Packet.name?
  /-- Every request fits a packet. -/
  fits : ∀ x ∈ h.plannedIn as, x.2.request.payload.length ≤ 65531
  /-- No command times out or is dropped while its request is outstanding. -/
  keeps : ∀ m ∈ h.moments as, ¬m.loses

end Host

/-- What a command answers with the data of its reply. -/
def Plan.answer (plan : Plan) (data : Bytes) : Answer :=
  match plan.result.toText data with
  | .ok value => .ok (.text value)
  | .error e => .error (.session (.schema e))

namespace Moment

/-- The command that takes up its reply, with its call and the reply. -/
def replied (m : Moment) : Option (Nat × Plan × Packet) :=
  m.mover.bind fun c => match c.point with
    | .awaiting ticket _ _ (.operation plan) => match plan.kind, m.host.link.delivery? ticket.id with
      | .command, some (.ok p) => some (c.id, plan, p)
      | _, _ => none
    | _ => none

/-- The call `id` is asked to invoke a command, directly or by the twin, and makes its plan by what the device says of
that command: `data` is sent along, and the reply is read by the schema for it. -/
inductive Invokes (m : Moment) (id : Nat) (plan : Plan) : Prop
  | mk (c : Call) (hm : m.mover = some c) (hid : c.id = id) (input : String)
      (hp : c.point = .begun (.operate (.invoke plan.name input)) ∨
        c.point = .begun (.twinOperate (.invoke plan.name input)))
      (ho : m.host.session.phase = .operational) (d : Descriptor) (hd : m.host.session.descriptor = some d)
      (found : Located Command) (hf : d.command? plan.name = some found)
      (data : Bytes) (hdata : found.definition.request.toBytes input = .ok data)
      (hr : NamedPayload.decode plan.request.payload = .ok ⟨UInt8.ofNat found.index, plan.name, data⟩)
      (hs : plan.result = found.definition.response)

/-- A plan is made for an operation that the call is asked for, in an operational session. -/
theorem planned_eq {m : Moment} {id : Nat} {plan : Plan} (hp : m.planned = some (id, plan)) :
    ∃ c op d, m.mover = some c ∧ c.id = id ∧ (c.point = .begun (.operate op) ∨ c.point = .begun (.twinOperate op)) ∧
      m.host.session.phase = .operational ∧ m.host.session.descriptor = some d ∧ op.plan d = .ok plan := by
  obtain ⟨c, hm, hp⟩ := Option.bind_eq_some_iff.mp hp
  obtain ⟨plan', hp, he⟩ := Option.map_eq_some_iff.mp hp
  cases he
  obtain ⟨op, hpt, ho⟩ : ∃ op, (c.point = .begun (.operate op) ∨ c.point = .begun (.twinOperate op)) ∧
      (m.host.planOperation op).toOption = some plan := by
    unfold Host.planned at hp
    split at hp
    · exact ⟨_, .inl ‹_›, hp⟩
    · split at hp
      · exact ⟨_, .inr ‹_›, hp⟩
      · cases hp
    · cases hp
  unfold Host.planOperation at ho
  split at ho
  · cases ho
  · split at ho
    · rename_i d hd
      refine ⟨c, op, d, hm, rfl, hpt, ‹_›, hd, ?_⟩
      cases hop : op.plan d <;> rw [hop] at ho <;> cases ho
      rfl
    · cases ho
  · cases ho

theorem planned_named {m : Moment} {x : Nat × Plan} (hp : m.planned = some x) : x.2.Named := by
  obtain ⟨c, op, d, -, -, -, -, -, ho⟩ := planned_eq hp
  exact Operation.plan_named ho

theorem planned_invokes {m : Moment} {x : Nat × Plan} (hp : m.planned = some x) (hk : x.2.kind = .command) :
    m.Invokes x.1 x.2 := by
  obtain ⟨c, op, d, hm, hid, hpt, hphase, hd, ho⟩ := planned_eq hp
  obtain ⟨input, found, data, rfl, hf, hdata, hs, hr⟩ := Operation.plan_command ho hk
  exact .mk c hm hid input hpt hphase d hd found hf data hdata hr hs

end Moment

namespace Host

variable {config : SessionConfig} {twin : Twin} {as bs : List Action}

namespace Cooperative

variable {h : Host}

theorem of_mono (hc : h.Cooperative as) (hb : bs <+: as) : h.Cooperative bs where
  viaSession := fun a ha => hc.viaSession a (hb.subset ha)
  inTurn := fun cs hcs => hc.inTurn cs (hcs.trans hb)
  fits := fun x hx => hc.fits x (((h.moments_mono hb).filterMap _).subset hx)
  keeps := fun m hm => hc.keeps m ((h.moments_mono hb).subset hm)

/-- What is planned is named and fits a frame. -/
theorem plans (hc : h.Cooperative as) :
    ∀ x ∈ h.plannedIn as, x.2.Named ∧ x.2.request.totalLength ≤ Frame.maxLength := by
  intro x hx
  obtain ⟨m, -, hp⟩ := List.mem_filterMap.mp hx
  refine ⟨Moment.planned_named hp, ?_⟩
  have := hc.fits x hx
  show 4 + _ ≤ 65535
  omega

end Cooperative

/-- The book of a run is kept action by action. -/
theorem book_concat (h : Host) (as : List Action) (a : Action) :
    h.book (as ++ [a]) = (h.book as).add (h.run as) a ((h.run as).apply a) := by
  simp only [book, sentIn, seen_concat, Book.add]
  rfl

/-- A frame in hand is the first of those that wait. -/
theorem sorted_waiting (m : Moment) : m.sorted.toList <+: m.host.link.loop.waiting := by
  unfold Moment.sorted
  split
  · cases m.host.link.loop with
    | sorting frames fault => cases frames <;> simp [LoopPoint.next, LoopPoint.waiting]
    | _ => exact List.nil_prefix
  · exact List.nil_prefix

/-- The replies that were sorted, with the one in hand, are the first that came from the device. -/
theorem sorted_replies (config : SessionConfig) (twin : Twin) (as : List Action) {m : Moment}
    (hm : m.host = (ofSession config twin).run as) :
    ((ofSession config twin).book as).replies ++ m.reply.toList <+: (ofSession config twin).replies as := by
  obtain ⟨read, fault, harr, hread, -⟩ := (Setup.session config twin).decoded_run as
  have hbook : ((ofSession config twin).book as).replies = (((ofSession config twin).moments as).filterMap
      Moment.sorted).filterMap fun frame => (Packet.ofFrame frame).toOption.filter Packet.isReply := by
    rw [List.filterMap_filterMap]
    rfl
  have hreply : m.reply.toList =
      m.sorted.toList.filterMap fun frame => (Packet.ofFrame frame).toOption.filter Packet.isReply := by
    unfold Moment.reply
    cases m.sorted with
    | none => rfl
    | some frame =>
      rw [Option.bind_some, Option.toList_some, List.filterMap_cons]
      cases (Packet.ofFrame frame).toOption.filter Packet.isReply <;> rfl
  have hwait := sorted_waiting m
  rw [hm] at hwait
  -- what the loop has read is the beginning of what has come, and the frame in hand is the next of it
  have hcome : (packets config.link.maxFrameSize read).filter Packet.isReply <+: (ofSession config twin).replies as := by
    refine List.IsPrefix.filter _ ?_
    show _ <+: packets _ (((Setup.session config twin).host.moments as).flatMap Moment.arrived)
    rw [harr]
    exact Decoder.packets_mono _ _ _
  refine List.IsPrefix.trans ?_ hcome
  rw [hbook, hreply, ← List.filterMap_append, packets, List.filter_filterMap]
  refine List.IsPrefix.filterMap _ ?_
  show _ <+: ((Decoder.ofLimit (Setup.session config twin).linkConfig.maxFrameSize).feedChunk read).2.1
  rw [hread]
  exact (List.prefix_append_right_inj _).mpr hwait

/-! ## Runs -/

/-- What holds of the commands after a run. -/
structure Commanded (h : Host) (as : List Action) : Prop where
  separate : (h.run as).Separate (h.plannedIn as)
  plans : ∀ x ∈ h.sentIn as, x ∈ h.plannedIn as ∧ x.2.kind = .command
  written : Written (h.sentIn as) (h.run as)
  wired : Wired (h.sentIn as) (h.run as)
  lane : Lane (h.book as) (h.run as)

namespace Commanded

variable {h : Host}

/-- The commands whose requests are taken up have made their plans themselves. -/
theorem sent (hc : h.Commanded as) {m : Moment} (hm : m.host = h.run as) {x : Nat × Plan} (hx : m.sent = some x) :
    x ∈ h.plannedIn as ∧ x.2.kind = .command := by
  unfold Moment.sent sends at hx
  rw [hm] at hx
  split at hx
  · obtain ⟨c, hcall, hx⟩ := Option.bind_eq_some_iff.mp hx
    obtain ⟨plan, hp, rfl⟩ := Option.map_eq_some_iff.mp hx
    have hreg := (hc.separate.regular c (call?_mem hcall)).planned hp
    rw [call?_id hcall] at hreg
    exact ⟨hreg, (Point.command?_eq_some.mp hp).2⟩
  · cases hx

/-- A command that is dropped has its request taken up, if it was handed over and is not outstanding. -/
theorem dropped (hc : h.Commanded as) {c : Call} (hm : c ∈ (h.run as).calls) (ho : (h.run as).outstanding c = false)
    {t : Ticket} {plan : Plan} (hr : c.point.requested? = some (t, plan)) (hk : plan.kind = .command) :
    ∃ x ∈ h.sentIn as, x.1 = c.id := by
  obtain ⟨hticket, hplan⟩ := Point.requested?_eq hr
  have ht : c.Commands t plan := ⟨hticket, Point.command?_eq_some.mpr ⟨hplan, hk⟩⟩
  unfold outstanding at ho
  rw [hr] at ho
  have hd : ∃ p, (h.run as).link.delivery? t.id = some (.ok p) := by
    simp only [Option.any_some, hk, beq_self_eq_true, Bool.true_and] at ho
    split at ho
    · exact ⟨_, ‹_›⟩
    · cases ho
  obtain ⟨p, hd⟩ := hd
  have hlast : ∀ {before : List (Nat × Plan)}, h.sentIn as = before ++ [(c.id, plan)] →
      ∃ x ∈ h.sentIn as, x.1 = c.id := fun he => ⟨(c.id, plan), by rw [he]; simp, rfl⟩
  cases hc.lane.turn c hm t plan ht with
  | unsent hs hn hb hst => rcases hst with hst | hst <;> cases hst.delivery? hd
  | asked before hs hn hst => exact hlast hs
  | answered before answers p' hs hm hn hst => exact hlast hs
  | lost hs hst => cases hst.delivery? hd

/-- A reply from the device carries the name of the request that it answers. -/
theorem named (hc : h.Commanded as) (hco : h.Cooperative as) {k : Nat} {p : Packet} (hp : (h.replies as)[k]? = some p) :
    ∃ x payload, (h.sentIn as)[k]? = some x ∧ (h.requests as)[k]? = some x.2.request ∧
      NamedPayload.decode p.payload = .ok payload ∧ payload.name = x.2.name := by
  have hk : ((h.replies as).map Packet.name?)[k]? = some p.name? := by rw [List.getElem?_map, hp]; rfl
  have hk := getElem?_mono (hco.inTurn as List.prefix_rfl) hk
  rw [List.getElem?_map] at hk
  obtain ⟨q, hq, hname⟩ := Option.map_eq_some_iff.mp hk
  have hsent := getElem?_mono hc.wired.requests.1 hq
  rw [List.getElem?_map] at hsent
  obtain ⟨x, hx, rfl⟩ := Option.map_eq_some_iff.mp hsent
  rw [(hco.plans x (hc.plans x (List.mem_of_getElem? hx)).1).1.name?] at hname
  obtain ⟨payload, hdec, hpn⟩ := Packet.name?_eq_some.mp hname.symm
  exact ⟨x, payload, hx, hq, hdec, hpn⟩

/-- A reply in hand is expected. -/
theorem expects (hc : h.Commanded as) (hco : h.Cooperative as) {p : Packet}
    (hp : (h.book as).replies ++ [p] <+: h.replies as) : (h.book as).Expects p := by
  obtain ⟨x, payload, hx, -, hdec, hname⟩ := hc.named hco (getElem?_mono hp List.getElem?_concat_length)
  exact ⟨x, payload, hx, hdec, hname⟩

end Commanded

/-- **Commands take turns in every run** in which device and callers do what they have to. -/
theorem Cooperative.commanded (hc : (ofSession config twin).Cooperative as) : (ofSession config twin).Commanded as := by
  induction as using List.reverseRecOn with
  | nil => exact ⟨.ofSession config twin, nofun, .ofSession config twin, .ofSession config twin, .ofSession config twin⟩
  | append_singleton as a ih =>
    have hco := hc.of_mono (List.prefix_append as [a])
    have ih := ih hco
    have ha := acts_ofSession config twin as a
    generalize hh : ofSession config twin = h at *
    have hv : a.viaSession := hc.viaSession a (by simp)
    have hm : (⟨h.run as, a⟩ : Moment) ∈ h.moments (as ++ [a]) := by rw [moments_concat]; simp
    have hlose := hc.keeps _ hm
    have hsent : h.sentIn (as ++ [a]) = h.sentIn as ++ ((h.run as).sends ((h.run as).apply a)).toList :=
      h.seen_concat _ as a
    have hplanned : h.plannedIn (as ++ [a]) = h.plannedIn as ++ (Moment.mk (h.run as) a).planned.toList :=
      h.seen_concat _ as a
    refine ⟨?_, ?_, ?_, ?_, ?_⟩
    · rw [run_concat, hplanned]
      exact ih.separate.acts ha hv
    · intro x hx
      rw [hsent, List.mem_append, Option.mem_toList] at hx
      have hold : x ∈ h.plannedIn as ∧ x.2.kind = .command := hx.elim (ih.plans x) (ih.sent (m := ⟨h.run as, a⟩) rfl)
      rw [hplanned]
      exact ⟨List.mem_append_left _ hold.1, hold.2⟩
    · rw [run_concat, hsent]
      refine ih.written.acts ih.separate hco.plans ha hv fun c hcall ha t plan hr hk =>
        ih.dropped hcall ?_ hr hk
      subst ha
      have : ((h.run as).call? c.id).any (h.run as).outstanding = false := by simpa [Moment.loses] using hlose
      rwa [ih.separate.numbered.call?_of_mem hcall, Option.any_some] at this
    · rw [run_concat, hsent]
      exact ih.wired.acts ih.written ih.separate hco.plans ha
    · rw [run_concat, book_concat]
      refine ih.lane.acts ha ih.separate ih.written hv hlose fun p hp => ih.expects hco ?_
      have := sorted_replies config twin as (m := ⟨(ofSession config twin).run as, a⟩) rfl
      rw [hh, hp] at this
      exact this

/-! ## Pairs -/

/-- Every command gets its own reply. -/
structure Paired (h : Host) (as : List Action) : Prop where
  /-- The reply that a command takes up is the one to its own request, and the command answers with the data of it. -/
  own : ∀ m ∈ h.moments as, ∀ id plan p, m.replied = some (id, plan, p) →
    ∃ k : Nat, (h.sentIn as)[k]? = some (id, plan) ∧ (h.requests as)[k]? = some plan.request ∧
      (h.replies as)[k]? = some p ∧
      ∃ payload, NamedPayload.decode p.payload = .ok payload ∧ payload.name = plan.name ∧
        m.news = [⟨.call id, m.host.now, .answered (plan.answer payload.data)⟩]
  /-- A command succeeds in no other way. -/
  only : ∀ m ∈ h.moments as, ∀ c plan, m.mover = some c → c.point.command? = some plan →
    ∀ n ∈ m.news, ∀ reply, n.what = .answered (.ok reply) → ∃ p, m.replied = some (c.id, plan, p)
  /-- The request of a command is what its call was asked to invoke. -/
  invoked : ∀ x ∈ h.sentIn as, ∃ m ∈ h.moments as, m.Invokes x.1 x.2
  /-- The wire carries one request for each command whose turn has come, the last of which may not be complete. -/
  wire : h.requests as <+: (h.sentIn as).map (·.2.request) ∧ (h.sentIn as).length ≤ (h.requests as).length + 1
  /-- They come in the order in which the calls got the lock, and a call comes once. -/
  order : ((h.sentIn as).map (·.1)).Sublist ((h.moments as).filterMap Moment.acquired) ∧
    ((h.moments as).filterMap Moment.acquired).Nodup
  /-- At any time, all requests taken up but the last have had their replies matched. -/
  turns : ∀ bs, bs <+: as → (h.sentIn bs).length ≤ ((h.moments bs).filterMap Moment.matched).length + 1 ∧
    (h.moments bs).filterMap Moment.matched <+: h.replies bs

theorem replied_eq {m : Moment} {id : Nat} {plan : Plan} {p : Packet} (hr : m.replied = some (id, plan, p)) :
    ∃ c ticket limit alarm, m.mover = some c ∧ c.id = id ∧ c.point = .awaiting ticket limit alarm (.operation plan) ∧
      plan.kind = .command ∧ m.host.link.delivery? ticket.id = some (.ok p) := by
  obtain ⟨c, hm, hr⟩ := Option.bind_eq_some_iff.mp hr
  split at hr
  · split at hr
    · cases hr
      exact ⟨c, _, _, _, hm, rfl, ‹_›, ‹_›, ‹_›⟩
    · cases hr
  · cases hr

theorem replies_mono (h : Host) (hb : bs <+: as) : h.replies bs <+: h.replies as := by
  obtain ⟨ms, hms⟩ := h.moments_mono hb
  unfold replies
  rw [← hms, List.flatMap_append]
  exact (Decoder.packets_mono _ _ _).filter _

/-- A reply that a command takes up is the one to its own request. -/
theorem Commanded.replied {h : Host} (hc : h.Commanded as) {m : Moment} (hm : m.host = h.run as) {id : Nat} {plan : Plan}
    {p : Packet} (hr : m.replied = some (id, plan, p)) :
    ∃ k : Nat, (h.sentIn as)[k]? = some (id, plan) ∧ (h.book as).matched[k]? = some p := by
  obtain ⟨c, ticket, limit, alarm, hmover, rfl, hq, hk, hd⟩ := replied_eq hr
  have hcall := (Moment.mover_acts hmover).1
  rw [hm] at hcall hd
  have ht : c.Commands ticket plan := ⟨by rw [hq]; rfl, Point.command?_eq_some.mpr ⟨by rw [hq]; rfl, hk⟩⟩
  cases hc.lane.turn c hcall ticket plan ht with
  | unsent hs hn hb hst => rcases hst with hst | hst <;> cases hst.delivery? hd
  | asked before hs hn hst => cases hst.delivery? hd
  | answered before answers p' hs hm hn hst =>
    cases hst.delivery? hd
    have hs : h.sentIn as = before ++ [(c.id, plan)] := hs
    refine ⟨before.length, ?_, ?_⟩
    · rw [hs, List.getElem?_concat_length]
    · rw [hm, hn, List.getElem?_concat_length]
  | lost hs hst => cases hst.delivery? hd

/-- A command that takes up its reply answers with it. -/
theorem news_replied {m : Moment} {id : Nat} {plan : Plan} {p : Packet} (hr : m.replied = some (id, plan, p))
    {payload : NamedPayload} (hdec : NamedPayload.decode p.payload = .ok payload) :
    m.news = [⟨.call id, m.host.now, .answered (plan.answer payload.data)⟩] := by
  obtain ⟨c, ticket, limit, alarm, hmover, rfl, hq, hk, hd⟩ := replied_eq hr
  have hread : ((plan.read p).map .text).mapError .session = plan.answer payload.data := by
    unfold Plan.read Plan.answer
    rw [hdec]
    dsimp only
    cases plan.result.toText payload.data <;> rfl
  obtain ⟨hcall, ⟨hstep, -⟩ | ⟨move, hm, hl⟩⟩ := Moment.mover_acts hmover
  · rw [pointStep, hq] at hstep
    dsimp only [waitStep] at hstep
    rw [hd] at hstep
    cases hstep
  · rw [Moment.news_eq hl.history, hm.answer hq hk hd, hread]
    rfl

/-- A command of a session succeeds only as it takes up its reply. -/
theorem Commanded.only {h : Host} (hc : h.Commanded as) {m : Moment} (hm : m.host = h.run as) {c : Call} {plan : Plan}
    (hmover : m.mover = some c) (hp : c.point.command? = some plan) {n : Note} (hn : n ∈ m.news) {reply : Reply}
    (ha : n.what = .answered (.ok reply)) : ∃ p, m.replied = some (c.id, plan, p) := by
  obtain ⟨hcall, ⟨-, he⟩ | ⟨move, hmove, hl⟩⟩ := Moment.mover_acts hmover
  · have hnews : m.news = [] := Moment.news_eq (by rw [he, List.nil_append])
    rw [hnews] at hn
    cases hn
  · rw [Moment.news_eq hl.history] at hn
    obtain ⟨x, hx, rfl⟩ := List.mem_map.mp hn
    obtain rfl : x = .answered (.ok reply) := ha
    obtain ⟨ticket, limit, alarm, p, hq, hd⟩ := hmove.succeeds (hc.separate.regular c (hm ▸ hcall)) hp hx
    refine ⟨p, ?_⟩
    rw [Moment.replied, hmover, Option.bind_some, hq]
    dsimp only
    rw [(Point.command?_eq_some.mp hp).2, hd]

/-- **Every command gets its own reply**, in every run of a session in which the device answers the requests of commands
in turn and no command times out or is dropped while its request is outstanding: requests go out one at a time, in the
order in which their calls got the lock, and the replies are matched in that order. -/
theorem commands_paired (config : SessionConfig) (twin : Twin) (as : List Action)
    (hc : (ofSession config twin).Cooperative as) : (ofSession config twin).Paired as := by
  have hcommanded := hc.commanded
  have hmatched : ∀ bs, bs <+: as → ((ofSession config twin).book bs).matched <+: (ofSession config twin).replies bs :=
    fun bs hb => (hc.of_mono hb).commanded.lane.matched.trans
      ((List.prefix_append _ _).trans (sorted_replies config twin bs (m := ⟨_, .observe⟩) rfl))
  constructor
  case own =>
    intro m hm id plan p hr
    obtain ⟨bs, hb, hh⟩ := exists_of_mem_moments hm
    have hb := (List.prefix_append bs _).trans hb
    obtain ⟨k, hsent, hreply⟩ := (hc.of_mono hb).commanded.replied hh hr
    have hsent : ((ofSession config twin).sentIn as)[k]? = some (id, plan) :=
      getElem?_mono ((moments_mono _ hb).filterMap _) hsent
    have hreply := getElem?_mono ((hmatched bs hb).trans (replies_mono _ hb)) hreply
    obtain ⟨x, payload, hx, hrequest, hdec, hname⟩ := hcommanded.named hc hreply
    obtain rfl : (id, plan) = x := Option.some.inj (hsent.symm.trans hx)
    exact ⟨k, hsent, hrequest, hreply, payload, hdec, hname, news_replied hr hdec⟩
  case only =>
    intro m hm c plan hmover hp n hn reply ha
    obtain ⟨bs, hb, hh⟩ := exists_of_mem_moments hm
    exact (hc.of_mono ((List.prefix_append bs _).trans hb)).commanded.only hh hmover hp hn ha
  case invoked =>
    intro x hx
    obtain ⟨hx, hk⟩ := hcommanded.plans x hx
    obtain ⟨m, hm, hp⟩ := List.mem_filterMap.mp hx
    exact ⟨m, hm, Moment.planned_invokes hp hk⟩
  case wire => exact hcommanded.wired.requests
  case order => exact ⟨hcommanded.lane.order, hcommanded.lane.once⟩
  case turns => exact fun bs hb => ⟨(hc.of_mono hb).commanded.lane.paced, hmatched bs hb⟩

/-- The same command is invoked twice, directly and by the twin. The second call gets the lock first, and the device
answers each request as it comes. -/
def invokedTwice : List Action :=
  let call := fun id => Action.advance (.call id) false
  let loop := Action.advance .loop false
  let device := fun p : Packet => Action.receive (Frame.encode p.toBytes)
  let reply := fun text : Bytes => device (.ofKind .commandResponse ([0, 1, 98] ++ text))
  [.make .start, call 0, call 0, loop, loop, loop, call 0,
    device (.bare .resetResponse), loop, loop, loop, call 0, call 0, loop, loop, loop, call 0,
    device (.ofKind .descriptorResponse [1, 0, 5, 1, 0, 97, 1, 1, 98, 0, 0, 0, 0, 7, 0]), loop, loop, loop,
    call 0, call 0, call 0, call 0, call 0, call 0,
    .make (.operate (.invoke "b" "")), .make (.twinOperate (.invoke "b" "")),
    call 2, call 1, call 2, call 1, call 2, loop, loop, loop, call 2, reply [49], loop, loop, loop, call 2,
    call 1, call 1, loop, loop, loop, call 1, reply [50], loop, loop, loop, call 1]

theorem commands_paired_invokedTwice :
    let h := ofSession {} (.scripted [] 0 0)
    h.Cooperative invokedTwice ∧ h.Paired invokedTwice ∧
      (h.sentIn invokedTwice).map (·.1) = [2, 1] ∧
      ((h.moments invokedTwice).filterMap Moment.replied).map (fun x => (x.1, x.2.2.payload)) =
        [(2, [0, 1, 98, 49]), (1, [0, 1, 98, 50])] := by
  intro h
  have hturn : ∀ bs ∈ invokedTwice.inits, (h.replies bs).map Packet.name? <+: (h.requests bs).map Packet.name? := by
    decide +kernel
  have hc : h.Cooperative invokedTwice :=
    ⟨by decide +kernel, fun bs hb => hturn bs ((List.mem_inits bs _).mpr hb), by decide +kernel, by decide +kernel⟩
  exact ⟨hc, commands_paired _ _ _ hc, by decide +kernel, by decide +kernel⟩

end Host
end TwinLink
