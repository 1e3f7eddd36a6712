import TwinLink.Proofs.Session.Carried

/-!
# Operations and frame errors

An operation could fail with a frame error at two places: where its request is packed, if one byte cannot count the name,
and where its reply is unpacked. Neither happens. The device spelled the names of its fields with a byte for their length
itself, so a name that is found in its descriptor can be packed again. And the link has unpacked every reply before, as it
matched the reply with the operation.

* `Operation.framed_iff`, `Plan.read_framed_iff` : when a frame error comes of an operation, for any device and any reply;
* `Descriptor.Packable` : whatever is asked of a device can be packed; `Descriptor.Spelled.packable` : if it was parsed;
* `Host.Framed` : requests, replies and errors of a session; `Host.operations_framed` : in every run.
-/

namespace TwinLink

variable {d : Descriptor} {op : Operation} {plan : Plan} {p : Packet} {kind : PacketKind} {named : NamedPayload}
  {e : FrameError}

/-! ## Requests -/

/-- The name of the field that an operation is about. -/
def Operation.name : Operation → String
  | invoke name _ => name
  | read name => name
  | write name _ => name

/-- A plan is made for the name that was asked for. -/
theorem Operation.plan_name (h : op.plan d = .ok plan) : plan.name = op.name := by
  have hc := op.plan_cases d
  generalize op.plan d = planned at h hc
  cases hc with
  | invoke | read | write =>
    obtain ⟨-, bytes, request, -, -, rfl⟩ := Plan.make_eq_ok_iff.mp h
    rfl
  | _ => cases h

theorem Plan.make_framed_iff {α : Type} {kind : OperationKind} {name : String} {found : Located α}
    {data : Except SchemaError Bytes} {result : Schema} :
    make kind name found data result = .error (.link (.frame e)) ↔ found.index < 256 ∧ ∃ bytes, data = .ok bytes ∧
      NamedPayload.toPacket ⟨UInt8.ofNat found.index, name, bytes⟩ kind.request = .error e := by
  unfold make
  split
  · cases data with
    | error e => simp [*]
    | ok bytes =>
      cases he : NamedPayload.toPacket ⟨UInt8.ofNat found.index, name, bytes⟩ kind.request <;> simp [*]
  · simp [*]

/-- **Planning fails with a frame error exactly if what the operation asks cannot be packed.** -/
theorem Operation.framed_iff : op.plan d = .error (.link (.frame e)) ↔
    ∃ kind named, op.Asks d kind named ∧ named.toPacket kind = .error e := by
  constructor
  · intro h
    have hc := op.plan_cases d
    generalize op.plan d = planned at h hc
    cases hc with
    | invoke hf =>
      obtain ⟨hi, bytes, hd, he⟩ := Plan.make_framed_iff.mp h
      exact ⟨_, _, .invoke hf hi hd, he⟩
    | read hf =>
      obtain ⟨hi, bytes, hd, he⟩ := Plan.make_framed_iff.mp h
      cases hd
      exact ⟨_, _, .read hf hi, he⟩
    | write hf hw =>
      obtain ⟨hi, bytes, hd, he⟩ := Plan.make_framed_iff.mp h
      exact ⟨_, _, .write hf hw hi hd, he⟩
    | _ => cases h
  · rintro ⟨kind, named, ha, he⟩
    cases ha with
    | invoke hf hi hd =>
      rw [Operation.plan, hf]
      exact Plan.make_framed_iff.mpr ⟨hi, _, hd, he⟩
    | read hf hi =>
      rw [Operation.plan, hf]
      exact Plan.make_framed_iff.mpr ⟨hi, _, rfl, he⟩
    | write hf hw hi hd =>
      rw [Operation.plan, hf]
      exact (if_pos hw).trans (Plan.make_framed_iff.mpr ⟨hi, _, hd, he⟩)

/-- A property of a name that no device can spell is planned with a frame error. -/
example : (Operation.read (String.ofList (List.replicate 256 'a'))).plan ⟨1, "", [⟨"b",
    [⟨⟨String.ofList (List.replicate 256 'a'), "", ""⟩, "", true, true, .string⟩], [], []⟩]⟩ =
      .error (.link (.frame (.nameTooLong 256))) := by decide +kernel

/-- Whatever is asked of the device fits the frames: the names of its commands and properties have room behind one byte for
their length, so every request is a packet. -/
structure Descriptor.Packable (d : Descriptor) : Prop where
  commands : ∀ name found, d.command? name = some found → (Text.utf8 name).length ≤ 255
  properties : ∀ name found, d.property? name = some found → (Text.utf8 name).length ≤ 255
  requests : ∀ op kind named, Operation.Asks d op kind named → ∃ request, named.toPacket kind = .ok request

/-- **A device that has described itself is asked nothing that cannot be packed.** -/
theorem Descriptor.Spelled.packable {r : Revision} {bs : Bytes} (hd : d.Spelled r bs) : d.Packable := by
  refine ⟨fun name found hf => Nat.le_of_lt_succ (hd.short_of_command hf),
    fun name found hf => Nat.le_of_lt_succ (hd.short_of_property hf), fun op kind named ha => ?_⟩
  have hshort : (Text.utf8 named.name).length < 256 := by
    cases ha with
    | invoke hf => exact hd.short_of_command hf
    | read hf | write hf => exact hd.short_of_property hf
  exact ⟨_, NamedPayload.toPacket_eq_ok_iff.mpr ⟨_, NamedPayload.encode_eq_ok_iff.mpr ⟨hshort, rfl⟩, rfl⟩⟩

theorem Descriptor.Packable.plan_ne (hd : d.Packable) : op.plan d ≠ .error (.link (.frame e)) := by
  intro h
  obtain ⟨kind, named, ha, he⟩ := Operation.framed_iff.mp h
  obtain ⟨request, hr⟩ := hd.requests op kind named ha
  cases hr.symm.trans he

/-! ## Replies -/

/-- Reading a reply fails with a frame error exactly if it cannot be unpacked. -/
theorem Plan.read_framed_iff : plan.read p = .error (.link (.frame e)) ↔ NamedPayload.decode p.payload = .error e := by
  unfold read
  cases NamedPayload.decode p.payload with
  | error e' => simp
  | ok payload => cases ht : plan.result.toText payload.data <;> simp [Except.mapError, ht]

/-! ## Sessions -/

/-- Requests, replies and errors of a session after the actions `as`. -/
structure Host.Framed (start : Host) (revision : Revision) (as : List Action) : Prop where
  /-- No call of the session comes back with a frame error. -/
  unframed : ∀ a id e, ¬(Moment.mk (start.run as) a).Answers id (.error (.session (.link (.frame e))))
  /-- Names that are found in a parsed descriptor can be packed, -/
  parsed : ∀ bytes d, Descriptor.parse revision bytes = .ok d → d.Packable
  /-- and the device that the session knows was parsed. -/
  known : ∀ d, (start.run as).session.descriptor = some d → ∃ bytes, Descriptor.parse revision bytes = .ok d
  /-- What the link matches by a name can be unpacked and has the name: -/
  matched : ∀ name p, (Matcher.named name).accepts p ↔
    ∃ payload, NamedPayload.decode p.payload = .ok payload ∧ payload.name = name
  /-- the reply that an operation finds has the name that was asked for, and is read up to its value. -/
  replied : ∀ id op, (id, op) ∈ start.asked as → ∀ c ∈ (start.run as).calls, c.id = id →
    ∀ ticket limit alarm plan p, c.point = .awaiting ticket limit alarm (.operation plan) →
      (start.run as).link.delivery? ticket.id = some (.ok p) →
        ∃ payload, NamedPayload.decode p.payload = .ok payload ∧ payload.name = op.name ∧
          plan.read p = (plan.result.toText payload.data).mapError .schema

namespace Host

variable {config : SessionConfig} {twin : Twin} {as : List Action}

/-- The reply that an operation finds has the name of its plan. -/
theorem answers_of_delivery {c : Call} {ticket : Ticket} {limit : Option Nat} {alarm : Option Alarm}
    (hc : c ∈ ((ofSession config twin).run as).calls) (hp : c.point = .awaiting ticket limit alarm (.operation plan))
    (hd : ((ofSession config twin).run as).link.delivery? ticket.id = some (.ok p)) : p.Answers plan := by
  obtain ⟨w, -, -, hwaiter, haccepts⟩ := (registered_run config twin as).delivered
    ((Setup.session config twin).kept_run as) hc hp nofun hd
  cases hwaiter
  exact Plan.waiter_accepts.mp haccepts

/-- **No frame error comes out of an operation,** in every run of a session with any device and any twin, whatever is asked
for and whatever the device sends. -/
theorem operations_framed (config : SessionConfig) (twin : Twin) (as : List Action) :
    (ofSession config twin).Framed config.revision as where
  unframed a id e ha := by
    obtain ⟨c, m, -, rfl, hc, hm, -, hf⟩ := Moment.answers_move ((Setup.session config twin).claimed_run _) ha
    cases hm.sessionFailure hc hf ((Setup.session config twin).candid_run as) with
    | refused op hp =>
      cases declines hp with
      | unplanned d hph hd hplan =>
        obtain ⟨bytes, hspelled⟩ := descriptor_run config twin as d hd
        exact hspelled.packable.plan_ne hplan
    | link le hle =>
      rcases hle with he | hb
      · cases he
      · exact hb.ne_frame e rfl
    | unreadable ticket limit alarm plan p hpt hd hr =>
      obtain ⟨payload, hp, -⟩ := Plan.read_of_answers (answers_of_delivery hc hpt hd)
      cases hp.symm.trans (Plan.read_framed_iff.mp hr)
    | shut hpt =>
      cases failed_of_shutting hc hpt with
      | link le hb => exact hb.ne_frame e rfl
  parsed bytes d hd := (Descriptor.spelled_of_parse hd).packable
  known d hd := by
    obtain ⟨bytes, hspelled⟩ := descriptor_run config twin as d hd
    exact ⟨bytes, hspelled.parse⟩
  matched name p := Matcher.accepts_named.trans Packet.name?_eq_some
  replied id op ha c hc hid ticket limit alarm plan p hp hd := by
    obtain ⟨payload, hdecode, hname, hread⟩ := Plan.read_of_answers (answers_of_delivery hc hp hd)
    refine ⟨payload, hdecode, ?_, hread⟩
    have hserves := (serving_run config twin as ha).stands c hc hid
    rw [hp] at hserves
    cases hserves with
    | awaiting hs =>
      obtain ⟨d, -, hplan⟩ := hs.planned.plan
      exact hname.trans (Operation.plan_name hplan)

/-- A command is invoked. The device sends a payload that is too short for its name, and then the reply. -/
def invokedAndGarbled : List Action :=
  let call := Action.advance (.call 1) false
  let loop := Action.advance .loop false
  let device := fun payload => Action.receive (Frame.encode (Packet.ofKind .commandResponse payload).toBytes)
  startedWith [1, 0, 5, 1, 0, 97, 1, 1, 98, 0, 0, 0, 0, 7, 0] ++
    [.make (.operate (.invoke "b" "")), call, call, call, loop, loop, loop, call, device [0, 5, 98],
      device [0, 1, 98, 49], loop, loop, loop, loop, loop, call]

/-- The command comes back with the reply. -/
example : (((ofSession {} (.scripted [] 0 0)).moments invokedAndGarbled).filterMap Moment.replied).map
    (fun x => (x.2.1.name, x.2.2.payload)) = [("b", [0, 1, 98, 49])] := by decide +kernel

end Host
end TwinLink
