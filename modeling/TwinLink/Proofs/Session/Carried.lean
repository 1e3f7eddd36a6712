import TwinLink.Proofs.Session.Operations

/-!
# What requests carry

The request of an operation carries what its caller has asked: the field by its name and the place of its interface, and
the bytes of the value. The device finds that in the bytes written for it, and nothing else, as long as the length of the
packet can be spelled in its header. Nothing checks that it can: a longer packet is written with a length that is not its
own.

* `Operation.Asks` : what an operation asks of a device; `Operation.request_iff` : and the request that it is planned with;
* `NamedPayload.packetLength` : the length of the packet that carries a payload;
* `Decoder.Carries` : the bytes are one frame, and the packet in it carries a payload; `Decoder.carries_iff`;
* `Host.AtRest`, `Host.AtRest.writes` : a session with nothing under way writes what it is asked for at once;
* `Host.request_carried_iff` : what is written for operations, in every run.
-/

namespace TwinLink
open Decoder (frameOf)

variable {d : Descriptor} {op : Operation} {plan : Plan} {kind : PacketKind} {named : NamedPayload} {request : Packet}
  {h : Host} {id : Nat}

/-! ## Lengths -/

/-- Characters that are written as one byte. -/
theorem Text.utf8_replicate {c : Char} {b : UInt8} (hc : [c].utf8Encode.data.toList = [b]) (n : Nat) :
    Text.utf8 (String.ofList (List.replicate n c)) = List.replicate n b := by
  rw [Text.utf8, String.toByteArray_ofList]
  induction n with
  | zero => rfl
  | succ n ih =>
    rw [List.replicate_succ, List.utf8Encode_cons, ByteArray.data_append, Array.toList_append, hc, ih]
    rfl

namespace NamedPayload

/-- The length of the packet that carries the payload. -/
def packetLength (p : NamedPayload) : Nat := Frame.headerSize + 2 + (Text.utf8 p.name).length + p.data.length

theorem length_of_decode {bytes : Bytes} {p : NamedPayload} (hd : decode bytes = .ok p) :
    Frame.headerSize + bytes.length = p.packetLength := by
  obtain ⟨-, rfl⟩ := encode_eq_ok_iff.mp (decode_eq_ok_iff.mp hd)
  simp only [packetLength, List.length_cons, List.length_append]
  omega

theorem totalLength_toPacket (hr : named.toPacket kind = .ok request) : request.totalLength = named.packetLength :=
  length_of_decode (decode_toPacket hr)

end NamedPayload

/-! ## What operations ask -/

/-- What an operation asks of a device: the type of its request and the payload that the request is to carry. The field is
the first of its name, and the value is what the type of the field makes of the text. -/
inductive Operation.Asks (d : Descriptor) : Operation → PacketKind → NamedPayload → Prop
  | invoke {name input : String} {found : Located Command} {data : Bytes} (hf : d.command? name = some found)
      (hi : found.index < 256) (hd : found.definition.request.toBytes input = .ok data) :
      Asks d (.invoke name input) .commandRequest ⟨UInt8.ofNat found.index, name, data⟩
  | read {name : String} {found : Located Property} (hf : d.property? name = some found) (hi : found.index < 256) :
      Asks d (.read name) .propertyRequest ⟨UInt8.ofNat found.index, name, []⟩
  | write {name value : String} {found : Located Property} {data : Bytes} (hf : d.property? name = some found)
      (hw : found.definition.writeable) (hi : found.index < 256)
      (hd : found.definition.schema.toBytes value = .ok data) :
      Asks d (.write name value) .propertyRequest ⟨UInt8.ofNat found.index, name, data⟩

/-- An operation asks one thing of a device. -/
theorem Operation.Asks.unique {kind' : PacketKind} {named' : NamedPayload} (ha : op.Asks d kind named)
    (ha' : op.Asks d kind' named') : kind' = kind ∧ named' = named := by
  cases ha with
  | invoke hf _ hd =>
    cases ha' with
    | invoke hf' _ hd' =>
      obtain rfl := Option.some.inj (hf.symm.trans hf')
      obtain rfl := Except.ok.inj (hd.symm.trans hd')
      exact ⟨rfl, rfl⟩
  | read hf =>
    cases ha' with
    | read hf' =>
      obtain rfl := Option.some.inj (hf.symm.trans hf')
      exact ⟨rfl, rfl⟩
  | write hf _ _ hd =>
    cases ha' with
    | write hf' _ _ hd' =>
      obtain rfl := Option.some.inj (hf.symm.trans hf')
      obtain rfl := Except.ok.inj (hd.symm.trans hd')
      exact ⟨rfl, rfl⟩

/-- **An operation is planned with the request that carries what it asks.** -/
theorem Operation.request_iff : (∃ plan, op.plan d = .ok plan ∧ plan.request = request) ↔
    ∃ kind named, op.Asks d kind named ∧ named.toPacket kind = .ok request := by
  constructor
  · rintro ⟨plan, hp, rfl⟩
    have hc := op.plan_cases d
    generalize op.plan d = planned at hp hc
    cases hc with
    | invoke hf =>
      obtain ⟨hi, bytes, request, hd, hr, rfl⟩ := Plan.make_eq_ok_iff.mp hp
      exact ⟨_, _, .invoke hf hi hd, hr⟩
    | read hf =>
      obtain ⟨hi, bytes, request, hd, hr, rfl⟩ := Plan.make_eq_ok_iff.mp hp
      cases hd
      exact ⟨_, _, .read hf hi, hr⟩
    | write hf hw =>
      obtain ⟨hi, bytes, request, hd, hr, rfl⟩ := Plan.make_eq_ok_iff.mp hp
      exact ⟨_, _, .write hf hw hi hd, hr⟩
    | _ => cases hp
  · rintro ⟨kind, named, ha, hr⟩
    cases ha with
    | @invoke name input found data hf hi hd =>
      refine ⟨⟨.command, found.interface.id, name, request, found.definition.response⟩, ?_, rfl⟩
      rw [Operation.plan, hf]
      exact Plan.make_eq_ok_iff.mpr ⟨hi, _, _, hd, hr, rfl⟩
    | @read name found hf hi =>
      refine ⟨⟨.read, found.interface.id, name, request, found.definition.schema⟩, ?_, rfl⟩
      rw [Operation.plan, hf]
      exact Plan.make_eq_ok_iff.mpr ⟨hi, _, _, rfl, hr, rfl⟩
    | @write name value found data hf hw hi hd =>
      refine ⟨⟨.write, found.interface.id, name, request, found.definition.schema⟩, ?_, rfl⟩
      rw [Operation.plan, hf]
      exact (if_pos hw).trans (Plan.make_eq_ok_iff.mpr ⟨hi, _, _, hd, hr, rfl⟩)

/-! ## Bytes that carry a payload -/

namespace Decoder

/-- A decoder for frames of any length finds one frame in the bytes and no error, and the packet in the frame is of the
kind and carries the payload. -/
def Carries (w : Bytes) (kind : PacketKind) (named : NamedPayload) : Prop :=
  ∃ d frame packet, (ofLimit Frame.maxLength).feedChunk w = (d, [frame], none) ∧ Packet.ofFrame frame = .ok packet ∧
    packet.type = kind.code ∧ NamedPayload.decode packet.payload = .ok named

/-- Of the frame of a request, as far as it is written, a decoder finds the request in it if all of it is written and its
length has room in two bytes, and not otherwise. -/
theorem carries_iff {w : Bytes} (hr : named.toPacket kind = .ok request) (hw : w <+: frameOf request) :
    Carries w kind named ↔ w = frameOf request ∧ named.packetLength ≤ Frame.maxLength := by
  have hlimit : (ofLimit Frame.maxLength).limit = Frame.maxLength := by decide
  have hlength := NamedPayload.totalLength_toPacket hr
  constructor
  · rintro ⟨d, frame, packet, hfeed, hpacket, -, hnamed⟩
    -- the frame found is within the limit, and of the length that the payload gives it
    have hfits : named.packetLength ≤ Frame.maxLength := calc
      named.packetLength = packet.totalLength := (NamedPayload.length_of_decode hnamed).symm
      _ = frame.length := Packet.totalLength_of_ofFrame hpacket
      _ ≤ Frame.maxLength := by
        rw [← hlimit]
        exact length_le_of_mem_feedChunk (by rw [hfeed]; exact List.mem_singleton.mpr rfl)
    refine ⟨?_, hfits⟩
    by_contra hne
    have hcut := feedChunk_cut (d := ofLimit Frame.maxLength) (by rwa [hlimit, hlength]) (Nat.le_of_eq hlimit) hw hne
    rw [hfeed] at hcut
    cases hcut
  · rintro ⟨rfl, hfits⟩
    have hfits : request.totalLength ≤ Frame.maxLength := by rwa [hlength]
    have hfeed := feedChunk_frameOf (d := ofLimit Frame.maxLength) (by rwa [hlimit]) (Nat.le_of_eq hlimit)
    refine ⟨_, _, request, hfeed, Packet.ofFrame_toBytes hfits, ?_, NamedPayload.decode_toPacket hr⟩
    obtain ⟨payload, -, rfl⟩ := NamedPayload.toPacket_eq_ok_iff.mp hr
    rfl

end Decoder

/-! ## A session at rest -/

namespace Host

theorem calls_wake (h : Host) (a : Actor) : (h.wake a).calls = h.calls := by unfold wake; split <;> rfl

theorem link_wake (h : Host) (a : Actor) : (h.wake a).link = h.link := by unfold wake; split <;> rfl

theorem session_wake (h : Host) (a : Actor) : (h.wake a).session = h.session := by unfold wake; split <;> rfl

theorem wire_wake (h : Host) (a : Actor) : (h.wake a).wire = h.wire := by unfold wake; split <;> rfl

/-- An operational session of which nothing is under way, on a link that takes whatever it is given. -/
structure AtRest (h : Host) (d : Descriptor) : Prop where
  phase : h.session.phase = .operational
  descriptor : h.session.descriptor = some d
  lock : ∀ kind, h.session.lock kind = {}
  calls : h.calls = []
  held : h.held
  loop : h.link.loop = .listening
  table : h.link.table.closed = none
  opened : h.link.commands.closed = false
  idle : h.link.commands.queue = [] ∧ h.link.commands.line = [] ∧ h.link.commands.granted = []
  capacity : 0 < h.link.commands.capacity
  room : h.wire.room = none
  sound : h.wire.writeFault = none

/-- The call is made, plans its operation, takes the lock, and puts its frame into the command queue. -/
def submits (id : Nat) (op : Operation) : List Action :=
  [.make (.operate op), .advance (.call id) false, .advance (.call id) false, .advance (.call id) false]

/-- The loop takes up a frame and writes it. -/
def delivers : List Action := [.advance .loop false, .advance .loop false]

theorem apply_alone {p : Point} (hc : h.calls = [⟨id, p, true⟩]) :
    h.apply (.advance (.call id) false) = (h.pointStep ⟨id, p, true⟩).getD h := by
  simp [apply, step, callStep, call?, hc]

theorem setPoint_alone {p q : Point} (hc : h.calls = [⟨id, p, true⟩]) :
    h.setPoint id q = { h with calls := [⟨id, q, true⟩] } := by
  simp [setPoint, hc]

/-- At rest the frame of the request is queued without delay, and nothing is written meanwhile. -/
theorem AtRest.queued (hr : h.AtRest d) (hp : op.plan d = .ok plan) :
    let h' := h.run (submits h.made op)
    h.writtenFor (submits h.made op) h.made = [] ∧ h'.link.loop = .listening ∧ h'.link.commands.line = [] ∧
      h'.link.commands.queue = [.write h.made (frameOf plan.request)] ∧ h'.wire = h.wire := by
  simp only [writtenFor, run, submits, moments, Moment.after, List.flatMap_cons, List.flatMap_nil, List.append_nil,
    List.foldl_cons, List.foldl_nil]
  generalize hid : h.made = id
  -- the call is made,
  obtain ⟨hcalls₁, hlink₁, hsession₁, hwire₁⟩ :
      (h.apply (.make (.operate op))).calls = [⟨id, .begun (.operate op), true⟩] ∧
      (h.apply (.make (.operate op))).link = h.link ∧ (h.apply (.make (.operate op))).session = h.session ∧
      (h.apply (.make (.operate op))).wire = h.wire := by
    simp [apply, make, canMake, hr.held, hr.calls, hid, calls_wake, link_wake, session_wake, wire_wake,
      Request.holdsAtOnce]
  generalize h.apply (.make (.operate op)) = h₁ at *
  -- it plans its operation,
  obtain ⟨hcalls₂, hlink₂, hsession₂, hwire₂⟩ :
      (h₁.apply (.advance (.call id) false)).calls = [⟨id, .inLine plan, true⟩] ∧
      (h₁.apply (.advance (.call id) false)).link = h.link ∧
      (h₁.apply (.advance (.call id) false)).session = h.session ∧
      (h₁.apply (.advance (.call id) false)).wire = h.wire := by
    simp [apply_alone hcalls₁, pointStep, beginCall, beginOperation, planOperation, hsession₁, hr.phase, hr.descriptor,
      hp, setPoint_alone hcalls₁, hlink₁, hwire₁]
  generalize h₁.apply (.advance (.call id) false) = h₂ at *
  -- it takes the lock,
  obtain ⟨ticket, limit, hcalls₃, hloop₃, hcommands₃, hwire₃⟩ : ∃ ticket limit,
      (h₂.apply (.advance (.call id) false)).calls =
        [⟨id, .entering (frameOf plan.request) ticket limit (.operation plan), true⟩] ∧
      (h₂.apply (.advance (.call id) false)).link.loop = .listening ∧
      (h₂.apply (.advance (.call id) false)).link.commands = h.link.commands ∧
      (h₂.apply (.advance (.call id) false)).wire = h.wire := by
    simp [apply_alone hcalls₂, pointStep, lockStep, hsession₂, hr.lock, Lock.acquire, register, WaitTable.register,
      hr.table, Except.map, hlink₂, setPoint, hcalls₂, frameOf, hr.loop, hwire₂]
  generalize h₂.apply (.advance (.call id) false) = h₃ at *
  -- and it finds room in the queue
  obtain ⟨hloop₄, hqueue₄, hline₄, hwire₄⟩ : (h₃.apply (.advance (.call id) false)).link.loop = .listening ∧
      (h₃.apply (.advance (.call id) false)).link.commands.queue = [.write id (frameOf plan.request)] ∧
      (h₃.apply (.advance (.call id) false)).link.commands.line = [] ∧
      (h₃.apply (.advance (.call id) false)).wire = h.wire := by
    simp [apply_alone hcalls₃, pointStep, enterStep, Channel.offer, Channel.hasRoom, Channel.taken, hcommands₃,
      hr.opened, hr.idle, hr.capacity, link_wake, wire_wake, setPoint, hloop₃, hwire₃]
  refine ⟨?_, hloop₄, hline₄, hqueue₄, hwire₄⟩
  rw [writesFor_quiet (by rw [hwire₁]), writesFor_quiet (by rw [hwire₁, hwire₂]), writesFor_quiet (by rw [hwire₂, hwire₃]),
    writesFor_quiet (by rw [hwire₃, hwire₄])]
  rfl

/-- The loop writes a frame at the head of its queue in one go. -/
theorem writtenFor_delivers {p : Packet} {rest : List LinkCommand} (hloop : h.link.loop = .listening)
    (hqueue : h.link.commands.queue = .write id (frameOf p) :: rest) (hline : h.link.commands.line = [])
    (hroom : h.wire.room = none) (hsound : h.wire.writeFault = none) :
    h.writtenFor delivers id = frameOf p := by
  simp only [writtenFor, delivers, moments, Moment.after, List.flatMap_cons, List.flatMap_nil, List.append_nil]
  obtain ⟨hloop₁, hwire₁⟩ : (h.apply (.advance .loop false)).link.loop = .writing id (frameOf p) ∧
      (h.apply (.advance .loop false)).wire = h.wire := by
    simp [apply, step, loopStep, hloop, obeyCommand, Channel.take?, Channel.grant, hqueue, hline, wake?, setLoop]
  generalize h.apply (.advance .loop false) = h₁ at *
  have hne : frameOf p ≠ [] := List.cons_ne_nil _ _
  have hwire₂ : (h₁.apply (.advance .loop false)).wire.outbound = h.wire.outbound ++ frameOf p := by
    simp [apply, step, loopStep, hloop₁, writeFrame, hwire₁, hsound, hroom, setLoop, hne]
  rw [writesFor_quiet (by rw [hwire₁]), writesFor, hloop₁]
  simp [hwire₂, hwire₁]

/-- **A session at rest writes what it is asked for at once.** -/
theorem AtRest.writes (hr : h.AtRest d) (hp : op.plan d = .ok plan) :
    h.writtenFor (submits h.made op ++ delivers) h.made = frameOf plan.request := by
  obtain ⟨hnothing, hloop, hline, hqueue, hwire⟩ := hr.queued hp
  rw [writtenFor_append, hnothing, List.nil_append]
  exact writtenFor_delivers hloop hqueue hline (hwire ▸ hr.room) (hwire ▸ hr.sound)

/-! ## What is written for operations -/

/-- **What is written for an operation carries what it asks** of the device that the session knows, if all of its frame is
written and the packet is not too long for the two bytes of its length; otherwise it does not. A longer packet is written
all the same. -/
theorem request_carried_iff (config : SessionConfig) (twin : Twin) (as : List Action) (id : Nat) (op : Operation)
    (ha : (id, op) ∈ (ofSession config twin).asked as) (hw : (ofSession config twin).writtenFor as id ≠ []) :
    ∃ d kind named request, ((ofSession config twin).run as).session.descriptor = some d ∧ op.Asks d kind named ∧
      named.toPacket kind = .ok request ∧ (ofSession config twin).writtenFor as id <+: frameOf request ∧
      ((∃ s ∈ ((ofSession config twin).outbox as).written, s.caller = id) →
        (ofSession config twin).writtenFor as id = frameOf request) ∧
      (Decoder.Carries ((ofSession config twin).writtenFor as id) kind named ↔
        (ofSession config twin).writtenFor as id = frameOf request ∧ named.packetLength ≤ Frame.maxLength) := by
  rcases (serving_run config twin as ha).sent with hnone | ⟨plan, s, hsent⟩
  · exact absurd ((Setup.session config twin).writtenFor_nil hnone) hw
  obtain ⟨⟨-, d, hd, hplan⟩, hsends, hpacket⟩ := hsent
  obtain ⟨kind, named, hasks, hr⟩ := Operation.request_iff.mp ⟨plan, hplan, rfl⟩
  have hframe : s.frame = frameOf plan.request := congrArg frameOf hpacket
  have hone := (Setup.session config twin).writtenFor_one hsends
  rw [hframe] at hone
  have hprefix : (ofSession config twin).writtenFor as id <+: frameOf plan.request := by
    rcases hone with ⟨-, he⟩ | ⟨-, hp⟩
    · exact he ▸ List.prefix_rfl
    · exact hp
  refine ⟨d, kind, named, plan.request, hd, hasks, hr, hprefix, ?_, Decoder.carries_iff hr hprefix⟩
  rintro ⟨s', hs', hid⟩
  rcases hone with ⟨-, he⟩ | ⟨hno, -⟩
  · exact he
  · have htaken := ((Setup.session config twin).written_inOrder as).1.subset hs'
    exact absurd ((Setup.session config twin).eq_of_taken hsends htaken hid ▸ hs') hno

/-- A device with one interface, and in it a command that takes a text and gives nothing back. -/
def textCommand : Descriptor := ⟨1, "", [⟨"a", [], [⟨⟨"b", "", ""⟩, .string, .invalid⟩], []⟩]⟩

/-- A session with this device, up to the moment when it is operational. -/
def textSession : List Action := startedWith [1, 0, 5, 1, 0, 97, 1, 1, 98, 0, 0, 7, 0, 0, 0]

theorem textSession_atRest : ((ofSession {} (.scripted [] 0 0)).run textSession).AtRest textCommand where
  phase := by decide +kernel
  descriptor := by decide +kernel
  lock kind := by cases kind <;> decide +kernel
  calls := List.length_eq_zero_iff.mp (by decide +kernel)
  held := by decide +kernel
  loop := by decide +kernel
  table := by decide +kernel
  opened := by decide +kernel
  idle := ⟨List.length_eq_zero_iff.mp (by decide +kernel), by decide +kernel, by decide +kernel⟩
  capacity := by decide +kernel
  room := by decide +kernel
  sound := by decide +kernel

theorem textCommand_asks (text : String) :
    (Operation.invoke "b" text).Asks textCommand .commandRequest ⟨0, "b", Text.utf8 text⟩ := by
  have hf : textCommand.command? "b" =
      some ⟨0, ⟨"a", [], [⟨⟨"b", "", ""⟩, .string, .invalid⟩], []⟩, ⟨⟨"b", "", ""⟩, .string, .invalid⟩⟩ := by decide
  exact .invoke hf (by decide) rfl

/-- The command is invoked, and nothing else happens until its request is written. -/
def textInvoked (text : String) : List Action := textSession ++ (submits 1 (.invoke "b" text) ++ delivers)

theorem textInvoked_written (text : String) :
    (1, .invoke "b" text) ∈ (ofSession {} (.scripted [] 0 0)).asked (textInvoked text) ∧
    (ofSession {} (.scripted [] 0 0)).writtenFor (textInvoked text) 1 =
      frameOf (.ofKind .commandRequest (0 :: 1 :: 98 :: Text.utf8 text)) := by
  have hmade : ((ofSession {} (.scripted [] 0 0)).run textSession).made = 1 := by decide +kernel
  have hbefore : (ofSession {} (.scripted [] 0 0)).writtenFor textSession 1 = [] := by decide +kernel
  have hrest := textSession_atRest
  rw [textInvoked, asked_append, writtenFor_append, hbefore, List.nil_append]
  generalize (ofSession {} (.scripted [] 0 0)).run textSession = h at *
  obtain ⟨plan, hplan, hrequest⟩ := Operation.request_iff.mpr ⟨_, _, textCommand_asks text,
    NamedPayload.toPacket_eq_ok_iff.mpr ⟨0 :: 1 :: 98 :: Text.utf8 text, rfl, rfl⟩⟩
  have hwrites := hrest.writes hplan
  rw [hmade, hrequest] at hwrites
  refine ⟨List.mem_append_right _ ?_, hwrites⟩
  simp [asked, submits, moments, Moment.asks, canMake, hrest.held, Request.operation?, hmade]

theorem request_carried_iff_shortText :
    let h := ofSession {} (.scripted [] 0 0)
    (1, .invoke "b" "x") ∈ h.asked (textInvoked "x") ∧ h.writtenFor (textInvoked "x") 1 ≠ [] ∧
      Decoder.Carries (h.writtenFor (textInvoked "x") 1) .commandRequest ⟨0, "b", [120]⟩ := by
  intro h
  obtain ⟨hasked, hwritten⟩ := textInvoked_written "x"
  have hne : h.writtenFor (textInvoked "x") 1 ≠ [] := by
    rw [hwritten]
    exact List.cons_ne_nil _ _
  refine ⟨hasked, hne, ?_⟩
  obtain ⟨d, kind, named, request, hd, hasks, hr, -, -, hiff⟩ :=
    request_carried_iff {} (.scripted [] 0 0) (textInvoked "x") 1 (.invoke "b" "x") hasked hne
  have hdevice : ((ofSession {} (.scripted [] 0 0)).run (textInvoked "x")).session.descriptor = some textCommand := by
    decide +kernel
  rw [hdevice] at hd
  cases hd
  obtain ⟨rfl, rfl⟩ := (textCommand_asks "x").unique hasks
  cases hr
  exact hiff.mpr ⟨hwritten, by decide⟩

/-- A text of 65529 characters makes a packet of one byte more than its length can tell. Its request is written, and
carries nothing. -/
theorem longText_uncarried :
    let text := String.ofList (List.replicate 65529 'x')
    let op := Operation.invoke "b" text
    let h := ofSession {} (.scripted [] 0 0)
    (h.run textSession).AtRest textCommand ∧ (1, op) ∈ h.asked (textInvoked text) ∧
      op.Asks textCommand .commandRequest ⟨0, "b", Text.utf8 text⟩ ∧
      h.writtenFor (textInvoked text) 1 = frameOf (.ofKind .commandRequest (0 :: 1 :: 98 :: Text.utf8 text)) ∧
      ¬Decoder.Carries (h.writtenFor (textInvoked text) 1) .commandRequest ⟨0, "b", Text.utf8 text⟩ := by
  intro text op h
  obtain ⟨hasked, hwritten⟩ := textInvoked_written text
  refine ⟨textSession_atRest, hasked, textCommand_asks text, hwritten, ?_⟩
  have hlength : (Text.utf8 text).length = 65529 := by
    rw [Text.utf8_replicate (b := 120) (by decide), List.length_replicate]
  generalize Text.utf8 text = data at hwritten hlength ⊢
  have hr : NamedPayload.toPacket ⟨0, "b", data⟩ .commandRequest =
      .ok (.ofKind .commandRequest (0 :: 1 :: 98 :: data)) := rfl
  rw [hwritten, Decoder.carries_iff hr List.prefix_rfl]
  rintro ⟨-, hfits⟩
  have hname : (Text.utf8 "b").length = 1 := by decide
  simp only [NamedPayload.packetLength, hname, hlength, Frame.headerSize, Frame.maxLength] at hfits
  omega

end Host

end TwinLink
