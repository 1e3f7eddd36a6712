import TwinLink.Proofs.Schema.Conversions
import TwinLink.Proofs.Session.Carried

/-!
# Writes and reads of properties

A write and a read of a property ask with the same type of packet, and only the value behind the name tells the device
which it is. A value of no bytes makes the write a read: that is the value of a property of no type, and the empty text.

* `Schema.toBytes_eq_nil_iff` : the values that have no bytes;
* `Located.request` : the request for a property that was found; `Located.toPacket_request` : it has room for the name;
* `Host.packet_of_asked` : what the calls of operations send, in every run;
* `Located.WrittenAndRead`, `Operation.write_asRead_iff` : how a property is written and read, and when that is the same.
-/

namespace TwinLink

variable {d : Descriptor} {op : Operation} {name value : String} {found : Located Property} {data : Bytes}

/-! ## Values -/

namespace Schema

/-- A text has no bytes if there is nothing in it, or if it is to be a value of no type. -/
theorem toBytes_eq_nil_iff {s : Schema} {text : String} (hv : s.toBytes text = .ok data) :
    data = [] ↔ s = .invalid ∨ s = .string ∧ text = "" := by
  have hv := toBytes_eq_ok_iff.mp hv
  cases hw : s.width? with
  | some w =>
    rw [← List.length_eq_zero_iff, length_of_bytesOf? hw hv]
    cases s <;> cases hw <;> simp
  | none =>
    cases s <;> cases hw
    obtain rfl := Option.some.inj hv
    have hempty : Text.utf8 text = [] ↔ text = "" := ⟨fun h => Text.utf8_injective h, fun h => by rw [h]; rfl⟩
    simpa using hempty

end Schema

/-! ## Requests for properties -/

/-- The request for a property that was found by its name, with the bytes of a value behind the name. -/
def Located.request (found : Located Property) (name : String) (data : Bytes) : Packet :=
  .ofKind .propertyRequest (UInt8.ofNat found.index :: UInt8.ofNat (Text.utf8 name).length :: (Text.utf8 name ++ data))

theorem Located.request_eq_iff : found.request name data = found.request name [] ↔ data = [] := by
  simp [request, Packet.ofKind]

/-- The name that a device gave a property has room in a request, so that a request carries whatever the value is. -/
theorem Located.toPacket_request {r : Revision} {bytes : Bytes} (hd : Descriptor.parse r bytes = .ok d)
    (hf : d.property? name = some found) (data : Bytes) :
    NamedPayload.toPacket ⟨UInt8.ofNat found.index, name, data⟩ .propertyRequest = .ok (found.request name data) :=
  NamedPayload.toPacket_eq_ok_iff.mpr
    ⟨_, if_pos ((Descriptor.spelled_of_parse hd).short_of_property hf), rfl⟩

/-- A plan needs room for the index of the interface. -/
theorem Plan.make_outOfRange {α : Type} {kind : OperationKind} {found : Located α} {data : Except SchemaError Bytes}
    {result : Schema} (hi : 256 ≤ found.index) :
    make kind name found data result = .error (.indexOutOfRange found.index) := if_neg (Nat.not_lt.mpr hi)

/-- What the call of an operation sends is planned by what the session knows of its device. -/
theorem Host.packet_of_asked {config : SessionConfig} {twin : Twin} {as : List Action} {id : Nat} {s : Send}
    (ha : (id, op) ∈ (ofSession config twin).asked as) (hs : s ∈ ((ofSession config twin).outbox as).sendsOf id)
    (hd : ((ofSession config twin).run as).session.descriptor = some d) :
    ∃ plan, op.plan d = .ok plan ∧ s.packet = plan.request := by
  rcases (serving_run config twin as ha).sent with hnone | ⟨plan, s', ⟨-, d', hd', hplan⟩, hsends, hpacket⟩
  · rw [hnone] at hs
    cases hs
  · rw [hsends, List.mem_singleton] at hs
    obtain rfl := Option.some.inj (hd.symm.trans hd')
    exact ⟨plan, hplan, hs ▸ hpacket⟩

/-- How a write and a read of the property that was found by its name ask a device for it, `data` being the bytes of the
value that is written. -/
structure Located.WrittenAndRead (found : Located Property) (d : Descriptor) (name value : String) (data : Bytes) :
    Prop where
  /-- Each has its request, -/
  planned : found.index < 256 →
    (∃ plan, (Operation.write name value).plan d = .ok plan ∧ plan.request = found.request name data) ∧
      ∃ plan, (Operation.read name).plan d = .ok plan ∧ plan.request = found.request name []
  /-- unless the index of the interface has no room in it. -/
  refused : 256 ≤ found.index → (Operation.write name value).plan d = .error (.indexOutOfRange found.index) ∧
    (Operation.read name).plan d = .error (.indexOutOfRange found.index)
  /-- In every session that knows the device so, the calls of writes and reads send these requests. -/
  sent : ∀ (config : SessionConfig) (twin : Twin) (as : List Action) (id : Nat) (s : Send),
    ((Host.ofSession config twin).run as).session.descriptor = some d →
    s ∈ ((Host.ofSession config twin).outbox as).sendsOf id →
    ((id, .write name value) ∈ (Host.ofSession config twin).asked as → s.packet = found.request name data) ∧
      ((id, .read name) ∈ (Host.ofSession config twin).asked as → s.packet = found.request name [])
  /-- There is a byte behind the name of what is written, unless the property has no type or the text is empty. -/
  valued : 0 < data.length ↔ ¬(found.definition.schema = .invalid ∨ found.definition.schema = .string ∧ value = "")
  /-- Without it the two requests are the same, and only then. -/
  alike : found.request name data = found.request name [] ↔
    found.definition.schema = .invalid ∨ found.definition.schema = .string ∧ value = ""

/-- **A write is told from a read by the bytes of its value,** for every property of every device and every text that has
a value: the two ask differently, except for a property of no type and for the empty text, of which there are no bytes. -/
theorem Operation.write_asRead_iff {r : Revision} {bytes : Bytes} (hd : Descriptor.parse r bytes = .ok d)
    (hf : d.property? name = some found) (hw : found.definition.writeable)
    (hv : found.definition.schema.toBytes value = .ok data) : found.WrittenAndRead d name value data := by
  have hwrite : found.index < 256 →
      ∃ plan, (write name value).plan d = .ok plan ∧ plan.request = found.request name data := fun hi =>
    request_iff.mpr ⟨_, _, .write hf hw hi hv, found.toPacket_request hd hf data⟩
  have hread : found.index < 256 → ∃ plan, (read name).plan d = .ok plan ∧ plan.request = found.request name [] :=
    fun hi => request_iff.mpr ⟨_, _, .read hf hi, found.toPacket_request hd hf []⟩
  have hrefused : 256 ≤ found.index → (write name value).plan d = .error (.indexOutOfRange found.index) ∧
      (read name).plan d = .error (.indexOutOfRange found.index) := fun hi => by
    simp only [Operation.plan, hf, hw, if_true]
    exact ⟨Plan.make_outOfRange hi, Plan.make_outOfRange hi⟩
  -- an operation that has sent something had a plan, so there was room for the index
  have hsent : ∀ {op : Operation} {request : Packet} {config twin as id} {s : Send},
      (256 ≤ found.index → op.plan d = .error (.indexOutOfRange found.index)) →
      (found.index < 256 → ∃ plan, op.plan d = .ok plan ∧ plan.request = request) →
      ((Host.ofSession config twin).run as).session.descriptor = some d →
      s ∈ ((Host.ofSession config twin).outbox as).sendsOf id → (id, op) ∈ (Host.ofSession config twin).asked as →
      s.packet = request := fun hout hin hdevice hs ha => by
    obtain ⟨plan, hp, he⟩ := Host.packet_of_asked ha hs hdevice
    rcases Nat.lt_or_ge found.index 256 with hi | hi
    · obtain ⟨plan', hp', hr⟩ := hin hi
      obtain rfl := Except.ok.inj (hp.symm.trans hp')
      exact he.trans hr
    · rw [hout hi] at hp
      cases hp
  have hnil := Schema.toBytes_eq_nil_iff hv
  exact {
    planned := fun hi => ⟨hwrite hi, hread hi⟩
    refused := hrefused
    sent := fun _ _ _ _ _ hdevice hs =>
      ⟨hsent (fun hi => (hrefused hi).1) hwrite hdevice hs, hsent (fun hi => (hrefused hi).2) hread hdevice hs⟩
    valued := by rw [← hnil]; exact List.length_pos_iff
    alike := found.request_eq_iff.trans hnil }

/-- A device with one interface, and in it a property that holds a text and can be written. -/
def Descriptor.textProperty : Descriptor := ⟨1, "", [⟨"a", [⟨⟨"b", "", ""⟩, "", false, true, .string⟩], [], []⟩]⟩

theorem Operation.write_asRead_iff_oneCharacter :
    let found : Located Property :=
      ⟨0, ⟨"a", [⟨⟨"b", "", ""⟩, "", false, true, .string⟩], [], []⟩, ⟨⟨"b", "", ""⟩, "", false, true, .string⟩⟩
    Descriptor.parse .v2 [1, 0, 5, 1, 0, 97, 2, 1, 98, 0, 0, 0, 7, 0, 1] = .ok .textProperty ∧
      Descriptor.textProperty.property? "b" = some found ∧ found.definition.writeable ∧
      found.definition.schema.toBytes "x" = .ok [120] ∧ found.request "b" [120] ≠ found.request "b" [] := by
  intro found
  have hd : Descriptor.parse .v2 [1, 0, 5, 1, 0, 97, 2, 1, 98, 0, 0, 0, 7, 0, 1] = .ok .textProperty := by
    decide +kernel
  have hf : Descriptor.textProperty.property? "b" = some found := by decide
  have hv : found.definition.schema.toBytes "x" = .ok [120] := by decide
  refine ⟨hd, hf, rfl, hv, fun he => ?_⟩
  rcases (write_asRead_iff hd hf rfl hv).alike.mp he with h | ⟨-, h⟩
  · cases h
  · exact absurd h (by decide)

/-- The empty text is written to the property, and the device is asked to tell what it holds: what is on the wire is the
same as when the property is read. -/
theorem Host.emptyText_read :
    let h := ofSession {} (.scripted [] 0 0)
    let device := startedWith [1, 0, 5, 1, 0, 97, 2, 1, 98, 0, 0, 0, 7, 0, 1]
    let writes := device ++ (submits 1 (.write "b" "") ++ delivers)
    let reads := device ++ (submits 1 (.read "b") ++ delivers)
    (h.run device).session.phase = .operational ∧ (h.run device).session.descriptor = some .textProperty ∧
      ((Descriptor.textProperty.property? "b").map (·.definition.writeable)) = some true ∧
      Schema.string.toBytes "" = .ok [] ∧
      h.writtenFor writes 1 = Decoder.frameOf (.ofKind .propertyRequest [0, 1, 98]) ∧
      (h.run writes).wire.outbound = (h.run reads).wire.outbound := by
  decide +kernel

end TwinLink
