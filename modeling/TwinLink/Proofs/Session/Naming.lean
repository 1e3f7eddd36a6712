import TwinLink.Proofs.Descriptor.Lookup
import TwinLink.Proofs.Session.Notifications
import TwinLink.Proofs.Session.Plans

/-!
# What names mean to requests and to notifications

A request is planned for the first field of its name and carries the index of its interface. A notification is looked up
under the index that it carries, and devices send index 0 whatever the interface is. Both mean the same property all the
same, unless the index is that of another interface that has the name too.

* `Plan.Uses` : an operation is planned for a property at its place; `Operation.uses_of_plan` : reads and writes are;
* `Descriptor.Credits` : a notification is one of a property of an interface;
* `Descriptor.names_agree` : names mean the first field of the name, to requests and to notifications alike.
-/

namespace TwinLink

variable {d : Descriptor} {op : Operation} {plan : Plan} {name : String} {n : NamedPayload} {i : Interface} {x : Property}

/-! ## Requests -/

/-- The operation reads or writes the property of this name. -/
def Operation.OnProperty (op : Operation) (name : String) : Prop := op = .read name ∨ ∃ value, op = .write name value

/-- What an operation sends along for a property: nothing to read it, and the bytes of the value under its type to write it,
which it must allow. -/
inductive Operation.Sends (x : Property) : Operation → Bytes → Prop
  | read (name : String) : Sends x (.read name) []
  | write (name value : String) (data : Bytes) (hw : x.writeable) (hd : x.schema.toBytes value = .ok data) :
      Sends x (.write name value) data

/-- An operation is planned for a property: the request asks for the name in the interface at its index and carries what is
sent for the property, and what comes back is read as its value and reported for the interface. -/
structure Plan.Uses (plan : Plan) (op : Operation) (name : String) (l : Located Property) : Prop where
  request : ∃ data, op.Sends l.definition data ∧
    NamedPayload.decode plan.request.payload = .ok ⟨UInt8.ofNat l.index, name, data⟩
  index : l.index < 256
  interface : plan.interface = l.interface.id
  result : plan.result = l.definition.schema

/-- Reads and writes are planned for the property that is found by its name. -/
theorem Operation.uses_of_plan (ho : op.OnProperty name) (hp : op.plan d = .ok plan) :
    ∃ l, d.property? name = some l ∧ plan.Uses op name l := by
  have hc := op.plan_cases d
  generalize op.plan d = planned at hp hc
  rcases ho with rfl | ⟨value, rfl⟩
  · cases hc with
    | unknownRead => cases hp
    | @read _ l hf =>
      obtain ⟨hi, bytes, request, hb, hr, rfl⟩ := Plan.make_eq_ok_iff.mp hp
      cases hb
      exact ⟨l, hf, ⟨[], .read name, NamedPayload.decode_toPacket hr⟩, hi, rfl, rfl⟩
  · cases hc with
    | unknownWrite | notWriteable => cases hp
    | @write _ _ l hf hw =>
      obtain ⟨hi, bytes, request, hb, hr, rfl⟩ := Plan.make_eq_ok_iff.mp hp
      exact ⟨l, hf, ⟨bytes, .write name value bytes hw hb, NamedPayload.decode_toPacket hr⟩, hi, rfl, rfl⟩

/-! ## Notifications -/

/-- The dispatcher takes what a notification carries for a value of a property of an interface: it looks up that property,
and a packet that carries this reports its value under the interface, or is dropped because the value cannot be read. -/
structure Descriptor.Credits (d : Descriptor) (n : NamedPayload) (i : Interface) (x : Property) : Prop where
  resolved : d.resolve (·.property? n.name) n.index.toNat = some (i, x)
  understood : ∀ p : Packet, p.kind? = some .propertyNotification → NamedPayload.decode p.payload = .ok n →
    d.understand p = ((x.schema.toText n.data).map (.property i.id n.name)).mapError (.unreadableProperty n.name)

theorem Descriptor.credits_of_resolve (hr : d.resolve (·.property? n.name) n.index.toNat = some (i, x)) :
    d.Credits n i x where
  resolved := hr
  understood p hk hp := by
    simp only [understand, hk, hp, understandProperty, hr]
    cases x.schema.toText n.data with
    | ok value => rfl
    | error e => rfl

/-- The index that a notification carries says nothing about the name: it is that of the first interface that has the name,
or 0, or that of no interface, or that of one that does not have it. -/
inductive Descriptor.Unguided (d : Descriptor) (n : NamedPayload) (l : Located Property) : Prop
  | first (h : n.index = UInt8.ofNat l.index)
  | zero (h : n.index = 0)
  | outOfRange (h : d.interfaces.length ≤ n.index.toNat)
  | other (i : Interface) (hi : d.interfaces[n.index.toNat]? = some i) (hno : ∀ x ∈ i.properties, x.name ≠ n.name)

/-- Without guidance the first property of the name is meant. -/
theorem Descriptor.Unguided.credits {l : Located Property} (hu : d.Unguided n l) (hl : d.property? n.name = some l)
    (hi : l.index < 256) : d.Credits n l.interface l.definition := by
  have hl : d.locate (·.property? n.name) = some l := hl
  have helse : (∀ i, d.interfaces[n.index.toNat]? = some i → i.property? n.name = none) →
      d.Credits n l.interface l.definition := fun hno => by
    refine credits_of_resolve ?_
    rw [resolve_elsewhere hno, hl]
    rfl
  cases hu with
  | first h =>
    refine credits_of_resolve (resolve_le hl (Nat.le_of_eq ?_))
    rw [h, UInt8.toNat_ofNat', Nat.mod_eq_of_lt hi]
  | zero h =>
    refine credits_of_resolve (resolve_le hl ?_)
    rw [h]
    exact Nat.zero_le _
  | outOfRange h =>
    refine helse fun i hi => ?_
    rw [List.getElem?_eq_none h] at hi
    cases hi
  | other i hi hno =>
    refine helse fun j hj => ?_
    obtain rfl := Option.some.inj (hi.symm.trans hj)
    exact find?_name_eq_none_iff.mpr hno

/-! ## Both -/

/-- Names mean one thing to lookups, requests and notifications. -/
structure Descriptor.NamesAgree (d : Descriptor) : Prop where
  /-- A lookup finds the field of the first interface that defines the name, where it is the only one of its kind, -/
  commands : d.FindsFirst d.command? Interface.commands Command.name
  properties : d.FindsFirst d.property? Interface.properties Property.name
  events : d.FindsFirst d.event? Interface.events Event.name
  /-- which is the one that reads and writes use; a notification is credited to it too, whatever index it carries, -/
  unguided : ∀ (op : Operation) name plan, op.OnProperty name → op.plan d = .ok plan → ∃ l,
    d.FirstNamed Interface.properties Property.name name l ∧ plan.Uses op name l ∧
      ∀ n : NamedPayload, n.name = name → d.Unguided n l → d.Credits n l.interface l.definition
  /-- unless the index is that of an interface that defines the name itself. -/
  guided : ∀ (n : NamedPayload) i x, d.interfaces[n.index.toNat]? = some i → x ∈ i.properties → x.name = n.name →
    d.Credits n i x

/-- **Requests and notifications agree on what a name means,** for every descriptor that is accepted. -/
theorem Descriptor.names_agree {r : Revision} {bytes : Bytes} (hd : Descriptor.parse r bytes = .ok d) : d.NamesAgree := by
  have hspelled := spelled_of_parse hd
  obtain ⟨hcommands, hproperties, hevents⟩ := hspelled.finds
  refine ⟨hcommands, hproperties, hevents, fun op name plan ho hp => ?_, fun n i x hi hx hname => ?_⟩
  · obtain ⟨l, hl, huses⟩ := Operation.uses_of_plan ho hp
    refine ⟨l, (hproperties.found name l).mp hl, huses, ?_⟩
    rintro n rfl hu
    exact hu.credits hl huses.index
  · have hnodup := (hspelled.distinct i (List.mem_of_getElem? hi)).properties
    exact credits_of_resolve (resolve_at hi (find?_of_mem hnodup hx hname))

/-- Three interfaces, the last two with a property of one name: a text in the one, a truth value in the other. -/
def Descriptor.sharedName : Descriptor := ⟨1, "", [⟨"a", [], [], []⟩,
  ⟨"b", [⟨⟨"x", "", ""⟩, "", false, true, .string⟩], [], []⟩, ⟨"c", [⟨⟨"x", "", ""⟩, "", false, true, .boolean⟩], [], []⟩]⟩

theorem Descriptor.names_agree_sharedName :
    Descriptor.parse .v2 [1, 0, 5, 1, 0, 97, 5, 1, 0, 98, 2, 1, 120, 0, 0, 0, 7, 0, 1, 5, 1, 0, 99, 2, 1, 120, 0, 0, 0, 6,
      0, 1] = .ok sharedName ∧ (∃ plan, (Operation.read "x").plan sharedName = .ok plan) ∧ sharedName.NamesAgree := by
  have hparse : Descriptor.parse .v2 [1, 0, 5, 1, 0, 97, 5, 1, 0, 98, 2, 1, 120, 0, 0, 0, 7, 0, 1, 5, 1, 0, 99, 2, 1, 120, 0,
      0, 0, 6, 0, 1] = .ok sharedName := by decide +kernel
  exact ⟨hparse, ⟨_, rfl⟩, names_agree hparse⟩

end TwinLink
