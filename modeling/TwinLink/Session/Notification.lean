import TwinLink.Packet.Named
import TwinLink.Session.Remark

/-!
# Notifications

* `Descriptor.understand d p` : what an unsolicited packet reports about the device `d`, as the call that passes it on
  to the twin, or the remark that it is dropped with.

The interface is the one whose index the packet carries, if the field exists there, else the first that has the field.
-/

namespace TwinLink.Descriptor

/-- The value that an event notification reports. -/
def understandEvent (d : Descriptor) (p : NamedPayload) : Except Remark TwinCall :=
  match d.resolve (·.event? p.name) p.index.toNat with
  | none => .error (.unknownField (.unknownEvent p.name))
  | some (i, event) =>
    match event.schema.toText p.data with
    | .error e => .error (.unreadableEvent p.name e)
    | .ok value => .ok (.event i.id p.name value)

/-- The value that a property notification reports. -/
def understandProperty (d : Descriptor) (p : NamedPayload) : Except Remark TwinCall :=
  match d.resolve (·.property? p.name) p.index.toNat with
  | none => .error (.unknownField (.unknownProperty p.name))
  | some (i, property) =>
    match property.schema.toText p.data with
    | .error e => .error (.unreadableProperty p.name e)
    | .ok value => .ok (.property i.id p.name value)

/-- What an unsolicited packet reports. -/
def understand (d : Descriptor) (p : Packet) : Except Remark TwinCall :=
  match p.kind? with
  | some .eventNotification =>
    match NamedPayload.decode p.payload with
    | .error e => .error (.malformedEvent e)
    | .ok payload => d.understandEvent payload
  | some .propertyNotification =>
    match NamedPayload.decode p.payload with
    | .error e => .error (.malformedProperty e)
    | .ok payload => d.understandProperty payload
  | _ => .error (.ignored p.type)

end TwinLink.Descriptor
