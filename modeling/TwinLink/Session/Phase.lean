/-!
# Phases of a session

* `Phase` : where a session stands between its start and its end;
* `Phase.Leads a b` : `b` may come directly after `a` in the life of a session.
-/

namespace TwinLink

/-- Where a session stands. -/
inductive Phase
  | disconnected
  | resetting
  | awaitingDescriptor
  | registering
  | operational
  | faulted
deriving DecidableEq, Repr

namespace Phase

/-- The name of a phase in logs and status reports. -/
def name : Phase → String
  | disconnected => "Disconnected"
  | resetting => "Resetting"
  | awaitingDescriptor => "AwaitingDescriptor"
  | registering => "Registering"
  | operational => "Operational"
  | faulted => "Faulted"

/-- The phases that may follow one another: the handshake in its order, and a fault from anywhere. -/
inductive Leads : Phase → Phase → Prop
  | reset : Leads disconnected resetting
  | describe : Leads resetting awaitingDescriptor
  | register : Leads awaitingDescriptor registering
  | operate : Leads registering operational
  | fault (p : Phase) : Leads p faulted

end Phase
end TwinLink
