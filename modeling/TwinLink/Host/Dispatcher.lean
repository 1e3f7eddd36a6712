import TwinLink.Host.Basic
import TwinLink.Session.Notification

/-!
# Steps of the dispatcher

* `Host.dispatchPacket h p` : an unsolicited packet is dropped with a remark, or its value goes to the observers and to
  the twin;
* `Host.dispatchStep h` : one step, or nothing if the dispatcher has to wait.
-/

namespace TwinLink.Host

/-- Stop listening. Whoever offers an event is told. -/
def endDispatch (h : Host) : Host :=
  let (events, line) := h.link.events.discard
  ({ h with link := { h.link with events := events } }.setDispatch .gone).wakeAll line

/-- Handle a packet that nobody waited for. -/
def dispatchPacket (h : Host) (p : Packet) : Host :=
  if h.session.phase = .operational then
    match h.session.descriptor with
    | none => h
    | some d =>
      match d.understand p with
      | .error r => h.remark .dispatcher r
      | .ok call =>
        let h := h.tellObservers .dispatcher (.observed · call)
        let (h, pending) := h.askTwin .dispatcher call
        h.setDispatch (.reporting call pending)
  else h.remark .dispatcher (.premature p.type h.session.phase)

/-- The link has ended. A session that is not faulted by then is faulted by this. -/
def dispatchEnd (h : Host) (reason : String) : Host :=
  let h := if h.session.phase = .faulted then h
    else (h.remark .dispatcher (.connectionLost reason)).setPhase .dispatcher .faulted
  h.endDispatch

/-- One step of the dispatcher, or nothing if it has to wait. -/
def dispatchStep (h : Host) : Option Host :=
  match h.session.dispatch with
  | .absent => none
  | .gone => none
  | .listening =>
    match h.link.events.take? with
    | none => none
    | some (event, events, woken) =>
      let h := { h with link := { h.link with events := events } }.wake? woken
      if h.attached then
        match event with
        | .packet p => some (h.dispatchPacket p)
        | .closed reason => some (h.dispatchEnd reason)
      else some h.endDispatch
  | .reporting call pending =>
    if pending.alarm.due ≤ h.now then
      let h := match pending.refusal with
        | none => h
        | some text => h.remark .dispatcher (call.complaint text)
      some (h.setDispatch .listening).checkAttached
    else none

end TwinLink.Host
