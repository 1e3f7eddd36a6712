import TwinLink.Proofs.Host.Effects

/-!
# What one step of a call can do

A step of a call changes the link and the session, enters something into the history, and then the call goes on to
another point, ends, or stays where it is. `CallMove h c m` lists every way in which this can happen; the proofs about
runs go through this list and never through the code of the steps.

* `Fate`, `Move` : what becomes of a call, and all that its step leaves behind;
* `Fails`, `Attempts` : the two ways to go on that several points share, after a failed exchange and to a request of the
  handshake;
* `CallMove` : the moves of a call, by the point where it stands;
* `Host.Leaves h c m h'` : `h'` is `h` after the move, up to alarms and who will act;
* `Host.callStep_move` : every step of a call is one of its moves.
-/

namespace TwinLink

/-! ## Moves -/

/-- What becomes of a call in a step. `keeps` is set where it takes hold of the application's handle. -/
inductive Fate
  | goes (p : Point) (keeps : Bool)
  | ends (answer : Answer)
  | stays

/-- What a step of a call leaves behind: the link and the session before the call gives up what it holds, the entries of
the history, newest first, and what becomes of the call. -/
structure Move where
  link : Link
  session : Session
  notes : List Happening
  fate : Fate

/-- A call is elsewhere. -/
def Call.goTo (p : Point) (keeps : Bool) (id : Nat) (c : Call) : Call :=
  if c.id = id then { c with point := p, holds := keeps || c.holds } else c

/-- The handshake has failed: the session is faulted, the link is closed, and the call is left to end the loop. -/
def Move.faulting (l : Link) (s : Session) (notes : List Happening) (e : SessionError) : Move where
  link := l.shut "transport closed by host"
  session := { s with phase := .faulted }
  notes := phaseChange s.phase .faulted ++ .logged (.handshakeFailed e) :: notes
  fate := .goes (.shutting (.error (.session e))) false

/-- How a call goes on after a failed exchange, `l` being the link without its registration. -/
inductive Fails (h : Host) (l : Link) (notes : List Happening) : Purpose → LinkError → Move → Prop
  | direct (e : LinkError) : Fails h l notes .direct e ⟨l, h.session, notes, .ends (.error (.link e))⟩
  | operation (plan : Plan) (e : LinkError) :
      Fails h l notes (.operation plan) e ⟨l, h.session, notes, .ends (.error (.session (.link e)))⟩
  | retry (stage : Stage) (retries : Nat) (hr : retries < h.session.config.handshakeRetries) :
      Fails h l notes (.handshake stage retries) .timeout ⟨l, h.session,
        .logged (.retrying stage.request (retries + 1) h.session.config.handshakeRetries h.session.config.retryDelay)
          :: notes,
        .goes (.pausing ⟨h.now + h.session.config.retryDelay, h.serial⟩ stage (retries + 1)) false⟩
  | fault (stage : Stage) (retries : Nat) (e : LinkError)
      (he : ¬(e = .timeout ∧ retries < h.session.config.handshakeRetries)) :
      Fails h l notes (.handshake stage retries) e (.faulting l h.session notes (.link e))

/-- How a call goes on to a request of the handshake. -/
inductive Attempts (l : Link) (s : Session) (notes : List Happening) (stage : Stage) (retries : Nat) : Move → Prop
  | opened (ho : l.table.closed = none) : Attempts l s notes stage retries
      ⟨l.enroll stage.response.code .any, s, notes,
        .goes (.entering (Frame.encode (Packet.bare stage.request).toBytes)
          (some ⟨l.table.nextId, stage.response.code⟩) (some s.config.requestTimeout) (.handshake stage retries)) false⟩
  | closed (reason : String) (hc : l.table.closed = some reason) : Attempts l s notes stage retries
      (.faulting l s notes (.link (.closed reason)))

/-- Where a call stands that begins to wait for its packet. -/
def Host.awaitingAt (h : Host) (ticket : Ticket) (limit : Option Nat) (purpose : Purpose) : Point :=
  .awaiting ticket limit (limit.map fun ms => ⟨h.now + ms, h.serial⟩) purpose

/-- The moves of a call that stands at its beginning, by what it asks. -/
inductive BeginMove (h : Host) (c : Call) : Request → Move → Prop
  | send (p : Packet) : BeginMove h c (.send p)
      ⟨h.link, h.session, [], .goes (.entering (Frame.encode p.toBytes) none none .direct) false⟩
  | exchange (p : Packet) (expect : UInt8) (limit : Option Nat) (ho : h.link.table.closed = none) :
      BeginMove h c (.exchange p expect limit) ⟨h.link.enroll expect .any, h.session, [],
        .goes (.entering (Frame.encode p.toBytes) (some ⟨h.link.table.nextId, expect⟩) limit .direct) false⟩
  | exchangeRefused (p : Packet) (expect : UInt8) (limit : Option Nat) (reason : String)
      (hc : h.link.table.closed = some reason) :
      BeginMove h c (.exchange p expect limit) ⟨h.link, h.session, [], .ends (.error (.link (.closed reason)))⟩
  | receive (type : UInt8) (limit : Option Nat) (ho : h.link.table.closed = none) :
      BeginMove h c (.receive type limit) ⟨h.link.enroll type .any, h.session, [],
        .goes (h.awaitingAt ⟨h.link.table.nextId, type⟩ limit .direct) false⟩
  | receiveRefused (type : UInt8) (limit : Option Nat) (reason : String) (hc : h.link.table.closed = some reason) :
      BeginMove h c (.receive type limit) ⟨h.link, h.session, [], .ends (.error (.link (.closed reason)))⟩
  | await (ticket : Ticket) (limit : Option Nat) : BeginMove h c (.await ticket limit)
      ⟨h.link, h.session, [], .goes (h.awaitingAt ticket limit .direct) false⟩
  | shutDown : BeginMove h c .shutDown
      ⟨h.link.shut "transport closed by host", h.session, [], .goes (.shutting (.ok .done)) false⟩
  | startFaulted (hp : h.session.phase = .faulted) : BeginMove h c .start
      ⟨h.link, h.session, [], .ends (.error (.session (.faulted "session was closed")))⟩
  | startTaken (hp : h.session.phase ≠ .faulted) (ht : h.session.portTaken) : BeginMove h c .start
      ⟨h.link, h.session, [], .ends (.error (.session .alreadyStarted))⟩
  | start (hp : h.session.phase ≠ .faulted) (ht : h.session.portTaken = false) {m : Move}
      (ha : Attempts { h.link with loop := .listening }
        { h.session with portTaken := true, dispatch := .listening, phase := .resetting }
        (phaseChange h.session.phase .resetting) .reset 0 m) : BeginMove h c .start m
  | operate (op : Operation) (plan : Plan) (hp : h.planOperation op = .ok plan) : BeginMove h c (.operate op)
      ⟨h.link, h.session, [], .goes (.inLine plan) false⟩
  | operateRefused (op : Operation) (e : SessionError) (hp : h.planOperation op = .error e) :
      BeginMove h c (.operate op) ⟨h.link, h.session, [], .ends (.error (.session e))⟩
  | twinOperate (op : Operation) (plan : Plan) (hp : h.planOperation op = .ok plan) (ha : h.attached) :
      BeginMove h c (.twinOperate op)
      ⟨h.link, h.session, [], .goes (.inLine plan) true⟩
  | twinRefused (op : Operation) (e : SessionError) (hp : h.planOperation op = .error e) :
      BeginMove h c (.twinOperate op) ⟨h.link, h.session, [], .ends (.error (.session e))⟩
  | twinDropped (op : Operation) (ha : h.attached = false) : BeginMove h c (.twinOperate op)
      ⟨h.link, h.session, [], .ends (.error (.session (.faulted "session dropped")))⟩
  | closeIdle (hl : h.link.loop = .absent) : BeginMove h c .close
      ⟨h.link, { h.session with phase := .faulted, portTaken := true }, phaseChange h.session.phase .faulted,
        .ends (.ok .done)⟩
  | close (hl : h.link.loop ≠ .absent) : BeginMove h c .close
      ⟨h.link.shut "transport closed by host", { h.session with phase := .faulted, portTaken := true },
        phaseChange h.session.phase .faulted, .goes (.shutting (.ok .done)) false⟩

/-- The moves of a call by the point where it stands. -/
inductive CallMove (h : Host) (c : Call) : Point → Move → Prop
  | begin {r : Request} {m : Move} (hm : BeginMove h c r m) : CallMove h c (.begun r) m
  | locked (plan : Plan) (ha : ((h.session.lock plan.kind).acquire c.id).2) (ho : h.link.table.closed = none) :
      CallMove h c (.inLine plan) ⟨h.link.enroll plan.kind.response.code (.named plan.name),
        h.session.setLock plan.kind ((h.session.lock plan.kind).acquire c.id).1, [],
        .goes (.entering (Frame.encode plan.request.toBytes) (some ⟨h.link.table.nextId, plan.kind.response.code⟩)
          (some h.session.config.requestTimeout) (.operation plan)) false⟩
  | lockedClosed (plan : Plan) (ha : ((h.session.lock plan.kind).acquire c.id).2) (reason : String)
      (hc : h.link.table.closed = some reason) :
      CallMove h c (.inLine plan) ⟨h.link,
        h.session.setLock plan.kind ((h.session.lock plan.kind).acquire c.id).1, [],
        .ends (.error (.session (.link (.closed reason))))⟩
  | lined (plan : Plan) (ha : ((h.session.lock plan.kind).acquire c.id).2 = false) :
      CallMove h c (.inLine plan) ⟨h.link,
        h.session.setLock plan.kind ((h.session.lock plan.kind).acquire c.id).1, [], .stays⟩
  | entered (frame : Bytes) (ticket : Option Ticket) (limit : Option Nat) (purpose : Purpose)
      {commands : Channel LinkCommand}
      (ho : h.link.commands.offer (.call c.id) (.write c.id frame) = (commands, .admitted)) :
      CallMove h c (.entering frame ticket limit purpose)
        ⟨{ h.link with commands := commands }, h.session, [], .goes (.writing ticket limit purpose) false⟩
  | queued (frame : Bytes) (ticket : Option Ticket) (limit : Option Nat) (purpose : Purpose)
      {commands : Channel LinkCommand}
      (ho : h.link.commands.offer (.call c.id) (.write c.id frame) = (commands, .queued)) :
      CallMove h c (.entering frame ticket limit purpose)
        ⟨{ h.link with commands := commands }, h.session, [], .stays⟩
  | shutOut (frame : Bytes) (ticket : Option Ticket) (limit : Option Nat) (purpose : Purpose)
      (hc : h.link.commands.closed) {m : Move}
      (hf : Fails h (ticket.elim h.link fun t => h.link.withdraw t.id) [] purpose h.link.closedError m) :
      CallMove h c (.entering frame ticket limit purpose) m
  | unwritten (ticket : Option Ticket) (limit : Option Nat) (purpose : Purpose) (e : LinkError)
      (hr : h.link.receipt? c.id = some (.error e)) {m : Move}
      (hf : Fails h (ticket.elim (h.link.dropReceipt c.id) fun t => (h.link.dropReceipt c.id).withdraw t.id) []
        purpose e m) :
      CallMove h c (.writing ticket limit purpose) m
  | sent (limit : Option Nat) (purpose : Purpose) (hr : h.link.receipt? c.id = some (.ok ())) :
      CallMove h c (.writing none limit purpose)
        ⟨h.link.dropReceipt c.id, h.session, [], .ends (.ok .done)⟩
  | written (ticket : Ticket) (limit : Option Nat) (purpose : Purpose)
      (hr : h.link.receipt? c.id = some (.ok ())) :
      CallMove h c (.writing (some ticket) limit purpose)
        ⟨h.link.dropReceipt c.id, h.session, [], .goes (h.awaitingAt ticket limit purpose) false⟩
  | failed (ticket : Ticket) (limit : Option Nat) (alarm : Option Alarm) (purpose : Purpose) (e : LinkError)
      (hd : h.link.delivery? ticket.id = some (.error e)) {m : Move}
      (hf : Fails h (h.link.withdraw ticket.id) [] purpose e m) :
      CallMove h c (.awaiting ticket limit alarm purpose) m
  | timedOut (ticket : Ticket) (limit : Option Nat) (alarm : Alarm) (purpose : Purpose)
      (hd : h.link.delivery? ticket.id = none) (ha : alarm.due ≤ h.now) {m : Move}
      (hf : Fails h { h.link.withdraw ticket.id with
          metrics := { h.link.metrics with timeouts := h.link.metrics.timeouts + 1 } }
        [.logged (.noReply ticket.type (limit.getD 0))] purpose .timeout m) :
      CallMove h c (.awaiting ticket limit (some alarm) purpose) m
  | received (ticket : Ticket) (limit : Option Nat) (alarm : Option Alarm) (p : Packet)
      (hd : h.link.delivery? ticket.id = some (.ok p)) :
      CallMove h c (.awaiting ticket limit alarm .direct)
        ⟨h.link.withdraw ticket.id, h.session, [], .ends (.ok (.packet p))⟩
  | unreadable (ticket : Ticket) (limit : Option Nat) (alarm : Option Alarm) (plan : Plan) (p : Packet)
      (hd : h.link.delivery? ticket.id = some (.ok p)) (e : SessionError) (hr : plan.read p = .error e) :
      CallMove h c (.awaiting ticket limit alarm (.operation plan))
        ⟨h.link.withdraw ticket.id, h.session, [], .ends (.error (.session e))⟩
  | answered (ticket : Ticket) (limit : Option Nat) (alarm : Option Alarm) (plan : Plan) (p : Packet)
      (hd : h.link.delivery? ticket.id = some (.ok p)) (value : String) (hr : plan.read p = .ok value)
      (hk : plan.kind ≠ .write) :
      CallMove h c (.awaiting ticket limit alarm (.operation plan))
        ⟨h.link.withdraw ticket.id, h.session, [], .ends (.ok (.text value))⟩
  | taken (ticket : Ticket) (limit : Option Nat) (alarm : Option Alarm) (plan : Plan) (p : Packet)
      (hd : h.link.delivery? ticket.id = some (.ok p)) (value : String) (hr : plan.read p = .ok value)
      (hk : plan.kind = .write) {call : TwinCall} (hc : call = .property plan.interface plan.name value) :
      CallMove h c (.awaiting ticket limit alarm (.operation plan))
        ⟨h.link.withdraw ticket.id, h.session.ask call, [.toldTwin call (h.session.twin h.session.asked call)],
          .goes (.updating plan value (h.answerTo call)) false⟩
  | acknowledged (ticket : Ticket) (limit : Option Nat) (alarm : Option Alarm) (retries : Nat) (p : Packet)
      (hd : h.link.delivery? ticket.id = some (.ok p)) {m : Move}
      (ha : Attempts (h.link.withdraw ticket.id) { h.session with phase := .awaitingDescriptor }
        (phaseChange h.session.phase .awaitingDescriptor ++ [.logged .resetAcknowledged]) .describe 0 m) :
      CallMove h c (.awaiting ticket limit alarm (.handshake .reset retries)) m
  | misdescribed (ticket : Ticket) (limit : Option Nat) (alarm : Option Alarm) (retries : Nat) (p : Packet)
      (hd : h.link.delivery? ticket.id = some (.ok p)) (e : DescriptorError)
      (hp : Descriptor.parse h.session.config.revision p.payload = .error e) :
      CallMove h c (.awaiting ticket limit alarm (.handshake .describe retries))
        (.faulting (h.link.withdraw ticket.id) h.session [] (.descriptor e))
  | described (ticket : Ticket) (limit : Option Nat) (alarm : Option Alarm) (retries : Nat) (p : Packet)
      (hd : h.link.delivery? ticket.id = some (.ok p)) (d : Descriptor)
      (hp : Descriptor.parse h.session.config.revision p.payload = .ok d) :
      CallMove h c (.awaiting ticket limit alarm (.handshake .describe retries))
        ⟨h.link.withdraw ticket.id, { h.session with phase := .registering, descriptor := some d },
          phaseChange h.session.phase .registering ++ [.logged (.reported d.displayName d.interfaces.length)],
          .goes (.registering d d.registration none) false⟩
  | paused (alarm : Alarm) (stage : Stage) (retries : Nat) (ha : alarm.due ≤ h.now) {m : Move}
      (hm : Attempts h.link h.session [] stage retries m) : CallMove h c (.pausing alarm stage retries) m
  | asked (d : Descriptor) (call : TwinCall) (todo : List TwinCall) :
      CallMove h c (.registering d (call :: todo) none)
        ⟨h.link, h.session.ask call, [.toldTwin call (h.session.twin h.session.asked call)],
          .goes (.registering d (call :: todo) (some (h.answerTo call))) false⟩
  | skipped (d : Descriptor) (pending : Pending) : CallMove h c (.registering d [] (some pending))
      ⟨h.link, h.session, [], .goes (.registering d [] none) false⟩
  | refused (d : Descriptor) (call : TwinCall) (todo : List TwinCall) (pending : Pending)
      (ha : pending.alarm.due ≤ h.now) (text : String) (hr : pending.refusal = some text) :
      CallMove h c (.registering d (call :: todo) (some pending))
        (.faulting h.link h.session [] (Host.registrationError call text))
  | registered (d : Descriptor) (call : TwinCall) (todo : List TwinCall) (pending : Pending)
      (ha : pending.alarm.due ≤ h.now) (hr : pending.refusal = none) :
      CallMove h c (.registering d (call :: todo) (some pending))
        ⟨h.link, h.session, [], .goes (.registering d todo none) false⟩
  | started (d : Descriptor) : CallMove h c (.registering d [] none)
      ⟨{ h.link with forwarding := true },
        { h.session with operationalSince := some h.now, phase := .operational },
        phaseChange h.session.phase .operational
          ++ (List.range h.session.observers).reverse.map (.discovered · d),
        .ends (.ok (.device d))⟩
  | updated (plan : Plan) (value : String) (pending : Pending) (ha : pending.alarm.due ≤ h.now) :
      CallMove h c (.updating plan value pending)
        ⟨h.link, h.session, pending.refusal.elim [] fun text => [.logged (.updateRejected plan.name text)],
          .ends (.ok (.text value))⟩
  | told (answer : Answer) {commands : Channel LinkCommand}
      (ho : h.link.commands.offer (.call c.id) .shutdown = (commands, .admitted)) :
      CallMove h c (.shutting answer) ⟨{ h.link with commands := commands }, h.session, [], .ends answer⟩
  | untold (answer : Answer) (hc : h.link.commands.closed) :
      CallMove h c (.shutting answer) ⟨h.link, h.session, [], .ends answer⟩
  | telling (answer : Answer) {commands : Channel LinkCommand}
      (ho : h.link.commands.offer (.call c.id) .shutdown = (commands, .queued)) :
      CallMove h c (.shutting answer) ⟨{ h.link with commands := commands }, h.session, [], .stays⟩

/-! ## What a move leaves behind -/

namespace Move

/-- The link after a move of the call `c`. -/
def linkAfter (m : Move) (c : Call) : Link :=
  match m.fate with
  | .ends _ => m.link.vacate c
  | _ => m.link

/-- The session after a move of the call `c`. -/
def sessionAfter (m : Move) (c : Call) : Session :=
  match m.fate with
  | .ends _ => m.session.vacate c
  | _ => m.session

/-- The calls after a move of the call `c`. -/
def callsAfter (m : Move) (c : Call) (calls : List Call) : List Call :=
  match m.fate with
  | .goes p keeps => calls.map (Call.goTo p keeps c.id)
  | .ends _ => calls.filter fun x => x.id != c.id
  | .stays => calls

/-- Everything that happens in a move, newest first. -/
def happenings (m : Move) : List Happening :=
  match m.fate with
  | .ends answer => .answered answer :: m.notes
  | _ => m.notes

@[simp] theorem sessionAfter_phase (m : Move) (c : Call) : (m.sessionAfter c).phase = m.session.phase := by
  unfold sessionAfter
  split <;> simp

@[simp] theorem sessionAfter_portTaken (m : Move) (c : Call) :
    (m.sessionAfter c).portTaken = m.session.portTaken := by
  unfold sessionAfter
  split <;> simp

@[simp] theorem sessionAfter_dispatch (m : Move) (c : Call) : (m.sessionAfter c).dispatch = m.session.dispatch := by
  unfold sessionAfter
  split <;> simp

/-- No move makes or reorders calls. -/
theorem callsAfter_ids (m : Move) (c : Call) (calls : List Call) :
    ((m.callsAfter c calls).map (·.id)).Sublist (calls.map (·.id)) := by
  unfold callsAfter
  split
  · rename_i p keeps hf
    have hid : (fun x : Call => x.id) ∘ Call.goTo p keeps c.id = fun x => x.id := by
      funext x
      show (Call.goTo p keeps c.id x).id = x.id
      unfold Call.goTo
      split <;> rfl
    have hsame : (calls.map (Call.goTo p keeps c.id)).map (·.id) = calls.map (·.id) := by rw [List.map_map, hid]
    exact hsame ▸ List.Sublist.refl _
  · exact List.filter_sublist.map _
  · exact List.Sublist.refl _

/-- The other calls stay as they are. -/
theorem mem_callsAfter_of_ne {m : Move} {c x : Call} {calls : List Call} (hx : x ∈ calls) (hne : x.id ≠ c.id) :
    x ∈ m.callsAfter c calls := by
  unfold callsAfter
  split
  · exact List.mem_map.mpr ⟨x, hx, by simp [Call.goTo, hne]⟩
  · exact List.mem_filter.mpr ⟨hx, by simpa using hne⟩
  · exact hx

/-- A call that goes on is among the calls, at its new point. -/
theorem mem_callsAfter_of_goes {m : Move} {c : Call} {calls : List Call} (hc : c ∈ calls) {p : Point} {keeps : Bool}
    (hg : m.fate = .goes p keeps) : { c with point := p, holds := keeps || c.holds } ∈ m.callsAfter c calls := by
  unfold callsAfter
  rw [hg]
  exact List.mem_map.mpr ⟨c, hc, by simp [Call.goTo]⟩

end Move

namespace Host

/-- `h'` is `h` after the move `m` of the call `c`, up to alarms and who will act. The host end of the byte stream is
given up only where no loop runs on it. -/
structure Leaves (h : Host) (c : Call) (m : Move) (h' : Host) : Prop where
  link : h'.link = m.linkAfter c
  session : h'.session = m.sessionAfter c
  calls : h'.calls = m.callsAfter c h.calls
  history : h'.history = m.happenings.map (⟨.call c.id, h.now, ·⟩) ++ h.history
  now : h'.now = h.now
  made : h'.made = h.made
  held : h'.held = h.held
  tickets : h'.tickets = h.tickets
  wire : h'.wire = { h.wire with released := h'.wire.released }
  released : h'.wire.released = h.wire.released ∨
    h'.wire.released = true ∧ (h.link.loop = .absent ∨ h.session.portTaken = false)

variable {h h₁ : Host} {c : Call} {l : Link} {s : Session} {notes : List Happening}

namespace Leaves

theorem refl (h : Host) (c : Call) : h.Leaves c ⟨h.link, h.session, [], .stays⟩ h :=
  ⟨rfl, rfl, rfl, rfl, rfl, rfl, rfl, rfl, rfl, .inl rfl⟩

/-- Alarms and who will act are left open. -/
theorem wakes {m : Move} (hl : h.Leaves c m h₁) (serial : Nat) (ready : List Actor) :
    h.Leaves c m { h₁ with serial := serial, ready := ready } :=
  ⟨hl.link, hl.session, hl.calls, hl.history, hl.now, hl.made, hl.held, hl.tickets, hl.wire, hl.released⟩

theorem wake {m : Move} (hl : h.Leaves c m h₁) (a : Actor) : h.Leaves c m (h₁.wake a) := by
  generalize hw : h₁.wake a = h₂
  obtain ⟨r, rfl⟩ := wake_eq hw
  exact hl.wakes h₁.serial r

theorem setLink (hl : h.Leaves c ⟨l, s, notes, .stays⟩ h₁) (l' : Link) :
    h.Leaves c ⟨l', s, notes, .stays⟩ { h₁ with link := l' } :=
  ⟨rfl, hl.session, hl.calls, hl.history, hl.now, hl.made, hl.held, hl.tickets, hl.wire, hl.released⟩

theorem setSession (hl : h.Leaves c ⟨l, s, notes, .stays⟩ h₁) (s' : Session) :
    h.Leaves c ⟨l, s', notes, .stays⟩ { h₁ with session := s' } :=
  ⟨hl.link, rfl, hl.calls, hl.history, hl.now, hl.made, hl.held, hl.tickets, hl.wire, hl.released⟩

theorem note (hl : h.Leaves c ⟨l, s, notes, .stays⟩ h₁) (what : Happening) :
    h.Leaves c ⟨l, s, what :: notes, .stays⟩ (h₁.note (.call c.id) what) := by
  refine ⟨hl.link, hl.session, hl.calls, ?_, hl.now, hl.made, hl.held, hl.tickets, hl.wire, hl.released⟩
  show ⟨.call c.id, h₁.now, what⟩ :: h₁.history = _
  rw [hl.history, hl.now]
  rfl

theorem setPhase (hl : h.Leaves c ⟨l, s, notes, .stays⟩ h₁) (p : Phase) :
    h.Leaves c ⟨l, { s with phase := p }, phaseChange s.phase p ++ notes, .stays⟩
      (h₁.setPhase (.call c.id) p) := by
  have hs : h₁.session = s := hl.session
  rw [setPhase_eq, hs]
  refine ⟨hl.link, rfl, hl.calls, ?_, hl.now, hl.made, hl.held, hl.tickets, hl.wire, hl.released⟩
  show _ ++ h₁.history = _
  rw [hl.history, hl.now]
  simp [Move.happenings]

theorem closeTable (hl : h.Leaves c ⟨l, s, notes, .stays⟩ h₁) (reason : String) :
    h.Leaves c ⟨l.shut reason, s, notes, .stays⟩ (h₁.closeTable reason) := by
  have hll : h₁.link = l := hl.link
  generalize hc : h₁.closeTable reason = h₂
  obtain ⟨r, rfl⟩ := closeTable_eq hc
  rw [hll]
  exact (hl.setLink (l.shut reason)).wakes h₁.serial r

theorem dropTicket (hl : h.Leaves c ⟨l, s, notes, .stays⟩ h₁) (ticket : Option Ticket) :
    h.Leaves c ⟨ticket.elim l fun t => l.withdraw t.id, s, notes, .stays⟩ (h₁.dropTicket ticket) := by
  have hll : h₁.link = l := hl.link
  cases ticket with
  | none => exact hl
  | some t =>
    show h.Leaves c _ { h₁ with link := h₁.link.withdraw t.id }
    rw [hll]
    exact hl.setLink _

theorem askTwin (hl : h.Leaves c ⟨l, h.session, notes, .stays⟩ h₁) (call : TwinCall) :
    h.Leaves c ⟨l, h.session.ask call, .toldTwin call (h.session.twin h.session.asked call) :: notes, .stays⟩
      (h₁.askTwin (.call c.id) call).1 := by
  have hs : h₁.session = h.session := hl.session
  have := ((hl.setSession (h.session.ask call)).note
    (.toldTwin call (h.session.twin h.session.asked call))).wakes (h₁.serial + 1) h₁.ready
  unfold Host.askTwin
  rw [hs]
  exact this

theorem setPoint (hl : h.Leaves c ⟨l, s, notes, .stays⟩ h₁) (p : Point) :
    h.Leaves c ⟨l, s, notes, .goes p false⟩ (h₁.setPoint c.id p) := by
  refine ⟨hl.link, hl.session, ?_, hl.history, hl.now, hl.made, hl.held, hl.tickets, hl.wire, hl.released⟩
  have hc : h₁.calls = h.calls := hl.calls
  show h₁.calls.map _ = _
  rw [hc]
  rfl

theorem finish (hl : h.Leaves c ⟨l, s, notes, .stays⟩ h₁) (hloop : l.loop = h.link.loop) (answer : Answer) :
    h.Leaves c ⟨l, s, notes, .ends answer⟩ (h₁.finish c answer) := by
  have hll : h₁.link = l := hl.link
  have hs : h₁.session = s := hl.session
  have hc : h₁.calls = h.calls := hl.calls
  generalize hf : h₁.finish c answer = h₂
  obtain ⟨released, r, rfl, hr⟩ := finish_eq hf
  refine ⟨by rw [hll]; rfl, by rw [hs]; rfl, by rw [hc]; rfl, ?_, hl.now, hl.made, hl.held, hl.tickets, ?_, ?_⟩
  · show ⟨.call c.id, h₁.now, .answered answer⟩ :: h₁.history = _
    rw [hl.history, hl.now]
    rfl
  · rw [hl.wire]
  · rcases hr with hr | ⟨hr, habs⟩
    · show released = _ ∨ released = _ ∧ _
      rw [hr]
      exact hl.released
    · exact .inr ⟨hr, .inl (by rw [← hloop, ← hll]; exact habs)⟩

end Leaves

/-! ## Steps of calls -/

theorem failHandshake_leaves (hl : h.Leaves c ⟨l, s, notes, .stays⟩ h₁) (e : SessionError) :
    h.Leaves c (.faulting l s notes e) (h₁.failHandshake c e) :=
  (((hl.note (.logged (.handshakeFailed e))).setPhase .faulted).closeTable _).setPoint _

theorem attempt_leaves (hl : h.Leaves c ⟨l, s, notes, .stays⟩ h₁) (stage : Stage) (retries : Nat) :
    ∃ m, Attempts l s notes stage retries m ∧ h.Leaves c m (h₁.attempt c stage retries) := by
  have hll : h₁.link = l := hl.link
  have hs : h₁.session = s := hl.session
  unfold attempt
  rw [register_eq, hll]
  cases hc : l.table.closed with
  | some reason => exact ⟨_, .closed reason hc, failHandshake_leaves hl _⟩
  | none =>
    refine ⟨_, .opened hc, ?_⟩
    rw [← hs] at hl ⊢
    exact (hl.setLink _).setPoint _

theorem failExchange_leaves (hl : h.Leaves c ⟨l, h.session, notes, .stays⟩ h₁) (hloop : l.loop = h.link.loop)
    (hserial : h₁.serial = h.serial) (purpose : Purpose) (e : LinkError) :
    ∃ m, Fails h l notes purpose e m ∧ h.Leaves c m (h₁.failExchange c purpose e) := by
  have hs : h₁.session = h.session := hl.session
  have hn : h₁.now = h.now := hl.now
  unfold failExchange
  cases purpose with
  | direct => exact ⟨_, .direct e, hl.finish hloop _⟩
  | operation plan => exact ⟨_, .operation plan e, hl.finish hloop _⟩
  | handshake stage retries =>
    dsimp only
    split
    · rename_i hr
      obtain ⟨rfl, hr⟩ := hr
      rw [hs] at hr
      refine ⟨_, .retry stage retries hr, ?_⟩
      rw [← hn, ← hserial, ← hs]
      rw [← hs] at hl
      exact ((hl.note _).wakes (h₁.serial + 1) h₁.ready).setPoint _
    · rename_i he
      rw [hs] at he
      exact ⟨_, .fault stage retries e he, failHandshake_leaves hl _⟩

theorem beginWait_leaves (hl : h.Leaves c ⟨l, s, notes, .stays⟩ h₁) (hserial : h₁.serial = h.serial)
    (ticket : Ticket) (limit : Option Nat) (purpose : Purpose) :
    h.Leaves c ⟨l, s, notes, .goes (h.awaitingAt ticket limit purpose) false⟩
      (h₁.beginWait c ticket limit purpose) := by
  have hn : h₁.now = h.now := hl.now
  unfold beginWait awaitingAt
  cases limit with
  | none => exact hl.setPoint _
  | some ms =>
    rw [← hserial, ← hn]
    exact (hl.wakes (h₁.serial + 1) h₁.ready).setPoint _

theorem releaseWire_leaves (hl : h.Leaves c ⟨l, s, notes, .stays⟩ h₁) (ht : h.session.portTaken = false) :
    h.Leaves c ⟨l, s, notes, .stays⟩ h₁.releaseWire := by
  refine ⟨hl.link, hl.session, hl.calls, hl.history, hl.now, hl.made, hl.held, hl.tickets, ?_, .inr ⟨rfl, .inr ht⟩⟩
  show { h₁.wire with released := true } = _
  rw [hl.wire]
  rfl

theorem beginStart_leaves (h : Host) (c : Call) : ∃ m, BeginMove h c .start m ∧ h.Leaves c m (h.beginStart c) := by
  have hl := Leaves.refl h c
  unfold beginStart
  split
  · exact ⟨_, .startFaulted ‹_›, hl.finish rfl _⟩
  · split
    · exact ⟨_, .startTaken ‹_› ‹_›, hl.finish rfl _⟩
    · rename_i hp ht
      have hm := (((hl.setSession { h.session with portTaken := true, dispatch := .listening }).setLink
        { h.link with loop := .listening }).wake .loop).wake .dispatcher
      obtain ⟨m, ha, hm⟩ := attempt_leaves (hm.setPhase .resetting) .reset 0
      rw [List.append_nil] at ha
      exact ⟨m, .start hp (by simpa using ht) ha, hm⟩

/-- The port is taken already, or a close takes it and gives up the byte stream. -/
theorem takePort_leaves (hl : h.Leaves c ⟨l, { h.session with phase := .faulted }, notes, .stays⟩ h₁) :
    h.Leaves c ⟨l, { h.session with phase := .faulted, portTaken := true }, notes, .stays⟩
      (if h₁.session.portTaken then h₁
        else { h₁ with session := { h₁.session with portTaken := true } }.releaseWire) := by
  have hs : h₁.session = { h.session with phase := .faulted } := hl.session
  split
  · rename_i ht
    rw [hs] at ht
    rw [← ht]
    exact hl
  · rename_i ht
    rw [hs] at ht ⊢
    exact releaseWire_leaves (hl.setSession _) (by simpa using ht)

theorem endLink_leaves (hl : h.Leaves c ⟨h.link, { h.session with phase := .faulted, portTaken := true },
      phaseChange h.session.phase .faulted, .stays⟩ h₁) :
    ∃ m, BeginMove h c .close m ∧ h.Leaves c m (match h₁.link.loop with
      | .absent => h₁.finish c (.ok .done)
      | _ => h₁.beginShutdown c (.ok .done)) := by
  have hll : h₁.link = h.link := hl.link
  rw [hll]
  split
  · exact ⟨_, .closeIdle ‹_›, hl.finish rfl _⟩
  · rename_i hloop
    exact ⟨_, .close hloop, (hl.closeTable _).setPoint _⟩

theorem close_leaves (h : Host) (c : Call) :
    ∃ m, BeginMove h c .close m ∧ h.Leaves c m (h.beginCall c .close) := by
  have hp := (Leaves.refl h c).setPhase .faulted
  rw [List.append_nil] at hp
  exact endLink_leaves (takePort_leaves hp)

/-- A call that takes hold of the handle and goes on. -/
theorem Leaves.keepHandle (h : Host) (c : Call) (p : Point) :
    h.Leaves c ⟨h.link, h.session, [], .goes p true⟩ ((h.keepHandle c.id).setPoint c.id p) := by
  refine ⟨rfl, rfl, ?_, rfl, rfl, rfl, rfl, rfl, rfl, .inl rfl⟩
  show (h.calls.map _).map _ = h.calls.map (Call.goTo p true c.id)
  rw [List.map_map]
  refine List.map_congr_left fun x _ => ?_
  by_cases hx : x.id = c.id <;> simp [Call.goTo, hx]

/-- Whether an ended call kept the handle alive no longer matters. -/
theorem Leaves.finish_keepHandle (h : Host) (c : Call) (answer : Answer) :
    h.Leaves c ⟨h.link, h.session, [], .ends answer⟩ ((h.keepHandle c.id).finish c answer) := by
  generalize hf : (h.keepHandle c.id).finish c answer = h₂
  obtain ⟨released, r, rfl, hr⟩ := finish_eq hf
  refine ⟨rfl, rfl, ?_, rfl, rfl, rfl, rfl, rfl, rfl, hr.imp_right fun hr => ⟨hr.1, .inl hr.2⟩⟩
  show (h.calls.map _).filter _ = h.calls.filter _
  rw [List.filter_map]
  have hp : ((fun x : Call => x.id != c.id) ∘ fun x => if x.id = c.id then { x with holds := true } else x)
      = fun x => x.id != c.id := by
    funext x
    by_cases hx : x.id = c.id <;> simp [hx]
  rw [hp]
  refine (List.map_congr_left fun x hx => ?_).trans (List.map_id _)
  have hne : x.id ≠ c.id := by simpa using (List.mem_filter.mp hx).2
  simp [hne]

theorem beginCall_leaves (h : Host) (c : Call) (r : Request) :
    ∃ m, BeginMove h c r m ∧ h.Leaves c m (h.beginCall c r) := by
  have hl := Leaves.refl h c
  cases r with
  | send p => exact ⟨_, .send p, hl.setPoint _⟩
  | exchange p expect limit =>
    cases hc : h.link.table.closed <;> simp only [beginCall, register_eq, hc]
    case some reason => exact ⟨_, .exchangeRefused p expect limit reason hc, hl.finish rfl _⟩
    case none => exact ⟨_, .exchange p expect limit hc, (hl.setLink _).setPoint _⟩
  | receive type limit =>
    cases hc : h.link.table.closed <;> simp only [beginCall, register_eq, hc]
    case some reason => exact ⟨_, .receiveRefused type limit reason hc, hl.finish rfl _⟩
    case none => exact ⟨_, .receive type limit hc, beginWait_leaves (hl.setLink (h.link.enroll type .any)) rfl _ _ _⟩
  | await ticket limit => exact ⟨_, .await ticket limit, beginWait_leaves hl rfl _ _ _⟩
  | shutDown => exact ⟨_, .shutDown, (hl.closeTable _).setPoint _⟩
  | start => exact beginStart_leaves h c
  | operate op =>
    cases hp : h.planOperation op <;> simp only [beginCall, beginOperation, hp]
    case error e => exact ⟨_, .operateRefused op e hp, hl.finish rfl _⟩
    case ok plan => exact ⟨_, .operate op plan hp, hl.setPoint _⟩
  | twinOperate op =>
    cases ha : h.attached
    · simp only [beginCall, ha]
      exact ⟨_, .twinDropped op ha, hl.finish rfl _⟩
    · have hk : (h.keepHandle c.id).planOperation op = h.planOperation op := rfl
      cases hp : h.planOperation op <;> simp only [beginCall, beginOperation, ha, hk, hp, if_true]
      case error e => exact ⟨_, .twinRefused op e hp, .finish_keepHandle h c _⟩
      case ok plan => exact ⟨_, .twinOperate op plan hp ha, .keepHandle h c _⟩
  | close => exact close_leaves h c

/-- After the lock, the registration for the reply. -/
theorem lockStep_leaves {h' : Host} {plan : Plan} (e : h.lockStep c plan = some h') :
    ∃ m, CallMove h c (.inLine plan) m ∧ h.Leaves c m h' := by
  have hl := (Leaves.refl h c).setSession
    (h.session.setLock plan.kind ((h.session.lock plan.kind).acquire c.id).1)
  unfold lockStep at e
  dsimp only at e
  split at e
  · rename_i ha
    rw [register_eq] at e
    cases hc : h.link.table.closed <;> rw [hc] at e <;> obtain rfl := Option.some.inj e
    case none =>
      refine ⟨_, .locked plan ha hc, ?_⟩
      rw [← h.session.setLock_config plan.kind ((h.session.lock plan.kind).acquire c.id).1]
      exact (hl.setLink _).setPoint _
    case some reason => exact ⟨_, .lockedClosed plan ha reason hc, hl.finish rfl _⟩
  · rename_i ha
    split at e
    · obtain rfl := Option.some.inj e
      exact ⟨_, .lined plan (by simpa using ha), hl⟩
    · cases e

theorem enterStep_leaves {h' : Host} {frame : Bytes} {ticket : Option Ticket} {limit : Option Nat} {purpose : Purpose}
    (e : h.enterStep c frame ticket limit purpose = some h') :
    ∃ m, CallMove h c (.entering frame ticket limit purpose) m ∧ h.Leaves c m h' := by
  unfold enterStep at e
  generalize ho : h.link.commands.offer (.call c.id) (.write c.id frame) = o at e
  obtain ⟨commands, admission⟩ := o
  have hl := (Leaves.refl h c).setLink { h.link with commands := commands }
  cases admission with
  | admitted =>
    obtain rfl := Option.some.inj e
    exact ⟨_, .entered frame ticket limit purpose ho, (hl.setPoint _).wake .loop⟩
  | queued =>
    obtain rfl := Option.some.inj e
    exact ⟨_, .queued frame ticket limit purpose ho, hl⟩
  | waiting => cases e
  | refused =>
    obtain rfl := Option.some.inj e
    obtain ⟨hcl, rfl⟩ := h.link.commands.offer_refused ho
    have hloop : (ticket.elim h.link fun t => h.link.withdraw t.id).loop = h.link.loop := by
      cases ticket <;> rfl
    have hserial : (h.dropTicket ticket).serial = h.serial := by cases ticket <;> rfl
    obtain ⟨m, hf, hm⟩ := failExchange_leaves ((Leaves.refl h c).dropTicket ticket) hloop hserial purpose
      h.link.closedError
    exact ⟨m, .shutOut frame ticket limit purpose hcl hf, hm⟩

theorem writeStep_leaves {h' : Host} {ticket : Option Ticket} {limit : Option Nat} {purpose : Purpose}
    (e : h.writeStep c ticket limit purpose = some h') :
    ∃ m, CallMove h c (.writing ticket limit purpose) m ∧ h.Leaves c m h' := by
  have hl := (Leaves.refl h c).setLink (h.link.dropReceipt c.id)
  unfold writeStep at e
  cases hr : h.link.receipt? c.id with
  | none => rw [hr] at e; cases e
  | some receipt =>
    rw [hr] at e
    cases receipt with
    | error err =>
      obtain rfl := Option.some.inj e
      have hloop : (ticket.elim (h.link.dropReceipt c.id) fun t => (h.link.dropReceipt c.id).withdraw t.id).loop
          = h.link.loop := by
        cases ticket <;> rfl
      have hserial : (({ h with link := h.link.dropReceipt c.id } : Host).dropTicket ticket).serial = h.serial := by
        cases ticket <;> rfl
      obtain ⟨m, hf, hm⟩ := failExchange_leaves (hl.dropTicket ticket) hloop hserial purpose err
      exact ⟨m, .unwritten ticket limit purpose err hr hf, hm⟩
    | ok u =>
      cases ticket with
      | none =>
        obtain rfl := Option.some.inj e
        exact ⟨_, .sent limit purpose hr, hl.finish rfl _⟩
      | some ticket =>
        obtain rfl := Option.some.inj e
        exact ⟨_, .written ticket limit purpose hr, beginWait_leaves hl rfl ticket limit purpose⟩

/-- The packet has come. -/
theorem concludeExchange_leaves {ticket : Ticket} (limit : Option Nat) (alarm : Option Alarm) (purpose : Purpose)
    {p : Packet} (hd : h.link.delivery? ticket.id = some (.ok p)) :
    ∃ m, CallMove h c (.awaiting ticket limit alarm purpose) m ∧
      h.Leaves c m (({ h with link := h.link.withdraw ticket.id } : Host).concludeExchange c purpose p) := by
  have hl := (Leaves.refl h c).setLink (h.link.withdraw ticket.id)
  cases purpose with
  | direct => exact ⟨_, .received ticket limit alarm p hd, hl.finish rfl _⟩
  | handshake stage retries =>
    cases stage with
    | reset =>
      obtain ⟨m, ha, hm⟩ := attempt_leaves ((hl.note (.logged .resetAcknowledged)).setPhase .awaitingDescriptor)
        .describe 0
      exact ⟨m, .acknowledged ticket limit alarm retries p hd ha, hm⟩
    | describe =>
      simp only [concludeExchange, beginRegistration]
      cases hp : Descriptor.parse h.session.config.revision p.payload with
      | error err => exact ⟨_, .misdescribed ticket limit alarm retries p hd err hp, failHandshake_leaves hl _⟩
      | ok d =>
        have hn := (hl.note (.logged (.reported d.displayName d.interfaces.length))).setPhase .registering
        have hs : ((({ h with link := h.link.withdraw ticket.id } : Host).remark (.call c.id)
            (.reported d.displayName d.interfaces.length)).setPhase (.call c.id) .registering).session
            = { h.session with phase := .registering } := hn.session
        refine ⟨_, .described ticket limit alarm retries p hd d hp, ?_⟩
        dsimp only
        rw [hs]
        exact (hn.setSession _).setPoint _
  | operation plan =>
    simp only [concludeExchange, readReply]
    cases hr : plan.read p with
    | error err => exact ⟨_, .unreadable ticket limit alarm plan p hd err hr, hl.finish rfl _⟩
    | ok value =>
      cases hk : plan.kind with
      | write => exact ⟨_, .taken ticket limit alarm plan p hd value hr hk rfl, (hl.askTwin _).setPoint _⟩
      | command =>
        exact ⟨_, .answered ticket limit alarm plan p hd value hr (by rw [hk]; decide), hl.finish rfl _⟩
      | read =>
        exact ⟨_, .answered ticket limit alarm plan p hd value hr (by rw [hk]; decide), hl.finish rfl _⟩

theorem pickUp_leaves {ticket : Ticket} (limit : Option Nat) (alarm : Option Alarm) (purpose : Purpose)
    {delivery : Except LinkError Packet} (hd : h.link.delivery? ticket.id = some delivery) :
    ∃ m, CallMove h c (.awaiting ticket limit alarm purpose) m ∧
      h.Leaves c m (h.pickUp c ticket purpose delivery) := by
  cases delivery with
  | ok p => exact concludeExchange_leaves limit alarm purpose hd
  | error err =>
    have hl := (Leaves.refl h c).setLink (h.link.withdraw ticket.id)
    obtain ⟨m, hf, hm⟩ := failExchange_leaves hl rfl rfl purpose err
    exact ⟨m, .failed ticket limit alarm purpose err hd hf, hm⟩

/-- Where a wait is over without its packet, the second look finds what the first has found: nobody acts in between. -/
theorem waitStep_timedOut {ticket : Ticket} {alarm : Alarm} (hd : h.link.delivery? ticket.id = none)
    (ha : alarm.due ≤ h.now) (c : Call) (limit : Option Nat) (purpose : Purpose) :
    h.waitStep c ticket limit (some alarm) purpose = some ((({ h with
      link := { h.link.withdraw ticket.id with
        metrics := { h.link.metrics with timeouts := h.link.metrics.timeouts + 1 } } } : Host).remark (.call c.id)
          (.noReply ticket.type (limit.getD 0))).failExchange c purpose .timeout) := by
  have hd' : ({ h.link with table := h.link.table.cancel ticket.id } : Link).delivery? ticket.id = none := hd
  simp only [waitStep, hd, hd', if_pos ha, remark, note, updateMetrics, Link.withdraw, WaitTable.cancel_cancel]

theorem waitStep_leaves {h' : Host} {ticket : Ticket} {limit : Option Nat} {alarm : Option Alarm} {purpose : Purpose}
    (e : h.waitStep c ticket limit alarm purpose = some h') :
    ∃ m, CallMove h c (.awaiting ticket limit alarm purpose) m ∧ h.Leaves c m h' := by
  cases hd : h.link.delivery? ticket.id with
  | some delivery =>
    simp only [waitStep, hd] at e
    obtain rfl := Option.some.inj e
    exact pickUp_leaves limit alarm purpose hd
  | none =>
    cases alarm with
    | none =>
      simp only [waitStep, hd] at e
      cases e
    | some alarm =>
      by_cases ha : alarm.due ≤ h.now
      · rw [waitStep_timedOut hd ha] at e
        obtain rfl := Option.some.inj e
        have hn := (((Leaves.refl h c).setLink (h.link.withdraw ticket.id)).setLink { h.link.withdraw ticket.id with
          metrics := { h.link.metrics with timeouts := h.link.metrics.timeouts + 1 } }).note
          (.logged (.noReply ticket.type (limit.getD 0)))
        obtain ⟨m, hf, hm⟩ := failExchange_leaves hn rfl rfl purpose .timeout
        exact ⟨m, .timedOut ticket limit alarm purpose hd ha hf, hm⟩
      · simp only [waitStep, hd, if_neg ha] at e
        cases e

theorem becomeOperational_leaves (h : Host) (c : Call) (d : Descriptor) : h.Leaves c
    ⟨h.link, { h.session with operationalSince := some h.now, phase := .operational },
      phaseChange h.session.phase .operational ++ (List.range h.session.observers).reverse.map (.discovered · d),
      .stays⟩ (h.becomeOperational c d) := by
  have ht : h.Leaves c ⟨h.link, h.session, (List.range h.session.observers).reverse.map (.discovered · d), .stays⟩
      (h.tellObservers (.call c.id) (.discovered · d)) := by
    rw [tellObservers_eq]
    refine ⟨rfl, rfl, rfl, ?_, rfl, rfl, rfl, rfl, rfl, .inl rfl⟩
    simp [Move.happenings, Function.comp_def]
  have hp := (ht.setSession { h.session with operationalSince := some h.now }).setPhase .operational
  unfold becomeOperational
  rw [tellObservers_eq] at hp ⊢
  exact hp

theorem completeStart_leaves (h : Host) (c : Call) (d : Descriptor) :
    ∃ m, CallMove h c (.registering d [] none) m ∧ h.Leaves c m (h.completeStart c d) := by
  have ho := becomeOperational_leaves h c d
  have hf := (ho.setLink { h.link with forwarding := true }).finish rfl (.ok (.device d))
  refine ⟨_, .started d, ?_⟩
  unfold completeStart forward
  rw [ho.link]
  exact hf

theorem registerStep_leaves {h' : Host} {d : Descriptor} {todo : List TwinCall} {pending : Option Pending}
    (e : h.registerStep c d todo pending = some h') :
    ∃ m, CallMove h c (.registering d todo pending) m ∧ h.Leaves c m h' := by
  have hl := Leaves.refl h c
  unfold registerStep at e
  cases pending with
  | none =>
    cases todo with
    | nil =>
      obtain rfl := Option.some.inj e
      exact completeStart_leaves h c d
    | cons call todo =>
      obtain rfl := Option.some.inj e
      exact ⟨_, .asked d call todo, (hl.askTwin call).setPoint _⟩
  | some pending =>
    cases todo with
    | nil =>
      obtain rfl := Option.some.inj e
      exact ⟨_, .skipped d pending, hl.setPoint _⟩
    | cons call todo =>
      simp only [] at e
      split at e
      · rename_i ha
        cases hr : pending.refusal <;> rw [hr] at e <;> obtain rfl := Option.some.inj e
        case some text => exact ⟨_, .refused d call todo pending ha text hr, failHandshake_leaves hl _⟩
        case none => exact ⟨_, .registered d call todo pending ha hr, hl.setPoint _⟩
      · cases e

theorem updateStep_leaves {h' : Host} {plan : Plan} {value : String} {pending : Pending}
    (e : h.updateStep c plan value pending = some h') :
    ∃ m, CallMove h c (.updating plan value pending) m ∧ h.Leaves c m h' := by
  have hl := Leaves.refl h c
  unfold updateStep at e
  split at e
  · rename_i ha
    refine ⟨_, .updated plan value pending ha, ?_⟩
    cases hr : pending.refusal <;> rw [hr] at e <;> obtain rfl := Option.some.inj e
    case none => exact hl.finish rfl _
    case some text => exact (hl.note _).finish rfl _
  · cases e

theorem shutStep_leaves {h' : Host} {answer : Answer} (e : h.shutStep c answer = some h') :
    ∃ m, CallMove h c (.shutting answer) m ∧ h.Leaves c m h' := by
  unfold shutStep at e
  generalize ho : h.link.commands.offer (.call c.id) .shutdown = o at e
  obtain ⟨commands, admission⟩ := o
  have hl := (Leaves.refl h c).setLink { h.link with commands := commands }
  cases admission with
  | admitted =>
    obtain rfl := Option.some.inj e
    exact ⟨_, .told answer ho, (hl.wake .loop).finish rfl _⟩
  | queued =>
    obtain rfl := Option.some.inj e
    exact ⟨_, .telling answer ho, hl⟩
  | waiting => cases e
  | refused =>
    obtain rfl := Option.some.inj e
    obtain ⟨hcl, rfl⟩ := h.link.commands.offer_refused ho
    exact ⟨_, .untold answer hcl, (Leaves.refl h c).finish rfl _⟩

theorem pointStep_move {h' : Host} (e : h.pointStep c = some h') :
    ∃ m, CallMove h c c.point m ∧ h.Leaves c m h' := by
  unfold pointStep at e
  cases hp : c.point with
  | begun request =>
    rw [hp] at e
    obtain rfl := Option.some.inj e
    obtain ⟨m, hm, hl⟩ := beginCall_leaves h c request
    exact ⟨m, .begin hm, hl⟩
  | inLine plan => rw [hp] at e; exact lockStep_leaves e
  | entering frame ticket limit purpose => rw [hp] at e; exact enterStep_leaves e
  | writing ticket limit purpose => rw [hp] at e; exact writeStep_leaves e
  | awaiting ticket limit alarm purpose => rw [hp] at e; exact waitStep_leaves e
  | pausing alarm stage retries =>
    rw [hp] at e
    simp only [] at e
    split at e
    · rename_i ha
      obtain rfl := Option.some.inj e
      obtain ⟨m, hm, hl⟩ := attempt_leaves (Leaves.refl h c) stage retries
      exact ⟨m, .paused alarm stage retries ha hm, hl⟩
    · cases e
  | registering d todo pending => rw [hp] at e; exact registerStep_leaves e
  | updating plan value pending => rw [hp] at e; exact updateStep_leaves e
  | shutting answer => rw [hp] at e; exact shutStep_leaves e

/-- **A step of a call is one of its moves.** -/
theorem callStep_move {id : Nat} {h' : Host} (e : h.callStep id = some h') :
    ∃ c m, h.call? id = some c ∧ CallMove h c c.point m ∧ h.Leaves c m h' := by
  obtain ⟨c, hc, e⟩ := Option.bind_eq_some_iff.mp e
  obtain ⟨m, hm, hl⟩ := pointStep_move e
  exact ⟨c, m, hc, hm, hl⟩

end Host
end TwinLink
