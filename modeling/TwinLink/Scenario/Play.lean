import TwinLink.Scenario.Basic

/-!
# Playing scenarios

* `Play.perform p s` : one step, with what it gives at once;
* `Play.report p outcome` : what can be seen now and was not reported before;
* `playAll p steps` : every step and its report.
-/

namespace TwinLink.Scenario

/-- A bound on the turns taken in one step, far above what any step needs. -/
def patience : Nat := 1 <<< 32

namespace Play

/-- Let everyone act who can. -/
def settle (p : Play) : Play := { p with host := p.host.settle patience }

/-- Change the host and let everyone act who can. -/
def act (p : Play) (f : Host → Host) : Play × Outcome := ({ p with host := f p.host }.settle, .nothing)

/-- The same with the handle, if there still is one. -/
def actHeld (p : Play) (f : Host → Host) : Play × Outcome :=
  if p.host.held then p.act f else (p.settle, .impossible .gone)

/-- What prevents a step that makes a call. -/
def obstacle? (h : Host) (r : Request) : Option Obstacle :=
  if h.canMake r then none
  else match r with
    | .twinOperate _ => some .notBound
    | .await .. => some .noSuchLabel
    | _ => some .gone

/-- Make a call and label it. -/
def call (p : Play) (label : String) (r : Request) : Play × Outcome :=
  match obstacle? p.host r with
  | some o => (p.settle, .impossible o)
  | none =>
    let id := p.host.made
    { p with
      labels := (id, label) :: p.labels
      current := (label, id) :: p.current.filter fun x => x.1 != label }.act (·.make r)

/-- Take events until there is none or there are enough, letting everyone act after each. -/
def drain : (room : Nat) → (p : Play) → List Drained → Play × List Drained
  | 0, p, taken => (p, taken.reverse)
  | room + 1, p, taken =>
    match p.host.takeEvent? with
    | some (event, host) => drain room { p with host := host }.settle (.event event :: taken)
    | none => if p.host.link.loop = .gone then (p, (.finished :: taken).reverse) else (p, taken.reverse)

/-- A snapshot of the session. -/
def info (s : Session) : Info where
  portName := s.config.portName
  phase := s.phase
  deviceName := s.descriptor.map (·.displayName)
  version := s.descriptor.map (·.version)
  interfaces := (s.descriptor.map (·.interfaceIds)).getD []
  started := s.operationalSince.isSome

/-- One step, with what it gives at once. -/
def perform (p : Play) : Step → Play × Outcome
  | .device bytes =>
    if p.host.wire.hungUp then (p, .impossible .hungUp)
    else if p.host.wire.released then (p, .impossible .hostClosed)
    else p.act (·.receive bytes)
  | .hangUp => p.act Host.hangUp
  | .breakRead text => p.act (·.breakRead text)
  | .breakWrite text => p.act (·.breakWrite text)
  | .advance ms => ({ p with host := p.host.elapse patience (p.host.now + ms) patience }, .nothing)
  | .status => (p.settle, .nothing)
  | .call label r => p.call label r
  | .cancel label =>
    match p.current.lookup label with
    | none => (p, .impossible .noSuchLabel)
    | some id =>
      let running := (p.host.call? id).isSome
      ({ p with
        host := p.host.abandon id
        current := p.current.filter fun x => x.1 != label }.settle, .cancelled running)
  | .register label type matcher =>
    if p.host.held then
      match p.host.keepTicket type matcher with
      | .error e => (p, .failed e)
      | .ok (host, ticket) =>
        ({ p with host := host, tickets := (label, ticket) :: p.tickets }.settle, .registered ticket.type)
    else (p, .impossible .gone)
  | .wait label limit =>
    match p.tickets.lookup label with
    | none => (p, .impossible .noSuchLabel)
    | some ticket =>
      { p with tickets := p.tickets.filter fun x => x.1 != label }.call label (.await ticket limit)
  | .withdraw label =>
    match p.tickets.lookup label with
    | none => (p, .impossible .noSuchLabel)
    | some ticket =>
      { p with tickets := p.tickets.filter fun x => x.1 != label }.act (·.withdrawTicket ticket)
  | .forward on => p.actHeld (·.forward on)
  | .drain most =>
    if p.listening then
      let (p, events) := drain (most.getD patience) p []
      (p.settle, .drained events)
    else (p, .impossible .gone)
  | .dropListener => { p with listening := false }.act Host.dropListener
  | .dropHandle => p.act Host.dropHandle
  | .observe => p.actHeld Host.observe
  | .info => if p.host.held then (p, .info (info p.host.session)) else (p, .impossible .gone)
  | .descriptor => if p.host.held then (p, .descriptor p.host.session.descriptor) else (p, .impossible .gone)

/-! ## Reports -/

/-- A call that the twin refused leaves no trace of its own. -/
def leavesTrace (n : Note) : Bool :=
  match n.what with
  | .toldTwin _ verdict => verdict.accepts
  | _ => true

/-- What an actor did, in order, without how it ended. -/
def traceOf (notes : List Note) (actors : List Actor) : List Happening :=
  (notes.filter fun n => actors.contains n.actor).filterMap fun n => match n.what with
    | .answered _ => none
    | what => some what

/-- When and how a call ended, if that is among the notes. -/
def endingOf (notes : List Note) (actors : List Actor) : Option (Nat × Answer) :=
  (notes.filter fun n => actors.contains n.actor).findSome? fun n => match n.what with
    | .answered answer => some (n.time, answer)
    | _ => none

/-- The labels of the calls among the notes, in order, each once. -/
def labelsIn (p : Play) (notes : List Note) : List String :=
  ((notes.filterMap fun n => match n.actor with
    | .call id => p.labels.lookup id
    | _ => none).mergeSort fun a b => decide (a < b) || a == b).eraseDups

/-- The calls that go or went by a label. -/
def actorsOf (p : Play) (label : String) : List Actor :=
  (p.labels.filter fun x => x.2 == label).map fun x => .call x.1

/-- What can be seen now and was not reported before. -/
def report (p : Play) (outcome : Outcome) : Play × Report :=
  let h := p.host
  let notes := ((h.history.take (h.history.length - p.reportedNotes)).filter leavesTrace).reverse
  let closedByHost := p.closedByHost || (h.wire.released && !h.wire.hungUp)
  let running := h.link.loop ≠ .absent
  let table := if h.held ∧ running then some h.link.table else none
  let watching := p.watching || table.isSome
  let news := (p.labelsIn notes).map fun label =>
    ⟨label, traceOf notes (p.actorsOf label), endingOf notes (p.actorsOf label)⟩
  ({ p with
      reportedNotes := h.history.length
      reportedBytes := h.wire.outbound.length
      closedByHost := closedByHost
      watching := watching },
    { outcome := outcome
      calls := news
      loop := traceOf notes [.loop]
      dispatcher := traceOf notes [.dispatcher]
      written := h.wire.outbound.drop p.reportedBytes
      closedByHost := closedByHost
      phase := h.session.phase
      pending := table.map (·.entries.length)
      closed := table.map (·.closed.isSome)
      metrics := if watching then some h.link.metrics else none })

end Play

/-- Every step and its report. -/
def playAll (p : Play) : List Step → List Report
  | [] => []
  | s :: rest =>
    let (p, outcome) := p.perform s
    let (p, report) := p.report outcome
    report :: playAll p rest

/-- A scenario on a bare link. -/
def playLink (config : LinkConfig) (steps : List Step) : List Report :=
  playAll { host := .ofLink config } steps

/-- A scenario on a session. -/
def playSession (config : SessionConfig) (twin : Twin) (steps : List Step) : List Report :=
  playAll { host := .ofSession config twin } steps

end TwinLink.Scenario
