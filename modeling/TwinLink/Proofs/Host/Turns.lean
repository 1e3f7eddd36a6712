import TwinLink.Proofs.Host.Effects

/-!
# What one step of the receive loop or of the dispatcher can do

* `LoopMove` : what a step of the receive loop does to the byte stream, the link and the history, by the point where the
  loop stands; `Host.loopStep_move`;
* `Host.Claimed` : every registration in the table has a holder, so that what is looked up can be handed over;
* `DispatchMove` : what a step of the dispatcher does to the link, the session and the history; `Host.dispatchStep_move`.
-/

namespace TwinLink

/-! ## The receive loop -/

/-- The byte stream and the link after a step of the loop, and what it enters into the history, newest first. -/
structure LoopTurn where
  wire : Wire
  link : Link
  notes : List Happening

/-- The loop ends, the link being `l` by then. -/
def Host.loopEnd (h : Host) (l : Link) (reason : String) (notes : List Happening) : LoopTurn where
  wire := h.wire
  link := l.stopped reason (Host.refusals h.calls reason l.commands.queue)
  notes := .logged (.loopEnded reason) :: notes

/-- The link when a frame has been decoded and counted. -/
def Host.counted (h : Host) (loop : LoopPoint) : Link :=
  { h.link with
    loop := loop
    metrics := { h.link.metrics with
      framesReceived := h.link.metrics.framesReceived + 1, lastFrameAt := some h.now } }

/-- The moves of the receive loop by the point where it stands. -/
inductive LoopMove (h : Host) : LoopPoint → LoopTurn → Prop
  | readFailed (text : String) (hf : h.wire.readFault = some text) :
      LoopMove h .listening (h.loopEnd h.link ("read failed: " ++ text) [])
  | hungUp (hf : h.wire.readFault = none) (hi : h.wire.inbound = []) (hh : h.wire.hungUp) :
      LoopMove h .listening (h.loopEnd h.link "serial stream closed" [])
  | read (hf : h.wire.readFault = none) (hi : h.wire.inbound ≠ []) {d : Decoder} {frames : List Bytes}
      {fault : Option FrameError}
      (hd : h.link.decoder.feedChunk (h.wire.inbound.take h.link.readSize) = (d, frames, fault)) :
      LoopMove h .listening ⟨{ h.wire with inbound := h.wire.inbound.drop h.link.readSize },
        { h.link with
          decoder := d
          loop := .sorting frames fault
          metrics := { h.link.metrics with
            bytesRead := h.link.metrics.bytesRead + (h.wire.inbound.take h.link.readSize).length } }, []⟩
  | obeys {caller : Nat} {frame : Bytes} {commands : Channel LinkCommand} {woken : Option Actor}
      (hc : h.link.commands.take? = some (.write caller frame, commands, woken)) :
      LoopMove h .listening ⟨h.wire, { h.link with commands := commands, loop := .writing caller frame }, []⟩
  | told {commands : Channel LinkCommand} {woken : Option Actor}
      (hc : h.link.commands.take? = some (.shutdown, commands, woken)) :
      LoopMove h .listening (h.loopEnd { h.link with commands := commands } "transport closed by host" [])
  | deserted (hc : h.link.commands.take? = none) (ha : h.attached = false) :
      LoopMove h .listening (h.loopEnd h.link "transport closed by host" [])
  | sorted : LoopMove h (.sorting [] none) ⟨h.wire, { h.link with loop := .listening }, []⟩
  | misframed (e : FrameError) : LoopMove h (.sorting [] (some e))
      (h.loopEnd h.link ("frame error: " ++ e.message) [.logged (.framingFailed e)])
  | undecodable (frame : Bytes) (rest : List Bytes) (fault : Option FrameError) (e : FrameError)
      (hp : Packet.ofFrame frame = .error e) : LoopMove h (.sorting (frame :: rest) fault)
      ⟨h.wire, { h.link with loop := .sorting rest fault }, [.logged (.undecodable e)]⟩
  | matched (frame : Bytes) (rest : List Bytes) (fault : Option FrameError) (p : Packet)
      (hp : Packet.ofFrame frame = .ok p) {w : Waiter} {table : WaitTable}
      (hm : h.link.table.takeMatch? p = some (w, table)) : LoopMove h (.sorting (frame :: rest) fault)
      ⟨h.wire,
        { h.counted (.sorting rest fault) with
          table := table
          deliveries := h.link.deliveries ++ [(w.id, .ok p)]
          metrics := { (h.counted (.sorting rest fault)).metrics with
            matchedResponses := h.link.metrics.matchedResponses + 1 } }, []⟩
  | passed (frame : Bytes) (rest : List Bytes) (fault : Option FrameError) (p : Packet)
      (hp : Packet.ofFrame frame = .ok p) (hm : h.link.table.takeMatch? p = none) (hf : h.link.forwarding) :
      LoopMove h (.sorting (frame :: rest) fault)
      ⟨h.wire,
        { h.counted (.offering p rest fault) with
          metrics := { (h.counted (.offering p rest fault)).metrics with
            unsolicitedPackets := h.link.metrics.unsolicitedPackets + 1 } }, []⟩
  | dropped (frame : Bytes) (rest : List Bytes) (fault : Option FrameError) (p : Packet)
      (hp : Packet.ofFrame frame = .ok p) (hm : h.link.table.takeMatch? p = none) (hf : h.link.forwarding = false) :
      LoopMove h (.sorting (frame :: rest) fault)
      ⟨h.wire,
        { h.counted (.sorting rest fault) with
          metrics := { (h.counted (.sorting rest fault)).metrics with
            unsolicitedPackets := h.link.metrics.unsolicitedPackets + 1 } }, [.logged (.notForwarded p.type)]⟩
  | writeFailed (caller : Nat) (rest : Bytes) (text : String) (hf : h.wire.writeFault = some text) :
      LoopMove h (.writing caller rest) (h.loopEnd
        { h.link with receipts := h.link.receipts ++ Host.receiptFor h.calls caller (.error (.io text)) }
        ("write failed: " ++ text) [])
  | written (caller : Nat) (hf : h.wire.writeFault = none) : LoopMove h (.writing caller [])
      ⟨h.wire,
        { h.link with
          loop := .listening
          receipts := h.link.receipts ++ Host.receiptFor h.calls caller (.ok ())
          metrics := { h.link.metrics with framesSent := h.link.metrics.framesSent + 1 } }, []⟩
  | writes (caller : Nat) (rest : Bytes) (hf : h.wire.writeFault = none) (hr : rest ≠ []) (n : Nat)
      (hn : n = h.wire.room.getD rest.length) (h0 : n ≠ 0) : LoopMove h (.writing caller rest)
      ⟨{ h.wire with outbound := h.wire.outbound ++ rest.take n, room := h.wire.room.map (· - rest.length) },
        { h.link with loop := .writing caller (rest.drop n) }, []⟩
  | handed (p : Packet) (rest : List Bytes) (fault : Option FrameError) {events : Channel LinkEvent}
      (ho : h.link.events.offer .loop (.packet p) = (events, .admitted)) :
      LoopMove h (.offering p rest fault) ⟨h.wire, { h.link with events := events, loop := .sorting rest fault }, []⟩
  | unheard (p : Packet) (rest : List Bytes) (fault : Option FrameError) (hc : h.link.events.closed) :
      LoopMove h (.offering p rest fault) ⟨h.wire, { h.link with loop := .sorting rest fault }, []⟩
  | waits (p : Packet) (rest : List Bytes) (fault : Option FrameError) {events : Channel LinkEvent}
      (ho : h.link.events.offer .loop (.packet p) = (events, .queued)) :
      LoopMove h (.offering p rest fault) ⟨h.wire, { h.link with events := events }, []⟩
  | parts (reason : String) {events : Channel LinkEvent}
      (ho : h.link.events.offer .loop (.closed reason) = (events, .admitted)) : LoopMove h (.parting reason)
      ⟨{ h.wire with released := true }, { h.link with events := events, loop := .gone }, []⟩
  | partsUnheard (reason : String) (hc : h.link.events.closed) : LoopMove h (.parting reason)
      ⟨{ h.wire with released := true }, { h.link with loop := .gone }, []⟩
  | partsLater (reason : String) {events : Channel LinkEvent}
      (ho : h.link.events.offer .loop (.closed reason) = (events, .queued)) : LoopMove h (.parting reason)
      ⟨h.wire, { h.link with events := events }, []⟩

/-! ## The dispatcher -/

/-- The link and the session after a step of the dispatcher, and what it enters into the history, newest first. -/
structure DispatchTurn where
  link : Link
  session : Session
  notes : List Happening

/-- The moves of the dispatcher by the point where it stands. -/
inductive DispatchMove (h : Host) : DispatchPoint → DispatchTurn → Prop
  | deserted {event : LinkEvent} {events : Channel LinkEvent} {woken : Option Actor}
      (he : h.link.events.take? = some (event, events, woken)) (ha : h.attached = false) : DispatchMove h .listening
      ⟨{ h.link with events := events.discard.1 }, { h.session with dispatch := .gone }, []⟩
  | premature {p : Packet} {events : Channel LinkEvent} {woken : Option Actor}
      (he : h.link.events.take? = some (.packet p, events, woken)) (hp : h.session.phase ≠ .operational) :
      DispatchMove h .listening
      ⟨{ h.link with events := events }, h.session, [.logged (.premature p.type h.session.phase)]⟩
  | undescribed {p : Packet} {events : Channel LinkEvent} {woken : Option Actor}
      (he : h.link.events.take? = some (.packet p, events, woken)) (hd : h.session.descriptor = none)
      (hp : h.session.phase = .operational) :
      DispatchMove h .listening ⟨{ h.link with events := events }, h.session, []⟩
  | drops {p : Packet} {events : Channel LinkEvent} {woken : Option Actor}
      (he : h.link.events.take? = some (.packet p, events, woken)) (hp : h.session.phase = .operational)
      {d : Descriptor} (hd : h.session.descriptor = some d) {r : Remark} (hu : d.understand p = .error r) :
      DispatchMove h .listening ⟨{ h.link with events := events }, h.session, [.logged r]⟩
  | reports {p : Packet} {events : Channel LinkEvent} {woken : Option Actor}
      (he : h.link.events.take? = some (.packet p, events, woken)) (hp : h.session.phase = .operational)
      {d : Descriptor} (hd : h.session.descriptor = some d) {call : TwinCall} (hu : d.understand p = .ok call) :
      DispatchMove h .listening
      ⟨{ h.link with events := events }, { h.session.ask call with dispatch := .reporting call (h.answerTo call) },
        .toldTwin call (h.session.twin h.session.asked call)
          :: (List.range h.session.observers).reverse.map (.observed · call)⟩
  | ends {reason : String} {events : Channel LinkEvent} {woken : Option Actor}
      (he : h.link.events.take? = some (.closed reason, events, woken)) {notes : List Happening}
      (hn : notes = if h.session.phase = .faulted then []
        else phaseChange h.session.phase .faulted ++ [.logged (.connectionLost reason)]) :
      DispatchMove h .listening
      ⟨{ h.link with events := events.discard.1 }, { h.session with phase := .faulted, dispatch := .gone }, notes⟩
  | reported {call : TwinCall} {pending : Pending} (ha : pending.alarm.due ≤ h.now) :
      DispatchMove h (.reporting call pending)
      ⟨h.link, { h.session with dispatch := .listening },
        pending.refusal.elim [] fun text => [.logged (call.complaint text)]⟩

/-- Every registration in the table has its ticket among those held. -/
def Link.ClaimedBy (l : Link) (held : List Ticket) : Prop := ∀ w ∈ l.table.entries, w.ticket ∈ held

namespace Host

variable {h h' h₁ : Host}

/-! ## Steps of the receive loop -/

/-- `h'` is `h` after a turn of the receive loop, up to who will act. -/
structure LoopTurns (h : Host) (t : LoopTurn) (h' : Host) : Prop where
  wire : h'.wire = t.wire
  link : h'.link = t.link
  history : h'.history = t.notes.map (⟨.loop, h.now, ·⟩) ++ h.history
  session : h'.session = h.session
  calls : h'.calls = h.calls
  now : h'.now = h.now
  made : h'.made = h.made
  held : h'.held = h.held
  tickets : h'.tickets = h.tickets

namespace LoopTurns

theorem refl (h : Host) : h.LoopTurns ⟨h.wire, h.link, []⟩ h := ⟨rfl, rfl, rfl, rfl, rfl, rfl, rfl, rfl, rfl⟩

theorem wakes {t : LoopTurn} (ht : h.LoopTurns t h₁) (ready : List Actor) :
    h.LoopTurns t { h₁ with ready := ready } :=
  ⟨ht.wire, ht.link, ht.history, ht.session, ht.calls, ht.now, ht.made, ht.held, ht.tickets⟩

theorem setLink {w : Wire} {l : Link} {notes : List Happening} (ht : h.LoopTurns ⟨w, l, notes⟩ h₁) (l' : Link) :
    h.LoopTurns ⟨w, l', notes⟩ { h₁ with link := l' } :=
  ⟨ht.wire, rfl, ht.history, ht.session, ht.calls, ht.now, ht.made, ht.held, ht.tickets⟩

theorem remark {w : Wire} {l : Link} {notes : List Happening} (ht : h.LoopTurns ⟨w, l, notes⟩ h₁) (r : Remark) :
    h.LoopTurns ⟨w, l, .logged r :: notes⟩ (h₁.remark .loop r) := by
  refine ⟨ht.wire, ht.link, ?_, ht.session, ht.calls, ht.now, ht.made, ht.held, ht.tickets⟩
  show ⟨.loop, h₁.now, .logged r⟩ :: h₁.history = _
  rw [ht.history, ht.now]
  rfl

theorem stopLoop {l : Link} {notes : List Happening} (ht : h.LoopTurns ⟨h.wire, l, notes⟩ h₁) (reason : String) :
    h.LoopTurns (h.loopEnd l reason notes) (h₁.stopLoop reason) := by
  have hl : h₁.link = l := ht.link
  have hc : h₁.calls = h.calls := ht.calls
  generalize hs : h₁.stopLoop reason = h₂
  obtain ⟨r, rfl⟩ := stopLoop_eq hs
  have hn := ht.remark (.loopEnded reason)
  refine ⟨hn.wire, ?_, hn.history, hn.session, hn.calls, hn.now, hn.made, hn.held, hn.tickets⟩
  show h₁.link.stopped reason (refusals h₁.calls reason h₁.link.commands.queue) = _
  rw [hl, hc]
  rfl

end LoopTurns

theorem readInput_move (e : h.readInput = some h') : ∃ t, LoopMove h .listening t ∧ h.LoopTurns t h' := by
  unfold readInput at e
  cases hf : h.wire.readFault with
  | some text =>
    rw [hf] at e
    obtain rfl := Option.some.inj e
    exact ⟨_, .readFailed text hf, (LoopTurns.refl h).stopLoop _⟩
  | none =>
    rw [hf] at e
    simp only [] at e
    split at e
    · rename_i hi
      split at e
      · obtain rfl := Option.some.inj e
        exact ⟨_, .hungUp hf (by simpa using hi) ‹_›, (LoopTurns.refl h).stopLoop _⟩
      · cases e
    · rename_i hi
      generalize hd : h.link.decoder.feedChunk _ = r at e
      obtain ⟨d, frames, fault⟩ := r
      obtain rfl := Option.some.inj e
      exact ⟨_, .read hf (by simpa using hi) hd, rfl, rfl, rfl, rfl, rfl, rfl, rfl, rfl, rfl⟩

theorem obeyCommand_move (e : h.obeyCommand = some h') : ∃ t, LoopMove h .listening t ∧ h.LoopTurns t h' := by
  unfold obeyCommand at e
  cases hc : h.link.commands.take? with
  | none =>
    rw [hc] at e
    simp only [] at e
    split at e
    · cases e
    · obtain rfl := Option.some.inj e
      rename_i ha
      exact ⟨_, .deserted hc (by simpa using ha), (LoopTurns.refl h).stopLoop _⟩
  | some x =>
    obtain ⟨command, commands, woken⟩ := x
    rw [hc] at e
    simp only [] at e
    generalize hw : wake? _ woken = h₁ at e
    obtain ⟨r, rfl⟩ := wake?_eq hw
    have ht := ((LoopTurns.refl h).setLink { h.link with commands := commands }).wakes r
    cases command with
    | write caller frame =>
      obtain rfl := Option.some.inj e
      exact ⟨_, .obeys hc, ht.setLink _⟩
    | shutdown =>
      obtain rfl := Option.some.inj e
      exact ⟨_, .told hc, ht.stopLoop _⟩

/-- Every registration in the table has a holder. -/
def Claimed (h : Host) : Prop := h.link.ClaimedBy h.live

/-- Whoever is found in the table is still there to be given the packet. -/
theorem Claimed.handOver_eq (hc : h.Claimed) {p : Packet} {w : Waiter} (e : h.lookUp p = some (w, h')) :
    ∃ table ready, h.link.table.takeMatch? p = some (w, table) ∧
      h'.handOver w p = some { h with
        link := { h.link with
          table := table
          deliveries := h.link.deliveries ++ [(w.id, .ok p)]
          metrics := { h.link.metrics with matchedResponses := h.link.metrics.matchedResponses + 1 } }
        ready := ready } := by
  obtain ⟨⟨v, table⟩, hm, he⟩ := Option.map_eq_some_iff.mp e
  obtain ⟨rfl, rfl⟩ : v = w ∧ _ = h' := by simpa using he
  have hlive : h.live.contains v.ticket := List.contains_iff_mem.mpr (hc v (WaitTable.takeMatch_sublist hm).1)
  generalize hd : deliver { h with link := { h.link with table := table } } v.id (.ok p) = h₁
  obtain ⟨ready, rfl⟩ := deliver_eq hd
  refine ⟨table, ready, hm, ?_⟩
  unfold handOver
  rw [show live { h with link := { h.link with table := table } } = h.live from rfl, if_pos hlive, hd]
  rfl

theorem passOn_move {p : Packet} {frame : Bytes} (rest : List Bytes) (fault : Option FrameError)
    (hp : Packet.ofFrame frame = .ok p) (hm : h.link.table.takeMatch? p = none)
    (ht : h.LoopTurns ⟨h.wire, h.counted (.sorting rest fault), []⟩ h₁) :
    ∃ t, LoopMove h (.sorting (frame :: rest) fault) t ∧ h.LoopTurns t (h₁.passOn p rest fault) := by
  unfold passOn
  dsimp only [updateMetrics]
  rw [ht.link]
  split
  · exact ⟨_, .passed frame rest fault p hp hm ‹_›, ht.setLink _⟩
  · rename_i hf
    exact ⟨_, .dropped frame rest fault p hp hm (eq_false_of_ne_true hf), (ht.setLink _).remark _⟩

/-- Where every registration has a holder, a packet for one of them is always handed over. -/
theorem sortFrame_move (hc : h.Claimed) (frame : Bytes) (rest : List Bytes) (fault : Option FrameError) :
    ∃ t, LoopMove h (.sorting (frame :: rest) fault) t ∧ h.LoopTurns t (h.sortFrame frame rest fault) := by
  have ht := LoopTurns.refl h
  unfold sortFrame
  cases hp : Packet.ofFrame frame with
  | error e => exact ⟨_, .undecodable frame rest fault e hp, (ht.setLink _).remark _⟩
  | ok p =>
    dsimp only
    generalize hr : updateMetrics _ _ = h₁
    have ht₁ : h.LoopTurns ⟨h.wire, h.counted (.sorting rest fault), []⟩ h₁ := hr ▸ ht.setLink _
    have hc₁ : h₁.Claimed := hr ▸ hc
    have htable : h₁.link.table = h.link.table := by rw [ht₁.link]; rfl
    cases hm : h₁.lookUp p with
    | none =>
      have hm : h.link.table.takeMatch? p = none := by simpa [lookUp, htable] using hm
      exact passOn_move rest fault hp hm ht₁
    | some x =>
      obtain ⟨w, h₂⟩ := x
      obtain ⟨table, ready, htake, he⟩ := hc₁.handOver_eq hm
      dsimp only
      rw [he, Option.getD_some]
      rw [htable] at htake
      rw [ht₁.link]
      exact ⟨_, .matched frame rest fault p hp htake, (ht₁.setLink _).wakes ready⟩

theorem writeFrame_move {caller : Nat} {rest : Bytes} (e : h.writeFrame caller rest = some h') :
    ∃ t, LoopMove h (.writing caller rest) t ∧ h.LoopTurns t h' := by
  have ht := LoopTurns.refl h
  unfold writeFrame at e
  cases hf : h.wire.writeFault with
  | some text =>
    rw [hf] at e
    simp only [] at e
    generalize hr : h.report caller _ = h₁ at e
    obtain ⟨r, rfl⟩ := report_eq hr
    obtain rfl := Option.some.inj e
    exact ⟨_, .writeFailed caller rest text hf, ((ht.setLink _).wakes r).stopLoop _⟩
  | none =>
    rw [hf] at e
    simp only [] at e
    split at e
    · rename_i hr
      obtain rfl : rest = [] := by simpa using hr
      generalize hr : report _ caller _ = h₁ at e
      obtain ⟨r, rfl⟩ := report_eq hr
      obtain rfl := Option.some.inj e
      exact ⟨_, .written caller hf, (ht.setLink _).wakes r⟩
    · rename_i hr
      split at e
      · cases e
      · rename_i h0
        obtain rfl := Option.some.inj e
        exact ⟨_, .writes caller rest hf (by simpa using hr) _ rfl h0, rfl, rfl, rfl, rfl, rfl, rfl, rfl, rfl, rfl⟩

/-- How an offer of an event goes, and where the loop stands after it. -/
theorem offerEvent_cases {event : LinkEvent} {next : LoopPoint} (e : h.offerEvent event next = some h') :
    (∃ events, h.link.events.offer .loop event = (events, .admitted) ∧
      h.LoopTurns ⟨h.wire, { h.link with events := events, loop := next }, []⟩ h' ∧ h'.link.loop = next) ∨
    (h.link.events.closed ∧ h.LoopTurns ⟨h.wire, { h.link with loop := next }, []⟩ h') ∨
    (∃ events, h.link.events.offer .loop event = (events, .queued) ∧
      h.LoopTurns ⟨h.wire, { h.link with events := events }, []⟩ h') := by
  have ht := LoopTurns.refl h
  unfold offerEvent at e
  generalize ho : h.link.events.offer .loop event = o at e
  obtain ⟨events, admission⟩ := o
  cases admission with
  | admitted =>
    obtain rfl := Option.some.inj e
    generalize hw : wake _ Actor.dispatcher = h₁
    obtain ⟨r, rfl⟩ := wake_eq hw
    exact .inl ⟨events, rfl, (ht.setLink _).wakes r, rfl⟩
  | queued =>
    obtain rfl := Option.some.inj e
    exact .inr (.inr ⟨events, rfl, ht.setLink _⟩)
  | waiting => cases e
  | refused =>
    obtain rfl := Option.some.inj e
    obtain ⟨hc, rfl⟩ := h.link.events.offer_refused ho
    exact .inr (.inl ⟨hc, ht.setLink _⟩)

/-- **A step of the receive loop is one of its moves.** -/
theorem loopStep_move (hc : h.Claimed) {inputFirst : Bool} (e : h.loopStep inputFirst = some h') :
    ∃ t, LoopMove h h.link.loop t ∧ h.LoopTurns t h' := by
  have ht := LoopTurns.refl h
  unfold loopStep at e
  cases hl : h.link.loop with
  | absent => rw [hl] at e; cases e
  | gone => rw [hl] at e; cases e
  | listening =>
    rw [hl] at e
    cases inputFirst with
    | true =>
      simp only [if_true, Option.orElse_eq_orElse, Option.orElse_eq_or, Option.or_eq_some_iff] at e
      exact e.elim readInput_move fun e => obeyCommand_move e.2
    | false =>
      simp only [Bool.false_eq_true, if_false, Option.orElse_eq_orElse, Option.orElse_eq_or,
        Option.or_eq_some_iff] at e
      exact e.elim obeyCommand_move fun e => readInput_move e.2
  | sorting frames fault =>
    rw [hl] at e
    cases frames with
    | cons frame rest =>
      obtain rfl := Option.some.inj e
      exact sortFrame_move hc frame rest fault
    | nil =>
      cases fault with
      | none =>
        obtain rfl := Option.some.inj e
        exact ⟨_, .sorted, ht.setLink _⟩
      | some err =>
        obtain rfl := Option.some.inj e
        exact ⟨_, .misframed err, (ht.remark _).stopLoop _⟩
  | writing caller rest => rw [hl] at e; exact writeFrame_move e
  | offering p rest fault =>
    rw [hl] at e
    obtain ⟨events, ho, ht, -⟩ | ⟨hc, ht⟩ | ⟨events, ho, ht⟩ := offerEvent_cases e
    · exact ⟨_, .handed p rest fault ho, ht⟩
    · exact ⟨_, .unheard p rest fault hc, ht⟩
    · exact ⟨_, .waits p rest fault ho, ht⟩
  | parting reason =>
    rw [hl] at e
    simp only [Option.map_eq_some_iff] at e
    obtain ⟨h₁, e, rfl⟩ := e
    -- only a loop that is gone gives up the byte stream
    have hrel : ∀ {l : Link}, l.loop = .gone → h.LoopTurns ⟨h.wire, l, []⟩ h₁ →
        h.LoopTurns ⟨{ h.wire with released := true }, l, []⟩ h₁.releaseWire := fun _ ht =>
      ⟨by show { h₁.wire with released := true } = _; rw [ht.wire], ht.link, ht.history, ht.session, ht.calls, ht.now,
        ht.made, ht.held, ht.tickets⟩
    obtain ⟨events, ho, ht, -⟩ | ⟨hc, ht⟩ | ⟨events, ho, ht⟩ := offerEvent_cases e
    · rw [ht.link]
      exact ⟨_, .parts reason ho, hrel rfl ht⟩
    · rw [ht.link]
      exact ⟨_, .partsUnheard reason hc, hrel rfl ht⟩
    · rw [ht.link]
      dsimp only
      rw [hl]
      exact ⟨_, .partsLater reason ho, ht⟩

/-! ## Steps of the dispatcher -/

/-- `h'` is `h` after a turn of the dispatcher, up to who will act. -/
structure DispatchTurns (h : Host) (t : DispatchTurn) (h' : Host) : Prop where
  link : h'.link = t.link
  session : h'.session = t.session
  history : h'.history = t.notes.map (⟨.dispatcher, h.now, ·⟩) ++ h.history
  calls : h'.calls = h.calls
  now : h'.now = h.now
  made : h'.made = h.made
  held : h'.held = h.held
  tickets : h'.tickets = h.tickets
  wire : h'.wire = { h.wire with released := h'.wire.released }
  released : h'.wire.released = h.wire.released ∨ h'.wire.released = true ∧ h.link.loop = .absent

namespace DispatchTurns

variable {l : Link} {s : Session} {notes : List Happening}

theorem refl (h : Host) : h.DispatchTurns ⟨h.link, h.session, []⟩ h :=
  ⟨rfl, rfl, rfl, rfl, rfl, rfl, rfl, rfl, rfl, .inl rfl⟩

theorem wakes {t : DispatchTurn} (ht : h.DispatchTurns t h₁) (serial : Nat) (ready : List Actor) :
    h.DispatchTurns t { h₁ with serial := serial, ready := ready } :=
  ⟨ht.link, ht.session, ht.history, ht.calls, ht.now, ht.made, ht.held, ht.tickets, ht.wire, ht.released⟩

theorem setLink (ht : h.DispatchTurns ⟨l, s, notes⟩ h₁) (l' : Link) :
    h.DispatchTurns ⟨l', s, notes⟩ { h₁ with link := l' } :=
  ⟨rfl, ht.session, ht.history, ht.calls, ht.now, ht.made, ht.held, ht.tickets, ht.wire, ht.released⟩

theorem setSession (ht : h.DispatchTurns ⟨l, s, notes⟩ h₁) (s' : Session) :
    h.DispatchTurns ⟨l, s', notes⟩ { h₁ with session := s' } :=
  ⟨ht.link, rfl, ht.history, ht.calls, ht.now, ht.made, ht.held, ht.tickets, ht.wire, ht.released⟩

theorem note (ht : h.DispatchTurns ⟨l, s, notes⟩ h₁) (what : Happening) :
    h.DispatchTurns ⟨l, s, what :: notes⟩ (h₁.note .dispatcher what) := by
  refine ⟨ht.link, ht.session, ?_, ht.calls, ht.now, ht.made, ht.held, ht.tickets, ht.wire, ht.released⟩
  show ⟨.dispatcher, h₁.now, what⟩ :: h₁.history = _
  rw [ht.history, ht.now]
  rfl

theorem endDispatch (ht : h.DispatchTurns ⟨l, s, notes⟩ h₁) :
    h.DispatchTurns ⟨{ l with events := l.events.discard.1 }, { s with dispatch := .gone }, notes⟩ h₁.endDispatch := by
  have hl : h₁.link = l := ht.link
  have hs : h₁.session = s := ht.session
  generalize he : h₁.endDispatch = h₂
  obtain ⟨r, rfl⟩ := wakeAll_eq he
  rw [← hl, ← hs] at ht ⊢
  exact ((ht.setLink _).setSession _).wakes h₁.serial r

theorem dispatchEnd (ht : h.DispatchTurns ⟨l, h.session, []⟩ h₁) (reason : String) :
    h.DispatchTurns ⟨{ l with events := l.events.discard.1 },
        { h.session with phase := .faulted, dispatch := .gone },
        if h.session.phase = .faulted then []
          else phaseChange h.session.phase .faulted ++ [.logged (.connectionLost reason)]⟩
      (h₁.dispatchEnd reason) := by
  have hs : h₁.session = h.session := ht.session
  unfold Host.dispatchEnd
  rw [hs]
  dsimp only
  split
  · rename_i hp
    rw [← hp]
    exact ht.endDispatch
  · have hn := ht.note (.logged (.connectionLost reason))
    have hp : h.DispatchTurns ⟨l, { h.session with phase := .faulted },
        phaseChange h.session.phase .faulted ++ [.logged (.connectionLost reason)]⟩
        ((h₁.remark .dispatcher (.connectionLost reason)).setPhase .dispatcher .faulted) := by
      have hr : (h₁.remark .dispatcher (.connectionLost reason)).session = h.session := hn.session
      rw [setPhase_eq, hr]
      refine ⟨hn.link, rfl, ?_, hn.calls, hn.now, hn.made, hn.held, hn.tickets, hn.wire, hn.released⟩
      show _ ++ (h₁.note .dispatcher _).history = _
      rw [hn.history]
      show _ ++ _ = _
      rw [show (h₁.remark .dispatcher (.connectionLost reason)).now = h.now from hn.now]
      simp
    exact hp.endDispatch

end DispatchTurns

/-- An unsolicited packet has been taken from the event channel. -/
theorem dispatchPacket_move {p : Packet} {events : Channel LinkEvent} {woken : Option Actor}
    (he : h.link.events.take? = some (.packet p, events, woken))
    (ht : h.DispatchTurns ⟨{ h.link with events := events }, h.session, []⟩ h₁) (hserial : h₁.serial = h.serial) :
    ∃ t, DispatchMove h .listening t ∧ h.DispatchTurns t (h₁.dispatchPacket p) := by
  have hs : h₁.session = h.session := ht.session
  unfold dispatchPacket
  rw [hs]
  split
  · rename_i hp
    cases hd : h.session.descriptor with
    | none => exact ⟨_, .undescribed he hd hp, ht⟩
    | some d =>
      dsimp only
      cases hu : d.understand p with
      | error r => exact ⟨_, .drops he hp hd hu, ht.note _⟩
      | ok call =>
        refine ⟨_, .reports he hp hd hu, ?_⟩
        dsimp only
        rw [tellObservers_eq, hs]
        have hl := ht.link
        have hh := ht.history
        have hn := ht.now
        simp only [askTwin, note, setAlarm, setDispatch, hn]
        refine ⟨hl, ?_, ?_, ht.calls, rfl, ht.made, ht.held, ht.tickets, ht.wire, ht.released⟩
        · show _ = ({ h.session.ask call with dispatch := .reporting call (h.answerTo call) } : Session)
          unfold answerTo
          rw [← hserial]
          rfl
        · show _ :: (_ ++ h₁.history) = _
          rw [hh]
          simp [Function.comp_def]
  · exact ⟨_, .premature he ‹_›, ht.note _⟩

/-- **A step of the dispatcher is one of its moves.** -/
theorem dispatchStep_move (e : h.dispatchStep = some h') :
    ∃ t, DispatchMove h h.session.dispatch t ∧ h.DispatchTurns t h' := by
  unfold dispatchStep at e
  cases hd : h.session.dispatch with
  | absent => rw [hd] at e; cases e
  | gone => rw [hd] at e; cases e
  | listening =>
    rw [hd] at e
    cases he : h.link.events.take? with
    | none => rw [he] at e; cases e
    | some x =>
      obtain ⟨event, events, woken⟩ := x
      rw [he] at e
      simp only [] at e
      generalize hw : wake? _ woken = h₁ at e
      obtain ⟨r, rfl⟩ := wake?_eq hw
      have ht := ((DispatchTurns.refl h).setLink { h.link with events := events }).wakes h.serial r
      split at e
      · cases event with
        | packet p =>
          obtain rfl := Option.some.inj e
          exact dispatchPacket_move he ht rfl
        | closed reason =>
          obtain rfl := Option.some.inj e
          exact ⟨_, .ends he rfl, ht.dispatchEnd reason⟩
      · rename_i ha
        obtain rfl := Option.some.inj e
        exact ⟨_, .deserted he (eq_false_of_ne_true ha), ht.endDispatch⟩
  | reporting call pending =>
    rw [hd] at e
    simp only [] at e
    split at e
    · rename_i ha
      refine ⟨_, .reported ha, ?_⟩
      cases hp : pending.refusal <;> rw [hp] at e <;>
        obtain ⟨released, r, rfl, hr⟩ := checkAttached_eq (Option.some.inj e)
      · exact ⟨rfl, rfl, rfl, rfl, rfl, rfl, rfl, rfl, rfl, hr⟩
      · exact ⟨rfl, rfl, rfl, rfl, rfl, rfl, rfl, rfl, rfl, hr⟩
    · cases e

end Host
end TwinLink
