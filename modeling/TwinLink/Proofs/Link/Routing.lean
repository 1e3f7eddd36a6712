import TwinLink.Proofs.Frame.Chunk
import TwinLink.Proofs.Link.Edits

/-!
# Where frames go

Every frame goes to one place: to the oldest registration that accepts it, or else to the event channel if unmatched
packets are passed on and somebody listens, or else nowhere.

* `Moment.arrived`, `Moment.sorted`, `Moment.forwarded`, `Moment.taken` : what is seen of the link at a moment of a run:
  bytes from the device, a frame, a packet that is passed on, an event that the listener takes;
* `Routed m p` : where the packet `p` goes at the moment `m`;
* `Decoded`, `Passed`, `Counted` : what holds of the frames, the events and the counters after every run;
* `Setup.routing` : all of it, for every run of a link with or without a session.
-/

namespace TwinLink

/-! ## What is seen of a moment -/

/-- The frames of the read under way that are still to be sorted. -/
def LoopPoint.waiting : LoopPoint → List Bytes
  | .sorting frames _ => frames
  | .offering _ frames _ => frames
  | _ => []

/-- The frame that comes next. -/
def LoopPoint.next : LoopPoint → Option Bytes
  | .sorting (frame :: _) _ => some frame
  | _ => none

/-- The framing error, if there is one, that the read under way ends with. After the end of the loop there is no
telling. -/
def LoopPoint.fault? : LoopPoint → Option (Option FrameError)
  | .sorting _ fault => some fault
  | .offering _ _ fault => some fault
  | .parting _ => none
  | .gone => none
  | _ => some none

/-- The event that the loop cannot hand over yet. -/
def LoopPoint.held : LoopPoint → List LinkEvent
  | .offering p _ _ => [.packet p]
  | .parting reason => [.closed reason]
  | _ => []

namespace Moment

/-- Bytes that reach the host from the device. -/
def arrived (m : Moment) : Bytes :=
  match m.action with
  | .receive bytes => if m.host.wire.hungUp || m.host.wire.released then [] else bytes
  | _ => []

/-- The frame that the loop sorts. -/
def sorted (m : Moment) : Option Bytes :=
  match m.action with
  | .advance .loop _ => m.host.link.loop.next
  | _ => none

/-- The packet of a frame that nobody waits for, while such packets are passed on. -/
def forwarded (m : Moment) : Option Packet :=
  m.sorted.bind fun frame => match Packet.ofFrame frame with
    | .ok p => if m.host.link.forwarding && !m.host.link.table.entries.any (·.accepts p) then some p else none
    | .error _ => none

/-- The event that the listener takes, the application or the dispatcher. -/
def taken (m : Moment) : Option LinkEvent :=
  match m.action with
  | .takeEvent => m.host.takeEvent?.map (·.1)
  | .advance .dispatcher _ => match m.host.session.dispatch with
    | .listening => m.host.link.events.take?.map (·.1)
    | _ => none
  | _ => none

end Moment

/-- No packet is delivered to anyone, and none is counted. -/
structure Unsorted (l l' : Link) : Prop where
  deliveries : ∀ id p, (id, .ok p) ∈ l'.deliveries → (id, .ok p) ∈ l.deliveries
  framesReceived : l'.metrics.framesReceived = l.metrics.framesReceived
  matchedResponses : l'.metrics.matchedResponses = l.metrics.matchedResponses
  unsolicitedPackets : l'.metrics.unsolicitedPackets = l.metrics.unsolicitedPackets

/-- Where the packet of a frame goes. Registrations are numbered in the order they were opened. -/
inductive Routed (m : Moment) (p : Packet) : Prop
  /-- It is delivered to the first registration that accepts it, whose holder has not given up. The registration leaves
  the table, and nobody else gets the packet. -/
  | matched (w : Waiter) (hw : w ∈ m.host.link.table.entries) (ht : w.type = p.type) (hm : w.matcher.accepts p)
      (hl : w.ticket ∈ m.host.live)
      (hfirst : ∀ v ∈ m.host.link.table.entries, v.type = p.type → v.matcher.accepts p → w.id ≤ v.id)
      (hd : m.after.link.deliveries = m.host.link.deliveries ++ [(w.id, .ok p)])
      (he : m.after.link.table.entries = m.host.link.table.entries.erase w)
      (hf : m.forwarded = none) (hh : m.after.link.loop.held = [])
  /-- No registration accepts it, and it is passed on. -/
  | forwarded (hno : ∀ w ∈ m.host.link.table.entries, ¬(w.type = p.type ∧ w.matcher.accepts p))
      (hon : m.host.link.forwarding = true) (hd : m.after.link.deliveries = m.host.link.deliveries)
      (he : m.after.link.table = m.host.link.table) (hf : m.forwarded = some p)
      (hh : m.after.link.loop.held = [.packet p])
  /-- No registration accepts it, and it is dropped. -/
  | dropped (hno : ∀ w ∈ m.host.link.table.entries, ¬(w.type = p.type ∧ w.matcher.accepts p))
      (hoff : m.host.link.forwarding = false) (hd : m.after.link.deliveries = m.host.link.deliveries)
      (he : m.after.link.table = m.host.link.table) (hf : m.forwarded = none) (hh : m.after.link.loop.held = [])

theorem Waiter.accepts_iff (w : Waiter) (p : Packet) : w.accepts p ↔ w.type = p.type ∧ w.matcher.accepts p := by
  simp [accepts]

/-- A frame that is sorted is the first in hand. -/
theorem Moment.sorted_loop {m : Moment} {frame : Bytes} (hs : m.sorted = some frame) :
    ∃ rest fault i, m.host.link.loop = .sorting (frame :: rest) fault ∧ m.action = .advance .loop i ∧
      m.host.loopStep i = some (m.host.sortFrame frame rest fault) := by
  obtain ⟨h, a⟩ := m
  unfold sorted at hs
  split at hs
  · rename_i i ha
    dsimp only at ha hs
    unfold LoopPoint.next at hs
    split at hs
    · rename_i f rest fault hl
      cases hs
      refine ⟨rest, fault, i, hl, ha, ?_⟩
      show h.loopStep i = _
      unfold Host.loopStep
      rw [hl]
    · cases hs
  · cases hs

/-- A frame in hand is always sorted at once. -/
theorem Moment.sorted_move {m : Moment} {frame : Bytes} (hs : m.sorted = some frame) (hc : m.host.Claimed) :
    ∃ rest fault t, m.host.link.loop = .sorting (frame :: rest) fault ∧ LoopMove m.host m.host.link.loop t ∧
      m.host.LoopTurns t m.after := by
  obtain ⟨rest, fault, i, hl, ha, hstep⟩ := sorted_loop hs
  obtain ⟨t, hm, ht⟩ := Host.sortFrame_move hc frame rest fault
  refine ⟨rest, fault, t, hl, hl ▸ hm, ?_⟩
  have hafter : m.after = m.host.sortFrame frame rest fault := by
    rw [after, ha]
    show (m.host.loopStep i).getD m.host = _
    rw [hstep]
    rfl
  rw [hafter]
  exact ht

/-- Nothing is sorted, and nothing arrives, by an action that is not possible. -/
theorem Moment.refused {m : Moment} (hr : m.host.Refuses m.action) : m.sorted = none ∧ m.arrived = [] := by
  obtain ⟨h, a⟩ := m
  cases a with
  | receive bytes =>
    have hr : (h.wire.hungUp || h.wire.released) = true := hr
    exact ⟨rfl, by simp [arrived, hr]⟩
  | advance actor i =>
    refine ⟨?_, rfl⟩
    cases actor with
    | loop =>
      have hr : h.loopStep i = none := hr
      by_contra hne
      obtain ⟨frame, hs⟩ := Option.ne_none_iff_exists'.mp hne
      obtain ⟨rest, fault, j, -, ha, hstep⟩ := sorted_loop hs
      cases ha
      have hstep : h.loopStep i = some _ := hstep
      rw [hr] at hstep
      cases hstep
    | _ => rfl
  | _ => exact ⟨rfl, rfl⟩

theorem Moment.forwarded_eq {m : Moment} {frame : Bytes} {p : Packet} (hs : m.sorted = some frame)
    (hp : Packet.ofFrame frame = .ok p) : m.forwarded =
      if m.host.link.forwarding && !(m.host.link.table.takeMatch? p).isSome then some p else none := by
  unfold forwarded
  rw [hs, Option.bind_some, hp]
  dsimp only
  rw [WaitTable.any_accepts]

theorem Moment.forwarded_error {m : Moment} {frame : Bytes} {e : FrameError} (hs : m.sorted = some frame)
    (hp : Packet.ofFrame frame = .error e) : m.forwarded = none := by
  unfold forwarded
  rw [hs, Option.bind_some, hp]

theorem Moment.forwarded_none {m : Moment} (hs : m.sorted = none) : m.forwarded = none := by
  unfold forwarded
  rw [hs, Option.bind_none]

theorem Moment.refused_taken {m : Moment} (hr : m.host.Refuses m.action) : m.taken = none := by
  obtain ⟨h, a⟩ := m
  cases a with
  | takeEvent =>
    have hr : h.takeEvent? = none := hr
    simp [taken, hr]
  | advance actor i =>
    cases actor with
    | dispatcher =>
      have hr : h.dispatchStep = none := hr
      show (match h.session.dispatch with | .listening => h.link.events.take?.map (·.1) | _ => none) = none
      unfold Host.dispatchStep at hr
      split
      · rename_i hd
        rw [hd] at hr
        cases he : h.link.events.take? with
        | none => rfl
        | some x =>
          obtain ⟨event, events, woken⟩ := x
          rw [he] at hr
          simp only [] at hr
          split at hr
          · cases event <;> cases hr
          · cases hr
      · rfl
    | _ => rfl
  | _ => rfl

/-- **A frame that holds a packet goes to one place.** -/
theorem Moment.routed {m : Moment} {frame : Bytes} {p : Packet} (hs : m.sorted = some frame)
    (hp : Packet.ofFrame frame = .ok p) (ho : m.host.link.table.Ordered) (hc : m.host.Claimed) : Routed m p := by
  obtain ⟨rest, fault, t, hl, hm, ht⟩ := sorted_move hs hc
  rw [hl] at hm
  have hacc : ∀ w : Waiter, w.accepts p = false → ¬(w.type = p.type ∧ w.matcher.accepts p) := fun w hw hn => by
    rw [(w.accepts_iff p).mpr hn] at hw
    cases hw
  have hfw := forwarded_eq hs hp
  cases hm with
  | undecodable frame rest fault e hp' => rw [hp] at hp'; cases hp'
  | @matched frame rest fault q hq w table hm =>
    obtain rfl : p = q := by rw [hp] at hq; exact Except.ok.inj hq
    rw [hm] at hfw
    obtain ⟨hw, hacc, hfirst, rfl⟩ := ho.takeMatch hm
    refine .matched w hw ((w.accepts_iff p).mp hacc).1 ((w.accepts_iff p).mp hacc).2 (hc w hw)
      (fun v hv hvt hvm => hfirst v hv ((v.accepts_iff p).mpr ⟨hvt, hvm⟩)) (by rw [ht.link]) (by rw [ht.link]) ?_
      (by rw [ht.link]; rfl)
    rw [hfw]
    simp
  | passed frame rest fault q hq hm hon =>
    obtain rfl : p = q := by rw [hp] at hq; exact Except.ok.inj hq
    have hno := WaitTable.takeMatch_none hm
    refine .forwarded (fun w hw => hacc w (hno w hw)) hon (by rw [ht.link]; rfl) (by rw [ht.link]; rfl) ?_
      (by rw [ht.link]; rfl)
    rw [hfw, hon, hm]
    rfl
  | dropped frame rest fault q hq hm hoff =>
    obtain rfl : p = q := by rw [hp] at hq; exact Except.ok.inj hq
    have hno := WaitTable.takeMatch_none hm
    refine .dropped (fun w hw => hacc w (hno w hw)) hoff (by rw [ht.link]; rfl) (by rw [ht.link]; rfl) ?_
      (by rw [ht.link]; rfl)
    rw [hfw, hoff]
    rfl

/-! ## Frames -/

/-- All bytes that reached the host are read or still to be read, and the frames sorted so far, with those waiting, are
the frames that the bytes read hold. -/
def Decoded (limit : Nat) (arrived : Bytes) (sorted : List Bytes) (h : Host) : Prop :=
  ∃ (read : Bytes) (fault : Option FrameError), arrived = read ++ h.wire.inbound ∧
    (Decoder.ofLimit limit).feedChunk read = (h.link.decoder, sorted ++ h.link.loop.waiting, fault) ∧
    ∀ f, h.link.loop.fault? = some f → fault = f

namespace Decoded

variable {limit : Nat} {arrived : Bytes} {sorted : List Bytes} {h h' : Host} {a : Action}

/-- The decoder is not used, and the loop does not move. -/
theorem quiet (hd : Decoded limit arrived sorted h) (hi : h'.wire.inbound = h.wire.inbound)
    (hdec : h'.link.decoder = h.link.decoder) (hw : h'.link.loop.waiting = h.link.loop.waiting)
    (hf : ∀ f, h'.link.loop.fault? = some f → h.link.loop.fault? = some f) : Decoded limit arrived sorted h' := by
  obtain ⟨read, fault, harr, hread, hfault⟩ := hd
  exact ⟨read, fault, by rw [hi, harr], by rw [hdec, hw, hread], fun f hff => hfault f (hf f hff)⟩

theorem edits (hd : Decoded limit arrived sorted h) (hi : h'.wire.inbound = h.wire.inbound)
    (hf : Link.Edits.Frame h.link h'.link) : Decoded limit arrived sorted h' := by
  refine hd.quiet hi hf.decoder ?_ ?_
  · rcases hf.loop with hl | ⟨hl, hl'⟩
    · rw [hl]
    · rw [hl, hl']
      rfl
  · rcases hf.loop with hl | ⟨hl, hl'⟩
    · rw [hl]
      exact fun _ => id
    · rw [hl, hl']
      exact fun _ => id

theorem loop (hd : Decoded limit arrived sorted h) {t : LoopTurn} (hm : LoopMove h h.link.loop t)
    (ht : h.LoopTurns t h') : Decoded limit arrived (sorted ++ h.link.loop.next.toList) h' := by
  have hwire := ht.wire
  have hlink := ht.link
  -- every case but a read and the four ways to sort a frame leaves decoder and frames alone
  have hquiet : h.link.loop.next = none → t.wire.inbound = h.wire.inbound → t.link.decoder = h.link.decoder →
      t.link.loop.waiting = h.link.loop.waiting →
      (∀ f, t.link.loop.fault? = some f → h.link.loop.fault? = some f) →
      Decoded limit arrived (sorted ++ h.link.loop.next.toList) h' := by
    intro hn hi hdec hw hf
    rw [hn, Option.toList_none, List.append_nil]
    exact hd.quiet (by rw [hwire, hi]) (by rw [hlink, hdec]) (by rw [hlink, hw]) (by rw [hlink]; exact hf)
  have hsort : ∀ frame rest fault, h.link.loop = .sorting (frame :: rest) fault → t.wire.inbound = h.wire.inbound →
      t.link.decoder = h.link.decoder → t.link.loop.waiting = rest → t.link.loop.fault? = some fault →
      Decoded limit arrived (sorted ++ h.link.loop.next.toList) h' := by
    intro frame rest fault hl hi hdec hw hf
    obtain ⟨read, fault', harr, hread, hfault⟩ := hd
    rw [hl] at hread hfault ⊢
    refine ⟨read, fault', by rw [hwire, hi, harr], ?_, fun f hff => ?_⟩
    · rw [hread, hlink, hdec, hw]
      simp [LoopPoint.waiting, LoopPoint.next]
    · rw [hlink, hf] at hff
      exact hfault f hff
  generalize hl : h.link.loop = p at hm hquiet
  cases hm with
  | @read hf hi d frames fault hfeed =>
    obtain ⟨read, fault', harr, hread, hfault⟩ := hd
    rw [hl] at hread hfault
    obtain rfl : fault' = none := hfault none rfl
    refine ⟨read ++ h.wire.inbound.take h.link.readSize, fault, ?_, ?_, fun f hff => ?_⟩
    · rw [hwire, List.append_assoc, List.take_append_drop, harr]
    · rw [Decoder.feedChunk_append hread, hfeed, hlink]
      simp [LoopPoint.waiting, LoopPoint.next]
    · rw [hlink] at hff
      exact Option.some.inj hff
  | undecodable frame rest fault e hp => rw [← hl]; exact hsort frame rest fault hl rfl rfl rfl rfl
  | matched frame rest fault p hp hm => rw [← hl]; exact hsort frame rest fault hl rfl rfl rfl rfl
  | passed frame rest fault p hp hm hf => rw [← hl]; exact hsort frame rest fault hl rfl rfl rfl rfl
  | dropped frame rest fault p hp hm hf => rw [← hl]; exact hsort frame rest fault hl rfl rfl rfl rfl
  | waits | partsLater =>
    refine hquiet rfl rfl rfl ?_ ?_ <;> dsimp only <;> rw [hl]
    exact fun _ => id
  | _ => exact hquiet rfl rfl rfl rfl (fun _ hf => by first | exact hf | cases hf)

theorem acts (hu : h.Unstarted) (hd : Decoded limit arrived sorted h) (ha : Acts h a h') :
    Decoded limit (arrived ++ (Moment.mk h a).arrived) (sorted ++ (Moment.mk h a).sorted.toList) h' := by
  cases ha with
  | loop inputFirst hm ht =>
    have := hd.loop hm ht
    rwa [← List.append_nil arrived] at this
  | receive bytes hu hr ready =>
    have harr : (Moment.mk h (.receive bytes)).arrived = bytes := by simp [Moment.arrived, hu, hr]
    obtain ⟨read, fault, hin, hread, hfault⟩ := hd
    refine ⟨read, fault, by rw [harr, hin, List.append_assoc], ?_, hfault⟩
    rw [hread]
    simp [Moment.sorted]
  | idle a hr =>
    obtain ⟨hs, ha⟩ := Moment.refused (m := ⟨h, a⟩) hr
    rw [hs, ha, List.append_nil, Option.toList_none, List.append_nil]
    exact hd
  | dispatcher inputFirst hm ht =>
    obtain ⟨events, he⟩ := hm.link
    simp only [Moment.arrived, Moment.sorted, Option.toList_none, List.append_nil]
    exact hd.quiet (by rw [ht.wire]) (by rw [ht.link, he]) (by rw [ht.link, he]) (by rw [ht.link, he]; exact fun _ => id)
  | call inputFirst hc hm hl =>
    simp only [Moment.arrived, Moment.sorted, Option.toList_none, List.append_nil]
    exact hd.edits (by rw [hl.wire]) (Link.Edits.frame (hl.edits hu hm))
  | abandon hc released hr ready =>
    simp only [Moment.arrived, Moment.sorted, Option.toList_none, List.append_nil]
    exact hd.edits rfl (Link.EditsBy.vacate .refl).frame
  | _ =>
    simp only [Moment.arrived, Moment.sorted, Option.toList_none, List.append_nil]
    exact hd.quiet rfl rfl rfl fun _ => id

end Decoded

/-! ## Events -/

/-- The loop has ended, and has passed on why or is about to. -/
def LoopPoint.ended : LoopPoint → Bool
  | .parting _ => true
  | .gone => true
  | _ => false

/-- What the listener has taken, what is queued and what the loop holds are the packets passed on, in their order, and
after them at most the end of the link. Once nobody listens any more, what was taken is all there will be. -/
structure Passed (forwarded : List Packet) (taken closing : List LinkEvent) (h : Host) : Prop where
  once : closing = [] ∨ ∃ reason, closing = [.closed reason]
  running : h.link.loop.ended = false → closing = []
  parting : ∀ reason, h.link.loop = .parting reason → closing = [.closed reason]
  inOrder : taken <+: forwarded.map .packet ++ closing
  listening : h.link.events.closed = false →
    taken ++ h.link.events.queue ++ h.link.loop.held = forwarded.map .packet ++ closing
  deaf : h.link.events.closed = true → h.link.events.queue = []

namespace Passed

variable {forwarded : List Packet} {taken closing : List LinkEvent} {h h' : Host} {a : Action}

/-- Neither the channel nor the loop moves. -/
theorem quiet (hp : Passed forwarded taken closing h) (he : h'.link.events = h.link.events)
    (hl : h'.link.loop = h.link.loop ∨ h.link.loop = .absent ∧ h'.link.loop = .listening) :
    Passed forwarded taken closing h' := by
  rcases hl with hl | ⟨hl, hl'⟩
  · exact ⟨hp.once, by rw [hl]; exact hp.running, by rw [hl]; exact hp.parting, hp.inOrder,
      by rw [he, hl]; exact hp.listening, by rw [he]; exact hp.deaf⟩
  · refine ⟨hp.once, fun _ => hp.running (by rw [hl]; rfl), by rw [hl']; exact nofun, hp.inOrder, ?_,
      by rw [he]; exact hp.deaf⟩
    rw [he, hl']
    have := hp.listening
    rwa [hl] at this

/-- Nobody listens any more. -/
theorem discard (hp : Passed forwarded taken closing h) {events : Channel LinkEvent} :
    Passed forwarded taken closing { h with link := { h.link with events := events.discard.1 } } :=
  ⟨hp.once, hp.running, hp.parting, hp.inOrder, nofun, fun _ => rfl⟩

/-- An event is taken. -/
theorem take (hp : Passed forwarded taken closing h) {event : LinkEvent} {events : Channel LinkEvent}
    {woken : Option Actor} (he : h.link.events.take? = some (event, events, woken)) :
    Passed forwarded (taken ++ [event]) closing { h with link := { h.link with events := events } } := by
  obtain ⟨hq, hc⟩ := Channel.take_eq_some he
  have hopen : h.link.events.closed = false := by
    by_contra hcl
    rw [hp.deaf (by simpa using hcl)] at hq
    cases hq
  have hl := hp.listening hopen
  rw [hq] at hl
  have hl' : taken ++ [event] ++ (events.queue ++ h.link.loop.held) = forwarded.map .packet ++ closing := by
    rw [← hl]
    simp
  refine ⟨hp.once, hp.running, hp.parting, ⟨_, hl'⟩, fun _ => ?_, fun hcl => ?_⟩
  · show taken ++ [event] ++ events.queue ++ h.link.loop.held = _
    rw [List.append_assoc _ events.queue]
    exact hl'
  · have hcl : events.closed = true := hcl
    rw [hc, hopen] at hcl
    cases hcl

/-- The loop goes on to a point where it holds nothing, or ends. -/
theorem move (hp : Passed forwarded taken closing h) (he : h'.link.events = h.link.events)
    (hh : h.link.loop.held = [] ∨ h.link.events.closed = true) (hh' : h'.link.loop.held = [])
    (hr : h'.link.loop.ended = false → h.link.loop.ended = false) : Passed forwarded taken closing h' := by
  refine ⟨hp.once, fun hn => hp.running (hr hn), fun reason hl => ?_, hp.inOrder, ?_, by rw [he]; exact hp.deaf⟩
  · rw [hl] at hh'
    cases hh'
  · rw [he, hh']
    intro hc
    have := hp.listening hc
    rwa [hh.resolve_right (by rw [hc]; exact nofun)] at this

/-- The loop ends, and holds the end of the link. -/
theorem stop (hp : Passed forwarded taken closing h) (he : h'.link.events = h.link.events) {reason : String}
    (hh : h.link.loop.held = []) (hr : h.link.loop.ended = false) (hl' : h'.link.loop = .parting reason) :
    Passed forwarded taken [.closed reason] h' := by
  have hclosing := hp.running hr
  subst hclosing
  refine ⟨.inr ⟨reason, rfl⟩, fun hn => ?_, fun reason' hl => ?_, ?_, fun hc => ?_, by rw [he]; exact hp.deaf⟩
  · rw [hl'] at hn
    cases hn
  · rw [hl'] at hl
    cases hl
    rfl
  · have := hp.inOrder
    rw [List.append_nil] at this
    exact this.trans (List.prefix_append _ _)
  · rw [he] at hc ⊢
    have := hp.listening hc
    rw [hh, List.append_nil, List.append_nil] at this
    rw [hl', this]
    rfl

/-- What the loop holds is admitted to the queue. -/
theorem admitted (hp : Passed forwarded taken closing h) {event : LinkEvent} {events : Channel LinkEvent}
    (ho : h.link.events.offer .loop event = (events, .admitted)) (hh : h.link.loop.held = [event])
    (he : h'.link.events = events) (hh' : h'.link.loop.held = [])
    (hr : h'.link.loop.ended = h.link.loop.ended) : Passed forwarded taken closing h' := by
  obtain ⟨hq, hc, hc'⟩ := h.link.events.offer_admitted ho
  refine ⟨hp.once, fun hn => hp.running (hr ▸ hn), fun reason hl => ?_, hp.inOrder, fun _ => ?_, fun hcl => ?_⟩
  · rw [hl] at hh'
    cases hh'
  · rw [he, hq, hh', List.append_nil, ← List.append_assoc, ← hh]
    exact hp.listening hc
  · rw [he, hc'] at hcl
    cases hcl

/-- The loop stands in line with what it holds. -/
theorem wait (hp : Passed forwarded taken closing h) {event : LinkEvent} {events : Channel LinkEvent}
    (ho : h.link.events.offer .loop event = (events, .queued)) (he : h'.link.events = events)
    (hl : h'.link.loop = h.link.loop) : Passed forwarded taken closing h' := by
  obtain ⟨hq, hc⟩ := h.link.events.offer_queued ho
  exact ⟨hp.once, by rw [hl]; exact hp.running, by rw [hl]; exact hp.parting, hp.inOrder,
    by rw [he, hl, hq, hc]; exact hp.listening, by rw [he, hq, hc]; exact hp.deaf⟩

/-- A packet is passed on: the loop holds it. -/
theorem pass (hp : Passed forwarded taken closing h) {p : Packet} (he : h'.link.events = h.link.events)
    (hh : h.link.loop.held = []) (hr : h.link.loop.ended = false) (hh' : h'.link.loop.held = [.packet p])
    (hr' : h'.link.loop.ended = false) : Passed (forwarded ++ [p]) taken closing h' := by
  have hclosing := hp.running hr
  subst hclosing
  refine ⟨hp.once, fun _ => rfl, fun reason hl => ?_, ?_, fun hc => ?_, by rw [he]; exact hp.deaf⟩
  · rw [hl] at hr'
    cases hr'
  · have := hp.inOrder
    rw [List.append_nil] at this ⊢
    rw [List.map_append]
    exact this.trans (List.prefix_append _ _)
  · rw [he] at hc ⊢
    have := hp.listening hc
    rw [hh, List.append_nil, List.append_nil] at this
    rw [hh', this]
    simp

theorem loop (hp : Passed forwarded taken closing h) {i : Bool} {t : LoopTurn} (hm : LoopMove h h.link.loop t)
    (ht : h.LoopTurns t h') :
    ∃ closing', Passed (forwarded ++ (Moment.mk h (.advance .loop i)).forwarded.toList) taken closing' h' := by
  have hlink := ht.link
  have hnone : h.link.loop.next = none → (Moment.mk h (.advance .loop i)).forwarded = none := fun hn =>
    Moment.forwarded_none hn
  have hsome : ∀ {frame rest fault p}, h.link.loop = .sorting (frame :: rest) fault → Packet.ofFrame frame = .ok p →
      (Moment.mk h (.advance .loop i)).forwarded
        = if h.link.forwarding && !(h.link.table.takeMatch? p).isSome then some p else none := fun hl hp =>
    Moment.forwarded_eq (by show h.link.loop.next = _; rw [hl]; rfl) hp
  have hkeep : ∀ {closing'}, (Moment.mk h (.advance .loop i)).forwarded = none → Passed forwarded taken closing' h' →
      ∃ closing', Passed (forwarded ++ (Moment.mk h (.advance .loop i)).forwarded.toList) taken closing' h' :=
    fun hn hp => ⟨_, by rw [hn, Option.toList_none, List.append_nil]; exact hp⟩
  generalize hl : h.link.loop = q at hm hnone
  have hh : h.link.loop.held = q.held := by rw [hl]
  have hr : h.link.loop.ended = q.ended := by rw [hl]
  cases hm with
  | readFailed | hungUp | told | deserted | misframed | writeFailed =>
    exact hkeep (hnone rfl) (hp.stop (by rw [hlink]; rfl) hh hr (by rw [hlink]; rfl))
  | undecodable frame rest fault e hp' =>
    exact hkeep (Moment.forwarded_error (by show h.link.loop.next = _; rw [hl]; rfl) hp')
      (hp.move (by rw [hlink]) (.inl hh) (by rw [hlink]; rfl) fun _ => hr)
  | matched frame rest fault p hp' hm =>
    refine hkeep ?_ (hp.move (by rw [hlink]; rfl) (.inl hh) (by rw [hlink]; rfl) fun _ => hr)
    rw [hsome hl hp', hm]
    simp
  | passed frame rest fault p hp' hm hf =>
    refine ⟨closing, ?_⟩
    rw [hsome hl hp', hm, hf]
    exact hp.pass (by rw [hlink]; rfl) hh hr (by rw [hlink]; rfl) (by rw [hlink]; rfl)
  | dropped frame rest fault p hp' hm hf =>
    refine hkeep ?_ (hp.move (by rw [hlink]; rfl) (.inl hh) (by rw [hlink]; rfl) fun _ => hr)
    rw [hsome hl hp', hf]
    rfl
  | handed p rest fault ho =>
    exact hkeep (hnone rfl) (hp.admitted ho hh (by rw [hlink]) (by rw [hlink]; rfl) (by rw [hlink, hr]; rfl))
  | unheard p rest fault hc =>
    exact hkeep (hnone rfl) (hp.move (by rw [hlink]) (.inr hc) (by rw [hlink]; rfl) fun _ => hr)
  | waits p rest fault ho => exact hkeep (hnone rfl) (hp.wait ho (by rw [hlink]) (by rw [hlink]))
  | parts reason ho =>
    exact hkeep (hnone rfl) (hp.admitted ho hh (by rw [hlink]) (by rw [hlink]; rfl) (by rw [hlink, hr]; rfl))
  | partsUnheard reason hc =>
    refine hkeep (hnone rfl) (hp.move (by rw [hlink]) (.inr hc) (by rw [hlink]; rfl) fun hn => ?_)
    rw [hlink] at hn
    cases hn
  | partsLater reason ho => exact hkeep (hnone rfl) (hp.wait ho (by rw [hlink]) (by rw [hlink]))
  | _ => exact hkeep (hnone rfl) (hp.move (by rw [hlink]) (.inl hh) (by rw [hlink]; rfl) fun _ => hr)

theorem acts (hu : h.Unstarted) (hp : Passed forwarded taken closing h) (ha : Acts h a h') :
    ∃ closing', Passed (forwarded ++ (Moment.mk h a).forwarded.toList) (taken ++ (Moment.mk h a).taken.toList)
      closing' h' := by
  have hsilent : (Moment.mk h a).sorted = none → (Moment.mk h a).taken = none → Passed forwarded taken closing h' →
      ∃ closing', Passed (forwarded ++ (Moment.mk h a).forwarded.toList) (taken ++ (Moment.mk h a).taken.toList)
        closing' h' := fun hs ht hp => by
    rw [Moment.forwarded_none hs, ht, Option.toList_none, List.append_nil, Option.toList_none, List.append_nil]
    exact ⟨closing, hp⟩
  have htakes : ∀ {event}, (Moment.mk h a).sorted = none → (Moment.mk h a).taken = some event →
      Passed forwarded (taken ++ [event]) closing h' →
      ∃ closing', Passed (forwarded ++ (Moment.mk h a).forwarded.toList) (taken ++ (Moment.mk h a).taken.toList)
        closing' h' := fun hs ht hp =>
    ⟨closing, by rw [Moment.forwarded_none hs, ht, Option.toList_none, List.append_nil]; exact hp⟩
  cases ha with
  | loop inputFirst hm ht =>
    obtain ⟨closing', hp⟩ := hp.loop (i := inputFirst) hm ht
    exact ⟨closing', by simpa [Moment.taken] using hp⟩
  | idle a hr => exact hsilent (Moment.refused (m := ⟨h, a⟩) hr).1 (Moment.refused_taken (m := ⟨h, a⟩) hr) hp
  | @dispatcher i t h' hm ht =>
    have htk : (Moment.mk h (.advance .dispatcher i)).taken = match h.session.dispatch with
      | .listening => h.link.events.take?.map (·.1)
      | _ => none := rfl
    rcases hm.takes with ⟨hd, event, events, woken, he, hl | hl⟩ | ⟨hd, hl⟩
    · exact htakes rfl (by rw [htk, hd, he]; rfl)
        ((hp.take he).quiet (by rw [ht.link, hl]) (by rw [ht.link, hl]; exact .inl rfl))
    · exact htakes rfl (by rw [htk, hd, he]; rfl)
        ((hp.take he).discard.quiet (by rw [ht.link, hl]) (by rw [ht.link, hl]; exact .inl rfl))
    · refine hsilent rfl ?_ (hp.quiet (by rw [ht.link, hl]) (by rw [ht.link, hl]; exact .inl rfl))
      rw [htk]
      split
      · exact absurd ‹_› hd
      · rfl
  | call inputFirst hc hm hl =>
    have hf := Link.Edits.frame (hl.edits hu hm)
    exact hsilent rfl rfl (hp.quiet hf.events hf.loop)
  | @abandon id c hc released hr ready =>
    have hf := (Link.EditsBy.vacate (l := h.link) (c := c) .refl).frame
    exact hsilent rfl rfl (hp.quiet hf.events hf.loop)
  | takeEvent hd he ready =>
    refine htakes rfl ?_ ((hp.take he).quiet rfl (.inl rfl))
    show h.takeEvent?.map (·.1) = _
    unfold Host.takeEvent?
    rw [hd]
    dsimp only
    rw [he]
    rfl
  | dropListener hd ready => exact hsilent rfl rfl (hp.discard.quiet rfl (.inl rfl))
  | _ => exact hsilent rfl rfl (hp.quiet rfl (.inl rfl))

end Passed

/-! ## Deliveries and counters -/

/-- Where no frame is sorted, no packet is delivered and none is counted. -/
theorem Moment.unsorted {m : Moment} (hu : m.host.Unstarted) (hc : m.host.Claimed) (hs : m.sorted = none) :
    Unsorted m.host.link m.after.link := by
  obtain ⟨h, a⟩ := m
  have hstop : ∀ {reason refused} {l : Link}, l.deliveries = h.link.deliveries → l.metrics = h.link.metrics →
      Unsorted h.link (l.stopped reason refused) := fun hd hm => by
    refine ⟨fun id p hmem => ?_, by rw [← hm]; rfl, by rw [← hm]; rfl, by rw [← hm]; rfl⟩
    rcases List.mem_append.mp hmem with hmem | hmem
    · exact hd ▸ hmem
    · obtain ⟨w, -, hw⟩ := List.mem_map.mp hmem
      cases hw
  rcases (Moment.acts (m := ⟨h, a⟩) hc).link hu with ⟨i, t, ha, hm, ht⟩ | ⟨events, he⟩ | ⟨ok, he⟩
  · rw [ht.link]
    have hs : h.link.loop.next = none := by
      have ha : a = .advance .loop i := ha
      subst ha
      exact hs
    have hm : LoopMove h h.link.loop t := hm
    generalize h.link.loop = q at hm hs
    cases hm with
    | readFailed | hungUp | told | deserted | misframed | writeFailed => exact hstop rfl rfl
    | undecodable | matched | passed | dropped => cases hs
    | _ => exact ⟨fun _ _ => id, rfl, rfl, rfl⟩
  · rw [he]
    exact ⟨fun _ _ => id, rfl, rfl, rfl⟩
  · have hf := Link.Edits.frame he
    exact ⟨hf.deliveries, hf.framesReceived, hf.matchedResponses, hf.unsolicitedPackets⟩

/-- Every frame sorted is counted once, as matched or as not. -/
structure Counted (sorted : List Bytes) (l : Link) : Prop where
  frames : l.metrics.framesReceived = sorted.length
  split : l.metrics.framesReceived = l.metrics.matchedResponses + l.metrics.unsolicitedPackets

theorem Counted.moment {sorted : List Bytes} {m : Moment} (hu : m.host.Unstarted) (hcl : m.host.Claimed)
    (hc : Counted sorted m.host.link) (hp : ∀ frame, m.sorted = some frame → ∃ p, Packet.ofFrame frame = .ok p) :
    Counted (sorted ++ m.sorted.toList) m.after.link := by
  obtain ⟨hf, hs⟩ := hc
  cases hm : m.sorted with
  | none =>
    obtain ⟨-, hfr, hmr, hup⟩ := Moment.unsorted hu hcl hm
    exact ⟨by rw [hfr, hf]; simp, by rw [hfr, hmr, hup]; exact hs⟩
  | some frame =>
    obtain ⟨p, hp⟩ := hp frame hm
    obtain ⟨rest, fault, t, hl, hmove, ht⟩ := Moment.sorted_move hm hcl
    rw [hl] at hmove
    rw [ht.link]
    cases hmove with
    | undecodable frame rest fault e hp' => rw [hp] at hp'; cases hp'
    | matched frame rest fault p hp' hm => exact ⟨by simp [Host.counted, hf], by simp only [Host.counted, hs]; omega⟩
    | passed frame rest fault p hp' hm hon => exact ⟨by simp [Host.counted, hf], by simp only [Host.counted, hs]; omega⟩
    | dropped frame rest fault p hp' hm hoff =>
      exact ⟨by simp [Host.counted, hf], by simp only [Host.counted, hs]; omega⟩

/-! ## Every run -/

/-- The frames of every run hold packets. -/
theorem Decoded.packet {limit : Nat} {arrived : Bytes} {sorted : List Bytes} {m : Moment} {frame : Bytes}
    (hd : Decoded limit arrived sorted m.host) (hs : m.sorted = some frame) : ∃ p, Packet.ofFrame frame = .ok p := by
  obtain ⟨rest, fault, -, hl, -⟩ := Moment.sorted_loop hs
  obtain ⟨read, fault', -, hread, -⟩ := hd
  refine Decoder.ofFrame_of_mem_feedChunk (d := Decoder.ofLimit limit) (w := read) ?_
  rw [hread, hl]
  simp [LoopPoint.waiting]

namespace Setup

theorem unstarted_run (setup : Setup) (as : List Action) : (setup.host.run as).Unstarted := by
  have h0 : setup.host.Unstarted := by
    cases setup with
    | link config => exact nofun
    | session config twin => exact fun _ => rfl
  exact setup.tidy.run_inv h0 (fun _ _ _ ha hu => hu.acts ha) as

theorem ordered_run (setup : Setup) (as : List Action) : (setup.host.run as).link.table.Ordered := by
  induction as using List.reverseRecOn with
  | nil => cases setup <;> exact ⟨.nil, nofun⟩
  | append_singleton as a ih =>
    rw [Host.run_concat]
    exact ih.acts (setup.acts_run as a) (setup.unstarted_run as)

theorem decoded_run (setup : Setup) (as : List Action) :
    Decoded setup.linkConfig.maxFrameSize ((setup.host.moments as).flatMap Moment.arrived)
      ((setup.host.moments as).filterMap Moment.sorted) (setup.host.run as) := by
  induction as using List.reverseRecOn with
  | nil =>
    cases setup <;> exact ⟨[], none, rfl, rfl, fun f hf => Option.some.inj hf⟩
  | append_singleton as a ih =>
    rw [Host.run_concat, Host.seen_concat, Host.moments_concat, List.flatMap_append, List.flatMap_singleton]
    exact ih.acts (setup.unstarted_run as) (setup.acts_run as a)

theorem passed_run (setup : Setup) (as : List Action) :
    ∃ closing, Passed ((setup.host.moments as).filterMap Moment.forwarded)
      ((setup.host.moments as).filterMap Moment.taken) closing (setup.host.run as) := by
  induction as using List.reverseRecOn with
  | nil => cases setup <;> exact ⟨[], .inl rfl, fun _ => rfl, nofun, List.nil_prefix, fun _ => rfl, fun _ => rfl⟩
  | append_singleton as a ih =>
    obtain ⟨closing, hp⟩ := ih
    rw [Host.run_concat, Host.seen_concat, Host.seen_concat]
    exact hp.acts (setup.unstarted_run as) (setup.acts_run as a)

theorem counted_run (setup : Setup) (as : List Action) :
    Counted ((setup.host.moments as).filterMap Moment.sorted) (setup.host.run as).link := by
  induction as using List.reverseRecOn with
  | nil => cases setup <;> exact ⟨rfl, rfl⟩
  | append_singleton as a ih =>
    rw [Host.run_concat, Host.seen_concat]
    exact ih.moment (m := ⟨setup.host.run as, a⟩) (setup.unstarted_run as) (setup.claimed_run as)
      fun frame hs => (setup.decoded_run as).packet hs

end Setup

end TwinLink
