import TwinLink.Proofs.Link.Events

/-!
# Listening to a device

A host that asks nothing of the device hears what the device sends, and how this is cut into arrivals and reads, how many
events the channel holds and when they are taken makes no difference to it.

* `Action.listens` : the actions of such a host and of a device that keeps to its stream;
* `stream as` : what the device sends before it hangs up; `Decoder.heard limit w` : what there is to hear in a stream;
* `Host.Attuned` : what holds of a host that only listens;
* `Ending` : once the loop has ended, all that the stream holds has been sorted, and why it ended follows;
* `Host.hears` : once all events are taken, they are what there was to hear; `Host.drains` : they can always be taken;
* `Host.hears_alike` : two hosts that listen to one stream hear the same.
-/

namespace TwinLink

open Decoder (packets)

/-! ## What there is to hear -/

/-- The host only listens: it asks nothing of the device and waits for nothing, and unmatched packets are passed on. The
connection does not break. -/
def Action.listens : Action → Bool
  | .make _ => false
  | .register .. => false
  | .forward on => on
  | .dropListener => false
  | .dropHandle => false
  | .breakRead _ => false
  | _ => true

/-- The device ends its stream. -/
def Action.hangsUp : Action → Bool
  | .hangUp => true
  | _ => false

/-- What the device sends before it hangs up. -/
def stream : List Action → Bytes
  | [] => []
  | .receive bytes :: as => bytes ++ stream as
  | .hangUp :: _ => []
  | _ :: as => stream as

/-- Why the loop ends when the stream ends with this error, or without one. -/
def FrameError.ending : Option FrameError → String
  | some e => "frame error: " ++ e.message
  | none => "serial stream closed"

/-- What there is to hear in a stream: its packets up to the first framing error, and then that error or the end. -/
def Decoder.heard (limit : Nat) (w : Bytes) : List LinkEvent :=
  (packets limit w).map .packet ++ [.closed (FrameError.ending ((ofLimit limit).feedChunk w).2.2)]

/-- Every frame that is given holds a packet. -/
theorem Decoder.length_packets (limit : Nat) (w : Bytes) :
    (packets limit w).length = ((ofLimit limit).feedChunk w).2.1.length := by
  rw [packets, List.length_filterMap_eq_countP, List.countP_eq_length]
  intro frame hf
  obtain ⟨p, hp⟩ := ofFrame_of_mem_feedChunk hf
  rw [hp]
  rfl

/-- A frame takes at least one byte. -/
theorem Decoder.length_feedChunk (d : Decoder) (w : Bytes) : (d.feedChunk w).2.1.length ≤ w.length := by
  induction w generalizing d with
  | nil => exact Nat.le_refl 0
  | cons b r ih =>
    rcases hf : d.feed b with ⟨d', o⟩
    cases o with
    | more =>
      rw [feedChunk_more hf]
      exact Nat.le_succ_of_le (ih d')
    | frame p =>
      rw [feedChunk_frame hf]
      exact Nat.succ_le_succ (ih d')
    | failed e =>
      rw [feedChunk_failed hf]
      exact Nat.zero_le _

/-- All events have been taken, the last one too. -/
def Host.Drained (h : Host) : Prop := h.link.loop = .gone ∧ h.link.events.queue = []

theorem stream_append (as bs : List Action) :
    stream (as ++ bs) = stream as ++ if as.any (·.hangsUp) then [] else stream bs := by
  induction as with
  | nil => rfl
  | cons a as ih => cases a <;> simp [stream, Action.hangsUp, ih]

/-- Only the device hangs up, and it does so for good. -/
theorem Acts.hungUp {h h' : Host} {a : Action} (ha : Acts h a h') : h'.wire.hungUp = (h.wire.hungUp || a.hangsUp) := by
  have hno : ∀ {b : Bool}, h.wire.hungUp = b → b = (h.wire.hungUp || false) := fun hb => by rw [Bool.or_false, hb]
  cases ha with
  | idle a hr => cases a <;> first | exact hno rfl | exact hr.elim
  | loop i hm ht =>
    rw [ht.wire]
    generalize h.link.loop = p at hm
    cases hm <;> exact hno rfl
  | hangUp ready => exact (Bool.or_true _).symm
  | dispatcher i hm ht => rw [ht.wire]; exact hno rfl
  | call i hc hm hl => rw [hl.wire]; exact hno rfl
  | _ => exact hno rfl

/-! ## A host that only listens -/

/-- The loop has begun and does not write. -/
def LoopPoint.listens : LoopPoint → Bool
  | .absent => false
  | .writing .. => false
  | _ => true

/-- What holds of a host that only listens: nobody asks anything of its link and nobody waits, packets are passed on, and
the connection is as it should be. -/
structure Host.Attuned (h : Host) : Prop where
  calls : h.calls = []
  held : h.held = true
  dispatch : h.session.dispatch = .absent
  unbroken : h.wire.readFault = none
  entries : h.link.table.entries = []
  commands : h.link.commands.queue = []
  forwarding : h.link.forwarding = true
  events : h.link.events.closed = false
  unmatched : h.link.metrics.matchedResponses = 0
  listens : h.link.loop.listens = true
  released : h.wire.released = true → h.link.loop = .gone

namespace Host.Attuned

variable {h h' : Host} {a : Action}

theorem takeMatch (hq : h.Attuned) (p : Packet) : h.link.table.takeMatch? p = none := by
  simp [WaitTable.takeMatch?, hq.entries]

theorem claimed (hq : h.Attuned) : h.Claimed := fun w hw => by
  rw [hq.entries] at hw
  cases hw

theorem noCommand (hq : h.Attuned) : h.link.commands.take? = none := by
  simp [Channel.take?, hq.commands]

theorem attached (hq : h.Attuned) : h.attached = true := by
  simp [Host.attached, hq.held]

theorem loop (hq : h.Attuned) {t : LoopTurn} (hm : LoopMove h h.link.loop t) (ht : h.LoopTurns t h') :
    h'.Attuned := by
  have hkeep : t.wire.readFault = h.wire.readFault → t.link.table.entries = h.link.table.entries →
      t.link.commands.queue = h.link.commands.queue → t.link.forwarding = h.link.forwarding →
      t.link.events.closed = h.link.events.closed →
      t.link.metrics.matchedResponses = h.link.metrics.matchedResponses →
      t.link.loop.listens = true → (t.wire.released = true → t.link.loop = .gone) →
      h'.Attuned := fun hw he hc hf hev hun hl hr =>
    { calls := by rw [ht.calls, hq.calls]
      held := by rw [ht.held, hq.held]
      dispatch := by rw [ht.session, hq.dispatch]
      unbroken := by rw [ht.wire, hw, hq.unbroken]
      entries := by rw [ht.link, he, hq.entries]
      commands := by rw [ht.link, hc, hq.commands]
      forwarding := by rw [ht.link, hf, hq.forwarding]
      events := by rw [ht.link, hev, hq.events]
      unmatched := by rw [ht.link, hun, hq.unmatched]
      listens := by rw [ht.link]; exact hl
      released := by rw [ht.link, ht.wire]; exact hr }
  have hrel : ∀ {p : Prop}, h.link.loop ≠ .gone → h.wire.released = true → p := fun hne hr => absurd (hq.released hr) hne
  generalize hl : h.link.loop = p at hm hrel
  cases hm with
  | readFailed text hf => rw [hq.unbroken] at hf; cases hf
  | obeys hc | told hc => rw [hq.noCommand] at hc; cases hc
  | deserted hc ha => rw [hq.attached] at ha; cases ha
  | writeFailed | written | writes => exact absurd hq.listens (by rw [hl]; exact nofun)
  | matched frame rest fault p hp hm => rw [hq.takeMatch] at hm; cases hm
  | unheard p rest fault hc => rw [hq.events] at hc; cases hc
  | partsUnheard reason hc => rw [hq.events] at hc; cases hc
  | hungUp | misframed =>
    exact hkeep rfl hq.entries.symm hq.commands.symm rfl rfl rfl rfl (hrel nofun)
  | handed p rest fault ho =>
    obtain ⟨-, hopen, hopen'⟩ := h.link.events.offer_admitted ho
    exact hkeep rfl rfl rfl rfl (hopen'.trans hopen.symm) rfl rfl (hrel nofun)
  | parts reason ho =>
    obtain ⟨-, hopen, hopen'⟩ := h.link.events.offer_admitted ho
    exact hkeep rfl rfl rfl rfl (hopen'.trans hopen.symm) rfl rfl fun _ => rfl
  | waits p rest fault ho | partsLater p ho =>
    exact hkeep rfl rfl rfl rfl (h.link.events.offer_queued ho).2 rfl (by dsimp only; rw [hl]; rfl) (hrel nofun)
  | _ => exact hkeep rfl rfl rfl rfl rfl rfl rfl (hrel nofun)

/-- A host that only listens goes on doing so. -/
theorem acts (hq : h.Attuned) (ha : Acts h a h') (hv : a.listens) : h'.Attuned := by
  have hcall : ∀ id, h.call? id = none := fun id => by simp [Host.call?, hq.calls]
  cases ha with
  | loop i hm ht => exact hq.loop hm ht
  | dispatcher i hm ht => rw [hq.dispatch] at hm; cases hm
  | call i hc hm hl => rw [hcall] at hc; cases hc
  | abandon hc released hr ready => rw [hcall] at hc; cases hc
  | make | register | dropListener | dropHandle | breakRead => cases hv
  | withdraw ticket ht => exact { hq with entries := by simp [Link.withdraw, WaitTable.cancel, hq.entries] }
  | forward on => exact { hq with forwarding := hv }
  | takeEvent hd he ready => exact { hq with events := (Channel.take_eq_some he).2.trans hq.events }
  | _ => exact { hq with }

end Host.Attuned

theorem Host.attuned_ofLink {c : LinkConfig} (hf : c.forwardUnsolicited) : (Host.ofLink c).Attuned :=
  ⟨rfl, rfl, rfl, rfl, rfl, rfl, hf, rfl, rfl, rfl, nofun⟩

/-! ## The end of the stream -/

/-- The stream `w` has been read to its first error, or to its end with nothing left after it. All its frames have been
sorted, and why it ended is known to the listener or is on the way. -/
def Ending (limit : Nat) (w : Bytes) (sorted : List Bytes) (taken : List LinkEvent) (h : Host) : Prop :=
  ∃ read rest fault, w = read ++ rest ∧ ((Decoder.ofLimit limit).feedChunk read).2 = (sorted, fault) ∧
    (fault = none → rest = [] ∧ h.wire.hungUp = true) ∧
    .closed (FrameError.ending fault) ∈ taken ++ h.link.events.queue ++ h.link.loop.held

/-- What a host that only listens has heard of the stream `w`. -/
structure Hearing (limit : Nat) (w arrived : Bytes) (sorted : List Bytes) (taken : List LinkEvent) (h : Host) : Prop where
  attuned : h.Attuned
  running : h.link.loop.ended = false → arrived = w
  ending : h.link.loop.ended = true → Ending limit w sorted taken h

section Hearing

variable {limit : Nat} {w arrived : Bytes} {sorted : List Bytes} {taken : List LinkEvent} {h h' : Host} {a : Action}

/-- Where nothing more is sorted, an event that is on the way stays so or is taken. -/
theorem Ending.quiet (he : Ending limit w sorted taken h) (hh : h.wire.hungUp = true → h'.wire.hungUp = true)
    {taken' : List LinkEvent}
    (hk : taken ++ h.link.events.queue ++ h.link.loop.held ⊆ taken' ++ h'.link.events.queue ++ h'.link.loop.held) :
    Ending limit w sorted taken' h' := by
  obtain ⟨read, rest, fault, hw, hread, hend, hmem⟩ := he
  exact ⟨read, rest, fault, hw, hread, fun hf => ⟨(hend hf).1, hh (hend hf).2⟩, hk hmem⟩

/-- What is sent after the first error is not read. -/
theorem Ending.append (he : Ending limit w sorted taken h) (hu : h.wire.hungUp = false) (v : Bytes) :
    Ending limit (w ++ v) sorted taken h := by
  obtain ⟨read, rest, fault, rfl, hread, hend, hmem⟩ := he
  refine ⟨read, rest ++ v, fault, List.append_assoc _ _ _, hread, fun hf => ?_, hmem⟩
  rw [(hend hf).2] at hu
  cases hu

/-- What was sorted is what the whole stream holds, and why it ended is how the whole stream ends. -/
theorem Ending.whole (he : Ending limit w sorted taken h) : ((Decoder.ofLimit limit).feedChunk w).2.1 = sorted ∧
    .closed (FrameError.ending ((Decoder.ofLimit limit).feedChunk w).2.2) ∈
      taken ++ h.link.events.queue ++ h.link.loop.held := by
  obtain ⟨read, rest, fault, rfl, hread, hend, hmem⟩ := he
  rcases hd : (Decoder.ofLimit limit).feedChunk read with ⟨d, frames, fault'⟩
  rw [hd] at hread
  obtain ⟨rfl, rfl⟩ : frames = sorted ∧ fault' = fault := Prod.mk.inj hread
  cases fault' with
  | none =>
    rw [(hend rfl).1, List.append_nil, hd]
    exact ⟨rfl, hmem⟩
  | some e =>
    rw [Decoder.feedChunk_append_failed hd]
    exact ⟨rfl, hmem⟩

/-- The loop of a host that only listens: at the end of the stream, or at its first error, it ends for that reason. -/
theorem Hearing.loop (hh : Hearing limit w arrived sorted taken h) (hd : Decoded limit arrived sorted h) {t : LoopTurn}
    (hm : LoopMove h h.link.loop t) (ht : h.LoopTurns t h') :
    Hearing limit w arrived (sorted ++ h.link.loop.next.toList) taken h' := by
  have hq := hh.attuned.loop hm ht
  have hgoes : h.link.loop.ended = false → t.link.loop.ended = false →
      Hearing limit w arrived (sorted ++ h.link.loop.next.toList) taken h' := fun he he' =>
    ⟨hq, fun _ => hh.running he, fun hn => by rw [ht.link, he'] at hn; cases hn⟩
  have hstays : h.link.loop.next = none → t.link.loop.ended = true → Ending limit w sorted taken h' →
      Hearing limit w arrived (sorted ++ h.link.loop.next.toList) taken h' := fun hn he' he =>
    ⟨hq, fun hn => (by rw [ht.link, he'] at hn; cases hn), fun _ => by rwa [hn, Option.toList_none, List.append_nil]⟩
  obtain ⟨read, fault, harr, hread, hfault⟩ := hd
  generalize hl : h.link.loop = p at hm hgoes hstays
  rw [hl] at hread hfault
  cases hm with
  | hungUp hf hi hu =>
    obtain rfl : fault = none := hfault none rfl
    refine hstays rfl rfl ⟨read, [], none, ?_, ?_, fun _ => ⟨rfl, by rw [ht.wire]; exact hu⟩, ?_⟩
    · rw [← hh.running (by rw [hl]; rfl), harr, hi]
    · rw [hread]
      simp [LoopPoint.waiting]
    · rw [ht.link]
      simp [Host.loopEnd, Link.stopped, LoopPoint.held, FrameError.ending]
  | misframed e =>
    obtain rfl : fault = some e := hfault _ rfl
    refine hstays rfl rfl ⟨read, h.wire.inbound, some e, ?_, ?_, fun hnone => (by cases hnone), ?_⟩
    · rw [← hh.running (by rw [hl]; rfl), harr]
    · rw [hread]
      simp [LoopPoint.waiting]
    · rw [ht.link]
      simp [Host.loopEnd, Link.stopped, LoopPoint.held, FrameError.ending]
  | parts reason ho =>
    obtain ⟨hqueue, -, -⟩ := h.link.events.offer_admitted ho
    refine hstays rfl rfl ((hh.ending (by rw [hl]; rfl)).quiet (by rw [ht.wire]; exact id) ?_)
    rw [ht.link, hl, hqueue]
    simp [LoopPoint.held]
  | partsLater reason ho =>
    obtain ⟨hqueue, -⟩ := h.link.events.offer_queued ho
    refine hstays rfl (by dsimp only; rw [hl]; rfl) ((hh.ending (by rw [hl]; rfl)).quiet (by rw [ht.wire]; exact id) ?_)
    rw [ht.link, hqueue]
    exact List.Subset.refl _
  | partsUnheard reason hc => rw [hh.attuned.events] at hc; cases hc
  | readFailed text hf => rw [hh.attuned.unbroken] at hf; cases hf
  | told hc => rw [hh.attuned.noCommand] at hc; cases hc
  | deserted hc ha => rw [hh.attuned.attached] at ha; cases ha
  | writeFailed =>
    have hlis := hh.attuned.listens
    rw [hl] at hlis
    cases hlis
  | waits p rest fault ho => exact hgoes rfl (by dsimp only; rw [hl]; rfl)
  | _ => exact hgoes rfl rfl

theorem Hearing.acts (hh : Hearing limit w arrived sorted taken h) (hd : Decoded limit arrived sorted h)
    (ha : Acts h a h') (hv : a.listens) :
    Hearing limit (w ++ if h.wire.hungUp then [] else stream [a]) (arrived ++ (Moment.mk h a).arrived)
      (sorted ++ (Moment.mk h a).sorted.toList) (taken ++ (Moment.mk h a).taken.toList) h' := by
  have hq := hh.attuned.acts ha hv
  -- in all other cases than these two the device sends nothing and the loop does not move
  have hquiet : stream [a] = [] → (Moment.mk h a).arrived = [] → (Moment.mk h a).sorted = none →
      (h.wire.hungUp = true → h'.wire.hungUp = true) → h'.link.loop = h.link.loop →
      h.link.events.queue = (Moment.mk h a).taken.toList ++ h'.link.events.queue →
      Hearing limit (w ++ if h.wire.hungUp then [] else stream [a]) (arrived ++ (Moment.mk h a).arrived)
        (sorted ++ (Moment.mk h a).sorted.toList) (taken ++ (Moment.mk h a).taken.toList) h' := by
    intro hw harr hs hu hl hk
    rw [hw, ite_self, harr, hs, Option.toList_none, List.append_nil, List.append_nil, List.append_nil]
    refine ⟨hq, by rw [hl]; exact hh.running, fun he => (hh.ending (by rwa [← hl])).quiet hu ?_⟩
    rw [hl, hk, ← List.append_assoc taken]
    exact List.Subset.refl _
  cases ha with
  | loop i hm ht =>
    have := hh.loop hd hm ht
    simp only [stream, ite_self, Moment.arrived, Moment.taken, Option.toList_none, List.append_nil]
    exact this
  | receive bytes hu hr ready =>
    have harr : (Moment.mk h (.receive bytes)).arrived = bytes := by simp [Moment.arrived, hu, hr]
    have hw : (w ++ if h.wire.hungUp then [] else stream [.receive bytes]) = w ++ bytes := by simp [hu, stream]
    rw [hw, harr]
    simp only [Moment.sorted, Moment.taken, Option.toList_none, List.append_nil]
    exact ⟨hq, fun he => by rw [hh.running he], fun he => ((hh.ending he).append hu bytes).quiet id (List.Subset.refl _)⟩
  | idle a hr =>
    obtain ⟨hs, harr⟩ := Moment.refused (m := ⟨h, a⟩) hr
    have htk := Moment.refused_taken (m := ⟨h, a⟩) hr
    cases a with
    | receive bytes =>
      -- the device has hung up, or the loop is gone
      have hr : (h.wire.hungUp || h.wire.released) = true := hr
      rw [hs, harr, htk]
      simp only [Option.toList_none, List.append_nil]
      split
      · rw [List.append_nil]
        exact hh
      · rename_i hu
        have hu : h.wire.hungUp = false := by simpa using hu
        have hgone := hh.attuned.released (by simpa [hu] using hr)
        exact ⟨hq, fun he => (by rw [hgone] at he; cases he), fun he => (hh.ending he).append hu _⟩
    | _ => exact hquiet rfl harr hs id rfl (by rw [htk]; rfl)
  | takeEvent hd he ready =>
    refine hquiet rfl rfl rfl id rfl ?_
    have htk : (Moment.mk h .takeEvent).taken = h.takeEvent?.map (·.1) := rfl
    rw [htk]
    unfold Host.takeEvent?
    rw [hd]
    dsimp only
    rw [he]
    exact (Channel.take_eq_some he).1
  | hangUp ready => exact hquiet rfl rfl rfl (fun _ => rfl) rfl rfl
  | dispatcher i hm ht => rw [hh.attuned.dispatch] at hm; cases hm
  | call i hc hm hl => simp [Host.call?, hh.attuned.calls] at hc
  | abandon hc released hr ready => simp [Host.call?, hh.attuned.calls] at hc
  | make | register | dropListener | dropHandle | breakRead => cases hv
  | _ => exact hquiet rfl rfl rfl id rfl rfl

end Hearing

/-! ## Every run -/

/-- A run in which the host only listens. -/
structure Overhears (c : LinkConfig) (as : List Action) : Prop where
  forwards : c.forwardUnsolicited = true
  listens : ∀ a ∈ as, a.listens = true

theorem Overhears.earlier {c : LinkConfig} {as bs : List Action} (h : Overhears c as) (hb : bs <+: as) :
    Overhears c bs :=
  ⟨h.forwards, fun a ha => h.listens a (hb.subset ha)⟩

namespace Host

variable {c : LinkConfig} {as : List Action}

theorem hungUp_run (c : LinkConfig) (as : List Action) : ((ofLink c).run as).wire.hungUp = as.any (·.hangsUp) := by
  induction as using List.reverseRecOn with
  | nil => rfl
  | append_singleton as a ih =>
    rw [run_concat, (acts_ofLink c as a).hungUp, ih, List.any_append]
    simp

theorem hearing_run (hv : Overhears c as) :
    Hearing c.maxFrameSize (stream as) (((ofLink c).moments as).flatMap Moment.arrived)
      (((ofLink c).moments as).filterMap Moment.sorted) (((ofLink c).moments as).filterMap Moment.taken)
      ((ofLink c).run as) := by
  induction as using List.reverseRecOn with
  | nil => exact ⟨attuned_ofLink hv.forwards, fun _ => rfl, nofun⟩
  | append_singleton as a ih =>
    have := (ih (hv.earlier (List.prefix_append _ _))).acts ((Setup.link c).decoded_run as) (acts_ofLink c as a)
      (hv.listens a (by simp))
    rw [hungUp_run, ← stream_append] at this
    rw [seen_concat, seen_concat, run_concat, moments_concat, List.flatMap_append, List.flatMap_singleton]
    exact this

/-- Every packet is passed on. -/
theorem forwarded_run (hv : Overhears c as) :
    ((ofLink c).moments as).filterMap Moment.forwarded =
      (((ofLink c).moments as).filterMap Moment.sorted).filterMap fun frame => (Packet.ofFrame frame).toOption := by
  rw [List.filterMap_filterMap]
  refine List.filterMap_congr fun m hm => ?_
  obtain ⟨bs, hb, hm⟩ := exists_of_mem_moments hm
  have hq : m.host.Attuned := hm ▸ (hearing_run (hv.earlier ((List.prefix_append bs _).trans hb))).attuned
  cases hs : m.sorted with
  | none => exact Moment.forwarded_none hs
  | some frame =>
    cases hp : Packet.ofFrame frame with
    | error e => exact (Moment.forwarded_error hs hp).trans (by simp [hp, Except.toOption])
    | ok p =>
      rw [Moment.forwarded_eq hs hp, hq.takeMatch, hq.forwarding]
      simp [hp, Except.toOption]

end Host

/-! ## To the last event -/

/-- How far a host that only listens is from the last event. -/
def Host.work (h : Host) : Nat := 5 * h.wire.inbound.length + h.link.loop.work + h.link.events.queue.length

/-- The loop never waits where nothing is queued and the device has hung up. -/
theorem Host.Attuned.loopStep {h : Host} (hq : h.Attuned) (hs : h.link.events.Solo) (hu : h.wire.hungUp = true)
    (he : h.link.events.queue = []) (hg : h.link.loop ≠ .gone) : h.loopStep true ≠ none := by
  have hoffer := fun event next => h.offerEvent_ne_none hs he event next
  have hlis := hq.listens
  unfold Host.loopStep
  split
  · rename_i hl
    rw [hl] at hlis
    cases hlis
  · show (h.readInput <|> h.obeyCommand) ≠ none
    have hr : h.readInput ≠ none := by
      unfold Host.readInput
      rw [hq.unbroken, hu]
      dsimp only
      split <;> exact nofun
    obtain ⟨h', hr⟩ := Option.ne_none_iff_exists'.mp hr
    rw [hr]
    exact nofun
  · exact nofun
  · exact nofun
  · exact nofun
  · rename_i hl
    rw [hl] at hlis
    cases hlis
  · exact hoffer _ _
  · simpa using hoffer _ _
  · exact absurd ‹_› hg

/-- A step of the loop where nothing is queued leaves less to do. -/
theorem LoopMove.work_lt {h h' : Host} (hq : h.Attuned) (hs : h.link.events.Solo) (he : h.link.events.queue = [])
    {t : LoopTurn} (hm : LoopMove h h.link.loop t) (ht : h.LoopTurns t h') : h'.work < h.work := by
  have hadmits : ∀ {event events}, h.link.events.offer .loop event = (events, .queued) → False := by
    intro event events ho
    obtain ⟨c, ho'⟩ := hs.offer_of_empty he hq.events event
    rw [ho] at ho'
    cases ho'
  have hlis := hq.listens
  unfold Host.work
  rw [ht.wire, ht.link, he]
  generalize h.link.loop = p at hm hlis ⊢
  cases hm with
  | @read hf hi d frames fault hfeed =>
    -- a read holds at most one frame for each byte
    have hlen := h.link.decoder.length_feedChunk (h.wire.inbound.take h.link.readSize)
    have hpos : 0 < h.wire.inbound.length := List.length_pos_iff.mpr hi
    have hsize : 0 < h.link.readSize := Nat.lt_of_lt_of_le Nat.zero_lt_one (Nat.le_max_right _ 1)
    rw [hfeed, List.length_take] at hlen
    simp only [LoopPoint.work, List.length_drop, he, List.length_nil]
    dsimp only at hlen
    omega
  | handed p rest fault ho =>
    obtain ⟨hqueue, -, -⟩ := h.link.events.offer_admitted ho
    simp only [hqueue, he, LoopPoint.work, List.nil_append, List.length_singleton, List.length_nil]
    omega
  | parts reason ho =>
    obtain ⟨hqueue, -, -⟩ := h.link.events.offer_admitted ho
    simp only [hqueue, he, LoopPoint.work, List.nil_append, List.length_singleton, List.length_nil]
    omega
  | waits p rest fault ho | partsLater reason ho => exact (hadmits ho).elim
  | writeFailed | written | writes => cases hlis
  | matched frame rest fault p hp hm => rw [hq.takeMatch] at hm; cases hm
  | obeys hc | told hc => rw [hq.noCommand] at hc; cases hc
  | _ =>
    simp only [LoopPoint.work, Host.loopEnd, Link.stopped, Link.shut, Host.counted, he, List.length_cons, List.length_nil]
    omega

/-- Each event that is taken, and each step of the loop where none is queued, leaves less to do. -/
theorem Host.Attuned.progress {h : Host} (hq : h.Attuned) (hs : h.link.events.Solo) (hu : h.wire.hungUp = true)
    (hd : ¬h.Drained) : ∃ a : Action, a.listens ∧ (h.apply a).work < h.work := by
  by_cases he : h.link.events.queue = []
  · have hstep := hq.loopStep hs hu he fun hg => hd ⟨hg, he⟩
    refine ⟨.advance .loop true, rfl, ?_⟩
    have ha := Host.apply_acts hq.claimed (.advance .loop true)
    generalize h.apply (.advance .loop true) = h' at ha ⊢
    cases ha with
    | idle a hr => exact absurd hr hstep
    | loop i hm ht => exact hm.work_lt hq hs he ht
  · refine ⟨.takeEvent, rfl, ?_⟩
    obtain ⟨event, hrest, hloop, hwire⟩ := (Host.apply_acts hq.claimed .takeEvent).takes hq.dispatch he
    unfold Host.work
    rw [hrest, hloop, hwire, List.length_cons]
    omega

namespace Host

variable {c : LinkConfig} {as : List Action}

/-- Every run in which the device has hung up can go on until all events are taken. -/
theorem drains (hv : Overhears c as) (hu : as.any (·.hangsUp) = true) :
    ∃ bs, Overhears c (as ++ bs) ∧ stream (as ++ bs) = stream as ∧ ((ofLink c).run (as ++ bs)).Drained := by
  generalize hn : ((ofLink c).run as).work = n
  induction n using Nat.strongRecOn generalizing as with
  | ind n ih =>
    by_cases hd : ((ofLink c).run as).Drained
    · exact ⟨[], by rwa [List.append_nil], by rw [List.append_nil], by rwa [List.append_nil]⟩
    · obtain ⟨a, ha, hlt⟩ := (hearing_run hv).attuned.progress ((Setup.link c).solo_run as)
        ((hungUp_run c as).trans hu) hd
      have hv' : Overhears c (as ++ [a]) := ⟨hv.forwards, fun b hb => by
        rcases List.mem_append.mp hb with hb | hb
        · exact hv.listens b hb
        · exact List.mem_singleton.mp hb ▸ ha⟩
      rw [← run_concat, hn] at hlt
      obtain ⟨bs, hbs, hstream, hdrained⟩ := ih _ hlt hv' (by rw [List.any_append, hu, Bool.true_or]) rfl
      rw [List.append_assoc, List.singleton_append] at hbs hstream hdrained
      refine ⟨a :: bs, hbs, ?_, hdrained⟩
      rw [hstream, stream_append, hu, if_pos rfl, List.append_nil]

/-- Once all events are taken, they are what there was to hear, and every packet was counted as unmatched. -/
theorem hears (hv : Overhears c as) (hd : ((ofLink c).run as).Drained) :
    ((ofLink c).moments as).filterMap Moment.taken = Decoder.heard c.maxFrameSize (stream as) ∧
    ((ofLink c).run as).link.metrics.framesReceived = (packets c.maxFrameSize (stream as)).length ∧
    ((ofLink c).run as).link.metrics.unsolicitedPackets = (packets c.maxFrameSize (stream as)).length := by
  obtain ⟨hloop, hqueue⟩ := hd
  have hh := hearing_run hv
  obtain ⟨hsorted, hclosed⟩ := (hh.ending (by rw [hloop]; rfl)).whole
  have hpackets : ((ofLink c).moments as).filterMap Moment.forwarded = packets c.maxFrameSize (stream as) := by
    rw [forwarded_run hv, packets, hsorted]
  obtain ⟨hframes, hsplit⟩ : Counted _ ((ofLink c).run as).link := (Setup.link c).counted_run as
  have hcount : ((ofLink c).run as).link.metrics.framesReceived = (packets c.maxFrameSize (stream as)).length := by
    rw [hframes, Decoder.length_packets, hsorted]
    rfl
  refine ⟨?_, hcount, by rw [← hcount, hsplit, hh.attuned.unmatched, Nat.zero_add]⟩
  obtain ⟨closing, hp⟩ := (Setup.link c).passed_run as
  have htaken := hp.listening hh.attuned.events
  simp only [Setup.host, hloop, hqueue, LoopPoint.held, List.append_nil, hpackets] at htaken hclosed
  -- the end was taken, so it is what follows the packets
  rw [htaken] at hclosed
  rcases hp.once with rfl | ⟨reason, rfl⟩
  · simp at hclosed
  · obtain rfl : FrameError.ending _ = reason := by simpa using hclosed
    exact htaken

/-- **What a listener hears depends on the stream alone.** Take two runs in which the host only listens, to the same
stream with the same limit for frames; reads, queues, arrivals and the order of events may differ. Once all events are
taken, both listeners have taken the packets of the stream up to its first framing error, and then that error or the end
of the stream, and both links have counted these packets, all of them as unmatched. Whatever packets a beginning of the
stream holds are among them. -/
theorem hears_alike {c₁ c₂ : LinkConfig} {as₁ as₂ : List Action} (hv₁ : Overhears c₁ as₁) (hv₂ : Overhears c₂ as₂)
    (hm : c₁.maxFrameSize = c₂.maxFrameSize) (hw : stream as₁ = stream as₂) (hd₁ : ((ofLink c₁).run as₁).Drained)
    (hd₂ : ((ofLink c₂).run as₂).Drained) :
    let taken₁ := ((ofLink c₁).moments as₁).filterMap Moment.taken
    let taken₂ := ((ofLink c₂).moments as₂).filterMap Moment.taken
    let metrics₁ := ((ofLink c₁).run as₁).link.metrics
    let metrics₂ := ((ofLink c₂).run as₂).link.metrics
    (taken₁ = Decoder.heard c₁.maxFrameSize (stream as₁) ∧ taken₁ = taken₂) ∧
    (metrics₁.framesReceived = (packets c₁.maxFrameSize (stream as₁)).length ∧
      metrics₁.framesReceived = metrics₂.framesReceived) ∧
    (metrics₁.unsolicitedPackets = metrics₁.framesReceived ∧
      metrics₁.unsolicitedPackets = metrics₂.unsolicitedPackets) ∧
    ∀ w, w <+: stream as₁ → (packets c₁.maxFrameSize w).map .packet <+: taken₁ := by
  intro taken₁ taken₂ metrics₁ metrics₂
  obtain ⟨ht₁, hf₁, hu₁⟩ := hears hv₁ hd₁
  obtain ⟨ht₂, hf₂, hu₂⟩ := hears hv₂ hd₂
  rw [← hm, ← hw] at ht₂ hf₂ hu₂
  refine ⟨⟨ht₁, ht₁.trans ht₂.symm⟩, ⟨hf₁, hf₁.trans hf₂.symm⟩, ⟨hu₁.trans hf₁.symm, hu₁.trans hu₂.symm⟩, ?_⟩
  rintro w ⟨v, hv⟩
  have hp : packets c₁.maxFrameSize w <+: packets c₁.maxFrameSize (stream as₁) := hv ▸ Decoder.packets_mono _ _ _
  show _ <+: ((ofLink c₁).moments as₁).filterMap Moment.taken
  rw [ht₁]
  exact (hp.map _).trans (List.prefix_append _ _)

/-- Two packets and a header that declares two bytes arrive at once. -/
def heardAtOnce : List Action :=
  let loop := Action.advance .loop true
  [.receive [0x5A, 4, 0, 4, 0, 0x5A, 5, 0, 8, 0, 9, 0x5A, 2, 0, 3, 0], .hangUp, loop, loop, loop, loop, loop, loop, loop,
    .takeEvent, .takeEvent, .takeEvent]

/-- The same in three pieces, taken from a queue with one place. -/
def heardInPieces : List Action :=
  let loop := Action.advance .loop true
  [.receive [0x5A, 4, 0], loop, loop, .receive [4, 0, 0x5A, 5, 0, 8], loop, loop, loop, loop, loop, .takeEvent,
    .receive [0, 9, 0x5A, 2, 0, 3, 0], loop, loop, loop, .hangUp, loop, loop, loop, loop, loop, loop, loop, loop,
    .takeEvent, loop, loop, .takeEvent]

theorem hears_alike_inPieces :
    let c₁ : LinkConfig := {}
    let c₂ : LinkConfig := { readChunk := 5, eventCapacity := 1 }
    Overhears c₁ heardAtOnce ∧ Overhears c₂ heardInPieces ∧ stream heardAtOnce = stream heardInPieces ∧
      ((ofLink c₁).moments heardAtOnce).filterMap Moment.taken =
        ((ofLink c₂).moments heardInPieces).filterMap Moment.taken ∧
      ((ofLink c₂).moments heardInPieces).filterMap Moment.taken = [.packet ⟨4, []⟩, .packet ⟨8, [9]⟩,
        .closed "frame error: malformed header: length 2 is shorter than the 4 byte header"] := by
  intro c₁ c₂
  have hv₁ : Overhears c₁ heardAtOnce := ⟨rfl, by decide⟩
  have hv₂ : Overhears c₂ heardInPieces := ⟨rfl, by decide⟩
  have hw : stream heardAtOnce = stream heardInPieces := by decide
  have hd₁ : ((ofLink c₁).run heardAtOnce).Drained := ⟨by decide +kernel, by decide +kernel⟩
  have hd₂ : ((ofLink c₂).run heardInPieces).Drained := ⟨by decide +kernel, by decide +kernel⟩
  have halike := hears_alike hv₁ hv₂ rfl hw hd₁ hd₂
  exact ⟨hv₁, hv₂, hw, halike.1.2, by decide +kernel⟩

end Host

end TwinLink
