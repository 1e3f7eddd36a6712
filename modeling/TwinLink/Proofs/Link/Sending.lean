import TwinLink.Proofs.Link.Ending

/-!
# What is written is what was sent

Any number of calls may send over a link at once, wait for a place in its command queue, or be given up while they wait.
The frames on the byte stream are those of the sends, whole and in the order in which they were queued; only the last one
may be cut. Once a call has ended the link, or the loop has ended by itself, what was not taken up by then is never
written, and comes back as an error.

* `Setup.outbound_run`, `Send.decodes` : what the byte stream holds, and what a decoder makes of it;
* `Outbox.ShutOut`, `Setup.shutOut_of_shut`, `Setup.shutOut_of_ended` : what comes too late;
* `Host.WritesSent`, `Host.writes_sent` : what becomes of all sends, for every link and in every run.
-/

namespace TwinLink

/-! ## What is written -/

namespace Setup

variable (setup : Setup) (as : List Action)

theorem written_inOrder : (setup.host.outbox as).written <+: (setup.host.outbox as).taken ∧
    (setup.host.outbox as).taken <+: (setup.host.outbox as).queued := by
  obtain ⟨current, waiting, hm⟩ := setup.mailed_run as
  rw [hm.queued, hm.taken]
  exact ⟨List.prefix_append _ _, List.prefix_append _ _⟩

/-- **The stream holds the frames written, and at most the beginning of one more.** -/
theorem outbound_run : ∃ part,
    (setup.host.run as).wire.outbound = (setup.host.outbox as).written.flatMap Send.frame ++ part ∧
    ((setup.host.outbox as).taken = (setup.host.outbox as).written ∧ part = [] ∨
      ∃ s, (setup.host.outbox as).taken = (setup.host.outbox as).written ++ [s] ∧ part <+: s.frame ∧
        ((∃ rest, (setup.host.run as).link.loop = .writing s.caller rest) ∨
          (setup.host.run as).link.loop.ended = true ∧
            ∀ r, (s, r) ∈ (setup.host.outbox as).returned → ∃ text, r = .error (.io text))) := by
  obtain ⟨current, waiting, hm⟩ := setup.mailed_run as
  cases hm.carries with
  | between hc ho hl =>
    refine ⟨[], by rw [ho, List.append_nil], .inl ⟨?_, rfl⟩⟩
    rw [hm.taken, hc, List.append_nil]
  | within s part rest hc ho hp hl =>
    have htaken : (setup.host.outbox as).taken = (setup.host.outbox as).written ++ [s] := by rw [hm.taken, hc]
    have hs : s ∈ current ++ waiting := by
      rw [hc]
      exact List.mem_append_left _ (List.mem_singleton.mpr rfl)
    refine ⟨part, ho, .inr ⟨s, htaken, ⟨rest, hp⟩, hl.imp (fun hl => ⟨rest, hl⟩) fun he => ⟨he, fun r hr => ?_⟩⟩⟩
    -- it was taken up and is not written, so its write has failed
    cases (hm.returned _ hr).2 with
    | written hw => exact absurd hw (hm.unwritten hs)
    | failed text => exact ⟨text, rfl⟩
    | refused reason he hno =>
      rw [htaken] at hno
      exact absurd List.mem_concat_self hno

end Setup

/-- A decoder reads the packets back from their frames. -/
theorem Send.decodes (ss : List Send) (hs : ∀ s ∈ ss, s.packet.payload.length ≤ 65531) :
    (∃ d, (Decoder.ofLimit 65535).feedChunk (ss.flatMap Send.frame) = (d, ss.map (·.packet.toBytes), none)) ∧
      Decoder.packets 65535 (ss.flatMap Send.frame) = ss.map (·.packet) := by
  have hframes : ss.flatMap Send.frame = (ss.map (·.packet)).flatMap Decoder.frameOf := by
    rw [List.flatMap_map]
    rfl
  have hlen : ∀ p ∈ ss.map (·.packet), p.totalLength ≤ Frame.maxLength := by
    intro p hp
    obtain ⟨s, hmem, rfl⟩ := List.mem_map.mp hp
    have := hs s hmem
    unfold Packet.totalLength Frame.headerSize Frame.maxLength
    omega
  rw [hframes]
  refine ⟨?_, Decoder.packets_frames _ hlen⟩
  have hlimit : (Decoder.ofLimit 65535).limit = Frame.maxLength := by decide
  obtain ⟨d, -, hd⟩ := Decoder.feedChunk_frames (d := Decoder.ofLimit 65535) (ss.map (·.packet)) (by rwa [hlimit])
    (Nat.le_of_eq hlimit)
  exact ⟨d, by rw [hd, List.map_map]; rfl⟩

/-! ## What comes too late -/

/-- None of the bytes of the send is written, and it can only return that the link is closed. -/
def Outbox.ShutOut (b : Outbox) (s : Send) : Prop :=
  s ∉ b.taken ∧ ∀ r, (s, r) ∈ b.returned → ∃ reason, r = .error (.closed reason)

namespace Setup

variable (setup : Setup) {as bs : List Action} {s : Send}

theorem shutOut_of_untaken (hs : s ∉ (setup.host.outbox as).taken) : (setup.host.outbox as).ShutOut s := by
  obtain ⟨current, waiting, hm⟩ := setup.mailed_run as
  exact ⟨hs, fun r hr => (hm.returned _ hr).2.closed (setup.written_inOrder as).1.subset hs⟩

/-- **After a call has ended the link, what is not queued is shut out.** -/
theorem shutOut_of_shut {a : Action} (hb : bs ++ [a] <+: as) (hc : (Moment.mk (setup.host.run bs) a).hasShut = true)
    (hs : s ∉ (setup.host.outbox (bs ++ [a])).queued) : (setup.host.outbox as).ShutOut s := by
  obtain ⟨cs, rfl⟩ := hb
  refine setup.shutOut_of_untaken (setup.untaken_run _ cs (setup.sealed_of_shut bs a hc) (Nat.le_refl _) ?_)
  rwa [List.take_length]

/-- **After the loop has ended, what it has not taken up is shut out.** -/
theorem shutOut_of_ended (hb : bs <+: as) (he : (setup.host.run bs).link.loop.ended = true)
    (hs : s ∉ (setup.host.outbox bs).taken) : (setup.host.outbox as).ShutOut s := by
  obtain ⟨cs, rfl⟩ := hb
  have hle := (setup.written_inOrder bs).2
  refine setup.shutOut_of_untaken (setup.untaken_run _ cs (.of_ended he) hle.length_le ?_)
  rwa [← List.prefix_iff_eq_take.mp hle]

end Setup

/-! ## The sends of a link -/

/-- **What becomes of what is sent over a link**, in a run and however it goes on. -/
structure Host.WritesSent (start : Host) (as : List Action) : Prop where
  /-- Frames are taken up and written in the order in which they were queued, and each was queued once. -/
  inOrder : (start.outbox as).written <+: (start.outbox as).taken ∧
    (start.outbox as).taken <+: (start.outbox as).queued ∧ (start.outbox as).queued.Nodup ∧
    (start.outbox as).queued ⊆ (start.outbox as).called
  /-- The bytes on the stream are the frames written, one after the other, and then at most the beginning of one more,
  which the loop is writing, or which it has failed to write. -/
  bytes : ∃ part, (start.run as).wire.outbound = (start.outbox as).written.flatMap Send.frame ++ part ∧
    ((start.outbox as).taken = (start.outbox as).written ∧ part = [] ∨
      ∃ s, (start.outbox as).taken = (start.outbox as).written ++ [s] ∧ part <+: s.frame ∧
        ((∃ rest, (start.run as).link.loop = .writing s.caller rest) ∨
          (start.run as).link.loop.ended = true ∧
            ∀ r, (s, r) ∈ (start.outbox as).returned → ∃ text, r = .error (.io text)))
  /-- The link counts the frames written. -/
  counted : (start.run as).link.metrics.framesSent = (start.outbox as).written.length
  /-- A send that succeeds has its frame among them, and no send returns twice. -/
  succeeded : (∀ s, (s, .ok ()) ∈ (start.outbox as).returned → s ∈ (start.outbox as).written) ∧
    ((start.outbox as).returned.map (·.1)).Nodup
  /-- A decoder reads the packets back from the frames written, in their order and without an error. -/
  decoded : (∀ s ∈ (start.outbox as).written, s.packet.payload.length ≤ 65531) →
    (∃ d, (Decoder.ofLimit 65535).feedChunk ((start.outbox as).written.flatMap Send.frame) =
      (d, (start.outbox as).written.map (·.packet.toBytes), none)) ∧
    Decoder.packets 65535 ((start.outbox as).written.flatMap Send.frame) = (start.outbox as).written.map (·.packet)
  /-- A call that only sends answers with what its send returns, when it returns. -/
  answered : ∀ m ∈ start.moments as, ∀ c, m.mover = some c → c.point.onlySends = true →
    m.news = (m.sendEvent.bind SendEvent.answer?).toList.map (⟨.call c.id, m.host.now, .answered ·⟩)
  /-- A send that is not queued when a call has ended the link, one that is called after it in particular, is shut out. -/
  late : ∀ bs a, bs ++ [a] <+: as → (Moment.mk (start.run bs) a).hasShut = true →
    ∀ s, s ∉ (start.outbox (bs ++ [a])).queued → (start.outbox as).ShutOut s
  /-- A send that is not taken up when the loop ends, one that is still queued in particular, is shut out. -/
  left : ∀ bs, bs <+: as → (start.run bs).link.loop.ended = true →
    ∀ s, s ∉ (start.outbox bs).taken → (start.outbox as).ShutOut s
  /-- Once the loop has ended every send returns with the next step of its call, if it has not returned before and its
  call is not given up. One that was not taken up returns that the link is closed. -/
  prompt : (start.run as).link.loop.ended = true → ∀ s ∈ (start.outbox as).called,
    s ∈ (start.outbox as).returned.map (·.1) ∨ (∃ m ∈ start.moments as, m.givesUp s) ∨
      ∀ i, s ∈ (start.outbox (as ++ [.advance (.call s.caller) i])).returned.map (·.1) ∧
        (s ∉ (start.outbox as).taken → (start.outbox (as ++ [.advance (.call s.caller) i])).ShutOut s)
  /-- When a call has ended the link and nothing holds it up, every send returns in the end, unless its call is given up.
  One that was not queued by then returns that the link is closed. -/
  inTheEnd : ∀ bs a, bs ++ [a] <+: as → (Moment.mk (start.run bs) a).hasShut = true →
    ∀ next, start.Unhindered as next → ∀ s ∈ (start.outbox as).called,
      (∀ n, ∃ k ≥ n, ∃ i, next k = .advance (.call s.caller) i) →
      ∃ n, (∃ m ∈ start.moments (onward as next n), m.givesUp s) ∨
        s ∈ (start.outbox (onward as next n)).returned.map (·.1) ∧
          (s ∉ (start.outbox (bs ++ [a])).queued → (start.outbox (onward as next n)).ShutOut s)

namespace Host

variable {config : LinkConfig} {as bs : List Action}

/-- When a call has ended the link, the command for that is queued until the loop has ended. -/
theorem shutsWithin_of_shut {a : Action} (hb : bs ++ [a] <+: as)
    (hc : (Moment.mk ((ofLink config).run bs) a).hasShut = true) : ∃ n, ((ofLink config).run as).ShutsWithin n := by
  obtain ⟨cs, rfl⟩ := hb
  have hs := (Setup.link config).sealed_run _ cs ((Setup.link config).sealed_of_shut bs a hc)
  rcases hs.2 with he | ⟨xs, ys, hxs, -⟩
  · exact ⟨0, .inl he⟩
  · exact ⟨xs.length, .inr ⟨xs, ys, hxs, Nat.le_refl _⟩⟩

/-- **What is written is what was sent**, for every link and in every run: however many calls send at once, however small
the command queue is, and whatever happens to the loop, to the device and to the callers. -/
theorem writes_sent (config : LinkConfig) (as : List Action) : (ofLink config).WritesSent as := by
  obtain ⟨current, waiting, hm⟩ := (Setup.link config).mailed_run as
  constructor
  case inOrder =>
    obtain ⟨hw, ht⟩ := (Setup.link config).written_inOrder as
    exact ⟨hw, ht, hm.distinct, hm.called⟩
  case bytes => exact (Setup.link config).outbound_run as
  case counted => exact hm.sent
  case succeeded =>
    refine ⟨fun s hs => ?_, hm.once⟩
    cases (hm.returned _ hs).2 with
    | written hw => exact hw
  case decoded => exact Send.decodes _
  case answered =>
    intro m hmem c hc hp
    obtain ⟨bs, -, he⟩ := exists_of_mem_moments hmem
    exact Moment.news_of_send hc hp (he ▸ (Setup.link config).numbered_run bs)
  case late =>
    intro bs a hb hc s hs
    exact (Setup.link config).shutOut_of_shut hb hc hs
  case left =>
    intro bs hb he s hs
    exact (Setup.link config).shutOut_of_ended hb he hs
  case prompt =>
    intro he s hs
    rcases (Setup.link config).called_run as hs with hr | hw | hg
    · exact .inl hr
    · refine .inr (.inr fun i => ⟨(Setup.link config).returned_of_ended as he hw i, fun hno => ?_⟩)
      exact (Setup.link config).shutOut_of_ended (List.prefix_append _ _) he hno
    · exact .inr (.inl hg)
  case inTheEnd =>
    intro bs a hb hc next hfair s hs hturn
    let r : Flowing := ⟨config, as, next, hfair⟩
    have hstart : onward as next 0 = as := List.append_nil _
    obtain ⟨n, hn⟩ := shutsWithin_of_shut hb hc
    obtain ⟨k, -, he⟩ := r.ends (n := 0) (m := n) (by unfold Flowing.host; rwa [hstart])
    have hmem : s ∈ ((ofLink config).outbox (onward as next k)).called :=
      ((ofLink config).outbox_grows as ((List.range k).map next)).called.subset hs
    obtain ⟨j, -, hr | hg⟩ := r.returns he hmem hturn
    · refine ⟨j, .inr ⟨hr, fun hno => ?_⟩⟩
      exact (Setup.link config).shutOut_of_shut (hb.trans (List.prefix_append _ _)) hc hno
    · exact ⟨j, .inl hg⟩

/-! ## A link that is closed while calls send -/

/-- The loop, the listener and one call take turns. -/
def servedInTurn (id n : Nat) : Action :=
  match n % 3 with
  | 0 => .advance .loop false
  | 1 => .takeEvent
  | _ => .advance (.call id) true

/-- Then nothing holds up the link, if the device takes all. -/
theorem unhindered_inTurn (id : Nat) (hr : ((ofLink config).run as).wire.room = none) :
    (ofLink config).Unhindered as (servedInTurn id) := by
  have hloop : ∀ n, n % 3 = 0 → servedInTurn id n = .advance .loop false := by
    intro n hn
    simp [servedInTurn, hn]
  have hsucc : ∀ n, (ofLink config).run (onward as (servedInTurn id) (n + 1)) =
      ((ofLink config).run (onward as (servedInTurn id) n)).apply (servedInTurn id n) := by
    intro n
    rw [onward_succ, run_concat]
  constructor
  case loop => exact fun n => ⟨3 * n, by omega, false, hloop _ (by omega)⟩
  case listener => exact fun n => ⟨3 * n + 1, by omega, by simp [servedInTurn, Nat.add_mod]⟩
  case device =>
    intro n
    induction n with
    | zero =>
      rw [onward, List.range_zero, List.map_nil, List.append_nil]
      exact hr
    | succ n ih =>
      rw [hsucc]
      refine (acts_ofLink config _ _).room (fun room hroom => ?_) ih
      unfold servedInTurn at hroom
      split at hroom <;> cases hroom
  case commands =>
    -- the loop listens until its next turn
    have hstep : ∀ n, n % 3 ≠ 0 → ((ofLink config).run (onward as (servedInTurn id) n)).link.loop = .listening →
        ((ofLink config).run (onward as (servedInTurn id) (n + 1))).link.loop = .listening := by
      intro n hn hl
      rw [hsucc]
      refine ((acts_ofLink config _ _).loop_waits (bare_run config _) fun i hi => ?_).1.trans hl
      unfold servedInTurn at hi
      split at hi
      · exact hn ‹_›
      · cases hi
      · cases hi
    intro n hl
    obtain hn | hn | hn : n % 3 = 0 ∨ n % 3 = 1 ∨ n % 3 = 2 := by omega
    · exact ⟨n, Nat.le_refl n, .inr ⟨hl, hloop n hn⟩⟩
    · have hl' := hstep (n + 1) (by omega) (hstep n (by omega) hl)
      exact ⟨n + 2, Nat.le_add_right n 2, .inr ⟨hl', hloop _ (by omega)⟩⟩
    · exact ⟨n + 1, Nat.le_succ n, .inr ⟨hstep n (by omega) hl, hloop _ (by omega)⟩⟩

/-- Of three sends the first is written, the second is cut short while a call ends the link, and the third comes too late
for a place in the queue, which has only one. -/
def cutShort : List Action :=
  let call := fun id => Action.advance (.call id) true
  let loop := Action.advance .loop true
  let send := fun text : Bytes => Action.make (.send ⟨7, text⟩)
  [send [1], call 0, call 0, loop, loop, loop, call 0,
    send [2], .make .shutDown, call 1, call 1, call 2, call 2, loop, .allow (some 3), loop, call 2,
    send [3], call 3, call 3, .allow none]

theorem writes_sent_cutShort :
    let start := ofLink { commandCapacity := 1 }
    start.WritesSent cutShort ∧
      (cutShort.take 16 ++ [.advance (.call 2) true] <+: cutShort ∧
        (Moment.mk (start.run (cutShort.take 16)) (.advance (.call 2) true)).hasShut = true) ∧
      (start.Unhindered cutShort (servedInTurn 3) ∧
        ∀ n, ∃ k ≥ n, ∃ i, servedInTurn 3 k = .advance (.call 3) i) ∧
      ((start.outbox cutShort).called.map (·.caller), (start.outbox cutShort).taken.map (·.caller),
        (start.outbox cutShort).written.map (·.caller), (start.run cutShort).wire.outbound) =
        ([0, 1, 3], [0, 1], [0], [90, 5, 0, 7, 0, 1, 90, 5, 0]) ∧
      (start.outbox (onward cutShort (servedInTurn 3) 12)).returned.map (fun x => (x.1.caller, x.2)) =
        [(0, .ok ()), (3, .error (.closed "transport closed by host"))] := by
  intro start
  refine ⟨writes_sent _ _, ⟨⟨cutShort.drop 17, rfl⟩, by decide +kernel⟩,
    ⟨unhindered_inTurn 3 (by decide +kernel), fun n => ?_⟩, by decide +kernel, by decide +kernel⟩
  exact ⟨3 * n + 2, by omega, true, by simp [servedInTurn, Nat.add_mod]⟩

end Host
end TwinLink
