import TwinLink.Proofs.Link.Routing
import TwinLink.Proofs.Session.Requests

/-!
# Requests on the wire

What the host has written is a row of complete frames, but for the one that the loop is writing; the requests of commands
among them are those that were taken up, in that order.

* `Wired sent h` : how the bytes written belong to the requests `sent` so far; `Wired.acts`;
* `Wired.requests` : the requests that a device finds among the bytes.
-/

namespace TwinLink
open Decoder (frameOf packets)

/-- The packet is the request of a command. -/
def Packet.isRequest (p : Packet) : Bool := p.type == PacketKind.commandRequest.code

/-- The bytes written are the frames of packets, of which the requests of commands are those `sent` so far. -/
inductive Wired (sent : List (Nat × Plan)) (h : Host) : Prop
  /-- Every frame is complete. -/
  | between (ps : List Packet) (hf : ∀ p ∈ ps, p.totalLength ≤ Frame.maxLength)
      (hr : ps.filter Packet.isRequest = sent.map (·.2.request)) (ho : h.wire.outbound = ps.flatMap frameOf)
      (hl : ∀ id rest, h.link.loop ≠ .writing id rest)
  /-- The last frame is being written, or it broke off. -/
  | within (ps : List Packet) (p : Packet) (part rest : Bytes) (hf : ∀ q ∈ ps ++ [p], q.totalLength ≤ Frame.maxLength)
      (hr : (ps ++ [p]).filter Packet.isRequest = sent.map (·.2.request))
      (ho : h.wire.outbound = ps.flatMap frameOf ++ part) (hp : part ++ rest = frameOf p)
      (hl : (∃ id, h.link.loop = .writing id rest) ∨ h.link.loop.ended)

namespace Wired

variable {sent planned : List (Nat × Plan)} {h h' : Host} {a : Action}

theorem ofSession (config : SessionConfig) (twin : Twin) : Wired [] (Host.ofSession config twin) :=
  .between [] nofun rfl rfl nofun

/-- Nothing is written, and the loop does not begin or end a frame. -/
theorem quiet (hw : Wired sent h) (ho : h'.wire.outbound = h.wire.outbound)
    (hl : h'.link.loop = h.link.loop ∨ (∀ id rest, h.link.loop ≠ .writing id rest) ∧
      (∀ id rest, h'.link.loop ≠ .writing id rest) ∧ (h.link.loop.ended → h'.link.loop.ended)) : Wired sent h' := by
  cases hw with
  | between ps hf hr ho' hl' =>
    refine .between ps hf hr (ho.trans ho') ?_
    rcases hl with hl | ⟨-, hl, -⟩
    · rwa [hl]
    · exact hl
  | within ps p part rest hf hr ho' hp hl' =>
    refine .within ps p part rest hf hr (ho.trans ho') hp ?_
    rcases hl with hl | ⟨hnot, -, hl⟩
    · rwa [hl]
    · rcases hl' with ⟨id, hl'⟩ | hl'
      · exact absurd hl' (hnot id rest)
      · exact .inr (hl hl')

/-- The loop ends, where it stands. -/
theorem stop (hw : Wired sent h) (ho : h'.wire.outbound = h.wire.outbound) {reason : String}
    (hl : h'.link.loop = .parting reason) : Wired sent h' := by
  cases hw with
  | between ps hf hr ho' hl' => exact .between ps hf hr (ho.trans ho') (by rw [hl]; exact nofun)
  | within ps p part rest hf hr ho' hp hl' =>
    exact .within ps p part rest hf hr (ho.trans ho') hp (.inr (by rw [hl]; rfl))

/-- The loop takes up a frame. -/
theorem obey (hw : Wired sent h) (hs : h.Separate planned)
    (hplan : ∀ x ∈ planned, x.2.Named ∧ x.2.request.totalLength ≤ Frame.maxLength) {id : Nat} {frame : Bytes}
    (hd : Due sent h id frame) (hlisten : h.link.loop = .listening) (hl : h'.link.loop = .writing id frame)
    (ho : h'.wire.outbound = h.wire.outbound) : Wired (sent ++ (h.sends h').toList) h' := by
  cases hw with
  | within ps p part rest hf hr ho' hp hl' => rw [hlisten] at hl'; rcases hl' with ⟨id, hl'⟩ | hl' <;> cases hl'
  | between ps hf hr ho' hl' =>
    have hin : ∀ p : Packet, p.totalLength ≤ Frame.maxLength → frame = Frame.encode p.toBytes →
        ([p].filter Packet.isRequest = (h.sends h').toList.map (·.2.request)) →
        Wired (sent ++ (h.sends h').toList) h' := fun p hfit hframe hsent => by
      refine .within ps p [] frame (fun q hq => ?_) ?_ (by rw [ho, ho', List.append_nil]) hframe (.inl ⟨id, hl⟩)
      · rcases List.mem_append.mp hq with hq | hq
        · exact hf q hq
        · exact (List.mem_singleton.mp hq) ▸ hfit
      · rw [List.filter_append, hr, hsent, List.map_append]
    rcases hd.sends hs.numbered hlisten hl with
      ⟨c, hm, rfl, ticket, limit, plan, hp, hk, hframe, -, he⟩ | ⟨-, he, p, hfit, ht, hframe⟩
    · have hreg := hs.regular c hm
      rw [hp] at hreg
      obtain ⟨hn, hfit⟩ := hplan _ hreg.2
      have ht := hn.type
      rw [hk] at ht
      refine hin plan.request hfit hframe ?_
      rw [he, List.filter_singleton, Packet.isRequest, ht]
      rfl
    · refine hin p hfit hframe ?_
      rw [he, List.filter_singleton, Packet.isRequest, beq_false_of_ne ht]
      rfl

theorem loop (hw : Wired sent h) (hwr : Written sent h) (hs : h.Separate planned)
    (hplan : ∀ x ∈ planned, x.2.Named ∧ x.2.request.totalLength ≤ Frame.maxLength) {t : LoopTurn}
    (hm : LoopMove h h.link.loop t) (ht : h.LoopTurns t h') : Wired (sent ++ (h.sends h').toList) h' := by
  have hlink := ht.link
  have hwire := ht.wire
  have hsilent : (h.link.loop = .listening → ∀ caller rest, h'.link.loop ≠ .writing caller rest) → Wired sent h' →
      Wired (sent ++ (h.sends h').toList) h' := fun hl hw => by
    rw [Host.sends_eq_none hl, Option.toList_none, List.append_nil]
    exact hw
  generalize hl : h.link.loop = q at hm hsilent
  cases hm with
  | obeys hc =>
    refine hw.obey hs hplan (hwr.queue _ _ ?_) hl (by rw [hlink]) (by rw [hwire])
    rw [(Channel.take_eq_some hc).1]
    exact List.mem_cons_self
  | readFailed | hungUp | told | deserted =>
    exact hsilent (by rw [hlink]; exact nofun) (hw.stop (by rw [hwire]; rfl) (by rw [hlink]; rfl))
  | misframed | writeFailed => exact hsilent nofun (hw.stop (by rw [hwire]; rfl) (by rw [hlink]; rfl))
  | written caller hf =>
    refine hsilent nofun ?_
    cases hw with
    | between ps hf hr ho hl' => exact absurd hl (hl' _ _)
    | within ps p part rest hf hr ho hp hl' =>
      rw [hl] at hl'
      obtain ⟨_, hl'⟩ : ∃ id, LoopPoint.writing caller [] = .writing id rest := hl'.resolve_right nofun
      cases hl'
      rw [List.append_nil] at hp
      exact .between (ps ++ [p]) hf hr (by rw [hwire, ho, hp]; simp) (by rw [hlink]; exact nofun)
  | writes caller rest hf hr n hn h0 =>
    refine hsilent nofun ?_
    cases hw with
    | between ps hf hr ho hl' => exact absurd hl (hl' _ _)
    | within ps p part rest' hf hr ho hp hl' =>
      rw [hl] at hl'
      obtain ⟨_, hl'⟩ : ∃ id, LoopPoint.writing caller rest = .writing id rest' := hl'.resolve_right nofun
      cases hl'
      refine .within ps p (part ++ rest.take n) (rest.drop n) hf hr (by rw [hwire, ho, List.append_assoc]) ?_
        (.inl ⟨caller, by rw [hlink]⟩)
      rw [List.append_assoc, List.take_append_drop, hp]
  | waits p rest fault ho => exact hsilent nofun (hw.quiet (by rw [hwire]) (.inl (by rw [hlink])))
  | partsLater reason ho => exact hsilent nofun (hw.quiet (by rw [hwire]) (.inl (by rw [hlink])))
  | read =>
    exact hsilent (by rw [hlink]; exact nofun) (hw.quiet (by rw [hwire])
      (.inr ⟨by rw [hl]; exact nofun, by rw [hlink]; exact nofun, by rw [hl]; exact nofun⟩))
  | parts | partsUnheard =>
    exact hsilent nofun (hw.quiet (by rw [hwire])
      (.inr ⟨by rw [hl]; exact nofun, by rw [hlink]; exact nofun, fun _ => by rw [hlink]; rfl⟩))
  | _ =>
    exact hsilent nofun (hw.quiet (by rw [hwire])
      (.inr ⟨by rw [hl]; exact nofun, by rw [hlink]; exact nofun, by rw [hl]; exact nofun⟩))

/-- **The bytes written are frames**, and the requests of commands among them are those that the loop has taken up. -/
theorem acts (hw : Wired sent h) (hwr : Written sent h) (hs : h.Separate planned)
    (hplan : ∀ x ∈ planned, x.2.Named ∧ x.2.request.totalLength ≤ Frame.maxLength) (ha : Acts h a h') :
    Wired (sent ++ (h.sends h').toList) h' := by
  have hquiet : h'.wire.outbound = h.wire.outbound →
      h'.link.loop = h.link.loop ∨ h.link.loop = .absent ∧ h'.link.loop = .listening →
      Wired (sent ++ (h.sends h').toList) h' := fun ho hl => by
    rw [Host.sends_keep hl, Option.toList_none, List.append_nil]
    refine hw.quiet ho (hl.imp_right fun ⟨hl, hl'⟩ => ?_)
    rw [hl, hl']
    exact ⟨nofun, nofun, nofun⟩
  cases ha with
  | loop inputFirst hm ht => exact hw.loop hwr hs hplan hm ht
  | dispatcher inputFirst hm ht =>
    obtain ⟨events, he⟩ := hm.link
    exact hquiet (by rw [ht.wire]) (.inl (by rw [ht.link, he]))
  | call inputFirst hc hm hl => exact hquiet (by rw [hl.wire]) (hl.edits hs.unstarted hm).frame.loop
  | @abandon id c hc released hr ready => exact hquiet rfl (.inl (h.link.loop_vacate c))
  | _ => exact hquiet rfl (.inl rfl)

/-- The requests that a device finds among the bytes are those taken up, but for one that is not complete yet. -/
theorem requests (hw : Wired sent h) :
    (packets Frame.maxLength h.wire.outbound).filter Packet.isRequest <+: sent.map (·.2.request) ∧
      sent.length ≤ ((packets Frame.maxLength h.wire.outbound).filter Packet.isRequest).length + 1 := by
  have hone : ∀ p : Packet, ([p].filter Packet.isRequest).length ≤ 1 := fun p => List.length_filter_le _ [p]
  have hlen : ∀ qs : List Packet, qs = sent.map (·.2.request) → sent.length = qs.length := fun qs hq => by
    rw [hq, List.length_map]
  cases hw with
  | between ps hf hr ho hl =>
    rw [ho]
    rw [Decoder.packets_frames ps hf, hr, hlen _ hr, hr]
    exact ⟨List.prefix_rfl, Nat.le_succ _⟩
  | within ps p part rest hf hr ho hp hl =>
    rw [ho, ← hr, hlen _ hr]
    rw [Decoder.packets_frames_append ps p hf ⟨rest, hp⟩]
    split
    · exact ⟨List.prefix_rfl, Nat.le_succ _⟩
    · rw [List.filter_append, List.length_append]
      exact ⟨List.prefix_append _ _, Nat.add_le_add_left (hone p) _⟩

end Wired
end TwinLink
