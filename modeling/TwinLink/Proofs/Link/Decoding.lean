import TwinLink.Proofs.Frame.Progress
import TwinLink.Proofs.Link.Routing

/-!
# Decoding on a link

The decoder of a link is one that has been fed since the beginning of the stream, so the loop never comes across a frame
that holds no packet.

* `Note.Discards` : the loop discards a frame; `Acts.discards` : only one that holds no packet;
* `Setup.inProgress_run`, `Setup.discards_run` : what the decoder holds, and what the loop finds, in every run;
* `decoders_kept` : what decoders keep, on their own and in the loop.
-/

namespace TwinLink

/-- The entry says that the loop has discarded a frame. -/
def Note.Discards (n : Note) : Prop := n.actor = .loop ∧ ∃ e, n.what = .logged (.undecodable e)

/-- The loop discards a frame only if that holds no packet. -/
theorem Acts.discards {h h' : Host} {a : Action} (ha : Acts h a h')
    (hp : ∀ frame, (Moment.mk h a).sorted = some frame → ∃ p, Packet.ofFrame frame = .ok p) {n : Note}
    (hn : n ∈ h'.history) (hd : n.Discards) : n ∈ h.history := by
  obtain ⟨hactor, e, hwhat⟩ := hd
  cases ha with
  | @loop i t h' hm ht =>
    rw [ht.history, List.mem_append, List.mem_map] at hn
    rcases hn with ⟨x, hx, rfl⟩ | hn
    · obtain rfl : x = .logged (.undecodable e) := hwhat
      have hs : (Moment.mk h (.advance .loop i)).sorted = h.link.loop.next := rfl
      generalize hl : h.link.loop = q at hm
      cases hm with
      | undecodable frame rest fault e he =>
        obtain ⟨p, hp⟩ := hp frame (by rw [hs, hl]; rfl)
        rw [hp] at he
        cases he
      | _ => simp [Host.loopEnd] at hx
    · exact hn
  | dispatcher i hm ht =>
    rw [ht.history, List.mem_append, List.mem_map] at hn
    rcases hn with ⟨x, -, rfl⟩ | hn
    · cases hactor
    · exact hn
  | call i hc hm hl =>
    rw [hl.history, List.mem_append, List.mem_map] at hn
    rcases hn with ⟨x, -, rfl⟩ | hn
    · cases hactor
    · exact hn
  | _ => exact hn

namespace Setup

theorem inProgress_run (setup : Setup) (as : List Action) : InProgress (Decoder.clamp setup.linkConfig.maxFrameSize)
    (setup.host.run as).link.decoder.held.toList := by
  obtain ⟨read, fault, -, hread, -⟩ := setup.decoded_run as
  have hlimit := Decoder.limit_feedChunk (.ofLimit setup.linkConfig.maxFrameSize) read
  have hheld := ((Decoder.sound_ofLimit setup.linkConfig.maxFrameSize).feedChunk read).inProgress
  rwa [hlimit, hread] at hheld

theorem discards_run (setup : Setup) (as : List Action) : ∀ n ∈ (setup.host.run as).history, ¬n.Discards := by
  induction as using List.reverseRecOn with
  | nil =>
    have hnil : (setup.host.run []).history = [] := by cases setup <;> rfl
    rw [hnil]
    exact List.forall_mem_nil _
  | append_singleton as a ih =>
    rw [Host.run_concat]
    intro n hn hd
    refine ih n ((setup.acts_run as a).discards (fun frame hs => ?_) hn hd) hd
    exact (setup.decoded_run as).packet (m := ⟨_, a⟩) hs

end Setup

/-- **What decoders keep.** Whatever limit a decoder was given and whatever has been asked of it, it holds what the bytes
since the last boundary of frames stand for, and these are a frame in progress within the limit. What comes out is a
frame that holds a packet, or an error on the fourth byte read after a boundary; either leaves the decoder as it was at
first. So in every run of a link no frame is ever discarded. -/
theorem decoders_kept :
    (∀ (limit : Nat) (calls : List Decoder.Call), Decoder.Kept limit ((Decoder.ofLimit limit).run calls)
      ((Decoder.Tracked.fresh limit).run calls).since) ∧
    ∀ (setup : Setup) (as : List Action),
      InProgress (Decoder.clamp setup.linkConfig.maxFrameSize) (setup.host.run as).link.decoder.held.toList ∧
      (∀ m ∈ setup.host.moments as, ∀ frame, m.sorted = some frame → ∃ p, Packet.ofFrame frame = .ok p) ∧
      ∀ n ∈ (setup.host.run as).history, ¬n.Discards := by
  refine ⟨Decoder.kept_run, fun setup as => ⟨setup.inProgress_run as, fun m hm frame hs => ?_, setup.discards_run as⟩⟩
  obtain ⟨bs, -, hb⟩ := Host.exists_of_mem_moments hm
  exact (hb ▸ setup.decoded_run bs : Decoded _ _ _ m.host).packet hs

end TwinLink
