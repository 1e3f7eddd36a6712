import TwinLink.Proofs.Frame.Batch
import TwinLink.Proofs.Link.Decoding
import TwinLink.Settings

/-!
# Limits that are set and limits that are kept

The limit on frames goes from the settings through the configurations of a session and of its link to the decoder. It is
checked first and brought into range last, and the two agree: a limit that passes the check is in range. From then on a
packet within the limit is let through, and a longer one is refused when its header is there.

* `Settings.validate_eq_ok_iff` : which settings pass the check;
* `Decoder.clamp_eq_self` : a limit in range stays as it is;
* `Decoder.feedAllFrom_header` : a header that asks for too much;
* `Decoder.Enforces limit d` : what a decoder does with the frame of any packet; `Decoder.enforces` : each its limit;
* `Settings.limits_enforced` : from the settings to the decoders of all links.
-/

namespace TwinLink
open Decoder (Outcome frameOf)

/-! ## Settings -/

namespace Settings

variable {s : Settings}

/-- The settings that can work. -/
theorem validate_eq_ok_iff : s.validate = .ok () ↔ s.baudRate ≠ 0 ∧ s.requestTimeout ≠ 0 ∧
    (Frame.headerSize ≤ s.maxFrameSize ∧ s.maxFrameSize ≤ Frame.maxLength) ∧ s.eventCapacity ≠ 0 ∧
    (s.comPort.isSome ∨ s.useDeviceInterface) := by
  have hport : (s.comPort.isNone && !s.useDeviceInterface) = true ↔ ¬(s.comPort.isSome ∨ s.useDeviceInterface) := by
    cases s.comPort <;> simp
  unfold validate
  split_ifs with hbaud htimeout hsize hcapacity hnone
  · exact ⟨nofun, fun h => absurd hbaud h.1⟩
  · exact ⟨nofun, fun h => absurd htimeout h.2.1⟩
  · exact ⟨nofun, fun h => by omega⟩
  · exact ⟨nofun, fun h => absurd hcapacity h.2.2.2.1⟩
  · exact ⟨nofun, fun h => absurd h.2.2.2.2 (hport.mp hnone)⟩
  · exact ⟨fun _ => ⟨hbaud, htimeout, by omega, hcapacity, not_not.mp (hnone ∘ hport.mpr)⟩, fun _ => rfl⟩

end Settings

namespace Decoder

variable {limit : Nat} {done rest : Bytes} {b : UInt8} {d d' : Decoder} {o : Outcome}

/-- A limit in the range of lengths that a packet can have stays as it is. -/
theorem clamp_eq_self (hmin : Frame.headerSize ≤ limit) (hmax : limit ≤ Frame.maxLength) : clamp limit = limit := by
  rw [clamp, Nat.min_eq_left hmax, Nat.max_eq_right hmin]

/-! ## Headers -/

/-- Before the header is complete nothing is checked. -/
theorem accept_short (h : done.length + 1 < Frame.headerSize) :
    (holding limit done).accept b = (holding limit (done ++ [b]), .more) := by
  have hpush : done.toArray.push b = (done ++ [b]).toArray := by simp
  have hlen : (done ++ [b]).length = done.length + 1 := List.length_append
  simp only [holding, accept, hpush, declared?_toArray, hlen, h, if_true]

/-- The last byte of a header that asks for more than the limit. -/
theorem accept_over (h : done.length + 1 = Frame.headerSize)
    (hmin : Frame.headerSize ≤ Frame.opening (done ++ [b])) (hover : limit < Frame.opening (done ++ [b])) :
    (holding limit done).accept b =
      (holding limit [], .failed (.overflow (Frame.opening (done ++ [b])) limit)) := by
  have hpush : done.toArray.push b = (done ++ [b]).toArray := by simp
  have hlen : (done ++ [b]).length = done.length + 1 := List.length_append
  simp only [holding, accept, hpush, declared?_toArray, hlen, h, Nat.lt_irrefl, if_false, Nat.not_lt.mpr hmin, hover,
    if_true]

/-- The rest of a header that asks for more than the limit: an error on its last byte, and nothing before. -/
theorem feedAllFrom_header (done : Bytes) (hr : rest ≠ []) (hlen : (done ++ rest).length = Frame.headerSize)
    (hmin : Frame.headerSize ≤ Frame.opening (done ++ rest)) (hover : limit < Frame.opening (done ++ rest)) (n : Nat) :
    (holding limit done).feedAllFrom n (Frame.escape rest) = (holding limit [],
      [(n + (Frame.escape rest).length - 1, .failed (.overflow (Frame.opening (done ++ rest)) limit))]) := by
  induction rest generalizing done n with
  | nil => exact absurd rfl hr
  | cons b r ih =>
    rw [List.length_append, List.length_cons] at hlen
    cases r with
    | nil =>
      rw [feedAllFrom_byte (accept_over hlen hmin hover)]
      rfl
    | cons c r =>
      have hsplit : Frame.escape (b :: c :: r) = Frame.escape [b] ++ Frame.escape (c :: r) :=
        Frame.escape_append [b] (c :: r)
      have hshort : done.length + 1 < Frame.headerSize := by
        rw [List.length_cons] at hlen
        omega
      have hpos := List.length_pos_iff.mpr (Frame.escape_ne_nil (List.cons_ne_nil c r))
      rw [List.append_cons] at hmin hover ⊢
      rw [feedAllFrom_byte (accept_short hshort), ih _ (List.cons_ne_nil c r) (by simp; omega) hmin hover, hsplit,
        List.length_append, Nat.add_assoc]
      rfl

/-! ## Packets over the limit -/

/-- An error without a frame before it is what a reader in chunks is given. -/
theorem feedChunk_of_failed {n k : Nat} {w : Bytes} {e : FrameError} {after : List (Nat × Outcome)}
    (h : (d.feedAllFrom n w).2 = (k, .failed e) :: after) : d.feedChunk w = (d.reset, [], some e) := by
  induction w generalizing d n with
  | nil => cases h
  | cons b r ih =>
    have hlimit := limit_feed d b
    rcases hf : d.feed b with ⟨d', o⟩
    rw [hf] at hlimit
    rw [feedAllFrom_cons hf] at h
    cases o with
    | more =>
      rw [feedChunk_more hf, ih h]
      exact congrArg (fun limit => (Decoder.mk limit #[] false, [], some e)) hlimit
    | frame p => cases (List.cons.inj h).1
    | failed e' =>
      cases (List.cons.inj h).1
      rw [feedChunk_failed hf, reset_of_failed hf]

/-- What the decoder does with the frame of any packet whose length can be spelled. -/
structure Enforces (limit : Nat) (d : Decoder) : Prop where
  /-- A packet within the limit comes out on the last byte of its frame, and nothing else does. -/
  within : ∀ p : Packet, p.totalLength ≤ limit → p.totalLength ≤ Frame.maxLength →
    (d.feedAll (frameOf p)).2 = [((frameOf p).length - 1, .frame p.toBytes)] ∧
      (d.feedChunk (frameOf p)).2 = ([p.toBytes], none)
  /-- Of a longer one the last byte of the header brings the error, and no frame comes out before it. -/
  beyond : ∀ p : Packet, limit < p.totalLength → p.totalLength ≤ Frame.maxLength →
    (∃ after, (d.feedAll (frameOf p)).2 = ((Frame.encode (p.toBytes.take Frame.headerSize)).length - 1,
      .failed (.overflow p.totalLength limit)) :: after) ∧
      (d.feedChunk (frameOf p)).2 = ([], some (.overflow p.totalLength limit))

/-- The frame of a packet over the limit, up to its header. -/
theorem feedAllFrom_over {p : Packet} (hover : d.limit < p.totalLength) (hmax : p.totalLength ≤ Frame.maxLength)
    (n : Nat) : ∃ after, (d.feedAllFrom n (frameOf p)).2 =
      (n + (Frame.encode (p.toBytes.take Frame.headerSize)).length - 1,
        .failed (.overflow p.totalLength d.limit)) :: after := by
  have hlen : (p.toBytes.take Frame.headerSize).length = Frame.headerSize := rfl
  have hopening : Frame.opening (p.toBytes.take Frame.headerSize) = p.totalLength := Packet.declared_ofNat hmax
  have hmin : Frame.headerSize ≤ p.totalLength := Nat.le_add_right _ _
  have hne : p.toBytes.take Frame.headerSize ≠ [] := List.ne_nil_of_length_pos (by rw [hlen]; decide)
  have hheader := feedAllFrom_header [] hne hlen (hopening.symm ▸ hmin) (hopening.symm ▸ hover) (n + 1)
  have hframe : frameOf p = Frame.marker :: (Frame.escape (p.toBytes.take Frame.headerSize) ++
      Frame.escape (p.toBytes.drop Frame.headerSize)) := by
    rw [← Frame.escape_append, List.take_append_drop]
    rfl
  have hpos : n + 1 + (Frame.escape (p.toBytes.take Frame.headerSize)).length - 1 =
      n + (Frame.encode (p.toBytes.take Frame.headerSize)).length - 1 := by
    rw [Frame.encode, List.length_cons]
    omega
  rw [List.nil_append, hopening, hpos] at hheader
  rw [hframe, feedAllFrom_more (feed_marker d), reset_eq_holding, feedAllFrom_append, hheader]
  exact ⟨_, rfl⟩

/-- **Every decoder enforces its limit,** wherever it stands in the stream. -/
theorem enforces (d : Decoder) : d.Enforces d.limit where
  within p hp hmax := by
    have hframed : WellFramed d.limit p.toBytes :=
      { Packet.wellFramed_toBytes (Nat.le_refl _) hmax with length_le := p.length_toBytes.symm ▸ hp }
    have hfeed := feedAllFrom_encode hframed 0
    refine ⟨(congrArg Prod.snd hfeed).trans ?_, ?_⟩
    · rw [Nat.zero_add]
      rfl
    · have hchunk : d.feedChunk (frameOf p) = (holding d.limit [], [p.toBytes], none) :=
        feedChunk_of_feedAllFrom hfeed rfl
      exact congrArg Prod.snd hchunk
  beyond p hover hmax := by
    have hfirst := feedAllFrom_over hover hmax 0
    rw [Nat.zero_add] at hfirst
    obtain ⟨after, h⟩ := hfirst
    exact ⟨⟨after, h⟩, by rw [feedChunk_of_failed h]⟩

end Decoder

/-! ## From the settings to the decoder -/

/-- A link keeps the limit that it was made with. -/
theorem Setup.limit_run (setup : Setup) (as : List Action) :
    (setup.host.run as).link.decoder.limit = Decoder.clamp setup.linkConfig.maxFrameSize := by
  obtain ⟨read, fault, -, hread, -⟩ := setup.decoded_run as
  have hlimit := Decoder.limit_feedChunk (.ofLimit setup.linkConfig.maxFrameSize) read
  rwa [hread] at hlimit

theorem Decoder.limit_run (limit : Nat) (calls : List Call) : ((ofLimit limit).run calls).limit = clamp limit := by
  have h := (Tracked.sound_run limit calls).limit_eq
  rwa [Tracked.run_decoder] at h

/-- **The limits that are set are the limits that are kept.** From settings that pass the check a link is made with the
limit on frames and the number of events in its queue that they say. Its decoder lets through every packet within the
limit and refuses every longer one for its length as soon as the header is there: whatever has been asked of the decoder
before, and at every moment of a run of the link, with or without a session. -/
theorem Settings.limits_enforced (s : Settings) (hs : s.validate = .ok ()) (port : String) :
    let config := s.sessionConfig port
    let link := Link.ofConfig config.link
    (link.decoder.limit = s.maxFrameSize ∧ link.events.capacity = s.eventCapacity) ∧
    (∀ calls, (link.decoder.run calls).Enforces s.maxFrameSize) ∧
    ∀ (setup : Setup) (as : List Action), setup.linkConfig = config.link →
      (setup.host.run as).link.decoder.Enforces s.maxFrameSize := by
  obtain ⟨-, -, ⟨hmin, hmax⟩, hcapacity, -⟩ := validate_eq_ok_iff.mp hs
  have hclamp : Decoder.clamp s.maxFrameSize = s.maxFrameSize := Decoder.clamp_eq_self hmin hmax
  refine ⟨⟨hclamp, Nat.max_eq_left (Nat.one_le_iff_ne_zero.mpr hcapacity)⟩, fun calls => ?_, fun setup as hsetup => ?_⟩
  · have hlimit := (Decoder.limit_run s.maxFrameSize calls).trans hclamp
    exact hlimit ▸ Decoder.enforces _
  · have hlimit := setup.limit_run as
    rw [hsetup] at hlimit
    exact (hlimit.trans hclamp) ▸ Decoder.enforces _

/-- Settings with a limit one below the length that a marker spells. -/
def Settings.belowMarker : Settings := { comPort := some "a", maxFrameSize := 89 }

/-- A packet of 89 bytes is let through, after the beginning of another; one of 90 is not, and its header takes one byte
more on the wire, since a marker spells its length. The same holds of the decoder of a session that starts. -/
theorem Settings.limits_enforced_belowMarker :
    let short : Packet := ⟨6, List.replicate 85 1⟩
    let long : Packet := ⟨6, List.replicate 86 1⟩
    let broken := (Decoder.ofLimit 89).run [.slice [0x5A, 0x07]]
    let session := (Host.ofSession (belowMarker.sessionConfig "a") (.scripted [] 0 0)).run
      [.make .start, .advance (.call 0) false]
    belowMarker.validate = .ok () ∧
    (broken.feedAll (frameOf short)).2 = [(89, .frame short.toBytes)] ∧
    (∃ after, (broken.feedAll (frameOf long)).2 = (5, .failed (.overflow 90 89)) :: after) ∧
    (session.link.decoder.feedChunk (frameOf long)).2 = ([], some (.overflow 90 89)) := by
  have hs : belowMarker.validate = .ok () := rfl
  obtain ⟨-, hcalls, hruns⟩ := limits_enforced belowMarker hs "a"
  have hbroken := hcalls [.slice [0x5A, 0x07]]
  have hsession := hruns (.session (belowMarker.sessionConfig "a") (.scripted [] 0 0))
    [.make .start, .advance (.call 0) false] rfl
  exact ⟨hs, (hbroken.within _ (by decide) (by decide)).1, (hbroken.beyond _ (by decide) (by decide)).1,
    (hsession.beyond _ (by decide) (by decide)).2⟩

end TwinLink
