import TwinLink.Proofs.Frame.Stream

/-!
# Chunks of a stream

A reader takes the stream in chunks and stops at the first error.

* `Decoder.feedChunk_append` : what a stream gives does not depend on how it is cut;
* `Decoder.feedChunk_mono` : what it has given stays given;
* `Decoder.ofFrame_of_mem_feedChunk`, `Decoder.length_le_of_mem_feedChunk` : every frame that is given holds a packet, and
  is within the limit;
* `Decoder.packets limit w` : the packets on a stream; `Decoder.packets_frames` : those that were put there.
-/

namespace TwinLink.Decoder

theorem feedChunkFrom_eq (d : Decoder) (done : List Bytes) (w : Bytes) :
    d.feedChunkFrom done w = ((d.feedChunk w).1, done.reverse ++ (d.feedChunk w).2.1, (d.feedChunk w).2.2) := by
  unfold feedChunk
  induction w generalizing d done with
  | nil => simp [feedChunkFrom]
  | cons b r ih =>
    rcases hf : d.feed b with ⟨d', o⟩
    cases o with
    | more => simp only [feedChunkFrom, hf, ih d' done]
    | frame p =>
      simp only [feedChunkFrom, hf]
      rw [ih d' (p :: done), ih d' [p]]
      simp
    | failed e => simp [feedChunkFrom, hf]

theorem feedChunk_nil (d : Decoder) : d.feedChunk [] = (d, [], none) := rfl

theorem feedChunk_more {d d' : Decoder} {b : UInt8} (h : d.feed b = (d', .more)) (r : Bytes) :
    d.feedChunk (b :: r) = d'.feedChunk r := by
  simp only [feedChunk, feedChunkFrom, h]

theorem feedChunk_frame {d d' : Decoder} {b : UInt8} {p : Bytes} (h : d.feed b = (d', .frame p)) (r : Bytes) :
    d.feedChunk (b :: r) = ((d'.feedChunk r).1, p :: (d'.feedChunk r).2.1, (d'.feedChunk r).2.2) := by
  simp only [feedChunk, feedChunkFrom, h]
  rw [feedChunkFrom_eq d' [p]]
  rfl

theorem feedChunk_failed {d d' : Decoder} {b : UInt8} {e : FrameError} (h : d.feed b = (d', .failed e)) (r : Bytes) :
    d.feedChunk (b :: r) = (d', [], some e) := by
  simp only [feedChunk, feedChunkFrom, h, List.reverse_nil]

theorem feedChunk_frame_inv {d d' d'' : Decoder} {b : UInt8} {p r : Bytes} {frames : List Bytes}
    {fault : Option FrameError} (h : d.feed b = (d', .frame p)) (hw : d.feedChunk (b :: r) = (d'', frames, fault)) :
    ∃ rest, frames = p :: rest ∧ d'.feedChunk r = (d'', rest, fault) := by
  rw [feedChunk_frame h] at hw
  obtain ⟨hd, hr⟩ := Prod.ext_iff.mp hw
  obtain ⟨hf, he⟩ := Prod.ext_iff.mp hr
  exact ⟨_, hf.symm, Prod.ext hd (Prod.ext rfl he)⟩

/-- What a stream gives does not depend on how it is cut, up to its first error. -/
theorem feedChunk_append {d d' : Decoder} {u : Bytes} {frames : List Bytes} (h : d.feedChunk u = (d', frames, none))
    (v : Bytes) : d.feedChunk (u ++ v) = ((d'.feedChunk v).1, frames ++ (d'.feedChunk v).2.1, (d'.feedChunk v).2.2) := by
  induction u generalizing d frames with
  | nil =>
    rw [feedChunk_nil] at h
    cases h
    rfl
  | cons b r ih =>
    rw [List.cons_append]
    rcases hf : d.feed b with ⟨d₁, o⟩
    cases o with
    | more =>
      rw [feedChunk_more hf] at h ⊢
      exact ih h
    | frame p =>
      obtain ⟨frames', rfl, h'⟩ := feedChunk_frame_inv hf h
      rw [feedChunk_frame hf]
      rw [ih h', List.cons_append]
    | failed e =>
      rw [feedChunk_failed hf] at h
      cases h

/-- An error ends a stream for good. -/
theorem feedChunk_append_failed {d d' : Decoder} {u : Bytes} {frames : List Bytes} {e : FrameError}
    (h : d.feedChunk u = (d', frames, some e)) (v : Bytes) : d.feedChunk (u ++ v) = (d', frames, some e) := by
  induction u generalizing d frames with
  | nil => rw [feedChunk_nil] at h; cases h
  | cons b r ih =>
    rw [List.cons_append]
    rcases hf : d.feed b with ⟨d₁, o⟩
    cases o with
    | more =>
      rw [feedChunk_more hf] at h ⊢
      exact ih h
    | frame p =>
      obtain ⟨frames', rfl, h'⟩ := feedChunk_frame_inv hf h
      rw [feedChunk_frame hf]
      rw [ih h']
    | failed e' =>
      rw [feedChunk_failed hf] at h ⊢
      exact h

/-- What a stream has given stays given. -/
theorem feedChunk_mono (d : Decoder) (u v : Bytes) : (d.feedChunk u).2.1 <+: (d.feedChunk (u ++ v)).2.1 := by
  rcases h : d.feedChunk u with ⟨d', frames, fault⟩
  cases fault with
  | none =>
    rw [feedChunk_append h]
    exact List.prefix_append _ _
  | some e => exact feedChunk_append_failed h v ▸ List.prefix_rfl

/-! ## Frames that are given -/

theorem sound_of_accept {d d' : Decoder} {b : UInt8} {f : Bytes} (h : d.accept b = (d', .frame f)) :
    (∃ p, Packet.ofFrame f = .ok p) ∧ f.length ≤ d.limit := by
  obtain ⟨limit, held, pending⟩ := d
  unfold accept at h
  dsimp only at h
  generalize held.push b = held at h
  split at h
  · cases h
  · rename_i n hn
    unfold declared? at hn
    split_ifs at hn h with h₁ h₂ h₃ h₄ <;> simp only [Prod.mk.injEq, reduceCtorEq, and_false, Outcome.frame.injEq] at h
    obtain ⟨-, rfl⟩ := h
    obtain rfl := Option.some.inj hn
    refine ⟨?_, Nat.le_trans (Nat.le_of_eq h₄) (Nat.not_lt.mp h₃)⟩
    obtain ⟨l⟩ := held
    -- at least a header is there, and it declares the length
    match l with
    | lo :: hi :: type :: reserved :: payload =>
      refine ⟨⟨type, payload⟩, ?_⟩
      exact if_pos h₄.symm
    | [] => simp [Frame.headerSize] at h₁
    | [_] => simp [Frame.headerSize] at h₁
    | [_, _] => simp [Frame.headerSize] at h₁
    | [_, _, _] => simp [Frame.headerSize] at h₁

theorem sound_of_feed {d d' : Decoder} {b : UInt8} {f : Bytes} (h : d.feed b = (d', .frame f)) :
    (∃ p, Packet.ofFrame f = .ok p) ∧ f.length ≤ d.limit := by
  unfold feed at h
  split_ifs at h
  · cases h
  · cases h
  · exact sound_of_accept h
  · exact sound_of_accept h

theorem sound_of_mem_feedChunk {d : Decoder} {w f : Bytes} (h : f ∈ (d.feedChunk w).2.1) :
    (∃ p, Packet.ofFrame f = .ok p) ∧ f.length ≤ d.limit := by
  induction w generalizing d with
  | nil => cases h
  | cons b r ih =>
    have hlimit := limit_feed d b
    rcases hf : d.feed b with ⟨d', o⟩
    rw [hf] at hlimit
    cases o with
    | more =>
      rw [feedChunk_more hf] at h
      exact hlimit ▸ ih h
    | frame p =>
      rw [feedChunk_frame hf] at h
      rcases List.mem_cons.mp h with rfl | h
      · exact sound_of_feed hf
      · exact hlimit ▸ ih h
    | failed e =>
      rw [feedChunk_failed hf] at h
      cases h

theorem ofFrame_of_mem_feedChunk {d : Decoder} {w f : Bytes} (h : f ∈ (d.feedChunk w).2.1) :
    ∃ p, Packet.ofFrame f = .ok p := (sound_of_mem_feedChunk h).1

theorem length_le_of_mem_feedChunk {d : Decoder} {w f : Bytes} (h : f ∈ (d.feedChunk w).2.1) :
    f.length ≤ d.limit := (sound_of_mem_feedChunk h).2

/-! ## Packets on a stream -/

/-- The frame of a packet. -/
def frameOf (p : Packet) : Bytes := Frame.encode p.toBytes

/-- The packets on a stream of bytes, up to its first error. -/
def packets (limit : Nat) (w : Bytes) : List Packet :=
  ((ofLimit limit).feedChunk w).2.1.filterMap fun frame => (Packet.ofFrame frame).toOption

/-- Where every outcome is a frame, there is no error. -/
theorem feedChunk_of_feedAllFrom {d d' : Decoder} {n : Nat} {w : Bytes} {outs : List (Nat × Outcome)}
    {frames : List Bytes} (h : d.feedAllFrom n w = (d', outs)) (ho : outs.map (·.2) = frames.map .frame) :
    d.feedChunk w = (d', frames, none) := by
  induction w generalizing d n outs frames with
  | nil =>
    rw [feedAllFrom] at h
    cases h
    rw [List.map_nil, eq_comm, List.map_eq_nil_iff] at ho
    rw [ho, feedChunk_nil]
  | cons b r ih =>
    rcases hf : d.feed b with ⟨d₁, o⟩
    cases o with
    | more =>
      rw [feedAllFrom_more hf] at h
      rw [feedChunk_more hf]
      exact ih h ho
    | frame p =>
      rw [feedAllFrom_frame hf] at h
      cases h
      cases frames with
      | nil => cases ho
      | cons q frames =>
        obtain ⟨hq, htail⟩ := List.cons.inj ho
        cases hq
        rw [feedChunk_frame hf, ih rfl htail]
    | failed e =>
      rw [feedAllFrom_failed hf] at h
      cases h
      cases frames with
      | nil => cases ho
      | cons q frames => cases (List.cons.inj ho).1

theorem feedChunk_frameOf {d : Decoder} {p : Packet} (h : p.totalLength ≤ d.limit) (hl : d.limit ≤ Frame.maxLength) :
    d.feedChunk (frameOf p) = (holding d.limit [], [p.toBytes], none) :=
  feedChunk_of_feedAllFrom (feedAllFrom_encode (Packet.wellFramed_toBytes h hl) 0) rfl

/-- The beginning of a frame gives nothing yet. -/
theorem feedChunk_cut {d : Decoder} {p : Packet} {w : Bytes} (h : p.totalLength ≤ d.limit)
    (hl : d.limit ≤ Frame.maxLength) (hw : w <+: frameOf p) (hne : w ≠ frameOf p) : (d.feedChunk w).2.1 = [] := by
  have hcut : d.feedAllFrom 0 w = ((d.feedAllFrom 0 w).1, []) :=
    Prod.ext rfl (feedAllFrom_cut_encode (Packet.wellFramed_toBytes h hl) hw hne 0)
  have hchunk : d.feedChunk w = ((d.feedAllFrom 0 w).1, [], none) := feedChunk_of_feedAllFrom hcut rfl
  rw [hchunk]

theorem feedChunk_frames {d : Decoder} (ps : List Packet) (h : ∀ p ∈ ps, p.totalLength ≤ d.limit)
    (hl : d.limit ≤ Frame.maxLength) :
    ∃ d', d'.limit = d.limit ∧ d.feedChunk (ps.flatMap frameOf) = (d', ps.map Packet.toBytes, none) := by
  induction ps generalizing d with
  | nil => exact ⟨d, rfl, rfl⟩
  | cons p ps ih =>
    obtain ⟨d', hd', hr⟩ := ih (d := holding d.limit []) (fun q hq => h q (List.mem_cons_of_mem _ hq)) hl
    refine ⟨d', hd', ?_⟩
    rw [List.flatMap_cons, feedChunk_append (feedChunk_frameOf (h p List.mem_cons_self) hl), hr]
    rfl

theorem ofFrame_map_toBytes (ps : List Packet) (h : ∀ p ∈ ps, p.totalLength ≤ Frame.maxLength) :
    ((ps.map Packet.toBytes).filterMap fun frame => (Packet.ofFrame frame).toOption) = ps := by
  induction ps with
  | nil => rfl
  | cons p ps ih =>
    have hp : (Packet.ofFrame p.toBytes).toOption = some p := by
      rw [Packet.ofFrame_toBytes (h p List.mem_cons_self)]
      rfl
    rw [List.map_cons, List.filterMap_cons, hp]
    exact congrArg (p :: ·) (ih fun q hq => h q (List.mem_cons_of_mem _ hq))

/-- **The packets on a stream of frames** are those that were put there. -/
theorem packets_frames (ps : List Packet) (h : ∀ p ∈ ps, p.totalLength ≤ Frame.maxLength) :
    packets Frame.maxLength (ps.flatMap frameOf) = ps := by
  have hlimit : (ofLimit Frame.maxLength).limit = Frame.maxLength := by decide
  obtain ⟨d', -, hr⟩ := feedChunk_frames (d := ofLimit Frame.maxLength) ps (by rwa [hlimit]) (Nat.le_of_eq hlimit)
  rw [packets, hr]
  exact ofFrame_map_toBytes ps h

/-- A last frame counts if it is complete. -/
theorem packets_frames_append (ps : List Packet) (p : Packet) {part : Bytes}
    (h : ∀ q ∈ ps ++ [p], q.totalLength ≤ Frame.maxLength) (hw : part <+: frameOf p) :
    packets Frame.maxLength (ps.flatMap frameOf ++ part) = if part = frameOf p then ps ++ [p] else ps := by
  have hps : ∀ q ∈ ps, q.totalLength ≤ Frame.maxLength := fun q hq => h q (List.mem_append_left _ hq)
  have hp : p.totalLength ≤ Frame.maxLength := h p (List.mem_append_right _ (List.mem_singleton.mpr rfl))
  split
  · rename_i he
    rw [he, show ps.flatMap frameOf ++ frameOf p = (ps ++ [p]).flatMap frameOf by simp]
    exact packets_frames _ h
  · rename_i hne
    have hlimit : (ofLimit Frame.maxLength).limit = Frame.maxLength := by decide
    obtain ⟨d', hd', hr⟩ := feedChunk_frames (d := ofLimit Frame.maxLength) ps (by rwa [hlimit]) (Nat.le_of_eq hlimit)
    rw [hlimit] at hd'
    rw [packets, feedChunk_append hr, feedChunk_cut (by rwa [hd']) (Nat.le_of_eq hd') hw hne, List.append_nil]
    exact ofFrame_map_toBytes _ hps

/-- What a longer stream adds comes after. -/
theorem packets_mono (limit : Nat) (u v : Bytes) : packets limit u <+: packets limit (u ++ v) :=
  (feedChunk_mono (ofLimit limit) u v).filterMap _

end TwinLink.Decoder
