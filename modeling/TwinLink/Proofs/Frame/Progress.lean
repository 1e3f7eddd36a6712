import TwinLink.Proofs.Frame.Chunk
import TwinLink.Proofs.Frame.Escaping

/-!
# Frames in progress

Between two bytes a decoder holds fewer bytes than its limit and, once a header is there, fewer than that declares.

* `Frame.opening raw` : the length that `raw` opens with; `InProgress limit raw` : a frame that is not complete yet;
* `Decoder.Accepts`, `Decoder.accept_cases` : the four things that one more byte of a packet can do;
* `Decoder.Feeds`, `Decoder.feed_cases` : what one byte of the wire can do;
* `Decoder.Call`, `Decoder.run` : what is asked of a decoder;
* `Decoder.Tracked` : a decoder with the bytes since the last boundary of frames, of which it holds what they stand for;
* `Decoder.Kept`, `Decoder.kept_run` : what every sequence of calls keeps.
-/

namespace TwinLink
open Decoder (Outcome)

/-- The length that a packet opens with. -/
def Frame.opening (raw : Bytes) : Nat := declared (raw.getD 0 0) (raw.getD 1 0)

/-- More bytes do not change the length that a packet opens with. -/
theorem Frame.opening_append {raw : Bytes} (h : 2 ≤ raw.length) (r : Bytes) : opening (raw ++ r) = opening raw := by
  unfold opening
  rw [List.getD_append _ _ _ _ (by omega), List.getD_append _ _ _ _ (by omega)]

/-- The bytes of a frame that is not complete: fewer than the limit, and once the header is there, fewer than it
declares. -/
structure InProgress (limit : Nat) (raw : Bytes) : Prop where
  length_lt : raw.length < limit
  header : Frame.headerSize ≤ raw.length →
    Frame.headerSize ≤ Frame.opening raw ∧ Frame.opening raw ≤ limit ∧ raw.length < Frame.opening raw

theorem InProgress.nil {limit : Nat} (h : Frame.headerSize ≤ limit) : InProgress limit [] :=
  ⟨Nat.lt_of_lt_of_le (by decide) h, fun hn => absurd hn (by decide)⟩

theorem WellFramed.ofFrame {limit : Nat} {raw : Bytes} (h : WellFramed limit raw) : ∃ p, Packet.ofFrame raw = .ok p := by
  obtain ⟨hdecl, hmin, -⟩ := h
  match raw with
  | lo :: hi :: type :: reserved :: payload => exact ⟨⟨type, payload⟩, if_pos hdecl⟩
  | [] => simp [Frame.headerSize] at hmin
  | [_] => simp [Frame.headerSize] at hmin
  | [_, _] => simp [Frame.headerSize] at hmin
  | [_, _, _] => simp [Frame.headerSize] at hmin

namespace Decoder

variable {limit : Nat} {raw : Bytes}

/-! ## One byte -/

/-- What one more byte of a packet can do, `raw` being those before it: the header is not complete or more bytes are to
come, the packet is complete, or the fourth byte shows that the length is wrong. -/
inductive Accepts (limit : Nat) (raw : Bytes) (b : UInt8) : Decoder × Outcome → Prop
  | more (h : InProgress limit (raw ++ [b])) : Accepts limit raw b (holding limit (raw ++ [b]), .more)
  | frame (h : WellFramed limit (raw ++ [b])) : Accepts limit raw b (holding limit [], .frame (raw ++ [b]))
  | malformed (hl : raw.length = 3) (hn : Frame.opening (raw ++ [b]) < Frame.headerSize) : Accepts limit raw b
      (holding limit [], .failed (.malformedHeader (Frame.opening (raw ++ [b]))))
  | overflow (hl : raw.length = 3) (hn : Frame.headerSize ≤ Frame.opening (raw ++ [b]))
      (hover : limit < Frame.opening (raw ++ [b])) : Accepts limit raw b
      (holding limit [], .failed (.overflow (Frame.opening (raw ++ [b])) limit))

theorem declared?_toArray (raw : Bytes) : declared? raw.toArray =
    if raw.length < Frame.headerSize then none else some (Frame.opening raw) := by
  simp [declared?, Frame.opening, Array.getD_eq_getD_getElem?, List.getD_eq_getElem?_getD]

theorem accept_cases (hm : Frame.headerSize ≤ limit) (h : InProgress limit raw) (pending : Bool) (b : UInt8) :
    Accepts limit raw b (accept ⟨limit, raw.toArray, pending⟩ b) := by
  have hpush : raw.toArray.push b = (raw ++ [b]).toArray := by simp
  have hlen : (raw ++ [b]).length = raw.length + 1 := by simp
  have hlt := h.length_lt
  simp only [accept, hpush, declared?_toArray]
  by_cases hs : (raw ++ [b]).length < Frame.headerSize
  · simp only [hs, if_true]
    exact .more ⟨Nat.lt_of_lt_of_le hs hm, fun hn => absurd hs (Nat.not_lt.mpr hn)⟩
  · simp only [hs, if_false]
    -- a header that was there before has been found right, so only a new one can be wrong
    have hold : raw.length ≠ 3 → Frame.headerSize ≤ Frame.opening (raw ++ [b]) ∧
        Frame.opening (raw ++ [b]) ≤ limit ∧ raw.length < Frame.opening (raw ++ [b]) := fun hne => by
      have hfour : Frame.headerSize ≤ raw.length := by
        simp only [Frame.headerSize] at hs ⊢
        omega
      rw [Frame.opening_append (Nat.le_trans (by decide) hfour)]
      exact h.header hfour
    split_ifs with hmin hmax hdone
    · exact .malformed (by_contra fun hne => Nat.not_lt.mpr (hold hne).1 hmin) hmin
    · exact .overflow (by_contra fun hne => Nat.not_lt.mpr (hold hne).2.1 hmax) (Nat.not_lt.mp hmin) hmax
    · rw [List.size_toArray] at hdone
      exact .frame ⟨hdone.symm, Nat.not_lt.mp hs, hdone ▸ Nat.not_lt.mp hmax⟩
    · rw [List.size_toArray] at hdone
      have hmore : (raw ++ [b]).length < Frame.opening (raw ++ [b]) := by
        by_cases hne : raw.length = 3
        · simp only [Frame.headerSize] at hmin
          omega
        · have := (hold hne).2.2
          omega
      exact .more ⟨by omega, fun _ => ⟨Nat.not_lt.mp hmin, Nat.not_lt.mp hmax, hmore⟩⟩

/-- What one byte of the wire can do. -/
inductive Feeds (d : Decoder) (b : UInt8) : Decoder × Outcome → Prop
  | marker (hb : b = Frame.marker) : Feeds d b (holding d.limit [], .more)
  | mark (hb : b = Frame.escapeMark) : Feeds d b ({ d with pending := true }, .more)
  | byte (hm : b ≠ Frame.marker) (he : b ≠ Frame.escapeMark) {x : Decoder × Outcome}
      (hx : Accepts d.limit d.held.toList (if d.pending then b + 1 else b) x) : Feeds d b x

/-- The decoder between two bytes. -/
structure Sound (d : Decoder) : Prop where
  header_le : Frame.headerSize ≤ d.limit
  inProgress : InProgress d.limit d.held.toList

theorem Sound.fresh (h : Frame.headerSize ≤ limit) : (holding limit []).Sound := ⟨h, .nil h⟩

theorem headerSize_le_clamp (limit : Nat) : Frame.headerSize ≤ clamp limit := Nat.le_max_left _ _

theorem sound_ofLimit (limit : Nat) : (ofLimit limit).Sound := .fresh (headerSize_le_clamp limit)

variable {d d' : Decoder}

theorem feed_cases (h : d.Sound) (b : UInt8) : Feeds d b (d.feed b) := by
  unfold feed
  split_ifs with hm he hp
  · exact .marker (by simpa using hm)
  · exact .mark (by simpa using he)
  · refine .byte (by simpa using hm) (by simpa using he) ?_
    rw [if_pos hp]
    exact accept_cases h.header_le h.inProgress d.pending (b + 1)
  · refine .byte (by simpa using hm) (by simpa using he) ?_
    rw [if_neg hp]
    exact accept_cases h.header_le h.inProgress d.pending b

theorem Accepts.sound {x : Decoder × Outcome} {b : UInt8} (hm : Frame.headerSize ≤ limit)
    (h : Accepts limit raw b x) : x.1.Sound := by
  cases h with
  | more h => exact ⟨hm, h⟩
  | frame | malformed | overflow => exact .fresh hm

theorem Sound.feed (h : d.Sound) (b : UInt8) : (d.feed b).1.Sound := by
  have hf := feed_cases h b
  generalize d.feed b = x at hf
  cases hf with
  | marker => exact .fresh h.header_le
  | mark => exact ⟨h.header_le, h.inProgress⟩
  | byte hm he hx => exact hx.sound h.header_le

theorem Sound.feedChunk (h : d.Sound) (w : Bytes) : (d.feedChunk w).1.Sound := by
  induction w generalizing d with
  | nil => exact h
  | cons b r ih =>
    have hb := h.feed b
    rcases hf : d.feed b with ⟨d', o⟩
    rw [hf] at hb
    cases o with
    | more => rw [feedChunk_more hf]; exact ih hb
    | frame p => rw [feedChunk_frame hf]; exact ih hb
    | failed e => rw [feedChunk_failed hf]; exact hb

theorem limit_feedChunk (d : Decoder) (w : Bytes) : (d.feedChunk w).1.limit = d.limit := by
  induction w generalizing d with
  | nil => rfl
  | cons b r ih =>
    have hb := limit_feed d b
    rcases hf : d.feed b with ⟨d', o⟩
    rw [hf] at hb
    cases o with
    | more => rw [feedChunk_more hf]; exact (ih d').trans hb
    | frame p => rw [feedChunk_frame hf]; exact (ih d').trans hb
    | failed e => rw [feedChunk_failed hf]; exact hb

/-- A frame comes out complete, and leaves nothing behind. -/
theorem Sound.frame (h : d.Sound) {b : UInt8} {f : Bytes} (hf : d.feed b = (d', .frame f)) :
    WellFramed d.limit f ∧ d' = holding d.limit [] := by
  have hc := feed_cases h b
  rw [hf] at hc
  cases hc with
  | byte hm he hx =>
    cases hx with
    | frame h => exact ⟨h, rfl⟩

/-- An error comes with the fourth byte of a packet, and leaves nothing behind. -/
theorem Sound.failed (h : d.Sound) {b : UInt8} {e : FrameError} (hf : d.feed b = (d', .failed e)) :
    b ≠ Frame.escapeMark ∧ d.held.size = 3 ∧ d' = holding d.limit [] := by
  have hc := feed_cases h b
  rw [hf] at hc
  cases hc with
  | byte hm he hx =>
    cases hx with
    | malformed hl | overflow hl => exact ⟨he, hl, rfl⟩

/-! ## Slices -/

theorem feedSlice_more {b : UInt8} (h : d.feed b = (d', .more)) (r : Bytes) :
    d.feedSlice (b :: r) = d'.feedSlice r := by
  unfold feedSlice
  rw [feedChunk_more h]

theorem feedSlice_frame {b : UInt8} {p : Bytes} (h : d.feed b = (d', .frame p)) (r : Bytes) :
    d.feedSlice (b :: r) = ((d'.feedSlice r).1, (d'.feedSlice r).2.map (p :: ·)) := by
  unfold feedSlice
  rw [feedChunk_frame h]
  rcases d'.feedChunk r with ⟨d'', frames, _ | e⟩ <;> rfl

theorem feedSlice_failed {b : UInt8} {e : FrameError} (h : d.feed b = (d', .failed e)) (r : Bytes) :
    d.feedSlice (b :: r) = (d', .error e) := by
  unfold feedSlice
  rw [feedChunk_failed h]

/-! ## Calls -/

/-- What can be asked of a decoder. -/
inductive Call
  | feed (b : UInt8)
  | slice (w : Bytes)
  | reset
deriving DecidableEq, Repr

/-- The decoder after a call. -/
def call (d : Decoder) : Call → Decoder
  | .feed b => (d.feed b).1
  | .slice w => (d.feedSlice w).1
  | .reset => d.reset

/-- The decoder after a sequence of calls. -/
def run (d : Decoder) (calls : List Call) : Decoder := calls.foldl call d

/-- A decoder with the bytes that it has read since the last boundary of frames: since it was new or reset, or since a
marker, a frame or an error. -/
structure Tracked where
  decoder : Decoder
  since : Bytes

namespace Tracked

def fresh (limit : Nat) : Tracked := ⟨ofLimit limit, []⟩

/-- The bytes since the last boundary after one more byte. -/
def sinceAfter (since : Bytes) (b : UInt8) : Outcome → Bytes
  | .more => if b = Frame.marker then [] else since ++ [b]
  | .frame _ => []
  | .failed _ => []

def feed (t : Tracked) (b : UInt8) : Tracked where
  decoder := (t.decoder.feed b).1
  since := sinceAfter t.since b (t.decoder.feed b).2

/-- The bytes of a slice one by one, up to the first error. -/
def slice (t : Tracked) : Bytes → Tracked
  | [] => t
  | b :: r => match (t.decoder.feed b).2 with
    | .failed _ => t.feed b
    | _ => (t.feed b).slice r

def call (t : Tracked) : Call → Tracked
  | .feed b => t.feed b
  | .slice w => t.slice w
  | .reset => ⟨t.decoder.reset, []⟩

def run (t : Tracked) (calls : List Call) : Tracked := calls.foldl call t

theorem slice_decoder (t : Tracked) (w : Bytes) : (t.slice w).decoder = (t.decoder.feedSlice w).1 := by
  induction w generalizing t with
  | nil => rfl
  | cons b r ih =>
    rcases hf : t.decoder.feed b with ⟨d, o⟩
    have hd : (t.feed b).decoder = d := congrArg Prod.fst hf
    rw [slice, hf]
    cases o with
    | more => rw [feedSlice_more hf, ← hd]; exact ih _
    | frame p => rw [feedSlice_frame hf, ← hd]; exact ih _
    | failed e => rw [feedSlice_failed hf]; exact hd

theorem run_decoder (t : Tracked) (calls : List Call) : (t.run calls).decoder = t.decoder.run calls := by
  induction calls generalizing t with
  | nil => rfl
  | cons c calls ih =>
    have hc : (t.call c).decoder = t.decoder.call c := by
      cases c with
      | feed b => rfl
      | slice w => exact t.slice_decoder w
      | reset => rfl
    exact (ih (t.call c)).trans (congrArg (Decoder.run · calls) hc)

/-- A decoder holds what the bytes since the last boundary stand for. -/
structure Sound (limit : Nat) (t : Tracked) : Prop where
  limit_eq : t.decoder.limit = clamp limit
  decoder : t.decoder.Sound
  held : t.decoder.held.toList = Frame.unescape t.since
  pending : t.decoder.pending = Frame.endsInMark t.since

variable {limit : Nat} {t : Tracked}

/-- At a boundary nothing is held. -/
theorem Sound.boundary (ht : t.decoder = ofLimit limit) (hs : t.since = []) : t.Sound limit := by
  obtain ⟨d, s⟩ := t
  obtain rfl : d = ofLimit limit := ht
  obtain rfl : s = [] := hs
  exact ⟨rfl, sound_ofLimit limit, rfl, rfl⟩

theorem Sound.fresh_eq (h : t.Sound limit) : holding t.decoder.limit [] = ofLimit limit := by
  rw [h.limit_eq]
  rfl

theorem Sound.feed (h : t.Sound limit) (b : UInt8) : (t.feed b).Sound limit := by
  have hc := feed_cases h.decoder b
  rcases hf : t.decoder.feed b with ⟨d, o⟩
  rw [hf] at hc
  have hd : (t.feed b).decoder = d := congrArg Prod.fst hf
  have hs : (t.feed b).since = sinceAfter t.since b o := congrArg (sinceAfter t.since b) (congrArg Prod.snd hf)
  cases hc with
  | marker hb => exact .boundary (hd.trans h.fresh_eq) (by rw [hs, sinceAfter, if_pos hb])
  | mark hb =>
    have hm : b ≠ Frame.marker := hb ▸ Frame.marker_ne_escapeMark.symm
    rw [sinceAfter, if_neg hm] at hs
    refine ⟨by rw [hd]; exact h.limit_eq, by rw [hd]; exact ⟨h.decoder.header_le, h.decoder.inProgress⟩, ?_, ?_⟩
    · rw [hd, hs, Frame.unescape_snoc, if_pos hb, List.append_nil]
      exact h.held
    · rw [hd, hs]
      simp [Frame.endsInMark, hb]
  | byte hm he hx =>
    cases hx with
    | more hp =>
      rw [sinceAfter, if_neg hm] at hs
      refine ⟨by rw [hd]; exact h.limit_eq, by rw [hd]; exact ⟨h.decoder.header_le, hp⟩, ?_, ?_⟩
      · rw [hd, hs, Frame.unescape_snoc, if_neg he, ← h.pending, ← h.held]
        rfl
      · rw [hd, hs]
        simp [Frame.endsInMark, he, holding]
    | frame | malformed | overflow => exact .boundary (hd.trans h.fresh_eq) hs

theorem Sound.slice (h : t.Sound limit) (w : Bytes) : (t.slice w).Sound limit := by
  induction w generalizing t with
  | nil => exact h
  | cons b r ih =>
    rw [Tracked.slice]
    split
    · exact h.feed b
    · exact ih (h.feed b)

theorem Sound.run (h : t.Sound limit) (calls : List Call) : (t.run calls).Sound limit := by
  induction calls generalizing t with
  | nil => exact h
  | cons c calls ih =>
    refine ih (t := t.call c) ?_
    cases c with
    | feed b => exact h.feed b
    | slice w => exact h.slice w
    | reset => exact .boundary h.fresh_eq rfl

theorem sound_run (limit : Nat) (calls : List Call) : ((Tracked.fresh limit).run calls).Sound limit :=
  Sound.run (.boundary rfl rfl) calls

end Tracked

/-! ## Every sequence of calls -/

/-- The frames of a slice are complete. -/
theorem Sound.slice (h : d.Sound) {w : Bytes} {frames : List Bytes} (hs : d.feedSlice w = (d', .ok frames)) :
    ∀ f ∈ frames, WellFramed d.limit f := by
  induction w generalizing d frames with
  | nil =>
    cases hs
    exact List.forall_mem_nil _
  | cons b r ih =>
    have hlimit := limit_feed d b
    have hb := h.feed b
    rcases hf : d.feed b with ⟨d₁, o⟩
    rw [hf] at hlimit hb
    cases o with
    | more =>
      rw [feedSlice_more hf] at hs
      exact hlimit ▸ ih hb hs
    | frame p =>
      rw [feedSlice_frame hf] at hs
      rcases hr : d₁.feedSlice r with ⟨d₂, _ | rest⟩
      · rw [hr] at hs
        cases hs
      · rw [hr] at hs
        cases hs
        exact List.forall_mem_cons.mpr ⟨(h.frame hf).1, hlimit ▸ ih hb hr⟩
    | failed e =>
      rw [feedSlice_failed hf] at hs
      cases hs

/-- The error of a slice is that of one of its bytes, and the decoder goes no further. -/
theorem feedSlice_error {w : Bytes} {e : FrameError} (hs : d.feedSlice w = (d', .error e)) :
    ∃ u b v frames, w = u ++ b :: v ∧ (d.feedSlice u).2 = .ok frames ∧
      (d.feedSlice u).1.feed b = (d', .failed e) := by
  induction w generalizing d with
  | nil => cases hs
  | cons b r ih =>
    rcases hf : d.feed b with ⟨d₁, o⟩
    cases o with
    | more =>
      rw [feedSlice_more hf] at hs
      obtain ⟨u, c, v, frames, rfl, hu, hc⟩ := ih hs
      exact ⟨b :: u, c, v, frames, rfl, by rw [feedSlice_more hf]; exact hu, by rw [feedSlice_more hf]; exact hc⟩
    | frame p =>
      rw [feedSlice_frame hf] at hs
      rcases hr : d₁.feedSlice r with ⟨d₂, e' | rest⟩
      · rw [hr] at hs
        cases hs
        obtain ⟨u, c, v, frames, rfl, hu, hc⟩ := ih hr
        refine ⟨b :: u, c, v, p :: frames, rfl, ?_, by rw [feedSlice_frame hf]; exact hc⟩
        rw [feedSlice_frame hf, hu]
        rfl
      · rw [hr] at hs
        cases hs
    | failed e' =>
      rw [feedSlice_failed hf] at hs
      cases hs
      exact ⟨[], b, r, [], rfl, rfl, hf⟩

/-- What holds of a decoder between calls, `since` being the bytes since the last boundary of frames. -/
structure Kept (limit : Nat) (d : Decoder) (since : Bytes) : Prop where
  /-- It holds what the bytes since the last boundary stand for. -/
  held : d.held.toList = Frame.unescape since
  /-- These are fewer than the limit, also with one more, and fewer than their header declares, once it is there. -/
  inProgress : InProgress (clamp limit) d.held.toList
  room : d.held.size + 1 ≤ clamp limit
  /-- A frame is as long as it declares, within the limit, and holds a packet; then the decoder is as at first. -/
  frame : ∀ b f d', d.feed b = (d', .frame f) →
    WellFramed (clamp limit) f ∧ (∃ p, Packet.ofFrame f = .ok p) ∧ d' = ofLimit limit
  /-- An error comes with the fourth byte read after a boundary; then the decoder is as at first. -/
  failed : ∀ b e d', d.feed b = (d', .failed e) →
    (Frame.unescape since).length = 3 ∧ (Frame.unescape (since ++ [b])).length = 4 ∧ d' = ofLimit limit
  /-- The same holds of each frame of a slice, -/
  slice : ∀ w frames d', d.feedSlice w = (d', .ok frames) →
    ∀ f ∈ frames, WellFramed (clamp limit) f ∧ ∃ p, Packet.ofFrame f = .ok p
  /-- and the error of a slice is that of the first of its bytes to bring one. -/
  sliceFailed : ∀ w e d', d.feedSlice w = (d', .error e) → d' = ofLimit limit ∧ ∃ u b v frames, w = u ++ b :: v ∧
    (d.feedSlice u).2 = .ok frames ∧ (d.feedSlice u).1.feed b = (d', .failed e)

theorem Tracked.Sound.kept {limit : Nat} {t : Tracked} (h : t.Sound limit) : Kept limit t.decoder t.since where
  held := h.held
  inProgress := h.limit_eq ▸ h.decoder.inProgress
  room := h.limit_eq ▸ h.decoder.inProgress.length_lt
  frame := fun b f d' hf => by
    obtain ⟨hw, hd⟩ := h.decoder.frame hf
    exact ⟨h.limit_eq ▸ hw, hw.ofFrame, hd.trans h.fresh_eq⟩
  failed := fun b e d' hf => by
    obtain ⟨he, hsize, hd⟩ := h.decoder.failed hf
    have hthree : (Frame.unescape t.since).length = 3 := h.held ▸ hsize
    refine ⟨hthree, ?_, hd.trans h.fresh_eq⟩
    rw [Frame.unescape_snoc, if_neg he, List.length_append, hthree]
    rfl
  slice := fun w frames d' hs f hmem => by
    have hw := h.decoder.slice hs f hmem
    exact ⟨h.limit_eq ▸ hw, hw.ofFrame⟩
  sliceFailed := fun w e d' hs => by
    obtain ⟨u, b, v, frames, rfl, hu, hb⟩ := feedSlice_error hs
    have ht := h.slice u
    have hd := (ht.decoder.failed (t.slice_decoder u ▸ hb)).2.2
    exact ⟨hd.trans ht.fresh_eq, u, b, v, frames, rfl, hu, hb⟩

/-- What is kept by every sequence of calls. -/
theorem kept_run (limit : Nat) (calls : List Call) :
    Kept limit ((ofLimit limit).run calls) ((Tracked.fresh limit).run calls).since := by
  have h := (Tracked.sound_run limit calls).kept
  rwa [Tracked.run_decoder] at h

end Decoder
end TwinLink
