import TwinLink.Frame.Splitter
import TwinLink.Proofs.Frame.Progress

/-!
# The decoder and the batch reading

Feeding a stream byte by byte gives the frames and errors that cutting the whole stream at its markers gives, and holds
in the end what that leaves over of the last segment.

* `Splitter.split_long`, `Splitter.split_accepts` : what a segment opens with; one more byte of a packet;
* `Splitter.streamFrom` : the batch reading of the rest of a stream when a frame is in progress, with one lemma for each
  kind of byte; `Splitter.reads_streamFrom` : that is what the decoder gives;
* `Decoder.SliceReads`, `Decoder.sliceReads` : a slice is read byte by byte, up to its first error;
* `Decoder.stream_split` : the decoder and the batch reading agree.
-/

namespace TwinLink
open Decoder (Outcome)

namespace Splitter

variable {limit : Nat} {raw : Bytes}

/-! ## One segment -/

theorem split_short (h : raw.length < Frame.headerSize) : split limit raw = ([], raw) := by
  rw [split]
  rintro lo hi t r rest rfl
  simp [Frame.headerSize] at h
  omega

/-- What is done with a segment by the length that it opens with. -/
theorem split_long (h : Frame.headerSize ≤ raw.length) : split limit raw =
    if Frame.opening raw < Frame.headerSize then
      (.failed (.malformedHeader (Frame.opening raw)) :: (split limit (raw.drop Frame.headerSize)).1,
        (split limit (raw.drop Frame.headerSize)).2)
    else if limit < Frame.opening raw then
      (.failed (.overflow (Frame.opening raw) limit) :: (split limit (raw.drop Frame.headerSize)).1,
        (split limit (raw.drop Frame.headerSize)).2)
    else if Frame.opening raw ≤ raw.length then
      (.frame (raw.take (Frame.opening raw)) :: (split limit (raw.drop (Frame.opening raw))).1,
        (split limit (raw.drop (Frame.opening raw))).2)
    else ([], raw) := by
  match raw with
  | [] | [_] | [_, _] | [_, _, _] => simp [Frame.headerSize] at h
  | lo :: hi :: t :: r :: rest =>
    have hopening : Frame.opening (lo :: hi :: t :: r :: rest) = Frame.declared lo hi := rfl
    rw [split, hopening]
    split_ifs with hmin hmax hall
    · rfl
    · rfl
    · obtain ⟨k, hk⟩ := Nat.exists_eq_add_of_le' (Nat.not_lt.mp hmin)
      rw [hk]
      rfl
    · rfl

/-- Of a frame in progress nothing is told yet. -/
theorem split_inProgress (h : InProgress limit raw) : split limit raw = ([], raw) := by
  by_cases hs : raw.length < Frame.headerSize
  · exact split_short hs
  · obtain ⟨hmin, hmax, hlen⟩ := h.header (Nat.not_lt.mp hs)
    rw [split_long (Nat.not_lt.mp hs), if_neg (Nat.not_lt.mpr hmin), if_neg (Nat.not_lt.mpr hmax),
      if_neg (Nat.not_le.mpr hlen)]

/-- A complete frame is told first. -/
theorem split_frame {f : Bytes} (h : WellFramed limit f) (rest : Bytes) :
    split limit (f ++ rest) = (.frame f :: (split limit rest).1, (split limit rest).2) := by
  obtain ⟨hdecl, hmin, hmax⟩ := h
  have hopening : Frame.opening (f ++ rest) = f.length :=
    (Frame.opening_append (Nat.le_trans (by decide) hmin) rest).trans hdecl
  have hlen : f.length ≤ (f ++ rest).length := List.length_append ▸ Nat.le_add_right _ _
  rw [split_long (Nat.le_trans hmin hlen), hopening, if_neg (Nat.not_lt.mpr hmin), if_neg (Nat.not_lt.mpr hmax),
    if_pos hlen, List.take_left, List.drop_left]

/-- A header that cannot be right is told and skipped. -/
theorem split_header {header : Bytes} (h : header.length = Frame.headerSize) (rest : Bytes) :
    (Frame.opening header < Frame.headerSize → split limit (header ++ rest) =
      (.failed (.malformedHeader (Frame.opening header)) :: (split limit rest).1, (split limit rest).2)) ∧
    (Frame.headerSize ≤ Frame.opening header → limit < Frame.opening header → split limit (header ++ rest) =
      (.failed (.overflow (Frame.opening header) limit) :: (split limit rest).1, (split limit rest).2)) := by
  have hopening : Frame.opening (header ++ rest) = Frame.opening header :=
    Frame.opening_append (Nat.le_trans (by decide) (Nat.le_of_eq h.symm)) rest
  have hdrop : (header ++ rest).drop Frame.headerSize = rest := by rw [← h, List.drop_left]
  have hlen : Frame.headerSize ≤ (header ++ rest).length := by
    rw [List.length_append, h]
    exact Nat.le_add_right _ _
  rw [split_long hlen, hopening, hdrop]
  refine ⟨fun hmin => ?_, fun hmin hmax => ?_⟩
  · rw [if_pos hmin]
  · rw [if_neg (Nat.not_lt.mpr hmin), if_pos hmax]

/-- One more byte does in the batch reading what it does in the decoder, whatever comes after it. -/
theorem split_accepts {b : UInt8} {x : Decoder × Outcome} (h : Decoder.Accepts limit raw b x) (rest : Bytes) :
    split limit (raw ++ b :: rest) =
      (x.2.told ++ (split limit (x.1.held.toList ++ rest)).1, (split limit (x.1.held.toList ++ rest)).2) := by
  rw [List.append_cons]
  cases h with
  | more h => rfl
  | frame h => exact split_frame h rest
  | malformed hl hn =>
    refine (split_header ?_ rest).1 hn
    rw [List.length_append, hl]
    rfl
  | overflow hl hn hover =>
    refine (split_header ?_ rest).2 hn hover
    rw [List.length_append, hl]
    rfl

/-! ## Segments -/

theorem exists_segments (w : Bytes) : ∃ s rest, segments w = s :: rest := by
  cases w with
  | nil => exact ⟨[], [], rfl⟩
  | cons b r =>
    rw [segments]
    split
    · exact ⟨[], [], rfl⟩
    · split_ifs
      · exact ⟨_, _, rfl⟩
      · exact ⟨_, _, rfl⟩

/-- A marker ends a segment. -/
theorem segments_marker (r : Bytes) : segments (Frame.marker :: r) = [] :: segments r := by
  obtain ⟨s, rest, h⟩ := exists_segments r
  rw [segments, h]
  rfl

/-- Any other byte belongs to the segment after it. -/
theorem segments_cons {b : UInt8} (hb : b ≠ Frame.marker) {r s : Bytes} {rest : List Bytes}
    (h : segments r = s :: rest) : segments (b :: r) = (b :: s) :: rest := by
  rw [segments, h]
  exact if_neg (by simpa using hb)

/-- One reading after another: all that they tell, and what the last leaves over. -/
def join (done next : List Outcome × Bytes) : List Outcome × Bytes := (done.1 ++ next.1, next.2)

theorem foldl_join (told : List Outcome) (x : List Outcome × Bytes) (l : List (List Outcome × Bytes)) :
    l.foldl join (told ++ x.1, x.2) = (told ++ (l.foldl join x).1, (l.foldl join x).2) := by
  induction l generalizing x with
  | nil => rfl
  | cons y l ih =>
    rw [List.foldl_cons, List.foldl_cons, ← ih]
    exact congrArg (fun z => l.foldl join (z, y.2)) (List.append_assoc _ _ _)

/-- The reading of the rest of a stream, when the bytes of a frame in progress and perhaps an escape mark went before. -/
def streamFrom (limit : Nat) (raw : Bytes) (pending : Bool) (w : Bytes) : List Outcome × Bytes :=
  match segments w with
  | [] => ([], raw)
  | s :: rest => (rest.map fun s => split limit (Frame.unescape s)).foldl join
      (split limit (raw ++ Frame.unescapeFrom pending s))

theorem streamFrom_eq {w s : Bytes} {rest : List Bytes} (h : segments w = s :: rest) (raw : Bytes) (pending : Bool) :
    streamFrom limit raw pending w = (rest.map fun s => split limit (Frame.unescape s)).foldl join
      (split limit (raw ++ Frame.unescapeFrom pending s)) := by
  rw [streamFrom, h]

theorem splitStream_eq (limit : Nat) (w : Bytes) : splitStream limit w = streamFrom limit [] false w := by
  obtain ⟨s, rest, h⟩ := exists_segments w
  rw [streamFrom_eq h, splitStream, h]
  rfl

theorem streamFrom_nil (raw : Bytes) (pending : Bool) : streamFrom limit raw pending [] = split limit raw :=
  congrArg (split limit) (List.append_nil raw)

/-- A marker discards the frame in progress. -/
theorem streamFrom_marker (h : InProgress limit raw) (pending : Bool) (r : Bytes) :
    streamFrom limit raw pending (Frame.marker :: r) = streamFrom limit [] false r := by
  obtain ⟨s, rest, hr⟩ := exists_segments r
  rw [streamFrom_eq (segments_marker r), streamFrom_eq hr, hr, Frame.unescapeFrom_nil, List.append_nil,
    split_inProgress h]
  rfl

theorem streamFrom_mark (raw : Bytes) (pending : Bool) (r : Bytes) :
    streamFrom limit raw pending (Frame.escapeMark :: r) = streamFrom limit raw true r := by
  obtain ⟨s, rest, hr⟩ := exists_segments r
  rw [streamFrom_eq (segments_cons Frame.marker_ne_escapeMark.symm hr), streamFrom_eq hr, Frame.unescapeFrom_mark]

/-- Any other byte is one more of the packet. -/
theorem streamFrom_byte {b : UInt8} (hm : b ≠ Frame.marker) (he : b ≠ Frame.escapeMark) {pending : Bool}
    {x : Decoder × Outcome} (hx : Decoder.Accepts limit raw (if pending then b + 1 else b) x) (r : Bytes) :
    streamFrom limit raw pending (b :: r) =
      (x.2.told ++ (streamFrom limit x.1.held.toList false r).1, (streamFrom limit x.1.held.toList false r).2) := by
  obtain ⟨s, rest, hr⟩ := exists_segments r
  rw [streamFrom_eq (segments_cons hm hr), streamFrom_eq hr, Frame.unescapeFrom_cons pending he, split_accepts hx,
    foldl_join]

end Splitter

namespace Decoder

/-! ## The whole stream -/

variable {d d' : Decoder} {b : UInt8} {o : Outcome}

theorem told_cons (h : d.feed b = (d', o)) (n : Nat) (r : Bytes) :
    (d.feedAllFrom n (b :: r)).2.map (·.2) = o.told ++ (d'.feedAllFrom (n + 1) r).2.map (·.2) := by
  rw [feedAllFrom_cons h, List.map_append, List.map_map]
  exact congrArg (· ++ _) (List.map_id _)

/-- What the decoder gives from where it stands is the batch reading of the rest. -/
theorem reads_streamFrom (h : d.Sound) (n : Nat) (w : Bytes) :
    ((d.feedAllFrom n w).2.map (·.2), (d.feedAllFrom n w).1.held.toList) =
      Splitter.streamFrom d.limit d.held.toList d.pending w := by
  induction w generalizing d n with
  | nil => rw [Splitter.streamFrom_nil, Splitter.split_inProgress h.inProgress]; rfl
  | cons b r ih =>
    have hnext := h.feed b
    have hlimit := limit_feed d b
    have hcases := feed_cases h b
    rcases hf : d.feed b with ⟨d', o⟩
    rw [hf] at hnext hlimit hcases
    have hr := ih hnext (n + 1)
    rw [hlimit] at hr
    rw [told_cons hf, feedAllFrom_cons hf]
    cases hcases with
    | marker hb =>
      rw [hb, Splitter.streamFrom_marker h.inProgress]
      exact hr
    | mark hb =>
      rw [hb, Splitter.streamFrom_mark]
      exact hr
    | byte hm he hx =>
      have hpending : d'.pending = false := by cases hx <;> rfl
      rw [hpending] at hr
      rw [Splitter.streamFrom_byte hm he hx, ← hr]

/-! ## Slices -/

/-- An error leaves the decoder as it was when new. -/
theorem reset_of_failed {e : FrameError} (h : d.feed b = (d', .failed e)) : d' = d.reset := by
  have haccept : ∀ c, d.accept c = (d', .failed e) → d' = d.reset := fun c hc => by
    unfold accept at hc
    dsimp only at hc
    split at hc
    · cases hc
    · split_ifs at hc <;> cases hc <;> rfl
  unfold feed at h
  split_ifs at h
  · cases h
  · cases h
  · exact haccept _ h
  · exact haccept _ h

/-- How a slice is read that begins at position `n`: as its bytes one by one, up to the first error. -/
inductive SliceReads (d : Decoder) (n : Nat) (w : Bytes) : Prop
  /-- Without an error it gives the frames that its bytes give. -/
  | clean (frames : List Bytes) (htold : (d.feedAllFrom n w).2.map (·.2) = frames.map .frame)
      (hslice : d.feedSlice w = ((d.feedAllFrom n w).1, .ok frames))
  /-- With one it gives that alone, leaves the decoder as it was when new, and does not read what comes after the byte
  that brought it. -/
  | failed (before : List (Nat × Bytes)) (k : Nat) (e : FrameError) (after : List (Nat × Outcome)) (hk : k < w.length)
      (htold : (d.feedAllFrom n w).2 = before.map (fun x => (x.1, .frame x.2)) ++ (n + k, .failed e) :: after)
      (hslice : ∀ rest, d.feedSlice (w.take (k + 1) ++ rest) = (d.reset, .error e))

/-- Before the first error there are frames only, so each byte puts at most one in front of what the rest gives. -/
theorem sliceReads (d : Decoder) (n : Nat) (w : Bytes) : SliceReads d n w := by
  induction w generalizing d n with
  | nil => exact .clean [] rfl rfl
  | cons b r ih =>
    have hlimit := limit_feed d b
    rcases hf : d.feed b with ⟨d', o⟩
    rw [hf] at hlimit
    have hreset : d'.reset = d.reset := congrArg (fun limit => Decoder.mk limit #[] false) hlimit
    have hpos : ∀ k, n + (k + 1) = n + 1 + k := fun k => by omega
    cases o with
    | more =>
      cases ih d' (n + 1) with
      | clean frames htold hslice =>
        rw [← feedAllFrom_more hf] at htold hslice
        exact .clean frames htold ((feedSlice_more hf r).trans hslice)
      | failed before k e after hk htold hslice =>
        rw [← feedAllFrom_more hf, ← hpos] at htold
        exact .failed before (k + 1) e after (Nat.succ_lt_succ hk) htold fun rest =>
          (feedSlice_more hf _).trans (hreset ▸ hslice rest)
    | frame p =>
      cases ih d' (n + 1) with
      | clean frames htold hslice =>
        refine .clean (p :: frames) ?_ ?_
        · rw [told_cons hf, htold]
          rfl
        · rw [feedSlice_frame hf, hslice, feedAllFrom_frame hf]
          rfl
      | failed before k e after hk htold hslice =>
        refine .failed ((n, p) :: before) (k + 1) e after (Nat.succ_lt_succ hk) ?_ fun rest => ?_
        · rw [feedAllFrom_frame hf, htold, hpos k]
          rfl
        · rw [List.take_succ_cons, List.cons_append, feedSlice_frame hf, hslice, hreset]
          rfl
    | failed e =>
      refine .failed [] 0 e _ (Nat.succ_pos _) (congrArg Prod.snd (feedAllFrom_failed hf n r)) fun rest => ?_
      exact (feedSlice_failed hf rest).trans (congrArg (·, _) (reset_of_failed hf))

/-- **The decoder and the batch reading agree.** A new decoder that is fed a stream gives the frames and errors that the
batch reading tells, and holds in the end what that leaves over. From any state a slice gives the frames that its bytes
give when fed one by one, or else their first error. -/
theorem stream_split :
    (∀ (limit : Nat) (w : Bytes),
      ((ofLimit limit).feedAll w).2.map (·.2) = (Splitter.splitStream (clamp limit) w).1 ∧
      ((ofLimit limit).feedAll w).1.held.toList = (Splitter.splitStream (clamp limit) w).2 ∧
      ((ofLimit limit).feedAll w).1.buffered = (Splitter.splitStream (clamp limit) w).2.length) ∧
    ∀ (d : Decoder) (w : Bytes), SliceReads d 0 w := by
  refine ⟨fun limit w => ?_, fun d w => sliceReads d 0 w⟩
  have h : (((ofLimit limit).feedAll w).2.map (·.2), ((ofLimit limit).feedAll w).1.held.toList) =
      Splitter.splitStream (clamp limit) w :=
    (reads_streamFrom (sound_ofLimit limit) 0 w).trans (Splitter.splitStream_eq (clamp limit) w).symm
  exact ⟨congrArg Prod.fst h, congrArg Prod.snd h, congrArg (fun x => x.2.length) h⟩

end Decoder
end TwinLink
