import Mathlib.Data.List.GetD
import Mathlib.Tactic.SplitIfs
import TwinLink.Frame.Decoder
import TwinLink.Frame.Escape
import TwinLink.Packet.Basic

/-!
# Decoding what was encoded

* `Decoder.holding limit raw` : the decoder with the bytes `raw` of a frame in progress;
* `WellFramed limit raw` : `raw` opens with its own length, and the limit admits it;
* `Decoder.accept_holding`, `Decoder.feedAllFrom_byte` : one byte of a packet, by itself and as it stands on the wire;
* `Decoder.feedAllFrom_escape`, `Decoder.feedAllFrom_cut` : the rest of an escaped packet, the rest of one that breaks off;
* `Arrival` : a packet on the wire, after the beginning of a frame that broke off;
* `Decoder.feedAll_arrivals` : whatever went before, a stream of arrivals gives its packets, each on its last byte.
-/

namespace TwinLink
open Decoder (Outcome)

/-! ## Single bytes -/

namespace Frame

theorem reserved_iff (b : UInt8) : reserved b = true ↔ b = marker ∨ b = escapeMark := by
  simp [reserved]

theorem escape_cons (b : UInt8) (r : Bytes) :
    escape (b :: r) = (if reserved b then [escapeMark, b - 1] else [b]) ++ escape r := by
  rw [escape]
  split_ifs <;> rfl

theorem escape_append (u v : Bytes) : escape (u ++ v) = escape u ++ escape v := by
  induction u with
  | nil => rfl
  | cons b r ih => rw [List.cons_append, escape_cons, escape_cons, ih, List.append_assoc]

theorem escape_ne_nil {raw : Bytes} (h : raw ≠ []) : escape raw ≠ [] := by
  obtain ⟨b, r, rfl⟩ := List.exists_cons_of_ne_nil h
  rw [escape_cons]
  split_ifs <;> simp

end Frame

namespace Decoder

/-- The decoder with some bytes of a frame in progress. -/
def holding (limit : Nat) (raw : Bytes) : Decoder := ⟨limit, raw.toArray, false⟩

theorem feed_marker (d : Decoder) : d.feed Frame.marker = (d.reset, .more) := by
  simp [feed]

theorem feed_escapeMark (d : Decoder) : d.feed Frame.escapeMark = ({ d with pending := true }, .more) := by
  simp [feed, Frame.escapeMark, Frame.marker]

theorem feed_plain (limit : Nat) (done : Bytes) {b : UInt8} (hb : Frame.reserved b = false) :
    (holding limit done).feed b = (holding limit done).accept b := by
  have hm : ¬ (b = Frame.marker ∨ b = Frame.escapeMark) := by
    rw [← Frame.reserved_iff, hb]
    simp
  rw [not_or] at hm
  simp [feed, holding, hm.1, hm.2]

/-- The byte that stands for a reserved one, after its mark. -/
theorem feed_escaped (limit : Nat) (done : Bytes) {b : UInt8} (hb : Frame.reserved b = true) :
    feed { holding limit done with pending := true } (b - 1) = (holding limit done).accept b := by
  rcases (Frame.reserved_iff b).mp hb with rfl | rfl <;> rfl

theorem limit_accept (d : Decoder) (b : UInt8) : (d.accept b).1.limit = d.limit := by
  obtain ⟨limit, held, pending⟩ := d
  unfold accept
  dsimp only
  split
  · rfl
  · split_ifs <;> rfl

theorem limit_feed (d : Decoder) (b : UInt8) : (d.feed b).1.limit = d.limit := by
  unfold feed
  split_ifs
  · rfl
  · rfl
  · exact limit_accept d (b + 1)
  · exact limit_accept d b

/-! ## Byte strings -/

/-- What an outcome tells: a frame or an error. -/
def Outcome.told : Outcome → List Outcome
  | .more => []
  | o => [o]

theorem feedAllFrom_more {d d' : Decoder} {b : UInt8} (h : d.feed b = (d', .more)) (n : Nat) (r : Bytes) :
    d.feedAllFrom n (b :: r) = d'.feedAllFrom (n + 1) r := by
  rw [feedAllFrom, h]

theorem feedAllFrom_frame {d d' : Decoder} {b : UInt8} {p : Bytes} (h : d.feed b = (d', .frame p)) (n : Nat)
    (r : Bytes) : d.feedAllFrom n (b :: r) =
      ((d'.feedAllFrom (n + 1) r).1, (n, .frame p) :: (d'.feedAllFrom (n + 1) r).2) := by
  rw [feedAllFrom, h]

theorem feedAllFrom_failed {d d' : Decoder} {b : UInt8} {e : FrameError} (h : d.feed b = (d', .failed e)) (n : Nat)
    (r : Bytes) : d.feedAllFrom n (b :: r) =
      ((d'.feedAllFrom (n + 1) r).1, (n, .failed e) :: (d'.feedAllFrom (n + 1) r).2) := by
  rw [feedAllFrom, h]

theorem feedAllFrom_cons {d d' : Decoder} {b : UInt8} {o : Outcome} (h : d.feed b = (d', o)) (n : Nat) (r : Bytes) :
    d.feedAllFrom n (b :: r) = ((d'.feedAllFrom (n + 1) r).1, o.told.map (n, ·) ++ (d'.feedAllFrom (n + 1) r).2) := by
  cases o with
  | more => exact feedAllFrom_more h n r
  | frame p => exact feedAllFrom_frame h n r
  | failed e => exact feedAllFrom_failed h n r

theorem feedAllFrom_append (d : Decoder) (n : Nat) (u v : Bytes) :
    d.feedAllFrom n (u ++ v) =
      (((d.feedAllFrom n u).1.feedAllFrom (n + u.length) v).1,
        (d.feedAllFrom n u).2 ++ ((d.feedAllFrom n u).1.feedAllFrom (n + u.length) v).2) := by
  induction u generalizing d n with
  | nil => rfl
  | cons b r ih =>
    rw [List.cons_append, List.length_cons, show n + (r.length + 1) = n + 1 + r.length by omega]
    rcases hf : d.feed b with ⟨d', o⟩
    rw [feedAllFrom_cons hf, feedAllFrom_cons hf, ih, List.append_assoc]

theorem limit_feedAllFrom (d : Decoder) (n : Nat) (w : Bytes) : (d.feedAllFrom n w).1.limit = d.limit := by
  induction w generalizing d n with
  | nil => rfl
  | cons b r ih =>
    have hb := limit_feed d b
    rcases hf : d.feed b with ⟨d', o⟩
    rw [hf] at hb
    rw [feedAllFrom_cons hf]
    exact (ih d' (n + 1)).trans hb

end Decoder

/-! ## Packets within a limit -/

/-- A packet that opens with its own length and is within the limit. -/
structure WellFramed (limit : Nat) (raw : Bytes) : Prop where
  declared : Frame.declared (raw.getD 0 0) (raw.getD 1 0) = raw.length
  header_le : Frame.headerSize ≤ raw.length
  length_le : raw.length ≤ limit

namespace Packet

theorem length_toBytes (p : Packet) : p.toBytes.length = p.totalLength := by
  simp only [toBytes, totalLength, Frame.headerSize, List.length_append, Bytes.length_ofNat, List.length_cons]
  omega

/-- Two bytes spell any length that a packet may have. -/
theorem declared_ofNat {n : Nat} (h : n ≤ Frame.maxLength) :
    Frame.declared (UInt8.ofNat n) (UInt8.ofNat (n / 256)) = n := by
  have h0 : (UInt8.ofNat n).toNat = n % 256 := UInt8.toNat_ofNat'
  have h1 : (UInt8.ofNat (n / 256)).toNat = n / 256 % 256 := UInt8.toNat_ofNat'
  simp only [Frame.maxLength] at h
  rw [Frame.declared, h0, h1]
  omega

theorem toBytes_eq (p : Packet) :
    p.toBytes = UInt8.ofNat p.totalLength :: UInt8.ofNat (p.totalLength / 256) :: p.type :: 0 :: p.payload := rfl

theorem wellFramed_toBytes {p : Packet} {limit : Nat} (h : p.totalLength ≤ limit) (hl : limit ≤ Frame.maxLength) :
    WellFramed limit p.toBytes where
  declared := by
    rw [length_toBytes, toBytes_eq]
    exact declared_ofNat (Nat.le_trans h hl)
  header_le := by
    rw [length_toBytes]
    exact Nat.le_add_right _ _
  length_le := by rwa [length_toBytes]

theorem ofFrame_toBytes {p : Packet} (h : p.totalLength ≤ Frame.maxLength) : ofFrame p.toBytes = .ok p := by
  have hl := length_toBytes p
  rw [toBytes_eq] at hl ⊢
  rw [ofFrame, declared_ofNat h]
  simp only [hl, if_true]

end Packet

/-! ## One packet -/

namespace Decoder

theorem clamp_le (limit : Nat) : clamp limit ≤ Frame.maxLength := by
  simp only [clamp, Frame.headerSize, Frame.maxLength]
  omega

theorem reset_eq_holding (d : Decoder) : d.reset = holding d.limit [] := rfl

/-- One more byte of a packet, without its escape: the packet comes out on its last byte and not before. -/
theorem accept_holding {limit : Nat} {done rest : Bytes} {b : UInt8} (h : WellFramed limit (done ++ b :: rest)) :
    (holding limit done).accept b =
      if rest = [] then (holding limit [], .frame (done ++ [b])) else (holding limit (done ++ [b]), .more) := by
  have hlen : (done ++ b :: rest).length = done.length + 1 + rest.length := by simp; omega
  obtain ⟨hdecl, hmin, hmax⟩ := h
  have hpush : done.toArray.push b = (done ++ [b]).toArray := by simp
  simp only [accept, holding, hpush, declared?, List.size_toArray, List.length_append, List.length_singleton]
  by_cases hs : done.length + 1 < Frame.headerSize
  · have hne : rest ≠ [] := by
      rintro rfl
      rw [hlen, List.length_nil] at hmin
      omega
    simp only [hs, hne, if_true, if_false]
  · have hget : ∀ i < 2, (done ++ [b]).toArray.getD i 0 = (done ++ b :: rest).getD i 0 := by
      intro i hi
      have hi' : i < (done ++ [b]).length := by simp [Frame.headerSize] at hs ⊢; omega
      rw [show done ++ b :: rest = (done ++ [b]) ++ rest by simp, List.getD_append _ _ _ _ hi']
      simp [Array.getD_eq_getD_getElem?, List.getD_eq_getElem?_getD]
    have hd : Frame.declared ((done ++ [b]).toArray.getD 0 0) ((done ++ [b]).toArray.getD 1 0) =
        done.length + 1 + rest.length := by
      rw [hget 0 (by decide), hget 1 (by decide), hdecl, hlen]
    rw [hlen] at hmin hmax
    simp only [hs, if_false, hd, Nat.not_lt.mpr hmin, Nat.not_lt.mpr hmax]
    by_cases hr : rest = []
    · subst hr
      simp
    · have : rest.length ≠ 0 := by simpa using hr
      rw [if_neg (by omega), if_neg hr]

end Decoder

theorem WellFramed.snoc {limit : Nat} {done rest : Bytes} {b : UInt8} (h : WellFramed limit (done ++ b :: rest)) :
    WellFramed limit ((done ++ [b]) ++ rest) := by
  simpa using h

namespace Decoder

/-- A byte of a packet does on the wire what it does by itself, on the last of the bytes that stand for it. -/
theorem feedAllFrom_byte {limit : Nat} {done : Bytes} {b : UInt8} {d : Decoder} {o : Outcome}
    (h : (holding limit done).accept b = (d, o)) (n : Nat) (r : Bytes) :
    (holding limit done).feedAllFrom n (Frame.escape (b :: r)) =
      ((d.feedAllFrom (n + (Frame.escape [b]).length) (Frame.escape r)).1,
        o.told.map (n + (Frame.escape [b]).length - 1, ·) ++
          (d.feedAllFrom (n + (Frame.escape [b]).length) (Frame.escape r)).2) := by
  cases hb : Frame.reserved b with
  | false =>
    have hone : Frame.escape [b] = [b] := by rw [Frame.escape, hb]; rfl
    rw [hone, Frame.escape_cons, hb, if_neg Bool.false_ne_true, List.cons_append, List.nil_append,
      feedAllFrom_cons ((feed_plain limit done hb).trans h)]
    rfl
  | true =>
    have htwo : Frame.escape [b] = [Frame.escapeMark, b - 1] := by rw [Frame.escape, hb]; rfl
    rw [htwo, Frame.escape_cons, hb, if_pos rfl, List.cons_append, List.cons_append, List.nil_append,
      feedAllFrom_more (feed_escapeMark _), feedAllFrom_cons ((feed_escaped limit done hb).trans h)]
    rfl

/-- The escaped rest of a packet. -/
theorem feedAllFrom_escape {limit : Nat} {done rest : Bytes} (h : WellFramed limit (done ++ rest)) (hr : rest ≠ [])
    (n : Nat) : (holding limit done).feedAllFrom n (Frame.escape rest) =
      (holding limit [], [(n + (Frame.escape rest).length - 1, .frame (done ++ rest))]) := by
  induction rest generalizing done n with
  | nil => exact absurd rfl hr
  | cons b r ih =>
    -- the last byte completes the packet; before it the induction goes on with one more byte held
    have hstep := accept_holding h
    by_cases hrn : r = []
    · subst hrn
      rw [if_pos rfl] at hstep
      rw [feedAllFrom_byte hstep]
      rfl
    · rw [if_neg hrn] at hstep
      have hsplit : Frame.escape (b :: r) = Frame.escape [b] ++ Frame.escape r := Frame.escape_append [b] r
      rw [feedAllFrom_byte hstep, ih h.snoc hrn, hsplit, List.length_append, Nat.add_assoc,
        List.append_cons done b r]
      rfl

/-- The escaped rest of a packet, as far as it goes before it breaks off, completes nothing. -/
theorem feedAllFrom_cut {limit : Nat} {done rest w : Bytes} (h : WellFramed limit (done ++ rest))
    (hw : w <+: Frame.escape rest) (hne : w ≠ Frame.escape rest) (n : Nat) :
    ((holding limit done).feedAllFrom n w).2 = [] := by
  induction rest generalizing done w n with
  | nil => exact absurd (List.prefix_nil.mp hw) hne
  | cons b r ih =>
    cases w with
    | nil => rfl
    | cons x w =>
      have hstep := accept_holding h
      cases hb : Frame.reserved b with
      | false =>
        rw [Frame.escape_cons, hb, if_neg (by decide), List.cons_append, List.nil_append] at hw hne
        obtain ⟨rfl, hw'⟩ := List.cons_prefix_cons.mp hw
        have hne' : w ≠ Frame.escape r := fun e => hne (by rw [e])
        have hr : r ≠ [] := by
          rintro rfl
          exact hne' (List.prefix_nil.mp hw')
        rw [if_neg hr] at hstep
        rw [feedAllFrom_more ((feed_plain _ _ hb).trans hstep)]
        exact ih h.snoc hw' hne' (n + 1)
      | true =>
        rw [Frame.escape_cons, hb, if_pos rfl, List.cons_append, List.cons_append, List.nil_append] at hw hne
        obtain ⟨hx, hw'⟩ := List.cons_prefix_cons.mp hw
        rw [hx, feedAllFrom_more (feed_escapeMark _)]
        cases w with
        | nil => rfl
        | cons y w =>
          obtain ⟨rfl, hw''⟩ := List.cons_prefix_cons.mp hw'
          have hne' : w ≠ Frame.escape r := fun e => hne (by rw [hx, e])
          have hr : r ≠ [] := by
            rintro rfl
            exact hne' (List.prefix_nil.mp hw'')
          rw [if_neg hr] at hstep
          rw [feedAllFrom_more ((feed_escaped _ _ hb).trans hstep)]
          exact ih h.snoc hw'' hne' (n + 1 + 1)

theorem feedAllFrom_encode {d : Decoder} {raw : Bytes} (h : WellFramed d.limit raw) (n : Nat) :
    d.feedAllFrom n (Frame.encode raw) =
      (holding d.limit [], [(n + (Frame.encode raw).length - 1, .frame raw)]) := by
  have hr : raw ≠ [] := by
    rintro rfl
    exact absurd h.header_le (by decide)
  have hne := List.length_pos_iff.mpr (Frame.escape_ne_nil hr)
  rw [Frame.encode, feedAllFrom_more (feed_marker d), reset_eq_holding, feedAllFrom_escape h hr]
  simp only [List.nil_append, List.length_cons]
  rw [show n + 1 + (Frame.escape raw).length - 1 = n + ((Frame.escape raw).length + 1) - 1 by omega]

theorem feedAllFrom_cut_encode {d : Decoder} {raw w : Bytes} (h : WellFramed d.limit raw)
    (hw : w <+: Frame.encode raw) (hne : w ≠ Frame.encode raw) (n : Nat) : (d.feedAllFrom n w).2 = [] := by
  cases w with
  | nil => rfl
  | cons x w =>
    obtain ⟨rfl, hw'⟩ := List.cons_prefix_cons.mp hw
    rw [feedAllFrom_more (feed_marker d), reset_eq_holding]
    exact feedAllFrom_cut h hw' (fun e => hne (by rw [e]; rfl)) (n + 1)

end Decoder

/-! ## Streams of packets -/

/-- A packet on the wire, after the beginning of a frame that broke off, if there is one. -/
structure Arrival where
  broken : Bytes
  packet : Packet
deriving DecidableEq, Repr

namespace Arrival

def wire (x : Arrival) : Bytes := x.broken ++ Frame.encode x.packet.toBytes

/-- The packet is within the limit, and what broke off is less than the frame of some packet within it. -/
structure Fits (limit : Nat) (x : Arrival) : Prop where
  packet : x.packet.totalLength ≤ limit
  broken : ∃ q : Packet, q.totalLength ≤ limit ∧ x.broken <+: Frame.encode q.toBytes ∧
    x.broken ≠ Frame.encode q.toBytes

/-- What a stream of arrivals is to give: each packet, on the last byte of its frame. -/
def outcomes (position : Nat) : List Arrival → List (Nat × Outcome)
  | [] => []
  | x :: rest => (position + x.wire.length - 1, .frame x.packet.toBytes) :: outcomes (position + x.wire.length) rest

end Arrival

namespace Decoder

theorem feedAllFrom_arrival {d : Decoder} {x : Arrival} (h : x.Fits d.limit) (hl : d.limit ≤ Frame.maxLength)
    (n : Nat) : d.feedAllFrom n x.wire =
      (holding d.limit [], [(n + x.wire.length - 1, .frame x.packet.toBytes)]) := by
  obtain ⟨q, hq, hw, hne⟩ := h.broken
  have hcut := feedAllFrom_cut_encode (Packet.wellFramed_toBytes hq hl) hw hne n
  have hlim := limit_feedAllFrom d n x.broken
  have hfit : x.packet.totalLength ≤ (d.feedAllFrom n x.broken).1.limit := by rw [hlim]; exact h.packet
  have henc := feedAllFrom_encode (Packet.wellFramed_toBytes hfit (by rw [hlim]; exact hl)) (n + x.broken.length)
  rw [hlim] at henc
  rw [Arrival.wire, feedAllFrom_append, hcut, henc]
  simp only [List.nil_append, List.length_append]
  rw [show n + x.broken.length + (Frame.encode x.packet.toBytes).length - 1 =
    n + (x.broken.length + (Frame.encode x.packet.toBytes).length) - 1 by omega]

theorem feedAllFrom_arrivals {d : Decoder} {xs : List Arrival} (h : ∀ x ∈ xs, x.Fits d.limit)
    (hl : d.limit ≤ Frame.maxLength) (n : Nat) : d.feedAllFrom n (xs.flatMap Arrival.wire) =
      (if xs.isEmpty then d else holding d.limit [], Arrival.outcomes n xs) := by
  induction xs generalizing d n with
  | nil => rfl
  | cons x rest ih =>
    rw [List.flatMap_cons, feedAllFrom_append, feedAllFrom_arrival (h x (by simp)) hl,
      ih (d := holding d.limit []) (fun y hy => h y (by simp [hy])) hl]
    cases rest <;> simp [Arrival.outcomes, holding]

/-- **Whatever went before, a stream of arrivals gives its packets**, each on the last byte of its frame, and nothing
else; it leaves the decoder as it was at the start. -/
theorem feedAll_arrivals (limit : Nat) (before : Bytes) (xs : List Arrival) (h : ∀ x ∈ xs, x.Fits (clamp limit)) :
    let d := ((ofLimit limit).feedAll before).1
    d.feedAll (xs.flatMap Arrival.wire) = (if xs.isEmpty then d else ofLimit limit, Arrival.outcomes 0 xs) ∧
      ∀ x ∈ xs, Packet.ofFrame x.packet.toBytes = .ok x.packet := by
  have hlim : ((ofLimit limit).feedAll before).1.limit = clamp limit := limit_feedAllFrom _ _ _
  refine ⟨?_, fun x hx => Packet.ofFrame_toBytes (Nat.le_trans (h x hx).packet (clamp_le limit))⟩
  have hfits : ∀ x ∈ xs, x.Fits ((ofLimit limit).feedAll before).1.limit := by rw [hlim]; exact h
  have hrun := feedAllFrom_arrivals hfits (by rw [hlim]; exact clamp_le limit) 0
  rw [hlim] at hrun
  exact hrun

/-- Arrivals whose packets are full of reserved bytes, one of them behind a frame that broke off after an escape mark. -/
def reservedArrivals : List Arrival :=
  [⟨[], ⟨0x5A, [0xEF, 0x5A]⟩⟩, ⟨[0x5A, 0x05, 0x00, 0xEF], ⟨0xEF, []⟩⟩]

theorem feedAll_reservedArrivals : (∀ x ∈ reservedArrivals, x.Fits (clamp 8)) ∧
    (((ofLimit 8).feedAll [0x5A, 0x08, 0xEF]).1.feedAll (reservedArrivals.flatMap Arrival.wire)).2 =
      [(9, .frame [0x06, 0x00, 0x5A, 0x00, 0xEF, 0x5A]), (19, .frame [0x04, 0x00, 0xEF, 0x00])] := by
  have hfits : ∀ x ∈ reservedArrivals, x.Fits (clamp 8) := by
    intro x hx
    simp only [reservedArrivals, List.mem_cons, List.not_mem_nil, or_false] at hx
    rcases hx with rfl | rfl
    · exact ⟨by decide, ⟨0, []⟩, by decide, by decide, by decide⟩
    · exact ⟨by decide, ⟨0x5A, [0]⟩, by decide, by decide, by decide⟩
  exact ⟨hfits, congrArg Prod.snd (feedAll_arrivals 8 [0x5A, 0x08, 0xEF] reservedArrivals hfits).1⟩

end Decoder
end TwinLink
