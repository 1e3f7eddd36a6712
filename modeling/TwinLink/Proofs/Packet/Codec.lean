import TwinLink.Packet.Named
import TwinLink.Proofs.Frame.Stream

/-!
# Packets and named payloads, written and read

Each of the two formats is read back from what is written, and writes what was read; what a format cannot hold is refused
on one side only. A packet is written whatever its length, and a length that its header cannot spell is refused when it
is read. A name is refused when it is written, if one byte cannot spell its length, and no payload that is read has such
a name.

* `Packet.ofFrame_toBytes_eq` : a packet, written and read; `Packet.ofFrame_eq_ok_iff` : the frames of a packet;
* `NamedPayload.encode_eq_ok_iff` : what is written; `NamedPayload.decode_eq_ok_iff` : reading is the inverse of writing;
* `NamedPayload.decode_isOk_iff` : which bytes are read;
* `NamedPayload.decode_toPacket` : what a packet made for a payload carries;
* `packet_codec` : all of it.
-/

namespace TwinLink

/-! ## Packets -/

namespace Packet

/-- The two bytes that spell a length spell its low sixteen bits. -/
theorem declared_ofNat_eq (n : Nat) : Frame.declared (UInt8.ofNat n) (UInt8.ofNat (n / 256)) = n % 65536 := by
  have h0 : (UInt8.ofNat n).toNat = n % 256 := UInt8.toNat_ofNat'
  have h1 : (UInt8.ofNat (n / 256)).toNat = n / 256 % 256 := UInt8.toNat_ofNat'
  rw [Frame.declared, h0, h1]
  omega

/-- Two bytes are what spells the length that they declare. -/
theorem ofNat_declared (lo hi : UInt8) :
    UInt8.ofNat (Frame.declared lo hi) = lo ∧ UInt8.ofNat (Frame.declared lo hi / 256) = hi := by
  have hlo := lo.toNat_lt
  have hhi := hi.toNat_lt
  constructor
  · apply UInt8.toNat_inj.mp
    rw [UInt8.toNat_ofNat', Frame.declared]
    omega
  · apply UInt8.toNat_inj.mp
    rw [UInt8.toNat_ofNat', Frame.declared]
    omega

/-- A packet is read back if its header spells its length, and else refused for the length that the header spells. -/
theorem ofFrame_toBytes_eq (p : Packet) : ofFrame p.toBytes =
    if p.payload.length ≤ 65531 then .ok p else .error (.lengthMismatch (p.totalLength % 65536) p.totalLength) := by
  have hl : p.totalLength = 4 + p.payload.length := rfl
  split
  · exact ofFrame_toBytes (by simp only [hl, Frame.maxLength]; omega)
  · have hlen := length_toBytes p
    rw [toBytes_eq] at hlen ⊢
    have hne : p.totalLength % 65536 ≠ p.totalLength := by omega
    simp only [ofFrame, hlen, declared_ofNat_eq, if_neg hne]

/-- The reserved byte is not looked at. -/
theorem ofFrame_set (f : Bytes) (b : UInt8) : ofFrame (f.set 3 b) = ofFrame f := by
  rcases f with _ | ⟨lo, _ | ⟨hi, _ | ⟨type, _ | ⟨reserved, payload⟩⟩⟩⟩ <;> rfl

/-- **The frames of a packet** are its bytes, whatever stands in the reserved byte, if they are not too many for the header
to spell their number. -/
theorem ofFrame_eq_ok_iff {f : Bytes} {p : Packet} :
    ofFrame f = .ok p ↔ p.toBytes = f.set 3 0 ∧ f.length ≤ Frame.maxLength := by
  constructor
  · intro hf
    unfold ofFrame at hf
    split at hf
    · rename_i lo hi type reserved payload
      dsimp only at hf
      split at hf
      · rename_i hd
        cases hf
        have htotal : totalLength ⟨type, payload⟩ = Frame.declared lo hi := by
          rw [hd]
          simp only [totalLength, Frame.headerSize, List.length_cons]
          omega
        have hspelled := ofNat_declared lo hi
        refine ⟨?_, ?_⟩
        · rw [toBytes_eq, htotal, hspelled.1, hspelled.2]
          rfl
        · have hlo := lo.toNat_lt
          have hhi := hi.toNat_lt
          rw [← hd, Frame.declared, Frame.maxLength]
          omega
      · cases hf
    · cases hf
  · rintro ⟨hp, hl⟩
    have hlen := length_toBytes p
    rw [hp, List.length_set] at hlen
    have hread := ofFrame_toBytes (p := p) (hlen ▸ hl)
    rwa [hp, ofFrame_set] at hread

theorem totalLength_of_ofFrame {f : Bytes} {p : Packet} (hf : ofFrame f = .ok p) : p.totalLength = f.length := by
  rw [← length_toBytes, (ofFrame_eq_ok_iff.mp hf).1, List.length_set]

end Packet

/-! ## Named payloads -/

namespace NamedPayload

variable {n : NamedPayload} {b : Bytes} {kind : PacketKind} {request : Packet}

theorem encode_eq_ok_iff : n.encode = .ok b ↔ (Text.utf8 n.name).length < 256 ∧
    b = n.index :: UInt8.ofNat (Text.utf8 n.name).length :: (Text.utf8 n.name ++ n.data) := by
  unfold encode
  dsimp only
  split
  · rename_i hl
    exact ⟨fun he => ⟨hl, (Except.ok.inj he).symm⟩, fun he => congrArg Except.ok he.2.symm⟩
  · rename_i hl
    exact ⟨nofun, fun he => absurd he.1 hl⟩

theorem decode_encode (he : n.encode = .ok b) : decode b = .ok n := by
  obtain ⟨hl, rfl⟩ := encode_eq_ok_iff.mp he
  have hsize : (UInt8.ofNat (Text.utf8 n.name).length).toNat = (Text.utf8 n.name).length := by
    rw [UInt8.toNat_ofNat']
    exact Nat.mod_eq_of_lt hl
  unfold decode
  simp only [hsize, List.take_left, List.drop_left, Nat.lt_irrefl, if_false, Text.ofUtf8?_utf8]

/-- Bytes that are long enough for the name that they announce are read as far as that is text. -/
theorem decode_cons {index size : UInt8} {rest : Bytes} (hl : size.toNat ≤ rest.length) :
    decode (index :: size :: rest) = match Text.ofUtf8? (rest.take size.toNat) with
      | some text => .ok ⟨index, text, rest.drop size.toNat⟩
      | none => .error .invalidName := by
  have hs : ¬ (rest.take size.toNat).length < size.toNat := by
    rw [List.length_take]
    omega
  exact if_neg hs

theorem decode_short {index size : UInt8} {rest : Bytes} (hl : rest.length < size.toNat) :
    decode (index :: size :: rest) = .error (.truncated 2 size.toNat rest.length) := by
  have hs : (rest.take size.toNat).length = rest.length := by
    rw [List.length_take]
    omega
  unfold decode
  simp only [hs, if_pos hl]

/-- **Reading is the inverse of writing.** -/
theorem decode_eq_ok_iff : decode b = .ok n ↔ n.encode = .ok b := by
  refine ⟨fun hd => ?_, decode_encode⟩
  match b with
  | index :: size :: rest =>
    rcases Nat.lt_or_ge rest.length size.toNat with hl | hl
    · rw [decode_short hl] at hd
      cases hd
    · rw [decode_cons hl] at hd
      split at hd
      · rename_i text ht
        cases hd
        have hname := Text.utf8_of_ofUtf8? ht
        have hsize : (Text.utf8 text).length = size.toNat := by
          rw [hname, List.length_take]
          exact Nat.min_eq_left hl
        refine encode_eq_ok_iff.mpr ⟨hsize ▸ size.toNat_lt, ?_⟩
        dsimp only
        rw [hsize, UInt8.ofNat_toNat, hname, List.take_append_drop]
      · cases hd
  | [] | [_] => cases hd

/-- **Which bytes are read**: those that hold as much as they announce, and text where the name is. -/
theorem decode_isOk_iff : (∃ n, decode b = .ok n) ↔ 2 ≤ b.length ∧ 2 + (b.getD 1 0).toNat ≤ b.length ∧
    ∃ text, Text.utf8 text = (b.drop 2).take (b.getD 1 0).toNat := by
  match b with
  | index :: size :: rest =>
    have hlen : (index :: size :: rest).length = 2 + rest.length := by
      simp only [List.length_cons]
      omega
    have hget : (index :: size :: rest).getD 1 0 = size := rfl
    have hdrop : (index :: size :: rest).drop 2 = rest := rfl
    rw [hlen, hget, hdrop]
    constructor
    · rintro ⟨n, hd⟩
      rcases Nat.lt_or_ge rest.length size.toNat with hl | hl
      · rw [decode_short hl] at hd
        cases hd
      · rw [decode_cons hl] at hd
        split at hd
        · rename_i text ht
          exact ⟨by omega, by omega, text, Text.utf8_of_ofUtf8? ht⟩
        · cases hd
    · rintro ⟨-, hl, text, ht⟩
      refine ⟨⟨index, text, rest.drop size.toNat⟩, ?_⟩
      rw [decode_cons (by omega), Text.ofUtf8?_eq_some_iff.mpr ht]
  | [] | [_] => exact ⟨nofun, fun h => absurd h.1 (by simp)⟩

theorem toPacket_eq_ok_iff : n.toPacket kind = .ok request ↔
    ∃ payload, n.encode = .ok payload ∧ request = .ofKind kind payload := by
  unfold toPacket
  cases n.encode with
  | error e => simp [Except.map]
  | ok payload => simp [Except.map, eq_comm]

theorem decode_toPacket (hr : n.toPacket kind = .ok request) : decode request.payload = .ok n := by
  obtain ⟨payload, he, rfl⟩ := toPacket_eq_ok_iff.mp hr
  exact decode_encode he

end NamedPayload

/-- **Both formats invert.** A packet is read back from its bytes if its payload has at most 65531 of them, and else refused
with its length and what its header makes of that; a frame is read as the packet whose bytes it has, but for the reserved
byte. A payload can be written if its name has at most 255 bytes; bytes can be read if they are long enough and the name
in them is text; and the payloads written are the ones that are read. -/
theorem packet_codec :
    (∀ p : Packet, Packet.ofFrame p.toBytes = if p.payload.length ≤ 65531 then .ok p
      else .error (.lengthMismatch (p.totalLength % 65536) p.totalLength)) ∧
    (∀ f p, Packet.ofFrame f = .ok p ↔ p.toBytes = f.set 3 0 ∧ f.length ≤ 65535) ∧
    (∀ n : NamedPayload, (∃ b, n.encode = .ok b) ↔ (Text.utf8 n.name).length ≤ 255) ∧
    (∀ b, (∃ n, NamedPayload.decode b = .ok n) ↔ 2 ≤ b.length ∧ 2 + (b.getD 1 0).toNat ≤ b.length ∧
      ∃ text, Text.utf8 text = (b.drop 2).take (b.getD 1 0).toNat) ∧
    ∀ n b, NamedPayload.decode b = .ok n ↔ n.encode = .ok b := by
  refine ⟨Packet.ofFrame_toBytes_eq, fun _ _ => Packet.ofFrame_eq_ok_iff, fun n => ?_,
    fun _ => NamedPayload.decode_isOk_iff, fun _ _ => NamedPayload.decode_eq_ok_iff⟩
  constructor
  · rintro ⟨b, hb⟩
    exact Nat.le_of_lt_succ (NamedPayload.encode_eq_ok_iff.mp hb).1
  · exact fun hl => ⟨_, NamedPayload.encode_eq_ok_iff.mpr ⟨Nat.lt_succ_of_le hl, rfl⟩⟩

end TwinLink
