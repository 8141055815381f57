import TradingLab.Codec
/-!
# Flipped bits

A frame with one bit flipped is not accepted. Where the checksum covers the bit,
or is the bit, it does not match; a flip in the length word moves the end of the
frame, and there no message of the type of the frame ends.
-/
open LabLib

namespace TradingLab

section Frames
variable {crc32 : List UInt8 → UInt32} {frame : Frame}

/-- The length of the payload of a message of this type. -/
def payloadLen : UInt8 → Nat
  | TYPE_SNAPSHOT_BEGIN => 8
  | TYPE_SNAPSHOT_LEVEL => 17
  | TYPE_SNAPSHOT_END => 16
  | TYPE_LEVEL_SET => 17
  | TYPE_MARKET_TRADE => 17
  | TYPE_HEARTBEAT => 0
  | TYPE_FEED_RESET => 8
  | TYPE_ORDER_REQUEST => 55
  | _ => 0

theorem length_payload (body : FrameBody) : (encode_payload body).length = payloadLen body.message_type := by
  cases body <;> simp [encode_payload, encode_level, encode_order, Word.width] <;> rfl

theorem Frame.getElem?_type (frame : Frame) (rest : List UInt8) :
    (frame.encode crc32 ++ rest)[4]? = some frame.body.message_type := by
  have hword : (to_le_bytes frame.frame_len).length = 4 := by simp [Word.width]
  rw [encode_eq, unsealed, List.flatten_cons, List.append_assoc, List.append_assoc, List.getElem?_append_right hword.le, hword]
  rfl

/-- The bytes of an accepted frame are its encoding, and the rest behind it. -/
theorem Frame.accepted {bytes : List UInt8} {n : Nat} (h : Frame.decode crc32 bytes = .ok (frame, n)) :
    ∃ rest, bytes = frame.encode crc32 ++ rest := by
  refine ⟨bytes.drop n, ?_⟩
  rw [(encode_decode h).1, List.take_append_drop]

theorem Frame.take_encode (frame : Frame) (rest : List UInt8) :
    (frame.encode crc32 ++ rest).take 4 = to_le_bytes frame.frame_len := by
  rw [encode_eq, List.append_assoc, take_unsealed]

/-- A flip in the length word: what is left of the frame, or what is added to it, is no message of its type. -/
theorem flipped_length_refused {i bit : Nat} (hi : i < 4) (hb : bit < 8) {other : Frame} {rest : List UInt8} :
    flipBit (frame.encode crc32) i bit ≠ other.encode crc32 ++ rest := by
  intro h
  have hsplit : frame.encode crc32 = to_le_bytes frame.frame_len ++ (frame.encode crc32).drop 4 := by
    rw [← frame.take_encode [], List.append_nil, List.take_append_drop]
  have hword : (to_le_bytes frame.frame_len).length = 4 := by simp [Word.width]
  have hflip : flipBit (frame.encode crc32) i bit = flipBit (to_le_bytes frame.frame_len) i bit ++ (frame.encode crc32).drop 4 := by
    rw [← flipBit_append_left (by omega), ← hsplit]
  have htype : other.body.message_type = frame.body.message_type := by
    have h4 : (other.encode crc32 ++ rest)[4]? = some other.body.message_type := other.getElem?_type rest
    rw [← h, hflip, List.getElem?_append_right (by simp [Word.width]), length_flipBit, hword] at h4
    have h4' : (frame.encode crc32 ++ [])[4]? = some frame.body.message_type := frame.getElem?_type []
    rw [List.append_nil, hsplit, List.getElem?_append_right hword.le, hword, h4] at h4'
    exact Option.some.inj h4'
  have hlen : other.frame_len = frame.frame_len := by
    rw [Frame.frame_len, Frame.frame_len, length_payload, length_payload, htype]
  have hfront := congrArg (List.take 4) h
  rw [hflip, other.take_encode, List.take_left' (by simp [Word.width]), hlen] at hfront
  exact flipBit_ne (by omega) hb hfront

/-- A flip behind the length word: the frame ends where it did, and the checksum tells. -/
theorem flipped_content_refused
    (hcrc : ∀ bytes i bit, i < bytes.length → bit < 8 → crc32 (flipBit bytes i bit) ≠ crc32 bytes) {i bit : Nat} (h4 : 4 ≤ i)
    (hi : i < (frame.encode crc32).length) (hb : bit < 8) {other : Frame} {rest : List UInt8} :
    flipBit (frame.encode crc32) i bit ≠ other.encode crc32 ++ rest := by
  intro h
  have hword : (to_le_bytes frame.frame_len).length = 4 := by simp [Word.width]
  obtain ⟨j, rfl⟩ := Nat.exists_eq_add_of_le h4
  have hlen : other.frame_len = frame.frame_len := by
    have hsplit : frame.encode crc32 = to_le_bytes frame.frame_len ++ (frame.encode crc32).drop 4 := by
      rw [← frame.take_encode [], List.append_nil, List.take_append_drop]
    have hfront := congrArg (List.take 4) h
    rw [hsplit, ← hword, flipBit_append_right, List.take_left, hword, other.take_encode] at hfront
    rw [← from_to_le_bytes frame.frame_len, hfront, from_to_le_bytes]
  have hlength : (other.encode crc32).length = (frame.encode crc32).length := by
    rw [Frame.length_encode, Frame.length_encode, ← Frame.frame_len_toNat, ← Frame.frame_len_toNat, hlen]
  obtain ⟨heq, -⟩ := List.append_inj ((List.append_nil _).trans h) (by rw [length_flipBit, hlength])
  rw [frame.encode_eq, other.encode_eq, hlen] at heq
  have hunsealed : (frame.unsealed frame.frame_len).length = (other.unsealed frame.frame_len).length := by
    rw [Frame.length_encode, Frame.length_encode] at hlength
    rw [Frame.length_unsealed, Frame.length_unsealed]
    omega
  by_cases hcovered : 4 + j < (frame.unsealed frame.frame_len).length
  · rw [flipBit_append_left hcovered] at heq
    obtain ⟨hbody, hsum⟩ := List.append_inj heq (by rw [length_flipBit, hunsealed])
    refine hcrc _ _ bit hcovered hb ?_
    rw [hbody, ← from_to_le_bytes (crc32 (other.unsealed _)), ← hsum, from_to_le_bytes]
  · obtain ⟨k, hk⟩ := Nat.exists_eq_add_of_le (Nat.le_of_not_lt hcovered)
    rw [hk, flipBit_append_right] at heq
    obtain ⟨hbody, hsum⟩ := List.append_inj heq hunsealed
    refine flipBit_ne ?_ hb (hsum.trans (by rw [hbody]))
    rw [frame.encode_eq, List.length_append] at hi
    omega

/-- No frame survives the flip of a single bit, given a checksum that tells strings apart that differ in one bit. -/
theorem single_bit_flips_are_detected
    (hcrc : ∀ bytes i bit, i < bytes.length → bit < 8 → crc32 (flipBit bytes i bit) ≠ crc32 bytes) (frame : Frame) {i bit : Nat}
    (hi : i < (frame.encode crc32).length) (hb : bit < 8) :
    ∃ error, Frame.decode crc32 (flipBit (frame.encode crc32) i bit) = .error error := by
  cases hdecode : Frame.decode crc32 (flipBit (frame.encode crc32) i bit) with
  | error error => exact ⟨error, rfl⟩
  | ok x =>
    obtain ⟨other, n⟩ := x
    obtain ⟨rest, hrest⟩ := Frame.accepted hdecode
    rcases Nat.lt_or_ge i 4 with h4 | h4
    · exact absurd hrest (flipped_length_refused h4 hb)
    · exact absurd hrest (flipped_content_refused hcrc h4 hi hb)

end Frames

/-! ## A checksum -/

/-- All bytes folded into one. -/
def xorSum (bytes : List UInt8) : UInt8 := bytes.foldr (· ^^^ ·) 0

theorem xorSum_flipBit {bytes : List UInt8} {i : Nat} (hi : i < bytes.length) (bit : Nat) :
    xorSum (flipBit bytes i bit) = (1 <<< UInt8.ofNat bit) ^^^ xorSum bytes := by
  induction bytes generalizing i with
  | nil => cases hi
  | cons byte bytes ih =>
    cases i with
    | zero =>
      change (byte ^^^ (1 <<< UInt8.ofNat bit)) ^^^ xorSum bytes = (1 <<< UInt8.ofNat bit) ^^^ (byte ^^^ xorSum bytes)
      rw [UInt8.xor_comm byte, UInt8.xor_assoc]
    | succ i =>
      change byte ^^^ xorSum (flipBit bytes i bit) = (1 <<< UInt8.ofNat bit) ^^^ (byte ^^^ xorSum bytes)
      rw [ih (Nat.lt_of_succ_lt_succ hi), ← UInt8.xor_assoc, UInt8.xor_comm byte, UInt8.xor_assoc]

theorem xorSum_detects (bytes : List UInt8) (i bit : Nat) (hi : i < bytes.length) (hb : bit < 8) :
    (xorSum (flipBit bytes i bit)).toUInt32 ≠ (xorSum bytes).toUInt32 := by
  intro h
  have hsum : xorSum (flipBit bytes i bit) = xorSum bytes := UInt8.toNat_inj.1 (by simpa using congrArg UInt32.toNat h)
  rw [xorSum_flipBit hi] at hsum
  exact mask_ne_zero hb (by simpa using hsum)

/-- The lowest bit of the length word of a heartbeat. -/
theorem single_bit_flips_are_detected_small :
    ∃ error, Frame.decode (fun bytes => (xorSum bytes).toUInt32)
      (flipBit (Frame.encode (fun bytes => (xorSum bytes).toUInt32) ⟨3, 5, 6, 1, .Heartbeat⟩) 0 0) = .error error :=
  single_bit_flips_are_detected xorSum_detects ⟨3, 5, 6, 1, .Heartbeat⟩ (by decide) (by decide)

end TradingLab
