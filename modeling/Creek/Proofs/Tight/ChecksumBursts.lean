import Creek.Library.ShiftRegister
import Creek.Proofs.Tight.PacketCodec

/-! Damaged datagrams. The checksum sees every burst of up to four bytes in what it covers; the decoder
covers as much of the payload as the header announces.
-/

namespace Creek.Tight

open Library

-- The checksum as a shift register

/-- The feedback polynomial. -/
def crcPolynomial : BitVec 32 := 0xEDB88320

theorem crcTableStep_toBitVec (c : UInt32)
    : (crcTableStep c).toBitVec = ShiftRegister.shift crcPolynomial c.toBitVec := by
  have low : (c &&& 1).toBitVec = (BitVec.ofBool (c.toBitVec.getLsbD 0)).setWidth 32 := by
    rw [UInt32.toBitVec_and]
    exact BitVec.and_one_eq_setWidth_ofBool_getLsbD
  rw [crcTableStep, ShiftRegister.shift]
  rcases bit : c.toBitVec.getLsbD 0 with _ | _
  · have even : c &&& 1 = 0 := UInt32.toBitVec_inj.mp (by rw [low, bit]; rfl)
    rw [if_neg (not_not_intro even), if_neg Bool.false_ne_true]
    rfl
  · have odd : c &&& 1 ≠ 0 := by
      intro even
      rw [even, bit] at low
      exact absurd low (by decide)
    rw [if_pos odd, if_pos rfl]
    rfl

theorem crcTable_toBitVec (i : UInt32)
    : (crcTable i).toBitVec = ShiftRegister.shifts crcPolynomial 8 i.toBitVec := by
  have shifted : ∀ n : Nat, (Nat.repeat crcTableStep n i).toBitVec
      = ShiftRegister.shifts crcPolynomial n i.toBitVec := by
    intro n
    induction n with
    | zero => rfl
    | succ n ih => rw [Nat.repeat, crcTableStep_toBitVec, ih, ShiftRegister.shifts]
  exact shifted 8

theorem crcByte_toBitVec (crc : UInt32) (byte : UInt8)
    : (crcTable ((crc ^^^ byte.toUInt32) &&& 0xFF) ^^^ (crc >>> 8)).toBitVec
      = ShiftRegister.shifts crcPolynomial 8 (crc.toBitVec ^^^ byte.toBitVec.setWidth 32) := by
  have ends : ∀ i ≥ 8, (0xFF : BitVec 32).getLsbD i = false := by
    intro i above
    have small : 255 < 2 ^ i := Nat.lt_of_lt_of_le (by decide) (Nat.pow_le_pow_right (by decide) above)
    show (BitVec.ofNat 32 255).getLsbD i = false
    rw [BitVec.getLsbD_ofNat, Nat.testBit_lt_two_pow small, Bool.and_false]
  have gone : byte.toBitVec.setWidth 32 >>> 8 = 0 := by
    refine BitVec.eq_of_getLsbD_eq fun i _ => ?_
    rw [BitVec.getLsbD_ushiftRight, BitVec.getLsbD_setWidth,
      BitVec.getLsbD_of_ge byte.toBitVec (8 + i) (Nat.le_add_right 8 i)]
    simp
  have parts := @ShiftRegister.shifts_split 32 8 crcPolynomial
    (crc.toBitVec ^^^ byte.toBitVec.setWidth 32) 0xFF (by decide) ends
  rw [parts, BitVec.ushiftRight_xor_distrib, gone, UInt32.toBitVec_xor, crcTable_toBitVec,
    UInt32.toBitVec_and, UInt32.toBitVec_xor, UInt8.toBitVec_toUInt32]
  simp

theorem crc32Update_toBitVec (crc : UInt32) (data : Bytes)
    : (crc32Update crc data).toBitVec
      = ShiftRegister.absorb crcPolynomial crc.toBitVec (data.map UInt8.toBitVec) := by
  induction data generalizing crc with
  | nil => rfl
  | cons byte data ih =>
      have rest := ih (crcTable ((crc ^^^ byte.toUInt32) &&& 0xFF) ^^^ (crc >>> 8))
      rw [crcByte_toBitVec] at rest
      exact rest

/-- Bytes of one length that differ only within four in a row have different checksums. -/
theorem crc32Compute_window {left right : Bytes} {start : Nat} (long : left.length = right.length)
    (differ : left ≠ right) (window : ∀ i, left[i]? ≠ right[i]? → start ≤ i ∧ i < start + 4)
    : crc32Compute left ≠ crc32Compute right := by
  intro same
  have updates : crc32Update 0xFFFFFFFF left = crc32Update 0xFFFFFFFF right :=
    (UInt32.xor_left_inj _).mp same
  have registers := congrArg UInt32.toBitVec updates
  rw [crc32Update_toBitVec, crc32Update_toBitVec] at registers
  have injective : Function.Injective UInt8.toBitVec := fun _ _ => UInt8.toBitVec_inj.mp
  refine @ShiftRegister.absorb_window 32 _ _ _ _ start 4 (by decide) ?_ (by decide) ?_ ?_ registers
  · rw [List.length_map, List.length_map, long]
  · exact fun equal => differ (List.map_injective_iff.mpr injective equal)
  · intro i apart
    refine window i fun equal => apart ?_
    rw [List.getElem?_map, List.getElem?_map, equal]

-- Damaged datagrams

namespace PacketCodec

/-- Where a burst may fall: in the header before its checksum, but not in the payload size, in the
payload, or in the checksum.
-/
def Exposed (changed : Nat → Prop) : Prop :=
  (∀ i, changed i → i < 44 ∧ i ≠ 36 ∧ i ≠ 37)
  ∨ (∀ i, changed i → 48 ≤ i)
  ∨ ∀ i, changed i → 44 ≤ i ∧ i < 48

/-- The received datagram differs from the sent one, but only in one burst of up to four bytes. -/
structure Burst (sent received : Bytes) : Prop where
  length : received.length = sent.length
  differ : received ≠ sent
  window : ∃ start, ∀ i, received[i]? ≠ sent[i]? → start ≤ i ∧ i < start + 4
  exposed : Exposed fun i => received[i]? ≠ sent[i]?

/-- No burst in the datagram goes unnoticed. -/
def BurstsDetected (header : PacketHeader) (payload : Bytes) : Prop :=
  ∀ received, Burst (encode header payload) received → decode received = none

/-- What the checksum of a datagram covers. -/
def covered (datagram : Bytes) : Bytes := datagram.take 44 ++ [0, 0, 0, 0] ++ datagram.drop 48

theorem getElem?_covered {datagram : Bytes} (long : 48 ≤ datagram.length) (i : Nat)
    : (covered datagram)[i]? = if 44 ≤ i ∧ i < 48 then some 0 else datagram[i]? := by
  have front : (datagram.take 44).length = 44 := by
    rw [List.length_take]
    omega
  have zeros : (datagram.take 44 ++ [0, 0, 0, 0]).length = 48 := by
    rw [List.length_append, front]
    rfl
  rw [covered, List.getElem?_append, zeros, List.getElem?_append, front, List.getElem?_take,
    List.getElem?_drop]
  by_cases before : i < 44
  · rw [if_pos (by omega), if_pos before, if_pos before, if_neg (by omega)]
  · by_cases inside : i < 48
    · rw [if_pos inside, if_neg before, if_pos ⟨Nat.le_of_not_lt before, inside⟩]
      obtain rfl | rfl | rfl | rfl : i = 44 ∨ i = 45 ∨ i = 46 ∨ i = 47 := by omega
      all_goals rfl
    · rw [if_neg inside, if_neg (by omega), Nat.add_sub_cancel' (Nat.le_of_not_lt inside)]

theorem length_covered {datagram : Bytes} (long : 48 ≤ datagram.length)
    : (covered datagram).length = datagram.length := by
  rw [covered, List.length_append, List.length_append, List.length_take, List.length_drop]
  show min 44 datagram.length + 4 + (datagram.length - 48) = datagram.length
  omega

theorem encode_eq (header : PacketHeader) (payload : Bytes)
    : encode header payload
      = headFields header ++ put32 (checksumOf header payload) ++ payload := by
  rw [encode, encodeTo, finalizeCrc_encodeHeaderTo]

theorem length_encode (header : PacketHeader) (payload : Bytes)
    : (encode header payload).length = 48 + payload.length := by
  rw [encode_eq, List.length_append, List.length_append, length_headFields, length_put32]

theorem crc32Compute_covered_encode (header : PacketHeader) (payload : Bytes)
    : crc32Compute (covered (encode header payload)) = get32 (encode header payload) 44 := by
  have stored := congrArg PacketHeader.checksum
    (readHeader_headFields header (checksumOf header payload) payload)
  have front : (encode header payload).take 44 = headFields header := by
    rw [encode_eq, List.append_assoc, List.take_left' (length_headFields header)]
  have back : (encode header payload).drop 48 = payload := by
    rw [encode_eq, List.drop_left' (by rw [List.length_append, length_headFields, length_put32])]
  rw [covered, front, back, encode_eq]
  exact stored.symm

/-- An accepted datagram without trailing bytes carries the checksum of what it covers. -/
theorem crc32Compute_covered_of_decode {datagram payload : Bytes} {header : PacketHeader}
    (accepted : decode datagram = some (header, payload))
    (whole : datagram.length ≤ 48 + (get16 datagram 36).toNat)
    : crc32Compute (covered datagram) = get32 datagram 44 := by
  obtain ⟨rfl, room, body, checksum, -, -⟩ := decode_eq_some accepted
  have long : 48 ≤ datagram.length := Nat.le_trans (Nat.le_add_right _ _) room
  have rest : payload = datagram.drop 48 := by
    rw [body]
    refine List.take_of_length_le ?_
    rw [List.length_drop]
    exact Nat.sub_le_iff_le_add'.mpr whole
  rw [covered, ← rest, ← headFields_readHeader long]
  exact checksum

theorem Burst.get16_eq {sent received : Bytes} {off : Nat}
    (same : ∀ i, off ≤ i → i < off + 2 → received[i]? = sent[i]?)
    : get16 received off = get16 sent off := by
  rw [get16, get16, List.getD_eq_getElem?_getD, List.getD_eq_getElem?_getD,
    List.getD_eq_getElem?_getD, List.getD_eq_getElem?_getD, same off (by omega) (by omega),
    same (off + 1) (by omega) (by omega)]

theorem Burst.get32_eq {sent received : Bytes} {off : Nat}
    (same : ∀ i, off ≤ i → i < off + 4 → received[i]? = sent[i]?)
    : get32 received off = get32 sent off := by
  simp only [get32, List.getD_eq_getElem?_getD]
  rw [same off (by omega) (by omega), same (off + 1) (by omega) (by omega),
    same (off + 2) (by omega) (by omega), same (off + 3) (by omega) (by omega)]

theorem Burst.size_eq {sent received : Bytes} (burst : Burst sent received)
    : get16 received 36 = get16 sent 36 := by
  refine Burst.get16_eq fun i after before => ?_
  by_contra changed
  rcases burst.exposed with early | payload | checksum
  · obtain ⟨-, first, second⟩ := early i changed
    omega
  · have := payload i changed
    omega
  · have := checksum i changed
    omega

/-- A burst in the checksum changes it and nothing that it covers; any other changes what is covered and
not the checksum.
-/
theorem Burst.checksum_ne {sent received : Bytes} (burst : Burst sent received)
    (long : 48 ≤ sent.length) (valid : crc32Compute (covered sent) = get32 sent 44)
    : crc32Compute (covered received) ≠ get32 received 44 := by
  have longReceived : 48 ≤ received.length := burst.length ▸ long
  obtain ⟨start, window⟩ := burst.window
  by_cases stored : ∀ i, 44 ≤ i → i < 48 → received[i]? = sent[i]?
  · rw [Burst.get32_eq stored, ← valid]
    refine @crc32Compute_window _ _ start ?_ ?_ ?_
    · rw [length_covered longReceived, length_covered long, burst.length]
    · intro same
      refine burst.differ (List.ext_getElem? fun i => ?_)
      have at_ := congrArg (fun bytes => bytes[i]?) same
      simp only [getElem?_covered long, getElem?_covered longReceived] at at_
      split at at_
      · rename_i inside
        exact stored i inside.1 inside.2
      · exact at_
    · intro i changed
      rw [getElem?_covered long, getElem?_covered longReceived] at changed
      split at changed
      · exact absurd rfl changed
      · exact window i changed
  · push Not at stored
    obtain ⟨touched, after, before, changed⟩ := stored
    have inside : ∀ i, received[i]? ≠ sent[i]? → 44 ≤ i ∧ i < 48 := by
      rcases burst.exposed with early | payload | checksum
      · have := (early touched changed).1
        omega
      · have := payload touched changed
        omega
      · exact checksum
    have same : covered received = covered sent := by
      refine List.ext_getElem? fun i => ?_
      rw [getElem?_covered long, getElem?_covered longReceived]
      split
      · rfl
      · rename_i outside
        by_contra apart
        exact outside (inside i apart)
    rw [same, valid]
    intro equal
    have bytes : (received.drop 44).take 4 = (sent.drop 44).take 4 := by
      rw [← put32_get32 (by omega), ← put32_get32 (by omega), equal]
    have at_ := congrArg (fun bytes => bytes[touched - 44]?) bytes
    simp only [List.getElem?_take, List.getElem?_drop] at at_
    rw [if_pos (by omega), if_pos (by omega), Nat.add_sub_cancel' after] at at_
    exact changed at_

/-- A header that announces all of its payload lets no burst go unnoticed. -/
theorem bursts_detected {header : PacketHeader} {payload : Bytes}
    (announced : payload.length ≤ header.payloadSize.toNat)
    : BurstsDetected header payload := by
  intro received burst
  rcases decoded : decode received with _ | ⟨read, body⟩
  · rfl
  · have size : get16 (encode header payload) 36 = header.payloadSize := by
      rw [encode_eq]
      exact congrArg PacketHeader.payloadSize
        (readHeader_headFields header (checksumOf header payload) payload)
    have long : 48 ≤ (encode header payload).length := by
      rw [length_encode]
      exact Nat.le_add_right _ _
    refine absurd (crc32Compute_covered_of_decode decoded ?_)
      (burst.checksum_ne long (crc32Compute_covered_encode header payload))
    rw [burst.size_eq, size, burst.length, length_encode]
    exact Nat.add_le_add_left announced 48

-- Payloads that are not announced

/-- A byte of the payload that the header does not announce may change. -/
theorem burst_tail (front tail : Bytes) (byte other : UInt8) (differ : other ≠ byte)
    (long : 48 ≤ front.length)
    : Burst (front ++ byte :: tail) (front ++ other :: tail) := by
  have changed : ∀ i, (front ++ other :: tail)[i]? ≠ (front ++ byte :: tail)[i]? → i = front.length := by
    intro i apart
    by_contra elsewhere
    refine apart ?_
    rcases Nat.lt_or_gt_of_ne elsewhere with before | after
    · rw [List.getElem?_append_left before, List.getElem?_append_left before]
    · obtain ⟨k, rfl⟩ := Nat.exists_eq_add_of_lt after
      rw [List.getElem?_append_right (by omega), List.getElem?_append_right (by omega)]
      have position : front.length + k + 1 - front.length = k + 1 := by omega
      rw [position, List.getElem?_cons_succ, List.getElem?_cons_succ]
  refine ⟨?_, ?_, ⟨front.length, fun i apart => ?_⟩, .inr (.inl fun i apart => ?_)⟩
  · rw [List.length_append, List.length_append]
    rfl
  · intro same
    exact differ (List.head_eq_of_cons_eq (List.append_cancel_left same))
  · rw [changed i apart]
    omega
  · rw [changed i apart]
    exact long

theorem burst_checksum (front back : Bytes) (sent received : UInt32) (differ : received ≠ sent)
    (long : front.length = 44)
    : Burst (front ++ put32 sent ++ back) (front ++ put32 received ++ back) := by
  have changed : ∀ i, (front ++ put32 received ++ back)[i]? ≠ (front ++ put32 sent ++ back)[i]?
      → 44 ≤ i ∧ i < 48 := by
    intro i apart
    by_contra elsewhere
    refine apart ?_
    have whole (checksum : UInt32) : (front ++ put32 checksum).length = 48 := by
      rw [List.length_append, long, length_put32]
    by_cases before : i < 44
    · have inside : i < front.length := long.symm ▸ before
      rw [List.append_assoc, List.append_assoc, List.getElem?_append_left inside,
        List.getElem?_append_left inside]
    · have beyond (checksum : UInt32) : (front ++ put32 checksum).length ≤ i := by
        rw [whole]
        omega
      rw [List.getElem?_append_right (beyond received), List.getElem?_append_right (beyond sent),
        whole, whole]
  refine ⟨?_, ?_, ⟨44, changed⟩, .inr (.inr changed)⟩
  · simp only [List.length_append, length_put32]
  · intro same
    have checksums := List.append_cancel_left (List.append_cancel_right same)
    have read (checksum : UInt32) : get32 (put32 checksum) 0 = checksum :=
      get32_of_front (List.prefix_refl _)
    exact differ (by rw [← read received, checksums, read])

/-- With the right magic and version, a payload that is longer than announced lets a burst through. -/
theorem exists_accepted_burst {header : PacketHeader} {payload : Bytes}
    (magic : header.magic = kMagic) (version : header.version = kVersion)
    (hidden : header.payloadSize.toNat < payload.length)
    : ∃ received, Burst (encode header payload) received ∧ decode received ≠ none := by
  obtain ⟨body, rest, rfl, size⟩ : ∃ body rest, payload = body ++ rest
      ∧ header.payloadSize.toNat = body.length := by
    refine ⟨payload.take header.payloadSize.toNat, payload.drop header.payloadSize.toNat,
      (List.take_append_drop _ _).symm, ?_⟩
    rw [List.length_take, Nat.min_eq_left (Nat.le_of_lt hidden)]
  rcases rest with _ | ⟨byte, tail⟩
  · rw [List.append_nil, size] at hidden
    exact absurd hidden (Nat.lt_irrefl _)
  · have accepted (rest : Bytes)
        : decode (headFields header ++ put32 (checksumOf header body) ++ (body ++ rest)) ≠ none := by
      rw [decode_headFields_append magic version size]
      exact Option.some_ne_none _
    rw [encode_eq]
    by_cases same : checksumOf header (body ++ byte :: tail) = checksumOf header body
    · refine ⟨_, ?_, accepted ((byte + 1) :: tail)⟩
      rw [same, ← List.append_assoc, ← List.append_assoc]
      refine burst_tail _ tail byte (byte + 1) ?_ ?_
      · exact fun equal => absurd (add_eq_left.mp equal) (by decide)
      · simp only [List.length_append, length_headFields, length_put32]
        exact Nat.le_add_right _ _
    · refine ⟨_, ?_, accepted (byte :: tail)⟩
      exact burst_checksum _ _ _ _ (fun equal => same equal.symm) (length_headFields header)

/-- A header that announces all of its payload lets no burst go unnoticed; one with the right magic and
version that does not lets some through.
-/
theorem bursts_detected_announced (header : PacketHeader) (payload : Bytes)
    : (payload.length ≤ header.payloadSize.toNat → BurstsDetected header payload)
      ∧ (header.magic = kMagic → header.version = kVersion → BurstsDetected header payload
        → payload.length ≤ header.payloadSize.toNat) := by
  refine ⟨bursts_detected, fun magic version detected => ?_⟩
  by_contra hidden
  obtain ⟨received, burst, accepted⟩ :=
    exists_accepted_burst magic version (Nat.lt_of_not_le hidden)
  exact accepted (detected received burst)

theorem bursts_detected_announced_byte
    : BurstsDetected { magic := kMagic, version := kVersion, payloadSize := 1 } [0] :=
  (bursts_detected_announced _ _).1 (by decide)

/-- A payload of one byte that its header does not announce. -/
theorem hidden_byte_undetected
    : ¬BurstsDetected { magic := kMagic, version := kVersion, payloadSize := 0 } [0] := by
  intro detected
  obtain ⟨received, burst, accepted⟩ :=
    @exists_accepted_burst { magic := kMagic, version := kVersion, payloadSize := 0 } [0] rfl rfl
      (by decide)
  exact accepted (detected received burst)

end PacketCodec

end Creek.Tight
