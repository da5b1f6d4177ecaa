import Creek.Proofs.Tight.HashCompression

/-! The streaming hash, and what is built on it, against the standards: however data is split over calls of
`update`, `finish` gives the digest of the whole.
-/

namespace Creek.Tight.Crypto

open Library.SecureHash

-- Updates

/-- The hash after some whole blocks of data. -/
def chained (data : Bytes) : Nat → List UInt32
  | 0 => ({} : Sha256Ctx).h
  | n + 1 => Sha256Ctx.compress (chained data n) ((data.drop (64 * n)).take 64)

/-- The whole blocks of the data so far are compressed, and the rest is in the buffer. -/
structure Absorbed (ctx : Sha256Ctx) (data : Bytes) : Prop where
  h : ctx.h = chained data (data.length / 64)
  buf : ctx.buf = data.drop (64 * (data.length / 64))

variable {ctx : Sha256Ctx} {data : Bytes}

theorem chained_append {n : Nat} (inside : 64 * n ≤ data.length) (more : Bytes)
    : chained (data ++ more) n = chained data n := by
  induction n with
  | zero => rfl
  | succ n ih =>
      have block : ((data ++ more).drop (64 * n)).take 64 = (data.drop (64 * n)).take 64 := by
        have room : 64 ≤ (data.drop (64 * n)).length := by
          rw [List.length_drop]
          omega
        rw [List.drop_append_of_le_length (by omega), List.take_append_of_le_length room]
      rw [chained, chained, ih (by omega), block]

theorem absorbed_nil : Absorbed {} [] := ⟨rfl, rfl⟩

theorem Absorbed.length_buf (absorbed : Absorbed ctx data)
    : ctx.buf.length = data.length % 64 := by
  rw [absorbed.buf, List.length_drop]
  omega

theorem Absorbed.piece (absorbed : Absorbed ctx data) {piece : Bytes}
    (fits : ctx.buf.length + piece.length ≤ 64)
    : Absorbed
        (if (ctx.buf ++ piece).length = 64 then
          { ctx with h := Sha256Ctx.compress ctx.h (ctx.buf ++ piece), buf := [] }
        else
          { ctx with buf := ctx.buf ++ piece })
        (data ++ piece) := by
  have size := absorbed.length_buf
  have whole : 64 * (data.length / 64) ≤ data.length := by omega
  have rest : (data ++ piece).drop (64 * (data.length / 64)) = ctx.buf ++ piece := by
    rw [List.drop_append_of_le_length whole, absorbed.buf]
  rw [List.length_append]
  split
  · rename_i full
    have blocks : (data ++ piece).length / 64 = data.length / 64 + 1 := by
      rw [List.length_append]
      omega
    have block : ((data ++ piece).drop (64 * (data.length / 64))).take 64 = ctx.buf ++ piece := by
      rw [rest, List.take_of_length_le (by rw [List.length_append]; omega)]
    constructor
    · rw [blocks, chained, chained_append whole, block, absorbed.h]
    · rw [blocks, List.drop_of_length_le (by rw [List.length_append]; omega)]
  · rename_i open_
    have blocks : (data ++ piece).length / 64 = data.length / 64 := by
      rw [List.length_append]
      omega
    constructor
    · rw [blocks, chained_append whole, absorbed.h]
    · rw [blocks, rest]

theorem Absorbed.updateLoop {fuel : Nat} {more : Bytes} (absorbed : Absorbed ctx data)
    (enough : more.length ≤ fuel)
    : Absorbed (Sha256Ctx.updateLoop fuel ctx more) (data ++ more) := by
  induction fuel generalizing ctx data more with
  | zero =>
      rw [List.length_eq_zero_iff.mp (Nat.le_zero.mp enough), List.append_nil]
      exact absorbed
  | succ fuel ih =>
      rw [Sha256Ctx.updateLoop]
      split
      · rename_i none_
        rw [List.isEmpty_iff.mp none_, List.append_nil]
        exact absorbed
      · rename_i some_
        have size := absorbed.length_buf
        have positive : 0 < more.length := by
          rw [List.length_pos_iff]
          exact fun none_ => some_ (List.isEmpty_iff.mpr none_)
        dsimp only
        generalize counted : min (64 - ctx.buf.length) more.length = count
        have fits : ctx.buf.length + (more.take count).length ≤ 64 := by
          rw [List.length_take]
          omega
        have left : (more.drop count).length ≤ fuel := by
          rw [List.length_drop]
          omega
        have absorbed := ih (absorbed.piece fits) left
        rwa [List.append_assoc, List.take_append_drop] at absorbed

theorem Absorbed.update (absorbed : Absorbed ctx data) (more : Bytes)
    : Absorbed (ctx.update more) (data ++ more) :=
  @Absorbed.updateLoop { ctx with totalLen := _ } _ _ _ ⟨absorbed.h, absorbed.buf⟩ (le_refl _)

theorem totalLen_updateLoop (fuel : Nat) (ctx : Sha256Ctx) (more : Bytes)
    : (Sha256Ctx.updateLoop fuel ctx more).totalLen = ctx.totalLen := by
  induction fuel generalizing ctx more with
  | zero => rfl
  | succ fuel ih =>
      rw [Sha256Ctx.updateLoop]
      split
      · rfl
      · rw [ih]
        split <;> rfl

theorem totalLen_update (ctx : Sha256Ctx) (more : Bytes)
    : (ctx.update more).totalLen = u64 (ctx.totalLen + more.length) :=
  totalLen_updateLoop _ _ _

theorem absorbed_pieces (pieces : List Bytes)
    : Absorbed (pieces.foldl Sha256Ctx.update {}) pieces.flatten
      ∧ (pieces.foldl Sha256Ctx.update {}).totalLen = u64 pieces.flatten.length := by
  induction pieces using List.reverseRecOn with
  | nil => exact ⟨absorbed_nil, rfl⟩
  | append_singleton pieces piece ih =>
      obtain ⟨absorbed, total⟩ := ih
      rw [List.foldl_append, List.foldl_cons, List.foldl_nil, List.flatten_append,
        List.flatten_singleton]
      refine ⟨absorbed.update piece, ?_⟩
      rw [totalLen_update, total, List.length_append, u64, u64, u64, Nat.mod_add_mod]

-- Padding

/-- The number of zero bytes that bring data to 56 modulo 64. -/
def zeroOctets (length : Nat) : Nat := ((56 - (length : Int)) % 64).toNat

theorem Absorbed.padZeros {fuel : Nat} (absorbed : Absorbed ctx data)
    (enough : zeroOctets data.length ≤ fuel)
    : Absorbed (Sha256Ctx.padZeros fuel ctx)
        (data ++ List.replicate (zeroOctets data.length) 0) := by
  induction fuel generalizing ctx data with
  | zero =>
      rw [Nat.le_zero.mp enough, List.replicate_zero, List.append_nil]
      exact absorbed
  | succ fuel ih =>
      have size := absorbed.length_buf
      rw [Sha256Ctx.padZeros]
      split
      · have length : (data ++ [(0 : UInt8)]).length = data.length + 1 := by
          rw [List.length_append, List.length_singleton]
        have fewer : zeroOctets data.length = zeroOctets (data ++ [(0 : UInt8)]).length + 1 := by
          rw [length]
          unfold zeroOctets
          omega
        have absorbed := ih (absorbed.update [0]) (by omega)
        rwa [List.append_assoc, List.singleton_append, ← List.replicate_succ, ← fewer] at absorbed
      · have none_ : zeroOctets data.length = 0 := by
          unfold zeroOctets
          omega
        rw [none_, List.replicate_zero, List.append_nil]
        exact absorbed

/-- The eight bytes of a number of bits, as `finish` writes them. -/
def lenBe (bitLen : Nat) : Bytes := (List.range 8).map fun i => UInt8.ofNat (bitLen >>> (56 - i * 8))

/-- Data as `finish` pads it. -/
def paddedData (data : Bytes) : Bytes :=
  data ++ [0x80] ++ List.replicate (zeroOctets (data.length + 1)) 0
    ++ lenBe (u64 (u64 data.length * 8))

theorem octetBits_zero : octetBits 0 = List.replicate 8 false := by decide

theorem bits_zeros (count : Nat)
    : bits (List.replicate count 0) = List.replicate (8 * count) false := by
  induction count with
  | zero => rfl
  | succ count ih =>
      rw [List.replicate_succ, bits_cons, ih, octetBits_zero, List.replicate_append_replicate]
      congr 1
      omega

theorem bits_lenBe (length : Nat) : bits (lenBe (u64 (u64 length * 8))) = lengthBits (8 * length) := by
  have length_lenBe (bitLen : Nat) : (lenBe bitLen).length = 8 := by
    rw [lenBe, List.length_map, List.length_range]
  have length_lengthBits : (lengthBits (8 * length)).length = 64 := by
    rw [lengthBits, List.length_map, List.length_range]
  have cut : u64 (u64 length * 8) = 8 * length % 2 ^ 64 := by
    rw [u64, u64, Nat.mod_mul_mod, Nat.mul_comm]
  refine List.ext_getElem (by rw [length_bits, length_lenBe, length_lengthBits]) ?_
  intro k inside inLength
  rw [length_lengthBits] at inLength
  have left := getD_bits (lenBe (u64 (u64 length * 8))) k
  rw [List.getD_eq_getElem _ _ inside] at left
  have octet : (lenBe (u64 (u64 length * 8))).getD (k / 8) 0
      = UInt8.ofNat ((8 * length % 2 ^ 64) >>> (56 - k / 8 * 8)) := by
    rw [cut, lenBe, List.getD_eq_getElem?_getD, List.getElem?_map,
      List.getElem?_range (by omega)]
    rfl
  have place : 56 - k / 8 * 8 + (7 - k % 8) = 64 - 1 - k := by omega
  rw [left, octet, UInt8.toNat_ofNat', Nat.testBit_mod_two_pow, Nat.testBit_shiftRight, place]
  simp only [lengthBits, List.getElem_map, List.getElem_range, BitVec.getMsbD, BitVec.getLsbD,
    BitVec.toNat_ofNat]
  rw [decide_eq_true inLength, decide_eq_true (by omega : 7 - k % 8 < 8)]

theorem bits_padded (data : Bytes) : bits (paddedData data) = pad (bits data) := by
  have zeros : zeroBits (8 * data.length) = 7 + 8 * zeroOctets (data.length + 1) := by
    unfold zeroBits zeroOctets
    omega
  have mark : bits [0x80] = true :: List.replicate 7 false := by decide
  rw [paddedData, pad, bits_append, bits_append, bits_append, bits_lenBe, bits_zeros, mark, length_bits,
    zeros, ← List.replicate_append_replicate]
  simp only [List.append_assoc, List.cons_append]

-- The digest

theorem getLsbD_part (octet : UInt8) {k q r : Nat} (few : q < 4) (low : r < 8)
    : (octet.toBitVec.setWidth 32 <<< (8 * k)).getLsbD (8 * q + r)
      = (decide (k = q) && octet.toNat.testBit r) := by
  have inside : 8 * q + r < 32 := by omega
  rw [BitVec.getLsbD_shiftLeft, BitVec.getLsbD_setWidth, decide_eq_true inside, Bool.true_and]
  rcases Nat.lt_trichotomy k q with before | rfl | behind
  · rw [BitVec.getLsbD_of_ge _ _ (by omega), Bool.and_false, Bool.and_false,
      decide_eq_false before.ne, Bool.false_and]
  · rw [Nat.add_sub_cancel_left, decide_eq_false (by omega), decide_eq_true (by omega : r < 32),
      decide_eq_true rfl]
    rfl
  · rw [decide_eq_true (by omega), decide_eq_false behind.ne', Bool.not_true, Bool.false_and,
      Bool.false_and]

theorem getLsbD_octets (a b c d : UInt8) {q r : Nat} (few : q < 4) (low : r < 8)
    : ((a.toUInt32 <<< 24) ||| (b.toUInt32 <<< 16) ||| (c.toUInt32 <<< 8)
          ||| d.toUInt32).toBitVec.getLsbD (8 * q + r)
      = ([d, c, b, a].getD q 0).toNat.testBit r := by
  have shifts : ((a.toUInt32 <<< 24) ||| (b.toUInt32 <<< 16) ||| (c.toUInt32 <<< 8)
        ||| d.toUInt32).toBitVec
      = a.toBitVec.setWidth 32 <<< (8 * 3) ||| b.toBitVec.setWidth 32 <<< (8 * 2)
        ||| c.toBitVec.setWidth 32 <<< (8 * 1) ||| d.toBitVec.setWidth 32 <<< (8 * 0) := by
    rw [Nat.mul_zero, BitVec.shiftLeft_zero]
    rfl
  rw [shifts, BitVec.getLsbD_or, BitVec.getLsbD_or, BitVec.getLsbD_or, getLsbD_part a few low,
    getLsbD_part b few low, getLsbD_part c few low, getLsbD_part d few low]
  interval_cases q <;> simp

theorem getMsbD_blockWord (block : Bytes) (t : Nat) {j : Nat} (inside : j < 32)
    : (blockWords block t).getMsbD j
      = (block.getD (4 * t + j / 8) 0).toNat.testBit (7 - j % 8) := by
  have place : 32 - 1 - j = 8 * (3 - j / 8) + (7 - j % 8) := by omega
  rw [BitVec.getMsbD, decide_eq_true inside, Bool.true_and, place, blockWords, Crypto.blockWord,
    getLsbD_octets _ _ _ _ (by omega) (by omega), Nat.mul_comm t 4]
  have quarter : j / 8 < 4 := by omega
  generalize j / 8 = q at quarter
  interval_cases q <;> rfl

theorem blockWords_eq (data : Bytes) (i : Nat) {t : Nat} (inside : t < 16)
    : blockWords ((data.drop (64 * i)).take 64) t = Library.SecureHash.blockWord (bits data) i t := by
  refine BitVec.eq_of_getMsbD_eq fun j inWord => ?_
  have place : (512 * i + 32 * t + j) / 8 = 64 * i + (4 * t + j / 8) := by omega
  have bit : (512 * i + 32 * t + j) % 8 = j % 8 := by omega
  rw [getMsbD_blockWord _ _ inWord, Library.SecureHash.blockWord, BitVec.getMsbD_ofFnBE,
    dif_pos inWord, getD_bits, place, bit, List.getD_eq_getElem?_getD, List.getD_eq_getElem?_getD,
    List.getElem?_take_of_lt (by omega), List.getElem?_drop]

/-- The compressed blocks are the hash values of the standard. -/
theorem chained_eq (data : Bytes) (n : Nat) : chained data n = hashWords (chain (bits data) n) := by
  induction n with
  | zero => exact h_initial
  | succ n ih =>
      rw [chained, ih, compress_eq, chain, compress_congr fun t => blockWords_eq data n]

theorem octets_words (v : HashValue)
    : ((hashWords v).flatMap fun (word : UInt32) =>
          [(word >>> 24).toUInt8, (word >>> 16).toUInt8, (word >>> 8).toUInt8, word.toUInt8])
      = v.octets :=
  rfl

theorem finish_eq (absorbed : Absorbed ctx data) (total : ctx.totalLen = u64 data.length)
    : ctx.finish = sha256Octets data := by
  have mark : (data ++ [(0x80 : UInt8)]).length = data.length + 1 := by
    rw [List.length_append, List.length_singleton]
  have few : zeroOctets (data ++ [(0x80 : UInt8)]).length ≤ 64 := by
    unfold zeroOctets
    omega
  have last := ((absorbed.update [0x80]).padZeros few).update (lenBe (u64 (u64 data.length * 8)))
  rw [mark] at last
  have blocks : (paddedData data).length / 64 = (pad (bits data)).length / 512 := by
    rw [← bits_padded, length_bits]
    omega
  have hashed : chained (paddedData data) ((paddedData data).length / 64)
      = hashWords (chain (pad (bits data)) ((pad (bits data)).length / 512)) := by
    rw [chained_eq, bits_padded, blocks]
  rw [Sha256Ctx.finish, total]
  exact (congrArg (List.flatMap _ ·) (last.h.trans hashed)).trans (octets_words _)

theorem finish_pieces (pieces : List Bytes)
    : (pieces.foldl Sha256Ctx.update {}).finish = sha256Octets pieces.flatten :=
  finish_eq (absorbed_pieces pieces).1 (absorbed_pieces pieces).2

theorem sha256_eq (data : Bytes) : sha256 data = sha256Octets data := by
  have whole := finish_pieces [data]
  rwa [List.flatten_singleton] at whole

-- HMAC and HKDF

theorem map_zeroPad (mask : UInt8) (key : Bytes)
    : (zeroPad 64 (if key.length > 64 then sha256 key else key)).map (· ^^^ mask)
      = maskedKey sha256Octets 64 mask key := by
  have block : zeroPad 64 (if key.length > 64 then sha256 key else key)
      = blockKey sha256Octets 64 key := by
    rw [sha256_eq]
    rfl
  have fits (message : Bytes) : (sha256Octets message).length ≤ 64 := by
    rw [length_sha256Octets]
    decide
  rw [block, maskedKey_eq_map fits]

theorem hmacSha256_eq (key msg : Bytes) : hmacSha256 key msg = hmac sha256Octets 64 key msg := by
  have inner := finish_pieces [maskedKey sha256Octets 64 0x36 key, msg]
  have outer := finish_pieces [maskedKey sha256Octets 64 0x5C key,
    sha256Octets (maskedKey sha256Octets 64 0x36 key ++ msg)]
  simp only [List.foldl_cons, List.foldl_nil, List.flatten_cons, List.flatten_nil,
    List.append_nil] at inner outer
  rw [hmacSha256, map_zeroPad, map_zeroPad, inner, outer, hmac]

/-- Every output of at least 32 bytes begins with what `hkdf_sha256` returns. -/
theorem hkdfSha256_eq (ikm salt info : Bytes) {length : Nat} (enough : 32 ≤ length)
    : hkdfSha256 ikm salt info
      = (hkdf sha256Octets 64 32 (some salt) ikm info length).take 32 := by
  have extracted : hmacSha256 (if salt.isEmpty then List.replicate 32 0 else salt) ikm
      = hkdfExtract sha256Octets 64 32 (some salt) ikm := by
    rw [hmacSha256_eq]
    split
    · rename_i empty
      rw [List.isEmpty_iff.mp empty, hkdfExtract_nil (by decide)]
      rfl
    · rfl
  rw [hkdfSha256, extracted, hmacSha256_eq, hkdf,
    take_hkdfExpand length_sha256Octets (by decide) enough]

/-- The digest of data that comes in any pieces, the authentication code of any key and message, and the
first 32 bytes derived from any key, salt and context are those of the standards; without a salt
an empty one is passed.
-/
theorem hash_standards
    : (∀ pieces : List Bytes,
        (pieces.foldl Sha256Ctx.update {}).finish = sha256Octets pieces.flatten)
      ∧ (∀ key msg, hmacSha256 key msg = hmac sha256Octets 64 key msg)
      ∧ ∀ ikm salt info length, 32 ≤ length
        → hkdfSha256 ikm salt info = (hkdf sha256Octets 64 32 (some salt) ikm info length).take 32
          ∧ hkdfSha256 ikm [] info = (hkdf sha256Octets 64 32 none ikm info length).take 32 := by
  refine ⟨finish_pieces, hmacSha256_eq, fun ikm salt info length enough =>
    ⟨hkdfSha256_eq ikm salt info enough, ?_⟩⟩
  rw [hkdfSha256_eq ikm [] info enough, hkdf, hkdf, hkdfExtract_nil (by decide)]

end Creek.Tight.Crypto
