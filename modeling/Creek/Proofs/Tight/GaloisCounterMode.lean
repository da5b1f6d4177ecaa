import Creek.Proofs.Tight.GaloisHash

/-! Sealing and opening are AES-256 in Galois/Counter Mode: the counter, the key stream, the hash of the
padded strings and the tag are those of the standard, for every key, nonce, associated data and text.
-/

namespace Creek.Tight.Crypto

open Library Library.BinaryPolynomials Library.GaloisCounter

-- The counter

/-- A byte wraps where it was the largest, and counts on elsewhere. -/
theorem byte_add_one (b : UInt8)
    : b + 1 = 0 ∧ b.toNat = 255 ∨ b + 1 ≠ 0 ∧ (b + 1).toNat = b.toNat + 1 ∧ b.toNat < 255 := by
  have bytes : ∀ b : UInt8, b + 1 = 0 ∧ b.toNat = 255 ∨ b + 1 ≠ 0 ∧ (b + 1).toNat = b.toNat + 1 ∧ b.toNat < 255 :=
    forall_byte (by decide +kernel)
  exact bytes b

/-- Four bytes that are those of a number, most significant first. -/
theorem bigEndian_four (a b c d : UInt8) {value : Nat}
    (same : value = 256 * (256 * (256 * a.toNat + b.toNat) + c.toNat) + d.toNat)
    : bigEndian 4 value = [a, b, c, d] := by
  have byte (n : Nat) (x : UInt8) (rest : n % 256 = x.toNat) : UInt8.ofNat n = x :=
    UInt8.toNat_inj.mp (UInt8.toNat_ofNat'.trans rest)
  have ha := a.toNat_lt
  have hb := b.toNat_lt
  have hc := c.toNat_lt
  have hd := d.toNat_lt
  show [UInt8.ofNat (value / 256 ^ 3), UInt8.ofNat (value / 256 ^ 2), UInt8.ofNat (value / 256 ^ 1),
    UInt8.ofNat (value / 256 ^ 0)] = _
  rw [byte (value / 256 ^ 3) a (by omega), byte (value / 256 ^ 2) b (by omega),
    byte (value / 256 ^ 1) c (by omega), byte (value / 256 ^ 0) d (by omega)]

/-- The last four bytes are a big-endian number: the carry goes on as long as bytes wrap. -/
theorem incCounter_bytes {front : Bytes} (size : front.length = 12) (a b c d : UInt8)
    : incCounter 4 15 (front ++ [a, b, c, d]) = front ++ bigEndian 4 ((number [a, b, c, d] + 1) % 2 ^ 32) := by
  have value : number [a, b, c, d] = 256 * (256 * (256 * a.toNat + b.toNat) + c.toNat) + d.toNat := by
    simp only [number, List.foldl_cons, List.foldl_nil, Nat.mul_zero, Nat.zero_add]
  have ha := a.toNat_lt
  have hb := b.toNat_lt
  have hc := c.toNat_lt
  have hd := d.toNat_lt
  rw [value]
  match front, size with
  | [_, _, _, _, _, _, _, _, _, _, _, _], _ =>
      rcases byte_add_one d with ⟨d0, dTop⟩ | ⟨d0, dNext⟩
      · have zero : (0 : UInt8).toNat = 0 := rfl
        rcases byte_add_one c with ⟨c0, cTop⟩ | ⟨c0, cNext⟩
        · rcases byte_add_one b with ⟨b0, bTop⟩ | ⟨b0, bNext⟩
          · rcases byte_add_one a with ⟨a0, aTop⟩ | ⟨a0, aNext⟩
            · rw [bigEndian_four 0 0 0 0 (by omega)]
              simp [incCounter, a0, b0, c0, d0]
            · rw [bigEndian_four (a + 1) 0 0 0 (by omega)]
              simp [incCounter, b0, c0, d0]
          · rw [bigEndian_four a (b + 1) 0 0 (by omega)]
            simp [incCounter, b0, c0, d0]
        · rw [bigEndian_four a b (c + 1) 0 (by omega)]
          simp [incCounter, c0, d0]
      · rw [bigEndian_four a b c (d + 1) (by omega)]
        simp [incCounter, d0]

theorem incCounter_eq {ctr : Bytes} (whole : ctr.length = 16) : incCounter 4 15 ctr = inc32 ctr := by
  have size : (ctr.take 12).length = 12 := by
    rw [List.length_take, whole]
    rfl
  have rest : (ctr.drop 12).length = 4 := by
    rw [List.length_drop, whole]
  obtain ⟨a, b, c, d, four⟩ : ∃ a b c d, ctr.drop 12 = [a, b, c, d] := by
    match ctr.drop 12, rest with
    | [a, b, c, d], _ => exact ⟨a, b, c, d, rfl⟩
  have parts : ctr = ctr.take 12 ++ [a, b, c, d] := by
    rw [← four, List.take_append_drop]
  rw [inc32, four, ← incCounter_bytes size, ← parts]

theorem gcmJ0_eq {nonce : Bytes} (size : nonce.length = 12) : gcmJ0 nonce = preCounter nonce := by
  rw [gcmJ0, preCounter, List.take_of_length_le (Nat.le_of_eq size)]

theorem gcmCryptLoop_eq (words : List UInt32) {fuel : Nat} {ctr input : Bytes} (whole : ctr.length = 16)
    (enough : input.length ≤ fuel)
    : gcmCryptLoop words fuel ctr input = gctr (encryptBlock words) (inc32 ctr) input := by
  induction fuel generalizing ctr input with
  | zero =>
      rw [List.length_eq_zero_iff.mp (Nat.le_zero.mp enough), gctr, blocks_nil]
      rfl
  | succ fuel ih =>
      by_cases empty : input = []
      · rw [empty, gctr, blocks_nil]
        rfl
      · have positive := List.length_pos_iff.mpr empty
        rw [gcmCryptLoop, if_neg (by rwa [List.isEmpty_iff]), gctr, blocks_of_ne_nil empty, gctrBlocks]
        dsimp only
        rw [incCounter_eq whole, ih (length_inc32 whole) (by rw [List.length_drop]; omega), gctr]
        rfl

-- The hash

/-- The hash goes on with the blocks of the padded data, by induction on its passes. -/
theorem ghashUpdateLoop_eq {h : Bytes} (whole : h.length = 16) {fuel : Nat} {x data : Bytes}
    (enough : data.length ≤ fuel)
    : ghashUpdateLoop fuel x h data =
      (blocks (padded data)).foldl (fun y block => GaloisCounter.mul (xor y block) h) x := by
  induction fuel generalizing x data with
  | zero =>
      rw [List.length_eq_zero_iff.mp (Nat.le_zero.mp enough), padded_nil, blocks_nil]
      rfl
  | succ fuel ih =>
      by_cases empty : data = []
      · rw [empty, padded_nil, blocks_nil]
        rfl
      · have positive := List.length_pos_iff.mpr empty
        have block : data.take 16 ++ List.replicate (16 - (data.take 16).length) 0 = padded (data.take 16) := by
          have one : (min 16 data.length + 15) / 16 = 1 := by omega
          rw [padded, zeros, List.length_take, one]
        rw [ghashUpdateLoop, if_neg (by rwa [List.isEmpty_iff]), padded_of_ne_nil empty,
          blocks_cons (length_padded_take empty), List.foldl_cons]
        dsimp only
        rw [ih (by rw [List.length_drop]; omega), block, ghashMul_eq _ whole]
        rfl

/-- The lengths are written in full words, and what exceeds a word is dropped. -/
theorem lengthBlock_eq (aadLen ctLen : Nat)
    : lengthBlock aadLen ctLen = bigEndian 8 (8 * aadLen) ++ bigEndian 8 (8 * ctLen) := by
  have half (n : Nat) : (List.range 8).map (fun i => UInt8.ofNat (u64 (n * 8) >>> (56 - i * 8))) =
      bigEndian 8 (8 * n) := by
    refine List.map_congr_left fun i member => UInt8.toNat_inj.mp ?_
    have inside := List.mem_range.mp member
    rw [UInt8.toNat_ofNat', UInt8.toNat_ofNat', u64, Nat.shiftRight_eq_div_pow]
    interval_cases i <;> omega
  rw [lengthBlock, half, half]

theorem length_lengthBlock (aadLen ctLen : Nat) : (lengthBlock aadLen ctLen).length = 16 := by
  rw [lengthBlock_eq, List.length_append, length_bigEndian, length_bigEndian]

theorem map_xor_range {x y : Bytes} (left : x.length = 16) (right : y.length = 16)
    : (List.range 16).map (fun i => x.getD i 0 ^^^ y.getD i 0) = xorBytes x y := by
  refine List.ext_getElem ?_ fun i inside _ => ?_
  · rw [List.length_map, List.length_range, length_xorBytes, left, right]
    rfl
  · rw [List.length_map, List.length_range] at inside
    rw [List.getElem_map, List.getElem_range, List.getD_eq_getElem _ _ (left ▸ inside),
      List.getD_eq_getElem _ _ (right ▸ inside)]
    exact List.getElem_zipWith.symm

/-- The three parts are hashed in turn, and the last of them is one block. -/
theorem ghashUpdate_eq {h : Bytes} (whole : h.length = 16) (aad ct : Bytes)
    : ghashUpdate (ghashUpdate (ghashUpdate (List.replicate 16 0) h aad) h ct) h
        (lengthBlock aad.length ct.length) =
      ghash h (padded aad ++ padded ct ++ bigEndian 8 (8 * aad.length) ++ bigEndian 8 (8 * ct.length)) := by
  rw [List.append_assoc, ← lengthBlock_eq, List.append_assoc, ghash, blocks_padded_append,
    blocks_padded_append, List.foldl_append, List.foldl_append, ghashUpdate, ghashUpdate, ghashUpdate,
    ghashUpdateLoop_eq whole (Nat.le_refl _), ghashUpdateLoop_eq whole (Nat.le_refl _),
    ghashUpdateLoop_eq whole (Nat.le_refl _), padded_block (length_lengthBlock _ _)]
  rfl

theorem length_ghashUpdate (x : Bytes) {h : Bytes} (whole : h.length = 16) (aadLen ctLen : Nat)
    : (ghashUpdate x h (lengthBlock aadLen ctLen)).length = 16 := by
  have size := length_lengthBlock aadLen ctLen
  rw [ghashUpdate, ghashUpdateLoop_eq whole (Nat.le_refl _), padded_block size, blocks_block size]
  exact length_ofStringBits _

/-- The tag is the standard's: the hash under the key of the zero block, sealed with the first counter. -/
theorem gcmComputeTag_eq (words : List UInt32) {nonce : Bytes} (size : nonce.length = 12) (aad ct : Bytes)
    : gcmComputeTag words (gcmJ0 nonce) aad ct = GaloisCounter.tag (encryptBlock words) nonce aad ct := by
  have whole := length_encryptBlock words (List.replicate 16 0)
  have hashed := length_ghashUpdate (ghashUpdate (ghashUpdate (List.replicate 16 0)
    (encryptBlock words (List.replicate 16 0)) aad) (encryptBlock words (List.replicate 16 0)) ct)
    whole aad.length ct.length
  simp only [gcmComputeTag, gcmJ0_eq size]
  rw [map_xor_range hashed (length_encryptBlock _ _), GaloisCounter.tag, gctr, zeros]
  rw [ghashUpdate_eq whole] at hashed ⊢
  rw [blocks_block hashed]
  exact (List.append_nil _).symm

-- Sealing and opening

/-- The accumulated difference is zero where every one is, by induction on the positions. -/
theorem foldl_or_eq_zero (f : Nat → UInt8) (positions : List Nat) (start : UInt8)
    : positions.foldl (fun diff i => diff ||| f i) start = 0 ↔ start = 0 ∧ ∀ i ∈ positions, f i = 0 := by
  induction positions generalizing start with
  | nil => simp
  | cons position rest ih =>
      rw [List.foldl_cons, ih, UInt8.or_eq_zero_iff, List.forall_mem_cons, and_assoc]

theorem tagDifference_eq_zero {expect tag : Bytes} (left : expect.length = 16) (right : tag.length = 16)
    : tagDifference expect tag = 0 ↔ tag = expect := by
  rw [tagDifference, foldl_or_eq_zero]
  constructor
  · intro ⟨_, same⟩
    refine List.ext_getElem (right.trans left.symm) fun i inside inside' => ?_
    have byte := same i (List.mem_range.mpr (right ▸ inside))
    rw [List.getD_eq_getElem _ _ inside, List.getD_eq_getElem _ _ inside', UInt8.xor_eq_zero_iff] at byte
    exact byte.symm
  · intro same
    exact ⟨rfl, fun i _ => by rw [same, UInt8.xor_self]⟩

theorem encryptBlock_expandKey (key : Bytes) : encryptBlock (expandKey key) = Rijndael.aes256 key :=
  funext (encryptBlock_eq key)

/-- Counter mode from the first counter is the standard's from the one after. -/
theorem aes256GcmCrypt_eq (key : Bytes) {nonce : Bytes} (size : nonce.length = 12) (input : Bytes)
    : aes256GcmCrypt (expandKey key) (gcmJ0 nonce) input =
      gctr (Rijndael.aes256 key) (inc32 (preCounter nonce)) input := by
  have whole : (preCounter nonce).length = 16 := by
    rw [preCounter, List.length_append, size]
    rfl
  rw [aes256GcmCrypt, gcmJ0_eq size, gcmCryptLoop_eq _ whole (Nat.le_refl _), encryptBlock_expandKey]

/-- Sealing under any key is the standard's authenticated encryption. -/
theorem aes256GcmEncrypt_eq (key : Bytes) {nonce : Bytes} (size : nonce.length = 12) (aad plaintext : Bytes)
    : aes256GcmEncrypt key nonce aad plaintext =
      GaloisCounter.encrypt (Rijndael.aes256 key) nonce plaintext aad := by
  rw [aes256GcmEncrypt, GaloisCounter.encrypt, gcmComputeTag_eq _ size, aes256GcmCrypt_eq key size,
    encryptBlock_expandKey]

theorem aes256GcmDecrypt_eq (key : Bytes) {nonce tag : Bytes} (size : nonce.length = 12) (aad ciphertext : Bytes)
    (whole : tag.length = 16)
    : aes256GcmDecrypt key nonce aad ciphertext tag =
      GaloisCounter.decrypt (Rijndael.aes256 key) nonce ciphertext aad tag := by
  have same := tagDifference_eq_zero (length_gcmComputeTag (expandKey key) (gcmJ0 nonce) aad ciphertext) whole
  rw [aes256GcmDecrypt, GaloisCounter.decrypt]
  simp only [ne_eq, same, ite_not]
  rw [gcmComputeTag_eq _ size, aes256GcmCrypt_eq key size, encryptBlock_expandKey]

/-- Sealing is the standard's, and what was sealed is opened with its tag only: any other leaves the buffer
for the plaintext as it was.
-/
theorem gcm_of_standard (key nonce aad plaintext : Bytes) (size : nonce.length = 12)
    : aes256GcmEncrypt key nonce aad plaintext =
        GaloisCounter.encrypt (Rijndael.aes256 key) nonce plaintext aad ∧
      ∀ tag : Bytes, tag.length = 16 → ∀ buffer : Bytes,
        aes256GcmDecryptInto key nonce aad (aes256GcmEncrypt key nonce aad plaintext).1 tag buffer =
          if tag = (aes256GcmEncrypt key nonce aad plaintext).2 then
            (true, plaintext ++ buffer.drop plaintext.length)
          else (false, buffer) := by
  refine ⟨aes256GcmEncrypt_eq key size aad plaintext, fun tag whole buffer => ?_⟩
  by_cases own : tag = (aes256GcmEncrypt key nonce aad plaintext).2
  · rw [if_pos own, own, aes256GcmDecryptInto, aes256GcmDecrypt_aes256GcmEncrypt]
  · have refused : aes256GcmDecrypt key nonce aad (aes256GcmEncrypt key nonce aad plaintext).1 tag = none := by
      rw [aes256GcmDecrypt_eq key size aad _ whole, GaloisCounter.decrypt, if_neg]
      rw [aes256GcmEncrypt_eq key size aad plaintext] at own ⊢
      exact own
    rw [if_neg own, aes256GcmDecryptInto, refused]

/-- A text of three bytes under the zero key, and a tag that may or may not be its own. -/
theorem gcm_of_standard_short
    : aes256GcmEncrypt (List.replicate 32 0) (List.replicate 12 7) [1, 2] [3, 4, 5] =
        GaloisCounter.encrypt (Rijndael.aes256 (List.replicate 32 0)) (List.replicate 12 7) [3, 4, 5] [1, 2] ∧
      (List.replicate 16 9 : Bytes).length = 16 ∧
      aes256GcmDecryptInto (List.replicate 32 0) (List.replicate 12 7) [1, 2]
          (aes256GcmEncrypt (List.replicate 32 0) (List.replicate 12 7) [1, 2] [3, 4, 5]).1
          (List.replicate 16 9) [0, 0, 0, 0] =
        if List.replicate 16 9 =
            (aes256GcmEncrypt (List.replicate 32 0) (List.replicate 12 7) [1, 2] [3, 4, 5]).2 then
          (true, [3, 4, 5, 0])
        else (false, [0, 0, 0, 0]) :=
  have both := gcm_of_standard (List.replicate 32 0) (List.replicate 12 7) [1, 2] [3, 4, 5] rfl
  ⟨both.1, rfl, both.2 (List.replicate 16 9) rfl [0, 0, 0, 0]⟩

end Creek.Tight.Crypto
