import Creek.Tight.Crypto.AesGcm

/-! Opening a sealed message restores its plaintext: the key stream cancels and the recomputed
tag agrees.
-/

namespace Creek.Tight.Crypto

-- Byte-wise exclusive or

theorem length_xorBytes (left right : Bytes)
    : (xorBytes left right).length = min left.length right.length :=
  List.length_zipWith

/-- Applying the same pad twice restores a string no longer than the pad. -/
theorem xorBytes_xorBytes {input pad : Bytes} (bound : input.length ≤ pad.length)
    : xorBytes (xorBytes input pad) pad = input := by
  induction input generalizing pad with
  | nil => rfl
  | cons head rest ih =>
      cases pad with
      | nil => simp at bound
      | cons byte more =>
          have shorter : rest.length ≤ more.length := by simpa using bound
          have tail := ih shorter
          simp only [xorBytes, List.zipWith_cons_cons, List.cons.injEq] at tail ⊢
          exact ⟨by rw [UInt8.xor_assoc, UInt8.xor_self, UInt8.xor_zero], tail⟩

theorem xorBytes_take (input pad : Bytes) (k : Nat)
    : xorBytes (input.take k) pad = (xorBytes input pad).take k := by
  induction input generalizing pad k with
  | nil => simp [xorBytes]
  | cons head rest ih =>
      cases k with
      | zero => simp [xorBytes]
      | succ k =>
          cases pad with
          | nil => simp [xorBytes]
          | cons byte more => exact congrArg (List.cons _) (ih more k)

-- Counter mode

theorem length_encryptBlock (words : List UInt32) (input : Bytes)
    : (encryptBlock words input).length = 16 := by
  have shifted (s : Bytes) : (subShift s).length = 16 := by
    simp [subShift, shiftRowsSource]
  have key : (roundKey words 14).length = 16 := by
    simp [roundKey]
  rw [encryptBlock, length_xorBytes, shifted, key, Nat.min_self]

/-- One pass of the counter-mode loop pads one block of input. -/
theorem length_block (words : List UInt32) (ctr input : Bytes)
    : (xorBytes (input.take 16) (encryptBlock words ctr)).length = min 16 input.length := by
  rw [length_xorBytes, length_encryptBlock, List.length_take]
  omega

theorem length_gcmCryptLoop (words : List UInt32) {fuel : Nat} {ctr input : Bytes}
    (enough : input.length ≤ fuel)
    : (gcmCryptLoop words fuel ctr input).length = input.length := by
  induction fuel generalizing ctr input with
  | zero =>
      simp [gcmCryptLoop, List.length_eq_zero_iff.mp (Nat.le_zero.mp enough)]
  | succ fuel ih =>
      rw [gcmCryptLoop]
      split
      · rename_i empty
        rw [List.isEmpty_iff.mp empty]
      · rename_i nonempty
        have positive : 0 < input.length := by
          simpa [List.length_pos_iff] using nonempty
        rw [List.length_append, length_block, ih (by rw [List.length_drop]; omega),
          List.length_drop]
        omega

/-- Running the counter-mode loop twice from one counter restores the input.
Witness: induction on the passes; both runs pad a block with the same key stream block.
-/
theorem gcmCryptLoop_gcmCryptLoop (words : List UInt32) {fuel : Nat} {ctr input : Bytes}
    (enough : input.length ≤ fuel)
    : gcmCryptLoop words fuel ctr (gcmCryptLoop words fuel ctr input) = input := by
  induction fuel generalizing ctr input with
  | zero =>
      rw [List.length_eq_zero_iff.mp (Nat.le_zero.mp enough)]
      rfl
  | succ fuel ih =>
      by_cases empty : input = []
      · simp [empty, gcmCryptLoop]
      have positive : 0 < input.length := List.length_pos_iff.mpr empty
      let next := incCounter 4 15 ctr
      let block := xorBytes (input.take 16) (encryptBlock words next)
      let tail := gcmCryptLoop words fuel next (input.drop 16)
      have first : gcmCryptLoop words (fuel + 1) ctr input = block ++ tail := by
        simp only [gcmCryptLoop, List.isEmpty_iff, empty, if_false, block, tail, next]
      have blockLength : block.length = min 16 input.length := length_block _ _ _
      have tailLength : tail.length = input.length - 16 := by
        simp only [tail]
        rw [length_gcmCryptLoop _ (by rw [List.length_drop]; omega), List.length_drop]
      have nonempty : block ++ tail ≠ [] := by
        intro none
        have zero := congrArg List.length none
        rw [List.length_append, blockLength, List.length_nil] at zero
        omega
      have parts : (block ++ tail).take 16 = block ∧ (block ++ tail).drop 16 = tail := by
        by_cases long : 16 ≤ input.length
        · have full : block.length = 16 := by omega
          exact ⟨List.take_left' full, List.drop_left' full⟩
        · have none : tail = [] := List.length_eq_zero_iff.mp (by omega)
          rw [none, List.append_nil]
          exact ⟨List.take_of_length_le (by omega), List.drop_of_length_le (by omega)⟩
      have restored : xorBytes block (encryptBlock words next) = input.take 16 := by
        apply xorBytes_xorBytes
        rw [length_encryptBlock, List.length_take]
        omega
      have remainder : gcmCryptLoop words fuel next tail = input.drop 16 :=
        ih (by rw [List.length_drop]; omega)
      rw [first, gcmCryptLoop]
      simp only [List.isEmpty_iff, nonempty, if_false, parts.1, parts.2]
      calc
        xorBytes block (encryptBlock words next) ++ gcmCryptLoop words fuel next tail
          = input.take 16 ++ input.drop 16 := by rw [restored, remainder]
        _ = input := List.take_append_drop 16 input

@[simp] theorem length_aes256GcmCrypt (words : List UInt32) (j0 input : Bytes)
    : (aes256GcmCrypt words j0 input).length = input.length :=
  length_gcmCryptLoop words (Nat.le_refl _)

theorem aes256GcmCrypt_aes256GcmCrypt (words : List UInt32) (j0 input : Bytes)
    : aes256GcmCrypt words j0 (aes256GcmCrypt words j0 input) = input := by
  rw [aes256GcmCrypt, length_aes256GcmCrypt]
  exact gcmCryptLoop_gcmCryptLoop words (Nat.le_refl _)

/-- The counter-mode loop maps a prefix to a prefix.
Witness: induction on the passes; a pass over a prefix takes the prefix of its block.
-/
theorem gcmCryptLoop_take (words : List UInt32) {fuel less k : Nat} {ctr input : Bytes}
    (enough : input.length ≤ fuel) (enoughLess : (input.take k).length ≤ less)
    : gcmCryptLoop words less ctr (input.take k) = (gcmCryptLoop words fuel ctr input).take k := by
  have nothing (fuel : Nat) (ctr : Bytes) : gcmCryptLoop words fuel ctr [] = [] := by
    cases fuel <;> rfl
  induction fuel generalizing less ctr input k with
  | zero =>
      rw [List.length_eq_zero_iff.mp (Nat.le_zero.mp enough), List.take_nil, nothing, nothing,
        List.take_nil]
  | succ fuel ih =>
      by_cases cut : input.take k = []
      · rcases List.take_eq_nil_iff.mp cut with rfl | rfl
        · rw [cut, nothing, List.take_zero]
        · rw [cut, nothing, nothing, List.take_nil]
      have some_ : input ≠ [] := fun empty => cut (by rw [empty, List.take_nil])
      obtain ⟨less, rfl⟩ : ∃ n, less = n + 1 :=
        Nat.exists_eq_add_one.mpr (Nat.lt_of_lt_of_le (List.length_pos_iff.mpr cut) enoughLess)
      have front : (input.take k).take 16 = (input.take 16).take k := by
        rw [List.take_take, List.take_take, Nat.min_comm]
      have back : (input.take k).drop 16 = (input.drop 16).take (k - 16) := by
        rw [List.drop_take]
      rw [List.length_take] at enoughLess
      simp only [gcmCryptLoop, List.isEmpty_iff, cut, some_, if_false, front, back]
      rw [xorBytes_take (input.take 16) _ k, List.take_append, length_block,
        ih (by rw [List.length_drop]; omega)
        (by rw [List.length_take, List.length_drop]; omega)]
      by_cases long : 16 ≤ input.length
      · rw [Nat.min_eq_left long]
      · rw [List.drop_of_length_le (by omega), nothing, List.take_nil, List.take_nil]

theorem aes256GcmCrypt_take (words : List UInt32) (j0 input : Bytes) (k : Nat)
    : aes256GcmCrypt words j0 (input.take k) = (aes256GcmCrypt words j0 input).take k :=
  gcmCryptLoop_take words (Nat.le_refl _) (Nat.le_refl _)

-- Authentication

@[simp] theorem length_gcmComputeTag (words : List UInt32) (j0 aad ct : Bytes)
    : (gcmComputeTag words j0 aad ct).length = 16 := by
  simp [gcmComputeTag]

theorem tagDifference_self (tag : Bytes) : tagDifference tag tag = 0 := by
  have zero (indices : List Nat)
      : indices.foldl (fun diff i => diff ||| (tag.getD i 0 ^^^ tag.getD i 0)) (0 : UInt8)
        = 0 := by
    induction indices with
    | nil => rfl
    | cons i rest ih =>
        rw [List.foldl_cons, UInt8.xor_self, UInt8.or_zero]
        exact ih
  exact zero _

/-- Decryption accepts and inverts encryption under the same key, nonce and data. -/
theorem aes256GcmDecrypt_aes256GcmEncrypt (key nonce aad plaintext : Bytes)
    : aes256GcmDecrypt key nonce aad (aes256GcmEncrypt key nonce aad plaintext).1
        (aes256GcmEncrypt key nonce aad plaintext).2
      = some plaintext := by
  simp only [aes256GcmEncrypt, aes256GcmDecrypt, tagDifference_self, ne_eq, not_true_eq_false,
    if_false, aes256GcmCrypt_aes256GcmCrypt]

end Creek.Tight.Crypto
