import Creek.Library.GaloisCounter
import Creek.Proofs.Tight.AesCipher

/-! The bit-serial multiplication of blocks is that of GF(2^128), so the running authentication hash is the
standard's over whole blocks, and the last one is padded with zeros.
-/

namespace Creek.Tight.Crypto

open Polynomial Library Library.BinaryPolynomials Library.GaloisCounter

-- The field

/-- The bits that the source folds into a block when one leaves it. -/
def ghashFold (i : Nat) : Bool := stringBit [0xE1] i

theorem ghashFold_high {k : Nat} (above : 8 ≤ k) : ghashFold k = false := by
  have outside : 1 ≤ k / 8 := by omega
  rw [ghashFold, stringBit, List.getD_eq_default _ _ outside]
  exact Nat.zero_testBit _

theorem galois_modulus : GaloisCounter.modulus = folding 128 ghashFold := by
  have few : ofBits 128 ghashFold = ofBits 8 ghashFold := by
    ext k
    rw [coeff_ofBits, coeff_ofBits]
    by_cases below : k < 8
    · simp only [below, Nat.lt_trans below (by decide : 8 < 128)]
    · simp only [ghashFold_high (Nat.not_lt.mp below), Bool.false_eq_true, and_false]
  have low : ofBits 8 ghashFold = X ^ 7 + X ^ 2 + X + 1 := by
    rw [ofBits]
    simp [Finset.sum_range_succ, ghashFold, stringBit, byteBit, Nat.testBit]
    ring
  unfold GaloisCounter.modulus
  rw [folding, few, low]
  simp only [add_assoc]

/-- The element of GF(2^128) that a block stands for. -/
noncomputable def blockElement (block : Bytes) : AdjoinRoot (folding 128 ghashFold) :=
  element (folding 128 ghashFold) 128 (stringBit block)

theorem blockElement_injective {a b : Bytes} (left : a.length = 16) (right : b.length = 16)
    (same : blockElement a = blockElement b)
    : a = b :=
  block_ext left right fun _ inside => bit_ext same inside

theorem blockElement_xor {a b : Bytes} (same : a.length = b.length)
    : blockElement (xorBytes a b) = blockElement a + blockElement b := by
  simp only [blockElement, ← element_xor]
  exact element_congr fun i _ => stringBit_xor same i

theorem blockElement_zero : blockElement (List.replicate 16 0) = 0 := by
  have none : ∀ i < 128, stringBit (List.replicate 16 0) i = false := by
    intro i inside
    have byte : i / 8 < 16 := by omega
    rw [stringBit, List.getD_eq_getElem?_getD, List.getElem?_replicate, if_pos byte, Option.getD_some]
    exact Nat.zero_testBit _
  rw [blockElement, element_congr none, element_eq_sum]
  simp only [Bool.false_eq_true, if_false, Finset.sum_const_zero]

theorem blockElement_mul (a b : Bytes)
    : blockElement (GaloisCounter.mul a b) = blockElement a * blockElement b := by
  simp only [blockElement, ← element_mulMod, GaloisCounter.mul, galois_modulus]
  exact element_congr fun i inside => stringBit_ofStringBits _ inside

-- One step of the multiplication

/-- A byte that is shifted right takes the last bit of the one before. -/
theorem byteBit_shiftRight (a b : UInt8) {i : Nat} (inside : i < 8)
    : byteBit ((a >>> 1) ||| (b <<< 7)) i = if i = 7 then byteBit b 0 else byteBit a (i + 1) := by
  have left : ((a >>> 1) ||| (b <<< 7)).toNat.testBit i =
      (a.toNat.testBit (i + 1) || decide (7 ≤ i) && b.toNat.testBit (i - 7)) := by
    rw [UInt8.toNat_or, UInt8.toNat_shiftRight, UInt8.toNat_shiftLeft, Nat.testBit_or,
      Nat.testBit_mod_two_pow, Nat.testBit_shiftLeft, Nat.testBit_shiftRight, Nat.add_comm i 1]
    simp [inside]
  rw [byteBit, left]
  by_cases last : i = 7
  · have none : a.toNat.testBit 8 = false := Nat.testBit_lt_two_pow a.toNat_lt
    rw [if_pos last, last, none]
    rfl
  · have below : ¬ 7 ≤ i := by omega
    rw [if_neg last, decide_eq_false below, Bool.false_and, Bool.or_false]
    rfl

theorem length_ghashShift (v : Bytes) : (ghashShift v).length = 16 := by
  rw [ghashShift, List.length_map, List.length_range]

theorem ghashShift_byte (v : Bytes) {j : Nat} (inside : j < 16)
    : (ghashShift v).getD j 0 = (v.getD j 0 >>> 1) ||| ((if j = 0 then 0 else v.getD (j - 1) 0) <<< 7) := by
  rw [ghashShift, List.getD_eq_getElem?_getD, List.getElem?_map, List.getElem?_range inside,
    Option.map_some, Option.getD_some]
  by_cases first : j = 0
  · rw [if_pos first, if_pos first, first]
    exact (UInt8.or_zero).symm
  · rw [if_neg first, if_neg first]

theorem ghashShift_zero (v : Bytes) : stringBit (ghashShift v) 0 = false := by
  rw [stringBit, ghashShift_byte v (by decide), byteBit_shiftRight _ _ (by decide)]
  exact Nat.zero_testBit _

theorem ghashShift_succ (v : Bytes) {i : Nat} (inside : i < 127)
    : stringBit (ghashShift v) (i + 1) = stringBit v i := by
  rw [stringBit, ghashShift_byte v (by omega), byteBit_shiftRight _ _ (by omega), stringBit]
  by_cases first : (i + 1) % 8 = 0
  · have later : (i + 1) / 8 ≠ 0 := by omega
    have before : (i + 1) / 8 - 1 = i / 8 := by omega
    have last : 7 - i % 8 = 0 := by omega
    rw [if_pos (by omega), if_neg later, before, last]
  · have same : (i + 1) / 8 = i / 8 := by omega
    have next : 7 - (i + 1) % 8 + 1 = 7 - i % 8 := by omega
    rw [if_neg (by omega), same, next]

/-- What is folded into a block is folded into its first byte. -/
theorem stringBit_fold {v : Bytes} (whole : v.length = 16) {i : Nat} (inside : i < 128)
    : stringBit (v.modify 0 (· ^^^ 0xE1)) i = (stringBit v i ^^ ghashFold i) := by
  by_cases first : i / 8 = 0
  · rw [ghashFold, stringBit, stringBit, stringBit, first, ← byteBit_xor]
    obtain ⟨head, rest, rfl⟩ := List.exists_cons_of_length_eq_add_one whole
    rfl
  · have other : (v.modify 0 (· ^^^ 0xE1)).getD (i / 8) 0 = v.getD (i / 8) 0 := by
      rw [List.getD_eq_getElem?_getD, List.getElem?_modify_ne _ _ (Ne.symm first),
        List.getD_eq_getElem?_getD]
    rw [stringBit, other, ghashFold_high (by omega), Bool.xor_false]
    rfl

/-- A step shifts the second operand and folds the bit that leaves. -/
theorem ghashStep_shifts (x z v : Bytes) (i : Nat)
    : (ghashStep x (z, v) i).2.length = 16 ∧
      blockElement (ghashStep x (z, v) i).2 = AdjoinRoot.root _ * blockElement v := by
  have leaving : (v.getD 15 0 &&& 1 ≠ 0) ↔ stringBit v 127 := by
    have bit : ∀ b : UInt8, b &&& 1 ≠ 0 ↔ byteBit b 0 := forall_byte (by decide +kernel)
    exact bit _
  have whole := length_ghashShift v
  simp only [ghashStep]
  by_cases leaves : stringBit v 127
  · rw [if_pos (leaving.mpr leaves)]
    refine ⟨(List.length_modify _ _ _).trans whole, element_shift ?_ fun i inside => ?_⟩
    · rw [stringBit_fold whole (by decide), ghashShift_zero, leaves]
      rfl
    · rw [stringBit_fold whole (by omega), ghashShift_succ v inside, leaves]
      rfl
  · have clear : stringBit v 127 = false := Bool.eq_false_iff.mpr leaves
    rw [if_neg fun set => leaves (leaving.mp set)]
    refine ⟨whole, element_shift ?_ fun i inside => ?_⟩
    · rw [ghashShift_zero, clear]
      rfl
    · rw [ghashShift_succ v inside, clear, Bool.false_and, Bool.xor_false]

theorem ghashStep_adds {x z v : Bytes} {i : Nat} (left : z.length = 16) (right : v.length = 16)
    : (ghashStep x (z, v) i).1.length = 16 ∧
      blockElement (ghashStep x (z, v) i).1 =
        blockElement z + if stringBit x i then blockElement v else 0 := by
  have bit : ((x.getD (i / 8) 0).toNat >>> (7 - i % 8)) % 2 = 1 ↔ stringBit x i := by
    rw [stringBit, byteBit, Nat.testBit_eq_decide_div_mod_eq, Nat.shiftRight_eq_div_pow,
      decide_eq_true_iff]
  simp only [ghashStep, bit]
  by_cases set : stringBit x i
  · rw [if_pos set, if_pos set, length_xorBytes, left, right, blockElement_xor (left.trans right.symm)]
    exact ⟨rfl, rfl⟩
  · rw [if_neg set, if_neg set, add_zero]
    exact ⟨left, rfl⟩

-- Multiplication

/-- The loop after so many bits, by induction on them: the partial sum, and the shifted operand. -/
theorem ghashStep_foldl (x : Bytes) {y : Bytes} (whole : y.length = 16) (n : Nat)
    : let state := (List.range n).foldl (ghashStep x) (List.replicate 16 0, y)
      (state.1.length = 16 ∧ blockElement state.1 =
        (∑ i ∈ Finset.range n, if stringBit x i then AdjoinRoot.root _ ^ i else 0) * blockElement y) ∧
      state.2.length = 16 ∧ blockElement state.2 = AdjoinRoot.root _ ^ n * blockElement y := by
  induction n with
  | zero =>
      refine ⟨⟨rfl, ?_⟩, whole, ?_⟩
      · rw [Finset.sum_range_zero, zero_mul]
        exact blockElement_zero
      · rw [pow_zero, one_mul]
        rfl
  | succ n ih =>
      obtain ⟨⟨sumSize, sum⟩, shiftedSize, shifted⟩ := ih
      rw [List.range_succ, List.foldl_append, List.foldl_cons, List.foldl_nil]
      generalize (List.range n).foldl (ghashStep x) (List.replicate 16 0, y) = state at *
      obtain ⟨z, v⟩ := state
      have adds := ghashStep_adds (x := x) (i := n) sumSize shiftedSize
      have shifts := ghashStep_shifts x z v n
      refine ⟨⟨adds.1, ?_⟩, shifts.1, ?_⟩
      · rw [adds.2, sum, shifted, Finset.sum_range_succ, add_mul]
        congr 1
        split
        · rfl
        · exact (zero_mul _).symm
      · rw [shifts.2, shifted, pow_succ']
        ring

theorem ghashMul_eq (x : Bytes) {y : Bytes} (whole : y.length = 16)
    : ghashMul x y = GaloisCounter.mul x y := by
  obtain ⟨⟨size, sum⟩, -⟩ := ghashStep_foldl x whole 128
  refine blockElement_injective size (length_ofStringBits _) ?_
  have bits : blockElement x = ∑ i ∈ Finset.range 128,
      if stringBit x i then AdjoinRoot.root (folding 128 ghashFold) ^ i else 0 :=
    element_eq_sum _ _
  rw [blockElement_mul, bits]
  exact sum

end Creek.Tight.Crypto
