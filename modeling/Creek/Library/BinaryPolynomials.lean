import Mathlib

/-! Polynomials over the field of two elements, given by their bits, modulo one whose leading power is
folded into lower ones. Bits that stand for one element of the quotient are the same bits, so what an
algorithm on bits computes is settled in the quotient ring.
-/

namespace Creek.Library.BinaryPolynomials

open Polynomial

/-- The polynomial with the given coefficients. -/
noncomputable def ofBits (n : Nat) (bit : Nat → Bool) : (ZMod 2)[X] :=
  ∑ i ∈ Finset.range n, if bit i then X ^ i else 0

/-- A coefficient, as a bit. -/
noncomputable def bitOf (p : (ZMod 2)[X]) (i : Nat) : Bool := decide (p.coeff i = 1)

/-- The bits of a product, reduced. -/
noncomputable def mulMod (modulus : (ZMod 2)[X]) (n : Nat) (a b : Nat → Bool) : Nat → Bool :=
  bitOf ((ofBits n a * ofBits n b) %ₘ modulus)

/-- The polynomial whose leading power is folded into the given lower ones. -/
noncomputable def folding (n : Nat) (low : Nat → Bool) : (ZMod 2)[X] := X ^ n + ofBits n low

/-- The element of the quotient that bits stand for. -/
noncomputable def element (modulus : (ZMod 2)[X]) (n : Nat) (bit : Nat → Bool) : AdjoinRoot modulus :=
  AdjoinRoot.mk modulus (ofBits n bit)

-- Coefficients

theorem coeff_ofBits (n : Nat) (bit : Nat → Bool) (k : Nat)
    : (ofBits n bit).coeff k = if k < n ∧ bit k then 1 else 0 := by
  induction n with
  | zero => simp [ofBits]
  | succ n ih =>
      rw [ofBits, Finset.sum_range_succ, ← ofBits, coeff_add, ih]
      have top : (if bit n then (X : (ZMod 2)[X]) ^ n else 0).coeff k =
          if k = n ∧ bit n then 1 else 0 := by
        by_cases one : bit n
        · rw [if_pos one, coeff_X_pow]
          simp only [one, and_true]
        · rw [if_neg one, coeff_zero, if_neg fun both => one both.2]
      rw [top]
      by_cases last : k = n
      · rw [last, if_neg fun both => Nat.lt_irrefl n both.1, zero_add]
        simp only [true_and, Nat.lt_succ_self]
      · have same : k < n + 1 ↔ k < n := by omega
        simp only [last, false_and, if_false, add_zero, same]

theorem degree_ofBits_lt (n : Nat) (bit : Nat → Bool) : (ofBits n bit).degree < n := by
  rw [degree_lt_iff_coeff_zero]
  intro k above
  rw [coeff_ofBits, if_neg fun both => absurd both.1 (Nat.not_lt.mpr above)]

theorem bitOf_ofBits {n i : Nat} (bit : Nat → Bool) (inside : i < n) : bitOf (ofBits n bit) i = bit i := by
  rw [bitOf, coeff_ofBits]
  cases one : bit i <;> simp [inside]

/-- A polynomial of small degree is that of its bits. -/
theorem ofBits_bitOf {n : Nat} {p : (ZMod 2)[X]} (small : p.degree < n) : ofBits n (bitOf p) = p := by
  ext k
  rw [coeff_ofBits]
  by_cases inside : k < n
  · have two : p.coeff k = 0 ∨ p.coeff k = 1 := by
      generalize p.coeff k = c
      revert c
      decide
    rcases two with zero | one
    · simp [bitOf, zero]
    · simp [bitOf, one, inside]
  · rw [if_neg fun both => inside both.1]
    exact ((degree_lt_iff_coeff_zero p n).mp small k (Nat.not_lt.mp inside)).symm

/-- The sum of polynomials is the exclusive or of their bits. -/
theorem ofBits_xor (n : Nat) (a b : Nat → Bool)
    : ofBits n (fun i => a i ^^ b i) = ofBits n a + ofBits n b := by
  have two : (1 : ZMod 2) + 1 = 0 := by decide
  ext k
  rw [coeff_add, coeff_ofBits, coeff_ofBits, coeff_ofBits]
  by_cases inside : k < n
  · cases a k <;> cases b k <;> simp [inside, two]
  · simp [inside]

/-- Only the bits below the degree count. -/
theorem ofBits_congr {n : Nat} {a b : Nat → Bool} (same : ∀ i, i < n → a i = b i)
    : ofBits n a = ofBits n b := by
  refine Finset.sum_congr rfl fun i member => ?_
  rw [same i (Finset.mem_range.mp member)]

-- The quotient

section

variable {n : Nat} {low : Nat → Bool}

theorem monic_folding (n : Nat) (low : Nat → Bool) : (folding n low).Monic :=
  monic_X_pow_add (degree_ofBits_lt n low)

theorem degree_folding (n : Nat) (low : Nat → Bool) : (folding n low).degree = n := by
  rw [folding, degree_add_eq_left_of_degree_lt, degree_X_pow]
  rw [degree_X_pow]
  exact degree_ofBits_lt n low

/-- Bits that stand for the class of a polynomial are those of its remainder. -/
theorem bit_eq_of_element {bit : Nat → Bool} {p : (ZMod 2)[X]}
    (same : element (folding n low) n bit = AdjoinRoot.mk (folding n low) p) {i : Nat} (inside : i < n)
    : bit i = bitOf (p %ₘ folding n low) i := by
  have small : (ofBits n bit).degree < (folding n low).degree := by
    rw [degree_folding]
    exact degree_ofBits_lt n bit
  have remainder : ofBits n bit = p %ₘ folding n low := by
    rw [← (modByMonic_eq_self_iff (monic_folding n low)).mpr small]
    exact modByMonic_eq_of_dvd_sub (monic_folding n low) (AdjoinRoot.mk_eq_mk.mp same)
  rw [← remainder, bitOf_ofBits bit inside]

/-- Bits that stand for one element are the same. -/
theorem bit_ext {a b : Nat → Bool} (same : element (folding n low) n a = element (folding n low) n b)
    {i : Nat} (inside : i < n)
    : a i = b i := by
  rw [bit_eq_of_element same inside]
  exact (bit_eq_of_element rfl inside).symm

/-- Multiplication of bits is that of the quotient. -/
theorem element_mulMod (a b : Nat → Bool)
    : element (folding n low) n (mulMod (folding n low) n a b) =
      element (folding n low) n a * element (folding n low) n b := by
  have small : ((ofBits n a * ofBits n b) %ₘ folding n low).degree < n := by
    rw [← degree_folding n low]
    exact degree_modByMonic_lt _ (monic_folding n low)
  rw [element, mulMod, ofBits_bitOf small, element, element, ← map_mul, AdjoinRoot.mk_eq_mk]
  exact dvd_modByMonic_sub _ _

theorem element_xor (modulus : (ZMod 2)[X]) (a b : Nat → Bool)
    : element modulus n (fun i => a i ^^ b i) = element modulus n a + element modulus n b := by
  rw [element, ofBits_xor, map_add]
  rfl

theorem element_congr {modulus : (ZMod 2)[X]} {a b : Nat → Bool} (same : ∀ i, i < n → a i = b i)
    : element modulus n a = element modulus n b := by
  rw [element, ofBits_congr same]
  rfl

/-- The element is the sum of the powers whose bits are set. -/
theorem element_eq_sum (modulus : (ZMod 2)[X]) (bit : Nat → Bool)
    : element modulus n bit = ∑ i ∈ Finset.range n, if bit i then AdjoinRoot.root modulus ^ i else 0 := by
  rw [element, ofBits, map_sum]
  refine Finset.sum_congr rfl fun i _ => ?_
  cases bit i
  · exact map_zero _
  · simp only [if_true, map_pow, AdjoinRoot.mk_X]

/-- Nothing is its own negative only here. -/
theorem add_self (modulus : (ZMod 2)[X]) (a : AdjoinRoot modulus) : a + a = 0 := by
  obtain ⟨p, rfl⟩ := AdjoinRoot.mk_surjective a
  rw [← map_add, CharTwo.add_self_eq_zero, map_zero]

/-- The leading power is folded. -/
theorem root_pow (n : Nat) (low : Nat → Bool)
    : AdjoinRoot.root (folding n low) ^ n = element (folding n low) n low := by
  have zero : AdjoinRoot.mk (folding n low) (X ^ n + ofBits n low) = 0 := AdjoinRoot.mk_self
  rw [map_add, map_pow, AdjoinRoot.mk_X] at zero
  rw [← add_zero (AdjoinRoot.root (folding n low) ^ n), ← add_self _ (element (folding n low) n low),
    ← add_assoc]
  rw [element, zero, zero_add]

/-- Multiplication by the root moves every bit up by one, and folds the bit that leaves. -/
theorem element_shift {bit next : Nat → Bool} (first : next 0 = (bit n && low 0))
    (others : ∀ i, i < n → next (i + 1) = (bit i ^^ (bit n && low (i + 1))))
    : element (folding (n + 1) low) (n + 1) next =
      AdjoinRoot.root (folding (n + 1) low) * element (folding (n + 1) low) (n + 1) bit := by
  -- the bits that only move, and those that are folded
  let moved : Nat → Bool := fun i => if i = 0 then false else bit (i - 1)
  have split : element (folding (n + 1) low) (n + 1) next =
      element (folding (n + 1) low) (n + 1) moved +
        if bit n then element (folding (n + 1) low) (n + 1) low else 0 := by
    have parts : ∀ i, i < n + 1 → next i = (moved i ^^ (bit n && low i)) := by
      intro i inside
      cases i with
      | zero => simpa [moved] using first
      | succ i => simpa [moved] using others i (Nat.lt_of_succ_lt_succ inside)
    rw [element_congr parts, element_xor]
    congr 1
    cases bit n
    · rw [element_eq_sum]
      simp
    · simp
  rw [split, element_eq_sum, Finset.sum_range_succ', element_eq_sum _ bit, Finset.mul_sum,
    Finset.sum_range_succ, ← root_pow]
  have bodies : ∑ i ∈ Finset.range n,
      (if moved (i + 1) then AdjoinRoot.root (folding (n + 1) low) ^ (i + 1) else 0) =
        ∑ i ∈ Finset.range n, AdjoinRoot.root (folding (n + 1) low) *
          if bit i then AdjoinRoot.root (folding (n + 1) low) ^ i else 0 := by
    refine Finset.sum_congr rfl fun i _ => ?_
    simp only [moved, Nat.succ_ne_zero, if_false, Nat.add_sub_cancel, mul_ite, mul_zero, pow_succ']
  rw [bodies]
  simp only [moved, if_true, Bool.false_eq_true, if_false, add_zero, mul_ite, mul_zero, ← pow_succ']

end

-- Bytes

/-- A bit of a byte, the least significant first. -/
def byteBit (byte : UInt8) (i : Nat) : Bool := byte.toNat.testBit i

/-- The byte of eight bits. -/
def ofByteBits (bit : Nat → Bool) : UInt8 := UInt8.ofNat (Nat.ofBits fun i : Fin 8 => bit i)

theorem byteBit_ofByteBits {i : Nat} (bit : Nat → Bool) (inside : i < 8)
    : byteBit (ofByteBits bit) i = bit i := by
  rw [byteBit, ofByteBits, UInt8.toNat_ofNat', Nat.mod_eq_of_lt (Nat.ofBits_lt_two_pow _),
    Nat.testBit_ofBits_lt _ _ inside]

/-- A byte has eight bits. -/
theorem byteBit_ext {a b : UInt8} (same : ∀ i, i < 8 → byteBit a i = byteBit b i) : a = b := by
  refine UInt8.toNat_inj.mp (Nat.eq_of_testBit_eq fun i => ?_)
  by_cases inside : i < 8
  · exact same i inside
  · have small : ∀ byte : UInt8, byte.toNat < 2 ^ i := fun byte =>
      Nat.lt_of_lt_of_le byte.toNat_lt (Nat.pow_le_pow_right Nat.two_pos (Nat.not_lt.mp inside))
    rw [Nat.testBit_lt_two_pow (small a), Nat.testBit_lt_two_pow (small b)]

@[simp] theorem byteBit_xor (a b : UInt8) (i : Nat)
    : byteBit (a ^^^ b) i = (byteBit a i ^^ byteBit b i) := by
  rw [byteBit, UInt8.toNat_xor, Nat.testBit_xor]
  rfl

end Creek.Library.BinaryPolynomials
