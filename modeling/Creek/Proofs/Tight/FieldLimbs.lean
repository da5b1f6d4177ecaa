import Creek.Library.Curve25519
import Creek.Tight.Crypto.CheckedX25519

/-! The operations on limbs compute in the field, and none of them overflows.
A product takes limbs below 2^53 and leaves limbs that exceed 2^51 by less than 2^13. Sums of such limbs,
and their differences after twice the modulus is added, are below 2^53 again.
-/

namespace Creek.Tight.Crypto

open Library.Curve25519 (prime)

/-- The number that limbs stand for. -/
def Fe.number (f : Fe) : Nat :=
  f.l0 + 2 ^ 51 * f.l1 + 2 ^ 102 * f.l2 + 2 ^ 153 * f.l3 + 2 ^ 204 * f.l4

/-- The element of the field that limbs stand for. -/
def Fe.element (f : Fe) : ZMod prime := f.number

/-- Every limb is below a bound. -/
structure Fe.Below (f : Fe) (bound : Nat) : Prop where
  l0 : f.l0 < bound
  l1 : f.l1 < bound
  l2 : f.l2 < bound
  l3 : f.l3 < bound
  l4 : f.l4 < bound

/-- The limbs that a carry chain leaves. -/
def Fe.Carried (f : Fe) : Prop := f.Below (2 ^ 51 + 2 ^ 13)

/-- The limbs that a multiplication takes. -/
def Fe.Loose (f : Fe) : Prop := f.Below (2 ^ 53)

theorem Fe.Carried.loose {f : Fe} (carried : f.Carried) : f.Loose := by
  obtain ⟨h0, h1, h2, h3, h4⟩ := carried
  constructor <;> omega

/-- An operation without overflow: the limbs it leaves, their bound and the element they stand for. -/
structure Computes (checked : Option Fe) (bound : Fe → Prop) (plain : Fe) (element : ZMod prime)
    : Prop where
  checks : checked = some plain
  bounded : bound plain
  element_eq : plain.element = element

theorem Fe.element_eq (f : Fe)
    : f.element = f.l0 + 2 ^ 51 * f.l1 + 2 ^ 102 * f.l2 + 2 ^ 153 * f.l3 + 2 ^ 204 * f.l4 := by
  rw [Fe.element, Fe.number]
  simp only [Nat.cast_add, Nat.cast_mul, Nat.cast_pow, Nat.cast_ofNat]

theorem two_pow_255 : (2 : ZMod prime) ^ 255 = 19 := by
  have split : 2 ^ 255 = prime + 19 := by rw [prime]; norm_num
  have cast := congrArg (Nat.cast : Nat → ZMod prime) split
  rwa [Nat.cast_add, ZMod.natCast_self, zero_add, Nat.cast_pow, Nat.cast_ofNat, Nat.cast_ofNat] at cast

-- Words

theorem and_kMask51 (value : Nat) : value &&& kMask51 = value % 2 ^ 51 :=
  Nat.and_two_pow_sub_one_eq_mod value 51

theorem Checked.fits_of_lt {width value : Nat} (small : value < 2 ^ width)
    : Checked.fits width value = some value :=
  if_pos small

theorem Checked.carryOut_of_lt {accumulator : Nat} (small : accumulator < 2 ^ 115)
    : Checked.carryOut accumulator = some (accumulator / 2 ^ 51) := by
  rw [carryOut, Nat.shiftRight_eq_div_pow]
  exact fits_of_lt (by omega)

theorem bind_of_eq {α β : Type} {step : Option α} {value : α} {next : α → Option β}
    (gives : step = some value)
    : (step >>= next) = next value := by
  rw [gives]
  rfl

theorem u64_of_lt {value : Nat} (small : value < 2 ^ 64) : u64 value = value := Nat.mod_eq_of_lt small

theorem u128_of_lt {value : Nat} (small : value < 2 ^ 128) : u128 value = value :=
  Nat.mod_eq_of_lt small

-- The carry chain

theorem feCarry_computes {r0 r1 r2 r3 r4 : Nat} (b0 : r0 < 2 ^ 113) (b1 : r1 < 2 ^ 113)
    (b2 : r2 < 2 ^ 113) (b3 : r3 < 2 ^ 113) (b4 : r4 < 2 ^ 109)
    : Computes (Checked.feCarry r0 r1 r2 r3 r4) Fe.Carried (feCarry r0 r1 r2 r3 r4)
        (r0 + 2 ^ 51 * r1 + 2 ^ 102 * r2 + 2 ^ 153 * r3 + 2 ^ 204 * r4) := by
  -- the carries, from the lowest accumulator up and once more from the highest into the lowest
  obtain ⟨c0, hc0⟩ : ∃ c0, c0 = r0 / 2 ^ 51 := ⟨_, rfl⟩
  obtain ⟨c1, hc1⟩ : ∃ c1, c1 = (r1 + c0) / 2 ^ 51 := ⟨_, rfl⟩
  obtain ⟨c2, hc2⟩ : ∃ c2, c2 = (r2 + c1) / 2 ^ 51 := ⟨_, rfl⟩
  obtain ⟨c3, hc3⟩ : ∃ c3, c3 = (r3 + c2) / 2 ^ 51 := ⟨_, rfl⟩
  obtain ⟨c4, hc4⟩ : ∃ c4, c4 = (r4 + c3) / 2 ^ 51 := ⟨_, rfl⟩
  obtain ⟨c5, hc5⟩ : ∃ c5, c5 = (r0 % 2 ^ 51 + 19 * c4) / 2 ^ 51 := ⟨_, rfl⟩
  have s0 : c0 < 2 ^ 62 := by omega
  have s1 : c1 < 2 ^ 63 := by omega
  have s2 : c2 < 2 ^ 63 := by omega
  have s3 : c3 < 2 ^ 63 := by omega
  have s4 : c4 < 2 ^ 58 + 2 ^ 13 := by omega
  have s5 : c5 < 2 ^ 13 := by omega
  have plain : feCarry r0 r1 r2 r3 r4 =
      ⟨(r0 % 2 ^ 51 + 19 * c4) % 2 ^ 51, (r1 + c0) % 2 ^ 51 + c5, (r2 + c1) % 2 ^ 51,
        (r3 + c2) % 2 ^ 51, (r4 + c3) % 2 ^ 51⟩ := by
    simp (disch := omega) only [feCarry, and_kMask51, Nat.shiftRight_eq_div_pow, u64_of_lt, u128_of_lt,
      ← hc0, ← hc1, ← hc2, ← hc3, ← hc4, ← hc5]
  have checked : Checked.feCarry r0 r1 r2 r3 r4 = some (feCarry r0 r1 r2 r3 r4) := by
    have k0 : Checked.carryOut r0 = some c0 := hc0 ▸ Checked.carryOut_of_lt (by omega)
    have k1 : Checked.carryOut (r1 + c0) = some c1 := hc1 ▸ Checked.carryOut_of_lt (by omega)
    have k2 : Checked.carryOut (r2 + c1) = some c2 := hc2 ▸ Checked.carryOut_of_lt (by omega)
    have k3 : Checked.carryOut (r3 + c2) = some c3 := hc3 ▸ Checked.carryOut_of_lt (by omega)
    have k4 : Checked.carryOut (r4 + c3) = some c4 := hc4 ▸ Checked.carryOut_of_lt (by omega)
    have k5 : Checked.carryOut (r0 % 2 ^ 51 + 19 * c4) = some c5 :=
      hc5 ▸ Checked.carryOut_of_lt (by omega)
    have a1 : Checked.add128 r1 c0 = some (r1 + c0) := Checked.fits_of_lt (by omega)
    have a2 : Checked.add128 r2 c1 = some (r2 + c1) := Checked.fits_of_lt (by omega)
    have a3 : Checked.add128 r3 c2 = some (r3 + c2) := Checked.fits_of_lt (by omega)
    have a4 : Checked.add128 r4 c3 = some (r4 + c3) := Checked.fits_of_lt (by omega)
    have m4 : Checked.mul64 19 c4 = some (19 * c4) := Checked.fits_of_lt (by omega)
    have a0 : Checked.add128 (r0 % 2 ^ 51) (19 * c4) = some (r0 % 2 ^ 51 + 19 * c4) :=
      Checked.fits_of_lt (by omega)
    have a5 : Checked.add128 ((r1 + c0) % 2 ^ 51) c5 = some ((r1 + c0) % 2 ^ 51 + c5) :=
      Checked.fits_of_lt (by omega)
    have o0 : Checked.fits 64 ((r0 % 2 ^ 51 + 19 * c4) % 2 ^ 51) = some _ :=
      Checked.fits_of_lt (by omega)
    have o1 : Checked.fits 64 ((r1 + c0) % 2 ^ 51 + c5) = some _ := Checked.fits_of_lt (by omega)
    have o2 : Checked.fits 64 ((r2 + c1) % 2 ^ 51) = some _ := Checked.fits_of_lt (by omega)
    have o3 : Checked.fits 64 ((r3 + c2) % 2 ^ 51) = some _ := Checked.fits_of_lt (by omega)
    have o4 : Checked.fits 64 ((r4 + c3) % 2 ^ 51) = some _ := Checked.fits_of_lt (by omega)
    rw [Checked.feCarry, and_kMask51, bind_of_eq k0, bind_of_eq a1, bind_of_eq k1, bind_of_eq a2,
      bind_of_eq k2, bind_of_eq a3, bind_of_eq k3, bind_of_eq a4, bind_of_eq k4, bind_of_eq m4,
      bind_of_eq a0, bind_of_eq k5, and_kMask51, bind_of_eq a5, and_kMask51, bind_of_eq o0,
      bind_of_eq o1, and_kMask51, bind_of_eq o2, and_kMask51, bind_of_eq o3, and_kMask51,
      bind_of_eq o4, plain]
    rfl
  refine ⟨checked, ?_, ?_⟩
  · rw [plain]
    constructor <;> dsimp only <;> omega
  · have fold : (feCarry r0 r1 r2 r3 r4).number + 2 ^ 255 * c4 =
        r0 + 2 ^ 51 * r1 + 2 ^ 102 * r2 + 2 ^ 153 * r3 + 2 ^ 204 * r4 + 19 * c4 := by
      rw [plain, Fe.number]
      dsimp only
      omega
    have cast := congrArg (Nat.cast : Nat → ZMod prime) fold
    simp only [Nat.cast_add, Nat.cast_mul, Nat.cast_pow, Nat.cast_ofNat, two_pow_255] at cast
    exact add_right_cancel cast

-- Products

/-- The sum of products that an accumulator collects. -/
def products (terms : List (Nat × Nat)) : Nat := (terms.map fun term => term.1 * term.2).sum

theorem Checked.dot_of_lt {sum : Nat} {terms : List (Nat × Nat)}
    (small : sum + products terms < 2 ^ 128)
    : Checked.dot sum terms = some (sum + products terms) := by
  induction terms generalizing sum with
  | nil => rfl
  | cons term rest ih =>
      rw [products, List.map_cons, List.sum_cons, ← products] at small ⊢
      have product : mul128 term.1 term.2 = some (term.1 * term.2) := fits_of_lt (by omega)
      have next : add128 sum (term.1 * term.2) = some (sum + term.1 * term.2) := fits_of_lt (by omega)
      rw [dot, bind_of_eq product, bind_of_eq next, ih (by omega), Nat.add_assoc]

theorem Checked.folded_of_lt {low high : List (Nat × Nat)}
    (small : products low + 19 * products high < 2 ^ 128)
    : Checked.folded low high = some (products low + 19 * products high) := by
  have lower : dot 0 low = some (products low) := by
    rw [dot_of_lt (by omega), Nat.zero_add]
  have upper : dot 0 high = some (products high) := by
    rw [dot_of_lt (by omega), Nat.zero_add]
  have times : mul128 19 (products high) = some (19 * products high) := fits_of_lt (by omega)
  rw [folded, bind_of_eq lower, bind_of_eq upper, bind_of_eq times]
  exact fits_of_lt small

theorem limbs_mul_lt {a b : Nat} (ha : a < 2 ^ 53) (hb : b < 2 ^ 53) : a * b < 2 ^ 106 :=
  calc
    a * b < 2 ^ 53 * 2 ^ 53 := Nat.mul_lt_mul'' ha hb
    _ = 2 ^ 106 := by norm_num

theorem feMul_computes {f g : Fe} (hf : f.Loose) (hg : g.Loose)
    : Computes (Checked.feMul f g) Fe.Carried (feMul f g) (f.element * g.element) := by
  obtain ⟨f0, f1, f2, f3, f4⟩ := hf
  obtain ⟨g0, g1, g2, g3, g4⟩ := hg
  have p00 := limbs_mul_lt f0 g0
  have p14 := limbs_mul_lt f1 g4
  have p23 := limbs_mul_lt f2 g3
  have p32 := limbs_mul_lt f3 g2
  have p41 := limbs_mul_lt f4 g1
  have p01 := limbs_mul_lt f0 g1
  have p10 := limbs_mul_lt f1 g0
  have p24 := limbs_mul_lt f2 g4
  have p33 := limbs_mul_lt f3 g3
  have p42 := limbs_mul_lt f4 g2
  have p02 := limbs_mul_lt f0 g2
  have p11 := limbs_mul_lt f1 g1
  have p20 := limbs_mul_lt f2 g0
  have p34 := limbs_mul_lt f3 g4
  have p43 := limbs_mul_lt f4 g3
  have p03 := limbs_mul_lt f0 g3
  have p12 := limbs_mul_lt f1 g2
  have p21 := limbs_mul_lt f2 g1
  have p30 := limbs_mul_lt f3 g0
  have p44 := limbs_mul_lt f4 g4
  have p04 := limbs_mul_lt f0 g4
  have p13 := limbs_mul_lt f1 g3
  have p22 := limbs_mul_lt f2 g2
  have p31 := limbs_mul_lt f3 g1
  have p40 := limbs_mul_lt f4 g0
  obtain ⟨r0, e0⟩ : ∃ r0, r0 = f.l0 * g.l0 + 19 * (f.l1 * g.l4 + f.l2 * g.l3 + f.l3 * g.l2 + f.l4 * g.l1) :=
    ⟨_, rfl⟩
  obtain ⟨r1, e1⟩ : ∃ r1, r1 = f.l0 * g.l1 + f.l1 * g.l0 +
      19 * (f.l2 * g.l4 + f.l3 * g.l3 + f.l4 * g.l2) :=
    ⟨_, rfl⟩
  obtain ⟨r2, e2⟩ : ∃ r2, r2 = f.l0 * g.l2 + f.l1 * g.l1 + f.l2 * g.l0 +
      19 * (f.l3 * g.l4 + f.l4 * g.l3) :=
    ⟨_, rfl⟩
  obtain ⟨r3, e3⟩ : ∃ r3, r3 = f.l0 * g.l3 + f.l1 * g.l2 + f.l2 * g.l1 + f.l3 * g.l0 +
      19 * (f.l4 * g.l4) :=
    ⟨_, rfl⟩
  obtain ⟨r4, e4⟩ : ∃ r4, r4 = f.l0 * g.l4 + f.l1 * g.l3 + f.l2 * g.l2 + f.l3 * g.l1 + f.l4 * g.l0 :=
    ⟨_, rfl⟩
  have b0 : r0 < 2 ^ 113 := by omega
  have b1 : r1 < 2 ^ 113 := by omega
  have b2 : r2 < 2 ^ 113 := by omega
  have b3 : r3 < 2 ^ 113 := by omega
  have b4 : r4 < 2 ^ 109 := by omega
  have plain : feMul f g = feCarry r0 r1 r2 r3 r4 := by
    rw [feMul, ← e0, ← e1, ← e2, ← e3, ← e4, u128_of_lt (by omega), u128_of_lt (by omega),
      u128_of_lt (by omega), u128_of_lt (by omega), u128_of_lt (by omega)]
  have checked : Checked.feMul f g = Checked.feCarry r0 r1 r2 r3 r4 := by
    have d0 : products [(f.l0, g.l0)] +
        19 * products [(f.l1, g.l4), (f.l2, g.l3), (f.l3, g.l2), (f.l4, g.l1)] = r0 := by
      simp only [products, List.map_cons, List.map_nil, List.sum_cons, List.sum_nil]
      omega
    have d1 : products [(f.l0, g.l1), (f.l1, g.l0)] +
        19 * products [(f.l2, g.l4), (f.l3, g.l3), (f.l4, g.l2)] = r1 := by
      simp only [products, List.map_cons, List.map_nil, List.sum_cons, List.sum_nil]
      omega
    have d2 : products [(f.l0, g.l2), (f.l1, g.l1), (f.l2, g.l0)] +
        19 * products [(f.l3, g.l4), (f.l4, g.l3)] = r2 := by
      simp only [products, List.map_cons, List.map_nil, List.sum_cons, List.sum_nil]
      omega
    have d3 : products [(f.l0, g.l3), (f.l1, g.l2), (f.l2, g.l1), (f.l3, g.l0)] +
        19 * products [(f.l4, g.l4)] = r3 := by
      simp only [products, List.map_cons, List.map_nil, List.sum_cons, List.sum_nil]
      omega
    have d4 : 0 + products [(f.l0, g.l4), (f.l1, g.l3), (f.l2, g.l2), (f.l3, g.l1), (f.l4, g.l0)] =
        r4 := by
      simp only [products, List.map_cons, List.map_nil, List.sum_cons, List.sum_nil]
      omega
    rw [Checked.feMul, bind_of_eq (d0 ▸ Checked.folded_of_lt (by omega)),
      bind_of_eq (d1 ▸ Checked.folded_of_lt (by omega)),
      bind_of_eq (d2 ▸ Checked.folded_of_lt (by omega)),
      bind_of_eq (d3 ▸ Checked.folded_of_lt (by omega)),
      bind_of_eq (d4 ▸ Checked.dot_of_lt (by omega))]
  obtain ⟨checks, bounded, element⟩ := feCarry_computes b0 b1 b2 b3 b4
  refine ⟨by rw [checked, checks, plain], by rwa [plain], ?_⟩
  rw [plain, element, e0, e1, e2, e3, e4, Fe.element_eq, Fe.element_eq]
  simp only [Nat.cast_add, Nat.cast_mul, Nat.cast_ofNat]
  linear_combination (-(f.l1 * g.l4 + f.l2 * g.l3 + f.l3 * g.l2 + f.l4 * g.l1)
    - 2 ^ 51 * (f.l2 * g.l4 + f.l3 * g.l3 + f.l4 * g.l2)
    - 2 ^ 102 * (f.l3 * g.l4 + f.l4 * g.l3) - 2 ^ 153 * (f.l4 * g.l4)) * two_pow_255

theorem feSq_computes {f : Fe} (hf : f.Loose)
    : Computes (Checked.feSq f) Fe.Carried (feSq f) (f.element ^ 2) := by
  rw [pow_two]
  exact feMul_computes hf hf

/-- A number of at most 17 bits leaves room for the carries. -/
theorem feMulScalar_computes {f : Fe} {s : Nat} (hf : f.Loose) (hs : s < 2 ^ 17)
    : Computes (Checked.feMulScalar f s) Fe.Carried (feMulScalar f s) (s * f.element) := by
  obtain ⟨f0, f1, f2, f3, f4⟩ := hf
  have scaled : ∀ {limb : Nat}, limb < 2 ^ 53 → limb * s < 2 ^ 70 := fun small =>
    calc
      _ < 2 ^ 53 * 2 ^ 17 := Nat.mul_lt_mul'' small hs
      _ = 2 ^ 70 := by norm_num
  have b0 := scaled f0
  have b1 := scaled f1
  have b2 := scaled f2
  have b3 := scaled f3
  have b4 := scaled f4
  have checked : ∀ {limb : Nat}, limb * s < 2 ^ 70 → Checked.mul128 limb s = some (limb * s) :=
    fun small => Checked.fits_of_lt (by omega)
  obtain ⟨checks, bounded, element⟩ := feCarry_computes (by omega : f.l0 * s < 2 ^ 113)
    (by omega : f.l1 * s < 2 ^ 113) (by omega : f.l2 * s < 2 ^ 113) (by omega : f.l3 * s < 2 ^ 113)
    (by omega : f.l4 * s < 2 ^ 109)
  have plain : feMulScalar f s = feCarry (f.l0 * s) (f.l1 * s) (f.l2 * s) (f.l3 * s) (f.l4 * s) := by
    rw [feMulScalar, u128_of_lt (by omega), u128_of_lt (by omega), u128_of_lt (by omega),
      u128_of_lt (by omega), u128_of_lt (by omega)]
  refine ⟨?_, by rwa [plain], ?_⟩
  · rw [Checked.feMulScalar, bind_of_eq (checked b0), bind_of_eq (checked b1), bind_of_eq (checked b2),
      bind_of_eq (checked b3), bind_of_eq (checked b4), checks, plain]
  · rw [plain, element, Fe.element_eq]
    simp only [Nat.cast_mul]
    ring

-- Sums and differences

theorem feAdd_computes {f g : Fe} (hf : f.Carried) (hg : g.Carried)
    : Computes (Checked.feAdd f g) Fe.Loose (feAdd f g) (f.element + g.element) := by
  obtain ⟨f0, f1, f2, f3, f4⟩ := hf
  obtain ⟨g0, g1, g2, g3, g4⟩ := hg
  have plain : feAdd f g = ⟨f.l0 + g.l0, f.l1 + g.l1, f.l2 + g.l2, f.l3 + g.l3, f.l4 + g.l4⟩ := by
    rw [feAdd, u64_of_lt (by omega), u64_of_lt (by omega), u64_of_lt (by omega), u64_of_lt (by omega),
      u64_of_lt (by omega)]
  have a0 : Checked.add64 f.l0 g.l0 = some _ := Checked.fits_of_lt (by omega)
  have a1 : Checked.add64 f.l1 g.l1 = some _ := Checked.fits_of_lt (by omega)
  have a2 : Checked.add64 f.l2 g.l2 = some _ := Checked.fits_of_lt (by omega)
  have a3 : Checked.add64 f.l3 g.l3 = some _ := Checked.fits_of_lt (by omega)
  have a4 : Checked.add64 f.l4 g.l4 = some _ := Checked.fits_of_lt (by omega)
  refine ⟨?_, ?_, ?_⟩
  · rw [Checked.feAdd, bind_of_eq a0, bind_of_eq a1, bind_of_eq a2, bind_of_eq a3, bind_of_eq a4, plain]
    rfl
  · rw [plain]
    constructor <;> dsimp only <;> omega
  · rw [plain, Fe.element_eq, Fe.element_eq, Fe.element_eq]
    simp only [Nat.cast_add]
    ring

theorem subU64_of_le {a b : Nat} (small : a < 2 ^ 64) (below : b ≤ a) : subU64 a b = a - b := by
  rw [subU64, u64_of_lt (by omega : b < 2 ^ 64), u64]
  omega

theorem Checked.subLimb_of_le {f bias g : Nat} (small : f + bias < 2 ^ 64) (below : g ≤ f + bias)
    : subLimb f bias g = some (f + bias - g) := by
  have sum : add64 f bias = some (f + bias) := fits_of_lt small
  rw [subLimb, bind_of_eq sum]
  exact if_pos below

/-- Twice the modulus, limb by limb, is above what a carry chain leaves. -/
theorem feSub_computes {f g : Fe} (hf : f.Carried) (hg : g.Carried)
    : Computes (Checked.feSub f g) Fe.Loose (feSub f g) (f.element - g.element) := by
  obtain ⟨f0, f1, f2, f3, f4⟩ := hf
  obtain ⟨g0, g1, g2, g3, g4⟩ := hg
  have plain : feSub f g =
      ⟨f.l0 + 0xFFFFFFFFFFFDA - g.l0, f.l1 + 0xFFFFFFFFFFFFE - g.l1, f.l2 + 0xFFFFFFFFFFFFE - g.l2,
        f.l3 + 0xFFFFFFFFFFFFE - g.l3, f.l4 + 0xFFFFFFFFFFFFE - g.l4⟩ := by
    rw [feSub, subU64_of_le (by omega) (by omega), subU64_of_le (by omega) (by omega),
      subU64_of_le (by omega) (by omega), subU64_of_le (by omega) (by omega),
      subU64_of_le (by omega) (by omega)]
  refine ⟨?_, ?_, ?_⟩
  · rw [Checked.feSub, bind_of_eq (Checked.subLimb_of_le (by omega) (by omega)),
      bind_of_eq (Checked.subLimb_of_le (by omega) (by omega)),
      bind_of_eq (Checked.subLimb_of_le (by omega) (by omega)),
      bind_of_eq (Checked.subLimb_of_le (by omega) (by omega)),
      bind_of_eq (Checked.subLimb_of_le (by omega) (by omega)), plain]
    rfl
  · rw [plain]
    constructor <;> dsimp only <;> omega
  · have twice : (feSub f g).number + g.number = f.number + 2 * prime := by
      rw [plain, Fe.number, Fe.number, Fe.number, prime]
      dsimp only
      omega
    have cast := congrArg (Nat.cast : Nat → ZMod prime) twice
    simp only [Nat.cast_add, Nat.cast_mul, ZMod.natCast_self, mul_zero, add_zero] at cast
    exact eq_sub_of_add_eq cast

-- Powers

/-- Repeated squaring, by induction on the number of squares. -/
theorem feSqN_computes {f : Fe} (hf : f.Carried) (n : Nat)
    : Computes (Checked.feSqN f n) Fe.Carried (feSqN f n) (f.element ^ 2 ^ n) := by
  induction n generalizing f with
  | zero => exact ⟨rfl, hf, by rw [feSqN, pow_zero, pow_one]⟩
  | succ n ih =>
      have square := feSq_computes hf.loose
      have rest := ih square.bounded
      refine ⟨?_, rest.bounded, ?_⟩
      · rw [Checked.feSqN, bind_of_eq square.checks]
        exact rest.checks
      · rw [feSqN, rest.element_eq, square.element_eq, ← pow_mul, ← pow_succ']

/-- A link of the addition chain: squares, and a product with an earlier power. -/
theorem link_element {x : ZMod prime} {z w : Fe} {a b : Nat} (n : Nat) (hz : z.Carried)
    (hw : w.Carried) (za : z.element = x ^ a) (wb : w.element = x ^ b)
    : (feMul (feSqN z n) w).element = x ^ (a * 2 ^ n + b) := by
  have squares := feSqN_computes hz n
  rw [(feMul_computes squares.bounded.loose hw.loose).element_eq, squares.element_eq, za, wb, pow_add,
    pow_mul]

theorem feInv_computes {z : Fe} (hz : z.Carried)
    : Computes (Checked.feInv z) Fe.Carried (feInv z) (z.element ^ (prime - 2)) := by
  have h2 := feSq_computes hz.loose
  have h8 := feSqN_computes h2.bounded 2
  have h9 := feMul_computes hz.loose h8.bounded.loose
  have h11 := feMul_computes h2.bounded.loose h9.bounded.loose
  have h22 := feSq_computes h11.bounded.loose
  have h5 := feMul_computes h9.bounded.loose h22.bounded.loose
  have s10 := feSqN_computes h5.bounded 5
  have h10 := feMul_computes s10.bounded.loose h5.bounded.loose
  have s20 := feSqN_computes h10.bounded 10
  have h20 := feMul_computes s20.bounded.loose h10.bounded.loose
  have s40 := feSqN_computes h20.bounded 20
  have h40 := feMul_computes s40.bounded.loose h20.bounded.loose
  have s50 := feSqN_computes h40.bounded 10
  have h50 := feMul_computes s50.bounded.loose h10.bounded.loose
  have s100 := feSqN_computes h50.bounded 50
  have h100 := feMul_computes s100.bounded.loose h50.bounded.loose
  have s200 := feSqN_computes h100.bounded 100
  have h200 := feMul_computes s200.bounded.loose h100.bounded.loose
  have s250 := feSqN_computes h200.bounded 50
  have h250 := feMul_computes s250.bounded.loose h50.bounded.loose
  have s255 := feSqN_computes h250.bounded 5
  have last := feMul_computes s255.bounded.loose h11.bounded.loose
  refine ⟨?_, last.bounded, ?_⟩
  · rw [Checked.feInv, bind_of_eq h2.checks, bind_of_eq h8.checks, bind_of_eq h9.checks,
      bind_of_eq h11.checks, bind_of_eq h22.checks, bind_of_eq h5.checks, bind_of_eq s10.checks,
      bind_of_eq h10.checks, bind_of_eq s20.checks, bind_of_eq h20.checks, bind_of_eq s40.checks,
      bind_of_eq h40.checks, bind_of_eq s50.checks, bind_of_eq h50.checks, bind_of_eq s100.checks,
      bind_of_eq h100.checks, bind_of_eq s200.checks, bind_of_eq h200.checks, bind_of_eq s250.checks,
      bind_of_eq h250.checks, bind_of_eq s255.checks, last.checks]
    rfl
  · have e2 := h2.element_eq
    have e8 := h8.element_eq
    rw [e2, ← pow_mul] at e8
    have e9 := h9.element_eq
    rw [e8, ← pow_succ'] at e9
    have e11 := h11.element_eq
    rw [e2, e9, ← pow_add] at e11
    have e5 := h5.element_eq
    rw [e9, h22.element_eq, e11, ← pow_mul, ← pow_add] at e5
    have e10 := link_element 5 h5.bounded h5.bounded e5 e5
    have e20 := link_element 10 h10.bounded h10.bounded e10 e10
    have e40 := link_element 20 h20.bounded h20.bounded e20 e20
    have e50 := link_element 10 h40.bounded h10.bounded e40 e10
    have e100 := link_element 50 h50.bounded h50.bounded e50 e50
    have e200 := link_element 100 h100.bounded h100.bounded e100 e100
    have e250 := link_element 50 h200.bounded h50.bounded e200 e50
    refine (link_element 5 h250.bounded h11.bounded e250 e11).trans (congrArg _ ?_)
    rw [prime]
    norm_num

-- The exchange

theorem full_mask_and {value : Nat} (small : value < 2 ^ 64) : (2 ^ 64 - 1) &&& value = value := by
  rw [Nat.and_comm, Nat.and_two_pow_sub_one_eq_mod, Nat.mod_eq_of_lt small]

/-- The mask has all bits or none, so both elements are exchanged or none is. -/
theorem feCswap_eq {f g : Fe} {swap : Nat} (hf : f.Loose) (hg : g.Loose) (hs : swap < 2)
    : feCswap f g swap = if swap = 1 then (g, f) else (f, g) := by
  have differs : ∀ {a b : Nat}, a < 2 ^ 53 → b < 2 ^ 53 → a ^^^ b < 2 ^ 64 := fun ha hb =>
    Nat.xor_lt_two_pow (by omega) (by omega)
  obtain rfl | rfl : swap = 0 ∨ swap = 1 := by omega
  · have mask : subU64 0 0 = 0 := rfl
    simp only [feCswap, mask, Nat.zero_and, Nat.xor_zero]
    rfl
  · have mask : subU64 0 1 = 2 ^ 64 - 1 := rfl
    simp only [-Nat.reducePow, -Nat.reduceSub, feCswap, mask, full_mask_and (differs hf.l0 hg.l0),
      full_mask_and (differs hf.l1 hg.l1), full_mask_and (differs hf.l2 hg.l2),
      full_mask_and (differs hf.l3 hg.l3), full_mask_and (differs hf.l4 hg.l4), if_true]
    simp only [Nat.xor_comm f.l0, Nat.xor_comm f.l1, Nat.xor_comm f.l2, Nat.xor_comm f.l3,
      Nat.xor_comm f.l4, Nat.xor_xor_cancel_left, Nat.xor_xor_cancel_right]

end Creek.Tight.Crypto
