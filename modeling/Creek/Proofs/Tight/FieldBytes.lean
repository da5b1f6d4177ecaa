import Creek.Proofs.Tight.FieldLimbs

/-! The limbs of bytes and the bytes of limbs. A coordinate is read without its top bit; an element is
written by its least number, after the carries are swept out and the modulus is taken off once if it can be.
-/

namespace Creek.Tight.Crypto

open Library.Curve25519

-- Reading

theorem loadLe64_eq (s : Bytes) (off : Nat)
    : loadLe64 s off = decodeLittleEndian s / 256 ^ off % 2 ^ 64 := by
  have partly : ∀ n, (List.range n).foldl
      (fun v i => v ||| (s.getD (off + i) 0).toNat <<< (i * 8)) 0 =
        decodeLittleEndian s / 256 ^ off % 256 ^ n := by
    intro n
    induction n with
    | zero => rw [List.range_zero, List.foldl_nil, pow_zero, Nat.mod_one]
    | succ n ih =>
        have small : decodeLittleEndian s / 256 ^ off % 256 ^ n < 2 ^ (n * 8) := by
          rw [Nat.mul_comm, pow_mul]
          exact Nat.mod_lt _ (pow_pos (by decide) n)
        rw [List.range_succ, List.foldl_append, ih, List.foldl_cons, List.foldl_nil, Nat.or_comm,
          ← Nat.shiftLeft_add_eq_or_of_lt small, Nat.mod_pow_succ, Nat.shiftLeft_eq, Nat.mul_comm n,
          pow_mul, Nat.div_div_eq_div_mul, ← pow_add, ← decode_digit]
        ring
  exact partly 8

/-- A coordinate is below 2^256, and its top bit is dropped. -/
theorem decodeUCoordinate_eq {u : Bytes} (size : u.length = 32)
    : decodeUCoordinate u = decodeLittleEndian u % 2 ^ 255 := by
  have replaced := decode_modify (fun byte => byte &&& 127) (by omega : 31 < u.length)
  have digit := decode_digit u 31
  have small := decode_lt u
  have low : (u.getD 31 0 &&& 127).toNat = (u.getD 31 0).toNat % 2 ^ 7 := by
    rw [UInt8.toNat_and]
    exact Nat.and_two_pow_sub_one_eq_mod _ 7
  rw [size] at small
  rw [decodeUCoordinate]
  rw [low, ← digit] at replaced
  omega

theorem feFromBytes_number {s : Bytes} (size : s.length = 32)
    : (feFromBytes s).number = decodeUCoordinate s := by
  rw [decodeUCoordinate_eq size, feFromBytes, Fe.number]
  simp only [loadLe64_eq, and_kMask51, Nat.shiftRight_eq_div_pow]
  generalize decodeLittleEndian s = n
  have l1 : n / 256 ^ 6 % 2 ^ 64 / 2 ^ 3 % 2 ^ 51 = n / 2 ^ 51 % 2 ^ 51 := by omega
  have l2 : n / 256 ^ 12 % 2 ^ 64 / 2 ^ 6 % 2 ^ 51 = n / 2 ^ 102 % 2 ^ 51 := by omega
  have l3 : n / 256 ^ 19 % 2 ^ 64 / 2 ^ 1 % 2 ^ 51 = n / 2 ^ 153 % 2 ^ 51 := by omega
  have l4 : n / 256 ^ 24 % 2 ^ 64 / 2 ^ 12 % 2 ^ 51 = n / 2 ^ 204 % 2 ^ 51 := by omega
  rw [l1, l2, l3, l4]
  omega

theorem feFromBytes_carried (s : Bytes) : (feFromBytes s).Carried := by
  have masked : ∀ value, value &&& kMask51 < 2 ^ 51 + 2 ^ 13 := fun value => by
    rw [and_kMask51]
    omega
  exact ⟨masked _, masked _, masked _, masked _, masked _⟩

-- The carries of an element that is written

/-- Only the lowest limb may still exceed its 51 bits. -/
structure Fe.Swept (f : Fe) (bound : Nat) : Prop where
  l0 : f.l0 < bound
  l1 : f.l1 < 2 ^ 51
  l2 : f.l2 < 2 ^ 51
  l3 : f.l3 < 2 ^ 51
  l4 : f.l4 < 2 ^ 51

/-- A pass takes the modulus off at most once. The first leaves little more than 51 bits in the lowest limb,
and one that starts from there leaves 51 bits in every limb.
-/
theorem feCarryPass_carried {f : Fe} (hf : f.Carried)
    : Checked.feCarryPass f = some (feCarryPass f) ∧
      (feCarryPass f).Swept (2 ^ 51 + 19) ∧
      (f.Swept (2 ^ 51 + 19) → (feCarryPass f).Swept (2 ^ 51)) ∧
      ∃ taken, (feCarryPass f).number + taken * prime = f.number := by
  obtain ⟨f0, f1, f2, f3, f4⟩ := hf
  obtain ⟨c0, hc0⟩ : ∃ c0, c0 = f.l0 / 2 ^ 51 := ⟨_, rfl⟩
  obtain ⟨c1, hc1⟩ : ∃ c1, c1 = (f.l1 + c0) / 2 ^ 51 := ⟨_, rfl⟩
  obtain ⟨c2, hc2⟩ : ∃ c2, c2 = (f.l2 + c1) / 2 ^ 51 := ⟨_, rfl⟩
  obtain ⟨c3, hc3⟩ : ∃ c3, c3 = (f.l3 + c2) / 2 ^ 51 := ⟨_, rfl⟩
  obtain ⟨c4, hc4⟩ : ∃ c4, c4 = (f.l4 + c3) / 2 ^ 51 := ⟨_, rfl⟩
  have s0 : c0 ≤ 1 := by omega
  have s1 : c1 ≤ 1 := by omega
  have s2 : c2 ≤ 1 := by omega
  have s3 : c3 ≤ 1 := by omega
  have s4 : c4 ≤ 1 := by omega
  have plain : feCarryPass f =
      ⟨f.l0 % 2 ^ 51 + 19 * c4, (f.l1 + c0) % 2 ^ 51, (f.l2 + c1) % 2 ^ 51, (f.l3 + c2) % 2 ^ 51,
        (f.l4 + c3) % 2 ^ 51⟩ := by
    simp (disch := omega) only [feCarryPass, and_kMask51, Nat.shiftRight_eq_div_pow, u64_of_lt, ← hc0,
      ← hc1, ← hc2, ← hc3, ← hc4]
  have a1 : Checked.add64 f.l1 c0 = some (f.l1 + c0) := Checked.fits_of_lt (by omega)
  have a2 : Checked.add64 f.l2 c1 = some (f.l2 + c1) := Checked.fits_of_lt (by omega)
  have a3 : Checked.add64 f.l3 c2 = some (f.l3 + c2) := Checked.fits_of_lt (by omega)
  have a4 : Checked.add64 f.l4 c3 = some (f.l4 + c3) := Checked.fits_of_lt (by omega)
  have m4 : Checked.mul64 19 c4 = some (19 * c4) := Checked.fits_of_lt (by omega)
  have a0 : Checked.add64 (f.l0 % 2 ^ 51) (19 * c4) = some (f.l0 % 2 ^ 51 + 19 * c4) :=
    Checked.fits_of_lt (by omega)
  refine ⟨?_, ?_, ?_, c4, ?_⟩
  · rw [Checked.feCarryPass, Nat.shiftRight_eq_div_pow, ← hc0, bind_of_eq a1, Nat.shiftRight_eq_div_pow,
      ← hc1, bind_of_eq a2, Nat.shiftRight_eq_div_pow, ← hc2, bind_of_eq a3,
      Nat.shiftRight_eq_div_pow, ← hc3, bind_of_eq a4, Nat.shiftRight_eq_div_pow, ← hc4,
      bind_of_eq m4, and_kMask51, bind_of_eq a0, and_kMask51, and_kMask51, and_kMask51, and_kMask51,
      plain]
    rfl
  · rw [plain]
    constructor <;> dsimp only <;> omega
  · rintro ⟨t0, t1, t2, t3, t4⟩
    rw [plain]
    constructor <;> dsimp only <;> omega
  · rw [plain, Fe.number, Fe.number, prime]
    dsimp only
    omega

theorem Fe.Swept.carried {f : Fe} (swept : f.Swept (2 ^ 51 + 19)) : f.Carried := by
  obtain ⟨h0, h1, h2, h3, h4⟩ := swept
  constructor <;> omega

theorem Fe.Swept.mono {f : Fe} {bound wider : Nat} (swept : f.Swept bound) (le : bound ≤ wider)
    : f.Swept wider :=
  ⟨Nat.lt_of_lt_of_le swept.l0 le, swept.l1, swept.l2, swept.l3, swept.l4⟩

-- The subtraction of the modulus

theorem feSubLimb_borrow {h p : Nat} {borrow : Int} (hh : h < 2 ^ 51) (hp : p < 2 ^ 51)
    (hb : borrow = 0 ∨ borrow = 1)
    : Checked.feSubLimb h p borrow = some (feSubLimb h p borrow) ∧
      (feSubLimb h p borrow).1 < 2 ^ 51 ∧
      ((feSubLimb h p borrow).2 = 0 ∨ (feSubLimb h p borrow).2 = 1) ∧
      ((feSubLimb h p borrow).1 : Int) + borrow + p = h + 2 ^ 51 * (feSubLimb h p borrow).2 := by
  have v1 : Checked.signed64 h = some (h : Int) := if_pos (by omega)
  have v2 : Checked.signed64 p = some (p : Int) := if_pos (by omega)
  have v3 : Checked.signed64 ((h : Int) - p) = some ((h : Int) - p) := if_pos (by omega)
  have v4 : Checked.signed64 ((h : Int) - p - borrow) = some ((h : Int) - p - borrow) := if_pos (by omega)
  refine ⟨?_, ?_, ?_, ?_⟩
  · rw [Checked.feSubLimb, bind_of_eq v1, bind_of_eq v2, bind_of_eq v3, bind_of_eq v4]
    rfl
  · rw [feSubLimb, and_kMask51]
    omega
  · rw [feSubLimb]
    dsimp only
    split
    · exact .inr rfl
    · exact .inl rfl
  · rw [feSubLimb, and_kMask51]
    dsimp only
    split <;> omega

/-- A number below twice the modulus is brought below the modulus. -/
theorem feReduce_number {h : Fe} (swept : h.Swept (2 ^ 51))
    : Checked.feReduce h = some (feReduce h) ∧ (feReduce h).Swept (2 ^ 51) ∧
      (feReduce h).number = h.number % prime := by
  obtain ⟨h0, h1, h2, h3, h4⟩ := swept
  have mask : kMask51 = 2 ^ 51 - 1 := rfl
  have k0 := feSubLimb_borrow h0 (by omega : kMask51 - 18 < 2 ^ 51) (.inl rfl)
  rcases e0 : feSubLimb h.l0 (kMask51 - 18) 0 with ⟨m0, w0⟩
  rw [e0] at k0
  obtain ⟨v0, s0, b0, d0⟩ := k0
  have k1 := feSubLimb_borrow h1 (by omega : kMask51 < 2 ^ 51) b0
  rcases e1 : feSubLimb h.l1 kMask51 w0 with ⟨m1, w1⟩
  rw [e1] at k1
  obtain ⟨v1, s1, b1, d1⟩ := k1
  have k2 := feSubLimb_borrow h2 (by omega : kMask51 < 2 ^ 51) b1
  rcases e2 : feSubLimb h.l2 kMask51 w1 with ⟨m2, w2⟩
  rw [e2] at k2
  obtain ⟨v2, s2, b2, d2⟩ := k2
  have k3 := feSubLimb_borrow h3 (by omega : kMask51 < 2 ^ 51) b2
  rcases e3 : feSubLimb h.l3 kMask51 w2 with ⟨m3, w3⟩
  rw [e3] at k3
  obtain ⟨v3, s3, b3, d3⟩ := k3
  have k4 := feSubLimb_borrow h4 (by omega : kMask51 < 2 ^ 51) b3
  rcases e4 : feSubLimb h.l4 kMask51 w3 with ⟨m4, w4⟩
  rw [e4] at k4
  obtain ⟨v4, s4, b4, d4⟩ := k4
  have plain : feReduce h = if w4 = 1 then h else ⟨m0, m1, m2, m3, m4⟩ := by
    simp only [feReduce, e0, e1, e2, e3, e4]
  refine ⟨?_, ?_, ?_⟩
  · rw [Checked.feReduce, bind_of_eq v0]
    dsimp only
    rw [bind_of_eq v1]
    dsimp only
    rw [bind_of_eq v2]
    dsimp only
    rw [bind_of_eq v3]
    dsimp only
    rw [bind_of_eq v4, plain]
    rfl
  · rw [plain]
    split
    · exact ⟨h0, h1, h2, h3, h4⟩
    · exact ⟨s0, s1, s2, s3, s4⟩
  · -- the borrow out of the highest limb tells whether the number is below the modulus
    have total : (m0 + 2 ^ 51 * m1 + 2 ^ 102 * m2 + 2 ^ 153 * m3 + 2 ^ 204 * m4 : Int) + prime =
        h.number + 2 ^ 255 * w4 := by
      rw [prime, Fe.number]
      dsimp only at d0 d1 d2 d3 d4
      push_cast
      omega
    have top : h.number < 2 ^ 255 := by
      rw [Fe.number]
      omega
    dsimp only at s0 s1 s2 s3 s4 b4
    rw [plain]
    rcases b4 with b4 | b4
    · rw [b4] at total ⊢
      rw [if_neg (by decide), Fe.number]
      rw [prime] at total ⊢
      dsimp only
      omega
    · rw [b4] at total ⊢
      rw [if_pos rfl]
      rw [prime] at total ⊢
      omega

-- Writing

theorem byte_ofNat_eq {a b : Nat} (low : a % 256 = b % 256) : UInt8.ofNat a = UInt8.ofNat b := by
  rw [← UInt8.ofNat_mod_size, ← @UInt8.ofNat_mod_size b]
  exact congrArg UInt8.ofNat low

theorem shared_byte {low high bits : Nat} (shift : Nat) (small : low < 2 ^ (shift + bits))
    : (low >>> shift) ||| (high <<< bits) = low / 2 ^ shift + high * 2 ^ bits := by
  have few : low / 2 ^ shift < 2 ^ bits := by
    rw [pow_add] at small
    exact Nat.div_lt_of_lt_mul small
  rw [Nat.or_comm, Nat.shiftRight_eq_div_pow, ← Nat.shiftLeft_add_eq_or_of_lt few, Nat.shiftLeft_eq,
    Nat.add_comm]

/-- Limbs of 51 bits are packed into the bytes of their number. -/
theorem feToBytes_packed {f out : Fe}
    (reduced : feReduce (feCarryPass (feCarryPass (feCarryPass f))) = out) (swept : out.Swept (2 ^ 51))
    : feToBytes f = encodeLittleEndian 32 out.number := by
  obtain ⟨h0, h1, h2, h3, h4⟩ := swept
  have range : List.range 32 = [0, 1, 2, 3, 4, 5, 6, 7, 8, 9, 10, 11, 12, 13, 14, 15, 16, 17, 18, 19,
      20, 21, 22, 23, 24, 25, 26, 27, 28, 29, 30, 31] := rfl
  rw [feToBytes, reduced, encodeLittleEndian, range, @shared_byte out.l0 out.l1 3 48 h0,
    @shared_byte out.l1 out.l2 6 45 h1, @shared_byte out.l2 out.l3 1 50 h2,
    @shared_byte out.l3 out.l4 4 47 h3, Fe.number]
  simp only [List.map_cons, List.map_nil, Nat.shiftRight_eq_div_pow]
  repeat' first
    | rfl
    | refine congrArg₂ List.cons (byte_ofNat_eq (by omega)) ?_

/-- An element is written by its least number, and no carry overflows. -/
theorem feToBytes_eq {f : Fe} (hf : f.Carried)
    : Checked.feToBytes f = some (feToBytes f) ∧
      feToBytes f = encodeLittleEndian 32 (f.number % prime) := by
  obtain ⟨c1, once, -, t1, n1⟩ := feCarryPass_carried hf
  obtain ⟨c2, -, twice, t2, n2⟩ := feCarryPass_carried once.carried
  have wide := (twice once).mono (by omega : 2 ^ 51 ≤ 2 ^ 51 + 19)
  obtain ⟨c3, -, thrice, t3, n3⟩ := feCarryPass_carried wide.carried
  obtain ⟨c4, small, reduced⟩ := feReduce_number (thrice wide)
  constructor
  · rw [Checked.feToBytes, bind_of_eq c1, bind_of_eq c2, bind_of_eq c3]
    exact bind_of_eq c4
  · rw [← n1, Nat.add_mul_mod_self_right, ← n2, Nat.add_mul_mod_self_right, ← n3,
      Nat.add_mul_mod_self_right, ← reduced]
    exact feToBytes_packed rfl small

end Creek.Tight.Crypto
