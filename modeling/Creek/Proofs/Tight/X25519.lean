import Creek.Proofs.Tight.FieldBytes

/-! X25519 computes the function of the standard. Round the ladder every limb stays within the bound of a
carry chain, so no step of it overflows, and the points stand for those of the ladder in the field.
-/

namespace Creek.Tight.Crypto

open Library

local instance : NeZero Curve25519.prime := ⟨by decide⟩

-- One bit of the ladder

theorem scalar_bit (e : Bytes) (t : Nat)
    : (e.getD (t / 8) 0).toNat >>> (t % 8) &&& 1 =
      Curve25519.decodeLittleEndian e >>> t &&& 1 := by
  have place : 2 ^ t = 256 ^ (t / 8) * 2 ^ (t % 8) :=
    calc
      2 ^ t = 2 ^ (8 * (t / 8) + t % 8) := by rw [Nat.div_add_mod]
      _ = 256 ^ (t / 8) * 2 ^ (t % 8) := by
        rw [pow_add, pow_mul]
        norm_num
  rw [← Curve25519.decode_digit, Nat.shiftRight_eq_div_pow, Nat.shiftRight_eq_div_pow, place,
    ← Nat.div_div_eq_div_mul, Nat.and_one_is_mod, Nat.and_one_is_mod]
  generalize Curve25519.decodeLittleEndian e / 256 ^ (t / 8) = byte
  have inside : t % 8 < 8 := Nat.mod_lt t (by decide)
  interval_cases t % 8 <;> omega

theorem feCswap_represents {f g : Fe} {swap : Nat} (hf : f.Carried) (hg : g.Carried) (hs : swap < 2)
    : (feCswap f g swap).1.Carried ∧ (feCswap f g swap).2.Carried ∧
      (feCswap f g swap).1.element = (Curve25519.cswap swap f.element g.element).1 ∧
      (feCswap f g swap).2.element = (Curve25519.cswap swap f.element g.element).2 := by
  rw [feCswap_eq hf.loose hg.loose hs, Curve25519.cswap]
  split
  · exact ⟨hg, hf, rfl, rfl⟩
  · exact ⟨hf, hg, rfl, rfl⟩

/-- The variables of the ladder stand for its points in the field. -/
structure Represents (ladder : Ladder) (points : Curve25519.Ladder (ZMod Curve25519.prime)) : Prop where
  x2 : ladder.x2.Carried ∧ ladder.x2.element = points.x2
  z2 : ladder.z2.Carried ∧ ladder.z2.element = points.z2
  x3 : ladder.x3.Carried ∧ ladder.x3.element = points.x3
  z3 : ladder.z3.Carried ∧ ladder.z3.element = points.z3
  swap : ladder.swap < 2 ∧ ladder.swap = points.swap

variable {x1 : Fe} {e : Bytes}

theorem ladderStep_represents (hx : x1.Carried) {ladder : Ladder}
    {points : Curve25519.Ladder (ZMod Curve25519.prime)} (same : Represents ladder points) (t : Nat)
    : Checked.ladderStep x1 e ladder t = some (ladderStep x1 e ladder t) ∧
      Represents (ladderStep x1 e ladder t)
        (Curve25519.ladderStep x1.element (Curve25519.decodeLittleEndian e) points t) := by
  obtain ⟨⟨bx2, ex2⟩, ⟨bz2, ez2⟩, ⟨bx3, ex3⟩, ⟨bz3, ez3⟩, bs, es⟩ := same
  have bit : Curve25519.decodeLittleEndian e >>> t &&& 1 < 2 := by
    rw [Nat.and_one_is_mod]
    omega
  have swap : ladder.swap ^^^ (Curve25519.decodeLittleEndian e >>> t &&& 1) < 2 :=
    @Nat.xor_lt_two_pow _ _ 1 bs bit
  rw [Checked.ladderStep, ladderStep, Curve25519.ladderStep, scalar_bit, ← es]
  generalize Curve25519.decodeLittleEndian e >>> t &&& 1 = kt at *
  have xs := feCswap_represents bx2 bx3 swap
  have zs := feCswap_represents bz2 bz3 swap
  rw [ex2, ex3] at xs
  rw [ez2, ez3] at zs
  generalize feCswap ladder.x2 ladder.x3 (ladder.swap ^^^ kt) = x at *
  generalize feCswap ladder.z2 ladder.z3 (ladder.swap ^^^ kt) = z at *
  generalize Curve25519.cswap (ladder.swap ^^^ kt) points.x2 points.x3 = px at *
  generalize Curve25519.cswap (ladder.swap ^^^ kt) points.z2 points.z3 = pz at *
  obtain ⟨x2, x3⟩ := x
  obtain ⟨z2, z3⟩ := z
  obtain ⟨px2, px3⟩ := px
  obtain ⟨pz2, pz3⟩ := pz
  dsimp only at xs zs ⊢
  obtain ⟨cx2, cx3, vx2, vx3⟩ := xs
  obtain ⟨cz2, cz3, vz2, vz3⟩ := zs
  have a := feAdd_computes cx2 cz2
  have aa := feSq_computes a.bounded
  have b := feSub_computes cx2 cz2
  have bb := feSq_computes b.bounded
  have e2 := feSub_computes aa.bounded bb.bounded
  have c := feAdd_computes cx3 cz3
  have d := feSub_computes cx3 cz3
  have da := feMul_computes d.bounded a.bounded
  have cb := feMul_computes c.bounded b.bounded
  have daCb := feAdd_computes da.bounded cb.bounded
  have daCb2 := feSub_computes da.bounded cb.bounded
  have x3' := feSq_computes daCb.bounded
  have square := feSq_computes daCb2.bounded
  have z3' := feMul_computes hx.loose square.bounded.loose
  have x2' := feMul_computes aa.bounded.loose bb.bounded.loose
  have scaled := feMulScalar_computes e2.bounded (by omega : 121665 < 2 ^ 17)
  have inner := feAdd_computes aa.bounded scaled.bounded
  have z2' := feMul_computes e2.bounded inner.bounded
  constructor
  · rw [bind_of_eq a.checks, bind_of_eq aa.checks, bind_of_eq b.checks, bind_of_eq bb.checks,
      bind_of_eq e2.checks, bind_of_eq c.checks, bind_of_eq d.checks, bind_of_eq da.checks,
      bind_of_eq cb.checks, bind_of_eq daCb.checks, bind_of_eq daCb2.checks, bind_of_eq x3'.checks,
      bind_of_eq square.checks, bind_of_eq z3'.checks, bind_of_eq x2'.checks,
      bind_of_eq scaled.checks, bind_of_eq inner.checks, bind_of_eq z2'.checks]
    rfl
  · constructor
    · refine ⟨x2'.bounded, ?_⟩
      dsimp only
      rw [x2'.element_eq, aa.element_eq, bb.element_eq, a.element_eq, b.element_eq, vx2, vz2]
    · refine ⟨z2'.bounded, ?_⟩
      dsimp only
      rw [z2'.element_eq, inner.element_eq, scaled.element_eq, e2.element_eq, aa.element_eq,
        bb.element_eq, a.element_eq, b.element_eq, vx2, vz2]
      rfl
    · refine ⟨x3'.bounded, ?_⟩
      dsimp only
      rw [x3'.element_eq, daCb.element_eq, da.element_eq, cb.element_eq, c.element_eq, d.element_eq,
        a.element_eq, b.element_eq, vx2, vz2, vx3, vz3]
    · refine ⟨z3'.bounded, ?_⟩
      dsimp only
      rw [z3'.element_eq, square.element_eq, daCb2.element_eq, da.element_eq, cb.element_eq,
        c.element_eq, d.element_eq, a.element_eq, b.element_eq, vx2, vz2, vx3, vz3]
    · exact ⟨bit, rfl⟩

theorem ladderLoop_represents (hx : x1.Carried) {ladder : Ladder}
    {points : Curve25519.Ladder (ZMod Curve25519.prime)} (same : Represents ladder points) (t : Nat)
    : Checked.ladderLoop x1 e ladder t = some (ladderLoop x1 e ladder t) ∧
      Represents (ladderLoop x1 e ladder t)
        (Curve25519.ladderLoop x1.element (Curve25519.decodeLittleEndian e) points t) := by
  induction t generalizing ladder points with
  | zero => exact ⟨rfl, same⟩
  | succ t ih =>
      have step := @ladderStep_represents x1 e hx _ _ same t
      have rest := ih step.2
      refine ⟨?_, rest.2⟩
      rw [Checked.ladderLoop, bind_of_eq step.1]
      exact rest.1

-- The function

/-- Bytes are collected into zero only if all of them are zero. -/
theorem collected_eq_zero (out : Bytes) (acc : UInt8)
    : out.foldl (· ||| ·) acc = 0 ↔ acc = 0 ∧ ∀ byte ∈ out, byte = 0 := by
  induction out generalizing acc with
  | nil => simp
  | cons byte rest ih =>
      rw [List.foldl_cons, ih, UInt8.or_eq_zero_iff, List.forall_mem_cons, and_assoc]

theorem collected_encode {n value : Nat} (fits : value < 256 ^ n)
    : (Curve25519.encodeLittleEndian n value).foldl (· ||| ·) 0 = 0 ↔ value = 0 := by
  rw [collected_eq_zero]
  constructor
  · rintro ⟨-, zero⟩
    have decoded := Curve25519.decode_encode fits
    have number : ∀ bytes : Bytes, (∀ byte ∈ bytes, byte = 0) →
        Curve25519.decodeLittleEndian bytes = 0 := by
      intro bytes
      induction bytes with
      | nil => exact fun _ => rfl
      | cons byte rest ih =>
          intro all
          rw [List.forall_mem_cons] at all
          rw [Curve25519.decodeLittleEndian, all.1, ih all.2]
          rfl
    rw [← decoded, number _ zero]
  · rintro rfl
    refine ⟨rfl, fun byte member => ?_⟩
    obtain ⟨i, -, rfl⟩ := List.mem_map.mp member
    rw [Nat.zero_div]
    rfl

theorem start_represents (hx : x1.Carried)
    : Represents
        { x2 := ⟨1, 0, 0, 0, 0⟩, z2 := ⟨0, 0, 0, 0, 0⟩, x3 := x1, z3 := ⟨1, 0, 0, 0, 0⟩, swap := 0 }
        { x2 := 1, z2 := 0, x3 := x1.element, z3 := 1, swap := 0 } := by
  have one : (⟨1, 0, 0, 0, 0⟩ : Fe).element = 1 := by simp [Fe.element, Fe.number]
  have zero : (⟨0, 0, 0, 0, 0⟩ : Fe).element = 0 := by simp [Fe.element, Fe.number]
  have unit : (⟨1, 0, 0, 0, 0⟩ : Fe).Carried := by constructor <;> decide
  have none : (⟨0, 0, 0, 0, 0⟩ : Fe).Carried := by constructor <;> decide
  exact ⟨⟨unit, one⟩, ⟨none, zero⟩, ⟨hx, rfl⟩, ⟨unit, one⟩, ⟨Nat.two_pos, rfl⟩⟩

/-- The element that is written at the end is the function's value, and nothing overflows on the way. -/
theorem x25519_result (privateKey peerPublicKey : Bytes) (peer : peerPublicKey.length = 32)
    : ∃ last : Fe, last.Carried ∧ last.element = Curve25519.x25519 privateKey peerPublicKey ∧
        (x25519Write privateKey peerPublicKey).1 = feToBytes last ∧
        Checked.x25519 privateKey peerPublicKey = some (x25519Write privateKey peerPublicKey) := by
  have hx := feFromBytes_carried peerPublicKey
  have x1 : (feFromBytes peerPublicKey).element = Curve25519.decodeUCoordinate peerPublicKey := by
    rw [Fe.element, feFromBytes_number peer]
  obtain ⟨checks, ⟨bx2, ex2⟩, ⟨bz2, ez2⟩, ⟨bx3, ex3⟩, ⟨bz3, ez3⟩, bs, es⟩ :=
    @ladderLoop_represents _ (clampScalar privateKey) hx _ _ (start_represents hx) 255
  obtain ⟨bx, -, ex, -⟩ := feCswap_represents bx2 bx3 bs
  obtain ⟨bz, -, ez, -⟩ := feCswap_represents bz2 bz3 bs
  have inverse := feInv_computes bz
  have product := feMul_computes bx.loose inverse.bounded.loose
  have bytes := feToBytes_eq product.bounded
  refine ⟨_, product.bounded, ?_, rfl, ?_⟩
  · rw [product.element_eq, inverse.element_eq, ex, ez, ex2, ex3, ez2, ez3, es, x1]
    rfl
  · rw [Checked.x25519, bind_of_eq checks, bind_of_eq inverse.checks, bind_of_eq product.checks,
      bind_of_eq bytes.1]
    rfl

/-- For any two keys, the peer's of 32 bytes, no step overflows, the bytes written are those of the function's
least number, and the value returned is false exactly if the function is zero.
-/
theorem x25519_computes (privateKey peerPublicKey : Bytes) (peer : peerPublicKey.length = 32)
    : (x25519Write privateKey peerPublicKey).1 =
        Curve25519.encodeUCoordinate (Curve25519.x25519 privateKey peerPublicKey) ∧
      Curve25519.decodeLittleEndian (x25519Write privateKey peerPublicKey).1 < 2 ^ 255 - 19 ∧
      Checked.x25519 privateKey peerPublicKey = some (x25519Write privateKey peerPublicKey) ∧
      ((x25519Write privateKey peerPublicKey).2 = false ↔
        Curve25519.x25519 privateKey peerPublicKey = 0) := by
  obtain ⟨last, carried, element, written, checked⟩ := x25519_result privateKey peerPublicKey peer
  have below := ZMod.val_lt (Curve25519.x25519 privateKey peerPublicKey)
  have fits : (Curve25519.x25519 privateKey peerPublicKey).val < 256 ^ 32 :=
    below.trans (by decide)
  have bytes : (x25519Write privateKey peerPublicKey).1 =
      Curve25519.encodeUCoordinate (Curve25519.x25519 privateKey peerPublicKey) := by
    rw [written, (feToBytes_eq carried).2, Curve25519.encodeUCoordinate, ← element, Fe.element,
      ZMod.val_natCast]
  have returned : (x25519Write privateKey peerPublicKey).2 =
      ((x25519Write privateKey peerPublicKey).1.foldl (· ||| ·) 0 != 0) := rfl
  refine ⟨bytes, ?_, checked, ?_⟩
  · rw [bytes, Curve25519.encodeUCoordinate, Curve25519.decode_encode fits]
    exact below
  · rw [returned, bytes, Curve25519.encodeUCoordinate, bne_eq_false_iff_eq, collected_encode fits,
      ZMod.val_eq_zero]

/-- The base point, by its coordinate. -/
def basePoint : Bytes := 9 :: List.replicate 31 0

def samplePrivateKey : Bytes :=
  [0x77, 0x07, 0x6d, 0x0a, 0x73, 0x18, 0xa5, 0x7d, 0x3c, 0x16, 0xc1, 0x72, 0x51, 0xb2, 0x66, 0x45,
    0xdf, 0x4c, 0x2f, 0x87, 0xeb, 0xc0, 0x99, 0x2a, 0xb1, 0x77, 0xfb, 0xa5, 0x1d, 0xb9, 0x2c, 0x2a]

/-- The public key of a private key. -/
theorem x25519_computes_publicKey
    : (x25519Write samplePrivateKey basePoint).1 =
        Curve25519.encodeUCoordinate (Curve25519.x25519 samplePrivateKey basePoint) ∧
      Curve25519.decodeLittleEndian (x25519Write samplePrivateKey basePoint).1 < 2 ^ 255 - 19 ∧
      Checked.x25519 samplePrivateKey basePoint = some (x25519Write samplePrivateKey basePoint) ∧
      ((x25519Write samplePrivateKey basePoint).2 = false ↔
        Curve25519.x25519 samplePrivateKey basePoint = 0) :=
  x25519_computes samplePrivateKey basePoint rfl

end Creek.Tight.Crypto
