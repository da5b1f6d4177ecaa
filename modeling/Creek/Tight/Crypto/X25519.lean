import Creek.Tight.Types

/-! X25519 over five 51-bit limbs, with the 64-bit and 128-bit wrap-around of the source. -/

namespace Creek.Tight.Crypto

/-- Wrap-around of a 128-bit unsigned value. -/
def u128 (value : Nat) : Nat := value % 2 ^ 128

/-- A field element of GF(2^255 - 19) as five limbs of a 64-bit array. -/
structure Fe where
  l0 : Nat
  l1 : Nat
  l2 : Nat
  l3 : Nat
  l4 : Nat
  deriving DecidableEq, Repr

def kMask51 : Nat := 2 ^ 51 - 1

/-- The little-endian 64-bit word at offset `off`. -/
def loadLe64 (s : Bytes) (off : Nat) : Nat :=
  (List.range 8).foldl (fun v i => v ||| (s.getD (off + i) 0).toNat <<< (i * 8)) 0

/-- The top bit, bit 255, is ignored. -/
def feFromBytes (s : Bytes) : Fe where
  l0 := loadLe64 s 0 &&& kMask51
  l1 := (loadLe64 s 6 >>> 3) &&& kMask51
  l2 := (loadLe64 s 12 >>> 6) &&& kMask51
  l3 := (loadLe64 s 19 >>> 1) &&& kMask51
  l4 := (loadLe64 s 24 >>> 12) &&& kMask51

/-- One carry pass of `fe_tobytes`. -/
def feCarryPass (h : Fe) : Fe :=
  let h1 := u64 (h.l1 + h.l0 >>> 51)
  let h2 := u64 (h.l2 + h1 >>> 51)
  let h3 := u64 (h.l3 + h2 >>> 51)
  let h4 := u64 (h.l4 + h3 >>> 51)
  let h0 := u64 ((h.l0 &&& kMask51) + u64 (19 * (h4 >>> 51)))
  ⟨h0, h1 &&& kMask51, h2 &&& kMask51, h3 &&& kMask51, h4 &&& kMask51⟩

/-- One limb of `h - p` with borrow: the masked difference and the borrow out. -/
def feSubLimb (h p : Nat) (borrow : Int) : Nat × Int :=
  let t : Int := (h : Int) - (p : Int) - borrow
  ((t % 2 ^ 64).toNat &&& kMask51, if t < 0 then 1 else 0)

/-- The conditional subtraction of `p`: `h` when `h < p`, else `h - p`. -/
def feReduce (h : Fe) : Fe :=
  let (m0, borrow) := feSubLimb h.l0 (kMask51 - 18) 0
  let (m1, borrow) := feSubLimb h.l1 kMask51 borrow
  let (m2, borrow) := feSubLimb h.l2 kMask51 borrow
  let (m3, borrow) := feSubLimb h.l3 kMask51 borrow
  let (m4, borrow) := feSubLimb h.l4 kMask51 borrow
  if borrow = 1 then h else ⟨m0, m1, m2, m3, m4⟩

def feToBytes (f : Fe) : Bytes :=
  let out := feReduce (feCarryPass (feCarryPass (feCarryPass f)))
  [
    out.l0, out.l0 >>> 8, out.l0 >>> 16, out.l0 >>> 24, out.l0 >>> 32, out.l0 >>> 40,
    (out.l0 >>> 48) ||| (out.l1 <<< 3),
    out.l1 >>> 5, out.l1 >>> 13, out.l1 >>> 21, out.l1 >>> 29, out.l1 >>> 37,
    (out.l1 >>> 45) ||| (out.l2 <<< 6),
    out.l2 >>> 2, out.l2 >>> 10, out.l2 >>> 18, out.l2 >>> 26, out.l2 >>> 34,
    out.l2 >>> 42, (out.l2 >>> 50) ||| (out.l3 <<< 1),
    out.l3 >>> 7, out.l3 >>> 15, out.l3 >>> 23, out.l3 >>> 31, out.l3 >>> 39,
    (out.l3 >>> 47) ||| (out.l4 <<< 4),
    out.l4 >>> 4, out.l4 >>> 12, out.l4 >>> 20, out.l4 >>> 28, out.l4 >>> 36,
    out.l4 >>> 44
  ].map UInt8.ofNat

def feAdd (f g : Fe) : Fe :=
  ⟨u64 (f.l0 + g.l0), u64 (f.l1 + g.l1), u64 (f.l2 + g.l2), u64 (f.l3 + g.l3),
    u64 (f.l4 + g.l4)⟩

/-- A 64-bit difference with wrap-around. -/
def subU64 (a b : Nat) : Nat := u64 (a + 2 ^ 64 - u64 b)

/-- Adds `2p` limb by limb before subtracting. -/
def feSub (f g : Fe) : Fe :=
  ⟨subU64 (f.l0 + 0xFFFFFFFFFFFDA) g.l0, subU64 (f.l1 + 0xFFFFFFFFFFFFE) g.l1,
    subU64 (f.l2 + 0xFFFFFFFFFFFFE) g.l2, subU64 (f.l3 + 0xFFFFFFFFFFFFE) g.l3,
    subU64 (f.l4 + 0xFFFFFFFFFFFFE) g.l4⟩

/-- The carry chain that ends both multiplications. -/
def feCarry (r0 r1 r2 r3 r4 : Nat) : Fe :=
  let r1 := u128 (r1 + u64 (r0 >>> 51))
  let r2 := u128 (r2 + u64 (r1 >>> 51))
  let r3 := u128 (r3 + u64 (r2 >>> 51))
  let r4 := u128 (r4 + u64 (r3 >>> 51))
  let r0 := u128 ((r0 &&& kMask51) + u64 (19 * u64 (r4 >>> 51)))
  let r1 := u128 ((r1 &&& kMask51) + u64 (r0 >>> 51))
  ⟨u64 (r0 &&& kMask51), u64 r1, u64 (r2 &&& kMask51), u64 (r3 &&& kMask51),
    u64 (r4 &&& kMask51)⟩

def feMul (f g : Fe) : Fe :=
  feCarry
    (u128 (f.l0 * g.l0 + 19 * (f.l1 * g.l4 + f.l2 * g.l3 + f.l3 * g.l2 + f.l4 * g.l1)))
    (u128 (f.l0 * g.l1 + f.l1 * g.l0 + 19 * (f.l2 * g.l4 + f.l3 * g.l3 + f.l4 * g.l2)))
    (u128 (f.l0 * g.l2 + f.l1 * g.l1 + f.l2 * g.l0 + 19 * (f.l3 * g.l4 + f.l4 * g.l3)))
    (u128 (f.l0 * g.l3 + f.l1 * g.l2 + f.l2 * g.l1 + f.l3 * g.l0 + 19 * (f.l4 * g.l4)))
    (u128 (f.l0 * g.l4 + f.l1 * g.l3 + f.l2 * g.l2 + f.l3 * g.l1 + f.l4 * g.l0))

def feSq (f : Fe) : Fe := feMul f f

def feMulScalar (f : Fe) (s : Nat) : Fe :=
  feCarry (u128 (f.l0 * s)) (u128 (f.l1 * s)) (u128 (f.l2 * s)) (u128 (f.l3 * s))
    (u128 (f.l4 * s))

def feSqN (f : Fe) : Nat → Fe
  | 0 => f
  | n + 1 => feSqN (feSq f) n

/-- The addition chain for `z ^ (p - 2)`. -/
def feInv (z : Fe) : Fe :=
  let z2 := feSq z
  let z8 := feSqN z2 2
  let z9 := feMul z z8
  let z11 := feMul z2 z9
  let z22 := feSq z11
  let z_5_0 := feMul z9 z22
  let z_10_0 := feMul (feSqN z_5_0 5) z_5_0
  let z_20_0 := feMul (feSqN z_10_0 10) z_10_0
  let z_40_0 := feMul (feSqN z_20_0 20) z_20_0
  let z_50_0 := feMul (feSqN z_40_0 10) z_10_0
  let z_100_0 := feMul (feSqN z_50_0 50) z_50_0
  let z_200_0 := feMul (feSqN z_100_0 100) z_100_0
  let z_250_0 := feMul (feSqN z_200_0 50) z_50_0
  feMul (feSqN z_250_0 5) z11

/-- The masked exchange; `swap` is 0 or 1. -/
def feCswap (f g : Fe) (swap : Nat) : Fe × Fe :=
  let mask := subU64 0 swap
  let t0 := mask &&& (f.l0 ^^^ g.l0)
  let t1 := mask &&& (f.l1 ^^^ g.l1)
  let t2 := mask &&& (f.l2 ^^^ g.l2)
  let t3 := mask &&& (f.l3 ^^^ g.l3)
  let t4 := mask &&& (f.l4 ^^^ g.l4)
  (⟨f.l0 ^^^ t0, f.l1 ^^^ t1, f.l2 ^^^ t2, f.l3 ^^^ t3, f.l4 ^^^ t4⟩,
    ⟨g.l0 ^^^ t0, g.l1 ^^^ t1, g.l2 ^^^ t2, g.l3 ^^^ t3, g.l4 ^^^ t4⟩)

/-- The variables of the Montgomery ladder. -/
structure Ladder where
  x2 : Fe
  z2 : Fe
  x3 : Fe
  z3 : Fe
  swap : Nat
  deriving DecidableEq, Repr

/-- The ladder iteration for scalar bit `t`. -/
def ladderStep (x1 : Fe) (e : Bytes) (ladder : Ladder) (t : Nat) : Ladder :=
  let kt := ((e.getD (t / 8) 0).toNat >>> (t % 8)) &&& 1
  let swap := ladder.swap ^^^ kt
  let (x2, x3) := feCswap ladder.x2 ladder.x3 swap
  let (z2, z3) := feCswap ladder.z2 ladder.z3 swap
  let a := feAdd x2 z2
  let aa := feSq a
  let b := feSub x2 z2
  let bb := feSq b
  let e2 := feSub aa bb
  let c := feAdd x3 z3
  let d := feSub x3 z3
  let da := feMul d a
  let cb := feMul c b
  let daCb := feAdd da cb
  let daCb2 := feSub da cb
  {
    x3 := feSq daCb
    z3 := feMul x1 (feSq daCb2)
    x2 := feMul aa bb
    z2 := feMul e2 (feAdd aa (feMulScalar e2 121665))
    swap := kt
  }

/-- The iterations for bits `t - 1` down to `0`. -/
def ladderLoop (x1 : Fe) (e : Bytes) (ladder : Ladder) : Nat → Ladder
  | 0 => ladder
  | t + 1 => ladderLoop x1 e (ladderStep x1 e ladder t) t

/-- The clamped scalar. -/
def clampScalar (privateKey : Bytes) : Bytes :=
  (privateKey.modify 0 (· &&& 248)).modify 31 (fun b => (b &&& 127) ||| 64)

/-- The shared secret, or `none` where the source returns `false`: an all-zero result. -/
def x25519 (privateKey peerPublicKey : Bytes) : Option Bytes :=
  let e := clampScalar privateKey
  let x1 := feFromBytes peerPublicKey
  let start : Ladder :=
    { x2 := ⟨1, 0, 0, 0, 0⟩, z2 := ⟨0, 0, 0, 0, 0⟩, x3 := x1, z3 := ⟨1, 0, 0, 0, 0⟩, swap := 0 }
  let ladder := ladderLoop x1 e start 255
  let x2 := (feCswap ladder.x2 ladder.x3 ladder.swap).1
  let z2 := (feCswap ladder.z2 ladder.z3 ladder.swap).1
  let out := feToBytes (feMul x2 (feInv z2))
  if out.foldl (· ||| ·) 0 ≠ 0 then some out else none

/-- An end's key pair: random private bytes and the public key computed from base point 9,
which `x25519_generate` fills in. The transport takes any pair as given.
-/
structure X25519KeyPair where
  privateKey : Bytes
  publicKey : Bytes
  deriving DecidableEq, Repr

end Creek.Tight.Crypto
