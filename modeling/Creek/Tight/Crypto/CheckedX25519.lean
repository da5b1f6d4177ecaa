import Creek.Tight.Crypto.X25519

/-! X25519 with every sum, difference and product checked against the width of its type. The definitions
follow the source once more; where one of theirs would wrap around or lose bits, the result is `none`.
-/

namespace Creek.Tight.Crypto

/-- `x25519` as the source has it: the bytes it writes, and what it returns. -/
def x25519Write (privateKey peerPublicKey : Bytes) : Bytes × Bool :=
  let e := clampScalar privateKey
  let x1 := feFromBytes peerPublicKey
  let start : Ladder :=
    { x2 := ⟨1, 0, 0, 0, 0⟩, z2 := ⟨0, 0, 0, 0, 0⟩, x3 := x1, z3 := ⟨1, 0, 0, 0, 0⟩, swap := 0 }
  let ladder := ladderLoop x1 e start 255
  let x2 := (feCswap ladder.x2 ladder.x3 ladder.swap).1
  let z2 := (feCswap ladder.z2 ladder.z3 ladder.swap).1
  let out := feToBytes (feMul x2 (feInv z2))
  (out, out.foldl (· ||| ·) 0 != 0)

namespace Checked

/-- A value, if it fits in so many bits. -/
def fits (width value : Nat) : Option Nat := if value < 2 ^ width then some value else none

/-- A sum of 64-bit values. -/
def add64 (a b : Nat) : Option Nat := fits 64 (a + b)

/-- A product of 64-bit values. -/
def mul64 (a b : Nat) : Option Nat := fits 64 (a * b)

/-- A difference that does not go below zero. -/
def sub64 (a b : Nat) : Option Nat := if b ≤ a then some (a - b) else none

/-- A sum of 128-bit values. -/
def add128 (a b : Nat) : Option Nat := fits 128 (a + b)

/-- A product of 128-bit values. -/
def mul128 (a b : Nat) : Option Nat := fits 128 (a * b)

def feAdd (f g : Fe) : Option Fe := do
  return ⟨← add64 f.l0 g.l0, ← add64 f.l1 g.l1, ← add64 f.l2 g.l2, ← add64 f.l3 g.l3,
    ← add64 f.l4 g.l4⟩

/-- One limb of `fe_sub`. -/
def subLimb (f bias g : Nat) : Option Nat := do sub64 (← add64 f bias) g

def feSub (f g : Fe) : Option Fe := do
  return ⟨← subLimb f.l0 0xFFFFFFFFFFFDA g.l0, ← subLimb f.l1 0xFFFFFFFFFFFFE g.l1,
    ← subLimb f.l2 0xFFFFFFFFFFFFE g.l2, ← subLimb f.l3 0xFFFFFFFFFFFFE g.l3,
    ← subLimb f.l4 0xFFFFFFFFFFFFE g.l4⟩

/-- The carry out of a 128-bit accumulator, as a 64-bit value. -/
def carryOut (accumulator : Nat) : Option Nat := fits 64 (accumulator >>> 51)

/-- The carry chain that ends both multiplications. -/
def feCarry (r0 r1 r2 r3 r4 : Nat) : Option Fe := do
  let r1 ← add128 r1 (← carryOut r0)
  let r2 ← add128 r2 (← carryOut r1)
  let r3 ← add128 r3 (← carryOut r2)
  let r4 ← add128 r4 (← carryOut r3)
  let r0 ← add128 (r0 &&& kMask51) (← mul64 19 (← carryOut r4))
  let r1 ← add128 (r1 &&& kMask51) (← carryOut r0)
  return ⟨← fits 64 (r0 &&& kMask51), ← fits 64 r1, ← fits 64 (r2 &&& kMask51),
    ← fits 64 (r3 &&& kMask51), ← fits 64 (r4 &&& kMask51)⟩

/-- A sum of products, from the left. -/
def dot : Nat → List (Nat × Nat) → Option Nat
  | sum, [] => some sum
  | sum, (a, b) :: rest => do dot (← add128 sum (← mul128 a b)) rest

/-- A sum of products, and nineteen times another. -/
def folded (low high : List (Nat × Nat)) : Option Nat := do
  add128 (← dot 0 low) (← mul128 19 (← dot 0 high))

def feMul (f g : Fe) : Option Fe := do
  feCarry
    (← folded [(f.l0, g.l0)] [(f.l1, g.l4), (f.l2, g.l3), (f.l3, g.l2), (f.l4, g.l1)])
    (← folded [(f.l0, g.l1), (f.l1, g.l0)] [(f.l2, g.l4), (f.l3, g.l3), (f.l4, g.l2)])
    (← folded [(f.l0, g.l2), (f.l1, g.l1), (f.l2, g.l0)] [(f.l3, g.l4), (f.l4, g.l3)])
    (← folded [(f.l0, g.l3), (f.l1, g.l2), (f.l2, g.l1), (f.l3, g.l0)] [(f.l4, g.l4)])
    (← dot 0 [(f.l0, g.l4), (f.l1, g.l3), (f.l2, g.l2), (f.l3, g.l1), (f.l4, g.l0)])

def feSq (f : Fe) : Option Fe := feMul f f

def feMulScalar (f : Fe) (s : Nat) : Option Fe := do
  feCarry (← mul128 f.l0 s) (← mul128 f.l1 s) (← mul128 f.l2 s) (← mul128 f.l3 s)
    (← mul128 f.l4 s)

def feSqN (f : Fe) : Nat → Option Fe
  | 0 => some f
  | n + 1 => do feSqN (← feSq f) n

/-- The addition chain for `z ^ (p - 2)`. -/
def feInv (z : Fe) : Option Fe := do
  let z2 ← feSq z
  let z8 ← feSqN z2 2
  let z9 ← feMul z z8
  let z11 ← feMul z2 z9
  let z22 ← feSq z11
  let z_5_0 ← feMul z9 z22
  let z_10_0 ← feMul (← feSqN z_5_0 5) z_5_0
  let z_20_0 ← feMul (← feSqN z_10_0 10) z_10_0
  let z_40_0 ← feMul (← feSqN z_20_0 20) z_20_0
  let z_50_0 ← feMul (← feSqN z_40_0 10) z_10_0
  let z_100_0 ← feMul (← feSqN z_50_0 50) z_50_0
  let z_200_0 ← feMul (← feSqN z_100_0 100) z_100_0
  let z_250_0 ← feMul (← feSqN z_200_0 50) z_50_0
  feMul (← feSqN z_250_0 5) z11

/-- The ladder iteration for scalar bit `t`. -/
def ladderStep (x1 : Fe) (e : Bytes) (ladder : Ladder) (t : Nat) : Option Ladder := do
  let kt := ((e.getD (t / 8) 0).toNat >>> (t % 8)) &&& 1
  let swap := ladder.swap ^^^ kt
  let (x2, x3) := feCswap ladder.x2 ladder.x3 swap
  let (z2, z3) := feCswap ladder.z2 ladder.z3 swap
  let a ← feAdd x2 z2
  let aa ← feSq a
  let b ← feSub x2 z2
  let bb ← feSq b
  let e2 ← feSub aa bb
  let c ← feAdd x3 z3
  let d ← feSub x3 z3
  let da ← feMul d a
  let cb ← feMul c b
  let daCb ← feAdd da cb
  let daCb2 ← feSub da cb
  return {
    x3 := ← feSq daCb
    z3 := ← feMul x1 (← feSq daCb2)
    x2 := ← feMul aa bb
    z2 := ← feMul e2 (← feAdd aa (← feMulScalar e2 121665))
    swap := kt
  }

/-- The iterations for bits `t - 1` down to `0`. -/
def ladderLoop (x1 : Fe) (e : Bytes) (ladder : Ladder) : Nat → Option Ladder
  | 0 => some ladder
  | t + 1 => do ladderLoop x1 e (← ladderStep x1 e ladder t) t

/-- One carry pass of `fe_tobytes`. -/
def feCarryPass (h : Fe) : Option Fe := do
  let h1 ← add64 h.l1 (h.l0 >>> 51)
  let h2 ← add64 h.l2 (h1 >>> 51)
  let h3 ← add64 h.l3 (h2 >>> 51)
  let h4 ← add64 h.l4 (h3 >>> 51)
  let h0 ← add64 (h.l0 &&& kMask51) (← mul64 19 (h4 >>> 51))
  return ⟨h0, h1 &&& kMask51, h2 &&& kMask51, h3 &&& kMask51, h4 &&& kMask51⟩

/-- A signed 64-bit value. -/
def signed64 (value : Int) : Option Int :=
  if -2 ^ 63 ≤ value ∧ value < 2 ^ 63 then some value else none

/-- One limb of `h - p` with borrow, in signed 64-bit arithmetic. -/
def feSubLimb (h p : Nat) (borrow : Int) : Option (Nat × Int) := do
  let t ← signed64 ((← signed64 ((← signed64 h) - (← signed64 p))) - borrow)
  return ((t % 2 ^ 64).toNat &&& kMask51, if t < 0 then 1 else 0)

/-- The conditional subtraction of `p`: `h` when `h < p`, else `h - p`. -/
def feReduce (h : Fe) : Option Fe := do
  let (m0, borrow) ← feSubLimb h.l0 (kMask51 - 18) 0
  let (m1, borrow) ← feSubLimb h.l1 kMask51 borrow
  let (m2, borrow) ← feSubLimb h.l2 kMask51 borrow
  let (m3, borrow) ← feSubLimb h.l3 kMask51 borrow
  let (m4, borrow) ← feSubLimb h.l4 kMask51 borrow
  return if borrow = 1 then h else ⟨m0, m1, m2, m3, m4⟩

/-- `fe_tobytes`; taking a byte of a limb drops the bits above it on purpose. -/
def feToBytes (f : Fe) : Option Bytes := do
  let h ← feCarryPass f
  let h ← feCarryPass h
  let h ← feCarryPass h
  let _ ← feReduce h
  return Crypto.feToBytes f

def x25519 (privateKey peerPublicKey : Bytes) : Option (Bytes × Bool) := do
  let e := clampScalar privateKey
  let x1 := feFromBytes peerPublicKey
  let start : Ladder :=
    { x2 := ⟨1, 0, 0, 0, 0⟩, z2 := ⟨0, 0, 0, 0, 0⟩, x3 := x1, z3 := ⟨1, 0, 0, 0, 0⟩, swap := 0 }
  let ladder ← ladderLoop x1 e start 255
  let x2 := (feCswap ladder.x2 ladder.x3 ladder.swap).1
  let z2 := (feCswap ladder.z2 ladder.z3 ladder.swap).1
  let out ← feToBytes (← feMul x2 (← feInv z2))
  return (out, out.foldl (· ||| ·) 0 != 0)

end Checked

end Creek.Tight.Crypto
