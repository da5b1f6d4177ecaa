import Mathlib

/-! The X25519 function of RFC 7748, over the integers modulo 2^255 - 19.
Numbers are bytes with the least first. The ladder takes the bits of the scalar from the top, and
exchanges its two points whenever two bits in a row differ.
-/

namespace Creek.Library.Curve25519

/-- The modulus. -/
def prime : Nat := 2 ^ 255 - 19

/-- The number that bytes stand for, the least byte first. -/
def decodeLittleEndian : List UInt8 → Nat
  | [] => 0
  | byte :: rest => byte.toNat + 256 * decodeLittleEndian rest

/-- The bytes of a number that fits in `n` of them, the least byte first. -/
def encodeLittleEndian (n value : Nat) : List UInt8 :=
  (List.range n).map fun i => UInt8.ofNat (value / 256 ^ i)

/-- A scalar: three bits at the bottom are cleared, and of the two at the top the lower one is set. -/
def decodeScalar (k : List UInt8) : Nat :=
  decodeLittleEndian
    ((k.modify 0 fun byte => byte &&& 248).modify 31 fun byte => (byte &&& 127) ||| 64)

/-- A coordinate: the bit at the top is ignored, and a number above the modulus is taken as it is. -/
def decodeUCoordinate (u : List UInt8) : Nat :=
  decodeLittleEndian (u.modify 31 fun byte => byte &&& 127)

/-- A coordinate by its least number. -/
def encodeUCoordinate (u : ZMod prime) : List UInt8 := encodeLittleEndian 32 u.val

section

variable {R : Type*} [CommRing R]

/-- The constant of the curve in the ladder. -/
def a24 : Nat := 121665

/-- The two points of the ladder, and whether they stand exchanged. -/
structure Ladder (R : Type*) where
  x2 : R
  z2 : R
  x3 : R
  z3 : R
  swap : Nat

/-- Exchanges two values if `swap` is one. -/
def cswap (swap : Nat) (x y : R) : R × R := if swap = 1 then (y, x) else (x, y)

/-- The step for bit `t` of the scalar. -/
def ladderStep (x1 : R) (k : Nat) (ladder : Ladder R) (t : Nat) : Ladder R :=
  let kt := k >>> t &&& 1
  let swap := ladder.swap ^^^ kt
  let (x2, x3) := cswap swap ladder.x2 ladder.x3
  let (z2, z3) := cswap swap ladder.z2 ladder.z3
  let a := x2 + z2
  let aa := a ^ 2
  let b := x2 - z2
  let bb := b ^ 2
  let e := aa - bb
  let c := x3 + z3
  let d := x3 - z3
  let da := d * a
  let cb := c * b
  {
    x3 := (da + cb) ^ 2
    z3 := x1 * (da - cb) ^ 2
    x2 := aa * bb
    z2 := e * (aa + a24 * e)
    swap := kt
  }

/-- The steps for the bits from `t - 1` down to the last. -/
def ladderLoop (x1 : R) (k : Nat) (ladder : Ladder R) : Nat → Ladder R
  | 0 => ladder
  | t + 1 => ladderLoop x1 k (ladderStep x1 k ladder t) t

end

/-- The X25519 function of a scalar and a coordinate. -/
def x25519 (k u : List UInt8) : ZMod prime :=
  let x1 : ZMod prime := decodeUCoordinate u
  let last := ladderLoop x1 (decodeScalar k) { x2 := 1, z2 := 0, x3 := x1, z3 := 1, swap := 0 } 255
  (cswap last.swap last.x2 last.x3).1 * (cswap last.swap last.z2 last.z3).1 ^ (prime - 2)

-- Numbers and bytes

/-- The digits of a number in base 256 are its bytes. -/
theorem decode_digit (bytes : List UInt8) (i : Nat)
    : decodeLittleEndian bytes / 256 ^ i % 256 = (bytes.getD i 0).toNat := by
  induction bytes generalizing i with
  | nil => simp [decodeLittleEndian]
  | cons byte rest ih =>
      have small := byte.toNat_lt
      cases i with
      | zero =>
          rw [decodeLittleEndian, pow_zero, Nat.div_one, List.getD_cons_zero]
          omega
      | succ i =>
          rw [decodeLittleEndian, pow_succ', ← Nat.div_div_eq_div_mul, List.getD_cons_succ, ← ih]
          congr 2
          omega

/-- A number has no more bytes than it is written with. -/
theorem decode_lt (bytes : List UInt8) : decodeLittleEndian bytes < 256 ^ bytes.length := by
  induction bytes with
  | nil => exact Nat.one_pos
  | cons byte rest ih =>
      have small := byte.toNat_lt
      rw [decodeLittleEndian, List.length_cons, pow_succ']
      omega

/-- A byte that is replaced counts at its place. -/
theorem decode_modify {bytes : List UInt8} {i : Nat} (change : UInt8 → UInt8) (inside : i < bytes.length)
    : decodeLittleEndian (bytes.modify i change) + 256 ^ i * (bytes.getD i 0).toNat =
      decodeLittleEndian bytes + 256 ^ i * (change (bytes.getD i 0)).toNat := by
  induction bytes generalizing i with
  | nil => exact absurd inside (Nat.not_lt_zero i)
  | cons byte rest ih =>
      cases i with
      | zero =>
          rw [List.modify_zero_cons, decodeLittleEndian, decodeLittleEndian, pow_zero,
            List.getD_cons_zero]
          omega
      | succ i =>
          have below := ih (Nat.lt_of_succ_lt_succ inside)
          rw [List.modify_succ_cons, decodeLittleEndian, decodeLittleEndian, List.getD_cons_succ,
            pow_succ', Nat.mul_assoc, Nat.mul_assoc]
          omega

/-- What is encoded decodes to itself. -/
theorem decode_encode {n value : Nat} (fits : value < 256 ^ n)
    : decodeLittleEndian (encodeLittleEndian n value) = value := by
  induction n generalizing value with
  | zero =>
      rw [pow_zero, Nat.lt_one_iff] at fits
      rw [fits]
      rfl
  | succ n ih =>
      have rest : value / 256 < 256 ^ n := by
        rw [pow_succ] at fits
        exact Nat.div_lt_of_lt_mul (by rwa [Nat.mul_comm] at fits)
      have split : encodeLittleEndian (n + 1) value =
          UInt8.ofNat value :: encodeLittleEndian n (value / 256) := by
        rw [encodeLittleEndian, List.range_succ_eq_map, List.map_cons, List.map_map, pow_zero,
          Nat.div_one]
        refine congrArg _ (List.map_congr_left fun i _ => ?_)
        rw [Function.comp, Nat.div_div_eq_div_mul, ← pow_succ']
      rw [split, decodeLittleEndian, ih rest, UInt8.toNat_ofNat']
      omega

end Creek.Library.Curve25519
