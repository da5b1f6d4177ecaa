import Creek.Tight.PacketCodec
import Mathlib

/-! The multi-byte field accessors invert each other.
Each conversion is described by where it moves the bits; the inverses follow.
-/

namespace Creek.Tight

-- Byte reversal

/-- Bit `i` of a reversed word comes from the mirrored byte. -/
theorem getLsbD_toBe32 (v : UInt32) {i : Nat} (bound : i < 32)
    : (toBe32 v).toBitVec.getLsbD i = v.toBitVec.getLsbD (8 * (3 - i / 8) + i % 8) := by
  simp only [toBe32, UInt32.toBitVec_or, UInt32.toBitVec_and, UInt32.toBitVec_shiftLeft,
    UInt32.toBitVec_shiftRight]
  interval_cases i <;> simp [-BitVec.getLsbD_eq_getElem]

@[simp] theorem toBe32_toBe32 (v : UInt32) : toBe32 (toBe32 v) = v := by
  apply UInt32.toBitVec_inj.mp
  apply BitVec.eq_of_getLsbD_eq
  intro i bound
  rw [getLsbD_toBe32 _ bound, getLsbD_toBe32 _ (by omega)]
  congr 1
  omega

@[inherit_doc getLsbD_toBe32]
theorem getLsbD_toBe16 (v : UInt16) {i : Nat} (bound : i < 16)
    : (toBe16 v).toBitVec.getLsbD i = v.toBitVec.getLsbD (8 * (1 - i / 8) + i % 8) := by
  simp only [toBe16, UInt16.toBitVec_or, UInt16.toBitVec_and, UInt16.toBitVec_shiftLeft,
    UInt16.toBitVec_shiftRight]
  interval_cases i <;> simp [-BitVec.getLsbD_eq_getElem]

@[inherit_doc toBe32_toBe32]
theorem toBe16_toBe16 (v : UInt16) : toBe16 (toBe16 v) = v := by
  apply UInt16.toBitVec_inj.mp
  apply BitVec.eq_of_getLsbD_eq
  intro i bound
  rw [getLsbD_toBe16 _ bound, getLsbD_toBe16 _ (by omega)]
  congr 1
  omega

-- Host loads and stores

theorem getLsbD_load32 (b0 b1 b2 b3 : UInt8) {i : Nat} (bound : i < 32)
    : (load32 b0 b1 b2 b3).toBitVec.getLsbD i
      = ([b0, b1, b2, b3].getD (i / 8) 0).toBitVec.getLsbD (i % 8) := by
  simp only [load32, UInt32.toBitVec_or, UInt32.toBitVec_shiftLeft, UInt8.toBitVec_toUInt32]
  interval_cases i <;> simp [-BitVec.getLsbD_eq_getElem]

theorem load32_store32 (v : UInt32)
    : load32 v.toUInt8 (v >>> 8).toUInt8 (v >>> 16).toUInt8 (v >>> 24).toUInt8 = v := by
  apply UInt32.toBitVec_inj.mp
  apply BitVec.eq_of_getLsbD_eq
  intro i bound
  rw [getLsbD_load32 _ _ _ _ bound]
  interval_cases i <;> simp [-BitVec.getLsbD_eq_getElem, UInt32.toBitVec_toUInt8]

theorem store32_load32 (b0 b1 b2 b3 : UInt8)
    : store32 (load32 b0 b1 b2 b3) = [b0, b1, b2, b3] := by
  simp only [store32, List.cons.injEq, and_true]
  refine ⟨?_, ?_, ?_, ?_⟩ <;>
    (apply UInt8.toBitVec_inj.mp
     apply BitVec.eq_of_getLsbD_eq
     intro i bound
     interval_cases i <;> simp [-BitVec.getLsbD_eq_getElem, load32])

@[inherit_doc getLsbD_load32]
theorem getLsbD_load16 (b0 b1 : UInt8) {i : Nat} (bound : i < 16)
    : (load16 b0 b1).toBitVec.getLsbD i
      = ([b0, b1].getD (i / 8) 0).toBitVec.getLsbD (i % 8) := by
  simp only [load16, UInt16.toBitVec_or, UInt16.toBitVec_shiftLeft, UInt8.toBitVec_toUInt16]
  interval_cases i <;> simp [-BitVec.getLsbD_eq_getElem]

@[inherit_doc load32_store32]
theorem load16_store16 (v : UInt16) : load16 v.toUInt8 (v >>> 8).toUInt8 = v := by
  apply UInt16.toBitVec_inj.mp
  apply BitVec.eq_of_getLsbD_eq
  intro i bound
  rw [getLsbD_load16 _ _ bound]
  interval_cases i <;> simp [-BitVec.getLsbD_eq_getElem, UInt16.toBitVec_toUInt8]

@[inherit_doc store32_load32]
theorem store16_load16 (b0 b1 : UInt8) : store16 (load16 b0 b1) = [b0, b1] := by
  simp only [store16, List.cons.injEq, and_true]
  refine ⟨?_, ?_⟩ <;>
    (apply UInt8.toBitVec_inj.mp
     apply BitVec.eq_of_getLsbD_eq
     intro i bound
     interval_cases i <;> simp [-BitVec.getLsbD_eq_getElem, load16])

-- Words of a 64-bit field

private theorem getLsbD_join (hi lo : UInt32) {i : Nat} (bound : i < 64)
    : (hi.toUInt64 <<< 32 ||| lo.toUInt64).toBitVec.getLsbD i
      = if i < 32 then lo.toBitVec.getLsbD i else hi.toBitVec.getLsbD (i - 32) := by
  simp only [UInt64.toBitVec_or, UInt64.toBitVec_shiftLeft, UInt32.toBitVec_toUInt64]
  by_cases low : i < 32
  · simp [-BitVec.getLsbD_eq_getElem, low, bound]
  · simp [-BitVec.getLsbD_eq_getElem, low, bound, show i - 32 < 64 by omega,
      BitVec.getLsbD_of_ge lo.toBitVec i (by omega)]

theorem toUInt32_join (hi lo : UInt32)
    : (hi.toUInt64 <<< 32 ||| lo.toUInt64).toUInt32 = lo := by
  apply UInt32.toBitVec_inj.mp
  apply BitVec.eq_of_getLsbD_eq
  intro i bound
  rw [UInt64.toBitVec_toUInt32, BitVec.getLsbD_setWidth, getLsbD_join _ _ (by omega)]
  simp only [bound, decide_true, Bool.true_and, if_true]

theorem toUInt32_join_shiftRight (hi lo : UInt32)
    : ((hi.toUInt64 <<< 32 ||| lo.toUInt64) >>> 32).toUInt32 = hi := by
  apply UInt32.toBitVec_inj.mp
  apply BitVec.eq_of_getLsbD_eq
  intro i bound
  have shifted (v : UInt64)
      : (v >>> 32).toBitVec.getLsbD i = v.toBitVec.getLsbD (32 + i) := by
    simp [-BitVec.getLsbD_eq_getElem, UInt64.toBitVec_shiftRight]
  rw [UInt64.toBitVec_toUInt32, BitVec.getLsbD_setWidth, shifted, getLsbD_join _ _ (by omega)]
  simp [-BitVec.getLsbD_eq_getElem, bound]

theorem join_toUInt32 (v : UInt64)
    : (v >>> 32).toUInt32.toUInt64 <<< 32 ||| v.toUInt32.toUInt64 = v := by
  apply UInt64.toBitVec_inj.mp
  apply BitVec.eq_of_getLsbD_eq
  intro i bound
  rw [getLsbD_join _ _ bound, UInt64.toBitVec_toUInt32, UInt64.toBitVec_toUInt32,
    BitVec.getLsbD_setWidth, BitVec.getLsbD_setWidth]
  by_cases low : i < 32
  · simp [-BitVec.getLsbD_eq_getElem, low]
  · have back : 32 + (i - 32) = i := by omega
    simp [-BitVec.getLsbD_eq_getElem, UInt64.toBitVec_shiftRight, low, back,
      show i - 32 < 32 by omega]

-- Fields in a byte string

/-- A 64-bit field is written as its low word followed by its high word. -/
theorem put64_eq (v : UInt64) : put64 v = put32 v.toUInt32 ++ put32 (v >>> 32).toUInt32 := by
  simp only [put64, store64, toBe64, toUInt32_join, toUInt32_join_shiftRight, put32]

theorem get32_put32 (v : UInt32)
    : toBe32
        (load32 (toBe32 v).toUInt8 (toBe32 v >>> 8).toUInt8 (toBe32 v >>> 16).toUInt8
          (toBe32 v >>> 24).toUInt8)
      = v := by
  rw [load32_store32, toBe32_toBe32]

theorem get16_put16 (v : UInt16)
    : toBe16 (load16 (toBe16 v).toUInt8 (toBe16 v >>> 8).toUInt8) = v := by
  rw [load16_store16, toBe16_toBe16]

private theorem take_drop_eq (p : Bytes) (off n : Nat) (bound : off + n ≤ p.length)
    : (p.drop off).take n = (List.range n).map fun i => p.getD (off + i) 0 := by
  apply List.ext_getElem
  · simp only [List.length_take, List.length_drop, List.length_map, List.length_range]
    omega
  · intro i inLeft inRight
    simp only [List.length_map, List.length_range] at inRight
    simp [List.getD_eq_getElem?_getD, show off + i < p.length by omega]

theorem put32_get32 {p : Bytes} {off : Nat} (bound : off + 4 ≤ p.length)
    : put32 (get32 p off) = (p.drop off).take 4 := by
  rw [put32, get32, toBe32_toBe32, store32_load32, take_drop_eq p off 4 bound]
  rfl

theorem put16_get16 {p : Bytes} {off : Nat} (bound : off + 2 ≤ p.length)
    : put16 (get16 p off) = (p.drop off).take 2 := by
  rw [put16, get16, toBe16_toBe16, store16_load16, take_drop_eq p off 2 bound]
  rfl

theorem put64_get64 {p : Bytes} {off : Nat} (bound : off + 8 ≤ p.length)
    : put64 (get64 p off) = (p.drop off).take 8 := by
  rw [put64_eq, get64, toUInt32_join, toUInt32_join_shiftRight,
    put32_get32 (by omega), put32_get32 (by omega), take_drop_eq p off 4 (by omega),
    take_drop_eq p (off + 4) 4 (by omega), take_drop_eq p off 8 bound]
  rfl

theorem getD_eq_take_drop {p : Bytes} {off : Nat} (bound : off + 1 ≤ p.length)
    : [p.getD off 0] = (p.drop off).take 1 := by
  rw [take_drop_eq p off 1 bound]
  rfl

/-- The nonzero-offset decomposition that reads consecutive slices off a string. -/
theorem take_add_drop (p : Bytes) (off n : Nat)
    : p.take off ++ (p.drop off).take n = p.take (off + n) := by
  rw [List.take_add]

end Creek.Tight
