import Creek.Tight.Fec
import Mathlib

/-! The table arithmetic of the erasure code is the field GF(2^8).
Multiplication by a nonzero byte is a power of the doubling map, which is additive; the
exponent and logarithm tables give the remaining laws.
-/

namespace Creek.Tight

-- The tables invert each other

theorem length_gfPowers : gfPowers.length = 255 := List.length_iterate _ _ _

theorem length_gfExpTable : gfExpTable.length = 512 := by
  simp [gfExpTable, length_gfPowers]

theorem testBit_foldl_or (list : List Nat) (start k : Nat)
    : (list.foldl (fun mask bit => mask ||| 2 ^ bit) start).testBit k
      = (start.testBit k || decide (k ∈ list)) := by
  induction list generalizing start with
  | nil => simp
  | cons head rest ih =>
      rw [List.foldl_cons, ih, Nat.testBit_or, Nat.testBit_two_pow, Bool.or_assoc]
      simp [eq_comm, Bool.decide_or]

/-- The powers of the generator set all bits but the lowest one of 256. -/
theorem gfPowers_mask
    : (0 :: gfPowers.map UInt16.toNat).foldl (fun mask bit => mask ||| 2 ^ bit) 0 = 2 ^ 256 - 1 := by
  decide +kernel

theorem mem_gfPowers {k : Nat} : k = 0 ∨ k ∈ gfPowers.map UInt16.toNat ↔ k < 256 := by
  have bits := congrArg (Nat.testBit · k) gfPowers_mask
  simp only [testBit_foldl_or, Nat.testBit_two_pow_sub_one, Nat.zero_testBit, Bool.false_or] at bits
  rw [← List.mem_cons]
  exact decide_eq_decide.mp bits

/-- There are as many powers as nonzero bytes, so none occurs twice. -/
theorem nodup_gfPowers : (gfPowers.map UInt16.toNat).Nodup := by
  have covers : Finset.Ioo 0 256 ⊆ (gfPowers.map UInt16.toNat).toFinset := by
    intro k inRange
    obtain ⟨positive, small⟩ := Finset.mem_Ioo.mp inRange
    exact List.mem_toFinset.mpr ((mem_gfPowers.mpr small).resolve_left (Nat.ne_of_gt positive))
  have many := Finset.card_le_card covers
  have few := List.toFinset_card_le (gfPowers.map UInt16.toNat)
  have length : (gfPowers.map UInt16.toNat).length = 255 := by
    rw [List.length_map, length_gfPowers]
  refine Multiset.coe_nodup.mp (Multiset.toFinset_card_eq_card_iff_nodup.mp ?_)
  rw [Nat.card_Ioo] at many
  show (gfPowers.map UInt16.toNat).toFinset.card = (gfPowers.map UInt16.toNat).length
  omega

theorem gfPowers_nonzero : (gfPowers.map UInt16.toNat).all (· ≠ 0) := by
  decide +kernel

theorem gfExp_power {n : Nat} (bound : n < gfPowers.length)
    : gfExp n = gfPowers[n].toUInt8 ∧ (gfExp n).toNat = gfPowers[n].toNat := by
  have small := mem_gfPowers.mp (.inr (List.mem_map_of_mem (List.getElem_mem bound)))
  have entry : gfExp n = gfPowers[n].toUInt8 := by
    simp [gfExp, gfExpTable, List.getD_eq_getElem?_getD, List.getElem?_append, bound]
  refine ⟨entry, ?_⟩
  rw [entry, UInt16.toNat_toUInt8]
  exact Nat.mod_eq_of_lt small

/-- An entry of the second half equals the entry 255 places before it. -/
theorem gfExp_add_period {n : Nat} (bound : n < 257) : gfExp (255 + n) = gfExp n := by
  have length : (gfPowers.map UInt16.toUInt8).length = 255 := by
    rw [List.length_map, length_gfPowers]
  simp only [gfExp, gfExpTable, List.getD_eq_getElem?_getD, List.append_assoc]
  rw [List.getElem?_append_right (by omega), length, Nat.add_sub_cancel_left]
  by_cases first : n < 255
  · rw [List.getElem?_append_left (by omega), List.getElem?_append_left (by omega)]
  · have rest : n - 255 < 2 := by omega
    rw [List.getElem?_append_right (by omega), List.getElem?_append_right (by omega), length,
      List.getElem?_append_left (by omega), List.getElem?_take_of_lt rest]

theorem gfExp_mod {n : Nat} (bound : n < 512) : gfExp n = gfExp (n % 255) := by
  by_cases first : n < 255
  · rw [Nat.mod_eq_of_lt first]
  obtain ⟨k, rfl⟩ := Nat.exists_eq_add_of_le (Nat.le_of_not_lt first)
  rw [gfExp_add_period (by omega), Nat.add_mod_left]
  by_cases second : k < 255
  · rw [Nat.mod_eq_of_lt second]
  · obtain ⟨j, rfl⟩ := Nat.exists_eq_add_of_le (Nat.le_of_not_lt second)
    rw [gfExp_add_period (by omega), Nat.add_mod_left, Nat.mod_eq_of_lt (by omega)]

theorem gfExp_ne_zero {n : Nat} (bound : n < 512) : gfExp n ≠ 0 := by
  rw [gfExp_mod bound]
  have stored : n % 255 < gfPowers.length := by rw [length_gfPowers]; exact Nat.mod_lt _ (by decide)
  have member : gfPowers[n % 255].toNat ∈ gfPowers.map UInt16.toNat :=
    List.mem_map_of_mem (List.getElem_mem stored)
  have entry := List.all_eq_true.mp gfPowers_nonzero _ member
  intro zero
  rw [← (gfExp_power stored).2, zero] at entry
  cases entry

/-- What a table holds after entries with different places have been set. -/
theorem getD_foldl_set {entries : List (UInt16 × Nat)} {table : List UInt8}
    (distinct : (entries.map fun entry => entry.1.toNat).Nodup) {entry : UInt16 × Nat}
    (member : entry ∈ entries) (bound : entry.1.toNat < table.length)
    : (entries.foldl (fun table entry => table.set entry.1.toNat (UInt8.ofNat entry.2)) table).getD
        entry.1.toNat 0
      = UInt8.ofNat entry.2 := by
  have untouched (entries : List (UInt16 × Nat)) (table : List UInt8) (place : Nat)
      (other : place ∉ entries.map fun entry => entry.1.toNat)
      : (entries.foldl (fun table entry => table.set entry.1.toNat (UInt8.ofNat entry.2)) table).getD
          place 0
        = table.getD place 0 := by
    induction entries generalizing table with
    | nil => rfl
    | cons head rest ih =>
        rw [List.map_cons, List.mem_cons, not_or] at other
        rw [List.foldl_cons, ih _ other.2, List.getD_eq_getElem?_getD, List.getD_eq_getElem?_getD,
          List.getElem?_set_ne (Ne.symm other.1)]
  induction entries generalizing table with
  | nil => cases member
  | cons head rest ih =>
      obtain ⟨fresh, distinct⟩ := List.nodup_cons.mp distinct
      rw [List.foldl_cons]
      rcases List.mem_cons.mp member with rfl | member
      · rw [untouched _ _ _ fresh, List.getD_eq_getElem?_getD, List.getElem?_set_self bound]
        rfl
      · exact ih distinct member (by rw [List.length_set]; exact bound)

theorem gfLog_power {n : Nat} (bound : n < 255) : gfLog (gfExp n) = n := by
  have stored : n < gfPowers.length := by rw [length_gfPowers]; exact bound
  have small := mem_gfPowers.mp (.inr (List.mem_map_of_mem (List.getElem_mem stored)))
  have places : (gfPowers.zip (List.range 255)).map (fun entry => entry.1.toNat)
      = gfPowers.map UInt16.toNat := by
    have firsts : (gfPowers.zip (List.range 255)).map Prod.fst = gfPowers :=
      List.map_fst_zip (by rw [length_gfPowers, List.length_range])
    conv_rhs => rw [← firsts, List.map_map]
    rfl
  have member : (gfPowers[n], n) ∈ gfPowers.zip (List.range 255) := by
    refine List.mem_iff_getElem?.mpr ⟨n, ?_⟩
    simp [stored, bound]
  have distinct : ((gfPowers.zip (List.range 255)).map fun entry => entry.1.toNat).Nodup := by
    rw [places]
    exact nodup_gfPowers
  have room : gfPowers[n].toNat < (List.replicate 256 (0 : UInt8)).length := by
    rw [List.length_replicate]
    exact small
  have held := getD_foldl_set distinct member room
  rw [gfLog, (gfExp_power stored).2, gfLogTable, held, UInt8.toNat_ofNat']
  exact Nat.mod_eq_of_lt (by omega)

/-- Logarithms of table entries are their indices modulo 255. -/
theorem gfLog_gfExp {n : Nat} (bound : n < 512) : gfLog (gfExp n) = n % 255 := by
  rw [gfExp_mod bound]
  exact gfLog_power (Nat.mod_lt _ (by decide))

theorem gfExp_gfLog {a : UInt8} (nonzero : a ≠ 0) : gfExp (gfLog a) = a := by
  have apart : a.toNat ≠ 0 := fun zero => nonzero (UInt8.toNat_inj.mp zero)
  have power := (mem_gfPowers.mpr a.toNat_lt).resolve_left apart
  obtain ⟨power, member, same⟩ := List.mem_map.mp power
  obtain ⟨n, stored, rfl⟩ := List.getElem_of_mem member
  have entry : gfExp n = a := by
    rw [← UInt8.toNat_inj, (gfExp_power stored).2, same]
  rw [← entry, gfLog_power (length_gfPowers ▸ stored)]

theorem gfLog_one : gfLog 1 = 0 := by
  have first : gfExp 0 = 1 := by decide +kernel
  rw [← first]
  exact gfLog_power (by decide)

theorem gfLog_lt {a : UInt8} (nonzero : a ≠ 0) : gfLog a < 255 := by
  have small : gfLog a < 512 := by
    have bound := (gfLogTable.getD a.toNat 0).toNat_lt
    rw [gfLog]
    omega
  have log := gfLog_gfExp small
  rw [gfExp_gfLog nonzero] at log
  omega

theorem gfMul_ne_zero {a b : UInt8} (ha : a ≠ 0) (hb : b ≠ 0) : gfMul a b ≠ 0 := by
  have la := gfLog_lt ha
  have lb := gfLog_lt hb
  simp only [gfMul, ha, hb, or_self, if_false]
  exact gfExp_ne_zero (by omega)

theorem gfLog_gfMul {a b : UInt8} (ha : a ≠ 0) (hb : b ≠ 0)
    : gfLog (gfMul a b) = (gfLog a + gfLog b) % 255 := by
  have la := gfLog_lt ha
  have lb := gfLog_lt hb
  simp only [gfMul, ha, hb, or_self, if_false]
  exact gfLog_gfExp (by omega)

theorem eq_of_gfLog {a b : UInt8} (ha : a ≠ 0) (hb : b ≠ 0) (same : gfLog a = gfLog b)
    : a = b := by
  rw [← gfExp_gfLog ha, same, gfExp_gfLog hb]

-- Multiplicative laws

@[simp] theorem gfMul_zero (a : UInt8) : gfMul a 0 = 0 := by simp [gfMul]

@[simp] theorem zero_gfMul (a : UInt8) : gfMul 0 a = 0 := by simp [gfMul]

theorem gfMul_comm (a b : UInt8) : gfMul a b = gfMul b a := by
  simp only [gfMul, Or.comm, Nat.add_comm]

@[simp] theorem one_gfMul (a : UInt8) : gfMul 1 a = a := by
  by_cases zero : a = 0
  · simp [zero]
  · have unit : gfLog 1 = 0 := by decide +kernel
    simp [gfMul, zero, unit, gfExp_gfLog zero]

theorem gfMul_assoc (a b c : UInt8) : gfMul (gfMul a b) c = gfMul a (gfMul b c) := by
  by_cases ha : a = 0
  · simp [ha]
  by_cases hb : b = 0
  · simp [hb]
  by_cases hc : c = 0
  · simp [hc]
  have hab := gfMul_ne_zero ha hb
  have hbc := gfMul_ne_zero hb hc
  apply eq_of_gfLog (gfMul_ne_zero hab hc) (gfMul_ne_zero ha hbc)
  rw [gfLog_gfMul hab hc, gfLog_gfMul ha hb, gfLog_gfMul ha hbc, gfLog_gfMul hb hc]
  omega

theorem gfMul_gfInv {a : UInt8} (nonzero : a ≠ 0) : gfMul a (gfInv a) = 1 := by
  have la := gfLog_lt nonzero
  have inverse : gfInv a ≠ 0 := gfExp_ne_zero (by omega)
  have one : (1 : UInt8) ≠ 0 := by decide
  apply eq_of_gfLog (gfMul_ne_zero nonzero inverse) one
  rw [gfLog_gfMul nonzero inverse, gfInv, gfLog_gfExp (by omega), gfLog_one]
  omega

-- Additivity of multiplication

/-- Doubling on bytes: the map between consecutive table entries. -/
def gfDoubleByte (x : UInt8) : UInt8 := (x <<< 1) ^^^ (if x &&& 0x80 = 0 then 0 else 0x1D)

theorem gfExpTable_doubling
    : gfExpTable.tail = (gfExpTable.map gfDoubleByte).dropLast := by
  decide +kernel

@[inherit_doc gfExpTable_doubling]
theorem gfExp_succ {n : Nat} (bound : n < 511) : gfExp (n + 1) = gfDoubleByte (gfExp n) := by
  have same := congrArg (fun table => table[n]?) gfExpTable_doubling
  have stored : n + 1 < gfExpTable.length := by rw [length_gfExpTable]; omega
  have before : n < gfExpTable.length := by omega
  simpa [gfExp, List.getD_eq_getElem?_getD, List.getElem?_tail, List.getElem?_dropLast,
    length_gfExpTable, List.getElem?_eq_getElem stored, List.getElem?_eq_getElem before,
    bound] using same

/-- Doubling is additive: both the shift and the top bit are. -/
theorem gfDoubleByte_xor (x y : UInt8)
    : gfDoubleByte (x ^^^ y) = gfDoubleByte x ^^^ gfDoubleByte y := by
  have shift : (x ^^^ y) <<< 1 = (x <<< 1) ^^^ (y <<< 1) := by
    apply UInt8.toBitVec_inj.mp
    simp [BitVec.shiftLeft_xor_distrib]
  have top (z : UInt8) : z &&& 0x80 = 0 ∨ z &&& 0x80 = 0x80 := by
    have all : ∀ z : Fin 256,
        UInt8.ofNat z &&& 0x80 = 0 ∨ UInt8.ofNat z &&& 0x80 = 0x80 := by
      decide +kernel
    simpa using all ⟨z.toNat, z.toNat_lt⟩
  have split : (x ^^^ y) &&& 0x80 = (x &&& 0x80) ^^^ (y &&& 0x80) := by
    apply UInt8.toBitVec_inj.mp
    ext i bound
    simp [Bool.and_xor_distrib_right]
  have regroup (a b c : UInt8) : a ^^^ b = a ^^^ c ^^^ (b ^^^ c) := by
    rw [UInt8.xor_assoc, UInt8.xor_comm b c, ← UInt8.xor_assoc c c b, UInt8.xor_self,
      UInt8.zero_xor]
  simp only [gfDoubleByte, shift, split]
  rcases top x with hx | hx <;> rcases top y with hy | hy <;>
    simp only [hx, hy, UInt8.xor_self, UInt8.xor_zero, UInt8.zero_xor, if_true,
      show (0x80 : UInt8) ≠ 0 by decide, if_false]
  · exact (UInt8.xor_assoc _ _ _)
  · rw [UInt8.xor_assoc, UInt8.xor_assoc, UInt8.xor_comm (y <<< 1)]
  · exact regroup _ _ _

theorem repeat_gfDoubleByte_xor (n : Nat) (x y : UInt8)
    : Nat.repeat gfDoubleByte n (x ^^^ y)
      = Nat.repeat gfDoubleByte n x ^^^ Nat.repeat gfDoubleByte n y := by
  induction n with
  | zero => rfl
  | succ n ih => simp only [Nat.repeat, ih, gfDoubleByte_xor]

theorem gfExp_add (n start : Nat) (bound : start + n < 512)
    : gfExp (n + start) = Nat.repeat gfDoubleByte n (gfExp start) := by
  induction n with
  | zero => simp [Nat.repeat]
  | succ n ih =>
      rw [Nat.repeat, ← ih (by omega), Nat.add_right_comm, gfExp_succ (by omega)]

theorem gfMul_eq_repeat {a : UInt8} (nonzero : a ≠ 0) (b : UInt8)
    : gfMul a b = Nat.repeat gfDoubleByte (gfLog a) b := by
  have la := gfLog_lt nonzero
  by_cases hb : b = 0
  · subst hb
    have zero (n : Nat) : Nat.repeat gfDoubleByte n 0 = 0 := by
      induction n with
      | zero => rfl
      | succ n ih => simp only [Nat.repeat, ih]; decide
    rw [gfMul_zero, zero]
  · have lb := gfLog_lt hb
    simp only [gfMul, nonzero, hb, or_self, if_false]
    rw [gfExp_add _ _ (by omega), gfExp_gfLog hb]

theorem gfMul_xor (a x y : UInt8) : gfMul a (x ^^^ y) = gfMul a x ^^^ gfMul a y := by
  by_cases zero : a = 0
  · simp [zero]
  · simp only [gfMul_eq_repeat zero, repeat_gfDoubleByte_xor]

-- The field

/-- A byte read as an element of GF(2^8). -/
@[ext]
structure Gf where
  byte : UInt8
  deriving DecidableEq

namespace Gf

instance : Zero Gf := ⟨⟨0⟩⟩
instance : One Gf := ⟨⟨1⟩⟩
instance : Add Gf := ⟨fun a b => ⟨a.byte ^^^ b.byte⟩⟩
instance : Neg Gf := ⟨id⟩
instance : Mul Gf := ⟨fun a b => ⟨gfMul a.byte b.byte⟩⟩
instance : Inv Gf := ⟨fun a => if a = 0 then 0 else ⟨gfInv a.byte⟩⟩

@[simp] theorem byte_zero : (0 : Gf).byte = 0 := rfl
@[simp] theorem byte_one : (1 : Gf).byte = 1 := rfl
@[simp] theorem byte_add (a b : Gf) : (a + b).byte = a.byte ^^^ b.byte := rfl
@[simp] theorem byte_neg (a : Gf) : (-a).byte = a.byte := rfl
@[simp] theorem byte_mul (a b : Gf) : (a * b).byte = gfMul a.byte b.byte := rfl

/-- Byte exclusive or and table multiplication form a field. -/
instance : Field Gf where
  add_assoc a b c := Gf.ext (UInt8.xor_assoc _ _ _)
  zero_add a := Gf.ext (by simp)
  add_zero a := Gf.ext (by simp)
  add_comm a b := Gf.ext (UInt8.xor_comm _ _)
  neg_add_cancel a := Gf.ext (by simp)
  mul_assoc a b c := Gf.ext (gfMul_assoc _ _ _)
  one_mul a := Gf.ext (by simp)
  mul_one a := Gf.ext (by rw [byte_mul, gfMul_comm]; simp)
  mul_comm a b := Gf.ext (gfMul_comm _ _)
  zero_mul a := Gf.ext (by simp)
  mul_zero a := Gf.ext (by simp)
  left_distrib a b c := Gf.ext (gfMul_xor _ _ _)
  right_distrib a b c := Gf.ext (by
    simp only [byte_mul, byte_add, gfMul_comm _ c.byte, gfMul_xor])
  nsmul := nsmulRec
  zsmul := zsmulRec
  npow := npowRec
  exists_pair_ne := ⟨0, 1, by decide⟩
  inv_zero := by simp [Inv.inv]
  mul_inv_cancel a nonzero := by
    have apart : a.byte ≠ 0 := fun zero => nonzero (Gf.ext zero)
    ext
    simp [Inv.inv, nonzero, gfMul_gfInv apart]
  nnqsmul := _
  nnqsmul_def := fun _ _ => rfl
  qsmul := _
  qsmul_def := fun _ _ => rfl

theorem add_self (a : Gf) : a + a = 0 := Gf.ext (by simp)

theorem sub_eq_add (a b : Gf) : a - b = a + b := rfl

/-- The inverse of a nonzero element is the source's `gf_inv`. -/
theorem byte_inv {a : Gf} (nonzero : a ≠ 0) : (a⁻¹).byte = gfInv a.byte := by
  simp [Inv.inv, nonzero]

theorem byte_pow (a : Gf) (e : Nat) : (a ^ e).byte = gfPow a.byte e := by
  by_cases zero : a = 0
  · subst zero
    by_cases he : e = 0
    · simp [he, gfPow]
    · simp [he, gfPow]
  · have apart : a.byte ≠ 0 := fun equal => zero (Gf.ext equal)
    have la := gfLog_lt apart
    have log (n : Nat) : gfLog (a ^ n).byte = gfLog a.byte * n % 255 ∧ (a ^ n).byte ≠ 0 := by
      induction n with
      | zero => exact ⟨by rw [pow_zero, byte_one, Nat.mul_zero, gfLog_one], by simp⟩
      | succ n ih =>
          rw [pow_succ, byte_mul]
          refine ⟨?_, gfMul_ne_zero ih.2 apart⟩
          rw [gfLog_gfMul ih.2 apart, ih.1, Nat.mul_succ]
          omega
    obtain ⟨value, nonzero⟩ := log e
    by_cases he : e = 0
    · simp [he, gfPow]
    · rw [gfPow, if_neg he, if_neg apart, ← value, gfExp_gfLog nonzero]

end Gf

end Creek.Tight
