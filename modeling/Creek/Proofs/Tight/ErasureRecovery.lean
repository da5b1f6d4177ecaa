import Creek.Library.LinearSystems
import Creek.Proofs.Tight.ErasureShape
import Creek.Proofs.Tight.GaloisField
import Mathlib

/-! Decoding inverts encoding.
Every byte position is a linear system over the field: the missing bytes are its unknowns and
the syndromes its right-hand sides. The decoder's passes on rows are the elimination passes of
all these systems at once.
-/

namespace Creek.Tight

open Library

/-- Byte `k` of a fragment as a field element; zero beyond the end. -/
def symbol (bytes : Bytes) (k : Nat) : Gf := ⟨bytes.getD k 0⟩

/-- The weight of a data fragment in a parity fragment. -/
def weight (p j : Nat) : Gf := ⟨coef p j⟩

/-- The field element a data fragment is evaluated at. -/
def node (j : Nat) : Gf := ⟨UInt8.ofNat (j + 1)⟩

theorem weight_eq_pow (p j : Nat) : weight p j = node j ^ p :=
  Gf.ext (Gf.byte_pow (node j) p).symm

theorem inv_mk {byte : UInt8} (nonzero : byte ≠ 0) : (⟨byte⟩ : Gf)⁻¹ = ⟨gfInv byte⟩ := by
  have apart : (⟨byte⟩ : Gf) ≠ 0 := fun zero => nonzero (congrArg Gf.byte zero)
  apply Gf.ext
  rw [Gf.byte_inv apart]

theorem symbol_of_lt {bytes : Bytes} {k : Nat} (bound : k < bytes.length)
    : symbol bytes k = ⟨bytes[k]⟩ := by
  rw [symbol, List.getD_eq_getElem?_getD, List.getElem?_eq_getElem bound, Option.getD_some]

theorem symbol_of_le {bytes : Bytes} {k : Nat} (bound : bytes.length ≤ k)
    : symbol bytes k = 0 := by
  rw [symbol, List.getD_eq_getElem?_getD, List.getElem?_eq_none bound]
  rfl

/-- Fragments of one length are equal when all their symbols are. -/
theorem eq_of_symbol {left right : Bytes} (length : left.length = right.length)
    (same : ∀ k, symbol left k = symbol right k)
    : left = right := by
  refine List.ext_getElem length fun k inLeft inRight => ?_
  have here := same k
  rw [symbol_of_lt inLeft, symbol_of_lt inRight] at here
  exact Gf.mk.inj here

@[simp] theorem length_gfMulAdd (dst src : Bytes) (c : UInt8) (width : Nat)
    : (gfMulAdd dst src c width).length = dst.length := by
  simp only [gfMulAdd]
  split
  · rfl
  · split <;> exact List.length_mapIdx

/-- `gf_mul_add` adds a multiple of the source to every symbol. -/
theorem symbol_gfMulAdd {dst src : Bytes} {c : UInt8} {width : Nat} (fits : src.length ≤ width)
    (room : src.length ≤ dst.length) (k : Nat)
    : symbol (gfMulAdd dst src c width) k = symbol dst k + ⟨c⟩ * symbol src k := by
  by_cases zero : c = 0 ∨ src.isEmpty
  · rw [gfMulAdd, if_pos zero]
    rcases zero with rfl | empty
    · rw [show (⟨0⟩ : Gf) = 0 from rfl, zero_mul, add_zero]
    · have none : symbol src k = 0 := by
        rw [List.isEmpty_iff.mp empty]
        exact symbol_of_le (Nat.zero_le k)
      rw [none, mul_zero, add_zero]
  have nonzero : c ≠ 0 := fun equal => zero (Or.inl equal)
  by_cases inDst : k < dst.length
  · have inResult : k < (gfMulAdd dst src c width).length := by rwa [length_gfMulAdd]
    have short : min dst.length (min src.length width) = src.length := by omega
    rw [symbol_of_lt inResult, symbol_of_lt inDst]
    ext
    simp only [gfMulAdd, zero, if_false, short, Gf.byte_add, Gf.byte_mul]
    by_cases inSrc : k < src.length
    · rw [symbol_of_lt inSrc]
      by_cases one : c = 1
      · simp [one, inSrc]
      · by_cases vanishes : src[k] = 0
        · simp [one, inSrc, vanishes]
        · simp [one, inSrc, vanishes, gfMul, nonzero]
    · rw [symbol_of_le (Nat.le_of_not_lt inSrc)]
      by_cases one : c = 1 <;> simp [one, inSrc]
  · have inResult : (gfMulAdd dst src c width).length ≤ k := by rw [length_gfMulAdd]; omega
    rw [symbol_of_le inResult, symbol_of_le (Nat.le_of_not_lt inDst),
      symbol_of_le (show src.length ≤ k by omega), mul_zero, add_zero]

/-- Adding weighted sources one by one adds their weighted sum to every symbol. -/
theorem symbol_foldl_gfMulAdd {sources : Nat → Bytes} {c : Nat → UInt8} {width n : Nat}
    {start : Bytes} (fits : ∀ j, (sources j).length ≤ width) (room : width ≤ start.length)
    : ((List.range n).foldl (fun dst j => gfMulAdd dst (sources j) (c j) width) start).length
          = start.length
      ∧ ∀ k,
          symbol
              ((List.range n).foldl (fun dst j => gfMulAdd dst (sources j) (c j) width) start) k
            = symbol start k + ∑ j ∈ Finset.range n, ⟨c j⟩ * symbol (sources j) k := by
  induction n with
  | zero => exact ⟨rfl, fun k => by simp⟩
  | succ n ih =>
      obtain ⟨length, symbols⟩ := ih
      simp only [List.range_succ, List.foldl_append, List.foldl_cons, List.foldl_nil]
      generalize (List.range n).foldl _ start = before at *
      refine ⟨by rw [length_gfMulAdd, length], fun k => ?_⟩
      have room' : (sources n).length ≤ before.length := by
        rw [length]
        exact (fits n).trans room
      rw [symbol_gfMulAdd (fits n) room', symbols k, Finset.sum_range_succ, add_assoc]

namespace ReedSolomon

theorem length_clearBuffer (width : Nat) (buffer : Bytes)
    : width ≤ (clearBuffer width buffer).length := by
  unfold clearBuffer
  split <;> simp

theorem symbol_clearBuffer {width k : Nat} (bound : k < width) (buffer : Bytes)
    : symbol (clearBuffer width buffer) k = 0 := by
  unfold clearBuffer symbol
  split <;> simp [List.getD_eq_getElem?_getD, List.getElem?_append, bound] <;> rfl

/-- A bound on all fragments bounds every entry read with a default. -/
theorem length_getD_le {fragments : List Bytes} {width : Nat}
    (fits : ∀ fragment ∈ fragments, fragment.length ≤ width) (j : Nat)
    : (fragments.getD j []).length ≤ width := by
  rw [List.getD_eq_getElem?_getD]
  cases found : fragments[j]? with
  | none => exact Nat.zero_le width
  | some fragment => exact fits fragment (List.mem_of_getElem? found)

/-- A parity symbol is the weighted sum of the data symbols. -/
theorem symbol_encodeParity {fragments : List Bytes} {width : Nat}
    (fits : ∀ fragment ∈ fragments, fragment.length ≤ width) (p : Nat) (buffer : Bytes) (k : Nat)
    : symbol ((encodeParity fragments width p buffer).take width) k
      = ∑ j ∈ Finset.range fragments.length, weight p j * symbol (fragments.getD j []) k := by
  have fits' := length_getD_le fits
  obtain ⟨length, symbols⟩ := symbol_foldl_gfMulAdd (c := coef p) (n := fragments.length)
    fits' (length_clearBuffer width buffer)
  by_cases bound : k < width
  · have taken : symbol ((encodeParity fragments width p buffer).take width) k
        = symbol (encodeParity fragments width p buffer) k := by
      simp [symbol, List.getD_eq_getElem?_getD, bound]
    rw [taken, encodeParity, symbols k, symbol_clearBuffer bound, zero_add]
    rfl
  · rw [symbol_of_le (by rw [List.length_take]; omega)]
    refine (Finset.sum_eq_zero fun j _ => ?_).symm
    rw [symbol_of_le ((fits' j).trans (Nat.le_of_not_lt bound)), mul_zero]

theorem length_encodeParity {fragments : List Bytes} {width : Nat}
    (fits : ∀ fragment ∈ fragments, fragment.length ≤ width) (p : Nat) (buffer : Bytes)
    : ((encodeParity fragments width p buffer).take width).length = width := by
  have fits' := length_getD_le fits
  obtain ⟨length, -⟩ := symbol_foldl_gfMulAdd (c := coef p) (n := fragments.length)
    fits' (length_clearBuffer width buffer)
  rw [encodeParity, List.length_take, length]
  exact Nat.min_eq_left (length_clearBuffer width buffer)

/-- As many equations as unknowns, with syndromes of the common width. -/
structure Square (rows : List Row) (m width : Nat) : Prop where
  count : rows.length = m
  coeffs : ∀ row ∈ rows, row.coeffs.length = m
  syn : ∀ row ∈ rows, row.syn.length = width

/-- The linear system the rows are at byte `k`. -/
def systemAt (rows : List Row) (m k : Nat) : LinearSystem Gf m where
  coeff r c := ⟨entry rows r c⟩
  rhs r := symbol (rows.getD r default).syn k

/-- Exchanging the pivot row into place permutes the rows as the elimination pass does. -/
theorem getD_swapRows {rows : List Row} {m : Nat} (length : rows.length = m)
    (pivot col r : Fin m)
    : (swapRows rows pivot col).getD r default
      = rows.getD (LinearSystem.exchange pivot col r) default := by
  have inPivot : (pivot : Nat) < rows.length := by rw [length]; exact pivot.isLt
  have inCol : (col : Nat) < rows.length := by rw [length]; exact col.isLt
  have inRow : (r : Nat) < rows.length := by rw [length]; exact r.isLt
  simp only [swapRows, LinearSystem.exchange, List.getD_eq_getElem?_getD, List.getElem?_set,
    List.length_set, Fin.ext_iff]
  by_cases atCol : (col : Nat) = r
  · simp [atCol, inRow]
  · by_cases atPivot : (pivot : Nat) = r
    · simp [atCol, atPivot, inRow, Ne.symm atCol]
    · simp [atCol, atPivot, Ne.symm atCol, Ne.symm atPivot]

/-- Row `r` after the elimination pass for one column. -/
def passRow (rows : List Row) (pivot col width r : Nat) : Row :=
  let rows := swapRows rows pivot col
  let pivotRow := normalizeRow (rows.getD col default) col
  if r = col then pivotRow else reduceRow pivotRow (rows.getD r default) col width

/-- An elimination pass without a pivot finds only zeros; otherwise it has a pivot and makes
the pass of the linear systems.
-/
theorem eliminateColumn_cases (rows : List Row) (col width : Nat)
    : (eliminateColumn rows col width = none
        ∧ ∀ r, col ≤ r → r < rows.length → entry rows r col = 0)
      ∨ ∃ pivot result,
          col ≤ pivot ∧ pivot < rows.length ∧ entry rows pivot col ≠ 0
          ∧ eliminateColumn rows col width = some result
          ∧ result.length = rows.length
          ∧ ∀ r < rows.length, result.getD r default = passRow rows pivot col width r := by
  rw [eliminateColumn]
  cases found : (List.range' col (rows.length - col)).find? fun r => entry rows r col ≠ 0 with
  | none =>
      refine Or.inl ⟨rfl, fun r above below => ?_⟩
      have zero := List.find?_eq_none.mp found r
        (List.mem_range'_1.mpr ⟨above, by omega⟩)
      simpa using zero
  | some pivot =>
      have member := List.mem_range'_1.mp (List.mem_of_find?_eq_some found)
      have nonzero := List.find?_some found
      refine Or.inr ⟨pivot, _, member.1, by omega, by simpa using nonzero, rfl, ?_, ?_⟩
      · rw [List.length_mapIdx, length_swapRows]
      · intro r bound
        have inside : r < (swapRows rows pivot col).length := by rwa [length_swapRows]
        simp [passRow, List.getD_eq_getElem?_getD, inside]

theorem coeff_normalizeRow (row : Row) (col c : Nat)
    : (normalizeRow row col).coeffs.getD c 0
      = if col ≤ c then gfMul (row.coeffs.getD c 0) (gfInv (row.coeffs.getD col 0))
        else row.coeffs.getD c 0 := by
  simp only [normalizeRow, List.getD_eq_getElem?_getD, List.getElem?_mapIdx]
  cases found : row.coeffs[c]? with
  | none => simp
  | some value => rfl

theorem symbol_normalizeRow (row : Row) (col k : Nat)
    : symbol (normalizeRow row col).syn k
      = symbol row.syn k * ⟨gfInv (row.coeffs.getD col 0)⟩ := by
  ext
  simp only [symbol, normalizeRow, List.getD_eq_getElem?_getD, List.getElem?_map, Gf.byte_mul]
  cases found : row.syn[k]? with
  | none => simp
  | some value => rfl

theorem coeff_reduceRow {pivotRow row : Row} (length : pivotRow.coeffs.length = row.coeffs.length)
    (col width c : Nat)
    : (reduceRow pivotRow row col width).coeffs.getD c 0
      = if col ≤ c then
          row.coeffs.getD c 0 ^^^ gfMul (row.coeffs.getD col 0) (pivotRow.coeffs.getD c 0)
        else row.coeffs.getD c 0 := by
  simp only [reduceRow]
  split
  · rename_i zero
    rw [zero, zero_gfMul, UInt8.xor_zero, ite_self]
  · simp only [List.getD_eq_getElem?_getD, List.getElem?_mapIdx]
    by_cases inside : c < row.coeffs.length
    · simp [inside]
    · simp [inside, length]

theorem symbol_reduceRow {pivotRow row : Row} {width : Nat} (fits : pivotRow.syn.length ≤ width)
    (room : pivotRow.syn.length ≤ row.syn.length) (col k : Nat)
    : symbol (reduceRow pivotRow row col width).syn k
      = symbol row.syn k + ⟨row.coeffs.getD col 0⟩ * symbol pivotRow.syn k := by
  simp only [reduceRow]
  split
  · rename_i zero
    rw [zero, show (⟨0⟩ : Gf) = 0 from rfl, zero_mul, add_zero]
  · exact symbol_gfMulAdd fits room k

theorem length_normalizeRow (row : Row) (col : Nat)
    : (normalizeRow row col).coeffs.length = row.coeffs.length
      ∧ (normalizeRow row col).syn.length = row.syn.length := by
  simp [normalizeRow]

theorem length_reduceRow (pivotRow row : Row) (col width : Nat)
    : (reduceRow pivotRow row col width).coeffs.length = row.coeffs.length
      ∧ (reduceRow pivotRow row col width).syn.length = row.syn.length := by
  simp only [reduceRow]
  split <;> simp

variable {rows result : List Row} {m width : Nat}

theorem Square.getD_mem (square : Square rows m width) (r : Fin m)
    : rows.getD r default ∈ rows := by
  have inside : (r : Nat) < rows.length := by rw [square.count]; exact r.isLt
  rw [List.getD_eq_getElem?_getD, List.getElem?_eq_getElem inside, Option.getD_some]
  exact List.getElem_mem inside

theorem Square.passRow (square : Square rows m width) (pivot col r : Fin m)
    : (passRow rows pivot col width r).coeffs.length = m
      ∧ (passRow rows pivot col width r).syn.length = width := by
  have old (i : Fin m) := square.coeffs _ (square.getD_mem i)
  have oldSyn (i : Fin m) := square.syn _ (square.getD_mem i)
  simp only [ReedSolomon.passRow, getD_swapRows square.count]
  split
  · rw [(length_normalizeRow _ _).1, (length_normalizeRow _ _).2]
    exact ⟨old _, oldSyn _⟩
  · rw [(length_reduceRow _ _ _ _).1, (length_reduceRow _ _ _ _).2]
    exact ⟨old _, oldSyn _⟩

theorem Square.pass (square : Square rows m width) (pivot col : Fin m)
    (length : result.length = rows.length)
    (passed : ∀ r < rows.length,
      result.getD r default = ReedSolomon.passRow rows pivot col width r)
    : Square result m width := by
  have shape : ∀ row ∈ result, row.coeffs.length = m ∧ row.syn.length = width := by
    intro row member
    obtain ⟨r, inside, rfl⟩ := List.mem_iff_getElem.mp member
    rw [length] at inside
    have same := passed r inside
    rw [List.getD_eq_getElem?_getD, List.getElem?_eq_getElem (by omega), Option.getD_some] at same
    rw [same]
    rw [square.count] at inside
    exact square.passRow pivot col ⟨r, inside⟩
  exact ⟨length.trans square.count, fun row member => (shape row member).1,
    fun row member => (shape row member).2⟩

/-- The pass on the rows is the elimination pass of the linear system at every byte. Witness:
the source leaves the earlier columns alone, where the pivot row of a reduced system is zero.
-/
theorem Square.systemAt_pass (square : Square rows m width) (pivot col : Fin m)
    (reduced : (systemAt rows m 0).Reduced col) (below : (col : Nat) ≤ pivot)
    (nonzero : entry rows pivot col ≠ 0)
    (passed : ∀ r < rows.length,
      result.getD r default = ReedSolomon.passRow rows pivot col width r)
    (k : Nat)
    : systemAt result m k = (systemAt rows m k).clear pivot col := by
  have row (r : Fin m) := passed r (by rw [square.count]; exact r.isLt)
  have lengths (i : Fin m) := square.coeffs _ (square.getD_mem i)
  have synLengths (i : Fin m) := square.syn _ (square.getD_mem i)
  have atCol : LinearSystem.exchange pivot col col = pivot := by simp [LinearSystem.exchange]
  have earlier (c : Fin m) (before : c < col) : entry rows pivot c = 0 := by
    have unit := reduced pivot c before
    rw [if_neg (by rintro rfl; omega)] at unit
    exact congrArg Gf.byte unit
  let pivotRow := normalizeRow (rows.getD pivot default) col
  have inverse := inv_mk nonzero
  have scaled (c : Fin m) : (⟨pivotRow.coeffs.getD c 0⟩ : Gf)
      = ⟨entry rows pivot c⟩ * (⟨entry rows pivot col⟩ : Gf)⁻¹ := by
    rw [inverse]
    apply Gf.ext
    simp only [pivotRow, coeff_normalizeRow, Gf.byte_mul]
    split
    · rfl
    · rename_i beyond
      have zero := earlier c (Nat.lt_of_not_le beyond)
      rw [zero, zero_gfMul]
      exact zero
  have scaledSyn : symbol pivotRow.syn k
      = symbol (rows.getD pivot default).syn k * (⟨entry rows pivot col⟩ : Gf)⁻¹ := by
    rw [inverse]
    exact symbol_normalizeRow _ _ _
  have pivotLengths := length_normalizeRow (rows.getD pivot default) col
  refine LinearSystem.ext (funext fun r => funext fun c => ?_) (funext fun r => ?_)
  · simp only [systemAt, LinearSystem.clear, entry, row r, ReedSolomon.passRow,
      getD_swapRows square.count, atCol, Fin.val_inj]
    split
    · exact scaled c
    · have same : pivotRow.coeffs.length
          = (rows.getD (LinearSystem.exchange pivot col r) default).coeffs.length := by
        rw [lengths, pivotLengths.1, lengths]
      rw [coeff_reduceRow same, Gf.sub_eq_add]
      split
      · exact congrArg (_ + _ * ·) (scaled c)
      · rename_i beyond
        have zero := earlier c (Nat.lt_of_not_le beyond)
        rw [entry] at zero
        rw [zero, show (⟨0⟩ : Gf) = 0 from rfl, zero_mul, mul_zero, add_zero]
  · simp only [systemAt, LinearSystem.clear, row r, ReedSolomon.passRow,
      getD_swapRows square.count, atCol, Fin.val_inj]
    split
    · exact scaledSyn
    · have fits : pivotRow.syn.length ≤ width := by rw [pivotLengths.2, synLengths]
      have room : pivotRow.syn.length
          ≤ (rows.getD (LinearSystem.exchange pivot col r) default).syn.length := by
        rw [pivotLengths.2, synLengths, synLengths]
      rw [symbol_reduceRow fits room, Gf.sub_eq_add, scaledSyn]
      rfl

/-- An elimination that ends has reduced the columns and kept the solutions, and whether the
system is nonsingular.
-/
theorem Square.eliminated (square : Square rows m width) {cols : Nat} (bound : cols ≤ m)
    (ran : ReedSolomon.eliminate rows width cols = some result)
    : Square result m width
      ∧ (systemAt result m 0).Reduced cols
      ∧ ((systemAt rows m 0).Nonsingular → (systemAt result m 0).Nonsingular)
      ∧ ∀ k x, (systemAt rows m k).Solution x → (systemAt result m k).Solution x := by
  induction cols generalizing result with
  | zero =>
      obtain rfl := Option.some.inj ran
      exact ⟨square, fun _ _ before => absurd before (Nat.not_lt_zero _), id,
        fun _ _ solved => solved⟩
  | succ cols ih =>
      rw [ReedSolomon.eliminate] at ran
      obtain ⟨before, earlier, passed⟩ := Option.bind_eq_some_iff.mp ran
      obtain ⟨shape, reduced, regular, kept⟩ := ih (by omega) earlier
      let col : Fin m := ⟨cols, by omega⟩
      rcases eliminateColumn_cases before cols width with ⟨stuck, -⟩ | ⟨pivot, after, found⟩
      · rw [stuck] at passed
        cases passed
      · obtain ⟨below, inside, nonzero, ended, length, rowsPassed⟩ := found
        obtain rfl := Option.some.inj (ended.symm.trans passed)
        rw [shape.count] at inside
        let pivotRow : Fin m := ⟨pivot, inside⟩
        have apart : (systemAt before m 0).coeff pivotRow col ≠ 0 := fun zero =>
          nonzero (congrArg Gf.byte zero)
        have clears := shape.systemAt_pass pivotRow col reduced below nonzero rowsPassed
        refine ⟨shape.pass pivotRow col length rowsPassed, ?_, fun start => ?_, ?_⟩
        · rw [clears]
          exact reduced.clear rfl below apart
        · rw [clears]
          exact (LinearSystem.nonsingular_clear_iff _ apart).mpr (regular start)
        · intro k x solved
          rw [clears]
          exact (LinearSystem.solution_clear_iff (systemAt before m k) apart x).mpr
            (kept k x solved)

/-- The elimination of a nonsingular system never lacks a pivot. Witness: a missing pivot would
make the reduced system singular.
-/
theorem Square.eliminate_isSome (square : Square rows m width)
    (nonsingular : (systemAt rows m 0).Nonsingular) {cols : Nat} (bound : cols ≤ m)
    : ∃ result, ReedSolomon.eliminate rows width cols = some result := by
  induction cols with
  | zero => exact ⟨rows, rfl⟩
  | succ cols ih =>
      obtain ⟨before, ran⟩ := ih (by omega)
      obtain ⟨shape, reduced, regular, -⟩ := square.eliminated (by omega) ran
      rcases eliminateColumn_cases before cols width with ⟨-, zeros⟩ | ⟨pivot, after, found⟩
      · let col : Fin m := ⟨cols, by omega⟩
        refine absurd (regular nonsingular)
          (reduced.singular (show (col : Nat) = cols from rfl) fun r above => ?_)
        exact Gf.ext (zeros r above (by rw [shape.count]; exact r.isLt))
      · obtain ⟨-, -, -, ended, -, -⟩ := found
        refine ⟨after, ?_⟩
        rw [ReedSolomon.eliminate, ran]
        exact ended

/-- Squaring is injective in characteristic two, so different nodes keep different powers. -/
theorem pow_ne_pow {x y : Gf} (apart : x ≠ y) {n : Nat} (positive : 0 < n) (small : n < 3)
    : x ^ n - y ^ n ≠ 0 := by
  obtain rfl | rfl : n = 1 ∨ n = 2 := by omega
  · rw [pow_one, pow_one]
    exact sub_ne_zero.mpr apart
  · have factored : x ^ 2 - y ^ 2 = (x - y) * (x - y) := by
      linear_combination -Gf.add_self (y ^ 2) + Gf.add_self (x * y)
    rw [factored]
    exact mul_ne_zero (sub_ne_zero.mpr apart) (sub_ne_zero.mpr apart)

/-- Two equations with different powers of different nodes determine the first unknown. -/
theorem eq_zero_of_two_powers {n₀ n₁ x₀ x₁ : Gf} {a d : Nat} (apart : n₀ ≠ n₁)
    (nonzero : n₀ ^ a ≠ 0) (positive : 0 < d) (small : d < 3)
    (first : n₀ ^ a * x₀ + n₁ ^ a * x₁ = 0)
    (second : n₀ ^ (a + d) * x₀ + n₁ ^ (a + d) * x₁ = 0)
    : x₀ = 0 := by
  have product : n₀ ^ a * (n₀ ^ d - n₁ ^ d) * x₀ = 0 := by
    linear_combination second - n₁ ^ d * first
  exact (mul_eq_zero.mp product).resolve_left (mul_ne_zero nonzero (pow_ne_pow apart positive small))

/-- The three lowest powers of three different nodes determine the first unknown. -/
theorem eq_zero_of_three_powers {n₀ n₁ n₂ x₀ x₁ x₂ : Gf} (apart₁ : n₀ ≠ n₁) (apart₂ : n₀ ≠ n₂)
    (first : x₀ + x₁ + x₂ = 0) (second : n₀ * x₀ + n₁ * x₁ + n₂ * x₂ = 0)
    (third : n₀ ^ 2 * x₀ + n₁ ^ 2 * x₁ + n₂ ^ 2 * x₂ = 0)
    : x₀ = 0 := by
  have product : (n₀ - n₁) * (n₀ - n₂) * x₀ = 0 := by
    linear_combination third - (n₁ + n₂) * second + n₁ * n₂ * first
  exact (mul_eq_zero.mp product).resolve_left
    (mul_ne_zero (sub_ne_zero.mpr apart₁) (sub_ne_zero.mpr apart₂))

theorem eq_zero_of_two_rows {powers : Fin 2 → Nat} {nodes x : Fin 2 → Gf}
    (increasing : StrictMono powers) (small : ∀ r, powers r < 3)
    (distinct : Function.Injective nodes) (power : ∀ r c, nodes c ^ powers r ≠ 0)
    (row : ∀ r, ∑ c, nodes c ^ powers r * x c = 0)
    : x = fun _ => 0 := by
  have first := row 0
  have second := row 1
  rw [Fin.sum_univ_two] at first second
  have ascent := increasing (show (0 : Fin 2) < 1 by decide)
  obtain ⟨d, step⟩ := Nat.exists_eq_add_of_lt ascent
  have last := small 1
  have apart : nodes 0 ≠ nodes 1 := distinct.ne (by decide)
  rw [step, Nat.add_assoc] at second
  refine funext (Fin.forall_fin_two.mpr ⟨?_, ?_⟩)
  · exact eq_zero_of_two_powers apart (power 0 0) (by omega) (by omega) first second
  · rw [add_comm] at first second
    exact eq_zero_of_two_powers apart.symm (power 0 1) (by omega) (by omega) first second

/-- Three equations with rising powers below the third have the powers 0, 1 and 2. -/
theorem eq_zero_of_three_rows {powers : Fin 3 → Nat} {nodes x : Fin 3 → Gf}
    (increasing : StrictMono powers) (small : ∀ r, powers r < 3)
    (distinct : Function.Injective nodes)
    (row : ∀ r, ∑ c, nodes c ^ powers r * x c = 0)
    : x = fun _ => 0 := by
  have ascent₁ := increasing (show (0 : Fin 3) < 1 by decide)
  have ascent₂ := increasing (show (1 : Fin 3) < 2 by decide)
  have last := small 2
  have first := row 0
  have second := row 1
  have third := row 2
  rw [Fin.sum_univ_three] at first second third
  simp only [show powers 0 = 0 by omega, pow_zero, one_mul] at first
  simp only [show powers 1 = 1 by omega, pow_one] at second
  rw [show powers 2 = 2 by omega] at third
  have apart₁ : nodes 0 ≠ nodes 1 := distinct.ne (by decide)
  have apart₂ : nodes 0 ≠ nodes 2 := distinct.ne (by decide)
  have apart₃ : nodes 1 ≠ nodes 2 := distinct.ne (by decide)
  have zero₀ := eq_zero_of_three_powers apart₁ apart₂ first second third
  have zero₁ : x 1 = 0 := by
    rw [add_rotate] at first second third
    exact eq_zero_of_three_powers apart₃ apart₁.symm first second third
  have zero₂ : x 2 = 0 := by
    rw [← add_rotate] at first second third
    exact eq_zero_of_three_powers apart₂.symm apart₃.symm first second third
  exact funext (Fin.forall_fin_succ.mpr ⟨zero₀, Fin.forall_fin_two.mpr ⟨zero₁, zero₂⟩⟩)

theorem lt_four_of_increasing {powers : Fin m → Nat} (increasing : StrictMono powers)
    (small : ∀ r, powers r < 3)
    : m < 4 := by
  have injective : Function.Injective fun r : Fin m => (⟨powers r, small r⟩ : Fin 3) := by
    intro r s same
    exact increasing.injective (congrArg Fin.val same)
  have few := Fintype.card_le_of_injective _ injective
  rw [Fintype.card_fin, Fintype.card_fin] at few
  exact Nat.lt_succ_of_le few

/-- Up to three different powers below the third of different nodes are independent. Nodes may
vanish where only the zeroth power is taken.
-/
theorem nonsingular_of_powers {system : LinearSystem Gf m} {powers : Fin m → Nat}
    {nodes : Fin m → Gf} (coeff : ∀ r c, system.coeff r c = nodes c ^ powers r)
    (increasing : StrictMono powers) (small : ∀ r, powers r < 3)
    (distinct : Function.Injective nodes)
    (nonzero : ∀ r c, powers r ≠ 0 → nodes c ≠ 0)
    : system.Nonsingular := by
  intro x solved
  have row (r : Fin m) : ∑ c, nodes c ^ powers r * x c = 0 := by
    have zero := solved r
    simp only [LinearSystem.apply, LinearSystem.homogeneous, coeff] at zero
    exact zero
  have power (r c : Fin m) : nodes c ^ powers r ≠ 0 := by
    by_cases constant : powers r = 0
    · rw [constant, pow_zero]
      exact one_ne_zero
    · exact pow_ne_zero _ (nonzero r c constant)
  have few := lt_four_of_increasing increasing small
  interval_cases m
  · exact funext fun c => c.elim0
  · have only := row 0
    rw [Fin.sum_univ_one] at only
    funext c
    rw [Subsingleton.elim c 0]
    exact (mul_eq_zero.mp only).resolve_left (power 0 0)
  · exact eq_zero_of_two_rows increasing small distinct power row
  · exact eq_zero_of_three_rows increasing small distinct row

/-- The order of the equations does not matter: different powers below the third of different
nodes are independent. Witness: the equations sorted by their powers.
-/
theorem nonsingular_of_distinct_powers {system : LinearSystem Gf m} {powers : Fin m → Nat}
    {nodes : Fin m → Gf} (coeff : ∀ r c, system.coeff r c = nodes c ^ powers r)
    (apart : Function.Injective powers) (small : ∀ r, powers r < 3)
    (distinct : Function.Injective nodes)
    (nonzero : ∀ r c, powers r ≠ 0 → nodes c ≠ 0)
    : system.Nonsingular := by
  let order := Tuple.sort powers
  let sorted : LinearSystem Gf m :=
    { coeff := fun r => system.coeff (order r), rhs := fun r => system.rhs (order r) }
  have increasing : StrictMono (powers ∘ order) :=
    (Tuple.monotone_sort powers).strictMono_of_injective (apart.comp order.injective)
  have regular : sorted.Nonsingular :=
    nonsingular_of_powers (fun r c => coeff (order r) c) increasing (fun r => small (order r))
      distinct fun r => nonzero (order r)
  intro x solved
  exact regular x fun r => solved (order r)

/-- A fragment behind which zeros fill the common width. -/
def padded (width : Nat) (fragment : Bytes) : Bytes :=
  fragment ++ List.replicate (width - fragment.length) 0

theorem length_padded {width : Nat} {fragment : Bytes} (fits : fragment.length ≤ width)
    : (padded width fragment).length = width := by
  rw [padded, List.length_append, List.length_replicate]
  omega

theorem padded_of_length {width : Nat} {fragment : Bytes} (full : fragment.length = width)
    : padded width fragment = fragment := by
  rw [padded, full, Nat.sub_self, List.replicate_zero, List.append_nil]

theorem symbol_padded (width : Nat) (fragment : Bytes) (k : Nat)
    : symbol (padded width fragment) k = symbol fragment k := by
  by_cases inside : k < fragment.length
  · rw [symbol, symbol, padded, List.getD_eq_getElem?_getD, List.getD_eq_getElem?_getD,
      List.getElem?_append_left inside]
  · rw [symbol_of_le (Nat.le_of_not_lt inside), symbol, padded, List.getD_eq_getElem?_getD,
      List.getElem?_append_right (Nat.le_of_not_lt inside), List.getElem?_replicate]
    split <;> rfl

/-- Some fragments of one message: the data fragments that are there are the originals, and the
parity fragments encode the originals.
-/
structure Coded (originals : List Bytes) (data : List (Option Bytes))
    (parity : List (Nat × Bytes)) (width : Nat)
    : Prop where
  widths : ∀ original ∈ originals, original.length ≤ width
  count : data.length = originals.length
  agrees : ∀ (j : Nat) (fragment : Bytes),
    data[j]? = some (some fragment) → originals[j]? = some fragment
  encodes : ∀ p fragment, (p, fragment) ∈ parity → ∀ k < width,
    symbol fragment k
      = ∑ j ∈ Finset.range originals.length, weight p j * symbol (originals.getD j []) k

/-- Some fragments of one message: the data fragments that are there are the originals, and
the parity fragments encode the originals at nodes that tell the gaps apart.
-/
structure Erased (originals : List Bytes) (data : List (Option Bytes))
    (parity : List (Nat × Bytes)) (width : Nat)
    : Prop where
  widths : ∀ original ∈ originals, original.length = width
  count : data.length = originals.length
  agrees : ∀ (j : Nat) (fragment : Bytes),
    data[j]? = some (some fragment) → originals[j]? = some fragment
  parityWidths : ∀ p fragment, (p, fragment) ∈ parity → fragment.length = width
  encodes : ∀ p fragment, (p, fragment) ∈ parity → ∀ k,
    symbol fragment k
      = ∑ j ∈ Finset.range originals.length, weight p j * symbol (originals.getD j []) k
  increasing : (parity.map Prod.fst).Pairwise (· < ·)
  small : ∀ p ∈ parity.map Prod.fst, p < 3
  nodes : (∀ p ∈ parity.map Prod.fst, p = 0) ∨ originals.length ≤ 255

variable {originals : List Bytes} {data : List (Option Bytes)} {parity : List (Nat × Bytes)}

theorem sum_filter_range (n : Nat) (selected : Nat → Bool) (value : Nat → Gf)
    : (((List.range n).filter selected).map value).sum
      = ∑ j ∈ Finset.range n, if selected j then value j else 0 := by
  induction n with
  | zero => rfl
  | succ n ih =>
      rw [List.range_succ, List.filter_append, List.map_append, List.sum_append, ih,
        Finset.sum_range_succ]
      congr 1
      cases chosen : selected n <;> simp [chosen]

/-- The syndrome as an accumulation over all data fragments, missing ones being empty. -/
theorem syndrome_eq_foldl (data : List (Option Bytes)) (p : Nat) (fragment : Bytes)
    : syndrome data (p, fragment) width
      = (List.range data.length).foldl
          (fun syn j => gfMulAdd syn ((data.getD j none).getD []) (coef p j) width)
          (padded width (fragment.take width)) := by
  have start : fragment.take width ++ List.replicate (width - fragment.length) 0
      = padded width (fragment.take width) := by
    rw [padded, List.length_take]
    congr 2
    omega
  simp only [syndrome, start]
  congr 1
  funext syn j
  cases data.getD j none with
  | none => exact (if_pos (Or.inr rfl)).symm
  | some fragment => rfl

/-- The accumulation starts with the fragment cut or padded to the common width. -/
theorem length_start (fragment : Bytes) : (padded width (fragment.take width)).length = width :=
  length_padded (by rw [List.length_take]; omega)

theorem Coded.length_getD_le (coded : Coded originals data parity width) (j : Nat)
    : ((data.getD j none).getD []).length ≤ width := by
  rw [List.getD_eq_getElem?_getD]
  cases found : data[j]? with
  | none => exact Nat.zero_le width
  | some stored =>
      cases stored with
      | none => exact Nat.zero_le width
      | some fragment =>
          exact coded.widths fragment (List.mem_of_getElem? (coded.agrees j fragment found))

theorem Coded.length_syndrome (coded : Coded originals data parity width) (p : Nat)
    (fragment : Bytes)
    : (syndrome data (p, fragment) width).length = width := by
  obtain ⟨length, -⟩ := symbol_foldl_gfMulAdd (c := coef p) (n := data.length)
    coded.length_getD_le (Nat.le_of_eq (length_start fragment).symm)
  rw [syndrome_eq_foldl, length, length_start]

/-- Equal summands cancel, so a syndrome is a combination of the missing fragments alone. -/
theorem Coded.symbol_syndrome (coded : Coded originals data parity width) {p : Nat}
    {fragment : Bytes} (member : (p, fragment) ∈ parity) (k : Nat)
    : symbol (syndrome data (p, fragment) width) k
      = ((missing data).map fun j => weight p j * symbol (originals.getD j []) k).sum := by
  obtain ⟨-, symbols⟩ := symbol_foldl_gfMulAdd (c := coef p) (n := data.length)
    coded.length_getD_le (Nat.le_of_eq (length_start fragment).symm)
  have start : symbol (padded width (fragment.take width)) k
      = ∑ j ∈ Finset.range originals.length, weight p j * symbol (originals.getD j []) k := by
    rw [symbol_padded]
    by_cases inside : k < width
    · rw [← coded.encodes p fragment member k inside]
      simp [symbol, List.getD_eq_getElem?_getD, inside]
    · have beyond (j : Nat) : symbol (originals.getD j []) k = 0 :=
        symbol_of_le ((ReedSolomon.length_getD_le coded.widths j).trans (Nat.le_of_not_lt inside))
      rw [symbol_of_le (by rw [List.length_take]; omega)]
      exact (Finset.sum_eq_zero fun j _ => by rw [beyond, mul_zero]).symm
  rw [syndrome_eq_foldl, symbols k, start, missing, sum_filter_range, coded.count,
    ← Finset.sum_add_distrib]
  refine Finset.sum_congr rfl fun j inRange => ?_
  have inData : j < data.length := by
    rw [coded.count]
    exact Finset.mem_range.mp inRange
  cases here : data.getD j none with
  | none =>
      have empty : symbol [] k = 0 := symbol_of_le (Nat.zero_le k)
      rw [Option.getD_none, empty, mul_zero, add_zero]
      rfl
  | some stored =>
      have found : data[j]? = some (some stored) := by
        rw [List.getD_eq_getElem?_getD, List.getElem?_eq_getElem inData, Option.getD_some] at here
        rw [List.getElem?_eq_getElem inData, here]
      have original : originals.getD j [] = stored := by
        rw [List.getD_eq_getElem?_getD, coded.agrees j stored found, Option.getD_some]
      rw [original]
      exact Gf.add_self _

/-- The equations the decoder solves. -/
def equations (data : List (Option Bytes)) (parity : List (Nat × Bytes)) (width : Nat)
    : List Row :=
  (parity.take (missing data).length).map fun p => equation data p width

theorem getD_parity_mem (enough : (missing data).length ≤ parity.length) {r : Nat}
    (bound : r < (missing data).length)
    : parity.getD r default ∈ parity := by
  have inside : r < parity.length := by omega
  rw [List.getD_eq_getElem?_getD, List.getElem?_eq_getElem inside, Option.getD_some]
  exact List.getElem_mem inside

theorem getD_equations (width : Nat) (enough : (missing data).length ≤ parity.length) {r : Nat}
    (bound : r < (missing data).length)
    : (equations data parity width).getD r default
      = equation data (parity.getD r default) width := by
  have inside : r < parity.length := by omega
  simp only [equations, List.getD_eq_getElem?_getD, List.getElem?_map,
    List.getElem?_take_of_lt bound, List.getElem?_eq_getElem inside, Option.map_some,
    Option.getD_some]

theorem Coded.square (coded : Coded originals data parity width)
    (enough : (missing data).length ≤ parity.length)
    : Square (equations data parity width) (missing data).length width := by
  refine ⟨?_, fun row member => ?_, fun row member => ?_⟩
  · rw [equations, List.length_map, List.length_take]
    omega
  · obtain ⟨p, -, rfl⟩ := List.mem_map.mp member
    exact List.length_map _
  · obtain ⟨p, -, rfl⟩ := List.mem_map.mp member
    exact coded.length_syndrome p.1 p.2

/-- The original fragments solve the equations at every byte. -/
theorem Coded.solution (coded : Coded originals data parity width)
    (enough : (missing data).length ≤ parity.length) (k : Nat)
    : (systemAt (equations data parity width) (missing data).length k).Solution fun c =>
        symbol (originals.getD (missing data)[c] []) k := by
  intro r
  have member := getD_parity_mem enough r.isLt
  have row := getD_equations width enough r.isLt
  simp only [systemAt, LinearSystem.apply, entry, row, equation]
  generalize parity.getD r default = chosen at member
  obtain ⟨p, fragment⟩ := chosen
  rw [coded.symbol_syndrome member, ← Fin.sum_univ_fun_getElem]
  refine Finset.sum_congr rfl fun c _ => ?_
  rw [List.getD_eq_getElem?_getD, List.getElem?_map, List.getElem?_eq_getElem c.isLt]
  rfl

theorem node_inj {i j : Nat} (inI : i < 255) (inJ : j < 255) (same : node i = node j)
    : i = j := by
  have bytes := congrArg UInt8.toNat (Gf.mk.inj same)
  simp only [UInt8.toNat_ofNat'] at bytes
  omega

theorem node_ne_zero {i : Nat} (bound : i < 255) : node i ≠ 0 := by
  intro zero
  have bytes := congrArg UInt8.toNat (congrArg Gf.byte zero)
  simp only [node, UInt8.toNat_ofNat', Gf.byte_zero] at bytes
  rw [Nat.mod_eq_of_lt (by omega)] at bytes
  cases bytes

/-- The equations determine the missing fragments: their parity indices are different, and the
nodes of the gaps are where an index above zero is used.
-/
theorem nonsingular_equations (width : Nat) (enough : (missing data).length ≤ parity.length)
    (distinct : (parity.map Prod.fst).Nodup) (small : ∀ p ∈ parity.map Prod.fst, p < 3)
    (nodes : (∀ p ∈ parity.map Prod.fst, p = 0) ∨ data.length ≤ 255)
    : (systemAt (equations data parity width) (missing data).length 0).Nonsingular := by
  let power (r : Fin (missing data).length) : Nat := (parity.getD r default).1
  have member (r : Fin (missing data).length) : power r ∈ parity.map Prod.fst :=
    List.mem_map_of_mem (getD_parity_mem enough r.isLt)
  have gap (c : Fin (missing data).length) : (missing data)[c] < data.length :=
    (List.getElem?_eq_some_iff.mp (mem_missing.mp (List.getElem_mem c.isLt))).1
  have apart : Function.Injective power := by
    intro r r' same
    have inside : (r : Nat) < (parity.map Prod.fst).length := by
      rw [List.length_map]; exact Nat.lt_of_lt_of_le r.isLt enough
    have inside' : (r' : Nat) < (parity.map Prod.fst).length := by
      rw [List.length_map]; exact Nat.lt_of_lt_of_le r'.isLt enough
    have values : (parity.map Prod.fst)[(r : Nat)] = (parity.map Prod.fst)[(r' : Nat)] := by
      rw [List.length_map] at inside inside'
      simpa only [power, List.getD_eq_getElem?_getD, List.getElem?_eq_getElem inside,
        List.getElem?_eq_getElem inside', Option.getD_some, List.getElem_map] using same
    exact Fin.ext (distinct.getElem_inj_iff.mp values)
  have coeff (r c : Fin (missing data).length)
      : (systemAt (equations data parity width) (missing data).length 0).coeff r c
        = node (missing data)[c] ^ power r := by
    rw [← weight_eq_pow]
    simp only [systemAt, entry, getD_equations width enough r.isLt, equation]
    rw [List.getD_eq_getElem?_getD, List.getElem?_map, List.getElem?_eq_getElem c.isLt]
    rfl
  rcases nodes with constant | few
  · have zero (r : Fin (missing data).length) : power r = 0 := constant _ (member r)
    refine nonsingular_of_distinct_powers coeff apart (fun r => small _ (member r)) ?_
      fun r _ positive => absurd (zero r) positive
    intro c c' _
    exact apart ((zero c).trans (zero c').symm)
  · refine nonsingular_of_distinct_powers coeff apart (fun r => small _ (member r)) ?_
      fun _ c _ => node_ne_zero (Nat.lt_of_lt_of_le (gap c) few)
    intro c c' same
    have index := node_inj (Nat.lt_of_lt_of_le (gap c) few) (Nat.lt_of_lt_of_le (gap c') few) same
    exact Fin.ext ((nodup_missing data).getElem_inj_iff.mp index)

/-- A decoding that succeeds restores the gaps, padded to the common width, and keeps the rest.
Witness: the reduced equations display the padded originals as their syndromes.
-/
theorem Coded.decode (coded : Coded originals data parity width) {result : List (Option Bytes)}
    (decoded : ReedSolomon.decode data parity width = some result) {j : Nat} {original : Bytes}
    (found : originals[j]? = some original)
    : result[j]? = some (some (if data[j]? = some none then padded width original else original))
    := by
  have inside : j < data.length := by
    rw [coded.count]
    exact (List.getElem?_eq_some_iff.mp found).1
  by_cases gap : j ∈ missing data
  · rw [if_pos (mem_missing.mp gap)]
    obtain ⟨enough, rows, ran, -, rfl⟩ := decode_eq_some decoded (List.ne_nil_of_mem gap)
    obtain ⟨shape, reduced, -, solves⟩ := (coded.square enough).eliminated (Nat.le_refl _) ran
    obtain ⟨position, inRange, rfl⟩ := List.mem_iff_getElem.mp gap
    have keys : ((missing data).zip rows).map Prod.fst = missing data :=
      List.map_fst_zip (Nat.le_of_eq shape.count.symm)
    have inRows : position < rows.length := by rw [shape.count]; exact inRange
    have member := getElem_mem_zip inRange inRows
    rw [fill_of_mem inside (by rw [keys]; exact nodup_missing data) member]
    refine congrArg (fun bytes => some (some bytes)) (eq_of_symbol ?_ fun k => ?_)
    · rw [length_padded (coded.widths original (List.mem_of_getElem? found)),
        shape.syn _ (List.getElem_mem inRows)]
    · have reducedAt : (systemAt rows _ k).Reduced (missing data).length := reduced
      have here := congrFun (reducedAt.solution_eq_rhs (solves k _ (coded.solution enough k)))
        ⟨position, inRange⟩
      have original' : originals.getD (missing data)[position] [] = original := by
        rw [List.getD_eq_getElem?_getD, found, Option.getD_some]
      have row : rows.getD position default = rows[position] := by
        rw [List.getD_eq_getElem?_getD, List.getElem?_eq_getElem inRows, Option.getD_some]
      simp only [systemAt, row] at here
      rw [symbol_padded, ← here]
      exact congrArg (symbol · k) original'
  · have kept : result[j]? = data[j]? := by
      by_cases gaps : missing data = []
      · rw [ReedSolomon.decode, gaps] at decoded
        obtain rfl := Option.some.inj decoded
        rfl
      · obtain ⟨-, rows, -, length, rfl⟩ := decode_eq_some decoded gaps
        exact fill_of_not_mem (by rwa [List.map_fst_zip (Nat.le_of_eq length.symm)])
    rw [mem_missing] at gap
    rw [if_neg gap, kept]
    obtain ⟨stored, here⟩ : ∃ stored, data[j]? = some stored :=
      ⟨_, List.getElem?_eq_getElem inside⟩
    cases stored with
    | none => exact absurd here gap
    | some fragment =>
        obtain rfl := Option.some.inj ((coded.agrees j fragment here).symm.trans found)
        exact here

/-- With enough parity fragments of different indices below three, decoding succeeds. -/
theorem Coded.decode_isSome (coded : Coded originals data parity width)
    (enough : (missing data).length ≤ parity.length)
    (distinct : (parity.map Prod.fst).Nodup) (small : ∀ p ∈ parity.map Prod.fst, p < 3)
    (nodes : (∀ p ∈ parity.map Prod.fst, p = 0) ∨ originals.length ≤ 255)
    : ∃ result, ReedSolomon.decode data parity width = some result := by
  rw [← coded.count] at nodes
  by_cases gaps : missing data = []
  · refine ⟨data, ?_⟩
    rw [ReedSolomon.decode, gaps]
    rfl
  · obtain ⟨rows, ran⟩ := (coded.square enough).eliminate_isSome
      (nonsingular_equations width enough distinct small nodes) (Nat.le_refl _)
    refine ⟨((missing data).zip rows).foldl
      (fun data gap => data.set gap.1 (some gap.2.syn)) data, ?_⟩
    rw [ReedSolomon.decode, if_neg (by simpa using gaps), if_neg (Nat.not_lt.mpr enough)]
    exact congrArg (Option.map _) ran

theorem Erased.coded (erased : Erased originals data parity width)
    : Coded originals data parity width where
  widths original member := Nat.le_of_eq (erased.widths original member)
  count := erased.count
  agrees := erased.agrees
  encodes p fragment member k _ := erased.encodes p fragment member k

/-- Decoding restores the originals from as many parity fragments as data fragments are
missing.
-/
theorem Erased.decode (erased : Erased originals data parity width)
    (enough : (missing data).length ≤ parity.length)
    : ReedSolomon.decode data parity width = some (originals.map some) := by
  obtain ⟨result, decoded⟩ := erased.coded.decode_isSome enough
    (erased.increasing.imp Nat.ne_of_lt) erased.small erased.nodes
  rw [decoded]
  have length := (length_decode decoded).trans erased.count
  refine congrArg some (List.ext_getElem? fun j => ?_)
  rw [List.getElem?_map]
  cases found : originals[j]? with
  | none =>
      rw [List.getElem?_eq_none_iff, ← length] at found
      rw [List.getElem?_eq_none found]
      rfl
  | some original =>
      have full := erased.widths original (List.mem_of_getElem? found)
      rw [erased.coded.decode decoded found, padded_of_length full, ite_self]
      rfl

end ReedSolomon

end Creek.Tight
