import Mathlib

/-! Square linear systems over a field under Gauss-Jordan elimination.
One elimination pass exchanges a pivot row into place, scales it, and clears its column.
Passes keep the solution set, so a fully reduced system displays its only solution and a
pass without a pivot exhibits a nonzero homogeneous solution.
-/

namespace Creek.Library

variable {K : Type*} [Field K] {m : ℕ}

/-- `m` linear equations in `m` unknowns: `∑ c, coeff r c * x c = rhs r`. -/
@[ext]
structure LinearSystem (K : Type*) (m : ℕ) where
  coeff : Fin m → Fin m → K
  rhs : Fin m → K

namespace LinearSystem

/-- The left-hand side of row `r` at `x`. -/
def apply (system : LinearSystem K m) (x : Fin m → K) (r : Fin m) : K :=
  ∑ c, system.coeff r c * x c

def Solution (system : LinearSystem K m) (x : Fin m → K) : Prop :=
  ∀ r, system.apply x r = system.rhs r

/-- The same equations with zero right-hand sides. -/
def homogeneous (system : LinearSystem K m) : LinearSystem K m where
  coeff := system.coeff
  rhs := 0

/-- Only the zero vector solves the homogeneous system. -/
def Nonsingular (system : LinearSystem K m) : Prop :=
  ∀ x, system.homogeneous.Solution x → x = 0

/-- The row in position `r` after exchanging rows `pivot` and `col`. -/
def exchange (pivot col r : Fin m) : Fin m :=
  if r = col then pivot else if r = pivot then col else r

/-- One elimination pass: row `pivot` moves to position `col`, is scaled to have a unit
pivot, and is subtracted from every other row.
-/
def clear (system : LinearSystem K m) (pivot col : Fin m) : LinearSystem K m where
  coeff r c :=
    let scaled := system.coeff pivot c * (system.coeff pivot col)⁻¹
    if r = col then scaled
    else
      system.coeff (exchange pivot col r) c
      - system.coeff (exchange pivot col r) col * scaled
  rhs r :=
    let scaled := system.rhs pivot * (system.coeff pivot col)⁻¹
    if r = col then scaled
    else
      system.rhs (exchange pivot col r)
      - system.coeff (exchange pivot col r) col * scaled

/-- The first `n` columns are unit columns. -/
def Reduced (system : LinearSystem K m) (n : ℕ) : Prop :=
  ∀ r c : Fin m, (c : ℕ) < n → system.coeff r c = if r = c then 1 else 0

-- A pass keeps the solutions

/-- The left-hand sides transform exactly as the coefficients do, by linearity. -/
theorem clear_apply (system : LinearSystem K m) (pivot col : Fin m) (x : Fin m → K)
    (r : Fin m)
    : (system.clear pivot col).apply x r
      = if r = col then system.apply x pivot * (system.coeff pivot col)⁻¹
        else
          system.apply x (exchange pivot col r)
          - system.coeff (exchange pivot col r) col
            * (system.apply x pivot * (system.coeff pivot col)⁻¹) := by
  by_cases same : r = col
  · simp only [apply, clear, same, if_true, Finset.sum_mul]
    exact Finset.sum_congr rfl fun c _ => by ring
  · simp only [apply, clear, same, if_false, Finset.sum_mul, Finset.mul_sum,
      ← Finset.sum_sub_distrib]
    exact Finset.sum_congr rfl fun c _ => by ring

/-- Every row other than the target is an exchanged row of the old system. -/
theorem exchange_surjective (pivot col row : Fin m) (other : row ≠ pivot)
    : ∃ r, r ≠ col ∧ exchange pivot col r = row := by
  by_cases same : row = col
  · refine ⟨pivot, fun equal => other (same.trans equal.symm), ?_⟩
    by_cases equal : pivot = col
    · exact absurd (same.trans equal.symm) other
    · simp [exchange, equal, same]
  · exact ⟨row, same, by simp [exchange, same, other]⟩

/-- A pass with a nonzero pivot has the solutions of the old system. Witness: forward by
linearity; backward the pivot row is recovered first and then added back to the others.
-/
theorem solution_clear_iff (system : LinearSystem K m) {pivot col : Fin m}
    (nonzero : system.coeff pivot col ≠ 0) (x : Fin m → K)
    : (system.clear pivot col).Solution x ↔ system.Solution x := by
  constructor
  · intro solved
    have pivotRow : system.apply x pivot = system.rhs pivot := by
      have row := solved col
      rw [clear_apply] at row
      simp only [clear, if_true] at row
      exact mul_right_cancel₀ (inv_ne_zero nonzero) row
    intro row
    by_cases same : row = pivot
    · exact same ▸ pivotRow
    · obtain ⟨r, apart, moved⟩ := exchange_surjective pivot col row same
      have equation := solved r
      rw [clear_apply] at equation
      simp only [clear, apart, if_false, moved, pivotRow] at equation
      exact sub_left_injective equation
  · intro solved r
    rw [clear_apply, solved pivot, solved (exchange pivot col r)]
    rfl

/-- Passes act on the coefficients alone, so they keep homogeneous systems homogeneous. -/
theorem homogeneous_clear (system : LinearSystem K m) (pivot col : Fin m)
    : (system.clear pivot col).homogeneous = system.homogeneous.clear pivot col := by
  ext r c
  · rfl
  · simp [homogeneous, clear]

/-- A pass with a nonzero pivot neither creates nor removes singularity. -/
theorem nonsingular_clear_iff (system : LinearSystem K m) {pivot col : Fin m}
    (nonzero : system.coeff pivot col ≠ 0)
    : (system.clear pivot col).Nonsingular ↔ system.Nonsingular := by
  simp only [Nonsingular, homogeneous_clear]
  have same (x : Fin m → K)
      : (system.homogeneous.clear pivot col).Solution x ↔ system.homogeneous.Solution x :=
    solution_clear_iff system.homogeneous nonzero x
  simp only [same]

-- A pass extends the reduced columns

/-- With the pivot at or below the diagonal, a pass reduces one more column. Witness: in an
earlier column the pivot row is zero, so that column keeps its unit shape.
-/
theorem Reduced.clear {system : LinearSystem K m} {n : ℕ} (reduced : system.Reduced n)
    {pivot col : Fin m} (position : (col : ℕ) = n) (below : n ≤ (pivot : ℕ))
    (nonzero : system.coeff pivot col ≠ 0)
    : (system.clear pivot col).Reduced (n + 1) := by
  intro r c bound
  by_cases last : c = col
  · subst last
    by_cases same : r = c
    · simp [LinearSystem.clear, same, nonzero]
    · simp [LinearSystem.clear, same, nonzero]
  · have earlier : (c : ℕ) < n := by
      have apart : (c : ℕ) ≠ col := fun equal => last (Fin.ext equal)
      omega
    have pivotZero : system.coeff pivot c = 0 := by
      rw [reduced pivot c earlier, if_neg]
      rintro rfl
      omega
    by_cases same : r = col
    · have apart : r ≠ c := fun equal => last (equal.symm.trans same)
      simp [LinearSystem.clear, same, pivotZero, Ne.symm last]
    · simp only [LinearSystem.clear, same, if_false, pivotZero, zero_mul, mul_zero, sub_zero]
      rw [reduced _ c earlier]
      by_cases moved : r = pivot
      · have apart : r ≠ c := by
          rintro rfl
          have := congrArg Fin.val moved
          omega
        have target : exchange pivot col r = col := by simp [exchange, moved]
        simp [target, apart, Ne.symm last]
      · simp [exchange, same, moved]

/-- A fully reduced system displays its solution: the right-hand sides. -/
theorem Reduced.solution_eq_rhs {system : LinearSystem K m} (reduced : system.Reduced m)
    {x : Fin m → K} (solved : system.Solution x)
    : x = system.rhs := by
  funext r
  have row := solved r
  simp only [apply, reduced r _ (Fin.isLt _), ite_mul, one_mul, zero_mul, Finset.sum_ite_eq,
    Finset.mem_univ, if_true] at row
  exact row

/-- When a pass finds no pivot at or below the diagonal, the system is singular. Witness:
the unit vector of the column, corrected in the reduced columns.
-/
theorem Reduced.singular {system : LinearSystem K m} {n : ℕ} (reduced : system.Reduced n)
    {col : Fin m} (position : (col : ℕ) = n)
    (noPivot : ∀ r : Fin m, n ≤ (r : ℕ) → system.coeff r col = 0)
    : ¬ system.Nonsingular := by
  intro nonsingular
  let x : Fin m → K := fun c =>
    if c = col then 1 else if (c : ℕ) < n then - system.coeff c col else 0
  have value (r c : Fin m) : system.coeff r c * x c
      = (if c = col then system.coeff r col else 0)
        + if c = r then (if (r : ℕ) < n then - system.coeff r col else 0) else 0 := by
    by_cases last : c = col
    · subst last
      by_cases same : c = r
      · subst same
        simp [x, position]
      · simp [x, same]
    · by_cases earlier : (c : ℕ) < n
      · rw [reduced r c earlier]
        by_cases same : c = r
        · subst same
          simp [x, last, earlier]
        · simp [x, last, earlier, same, Ne.symm same]
      · by_cases same : c = r
        · subst same
          simp [x, last, earlier]
        · simp [x, last, earlier, same]
  have solved : system.homogeneous.Solution x := by
    intro r
    change ∑ c, system.coeff r c * x c = 0
    simp only [value, Finset.sum_add_distrib, Finset.sum_ite_eq', Finset.mem_univ, if_true]
    by_cases earlier : (r : ℕ) < n
    · simp [earlier]
    · simp [earlier, noPivot r (by omega)]
  have zero := congrFun (nonsingular x solved) col
  simp [x] at zero

end LinearSystem

end Creek.Library
