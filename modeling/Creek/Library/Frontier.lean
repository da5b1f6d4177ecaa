import Mathlib

/-! The frontier of a growing set of received numbers: the least number from a start on that
is still missing. Cumulative acknowledgements and in-order delivery are both read off it.
-/

namespace Creek.Library

/-- A finite list leaves numbers from any start on unreceived. -/
theorem exists_missing (start : Nat) (received : List Nat)
    : ∃ number, start ≤ number ∧ number ∉ received := by
  obtain ⟨bound, above⟩ : ∃ bound, ∀ number ∈ received, number < bound := by
    induction received with
    | nil => exact ⟨0, by simp⟩
    | cons head rest ih =>
        obtain ⟨bound, above⟩ := ih
        refine ⟨max bound (head + 1), fun number member => ?_⟩
        rcases List.mem_cons.mp member with rfl | later
        · omega
        · have small := above number later
          omega
  refine ⟨start + bound, by omega, fun member => ?_⟩
  have small := above _ member
  omega

/-- The least number from `start` on that is not in `received`. -/
def frontier (start : Nat) (received : List Nat) : Nat := Nat.find (exists_missing start received)

section

variable {start number : Nat} {received : List Nat}

theorem start_le_frontier : start ≤ frontier start received :=
  (Nat.find_spec (exists_missing start received)).1

theorem frontier_not_mem : frontier start received ∉ received :=
  (Nat.find_spec (exists_missing start received)).2

/-- Everything between the start and the frontier has been received. -/
theorem mem_of_lt_frontier (low : start ≤ number) (below : number < frontier start received)
    : number ∈ received :=
  by_contra fun absent => Nat.find_min (exists_missing start received) below ⟨low, absent⟩

/-- A missing number whose predecessors from the start on are received is the frontier. -/
theorem frontier_eq (low : start ≤ number) (absent : number ∉ received)
    (filled : ∀ earlier, start ≤ earlier → earlier < number → earlier ∈ received)
    : frontier start received = number := by
  rcases Nat.lt_trichotomy (frontier start received) number with below | same | above
  · exact absurd (filled _ start_le_frontier below) frontier_not_mem
  · exact same
  · exact absurd (mem_of_lt_frontier low above) absent

/-- Nothing received: the frontier is the start. -/
@[simp] theorem frontier_nil : frontier start [] = start :=
  frontier_eq (Nat.le_refl _) List.not_mem_nil (by omega)

/-- Receiving any number but the missing one leaves the frontier. -/
theorem frontier_cons_of_ne (other : number ≠ frontier start received)
    : frontier start (number :: received) = frontier start received := by
  apply frontier_eq start_le_frontier
  · rw [List.mem_cons, not_or]
    exact ⟨other.symm, frontier_not_mem⟩
  · intro earlier low below
    exact List.mem_cons_of_mem _ (mem_of_lt_frontier low below)

/-- Receiving the missing number moves the frontier past it and the run received behind it. -/
theorem frontier_cons_frontier {run : Nat}
    (filled : ∀ offset < run, frontier start received + 1 + offset ∈ received)
    (absent : frontier start received + 1 + run ∉ received)
    : frontier start (frontier start received :: received)
      = frontier start received + 1 + run := by
  have low : start ≤ frontier start received := start_le_frontier
  apply frontier_eq (by omega)
  · rw [List.mem_cons, not_or]
    exact ⟨by omega, absent⟩
  · intro earlier fromStart below
    rw [List.mem_cons]
    rcases Nat.lt_trichotomy earlier (frontier start received) with before | same | after
    · exact Or.inr (mem_of_lt_frontier fromStart before)
    · exact Or.inl same
    · have reached := filled (earlier - (frontier start received + 1)) (by omega)
      rw [Nat.add_sub_cancel' after] at reached
      exact Or.inr reached

/-- A list that contains every number of a range and none after it has its frontier there. -/
theorem frontier_of_complete {last : Nat} (low : start ≤ last + 1)
    (complete : ∀ number, start ≤ number → number ≤ last → number ∈ received)
    (bounded : ∀ number ∈ received, number ≤ last)
    : frontier start received = last + 1 :=
  frontier_eq low (fun member => by have := bounded _ member; omega)
    fun earlier fromStart below => complete earlier fromStart (by omega)

end

end Creek.Library
