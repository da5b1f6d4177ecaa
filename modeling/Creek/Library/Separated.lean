import Mathlib

/-! Texts whose parts end at a mark. -/

namespace Creek.Library

variable {α : Type*} [BEq α] [LawfulBEq α] {mark : α} {front back other rest : List α}

theorem takeWhile_mark (free : mark ∉ front)
    : (front ++ mark :: back).takeWhile (· != mark) = front := by
  rw [List.takeWhile_append_of_pos]
  · simp
  · intro byte member
    exact bne_iff_ne.mpr fun same => free (same ▸ member)

theorem dropWhile_mark (free : mark ∉ front)
    : (front ++ mark :: back).dropWhile (· != mark) = mark :: back := by
  rw [List.dropWhile_append_of_pos]
  · simp
  · intro byte member
    exact bne_iff_ne.mpr fun same => free (same ▸ member)

theorem mark_notMem_takeWhile (text : List α) : mark ∉ text.takeWhile (· != mark) := by
  intro member
  have differs := List.mem_takeWhile_imp member
  simp at differs

/-- The first mark of a text is in one place. -/
theorem split_unique (free : mark ∉ front) (otherFree : mark ∉ other)
    (same : front ++ mark :: back = other ++ mark :: rest)
    : front = other ∧ back = rest := by
  have fronts := congrArg (List.takeWhile (· != mark)) same
  have backs := congrArg (List.dropWhile (· != mark)) same
  rw [takeWhile_mark free, takeWhile_mark otherFree] at fronts
  rw [dropWhile_mark free, dropWhile_mark otherFree] at backs
  exact ⟨fronts, (List.cons.inj backs).2⟩

/-- Lines that each end in the mark are taken apart again. -/
theorem splitOn_lines {lines : List (List α)} (free : ∀ line ∈ lines, mark ∉ line)
    : (lines.flatMap (· ++ [mark])).splitOn mark = lines ++ [[]] := by
  induction lines with
  | nil => rfl
  | cons line lines ih =>
      rw [List.flatMap_cons, List.append_assoc, List.singleton_append, List.splitOn_append_cons_self,
        List.splitOn_eq_singleton (free line List.mem_cons_self),
        ih fun other member => free other (List.mem_cons_of_mem _ member)]
      rfl

end Creek.Library
