import Mathlib

/-! The order in which a hash table is walked. It holds for one walk only, and is given as the list of the
keys that the walk meets.
-/

namespace Creek.Library

variable {α κ : Type} [DecidableEq κ] {key : α → κ} {order : List κ}

/-- The elements of a table as a walk meets them; those whose keys it does not name come last. -/
def walked (key : α → κ) (order : List κ) (elements : List α) : List α :=
  elements.insertionSort fun one other => order.idxOf (key one) ≤ order.idxOf (key other)

theorem walked_perm (key : α → κ) (order : List κ) (elements : List α)
    : (walked key order elements).Perm elements :=
  List.perm_insertionSort _ elements

@[simp] theorem mem_walked {elements : List α} {element : α}
    : element ∈ walked key order elements ↔ element ∈ elements :=
  (walked_perm key order elements).mem_iff

/-- Elements with distinct keys are met in any arrangement, by the walk that names their keys so. -/
theorem walked_eq {arranged elements : List α} (distinct : (arranged.map key).Nodup)
    (perm : arranged.Perm elements)
    : walked key (arranged.map key) elements = arranged := by
  have met := (walked_perm key (arranged.map key) elements).trans perm.symm
  let before (one other : α) : Prop :=
    (arranged.map key).idxOf (key one) ≤ (arranged.map key).idxOf (key other)
  refine @List.Perm.eq_of_pairwise _ before _ _ ?_ ?_ ?_ met
  · intro one other member held earlier later
    have listed : key one ∈ arranged.map key := List.mem_map_of_mem (met.mem_iff.mp member)
    have same := (List.idxOf_inj listed).mp (Nat.le_antisymm earlier later)
    exact List.inj_on_of_nodup_map distinct (met.mem_iff.mp member) held same
  · have total : Std.Total before := ⟨fun _ _ => Nat.le_total _ _⟩
    have trans : IsTrans α before := ⟨fun _ _ _ => Nat.le_trans⟩
    exact List.pairwise_insertionSort _ elements
  · refine List.pairwise_iff_getElem.mpr fun earlier later bound bound' order => ?_
    have place (i : Nat) (small : i < arranged.length)
        : (arranged.map key).idxOf (key arranged[i]) = i := by
      have found := distinct.idxOf_getElem i (by simpa using small)
      rwa [List.getElem_map] at found
    show List.idxOf _ _ ≤ List.idxOf _ _
    rw [place earlier bound, place later bound']
    exact Nat.le_of_lt order

end Creek.Library
