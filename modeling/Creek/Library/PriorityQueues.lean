import Mathlib

/-! Priority queues by what they promise. The element at the top has a least key; which of several such
elements it is stays open, so a result about every priority queue holds for any way of breaking ties.
-/

namespace Creek.Library

/-- A priority queue of elements with keys, least key first. `modifyTop` changes the element at the top in
place, which a queue bears as long as the key stays.
-/
structure PriorityQueue (α : Type) {κ : Type} [LinearOrder κ] (key : α → κ) where
  Heap : Type
  empty : Heap
  push : Heap → α → Heap
  top? : Heap → Option α
  pop : Heap → Heap
  modifyTop : (α → α) → Heap → Heap
  elements : Heap → List α
  elements_empty : elements empty = []
  elements_push : ∀ heap element, (elements (push heap element)).Perm (element :: elements heap)
  top?_eq_none : ∀ heap, top? heap = none ↔ elements heap = []
  top?_le : ∀ heap element, top? heap = some element → ∀ other ∈ elements heap, key element ≤ key other
  elements_pop : ∀ heap element, top? heap = some element
    → (elements heap).Perm (element :: elements (pop heap))
  pop_modifyTop : ∀ heap element change, top? heap = some element → key (change element) = key element
    → pop (modifyTop change heap) = pop heap

namespace PriorityQueue

variable {α κ : Type} [LinearOrder κ] {key : α → κ} (queue : PriorityQueue α key)

def size (heap : queue.Heap) : Nat :=
  (queue.elements heap).length

/-- Moves all elements out from the top, leaving the husks behind to be popped. `none` is a loop that has
not come to its end.
-/
def drain (husk : α → α) : Nat → queue.Heap → Option (List α × queue.Heap)
  | 0, _ => none
  | fuel + 1, heap =>
      match queue.top? heap with
      | none => some ([], heap)
      | some element =>
          match drain husk fuel (queue.pop (queue.modifyTop husk heap)) with
          | none => none
          | some (rest, emptied) => some (element :: rest, emptied)

/-- Pushes elements one after the other. -/
def pushAll (heap : queue.Heap) (elements : List α) : queue.Heap :=
  elements.foldl queue.push heap

/-- Draining comes to an end after one turn for each element and one more, and hands out the elements in
the order of their keys.
-/
theorem drain_spec {husk : α → α} (keeps : ∀ element, key (husk element) = key element)
    {fuel : Nat} {heap : queue.Heap} (enough : queue.size heap < fuel)
    : ∃ drained emptied, queue.drain husk fuel heap = some (drained, emptied)
      ∧ drained.Perm (queue.elements heap)
      ∧ drained.Pairwise (fun earlier later => key earlier ≤ key later)
      ∧ queue.elements emptied = [] := by
  induction fuel generalizing heap with
  | zero => cases enough
  | succ fuel ih =>
      rw [drain]
      rcases top : queue.top? heap with none | element
      · have none_left := (queue.top?_eq_none heap).mp top
        exact ⟨[], heap, rfl, none_left ▸ .rfl, .nil, none_left⟩
      · have popped := queue.elements_pop heap element top
        have smaller : queue.size (queue.pop heap) < fuel := by
          have lengths := popped.length_eq
          rw [List.length_cons] at lengths
          unfold size at enough ⊢
          omega
        obtain ⟨rest, emptied, drains, perm, sorted, none_left⟩ := ih smaller
        rw [queue.pop_modifyTop heap element husk top (keeps element), drains]
        refine ⟨element :: rest, emptied, rfl, (perm.cons element).trans popped.symm, ?_, none_left⟩
        refine List.pairwise_cons.mpr ⟨fun later member => ?_, sorted⟩
        exact queue.top?_le heap element top later
          (popped.mem_iff.mpr (List.mem_cons_of_mem _ (perm.mem_iff.mp member)))

theorem elements_pushAll (heap : queue.Heap) (elements : List α)
    : (queue.elements (queue.pushAll heap elements)).Perm (elements ++ queue.elements heap) := by
  induction elements generalizing heap with
  | nil => exact .rfl
  | cons element rest ih =>
      refine (ih (queue.push heap element)).trans ?_
      refine ((queue.elements_push heap element).append_left rest).trans ?_
      exact List.perm_middle

-- A queue that keeps its elements in order

/-- A list in the order of the keys, as a priority queue: of equal keys the last to come is the first to
go.
-/
def sorted (α : Type) {κ : Type} [LinearOrder κ] (key : α → κ) : PriorityQueue α key where
  Heap := { list : List α // list.Pairwise fun earlier later => key earlier ≤ key later }
  empty := ⟨[], .nil⟩
  push heap element :=
    ⟨
      heap.1.orderedInsert (fun earlier later => key earlier ≤ key later) element,
      heap.2.orderedInsert element _
    ⟩
  top? heap := heap.1.head?
  pop heap := ⟨heap.1.tail, heap.2.tail⟩
  modifyTop change heap :=
    match heap with
    | ⟨[], ordered⟩ => ⟨[], ordered⟩
    | ⟨element :: rest, ordered⟩ =>
        if same : key (change element) = key element then
          ⟨change element :: rest, List.pairwise_cons.mpr (same ▸ List.pairwise_cons.mp ordered)⟩
        else ⟨element :: rest, ordered⟩
  elements heap := heap.1
  elements_empty := rfl
  elements_push heap element := List.perm_orderedInsert _ element heap.1
  top?_eq_none heap := List.head?_eq_none_iff
  top?_le := by
    rintro ⟨_ | ⟨element, rest⟩, ordered⟩ top is_top other member
    · cases is_top
    · cases is_top
      rcases List.mem_cons.mp member with rfl | later
      · exact le_rfl
      · exact (List.pairwise_cons.mp ordered).1 other later
  elements_pop := by
    rintro ⟨_ | ⟨element, rest⟩, ordered⟩ top is_top
    · cases is_top
    · cases is_top
      exact .rfl
  pop_modifyTop := by
    rintro ⟨_ | ⟨element, rest⟩, ordered⟩ top change is_top same
    · cases is_top
    · cases is_top
      simp only [dif_pos same, List.tail_cons]

end PriorityQueue

end Creek.Library
