import Mathlib

/-! Singly linked lists in a heap. A chain from a pointer runs through the nodes of a list of addresses to
the null pointer. Writes to other nodes do not change it.
-/

namespace Creek.Library

/-- The nodes at their addresses; a deleted node is gone. -/
abbrev Heap (ν : Type*) := Nat → Option ν

variable {ν : Type*} {next : ν → Option Nat} {heap : Heap ν} {pointer : Option Nat}
  {addresses other : List Nat} {address : Nat} {node : ν}

/-- What is read of nodes does not depend on the others. -/
theorem map_read_update {β : Type*} (read : Option ν → β) (outside : address ∉ addresses)
    (node : Option ν)
    : (addresses.map fun other => read (Function.update heap address node other))
      = addresses.map fun other => read (heap other) := by
  refine List.map_congr_left fun other member => ?_
  have apart : other ≠ address := fun same => outside (same ▸ member)
  rw [Function.update_of_ne apart]

/-- Nor does it change when a node is replaced by one that reads the same. -/
theorem read_update {β : Type*} {read : Option ν → β} {replaced : ν}
    (found : heap address = some node) (same : read (some replaced) = read (some node))
    : (fun other => read (Function.update heap address (some replaced) other))
      = fun other => read (heap other) := by
  funext other
  by_cases here : other = address
  · rw [here, Function.update_self, found, same]
  · rw [Function.update_of_ne here]

/-- Following the pointer runs through the nodes at these addresses and ends. -/
def Chain (next : ν → Option Nat) (heap : Heap ν) : Option Nat → List Nat → Prop
  | pointer, [] => pointer = none
  | pointer, address :: rest =>
      pointer = some address ∧ ∃ node, heap address = some node ∧ Chain next heap (next node) rest

namespace Chain

/-- A chain from a pointer is the only one. -/
theorem unique (left : Chain next heap pointer addresses) (right : Chain next heap pointer other)
    : addresses = other := by
  induction addresses generalizing pointer other with
  | nil =>
      rcases other with _ | ⟨address, rest⟩
      · rfl
      · cases left.symm.trans right.1
  | cons address rest ih =>
      obtain ⟨rfl, node, found, left⟩ := left
      rcases other with _ | ⟨head, tail⟩
      · cases right
      · obtain ⟨same, again, foundAgain, right⟩ := right
        obtain rfl := Option.some.inj same
        obtain rfl := Option.some.inj (found.symm.trans foundAgain)
        rw [ih left right]

/-- Every node of a chain is there. -/
theorem live (chain : Chain next heap pointer addresses) (member : address ∈ addresses)
    : ∃ node, heap address = some node := by
  induction addresses generalizing pointer with
  | nil => cases member
  | cons head rest ih =>
      obtain ⟨-, node, found, chain⟩ := chain
      rcases List.mem_cons.mp member with rfl | member
      · exact ⟨node, found⟩
      · exact ih chain member

/-- A chain through a node goes on from it. -/
theorem suffix {front back : List Nat} (chain : Chain next heap pointer (front ++ back))
    : ∃ middle, Chain next heap middle back := by
  induction front generalizing pointer with
  | nil => exact ⟨pointer, chain⟩
  | cons address rest ih =>
      obtain ⟨-, node, -, chain⟩ := chain
      exact ih chain

/-- A chain ends, so it passes through no node twice. -/
theorem nodup (chain : Chain next heap pointer addresses) : addresses.Nodup := by
  induction addresses generalizing pointer with
  | nil => exact List.nodup_nil
  | cons address rest ih =>
      obtain ⟨rfl, node, found, tail⟩ := chain
      refine List.nodup_cons.mpr ⟨fun again => ?_, ih tail⟩
      obtain ⟨front, back, rfl⟩ := List.append_of_mem again
      obtain ⟨middle, same, node, foundAgain, later⟩ := tail.suffix
      have longer : Chain next heap (some address) (address :: back) :=
        ⟨rfl, node, foundAgain, later⟩
      have whole : Chain next heap (some address) (address :: (front ++ address :: back)) :=
        ⟨rfl, _, found, tail⟩
      have lengths := congrArg List.length (longer.unique whole)
      simp only [List.length_cons, List.length_append] at lengths
      omega

/-- Writes to other nodes do not change a chain. -/
theorem frame {after : Heap ν} (chain : Chain next heap pointer addresses)
    (same : ∀ address ∈ addresses, after address = heap address)
    : Chain next after pointer addresses := by
  induction addresses generalizing pointer with
  | nil => exact chain
  | cons address rest ih =>
      obtain ⟨rfl, node, found, chain⟩ := chain
      refine ⟨rfl, node, (same address List.mem_cons_self).trans found, ?_⟩
      exact ih chain fun other member => same other (List.mem_cons_of_mem _ member)

theorem update (chain : Chain next heap pointer addresses) (outside : address ∉ addresses)
    (node : Option ν)
    : Chain next (Function.update heap address node) pointer addresses := by
  refine chain.frame fun other member => Function.update_of_ne ?_ _ _
  rintro rfl
  exact outside member

/-- A new node in front of a chain. -/
theorem cons (chain : Chain next heap pointer addresses) (found : heap address = some node)
    (leads : next node = pointer)
    : Chain next heap (some address) (address :: addresses) := by
  refine ⟨rfl, node, found, ?_⟩
  rw [leads]
  exact chain

/-- The last node of a chain is linked to a new one that leads nowhere. -/
theorem concat {last : Nat} {ending added : ν} (chain : Chain next heap pointer (addresses ++ [last]))
    (outside : address ∉ addresses ++ [last]) (here : heap address = some added)
    (stops : next added = none) (leads : next ending = some address)
    : Chain next (Function.update heap last (some ending)) pointer
        (addresses ++ [last] ++ [address]) := by
  induction addresses generalizing pointer with
  | nil =>
      obtain ⟨rfl, -⟩ := chain
      have apart : address ≠ last := fun same => outside (same ▸ List.mem_singleton_self last)
      refine ⟨rfl, ending, Function.update_self _ _ _, leads, added, ?_, stops⟩
      rw [Function.update_of_ne apart]
      exact here
  | cons head rest ih =>
      have whole := chain.nodup
      obtain ⟨rfl, node, found, chain⟩ := chain
      have apart : head ≠ last := by
        rintro rfl
        exact (List.nodup_cons.mp whole).1 (List.mem_append_right _ (List.mem_singleton_self _))
      refine ⟨rfl, node, ?_, ih chain fun member => outside (List.mem_cons_of_mem _ member)⟩
      rw [Function.update_of_ne apart]
      exact found

end Chain

end Creek.Library
