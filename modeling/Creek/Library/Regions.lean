import Mathlib

/-! Regions of memory and what it means to allocate them: a region is handed out apart from those in use,
and is taken back from them.
-/

namespace Creek.Library

/-- Consecutive bytes from an address on. -/
@[ext] structure Region where
  address : Nat
  size : Nat
  deriving DecidableEq, Repr

namespace Region

variable {left right inner outer : Region}

/-- The regions share no byte. -/
def Apart (left right : Region) : Prop :=
  left.address + left.size ≤ right.address ∨ right.address + right.size ≤ left.address

instance : Decidable (left.Apart right) := by
  unfold Apart
  infer_instance

theorem Apart.symm (apart : left.Apart right) : right.Apart left := Or.symm apart

instance : Std.Symm Apart := ⟨fun _ _ => Apart.symm⟩

/-- A region begins where another one does, and is no longer. -/
structure Fits (inner outer : Region) : Prop where
  address : inner.address = outer.address
  size : inner.size ≤ outer.size

/-- What fits into regions that are apart is apart. -/
theorem Apart.of_fits {other inOther : Region} (apart : outer.Apart other)
    (fits : inner.Fits outer) (otherFits : inOther.Fits other)
    : inner.Apart inOther := by
  have first := fits.address
  have second := otherFits.address
  have bound := fits.size
  have otherBound := otherFits.size
  rcases apart with before | behind
  · exact .inl (by omega)
  · exact .inr (by omega)

/-- Regions that are apart have different addresses, unless they are empty. -/
theorem Apart.address_ne (apart : left.Apart right) (nonempty : 0 < left.size)
    (otherNonempty : 0 < right.size)
    : left.address ≠ right.address := by
  intro same
  rcases apart with before | behind <;> omega

/-- Addresses of regions that are apart from each other occur once. -/
theorem nodup_address {regions : List Region} (apart : regions.Pairwise Apart)
    (nonempty : ∀ region ∈ regions, 0 < region.size)
    : (regions.map address).Nodup := by
  rw [List.Nodup, List.pairwise_map]
  exact apart.imp_of_mem fun member other apart =>
    apart.address_ne (nonempty _ member) (nonempty _ other)

end Region

/-- What passes between an allocator and its client. -/
inductive Handover where
  | allocated (region : Region)
  | released (region : Region)
  deriving DecidableEq, Repr

/-- The regions that are in use after some handovers. -/
def inUse (log : List Handover) : List Region :=
  log.foldl
    (fun used handover =>
      match handover with
      | .allocated region => region :: used
      | .released region => used.erase region)
    []

@[simp] theorem inUse_allocated (log : List Handover) (region : Region)
    : inUse (log ++ [.allocated region]) = region :: inUse log := by
  rw [inUse, List.foldl_append]
  rfl

@[simp] theorem inUse_released (log : List Handover) (region : Region)
    : inUse (log ++ [.released region]) = (inUse log).erase region := by
  rw [inUse, List.foldl_append]
  rfl

/-- The handovers of an allocator: it hands out what is apart from all that is in use, and what it is given
back is in use.
-/
inductive Allocations : List Handover → Prop
  | start : Allocations []
  | allocate {log : List Handover} {region : Region} (earlier : Allocations log)
      (apart : ∀ other ∈ inUse log, region.Apart other)
      : Allocations (log ++ [.allocated region])
  | release {log : List Handover} {region : Region} (earlier : Allocations log)
      (found : region ∈ inUse log)
      : Allocations (log ++ [.released region])

/-- The regions in use share no byte. -/
theorem Allocations.pairwise_apart {log : List Handover} (allocations : Allocations log)
    : (inUse log).Pairwise Region.Apart := by
  induction allocations with
  | start => exact .nil
  | allocate earlier apart ih =>
      rw [inUse_allocated]
      exact ih.cons apart
  | release earlier found ih =>
      rw [inUse_released]
      exact ih.sublist List.erase_sublist

/-- Two regions in use are apart where their addresses differ. -/
theorem Allocations.apart {log : List Handover} {region other : Region}
    (allocations : Allocations log) (member : region ∈ inUse log) (otherMember : other ∈ inUse log)
    (differ : region.address ≠ other.address)
    : region.Apart other :=
  allocations.pairwise_apart.forall member otherMember fun same =>
    differ (congrArg Region.address same)

end Creek.Library
