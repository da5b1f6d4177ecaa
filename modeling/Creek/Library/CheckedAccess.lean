import Mathlib

/-! Array and buffer access that reports a fault instead of reaching outside.
A program whose accesses are written with these operations is memory safe on an input exactly
when its run on that input is not a fault.
-/

namespace Creek.Library

/-- What goes wrong in an unchecked language: an access outside an array or through an empty
optional, or an unsigned difference below zero.
-/
inductive Fault where
  | outOfBounds
  | underflow
  deriving DecidableEq, Repr

variable {α β σ : Type}

/-- Element `i` of an array. -/
def fetch (array : List α) (i : Nat) : Except Fault α :=
  match array[i]? with
  | some value => .ok value
  | none => .error .outOfBounds

/-- The value an optional holds. -/
def deref : Option α → Except Fault α
  | some value => .ok value
  | none => .error .outOfBounds

/-- Replaces element `i` of an array. -/
def store (array : List α) (i : Nat) (value : α) : Except Fault (List α) :=
  if i < array.length then .ok (array.set i value) else .error .outOfBounds

/-- `count` elements of a buffer from `offset` on. -/
def readSlice (buffer : List α) (offset count : Nat) : Except Fault (List α) :=
  if offset + count ≤ buffer.length then .ok ((buffer.drop offset).take count)
  else .error .outOfBounds

/-- Overwrites a buffer from `offset` on. -/
def writeSlice (buffer : List α) (offset : Nat) (data : List α) : Except Fault (List α) :=
  if offset + data.length ≤ buffer.length then
    .ok (buffer.take offset ++ data ++ buffer.drop (offset + data.length))
  else
    .error .outOfBounds

/-- The difference of two unsigned values. -/
def difference (left right : Nat) : Except Fault Nat :=
  if right ≤ left then .ok (left - right) else .error .underflow

theorem fetch_of_getElem? {array : List α} {i : Nat} {value : α}
    (stored : array[i]? = some value)
    : fetch array i = .ok value := by
  rw [fetch, stored]

theorem fetch_of_lt {array : List α} {i : Nat} (bound : i < array.length)
    : fetch array i = .ok array[i] :=
  fetch_of_getElem? (List.getElem?_eq_getElem bound)

theorem store_of_lt {array : List α} {i : Nat} {value : α} (bound : i < array.length)
    : store array i value = .ok (array.set i value) :=
  if_pos bound

theorem readSlice_of_le {buffer : List α} {offset count : Nat}
    (bound : offset + count ≤ buffer.length)
    : readSlice buffer offset count = .ok ((buffer.drop offset).take count) :=
  if_pos bound

theorem writeSlice_of_le {buffer data : List α} {offset : Nat}
    (bound : offset + data.length ≤ buffer.length)
    : writeSlice buffer offset data
      = .ok (buffer.take offset ++ data ++ buffer.drop (offset + data.length)) :=
  if_pos bound

/-- Writing behind the filled part of a zeroed buffer extends that part. -/
theorem writeSlice_filled (filled data : List α) (blank : α) {size : Nat}
    (bound : filled.length + data.length ≤ size)
    : writeSlice (filled ++ List.replicate (size - filled.length) blank) filled.length data
      = .ok ((filled ++ data) ++ List.replicate (size - (filled ++ data).length) blank) := by
  rw [writeSlice_of_le (by rw [List.length_append, List.length_replicate]; omega),
    List.take_left' rfl, List.drop_append, List.drop_of_length_le (by omega),
    List.nil_append, List.drop_replicate, List.length_append]
  congr 3
  omega

theorem difference_of_le {left right : Nat} (bound : right ≤ left)
    : difference left right = .ok (left - right) :=
  if_pos bound

@[simp] theorem ok_bind (value : α) (next : α → Except Fault β)
    : (Except.ok value >>= next) = next value :=
  rfl

@[simp] theorem error_bind (fault : Fault) (next : α → Except Fault β)
    : (Except.error fault >>= next) = .error fault :=
  rfl

@[simp] theorem pure_eq_ok (value : α) : (pure value : Except Fault α) = .ok value := rfl

/-- A sequence that does not fault ran its first part. -/
theorem ok_of_bind {first : Except Fault α} {next : α → Except Fault β} {result : β}
    (ran : (first >>= next) = .ok result)
    : ∃ value, first = .ok value ∧ next value = .ok result := by
  cases first with
  | error fault => cases ran
  | ok value => exact ⟨value, rfl, ran⟩

/-- The invariant rule for a counting loop: passes that keep the invariant do not fault, and
the loop ends with the invariant at the bound.
-/
theorem forRange_ok (bound : Nat) (body : σ → Nat → Except Fault σ) (start : σ)
    (invariant : Nat → σ → Prop) (initial : invariant 0 start)
    (pass : ∀ i < bound, ∀ state, invariant i state
      → ∃ next, body state i = .ok next ∧ invariant (i + 1) next)
    : ∃ final, (List.range bound).foldlM body start = .ok final ∧ invariant bound final := by
  induction bound with
  | zero => exact ⟨start, rfl, initial⟩
  | succ bound ih =>
      obtain ⟨before, ran, holds⟩ := ih fun i inRange => pass i (by omega)
      obtain ⟨final, last, after⟩ := pass bound (Nat.lt_succ_self bound) before holds
      refine ⟨final, ?_, after⟩
      rw [List.range_succ, List.foldlM_append, ran, ok_bind, List.foldlM_cons, last]
      rfl

/-- A loop whose states are known runs through them. -/
theorem forRange_eq (bound : Nat) {body : σ → Nat → Except Fault σ} {start : σ} (states : Nat → σ)
    (initial : start = states 0) (pass : ∀ i < bound, body (states i) i = .ok (states (i + 1)))
    : (List.range bound).foldlM body start = .ok (states bound) := by
  obtain ⟨final, ran, rfl⟩ := forRange_ok bound body start (fun i state => state = states i) initial
    fun i inRange state same => ⟨states (i + 1), same ▸ pass i inRange, rfl⟩
  exact ran

/-- A mapping loop whose passes do not fault is the plain map. -/
theorem mapM_ok {items : List α} {body : α → Except Fault β} (pure_ : α → β)
    (passes : ∀ item ∈ items, body item = .ok (pure_ item))
    : items.mapM body = .ok (items.map pure_) := by
  induction items with
  | nil => rfl
  | cons item rest ih =>
      rw [List.mapM_cons, passes item List.mem_cons_self,
        ih fun other member => passes other (List.mem_cons_of_mem _ member)]
      rfl

end Creek.Library
