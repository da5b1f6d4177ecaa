import Mathlib

/-! The code of threads that take and release locks.
A thread is the locks it holds and the instructions ahead of it. A rule says what an instruction may
expect of the locks held by then; code that obeys its rule still does when an instruction is replaced
by a body that obeys it and returns every lock it takes.
-/

namespace Creek.Library

/-- What an instruction does to the locks of its thread. -/
inductive LockEffect (Lock : Type*) where
  | acquire (lock : Lock)
  | release (lock : Lock)
  | keep

/-- The locks held after an instruction. -/
def LockEffect.apply {Lock : Type*} [DecidableEq Lock] (held : List Lock)
    : LockEffect Lock → List Lock
  | .acquire lock => lock :: held
  | .release lock => held.erase lock
  | .keep => held

section

variable {Lock Instr : Type*} [DecidableEq Lock] (effect : Instr → LockEffect Lock)
  (rule : List Lock → Instr → Prop)

/-- The locks held after some code. -/
def heldAfter (held : List Lock) (code : List Instr) : List Lock :=
  code.foldl (fun held instr => (effect instr).apply held) held

/-- Code that leaves the locks as it finds them, whatever is held. -/
def Balanced (code : List Instr) : Prop := ∀ held, heldAfter effect held code = held

/-- Each instruction finds the locks that its rule asks for. -/
def Obeys : List Lock → List Instr → Prop
  | _, [] => True
  | held, instr :: rest => rule held instr ∧ Obeys ((effect instr).apply held) rest

variable {effect rule} {held : List Lock} {instr : Instr} {front back body : List Instr}

@[simp] theorem obeys_nil : Obeys effect rule held [] := trivial

@[simp] theorem obeys_cons
    : Obeys effect rule held (instr :: body)
      ↔ rule held instr ∧ Obeys effect rule ((effect instr).apply held) body :=
  Iff.rfl

@[simp] theorem heldAfter_nil : heldAfter effect held [] = held := rfl

@[simp] theorem heldAfter_cons
    : heldAfter effect held (instr :: body) = heldAfter effect ((effect instr).apply held) body :=
  rfl

theorem heldAfter_append
    : heldAfter effect held (front ++ back) = heldAfter effect (heldAfter effect held front) back :=
  List.foldl_append

theorem obeys_append
    : Obeys effect rule held (front ++ back)
      ↔ Obeys effect rule held front ∧ Obeys effect rule (heldAfter effect held front) back := by
  induction front generalizing held with
  | nil => exact (and_iff_right trivial).symm
  | cons instr front ih =>
      rw [List.cons_append, obeys_cons, obeys_cons, ih, and_assoc]
      rfl

@[simp] theorem balanced_nil : Balanced effect [] := fun _ => rfl

theorem Balanced.append (left : Balanced effect front) (right : Balanced effect back)
    : Balanced effect (front ++ back) := by
  intro held
  rw [heldAfter_append, left, right]

theorem Balanced.flatMap {α : Type*} {items : List α} {code : α → List Instr}
    (each : ∀ item ∈ items, Balanced effect (code item))
    : Balanced effect (items.flatMap code) := by
  induction items with
  | nil => exact balanced_nil
  | cons item items ih =>
      rw [List.flatMap_cons]
      exact (each item List.mem_cons_self).append
        (ih fun other member => each other (List.mem_cons_of_mem _ member))

/-- An instruction that does nothing to the locks. -/
theorem balanced_keep (keeps : effect instr = .keep) : Balanced effect [instr] := by
  intro held
  rw [heldAfter_cons, keeps]
  rfl

/-- A section takes a lock, runs its body and returns the lock. -/
theorem Balanced.section_ {lock : Lock} {enter leave : Instr} (inside : Balanced effect body)
    (enters : effect enter = .acquire lock) (leaves : effect leave = .release lock)
    : Balanced effect (enter :: body ++ [leave]) := by
  intro held
  have opened : heldAfter effect held (enter :: body) = lock :: held := by
    rw [heldAfter_cons, enters]
    exact inside _
  have returned : (lock :: held).erase lock = held := by simp
  rw [heldAfter_append, opened, heldAfter_cons, leaves]
  exact returned

/-- Balanced pieces obey one after another where each does. -/
theorem Obeys.append (left : Obeys effect rule held front) (balanced : Balanced effect front)
    (right : Obeys effect rule held back)
    : Obeys effect rule held (front ++ back) :=
  obeys_append.mpr ⟨left, by rwa [balanced held]⟩

theorem Obeys.flatMap {α : Type*} {items : List α} {code : α → List Instr}
    (each : ∀ item ∈ items, Obeys effect rule held (code item))
    (balanced : ∀ item ∈ items, Balanced effect (code item))
    : Obeys effect rule held (items.flatMap code) := by
  induction items with
  | nil => exact obeys_nil
  | cons item items ih =>
      rw [List.flatMap_cons]
      refine (each item List.mem_cons_self).append (balanced item List.mem_cons_self) (ih ?_ ?_)
      · exact fun other member => each other (List.mem_cons_of_mem _ member)
      · exact fun other member => balanced other (List.mem_cons_of_mem _ member)

/-- A section obeys where its body does under the lock. -/
theorem Obeys.section_ {lock : Lock} {enter leave : Instr}
    (inside : Obeys effect rule (lock :: held) body) (balanced : Balanced effect body)
    (enters : effect enter = .acquire lock) (enter_ : rule held enter)
    (leave_ : rule (lock :: held) leave)
    : Obeys effect rule held (enter :: body ++ [leave]) := by
  rw [List.cons_append, obeys_cons, enters]
  refine ⟨enter_, inside.append balanced ?_⟩
  exact ⟨leave_, trivial⟩

end

-- Locks taken by rising rank

section

variable {Thread Lock : Type*} {threads : List Thread} {held : Thread → List Lock}
  {wanted : Thread → Option Lock} {rank : Lock → Nat} {limit : Nat}

/-- Where every thread takes locks by rising rank, no circle of threads waits for each other: from a
thread that waits for a lock the chain of holders ends with one whose lock is free.
-/
theorem exists_unblocked
    (rising : ∀ thread ∈ threads, ∀ lock, wanted thread = some lock
      → ∀ other ∈ held thread, rank other < rank lock)
    (bounded : ∀ lock, rank lock ≤ limit) {thread : Thread} (member : thread ∈ threads)
    : ∃ last ∈ threads, (last = thread ∨ held last ≠ [])
        ∧ ∀ lock, wanted last = some lock → ∀ other ∈ threads, lock ∉ held other := by
  -- each holder wants a lock of higher rank, so the distance to the limit falls along the chain
  have chain (distance : Nat)
      : ∀ thread ∈ threads, (∀ lock, wanted thread = some lock → limit < rank lock + distance)
        → ∃ last ∈ threads, (last = thread ∨ held last ≠ [])
          ∧ ∀ lock, wanted last = some lock → ∀ other ∈ threads, lock ∉ held other := by
    induction distance with
    | zero =>
        intro thread member high
        refine ⟨thread, member, .inl rfl, fun lock want => ?_⟩
        exact absurd (high lock want) (Nat.not_lt.mpr (bounded lock))
    | succ distance ih =>
        intro thread member high
        by_cases blocked : ∃ lock, wanted thread = some lock ∧ ∃ other ∈ threads, lock ∈ held other
        · obtain ⟨lock, want, holder, owner, holds⟩ := blocked
          obtain ⟨last, listed, busy, free⟩ := ih holder owner fun next wants => by
            have climbs := rising holder owner next wants lock holds
            have near := high lock want
            omega
          refine ⟨last, listed, .inr ?_, free⟩
          rcases busy with rfl | busy
          · exact List.ne_nil_of_mem holds
          · exact busy
        · refine ⟨thread, member, .inl rfl, fun lock want other owner holds => ?_⟩
          exact blocked ⟨lock, want, other, owner, holds⟩
  refine chain (limit + 1) thread member fun lock _ => ?_
  omega

end

end Creek.Library
