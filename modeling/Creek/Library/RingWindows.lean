import Mathlib

/-! The last values of a sequence in an array of fixed size. A position goes round the array and a count
grows up to its size; the counted slots hold the last values, in some order.
-/

namespace Creek.Library

variable {α : Type*} {slots : List α} {position count : Nat} {samples : List α} {value : α}

/-- The last values of a sequence. -/
def recent (size : Nat) (samples : List α) : List α := samples.drop (samples.length - size)

/-- A ring recalls a sequence: each of the last values is in the slot of its index. -/
structure Recalls (slots : List α) (position count : Nat) (samples : List α) : Prop where
  position : position = samples.length % slots.length
  count : count = min samples.length slots.length
  slots : ∀ (index : Nat) (value : α), samples[index]? = some value
    → samples.length ≤ index + slots.length
    → slots[index % slots.length]? = some value

/-- At first there is nothing to recall. -/
theorem recalls_nil (slots : List α) : Recalls slots 0 0 [] :=
  ⟨(Nat.zero_mod _).symm, (Nat.zero_min _).symm, fun _ _ stored => by cases stored⟩

/-- A new value replaces the oldest. -/
theorem Recalls.push (recalls : Recalls slots position count samples) (room : 0 < slots.length)
    (value : α)
    : Recalls (slots.set position value) ((position + 1) % slots.length)
        (if count < slots.length then count + 1 else count) (samples ++ [value]) := by
  have bound : position < slots.length := by
    rw [recalls.position]
    exact Nat.mod_lt _ room
  refine ⟨?_, ?_, fun index other stored last => ?_⟩
  · rw [List.length_set, List.length_append, List.length_singleton, recalls.position,
      Nat.mod_add_mod]
  · rw [List.length_set, List.length_append, List.length_singleton, recalls.count]
    split <;> omega
  · rw [List.length_set] at last ⊢
    rw [List.length_append, List.length_singleton] at last
    rcases Nat.lt_trichotomy index samples.length with earlier | rfl | later
    · rw [List.getElem?_append_left earlier] at stored
      have apart : position ≠ index % slots.length := by
        -- Two indices that share a slot are a whole turn apart.
        rw [recalls.position]
        intro same
        have turn : samples.length ≡ index [MOD slots.length] := same
        have whole := (Nat.modEq_iff_dvd' earlier.le).mp turn.symm
        have far := Nat.le_of_dvd (by omega) whole
        omega
      rw [List.getElem?_set_ne apart]
      exact recalls.slots index other stored (by omega)
    · rw [List.getElem?_concat_length] at stored
      rw [← recalls.position, List.getElem?_set_self bound]
      exact stored
    · rw [List.getElem?_eq_none (by rw [List.length_append, List.length_singleton]; omega)] at stored
      cases stored

/-- Every counted slot is that of one of the last indices. -/
theorem exists_recent_index {size slot length : Nat} (inside : slot < min length size)
    : ∃ index, index < length ∧ length ≤ index + size ∧ index % size = slot := by
  obtain ⟨short, below⟩ := lt_min_iff.mp inside
  by_cases fits : length ≤ size
  · exact ⟨slot, short, by omega, Nat.mod_eq_of_lt below⟩
  · have room : 0 < size := by omega
    have rest := Nat.mod_lt (length - size) room
    have split := Nat.div_add_mod (length - size) size
    have turn := Nat.mod_lt (slot + (size - (length - size) % size)) room
    refine ⟨length - size + (slot + (size - (length - size) % size)) % size, by omega, by omega, ?_⟩
    rw [Nat.add_mod_mod]
    have whole : length - size + (slot + (size - (length - size) % size))
        = size * ((length - size) / size + 1) + slot := by
      rw [Nat.mul_add, Nat.mul_one]
      omega
    rw [whole, Nat.mul_add_mod, Nat.mod_eq_of_lt below]

/-- The counted slots hold the last values. -/
theorem Recalls.mem_take_iff (recalls : Recalls slots position count samples)
    : value ∈ slots.take count ↔ value ∈ recent slots.length samples := by
  rw [recent, List.mem_take_iff_getElem, List.mem_drop_iff_getElem]
  constructor
  · rintro ⟨slot, inside, rfl⟩
    have counted : slot < min samples.length slots.length := by
      rw [← recalls.count]
      exact (lt_min_iff.mp inside).1
    obtain ⟨index, bound, last, same⟩ := exists_recent_index counted
    have stored := recalls.slots index _ (List.getElem?_eq_getElem bound) last
    rw [same, List.getElem?_eq_getElem (lt_min_iff.mp inside).2] at stored
    refine ⟨index - (samples.length - slots.length), by omega, ?_⟩
    rw [Option.some.inj stored]
    congr 1
    omega
  · rintro ⟨offset, bound, rfl⟩
    have room : 0 < slots.length := by omega
    have stored := recalls.slots (samples.length - slots.length + offset) _
      (List.getElem?_eq_getElem (by omega)) (by omega)
    obtain ⟨inside, same⟩ := List.getElem?_eq_some_iff.mp stored
    refine ⟨(samples.length - slots.length + offset) % slots.length, lt_min ?_ inside, same⟩
    rw [recalls.count]
    refine lt_min ?_ inside
    exact lt_of_le_of_lt (Nat.mod_le _ _) (by omega)

end Creek.Library
