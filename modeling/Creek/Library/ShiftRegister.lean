import Mathlib

/-! Linear feedback shift registers that absorb bytes, least significant bit first. Absorbing is linear in
the state and the bytes, so two messages that differ in one burst no longer than the register leave it
in different states.
-/

namespace Creek.Library.ShiftRegister

variable {w n : Nat} {poly state other : BitVec w}

-- Shifts

/-- One shift: the bit that leaves feeds the polynomial back. -/
def shift (poly state : BitVec w) : BitVec w :=
  if state.getLsbD 0 then poly ^^^ (state >>> 1) else state >>> 1

/-- So many shifts. -/
def shifts (poly : BitVec w) : Nat → BitVec w → BitVec w
  | 0, state => state
  | n + 1, state => shift poly (shifts poly n state)

theorem shift_xor : shift poly (state ^^^ other) = shift poly state ^^^ shift poly other := by
  simp only [shift, BitVec.getLsbD_xor, BitVec.ushiftRight_xor_distrib]
  rcases state.getLsbD 0 with _ | _
  · rcases other.getLsbD 0 with _ | _
    · rfl
    · simp only [Bool.false_xor, if_true, Bool.false_eq_true, if_false]
      ac_rfl
  · rcases other.getLsbD 0 with _ | _
    · simp only [Bool.true_xor, Bool.not_false, if_true, Bool.false_eq_true, if_false]
      ac_rfl
    · simp only [Bool.true_xor, Bool.not_true, if_true, Bool.false_eq_true, if_false]
      have cancel : poly ^^^ (state >>> 1) ^^^ (poly ^^^ (other >>> 1))
          = (poly ^^^ poly) ^^^ (state >>> 1 ^^^ other >>> 1) := by
        ac_rfl
      rw [cancel, BitVec.xor_self, BitVec.zero_xor]

theorem shifts_xor : shifts poly n (state ^^^ other) = shifts poly n state ^^^ shifts poly n other := by
  induction n with
  | zero => rfl
  | succ n ih => rw [shifts, shifts, shifts, ih, shift_xor]

theorem shifts_add (m : Nat) : shifts poly (m + n) state = shifts poly m (shifts poly n state) := by
  induction m with
  | zero => rw [Nat.zero_add, shifts]
  | succ m ih => rw [Nat.succ_add, shifts, shifts, ih]

/-- With the highest coefficient set, only the empty register shifts to the empty one. -/
theorem eq_zero_of_shift (highest : poly.msb = true) (empty : shift poly state = 0) : state = 0 := by
  have positive : 0 < w := by
    rcases w with _ | w
    · cases highest
    · exact Nat.succ_pos w
  rw [shift] at empty
  split at empty
  · have top := congrArg (fun value => value.getLsbD (w - 1)) empty
    rw [BitVec.msb_eq_getLsbD_last] at highest
    have out : state.getLsbD (1 + (w - 1)) = false := BitVec.getLsbD_of_ge _ _ (by omega)
    simp only [BitVec.getLsbD_xor, BitVec.getLsbD_ushiftRight, highest, out] at top
    simp at top
  · rename_i low
    refine BitVec.eq_of_getLsbD_eq fun i bound => ?_
    rcases i with _ | i
    · simpa using low
    · have bit := congrArg (fun value => value.getLsbD i) empty
      rw [BitVec.getLsbD_ushiftRight, Nat.add_comm] at bit
      simpa using bit

theorem shifts_injective (highest : poly.msb = true) (same : shifts poly n state = shifts poly n other)
    : state = other := by
  have difference : shifts poly n (state ^^^ other) = 0 := by
    rw [shifts_xor, same, BitVec.xor_self]
    rfl
  have empty : ∀ (n : Nat) (state : BitVec w), shifts poly n state = 0 → state = 0 := by
    intro n
    induction n with
    | zero => exact fun state empty => empty
    | succ n ih => exact fun state empty => ih state (eq_zero_of_shift highest empty)
  have zero := empty n _ difference
  exact BitVec.xor_eq_zero_iff.mp zero

/-- Zeros at the low end feed nothing back. -/
theorem shifts_of_low_zero (low : ∀ i < n, state.getLsbD i = false)
    : shifts poly n state = state >>> n := by
  induction n with
  | zero => rw [shifts, BitVec.ushiftRight_zero]
  | succ n ih =>
      have bit : (state >>> n).getLsbD 0 = false := by
        rw [BitVec.getLsbD_ushiftRight]
        exact low n (Nat.lt_succ_self n)
      rw [shifts, ih fun i bound => low i (Nat.lt_succ_of_lt bound), shift, bit,
        if_neg Bool.false_ne_true, BitVec.shiftRight_add]

/-- A register shifts as its low bits do, and the rest moves down. -/
theorem shifts_split {mask : BitVec w} (covers : ∀ i < n, mask.getLsbD i = true)
    (ends : ∀ i ≥ n, mask.getLsbD i = false)
    : shifts poly n state = shifts poly n (state &&& mask) ^^^ (state >>> n) := by
  have parts : state = (state &&& mask) ^^^ (state &&& ~~~mask) := by
    ext i bound
    simp only [BitVec.getElem_xor, BitVec.getElem_and, BitVec.getElem_not]
    rcases state[i] with _ | _
    · rfl
    · rcases mask[i] with _ | _
      · rfl
      · rfl
  have low : ∀ i < n, (state &&& ~~~mask).getLsbD i = false := by
    intro i bound
    simp [covers i bound]
  have high : (state &&& ~~~mask) >>> n = state >>> n := by
    refine BitVec.eq_of_getLsbD_eq fun i _ => ?_
    simp only [BitVec.getLsbD_ushiftRight, BitVec.getLsbD_and, BitVec.getLsbD_not,
      ends (n + i) (Nat.le_add_right n i)]
    by_cases inside : n + i < w
    · simp [inside]
    · simp [BitVec.getLsbD_of_ge state (n + i) (Nat.le_of_not_lt inside)]
  have split : shifts poly n ((state &&& mask) ^^^ (state &&& ~~~mask))
      = shifts poly n (state &&& mask) ^^^ (state >>> n) := by
    rw [shifts_xor, shifts_of_low_zero low, high]
  rwa [← parts] at split

-- Messages

/-- The register after a message. -/
def absorb (poly state : BitVec w) (bytes : List (BitVec 8)) : BitVec w :=
  bytes.foldl (fun state byte => shifts poly 8 (state ^^^ byte.setWidth w)) state

/-- The bytes of a message, the first at the low end. -/
def word (w : Nat) : List (BitVec 8) → BitVec w
  | [] => 0
  | byte :: bytes => byte.setWidth w ^^^ (word w bytes <<< 8)

theorem word_high {bytes : List (BitVec 8)} {i : Nat} (above : 8 * bytes.length ≤ i)
    : (word w bytes).getLsbD i = false := by
  induction bytes generalizing i with
  | nil => simp [word]
  | cons byte bytes ih =>
      rw [List.length_cons] at above
      rw [word, BitVec.getLsbD_xor, BitVec.getLsbD_setWidth, BitVec.getLsbD_shiftLeft,
        ih (by omega), BitVec.getLsbD_of_ge byte i (by omega)]
      simp

theorem shiftRight_word {bytes : List (BitVec 8)} (fits : 8 * bytes.length + 8 ≤ w)
    : (word w bytes <<< 8) >>> 8 = word w bytes := by
  refine BitVec.eq_of_getLsbD_eq fun i bound => ?_
  rw [BitVec.getLsbD_ushiftRight, BitVec.getLsbD_shiftLeft]
  by_cases inside : 8 + i < w
  · simp [inside]
  · have high : (word w bytes).getLsbD i = false := word_high (by omega)
    simp [inside, high]

/-- A message no longer than the register is absorbed as one word. -/
theorem absorb_eq_shifts {bytes : List (BitVec 8)} (fits : 8 * bytes.length ≤ w)
    : absorb poly state bytes = shifts poly (8 * bytes.length) (state ^^^ word w bytes) := by
  induction bytes generalizing state with
  | nil => simp [absorb, word, shifts]
  | cons byte bytes ih =>
      rw [List.length_cons, Nat.mul_succ] at fits
      have below : shifts poly 8 (word w bytes <<< 8) = word w bytes := by
        rw [shifts_of_low_zero, shiftRight_word fits]
        intro i bound
        rw [BitVec.getLsbD_shiftLeft]
        simp [bound]
      have rest := @ih (shifts poly 8 (state ^^^ byte.setWidth w)) (by omega)
      rw [List.length_cons, Nat.mul_succ, shifts_add, word, ← BitVec.xor_assoc, @shifts_xor w 8,
        below, ← rest]
      rfl

theorem word_injective {left right : List (BitVec 8)} (long : left.length = right.length)
    (fits : 8 * left.length ≤ w) (same : word w left = word w right)
    : left = right := by
  induction left generalizing right with
  | nil => exact (List.eq_nil_of_length_eq_zero long.symm).symm
  | cons first rest ih =>
      rcases right with _ | ⟨head, tail⟩
      · cases long
      · rw [List.length_cons, Nat.mul_succ] at fits
        rw [List.length_cons, List.length_cons, Nat.add_right_cancel_iff] at long
        rw [word, word] at same
        have heads : first = head := by
          refine BitVec.eq_of_getLsbD_eq fun i bound => ?_
          have bit := congrArg (fun value => value.getLsbD i) same
          have inside : i < w := by omega
          simpa [BitVec.getLsbD_xor, BitVec.getLsbD_shiftLeft, bound, inside] using bit
        rw [heads, BitVec.xor_right_inj] at same
        have tails := congrArg (fun value : BitVec w => value >>> 8) same
        simp only [shiftRight_word fits, shiftRight_word (long ▸ fits)] at tails
        rw [heads, ih long (by omega) tails]

/-- Equal registers stay equal only after equal states. -/
theorem absorb_state_injective {bytes : List (BitVec 8)} (highest : poly.msb = true)
    (same : absorb poly state bytes = absorb poly other bytes)
    : state = other := by
  induction bytes generalizing state other with
  | nil => exact same
  | cons byte bytes ih =>
      exact (BitVec.xor_left_inj _).mp (shifts_injective highest (ih same))

/-- Two messages of one length that differ within one burst no longer than the register leave it in
different states.
-/
theorem absorb_burst {front left right back : List (BitVec 8)} (highest : poly.msb = true)
    (long : left.length = right.length) (fits : 8 * left.length ≤ w) (differ : left ≠ right)
    : absorb poly state (front ++ left ++ back) ≠ absorb poly state (front ++ right ++ back) := by
  intro same
  simp only [absorb, List.foldl_append] at same
  have before : absorb poly (absorb poly state front) left
      = absorb poly (absorb poly state front) right :=
    absorb_state_injective highest same
  have fitsRight : 8 * right.length ≤ w := by rwa [← long]
  rw [absorb_eq_shifts fits, absorb_eq_shifts fitsRight, long] at before
  have words := (BitVec.xor_right_inj _).mp (shifts_injective highest before)
  exact differ (word_injective long fits words)

/-- Lists that differ within a window split around it. -/
theorem exists_window {α : Type*} {left right : List α} {start size : Nat}
    (long : left.length = right.length)
    (window : ∀ i, left[i]? ≠ right[i]? → start ≤ i ∧ i < start + size)
    : ∃ front first second back, left = front ++ first ++ back ∧ right = front ++ second ++ back
      ∧ first.length = second.length ∧ first.length ≤ size := by
  have agree : ∀ i, i < start ∨ start + size ≤ i → left[i]? = right[i]? := by
    intro i outside
    by_contra differ
    have inside := window i differ
    omega
  have front : left.take start = right.take start := by
    refine List.ext_getElem? fun i => ?_
    rw [List.getElem?_take, List.getElem?_take]
    split
    · rename_i before
      exact agree i (.inl before)
    · rfl
  have back : left.drop (start + size) = right.drop (start + size) := by
    refine List.ext_getElem? fun i => ?_
    rw [List.getElem?_drop, List.getElem?_drop]
    exact agree _ (.inr (Nat.le_add_right _ _))
  have parts (list : List α)
      : list = list.take start ++ (list.drop start).take size ++ list.drop (start + size) := by
    rw [List.append_assoc, ← List.drop_drop, List.take_append_drop, List.take_append_drop]
  refine ⟨left.take start, (left.drop start).take size, (right.drop start).take size,
    left.drop (start + size), parts left, ?_, ?_, ?_⟩
  · rw [front, back]
    exact parts right
  · rw [List.length_take, List.length_take, List.length_drop, List.length_drop, long]
  · rw [List.length_take]
    exact Nat.min_le_left _ _

/-- A burst is seen: two messages of one length that differ, but only within a window no longer than the
register, leave it in different states.
-/
theorem absorb_window {left right : List (BitVec 8)} {start size : Nat} (highest : poly.msb = true)
    (long : left.length = right.length) (fits : 8 * size ≤ w) (differ : left ≠ right)
    (window : ∀ i, left[i]? ≠ right[i]? → start ≤ i ∧ i < start + size)
    : absorb poly state left ≠ absorb poly state right := by
  obtain ⟨front, first, second, back, rfl, rfl, same, short⟩ := exists_window long window
  refine absorb_burst highest same (by omega) fun equal => differ ?_
  rw [equal]

end Creek.Library.ShiftRegister
