import Mathlib

/-! Numbers as text: the digits that a stream prints, and what `strtol` and `strtoul` read.
-/

namespace Creek.Library

/-- The bytes of a text in ASCII. -/
def ascii (text : String) : List UInt8 := text.toList.map fun char => char.toNat.toUInt8

/-- A number as `operator<<` prints it. -/
def decimal (number : Nat) : List UInt8 :=
  (Nat.toDigits 10 number).map fun digit => digit.toNat.toUInt8

/-- A signed number as `operator<<` and `std::to_string` print it. -/
def signedDecimal (number : Int) : List UInt8 :=
  if number < 0 then 45 :: decimal number.natAbs else decimal number.natAbs

/-- `isspace` in the C locale. -/
def isSpace (byte : UInt8) : Bool := byte = 32 || (9 ≤ byte && byte ≤ 13)

/-- The value of a letter or a digit, below 36. -/
def digitValue? (byte : UInt8) : Option Nat :=
  if 48 ≤ byte && byte ≤ 57 then some (byte.toNat - 48)
  else if 65 ≤ byte && byte ≤ 90 then some (byte.toNat - 55)
  else if 97 ≤ byte && byte ≤ 122 then some (byte.toNat - 87)
  else none

/-- Reads digits of a base while there are any. -/
def readDigits (base : Nat) : List UInt8 → Nat → Nat × List UInt8
  | [], value => (value, [])
  | byte :: rest, value =>
      match digitValue? byte with
      | some digit =>
          if digit < base then readDigits base rest (value * base + digit) else (value, byte :: rest)
      | none => (value, byte :: rest)

/-- Whether a text begins with a digit of a base. -/
def startsWithDigit (base : Nat) : List UInt8 → Bool
  | [] => false
  | byte :: _ =>
      match digitValue? byte with
      | some digit => digit < base
      | none => false

/-- What `strtol` and `strtoul` convert: a sign, a number and where it ends. -/
structure Numeral where
  negative : Bool
  magnitude : Nat
  rest : List UInt8
  deriving DecidableEq, Repr

/-- The prefix that base 16 may have is read only before a digit. -/
def skipHexPrefix (text : List UInt8) : List UInt8 :=
  match text with
  | 48 :: mark :: rest =>
      if (mark = 120 || mark = 88) && startsWithDigit 16 rest then rest else text
  | _ => text

/-- Blanks, a sign and digits of a base; nothing where there is no digit. -/
def strtol (base : Nat) (text : List UInt8) : Option Numeral :=
  let text := text.dropWhile isSpace
  let (negative, text) :=
    match text with
    | 45 :: rest => (true, rest)
    | 43 :: rest => (false, rest)
    | _ => (false, text)
  let text := if base = 16 then skipHexPrefix text else text
  if startsWithDigit base text then
    let (magnitude, rest) := readDigits base text 0
    some { negative, magnitude, rest }
  else
    none

/-- `std::stoi`: the number, unless there is none or it does not fit. -/
def stoi (base : Nat) (text : List UInt8) : Option Int :=
  match strtol base text with
  | none => none
  | some numeral =>
      let value : Int := if numeral.negative then -numeral.magnitude else numeral.magnitude
      if -2147483648 ≤ value ∧ value ≤ 2147483647 then some value else none

/-- `std::stoul` with base 10, and what is left of the text: a minus negates in 64 bits. -/
def stoul (text : List UInt8) : Option (Nat × List UInt8) :=
  match strtol 10 text with
  | none => none
  | some numeral =>
      if numeral.magnitude < 2 ^ 64 then
        some (if numeral.negative then (2 ^ 64 - numeral.magnitude) % 2 ^ 64 else numeral.magnitude,
          numeral.rest)
      else
        none

-- Reading back what is printed

theorem digitValue?_digit {digit : Nat} (small : digit < 10)
    : digitValue? (48 + digit.toUInt8) = some digit := by
  revert digit
  decide

/-- The last digit of a printed number, and the digits before it. -/
theorem decimal_eq (number : Nat)
    : decimal number
      = if number < 10 then [48 + number.toUInt8]
        else decimal (number / 10) ++ [48 + (number % 10).toUInt8] := by
  have digit {value : Nat} (small : value < 10)
      : (Nat.digitChar value).toNat.toUInt8 = 48 + value.toUInt8 := by
    revert value
    decide
  unfold decimal
  rw [Nat.toDigits_eq_if (by decide)]
  split
  · rename_i small
    rw [List.map_singleton, digit small]
  · rw [List.map_append, List.map_singleton, digit (Nat.mod_lt _ (by decide))]

/-- Digits of a base are read on. -/
def AllDigits (base : Nat) (text : List UInt8) : Prop :=
  ∀ byte ∈ text, ∃ digit, digitValue? byte = some digit ∧ digit < base

theorem readDigits_append {base : Nat} {text : List UInt8} (digits : AllDigits base text)
    (rest : List UInt8) (value : Nat)
    : readDigits base (text ++ rest) value = readDigits base rest (readDigits base text value).1 := by
  induction text generalizing value with
  | nil => rfl
  | cons byte text ih =>
      obtain ⟨digit, valued, small⟩ := digits byte List.mem_cons_self
      simp only [List.cons_append, readDigits, valued, if_pos small]
      exact ih (fun other member => digits other (List.mem_cons_of_mem _ member)) _

theorem allDigits_decimal (number : Nat) : AllDigits 10 (decimal number) := by
  induction number using Nat.strong_induction_on with
  | _ number ih =>
      intro byte member
      rw [decimal_eq] at member
      split at member
      · rename_i small
        obtain rfl := List.mem_singleton.mp member
        exact ⟨number, digitValue?_digit small, small⟩
      · rcases List.mem_append.mp member with earlier | last
        · exact ih _ (by omega) byte earlier
        · obtain rfl := List.mem_singleton.mp last
          have small : number % 10 < 10 := Nat.mod_lt _ (by decide)
          exact ⟨number % 10, digitValue?_digit small, small⟩

theorem readDigits_stop {base : Nat} {rest : List UInt8} (ends : startsWithDigit base rest = false)
    (value : Nat)
    : readDigits base rest value = (value, rest) := by
  cases rest with
  | nil => rfl
  | cons byte rest =>
      rw [startsWithDigit] at ends
      rw [readDigits]
      split at ends
      · rename_i digit valued
        rw [if_neg (of_decide_eq_false ends)]
      · rfl

/-- A printed number is read back, up to what follows it. -/
theorem readDigits_decimal (number : Nat) {rest : List UInt8}
    (ends : startsWithDigit 10 rest = false)
    : readDigits 10 (decimal number ++ rest) 0 = (number, rest) := by
  have value : (readDigits 10 (decimal number) 0).1 = number := by
    induction number using Nat.strong_induction_on with
    | _ number ih =>
        rw [decimal_eq]
        split
        · rename_i small
          simp [readDigits, digitValue?_digit small, small]
        · have small : number % 10 < 10 := Nat.mod_lt _ (by decide)
          rw [readDigits_append (allDigits_decimal _), ih _ (by omega)]
          simp only [readDigits, digitValue?_digit small, if_pos small]
          exact Nat.div_add_mod' number 10
  rw [readDigits_append (allDigits_decimal number), value, readDigits_stop ends]

theorem decimal_injective {number other : Nat} (same : decimal number = decimal other)
    : number = other := by
  have first := @readDigits_decimal number [] rfl
  have second := @readDigits_decimal other [] rfl
  rw [same] at first
  exact (Prod.mk.inj (first.symm.trans second)).1

theorem decimal_ne_nil (number : Nat) : decimal number ≠ [] := by
  rw [decimal_eq]
  split <;> simp

/-- A printed number begins with a digit, and with zero only if it is zero. -/
theorem decimal_begins (number : Nat)
    : ∃ byte tail, decimal number = byte :: tail ∧ 48 ≤ byte ∧ byte ≤ 57
      ∧ (byte = 48 → number = 0 ∧ tail = []) := by
  induction number using Nat.strong_induction_on with
  | _ number ih =>
      rw [decimal_eq]
      split
      · rename_i small
        refine ⟨_, [], rfl, ?_⟩
        clear ih
        revert number
        decide
      · obtain ⟨byte, tail, same, low, high, zero⟩ := ih (number / 10) (by omega)
        refine ⟨byte, tail ++ [48 + (number % 10).toUInt8], by rw [same]; rfl, low, high, ?_⟩
        intro first
        have none := (zero first).1
        omega

theorem decimal_digits (number : Nat) : ∀ byte ∈ decimal number, 48 ≤ byte ∧ byte ≤ 57 := by
  induction number using Nat.strong_induction_on with
  | _ number ih =>
      have digit {value : Nat} (small : value < 10)
          : 48 ≤ 48 + value.toUInt8 ∧ 48 + value.toUInt8 ≤ 57 := by
        clear ih
        revert value
        decide
      intro byte member
      rw [decimal_eq] at member
      split at member
      · rename_i small
        obtain rfl := List.mem_singleton.mp member
        exact digit small
      · rcases List.mem_append.mp member with earlier | last
        · exact ih _ (by omega) byte earlier
        · obtain rfl := List.mem_singleton.mp last
          exact digit (Nat.mod_lt _ (by decide))

theorem visible_of_digitValue? {byte : UInt8} {digit : Nat} (valued : digitValue? byte = some digit)
    : isSpace byte = false ∧ byte ≠ 45 ∧ byte ≠ 43 := by
  have low : 48 ≤ byte.toNat := by
    simp only [digitValue?, Bool.and_eq_true, decide_eq_true_eq, UInt8.le_iff_toNat_le,
      UInt8.reduceToNat] at valued
    by_contra below
    rw [if_neg (by omega), if_neg (by omega), if_neg (by omega)] at valued
    exact nomatch valued
  have differs {other : UInt8} (below : other.toNat < 48) : byte ≠ other := by
    rintro rfl
    omega
  refine ⟨?_, differs (by decide), differs (by decide)⟩
  simp only [isSpace, Bool.or_eq_false_iff, Bool.and_eq_false_iff, decide_eq_false_iff_not,
    UInt8.le_iff_toNat_le, UInt8.reduceToNat]
  exact ⟨differs (by decide), .inr (by omega)⟩

/-- A printed number is converted back, up to its end. -/
theorem stoul_decimal {number : Nat} (fits : number < 2 ^ 64)
    : stoul (decimal number) = some (number, []) := by
  have value := @readDigits_decimal number [] rfl
  rw [List.append_nil] at value
  obtain ⟨byte, tail, printed, -⟩ := decimal_begins number
  obtain ⟨digit, valued, small⟩ :=
    allDigits_decimal number byte (printed ▸ List.mem_cons_self)
  have starts : startsWithDigit 10 (byte :: tail) = true := by
    simp [startsWithDigit, valued, small]
  have converted : strtol 10 (decimal number)
      = some { negative := false, magnitude := number, rest := [] } := by
    unfold strtol
    rw [printed] at value ⊢
    simp [visible_of_digitValue? valued, value, starts]
  rw [stoul, converted]
  exact if_pos fits

-- Texts of hexadecimal digits

/-- The only byte for a digit below ten. -/
theorem eq_of_digitValue? {byte : UInt8} {digit : Nat} (valued : digitValue? byte = some digit)
    (small : digit < 10)
    : byte = 48 + digit.toUInt8 := by
  simp only [digitValue?, Bool.and_eq_true, decide_eq_true_eq, UInt8.le_iff_toNat_le,
    UInt8.reduceToNat] at valued
  split at valued
  · rename_i range
    obtain rfl := Option.some.inj valued
    apply UInt8.toNat_inj.mp
    simp only [UInt8.toNat_add, UInt8.reduceToNat, Nat.toUInt8_eq, UInt8.toNat_ofNat']
    omega
  split at valued
  · have value := Option.some.inj valued
    omega
  split at valued
  · have value := Option.some.inj valued
    omega
  · exact nomatch valued

/-- Nothing but digits is read as the number that they give. -/
theorem strtol_digits {text : List UInt8} (digits : AllDigits 16 text) (nonempty : text ≠ [])
    : strtol 16 text
      = some { negative := false, magnitude := (readDigits 16 text 0).1, rest := [] } := by
  obtain ⟨byte, tail, rfl⟩ := List.exists_cons_of_ne_nil nonempty
  obtain ⟨digit, valued, small⟩ := digits byte List.mem_cons_self
  obtain ⟨solid, minus, plus⟩ := visible_of_digitValue? valued
  have begins : startsWithDigit 16 (byte :: tail) = true := by
    simp only [startsWithDigit, valued, small, decide_true]
  have prefixed : skipHexPrefix (byte :: tail) = byte :: tail := by
    unfold skipHexPrefix
    split
    · rename_i mark rest same
      obtain ⟨rfl, rfl⟩ := List.cons.inj same
      obtain ⟨other, marked, below⟩ := digits mark (by simp)
      rw [if_neg]
      intro both
      simp only [Bool.and_eq_true, Bool.or_eq_true, decide_eq_true_eq] at both
      have letters : digitValue? 120 = some 33 ∧ digitValue? 88 = some 33 := by decide
      have value : other = 33 := by
        rcases both.1 with rfl | rfl
        · exact Option.some.inj (marked.symm.trans letters.1)
        · exact Option.some.inj (marked.symm.trans letters.2)
      omega
    · rfl
  have ends : (readDigits 16 (byte :: tail) 0).2 = [] := by
    have read := readDigits_append digits [] 0
    rw [List.append_nil] at read
    rw [read]
    rfl
  simp only [strtol, List.dropWhile_cons, solid, Bool.false_eq_true, if_false, if_true]
  split
  · rename_i rest same
    exact absurd (List.cons.inj same).1 minus
  · rename_i rest same
    exact absurd (List.cons.inj same).1 plus
  · rw [prefixed, if_pos begins, ← ends]

theorem stoi_digits {text : List UInt8} (digits : AllDigits 16 text) (nonempty : text ≠ [])
    : stoi 16 text
      = if (readDigits 16 text 0).1 ≤ 2147483647 then some ((readDigits 16 text 0).1 : Int)
        else none := by
  rw [stoi, strtol_digits digits nonempty]
  simp only [Bool.false_eq_true, if_false]
  split
  · rename_i both
    rw [if_pos (by omega)]
  · rename_i high
    rw [if_neg (by omega)]

end Creek.Library
