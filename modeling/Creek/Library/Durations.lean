import Mathlib

/-! Durations in signed 64-bit registers, as `std::chrono` keeps them. A result that does not fit goes round:
the language leaves the overflow open, and compiled code computes modulo 2^64.
-/

namespace Creek.Library

/-- What a signed 64-bit register holds of a number. -/
def int64 (number : Int) : Int := number.bmod (2 ^ 64)

/-- A number that a signed 64-bit register holds as it is. -/
def Fits64 (number : Int) : Prop := -2 ^ 63 ≤ number ∧ number < 2 ^ 63

instance (number : Int) : Decidable (Fits64 number) := inferInstanceAs (Decidable (_ ∧ _))

theorem int64_eq {number : Int} (fits : Fits64 number) : int64 number = number := by
  obtain ⟨low, high⟩ := fits
  exact Int.bmod_eq_of_le (by omega) (by omega)

/-- It is enough to go round once, after the last sum. -/
theorem int64_add_int64 (first second : Int) : int64 (first + int64 second) = int64 (first + second) :=
  Int.add_bmod_bmod

theorem int64_lt (number : Int) : int64 number < 2 ^ 63 := by
  have below := @Int.bmod_lt number (2 ^ 64) (by decide)
  unfold int64
  omega

theorem le_int64 (number : Int) : -2 ^ 63 ≤ int64 number := by
  have above := @Int.le_bmod number (2 ^ 64) (by decide)
  unfold int64
  omega

/-- Going round never makes a number that is not negative larger. -/
theorem int64_le {number : Int} (nonneg : 0 ≤ number) : int64 number ≤ number := by
  by_cases fits : number < 2 ^ 63
  · rw [int64_eq ⟨by omega, fits⟩]
  · have below := int64_lt number
    omega

/-- A number is made smaller exactly when it passes the upper end of the range. -/
theorem le_int64_iff {number : Int} : number ≤ int64 number ↔ number < 2 ^ 63 := by
  constructor
  · intro kept
    exact lt_of_le_of_lt kept (int64_lt number)
  · intro below
    by_cases fits : -2 ^ 63 ≤ number
    · rw [int64_eq ⟨fits, below⟩]
    · have above := le_int64 number
      omega

/-- A number of milliseconds, counted in nanoseconds. -/
def toNanos (milliseconds : Int) : Int := int64 (milliseconds * 1000000)

/-- The time point a number of milliseconds after another. -/
def timeAfter (now milliseconds : Int) : Int := int64 (now + toNanos milliseconds)

theorem timeAfter_eq_int64 (now milliseconds : Int)
    : timeAfter now milliseconds = int64 (now + milliseconds * 1000000) :=
  int64_add_int64 now _

/-- A time point that fits is the exact one. -/
theorem timeAfter_eq {now milliseconds : Int} (fits : Fits64 (now + milliseconds * 1000000))
    : timeAfter now milliseconds = now + milliseconds * 1000000 := by
  rw [timeAfter_eq_int64, int64_eq fits]

end Creek.Library
