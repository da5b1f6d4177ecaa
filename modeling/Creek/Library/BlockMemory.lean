import Mathlib

/-! Memory as blocks. A pointer names the allocation it points into, so that a pointer into a block that
has been freed never points into another one, wherever that one may lie.
-/

namespace Creek.Library

/-- The contents of all blocks, also of the freed ones and beyond their ends. -/
abbrev Blocks (β : Type) := Nat → Nat → β

/-- Consecutive bytes. There is no block behind the null pointer. -/
structure Span where
  block : Option Nat
  offset : Nat
  length : Nat
  deriving DecidableEq, Repr

/-- Every byte of the span lies in a block of some size. -/
def Span.Within (block size : Nat) (span : Span) : Prop :=
  ∀ i < span.length, span.block = some block ∧ span.offset + i < size

theorem Span.within_iff {block size : Nat} {span : Span}
    : span.Within block size
      ↔ span.length = 0 ∨ span.block = some block ∧ span.offset + span.length ≤ size := by
  constructor
  · intro within
    rcases Nat.eq_zero_or_pos span.length with empty | nonempty
    · exact .inl empty
    · have last := within (span.length - 1) (Nat.sub_lt nonempty Nat.one_pos)
      exact .inr ⟨last.1, by omega⟩
  · rintro (empty | ⟨same, bound⟩) i position
    · exact absurd (empty ▸ position) (Nat.not_lt_zero i)
    · exact ⟨same, Nat.lt_of_lt_of_le (Nat.add_lt_add_left position _) bound⟩

instance {block size : Nat} {span : Span} : Decidable (span.Within block size) :=
  decidable_of_iff _ Span.within_iff.symm

namespace Blocks

variable {β : Type}

/-- The byte a pointer points at. -/
def byteAt [Inhabited β] (blocks : Blocks β) (block : Option Nat) (offset : Nat) : β :=
  match block with
  | none => default
  | some block => blocks block offset

/-- The bytes of a span. -/
def load [Inhabited β] (blocks : Blocks β) (span : Span) : List β :=
  (List.range span.length).map fun i => blocks.byteAt span.block (span.offset + i)

/-- Writes data from a pointer on. -/
def store (blocks : Blocks β) (block : Option Nat) (offset : Nat) (data : List β) : Blocks β :=
  fun other position =>
    if some other = block ∧ offset ≤ position then
      data.getD (position - offset) (blocks other position)
    else
      blocks other position

/-- Moves a block: the new one has the bytes of the old one, and is filled up with others. -/
def move (blocks : Blocks β) (old new : Nat) (size : Nat) (fill : β) : Blocks β :=
  fun other position =>
    if other = new then
      if position < size then blocks old position else fill
    else
      blocks other position

/-- The bytes from a pointer on, up to a terminator or a number of bytes. -/
def scan [Inhabited β] [DecidableEq β] (blocks : Blocks β) (block : Option Nat) (terminator : β)
    (offset : Nat)
    : Nat → List β
  | 0 => []
  | count + 1 =>
      if blocks.byteAt block offset = terminator then []
      else blocks.byteAt block offset :: scan blocks block terminator (offset + 1) count

end Blocks

end Creek.Library
