import Creek.Proofs.Tight.ErasureRecovery

/-! The erasure code from the outside: erase any fragments of a message, hand the decoder the rest
and some parity fragments of the encoder, and the message comes back.
-/

namespace Creek.Tight.ReedSolomon

/-- What the decoder finds of a message when some of its fragments are erased. -/
def survivors (erased : Nat → Bool) (fragments : List Bytes) : List (Option Bytes) :=
  fragments.mapIdx fun j fragment => if erased j then none else some fragment

/-- The message as it is to come back: erased fragments padded to the common width. -/
def restored (erased : Nat → Bool) (width : Nat) (fragments : List Bytes)
    : List (Option Bytes) :=
  fragments.mapIdx fun j fragment => some (if erased j then padded width fragment else fragment)

/-- The parity fragments come from the encoder, whatever buffers it was given: a buffer may be
longer than the common width, beyond which nothing counts.
-/
def Encodes (fragments : List Bytes) (parityCount width : Nat) (buffers : List Bytes)
    (parity : List (Nat × Bytes))
    : Prop :=
  ∀ p ∈ parity,
    p.1 < parityCount
    ∧ (encodeInto fragments parityCount width buffers)[p.1]?.map (List.take width)
      = some (p.2.take width)

instance (fragments : List Bytes) (parityCount width : Nat) (buffers : List Bytes)
    (parity : List (Nat × Bytes))
    : Decidable (Encodes fragments parityCount width buffers parity) :=
  inferInstanceAs (Decidable (∀ p ∈ parity, _))

variable {fragments : List Bytes} {width : Nat} {erased : Nat → Bool}

theorem length_survivors (erased : Nat → Bool) (fragments : List Bytes)
    : (survivors erased fragments).length = fragments.length :=
  List.length_mapIdx

theorem getElem?_survivors (erased : Nat → Bool) (fragments : List Bytes) (j : Nat)
    : (survivors erased fragments)[j]?
      = fragments[j]?.map fun fragment => if erased j then none else some fragment :=
  List.getElem?_mapIdx

theorem missing_survivors (erased : Nat → Bool) (fragments : List Bytes)
    : missing (survivors erased fragments) = (List.range fragments.length).filter erased := by
  rw [missing, length_survivors]
  refine List.filter_congr fun j inRange => ?_
  have inside : j < fragments.length := List.mem_range.mp inRange
  rw [List.getD_eq_getElem?_getD, getElem?_survivors, List.getElem?_eq_getElem inside]
  cases erased j <;> rfl

/-- A parity buffer of the encoder holds weighted sums of the data fragments. -/
theorem symbol_encodeInto {parityCount p k : Nat} {buffers : List Bytes} {fragment : Bytes}
    (fits : ∀ fragment ∈ fragments, fragment.length ≤ width) (bound : p < parityCount)
    (filled : (encodeInto fragments parityCount width buffers)[p]?.map (List.take width)
      = some (fragment.take width))
    (inside : k < width)
    : symbol fragment k
      = ∑ j ∈ Finset.range fragments.length, weight p j * symbol (fragments.getD j []) k := by
  rw [encodeInto, List.getElem?_mapIdx, Option.map_map] at filled
  obtain ⟨buffer, -, same⟩ := Option.map_eq_some_iff.mp filled
  rw [Function.comp_apply, if_pos bound] at same
  rw [← symbol_encodeParity fits p buffer k, same]
  simp [symbol, List.getD_eq_getElem?_getD, inside]

/-- What is left of a message, with parity fragments of the encoder, is coded. -/
theorem Encodes.coded {parityCount : Nat} {buffers : List Bytes} {parity : List (Nat × Bytes)}
    (encodes : Encodes fragments parityCount width buffers parity)
    (fits : ∀ fragment ∈ fragments, fragment.length ≤ width) (erased : Nat → Bool)
    : Coded fragments (survivors erased fragments) parity width where
  widths := fits
  count := length_survivors erased fragments
  agrees j fragment found := by
    rw [getElem?_survivors] at found
    obtain ⟨original, here, kept⟩ := Option.map_eq_some_iff.mp found
    split at kept
    · cases kept
    · obtain rfl := Option.some.inj kept
      exact here
  encodes p fragment member k inside := by
    obtain ⟨bound, filled⟩ := encodes (p, fragment) member
    exact symbol_encodeInto fits bound filled inside

/-- A decoding that succeeds restores every erased fragment and keeps the others, and it succeeds
for up to 255 fragments as long as the parity fragments are among the first three and not
outnumbered by the gaps.
-/
theorem decode_survivors (fits : ∀ fragment ∈ fragments, fragment.length ≤ width)
    (erased : Nat → Bool) (parityCount : Nat) (buffers : List Bytes)
    (parity : List (Nat × Bytes))
    (encodes : Encodes fragments parityCount width buffers parity)
    (distinct : (parity.map Prod.fst).Nodup)
    : (∀ result,
        decode (survivors erased fragments) parity width = some result
        → result = restored erased width fragments)
      ∧ (fragments.length ≤ 255
        → (∀ p ∈ parity, p.1 < 3)
        → (List.range fragments.length).countP erased ≤ parity.length
        → decode (survivors erased fragments) parity width
          = some (restored erased width fragments)) := by
  have coded := encodes.coded fits erased
  have sound : ∀ result,
      decode (survivors erased fragments) parity width = some result
      → result = restored erased width fragments := by
    intro result decoded
    have length := (length_decode decoded).trans coded.count
    refine List.ext_getElem? fun j => ?_
    rw [restored, List.getElem?_mapIdx]
    cases found : fragments[j]? with
    | none =>
        rw [List.getElem?_eq_none_iff, ← length] at found
        rw [List.getElem?_eq_none found]
        rfl
    | some fragment =>
        rw [coded.decode decoded found, getElem?_survivors, found]
        cases erased j <;> rfl
  refine ⟨sound, fun few small enough => ?_⟩
  have gaps : (missing (survivors erased fragments)).length ≤ parity.length := by
    rw [missing_survivors, ← List.countP_eq_length_filter]
    exact enough
  have below : ∀ p ∈ parity.map Prod.fst, p < 3 := by
    intro p member
    obtain ⟨entry, inParity, rfl⟩ := List.mem_map.mp member
    exact small entry inParity
  obtain ⟨result, decoded⟩ := coded.decode_isSome gaps distinct below (Or.inr few)
  rw [decoded, sound result decoded]

/-- Two fragments of different lengths, the longer one erased, and the first parity fragment. -/
theorem decode_survivors_one_gap
    : (∀ result,
        decode (survivors (· == 0) [[1, 2], [3]]) [(0, [2, 2])] 2 = some result
        → result = restored (· == 0) 2 [[1, 2], [3]])
      ∧ ([[1, 2], [3]].length ≤ 255
        → (∀ p ∈ [((0 : Nat), ([2, 2] : Bytes))], p.1 < 3)
        → (List.range [[1, 2], [3]].length).countP (· == 0) ≤ [((0 : Nat), ([2, 2] : Bytes))].length
        → decode (survivors (· == 0) [[1, 2], [3]]) [(0, [2, 2])] 2
          = some (restored (· == 0) 2 [[1, 2], [3]])) :=
  decode_survivors (by decide) (· == 0) 1 [] [(0, [2, 2])] (by decide) (by decide)

end Creek.Tight.ReedSolomon
