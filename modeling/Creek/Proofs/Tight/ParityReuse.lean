import Creek.Proofs.Tight.ErasureRecovery
import Creek.Tight.Fragmenter

/-! Parity fragments in reused buffers: neither what the buffers held before nor how long they and the
fragments are shows in the bytes that travel.
-/

namespace Creek.Tight

/-- One byte of `gf_mul_add`; past the end of the source there are zeros. -/
theorem getElem?_gfMulAdd (dst src : Bytes) (c : UInt8) (width i : Nat)
    : (gfMulAdd dst src c width)[i]?
      = dst[i]?.map fun byte =>
          if i < width then byte ^^^ gfMul c (src.getD i 0) else byte := by
  have behind : ¬i < src.length → src.getD i 0 = 0 := fun outside => by
    rw [List.getD_eq_getElem?_getD, List.getElem?_eq_none (Nat.le_of_not_lt outside)]
    rfl
  by_cases zero : c = 0 ∨ src.isEmpty
  · have nothing : gfMul c (src.getD i 0) = 0 := by
      rcases zero with rfl | empty
      · exact zero_gfMul _
      · rw [List.isEmpty_iff.mp empty]
        exact gfMul_zero c
    rw [gfMulAdd, if_pos zero, nothing]
    simp
  have nonzero : c ≠ 0 := fun same => zero (.inl same)
  cases found : dst[i]? with
  | none =>
      have outside := List.getElem?_eq_none_iff.mp found
      rw [Option.map_none, List.getElem?_eq_none (by rwa [length_gfMulAdd])]
  | some byte =>
      obtain ⟨inDst, -⟩ := List.getElem?_eq_some_iff.mp found
      -- the three lengths that clamp the loop come down to that of the source and the width
      have clamped : i < min dst.length (min src.length width) ↔ i < src.length ∧ i < width := by
        omega
      by_cases one : c = 1
      · rw [gfMulAdd, if_neg zero, if_pos one, List.getElem?_mapIdx, found, one, one_gfMul]
        generalize src.getD i 0 = symbol at behind ⊢
        by_cases inSrc : i < src.length
        · simp [clamped, inSrc]
        · simp [clamped, inSrc, behind]
      · rw [gfMulAdd, if_neg zero, if_neg one, List.getElem?_mapIdx, found]
        generalize src.getD i 0 = symbol at behind ⊢
        by_cases vanishes : symbol = 0
        · simp [vanishes]
        · have inSrc : i < src.length := by_contra fun outside => vanishes (behind outside)
          simp [clamped, inSrc, gfMul, nonzero, vanishes]

namespace ReedSolomon

/-- Byte `i` of parity fragment `p`: the weighted sum of the fragments there. -/
def parityByte (fragments : List Bytes) (p i : Nat) : UInt8 :=
  (List.range fragments.length).foldl
    (fun byte j => byte ^^^ gfMul (coef p j) ((fragments.getD j []).getD i 0))
    0

/-- The parity fragments of some fragments at a common width. -/
def parities (fragments : List Bytes) (parityCount width : Nat) : List Bytes :=
  (List.range parityCount).map fun p => (List.range width).map (parityByte fragments p)

/-- A fragment at the common width: cut, or padded with zeros. -/
def fitted (width : Nat) (fragment : Bytes) : Bytes := padded width (fragment.take width)

variable {fragments : List Bytes} {width parityCount p i : Nat}

/-- Adding the sources one by one adds up every byte within the width. -/
theorem getElem?_foldl_gfMulAdd (sources : Nat → Bytes) (weights : Nat → UInt8) (width i n : Nat)
    (start : Bytes)
    : ((List.range n).foldl (fun dst j => gfMulAdd dst (sources j) (weights j) width) start)[i]?
      = start[i]?.map fun byte =>
          if i < width then
            (List.range n).foldl (fun byte j => byte ^^^ gfMul (weights j) ((sources j).getD i 0))
              byte
          else byte := by
  induction n with
  | zero => simp
  | succ n ih =>
      simp only [List.range_succ, List.foldl_append, List.foldl_cons, List.foldl_nil]
      rw [getElem?_gfMulAdd, ih, Option.map_map]
      congr 1
      funext byte
      by_cases inside : i < width <;> simp [inside]

theorem length_foldl_gfMulAdd (sources : Nat → Bytes) (weights : Nat → UInt8) (width n : Nat)
    (start : Bytes)
    : ((List.range n).foldl (fun dst j => gfMulAdd dst (sources j) (weights j) width) start).length
      = start.length := by
  induction n with
  | zero => rfl
  | succ n ih =>
      rw [List.range_succ, List.foldl_append, List.foldl_cons, List.foldl_nil, length_gfMulAdd, ih]

theorem length_encodeParity_eq (fragments : List Bytes) (width p : Nat) (buffer : Bytes)
    : (encodeParity fragments width p buffer).length = (clearBuffer width buffer).length :=
  length_foldl_gfMulAdd _ _ width fragments.length _

/-- Clearing leaves zeros up to the width, whatever the buffer was. -/
theorem getElem?_clearBuffer (inside : i < width) (buffer : Bytes)
    : (clearBuffer width buffer)[i]? = some 0 := by
  unfold clearBuffer
  split
  · rw [List.getElem?_replicate, if_pos inside]
  · rw [List.getElem?_append_left (by rwa [List.length_replicate]), List.getElem?_replicate,
      if_pos inside]

/-- The first bytes of a parity buffer are those of the parity fragment. -/
theorem take_encodeParity (fragments : List Bytes) (width p : Nat) (buffer : Bytes)
    : (encodeParity fragments width p buffer).take width
      = (List.range width).map (parityByte fragments p) := by
  refine List.ext_getElem? fun i => ?_
  by_cases inside : i < width
  · rw [List.getElem?_take, if_pos inside, List.getElem?_map, List.getElem?_range inside,
      encodeParity, getElem?_foldl_gfMulAdd, getElem?_clearBuffer inside, Option.map_some,
      if_pos inside]
    rfl
  · rw [List.getElem?_take, if_neg inside, List.getElem?_map,
      List.getElem?_eq_none (by rw [List.length_range]; omega), Option.map_none]

theorem encodeParity_nil (fragments : List Bytes) (width p : Nat)
    : encodeParity fragments width p [] = (List.range width).map (parityByte fragments p) := by
  have short : (encodeParity fragments width p []).length ≤ width := by
    rw [length_encodeParity_eq, clearBuffer]
    split <;> simp
  rw [← take_encodeParity fragments width p [], List.take_of_length_le short]

theorem take_encodeInto (fragments : List Bytes) (parityCount width : Nat) (out : List Bytes)
    : ((encodeInto fragments parityCount width out).take parityCount).map (List.take width)
      = parities fragments parityCount width := by
  refine List.ext_getElem? fun p => ?_
  rw [parities, List.getElem?_map, List.getElem?_map, List.getElem?_take]
  by_cases inside : p < parityCount
  · rw [if_pos inside, List.getElem?_range inside, encodeInto, List.getElem?_mapIdx]
    generalize grown : out ++ List.replicate (parityCount - out.length) [] = buffers
    have inBuffers : p < buffers.length := by
      rw [← grown, List.length_append, List.length_replicate]
      omega
    rw [List.getElem?_eq_getElem inBuffers, Option.map_some, Option.map_some, Option.map_some,
      if_pos inside, take_encodeParity]
  · rw [if_neg inside, List.getElem?_eq_none (by rw [List.length_range]; omega), Option.map_none,
      Option.map_none]

theorem encode_eq (fragments : List Bytes) (parityCount width : Nat)
    : encode fragments parityCount width = parities fragments parityCount width := by
  refine List.ext_getElem? fun p => ?_
  rw [encode, encodeInto, List.nil_append, List.length_nil, Nat.sub_zero, List.getElem?_mapIdx,
    List.getElem?_replicate, parities, List.getElem?_map]
  by_cases inside : p < parityCount
  · rw [if_pos inside, List.getElem?_range inside, Option.map_some, Option.map_some,
      if_pos inside, encodeParity_nil]
  · rw [if_neg inside, List.getElem?_eq_none (by rw [List.length_range]; omega), Option.map_none,
      Option.map_none]

/-- Within the width a fitted fragment has the bytes of the fragment. -/
theorem getD_fitted (inside : i < width) (fragment : Bytes)
    : (fitted width fragment).getD i 0 = fragment.getD i 0 := by
  have same : (fitted width fragment).getD i 0 = (fragment.take width).getD i 0 :=
    Gf.mk.inj (symbol_padded width (fragment.take width) i)
  rw [same, List.getD_eq_getElem?_getD, List.getElem?_take, if_pos inside,
    List.getD_eq_getElem?_getD]

theorem parityByte_fitted (inside : i < width) (fragments : List Bytes) (p : Nat)
    : parityByte (fragments.map (fitted width)) p i = parityByte fragments p i := by
  rw [parityByte, List.length_map]
  refine List.foldl_ext _ _ 0 fun byte j inRange => ?_
  have inFragments := List.mem_range.mp inRange
  have entry : (fragments.map (fitted width)).getD j [] = fitted width (fragments.getD j []) := by
    rw [List.getD_eq_getElem?_getD, List.getElem?_map, List.getD_eq_getElem?_getD,
      List.getElem?_eq_getElem inFragments]
    rfl
  rw [entry, getD_fitted inside]

theorem parities_fitted (fragments : List Bytes) (parityCount width : Nat)
    : parities (fragments.map (fitted width)) parityCount width
      = parities fragments parityCount width := by
  refine List.map_congr_left fun p _ => List.map_congr_left fun i inRange => ?_
  exact parityByte_fitted (List.mem_range.mp inRange) fragments p

/-- Reused buffers hold, up to the width, the parity fragments that fresh ones would, and so do they for
the fragments cut or padded to the width.
-/
theorem encodeInto_reused (fragments : List Bytes) (parityCount width : Nat) (out : List Bytes)
    : ((encodeInto fragments parityCount width out).take parityCount).map (List.take width)
          = encode fragments parityCount width
      ∧ ((encodeInto fragments parityCount width out).take parityCount).map (List.take width)
          = encode (fragments.map (fitted width)) parityCount width := by
  rw [encode_eq, encode_eq, parities_fitted]
  exact ⟨take_encodeInto fragments parityCount width out,
    take_encodeInto fragments parityCount width out⟩

end ReedSolomon

-- The buffers of a thread

namespace Fragmenter

open ReedSolomon

variable {numerics : Numerics}

/-- A message for `fragment_and_send`. -/
structure Message where
  peer : Peer
  payload : Bytes
  mtu : Nat

/-- The calls for the messages of one thread, which keeps its parity buffers between them. -/
def sends (numerics : Numerics) : List Message → List Bytes → List (List FragmentCall)
  | [], _ => []
  | message :: rest, scratch =>
      let outcome := fragmentAndSend numerics message.peer message.payload message.mtu scratch
      outcome.calls :: sends numerics rest outcome.scratch

end Fragmenter

end Creek.Tight
