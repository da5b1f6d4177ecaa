import Creek.Proofs.Tight.ReassemblerSafety

/-! What the reassembler delivers of a group whose stream is malformed: too short for its length
prefix, or announcing more than the limit. The rejection of such a stream is an empty buffer, and
the empty buffer is delivered like any other.
-/

namespace Creek.Tight.Reassembler

open Library

variable {message : IncomingMessage}

/-- A group as the reassembler collects it: its vectors match the count it was opened with. -/
structure Collected (message : IncomingMessage) : Prop where
  sizes : message.sizes.length = message.fragments.length
  fragments : message.fragments.length = message.totalCount

/-- Every group of a collection is one. -/
def AllCollected (collection : Collection) : Prop :=
  ∀ (id : Nat) (message : IncomingMessage), collection.incoming[id]? = some message
    → Collected message

/-- The bytes of data fragment `i` that count, the fragment being there or recovered. -/
def recoveredPiece (message : IncomingMessage) (recovered : List (Option Bytes)) (i : Nat)
    : Bytes :=
  if message.fragments[i]? = some none then
    ((recovered.getD i none).getD []).take (u16 (maxWidth message))
  else piece message i

/-- The stream of a group that lacks `gaps` data fragments and can recover them. -/
def recoveredStream (message : IncomingMessage) (dataCount parityCount gaps : Nat)
    : Option Bytes :=
  let parities := arrivedParities message dataCount parityCount
  if parityCount < gaps ∨ maxWidth message = 0 ∨ parities.length < gaps then none
  else
    (ReedSolomon.decode (message.fragments.take dataCount) parities (maxWidth message)).map
      fun recovered => (List.range dataCount).flatMap (recoveredPiece message recovered)

/-- The stream of a group that has all its data fragments or can recover them. -/
def assembledStream (message : IncomingMessage) : Option Bytes :=
  let dataCount := effectiveDataCount message
  let present := presentCount message dataCount
  if message.totalCount < 2 ∨ message.totalCount < dataCount then none
  else if present = dataCount then some (stream message dataCount)
  else recoveredStream message dataCount (message.totalCount - dataCount) (dataCount - present)

/-- A stream that holds its length prefix and announces no more than the limit. -/
def WellFramed (maxMessageBytes : Nat) (bytes : Bytes) : Prop :=
  4 ≤ bytes.length ∧ (get32 bytes 0).toNat ≤ maxMessageBytes

/-- The filled gaps and the fragments that were there make up the recovered stream. -/
theorem Filled.stream {filled : IncomingMessage} {recovered : List (Option Bytes)} {n : Nat}
    (isFilled : Filled message filled recovered (maxWidth message) n)
    : stream filled n = (List.range n).flatMap (recoveredPiece message recovered) := by
  rw [Reassembler.stream]
  refine List.flatMap_congr fun i inRange => ?_
  have bound := List.mem_range.mp inRange
  rw [recoveredPiece]
  split
  · rename_i gap
    obtain ⟨fragment, size⟩ := isFilled.gap i bound gap
    simp only [piece, List.getD_eq_getElem?_getD, fragment, size, Option.getD_some]
  · rename_i noGap
    obtain ⟨fragment, size⟩ := isFilled.kept i (Or.inr noGap)
    simp only [piece, List.getD_eq_getElem?_getD, fragment, size]

/-- Recovery delivers what the recovered stream frames, if there is one. -/
theorem recover_recovered {n parityCount gaps : Nat} (inFragments : n ≤ message.fragments.length)
    (inSizes : n ≤ message.sizes.length) (maxMessageBytes : Nat)
    : recover message n parityCount gaps maxMessageBytes
      = .ok ((recoveredStream message n parityCount gaps).map (unframe maxMessageBytes)) := by
  rw [recoveredStream]
  by_cases tooMany : parityCount < gaps
  · rw [if_pos (Or.inl tooMany), recover, if_pos tooMany]
    rfl
  by_cases empty : maxWidth message = 0
  · rw [if_pos (Or.inr (Or.inl empty)), recover, if_neg tooMany, if_pos empty]
    rfl
  by_cases few : (arrivedParities message n parityCount).length < gaps
  · rw [if_pos (Or.inr (Or.inr few)), recover_few inFragments _ few]
    rfl
  have usable : ¬(parityCount < gaps ∨ maxWidth message = 0
      ∨ (arrivedParities message n parityCount).length < gaps) := by
    rintro (tooMany' | empty' | few')
    · exact tooMany tooMany'
    · exact empty empty'
    · exact few few'
  rw [if_neg usable]
  cases decoded : ReedSolomon.decode (message.fragments.take n)
      (arrivedParities message n parityCount) (maxWidth message) with
  | none => exact recover_undecodable inFragments _ decoded
  | some recovered =>
      obtain ⟨filled, isFilled, delivered⟩ := recover_decoded inFragments maxMessageBytes inSizes
        (Nat.le_of_not_lt tooMany) (Nat.le_of_not_lt few) empty decoded
      rw [delivered, isFilled.stream]
      rfl

/-- Assembly delivers what the stream of the group frames, if there is a stream. -/
theorem Collected.tryAssemble (collected : Collected message) (maxMessageBytes : Nat)
    (payload : Bytes)
    : Reassembler.tryAssemble message maxMessageBytes = .ok (some payload)
      ↔ (assembledStream message).map (unframe maxMessageBytes) = some payload := by
  rw [assembledStream]
  by_cases several : message.totalCount < 2
  · rw [Reassembler.tryAssemble, if_pos several, if_pos (Or.inl several)]
    refine iff_of_false (fun same => ?_) (fun same => ?_) <;> cases same
  by_cases counts : effectiveDataCount message ≤ message.totalCount
  · have inFragments : effectiveDataCount message ≤ message.fragments.length := by
      rw [collected.fragments]
      exact counts
    have inSizes : effectiveDataCount message ≤ message.sizes.length := by
      rw [collected.sizes]
      exact inFragments
    have usable : ¬(message.totalCount < 2 ∨ message.totalCount < effectiveDataCount message) :=
      not_or.mpr ⟨several, Nat.not_lt.mpr counts⟩
    rw [Reassembler.tryAssemble, if_neg several, if_neg usable]
    simp only [difference_of_le counts, ok_bind, countPresent_eq inFragments]
    by_cases full
        : presentCount message (effectiveDataCount message) = effectiveDataCount message
    · have present := present_of_presentCount full inSizes
      rw [if_pos full, if_pos full, present.buildMsg]
      exact ⟨fun same => congrArg some (Option.some.inj (Except.ok.inj same)),
        fun same => congrArg Except.ok same⟩
    · rw [if_neg full, if_neg full, recover_recovered inFragments inSizes]
      exact ⟨Except.ok.inj, congrArg Except.ok⟩
  · rw [Reassembler.tryAssemble, if_neg several, if_pos (Or.inr (Nat.lt_of_not_le counts))]
    simp only [difference, counts, if_false]
    refine iff_of_false (fun same => ?_) (fun same => ?_) <;> cases same

/-- The group is delivered only with a well-framed stream, and then with the announced bytes as far
as the stream has them.
-/
def DeliversFramed (maxMessageBytes : Nat) (message : IncomingMessage) : Prop :=
  ∀ payload, tryAssemble message maxMessageBytes = .ok (some payload)
    → ∃ bytes, assembledStream message = some bytes
      ∧ WellFramed maxMessageBytes bytes
      ∧ payload.length = min (get32 bytes 0).toNat (bytes.length - 4)

/-- A well-framed stream yields as many bytes as it announces and has. -/
theorem length_unframe {maxMessageBytes : Nat} {bytes : Bytes}
    (framed : WellFramed maxMessageBytes bytes)
    : (unframe maxMessageBytes bytes).length = min (get32 bytes 0).toNat (bytes.length - 4) := by
  obtain ⟨long, small⟩ := framed
  rw [unframe, if_neg (Nat.not_lt.mpr long), if_neg (Nat.not_lt.mpr small), List.length_take,
    List.length_drop]

/-- Malformed groups are dropped only where they never get a stream: a group that has all its data
fragments, or recovers them, is delivered in any case.
-/
theorem deliversFramed_iff (collected : Collected message) (maxMessageBytes : Nat)
    : DeliversFramed maxMessageBytes message
      ↔ ∀ bytes, assembledStream message = some bytes → WellFramed maxMessageBytes bytes := by
  constructor
  · intro delivers bytes assembled
    obtain ⟨bytes', same, framed, -⟩ := delivers (unframe maxMessageBytes bytes)
      ((collected.tryAssemble _ _).mpr (by rw [assembled]; rfl))
    obtain rfl := Option.some.inj (assembled.symm.trans same)
    exact framed
  · intro framed payload delivered
    obtain ⟨bytes, assembled, rfl⟩ :=
      Option.map_eq_some_iff.mp ((collected.tryAssemble _ _).mp delivered)
    have wellFramed := framed bytes assembled
    exact ⟨bytes, assembled, wellFramed, length_unframe wellFramed⟩

/-- A group of one data and one parity fragment, of which the data fragment is there. -/
def loneGroup (bytes : Bytes) : IncomingMessage where
  messageId := 1
  totalCount := 2
  dataCount := 1
  fragments := [some bytes, none]
  sizes := [bytes.length, 0]

theorem collected_loneGroup (bytes : Bytes) : Collected (loneGroup bytes) := ⟨rfl, rfl⟩

theorem assembledStream_loneGroup (bytes : Bytes)
    : assembledStream (loneGroup bytes) = some bytes := by
  have stream_ : stream (loneGroup bytes) 1 = bytes := by
    simp [stream, piece, loneGroup]
  exact congrArg some stream_

/-- A one-byte message in its frame. -/
theorem deliversFramed_loneGroup : DeliversFramed 65536 (loneGroup [0, 0, 0, 1, 7]) := by
  refine (deliversFramed_iff (collected_loneGroup _) _).mpr fun bytes assembled => ?_
  rw [assembledStream_loneGroup] at assembled
  obtain rfl := Option.some.inj assembled
  exact ⟨by decide, by decide⟩

/-- A group that announces four gigabytes is delivered as the empty message, and so is a group of
one byte.
-/
theorem malformed_loneGroup_delivered
    : tryAssemble (loneGroup [255, 255, 255, 255]) 65536 = .ok (some [])
      ∧ tryAssemble (loneGroup [7]) 65536 = .ok (some [])
      ∧ ¬∀ (message : IncomingMessage) (maxMessageBytes : Nat),
          Collected message → DeliversFramed maxMessageBytes message := by
  have huge : tryAssemble (loneGroup [255, 255, 255, 255]) 65536 = .ok (some []) :=
    ((collected_loneGroup _).tryAssemble _ _).mpr (by rw [assembledStream_loneGroup]; rfl)
  have short : tryAssemble (loneGroup [7]) 65536 = .ok (some []) :=
    ((collected_loneGroup _).tryAssemble _ _).mpr (by rw [assembledStream_loneGroup]; rfl)
  refine ⟨huge, short, fun all => ?_⟩
  obtain ⟨bytes, assembled, framed, -⟩ := all _ _ (collected_loneGroup [7]) [] short
  rw [assembledStream_loneGroup] at assembled
  obtain rfl := Option.some.inj assembled
  exact absurd framed.1 (by decide)

end Creek.Tight.Reassembler
