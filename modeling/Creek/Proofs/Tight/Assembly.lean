import Creek.Tight.Reassembler

/-! Building a message from complete fragments.
No access of `build_msg` leaves its array, and the result is the stream of fragment bytes with
its length prefix taken off.
-/

namespace Creek.Tight.Reassembler

open Library

/-- The first `dataCount` fragments are there, with a size each. -/
structure Present (message : IncomingMessage) (dataCount : Nat) : Prop where
  fragment : ∀ i < dataCount, ∃ bytes, message.fragments[i]? = some (some bytes)
  sizes : dataCount ≤ message.sizes.length

/-- The bytes of fragment `i` that count. -/
def piece (message : IncomingMessage) (i : Nat) : Bytes :=
  ((message.fragments.getD i none).getD []).take (message.sizes.getD i 0)

/-- The bytes of the first `dataCount` fragments in order. -/
def stream (message : IncomingMessage) (dataCount : Nat) : Bytes :=
  (List.range dataCount).flatMap (piece message)

/-- What the length prefix of a stream frames, within a limit. -/
def unframe (maxMessageBytes : Nat) (stream : Bytes) : Bytes :=
  if stream.length < 4 then []
  else if (get32 stream 0).toNat > maxMessageBytes then []
  else (stream.drop 4).take (get32 stream 0).toNat

variable {message : IncomingMessage} {dataCount : Nat}

theorem stream_succ (message : IncomingMessage) (n : Nat)
    : stream message (n + 1) = stream message n ++ piece message n := by
  simp [stream, List.range_succ]

/-- A present fragment is read with the length of its piece. -/
theorem Present.extent (present : Present message dataCount) {i : Nat} (bound : i < dataCount)
    : ∃ fragment,
        Reassembler.extent message i = .ok (fragment, (piece message i).length)
        ∧ piece message i = fragment.take (piece message i).length := by
  obtain ⟨fragment, stored⟩ := present.fragment i bound
  have inSizes : i < message.sizes.length := Nat.lt_of_lt_of_le bound present.sizes
  have size : message.sizes.getD i 0 = message.sizes[i] := by
    rw [List.getD_eq_getElem?_getD, List.getElem?_eq_getElem inSizes, Option.getD_some]
  have content : piece message i = fragment.take message.sizes[i] := by
    rw [piece, size, List.getD_eq_getElem?_getD, stored]
    rfl
  refine ⟨fragment, ?_, ?_⟩
  · rw [Reassembler.extent, fetch_of_lt inSizes, fetch_of_getElem? stored, content,
      List.length_take]
    rfl
  · rw [content, List.length_take, ← List.take_eq_take_min]

theorem Present.streamLength (present : Present message dataCount)
    : Reassembler.streamLength message dataCount = .ok (stream message dataCount).length := by
  obtain ⟨length, ran, same⟩ := forRange_ok dataCount
    (fun length i => do return length + (← Reassembler.extent message i).2)
    0 (fun i length => length = (stream message i).length) rfl
    (by
      rintro i inRange length rfl
      obtain ⟨fragment, read, -⟩ := present.extent inRange
      exact ⟨_, by rw [read]; rfl, by rw [stream_succ, List.length_append]⟩)
  rw [← same]
  exact ran

/-- The state of the prefix loop after some stream bytes. -/
def prefixState (before : Bytes) : Bytes × Nat :=
  (before.take 4 ++ List.replicate (4 - (before.take 4).length) 0, 4 - (before.take 4).length)

/-- The prefix loop has read the first stream bytes and needs the rest of the four. -/
theorem Present.readPrefix (present : Present message dataCount)
    : Reassembler.readPrefix message dataCount = .ok (prefixState (stream message dataCount)) := by
  rw [Reassembler.readPrefix]
  refine forRange_eq dataCount (fun i => prefixState (stream message i)) rfl fun i inRange => ?_
  obtain ⟨fragment, read, content⟩ := present.extent inRange
  have length := congrArg List.length content
  rw [List.length_take] at length
  rw [stream_succ]
  generalize stream message i = before at *
  generalize piece message i = next at *
  by_cases long : 4 ≤ before.length
  · have done : 4 - (before.take 4).length = 0 := by rw [List.length_take]; omega
    simp only [prefixState, done, if_true, List.take_append_of_le_length long]
    rfl
  · have whole : before.take 4 = before := List.take_of_length_le (by omega)
    have grown : (before ++ next).take 4 = before ++ next.take (4 - before.length) := by
      rw [List.take_append, whole]
    have needed : ¬4 - before.length = 0 := by omega
    have back : 4 - (4 - before.length) = before.length := by omega
    have taken : readSlice fragment 0 (min next.length (4 - before.length))
        = .ok (next.take (4 - before.length)) := by
      rw [readSlice_of_le (by omega), List.drop_zero, Nat.min_comm, ← List.take_take, ← content]
    have written := writeSlice_filled before (next.take (4 - before.length))
      (0 : UInt8)
      (show before.length + (next.take (4 - before.length)).length ≤ 4 by
        rw [List.length_take]
        omega)
    simp only [prefixState, whole, needed, if_false, read, ok_bind, taken, back, written,
      grown]
    simp only [pure_eq_ok, List.length_append, List.length_take, Except.ok.injEq,
      Prod.mk.injEq, true_and]
    omega

/-- The state of the copy loop after some stream bytes. While the result is not full, `skip`
counts the prefix bytes still ahead.
-/
structure Copied (total : Nat) (before : Bytes) (state : CopyState) : Prop where
  result : state.result = (before.drop 4).take total
    ++ List.replicate (total - ((before.drop 4).take total).length) 0
  outOff : state.outOff = ((before.drop 4).take total).length
  skip : state.outOff < total → state.skip = 4 - before.length

/-- One fragment of the copy loop appends its part of the message. -/
theorem Present.copyFragment (present : Present message dataCount) {i total : Nat}
    {state : CopyState} (inRange : i < dataCount)
    (copied : Copied total (stream message i) state)
    : ∃ next, Reassembler.copyFragment message total state i = .ok next
        ∧ Copied total (stream message (i + 1)) next := by
  obtain ⟨fragment, read, content⟩ := present.extent inRange
  obtain ⟨result, skip, outOff⟩ := state
  obtain ⟨rfl, rfl, skipped⟩ := copied
  have length := congrArg List.length content
  rw [List.length_take] at length
  rw [stream_succ, Reassembler.copyFragment]
  generalize stream message i = before at *
  generalize piece message i = next at *
  have grown : ((before ++ next).drop 4).take total
      = (before.drop 4).take total
        ++ (next.drop (4 - before.length)).take (total - (before.length - 4)) := by
    rw [List.drop_append, List.take_append, List.length_drop]
  have filled : ((before.drop 4).take total).length = min total (before.length - 4) := by
    rw [List.length_take, List.length_drop]
  rw [filled] at skipped ⊢
  by_cases room : min total (before.length - 4) < total
  · have same := skipped room
    subst same
    simp only [room, not_true_eq_false, if_false, read, ok_bind]
    by_cases ahead : 4 - before.length ≥ next.length
    · have none : next.drop (4 - before.length) = [] := List.drop_of_length_le ahead
      rw [none, List.take_nil, List.append_nil] at grown
      refine ⟨_, if_pos ahead, ⟨?_, ?_, fun _ => ?_⟩⟩
      · rw [grown, filled]
      · rw [grown, filled]
      · simp only [List.length_append]
        omega
    · let count := if min total (before.length - 4) + (next.length - (4 - before.length)) > total
        then total - min total (before.length - 4) else next.length - (4 - before.length)
      have countEq : count = min (total - (before.length - 4))
          (next.length - (4 - before.length)) := by
        simp only [count]
        split <;> omega
      have slice : readSlice fragment (4 - before.length) count
          = .ok ((next.drop (4 - before.length)).take (total - (before.length - 4))) := by
        rw [readSlice_of_le (by omega), content, List.drop_take, List.take_take, countEq]
      have written := writeSlice_filled ((before.drop 4).take total)
        ((next.drop (4 - before.length)).take (total - (before.length - 4))) (0 : UInt8)
        (show _ ≤ total by rw [filled, List.length_take]; omega)
      rw [filled] at written
      have newFilled : (((before ++ next).drop 4).take total).length
          = min total (before.length - 4) + count := by
        rw [grown, List.length_append, filled, List.length_take, List.length_drop, countEq]
      refine ⟨
        {
          result := ((before ++ next).drop 4).take total
            ++ List.replicate (total - (((before ++ next).drop 4).take total).length) 0
          skip := 0
          outOff := min total (before.length - 4) + count
        },
        ?_, ⟨rfl, newFilled.symm, fun _ => ?_⟩⟩
      · simp only [ahead, if_false]
        rw [slice, ok_bind, written, ok_bind, ← grown]
        rfl
      · simp only [List.length_append]
        omega
  · have full : total - (before.length - 4) = 0 := by omega
    rw [full, List.take_zero, List.append_nil] at grown
    refine ⟨_, if_pos room, ⟨?_, ?_, fun below => absurd below ?_⟩⟩
    · rw [grown, filled]
    · rw [grown, filled]
    · exact room

/-- Building a message from present fragments does not fault and unframes their stream. -/
theorem Present.buildMsg (present : Present message dataCount) (maxMessageBytes : Nat)
    : Reassembler.buildMsg message dataCount maxMessageBytes
      = .ok (unframe maxMessageBytes (stream message dataCount)) := by
  rw [Reassembler.buildMsg, present.streamLength, ok_bind, unframe]
  generalize named : stream message dataCount = bytes
  by_cases short : bytes.length < 4
  · simp only [short, if_true]
    rfl
  have full : (bytes.take 4).length = 4 := by rw [List.length_take]; omega
  have total : get32 (prefixState bytes).1 0 = get32 bytes 0 := by
    obtain ⟨b0, b1, b2, b3, rest, rfl⟩ : ∃ b0 b1 b2 b3 rest, bytes = b0 :: b1 :: b2 :: b3 :: rest := by
      match bytes, short with
      | b0 :: b1 :: b2 :: b3 :: rest, _ => exact ⟨b0, b1, b2, b3, rest, rfl⟩
      | [], short | [_], short | [_, _], short | [_, _, _], short => simp at short
    rfl
  simp only [short, if_false, present.readPrefix, named, ok_bind, total]
  by_cases large : (get32 bytes 0).toNat > maxMessageBytes
  · simp only [large, if_true]
    rfl
  simp only [large, if_false]
  generalize (get32 bytes 0).toNat = announced
  generalize cut : (if announced > bytes.length - 4 then bytes.length - 4 else announced) = count
  have countEq : count = min announced (bytes.length - 4) := by
    rw [← cut]
    split <;> omega
  obtain ⟨final, ran, copied⟩ := forRange_ok dataCount (Reassembler.copyFragment message count)
    { result := List.replicate count 0, skip := 4, outOff := 0 }
    (fun i state => Copied count (stream message i) state)
    ⟨by simp [stream], by simp [stream], by simp [stream]⟩
    fun i inRange state => present.copyFragment inRange
  rw [ran, ok_bind]
  have whole : ((bytes.drop 4).take count).length = count := by
    rw [List.length_take, List.length_drop]
    omega
  have result := copied.result
  rw [named, whole, Nat.sub_self, List.replicate_zero, List.append_nil] at result
  rw [result, pure_eq_ok, countEq, ← List.length_drop, ← List.take_eq_take_min]

end Creek.Tight.Reassembler
