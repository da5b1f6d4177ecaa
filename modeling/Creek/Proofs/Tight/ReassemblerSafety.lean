import Creek.Proofs.Tight.Assembly
import Creek.Proofs.Tight.ErasureShape

/-! Memory safety of the reassembler on arbitrary packets.
A group whose data count does not exceed its total count never faults; a group opened beyond
that faults at once.
-/

namespace Creek.Tight.Reassembler

open Library

/-- A group whose vectors match its counts. -/
structure WellFormed (message : IncomingMessage) : Prop where
  sizes : message.sizes.length = message.fragments.length
  fragments : message.fragments.length = message.totalCount
  data : 2 ≤ message.totalCount → message.dataCount ≤ message.totalCount

variable {message : IncomingMessage}

theorem WellFormed.effectiveDataCount_le (wellFormed : WellFormed message)
    (several : 2 ≤ message.totalCount)
    : effectiveDataCount message ≤ message.totalCount := by
  have data := wellFormed.data several
  unfold effectiveDataCount
  split <;> omega

theorem WellFormed.effectiveDataCount_le_length (wellFormed : WellFormed message)
    (several : 2 ≤ message.totalCount)
    : effectiveDataCount message ≤ message.fragments.length := by
  rw [wellFormed.fragments]
  exact wellFormed.effectiveDataCount_le several

/-- The number of the first `n` fragments that are there. -/
def presentCount (message : IncomingMessage) (n : Nat) : Nat :=
  (List.range n).countP fun i => (message.fragments.getD i none).isSome

theorem countPresent_eq {n : Nat} (bound : n ≤ message.fragments.length)
    : countPresent message n = .ok (presentCount message n) := by
  obtain ⟨present, ran, rfl⟩ := forRange_ok n
    (fun present i => do
      return if (← fetch message.fragments i).isSome then present + 1 else present)
    0 (fun i present => present = presentCount message i) rfl
    (by
      rintro i inRange present rfl
      have inside : i < message.fragments.length := by omega
      refine ⟨_, ?_, rfl⟩
      have counted : presentCount message (i + 1)
          = presentCount message i + if message.fragments[i].isSome then 1 else 0 := by
        simp [presentCount, List.range_succ, List.countP_append, List.countP_cons,
          List.getElem?_eq_getElem inside]
      rw [fetch_of_lt inside, ok_bind, pure_eq_ok, counted]
      split <;> rfl)
  exact ran

theorem present_of_presentCount {n : Nat} (full : presentCount message n = n)
    (sizes : n ≤ message.sizes.length)
    : Present message n := by
  refine ⟨fun i inRange => ?_, sizes⟩
  have all := List.countP_eq_length.mp (full.trans List.length_range.symm) i
    (List.mem_range.mpr inRange)
  rw [List.getD_eq_getElem?_getD] at all
  cases found : message.fragments[i]? with
  | none => simp [found] at all
  | some fragment =>
      rw [found] at all
      obtain ⟨bytes, rfl⟩ := Option.isSome_iff_exists.mp all
      exact ⟨bytes, rfl⟩

/-- The first `n` gaps of a group are filled with recovered fragments. -/
structure Filled (message filled : IncomingMessage) (recovered : List (Option Bytes))
    (width n : Nat)
    : Prop where
  fragments : filled.fragments.length = message.fragments.length
  sizes : filled.sizes.length = message.sizes.length
  gap : ∀ i < n, message.fragments[i]? = some none
    → filled.fragments[i]? = recovered[i]? ∧ filled.sizes[i]? = some (u16 width)
  kept : ∀ i, n ≤ i ∨ message.fragments[i]? ≠ some none
    → filled.fragments[i]? = message.fragments[i]? ∧ filled.sizes[i]? = message.sizes[i]?

private theorem Filled.pass {filled : IncomingMessage} {recovered : List (Option Bytes)}
    {width i : Nat} (before : Filled message filled recovered width i)
    (inFragments : i < message.fragments.length) (inSizes : i < message.sizes.length)
    (full : ∃ bytes, recovered[i]? = some (some bytes))
    : ∃ next,
        (do
          let present ← fetch filled.fragments i
          if present.isSome then return filled
          match ← fetch recovered i with
          | none => return filled
          | some fragment =>
              return {
                filled with
                fragments := ← store filled.fragments i (some fragment)
                sizes := ← store filled.sizes i (u16 width)
              })
          = .ok next
        ∧ Filled message next recovered width (i + 1) := by
  obtain ⟨bytes, recoveredHere⟩ := full
  have same := (before.kept i (Or.inl (Nat.le_refl i))).1
  have inFilled : i < filled.fragments.length := by rw [before.fragments]; exact inFragments
  have inFilledSizes : i < filled.sizes.length := by rw [before.sizes]; exact inSizes
  cases here : message.fragments[i] with
  | some value =>
      have stored : message.fragments[i]? = some (some value) := by
        rw [List.getElem?_eq_getElem inFragments, here]
      refine ⟨filled, ?_, before.fragments, before.sizes, fun j bound gap => ?_,
        fun j outside => ?_⟩
      · simp only [fetch_of_getElem? (same.trans stored), ok_bind, Option.isSome_some, if_true,
          pure_eq_ok]
      · rcases Nat.lt_succ_iff_lt_or_eq.mp bound with earlier | rfl
        · exact before.gap j earlier gap
        · rw [stored] at gap
          cases gap
      · rcases outside with beyond | noGap
        · exact before.kept j (Or.inl (by omega))
        · exact before.kept j (Or.inr noGap)
  | none =>
      have stored : message.fragments[i]? = some none := by
        rw [List.getElem?_eq_getElem inFragments, here]
      refine ⟨{
          filled with
          fragments := filled.fragments.set i (some bytes)
          sizes := filled.sizes.set i (u16 width)
        }, ?_, ?_, ?_, fun j bound gap => ?_, fun j outside => ?_⟩
      · simp only [fetch_of_getElem? (same.trans stored), ok_bind, Option.isSome_none,
          Bool.false_eq_true, if_false, fetch_of_getElem? recoveredHere, store_of_lt inFilled,
          store_of_lt inFilledSizes, pure_eq_ok]
      · rw [List.length_set, before.fragments]
      · rw [List.length_set, before.sizes]
      · by_cases target : i = j
        · subst target
          exact ⟨by rw [List.getElem?_set_self inFilled, recoveredHere],
            List.getElem?_set_self inFilledSizes⟩
        · rw [List.getElem?_set_ne target, List.getElem?_set_ne target]
          exact before.gap j (by omega) gap
      · have target : i ≠ j := by
          rintro rfl
          rcases outside with beyond | noGap
          · omega
          · exact noGap stored
        rw [List.getElem?_set_ne target, List.getElem?_set_ne target]
        rcases outside with beyond | noGap
        · exact before.kept j (Or.inl (by omega))
        · exact before.kept j (Or.inr noGap)

/-- Filling from a full recovery does not fault and fills exactly the gaps. -/
theorem fillRecovered_filled {n width : Nat} {recovered : List (Option Bytes)}
    (inFragments : n ≤ message.fragments.length) (inSizes : n ≤ message.sizes.length)
    (full : ∀ i < n, ∃ bytes, recovered[i]? = some (some bytes))
    : ∃ filled, fillRecovered message n width recovered = .ok filled
        ∧ Filled message filled recovered width n :=
  forRange_ok _ _ _ (fun i filled => Filled message filled recovered width i)
    ⟨rfl, rfl, fun _ bound => absurd bound (Nat.not_lt_zero _), fun _ _ => ⟨rfl, rfl⟩⟩
    fun i inRange _ before => before.pass (by omega) (by omega) (full i inRange)

/-- Once its gaps are filled, a group has all its data fragments. -/
theorem Filled.present {filled : IncomingMessage} {recovered : List (Option Bytes)}
    {width n : Nat} (full_ : Filled message filled recovered width n)
    (inFragments : n ≤ message.fragments.length) (inSizes : n ≤ message.sizes.length)
    (full : ∀ i < n, ∃ bytes, recovered[i]? = some (some bytes))
    : Present filled n := by
  refine ⟨fun i inRange => ?_, by rw [full_.sizes]; exact inSizes⟩
  have inside : i < message.fragments.length := by omega
  by_cases gap : message.fragments[i]? = some none
  · obtain ⟨bytes, recoveredHere⟩ := full i inRange
    exact ⟨bytes, by rw [(full_.gap i inRange gap).1, recoveredHere]⟩
  · rw [(full_.kept i (Or.inr gap)).1]
    rw [List.getElem?_eq_getElem inside] at gap ⊢
    cases here : message.fragments[i] with
    | none => exact absurd (congrArg some here) gap
    | some bytes => exact ⟨bytes, rfl⟩

/-- Reading all data fragments of a group yields its first entries. -/
theorem mapM_fetch {n : Nat} (inFragments : n ≤ message.fragments.length)
    : (List.range n).mapM (fetch message.fragments) = .ok (message.fragments.take n) := by
  rw [mapM_ok fun i => message.fragments.getD i none]
  · congr 1
    apply List.ext_getElem
    · rw [List.length_map, List.length_range, List.length_take]
      omega
    · intro i inLeft inRight
      rw [List.length_map, List.length_range] at inLeft
      simp [List.getD_eq_getElem?_getD, show i < message.fragments.length by omega]
  · intro i inRange
    have inside : i < message.fragments.length := by
      have bound := List.mem_range.mp inRange
      omega
    rw [fetch_of_lt inside, List.getD_eq_getElem?_getD, List.getElem?_eq_getElem inside,
      Option.getD_some]

section Recover

variable {n parityCount gaps : Nat} (inFragments : n ≤ message.fragments.length)
  (maxMessageBytes : Nat)

include inFragments

theorem recover_few (few : (arrivedParities message n parityCount).length < gaps)
    : recover message n parityCount gaps maxMessageBytes = .ok none := by
  rw [recover]
  by_cases tooMany : gaps > parityCount
  · rw [if_pos tooMany]
    rfl
  by_cases empty : maxWidth message = 0
  · rw [if_neg tooMany, if_pos empty]
    rfl
  simp only [tooMany, if_false, empty, mapM_fetch inFragments, ok_bind, gt_iff_lt, few, if_true]
  rfl

theorem recover_undecodable
    (undecodable : ReedSolomon.decode (message.fragments.take n)
      (arrivedParities message n parityCount) (maxWidth message) = none)
    : recover message n parityCount gaps maxMessageBytes = .ok none := by
  by_cases few : (arrivedParities message n parityCount).length < gaps
  · exact recover_few inFragments _ few
  rw [recover]
  by_cases tooMany : gaps > parityCount
  · rw [if_pos tooMany]
    rfl
  by_cases empty : maxWidth message = 0
  · rw [if_neg tooMany, if_pos empty]
    rfl
  simp only [tooMany, if_false, empty, mapM_fetch inFragments, ok_bind, gt_iff_lt, few,
    undecodable]
  rfl

/-- A successful decoding delivers the stream of the group with its gaps filled. -/
theorem recover_decoded (inSizes : n ≤ message.sizes.length)
    {recovered : List (Option Bytes)} (fewGaps : gaps ≤ parityCount)
    (enough : gaps ≤ (arrivedParities message n parityCount).length)
    (nonempty : maxWidth message ≠ 0)
    (decoded : ReedSolomon.decode (message.fragments.take n)
      (arrivedParities message n parityCount) (maxWidth message) = some recovered)
    : ∃ filled, Filled message filled recovered (maxWidth message) n
        ∧ recover message n parityCount gaps maxMessageBytes
          = .ok (some (unframe maxMessageBytes (stream filled n))) := by
  have full : ∀ i < n, ∃ bytes, recovered[i]? = some (some bytes) := fun i inRange =>
    ReedSolomon.decode_isSome decoded (by rw [List.length_take]; omega)
  obtain ⟨filled, ran, isFilled⟩ := fillRecovered_filled inFragments inSizes full
  refine ⟨filled, isFilled, ?_⟩
  rw [recover]
  simp only [Nat.not_lt.mpr fewGaps, gt_iff_lt, if_false, nonempty, mapM_fetch inFragments,
    ok_bind, Nat.not_lt.mpr enough, decoded, ran,
    (isFilled.present inFragments inSizes full).buildMsg]
  rfl

theorem recover_ok (inSizes : n ≤ message.sizes.length)
    : ∃ result, recover message n parityCount gaps maxMessageBytes = .ok result := by
  by_cases few : (arrivedParities message n parityCount).length < gaps
  · exact ⟨none, recover_few inFragments _ few⟩
  cases decoded : ReedSolomon.decode (message.fragments.take n)
      (arrivedParities message n parityCount) (maxWidth message) with
  | none => exact ⟨none, recover_undecodable inFragments _ decoded⟩
  | some recovered =>
      by_cases tooMany : gaps > parityCount
      · exact ⟨none, by rw [recover, if_pos tooMany]; rfl⟩
      by_cases empty : maxWidth message = 0
      · exact ⟨none, by rw [recover, if_neg tooMany, if_pos empty]; rfl⟩
      · obtain ⟨filled, -, delivered⟩ := recover_decoded inFragments maxMessageBytes inSizes
          (Nat.le_of_not_lt tooMany) (Nat.le_of_not_lt few) empty decoded
        exact ⟨_, delivered⟩

end Recover

theorem WellFormed.tryAssemble (wellFormed : WellFormed message) (maxMessageBytes : Nat)
    : ∃ result, Reassembler.tryAssemble message maxMessageBytes = .ok result := by
  by_cases few : message.totalCount < 2
  · exact ⟨none, by rw [Reassembler.tryAssemble, if_pos few]; rfl⟩
  have several : 2 ≤ message.totalCount := Nat.le_of_not_lt few
  have counts := wellFormed.effectiveDataCount_le several
  have inFragments := wellFormed.effectiveDataCount_le_length several
  have inSizes : effectiveDataCount message ≤ message.sizes.length := by
    rw [wellFormed.sizes]
    exact inFragments
  rw [Reassembler.tryAssemble, if_neg few]
  simp only [difference_of_le counts, ok_bind, countPresent_eq inFragments]
  by_cases full : presentCount message (effectiveDataCount message) = effectiveDataCount message
  · have present := present_of_presentCount full inSizes
    exact ⟨_, by rw [if_pos full, present.buildMsg]; rfl⟩
  · rw [if_neg full]
    exact recover_ok inFragments maxMessageBytes inSizes

/-- Assembly of a group that announces more data than fragments faults. -/
theorem tryAssemble_underflow (several : 2 ≤ message.totalCount)
    (excess : message.totalCount < message.dataCount) (maxMessageBytes : Nat)
    : tryAssemble message maxMessageBytes = .error .underflow := by
  have counts : ¬effectiveDataCount message ≤ message.totalCount := by
    unfold effectiveDataCount
    split <;> omega
  rw [tryAssemble, if_neg (by omega)]
  simp only [difference, counts, if_false]
  rfl

-- Packets and runs

/-- A packet handed to the reassembler, with what the call finds around it. -/
structure Arrival where
  header : PacketHeader
  payload : Bytes
  context : Context

/-- A message handed to the message callback, under the id it was sent with. -/
abbrev Delivery := Nat × Bytes

/-- The delivery of one call, if any. -/
def tagged (arrival : Arrival) (delivered : Option Bytes) : List Delivery :=
  delivered.toList.map (arrival.header.messageId.toNat, ·)

/-- One call; the deliveries accumulate. -/
def runStep (numerics : Numerics) (state : Peer × List Delivery) (arrival : Arrival)
    : Except Fault (Peer × List Delivery) := do
  let (peer, delivered) ←
    handleData numerics state.1 arrival.header arrival.payload arrival.context
  return (peer, state.2 ++ tagged arrival delivered)

/-- Consecutive calls. -/
def run (numerics : Numerics) (start : Peer) (arrivals : List Arrival)
    : Except Fault (Peer × List Delivery) :=
  arrivals.foldlM (runStep numerics) (start, [])

theorem runStep_of_handleData {numerics : Numerics} {peer next : Peer} {arrival : Arrival}
    {delivered : Option Bytes}
    (handled : handleData numerics peer arrival.header arrival.payload arrival.context
      = .ok (next, delivered))
    (before : List Delivery)
    : runStep numerics (peer, before) arrival
      = .ok (next, before ++ tagged arrival delivered) := by
  rw [runStep, handled]
  rfl

/-- The packet finds no group under its message id, or one that belongs to no message. -/
def Opens (collection : Collection) (header : PacketHeader) : Prop :=
  (collection.incoming.getD header.messageId.toNat {}).messageId = 0

/-- A packet that opens a group announces no more data fragments than fragments. -/
def OpensWithin (peer : Peer) (arrival : Arrival) : Prop :=
  admits peer.collection arrival.header arrival.context.maxMessageBytes
  → Opens peer.collection arrival.header
  → 2 ≤ arrival.header.fragmentCount.toNat
  → arrival.header.flags.toNat ≤ arrival.header.fragmentCount.toNat

/-- Every packet opens within its counts in the state it finds. -/
def AllOpenWithin (numerics : Numerics) : Peer → List Arrival → Prop
  | _, [] => True
  | peer, arrival :: rest =>
      OpensWithin peer arrival
      ∧ ∀ next delivered,
          handleData numerics peer arrival.header arrival.payload arrival.context
            = .ok (next, delivered)
          → AllOpenWithin numerics next rest

/-- Every group that belongs to a message is well formed. -/
def Sound (collection : Collection) : Prop :=
  ∀ (id : Nat) (message : IncomingMessage), collection.incoming[id]? = some message → message.messageId ≠ 0
  → WellFormed message

theorem WellFormed.storeFragment (wellFormed : WellFormed message) (header : PacketHeader)
    (payload : Bytes)
    : WellFormed (Reassembler.storeFragment message header payload) := by
  simp only [Reassembler.storeFragment]
  split
  · exact wellFormed
  · refine ⟨?_, ?_, wellFormed.data⟩
    · rw [List.length_set, List.length_set, wellFormed.sizes]
    · rw [List.length_set, wellFormed.fragments]

@[simp] theorem storeFragment_totalCount (message : IncomingMessage) (header : PacketHeader)
    (payload : Bytes)
    : (storeFragment message header payload).totalCount = message.totalCount := by
  simp only [storeFragment]
  split <;> rfl

@[simp] theorem storeFragment_dataCount (message : IncomingMessage) (header : PacketHeader)
    (payload : Bytes)
    : (storeFragment message header payload).dataCount = message.dataCount := by
  simp only [storeFragment]
  split <;> rfl

/-- The group a packet opens is well formed when its counts agree. -/
theorem openGroup_wellFormed {collection : Collection} {header : PacketHeader}
    (sound : Sound collection) (now : TimePoint)
    (within : Opens collection header → 2 ≤ header.fragmentCount.toNat
      → header.flags.toNat ≤ header.fragmentCount.toNat)
    : WellFormed (openGroup collection header now) := by
  simp only [openGroup]
  split
  · rename_i opens
    exact ⟨by simp, by simp, within opens⟩
  · rename_i belongs
    rw [Std.TreeMap.getD_eq_getD_getElem?] at belongs ⊢
    cases found : collection.incoming[header.messageId.toNat]? with
    | none =>
        rw [found] at belongs
        exact absurd rfl belongs
    | some message =>
        rw [found] at belongs
        exact sound _ _ found belongs

theorem Sound.insert {collection : Collection} (sound : Sound collection) {id : Nat}
    (wellFormed : WellFormed message)
    : Sound { collection with incoming := collection.incoming.insert id message } := by
  intro other found stored belongs
  rw [Std.TreeMap.getElem?_insert] at stored
  split at stored
  · obtain rfl := Option.some.inj stored
    exact wellFormed
  · exact sound other found stored belongs

/-- Collecting a packet that opens within its counts does not fault and keeps the collection
sound.
-/
theorem Sound.collect {collection : Collection} (sound : Sound collection)
    {header : PacketHeader} (payload : Bytes) (context : Context)
    (within : Opens collection header → 2 ≤ header.fragmentCount.toNat
      → header.flags.toNat ≤ header.fragmentCount.toNat)
    : ∃ result, Reassembler.collect collection header payload context = .ok result
        ∧ Sound result.1 := by
  have opened := openGroup_wellFormed sound context.now within
  rw [Reassembler.collect]
  simp only
  by_cases counts : (openGroup collection header context.now).totalCount
      = header.fragmentCount.toNat
  · by_cases outside : header.fragmentIndex.toNat
        ≥ (openGroup collection header context.now).fragments.length
    · exact ⟨_, by simp only [counts, ne_eq, not_true_eq_false, if_false, outside, if_true]; rfl,
        sound.insert opened⟩
    · have stored := opened.storeFragment header payload
      obtain ⟨result, assembled⟩ := stored.tryAssemble context.maxMessageBytes
      simp only [counts, ne_eq, not_true_eq_false, if_false, outside, assembled, ok_bind]
      cases result with
      | none => exact ⟨_, rfl, sound.insert stored⟩
      | some delivered =>
          refine ⟨_, rfl, fun other found kept belongs => ?_⟩
          rw [Std.TreeMap.getElem?_erase] at kept
          split at kept
          · cases kept
          · exact sound other found kept belongs
  · exact ⟨_, by simp only [counts, ne_eq, not_false_eq_true, if_true]; rfl, sound.insert opened⟩

/-- Collecting a packet that opens a group beyond its counts faults. -/
theorem collect_underflow {collection : Collection} {header : PacketHeader} {payload : Bytes}
    {context : Context} (opens : Opens collection header)
    (inside : header.fragmentIndex.toNat < header.fragmentCount.toNat)
    (several : 2 ≤ header.fragmentCount.toNat)
    (excess : header.fragmentCount.toNat < header.flags.toNat)
    : collect collection header payload context = .error .underflow := by
  have group : openGroup collection header context.now
      = {
          messageId := header.messageId.toNat
          totalCount := header.fragmentCount.toNat
          dataCount := header.flags.toNat
          fragments := List.replicate header.fragmentCount.toNat none
          sizes := List.replicate header.fragmentCount.toNat 0
          firstSeen := context.now
        } :=
    if_pos opens
  have assembled := tryAssemble_underflow
    (show 2 ≤ (storeFragment (openGroup collection header context.now) header payload).totalCount by
      rw [storeFragment_totalCount, group]
      exact several)
    (by rw [storeFragment_totalCount, storeFragment_dataCount, group]; exact excess)
    context.maxMessageBytes
  have room : ¬header.fragmentIndex.toNat
      ≥ (openGroup collection header context.now).fragments.length := by
    rw [group, List.length_replicate]
    omega
  have counts : (openGroup collection header context.now).totalCount
      = header.fragmentCount.toNat := by
    rw [group]
  simp only [collect, counts, ne_eq, not_true_eq_false, if_false, room, assembled, error_bind]

/-- One call: safe and sound exactly when the packet opens within its counts. -/
theorem handleData_safe_iff (numerics : Numerics) {peer : Peer} (sound : Sound peer.collection)
    (arrival : Arrival)
    : (OpensWithin peer arrival
        → ∃ next delivered,
            handleData numerics peer arrival.header arrival.payload arrival.context
              = .ok (next, delivered)
            ∧ Sound next.collection)
      ∧ (¬OpensWithin peer arrival
        → handleData numerics peer arrival.header arrival.payload arrival.context
          = .error .underflow) := by
  rw [handleData]
  simp only
  by_cases admitted : admits peer.collection arrival.header arrival.context.maxMessageBytes
  · simp only [admitted, not_true_eq_false, if_false]
    constructor
    · intro within
      obtain ⟨result, collected, after⟩ := sound.collect arrival.payload arrival.context
        (within admitted)
      exact ⟨_, _, by rw [collected]; rfl, after⟩
    · intro beyond
      obtain ⟨-, opens, several, excess⟩ : _ ∧ Opens _ _ ∧ _ ∧ ¬_ := by
        simpa only [OpensWithin, Classical.not_imp] using beyond
      have inside : arrival.header.fragmentIndex.toNat < arrival.header.fragmentCount.toNat := by
        simp only [admits, Bool.and_eq_true, decide_eq_true_eq] at admitted
        exact admitted.1.2
      rw [collect_underflow opens inside several (Nat.lt_of_not_le excess)]
      rfl
  · rw [if_pos admitted]
    exact ⟨fun _ => ⟨_, _, rfl, sound⟩, fun beyond => absurd (absurd · admitted) beyond⟩

/-- A run from a sound peer is safe exactly when every packet opens within its counts. -/
private theorem foldlM_safe_iff {numerics : Numerics} {peer : Peer}
    (sound : Sound peer.collection) (arrivals : List Arrival) (before : List Delivery)
    : (∃ result, arrivals.foldlM (runStep numerics) (peer, before) = .ok result)
      ↔ AllOpenWithin numerics peer arrivals := by
  induction arrivals generalizing peer before with
  | nil => exact ⟨fun _ => trivial, fun _ => ⟨_, rfl⟩⟩
  | cons arrival rest ih =>
      obtain ⟨safe, faulty⟩ := handleData_safe_iff numerics sound arrival
      rw [List.foldlM_cons, AllOpenWithin]
      by_cases within : OpensWithin peer arrival
      · obtain ⟨next, delivered, handled, after⟩ := safe within
        rw [runStep_of_handleData handled, ok_bind, ih after]
        constructor
        · refine fun all => ⟨within, fun other result same => ?_⟩
          obtain ⟨rfl, rfl⟩ := Prod.mk.inj (Except.ok.inj (handled.symm.trans same))
          exact all
        · exact fun all => all.2 next delivered handled
      · have step : runStep numerics (peer, before) arrival = .error .underflow := by
          rw [runStep, faulty within]
          rfl
        rw [step, error_bind]
        constructor
        · rintro ⟨_, same⟩
          cases same
        · exact fun all => absurd all.1 within

/-- From a fresh peer, the reassembler stays within its buffers on exactly those packet
sequences in which every packet that opens a group of two or more fragments announces no more
data fragments than fragments.
-/
theorem run_safe_iff (numerics : Numerics) (arrivals : List Arrival)
    : (∃ result, run numerics {} arrivals = .ok result)
      ↔ AllOpenWithin numerics {} arrivals :=
  foldlM_safe_iff (fun id message stored => by simp at stored) arrivals []

/-- One packet that announces three data fragments in a group of two. -/
def excessArrival : Arrival where
  header := { type := PacketType.data.code, flags := 3, messageId := 1, fragmentCount := 2 }
  payload := []
  context := { now := 0, arrivalMs := 0, rttUs := 0, maxMessageBytes := 65536 }

/-- Such a packet makes a fresh reassembler fault. -/
theorem run_excessArrival
    : run default {} [excessArrival] = .error .underflow
      ∧ ¬∀ (numerics : Numerics) (arrivals : List Arrival),
          ∃ result, run numerics {} arrivals = .ok result := by
  have faults : run default {} [excessArrival] = .error .underflow := by rfl
  refine ⟨faults, fun safe => ?_⟩
  obtain ⟨result, ran⟩ := safe default [excessArrival]
  rw [faults] at ran
  cases ran

end Creek.Tight.Reassembler
