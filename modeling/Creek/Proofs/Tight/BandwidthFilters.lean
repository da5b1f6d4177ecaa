import Creek.Library.RingWindows
import Creek.Tight.Bandwidth

/-! The three filters of the bandwidth estimator over any calls: the least RTT, the smoothed RTT and the
greatest of the last delivery rates.
-/

namespace Creek.Tight

open Library

-- Samples

namespace BandwidthCall

/-- The RTT sample of a call. -/
def rtt? : BandwidthCall → Option Int
  | onAck _ rtt => if 0 < rtt then some rtt else none
  | _ => none

/-- The delivery rate of a call; a pure RTT sample has none. -/
def rate? : BandwidthCall → Option Nat
  | onAck bytes rtt =>
      if 0 < rtt ∧ bytes ≠ 0 then some (BandwidthEstimator.deliveryRate bytes rtt) else none
  | _ => none

end BandwidthCall

/-- What bears on the rate: a sample of it, or a seed other than zero. -/
inductive RateMark where
  | sample
  | seed (bytesPerSecond : Nat)
  deriving DecidableEq, Repr

def BandwidthCall.mark? : BandwidthCall → Option RateMark
  | onAck bytes rtt => (rate? (onAck bytes rtt)).map fun _ => .sample
  | onLateRatio _ => none
  | seedBandwidth bytesPerSecond =>
      if bytesPerSecond ≠ 0 then some (.seed bytesPerSecond) else none

def rtts (calls : List BandwidthCall) : List Int := calls.filterMap BandwidthCall.rtt?
def rates (calls : List BandwidthCall) : List Nat := calls.filterMap BandwidthCall.rate?

/-- The last of the marks: a sample, where one came after the last seed. -/
def lastMark (calls : List BandwidthCall) : Option RateMark :=
  (calls.filterMap BandwidthCall.mark?).getLast?

/-- The filters after these calls. -/
structure Filters (initialBytesPerSecond : Nat) (calls : List BandwidthCall)
    (estimator : BandwidthEstimator)
    : Prop where
  rtProp : rtts calls = [] ∧ estimator.rtProp = 0
    ∨ IsLeast { sample | sample ∈ rtts calls } estimator.rtProp
  rtt : ∀ low high, IsLeast { sample | sample ∈ rtts calls } low
    → IsGreatest { sample | sample ∈ rtts calls } high
    → low ≤ estimator.rtt ∧ estimator.rtt ≤ high
  sampled : lastMark calls = some .sample
    → IsGreatest { rate | rate ∈ recent kWindowSize (rates calls) } estimator.btlBw
  seeded : ∀ bytesPerSecond, lastMark calls = some (.seed bytesPerSecond)
    → estimator.btlBw = bytesPerSecond
  untouched : lastMark calls = none
    → estimator.btlBw = BandwidthEstimator.initialRate initialBytesPerSecond
  positive : estimator.btlBw ≠ 0

section

variable {calls : List BandwidthCall} {call : BandwidthCall}

theorem rtts_concat (calls : List BandwidthCall) (call : BandwidthCall)
    : rtts (calls ++ [call]) = rtts calls ++ call.rtt?.toList := by
  rw [rtts, List.filterMap_append]
  cases sample : call.rtt? <;> simp [rtts, sample]

theorem rates_concat (calls : List BandwidthCall) (call : BandwidthCall)
    : rates (calls ++ [call]) = rates calls ++ call.rate?.toList := by
  rw [rates, List.filterMap_append]
  cases sample : call.rate? <;> simp [rates, sample]

theorem lastMark_concat (calls : List BandwidthCall) (call : BandwidthCall)
    : lastMark (calls ++ [call]) = call.mark?.or (lastMark calls) := by
  rw [lastMark, List.filterMap_append]
  cases mark : call.mark? <;> simp [lastMark, mark]

theorem rtts_pos {sample : Int} (member : sample ∈ rtts calls) : 0 < sample := by
  obtain ⟨call, -, same⟩ := List.mem_filterMap.mp member
  cases call with
  | onAck bytes rtt =>
      simp only [BandwidthCall.rtt?] at same
      split at same
      · obtain rfl := Option.some.inj same
        assumption
      · cases same
  | onLateRatio lateRatio => cases same
  | seedBandwidth bytesPerSecond => cases same

end

namespace BandwidthEstimator

variable {estimator after : BandwidthEstimator} {calls : List BandwidthCall} {rtt : Int}
  {initialBytesPerSecond : Nat}

theorem deliveryRate_pos (bytes : Nat) (rtt : Int) : 0 < deliveryRate bytes rtt := by
  unfold deliveryRate
  dsimp only
  split
  · exact Nat.one_pos
  · rename_i some_
    exact Nat.pos_of_ne_zero some_

-- What a call changes

theorem recomputeGain_eq (recomputed : estimator.recomputeGain = some after)
    : ∃ gain, after = { estimator with gain := gain } := by
  obtain ⟨primary, -, same⟩ := Option.bind_eq_some_iff.mp recomputed
  exact ⟨_, (Option.some.inj same).symm⟩

theorem onLateRatio_eq {lateRatio : LateRatio} (done : estimator.onLateRatio lateRatio = some after)
    : ∃ rising ratio gain, after = {
        estimator with
        lateRising := rising
        lastLateRatio := ratio
        haveLate := true
        gain := gain
      } := by
  obtain ⟨gain, same⟩ := recomputeGain_eq done
  exact ⟨_, _, gain, same⟩

theorem int64_eq {value result : Int} (defined : int64 value = some result) : result = value := by
  unfold int64 at defined
  split at defined
  · exact (Option.some.inj defined).symm
  · cases defined

theorem addRtt_eq (added : estimator.addRtt rtt = some after)
    : ∃ prevRtt havePrevRtt, after = {
        estimator with
        rtProp := if estimator.rtProp = 0 ∨ rtt < estimator.rtProp then rtt else estimator.rtProp
        rtt := if estimator.rtt = 0 then rtt else (estimator.rtt * 7 + rtt).tdiv 8
        prevRtt := prevRtt
        havePrevRtt := havePrevRtt
      } := by
  unfold addRtt at added
  dsimp only at added
  split at added
  · rename_i first
    rw [if_pos first]
    exact ⟨_, _, (Option.some.inj added).symm⟩
  · rename_i later
    obtain ⟨weighted, first, added⟩ := Option.bind_eq_some_iff.mp added
    obtain ⟨sum, second, same⟩ := Option.bind_eq_some_iff.mp added
    rw [if_neg later, ← int64_eq first, ← int64_eq second]
    exact ⟨_, _, (Option.some.inj same).symm⟩

-- The RTT filters

/-- The least and the smoothed RTT of some samples; both are zero without a sample. -/
structure FiltersRtts (samples : List Int) (rtProp rtt : Int) : Prop where
  rtProp : samples = [] ∧ rtProp = 0 ∨ IsLeast { sample | sample ∈ samples } rtProp
  rtt : samples = [] ∧ rtt = 0 ∨ ∃ low ∈ samples, ∃ high ∈ samples, low ≤ rtt ∧ rtt ≤ high

theorem isLeast_concat {samples : List Int} {rtProp : Int} (positive : ∀ sample ∈ samples, 0 < sample)
    (least : samples = [] ∧ rtProp = 0 ∨ IsLeast { sample | sample ∈ samples } rtProp)
    : IsLeast { sample | sample ∈ samples ++ [rtt] }
        (if rtProp = 0 ∨ rtt < rtProp then rtt else rtProp) := by
  have last : rtt ∈ samples ++ [rtt] := List.mem_append_right _ (List.mem_singleton_self _)
  rcases least with ⟨rfl, rfl⟩ | ⟨member, lower⟩
  · rw [if_pos (.inl rfl)]
    exact ⟨last, fun sample among => (List.mem_singleton.mp among).ge⟩
  · have nonzero : rtProp ≠ 0 := (positive rtProp member).ne'
    split
    · rename_i less
      refine ⟨last, fun sample among => ?_⟩
      rcases List.mem_append.mp among with earlier | final
      · exact (less.resolve_left nonzero).le.trans (lower earlier)
      · exact (List.mem_singleton.mp final).ge
    · rename_i same
      refine ⟨List.mem_append_left _ member, fun sample among => ?_⟩
      rcases List.mem_append.mp among with earlier | final
      · exact lower earlier
      · rw [List.mem_singleton.mp final]
        exact not_lt.mp (not_or.mp same).2

/-- A weighted mean lies between the values it is taken of, also when it is truncated. -/
theorem mean_between {low high sample smoothed : Int} (positive : 0 < low) (sampled : 0 < sample)
    (above : low ≤ smoothed) (below : smoothed ≤ high)
    : min low sample ≤ (smoothed * 7 + sample).tdiv 8
      ∧ (smoothed * 7 + sample).tdiv 8 ≤ max high sample := by
  rw [Int.tdiv_eq_ediv_of_nonneg (by omega)]
  omega

theorem FiltersRtts.concat {samples : List Int} {rtProp smoothed : Int}
    (filters : FiltersRtts samples rtProp smoothed) (positive : ∀ sample ∈ samples, 0 < sample)
    (sampled : 0 < rtt)
    : FiltersRtts (samples ++ [rtt]) (if rtProp = 0 ∨ rtt < rtProp then rtt else rtProp)
        (if smoothed = 0 then rtt else (smoothed * 7 + rtt).tdiv 8) := by
  refine ⟨.inr (isLeast_concat positive filters.rtProp), .inr ?_⟩
  have last : rtt ∈ samples ++ [rtt] := List.mem_append_right _ (List.mem_singleton_self _)
  rcases filters.rtt with ⟨rfl, rfl⟩ | ⟨low, lowIn, high, highIn, above, below⟩
  · rw [if_pos rfl]
    exact ⟨rtt, last, rtt, last, le_refl rtt, le_refl rtt⟩
  · have lowPositive := positive low lowIn
    rw [if_neg (lowPositive.trans_le above).ne']
    obtain ⟨lower, upper⟩ := mean_between lowPositive sampled above below
    have among {value : Int} (member : value ∈ samples) : value ∈ samples ++ [rtt] :=
      List.mem_append_left _ member
    refine ⟨min low rtt, ?_, max high rtt, ?_, lower, upper⟩
    · rcases min_choice low rtt with same | same <;> rw [same]
      · exact among lowIn
      · exact last
    · rcases max_choice high rtt with same | same <;> rw [same]
      · exact among highIn
      · exact last

-- The rate filter

theorem isGreatest_foldl_max {values : List Nat} (some_ : values ≠ [])
    : IsGreatest { value | value ∈ values } (values.foldl max 0) := by
  have loop : ∀ (values : List Nat) (best : Nat),
      (values.foldl max best = best ∨ values.foldl max best ∈ values)
        ∧ best ≤ values.foldl max best
        ∧ ∀ value ∈ values, value ≤ values.foldl max best := by
    intro values
    induction values with
    | nil => exact fun best => ⟨.inl rfl, le_refl best, fun value among => by cases among⟩
    | cons first rest ih =>
        intro best
        obtain ⟨found, above, upper⟩ := ih (max best first)
        rw [List.foldl_cons]
        refine ⟨?_, (le_max_left _ _).trans above, ?_⟩
        · rcases found with same | later
          · rcases max_choice best first with kept | taken
            · exact .inl (same.trans kept)
            · exact .inr (by rw [same, taken]; exact List.mem_cons_self)
          · exact .inr (List.mem_cons_of_mem _ later)
        · intro value among
          rcases List.mem_cons.mp among with rfl | later
          · exact (le_max_right _ _).trans above
          · exact upper value later
  obtain ⟨found, -, upper⟩ := loop values 0
  refine ⟨found.elim (fun zero => ?_) id, upper⟩
  obtain ⟨value, member⟩ := List.exists_mem_of_ne_nil values some_
  have none_ : value = values.foldl max 0 := le_antisymm (upper value member) (zero.le.trans (Nat.zero_le _))
  rw [Set.mem_ofPred_eq, ← none_]
  exact member

/-- What the members of the estimator keep of the calls so far. -/
structure Tracks (initialBytesPerSecond : Nat) (calls : List BandwidthCall)
    (estimator : BandwidthEstimator)
    : Prop where
  rtts : FiltersRtts (rtts calls) estimator.rtProp estimator.rtt
  window : Recalls estimator.window estimator.windowPos estimator.windowCount (rates calls)
  size : estimator.window.length = kWindowSize
  sampled : lastMark calls = some .sample
    → IsGreatest { rate | rate ∈ recent kWindowSize (rates calls) } estimator.btlBw
  seeded : ∀ bytesPerSecond, lastMark calls = some (.seed bytesPerSecond)
    → estimator.btlBw = bytesPerSecond
  untouched : lastMark calls = none → estimator.btlBw = initialRate initialBytesPerSecond
  positive : estimator.btlBw ≠ 0

theorem tracks_initial (initialBytesPerSecond : Nat)
    : Tracks initialBytesPerSecond [] (initial initialBytesPerSecond) where
  rtts := ⟨.inl ⟨rfl, rfl⟩, .inl ⟨rfl, rfl⟩⟩
  window := recalls_nil _
  size := List.length_replicate
  sampled := fun marked => by cases marked
  seeded := fun _ marked => by cases marked
  untouched := fun _ => rfl
  positive := (initialRate_pos initialBytesPerSecond).ne'

/-- A call that bears on nothing keeps what the filters read. -/
theorem Tracks.idle (tracks : Tracks initialBytesPerSecond calls estimator) {call : BandwidthCall}
    (noRtt : call.rtt? = none) (noRate : call.rate? = none) (noMark : call.mark? = none)
    (rtProp : after.rtProp = estimator.rtProp) (rtt : after.rtt = estimator.rtt)
    (window : after.window = estimator.window) (windowPos : after.windowPos = estimator.windowPos)
    (windowCount : after.windowCount = estimator.windowCount)
    (btlBw : after.btlBw = estimator.btlBw)
    : Tracks initialBytesPerSecond (calls ++ [call]) after := by
  have sameRtts : Tight.rtts (calls ++ [call]) = Tight.rtts calls := by
    rw [rtts_concat, noRtt, Option.toList_none, List.append_nil]
  have sameRates : rates (calls ++ [call]) = rates calls := by
    rw [rates_concat, noRate, Option.toList_none, List.append_nil]
  have sameMark : lastMark (calls ++ [call]) = lastMark calls := by
    rw [lastMark_concat, noMark, Option.none_or]
  constructor
  · rw [sameRtts, rtProp, rtt]
    exact tracks.rtts
  · rw [sameRates, window, windowPos, windowCount]
    exact tracks.window
  · rw [window]
    exact tracks.size
  · rw [sameMark, sameRates, btlBw]
    exact tracks.sampled
  · rw [sameMark, btlBw]
    exact tracks.seeded
  · rw [sameMark, btlBw]
    exact tracks.untouched
  · rw [btlBw]
    exact tracks.positive

theorem Tracks.onLateRatio (tracks : Tracks initialBytesPerSecond calls estimator)
    {lateRatio : LateRatio} (done : estimator.onLateRatio lateRatio = some after)
    : Tracks initialBytesPerSecond (calls ++ [.onLateRatio lateRatio]) after := by
  obtain ⟨rising, ratio, gain, rfl⟩ := onLateRatio_eq done
  exact tracks.idle rfl rfl rfl rfl rfl rfl rfl rfl rfl

theorem Tracks.seedBandwidth (tracks : Tracks initialBytesPerSecond calls estimator)
    (bytesPerSecond : Nat)
    : Tracks initialBytesPerSecond (calls ++ [.seedBandwidth bytesPerSecond])
        (estimator.seedBandwidth bytesPerSecond) := by
  unfold BandwidthEstimator.seedBandwidth
  split
  · rename_i seeded
    have mark : BandwidthCall.mark? (.seedBandwidth bytesPerSecond) = some (.seed bytesPerSecond) :=
      if_pos seeded.ne'
    have marked : lastMark (calls ++ [.seedBandwidth bytesPerSecond])
        = some (.seed bytesPerSecond) := by
      rw [lastMark_concat, mark, Option.some_or]
    constructor
    · rw [rtts_concat]
      exact (List.append_nil (Tight.rtts calls)).symm ▸ tracks.rtts
    · rw [rates_concat]
      exact (List.append_nil (rates calls)).symm ▸ tracks.window
    · exact tracks.size
    · intro sample
      cases marked.symm.trans sample
    · intro other same
      exact RateMark.seed.inj (Option.some.inj (marked.symm.trans same))
    · intro none_
      cases marked.symm.trans none_
    · exact seeded.ne'
  · rename_i zero
    have mark : BandwidthCall.mark? (.seedBandwidth bytesPerSecond) = none :=
      if_neg (not_not.mpr (Nat.eq_zero_of_not_pos zero))
    exact tracks.idle rfl rfl mark rfl rfl rfl rfl rfl rfl

/-- A rate goes into the window, and the greatest of the last ones becomes the estimate. -/
theorem addSample_recalls {samples : List Nat} {sample : Nat}
    (recalls : Recalls estimator.window estimator.windowPos estimator.windowCount samples)
    (size : estimator.window.length = kWindowSize) (positive : 0 < sample)
    : Recalls (estimator.addSample sample).window (estimator.addSample sample).windowPos
        (estimator.addSample sample).windowCount (samples ++ [sample])
      ∧ (estimator.addSample sample).window.length = kWindowSize
      ∧ IsGreatest { rate | rate ∈ recent kWindowSize (samples ++ [sample]) }
          (estimator.addSample sample).btlBw
      ∧ (estimator.addSample sample).btlBw ≠ 0 := by
  have room : 0 < estimator.window.length := by
    rw [size]
    decide
  have sized : (estimator.window.set estimator.windowPos sample).length = kWindowSize := by
    rw [List.length_set, size]
  have pushed := recalls.push room sample
  rw [← @List.length_set _ estimator.window estimator.windowPos sample] at pushed
  have same : { rate | rate ∈ ((estimator.window.set estimator.windowPos sample).take
        (if estimator.windowCount < (estimator.window.set estimator.windowPos sample).length then
          estimator.windowCount + 1
        else estimator.windowCount)) }
      = { rate | rate ∈ recent kWindowSize (samples ++ [sample]) } := by
    rw [← sized]
    exact Set.ext fun rate => pushed.mem_take_iff
  have last : sample ∈ recent kWindowSize (samples ++ [sample]) := by
    have short : (samples ++ [sample]).length - kWindowSize ≤ samples.length := by
      rw [List.length_append, List.length_singleton, kWindowSize]
      omega
    rw [recent, List.drop_append_of_le_length short]
    exact List.mem_append_right _ (List.mem_singleton_self _)
  have greatest := isGreatest_foldl_max (List.ne_nil_of_mem (same.symm.subset last))
  have best := positive.trans_le (greatest.2 (same.symm.subset last))
  refine ⟨pushed, sized, ?_, ?_⟩
  · rw [addSample, ← same]
    dsimp only
    rw [if_pos best]
    exact greatest
  · rw [addSample]
    dsimp only
    rw [if_pos best]
    exact best.ne'

theorem Tracks.onAck (tracks : Tracks initialBytesPerSecond calls estimator) {bytes : Nat}
    (done : estimator.onAck bytes rtt = some after)
    : Tracks initialBytesPerSecond (calls ++ [.onAck bytes rtt]) after := by
  unfold BandwidthEstimator.onAck at done
  split at done
  · rename_i none_
    obtain rfl := Option.some.inj done
    have noRtt : BandwidthCall.rtt? (.onAck bytes rtt) = none := if_neg (not_lt.mpr none_)
    have noRate : BandwidthCall.rate? (.onAck bytes rtt) = none :=
      if_neg fun both => not_lt.mpr none_ both.1
    have noMark : BandwidthCall.mark? (.onAck bytes rtt) = none := by
      rw [BandwidthCall.mark?, noRate]
      rfl
    exact tracks.idle noRtt noRate noMark rfl rfl rfl rfl rfl rfl
  · rename_i sampled
    have sampled := not_le.mp sampled
    obtain ⟨added, first, done⟩ := Option.bind_eq_some_iff.mp done
    obtain ⟨regained, second, done⟩ := Option.bind_eq_some_iff.mp done
    obtain ⟨prevRtt, havePrevRtt, rfl⟩ := addRtt_eq first
    obtain ⟨gain, rfl⟩ := recomputeGain_eq second
    have someRtt : BandwidthCall.rtt? (.onAck bytes rtt) = some rtt := if_pos sampled
    have filtered := tracks.rtts.concat (fun sample => rtts_pos) sampled
    split at done
    · rename_i noBytes
      obtain rfl := Option.some.inj done
      have noRate : BandwidthCall.rate? (.onAck bytes rtt) = none :=
        if_neg fun both => both.2 noBytes
      have noMark : BandwidthCall.mark? (.onAck bytes rtt) = none := by
        rw [BandwidthCall.mark?, noRate]
        rfl
      have sameRates : rates (calls ++ [.onAck bytes rtt]) = rates calls := by
        rw [rates_concat, noRate, Option.toList_none, List.append_nil]
      have sameMark : lastMark (calls ++ [.onAck bytes rtt]) = lastMark calls := by
        rw [lastMark_concat, noMark, Option.none_or]
      constructor
      · rw [rtts_concat, someRtt]
        exact filtered
      · rw [sameRates]
        exact tracks.window
      · exact tracks.size
      · rw [sameMark, sameRates]
        exact tracks.sampled
      · rw [sameMark]
        exact tracks.seeded
      · rw [sameMark]
        exact tracks.untouched
      · exact tracks.positive
    · rename_i someBytes
      obtain rfl := Option.some.inj done
      have someRate : BandwidthCall.rate? (.onAck bytes rtt) = some (deliveryRate bytes rtt) :=
        if_pos ⟨sampled, someBytes⟩
      have mark : BandwidthCall.mark? (.onAck bytes rtt) = some .sample := by
        rw [BandwidthCall.mark?, someRate]
        rfl
      have marked : lastMark (calls ++ [.onAck bytes rtt]) = some .sample := by
        rw [lastMark_concat, mark, Option.some_or]
      obtain ⟨window, size, greatest, positive⟩ :=
        addSample_recalls tracks.window tracks.size (deliveryRate_pos bytes rtt)
      constructor
      · rw [rtts_concat, someRtt]
        exact filtered
      · rw [rates_concat, someRate]
        exact window
      · exact size
      · rw [rates_concat, someRate]
        exact fun _ => greatest
      · intro other seed
        cases marked.symm.trans seed
      · intro none_
        cases marked.symm.trans none_
      · exact positive

theorem Tracks.step (tracks : Tracks initialBytesPerSecond calls estimator) {call : BandwidthCall}
    (done : estimator.step call = some after)
    : Tracks initialBytesPerSecond (calls ++ [call]) after := by
  cases call with
  | onAck bytes rtt => exact tracks.onAck done
  | onLateRatio lateRatio => exact tracks.onLateRatio done
  | seedBandwidth bytesPerSecond =>
      obtain rfl := Option.some.inj done
      exact tracks.seedBandwidth bytesPerSecond

theorem run_concat (calls : List BandwidthCall) (call : BandwidthCall) (estimator : BandwidthEstimator)
    : estimator.run (calls ++ [call]) = (estimator.run calls).bind fun middle => middle.step call := by
  rw [run, List.foldlM_append]
  exact congrArg _ (funext fun middle => bind_pure _)

theorem tracks_of_run (ran : (initial initialBytesPerSecond).run calls = some after)
    : Tracks initialBytesPerSecond calls after := by
  induction calls using List.reverseRecOn generalizing after with
  | nil =>
      obtain rfl := Option.some.inj ran
      exact tracks_initial initialBytesPerSecond
  | append_singleton calls call ih =>
      rw [run_concat] at ran
      obtain ⟨middle, earlier, last⟩ := Option.bind_eq_some_iff.mp ran
      exact (ih earlier).step last

theorem Tracks.filters (tracks : Tracks initialBytesPerSecond calls estimator)
    : Filters initialBytesPerSecond calls estimator where
  rtProp := tracks.rtts.rtProp
  rtt := by
    intro least greatest lower upper
    rcases tracks.rtts.rtt with ⟨none_, -⟩ | ⟨low, lowIn, high, highIn, above, below⟩
    · have member := lower.1
      rw [none_] at member
      cases member
    · exact ⟨(lower.2 lowIn).trans above, below.trans (upper.2 highIn)⟩
  sampled := tracks.sampled
  seeded := tracks.seeded
  untouched := tracks.untouched
  positive := tracks.positive

-- Overflow

/-- The longest RTT two readings of a nanosecond clock can be apart. -/
def kLongestRtt : Int := (2 ^ 63 - 1) / 1000

/-- The times are short enough for their sums and multiples. -/
structure Short (estimator : BandwidthEstimator) : Prop where
  rtt : 0 ≤ estimator.rtt ∧ estimator.rtt ≤ kLongestRtt
  prevRtt : 0 ≤ estimator.prevRtt ∧ estimator.prevRtt ≤ kLongestRtt

theorem int64_short {value factor : Int} (short : 0 ≤ value ∧ value ≤ kLongestRtt)
    (small : 0 ≤ factor ∧ factor ≤ 105)
    : ∃ result, int64 (value * factor) = some result := by
  have lower : 0 ≤ value * factor := mul_nonneg short.1 small.1
  have upper : value * factor ≤ kLongestRtt * 105 :=
    mul_le_mul short.2 small.2 small.1 (by decide)
  refine ⟨_, if_pos ⟨by omega, lt_of_le_of_lt upper (by decide)⟩⟩

theorem Short.recomputeGain (short : estimator.Short)
    : ∃ after, estimator.recomputeGain = some after ∧ after.Short := by
  have rising : ∃ rises, estimator.rising = some rises := by
    unfold BandwidthEstimator.rising
    split
    · obtain ⟨now, first⟩ := int64_short short.rtt (by decide : (0 : Int) ≤ 100 ∧ (100 : Int) ≤ 105)
      obtain ⟨before, second⟩ :=
        int64_short short.prevRtt (by decide : (0 : Int) ≤ 105 ∧ (105 : Int) ≤ 105)
      rw [first, second]
      exact ⟨_, rfl⟩
    · exact ⟨_, rfl⟩
  have primary : ∃ gain, estimator.primaryGain = some gain := by
    obtain ⟨rises, same⟩ := rising
    unfold BandwidthEstimator.primaryGain
    rw [same]
    split <;> exact ⟨_, rfl⟩
  obtain ⟨gain, same⟩ := primary
  refine ⟨{ estimator with gain := estimator.secondaryGain gain }, ?_, short.rtt, short.prevRtt⟩
  rw [BandwidthEstimator.recomputeGain, same]
  rfl

theorem Short.addRtt (short : estimator.Short) (sample : 0 < rtt ∧ rtt ≤ kLongestRtt)
    : ∃ after, estimator.addRtt rtt = some after ∧ after.Short := by
  have longest : kLongestRtt = 9223372036854775 := by decide
  unfold BandwidthEstimator.addRtt
  dsimp only
  split
  · exact ⟨_, rfl, ⟨sample.1.le, sample.2⟩, short.prevRtt⟩
  · obtain ⟨lower, upper⟩ := short.rtt
    have weighted : int64 (estimator.rtt * 7) = some (estimator.rtt * 7) := if_pos (by omega)
    have sum : int64 (estimator.rtt * 7 + rtt) = some (estimator.rtt * 7 + rtt) := if_pos (by omega)
    rw [weighted, Option.bind_eq_bind, Option.bind_some, sum]
    have smoothed : 0 ≤ (estimator.rtt * 7 + rtt).tdiv 8
        ∧ (estimator.rtt * 7 + rtt).tdiv 8 ≤ kLongestRtt := by
      rw [Int.tdiv_eq_ediv_of_nonneg (by omega)]
      omega
    exact ⟨_, rfl, smoothed, short.rtt⟩

theorem Short.onAck (short : estimator.Short) (bytes : Nat) (sample : rtt ≤ kLongestRtt)
    : ∃ after, estimator.onAck bytes rtt = some after ∧ after.Short := by
  unfold BandwidthEstimator.onAck
  split
  · exact ⟨estimator, rfl, short⟩
  · rename_i positive
    obtain ⟨added, first, short⟩ := short.addRtt ⟨not_le.mp positive, sample⟩
    obtain ⟨regained, second, short⟩ := short.recomputeGain
    rw [first, Option.bind_eq_bind, Option.bind_some, second, Option.bind_some]
    split
    · exact ⟨regained, rfl, short⟩
    · exact ⟨_, rfl, short.rtt, short.prevRtt⟩

/-- Every call on an estimator with short times is defined, and leaves it so. -/
theorem Short.step (short : estimator.Short) {call : BandwidthCall}
    (samples : ∀ bytes rtt, call = .onAck bytes rtt → rtt ≤ kLongestRtt)
    : ∃ after, estimator.step call = some after ∧ after.Short := by
  cases call with
  | onAck bytes rtt => exact short.onAck bytes (samples bytes rtt rfl)
  | onLateRatio lateRatio => exact Short.recomputeGain ⟨short.rtt, short.prevRtt⟩
  | seedBandwidth bytesPerSecond =>
      refine ⟨_, rfl, ?_⟩
      unfold BandwidthEstimator.seedBandwidth
      split
      · exact ⟨short.rtt, short.prevRtt⟩
      · exact short

theorem exists_run (samples : ∀ bytes rtt, .onAck bytes rtt ∈ calls → rtt ≤ kLongestRtt)
    : ∃ after, (initial initialBytesPerSecond).run calls = some after ∧ after.Short := by
  induction calls using List.reverseRecOn with
  | nil =>
      have zero : (0 : Int) ≤ 0 ∧ (0 : Int) ≤ kLongestRtt := by decide
      exact ⟨_, rfl, zero, zero⟩
  | append_singleton calls call ih =>
      obtain ⟨middle, earlier, short⟩ := ih fun bytes rtt member =>
        samples bytes rtt (List.mem_append_left _ member)
      obtain ⟨after, last, done⟩ := short.step fun bytes rtt same =>
        samples bytes rtt (List.mem_append_right _ (same ▸ List.mem_singleton_self _))
      refine ⟨after, ?_, done⟩
      rw [run_concat, earlier]
      exact last

-- The filters

/-- After any calls whose arithmetic is defined the filters are those of their samples, and it is defined
for every RTT that two clock readings can be apart.
-/
theorem filters_of_calls (initialBytesPerSecond : Nat) (calls : List BandwidthCall)
    : (∀ after, (initial initialBytesPerSecond).run calls = some after
        → Filters initialBytesPerSecond calls after)
      ∧ ((∀ bytes rtt, .onAck bytes rtt ∈ calls → rtt ≤ kLongestRtt)
        → ∃ after, (initial initialBytesPerSecond).run calls = some after) := by
  refine ⟨fun after ran => (tracks_of_run ran).filters, fun samples => ?_⟩
  obtain ⟨after, ran, -⟩ := exists_run samples
  exact ⟨after, ran⟩

end BandwidthEstimator

end Creek.Tight
