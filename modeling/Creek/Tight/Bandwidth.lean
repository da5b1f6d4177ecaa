import Creek.Library.BinaryRounding
import Creek.Tight.Types

/-! The bandwidth and RTT estimator: the samples it filters and the gain it derives from them. -/

namespace Creek.Tight

open Library

/-- A result in double precision. Rates, times and sizes stay far from the ends of the exponent
range, so only the significand is cut.
-/
def double (value : ℚ) : ℚ := nearest 53 value

/-- A signed 64-bit result; `none` where the arithmetic of the source is undefined. -/
def int64 (value : Int) : Option Int :=
  if -2 ^ 63 ≤ value ∧ value < 2 ^ 63 then some value else none

/-- The pacing gain: drain, cruise or probe. -/
inductive Gain where
  | down
  | cruise
  | up
  deriving DecidableEq, Repr

def Gain.factor : Gain → ℚ
  | .down => 3 / 4
  | .cruise => 1
  | .up => 5 / 4

/-- The lesser of two gains. -/
def Gain.min (left right : Gain) : Gain := if right.factor < left.factor then right else left

/-- A late ratio as a `double`: `none` is not a number, and answers every comparison with `false`. -/
abbrev LateRatio := Option ℚ

def LateRatio.atLeast (bound : ℚ) (ratio : LateRatio) : Bool := ratio.any fun value => bound ≤ value
def LateRatio.above (bound : ℚ) (ratio : LateRatio) : Bool := ratio.any fun value => bound < value

/-- The ratio within 0 and 1. -/
def LateRatio.clamp (ratio : LateRatio) : LateRatio :=
  ratio.map fun value => if value < 0 then 0 else if 1 < value then 1 else value

def kWindowSize : Nat := 10
def kQueueHigh : ℚ := double (3 / 2)
def kQueueLow : ℚ := double (6 / 5)
def kQueueTight : ℚ := double (11 / 10)
def kLateHigh : ℚ := double (1 / 10)
def kLateLow : ℚ := double (1 / 50)

/-- The members of a `BandwidthEstimator`; times are in microseconds. Its floor is never zero, as every
function that sets it checks.
-/
structure BandwidthEstimator where
  window : List Nat := List.replicate kWindowSize 0
  windowPos : Nat := 0
  windowCount : Nat := 0
  btlBw : Nat
  floor : Nat
  gain : Gain := .cruise
  lastLateRatio : LateRatio := some 0
  haveLate : Bool := false
  lateRising : Bool := false
  rtt : Int := 0
  rtProp : Int := 0
  prevRtt : Int := 0
  havePrevRtt : Bool := false
  floor_pos : 0 < floor
  deriving DecidableEq, Repr

namespace BandwidthEstimator

/-- The rate to begin with. -/
def initialRate (initialBytesPerSecond : Nat) : Nat :=
  if initialBytesPerSecond = 0 then 1 else initialBytesPerSecond

theorem initialRate_pos (initialBytesPerSecond : Nat) : 0 < initialRate initialBytesPerSecond := by
  unfold initialRate
  split <;> omega

def initial (initialBytesPerSecond : Nat) : BandwidthEstimator where
  btlBw := initialRate initialBytesPerSecond
  floor := initialRate initialBytesPerSecond
  floor_pos := initialRate_pos initialBytesPerSecond

/-- Whether the RTT has risen by more than a twentieth. -/
def rising (estimator : BandwidthEstimator) : Option Bool :=
  if estimator.havePrevRtt then do
    let now ← int64 (estimator.rtt * 100)
    let before ← int64 (estimator.prevRtt * 105)
    return decide (before < now)
  else
    some false

/-- The gain from the RTT trend: drain while a queue builds up, probe while there is none. -/
def primaryGain (estimator : BandwidthEstimator) : Option Gain :=
  if 0 < estimator.rtProp ∧ 0 < estimator.rtt then do
    let queueRatio := double (double estimator.rtt / double estimator.rtProp)
    let rising ← estimator.rising
    return if kQueueHigh ≤ queueRatio ∨ rising ∧ kQueueLow ≤ queueRatio then .down
      else if queueRatio ≤ kQueueTight ∧ ¬rising then .up
      else .cruise
  else
    some .cruise

/-- Late packets only lower the gain. -/
def secondaryGain (estimator : BandwidthEstimator) (primary : Gain) : Gain :=
  if estimator.haveLate then
    let ratio := estimator.lastLateRatio
    if ratio.atLeast kLateHigh || estimator.lateRising && ratio.atLeast kLateLow then
      primary.min .down
    else if ratio.above kLateLow then
      primary.min .cruise
    else
      primary
  else
    primary

def recomputeGain (estimator : BandwidthEstimator) : Option BandwidthEstimator := do
  let primary ← estimator.primaryGain
  return { estimator with gain := estimator.secondaryGain primary }

/-- The bytes per second of an acknowledged packet. -/
def deliveryRate (bytes : Nat) (rtt : Int) : Nat :=
  let sample := u64 (bytes * 1000000) / rtt.toNat
  if sample = 0 then 1 else sample

/-- Puts a rate into the window and takes the greatest of those in it. -/
def addSample (sample : Nat) (estimator : BandwidthEstimator) : BandwidthEstimator :=
  let window := estimator.window.set estimator.windowPos sample
  let windowCount :=
    if estimator.windowCount < window.length then estimator.windowCount + 1
    else estimator.windowCount
  let best := (window.take windowCount).foldl max 0
  {
    estimator with
    window := window
    windowPos := (estimator.windowPos + 1) % window.length
    windowCount := windowCount
    btlBw := if 0 < best then best else estimator.btlBw
  }

/-- The least RTT so far and the smoothed one. -/
def addRtt (rtt : Int) (estimator : BandwidthEstimator) : Option BandwidthEstimator := do
  let rtProp := if estimator.rtProp = 0 ∨ rtt < estimator.rtProp then rtt else estimator.rtProp
  if estimator.rtt = 0 then
    return { estimator with rtProp := rtProp, rtt := rtt }
  else
    let weighted ← int64 (estimator.rtt * 7)
    let sum ← int64 (weighted + rtt)
    return {
      estimator with
      rtProp := rtProp
      rtt := sum.tdiv 8
      prevRtt := estimator.rtt
      havePrevRtt := true
    }

def onAck (bytes : Nat) (rtt : Int) (estimator : BandwidthEstimator) : Option BandwidthEstimator :=
  if rtt ≤ 0 then some estimator
  else do
    let estimator ← estimator.addRtt rtt
    let estimator ← estimator.recomputeGain
    if bytes = 0 then return estimator
    else return estimator.addSample (deliveryRate bytes rtt)

def onLateRatio (lateRatio : LateRatio) (estimator : BandwidthEstimator)
    : Option BandwidthEstimator :=
  let ratio := lateRatio.clamp
  let rising :=
    match estimator.lastLateRatio with
    | some last => ratio.above (double (last + double (1 / 1000)))
    | none => false
  recomputeGain
    {
      estimator with
      lateRising := estimator.haveLate && rising
      lastLateRatio := ratio
      haveLate := true
    }

/-- Adopts a measured bandwidth, unless it is zero. -/
def seedBandwidth (bytesPerSecond : Nat) (estimator : BandwidthEstimator) : BandwidthEstimator :=
  if seeded : 0 < bytesPerSecond then
    { estimator with btlBw := bytesPerSecond, floor := bytesPerSecond, floor_pos := seeded }
  else
    estimator

def bytesPerSecond (estimator : BandwidthEstimator) : Nat :=
  max estimator.floor ⌊double (double estimator.btlBw * estimator.gain.factor)⌋₊

theorem bytesPerSecond_pos (estimator : BandwidthEstimator) : 0 < estimator.bytesPerSecond :=
  lt_of_lt_of_le estimator.floor_pos (Nat.le_max_left _ _)

end BandwidthEstimator

/-- A call on the estimator. -/
inductive BandwidthCall where
  | onAck (bytes : Nat) (rtt : Int)
  | onLateRatio (lateRatio : LateRatio)
  | seedBandwidth (bytesPerSecond : Nat)
  deriving DecidableEq, Repr

namespace BandwidthEstimator

def step (estimator : BandwidthEstimator) : BandwidthCall → Option BandwidthEstimator
  | .onAck bytes rtt => estimator.onAck bytes rtt
  | .onLateRatio lateRatio => estimator.onLateRatio lateRatio
  | .seedBandwidth bytesPerSecond => some (estimator.seedBandwidth bytesPerSecond)

/-- The calls one after the other. -/
def run (calls : List BandwidthCall) (estimator : BandwidthEstimator) : Option BandwidthEstimator :=
  calls.foldlM step estimator

end BandwidthEstimator

end Creek.Tight
