import Creek.Tight.Link
import Mathlib

/-! The clock offset of a symmetric path. The delay of the packet makes the sample too small, and half
the RTT is taken off once more where it would have to be added.
-/

namespace Creek.Tight

/-- A packet on its way to this end. The clock of its sender is ahead of the local one by `offset`
milliseconds, its delay is `delay` milliseconds; both clocks are read when it is sent.
-/
structure Crossing (offset : Int) (delay : Nat) where
  sentLocal : Nat
  sentRemote : Nat
  ahead : (sentRemote : Int) = sentLocal + offset

namespace Crossing

variable {offset : Int} {delay : Nat}

/-- The tick in the packet. -/
def tick (crossing : Crossing offset delay) : UInt32 := UInt32.ofNat crossing.sentRemote

/-- The local clock when the packet arrives. -/
def arrivalMs (crossing : Crossing offset delay) : Nat := crossing.sentLocal + delay

/-- The signed difference of two ticks is that of the clocks, wrapped to 32 bits. -/
theorem signedDifference_ofNat (left right : Nat)
    : signedDifference (UInt32.ofNat left) (UInt32.ofNat right)
      = ((left : Int) - right).bmod (2 ^ 32) := by
  rw [signedDifference, UInt32.toBitVec_sub, UInt32.toBitVec_ofNat', UInt32.toBitVec_ofNat',
    BitVec.toInt_sub, BitVec.toInt_ofNat', BitVec.toInt_ofNat', Int.bmod_sub_bmod,
    Int.sub_bmod_bmod]

theorem tick_sub_arrival (crossing : Crossing offset delay)
    : signedDifference crossing.tick (UInt32.ofNat crossing.arrivalMs)
      = (offset - delay).bmod (2 ^ 32) := by
  have ahead := crossing.ahead
  rw [tick, arrivalMs, signedDifference_ofNat]
  congr 1
  omega

theorem arrival_sub_tick (crossing : Crossing offset delay)
    : signedDifference (UInt32.ofNat crossing.arrivalMs) crossing.tick
      = (delay - offset).bmod (2 ^ 32) := by
  have ahead := crossing.ahead
  rw [tick, arrivalMs, signedDifference_ofNat]
  congr 1
  omega

end Crossing

namespace Link

variable {link : Link} {offset : Int} {delay later : Nat}

theorem syncClock_first (crossing : Crossing offset delay) (ticked : crossing.tick ≠ 0)
    (apart : 0 < delay) (rtt : link.rttUs = 2 * delay * 1000)
    (fresh : link.peer.clock.synced = false)
    : (link.syncClock crossing.tick crossing.arrivalMs).peer.clock
      = {
          link.peer.clock with
          offsetUs := (offset - delay).bmod (2 ^ 32) * 1000 - delay * 1000
          synced := true
          pending := false
        } := by
  have sampled : link.rttUs ≠ 0 := by omega
  have half : ((link.rttUs : Int) / 2) = delay * 1000 := by omega
  rw [syncClock, if_neg ticked, if_neg sampled]
  simp only [fresh, crossing.tick_sub_arrival, half, Bool.false_eq_true, if_false]

/-- The transit time of a packet once the clock is synchronized. -/
theorem transitTimeUs_synced {clock : ClockSync} (crossing : Crossing offset delay)
    (ticked : crossing.tick ≠ 0) (synced : clock.synced = true)
    : transitTimeUs clock crossing.tick crossing.arrivalMs
      = max 0 ((delay - offset).bmod (2 ^ 32) * 1000 + clock.offsetUs) := by
  rw [transitTimeUs, if_neg (by simp [ticked, synced])]
  simp only [crossing.arrival_sub_tick]
  split <;> omega

/-- The offset is exact after the first synchronization, and so is the transit time of a later packet.
-/
structure Exact (link : Link) (first : Crossing offset delay) (next : Crossing offset later)
    : Prop where
  offset : (link.syncClock first.tick first.arrivalMs).peer.clock.offsetUs = offset * 1000
  transit : transitTimeUs (link.syncClock first.tick first.arrivalMs).peer.clock next.tick
    next.arrivalMs = later * 1000

/-- On a symmetric path whose RTT is known, the clock is exact only where the wrap of the tick undoes
the error: the packet was under way for half the range of a tick.
-/
theorem exact_iff (first : Crossing offset delay) (next : Crossing offset later)
    (bounded : |offset| < 2 ^ 31) (rtt : link.rttUs = 2 * delay * 1000)
    (fresh : link.peer.clock.synced = false)
    : Exact link first next
      ↔ first.tick ≠ 0 ∧ next.tick ≠ 0 ∧ delay = 2 ^ 31 ∧ offset < 0 ∧ later - offset < 2 ^ 31 := by
  rw [abs_lt] at bounded
  by_cases ticked : first.tick = 0
  · refine iff_of_false (fun exact_ => ?_) fun all => all.1 ticked
    have transit := exact_.transit
    rw [syncClock, if_pos ticked, transitTimeUs, if_pos (by simp [fresh])] at transit
    omega
  by_cases apart : delay = 0
  · refine iff_of_false (fun exact_ => ?_) fun all => by omega
    have unsampled : link.rttUs = 0 := by omega
    have transit := exact_.transit
    rw [syncClock, if_neg ticked, if_pos unsampled, transitTimeUs, if_pos (by simp [fresh])]
      at transit
    omega
  have clock := syncClock_first first ticked (Nat.pos_of_ne_zero apart) rtt fresh
  by_cases nextTicked : next.tick = 0
  · refine iff_of_false (fun exact_ => ?_) fun all => all.2.1 nextTicked
    have transit := exact_.transit
    rw [transitTimeUs, if_pos (Or.inr nextTicked)] at transit
    omega
  have transit := transitTimeUs_synced next nextTicked (congrArg ClockSync.synced clock)
  rw [clock] at transit
  constructor
  · intro exact_
    have offset_ := exact_.offset
    have transit_ := exact_.transit
    rw [clock] at offset_ transit_
    rw [transit] at transit_
    simp only [Int.bmod] at offset_ transit_
    refine ⟨ticked, nextTicked, ?_, ?_, ?_⟩ <;> omega
  · rintro ⟨-, -, rfl, behind, within⟩
    constructor
    · rw [clock]
      simp only [Int.bmod]
      omega
    · rw [clock, transit]
      simp only [Int.bmod]
      omega

/-- The peer's clock is one millisecond behind, and its handshake took half the range of a tick. -/
theorem exact_half_range
    : Exact { key := [], peer := {}, rttUs := 4294967296000 }
        (⟨1000, 999, rfl⟩ : Crossing (-1) 2147483648) (⟨2000, 1999, rfl⟩ : Crossing (-1) 10) :=
  (exact_iff _ _ (by decide) (by decide) rfl).mpr
    ⟨by decide, by decide, by decide, by decide, by decide⟩

/-- The peer's clock is five milliseconds ahead, and each packet takes ten. -/
theorem five_ahead_not_exact
    : ¬Exact { key := [], peer := {}, rttUs := 20000 } (⟨1000, 1005, rfl⟩ : Crossing 5 10)
        (⟨2000, 2005, rfl⟩ : Crossing 5 10) := by
  intro exact_
  have clock := @syncClock_first { key := [], peer := {}, rttUs := 20000 } 5 10 ⟨1000, 1005, rfl⟩
    (by decide) (by decide) rfl rfl
  have offset := exact_.offset
  rw [clock] at offset
  exact absurd offset (by decide)

end Link

end Creek.Tight
