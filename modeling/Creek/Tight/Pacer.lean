import Creek.Tight.Bandwidth
import Creek.Tight.Peer

/-! The pacing of the outbound queue: the token bucket its datagrams wait for, on the sender thread
and, in lite mode, on the reactor.
-/

namespace Creek.Tight

open Library

-- The token bucket

/-- What one refill reads: the clock and the bandwidth estimate. -/
structure Reading where
  now : TimePoint
  bandwidth : BandwidthEstimator
  deriving DecidableEq, Repr

/-- The most tokens a bucket holds. -/
def bucketCap (mtu : Nat) : ℚ := double (double mtu * 4)

/-- The tokens a datagram costs. -/
def costOf (datagram : Bytes) : ℚ := double datagram.length

/-- The tokens of an interval at a rate. -/
def earned (bytesPerSecond elapsedUs : Nat) : ℚ :=
  double (double (double bytesPerSecond * double elapsedUs) / 1000000)

theorem double_nonneg {value : ℚ} (nonneg : 0 ≤ value) : 0 ≤ double value := nearest_nonneg nonneg

theorem double_natCast_nonneg (number : Nat) : 0 ≤ double number :=
  double_nonneg (Nat.cast_nonneg number)

theorem bucketCap_nonneg (mtu : Nat) : 0 ≤ bucketCap mtu :=
  double_nonneg (mul_nonneg (double_natCast_nonneg mtu) (by norm_num))

theorem earned_nonneg (bytesPerSecond elapsedUs : Nat) : 0 ≤ earned bytesPerSecond elapsedUs := by
  have rate := double_natCast_nonneg bytesPerSecond
  have span := double_natCast_nonneg elapsedUs
  have product : 0 ≤ double (double bytesPerSecond * double elapsedUs) :=
    double_nonneg (mul_nonneg rate span)
  exact double_nonneg (div_nonneg product (by norm_num))

/-- The token bucket of a transport with this MTU. -/
structure Pacer (mtu : Nat) where
  tokenBucket : ℚ
  tokenBucketTime : TimePoint
  nonneg : 0 ≤ tokenBucket
  capped : tokenBucket ≤ bucketCap mtu

namespace Pacer

variable {mtu : Nat}

/-- The bucket of a new transport is empty. -/
def initial (mtu : Nat) (now : TimePoint) : Pacer mtu where
  tokenBucket := 0
  tokenBucketTime := now
  nonneg := le_refl 0
  capped := bucketCap_nonneg mtu

/-- The source's `refill_token_bucket`. -/
def refill (reading : Reading) (pacer : Pacer mtu) : Pacer mtu :=
  let elapsedUs := microseconds (reading.now - pacer.tokenBucketTime)
  if elapsedUs ≤ 0 then pacer
  else
    let tokens := earned reading.bandwidth.bytesPerSecond elapsedUs.toNat
    {
      tokenBucket := min (double (pacer.tokenBucket + tokens)) (bucketCap mtu)
      tokenBucketTime := reading.now
      nonneg :=
        le_min (double_nonneg (add_nonneg pacer.nonneg (earned_nonneg _ _))) (bucketCap_nonneg mtu)
      capped := min_le_right _ _
    }

theorem double_sub_le_cap (pacer : Pacer mtu) {cost : ℚ} (nonneg : 0 ≤ cost)
    (enough : cost ≤ pacer.tokenBucket)
    : double (pacer.tokenBucket - cost) ≤ bucketCap mtu := by
  have le : pacer.tokenBucket - cost ≤ bucketCap mtu := by
    have capped := pacer.capped
    linarith
  calc
    double (pacer.tokenBucket - cost) ≤ double (bucketCap mtu) :=
      nearest_mono (by decide) (sub_nonneg.mpr enough) le
    _ = bucketCap mtu :=
      nearest_nearest (by decide) (mul_nonneg (double_natCast_nonneg mtu) (by norm_num))

/-- Takes the cost of a datagram out of the bucket. -/
def spend (datagram : Bytes) (pacer : Pacer mtu) (enough : costOf datagram ≤ pacer.tokenBucket)
    : Pacer mtu where
  tokenBucket := double (pacer.tokenBucket - costOf datagram)
  tokenBucketTime := pacer.tokenBucketTime
  nonneg := double_nonneg (sub_nonneg.mpr enough)
  capped := pacer.double_sub_le_cap (double_natCast_nonneg _) enough

end Pacer

-- The outbound queue

/-- The sending end of the outbound queue. `pending` is the datagram that has been taken from the
queue and waits for tokens: a local variable of the sender thread, a field of the reactor.
-/
structure Outbound (mtu : Nat) where
  pacer : Pacer mtu
  pending : Option Bytes := none
  queue : List Bytes := []
  sent : List Bytes := []

namespace Outbound

variable {mtu : Nat}

/-- The datagrams that are still to be sent, in order. -/
def waiting (outbound : Outbound mtu) : List Bytes := outbound.pending.toList ++ outbound.queue

/-- One refill for the datagram whose turn it is: it is sent when the tokens suffice, else kept. -/
def attempt (reading : Reading) (outbound : Outbound mtu) : Outbound mtu :=
  match outbound.waiting with
  | [] => outbound
  | datagram :: queue =>
      let pacer := outbound.pacer.refill reading
      if enough : costOf datagram ≤ pacer.tokenBucket then
        {
          pacer := pacer.spend datagram enough
          queue := queue
          sent := outbound.sent ++ [datagram]
        }
      else
        { pacer := pacer, pending := some datagram, queue := queue, sent := outbound.sent }

/-- The sender thread over its refills: it takes a datagram and refills until that one is sent. How
long it sleeps in between shows in the clock alone.
-/
def senderLoop (readings : List Reading) (outbound : Outbound mtu) : Outbound mtu :=
  readings.foldl (fun outbound reading => outbound.attempt reading) outbound

/-- One call on the reactor, with a reading for each datagram it may send: it returns at the first
one the tokens do not suffice for, or when the queue is empty.
-/
def drainSender : List Reading → Outbound mtu → Outbound mtu
  | [], outbound => outbound
  | reading :: readings, outbound =>
      let outbound := outbound.attempt reading
      if outbound.pending.isSome then outbound else drainSender readings outbound

end Outbound

end Creek.Tight
