import Creek.Tight.Pacer

/-! The two loops over the token bucket: a datagram within the cap of the bucket is sent after finitely
many refills, and one beyond it never, nor anything behind it.
-/

namespace Creek.Tight

open Library Filter

/-- The instants of these readings grow without bound: time passes. -/
def Diverges (clock : Stream' Reading) : Prop := Tendsto (fun n => (clock.get n).now) atTop atTop

theorem Diverges.drop {clock : Stream' Reading} (diverges : Diverges clock) (count : ℕ)
    : Diverges (clock.drop count) :=
  (tendsto_add_atTop_iff_nat (f := fun n => (clock.get n).now) count).mpr diverges

-- Rounding

theorem double_natCast {number : Nat} (small : number < 2 ^ 53) : double number = number :=
  nearest_natCast small

theorem le_double {number : Nat} {value : ℚ} (small : number < 2 ^ 53) (le : (number : ℚ) ≤ value)
    : (number : ℚ) ≤ double value :=
  le_nearest small le

/-- A number of bytes is within the cap of the bucket exactly when it is at most four times the MTU. -/
theorem le_bucketCap_iff {mtu length : Nat} (small : length < 2 ^ 53)
    : (length : ℚ) ≤ bucketCap mtu ↔ length ≤ 4 * mtu := by
  constructor
  · intro within
    by_contra beyond
    have exact_ : double mtu = mtu := double_natCast (by omega)
    have cap : bucketCap mtu = ((4 * mtu : Nat) : ℚ) := by
      rw [bucketCap, exact_, ← @double_natCast (4 * mtu) (by omega)]
      push_cast
      rw [mul_comm]
    rw [cap] at within
    exact beyond (by exact_mod_cast within)
  · intro within
    refine le_double small ?_
    by_cases held : mtu < 2 ^ 53
    · rw [double_natCast held]
      exact_mod_cast (by omega : length ≤ mtu * 4)
    · have wide : ((2 ^ 53 - 1 : Nat) : ℚ) ≤ double mtu :=
        le_double (by decide) (by exact_mod_cast (by omega : 2 ^ 53 - 1 ≤ mtu))
      have below : (length : ℚ) ≤ ((2 ^ 53 - 1 : Nat) : ℚ) := by
        exact_mod_cast (by omega : length ≤ 2 ^ 53 - 1)
      have nonneg : (0 : ℚ) ≤ length := Nat.cast_nonneg length
      linarith

/-- One microsecond at the least rate earns almost a millionth of a token. -/
theorem le_earned {bytesPerSecond elapsedUs : Nat} (rate : 0 < bytesPerSecond) (span : 0 < elapsedUs)
    : 9 / 10000000 ≤ earned bytesPerSecond elapsedUs := by
  have one_le {number : Nat} (positive : 0 < number) : ((1 : Nat) : ℚ) ≤ double number :=
    le_double (by decide) (by exact_mod_cast positive)
  have product : ((1 : Nat) : ℚ) ≤ double (double bytesPerSecond * double elapsedUs) := by
    refine le_double (by decide) ?_
    rw [Nat.cast_one]
    have first := one_le rate
    have second := one_le span
    rw [Nat.cast_one] at first second
    exact one_le_mul_of_one_le_of_one_le first second
  rw [Nat.cast_one] at product
  have least : double (1 / 1000000) ≤ earned bytesPerSecond elapsedUs := by
    refine nearest_mono (by decide) (by norm_num) ?_
    exact div_le_div_of_nonneg_right product (by norm_num)
  have error : |double (1 / 1000000) - 1 / 1000000| ≤ 1 / 1000000 / 2 ^ 53 :=
    nearest_error (by norm_num)
  have lower := (abs_le.mp error).1
  norm_num at lower least ⊢
  linarith

-- Refills

namespace Pacer

variable {mtu : Nat} {pacer : Pacer mtu} {reading : Reading} {length : Nat}

theorem microseconds_pos_iff {duration : Int} : 0 < microseconds duration ↔ 1000 ≤ duration := by
  have unit : Int.sign 1000 = 1 := rfl
  rw [microseconds, Int.tdiv_eq_ediv, unit]
  split <;> omega

theorem refill_early (early : ¬1000 ≤ reading.now - pacer.tokenBucketTime)
    : pacer.refill reading = pacer := by
  rw [refill]
  dsimp only
  rw [if_pos]
  rw [← microseconds_pos_iff] at early
  omega

theorem refill_keeps (small : length < 2 ^ 53) (within : (length : ℚ) ≤ bucketCap mtu)
    (enough : (length : ℚ) ≤ pacer.tokenBucket)
    : (length : ℚ) ≤ (pacer.refill reading).tokenBucket := by
  rw [refill]
  dsimp only
  split
  · exact enough
  · refine le_min (le_double small ?_) within
    exact le_add_of_le_of_nonneg enough (earned_nonneg _ _)

/-- A microsecond adds half a millionth of a token at least, or fills the bucket. -/
theorem refill_earns (late : 1000 ≤ reading.now - pacer.tokenBucketTime)
    (short : pacer.tokenBucket < 2048)
    : min (pacer.tokenBucket + 1 / 2000000) (bucketCap mtu) ≤ (pacer.refill reading).tokenBucket := by
  have span := microseconds_pos_iff.mpr late
  rw [refill]
  dsimp only
  rw [if_neg (by omega)]
  refine min_le_min_right _ ?_
  have nonneg := pacer.nonneg
  have earns : 9 / 10000000 ≤ earned reading.bandwidth.bytesPerSecond
      (microseconds (reading.now - pacer.tokenBucketTime)).toNat :=
    le_earned reading.bandwidth.bytesPerSecond_pos (by omega)
  calc
    pacer.tokenBucket + 1 / 2000000 ≤ double (pacer.tokenBucket + 9 / 10000000) := by
      have error : |double (pacer.tokenBucket + 9 / 10000000)
          - (pacer.tokenBucket + 9 / 10000000)| ≤ (pacer.tokenBucket + 9 / 10000000) / 2 ^ 53 :=
        nearest_error (by linarith)
      have lower := (abs_le.mp error).1
      have small : (pacer.tokenBucket + 9 / 10000000) / 2 ^ 53 ≤ 1 / 10000000 := by
        rw [div_le_iff₀ (by norm_num)]
        norm_num
        linarith
      linarith
    _ ≤ double (pacer.tokenBucket + earned reading.bandwidth.bytesPerSecond
          (microseconds (reading.now - pacer.tokenBucketTime)).toNat) :=
      nearest_mono (by decide) (by linarith) (by linarith)

/-- The bucket after these refills. -/
def refills (readings : List Reading) (pacer : Pacer mtu) : Pacer mtu :=
  readings.foldl (fun pacer reading => pacer.refill reading) pacer

theorem refills_cons (first : Reading) (rest : List Reading)
    : pacer.refills (first :: rest) = (pacer.refill first).refills rest :=
  rfl

theorem refills_append (front back : List Reading)
    : pacer.refills (front ++ back) = (pacer.refills front).refills back :=
  List.foldl_append

/-- The bucket after readings that change nothing, and one more. -/
theorem refills_take_succ {clock : Stream' Reading} {count : ℕ}
    (same : pacer.refills (clock.take count) = pacer)
    : pacer.refills (clock.take (count + 1)) = pacer.refill (clock.get count) := by
  rw [Stream'.take_succ', refills_append, same]
  rfl

/-- Some reading comes a microsecond after the last refill, and those before it change nothing. -/
theorem exists_late {clock : Stream' Reading} (diverges : Diverges clock) (pacer : Pacer mtu)
    : ∃ count, pacer.refills (clock.take count) = pacer
      ∧ 1000 ≤ (clock.get count).now - pacer.tokenBucketTime := by
  obtain ⟨bound, late⟩ := (tendsto_atTop.mp diverges (pacer.tokenBucketTime + 1000)).exists
  have first : ∀ (bound : ℕ) (clock : Stream' Reading),
      pacer.tokenBucketTime + 1000 ≤ (clock.get bound).now
      → ∃ count, pacer.refills (clock.take count) = pacer
        ∧ 1000 ≤ (clock.get count).now - pacer.tokenBucketTime := by
    intro bound
    induction bound with
    | zero =>
        intro clock late
        exact ⟨0, rfl, by linarith⟩
    | succ bound ih =>
        intro clock late
        by_cases now : 1000 ≤ (clock.get 0).now - pacer.tokenBucketTime
        · exact ⟨0, rfl, now⟩
        · obtain ⟨count, same, reached⟩ := ih clock.tail late
          refine ⟨count + 1, ?_, reached⟩
          rw [Stream'.take_succ, refills_cons, refill_early now]
          exact same
  exact first bound clock late

/-- The bucket fills up to the tokens of a datagram, by induction on the refills that are missing. -/
theorem exists_enough (within : (length : ℚ) ≤ bucketCap mtu) (small : length ≤ 2048)
    {clock : Stream' Reading} (diverges : Diverges clock) (pacer : Pacer mtu)
    : ∃ count, (length : ℚ) ≤ (pacer.refills (clock.take count)).tokenBucket := by
  have bounded : (length : ℚ) ≤ 2048 := by exact_mod_cast small
  have fills : ∀ (missing : ℕ) (clock : Stream' Reading) (pacer : Pacer mtu), Diverges clock
      → (length : ℚ) ≤ pacer.tokenBucket + missing * (1 / 2000000)
      → ∃ count, (length : ℚ) ≤ (pacer.refills (clock.take count)).tokenBucket := by
    intro missing
    induction missing with
    | zero =>
        intro clock pacer _ enough
        refine ⟨0, ?_⟩
        rw [Nat.cast_zero, zero_mul, add_zero] at enough
        exact enough
    | succ missing ih =>
        intro clock pacer diverges near
        by_cases short : pacer.tokenBucket < 2048
        · obtain ⟨count, same, late⟩ := exists_late diverges pacer
          have earns := refill_earns late short
          rcases min_le_iff.mp earns with more | full
          · have closer : (length : ℚ)
                ≤ (pacer.refill (clock.get count)).tokenBucket + missing * (1 / 2000000) := by
              push_cast at near
              linarith
            obtain ⟨rest, enough⟩ := ih (clock.drop (count + 1)) _ (diverges.drop _) closer
            refine ⟨count + 1 + rest, ?_⟩
            rw [Stream'.take_add, refills_append, refills_take_succ same]
            exact enough
          · refine ⟨count + 1, within.trans ?_⟩
            rw [refills_take_succ same]
            exact full
        · exact ⟨0, bounded.trans (not_lt.mp short)⟩
  refine fills (2000000 * length) clock pacer diverges ?_
  have nonneg := pacer.nonneg
  push_cast
  linarith

end Pacer

-- Loops over the outbound queue

namespace Outbound

variable {mtu : Nat} {ι : Type*} {act : ι → Outbound mtu → Outbound mtu} {first : ι → Reading}
  {outbound : Outbound mtu} {datagram : Bytes} {queue : List Bytes}

/-- The datagram whose turn it is waits for another refill. -/
def wait (datagram : Bytes) (queue : List Bytes) (reading : Reading) (outbound : Outbound mtu)
    : Outbound mtu where
  pacer := outbound.pacer.refill reading
  pending := some datagram
  queue := queue
  sent := outbound.sent

/-- One turn of a loop, with its first reading: no datagram is lost, and the one whose turn it is goes
out exactly when the refill suffices for it.
-/
structure Serves (act : ι → Outbound mtu → Outbound mtu) (first : ι → Reading) : Prop where
  conserves : ∀ (item : ι) (outbound : Outbound mtu),
    (act item outbound).sent ++ (act item outbound).waiting = outbound.sent ++ outbound.waiting
  sends : ∀ (item : ι) (outbound : Outbound mtu) (datagram : Bytes) (queue : List Bytes),
    outbound.waiting = datagram :: queue
    → costOf datagram ≤ (outbound.pacer.refill (first item)).tokenBucket
    → outbound.sent ++ [datagram] <+: (act item outbound).sent
  waits : ∀ (item : ι) (outbound : Outbound mtu) (datagram : Bytes) (queue : List Bytes),
    outbound.waiting = datagram :: queue
    → ¬costOf datagram ≤ (outbound.pacer.refill (first item)).tokenBucket
    → act item outbound = outbound.wait datagram queue (first item)

/-- The turns of a loop, one after the other. -/
def turns (act : ι → Outbound mtu → Outbound mtu) (items : List ι) (outbound : Outbound mtu)
    : Outbound mtu :=
  items.foldl (fun outbound item => act item outbound) outbound

theorem turns_append (front back : List ι)
    : turns act (front ++ back) outbound = turns act back (turns act front outbound) :=
  List.foldl_append

theorem Serves.conserves_turns (serves : Serves act first) (items : List ι)
    : (turns act items outbound).sent ++ (turns act items outbound).waiting
      = outbound.sent ++ outbound.waiting := by
  induction items generalizing outbound with
  | nil => rfl
  | cons item rest ih => exact ih.trans (serves.conserves item outbound)

/-- A datagram that fits the bucket is sent: as long as it waits, every turn is one more refill. -/
theorem Serves.exists_sent (serves : Serves act first) (within : datagram.length ≤ 4 * mtu)
    (small : datagram.length ≤ 2048) (turn : outbound.waiting = datagram :: queue)
    {items : Stream' ι} (diverges : Diverges (items.map first))
    : ∃ count, outbound.sent ++ [datagram] <+: (turns act (items.take count) outbound).sent := by
  have exact_ : costOf datagram = datagram.length := double_natCast (by omega)
  have capped : (datagram.length : ℚ) ≤ bucketCap mtu := (le_bucketCap_iff (by omega)).mpr within
  have drives : ∀ (missing : ℕ) (items : Stream' ι) (outbound : Outbound mtu),
      outbound.waiting = datagram :: queue
      → costOf datagram
          ≤ (outbound.pacer.refills ((items.map first).take (missing + 1))).tokenBucket
      → ∃ count, outbound.sent ++ [datagram] <+: (turns act (items.take count) outbound).sent := by
    intro missing
    induction missing with
    | zero => exact fun items outbound turn enough => ⟨1, serves.sends _ outbound _ _ turn enough⟩
    | succ missing ih =>
        intro items outbound turn later
        by_cases enough : costOf datagram ≤ (outbound.pacer.refill (first items.head)).tokenBucket
        · exact ⟨1, serves.sends _ outbound _ _ turn enough⟩
        · have waits := serves.waits items.head outbound datagram queue turn enough
          obtain ⟨count, sent⟩ := ih items.tail (outbound.wait datagram queue (first items.head)) rfl later
          refine ⟨count + 1, ?_⟩
          rw [Stream'.take_succ, turns, List.foldl_cons, waits]
          exact sent
  obtain ⟨missing, enough⟩ := Pacer.exists_enough capped small diverges outbound.pacer
  refine drives missing items outbound turn ?_
  rw [exact_, Stream'.take_succ', Pacer.refills_append]
  exact Pacer.refill_keeps (by omega) capped enough

/-- A queue of such datagrams is emptied, one datagram at a time. -/
theorem Serves.exists_emptied (serves : Serves act first)
    (fits : ∀ datagram ∈ outbound.waiting, datagram.length ≤ 4 * mtu ∧ datagram.length ≤ 2048)
    {items : Stream' ι} (diverges : Diverges (items.map first))
    : ∃ count, (turns act (items.take count) outbound).sent = outbound.sent ++ outbound.waiting := by
  induction measured : outbound.waiting.length using Nat.strong_induction_on
    generalizing outbound items with
  | _ size ih =>
      rcases turn : outbound.waiting with - | ⟨datagram, queue⟩
      · exact ⟨0, (List.append_nil _).symm⟩
      · rw [turn] at fits measured
        obtain ⟨within, small⟩ := fits datagram List.mem_cons_self
        obtain ⟨count, others, sent⟩ := serves.exists_sent within small turn diverges
        have conserved := @Serves.conserves_turns _ _ _ _ outbound serves (items.take count)
        have rest : others ++ (turns act (items.take count) outbound).waiting = queue := by
          rw [← sent, turn, List.append_assoc, List.append_assoc] at conserved
          exact List.cons.inj (List.append_cancel_left conserved) |>.2
        have fewer : (turns act (items.take count) outbound).waiting.length < size := by
          rw [← measured, ← rest, List.length_cons, List.length_append]
          omega
        have later : Diverges ((items.drop count).map first) := by
          rw [← Stream'.drop_map]
          exact diverges.drop count
        obtain ⟨more, emptied⟩ := ih _ fewer (fun other member =>
          fits other (List.mem_cons_of_mem _ (rest ▸ List.mem_append_right _ member))) later rfl
        refine ⟨count + more, ?_⟩
        rw [Stream'.take_add, turns_append, emptied, conserved, turn]

/-- A datagram beyond the cap is never sent, nor anything behind it. -/
theorem Serves.stuck (serves : Serves act first) (beyond : bucketCap mtu < costOf datagram)
    (turn : outbound.waiting = datagram :: queue) (items : List ι)
    : (turns act items outbound).sent = outbound.sent := by
  induction items generalizing outbound with
  | nil => rfl
  | cons item rest ih =>
      have short : ¬costOf datagram ≤ (outbound.pacer.refill (first item)).tokenBucket :=
        not_le.mpr (lt_of_le_of_lt (outbound.pacer.refill (first item)).capped beyond)
      have waits := serves.waits item outbound datagram queue turn short
      rw [turns, List.foldl_cons, waits]
      have still : (outbound.wait datagram queue (first item)).waiting = datagram :: queue := rfl
      exact ih still

-- The sender thread and the reactor

theorem attempt_enough {reading : Reading} (turn : outbound.waiting = datagram :: queue)
    (enough : costOf datagram ≤ (outbound.pacer.refill reading).tokenBucket)
    : outbound.attempt reading =
      {
        pacer := (outbound.pacer.refill reading).spend datagram enough
        queue := queue
        sent := outbound.sent ++ [datagram]
      } := by
  unfold attempt
  split
  · rename_i none_
    cases none_.symm.trans turn
  · rename_i other rest waiting
    obtain ⟨rfl, rfl⟩ := List.cons.inj (waiting.symm.trans turn)
    exact dif_pos enough

theorem attempt_short {reading : Reading} (turn : outbound.waiting = datagram :: queue)
    (short : ¬costOf datagram ≤ (outbound.pacer.refill reading).tokenBucket)
    : outbound.attempt reading = outbound.wait datagram queue reading := by
  unfold attempt
  split
  · rename_i none_
    cases none_.symm.trans turn
  · rename_i other rest waiting
    obtain ⟨rfl, rfl⟩ := List.cons.inj (waiting.symm.trans turn)
    exact dif_neg short

theorem attempt_conserves (reading : Reading) (outbound : Outbound mtu)
    : (outbound.attempt reading).sent ++ (outbound.attempt reading).waiting
      = outbound.sent ++ outbound.waiting := by
  rcases turn : outbound.waiting with - | ⟨datagram, queue⟩
  · have idle : outbound.attempt reading = outbound := by
      unfold attempt
      split
      · rfl
      · rename_i datagram queue waiting
        cases waiting.symm.trans turn
    rw [idle, turn]
  · by_cases enough : costOf datagram ≤ (outbound.pacer.refill reading).tokenBucket
    · rw [attempt_enough turn enough]
      simp [waiting]
    · rw [attempt_short turn enough]
      rfl

theorem attempt_serves : Serves (@attempt mtu) id := by
  refine ⟨attempt_conserves, ?_, fun reading outbound datagram queue => attempt_short⟩
  intro reading outbound datagram queue turn enough
  simp only [id_eq] at enough
  rw [attempt_enough turn enough]

/-- One call on the reactor, which takes these readings. -/
def reactorCall (readings : Reading × List Reading) (outbound : Outbound mtu) : Outbound mtu :=
  outbound.drainSender (readings.1 :: readings.2)

theorem drainSender_conserves (readings : List Reading) (outbound : Outbound mtu)
    : (outbound.drainSender readings).sent ++ (outbound.drainSender readings).waiting
      = outbound.sent ++ outbound.waiting := by
  induction readings generalizing outbound with
  | nil => rfl
  | cons reading rest ih =>
      rw [drainSender]
      split
      · exact attempt_conserves reading outbound
      · exact (ih _).trans (attempt_conserves reading outbound)

theorem sent_prefix_drainSender (readings : List Reading) (outbound : Outbound mtu)
    : outbound.sent <+: (outbound.drainSender readings).sent := by
  have attempted (reading : Reading) (outbound : Outbound mtu)
      : outbound.sent <+: (outbound.attempt reading).sent := by
    unfold attempt
    split
    · exact List.prefix_rfl
    · dsimp only
      split
      · exact List.prefix_append _ _
      · exact List.prefix_rfl
  induction readings generalizing outbound with
  | nil => exact List.prefix_rfl
  | cons reading rest ih =>
      rw [drainSender]
      split
      · exact attempted reading outbound
      · exact (attempted reading outbound).trans (ih _)

/-- The calls on the reactor: one that comes to the end of the tokens leaves the rest to the next. -/
theorem reactorCall_serves : Serves (@reactorCall mtu) Prod.fst := by
  refine ⟨fun readings outbound => drainSender_conserves _ outbound, ?_, ?_⟩
  · intro readings outbound datagram queue turn enough
    rw [reactorCall, drainSender, attempt_enough turn enough, if_neg nofun]
    exact sent_prefix_drainSender readings.2
      {
        pacer := (outbound.pacer.refill readings.1).spend datagram enough
        queue := queue
        sent := outbound.sent ++ [datagram]
      }
  · intro readings outbound datagram queue turn short
    rw [reactorCall, drainSender, attempt_short turn short]
    rfl

end Outbound

-- Datagrams that pass

/-- The buffer a datagram is received into. -/
def kReceiveBuffer : Nat := 2048

/-- A datagram of this transport fits the pacer and the receiver: it is within the cap, both loops over
the token bucket send it after finitely many refills once it is its turn, and the other end
receives all of it.
-/
structure Passes (mtu : Nat) (datagram : Bytes) : Prop where
  capped : datagram.length ≤ 4 * mtu
  senderLoop : ∀ (outbound : Outbound mtu) (queue : List Bytes),
    outbound.waiting = datagram :: queue
    → ∀ clock : Stream' Reading, Diverges clock
      → ∃ count, outbound.sent ++ [datagram] <+: (outbound.senderLoop (clock.take count)).sent
  drainSender : ∀ (outbound : Outbound mtu) (queue : List Bytes),
    outbound.waiting = datagram :: queue
    → ∀ calls : Stream' (Reading × List Reading), Diverges (calls.map Prod.fst)
      → ∃ count, outbound.sent ++ [datagram]
          <+: (Outbound.turns Outbound.reactorCall (calls.take count) outbound).sent
  received : datagram.length ≤ kReceiveBuffer

theorem passes_iff {mtu : Nat} {datagram : Bytes}
    : Passes mtu datagram ↔ datagram.length ≤ min (4 * mtu) kReceiveBuffer := by
  constructor
  · intro passes
    exact le_min passes.capped passes.received
  · intro short
    obtain ⟨within, small⟩ := le_min_iff.mp short
    refine ⟨within, fun outbound queue turn clock diverges => ?_,
      fun outbound queue turn calls diverges => ?_, small⟩
    · have passing : Diverges (clock.map id) := diverges
      exact Outbound.attempt_serves.exists_sent within small turn passing
    · exact Outbound.reactorCall_serves.exists_sent within small turn diverges

/-- A datagram beyond the cap blocks the queue, on the sender thread and on the reactor. -/
theorem never_sent {mtu : Nat} {datagram : Bytes} (beyond : 4 * mtu < datagram.length)
    (small : datagram.length < 2 ^ 53) {outbound : Outbound mtu} {queue : List Bytes}
    (turn : outbound.waiting = datagram :: queue)
    : (∀ readings, (outbound.senderLoop readings).sent = outbound.sent)
      ∧ ∀ calls, (Outbound.turns Outbound.reactorCall calls outbound).sent = outbound.sent := by
  have costly : bucketCap mtu < costOf datagram := by
    rw [costOf, double_natCast small, ← not_le, le_bucketCap_iff small]
    exact Nat.not_le.mpr beyond
  exact ⟨Outbound.attempt_serves.stuck costly turn, Outbound.reactorCall_serves.stuck costly turn⟩

end Creek.Tight
