import Creek.Leaf.CircuitBreaker

/-! What opens a closed endpoint. The thresholds are exact: a run of failures, a rate of errors and an
average latency. Only a failure makes the breaker look at them.
-/

namespace Creek.Leaf

open Library
open Tight (TimePoint)

namespace CircuitBreaker

/-- What one call reports about the endpoint. -/
inductive Outcome where
  | success (latencyUs : UInt64)
  | failure
  deriving DecidableEq

namespace Outcome

def failed : Outcome → Bool
  | success _ => false
  | failure => true

/-- A failure reports no latency. -/
def latencyUs : Outcome → Nat
  | success latencyUs => latencyUs.toNat
  | failure => 0

end Outcome

/-- What a call of the breaker reports. -/
def outcome? : BreakerCall → Option Outcome
  | .recordSuccess latencyUs => some (.success latencyUs)
  | .recordFailure _ => some .failure
  | _ => none

/-- The outcomes recorded after one more call, the latest first. -/
def record (outcomes : List Outcome) : BreakerCall → List Outcome
  | .allow _ => outcomes
  | .recordSuccess latencyUs => .success latencyUs :: outcomes
  | .recordFailure _ => .failure :: outcomes
  | .reset => []

/-- The outcomes recorded since the last reset, the latest first. -/
def recorded (history : List CallStage) : List Outcome :=
  history.foldl (fun outcomes stage => record outcomes stage.event) []

def failureRun (outcomes : List Outcome) : Nat := (outcomes.takeWhile Outcome.failed).length

def failures (outcomes : List Outcome) : Nat := outcomes.countP Outcome.failed

def latencySumUs (outcomes : List Outcome) : Nat := (outcomes.map Outcome.latencyUs).sum

/-- The failures in a row have reached their threshold. -/
def RunReached (config : CircuitConfig) (outcomes : List Outcome) : Prop :=
  config.consecutiveFailureThreshold.toNat ≤ failureRun outcomes

/-- Enough outcomes were recorded to judge their rates. -/
def Sampled (config : CircuitConfig) (outcomes : List Outcome) : Prop :=
  config.minSamples.toNat ≤ outcomes.length

def ErrorRateReached (threshold : ℚ) (outcomes : List Outcome) : Prop :=
  threshold ≤ (failures outcomes : ℚ) / outcomes.length

def LatencyReached (config : CircuitConfig) (outcomes : List Outcome) : Prop :=
  (config.latencyThresholdUs.toNat : ℚ) ≤ (latencySumUs outcomes : ℚ) / outcomes.length

/-- A threshold of the configuration is reached. -/
def Reached (config : CircuitConfig) (threshold : ℚ) (outcomes : List Outcome) : Prop :=
  RunReached config outcomes
  ∨ Sampled config outcomes
    ∧ (ErrorRateReached threshold outcomes ∨ LatencyReached config outcomes)

/-- After an outcome of a closed endpoint the endpoint is open exactly when a threshold is reached. -/
def OpensOnThresholds (config : CircuitConfig) (threshold : ℚ) (history : List CallStage)
    (ep : EndpointStats)
    : Prop :=
  ∀ front stage, history = front ++ [stage] → stage.before.state = .closed
    → outcome? stage.event ≠ none
    → (ep.state = .opened ↔ Reached config threshold (recorded history))

/-- The counters of an endpoint hold what was recorded. -/
def Countable (outcomes : List Outcome) : Prop :=
  outcomes.length < UInt64.size ∧ latencySumUs outcomes < UInt64.size

/-- No counter overflows with the next call. -/
def NoOverflow (history : List CallStage) (_ : EndpointStats) (call : BreakerCall) : Prop :=
  Countable (record (recorded history) call)

/-- The floating point comparison of the error rate is the exact one. -/
def ComparesExactly (config : CircuitConfig) (threshold : ℚ) (outcomes : List Outcome) : Prop :=
  config.errorRateReached (UInt64.ofNat (failures outcomes)) (UInt64.ofNat outcomes.length) = true
    ↔ ErrorRateReached threshold outcomes

/-- The endpoint is not judged by its thresholds: a success reaches one of them, or a failure is judged
by an error rate that was rounded to the other side of its threshold.
-/
def Misjudges (config : CircuitConfig) (threshold : ℚ) (history : List CallStage) (stage : CallStage)
    : Prop :=
  let outcomes := record (recorded history) stage.event
  stage.before.state = .closed
  ∧ match stage.event with
    | .recordSuccess _ => Reached config threshold outcomes
    | .recordFailure _ =>
        ¬RunReached config outcomes ∧ Sampled config outcomes ∧ ¬LatencyReached config outcomes
        ∧ ¬ComparesExactly config threshold outcomes
    | _ => False

-- The counters

/-- The counters of an endpoint are those of its recorded outcomes. -/
structure Counts (ep : EndpointStats) (outcomes : List Outcome) : Prop where
  totalCalls : ep.totalCalls.toNat = outcomes.length
  errors : ep.errors.toNat = failures outcomes
  latency : ep.latencySumUs.toNat = latencySumUs outcomes
  run : ep.consecutiveFailures.toNat = failureRun outcomes

section

variable {config : CircuitConfig} {threshold : ℚ} {ep after : EndpointStats} {call : BreakerCall}
  {outcomes : List Outcome} {outputs : List Bool} {history : List CallStage} {now : TimePoint}

theorem recorded_append (history : List CallStage) (stage : CallStage)
    : recorded (history ++ [stage]) = record (recorded history) stage.event := by
  rw [recorded, List.foldl_append]
  rfl

theorem failures_le_length (outcomes : List Outcome) : failures outcomes ≤ outcomes.length :=
  List.countP_le_length

theorem failureRun_le_length (outcomes : List Outcome) : failureRun outcomes ≤ outcomes.length :=
  (List.takeWhile_sublist Outcome.failed).length_le

theorem counts_default : Counts {} [] :=
  ⟨rfl, rfl, rfl, rfl⟩

theorem Counts.allow (counts : Counts ep outcomes)
    : Counts (allow config now ep).1 outcomes := by
  rcases state : ep.state with _ | _ | _
  · simp only [CircuitBreaker.allow, state]
    exact ⟨counts.totalCalls, counts.errors, counts.latency, counts.run⟩
  · simp only [CircuitBreaker.allow, state, probe]
    split
    · split
      · exact ⟨counts.totalCalls, counts.errors, counts.latency, counts.run⟩
      · exact ⟨counts.totalCalls, counts.errors, counts.latency, counts.run⟩
    · exact ⟨counts.totalCalls, counts.errors, counts.latency, counts.run⟩
  · simp only [CircuitBreaker.allow, state, probe]
    split
    · exact ⟨counts.totalCalls, counts.errors, counts.latency, counts.run⟩
    · exact ⟨counts.totalCalls, counts.errors, counts.latency, counts.run⟩

theorem toNat_add_of_fits {counter added : UInt64} {value : Nat} (holds : counter.toNat = value)
    (fits : value + added.toNat < UInt64.size)
    : (counter + added).toNat = value + added.toNat := by
  rw [UInt64.toNat_add, holds]
  exact Nat.mod_eq_of_lt fits

theorem Counts.recordSuccess {latencyUs : UInt64} (counts : Counts ep outcomes)
    (countable : Countable (.success latencyUs :: outcomes))
    : Counts (recordSuccess latencyUs ep) (.success latencyUs :: outcomes) := by
  obtain ⟨fits, fitsLatency⟩ := countable
  have sum : latencySumUs (.success latencyUs :: outcomes) = latencySumUs outcomes + latencyUs.toNat :=
    Nat.add_comm _ _
  refine ⟨toNat_add_of_fits counts.totalCalls fits, counts.errors, ?_, rfl⟩
  rw [sum] at fitsLatency ⊢
  exact toNat_add_of_fits counts.latency fitsLatency

/-- The counters that a failure is judged by. -/
def failedOnce (now : TimePoint) (ep : EndpointStats) : EndpointStats :=
  {
    ep with
    totalCalls := ep.totalCalls + 1
    errors := ep.errors + 1
    consecutiveFailures := ep.consecutiveFailures + 1
    lastCall := now
  }

theorem Counts.failedOnce (counts : Counts ep outcomes)
    (countable : Countable (.failure :: outcomes))
    : Counts (failedOnce now ep) (.failure :: outcomes) := by
  have fits : outcomes.length + 1 < UInt64.size := countable.1
  have errors := failures_le_length outcomes
  have run := failureRun_le_length outcomes
  refine ⟨toNat_add_of_fits counts.totalCalls fits, ?_, ?_, ?_⟩
  · exact (toNat_add_of_fits counts.errors (Nat.lt_of_le_of_lt (Nat.succ_le_succ errors) fits)).trans
      (List.countP_cons_of_pos rfl).symm
  · exact counts.latency.trans (Nat.zero_add _).symm
  · exact toNat_add_of_fits counts.run (Nat.lt_of_le_of_lt (Nat.succ_le_succ run) fits)

theorem recordFailure_eq
    : recordFailure config now ep
      = if ep.state ≠ .closed ∨ trips config (failedOnce now ep) then
          { failedOnce now ep with state := .opened, openedAt := now }
        else failedOnce now ep :=
  rfl

theorem Counts.recordFailure (counts : Counts ep outcomes)
    (countable : Countable (.failure :: outcomes))
    : Counts (recordFailure config now ep) (.failure :: outcomes) := by
  have once : Counts (CircuitBreaker.failedOnce now ep) (.failure :: outcomes) :=
    counts.failedOnce countable
  rw [recordFailure_eq]
  split
  · exact ⟨once.totalCalls, once.errors, once.latency, once.run⟩
  · exact once

/-- A call that overflows no counter keeps the counters and the outcomes together. -/
theorem Counts.step (counts : Counts ep outcomes) (countable : Countable (record outcomes call))
    (taken : step config ep call = .ok (after, outputs))
    : Counts after (record outcomes call) := by
  cases call with
  | allow now =>
      cases taken
      exact counts.allow
  | recordSuccess latencyUs =>
      cases taken
      exact counts.recordSuccess countable
  | recordFailure now =>
      cases taken
      exact counts.recordFailure countable
  | reset =>
      cases taken
      exact counts_default

/-- In every run without overflow the counters are those of the recorded outcomes. -/
theorem counts_of_run (run : Run (CircuitBreaker.step config) NoOverflow {} history ep)
    : Counts ep (recorded history) := by
  refine run.invariant (fun history ep => Counts ep (recorded history)) counts_default ?_
  intro history ep call after outputs _ counts countable taken
  rw [recorded_append]
  exact counts.step countable taken

-- The thresholds

/-- The integer average has reached the threshold exactly when the average has. -/
theorem latencyReached_iff (counts : Counts ep outcomes) (some : 0 < outcomes.length)
    : ep.latencySumUs / ep.totalCalls ≥ config.latencyThresholdUs ↔ LatencyReached config outcomes := by
  have positive : (0 : ℚ) < outcomes.length := Nat.cast_pos.mpr some
  rw [ge_iff_le, UInt64.le_iff_toNat_le, UInt64.toNat_div, counts.latency, counts.totalCalls,
    Nat.le_div_iff_mul_le some, LatencyReached, le_div_iff₀ positive]
  exact_mod_cast Iff.rfl

/-- What a failure is judged by: the thresholds, with the comparison of the error rate as it is
computed.
-/
theorem trips_iff (counts : Counts ep outcomes) (some : 0 < outcomes.length)
    : trips config ep = true
      ↔ RunReached config outcomes
        ∨ Sampled config outcomes
          ∧ (config.errorRateReached (UInt64.ofNat (failures outcomes))
              (UInt64.ofNat outcomes.length) = true
            ∨ LatencyReached config outcomes) := by
  have errors : ep.errors = UInt64.ofNat (failures outcomes) := by
    rw [← counts.errors, UInt64.ofNat_toNat]
  have total : ep.totalCalls = UInt64.ofNat outcomes.length := by
    rw [← counts.totalCalls, UInt64.ofNat_toNat]
  have called : ep.totalCalls > 0 := by
    rw [gt_iff_lt, UInt64.lt_iff_toNat_lt, counts.totalCalls]
    exact some
  have run : ep.consecutiveFailures ≥ config.consecutiveFailureThreshold
      ↔ RunReached config outcomes := by
    rw [ge_iff_le, UInt64.le_iff_toNat_le, counts.run, RunReached]
  have sampled : ep.totalCalls ≥ config.minSamples ↔ Sampled config outcomes := by
    rw [ge_iff_le, UInt64.le_iff_toNat_le, counts.totalCalls, Sampled]
  rw [trips, Bool.or_eq_true, Bool.and_eq_true, Bool.or_eq_true, Bool.and_eq_true,
    decide_eq_true_iff, decide_eq_true_iff, decide_eq_true_iff, decide_eq_true_iff, run, sampled,
    latencyReached_iff counts some, and_iff_right called, errors, total]

/-- Failures judge an endpoint by its thresholds unless the error rate alone decides and was rounded to
the other side.
-/
theorem trips_iff_reached (counts : Counts ep outcomes) (some : 0 < outcomes.length)
    : (trips config ep = true ↔ Reached config threshold outcomes)
      ↔ ¬(¬RunReached config outcomes ∧ Sampled config outcomes ∧ ¬LatencyReached config outcomes
        ∧ ¬ComparesExactly config threshold outcomes) := by
  rw [trips_iff counts some, Reached, ComparesExactly]
  tauto

theorem state_recordSuccess {latencyUs : UInt64} (closed : ep.state = .closed)
    : (recordSuccess latencyUs ep).state = .closed := by
  rw [recordSuccess, closed]
  rfl

/-- A failure opens a closed endpoint exactly when it trips. -/
theorem state_recordFailure (closed : ep.state = .closed)
    : (recordFailure config now ep).state = .opened
      ↔ trips config (failedOnce now ep) = true := by
  rw [recordFailure_eq]
  split
  · rename_i opens
    exact iff_of_true rfl (opens.resolve_left (absurd closed))
  · rename_i stays
    refine iff_of_false ?_ fun trips => stays (.inr trips)
    show ep.state ≠ .opened
    rw [closed]
    exact fun same => by cases same

theorem opensOnThresholds_append {before : EndpointStats}
    : OpensOnThresholds config threshold
        (history ++ [{ before := before, event := call, outputs := outputs }]) after
      ↔ (before.state = .closed → outcome? call ≠ none
        → (after.state = .opened
          ↔ Reached config threshold (record (recorded history) call))) := by
  constructor
  · intro opens closed reports
    have judged := opens history _ rfl closed reports
    rwa [recorded_append] at judged
  · intro judged front stage split closed reports
    obtain ⟨rfl, same⟩ := List.append_inj' split rfl
    obtain rfl := List.head_eq_of_cons_eq same
    rw [recorded_append]
    exact judged closed reports

/-- A call of a closed endpoint keeps to the thresholds exactly when it does not misjudge it. -/
theorem step_opensOnThresholds_iff (counts : Counts ep (recorded history))
    (permitted : NoOverflow history ep call)
    (taken : step config ep call = .ok (after, outputs))
    : OpensOnThresholds config threshold
        (history ++ [{ before := ep, event := call, outputs := outputs }]) after
      ↔ ¬Misjudges config threshold history
        { before := ep, event := call, outputs := outputs } := by
  rw [opensOnThresholds_append]
  by_cases closed : ep.state = .closed
  · cases call with
    | allow now => exact iff_of_true (fun _ reports => absurd rfl reports) fun misjudges => misjudges.2
    | reset => exact iff_of_true (fun _ reports => absurd rfl reports) fun misjudges => misjudges.2
    | recordSuccess latencyUs =>
        cases taken
        have stays : (recordSuccess latencyUs ep).state ≠ .opened := by
          rw [state_recordSuccess closed]
          exact fun same => by cases same
        constructor
        · rintro opens ⟨-, reached⟩
          exact stays ((opens closed (Option.some_ne_none _)).mpr reached)
        · intro sound _ _
          exact iff_of_false stays fun reached => sound ⟨closed, reached⟩
    | recordFailure now =>
        cases taken
        have once : Counts (CircuitBreaker.failedOnce now ep) (.failure :: recorded history) :=
          counts.failedOnce permitted
        have judged := @trips_iff_reached config threshold _ _ once (Nat.succ_pos _)
        rw [state_recordFailure closed]
        constructor
        · rintro opens ⟨-, misjudged⟩
          exact judged.mp (opens closed (Option.some_ne_none _)) misjudged
        · intro sound _ _
          exact judged.mpr fun misjudged => sound ⟨closed, misjudged⟩
  · exact iff_of_true (fun isClosed => absurd isClosed closed) fun misjudges => closed misjudges.1

/-- In every run without overflow a closed endpoint opens exactly on its thresholds as long as no success
reaches one of them and no error rate is rounded to the other side of its threshold.
-/
theorem opensOnThresholds_iff (run : Run (step config) NoOverflow {} history ep)
    : Throughout (OpensOnThresholds config threshold) history ep
      ↔ ∀ front stage back, history = front ++ stage :: back
        → ¬Misjudges config threshold front stage := by
  refine run.throughout_iff_split ?_ ?_
  · intro front stage split
    cases (List.append_eq_nil_iff.mp split.symm).2
  · intro history ep call after outputs run _ permitted taken
    exact step_opensOnThresholds_iff (counts_of_run run) permitted taken

end

/-- A call succeeds after a second. -/
def slowSuccess : BreakerCall := .recordSuccess 1000000

/-- Whether no counter overflows with the next call. -/
def countsNext (history : List CallStage) (_ : EndpointStats) (call : BreakerCall) : Bool :=
  (record (recorded history) call).length < UInt64.size
  && latencySumUs (record (recorded history) call) < UInt64.size

theorem noOverflow_of_countsNext (front : List CallStage) (ep : EndpointStats) (call : BreakerCall)
    (counts : countsNext front ep call = true)
    : NoOverflow front ep call := by
  obtain ⟨fits, fitsLatency⟩ := Bool.and_eq_true_iff.mp counts
  exact ⟨of_decide_eq_true fits, of_decide_eq_true fitsLatency⟩

theorem slowSuccesses_run
    : ∃ front stage last, Run (step {}) NoOverflow {} (front ++ [stage]) last
      ∧ last.state = .closed ∧ stage.before.state = .closed ∧ outcome? stage.event ≠ none
      ∧ recorded (front ++ [stage]) = List.replicate 10 (.success 1000000) := by
  have executed := Run.extend .start
    (rfl : execute (step {}) {} (List.replicate 9 slowSuccess) = _)
  have run := Run.of_audit executed noOverflow_of_countsNext (by decide)
  have last := Run.next run (noOverflow_of_countsNext _ _ slowSuccess rfl) rfl
  exact ⟨_, _, _, last, rfl, rfl, Option.some_ne_none _, rfl⟩

theorem opensOnThresholds_iff_slowSuccesses
    : ∃ history last, recorded history = List.replicate 10 (.success 1000000)
      ∧ (Throughout (OpensOnThresholds {} (1 / 2)) history last
        ↔ ∀ front stage back, history = front ++ stage :: back
          → ¬Misjudges {} (1 / 2) front stage) := by
  obtain ⟨front, stage, last, run, -, -, -, outcomes⟩ := slowSuccesses_run
  exact ⟨_, last, outcomes, opensOnThresholds_iff run⟩

/-- The average latency is twice its threshold, and the endpoint stays closed. -/
theorem stays_closed
    : ∃ history last, Run (step {}) NoOverflow {} history last
      ∧ ¬Throughout (OpensOnThresholds {} (1 / 2)) history last := by
  obtain ⟨front, stage, last, run, closed, before, reports, outcomes⟩ := slowSuccesses_run
  refine ⟨_, last, run, fun opens => ?_⟩
  have reached : Reached {} (1 / 2) (recorded (front ++ [stage])) := by
    rw [outcomes]
    refine .inr ⟨Nat.le_refl 10, .inr ?_⟩
    have sum : latencySumUs (List.replicate 10 (.success 1000000)) = 10000000 := rfl
    have limit : ({} : CircuitConfig).latencyThresholdUs.toNat = 500000 := rfl
    rw [LatencyReached, sum, limit, List.length_replicate]
    norm_num
  have opened := (opens.2 front stage rfl before reports).mpr reached
  rw [closed] at opened
  cases opened

end CircuitBreaker

end Creek.Leaf
