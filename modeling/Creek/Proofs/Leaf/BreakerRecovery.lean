import Creek.Leaf.CircuitBreaker

/-! Recovery of the circuit breaker. The half-open calls an endpoint is granted come back with a recorded
outcome only, so one that nobody records shuts the endpoint out for good.
-/

namespace Creek.Leaf

open Library
open Tight (TimePoint)

namespace CircuitBreaker

variable {config : CircuitConfig} {entry : EndpointStats} {now : TimePoint}

/-- Some time after the endpoint was opened every call is let through. -/
def Recovers (config : CircuitConfig) (entry : EndpointStats) : Prop :=
  ∃ wait : Int, ∀ now, entry.openedAt + wait ≤ now → (allow config now entry).2 = true

/-- The half-open calls are used up. -/
def Exhausted (config : CircuitConfig) (entry : EndpointStats) : Prop :=
  entry.state = .halfOpen ∧ config.halfOpenMax ≤ entry.halfOpenCount

/-- A call at this time would be let through as the last of the half-open calls. -/
def TakesLastProbe (config : CircuitConfig) (entry : EndpointStats) (now : TimePoint) : Prop :=
  entry.state = .opened ∧ now - entry.openedAt ≥ toNanos config.cooldown
      ∧ config.halfOpenMax ≤ 1
    ∨ entry.state = .halfOpen ∧ entry.halfOpenCount < config.halfOpenMax
      ∧ config.halfOpenMax ≤ entry.halfOpenCount + 1

/-- An endpoint recovers unless its half-open calls are used up. -/
theorem recovers_iff (probes : 0 < config.halfOpenMax)
    : Recovers config entry ↔ ¬Exhausted config entry := by
  rcases state : entry.state with _ | _ | _
  · refine iff_of_true ⟨0, fun now _ => ?_⟩ fun exhausted => nomatch state.symm.trans exhausted.1
    simp only [allow, state]
  · refine iff_of_true ⟨toNanos config.cooldown, fun now later => ?_⟩
      fun exhausted => nomatch state.symm.trans exhausted.1
    simp only [allow, state, probe]
    rw [if_pos (Int.le_sub_left_of_add_le later), if_pos probes]
  · constructor
    · rintro ⟨wait, recovers⟩ ⟨-, usedUp⟩
      have allowed := recovers _ (Int.le_refl _)
      simp only [allow, state, probe, if_neg (UInt64.not_lt.mpr usedUp)] at allowed
      cases allowed
    · intro spare
      have room : entry.halfOpenCount < config.halfOpenMax :=
        UInt64.not_le.mp fun usedUp => spare ⟨state, usedUp⟩
      refine ⟨0, fun now _ => ?_⟩
      simp only [allow, state, probe, if_pos room]

/-- A call uses up the half-open calls when it is let through as the last, or they were used up. -/
theorem exhausted_allow (probes : 0 < config.halfOpenMax)
    : Exhausted config (allow config now entry).1
      ↔ TakesLastProbe config entry now ∨ Exhausted config entry := by
  rcases state : entry.state with _ | _ | _
  · simp [Exhausted, TakesLastProbe, allow, state]
  · by_cases cooled : now - entry.openedAt ≥ toNanos config.cooldown
    · simp [Exhausted, TakesLastProbe, allow, state, cooled, probe, probes]
    · simp [Exhausted, TakesLastProbe, allow, state, cooled]
  · by_cases room : entry.halfOpenCount < config.halfOpenMax
    · simp [Exhausted, TakesLastProbe, allow, state, room, probe, UInt64.not_le.mpr room]
    · simp [Exhausted, TakesLastProbe, allow, state, room, probe]

/-- A call that is refused leaves the endpoint as usable as it was. -/
theorem exhausted_refused (refused : (allow config now entry).2 = false)
    (probes : 0 < config.halfOpenMax)
    : Exhausted config (allow config now entry).1 ↔ Exhausted config entry := by
  rw [exhausted_allow probes, or_iff_right]
  rintro (⟨state, cooled, -⟩ | ⟨state, room, -⟩)
  · simp [allow, state, cooled, probe, probes] at refused
  · simp [allow, state, room, probe] at refused

theorem not_exhausted_recordSuccess (latencyUs : UInt64)
    : ¬Exhausted config (recordSuccess latencyUs entry) := by
  rintro ⟨state, -⟩
  simp only [recordSuccess] at state
  split at state
  · cases state
  · contradiction

theorem not_exhausted_recordFailure : ¬Exhausted config (recordFailure config now entry) := by
  rintro ⟨state, -⟩
  simp only [recordFailure] at state
  split at state
  · cases state
  · rename_i quiet
    exact quiet (.inl (by rw [state]; nofun))

end CircuitBreaker

namespace GuardedEndpoint

open CircuitBreaker

variable {config : CircuitConfig} {endpoint after last : GuardedEndpoint} {event : BreakerEvent}
  {outputs : List Bool} {history : List BreakerStage}

/-- With no call in flight that may still report, the endpoint recovers. -/
def RecoversIdle (config : CircuitConfig) (endpoint : GuardedEndpoint) : Prop :=
  endpoint.inFlight = 0 → Recovers config endpoint.entry

/-- The step loses the last of the half-open calls: a generic stream takes it while no hello call is in
flight, or the last hello call in flight ends unrecorded when they are used up.
-/
def LosesProbe (config : CircuitConfig) (stage : BreakerStage) : Prop :=
  match stage.event with
  | .beginStream now => stage.before.inFlight = 0 ∧ TakesLastProbe config stage.before.entry now
  | .endHello status _ _ =>
      stage.before.inFlight = 1 ∧ status.code ≠ 0 ∧ status.unrecorded = true
        ∧ Exhausted config stage.before.entry
  | _ => False

/-- A recorded outcome leaves no endpoint with its half-open calls used up. -/
theorem exhausted_recordOutcome {status : Status} {latencyUs : UInt64} {now : TimePoint}
    {entry : EndpointStats}
    : Exhausted config (recordOutcome config status latencyUs now entry)
      ↔ status.code ≠ 0 ∧ status.unrecorded = true ∧ Exhausted config entry := by
  rw [recordOutcome]
  split
  · rename_i fine
    exact iff_of_false (not_exhausted_recordSuccess _) fun unrecorded => unrecorded.1 fine
  · rename_i failed
    split
    · rename_i unrecorded
      exact ⟨fun exhausted => ⟨failed, unrecorded, exhausted⟩, fun both => both.2.2⟩
    · rename_i recorded
      exact iff_of_false not_exhausted_recordFailure fun unrecorded => recorded unrecorded.2.1

/-- An idle endpoint goes on recovering exactly when no half-open call is lost. -/
theorem step_recovers_iff (probes : 0 < config.halfOpenMax)
    (recovers : RecoversIdle config endpoint) (possible : Possible history endpoint event)
    (taken : step config endpoint event = .ok (after, outputs))
    : RecoversIdle config after
      ↔ ¬LosesProbe config { before := endpoint, event := event, outputs := outputs } := by
  rw [RecoversIdle, recovers_iff probes] at recovers ⊢
  cases event with
  | beginHello now =>
      have asked := @exhausted_refused config endpoint.entry now
      rcases answer : allow config now endpoint.entry with ⟨entry, _ | _⟩
      · rw [answer] at asked
        rw [step, answer] at taken
        cases taken
        exact iff_of_true (fun idle => mt (asked rfl probes).mp (recovers idle)) id
      · rw [step, answer] at taken
        cases taken
        exact iff_of_true nofun id
  | endHello status latencyUs now =>
      cases taken
      have busy : 0 < endpoint.inFlight := possible
      show (endpoint.inFlight - 1 = 0 → ¬Exhausted config _)
        ↔ ¬(endpoint.inFlight = 1 ∧ status.code ≠ 0 ∧ status.unrecorded = true
          ∧ Exhausted config endpoint.entry)
      rw [exhausted_recordOutcome, ← not_and,
        show endpoint.inFlight - 1 = 0 ↔ endpoint.inFlight = 1 by omega]
  | beginStream now =>
      have asked := @exhausted_allow config endpoint.entry now probes
      rcases answer : allow config now endpoint.entry with ⟨entry, allowed⟩
      rw [answer] at asked
      rw [step, answer] at taken
      cases taken
      show (endpoint.inFlight = 0 → ¬Exhausted config entry)
        ↔ ¬(endpoint.inFlight = 0 ∧ TakesLastProbe config endpoint.entry now)
      rw [asked, not_and]
      exact forall_congr' fun idle => not_congr (or_iff_left (recovers idle))
  | reset =>
      cases taken
      exact iff_of_true (fun _ exhausted => nomatch exhausted.1) id

/-- In every run the endpoint recovers whenever no call is in flight exactly as long as no half-open call
is lost.
-/
theorem recovers_iff_keepsProbes (probes : 0 < config.halfOpenMax)
    (run : Run (step config) Possible {} history last)
    : Throughout (fun _ endpoint => RecoversIdle config endpoint) history last
      ↔ ∀ stage ∈ history, ¬LosesProbe config stage :=
  run.throughout_iff (fun _ => (recovers_iff probes).mpr fun exhausted => absurd exhausted.1 (by decide))
    fun _ _ _ _ _ _ recovers possible taken => step_recovers_iff probes recovers possible taken

/-- Five hello calls fail at once, and a generic stream is the first call after the cooldown. -/
def lostProbe : List BreakerEvent :=
  (List.replicate 5 [.beginHello 0, .endHello { code := 13 } 0 0]).flatten
    ++ [.beginStream 30000000000]

/-- Whether a hello call that ends has been let through. -/
def isPossible (endpoint : GuardedEndpoint) : BreakerEvent → Bool
  | .endHello .. => 0 < endpoint.inFlight
  | _ => true

theorem possible_of_isPossible (history : List BreakerStage)
    (checked : isPossible endpoint event = true)
    : Possible history endpoint event := by
  cases event with
  | endHello status latencyUs now => exact (of_decide_eq_true checked : 0 < endpoint.inFlight)
  | beginHello now => trivial
  | beginStream now => trivial
  | reset => trivial

theorem lostProbe_run
    : ∃ history last, Run (step {}) Possible {} history last
      ∧ last.inFlight = 0 ∧ last.entry.state = .halfOpen ∧ last.entry.halfOpenCount = 1 := by
  have executed := Run.extend .start (rfl : execute (step {}) {} lostProbe = _)
  have run := @Run.of_audit _ _ _ _ _ Possible _ _ _ (fun _ => isPossible) executed
    (fun history _ _ => possible_of_isPossible history) (by decide)
  exact ⟨_, _, run, rfl, by decide, by decide⟩

theorem recovers_iff_keepsProbes_lostProbe
    : ∃ history last, last.entry.halfOpenCount = 1
      ∧ (Throughout (fun _ endpoint => RecoversIdle {} endpoint) history last
        ↔ ∀ stage ∈ history, ¬LosesProbe {} stage) := by
  obtain ⟨history, last, run, -, -, count⟩ := lostProbe_run
  exact ⟨history, last, count, recovers_iff_keepsProbes (by decide) run⟩

/-- Nobody records the outcome of the stream, so every later call is refused. -/
theorem shut_out
    : ∃ history last, Run (step {}) Possible {} history last
      ∧ ¬Throughout (fun _ endpoint => RecoversIdle {} endpoint) history last := by
  obtain ⟨history, last, run, idle, state, count⟩ := lostProbe_run
  refine ⟨history, last, run, fun recovers => ?_⟩
  have exhausted : Exhausted {} last.entry := ⟨state, by rw [count]; decide⟩
  exact (recovers_iff (by decide)).mp (recovers.2 idle) exhausted

end GuardedEndpoint

end Creek.Leaf
