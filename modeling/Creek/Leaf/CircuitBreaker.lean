import Creek.Leaf.IngressStream
import Creek.Library.CheckedAccess
import Creek.Library.Durations
import Creek.Library.Runs
import Creek.Tight.Bandwidth

/-! The circuit breaker of one endpoint with the callers of a leaf: hello calls, which ask and report
their outcome, and generic streams, which only ask.
-/

namespace Creek.Leaf

open Tight (TimePoint double)

inductive CircuitState where
  | closed
  | opened
  | halfOpen
  deriving DecidableEq, Repr

/-- The `cooldown` is in milliseconds. -/
structure CircuitConfig where
  cooldown : Int := 30000
  latencyThresholdUs : UInt64 := 500000
  errorRateThreshold : ℚ := 1 / 2
  consecutiveFailureThreshold : UInt64 := 5
  minSamples : UInt64 := 10
  halfOpenMax : UInt64 := 1

/-- The error rate is a quotient of doubles; by zero it is infinite, or for no errors not a number. -/
def CircuitConfig.errorRateReached (config : CircuitConfig) (errors totalCalls : UInt64) : Bool :=
  if totalCalls = 0 then 0 < errors
  else config.errorRateThreshold ≤ double (double errors.toNat / double totalCalls.toNat)

structure EndpointStats where
  totalCalls : UInt64 := 0
  errors : UInt64 := 0
  latencySumUs : UInt64 := 0
  consecutiveFailures : UInt64 := 0
  openedAt : TimePoint := 0
  lastCall : TimePoint := 0
  state : CircuitState := .closed
  halfOpenCount : UInt64 := 0
  deriving DecidableEq, Repr

namespace CircuitBreaker

/-- A half-open endpoint lets a limited number of calls through. -/
def probe (config : CircuitConfig) (ep : EndpointStats) : EndpointStats × Bool :=
  if ep.halfOpenCount < config.halfOpenMax then
    ({ ep with halfOpenCount := ep.halfOpenCount + 1 }, true)
  else
    (ep, false)

/-- Whether a call may go through. -/
def allow (config : CircuitConfig) (now : TimePoint) (ep : EndpointStats) : EndpointStats × Bool :=
  let ep := { ep with lastCall := now }
  match ep.state with
  | .closed => (ep, true)
  | .opened =>
      if now - ep.openedAt ≥ Library.toNanos config.cooldown then
        probe config { ep with state := .halfOpen, halfOpenCount := 0 }
      else
        (ep, false)
  | .halfOpen => probe config ep

def recordSuccess (latencyUs : UInt64) (ep : EndpointStats) : EndpointStats :=
  {
    ep with
    totalCalls := ep.totalCalls + 1
    latencySumUs := ep.latencySumUs + latencyUs
    consecutiveFailures := 0
    state := if ep.state = .halfOpen then .closed else ep.state
  }

/-- Whether a failure opens a closed endpoint: too many in a row, or among enough calls too many errors
or too much latency.
-/
def trips (config : CircuitConfig) (ep : EndpointStats) : Bool :=
  ep.consecutiveFailures ≥ config.consecutiveFailureThreshold
  || ep.totalCalls ≥ config.minSamples
    && (config.errorRateReached ep.errors ep.totalCalls
      || ep.totalCalls > 0 && ep.latencySumUs / ep.totalCalls ≥ config.latencyThresholdUs)

def recordFailure (config : CircuitConfig) (now : TimePoint) (ep : EndpointStats) : EndpointStats :=
  let ep :=
    {
      ep with
      totalCalls := ep.totalCalls + 1
      errors := ep.errors + 1
      consecutiveFailures := ep.consecutiveFailures + 1
      lastCall := now
    }
  if ep.state ≠ .closed ∨ trips config ep then { ep with state := .opened, openedAt := now }
  else ep

end CircuitBreaker

/-- The errors of a hello call that say nothing about the backend are not recorded. -/
def Status.unrecorded (status : Status) : Bool :=
  status.code = Status.unavailable
  && (status.message = "no_endpoint".toUTF8.toList
    || status.message = "no_backend".toUTF8.toList
    || status.message = "leaf_not_found".toUTF8.toList
    || status.message = "circuit_open".toUTF8.toList)

/-- An endpoint's entry, and how many hello calls it has let through that have not ended yet. -/
structure GuardedEndpoint where
  entry : EndpointStats := {}
  inFlight : Nat := 0
  deriving DecidableEq, Repr

/-- What happens around the entry: a hello call asks, a hello call ends, a generic stream asks, and an
operator resets the entry.
-/
inductive BreakerEvent where
  | beginHello (now : TimePoint)
  | endHello (status : Status) (latencyUs : UInt64) (now : TimePoint)
  | beginStream (now : TimePoint)
  | reset

namespace GuardedEndpoint

/-- What a hello call that was let through records when it ends. -/
def recordOutcome (config : CircuitConfig) (status : Status) (latencyUs : UInt64) (now : TimePoint)
    (entry : EndpointStats)
    : EndpointStats :=
  if status.code = 0 then CircuitBreaker.recordSuccess latencyUs entry
  else if status.unrecorded then entry
  else CircuitBreaker.recordFailure config now entry

/-- One event; the calls that ask put out the answer. -/
def step (config : CircuitConfig) (endpoint : GuardedEndpoint)
    : BreakerEvent → Except Library.Fault (GuardedEndpoint × List Bool)
  | .beginHello now =>
      let (entry, allowed) := CircuitBreaker.allow config now endpoint.entry
      .ok
        (
          {
            entry := entry
            inFlight := if allowed then endpoint.inFlight + 1 else endpoint.inFlight
          },
          [allowed]
        )
  | .endHello status latencyUs now =>
      .ok
        (
          {
            entry := recordOutcome config status latencyUs now endpoint.entry
            inFlight := endpoint.inFlight - 1
          },
          []
        )
  | .beginStream now =>
      let (entry, allowed) := CircuitBreaker.allow config now endpoint.entry
      .ok ({ endpoint with entry := entry }, [allowed])
  | .reset => .ok ({ endpoint with entry := {} }, [])

end GuardedEndpoint

/-- A call of the breaker about one endpoint. -/
inductive BreakerCall where
  | allow (now : TimePoint)
  | recordSuccess (latencyUs : UInt64)
  | recordFailure (now : TimePoint)
  | reset

/-- One call; a call that asks puts out the answer. -/
def CircuitBreaker.step (config : CircuitConfig) (ep : EndpointStats)
    : BreakerCall → Except Library.Fault (EndpointStats × List Bool)
  | .allow now =>
      let (ep, allowed) := allow config now ep
      .ok (ep, [allowed])
  | .recordSuccess latencyUs => .ok (recordSuccess latencyUs ep, [])
  | .recordFailure now => .ok (recordFailure config now ep, [])
  | .reset => .ok ({}, [])

abbrev BreakerStage := Library.Stage GuardedEndpoint BreakerEvent Bool

abbrev CallStage := Library.Stage EndpointStats BreakerCall Bool

/-- Only a hello call that was let through ends. -/
def Possible (_ : List BreakerStage) (endpoint : GuardedEndpoint) : BreakerEvent → Prop
  | .endHello .. => 0 < endpoint.inFlight
  | _ => True

end Creek.Leaf
