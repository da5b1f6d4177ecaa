import Creek.Library.Durations
import Creek.Library.Runs
import Creek.Telemetry.Metrics

/-! The store of the metrics with its readers, and the exporters that take from it.
The clock may show any time at each call. What the network does to an export is given with the call.
-/

namespace Creek.Telemetry

open Library (ascii toNanos)
open Tight (Bytes TimePoint)

-- The store

/-- The period is in milliseconds. -/
structure MetricsStore where
  period : Int := 60000
  periodStart : TimePoint := 0
  current : MetricMap := ∅
  previous : MetricMap := ∅
  cumulative : MetricMap := ∅

/-- A point of `MetricReply`. -/
structure MetricPoint where
  labels : MetricLabels
  value : MetricValue
  deriving DecidableEq, Repr

namespace MetricsStore

/-- The period is over, by its nanoseconds in 64 bits. -/
def Expired (now : TimePoint) (store : MetricsStore) : Prop :=
  0 < store.period ∧ toNanos store.period ≤ now - store.periodStart

instance {now : TimePoint} {store : MetricsStore} : Decidable (store.Expired now) :=
  inferInstanceAs (Decidable (_ ∧ _))

def rotateLocked (now : TimePoint) (store : MetricsStore) : MetricsStore :=
  if store.Expired now then
    { store with previous := store.current, current := ∅, periodStart := now }
  else store

def record (event : MetricEvent) (now : TimePoint) (store : MetricsStore) : MetricsStore :=
  let store := store.rotateLocked now
  { store with current := bookIn store.current event, cumulative := bookIn store.cumulative event }

/-- `previous`. -/
def readPrevious (now : TimePoint) (store : MetricsStore) : MetricsStore × MetricMap :=
  let store := store.rotateLocked now
  (store, store.previous)

/-- `current`. -/
def readCurrent (now : TimePoint) (store : MetricsStore) : MetricsStore × MetricMap :=
  let store := store.rotateLocked now
  (store, store.current)

def take (now : TimePoint) (store : MetricsStore) : MetricsStore × MetricMap :=
  let store := store.rotateLocked now
  ({ store with cumulative := ∅ }, store.cumulative)

/-- The buckets that `protobuf_snapshot` and `json` show. -/
def choose (previousMinute takeValues : Bool) (now : TimePoint) (store : MetricsStore)
    : MetricsStore × MetricMap :=
  let store := store.rotateLocked now
  if previousMinute then (store, store.previous)
  else if takeValues then ({ store with cumulative := ∅ }, store.cumulative)
  else (store, store.current)

def protobufSnapshot (previousMinute takeValues : Bool) (now : TimePoint) (store : MetricsStore)
    : MetricsStore × List MetricPoint :=
  let (store, data) := store.choose previousMinute takeValues now
  (store, data.toList.map fun (key, value) => { labels := splitKey key, value })

def json (previousMinute takeValues : Bool) (now : TimePoint) (store : MetricsStore)
    : MetricsStore × Bytes :=
  let (store, data) := store.choose previousMinute takeValues now
  (store, jsonText data)

def openmetrics (now : TimePoint) (store : MetricsStore) : MetricsStore × Bytes :=
  let store := store.rotateLocked now
  (store, openmetricsText store.current)

end MetricsStore

-- The exporter

structure Address where
  host : Bytes
  port : UInt16
  deriving DecidableEq, Repr

/-- The host and the port around the last colon. -/
def parseAddress (value : Bytes) : Option Address :=
  let backwards := value.reverse
  let portStr := (backwards.takeWhile (· != letter ':')).reverse
  match backwards.dropWhile (· != letter ':') with
  | [] => none
  | _ :: hostBackwards =>
      let host := hostBackwards.reverse
      if host.isEmpty || portStr.isEmpty then none
      else
        let host :=
          if 2 ≤ host.length && host.head? = some (letter '[') && host.getLast? = some (letter ']')
          then host.tail.dropLast
          else host
        match Library.stoul portStr with
        | some (port, []) =>
            if port = 0 ∨ 65535 < port then none else some { host, port := port.toUInt16 }
        | _ => none

/-- What happens to a request: whether the host is found and connected to, whether everything is sent,
and what comes back first.
-/
structure Network where
  startup : Bool := true
  resolved : Bool := true
  connected : Bool := true
  sent : Bool := true
  response : Bytes := ascii "HTTP/1.1 200 OK"

def httpPost (network : Network) : Bool :=
  network.resolved && network.connected && network.sent
    && (List.isPrefixOf (ascii "HTTP/1.1 2") network.response
      || List.isPrefixOf (ascii "HTTP/1.0 2") network.response)

structure OtlpExporter where
  collectorAddr : Bytes
  serviceName : Bytes
  stopped : Bool := false
  wsaInitialized : Bool := false
  deriving DecidableEq, Repr

/-- What an export tells its caller, with the buckets it has taken and the body it has posted. -/
structure Export where
  result : Bool
  data : MetricMap := ∅
  body : Option Bytes := none

namespace OtlpExporter

def exportMetrics (network : Network) (systemNow : Int) (now : TimePoint) (store : MetricsStore)
    (exporter : OtlpExporter)
    : OtlpExporter × MetricsStore × Export :=
  if exporter.stopped then (exporter, store, { result := false })
  else if !exporter.wsaInitialized && !network.startup then (exporter, store, { result := false })
  else
    let exporter := { exporter with wsaInitialized := true }
    let (store, data) := store.take now
    if data.isEmpty then (exporter, store, { result := true, data })
    else
      let body := buildOtlpJson systemNow data exporter.serviceName
      match parseAddress exporter.collectorAddr with
      | none => (exporter, store, { result := false, data })
      | some _ => (exporter, store, { result := httpPost network, data, body })

def stop (exporter : OtlpExporter) : OtlpExporter :=
  if exporter.stopped then exporter else { exporter with stopped := true, wsaInitialized := false }

end OtlpExporter

-- One store with its callers

/-- The store and the exporters. -/
structure Monitor where
  store : MetricsStore := {}
  exporters : List OtlpExporter := []

/-- A call, and the time of the steady clock in it. -/
inductive MetricsEvent where
  | record (event : MetricEvent) (now : TimePoint)
  | previous (now : TimePoint)
  | current (now : TimePoint)
  | take (now : TimePoint)
  | protobufSnapshot (previousMinute takeValues : Bool) (now : TimePoint)
  | json (previousMinute takeValues : Bool) (now : TimePoint)
  | openmetrics (now : TimePoint)
  | exportMetrics (exporter : Nat) (network : Network) (systemNow : Int) (now : TimePoint)
  | stop (exporter : Nat)

/-- What a call returns. -/
inductive MetricsOutput where
  | buckets (data : MetricMap)
  | points (points : List MetricPoint)
  | text (text : Bytes)
  | exported (result : Export)

/-- There is no such exporter. -/
inductive NoExporter where
  | noExporter
  deriving DecidableEq, Repr

namespace Monitor

/-- One call. -/
def step (monitor : Monitor) (event : MetricsEvent)
    : Except NoExporter (Monitor × List MetricsOutput) :=
  match event with
  | .record event now =>
      .ok ({ monitor with store := monitor.store.record event now }, [])
  | .previous now =>
      let (store, data) := monitor.store.readPrevious now
      .ok ({ monitor with store }, [.buckets data])
  | .current now =>
      let (store, data) := monitor.store.readCurrent now
      .ok ({ monitor with store }, [.buckets data])
  | .take now =>
      let (store, data) := monitor.store.take now
      .ok ({ monitor with store }, [.buckets data])
  | .protobufSnapshot previousMinute takeValues now =>
      let (store, points) := monitor.store.protobufSnapshot previousMinute takeValues now
      .ok ({ monitor with store }, [.points points])
  | .json previousMinute takeValues now =>
      let (store, text) := monitor.store.json previousMinute takeValues now
      .ok ({ monitor with store }, [.text text])
  | .openmetrics now =>
      let (store, text) := monitor.store.openmetrics now
      .ok ({ monitor with store }, [.text text])
  | .exportMetrics index network systemNow now =>
      match monitor.exporters[index]? with
      | none => .error .noExporter
      | some exporter =>
          let (exporter, store, result) :=
            exporter.exportMetrics network systemNow now monitor.store
          .ok ({ store, exporters := monitor.exporters.set index exporter }, [.exported result])
  | .stop index =>
      match monitor.exporters[index]? with
      | none => .error .noExporter
      | some exporter =>
          .ok ({ monitor with exporters := monitor.exporters.set index exporter.stop }, [])

abbrev MetricsStage := Library.Stage Monitor MetricsEvent MetricsOutput

end Monitor

end Creek.Telemetry
