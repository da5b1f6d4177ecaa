import Creek.Library.Lookups
import Creek.Proofs.Telemetry.MetricKeys

/-! The store as three lists of events: those of the present period, those of the one before, and those
since the last take. Each map of the store holds the sums of one of them.
-/

namespace Creek.Telemetry

open Library
open Tight (Bytes TimePoint)

-- What a call does to the store

inductive StoreEffect where
  | record (event : MetricEvent) (now : TimePoint)
  | rotate (now : TimePoint)
  | take (now : TimePoint)
  | nothing

/-- The exporter gets as far as taking from the store. -/
def OtlpExporter.Takes (network : Network) (exporter : OtlpExporter) : Prop :=
  exporter.stopped = false ∧ (exporter.wsaInitialized = true ∨ network.startup = true)

instance {network : Network} {exporter : OtlpExporter} : Decidable (exporter.Takes network) :=
  inferInstanceAs (Decidable (_ ∧ _))

/-- What a call does to the store. -/
def Monitor.effect (monitor : Monitor) : MetricsEvent → StoreEffect
  | .record event now => .record event now
  | .previous now => .rotate now
  | .current now => .rotate now
  | .take now => .take now
  | .protobufSnapshot previousMinute takeValues now =>
      if !previousMinute && takeValues then .take now else .rotate now
  | .json previousMinute takeValues now =>
      if !previousMinute && takeValues then .take now else .rotate now
  | .openmetrics now => .rotate now
  | .exportMetrics index network _ now =>
      match monitor.exporters[index]? with
      | some exporter => if exporter.Takes network then .take now else .nothing
      | none => .nothing
  | .stop _ => .nothing

def MetricsStore.affect (store : MetricsStore) : StoreEffect → MetricsStore
  | .record event now => store.record event now
  | .rotate now => store.rotateLocked now
  | .take now => (store.take now).1
  | .nothing => store

theorem OtlpExporter.exportMetrics_cases (network : Network) (systemNow : Int) (now : TimePoint)
    (store : MetricsStore) (exporter : OtlpExporter)
    : (¬exporter.Takes network
        ∧ (exporter.exportMetrics network systemNow now store).2 = (store, { result := false }))
      ∨ (exporter.Takes network
        ∧ (exporter.exportMetrics network systemNow now store).2.1 = (store.take now).1
        ∧ (exporter.exportMetrics network systemNow now store).2.2.data = (store.take now).2
        ∧ ((exporter.exportMetrics network systemNow now store).2.2.result = true
          ↔ (store.take now).2.isEmpty = true
            ∨ (parseAddress exporter.collectorAddr).isSome = true ∧ httpPost network = true)) := by
  unfold exportMetrics
  by_cases stopped : exporter.stopped = true
  · rw [if_pos stopped]
    exact .inl ⟨fun takes => Bool.false_ne_true (takes.1.symm.trans stopped), rfl⟩
  · rw [if_neg stopped]
    by_cases down : (!exporter.wsaInitialized && !network.startup) = true
    · rw [if_pos down]
      refine .inl ⟨fun takes => ?_, rfl⟩
      simp only [Bool.and_eq_true, Bool.not_eq_true'] at down
      rcases takes.2 with up | up
      · cases down.1.symm.trans up
      · cases down.2.symm.trans up
    · rw [if_neg down]
      have takes : exporter.Takes network := by
        refine ⟨Bool.eq_false_iff.mpr stopped, ?_⟩
        rw [Bool.and_eq_true, not_and_or] at down
        simpa using down
      refine .inr ⟨takes, ?_⟩
      dsimp only
      by_cases empty : (store.take now).2.isEmpty = true
      · rw [if_pos empty]
        exact ⟨rfl, rfl, iff_of_true rfl (.inl empty)⟩
      · rw [if_neg empty]
        rcases parseAddress exporter.collectorAddr with - | address
        · refine ⟨rfl, rfl, iff_of_false Bool.false_ne_true ?_⟩
          rintro (none | ⟨found, -⟩)
          · exact empty none
          · cases found
        · exact ⟨rfl, rfl, fun sent => .inr ⟨rfl, sent⟩, fun sent => sent.elim (absurd · empty) (·.2)⟩

theorem Monitor.step_store {monitor after : Monitor} {event : MetricsEvent}
    {outputs : List MetricsOutput} (taken : monitor.step event = .ok (after, outputs))
    : after.store = monitor.store.affect (monitor.effect event) := by
  have chosen (previousMinute takeValues : Bool) (now : TimePoint)
      : (monitor.store.choose previousMinute takeValues now).1 = monitor.store.affect
          (if !previousMinute && takeValues then .take now else .rotate now) := by
    cases previousMinute <;> cases takeValues <;> rfl
  cases event with
  | record event now => cases taken; rfl
  | previous now => cases taken; rfl
  | current now => cases taken; rfl
  | take now => cases taken; rfl
  | openmetrics now => cases taken; rfl
  | protobufSnapshot previousMinute takeValues now => cases taken; exact chosen _ _ now
  | json previousMinute takeValues now => cases taken; exact chosen _ _ now
  | exportMetrics index network systemNow now =>
      simp only [step, effect] at taken ⊢
      split at taken
      · cases taken
      · rename_i exporter found
        cases taken
        rw [found]
        dsimp only
        rcases exporter.exportMetrics_cases network systemNow now monitor.store with
          ⟨idle, same⟩ | ⟨takes, same, -⟩
        · rw [if_neg idle]
          exact congrArg Prod.fst same
        · rw [if_pos takes]
          exact same
  | stop index =>
      simp only [step] at taken
      split at taken
      · cases taken
      · cases taken
        rfl

-- A store of events

/-- The store with the events themselves in place of their sums. -/
structure EventStore where
  period : Int
  periodStart : TimePoint
  current : List MetricEvent := []
  previous : List MetricEvent := []
  cumulative : List MetricEvent := []

/-- The maps of the store. -/
inductive Window where
  | current
  | previous
  | cumulative

def MetricsStore.book (store : MetricsStore) : Window → MetricMap
  | .current => store.current
  | .previous => store.previous
  | .cumulative => store.cumulative

/-- The buckets of some events. -/
def booked (events : List MetricEvent) : MetricMap := events.foldl bookIn ∅

namespace EventStore

def events (store : EventStore) : Window → List MetricEvent
  | .current => store.current
  | .previous => store.previous
  | .cumulative => store.cumulative

/-- The store that has only the sums. -/
def sums (store : EventStore) : MetricsStore where
  period := store.period
  periodStart := store.periodStart
  current := booked store.current
  previous := booked store.previous
  cumulative := booked store.cumulative

def rotate (now : TimePoint) (store : EventStore) : EventStore :=
  if store.sums.Expired now then
    { store with previous := store.current, current := [], periodStart := now }
  else store

def affect (store : EventStore) : StoreEffect → EventStore
  | .record event now =>
      let store := store.rotate now
      { store with current := store.current ++ [event], cumulative := store.cumulative ++ [event] }
  | .rotate now => store.rotate now
  | .take now => { store.rotate now with cumulative := [] }
  | .nothing => store

theorem sums_rotate (now : TimePoint) (store : EventStore)
    : (store.rotate now).sums = store.sums.rotateLocked now := by
  unfold rotate MetricsStore.rotateLocked
  split
  · rfl
  · rfl

theorem sums_affect (store : EventStore) (effect : StoreEffect)
    : (store.affect effect).sums = store.sums.affect effect := by
  cases effect with
  | record event now =>
      simp only [affect, MetricsStore.affect, MetricsStore.record, ← sums_rotate]
      simp only [sums, booked, List.foldl_append, List.foldl_cons, List.foldl_nil]
  | rotate now => exact sums_rotate now store
  | take now =>
      simp only [affect, MetricsStore.affect, MetricsStore.take, ← sums_rotate]
      rfl
  | nothing => rfl

/-- The events behind a store that starts empty. -/
def after (store : EventStore) (history : List Monitor.MetricsStage) : EventStore :=
  history.foldl (fun store stage => store.affect (stage.before.effect stage.event)) store

theorem after_append (store : EventStore) (history : List Monitor.MetricsStage)
    (stage : Monitor.MetricsStage)
    : store.after (history ++ [stage])
      = (store.after history).affect (stage.before.effect stage.event) := by
  rw [after, List.foldl_append]
  rfl

theorem sums_after {allowed : List Monitor.MetricsStage → Monitor → MetricsEvent → Prop}
    {start last : Monitor} {history : List Monitor.MetricsStage} {store : EventStore}
    (begins : store.sums = start.store) (run : Run Monitor.step allowed start history last)
    : (store.after history).sums = last.store := by
  induction run with
  | start => exact begins
  | next run permitted taken ih => rw [after_append, sums_affect, ih, Monitor.step_store taken]

end EventStore

-- The sums in a bucket

/-- The sums of some events, in 64 bits; nothing if there are none. -/
def total (events : List MetricEvent) : Option MetricValue :=
  if events.isEmpty then none
  else
    some {
      calls := .ofNat events.length
      errors := .ofNat (events.countP fun event => !event.success)
      bytes := (events.map (·.bytes)).sum
      latencyUs := (events.map (·.latencyUs)).sum
    }

theorem total_append (events : List MetricEvent) (event : MetricEvent)
    : total (events ++ [event]) = some (((total events).getD {}).add event) := by
  have value : (total events).getD {} = {
      calls := .ofNat events.length
      errors := .ofNat (events.countP fun event => !event.success)
      bytes := (events.map (·.bytes)).sum
      latencyUs := (events.map (·.latencyUs)).sum
    } := by
    cases events with
    | nil => rfl
    | cons first rest => rfl
  rw [value, total, if_neg (by simp)]
  cases success : event.success <;> simp [MetricValue.add, List.countP_append, success]

theorem getElem?_booked (events : List MetricEvent) (bucket : Bytes)
    : (booked events)[bucket]? = total (events.filter fun event => key event = bucket) := by
  induction events using List.reverseRecOn with
  | nil => rfl
  | append_singleton events event ih =>
      have step : booked (events ++ [event]) = bookIn (booked events) event := by
        rw [booked, List.foldl_append]
        rfl
      rw [step, List.filter_append, bookIn]
      by_cases same : key event = bucket
      · rw [same, Std.TreeMap.getElem?_insert_self, Std.TreeMap.getD_eq_getD_getElem?, ih]
        simp only [List.filter_cons, same, decide_true, if_true, List.filter_nil, total_append]
      · rw [getElem?_insert_ne _ _ same, ih]
        simp only [List.filter_cons, same, decide_false, Bool.false_eq_true, if_false,
          List.filter_nil, List.append_nil]

/-- The buckets are those of events. -/
def OfEvents (data : MetricMap) : Prop :=
  ∀ (bucket : Bytes) (sums : MetricValue), data[bucket]? = some sums → ∃ event, key event = bucket

theorem OfEvents.booked (events : List MetricEvent) : OfEvents (booked events) := by
  intro bucket sums stored
  rw [getElem?_booked] at stored
  rcases kept : events.filter (fun event => key event = bucket) with - | ⟨event, rest⟩
  · rw [kept] at stored
    cases stored
  · have member : event ∈ events.filter fun event => key event = bucket :=
      kept ▸ List.mem_cons_self
    exact ⟨event, of_decide_eq_true (List.mem_filter.mp member).2⟩

-- What the readers show

/-- The points that the buckets of a map are shown as. -/
def points (data : MetricMap) : List MetricPoint :=
  data.toList.map fun (key, value) => { labels := splitKey key, value }

/-- What a reader returns for the map that it shows. -/
def MetricsEvent.report (data : MetricMap) : MetricsEvent → List MetricsOutput
  | .protobufSnapshot .. => [.points (points data)]
  | .json .. => [.text (jsonText data)]
  | .openmetrics _ => [.text (openmetricsText data)]
  | _ => []

/-- The map that a reader shows, and when. -/
def MetricsEvent.shown : MetricsEvent → Option (Window × TimePoint)
  | .protobufSnapshot previousMinute takeValues now | .json previousMinute takeValues now =>
      some (if previousMinute then .previous else if takeValues then .cumulative else .current, now)
  | .openmetrics now => some (.current, now)
  | _ => none

theorem Monitor.step_report {monitor after : Monitor} {reader : MetricsEvent}
    {outputs : List MetricsOutput} {window : Window} {now : TimePoint}
    (taken : monitor.step reader = .ok (after, outputs)) (reads : reader.shown = some (window, now))
    : outputs = reader.report ((monitor.store.rotateLocked now).book window) := by
  cases reader with
  | protobufSnapshot previousMinute takeValues now =>
      cases reads
      cases taken
      cases previousMinute <;> cases takeValues <;> rfl
  | json previousMinute takeValues now =>
      cases reads
      cases taken
      cases previousMinute <;> cases takeValues <;> rfl
  | openmetrics now =>
      cases reads
      cases taken
      rfl
  | _ => cases reads

/-- The bucket of an event with labels of its own has the sums of the events like it. -/
theorem Unmistakable.booked {event : MetricEvent} (unmistakable : Unmistakable event)
    (events : List MetricEvent)
    : (booked events)[key event]?
      = total (events.filter fun other => other.identity = event.identity) := by
  rw [getElem?_booked]
  congr 1
  refine List.filter_congr fun other _ => ?_
  exact decide_eq_decide.mpr unmistakable.key_iff

theorem Unmistakable.mem_points {event : MetricEvent} (unmistakable : Unmistakable event)
    (events : List MetricEvent) (value : MetricValue)
    : { labels := event.labels, value } ∈ points (Telemetry.booked events)
      ↔ total (events.filter fun other => other.identity = event.identity) = some value := by
  have labelled := splitKey_key_iff.mpr ⟨unmistakable.direction, unmistakable.rpcName⟩
  rw [← unmistakable.booked]
  constructor
  · intro member
    obtain ⟨⟨bucket, sums⟩, stored, same⟩ := List.mem_map.mp member
    obtain ⟨labels, rfl⟩ := MetricPoint.mk.inj same
    have found := Std.TreeMap.mem_toList_iff_getElem?_eq_some.mp stored
    obtain ⟨other, rfl⟩ := OfEvents.booked events bucket sums found
    rw [← key_of_splitKey (labels.trans labelled.symm)]
    exact found
  · intro found
    refine List.mem_map.mpr ⟨(key event, value), ?_, congrArg (MetricPoint.mk · value) labelled⟩
    exact Std.TreeMap.mem_toList_iff_getElem?_eq_some.mpr found

-- Buckets of their own

/-- A store with a period, and exporters. -/
def Monitor.begun (period : Int) (periodStart : TimePoint) (exporters : List OtlpExporter) : Monitor where
  store := { period, periodStart }
  exporters := exporters

/-- The events that a run has booked in a map of the store. -/
def windowEvents (period : Int) (periodStart : TimePoint) (history : List Monitor.MetricsStage)
    (window : Window)
    : List MetricEvent :=
  (EventStore.after { period, periodStart } history).events window

theorem EventStore.book_sums (store : EventStore) (window : Window)
    : store.sums.book window = booked (store.events window) := by
  cases window with
  | current => rfl
  | previous => rfl
  | cumulative => rfl

/-- The maps of the store have the sums of the events behind them. -/
theorem book_eq_booked {period : Int} {periodStart : TimePoint} {exporters : List OtlpExporter}
    {allowed : List Monitor.MetricsStage → Monitor → MetricsEvent → Prop}
    {history : List Monitor.MetricsStage} {last : Monitor}
    (run : Run Monitor.step allowed (.begun period periodStart exporters) history last)
    (window : Window)
    : last.store.book window = booked (windowEvents period periodStart history window) := by
  have sums : (EventStore.after { period, periodStart } history).sums = last.store :=
    EventStore.sums_after rfl run
  rw [← sums]
  exact EventStore.book_sums _ window

/-- The bucket of an event is that of no other, is shown with its labels, and has the sums of the events
like it in every map of the store, all the time. So has the point with its labels in what any of the
readers returns.
-/
structure Unmixed (event : MetricEvent) : Prop where
  separate : ∀ other : MetricEvent, other.identity ≠ event.identity → key other ≠ key event
  shown : splitKey (key event) = event.labels
  exact : ∀ (period : Int) (periodStart : TimePoint) (exporters : List OtlpExporter)
    (history : List Monitor.MetricsStage) (last : Monitor) (window : Window),
    Run Monitor.step (fun _ _ _ => True) (.begun period periodStart exporters) history last
    → (last.store.book window)[key event]?
      = total ((windowEvents period periodStart history window).filter
        fun other => other.identity = event.identity)
  reported : ∀ (period : Int) (periodStart : TimePoint) (exporters : List OtlpExporter)
    (history : List Monitor.MetricsStage) (last after : Monitor) (reader : MetricsEvent)
    (outputs : List MetricsOutput) (window : Window) (now : TimePoint),
    Run Monitor.step (fun _ _ _ => True) (.begun period periodStart exporters) history last
    → last.step reader = .ok (after, outputs)
    → reader.shown = some (window, now)
    → ∃ data, outputs = reader.report data
      ∧ ∀ value, { labels := event.labels, value } ∈ points data
        ↔ total ((((EventStore.after { period, periodStart } history).rotate now).events window).filter
          fun other => other.identity = event.identity) = some value

/-- Events keep their buckets to themselves exactly when their labels can be read in one way only. -/
theorem unmixed_iff (event : MetricEvent) : Unmixed event ↔ Unmistakable event := by
  constructor
  · intro unmixed
    obtain ⟨direction, rpcName⟩ := splitKey_key_iff.mp unmixed.shown
    refine ⟨direction, rpcName, ?_⟩
    by_contra mixed
    obtain ⟨other, differs, same⟩ := exists_mistaken mixed
    exact unmixed.separate other differs same
  · intro unmistakable
    refine ⟨fun other differs same => differs (unmistakable.key_iff.mp same),
      splitKey_key_iff.mpr ⟨unmistakable.direction, unmistakable.rpcName⟩, ?_, ?_⟩
    · intro period periodStart exporters history last window run
      rw [book_eq_booked run]
      exact unmistakable.booked _
    · intro period periodStart exporters history last after reader outputs window now run taken reads
      refine ⟨_, Monitor.step_report taken reads, fun value => ?_⟩
      have sums : (EventStore.after { period, periodStart } history).sums = last.store :=
        EventStore.sums_after rfl run
      rw [← sums, ← EventStore.sums_rotate, EventStore.book_sums]
      exact unmistakable.mem_points _ value

/-- Two entries of metadata, and one that has the second in its value. -/
theorem two_entries_mixed
    : ¬∀ event other : MetricEvent, other.identity ≠ event.identity → key other ≠ key event := by
  intro separate
  refine separate { metadata := (singleton (ascii "a") (ascii "1")).insert (ascii "b") (ascii "2") }
    { metadata := singleton (ascii "a") (ascii "1;b=2") } ?_ ?_
  · decide
  · decide

end Creek.Telemetry
