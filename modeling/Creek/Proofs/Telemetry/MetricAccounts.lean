import Creek.Proofs.Telemetry.MetricWindows

/-! What becomes of the recorded sums: they are handed out once, except by an export that fails after it
has taken them.
-/

namespace Creek.Telemetry

open Library
open Tight (Bytes TimePoint)
open Monitor (MetricsStage)

variable {monitor after : Monitor} {history : List MetricsStage} {store : MetricsStore}
  {bucket : Bytes} {field : MetricField}

-- The accounts

/-- What an event adds to a field. -/
def MetricEvent.amount (event : MetricEvent) : MetricField → Nat
  | .calls => 1
  | .errors => if event.success then 0 else 1
  | .bytes => event.bytes.toNat
  | .latencyUs => event.latencyUs.toNat

/-- What some buckets have in a field of one of them. -/
def held (data : MetricMap) (bucket : Bytes) (field : MetricField) : Nat :=
  ((data.getD bucket {}).field field).toNat

/-- What a call records in a bucket. -/
def MetricsEvent.adds (bucket : Bytes) (field : MetricField) : MetricsEvent → Nat
  | .record event _ => if key event = bucket then event.amount field else 0
  | _ => 0

/-- The buckets that a taking reader or a successful export hands out. -/
def handed (stage : MetricsStage) : MetricMap :=
  match stage.event, stage.outputs with
  | .take _, [.buckets data] => data
  | .protobufSnapshot previousMinute takeValues now, _
  | .json previousMinute takeValues now, _ =>
      if !previousMinute && takeValues then
        (stage.before.store.choose previousMinute takeValues now).2
      else ∅
  | .exportMetrics .., [.exported result] => if result.result then result.data else ∅
  | _, _ => ∅

/-- All that was handed out of a bucket. -/
def handedOut (history : List MetricsStage) (bucket : Bytes) (field : MetricField) : Nat :=
  (history.map fun stage => held (handed stage) bucket field).sum

/-- All that was recorded in a bucket. -/
def recorded (history : List MetricsStage) (bucket : Bytes) (field : MetricField) : Nat :=
  (history.map fun stage => stage.event.adds bucket field).sum

/-- Everything recorded was handed out once or is still to be taken. -/
def Balanced (history : List MetricsStage) (monitor : Monitor) : Prop :=
  ∀ bucket field, handedOut history bucket field + held monitor.store.cumulative bucket field
    = recorded history bucket field

/-- Nothing is lost: no counter passes 64 bits, and no export fails that has taken anything. -/
def Kept (stage : MetricsStage) : Prop :=
  match stage.event with
  | .record event _ =>
      ∀ field, held stage.before.store.cumulative (key event) field + event.amount field < 2 ^ 64
  | .exportMetrics index network _ _ =>
      ∀ exporter, stage.before.exporters[index]? = some exporter
        → exporter.Takes network
        → (∀ bucket field, held stage.before.store.cumulative bucket field = 0)
          ∨ (parseAddress exporter.collectorAddr).isSome = true ∧ httpPost network = true
  | _ => True

-- What each call does to them

theorem held_empty (bucket : Bytes) (field : MetricField) : held ∅ bucket field = 0 := by
  rw [held, Std.TreeMap.getD_emptyc]
  cases field <;> rfl

theorem held_of_isEmpty {data : MetricMap} (empty : data.isEmpty = true) (bucket : Bytes)
    (field : MetricField)
    : held data bucket field = 0 := by
  rw [held, Std.TreeMap.getD_of_isEmpty empty]
  cases field <;> rfl

theorem add_field (value : MetricValue) (event : MetricEvent) (field : MetricField)
    : ((value.add event).field field).toNat
      = ((value.field field).toNat + event.amount field) % 2 ^ 64 := by
  have small : (value.field field).toNat < 2 ^ 64 := (value.field field).toNat_lt
  cases field with
  | calls => exact UInt64.toNat_add ..
  | errors =>
      cases success : event.success with
      | true =>
          simp only [MetricValue.field, MetricValue.add, MetricEvent.amount, success, if_true,
            Nat.add_zero]
          exact (Nat.mod_eq_of_lt small).symm
      | false =>
          simp only [MetricValue.field, MetricValue.add, MetricEvent.amount, success,
            Bool.false_eq_true, if_false]
          exact UInt64.toNat_add ..
  | bytes => exact UInt64.toNat_add ..
  | latencyUs => exact UInt64.toNat_add ..

theorem held_bookIn (data : MetricMap) (event : MetricEvent) (bucket : Bytes) (field : MetricField)
    : held (bookIn data event) bucket field
      = if key event = bucket then (held data bucket field + event.amount field) % 2 ^ 64
        else held data bucket field := by
  rw [held, bookIn, Std.TreeMap.getD_insert]
  split
  · rename_i same
    obtain rfl := Std.LawfulEqCmp.eq_of_compare same
    rw [if_pos rfl, add_field]
    rfl
  · rename_i differs
    have apart : key event ≠ bucket := by
      intro same
      rw [same] at differs
      exact differs Std.ReflCmp.compare_self
    rw [if_neg apart]
    rfl

theorem rotateLocked_cumulative (now : TimePoint) (store : MetricsStore)
    : (store.rotateLocked now).cumulative = store.cumulative := by
  unfold MetricsStore.rotateLocked
  split
  · rfl
  · rfl

/-- One more call keeps the balance exactly when it hands out and keeps what there was and what it adds.
-/
theorem balanced_append {stage : MetricsStage} (balanced : Balanced history stage.before)
    : Balanced (history ++ [stage]) after
      ↔ ∀ bucket field,
        held (handed stage) bucket field + held after.store.cumulative bucket field
          = held stage.before.store.cumulative bucket field + stage.event.adds bucket field := by
  refine forall_congr' fun bucket => forall_congr' fun field => ?_
  have before := balanced bucket field
  simp only [handedOut, recorded, List.map_append, List.sum_append, List.map_cons, List.map_nil,
    List.sum_singleton] at before ⊢
  omega

theorem held_take {data : MetricMap} (store : MetricsStore) (now : TimePoint)
    (same : data = (store.take now).2) (bucket : Bytes) (field : MetricField)
    : held data bucket field + held (store.take now).1.cumulative bucket field
      = held store.cumulative bucket field + 0 := by
  rw [same, MetricsStore.take, rotateLocked_cumulative, held_empty]

theorem held_rotate (store : MetricsStore) (now : TimePoint) (bucket : Bytes) (field : MetricField)
    : held ∅ bucket field + held (store.rotateLocked now).cumulative bucket field
      = held store.cumulative bucket field + 0 := by
  rw [rotateLocked_cumulative, held_empty, Nat.zero_add, Nat.add_zero]

-- Conservation over a run

/-- A record adds what it should exactly when no counter passes 64 bits. -/
theorem held_record_iff (store : MetricsStore) (event : MetricEvent) (now : TimePoint)
    : (∀ bucket field,
        held ∅ bucket field + held (store.record event now).cumulative bucket field
          = held store.cumulative bucket field
            + if key event = bucket then event.amount field else 0)
      ↔ ∀ field, held store.cumulative (key event) field + event.amount field < 2 ^ 64 := by
  have booked (bucket : Bytes) (field : MetricField)
      : held (store.record event now).cumulative bucket field
        = if key event = bucket then
            (held store.cumulative bucket field + event.amount field) % 2 ^ 64
          else held store.cumulative bucket field := by
    rw [MetricsStore.record, held_bookIn, rotateLocked_cumulative]
  constructor
  · intro exact_ field
    have sum := exact_ (key event) field
    rw [booked, if_pos rfl, if_pos rfl, held_empty, Nat.zero_add] at sum
    rw [← sum]
    exact Nat.mod_lt _ (by decide)
  · intro fits bucket field
    rw [booked, held_empty, Nat.zero_add]
    split
    · rename_i same
      rw [← same]
      exact Nat.mod_eq_of_lt (fits field)
    · rfl

/-- An export hands out what there was exactly when it succeeds or there was nothing. -/
theorem held_export_iff {exporter : OtlpExporter} (network : Network) (systemNow : Int)
    (now : TimePoint) (store : MetricsStore)
    : let result := (exporter.exportMetrics network systemNow now store).2
      (∀ bucket field, held (if result.2.result then result.2.data else ∅) bucket field
          + held result.1.cumulative bucket field
        = held store.cumulative bucket field + 0)
      ↔ (exporter.Takes network
        → (∀ bucket field, held store.cumulative bucket field = 0)
          ∨ (parseAddress exporter.collectorAddr).isSome = true ∧ httpPost network = true) := by
  dsimp only
  rcases exporter.exportMetrics_cases network systemNow now store with
    ⟨idle, same⟩ | ⟨takes, remains, data, result⟩
  · rw [same]
    refine iff_of_true (fun bucket field => ?_) fun takes => absurd takes idle
    exact (congrArg₂ _ (held_empty bucket field) rfl).trans (Nat.zero_add _)
  · rw [remains, data]
    by_cases succeeds : (exporter.exportMetrics network systemNow now store).2.2.result = true
    · rw [if_pos succeeds]
      refine iff_of_true (held_take store now rfl) fun _ => ?_
      rcases result.mp succeeds with empty | posted
      · refine .inl fun bucket field => ?_
        rw [MetricsStore.take, rotateLocked_cumulative] at empty
        exact held_of_isEmpty empty bucket field
      · exact .inr posted
    · rw [if_neg succeeds]
      have unposted := fun posted => succeeds (result.mpr (.inr posted))
      simp only [MetricsStore.take, held_empty, takes, forall_const, or_iff_left unposted]
      exact forall_congr' fun bucket => forall_congr' fun field => eq_comm

theorem balanced_step_iff {event : MetricsEvent} {outputs : List MetricsOutput}
    (balanced : Balanced history monitor) (taken : monitor.step event = .ok (after, outputs))
    : Balanced (history ++ [{ before := monitor, event, outputs }]) after
      ↔ Kept { before := monitor, event, outputs } := by
  have chosen (previousMinute takeValues : Bool) (now : TimePoint) (bucket : Bytes)
      (field : MetricField)
      : held (if !previousMinute && takeValues then
            (monitor.store.choose previousMinute takeValues now).2
          else ∅) bucket field
        + held (monitor.store.choose previousMinute takeValues now).1.cumulative bucket field
        = held monitor.store.cumulative bucket field + 0 := by
    cases previousMinute with
    | true => exact held_rotate monitor.store now bucket field
    | false =>
        cases takeValues with
        | true => exact held_take monitor.store now rfl bucket field
        | false => exact held_rotate monitor.store now bucket field
  rw [@balanced_append after history { before := monitor, event, outputs } balanced]
  cases event with
  | record event now =>
      cases taken
      exact held_record_iff monitor.store event now
  | previous now =>
      cases taken
      exact iff_of_true (held_rotate monitor.store now) trivial
  | current now =>
      cases taken
      exact iff_of_true (held_rotate monitor.store now) trivial
  | openmetrics now =>
      cases taken
      exact iff_of_true (held_rotate monitor.store now) trivial
  | take now =>
      cases taken
      exact iff_of_true (held_take monitor.store now rfl) trivial
  | protobufSnapshot previousMinute takeValues now =>
      cases taken
      exact iff_of_true (chosen previousMinute takeValues now) trivial
  | json previousMinute takeValues now =>
      cases taken
      exact iff_of_true (chosen previousMinute takeValues now) trivial
  | exportMetrics index network systemNow now =>
      simp only [Monitor.step] at taken
      split at taken
      · cases taken
      · rename_i exporter found
        cases taken
        refine (held_export_iff network systemNow now monitor.store).trans ?_
        constructor
        · intro delivers other same
          cases found.symm.trans same
          exact delivers
        · intro delivers
          exact delivers exporter found
  | stop index =>
      simp only [Monitor.step] at taken
      split at taken
      · cases taken
      · cases taken
        refine iff_of_true (fun bucket field => ?_) trivial
        exact (congrArg₂ _ (held_empty bucket field) rfl).trans (Nat.zero_add _)

/-- The books of a run balance all the time exactly when nothing was lost. -/
theorem balanced_iff {period : Int} {periodStart : TimePoint} {exporters : List OtlpExporter}
    {last : Monitor}
    (run : Run Monitor.step (fun _ _ _ => True) (.begun period periodStart exporters) history last)
    : Throughout Balanced history last ↔ ∀ stage ∈ history, Kept stage := by
  refine run.throughout_iff ?_ fun history state event after outputs _ balanced _ taken =>
    balanced_step_iff balanced taken
  intro bucket field
  exact (Nat.zero_add _).trans (held_empty bucket field)

theorem run_record (event : MetricEvent) (exporters : List OtlpExporter)
    : Run Monitor.step (fun _ _ _ => True) (.begun 60000 0 exporters)
      [{ before := .begun 60000 0 exporters, event := .record event 0, outputs := [] }]
      { Monitor.begun 60000 0 exporters with
        store := (Monitor.begun 60000 0 exporters).store.record event 0 } :=
  .next .start trivial rfl

theorem kept_first (exporters : List OtlpExporter)
    : Kept { before := .begun 60000 0 exporters, event := .record {} 0, outputs := [] } := by
  intro field
  have nothing : held (Monitor.begun 60000 0 exporters).store.cumulative (key {}) field = 0 :=
    held_empty _ field
  rw [nothing]
  cases field <;> decide

/-- An exporter to a collector on this machine. -/
def localExporter : OtlpExporter where
  collectorAddr := ascii "127.0.0.1:4318"
  serviceName := ascii "creek"

/-- The books of a run in which an event is recorded, exported and posted. -/
theorem balanced_iff_exported
    : ∃ history last, Run Monitor.step (fun _ _ _ => True) (.begun 60000 0 [localExporter]) history last
      ∧ (history.map fun stage => stage.event)
        = [.record {} 0, .exportMetrics 0 {} 0 1]
      ∧ Throughout Balanced history last := by
  have run := Run.next (run_record {} [localExporter]) trivial
    (Eq.refl (Monitor.step _ (.exportMetrics 0 {} 0 1)))
  refine ⟨_, _, run, rfl, (balanced_iff run).mpr fun stage member => ?_⟩
  rcases List.mem_cons.mp member with rfl | later
  · exact kept_first [localExporter]
  · obtain rfl := List.mem_singleton.mp later
    rintro exporter ⟨⟩ -
    exact .inr ⟨by decide, by decide⟩

/-- An event is recorded, and the export that takes it does not get through. -/
theorem failed_export_unbalanced
    : ¬∀ (exporters : List OtlpExporter) (history : List MetricsStage) (last : Monitor),
      Run Monitor.step (fun _ _ _ => True) (.begun 60000 0 exporters) history last
      → Throughout Balanced history last := by
  intro always
  have first := run_record {} [localExporter]
  have run := Run.next first trivial
    (Eq.refl (Monitor.step _ (.exportMetrics 0 { connected := false } 0 1)))
  have kept := (balanced_step_iff (always _ _ _ first).2 rfl).mp (always _ _ _ run).2
  rcases kept localExporter rfl ⟨rfl, .inr rfl⟩ with nothing | ⟨-, posted⟩
  · have one := nothing (key {}) .calls
    revert one
    decide +kernel
  · revert posted
    decide

end Creek.Telemetry
