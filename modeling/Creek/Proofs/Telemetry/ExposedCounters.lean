import Creek.Proofs.Telemetry.MetricAccounts

/-! The counters in the texts that a scraper reads, from one text to the next. -/

namespace Creek.Telemetry

open Library
open Tight (Bytes TimePoint)
open Monitor (MetricsStage)

variable {field otherField : MetricField} {labels otherLabels : MetricLabels} {value otherValue : Nat}
  {source : MetricMap}

-- Reading a line

/-- The line in which a counter is shown. -/
def counterLine (field : MetricField) (labels : MetricLabels) (value : Nat) : Bytes :=
  seriesText field.metric labels ++ ascii " " ++ decimal value

/-- The text has a line that shows a value of a counter. -/
def Shows (text : Bytes) (field : MetricField) (labels : MetricLabels) (value : Nat) : Prop :=
  counterLine field labels value ∈ text.splitOn (letter '\n')

/-- Reads a label up to its closing quote. -/
def scanLabel : Bytes → Option (Bytes × Bytes)
  | [] => none
  | 34 :: rest => some ([], rest)
  | 92 :: 110 :: rest => (scanLabel rest).map fun (label, rest) => (10 :: label, rest)
  | 92 :: byte :: rest => (scanLabel rest).map fun (label, rest) => (byte :: label, rest)
  | byte :: rest => (scanLabel rest).map fun (label, rest) => (byte :: label, rest)

theorem scanLabel_escape (label rest : Bytes)
    : scanLabel (escapeOpenmetricsLabel label ++ 34 :: rest) = some (label, rest) := by
  induction label with
  | nil => rfl
  | cons byte label ih =>
      rw [escapeOpenmetricsLabel, List.flatMap_cons, List.append_assoc, ← escapeOpenmetricsLabel]
      by_cases backslash : byte = 92
      · subst backslash
        rw [if_pos rfl, show ascii "\\\\" = [92, 92] by decide]
        simp [scanLabel, ih]
      by_cases quote : byte = 34
      · subst quote
        rw [if_neg (by decide), if_pos rfl, show ascii "\\\"" = [92, 34] by decide]
        simp [scanLabel, ih]
      by_cases newline : byte = 10
      · subst newline
        rw [if_neg (by decide), if_neg (by decide), if_pos rfl,
          show ascii "\\n" = [92, 110] by decide]
        simp [scanLabel, ih]
      · rw [if_neg backslash, if_neg quote, if_neg newline, List.singleton_append, scanLabel, ih]
        · rfl
        · exact quote
        · intro _ other _
          exact backslash other
        · intro _ _ other _
          exact backslash other

theorem escape_unique {label other rest otherRest : Bytes}
    (same : escapeOpenmetricsLabel label ++ 34 :: rest
      = escapeOpenmetricsLabel other ++ 34 :: otherRest)
    : label = other ∧ rest = otherRest := by
  have scanned := congrArg scanLabel same
  rw [scanLabel_escape, scanLabel_escape] at scanned
  exact Prod.mk.inj (Option.some.inj scanned)

theorem counterLine_eq (field : MetricField) (labels : MetricLabels) (value : Nat)
    : counterLine field labels value
      = field.metric ++ 123 :: (ascii "direction=\"" ++ (escapeOpenmetricsLabel labels.direction
        ++ 34 :: (ascii ",rpc=\"" ++ (escapeOpenmetricsLabel labels.rpcName
        ++ 34 :: (ascii ",metadata=\"" ++ (escapeOpenmetricsLabel labels.metadata
        ++ 34 :: 125 :: 32 :: decimal value)))))) := by
  have opening : ascii "\x7bdirection=\"" = 123 :: ascii "direction=\"" := by decide
  have quote : ascii "\"" = [34] := by decide
  have closing : ascii "\"\x7d" = [34, 125] := by decide
  have blank : ascii " " = [32] := by decide
  simp only [counterLine, seriesText, opening, quote, closing, blank, List.append_assoc,
    List.cons_append, List.nil_append]

theorem metric_free (field : MetricField) : 123 ∉ field.metric ∧ letter '\n' ∉ field.metric := by
  cases field <;> decide

theorem counterLine_unique
    (same : counterLine field labels value = counterLine otherField otherLabels otherValue)
    : field = otherField ∧ labels = otherLabels ∧ value = otherValue := by
  rw [counterLine_eq, counterLine_eq] at same
  obtain ⟨metrics, rest⟩ := split_unique (metric_free field).1 (metric_free otherField).1 same
  obtain ⟨directions, rest⟩ := escape_unique (List.append_cancel_left rest)
  obtain ⟨names, rest⟩ := escape_unique (List.append_cancel_left rest)
  obtain ⟨texts, rest⟩ := escape_unique (List.append_cancel_left rest)
  refine ⟨?_, ?_, decimal_injective (by simpa using rest)⟩
  · revert metrics
    cases field <;> cases otherField <;> decide
  · obtain ⟨direction, rpcName, metadata⟩ := labels
    cases directions
    cases names
    cases texts
    rfl

-- The lines of a text

/-- The lines of one metric. -/
def metricLines (source : MetricMap) (field : MetricField) : List Bytes :=
  (ascii "# HELP " ++ field.metric ++ ascii " " ++ field.help)
    :: (ascii "# TYPE " ++ field.metric ++ ascii " " ++ ascii "counter")
    :: source.toList.map fun (key, value) =>
      counterLine field (splitKey key) (value.field field).toNat

/-- The lines of a text. -/
def openmetricsLines (source : MetricMap) : List Bytes :=
  ([.calls, .errors, .bytes, .latencyUs] : List MetricField).flatMap (metricLines source)
    ++ [ascii "# EOF"]

theorem openmetricsText_eq (source : MetricMap)
    : openmetricsText source = (openmetricsLines source).flatMap (· ++ [letter '\n']) := by
  have newline : ascii "\n" = [letter '\n'] := by decide
  have metric (field : MetricField)
      : appendMetricLines field.metric field.help (ascii "counter") field source
        = (metricLines source field).flatMap (· ++ [letter '\n']) := by
    simp only [appendMetricLines, metricLines, counterLine, newline, List.flatMap_cons,
      List.flatMap_map, List.append_assoc]
  have last : ascii "# EOF\n" = [ascii "# EOF"].flatMap (· ++ [letter '\n']) := by decide
  simp only [openmetricsText, openmetricsLines, metric, last, List.flatMap_append, List.flatMap_assoc]

theorem escape_free (label : Bytes) : letter '\n' ∉ escapeOpenmetricsLabel label := by
  intro member
  obtain ⟨byte, -, inside⟩ := List.mem_flatMap.mp member
  revert inside
  split
  · decide
  · split
    · decide
    · split
      · decide
      · rename_i differs
        exact fun inside => differs (List.mem_singleton.mp inside).symm

theorem decimal_free (number : Nat) : letter '\n' ∉ decimal number := by
  intro member
  obtain ⟨digit, valued, -⟩ := allDigits_decimal number _ member
  cases valued

theorem openmetricsLines_free (source : MetricMap)
    : ∀ line ∈ openmetricsLines source, letter '\n' ∉ line := by
  intro line member
  rcases List.mem_append.mp member with inside | last
  · obtain ⟨field, -, inside⟩ := List.mem_flatMap.mp inside
    rcases List.mem_cons.mp inside with rfl | inside
    · cases field <;> decide
    rcases List.mem_cons.mp inside with rfl | inside
    · cases field <;> decide
    obtain ⟨⟨bucket, value⟩, -, rfl⟩ := List.mem_map.mp inside
    dsimp only
    rw [counterLine_eq]
    simp only [List.mem_append, List.mem_cons, not_or]
    refine ⟨(metric_free field).2, by decide, by decide, escape_free _, by decide, by decide,
      escape_free _, by decide, by decide, escape_free _, by decide, by decide, by decide,
      decimal_free _⟩
  · obtain rfl := List.mem_singleton.mp last
    decide

/-- A text shows the fields of the buckets, and no other values. -/
theorem shows_iff
    : Shows (openmetricsText source) field labels value
      ↔ ∃ bucket sums, source[bucket]? = some sums ∧ splitKey bucket = labels
        ∧ (sums.field field).toNat = value := by
  rw [Shows, openmetricsText_eq, splitOn_lines (openmetricsLines_free source)]
  constructor
  · intro member
    -- The other lines begin with `#`, or are empty.
    have first : (counterLine field labels value).head? = some 99 := by
      rw [counterLine_eq]
      cases field <;> rfl
    rcases List.mem_append.mp member with inside | last
    · rcases List.mem_append.mp inside with inside | last
      · obtain ⟨otherField, -, inside⟩ := List.mem_flatMap.mp inside
        rcases List.mem_cons.mp inside with same | inside
        · rw [same] at first
          exact absurd first (by cases otherField <;> decide)
        rcases List.mem_cons.mp inside with same | inside
        · rw [same] at first
          exact absurd first (by cases otherField <;> decide)
        obtain ⟨⟨bucket, sums⟩, stored, same⟩ := List.mem_map.mp inside
        obtain ⟨rfl, labelled, valued⟩ := counterLine_unique same
        exact ⟨bucket, sums, Std.TreeMap.mem_toList_iff_getElem?_eq_some.mp stored, labelled,
          valued⟩
      · rw [List.mem_singleton.mp last] at first
        exact absurd first (by decide)
    · rw [List.mem_singleton.mp last] at first
      cases first
  · rintro ⟨bucket, sums, stored, rfl, rfl⟩
    refine List.mem_append_left _ (List.mem_append_left _ ?_)
    refine List.mem_flatMap.mpr ⟨field, by cases field <;> decide, ?_⟩
    refine List.mem_cons_of_mem _ (List.mem_cons_of_mem _ (List.mem_map.mpr ⟨(bucket, sums), ?_, rfl⟩))
    exact Std.TreeMap.mem_toList_iff_getElem?_eq_some.mpr stored

-- From one text to the next

/-- Every counter is still there and has not fallen. -/
def Continues (earlier later : Bytes) : Prop :=
  ∀ field labels value, Shows earlier field labels value
    → (∃ next, Shows later field labels next) ∧ ∀ next, Shows later field labels next → value ≤ next

/-- Every bucket is still there and has not fallen. -/
def Grows (earlier later : MetricMap) : Prop :=
  ∀ (bucket : Bytes) (sums : MetricValue), earlier[bucket]? = some sums
    → ∃ next : MetricValue, later[bucket]? = some next
      ∧ ∀ field, (sums.field field).toNat ≤ (next.field field).toNat

variable {earlier later : MetricMap}

theorem Grows.refl (data : MetricMap) : Grows data data :=
  fun _ sums stored => ⟨sums, stored, fun _ => Nat.le_refl _⟩

theorem Grows.bookIn (grows : Grows earlier later) {event : MetricEvent}
    (fits : ∀ field, held later (key event) field + event.amount field < 2 ^ 64)
    : Grows earlier (bookIn later event) := by
  intro bucket sums stored
  obtain ⟨next, found, more⟩ := grows bucket sums stored
  by_cases same : key event = bucket
  · subst same
    refine ⟨next.add event, ?_, fun field => (more field).trans ?_⟩
    · rw [Telemetry.bookIn, Std.TreeMap.getElem?_insert_self, Std.TreeMap.getD_eq_getD_getElem?,
        found, Option.getD_some]
    · have fit := fits field
      rw [held, Std.TreeMap.getD_eq_getD_getElem?, found, Option.getD_some] at fit
      rw [add_field, Nat.mod_eq_of_lt fit]
      exact Nat.le_add_right _ _
  · refine ⟨next, ?_, more⟩
    rw [Telemetry.bookIn, getElem?_insert_ne _ _ same, found]

theorem Grows.continues (grows : Grows earlier later) (left : OfEvents earlier)
    (right : OfEvents later)
    : Continues (openmetricsText earlier) (openmetricsText later) := by
  intro field labels value shown
  obtain ⟨bucket, sums, stored, labelled, rfl⟩ := shows_iff.mp shown
  obtain ⟨next, found, more⟩ := grows bucket sums stored
  refine ⟨⟨_, shows_iff.mpr ⟨bucket, next, found, labelled, rfl⟩⟩, fun other shown => ?_⟩
  obtain ⟨otherBucket, otherSums, otherFound, otherLabelled, rfl⟩ := shows_iff.mp shown
  obtain ⟨event, rfl⟩ := left bucket sums stored
  obtain ⟨otherEvent, rfl⟩ := right otherBucket otherSums otherFound
  rw [key_of_splitKey (otherLabelled.trans labelled.symm), found] at otherFound
  cases otherFound
  exact more field

-- Over a run

/-- The text that a call returns to a scraper. -/
def scrape (stage : MetricsStage) : Option Bytes :=
  match stage.event, stage.outputs with
  | .openmetrics _, [.text text] => some text
  | _, _ => none

/-- The texts of a run. -/
def scrapes (history : List MetricsStage) : List Bytes := history.filterMap scrape

/-- When a call looks at the clock. -/
def StoreEffect.time : StoreEffect → Option TimePoint
  | .record _ now => some now
  | .rotate now => some now
  | .take now => some now
  | .nothing => none

/-- No period ends after a counter was shown, and no counter of the period passes 64 bits. -/
structure Steady (history : List MetricsStage) (monitor : Monitor) (event : MetricsEvent) : Prop where
  lasts : ∀ now, (monitor.effect event).time = some now → monitor.store.Expired now
    → ∀ text ∈ scrapes history, ∀ field labels value, ¬Shows text field labels value
  fits : ∀ recorded now, monitor.effect event = .record recorded now
    → ∀ field, held (monitor.store.rotateLocked now).current (key recorded) field
      + recorded.amount field < 2 ^ 64

/-- The buckets of each text are still there, and the texts continue each other. -/
structure Rising (history : List MetricsStage) (monitor : Monitor) : Prop where
  sources : ∀ text ∈ scrapes history, ∃ source, text = openmetricsText source ∧ OfEvents source
    ∧ Grows source monitor.store.current
  continues : (scrapes history).Pairwise Continues

/-- What was shown is still there when a call has looked at the clock. -/
theorem Grows.rotate {monitor : Monitor} {event : MetricsEvent} {history : List MetricsStage}
    {now : TimePoint} (grows : Grows earlier monitor.store.current)
    (steady : Steady history monitor event) (timed : (monitor.effect event).time = some now)
    (shown : openmetricsText earlier ∈ scrapes history)
    : Grows earlier (monitor.store.rotateLocked now).current := by
  unfold MetricsStore.rotateLocked
  split
  · rename_i expired
    intro bucket sums stored
    refine absurd (shows_iff.mpr ⟨bucket, sums, stored, rfl, rfl⟩)
      (steady.lasts now timed expired _ shown .calls _ _)
  · exact grows

theorem Grows.step {monitor after : Monitor} {event : MetricsEvent} {history : List MetricsStage}
    {outputs : List MetricsOutput} (grows : Grows earlier monitor.store.current)
    (steady : Steady history monitor event) (shown : openmetricsText earlier ∈ scrapes history)
    (taken : monitor.step event = .ok (after, outputs))
    : Grows earlier after.store.current := by
  rw [Monitor.step_store taken]
  rcases effect : monitor.effect event with ⟨recorded, now⟩ | now | now | -
  · have timed : (monitor.effect event).time = some now := by rw [effect]; rfl
    exact (grows.rotate steady timed shown).bookIn (steady.fits recorded now effect)
  · exact grows.rotate steady (by rw [effect]; rfl) shown
  · exact grows.rotate steady (by rw [effect]; rfl) shown
  · exact grows

theorem current_ofEvents {period : Int} {periodStart : TimePoint} {exporters : List OtlpExporter}
    {allowed : List MetricsStage → Monitor → MetricsEvent → Prop} {history : List MetricsStage}
    {last : Monitor} (run : Run Monitor.step allowed (.begun period periodStart exporters) history last)
    : OfEvents last.store.current := by
  have books : last.store.current = booked _ := book_eq_booked run .current
  rw [books]
  exact OfEvents.booked _

/-- One more call shows a scraper nothing, or the buckets that are there after it. -/
theorem scrape_cases {monitor after : Monitor} {event : MetricsEvent} {outputs : List MetricsOutput}
    (taken : monitor.step event = .ok (after, outputs))
    : scrape { before := monitor, event, outputs } = none
      ∨ scrape { before := monitor, event, outputs } = some (openmetricsText after.store.current) := by
  cases event with
  | openmetrics now =>
      cases taken
      exact .inr rfl
  | _ => exact .inl rfl

/-- While no period ends after a counter was shown, the counters that are shown rise. -/
theorem counters_rise {period : Int} {periodStart : TimePoint} {exporters : List OtlpExporter}
    {history : List MetricsStage} {last : Monitor}
    (run : Run Monitor.step Steady (.begun period periodStart exporters) history last)
    : (scrapes history).Pairwise Continues := by
  have rising : Rising history last := by
    refine run.invariant Rising ⟨fun _ member => absurd member List.not_mem_nil, .nil⟩ ?_
    intro history monitor event after outputs run rising steady taken
    have sources : ∀ text ∈ scrapes history, ∃ source, text = openmetricsText source
        ∧ OfEvents source ∧ Grows source after.store.current := by
      intro text member
      obtain ⟨source, rfl, events, grows⟩ := rising.sources text member
      exact ⟨source, rfl, events, grows.step steady member taken⟩
    have events : OfEvents after.store.current := current_ofEvents (.next run steady taken)
    have split : scrapes (history ++ [{ before := monitor, event, outputs }])
        = scrapes history ++ (scrape { before := monitor, event, outputs }).toList := by
      rw [scrapes, List.filterMap_append, scrapes, List.append_cancel_left_eq]
      cases shown : scrape { before := monitor, event, outputs } with
      | none => rw [List.filterMap_cons_none shown]; rfl
      | some text => rw [List.filterMap_cons_some shown]; rfl
    rcases scrape_cases taken with none | some
    · rw [none, Option.toList_none, List.append_nil] at split
      exact ⟨split ▸ sources, split ▸ rising.continues⟩
    · rw [some, Option.toList_some] at split
      constructor
      · rw [split]
        intro text member
        rcases List.mem_append.mp member with earlier | new
        · exact sources text earlier
        · exact ⟨_, List.mem_singleton.mp new, events, .refl _⟩
      · rw [split, List.pairwise_append]
        refine ⟨rising.continues, List.pairwise_singleton _ _, fun text member new fresh => ?_⟩
        rw [List.mem_singleton.mp fresh]
        obtain ⟨source, rfl, left, grows⟩ := sources text member
        exact grows.continues left events
  exact rising.continues

/-- A recorded event is shown twice within a period. -/
theorem counters_rise_twice
    : ∃ history last, Run Monitor.step Steady (.begun 60000 0 []) history last
      ∧ (scrapes history).length = 2
      ∧ (scrapes history).Pairwise Continues := by
  have first : Steady [] (.begun 60000 0 []) (.record {} 0) := by
    refine ⟨fun _ _ _ _ member => absurd member List.not_mem_nil, fun event now effect field => ?_⟩
    cases effect
    cases field <;> decide +kernel
  have young {history : List MetricsStage} {monitor : Monitor} {now : Int}
      (start : monitor.store.periodStart = 0) (period : monitor.store.period = 60000)
      (within : now < 60000000000)
      : Steady history monitor (.openmetrics now) := by
    refine ⟨fun time effect expired => ?_, fun event time effect => by cases effect⟩
    cases effect
    have length : Library.toNanos 60000 = 60000000000 := by decide
    rw [MetricsStore.Expired, start, period, length] at expired
    omega
  have begun : Run Monitor.step Steady (.begun 60000 0 []) [] (.begun 60000 0 []) := .start
  have run := ((begun.next first rfl).next (young rfl rfl (by decide : (1 : Int) < 60000000000))
    rfl).next (young rfl rfl (by decide : (2 : Int) < 60000000000)) rfl
  exact ⟨_, _, run, rfl, counters_rise run⟩

/-- A counter is shown, and no longer shown when the period is over. -/
theorem counter_disappears
    : ¬∀ (history : List MetricsStage) (last : Monitor),
      Run Monitor.step (fun _ _ _ => True) (.begun 60000 0 []) history last
      → (scrapes history).Pairwise Continues := by
  intro always
  have begun : Run Monitor.step (fun _ _ _ => True) (.begun 60000 0 []) [] (.begun 60000 0 []) :=
    .start
  have run := ((begun.next trivial (Eq.refl (Monitor.step _ (.record {} 0)))).next trivial
    (Eq.refl (Monitor.step _ (.openmetrics 1)))).next trivial
    (Eq.refl (Monitor.step _ (.openmetrics 60000000000)))
  have continues := List.rel_of_pairwise_cons (always _ _ run) List.mem_cons_self
  have shown : Shows (openmetricsText (bookIn ∅ {})) .calls (splitKey (key {})) 1 :=
    shows_iff.mpr ⟨key {}, ({} : MetricValue).add {}, Std.TreeMap.getElem?_insert_self, rfl, rfl⟩
  obtain ⟨⟨next, found⟩, -⟩ := continues .calls _ _ shown
  obtain ⟨bucket, sums, stored, -⟩ := shows_iff.mp found
  cases stored

end Creek.Telemetry
