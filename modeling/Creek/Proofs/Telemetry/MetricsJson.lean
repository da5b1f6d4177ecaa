import Creek.Library.Json
import Creek.Library.Lookups
import Creek.Proofs.Telemetry.MetricKeys

/-! What a JSON reader gets from the texts of the metrics. -/

namespace Creek.Telemetry

open Library
open Library.Json (Entry Reads Spells)
open Tight (Bytes)

-- Escaped strings

/-- The short escapes of a table stand for their bytes, and the quote and the backslash are in it. -/
structure Escapes (short : List (UInt8 × UInt8)) : Prop where
  stands : ∀ entry ∈ short, Json.shortEscape entry.2 = some entry.1 ∧ entry.1.toNat < 128
    ∧ entry.2.toNat < 128
  quote : short.lookup 34 ≠ none
  backslash : short.lookup 92 ≠ none

variable {short : List (UInt8 × UInt8)}

/-- What stands for a byte in an escaped string. -/
def escaped (short : List (UInt8 × UInt8)) (byte : UInt8) : Bytes :=
  match short.lookup byte with
  | some letter => [92, letter]
  | none => if byte < 0x20 then unicodeEscape byte else [byte]

theorem exists_control {byte : UInt8} (control : byte < 0x20)
    : ∃ code : Fin 32, byte = code.val.toUInt8 :=
  ⟨⟨byte.toNat, control⟩, UInt8.toNat_inj.mp (by simp)⟩

theorem unicodeEscape_eq (byte : UInt8)
    : unicodeEscape byte
      = [92, 117, 48, 48, hexDigit (byte.toNat / 16), hexDigit (byte.toNat % 16)] := by
  rw [unicodeEscape, show ascii "\\u00" = [92, 117, 48, 48] by decide]
  rfl

theorem unicodeEscape_spells {byte : UInt8} (control : byte < 0x20) : Spells (unicodeEscape byte) byte := by
  have small : byte.toNat < 32 := control
  rw [unicodeEscape_eq]
  refine .unicode ?_ (by omega)
  obtain ⟨code, rfl⟩ := exists_control control
  revert code
  decide

theorem unicodeEscape_utf8 {byte : UInt8} (small : byte.toNat < 128) : Utf8 (unicodeEscape byte) := by
  have digits : ∀ digit < 16, (hexDigit digit).toNat < 128 := by decide
  rw [unicodeEscape_eq]
  refine .ascii fun other member => ?_
  simp only [List.mem_cons, List.not_mem_nil, or_false] at member
  rcases member with rfl | rfl | rfl | rfl | rfl | rfl
  · decide
  · decide
  · decide
  · decide
  · exact digits _ (by omega)
  · exact digits _ (by omega)

theorem Escapes.spells (escapes : Escapes short) (byte : UInt8) : Spells (escaped short byte) byte := by
  rw [escaped]
  rcases found : short.lookup byte with - | letter
  · simp only
    split
    · rename_i control
      exact unicodeEscape_spells control
    · rename_i printable
      refine .raw ?_ ?_ printable
      · rintro rfl
        exact escapes.quote found
      · rintro rfl
        exact escapes.backslash found
  · obtain ⟨front, back, rfl, -⟩ := List.lookup_eq_some_iff.mp found
    exact .short (escapes.stands _ (List.mem_append_right _ List.mem_cons_self)).1

theorem Escapes.reads (escapes : Escapes short) (string : Bytes)
    : Reads (34 :: (escapeJson short string ++ [34])) (.string string) :=
  .string (Json.scanString_flatMap fun byte _ => escapes.spells byte)

theorem Escapes.utf8 (escapes : Escapes short) {string : Bytes} (utf8 : Utf8 string)
    : Utf8 (escapeJson short string) := by
  show Utf8 (string.flatMap (escaped short))
  refine utf8.flatMap (fun byte small => ?_) fun byte large => ?_
  · rw [escaped]
    rcases found : short.lookup byte with - | letter
    · simp only
      split
      · exact unicodeEscape_utf8 small
      · exact .ascii fun other member => List.mem_singleton.mp member ▸ small
    · obtain ⟨front, back, rfl, -⟩ := List.lookup_eq_some_iff.mp found
      have low := (escapes.stands _ (List.mem_append_right _ List.mem_cons_self)).2.2
      refine .ascii fun other member => ?_
      rcases List.mem_cons.mp member with rfl | last
      · decide
      · rw [List.mem_singleton.mp last]
        exact low
  · have none : short.lookup byte = none := by
      rcases found : short.lookup byte with - | letter
      · rfl
      · obtain ⟨front, back, rfl, -⟩ := List.lookup_eq_some_iff.mp found
        have low : byte.toNat < 128 :=
          (escapes.stands _ (List.mem_append_right _ List.mem_cons_self)).2.1
        omega
    have printable : ¬byte < 0x20 := by
      intro control
      have small : byte.toNat < 32 := control
      omega
    rw [escaped, none]
    exact if_neg printable

theorem escapes_json : Escapes [(34, 34), (92, 92), (10, letter 'n'), (13, letter 'r'), (9, letter 't'),
    (8, letter 'b'), (12, letter 'f')] :=
  ⟨by simp [Json.shortEscape, letter, List.lookup_cons], by decide, by decide⟩

theorem escapes_otlp : Escapes [(34, 34), (92, 92), (10, letter 'n'), (13, letter 'r'), (9, letter 't')] :=
  ⟨by simp [Json.shortEscape, letter, List.lookup_cons], by decide, by decide⟩

-- The documents

/-- A text as a JSON string. -/
def textJson (text : String) : Json := .string (ascii text)

/-- What a point of the JSON text says. -/
def pointJson (labels : MetricLabels) (value : MetricValue) : Json :=
  .object [
    (ascii "direction", .string labels.direction),
    (ascii "rpc_name", .string labels.rpcName),
    (ascii "metadata", .string labels.metadata),
    (ascii "calls", .number value.calls.toNat),
    (ascii "errors", .number value.errors.toNat),
    (ascii "bytes", .number value.bytes.toNat),
    (ascii "latency_us", .number value.latencyUs.toNat)
  ]

/-- One point for each bucket. -/
def pointsJson (labelsOf : Bytes → MetricLabels) (data : MetricMap) : Json :=
  .object [(ascii "points", .array (data.toList.map fun (key, value) => pointJson (labelsOf key) value))]

def attributeJson (name : String) (value : Bytes) : Json :=
  .object [
    (ascii "key", textJson name),
    (ascii "value", .object [(ascii "stringValue", .string value)])
  ]

/-- What an OTLP data point says; its number is a string of digits. -/
def dataPointJson (now : Int) (labels : MetricLabels) (value : UInt64) : Json :=
  .object [
    (ascii "attributes", .array [
      attributeJson "direction" labels.direction,
      attributeJson "rpc_name" labels.rpcName,
      attributeJson "metadata" labels.metadata
    ]),
    (ascii "timeUnixNano", .string (signedDecimal now)),
    (ascii "asInt", .string (decimal value.toNat))
  ]

/-- One data point for each bucket. -/
def metricJson (now : Int) (labelsOf : Bytes → MetricLabels) (data : MetricMap) (field : MetricField)
    : Json :=
  .object [
    (ascii "name", .string field.metric),
    (ascii "gauge", .object [
      (ascii "dataPoints", .array (data.toList.map fun (key, value) =>
        dataPointJson now (labelsOf key) (value.field field)))
    ])
  ]

/-- The four metrics of a service. -/
def exportJson (now : Int) (labelsOf : Bytes → MetricLabels) (data : MetricMap) (serviceName : Bytes)
    : Json :=
  .object [
    (ascii "resourceMetrics", .array [
      .object [
        (ascii "resource", .object [
          (ascii "attributes", .array [attributeJson "service.name" serviceName])
        ]),
        (ascii "scopeMetrics", .array [
          .object [
            (ascii "scope", .object [(ascii "name", textJson "creek")]),
            (ascii "metrics", .array
              (([.calls, .errors, .bytes, .latencyUs] : List MetricField).map
                (metricJson now labelsOf data)))
          ]
        ])
      ]
    ])
  ]

-- What is read

theorem reads_plain {text : Bytes} (plain : text.all Json.isPlain = true)
    : Reads (34 :: (text ++ [34])) (.string text) :=
  .string (Json.scanString_plain plain)

theorem decimal_plain (number : Nat) : (decimal number).all Json.isPlain = true := by
  refine List.all_eq_true.mpr fun byte member => ?_
  obtain ⟨low, high⟩ := decimal_digits number byte member
  have fits : byte.toNat < 58 := Nat.lt_succ_of_le high
  have starts : 48 ≤ byte.toNat := low
  rw [Json.isPlain, Bool.and_eq_true, Bool.and_eq_true, decide_eq_true_eq, bne_iff_ne, bne_iff_ne]
  refine ⟨⟨UInt8.le_iff_toNat_le.mpr (by show 32 ≤ byte.toNat; omega), ?_⟩, ?_⟩
  · rintro rfl
    exact absurd starts (by decide)
  · rintro rfl
    exact absurd fits (by decide)

theorem signedDecimal_plain (number : Int) : (signedDecimal number).all Json.isPlain = true := by
  rw [signedDecimal]
  split
  · rw [List.all_cons, decimal_plain]
    decide
  · exact decimal_plain _

theorem string_reads (string : Bytes)
    : Reads (34 :: (escapeJsonString string ++ [34])) (.string string) :=
  escapes_json.reads string

theorem otlpString_reads (string : Bytes)
    : Reads (34 :: (escapeJsonStringOtlp string ++ [34])) (.string string) :=
  escapes_otlp.reads string

theorem jsonPoint_reads (key : Bytes) (value : MetricValue)
    : Reads (jsonPoint key value) (pointJson (splitKey key) value) := by
  refine Reads.of_eq (.object
    (.cons (.intro (by decide : (ascii "direction").all _) (string_reads (splitKey key).direction))
      (.cons (.intro (by decide : (ascii "rpc_name").all _) (string_reads (splitKey key).rpcName))
      (.cons (.intro (by decide : (ascii "metadata").all _) (string_reads (splitKey key).metadata))
      (.cons (.intro (by decide : (ascii "calls").all _) (.number value.calls.toNat))
      (.cons (.intro (by decide : (ascii "errors").all _) (.number value.errors.toNat))
      (.cons (.intro (by decide : (ascii "bytes").all _) (.number value.bytes.toNat))
      (.cons (.intro (by decide : (ascii "latency_us").all _) (.number value.latencyUs.toNat))
      .nil)))))))) ?_
  delta jsonPoint
  simp only [List.intercalate_cons_cons, List.intercalate_singleton, List.append_assoc,
    List.cons_append, List.nil_append]
  rfl

/-- Buckets are shown one by one, in the order of their keys. -/
theorem reads_buckets {text : Bytes → MetricValue → Bytes} {json : Bytes → MetricValue → Json}
    (reads : ∀ key value, Reads (text key value) (json key value)) (data : MetricMap)
    : Reads (91 :: (commaSeparated (data.toList.map fun (key, value) => text key value) ++ [93]))
      (.array (data.toList.map fun (key, value) => json key value)) := by
  refine .array ?_
  induction data.toList with
  | nil => exact .nil
  | cons bucket buckets ih => exact .cons (reads bucket.1 bucket.2) ih

theorem jsonText_reads (data : MetricMap) : Reads (jsonText data) (pointsJson splitKey data) := by
  refine Reads.of_eq (.object
    (.cons (.intro (by decide : (ascii "points").all _) (reads_buckets jsonPoint_reads data)) .nil)) ?_
  delta jsonText
  simp only [List.intercalate_singleton, List.append_assoc, List.cons_append, List.nil_append]
  rfl

theorem otlpAttribute_reads (name : String) (value : Bytes)
    (plain : (ascii name).all Json.isPlain = true)
    : Reads (otlpAttribute (ascii name) value) (attributeJson name value) := by
  refine Reads.of_eq (.object
    (.cons (.intro (by decide : (ascii "key").all _) (reads_plain plain))
      (.cons (.intro (by decide : (ascii "value").all _) (.object
        (.cons (.intro (by decide : (ascii "stringValue").all _) (otlpString_reads value)) .nil)))
      .nil))) ?_
  delta otlpAttribute
  simp only [List.intercalate_cons_cons, List.intercalate_singleton, List.append_assoc,
    List.cons_append, List.nil_append]
  rfl

theorem otlpPoint_reads (field : MetricField) (now : Int) (key : Bytes) (value : MetricValue)
    : Reads (otlpPoint field (signedDecimal now) key value)
      (dataPointJson now (splitKey key) (value.field field)) := by
  refine Reads.of_eq (.object
    (.cons (.intro (by decide : (ascii "attributes").all _) (.array
        (.cons (otlpAttribute_reads "direction" (splitKey key).direction (by decide))
        (.cons (otlpAttribute_reads "rpc_name" (splitKey key).rpcName (by decide))
        (.cons (otlpAttribute_reads "metadata" (splitKey key).metadata (by decide)) .nil)))))
      (.cons (.intro (by decide : (ascii "timeUnixNano").all _) (reads_plain (signedDecimal_plain now)))
      (.cons (.intro (by decide : (ascii "asInt").all _)
        (reads_plain (decimal_plain (value.field field).toNat)))
      .nil)))) ?_
  delta otlpPoint
  simp only [List.intercalate_cons_cons, List.intercalate_singleton, List.append_assoc,
    List.cons_append, List.nil_append]
  rfl

theorem otlpMetric_reads (now : Int) (data : MetricMap) (field : MetricField)
    : Reads (otlpMetric (signedDecimal now) data field) (metricJson now splitKey data field) := by
  refine Reads.of_eq (.object
    (.cons (.intro (by decide : (ascii "name").all _) (reads_plain (by cases field <;> decide)))
      (.cons (.intro (by decide : (ascii "gauge").all _) (.object
        (.cons (.intro (by decide : (ascii "dataPoints").all _)
          (reads_buckets (fun key value => otlpPoint_reads field now key value) data)) .nil)))
      .nil))) ?_
  delta otlpMetric
  simp only [List.intercalate_cons_cons, List.intercalate_singleton, List.append_assoc,
    List.cons_append, List.nil_append]
  rfl

set_option maxRecDepth 2000 in
theorem buildOtlpJson_reads (now : Int) (data : MetricMap) (serviceName : Bytes)
    : Reads (buildOtlpJson now data serviceName) (exportJson now splitKey data serviceName) := by
  have resource := Reads.object
    (.cons (.intro (by decide : (ascii "attributes").all _)
      (.array (.cons (otlpAttribute_reads "service.name" serviceName (by decide)) .nil))) .nil)
  have scope := Reads.object
    (.cons (.intro (by decide : (ascii "name").all _) (reads_plain (by decide : (ascii "creek").all _)))
      .nil)
  have metrics : Reads
      (91 :: (commaSeparated (([.calls, .errors, .bytes, .latencyUs] : List MetricField).map
        (otlpMetric (signedDecimal now) data)) ++ [93]))
      (.array (([.calls, .errors, .bytes, .latencyUs] : List MetricField).map
        (metricJson now splitKey data))) :=
    .array (.cons (otlpMetric_reads now data .calls) (.cons (otlpMetric_reads now data .errors)
      (.cons (otlpMetric_reads now data .bytes) (.cons (otlpMetric_reads now data .latencyUs) .nil))))
  refine Reads.of_eq (.object
    (.cons (.intro (by decide : (ascii "resourceMetrics").all _) (.array
      (.cons (.object
        (.cons (.intro (by decide : (ascii "resource").all _) resource)
        (.cons (.intro (by decide : (ascii "scopeMetrics").all _) (.array
          (.cons (.object
            (.cons (.intro (by decide : (ascii "scope").all _) scope)
            (.cons (.intro (by decide : (ascii "metrics").all _) metrics) .nil))) .nil))) .nil))) .nil)))
      .nil)) ?_
  delta buildOtlpJson otlpAttribute
  simp only [List.intercalate_cons_cons, List.intercalate_singleton, List.append_assoc,
    List.cons_append, List.nil_append]
  rfl

-- The texts are in UTF-8

theorem utf8_of_all {text : Bytes} (low : text.all (· < 128) = true) : Utf8 text :=
  .ascii fun byte member => of_decide_eq_true (List.all_eq_true.mp low byte member)

theorem decimal_utf8 (number : Nat) : Utf8 (decimal number) := by
  refine .ascii fun byte member => ?_
  have high : byte.toNat ≤ 57 := (decimal_digits number byte member).2
  omega

theorem signedDecimal_utf8 (number : Int) : Utf8 (signedDecimal number) := by
  rw [signedDecimal]
  split
  · exact (utf8_of_all (by decide : ([45] : Bytes).all _)).append (decimal_utf8 _)
  · exact decimal_utf8 _

/-- The labels are in UTF-8. -/
structure MetricLabels.IsUtf8 (labels : MetricLabels) : Prop where
  direction : Utf8 labels.direction
  rpcName : Utf8 labels.rpcName
  metadata : Utf8 labels.metadata

theorem jsonPoint_utf8 {key : Bytes} (utf8 : (splitKey key).IsUtf8) (value : MetricValue)
    : Utf8 (jsonPoint key value) := by
  delta jsonPoint
  repeat' apply Utf8.append
  all_goals
    first
    | exact utf8_of_all (by decide)
    | exact decimal_utf8 _
    | exact escapes_json.utf8 utf8.direction
    | exact escapes_json.utf8 utf8.rpcName
    | exact escapes_json.utf8 utf8.metadata

theorem commaSeparated_utf8 {parts : List Bytes} (each : ∀ part ∈ parts, Utf8 part)
    : Utf8 (commaSeparated parts) :=
  .intercalate (utf8_of_all (by decide)) each

theorem jsonText_utf8 {data : MetricMap} (utf8 : ∀ key ∈ data, (splitKey key).IsUtf8)
    : Utf8 (jsonText data) := by
  refine .append (.append (utf8_of_all (by decide)) (commaSeparated_utf8 fun part member => ?_))
    (utf8_of_all (by decide))
  obtain ⟨⟨key, value⟩, stored, rfl⟩ := List.mem_map.mp member
  exact jsonPoint_utf8 (utf8 key (mem_of_mem_toList stored)) value

theorem otlpPoint_utf8 {key : Bytes} (utf8 : (splitKey key).IsUtf8) (field : MetricField) (now : Int)
    (value : MetricValue)
    : Utf8 (otlpPoint field (signedDecimal now) key value) := by
  delta otlpPoint
  repeat' apply Utf8.append
  all_goals
    first
    | exact utf8_of_all (by decide)
    | exact decimal_utf8 _
    | exact signedDecimal_utf8 _
    | exact escapes_otlp.utf8 utf8.direction
    | exact escapes_otlp.utf8 utf8.rpcName
    | exact escapes_otlp.utf8 utf8.metadata

theorem otlpMetric_utf8 {data : MetricMap} (utf8 : ∀ key ∈ data, (splitKey key).IsUtf8) (now : Int)
    (field : MetricField)
    : Utf8 (otlpMetric (signedDecimal now) data field) := by
  have name : Utf8 field.metric := by
    cases field <;> exact utf8_of_all (by decide)
  refine .append (.append (.append (.append (utf8_of_all (by decide)) name) (utf8_of_all (by decide)))
    (commaSeparated_utf8 fun part member => ?_)) (utf8_of_all (by decide))
  obtain ⟨⟨key, value⟩, stored, rfl⟩ := List.mem_map.mp member
  exact otlpPoint_utf8 (utf8 key (mem_of_mem_toList stored)) field now value

theorem buildOtlpJson_utf8 {data : MetricMap} {serviceName : Bytes}
    (utf8 : ∀ key ∈ data, (splitKey key).IsUtf8) (named : Utf8 serviceName) (now : Int)
    : Utf8 (buildOtlpJson now data serviceName) := by
  delta buildOtlpJson
  refine .append (.append (.append (.append (.append (utf8_of_all (by decide)) (utf8_of_all (by decide)))
    (escapes_otlp.utf8 named)) (utf8_of_all (by decide)))
    (commaSeparated_utf8 fun part member => ?_)) (utf8_of_all (by decide))
  obtain ⟨field, -, rfl⟩ := List.mem_map.mp member
  exact otlpMetric_utf8 utf8 now field

-- Nothing is lost

/-- The key is made of these labels, in UTF-8 and without the separator. -/
structure BuiltFrom (key : Bytes) (labels : MetricLabels) : Prop extends labels.IsUtf8 where
  joined : key = labels.direction ++ [keySeparator] ++ labels.rpcName ++ [keySeparator]
    ++ labels.metadata
  direction_free : keySeparator ∉ labels.direction
  rpcName_free : keySeparator ∉ labels.rpcName
  metadata_free : keySeparator ∉ labels.metadata

theorem BuiltFrom.splitKey_eq {key : Bytes} {labels : MetricLabels} (built : BuiltFrom key labels)
    : splitKey key = labels := by
  have joined := splitKey_joined built.direction_free built.rpcName_free labels.metadata
  rw [built.joined, List.append_assoc, List.append_assoc, List.append_assoc]
  exact joined

/-- Both texts are documents in UTF-8 that have each bucket once, with its labels and its numbers. -/
theorem texts_lossless (data : MetricMap) (labelsOf : Bytes → MetricLabels)
    (built : ∀ key ∈ data, BuiltFrom key (labelsOf key)) (now : Int) (serviceName : Bytes)
    : Utf8 (jsonText data)
      ∧ Json.decode (jsonText data) = some (pointsJson labelsOf data)
      ∧ (Utf8 serviceName → Utf8 (buildOtlpJson now data serviceName))
      ∧ Json.decode (buildOtlpJson now data serviceName)
        = some (exportJson now labelsOf data serviceName) := by
  have utf8 : ∀ key ∈ data, (splitKey key).IsUtf8 := by
    intro key stored
    rw [(built key stored).splitKey_eq]
    exact (built key stored).toIsUtf8
  have buckets {json : MetricLabels → MetricValue → Json}
      : (data.toList.map fun (key, value) => json (splitKey key) value)
        = data.toList.map fun (key, value) => json (labelsOf key) value := by
    refine List.map_congr_left fun bucket stored => ?_
    exact congrArg (json · bucket.2) (built bucket.1 (mem_of_mem_toList stored)).splitKey_eq
  have points : pointsJson splitKey data = pointsJson labelsOf data := by
    rw [pointsJson, pointsJson, @buckets pointJson]
  have metrics : metricJson now splitKey data = metricJson now labelsOf data := by
    funext field
    rw [metricJson, metricJson,
      @buckets fun labels value => dataPointJson now labels (value.field field)]
  refine ⟨jsonText_utf8 utf8, points ▸ (jsonText_reads data).decode,
    fun named => buildOtlpJson_utf8 utf8 named now, ?_⟩
  rw [(buildOtlpJson_reads now data serviceName).decode, exportJson, metrics, exportJson]

/-- Labels with a quote, a control byte and a character of two bytes. -/
def quotedLabels : MetricLabels where
  direction := ascii "in"
  rpcName := ascii "a\"b\n"
  metadata := [107, 61, 195, 169]

/-- One bucket with these labels. -/
theorem texts_lossless_quoted
    : let data : MetricMap := (∅ : MetricMap).insert
        (ascii "in" ++ [keySeparator] ++ ascii "a\"b\n" ++ [keySeparator] ++ [107, 61, 195, 169])
        { calls := 18446744073709551615 }
      Json.decode (jsonText data) = some (pointsJson (fun _ => quotedLabels) data) := by
  refine (texts_lossless _ _ (fun key stored => ?_) 0 []).2.1
  have same : ascii "in" ++ [keySeparator] ++ ascii "a\"b\n" ++ [keySeparator] ++ [107, 61, 195, 169]
      = key := by
    rcases Std.TreeMap.mem_insert.mp stored with same | none
    · exact Std.LawfulEqCmp.eq_of_compare same
    · exact absurd none Std.TreeMap.not_mem_emptyc
  rw [← same]
  exact {
    direction := utf8_of_all (by decide)
    rpcName := utf8_of_all (by decide)
    metadata := ⟨['k', '=', 'é'], by decide⟩
    joined := rfl
    direction_free := by decide
    rpcName_free := by decide
    metadata_free := by decide
  }

end Creek.Telemetry
