import Creek.Library.Numerals
import Creek.Mesh.Balancer

/-! Metrics of calls: what is recorded of a call, the keys of the buckets, and the texts in which
the buckets are shown.
-/

namespace Creek.Telemetry

open Library (ascii decimal signedDecimal)
open Mesh (Metadata)
open Tight (Bytes)

-- Events, buckets and keys

structure MetricEvent where
  direction : Bytes := []
  rpcName : Bytes := []
  metadata : Metadata := ∅
  bytes : UInt64 := 0
  latencyUs : UInt64 := 0
  success : Bool := true

structure MetricValue where
  calls : UInt64 := 0
  errors : UInt64 := 0
  bytes : UInt64 := 0
  latencyUs : UInt64 := 0
  deriving DecidableEq, Repr

/-- The buckets, by their keys. -/
abbrev MetricMap := Std.TreeMap Bytes MetricValue

/-- Adds an event to a bucket. -/
def MetricValue.add (event : MetricEvent) (value : MetricValue) : MetricValue where
  calls := value.calls + 1
  errors := if event.success then value.errors else value.errors + 1
  bytes := value.bytes + event.bytes
  latencyUs := value.latencyUs + event.latencyUs

/-- `kKeySeparator`. -/
def keySeparator : UInt8 := 0x1f

/-- The entries of a map as `name=value`, in their order. -/
def metadataString (metadata : Metadata) : Bytes :=
  (ascii ";").intercalate (metadata.toList.map fun (name, value) => name ++ ascii "=" ++ value)

/-- What a bucket is about, as it is shown. -/
structure MetricLabels where
  direction : Bytes := []
  rpcName : Bytes := []
  metadata : Bytes := []
  deriving DecidableEq, Repr

/-- The key of the bucket of an event. -/
def key (event : MetricEvent) : Bytes :=
  event.direction ++ [keySeparator] ++ event.rpcName ++ [keySeparator]
    ++ metadataString event.metadata

/-- Takes a key apart at its first two separators. -/
def splitKey (key : Bytes) : MetricLabels :=
  let direction := key.takeWhile (· != keySeparator)
  match key.dropWhile (· != keySeparator) with
  | [] => { direction }
  | _ :: rest =>
      let rpcName := rest.takeWhile (· != keySeparator)
      match rest.dropWhile (· != keySeparator) with
      | [] => { direction, rpcName }
      | _ :: metadata => { direction, rpcName, metadata }

/-- The exporter has a copy of the same function. -/
def splitKeyOtlp (key : Bytes) : MetricLabels := splitKey key

/-- Books an event in its bucket. -/
def bookIn (buckets : MetricMap) (event : MetricEvent) : MetricMap :=
  buckets.insert (key event) ((buckets.getD (key event) {}).add event)

-- The texts

def escapeOpenmetricsLabel (s : Bytes) : Bytes :=
  s.flatMap fun byte =>
    if byte = 92 then ascii "\\\\"
    else if byte = 34 then ascii "\\\""
    else if byte = 10 then ascii "\\n"
    else [byte]

/-- The byte of a character in ASCII. -/
def letter (char : Char) : UInt8 := char.toNat.toUInt8

/-- A digit of `%x`. -/
def hexDigit (digit : Nat) : UInt8 :=
  if digit < 10 then 48 + digit.toUInt8 else 87 + digit.toUInt8

/-- `\u%04x` of a byte. -/
def unicodeEscape (byte : UInt8) : Bytes :=
  ascii "\\u00" ++ [hexDigit (byte.toNat / 16), hexDigit (byte.toNat % 16)]

/-- Escapes a string with short escapes for some bytes. Other control bytes are given by their
numbers. -/
def escapeJson (short : List (UInt8 × UInt8)) (s : Bytes) : Bytes :=
  s.flatMap fun byte =>
    match short.lookup byte with
    | some letter => [92, letter]
    | none => if byte < 0x20 then unicodeEscape byte else [byte]

def escapeJsonString (s : Bytes) : Bytes :=
  escapeJson
    [(34, 34), (92, 92), (10, letter 'n'), (13, letter 'r'), (9, letter 't'), (8, letter 'b'),
      (12, letter 'f')] s

/-- There are no short escapes for backspace and form feed here. -/
def escapeJsonStringOtlp (s : Bytes) : Bytes :=
  escapeJson [(34, 34), (92, 92), (10, letter 'n'), (13, letter 'r'), (9, letter 't')] s

/-- The fields of a bucket. -/
inductive MetricField where
  | calls
  | errors
  | bytes
  | latencyUs
  deriving DecidableEq, Repr

def MetricValue.field (value : MetricValue) : MetricField → UInt64
  | .calls => value.calls
  | .errors => value.errors
  | .bytes => value.bytes
  | .latencyUs => value.latencyUs

/-- The name under which a field is exposed. -/
def MetricField.metric : MetricField → Bytes
  | .calls => ascii "creek_rpc_calls_total"
  | .errors => ascii "creek_rpc_errors_total"
  | .bytes => ascii "creek_rpc_bytes_total"
  | .latencyUs => ascii "creek_rpc_latency_microseconds_total"

def MetricField.help : MetricField → Bytes
  | .calls => ascii "Total number of RPC calls handled."
  | .errors => ascii "Total number of RPC errors observed."
  | .bytes => ascii "Total bytes transferred by RPCs."
  | .latencyUs => ascii "Total RPC latency in microseconds."

/-- The name of a metric with its labels. -/
def seriesText (name : Bytes) (labels : MetricLabels) : Bytes :=
  name ++ ascii "\x7bdirection=\"" ++ escapeOpenmetricsLabel labels.direction ++ ascii "\""
    ++ ascii ",rpc=\"" ++ escapeOpenmetricsLabel labels.rpcName ++ ascii "\""
    ++ ascii ",metadata=\"" ++ escapeOpenmetricsLabel labels.metadata ++ ascii "\"\x7d"

/-- The lines of one metric. -/
def appendMetricLines (name help type : Bytes) (field : MetricField) (source : MetricMap) : Bytes :=
  ascii "# HELP " ++ name ++ ascii " " ++ help ++ ascii "\n"
    ++ ascii "# TYPE " ++ name ++ ascii " " ++ type ++ ascii "\n"
    ++ source.toList.flatMap fun (key, value) =>
      seriesText name (splitKey key) ++ ascii " " ++ decimal (value.field field).toNat ++ ascii "\n"

def openmetricsText (source : MetricMap) : Bytes :=
  ([.calls, .errors, .bytes, .latencyUs] : List MetricField).flatMap (fun field =>
      appendMetricLines field.metric field.help (ascii "counter") field source)
    ++ ascii "# EOF\n"

/-- One point of the JSON text. -/
def jsonPoint (key : Bytes) (value : MetricValue) : Bytes :=
  let labels := splitKey key
  ascii "\x7b\"direction\":\"" ++ escapeJsonString labels.direction ++ ascii "\","
    ++ ascii "\"rpc_name\":\"" ++ escapeJsonString labels.rpcName ++ ascii "\","
    ++ ascii "\"metadata\":\"" ++ escapeJsonString labels.metadata ++ ascii "\","
    ++ ascii "\"calls\":" ++ decimal value.calls.toNat ++ ascii ","
    ++ ascii "\"errors\":" ++ decimal value.errors.toNat ++ ascii ","
    ++ ascii "\"bytes\":" ++ decimal value.bytes.toNat ++ ascii ","
    ++ ascii "\"latency_us\":" ++ decimal value.latencyUs.toNat ++ ascii "\x7d"

/-- Texts with a comma before each but the first one. -/
def commaSeparated (items : List Bytes) : Bytes := (ascii ",").intercalate items

def jsonText (data : MetricMap) : Bytes :=
  ascii "\x7b\"points\":["
    ++ commaSeparated (data.toList.map fun (key, value) => jsonPoint key value)
    ++ ascii "]\x7d"

/-- One attribute of an OTLP data point. -/
def otlpAttribute (name value : Bytes) : Bytes :=
  ascii "\x7b\"key\":\"" ++ name ++ ascii "\",\"value\":\x7b\"stringValue\":\""
    ++ escapeJsonStringOtlp value ++ ascii "\"\x7d\x7d"

/-- One OTLP data point. -/
def otlpPoint (field : MetricField) (timeNanos key : Bytes) (value : MetricValue) : Bytes :=
  let labels := splitKeyOtlp key
  ascii "\x7b\"attributes\":[" ++ otlpAttribute (ascii "direction") labels.direction ++ ascii ","
    ++ otlpAttribute (ascii "rpc_name") labels.rpcName ++ ascii ","
    ++ otlpAttribute (ascii "metadata") labels.metadata ++ ascii "],\"timeUnixNano\":\""
    ++ timeNanos ++ ascii "\",\"asInt\":\"" ++ decimal (value.field field).toNat ++ ascii "\"\x7d"

/-- One OTLP metric with its data points. -/
def otlpMetric (timeNanos : Bytes) (data : MetricMap) (field : MetricField) : Bytes :=
  ascii "\x7b\"name\":\"" ++ field.metric ++ ascii "\",\"gauge\":\x7b\"dataPoints\":["
    ++ commaSeparated (data.toList.map fun (key, value) => otlpPoint field timeNanos key value)
    ++ ascii "]\x7d\x7d"

/-- The request body of an export, at a time of the system clock in nanoseconds. -/
def buildOtlpJson (now : Int) (data : MetricMap) (serviceName : Bytes) : Bytes :=
  let timeNanos := signedDecimal now
  ascii "\x7b\"resourceMetrics\":[\x7b\"resource\":\x7b\"attributes\":"
    ++ ascii "[\x7b\"key\":\"service.name\",\"value\":\x7b\"stringValue\":\""
    ++ escapeJsonStringOtlp serviceName
    ++ ascii "\"\x7d\x7d]\x7d,\"scopeMetrics\":[\x7b\"scope\":\x7b\"name\":\"creek\"\x7d,\"metrics\":["
    ++ commaSeparated
      (([.calls, .errors, .bytes, .latencyUs] : List MetricField).map (otlpMetric timeNanos data))
    ++ ascii "]\x7d]\x7d]\x7d"

end Creek.Telemetry
