import Creek.Library.Numerals
import Creek.Mesh.Balancer

/-! Trace contexts: the spans that requests carry, their headers, and what a leaf hands on. -/

namespace Creek.Telemetry

open Library (ascii signedDecimal stoi)
open Mesh (Metadata)
open Tight (Bytes)

-- Spans and their headers

structure TraceSpan where
  traceId : Bytes := []
  spanId : Bytes := []
  parentSpanId : Bytes := []
  traceState : Bytes := []
  flags : Int := 0
  deriving DecidableEq, Repr

def TraceSpan.valid (span : TraceSpan) : Bool :=
  span.traceId.length = 32 && span.spanId.length = 16

/-- A header of version 00 with the given fields. -/
def headerText (traceId spanId flags : Bytes) : Bytes :=
  ascii "00-" ++ traceId ++ ascii "-" ++ spanId ++ ascii "-" ++ flags

/-- The flags as they are printed: the number in decimal, after a zero below ten. -/
def flagsText (flags : Int) : Bytes :=
  (if flags < 10 then ascii "0" else []) ++ signedDecimal flags

def TraceSpan.traceparent (span : TraceSpan) : Bytes :=
  headerText span.traceId span.spanId (flagsText span.flags)

def TraceSpan.traceparentSwapped (span : TraceSpan) : Bytes :=
  headerText span.traceId span.parentSpanId (flagsText span.flags)

-- Reading a header

/-- `std::isxdigit` in the C locale. -/
def isxdigit (byte : UInt8) : Bool :=
  (48 ≤ byte && byte ≤ 57) || (65 ≤ byte && byte ≤ 70) || (97 ≤ byte && byte ≤ 102)

def isHex (text : Bytes) : Bool := text.all isxdigit

def substr (text : Bytes) (position count : Nat) : Bytes := (text.drop position).take count

/-- A text without the blanks at its end. -/
def trimEnd (text : Bytes) : Bytes := (text.reverse.dropWhile (· = 32)).reverse

/-- The flags are read in hexadecimal; what is no number, or does not fit, counts as zero. -/
def readFlags (text : Bytes) : Int := (stoi 16 (trimEnd text)).getD 0

/-- Each field is kept before it is checked: a header that fails a check leaves a span with the
fields up to that one. -/
def parseTraceparent (header : Bytes) : TraceSpan :=
  if header.length < 55 then {}
  else if header[0]? ≠ some 48 || header[1]? ≠ some 48 || header[2]? ≠ some 45 then {}
  else
    let traceId := substr header 3 32
    if !isHex traceId || header[35]? ≠ some 45 then { traceId }
    else
      let spanId := substr header 36 16
      if !isHex spanId || header[52]? ≠ some 45 then { traceId, spanId }
      else { traceId, spanId, flags := readFlags (header.drop 53) }

-- A hop

/-- A number below sixteen as a digit. -/
def hexChar (value : UInt8) : UInt8 := if value < 10 then 48 + value else 87 + value

/-- `random_hex`, of the bytes that the generator draws. -/
def randomHex (drawn : Bytes) : Bytes :=
  drawn.flatMap fun byte : UInt8 => [hexChar (byte >>> 4), hexChar (byte &&& 0xF)]

/-- What the generator draws in a hop: a trace id and a span id, where the header gives none, and
the span id of the child. -/
structure Draw where
  trace : Vector UInt8 16
  root : Vector UInt8 8
  child : Vector UInt8 8

def Draw.traceId (draw : Draw) : Bytes := randomHex draw.trace.toList

def Draw.rootId (draw : Draw) : Bytes := randomHex draw.root.toList

def Draw.childId (draw : Draw) : Bytes := randomHex draw.child.toList

def extractOrCreate (draw : Draw) (traceparentHeader tracestateHeader : Bytes) : TraceSpan :=
  let root : TraceSpan :=
    { traceId := draw.traceId, spanId := draw.rootId, traceState := tracestateHeader }
  if traceparentHeader.isEmpty then root
  else
    let span := parseTraceparent traceparentHeader
    if span.valid then { span with traceState := tracestateHeader } else root

def createChild (draw : Draw) (parent : TraceSpan) : TraceSpan where
  traceId := parent.traceId
  parentSpanId := parent.spanId
  spanId := draw.childId
  traceState := parent.traceState
  flags := parent.flags

/-- The two headers of a trace. -/
structure TraceHeaders where
  traceparent : Bytes := []
  tracestate : Bytes := []
  deriving DecidableEq, Repr

/-- The child of the span that the headers give. -/
def TraceHeaders.child (headers : TraceHeaders) (draw : Draw) : TraceSpan :=
  createChild draw (extractOrCreate draw headers.traceparent headers.tracestate)

/-- The headers that a hop hands on. -/
def hop (headers : TraceHeaders) (draw : Draw) : TraceHeaders where
  traceparent := (headers.child draw).traceparentSwapped
  tracestate := (headers.child draw).traceState

/-- The headers after a hop for each draw. -/
def hops (headers : TraceHeaders) (draws : List Draw) : TraceHeaders := draws.foldl hop headers

/-- The headers in the metadata of a request. -/
def traceHeaders (metadata : Metadata) : TraceHeaders where
  traceparent := metadata.getD (ascii "traceparent") []
  tracestate := metadata.getD (ascii "tracestate") []

/-- The metadata that a leaf hands on with a request. -/
def forwardTrace (draw : Draw) (metadata : Metadata) : Metadata :=
  let span := (traceHeaders metadata).child draw
  let metadata := metadata.insert (ascii "traceparent") span.traceparentSwapped
  if span.traceState.isEmpty then metadata
  else metadata.insert (ascii "tracestate") span.traceState

end Creek.Telemetry
