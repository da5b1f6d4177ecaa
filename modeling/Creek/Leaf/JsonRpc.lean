import Creek.Leaf.PendingCalls
import Creek.Telemetry.Metrics
import Creek.Telemetry.TraceContext

/-! The JSON-RPC entry of a leaf: from the body of a request to the body of the response. -/

namespace Creek.Leaf

open Library (ascii)
open Mesh (Metadata)
open Telemetry (Draw TraceHeaders traceHeaders)
open Tight (Bytes)

/-- What the program uses of `nlohmann::json`, which is not part of it. An exception is given by what it
says. `member?` stands for `contains` and `operator[]`, `string?`, `boolean?` and `members?` for a test of
the type and the access after it, `valueOr` and `stringOr` for `value` with a default. An object is built
from members with different names.
-/
structure JsonLibrary where
  Value : Type
  parse : Bytes → Except Bytes Value
  dump : Value → Except Bytes Bytes
  object : List (Bytes × Value) → Value
  string : Bytes → Value
  integer : Int → Value
  member? : Bytes → Value → Option Value
  members? : Value → Option (List (Bytes × Value))
  string? : Value → Option Bytes
  boolean? : Value → Option Bool
  valueOr : Value → Bytes → Value → Except Bytes Value
  stringOr : Value → Bytes → Bytes → Except Bytes Bytes

-- The call

structure HelloRequest where
  name : Bytes
  sid : Bytes
  sticky : Bool
  deriving DecidableEq, Repr

/-- What the parameters, the metadata and the headers of a request say. -/
structure CallInputs where
  sid : Bytes
  sticky : Bool := true
  metadata : Metadata := ∅

def readSticky (text : Bytes) : Bool := text = ascii "true" || text = ascii "1"

/-- A member of the metadata of a request. -/
def CallInputs.metadataMember (library : JsonLibrary) (inputs : CallInputs)
    (member : Bytes × library.Value)
    : CallInputs :=
  let (key, value) := member
  match library.string? value with
  | none => inputs
  | some text =>
      let inputs := if key = ascii "sticky" then { inputs with sticky := readSticky text } else inputs
      let inputs := if key = ascii "sid" then { inputs with sid := text } else inputs
      if key = ascii "shard_key" || key = ascii "tenant_id" then
        { inputs with metadata := inputs.metadata.insert (ascii "shard_key") text }
      else inputs

/-- A header that turns stickiness on or off. -/
def CallInputs.stickyHeader (name : Bytes) (headers : Metadata) (inputs : CallInputs) : CallInputs :=
  match headers[name]? with
  | some value => { inputs with sticky := readSticky value }
  | none => inputs

/-- A header that gives the session, unless it is empty. -/
def CallInputs.sidHeader (name : Bytes) (headers : Metadata) (inputs : CallInputs) : CallInputs :=
  match headers[name]? with
  | some value => if value.isEmpty then inputs else { inputs with sid := value }
  | none => inputs

/-- The first header for a shard, unless it is empty. -/
def CallInputs.shardHeader (headers : Metadata) (inputs : CallInputs) : CallInputs :=
  match headers[ascii "x-creek-shard"]? <|> headers[ascii "shard_key"]?
    <|> headers[ascii "tenant_id"]? with
  | some value =>
      if value.isEmpty then inputs
      else { inputs with metadata := inputs.metadata.insert (ascii "shard_key") value }
  | none => inputs

/-- The headers override what the body says, the later ones the earlier. -/
def CallInputs.headers (headers : Metadata) (inputs : CallInputs) : CallInputs :=
  (((inputs.stickyHeader (ascii "x-creek-sticky") headers).sidHeader (ascii "x-creek-sid") headers
    |>.stickyHeader (ascii "sticky") headers).sidHeader (ascii "sid") headers).shardHeader headers

/-- What the body of a request says; the accessors throw where a type is not the expected one. -/
def readBody (library : JsonLibrary) (request : library.Value) : Except Bytes (Bytes × CallInputs) := do
  let params ← library.valueOr request (ascii "params") (library.object [])
  let name ← library.stringOr params (ascii "name") []
  let sid ← library.stringOr params (ascii "sid") []
  let inputs : CallInputs :=
    match (library.member? (ascii "sticky") params).bind library.boolean? with
    | some sticky => { sid, sticky }
    | none => { sid }
  let inputs :=
    match (library.member? (ascii "metadata") request).bind library.members? with
    | some members => members.foldl (CallInputs.metadataMember library) inputs
    | none => inputs
  return (name, inputs)

/-- The metadata of the call to the backend. -/
def callMetadata (draw : Draw) (headers : Metadata) (inputs : CallInputs) : Metadata :=
  let metadata := inputs.metadata.insert (ascii "sid") inputs.sid
  let metadata :=
    metadata.insert (ascii "sticky") (if inputs.sticky then ascii "true" else ascii "false")
  let metadata := metadata.insert (ascii "x-sid") inputs.sid
  let child := (traceHeaders headers).child draw
  let metadata := metadata.insert (ascii "traceparent") child.traceparentSwapped
  if child.traceState.isEmpty then metadata
  else metadata.insert (ascii "tracestate") child.traceState

-- The response

/-- The member that says what went wrong. -/
def errorMember (library : JsonLibrary) (code : Int) (message : Bytes) : Bytes × library.Value :=
  (ascii "error",
    library.object [(ascii "code", library.integer code), (ascii "message", library.string message)])

def versionMember (library : JsonLibrary) : Bytes × library.Value :=
  (ascii "jsonrpc", library.string (ascii "2.0"))

def idMember (library : JsonLibrary) (id : Bytes) : Bytes × library.Value :=
  (ascii "id", library.string id)

def resultMember (library : JsonLibrary) (reply : HelloReply) : Bytes × library.Value :=
  (ascii "result",
    library.object
      [(ascii "message", library.string reply.message),
        (ascii "backend_id", library.string reply.backendId)])

/-- The text that is put for the id of a request: its value as it is printed. -/
def idText (library : JsonLibrary) (request : library.Value) : Except Bytes Bytes :=
  match library.member? (ascii "id") request with
  | some id => library.dump id
  | none => .ok (ascii "null")

/-- The members of the answer to a parsed request, given what becomes of the call. -/
def answer (library : JsonLibrary) (draw : Draw)
    (invokeForHello : HelloRequest → Metadata → Status × HelloReply) (request : library.Value)
    (headers : Metadata)
    : Except Bytes (List (Bytes × library.Value)) := do
  let id ← idText library request
  let opening := [versionMember library, idMember library id]
  match (library.member? (ascii "method") request).bind library.string? with
  | none => return opening ++ [errorMember library (-32600) (ascii "invalid request")]
  | some method =>
      if method ≠ ascii "SayHello" && method ≠ ascii "creek.SayHello" then
        return opening ++ [errorMember library (-32601) (ascii "method not found")]
      let (name, inputs) ← readBody library request
      let inputs := inputs.headers headers
      let helloRequest := { name, sid := inputs.sid, sticky := inputs.sticky }
      let (status, reply) := invokeForHello helloRequest (callMetadata draw headers inputs)
      if status.code = 0 then return opening ++ [resultMember library reply]
      else return opening ++ [errorMember library status.code status.message]

/-- `handle_json_rpc`: the status of the HTTP response and its body. -/
def handleJsonRpc (library : JsonLibrary) (draw : Draw)
    (invokeForHello : HelloRequest → Metadata → Status × HelloReply) (body : Bytes)
    (headers : Metadata)
    : Except Bytes (Int × Bytes) := do
  let members ←
    match library.parse body with
    | .error what =>
        pure [versionMember library, errorMember library (-32700) (ascii "parse error: " ++ what)]
    | .ok request => answer library draw invokeForHello request headers
  return (200, ← library.dump (library.object members))

end Creek.Leaf
