import Creek.Mesh.Routing

/-! The client side of a generic call at the leaf it enters: reads, writes and the end of the
call, driven by completions of the call and by what comes from the backend. Times, which only
the sweeper of idle streams reads, are left out; the sweeper is a teardown at any time.
-/

namespace Creek.Leaf

open Tight (Bytes)
open Mesh (Endpoint RoutedStreamOpen RoutedStreamFrame RoutedStreamClose WireMessage)

/-- The status a call ends with. -/
structure Status where
  code : Int := 0
  message : Bytes := []
  deriving DecidableEq, Repr

namespace Status

def cancelled : Int := 1
def resourceExhausted : Int := 8
def internal : Int := 13
def unavailable : Int := 14

end Status

def kDefaultBackendHopLimit : UInt32 := 16
def kMaxIngressWriteQueue : Nat := 256

/-- What the picking of an endpoint for a call came to: an error, or an endpoint, and for an
endpoint of this leaf whether the call to the backend could be created.
-/
inductive Pick where
  | refused (status : Status)
  | picked (endpoint : Endpoint) (created : Bool)
  deriving DecidableEq, Repr

/-- What a handler reads from the leaf: its id, the node it goes through, the pick and the
deadline for a stream that is opened now.
-/
structure Surroundings where
  leafId : Bytes
  nodeId : Bytes
  pick : Pick
  deadlineMs : UInt64
  deriving DecidableEq, Repr

/-- How far the classification of a call is. -/
inductive Phase where
  | fresh
  | firstRead
  | classifying
  | streaming
  deriving DecidableEq, Repr

structure IngressStream where
  phase : Phase := .fresh
  readOutstanding : Bool := false
  readStopped : Bool := false
  writeOutstanding : Bool := false
  finishing : Bool := false
  finishPending : Bool := false
  finishStatus : Status := {}
  buffered : List Bytes := []
  writeQueue : List Bytes := []
  method : Bytes := []
  requestId : Bytes := []
  metadata : List (Bytes × Bytes) := []
  remote : Bool := false
  destLeaf : Bytes := []
  destNode : Bytes := []
  backend : Bool := false
  backendConfirmed : Bool := false
  dead : Bool := false
  deriving DecidableEq, Repr

/-- What a handler does besides changing the stream: operations of the client call, calls on the
backend stream that the leaf has registered for it, if there is one, and messages to the mesh.
-/
inductive IngressAction where
  | read
  | write (bytes : Bytes)
  | finish (status : Status)
  | setAlarm
  | cancelAlarm
  | startBackend (endpoint : Endpoint)
  | clientMessage (bytes : Bytes)
  | clientHalfClose
  | cancelBackend
  | toMesh (destNode destLeaf : Bytes) (message : WireMessage)
  deriving DecidableEq, Repr

namespace IngressStream

/-- A call that was just accepted, with its first read under way. -/
def newCall (requestId method : Bytes) (metadata : List (Bytes × Bytes)) : IngressStream where
  phase := .firstRead
  readOutstanding := true
  requestId := requestId
  method := method
  metadata := metadata

/-- Whether the stream takes no further input or output. -/
def isOver (stream : IngressStream) : Bool := stream.dead || stream.finishing

/-- Ends the call once nothing is under way and nothing waits to be written; otherwise notes that
the call is to end.
-/
def tryFinish (stream : IngressStream) : IngressStream × List IngressAction :=
  if stream.isOver then (stream, [])
  else if stream.writeOutstanding || !stream.writeQueue.isEmpty then
    ({ stream with finishPending := true }, [])
  else if stream.readOutstanding then
    ({ stream with finishPending := true, readStopped := true }, [])
  else ({ stream with finishing := true }, [.cancelAlarm, .finish stream.finishStatus])

/-- Passes a client message or the half-close on, over the mesh or to the backend call. -/
def forwardFrame (around : Surroundings) (bytes : Bytes) (halfClose : Bool) (stream : IngressStream)
    : List IngressAction :=
  if stream.isOver then []
  else if stream.remote then
    [
      .toMesh stream.destNode stream.destLeaf
        (.streamFrame
          {
            requestId := stream.requestId
            payload := bytes
            halfClose := halfClose
            fromOrigin := true
            originLeaf := around.leafId
            originNode := around.nodeId
            destinationLeaf := stream.destLeaf
            destinationNode := stream.destNode
            hopLimit := kDefaultBackendHopLimit
          })
    ]
  else if halfClose then [.clientHalfClose]
  else [.clientMessage bytes]

/-- Passes on what was read before the stream was opened. -/
def flush (around : Surroundings) (stream : IngressStream) : IngressStream × List IngressAction :=
  let pending := stream.buffered
  let stream := { stream with buffered := [] }
  (stream, pending.flatMap fun bytes => stream.forwardFrame around bytes false)

/-- Opens the stream at the picked endpoint, here or at another leaf. Without a backend call it finishes,
where the source locks again the mutex that it holds.
-/
def beginStream (around : Surroundings) (stream : IngressStream)
    : IngressStream × List IngressAction :=
  match around.pick with
  | .refused status =>
      if stream.isOver then (stream, []) else { stream with finishStatus := status }.tryFinish
  | .picked endpoint created =>
      if endpoint.ownerLeaf = around.leafId then
        if created then
          let (stream, flushed) := { stream with remote := false, backend := true }.flush around
          (stream, .startBackend endpoint :: flushed)
        else if stream.isOver then stream.tryFinish
        else
          {
            stream with
            finishStatus :=
              { code := Status.internal, message := "backend_call_create_failed".toUTF8.toList }
          }.tryFinish
      else
        let opening : RoutedStreamOpen :=
          {
            requestId := stream.requestId
            originLeaf := around.leafId
            originNode := around.nodeId
            destinationLeaf := endpoint.ownerLeaf
            destinationNode := endpoint.ownerNode
            endpointId := endpoint.endpointId
            rpcName := stream.method
            metadata := stream.metadata
            deadlineMs := around.deadlineMs
            hopLimit := kDefaultBackendHopLimit
          }
        let (stream, flushed) :=
          {
            stream with
            remote := true
            destLeaf := endpoint.ownerLeaf
            destNode := endpoint.ownerNode
          }.flush around
        (stream, .toMesh endpoint.ownerNode endpoint.ownerLeaf (.streamOpen opening) :: flushed)

/-- Opens the stream of a client that has already half-closed. -/
def beginHalfClosed (around : Surroundings) (stream : IngressStream)
    : IngressStream × List IngressAction :=
  let (stream, begun) := stream.beginStream around
  (stream, begun ++ stream.forwardFrame around [] true)

/-- Breaks the stream off: cancels the backend call, closes the other end, and ends the call. -/
def teardown (around : Surroundings) (status : Status) (stream : IngressStream)
    : IngressStream × List IngressAction :=
  if stream.isOver then (stream, [.cancelBackend])
  else
    let stream := { stream with finishStatus := status, readStopped := true, backend := false }
    let closing :=
      if stream.remote && !stream.destLeaf.isEmpty then
        [
          IngressAction.toMesh stream.destNode stream.destLeaf
            (.streamClose
              {
                requestId := stream.requestId
                status := status.code
                error := status.message
                fromOrigin := true
                originLeaf := around.leafId
                originNode := around.nodeId
                destinationLeaf := stream.destLeaf
                destinationNode := stream.destNode
                hopLimit := kDefaultBackendHopLimit
              })
        ]
      else []
    let (stream, ended) := stream.tryFinish
    (stream, .cancelBackend :: (closing ++ ended))

/-- The status of a client that does not read. -/
def clientReadStall : Status where
  code := Status.resourceExhausted
  message := "client_read_stall".toUTF8.toList

/-- Writes a message to the client, or queues it behind the write that is under way. -/
def queueWrite (around : Surroundings) (bytes : Bytes) (stream : IngressStream)
    : IngressStream × List IngressAction :=
  if stream.isOver then (stream, [])
  else if stream.writeOutstanding then
    if stream.writeQueue.length ≥ kMaxIngressWriteQueue then
      { stream with finishStatus := clientReadStall, readStopped := true }.teardown around
        clientReadStall
    else ({ stream with writeQueue := stream.writeQueue ++ [bytes] }, [])
  else ({ stream with writeOutstanding := true }, [.write bytes])

def backendMessage (around : Surroundings) (bytes : Bytes) (stream : IngressStream)
    : IngressStream × List IngressAction :=
  { stream with backendConfirmed := true }.queueWrite around bytes

def backendClosed (status : Status) (stream : IngressStream)
    : IngressStream × List IngressAction :=
  if stream.isOver then (stream, [])
  else
    {
      stream with
      backendConfirmed := true
      finishStatus := status
      readStopped := true
      backend := false
    }.tryFinish

/-- A read has completed, with a message or with the end of the client's messages. -/
def onRead (around : Surroundings) (message : Option Bytes) (stream : IngressStream)
    : IngressStream × List IngressAction :=
  if stream.dead then (stream, [])
  else
    let stream := { stream with readOutstanding := false }
    if stream.finishPending || stream.finishing then stream.tryFinish
    else
      match stream.phase, message with
      | .fresh, _ => (stream, [])
      | .firstRead, some bytes =>
          (
            {
              stream with
              buffered := stream.buffered ++ [bytes]
              phase := .classifying
              readOutstanding := true
            },
            [.read, .setAlarm]
          )
      | .firstRead, none => { stream with phase := .streaming }.beginHalfClosed around
      | .classifying, some bytes =>
          let (stream, begun) :=
            {
              stream with
              buffered := stream.buffered ++ [bytes]
              phase := .streaming
              readOutstanding := true
            }.beginStream around
          (stream, .cancelAlarm :: .read :: begun)
      | .classifying, none =>
          let (stream, begun) := { stream with phase := .streaming }.beginHalfClosed around
          (stream, .cancelAlarm :: begun)
      | .streaming, some bytes =>
          if stream.readStopped then (stream, [])
          else
            (
              { stream with readOutstanding := true },
              .read :: stream.forwardFrame around bytes false
            )
      | .streaming, none =>
          if stream.readStopped then (stream, [])
          else ({ stream with readStopped := true }, stream.forwardFrame around [] true)

/-- The status of a client that cannot be written to. -/
def writeFailed : Status where
  code := Status.cancelled
  message := "write_failed".toUTF8.toList

/-- A write has completed. -/
def onWrite (around : Surroundings) (ok : Bool) (stream : IngressStream)
    : IngressStream × List IngressAction :=
  if stream.dead then (stream, [])
  else
    let stream := { stream with writeOutstanding := false }
    if !ok then stream.teardown around writeFailed
    else
      match stream.writeQueue with
      | bytes :: rest =>
          if !stream.finishing && !stream.finishPending then
            ({ stream with writeQueue := rest, writeOutstanding := true }, [.write bytes])
          else if stream.finishPending then stream.tryFinish
          else (stream, [])
      | [] => if stream.finishPending then stream.tryFinish else (stream, [])

/-- The end of the call has completed. -/
def onFinish (stream : IngressStream) : IngressStream := { stream with dead := true }

/-- The classification window is over, unless the alarm was cancelled. -/
def onAlarm (around : Surroundings) (ok : Bool) (stream : IngressStream)
    : IngressStream × List IngressAction :=
  if stream.dead || !ok then (stream, [])
  else if stream.phase ≠ .classifying then (stream, [])
  else { stream with phase := .streaming }.beginStream around

end IngressStream

/-- What happens to a stream. -/
inductive IngressEvent where
  | read (message : Option Bytes)
  | write (ok : Bool)
  | finish
  | alarm (ok : Bool)
  | backendMessage (bytes : Bytes)
  | backendClosed (status : Status)
  | teardown (status : Status)
  deriving DecidableEq, Repr

/-- One event of a stream. -/
def IngressStream.handle (around : Surroundings) (stream : IngressStream)
    : IngressEvent → IngressStream × List IngressAction
  | .read message => stream.onRead around message
  | .write ok => stream.onWrite around ok
  | .finish => (stream.onFinish, [])
  | .alarm ok => stream.onAlarm around ok
  | .backendMessage bytes => stream.backendMessage around bytes
  | .backendClosed status => stream.backendClosed status
  | .teardown status => stream.teardown around status

end Creek.Leaf
