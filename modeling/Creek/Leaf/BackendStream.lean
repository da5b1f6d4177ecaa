import Creek.Leaf.IngressStream

/-! The backend side of a generic call, at the leaf that owns the endpoint: the queue of messages
for the backend, and what a leaf does with the messages of the mesh about a stream.
-/

namespace Creek.Leaf

open Tight (Bytes)
open Mesh (Endpoint RoutedStreamOpen RoutedStreamFrame RoutedStreamClose WireMessage)

def kMaxBackendWriteQueue : Nat := 1024

/-- Where the messages of a backend go: to the ingress stream of this leaf, or over the mesh to the
leaf that has opened the stream.
-/
inductive Origin where
  | here
  | there (leaf node : Bytes)
  deriving DecidableEq, Repr

/-- A proxied call to a backend. Its metadata and completion queue are left out. -/
structure BackendStream where
  requestId : Bytes
  origin : Origin
  writeQueue : List Bytes := []
  started : Bool := false
  writeOutstanding : Bool := false
  halfCloseRequested : Bool := false
  writesDoneSent : Bool := false
  finished : Bool := false
  overflowLogged : Bool := false
  deriving DecidableEq, Repr

/-- Operations on the call to the backend. -/
inductive BackendAction where
  | read
  | write (bytes : Bytes)
  | writesDone
  | finish
  | tryCancel
  deriving DecidableEq, Repr

namespace BackendStream

/-- Writes what waits, unless a write is under way; then the half-close, once. -/
def driveWrites (stream : BackendStream) : BackendStream × List BackendAction :=
  if !stream.started || stream.writeOutstanding || stream.finished then (stream, [])
  else
    match stream.writeQueue with
    | bytes :: rest =>
        ({ stream with writeQueue := rest, writeOutstanding := true }, [.write bytes])
    | [] =>
        if stream.halfCloseRequested && !stream.writesDoneSent then
          ({ stream with writesDoneSent := true }, [.writesDone])
        else (stream, [])

/-- Takes a message of the client. A backend that does not drain has its call cancelled. -/
def clientMessage (bytes : Bytes) (stream : BackendStream) : BackendStream × List BackendAction :=
  if stream.finished then (stream, [])
  else if stream.writeQueue.length ≥ kMaxBackendWriteQueue then
    ({ stream with overflowLogged := true }, [.tryCancel])
  else { stream with writeQueue := stream.writeQueue ++ [bytes] }.driveWrites

def clientHalfClose (stream : BackendStream) : BackendStream × List BackendAction :=
  if stream.finished then (stream, [])
  else { stream with halfCloseRequested := true }.driveWrites

/-- The call has started, or could not. -/
def onStart (ok : Bool) (stream : BackendStream) : BackendStream × List BackendAction :=
  if ok then
    let (stream, driven) := { stream with started := true }.driveWrites
    (stream, driven ++ [.read])
  else (stream, [.finish])

/-- A write has completed, successfully or not. -/
def onWrite (stream : BackendStream) : BackendStream × List BackendAction :=
  { stream with writeOutstanding := false }.driveWrites

end BackendStream

/-- What completes at the call to a backend. -/
inductive BackendCompletion where
  | start (ok : Bool)
  | read (message : Option Bytes)
  | write
  | writesDone
  | finish (status : Status)
  deriving DecidableEq, Repr

/-- What a leaf does about a stream: operations on the call of the client and on the call to the
backend, and messages to the mesh.
-/
inductive LeafAction where
  | client (action : IngressAction)
  | backend (action : BackendAction)
  | toMesh (destNode destLeaf : Bytes) (message : WireMessage)
  deriving DecidableEq, Repr

/-- What the registries of a leaf hold under one request id: the stream of a client, the call to a
backend, and when a frame for neither was last answered, in milliseconds.
-/
structure StreamSlot where
  ingress : Option IngressStream := none
  backend : Option BackendStream := none
  unknownReply : Option Nat := none
  deriving DecidableEq, Repr

/-- What a leaf reads when a message of the mesh arrives: whether the queue of its stream worker has
room, what its directory holds under the endpoint id, whether the call to the backend could be
created, and the time.
-/
structure Arrival where
  room : Bool := true
  endpoint : Option Endpoint := none
  created : Bool := false
  now : Nat := 0
  deriving DecidableEq, Repr

/-- A close of this leaf for another leaf. -/
def sendStreamCloseTo (around : Surroundings) (requestId destLeaf destNode : Bytes)
    (fromOrigin : Bool) (status : Int) (error : Bytes)
    : LeafAction :=
  .toMesh destNode destLeaf
    (.streamClose
      {
        requestId := requestId
        status := status
        error := error
        fromOrigin := fromOrigin
        originLeaf := around.leafId
        originNode := around.nodeId
        destinationLeaf := destLeaf
        destinationNode := destNode
        hopLimit := kDefaultBackendHopLimit
      })

/-- How long frames for unknown streams stay unanswered after an answer. -/
def kUnknownReplyMs : Nat := 5000

/-- The status that an error of the mesh stands for. -/
def statusOf (close : RoutedStreamClose) : Status where
  code :=
    if close.status > 0 then close.status
    else if close.status = 0 then 0
    else Status.unavailable
  message := close.error

namespace StreamSlot

/-- Carries out one action of the ingress stream. A second opening under the same request id, which
does not occur, would replace the first.
-/
def perform (slot : StreamSlot) : IngressAction → StreamSlot × List LeafAction
  | .startBackend _ =>
      let requestId := (slot.ingress.map (·.requestId)).getD []
      ({ slot with backend := some { requestId := requestId, origin := .here } }, [])
  | .clientMessage bytes =>
      match slot.backend with
      | none => (slot, [])
      | some backend =>
          let (backend, actions) := backend.clientMessage bytes
          ({ slot with backend := some backend }, actions.map .backend)
  | .clientHalfClose =>
      match slot.backend with
      | none => (slot, [])
      | some backend =>
          let (backend, actions) := backend.clientHalfClose
          ({ slot with backend := some backend }, actions.map .backend)
  | .cancelBackend => (slot, slot.backend.toList.map fun _ => .backend .tryCancel)
  | .toMesh destNode destLeaf message => (slot, [.toMesh destNode destLeaf message])
  | action => (slot, [.client action])

/-- Carries out actions of the ingress stream in order. -/
def performAll (slot : StreamSlot) : List IngressAction → StreamSlot × List LeafAction
  | [] => (slot, [])
  | action :: rest =>
      let (next, done) := slot.perform action
      let (last, later) := next.performAll rest
      (last, done ++ later)

/-- One event of the ingress stream, where there is one. -/
def onIngress (around : Surroundings) (event : IngressEvent) (slot : StreamSlot)
    : StreamSlot × List LeafAction :=
  match slot.ingress with
  | none => (slot, [])
  | some stream =>
      let (stream, actions) := stream.handle around event
      { slot with ingress := some stream }.performAll actions

/-- One completion at the call to the backend, where there is one. -/
def onBackend (around : Surroundings) (completion : BackendCompletion) (slot : StreamSlot)
    : StreamSlot × List LeafAction :=
  match slot.backend with
  | none => (slot, [])
  | some backend =>
      match completion with
      | .start ok =>
          let (backend, actions) := backend.onStart ok
          ({ slot with backend := some backend }, actions.map .backend)
      | .write =>
          let (backend, actions) := backend.onWrite
          ({ slot with backend := some backend }, actions.map .backend)
      | .writesDone => (slot, [])
      | .read none => (slot, [.backend .finish])
      | .read (some bytes) =>
          match backend.origin with
          | .here =>
              let (slot, actions) := slot.onIngress around (.backendMessage bytes)
              (slot, actions ++ [.backend .read])
          | .there leaf node =>
              (
                slot,
                [
                  .toMesh node leaf
                    (.streamFrame
                      {
                        requestId := backend.requestId
                        payload := bytes
                        halfClose := false
                        fromOrigin := false
                        originLeaf := around.leafId
                        originNode := around.nodeId
                        destinationLeaf := leaf
                        destinationNode := node
                        hopLimit := kDefaultBackendHopLimit
                      }),
                  .backend .read
                ]
              )
      | .finish status =>
          let slot := { slot with backend := none }
          match backend.origin with
          | .here => slot.onIngress around (.backendClosed status)
          | .there leaf node =>
              (
                slot,
                [
                  sendStreamCloseTo around backend.requestId leaf node false status.code
                    status.message
                ]
              )

/-- Opens the call to the backend for another leaf. -/
def processStreamOpen (around : Surroundings) (arrival : Arrival) (opening : RoutedStreamOpen)
    (slot : StreamSlot)
    : StreamSlot × List LeafAction :=
  let refuse (error : String) : StreamSlot × List LeafAction :=
    (
      slot,
      [
        sendStreamCloseTo around opening.requestId opening.originLeaf opening.originNode false (-1)
          error.toUTF8.toList
      ]
    )
  if opening.destinationLeaf ≠ around.leafId then refuse "wrong_destination_leaf"
  else
    match arrival.endpoint with
    | none => refuse "endpoint_not_found"
    | some endpoint =>
        if !endpoint.alive then refuse "endpoint_not_found"
        else if !arrival.created then refuse "backend_call_create_failed"
        else
          (
            {
              slot with
              backend :=
                some
                  {
                    requestId := opening.requestId
                    origin := .there opening.originLeaf opening.originNode
                  }
            },
            []
          )

/-- Takes a frame from the client's leaf to the backend, or from the backend's leaf to the client. -/
def processStreamFrame (around : Surroundings) (arrival : Arrival) (frame : RoutedStreamFrame)
    (slot : StreamSlot)
    : StreamSlot × List LeafAction :=
  if frame.fromOrigin then
    match slot.backend with
    | some backend =>
        let (backend, actions) :=
          if frame.halfClose then backend.clientHalfClose
          else if frame.payload ≠ [] then backend.clientMessage frame.payload
          else (backend, [])
        ({ slot with backend := some backend }, actions.map .backend)
    | none =>
        let reply : Bool :=
          match slot.unknownReply with
          | none => true
          | some last => arrival.now - last > kUnknownReplyMs
        if reply then
          (
            { slot with unknownReply := some arrival.now },
            [
              sendStreamCloseTo around frame.requestId frame.originLeaf frame.originNode false (-1)
                "unknown_stream".toUTF8.toList
            ]
          )
        else (slot, [])
  else
    match slot.ingress with
    | none =>
        (
          slot,
          [
            sendStreamCloseTo around frame.requestId frame.originLeaf frame.originNode true 1
              "unknown_stream".toUTF8.toList
          ]
        )
    | some _ =>
        if frame.payload = [] then (slot, [])
        else slot.onIngress around (.backendMessage frame.payload)

def processStreamClose (around : Surroundings) (close : RoutedStreamClose) (slot : StreamSlot)
    : StreamSlot × List LeafAction :=
  if close.fromOrigin then (slot, slot.backend.toList.map fun _ => .backend .tryCancel)
  else slot.onIngress around (.backendClosed (statusOf close))

/-- A message of the mesh about the stream, which the single stream worker takes in the order of
arrival. Where its queue is full, an opening is refused and everything else is dropped.
-/
def onMessage (around : Surroundings) (arrival : Arrival) (slot : StreamSlot)
    : WireMessage → StreamSlot × List LeafAction
  | .streamOpen opening =>
      if arrival.room then slot.processStreamOpen around arrival opening
      else
        (
          slot,
          [
            sendStreamCloseTo around opening.requestId opening.originLeaf opening.originNode false
              (-1) "overloaded".toUTF8.toList
          ]
        )
  | .streamFrame frame =>
      if arrival.room then slot.processStreamFrame around arrival frame else (slot, [])
  | .streamClose close => if arrival.room then slot.processStreamClose around close else (slot, [])
  | .request _ => (slot, [])
  | .response _ => (slot, [])

/-- The sweeper forgets a stream whose call has ended. -/
def sweep (slot : StreamSlot) : StreamSlot :=
  match slot.ingress with
  | none => slot
  | some stream => if stream.dead then { slot with ingress := none } else slot

end StreamSlot

end Creek.Leaf
