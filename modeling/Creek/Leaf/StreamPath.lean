import Creek.Leaf.BackendStream
import Creek.Library.Runs

/-! One generic stream from the call of a client to the call to a backend: the slots of the two
leaves that its request id names, and the messages between them.
A stream whose endpoint is at the leaf of the client uses the slot of that leaf alone.
-/

namespace Creek.Leaf

open Tight (Bytes)
open Mesh (WireMessage)
open Library

/-- The messages of the mesh among actions. -/
def meshed (actions : List LeafAction) : List WireMessage :=
  actions.filterMap fun action =>
    match action with
    | .toMesh _ _ message => some message
    | _ => none

/-- The two leaves of a stream. -/
inductive Side where
  | origin
  | destination
  deriving DecidableEq, Repr

/-- What happens at the call of the client, and the teardown of idle streams. -/
inductive ClientEvent where
  | read (message : Option Bytes)
  | write (ok : Bool)
  | finish
  | alarm (ok : Bool)
  | teardown (status : Status)
  deriving DecidableEq, Repr

def ClientEvent.toIngress : ClientEvent → IngressEvent
  | .read message => .read message
  | .write ok => .write ok
  | .finish => .finish
  | .alarm ok => .alarm ok
  | .teardown status => .teardown status

/-- What happens to a stream. A delivery names the place of its message among those in flight. -/
inductive PathEvent where
  | client (event : ClientEvent)
  | backend (side : Side) (completion : BackendCompletion)
  | deliver (side : Side) (arrival : Arrival) (index : Nat)
  | sweep (side : Side)
  deriving DecidableEq, Repr

/-- The slots of the two leaves, the messages in flight to the destination and those to the origin,
oldest first.
-/
structure StreamPath where
  origin : StreamSlot
  destination : StreamSlot := {}
  outbound : List WireMessage := []
  inbound : List WireMessage := []
  deriving DecidableEq, Repr

namespace StreamPath

/-- The path of a call that was just accepted. -/
def newPath (requestId method : Bytes) (metadata : List (Bytes × Bytes)) : StreamPath where
  origin := { ingress := some (.newCall requestId method metadata) }

/-- The outcome of a handler at the origin. -/
def atOrigin (path : StreamPath) (outcome : StreamSlot × List LeafAction)
    : StreamPath × List LeafAction :=
  (
    { path with origin := outcome.1, outbound := path.outbound ++ meshed outcome.2 },
    outcome.2
  )

/-- The outcome of a handler at the destination. -/
def atDestination (path : StreamPath) (outcome : StreamSlot × List LeafAction)
    : StreamPath × List LeafAction :=
  (
    { path with destination := outcome.1, inbound := path.inbound ++ meshed outcome.2 },
    outcome.2
  )

/-- One event, in the surroundings of the leaf it happens at. -/
def handle (around : Surroundings) (path : StreamPath) : PathEvent → StreamPath × List LeafAction
  | .client event => path.atOrigin (path.origin.onIngress around event.toIngress)
  | .backend .origin completion => path.atOrigin (path.origin.onBackend around completion)
  | .backend .destination completion =>
      path.atDestination (path.destination.onBackend around completion)
  | .deliver .origin arrival index =>
      match path.inbound[index]? with
      | none => (path, [])
      | some message =>
          { path with inbound := path.inbound.eraseIdx index }.atOrigin
            (path.origin.onMessage around arrival message)
  | .deliver .destination arrival index =>
      match path.outbound[index]? with
      | none => (path, [])
      | some message =>
          { path with outbound := path.outbound.eraseIdx index }.atDestination
            (path.destination.onMessage around arrival message)
  | .sweep .origin => ({ path with origin := path.origin.sweep }, [])
  | .sweep .destination => ({ path with destination := path.destination.sweep }, [])

/-- One event as a step of a run; it cannot fail. -/
def step (path : StreamPath) (event : Surroundings × PathEvent)
    : Except Empty (StreamPath × List LeafAction) :=
  .ok (path.handle event.1 event.2)

end StreamPath

/-- What a client does on its stream: messages, and the end of its messages. -/
inductive ClientCall where
  | message (bytes : Bytes)
  | halfClose
  deriving DecidableEq, Repr

abbrev PathStage := Stage StreamPath (Surroundings × PathEvent) LeafAction

/-- What the client does in an event. -/
def PathEvent.calls : PathEvent → List ClientCall
  | .client (.read (some bytes)) => [.message bytes]
  | .client (.read none) => [.halfClose]
  | _ => []

namespace StreamPath

/-- The call to a backend that is registered at one side. -/
def backendAt (path : StreamPath) : Side → Option BackendStream
  | .origin => path.origin.backend
  | .destination => path.destination.backend

/-- What the backend sends in an event. -/
def brings (path : StreamPath) : PathEvent → List Bytes
  | .backend side (.read (some bytes)) => if (path.backendAt side).isSome then [bytes] else []
  | _ => []

/-- The messages in flight to one side, oldest first. -/
def inFlightTo (path : StreamPath) : Side → List WireMessage
  | .origin => path.inbound
  | .destination => path.outbound

/-- The message that an event delivers to one side. -/
def delivers (path : StreamPath) (side : Side) : PathEvent → List WireMessage
  | .deliver target _ index => if target = side then (path.inFlightTo side)[index]?.toList else []
  | _ => []

end StreamPath

/-- The side that an event happens at. -/
def PathEvent.side : PathEvent → Side
  | .client _ => .origin
  | .backend side _ => side
  | .deliver side _ _ => side
  | .sweep side => side

/-- Everything the client has done in a run, in order. -/
def clientCalls (history : List PathStage) : List ClientCall :=
  history.flatMap fun stage => stage.event.2.calls

/-- Everything the backend has sent in a run, in order. -/
def backendMessages (history : List PathStage) : List Bytes :=
  history.flatMap fun stage => stage.before.brings stage.event.2

/-- The messages that one side has been delivered in a run, in order. -/
def arrived (side : Side) (history : List PathStage) : List WireMessage :=
  history.flatMap fun stage => stage.before.delivers side stage.event.2

/-- The messages that one side has sent to the other in a run, in order. -/
def sentBy (side : Side) (history : List PathStage) : List WireMessage :=
  history.flatMap fun stage => if stage.event.2.side = side then meshed stage.outputs else []

end Creek.Leaf
