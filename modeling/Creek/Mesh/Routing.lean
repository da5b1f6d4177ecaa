import Creek.Mesh.Node

/-! Routed messages and how a node passes them on: to a leaf of its own, or to the node they
name. What cannot be passed on is dropped, and a request or a stream that cannot be opened is
answered with an error, which is routed like any other reply.
-/

namespace Creek.Mesh

open Tight (Bytes)

/-- A unary call on its way to the leaf that owns the endpoint. -/
structure RoutedRequest where
  requestId : Bytes := []
  originLeaf : Bytes := []
  originNode : Bytes := []
  destinationLeaf : Bytes := []
  destinationNode : Bytes := []
  endpointId : Bytes := []
  rpcName : Bytes := []
  metadata : List (Bytes × Bytes) := []
  body : Bytes := []
  deadlineMs : UInt64 := 0
  hopLimit : UInt32 := 0
  deriving DecidableEq, Repr

/-- The reply to a unary call. -/
structure RoutedResponse where
  requestId : Bytes := []
  originLeaf : Bytes := []
  originNode : Bytes := []
  destinationLeaf : Bytes := []
  destinationNode : Bytes := []
  body : Bytes := []
  status : Int := 0
  error : Bytes := []
  hopLimit : UInt32 := 0
  deriving DecidableEq, Repr

/-- Opens a proxied stream at the leaf that owns the endpoint. -/
structure RoutedStreamOpen where
  requestId : Bytes := []
  originLeaf : Bytes := []
  originNode : Bytes := []
  destinationLeaf : Bytes := []
  destinationNode : Bytes := []
  endpointId : Bytes := []
  rpcName : Bytes := []
  metadata : List (Bytes × Bytes) := []
  deadlineMs : UInt64 := 0
  hopLimit : UInt32 := 0
  deriving DecidableEq, Repr

/-- One message of a proxied stream, in the direction `fromOrigin` tells. -/
structure RoutedStreamFrame where
  requestId : Bytes := []
  payload : Bytes := []
  halfClose : Bool := false
  fromOrigin : Bool := false
  originLeaf : Bytes := []
  originNode : Bytes := []
  destinationLeaf : Bytes := []
  destinationNode : Bytes := []
  hopLimit : UInt32 := 0
  deriving DecidableEq, Repr

/-- Ends a proxied stream. -/
structure RoutedStreamClose where
  requestId : Bytes := []
  status : Int := 0
  error : Bytes := []
  fromOrigin : Bool := false
  originLeaf : Bytes := []
  originNode : Bytes := []
  destinationLeaf : Bytes := []
  destinationNode : Bytes := []
  hopLimit : UInt32 := 0
  deriving DecidableEq, Repr

/-- The routed bodies of a wire message; the directory body goes to `handleDirectory`. -/
inductive WireMessage where
  | request (request : RoutedRequest)
  | response (response : RoutedResponse)
  | streamOpen (opening : RoutedStreamOpen)
  | streamFrame (frame : RoutedStreamFrame)
  | streamClose (close : RoutedStreamClose)
  deriving DecidableEq, Repr

/-- Why a message cannot be passed on. -/
inductive RouteError where
  | leafNotFound
  | hopLimitExceeded
  | nodeNotFound
  deriving DecidableEq, Repr

/-- The text of an error reply. -/
def RouteError.text : RouteError → Bytes
  | .leafNotFound => "leaf_not_found".toUTF8.toList
  | .hopLimitExceeded => "hop_limit_exceeded".toUTF8.toList
  | .nodeNotFound => "node_not_found".toUTF8.toList

/-- What a node does with a routed message: it sends it to a leaf or to a node, or makes an
error reply for it.
-/
inductive RouteAction where
  | toLeaf (leafId : Bytes) (message : WireMessage)
  | toNode (nodeId : Bytes) (message : WireMessage)
  | replied (message : WireMessage)
  deriving DecidableEq, Repr

namespace NodeRuntime

/-- The way of a message with the given destination, or why there is none: `delivered` is what
a leaf of this node gets, `forwarded` what the next node gets.
-/
def route (node : NodeRuntime) (destinationNode destinationLeaf : Bytes) (hopLimit : UInt32)
    (delivered forwarded : WireMessage)
    : Except RouteError RouteAction :=
  if destinationNode.isEmpty || destinationNode = node.config.id then
    if node.leaves.contains destinationLeaf then .ok (.toLeaf destinationLeaf delivered)
    else .error .leafNotFound
  else if hopLimit = 0 then .error .hopLimitExceeded
  else if !node.knownNodePeers.contains destinationNode then .error .nodeNotFound
  else .ok (.toNode destinationNode forwarded)

/-- What has no way is dropped. -/
def sendOrDrop : Except RouteError RouteAction → List RouteAction
  | .ok action => [action]
  | .error _ => []

def routeResponse (node : NodeRuntime) (response : RoutedResponse) : List RouteAction :=
  sendOrDrop (node.route response.destinationNode response.destinationLeaf response.hopLimit
    (.response { response with destinationNode := node.config.id })
    (.response { response with hopLimit := response.hopLimit - 1 }))

def routeStreamFrame (node : NodeRuntime) (frame : RoutedStreamFrame) : List RouteAction :=
  sendOrDrop (node.route frame.destinationNode frame.destinationLeaf frame.hopLimit
    (.streamFrame { frame with destinationNode := node.config.id })
    (.streamFrame { frame with hopLimit := frame.hopLimit - 1 }))

def routeStreamClose (node : NodeRuntime) (close : RoutedStreamClose) : List RouteAction :=
  sendOrDrop (node.route close.destinationNode close.destinationLeaf close.hopLimit
    (.streamClose { close with destinationNode := node.config.id })
    (.streamClose { close with hopLimit := close.hopLimit - 1 }))

/-- Makes the error reply to a request and routes it back. -/
def sendErrorResponse (node : NodeRuntime) (request : RoutedRequest) (error : Bytes)
    : List RouteAction :=
  let response : RoutedResponse :=
    {
      requestId := request.requestId
      originLeaf := request.destinationLeaf
      originNode := request.destinationNode
      destinationLeaf := request.originLeaf
      destinationNode := request.originNode
      status := -1
      error := error
      hopLimit := if request.hopLimit > 0 then request.hopLimit - 1 else 0
    }
  .replied (.response response) :: node.routeResponse response

/-- Makes the closing of a stream that cannot be opened and routes it back. -/
def sendStreamClose (node : NodeRuntime) (opening : RoutedStreamOpen) (error : Bytes)
    : List RouteAction :=
  let close : RoutedStreamClose :=
    {
      requestId := opening.requestId
      status := -1
      error := error
      fromOrigin := false
      originLeaf := opening.destinationLeaf
      originNode := opening.destinationNode
      destinationLeaf := opening.originLeaf
      destinationNode := opening.originNode
      hopLimit := if opening.hopLimit > 0 then opening.hopLimit - 1 else 0
    }
  .replied (.streamClose close) :: node.routeStreamClose close

def routeRequest (node : NodeRuntime) (request : RoutedRequest) : List RouteAction :=
  match node.route request.destinationNode request.destinationLeaf request.hopLimit
    (.request { request with destinationNode := node.config.id })
    (.request { request with hopLimit := request.hopLimit - 1 }) with
  | .ok action => [action]
  | .error error => node.sendErrorResponse request error.text

def handleStreamOpen (node : NodeRuntime) (opening : RoutedStreamOpen) : List RouteAction :=
  match node.route opening.destinationNode opening.destinationLeaf opening.hopLimit
    (.streamOpen { opening with destinationNode := node.config.id })
    (.streamOpen { opening with hopLimit := opening.hopLimit - 1 }) with
  | .ok action => [action]
  | .error error => node.sendStreamClose opening error.text

/-- The dispatch of a routed message. -/
def onMessage (node : NodeRuntime) : WireMessage → List RouteAction
  | .request request => node.routeRequest request
  | .response response => node.routeResponse response
  | .streamOpen opening => node.handleStreamOpen opening
  | .streamFrame frame => node.routeStreamFrame frame
  | .streamClose close => node.routeStreamClose close

end NodeRuntime

-- Networks

/-- A message on its way to a node. The tag tells which injected message it comes from. -/
structure Packet where
  tag : Nat
  message : WireMessage
  deriving DecidableEq, Repr

/-- Any number of nodes with whatever tables, and the messages on their way between them. -/
structure MeshNetwork where
  nodes : List NodeRuntime
  inFlight : List Packet := []
  injected : Nat := 0

/-- What happens in a network: a leaf injects a message, a message is handed over to the node
that the transport takes its peer id for, or the tables of a node change.
-/
inductive NetworkEvent where
  | inject (message : WireMessage)
  | handOver (position recipient : Nat)
  | react (index : Nat) (event : NodeEvent)
  deriving DecidableEq, Repr

/-- The packet an action puts on its way to another node. What is sent to a leaf has left the
network of nodes.
-/
def RouteAction.packet? (tag : Nat) : RouteAction → Option Packet
  | .toNode _ message => some { tag, message }
  | .toLeaf _ _ => none
  | .replied _ => none

/-- One step of a network; its outputs are the actions of the node, with the tag of the message
they were taken for. A handover takes the message off its way, so each is handed over once.
-/
def MeshNetwork.step (network : MeshNetwork)
    : NetworkEvent → Except Unit (MeshNetwork × List (Nat × RouteAction))
  | .inject message =>
      .ok (
        {
          network with
          inFlight := network.inFlight ++ [{ tag := network.injected, message }]
          injected := network.injected + 1
        },
        []
      )
  | .handOver position recipient =>
      match network.inFlight[position]?, network.nodes[recipient]? with
      | some packet, some node =>
          let actions := node.onMessage packet.message
          .ok (
            {
              network with
              inFlight := network.inFlight.eraseIdx position
                ++ actions.filterMap (RouteAction.packet? packet.tag)
            },
            actions.map fun action => (packet.tag, action)
          )
      | _, _ => .error ()
  | .react index event =>
      match network.nodes[index]? with
      | some node =>
          .ok ({ network with nodes := network.nodes.set index (node.react event).1 }, [])
      | none => .error ()

end Creek.Mesh
