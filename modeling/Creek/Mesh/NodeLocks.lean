import Creek.Mesh.Routing
import Creek.Tight.Threads

/-! What the mesh node does with its mutex and its transport: in the callbacks it sets, and on its
own threads. How a message is written is a parameter.
-/

namespace Creek.Mesh

open Tight (AddrKey Api Bytes Invocation Moment Owner OwnerStep)

/-- How messages are serialized. -/
structure Wire where
  message : WireMessage → Bytes
  directory : DirectorySnapshot → Bytes

/-- A parsed message: a directory, or a routed body. -/
inductive NodeMessage where
  | directory (snapshot : DirectorySnapshot)
  | routed (message : WireMessage)

namespace NodeRuntime

/-- The calls behind pushed snapshots. -/
def pushCalls (wire : Wire) (pushes : List Push) : List Api :=
  pushes.map fun push => .send push.peerId (wire.directory push.snapshot)

/-- The calls behind routing actions. -/
def routeCalls (wire : Wire) (actions : List RouteAction) : List Api :=
  actions.filterMap fun action =>
    match action with
    | .toLeaf leafId message => some (.send leafId (wire.message message))
    | .toNode nodeId message => some (.send nodeId (wire.message message))
    | .replied _ => none

/-- `on_peer_event` is one section. -/
def peerEventPath (wire : Wire) (event : Tight.PeerEvent) (now : UInt64) (order : List Bytes)
    (node : NodeRuntime)
    : List OwnerStep :=
  [.locked (pushCalls wire (node.onPeerEvent event now order).2)]

/-- `on_message`. A directory is looked at, adopted if it comes from a leaf, and merged, each in a
section of its own.
-/
def messagePath (wire : Wire) (peerId : Bytes) (message : NodeMessage) (now : UInt64)
    (order : List Bytes) (node : NodeRuntime)
    : List OwnerStep :=
  match message with
  | .directory snapshot =>
      let adopt := if node.leaves.contains peerId then [.locked []] else []
      let pushes := (node.handleDirectory peerId snapshot now order).2
      .locked [] :: adopt ++ [.locked (pushCalls wire pushes)]
  | .routed message => [.locked (routeCalls wire (node.onMessage message))]

/-- `do_sync_work`. -/
def syncPath (wire : Wire) (now : UInt64) (node : NodeRuntime) : List OwnerStep :=
  [.locked (pushCalls wire (node.broadcastSnapshot now).2)]

/-- Connects to the registered nodes that are not known yet and whose address can be read. -/
def connectNodes (moment : Moment)
    : NodeRuntime → List (Bytes × Option AddrKey) → NodeRuntime × List Api
  | node, [] => (node, [])
  | node, (_, none) :: rest => connectNodes moment node rest
  | node, (nodeId, some addr) :: rest =>
      if nodeId = node.config.id || node.knownNodePeers.contains nodeId then
        connectNodes moment node rest
      else
        let later := connectNodes moment (node.discoverNode nodeId) rest
        (later.1, .connect moment nodeId addr :: later.2)

/-- Connects to the registered leaves that are not attached, each in a section of its own. -/
def connectLeaves (moment : Moment)
    : NodeRuntime → List (Bytes × Option AddrKey) → List OwnerStep
  | _, [] => []
  | node, (_, none) :: rest => .locked [] :: connectLeaves moment node rest
  | node, (leafId, some addr) :: rest =>
      if node.leaves.contains leafId then .locked [] :: connectLeaves moment node rest
      else
        .locked [.connect moment leafId addr]
        :: connectLeaves moment (node.discoverLeaf leafId) rest

/-- `do_redis_sync_work`, on what the registry lists. -/
def redisSyncPath (moment : Moment) (nodes leaves : List (Bytes × Option AddrKey))
    (node : NodeRuntime)
    : List OwnerStep :=
  let found := connectNodes moment node nodes
  .locked found.2 :: connectLeaves moment found.1 leaves

/-- `start`: the callbacks are set before the transport runs. -/
def startPath (moment : Moment) (peers : List (Bytes × AddrKey)) : List OwnerStep :=
  [
    .call (.setCallback .message true),
    .call (.setCallback .peer true),
    .call .start,
    .locked (peers.map fun peer => .connect moment peer.1 peer.2)
  ]

/-- A node as the owner of its transport, with whatever tables. -/
def owner (wire : Wire) : Owner where
  callback := fun
    | .message peerId _, path =>
        ∃ (node : NodeRuntime) (message : Option NodeMessage) (now : UInt64) (order : List Bytes),
          path = (message.map fun message => node.messagePath wire peerId message now order).getD []
    | .peer event, path =>
        ∃ (node : NodeRuntime) (now : UInt64) (order : List Bytes),
          path = node.peerEventPath wire event now order
    | .command _ _, path => path = []
  thread := fun path =>
    (∃ moment peers, path = startPath moment peers)
    ∨ path = [.call .stop]
    ∨ (∃ (node : NodeRuntime) (now : UInt64), path = node.syncPath wire now)
    ∨ ∃ (node : NodeRuntime) (moment : Moment) (nodes leaves : List (Bytes × Option AddrKey)),
        path = node.redisSyncPath moment nodes leaves

end NodeRuntime

end Creek.Mesh
