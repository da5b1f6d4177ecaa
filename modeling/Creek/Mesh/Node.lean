import Creek.Library.Walks
import Creek.Mesh.Directory

/-! The mesh node: the leaves attached to it, the nodes it knows and the directory it keeps for
them. The times at which leaves were last heard of are never read and are left out, as are logs
and metrics. A handler reads the wall clock once; the reading is an argument, and so is the order of the
walk in which it stamps the entries of a hash table.
-/

namespace Creek.Mesh

open Library (walked)
open Tight (Bytes LinkRole LinkState PeerEvent)

/-- The part of the configuration that the handlers read: the own id and the ids of the
configured peers.
-/
structure NodeConfig where
  id : Bytes
  peers : List Bytes := []
  deriving DecidableEq, Repr

/-- A snapshot handed to the transport for a peer. -/
structure Push where
  peerId : Bytes
  snapshot : DirectorySnapshot
  deriving DecidableEq, Repr

structure NodeRuntime where
  config : NodeConfig
  directory : EndpointDirectory := {}
  leaves : Std.TreeSet Bytes := ∅
  knownNodePeers : Std.TreeSet Bytes := ∅
  leafEndpoints : Std.TreeMap Bytes (Std.TreeSet Bytes) := ∅
  versionCounter : UInt64

/-- Stamps the records of a leaf, marked, with consecutive versions of the counter. -/
def stampOwned (leafId : Bytes) (mark : Endpoint → Endpoint) (now : UInt64)
    : UInt64 → List Endpoint → UInt64 × List Endpoint
  | counter, [] => (counter, [])
  | counter, endpoint :: rest =>
      if endpoint.ownerLeaf = leafId then
        let later := stampOwned leafId mark now (counter + 1) rest
        (later.1, { mark endpoint with version := counter + 1, updatedMs := now } :: later.2)
      else
        let later := stampOwned leafId mark now counter rest
        (later.1, endpoint :: later.2)

/-- Removals of the given ids with consecutive versions of the counter. -/
def stampRemoved (now : UInt64) : UInt64 → List Bytes → UInt64 × List Endpoint
  | counter, [] => (counter, [])
  | counter, endpointId :: rest =>
      let later := stampRemoved now (counter + 1) rest
      (
        later.1,
        { endpointId := endpointId, version := counter + 1, updatedMs := now } :: later.2
      )

/-- The ids a snapshot lists for a leaf. -/
def listedIds (leafId : Bytes) (snapshot : DirectorySnapshot) : Std.TreeSet Bytes :=
  snapshot.endpoints.foldl
    (fun ids endpoint =>
      if endpoint.ownerLeaf = leafId then ids.insert endpoint.endpointId else ids)
    ∅

namespace NodeRuntime

/-- The state after `start`: the counter begins at the wall clock. -/
def start (config : NodeConfig) (now : UInt64) : NodeRuntime where
  config := config
  knownNodePeers := config.peers.foldl
    (fun peers peerId => if peerId.isEmpty then peers else peers.insert peerId) ∅
  versionCounter := now

/-- The ids of the previous snapshot of a leaf that the present one does not list. -/
def vanished (leafId : Bytes) (listed : Std.TreeSet Bytes) (order : List Bytes) (node : NodeRuntime)
    : List Bytes :=
  match node.leafEndpoints[leafId]? with
  | none => []
  | some previous => walked id order (previous.toList.filter fun endpointId => !listed.contains endpointId)

/-- The snapshot of an attached leaf as it is merged: the records of the leaf are owned by this
node and stamped anew, and what vanished since the previous snapshot is removed.
-/
def adoptSnapshot (leafId : Bytes) (received : DirectorySnapshot) (now : UInt64) (order : List Bytes)
    (node : NodeRuntime)
    : NodeRuntime × DirectorySnapshot :=
  let stamped := stampOwned leafId (fun endpoint => { endpoint with ownerNode := node.config.id })
    now node.versionCounter received.endpoints
  let listed := listedIds leafId received
  let removed := stampRemoved now stamped.1 (node.vanished leafId listed order)
  (
    {
      node with
      leafEndpoints := node.leafEndpoints.insert leafId listed
      versionCounter := removed.1
    },
    {
      received with
      endpoints := stamped.2
      removedEndpoints := received.removedEndpoints ++ removed.2
    }
  )

/-- Sends the directory to the configured peers, to the other known nodes and to the leaves. -/
def broadcastSnapshot (now : UInt64) (node : NodeRuntime) : NodeRuntime × List Push :=
  let (directory, snapshot) := node.directory.snapshot node.config.id now
  let configured := node.config.peers.filter fun peerId => !peerId.isEmpty
  let others := node.knownNodePeers.toList.filter fun nodeId =>
    nodeId ≠ node.config.id && !node.config.peers.contains nodeId
  (
    { node with directory := directory },
    (configured ++ others ++ node.leaves.toList).map fun peerId => { peerId, snapshot }
  )

/-- Sends the directory to the leaves. -/
def pushToLeaves (now : UInt64) (node : NodeRuntime) : NodeRuntime × List Push :=
  let (directory, snapshot) := node.directory.snapshot node.config.id now
  (
    { node with directory := directory },
    node.leaves.toList.map fun peerId => { peerId, snapshot }
  )

/-- A directory snapshot from a peer. -/
def handleDirectory (peerId : Bytes) (received : DirectorySnapshot) (now : UInt64) (order : List Bytes)
    (node : NodeRuntime)
    : NodeRuntime × List Push :=
  if node.leaves.contains peerId then
    let (node, adopted) := node.adoptSnapshot peerId received now order
    { node with directory := (node.directory.mergeSnapshot adopted now).1 }.broadcastSnapshot now
  else
    let node := { node with directory := (node.directory.mergeSnapshot received now).1 }
    if node.knownNodePeers.contains peerId then node.pushToLeaves now else (node, [])

/-- Marks the records of a leaf dead once its link is closed. -/
def revokeLeaf (leafId : Bytes) (now : UInt64) (order : List Bytes) (node : NodeRuntime)
    : NodeRuntime × List Push :=
  let (directory, snapshot) := node.directory.snapshot node.config.id now
  let snapshot :=
    { snapshot with endpoints := walked Endpoint.endpointId order snapshot.endpoints }
  let stamped := stampOwned leafId (fun endpoint => { endpoint with alive := false }) now
    node.versionCounter snapshot.endpoints
  let node :=
    {
      node with
      directory := directory
      leafEndpoints := node.leafEndpoints.erase leafId
      versionCounter := stamped.1
    }
  if snapshot.endpoints.any fun endpoint => endpoint.ownerLeaf = leafId then
    {
      node with
      directory := (directory.mergeSnapshot { snapshot with endpoints := stamped.2 } now).1
    }.broadcastSnapshot now
  else (node, [])

/-- A change of a link. -/
def onPeerEvent (event : PeerEvent) (now : UInt64) (order : List Bytes) (node : NodeRuntime)
    : NodeRuntime × List Push :=
  match event.role with
  | .leaf =>
      if event.state = .closed then
        if node.leaves.contains event.id then
          { node with leaves := node.leaves.erase event.id }.revokeLeaf event.id now order
        else (node, [])
      else ({ node with leaves := node.leaves.insert event.id }, [])
  | .node =>
      if event.state = .closed then
        ({ node with knownNodePeers := node.knownNodePeers.erase event.id }, [])
      else ({ node with knownNodePeers := node.knownNodePeers.insert event.id }, [])

/-- A node found in the registry of the cluster. -/
def discoverNode (nodeId : Bytes) (node : NodeRuntime) : NodeRuntime :=
  if nodeId = node.config.id then node
  else { node with knownNodePeers := node.knownNodePeers.insert nodeId }

/-- A leaf found in the registry of the cluster. -/
def discoverLeaf (leafId : Bytes) (node : NodeRuntime) : NodeRuntime :=
  { node with leaves := node.leaves.insert leafId }

end NodeRuntime

/-- What a node reacts to as far as its directory is concerned. The `order` is that of the walk over the
ids of a leaf's previous snapshot, or over the records of the directory.
-/
inductive NodeEvent where
  | peer (event : PeerEvent) (now : UInt64) (order : List Bytes)
  | directory (peerId : Bytes) (received : DirectorySnapshot) (now : UInt64) (order : List Bytes)
  | sync (now : UInt64)
  | nodeDiscovered (nodeId : Bytes)
  | leafDiscovered (leafId : Bytes)
  deriving DecidableEq, Repr

/-- One reaction of a node. -/
def NodeRuntime.react (node : NodeRuntime) : NodeEvent → NodeRuntime × List Push
  | .peer event now order => node.onPeerEvent event now order
  | .directory peerId received now order => node.handleDirectory peerId received now order
  | .sync now => node.broadcastSnapshot now
  | .nodeDiscovered nodeId => (node.discoverNode nodeId, [])
  | .leafDiscovered leafId => (node.discoverLeaf leafId, [])

end Creek.Mesh
