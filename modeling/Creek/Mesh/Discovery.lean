import Creek.Library.Separated
import Creek.Mesh.Node
import Creek.Telemetry.MetricsStore

/-! How the processes of a cluster find each other. Nodes and leaves write their addresses into two
hashes of a Redis server when they start, and once a second read what the others have written.
Each command is one step, and anything may happen between two commands of one process. The server and
the library of its clients are a parameter.
-/

namespace Creek.Mesh

open Library (ascii decimal)
open Telemetry (Address letter parseAddress)
open Tight (Bytes)

-- Addresses as texts

structure RemotePeer where
  id : Bytes
  address : Address
  deriving DecidableEq, Repr

def formatAddress (address : Address) : Bytes :=
  address.host ++ letter ':' :: decimal address.port.toNat

/-- An id and an address around the first at sign. -/
def parseRemote (value : Bytes) : Option RemotePeer :=
  match value.dropWhile (· != letter '@') with
  | [] => none
  | _ :: rest =>
      (parseAddress rest).map fun address =>
        { id := value.takeWhile (· != letter '@'), address }

-- The server and its clients

/-- What a `HSET` writes. -/
structure Registration where
  key : Bytes
  field : Bytes
  value : Bytes
  deriving DecidableEq, Repr

/-- What the processes rely on of Redis and of the library of its clients: `HSET` sets a field of a hash,
`HDEL` removes one, `HGETALL` returns every field once with its value, and what `%s` of `redisCommand`
takes of a text ends at the first zero byte.
-/
structure Redis where
  Server : Type
  hset : Registration → Server → Server
  hdel : Bytes → Bytes → Server → Server
  hgetall : Bytes → Server → List (Bytes × Bytes)
  argument : Bytes → Bytes
  distinct (key : Bytes) (server : Server) : ((hgetall key server).map Prod.fst).Nodup
  mem_hset (key field value : Bytes) (entry : Registration) (server : Server)
    : (field, value) ∈ hgetall key (hset entry server)
      ↔ if key = entry.key ∧ field = entry.field then value = entry.value
        else (field, value) ∈ hgetall key server
  mem_hdel (key field value lostKey lostField : Bytes) (server : Server)
    : (field, value) ∈ hgetall key (hdel lostKey lostField server)
      ↔ ¬(key = lostKey ∧ field = lostField) ∧ (field, value) ∈ hgetall key server
  argument_whole (text : Bytes) : 0 ∉ text → argument text = text
  argument_cut (front rest : Bytes) : 0 ∉ front → argument (front ++ 0 :: rest) = front

/-- The server, and the commands of clients that have stopped waiting for the reply: the server may still
execute them.
-/
structure Registry (redis : Redis) where
  server : redis.Server
  late : List Registration := []

/-- What a client sees of a command: no connection, an error, the reply, or no reply in time. -/
inductive Reply where
  | unconnected
  | refused
  | answered
  | timedOut
  deriving DecidableEq, Repr

/-- A `HSET` of a client, and whether the client learns that it is done. -/
def Registry.register {redis : Redis} (entry : Registration) (reply : Reply) (registry : Registry redis)
    : Registry redis × Bool :=
  match reply with
  | .answered => ({ registry with server := redis.hset entry registry.server }, true)
  | .timedOut => ({ registry with late := registry.late ++ [entry] }, false)
  | .unconnected | .refused => (registry, false)

structure RedisClient where
  key : Bytes
  selfId : Bytes
  deriving DecidableEq, Repr

namespace RedisClient

/-- What `register_node` writes. -/
def nodeEntry (redis : Redis) (listenAddress : Bytes) (client : RedisClient) : Registration where
  key := redis.argument client.key
  field := redis.argument client.selfId
  value := redis.argument listenAddress

def leavesKey (client : RedisClient) : Bytes := client.key ++ ascii ":leaves"

/-- What `register_leaf` writes. -/
def leafEntry (redis : Redis) (leafAddress parentNodeId : Bytes) (client : RedisClient)
    : Registration where
  key := redis.argument client.leavesKey
  field := redis.argument (parentNodeId ++ letter ':' :: client.selfId)
  value := redis.argument leafAddress

variable {redis : Redis}

/-- The reply to a `HGETALL`, empty unless it arrives. -/
def hgetall (key : Bytes) (reply : Reply) (registry : Registry redis) : List (Bytes × Bytes) :=
  if reply = .answered then redis.hgetall (redis.argument key) registry.server else []

/-- The fields of a hash are distinct, so that `emplace` never meets one that is there. -/
def fetchNodes (reply : Reply) (registry : Registry redis) (client : RedisClient)
    : List (Bytes × Bytes) :=
  hgetall client.key reply registry

def fetchLeavesForNode (nodeId : Bytes) (reply : Reply) (registry : Registry redis)
    (client : RedisClient)
    : List (Bytes × Bytes) :=
  (hgetall client.leavesKey reply registry).filterMap fun (field, value) =>
    if (nodeId ++ [letter ':']).isPrefixOf field then some (field.drop (nodeId.length + 1), value)
    else none

end RedisClient

-- The processes

/-- The entries with an address that are not known yet are taken up, one after the other. -/
def learn {σ : Type} (known : σ → Bytes → Bool) (takeUp : Bytes → Address → σ → σ)
    : List (Bytes × Bytes) → σ → σ × List RemotePeer
  | [], state => (state, [])
  | (id, text) :: rest, state =>
      if known state id then learn known takeUp rest state
      else
        match parseAddress text with
        | none => learn known takeUp rest state
        | some address =>
            let later := learn known takeUp rest (takeUp id address state)
            (later.1, { id, address } :: later.2)

/-- How far `start` gets after the registration: the transport or a server behind it may fail. -/
inductive Startup where
  | transportFails
  | serverFails
  | succeeds
  deriving DecidableEq, Repr

structure NodeProcess where
  key : Bytes := ascii "creek:nodes"
  udpBind : Address
  runtime : NodeRuntime
  running : Bool := false
  toAsk : List Bytes := []

/-- The two commands of `do_redis_sync_work` are steps of their own; so is every other handler. -/
inductive NodeStep where
  | start (reply : Reply) (startup : Startup)
  | stop
  | fetchNodes (reply : Reply)
  | fetchLeaves (nodeId : Bytes) (reply : Reply)
  | handle (event : NodeEvent)

/-- The events that the discovery does not cause. -/
def NodeEvent.isExternal : NodeEvent → Bool
  | .peer .. | .directory .. | .sync .. => true
  | .nodeDiscovered _ | .leafDiscovered _ => false

/-- The ids whose leaves a pass asks for. -/
def idsToAsk (selfId : Bytes) (nodes : List (Bytes × Bytes)) : List Bytes :=
  (nodes.map Prod.fst).filter (· ≠ selfId)

namespace NodeRuntime

/-- The part of `start` that makes the configured peers known. -/
def knowPeers (node : NodeRuntime) : NodeRuntime :=
  {
    node with
    knownNodePeers := node.config.peers.foldl
      (fun peers peerId => if peerId.isEmpty then peers else peers.insert peerId)
      node.knownNodePeers
  }

def forget (node : NodeRuntime) : NodeRuntime :=
  { node with knownNodePeers := ∅, leaves := ∅, leafEndpoints := ∅ }

/-- The first loop of `do_redis_sync_work`, and the peers it connects to. -/
def learnNodes (nodes : List (Bytes × Bytes)) (node : NodeRuntime)
    : NodeRuntime × List RemotePeer :=
  learn (fun node nodeId => nodeId = node.config.id || node.knownNodePeers.contains nodeId)
    (fun nodeId _ node => node.discoverNode nodeId) nodes node

/-- The loop over the leaves of a node, and the leaves it connects to. -/
def learnLeaves (leaves : List (Bytes × Bytes)) (node : NodeRuntime)
    : NodeRuntime × List RemotePeer :=
  learn (fun node leafId => node.leaves.contains leafId)
    (fun leafId _ node => node.discoverLeaf leafId) leaves node

end NodeRuntime

/-- What a process makes of a step: its state, the registry and the peers it connects to.
It is `none` where the step is not possible.
-/
abbrev Outcome (redis : Redis) (σ : Type) := Option (σ × Registry redis × List RemotePeer)

section

variable {redis : Redis}

namespace NodeProcess

def client (node : NodeProcess) : RedisClient where
  key := node.key
  selfId := node.runtime.config.id

def entry (redis : Redis) (node : NodeProcess) : Registration :=
  node.client.nodeEntry redis (formatAddress node.udpBind)

/-- `start` registers the node first and takes nothing back when it fails later. -/
def start (reply : Reply) (startup : Startup) (registry : Registry redis) (node : NodeProcess)
    : NodeProcess × Registry redis :=
  match registry.register (node.entry redis) reply with
  | (registry, false) => (node, registry)
  | (registry, true) =>
      match startup with
      | .transportFails => (node, registry)
      | .serverFails => ({ node with runtime := node.runtime.knowPeers }, registry)
      | .succeeds => ({ node with runtime := node.runtime.knowPeers, running := true }, registry)

/-- A pass that a stop meets under way would race with the end of the client. -/
def step (registry : Registry redis) (node : NodeProcess) : NodeStep → Outcome redis NodeProcess
  | .start reply startup =>
      if node.running then some (node, registry, [])
      else
        let (node, registry) := node.start reply startup registry
        some (node, registry, [])
  | .stop =>
      if node.running && node.toAsk.isEmpty then
        some ({ node with runtime := node.runtime.forget, running := false }, registry, [])
      else none
  | .fetchNodes reply =>
      if node.running then
        let nodes := node.client.fetchNodes reply registry
        let (runtime, connects) := node.runtime.learnNodes nodes
        let toAsk := node.toAsk ++ idsToAsk node.client.selfId nodes
        some ({ node with runtime, toAsk }, registry, connects)
      else none
  | .fetchLeaves nodeId reply =>
      if node.toAsk.contains nodeId then
        let leaves := node.client.fetchLeavesForNode nodeId reply registry
        let (runtime, connects) := node.runtime.learnLeaves leaves
        some ({ node with runtime, toAsk := node.toAsk.erase nodeId }, registry, connects)
      else none
  | .handle event =>
      if event.isExternal then
        some ({ node with runtime := (node.runtime.react event).1 }, registry, [])
      else none

end NodeProcess

/-- `picked` is the node to register under, between the two commands of `start`. -/
structure LeafProcess where
  key : Bytes := ascii "creek:nodes"
  id : Bytes
  parents : List Bytes := []
  udpBind : Address
  knownLeaves : Std.TreeMap Bytes Address := ∅
  picked : Option Bytes := none
  running : Bool := false
  toAsk : List Bytes := []

/-- The two commands of `start` and those of `do_redis_sync_work`, each by itself. A dial is
`send_to_mesh` when no parent takes the payload.
-/
inductive LeafStep where
  | start (reply : Reply) (draw : Nat)
  | register (reply : Reply) (succeeds : Bool)
  | stop
  | fetchNodes (reply : Reply)
  | fetchLeaves (nodeId : Bytes) (reply : Reply)
  | dial (destNode destLeaf : Bytes)

/-- The node a leaf registers under: the first configured parent, or one drawn of those fetched. -/
def pickNode (parents : List Bytes) (draw : Nat) (nodes : List (Bytes × Bytes)) : Option Bytes :=
  let ids := nodes.map Prod.fst
  let parent := parents.head?.getD []
  if parent.isEmpty then ids[draw % ids.length]?
  else if ids.contains parent then some parent
  else none

namespace LeafProcess

def client (leaf : LeafProcess) : RedisClient where
  key := leaf.key
  selfId := leaf.id

def entry (redis : Redis) (parentNodeId : Bytes) (leaf : LeafProcess) : Registration :=
  leaf.client.leafEntry redis (formatAddress leaf.udpBind) parentNodeId

/-- The loop over the leaves of a node. Nothing is connected to before it is needed. -/
def learnLeaves (leaves : List (Bytes × Bytes)) (leaf : LeafProcess) : LeafProcess :=
  (learn (fun leaf leafId => leaf.knownLeaves.contains leafId)
    (fun leafId address leaf =>
      { leaf with knownLeaves := leaf.knownLeaves.insert leafId address }) leaves leaf).1

/-- The address of a known leaf goes through its text once more. -/
def dial (destNode destLeaf : Bytes) (leaf : LeafProcess) : List RemotePeer :=
  match leaf.knownLeaves[destLeaf]? with
  | none => []
  | some known =>
      ((parseAddress (formatAddress known)).map fun address => { id := destNode, address }).toList

def step (registry : Registry redis) (leaf : LeafProcess) : LeafStep → Outcome redis LeafProcess
  | .start reply draw =>
      if leaf.running then some (leaf, registry, [])
      else
        let nodes := leaf.client.fetchNodes reply registry
        some ({ leaf with picked := pickNode leaf.parents draw nodes }, registry, [])
  | .register reply succeeds =>
      match leaf.picked with
      | none => none
      | some nodeId =>
          let (registry, done) := registry.register (leaf.entry redis nodeId) reply
          some ({ leaf with picked := none, running := done && succeeds }, registry, [])
  | .stop =>
      if leaf.running && leaf.toAsk.isEmpty then some ({ leaf with running := false }, registry, [])
      else none
  | .fetchNodes reply =>
      if leaf.running then
        let nodes := leaf.client.fetchNodes reply registry
        some ({ leaf with toAsk := leaf.toAsk ++ idsToAsk leaf.client.selfId nodes }, registry, [])
      else none
  | .fetchLeaves nodeId reply =>
      if leaf.toAsk.contains nodeId then
        let leaves := leaf.client.fetchLeavesForNode nodeId reply registry
        let leaf := leaf.learnLeaves leaves
        some ({ leaf with toAsk := leaf.toAsk.erase nodeId }, registry, [])
      else none
  | .dial destNode destLeaf =>
      if leaf.running then some (leaf, registry, leaf.dial destNode destLeaf) else none

end LeafProcess

-- The cluster

structure Cluster (redis : Redis) where
  registry : Registry redis
  nodes : List NodeProcess
  leaves : List LeafProcess

/-- A step of a process, a command that the server executes late, or an entry that is lost. -/
inductive DiscoveryEvent where
  | node (index : Nat) (step : NodeStep)
  | leaf (index : Nat) (step : LeafStep)
  | execute (index : Nat)
  | lose (key field : Bytes)

/-- A step is refused where it is not possible. -/
inductive DiscoveryFault where
  | disabled
  deriving DecidableEq, Repr

namespace Cluster

def step (cluster : Cluster redis)
    : DiscoveryEvent → Except DiscoveryFault (Cluster redis × List RemotePeer)
  | .node index step =>
      match cluster.nodes[index]? with
      | none => .error .disabled
      | some node =>
          match node.step cluster.registry step with
          | none => .error .disabled
          | some (node, registry, connects) =>
              .ok ({ cluster with registry, nodes := cluster.nodes.set index node }, connects)
  | .leaf index step =>
      match cluster.leaves[index]? with
      | none => .error .disabled
      | some leaf =>
          match leaf.step cluster.registry step with
          | none => .error .disabled
          | some (leaf, registry, connects) =>
              .ok ({ cluster with registry, leaves := cluster.leaves.set index leaf }, connects)
  | .execute index =>
      match cluster.registry.late[index]? with
      | none => .error .disabled
      | some entry =>
          let registry :=
            {
              server := redis.hset entry cluster.registry.server
              late := cluster.registry.late.eraseIdx index
            }
          .ok ({ cluster with registry }, [])
  | .lose key field =>
      let server := redis.hdel key field cluster.registry.server
      .ok ({ cluster with registry := { cluster.registry with server } }, [])

end Cluster

end

end Creek.Mesh
