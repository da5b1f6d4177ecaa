import Creek.Mesh.Node

/-! The endpoints of a leaf: what backends have registered with it, and the directory it routes by.
Every handler locks the mutex of the leaf for what it does to them; a registration first takes a
version outside of it. Readings of the wall clock (milliseconds) and of the steady clock
(nanoseconds) are arguments, as is the parent that the links leave active.
-/

namespace Creek.Leaf

open Tight (Bytes)
open Mesh (Endpoint EndpointDirectory DirectorySnapshot Push)

/-- Without a heartbeat for so long an endpoint is marked dead. -/
def kEndpointDeadMs : Int := 3000

/-- Without a heartbeat for so long an endpoint is dropped. -/
def kEndpointRemoveMs : Int := 10000

/-- How long the removals of this leaf ride its snapshots. -/
def kLocalTombstoneTtlMs : UInt64 := 60000

structure LocalEndpoint where
  endpoint : Endpoint
  lastHeartbeat : Int
  deriving DecidableEq, Repr

/-- The part of the configuration that the handlers read: the own id and the ids of the parents. -/
structure LeafConfig where
  id : Bytes
  parents : List Bytes := []
  deriving DecidableEq, Repr

/-- The endpoints of a leaf, with the registrations that have a version and wait for the mutex. -/
structure LeafRuntime where
  config : LeafConfig
  activeParent : Bytes := []
  directory : EndpointDirectory := {}
  localEndpoints : Std.TreeMap Bytes LocalEndpoint := ∅
  localTombstones : Std.TreeMap Bytes (Endpoint × UInt64) := ∅
  versionCounter : UInt64
  registering : List Endpoint := []

/-- What a handler replies or sends. -/
inductive LeafOutput where
  | registerReply (accepted : Bool) (error : Bytes)
  | heartbeatReply (accepted : Bool)
  | deregisterReply (accepted : Bool)
  | queryReply (leafId nodeId : Bytes) (endpoints : List Endpoint)
  | pushed (push : Push)
  deriving DecidableEq, Repr

namespace LeafRuntime

/-- A leaf as it is made: the counter begins at the wall clock. -/
def create (config : LeafConfig) (now : UInt64) : LeafRuntime where
  config := config
  versionCounter := now

/-- The parents that the leaf connects to. -/
def parentIds (leaf : LeafRuntime) : Std.TreeSet Bytes :=
  leaf.config.parents.foldl
    (fun ids parentId => if parentId.isEmpty then ids else ids.insert parentId) ∅

/-- The node that endpoints are registered under. -/
def currentNodeId (leaf : LeafRuntime) : Bytes :=
  if leaf.activeParent.isEmpty then leaf.config.parents.head?.getD [] else leaf.activeParent

/-- `handle_register` up to its second lock: the record that is to be stored. -/
def prepareRegister (request : Option Endpoint) (now : UInt64) (leaf : LeafRuntime)
    : LeafRuntime × List LeafOutput :=
  match request with
  | none => (leaf, [.registerReply false "invalid_endpoint".toUTF8.toList])
  | some endpoint =>
      if endpoint.endpointId.isEmpty || endpoint.service.isEmpty || endpoint.target.isEmpty then
        (leaf, [.registerReply false "invalid_endpoint".toUTF8.toList])
      else
        let counter :=
          if endpoint.version = 0 then leaf.versionCounter + 1 else leaf.versionCounter
        let prepared :=
          {
            endpoint with
            ownerLeaf := leaf.config.id
            ownerNode := leaf.currentNodeId
            version := if endpoint.version = 0 then counter else endpoint.version
            alive := true
            updatedMs := now
          }
        (
          { leaf with versionCounter := counter, registering := leaf.registering ++ [prepared] },
          []
        )

/-- `handle_register` under its second lock. -/
def storeRegistered (endpoint : Endpoint) (now : UInt64) (clock : Int) (leaf : LeafRuntime)
    : LeafRuntime × List LeafOutput :=
  (
    {
      leaf with
      directory := leaf.directory.upsertLocal endpoint now
      localEndpoints := leaf.localEndpoints.insert endpoint.endpointId
        { endpoint := endpoint, lastHeartbeat := clock }
      localTombstones := leaf.localTombstones.erase endpoint.endpointId
    },
    [.registerReply true []]
  )

/-- A record with the next version and another state. -/
def restamp (alive : Bool) (now : UInt64) (endpoint : Endpoint) (leaf : LeafRuntime) : Endpoint :=
  { endpoint with alive := alive, version := leaf.versionCounter + 1, updatedMs := now }

def handleHeartbeat (endpointId : Bytes) (now : UInt64) (clock : Int) (leaf : LeafRuntime)
    : LeafRuntime × List LeafOutput :=
  match leaf.localEndpoints[endpointId]? with
  | none => (leaf, [.heartbeatReply false])
  | some entry =>
      if entry.endpoint.alive then
        (
          {
            leaf with
            localEndpoints := leaf.localEndpoints.insert endpointId
              { entry with lastHeartbeat := clock }
          },
          [.heartbeatReply true]
        )
      else
        let revived := leaf.restamp true now entry.endpoint
        (
          {
            leaf with
            versionCounter := leaf.versionCounter + 1
            localEndpoints := leaf.localEndpoints.insert endpointId
              { endpoint := revived, lastHeartbeat := clock }
            directory := leaf.directory.upsertLocal revived now
            localTombstones := leaf.localTombstones.erase endpointId
          },
          [.heartbeatReply true]
        )

def handleDeregister (endpointId : Bytes) (now : UInt64) (leaf : LeafRuntime)
    : LeafRuntime × List LeafOutput :=
  match leaf.localEndpoints[endpointId]? with
  | none => (leaf, [.deregisterReply false])
  | some entry =>
      let dead := leaf.restamp false now entry.endpoint
      (
        {
          leaf with
          versionCounter := leaf.versionCounter + 1
          localEndpoints := leaf.localEndpoints.insert endpointId { entry with endpoint := dead }
          directory := leaf.directory.upsertLocal dead now
        },
        [.deregisterReply true]
      )

/-- The milliseconds since a heartbeat, truncated. -/
def ageMs (clock : Int) (entry : LocalEndpoint) : Int :=
  (clock - entry.lastHeartbeat).tdiv 1000000

/-- `do_heartbeat_work` at one endpoint: drops it, marks it dead or leaves it. The records marked dead
go to the directory afterwards.
-/
def sweep (now : UInt64) (clock : Int) (state : LeafRuntime × List Endpoint)
    (entry : Bytes × LocalEndpoint)
    : LeafRuntime × List Endpoint :=
  let leaf := state.1
  if ageMs clock entry.2 ≥ kEndpointRemoveMs then
    let removal := leaf.directory.removeLocal entry.1 now
    let removed : Endpoint :=
      {
        endpointId := entry.2.endpoint.endpointId
        version := entry.2.endpoint.version
        updatedMs := entry.2.endpoint.updatedMs
      }
    (
      {
        leaf with
        directory := removal.1
        localTombstones :=
          if removal.2 then leaf.localTombstones.insert entry.1 (removed, now)
          else leaf.localTombstones
        localEndpoints := leaf.localEndpoints.erase entry.1
      },
      state.2
    )
  else if ageMs clock entry.2 ≥ kEndpointDeadMs ∧ entry.2.endpoint.alive then
    let dead := leaf.restamp false now entry.2.endpoint
    (
      {
        leaf with
        versionCounter := leaf.versionCounter + 1
        localEndpoints := leaf.localEndpoints.insert entry.1 { entry.2 with endpoint := dead }
      },
      state.2 ++ [dead]
    )
  else state

/-- The stamps go by the ids, where the source walks an unordered map. -/
def doHeartbeatWork (now : UInt64) (clock : Int) (leaf : LeafRuntime) : LeafRuntime :=
  let swept := leaf.localEndpoints.toList.foldl (sweep now clock) (leaf, [])
  {
    swept.1 with
    directory := swept.2.foldl (fun directory dead => directory.upsertLocal dead now)
      swept.1.directory
  }

def handleDirectory (received : DirectorySnapshot) (now : UInt64) (leaf : LeafRuntime) : LeafRuntime :=
  { leaf with directory := (leaf.directory.mergeSnapshot received now).1 }

/-- Sends the endpoints and the removals of this leaf to its parents, and forgets old removals. -/
def sendSnapshotToParent (now : UInt64) (leaf : LeafRuntime) : LeafRuntime × List LeafOutput :=
  let tombstones := leaf.localTombstones.filter fun _ tombstone =>
    !(now - tombstone.2 ≥ kLocalTombstoneTtlMs)
  let snapshot : DirectorySnapshot :=
    {
      sourceId := leaf.config.id
      generatedMs := now
      endpoints := leaf.localEndpoints.toList.map fun entry => entry.2.endpoint
      removedEndpoints := tombstones.toList.map fun entry => entry.2.1
    }
  (
    { leaf with localTombstones := tombstones },
    leaf.parentIds.toList.map fun peerId => .pushed { peerId, snapshot }
  )

/-- A snapshot of the directory for an administrator; it forgets old removals in the directory. -/
def handleDirectoryQuery (now : UInt64) (leaf : LeafRuntime) : LeafRuntime × List LeafOutput :=
  let result := leaf.directory.snapshot leaf.config.id now
  (
    { leaf with directory := result.1 },
    [.queryReply leaf.config.id leaf.currentNodeId result.2.endpoints]
  )

end LeafRuntime

/-- What happens to the endpoints of a leaf. A handler that sends a snapshot locks anew for it, as do
the handlers of link events and of the sync task.
-/
inductive LeafEvent where
  | register (request : Option Endpoint) (now : UInt64)
  | registerLocked (index : Nat) (now : UInt64) (clock : Int)
  | heartbeat (endpointId : Bytes) (now : UInt64) (clock : Int)
  | deregister (endpointId : Bytes) (now : UInt64)
  | heartbeatWork (now : UInt64) (clock : Int)
  | directory (received : DirectorySnapshot) (now : UInt64)
  | sendSnapshot (now : UInt64)
  | query (now : UInt64)
  | parent (activeParent : Bytes)
  deriving DecidableEq, Repr

/-- One critical section of a leaf. -/
def LeafRuntime.step (leaf : LeafRuntime) : LeafEvent → Except Unit (LeafRuntime × List LeafOutput)
  | .register request now => .ok (leaf.prepareRegister request now)
  | .registerLocked index now clock =>
      match leaf.registering[index]? with
      | some endpoint =>
          .ok (
            { leaf with registering := leaf.registering.eraseIdx index }.storeRegistered endpoint now clock
          )
      | none => .error ()
  | .heartbeat endpointId now clock => .ok (leaf.handleHeartbeat endpointId now clock)
  | .deregister endpointId now => .ok (leaf.handleDeregister endpointId now)
  | .heartbeatWork now clock => .ok (leaf.doHeartbeatWork now clock, [])
  | .directory received now => .ok (leaf.handleDirectory received now, [])
  | .sendSnapshot now => .ok (leaf.sendSnapshotToParent now)
  | .query now => .ok (leaf.handleDirectoryQuery now)
  | .parent activeParent => .ok ({ leaf with activeParent := activeParent }, [])

end Creek.Leaf
