import Creek.Tight.Types
import Std.Data.TreeMap

/-! The endpoint directory of leaves and nodes: versioned records and removal tombstones.
The unordered maps of the source are kept in key order. A call reads the wall clock once;
the reading is an argument.
-/

namespace Creek.Mesh

open Tight (Bytes)

/-- One endpoint registration, as it travels in snapshots. -/
structure Endpoint where
  endpointId : Bytes := []
  service : Bytes := []
  ownerLeaf : Bytes := []
  ownerNode : Bytes := []
  target : Bytes := []
  version : UInt64 := 0
  updatedMs : UInt64 := 0
  alive : Bool := false
  deriving DecidableEq, Repr

/-- The memory of a removal. `removedMs` is the reading of the local clock when the directory
learnt of it.
-/
structure Tombstone where
  version : UInt64
  updatedMs : UInt64
  removedMs : UInt64
  deriving DecidableEq, Repr

/-- What directories exchange. -/
structure DirectorySnapshot where
  sourceId : Bytes := []
  version : UInt64 := 0
  generatedMs : UInt64 := 0
  endpoints : List Endpoint := []
  removedEndpoints : List Endpoint := []
  deriving DecidableEq, Repr

structure EndpointDirectory where
  endpoints : Std.TreeMap Bytes Endpoint := ∅
  tombstones : Std.TreeMap Bytes Tombstone := ∅
  version : UInt64 := 0

namespace EndpointDirectory

/-- How long a tombstone rides snapshots and suppresses resurrection. -/
def kTombstoneTtlMs : UInt64 := 60000

/-- Stores a record and counts the change. -/
def store (endpoint : Endpoint) (directory : EndpointDirectory) : EndpointDirectory :=
  {
    directory with
    endpoints := directory.endpoints.insert endpoint.endpointId endpoint
    version := directory.version + 1
  }

/-- Whether a record replaces the one that is held: a newer version, or the same version with
a later update.
-/
def supersedes (endpoint existing : Endpoint) : Bool :=
  endpoint.version > existing.version
  || (endpoint.version = existing.version && endpoint.updatedMs > existing.updatedMs)

/-- Merges one record; the flag tells whether it was taken. -/
def merge (endpoint : Endpoint) (directory : EndpointDirectory) : EndpointDirectory × Bool :=
  if endpoint.endpointId.isEmpty then (directory, false)
  else if (directory.tombstones[endpoint.endpointId]?).any fun tombstone =>
      endpoint.version ≤ tombstone.version then
    (directory, false)
  else
    match directory.endpoints[endpoint.endpointId]? with
    | none => (directory.store endpoint, true)
    | some existing =>
        if supersedes endpoint existing then (directory.store endpoint, true)
        else (directory, false)

/-- Applies a removal learnt from a snapshot. -/
def applyRemoval (endpointId : Bytes) (version updatedMs now : UInt64)
    (directory : EndpointDirectory)
    : EndpointDirectory × Bool :=
  if endpointId.isEmpty then (directory, false)
  else
    let erased := (directory.endpoints[endpointId]?).any fun existing => existing.version ≤ version
    let directory :=
      if erased then
        {
          directory with
          endpoints := directory.endpoints.erase endpointId
          version := directory.version + 1
        }
      else directory
    let known := (directory.tombstones[endpointId]?).any fun tombstone =>
      version ≤ tombstone.version
    if known then (directory, erased)
    else
      (
        {
          directory with
          tombstones := directory.tombstones.insert endpointId
            { version := version, updatedMs := updatedMs, removedMs := now }
        },
        erased
      )

/-- Merges a snapshot: its records, then its removals. -/
def mergeSnapshot (snapshot : DirectorySnapshot) (now : UInt64) (directory : EndpointDirectory)
    : EndpointDirectory × Bool :=
  let merged := snapshot.endpoints.foldl
    (fun state endpoint =>
      let result := state.1.merge endpoint
      (result.1, state.2 || result.2))
    (directory, false)
  snapshot.removedEndpoints.foldl
    (fun state removed =>
      let result := state.1.applyRemoval removed.endpointId removed.version removed.updatedMs now
      (result.1, state.2 || result.2))
    merged

/-- Registers an endpoint of this directory's own. -/
def upsertLocal (endpoint : Endpoint) (now : UInt64) (directory : EndpointDirectory)
    : EndpointDirectory :=
  if endpoint.endpointId.isEmpty then directory
  else
    let updatedMs := if endpoint.updatedMs = 0 then now else endpoint.updatedMs
    let version :=
      match directory.endpoints[endpoint.endpointId]? with
      | none => if endpoint.version = 0 then 1 else endpoint.version
      | some existing => existing.version + 1
    {
      directory with
      tombstones := directory.tombstones.erase endpoint.endpointId
    }.store { endpoint with version := version, updatedMs := updatedMs }

/-- Removes an endpoint of this directory's own and leaves a tombstone. -/
def removeLocal (endpointId : Bytes) (now : UInt64) (directory : EndpointDirectory)
    : EndpointDirectory × Bool :=
  match directory.endpoints[endpointId]? with
  | none => (directory, false)
  | some existing =>
      (
        {
          directory with
          endpoints := directory.endpoints.erase endpointId
          tombstones := directory.tombstones.insert endpointId
            { version := existing.version, updatedMs := existing.updatedMs, removedMs := now }
          version := directory.version + 1
        },
        true
      )

def find (endpointId : Bytes) (directory : EndpointDirectory) : Option Endpoint :=
  directory.endpoints[endpointId]?

/-- The records of a service. -/
def service (name : Bytes) (directory : EndpointDirectory) : List Endpoint :=
  (directory.endpoints.toList.map Prod.snd).filter fun endpoint => endpoint.service = name

/-- Whether a tombstone is past its lifetime; the difference of the clocks is unsigned. -/
def expired (tombstone : Tombstone) (now : UInt64) : Bool :=
  now - tombstone.removedMs ≥ kTombstoneTtlMs

/-- A tombstone as it rides a snapshot. -/
def shell (entry : Bytes × Tombstone) : Endpoint where
  endpointId := entry.1
  version := entry.2.version
  updatedMs := entry.2.updatedMs

/-- Drops the tombstones that are past their lifetime. -/
def prune (now : UInt64) (directory : EndpointDirectory) : EndpointDirectory :=
  {
    directory with
    tombstones := directory.tombstones.filter fun _ tombstone => !expired tombstone now
  }

/-- A snapshot of the directory; expired tombstones are dropped on the way. -/
def snapshot (sourceId : Bytes) (now : UInt64) (directory : EndpointDirectory)
    : EndpointDirectory × DirectorySnapshot :=
  let directory := directory.prune now
  (
    directory,
    {
      sourceId := sourceId
      version := directory.version
      generatedMs := now
      endpoints := directory.endpoints.toList.map Prod.snd
      removedEndpoints := directory.tombstones.toList.map shell
    }
  )

/-- The unexpired tombstones as endpoint shells. -/
def tombstoneShells (now : UInt64) (directory : EndpointDirectory) : List Endpoint :=
  (directory.prune now).tombstones.toList.map shell

end EndpointDirectory

end Creek.Mesh
