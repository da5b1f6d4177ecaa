import Creek.Library.CheckedAccess
import Creek.Library.Durations
import Creek.Library.Runs
import Creek.Mesh.Directory
import Creek.Tight.Peer

/-! The balancer of a leaf: which endpoint of a service a call is routed to.
The unordered map of sessions is kept in key order. The hash of strings is an argument, and so is the
time of a call. The lifetime is compared in nanoseconds, of which 64 bits are kept.
-/

namespace Creek.Mesh

open Tight (Bytes TimePoint u64)

/-- The metadata of a call, by key. -/
abbrev Metadata := Std.TreeMap Bytes Bytes

/-- The endpoint a session sticks to. A session that has not been used for long is in the LRU part. -/
structure StickyEntry where
  endpointId : Bytes
  lastUsed : TimePoint
  lruSince : TimePoint := 0
  lru : Bool := false
  deriving DecidableEq, Repr

/-- The `ttl` is in milliseconds. -/
structure StickyBalancer where
  entries : Std.TreeMap Bytes StickyEntry := ∅
  capacity : Nat := 4096
  ttl : Int := 60000
  roundRobin : Nat := 0

def isStickyValue (value : Bytes) : Bool :=
  value = "true".toUTF8.toList || value = "1".toUTF8.toList

def metadataSticky (metadata : Metadata) : Bool :=
  match metadata["sticky".toUTF8.toList]? with
  | none => false
  | some value => isStickyValue value

/-- A metadata value, unless it is empty. -/
def nonemptyValue (metadata : Metadata) (key : Bytes) : Option Bytes :=
  match metadata[key]? with
  | none => none
  | some value => if value.isEmpty then none else some value

def metadataSid (metadata : Metadata) : Option Bytes :=
  nonemptyValue metadata "sid".toUTF8.toList

/-- The shard key of a call; the tenant stands in for a missing one. -/
def metadataShardKey (metadata : Metadata) : Option Bytes :=
  match nonemptyValue metadata "shard_key".toUTF8.toList with
  | some value => some value
  | none => nonemptyValue metadata "tenant_id".toUTF8.toList

/-- The first endpoint of an id, if it is alive. -/
def findLiveEndpoint (endpoints : List Endpoint) (id : Bytes) : Option Endpoint :=
  match endpoints.find? fun endpoint => endpoint.endpointId = id with
  | some endpoint => if endpoint.alive then some endpoint else none
  | none => none

namespace StickyBalancer

/-- A session that has not been used for the lifetime moves to the LRU part. -/
def age (ttl : Int) (now : TimePoint) (entry : StickyEntry) : StickyEntry :=
  if ¬entry.lru ∧ now - entry.lastUsed ≥ Library.toNanos ttl then
    { entry with lru := true, lruSince := now }
  else
    entry

/-- How many sessions are in the LRU part. -/
def lruCount (entries : Std.TreeMap Bytes StickyEntry) : Nat :=
  (entries.toList.filter fun entry => entry.2.lru).length

/-- The session that has been in the LRU part for longest. -/
def oldest (entries : Std.TreeMap Bytes StickyEntry) : Option (Bytes × StickyEntry) :=
  entries.toList.foldl
    (fun oldest entry =>
      if entry.2.lru then
        match oldest with
        | none => some entry
        | some best => if entry.2.lruSince < best.2.lruSince then some entry else oldest
      else oldest)
    none

/-- Drops the oldest sessions until the LRU part fits; every pass removes one. -/
def trimLoop (capacity : Nat)
    : Nat → Std.TreeMap Bytes StickyEntry → Std.TreeMap Bytes StickyEntry
  | 0, entries => entries
  | fuel + 1, entries =>
      if lruCount entries ≤ capacity then entries
      else
        match oldest entries with
        | none => entries
        | some entry => trimLoop capacity fuel (entries.erase entry.1)

/-- What every pick does first: sessions age, and the LRU part is trimmed. -/
def sweep (now : TimePoint) (balancer : StickyBalancer) : StickyBalancer :=
  let aged := balancer.entries.map fun _ => age balancer.ttl now
  { balancer with entries := trimLoop balancer.capacity aged.size aged }

/-- The next endpoint in turn. -/
def doPick (endpoints : List Endpoint) (balancer : StickyBalancer) : StickyBalancer × Endpoint :=
  (
    { balancer with roundRobin := u64 (balancer.roundRobin + 1) },
    endpoints.getD (balancer.roundRobin % endpoints.length) {}
  )

/-- The key of a session: the service and the session id. -/
def sessionKey (service sid : Bytes) : Bytes := service ++ ['|'.toNat.toUInt8] ++ sid

/-- Moves a session to the next endpoint in turn. -/
def stick (key : Bytes) (endpoints : List Endpoint) (now : TimePoint) (balancer : StickyBalancer)
    : StickyBalancer × Endpoint :=
  let (balancer, endpoint) := balancer.doPick endpoints
  (
    {
      balancer with
      entries := balancer.entries.insert key
        { endpointId := endpoint.endpointId, lastUsed := now }
    },
    endpoint
  )

/-- Picks an endpoint by the shard key, by the session, or in turn. -/
def pick (hash : Bytes → UInt64) (service : Bytes) (metadata : Metadata)
    (endpoints : List Endpoint) (now : TimePoint) (balancer : StickyBalancer)
    : StickyBalancer × Option Endpoint :=
  if endpoints.isEmpty then (balancer, none)
  else
    let balancer := balancer.sweep now
    let inTurn :=
      let (balancer, endpoint) := balancer.doPick endpoints
      (balancer, some endpoint)
    match metadataShardKey metadata, metadataSticky metadata, metadataSid metadata with
    | some shard, _, _ =>
        (balancer, some (endpoints.getD ((hash shard).toNat % endpoints.length) {}))
    | none, false, _ => inTurn
    | none, true, none => inTurn
    | none, true, some sid =>
        let key := sessionKey service sid
        let moved :=
          let (balancer, endpoint) := balancer.stick key endpoints now
          (balancer, some endpoint)
        match balancer.entries[key]? with
        | none => moved
        | some entry =>
            let held := if entry.lru then none else findLiveEndpoint endpoints entry.endpointId
            match held with
            | none => moved
            | some endpoint =>
                (
                  {
                    balancer with
                    entries := balancer.entries.insert key { entry with lastUsed := now }
                  },
                  some endpoint
                )

/-- Forgets the sessions of an endpoint. -/
def invalidate (endpointId : Bytes) (balancer : StickyBalancer) : StickyBalancer :=
  { balancer with entries := balancer.entries.filter fun _ entry => entry.endpointId ≠ endpointId }

/-- Sets the lifetime and forgets all sessions. -/
def setTtl (ttl : Int) (balancer : StickyBalancer) : StickyBalancer :=
  { balancer with ttl := ttl, entries := ∅ }

end StickyBalancer

/-- A call of the balancer. -/
inductive BalancerCall where
  | pick (service : Bytes) (metadata : Metadata) (endpoints : List Endpoint) (now : TimePoint)
  | invalidate (endpointId : Bytes)
  | setTtl (ttl : Int)

/-- One call; a pick puts out its result. -/
def StickyBalancer.step (hash : Bytes → UInt64) (balancer : StickyBalancer)
    : BalancerCall → Except Library.Fault (StickyBalancer × List (Option Endpoint))
  | .pick service metadata endpoints now =>
      let (balancer, picked) := balancer.pick hash service metadata endpoints now
      .ok (balancer, [picked])
  | .invalidate endpointId => .ok (balancer.invalidate endpointId, [])
  | .setTtl ttl => .ok (balancer.setTtl ttl, [])

abbrev BalancerStage := Library.Stage StickyBalancer BalancerCall (Option Endpoint)

end Creek.Mesh
