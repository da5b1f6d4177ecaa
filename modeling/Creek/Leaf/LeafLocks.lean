import Creek.Tight.Threads

/-! What the leaf runtime does with its mutex and its transport: in the callbacks it sets, and on its
own threads. What it learns on the way is an argument: which parents `peers` reports online, which
calls of `send` succeed, and what a message is.
-/

namespace Creek.Leaf

open Tight (AddrKey Api Bytes Invocation Moment Owner OwnerStep PeerEvent)

/-- The parents of a leaf by ascending id, and the active one; an empty id is none. -/
structure Parents where
  ids : List Bytes
  active : Bytes := []
  deriving DecidableEq, Repr

/-- The search for another parent calls `peers` once for each candidate, up to the first that is
online.
-/
def searchParents (lost : Bytes) (online : Bytes → Bool) : List Bytes → Bytes × List Api
  | [] => ([], [])
  | parentId :: rest =>
      if parentId = lost then searchParents lost online rest
      else if online parentId then (parentId, [.peers])
      else
        let later := searchParents lost online rest
        (later.1, .peers :: later.2)

/-- Sends one after another until a call succeeds; whether one did, and the calls. -/
def sendFirst (accepts : Bytes → Bool) (payload : Bytes) : List Bytes → Bool × List Api
  | [] => (false, [])
  | parentId :: rest =>
      if accepts parentId then (true, [.send parentId payload])
      else
        let later := sendFirst accepts payload rest
        (later.1, .send parentId payload :: later.2)

namespace Parents

/-- `send_snapshot_to_parent`. -/
def snapshotPath (payload : Bytes) (parents : Parents) : List OwnerStep :=
  .locked [] :: parents.ids.map fun parentId => .call (.send parentId payload)

/-- `on_peer_event`, with the parents it leaves. -/
def onPeerEvent (event : PeerEvent) (online : Bytes → Bool) (payload : Bytes) (parents : Parents)
    : Parents × List OwnerStep :=
  if !parents.ids.contains event.id then (parents, [.locked []])
  else if event.state = .online then
    if parents.active = [] then
      ({ parents with active := event.id }, .locked [] :: parents.snapshotPath payload)
    else
      (parents, [.locked []])
  else if event.state = .closed ∧ event.id = parents.active then
    let found := searchParents event.id online parents.ids
    ({ parents with active := found.1 }, [.locked found.2])
  else
    (parents, [.locked []])

/-- `do_sync_work`. -/
def syncPath (payload : Bytes) (parents : Parents) : List OwnerStep :=
  .locked (if parents.active = [] then [.peers] else []) :: parents.snapshotPath payload

/-- `send_response_to_parent`. -/
def responsePath (payload : Bytes) (parents : Parents) : List OwnerStep :=
  .locked [] :: if parents.active = [] then [] else [.call (.send parents.active payload)]

/-- `send_to_mesh`: to a parent, the active one first, else straight to the address known for the
destination.
-/
def meshPath (accepts : Bytes → Bool) (payload : Bytes) (target : Option (Bytes × AddrKey))
    (moment : Moment) (parents : Parents)
    : List OwnerStep :=
  let others := parents.ids.filter fun parentId => parentId ≠ parents.active
  let order := if parents.active = [] then others else parents.active :: others
  let sent := sendFirst accepts payload order
  if sent.1 then [.locked sent.2]
  else
    [.locked sent.2, .locked []]
    ++ match target with
      | none => []
      | some (targetId, addr) =>
          [.call (.connect moment targetId addr), .call (.send targetId payload)]

end Parents

/-- A parsed message, as far as the calls depend on it. `queued` is whether a worker queue takes it;
`payload` is the reply otherwise.
-/
inductive LeafMessage where
  | directory
  | request (queued : Bool) (payload : Bytes)
  | response
  | streamOpen (queued : Bool) (payload : Bytes)
  | streamFrame
  | streamClose
  deriving DecidableEq, Repr

namespace Parents

/-- `on_message`. -/
def messagePath (peerId : Bytes) (message : Option LeafMessage) (accepts : Bytes → Bool)
    (target : Option (Bytes × AddrKey)) (moment : Moment) (parents : Parents)
    : List OwnerStep :=
  .locked []
  :: if !parents.ids.contains peerId then []
    else
      match message with
      | none => []
      | some .directory => [.locked []]
      | some (.request true _) => []
      | some (.request false payload) => .locked [] :: parents.responsePath payload
      | some .response => [.locked []]
      | some (.streamOpen true _) => []
      | some (.streamOpen false payload) =>
          .locked [] :: parents.meshPath accepts payload target moment
      | some .streamFrame => []
      | some .streamClose => []

/-- `start`: the callbacks are set before the transport runs. -/
def startPath (moment : Moment) (addresses : List (Bytes × AddrKey)) : List OwnerStep :=
  [.call (.setCallback .message true), .call (.setCallback .peer true), .call .start]
  ++ addresses.map fun parent => .call (.connect moment parent.1 parent.2)

/-- A leaf as the owner of its transport, with whatever parent active. -/
def owner (ids : List Bytes) : Owner where
  callback := fun
    | .message peerId _, path =>
        ∃ active message accepts target moment,
          path = messagePath peerId message accepts target moment { ids, active }
    | .peer event, path =>
        ∃ active online payload,
          path = (onPeerEvent event online payload { ids, active }).2
    | .command _ _, path => path = []
  thread := fun path =>
    (∃ moment addresses, path = startPath moment addresses)
    ∨ path = [.call .stop]
    ∨ (∃ active payload, path = syncPath payload { ids, active })
    ∨ (∃ active payload, path = snapshotPath payload { ids, active })
    ∨ (∃ active payload, path = responsePath payload { ids, active })
    ∨ ∃ active accepts payload target moment,
        path = meshPath accepts payload target moment { ids, active }

end Parents

end Creek.Leaf
