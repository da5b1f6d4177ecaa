import Creek.Library.Runs
import Creek.Tight.Types

/-! Who touches a `BackendStream` and when it goes. Its creator registers it, starts the call and hands
it to a thread of its own, the pump; the pump deletes it at the end of the call; any other thread finds
it in `m_backend_streams` and uses it under the mutex of the leaf. Between two accesses of one thread
the others may do anything.
-/

namespace Creek.Leaf

open Tight (Bytes)
open Library

/-- How far the creator of a stream is. In `begin` the thread runs once it is made, before it is assigned
to the member `pump` and detached.
-/
inductive CreatorPoint where
  | made
  | registered
  | started
  | spawned
  | assigned
  | detached
  deriving DecidableEq, Repr

/-- How far the pump of a stream is. -/
inductive PumpPoint where
  | none
  | running
  | finished
  | erased
  | closed
  | deleted
  deriving DecidableEq, Repr

/-- A `BackendStream` with its threads. `joinable` is that of the member `pump`. -/
structure BackendObject where
  requestId : Bytes
  creator : CreatorPoint := .made
  pump : PumpPoint := .none
  joinable : Bool := false
  deriving DecidableEq, Repr

/-- All streams there ever were, by their places, and the registry of the leaf. A thread that has found a
stream holds the mutex of the leaf.
-/
structure StreamOwners where
  objects : List BackendObject := []
  backendStreams : Std.TreeMap Bytes Nat := ∅
  user : Option Nat := none

/-- An access to a stream, or its deletion. -/
inductive LifetimeAction where
  | accessed (index : Nat)
  | deleted (index : Nat) (joinable : Bool)
  deriving DecidableEq, Repr

/-- The steps of creators, of pumps and of the threads that use the registry. -/
inductive LifetimeEvent where
  | create (requestId : Bytes)
  | register (index : Nat)
  | startCall (index : Nat)
  | spawn (index : Nat)
  | assign (index : Nat)
  | detach (index : Nat)
  | run (index : Nat)
  | finish (index : Nat)
  | erase (index : Nat)
  | close (index : Nat)
  | delete (index : Nat)
  | find (requestId : Bytes)
  | touch
  | release
  deriving DecidableEq, Repr

namespace StreamOwners

/-- A thread of a stream goes on from where it is. -/
def act (index : Nat) (ready : BackendObject → Bool) (change : BackendObject → BackendObject)
    (actions : List LifetimeAction) (owners : StreamOwners)
    : Except Unit (StreamOwners × List LifetimeAction) :=
  match owners.objects[index]? with
  | some object =>
      if ready object then
        .ok ({ owners with objects := owners.objects.modify index change }, actions)
      else .error ()
  | none => .error ()

/-- The entry of the registry for a stream, if it still is for it. -/
def eraseEntry (index : Nat) (owners : StreamOwners) : Std.TreeMap Bytes Nat :=
  match owners.objects[index]? with
  | some object =>
      if owners.backendStreams[object.requestId]? = some index then
        owners.backendStreams.erase object.requestId
      else owners.backendStreams
  | none => owners.backendStreams

def step (owners : StreamOwners) : LifetimeEvent → Except Unit (StreamOwners × List LifetimeAction)
  | .create requestId =>
      .ok (
        { owners with objects := owners.objects ++ [{ requestId := requestId }] },
        [.accessed owners.objects.length]
      )
  | .register index =>
      match owners.user, owners.objects[index]? with
      | none, some object =>
          owners.act index (fun object => object.creator = .made)
            (fun object => { object with creator := .registered }) []
          |>.map fun result =>
            (
              { result.1 with
                backendStreams := owners.backendStreams.insert object.requestId index },
              result.2
            )
      | _, _ => .error ()
  | .startCall index =>
      owners.act index (fun object => object.creator = .registered)
        (fun object => { object with creator := .started }) [.accessed index]
  | .spawn index =>
      owners.act index (fun object => object.creator = .started)
        (fun object => { object with creator := .spawned, pump := .running }) []
  | .assign index =>
      owners.act index (fun object => object.creator = .spawned)
        (fun object => { object with creator := .assigned, joinable := true }) [.accessed index]
  | .detach index =>
      owners.act index (fun object => object.creator = .assigned)
        (fun object => { object with creator := .detached, joinable := false }) [.accessed index]
  | .run index => owners.act index (fun object => object.pump = .running) id [.accessed index]
  | .finish index =>
      owners.act index (fun object => object.pump = .running)
        (fun object => { object with pump := .finished }) [.accessed index]
  | .erase index =>
      match owners.user with
      | none =>
          owners.act index (fun object => object.pump = .finished)
            (fun object => { object with pump := .erased }) [.accessed index]
          |>.map fun result =>
            ({ result.1 with backendStreams := owners.eraseEntry index }, result.2)
      | some _ => .error ()
  | .close index =>
      owners.act index (fun object => object.pump = .erased)
        (fun object => { object with pump := .closed }) [.accessed index]
  | .delete index =>
      match owners.objects[index]? with
      | some object =>
          owners.act index (fun object => object.pump = .closed)
            (fun object => { object with pump := .deleted }) [.deleted index object.joinable]
      | none => .error ()
  | .find requestId =>
      match owners.user, owners.backendStreams[requestId]? with
      | none, some index => .ok ({ owners with user := some index }, [])
      | _, _ => .error ()
  | .touch =>
      match owners.user with
      | some index => .ok (owners, [.accessed index])
      | none => .error ()
  | .release => .ok ({ owners with user := none }, [])

end StreamOwners

abbrev LifetimeHistory := List (Stage StreamOwners LifetimeEvent LifetimeAction)

end Creek.Leaf
