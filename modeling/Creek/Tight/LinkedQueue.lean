import Creek.Library.Chains
import Creek.Library.CheckedAccess
import Creek.Library.Runs

/-! The blocking queue as the linked list it is, whose nodes are recycled, and one step for each critical
section of its callers. A caller that waits may wake at any time.
-/

namespace Creek.Tight

open Library

structure QueueNode (α : Type) where
  item : Option α := none
  next : Option Nat := none

/-- The members of a `BlockingQueue`, over a heap of nodes; `allocations` counts these, so that the next one
is new. Capacity zero means no bound.
-/
structure LinkedQueue (α : Type) where
  capacity : Nat := 0
  size : Nat := 0
  head : Option Nat := none
  tail : Option Nat := none
  freeNodes : Option Nat := none
  freeCount : Nat := 0
  closed : Bool := false
  nodes : Heap (QueueNode α) := fun _ => none
  allocations : Nat := 0

namespace LinkedQueue

variable {α : Type}

def setNode (address : Nat) (node : Option (QueueNode α)) (queue : LinkedQueue α)
    : LinkedQueue α :=
  { queue with nodes := Function.update queue.nodes address node }

/-- Takes a node from the free list, else a new one. -/
def obtainNodeLocked (queue : LinkedQueue α) : Except Fault (LinkedQueue α × Nat) :=
  match queue.freeNodes with
  | some address => do
      let node ← deref (queue.nodes address)
      let freeCount ← difference queue.freeCount 1
      let queue := { queue with freeNodes := node.next, freeCount := freeCount }
      return (queue.setNode address (some { node with next := none }), address)
  | none =>
      let address := queue.allocations
      return ({ queue with allocations := address + 1 }.setNode address (some {}), address)

/-- Puts a node back on the free list, which holds at most 64; one more is deleted. -/
def recycleNodeLocked (address : Nat) (queue : LinkedQueue α)
    : Except Fault (LinkedQueue α) := do
  let node ← deref (queue.nodes address)
  let emptied := { node with item := none }
  if queue.freeCount < 64 then
    let queue := queue.setNode address (some { emptied with next := queue.freeNodes })
    return { queue with freeNodes := some address, freeCount := queue.freeCount + 1 }
  else
    return queue.setNode address none

def linkTail (address : Nat) (queue : LinkedQueue α) : Except Fault (LinkedQueue α) :=
  match queue.tail with
  | some tail => do
      let last ← deref (queue.nodes tail)
      let queue := queue.setNode tail (some { last with next := some address })
      return { queue with tail := some address, size := queue.size + 1 }
  | none =>
      return { queue with head := some address, tail := some address, size := queue.size + 1 }

/-- What `push` and `try_push` do once the item is accepted. -/
def append (item : α) (queue : LinkedQueue α) : Except Fault (LinkedQueue α) := do
  let (queue, address) ← queue.obtainNodeLocked
  let node ← deref (queue.nodes address)
  let queue := queue.setNode address (some { node with item := some item })
  queue.linkTail address

/-- Takes the item of the first node out and recycles the node. -/
def unlinkHeadLocked (queue : LinkedQueue α) : Except Fault (LinkedQueue α × α) := do
  let address ← deref queue.head
  let node ← deref (queue.nodes address)
  let size ← difference queue.size 1
  let tail := if node.next.isNone then none else queue.tail
  let queue := { queue with head := node.next, tail := tail, size := size }
  let item ← deref node.item
  let queue ← queue.recycleNodeLocked address
  return (queue, item)

/-- Whether a push has to wait for room. -/
def isFull (queue : LinkedQueue α) : Bool :=
  decide (0 < queue.capacity) && decide (queue.capacity ≤ queue.size)

/-- What a consumer waits for. -/
def hasNews (queue : LinkedQueue α) : Bool := decide (0 < queue.size) || queue.closed

/-- What a producer waits for. -/
def hasRoom (queue : LinkedQueue α) : Bool := decide (queue.size < queue.capacity) || queue.closed

end LinkedQueue

/-- What a call tells its caller. -/
inductive QueueOutput (α : Type) where
  | accepted (item : α)
  | refused (item : α)
  | returned (item : α)
  | nothing
  deriving DecidableEq

/-- The item that went into the queue. -/
def QueueOutput.accepted? {α : Type} : QueueOutput α → Option α
  | accepted item => some item
  | _ => none

/-- The item that came out of the queue. -/
def QueueOutput.returned? {α : Type} : QueueOutput α → Option α
  | returned item => some item
  | _ => none

/-- The critical sections. A resumed call is one that waited: it is the producer with a position among
those that wait, or one of the consumers; one with a timeout may have expired.
-/
inductive QueueSection (α : Type) where
  | push (item : α)
  | resumePush (position : Nat)
  | tryPush (item : α)
  | take
  | resumeTake
  | takeFor
  | resumeTakeFor (expired : Bool)
  | poll
  | close

def QueueSection.closes {α : Type} : QueueSection α → Bool
  | close => true
  | _ => false

/-- A queue and the calls that wait for it: producers with their items, and consumers. -/
structure SharedQueue (α : Type) where
  queue : LinkedQueue α := {}
  pushing : List α := []
  taking : Nat := 0
  takingFor : Nat := 0

namespace SharedQueue

variable {α : Type}

/-- The end of a push that does not wait any longer. -/
def finishPush (item : α) (shared : SharedQueue α)
    : Except Fault (SharedQueue α × List (QueueOutput α)) :=
  if shared.queue.closed then .ok (shared, [.refused item])
  else do
    let queue ← shared.queue.append item
    return ({ shared with queue := queue }, [.accepted item])

/-- Returns the first item. -/
def returnHead (shared : SharedQueue α) : Except Fault (SharedQueue α × List (QueueOutput α)) := do
  let (queue, item) ← shared.queue.unlinkHeadLocked
  return ({ shared with queue := queue }, [.returned item])

/-- The end of a take that does not wait any longer. -/
def finishTake (shared : SharedQueue α) : Except Fault (SharedQueue α × List (QueueOutput α)) :=
  if shared.queue.closed ∧ shared.queue.size = 0 then .ok (shared, [.nothing])
  else shared.returnHead

def step (shared : SharedQueue α)
    : QueueSection α → Except Fault (SharedQueue α × List (QueueOutput α))
  | .push item =>
      if shared.queue.closed then .ok (shared, [.refused item])
      else if shared.queue.isFull && !shared.queue.hasRoom then
        .ok ({ shared with pushing := shared.pushing ++ [item] }, [])
      else
        shared.finishPush item
  | .resumePush position =>
      match shared.pushing[position]? with
      | none => .ok (shared, [])
      | some item =>
          if shared.queue.hasRoom then
            { shared with pushing := shared.pushing.eraseIdx position }.finishPush item
          else
            .ok (shared, [])
  | .tryPush item =>
      if shared.queue.closed || shared.queue.isFull then .ok (shared, [.refused item])
      else shared.finishPush item
  | .take =>
      if shared.queue.hasNews then shared.finishTake
      else .ok ({ shared with taking := shared.taking + 1 }, [])
  | .resumeTake =>
      if 0 < shared.taking ∧ shared.queue.hasNews then
        { shared with taking := shared.taking - 1 }.finishTake
      else
        .ok (shared, [])
  | .takeFor =>
      if shared.queue.hasNews then shared.finishTake
      else .ok ({ shared with takingFor := shared.takingFor + 1 }, [])
  | .resumeTakeFor expired =>
      if shared.takingFor = 0 then .ok (shared, [])
      else
        let resumed := { shared with takingFor := shared.takingFor - 1 }
        if shared.queue.hasNews then resumed.finishTake
        else if expired then .ok (resumed, [.nothing])
        else .ok (shared, [])
  | .poll => if shared.queue.size = 0 then .ok (shared, [.nothing]) else shared.returnHead
  | .close => .ok ({ shared with queue := { shared.queue with closed := true } }, [])

end SharedQueue

abbrev QueueStage (α : Type) := Stage (SharedQueue α) (QueueSection α) (QueueOutput α)

end Creek.Tight
