import Creek.Framework.Stage4
import Creek.Library.Chains
import Creek.Library.CheckedAccess
import Creek.Library.Runs

/-! The `CopyChannel` as the linked list it is, and one step for each critical section of its callers. A
node is new for every item and deleted with it. A receiver that waits may wake at any time.
-/

namespace Creek.Framework

open Library

structure ChannelNode (α : Type) where
  data : α
  next : Option Nat := none

/-- The members of a `CopyChannel`, over a heap of nodes; `allocations` counts these, so that the next one
is new.
-/
structure LinkedChannel (α : Type) where
  maxNodes : Nat := 4096
  size : Nat := 0
  head : Option Nat := none
  tail : Option Nat := none
  closed : Bool := false
  nodes : Heap (ChannelNode α) := fun _ => none
  allocations : Nat := 0

namespace LinkedChannel

variable {α : Type}

def setNode (address : Nat) (node : Option (ChannelNode α)) (channel : LinkedChannel α)
    : LinkedChannel α :=
  { channel with nodes := Function.update channel.nodes address node }

/-- What `send` and `try_send` do once the item is accepted. -/
def link (item : α) (channel : LinkedChannel α) : Except Fault (LinkedChannel α) :=
  let address := channel.allocations
  let channel :=
    { channel with allocations := address + 1 }.setNode address (some { data := item })
  match channel.tail with
  | some tail => do
      let last ← deref (channel.nodes tail)
      let channel := channel.setNode tail (some { last with next := some address })
      return { channel with tail := some address, size := channel.size + 1 }
  | none =>
      return { channel with head := some address, tail := some address, size := channel.size + 1 }

/-- Takes the first node off the list and deletes it. -/
def unlink (channel : LinkedChannel α) : Except Fault (LinkedChannel α × α) := do
  let address ← deref channel.head
  let node ← deref (channel.nodes address)
  let size ← difference channel.size 1
  let tail := if node.next.isNone then none else channel.tail
  let channel := { channel with head := node.next, tail := tail, size := size }
  return (channel.setNode address none, node.data)

/-- The loop of `drain_all` and `close`, which deletes node after node. No node is deleted twice, so it turns
at most once for each that was made; a further turn would find a deleted one.
-/
def deleteFrom
    : Nat → Option Nat → Heap (ChannelNode α) → Except Fault (Heap (ChannelNode α) × List α)
  | _, none, nodes => .ok (nodes, [])
  | 0, some _, _ => .error .outOfBounds
  | turns + 1, some address, nodes => do
      let node ← deref (nodes address)
      let (nodes, items) ← deleteFrom turns node.next (Function.update nodes address none)
      return (nodes, node.data :: items)

/-- Deletes all nodes; their items come with it. -/
def clear (channel : LinkedChannel α) : Except Fault (LinkedChannel α × List α) := do
  let (nodes, items) ← deleteFrom channel.allocations channel.head channel.nodes
  return ({ channel with nodes := nodes, head := none, tail := none, size := 0 }, items)

/-- What a receiver waits for. -/
def hasNews (channel : LinkedChannel α) : Bool := channel.head.isSome || channel.closed

def isFull (channel : LinkedChannel α) : Bool := decide (channel.maxNodes ≤ channel.size)

end LinkedChannel

/-- What a call tells its caller; `drain_all` also counts what it hands out. -/
inductive ChannelOutput (α : Type) where
  | accepted (item : α)
  | refused (item : α)
  | returned (item : α)
  | nothing
  | drained (count : Nat)
  deriving DecidableEq

namespace ChannelOutput

variable {α : Type}

/-- The item that went into the channel. -/
def accepted? : ChannelOutput α → Option α
  | accepted item => some item
  | _ => none

/-- The item that was handed out. -/
def returned? : ChannelOutput α → Option α
  | returned item => some item
  | _ => none

end ChannelOutput

/-- The critical sections; `recv` is `poll` or `recv_for`. A resumed `recv_for` is one of those that wait; its
timeout may have expired.
-/
inductive ChannelSection (α : Type) where
  | send (item : α)
  | trySend (item : α)
  | recvFor
  | resumeRecvFor (expired : Bool)
  | poll
  | drainAll
  | close
  deriving DecidableEq

def ChannelSection.closes {α : Type} : ChannelSection α → Bool
  | close => true
  | _ => false

/-- A channel and the number of receivers that wait for it. -/
structure SharedChannel (α : Type) where
  channel : LinkedChannel α := {}
  waiting : Nat := 0

namespace SharedChannel

variable {α : Type}

/-- The end of a send that nothing stands against. -/
def accept (item : α) (shared : SharedChannel α)
    : Except Fault (SharedChannel α × List (ChannelOutput α)) := do
  let channel ← shared.channel.link item
  return ({ shared with channel := channel }, [.accepted item])

/-- The end of a receive that does not wait: the first item, if there is one. -/
def handOut (shared : SharedChannel α)
    : Except Fault (SharedChannel α × List (ChannelOutput α)) :=
  if shared.channel.head.isNone then .ok (shared, [.nothing])
  else do
    let (channel, item) ← shared.channel.unlink
    return ({ shared with channel := channel }, [.returned item])

def step (shared : SharedChannel α)
    : ChannelSection α → Except Fault (SharedChannel α × List (ChannelOutput α))
  | .send item =>
      if shared.channel.closed then .ok (shared, [.refused item]) else shared.accept item
  | .trySend item =>
      if shared.channel.closed || shared.channel.isFull then .ok (shared, [.refused item])
      else shared.accept item
  | .recvFor =>
      if shared.channel.hasNews then shared.handOut
      else .ok ({ shared with waiting := shared.waiting + 1 }, [])
  | .resumeRecvFor expired =>
      if shared.waiting = 0 then .ok (shared, [])
      else
        let resumed := { shared with waiting := shared.waiting - 1 }
        if shared.channel.hasNews then resumed.handOut
        else if expired then .ok (resumed, [.nothing])
        else .ok (shared, [])
  | .poll => shared.handOut
  | .drainAll => do
      let count := shared.channel.size
      let (channel, items) ← shared.channel.clear
      return ({ shared with channel := channel }, items.map .returned ++ [.drained count])
  | .close => do
      let (channel, _) ← { shared.channel with closed := true }.clear
      return ({ shared with channel := channel }, [])

end SharedChannel

abbrev ChannelStage (α : Type) := Stage (SharedChannel α) (ChannelSection α) (ChannelOutput α)

end Creek.Framework
