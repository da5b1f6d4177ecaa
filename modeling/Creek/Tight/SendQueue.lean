import Creek.Tight.Transport

/-! The send queue of a transport and the reactor pass that moves its messages to the encode
queue. Other threads run between two messages of a pass: they call `send_message`, drain the
encode queue and change the peer table.
-/

namespace Creek.Tight

/-- A bounded queue between two threads; capacity zero means no bound. -/
structure BlockingQueue (α : Type) where
  items : List α := []
  capacity : Nat := 0
  closed : Bool := false
  deriving DecidableEq, Repr

/-- Whether `try_push` refuses an item. -/
def BlockingQueue.refuses {α : Type} (queue : BlockingQueue α) : Bool :=
  queue.closed || (0 < queue.capacity && queue.capacity ≤ queue.items.length)

/-- The queue after `try_push`, and whether it took the item. The item is passed by value: a
caller that moved it into the call has an empty one left in either case.
-/
def BlockingQueue.tryPush {α : Type} (queue : BlockingQueue α) (item : α)
    : BlockingQueue α × Bool :=
  if queue.refuses then (queue, false)
  else ({ queue with items := queue.items ++ [item] }, true)

/-- A message on its way through the send queue. -/
structure QueuedMessage where
  priority : Int
  peerId : Bytes
  payload : Bytes
  deriving DecidableEq, Repr

/-- The messages that wait, by priority and in order of arrival. -/
abbrev SendQueue := Std.TreeMap Int (List (Bytes × Bytes))

namespace SendQueue

def total (queue : SendQueue) : Nat := (queue.toList.map fun entry => entry.2.length).sum

/-- Appends a message to the queue of its priority. -/
def push (queue : SendQueue) (message : QueuedMessage) : SendQueue :=
  queue.insert message.priority
    (queue.getD message.priority [] ++ [(message.peerId, message.payload)])

/-- The messages in the order a pass takes them: from the highest priority down. -/
def taken (queue : SendQueue) : List QueuedMessage :=
  queue.toList.reverse.flatMap fun entry =>
    entry.2.map fun item => { priority := entry.1, peerId := item.1, payload := item.2 }

end SendQueue

/-- A transport with its send and encode queues. -/
structure SendPath where
  transport : Transport
  sendQueue : SendQueue := ∅
  encodeQueue : BlockingQueue (Bytes × Bytes) := {}
  queueLimit : Nat := 0

namespace SendPath

/-- Queues a message unless the limit is reached. -/
def put (message : QueuedMessage) (path : SendPath) : SendPath :=
  if path.sendQueue.total < path.queueLimit then
    { path with sendQueue := path.sendQueue.push message }
  else
    path

/-- `send_message` of a running transport, and whether it accepts the message. -/
def sendMessage (message : QueuedMessage) (path : SendPath) : SendPath × Bool :=
  if message.payload.length > path.transport.identity.maxMessageBytes then (path, false)
  else if path.sendQueue.total ≥ path.queueLimit then (path, false)
  else ({ path with sendQueue := path.sendQueue.push message }, true)

/-- The state of the link a key leads to. -/
def linkState (path : SendPath) (key : Bytes) : LinkState :=
  (path.transport.peers.getD key {}).state

/-- What the pass does with one message. A refused task was moved into `try_push`, so the payload
that goes back to the queue is the empty one left behind, and it goes back at priority zero.
-/
def dispose (message : QueuedMessage) (path : SendPath) : SendPath :=
  match path.transport.findPeer message.peerId with
  | none => path
  | some key =>
      if path.linkState key ≠ .online then
        if path.linkState key ≠ .closed then path.put message else path
      else
        let (encodeQueue, accepted) := path.encodeQueue.tryPush (key, message.payload)
        if accepted then { path with encodeQueue := encodeQueue }
        else path.put { priority := 0, peerId := message.peerId, payload := [] }

/-- One message of a pass, with the state before and after its disposal. -/
structure Turn where
  message : QueuedMessage
  before : SendPath
  after : SendPath

/-- The pass over the messages it has taken. `others` is what the other threads do before each of
them; what they do to the send queue during a disposal may as well happen before it.
-/
def turns (path : SendPath) : List QueuedMessage → List (SendPath → SendPath) → List Turn
  | [], _ => []
  | message :: messages, others =>
      let before := others.headD id path
      let after := before.dispose message
      { message, before, after } :: after.turns messages others.tail

/-- One run of `process_send_queue`: it takes the whole queue, then disposes of each message. -/
def processSendQueue (others : List (SendPath → SendPath)) (path : SendPath) : List Turn :=
  { path with sendQueue := ∅ }.turns path.sendQueue.taken others

end SendPath

end Creek.Tight
