import Creek.Tight.SendQueue

/-! What one run of the reactor makes of the messages in the send queue. -/

namespace Creek.Tight.SendPath

/-- A message went to the encode queue as it was. -/
def Pushed (message : QueuedMessage) (before after : SendPath) : Prop :=
  ∃ key, before.transport.findPeer message.peerId = some key
    ∧ after = {
        before with
        encodeQueue := {
          before.encodeQueue with
          items := before.encodeQueue.items ++ [(key, message.payload)]
        }
      }

/-- A message went back to the send queue as it was. -/
def PutBack (message : QueuedMessage) (before after : SendPath) : Prop :=
  after = { before with sendQueue := before.sendQueue.push message }

/-- A message was dropped: its peer is unknown or closed, or the send queue is full. -/
def Dropped (message : QueuedMessage) (before after : SendPath) : Prop :=
  after = before
  ∧ (before.transport.findPeer message.peerId = none
    ∨ (∃ key, before.transport.findPeer message.peerId = some key
        ∧ before.linkState key = .closed)
    ∨ before.queueLimit ≤ before.sendQueue.total)

/-- A message was disposed of in exactly one of the three ways. -/
def Disposed (message : QueuedMessage) (before after : SendPath) : Prop :=
  (Pushed message before after ∧ ¬PutBack message before after ∧ ¬Dropped message before after)
  ∨ (¬Pushed message before after ∧ PutBack message before after ∧ ¬Dropped message before after)
  ∨ (¬Pushed message before after ∧ ¬PutBack message before after ∧ Dropped message before after)

/-- The encode queue refuses a message of an online peer, the send queue has room, and what goes
back there is not the message: it had a payload or a priority.
-/
def Mangles (message : QueuedMessage) (path : SendPath) : Prop :=
  (∃ key, path.transport.findPeer message.peerId = some key ∧ path.linkState key = .online)
  ∧ path.encodeQueue.refuses = true
  ∧ path.sendQueue.total < path.queueLimit
  ∧ (message.payload ≠ [] ∨ message.priority ≠ 0)

/-- The message the pass puts back for one that the encode queue refuses. -/
def emptied (message : QueuedMessage) : QueuedMessage where
  priority := 0
  peerId := message.peerId
  payload := []

theorem emptied_eq_iff (message : QueuedMessage)
    : emptied message = message ↔ ¬(message.payload ≠ [] ∨ message.priority ≠ 0) := by
  rcases message with ⟨priority, peerId, payload⟩
  simp [emptied, eq_comm, and_comm]

variable {message other : QueuedMessage} {before after path : SendPath}

-- Telling queues apart

theorem getD_push (queue : SendQueue) (message : QueuedMessage) (priority : Int)
    : (queue.push message).getD priority []
      = queue.getD priority []
        ++ if message.priority = priority then [(message.peerId, message.payload)] else [] := by
  rw [SendQueue.push, Std.TreeMap.getD_insert]
  by_cases same : message.priority = priority
  · subst same
    simp
  · simp [same]

theorem push_ne (queue : SendQueue) (message : QueuedMessage) : queue.push message ≠ queue := by
  intro same
  have here := congrArg (fun queue : SendQueue => (queue.getD message.priority []).length) same
  simp [getD_push] at here

theorem push_inj (queue : SendQueue) (same : queue.push message = queue.push other)
    : message = other := by
  have here := congrArg (fun queue : SendQueue => queue.getD message.priority []) same
  simp only [getD_push, if_true, List.append_cancel_left_eq] at here
  split at here
  · rename_i priority
    rcases message with ⟨p, id, payload⟩
    rcases other with ⟨p', id', payload'⟩
    simp_all
  · cases here

-- One message

theorem not_pushed_of_encodeQueue (kept : after.encodeQueue = before.encodeQueue)
    : ¬Pushed message before after := by
  rintro ⟨key, -, rfl⟩
  have length := congrArg (fun queue => queue.items.length) kept
  simp at length

theorem disposed_of_putBack (back : PutBack message before after)
    : Disposed message before after := by
  refine Or.inr (Or.inl ⟨?_, back, ?_⟩)
  · apply not_pushed_of_encodeQueue
    rw [back]
  · rintro ⟨same, -⟩
    have queues := congrArg SendPath.sendQueue (back.symm.trans same)
    exact push_ne _ _ queues

theorem disposed_of_dropped (dropped : Dropped message before after)
    : Disposed message before after := by
  refine Or.inr (Or.inr ⟨?_, ?_, dropped⟩)
  · apply not_pushed_of_encodeQueue
    rw [dropped.1]
  · intro back
    have queues := congrArg SendPath.sendQueue (back.symm.trans dropped.1)
    exact push_ne _ _ queues

theorem disposed_of_pushed (pushed : Pushed message before after)
    : Disposed message before after := by
  refine Or.inl ⟨pushed, ?_, ?_⟩
  · intro back
    exact not_pushed_of_encodeQueue (by rw [back]) pushed
  · rintro ⟨same, -⟩
    exact not_pushed_of_encodeQueue (by rw [same]) pushed

/-- Putting a message back disposes of it, also where the queue has no room. -/
theorem disposed_put (message : QueuedMessage) (path : SendPath)
    : Disposed message path (path.put message) := by
  rw [put]
  split
  · exact disposed_of_putBack rfl
  · rename_i full
    exact disposed_of_dropped ⟨rfl, Or.inr (Or.inr (Nat.le_of_not_lt full))⟩

/-- Putting back an emptied message disposes of it properly only where it was empty before. -/
theorem disposed_put_emptied_iff (room : path.sendQueue.total < path.queueLimit)
    : Disposed message path (path.put (emptied message))
      ↔ ¬(message.payload ≠ [] ∨ message.priority ≠ 0) := by
  have back : path.put (emptied message)
      = { path with sendQueue := path.sendQueue.push (emptied message) } :=
    if_pos room
  rw [← emptied_eq_iff]
  constructor
  · intro disposed
    have same : PutBack message path (path.put (emptied message)) := by
      rcases disposed with ⟨pushed, -⟩ | ⟨-, putBack, -⟩ | ⟨-, -, dropped⟩
      · exact absurd pushed (not_pushed_of_encodeQueue (by rw [back]))
      · exact putBack
      · exact absurd (congrArg SendPath.sendQueue (back.symm.trans dropped.1)) (push_ne _ _)
    exact push_inj _ (congrArg SendPath.sendQueue (back.symm.trans same))
  · intro whole
    rw [whole]
    exact disposed_put message path

/-- A message is disposed of properly exactly when the pass does not put an emptied one back. -/
theorem disposed_dispose_iff (message : QueuedMessage) (path : SendPath)
    : Disposed message path (path.dispose message) ↔ ¬Mangles message path := by
  unfold dispose
  cases found : path.transport.findPeer message.peerId with
  | none =>
      refine iff_of_true (disposed_of_dropped ⟨rfl, Or.inl found⟩) ?_
      rintro ⟨⟨key, here, -⟩, -⟩
      cases here.symm.trans found
  | some key =>
      dsimp only
      split
      · rename_i offline
        refine iff_of_true ?_ ?_
        · split
          · exact disposed_put message path
          · rename_i closed
            exact disposed_of_dropped
              ⟨rfl, Or.inr (Or.inl ⟨key, found, Decidable.of_not_not closed⟩)⟩
        · rintro ⟨⟨other, here, online⟩, -⟩
          obtain rfl := Option.some.inj (here.symm.trans found)
          exact offline online
      · rename_i online
        have online := Decidable.of_not_not online
        rw [BlockingQueue.tryPush]
        cases refused : path.encodeQueue.refuses with
        | false =>
            refine iff_of_true (disposed_of_pushed ⟨key, found, rfl⟩) ?_
            rintro ⟨-, refuses, -⟩
            cases refuses.symm.trans refused
        | true =>
            change Disposed message path (path.put (emptied message)) ↔ _
            by_cases room : path.sendQueue.total < path.queueLimit
            · rw [disposed_put_emptied_iff room]
              constructor
              · rintro whole ⟨-, -, -, altered⟩
                exact whole altered
              · intro proper altered
                exact proper ⟨⟨key, found, online⟩, refused, room, altered⟩
            · refine iff_of_true (disposed_of_dropped ⟨if_neg room, ?_⟩) ?_
              · exact Or.inr (Or.inr (Nat.le_of_not_lt room))
              · rintro ⟨-, -, here, -⟩
                exact room here

-- One run

theorem map_message_turns (messages : List QueuedMessage) (path : SendPath)
    (others : List (SendPath → SendPath))
    : (path.turns messages others).map Turn.message = messages := by
  induction messages generalizing path others with
  | nil => rfl
  | cons message messages ih => exact congrArg (message :: ·) (ih _ _)

theorem after_of_mem_turns {messages : List QueuedMessage} {others : List (SendPath → SendPath)}
    {turn : Turn} (member : turn ∈ path.turns messages others)
    : turn.after = turn.before.dispose turn.message := by
  induction messages generalizing path others with
  | nil => exact absurd member List.not_mem_nil
  | cons message messages ih =>
      rcases List.mem_cons.mp member with rfl | later
      · rfl
      · exact ih later

/-- One run takes every message of the send queue, and it disposes of them in one of the three ways
exactly when no message finds its peer online and the encode queue full.
-/
theorem processSendQueue_disposes_iff (others : List (SendPath → SendPath)) (path : SendPath)
    : (path.processSendQueue others).map Turn.message = path.sendQueue.taken
      ∧ ((∀ turn ∈ path.processSendQueue others,
            Disposed turn.message turn.before turn.after)
        ↔ ∀ turn ∈ path.processSendQueue others, ¬Mangles turn.message turn.before) := by
  refine ⟨map_message_turns _ _ _, forall₂_congr fun turn member => ?_⟩
  rw [after_of_mem_turns member]
  exact disposed_dispose_iff turn.message turn.before

/-- One online peer, an encode queue of capacity one that is full, and a message of priority
five.
-/
def fullPath : SendPath where
  transport := { identity := {}, peers := (∅ : Std.TreeMap Bytes Peer).insert [1] { state := .online } }
  sendQueue := (∅ : SendQueue).push { priority := 5, peerId := [1], payload := [7] }
  encodeQueue := { items := [([1], [0])], capacity := 1 }
  queueLimit := 10

/-- The message comes back empty and at priority zero. -/
theorem fullPath_mangles
    : ¬∀ turn ∈ fullPath.processSendQueue [], Disposed turn.message turn.before turn.after := by
  intro disposed
  have message : fullPath.sendQueue.taken = [{ priority := 5, peerId := [1], payload := [7] }] := by
    decide
  have first := disposed
    {
      message := { priority := 5, peerId := [1], payload := [7] }
      before := { fullPath with sendQueue := ∅ }
      after := { fullPath with sendQueue := ∅ }.dispose
        { priority := 5, peerId := [1], payload := [7] }
    }
    (by rw [processSendQueue, message]; exact List.mem_cons_self)
  refine (disposed_dispose_iff _ _).mp first ⟨⟨[1], ?_, ?_⟩, rfl, ?_, ?_⟩
  · decide
  · decide
  · decide
  · decide

end Creek.Tight.SendPath
