import Creek.Tight.LinkedQueue
import Creek.Tight.SendQueue

/-! The linked queue holds its items in order. Its list and its free list are two chains without a common
node, which every critical section keeps, so the queue is the plain one, and what it returns is a
prefix of what it has accepted.
-/

namespace Creek.Tight

open Library

namespace LinkedQueue

variable {α : Type} {queue after : LinkedQueue α} {addresses free : List Nat} {items : List α}
  {item : α} {address : Nat}

-- What a queue holds

/-- The item in a node. -/
def itemAt (nodes : Heap (QueueNode α)) (address : Nat) : Option α :=
  (nodes address).bind QueueNode.item

/-- The queue holds items in the nodes at some addresses, and has other nodes to recycle. -/
structure Holds (queue : LinkedQueue α) (addresses free : List Nat) (items : List α) : Prop where
  chain : Chain QueueNode.next queue.nodes queue.head addresses
  contents : addresses.map (itemAt queue.nodes) = items.map some
  tail : queue.tail = addresses.getLast?
  size : queue.size = addresses.length
  recycled : Chain QueueNode.next queue.nodes queue.freeNodes free
  freeCount : queue.freeCount = free.length
  disjoint : addresses.Disjoint free
  known : ∀ address node, queue.nodes address = some node → address < queue.allocations

/-- Neither the capacity nor the state of being closed differs. -/
structure SameLimits (before after : LinkedQueue α) : Prop where
  capacity : after.capacity = before.capacity
  closed : after.closed = before.closed

theorem holds_empty (capacity : Nat)
    : Holds ({ capacity := capacity } : LinkedQueue α) [] [] [] :=
  ⟨rfl, rfl, rfl, rfl, rfl, rfl, List.disjoint_nil_left _, fun _ _ found => by cases found⟩

theorem Holds.length (holds : queue.Holds addresses free items) : items.length = queue.size := by
  have lengths := congrArg List.length holds.contents
  rw [List.length_map, List.length_map] at lengths
  rw [holds.size, lengths]

theorem map_itemAt_update {nodes : Heap (QueueNode α)} (outside : address ∉ addresses)
    (node : Option (QueueNode α))
    : addresses.map (itemAt (Function.update nodes address node))
      = addresses.map (itemAt nodes) :=
  map_read_update (fun found => found.bind QueueNode.item) outside node

theorem known_update {nodes : Heap (QueueNode α)} {bound : Nat}
    (known : ∀ other node, nodes other = some node → other < bound) (below : address < bound)
    (node : Option (QueueNode α))
    : ∀ other found, Function.update nodes address node other = some found → other < bound := by
  intro other found stored
  by_cases same : other = address
  · rw [same]
    exact below
  · rw [Function.update_of_ne same] at stored
    exact known other found stored

-- Nodes

/-- A node to use is in neither list and leads nowhere. -/
structure Spare (queue : LinkedQueue α) (address : Nat) (addresses free : List Nat) : Prop where
  unused : address ∉ addresses
  taken : address ∉ free
  stored : ∃ item, queue.nodes address = some { item := item, next := none }

theorem Holds.obtainNodeLocked (holds : queue.Holds addresses free items)
    : ∃ after address free, queue.obtainNodeLocked = .ok (after, address)
      ∧ after.Holds addresses free items ∧ after.Spare address addresses free
      ∧ SameLimits queue after := by
  rcases spare : queue.freeNodes with _ | address
  · have none_ := holds.recycled
    rw [spare] at none_
    have empty : free = [] := none_.unique (rfl : Chain QueueNode.next queue.nodes none [])
    have gone : queue.allocations ∉ free := by
      rw [empty]
      exact List.not_mem_nil
    have outside : queue.allocations ∉ addresses := by
      intro member
      obtain ⟨node, found⟩ := holds.chain.live member
      exact Nat.lt_irrefl _ (holds.known _ _ found)
    refine ⟨_, queue.allocations, free, by rw [LinkedQueue.obtainNodeLocked, spare]; rfl, ?_, ?_, ?_⟩
    · refine ⟨holds.chain.update outside _, ?_, holds.tail, holds.size, ?_, holds.freeCount,
        holds.disjoint, ?_⟩
      · exact (map_itemAt_update outside _).trans holds.contents
      · exact none_.update gone _
      · exact known_update (fun other node found => Nat.lt_succ_of_lt (holds.known other node found))
          (Nat.lt_succ_self _) _
    · exact ⟨outside, gone, none, Function.update_self _ _ _⟩
    · exact ⟨rfl, rfl⟩
  · rcases split : free with _ | ⟨first, rest⟩
    · have chain := holds.recycled
      rw [split, spare] at chain
      cases chain
    · have chain := holds.recycled
      have fresh := chain.nodup
      rw [split] at chain fresh
      obtain ⟨same, node, found, chain⟩ := chain
      obtain rfl : address = first := Option.some.inj (spare.symm.trans same)
      have outside : address ∉ addresses :=
        fun member => holds.disjoint member (split ▸ List.mem_cons_self)
      have gone : address ∉ rest := (List.nodup_cons.mp fresh).1
      have count : queue.freeCount = rest.length + 1 := by
        rw [holds.freeCount, split, List.length_cons]
      have some_ : 1 ≤ queue.freeCount := by
        rw [count]
        exact Nat.le_add_left 1 _
      refine ⟨{ queue with freeNodes := node.next, freeCount := queue.freeCount - 1 }.setNode address
        (some { node with next := none }), address, rest, ?_, ?_, ?_, ?_⟩
      · rw [LinkedQueue.obtainNodeLocked, spare]
        simp only [found, deref, ok_bind, difference_of_le some_, pure_eq_ok]
      · refine ⟨holds.chain.update outside _, ?_, holds.tail, holds.size, chain.update gone _, ?_, ?_,
          ?_⟩
        · exact (map_itemAt_update outside _).trans holds.contents
        · show queue.freeCount - 1 = rest.length
          rw [count, Nat.add_sub_cancel]
        · exact fun _ member other => holds.disjoint member (split ▸ List.mem_cons_of_mem _ other)
        · exact known_update holds.known (holds.known _ _ found) _
      · exact ⟨outside, gone, node.item, Function.update_self _ _ _⟩
      · exact ⟨rfl, rfl⟩

theorem Holds.recycleNodeLocked (holds : queue.Holds addresses free items)
    (unused : address ∉ addresses) (taken : address ∉ free) {node : QueueNode α}
    (found : queue.nodes address = some node)
    : ∃ after free, queue.recycleNodeLocked address = .ok after ∧ after.Holds addresses free items
      ∧ SameLimits queue after := by
  have below := holds.known _ _ found
  by_cases room : queue.freeCount < 64
  · refine ⟨{
        queue.setNode address (some { item := none, next := queue.freeNodes }) with
        freeNodes := some address
        freeCount := queue.freeCount + 1
      }, address :: free, ?_, ?_, ?_⟩
    · simp only [LinkedQueue.recycleNodeLocked, found, deref, ok_bind, if_pos room, pure_eq_ok]
      rfl
    · refine ⟨holds.chain.update unused _, ?_, holds.tail, holds.size, ?_, ?_, ?_, ?_⟩
      · exact (map_itemAt_update unused _).trans holds.contents
      · exact (holds.recycled.update taken _).cons (Function.update_self _ _ _) rfl
      · exact congrArg Nat.succ holds.freeCount
      · exact List.disjoint_cons_right.mpr ⟨unused, holds.disjoint⟩
      · exact known_update holds.known below _
    · exact ⟨rfl, rfl⟩
  · refine ⟨queue.setNode address none, free, ?_, ?_, ?_⟩
    · simp only [LinkedQueue.recycleNodeLocked, found, deref, ok_bind, if_neg room, pure_eq_ok]
    · refine ⟨holds.chain.update unused _, ?_, holds.tail, holds.size,
        holds.recycled.update taken _, holds.freeCount, holds.disjoint,
        known_update holds.known below _⟩
      exact (map_itemAt_update unused _).trans holds.contents
    · exact ⟨rfl, rfl⟩

-- Items

theorem itemAt_relink {nodes : Heap (QueueNode α)} {node : QueueNode α}
    (found : nodes address = some node) (next : Option Nat)
    : itemAt (Function.update nodes address (some { node with next := next })) = itemAt nodes :=
  @read_update _ _ _ _ _ (fun stored => stored.bind QueueNode.item) { node with next := next } found
    rfl

theorem Holds.linkTail (holds : queue.Holds addresses free items) (unused : address ∉ addresses)
    (taken : address ∉ free)
    (here : queue.nodes address = some { item := some item, next := none })
    : ∃ after, queue.linkTail address = .ok after
      ∧ after.Holds (addresses ++ [address]) free (items ++ [item]) ∧ SameLimits queue after := by
  have disjoint : (addresses ++ [address]).Disjoint free := by
    rw [List.disjoint_append_left, List.singleton_disjoint]
    exact ⟨holds.disjoint, taken⟩
  have contents : (addresses ++ [address]).map (itemAt queue.nodes) = (items ++ [item]).map some := by
    rw [List.map_append, List.map_append, holds.contents, List.map_singleton, List.map_singleton,
      itemAt, here]
    rfl
  have tail := holds.tail
  rcases List.eq_nil_or_concat addresses with rfl | ⟨front, last, rfl⟩
  · refine ⟨{ queue with head := some address, tail := some address, size := queue.size + 1 },
      ?_, ?_, ?_⟩
    · rw [LinkedQueue.linkTail, tail]
      rfl
    · refine ⟨Chain.cons rfl here rfl, contents, rfl, ?_, holds.recycled, holds.freeCount, disjoint,
        holds.known⟩
      exact congrArg Nat.succ holds.size
    · exact ⟨rfl, rfl⟩
  · rw [List.concat_eq_append] at *
    rw [List.getLast?_concat] at tail
    have member : last ∈ front ++ [last] := List.mem_append_right _ (List.mem_singleton_self _)
    obtain ⟨node, found⟩ := holds.chain.live member
    refine ⟨{
        queue.setNode last (some { node with next := some address }) with
        tail := some address
        size := queue.size + 1
      }, ?_, ?_, ?_⟩
    · rw [LinkedQueue.linkTail, tail]
      simp only [found, deref, ok_bind, pure_eq_ok]
      rfl
    · refine ⟨holds.chain.concat unused here rfl rfl, ?_, ?_, ?_,
        holds.recycled.update (fun other => holds.disjoint member other) _, holds.freeCount, disjoint,
        known_update holds.known (holds.known _ _ found) _⟩
      · show (front ++ [last] ++ [address]).map (itemAt (Function.update queue.nodes last _)) = _
        rw [itemAt_relink found]
        exact contents
      · exact List.getLast?_concat.symm
      · show queue.size + 1 = (front ++ [last] ++ [address]).length
        rw [List.length_append, holds.size, List.length_singleton]
    · exact ⟨rfl, rfl⟩

theorem Holds.append (holds : queue.Holds addresses free items) (item : α)
    : ∃ after addresses free, queue.append item = .ok after
      ∧ after.Holds addresses free (items ++ [item]) ∧ SameLimits queue after := by
  obtain ⟨middle, address, free, obtained, holds, spare, same⟩ := holds.obtainNodeLocked
  obtain ⟨unused, taken, other, stored⟩ := spare
  -- The item goes into the spare node, which is in no list yet.
  have filled : Holds (middle.setNode address (some { item := some item })) addresses free items := by
    refine ⟨holds.chain.update unused _, ?_, holds.tail, holds.size, holds.recycled.update taken _,
      holds.freeCount, holds.disjoint, known_update holds.known (holds.known _ _ stored) _⟩
    exact (map_itemAt_update unused _).trans holds.contents
  obtain ⟨after, linked, holds, limits⟩ :=
    @Holds.linkTail _ _ _ _ _ item address filled unused taken (Function.update_self _ _ _)
  refine ⟨after, _, free, ?_, holds, limits.capacity.trans same.capacity,
    limits.closed.trans same.closed⟩
  simp only [LinkedQueue.append, obtained, ok_bind, stored, deref]
  exact linked

theorem Holds.unlinkHeadLocked (holds : queue.Holds addresses free (item :: items))
    : ∃ after addresses free, queue.unlinkHeadLocked = .ok (after, item)
      ∧ after.Holds addresses free items ∧ SameLimits queue after := by
  have contents := holds.contents
  have chain := holds.chain
  have fresh := chain.nodup
  rcases split : addresses with _ | ⟨address, rest⟩
  · rw [split] at contents
    cases contents
  · rw [split] at chain contents fresh
    obtain ⟨head, node, found, chain⟩ := chain
    obtain ⟨unused, -⟩ := List.nodup_cons.mp fresh
    obtain ⟨first, contents⟩ := List.cons.inj contents
    have stored : node.item = some item := by
      rw [itemAt, found] at first
      exact first
    have taken : address ∉ free := fun other => holds.disjoint (split ▸ List.mem_cons_self) other
    have size : queue.size = rest.length + 1 := by
      rw [holds.size, split, List.length_cons]
    have some_ : 1 ≤ queue.size := by
      rw [size]
      exact Nat.le_add_left 1 _
    have tail : (if node.next.isNone then none else queue.tail) = rest.getLast? := by
      rw [holds.tail, split]
      rcases rest with _ | ⟨second, others⟩
      · rw [show node.next = none from chain]
        rfl
      · rw [chain.1]
        rfl
    have unlinked : Holds
        {
          queue with
          head := node.next
          tail := if node.next.isNone then none else queue.tail
          size := queue.size - 1
        } rest free items := by
      refine ⟨chain, contents, tail, ?_, holds.recycled, holds.freeCount, ?_, holds.known⟩
      · show queue.size - 1 = rest.length
        rw [size, Nat.add_sub_cancel]
      · exact fun _ member other => holds.disjoint (split ▸ List.mem_cons_of_mem _ member) other
    obtain ⟨after, free, recycled, holds, limits⟩ := unlinked.recycleNodeLocked unused taken found
    refine ⟨after, rest, free, ?_, holds, limits.capacity, limits.closed⟩
    simp only [LinkedQueue.unlinkHeadLocked, head, deref, ok_bind, found, difference_of_le some_,
      stored, recycled, pure_eq_ok]

-- Critical sections

/-- The queue holds these items, in some nodes. -/
def Contains (queue : LinkedQueue α) (items : List α) : Prop :=
  ∃ addresses free, queue.Holds addresses free items

/-- What a critical section does: the items that come out and those that stay are those that were there
and those that come in, and an item comes in only while the queue is open and has room.
-/
structure Served (before : LinkedQueue α) (items : List α) (closing : Bool)
    (after : LinkedQueue α) (outputs : List (QueueOutput α))
    : Prop where
  contents : ∃ left, after.Contains left
    ∧ items ++ outputs.filterMap QueueOutput.accepted?
      = outputs.filterMap QueueOutput.returned? ++ left
  capacity : after.capacity = before.capacity
  closed : after.closed = (before.closed || closing)
  room : ∀ item, .accepted item ∈ outputs → before.closed = false ∧ before.isFull = false

theorem Contains.idle {outputs : List (QueueOutput α)} (contains : queue.Contains items)
    (noneIn : ∀ output ∈ outputs, output.accepted? = none)
    (noneOut : ∀ output ∈ outputs, output.returned? = none)
    : queue.Served items false queue outputs := by
  refine ⟨⟨items, contains, ?_⟩, rfl, (Bool.or_false _).symm, fun item member => ?_⟩
  · rw [List.filterMap_eq_nil_iff.mpr noneIn, List.filterMap_eq_nil_iff.mpr noneOut,
      List.append_nil, List.nil_append]
  · cases noneIn _ member

theorem Contains.silent (contains : queue.Contains items) : queue.Served items false queue [] :=
  contains.idle (fun _ member => absurd member List.not_mem_nil)
    fun _ member => absurd member List.not_mem_nil

theorem Contains.refuse (contains : queue.Contains items) (item : α)
    : queue.Served items false queue [.refused item] := by
  refine contains.idle ?_ ?_
  all_goals
    intro output member
    rw [List.mem_singleton.mp member]
    rfl

theorem Contains.miss (contains : queue.Contains items)
    : queue.Served items false queue [.nothing] := by
  refine contains.idle ?_ ?_
  all_goals
    intro output member
    rw [List.mem_singleton.mp member]
    rfl

theorem Contains.accept (contains : queue.Contains items) (item : α)
    (isOpen : queue.closed = false) (room : queue.isFull = false)
    : ∃ after, queue.append item = .ok after
      ∧ queue.Served items false after [.accepted item] := by
  obtain ⟨addresses, free, holds⟩ := contains
  obtain ⟨after, addresses, free, appended, holds, limits⟩ := holds.append item
  refine ⟨after, appended, ⟨_, ⟨addresses, free, holds⟩, rfl⟩, limits.capacity, ?_, ?_⟩
  · rw [limits.closed, Bool.or_false]
  · exact fun _ _ => ⟨isOpen, room⟩

theorem Contains.give (contains : queue.Contains items) (some_ : queue.size ≠ 0)
    : ∃ after item, queue.unlinkHeadLocked = .ok (after, item)
      ∧ queue.Served items false after [.returned item] := by
  obtain ⟨addresses, free, holds⟩ := contains
  rcases items with _ | ⟨item, items⟩
  · exact absurd holds.length.symm some_
  · obtain ⟨after, addresses, free, unlinked, holds, limits⟩ := holds.unlinkHeadLocked
    refine ⟨after, item, unlinked, ⟨items, ⟨addresses, free, holds⟩, ?_⟩, limits.capacity, ?_, ?_⟩
    · rw [List.filterMap_cons_none rfl, List.filterMap_nil, List.append_nil]
      rfl
    · rw [limits.closed, Bool.or_false]
    · intro other member
      cases List.mem_singleton.mp member

end LinkedQueue

namespace SharedQueue

open LinkedQueue

variable {α : Type} {shared last : SharedQueue α} {items : List α} {item : α}
  {history : List (QueueStage α)} {capacity : Nat}

/-- A call that ends without a fault, and has done what a critical section does. -/
def Serves (shared : SharedQueue α) (items : List α) (closing : Bool)
    (result : Except Fault (SharedQueue α × List (QueueOutput α)))
    : Prop :=
  ∃ after outputs, result = .ok (after, outputs)
    ∧ shared.queue.Served items closing after.queue outputs

theorem serves_finishPush (contains : shared.queue.Contains items)
    (room : shared.queue.closed = false → shared.queue.isFull = false)
    : shared.Serves items false (shared.finishPush item) := by
  rcases closed : shared.queue.closed with _ | _
  · obtain ⟨after, appended, served⟩ := contains.accept item closed (room closed)
    refine ⟨{ shared with queue := after }, [.accepted item], ?_, served⟩
    simp only [finishPush, closed, Bool.false_eq_true, if_false, appended, ok_bind, pure_eq_ok]
  · exact ⟨shared, [.refused item], if_pos closed, contains.refuse item⟩

theorem serves_returnHead (contains : shared.queue.Contains items) (some_ : shared.queue.size ≠ 0)
    : shared.Serves items false shared.returnHead := by
  obtain ⟨after, item, unlinked, served⟩ := contains.give some_
  refine ⟨{ shared with queue := after }, [.returned item], ?_, served⟩
  simp only [returnHead, unlinked, ok_bind, pure_eq_ok]

theorem serves_finishTake (contains : shared.queue.Contains items)
    (news : shared.queue.hasNews = true)
    : shared.Serves items false shared.finishTake := by
  rw [finishTake]
  split
  · exact ⟨shared, [.nothing], rfl, contains.miss⟩
  · rename_i open_
    refine serves_returnHead contains fun empty => open_ ⟨?_, empty⟩
    simpa [hasNews, empty] using news

/-- A caller who finds room may push, unless the queue is closed. -/
theorem isFull_of_hasRoom {queue : LinkedQueue α} (room : queue.hasRoom = true)
    (isOpen : queue.closed = false)
    : queue.isFull = false := by
  have below : queue.size < queue.capacity := by simpa [hasRoom, isOpen] using room
  simp [isFull, below]

/-- Every critical section ends without a fault, and does what it says. -/
theorem serves_step (contains : shared.queue.Contains items) (call : QueueSection α)
    : shared.Serves items call.closes (shared.step call) := by
  cases call with
  | push item =>
      simp only [step]
      split
      · exact ⟨shared, [.refused item], rfl, contains.refuse item⟩
      · split
        · exact ⟨_, [], rfl, contains.silent⟩
        · rename_i goesOn
          refine serves_finishPush contains fun isOpen => ?_
          rcases full : shared.queue.isFull with _ | _
          · rfl
          · have room : shared.queue.hasRoom = true := by simpa [full] using goesOn
            exact full.symm.trans (isFull_of_hasRoom room isOpen)
  | resumePush position =>
      simp only [step]
      split
      · exact ⟨shared, [], rfl, contains.silent⟩
      · split
        · rename_i room
          exact serves_finishPush contains (isFull_of_hasRoom room)
        · exact ⟨shared, [], rfl, contains.silent⟩
  | tryPush item =>
      simp only [step]
      split
      · exact ⟨shared, [.refused item], rfl, contains.refuse item⟩
      · rename_i takes
        refine serves_finishPush contains fun _ => ?_
        simpa using (not_or.mp (mt Bool.or_eq_true_iff.mpr takes)).2
  | take =>
      simp only [step]
      split
      · rename_i news
        exact serves_finishTake contains news
      · exact ⟨_, [], rfl, contains.silent⟩
  | resumeTake =>
      simp only [step]
      split
      · rename_i news
        exact serves_finishTake contains news.2
      · exact ⟨shared, [], rfl, contains.silent⟩
  | takeFor =>
      simp only [step]
      split
      · rename_i news
        exact serves_finishTake contains news
      · exact ⟨_, [], rfl, contains.silent⟩
  | resumeTakeFor expired =>
      simp only [step]
      split
      · exact ⟨shared, [], rfl, contains.silent⟩
      · split
        · rename_i news
          exact serves_finishTake contains news
        · split
          · exact ⟨_, [.nothing], rfl, contains.miss⟩
          · exact ⟨shared, [], rfl, contains.silent⟩
  | poll =>
      simp only [step]
      split
      · exact ⟨shared, [.nothing], rfl, contains.miss⟩
      · rename_i some_
        exact serves_returnHead contains some_
  | close =>
      obtain ⟨addresses, free, holds⟩ := contains
      have closed : Contains { shared.queue with closed := true } items :=
        ⟨addresses, free, holds.chain, holds.contents, holds.tail, holds.size, holds.recycled,
          holds.freeCount, holds.disjoint, holds.known⟩
      refine ⟨_, [], rfl, ⟨items, closed, by rw [List.filterMap_nil, List.append_nil]; rfl⟩, rfl,
        (Bool.or_true _).symm, fun item member => absurd member List.not_mem_nil⟩

-- The plain queue

/-- The queue without its nodes. -/
def plain (queue : LinkedQueue α) (items : List α) : BlockingQueue α where
  items := items
  capacity := queue.capacity
  closed := queue.closed

-- Runs

/-- The items that went in, in order. -/
def accepted (history : List (QueueStage α)) : List α :=
  (emitted history).filterMap QueueOutput.accepted?

/-- The items that came out, in order. -/
def returned (history : List (QueueStage α)) : List α :=
  (emitted history).filterMap QueueOutput.returned?

/-- The list and the free list are chains without a common node, the size is the length of the list, and
the tail is its last node.
-/
def WellLinked (queue : LinkedQueue α) : Prop :=
  ∃ addresses free, Chain QueueNode.next queue.nodes queue.head addresses
    ∧ Chain QueueNode.next queue.nodes queue.freeNodes free
    ∧ queue.size = addresses.length ∧ queue.tail = addresses.getLast? ∧ addresses.Disjoint free

/-- What went in has come out or is still there, and the queue is closed when a call has closed it. -/
structure Accounted (capacity : Nat) (history : List (QueueStage α)) (shared : SharedQueue α)
    : Prop where
  contents : ∃ items, shared.queue.Contains items ∧ accepted history = returned history ++ items
  capacity : shared.queue.capacity = capacity
  closed : shared.queue.closed = history.any fun stage => stage.event.closes

theorem accounted_of_run
    (run : Run step (fun _ _ _ => True) { queue := { capacity := capacity } } history shared)
    : Accounted capacity history shared := by
  refine run.invariant (Accounted capacity) ?_ ?_
  · exact ⟨⟨[], ⟨[], [], holds_empty capacity⟩, rfl⟩, rfl, rfl⟩
  · intro history before call after outputs _ accounted _ taken
    obtain ⟨⟨items, contains, balance⟩, same, closed⟩ := accounted
    obtain ⟨next, shown, stepped, served⟩ := serves_step contains call
    rw [stepped] at taken
    cases taken
    obtain ⟨left, containsLeft, moved⟩ := served.contents
    refine ⟨⟨left, containsLeft, ?_⟩, served.capacity.trans same, ?_⟩
    · rw [accepted, returned, emitted_append, emitted_singleton, List.filterMap_append,
        List.filterMap_append, List.append_assoc, ← moved, ← List.append_assoc]
      exact congrArg (· ++ outputs.filterMap QueueOutput.accepted?) balance
    · rw [served.closed, closed, List.any_append]
      simp

/-- In every run what comes out, followed by what the queue contains, is what went in, over a well-linked
list; an item goes in only before the queue is closed and while it has room; and no call fails.
-/
theorem linear_fifo
    (run : Run step (fun _ _ _ => True) { queue := { capacity := capacity } } history last)
    : Throughout (fun history shared => returned history <+: accepted history
          ∧ WellLinked shared.queue
          ∧ ∃ items, shared.queue.Contains items ∧ returned history ++ items = accepted history)
        history last
      ∧ (∀ front stage back item, history = front ++ stage :: back
        → .accepted item ∈ stage.outputs
        → (∀ earlier ∈ front, earlier.event ≠ .close)
          ∧ ¬(capacity ≠ 0 ∧ stage.before.queue.size = capacity))
      ∧ ∀ call, ∃ after outputs, last.step call = .ok (after, outputs) := by
  refine ⟨run.throughout fun history shared run => ?_, ?_, fun call => ?_⟩
  · obtain ⟨⟨items, ⟨addresses, free, holds⟩, balance⟩, -, -⟩ := accounted_of_run run
    have linked : WellLinked shared.queue :=
      ⟨addresses, free, holds.chain, holds.recycled, holds.size, holds.tail, holds.disjoint⟩
    exact ⟨⟨items, balance.symm⟩, linked, items, ⟨addresses, free, holds⟩, balance.symm⟩
  · intro front stage back item split member
    obtain ⟨earlier, -, after, taken⟩ := run.at_stage split
    obtain ⟨⟨items, contains, -⟩, same, closed⟩ := accounted_of_run earlier
    obtain ⟨next, shown, stepped, served⟩ := serves_step contains stage.event
    rw [stepped] at taken
    obtain ⟨-, rfl⟩ := Prod.mk.inj (Except.ok.inj taken)
    obtain ⟨isOpen, room⟩ := served.room item member
    constructor
    · intro other memberFront closes
      rw [closed, List.any_eq_false] at isOpen
      exact isOpen other memberFront (by rw [closes]; rfl)
    · rintro ⟨bounded, full⟩
      have below := room
      rw [isFull, same, full] at below
      simp [Nat.pos_of_ne_zero bounded] at below
  · obtain ⟨⟨items, contains, -⟩, -, -⟩ := accounted_of_run run
    obtain ⟨after, outputs, stepped, -⟩ := serves_step contains call
    exact ⟨after, outputs, stepped⟩

/-- Two items through a queue for one: the second push waits for the first take. -/
def handOver : List (QueueSection Nat) := [.push 1, .push 2, .take, .resumePush 0, .take]

theorem linear_fifo_handOver
    : ∃ history last, accepted history = [1, 2]
      ∧ returned history <+: accepted history
      ∧ WellLinked (last : SharedQueue Nat).queue
      ∧ ∃ items, last.queue.Contains items ∧ returned history ++ items = accepted history := by
  have run := Run.extend .start
    (rfl : execute step { queue := { capacity := 1 } } handOver = _)
  exact ⟨_, _, rfl, (linear_fifo run).1.2⟩

end SharedQueue

end Creek.Tight
