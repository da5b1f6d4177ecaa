import Creek.Framework.LinkedChannel

/-! The linked channel hands its items out in order. Its list is a chain through all nodes that are not
deleted, which every critical section keeps, so the channel is the plain one, and what it hands out
is a prefix of what it has accepted.
-/

namespace Creek.Framework

open Library

namespace LinkedChannel

variable {α : Type} {channel after : LinkedChannel α} {addresses : List Nat} {items : List α}
  {item : α} {address : Nat} {pointer : Option Nat} {nodes : Heap (ChannelNode α)}

-- What a channel holds

/-- The item in a node. -/
def dataAt (nodes : Heap (ChannelNode α)) (address : Nat) : Option α :=
  (nodes address).map ChannelNode.data

/-- The channel holds items in the nodes at some addresses, and there are no others. -/
structure Holds (channel : LinkedChannel α) (addresses : List Nat) (items : List α) : Prop where
  chain : Chain ChannelNode.next channel.nodes channel.head addresses
  contents : addresses.map (dataAt channel.nodes) = items.map some
  tail : channel.tail = addresses.getLast?
  size : channel.size = addresses.length
  linked : ∀ address node, channel.nodes address = some node → address ∈ addresses
  known : ∀ address ∈ addresses, address < channel.allocations

/-- Neither the bound nor the state of being closed differs. -/
structure SameLimits (before after : LinkedChannel α) : Prop where
  maxNodes : after.maxNodes = before.maxNodes
  closed : after.closed = before.closed

theorem holds_empty (maxNodes : Nat)
    : Holds ({ maxNodes := maxNodes } : LinkedChannel α) [] [] :=
  ⟨rfl, rfl, rfl, rfl, fun _ _ found => (by cases found), fun _ member => (by cases member)⟩

theorem Holds.length (holds : channel.Holds addresses items) : items.length = channel.size := by
  have lengths := congrArg List.length holds.contents
  rw [List.length_map, List.length_map] at lengths
  rw [holds.size, lengths]

theorem Holds.head_eq_none (holds : channel.Holds addresses items)
    : channel.head = none ↔ items = [] := by
  have same : addresses.length = items.length := by rw [holds.length, holds.size]
  have chain := holds.chain
  rcases addresses with _ | ⟨first, rest⟩
  · exact iff_of_true chain (List.length_eq_zero_iff.mp same.symm)
  · refine iff_of_false (fun none_ => by cases none_.symm.trans chain.1) fun empty => ?_
    rw [empty] at same
    cases same

-- The list

theorem Holds.link (holds : channel.Holds addresses items) (item : α)
    : ∃ after addresses, channel.link item = .ok after
      ∧ after.Holds addresses (items ++ [item]) ∧ SameLimits channel after := by
  have fresh : channel.allocations ∉ addresses := fun member =>
    Nat.lt_irrefl _ (holds.known _ member)
  have chain := holds.chain.update fresh (some { data := item })
  have here : Function.update channel.nodes channel.allocations (some { data := item })
      channel.allocations = some { data := item } :=
    Function.update_self _ _ _
  have contents : (addresses ++ [channel.allocations]).map
        (dataAt (Function.update channel.nodes channel.allocations (some { data := item })))
      = (items ++ [item]).map some := by
    rw [List.map_append, List.map_append, ← holds.contents, List.map_singleton,
      List.map_singleton, dataAt, here]
    exact congrArg (· ++ [some item]) (map_read_update (Option.map ChannelNode.data) fresh _)
  have linked : ∀ other node,
      Function.update channel.nodes channel.allocations (some { data := item }) other = some node
      → other ∈ addresses ++ [channel.allocations] := by
    intro other node found
    by_cases same : other = channel.allocations
    · rw [same]
      exact List.mem_append_right _ (List.mem_singleton_self _)
    · rw [Function.update_of_ne same] at found
      exact List.mem_append_left _ (holds.linked other node found)
  have known : ∀ other ∈ addresses ++ [channel.allocations], other < channel.allocations + 1 := by
    intro other member
    rcases List.mem_append.mp member with earlier | last
    · exact Nat.lt_succ_of_lt (holds.known other earlier)
    · rw [List.mem_singleton.mp last]
      exact Nat.lt_succ_self _
  have tail := holds.tail
  rcases List.eq_nil_or_concat addresses with rfl | ⟨front, last, rfl⟩
  · refine ⟨{
        channel.setNode channel.allocations (some { data := item }) with
        head := some channel.allocations
        tail := some channel.allocations
        size := channel.size + 1
        allocations := channel.allocations + 1
      }, [channel.allocations], ?_, ?_, rfl, rfl⟩
    · simp only [LinkedChannel.link, setNode, tail]
      rfl
    · exact ⟨Chain.cons rfl here rfl, contents, rfl, congrArg Nat.succ holds.size, linked, known⟩
  · rw [List.concat_eq_append] at *
    rw [List.getLast?_concat] at tail
    have member : last ∈ front ++ [last] := List.mem_append_right _ (List.mem_singleton_self _)
    obtain ⟨node, found⟩ := chain.live member
    refine ⟨{
        channel.setNode channel.allocations (some { data := item }) with
        nodes := Function.update
          (Function.update channel.nodes channel.allocations (some { data := item })) last
          (some { node with next := some channel.allocations })
        tail := some channel.allocations
        size := channel.size + 1
        allocations := channel.allocations + 1
      }, front ++ [last] ++ [channel.allocations], ?_, ⟨chain.concat fresh here rfl rfl, ?_,
        List.getLast?_concat.symm, ?_, ?_, known⟩, rfl, rfl⟩
    · simp only [LinkedChannel.link, setNode, tail, found, deref, ok_bind, pure_eq_ok]
    · rw [← contents]
      exact congrArg (List.map · _) (@read_update _ _ _ _ _ (Option.map ChannelNode.data)
        { node with next := some channel.allocations } found rfl)
    · show channel.size + 1 = (front ++ [last] ++ [channel.allocations]).length
      rw [List.length_append, holds.size, List.length_singleton]
    · intro other stored present
      by_cases same : other = last
      · rw [same]
        exact List.mem_append_left _ member
      · exact linked other stored ((Function.update_of_ne same _ _).symm.trans present)

theorem Holds.unlink (holds : channel.Holds addresses (item :: items))
    : ∃ after addresses, channel.unlink = .ok (after, item) ∧ after.Holds addresses items
      ∧ SameLimits channel after := by
  have contents := holds.contents
  have chain := holds.chain
  have fresh := chain.nodup
  rcases split : addresses with _ | ⟨address, rest⟩
  · rw [split] at contents
    cases contents
  · rw [split] at chain contents fresh
    obtain ⟨head, node, found, chain⟩ := chain
    obtain ⟨unused, -⟩ := List.nodup_cons.mp fresh
    obtain ⟨first, contents⟩ := List.cons.inj contents
    have stored : node.data = item := by
      rw [dataAt, found] at first
      exact Option.some.inj first
    have size : channel.size = rest.length + 1 := by
      rw [holds.size, split, List.length_cons]
    have some_ : 1 ≤ channel.size := by
      rw [size]
      exact Nat.le_add_left 1 _
    have tail : (if node.next.isNone then none else channel.tail) = rest.getLast? := by
      rw [holds.tail, split]
      rcases rest with _ | ⟨second, others⟩
      · rw [show node.next = none from chain]
        rfl
      · rw [chain.1]
        rfl
    refine ⟨{
        channel with
        nodes := Function.update channel.nodes address none
        head := node.next
        tail := if node.next.isNone then none else channel.tail
        size := channel.size - 1
      }, rest, ?_, ⟨chain.update unused none, ?_, tail, ?_, ?_, ?_⟩, rfl, rfl⟩
    · simp only [LinkedChannel.unlink, head, deref, ok_bind, found, difference_of_le some_, stored,
        pure_eq_ok, setNode]
    · exact (map_read_update (Option.map ChannelNode.data) unused none).trans contents
    · show channel.size - 1 = rest.length
      rw [size, Nat.add_sub_cancel]
    · intro other here present
      have apart : other ≠ address := by
        rintro rfl
        cases (Function.update_self other none channel.nodes).symm.trans present
      have among := holds.linked other here ((Function.update_of_ne apart _ _).symm.trans present)
      exact (List.mem_cons.mp (split ▸ among)).resolve_left apart
    · exact fun other member => holds.known other (split ▸ List.mem_cons_of_mem _ member)

/-- The loop deletes the nodes of a chain and no others, given a turn for each. -/
theorem deleteFrom_eq {turns : Nat} (chain : Chain ChannelNode.next nodes pointer addresses)
    (contents : addresses.map (dataAt nodes) = items.map some) (enough : addresses.length ≤ turns)
    : ∃ cleared, deleteFrom turns pointer nodes = .ok (cleared, items)
      ∧ ∀ address, cleared address = if address ∈ addresses then none else nodes address := by
  induction addresses generalizing pointer nodes items turns with
  | nil =>
      obtain rfl : pointer = none := chain
      obtain rfl := List.map_eq_nil_iff.mp contents.symm
      refine ⟨nodes, ?_, fun address => (if_neg List.not_mem_nil).symm⟩
      cases turns <;> rfl
  | cons first rest ih =>
      obtain ⟨unused, -⟩ := List.nodup_cons.mp chain.nodup
      obtain ⟨rfl, node, found, chain⟩ := chain
      rcases items with _ | ⟨item, items⟩
      · cases contents
      obtain ⟨here, contents⟩ := List.cons.inj contents
      have stored : node.data = item := by
        rw [dataAt, found] at here
        exact Option.some.inj here
      obtain ⟨turns, rfl⟩ : ∃ left, turns = left + 1 :=
        Nat.exists_eq_succ_of_ne_zero (Nat.ne_of_gt (Nat.lt_of_lt_of_le (Nat.succ_pos _) enough))
      obtain ⟨cleared, deleted, shown⟩ := @ih items node.next (Function.update nodes first none) turns
        (chain.update unused none)
        ((map_read_update (Option.map ChannelNode.data) unused none).trans contents)
        (Nat.le_of_succ_le_succ enough)
      refine ⟨cleared, ?_, fun address => ?_⟩
      · simp only [deleteFrom, found, deref, ok_bind, deleted, pure_eq_ok, stored]
      · rw [shown]
        by_cases same : address = first
        · rw [same, Function.update_self, if_pos List.mem_cons_self, ite_self]
        · simp only [List.mem_cons, same, false_or, Function.update_of_ne same]

theorem Holds.clear (holds : channel.Holds addresses items)
    : ∃ after, channel.clear = .ok (after, items) ∧ after.Holds [] []
      ∧ SameLimits channel after := by
  have enough : addresses.length ≤ channel.allocations := by
    have below : addresses ⊆ List.range channel.allocations := fun address member =>
      List.mem_range.mpr (holds.known address member)
    have lengths := (List.subperm_of_subset holds.chain.nodup below).length_le
    rwa [List.length_range] at lengths
  obtain ⟨cleared, deleted, shown⟩ := deleteFrom_eq holds.chain holds.contents enough
  refine ⟨{ channel with nodes := cleared, head := none, tail := none, size := 0 }, ?_,
    ⟨rfl, rfl, rfl, rfl, ?_, fun _ member => absurd member List.not_mem_nil⟩, rfl, rfl⟩
  · simp only [LinkedChannel.clear, deleted, ok_bind, pure_eq_ok]
  · intro address node present
    have gone := (shown address).symm.trans present
    split at gone
    · cases gone
    · rename_i outside
      exact absurd (holds.linked address node gone) outside

-- Critical sections

/-- The channel holds these items, in some nodes; a closed one holds none. -/
structure Contains (channel : LinkedChannel α) (items : List α) : Prop where
  held : ∃ addresses, channel.Holds addresses items
  closed : channel.closed = true → items = []

/-- What a critical section does: the items that are handed out and those that stay are those that were
there and those that come in, unless it closes the channel and so loses them.
-/
structure Served (before : LinkedChannel α) (items : List α) (call : ChannelSection α)
    (after : LinkedChannel α) (outputs : List (ChannelOutput α))
    : Prop where
  contents : ∃ left lost, after.Contains left
    ∧ items ++ outputs.filterMap ChannelOutput.accepted?
      = outputs.filterMap ChannelOutput.returned? ++ left ++ lost
    ∧ (call.closes = false → lost = [])
  maxNodes : after.maxNodes = before.maxNodes
  closed : after.closed = (before.closed || call.closes)
  isOpen : ∀ item, .accepted item ∈ outputs → before.closed = false
  room : ∀ sent item, call = .trySend sent → .accepted item ∈ outputs → before.isFull = false
  counted : ∀ count, .drained count ∈ outputs
    → count = (outputs.filterMap ChannelOutput.returned?).length

variable {call : ChannelSection α}

/-- A closed channel takes nothing in, so it has nothing to hand out. -/
theorem Served.closed_idle {outputs : List (ChannelOutput α)}
    (served : channel.Served items call after outputs) (contains : channel.Contains items)
    (closed : channel.closed = true)
    : outputs.filterMap ChannelOutput.accepted? = []
      ∧ outputs.filterMap ChannelOutput.returned? = [] := by
  have noneIn : outputs.filterMap ChannelOutput.accepted? = [] := by
    refine List.filterMap_eq_nil_iff.mpr fun output member => ?_
    rcases output with item | item | item | _ | count
    · cases closed.symm.trans (served.isOpen item member)
    all_goals rfl
  obtain ⟨left, lost, -, moved, -⟩ := served.contents
  rw [contains.closed closed, noneIn] at moved
  obtain ⟨both, -⟩ := List.append_eq_nil_iff.mp moved.symm
  exact ⟨noneIn, (List.append_eq_nil_iff.mp both).1⟩

theorem Contains.idle {outputs : List (ChannelOutput α)} (contains : channel.Contains items)
    (opens : call.closes = false)
    (noItem : ∀ output ∈ outputs, output = .nothing ∨ ∃ item, output = .refused item)
    : channel.Served items call channel outputs := by
  have noneIn : ∀ output ∈ outputs, output.accepted? = none := by
    intro output member
    rcases noItem output member with rfl | ⟨item, rfl⟩ <;> rfl
  have noneOut : ∀ output ∈ outputs, output.returned? = none := by
    intro output member
    rcases noItem output member with rfl | ⟨item, rfl⟩ <;> rfl
  refine ⟨⟨items, [], contains, ?_, fun _ => rfl⟩, rfl, ?_, ?_, ?_, ?_⟩
  · rw [List.filterMap_eq_nil_iff.mpr noneIn, List.filterMap_eq_nil_iff.mpr noneOut,
      List.append_nil, List.nil_append, List.append_nil]
  · rw [opens, Bool.or_false]
  · intro item member
    cases noneIn _ member
  · intro sent item _ member
    cases noneIn _ member
  · intro count member
    rcases noItem _ member with same | ⟨item, same⟩ <;> cases same

theorem Contains.silent (contains : channel.Contains items) (opens : call.closes = false)
    : channel.Served items call channel [] :=
  contains.idle opens fun _ member => absurd member List.not_mem_nil

theorem Contains.refuse (contains : channel.Contains items) (opens : call.closes = false)
    (item : α)
    : channel.Served items call channel [.refused item] :=
  contains.idle opens fun _ member => .inr ⟨item, List.mem_singleton.mp member⟩

theorem Contains.miss (contains : channel.Contains items) (opens : call.closes = false)
    : channel.Served items call channel [.nothing] :=
  contains.idle opens fun _ member => .inl (List.mem_singleton.mp member)

theorem Contains.accept (contains : channel.Contains items) (opens : call.closes = false)
    (item : α) (isOpen : channel.closed = false)
    (room : ∀ sent, call = .trySend sent → channel.isFull = false)
    : ∃ after, channel.link item = .ok after
      ∧ channel.Served items call after [.accepted item] := by
  obtain ⟨⟨addresses, holds⟩, -⟩ := contains
  obtain ⟨after, addresses, linked, holds, limits⟩ := holds.link item
  have contains : after.Contains (items ++ [item]) := by
    refine ⟨⟨addresses, holds⟩, fun closed => ?_⟩
    rw [limits.closed, isOpen] at closed
    cases closed
  refine ⟨after, linked, ⟨_, [], contains, (List.append_nil _).symm, fun _ => rfl⟩,
    limits.maxNodes, ?_, fun _ _ => isOpen, fun sent _ same _ => room sent same, ?_⟩
  · rw [limits.closed, opens, Bool.or_false]
  · intro count member
    cases List.mem_singleton.mp member

theorem Contains.give (contains : channel.Contains items) (opens : call.closes = false)
    (some_ : channel.head.isNone = false)
    : ∃ after item, channel.unlink = .ok (after, item)
      ∧ channel.Served items call after [.returned item] := by
  obtain ⟨⟨addresses, holds⟩, none_⟩ := contains
  rcases items with _ | ⟨item, items⟩
  · rw [holds.head_eq_none.mpr rfl] at some_
    cases some_
  · obtain ⟨after, addresses, unlinked, holds, limits⟩ := holds.unlink
    have contains : after.Contains items := by
      refine ⟨⟨addresses, holds⟩, fun closed => ?_⟩
      cases none_ (limits.closed.symm.trans closed)
    refine ⟨after, item, unlinked, ⟨items, [], contains, ?_, fun _ => rfl⟩, limits.maxNodes, ?_,
      ?_, ?_, ?_⟩
    · rw [List.filterMap_cons_none rfl, List.filterMap_nil, List.append_nil, List.append_nil]
      rfl
    · rw [limits.closed, opens, Bool.or_false]
    · intro other member
      cases List.mem_singleton.mp member
    · intro sent other _ member
      cases List.mem_singleton.mp member
    · intro count member
      cases List.mem_singleton.mp member

/-- What `drain_all` tells: every item, and how many they are. -/
theorem filterMap_drained (items : List α) (count : Nat)
    : (items.map ChannelOutput.returned ++ [ChannelOutput.drained count]).filterMap
          ChannelOutput.returned?
        = items
      ∧ (items.map ChannelOutput.returned ++ [ChannelOutput.drained count]).filterMap
          ChannelOutput.accepted?
        = [] := by
  constructor
  · rw [List.filterMap_append, List.filterMap_map]
    exact (List.append_nil _).trans List.filterMap_some
  · rw [List.filterMap_append, List.filterMap_map]
    exact (List.append_nil _).trans (List.filterMap_eq_nil_iff.mpr fun _ _ => rfl)

theorem Contains.drain (contains : channel.Contains items)
    : ∃ after, channel.clear = .ok (after, items)
      ∧ channel.Served items .drainAll after
        (items.map .returned ++ [.drained channel.size]) := by
  obtain ⟨⟨addresses, holds⟩, -⟩ := contains
  obtain ⟨after, cleared, empty, limits⟩ := holds.clear
  obtain ⟨out, none_⟩ := filterMap_drained items channel.size
  have noneIn : ∀ item, .accepted item
      ∉ items.map ChannelOutput.returned ++ [.drained channel.size] :=
    fun item member => by cases List.filterMap_eq_nil_iff.mp none_ _ member
  refine ⟨after, cleared, ⟨[], [], ⟨⟨[], empty⟩, fun _ => rfl⟩, ?_, fun _ => rfl⟩, limits.maxNodes,
    limits.closed.trans (Bool.or_false _).symm, ?_, ?_, ?_⟩
  · rw [out, none_, List.append_nil, List.append_nil]
  · exact fun item member => absurd member (noneIn item)
  · exact fun sent item _ member => absurd member (noneIn item)
  · intro count member
    rw [out, holds.length]
    rcases List.mem_append.mp member with handed | counted
    · obtain ⟨item, -, same⟩ := List.mem_map.mp handed
      cases same
    · exact ChannelOutput.drained.inj (List.mem_singleton.mp counted)

theorem Contains.close (contains : channel.Contains items)
    : ∃ after, { channel with closed := true }.clear = .ok (after, items)
      ∧ channel.Served items .close after [] := by
  obtain ⟨⟨addresses, holds⟩, -⟩ := contains
  have closed : Holds { channel with closed := true } addresses items :=
    ⟨holds.chain, holds.contents, holds.tail, holds.size, holds.linked, holds.known⟩
  obtain ⟨after, cleared, empty, limits⟩ := closed.clear
  refine ⟨after, cleared, ⟨[], items, ⟨⟨[], empty⟩, fun _ => rfl⟩, ?_, fun opens => ?_⟩,
    limits.maxNodes, limits.closed.trans (Bool.or_true _).symm, ?_, ?_, ?_⟩
  · exact List.append_nil items
  · cases opens
  · exact fun item member => absurd member List.not_mem_nil
  · exact fun sent item _ member => absurd member List.not_mem_nil
  · exact fun count member => absurd member List.not_mem_nil

end LinkedChannel

namespace SharedChannel

open LinkedChannel

variable {α : Type} {shared last : SharedChannel α} {items : List α} {item : α}
  {history : List (ChannelStage α)} {call : ChannelSection α} {maxBuffer : Nat}

/-- A call that ends without a fault, and has done what a critical section does. -/
def Serves (shared : SharedChannel α) (items : List α) (call : ChannelSection α)
    (result : Except Fault (SharedChannel α × List (ChannelOutput α)))
    : Prop :=
  ∃ after outputs, result = .ok (after, outputs)
    ∧ shared.channel.Served items call after.channel outputs

theorem serves_accept (contains : shared.channel.Contains items) (opens : call.closes = false)
    (isOpen : shared.channel.closed = false)
    (room : ∀ sent, call = .trySend sent → shared.channel.isFull = false)
    : shared.Serves items call (shared.accept item) := by
  obtain ⟨after, linked, served⟩ := contains.accept opens item isOpen room
  refine ⟨{ shared with channel := after }, [.accepted item], ?_, served⟩
  simp only [accept, linked, ok_bind, pure_eq_ok]

theorem serves_handOut (contains : shared.channel.Contains items) (opens : call.closes = false)
    : shared.Serves items call shared.handOut := by
  rw [handOut]
  split
  · exact ⟨shared, [.nothing], rfl, contains.miss opens⟩
  · rename_i some_
    obtain ⟨after, item, unlinked, served⟩ := contains.give opens (Bool.eq_false_iff.mpr some_)
    refine ⟨{ shared with channel := after }, [.returned item], ?_, served⟩
    simp only [unlinked, ok_bind, pure_eq_ok]

/-- Every critical section ends without a fault, and does what it says. -/
theorem serves_step (contains : shared.channel.Contains items) (call : ChannelSection α)
    : shared.Serves items call (shared.step call) := by
  cases call with
  | send item =>
      simp only [step]
      split
      · exact ⟨shared, [.refused item], rfl, contains.refuse rfl item⟩
      · rename_i isOpen
        exact serves_accept contains rfl (Bool.eq_false_iff.mpr isOpen) fun _ same => nomatch same
  | trySend item =>
      simp only [step]
      split
      · exact ⟨shared, [.refused item], rfl, contains.refuse rfl item⟩
      · rename_i takes
        obtain ⟨isOpen, room⟩ := Bool.or_eq_false_iff.mp (Bool.eq_false_iff.mpr takes)
        exact serves_accept contains rfl isOpen fun _ _ => room
  | recvFor =>
      simp only [step]
      split
      · exact serves_handOut contains rfl
      · exact ⟨_, [], rfl, contains.silent rfl⟩
  | resumeRecvFor expired =>
      simp only [step]
      split
      · exact ⟨shared, [], rfl, contains.silent rfl⟩
      · split
        · exact @serves_handOut _ { shared with waiting := shared.waiting - 1 } _ _ contains rfl
        · split
          · exact ⟨_, [.nothing], rfl, contains.miss rfl⟩
          · exact ⟨shared, [], rfl, contains.silent rfl⟩
  | poll => exact serves_handOut contains rfl
  | drainAll =>
      obtain ⟨after, cleared, served⟩ := contains.drain
      refine ⟨{ shared with channel := after }, _, ?_, served⟩
      simp only [step, cleared, ok_bind, pure_eq_ok]
  | close =>
      obtain ⟨after, cleared, served⟩ := contains.close
      refine ⟨{ shared with channel := after }, [], ?_, served⟩
      simp only [step, cleared, ok_bind, pure_eq_ok]

-- The plain channel

/-- The channel without its nodes. -/
def plain (channel : LinkedChannel α) (items : List α) : CopyChannel α where
  items := items
  closed := channel.closed

-- Runs

/-- The items that went in, in order. -/
def accepted (history : List (ChannelStage α)) : List α :=
  (emitted history).filterMap ChannelOutput.accepted?

/-- The items that were handed out, in order. -/
def returned (history : List (ChannelStage α)) : List α :=
  (emitted history).filterMap ChannelOutput.returned?

def hasClosed (history : List (ChannelStage α)) : Bool :=
  history.any fun stage => stage.event.closes

/-- The nodes that there are make up a chain from the head, with these items in them; the size is their
number, and the tail is the last of them.
-/
def WellLinked (channel : LinkedChannel α) (items : List α) : Prop :=
  ∃ addresses, Chain ChannelNode.next channel.nodes channel.head addresses
    ∧ addresses.map (dataAt channel.nodes) = items.map some
    ∧ (∀ address, (∃ node, channel.nodes address = some node) ↔ address ∈ addresses)
    ∧ channel.size = addresses.length
    ∧ channel.tail = addresses.getLast?
    ∧ (channel.tail = none ↔ channel.head = none)

theorem wellLinked_of_holds {channel : LinkedChannel α} {addresses : List Nat}
    (holds : channel.Holds addresses items)
    : WellLinked channel items := by
  refine ⟨addresses, holds.chain, holds.contents, fun address => ⟨?_, holds.chain.live⟩, holds.size,
    holds.tail, ?_⟩
  · rintro ⟨node, found⟩
    exact holds.linked address node found
  · rw [holds.tail, List.getLast?_eq_none_iff]
    have chain := holds.chain
    rcases addresses with _ | ⟨first, rest⟩
    · exact iff_of_true rfl chain
    · exact iff_of_false (List.cons_ne_nil first rest) fun none_ => by cases none_.symm.trans chain.1

/-- What went in has been handed out, is still there, or was lost when the channel was closed. -/
structure Accounted (maxBuffer : Nat) (history : List (ChannelStage α)) (shared : SharedChannel α)
    : Prop where
  contents : ∃ items lost, shared.channel.Contains items
    ∧ accepted history = returned history ++ items ++ lost
    ∧ (hasClosed history = false → lost = [])
  maxNodes : shared.channel.maxNodes = maxBuffer
  closed : shared.channel.closed = hasClosed history

theorem Accounted.step {outputs : List (ChannelOutput α)} {after : SharedChannel α}
    (accounted : Accounted maxBuffer history shared)
    (taken : shared.step call = .ok (after, outputs))
    : Accounted maxBuffer
        (history ++ [{ before := shared, event := call, outputs := outputs }]) after := by
  obtain ⟨⟨items, lost, contains, balance, none_⟩, same, closed⟩ := accounted
  obtain ⟨next, shown, stepped, served⟩ := serves_step contains call
  rw [stepped] at taken
  cases taken
  obtain ⟨left, more, containsLeft, moved, noMore⟩ := served.contents
  have closes : hasClosed (history ++ [{ before := shared, event := call, outputs := outputs }])
      = (hasClosed history || call.closes) := by
    rw [hasClosed, List.any_append]
    simp [hasClosed]
  have grown : accepted (history ++ [{ before := shared, event := call, outputs := outputs }])
      = accepted history ++ outputs.filterMap ChannelOutput.accepted? := by
    rw [accepted, emitted_append, emitted_singleton, List.filterMap_append, accepted]
  have handed : returned (history ++ [{ before := shared, event := call, outputs := outputs }])
      = returned history ++ outputs.filterMap ChannelOutput.returned? := by
    rw [returned, emitted_append, emitted_singleton, List.filterMap_append, returned]
  refine ⟨⟨left, more ++ lost, containsLeft, ?_, fun opens => ?_⟩, served.maxNodes.trans same, ?_⟩
  · rw [grown, handed, balance]
    rcases isClosed : shared.channel.closed with _ | _
    · obtain rfl := none_ (closed.symm.trans isClosed)
      simpa [List.append_assoc] using moved
    · obtain rfl := contains.closed isClosed
      obtain ⟨noneIn, noneOut⟩ := served.closed_idle contains isClosed
      rw [noneIn, noneOut] at moved
      obtain ⟨nothing, rfl⟩ := List.append_eq_nil_iff.mp moved.symm
      obtain rfl : left = [] := nothing
      rw [noneIn, noneOut]
      simp
  · obtain ⟨opened, still⟩ := Bool.or_eq_false_iff.mp (closes.symm.trans opens)
    rw [none_ opened, noMore still]
    rfl
  · rw [served.closed, closed, closes]

theorem accounted_of_run
    (run : Run step (fun _ _ _ => True) { channel := { maxNodes := maxBuffer } } history shared)
    : Accounted maxBuffer history shared := by
  refine run.invariant (Accounted maxBuffer) ?_ fun _ _ _ _ _ _ accounted _ taken =>
    accounted.step taken
  exact ⟨⟨[], [], ⟨⟨[], holds_empty maxBuffer⟩, fun _ => rfl⟩, rfl, fun _ => rfl⟩, rfl, rfl⟩

/-- In every run what is handed out and then what is linked is a prefix of what went in, and all of it
until the channel is closed; `try_send` takes nothing in at the bound; nothing goes in or out after a
`close`; and no call fails.
-/
theorem conserves_items
    (run : Run step (fun _ _ _ => True) { channel := { maxNodes := maxBuffer } } history last)
    : Throughout (fun history shared => ∃ items, WellLinked shared.channel items
          ∧ returned history ++ items <+: accepted history
          ∧ (hasClosed history = false → returned history ++ items = accepted history))
        history last
      ∧ (∀ front stage back, history = front ++ stage :: back
        → ((∃ sent, stage.event = .trySend sent) → maxBuffer ≤ stage.before.channel.size
            → ∀ item, .accepted item ∉ stage.outputs)
          ∧ (hasClosed front = true
            → ∀ item, .accepted item ∉ stage.outputs ∧ .returned item ∉ stage.outputs))
      ∧ ∀ call, ∃ after outputs, last.step call = .ok (after, outputs) := by
  refine ⟨run.throughout fun history shared run => ?_, ?_, fun call => ?_⟩
  · obtain ⟨⟨items, lost, ⟨⟨addresses, holds⟩, -⟩, balance, none_⟩, -, -⟩ := accounted_of_run run
    refine ⟨items, wellLinked_of_holds holds, ⟨lost, balance.symm⟩, fun opens => ?_⟩
    rw [balance, none_ opens, List.append_nil]
  · intro front stage back split
    obtain ⟨earlier, -, after, taken⟩ := run.at_stage split
    obtain ⟨⟨items, lost, contains, -⟩, same, closed⟩ := accounted_of_run earlier
    obtain ⟨next, shown, stepped, served⟩ := serves_step contains stage.event
    rw [stepped] at taken
    obtain ⟨-, rfl⟩ := Prod.mk.inj (Except.ok.inj taken)
    refine ⟨?_, fun isClosed => ?_⟩
    · rintro ⟨sent, called⟩ full item member
      have room := served.room sent item called member
      rw [isFull, same, decide_eq_false_iff_not] at room
      exact room full
    · obtain ⟨noneIn, noneOut⟩ := served.closed_idle contains (closed.trans isClosed)
      refine fun item => ⟨fun member => ?_, fun member => ?_⟩
      · cases List.filterMap_eq_nil_iff.mp noneIn _ member
      · cases List.filterMap_eq_nil_iff.mp noneOut _ member
  · obtain ⟨⟨items, lost, contains, -⟩, -, -⟩ := accounted_of_run run
    obtain ⟨after, outputs, stepped, -⟩ := serves_step contains call
    exact ⟨after, outputs, stepped⟩

/-- Two items through a channel for one: the second is refused, and a third lost in a `close`. -/
def closedEarly : List (ChannelSection Nat) :=
  [.trySend 1, .trySend 2, .recvFor, .send 3, .close, .send 4, .poll]

theorem conserves_closedEarly
    : ∃ history last, accepted history = [1, 3] ∧ returned history = [1]
      ∧ ∃ items, WellLinked (last : SharedChannel Nat).channel items
        ∧ returned history ++ items <+: accepted history := by
  have run := Run.extend .start
    (rfl : execute step { channel := { maxNodes := 1 } } closedEarly = _)
  obtain ⟨items, linked, handed, -⟩ := (conserves_items run).1.2
  exact ⟨_, _, rfl, rfl, items, linked, handed⟩

end SharedChannel

end Creek.Framework
