import Creek.Tight.BufferPool

/-! The pool is an allocator where `operator new` is one: every block has one owner, a client, a free list
or a thread that is gone, and calls on different threads only move blocks between them.
-/

namespace Creek.Tight

open Library

namespace BufferPool

variable {pool : BufferPool} {client system : List Handover} {left list : List Nat}
  {thread p size bytes : Nat} {block region : Region}

-- The free lists together

/-- A new free list takes the place of the old one among all that is cached. -/
theorem flatten_set {lists : List (List Nat)} (found : lists[thread]? = some list)
    (new : List Nat)
    : (list ++ (lists.set thread new).flatten).Perm (new ++ lists.flatten) := by
  obtain ⟨bound, rfl⟩ := List.getElem?_eq_some_iff.mp found
  have whole : lists.flatten
      = (lists.take thread).flatten ++ (lists[thread] ++ (lists.drop (thread + 1)).flatten) := by
    conv_lhs => rw [← List.take_append_drop thread lists, List.drop_eq_getElem_cons bound]
    rw [List.flatten_append, List.flatten_cons]
  rw [List.set_eq_take_append_cons_drop, if_pos bound, whole, List.flatten_append,
    List.flatten_cons]
  refine List.perm_iff_count.mpr fun address => ?_
  simp only [List.count_append]
  omega

theorem flatten_pop {lists : List (List Nat)} (found : lists[thread]? = some list)
    (last : list.getLast? = some p)
    : lists.flatten.Perm (p :: (lists.set thread list.dropLast).flatten) := by
  have split := List.dropLast_append_getLast? p last
  have moved := flatten_set found list.dropLast
  nth_rewrite 1 [← split] at moved
  rw [List.append_assoc, List.perm_append_left_iff] at moved
  exact moved.symm

theorem flatten_push {lists : List (List Nat)} (found : lists[thread]? = some list) (p : Nat)
    : (lists.set thread (list ++ [p])).flatten.Perm (p :: lists.flatten) := by
  have moved := flatten_set found (list ++ [p])
  rwa [List.append_assoc, List.perm_append_left_iff] at moved

theorem flatten_clear {lists : List (List Nat)} (found : lists[thread]? = some list)
    : lists.flatten.Perm (list ++ (lists.set thread []).flatten) :=
  (flatten_set found []).symm

-- Who owns the blocks

/-- Every block of the heap is under one region that a client holds, on one free list, or left by a
thread.
-/
structure Accounts (client system : List Handover) (left : List Nat) (pool : BufferPool) : Prop where
  served : Allocations client
  supplied : Allocations system
  heap : inUse system = pool.heap
  blocks : (pool.heap.map Region.address).Perm
    ((inUse client).map Region.address ++ (pool.lists.flatten ++ left))
  nonempty : ∀ block ∈ pool.heap, 0 < block.size
  backed : ∀ region ∈ inUse client, ∃ block ∈ pool.heap, region.Fits block
    ∧ (region.size ≤ kPoolBlockSize → block.size = kPoolBlockSize)
  cached : ∀ p ∈ pool.lists.flatten, ⟨p, kPoolBlockSize⟩ ∈ pool.heap
  bounded : ∀ list ∈ pool.lists, list.length ≤ kPoolMaxFreePerThread

theorem accounts_empty : Accounts [] [] [] {} where
  served := .start
  supplied := .start
  heap := rfl
  blocks := .nil
  nonempty _ member := absurd member List.not_mem_nil
  backed _ member := absurd member List.not_mem_nil
  cached _ member := absurd member List.not_mem_nil
  bounded _ member := absurd member List.not_mem_nil

namespace Accounts

theorem nodup (accounts : pool.Accounts client system left)
    : ((inUse client).map Region.address ++ (pool.lists.flatten ++ left)).Nodup := by
  have apart := accounts.supplied.pairwise_apart
  rw [accounts.heap] at apart
  exact accounts.blocks.nodup_iff.mp (Region.nodup_address apart accounts.nonempty)

/-- Blocks of the heap are apart where their addresses differ. -/
theorem blocks_apart {other : Region} (accounts : pool.Accounts client system left)
    (member : block ∈ pool.heap) (otherMember : other ∈ pool.heap)
    (differ : block.address ≠ other.address)
    : block.Apart other := by
  rw [← accounts.heap] at member otherMember
  exact accounts.supplied.apart member otherMember differ

theorem address_ne_cached (accounts : pool.Accounts client system left)
    (member : region ∈ inUse client) (cached : p ∈ pool.lists.flatten)
    : region.address ≠ p :=
  (List.nodup_append.mp accounts.nodup).2.2 _ (List.mem_map_of_mem member) _
    (List.mem_append_left _ cached)

/-- A cached block shares no byte with what the client holds. -/
theorem cached_apart (accounts : pool.Accounts client system left)
    (member : region ∈ inUse client) (cached : p ∈ pool.lists.flatten)
    : Region.Apart ⟨p, kPoolBlockSize⟩ region := by
  obtain ⟨block, found, fits, -⟩ := accounts.backed region member
  have differ := accounts.address_ne_cached member cached
  rw [fits.address] at differ
  exact (accounts.blocks_apart (accounts.cached p cached) found differ.symm).of_fits
    ⟨rfl, Nat.le_refl _⟩ fits

theorem address_ne_erase {other : Region} (accounts : pool.Accounts client system left)
    (member : region ∈ inUse client) (otherMember : other ∈ (inUse client).erase region)
    : other.address ≠ region.address := by
  have once := (List.nodup_append.mp accounts.nodup).1
  have split := (List.perm_cons_erase member).map Region.address
  rw [split.nodup_iff, List.map_cons, List.nodup_cons] at once
  exact fun same => once.1 (same ▸ List.mem_map_of_mem otherMember)

-- The moves

theorem pop (accounts : pool.Accounts client system left) (found : pool.lists[thread]? = some list)
    (last : list.getLast? = some p) (small : bytes ≤ kPoolBlockSize)
    : (pool.setFreeList thread list.dropLast).Accounts (client ++ [.allocated ⟨p, bytes⟩]) system
      left := by
  have moved := flatten_pop found last
  have cached : p ∈ pool.lists.flatten := moved.mem_iff.mpr List.mem_cons_self
  have fits : Region.Fits ⟨p, bytes⟩ ⟨p, kPoolBlockSize⟩ := ⟨rfl, small⟩
  refine ⟨?_, accounts.supplied, accounts.heap, ?_, accounts.nonempty, ?_, ?_, ?_⟩
  · refine .allocate accounts.served fun other member => ?_
    exact (accounts.cached_apart member cached).of_fits fits ⟨rfl, Nat.le_refl _⟩
  · rw [inUse_allocated, List.map_cons, List.cons_append]
    refine accounts.blocks.trans (.trans (.append_left _ (moved.append_right left)) ?_)
    exact List.perm_middle
  · intro region member
    rw [inUse_allocated] at member
    rcases List.mem_cons.mp member with rfl | earlier
    · exact ⟨_, accounts.cached p cached, fits, fun _ => rfl⟩
    · exact accounts.backed region earlier
  · exact fun other member =>
      accounts.cached other (moved.mem_iff.mpr (List.mem_cons_of_mem _ member))
  · intro other member
    rcases List.mem_or_eq_of_mem_set member with earlier | rfl
    · exact accounts.bounded other earlier
    · have bound := accounts.bounded list (List.mem_of_getElem? found)
      rw [List.length_dropLast]
      omega

theorem new (accounts : pool.Accounts client system left)
    (fresh : ∀ block ∈ pool.heap, Region.Apart ⟨p, size⟩ block) (nonempty : 0 < size)
    (enough : bytes ≤ size) (small : bytes ≤ kPoolBlockSize → size = kPoolBlockSize)
    : ({ pool with heap := ⟨p, size⟩ :: pool.heap } : BufferPool).Accounts
      (client ++ [.allocated ⟨p, bytes⟩]) (system ++ [.allocated ⟨p, size⟩]) left := by
  have fits : Region.Fits ⟨p, bytes⟩ ⟨p, size⟩ := ⟨rfl, enough⟩
  refine ⟨?_, ?_, ?_, ?_, ?_, ?_, ?_, accounts.bounded⟩
  · refine .allocate accounts.served fun other member => ?_
    obtain ⟨block, found, otherFits, -⟩ := accounts.backed other member
    exact (fresh block found).of_fits fits otherFits
  · exact .allocate accounts.supplied (accounts.heap ▸ fresh)
  · rw [inUse_allocated, accounts.heap]
  · rw [inUse_allocated, List.map_cons, List.map_cons, List.cons_append]
    exact accounts.blocks.cons p
  · exact List.forall_mem_cons.mpr ⟨nonempty, accounts.nonempty⟩
  · intro region member
    rw [inUse_allocated] at member
    rcases List.mem_cons.mp member with rfl | earlier
    · exact ⟨_, List.mem_cons_self, fits, small⟩
    · obtain ⟨block, found, backs⟩ := accounts.backed region earlier
      exact ⟨block, List.mem_cons_of_mem _ found, backs⟩
  · exact fun other member => List.mem_cons_of_mem _ (accounts.cached other member)

theorem push (accounts : pool.Accounts client system left) (found : pool.lists[thread]? = some list)
    (room : list.length < kPoolMaxFreePerThread) (member : region ∈ inUse client)
    (small : region.size ≤ kPoolBlockSize)
    : (pool.setFreeList thread (list ++ [region.address])).Accounts (client ++ [.released region])
      system left := by
  have moved := flatten_push found region.address
  have split := (List.perm_cons_erase member).map Region.address
  refine ⟨.release accounts.served member, accounts.supplied, accounts.heap, ?_, accounts.nonempty,
    ?_, ?_, ?_⟩
  · rw [inUse_released]
    refine accounts.blocks.trans ((split.append_right _).trans ?_)
    refine List.Perm.trans ?_ (.append_left _ (moved.symm.append_right left))
    exact List.perm_middle.symm
  · intro other remains
    rw [inUse_released] at remains
    exact accounts.backed other (List.mem_of_mem_erase remains)
  · intro other cached
    rcases List.mem_cons.mp (moved.mem_iff.mp cached) with rfl | earlier
    · obtain ⟨block, found, fits, whole⟩ := accounts.backed region member
      have same : (⟨region.address, kPoolBlockSize⟩ : Region) = block :=
        Region.ext fits.address (whole small).symm
      exact same ▸ found
    · exact accounts.cached other earlier
  · intro other member
    rcases List.mem_or_eq_of_mem_set member with earlier | rfl
    · exact accounts.bounded other earlier
    · rw [List.length_append]
      exact room

theorem delete (accounts : pool.Accounts client system left) (member : region ∈ inUse client)
    (found : block ∈ pool.heap) (same : block.address = region.address)
    : ({ pool with heap := pool.heap.erase block } : BufferPool).Accounts
      (client ++ [.released region]) (system ++ [.released block]) left := by
  have split := (List.perm_cons_erase member).map Region.address
  have heapSplit := (List.perm_cons_erase found).map Region.address
  have supplied := accounts.heap ▸ found
  refine ⟨.release accounts.served member, .release accounts.supplied supplied, ?_, ?_, ?_, ?_, ?_,
    accounts.bounded⟩
  · rw [inUse_released, accounts.heap]
  · have blocks := heapSplit.symm.trans (accounts.blocks.trans (split.append_right _))
    rw [List.map_cons, List.map_cons, same, List.cons_append] at blocks
    rw [inUse_released]
    exact blocks.cons_inv
  · exact fun other remains => accounts.nonempty other (List.mem_of_mem_erase remains)
  · intro other remains
    rw [inUse_released] at remains
    have differ := accounts.address_ne_erase member remains
    obtain ⟨under, underFound, fits, whole⟩ := accounts.backed other (List.mem_of_mem_erase remains)
    refine ⟨under, ?_, fits, whole⟩
    refine (List.mem_erase_of_ne fun equal => differ ?_).mpr underFound
    rw [fits.address, equal, same]
  · intro other cached
    have differ := accounts.address_ne_cached member cached
    refine (List.mem_erase_of_ne fun equal => differ ?_).mpr (accounts.cached other cached)
    rw [← same, ← equal]

theorem exit (accounts : pool.Accounts client system left) (found : pool.lists[thread]? = some list)
    : (pool.setFreeList thread []).Accounts client system (left ++ list) := by
  have moved := flatten_clear found
  refine ⟨accounts.served, accounts.supplied, accounts.heap, ?_, accounts.nonempty, accounts.backed,
    ?_, ?_⟩
  · refine accounts.blocks.trans (.append_left _ ((moved.append_right left).trans ?_))
    refine List.perm_iff_count.mpr fun address => ?_
    simp only [setFreeList, List.count_append]
    omega
  · exact fun other member =>
      accounts.cached other (moved.mem_iff.mpr (List.mem_append_right _ member))
  · intro other member
    rcases List.mem_or_eq_of_mem_set member with earlier | rfl
    · exact accounts.bounded other earlier
    · exact Nat.zero_le _

theorem startThread (accounts : pool.Accounts client system left)
    : ({ pool with lists := pool.lists ++ [[]] } : BufferPool).Accounts client system left := by
  have same : (pool.lists ++ [[]]).flatten = pool.lists.flatten := by simp
  refine ⟨accounts.served, accounts.supplied, accounts.heap, ?_, accounts.nonempty, accounts.backed,
    ?_, ?_⟩
  · rw [same]
    exact accounts.blocks
  · rw [same]
    exact accounts.cached
  · intro other member
    rcases List.mem_append.mp member with earlier | new
    · exact accounts.bounded other earlier
    · rw [List.mem_singleton.mp new]
      exact Nat.zero_le _

end Accounts

-- The calls

/-- What a call passes between the pool and its client. -/
def clientOf (outputs : List PoolOutput) : List Handover :=
  outputs.filterMap fun output =>
    match output with
    | .client handover => some handover
    | .system _ => none

/-- What a call passes between `operator new` and the pool. -/
def systemOf (outputs : List PoolOutput) : List Handover :=
  outputs.filterMap fun output =>
    match output with
    | .client _ => none
    | .system handover => some handover

/-- The blocks on the list of a thread that exits. -/
def leftBy (pool : BufferPool) : PoolCall → List Nat
  | .exit thread => (pool.lists[thread]?).getD []
  | _ => []

/-- What the standard asks of an allocator's client, that it frees what it holds and asks for no more
than `max_size`, and of `operator new`, that a block of it is apart from those in use.
-/
def Contract (client : List Handover) (pool : BufferPool) : PoolCall → Prop
  | .start => True
  | .allocate thread width n raw =>
      thread < pool.lists.length ∧ 0 < width ∧ n * width < 2 ^ 64
      ∧ ∀ size ∈ pool.asks thread width n, ∀ address ∈ raw, ∀ block ∈ pool.heap,
        Region.Apart ⟨address, size⟩ block
  | .deallocate thread width n p =>
      thread < pool.lists.length ∧ 0 < width ∧ ⟨p, n * width⟩ ∈ inUse client
  | .exit thread => thread < pool.lists.length

instance {call : PoolCall} : Decidable (Contract client pool call) := by
  cases call <;> unfold Contract <;> infer_instance

/-- What a call that meets its contract does. -/
def Serves (client system : List Handover) (left : List Nat) (pool : BufferPool) (call : PoolCall)
    : Prop :=
  ∃ after outputs, pool.step call = .ok (after, outputs)
    ∧ after.Accounts (client ++ clientOf outputs) (system ++ systemOf outputs)
      (left ++ pool.leftBy call)

theorem freeList_eq (found : pool.lists[thread]? = some list)
    : pool.freeList thread = .ok list := by
  rw [freeList, found]

theorem le_div_iff {width n : Nat} (positive : 0 < width)
    : n ≤ kPoolBlockSize / width ↔ n * width ≤ kPoolBlockSize :=
  Nat.le_div_iff_mul_le positive

theorem Accounts.operatorNew (accounts : pool.Accounts client system left) (raw : Option Nat)
    (fresh : ∀ address ∈ raw, ∀ block ∈ pool.heap, Region.Apart ⟨address, size⟩ block)
    (nonempty : 0 < size) (enough : bytes ≤ size)
    (small : bytes ≤ kPoolBlockSize → size = kPoolBlockSize)
    : (pool.operatorNew size bytes raw).1.Accounts
      (client ++ clientOf (pool.operatorNew size bytes raw).2)
      (system ++ systemOf (pool.operatorNew size bytes raw).2) left := by
  cases raw with
  | none =>
      rw [BufferPool.operatorNew, clientOf, systemOf, List.filterMap_nil, List.append_nil]
      simpa using accounts
  | some address => exact accounts.new (fresh address rfl) nonempty enough small

theorem Accounts.allocate (accounts : pool.Accounts client system left) {width n : Nat}
    {raw : Option Nat} (contract : Contract client pool (.allocate thread width n raw))
    : Serves client system left pool (.allocate thread width n raw) := by
  obtain ⟨running, positive, bounded, fresh⟩ := contract
  have found := List.getElem?_eq_getElem running
  by_cases pooled : n ≤ kPoolBlockSize / width
  · have small := (le_div_iff positive).mp pooled
    rcases last : pool.lists[thread].getLast? with _ | p
    · have empty : pool.lists[thread] = [] := List.getLast?_eq_none_iff.mp last
      have asked : pool.asks thread width n = some kPoolBlockSize := by
        rw [asks, if_pos pooled, found, empty, if_pos rfl]
      have taken : pool.step (.allocate thread width n raw)
          = .ok (pool.operatorNew kPoolBlockSize (n * width) raw) := by
        rw [step, BufferPool.allocate, if_pos pooled, freeList_eq found]
        simp only [bind, Except.bind, last]
        rfl
      have next := accounts.operatorNew raw (fresh _ asked) (by decide) small fun _ => rfl
      rw [← List.append_nil left] at next
      exact ⟨_, _, taken, next⟩
    · have taken : pool.step (.allocate thread width n raw)
          = .ok (pool.setFreeList thread pool.lists[thread].dropLast,
            [.client (.allocated ⟨p, n * width⟩)]) := by
        rw [step, BufferPool.allocate, if_pos pooled, freeList_eq found]
        simp only [bind, Except.bind, last]
        rfl
      refine ⟨_, _, taken, ?_⟩
      have next := accounts.pop found last small
      rwa [← List.append_nil system, ← List.append_nil left] at next
  · have large : kPoolBlockSize < n * width := Nat.lt_of_not_le fun small =>
      pooled ((le_div_iff positive).mpr small)
    have asked : pool.asks thread width n = some (n * width) := by
      rw [asks, if_neg pooled, byteCount, Nat.mod_eq_of_lt bounded]
    have taken : pool.step (.allocate thread width n raw)
        = .ok (pool.operatorNew (n * width) (n * width) raw) := by
      rw [step, BufferPool.allocate, if_neg pooled, byteCount, Nat.mod_eq_of_lt bounded]
      rfl
    have next := accounts.operatorNew raw (fresh _ asked) (Nat.zero_lt_of_lt large) (Nat.le_refl _)
      fun small => absurd small (Nat.not_le_of_lt large)
    rw [← List.append_nil left] at next
    exact ⟨_, _, taken, next⟩

/-- What the client holds lies in a block that can be deleted. -/
theorem Accounts.operatorDelete (accounts : pool.Accounts client system left)
    (member : region ∈ inUse client)
    : ∃ block ∈ pool.heap, block.address = region.address
      ∧ pool.operatorDelete region.address
        = .ok ({ pool with heap := pool.heap.erase block }, [.system (.released block)]) := by
  obtain ⟨under, underFound, fits, -⟩ := accounts.backed region member
  rcases found : pool.heap.find? fun block => block.address = region.address with _ | block
  · have missing := List.find?_eq_none.mp found under underFound
    exact absurd (decide_eq_true fits.address.symm) missing
  · refine ⟨block, List.mem_of_find?_eq_some found, by simpa using List.find?_some found, ?_⟩
    rw [BufferPool.operatorDelete, found]

theorem Accounts.deallocate (accounts : pool.Accounts client system left) {width n p : Nat}
    (contract : Contract client pool (.deallocate thread width n p))
    : Serves client system left pool (.deallocate thread width n p) := by
  obtain ⟨running, positive, member⟩ := contract
  have found := List.getElem?_eq_getElem running
  obtain ⟨block, blockFound, same, deleted⟩ := accounts.operatorDelete member
  by_cases kept : n ≤ kPoolBlockSize / width ∧ pool.lists[thread].length < kPoolMaxFreePerThread
  · have taken : pool.step (.deallocate thread width n p)
        = .ok (pool.setFreeList thread (pool.lists[thread] ++ [p]),
          [.client (.released ⟨p, n * width⟩)]) := by
      simp only [step, BufferPool.deallocate, if_pos kept.1, freeList_eq found, bind, Except.bind,
        if_pos kept.2]
      rfl
    refine ⟨_, _, taken, ?_⟩
    have next := accounts.push found kept.2 member ((le_div_iff positive).mp kept.1)
    rwa [← List.append_nil system, ← List.append_nil left] at next
  · have taken : pool.step (.deallocate thread width n p)
        = .ok ({ pool with heap := pool.heap.erase block },
          [.client (.released ⟨p, n * width⟩), .system (.released block)]) := by
      by_cases small : n ≤ kPoolBlockSize / width
      · have full := fun room => kept ⟨small, room⟩
        simp only [step, BufferPool.deallocate, if_pos small, freeList_eq found, bind, Except.bind,
          if_neg full, deleted]
        rfl
      · simp only [step, BufferPool.deallocate, if_neg small, bind, Except.bind, deleted]
        rfl
    refine ⟨_, _, taken, ?_⟩
    have next := accounts.delete member blockFound same
    rwa [← List.append_nil left] at next

theorem Accounts.serves {call : PoolCall} (accounts : pool.Accounts client system left)
    (contract : Contract client pool call)
    : Serves client system left pool call := by
  cases call with
  | start =>
      refine ⟨_, _, rfl, ?_⟩
      have next := accounts.startThread
      rwa [← List.append_nil client, ← List.append_nil system, ← List.append_nil left] at next
  | allocate thread width n raw => exact accounts.allocate contract
  | deallocate thread width n p => exact accounts.deallocate contract
  | exit thread =>
      have running : thread < pool.lists.length := contract
      have found := List.getElem?_eq_getElem running
      have taken : pool.step (.exit thread) = .ok (pool.setFreeList thread [], []) := by
        rw [step, freeList_eq found]
        rfl
      refine ⟨_, _, taken, ?_⟩
      have next := accounts.exit found
      rw [leftBy, found]
      rwa [← List.append_nil client, ← List.append_nil system] at next

-- Runs

abbrev PoolStage := Stage BufferPool PoolCall PoolOutput

def clientLog (history : List PoolStage) : List Handover := clientOf (emitted history)

def systemLog (history : List PoolStage) : List Handover := systemOf (emitted history)

/-- The blocks that threads have left. -/
def leftIn (history : List PoolStage) : List Nat :=
  history.flatMap fun stage => stage.before.leftBy stage.event

/-- The runs in which every call meets its contract, on any threads in any order. -/
abbrev PoolRun : List PoolStage → BufferPool → Prop :=
  Run step (fun history pool call => Contract (clientLog history) pool call) {}

theorem accounts_of_run {history : List PoolStage} (run : PoolRun history pool)
    : pool.Accounts (clientLog history) (systemLog history) (leftIn history) := by
  refine run.invariant
    (fun history pool => pool.Accounts (clientLog history) (systemLog history) (leftIn history))
    accounts_empty ?_
  intro history pool call after outputs _ accounts contract taken
  obtain ⟨next, given, served, kept⟩ := accounts.serves contract
  obtain ⟨rfl, rfl⟩ := Prod.mk.inj (Except.ok.inj (taken.symm.trans served))
  simpa [clientLog, systemLog, leftIn, clientOf, systemOf] using kept

/-- In any order of calls on any threads the pool hands out, as `operator new` does, only what shares no
byte with a buffer in use; no call deletes what is not there, nothing that is cached is in use or cached
twice, no list grows beyond its bound, and each block is in use, cached or left by a thread that exited.
-/
theorem bufferPool_allocates {history : List PoolStage} (run : PoolRun history pool)
    : Allocations (clientLog history)
      ∧ (∀ p ∈ pool.lists.flatten, ∀ region ∈ inUse (clientLog history),
        Region.Apart ⟨p, kPoolBlockSize⟩ region)
      ∧ pool.lists.flatten.Nodup
      ∧ (∀ list ∈ pool.lists, list.length ≤ kPoolMaxFreePerThread)
      ∧ (pool.heap.map Region.address).Perm
        ((inUse (clientLog history)).map Region.address ++ (pool.lists.flatten ++ leftIn history))
      ∧ ∀ call, Contract (clientLog history) pool call → ∃ next, pool.step call = .ok next := by
  have accounts := accounts_of_run run
  refine ⟨accounts.served, fun p cached region member => accounts.cached_apart member cached, ?_,
    accounts.bounded, accounts.blocks, ?_⟩
  · exact (List.nodup_append.mp (List.nodup_append.mp accounts.nodup).2.1).1
  · intro call contract
    obtain ⟨after, outputs, taken, -⟩ := accounts.serves contract
    exact ⟨_, taken⟩

/-- A buffer that one thread has allocated and another one has freed is used again on the latter, and a
large one is deleted.
-/
def passedOn : List PoolCall := [
    .start, .start,
    .allocate 0 1 1200 (some 4096), .deallocate 1 1 1200 4096,
    .allocate 1 4 512 none, .allocate 0 1 64 (some 8192), .allocate 0 8 300 (some 16384),
    .deallocate 1 8 300 16384, .deallocate 0 1 64 8192, .exit 0
  ]

theorem bufferPool_allocates_passedOn
    : ∃ history pool, PoolRun history pool ∧ inUse (clientLog history) = [⟨4096, 2048⟩]
      ∧ leftIn history = [8192] ∧ Allocations (clientLog history)
      ∧ (pool.heap.map Region.address).Perm (4096 :: (pool.lists.flatten ++ [8192])) := by
  obtain ⟨history, pool, run, passes⟩ := @Run.of_shows _ _ _ _ step {} passedOn
    (fun history => audit (fun front pool call => decide (Contract (clientLog front) pool call)) []
        history
      && decide (inUse (clientLog history) = [⟨4096, 2048⟩] ∧ leftIn history = [8192]))
    (by decide +kernel)
  obtain ⟨lawful, shown⟩ := Bool.and_eq_true_iff.mp passes
  have run : PoolRun history pool := run.of_audit (fun _ _ _ => of_decide_eq_true) lawful
  obtain ⟨used, left⟩ := of_decide_eq_true shown
  obtain ⟨allocates, -, -, -, blocks, -⟩ := bufferPool_allocates run
  rw [used, left] at blocks
  exact ⟨history, pool, run, used, left, allocates, blocks⟩

end BufferPool

end Creek.Tight
