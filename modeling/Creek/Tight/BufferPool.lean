import Creek.Library.Regions
import Creek.Library.Runs

/-! The pool that datagram buffers come from: a free list for each thread, over `operator new` and
`operator delete`. A buffer may be freed on another thread than it was allocated on.
-/

namespace Creek.Tight

open Library

def kPoolBlockSize : Nat := 2048
def kPoolMaxFreePerThread : Nat := 16

/-- What would be undefined: a thread that does not run, an `operator delete` of what `operator new` has
not returned.
-/
inductive PoolFault where
  | noThread
  | badDelete
  deriving DecidableEq, Repr

/-- The free list of each thread, in the order in which the threads have started, and the blocks that
`operator new` has in use.
-/
structure BufferPool where
  lists : List (List Nat) := []
  heap : List Region := []
  deriving Repr

/-- What a call does: regions pass between the allocator and its client, and blocks between
`operator new` and the allocator.
-/
inductive PoolOutput where
  | client (handover : Handover)
  | system (handover : Handover)
  deriving DecidableEq, Repr

/-- The calls of any thread. `width` is `sizeof(T)`; `raw` is what `operator new` returns if it is called, and
none where it throws. A thread that exits destroys its list but not the blocks on it.
-/
inductive PoolCall where
  | start
  | allocate (thread width n : Nat) (raw : Option Nat)
  | deallocate (thread width n p : Nat)
  | exit (thread : Nat)
  deriving DecidableEq, Repr

namespace BufferPool

/-- `pool_free_list` of a thread. -/
def freeList (thread : Nat) (pool : BufferPool) : Except PoolFault (List Nat) :=
  match pool.lists[thread]? with
  | some list => .ok list
  | none => .error .noThread

def setFreeList (thread : Nat) (list : List Nat) (pool : BufferPool) : BufferPool :=
  { pool with lists := pool.lists.set thread list }

/-- The client gets the front of a new block. -/
def operatorNew (size bytes : Nat) (raw : Option Nat) (pool : BufferPool)
    : BufferPool × List PoolOutput :=
  match raw with
  | none => (pool, [])
  | some address =>
      ({ pool with heap := ⟨address, size⟩ :: pool.heap },
        [.system (.allocated ⟨address, size⟩), .client (.allocated ⟨address, bytes⟩)])

def operatorDelete (p : Nat) (pool : BufferPool)
    : Except PoolFault (BufferPool × List PoolOutput) :=
  match pool.heap.find? fun block => block.address = p with
  | some block => .ok ({ pool with heap := pool.heap.erase block }, [.system (.released block)])
  | none => .error .badDelete

/-- `n * sizeof(T)` in `std::size_t`. -/
def byteCount (width n : Nat) : Nat := n * width % 2 ^ 64

def allocate (thread width n : Nat) (raw : Option Nat) (pool : BufferPool)
    : Except PoolFault (BufferPool × List PoolOutput) := do
  if n ≤ kPoolBlockSize / width then
    let list ← pool.freeList thread
    match list.getLast? with
    | some p =>
        return (pool.setFreeList thread list.dropLast, [.client (.allocated ⟨p, n * width⟩)])
    | none => return pool.operatorNew kPoolBlockSize (n * width) raw
  else
    return pool.operatorNew (byteCount width n) (n * width) raw

/-- The buffer is no longer the client's before it is put on a list or deleted. -/
def deallocate (thread width n p : Nat) (pool : BufferPool)
    : Except PoolFault (BufferPool × List PoolOutput) := do
  let freed := PoolOutput.client (.released ⟨p, n * width⟩)
  if n ≤ kPoolBlockSize / width then
    let list ← pool.freeList thread
    if list.length < kPoolMaxFreePerThread then
      return (pool.setFreeList thread (list ++ [p]), [freed])
  let (pool, outputs) ← pool.operatorDelete p
  return (pool, freed :: outputs)

def step (pool : BufferPool) : PoolCall → Except PoolFault (BufferPool × List PoolOutput)
  | .start => .ok ({ pool with lists := pool.lists ++ [[]] }, [])
  | .allocate thread width n raw => pool.allocate thread width n raw
  | .deallocate thread width n p => pool.deallocate thread width n p
  | .exit thread => do
      let _ ← pool.freeList thread
      return (pool.setFreeList thread [], [])

/-- The bytes that `allocate` asks `operator new` for. -/
def asks (thread width n : Nat) (pool : BufferPool) : Option Nat :=
  if n ≤ kPoolBlockSize / width then
    if pool.lists[thread]? = some [] then some kPoolBlockSize else none
  else
    some (byteCount width n)

end BufferPool

end Creek.Tight
