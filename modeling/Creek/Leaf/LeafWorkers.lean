import Creek.Library.Runs

/-! The threads that run what `LeafRuntime` does not do on the receiver thread of the transport: the workers
of `m_request_queue` and the one of `m_stream_queue`. The two pools differ in their bounds only.
-/

namespace Creek.Leaf

open Library

/-- A `creek::BlockingQueue`. -/
structure TaskQueue (α : Type) where
  capacity : Nat := 4096
  items : List α := []
  closed : Bool := false
  deriving DecidableEq, Repr

namespace TaskQueue

variable {α : Type}

def tryPush (item : α) (queue : TaskQueue α) : TaskQueue α × Bool :=
  if queue.closed || decide (queue.capacity ≤ queue.items.length) then (queue, false)
  else ({ queue with items := queue.items ++ [item] }, true)

/-- The front item, if there is one. -/
def poll (queue : TaskQueue α) : TaskQueue α × Option α :=
  match queue.items with
  | [] => (queue, none)
  | item :: rest => ({ queue with items := rest }, some item)

/-- What `take_for` returns once it has news or its timeout has expired; before that it waits. -/
def takeFor (expired : Bool) (queue : TaskQueue α) : Option (TaskQueue α × Option α) :=
  if queue.items.isEmpty && !queue.closed then
    if expired then some (queue, none) else none
  else
    some queue.poll

def close (queue : TaskQueue α) : TaskQueue α := { queue with closed := true }

end TaskQueue

/-- Where in `worker_loop` a thread is: about to read `m_running`, in `take_for`, in a task; and behind
the loop in `poll`, in a task, and at the end.
-/
inductive WorkerPoint (α : Type) where
  | checking
  | taking
  | running (task : α)
  | polling
  | draining (task : α)
  | exited
  deriving DecidableEq, Repr

def WorkerPoint.isExited {α : Type} : WorkerPoint α → Bool
  | .exited => true
  | _ => false

/-- Where in `stop` a thread is, if one is in it. -/
inductive StopPoint where
  | outside
  | closing
  | joining
  deriving DecidableEq, Repr

structure LeafWorkers (α : Type) where
  queue : TaskQueue α
  count : Nat
  running : Bool := false
  stopping : StopPoint := .outside
  workers : List (WorkerPoint α) := []
  deriving Repr

/-- `stop` is three events: it lowers `m_running`, closes the queue, and returns from the joins. -/
inductive WorkerEvent (α : Type) where
  | start
  | tryPush (task : α)
  | advance (worker : Nat) (expired : Bool)
  | stop
  | close
  | join
  deriving DecidableEq, Repr

inductive WorkerOutput (α : Type) where
  | accepted (task : α)
  | refused (task : α)
  | started (task : α)
  | finished (task : α)
  deriving DecidableEq, Repr

/-- A thread that waits, or is not there, takes no step; a `start` during a `stop` would be a race. -/
inductive WorkerFault where
  | blocked
  | race
  deriving DecidableEq, Repr

namespace LeafWorkers

variable {α : Type}

/-- The workers of `m_request_queue`. -/
def requestWorkers (α : Type) : LeafWorkers α := { queue := { capacity := 256 }, count := 4 }

/-- The worker of `m_stream_queue`. -/
def streamWorkers (α : Type) : LeafWorkers α := { queue := { capacity := 1024 }, count := 1 }

def setWorker (worker : Nat) (point : WorkerPoint α) (pool : LeafWorkers α) : LeafWorkers α :=
  { pool with workers := pool.workers.set worker point }

/-- A task that has been taken is run; without one the thread goes on elsewhere. -/
def handOver (worker : Nat) (run : α → WorkerPoint α) (otherwise : WorkerPoint α)
    (taken : TaskQueue α × Option α) (pool : LeafWorkers α)
    : LeafWorkers α × List (WorkerOutput α) :=
  match taken with
  | (queue, some task) => ({ pool with queue := queue }.setWorker worker (run task), [.started task])
  | (queue, none) => ({ pool with queue := queue }.setWorker worker otherwise, [])

/-- One step of `worker_loop` or `stream_worker_loop`. What a task throws is caught. -/
def workerLoop (worker : Nat) (expired : Bool) (pool : LeafWorkers α)
    : Except WorkerFault (LeafWorkers α × List (WorkerOutput α)) :=
  match pool.workers[worker]? with
  | none | some .exited => .error .blocked
  | some .checking =>
      .ok (pool.setWorker worker (if pool.running then .taking else .polling), [])
  | some .taking =>
      match pool.queue.takeFor expired with
      | none => .error .blocked
      | some taken => .ok (pool.handOver worker .running .checking taken)
  | some (.running task) => .ok (pool.setWorker worker .checking, [.finished task])
  | some .polling => .ok (pool.handOver worker .draining .exited pool.queue.poll)
  | some (.draining task) => .ok (pool.setWorker worker .polling, [.finished task])

def push (task : α) (pool : LeafWorkers α) : LeafWorkers α × List (WorkerOutput α) :=
  match pool.queue.tryPush task with
  | (queue, true) => ({ pool with queue := queue }, [.accepted task])
  | (queue, false) => ({ pool with queue := queue }, [.refused task])

def step (pool : LeafWorkers α)
    : WorkerEvent α → Except WorkerFault (LeafWorkers α × List (WorkerOutput α))
  | .start =>
      if pool.running then .ok (pool, [])
      else if pool.stopping = .outside then
        .ok
          ({ pool with
              running := true
              workers := pool.workers ++ List.replicate pool.count .checking }, [])
      else .error .race
  | .tryPush task => .ok (pool.push task)
  | .advance worker expired => pool.workerLoop worker expired
  | .stop =>
      if !pool.running then .ok (pool, [])
      else .ok ({ pool with running := false, stopping := .closing }, [])
  | .close =>
      if pool.stopping = .closing then
        .ok ({ pool with queue := pool.queue.close, stopping := .joining }, [])
      else .error .blocked
  | .join =>
      if pool.stopping = .joining && pool.workers.all WorkerPoint.isExited then
        .ok ({ pool with workers := [], stopping := .outside }, [])
      else .error .blocked

end LeafWorkers

end Creek.Leaf
