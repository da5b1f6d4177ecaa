import Creek.Framework.Timer

/-! The threads of the `Reactor`: the timer thread, which polls and submits, the workers of the two pools,
and whoever calls it. Between two steps of one thread the others may do anything.
-/

namespace Creek.Framework

open Tight (Bytes)

structure ReactorConfig where
  ioThreads : Nat := 4
  cpuThreads : Nat := 2
  deriving DecidableEq, Repr

/-- Where in its loop a worker is: it waits for a task, has taken one, runs it, or has left the loop. -/
inductive Worker (Func : Type) where
  | waiting
  | holding (task : Task Func)
  | executing (task : Task Func)
  | left
  deriving DecidableEq

structure WorkerPool (Func : Type) where
  queue : List (Task Func) := []
  workers : List (Worker Func) := []
  running : Bool := false

/-- Where in its loop the timer thread is: about to poll, or with tasks that it has still to submit. -/
inductive TimerThread (Func : Type) where
  | absent
  | polling
  | submitting (tasks : List (Task Func))
  | left
  deriving DecidableEq

inductive Pool where
  | io
  | cpu
  deriving DecidableEq, Repr

structure Reactor {Func : Type} (queue : TimerQueue Func) where
  config : ReactorConfig := {}
  timer : PriorityTimer queue := {}
  io : WorkerPool Func := {}
  cpu : WorkerPool Func := {}
  running : Bool := false
  timerThread : TimerThread Func := .absent

/-- Calls of the reactor, with `stop` in its two parts, and the steps of its threads. -/
inductive ReactorEvent (Func : Type) where
  | advance (elapsed : Nat)
  | drawId
  | submitIo (task : Task Func)
  | submitCpu (task : Task Func)
  | scheduleTimerAt (task : Task Func) (deadline : Int)
  | scheduleTimerIn (task : Task Func) (delay : Int)
  | schedulePeriodic (name : Bytes) (func : Option Func) (period : Int) (priority : TaskPriority)
      (skippable : Bool)
  | cancelPeriodic (id : Nat)
  | start
  | requestStop
  | join
  | checkRunning
  | poll
  | submit
  | take (pool : Pool) (worker : Nat)
  | execute (pool : Pool) (worker : Nat)
  | finish (pool : Pool) (worker : Nat)
  | leave (pool : Pool) (worker : Nat)
  deriving DecidableEq

inductive ReactorOutput (Func : Type) where
  | registered (id : Nat)
  | cancelled (found : Bool)
  | started (task : Task Func)
  | finished (task : Task Func)
  deriving DecidableEq

namespace Reactor

variable {Func : Type} {queue : TimerQueue Func}

def pool (reactor : Reactor queue) : Pool → WorkerPool Func
  | .io => reactor.io
  | .cpu => reactor.cpu

def withPool (reactor : Reactor queue) (which : Pool) (pool : WorkerPool Func) : Reactor queue :=
  match which with
  | .io => { reactor with io := pool }
  | .cpu => { reactor with cpu := pool }

def submitTo (which : Pool) (task : Task Func) (reactor : Reactor queue) : Reactor queue :=
  reactor.withPool which
    { reactor.pool which with queue := (reactor.pool which).queue ++ [task] }

/-- The pool to which the timer thread submits a task. -/
def poolOf (task : Task Func) : Pool :=
  match task.priority with
  | .critical | .high => .cpu
  | .low | .normal => .io

/-- A worker of a pool goes on. -/
def withWorker (which : Pool) (worker : Nat) (state : Worker Func) (reactor : Reactor queue)
    : Reactor queue :=
  reactor.withPool which
    { reactor.pool which with workers := (reactor.pool which).workers.set worker state }

/-- A pool whose workers begin. -/
def launch (threads : Nat) (pool : WorkerPool Func) : WorkerPool Func :=
  { pool with running := true, workers := List.replicate threads .waiting }

def hasLeft (reactor : Reactor queue) : Bool :=
  (match reactor.timerThread with
    | .absent | .left => true
    | _ => false)
  && (reactor.io.workers ++ reactor.cpu.workers).all fun
    | .left => true
    | _ => false

def step (reactor : Reactor queue)
    : ReactorEvent Func → Except Unit (Reactor queue × List (ReactorOutput Func))
  | .advance elapsed =>
      .ok ({ reactor with timer := { reactor.timer with now := reactor.timer.now + elapsed } }, [])
  | .drawId =>
      .ok ({ reactor with timer := { reactor.timer with nextId := idAfter reactor.timer.nextId } }, [])
  | .submitIo task => .ok (reactor.submitTo .io task, [])
  | .submitCpu task => .ok (reactor.submitTo .cpu task, [])
  | .scheduleTimerAt task deadline =>
      .ok ({ reactor with timer := reactor.timer.scheduleAt task deadline }, [])
  | .scheduleTimerIn task delay =>
      .ok ({ reactor with timer := reactor.timer.scheduleIn task delay }, [])
  | .schedulePeriodic name func period priority skippable =>
      let periodicId := reactor.timer.nextId
      let id := idAfter periodicId
      let timer := { reactor.timer with nextId := idAfter id }
      .ok (
        { reactor with
          timer := timer.schedulePeriodicEntry { id, name, func, priority, skippable } period periodicId },
        [.registered periodicId]
      )
  | .cancelPeriodic id =>
      match reactor.timer.cancelPeriodic id with
      | none => .error ()
      | some (timer, found) => .ok ({ reactor with timer }, [.cancelled found])
  | .start =>
      if reactor.running then .ok (reactor, [])
      else
        match reactor.timerThread, reactor.io.workers, reactor.cpu.workers with
        | .absent, [], [] =>
            .ok (
              { reactor with
                running := true
                io := launch reactor.config.ioThreads reactor.io
                cpu := launch reactor.config.cpuThreads reactor.cpu
                timerThread := .submitting [] },
              []
            )
        | _, _, _ => .error ()
  | .requestStop =>
      .ok (
        { reactor with
          running := false
          io := { reactor.io with running := false }
          cpu := { reactor.cpu with running := false } },
        []
      )
  | .join =>
      -- the threads that `stop` joins have left their loops
      if !reactor.running && reactor.hasLeft then
        .ok (
          { reactor with
            io := { reactor.io with workers := [] }
            cpu := { reactor.cpu with workers := [] }
            timerThread := .absent },
          []
        )
      else .error ()
  | .checkRunning =>
      match reactor.timerThread with
      | .submitting [] =>
          .ok ({ reactor with timerThread := if reactor.running then .polling else .left }, [])
      | _ => .error ()
  | .poll =>
      match reactor.timerThread, reactor.timer.getExpiredTasks with
      | .polling, some (timer, tasks, _) =>
          .ok ({ reactor with timer, timerThread := .submitting tasks }, [])
      | _, _ => .error ()
  | .submit =>
      match reactor.timerThread with
      | .submitting (task :: tasks) =>
          .ok ({ reactor with timerThread := .submitting tasks }.submitTo (poolOf task) task, [])
      | _ => .error ()
  | .take which worker =>
      match (reactor.pool which).running, (reactor.pool which).queue,
        (reactor.pool which).workers[worker]? with
      | true, task :: rest, some .waiting =>
          .ok (
            (reactor.withPool which { reactor.pool which with queue := rest }).withWorker which worker
              (.holding task),
            []
          )
      | _, _, _ => .error ()
  | .execute which worker =>
      match (reactor.pool which).workers[worker]? with
      | some (.holding task) => .ok (reactor.withWorker which worker (.executing task), [.started task])
      | _ => .error ()
  | .finish which worker =>
      match (reactor.pool which).workers[worker]? with
      | some (.executing task) => .ok (reactor.withWorker which worker .waiting, [.finished task])
      | _ => .error ()
  | .leave which worker =>
      match (reactor.pool which).running, (reactor.pool which).workers[worker]? with
      | false, some .waiting => .ok (reactor.withWorker which worker .left, [])
      | _, _ => .error ()

end Reactor

end Creek.Framework
