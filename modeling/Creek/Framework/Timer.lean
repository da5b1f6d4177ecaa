import Creek.Library.Durations
import Creek.Library.PriorityQueues
import Creek.Tight.Types

/-! The timer of the framework. Time points are numbers of nanoseconds and durations numbers of
milliseconds; what the timer computes from them is kept in 64 bits. The heap is any priority queue that
hands out the earliest deadline first.
-/

namespace Creek.Framework

open Tight (Bytes)
open Library

inductive TaskPriority where
  | low
  | normal
  | high
  | critical
  deriving DecidableEq, Repr

/-- A task. `func` is the callable it was made with, into which nothing looks. -/
structure Task (Func : Type) where
  id : Nat := 0
  name : Bytes := []
  func : Option Func := none
  priority : TaskPriority := .normal
  skippable : Bool := false
  deriving DecidableEq

/-- What is left of a task that has been moved elsewhere. -/
def Task.movedFrom {Func : Type} (task : Task Func) : Task Func :=
  { task with id := 0, name := [], func := none }

structure TimerEntry (Func : Type) where
  task : Task Func
  deadline : Int
  period : Int := 0
  periodicId : Nat := 0
  deriving DecidableEq

/-- What a move leaves of an entry: all but the task is copied. -/
def TimerEntry.movedFrom {Func : Type} (entry : TimerEntry Func) : TimerEntry Func :=
  { entry with task := entry.task.movedFrom }

/-- The record of a task that came too late, as it goes to the log. -/
structure SlowSkip where
  name : Bytes
  id : Nat
  elapsedUs : Nat
  deriving DecidableEq

/-- The number of nanoseconds in a millisecond. -/
def nanoseconds : Int := 1000000

/-- A queue for the entries of a timer. -/
abbrev TimerQueue (Func : Type) := PriorityQueue (TimerEntry Func) TimerEntry.deadline

/-- A `PriorityTimer`, with what its `TimeSource` reads and the counter of the task ids. -/
structure PriorityTimer {Func : Type} (queue : TimerQueue Func) where
  heap : queue.Heap := queue.empty
  skipThreshold : Int := 1000
  now : Int := 0
  nextId : Nat := 1

/-- The loop of `get_expired_tasks` between two turns. -/
structure Expiry {Func : Type} (queue : TimerQueue Func) where
  heap : queue.Heap
  nextId : Nat
  tasks : List (Task Func) := []
  slowSkips : List SlowSkip := []

/-- What may happen to a timer: time passes, an id is drawn for a task elsewhere, or an operation is called.
-/
inductive TimerEvent (Func : Type) where
  | advance (elapsed : Nat)
  | drawId
  | scheduleAt (task : Task Func) (deadline : Int)
  | scheduleIn (task : Task Func) (delay : Int)
  | schedulePeriodicEntry (task : Task Func) (period : Int) (periodicId : Nat)
  | getExpiredTasks
  | cancel (taskId : Nat)
  | cancelPeriodic (periodicId : Nat)
  deriving DecidableEq

/-- What an operation logs and what it returns. -/
inductive TimerOutput (Func : Type) where
  | slowTask (skip : SlowSkip)
  | expired (tasks : List (Task Func))
  | cancelled (found : Bool)
  deriving DecidableEq

/-- `Task::next_id`: the counter after a draw, which goes round at 64 bits. -/
def idAfter (nextId : Nat) : Nat := (nextId + 1) % 2 ^ 64

namespace TimerEntry

variable {Func : Type}

/-- By how many milliseconds an entry is late. -/
def elapsed (now : Int) (entry : TimerEntry Func) : Int :=
  (int64 (now - entry.deadline)).tdiv nanoseconds

/-- Whether an entry that is due is dropped for being late. -/
def skips (now threshold : Int) (entry : TimerEntry Func) : Bool :=
  entry.task.skippable && threshold < entry.elapsed now

def slowSkip (now : Int) (entry : TimerEntry Func) : SlowSkip where
  name := entry.task.name
  id := entry.task.id
  elapsedUs := (entry.elapsed now * 1000 % 2 ^ 64).toNat

/-- Whether an entry that is handed out is armed again. -/
def repeats (entry : TimerEntry Func) : Bool :=
  0 < entry.period && entry.periodicId ≠ 0

/-- The next entry of a periodic task, with a task that is made anew. -/
def next (now : Int) (id : Nat) (entry : TimerEntry Func) : TimerEntry Func where
  task :=
    {
      id := id
      name := entry.task.name
      func := entry.task.func
      priority := entry.task.priority
      skippable := entry.task.skippable
    }
  deadline := timeAfter now entry.period
  period := entry.period
  periodicId := entry.periodicId

end TimerEntry

namespace PriorityTimer

variable {Func : Type} {queue : TimerQueue Func}

def scheduleAt (task : Task Func) (deadline : Int) (timer : PriorityTimer queue) : PriorityTimer queue :=
  { timer with heap := queue.push timer.heap { task, deadline, period := 0, periodicId := 0 } }

def scheduleIn (task : Task Func) (delay : Int) (timer : PriorityTimer queue) : PriorityTimer queue :=
  timer.scheduleAt task (timeAfter timer.now delay)

def schedulePeriodicEntry (task : Task Func) (period : Int) (periodicId : Nat) (timer : PriorityTimer queue)
    : PriorityTimer queue :=
  let deadline := timeAfter timer.now period
  { timer with heap := queue.push timer.heap { task, deadline, period, periodicId } }

/-- One turn of the loop of `get_expired_tasks`, unless it ends. The task of an entry is moved out while the
entry is still at the top.
-/
def expireTop (now threshold : Int) (expiry : Expiry queue) : Option (Expiry queue) :=
  match queue.top? expiry.heap with
  | none => none
  | some entry =>
      if now < entry.deadline then none
      else if entry.skips now threshold then
        some
          { expiry with
            heap := queue.pop expiry.heap
            slowSkips := expiry.slowSkips ++ [entry.slowSkip now] }
      else
        let popped := queue.pop (queue.modifyTop TimerEntry.movedFrom expiry.heap)
        if entry.repeats then
          some
            { expiry with
              heap := queue.push popped (entry.next now expiry.nextId)
              nextId := idAfter expiry.nextId
              tasks := expiry.tasks ++ [entry.task] }
        else some { expiry with heap := popped, tasks := expiry.tasks ++ [entry.task] }

/-- The loop of `get_expired_tasks`; `none` if it has not ended after some turns. An entry that is armed
again for a deadline that has passed either comes too late at its second turn or fires in every turn, so two
turns for each entry and one more tell whether the loop ends.
-/
def expire (now threshold : Int) : Nat → Expiry queue → Option (Expiry queue)
  | 0, _ => none
  | fuel + 1, expiry =>
      match expireTop now threshold expiry with
      | none => some expiry
      | some expiry => expire now threshold fuel expiry

def getExpiredTasks (timer : PriorityTimer queue)
    : Option (PriorityTimer queue × List (Task Func) × List SlowSkip) :=
  (expire timer.now timer.skipThreshold (2 * queue.size timer.heap + 1)
    { heap := timer.heap, nextId := timer.nextId }).map fun expiry =>
      (
        { timer with heap := expiry.heap, nextId := expiry.nextId },
        expiry.tasks,
        expiry.slowSkips
      )

/-- The common body of `cancel` and `cancel_periodic`: takes the heap apart, erases the first entry that is
meant and pushes the others back.
-/
def cancelFirst (meant : TimerEntry Func → Bool) (timer : PriorityTimer queue)
    : Option (PriorityTimer queue × Bool) :=
  (queue.drain TimerEntry.movedFrom (queue.size timer.heap + 1) timer.heap).map fun (entries, emptied) =>
    ({ timer with heap := queue.pushAll emptied (entries.eraseP meant) }, entries.any meant)

def cancel (taskId : Nat) (timer : PriorityTimer queue) : Option (PriorityTimer queue × Bool) :=
  timer.cancelFirst fun entry => entry.task.id = taskId

def cancelPeriodic (periodicId : Nat) (timer : PriorityTimer queue)
    : Option (PriorityTimer queue × Bool) :=
  timer.cancelFirst fun entry => entry.periodicId = periodicId

/-- One event at a timer. A call that does not end has no step. -/
def step (timer : PriorityTimer queue)
    : TimerEvent Func → Except Unit (PriorityTimer queue × List (TimerOutput Func))
  | .advance elapsed => .ok ({ timer with now := timer.now + elapsed }, [])
  | .drawId => .ok ({ timer with nextId := idAfter timer.nextId }, [])
  | .scheduleAt task deadline => .ok (timer.scheduleAt task deadline, [])
  | .scheduleIn task delay => .ok (timer.scheduleIn task delay, [])
  | .schedulePeriodicEntry task period periodicId =>
      .ok (timer.schedulePeriodicEntry task period periodicId, [])
  | .getExpiredTasks =>
      match timer.getExpiredTasks with
      | none => .error ()
      | some (after, tasks, slowSkips) => .ok (after, slowSkips.map .slowTask ++ [.expired tasks])
  | .cancel taskId =>
      match timer.cancel taskId with
      | none => .error ()
      | some (after, found) => .ok (after, [.cancelled found])
  | .cancelPeriodic periodicId =>
      match timer.cancelPeriodic periodicId with
      | none => .error ()
      | some (after, found) => .ok (after, [.cancelled found])

end PriorityTimer

end Creek.Framework
