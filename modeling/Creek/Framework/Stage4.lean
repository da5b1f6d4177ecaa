import Mathlib

/-! The last stage of the framework: `Stage4Executor` sends new messages on and hands external calls to
worker threads, through a `CopyChannel`. Between two steps of one thread the others may do anything;
`start` and `stop` are called one after the other, and the call logger only logs.
-/

namespace Creek.Framework

/-- A `CopyChannel` by what it holds. -/
structure CopyChannel (α : Type) where
  items : List α := []
  closed : Bool := false

namespace CopyChannel

variable {α : Type}

def send (item : α) (channel : CopyChannel α) : CopyChannel α :=
  if channel.closed then channel else { channel with items := channel.items ++ [item] }

/-- `recv_for` at the end of its wait: the first item, if there is one. -/
def recv (channel : CopyChannel α) : Option α × CopyChannel α :=
  match channel.items with
  | [] => (none, channel)
  | item :: rest => (some item, { channel with items := rest })

def close (channel : CopyChannel α) : CopyChannel α :=
  { channel with items := [], closed := true }

end CopyChannel

/-- An external call in the work queue. The batch is not part of the program: it is the number of the call of
`execute` that has passed it.
-/
structure Submitted (κ : Type) where
  batch : Nat
  call : κ
  deriving DecidableEq

/-- A call of `execute`: what it has still to send, and whether it has raised the counter. `live` is not part
of the program: whether the executor was running when the call began.
-/
structure Execution (μ κ : Type) where
  newMessages : List μ
  externalCalls : List κ
  callCount : Nat
  counted : Bool := false
  live : Bool
  deriving DecidableEq

/-- Where in `worker_loop` a worker is. -/
inductive CallWorker (κ : Type) where
  | checking
  | receiving
  | holding (item : Submitted κ)
  | calling (item : Submitted κ)
  | left
  deriving DecidableEq

/-- How an external call ends; each way lowers the counter. -/
inductive CallOutcome where
  | returned
  | exception
  | unknownException
  deriving DecidableEq, Repr

/-- How far `stop` is: not called, the flag stored, or the queue closed. -/
inductive StopPoint where
  | none
  | stored
  | closed
  deriving DecidableEq, Repr

structure Stage4Executor (μ κ : Type) where
  outputChannel : CopyChannel μ := {}
  workQueue : CopyChannel (Submitted κ) := {}
  workers : List (CallWorker κ) := []
  running : Bool := false
  pending : Nat := 0
  executions : List (Execution μ κ) := []
  stopping : StopPoint := .none

/-- The steps of `execute`, of `start` and `stop` and of the workers. -/
inductive Stage4Event (μ κ : Type) where
  | enter (newMessages : List μ) (externalCalls : List κ)
  | sendMessage (batch : Nat)
  | sendCall (batch : Nat)
  | count (batch : Nat)
  | start (workerThreads : Nat)
  | stop
  | close
  | join
  | check (worker : Nat)
  | receive (worker : Nat)
  | call (worker : Nat)
  | finish (worker : Nat) (outcome : CallOutcome)
  deriving DecidableEq

/-- What becomes of external calls. -/
inductive Stage4Output (κ : Type) where
  | entered (item : Submitted κ)
  | refused (item : Submitted κ)
  | dropped (item : Submitted κ)
  | called (item : Submitted κ)
  | finished (item : Submitted κ) (outcome : CallOutcome)
  deriving DecidableEq

/-- The number of the values of `std::size_t`. -/
def sizeRange : Nat := 2 ^ 64

/-- `fetch_add` and `fetch_sub` on an unsigned counter, which go round. -/
def fetchAdd (counter amount : Nat) : Nat :=
  (counter + amount) % sizeRange

def fetchSub (counter amount : Nat) : Nat :=
  (counter + (sizeRange - amount)) % sizeRange

namespace Stage4Executor

variable {μ κ : Type}

def withExecution (batch : Nat) (execution : Execution μ κ) (executor : Stage4Executor μ κ)
    : Stage4Executor μ κ :=
  { executor with executions := executor.executions.set batch execution }

def withWorker (worker : Nat) (state : CallWorker κ) (executor : Stage4Executor μ κ)
    : Stage4Executor μ κ :=
  { executor with workers := executor.workers.set worker state }

def step (executor : Stage4Executor μ κ)
    : Stage4Event μ κ → Except Unit (Stage4Executor μ κ × List (Stage4Output κ))
  | .enter newMessages externalCalls =>
      if externalCalls.length < sizeRange then
        let execution :=
          { newMessages, externalCalls, callCount := externalCalls.length, live := executor.running }
        .ok ({ executor with executions := executor.executions ++ [execution] }, [])
      else .error ()
  | .sendMessage batch =>
      match executor.executions[batch]? with
      | some execution =>
          match execution.newMessages with
          | message :: rest =>
              .ok (
                { executor.withExecution batch { execution with newMessages := rest } with
                  outputChannel := executor.outputChannel.send message },
                []
              )
          | [] => .error ()
      | none => .error ()
  | .sendCall batch =>
      match executor.executions[batch]? with
      | some execution =>
          match execution.newMessages, execution.externalCalls with
          | [], call :: rest =>
              .ok (
                { executor.withExecution batch { execution with externalCalls := rest } with
                  workQueue := executor.workQueue.send { batch, call } },
                [if executor.workQueue.closed then .refused { batch, call } else .entered { batch, call }]
              )
          | _, _ => .error ()
      | none => .error ()
  | .count batch =>
      match executor.executions[batch]? with
      | some execution =>
          match execution.newMessages, execution.externalCalls, execution.counted with
          | [], [], false =>
              .ok (
                { executor.withExecution batch { execution with counted := true } with
                  pending := fetchAdd executor.pending execution.callCount },
                []
              )
          | _, _, _ => .error ()
      | none => .error ()
  | .start workerThreads =>
      if executor.running then .ok (executor, [])
      else
        match executor.stopping, executor.workers with
        | .none, [] =>
            .ok (
              { executor with
                running := true
                workers := List.replicate workerThreads .checking },
              []
            )
        | _, _ => .error ()
  | .stop =>
      match executor.stopping with
      | .none => .ok ({ executor with running := false, stopping := .stored }, [])
      | _ => .error ()
  | .close =>
      match executor.stopping with
      | .stored =>
          .ok (
            { executor with
              workQueue := executor.workQueue.close
              stopping := .closed },
            executor.workQueue.items.map .dropped
          )
      | _ => .error ()
  | .join =>
      -- all threads that `stop` joins have left their loops
      if executor.stopping = .closed ∧ executor.workers.all (fun
        | .left => true
        | _ => false)
      then .ok ({ executor with workers := [], stopping := .none }, [])
      else .error ()
  | .check worker =>
      match executor.workers[worker]? with
      | some .checking =>
          .ok (executor.withWorker worker (if executor.running then .receiving else .left), [])
      | _ => .error ()
  | .receive worker =>
      match executor.workers[worker]?, executor.workQueue.recv with
      | some .receiving, (some item, workQueue) =>
          .ok ({ executor.withWorker worker (.holding item) with workQueue }, [])
      | some .receiving, (none, _) => .ok (executor.withWorker worker .checking, [])
      | _, _ => .error ()
  | .call worker =>
      match executor.workers[worker]? with
      | some (.holding item) => .ok (executor.withWorker worker (.calling item), [.called item])
      | _ => .error ()
  | .finish worker outcome =>
      match executor.workers[worker]? with
      | some (.calling item) =>
          .ok (
            { executor.withWorker worker .checking with
              pending := fetchSub executor.pending 1 },
            [.finished item outcome]
          )
      | _ => .error ()

end Stage4Executor

end Creek.Framework
