import Creek.Leaf.BackendStream
import Creek.Library.Runs

/-! A call to a backend with its completion queue. The client's side may ask for anything at any time;
the pump takes completions from the queue, each for an operation under way, until the end of the call.
-/

namespace Creek.Leaf

open Tight (Bytes)
open Library

/-- What happens to a call to a backend: what the client's side asks for, and completions. -/
inductive BackendEvent where
  | clientMessage (bytes : Bytes)
  | clientHalfClose
  | cancel
  | start (ok : Bool)
  | read (message : Option Bytes)
  | write (ok : Bool)
  | writesDone
  | finish (status : Status)
  deriving DecidableEq, Repr

namespace BackendStream

/-- One event, under the mutex of the stream. A message that was read goes to `on_message`. -/
def handle (stream : BackendStream) : BackendEvent → BackendStream × List BackendAction
  | .clientMessage bytes => stream.clientMessage bytes
  | .clientHalfClose => stream.clientHalfClose
  | .cancel => (stream, [.tryCancel])
  | .start ok => stream.onStart ok
  | .read (some _) => (stream, [.read])
  | .read none => (stream, [.finish])
  | .write _ => stream.onWrite
  | .writesDone => (stream, [])
  | .finish _ => ({ stream with finished := true }, [])

/-- One event as a step of a run; it cannot fail. -/
def step (stream : BackendStream) (event : BackendEvent)
    : Except Empty (BackendStream × List BackendAction) :=
  .ok (stream.handle event)

end BackendStream

/-- The operations of a call that complete. -/
inductive BackendOperation where
  | start
  | read
  | write
  | writesDone
  | finish
  deriving DecidableEq, Repr

def BackendAction.operation? : BackendAction → Option BackendOperation
  | .read => some .read
  | .write _ => some .write
  | .writesDone => some .writesDone
  | .finish => some .finish
  | .tryCancel => none

def BackendEvent.completes? : BackendEvent → Option BackendOperation
  | .start _ => some .start
  | .read _ => some .read
  | .write _ => some .write
  | .writesDone => some .writesDone
  | .finish _ => some .finish
  | _ => none

abbrev BackendHistory := List (Stage BackendStream BackendEvent BackendAction)

/-- How many operations of a kind have begun; `begin` starts the call. -/
def begunIn (history : BackendHistory) (operation : BackendOperation) : Nat :=
  (emitted history).countP (fun action => action.operation? = some operation)
  + if operation = .start then 1 else 0

/-- How many operations of a kind have completed. -/
def completedIn (history : BackendHistory) (operation : BackendOperation) : Nat :=
  history.countP fun stage => stage.event.completes? = some operation

/-- What the completion queue promises: a completion for each operation, once, and nothing that the
pump looks at after the end of the call.
-/
def Delivers (history : BackendHistory) (_ : BackendStream) (event : BackendEvent) : Prop :=
  ∀ operation ∈ event.completes?,
    completedIn history operation < begunIn history operation ∧ completedIn history .finish = 0

instance (history : BackendHistory) (stream : BackendStream) (event : BackendEvent)
    : Decidable (Delivers history stream event) :=
  inferInstanceAs (Decidable (∀ operation ∈ event.completes?,
    completedIn history operation < begunIn history operation ∧ completedIn history .finish = 0))

/-- The messages that actions pass to `Write`, in order. -/
def passed (actions : List BackendAction) : List Bytes :=
  actions.filterMap fun action =>
    match action with
    | .write bytes => some bytes
    | _ => none

/-- What `client_message` puts into the queue. -/
def BackendStream.accepts (stream : BackendStream) : BackendEvent → List Bytes
  | .clientMessage bytes =>
      if stream.finished || stream.writeQueue.length ≥ kMaxBackendWriteQueue then [] else [bytes]
  | _ => []

/-- The messages of the client that were accepted, in order. -/
def queuedIn (history : BackendHistory) : List Bytes :=
  history.flatMap fun stage => stage.before.accepts stage.event

end Creek.Leaf
