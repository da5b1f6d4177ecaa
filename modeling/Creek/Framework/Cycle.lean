import Creek.Library.Runs
import Creek.Tight.Types
import Std.Data.TreeSet

/-! The cycle of the framework: the heartbeat hands a batch of messages to the processor, the evolver
tells the components which keys have changed, and new messages are sent on.
A cycle is taken apart into the steps between which other code may run. Messages are opaque.
The set of changed keys has no mutex, and the external calls of a change set run on threads of their own:
a mark has a beginning and an end, and once two accesses to the set have overlapped it may hold anything.
-/

namespace Creek

open Tight (Bytes)

namespace Framework

/-- A message in a channel. The origin is not part of the program: it is the number of the cycle whose
change set held the message, and `none` for a message that something else has sent.
-/
structure Queued (μ : Type) where
  origin : Option Nat
  message : μ

/-- The channels an input channel can be: the framework's own input buffer, its channel of new messages,
or a channel of somebody else.
-/
inductive Channel where
  | inputBuffer
  | newMessages
  | other (id : Nat)
  deriving DecidableEq, Repr

/-- Where in `run_one_cycle` the framework is. -/
inductive Phase (μ : Type) where
  | idle
  | processing
  | beaten (newMessages : List μ)
  | evolving (newMessages : List μ) (changedKeys : List Bytes) (waiting : List Nat)

end Framework

open Framework in
/-- The state of a framework with a batch processor. `components` is the number of registered components,
and `cycle` counts the cycles that have begun. `marking` has the keys of the calls of `mark_changed` that
are under way, and `raced` tells whether an access to the changed keys has begun during another.
-/
structure Framework (μ : Type) where
  changedKeys : Std.TreeSet Bytes := ∅
  marking : List Bytes := []
  raced : Bool := false
  channels : Channel → List (Queued μ) := fun _ => []
  inputChannel : Channel := .inputBuffer
  generateTick : Bool := true
  components : Nat := 0
  phase : Phase μ := .idle
  cycle : Nat := 0

namespace Framework

/-- What happens: other code begins to mark a key, has marked it, or sends a message; between two cycles an
input channel is registered or the tick is switched; and the steps of a cycle, with what the processor and
the components put into their change sets. The processor or a component may throw, whatever it has put
into its change set by then. After a data race the set of changed keys may become any other.
-/
inductive FrameworkEvent (μ : Type) where
  | beginMark (key : Bytes)
  | markChanged (key : Bytes)
  | corrupt (changedKeys : Std.TreeSet Bytes)
  | send (channel : Channel) (message : μ)
  | registerInputChannel (channel : Channel)
  | setGenerateTick (enabled : Bool)
  | beat (tick : μ)
  | processed (newMessages : List μ)
  | swapChangedKeys
  | evolved (newMessages : List μ)
  | threw (newMessages : List μ)
  | execute

/-- What a step shows: the batch for the processor, or the keys for a component. -/
inductive FrameworkOutput (μ : Type) where
  | batch (messages : List (Queued μ))
  | evolve (component : Nat) (changedKeys : List Bytes)

/-- The event has no place where the framework is. -/
inductive Misplaced where
  | misplaced
  deriving DecidableEq, Repr

variable {μ : Type}

/-- Appends messages to a channel. -/
def sendAll (channel : Channel) (messages : List (Queued μ)) (framework : Framework μ)
    : Framework μ :=
  {
    framework with
    channels := fun other =>
      if other = channel then framework.channels other ++ messages else framework.channels other
  }

/-- Empties a channel. -/
def drainAll (channel : Channel) (framework : Framework μ) : Framework μ × List (Queued μ) :=
  (
    {
      framework with
      channels := fun other => if other = channel then [] else framework.channels other
    },
    framework.channels channel
  )

/-- The heartbeat is built anew around the channel, and ticks again. -/
def registerInputChannel (channel : Channel) (framework : Framework μ) : Framework μ :=
  { framework with inputChannel := channel, generateTick := true }

/-- Whether there has been a data race once another access to the changed keys begins. -/
def touched (framework : Framework μ) : Bool :=
  framework.raced || !framework.marking.isEmpty

/-- A call of `mark_changed` begins. -/
def beginMark (key : Bytes) (framework : Framework μ) : Framework μ :=
  { framework with marking := key :: framework.marking, raced := framework.touched }

/-- A call of `mark_changed` has inserted its key. -/
def markChanged (key : Bytes) (framework : Framework μ) : Framework μ :=
  {
    framework with
    changedKeys := framework.changedKeys.insert key
    marking := framework.marking.erase key
  }

/-- The heartbeat up to the call of the processor: the changed keys are cleared, the input is drained.
-/
def beat (tick : μ) (framework : Framework μ) : Framework μ × List (Queued μ) :=
  let cleared := { framework with changedKeys := ∅, raced := framework.touched }
  let (framework, batch) := cleared.drainAll framework.inputChannel
  (
    { framework with phase := .processing, cycle := framework.cycle + 1 },
    if framework.generateTick then batch ++ [{ origin := none, message := tick }] else batch
  )

/-- The evolver up to the first component; without changed keys no component is called. -/
def swapChangedKeys (newMessages : List μ) (framework : Framework μ) : Framework μ :=
  let changedKeys := framework.changedKeys.toList
  {
    framework with
    changedKeys := ∅
    raced := framework.touched
    phase := .evolving newMessages changedKeys
      (if changedKeys.isEmpty then [] else List.range framework.components)
  }

/-- Stage 4: the new messages go through their channel into the input buffer. -/
def execute (newMessages : List μ) (framework : Framework μ) : Framework μ :=
  let produced := newMessages.map fun message => { origin := some framework.cycle, message := message }
  let (framework, recycled) := (framework.sendAll .newMessages produced).drainAll .newMessages
  { framework.sendAll .inputBuffer recycled with phase := .idle }

/-- One step. -/
def step (framework : Framework μ) (event : FrameworkEvent μ)
    : Except Misplaced (Framework μ × List (FrameworkOutput μ)) :=
  match event, framework.phase with
  | .beginMark key, _ => .ok (framework.beginMark key, [])
  | .markChanged key, _ =>
      if key ∈ framework.marking then .ok (framework.markChanged key, []) else .error .misplaced
  | .corrupt changedKeys, _ =>
      if framework.raced then .ok ({ framework with changedKeys := changedKeys }, [])
      else .error .misplaced
  | .send channel message, _ =>
      .ok (framework.sendAll channel [{ origin := none, message := message }], [])
  | .registerInputChannel channel, .idle => .ok (framework.registerInputChannel channel, [])
  | .setGenerateTick enabled, .idle => .ok ({ framework with generateTick := enabled }, [])
  | .beat tick, .idle =>
      let (framework, batch) := framework.beat tick
      .ok (framework, [.batch batch])
  | .processed newMessages, .processing =>
      .ok ({ framework with phase := .beaten newMessages }, [])
  | .swapChangedKeys, .beaten newMessages => .ok (framework.swapChangedKeys newMessages, [])
  | .evolved more, .evolving newMessages changedKeys (component :: waiting) =>
      .ok
        (
          { framework with phase := .evolving (newMessages ++ more) changedKeys waiting },
          [.evolve component changedKeys]
        )
  -- Nothing catches what is thrown before it has left `run_one_cycle`: the change set is gone.
  | .threw _, .processing => .ok ({ framework with phase := .idle }, [])
  | .threw _, .evolving _ changedKeys (component :: _) =>
      .ok ({ framework with phase := .idle }, [.evolve component changedKeys])
  | .execute, .evolving newMessages _ [] => .ok (framework.execute newMessages, [])
  | _, _ => .error .misplaced

abbrev FrameworkStage (μ : Type) :=
  Library.Stage (Framework μ) (FrameworkEvent μ) (FrameworkOutput μ)

end Framework

end Creek
