import Creek.Tight.Transport

/-! The callbacks of a transport and the threads that make them.
What a thread does with the records and the callbacks that follow from it are steps of their own:
`flush_commands` fires under no mutex what it has collected under them, and a handler fires after it has
left the channel. Meanwhile the other thread goes on.
-/

namespace Creek.Tight

/-- The threads that make callbacks. In lite mode the reactor also receives. -/
inductive CallbackThread where
  | reactor
  | receiver
  deriving DecidableEq, Repr

/-- Whether an effect is a callback. -/
def Effect.isCallback : Effect → Bool
  | .send .. => false
  | _ => true

/-- A transport, and the callbacks that each thread has still to make. -/
structure Calling where
  transport : Transport
  waiting : CallbackThread → List Effect := fun _ => []

/-- A thread does its part of an occurrence, or makes its next callback. -/
inductive CallingEvent where
  | act (thread : CallbackThread) (occurrence : Occurrence)
  | call (thread : CallbackThread)
  deriving DecidableEq, Repr

namespace Calling

/-- A thread with other callbacks to make. -/
def await (thread : CallbackThread) (effects : List Effect) (calling : Calling) : Calling :=
  { calling with waiting := Function.update calling.waiting thread effects }

def step (numerics : Numerics) (calling : Calling)
    : CallingEvent → Except Library.Fault (Calling × List (CallbackThread × Effect))
  | .act thread occurrence =>
      match calling.transport.step numerics occurrence with
      | .error fault => .error fault
      | .ok (transport, effects) =>
          let waiting := calling.waiting thread ++ effects.filter Effect.isCallback
          .ok ({ calling with transport := transport }.await thread waiting, [])
  | .call thread =>
      match calling.waiting thread with
      | [] => .ok (calling, [])
      | effect :: rest => .ok (calling.await thread rest, [(thread, effect)])

end Calling

end Creek.Tight
