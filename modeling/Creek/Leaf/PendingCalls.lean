import Creek.Leaf.IngressStream
import Creek.Library.Runs

/-! The unary calls of a leaf that go over the mesh. A caller registers a slot under its request id and
waits for it; a response is first matched to a slot under the mutex of the leaf and then put into it
under the mutex of the slot. What a thread does under one mutex is one step, and callers and receivers
take their steps in any order.
-/

namespace Creek.Leaf

open Tight (Bytes)
open Mesh (Endpoint RoutedRequest RoutedResponse)
open Library

namespace Status

def deadlineExceeded : Int := 4

end Status

/-- The reply to `SayHello`. -/
structure HelloReply where
  message : Bytes := []
  backendId : Bytes := []
  deriving DecidableEq, Repr

structure PendingResponse where
  done : Bool := false
  response : RoutedResponse := {}
  deriving DecidableEq, Repr

/-- What a call of `send_routed_request` is made of: the ids of the leaf and of the node it goes through,
its own id and what the caller passes.
-/
structure RoutedArguments where
  leafId : Bytes := []
  nodeId : Bytes := []
  requestId : Bytes
  endpoint : Endpoint := {}
  metadata : List (Bytes × Bytes) := []
  body : Bytes := []
  deadlineMs : UInt64 := 0
  deriving DecidableEq, Repr

/-- The request that is sent. -/
def RoutedArguments.request (arguments : RoutedArguments) : RoutedRequest where
  requestId := arguments.requestId
  originLeaf := arguments.leafId
  originNode := arguments.nodeId
  destinationLeaf := arguments.endpoint.ownerLeaf
  destinationNode := arguments.endpoint.ownerNode
  endpointId := arguments.endpoint.endpointId
  rpcName := "SayHello".toUTF8.toList
  metadata := arguments.metadata
  body := arguments.body
  deadlineMs := arguments.deadlineMs
  hopLimit := kDefaultBackendHopLimit

/-- How far a call is. One that has timed out holds the mutex of its slot until it has returned. -/
inductive CallPhase where
  | registered
  | waiting
  | timedOut
  | returned
  deriving DecidableEq, Repr

structure PendingCall where
  request : RoutedRequest
  slot : PendingResponse := {}
  phase : CallPhase := .registered
  deriving DecidableEq, Repr

/-- The table of a leaf, with its callers and with the responses that have been matched to a call and not
been put into its slot yet. A slot is known by the place of its call.
-/
structure PendingCalls where
  pending : Std.TreeMap Bytes Nat := ∅
  calls : List PendingCall := []
  matched : List (Nat × RoutedResponse) := []

/-- What a step sends, or what a caller gets: the response that it reads, and what it returns. -/
inductive CallOutput where
  | sent (destinationNode destinationLeaf : Bytes) (request : RoutedRequest)
  | answered (index : Nat) (response : RoutedResponse)
  | returned (index : Nat) (status : Status) (reply : Option HelloReply)
  deriving DecidableEq, Repr

/-- The steps of callers and receivers. -/
inductive CallEvent where
  | register (arguments : RoutedArguments)
  | send (index : Nat)
  | wake (index : Nat)
  | timeOut (index : Nat)
  | giveUp (index : Nat)
  | receive (response : RoutedResponse)
  | complete (position : Nat)
  deriving DecidableEq, Repr

/-- What a caller makes of the response in its slot. How a reply is read is left open. -/
def conclude (parse : Bytes → Option HelloReply) (endpointId : Bytes) (response : RoutedResponse)
    : Status × Option HelloReply :=
  if response.status = 0 then
    match parse response.body with
    | none => ({ code := Status.internal, message := "bad_reply_body".toUTF8.toList }, none)
    | some reply => ({}, some { reply with backendId := endpointId })
  else
    (
      {
        code := if response.status > 0 then response.status else Status.unavailable
        message := response.error
      },
      none
    )

namespace PendingCalls

/-- The first critical section of a call. -/
def register (arguments : RoutedArguments) (table : PendingCalls) : PendingCalls :=
  {
    table with
    pending := table.pending.insert arguments.requestId table.calls.length
    calls := table.calls ++ [{ request := arguments.request }]
  }

/-- Another phase for a call. -/
def advance (index : Nat) (phase : CallPhase) (table : PendingCalls) : PendingCalls :=
  { table with calls := table.calls.modify index fun call => { call with phase := phase } }

/-- The first critical section of `handle_inbound_response`. -/
def receive (response : RoutedResponse) (table : PendingCalls) : PendingCalls :=
  match table.pending[response.requestId]? with
  | none => table
  | some index =>
      {
        table with
        pending := table.pending.erase response.requestId
        matched := table.matched ++ [(index, response)]
      }

/-- Its second one, which needs the mutex of the slot. -/
def complete (position index : Nat) (response : RoutedResponse) (table : PendingCalls) : PendingCalls :=
  {
    table with
    matched := table.matched.eraseIdx position
    calls := table.calls.modify index fun call =>
      { call with slot := { done := true, response := response } }
  }

/-- One step, if it can be taken: a wait ends when the slot is done or the time is over, and a slot whose
mutex is held is not filled.
-/
def step (parse : Bytes → Option HelloReply) (table : PendingCalls)
    : CallEvent → Except Unit (PendingCalls × List CallOutput)
  | .register arguments => .ok (table.register arguments, [])
  | .send index =>
      match table.calls[index]? with
      | some call =>
          if call.phase = .registered then
            .ok (
              table.advance index .waiting,
              [.sent call.request.destinationNode call.request.destinationLeaf call.request]
            )
          else .error ()
      | none => .error ()
  | .wake index =>
      match table.calls[index]? with
      | some call =>
          if call.phase = .waiting ∧ call.slot.done then
            let result := conclude parse call.request.endpointId call.slot.response
            .ok (
              table.advance index .returned,
              [.answered index call.slot.response, .returned index result.1 result.2]
            )
          else .error ()
      | none => .error ()
  | .timeOut index =>
      match table.calls[index]? with
      | some call =>
          if call.phase = .waiting ∧ !call.slot.done then .ok (table.advance index .timedOut, [])
          else .error ()
      | none => .error ()
  | .giveUp index =>
      match table.calls[index]? with
      | some call =>
          if call.phase = .timedOut then
            .ok (
              { table.advance index .returned with
                pending := table.pending.erase call.request.requestId },
              [
                .returned index
                  { code := Status.deadlineExceeded, message := "rpc_timeout".toUTF8.toList } none
              ]
            )
          else .error ()
      | none => .error ()
  | .receive response => .ok (table.receive response, [])
  | .complete position =>
      match table.matched[position]? with
      | some (index, response) =>
          if (table.calls[index]?).any fun call => call.phase = .timedOut then .error ()
          else .ok (table.complete position index response, [])
      | none => .error ()

end PendingCalls

abbrev CallHistory := List (Stage PendingCalls CallEvent CallOutput)

end Creek.Leaf
