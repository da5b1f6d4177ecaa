import Creek.Leaf.PendingCalls
import Creek.Library.Lookups

/-! The responses of the mesh and the calls that wait for them. The table of the leaf and the slots are
changed in separate critical sections: a response that is matched to a call may find it timed out, and a
call that has timed out is in the table until it removes itself.
-/

namespace Creek.Leaf

open Tight (Bytes)
open Mesh (RoutedRequest RoutedResponse)
open Library

namespace PendingCalls

/-- The responses that have arrived, in order. -/
def receivedIn (history : CallHistory) : List RoutedResponse :=
  history.filterMap fun stage =>
    match stage.event with
    | .receive response => some response
    | _ => none

/-- The calls that were answered, each with the response in its slot, in order. -/
def answersIn (history : CallHistory) : List (Nat × RoutedResponse) :=
  (emitted history).filterMap fun output =>
    match output with
    | .answered index response => some (index, response)
    | _ => none

/-- A step registers a call under an id. -/
def Registers (requestId : Bytes) (stage : Stage PendingCalls CallEvent CallOutput) : Prop :=
  ∃ arguments, stage.event = .register arguments ∧ arguments.requestId = requestId

/-- A response for an id arrives. -/
def Arrives (requestId : Bytes) (stage : Stage PendingCalls CallEvent CallOutput) : Prop :=
  ∃ response, stage.event = .receive response ∧ response.requestId = requestId

/-- Since a call was registered under an id, no response for it has arrived. -/
def Unanswered (history : CallHistory) (requestId : Bytes) : Prop :=
  Since (Registers requestId) (fun later => ¬Arrives requestId later) history

/-- The wait of a call ended without a response in its slot. -/
def TimedOut (history : CallHistory) (index : Nat) : Prop :=
  ∃ stage ∈ history, stage.event = .timeOut index

/-- The ids of calls are random, so that no two are the same. -/
def DistinctIds (_ : CallHistory) (table : PendingCalls) (event : CallEvent) : Prop :=
  ∀ arguments, event = .register arguments
    → ∀ call ∈ table.calls, call.request.requestId ≠ arguments.requestId

/-- What the status of a call that has timed out says. -/
def timeoutStatus : Status where
  code := Status.deadlineExceeded
  message := "rpc_timeout".toUTF8.toList

/-- The table holds the ids of the calls in the given phases for which no response has arrived. -/
def Holds (phases : List CallPhase) (history : CallHistory) (table : PendingCalls) : Prop :=
  ∀ requestId, requestId ∈ table.pending
    ↔ ∃ call ∈ table.calls, call.request.requestId = requestId
      ∧ call.phase ∈ phases
      ∧ Unanswered history requestId

/-- Responses and calls are matched: a call returns OK with the body of the response that it was answered
with, which has its id and the status 0; a response answers one call at most, and a call is answered
once at most and not at all if it has timed out.
-/
structure Matched (parse : Bytes → Option HelloReply) (history : CallHistory) (table : PendingCalls)
    : Prop where
  ok : ∀ index status reply, .returned index status reply ∈ emitted history → status.code = 0
    → ∃ call response parsed, table.calls[index]? = some call
      ∧ (index, response) ∈ answersIn history
      ∧ response.requestId = call.request.requestId
      ∧ response.status = 0
      ∧ parse response.body = some parsed
      ∧ reply = some { parsed with backendId := call.request.endpointId }
  once : ((answersIn history).map Prod.snd).Subperm (receivedIn history)
  single : ((answersIn history).map Prod.fst).Nodup
  late : ∀ index, TimedOut history index
    → index ∉ (answersIn history).map Prod.fst
      ∧ ∀ status reply, .returned index status reply ∈ emitted history
        → status = timeoutStatus ∧ reply = none

variable {parse : Bytes → Option HelloReply} {table after : PendingCalls} {history : CallHistory}
  {event : CallEvent} {outputs : List CallOutput}

@[simp] theorem receivedIn_append (front back : CallHistory)
    : receivedIn (front ++ back) = receivedIn front ++ receivedIn back :=
  List.filterMap_append

@[simp] theorem answersIn_append (front back : CallHistory)
    : answersIn (front ++ back) = answersIn front ++ answersIn back := by
  simp [answersIn]

-- What a step can do

/-- The steps that can be taken. -/
inductive Takes (parse : Bytes → Option HelloReply) (table : PendingCalls)
    : CallEvent → PendingCalls → List CallOutput → Prop
  | register (arguments : RoutedArguments)
    : Takes parse table (.register arguments) (table.register arguments) []
  | send {index : Nat} {call : PendingCall} (found : table.calls[index]? = some call)
      (phase : call.phase = .registered)
    : Takes parse table (.send index) (table.advance index .waiting)
      [.sent call.request.destinationNode call.request.destinationLeaf call.request]
  | wake {index : Nat} {call : PendingCall} (found : table.calls[index]? = some call)
      (phase : call.phase = .waiting) (done : call.slot.done = true)
    : Takes parse table (.wake index) (table.advance index .returned)
      [
        .answered index call.slot.response,
        .returned index (conclude parse call.request.endpointId call.slot.response).1
          (conclude parse call.request.endpointId call.slot.response).2
      ]
  | timeOut {index : Nat} {call : PendingCall} (found : table.calls[index]? = some call)
      (phase : call.phase = .waiting) (empty : call.slot.done = false)
    : Takes parse table (.timeOut index) (table.advance index .timedOut) []
  | giveUp {index : Nat} {call : PendingCall} (found : table.calls[index]? = some call)
      (phase : call.phase = .timedOut)
    : Takes parse table (.giveUp index)
      { table.advance index .returned with pending := table.pending.erase call.request.requestId }
      [.returned index timeoutStatus none]
  | receive (response : RoutedResponse)
    : Takes parse table (.receive response) (table.receive response) []
  | complete {position index : Nat} {response : RoutedResponse}
      (waits : table.matched[position]? = some (index, response))
    : Takes parse table (.complete position) (table.complete position index response) []

theorem takes_of_step (taken : table.step parse event = .ok (after, outputs))
    : Takes parse table event after outputs := by
  cases event with
  | register arguments =>
      cases taken
      exact .register arguments
  | receive response =>
      cases taken
      exact .receive response
  | complete position =>
      rw [step] at taken
      split at taken
      · rename_i index response waits
        split at taken
        · cases taken
        · cases taken
          exact .complete waits
      · cases taken
  | send index =>
      rw [step] at taken
      split at taken
      · split at taken
        · rename_i call found phase
          cases taken
          exact .send found phase
        · cases taken
      · cases taken
  | wake index =>
      rw [step] at taken
      split at taken
      · split at taken
        · rename_i call found ready
          cases taken
          exact .wake found ready.1 ready.2
        · cases taken
      · cases taken
  | timeOut index =>
      rw [step] at taken
      split at taken
      · split at taken
        · rename_i call found ready
          cases taken
          exact .timeOut found ready.1 (by simpa using ready.2)
        · cases taken
      · cases taken
  | giveUp index =>
      rw [step] at taken
      split at taken
      · split at taken
        · rename_i call found phase
          cases taken
          exact .giveUp found phase
        · cases taken
      · cases taken

theorem ids_modify {calls : List PendingCall} {index : Nat} {change : PendingCall → PendingCall}
    (same : ∀ call, (change call).request = call.request)
    : (calls.modify index change).map (fun call => call.request.requestId) =
      calls.map fun call => call.request.requestId := by
  refine List.ext_getElem? fun other => ?_
  rw [List.getElem?_map, List.getElem?_map, List.getElem?_modify]
  cases calls[other]? with
  | none => rfl
  | some call =>
      by_cases own : index = other
      · simp [own, same]
      · simp [own]

/-- Whether an id is unanswered changes with registrations and arrivals alone. -/
theorem unanswered_append {stage : Stage PendingCalls CallEvent CallOutput} {requestId : Bytes}
    : Unanswered (history ++ [stage]) requestId
      ↔ Registers requestId stage ∨ Unanswered history requestId ∧ ¬Arrives requestId stage :=
  since_append

theorem timedOut_append {stage : Stage PendingCalls CallEvent CallOutput} {index : Nat}
    : TimedOut (history ++ [stage]) index ↔ TimedOut history index ∨ stage.event = .timeOut index := by
  simp [TimedOut, or_and_right, exists_or]

-- What holds of each call

/-- What the history says about a call, and the call about the history. -/
structure CallKept (parse : Bytes → Option HelloReply) (history : CallHistory) (index : Nat)
    (call : PendingCall)
    : Prop where
  filled : call.slot.done = true
    → call.slot.response ∈ receivedIn history
      ∧ call.slot.response.requestId = call.request.requestId
      ∧ ¬Unanswered history call.request.requestId
  answered : ∀ response, (index, response) ∈ answersIn history
    → call.phase = .returned
      ∧ response ∈ receivedIn history
      ∧ response.requestId = call.request.requestId
  returned : ∀ status reply, .returned index status reply ∈ emitted history
    → call.phase = .returned
      ∧ ((∃ response, (index, response) ∈ answersIn history
          ∧ (status, reply) = conclude parse call.request.endpointId response)
        ∨ (∀ response, (index, response) ∉ answersIn history)
          ∧ status = timeoutStatus
          ∧ reply = none)
  timedOut : TimedOut history index
    → (call.phase = .timedOut ∨ call.phase = .returned)
      ∧ ∀ response, (index, response) ∉ answersIn history

/-- A step that puts out nothing for a call keeps what holds of it. -/
theorem CallKept.frame {stage : Stage PendingCalls CallEvent CallOutput} {index : Nat}
    {call later : PendingCall} (kept : CallKept parse history index call)
    (unanswered : ∀ response, (index, response) ∉ answersIn [stage])
    (unreturned : ∀ status reply, .returned index status reply ∉ stage.outputs)
    (inTime : stage.event ≠ .timeOut index)
    (unregistered : ¬Registers call.request.requestId stage)
    (request : later.request = call.request) (slot : later.slot = call.slot)
    (returned : call.phase = .returned → later.phase = .returned)
    (timedOut : call.phase = .timedOut → later.phase = .timedOut)
    : CallKept parse (history ++ [stage]) index later := by
  have answers : ∀ response, (index, response) ∈ answersIn (history ++ [stage])
      ↔ (index, response) ∈ answersIn history := by
    intro response
    rw [answersIn_append, List.mem_append]
    exact or_iff_left (unanswered response)
  have returns : ∀ status reply, .returned index status reply ∈ emitted (history ++ [stage])
      ↔ .returned index status reply ∈ emitted history := by
    intro status reply
    rw [emitted_append, emitted_singleton, List.mem_append]
    exact or_iff_left (unreturned status reply)
  have received : ∀ response ∈ receivedIn history, response ∈ receivedIn (history ++ [stage]) := by
    intro response member
    rw [receivedIn_append]
    exact List.mem_append_left _ member
  refine ⟨?_, ?_, ?_, ?_⟩
  · rw [slot, request]
    intro done
    obtain ⟨arrived, same, before⟩ := kept.filled done
    refine ⟨received _ arrived, same, ?_⟩
    rw [unanswered_append]
    exact not_or.mpr ⟨unregistered, fun still => before still.1⟩
  · intro response member
    obtain ⟨phase, arrived, same⟩ := kept.answered response ((answers response).mp member)
    exact ⟨returned phase, received _ arrived, request ▸ same⟩
  · intro status reply member
    obtain ⟨phase, result⟩ := kept.returned status reply ((returns status reply).mp member)
    refine ⟨returned phase, ?_⟩
    simp only [answers, request]
    exact result
  · intro expired
    rw [timedOut_append] at expired
    obtain ⟨phase, never⟩ := kept.timedOut (expired.resolve_right inTime)
    simp only [answers]
    exact ⟨phase.imp timedOut returned, never⟩

/-- The history mentions a call. -/
def Mentions (history : CallHistory) (index : Nat) : Prop :=
  (∃ response, (index, response) ∈ answersIn history)
  ∨ (∃ status reply, .returned index status reply ∈ emitted history)
  ∨ TimedOut history index

/-- What every step keeps. -/
structure Kept (parse : Bytes → Option HelloReply) (history : CallHistory) (table : PendingCalls)
    : Prop where
  ids : (table.calls.map fun call => call.request.requestId).Nodup
  listed : ∀ requestId index, table.pending[requestId]? = some index
    ↔ ∃ call, table.calls[index]? = some call
      ∧ call.request.requestId = requestId
      ∧ call.phase ≠ .returned
      ∧ Unanswered history requestId
  each : ∀ index call, table.calls[index]? = some call → CallKept parse history index call
  matched : ∀ index response, (index, response) ∈ table.matched
    → response ∈ receivedIn history
      ∧ ¬Unanswered history response.requestId
      ∧ ∃ call, table.calls[index]? = some call ∧ response.requestId = call.request.requestId
  single : ((answersIn history).map Prod.fst).Nodup
  known : ∀ index, Mentions history index → index < table.calls.length

theorem Kept.same_call (kept : Kept parse history table) {index other : Nat} {call call' : PendingCall}
    (found : table.calls[index]? = some call) (found' : table.calls[other]? = some call')
    (same : call.request.requestId = call'.request.requestId)
    : index = other := by
  have bound := (List.getElem?_eq_some_iff.mp found).1
  refine (List.getElem?_inj (by simpa using bound) kept.ids).mp ?_
  rw [List.getElem?_map, List.getElem?_map, found, found']
  exact congrArg some same

/-- A response that arrives is matched to the call under its id. -/
theorem Kept.receive {stage : Stage PendingCalls CallEvent CallOutput} (kept : Kept parse history table)
    {response : RoutedResponse} (event : stage.event = .receive response) (outputs : stage.outputs = [])
    : Kept parse (history ++ [stage]) (table.receive response) := by
  have unregistered : ∀ requestId, ¬Registers requestId stage := by
    rintro requestId ⟨arguments, registers, -⟩
    cases event.symm.trans registers
  have arrives : ∀ requestId, Arrives requestId stage ↔ response.requestId = requestId := by
    intro requestId
    simp [Arrives, event]
  have calls : (table.receive response).calls = table.calls := by
    unfold PendingCalls.receive
    split <;> rfl
  have answers : answersIn [stage] = [] := by simp [answersIn, outputs]
  have received : receivedIn (history ++ [stage]) = receivedIn history ++ [response] := by
    simp [receivedIn, event]
  have unanswered : ∀ requestId, Unanswered (history ++ [stage]) requestId
      ↔ Unanswered history requestId ∧ response.requestId ≠ requestId := by
    intro requestId
    rw [unanswered_append, arrives]
    exact or_iff_right (unregistered requestId)
  refine ⟨?_, ?_, ?_, ?_, ?_, ?_⟩
  · rw [calls]
    exact kept.ids
  · intro requestId index
    rw [calls]
    simp only [unanswered]
    by_cases own : response.requestId = requestId
    · -- whether it was there or not, the id is not in the table any more
      refine iff_of_false ?_ fun ⟨_, _, _, _, _, other⟩ => other own
      subst own
      unfold PendingCalls.receive
      split
      · rename_i missing
        simp [missing]
      · simp
    · have before := kept.listed requestId index
      have still : (table.receive response).pending[requestId]? = table.pending[requestId]? := by
        unfold PendingCalls.receive
        split
        · rfl
        · exact getElem?_erase_ne _ own
      rw [still, before]
      simp [own]
  · intro index call found
    rw [calls] at found
    refine (kept.each index call found).frame ?_ ?_ ?_ (unregistered _) rfl rfl id id
    · simp [answers]
    · simp [outputs]
    · simp [event]
  · intro index other member
    rw [received, calls, unanswered]
    unfold PendingCalls.receive at member
    split at member
    · obtain ⟨arrived, done, call⟩ := kept.matched index other member
      exact ⟨List.mem_append_left _ arrived, fun still => done still.1, call⟩
    · rename_i slot known
      rcases List.mem_append.mp member with earlier | last
      · obtain ⟨arrived, done, call⟩ := kept.matched index other earlier
        exact ⟨List.mem_append_left _ arrived, fun still => done still.1, call⟩
      · obtain ⟨rfl, rfl⟩ := Prod.ext_iff.mp (List.mem_singleton.mp last)
        obtain ⟨call, found, same, -⟩ := (kept.listed _ _).mp known
        exact ⟨List.mem_append_right _ List.mem_cons_self, fun still => still.2 rfl, call, found,
          same.symm⟩
  · rw [answersIn_append, answers, List.append_nil]
    exact kept.single
  · intro index mentions
    rw [calls]
    refine kept.known index ?_
    simpa [Mentions, answers, outputs, timedOut_append, event] using mentions

theorem Kept.register {stage : Stage PendingCalls CallEvent CallOutput} (kept : Kept parse history table)
    {arguments : RoutedArguments} (event : stage.event = .register arguments)
    (outputs : stage.outputs = [])
    (fresh : ∀ call ∈ table.calls, call.request.requestId ≠ arguments.requestId)
    : Kept parse (history ++ [stage]) (table.register arguments) := by
  have registers : ∀ requestId, Registers requestId stage ↔ arguments.requestId = requestId := by
    intro requestId
    simp [Registers, event]
  have absent : ∀ requestId, ¬Arrives requestId stage := by
    rintro requestId ⟨response, arrives, -⟩
    cases event.symm.trans arrives
  have answers : answersIn [stage] = [] := by simp [answersIn, outputs]
  have received : receivedIn (history ++ [stage]) = receivedIn history := by
    simp [receivedIn, event]
  have unanswered : ∀ requestId, Unanswered (history ++ [stage]) requestId
      ↔ arguments.requestId = requestId ∨ Unanswered history requestId := by
    intro requestId
    rw [unanswered_append, registers]
    simp [absent]
  have found : ∀ index call, (table.register arguments).calls[index]? = some call
      ↔ table.calls[index]? = some call
        ∨ index = table.calls.length ∧ call = { request := arguments.request } := by
    intro index call
    rw [PendingCalls.register, List.getElem?_append]
    split
    · rename_i inside
      simp [Nat.ne_of_lt inside]
    · rename_i outside
      rw [List.getElem?_eq_none (Nat.le_of_not_lt outside), List.getElem?_singleton]
      by_cases last : index - table.calls.length = 0
      · simp [show index = table.calls.length by omega, eq_comm]
      · simp [last, show index ≠ table.calls.length by omega]
  have unmentioned : ¬Mentions history table.calls.length :=
    fun mentions => absurd (kept.known _ mentions) (Nat.lt_irrefl _)
  refine ⟨?_, ?_, ?_, ?_, ?_, ?_⟩
  · rw [PendingCalls.register, List.map_append, List.nodup_append']
    refine ⟨kept.ids, List.nodup_singleton _, ?_⟩
    simpa [RoutedArguments.request] using fresh
  · intro requestId index
    simp only [found, unanswered]
    by_cases own : arguments.requestId = requestId
    · subst own
      rw [PendingCalls.register, Std.TreeMap.getElem?_insert_self]
      constructor
      · intro same
        obtain rfl := Option.some.inj same
        exact ⟨_, .inr ⟨rfl, rfl⟩, rfl, CallPhase.noConfusion, .inl rfl⟩
      · rintro ⟨call, earlier | ⟨rfl, -⟩, id, -⟩
        · exact absurd id (fresh call (List.mem_of_getElem? earlier))
        · rfl
    · rw [PendingCalls.register, getElem?_insert_ne _ _ own, kept.listed]
      refine exists_congr fun call => ⟨?_, ?_⟩
      · rintro ⟨earlier, id, phase, still⟩
        exact ⟨.inl earlier, id, phase, .inr still⟩
      · rintro ⟨earlier | ⟨-, rfl⟩, id, phase, now | still⟩
        · exact absurd now own
        · exact ⟨earlier, id, phase, still⟩
        · exact absurd now own
        · exact absurd id own
  · intro index call member
    rcases (found index call).mp member with earlier | ⟨rfl, rfl⟩
    · have other : ¬Registers call.request.requestId stage := by
        rw [registers]
        exact fun same => fresh call (List.mem_of_getElem? earlier) same.symm
      refine (kept.each index call earlier).frame ?_ ?_ ?_ other rfl rfl id id
      · simp [answers]
      · simp [outputs]
      · simp [event]
    · refine ⟨nofun, ?_, ?_, ?_⟩
      · intro response answered
        refine absurd (.inl ⟨response, ?_⟩) unmentioned
        simpa [answers] using answered
      · intro status reply returned
        refine absurd (.inr (.inl ⟨status, reply, ?_⟩)) unmentioned
        simpa [outputs] using returned
      · intro expired
        refine absurd (.inr (.inr ?_)) unmentioned
        simpa [timedOut_append, event] using expired
  · intro index response member
    obtain ⟨arrived, done, call, earlier, same⟩ := kept.matched index response member
    rw [received, unanswered]
    refine ⟨arrived, ?_, call, (found index call).mpr (.inl earlier), same⟩
    refine not_or.mpr ⟨fun id => ?_, done⟩
    exact fresh call (List.mem_of_getElem? earlier) (same.symm.trans id.symm)
  · rw [answersIn_append, answers, List.append_nil]
    exact kept.single
  · intro index mentions
    have before := kept.known index (by
      simpa [Mentions, answers, outputs, timedOut_append, event] using mentions)
    rw [PendingCalls.register, List.length_append]
    exact Nat.lt_add_right _ before

/-- A step of a caller, or of a receiver that fills its slot. -/
structure Concerns (stage : Stage PendingCalls CallEvent CallOutput) (index : Nat) : Prop where
  unregistered : ∀ requestId, ¬Registers requestId stage
  absent : ∀ requestId, ¬Arrives requestId stage
  answered : ∀ other response, (other, response) ∈ answersIn [stage] → other = index
  returned : ∀ other status reply, .returned other status reply ∈ stage.outputs → other = index
  expired : ∀ other, stage.event = .timeOut other → other = index

theorem Kept.move {stage : Stage PendingCalls CallEvent CallOutput} (kept : Kept parse history table)
    {index : Nat} {call : PendingCall} (change : PendingCall → PendingCall)
    (found : table.calls[index]? = some call) (request : ∀ call, (change call).request = call.request)
    (concerns : Concerns stage index)
    (calls : after.calls = table.calls.modify index change)
    (matched : ∀ entry ∈ after.matched, entry ∈ table.matched)
    (phase : (change call).phase ≠ .returned → call.phase ≠ .returned)
    (pending : ∀ (requestId : Bytes) other, after.pending[requestId]? = some other
      ↔ table.pending[requestId]? = some other ∧ (other = index → (change call).phase ≠ .returned))
    (this : CallKept parse (history ++ [stage]) index (change call))
    (single : ((answersIn (history ++ [stage])).map Prod.fst).Nodup)
    : Kept parse (history ++ [stage]) after := by
  obtain ⟨unregistered, absent, answered, returned, expired⟩ := concerns
  have lookup : ∀ other, after.calls[other]? =
      if other = index then some (change call) else table.calls[other]? := by
    intro other
    rw [calls]
    exact getElem?_modify_of_some change found
  have unanswered : ∀ requestId, Unanswered (history ++ [stage]) requestId
      ↔ Unanswered history requestId := by
    intro requestId
    rw [unanswered_append]
    simp [unregistered, absent]
  refine ⟨?_, ?_, ?_, ?_, single, ?_⟩
  · rw [calls, ids_modify request]
    exact kept.ids
  · intro requestId other
    rw [pending, kept.listed, lookup, unanswered]
    by_cases own : other = index
    · subst own
      rw [if_pos rfl, found]
      constructor
      · rintro ⟨⟨_, same, id, -, still⟩, stays⟩
        obtain rfl := Option.some.inj same
        exact ⟨_, rfl, (congrArg _ (request _)).trans id, stays rfl, still⟩
      · rintro ⟨_, same, id, stays, still⟩
        obtain rfl := Option.some.inj same
        exact ⟨⟨_, rfl, (congrArg _ (request _)).symm.trans id, phase stays, still⟩, fun _ => stays⟩
    · rw [if_neg own]
      exact and_iff_left fun same => absurd same own
  · intro other later
    rw [lookup]
    split
    · rename_i own
      intro same
      rw [own, ← Option.some.inj same]
      exact this
    · rename_i other_ne
      intro earlier
      refine (kept.each other later earlier).frame ?_ ?_ ?_ (unregistered _) rfl rfl id id
      · exact fun response member => other_ne (answered other response member)
      · exact fun status reply member => other_ne (returned other status reply member)
      · exact fun same => other_ne (expired other same)
  · rintro other response member
    obtain ⟨arrived, done, before, earlier, same⟩ := kept.matched other response (matched _ member)
    rw [unanswered, lookup, receivedIn_append]
    refine ⟨List.mem_append_left _ arrived, done, ?_⟩
    split
    · rename_i own
      rw [own, found] at earlier
      obtain rfl := Option.some.inj earlier
      exact ⟨_, rfl, same.trans (congrArg _ (request _)).symm⟩
    · exact ⟨before, earlier, same⟩
  · intro other mentions
    rw [calls, List.length_modify]
    have inside := (List.getElem?_eq_some_iff.mp found).1
    rcases mentions with ⟨response, member⟩ | ⟨status, reply, member⟩ | timedOut
    · rw [answersIn_append, List.mem_append] at member
      rcases member with earlier | now
      · exact kept.known other (.inl ⟨response, earlier⟩)
      · exact answered other response now ▸ inside
    · rw [emitted_append, emitted_singleton, List.mem_append] at member
      rcases member with earlier | now
      · exact kept.known other (.inr (.inl ⟨status, reply, earlier⟩))
      · exact returned other status reply now ▸ inside
    · rw [timedOut_append] at timedOut
      rcases timedOut with earlier | now
      · exact kept.known other (.inr (.inr earlier))
      · exact expired other now ▸ inside

/-- A call that has not returned has neither been answered nor returned anything. -/
theorem CallKept.unreturned {index : Nat} {call : PendingCall} (kept : CallKept parse history index call)
    (phase : call.phase ≠ .returned)
    : (∀ response, (index, response) ∉ answersIn history)
      ∧ ∀ status reply, .returned index status reply ∉ emitted history :=
  ⟨fun response member => phase (kept.answered response member).1,
    fun status reply member => phase (kept.returned status reply member).1⟩

theorem Kept.pending_iff {index : Nat} {call : PendingCall} (kept : Kept parse history table)
    (found : table.calls[index]? = some call) (requestId : Bytes) (other : Nat)
    : table.pending[requestId]? = some other
      ↔ table.pending[requestId]? = some other ∧ (other = index → call.phase ≠ .returned) := by
  refine ⟨fun known => ⟨known, ?_⟩, And.left⟩
  rintro rfl
  obtain ⟨call', found', -, phase, -⟩ := (kept.listed requestId other).mp known
  obtain rfl := Option.some.inj (found.symm.trans found')
  exact phase

section

variable {stage : Stage PendingCalls CallEvent CallOutput} {index : Nat} {call : PendingCall}

theorem Kept.send (kept : Kept parse history table) (found : table.calls[index]? = some call)
    (phase : call.phase = .registered) (event : stage.event = .send index)
    (outputs : stage.outputs =
      [.sent call.request.destinationNode call.request.destinationLeaf call.request])
    : Kept parse (history ++ [stage]) (table.advance index .waiting) := by
  have concerns : Concerns stage index := by
    constructor <;> simp [Registers, Arrives, answersIn, event, outputs]
  refine kept.move (fun call => { call with phase := .waiting }) found (fun _ => rfl) concerns rfl
    (fun _ member => member) ?_ ?_ ?_ ?_
  · simp [phase]
  · intro requestId other
    refine (kept.pending_iff found requestId other).trans ?_
    simp [phase]
  · refine (kept.each index call found).frame ?_ ?_ ?_ (concerns.unregistered _) rfl rfl ?_ ?_
    · simp [answersIn, outputs]
    · simp [outputs]
    · simp [event]
    · simp [phase]
    · simp [phase]
  · simpa [answersIn, outputs] using kept.single

/-- A call whose slot is done returns what it makes of the response. -/
theorem Kept.wake (kept : Kept parse history table) (found : table.calls[index]? = some call)
    (phase : call.phase = .waiting) (done : call.slot.done = true) (event : stage.event = .wake index)
    (outputs : stage.outputs =
      [
        .answered index call.slot.response,
        .returned index (conclude parse call.request.endpointId call.slot.response).1
          (conclude parse call.request.endpointId call.slot.response).2
      ])
    : Kept parse (history ++ [stage]) (table.advance index .returned) := by
  have concerns : Concerns stage index := by
    constructor <;> simp [Registers, Arrives, answersIn, event, outputs]
    rintro other status reply rfl - -
    rfl
  have before := kept.each index call found
  obtain ⟨arrived, same, answered⟩ := before.filled done
  obtain ⟨unanswered, unreturned⟩ := before.unreturned (by simp [phase])
  have answers : answersIn (history ++ [stage]) =
      answersIn history ++ [(index, call.slot.response)] := by
    simp [answersIn, outputs]
  have received : receivedIn (history ++ [stage]) = receivedIn history := by
    simp [receivedIn, event]
  refine kept.move (fun call => { call with phase := .returned }) found (fun _ => rfl) concerns rfl
    (fun _ member => member) (by simp) ?_ ?_ ?_
  · intro requestId other
    refine ⟨fun known => ⟨known, ?_⟩, And.left⟩
    rintro rfl
    obtain ⟨call', found', rfl, -, still⟩ := (kept.listed requestId other).mp known
    obtain rfl := Option.some.inj (found.symm.trans found')
    exact absurd still answered
  · refine ⟨?_, ?_, ?_, ?_⟩
    · intro _
      rw [received, unanswered_append]
      refine ⟨arrived, same, not_or.mpr ⟨concerns.unregistered _, fun still => answered still.1⟩⟩
    · intro response member
      rw [answers, List.mem_append] at member
      rw [received]
      rcases member with earlier | now
      · exact absurd earlier (unanswered response)
      · obtain rfl := (Prod.ext_iff.mp (List.mem_singleton.mp now)).2
        exact ⟨rfl, arrived, same⟩
    · intro status reply member
      rw [emitted_append, emitted_singleton, List.mem_append] at member
      rcases member with earlier | now
      · exact absurd earlier (unreturned status reply)
      · refine ⟨rfl, .inl ⟨call.slot.response, ?_, ?_⟩⟩
        · rw [answers]
          exact List.mem_append_right _ List.mem_cons_self
        · rw [outputs] at now
          simp only [List.mem_cons, reduceCtorEq, CallOutput.returned.injEq, true_and,
            List.not_mem_nil, or_false, false_or] at now
          exact Prod.ext now.1 now.2
    · intro expired
      rw [timedOut_append] at expired
      have early := expired.resolve_right (by simp [event])
      rcases (before.timedOut early).1 with held | gone
      · cases phase.symm.trans held
      · cases phase.symm.trans gone
  · rw [answers, List.map_append, List.nodup_append']
    refine ⟨kept.single, List.nodup_singleton _, ?_⟩
    simpa using unanswered

theorem Kept.timeOut (kept : Kept parse history table) (found : table.calls[index]? = some call)
    (phase : call.phase = .waiting) (empty : call.slot.done = false)
    (event : stage.event = .timeOut index) (outputs : stage.outputs = [])
    : Kept parse (history ++ [stage]) (table.advance index .timedOut) := by
  have concerns : Concerns stage index := by
    constructor <;> simp [Registers, Arrives, answersIn, event, outputs, eq_comm]
  obtain ⟨unanswered, unreturned⟩ := (kept.each index call found).unreturned (by simp [phase])
  have answers : answersIn (history ++ [stage]) = answersIn history := by
    simp [answersIn, outputs]
  refine kept.move (fun call => { call with phase := .timedOut }) found (fun _ => rfl) concerns rfl
    (fun _ member => member) ?_ ?_ ?_ ?_
  · simp [phase]
  · intro requestId other
    refine (kept.pending_iff found requestId other).trans ?_
    simp [phase]
  · refine ⟨?_, ?_, ?_, ?_⟩
    · intro done
      cases empty.symm.trans done
    · intro response member
      exact absurd (answers ▸ member) (unanswered response)
    · intro status reply member
      rw [emitted_append, emitted_singleton, outputs, List.append_nil] at member
      exact absurd member (unreturned status reply)
    · intro _
      rw [answers]
      exact ⟨.inl rfl, unanswered⟩
  · rw [answers]
    exact kept.single

/-- A call that has timed out removes itself from the table and returns. -/
theorem Kept.giveUp (kept : Kept parse history table) (found : table.calls[index]? = some call)
    (phase : call.phase = .timedOut) (event : stage.event = .giveUp index)
    (outputs : stage.outputs = [.returned index timeoutStatus none])
    : Kept parse (history ++ [stage])
      { table.advance index .returned with pending := table.pending.erase call.request.requestId } := by
  have concerns : Concerns stage index := by
    constructor <;> simp [Registers, Arrives, answersIn, event, outputs]
    rintro other status reply rfl - -
    rfl
  have before := kept.each index call found
  obtain ⟨unanswered, unreturned⟩ := before.unreturned (by simp [phase])
  have answers : answersIn (history ++ [stage]) = answersIn history := by
    simp [answersIn, outputs]
  have received : receivedIn (history ++ [stage]) = receivedIn history := by
    simp [receivedIn, event]
  refine kept.move (fun call => { call with phase := .returned }) found (fun _ => rfl) concerns rfl
    (fun _ member => member) (by simp) ?_ ?_ ?_
  · intro requestId other
    by_cases own : call.request.requestId = requestId
    · subst own
      rw [Std.TreeMap.getElem?_erase_self]
      refine iff_of_false (by simp) ?_
      rintro ⟨known, elsewhere⟩
      obtain ⟨call', found', same, -⟩ := (kept.listed _ other).mp known
      exact elsewhere (kept.same_call found' found same) rfl
    · rw [getElem?_erase_ne _ own]
      refine ⟨fun known => ⟨known, ?_⟩, And.left⟩
      rintro rfl
      obtain ⟨call', found', same, -⟩ := (kept.listed requestId other).mp known
      obtain rfl := Option.some.inj (found.symm.trans found')
      exact absurd same own
  · refine ⟨?_, ?_, ?_, ?_⟩
    · intro done
      obtain ⟨arrived, same, answered⟩ := before.filled done
      rw [received, unanswered_append]
      refine ⟨arrived, same, not_or.mpr ⟨concerns.unregistered _, fun still => answered still.1⟩⟩
    · intro response member
      exact absurd (answers ▸ member) (unanswered response)
    · intro status reply member
      rw [emitted_append, emitted_singleton, List.mem_append] at member
      rcases member with earlier | now
      · exact absurd earlier (unreturned status reply)
      · rw [outputs] at now
        simp only [List.mem_singleton, CallOutput.returned.injEq, true_and] at now
        rw [answers]
        exact ⟨rfl, .inr ⟨unanswered, now⟩⟩
    · intro _
      rw [answers]
      exact ⟨.inr rfl, unanswered⟩
  · rw [answers]
    exact kept.single

theorem Kept.complete (kept : Kept parse history table) {position : Nat} {response : RoutedResponse}
    (waits : table.matched[position]? = some (index, response))
    (event : stage.event = .complete position) (outputs : stage.outputs = [])
    : Kept parse (history ++ [stage]) (table.complete position index response) := by
  obtain ⟨arrived, answered, call, found, same⟩ :=
    kept.matched index response (List.mem_of_getElem? waits)
  have concerns : Concerns stage index := by
    constructor <;> simp [Registers, Arrives, answersIn, event, outputs]
  have still : CallKept parse (history ++ [stage]) index call := by
    refine (kept.each index call found).frame ?_ ?_ ?_ (concerns.unregistered _) rfl rfl id id
    · simp [answersIn, outputs]
    · simp [outputs]
    · simp [event]
  have pending := kept.pending_iff found
  refine kept.move
    (fun call => { call with slot := { done := true, response := response } }) found (fun _ => rfl)
    concerns rfl (fun _ member => List.mem_of_mem_eraseIdx member) id ?_ ?_ ?_
  · exact pending
  · refine ⟨fun _ => ?_, still.answered, still.returned, still.timedOut⟩
    rw [receivedIn_append, unanswered_append]
    refine ⟨List.mem_append_left _ arrived, same, ?_⟩
    exact not_or.mpr ⟨concerns.unregistered _, fun now => answered (same ▸ now.1)⟩
  · simpa [answersIn, outputs] using kept.single

end

theorem Kept.step (kept : Kept parse history table) (distinct : DistinctIds history table event)
    (taken : table.step parse event = .ok (after, outputs))
    : Kept parse (history ++ [{ before := table, event, outputs }]) after := by
  cases takes_of_step taken with
  | register arguments => exact kept.register rfl rfl (distinct arguments rfl)
  | send found phase => exact kept.send found phase rfl rfl
  | wake found phase done => exact kept.wake found phase done rfl rfl
  | timeOut found phase empty => exact kept.timeOut found phase empty rfl rfl
  | giveUp found phase => exact kept.giveUp found phase rfl rfl
  | receive response => exact kept.receive rfl rfl
  | complete waits => exact kept.complete waits rfl rfl

-- Runs

variable {last : PendingCalls}

theorem run_kept (run : Run (step parse) DistinctIds {} history last) : Kept parse history last := by
  refine run.invariant (fun history table => Kept parse history table) ?_ ?_
  · refine ⟨List.nodup_nil, ?_, nofun, nofun, List.nodup_nil, ?_⟩
    · intro requestId index
      simp
    · rintro index (⟨response, member⟩ | ⟨status, reply, member⟩ | ⟨stage, member, -⟩) <;> cases member
  · intro history table event after outputs _ kept distinct taken
    exact kept.step distinct taken

theorem Kept.holds (kept : Kept parse history table)
    : Holds [.registered, .waiting, .timedOut] history table := by
  intro requestId
  rw [← Std.TreeMap.isSome_getElem?_iff_mem, Option.isSome_iff_exists]
  simp only [kept.listed]
  have live : ∀ phase : CallPhase,
      phase ≠ .returned ↔ phase ∈ [CallPhase.registered, .waiting, .timedOut] := by
    intro phase
    cases phase <;> simp
  constructor
  · rintro ⟨index, call, found, id, phase, still⟩
    exact ⟨call, List.mem_of_getElem? found, id, (live _).mp phase, still⟩
  · rintro ⟨call, member, id, phase, still⟩
    obtain ⟨index, found⟩ := List.getElem?_of_mem member
    exact ⟨index, call, found, id, (live _).mpr phase, still⟩

/-- A conclusion of OK is drawn from a response with the status 0 whose body can be read. -/
theorem conclude_ok {endpointId : Bytes} {response : RoutedResponse} {status : Status}
    {reply : Option HelloReply} (result : (status, reply) = conclude parse endpointId response)
    (ok : status.code = 0)
    : response.status = 0
      ∧ ∃ parsed, parse response.body = some parsed
        ∧ reply = some { parsed with backendId := endpointId } := by
  unfold conclude at result
  split at result
  · rename_i zero
    split at result
    · obtain ⟨rfl, -⟩ := Prod.ext_iff.mp result
      cases ok
    · rename_i parsed read
      obtain ⟨-, rfl⟩ := Prod.ext_iff.mp result
      exact ⟨zero, parsed, read, rfl⟩
  · rename_i failed
    obtain ⟨rfl, -⟩ := Prod.ext_iff.mp result
    dsimp only at ok
    split at ok
    · exact absurd ok failed
    · cases ok

/-- Responses and calls are matched whatever the order of the steps. -/
theorem Kept.toMatched (kept : Kept parse history table) : Matched parse history table := by
  have answered : ∀ index response, (index, response) ∈ answersIn history
      → ∃ call, table.calls[index]? = some call
        ∧ response ∈ receivedIn history
        ∧ response.requestId = call.request.requestId := by
    intro index response member
    have inside := kept.known index (.inl ⟨response, member⟩)
    have found := List.getElem?_eq_getElem inside
    obtain ⟨-, arrived, same⟩ := (kept.each index _ found).answered response member
    exact ⟨_, found, arrived, same⟩
  refine ⟨?_, ?_, kept.single, ?_⟩
  · intro index status reply member ok
    have inside := kept.known index (.inr (.inl ⟨status, reply, member⟩))
    have found := List.getElem?_eq_getElem inside
    obtain ⟨-, ⟨response, given, result⟩ | ⟨-, rfl, -⟩⟩ :=
      (kept.each index _ found).returned status reply member
    · obtain ⟨zero, parsed, read, replied⟩ := conclude_ok result ok
      obtain ⟨call, found', -, same⟩ := answered index response given
      obtain rfl := Option.some.inj (found.symm.trans found')
      exact ⟨_, response, parsed, found, given, same, zero, read, replied⟩
    · cases ok
  · -- the calls that were answered are distinct, and so are their ids and with them the responses
    refine List.subperm_of_subset ?_ ?_
    · refine (List.nodup_map_iff_inj_on kept.single.of_map).mpr ?_
      rintro ⟨index, response⟩ member ⟨other, response'⟩ member' same
      obtain rfl : response = response' := same
      obtain ⟨call, found, -, id⟩ := answered index response member
      obtain ⟨call', found', -, id'⟩ := answered other response member'
      exact Prod.ext (kept.same_call found found' (id.symm.trans id')) rfl
    · intro response member
      obtain ⟨⟨index, response⟩, given, rfl⟩ := List.mem_map.mp member
      exact (answered index response given).choose_spec.2.1
  · intro index expired
    have inside := kept.known index (.inr (.inr expired))
    have each := kept.each index _ (List.getElem?_eq_getElem inside)
    obtain ⟨-, never⟩ := each.timedOut expired
    refine ⟨?_, ?_⟩
    · intro member
      obtain ⟨⟨other, response⟩, given, rfl⟩ := List.mem_map.mp member
      exact never response given
    · intro status reply member
      rcases (each.returned status reply member).2 with ⟨response, given, -⟩ | ⟨-, result⟩
      · exact absurd given (never response)
      · exact result

/-- In every run of callers and receivers, in every state, responses and calls are matched, and the table
holds the ids of the calls for which no response has arrived and that have not returned: those that
wait, and those that have timed out and not removed themselves yet.
-/
theorem responses_matched (run : Run (step parse) DistinctIds {} history last)
    : Throughout (fun history table => Matched parse history table
        ∧ Holds [.registered, .waiting, .timedOut] history table) history last := by
  refine run.throughout fun history table run => ?_
  have kept := run_kept run
  exact ⟨kept.toMatched, kept.holds⟩

/-- Two calls; the response for the first finds it timed out, the second is answered, and what comes
later finds no call.
-/
def crossed : List CallEvent :=
  [
    .register { requestId := [1], endpoint := { endpointId := [5] } },
    .register { requestId := [2], endpoint := { endpointId := [6] } },
    .send 0,
    .send 1,
    .timeOut 0,
    .receive { requestId := [1], body := [7] },
    .receive { requestId := [2], body := [8] },
    .receive { requestId := [2], body := [9] },
    .complete 1,
    .wake 1,
    .giveUp 0,
    .complete 0
  ]

instance (history : CallHistory) (table : PendingCalls) (event : CallEvent)
    : Decidable (DistinctIds history table event) :=
  match event with
  | .register arguments =>
      decidable_of_iff (∀ call ∈ table.calls, call.request.requestId ≠ arguments.requestId)
        ⟨fun fresh _ same => CallEvent.register.inj same ▸ fresh, fun fresh => fresh arguments rfl⟩
  | .send _ | .wake _ | .timeOut _ | .giveUp _ | .receive _ | .complete _ => isTrue nofun

theorem responses_matched_crossed
    : ∃ history last,
        Run (step fun body => some { message := body }) DistinctIds {} history last
        ∧ answersIn history = [(1, { requestId := [2], body := [8] })]
        ∧ Throughout (fun history table => Matched (fun body => some { message := body }) history table
          ∧ Holds [.registered, .waiting, .timedOut] history table) history last := by
  have shown : shows (step fun body => some { message := body }) {} crossed (fun history =>
      audit (fun front before event => decide (DistinctIds front before event)) [] history
      && answersIn history = [(1, { requestId := [2], body := [8] })]) = true := by
    decide +kernel
  obtain ⟨history, last, run, both⟩ := Run.of_shows shown
  obtain ⟨passes, answers⟩ := Bool.and_eq_true_iff.mp both
  have distinct := run.of_audit (fun _ _ _ => of_decide_eq_true) passes
  exact ⟨history, last, distinct, of_decide_eq_true answers, responses_matched distinct⟩

/-- The run of `timed_out_still_pending`: before its last step the call has timed out and is in the table. -/
def endsTimedOut (history : CallHistory) : Bool :=
  match history with
  | [_, _, _, gone] =>
      gone.before.pending.contains [1] && gone.before.calls.all fun call => call.phase = .timedOut
  | _ => false

/-- A call that has timed out is still in the table, although it waits no more. -/
theorem timed_out_still_pending
    : ¬ ∀ parse history last, Run (step parse) DistinctIds {} history last
        → Throughout (fun history table => Matched parse history table
          ∧ Holds [.registered, .waiting] history table) history last := by
  intro always
  have shown : shows (step fun _ => none) {}
      [.register { requestId := [1] }, .send 0, .timeOut 0, .giveUp 0]
      (fun history =>
        audit (fun front before event => decide (DistinctIds front before event)) [] history
        && endsTimedOut history) =
      true := by
    decide +kernel
  obtain ⟨history, last, run, both⟩ := Run.of_shows shown
  obtain ⟨passes, found⟩ := Bool.and_eq_true_iff.mp both
  have distinct := run.of_audit (fun _ _ _ => of_decide_eq_true) passes
  unfold endsTimedOut at found
  split at found
  · rename_i registered sent expired gone
    obtain ⟨pending, phases⟩ := Bool.and_eq_true_iff.mp found
    have holds := ((always _ _ last distinct).1 [registered, sent, expired] gone [] rfl).2
    obtain ⟨call, member, -, phase, -⟩ := (holds [1]).mp (Std.TreeMap.contains_iff_mem.mp pending)
    rw [of_decide_eq_true (List.all_eq_true.mp phases call member)] at phase
    simp at phase
  · cases found

end PendingCalls

end Creek.Leaf
