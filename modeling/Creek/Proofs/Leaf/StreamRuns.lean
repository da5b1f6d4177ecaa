import Creek.Proofs.Leaf.IngressMoves

/-! Runs of a stream that is not broken off: what the client has done, what the backend has sent,
what has been handed over and queued up, and what the mesh has carried.
-/

namespace Creek.Leaf

open Tight (Bytes)
open Mesh (RoutedStreamOpen RoutedStreamFrame WireMessage)
open Library

namespace StreamPath

/-- The stream has not been broken off: the call of the client goes on, no queue for a backend has
overflowed, and no close is on its way to the client.
-/
structure Intact (path : StreamPath) : Prop where
  live : ∃ stream, path.origin.ingress = some stream ∧ stream.Live
  room : ∀ side backend, path.backendAt side = some backend → backend.overflowLogged = false
  unclosed : ∀ close, .streamClose close ∉ path.inbound

/-- The event delivers, if anything, the oldest message, and to a leaf that has room for it. -/
def InOrder (event : PathEvent) : Prop :=
  ∀ side arrival index, event = .deliver side arrival index → index = 0 ∧ arrival.room = true

/-- The steps of a stream that has not been broken off, whose picks are as given: reads complete
that are under way, and the mesh delivers everything in order.
-/
structure Steady (picks : Surroundings → Prop) (_ : List PathStage) (path : StreamPath)
    (event : Surroundings × PathEvent)
    : Prop where
  intact : path.Intact
  picks : picks event.1
  reads : ∀ message, event.2 = .client (.read message)
    → ∃ stream, path.origin.ingress = some stream ∧ stream.readOutstanding = true
  ordered : InOrder event.2

/-- Whether the stream has not been broken off, as a check. -/
def isIntact (path : StreamPath) : Bool :=
  (path.origin.ingress.any fun stream => !stream.isOver && !stream.finishPending)
    && (path.origin.backend.all fun backend => !backend.overflowLogged)
    && (path.destination.backend.all fun backend => !backend.overflowLogged)
    && path.inbound.all fun message =>
      match message with
      | .streamClose _ => false
      | _ => true

theorem intact_of_check {path : StreamPath} (checked : path.isIntact = true) : path.Intact := by
  simp only [isIntact, Bool.and_eq_true] at checked
  obtain ⟨⟨⟨going, roomHere⟩, roomThere⟩, unclosed⟩ := checked
  refine ⟨?_, ?_, ?_⟩
  · obtain ⟨stream, held, live⟩ := (Option.any_eq_true _ _).mp going
    exact ⟨stream, held, by simpa [IngressStream.Live] using live⟩
  · intro side backend registered
    cases side with
    | origin =>
        rw [show path.origin.backend = some backend from registered] at roomHere
        simpa using roomHere
    | destination =>
        rw [show path.destination.backend = some backend from registered] at roomThere
        simpa using roomThere
  · intro close member
    cases List.all_eq_true.mp unclosed _ member

/-- Whether a step is steady, as a check. -/
def isSteady (here : Bool) (path : StreamPath) (event : Surroundings × PathEvent) : Bool :=
  path.isIntact
    && (match event.1.pick with
      | .refused _ => true
      | .picked endpoint _ => (endpoint.ownerLeaf == event.1.leafId) == here)
    && match event.2 with
      | .client (.read _) => path.origin.ingress.any (·.readOutstanding)
      | .deliver _ arrival index => index == 0 && arrival.room
      | _ => true

theorem steady_of_check {here : Bool} {picks : Surroundings → Prop}
    {history : List PathStage} {path : StreamPath} {event : Surroundings × PathEvent}
    (picked : ∀ around : Surroundings,
      (∀ endpoint created, around.pick = .picked endpoint created
        → (endpoint.ownerLeaf == around.leafId) = here)
      → picks around)
    (checked : path.isSteady here event = true)
    : path.Steady picks history event := by
  obtain ⟨around, event⟩ := event
  simp only [isSteady, Bool.and_eq_true] at checked
  obtain ⟨⟨intact, pick⟩, lawful⟩ := checked
  refine ⟨intact_of_check intact, picked around ?_, ?_, ?_⟩
  · intro endpoint created same
    rw [same] at pick
    simpa using pick
  · intro message same
    obtain rfl : event = .client (.read message) := same
    exact (Option.any_eq_true _ _).mp lawful
  · intro side arrival index same
    obtain rfl : event = .deliver side arrival index := same
    simpa using lawful

/-- Nothing is held back or in flight. -/
structure Complete (path : StreamPath) : Prop where
  intact : path.Intact
  arrived : path.outbound = []
  answered : path.inbound = []
  flushed : ∀ stream, path.origin.ingress = some stream → stream.buffered = []

/-- What the call to the backend has been handed, and what it has taken and hands over next. -/
def handedOver (history : List PathStage) (path : StreamPath) : List ClientCall :=
  handed (emitted history)
    ++ (path.origin.backend.toList ++ path.destination.backend.toList).flatMap BackendStream.waiting

/-- What has been queued to the client: written, or waiting to be. -/
def queuedUp (history : List PathStage) (path : StreamPath) : List Bytes :=
  delivered (emitted history) ++ path.origin.ingress.toList.flatMap IngressStream.writeQueue

end StreamPath

-- What the client does

/-- The reading side of a stream: what the client has done, and that its half-close is the last. -/
structure Reading (stream : IngressStream) (calls : List ClientCall) : Prop where
  attentive : stream.Attentive
  closed : .halfClose ∈ calls → stream.readOutstanding = false
  last : .halfClose ∉ calls.dropLast

theorem Reading.next {stream after : IngressStream} {calls : List ClientCall}
    {around : Surroundings} {event : IngressEvent} {actions : List IngressAction}
    (reading : Reading stream calls)
    (outstanding : ∀ message, event = .read message → stream.readOutstanding = true)
    (passes : stream.Passes around event after actions)
    : Reading after (calls ++ event.calls) := by
  have fresh : event.calls ≠ [] → .halfClose ∉ calls := by
    intro some member
    cases event with
    | read message =>
        cases (reading.closed member).symm.trans (outstanding message rfl)
    | _ => exact some rfl
  refine ⟨passes.attentive, ?_, ?_⟩
  · intro member
    rcases List.mem_append.mp member with earlier | new
    · by_contra still
      have before := passes.reading (by simpa using still)
      cases (reading.closed earlier).symm.trans before
    · exact passes.closed new
  · rcases none : event.calls with - | ⟨call, rest⟩
    · rw [List.append_nil]
      exact reading.last
    · have single : rest = [] := by
        cases event with
        | read message =>
            cases message <;> exact (List.cons.inj none).2.symm
        | _ => cases none
      rw [single, List.dropLast_concat]
      exact fresh (by simp [none])

-- What a slot does

namespace StreamSlot

variable {slot : StreamSlot} {stream : IngressStream} {around : Surroundings}

theorem onIngress_eq (held : slot.ingress = some stream) (event : IngressEvent)
    : slot.onIngress around event =
      { slot with ingress := some (stream.handle around event).1 }.performAll
        (stream.handle around event).2 := by
  rw [StreamSlot.onIngress, held]

theorem onIngress_ingress (held : slot.ingress = some stream) (event : IngressEvent)
    : (slot.onIngress around event).1.ingress = some (stream.handle around event).1 := by
  rw [onIngress_eq held]
  exact (StreamSlot.performAll_frame _ _).1

theorem sweep_live {slot : StreamSlot} {stream : IngressStream} (held : slot.ingress = some stream)
    (live : stream.Live)
    : slot.sweep = slot := by
  rw [StreamSlot.sweep, held]
  exact if_neg (by simp [live.alive])

/-- The completions at a call to the backend that leave what it has taken alone, as steps of the
call.
-/
theorem onBackend_drives {slot : StreamSlot} {backend : BackendStream}
    {completion : BackendCompletion} (around : Surroundings) (registered : slot.backend = some backend)
    (unread : ∀ message, completion ≠ .read message)
    (unfinished : ∀ status, completion ≠ .finish status)
    : ∃ next done, slot.onBackend around completion =
        ({ slot with backend := some next }, done.map .backend)
      ∧ backend.Takes next done [] := by
  rw [StreamSlot.onBackend, registered]
  cases completion with
  | start ok => exact ⟨_, _, rfl, backend.onStart_takes ok⟩
  | write => exact ⟨_, _, rfl, backend.onWrite_takes⟩
  | writesDone =>
      refine ⟨backend, [], ?_, .refl backend⟩
      cases slot
      cases registered
      rfl
  | read message => exact absurd rfl (unread message)
  | finish status => exact absurd rfl (unfinished status)

end StreamSlot

namespace BackendStream

variable {calls given : List ClientCall}

/-- A call to a backend that takes what is passed on keeps the order. -/
theorem takes {backend next : BackendStream} {done : List BackendAction}
    {more : List ClientCall} (ready : backend.Ready)
    (asked : backend.halfCloseRequested = true → .halfClose ∈ calls)
    (order : given ++ backend.waiting = calls) (last : .halfClose ∉ (calls ++ more).dropLast)
    (taken : backend.Takes next done more) (room : next.overflowLogged = false)
    : (next.halfCloseRequested = true → .halfClose ∈ calls ++ more)
      ∧ (given ++ handedBy done) ++ next.waiting = calls ++ more := by
  have ended : backend.halfCloseRequested = true → more = [] := by
    intro requested
    rcases List.eq_nil_or_concat more with rfl | ⟨rest, final, rfl⟩
    · rfl
    · refine absurd ?_ last
      rw [List.concat_eq_append, ← List.append_assoc, List.dropLast_concat]
      exact List.mem_append_left _ (asked requested)
  have lastNew : .halfClose ∉ more.dropLast := by
    rcases List.eq_nil_or_concat more with rfl | ⟨rest, final, rfl⟩
    · exact List.not_mem_nil
    · rw [List.concat_eq_append, ← List.append_assoc, List.dropLast_concat] at last
      rw [List.concat_eq_append, List.dropLast_concat]
      exact fun member => last (List.mem_append_right _ member)
  constructor
  · intro requested
    rcases taken.requested requested with before | new
    · exact List.mem_append_left _ (asked before)
    · exact List.mem_append_right _ new
  · rw [List.append_assoc, taken.order ready room ended lastNew, ← List.append_assoc, order]

end BackendStream

-- What a run has seen

@[simp] theorem clientCalls_append (history : List PathStage) (stage : PathStage)
    : clientCalls (history ++ [stage]) = clientCalls history ++ stage.event.2.calls := by
  simp [clientCalls]

@[simp] theorem backendMessages_append (history : List PathStage) (stage : PathStage)
    : backendMessages (history ++ [stage]) =
      backendMessages history ++ stage.before.brings stage.event.2 := by
  simp [backendMessages]

theorem calls_client (event : ClientEvent)
    : PathEvent.calls (.client event) = event.toIngress.calls := by
  rcases event with (- | bytes) | - | - | - | - <;> rfl

theorem incoming_client (event : ClientEvent) : event.toIngress.incoming = [] := by
  cases event <;> rfl

namespace StreamPath

variable {path : StreamPath}

/-- A call to a backend that is absent, or that only writes or starts, brings nothing. -/
theorem brings_nothing {side : Side} {completion : BackendCompletion}
    (quiet : path.backendAt side = none ∨ ∀ message, completion ≠ .read message)
    : path.brings (.backend side completion) = [] := by
  rcases completion with - | (- | bytes) | - | - | - <;> try rfl
  rcases quiet with absent | unread
  · simp [brings, absent]
  · exact absurd rfl (unread (some bytes))

/-- What a steady step reads of the client was asked for. -/
theorem Steady.outstanding {picks : Surroundings → Prop} {history : List PathStage}
    {around : Surroundings} {event : ClientEvent} {stream : IngressStream}
    (steady : path.Steady picks history (around, .client event))
    (held : path.origin.ingress = some stream) (message : Option Bytes)
    (read : event.toIngress = .read message) : stream.readOutstanding = true := by
  have same : event = .read message := by
    cases event with
    | read other => cases read; rfl
    | _ => cases read
  obtain ⟨stream', held', reading⟩ := steady.reads message (by rw [same])
  cases held.symm.trans held'
  exact reading

/-- A stream that is intact after an event of the client is live then. -/
theorem Intact.live_client {around : Surroundings} {event : ClientEvent} {stream : IngressStream}
    (intact : (path.handle around (.client event)).1.Intact)
    (held : path.origin.ingress = some stream)
    : (stream.handle around event.toIngress).1.Live := by
  obtain ⟨last, held', live⟩ := intact.live
  cases held'.symm.trans (StreamSlot.onIngress_ingress held event.toIngress)
  exact live

theorem inOrder_front {side : Side} {arrival : Arrival} (room : arrival.room = true)
    : InOrder (.deliver side arrival 0) := by
  intro side arrival' index same
  cases same
  exact ⟨rfl, room⟩

/-- A delivery of the oldest message takes it from the front. -/
theorem eraseIdx_zero_append {messages : List WireMessage} {message : WireMessage}
    (oldest : messages[0]? = some message)
    : messages = message :: messages.eraseIdx 0 := by
  cases messages with
  | nil => cases oldest
  | cons first rest =>
      cases Option.some.inj oldest
      rfl

/-- A step that delivers in order keeps what is in flight in order: what it delivers is the oldest,
and what it sends is behind everything else.
-/
theorem inFlightTo_handle {event : Surroundings × PathEvent}
    (ordered : InOrder event.2)
    : path.outbound
        ++ (if event.2.side = .origin then meshed (path.handle event.1 event.2).2 else []) =
        path.delivers .destination event.2 ++ (path.handle event.1 event.2).1.outbound
      ∧ path.inbound
        ++ (if event.2.side = .destination then meshed (path.handle event.1 event.2).2 else []) =
        path.delivers .origin event.2 ++ (path.handle event.1 event.2).1.inbound := by
  obtain ⟨around, event⟩ := event
  cases event with
  | client event => exact ⟨rfl, List.append_nil _⟩
  | sweep side => cases side <;> exact ⟨List.append_nil _, List.append_nil _⟩
  | backend side completion =>
      cases side
      · exact ⟨rfl, List.append_nil _⟩
      · exact ⟨List.append_nil _, rfl⟩
  | deliver side arrival index =>
      obtain ⟨rfl, -⟩ := ordered side arrival index rfl
      cases side with
      | origin =>
          rcases oldest : path.inbound[0]? with - | message
          · simp [handle, delivers, inFlightTo, oldest, PathEvent.side]
          · have front := eraseIdx_zero_append oldest
            simp only [handle, delivers, inFlightTo, oldest, PathEvent.side, StreamPath.atOrigin]
            refine ⟨rfl, ?_⟩
            simpa using front
      | destination =>
          rcases oldest : path.outbound[0]? with - | message
          · simp [handle, delivers, inFlightTo, oldest, PathEvent.side]
          · have front := eraseIdx_zero_append oldest
            simp only [handle, delivers, inFlightTo, oldest, PathEvent.side,
              StreamPath.atDestination]
            refine ⟨?_, rfl⟩
            simpa using front

end StreamPath

@[simp] theorem arrived_append (side : Side) (history : List PathStage) (stage : PathStage)
    : arrived side (history ++ [stage]) =
      arrived side history ++ stage.before.delivers side stage.event.2 := by
  simp [arrived]

@[simp] theorem sentBy_append (side : Side) (history : List PathStage) (stage : PathStage)
    : sentBy side (history ++ [stage]) =
      sentBy side history
        ++ if stage.event.2.side = side then meshed stage.outputs else [] := by
  simp [sentBy]

namespace StreamPath

variable {path start : StreamPath} {history : List PathStage}

theorem step_handle {after : StreamPath} {event : Surroundings × PathEvent}
    {outputs : List LeafAction} (taken : step path event = .ok (after, outputs))
    : after = (path.handle event.1 event.2).1 ∧ outputs = (path.handle event.1 event.2).2 :=
  ⟨(congrArg Prod.fst (Except.ok.inj taken)).symm, (congrArg Prod.snd (Except.ok.inj taken)).symm⟩

end StreamPath

end Creek.Leaf
