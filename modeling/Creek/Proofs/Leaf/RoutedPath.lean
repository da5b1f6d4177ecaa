import Creek.Proofs.Leaf.StreamRuns
import Mathlib

/-! A stream to an endpoint of another leaf: as long as it is not broken off and the mesh delivers in
order, the call to the backend takes what the client does, and the client is queued what the backend
sends, without the messages that are empty.
-/

namespace Creek.Leaf

open Tight (Bytes)
open Mesh (RoutedStreamOpen RoutedStreamFrame WireMessage)
open Library

/-- Whether a call of the client is more than a message without bytes. -/
def substantial : ClientCall → Bool
  | .message bytes => !bytes.isEmpty
  | .halfClose => true

/-- The frame carries the message of the backend. -/
def Brings (message : WireMessage) (bytes : Bytes) : Prop :=
  ∃ frame : RoutedStreamFrame, message = .streamFrame frame
    ∧ frame.fromOrigin = false
    ∧ bytes = frame.payload

/-- What the frames of the backend bring to the client: frames without a payload are dropped. -/
def payloads (messages : List WireMessage) : List Bytes :=
  messages.flatMap fun message =>
    match message with
    | .streamFrame frame => if frame.payload = [] then [] else [frame.payload]
    | _ => []

@[simp] theorem payloads_append (front back : List WireMessage)
    : payloads (front ++ back) = payloads front ++ payloads back :=
  List.flatMap_append

theorem Carries.unique : Relator.RightUnique Carries := by
  rintro message call other ⟨frame, rfl, -, rfl⟩ ⟨frame', same, -, rfl⟩
  cases same
  rfl

/-- Frames of the backend bring what it has sent, except what is empty. -/
theorem payloads_brings {messages : List WireMessage} {received : List Bytes}
    (brings : List.Forall₂ Brings messages received)
    : payloads messages = received.filter fun bytes => !bytes.isEmpty := by
  induction brings with
  | nil => rfl
  | @cons message bytes messages received brings _ ih =>
      obtain ⟨frame, rfl, -, rfl⟩ := brings
      rw [← List.singleton_append, payloads_append, ih]
      rcases empty : frame.payload with - | ⟨byte, rest⟩
      · simp [payloads, empty]
      · simp [payloads, empty]

theorem forall₂_append_left {α β : Type*} {related : α → β → Prop} {front back : List α}
    {values : List β} (all : List.Forall₂ related (front ++ back) values)
    : ∃ left right, values = left ++ right
      ∧ List.Forall₂ related front left
      ∧ List.Forall₂ related back right := by
  induction front generalizing values with
  | nil => exact ⟨[], values, rfl, .nil, all⟩
  | cons first rest ih =>
      cases all with
      | cons here later =>
          obtain ⟨left, right, rfl, relatedLeft, relatedRight⟩ := ih later
          exact ⟨_ :: left, right, rfl, .cons here relatedLeft, relatedRight⟩

/-- What can only be last stays so when others are left out. -/
theorem not_mem_dropLast_filter {α : Type*} {value : α} {values : List α} (keep : α → Bool)
    (last : value ∉ values.dropLast)
    : value ∉ (values.filter keep).dropLast := by
  rcases List.eq_nil_or_concat values with rfl | ⟨front, final, rfl⟩
  · exact List.not_mem_nil
  · rw [List.concat_eq_append, List.dropLast_concat] at last
    rw [List.concat_eq_append, List.filter_append]
    intro member
    refine last (List.mem_of_mem_filter (p := keep) ?_)
    rcases kept : keep final
    · rw [List.filter_singleton, kept] at member
      simp only [cond_false, List.append_nil] at member
      exact List.dropLast_subset _ member
    · rw [List.filter_singleton, kept] at member
      simpa using member

-- The leaf of the client

/-- The slot at the leaf of the client: before the stream is opened everything the client has sent
is held back; after that the opening and all of it has been sent in frames.
-/
structure OriginThere (slot : StreamSlot) (stream : IngressStream) (calls : List ClientCall)
    (sent : List WireMessage) (received gone : List Bytes)
    : Prop where
  held : slot.ingress = some stream
  progress : stream.Progress
  reading : Reading stream calls
  apart : slot.backend = none
  opened :
    stream.phase ≠ .streaming ∧ sent = [] ∧ calls = stream.buffered.map .message
    ∨ stream.phase = .streaming ∧ stream.remote = true ∧ stream.buffered = []
      ∧ ∃ opening frames, sent = .streamOpen opening :: frames ∧ List.Forall₂ Carries frames calls
  queued : gone ++ stream.writeQueue = received

theorem OriginThere.onIngress {slot : StreamSlot} {stream : IngressStream}
    {calls : List ClientCall} {sent : List WireMessage} {received gone : List Bytes}
    {around : Surroundings} (inv : OriginThere slot stream calls sent received gone)
    (event : IngressEvent) (picks : IngressStream.PicksThere around)
    (outstanding : ∀ message, event = .read message → stream.readOutstanding = true)
    (live : (stream.handle around event).1.Live)
    : OriginThere (slot.onIngress around event).1 (stream.handle around event).1
        (calls ++ event.calls) (sent ++ meshed (slot.onIngress around event).2)
        (received ++ event.incoming) (gone ++ delivered (slot.onIngress around event).2)
      ∧ handed (slot.onIngress around event).2 = [] := by
  have passes := IngressStream.handle_passes inv.reading.attentive outstanding live
  obtain ⟨progress, queues⟩ := IngressStream.handle_queues inv.progress live
  rw [StreamSlot.onIngress_eq inv.held]
  obtain ⟨ingress, delivers, meshes⟩ :=
    ({ slot with ingress := some (stream.handle around event).1 } : StreamSlot).performAll_frame
      (stream.handle around event).2
  have reading := inv.reading.next outstanding passes
  have unopened : ∀ action ∈ (stream.handle around event).2, starts action = false := by
    cases passes.moves with
    | waits early still unopened quiet unposted kept => exact unopened
    | opensHere early opened here empty unposted own split before unopened passed =>
        exact absurd picks own
    | opensThere early opened there empty other unopened posts passed => exact unopened
    | streams open_ still remote buffered unopened here there => exact unopened
  obtain ⟨same, silent⟩ := @StreamSlot.performAll_none
    { slot with ingress := some (stream.handle around event).1 } _ inv.apart unopened
  refine ⟨⟨ingress, progress, reading, ?_, ?_, ?_⟩, silent⟩
  · rw [same]
    exact inv.apart
  · rw [meshes]
    cases passes.moves with
    | waits early still unopened quiet unposted kept =>
        rcases inv.opened with ⟨-, rfl, held⟩ | ⟨open_, -⟩
        · refine .inl ⟨still, ?_, ?_⟩
          · rw [unposted]
            rfl
          · rw [held, kept]
        · exact absurd open_ early
    | opensHere early opened here empty unposted own split before unopened passed =>
        exact absurd picks own
    | opensThere early opened there empty other unopened posts passed =>
        rcases inv.opened with ⟨-, rfl, held⟩ | ⟨open_, -⟩
        · refine .inr ⟨opened, there, empty, _, _, posts, ?_⟩
          rw [held]
          exact passed
        · exact absurd open_ early
    | streams open_ still remote buffered unopened here there =>
        rcases inv.opened with ⟨early, -⟩ | ⟨-, away, empty, opening, frames, rfl, carried⟩
        · exact absurd open_ early
        · refine .inr ⟨still, remote.trans away, buffered.trans empty, opening, _, rfl, ?_⟩
          exact List.rel_append carried (there away)
  · rw [delivers, List.append_assoc, ← queues, ← List.append_assoc, inv.queued]

-- The leaf of the backend

/-- The slot at the leaf of the backend: once the opening has arrived, the call to the backend has
taken what the frames after it carry.
-/
structure DestinationThere (slot : StreamSlot) (arrived : List WireMessage)
    (given : List ClientCall) (answers : List WireMessage) (received : List Bytes)
    : Prop where
  apart : slot.ingress = none
  opened :
    arrived = [] ∧ slot.backend = none ∧ given = [] ∧ answers = [] ∧ received = []
    ∨ ∃ opening frames calls backend, arrived = .streamOpen opening :: frames
      ∧ List.Forall₂ Carries frames calls
      ∧ slot.backend = some backend
      ∧ backend.Ready
      ∧ (∃ leaf node, backend.origin = .there leaf node)
      ∧ (backend.halfCloseRequested = true → .halfClose ∈ calls.filter substantial)
      ∧ given ++ backend.waiting = calls.filter substantial
      ∧ List.Forall₂ Brings answers received

/-- The call to a backend takes what a frame carries, unless that is nothing. -/
theorem processStreamFrame_takes {slot : StreamSlot} {backend : BackendStream}
    {around : Surroundings} {arrival : Arrival} {frame : RoutedStreamFrame} {call : ClientCall}
    (registered : slot.backend = some backend)
    (carries : Carries (.streamFrame frame) call)
    : ∃ next done, slot.processStreamFrame around arrival frame =
        ({ slot with backend := some next }, done.map .backend)
      ∧ backend.Takes next done ([call].filter substantial) := by
  obtain ⟨same, eq, from_, rfl⟩ := carries
  cases eq
  rw [StreamSlot.processStreamFrame, if_pos from_, registered]
  by_cases half : frame.halfClose = true
  · simp only [half, if_true]
    exact ⟨_, _, rfl, backend.clientHalfClose_takes⟩
  · simp only [half, Bool.false_eq_true, if_false]
    by_cases empty : frame.payload = []
    · refine ⟨backend, [], ?_, ?_⟩
      · simp [empty]
      · simpa [substantial, empty] using BackendStream.Takes.refl backend
    · have kept : [ClientCall.message frame.payload].filter substantial =
          [.message frame.payload] := by
        simp [substantial, empty]
      rw [kept, if_pos empty]
      exact ⟨_, _, rfl, backend.clientMessage_takes frame.payload⟩

/-- An opening is refused with a close, or opens a call to the backend. -/
theorem processStreamOpen_opens (slot : StreamSlot) (around : Surroundings) (arrival : Arrival)
    (opening : RoutedStreamOpen)
    : (∃ node leaf close, slot.processStreamOpen around arrival opening =
        (slot, [.toMesh node leaf (.streamClose close)]))
      ∨ ∃ leaf node, slot.processStreamOpen around arrival opening =
        (
          {
            slot with
            backend := some { requestId := opening.requestId, origin := .there leaf node }
          },
          []
        ) := by
  rw [StreamSlot.processStreamOpen]
  dsimp only
  split
  · exact .inl ⟨_, _, _, rfl⟩
  · split
    · exact .inl ⟨_, _, _, rfl⟩
    · split
      · exact .inl ⟨_, _, _, rfl⟩
      · split
        · exact .inl ⟨_, _, _, rfl⟩
        · exact .inr ⟨_, _, rfl⟩

namespace DestinationThere

variable {slot : StreamSlot} {arrived answers : List WireMessage} {given : List ClientCall}
  {received : List Bytes}

theorem takes {backend next : BackendStream} {done : List BackendAction}
    {more : List WireMessage} {calls : List ClientCall}
    (inv : DestinationThere slot arrived given answers received)
    (registered : slot.backend = some backend) (carries : List.Forall₂ Carries more calls)
    (last : ∀ all, List.Forall₂ Carries (arrived.drop 1 ++ more) all → .halfClose ∉ all.dropLast)
    (taken : backend.Takes next done (calls.filter substantial))
    (room : next.overflowLogged = false)
    : DestinationThere { slot with backend := some next } (arrived ++ more)
        (given ++ handed (done.map .backend)) answers received := by
  refine ⟨inv.apart, .inr ?_⟩
  rcases inv.opened with ⟨-, absent, -⟩ | ⟨opening, frames, earlier, held, rfl, carried, same, ready,
    home, asked, order, brings⟩
  · cases registered.symm.trans absent
  · obtain rfl := Option.some.inj (registered.symm.trans same)
    have carriedAll : List.Forall₂ Carries (frames ++ more) (earlier ++ calls) :=
      List.rel_append carried carries
    have lastAll := not_mem_dropLast_filter substantial (last _ carriedAll)
    rw [List.filter_append] at lastAll
    obtain ⟨askedNext, orderNext⟩ := BackendStream.takes ready asked order lastAll taken room
    rw [← List.filter_append] at askedNext orderNext
    refine ⟨opening, _, _, next, rfl, carriedAll, rfl, taken.ready ready, ?_, askedNext, ?_, brings⟩
    · obtain ⟨leaf, node, home⟩ := home
      exact ⟨leaf, node, taken.origin.trans home⟩
    · rw [handed_backend]
      exact orderNext

end DestinationThere

-- Both leaves

namespace StreamPath

variable {path : StreamPath} {history : List PathStage}

/-- A path between two leaves, over a mesh that delivers in order. -/
structure Routed (history : List PathStage) (path : StreamPath) : Prop where
  origin : ∃ stream, OriginThere path.origin stream (clientCalls history)
    (sentBy .origin history) (payloads (arrived .origin history)) (delivered (emitted history))
  destination : DestinationThere path.destination (arrived .destination history)
    (handed (emitted history)) (sentBy .destination history) (backendMessages history)
  forth : arrived .destination history ++ path.outbound = sentBy .origin history
  back : arrived .origin history ++ path.inbound = sentBy .destination history

/-- The frames from the client that arrive with what is in flight carry its calls; only the last
call may be the half-close.
-/
theorem Routed.last (inv : Routed history path) {more rest : List WireMessage}
    (flight : path.outbound = more ++ rest) (begun : arrived .destination history ≠ [])
    : ∀ all, List.Forall₂ Carries ((arrived .destination history).drop 1 ++ more) all
      → .halfClose ∉ all.dropLast := by
  intro all carried
  obtain ⟨stream, origin⟩ := inv.origin
  have forth := inv.forth
  rw [flight] at forth
  rcases origin.opened with ⟨-, unsent, -⟩ | ⟨-, -, -, opening, frames, sent, carries⟩
  · rw [unsent] at forth
    exact absurd (List.append_eq_nil_iff.mp forth).1 begun
  · obtain ⟨first, later, arrivals⟩ := List.exists_cons_of_ne_nil begun
    rw [arrivals] at carried
    rw [sent, arrivals, List.cons_append, ← List.append_assoc] at forth
    have split : later ++ more ++ rest = frames := (List.cons.inj forth).2
    rw [← split] at carries
    obtain ⟨left, right, calls, here, -⟩ := forall₂_append_left carries
    have same : all = left := Carries.unique.forall₂ carried here
    have last := origin.reading.last
    rw [calls] at last
    rw [same]
    intro member
    rcases List.eq_nil_or_concat right with rfl | ⟨front, final, rfl⟩
    · rw [List.append_nil] at last
      exact last member
    · rw [List.concat_eq_append, ← List.append_assoc, List.dropLast_concat] at last
      exact last (List.mem_append_left _ (List.dropLast_subset _ member))

theorem Routed.atOrigin {event : Surroundings × PathEvent} (inv : Routed history path)
    (ordered : InOrder event.2)
    (side : event.2.side = .origin)
    (same : (path.handle event.1 event.2).1.destination = path.destination)
    (undelivered : path.delivers .destination event.2 = [])
    (origin : ∃ stream, OriginThere (path.handle event.1 event.2).1.origin stream
      (clientCalls history ++ event.2.calls)
      (sentBy .origin history ++ meshed (path.handle event.1 event.2).2)
      (payloads (arrived .origin history ++ path.delivers .origin event.2))
      (delivered (emitted history) ++ delivered (path.handle event.1 event.2).2))
    (silent : handed (path.handle event.1 event.2).2 = []) (unbrought : path.brings event.2 = [])
    : Routed
        (history ++ [{ before := path, event, outputs := (path.handle event.1 event.2).2 }])
        (path.handle event.1 event.2).1 := by
  obtain ⟨forth, back⟩ := inFlightTo_handle ordered
  rw [if_pos side] at forth
  rw [if_neg (by simp [side])] at back
  have destination := inv.destination
  constructor
  · simp only [clientCalls_append, sentBy_append, arrived_append, emitted_append,
      emitted_singleton, delivered_append, if_pos side]
    exact origin
  · simp only [sentBy_append, arrived_append, emitted_append, emitted_singleton, handed_append,
      backendMessages_append, undelivered, silent, unbrought, List.append_nil, same]
    rw [if_neg (by simp [side]), List.append_nil]
    exact destination
  · simp only [sentBy_append, arrived_append, if_pos side]
    rw [← inv.forth, List.append_assoc, List.append_assoc, forth]
  · simp only [sentBy_append, arrived_append]
    rw [if_neg (by simp [side]), ← inv.back, List.append_assoc, List.append_assoc, back]

theorem Routed.atDestination {event : Surroundings × PathEvent} (inv : Routed history path)
    (ordered : InOrder event.2)
    (side : event.2.side = .destination)
    (same : (path.handle event.1 event.2).1.origin = path.origin)
    (undelivered : path.delivers .origin event.2 = [])
    (destination : DestinationThere (path.handle event.1 event.2).1.destination
      (arrived .destination history ++ path.delivers .destination event.2)
      (handed (emitted history) ++ handed (path.handle event.1 event.2).2)
      (sentBy .destination history ++ meshed (path.handle event.1 event.2).2)
      (backendMessages history ++ path.brings event.2))
    (silent : delivered (path.handle event.1 event.2).2 = []) (uncalled : event.2.calls = [])
    : Routed
        (history ++ [{ before := path, event, outputs := (path.handle event.1 event.2).2 }])
        (path.handle event.1 event.2).1 := by
  obtain ⟨forth, back⟩ := inFlightTo_handle ordered
  rw [if_neg (by simp [side])] at forth
  rw [if_pos side] at back
  constructor
  · simp only [clientCalls_append, sentBy_append, arrived_append, emitted_append,
      emitted_singleton, delivered_append, undelivered, silent, uncalled, List.append_nil, same]
    rw [if_neg (by simp [side]), List.append_nil]
    exact inv.origin
  · simp only [sentBy_append, arrived_append, emitted_append, emitted_singleton, handed_append,
      backendMessages_append, if_pos side]
    exact destination
  · simp only [sentBy_append, arrived_append]
    rw [if_neg (by simp [side]), ← inv.forth, List.append_assoc, List.append_assoc, forth]
  · simp only [sentBy_append, arrived_append, if_pos side]
    rw [← inv.back, List.append_assoc, List.append_assoc, back]

/-- A step that changes nothing and in which neither the client nor the backend does anything. -/
theorem Routed.same {event : Surroundings × PathEvent} (inv : Routed history path)
    (ordered : InOrder event.2)
    (eq : path.handle event.1 event.2 = (path, [])) (calls : event.2.calls = [])
    (messages : path.brings event.2 = []) (undelivered : ∀ side, path.delivers side event.2 = [])
    : Routed
        (history ++ [{ before := path, event, outputs := (path.handle event.1 event.2).2 }])
        (path.handle event.1 event.2).1 := by
  rcases side : event.2.side
  · refine inv.atOrigin ordered side (by rw [eq]) (undelivered .destination) ?_ (by rw [eq]; rfl)
      messages
    rw [eq, calls, undelivered, List.append_nil, meshed_nil, List.append_nil, List.append_nil,
      delivered_nil, List.append_nil]
    exact inv.origin
  · refine inv.atDestination ordered side (by rw [eq]) (undelivered .origin) ?_ (by rw [eq]; rfl)
      calls
    rw [eq, messages, undelivered, List.append_nil, meshed_nil, List.append_nil, List.append_nil,
      handed_nil, List.append_nil]
    exact inv.destination

/-- What arrives at the leaf of the client brings a message of the backend. -/
theorem Routed.answer (inv : Routed history path) {message : WireMessage}
    (flight : message ∈ path.inbound)
    : ∃ bytes, Brings message bytes := by
  have member : message ∈ sentBy .destination history := by
    rw [← inv.back]
    exact List.mem_append_right _ flight
  rcases inv.destination.opened with ⟨-, -, -, unsent, -⟩ | ⟨-, -, -, -, -, -, -, -, -, -, -, brings⟩
  · rw [unsent] at member
    cases member
  · obtain ⟨index, bound, rfl⟩ := List.getElem_of_mem member
    exact ⟨_, List.Forall₂.get brings bound (by rw [← brings.length_eq]; exact bound)⟩

theorem Routed.deliverOrigin {around : Surroundings} {arrival : Arrival}
    (inv : Routed history path) (picks : IngressStream.PicksThere around)
    (room : arrival.room = true)
    (intact : (path.handle around (.deliver .origin arrival 0)).1.Intact)
    : Routed
        (history
        ++ [{
            before := path
            event := (around, .deliver .origin arrival 0)
            outputs := (path.handle around (.deliver .origin arrival 0)).2
          }])
        (path.handle around (.deliver .origin arrival 0)).1 := by
  have ordered := @inOrder_front .origin _ room
  obtain ⟨stream, origin⟩ := inv.origin
  obtain ⟨last, held, live⟩ := intact.live
  rcases flight : path.inbound with - | ⟨message, rest⟩
  · refine inv.same ordered ?_ rfl rfl ?_
    · simp [StreamPath.handle, flight]
    · intro side
      cases side <;> simp [delivers, inFlightTo, flight]
  · obtain ⟨bytes, frame, rfl, from_, rfl⟩ :=
      @Routed.answer _ _ inv message (by rw [flight]; exact List.mem_cons_self)
    have arrives : path.delivers .origin (.deliver .origin arrival 0) = [.streamFrame frame] := by
      simp [delivers, inFlightTo, flight]
    have eq : path.handle around (.deliver .origin arrival 0) =
        { path with inbound := rest }.atOrigin
          (path.origin.processStreamFrame around arrival frame) := by
      simp [StreamPath.handle, flight, StreamSlot.onMessage, room]
    rw [StreamSlot.processStreamFrame, if_neg (by simp [from_]), origin.held] at eq
    by_cases empty : frame.payload = []
    · simp only [if_pos empty] at eq
      refine inv.atOrigin ordered rfl (by rw [eq]; rfl) rfl ?_ (by rw [eq]; rfl) rfl
      rw [eq, arrives, payloads_append]
      refine ⟨stream, ?_⟩
      simpa [payloads, empty, PathEvent.calls, StreamPath.atOrigin] using origin
    · simp only [if_neg empty] at eq
      have alive : (stream.handle around (.backendMessage frame.payload)).1.Live := by
        rw [eq] at held
        have same := held.symm.trans
          (StreamSlot.onIngress_ingress origin.held (.backendMessage frame.payload))
        cases same
        exact live
      obtain ⟨next, silent⟩ := origin.onIngress (.backendMessage frame.payload) picks (by simp) alive
      refine inv.atOrigin ordered rfl (by rw [eq]; rfl) rfl ?_ (by rw [eq]; exact silent) rfl
      rw [eq, arrives, payloads_append]
      refine ⟨(stream.handle around (.backendMessage frame.payload)).1, ?_⟩
      have brought : payloads [.streamFrame frame] = [frame.payload] := by
        simp [payloads, empty]
      rw [brought]
      exact next

theorem Routed.deliverDestination {around : Surroundings} {arrival : Arrival}
    (inv : Routed history path) (room : arrival.room = true)
    (intact : (path.handle around (.deliver .destination arrival 0)).1.Intact)
    : Routed
        (history
        ++ [{
            before := path
            event := (around, .deliver .destination arrival 0)
            outputs := (path.handle around (.deliver .destination arrival 0)).2
          }])
        (path.handle around (.deliver .destination arrival 0)).1 := by
  have ordered := @inOrder_front .destination _ room
  obtain ⟨stream, origin⟩ := inv.origin
  have destination := inv.destination
  rcases flight : path.outbound with - | ⟨message, rest⟩
  · refine inv.same ordered ?_ rfl rfl ?_
    · simp [StreamPath.handle, flight]
    · intro side
      cases side <;> simp [delivers, inFlightTo, flight]
  have arrives : path.delivers .destination (.deliver .destination arrival 0) = [message] := by
    simp [delivers, inFlightTo, flight]
  have eq : path.handle around (.deliver .destination arrival 0) =
      { path with outbound := rest }.atDestination
        (path.destination.onMessage around arrival message) := by
    simp [StreamPath.handle, flight]
  have forth := inv.forth
  rw [flight] at forth
  rcases origin.opened with ⟨-, unsent, -⟩ | ⟨-, -, -, opening, frames, sent, carries⟩
  · rw [unsent] at forth
    cases (List.append_eq_nil_iff.mp forth).2
  rcases destination.opened with ⟨none_, absent, ungiven, unanswered, unreceived⟩
    | ⟨first, later, calls, backend, arrivals, carried, registered, ready, -⟩
  · -- the opening arrives; a refusal would put a close on its way
    rw [none_, sent, List.nil_append] at forth
    obtain rfl := (List.cons.inj forth).1
    rcases processStreamOpen_opens path.destination around arrival opening with
      ⟨node, leaf, close, refused⟩ | ⟨leaf, node, opens⟩
    · refine absurd ?_ (intact.unclosed close)
      rw [eq, StreamSlot.onMessage, if_pos room, refused]
      exact List.mem_append_right _ (List.mem_singleton.mpr rfl)
    · rw [StreamSlot.onMessage, if_pos room, opens] at eq
      refine inv.atDestination ordered rfl (by rw [eq]; rfl) rfl ?_ (by rw [eq]; rfl) rfl
      rw [eq, arrives, none_, ungiven, unanswered, unreceived]
      exact ⟨destination.apart, .inr ⟨opening, [], [], _, rfl, .nil, rfl,
        BackendStream.ready_new _ _, ⟨leaf, node, rfl⟩, (by simp), rfl, .nil⟩⟩
  · -- a frame arrives
    rw [arrivals, sent, List.cons_append] at forth
    have split : later ++ message :: rest = frames := (List.cons.inj forth).2
    rw [← split] at carries
    obtain ⟨left, right, all, -, relatedRight⟩ := forall₂_append_left carries
    cases relatedRight with
    | @cons _ call _ calls' carries _ =>
        obtain ⟨frame, rfl, from_, call_⟩ := id carries
        obtain ⟨next, done, processed, taken⟩ :=
          @processStreamFrame_takes path.destination backend around arrival frame call registered
            carries
        rw [StreamSlot.onMessage, if_pos room, processed] at eq
        have unlogged : next.overflowLogged = false :=
          intact.room .destination next (by rw [eq]; rfl)
        have begun : arrived .destination history ≠ [] := by
          rw [arrivals]
          exact List.cons_ne_nil _ _
        have takes := destination.takes registered (.cons carries .nil)
          (@Routed.last _ _ inv [.streamFrame frame] rest flight begun) taken unlogged
        refine inv.atDestination ordered rfl (by rw [eq]; rfl) rfl ?_ ?_ rfl
        · rw [eq, arrives]
          have quiet : meshed (done.map LeafAction.backend) = [] := meshed_backend done
          simp only [StreamPath.atDestination, quiet, List.append_nil, brings]
          exact takes
        · rw [eq]
          exact delivered_backend done

/-- What the completion at the call to the backend does at another leaf. -/
theorem Routed.backend {around : Surroundings} {completion : BackendCompletion}
    (inv : Routed history path)
    (intact : (path.handle around (.backend .destination completion)).1.Intact)
    : Routed
        (history
        ++ [{
            before := path
            event := (around, .backend .destination completion)
            outputs := (path.handle around (.backend .destination completion)).2
          }])
        (path.handle around (.backend .destination completion)).1 := by
  have ordered : InOrder (.backend .destination completion) := nofun
  have destination := inv.destination
  have eq : path.handle around (.backend .destination completion) =
      path.atDestination (path.destination.onBackend around completion) := rfl
  rcases registered : path.destination.backend with - | backend
  · refine inv.same ordered ?_ rfl (brings_nothing (.inl registered)) fun _ => rfl
    dsimp only
    rw [eq, StreamSlot.onBackend, registered]
    simp only [StreamPath.atDestination, meshed_nil, List.append_nil]
  have begun : arrived .destination history ≠ [] := by
    intro none_
    rcases destination.opened with ⟨-, absent, -⟩ | ⟨opening, frames, -, -, arrivals, -⟩
    · cases registered.symm.trans absent
    · cases none_.symm.trans arrivals
  obtain ⟨leaf, node, home⟩ : ∃ leaf node, backend.origin = .there leaf node := by
    rcases destination.opened with ⟨-, absent, -⟩ | ⟨-, -, -, held, -, -, same, -, home, -⟩
    · cases registered.symm.trans absent
    · obtain rfl := Option.some.inj (registered.symm.trans same)
      exact home
  by_cases ends : ∃ status, completion = .finish status
  · obtain ⟨status, rfl⟩ := ends
    rw [StreamSlot.onBackend, registered] at eq
    simp only [home] at eq
    refine absurd ?_ (intact.unclosed
      {
        requestId := backend.requestId
        status := status.code
        error := status.message
        fromOrigin := false
        originLeaf := around.leafId
        originNode := around.nodeId
        destinationLeaf := leaf
        destinationNode := node
        hopLimit := kDefaultBackendHopLimit
      })
    rw [eq]
    exact List.mem_append_right _ (List.mem_singleton.mpr rfl)
  by_cases reads : ∃ message, completion = .read message
  · obtain ⟨- | bytes, rfl⟩ := reads
    · rw [StreamSlot.onBackend, registered] at eq
      refine inv.atDestination ordered rfl (by rw [eq]; rfl) rfl ?_ (by rw [eq]; rfl) rfl
      rw [eq]
      simpa [delivers, brings, handed, handedBy, meshed, StreamPath.atDestination]
        using destination
    · rw [StreamSlot.onBackend, registered] at eq
      simp only [home] at eq
      refine inv.atDestination ordered rfl (by rw [eq]; rfl) rfl ?_ (by rw [eq]; rfl) rfl
      have bring : path.brings (.backend .destination (.read (some bytes))) = [bytes] := by
        simp [brings, backendAt, registered]
      dsimp only
      rw [eq, bring]
      refine ⟨destination.apart, .inr ?_⟩
      rcases destination.opened with ⟨-, absent, -⟩ | ⟨opening, frames, calls, held, arrivals,
        carried, same, ready, home, asked, order, answers⟩
      · cases registered.symm.trans absent
      · refine ⟨opening, frames, calls, held, ?_, carried, same, ready, home, asked, ?_, ?_⟩
        · rw [arrivals]
          exact List.append_nil _
        · refine (congrArg (· ++ held.waiting) ?_).trans order
          exact List.append_nil _
        · exact List.rel_append answers (.cons ⟨_, rfl, rfl, rfl⟩ .nil)
  push Not at ends reads
  obtain ⟨next, done, outcome, taken⟩ :=
    StreamSlot.onBackend_drives around registered reads ends
  rw [outcome] at eq
  have room : next.overflowLogged = false := intact.room .destination next (by rw [eq]; rfl)
  have takes := destination.takes registered .nil
    (@Routed.last _ _ inv [] path.outbound rfl begun) taken room
  refine inv.atDestination ordered rfl (by rw [eq]; rfl) rfl ?_ ?_ rfl
  · have quiet : meshed (done.map LeafAction.backend) = [] := meshed_backend done
    dsimp only
    rw [eq, brings_nothing (.inr reads)]
    simp only [StreamPath.atDestination, quiet, delivers, List.append_nil]
    rw [List.append_nil] at takes
    exact takes
  · rw [eq]
    exact delivered_backend done

/-- Every step of a path between two leaves after which it is intact keeps it. -/
theorem Routed.next {event : Surroundings × PathEvent} (inv : Routed history path)
    (steady : path.Steady IngressStream.PicksThere history event)
    (intact : (path.handle event.1 event.2).1.Intact)
    : Routed
        (history ++ [{ before := path, event, outputs := (path.handle event.1 event.2).2 }])
        (path.handle event.1 event.2).1 := by
  obtain ⟨around, event⟩ := event
  obtain ⟨stream, origin⟩ := inv.origin
  cases event with
  | client event =>
      have reads := steady.outstanding origin.held
      have alive := intact.live_client origin.held
      obtain ⟨next, silent⟩ := origin.onIngress event.toIngress steady.picks reads alive
      rw [incoming_client, ← calls_client, List.append_nil] at next
      refine inv.atOrigin steady.ordered rfl rfl rfl
        ⟨(stream.handle around event.toIngress).1, ?_⟩ silent rfl
      rw [show path.delivers .origin (.client event) = [] from rfl, List.append_nil]
      exact next
  | deliver side arrival index =>
      obtain ⟨rfl, room⟩ := steady.ordered side arrival index rfl
      cases side with
      | origin => exact inv.deliverOrigin steady.picks room intact
      | destination => exact inv.deliverDestination room intact
  | sweep side =>
      refine inv.same steady.ordered ?_ rfl rfl fun _ => rfl
      cases side with
      | origin =>
          obtain ⟨live, held, going⟩ := steady.intact.live
          simp only [StreamPath.handle, StreamSlot.sweep_live held going]
      | destination =>
          have kept : path.destination.sweep = path.destination := by
            rw [StreamSlot.sweep, inv.destination.apart]
          simp only [StreamPath.handle, kept]
  | backend side completion =>
      cases side with
      | destination => exact inv.backend intact
      | origin =>
          refine inv.same steady.ordered ?_ rfl (brings_nothing (.inl origin.apart)) fun _ => rfl
          dsimp only
          rw [StreamPath.handle, StreamSlot.onBackend, origin.apart]
          simp only [StreamPath.atOrigin, meshed_nil, List.append_nil]

end StreamPath

end Creek.Leaf
