import Creek.Proofs.Leaf.IngressSends
import Creek.Proofs.Leaf.PathAgreement
import Creek.Proofs.Tight.ReassemblerSafety
import Creek.Tight.Fragmenter

/-! The order of a stream between two leaves.
Frames carry no sequence number, so the order in which a leaf applies them is the order in which
they complete there. Where that is the order in which they were sent, the stream stays in order,
however it ends.
-/

namespace Creek.Leaf

open Tight (Bytes)
open Mesh (RoutedStreamOpen RoutedStreamFrame WireMessage)
open Library

/-- The messages of the backend that messages carry. -/
def answered (messages : List WireMessage) : List Bytes :=
  messages.flatMap fun message =>
    match message with
    | .streamFrame frame => if frame.fromOrigin then [] else [frame.payload]
    | _ => []

@[simp] theorem answered_append (front back : List WireMessage)
    : answered (front ++ back) = answered front ++ answered back :=
  List.flatMap_append

/-- Whether a message of the backend has bytes. -/
def filled (bytes : Bytes) : Bool := !bytes.isEmpty

/-- What frames of the backend are made for is what they carry. -/
theorem answered_brings {messages : List WireMessage} {received : List Bytes}
    (brings : List.Forall₂ Brings messages received)
    : answered messages = received := by
  induction brings with
  | nil => rfl
  | @cons message bytes messages received brings _ ih =>
      obtain ⟨frame, rfl, from_, rfl⟩ := brings
      rw [← List.singleton_append, answered_append, ih]
      simp [answered, from_]

theorem brings_of_mem {messages : List WireMessage} {received : List Bytes}
    (brings : List.Forall₂ Brings messages received) {message : WireMessage}
    (member : message ∈ messages)
    : ∃ bytes, Brings message bytes := by
  induction brings with
  | nil => cases member
  | cons first _ ih =>
      rcases List.mem_cons.mp member with rfl | later
      · exact ⟨_, first⟩
      · exact ih later

/-- A frame of the backend or a close. -/
def Answering (message : WireMessage) : Prop :=
  (∃ frame : RoutedStreamFrame, message = .streamFrame frame ∧ frame.fromOrigin = false)
    ∨ ∃ close, message = .streamClose close

theorem answering_of_brings {messages : List WireMessage} {received : List Bytes}
    (brings : List.Forall₂ Brings messages received)
    : ∀ message ∈ messages, Answering message := by
  intro message member
  obtain ⟨bytes, frame, same, from_, -⟩ := brings_of_mem brings member
  exact .inl ⟨frame, same, from_⟩

-- What a delivery applies

namespace BackendStream

/-- A call of the client on the call to the backend. -/
def take (stream : BackendStream) : ClientCall → BackendStream × List BackendAction
  | .message bytes => stream.clientMessage bytes
  | .halfClose => stream.clientHalfClose

/-- Calls of the client, in order. -/
def takeAll (stream : BackendStream) : List ClientCall → BackendStream × List BackendAction
  | [] => (stream, [])
  | call :: rest =>
      let (next, done) := stream.take call
      let (last, later) := next.takeAll rest
      (last, done ++ later)

end BackendStream

namespace StreamPath

variable {path : StreamPath} {history : List PathStage}

/-- What the leaf of the backend passes to the call to the backend in an event. -/
def passesOn (path : StreamPath) : PathEvent → List ClientCall
  | .deliver .destination arrival index =>
      match path.destination.backend, path.outbound[index]? with
      | some _, some message =>
          if arrival.room then (carried [message]).filter substantial else []
      | _, _ => []
  | _ => []

/-- What the leaf of the client passes to the write queue of the stream in an event. -/
def queues (path : StreamPath) : PathEvent → List Bytes
  | .deliver .origin arrival index =>
      match path.origin.ingress, path.inbound[index]? with
      | some _, some message => if arrival.room then (answered [message]).filter filled else []
      | _, _ => []
  | _ => []

/-- Everything that the leaf of the backend has passed on in a run, in order. -/
def passedOn (history : List PathStage) : List ClientCall :=
  history.flatMap fun stage => stage.before.passesOn stage.event.2

/-- Everything that the leaf of the client has passed to the write queue in a run, in order. -/
def queuedIn (history : List PathStage) : List Bytes :=
  history.flatMap fun stage => stage.before.queues stage.event.2

@[simp] theorem passedOn_append (history : List PathStage) (stage : PathStage)
    : passedOn (history ++ [stage]) =
      passedOn history ++ stage.before.passesOn stage.event.2 := by
  simp [passedOn]

@[simp] theorem queuedIn_append (history : List PathStage) (stage : PathStage)
    : queuedIn (history ++ [stage]) = queuedIn history ++ stage.before.queues stage.event.2 := by
  simp [queuedIn]

/-- The steps of a stream to an endpoint of another leaf over a mesh that loses nothing: reads
complete that are under way, and the leaves have room for what arrives, in whatever order it does.
The stream may be broken off in any way.
-/
structure Recovered (_ : List PathStage) (path : StreamPath) (event : Surroundings × PathEvent)
    : Prop where
  picks : IngressStream.PicksThere event.1
  reads : ∀ message, event.2 = .client (.read message)
    → ∃ stream, path.origin.ingress = some stream ∧ stream.readOutstanding = true
  room : ∀ side arrival index, event.2 = .deliver side arrival index → arrival.room = true

/-- The same over a mesh that delivers everything in order. -/
structure Sequential (history : List PathStage) (path : StreamPath)
    (event : Surroundings × PathEvent)
    : Prop extends Recovered history path event where
  ordered : InOrder event.2

/-- The order of a stream in a run: the opening is applied before any frame; the calls of the client
and the messages of the backend are passed on in order; a close of the backend is applied after all
of its messages.
-/
structure Orderly (history : List PathStage) : Prop where
  opened : ∀ front stage back, history = front ++ stage :: back
    → carried (stage.before.delivers .destination stage.event.2) ≠ []
    → ∃ opening, .streamOpen opening ∈ arrived .destination front
  passed : passedOn history <+: (clientCalls history).filter substantial
  queued : queuedIn history <+: (backendMessages history).filter filled
  closed : ∀ front stage back close, history = front ++ stage :: back
    → stage.before.delivers .origin stage.event.2 = [.streamClose close]
    → stage.before.origin.ingress ≠ none
    → queuedIn front = (backendMessages history).filter filled

end StreamPath

-- The leaf of the client

/-- What has been sent of a stream: nothing, or the opening and what follows it. -/
def Begun (sent : List WireMessage) : Prop :=
  sent = [] ∨ ∃ opening rest, sent = .streamOpen opening :: rest ∧ ∀ message ∈ rest, Following message

/-- The slot at the leaf of the client: what was sent carries what the client has done, in order. -/
structure OriginOrder (slot : StreamSlot) (calls : List ClientCall) (sent : List WireMessage)
    : Prop where
  apart : slot.backend = none
  begun : Begun sent
  order : carried sent <+: calls
  held : ∀ stream, slot.ingress = some stream
    → stream.Tidy
      ∧ (stream.remote = true ↔ sent ≠ [])
      ∧ ∃ lost, calls = carried sent ++ stream.buffered.map .message ++ lost
        ∧ (lost = [] ∨ stream.isOver = true ∨ stream.readOutstanding = false)

namespace OriginOrder

variable {slot : StreamSlot} {calls : List ClientCall} {sent : List WireMessage}
  {around : Surroundings}

theorem begun_append {more : List WireMessage} (begun : Begun sent)
    (following : ∀ message ∈ more, Following message) (opened : more ≠ [] → sent ≠ [])
    : Begun (sent ++ more) := by
  rcases begun with rfl | ⟨opening, rest, rfl, followingRest⟩
  · refine .inl ?_
    by_contra some
    exact opened (by simpa using some) rfl
  · refine .inr ⟨opening, rest ++ more, rfl, ?_⟩
    intro message member
    exact (List.mem_append.mp member).elim (followingRest message) (following message)

theorem reply {more : List WireMessage} (inv : OriginOrder slot calls sent)
    (closes : ∀ message ∈ more, ∃ close, message = .streamClose close) (opened : sent ≠ [])
    : OriginOrder slot calls (sent ++ more) := by
  have none : carried more = [] := IngressStream.carried_closes closes
  refine ⟨inv.apart, begun_append inv.begun ?_ fun _ => opened, ?_, ?_⟩
  · exact fun message member => .inr (closes message member)
  · rw [carried_append, none, List.append_nil]
    exact inv.order
  · intro stream held
    obtain ⟨tidy, remote, lost, all, settled⟩ := inv.held stream held
    refine ⟨tidy, ⟨fun _ => ?_, fun _ => remote.mpr opened⟩, lost, ?_, settled⟩
    · exact fun empty => opened (List.append_eq_nil_iff.mp empty).1
    · rw [carried_append, none, List.append_nil]
      exact all

theorem onIngress {stream : IngressStream} (inv : OriginOrder slot calls sent)
    (held : slot.ingress = some stream) (event : IngressEvent)
    (picks : IngressStream.PicksThere around)
    (reading : ∀ message, event = .read message → stream.readOutstanding = true)
    : OriginOrder (slot.onIngress around event).1 (calls ++ event.calls)
        (sent ++ meshed (slot.onIngress around event).2) := by
  obtain ⟨tidy, remote, lost, all, settled⟩ := inv.held stream held
  have sends := IngressStream.handle_sends picks tidy reading
  rw [StreamSlot.onIngress_eq held]
  obtain ⟨ingress, -, meshes⟩ :=
    ({ slot with ingress := some (stream.handle around event).1 } : StreamSlot).performAll_frame
      (stream.handle around event).2
  obtain ⟨same, -⟩ := @StreamSlot.performAll_none
    { slot with ingress := some (stream.handle around event).1 } _ inv.apart sends.unopened
  rw [meshes]
  have next : ∃ lost, calls ++ event.calls =
      carried (sent ++ posted (stream.handle around event).2)
        ++ (stream.handle around event).1.buffered.map .message ++ lost
      ∧ (lost = [] ∨ (stream.handle around event).1.isOver = true
        ∨ (stream.handle around event).1.readOutstanding = false) := by
    obtain ⟨more, sendsAll, settledMore⟩ := sends.order
    by_cases kept : lost = []
    · refine ⟨more, ?_, settledMore⟩
      rw [all, kept, List.append_nil, List.append_assoc, sendsAll, carried_append]
      simp only [List.append_assoc]
    by_cases isOver : stream.isOver = true
    · obtain ⟨still, silent, buffered⟩ := sends.isOver isOver
      rcases buffered with same | empty
      · refine ⟨lost ++ event.calls, ?_, .inr (.inl still)⟩
        rw [all, carried_append, silent, same]
        simp only [List.append_assoc, List.nil_append]
      · refine ⟨stream.buffered.map .message ++ lost ++ event.calls, ?_, .inr (.inl still)⟩
        rw [all, carried_append, silent, empty]
        simp only [List.append_assoc, List.nil_append, List.map_nil]
    · have idle : stream.readOutstanding = false := by
        rcases settled with none | ends | idle
        · exact absurd none kept
        · exact absurd ends isOver
        · exact idle
      have uncalled : event.calls = [] := by
        cases event with
        | read message => cases (reading message rfl).symm.trans idle
        | _ => rfl
      rw [uncalled, List.append_nil] at sendsAll
      refine ⟨more ++ lost, ?_, .inr (.inr ?_)⟩
      · rw [uncalled, List.append_nil, all, sendsAll, carried_append]
        simp only [List.append_assoc]
      · by_contra still
        cases idle.symm.trans (sends.reading (by simpa using still))
  refine ⟨?_, ?_, ?_, ?_⟩
  · rw [same]
    exact inv.apart
  · rcases sends.shape with ⟨following, -, posts⟩ | ⟨near, -, opening, rest, opens, following⟩
    · exact begun_append inv.begun following fun some => remote.mp (posts some)
    · have unsent : sent = [] := by
        by_contra some
        cases near.symm.trans (remote.mpr some)
      rw [unsent, opens]
      exact .inr ⟨opening, rest, rfl, following⟩
  · obtain ⟨more, eq, -⟩ := next
    rw [eq, List.append_assoc]
    exact List.prefix_append _ _
  · intro later heldLater
    obtain rfl := Option.some.inj (ingress.symm.trans heldLater)
    refine ⟨sends.tidy, ?_, next⟩
    rcases sends.shape with ⟨-, kept, posts⟩ | ⟨-, away, opening, rest, opens, -⟩
    · rw [kept, remote]
      constructor
      · exact fun some empty => some (List.append_eq_nil_iff.mp empty).1
      · intro some empty
        refine some (List.append_eq_nil_iff.mpr ⟨empty, ?_⟩)
        by_contra posted_
        exact remote.mp (posts posted_) empty
    · refine ⟨fun _ empty => ?_, fun _ => away⟩
      rw [opens] at empty
      cases (List.append_eq_nil_iff.mp empty).2

end OriginOrder

-- The leaf of the backend

/-- The slot at the leaf of the backend: while there is a call to the backend, everything that has
arrived was passed on; once a close was sent, there is none any more.
-/
structure DestinationOrder (slot : StreamSlot) (arrivals answers : List WireMessage)
    (passed : List ClientCall) (received : List Bytes)
    : Prop where
  apart : slot.ingress = none
  idle : arrivals = [] → slot.backend = none ∧ answers = []
  home : ∀ backend, slot.backend = some backend → ∃ leaf node, backend.origin = .there leaf node
  known : ∀ message ∈ answers, Answering message
  brought : answered answers = received
  passing : slot.backend ≠ none → passed = (carried arrivals).filter substantial
  order : passed <+: (carried arrivals).filter substantial
  closed : ∀ close, .streamClose close ∈ answers → slot.backend = none
  last : ∀ front close back, answers = front ++ .streamClose close :: back → answered back = []

namespace DestinationOrder

variable {slot after : StreamSlot} {arrivals answers : List WireMessage}
  {passed : List ClientCall} {received : List Bytes}

theorem answered_closes {messages : List WireMessage}
    (closes : ∀ message ∈ messages, ∃ close, message = .streamClose close)
    : answered messages = [] := by
  refine List.flatMap_eq_nil_iff.mpr fun message member => ?_
  obtain ⟨close, rfl⟩ := closes message member
  rfl

/-- Without a call to the backend a leaf may take anything but an opening, and answer with closes. -/
theorem absent {more replies : List WireMessage}
    (inv : DestinationOrder slot arrivals answers passed received)
    (apart : after.ingress = none) (none_ : after.backend = none) (some_ : arrivals ++ more ≠ [])
    (closes : ∀ message ∈ replies, ∃ close, message = .streamClose close)
    : DestinationOrder after (arrivals ++ more) (answers ++ replies) passed received where
  apart := apart
  idle := fun empty => absurd empty some_
  home := fun backend registered => by cases none_.symm.trans registered
  known := fun message member => (List.mem_append.mp member).elim (inv.known message)
    fun reply => .inr (closes message reply)
  brought := by rw [answered_append, answered_closes closes, List.append_nil, inv.brought]
  passing := fun registered => absurd none_ registered
  order := by
    rw [carried_append, List.filter_append]
    exact inv.order.trans (List.prefix_append _ _)
  closed := fun _ _ => none_
  last := by
    intro front close back split
    rcases List.append_eq_append_iff.mp split with ⟨middle, rfl, same⟩ | ⟨middle, earlier, same⟩
    · refine answered_closes fun message member => closes message ?_
      rw [same]
      exact List.mem_append_right _ (List.mem_cons_of_mem _ member)
    · rcases middle with - | ⟨first, middle⟩
      · refine answered_closes fun message member => closes message ?_
        rw [List.nil_append] at same
        rw [← same]
        exact List.mem_cons_of_mem _ member
      · rw [List.cons_append] at same
        obtain ⟨rfl, rest⟩ := List.cons.inj same
        rw [rest, answered_append, answered_closes closes, List.append_nil]
        exact inv.last front close middle earlier

/-- A leaf that keeps its call to the backend may take what it passes on, and answer with frames. -/
theorem present {backend next : BackendStream} {more replies : List WireMessage}
    {bytes : List Bytes} (inv : DestinationOrder slot arrivals answers passed received)
    (registered : slot.backend = some backend) (apart : after.ingress = none)
    (kept : after.backend = some next) (home : next.origin = backend.origin)
    (brings : List.Forall₂ Brings replies bytes)
    : DestinationOrder after (arrivals ++ more) (answers ++ replies)
        (passed ++ (carried more).filter substantial) (received ++ bytes) where
  apart := apart
  idle := by
    intro empty
    have absent := (inv.idle (List.append_eq_nil_iff.mp empty).1).1
    cases registered.symm.trans absent
  home := by
    intro other same
    obtain rfl := Option.some.inj (kept.symm.trans same)
    rw [home]
    exact inv.home backend registered
  known := by
    intro message member
    rcases List.mem_append.mp member with earlier | reply
    · exact inv.known message earlier
    · exact answering_of_brings brings message reply
  brought := by rw [answered_append, inv.brought, answered_brings brings]
  passing := fun _ => by
    rw [inv.passing (by rw [registered]; exact Option.some_ne_none _), carried_append,
      List.filter_append]
  order := by
    have same : passed ++ (carried more).filter substantial
        = (carried (arrivals ++ more)).filter substantial := by
      rw [inv.passing (by rw [registered]; exact Option.some_ne_none _), carried_append,
        List.filter_append]
    exact same ▸ List.prefix_refl _
  closed := by
    intro close member
    rcases List.mem_append.mp member with earlier | reply
    · cases registered.symm.trans (inv.closed close earlier)
    · obtain ⟨bytes, frame, same, -⟩ := brings_of_mem brings reply
      cases same
  last := by
    intro front close back split
    have member : .streamClose close ∈ answers ++ replies := by
      rw [split]
      exact List.mem_append_right _ List.mem_cons_self
    rcases List.mem_append.mp member with earlier | reply
    · cases registered.symm.trans (inv.closed close earlier)
    · obtain ⟨bytes, frame, same, -⟩ := brings_of_mem brings reply
      cases same

/-- A leaf that keeps its call to the backend may answer with frames. -/
theorem keeps {backend next : BackendStream} {replies : List WireMessage} {bytes : List Bytes}
    (inv : DestinationOrder slot arrivals answers passed received)
    (registered : slot.backend = some backend) (apart : after.ingress = none)
    (kept : after.backend = some next) (home : next.origin = backend.origin)
    (brings : List.Forall₂ Brings replies bytes)
    : DestinationOrder after arrivals (answers ++ replies) passed (received ++ bytes) := by
  have next := @present slot after arrivals answers passed received backend next [] replies bytes
    inv registered apart kept home brings
  rw [List.append_nil, show (carried []).filter substantial = [] from rfl, List.append_nil] at next
  exact next

end DestinationOrder

-- Both leaves

namespace StreamPath

variable {path : StreamPath} {history : List PathStage}

/-- What holds of a stream between two leaves over a mesh that delivers everything in order. -/
structure InSequence (history : List PathStage) (path : StreamPath) : Prop where
  origin : OriginOrder path.origin (clientCalls history) (sentBy .origin history)
  destination : DestinationOrder path.destination (arrived .destination history)
    (sentBy .destination history) (passedOn history) (backendMessages history)
  forth : arrived .destination history ++ path.outbound = sentBy .origin history
  back : arrived .origin history ++ path.inbound = sentBy .destination history
  queueing : path.origin.ingress ≠ none
    → queuedIn history = (answered (arrived .origin history)).filter filled
  queued : queuedIn history <+: (answered (arrived .origin history)).filter filled

theorem InSequence.atOrigin {event : Surroundings × PathEvent} (inv : InSequence history path)
    (ordered : InOrder event.2) (side : event.2.side = .origin)
    (same : (path.handle event.1 event.2).1.destination = path.destination)
    (undelivered : path.delivers .destination event.2 = [])
    (origin : OriginOrder (path.handle event.1 event.2).1.origin
      (clientCalls history ++ event.2.calls)
      (sentBy .origin history ++ meshed (path.handle event.1 event.2).2))
    (unbrought : path.brings event.2 = []) (unpassed : path.passesOn event.2 = [])
    (kept : (path.handle event.1 event.2).1.origin.ingress ≠ none → path.origin.ingress ≠ none)
    (queues : path.queues event.2 =
      if path.origin.ingress = none then []
      else (answered (path.delivers .origin event.2)).filter filled)
    : InSequence
        (history ++ [{ before := path, event, outputs := (path.handle event.1 event.2).2 }])
        (path.handle event.1 event.2).1 := by
  obtain ⟨forth, back⟩ := inFlightTo_handle ordered
  rw [if_pos side] at forth
  rw [if_neg (by simp [side])] at back
  constructor
  · simp only [clientCalls_append, sentBy_append, if_pos side]
    exact origin
  · simp only [sentBy_append, arrived_append, passedOn_append, backendMessages_append, undelivered,
      unbrought, unpassed, List.append_nil, same]
    rw [if_neg (by simp [side]), List.append_nil]
    exact inv.destination
  · simp only [sentBy_append, arrived_append, if_pos side]
    rw [← inv.forth, List.append_assoc, List.append_assoc, forth]
  · simp only [sentBy_append, arrived_append]
    rw [if_neg (by simp [side]), ← inv.back, List.append_assoc, List.append_assoc, back]
  · intro present
    simp only [queuedIn_append, arrived_append, answered_append, List.filter_append, queues]
    rw [if_neg (kept present), inv.queueing (kept present)]
  · simp only [queuedIn_append, arrived_append, answered_append, List.filter_append, queues]
    by_cases absent : path.origin.ingress = none
    · rw [if_pos absent, List.append_nil]
      exact inv.queued.trans (List.prefix_append _ _)
    · rw [if_neg absent]
      exact inv.queueing absent ▸ List.prefix_refl _

theorem InSequence.atDestination {event : Surroundings × PathEvent} (inv : InSequence history path)
    (ordered : InOrder event.2) (side : event.2.side = .destination)
    (same : (path.handle event.1 event.2).1.origin = path.origin)
    (undelivered : path.delivers .origin event.2 = [])
    (destination : DestinationOrder (path.handle event.1 event.2).1.destination
      (arrived .destination history ++ path.delivers .destination event.2)
      (sentBy .destination history ++ meshed (path.handle event.1 event.2).2)
      (passedOn history ++ path.passesOn event.2)
      (backendMessages history ++ path.brings event.2))
    (uncalled : event.2.calls = []) (unqueued : path.queues event.2 = [])
    : InSequence
        (history ++ [{ before := path, event, outputs := (path.handle event.1 event.2).2 }])
        (path.handle event.1 event.2).1 := by
  obtain ⟨forth, back⟩ := inFlightTo_handle ordered
  rw [if_neg (by simp [side])] at forth
  rw [if_pos side] at back
  constructor
  · simp only [clientCalls_append, sentBy_append, uncalled, List.append_nil, same]
    rw [if_neg (by simp [side]), List.append_nil]
    exact inv.origin
  · simp only [sentBy_append, arrived_append, passedOn_append, backendMessages_append, if_pos side]
    exact destination
  · simp only [sentBy_append, arrived_append]
    rw [if_neg (by simp [side]), ← inv.forth, List.append_assoc, List.append_assoc, forth]
  · simp only [sentBy_append, arrived_append, if_pos side]
    rw [← inv.back, List.append_assoc, List.append_assoc, back]
  · simp only [queuedIn_append, arrived_append, undelivered, unqueued, List.append_nil, same]
    exact inv.queueing
  · simp only [queuedIn_append, arrived_append, undelivered, unqueued, List.append_nil]
    exact inv.queued

theorem InSequence.backend {around : Surroundings} {completion : BackendCompletion}
    (inv : InSequence history path)
    : InSequence
        (history
        ++ [{
            before := path
            event := (around, .backend .destination completion)
            outputs := (path.handle around (.backend .destination completion)).2
          }])
        (path.handle around (.backend .destination completion)).1 := by
  have destination := inv.destination
  refine inv.atDestination nofun rfl rfl rfl ?_ rfl rfl
  show DestinationOrder (path.destination.onBackend around completion).1
    (arrived .destination history ++ [])
    (sentBy .destination history ++ meshed (path.destination.onBackend around completion).2)
    (passedOn history ++ []) (backendMessages history ++ path.brings (.backend .destination completion))
  rw [List.append_nil, List.append_nil]
  rcases registered : path.destination.backend with - | backend
  · have nothing : path.brings (.backend .destination completion) = [] :=
      brings_nothing (.inl registered)
    have idle : path.destination.onBackend around completion = (path.destination, []) := by
      rw [StreamSlot.onBackend, registered]
    rw [nothing, idle, meshed_nil, List.append_nil, List.append_nil]
    exact destination
  have begun : arrived .destination history ≠ [] := by
    intro empty
    cases registered.symm.trans (destination.idle empty).1
  obtain ⟨leaf, node, home⟩ := destination.home backend registered
  by_cases ends : ∃ status, completion = .finish status
  · obtain ⟨status, rfl⟩ := ends
    have ended : path.destination.onBackend around (.finish status) =
        (
          { path.destination with backend := none },
          [
            sendStreamCloseTo around backend.requestId leaf node false status.code status.message
          ]
        ) := by
      rw [StreamSlot.onBackend, registered]
      simp only [home]
    rw [ended, show path.brings (.backend .destination (.finish status)) = [] from rfl,
      List.append_nil, ← List.append_nil (arrived .destination history)]
    refine destination.absent destination.apart rfl (by simpa using begun) ?_
    exact fun message member => ⟨_, List.mem_singleton.mp member⟩
  by_cases reads : ∃ message, completion = .read message
  · obtain ⟨- | bytes, rfl⟩ := reads
    · have idle : path.destination.onBackend around (.read none) =
          (path.destination, [.backend .finish]) := by
        rw [StreamSlot.onBackend, registered]
      rw [idle]
      exact destination.keeps registered destination.apart registered rfl .nil
    · have posted_ : ∃ frame : RoutedStreamFrame,
          path.destination.onBackend around (.read (some bytes)) =
            (path.destination, [.toMesh node leaf (.streamFrame frame), .backend .read])
          ∧ frame.fromOrigin = false ∧ bytes = frame.payload := by
        rw [StreamSlot.onBackend, registered]
        simp only [home]
        exact ⟨_, rfl, rfl, rfl⟩
      obtain ⟨frame, outcome, from_, payload⟩ := posted_
      have bring : path.brings (.backend .destination (.read (some bytes))) = [bytes] := by
        simp [brings, backendAt, registered]
      rw [outcome, bring]
      exact destination.keeps registered destination.apart registered rfl
        (.cons ⟨frame, rfl, from_, payload⟩ .nil)
  push Not at ends reads
  obtain ⟨next, done, outcome, taken⟩ := StreamSlot.onBackend_drives around registered reads ends
  have nothing : path.brings (.backend .destination completion) = [] :=
    brings_nothing (.inr reads)
  rw [outcome, nothing, meshed_backend]
  exact destination.keeps registered destination.apart rfl taken.origin .nil

/-- A message of the mesh at the leaf of the client keeps the order there. -/
theorem onMessage_origin {slot : StreamSlot} {calls : List ClientCall} {sent : List WireMessage}
    {around : Surroundings} {arrival : Arrival} {message : WireMessage}
    (inv : OriginOrder slot calls sent) (picks : IngressStream.PicksThere around)
    (room : arrival.room = true) (answering : Answering message) (opened : sent ≠ [])
    : OriginOrder (slot.onMessage around arrival message).1 calls
        (sent ++ meshed (slot.onMessage around arrival message).2)
      ∧ ((slot.onMessage around arrival message).1.ingress ≠ none → slot.ingress ≠ none) := by
  have nothing : OriginOrder slot calls (sent ++ meshed []) := by
    rw [meshed_nil, List.append_nil]
    exact inv
  have ingress : ∀ event : IngressEvent, event.calls = []
      → OriginOrder (slot.onIngress around event).1 calls
          (sent ++ meshed (slot.onIngress around event).2)
        ∧ ((slot.onIngress around event).1.ingress ≠ none → slot.ingress ≠ none) := by
    intro event uncalled
    rcases held : slot.ingress with - | stream
    · have idle : slot.onIngress around event = (slot, []) := by
        rw [StreamSlot.onIngress, held]
      rw [idle]
      exact ⟨nothing, fun present => absurd held present⟩
    · have next := inv.onIngress held event picks fun message same => by
        rw [same] at uncalled
        cases message <;> cases uncalled
      rw [uncalled, List.append_nil] at next
      exact ⟨next, fun _ => Option.some_ne_none _⟩
  rcases answering with ⟨frame, rfl, from_⟩ | ⟨close, rfl⟩
  · rw [StreamSlot.onMessage, if_pos room, StreamSlot.processStreamFrame, if_neg (by simp [from_])]
    rcases held : slot.ingress with - | stream
    · refine ⟨inv.reply ?_ opened, fun present => absurd held present⟩
      exact fun message member => ⟨_, List.mem_singleton.mp member⟩
    · by_cases empty : frame.payload = []
      · simp only [if_pos empty]
        exact ⟨nothing, fun _ => Option.some_ne_none _⟩
      · simp only [if_neg empty]
        refine ⟨(ingress _ rfl).1, fun _ => Option.some_ne_none _⟩
  · rw [StreamSlot.onMessage, if_pos room, StreamSlot.processStreamClose]
    by_cases from_ : close.fromOrigin = true
    · rw [if_pos from_, inv.apart]
      exact ⟨nothing, id⟩
    · rw [if_neg from_]
      exact ingress _ rfl

theorem InSequence.deliverOrigin {around : Surroundings} {arrival : Arrival}
    (inv : InSequence history path) (picks : IngressStream.PicksThere around)
    (room : arrival.room = true)
    : InSequence
        (history
        ++ [{
            before := path
            event := (around, .deliver .origin arrival 0)
            outputs := (path.handle around (.deliver .origin arrival 0)).2
          }])
        (path.handle around (.deliver .origin arrival 0)).1 := by
  have ordered := @inOrder_front .origin _ room
  rcases flight : path.inbound with - | ⟨message, rest⟩
  · have eq : path.handle around (.deliver .origin arrival 0) = (path, []) := by
      simp [StreamPath.handle, flight]
    have arrives : path.delivers .origin (.deliver .origin arrival 0) = [] := by
      simp [delivers, inFlightTo, flight]
    refine inv.atOrigin ordered rfl (by rw [eq]) rfl ?_ rfl rfl (by rw [eq]; exact id) ?_
    · rw [eq]
      simpa [PathEvent.calls] using inv.origin
    · simp only [queues, flight, arrives]
      cases path.origin.ingress <;> rfl
  · have eq : path.handle around (.deliver .origin arrival 0) =
        { path with inbound := rest }.atOrigin (path.origin.onMessage around arrival message) := by
      simp [StreamPath.handle, flight]
    have arrives : path.delivers .origin (.deliver .origin arrival 0) = [message] := by
      simp [delivers, inFlightTo, flight]
    have answer : message ∈ sentBy .destination history := by
      rw [← inv.back, flight]
      exact List.mem_append_right _ List.mem_cons_self
    have opened : sentBy .origin history ≠ [] := by
      intro unsent
      have forth := inv.forth
      rw [unsent] at forth
      have idle := (inv.destination.idle (List.append_eq_nil_iff.mp forth).1).2
      rw [idle] at answer
      cases answer
    obtain ⟨next, kept⟩ := @onMessage_origin _ _ _ around arrival message inv.origin picks room
      (inv.destination.known message answer) opened
    refine inv.atOrigin ordered rfl (by rw [eq]; rfl) rfl ?_ rfl rfl (by rw [eq]; exact kept) ?_
    · rw [eq, show PathEvent.calls (.deliver .origin arrival 0) = [] from rfl, List.append_nil]
      exact next
    · rw [arrives]
      simp only [queues, flight]
      cases path.origin.ingress <;> simp [room]

/-- Without a call to the backend, what follows an opening is at most answered with closes. -/
theorem onMessage_absent {slot : StreamSlot} (around : Surroundings) {arrival : Arrival}
    {message : WireMessage} (apart : slot.ingress = none) (none_ : slot.backend = none)
    (room : arrival.room = true) (following : Following message)
    : ∃ next outputs, slot.onMessage around arrival message = (next, outputs)
      ∧ next.ingress = none
      ∧ next.backend = none
      ∧ ∀ message ∈ meshed outputs, ∃ close, message = .streamClose close := by
  have nothing : ∀ message ∈ meshed [], ∃ close, message = .streamClose close := nofun
  rcases following with ⟨frame, rfl, from_⟩ | ⟨close, rfl⟩
  · rw [StreamSlot.onMessage, if_pos room, StreamSlot.processStreamFrame, if_pos from_, none_]
    dsimp only
    rcases slot.unknownReply with - | last
    · exact ⟨{ slot with backend := none, unknownReply := some arrival.now }, [_], rfl, apart, rfl,
        fun message member => ⟨_, List.mem_singleton.mp member⟩⟩
    · by_cases late : arrival.now - last > kUnknownReplyMs
      · rw [if_pos (decide_eq_true late)]
        exact ⟨{ slot with backend := none, unknownReply := some arrival.now }, [_], rfl, apart, rfl,
          fun message member => ⟨_, List.mem_singleton.mp member⟩⟩
      · rw [if_neg (by simpa using late)]
        exact ⟨slot, [], rfl, apart, none_, nothing⟩
  · rw [StreamSlot.onMessage, if_pos room, StreamSlot.processStreamClose]
    split
    · rw [none_]
      exact ⟨slot, [], rfl, apart, none_, nothing⟩
    · rw [StreamSlot.onIngress, apart]
      exact ⟨slot, [], rfl, apart, none_, nothing⟩

/-- With a call to the backend, what follows an opening is for that call alone. -/
theorem onMessage_present {slot : StreamSlot} (around : Surroundings) {arrival : Arrival}
    {backend : BackendStream} {message : WireMessage} (apart : slot.ingress = none)
    (registered : slot.backend = some backend) (room : arrival.room = true)
    (following : Following message)
    : ∃ (after : StreamSlot) (done : List BackendAction) (next : BackendStream),
      slot.onMessage around arrival message = (after, done.map .backend)
      ∧ after.ingress = none
      ∧ after.backend = some next
      ∧ next.origin = backend.origin := by
  rcases following with ⟨frame, rfl, from_⟩ | ⟨close, rfl⟩
  · obtain ⟨next, done, outcome, taken⟩ := @processStreamFrame_takes slot backend around arrival
      frame _ registered ⟨frame, rfl, from_, rfl⟩
    rw [StreamSlot.onMessage, if_pos room]
    exact ⟨_, done, next, outcome, apart, rfl, taken.origin⟩
  · rw [StreamSlot.onMessage, if_pos room, StreamSlot.processStreamClose]
    split
    · rw [registered]
      exact ⟨slot, [.tryCancel], backend, rfl, apart, registered, rfl⟩
    · rw [StreamSlot.onIngress, apart]
      exact ⟨slot, [], backend, rfl, apart, registered, rfl⟩

theorem InSequence.deliverDestination {around : Surroundings} {arrival : Arrival}
    (inv : InSequence history path) (room : arrival.room = true)
    : InSequence
        (history
        ++ [{
            before := path
            event := (around, .deliver .destination arrival 0)
            outputs := (path.handle around (.deliver .destination arrival 0)).2
          }])
        (path.handle around (.deliver .destination arrival 0)).1 := by
  have destination := inv.destination
  have ordered := @inOrder_front .destination _ room
  rcases flight : path.outbound with - | ⟨message, rest⟩
  · have eq : path.handle around (.deliver .destination arrival 0) = (path, []) := by
      simp [StreamPath.handle, flight]
    have arrives : path.delivers .destination (.deliver .destination arrival 0) = [] := by
      simp [delivers, inFlightTo, flight]
    have nothing : path.passesOn (.deliver .destination arrival 0) = [] := by
      simp only [passesOn, flight]
      cases path.destination.backend <;> rfl
    refine inv.atDestination ordered rfl (by rw [eq]) rfl ?_ rfl rfl
    rw [eq, arrives, nothing, meshed_nil, List.append_nil, List.append_nil, List.append_nil]
    simpa [brings] using destination
  have eq : path.handle around (.deliver .destination arrival 0) =
      { path with outbound := rest }.atDestination
        (path.destination.onMessage around arrival message) := by
    simp [StreamPath.handle, flight]
  have arrives : path.delivers .destination (.deliver .destination arrival 0) = [message] := by
    simp [delivers, inFlightTo, flight]
  have passes : path.passesOn (.deliver .destination arrival 0) =
      if path.destination.backend = none then [] else (carried [message]).filter substantial := by
    simp only [passesOn, flight]
    cases path.destination.backend <;> simp [room]
  refine inv.atDestination ordered rfl (by rw [eq]; rfl) rfl ?_ rfl rfl
  rw [eq, arrives, passes, show path.brings (.deliver .destination arrival 0) = [] from rfl]
  show DestinationOrder (path.destination.onMessage around arrival message).1 _
    (sentBy .destination history
      ++ meshed (path.destination.onMessage around arrival message).2) _ _
  have forth := inv.forth
  rw [flight] at forth
  rcases inv.origin.begun with unsent | ⟨opening, follow, sent, following⟩
  · rw [unsent] at forth
    cases (List.append_eq_nil_iff.mp forth).2
  rcases arrivals : arrived .destination history with - | ⟨first, later⟩
  · -- the opening arrives
    rw [arrivals, sent, List.nil_append] at forth
    obtain rfl := (List.cons.inj forth).1
    obtain ⟨absent, unanswered⟩ := destination.idle arrivals
    rw [if_pos absent, List.append_nil, List.append_nil, StreamSlot.onMessage, if_pos room,
      List.nil_append]
    have fresh : DestinationOrder path.destination [] (sentBy .destination history)
        (passedOn history) (backendMessages history) := by
      rw [← arrivals]
      exact destination
    rcases processStreamOpen_opens path.destination around arrival opening with
      ⟨node, leaf, close, refused⟩ | ⟨leaf, node, opens⟩
    · rw [refused]
      refine fresh.absent destination.apart absent (by simp) ?_
      exact fun message member => ⟨close, List.mem_singleton.mp member⟩
    · rw [opens]
      have unpassed : passedOn history = [] := List.prefix_nil.mp fresh.order
      have unbrought : backendMessages history = [] := by
        rw [← fresh.brought, unanswered]
        rfl
      rw [unanswered, unpassed, unbrought]
      exact {
        apart := destination.apart
        idle := by simp
        home := fun backend same => ⟨leaf, node, by rw [← Option.some.inj same]⟩
        known := by simp
        brought := rfl
        passing := fun _ => rfl
        order := List.prefix_refl _
        closed := by simp
        last := fun front close back split => by
          have empty : front ++ .streamClose close :: back = [] := split.symm
          cases (List.append_eq_nil_iff.mp empty).2
      }
  · -- something after the opening arrives
    rw [arrivals, sent, List.cons_append] at forth
    have member : message ∈ follow := by
      rw [← (List.cons.inj forth).2]
      exact List.mem_append_right _ List.mem_cons_self
    rw [← arrivals]
    have some_ : arrived .destination history ++ [message] ≠ [] := by simp
    rcases registered : path.destination.backend with - | backend
    · obtain ⟨slot, replies, outcome, apart, absent, closes⟩ :=
        onMessage_absent around destination.apart registered room
          (following message member)
      rw [if_pos rfl, outcome, List.append_nil, List.append_nil]
      exact destination.absent apart absent some_ closes
    · obtain ⟨slot, done, next, outcome, apart, kept, home⟩ :=
        onMessage_present around destination.apart registered room
          (following message member)
      rw [if_neg (Option.some_ne_none _), outcome, meshed_backend]
      exact destination.present registered apart kept home .nil

theorem InSequence.client {around : Surroundings} {event : ClientEvent}
    (inv : InSequence history path) (picks : IngressStream.PicksThere around)
    (reads : ∀ message, event = .read message
      → ∃ stream, path.origin.ingress = some stream ∧ stream.readOutstanding = true)
    : InSequence
        (history
        ++ [{
            before := path
            event := (around, .client event)
            outputs := (path.handle around (.client event)).2
          }])
        (path.handle around (.client event)).1 := by
  have unqueued : path.queues (.client event) =
      if path.origin.ingress = none then []
      else (answered (path.delivers .origin (.client event))).filter filled := by
    split <;> rfl
  rcases held : path.origin.ingress with - | stream
  · have idle : path.handle around (.client event) = path.atOrigin (path.origin, []) := by
      rw [handle, StreamSlot.onIngress, held]
    have uncalled : PathEvent.calls (.client event) = [] := by
      rcases event with message | - | - | - | - <;> try rfl
      obtain ⟨stream, present, -⟩ := reads message rfl
      cases held.symm.trans present
    refine inv.atOrigin (fun _ _ _ same => by cases same) rfl (by rw [idle]; rfl) rfl ?_ rfl rfl
      (by rw [idle]; exact id) unqueued
    rw [idle, uncalled]
    simpa [StreamPath.atOrigin] using inv.origin
  · refine inv.atOrigin (fun _ _ _ same => by cases same) rfl rfl rfl ?_ rfl rfl ?_ unqueued
    · rw [calls_client]
      refine inv.origin.onIngress held event.toIngress picks ?_
      intro message same
      cases event with
      | read other =>
          obtain ⟨reader, present, reading⟩ := reads other rfl
          rw [Option.some.inj (held.symm.trans present)]
          exact reading
      | _ => cases same
    · exact fun _ => by rw [held]; exact Option.some_ne_none _

theorem InSequence.sweep {around : Surroundings} {side : Side} (inv : InSequence history path)
    : InSequence
        (history
        ++ [{
            before := path
            event := (around, .sweep side)
            outputs := (path.handle around (.sweep side)).2
          }])
        (path.handle around (.sweep side)).1 := by
  cases side with
  | origin =>
      have swept : path.origin.sweep = path.origin
          ∨ path.origin.sweep = { path.origin with ingress := none } := by
        rw [StreamSlot.sweep]
        rcases path.origin.ingress with - | stream
        · exact .inl rfl
        · dsimp only
          split
          · exact .inr rfl
          · exact .inl rfl
      refine inv.atOrigin (fun _ _ _ same => by cases same) rfl rfl rfl ?_ rfl rfl ?_ (by split <;> rfl)
      · show OriginOrder path.origin.sweep (clientCalls history ++ []) (sentBy .origin history ++ [])
        rw [List.append_nil, List.append_nil]
        rcases swept with same | gone
        · rw [same]
          exact inv.origin
        · rw [gone]
          exact ⟨inv.origin.apart, inv.origin.begun, inv.origin.order, (by simp)⟩
      · show path.origin.sweep.ingress ≠ none → _
        rcases swept with same | gone
        · rw [same]
          exact id
        · rw [gone]
          exact fun present => absurd rfl present
  | destination =>
      have same : path.destination.sweep = path.destination := by
        rw [StreamSlot.sweep, inv.destination.apart]
      refine inv.atDestination (fun _ _ _ same => by cases same) rfl rfl rfl ?_ rfl rfl
      show DestinationOrder path.destination.sweep (arrived .destination history ++ [])
        (sentBy .destination history ++ []) (passedOn history ++ []) (backendMessages history ++ [])
      simp only [List.append_nil, same]
      exact inv.destination

theorem InSequence.next {event : Surroundings × PathEvent} (inv : InSequence history path)
    (sequential : Sequential history path event)
    : InSequence
        (history ++ [{ before := path, event, outputs := (path.handle event.1 event.2).2 }])
        (path.handle event.1 event.2).1 := by
  obtain ⟨around, event⟩ := event
  cases event with
  | client event =>
      refine inv.client sequential.picks fun message same => sequential.reads message ?_
      rw [same]
  | backend side completion =>
      cases side with
      | origin =>
          have idle : path.handle around (.backend .origin completion) =
              path.atOrigin (path.origin, []) := by
            rw [handle, StreamSlot.onBackend, inv.origin.apart]
          refine inv.atOrigin (fun _ _ _ same => by cases same) rfl (by rw [idle]; rfl) rfl ?_
            (brings_nothing (.inl inv.origin.apart)) rfl (by rw [idle]; exact id)
            (by split <;> rfl)
          rw [idle]
          simpa [StreamPath.atOrigin, PathEvent.calls] using inv.origin
      | destination => exact inv.backend
  | deliver side arrival index =>
      obtain ⟨rfl, room⟩ := sequential.ordered side arrival index rfl
      cases side with
      | origin => exact inv.deliverOrigin sequential.picks room
      | destination => exact inv.deliverDestination room
  | sweep side => exact inv.sweep

variable {requestId method : Bytes} {metadata : List (Bytes × Bytes)}

theorem run_inSequence
    (run : Run step Sequential (newPath requestId method metadata) history path)
    : InSequence history path := by
  refine run.invariant InSequence ?_ ?_
  · exact {
      origin := {
        apart := rfl
        begun := .inl rfl
        order := List.nil_prefix
        held := by
          rintro stream ⟨⟩
          exact ⟨⟨nofun, fun _ => rfl, nofun⟩, ⟨nofun, fun sent => absurd rfl sent⟩, [], rfl, .inl rfl⟩
      }
      destination := {
        apart := rfl
        idle := fun _ => ⟨rfl, rfl⟩
        home := nofun
        known := nofun
        brought := rfl
        passing := fun _ => rfl
        order := List.nil_prefix
        closed := nofun
        last := fun front close back split => by
          cases (List.append_eq_nil_iff.mp split.symm).2
      }
      forth := rfl
      back := rfl
      queueing := fun _ => rfl
      queued := List.nil_prefix
    }
  · intro history path event after outputs _ inv sequential taken
    obtain ⟨rfl, rfl⟩ := step_handle taken
    exact inv.next sequential

/-- What is delivered in order is the oldest message in flight. -/
theorem delivers_inOrder {side : Side} {event : PathEvent} {message : WireMessage}
    (ordered : InOrder event) (delivered : message ∈ path.delivers side event)
    : path.delivers side event = [message] ∧ ∃ rest, path.inFlightTo side = message :: rest := by
  cases event with
  | deliver target arrival index =>
      obtain ⟨rfl, -⟩ := ordered target arrival index rfl
      rw [delivers] at delivered ⊢
      split at delivered
      · rename_i same
        rcases flight : path.inFlightTo side with - | ⟨first, rest⟩
        · rw [flight] at delivered
          cases delivered
        · rw [flight] at delivered
          obtain rfl := List.mem_singleton.mp delivered
          exact ⟨by rw [if_pos same]; rfl, rest, rfl⟩
      · cases delivered
  | _ => cases delivered

/-- In any run of a stream to an endpoint of another leaf over a mesh that delivers everything in
order, however the stream ends and whatever its events are interleaved with, the stream stays in
order at both leaves.
-/
theorem run_orderly
    (run : Run step Sequential (newPath requestId method metadata) history path)
    : Orderly history := by
  have inv := run_inSequence run
  refine ⟨?_, ?_, ?_, ?_⟩
  · intro front stage back split carries
    obtain ⟨runFront, sequential, -⟩ := run.at_stage split
    have before := run_inSequence runFront
    obtain ⟨message, member⟩ :
        ∃ message, message ∈ stage.before.delivers .destination stage.event.2 := by
      refine List.exists_mem_of_ne_nil _ fun empty => carries ?_
      rw [empty]
      rfl
    obtain ⟨single, rest, flight⟩ := delivers_inOrder sequential.ordered member
    have forth := before.forth
    rw [show stage.before.outbound = message :: rest from flight] at forth
    rcases before.origin.begun with unsent | ⟨opening, follow, sent, -⟩
    · rw [unsent] at forth
      cases (List.append_eq_nil_iff.mp forth).2
    · rw [sent] at forth
      rcases arrivals : arrived .destination front with - | ⟨first, later⟩
      · rw [arrivals, List.nil_append] at forth
        rw [single, (List.cons.inj forth).1] at carries
        exact absurd rfl carries
      · rw [arrivals, List.cons_append] at forth
        exact ⟨opening, by rw [(List.cons.inj forth).1]; exact List.mem_cons_self⟩
  · have sent : (carried (arrived .destination history)).filter substantial
        <+: (carried (sentBy .origin history)).filter substantial := by
      rw [← inv.forth, carried_append, List.filter_append]
      exact List.prefix_append _ _
    exact inv.destination.order.trans (sent.trans (inv.origin.order.filter _))
  · have answers : (answered (arrived .origin history)).filter filled
        <+: (backendMessages history).filter filled := by
      rw [← inv.destination.brought, ← inv.back, answered_append, List.filter_append]
      exact List.prefix_append _ _
    exact inv.queued.trans answers
  · intro front stage back close split delivered present
    have before := run_inSequence (run.at_stage split).1
    have arrivals : arrived .origin history =
        arrived .origin front ++ .streamClose close :: arrived .origin back := by
      rw [split, arrived, List.flatMap_append, List.flatMap_cons, delivered]
      rfl
    have answers : sentBy .destination history =
        arrived .origin front
          ++ .streamClose close :: (arrived .origin back ++ path.inbound) := by
      rw [← inv.back, arrivals, List.append_assoc]
      rfl
    have nothing := inv.destination.last _ close _ answers
    rw [before.queueing present, ← inv.destination.brought, answers, answered_append,
      ← List.singleton_append, answered_append, nothing, List.append_nil]
    exact congrArg _ (List.append_nil _).symm

-- Two runs

/-- Steady steps between two leaves deliver everything in order. -/
theorem sequential_of_steady {event : Surroundings × PathEvent}
    (steady : path.Steady IngressStream.PicksThere history event)
    : Sequential history path event where
  picks := steady.picks
  reads := steady.reads
  room := fun side arrival index same => (steady.ordered side arrival index same).2
  ordered := steady.ordered

/-- Witness: one message each way, and the half-close. -/
theorem run_orderly_exchange
    : ∃ history, Orderly history
      ∧ passedOn history = [.message [5], .halfClose]
      ∧ queuedIn history = [[6]] := by
  have steady := run_of_execute false (fun _ => picksThere_of_check)
    (rfl : execute step (newPath [7] [8] []) (exchangeThere [5] [6]) = _) (by decide)
  exact ⟨_, run_orderly (steady.mono fun _ _ _ => sequential_of_steady), rfl, rfl⟩

/-- The first fragments of two messages of one peer, each its own message with its parity: the first
message is lost once and arrives after the second.
-/
def retransmitted (first second : Bytes) : List Tight.Reassembler.Arrival :=
  [(2, 3, second), (1, 1, first)].flatMap fun (messageId, sequence, payload) =>
    let outcome := Tight.Fragmenter.fragmentAndSend default { msgIdOut := messageId } payload 53 []
    (outcome.calls.take 1).map fun call =>
      {
        header := { call.header with sequence := sequence }
        payload := call.payload
        context := { now := 0, arrivalMs := 0, rttUs := 0, maxMessageBytes := 65536 }
      }

/-- The client sends two messages; the frame of the second arrives first. -/
def overtaking (first second : Bytes) : List (Surroundings × PathEvent) :=
  [
    .client (.read (some first)),
    .client (.read (some second)),
  ].map (picking [1] [3], ·)
  ++ [
    .deliver .destination { endpoint := some { alive := true }, created := true } 0,
    .deliver .destination {} 1,
    .deliver .destination {} 0
  ].map (picking [3] [1], ·)

/-- Whether a step loses nothing, as a check. -/
def isRecovered (path : StreamPath) (event : Surroundings × PathEvent) : Bool :=
  (match event.1.pick with
    | .refused _ => true
    | .picked endpoint _ => endpoint.ownerLeaf != event.1.leafId)
  && match event.2 with
    | .client (.read _) => path.origin.ingress.any (·.readOutstanding)
    | .deliver _ arrival _ => arrival.room
    | _ => true

theorem recovered_of_check {event : Surroundings × PathEvent}
    (checked : path.isRecovered event = true)
    : Recovered history path event := by
  obtain ⟨around, event⟩ := event
  simp only [isRecovered, Bool.and_eq_true] at checked
  obtain ⟨picks, lawful⟩ := checked
  refine ⟨?_, ?_, ?_⟩
  · intro endpoint created same
    rw [same] at picks
    simpa using picks
  · intro message same
    obtain rfl : event = .client (.read message) := same
    exact (Option.any_eq_true _ _).mp lawful
  · intro side arrival index same
    obtain rfl : event = .deliver side arrival index := same
    exact lawful

/-- A message whose only fragment is lost and sent again completes after the message behind it, and
a stream whose frames complete in that order has its messages passed on in that order.
-/
theorem retransmission_overtaken
    : (Tight.Reassembler.run default {} (retransmitted [5] [6])).toOption.map (·.2) =
        some [(2, [6]), (1, [5])]
      ∧ ∃ history path, Run step Recovered (newPath [7] [8] []) history path
        ∧ clientCalls history = [.message [5], .message [6]]
        ∧ passedOn history = [.message [6], .message [5]]
        ∧ ¬Orderly history := by
  refine ⟨by decide +kernel, ?_⟩
  have executed := Run.extend .start
    (rfl : execute step (newPath [7] [8] []) (overtaking [5] [6]) = _)
  have run := @Run.of_audit _ _ _ _ _ Recovered _ _ _ (fun _ path event => path.isRecovered event)
    executed (fun _ _ _ => recovered_of_check) (by decide)
  refine ⟨_, _, run, rfl, rfl, fun orderly => ?_⟩
  exact absurd orderly.passed (by decide)

end StreamPath

end Creek.Leaf
