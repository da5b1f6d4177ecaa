import Creek.Proofs.Leaf.StreamRuns

/-! A stream to an endpoint of the leaf of the client: as long as it is not broken off, the call to
the backend takes what the client does, and the client is queued what the backend sends.
-/

namespace Creek.Leaf

open Tight (Bytes)
open Library

/-- The slot of a stream within a leaf: before it is opened everything the client has sent is held
back; after that the call to the backend has taken all of it.
-/
structure Here (slot : StreamSlot) (stream : IngressStream) (calls given : List ClientCall)
    (received gone : List Bytes)
    : Prop where
  held : slot.ingress = some stream
  progress : stream.Progress
  reading : Reading stream calls
  opened :
    stream.phase ≠ .streaming ∧ slot.backend = none ∧ given = []
      ∧ calls = stream.buffered.map .message
    ∨ stream.phase = .streaming ∧ stream.remote = false ∧ stream.buffered = []
      ∧ ∃ backend, slot.backend = some backend
        ∧ backend.Ready
        ∧ backend.origin = .here
        ∧ (backend.halfCloseRequested = true → .halfClose ∈ calls)
        ∧ given ++ backend.waiting = calls
  queued : gone ++ stream.writeQueue = received

namespace Here

variable {slot : StreamSlot} {stream : IngressStream} {calls given : List ClientCall}
  {received gone : List Bytes} {around : Surroundings}

theorem onIngress (inv : Here slot stream calls given received gone) (event : IngressEvent)
    (picks : IngressStream.PicksHere around)
    (outstanding : ∀ message, event = .read message → stream.readOutstanding = true)
    (live : (stream.handle around event).1.Live)
    (room : ∀ backend, (slot.onIngress around event).1.backend = some backend
      → backend.overflowLogged = false)
    : Here (slot.onIngress around event).1 (stream.handle around event).1 (calls ++ event.calls)
        (given ++ handed (slot.onIngress around event).2) (received ++ event.incoming)
        (gone ++ delivered (slot.onIngress around event).2)
      ∧ meshed (slot.onIngress around event).2 = [] := by
  have passes := IngressStream.handle_passes inv.reading.attentive outstanding live
  obtain ⟨progress, queues⟩ := IngressStream.handle_queues inv.progress live
  rw [StreamSlot.onIngress_eq inv.held] at room ⊢
  obtain ⟨ingress, delivers, meshes⟩ :=
    ({ slot with ingress := some (stream.handle around event).1 } : StreamSlot).performAll_frame
      (stream.handle around event).2
  have reading := inv.reading.next outstanding passes
  have queued : gone ++ delivered (({ slot with ingress := some (stream.handle around event).1 }
      : StreamSlot).performAll (stream.handle around event).2).2
        ++ (stream.handle around event).1.writeQueue = received ++ event.incoming := by
    rw [delivers, List.append_assoc, ← queues, ← List.append_assoc, inv.queued]
  cases passes.moves with
  | waits early still unopened quiet unposted kept =>
      rcases inv.opened with ⟨-, absent, rfl, held⟩ | ⟨open_, -⟩
      · obtain ⟨same, silent⟩ := @StreamSlot.performAll_none
          { slot with ingress := some (stream.handle around event).1 } _ absent unopened
        refine ⟨⟨ingress, progress, reading, .inl ⟨still, ?_, ?_, ?_⟩, queued⟩, ?_⟩
        · rw [same]
          exact absent
        · rw [silent]
          rfl
        · rw [held, kept]
        · rw [meshes, unposted]
      · exact absurd open_ early
  | opensThere early opened there empty other unopened posts passed => exact absurd picks other
  | @opensHere early opened here empty unposted own front back endpoint split before unopened passed =>
      rcases inv.opened with ⟨-, absent, rfl, held⟩ | ⟨open_, -⟩
      · obtain ⟨same, silent⟩ := @StreamSlot.performAll_none
          { slot with ingress := some (stream.handle around event).1 } _ absent before
        obtain ⟨next, done, registered, hands, taken⟩ := @StreamSlot.performAll_some
          {
            slot with
            ingress := some (stream.handle around event).1
            backend := some { requestId := (stream.handle around event).1.requestId, origin := .here }
          }
          back _ rfl unopened
        have all : ({ slot with ingress := some (stream.handle around event).1 }
            : StreamSlot).performAll (stream.handle around event).2 =
              (
                (({
                  slot with
                  ingress := some (stream.handle around event).1
                  backend := some
                    { requestId := (stream.handle around event).1.requestId, origin := .here }
                } : StreamSlot).performAll back).1,
                (({ slot with ingress := some (stream.handle around event).1 }
                  : StreamSlot).performAll front).2
                ++ (({
                  slot with
                  ingress := some (stream.handle around event).1
                  backend := some
                    { requestId := (stream.handle around event).1.requestId, origin := .here }
                } : StreamSlot).performAll back).2
              ) := by
          rw [split, StreamSlot.performAll_append, same, StreamSlot.performAll_cons]
          rfl
        have roomNext := room next (by rw [all]; exact registered)
        rw [passed, ← held] at taken
        obtain ⟨asked, order⟩ := @BackendStream.takes [] [] _ next done (calls ++ event.calls)
          (BackendStream.ready_new _ _) (fun requested => by cases requested) rfl reading.last taken
          roomNext
        refine ⟨⟨ingress, progress, reading, .inr ⟨opened, here, empty, next, ?_, ?_, ?_, ?_, ?_⟩,
          queued⟩, ?_⟩
        · rw [all]
          exact registered
        · exact taken.ready (BackendStream.ready_new _ _)
        · exact taken.origin
        · exact asked
        · rw [all, handed_append, silent, List.nil_append, hands]
          exact order
        · rw [meshes, unposted]
      · exact absurd open_ early
  | streams open_ still remote buffered unopened here there =>
      rcases inv.opened with ⟨early, -⟩ | ⟨-, local_, empty, backend, registered, ready, home, asked, order⟩
      · exact absurd open_ early
      · obtain ⟨passed, unposted⟩ := here local_
        obtain ⟨next, done, registeredNext, hands, taken⟩ := @StreamSlot.performAll_some
          { slot with ingress := some (stream.handle around event).1 }
          (stream.handle around event).2 backend registered unopened
        rw [passed] at taken
        obtain ⟨askedNext, orderNext⟩ :=
          BackendStream.takes ready asked order reading.last taken (room next registeredNext)
        refine ⟨⟨ingress, progress, reading, .inr ⟨still, remote.trans local_, buffered.trans empty,
          next, registeredNext, taken.ready ready, taken.origin.trans home, askedNext, ?_⟩,
          queued⟩, ?_⟩
        · rw [hands]
          exact orderNext
        · rw [meshes, unposted]

/-- What the call to the backend does by itself, taking nothing. -/
theorem drives (inv : Here slot stream calls given received gone) {backend next : BackendStream}
    {done : List BackendAction} (registered : slot.backend = some backend)
    (taken : backend.Takes next done []) (room : next.overflowLogged = false)
    : Here { slot with backend := some next } stream calls
        (given ++ handed (done.map .backend)) received
        (gone ++ delivered (done.map .backend)) := by
  have opened := inv.opened
  rw [registered] at opened
  rcases opened with ⟨-, absent, -⟩ | ⟨open_, remote, empty, held, same, ready, home, asked, order⟩
  · cases absent
  · obtain rfl := Option.some.inj same
    have last : .halfClose ∉ (calls ++ []).dropLast := by
      rw [List.append_nil]
      exact inv.reading.last
    obtain ⟨askedNext, orderNext⟩ := BackendStream.takes ready asked order last taken room
    rw [List.append_nil] at askedNext orderNext
    rw [handed_backend, delivered_backend, List.append_nil]
    exact {
      inv with
      opened := .inr ⟨open_, remote, empty, next, rfl, taken.ready ready, taken.origin.trans home,
        askedNext, orderNext⟩
    }

/-- The call to a backend within a leaf answers the ingress stream of that leaf. -/
theorem home (inv : Here slot stream calls given received gone) {backend : BackendStream}
    (registered : slot.backend = some backend)
    : backend.origin = .here := by
  have opened := inv.opened
  rw [registered] at opened
  rcases opened with ⟨-, absent, -⟩ | ⟨-, -, -, held, same, -, home, -⟩
  · cases absent
  · cases same
    exact home

end Here

namespace StreamPath

variable {path : StreamPath} {history : List PathStage}

/-- A path within a leaf: the mesh and the other leaf have no part in it. -/
structure Local (history : List PathStage) (path : StreamPath) : Prop where
  here : ∃ stream, Here path.origin stream (clientCalls history) (handed (emitted history))
    (backendMessages history) (delivered (emitted history))
  apart : path.outbound = [] ∧ path.inbound = [] ∧ path.destination = {}

/-- A step that changes nothing and in which neither the client nor the backend does anything. -/
theorem Local.same {event : Surroundings × PathEvent} (inv : Local history path)
    (eq : path.handle event.1 event.2 = (path, [])) (calls : event.2.calls = [])
    (messages : path.brings event.2 = [])
    : Local
        (history ++ [{ before := path, event, outputs := (path.handle event.1 event.2).2 }])
        (path.handle event.1 event.2).1 := by
  rw [eq]
  refine ⟨?_, inv.apart⟩
  simp only [clientCalls_append, backendMessages_append, emitted_append, emitted_singleton,
    calls, messages, List.append_nil]
  exact inv.here

theorem Local.atOrigin {event : Surroundings × PathEvent}
    {outcome : StreamSlot × List LeafAction} (inv : Local history path)
    (eq : path.handle event.1 event.2 = path.atOrigin outcome)
    (here : ∃ stream, Here outcome.1 stream (clientCalls history ++ event.2.calls)
      (handed (emitted history) ++ handed outcome.2)
      (backendMessages history ++ path.brings event.2)
      (delivered (emitted history) ++ delivered outcome.2))
    (unposted : meshed outcome.2 = [])
    : Local
        (history ++ [{ before := path, event, outputs := (path.handle event.1 event.2).2 }])
        (path.handle event.1 event.2).1 := by
  rw [eq]
  refine ⟨?_, ?_⟩
  · simp only [clientCalls_append, backendMessages_append, emitted_append, emitted_singleton,
      handed_append, delivered_append]
    exact here
  · obtain ⟨outbound, inbound, destination⟩ := inv.apart
    refine ⟨?_, inbound, destination⟩
    show path.outbound ++ meshed outcome.2 = []
    rw [outbound, unposted]
    rfl

/-- What the completion at the call to the backend does within a leaf. -/
theorem Local.backend {around : Surroundings} {completion : BackendCompletion}
    (inv : Local history path) (picks : IngressStream.PicksHere around)
    (intact : (path.handle around (.backend .origin completion)).1.Intact)
    : Local
        (history
        ++ [{
            before := path
            event := (around, .backend .origin completion)
            outputs := (path.handle around (.backend .origin completion)).2
          }])
        (path.handle around (.backend .origin completion)).1 := by
  obtain ⟨stream, here⟩ := inv.here
  obtain ⟨last, held, live⟩ := intact.live
  have room : ∀ backend, (path.origin.onBackend around completion).1.backend = some backend
      → backend.overflowLogged = false := fun backend => intact.room .origin backend
  change (path.origin.onBackend around completion).1.ingress = some last at held
  rcases registered : path.origin.backend with - | backend
  · refine inv.same ?_ rfl (brings_nothing (.inl registered))
    dsimp only
    rw [StreamPath.handle, StreamSlot.onBackend, registered]
    simp only [StreamPath.atOrigin, meshed_nil, List.append_nil]
  by_cases ends : ∃ status, completion = .finish status
  · obtain ⟨status, rfl⟩ := ends
    rw [StreamSlot.onBackend, registered] at held
    simp only [here.home registered] at held
    have same := held.symm.trans (StreamSlot.onIngress_ingress
      (show ({ path.origin with backend := none } : StreamSlot).ingress = some stream
        from here.held) (.backendClosed status))
    cases same
    exact absurd live (IngressStream.backendClosed_ends status stream)
  by_cases reads : ∃ message, completion = .read message
  · obtain ⟨- | bytes, rfl⟩ := reads
    · have eq : path.origin.onBackend around (.read none) =
          (path.origin, [.backend .finish]) := by
        rw [StreamSlot.onBackend, registered]
      refine inv.atOrigin (congrArg path.atOrigin eq) ⟨stream, ?_⟩ rfl
      simpa [PathEvent.calls, brings, handed, handedBy, delivered] using here
    · have eq : path.origin.onBackend around (.read (some bytes)) =
          (
            (path.origin.onIngress around (.backendMessage bytes)).1,
            (path.origin.onIngress around (.backendMessage bytes)).2 ++ [.backend .read]
          ) := by
        rw [StreamSlot.onBackend, registered]
        simp only [here.home registered]
      rw [eq] at held room
      have alive : (stream.handle around (.backendMessage bytes)).1.Live := by
        have same := held.symm.trans (StreamSlot.onIngress_ingress here.held (.backendMessage bytes))
        cases same
        exact live
      obtain ⟨next, unposted⟩ := here.onIngress (.backendMessage bytes) picks (by simp) alive room
      refine inv.atOrigin (congrArg path.atOrigin eq)
        ⟨(stream.handle around (.backendMessage bytes)).1, ?_⟩ ?_
      · have bring : path.brings (.backend .origin (.read (some bytes))) = [bytes] := by
          simp [brings, backendAt, registered]
        dsimp only
        rw [bring, handed_append, delivered_append, show handed [.backend .read] = [] from rfl,
          show delivered [.backend .read] = [] from rfl, List.append_nil, List.append_nil]
        exact next
      · rw [meshed_append, unposted]
        rfl
  push Not at ends reads
  obtain ⟨next, done, eq, taken⟩ := StreamSlot.onBackend_drives around registered reads ends
  rw [eq] at room
  have drives := here.drives registered taken (room next rfl)
  refine inv.atOrigin (congrArg path.atOrigin eq) ⟨stream, ?_⟩ (meshed_backend done)
  dsimp only
  rw [brings_nothing (.inr reads), show PathEvent.calls (.backend .origin completion) = [] from rfl,
    List.append_nil, List.append_nil]
  exact drives

/-- Every step of a path within a leaf after which it is intact keeps it. -/
theorem Local.next {event : Surroundings × PathEvent} (inv : Local history path)
    (steady : path.Steady IngressStream.PicksHere history event)
    (intact : (path.handle event.1 event.2).1.Intact)
    : Local
        (history ++ [{ before := path, event, outputs := (path.handle event.1 event.2).2 }])
        (path.handle event.1 event.2).1 := by
  obtain ⟨around, event⟩ := event
  obtain ⟨stream, here⟩ := inv.here
  obtain ⟨outbound, inbound, destination⟩ := inv.apart
  cases event with
  | client event =>
      have reads := steady.outstanding here.held
      have alive := intact.live_client here.held
      obtain ⟨next, unposted⟩ := here.onIngress event.toIngress steady.picks reads alive
        fun backend => intact.room .origin backend
      rw [incoming_client, ← calls_client] at next
      exact inv.atOrigin rfl ⟨_, next⟩ unposted
  | deliver side arrival index =>
      refine inv.same ?_ rfl rfl
      cases side
      · simp only [StreamPath.handle, inbound, List.getElem?_nil]
      · simp only [StreamPath.handle, outbound, List.getElem?_nil]
  | sweep side =>
      refine inv.same ?_ rfl rfl
      cases side with
      | origin =>
          obtain ⟨live, held, going⟩ := steady.intact.live
          simp only [StreamPath.handle, StreamSlot.sweep_live held going]
      | destination =>
          have kept : path.destination.sweep = path.destination := by
            rw [destination]
            rfl
          simp only [StreamPath.handle, kept]
  | backend side completion =>
      cases side with
      | origin => exact inv.backend steady.picks intact
      | destination =>
          have absent : path.destination.backend = none := by rw [destination]
          refine inv.same ?_ rfl (brings_nothing (.inl absent))
          dsimp only
          rw [StreamPath.handle, StreamSlot.onBackend, absent]
          simp only [StreamPath.atDestination, meshed_nil, List.append_nil]

end StreamPath

end Creek.Leaf
