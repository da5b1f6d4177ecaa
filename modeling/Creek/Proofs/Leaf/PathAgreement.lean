import Creek.Proofs.Leaf.LocalPath
import Creek.Proofs.Leaf.RoutedPath

/-! A stream to an endpoint of the leaf of the client and a stream to an endpoint of another leaf
hand the backend and the client the same, exactly when neither has sent an empty message: frames
without a payload are dropped where they arrive.
-/

namespace Creek.Leaf

open Tight (Bytes)
open Mesh (Endpoint)
open Library

namespace StreamPath

variable {path here there : StreamPath} {history front back : List PathStage}
  {requestId method requestId' method' : Bytes} {metadata metadata' : List (Bytes × Bytes)}

theorem reading_newCall (requestId method : Bytes) (metadata : List (Bytes × Bytes))
    : Reading (.newCall requestId method metadata) [] :=
  ⟨⟨nofun, nofun⟩, nofun, List.not_mem_nil⟩

theorem run_local (run : Run step (Steady IngressStream.PicksHere)
      (newPath requestId method metadata) history path)
    (intact : path.Intact)
    : Local history path := by
  refine run.invariant (fun history path => path.Intact → Local history path) ?_ ?_ intact
  · intro _
    exact ⟨⟨_, rfl, fun _ waiting => absurd rfl waiting, reading_newCall _ _ _,
      .inl ⟨nofun, rfl, rfl, rfl⟩, rfl⟩, rfl, rfl, rfl⟩
  · intro history path event after outputs _ inv steady taken
    obtain ⟨rfl, rfl⟩ := step_handle taken
    exact (inv steady.intact).next steady

theorem run_routed (run : Run step (Steady IngressStream.PicksThere)
      (newPath requestId method metadata) history path)
    (intact : path.Intact)
    : Routed history path := by
  refine run.invariant (fun history path => path.Intact → Routed history path) ?_ ?_ intact
  · intro _
    exact ⟨⟨_, rfl, fun _ waiting => absurd rfl waiting, reading_newCall _ _ _, rfl,
      .inl ⟨nofun, rfl, rfl⟩, rfl⟩, ⟨rfl, .inl ⟨rfl, rfl, rfl, rfl, rfl⟩⟩, rfl, rfl⟩
  · intro history path event after outputs _ inv steady taken
    obtain ⟨rfl, rfl⟩ := step_handle taken
    exact (inv steady.intact).next steady

theorem Local.complete (inv : Local history path) (complete : path.Complete)
    : handedOver history path = clientCalls history
      ∧ queuedUp history path = backendMessages history := by
  obtain ⟨stream, here⟩ := inv.here
  obtain ⟨-, -, destination⟩ := inv.apart
  constructor
  · rw [handedOver, destination]
    rcases here.opened with ⟨-, absent, ungiven, calls⟩ | ⟨-, -, -, backend, registered, -, -, -, order⟩
    · rw [absent, ungiven, calls, complete.flushed stream here.held]
      rfl
    · rw [registered, ← order]
      simp
  · rw [queuedUp, here.held, ← here.queued]
    simp

/-- Between two leaves everything but empty messages is handed over and queued up. -/
theorem Routed.complete (inv : Routed history path) (complete : path.Complete)
    : handedOver history path = (clientCalls history).filter substantial
      ∧ queuedUp history path = (backendMessages history).filter fun bytes => !bytes.isEmpty := by
  obtain ⟨stream, origin⟩ := inv.origin
  have forth := inv.forth
  have answered := inv.back
  rw [complete.arrived, List.append_nil] at forth
  rw [complete.answered, List.append_nil] at answered
  rcases inv.destination.opened with
    ⟨none_, absent, ungiven, unanswered, unreceived⟩
    | ⟨opening, frames, calls, backend, arrivals, carried, registered, -, -, -, order, brings⟩
  · rcases origin.opened with ⟨-, -, calls⟩ | ⟨-, -, -, opening, frames, sent, -⟩
    · constructor
      · rw [handedOver, origin.apart, absent, ungiven, calls, complete.flushed stream origin.held]
        rfl
      · rw [queuedUp, origin.held, unreceived]
        have queued := origin.queued
        rw [answered, unanswered] at queued
        simpa [payloads] using queued
    · rw [none_, sent] at forth
      cases forth
  · rcases origin.opened with ⟨-, unsent, -⟩ | ⟨-, -, -, opening', frames', sent, carries⟩
    · rw [arrivals, unsent] at forth
      cases forth
    · rw [arrivals, sent] at forth
      obtain rfl := (List.cons.inj forth).2
      obtain rfl := Carries.unique.forall₂ carried carries
      constructor
      · rw [handedOver, origin.apart, registered, ← order]
        simp
      · have queued := origin.queued
        rw [answered, payloads_brings brings] at queued
        rw [queuedUp, origin.held, ← queued]
        simp

/-- For any run of a stream within a leaf and any run between two leaves over an in-order lossless
mesh, in which the client has done and the backend has sent the same and everything has got through:
what the backend and the client are handed is the same exactly when no message was empty.
-/
theorem paths_agree_iff
    (local_ : Run step (Steady IngressStream.PicksHere) (newPath requestId method metadata)
      front here)
    (routed : Run step (Steady IngressStream.PicksThere) (newPath requestId' method' metadata')
      back there)
    (completeHere : here.Complete) (completeThere : there.Complete)
    (calls : clientCalls front = clientCalls back)
    (messages : backendMessages front = backendMessages back)
    : handedOver front here = handedOver back there ∧ queuedUp front here = queuedUp back there
      ↔ .message [] ∉ clientCalls front ∧ [] ∉ backendMessages front := by
  obtain ⟨handedHere, queuedHere⟩ := (run_local local_ completeHere.intact).complete completeHere
  obtain ⟨handedThere, queuedThere⟩ :=
    (run_routed routed completeThere.intact).complete completeThere
  rw [handedHere, queuedHere, handedThere, queuedThere, ← calls, ← messages, eq_comm,
    List.filter_eq_self, @eq_comm _ (backendMessages front), List.filter_eq_self]
  refine and_congr ?_ ?_
  · constructor
    · intro all member
      cases all _ member
    · intro none_ call member
      rcases call with (- | ⟨byte, rest⟩) | -
      · exact absurd member none_
      · rfl
      · rfl
  · constructor
    · intro all member
      cases all _ member
    · intro none_ bytes member
      rcases bytes with - | ⟨byte, rest⟩
      · exact absurd member none_
      · rfl

-- Two runs

/-- A leaf that picks an endpoint of the leaf `owner`. -/
def picking (leafId owner : Bytes) : Surroundings where
  leafId := leafId
  nodeId := [2]
  pick := .picked { endpointId := [9], ownerLeaf := owner, ownerNode := [4], alive := true } true
  deadlineMs := 0

/-- The client sends one message and closes its side, the backend sends one message, and both have
an endpoint of the same leaf.
-/
def exchangeHere (question answer : Bytes) : List (Surroundings × PathEvent) :=
  [
    .client (.read (some question)),
    .client (.read none),
    .backend .origin (.start true),
    .backend .origin .write,
    .backend .origin (.read (some answer))
  ].map (picking [1] [1], ·)

/-- The same with an endpoint of another leaf. -/
def exchangeThere (question answer : Bytes) : List (Surroundings × PathEvent) :=
  [
    .client (.read (some question)),
    .client (.read none),
  ].map (picking [1] [3], ·)
  ++ [
    .deliver .destination { endpoint := some { alive := true }, created := true } 0,
    .deliver .destination {} 0,
    .deliver .destination {} 0,
    .backend .destination (.start true),
    .backend .destination .write,
    .backend .destination (.read (some answer))
  ].map (picking [3] [1], ·)
  ++ [(picking [1] [3], .deliver .origin {} 0)]

/-- An execution whose steps pass the check is a run of steady steps. -/
theorem run_of_execute {picks : Surroundings → Prop} {events : List (Surroundings × PathEvent)}
    (atHome : Bool)
    (picked : ∀ around : Surroundings,
      (∀ endpoint created, around.pick = .picked endpoint created
        → (endpoint.ownerLeaf == around.leafId) = atHome)
      → picks around)
    (executed : execute step (newPath requestId method metadata) events = .ok (history, path))
    (checked : audit (fun _ path event => path.isSteady atHome event) [] history = true)
    : Run step (Steady picks) (newPath requestId method metadata) history path :=
  (Run.extend .start executed).of_audit (fun _ _ _ => steady_of_check picked) checked

theorem picksHere_of_check {around : Surroundings}
    (checked : ∀ endpoint created, around.pick = .picked endpoint created
      → (endpoint.ownerLeaf == around.leafId) = true)
    : IngressStream.PicksHere around :=
  fun endpoint created same => eq_of_beq (checked endpoint created same)

theorem picksThere_of_check {around : Surroundings}
    (checked : ∀ endpoint created, around.pick = .picked endpoint created
      → (endpoint.ownerLeaf == around.leafId) = false)
    : IngressStream.PicksThere around :=
  fun endpoint created same => ne_of_beq_false (checked endpoint created same)

/-- Witness: one message each way, and the half-close. -/
theorem paths_agree_iff_exchange
    : ∃ front here back there, handedOver front here = handedOver back there
      ∧ queuedUp front here = queuedUp back there
      ∧ handedOver front here = [.message [5], .halfClose] := by
  have runHere := run_of_execute true (fun _ => picksHere_of_check)
    (rfl : execute step (newPath [7] [8] []) (exchangeHere [5] [6]) = _) (by decide)
  have runThere := run_of_execute false (fun _ => picksThere_of_check)
    (rfl : execute step (newPath [7] [8] []) (exchangeThere [5] [6]) = _) (by decide)
  obtain ⟨given, queued⟩ := (paths_agree_iff runHere runThere
    ⟨intact_of_check (by decide), rfl, rfl, by rintro stream ⟨⟩; rfl⟩
    ⟨intact_of_check (by decide), rfl, rfl, by rintro stream ⟨⟩; rfl⟩
    rfl rfl).mpr (by decide)
  exact ⟨_, _, _, _, given, queued, rfl⟩

/-- The client sends an empty message and closes its side: the backend of the same leaf is handed
the message, the backend of another leaf is not.
-/
theorem empty_message_dropped
    : ∃ front here back there,
      Run step (Steady IngressStream.PicksHere) (newPath [7] [8] []) front here
      ∧ Run step (Steady IngressStream.PicksThere) (newPath [7] [8] []) back there
      ∧ here.Complete ∧ there.Complete
      ∧ clientCalls front = clientCalls back
      ∧ backendMessages front = backendMessages back
      ∧ handedOver front here = [.message [], .halfClose]
      ∧ handedOver back there = [.halfClose] := by
  have runHere := run_of_execute true (fun _ => picksHere_of_check)
    (rfl : execute step (newPath [7] [8] []) (exchangeHere [] [6]) = _) (by decide)
  have runThere := run_of_execute false (fun _ => picksThere_of_check)
    (rfl : execute step (newPath [7] [8] []) (exchangeThere [] [6]) = _) (by decide)
  refine ⟨_, _, _, _, runHere, runThere, ?_, ?_, rfl, rfl, rfl, rfl⟩
  · exact ⟨intact_of_check (by decide), rfl, rfl, by rintro stream ⟨⟩; rfl⟩
  · exact ⟨intact_of_check (by decide), rfl, rfl, by rintro stream ⟨⟩; rfl⟩

end StreamPath

end Creek.Leaf
