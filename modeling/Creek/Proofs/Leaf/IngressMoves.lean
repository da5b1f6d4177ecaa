import Creek.Proofs.Leaf.BackendCalls

/-! What one event of an ingress stream passes on towards the backend, as long as the stream is not
broken off: what was read before the stream was opened follows the opening, in order, and what is
read later is passed on at once.
-/

namespace Creek.Leaf

open Tight (Bytes)
open Mesh (Endpoint RoutedStreamOpen RoutedStreamFrame WireMessage)

/-- What the client does in an event. -/
def IngressEvent.calls : IngressEvent → List ClientCall
  | .read (some bytes) => [.message bytes]
  | .read none => [.halfClose]
  | _ => []

/-- The frame carries the call of the client. -/
def Carries (message : WireMessage) (call : ClientCall) : Prop :=
  ∃ frame : RoutedStreamFrame, message = .streamFrame frame
    ∧ frame.fromOrigin = true
    ∧ call = if frame.halfClose then .halfClose else .message frame.payload

namespace IngressStream

variable {stream after : IngressStream} {actions : List IngressAction}
  {around : Surroundings} {calls : List ClientCall}

/-- The stream goes on: it has not ended and is not to end. -/
def Live (stream : IngressStream) : Prop :=
  stream.isOver = false ∧ stream.finishPending = false

theorem Live.alive (live : stream.Live) : stream.dead = false :=
  (Bool.or_eq_false_iff.mp live.1).1

theorem Live.unfinished (live : stream.Live) : stream.finishing = false :=
  (Bool.or_eq_false_iff.mp live.1).2

theorem tryFinish_ends (stream : IngressStream) : ¬stream.tryFinish.1.Live := by
  rintro ⟨running, waiting⟩
  rw [tryFinish] at running waiting
  split at running
  · rename_i isOver
    cases isOver.symm.trans running
  · rename_i open_
    rw [if_neg open_] at waiting
    split at running
    · rename_i busy
      rw [if_pos busy] at waiting
      cases waiting
    · rename_i free
      rw [if_neg free] at waiting
      split at running
      · rename_i reading
        rw [if_pos reading] at waiting
        cases waiting
      · simp [isOver] at running

theorem teardown_ends (status : Status) (stream : IngressStream)
    : ¬(stream.teardown around status).1.Live := by
  rw [teardown]
  split
  · rename_i isOver
    exact fun live => by cases isOver.symm.trans live.1
  · exact tryFinish_ends _

theorem backendClosed_ends (status : Status) (stream : IngressStream)
    : ¬(stream.backendClosed status).1.Live := by
  rw [backendClosed]
  split
  · rename_i isOver
    exact fun live => by cases isOver.symm.trans live.1
  · exact tryFinish_ends _

/-- How a call of the client is passed on. -/
def pass (around : Surroundings) (stream : IngressStream) : ClientCall → IngressAction
  | .message bytes =>
      if stream.remote then
        .toMesh stream.destNode stream.destLeaf
          (.streamFrame
            {
              requestId := stream.requestId
              payload := bytes
              halfClose := false
              fromOrigin := true
              originLeaf := around.leafId
              originNode := around.nodeId
              destinationLeaf := stream.destLeaf
              destinationNode := stream.destNode
              hopLimit := kDefaultBackendHopLimit
            })
      else .clientMessage bytes
  | .halfClose =>
      if stream.remote then
        .toMesh stream.destNode stream.destLeaf
          (.streamFrame
            {
              requestId := stream.requestId
              payload := []
              halfClose := true
              fromOrigin := true
              originLeaf := around.leafId
              originNode := around.nodeId
              destinationLeaf := stream.destLeaf
              destinationNode := stream.destNode
              hopLimit := kDefaultBackendHopLimit
            })
      else .clientHalfClose

theorem forwardFrame_message (running : stream.isOver = false) (bytes : Bytes)
    : stream.forwardFrame around bytes false = [stream.pass around (.message bytes)] := by
  rw [forwardFrame, if_neg (by simp [running]), pass]
  cases stream.remote <;> rfl

theorem forwardFrame_halfClose (running : stream.isOver = false)
    : stream.forwardFrame around [] true = [stream.pass around .halfClose] := by
  rw [forwardFrame, if_neg (by simp [running]), pass]
  cases stream.remote <;> rfl

theorem pass_unopened (around : Surroundings) (stream : IngressStream) (calls : List ClientCall)
    : ∀ action ∈ calls.map (stream.pass around), starts action = false := by
  intro action member
  obtain ⟨call, -, rfl⟩ := List.mem_map.mp member
  cases call <;> cases remote : stream.remote <;> simp [pass, remote, starts]

/-- At the leaf of the backend, calls are passed on to its call. -/
theorem pass_here (remote : stream.remote = false) (calls : List ClientCall)
    : direct (calls.map (stream.pass around)) = calls
      ∧ posted (calls.map (stream.pass around)) = [] := by
  induction calls with
  | nil => exact ⟨rfl, rfl⟩
  | cons call rest ih =>
      have one : direct [stream.pass around call] = [call]
          ∧ posted [stream.pass around call] = [] := by
        cases call <;> simp [pass, remote, direct, posted]
      rw [List.map_cons, ← List.singleton_append, direct_append, posted_append, one.1, one.2, ih.1,
        ih.2]
      exact ⟨rfl, rfl⟩

theorem pass_there (remote : stream.remote = true) (calls : List ClientCall)
    : direct (calls.map (stream.pass around)) = []
      ∧ List.Forall₂ Carries (posted (calls.map (stream.pass around))) calls := by
  induction calls with
  | nil => exact ⟨rfl, .nil⟩
  | cons call rest ih =>
      have one : direct [stream.pass around call] = []
          ∧ ∃ message, posted [stream.pass around call] = [message] ∧ Carries message call := by
        cases call with
        | message bytes =>
            simp only [pass, remote]
            exact ⟨rfl, _, rfl, _, rfl, rfl, rfl⟩
        | halfClose =>
            simp only [pass, remote]
            exact ⟨rfl, _, rfl, _, rfl, rfl, rfl⟩
      obtain ⟨quiet, message, posts, carries⟩ := one
      rw [List.map_cons, ← List.singleton_append, direct_append, posted_append, quiet, posts, ih.1]
      exact ⟨rfl, .cons carries ih.2⟩

-- Moves

/-- Whether the picked endpoint, if there is one, is at the leaf that picks. -/
def PicksHere (around : Surroundings) : Prop :=
  ∀ endpoint created, around.pick = .picked endpoint created → endpoint.ownerLeaf = around.leafId

/-- Whether the picked endpoint, if there is one, is at another leaf. -/
def PicksThere (around : Surroundings) : Prop :=
  ∀ endpoint created, around.pick = .picked endpoint created → endpoint.ownerLeaf ≠ around.leafId

/-- What a part of a handler passes on of the calls of the client: nothing yet, or the opening and
everything so far, or what is new.
-/
inductive Moves (around : Surroundings) (stream after : IngressStream)
    (actions : List IngressAction) (calls : List ClientCall)
    : Prop
  | waits (early : stream.phase ≠ .streaming) (still : after.phase ≠ .streaming)
      (unopened : ∀ action ∈ actions, starts action = false)
      (quiet : direct actions = []) (unposted : posted actions = [])
      (kept : after.buffered.map .message = stream.buffered.map .message ++ calls)
  | opensHere (early : stream.phase ≠ .streaming) (opened : after.phase = .streaming)
      (here : after.remote = false) (empty : after.buffered = []) (unposted : posted actions = [])
      (own : ¬PicksThere around) {front back : List IngressAction} {endpoint : Endpoint}
      (split : actions = front ++ .startBackend endpoint :: back)
      (before : ∀ action ∈ front, starts action = false)
      (unopened : ∀ action ∈ back, starts action = false)
      (passed : direct back = stream.buffered.map .message ++ calls)
  | opensThere (early : stream.phase ≠ .streaming) (opened : after.phase = .streaming)
      (there : after.remote = true) (empty : after.buffered = [])
      (other : ¬PicksHere around)
      (unopened : ∀ action ∈ actions, starts action = false)
      {opening : RoutedStreamOpen} {frames : List WireMessage}
      (posts : posted actions = .streamOpen opening :: frames)
      (passed : List.Forall₂ Carries frames (stream.buffered.map .message ++ calls))
  | streams (open_ : stream.phase = .streaming) (still : after.phase = .streaming)
      (remote : after.remote = stream.remote) (buffered : after.buffered = stream.buffered)
      (unopened : ∀ action ∈ actions, starts action = false)
      (here : stream.remote = false → direct actions = calls ∧ posted actions = [])
      (there : stream.remote = true → List.Forall₂ Carries (posted actions) calls)

/-- A part that leaves the opening alone and passes nothing on. -/
theorem Moves.idle (phase : after.phase = stream.phase) (remote : after.remote = stream.remote)
    (buffered : after.buffered = stream.buffered)
    (unopened : ∀ action ∈ actions, starts action = false)
    (quiet : direct actions = []) (unposted : posted actions = [])
    : Moves around stream after actions [] := by
  by_cases open_ : stream.phase = .streaming
  · refine .streams open_ (phase.trans open_) remote buffered unopened ?_ ?_
    · exact fun _ => ⟨quiet, unposted⟩
    · exact fun _ => by
        rw [unposted]
        exact .nil
  · refine .waits open_ (fun streaming => open_ (phase.symm.trans streaming)) unopened quiet
      unposted ?_
    rw [buffered, List.append_nil]

theorem flush_passes (running : stream.isOver = false)
    : stream.flush around =
      (
        { stream with buffered := [] },
        (stream.buffered.map .message).map ({ stream with buffered := [] }.pass around)
      ) := by
  refine Prod.ext rfl ?_
  rw [flush, List.map_map, ← List.flatMap_singleton' (List.map _ _), List.flatMap_map]
  exact List.flatMap_congr fun bytes _ => forwardFrame_message (by exact running) bytes

/-- Where the pick is an endpoint of this leaf, opening the stream opens the call to the backend and
passes on what was read.
-/
theorem beginStream_here {endpoint : Endpoint} {created : Bool}
    (pick : around.pick = .picked endpoint created) (own : endpoint.ownerLeaf = around.leafId)
    (live : (stream.beginStream around).1.Live)
    : stream.beginStream around =
      (
        { stream with remote := false, backend := true, buffered := [] },
        .startBackend endpoint
          :: (stream.buffered.map .message).map
            ({ stream with remote := false, backend := true, buffered := [] }.pass around)
      ) := by
  rw [beginStream, pick] at live ⊢
  simp only [if_pos own] at live ⊢
  split at live
  · rename_i made
    rw [if_pos made]
    have running : stream.isOver = false := live.1
    rw [flush_passes (by exact running)]
  · split at live
    · exact absurd live (tryFinish_ends _)
    · exact absurd live (tryFinish_ends _)

/-- Where it is an endpoint of another leaf, the opening goes over the mesh, and what was read
follows it.
-/
theorem beginStream_there {endpoint : Endpoint} {created : Bool}
    (pick : around.pick = .picked endpoint created) (other : endpoint.ownerLeaf ≠ around.leafId)
    (running : stream.isOver = false)
    : ∃ opening, stream.beginStream around =
      (
        {
          stream with
          remote := true
          destLeaf := endpoint.ownerLeaf
          destNode := endpoint.ownerNode
          buffered := []
        },
        .toMesh endpoint.ownerNode endpoint.ownerLeaf (.streamOpen opening)
          :: (stream.buffered.map .message).map
            ({
              stream with
              remote := true
              destLeaf := endpoint.ownerLeaf
              destNode := endpoint.ownerNode
              buffered := []
            }.pass around)
      ) := by
  rw [beginStream, pick]
  simp only [if_neg other]
  rw [flush_passes (by exact running)]
  exact ⟨_, rfl⟩

/-- A stream that goes on has found an endpoint. -/
theorem picked_of_live (live : (stream.beginStream around).1.Live)
    : ∃ endpoint created, around.pick = .picked endpoint created := by
  rcases pick : around.pick with status | ⟨endpoint, created⟩
  · rw [beginStream, pick] at live
    dsimp only at live
    split at live
    · rename_i isOver
      cases isOver.symm.trans live.1
    · exact absurd live (tryFinish_ends _)
  · exact ⟨endpoint, created, rfl⟩

/-- What opening a stream leaves alone when the stream goes on. -/
theorem beginStream_keeps (live : (stream.beginStream around).1.Live)
    : (stream.beginStream around).1.phase = stream.phase
      ∧ (stream.beginStream around).1.readOutstanding = stream.readOutstanding
      ∧ (stream.beginStream around).1.readStopped = stream.readStopped
      ∧ stream.Live := by
  obtain ⟨endpoint, created, pick⟩ := picked_of_live live
  by_cases own : endpoint.ownerLeaf = around.leafId
  · have begins := beginStream_here pick own live
    rw [begins] at live
    rw [begins]
    exact ⟨rfl, rfl, rfl, live⟩
  · have running : stream.Live := by
      rw [beginStream, pick] at live
      simp only [if_neg own, flush] at live
      exact live
    obtain ⟨opening, begins⟩ := beginStream_there pick own running.1
    rw [begins]
    exact ⟨rfl, rfl, rfl, running⟩

/-- Opening a stream moves what was read before, and what the client does with it. -/
theorem Moves.opens {begun : IngressStream} {front : List IngressAction} (extra : List ClientCall)
    (early : stream.phase ≠ .streaming) (opened : begun.phase = .streaming)
    (buffered : begun.buffered.map .message = stream.buffered.map .message ++ calls)
    (unopened : ∀ action ∈ front, starts action = false) (unposted : posted front = [])
    (live : (begun.beginStream around).1.Live)
    : Moves around stream (begun.beginStream around).1
        (front
          ++ ((begun.beginStream around).2
            ++ extra.map ((begun.beginStream around).1.pass around)))
        (calls ++ extra) := by
  obtain ⟨phase, -, -, running, -⟩ := beginStream_keeps live
  obtain ⟨endpoint, created, pick⟩ := picked_of_live live
  by_cases own : endpoint.ownerLeaf = around.leafId
  · rw [beginStream_here pick own live] at phase ⊢
    rw [List.cons_append, ← List.map_append, buffered]
    obtain ⟨passed, silent⟩ := @pass_here
      { begun with remote := false, backend := true, buffered := [] } around rfl
      (stream.buffered.map .message ++ calls ++ extra)
    refine .opensHere early (phase.trans opened) rfl rfl ?_ ?_ rfl unopened
      (pass_unopened around _ _) ?_
    · rw [posted_append, unposted]
      exact silent
    · exact fun other => other endpoint created pick own
    · rw [passed, List.append_assoc]
  · obtain ⟨opening, opens⟩ := beginStream_there pick own running
    rw [opens] at phase ⊢
    rw [List.cons_append, ← List.map_append, buffered, List.append_assoc]
    obtain ⟨-, passed⟩ := @pass_there
      {
        begun with
        remote := true
        destLeaf := endpoint.ownerLeaf
        destNode := endpoint.ownerNode
        buffered := []
      }
      around rfl (stream.buffered.map .message ++ (calls ++ extra))
    have posts : ∀ node leaf rest,
        posted (front ++ .toMesh node leaf (.streamOpen opening) :: rest) =
          .streamOpen opening :: posted rest := by
      intro node leaf rest
      rw [posted_append, unposted]
      rfl
    refine .opensThere early (phase.trans opened) rfl rfl ?_ ?_ (posts _ _ _) passed
    · exact fun here => own (here endpoint created pick)
    · intro action member
      rcases List.mem_append.mp member with early | late
      · exact unopened action early
      · rcases List.mem_cons.mp late with rfl | later
        · rfl
        · exact pass_unopened around _ _ action later

/-- The stream has been given its first read, and no read is under way once reading has stopped. -/
structure Attentive (stream : IngressStream) : Prop where
  begun : stream.phase ≠ .fresh
  stopped : stream.readStopped = true → stream.readOutstanding = false

theorem Attentive.unstopped (attentive : stream.Attentive) (reading : stream.readOutstanding = true)
    : stream.readStopped = false := by
  by_contra stopped
  cases (attentive.stopped (by simpa using stopped)).symm.trans reading

/-- What an event does to a stream that goes on. -/
structure Passes (around : Surroundings) (stream : IngressStream) (event : IngressEvent)
    (after : IngressStream) (actions : List IngressAction)
    : Prop where
  moves : Moves around stream after actions event.calls
  attentive : after.Attentive
  reading : after.readOutstanding = true → stream.readOutstanding = true
  closed : .halfClose ∈ event.calls → after.readOutstanding = false

/-- What changes neither the opening nor the reading, and passes nothing on. -/
theorem Passes.idle {event : IngressEvent} (attentive : stream.Attentive)
    (none : event.calls = []) (phase : after.phase = stream.phase)
    (remote : after.remote = stream.remote) (buffered : after.buffered = stream.buffered)
    (outstanding : after.readOutstanding = stream.readOutstanding)
    (stopped : after.readStopped = stream.readStopped)
    (unopened : ∀ action ∈ actions, starts action = false)
    (quiet : direct actions = []) (unposted : posted actions = [])
    : Passes around stream event after actions where
  moves := by
    rw [none]
    exact .idle phase remote buffered unopened quiet unposted
  attentive :=
    {
      begun := fun fresh => attentive.begun (phase.symm.trans fresh)
      stopped := fun still => outstanding.trans (attentive.stopped (stopped.symm.trans still))
    }
  reading := fun reading => outstanding.symm.trans reading
  closed := fun member => by
    rw [none] at member
    cases member

theorem Passes.opens {begun : IngressStream} {event : IngressEvent} {front : List IngressAction}
    (extra : List ClientCall) (early : stream.phase ≠ .streaming) (opened : begun.phase = .streaming)
    (all : event.calls = calls ++ extra)
    (buffered : begun.buffered.map .message = stream.buffered.map .message ++ calls)
    (unopened : ∀ action ∈ front, starts action = false) (unposted : posted front = [])
    (reading : begun.readOutstanding = true → stream.readOutstanding = true)
    (closed : .halfClose ∈ event.calls → begun.readOutstanding = false)
    (unstopped : begun.readStopped = false) (live : (begun.beginStream around).1.Live)
    : Passes around stream event (begun.beginStream around).1
        (front
          ++ ((begun.beginStream around).2
            ++ extra.map ((begun.beginStream around).1.pass around))) := by
  obtain ⟨phase, outstanding, stopped, -⟩ := beginStream_keeps live
  refine ⟨?_, ⟨?_, ?_⟩, ?_, ?_⟩
  · rw [all]
    exact .opens extra early opened buffered unopened unposted live
  · rw [phase, opened]
    exact nofun
  · intro still
    cases (stopped.trans unstopped).symm.trans still
  · exact fun still => reading (outstanding.symm.trans still)
  · exact fun member => outstanding.trans (closed member)

theorem Passes.streams {event : IngressEvent} {front : List IngressAction} (call : ClientCall)
    (open_ : stream.phase = .streaming) (still : after.phase = .streaming)
    (remote : after.remote = stream.remote) (buffered : after.buffered = stream.buffered)
    (all : event.calls = [call]) (quiet : front = [] ∨ front = [.read])
    (reading : after.readOutstanding = true → stream.readOutstanding = true)
    (closed : .halfClose ∈ event.calls → after.readOutstanding = false)
    (stopped : after.readStopped = true → after.readOutstanding = false)
    : Passes around stream event after (front ++ [after.pass around call]) := by
  have idle : (∀ action ∈ front, starts action = false) ∧ direct front = [] ∧ posted front = [] := by
    rcases quiet with rfl | rfl
    · exact ⟨fun _ member => absurd member List.not_mem_nil, rfl, rfl⟩
    · exact ⟨fun _ member => by rw [List.mem_singleton.mp member]; rfl, rfl, rfl⟩
  refine ⟨?_, ⟨?_, stopped⟩, reading, closed⟩
  · rw [all]
    refine .streams open_ still remote buffered ?_ ?_ ?_
    · intro action member
      rcases List.mem_append.mp member with early | late
      · exact idle.1 action early
      · exact pass_unopened around after [call] action late
    · intro here
      rw [direct_append, posted_append, idle.2.1, idle.2.2]
      exact pass_here (remote.trans here) [call]
    · intro there
      rw [posted_append, idle.2.2]
      exact (pass_there (remote.trans there) [call]).2
  · rw [still]
    exact nofun

theorem onRead_passes (attentive : stream.Attentive) (reading : stream.readOutstanding = true)
    {message : Option Bytes} (live : (stream.onRead around message).1.Live)
    : Passes around stream (.read message) (stream.onRead around message).1
        (stream.onRead around message).2 := by
  have unstopped := attentive.unstopped reading
  revert live
  rw [onRead]
  split
  · rename_i dead
    intro live
    cases dead.symm.trans live.alive
  · dsimp only
    split
    · exact fun live => absurd live (tryFinish_ends _)
    · split
      · rename_i fresh
        exact absurd fresh attentive.begun
      · rename_i bytes first
        intro live
        refine ⟨.waits ?_ ?_ ?_ rfl rfl ?_, ⟨?_, ?_⟩, fun _ => reading, ?_⟩
        all_goals simp [first, starts, IngressEvent.calls, unstopped]
      · rename_i first
        intro live
        rw [beginHalfClosed]
        dsimp only
        rw [forwardFrame_halfClose (by exact live.1)]
        exact @Passes.opens stream around [] _ _ [] [.halfClose] (by simp [first]) rfl rfl
          (List.append_nil _).symm (by simp) rfl (by simp) (fun _ => rfl) unstopped live
      · rename_i bytes early
        intro live
        have passes := @Passes.opens stream around [.message bytes]
          {
            stream with
            buffered := stream.buffered ++ [bytes]
            phase := .streaming
            readOutstanding := true
          }
          (.read (some bytes)) [.cancelAlarm, .read] [] (by simp [early]) rfl rfl (by simp)
          (by simp [starts]) rfl (fun _ => reading) (by simp [IngressEvent.calls]) unstopped live
        rw [List.map_nil, List.append_nil] at passes
        exact passes
      · rename_i early
        intro live
        rw [beginHalfClosed]
        dsimp only
        rw [forwardFrame_halfClose (by exact live.1)]
        exact @Passes.opens stream around [] _ _ [.cancelAlarm] [.halfClose] (by simp [early])
          rfl rfl (List.append_nil _).symm (by simp [starts]) rfl (by simp) (fun _ => rfl) unstopped live
      · rename_i bytes open_
        rw [if_neg (by simp [unstopped])]
        intro live
        rw [forwardFrame_message (by exact live.1)]
        exact @Passes.streams stream _ around _ [.read] (.message bytes) open_ open_ rfl rfl rfl
          (.inr rfl) (fun _ => reading) (by simp [IngressEvent.calls])
          (fun still => by cases unstopped.symm.trans still)
      · rename_i open_
        rw [if_neg (by simp [unstopped])]
        intro live
        rw [forwardFrame_halfClose (by exact live.1)]
        exact @Passes.streams stream _ around _ [] .halfClose open_ open_ rfl rfl rfl (.inl rfl)
          (fun _ => reading) (fun _ => rfl) (fun _ => rfl)

theorem onAlarm_passes (attentive : stream.Attentive) (ok : Bool)
    (live : (stream.onAlarm around ok).1.Live)
    : Passes around stream (.alarm ok) (stream.onAlarm around ok).1
        (stream.onAlarm around ok).2 := by
  have nothing : Passes around stream (.alarm ok) stream [] :=
    .idle attentive rfl rfl rfl rfl rfl rfl (fun _ member => absurd member List.not_mem_nil) rfl rfl
  revert live
  rw [onAlarm]
  split
  · exact fun _ => nothing
  · split
    · exact fun _ => nothing
    · rename_i classifying
      have early : stream.phase = .classifying := by simpa using classifying
      intro live
      by_cases unstopped : stream.readStopped = false
      · have passes := @Passes.opens stream around [] { stream with phase := .streaming }
          (.alarm ok) [] [] (by simp [early]) rfl rfl (by simp) (by simp) rfl id
          (by simp [IngressEvent.calls]) unstopped live
        rw [List.map_nil, List.append_nil] at passes
        exact passes
      · have idle : stream.readOutstanding = false := attentive.stopped (by simpa using unstopped)
        obtain ⟨phase, outstanding, -, -⟩ := beginStream_keeps live
        have moves := @Moves.opens stream around [] { stream with phase := .streaming } [] []
          (by simp [early]) rfl (by simp) (by simp) rfl live
        rw [List.map_nil, List.append_nil] at moves
        refine ⟨moves, ⟨?_, fun _ => outstanding.trans idle⟩, ?_, by simp [IngressEvent.calls]⟩
        · rw [phase]
          simp
        · exact fun reading => outstanding.symm.trans reading

theorem onWrite_passes (attentive : stream.Attentive) (ok : Bool)
    (live : (stream.onWrite around ok).1.Live)
    : Passes around stream (.write ok) (stream.onWrite around ok).1
        (stream.onWrite around ok).2 := by
  revert live
  rw [onWrite]
  split
  · rename_i dead
    intro live
    cases dead.symm.trans live.alive
  · dsimp only
    split
    · exact fun live => absurd live (teardown_ends writeFailed _)
    · split
      · split
        · exact fun _ => .idle attentive rfl rfl rfl rfl rfl rfl (by simp [starts]) rfl rfl
        · split
          · exact fun live => absurd live (tryFinish_ends _)
          · exact fun _ => .idle attentive rfl rfl rfl rfl rfl rfl (by simp) rfl rfl
      · split
        · exact fun live => absurd live (tryFinish_ends _)
        · exact fun _ => .idle attentive rfl rfl rfl rfl rfl rfl (by simp) rfl rfl

theorem backendMessage_passes (attentive : stream.Attentive) (bytes : Bytes)
    (live : (stream.backendMessage around bytes).1.Live)
    : Passes around stream (.backendMessage bytes) (stream.backendMessage around bytes).1
        (stream.backendMessage around bytes).2 := by
  revert live
  rw [IngressStream.backendMessage, queueWrite]
  split
  · exact fun _ => .idle attentive rfl rfl rfl rfl rfl rfl (by simp) rfl rfl
  · split
    · split
      · exact fun live => absurd live (teardown_ends clientReadStall _)
      · exact fun _ => .idle attentive rfl rfl rfl rfl rfl rfl (by simp) rfl rfl
    · exact fun _ => .idle attentive rfl rfl rfl rfl rfl rfl (by simp [starts]) rfl rfl

/-- Every event after which the stream goes on passes on what the client does in it. -/
theorem handle_passes {event : IngressEvent} (attentive : stream.Attentive)
    (reading : ∀ message, event = .read message → stream.readOutstanding = true)
    (live : (stream.handle around event).1.Live)
    : Passes around stream event (stream.handle around event).1
        (stream.handle around event).2 := by
  cases event with
  | read message => exact onRead_passes attentive (reading message rfl) live
  | write ok => exact onWrite_passes attentive ok live
  | finish => cases live.alive
  | alarm ok => exact onAlarm_passes attentive ok live
  | backendMessage bytes => exact backendMessage_passes attentive bytes live
  | backendClosed status => exact absurd live (backendClosed_ends status _)
  | teardown status => exact absurd live (teardown_ends status _)

-- Towards the client

end IngressStream

/-- The message of the backend that an event brings. -/
def IngressEvent.incoming : IngressEvent → List Bytes
  | .backendMessage bytes => [bytes]
  | _ => []

namespace IngressStream

variable {stream : IngressStream} {around : Surroundings}

/-- Every event after which the stream goes on writes what is at the front of the queue, and queues
what it brings behind it.
-/
theorem handle_queues {event : IngressEvent} (progress : stream.Progress)
    (live : (stream.handle around event).1.Live)
    : (stream.handle around event).1.Progress
      ∧ stream.writeQueue ++ event.incoming =
        written (stream.handle around event).2 ++ (stream.handle around event).1.writeQueue := by
  by_cases writes : ∃ ok, event = .write ok
  · obtain ⟨ok, rfl⟩ := writes
    revert live
    rw [handle, onWrite]
    split
    · rename_i dead
      intro live
      cases dead.symm.trans live.alive
    · dsimp only
      split
      · exact fun live => absurd live (teardown_ends writeFailed _)
      · split
        · rename_i bytes rest queue
          split
          · exact fun _ => ⟨fun _ _ => rfl, by simp [queue, written, IngressEvent.incoming]⟩
          · split
            · exact fun live => absurd live (tryFinish_ends _)
            · rename_i going unasked
              intro live
              refine absurd ?_ going
              have finishing : stream.finishing = false := live.unfinished
              simp [finishing, unasked]
        · rename_i empty
          split
          · exact fun live => absurd live (tryFinish_ends _)
          · exact fun _ => ⟨fun _ waiting => absurd empty waiting, by
              simp [IngressEvent.incoming, written]⟩
  by_cases sent : ∃ bytes, event = .backendMessage bytes
  · obtain ⟨bytes, rfl⟩ := sent
    revert live
    rw [handle, IngressStream.backendMessage, queueWrite]
    split
    · rename_i isOver
      intro live
      cases isOver.symm.trans live.1
    · rename_i open_
      have running : stream.isOver = false :=
        Bool.eq_false_iff.mpr (show ¬stream.isOver = true from open_)
      split
      · rename_i outstanding
        split
        · exact fun live => absurd live (teardown_ends clientReadStall _)
        · exact fun _ => ⟨fun _ _ => outstanding, rfl⟩
      · rename_i idle
        have empty : stream.writeQueue = [] := by
          by_contra waiting
          exact idle (progress running waiting)
        exact fun _ => ⟨fun _ _ => rfl, by simp [empty, written, IngressEvent.incoming]⟩
  push Not at writes sent
  by_cases finished : event = .finish
  · subst finished
    cases live.alive
  have calm := @handle_calm stream around event writes sent finished
  constructor
  · intro running waiting
    rw [calm.queue] at waiting
    rw [calm.outstanding]
    refine progress (Bool.or_eq_false_iff.mpr ⟨calm.dead.symm.trans live.alive, ?_⟩) waiting
    by_contra finishing
    cases (calm.finishing (by simpa using finishing)).symm.trans live.unfinished
  · have none : event.incoming = [] := by
      cases event with
      | backendMessage bytes => exact absurd rfl (sent bytes)
      | _ => rfl
    rw [none, calm.silent, calm.queue, List.append_nil, List.nil_append]

end IngressStream

end Creek.Leaf
