import Creek.Proofs.Leaf.IngressMoves

/-! What one event of an ingress stream sends to another leaf, whether or not the stream has been
broken off: the opening once, then what the client does, in order. What is not sent is lost for
good, and nothing after it is sent either.
-/

namespace Creek.Leaf

open Tight (Bytes)
open Mesh (Endpoint RoutedStreamOpen RoutedStreamFrame WireMessage)

/-- The calls of the client that messages carry. -/
def carried (messages : List WireMessage) : List ClientCall :=
  messages.flatMap fun message =>
    match message with
    | .streamFrame frame =>
        if frame.fromOrigin then
          [if frame.halfClose then .halfClose else .message frame.payload]
        else []
    | _ => []

@[simp] theorem carried_append (front back : List WireMessage)
    : carried (front ++ back) = carried front ++ carried back :=
  List.flatMap_append

@[simp] theorem carried_opening (opening : RoutedStreamOpen) (rest : List WireMessage)
    : carried (.streamOpen opening :: rest) = carried rest := rfl

theorem carried_eq {messages : List WireMessage} {calls : List ClientCall}
    (all : List.Forall₂ Carries messages calls)
    : carried messages = calls := by
  induction all with
  | nil => rfl
  | @cons message call messages calls carries _ ih =>
      obtain ⟨frame, rfl, from_, rfl⟩ := carries
      rw [← List.singleton_append, carried_append, ih]
      simp [carried, from_]

/-- A frame of the client or a close. -/
def Following (message : WireMessage) : Prop :=
  (∃ frame : RoutedStreamFrame, message = .streamFrame frame ∧ frame.fromOrigin = true)
    ∨ ∃ close, message = .streamClose close

theorem Following.of_carries {message : WireMessage} {call : ClientCall}
    (carries : Carries message call)
    : Following message := by
  obtain ⟨frame, rfl, from_, -⟩ := carries
  exact .inl ⟨frame, rfl, from_⟩

theorem Following.of_all {messages : List WireMessage} {calls : List ClientCall}
    (all : List.Forall₂ Carries messages calls)
    : ∀ message ∈ messages, Following message := by
  induction all with
  | nil => exact fun _ member => absurd member List.not_mem_nil
  | cons carries _ ih => exact List.forall_mem_cons.mpr ⟨.of_carries carries, ih⟩

namespace IngressStream

variable {stream after later begun : IngressStream} {actions more front : List IngressAction}
  {around : Surroundings} {calls : List ClientCall}

-- What leaves the opening and the reading alone

/-- A part of a handler that opens nothing and passes nothing on. It may close the other end of a
stream that was opened there, and it may end reads but starts none.
-/
structure Settles (stream after : IngressStream) (actions : List IngressAction) : Prop where
  phase : after.phase = stream.phase
  remote : after.remote = stream.remote
  buffered : after.buffered = stream.buffered
  isOver : stream.isOver = true → after.isOver = true
  pending : stream.finishPending = true → after.finishPending = true
  reading : after.readOutstanding = true → stream.readOutstanding = true
  unopened : ∀ action ∈ actions, starts action = false
  closes : ∀ message ∈ posted actions, ∃ close, message = .streamClose close
  remotely : posted actions ≠ [] → stream.remote = true

theorem Settles.of_plain (stream : IngressStream)
    (unopened : ∀ action ∈ actions, starts action = false) (unposted : posted actions = [])
    : Settles stream stream actions where
  phase := rfl
  remote := rfl
  buffered := rfl
  isOver := id
  pending := id
  reading := id
  unopened := unopened
  closes := by
    rw [unposted]
    exact fun _ member => absurd member List.not_mem_nil
  remotely := fun posts => absurd unposted posts

theorem Settles.trans (first : Settles stream after actions) (second : Settles after later more)
    : Settles stream later (actions ++ more) where
  phase := second.phase.trans first.phase
  remote := second.remote.trans first.remote
  buffered := second.buffered.trans first.buffered
  isOver := fun isOver => second.isOver (first.isOver isOver)
  pending := fun pending => second.pending (first.pending pending)
  reading := fun reading => first.reading (second.reading reading)
  unopened := fun action member => (List.mem_append.mp member).elim (first.unopened action)
    (second.unopened action)
  closes := by
    intro message member
    rw [posted_append] at member
    exact (List.mem_append.mp member).elim (first.closes message) (second.closes message)
  remotely := by
    intro posts
    by_cases none : posted actions = []
    · rw [posted_append, none, List.nil_append] at posts
      rw [← first.remote]
      exact second.remotely posts
    · exact first.remotely none

theorem tryFinish_settles (stream : IngressStream)
    : Settles stream stream.tryFinish.1 stream.tryFinish.2 := by
  have nothing : Settles stream stream [] := .of_plain stream (by simp) rfl
  rw [tryFinish]
  split
  · exact nothing
  · rename_i open_
    split
    · exact { nothing with pending := fun _ => rfl }
    · split
      · exact { nothing with pending := fun _ => rfl }
      · exact {
          nothing with
          isOver := fun isOver => absurd isOver open_
          unopened := by simp [starts]
          closes := fun _ member => absurd member List.not_mem_nil
          remotely := fun posts => absurd rfl posts
        }

theorem tryFinish_over (stream : IngressStream)
    : stream.tryFinish.1.isOver = true ∨ stream.tryFinish.1.finishPending = true := by
  by_contra goes
  simp only [not_or, Bool.not_eq_true] at goes
  exact tryFinish_ends stream goes

theorem Settles.changed (settles : Settles after later more)
    (phase : after.phase = stream.phase) (remote : after.remote = stream.remote)
    (buffered : after.buffered = stream.buffered) (isOver : after.isOver = stream.isOver)
    (pending : after.finishPending = stream.finishPending)
    (reading : after.readOutstanding = true → stream.readOutstanding = true)
    : Settles stream later more where
  phase := settles.phase.trans phase
  remote := settles.remote.trans remote
  buffered := settles.buffered.trans buffered
  isOver := fun ends => settles.isOver (isOver.trans ends)
  pending := fun ends => settles.pending (pending.trans ends)
  reading := fun still => reading (settles.reading still)
  unopened := settles.unopened
  closes := settles.closes
  remotely := fun posts => remote.symm.trans (settles.remotely posts)

/-- Breaking a stream off settles: the other end is closed if the stream was opened there. -/
theorem teardown_settles (around : Surroundings) (status : Status) (stream : IngressStream)
    : Settles stream (stream.teardown around status).1 (stream.teardown around status).2 := by
  rw [teardown]
  split
  · exact .of_plain stream (by simp [starts]) rfl
  · dsimp only
    have ended : Settles stream _ _ := (tryFinish_settles
      { stream with finishStatus := status, readStopped := true, backend := false }).changed
        rfl rfl rfl rfl rfl id
    rw [← List.cons_append]
    split
    · rename_i away
      have remote : stream.remote = true := (Bool.and_eq_true_iff.mp away).1
      have nothing : Settles stream stream [] := .of_plain stream (by simp) rfl
      refine Settles.trans ?_ ended
      exact {
        nothing with
        unopened := by simp [starts]
        closes := fun message member => ⟨_, List.mem_singleton.mp member⟩
        remotely := fun _ => remote
      }
    · exact (Settles.of_plain stream (by simp [starts]) rfl).trans ended

theorem backendClosed_settles (status : Status) (stream : IngressStream)
    : Settles stream (stream.backendClosed status).1 (stream.backendClosed status).2 := by
  rw [backendClosed]
  split
  · exact .of_plain stream (by simp) rfl
  · exact (tryFinish_settles _).changed rfl rfl rfl rfl rfl id

theorem backendMessage_settles (around : Surroundings) (bytes : Bytes) (stream : IngressStream)
    : Settles stream (stream.backendMessage around bytes).1
        (stream.backendMessage around bytes).2 := by
  rw [IngressStream.backendMessage, queueWrite]
  split
  · exact (Settles.of_plain _ (by simp) rfl).changed rfl rfl rfl rfl rfl id
  · split
    · split
      · exact (teardown_settles around clientReadStall _).changed rfl rfl rfl rfl rfl id
      · exact (Settles.of_plain _ (by simp) rfl).changed rfl rfl rfl rfl rfl id
    · exact (Settles.of_plain _ (by simp [starts]) rfl).changed rfl rfl rfl rfl rfl id

theorem onWrite_settles (around : Surroundings) (ok : Bool) (stream : IngressStream)
    : Settles stream (stream.onWrite around ok).1 (stream.onWrite around ok).2 := by
  rw [onWrite]
  split
  · exact .of_plain stream (by simp) rfl
  · dsimp only
    split
    · exact (teardown_settles around writeFailed _).changed rfl rfl rfl rfl rfl id
    · split
      · split
        · exact (Settles.of_plain _ (by simp [starts]) rfl).changed rfl rfl rfl rfl rfl id
        · split
          · exact (tryFinish_settles _).changed rfl rfl rfl rfl rfl id
          · exact (Settles.of_plain _ (by simp) rfl).changed rfl rfl rfl rfl rfl id
      · split
        · exact (tryFinish_settles _).changed rfl rfl rfl rfl rfl id
        · exact (Settles.of_plain _ (by simp) rfl).changed rfl rfl rfl rfl rfl id

-- What is sent

/-- Before the stream is opened it is not remote; after that it is, with nothing held back, or the
call is to end.
-/
structure Tidy (stream : IngressStream) : Prop where
  flushed : stream.remote = true → stream.buffered = []
  early : stream.phase ≠ .streaming → stream.remote = false
  away : stream.phase = .streaming
    → stream.remote = true ∨ stream.isOver = true ∨ stream.finishPending = true

/-- What an event sends of the calls of the client. What is held back or done in it is sent in
order, up to something after which nothing is read or sent any more.
-/
structure Sends (stream after : IngressStream) (actions : List IngressAction)
    (calls : List ClientCall)
    : Prop where
  unopened : ∀ action ∈ actions, starts action = false
  tidy : after.Tidy
  shape :
    (∀ message ∈ posted actions, Following message) ∧ after.remote = stream.remote
      ∧ (posted actions ≠ [] → stream.remote = true)
    ∨ stream.remote = false ∧ after.remote = true
      ∧ ∃ opening rest, posted actions = .streamOpen opening :: rest
        ∧ ∀ message ∈ rest, Following message
  order : ∃ lost, stream.buffered.map .message ++ calls =
      carried (posted actions) ++ after.buffered.map .message ++ lost
    ∧ (lost = [] ∨ after.isOver = true ∨ after.readOutstanding = false)
  isOver : stream.isOver = true → after.isOver = true ∧ carried (posted actions) = []
    ∧ (after.buffered = stream.buffered ∨ after.buffered = [])
  reading : after.readOutstanding = true → stream.readOutstanding = true

theorem carried_closes {messages : List WireMessage}
    (closes : ∀ message ∈ messages, ∃ close, message = .streamClose close)
    : carried messages = [] := by
  refine List.flatMap_eq_nil_iff.mpr fun message member => ?_
  obtain ⟨close, rfl⟩ := closes message member
  rfl

theorem Settles.tidy (settles : Settles stream after actions) (tidy : stream.Tidy) : after.Tidy where
  flushed := fun away => settles.buffered.trans (tidy.flushed (settles.remote.symm.trans away))
  early := fun early => settles.remote.trans (tidy.early fun open_ => early (settles.phase.trans open_))
  away := fun open_ => by
    rcases tidy.away (settles.phase.symm.trans open_) with remote | isOver | pending
    · exact .inl (settles.remote.trans remote)
    · exact .inr (.inl (settles.isOver isOver))
    · exact .inr (.inr (settles.pending pending))

theorem Sends.of_settles (settles : Settles stream after actions) (tidy : stream.Tidy)
    (lost : calls = [] ∨ after.isOver = true ∨ after.readOutstanding = false)
    : Sends stream after actions calls where
  unopened := settles.unopened
  tidy := settles.tidy tidy
  shape := .inl ⟨fun message member => .inr (settles.closes message member), settles.remote,
    settles.remotely⟩
  order := by
    refine ⟨calls, ?_, lost⟩
    rw [carried_closes settles.closes, settles.buffered]
    rfl
  isOver := fun isOver => ⟨settles.isOver isOver, carried_closes settles.closes, .inl settles.buffered⟩
  reading := settles.reading

/-- The half-close that follows an opening, or nothing. -/
def closing (around : Surroundings) (stream : IngressStream) (halfClosed : Bool)
    : List IngressAction :=
  if halfClosed then stream.forwardFrame around [] true else []

theorem closing_unopened (around : Surroundings) (stream : IngressStream) (halfClosed : Bool)
    : ∀ action ∈ stream.closing around halfClosed, starts action = false := by
  cases halfClosed with
  | false => exact fun _ member => absurd member List.not_mem_nil
  | true =>
      show ∀ action ∈ stream.forwardFrame around [] true, starts action = false
      rw [forwardFrame]
      split
      · simp
      · split <;> simp [starts]

/-- At the leaf of the backend the half-close needs no message. -/
theorem closing_near {halfClosed : Bool} (remote : stream.remote = false)
    : posted (stream.closing around halfClosed) = [] := by
  cases halfClosed with
  | false => rfl
  | true =>
      show posted (stream.forwardFrame around [] true) = []
      rw [forwardFrame, remote]
      split <;> rfl

/-- A pick that is refused settles the stream, and the call is to end. -/
theorem refused_settles {status : Status} (pick : around.pick = .refused status)
    : Settles begun (begun.beginStream around).1 (begun.beginStream around).2
      ∧ ((begun.beginStream around).1.isOver = true
        ∨ (begun.beginStream around).1.finishPending = true) := by
  rw [beginStream, pick]
  dsimp only
  split
  · rename_i isOver
    exact ⟨.of_plain begun (by simp) rfl, .inl isOver⟩
  · exact ⟨(tryFinish_settles _).changed rfl rfl rfl rfl rfl id, tryFinish_over _⟩

/-- A stream that has ended still sends its opening, but nothing after it. -/
theorem beginStream_over {endpoint : Endpoint} {created : Bool}
    (pick : around.pick = .picked endpoint created) (other : endpoint.ownerLeaf ≠ around.leafId)
    (isOver : begun.isOver = true)
    : ∃ opening, begun.beginStream around =
      (
        {
          begun with
          remote := true
          destLeaf := endpoint.ownerLeaf
          destNode := endpoint.ownerNode
          buffered := []
        },
        [.toMesh endpoint.ownerNode endpoint.ownerLeaf (.streamOpen opening)]
      ) := by
  rw [beginStream, pick]
  simp only [if_neg other, flush]
  refine ⟨_, Prod.ext rfl (congrArg (List.cons _) ?_)⟩
  refine List.flatMap_eq_nil_iff.mpr fun bytes _ => ?_
  exact if_pos isOver

/-- Opening a stream sends the opening, what was held back and the half-close, if the call goes on. -/
theorem Sends.opens (halfClosed : Bool) (picks : PicksThere around) (tidy : stream.Tidy)
    (early : stream.phase ≠ .streaming) (opened : begun.phase = .streaming)
    (remote : begun.remote = stream.remote) (isOver : begun.isOver = stream.isOver)
    (buffered : begun.buffered.map .message = stream.buffered.map .message ++ calls)
    (untouched : stream.isOver = true → begun.buffered = stream.buffered)
    (unopened : ∀ action ∈ front, starts action = false) (unposted : posted front = [])
    (reading : begun.readOutstanding = true → stream.readOutstanding = true)
    (closed : halfClosed = true → begun.readOutstanding = false)
    : Sends stream (begun.beginStream around).1
        (front
          ++ ((begun.beginStream around).2
            ++ (begun.beginStream around).1.closing around halfClosed))
        (calls ++ if halfClosed then [.halfClose] else []) := by
  have near : begun.remote = false := remote.trans (tidy.early early)
  rcases pick : around.pick with status | ⟨endpoint, created⟩
  · -- the pick is refused: the call is to end, and the half-close has nowhere to go
    obtain ⟨settles, ends⟩ := @refused_settles begun around status pick
    have nowhere : (begun.beginStream around).1.remote = false := settles.remote.trans near
    have silent : posted (begun.beginStream around).2 = [] := by
      by_contra posts
      cases near.symm.trans (settles.remotely posts)
    have quiet : posted (front ++ ((begun.beginStream around).2
        ++ (begun.beginStream around).1.closing around halfClosed)) = [] := by
      rw [posted_append, posted_append, unposted, silent, closing_near nowhere]
      rfl
    refine ⟨?_, ⟨?_, ?_, ?_⟩, .inl ⟨?_, ?_, ?_⟩, ⟨if halfClosed then [.halfClose] else [], ?_, ?_⟩,
      fun ends' => ⟨?_, ?_, .inl ?_⟩, fun still => reading (settles.reading still)⟩
    · intro action member
      simp only [List.mem_append] at member
      rcases member with first | second | third
      · exact unopened action first
      · exact settles.unopened action second
      · exact closing_unopened around _ halfClosed action third
    · intro away
      cases nowhere.symm.trans away
    · exact fun early => absurd (settles.phase.trans opened) early
    · exact fun _ => .inr ends
    · rw [quiet]
      exact fun _ member => absurd member List.not_mem_nil
    · exact settles.remote.trans remote
    · exact fun posts => absurd quiet posts
    · rw [quiet, settles.buffered, buffered, ← List.append_assoc]
      rfl
    · cases halfClosed with
      | false => exact .inl rfl
      | true =>
          refine .inr (.inr ?_)
          by_contra still
          cases (closed rfl).symm.trans (settles.reading (by simpa using still))
    · exact settles.isOver (isOver.trans ends')
    · rw [quiet]
      rfl
    · exact settles.buffered.trans (untouched ends')
  · have other : endpoint.ownerLeaf ≠ around.leafId := picks endpoint created pick
    by_cases running : begun.isOver = false
    · obtain ⟨opening, begins⟩ := beginStream_there pick other running
      have ends : closing around (begun.beginStream around).1 halfClosed =
          (if halfClosed then [.halfClose] else []).map
            ((begun.beginStream around).1.pass around) := by
        cases halfClosed with
        | false => rfl
        | true => exact forwardFrame_halfClose (by rw [begins]; exact running)
      rw [ends, begins, List.cons_append, ← List.map_append]
      obtain ⟨-, frames⟩ := @pass_there
        {
          begun with
          remote := true
          destLeaf := endpoint.ownerLeaf
          destNode := endpoint.ownerNode
          buffered := []
        }
        around rfl (begun.buffered.map .message ++ if halfClosed then [.halfClose] else [])
      have posts : ∀ node leaf rest,
          posted (front ++ .toMesh node leaf (.streamOpen opening) :: rest) =
            .streamOpen opening :: posted rest := by
        intro node leaf rest
        rw [posted_append, unposted]
        rfl
      refine ⟨?_, ⟨fun _ => rfl, ?_, ?_⟩,
        .inr ⟨tidy.early early, rfl, opening, _, posts _ _ _, ?_⟩, ⟨[], ?_, .inl rfl⟩,
        fun ends' => ?_, reading⟩
      · intro action member
        rcases List.mem_append.mp member with first | rest
        · exact unopened action first
        · rcases List.mem_cons.mp rest with rfl | later
          · rfl
          · exact pass_unopened around _ _ action later
      · exact fun early => absurd opened early
      · exact fun _ => .inl rfl
      · exact Following.of_all frames
      · have sent := carried_eq frames
        rw [posts, carried_opening, sent, buffered]
        simp
      · cases running.symm.trans (isOver.trans ends')
    · have ended : begun.isOver = true := by simpa using running
      obtain ⟨opening, begins⟩ := beginStream_over pick other ended
      have nothing : closing around (begun.beginStream around).1 halfClosed = [] := by
        cases halfClosed with
        | false => rfl
        | true =>
            rw [begins]
            exact if_pos ended
      rw [nothing, begins, List.append_nil]
      have posts : ∀ node leaf, posted (front ++ [.toMesh node leaf (.streamOpen opening)]) =
          [.streamOpen opening] := by
        intro node leaf
        rw [posted_append, unposted]
        rfl
      refine ⟨?_, ⟨fun _ => rfl, ?_, ?_⟩, .inr ⟨tidy.early early, rfl, opening, [], posts _ _, ?_⟩,
        ⟨stream.buffered.map .message ++ (calls ++ if halfClosed then [.halfClose] else []), ?_,
          .inr (.inl ended)⟩,
        fun _ => ⟨ended, ?_, .inr rfl⟩, reading⟩
      · intro action member
        rcases List.mem_append.mp member with first | rest
        · exact unopened action first
        · rw [List.mem_singleton.mp rest]
          rfl
      · exact fun early => absurd opened early
      · exact fun _ => .inl rfl
      · exact fun _ member => absurd member List.not_mem_nil
      · rw [posts]
        rfl
      · rw [posts]
        rfl

theorem Sends.streams (call : ClientCall) (tidy : stream.Tidy) (running : stream.isOver = false)
    (open_ : stream.phase = .streaming) (away : stream.remote = true)
    (phase : after.phase = stream.phase) (remote : after.remote = stream.remote)
    (buffered : after.buffered = stream.buffered) (quiet : front = [] ∨ front = [.read])
    (reading : after.readOutstanding = true → stream.readOutstanding = true)
    : Sends stream after (front ++ [after.pass around call]) [call] := by
  have idle : (∀ action ∈ front, starts action = false) ∧ posted front = [] := by
    rcases quiet with rfl | rfl
    · exact ⟨fun _ member => absurd member List.not_mem_nil, rfl⟩
    · exact ⟨fun _ member => by rw [List.mem_singleton.mp member]; rfl, rfl⟩
  obtain ⟨-, frames⟩ := @pass_there after around (remote.trans away) [call]
  rw [List.map_singleton] at frames
  have posts : posted (front ++ [after.pass around call]) =
      posted [after.pass around call] := by
    rw [posted_append, idle.2, List.nil_append]
  have flushed : stream.buffered = [] := tidy.flushed away
  refine ⟨?_, ⟨fun _ => buffered.trans flushed, ?_, ?_⟩, .inl ⟨?_, remote, fun _ => away⟩,
    ⟨[], ?_, .inl rfl⟩, fun isOver => ?_, reading⟩
  · intro action member
    rcases List.mem_append.mp member with early | late
    · exact idle.1 action early
    · exact pass_unopened around after [call] action late
  · exact fun early => absurd (phase.trans open_) early
  · exact fun _ => .inl (remote.trans away)
  · rw [posts]
    exact Following.of_all frames
  · rw [posts, carried_eq frames, buffered]
    simp [flushed]
  · cases running.symm.trans isOver

theorem onRead_sends (picks : PicksThere around) (tidy : stream.Tidy)
    (reading : stream.readOutstanding = true) (message : Option Bytes)
    : Sends stream (stream.onRead around message).1 (stream.onRead around message).2
        (IngressEvent.read message).calls := by
  rw [onRead]
  split
  · rename_i dead
    refine .of_settles (.of_plain stream (by simp) rfl) tidy (.inr (.inl ?_))
    simp [isOver, dead]
  · rename_i alive
    dsimp only
    split
    · have settles : Settles stream _ _ :=
        (tryFinish_settles { stream with readOutstanding := false }).changed rfl rfl rfl rfl rfl (by simp)
      refine .of_settles settles tidy (.inr (.inr ?_))
      by_contra still
      cases (tryFinish_settles { stream with readOutstanding := false }).reading
        (by simpa using still)
    · rename_i going
      have running : stream.isOver = false ∧ stream.finishPending = false := by
        simp only [Bool.or_eq_true, not_or, Bool.not_eq_true] at going alive
        simp [isOver, alive, going.1, going.2]
      have away : stream.phase = .streaming → stream.remote = true := by
        intro open_
        rcases tidy.away open_ with away | isOver | pending
        · exact away
        · cases running.1.symm.trans isOver
        · cases running.2.symm.trans pending
      have never {property : Prop} (isOver : stream.isOver = true) : property := by
        cases running.1.symm.trans isOver
      have stopped : Sends stream { stream with readOutstanding := false } []
          (IngressEvent.read message).calls :=
        .of_settles ((Settles.of_plain _ (by simp) rfl).changed rfl rfl rfl rfl rfl (by simp)) tidy
          (.inr (.inr rfl))
      split
      · exact stopped
      · rename_i bytes first
        have near : stream.remote = false := tidy.early (by simp [first])
        refine ⟨by simp [starts], ⟨?_, fun _ => near, by simp⟩,
          .inl ⟨fun _ member => absurd member List.not_mem_nil, rfl, ?_⟩,
          ⟨[], ?_, .inl rfl⟩, never, fun _ => reading⟩
        · intro away
          cases near.symm.trans away
        · exact fun posts => absurd rfl posts
        · simp [carried, posted, IngressEvent.calls]
      · rename_i first
        exact @Sends.opens stream _ [] around [] true picks tidy (by simp [first]) rfl rfl rfl
          (List.append_nil _).symm never (by simp) rfl (by simp) fun _ => rfl
      · rename_i bytes early
        have sends := @Sends.opens stream
          {
            stream with
            buffered := stream.buffered ++ [bytes]
            phase := .streaming
            readOutstanding := true
          }
          [.cancelAlarm, .read] around [.message bytes] false picks tidy (by simp [early]) rfl rfl
          rfl (by simp) never (by simp [starts]) rfl (fun _ => reading) (by simp)
        simp only [closing, Bool.false_eq_true, if_false, List.append_nil] at sends
        exact sends
      · rename_i early
        exact @Sends.opens stream _ [.cancelAlarm] around [] true picks tidy (by simp [early]) rfl
          rfl rfl (List.append_nil _).symm never (by simp [starts]) rfl (by simp) fun _ => rfl
      · rename_i bytes open_
        split
        · exact stopped
        · rw [forwardFrame_message (by exact running.1)]
          exact @Sends.streams stream _ [.read] around (.message bytes) tidy running.1 open_
            (away open_) rfl rfl rfl (.inr rfl) fun _ => reading
      · rename_i open_
        split
        · exact stopped
        · rw [forwardFrame_halfClose (by exact running.1)]
          exact @Sends.streams stream _ [] around .halfClose tidy running.1 open_ (away open_) rfl
            rfl rfl (.inl rfl) fun _ => reading

theorem handle_sends {event : IngressEvent} (picks : PicksThere around) (tidy : stream.Tidy)
    (reading : ∀ message, event = .read message → stream.readOutstanding = true)
    : Sends stream (stream.handle around event).1 (stream.handle around event).2
        event.calls := by
  cases event with
  | read message => exact onRead_sends picks tidy (reading message rfl) message
  | write ok => exact .of_settles (onWrite_settles around ok stream) tidy (.inl rfl)
  | finish =>
      refine .of_settles ?_ tidy (.inl rfl)
      have nothing : Settles stream stream [] := .of_plain stream (by simp) rfl
      exact { nothing with isOver := fun _ => rfl }
  | alarm ok =>
      have nothing : Sends stream stream [] [] :=
        .of_settles (.of_plain stream (by simp) rfl) tidy (.inl rfl)
      show Sends stream (stream.onAlarm around ok).1 (stream.onAlarm around ok).2 []
      rw [onAlarm]
      split
      · exact nothing
      · split
        · exact nothing
        · rename_i classifying
          have early : stream.phase = .classifying := by simpa using classifying
          have sends := @Sends.opens stream { stream with phase := .streaming } [] around [] false
            picks tidy (by simp [early]) rfl rfl rfl (List.append_nil _).symm (fun _ => rfl)
            (by simp) rfl id (by simp)
          simp only [closing, Bool.false_eq_true, if_false, List.append_nil] at sends
          exact sends
  | backendMessage bytes => exact .of_settles (backendMessage_settles around bytes stream) tidy (.inl rfl)
  | backendClosed status => exact .of_settles (backendClosed_settles status stream) tidy (.inl rfl)
  | teardown status => exact .of_settles (teardown_settles around status stream) tidy (.inl rfl)

end IngressStream

end Creek.Leaf
