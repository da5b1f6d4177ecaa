import Creek.Leaf.StreamPath
import Creek.Proofs.Leaf.WriteQueue

/-! The queue of messages for a backend hands over what it takes, in order: first the messages, then
the half-close. What a leaf carries out for an ingress stream reaches that queue unchanged.
-/

namespace Creek.Leaf

open Tight (Bytes)
open Mesh (WireMessage)

-- What a call to a backend is handed

/-- What actions hand to the call to the backend. -/
def handedBy (actions : List BackendAction) : List ClientCall :=
  actions.filterMap fun action =>
    match action with
    | .write bytes => some (.message bytes)
    | .writesDone => some .halfClose
    | _ => none

@[simp] theorem handedBy_append (front back : List BackendAction)
    : handedBy (front ++ back) = handedBy front ++ handedBy back :=
  List.filterMap_append

namespace BackendStream

variable {stream after later : BackendStream} {actions more : List BackendAction}
  {calls further : List ClientCall}

/-- What is taken and not handed over yet. -/
def waiting (stream : BackendStream) : List ClientCall :=
  stream.writeQueue.map .message
    ++ if stream.halfCloseRequested && !stream.writesDoneSent then [.halfClose] else []

/-- A call that has not ended, and that has passed on a half-close only if it was asked to. -/
structure Ready (stream : BackendStream) : Prop where
  unfinished : stream.finished = false
  sent : stream.writesDoneSent = true → stream.halfCloseRequested = true

theorem ready_new (requestId : Bytes) (origin : Origin)
    : ({ requestId := requestId, origin := origin } : BackendStream).Ready :=
  ⟨rfl, nofun⟩

/-- A part of a handler that takes calls of the client, in order, unless the queue overflows. -/
structure Takes (stream after : BackendStream) (actions : List BackendAction)
    (calls : List ClientCall)
    : Prop where
  ready : stream.Ready → after.Ready
  origin : after.origin = stream.origin
  logged : stream.overflowLogged = true → after.overflowLogged = true
  requested : after.halfCloseRequested = true
    → stream.halfCloseRequested = true ∨ .halfClose ∈ calls
  order : stream.Ready
    → after.overflowLogged = false
    → (stream.halfCloseRequested = true → calls = [])
    → .halfClose ∉ calls.dropLast
    → handedBy actions ++ after.waiting = stream.waiting ++ calls

theorem Takes.refl (stream : BackendStream) : Takes stream stream [] [] where
  ready := id
  origin := rfl
  logged := id
  requested := .inl
  order := fun _ _ _ _ => (List.append_nil _).symm

theorem Takes.trans (first : Takes stream after actions calls)
    (second : Takes after later more further)
    : Takes stream later (actions ++ more) (calls ++ further) where
  ready := fun ready => second.ready (first.ready ready)
  origin := second.origin.trans first.origin
  logged := fun logged => second.logged (first.logged logged)
  requested := by
    intro requested
    rcases second.requested requested with earlier | late
    · rcases first.requested earlier with before | early
      · exact .inl before
      · exact .inr (List.mem_append_left _ early)
    · exact .inr (List.mem_append_right _ late)
  order := by
    intro ready room closed last
    have roomBefore : after.overflowLogged = false := by
      by_contra logged
      have still := second.logged (by simpa using logged)
      rw [still] at room
      cases room
    have front : .halfClose ∉ calls.dropLast := by
      rcases List.eq_nil_or_concat further with rfl | ⟨rest, final, rfl⟩
      · rwa [List.append_nil] at last
      · intro member
        refine last ?_
        rw [List.concat_eq_append, ← List.append_assoc, List.dropLast_concat]
        exact List.mem_append_left _ (List.dropLast_subset _ member)
    have handed := first.order ready roomBefore
      (fun requested => (List.append_eq_nil_iff.mp (closed requested)).1) front
    have closing : after.halfCloseRequested = true → further = [] := by
      intro requested
      rcases first.requested requested with before | early
      · exact (List.append_eq_nil_iff.mp (closed before)).2
      · rcases List.eq_nil_or_concat further with rfl | ⟨rest, final, rfl⟩
        · rfl
        · refine absurd ?_ last
          rw [List.concat_eq_append, ← List.append_assoc, List.dropLast_concat]
          exact List.mem_append_left _ early
    have back : .halfClose ∉ further.dropLast := by
      rcases List.eq_nil_or_concat further with rfl | ⟨rest, final, rfl⟩
      · exact List.not_mem_nil
      · rw [List.concat_eq_append, ← List.append_assoc, List.dropLast_concat] at last
        rw [List.concat_eq_append, List.dropLast_concat]
        exact fun member => last (List.mem_append_right _ member)
    have handedLater := second.order (first.ready ready) room closing back
    calc
      handedBy (actions ++ more) ++ later.waiting
        = handedBy actions ++ (handedBy more ++ later.waiting) := by
          rw [handedBy_append, List.append_assoc]
      _ = (handedBy actions ++ after.waiting) ++ further := by
          rw [handedLater, List.append_assoc]
      _ = stream.waiting ++ (calls ++ further) := by rw [handed, List.append_assoc]

/-- Driving the writes hands over what waits, and takes nothing. -/
theorem driveWrites_takes (stream : BackendStream)
    : Takes stream stream.driveWrites.1 stream.driveWrites.2 [] := by
  rw [driveWrites]
  split
  · exact .refl stream
  · split
    · rename_i bytes rest queue
      exact {
        ready := fun ready => ⟨ready.unfinished, ready.sent⟩
        origin := rfl
        logged := id
        requested := .inl
        order := fun _ _ _ _ => by simp [handedBy, waiting, queue]
      }
    · rename_i empty
      split
      · rename_i asked
        obtain ⟨requested, unsent⟩ : stream.halfCloseRequested = true
            ∧ stream.writesDoneSent = false := by
          simpa using asked
        exact {
          ready := fun ready => ⟨ready.unfinished, fun _ => requested⟩
          origin := rfl
          logged := id
          requested := .inl
          order := fun _ _ _ _ => by simp [handedBy, waiting, empty, requested, unsent]
        }
      · exact .refl stream

theorem clientMessage_takes (bytes : Bytes) (stream : BackendStream)
    : Takes stream (stream.clientMessage bytes).1 (stream.clientMessage bytes).2
        [.message bytes] := by
  rw [clientMessage]
  split
  · rename_i finished
    exact {
      Takes.refl stream with
      requested := .inl
      order := fun ready => by
        rw [ready.unfinished] at finished
        cases finished
    }
  · split
    · exact {
        ready := fun ready => ⟨ready.unfinished, ready.sent⟩
        origin := rfl
        logged := fun _ => rfl
        requested := .inl
        order := fun _ room => by cases room
      }
    · have driven := driveWrites_takes { stream with writeQueue := stream.writeQueue ++ [bytes] }
      exact {
        ready := fun ready => driven.ready ⟨ready.unfinished, ready.sent⟩
        origin := driven.origin
        logged := driven.logged
        requested := fun requested => by
          rcases driven.requested requested with before | early
          · exact .inl before
          · cases early
        order := fun ready room closed _ => by
          have unasked : stream.halfCloseRequested = false := by
            by_contra asked
            cases closed (by simpa using asked)
          rw [driven.order ⟨ready.unfinished, ready.sent⟩ room (fun _ => rfl) List.not_mem_nil]
          simp [waiting, unasked]
      }

theorem clientHalfClose_takes (stream : BackendStream)
    : Takes stream stream.clientHalfClose.1 stream.clientHalfClose.2 [.halfClose] := by
  rw [clientHalfClose]
  split
  · rename_i finished
    exact {
      Takes.refl stream with
      requested := .inl
      order := fun ready => by
        rw [ready.unfinished] at finished
        cases finished
    }
  · have driven := driveWrites_takes { stream with halfCloseRequested := true }
    exact {
      ready := fun ready => driven.ready ⟨ready.unfinished, fun _ => rfl⟩
      origin := driven.origin
      logged := driven.logged
      requested := fun _ => .inr (List.mem_singleton.mpr rfl)
      order := fun ready room closed _ => by
        have unasked : stream.halfCloseRequested = false := by
          by_contra asked
          cases closed (by simpa using asked)
        have unsent : stream.writesDoneSent = false := by
          by_contra sent
          cases unasked.symm.trans (ready.sent (by simpa using sent))
        rw [driven.order ⟨ready.unfinished, fun _ => rfl⟩ room (fun _ => rfl) List.not_mem_nil]
        simp [waiting, unasked, unsent]
    }

theorem onStart_takes (ok : Bool) (stream : BackendStream)
    : Takes stream (stream.onStart ok).1 (stream.onStart ok).2 [] := by
  cases ok with
  | true =>
      have driven := driveWrites_takes { stream with started := true }
      exact {
        ready := fun ready => driven.ready ⟨ready.unfinished, ready.sent⟩
        origin := driven.origin
        logged := driven.logged
        requested := driven.requested
        order := fun ready room closed last => by
          have handed := driven.order ⟨ready.unfinished, ready.sent⟩ room closed last
          show handedBy (_ ++ [.read]) ++ _ = _
          rw [handedBy_append, show handedBy [.read] = [] from rfl, List.append_nil]
          exact handed
      }
  | false => exact { Takes.refl stream with order := fun _ _ _ _ => by simp [onStart, handedBy] }

theorem onWrite_takes (stream : BackendStream) : Takes stream stream.onWrite.1 stream.onWrite.2 [] := by
  have driven := driveWrites_takes { stream with writeOutstanding := false }
  exact {
    ready := fun ready => driven.ready ⟨ready.unfinished, ready.sent⟩
    origin := driven.origin
    logged := driven.logged
    requested := driven.requested
    order := fun ready => driven.order ⟨ready.unfinished, ready.sent⟩
  }

end BackendStream

-- What a slot carries out

/-- What actions of a leaf hand to the call to the backend. -/
def handed (actions : List LeafAction) : List ClientCall :=
  handedBy (actions.filterMap fun action =>
    match action with
    | .backend action => some action
    | _ => none)

/-- What actions of a leaf write to the client. -/
def delivered (actions : List LeafAction) : List Bytes :=
  written (actions.filterMap fun action =>
    match action with
    | .client action => some action
    | _ => none)

@[simp] theorem handed_nil : handed [] = [] := rfl
@[simp] theorem delivered_nil : delivered [] = [] := rfl
@[simp] theorem meshed_nil : meshed [] = [] := rfl

@[simp] theorem handed_append (front back : List LeafAction)
    : handed (front ++ back) = handed front ++ handed back := by
  rw [handed, List.filterMap_append, handedBy_append]
  rfl

@[simp] theorem delivered_append (front back : List LeafAction)
    : delivered (front ++ back) = delivered front ++ delivered back := by
  rw [delivered, List.filterMap_append, written_append]
  rfl

@[simp] theorem meshed_append (front back : List LeafAction)
    : meshed (front ++ back) = meshed front ++ meshed back :=
  List.filterMap_append

/-- The actions of a call to a backend are for that call alone. -/
theorem handed_backend (actions : List BackendAction)
    : handed (actions.map .backend) = handedBy actions := by
  rw [handed, List.filterMap_map]
  exact congrArg handedBy (List.filterMap_some)

theorem delivered_backend (actions : List BackendAction)
    : delivered (actions.map .backend) = [] := by
  rw [delivered, List.filterMap_map, List.filterMap_eq_nil_iff.mpr]
  · rfl
  · exact fun _ _ => rfl

theorem meshed_backend (actions : List BackendAction) : meshed (actions.map .backend) = [] := by
  rw [meshed, List.filterMap_map, List.filterMap_eq_nil_iff]
  exact fun _ _ => rfl

/-- The calls on the backend stream of the leaf among the actions of an ingress stream. -/
def direct (actions : List IngressAction) : List ClientCall :=
  actions.filterMap fun action =>
    match action with
    | .clientMessage bytes => some (.message bytes)
    | .clientHalfClose => some .halfClose
    | _ => none

/-- The messages to the mesh among the actions of an ingress stream. -/
def posted (actions : List IngressAction) : List WireMessage :=
  actions.filterMap fun action =>
    match action with
    | .toMesh _ _ message => some message
    | _ => none

/-- Whether an action opens a call to a backend. -/
def starts : IngressAction → Bool
  | .startBackend _ => true
  | _ => false

@[simp] theorem direct_append (front back : List IngressAction)
    : direct (front ++ back) = direct front ++ direct back :=
  List.filterMap_append

@[simp] theorem posted_append (front back : List IngressAction)
    : posted (front ++ back) = posted front ++ posted back :=
  List.filterMap_append

namespace StreamSlot

variable {slot : StreamSlot} {actions : List IngressAction}

theorem performAll_cons (slot : StreamSlot) (action : IngressAction) (rest : List IngressAction)
    : slot.performAll (action :: rest) =
      (
        ((slot.perform action).1.performAll rest).1,
        (slot.perform action).2 ++ ((slot.perform action).1.performAll rest).2
      ) := rfl

theorem performAll_append (slot : StreamSlot) (front back : List IngressAction)
    : slot.performAll (front ++ back) =
      (
        ((slot.performAll front).1.performAll back).1,
        (slot.performAll front).2 ++ ((slot.performAll front).1.performAll back).2
      ) := by
  induction front generalizing slot with
  | nil => rfl
  | cons action rest ih =>
      rw [List.cons_append, performAll_cons, performAll_cons, ih, List.append_assoc]

/-- Carrying out an action keeps the ingress stream, and what is for the client or the mesh goes
there.
-/
theorem perform_frame (slot : StreamSlot) (action : IngressAction)
    : (slot.perform action).1.ingress = slot.ingress
      ∧ delivered (slot.perform action).2 = written [action]
      ∧ meshed (slot.perform action).2 = posted [action] := by
  cases action with
  | clientMessage bytes =>
      rw [perform]
      split
      · exact ⟨rfl, rfl, rfl⟩
      · exact ⟨rfl, delivered_backend _, meshed_backend _⟩
  | clientHalfClose =>
      rw [perform]
      split
      · exact ⟨rfl, rfl, rfl⟩
      · exact ⟨rfl, delivered_backend _, meshed_backend _⟩
  | cancelBackend =>
      rw [perform]
      cases slot.backend <;> exact ⟨rfl, rfl, rfl⟩
  | _ => exact ⟨rfl, rfl, rfl⟩

theorem performAll_frame (slot : StreamSlot) (actions : List IngressAction)
    : (slot.performAll actions).1.ingress = slot.ingress
      ∧ delivered (slot.performAll actions).2 = written actions
      ∧ meshed (slot.performAll actions).2 = posted actions := by
  induction actions generalizing slot with
  | nil => exact ⟨rfl, rfl, rfl⟩
  | cons action rest ih =>
      obtain ⟨ingress, delivers, meshes⟩ := slot.perform_frame action
      obtain ⟨ingressRest, deliversRest, meshesRest⟩ := ih (slot.perform action).1
      rw [performAll_cons, ← List.singleton_append]
      refine ⟨ingressRest.trans ingress, ?_, ?_⟩
      · rw [delivered_append, written_append, delivers, deliversRest]
      · rw [meshed_append, posted_append, meshes, meshesRest]

/-- Without a call to a backend, and none opened, nothing is handed over. -/
theorem performAll_none (none : slot.backend = none)
    (unopened : ∀ action ∈ actions, starts action = false)
    : (slot.performAll actions).1 = slot ∧ handed (slot.performAll actions).2 = [] := by
  induction actions with
  | nil => exact ⟨rfl, rfl⟩
  | cons action rest ih =>
      have idle : (slot.perform action).1 = slot ∧ handed (slot.perform action).2 = [] := by
        cases action with
        | startBackend endpoint => cases unopened _ List.mem_cons_self
        | clientMessage bytes => simp [perform, none]
        | clientHalfClose => simp [perform, none]
        | cancelBackend => simp [perform, none]
        | _ => exact ⟨rfl, rfl⟩
      obtain ⟨same, quiet⟩ := ih fun action member => unopened action (List.mem_cons_of_mem _ member)
      rw [performAll_cons, idle.1]
      exact ⟨same, by rw [handed_append, idle.2, quiet, List.append_nil]⟩

/-- With a call to a backend, and none opened, the call takes what is for it. -/
theorem performAll_some {backend : BackendStream} (held : slot.backend = some backend)
    (unopened : ∀ action ∈ actions, starts action = false)
    : ∃ next done, (slot.performAll actions).1.backend = some next
      ∧ handed (slot.performAll actions).2 = handedBy done
      ∧ backend.Takes next done (direct actions) := by
  induction actions generalizing slot backend with
  | nil => exact ⟨backend, [], held, rfl, .refl backend⟩
  | cons action rest ih =>
      have first : ∃ next done, (slot.perform action).1.backend = some next
          ∧ handed (slot.perform action).2 = handedBy done
          ∧ backend.Takes next done (direct [action]) := by
        cases action with
        | startBackend endpoint => cases unopened _ List.mem_cons_self
        | clientMessage bytes =>
            rw [perform, held]
            exact ⟨_, _, rfl, handed_backend _, backend.clientMessage_takes bytes⟩
        | clientHalfClose =>
            rw [perform, held]
            exact ⟨_, _, rfl, handed_backend _, backend.clientHalfClose_takes⟩
        | cancelBackend =>
            rw [perform, held]
            exact ⟨_, [], rfl, rfl, .refl backend⟩
        | _ => exact ⟨_, [], held, rfl, .refl backend⟩
      obtain ⟨middle, done, registered, hands, takes⟩ := first
      obtain ⟨last, later, registeredLast, handsLater, takesLater⟩ :=
        ih registered fun action member => unopened action (List.mem_cons_of_mem _ member)
      rw [performAll_cons, ← List.singleton_append, direct_append]
      refine ⟨last, done ++ later, registeredLast, ?_, takes.trans takesLater⟩
      rw [handed_append, hands, handsLater, handedBy_append]

end StreamSlot

end Creek.Leaf
