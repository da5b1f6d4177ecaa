import Creek.Leaf.StreamLifetime
import Creek.Library.Lookups

/-! The end of a `BackendStream`. What is in the registry is not deleted, since its pump leaves the registry
first and under the mutex that every user holds. The creator has no such protection: it still has to
assign and detach the thread that may have deleted the stream by then.
-/

namespace Creek.Leaf

open Tight (Bytes)
open Library

namespace StreamOwners

/-- A step that touches no deleted stream and deletes none whose member `pump` is joinable. -/
structure Safe (stage : Stage StreamOwners LifetimeEvent LifetimeAction) : Prop where
  alive : ∀ index object, .accessed index ∈ stage.outputs
    → stage.before.objects[index]? = some object
    → object.pump ≠ .deleted
  unjoinable : ∀ index joinable, .deleted index joinable ∈ stage.outputs → joinable = false

/-- A step that deletes a stream, if at all, after its creator is done with it. -/
def HandedOff (stage : Stage StreamOwners LifetimeEvent LifetimeAction) : Prop :=
  ∀ index object, stage.event = .delete index
    → stage.before.objects[index]? = some object
    → object.creator = .detached

/-- Whether users may still find a stream. -/
def Reachable (object : BackendObject) : Prop :=
  object.pump = .none ∨ object.pump = .running ∨ object.pump = .finished

/-- What a thread of a stream can do with it, and what becomes of the stream. -/
inductive Moves (index : Nat) (object : BackendObject)
    : LifetimeEvent → BackendObject → List LifetimeAction → Prop
  | register (point : object.creator = .made)
    : Moves index object (.register index) { object with creator := .registered } []
  | startCall (point : object.creator = .registered)
    : Moves index object (.startCall index) { object with creator := .started } [.accessed index]
  | spawn (point : object.creator = .started)
    : Moves index object (.spawn index) { object with creator := .spawned, pump := .running } []
  | assign (point : object.creator = .spawned)
    : Moves index object (.assign index) { object with creator := .assigned, joinable := true }
      [.accessed index]
  | detach (point : object.creator = .assigned)
    : Moves index object (.detach index) { object with creator := .detached, joinable := false }
      [.accessed index]
  | run (point : object.pump = .running) : Moves index object (.run index) object [.accessed index]
  | finish (point : object.pump = .running)
    : Moves index object (.finish index) { object with pump := .finished } [.accessed index]
  | erase (point : object.pump = .finished)
    : Moves index object (.erase index) { object with pump := .erased } [.accessed index]
  | close (point : object.pump = .erased)
    : Moves index object (.close index) { object with pump := .closed } [.accessed index]
  | delete (point : object.pump = .closed)
    : Moves index object (.delete index) { object with pump := .deleted }
      [.deleted index object.joinable]

/-- What a step does to the registry of the streams. -/
inductive Keeps (owners after : StreamOwners) (index : Nat) (object : BackendObject)
    : LifetimeEvent → Prop
  | register (free : owners.user = none)
      (stored : after.backendStreams = owners.backendStreams.insert object.requestId index)
    : Keeps owners after index object (.register index)
  | erase (free : owners.user = none) (erased : after.backendStreams = owners.eraseEntry index)
    : Keeps owners after index object (.erase index)
  | other {event : LifetimeEvent} (same : after.backendStreams = owners.backendStreams)
      (unregistered : event ≠ .register index) (unerased : event ≠ .erase index)
    : Keeps owners after index object event

/-- The steps that can be taken. -/
inductive Takes (owners after : StreamOwners) : LifetimeEvent → List LifetimeAction → Prop
  | create (requestId : Bytes) (objects : after.objects = owners.objects ++ [{ requestId := requestId }])
      (streams : after.backendStreams = owners.backendStreams) (user : after.user = owners.user)
    : Takes owners after (.create requestId) [.accessed owners.objects.length]
  | move {event : LifetimeEvent} {outputs : List LifetimeAction} {index : Nat}
      {object moved : BackendObject} (found : owners.objects[index]? = some object)
      (moves : Moves index object event moved outputs) (keeps : Keeps owners after index object event)
      (objects : ∀ other, after.objects[other]? =
        if other = index then some moved else owners.objects[other]?)
      (user : after.user = owners.user)
    : Takes owners after event outputs
  | find (requestId : Bytes) {index : Nat} (known : owners.backendStreams[requestId]? = some index)
      (objects : after.objects = owners.objects)
      (streams : after.backendStreams = owners.backendStreams) (user : after.user = some index)
    : Takes owners after (.find requestId) []
  | touch {index : Nat} (user : owners.user = some index) (same : after = owners)
    : Takes owners after .touch [.accessed index]
  | release (objects : after.objects = owners.objects)
      (streams : after.backendStreams = owners.backendStreams) (user : after.user = none)
    : Takes owners after .release []

variable {owners after : StreamOwners} {event : LifetimeEvent} {outputs : List LifetimeAction}

theorem act_ok {index : Nat} {ready : BackendObject → Bool} {change : BackendObject → BackendObject}
    {actions : List LifetimeAction} (taken : owners.act index ready change actions = .ok (after, outputs))
    : ∃ object, owners.objects[index]? = some object
      ∧ ready object = true
      ∧ outputs = actions
      ∧ after.backendStreams = owners.backendStreams
      ∧ after.user = owners.user
      ∧ ∀ other, after.objects[other]? =
        if other = index then some (change object) else owners.objects[other]? := by
  unfold act at taken
  split at taken
  · rename_i object found
    split at taken
    · rename_i isReady
      cases taken
      exact ⟨object, found, isReady, rfl, rfl, rfl, fun _ => getElem?_modify_of_some change found⟩
    · cases taken
  · cases taken

theorem takes_of_step (taken : owners.step event = .ok (after, outputs))
    : Takes owners after event outputs := by
  -- the steps that leave the registry alone
  have plain {index : Nat} {ready : BackendObject → Bool} {change : BackendObject → BackendObject}
      {actions : List LifetimeAction} {event : LifetimeEvent}
      (acts : owners.act index ready change actions = .ok (after, outputs))
      (moves : ∀ object, owners.objects[index]? = some object → ready object = true
        → Moves index object event (change object) actions)
      (unregistered : event ≠ .register index) (unerased : event ≠ .erase index)
      : Takes owners after event outputs := by
    obtain ⟨object, found, isReady, rfl, streams, user, objects⟩ := act_ok acts
    exact .move found (moves object found isReady) (.other streams unregistered unerased) objects user
  cases event with
  | create requestId =>
      cases taken
      exact .create requestId rfl rfl rfl
  | startCall index => exact plain taken (fun _ _ point => .startCall (of_decide_eq_true point)) nofun nofun
  | spawn index => exact plain taken (fun _ _ point => .spawn (of_decide_eq_true point)) nofun nofun
  | assign index => exact plain taken (fun _ _ point => .assign (of_decide_eq_true point)) nofun nofun
  | detach index => exact plain taken (fun _ _ point => .detach (of_decide_eq_true point)) nofun nofun
  | run index => exact plain taken (fun _ _ point => .run (of_decide_eq_true point)) nofun nofun
  | finish index => exact plain taken (fun _ _ point => .finish (of_decide_eq_true point)) nofun nofun
  | close index => exact plain taken (fun _ _ point => .close (of_decide_eq_true point)) nofun nofun
  | delete index =>
      rw [step] at taken
      split at taken
      · rename_i object found
        refine plain taken (fun object' found' point => ?_) nofun nofun
        obtain rfl := Option.some.inj (found.symm.trans found')
        exact .delete (of_decide_eq_true point)
      · cases taken
  | register index =>
      rw [step] at taken
      split at taken
      · rename_i object free found
        rcases acts : owners.act index (fun object => object.creator = .made)
            (fun object => { object with creator := .registered }) [] with fault | ⟨middle, actions⟩
        · rw [acts] at taken
          cases taken
        · rw [acts] at taken
          obtain ⟨rfl, rfl⟩ := Prod.ext_iff.mp (Except.ok.inj taken)
          obtain ⟨object', found', point, rfl, -, user, objects⟩ := act_ok acts
          obtain rfl := Option.some.inj (found.symm.trans found')
          exact .move found (.register (of_decide_eq_true point)) (.register free rfl) objects user
      · cases taken
  | erase index =>
      rw [step] at taken
      split at taken
      · rename_i free
        rcases acts : owners.act index (fun object => object.pump = .finished)
            (fun object => { object with pump := .erased }) [.accessed index] with
          fault | ⟨middle, actions⟩
        · rw [acts] at taken
          cases taken
        · rw [acts] at taken
          obtain ⟨rfl, rfl⟩ := Prod.ext_iff.mp (Except.ok.inj taken)
          obtain ⟨object, found, point, rfl, -, user, objects⟩ := act_ok acts
          exact .move found (.erase (of_decide_eq_true point)) (.erase free rfl) objects user
      · cases taken
  | find requestId =>
      rw [step] at taken
      split at taken
      · rename_i index free known
        cases taken
        exact .find requestId known rfl rfl rfl
      · cases taken
  | touch =>
      rw [step] at taken
      split at taken
      · rename_i index user
        cases taken
        exact .touch user rfl
      · cases taken
  | release =>
      cases taken
      exact .release rfl rfl rfl

-- What every step keeps

/-- What holds of a stream whatever its threads do. -/
structure ObjectSound (object : BackendObject) : Prop where
  begun : object.pump ≠ .none
    → object.creator = .spawned ∨ object.creator = .assigned ∨ object.creator = .detached
  joinable : object.joinable = true ↔ object.creator = .assigned

/-- The registry and its users know streams that are reachable. -/
structure Sound (owners : StreamOwners) : Prop where
  each : ∀ (index : Nat) object, owners.objects[index]? = some object → ObjectSound object
  listed : ∀ (requestId : Bytes) index, owners.backendStreams[requestId]? = some index
    → ∃ object, owners.objects[index]? = some object
      ∧ object.requestId = requestId
      ∧ Reachable object
  used : ∀ index, owners.user = some index
    → ∃ object, owners.objects[index]? = some object ∧ Reachable object

theorem ObjectSound.moves {index : Nat} {object moved : BackendObject} (sound : ObjectSound object)
    (moves : Moves index object event moved outputs)
    : ObjectSound moved := by
  obtain ⟨begun, joinable⟩ := sound
  cases moves <;> constructor <;> simp_all

theorem Moves.reachable {index : Nat} {object moved : BackendObject}
    (moves : Moves index object event moved outputs) (reachable : Reachable object)
    (unerased : event ≠ .erase index)
    : Reachable moved := by
  unfold Reachable at reachable ⊢
  cases moves <;> simp_all

theorem Moves.requestId {index : Nat} {object moved : BackendObject}
    (moves : Moves index object event moved outputs)
    : moved.requestId = object.requestId := by
  cases moves <;> rfl

/-- What is erased is not in the registry any more, and nothing else is removed. -/
theorem Sound.eraseEntry (sound : owners.Sound) {index other : Nat} {requestId : Bytes}
    (known : (owners.eraseEntry index)[requestId]? = some other)
    : owners.backendStreams[requestId]? = some other ∧ other ≠ index := by
  unfold StreamOwners.eraseEntry at known
  split at known
  · rename_i object found
    split at known
    · rename_i entry
      by_cases own : object.requestId = requestId
      · subst own
        rw [Std.TreeMap.getElem?_erase_self] at known
        cases known
      · rw [getElem?_erase_ne _ own] at known
        refine ⟨known, ?_⟩
        rintro rfl
        obtain ⟨object', found', id, -⟩ := sound.listed requestId other known
        obtain rfl := Option.some.inj (found.symm.trans found')
        exact own id
    · rename_i entry
      refine ⟨known, ?_⟩
      rintro rfl
      obtain ⟨object', found', rfl, -⟩ := sound.listed requestId other known
      obtain rfl := Option.some.inj (found.symm.trans found')
      exact entry known
  · rename_i missing
    refine ⟨known, ?_⟩
    rintro rfl
    obtain ⟨object', found', -⟩ := sound.listed requestId other known
    cases missing.symm.trans found'

theorem Sound.step (sound : owners.Sound) (takes : Takes owners after event outputs) : after.Sound := by
  obtain ⟨each, listed, used⟩ := sound
  cases takes with
  | create requestId objects streams user =>
      have older : ∀ {index : Nat} {object}, owners.objects[index]? = some object
          → after.objects[index]? = some object := by
        intro index object found
        rw [objects, List.getElem?_append_left (List.getElem?_eq_some_iff.mp found).1, found]
      refine ⟨?_, ?_, ?_⟩
      · intro index object found
        rw [objects] at found
        rcases List.mem_append.mp (List.mem_of_getElem? found) with earlier | last
        · obtain ⟨index', found'⟩ := List.getElem?_of_mem earlier
          exact each index' object found'
        · obtain rfl := List.mem_singleton.mp last
          constructor <;> simp
      · intro requestId' index known
        obtain ⟨object, found, id, reachable⟩ := listed requestId' index (streams ▸ known)
        exact ⟨object, older found, id, reachable⟩
      · intro index uses
        obtain ⟨object, found, reachable⟩ := used index (user ▸ uses)
        exact ⟨object, older found, reachable⟩
  | @move _ _ index object moved found moves keeps objects user =>
      have stays : ∀ {other : Nat} {held}, owners.objects[other]? = some held → Reachable held
          → (other ≠ index ∨ event ≠ .erase index)
          → ∃ later, after.objects[other]? = some later ∧ later.requestId = held.requestId
            ∧ Reachable later := by
        intro other held found' reachable elsewhere
        rw [objects]
        by_cases own : other = index
        · subst own
          obtain rfl := Option.some.inj (found.symm.trans found')
          exact ⟨moved, if_pos rfl, moves.requestId,
            moves.reachable reachable (elsewhere.resolve_left (not_not.mpr rfl))⟩
        · exact ⟨held, (if_neg own).trans found', rfl, reachable⟩
      refine ⟨?_, ?_, ?_⟩
      · intro other held found'
        rw [objects] at found'
        split at found'
        · obtain rfl := Option.some.inj found'
          exact (each index object found).moves moves
        · exact each other held found'
      · intro requestId other known
        cases keeps with
        | register free stored =>
            rw [stored] at known
            by_cases own : object.requestId = requestId
            · subst own
              rw [Std.TreeMap.getElem?_insert_self] at known
              obtain rfl := Option.some.inj known
              cases moves with
              | register point =>
                  refine ⟨_, (objects index).trans (if_pos rfl), rfl, .inl ?_⟩
                  -- a stream that is only made has no pump
                  by_contra pumping
                  rcases (each index object found).begun pumping with early | early | early <;>
                    cases point.symm.trans early
            · rw [getElem?_insert_ne _ _ own] at known
              obtain ⟨held, found', id, reachable⟩ := listed requestId other known
              obtain ⟨later, found'', id', reachable'⟩ := stays found' reachable (.inr nofun)
              exact ⟨later, found'', id'.trans id, reachable'⟩
        | erase free erased =>
            obtain ⟨known', elsewhere⟩ := Sound.eraseEntry ⟨each, listed, used⟩ (erased ▸ known)
            obtain ⟨held, found', id, reachable⟩ := listed requestId other known'
            obtain ⟨later, found'', id', reachable'⟩ := stays found' reachable (.inl elsewhere)
            exact ⟨later, found'', id'.trans id, reachable'⟩
        | other same unregistered unerased =>
            obtain ⟨held, found', id, reachable⟩ := listed requestId other (same ▸ known)
            obtain ⟨later, found'', id', reachable'⟩ := stays found' reachable (.inr unerased)
            exact ⟨later, found'', id'.trans id, reachable'⟩
      · intro other uses
        rw [user] at uses
        obtain ⟨held, found', reachable⟩ := used other uses
        have unerased : event ≠ .erase index := by
          rintro rfl
          cases keeps with
          | erase free _ => cases free.symm.trans uses
          | other _ _ unerased => exact unerased rfl
        obtain ⟨later, found'', -, reachable'⟩ := stays found' reachable (.inr unerased)
        exact ⟨later, found'', reachable'⟩
  | find requestId known objects streams user =>
      refine ⟨objects ▸ each, ?_, ?_⟩
      · rw [objects, streams]
        exact listed
      · intro index uses
        obtain rfl := Option.some.inj (user.symm.trans uses)
        obtain ⟨object, found, -, reachable⟩ := listed requestId _ known
        exact ⟨object, objects ▸ found, reachable⟩
  | touch user same =>
      subst same
      exact ⟨each, listed, used⟩
  | release objects streams user =>
      refine ⟨objects ▸ each, ?_, ?_⟩
      · rw [objects, streams]
        exact listed
      · intro index uses
        cases user.symm.trans uses

-- Deletion after the hand-off

/-- The creators of the deleted streams are done with them. -/
def Released (owners : StreamOwners) : Prop :=
  ∀ (index : Nat) object, owners.objects[index]? = some object → object.pump = .deleted
    → object.creator = .detached

/-- A thread of a stream that is not deleted too early accesses it while it is there. -/
theorem Moves.safe {index : Nat} {object moved : BackendObject} (sound : ObjectSound object)
    (moves : Moves index object event moved outputs)
    (released : object.pump = .deleted → object.creator = .detached)
    (handed : event = .delete index → object.creator = .detached)
    : (∀ other, .accessed other ∈ outputs → other = index ∧ object.pump ≠ .deleted)
      ∧ (∀ other joinable, .deleted other joinable ∈ outputs → joinable = false)
      ∧ (moved.pump = .deleted → moved.creator = .detached) := by
  cases moves with
  | delete point =>
      have done := handed rfl
      refine ⟨by simp, ?_, fun _ => done⟩
      intro other joinable member
      obtain ⟨-, rfl⟩ := LifetimeAction.deleted.inj (List.mem_singleton.mp member)
      by_contra still
      cases done.symm.trans (sound.joinable.mp (Bool.eq_true_of_not_eq_false still))
  | _ => simp_all

theorem Sound.safe (sound : owners.Sound) (released : owners.Released)
    (takes : Takes owners after event outputs)
    (handed : HandedOff { before := owners, event, outputs })
    : Safe { before := owners, event, outputs } ∧ after.Released := by
  cases takes with
  | create requestId objects streams user =>
      refine ⟨⟨?_, by simp⟩, ?_⟩
      · intro index object member found
        obtain rfl : index = owners.objects.length := by simpa using member
        simp at found
      · intro index object found deleted
        rw [objects] at found
        rcases List.mem_append.mp (List.mem_of_getElem? found) with earlier | last
        · obtain ⟨index', found'⟩ := List.getElem?_of_mem earlier
          exact released index' object found' deleted
        · rw [List.mem_singleton.mp last] at deleted
          cases deleted
  | @move _ _ index object moved found moves keeps objects user =>
      obtain ⟨accesses, deletes, done⟩ := moves.safe (sound.each index object found)
        (released index object found) (fun deletes => handed index object deletes found)
      refine ⟨⟨?_, deletes⟩, ?_⟩
      · intro other held member found'
        obtain ⟨rfl, alive⟩ := accesses other member
        obtain rfl := Option.some.inj (found.symm.trans found')
        exact alive
      · intro other held found' deleted
        rw [objects] at found'
        split at found'
        · obtain rfl := Option.some.inj found'
          exact done deleted
        · exact released other held found' deleted
  | find requestId known objects streams user =>
      refine ⟨⟨by simp, by simp⟩, ?_⟩
      unfold Released
      rw [objects]
      exact released
  | @touch index user same =>
      subst same
      refine ⟨⟨?_, by simp⟩, released⟩
      intro other object member found
      obtain rfl : other = index := by simpa using member
      obtain ⟨object', found', reachable⟩ := sound.used other user
      obtain rfl := Option.some.inj (found.symm.trans found')
      rintro deleted
      rcases reachable with early | early | early <;> cases deleted.symm.trans early
  | release objects streams user =>
      refine ⟨⟨by simp, by simp⟩, ?_⟩
      unfold Released
      rw [objects]
      exact released

/-- A stream that was deleted while its creator had the thread in hand: the next step of the creator is
an access.
-/
def Orphaned (owners : StreamOwners) (index : Nat) : Prop :=
  ∃ object, owners.objects[index]? = some object
    ∧ object.pump = .deleted
    ∧ object.creator = .spawned

theorem Orphaned.step {index : Nat} (orphaned : owners.Orphaned index)
    (takes : Takes owners after event outputs) (safe : Safe { before := owners, event, outputs })
    : after.Orphaned index := by
  obtain ⟨object, found, deleted, spawned⟩ := orphaned
  cases takes with
  | create requestId objects streams user =>
      refine ⟨object, ?_, deleted, spawned⟩
      rw [objects, List.getElem?_append_left (List.getElem?_eq_some_iff.mp found).1, found]
  | @move _ _ other held moved found' moves keeps objects user =>
      by_cases own : index = other
      · subst own
        obtain rfl := Option.some.inj (found.symm.trans found')
        cases moves with
        | assign point => exact absurd deleted (safe.alive index object List.mem_cons_self found)
        | _ => simp_all
      · exact ⟨object, (objects index).trans ((if_neg own).trans found), deleted, spawned⟩
  | find requestId known objects streams user => exact ⟨object, objects ▸ found, deleted, spawned⟩
  | touch user same => exact same ▸ ⟨object, found, deleted, spawned⟩
  | release objects streams user => exact ⟨object, objects ▸ found, deleted, spawned⟩

/-- A safe deletion comes after the hand-off, or leaves the stream orphaned. -/
theorem Sound.delete (sound : owners.Sound) (takes : Takes owners after event outputs)
    (safe : Safe { before := owners, event, outputs }) {index : Nat} {object : BackendObject}
    (deletes : event = .delete index) (found : owners.objects[index]? = some object)
    : object.creator = .detached ∨ after.Orphaned index := by
  subst deletes
  cases takes with
  | @move _ _ other held moved found' moves keeps objects user =>
      cases moves with
      | delete point =>
          obtain rfl := Option.some.inj (found.symm.trans found')
          obtain ⟨begun, joinable⟩ := sound.each index object found
          rcases begun (by simp [point]) with spawned | assigned | detached
          · exact .inr ⟨_, (objects index).trans (if_pos rfl), rfl, spawned⟩
          · have unjoinable := safe.unjoinable index _ List.mem_cons_self
            cases unjoinable.symm.trans (joinable.mpr assigned)
          · exact .inl detached

-- Runs

variable {history : LifetimeHistory} {last : StreamOwners}

theorem run_sound {allowed : LifetimeHistory → StreamOwners → LifetimeEvent → Prop}
    (run : Run step allowed {} history last)
    : last.Sound := by
  refine run.invariant (fun _ owners => owners.Sound) ?_ ?_
  · refine ⟨nofun, ?_, nofun⟩
    intro requestId index known
    simp at known
  · intro history owners event after outputs _ sound _ taken
    exact sound.step (takes_of_step taken)

/-- Streams that are deleted after the hand-off are deleted safely. -/
theorem run_safe (run : Run step (fun _ _ _ => True) {} history last)
    : (∀ stage ∈ history, HandedOff stage) → (∀ stage ∈ history, Safe stage) ∧ last.Released := by
  refine run.invariant (fun history owners =>
    (∀ stage ∈ history, HandedOff stage) → (∀ stage ∈ history, Safe stage) ∧ owners.Released) ?_ ?_
  · exact fun _ => ⟨nofun, nofun⟩
  · intro history owners event after outputs earlier kept _ taken handed
    obtain ⟨before, now⟩ := List.forall_mem_append.mp handed
    obtain ⟨safe, released⟩ := kept before
    obtain ⟨safeNow, releasedNow⟩ := (run_sound earlier).safe released (takes_of_step taken)
      (now _ List.mem_cons_self)
    refine ⟨List.forall_mem_append.mpr ⟨safe, ?_⟩, releasedNow⟩
    intro stage member
    exact List.mem_singleton.mp member ▸ safeNow

/-- In a safe run the streams that were not handed off when they were deleted are orphaned. -/
theorem run_orphaned (run : Run step (fun _ _ _ => True) {} history last)
    : (∀ stage ∈ history, Safe stage) → ∀ stage ∈ history, ∀ index object, stage.event = .delete index
      → stage.before.objects[index]? = some object
      → object.creator = .detached ∨ last.Orphaned index := by
  refine run.invariant (fun history owners => (∀ stage ∈ history, Safe stage)
    → ∀ stage ∈ history, ∀ index object, stage.event = .delete index
      → stage.before.objects[index]? = some object
      → object.creator = .detached ∨ owners.Orphaned index) ?_ ?_
  · exact fun _ => nofun
  · intro history owners event after outputs earlier kept _ taken safe
    obtain ⟨before, now⟩ := List.forall_mem_append.mp safe
    refine List.forall_mem_append.mpr ⟨?_, ?_⟩
    · intro stage member index object deletes found
      refine (kept before stage member index object deletes found).imp_right fun orphaned => ?_
      exact orphaned.step (takes_of_step taken) (now _ List.mem_cons_self)
    · intro stage member index object deletes found
      obtain rfl := List.mem_singleton.mp member
      exact (run_sound earlier).delete (takes_of_step taken) (now _ List.mem_cons_self) deletes found

/-- In every run in which streams are deleted only after their creators have detached the pump, no step
touches a deleted stream and none is deleted with a joinable thread; in a run in which the creators of
the deleted streams get to their end, that is so only then.
-/
theorem safe_iff_handed_off (run : Run step (fun _ _ _ => True) {} history last)
    : ((∀ stage ∈ history, HandedOff stage) → ∀ stage ∈ history, Safe stage)
      ∧ (last.Released → ((∀ stage ∈ history, Safe stage) ↔ ∀ stage ∈ history, HandedOff stage)) := by
  refine ⟨fun handed => (run_safe run handed).1, fun released => ⟨?_, fun handed =>
    (run_safe run handed).1⟩⟩
  intro safe stage member index object deletes found
  refine (run_orphaned run safe stage member index object deletes found).resolve_right ?_
  rintro ⟨later, found', deleted, spawned⟩
  cases spawned.symm.trans (released index later found' deleted)

/-- A stream that a user reaches while its call fails at once. -/
def handedOver : List LifetimeEvent :=
  [
    .create [1],
    .register 0,
    .startCall 0,
    .find [1],
    .spawn 0,
    .touch,
    .run 0,
    .assign 0,
    .finish 0,
    .touch,
    .release,
    .erase 0,
    .detach 0,
    .close 0,
    .delete 0
  ]

theorem safe_iff_handed_off_handedOver
    : ∃ history last, Run step (fun _ _ _ => True) {} history last
      ∧ history.length = 15
      ∧ ((∀ stage ∈ history, HandedOff stage) → ∀ stage ∈ history, Safe stage)
      ∧ (last.Released → ((∀ stage ∈ history, Safe stage) ↔ ∀ stage ∈ history, HandedOff stage)) := by
  have shown : shows step {} handedOver (fun history => history.length = 15) = true := by
    decide +kernel
  obtain ⟨history, last, run, length⟩ := Run.of_shows shown
  exact ⟨history, last, run, of_decide_eq_true length, safe_iff_handed_off run⟩

/-- The pump deletes the stream before the creator has assigned the thread to it. -/
theorem deleted_before_assigned
    : ¬ ∀ history last, Run step (fun _ _ _ => True) {} history last → ∀ stage ∈ history, Safe stage := by
  intro always
  have shown : shows step {}
      [
        .create [1],
        .register 0,
        .startCall 0,
        .spawn 0,
        .finish 0,
        .erase 0,
        .close 0,
        .delete 0,
        .assign 0
      ]
      (fun history => history.any fun stage =>
        .accessed 0 ∈ stage.outputs
        && (stage.before.objects[0]?).any fun object => object.pump = .deleted) = true := by
    decide +kernel
  obtain ⟨history, last, run, found⟩ := Run.of_shows shown
  obtain ⟨stage, member, both⟩ := List.any_eq_true.mp found
  obtain ⟨accessed, deleted⟩ := Bool.and_eq_true_iff.mp both
  obtain ⟨object, held, gone⟩ := Option.any_eq_true _ _ |>.mp deleted
  exact (always history last run stage member).alive 0 object (of_decide_eq_true accessed) held
    (of_decide_eq_true gone)

end StreamOwners

end Creek.Leaf
