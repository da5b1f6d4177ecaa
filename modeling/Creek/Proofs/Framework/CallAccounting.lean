import Creek.Framework.Stage4
import Creek.Library.Lookups
import Creek.Library.Runs

/-! The counter of the external calls. A call is accepted when the `execute` that passed it has counted it,
which is its last step. By then the calls may have been run, and `stop` may have dropped them.
-/

namespace Creek.Framework

open Library

/-- The call that a worker has taken and not begun. -/
def CallWorker.held? {κ : Type} : CallWorker κ → Option (Submitted κ)
  | .holding item => some item
  | _ => none

def CallWorker.called? {κ : Type} : CallWorker κ → Option (Submitted κ)
  | .calling item => some item
  | _ => none

/-- A call of `execute` by what it has counted and has still to send. -/
structure Tally where
  callCount : Nat
  unsent : Nat
  counted : Bool
  live : Bool
  deriving DecidableEq

def Execution.tally {μ κ : Type} (execution : Execution μ κ) : Tally where
  callCount := execution.callCount
  unsent := execution.externalCalls.length
  counted := execution.counted
  live := execution.live

/-- What holds of a call of `execute` when some of its items are in flight. -/
structure Tally.Fits (flying : Nat) (tally : Tally) : Prop where
  within : flying + tally.unsent ≤ tally.callCount
  small : tally.callCount < sizeRange
  uncounted : 0 < tally.unsent → tally.counted = false

theorem Tally.Fits.fewer {flying fewer : Nat} {tally : Tally} (fits : tally.Fits flying)
    (le : fewer ≤ flying)
    : tally.Fits fewer :=
  ⟨(Nat.add_le_add_right le _).trans fits.within, fits.small, fits.uncounted⟩

namespace Stage4Executor

variable {μ κ : Type}

def tally (executor : Stage4Executor μ κ) (batch : Nat) : Option Tally :=
  (executor.executions[batch]?).map Execution.tally

/-- Whether the call of `execute` that has passed an item has counted it. -/
def counted (executor : Stage4Executor μ κ) (item : Submitted κ) : Bool :=
  (executor.tally item.batch).any Tally.counted

/-- The calls in the work queue, and those that a worker has taken from it and not begun. -/
def waiting (executor : Stage4Executor μ κ) : List (Submitted κ) :=
  executor.workers.filterMap CallWorker.held? ++ executor.workQueue.items

def calling (executor : Stage4Executor μ κ) : List (Submitted κ) :=
  executor.workers.filterMap CallWorker.called?

/-- The calls that are queued or with a worker. -/
def inFlight (executor : Stage4Executor μ κ) : List (Submitted κ) :=
  executor.calling ++ executor.waiting

abbrev CallStage (μ κ : Type) :=
  Stage (Stage4Executor μ κ) (Stage4Event μ κ) (Stage4Output κ)

def enteredBy (stage : CallStage μ κ) : List (Submitted κ) :=
  stage.outputs.filterMap fun
    | .entered item => some item
    | _ => none

/-- The calls that a step begins, or drops. -/
def leftBy (stage : CallStage μ κ) : List (Submitted κ) :=
  stage.outputs.filterMap fun
    | .called item | .dropped item => some item
    | _ => none

/-- The counter is the number of accepted calls that are queued or with a worker. Every call that has entered
the work queue, as often as it has, is waiting there or with a worker, or has been begun, or dropped by
`stop`; and what was passed to a running executor has entered it.
-/
structure Accounted (history : List (CallStage μ κ)) (executor : Stage4Executor μ κ) : Prop where
  pending : executor.pending = executor.inFlight.countP executor.counted
  once : (history.flatMap enteredBy).Perm (history.flatMap leftBy ++ executor.waiting)
  enters : ∀ item, .refused item ∈ emitted history
    → ∃ tally, executor.tally item.batch = some tally ∧ tally.live = false

/-- A step that does not count calls which are no longer queued or with a worker, does not finish a call that
has not been counted, and does not drop one that has.
-/
def CountsRight (executor : Stage4Executor μ κ) : Stage4Event μ κ → Prop
  | .count batch =>
      ∀ tally, executor.tally batch = some tally
        → executor.inFlight.countP (fun item => item.batch = batch) = tally.callCount
          ∧ executor.pending + tally.callCount < sizeRange
  | .finish worker _ => ∀ item, executor.workers[worker]? = some (.calling item) → executor.counted item
  | .close => ∀ item ∈ executor.workQueue.items, executor.counted item = false
  | _ => True

/-- A step that does not send a call which was passed to a running executor to the closed queue. -/
def SendsOpen (executor : Stage4Executor μ κ) : Stage4Event μ κ → Prop
  | .sendCall batch =>
      ∀ tally, executor.tally batch = some tally → tally.live → executor.workQueue.closed = false
  | _ => True

structure Harmless (executor : Stage4Executor μ κ) (event : Stage4Event μ κ) : Prop where
  counts : executor.CountsRight event
  opens : executor.SendsOpen event

/-- What a step does to the calls and to the counter. -/
inductive Takes (before after : Stage4Executor μ κ) : Stage4Event μ κ → List (Stage4Output κ) → Prop
  | quiet {event : Stage4Event μ κ} (harmless : before.Harmless event)
      (tallies : ∀ batch, after.tally batch = before.tally batch)
      (calling : after.calling.Perm before.calling) (waiting : after.waiting.Perm before.waiting)
      (pending : after.pending = before.pending)
    : Takes before after event []
  | enter {newMessages : List μ} {externalCalls : List κ} (index : Nat) (new : before.tally index = none)
      (small : externalCalls.length < sizeRange)
      (tallies : ∀ batch, after.tally batch =
        if batch = index then
          some
            {
              callCount := externalCalls.length
              unsent := externalCalls.length
              counted := false
              live := before.running
            }
        else before.tally batch)
      (calling : after.calling = before.calling) (waiting : after.waiting = before.waiting)
      (pending : after.pending = before.pending)
    : Takes before after (.enter newMessages externalCalls) []
  | send {batch : Nat} {call : κ} (tally : Tally) (unsent : Nat) (found : before.tally batch = some tally)
      (left : tally.unsent = unsent + 1)
      (tallies : ∀ other, after.tally other =
        if other = batch then some { tally with unsent } else before.tally other)
      (calling : after.calling = before.calling)
      (waiting : after.waiting =
        before.waiting ++ if before.workQueue.closed then [] else [{ batch := batch, call := call }])
      (pending : after.pending = before.pending)
    : Takes before after (.sendCall batch)
        [if before.workQueue.closed then .refused { batch, call } else .entered { batch, call }]
  | count {batch : Nat} (tally : Tally) (found : before.tally batch = some tally)
      (sent : tally.unsent = 0) (uncounted : tally.counted = false)
      (tallies : ∀ other, after.tally other =
        if other = batch then some { tally with counted := true } else before.tally other)
      (calling : after.calling = before.calling) (waiting : after.waiting = before.waiting)
      (pending : after.pending = fetchAdd before.pending tally.callCount)
    : Takes before after (.count batch) []
  | close (tallies : ∀ batch, after.tally batch = before.tally batch)
      (calling : after.calling = before.calling)
      (waiting : before.waiting = after.waiting ++ before.workQueue.items)
      (pending : after.pending = before.pending)
    : Takes before after .close (before.workQueue.items.map .dropped)
  | call (worker : Nat) {item : Submitted κ} (tallies : ∀ batch, after.tally batch = before.tally batch)
      (calling : after.calling.Perm (item :: before.calling))
      (waiting : before.waiting.Perm (item :: after.waiting)) (pending : after.pending = before.pending)
    : Takes before after (.call worker) [.called item]
  | finish {worker : Nat} {outcome : CallOutcome} {item : Submitted κ}
      (found : before.workers[worker]? = some (.calling item))
      (tallies : ∀ batch, after.tally batch = before.tally batch)
      (calling : before.calling.Perm (item :: after.calling)) (waiting : after.waiting.Perm before.waiting)
      (pending : after.pending = fetchSub before.pending 1)
    : Takes before after (.finish worker outcome) [.finished item outcome]

variable {executor after : Stage4Executor μ κ} {event : Stage4Event μ κ}
  {outputs : List (Stage4Output κ)} {history : List (CallStage μ κ)}

theorem tally_withExecution {batch : Nat} {old new : Execution μ κ}
    (found : executor.executions[batch]? = some old) (other : Nat)
    : (executor.withExecution batch new).tally other =
      if other = batch then some new.tally else executor.tally other := by
  have within := (List.getElem?_eq_some_iff.mp found).1
  rw [tally, withExecution, List.getElem?_set]
  by_cases own : batch = other
  · rw [if_pos own, if_pos within, if_pos own.symm]
    rfl
  · rw [if_neg own, if_neg (Ne.symm own)]
    rfl

theorem same_withPending (executor : Stage4Executor μ κ) (pending : Nat)
    : ({ executor with pending := pending } : Stage4Executor μ κ).calling = executor.calling
      ∧ ({ executor with pending := pending } : Stage4Executor μ κ).waiting = executor.waiting
      ∧ ({ executor with pending := pending } : Stage4Executor μ κ).tally = executor.tally :=
  ⟨rfl, rfl, rfl⟩

theorem withWorker_perm {worker : Nat} {old : CallWorker κ} (found : executor.workers[worker]? = some old)
    (new : CallWorker κ)
    : (old.held?.toList ++ (executor.withWorker worker new).waiting).Perm
        (new.held?.toList ++ executor.waiting)
      ∧ (old.called?.toList ++ (executor.withWorker worker new).calling).Perm
        (new.called?.toList ++ executor.calling) := by
  refine ⟨?_, filterMap_set_perm CallWorker.called? found new⟩
  have held := filterMap_set_perm CallWorker.held? found new
  simp only [waiting, ← List.append_assoc]
  exact held.append_right _

/-- A worker that goes on without a call keeps the calls where they are. -/
theorem quiet_withWorker {worker : Nat} {old new : CallWorker κ}
    (found : executor.workers[worker]? = some old) (harmless : executor.Harmless event)
    (idle : old.held? = none ∧ old.called? = none) (idle' : new.held? = none ∧ new.called? = none)
    : Takes executor (executor.withWorker worker new) event [] := by
  obtain ⟨held, called⟩ := withWorker_perm found new
  rw [idle.1, idle'.1] at held
  rw [idle.2, idle'.2] at called
  exact .quiet harmless (fun _ => rfl) called held rfl

theorem filterMap_idle (workers : List (CallWorker κ))
    (idle : ∀ worker ∈ workers, worker.held? = none ∧ worker.called? = none)
    : workers.filterMap CallWorker.held? = [] ∧ workers.filterMap CallWorker.called? = [] :=
  ⟨List.filterMap_eq_nil_iff.mpr fun worker member => (idle worker member).1,
    List.filterMap_eq_nil_iff.mpr fun worker member => (idle worker member).2⟩

theorem takes_of_step (taken : executor.step event = .ok (after, outputs))
    : Takes executor after event outputs := by
  cases event with
  | enter newMessages externalCalls =>
      rw [step] at taken
      split at taken
      · rename_i small
        cases taken
        refine .enter executor.executions.length ?_ small (fun batch => ?_) rfl rfl rfl
        · simp [tally]
        · rw [tally, List.getElem?_append]
          split
          · rename_i within
            rw [if_neg (Nat.ne_of_lt within)]
            rfl
          · split
            · rename_i last
              simp [last, Execution.tally]
            · rename_i beyond other
              rw [List.getElem?_singleton, if_neg (by omega), tally,
                List.getElem?_eq_none_iff.mpr (not_lt.mp beyond)]
      · cases taken
  | sendMessage batch =>
      rw [step] at taken
      split at taken
      · rename_i execution found
        split at taken
        · cases taken
          refine .quiet ⟨trivial, trivial⟩ (fun other => ?_) .rfl .rfl rfl
          refine (tally_withExecution found other).trans ?_
          split
          · rename_i own
            rw [own, tally, found]
            rfl
          · rfl
        · cases taken
      · cases taken
  | sendCall batch =>
      rw [step] at taken
      split at taken
      · rename_i execution found
        split at taken
        · rename_i call rest _ unsent
          cases taken
          refine .send execution.tally rest.length ?_ ?_ ?_ rfl ?_ rfl
          · rw [tally, found]
            rfl
          · rw [Execution.tally, unsent, List.length_cons]
          · exact tally_withExecution found
          · simp only [waiting, withExecution, CopyChannel.send]
            split <;> simp
        · cases taken
      · cases taken
  | count batch =>
      rw [step] at taken
      split at taken
      · rename_i execution found
        split at taken
        · rename_i sent uncounted
          cases taken
          refine .count execution.tally ?_ ?_ ?_ ?_ rfl rfl rfl
          · rw [tally, found]
            rfl
          · rw [Execution.tally, sent, List.length_nil]
          · exact uncounted
          · exact tally_withExecution found
        · cases taken
      · cases taken
  | start workerThreads =>
      rw [step] at taken
      split at taken
      · cases taken
        exact .quiet ⟨trivial, trivial⟩ (fun _ => rfl) .rfl .rfl rfl
      · split at taken
        · rename_i stopped workers
          cases taken
          obtain ⟨held, called⟩ := filterMap_idle (List.replicate workerThreads (.checking : CallWorker κ)) fun worker member =>
            List.eq_of_mem_replicate member ▸ ⟨rfl, rfl⟩
          refine .quiet ⟨trivial, trivial⟩ (fun _ => rfl) ?_ ?_ rfl
          · rw [calling, calling, called, workers]
            exact .rfl
          · rw [waiting, waiting, held, workers]
            exact .rfl
        · cases taken
  | stop =>
      rw [step] at taken
      split at taken
      · cases taken
        exact .quiet ⟨trivial, trivial⟩ (fun _ => rfl) .rfl .rfl rfl
      · cases taken
  | close =>
      rw [step] at taken
      split at taken
      · cases taken
        exact .close (fun _ => rfl) rfl (by simp [waiting, CopyChannel.close]) rfl
      · cases taken
  | join =>
      rw [step] at taken
      split at taken
      · rename_i joinable
        cases taken
        obtain ⟨held, called⟩ := filterMap_idle executor.workers fun worker member => by
          have left := List.all_eq_true.mp joinable.2 worker member
          split at left
          · exact ⟨rfl, rfl⟩
          · cases left
        refine .quiet ⟨trivial, trivial⟩ (fun _ => rfl) ?_ ?_ rfl
        · rw [calling, calling, called]
          exact .rfl
        · rw [waiting, waiting, held]
          exact .rfl
      · cases taken
  | check worker =>
      rw [step] at taken
      split at taken
      · rename_i found
        cases taken
        refine quiet_withWorker found ⟨trivial, trivial⟩ ⟨rfl, rfl⟩ ?_
        split <;> exact ⟨rfl, rfl⟩
      · cases taken
  | receive worker =>
      rw [step] at taken
      split at taken
      · rename_i item workQueue found received
        cases taken
        obtain ⟨held, called⟩ := withWorker_perm found (.holding item)
        rw [CopyChannel.recv] at received
        split at received
        · cases received
        · rename_i rest queued
          cases received
          refine .quiet ⟨trivial, trivial⟩ (fun _ => rfl) called ?_ rfl
          have moved := filterMap_set_perm CallWorker.held? found (.holding item)
          rw [waiting, waiting, queued]
          exact (moved.append_right rest).trans List.perm_middle.symm
      · rename_i found received
        cases taken
        exact quiet_withWorker found ⟨trivial, trivial⟩ ⟨rfl, rfl⟩ ⟨rfl, rfl⟩
      · cases taken
  | call worker =>
      rw [step] at taken
      split at taken
      · rename_i item found
        cases taken
        obtain ⟨held, called⟩ := withWorker_perm found (.calling item)
        exact .call worker (fun _ => rfl) called held.symm rfl
      · cases taken
  | finish worker outcome =>
      rw [step] at taken
      split at taken
      · rename_i item found
        cases taken
        obtain ⟨held, called⟩ := withWorker_perm found .checking
        obtain ⟨calling, waiting, tally⟩ :=
          (executor.withWorker worker .checking).same_withPending (fetchSub executor.pending 1)
        refine .finish found (fun batch => ?_) ?_ ?_ rfl
        · rw [tally]
          rfl
        · rw [calling]
          exact called.symm
        · rw [waiting]
          exact held
      · cases taken

-- What every step keeps

/-- The items in flight are among those sent, and the counter is in its range. -/
structure Fits (executor : Stage4Executor μ κ) : Prop where
  known : ∀ item ∈ executor.inFlight, executor.tally item.batch ≠ none
  each : ∀ batch tally, executor.tally batch = some tally
    → tally.Fits (executor.inFlight.countP fun item => item.batch = batch)
  range : executor.pending < sizeRange

theorem inFlight_of_call {item : Submitted κ} (calling : after.calling.Perm (item :: executor.calling))
    (waiting : executor.waiting.Perm (item :: after.waiting))
    : after.inFlight.Perm executor.inFlight :=
  (calling.append_right _).trans (.trans List.perm_middle.symm (waiting.symm.append_left _))

theorem inFlight_of_finish {item : Submitted κ} (calling : executor.calling.Perm (item :: after.calling))
    (waiting : after.waiting.Perm executor.waiting)
    : executor.inFlight.Perm (item :: after.inFlight) :=
  calling.append waiting.symm

theorem inFlight_of_close {items : List (Submitted κ)} (calling : after.calling = executor.calling)
    (waiting : executor.waiting = after.waiting ++ items)
    : executor.inFlight = after.inFlight ++ items := by
  rw [inFlight, inFlight, calling, waiting, List.append_assoc]

theorem inFlight_of_send {items : List (Submitted κ)} (calling : after.calling = executor.calling)
    (waiting : after.waiting = executor.waiting ++ items)
    : after.inFlight = executor.inFlight ++ items := by
  rw [inFlight, inFlight, calling, waiting, List.append_assoc]

/-- A step that changes no tally and brings nothing into flight. -/
theorem Fits.of_same (fits : executor.Fits) (inFlight : ∀ select : Submitted κ → Bool,
      after.inFlight.countP select ≤ executor.inFlight.countP select)
    (tallies : ∀ batch, after.tally batch = executor.tally batch) (range : after.pending < sizeRange)
    : after.Fits where
  known item member := by
    have one : 0 < after.inFlight.countP fun other => other.batch = item.batch :=
      List.countP_pos_iff.mpr ⟨item, member, decide_eq_true rfl⟩
    obtain ⟨other, held, same⟩ := List.countP_pos_iff.mp (one.trans_le (inFlight _))
    rw [tallies, ← of_decide_eq_true same]
    exact fits.known other held
  each batch tally found := (fits.each batch tally (tallies batch ▸ found)).fewer (inFlight _)
  range := range

/-- A step that changes one tally and brings into flight items of its batch only. -/
theorem Fits.of_one (fits : executor.Fits) {batch : Nat} {changed : Tally} {items : List (Submitted κ)}
    (inFlight : after.inFlight = executor.inFlight ++ items) (own : ∀ item ∈ items, item.batch = batch)
    (tallies : ∀ other, after.tally other = if other = batch then some changed else executor.tally other)
    (fits' : changed.Fits (after.inFlight.countP fun item => item.batch = batch))
    (range : after.pending < sizeRange)
    : after.Fits where
  known item member := by
    rw [tallies]
    split
    · nofun
    · rename_i other
      rcases List.mem_append.mp (inFlight ▸ member) with before | new
      · exact fits.known item before
      · exact absurd (own item new) other
  each other tally found := by
    rw [tallies] at found
    split at found
    · rename_i same
      obtain rfl := Option.some.inj found
      exact same ▸ fits'
    · rename_i different
      have none_new : items.countP (fun item => item.batch = other) = 0 :=
        List.countP_eq_zero.mpr fun item member same =>
          different ((of_decide_eq_true same).symm.trans (own item member))
      rw [inFlight, List.countP_append, none_new, Nat.add_zero]
      exact fits.each other tally found
  range := range

theorem sizeRange_pos : 0 < sizeRange := by
  rw [sizeRange]
  omega

theorem Fits.step (fits : executor.Fits) (takes : Takes executor after event outputs) : after.Fits := by
  cases takes with
  | quiet harmless tallies calling waiting pending =>
      refine fits.of_same (fun select => ?_) tallies (pending ▸ fits.range)
      exact ((calling.append waiting).countP_eq select).le
  | call worker tallies calling waiting pending =>
      refine fits.of_same (fun select => ?_) tallies (pending ▸ fits.range)
      exact ((inFlight_of_call calling waiting).countP_eq select).le
  | close tallies calling waiting pending =>
      refine fits.of_same (fun select => ?_) tallies (pending ▸ fits.range)
      rw [inFlight_of_close calling waiting, List.countP_append]
      exact Nat.le_add_right ..
  | finish found tallies calling waiting pending =>
      refine fits.of_same (fun select => ?_) tallies ?_
      · rw [(inFlight_of_finish calling waiting).countP_eq select, List.countP_cons]
        exact Nat.le_add_right ..
      · rw [pending]
        exact Nat.mod_lt _ sizeRange_pos
  | @enter newMessages externalCalls index new small tallies calling waiting pending =>
      have same := inFlight_of_send calling (waiting.trans (List.append_nil _).symm)
      refine fits.of_one same nofun tallies ⟨?_, small, fun _ => rfl⟩ (pending ▸ fits.range)
      -- nothing of a new batch is in flight
      have none_yet : executor.inFlight.countP (fun item => item.batch = index) = 0 :=
        List.countP_eq_zero.mpr fun item member own =>
          fits.known item member (of_decide_eq_true own ▸ new)
      rw [same, List.append_nil, none_yet, Nat.zero_add]
  | @send batch call sending unsent found left tallies calling waiting pending =>
      have more := inFlight_of_send calling waiting
      obtain ⟨within, small, uncounted⟩ := fits.each batch sending found
      refine fits.of_one more ?_ tallies ⟨?_, small, fun _ => uncounted (by omega)⟩ (pending ▸ fits.range)
      · intro item member
        split at member
        · cases member
        · exact congrArg Submitted.batch (List.mem_singleton.mp member)
      · rw [more, List.countP_append]
        have one : (if executor.workQueue.closed then [] else [({ batch, call } : Submitted κ)]).countP
            (fun item => item.batch = batch) ≤ 1 := by
          refine List.countP_le_length.trans ?_
          split <;> simp
        dsimp only
        omega
  | @count batch counting found sent uncounted tallies calling waiting pending =>
      have same := inFlight_of_send calling (waiting.trans (List.append_nil _).symm)
      obtain ⟨within, small, -⟩ := fits.each batch counting found
      refine fits.of_one same nofun tallies ⟨?_, small, fun unsent => ?_⟩ ?_
      · rw [same, List.append_nil]
        exact within
      · exact absurd sent unsent.ne'
      · rw [pending]
        exact Nat.mod_lt _ sizeRange_pos

/-- What enters a step, or was waiting before it, leaves it or is waiting after it. -/
theorem Takes.flow (takes : Takes executor after event outputs)
    : (enteredBy { before := executor, event, outputs } ++ executor.waiting).Perm
        (leftBy { before := executor, event, outputs } ++ after.waiting) := by
  cases takes with
  | quiet _ _ _ waiting => exact waiting.symm
  | enter _ _ _ _ _ waiting => exact .of_eq waiting.symm
  | count _ _ _ _ _ _ waiting => exact .of_eq waiting.symm
  | @send batch call _ _ _ _ _ _ waiting =>
      rw [waiting]
      rcases executor.workQueue.closed with _ | _
      · simpa [enteredBy, leftBy] using (List.perm_append_singleton _ _).symm
      · simp [enteredBy, leftBy]
  | close _ _ waiting =>
      rw [waiting]
      simpa [enteredBy, leftBy, List.filterMap_map, Function.comp_def] using List.perm_append_comm
  | call worker _ _ waiting => simpa [enteredBy, leftBy] using waiting
  | finish _ _ _ waiting => simpa [enteredBy, leftBy] using waiting.symm

-- The counter through one step

/-- Counting calls of which no more than they are is in flight. -/
theorem fetchAdd_eq_iff {active amount flying : Nat} (le : flying ≤ amount) (small : amount < sizeRange)
    : fetchAdd active amount = active + flying ↔ flying = amount ∧ active + amount < sizeRange := by
  rw [fetchAdd]
  rw [sizeRange] at small ⊢
  omega

theorem fetchSub_succ {active : Nat} (range : active + 1 < sizeRange) : fetchSub (active + 1) 1 = active := by
  rw [fetchSub]
  rw [sizeRange] at range ⊢
  omega

theorem fetchSub_ne (active : Nat) : fetchSub active 1 ≠ active := by
  rw [fetchSub, sizeRange]
  omega

theorem counted_of_same (tallies : ∀ batch, after.tally batch = executor.tally batch)
    : after.counted = executor.counted := by
  funext item
  rw [counted, counted, tallies]

/-- The counter stays right exactly in a step that counts right. -/
theorem pending_iff (fits : executor.Fits)
    (right : executor.pending = executor.inFlight.countP executor.counted)
    (takes : Takes executor after event outputs)
    : after.pending = after.inFlight.countP after.counted ↔ executor.CountsRight event := by
  cases takes with
  | quiet harmless tallies calling waiting pending =>
      refine iff_of_true ?_ harmless.counts
      rw [pending, right, counted_of_same tallies]
      exact ((calling.append waiting).countP_eq _).symm
  | call worker tallies calling waiting pending =>
      refine iff_of_true ?_ trivial
      rw [pending, right, counted_of_same tallies]
      exact ((inFlight_of_call calling waiting).countP_eq _).symm
  | @enter newMessages externalCalls index new small tallies calling waiting pending =>
      refine iff_of_true ?_ trivial
      have same := inFlight_of_send calling (waiting.trans (List.append_nil _).symm)
      rw [pending, right, same, List.append_nil]
      refine List.countP_congr fun item member => ?_
      have older : item.batch ≠ index := fun own => fits.known item member (own ▸ new)
      rw [counted, counted, tallies, if_neg older]
  | @send batch call sending unsent found left tallies calling waiting pending =>
      refine iff_of_true ?_ trivial
      have uncounted := (fits.each batch sending found).uncounted (by omega)
      have same : after.counted = executor.counted := by
        funext item
        rw [counted, counted, tallies]
        split
        · rename_i own
          rw [own, found]
          rfl
        · rfl
      have none_new : (if executor.workQueue.closed then [] else [({ batch, call } : Submitted κ)]).countP
          executor.counted = 0 := by
        refine List.countP_eq_zero.mpr fun item member => ?_
        split at member
        · cases member
        · obtain rfl := List.mem_singleton.mp member
          simp [counted, found, uncounted]
      rw [pending, right, inFlight_of_send calling waiting, List.countP_append, same, none_new, Nat.add_zero]
  | @count batch counting found sent uncounted tallies calling waiting pending =>
      have same := inFlight_of_send calling (waiting.trans (List.append_nil _).symm)
      rw [List.append_nil] at same
      obtain ⟨within, small, -⟩ := fits.each batch counting found
      have both : after.inFlight.countP after.counted =
          executor.inFlight.countP executor.counted
            + executor.inFlight.countP (fun item => item.batch = batch) := by
        rw [same]
        refine countP_of_apart (fun item _ => ?_) fun item _ own => ?_
        · rw [counted, counted, tallies]
          split
          · rename_i own
            simp [own]
          · rename_i other
            simp [other]
        · rw [counted, of_decide_eq_true own, found]
          exact uncounted
      rw [pending, both, right, fetchAdd_eq_iff (by omega) small, ← right]
      constructor
      · rintro counts tally found'
        obtain rfl := Option.some.inj (found.symm.trans found')
        exact counts
      · exact fun counts => counts counting found
  | close tallies calling waiting pending =>
      rw [pending, right, counted_of_same tallies, inFlight_of_close calling waiting, List.countP_append,
        Nat.add_eq_left, List.countP_eq_zero]
      simp only [Bool.not_eq_true]
      rfl
  | @finish worker outcome item found tallies calling waiting pending =>
      have split := (inFlight_of_finish calling waiting).countP_eq executor.counted
      rw [List.countP_cons] at split
      rw [pending, counted_of_same tallies, right, split]
      have range := fits.range
      rw [right, split] at range
      constructor
      · intro lowered other found'
        obtain rfl := CallWorker.calling.inj (Option.some.inj (found.symm.trans found'))
        by_contra uncounted
        rw [if_neg uncounted, Nat.add_zero] at lowered
        exact fetchSub_ne _ lowered
      · intro counts
        rw [if_pos (counts item found)] at range ⊢
        exact fetchSub_succ range

/-- Whether a call of `execute` began with the executor running does not change. -/
theorem Takes.live (takes : Takes executor after event outputs) {batch : Nat} {tally : Tally}
    (found : executor.tally batch = some tally)
    : ∃ later, after.tally batch = some later ∧ later.live = tally.live := by
  cases takes with
  | quiet _ tallies => exact ⟨tally, (tallies batch).trans found, rfl⟩
  | call _ tallies => exact ⟨tally, (tallies batch).trans found, rfl⟩
  | close tallies => exact ⟨tally, (tallies batch).trans found, rfl⟩
  | finish _ tallies => exact ⟨tally, (tallies batch).trans found, rfl⟩
  | enter index new _ tallies =>
      have older : batch ≠ index := by
        rintro rfl
        cases new.symm.trans found
      exact ⟨tally, (tallies batch).trans ((if_neg older).trans found), rfl⟩
  | @send own _ sending unsent sent _ tallies =>
      by_cases same : batch = own
      · subst same
        obtain rfl := Option.some.inj (sent.symm.trans found)
        exact ⟨_, (tallies batch).trans (if_pos rfl), rfl⟩
      · exact ⟨tally, (tallies batch).trans ((if_neg same).trans found), rfl⟩
  | @count own counting counts _ _ tallies =>
      by_cases same : batch = own
      · subst same
        obtain rfl := Option.some.inj (counts.symm.trans found)
        exact ⟨_, (tallies batch).trans (if_pos rfl), rfl⟩
      · exact ⟨tally, (tallies batch).trans ((if_neg same).trans found), rfl⟩

/-- The only step that refuses a call sends one to the closed queue. -/
theorem Takes.refused (takes : Takes executor after event outputs) {item : Submitted κ}
    (refuses : .refused item ∈ outputs)
    : event = .sendCall item.batch ∧ executor.workQueue.closed = true
      ∧ ∃ tally, executor.tally item.batch = some tally := by
  cases takes with
  | @send batch call sending _ found =>
      rcases shut : executor.workQueue.closed with _ | _
      · simp [shut] at refuses
      · obtain rfl : item = { batch, call } := by simpa [shut] using refuses
        exact ⟨rfl, rfl, sending, found⟩
  | close => simp at refuses
  | call => simp at refuses
  | finish => simp at refuses
  | _ => cases refuses

/-- Calls passed to a running executor keep entering the queue exactly in a step that sends them to an open
one.
-/
theorem enters_iff (enters : ∀ item, .refused item ∈ emitted history
      → ∃ tally, executor.tally item.batch = some tally ∧ tally.live = false)
    (takes : Takes executor after event outputs)
    : (∀ item, .refused item ∈ emitted (history ++ [({ before := executor, event, outputs } : CallStage μ κ)])
        → ∃ tally, after.tally item.batch = some tally ∧ tally.live = false)
      ↔ executor.SendsOpen event := by
  rw [emitted_append, emitted_singleton]
  constructor
  · intro enters'
    cases takes with
    | @send batch call sending unsent found left tallies calling waiting pending =>
        intro tally found' live
        obtain rfl := Option.some.inj (found.symm.trans found')
        by_contra shut
        have closed := Bool.eq_true_of_not_eq_false shut
        obtain ⟨later, held, dead⟩ := enters' { batch, call } (by simp [closed])
        obtain rfl := Option.some.inj (((tallies batch).trans (if_pos rfl)).symm.trans held)
        cases live.symm.trans dead
    | quiet harmless => exact harmless.opens
    | _ => trivial
  · intro opens item refuses
    rcases List.mem_append.mp refuses with earlier | now
    · obtain ⟨tally, found, dead⟩ := enters item earlier
      obtain ⟨later, held, same⟩ := takes.live found
      exact ⟨later, held, same.trans dead⟩
    · obtain ⟨rfl, closed, tally, found⟩ := takes.refused now
      obtain ⟨later, held, same⟩ := takes.live found
      refine ⟨later, held, same.trans ?_⟩
      by_contra live
      cases closed.symm.trans (opens tally found (Bool.eq_true_of_not_eq_false live))

theorem accounted_append (fits : executor.Fits) (accounted : Accounted history executor)
    (takes : Takes executor after event outputs)
    : Accounted (history ++ [{ before := executor, event, outputs }]) after ↔ executor.Harmless event := by
  have once : ((history ++ [({ before := executor, event, outputs } : CallStage μ κ)]).flatMap enteredBy).Perm
      ((history ++ [({ before := executor, event, outputs } : CallStage μ κ)]).flatMap leftBy
        ++ after.waiting) := by
    rw [List.flatMap_append, List.flatMap_append, List.flatMap_singleton, List.flatMap_singleton,
      List.append_assoc]
    refine (accounted.once.append_right _).trans ?_
    rw [List.append_assoc]
    exact .append_left _ (List.perm_append_comm.trans takes.flow)
  have pending := pending_iff fits accounted.pending takes
  have enters := enters_iff accounted.enters takes
  exact ⟨fun after => ⟨pending.mp after.pending, enters.mp after.enters⟩,
    fun harmless => ⟨pending.mpr harmless.counts, once, enters.mpr harmless.opens⟩⟩

/-- In every run the counter is right and calls are where they should be all along exactly when no step of it
does harm.
-/
theorem accounted_iff_harmless (run : Run step (fun _ _ _ => True) {} history executor)
    : Throughout Accounted history executor ↔ ∀ stage ∈ history, stage.before.Harmless stage.event := by
  refine run.throughout_iff ⟨rfl, .rfl, nofun⟩ ?_
  intro history executor event after outputs run accounted _ taken
  have fits : executor.Fits := by
    refine run.invariant (fun _ executor => executor.Fits) ⟨nofun, nofun, sizeRange_pos⟩ ?_
    intro history executor event after outputs run fits _ taken
    exact fits.step (takes_of_step taken)
  exact accounted_append fits accounted (takes_of_step taken)

/-- Two calls that are counted before a worker ends the first of them, which throws. -/
def countedInTime : List (Stage4Event Nat Nat) :=
  [
    .start 1,
    .enter [5] [7, 8],
    .sendMessage 0,
    .sendCall 0,
    .check 0,
    .receive 0,
    .call 0,
    .sendCall 0,
    .count 0,
    .finish 0 .exception,
    .check 0,
    .receive 0,
    .call 0,
    .finish 0 .returned,
    .check 0,
    .stop,
    .close,
    .receive 0,
    .check 0,
    .join
  ]

theorem accounted_iff_harmless_countedInTime
    : ∃ history executor,
      Run step (fun _ _ _ => True) ({} : Stage4Executor Nat Nat) history executor
      ∧ history.flatMap leftBy = [{ batch := 0, call := 7 }, { batch := 0, call := 8 }]
      ∧ (Throughout Accounted history executor
        ↔ ∀ stage ∈ history, stage.before.Harmless stage.event) := by
  have shown : shows step ({} : Stage4Executor Nat Nat) countedInTime (fun history =>
      history.flatMap leftBy = [{ batch := 0, call := 7 }, { batch := 0, call := 8 }]) = true := by
    decide +kernel
  obtain ⟨history, executor, run, left⟩ := Run.of_shows shown
  exact ⟨history, executor, run, of_decide_eq_true left, accounted_iff_harmless run⟩

/-- A worker ends a call before `execute` has counted it: the counter goes below zero. -/
theorem counter_wraps
    : ¬ ∀ history executor,
      Run step (fun _ _ _ => True) ({} : Stage4Executor Nat Nat) history executor
      → Accounted history executor := by
  intro always
  have shown : shows step ({} : Stage4Executor Nat Nat)
      [
        .start 1,
        .enter [] [7],
        .sendCall 0,
        .check 0,
        .receive 0,
        .call 0,
        .finish 0 .returned,
        .count 0
      ]
      (fun history => history.any fun stage =>
        stage.before.pending = sizeRange - 1 && stage.before.inFlight = []) = true := by
    decide +kernel
  obtain ⟨history, executor, run, found⟩ := Run.of_shows shown
  obtain ⟨stage, member, both⟩ := List.any_eq_true.mp found
  simp only [Bool.and_eq_true, decide_eq_true_eq] at both
  obtain ⟨front, before⟩ := run.of_mem member
  have right := (always _ _ before).pending
  rw [both.1, both.2, List.countP_nil, sizeRange] at right
  omega

end Stage4Executor

end Creek.Framework
