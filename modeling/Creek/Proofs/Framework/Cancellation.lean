import Creek.Framework.Reactor
import Creek.Proofs.Framework.PeriodicTasks

/-! Cancelling a periodic task of the reactor. `cancel_periodic` looks for the task in the heap of the timer
only; a firing may be with the timer thread, in the queue of a pool or with a worker by then.
-/

namespace Creek.Framework

open Library

-- Where tasks are

def Worker.task? {Func : Type} : Worker Func → Option (Task Func)
  | .holding task | .executing task => some task
  | .waiting | .left => none

/-- The tasks in the queue of a pool and with its workers. -/
def WorkerPool.held {Func : Type} (pool : WorkerPool Func) : List (Task Func) :=
  pool.queue ++ pool.workers.filterMap Worker.task?

def TimerThread.tasks {Func : Type} : TimerThread Func → List (Task Func)
  | .submitting tasks => tasks
  | .absent | .polling | .left => []

namespace Reactor

open PriorityTimer

variable {Func : Type} {queue : TimerQueue Func}

/-- The tasks that are no longer in the heap and have not been run to their end. -/
def inFlight (reactor : Reactor queue) : List (Task Func) :=
  reactor.timerThread.tasks ++ reactor.io.held ++ reactor.cpu.held

/-- The entries in the heap of the timer. -/
def entries (reactor : Reactor queue) : List (TimerEntry Func) :=
  queue.elements reactor.timer.heap

/-- The entry that an event puts into the heap, if it does. -/
def adds (reactor : Reactor queue) : ReactorEvent Func → Option (TimerEntry Func)
  | .scheduleTimerAt task deadline => some { task, deadline }
  | .scheduleTimerIn task delay => some { task, deadline := timeAfter reactor.timer.now delay }
  | .schedulePeriodic name func period priority skippable =>
      some
        {
          task := { id := idAfter reactor.timer.nextId, name, func, priority, skippable }
          deadline := timeAfter reactor.timer.now period
          period := period
          periodicId := reactor.timer.nextId
        }
  | _ => none

/-- The task that an event submits, if it does. -/
def submitted : ReactorEvent Func → Option (Task Func)
  | .submitIo task | .submitCpu task => some task
  | _ => none

/-- What an event does to the heap and to the tasks in flight. -/
inductive Takes (before after : Reactor queue) : ReactorEvent Func → List (ReactorOutput Func) → Prop
  | pass {event : ReactorEvent Func} {outputs : List (ReactorOutput Func)}
      (adds : before.adds event = none) (entries : after.entries = before.entries)
      (inFlight : ∀ task ∈ after.inFlight, task ∈ before.inFlight ∨ submitted event = some task)
      (silent : ∀ task, .started task ∉ outputs) (uncancelled : .cancelled true ∉ outputs)
    : Takes before after event outputs
  | schedule {event : ReactorEvent Func} {outputs : List (ReactorOutput Func)} {entry : TimerEntry Func}
      (adds : before.adds event = some entry) (entries : after.entries.Perm (entry :: before.entries))
      (inFlight : after.inFlight = before.inFlight)
      (silent : ∀ task, .started task ∉ outputs) (uncancelled : .cancelled true ∉ outputs)
    : Takes before after event outputs
  | poll {tasks : List (Task Func)} {slowSkips : List SlowSkip}
      {fired skipped rearmed : List (TimerEntry Func)}
      (polls : Polls before.timer after.timer tasks slowSkips fired skipped rearmed)
      (inFlight : ∀ task ∈ after.inFlight, task ∈ before.inFlight ∨ task ∈ tasks)
    : Takes before after .poll []
  | cancel (id : Nat) {found : Bool} {removed : Option (TimerEntry Func)}
      (cancels : Cancels (fun entry => entry.periodicId = id) before.timer after.timer found removed)
      (inFlight : after.inFlight = before.inFlight)
    : Takes before after (.cancelPeriodic id) [.cancelled found]
  | execute (which : Pool) (worker : Nat) {task : Task Func} (held : task ∈ before.inFlight)
      (entries : after.entries = before.entries)
      (inFlight : ∀ task ∈ after.inFlight, task ∈ before.inFlight)
    : Takes before after (.execute which worker) [.started task]

variable {reactor after : Reactor queue} {event : ReactorEvent Func}
  {outputs : List (ReactorOutput Func)}

theorem mem_inFlight {task : Task Func}
    : task ∈ reactor.inFlight
      ↔ task ∈ reactor.timerThread.tasks ∨ task ∈ reactor.io.held ∨ task ∈ reactor.cpu.held := by
  simp [inFlight]

theorem held_pool (which : Pool) {task : Task Func} (held : task ∈ (reactor.pool which).held)
    : task ∈ reactor.inFlight := by
  cases which with
  | io => exact mem_inFlight.mpr (.inr (.inl held))
  | cpu => exact mem_inFlight.mpr (.inr (.inr held))

/-- A change of a pool that holds no more than before and some task. -/
theorem inFlight_withPool {which : Pool} {pool : WorkerPool Func} {extra : Option (Task Func)}
    (held : ∀ task ∈ pool.held, task ∈ (reactor.pool which).held ∨ extra = some task) {task : Task Func}
    (member : task ∈ (reactor.withPool which pool).inFlight)
    : task ∈ reactor.inFlight ∨ extra = some task := by
  cases which with
  | io =>
      rcases mem_inFlight.mp member with thread | io | cpu
      · exact .inl (mem_inFlight.mpr (.inl thread))
      · exact (held task io).imp_left (held_pool _)
      · exact .inl (mem_inFlight.mpr (.inr (.inr cpu)))
  | cpu =>
      rcases mem_inFlight.mp member with thread | io | cpu
      · exact .inl (mem_inFlight.mpr (.inl thread))
      · exact .inl (mem_inFlight.mpr (.inr (.inl io)))
      · exact (held task cpu).imp_left (held_pool _)

theorem inFlight_submitTo {which : Pool} {submitted task : Task Func}
    (member : task ∈ (reactor.submitTo which submitted).inFlight)
    : task ∈ reactor.inFlight ∨ some submitted = some task := by
  refine inFlight_withPool (fun task held => ?_) member
  simp only [WorkerPool.held, List.mem_append, List.mem_singleton] at held ⊢
  rcases held with (queued | rfl) | working
  · exact .inl (.inl queued)
  · exact .inr rfl
  · exact .inl (.inr working)

/-- A worker that goes on with no task or with one that was in flight. -/
theorem inFlight_withWorker {which : Pool} {worker : Nat} {state : Worker Func} {task : Task Func}
    (member : task ∈ (reactor.withWorker which worker state).inFlight)
    : task ∈ reactor.inFlight ∨ state.task? = some task := by
  refine inFlight_withPool (fun task held => ?_) member
  simp only [WorkerPool.held, List.mem_append, List.mem_filterMap] at held ⊢
  rcases held with queued | ⟨other, working, holds⟩
  · exact .inl (.inl queued)
  · rcases List.mem_or_eq_of_mem_set working with old | rfl
    · exact .inl (.inr ⟨other, old, holds⟩)
    · exact .inr holds

@[simp] theorem entries_withPool (which : Pool) (pool : WorkerPool Func)
    : (reactor.withPool which pool).entries = reactor.entries := by
  cases which <;> rfl

theorem inFlight_of_worker {which : Pool} {worker : Nat} {state : Worker Func} {task : Task Func}
    (found : (reactor.pool which).workers[worker]? = some state) (holds : state.task? = some task)
    : task ∈ reactor.inFlight :=
  held_pool which (List.mem_append_right _ (List.mem_filterMap.mpr ⟨state, List.mem_of_getElem? found, holds⟩))

/-- A pool whose workers have no task holds what it has queued. -/
theorem held_of_idle {pool old : WorkerPool Func} {task : Task Func} (held : task ∈ pool.held)
    (queue : pool.queue = old.queue) (idle : ∀ worker ∈ pool.workers, worker.task? = none)
    : task ∈ old.held := by
  rcases List.mem_append.mp held with queued | working
  · exact List.mem_append_left _ (queue ▸ queued)
  · obtain ⟨worker, member, holds⟩ := List.mem_filterMap.mp working
    cases (idle worker member).symm.trans holds

theorem takes_of_step (taken : reactor.step event = .ok (after, outputs))
    : Takes reactor after event outputs := by
  cases event with
  | advance elapsed =>
      cases taken
      exact .pass rfl rfl (fun _ => .inl) (by simp) (by simp)
  | drawId =>
      cases taken
      exact .pass rfl rfl (fun _ => .inl) (by simp) (by simp)
  | submitIo task =>
      cases taken
      exact .pass rfl (entries_withPool ..) (fun _ => inFlight_submitTo) (by simp) (by simp)
  | submitCpu task =>
      cases taken
      exact .pass rfl (entries_withPool ..) (fun _ => inFlight_submitTo) (by simp) (by simp)
  | scheduleTimerAt task deadline =>
      cases taken
      exact .schedule rfl (queue.elements_push ..) rfl (by simp) (by simp)
  | scheduleTimerIn task delay =>
      cases taken
      exact .schedule rfl (queue.elements_push ..) rfl (by simp) (by simp)
  | schedulePeriodic name func period priority skippable =>
      cases taken
      exact .schedule rfl (queue.elements_push ..) rfl (by simp) (by simp)
  | cancelPeriodic id =>
      obtain ⟨timer, found, removed, ends, cancels⟩ :=
        cancelFirst_spec (fun entry => entry.periodicId = id) reactor.timer
      rw [step, PriorityTimer.cancelPeriodic, ends] at taken
      cases taken
      exact .cancel id cancels rfl
  | start =>
      rw [step] at taken
      split at taken
      · cases taken
        exact .pass rfl rfl (fun _ => .inl) (by simp) (by simp)
      · split at taken
        · cases taken
          refine .pass rfl rfl (fun task member => .inl (mem_inFlight.mpr ?_)) (by simp) (by simp)
          have idle (threads : Nat) (worker : Worker Func)
              (member : worker ∈ List.replicate threads .waiting) : worker.task? = none :=
            List.eq_of_mem_replicate member ▸ rfl
          rcases mem_inFlight.mp member with submitting | io | cpu
          · cases submitting
          · exact .inr (.inl (held_of_idle io rfl (idle _)))
          · exact .inr (.inr (held_of_idle cpu rfl (idle _)))
        · cases taken
  | requestStop =>
      cases taken
      exact .pass rfl rfl (fun _ => .inl) (by simp) (by simp)
  | join =>
      rw [step] at taken
      split at taken
      · cases taken
        refine .pass rfl rfl (fun task member => .inl ?_) (by simp) (by simp)
        refine mem_inFlight.mpr ?_
        rcases mem_inFlight.mp member with submitting | io | cpu
        · cases submitting
        · exact .inr (.inl (held_of_idle io rfl fun worker member => absurd member List.not_mem_nil))
        · exact .inr (.inr (held_of_idle cpu rfl fun worker member => absurd member List.not_mem_nil))
      · cases taken
  | checkRunning =>
      rw [step] at taken
      split at taken
      · cases taken
        refine .pass rfl rfl (fun task member => .inl ?_) (by simp) (by simp)
        rcases mem_inFlight.mp member with submitting | held
        · split at submitting <;> cases submitting
        · exact mem_inFlight.mpr (.inr held)
      · cases taken
  | poll =>
      rw [step] at taken
      split at taken
      · rename_i ends
        cases taken
        obtain ⟨fired, skipped, rearmed, polls⟩ := polls_of_getExpiredTasks ends
        refine .poll polls fun task member => ?_
        rcases mem_inFlight.mp member with submitting | held
        · exact .inr submitting
        · exact .inl (mem_inFlight.mpr (.inr held))
      · cases taken
  | submit =>
      rw [step] at taken
      split at taken
      · rename_i task tasks thread
        cases taken
        refine .pass rfl (entries_withPool ..) (fun other member => .inl ?_) (by simp) (by simp)
        have submitting {other : Task Func} (member : other ∈ task :: tasks) : other ∈ reactor.inFlight :=
          mem_inFlight.mpr (.inl (thread ▸ member))
        rcases inFlight_submitTo member with held | same
        · rcases mem_inFlight.mp held with left | pools
          · exact submitting (List.mem_cons_of_mem _ left)
          · exact mem_inFlight.mpr (.inr pools)
        · exact Option.some.inj same ▸ submitting List.mem_cons_self
      · cases taken
  | take which worker =>
      rw [step] at taken
      split at taken
      · rename_i task rest running queued waiting
        cases taken
        refine .pass rfl (by rw [withWorker, entries_withPool, entries_withPool])
          (fun other member => .inl ?_) (by simp) (by simp)
        have queued_inFlight {other : Task Func} (member : other ∈ task :: rest)
            : other ∈ reactor.inFlight :=
          held_pool which (List.mem_append_left _ (queued ▸ member))
        have shorter : ∀ other ∈ ({ reactor.pool which with queue := rest } : WorkerPool Func).held,
            other ∈ (reactor.pool which).held ∨ none = some other := by
          intro other member
          rcases List.mem_append.mp member with left | working
          · exact .inl (List.mem_append_left _ (queued ▸ List.mem_cons_of_mem _ left))
          · exact .inl (List.mem_append_right _ working)
        rcases inFlight_withWorker member with held | same
        · exact (inFlight_withPool shorter held).resolve_right (by simp)
        · exact Option.some.inj same ▸ queued_inFlight List.mem_cons_self
      · cases taken
  | execute which worker =>
      rw [step] at taken
      split at taken
      · rename_i task found
        cases taken
        have held : task ∈ reactor.inFlight := inFlight_of_worker found rfl
        refine .execute which worker held (entries_withPool ..) fun other member => ?_
        rcases inFlight_withWorker member with before | same
        · exact before
        · exact Option.some.inj same ▸ held
      · cases taken
  | finish which worker =>
      rw [step] at taken
      split at taken
      · cases taken
        refine .pass rfl (entries_withPool ..) (fun other member => .inl ?_) (by simp) (by simp)
        exact (inFlight_withWorker member).resolve_right (Option.some_ne_none _).symm
      · cases taken
  | leave which worker =>
      rw [step] at taken
      split at taken
      · cases taken
        refine .pass rfl (entries_withPool ..) (fun other member => .inl ?_) (by simp) (by simp)
        exact (inFlight_withWorker member).resolve_right (Option.some_ne_none _).symm
      · cases taken

-- The callable of a periodic task

variable {func : Func} {id : Nat}
  {history : List (Stage (Reactor queue) (ReactorEvent Func) (ReactorOutput Func))}

/-- The callable that an event hands in, if it does. -/
def handsIn (reactor : Reactor queue) (event : ReactorEvent Func) : Option Func :=
  ((reactor.adds event).map TimerEntry.task <|> submitted event).bind Task.func

/-- No task with the callable is anywhere in the reactor. -/
structure Free (func : Func) (reactor : Reactor queue) : Prop where
  heap : ∀ entry ∈ reactor.entries, entry.task.func ≠ some func
  inFlight : ∀ task ∈ reactor.inFlight, task.func ≠ some func

/-- A step that registers a periodic task with a callable of its own, under the id it draws. -/
structure Registers (func : Func) (id : Nat)
    (stage : Stage (Reactor queue) (ReactorEvent Func) (ReactorOutput Func))
    : Prop where
  event : ∃ name period priority skippable,
    stage.event = .schedulePeriodic name (some func) period priority skippable
  drawn : stage.before.timer.nextId = id
  own : stage.before.Free func

def Others (func : Func) (stage : Stage (Reactor queue) (ReactorEvent Func) (ReactorOutput Func)) : Prop :=
  stage.before.handsIn stage.event ≠ some func

instance [DecidableEq Func] (func : Func)
    (stage : Stage (Reactor queue) (ReactorEvent Func) (ReactorOutput Func))
    : Decidable (Others func stage) :=
  inferInstanceAs (Decidable (_ ≠ _))

/-- Whether a worker runs the callable. -/
def Executing (func : Func) (reactor : Reactor queue) : Prop :=
  ∃ task, task.func = some func
    ∧ (.executing task ∈ reactor.io.workers ∨ .executing task ∈ reactor.cpu.workers)

/-- Once a periodic task has been cancelled with success, its callable is not started any more, and nobody
is running it.
-/
def Final (func : Func) (id : Nat)
    (history : List (Stage (Reactor queue) (ReactorEvent Func) (ReactorOutput Func)))
    (reactor : Reactor queue)
    : Prop :=
  ∀ front stage back, history = front ++ stage :: back
    → Since (Registers func id) (Others func) front
    → stage.event = .cancelPeriodic id
    → .cancelled true ∈ stage.outputs
    → (∀ later ∈ back, Others func later)
    → (∀ later ∈ back, ∀ task, .started task ∈ later.outputs → task.func ≠ some func)
      ∧ ¬reactor.Executing func

/-- No task of the periodic task with this id is in flight. -/
def Idle (id : Nat) (reactor : Reactor queue) : Prop :=
  ∀ entry ∈ reactor.entries, entry.periodicId = id
    → ∀ func, entry.task.func = some func
    → ∀ task ∈ reactor.inFlight, task.func ≠ some func

/-- The periodic id that a step draws, if it does. -/
def drawn (stage : Stage (Reactor queue) (ReactorEvent Func) (ReactorOutput Func)) : Option Nat :=
  match stage.event with
  | .schedulePeriodic .. => some stage.before.timer.nextId
  | _ => none

/-- A step that cancels a periodic task, if at all, while it is not in flight. Periodic ids are not zero and
are drawn once, as long as the counter has not gone round.
-/
structure Orderly (history : List (Stage (Reactor queue) (ReactorEvent Func) (ReactorOutput Func)))
    (reactor : Reactor queue) (event : ReactorEvent Func)
    : Prop where
  idle : ∀ id, event = .cancelPeriodic id → id ≠ 0 → reactor.Idle id
  fresh : ∀ name func period priority skippable,
    event = .schedulePeriodic name func period priority skippable
    → reactor.timer.nextId ≠ 0
      ∧ ∀ stage ∈ history, drawn stage ≠ some reactor.timer.nextId

theorem not_executing_of_free (free : reactor.Free func) : ¬reactor.Executing func := by
  rintro ⟨task, runs, io | cpu⟩
  · refine free.inFlight task (held_pool .io (List.mem_append_right _ ?_)) runs
    exact List.mem_filterMap.mpr ⟨_, io, rfl⟩
  · refine free.inFlight task (held_pool .cpu (List.mem_append_right _ ?_)) runs
    exact List.mem_filterMap.mpr ⟨_, cpu, rfl⟩

/-- A callable that is nowhere comes back only if it is handed in. -/
theorem Free.step (free : reactor.Free func) (takes : Takes reactor after event outputs)
    (others : reactor.handsIn event ≠ some func)
    : after.Free func ∧ ∀ task, .started task ∈ outputs → task.func ≠ some func := by
  obtain ⟨heap, flying⟩ := free
  cases takes with
  | pass _ entries inFlight silent _ =>
      refine ⟨⟨entries ▸ heap, fun task member runs => ?_⟩, fun task started => absurd started (silent task)⟩
      rcases inFlight task member with before | submits
      · exact flying task before runs
      · cases event with
        | submitIo =>
            obtain rfl := Option.some.inj submits
            exact others runs
        | submitCpu =>
            obtain rfl := Option.some.inj submits
            exact others runs
        | _ => cases submits
  | @schedule _ _ entry adds entries inFlight silent _ =>
      refine ⟨⟨fun other member runs => ?_, inFlight ▸ flying⟩,
        fun task started => absurd started (silent task)⟩
      rcases List.mem_cons.mp (entries.mem_iff.mp member) with rfl | before
      · refine others ?_
        rw [handsIn, adds]
        exact runs
      · exact heap other before runs
  | poll polls inFlight =>
      refine ⟨⟨fun entry member runs => ?_, fun task member runs => ?_⟩, nofun⟩
      · obtain ⟨old, held, rfl | ⟨id, rfl⟩⟩ := polls.origin member
        · exact heap entry held runs
        · exact heap old held runs
      · rcases inFlight task member with before | out
        · exact flying task before runs
        · rw [polls.tasks] at out
          obtain ⟨entry, fires, rfl⟩ := List.mem_map.mp out
          exact heap entry (polls.mem_fired fires) runs
  | cancel id cancels inFlight =>
      refine ⟨⟨fun entry member => ?_, inFlight ▸ flying⟩, by simp⟩
      exact heap entry (cancels.heap.mem_iff.mpr (List.mem_append_right _ member))
  | execute which worker held entries inFlight =>
      refine ⟨⟨entries ▸ heap, fun other member => flying other (inFlight other member)⟩, ?_⟩
      intro other started
      obtain rfl := ReactorOutput.started.inj (List.mem_singleton.mp started)
      exact flying _ held

section

variable [DecidableEq Func]

/-- At most one entry has the callable, and it is the one with the periodic id. -/
structure Bound (func : Func) (id : Nat) (reactor : Reactor queue) : Prop where
  nonzero : id ≠ 0
  few : (reactor.timer.entriesOf func).length ≤ 1
  same : ∀ entry ∈ reactor.entries, entry.task.func = some func ↔ entry.periodicId = id

/-- The entries of a callable when others have left the heap and come into it. -/
theorem length_entriesOf_le (gone new : List (TimerEntry Func))
    (heap : (new ++ reactor.entries).Perm (gone ++ after.entries))
    (new_others : ∀ entry ∈ new, entry.task.func ≠ some func)
    : (after.timer.entriesOf func).length ≤ (reactor.timer.entriesOf func).length := by
  have lengths := (heap.filter (TimerEntry.runs func)).length_eq
  rw [List.filter_append, List.filter_append, List.length_append, List.length_append,
    List.filter_eq_nil_iff.mpr fun entry member => by simp [TimerEntry.runs, new_others entry member]] at lengths
  simp only [List.length_nil, Nat.zero_add] at lengths
  exact lengths ▸ Nat.le_add_left ..

/-- The periodic task keeps its id, unless its callable is handed in again or its id drawn again. -/
theorem Bound.step (bound : reactor.Bound func id) (takes : Takes reactor after event outputs)
    (others : reactor.handsIn event ≠ some func)
    (drawn : ∀ name func period priority skippable,
      event = .schedulePeriodic name func period priority skippable → reactor.timer.nextId ≠ id)
    : after.Bound func id := by
  obtain ⟨nonzero, few, same⟩ := bound
  cases takes with
  | pass _ entries _ _ _ =>
      exact ⟨nonzero, (congrArg (fun entries => (entries.filter (TimerEntry.runs func)).length) entries).trans_le few,
        entries ▸ same⟩
  | @schedule _ _ entry adds entries _ _ _ =>
      have other : entry.task.func ≠ some func := fun runs => others (by rw [handsIn, adds]; exact runs)
      refine ⟨nonzero, (length_entriesOf_le [] [entry] entries.symm ?_).trans few, ?_⟩
      · intro new member
        exact List.mem_singleton.mp member ▸ other
      · intro new member
        rcases List.mem_cons.mp (entries.mem_iff.mp member) with rfl | before
        · refine iff_of_false other ?_
          cases event with
          | schedulePeriodic name func' period priority skippable =>
              obtain rfl := Option.some.inj adds
              exact drawn _ _ _ _ _ rfl
          | scheduleTimerAt =>
              obtain rfl := Option.some.inj adds
              exact nonzero.symm
          | scheduleTimerIn =>
              obtain rfl := Option.some.inj adds
              exact nonzero.symm
          | _ => cases adds
        · exact same new before
  | poll polls _ =>
      refine ⟨nonzero, (polls.length_entriesOf_le func).trans few, fun entry member => ?_⟩
      obtain ⟨old, held, rfl | ⟨id, rfl⟩⟩ := polls.origin member
      · exact same entry held
      · exact same old held
  | cancel other cancels _ =>
      refine ⟨nonzero, (length_entriesOf_le _ [] cancels.heap nofun).trans few, fun entry member => ?_⟩
      exact same entry (cancels.heap.mem_iff.mpr (List.mem_append_right _ member))
  | execute which worker _ entries _ =>
      exact ⟨nonzero, (congrArg (fun entries => (entries.filter (TimerEntry.runs func)).length) entries).trans_le few,
        entries ▸ same⟩

/-- After a successful cancellation of a task that is not in flight, its callable is nowhere. -/
theorem Bound.cancel (bound : reactor.Bound func id) (idle : reactor.Idle id)
    (takes : Takes reactor after (.cancelPeriodic id) outputs) (found : .cancelled true ∈ outputs)
    : after.Free func := by
  cases takes with
  | pass _ _ _ _ uncancelled => exact absurd found uncancelled
  | schedule adds => cases adds
  | @cancel _ _ removed cancels inFlight =>
      obtain ⟨entry, rfl⟩ : ∃ entry, removed = some entry := by
        refine Option.isSome_iff_exists.mp (cancels.found.symm.trans ?_)
        simpa using (List.mem_singleton.mp found).symm
      have held : entry ∈ reactor.entries := cancels.heap.mem_iff.mpr (List.mem_append_left _ List.mem_cons_self)
      have own : entry.periodicId = id := of_decide_eq_true (cancels.chosen entry rfl)
      have func_eq := (bound.same entry held).mpr own
      refine ⟨fun other member runs => ?_, inFlight ▸ idle entry held own func func_eq⟩
      -- the heap had one entry with the callable, and that is the one cancelled
      have lengths := (cancels.heap.filter (TimerEntry.runs func)).length_eq
      have chosen : entry.runs func := decide_eq_true func_eq
      rw [List.filter_append, List.length_append, Option.toList_some, List.filter_cons_of_pos chosen,
        List.filter_nil, List.length_singleton] at lengths
      have present : 0 < (after.timer.entriesOf func).length :=
        List.length_pos_of_mem (List.mem_filter.mpr ⟨member, decide_eq_true runs⟩)
      have few := bound.few
      rw [entriesOf] at few present
      omega

/-- The periodic ids in the heap are zero or have been drawn. -/
def Known (history : List (Stage (Reactor queue) (ReactorEvent Func) (ReactorOutput Func)))
    (reactor : Reactor queue)
    : Prop :=
  ∀ entry ∈ reactor.entries, entry.periodicId = 0 ∨ ∃ stage ∈ history, drawn stage = some entry.periodicId

omit [DecidableEq Func] in
theorem Known.step (known : reactor.Known history) (takes : Takes reactor after event outputs)
    : after.Known (history ++ [{ before := reactor, event, outputs }]) := by
  have earlier {entry : TimerEntry Func} (held : entry ∈ reactor.entries)
      : entry.periodicId = 0
        ∨ ∃ stage ∈ history ++ [{ before := reactor, event, outputs }],
          drawn stage = some entry.periodicId := by
    refine (known entry held).imp_right fun ⟨stage, member, draws⟩ => ?_
    exact ⟨stage, List.mem_append_left _ member, draws⟩
  intro entry member
  cases takes with
  | pass _ entries _ _ _ => exact earlier (entries ▸ member)
  | @schedule _ _ new adds entries _ _ _ =>
      rcases List.mem_cons.mp (entries.mem_iff.mp member) with rfl | before
      · cases event with
        | schedulePeriodic name func period priority skippable =>
            obtain rfl := Option.some.inj adds
            exact .inr ⟨_, List.mem_append_right _ List.mem_cons_self, rfl⟩
        | scheduleTimerAt =>
            obtain rfl := Option.some.inj adds
            exact .inl rfl
        | scheduleTimerIn =>
            obtain rfl := Option.some.inj adds
            exact .inl rfl
        | _ => cases adds
      · exact earlier before
  | poll polls _ =>
      obtain ⟨old, held, same⟩ := polls.origin member
      have sameId : entry.periodicId = old.periodicId := by
        rcases same with rfl | ⟨id, rfl⟩ <;> rfl
      exact sameId ▸ earlier held
  | cancel id cancels _ =>
      exact earlier (cancels.heap.mem_iff.mpr (List.mem_append_right _ member))
  | execute which worker _ entries _ => exact earlier (entries ▸ member)

/-- A periodic task is bound to the id under which it is registered. -/
theorem Bound.start (known : reactor.Known history) (orderly : Orderly history reactor event)
    (registers : Registers func id { before := reactor, event, outputs })
    (takes : Takes reactor after event outputs)
    : after.Bound func id := by
  obtain ⟨⟨name, period, priority, skippable, rfl⟩, rfl, own⟩ := registers
  obtain ⟨nonzero, fresh⟩ := orderly.fresh _ _ _ _ _ rfl
  cases takes with
  | pass adds => cases adds
  | @schedule _ _ entry adds entries _ _ _ =>
      obtain rfl := Option.some.inj adds
      refine ⟨nonzero, ?_, fun other member => ?_⟩
      · have lengths := (entries.filter (TimerEntry.runs func)).length_eq
        have none_before : reactor.entries.filter (TimerEntry.runs func) = [] :=
          List.filter_eq_nil_iff.mpr fun other member => by simpa [TimerEntry.runs] using own.heap other member
        rw [List.filter_cons, none_before] at lengths
        refine lengths.trans_le ?_
        split <;> simp
      · rcases List.mem_cons.mp (entries.mem_iff.mp member) with rfl | before
        · exact iff_of_true rfl rfl
        · refine iff_of_false (own.heap other before) fun same => ?_
          rcases known other before with zero | ⟨stage, earlier, draws⟩
          · exact nonzero (same.symm.trans zero)
          · exact fresh stage earlier (draws.trans (congrArg some same))

/-- What every orderly run keeps of a registered periodic task. -/
theorem bound_of_run {start : Reactor queue} (empty : start.entries = [])
    (run : Run step Orderly start history reactor)
    : reactor.Known history
      ∧ (Since (Registers func id) (Others func) history → reactor.Bound func id) := by
  refine run.invariant (fun history reactor => reactor.Known history
    ∧ (Since (Registers func id) (Others func) history → reactor.Bound func id)) ?_ ?_
  · refine ⟨?_, fun since => absurd since not_since_nil⟩
    intro entry member
    cases empty ▸ member
  · intro history reactor event after outputs run ⟨known, bound⟩ orderly taken
    have takes := takes_of_step taken
    refine ⟨known.step takes, fun since => ?_⟩
    rcases since_append.mp since with registers | ⟨earlier, others⟩
    · exact Bound.start known orderly registers takes
    · refine (bound earlier).step takes others ?_
      -- the id has been drawn when the task was registered
      rintro name func' period priority skippable rfl same
      obtain ⟨front, stage, back, rfl, ⟨⟨_, _, _, _, event⟩, drawn_id, -⟩, -⟩ := earlier
      refine (orderly.fresh _ _ _ _ _ rfl).2 stage (List.mem_append_right _ List.mem_cons_self) ?_
      rw [drawn, event, same, drawn_id]

/-- After a task that was not in flight was cancelled, its callable is nowhere and is not started. -/
theorem free_of_cancelled {start : Reactor queue} (empty : start.entries = [])
    (run : Run step Orderly start history reactor)
    : ∀ front stage back, history = front ++ stage :: back
      → Since (Registers func id) (Others func) front
      → stage.event = .cancelPeriodic id
      → .cancelled true ∈ stage.outputs
      → (∀ later ∈ back, Others func later)
      → reactor.Free func
        ∧ ∀ later ∈ back, ∀ task, .started task ∈ later.outputs → task.func ≠ some func := by
  refine run.invariant (fun history reactor => ∀ front stage back, history = front ++ stage :: back
    → Since (Registers func id) (Others func) front
    → stage.event = .cancelPeriodic id
    → .cancelled true ∈ stage.outputs
    → (∀ later ∈ back, Others func later)
    → reactor.Free func
      ∧ ∀ later ∈ back, ∀ task, .started task ∈ later.outputs → task.func ≠ some func) ?_ ?_
  · intro front stage back split
    cases (List.append_eq_nil_iff.mp split.symm).2
  · intro history reactor event after outputs run earlier orderly taken front stage back split since cancels
      found others
    have takes := takes_of_step taken
    rcases List.eq_nil_or_concat back with rfl | ⟨rest, last, rfl⟩
    · obtain ⟨rfl, same⟩ := List.append_inj' split rfl
      obtain rfl := List.head_eq_of_cons_eq same
      obtain rfl : event = .cancelPeriodic id := cancels
      have bound := (bound_of_run empty run).2 since
      exact ⟨bound.cancel (orderly.idle id rfl bound.nonzero) takes found,
        fun later member => absurd member List.not_mem_nil⟩
    · rw [List.concat_eq_append, ← List.cons_append, ← List.append_assoc] at split
      obtain ⟨before, same⟩ := List.append_inj' split rfl
      obtain rfl := List.head_eq_of_cons_eq same
      rw [List.concat_eq_append] at others ⊢
      obtain ⟨free, silent⟩ := earlier front stage rest before since cancels found
        fun later member => others later (List.mem_append_left _ member)
      obtain ⟨free', silent'⟩ := free.step takes
        (others _ (List.mem_append_right _ (List.mem_singleton_self _)))
      refine ⟨free', fun later member => ?_⟩
      rcases List.mem_append.mp member with before | last
      · exact silent later before
      · exact List.mem_singleton.mp last ▸ silent'

/-- In every run in which periodic tasks are cancelled only while they are not in flight, a cancellation is
final.
-/
theorem final_of_orderly {start : Reactor queue} (empty : start.entries = [])
    (run : Run step Orderly start history reactor) (func : Func) (id : Nat)
    : Throughout (Final func id) history reactor := by
  refine run.throughout ?_
  intro history reactor run front stage back split since cancels found others
  obtain ⟨free, silent⟩ := free_of_cancelled empty run front stage back split since cancels found others
  exact ⟨silent, not_executing_of_free free⟩

end

/-- Whether a step is orderly for having nothing in flight when a task is cancelled. -/
def orderlyHere (history : List (Stage (Reactor queue) (ReactorEvent Func) (ReactorOutput Func)))
    (reactor : Reactor queue)
    : ReactorEvent Func → Bool
  | .cancelPeriodic _ => reactor.inFlight.isEmpty
  | .schedulePeriodic .. =>
      reactor.timer.nextId ≠ 0 && history.all fun stage => drawn stage ≠ some reactor.timer.nextId
  | _ => true

theorem orderly_of_here (here : orderlyHere history reactor event = true)
    : Orderly history reactor event := by
  constructor
  · rintro id rfl - entry - - func - task member
    rw [List.isEmpty_iff.mp here] at member
    cases member
  · rintro name func period priority skippable rfl
    simpa [orderlyHere] using here

/-- A periodic task that fires, is run and is cancelled afterwards. -/
def cancelledIdle : List (ReactorEvent Nat) :=
  [
    .start,
    .schedulePeriodic [] (some 1) 50 .normal false,
    .advance 50000000,
    .checkRunning,
    .poll,
    .submit,
    .take .io 0,
    .execute .io 0,
    .finish .io 0,
    .cancelPeriodic 1,
    .advance 200000000,
    .checkRunning,
    .poll
  ]

theorem final_of_orderly_cancelledIdle
    : ∃ history reactor,
      Run step Orderly ({} : Reactor (PriorityQueue.sorted (TimerEntry Nat) TimerEntry.deadline)) history
        reactor
      ∧ .cancelled true ∈ emitted history
      ∧ Throughout (Final 1 1) history reactor := by
  have shown : shows step ({} : Reactor (PriorityQueue.sorted (TimerEntry Nat) TimerEntry.deadline))
      cancelledIdle
      (fun history => audit orderlyHere [] history && .cancelled true ∈ emitted history) = true := by
    decide +kernel
  obtain ⟨history, reactor, run, both⟩ := Run.of_shows shown
  obtain ⟨orderly, cancelled⟩ := Bool.and_eq_true_iff.mp both
  have allowed := run.of_audit (fun _ _ _ => orderly_of_here) orderly
  exact ⟨history, reactor, allowed, of_decide_eq_true cancelled, final_of_orderly rfl allowed 1 1⟩

/-- The run of `cancelled_in_flight`: a task is registered, polled, cancelled, and started nevertheless. -/
def startsCancelled
    (history : List (Stage (Reactor (PriorityQueue.sorted (TimerEntry Nat) TimerEntry.deadline))
      (ReactorEvent Nat) (ReactorOutput Nat)))
    : Bool :=
  match history with
  | [registering, starting, passing, checking, polling, cancelling, submitting, taking, executing] =>
      registering.event = .schedulePeriodic [] (some 1) 50 .normal false
      && registering.before.timer.nextId = 1
      && registering.before.entries = []
      && registering.before.inFlight = []
      && [starting, passing, checking, polling].all (fun stage => Others 1 stage)
      && cancelling.event = .cancelPeriodic 1
      && .cancelled true ∈ cancelling.outputs
      && [submitting, taking, executing].all (fun stage => Others 1 stage)
      && executing.outputs.any fun
        | .started task => task.func = some 1
        | _ => false
  | _ => false

/-- The timer thread submits a task that was cancelled while it was in its vector, and a worker runs it. -/
theorem cancelled_in_flight
    : ¬ ∀ history reactor,
      Run step (fun _ _ _ => True)
        ({} : Reactor (PriorityQueue.sorted (TimerEntry Nat) TimerEntry.deadline)) history reactor
      → ∀ func id, Final func id history reactor := by
  intro always
  have shown : shows step ({} : Reactor (PriorityQueue.sorted (TimerEntry Nat) TimerEntry.deadline))
      [
        .schedulePeriodic [] (some 1) 50 .normal false,
        .start,
        .advance 50000000,
        .checkRunning,
        .poll,
        .cancelPeriodic 1,
        .submit,
        .take .io 0,
        .execute .io 0
      ]
      startsCancelled = true := by
    decide +kernel
  obtain ⟨history, reactor, run, checked⟩ := Run.of_shows shown
  unfold startsCancelled at checked
  split at checked
  · rename_i registering starting passing checking polling cancelling submitting taking executing
    simp only [Bool.and_eq_true, decide_eq_true_eq, List.all_eq_true] at checked
    obtain ⟨⟨⟨⟨⟨⟨⟨⟨registers, drawn⟩, heap⟩, flying⟩, others⟩, cancels⟩, found⟩, others'⟩, starts⟩ := checked
    obtain ⟨output, member, runs⟩ := List.any_eq_true.mp starts
    have own : registering.before.Free 1 := ⟨heap ▸ nofun, flying ▸ nofun⟩
    have since : Since (Registers 1 1) (Others 1) [registering, starting, passing, checking, polling] :=
      ⟨[], registering, [starting, passing, checking, polling], rfl, ⟨⟨_, _, _, _, registers⟩, drawn, own⟩,
        others⟩
    have final := always _ reactor run 1 1 [registering, starting, passing, checking, polling]
      cancelling [submitting, taking, executing] rfl since cancels found others'
    split at runs
    · rename_i task
      exact final.1 executing (by simp) task member (of_decide_eq_true runs)
    · cases runs
  · cases checked

end Reactor

end Creek.Framework
