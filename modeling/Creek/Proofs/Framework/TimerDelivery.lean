import Creek.Proofs.Framework.TimerOperations

/-! What becomes of one-shot tasks. Every task that was scheduled is in one place of a ledger: handed out by
a poll, cancelled, dropped by a poll for being late, or still in the heap. A deadline that a time point
cannot hold goes round, and its task is handed out at once.
-/

namespace Creek.Framework

open Library

namespace PriorityTimer

variable {Func : Type} {queue : TimerQueue Func}

/-- The steps of a timer that holds one-shot tasks. -/
abbrev TimerStage {Func : Type} (queue : TimerQueue Func) :=
  Stage (PriorityTimer queue) (TimerEvent Func) (TimerOutput Func)

/-- A timer with an empty heap. -/
def made (skipThreshold now : Int) (nextId : Nat) : PriorityTimer queue :=
  { heap := queue.empty, skipThreshold, now, nextId }

def OneShot : TimerEvent Func → Prop
  | .schedulePeriodicEntry .. => False
  | .cancelPeriodic _ => False
  | _ => True

instance (event : TimerEvent Func) : Decidable (OneShot event) :=
  match event with
  | .schedulePeriodicEntry .. | .cancelPeriodic _ => isFalse id
  | .advance _ | .drawId | .scheduleAt .. | .scheduleIn .. | .getExpiredTasks | .cancel _ => isTrue trivial

/-- The entry that a call asks for, with the deadline as it is meant. -/
def asked (timer : PriorityTimer queue) : TimerEvent Func → Option (TimerEntry Func)
  | .scheduleAt task deadline => some { task, deadline }
  | .scheduleIn task delay => some { task, deadline := timer.now + delay * nanoseconds }
  | _ => none

/-- A call that asks for no deadline beyond what a time point can hold. -/
def Timely (timer : PriorityTimer queue) : TimerEvent Func → Prop
  | .scheduleIn _ delay => Fits64 (timer.now + delay * nanoseconds)
  | _ => True

instance (timer : PriorityTimer queue) (event : TimerEvent Func) : Decidable (timer.Timely event) := by
  cases event <;> unfold Timely <;> infer_instance

/-- The entries that a history has asked for. -/
def scheduled (history : List (TimerStage queue)) : List (TimerEntry Func) :=
  history.filterMap fun stage => stage.before.asked stage.event

/-- What a step has returned as expired, with the reading of the clock. -/
def expiredBy (stage : TimerStage queue) : List (Int × List (Task Func)) :=
  stage.outputs.filterMap fun
    | .expired tasks => some (stage.before.now, tasks)
    | _ => none

def loggedBy (stage : TimerStage queue) : List SlowSkip :=
  stage.outputs.filterMap fun
    | .slowTask skip => some skip
    | _ => none

/-- The id that a step has cancelled with success. -/
def cancelledBy (stage : TimerStage queue) : List Nat :=
  match stage.event, stage.outputs with
  | .cancel taskId, [.cancelled true] => [taskId]
  | _, _ => []

/-- What has become of the entries that are no longer in the heap: those handed out, by polls with the reading of
the clock, those cancelled, and those dropped, with the reading of the clock.
-/
structure Ledger (Func : Type) where
  returned : List (Int × List (TimerEntry Func)) := []
  cancelled : List (TimerEntry Func) := []
  dropped : List (Int × TimerEntry Func) := []

def Ledger.gone (ledger : Ledger Func) : List (TimerEntry Func) :=
  ledger.returned.flatMap Prod.snd ++ (ledger.cancelled ++ ledger.dropped.map Prod.snd)

/-- A ledger that agrees with what a history has returned and logged, and whose entries are where they may
be.
-/
structure Ledger.Accounts (threshold : Int) (ledger : Ledger Func) (history : List (TimerStage queue))
    (timer : PriorityTimer queue)
    : Prop where
  all : (scheduled history).Perm (ledger.gone ++ queue.elements timer.heap)
  returned : history.flatMap expiredBy =
    ledger.returned.map fun poll => (poll.1, poll.2.map TimerEntry.task)
  cancelled : List.Forall₂ (fun taskId entry => entry.task.id = taskId) (history.flatMap cancelledBy)
    ledger.cancelled
  dropped : history.flatMap loggedBy = ledger.dropped.map fun drop => drop.2.slowSkip drop.1
  due : ∀ poll ∈ ledger.returned, ∀ entry ∈ poll.2, entry.deadline ≤ poll.1
  ordered : ∀ poll ∈ ledger.returned,
    poll.2.Pairwise fun earlier later => earlier.deadline ≤ later.deadline
  late : ∀ drop ∈ ledger.dropped, drop.2.task.skippable
    ∧ threshold < (drop.1 - drop.2.deadline).tdiv nanoseconds

/-- A ledger with all entries that were due at some poll, as often as they were scheduled before it. -/
def Ledger.Prompt (ledger : Ledger Func) (history : List (TimerStage queue)) : Prop :=
  ∀ front stage back, history = front ++ stage :: back → stage.event = .getExpiredTasks
    → ((scheduled front).filter (TimerEntry.due stage.before.now)).Subperm ledger.gone

/-- There is a ledger in which every entry asked for is in one place, and every call ends. -/
def Delivers (threshold : Int) (history : List (TimerStage queue)) (timer : PriorityTimer queue) : Prop :=
  (∃ ledger : Ledger Func, ledger.Accounts threshold history timer ∧ ledger.Prompt history)
  ∧ ∀ event, ∃ after outputs, timer.step event = .ok (after, outputs)

variable {threshold now : Int} {nextId : Nat} {timer after : PriorityTimer queue}
  {event : TimerEvent Func} {outputs : List (TimerOutput Func)} {history : List (TimerStage queue)}

@[simp] theorem scheduled_append (front back : List (TimerStage queue))
    : scheduled (front ++ back) = scheduled front ++ scheduled back :=
  List.filterMap_append

/-- A timely call of a one-shot task puts into the heap what it asks for. -/
theorem added_eq_asked (once : OneShot event) (timely : timer.Timely event)
    : timer.added event = timer.asked event := by
  cases event with
  | scheduleIn task delay =>
      rw [added, asked, timeAfter_eq timely]
      rfl
  | schedulePeriodicEntry => cases once
  | _ => rfl

theorem late_of_skips {entry : TimerEntry Func} (drops : entry.drops now threshold)
    : entry.task.skippable ∧ threshold < (now - entry.deadline).tdiv nanoseconds := by
  obtain ⟨due, skips⟩ := Bool.and_eq_true_iff.mp drops
  obtain ⟨skippable, late⟩ := Bool.and_eq_true_iff.mp skips
  have nonneg : 0 ≤ now - entry.deadline := Int.sub_nonneg_of_le (of_decide_eq_true due)
  refine ⟨skippable, (of_decide_eq_true late).trans_le ?_⟩
  exact Int.tdiv_le_tdiv (by decide) (int64_le nonneg)

-- The ledger after one more step

/-- What every run keeps: the threshold stays, and no entry is armed again. -/
structure Plain (threshold : Int) (timer : PriorityTimer queue) : Prop where
  threshold : timer.skipThreshold = threshold
  oneShot : ∀ entry ∈ queue.elements timer.heap, entry.repeats = false

theorem Plain.rearmed_nil (plain : timer.Plain threshold) {tasks : List (Task Func)}
    {slowSkips : List SlowSkip} {fired skipped rearmed : List (TimerEntry Func)}
    (polls : Polls timer after tasks slowSkips fired skipped rearmed)
    : rearmed = [] := by
  have none_repeats : fired.filter TimerEntry.repeats = [] := by
    refine List.filter_eq_nil_iff.mpr fun entry member => ?_
    exact Bool.eq_false_iff.mp (plain.oneShot entry (polls.mem_fired member))
  have rearms := polls.rearms
  rw [none_repeats] at rearms
  exact List.forall₂_nil_left_iff.mp rearms

theorem Plain.step (plain : timer.Plain threshold) (once : OneShot event)
    (takes : Takes timer after event outputs)
    : after.Plain threshold := by
  obtain ⟨same_threshold, oneShot⟩ := plain
  cases takes with
  | advance elapsed same =>
      subst same
      exact ⟨same_threshold, oneShot⟩
  | drawId same =>
      subst same
      exact ⟨same_threshold, oneShot⟩
  | @schedule _ entry adds same =>
      subst same
      refine ⟨same_threshold, fun other member => ?_⟩
      rcases List.mem_cons.mp ((queue.elements_push _ _).mem_iff.mp member) with rfl | held
      · cases event with
        | schedulePeriodicEntry => cases once
        | scheduleAt task deadline =>
            cases adds
            rfl
        | scheduleIn task delay =>
            cases adds
            rfl
        | _ => cases adds
      · exact oneShot other held
  | poll polls =>
      refine ⟨polls.threshold.trans same_threshold, fun entry member => ?_⟩
      have kept := polls.heap.mem_iff.mp member
      rw [Plain.rearmed_nil ⟨same_threshold, oneShot⟩ polls, List.nil_append] at kept
      exact oneShot entry (List.mem_of_mem_filter kept)
  | cancel taskId cancels =>
      refine ⟨cancels.threshold.trans same_threshold, fun entry member => ?_⟩
      exact oneShot entry (cancels.heap.mem_iff.mpr (List.mem_append_right _ member))
  | cancelPeriodic periodicId cancels => cases once

/-- What one step writes into the ledger. -/
structure Ledger.Writes (threshold : Int) (more : Ledger Func) (stage : TimerStage queue)
    (after : PriorityTimer queue)
    : Prop where
  all : (scheduled [stage] ++ queue.elements stage.before.heap).Perm
    (more.gone ++ queue.elements after.heap)
  returned : expiredBy stage = more.returned.map fun poll => (poll.1, poll.2.map TimerEntry.task)
  cancelled : List.Forall₂ (fun taskId entry => entry.task.id = taskId) (cancelledBy stage) more.cancelled
  dropped : loggedBy stage = more.dropped.map fun drop => drop.2.slowSkip drop.1
  due : ∀ poll ∈ more.returned, ∀ entry ∈ poll.2, entry.deadline ≤ poll.1
  ordered : ∀ poll ∈ more.returned,
    poll.2.Pairwise fun earlier later => earlier.deadline ≤ later.deadline
  late : ∀ drop ∈ more.dropped, drop.2.task.skippable
    ∧ threshold < (drop.1 - drop.2.deadline).tdiv nanoseconds

/-- A step that hands out nothing and puts what is scheduled into the heap writes nothing. -/
theorem Ledger.writes_nothing
    (all : (scheduled [({ before := timer, event, outputs := [] } : TimerStage queue)]
      ++ queue.elements timer.heap).Perm (queue.elements after.heap))
    : ({} : Ledger Func).Writes threshold { before := timer, event, outputs := [] } after := by
  refine ⟨all, rfl, ?_, rfl, nofun, nofun, nofun⟩
  have uncancelled : cancelledBy ({ before := timer, event, outputs := [] } : TimerStage queue) = [] := by
    simp [cancelledBy]
  exact uncancelled ▸ .nil

/-- Every timely step of a timer with one-shot tasks can be written into the ledger. -/
theorem Plain.writes (plain : timer.Plain threshold) (once : OneShot event) (timely : timer.Timely event)
    (takes : Takes timer after event outputs)
    : ∃ more : Ledger Func, more.Writes threshold { before := timer, event, outputs } after := by
  cases takes with
  | advance elapsed same =>
      subst same
      exact ⟨{}, Ledger.writes_nothing .rfl⟩
  | drawId same =>
      subst same
      exact ⟨{}, Ledger.writes_nothing .rfl⟩
  | @schedule _ entry adds same =>
      subst same
      refine ⟨{}, Ledger.writes_nothing ?_⟩
      have one : scheduled [({ before := timer, event, outputs := [] } : TimerStage queue)] = [entry] := by
        simp [scheduled, ← added_eq_asked once timely, adds]
      exact one ▸ (queue.elements_push timer.heap entry).symm
  | @poll tasks slowSkips fired skipped rearmed polls =>
      obtain rfl := plain.rearmed_nil polls
      have before := polls.before
      have heap := polls.heap
      rw [List.nil_append] at heap
      refine ⟨
        { returned := [(timer.now, fired)], dropped := skipped.map fun entry => (timer.now, entry) },
        ?_, ?_, .nil, ?_, ?_, ?_, ?_
      ⟩
      · simpa [scheduled, asked, Ledger.gone] using before.trans (heap.symm.append_left _)
      · simp [expiredBy, polls.tasks]
      · simp [loggedBy, polls.slowSkips]
      · intro poll member entry fires
        obtain rfl := List.mem_singleton.mp member
        exact TimerEntry.due_of_fires (List.mem_filter.mp (polls.fires.mem_iff.mp fires)).2
      · intro poll member
        obtain rfl := List.mem_singleton.mp member
        exact polls.ordered
      · intro drop member
        obtain ⟨entry, drops, rfl⟩ := List.mem_map.mp member
        exact plain.threshold ▸ late_of_skips (List.mem_filter.mp (polls.drops.mem_iff.mp drops)).2
  | @cancel taskId found removed cancels =>
      refine ⟨{ cancelled := removed.toList }, ?_, rfl, ?_, rfl, nofun, nofun, nofun⟩
      · simpa [scheduled, asked, Ledger.gone] using cancels.heap
      · rcases removed with _ | entry
        · have missing := cancels.found
          subst missing
          exact .nil
        · have present := cancels.found
          subst present
          exact .cons (of_decide_eq_true (cancels.chosen entry rfl)) .nil
  | cancelPeriodic periodicId cancels => cases once

/-- The ledger with what more is written into it. -/
def Ledger.append (ledger more : Ledger Func) : Ledger Func where
  returned := ledger.returned ++ more.returned
  cancelled := ledger.cancelled ++ more.cancelled
  dropped := ledger.dropped ++ more.dropped

theorem Ledger.gone_append (ledger more : Ledger Func)
    : (ledger.append more).gone.Perm (ledger.gone ++ more.gone) := by
  classical
  refine List.perm_iff_count.mpr fun entry => ?_
  simp only [gone, append, List.flatMap_append, List.map_append, List.count_append]
  omega

theorem Ledger.Accounts.append {ledger more : Ledger Func} {stage : TimerStage queue}
    (accounts : ledger.Accounts threshold history stage.before)
    (writes : more.Writes threshold stage after)
    : (ledger.append more).Accounts threshold (history ++ [stage]) after where
  all := by
    rw [scheduled_append]
    refine (accounts.all.append_right _).trans ?_
    refine .trans ?_ ((Ledger.gone_append ledger more).symm.append_right _)
    rw [List.append_assoc, List.append_assoc]
    exact .append_left _ (List.perm_append_comm.trans writes.all)
  returned := by
    simp only [List.flatMap_append, List.flatMap_singleton, accounts.returned, writes.returned,
      Ledger.append, List.map_append]
  cancelled := by
    rw [List.flatMap_append, List.flatMap_singleton]
    exact List.rel_append accounts.cancelled writes.cancelled
  dropped := by
    simp only [List.flatMap_append, List.flatMap_singleton, accounts.dropped, writes.dropped,
      Ledger.append, List.map_append]
  due poll member := (List.mem_append.mp member).elim (accounts.due poll) (writes.due poll)
  ordered poll member := (List.mem_append.mp member).elim (accounts.ordered poll) (writes.ordered poll)
  late drop member := (List.mem_append.mp member).elim (accounts.late drop) (writes.late drop)

-- After a poll

/-- What was due at a poll is in the heap only if it was scheduled afterwards. -/
def Swept (history : List (TimerStage queue)) (timer : PriorityTimer queue) : Prop :=
  ∀ front stage back, history = front ++ stage :: back → stage.event = .getExpiredTasks
    → ((queue.elements timer.heap).filter (TimerEntry.due stage.before.now)).Subperm (scheduled back)

theorem Swept.step (swept : timer.Swept history) (plain : timer.Plain threshold) (once : OneShot event)
    (timely : timer.Timely event) (takes : Takes timer after event outputs)
    : after.Swept (history ++ [{ before := timer, event, outputs }]) := by
  intro front stage back split polled
  obtain ⟨more, writes⟩ := plain.writes once timely takes
  have grows : (queue.elements after.heap).Subperm
      (scheduled [({ before := timer, event, outputs } : TimerStage queue)]
        ++ queue.elements timer.heap) :=
    (List.sublist_append_right _ _).subperm.trans writes.all.symm.subperm
  rcases List.eq_nil_or_concat back with rfl | ⟨rest, last, rfl⟩
  · obtain ⟨rfl, same⟩ := List.append_inj' split rfl
    obtain rfl := List.head_eq_of_cons_eq same
    obtain rfl : event = .getExpiredTasks := polled
    cases takes with
    | poll polls =>
        have heap := polls.heap.filter (TimerEntry.due timer.now)
        rw [plain.rearmed_nil polls, List.nil_append, List.filter_filter] at heap
        simp only [Bool.and_not_self, List.filter_false] at heap
        exact heap.subperm
    | schedule adds => cases adds
  · rw [List.concat_eq_append, ← List.cons_append, ← List.append_assoc] at split
    obtain ⟨earlier, same⟩ := List.append_inj' split rfl
    obtain rfl := List.head_eq_of_cons_eq same
    have held := swept front stage rest earlier polled
    rw [List.concat_eq_append, scheduled_append]
    refine (grows.filter _).trans ?_
    rw [List.filter_append]
    refine .trans ?_ List.perm_append_comm.subperm
    exact (List.filter_sublist.subperm.append held)

/-- What was due at a poll and was scheduled before it has left the heap. -/
theorem Ledger.Accounts.prompt {ledger : Ledger Func} (accounts : ledger.Accounts threshold history timer)
    (swept : timer.Swept history)
    : ledger.Prompt history := by
  classical
  intro front stage back split polled
  have held := swept front stage back split polled
  have all := accounts.all
  have unscheduled : scheduled [stage] = [] := by simp [scheduled, polled, asked]
  rw [split, ← List.singleton_append, scheduled_append, scheduled_append, unscheduled] at all
  refine List.subperm_ext_iff.mpr fun entry member => ?_
  have due := (List.mem_filter.mp member).2
  have counts := all.count_eq entry
  have left := held.count_le entry
  rw [List.count_filter due] at left
  rw [List.count_filter due]
  simp only [List.nil_append, List.count_append] at counts
  omega

/-- In every run with one-shot tasks and deadlines that a time point can hold there is a ledger in which every
scheduled entry is in one place, as often as it was scheduled: with the tasks that the polls have returned, each
not before its deadline and within a poll in the order of the deadlines; with the successful cancellations; with
the tasks that were skippable and too late; or in the heap, unless it was due at some poll. And every call ends.
-/
theorem delivers_once
    (run : Run step (fun _ timer event => OneShot event ∧ timer.Timely event)
      (made threshold now nextId : PriorityTimer queue) history timer)
    : Delivers threshold history timer := by
  have nothing : queue.elements (made threshold now nextId : PriorityTimer queue).heap = [] :=
    queue.elements_empty
  have keeps : timer.Plain threshold ∧ timer.Swept history
      ∧ ∃ ledger : Ledger Func, ledger.Accounts threshold history timer := by
    refine run.invariant (fun history timer => timer.Plain threshold ∧ timer.Swept history
      ∧ ∃ ledger : Ledger Func, ledger.Accounts threshold history timer) ?_ ?_
    · refine ⟨⟨rfl, nothing ▸ nofun⟩, ?_, {}, ?_⟩
      · intro front stage back split
        cases (List.append_eq_nil_iff.mp split.symm).2
      · refine ⟨?_, rfl, .nil, rfl, nofun, nofun, nofun⟩
        rw [nothing]
        exact .rfl
    · intro history timer event after outputs run ⟨plain, swept, ledger, accounts⟩ ⟨once, timely⟩ taken
      have takes := takes_of_step taken
      obtain ⟨more, writes⟩ := plain.writes once timely takes
      exact ⟨plain.step once takes, swept.step plain once timely takes, ledger.append more,
        accounts.append writes⟩
  obtain ⟨plain, swept, ledger, accounts⟩ := keeps
  refine ⟨⟨ledger, accounts, accounts.prompt swept⟩, fun event => ?_⟩
  refine exists_step timer event fun _ entry member => ?_
  simp [TimerEntry.hangs, plain.oneShot entry member]

/-- Two tasks with one deadline, one that is cancelled and one that comes too late. -/
def mixedTasks : List (TimerEvent Nat) :=
  [
    .scheduleAt { id := 1, func := some 1 } 5000000,
    .scheduleIn { id := 2, func := some 2 } 5,
    .scheduleIn { id := 3, func := some 3, skippable := true } 7,
    .scheduleIn { id := 4, func := some 4 } 9,
    .getExpiredTasks,
    .advance 5000000,
    .getExpiredTasks,
    .cancel 4,
    .advance 2000000000,
    .getExpiredTasks,
    .cancel 1
  ]

theorem delivers_once_mixedTasks
    : ∃ history timer,
      Run step (fun _ timer event => OneShot event ∧ timer.Timely event)
        (made 1000 0 1 : PriorityTimer (PriorityQueue.sorted (TimerEntry Nat) TimerEntry.deadline)) history
        timer
      ∧ (history.flatMap expiredBy).map (fun poll => (poll.1, poll.2.length)) =
        [(0, 0), (5000000, 2), (2005000000, 0)]
      ∧ Delivers 1000 history timer := by
  have shown : shows step
      (made 1000 0 1 : PriorityTimer (PriorityQueue.sorted (TimerEntry Nat) TimerEntry.deadline)) mixedTasks
      (fun history => audit (fun _ timer event => decide (OneShot event ∧ timer.Timely event)) [] history
        && (history.flatMap expiredBy).map (fun poll => (poll.1, poll.2.length)) =
          [(0, 0), (5000000, 2), (2005000000, 0)]) = true := by
    decide +kernel
  obtain ⟨history, timer, run, both⟩ := Run.of_shows shown
  obtain ⟨once, polls⟩ := Bool.and_eq_true_iff.mp both
  have allowed := run.of_audit (fun _ _ event => of_decide_eq_true) once
  exact ⟨history, timer, allowed, of_decide_eq_true polls, delivers_once allowed⟩

/-- A task for the end of time, which the first poll hands out. -/
def longDelay : List (TimerEvent Nat) :=
  [.scheduleIn { id := 1, func := some 1 } 9223372036854775807, .getExpiredTasks]

theorem longDelay_returned
    : ¬ ∀ history timer,
      Run step (fun _ _ event => OneShot event)
        (made 1000 2000000 1 : PriorityTimer (PriorityQueue.sorted (TimerEntry Nat) TimerEntry.deadline))
        history timer
      → Delivers 1000 history timer := by
  intro always
  have shown : shows step
      (made 1000 2000000 1 : PriorityTimer (PriorityQueue.sorted (TimerEntry Nat) TimerEntry.deadline))
      longDelay
      (fun history => audit (fun _ _ event => decide (OneShot event)) [] history
        && (history.flatMap expiredBy).map (fun poll => (poll.1, poll.2.length)) = [(2000000, 1)]
        && (scheduled history).all fun entry => 2000000 < entry.deadline) = true := by
    decide +kernel
  obtain ⟨history, timer, run, checked⟩ := Run.of_shows shown
  simp only [Bool.and_eq_true, decide_eq_true_eq] at checked
  obtain ⟨⟨once, polled⟩, later⟩ := checked
  have allowed := run.of_audit (fun _ _ event => of_decide_eq_true) once
  obtain ⟨⟨ledger, accounts, -⟩, -⟩ := always history timer allowed
  rw [accounts.returned, List.map_map] at polled
  obtain ⟨poll, member, same⟩ := List.mem_map.mp (polled ▸ List.mem_cons_self)
  obtain ⟨reading, length⟩ := by simpa using same
  obtain ⟨entry, held⟩ := List.exists_mem_of_length_pos (length.symm ▸ Nat.zero_lt_one)
  have meant : entry ∈ scheduled history := by
    refine accounts.all.mem_iff.mpr (List.mem_append_left _ (List.mem_append_left _ ?_))
    exact List.mem_flatMap.mpr ⟨poll, member, held⟩
  have early := accounts.due poll member entry held
  have late : 2000000 < entry.deadline := of_decide_eq_true (List.all_eq_true.mp later entry meant)
  omega

end PriorityTimer

end Creek.Framework
