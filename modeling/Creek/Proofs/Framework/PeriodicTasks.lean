import Creek.Proofs.Framework.TimerOperations

/-! Periodic tasks. An entry is followed by the callable it was scheduled with, which every entry that
replaces it gets a copy of. A poll arms a periodic entry again when it hands it out, but not when it
drops it for being late; and a deadline that a time point cannot hold lies in the past.
-/

namespace Creek.Framework

open Library

namespace TimerEntry

variable {Func : Type} [DecidableEq Func] {now threshold : Int} {func : Func}

def runs (func : Func) (entry : TimerEntry Func) : Bool :=
  entry.task.func = some func

/-- Whether an entry is for the periodic task that was scheduled. -/
structure Continues (task : Task Func) (period : Int) (periodicId : Nat) (entry : TimerEntry Func) : Prop where
  name : entry.task.name = task.name
  func : entry.task.func = task.func
  priority : entry.task.priority = task.priority
  skippable : entry.task.skippable = task.skippable
  period : entry.period = period
  periodicId : entry.periodicId = periodicId

/-- What is armed again has the callables of what it replaces. -/
theorem filter_rearms {old new : List (TimerEntry Func)} (rearms : List.Forall₂ (Rearms now) old new)
    : List.Forall₂ (Rearms now) (old.filter (runs func)) (new.filter (runs func)) := by
  induction rearms with
  | nil => exact .nil
  | @cons earlier later _ _ first _ ih =>
      have same : later.runs func = earlier.runs func := by
        obtain ⟨id, rfl⟩ := first
        rfl
      rw [List.filter_cons, List.filter_cons, same]
      split
      · exact .cons first ih
      · exact ih

end TimerEntry

namespace PriorityTimer

open TimerEntry

variable {Func : Type} [DecidableEq Func] {queue : TimerQueue Func}

/-- The entries in the heap that have a callable. -/
def entriesOf (func : Func) (timer : PriorityTimer queue) : List (TimerEntry Func) :=
  (queue.elements timer.heap).filter (runs func)

/-- When a step hands out tasks with a callable. -/
def firedBy (func : Func) (stage : Stage (PriorityTimer queue) (TimerEvent Func) (TimerOutput Func))
    : List Int :=
  stage.outputs.flatMap fun
    | .expired tasks =>
        (tasks.filter fun task => task.func = some func).map fun _ => stage.before.now
    | _ => []

/-- A step that adds a periodic task with a callable of its own. -/
structure Registers (func : Func) (task : Task Func) (period : Int) (periodicId : Nat)
    (stage : Stage (PriorityTimer queue) (TimerEvent Func) (TimerOutput Func))
    : Prop where
  event : stage.event = .schedulePeriodicEntry task period periodicId
  callable : task.func = some func
  positive : 0 < period
  own : stage.before.entriesOf func = []

/-- A step that does not cancel the periodic task, neither by its periodic id nor by the id of its current
task, and schedules others only.
-/
structure Leaves (func : Func) (periodicId : Nat)
    (stage : Stage (PriorityTimer queue) (TimerEvent Func) (TimerOutput Func))
    : Prop where
  uncancelled : stage.event ≠ .cancelPeriodic periodicId
  untouched : ∀ entry ∈ stage.before.entriesOf func, stage.event ≠ .cancel entry.task.id
  others : ∀ entry ∈ stage.before.added stage.event, entry.runs func = false

/-- Times that are at least a period apart. -/
def Spaced (period : Int) (times : List Int) : Prop :=
  times.IsChain fun earlier later => earlier + period * nanoseconds ≤ later

/-- A periodic task that was added by `stage` is in the heap once after the steps of `back`, and its firings,
with the next one, are at least a period apart.
-/
structure InHeap (func : Func) (task : Task Func) (period : Int) (periodicId : Nat) (added : Int)
    (back : List (Stage (PriorityTimer queue) (TimerEvent Func) (TimerOutput Func)))
    (timer : PriorityTimer queue) (entry : TimerEntry Func)
    : Prop where
  once : timer.entriesOf func = [entry]
  continues : entry.Continues task period periodicId
  spaced : Spaced period (added :: back.flatMap (firedBy func) ++ [entry.deadline])

/-- Every periodic task that has been added and not been cancelled is in the heap. -/
def Kept (func : Func)
    (history : List (Stage (PriorityTimer queue) (TimerEvent Func) (TimerOutput Func)))
    (timer : PriorityTimer queue)
    : Prop :=
  ∀ task period periodicId front stage back, history = front ++ stage :: back
    → Registers func task period periodicId stage
    → (∀ later ∈ back, Leaves func periodicId later)
    → ∃ entry, InHeap func task period periodicId stage.before.now back timer entry

/-- Every periodic task that has been added and not been cancelled is in the heap, and every call ends. -/
def Persists (func : Func)
    (history : List (Stage (PriorityTimer queue) (TimerEvent Func) (TimerOutput Func)))
    (timer : PriorityTimer queue)
    : Prop :=
  Kept func history timer ∧ ∀ event, ∃ after outputs, timer.step event = .ok (after, outputs)

/-- The time point a period from now is one that a time point can hold. -/
def WithinClock (now period : Int) : Prop := now + period * nanoseconds < 2 ^ 63

/-- A step that does not arm the periodic task beyond what a time point can hold, and is not a poll which
finds it due and cannot arm it again: for being late and skippable, or for having no periodic id.
-/
structure Rearmable (func : Func)
    (front : List (Stage (PriorityTimer queue) (TimerEvent Func) (TimerOutput Func)))
    (stage : Stage (PriorityTimer queue) (TimerEvent Func) (TimerOutput Func))
    : Prop where
  registered : ∀ task period periodicId, Registers func task period periodicId stage
    → WithinClock stage.before.now period
  polled : ∀ task period periodicId earlier registering between, front = earlier ++ registering :: between
    → Registers func task period periodicId registering
    → (∀ later ∈ between, Leaves func periodicId later)
    → stage.event = .getExpiredTasks
    → ∀ entry ∈ stage.before.entriesOf func, entry.due stage.before.now
    → periodicId ≠ 0 ∧ entry.skips stage.before.now stage.before.skipThreshold = false
      ∧ WithinClock stage.before.now period

variable {timer after : PriorityTimer queue} {event : TimerEvent Func}
  {outputs : List (TimerOutput Func)} {func : Func}
  {history : List (Stage (PriorityTimer queue) (TimerEvent Func) (TimerOutput Func))}

-- One entry through one step

/-- A step that takes nothing of a callable out of the heap and puts nothing of it in. -/
theorem entriesOf_eq {entry : TimerEntry Func} (gone new : List (TimerEntry Func))
    (once : timer.entriesOf func = [entry])
    (heap : (new ++ queue.elements timer.heap).Perm (gone ++ queue.elements after.heap))
    (gone_others : gone.filter (runs func) = []) (new_others : new.filter (runs func) = [])
    : after.entriesOf func = [entry] := by
  have same := heap.filter (runs func)
  rw [List.filter_append, List.filter_append, gone_others, new_others, List.nil_append,
    List.nil_append] at same
  exact List.perm_singleton.mp (same.symm.trans (.of_eq once))

/-- A cancellation that does not mean the one entry of a callable leaves it in the heap. -/
theorem Cancels.keeps {meant : TimerEntry Func → Bool} {found : Bool}
    {removed : Option (TimerEntry Func)} {entry : TimerEntry Func}
    (cancels : Cancels meant timer after found removed) (once : timer.entriesOf func = [entry])
    (spared : ¬meant entry) : after.entriesOf func = [entry] := by
  refine entriesOf_eq removed.toList [] once cancels.heap ?_ rfl
  refine List.filter_eq_nil_iff.mpr fun other member runs => spared ?_
  have before := cancels.heap.mem_iff.mpr (List.mem_append_left _ member)
  have own : other ∈ timer.entriesOf func := List.mem_filter.mpr ⟨before, runs⟩
  obtain rfl := List.mem_singleton.mp (once ▸ own)
  exact cancels.chosen other (Option.mem_toList.mp member)

theorem Polls.entriesOf {tasks : List (Task Func)} {slowSkips : List SlowSkip}
    {fired skipped rearmed : List (TimerEntry Func)}
    (polls : Polls timer after tasks slowSkips fired skipped rearmed) (func : Func)
    : (fired.filter (runs func)).Perm
        ((timer.entriesOf func).filter (TimerEntry.fires timer.now timer.skipThreshold))
      ∧ ∃ again, List.Forall₂ (Rearms timer.now) ((fired.filter (runs func)).filter repeats) again
        ∧ (after.entriesOf func).Perm
          ((again ++ timer.entriesOf func).filter fun entry => !entry.due timer.now) := by
  have select (choice : TimerEntry Func → Bool)
      : ((queue.elements timer.heap).filter choice).filter (runs func) =
        (timer.entriesOf func).filter choice :=
    List.filter_comm ..
  refine ⟨select _ ▸ polls.fires.filter (runs func), rearmed.filter (runs func), ?_, ?_⟩
  · rw [List.filter_comm]
    exact filter_rearms polls.rearms
  · have heap := polls.heap.filter (runs func)
    rwa [List.filter_comm, List.filter_append] at heap

/-- A poll leaves no more entries of a callable than there were. -/
theorem Polls.length_entriesOf_le {tasks : List (Task Func)} {slowSkips : List SlowSkip}
    {fired skipped rearmed : List (TimerEntry Func)}
    (polls : Polls timer after tasks slowSkips fired skipped rearmed) (func : Func)
    : (after.entriesOf func).length ≤ (timer.entriesOf func).length := by
  obtain ⟨fires, again, rearms, heap⟩ := polls.entriesOf func
  have armed := rearms.length_eq
  have fewer := List.length_filter_le TimerEntry.repeats (fired.filter (runs func))
  have due : ((timer.entriesOf func).filter (TimerEntry.fires timer.now timer.skipThreshold)).length
      ≤ ((timer.entriesOf func).filter (TimerEntry.due timer.now)).length := by
    refine (List.monotone_filter_right _ fun entry chosen => ?_).length_le
    exact (Bool.and_eq_true_iff.mp chosen).1
  have split := (List.filter_append_perm (TimerEntry.due timer.now) (timer.entriesOf func)).length_eq
  rw [List.length_append] at split
  rw [heap.length_eq, List.filter_append, List.length_append]
  have waiting := List.length_filter_le (fun entry => !entry.due timer.now) again
  have out := fires.length_eq
  omega

section

variable {tasks : List (Task Func)} {slowSkips : List SlowSkip}
  {fired skipped rearmed : List (TimerEntry Func)} {entry : TimerEntry Func}

theorem Polls.waits (polls : Polls timer after tasks slowSkips fired skipped rearmed)
    (once : timer.entriesOf func = [entry]) (waiting : entry.due timer.now = false)
    : fired.filter (runs func) = [] ∧ after.entriesOf func = [entry] := by
  have unfired : entry.fires timer.now timer.skipThreshold = false := by
    simp [TimerEntry.fires, waiting]
  obtain ⟨fires, again, rearms, heap⟩ := polls.entriesOf func
  rw [once, List.filter_cons_of_neg (by simp [unfired]), List.filter_nil] at fires
  rw [fires.eq_nil, List.filter_nil, List.forall₂_nil_left_iff] at rearms
  rw [once, rearms, List.nil_append, List.filter_cons_of_pos (by simp [waiting]), List.filter_nil] at heap
  exact ⟨fires.eq_nil, List.perm_singleton.mp heap⟩

/-- A poll arms an entry again that it hands out and that repeats; it stays if it is not due at once. -/
theorem Polls.again (polls : Polls timer after tasks slowSkips fired skipped rearmed)
    (once : timer.entriesOf func = [entry]) (fires : entry.fires timer.now timer.skipThreshold)
    (repeats : entry.repeats)
    : fired.filter (runs func) = [entry]
      ∧ ∃ id, after.entriesOf func =
        [entry.next timer.now id].filter fun entry => !entry.due timer.now := by
  have due : entry.due timer.now := (Bool.and_eq_true_iff.mp fires).1
  obtain ⟨out, again, rearms, heap⟩ := polls.entriesOf func
  rw [once, List.filter_cons_of_pos fires, List.filter_nil] at out
  rw [List.perm_singleton.mp out, List.filter_cons_of_pos repeats, List.filter_nil] at rearms
  rw [once, List.filter_append, List.filter_cons_of_neg (by simp [due]), List.filter_nil,
    List.append_nil] at heap
  cases rearms with
  | cons first rest =>
      cases rest
      obtain ⟨id, rfl⟩ := first
      refine ⟨List.perm_singleton.mp out, id, ?_⟩
      rcases stays : (entry.next timer.now id).due timer.now with _ | _
      · rw [List.filter_cons_of_pos (by simp [stays]), List.filter_nil] at heap ⊢
        exact List.perm_singleton.mp heap
      · rw [List.filter_cons_of_neg (by simp [stays]), List.filter_nil] at heap ⊢
        exact heap.eq_nil

/-- A poll loses an entry that is due if it drops it or the entry does not repeat. -/
theorem Polls.lost (polls : Polls timer after tasks slowSkips fired skipped rearmed)
    (once : timer.entriesOf func = [entry]) (due : entry.due timer.now)
    (gone : entry.repeats = false ∨ entry.skips timer.now timer.skipThreshold)
    : after.entriesOf func = [] := by
  obtain ⟨fires, again, rearms, heap⟩ := polls.entriesOf func
  have nothing : (fired.filter (runs func)).filter repeats = [] := by
    refine List.filter_eq_nil_iff.mpr fun other member => ?_
    rw [once] at fires
    obtain ⟨only, chosen⟩ := List.mem_filter.mp (fires.mem_iff.mp member)
    obtain rfl := List.mem_singleton.mp only
    rcases gone with single | skips
    · simp [single]
    · simp [TimerEntry.fires, skips] at chosen
  rw [nothing, List.forall₂_nil_left_iff] at rearms
  rw [once, rearms, List.nil_append, List.filter_cons_of_neg (by simp [due]), List.filter_nil] at heap
  exact heap.eq_nil

end

theorem firedBy_poll {tasks : List (Task Func)} {slowSkips : List SlowSkip}
    {fired skipped rearmed : List (TimerEntry Func)}
    (polls : Polls timer after tasks slowSkips fired skipped rearmed)
    : firedBy func
        { before := timer, event, outputs := slowSkips.map .slowTask ++ [.expired tasks] } =
      (fired.filter (runs func)).map fun _ => timer.now := by
  have tasks_eq : tasks.filter (fun task => task.func = some func) =
      (fired.filter (runs func)).map TimerEntry.task := by
    rw [polls.tasks, List.filter_map]
    rfl
  simp [firedBy, tasks_eq]

-- The entry through a run

/-- The deadline of an entry that is armed is a period later exactly when a time point can hold that. -/
theorem withinClock_iff {now period : Int}
    : WithinClock now period ↔ now + period * nanoseconds ≤ timeAfter now period := by
  rw [timeAfter_eq_int64]
  exact le_int64_iff.symm

/-- Two times a period apart, the later one as the timer computes it. -/
theorem spaced_timeAfter_iff {now period : Int}
    : Spaced period [now, timeAfter now period] ↔ WithinClock now period := by
  rw [withinClock_iff, Spaced, List.isChain_pair]

/-- A firing when the deadline has come, and the next deadline a period later. -/
theorem Spaced.fire {period deadline now next : Int} {times : List Int}
    (spaced : Spaced period (times ++ [deadline])) (due : deadline ≤ now)
    (later : now + period * nanoseconds ≤ next)
    : Spaced period (times ++ [now] ++ [next]) := by
  obtain ⟨earlier, -, last⟩ := List.isChain_append.mp spaced
  refine List.isChain_append.mpr ⟨List.isChain_append.mpr ⟨earlier, .singleton _, ?_⟩, .singleton _, ?_⟩
  · intro time final next is_next
    obtain rfl : now = next := by simpa using is_next
    exact (last time final deadline rfl).trans due
  · intro time final other is_next
    obtain rfl : now = time := by simpa using final
    obtain rfl : next = other := by simpa using is_next
    exact later

variable {task : Task Func} {period added : Int} {periodicId : Nat}
  {back : List (Stage (PriorityTimer queue) (TimerEvent Func) (TimerOutput Func))}
  {entry : TimerEntry Func}

theorem InHeap.keep (inHeap : InHeap func task period periodicId added back timer entry)
    (silent : firedBy func { before := timer, event, outputs } = [])
    (once : after.entriesOf func = [entry])
    : InHeap func task period periodicId added (back ++ [{ before := timer, event, outputs }]) after
        entry := by
  refine ⟨once, inHeap.continues, ?_⟩
  rw [List.flatMap_append, List.flatMap_singleton, silent, List.append_nil]
  exact inHeap.spaced

/-- Every step but a poll that cannot arm the entry again keeps a periodic task in the heap. -/
theorem InHeap.step (inHeap : InHeap func task period periodicId added back timer entry)
    (positive : 0 < period) (leaves : Leaves func periodicId { before := timer, event, outputs })
    (rearms : event = .getExpiredTasks → entry.due timer.now
      → periodicId ≠ 0 ∧ entry.skips timer.now timer.skipThreshold = false ∧ WithinClock timer.now period)
    (takes : Takes timer after event outputs)
    : ∃ entry, InHeap func task period periodicId added (back ++ [{ before := timer, event, outputs }])
        after entry := by
  have held : entry ∈ timer.entriesOf func := inHeap.once ▸ List.mem_singleton_self entry
  cases takes with
  | advance elapsed same =>
      subst same
      exact ⟨entry, inHeap.keep rfl inHeap.once⟩
  | drawId same =>
      subst same
      exact ⟨entry, inHeap.keep rfl inHeap.once⟩
  | @schedule _ new adds same =>
      subst same
      refine ⟨entry, inHeap.keep rfl (entriesOf_eq [] [new] inHeap.once ?_ rfl ?_)⟩
      · exact (queue.elements_push timer.heap new).symm
      · exact List.filter_cons_of_neg (by simp [leaves.others new adds])
  | poll polls =>
      rcases waiting : entry.due timer.now with _ | _
      · obtain ⟨silent, once⟩ := polls.waits inHeap.once waiting
        exact ⟨entry, inHeap.keep (by rw [firedBy_poll polls, silent, List.map_nil]) once⟩
      · obtain ⟨nonzero, kept, within⟩ := rearms rfl waiting
        have fires : entry.fires timer.now timer.skipThreshold := by
          simp [TimerEntry.fires, waiting, kept]
        have repeats : entry.repeats := by
          simp [TimerEntry.repeats, inHeap.continues.period, positive, inHeap.continues.periodicId, nonzero]
        obtain ⟨out, id, once⟩ := polls.again inHeap.once fires repeats
        have waits : (entry.next timer.now id).due timer.now = false :=
          not_due_next (inHeap.continues.period ▸ positive) (inHeap.continues.period ▸ within)
        rw [List.filter_cons_of_pos (by simp [waits]), List.filter_nil] at once
        obtain ⟨name, callable', priority, skippable, period', periodicId'⟩ := inHeap.continues
        refine ⟨entry.next timer.now id, once, ⟨name, callable', priority, skippable, period',
          periodicId'⟩, ?_⟩
        rw [List.flatMap_append, List.flatMap_singleton, firedBy_poll polls, out, deadline_next, period',
          List.map_singleton, ← List.cons_append]
        exact Spaced.fire inHeap.spaced (of_decide_eq_true waiting) (withinClock_iff.mp within)
  | @cancel taskId found removed cancels =>
      refine ⟨entry, inHeap.keep rfl (cancels.keeps inHeap.once fun chosen => ?_)⟩
      exact leaves.untouched entry held (congrArg _ (of_decide_eq_true chosen).symm)
  | @cancelPeriodic cancelledId found removed cancels =>
      refine ⟨entry, inHeap.keep rfl (cancels.keeps inHeap.once fun chosen => ?_)⟩
      obtain rfl := (of_decide_eq_true chosen).symm.trans inHeap.continues.periodicId
      exact leaves.uncancelled rfl

theorem InHeap.start
    (registers : Registers func task period periodicId { before := timer, event, outputs })
    (within : WithinClock timer.now period) (takes : Takes timer after event outputs)
    : ∃ entry, InHeap func task period periodicId timer.now [] after entry := by
  obtain ⟨rfl, callable, positive, own⟩ := registers
  cases takes with
  | @schedule _ entry adds same =>
      subst same
      have pushed := (queue.elements_push timer.heap entry).filter (runs func)
      obtain rfl := Option.some.inj adds
      have runs : TimerEntry.runs func
          { task, deadline := timeAfter timer.now period, period, periodicId } :=
        decide_eq_true callable
      rw [List.filter_cons_of_pos runs] at pushed
      refine ⟨_, List.perm_singleton.mp (pushed.trans (.of_eq (congrArg _ own))), ?_, ?_⟩
      · exact ⟨rfl, rfl, rfl, rfl, rfl, rfl⟩
      · exact .cons_cons (withinClock_iff.mp within) (.singleton _)

/-- A periodic task that has been added was added for a time that a time point can hold. -/
theorem InHeap.registered
    (registers : Registers func task period periodicId { before := timer, event, outputs })
    (takes : Takes timer after event outputs) (inHeap : InHeap func task period periodicId timer.now [] after entry)
    : WithinClock timer.now period := by
  obtain ⟨rfl, callable, positive, own⟩ := registers
  cases takes with
  | @schedule _ new adds same =>
      subst same
      obtain rfl := Option.some.inj adds
      have held : { task, deadline := timeAfter timer.now period, period, periodicId }
          ∈ PriorityTimer.entriesOf func
            { timer with
              heap := queue.push timer.heap
                { task, deadline := timeAfter timer.now period, period, periodicId } } :=
        List.mem_filter.mpr
          ⟨(queue.elements_push _ _).mem_iff.mpr List.mem_cons_self, decide_eq_true callable⟩
      rw [inHeap.once] at held
      obtain rfl := List.mem_singleton.mp held
      exact spaced_timeAfter_iff.mp inHeap.spaced

/-- A poll that leaves a periodic task in the heap, which it found due, could arm it again. -/
theorem InHeap.polled {tasks : List (Task Func)} {slowSkips : List SlowSkip}
    {fired skipped rearmed : List (TimerEntry Func)} {next : TimerEntry Func}
    (inHeap : InHeap func task period periodicId added back timer entry) (positive : 0 < period)
    (polls : Polls timer after tasks slowSkips fired skipped rearmed) (due : entry.due timer.now)
    (stays : InHeap func task period periodicId added
      (back ++
        [{ before := timer, event, outputs := slowSkips.map .slowTask ++ [.expired tasks] }])
      after next)
    : periodicId ≠ 0 ∧ entry.skips timer.now timer.skipThreshold = false
      ∧ WithinClock timer.now period := by
  have left : after.entriesOf func ≠ [] := stays.once ▸ List.cons_ne_nil next []
  have kept : entry.skips timer.now timer.skipThreshold = false :=
    Bool.eq_false_iff.mpr fun skips => left (polls.lost inHeap.once due (.inr skips))
  have nonzero : periodicId ≠ 0 := fun zero =>
    left (polls.lost inHeap.once due
      (.inl (by simp [TimerEntry.repeats, inHeap.continues.periodicId, zero])))
  refine ⟨nonzero, kept, ?_⟩
  have fires : entry.fires timer.now timer.skipThreshold := by simp [TimerEntry.fires, due, kept]
  have repeats : entry.repeats := by
    simp [TimerEntry.repeats, inHeap.continues.period, positive, inHeap.continues.periodicId, nonzero]
  obtain ⟨out, id, once⟩ := polls.again inHeap.once fires repeats
  have only : next ∈ [entry.next timer.now id] :=
    List.mem_of_mem_filter (once ▸ stays.once ▸ List.mem_singleton_self next)
  obtain rfl := List.mem_singleton.mp only
  -- the firing and the deadline after it are the last two times
  have spaced := stays.spaced
  rw [List.flatMap_append, List.flatMap_singleton, firedBy_poll polls, out, List.map_singleton,
    ← List.cons_append, List.append_assoc, deadline_next, inHeap.continues.period] at spaced
  exact spaced_timeAfter_iff.mp (List.isChain_append.mp spaced).2.1

/-- A run keeps a periodic task in the heap with one more step exactly when the step is not one that cannot
arm it.
-/
theorem kept_append (persists : Kept func history timer) (takes : Takes timer after event outputs)
    : Kept func (history ++ [{ before := timer, event, outputs }]) after
      ↔ Rearmable func history { before := timer, event, outputs } := by
  constructor
  · intro longer
    constructor
    · intro task period periodicId registers
      obtain ⟨entry, inHeap⟩ := longer task period periodicId history _ [] rfl registers
        fun later member => absurd member List.not_mem_nil
      exact InHeap.registered registers takes inHeap
    · intro task period periodicId earlier registering between split registers leaves polled entry held due
      obtain ⟨only, inHeap⟩ := persists task period periodicId earlier registering between split registers
        leaves
      obtain rfl : entry = only := List.mem_singleton.mp (inHeap.once ▸ held)
      obtain rfl : event = .getExpiredTasks := polled
      have leaves_all : ∀ later ∈ between ++ [{ before := timer, event := .getExpiredTasks, outputs }],
          Leaves func periodicId later := by
        intro later member
        rcases List.mem_append.mp member with before | last
        · exact leaves later before
        · obtain rfl := List.mem_singleton.mp last
          exact ⟨nofun, nofun, nofun⟩
      obtain ⟨next, stays⟩ := longer task period periodicId earlier registering
        (between ++ [{ before := timer, event := .getExpiredTasks, outputs }])
        (by rw [split, List.append_assoc]; rfl) registers leaves_all
      cases takes with
      | schedule adds => cases adds
      | poll polls => exact inHeap.polled registers.positive polls due stays
  · intro rearmable task period periodicId front stage back split registers leaves
    rcases List.eq_nil_or_concat back with rfl | ⟨rest, last, rfl⟩
    · obtain ⟨rfl, same⟩ := List.append_inj' split rfl
      obtain rfl := List.head_eq_of_cons_eq same
      exact InHeap.start registers (rearmable.registered _ _ _ registers) takes
    · rw [List.concat_eq_append, ← List.cons_append, ← List.append_assoc] at split
      obtain ⟨earlier, same⟩ := List.append_inj' split rfl
      obtain rfl := List.head_eq_of_cons_eq same
      rw [List.concat_eq_append] at leaves ⊢
      have leaves_rest : ∀ later ∈ rest, Leaves func periodicId later := fun later member =>
        leaves later (List.mem_append_left _ member)
      obtain ⟨entry, inHeap⟩ := persists task period periodicId front stage rest earlier registers
        leaves_rest
      refine inHeap.step registers.positive
        (leaves _ (List.mem_append_right _ (List.mem_singleton_self _))) ?_ takes
      intro polled due
      exact rearmable.polled task period periodicId front stage rest earlier registers leaves_rest polled
        entry (inHeap.once ▸ List.mem_singleton_self entry) due

omit [DecidableEq Func] in
/-- Every call of a timer ends exactly when no entry would fire over and over. -/
theorem ends_iff_calm : (∀ event, ∃ after outputs, timer.step event = .ok (after, outputs)) ↔ timer.Calm := by
  constructor
  · intro ends
    obtain ⟨after, outputs, taken⟩ := ends .getExpiredTasks
    rw [step] at taken
    split at taken
    · cases taken
    · rename_i polled
      exact calm_of_getExpiredTasks polled
  · exact fun calm event => exists_step timer event fun _ => calm

/-- From any timer, a run keeps a periodic task in the heap and every call ends all along, exactly when no
entry ever is one that fires over and over and no step arms the task beyond what a time point can hold or is
a poll that finds it due and cannot arm it again.
-/
theorem persists_iff_rearmable {start : PriorityTimer queue} (func : Func)
    (run : Run step (fun _ _ _ => True) start history timer)
    : Throughout (Persists func) history timer
      ↔ Throughout (fun _ timer => timer.Calm) history timer
        ∧ ∀ front stage back, history = front ++ stage :: back → Rearmable func front stage := by
  have kept : Throughout (Kept func) history timer
      ↔ ∀ front stage back, history = front ++ stage :: back → Rearmable func front stage := by
    refine run.throughout_iff_split ?_ ?_
    · intro task period periodicId front stage back split
      cases (List.append_eq_nil_iff.mp split.symm).2
    · intro history timer event after outputs run kept _ taken
      exact kept_append kept (takes_of_step taken)
  rw [← kept]
  constructor
  · rintro ⟨earlier, last⟩
    refine ⟨⟨fun front stage back split => ?_, ends_iff_calm.mp last.2⟩, ?_, last.1⟩
    · exact ends_iff_calm.mp (earlier front stage back split).2
    · exact fun front stage back split => (earlier front stage back split).1
  · rintro ⟨⟨calm, calmLast⟩, earlier, last⟩
    refine ⟨fun front stage back split => ?_, last, ends_iff_calm.mpr calmLast⟩
    exact ⟨earlier front stage back split, ends_iff_calm.mpr (calm front stage back split)⟩

/-- A periodic task that is polled in time, with tasks that come and go. -/
def polledInTime : List (TimerEvent Nat) :=
  [
    .drawId,
    .scheduleIn { id := 1, func := some 1 } 500,
    .drawId,
    .drawId,
    .schedulePeriodicEntry { id := 3, func := some 3, skippable := true } 100 2,
    .advance 100000000,
    .getExpiredTasks,
    .cancel 1,
    .advance 900000000,
    .getExpiredTasks,
    .cancelPeriodic 7
  ]

theorem persists_iff_rearmable_polledInTime
    : ∃ history timer,
      Run step (fun _ _ _ => True)
        ({} : PriorityTimer (PriorityQueue.sorted (TimerEntry Nat) TimerEntry.deadline)) history timer
      ∧ history.flatMap (firedBy 3) = [100000000, 1000000000]
      ∧ (Throughout (Persists 3) history timer
        ↔ Throughout (fun _ timer => timer.Calm) history timer
          ∧ ∀ front stage back, history = front ++ stage :: back → Rearmable 3 front stage) := by
  have shown : shows step
      ({} : PriorityTimer (PriorityQueue.sorted (TimerEntry Nat) TimerEntry.deadline)) polledInTime
      (fun history => history.flatMap (firedBy 3) = [100000000, 1000000000]) = true := by
    decide +kernel
  obtain ⟨history, timer, run, fires⟩ := Run.of_shows shown
  exact ⟨history, timer, run, of_decide_eq_true fires, persists_iff_rearmable 3 run⟩

/-- The run of `skipped_for_good`: a task is registered, polled late, and not among the entries any more. -/
def losesSkipped
    (history : List (Stage (PriorityTimer (PriorityQueue.sorted (TimerEntry Nat) TimerEntry.deadline))
      (TimerEvent Nat) (TimerOutput Nat)))
    : Bool :=
  match history with
  | [registering, passing, polling, drawing] =>
      registering.event = .schedulePeriodicEntry { id := 3, func := some 3, skippable := true } 100 2
      && registering.before.entriesOf 3 = []
      && passing.event = .advance 1200000000
      && polling.event = .getExpiredTasks
      && drawing.before.entriesOf 3 = []
  | _ => false

/-- A skippable periodic task that a poll finds more than a second late is gone. -/
theorem skipped_for_good
    : ¬ ∀ history timer,
      Run step (fun _ _ _ => True)
        ({} : PriorityTimer (PriorityQueue.sorted (TimerEntry Nat) TimerEntry.deadline)) history timer
      → Persists 3 history timer := by
  intro always
  have shown : shows step
      ({} : PriorityTimer (PriorityQueue.sorted (TimerEntry Nat) TimerEntry.deadline))
      [
        .schedulePeriodicEntry { id := 3, func := some 3, skippable := true } 100 2,
        .advance 1200000000,
        .getExpiredTasks,
        .drawId
      ]
      losesSkipped = true := by
    decide +kernel
  obtain ⟨history, timer, run, checked⟩ := Run.of_shows shown
  unfold losesSkipped at checked
  split at checked
  · rename_i registering passing polling drawing
    simp only [Bool.and_eq_true, decide_eq_true_eq] at checked
    obtain ⟨⟨⟨⟨registers, own⟩, passes⟩, polls⟩, gone⟩ := checked
    have split : [registering, passing, polling, drawing] =
        [registering, passing, polling] ++ drawing :: [] :=
      rfl
    obtain ⟨before, -⟩ := run.at_stage split
    have leaves : ∀ later ∈ [passing, polling], Leaves 3 2 later := by
      intro later member
      rcases List.mem_pair.mp member with rfl | rfl
      · constructor <;> simp [passes, added]
      · constructor <;> simp [polls, added]
    obtain ⟨entry, inHeap⟩ := (always _ _ before).1 _ _ _ [] registering [passing, polling] rfl
      ⟨registers, rfl, by decide, own⟩ leaves
    cases gone.symm.trans inHeap.once
  · cases checked

end PriorityTimer

end Creek.Framework
