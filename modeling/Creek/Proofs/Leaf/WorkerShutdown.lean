import Creek.Leaf.LeafWorkers
import Creek.Library.Lookups

/-! The workers run what their queue has accepted, once and in order of acceptance, and `stop` returns
when all that was accepted before it has been run.
-/

namespace Creek.Leaf

open Library

/-- The task that a thread is in. -/
def WorkerPoint.task? {α : Type} : WorkerPoint α → Option α
  | .running task | .draining task => some task
  | .checking | .taking | .polling | .exited => none

/-- A thread behind the loop, which has read that `m_running` is false. -/
def WorkerPoint.leaving {α : Type} : WorkerPoint α → Bool
  | .polling | .draining _ | .exited => true
  | .checking | .taking | .running _ => false

/-- The steps a thread has before it at most until it exits, but for the tasks it still finds in the
queue.
-/
def WorkerPoint.rank {α : Type} : WorkerPoint α → Nat
  | .exited => 0
  | .polling => 1
  | .checking | .draining _ => 2
  | .taking | .running _ => 3

/-- The steps of a thread in an event, one or none. -/
def WorkerEvent.turns {α : Type} : WorkerEvent α → Nat
  | .advance _ _ => 1
  | _ => 0

theorem WorkerPoint.rank_le {α : Type} (point : WorkerPoint α) : point.rank ≤ 3 := by
  cases point <;> simp [rank]

namespace WorkerOutput

variable {α : Type}

def accepted? : WorkerOutput α → Option α
  | accepted task => some task
  | _ => none

def started? : WorkerOutput α → Option α
  | started task => some task
  | _ => none

def finished? : WorkerOutput α → Option α
  | finished task => some task
  | _ => none

end WorkerOutput

namespace LeafWorkers

variable {α : Type} {pool after : LeafWorkers α} {worker capacity count : Nat} {expired : Bool}
  {task : α} {point : WorkerPoint α} {event : WorkerEvent α} {outputs : List (WorkerOutput α)}

-- The steps

/-- A thread at a point at which it may take a task, where it goes with one, and where without. -/
inductive Takes {α : Type} : WorkerPoint α → (α → WorkerPoint α) → WorkerPoint α → Prop
  | loop : Takes .taking .running .checking
  | drain : Takes .polling .draining .exited

/-- A thread in a task, and where it goes then. -/
inductive Finishes {α : Type} : WorkerPoint α → α → WorkerPoint α → Prop
  | loop {task : α} : Finishes (.running task) task .checking
  | drain {task : α} : Finishes (.draining task) task .polling

/-- What a step does. -/
inductive Move (pool : LeafWorkers α)
    : WorkerEvent α → LeafWorkers α → List (WorkerOutput α) → Prop
  | startAgain (running : pool.running = true) : Move pool .start pool []
  | start (stopped : pool.running = false) (outside : pool.stopping = .outside)
      : Move pool .start
        { pool with running := true, workers := pool.workers ++ List.replicate pool.count .checking }
        []
  | accept {task : α} (opened : pool.queue.closed = false)
      (room : pool.queue.items.length < pool.queue.capacity)
      : Move pool (.tryPush task)
        { pool with queue := { pool.queue with items := pool.queue.items ++ [task] } }
        [.accepted task]
  | refuse {task : α} : Move pool (.tryPush task) pool [.refused task]
  | check {worker : Nat} {expired : Bool} (found : pool.workers[worker]? = some .checking)
      : Move pool (.advance worker expired)
        (pool.setWorker worker (if pool.running then .taking else .polling)) []
  | take {worker : Nat} {expired : Bool} {point otherwise : WorkerPoint α}
      {run : α → WorkerPoint α} {task : α} {rest : List α}
      (found : pool.workers[worker]? = some point) (takes : Takes point run otherwise)
      (items : pool.queue.items = task :: rest)
      : Move pool (.advance worker expired)
        ({ pool with queue := { pool.queue with items := rest } }.setWorker worker (run task))
        [.started task]
  | leave {worker : Nat} {expired : Bool} {point otherwise : WorkerPoint α}
      {run : α → WorkerPoint α} (found : pool.workers[worker]? = some point)
      (takes : Takes point run otherwise) (empty : pool.queue.items = [])
      : Move pool (.advance worker expired) (pool.setWorker worker otherwise) []
  | finish {worker : Nat} {expired : Bool} {point next : WorkerPoint α} {task : α}
      (found : pool.workers[worker]? = some point) (finishes : Finishes point task next)
      : Move pool (.advance worker expired) (pool.setWorker worker next) [.finished task]
  | stopAgain (stopped : pool.running = false) : Move pool .stop pool []
  | stop (running : pool.running = true)
      : Move pool .stop { pool with running := false, stopping := .closing } []
  | close (closing : pool.stopping = .closing)
      : Move pool .close { pool with queue := pool.queue.close, stopping := .joining } []
  | join (joining : pool.stopping = .joining) (all : ∀ point ∈ pool.workers, point = .exited)
      : Move pool .join { pool with workers := [], stopping := .outside } []

theorem handOver_cons {rest : List α} (run : α → WorkerPoint α) (otherwise : WorkerPoint α)
    (items : pool.queue.items = task :: rest)
    : pool.handOver worker run otherwise pool.queue.poll
      = ({ pool with queue := { pool.queue with items := rest } }.setWorker worker (run task),
        [.started task]) := by
  simp only [handOver, TaskQueue.poll, items]

theorem handOver_nil (run : α → WorkerPoint α) (otherwise : WorkerPoint α)
    (empty : pool.queue.items = [])
    : pool.handOver worker run otherwise pool.queue.poll = (pool.setWorker worker otherwise, []) := by
  simp only [handOver, TaskQueue.poll, empty]

theorem move_of_poll {run : α → WorkerPoint α} {otherwise : WorkerPoint α}
    (found : pool.workers[worker]? = some point) (takes : Takes point run otherwise)
    (taken : pool.handOver worker run otherwise pool.queue.poll = (after, outputs))
    : Move pool (.advance worker expired) after outputs := by
  rcases items : pool.queue.items with _ | ⟨task, rest⟩
  · rw [handOver_nil run otherwise items] at taken
    cases taken
    exact .leave found takes items
  · rw [handOver_cons run otherwise items] at taken
    cases taken
    exact .take found takes items

theorem move_of_advance (taken : pool.workerLoop worker expired = .ok (after, outputs))
    : Move pool (.advance worker expired) after outputs := by
  unfold workerLoop at taken
  rcases found : pool.workers[worker]? with _ | point
  · rw [found] at taken
    cases taken
  · cases point with
    | checking =>
        simp only [found] at taken
        cases taken
        exact .check found
    | taking =>
        simp only [found, TaskQueue.takeFor] at taken
        rcases news : pool.queue.items.isEmpty && !pool.queue.closed with _ | _
        · simp only [news] at taken
          exact move_of_poll found .loop (Except.ok.inj taken)
        · have empty : pool.queue.items = [] := by
            rw [Bool.and_eq_true, List.isEmpty_iff] at news
            exact news.1
          cases expired with
          | false =>
              simp only [news] at taken
              cases taken
          | true =>
              simp only [news] at taken
              cases taken
              exact .leave found .loop empty
    | running task =>
        simp only [found] at taken
        cases taken
        exact .finish found .loop
    | polling =>
        simp only [found] at taken
        exact move_of_poll found .drain (Except.ok.inj taken)
    | draining task =>
        simp only [found] at taken
        cases taken
        exact .finish found .drain
    | exited =>
        simp only [found] at taken
        cases taken

theorem move_of_step (taken : pool.step event = .ok (after, outputs))
    : Move pool event after outputs := by
  cases event with
  | start =>
      simp only [step] at taken
      split at taken
      · rename_i running
        cases taken
        exact .startAgain running
      · rename_i stopped
        split at taken
        · rename_i outside
          cases taken
          exact .start (Bool.eq_false_iff.mpr stopped) outside
        · cases taken
  | tryPush task =>
      simp only [step, push, TaskQueue.tryPush] at taken
      rcases full : pool.queue.closed || decide (pool.queue.capacity ≤ pool.queue.items.length)
        with _ | _
      · simp only [full] at taken
        cases taken
        rw [Bool.or_eq_false_iff, decide_eq_false_iff_not] at full
        exact .accept full.1 (Nat.lt_of_not_le full.2)
      · simp only [full] at taken
        cases taken
        exact .refuse
  | advance worker expired => exact move_of_advance taken
  | stop =>
      simp only [step] at taken
      rcases running : pool.running with _ | _
      · simp only [running] at taken
        cases taken
        exact .stopAgain running
      · simp only [running] at taken
        cases taken
        exact .stop running
  | close =>
      simp only [step] at taken
      split at taken
      · rename_i closing
        cases taken
        exact .close closing
      · cases taken
  | join =>
      simp only [step] at taken
      split at taken
      · rename_i joined
        cases taken
        rw [Bool.and_eq_true, decide_eq_true_iff, List.all_eq_true] at joined
        refine .join joined.1 fun point member => ?_
        have exited := joined.2 point member
        cases point <;> first | rfl | cases exited
      · cases taken

-- What becomes of the tasks

abbrev WorkerStage (α : Type) := Stage (LeafWorkers α) (WorkerEvent α) (WorkerOutput α)

def acceptedIn (history : List (WorkerStage α)) : List α :=
  (emitted history).filterMap WorkerOutput.accepted?

def startedIn (history : List (WorkerStage α)) : List α :=
  (emitted history).filterMap WorkerOutput.started?

def finishedIn (history : List (WorkerStage α)) : List α :=
  (emitted history).filterMap WorkerOutput.finished?

/-- The tasks that threads are in. -/
def inProgress (pool : LeafWorkers α) : List α := pool.workers.filterMap WorkerPoint.task?

/-- The queue is what was accepted and not yet started, and the threads are in what was started and not
yet finished.
-/
structure Ledger (accepted started finished : List α) (pool : LeafWorkers α) : Prop where
  fifo : accepted = started ++ pool.queue.items
  busy : started.Perm (finished ++ pool.inProgress)
  room : pool.queue.items.length ≤ pool.queue.capacity

theorem Ledger.same {accepted started finished : List α}
    (ledger : Ledger accepted started finished pool) (queue : after.queue.items = pool.queue.items)
    (capacity : after.queue.capacity = pool.queue.capacity)
    (inProgress : after.inProgress.Perm pool.inProgress)
    : Ledger (accepted ++ []) (started ++ []) (finished ++ []) after := by
  simp only [List.append_nil]
  refine ⟨queue ▸ ledger.fifo, ledger.busy.trans (.append_left _ inProgress.symm), ?_⟩
  rw [queue, capacity]
  exact ledger.room

theorem inProgress_idle {next : WorkerPoint α} (found : pool.workers[worker]? = some point)
    (idle : point.task? = none) (nextIdle : next.task? = none)
    : (pool.setWorker worker next).inProgress.Perm pool.inProgress := by
  have moved := filterMap_set_perm WorkerPoint.task? found next
  rwa [idle, nextIdle] at moved

theorem Takes.idle {run : α → WorkerPoint α} {otherwise : WorkerPoint α}
    (takes : Takes point run otherwise)
    : point.task? = none ∧ otherwise.task? = none := by
  cases takes <;> exact ⟨rfl, rfl⟩

theorem Takes.runs {run : α → WorkerPoint α} {otherwise : WorkerPoint α}
    (takes : Takes point run otherwise) (task : α)
    : (run task).task? = some task := by
  cases takes <;> rfl

theorem Finishes.idle {next : WorkerPoint α} (finishes : Finishes point task next)
    : point.task? = some task ∧ next.task? = none := by
  cases finishes <;> exact ⟨rfl, rfl⟩

theorem Ledger.move {accepted started finished : List α}
    (ledger : Ledger accepted started finished pool) (move : Move pool event after outputs)
    : Ledger (accepted ++ outputs.filterMap WorkerOutput.accepted?)
      (started ++ outputs.filterMap WorkerOutput.started?)
      (finished ++ outputs.filterMap WorkerOutput.finished?) after := by
  cases move with
  | startAgain _ | stopAgain _ | refuse | stop _ | close _ => exact ledger.same rfl rfl .rfl
  | start stopped outside =>
      refine ledger.same rfl rfl ?_
      have idle : (List.replicate pool.count (WorkerPoint.checking (α := α))).filterMap
          WorkerPoint.task? = [] := by
        simp [WorkerPoint.task?]
      rw [inProgress, List.filterMap_append, idle, List.append_nil]
      exact .rfl
  | @accept task opened room =>
      obtain ⟨fifo, busy, _⟩ := ledger
      refine ⟨?_, ?_, ?_⟩
      · change accepted ++ [task] = (started ++ []) ++ (pool.queue.items ++ [task])
        rw [fifo, List.append_nil, List.append_assoc]
      · change (started ++ []).Perm (finished ++ [] ++ pool.inProgress)
        rwa [List.append_nil, List.append_nil]
      · rw [List.length_append]
        exact room
  | check found =>
      refine ledger.same rfl rfl (inProgress_idle found rfl ?_)
      cases pool.running <;> rfl
  | @take worker expired point otherwise run task rest found takes items =>
      obtain ⟨fifo, busy, room⟩ := ledger
      have runs := takes.runs task
      refine ⟨?_, ?_, ?_⟩
      · change accepted ++ [] = (started ++ [task]) ++ rest
        rw [fifo, items, List.append_nil, List.append_assoc, List.singleton_append]
      · have moved := filterMap_set_perm WorkerPoint.task? found (run task)
        rw [takes.idle.1, runs] at moved
        change (started ++ [task]).Perm (finished ++ [] ++ _)
        rw [List.append_nil]
        refine List.perm_append_comm.trans ((busy.cons task).trans ?_)
        exact List.perm_middle.symm.trans (.append_left _ moved.symm)
      · rw [items] at room
        exact Nat.le_of_succ_le room
  | leave found takes empty =>
      exact ledger.same rfl rfl (inProgress_idle found takes.idle.1 takes.idle.2)
  | @finish worker expired point next task found finishes =>
      obtain ⟨fifo, busy, room⟩ := ledger
      obtain ⟨ends, idle⟩ := finishes.idle
      refine ⟨?_, ?_, room⟩
      · change accepted ++ [] = (started ++ []) ++ pool.queue.items
        rwa [List.append_nil, List.append_nil]
      · have moved := filterMap_set_perm WorkerPoint.task? found next
        rw [ends, idle] at moved
        change (started ++ []).Perm ((finished ++ [task]) ++ _)
        rw [List.append_nil, List.append_assoc]
        exact busy.trans (.append_left _ moved.symm)
  | join joining all =>
      refine ledger.same rfl rfl ?_
      have idle : pool.inProgress = [] :=
        List.filterMap_eq_nil_iff.mpr fun point member => by rw [all point member]; rfl
      rw [idle]
      exact .nil

-- One worker

/-- What a thread that is alone is in, before and after it has moved. -/
theorem filterMap_alone {workers : List (WorkerPoint α)} (alone : workers.length ≤ 1)
    (found : workers[worker]? = some point) (next : WorkerPoint α)
    : workers.filterMap WorkerPoint.task? = point.task?.toList
      ∧ (workers.set worker next).filterMap WorkerPoint.task? = next.task?.toList := by
  obtain ⟨bound, same⟩ := List.getElem?_eq_some_iff.mp found
  obtain ⟨only, rfl⟩ := List.length_eq_one_iff.mp (by omega : workers.length = 1)
  obtain rfl : worker = 0 := Nat.lt_one_iff.mp bound
  obtain rfl : only = point := same
  cases only <;> cases next <;> exact ⟨rfl, rfl⟩

/-- A worker that is alone finishes each task before it starts the next one. -/
theorem inOrder_move {started finished : List α} (alone : pool.workers.length ≤ 1)
    (inOrder : started = finished ++ pool.inProgress) (move : Move pool event after outputs)
    : started ++ outputs.filterMap WorkerOutput.started?
      = finished ++ outputs.filterMap WorkerOutput.finished? ++ after.inProgress := by
  rw [inProgress] at inOrder ⊢
  cases move with
  | startAgain _ | stopAgain _ | refuse | accept _ _ | stop _ | close _ =>
      change started ++ [] = finished ++ [] ++ _
      rwa [List.append_nil, List.append_nil]
  | start stopped outside =>
      change started ++ [] = finished ++ [] ++ _
      have idle : (List.replicate pool.count (WorkerPoint.checking (α := α))).filterMap
          WorkerPoint.task? = [] := by
        simp [WorkerPoint.task?]
      rwa [List.append_nil, List.append_nil, List.filterMap_append, idle, List.append_nil]
  | check found =>
      obtain ⟨before, behind⟩ := filterMap_alone alone found
        (if pool.running then .taking else .polling)
      rw [before] at inOrder
      rw [setWorker, behind, inOrder]
      cases pool.running <;> simp [WorkerPoint.task?]
  | @take worker expired point otherwise run task rest found takes items =>
      obtain ⟨before, behind⟩ := filterMap_alone alone found (run task)
      rw [before, takes.idle.1] at inOrder
      rw [setWorker, behind, takes.runs, inOrder]
      simp [WorkerOutput.started?, WorkerOutput.finished?]
  | @leave worker expired point otherwise run found takes empty =>
      obtain ⟨before, behind⟩ := filterMap_alone alone found otherwise
      rw [before, takes.idle.1] at inOrder
      rw [setWorker, behind, takes.idle.2, inOrder]
      simp
  | @finish worker expired point next task found finishes =>
      obtain ⟨before, behind⟩ := filterMap_alone alone found next
      rw [before, finishes.idle.1] at inOrder
      rw [setWorker, behind, finishes.idle.2, inOrder]
      simp [WorkerOutput.started?, WorkerOutput.finished?]
  | join joining all =>
      have idle : pool.workers.filterMap WorkerPoint.task? = [] :=
        List.filterMap_eq_nil_iff.mpr fun point member => by rw [all point member]; rfl
      rw [idle] at inOrder
      rw [inOrder]
      simp

-- The threads

/-- Between a start and the next join there are all threads, and while `m_running` holds none of them
has left the loop.
-/
structure Crew (count : Nat) (pool : LeafWorkers α) : Prop where
  size : pool.count = count
  crew : pool.running = true ∨ pool.stopping ≠ .outside → pool.workers.length = count
  gone : pool.running = false → pool.stopping = .outside → pool.workers = []
  outside : pool.running = true → pool.stopping = .outside
  awake : pool.running = true → ∀ point ∈ pool.workers, point.leaving = false

theorem Crew.stopped (crew : Crew count pool) (inside : pool.stopping ≠ .outside)
    : pool.running = false :=
  Bool.eq_false_iff.mpr fun running => inside (crew.outside running)

/-- A thread moves without anything happening to the others. -/
theorem Crew.set {next : WorkerPoint α} (crew : Crew count pool) (queue : TaskQueue α)
    (found : pool.workers[worker]? = some point)
    (stays : pool.running = true → point.leaving = false → next.leaving = false)
    : Crew count ({ pool with queue := queue }.setWorker worker next) := by
  refine ⟨crew.size, ?_, ?_, crew.outside, ?_⟩
  · intro running
    exact (List.length_set).trans (crew.crew running)
  · intro stopped outside
    have none_ := crew.gone stopped outside
    rw [none_] at found
    cases found
  · intro running other member
    rcases List.mem_or_eq_of_mem_set member with earlier | rfl
    · exact crew.awake running other earlier
    · exact stays running (crew.awake running point (List.mem_of_getElem? found))

theorem Crew.move (crew : Crew count pool) (move : Move pool event after outputs)
    : Crew count after := by
  cases move with
  | startAgain _ | stopAgain _ | refuse => exact crew
  | accept _ _ => exact ⟨crew.size, crew.crew, crew.gone, crew.outside, crew.awake⟩
  | start stopped outside =>
      have none_ := crew.gone stopped outside
      refine ⟨crew.size, fun _ => ?_, fun running => (by cases running), fun _ => outside, ?_⟩
      · rw [none_, List.nil_append, List.length_replicate, crew.size]
      · intro _ point member
        rw [none_, List.nil_append] at member
        rw [List.eq_of_mem_replicate member]
        rfl
  | check found =>
      refine crew.set pool.queue found fun running _ => ?_
      rw [running]
      rfl
  | @take worker expired point otherwise run task rest found takes items =>
      refine crew.set _ found fun _ => ?_
      cases takes <;> exact id
  | leave found takes empty =>
      refine crew.set pool.queue found fun _ => ?_
      cases takes <;> exact id
  | finish found finishes =>
      refine crew.set pool.queue found fun _ => ?_
      cases finishes <;> exact id
  | stop running =>
      refine ⟨crew.size, fun _ => crew.crew (.inl running), fun _ closing => (by cases closing),
        fun running => (by cases running), fun running => (by cases running)⟩
  | close closing =>
      have stopped := crew.stopped (by rw [closing]; exact StopPoint.noConfusion)
      refine ⟨crew.size, fun _ => crew.crew (.inr ?_), fun _ joining => (by cases joining),
        fun running => ?_, fun running => ?_⟩
      · rw [closing]
        exact StopPoint.noConfusion
      · cases stopped.symm.trans running
      · cases stopped.symm.trans running
  | join joining all =>
      have stopped := crew.stopped (by rw [joining]; exact StopPoint.noConfusion)
      refine ⟨crew.size, fun either => ?_, fun _ _ => rfl, fun _ => rfl, fun _ _ member => ?_⟩
      · rcases either with running | joining
        · cases stopped.symm.trans running
        · exact absurd rfl joining
      · cases member

-- Runs

/-- The runs from before the first start, with tasks pushed at any time. -/
abbrev WorkerRun (capacity count : Nat) : List (WorkerStage α) → LeafWorkers α → Prop :=
  Run step (fun _ _ _ => True) { queue := { capacity := capacity }, count := count }

variable {history : List (WorkerStage α)}

theorem crew_of_run (run : WorkerRun capacity count history pool) : Crew count pool := by
  refine run.invariant (fun _ pool => Crew count pool) ?_ ?_
  · refine ⟨rfl, fun either => ?_, fun _ _ => rfl, fun _ => rfl, fun running => (by cases running)⟩
    rcases either with running | inside
    · cases running
    · exact absurd rfl inside
  · exact fun _ _ _ _ _ _ crew _ taken => crew.move (move_of_step taken)

/-- A `stop` that is not the second one. -/
def Stops (stage : WorkerStage α) : Prop := stage.event = .stop ∧ stage.before.running = true

theorem ledger_of_run (run : WorkerRun capacity count history pool)
    : Ledger (acceptedIn history) (startedIn history) (finishedIn history) pool := by
  refine run.invariant
    (fun history pool => Ledger (acceptedIn history) (startedIn history) (finishedIn history) pool)
    ⟨rfl, List.Perm.refl _, Nat.zero_le _⟩ ?_
  intro history pool event after outputs _ ledger _ taken
  simpa [acceptedIn, startedIn, finishedIn] using ledger.move (move_of_step taken)

theorem capacity_of_run (run : WorkerRun capacity count history pool)
    : pool.queue.capacity = capacity := by
  refine run.invariant (fun _ pool => pool.queue.capacity = capacity) rfl ?_
  intro history pool event after outputs _ same _ taken
  cases move_of_step taken <;> exact same

theorem startedIn_before (history : List (WorkerStage α)) (stage : WorkerStage α)
    : startedIn history <+: startedIn (history ++ [stage]) := by
  rw [startedIn, startedIn, emitted_append, List.filterMap_append]
  exact List.prefix_append _ _

theorem exited_of_move (move : Move pool event after outputs) (exited : .exited ∈ after.workers)
    : .exited ∈ pool.workers ∨ pool.queue.items = [] ∧ event ≠ .stop := by
  cases move with
  | startAgain _ | stopAgain _ | refuse | accept _ _ | stop _ | close _ => exact .inl exited
  | start stopped outside =>
      rcases List.mem_append.mp exited with earlier | new
      · exact .inl earlier
      · cases List.eq_of_mem_replicate new
  | check found =>
      rcases List.mem_or_eq_of_mem_set exited with earlier | new
      · exact .inl earlier
      · split at new <;> cases new
  | take found takes items =>
      rcases List.mem_or_eq_of_mem_set exited with earlier | new
      · exact .inl earlier
      · cases takes <;> cases new
  | leave found takes empty => exact .inr ⟨empty, fun same => (by cases same)⟩
  | finish found finishes =>
      rcases List.mem_or_eq_of_mem_set exited with earlier | new
      · exact .inl earlier
      · cases finishes <;> cases new
  | join joining all => cases exited

/-- What was accepted before a stop has been started at the end of the history. -/
def StartedBeforeStops (history : List (WorkerStage α)) : Prop :=
  ∀ first stop rest, history = first ++ stop :: rest
    → Stops stop
    → acceptedIn first <+: startedIn history

theorem startedBeforeStops_append (crew : Crew count pool)
    (either : .exited ∈ pool.workers ∧ StartedBeforeStops history
      ∨ acceptedIn history = startedIn history ∧ event ≠ .stop)
    : StartedBeforeStops (history ++ [⟨pool, event, outputs⟩]) := by
  intro first stop rest split stops
  refine .trans ?_ (startedIn_before history _)
  rcases List.eq_nil_or_concat rest with rfl | ⟨middle, last, rfl⟩
  · obtain ⟨rfl, same⟩ := List.append_inj' split rfl
    obtain rfl := List.head_eq_of_cons_eq same
    rcases either with ⟨exited, -⟩ | ⟨-, other⟩
    · cases crew.awake stops.2 _ exited
    · exact absurd stops.1 other
  · rw [List.concat_eq_append, ← List.cons_append, ← List.append_assoc] at split
    have split := (List.append_inj' split rfl).1
    rcases either with ⟨-, earlier⟩ | ⟨all, -⟩
    · exact earlier first stop middle split stops
    · rw [← all, split, acceptedIn, acceptedIn, emitted_append, List.filterMap_append]
      exact List.prefix_append _ _

/-- A thread that has left the loop was the last to look at the queue. -/
theorem startedBeforeStops_of_exited (run : WorkerRun capacity count history pool)
    : .exited ∈ pool.workers → StartedBeforeStops history := by
  refine run.invariant (fun history pool => .exited ∈ pool.workers → StartedBeforeStops history)
    (fun member => (by cases member)) ?_
  intro history pool event after outputs run earlier _ taken exited
  refine startedBeforeStops_append (crew_of_run run) ?_
  rcases exited_of_move (move_of_step taken) exited with before | ⟨empty, other⟩
  · exact .inl ⟨before, earlier before⟩
  · have fifo := (ledger_of_run run).fifo
    rw [empty, List.append_nil] at fifo
    exact .inr ⟨fifo, other⟩

/-- The threads that `stop` joins have exited, and one of them is there. -/
theorem Crew.exited_of_join (crew : Crew count pool) (positive : 0 < count)
    (taken : pool.step .join = .ok (after, outputs))
    : .exited ∈ pool.workers ∧ pool.inProgress = [] := by
  cases move_of_step taken with
  | join joining all =>
      have length := crew.crew (.inr (by rw [joining]; exact StopPoint.noConfusion))
      obtain ⟨point, member⟩ := List.exists_mem_of_length_pos (length ▸ positive)
      refine ⟨all point member ▸ member, List.filterMap_eq_nil_iff.mpr fun point member => ?_⟩
      rw [all point member]
      rfl

theorem inOrder_of_run (alone : count ≤ 1) (run : WorkerRun capacity count history pool)
    : startedIn history = finishedIn history ++ pool.inProgress := by
  refine run.invariant
    (fun history pool => startedIn history = finishedIn history ++ pool.inProgress) rfl ?_
  intro history pool event after outputs run inOrder _ taken
  have crew := crew_of_run run
  have few : pool.workers.length ≤ 1 := by
    by_cases inside : pool.running = true ∨ pool.stopping ≠ .outside
    · exact (crew.crew inside).le.trans alone
    · rw [not_or, not_not, Bool.not_eq_true] at inside
      rw [crew.gone inside.1 inside.2]
      exact Nat.zero_le 1
  simpa [startedIn, finishedIn] using inOrder_move few inOrder (move_of_step taken)

/-- In every run the tasks are started in the order in which the queue has accepted them, each once, and
the queue and the threads hold what is not yet started and not yet finished. One worker alone also
finishes them in that order. When `stop` returns, what was accepted before it has been run.
-/
theorem tasks_run_once (positive : 0 < count) (run : WorkerRun capacity count history pool)
    : acceptedIn history = startedIn history ++ pool.queue.items
      ∧ (startedIn history).Perm (finishedIn history ++ pool.inProgress)
      ∧ (count = 1 → startedIn history = finishedIn history ++ pool.inProgress)
      ∧ pool.queue.items.length ≤ capacity
      ∧ ∀ front join back, history = front ++ join :: back
        → join.event = .join
        → (startedIn front).Perm (finishedIn front)
          ∧ ∀ first stop rest, front = first ++ stop :: rest
            → Stops stop
            → acceptedIn first <+: startedIn front := by
  have ledger := ledger_of_run run
  refine ⟨ledger.fifo, ledger.busy, fun alone => inOrder_of_run alone.le run,
    capacity_of_run run ▸ ledger.room, ?_⟩
  intro front join back split joins
  obtain ⟨earlier, -, after, taken⟩ := run.at_stage split
  rw [joins] at taken
  obtain ⟨exited, idle⟩ := (crew_of_run earlier).exited_of_join positive taken
  refine ⟨?_, startedBeforeStops_of_exited earlier exited⟩
  have busy := (ledger_of_run earlier).busy
  rwa [idle, List.append_nil] at busy

-- The end of `stop`

/-- The steps that the threads have before them at most until all have exited. A task in the queue adds
two to them, that it is started and that it is finished.
-/
def rank (pool : LeafWorkers α) : Nat :=
  (pool.workers.map WorkerPoint.rank).sum + 2 * pool.queue.items.length

theorem rank_le (run : WorkerRun capacity count history pool)
    (inside : pool.stopping ≠ .outside)
    : pool.rank ≤ 3 * count + 2 * capacity := by
  have room := (ledger_of_run run).room
  rw [capacity_of_run run] at room
  have sum : (pool.workers.map WorkerPoint.rank).sum ≤ pool.workers.length * 3 := by
    rw [← List.length_map (f := WorkerPoint.rank)]
    refine List.sum_le_card_nsmul _ 3 fun rank member => ?_
    obtain ⟨point, -, rfl⟩ := List.mem_map.mp member
    exact WorkerPoint.rank_le point
  rw [(crew_of_run run).crew (.inr inside)] at sum
  rw [rank]
  omega

theorem sum_rank_set {workers : List (WorkerPoint α)} (found : workers[worker]? = some point)
    (next : WorkerPoint α)
    : point.rank + ((workers.set worker next).map WorkerPoint.rank).sum
      = next.rank + (workers.map WorkerPoint.rank).sum := by
  have moved := filterMap_set_perm (fun point => some point.rank) found next
  rw [List.filterMap_eq_map'] at moved
  simpa using moved.sum_eq

theorem closed_of_joining (run : WorkerRun capacity count history pool)
    : pool.stopping = .joining → pool.queue.closed = true := by
  refine run.invariant (fun _ pool => pool.stopping = .joining → pool.queue.closed = true)
    (fun joining => (by cases joining)) ?_
  intro history pool event after outputs run closed _ taken
  cases move_of_step taken with
  | startAgain _ | stopAgain _ | refuse | accept _ _ | check _ | take _ _ _ | leave _ _ _
  | finish _ _ => exact closed
  | start stopped outside => exact fun joining => (by cases outside.symm.trans joining)
  | stop running => exact fun joining => (by cases joining)
  | close closing => exact fun _ => rfl
  | join joining all => exact fun joining => (by cases joining)

/-- `stop` waits for the threads. -/
structure Waits (pool : LeafWorkers α) : Prop where
  joining : pool.stopping = .joining
  stopped : pool.running = false
  closed : pool.queue.closed = true

/-- While `stop` waits, every step of a thread lowers the rank, and nothing but the join raises it. -/
theorem Waits.move (waits : Waits pool) (move : Move pool event after outputs)
    (other : event ≠ .join)
    : Waits after ∧ after.rank + event.turns ≤ pool.rank := by
  obtain ⟨joining, stopped, closed⟩ := waits
  cases move with
  | startAgain _ | stopAgain _ | refuse => exact ⟨⟨joining, stopped, closed⟩, Nat.le_refl _⟩
  | start _ outside => cases outside.symm.trans joining
  | accept opened _ => cases opened.symm.trans closed
  | check found =>
      refine ⟨⟨joining, stopped, closed⟩, ?_⟩
      have moved := sum_rank_set found (if pool.running then .taking else .polling)
      rw [stopped] at moved
      simp only [rank, setWorker, stopped, Bool.false_eq_true, if_false] at moved ⊢
      simp only [WorkerPoint.rank, WorkerEvent.turns] at moved ⊢
      omega
  | @take worker expired point otherwise run task rest found takes items =>
      refine ⟨⟨joining, stopped, closed⟩, ?_⟩
      have moved := sum_rank_set found (run task)
      simp only [rank, setWorker, items, List.length_cons]
      cases takes <;> simp only [WorkerPoint.rank, WorkerEvent.turns] at moved ⊢ <;> omega
  | @leave worker expired point otherwise run found takes empty =>
      refine ⟨⟨joining, stopped, closed⟩, ?_⟩
      have moved := sum_rank_set found otherwise
      simp only [rank, setWorker]
      cases takes <;> simp only [WorkerPoint.rank, WorkerEvent.turns] at moved ⊢ <;> omega
  | @finish worker expired point next task found finishes =>
      refine ⟨⟨joining, stopped, closed⟩, ?_⟩
      have moved := sum_rank_set found next
      simp only [rank, setWorker]
      cases finishes <;> simp only [WorkerPoint.rank, WorkerEvent.turns] at moved ⊢ <;> omega
  | stop running => cases stopped.symm.trans running
  | close closing => cases closing.symm.trans joining
  | join _ _ => exact absurd rfl other

theorem advances (closed : pool.queue.closed = true) (found : pool.workers[worker]? = some point)
    (other : point ≠ .exited) (expired : Bool)
    : ∃ next, pool.step (.advance worker expired) = .ok next := by
  cases point with
  | exited => exact absurd rfl other
  | checking | running task | polling | draining task =>
      simp only [step, workerLoop, found]
      exact ⟨_, rfl⟩
  | taking =>
      simp only [step, workerLoop, found, TaskQueue.takeFor, closed, Bool.not_true, Bool.and_false]
      exact ⟨_, rfl⟩

/-- While `stop` waits, the threads together take no more steps than the rank allows. -/
theorem Waits.turns_le (waits : Waits pool) {more : List (WorkerStage α)} {last : LeafWorkers α}
    (run : Run step (fun _ _ event => event ≠ .join) pool more last)
    : (more.map fun stage => stage.event.turns).sum ≤ pool.rank := by
  have spent := run.invariant
    (fun more last => Waits last
      ∧ last.rank + (more.map fun stage => stage.event.turns).sum ≤ pool.rank)
    ⟨waits, Nat.le_refl _⟩ (fun more last event after outputs _ sofar other taken => by
      obtain ⟨still, less⟩ := sofar.1.move (move_of_step taken) other
      refine ⟨still, ?_⟩
      have earlier := sofar.2
      rw [List.map_append, List.sum_append, List.map_singleton, List.sum_singleton]
      change after.rank + (_ + event.turns) ≤ pool.rank
      omega)
  exact (Nat.le_add_left _ _).trans spent.2

/-- Once `stop` waits for the threads, none of them waits for anything, and together they take no more
steps than the number of threads and the capacity allow; when all have exited, `stop` returns.
-/
theorem stop_returns (run : WorkerRun capacity count history pool)
    (joining : pool.stopping = .joining)
    : (∀ more last, Run step (fun _ _ event => event ≠ .join) pool more last
        → (more.map fun stage => stage.event.turns).sum ≤ 3 * count + 2 * capacity)
      ∧ (∀ worker point, pool.workers[worker]? = some point
        → point ≠ .exited
        → ∀ expired, ∃ next, pool.step (.advance worker expired) = .ok next)
      ∧ ((∀ point ∈ pool.workers, point = .exited) → ∃ next, pool.step .join = .ok next) := by
  have inside : pool.stopping ≠ .outside := by
    rw [joining]
    exact StopPoint.noConfusion
  have waits : Waits pool :=
    ⟨joining, (crew_of_run run).stopped inside, closed_of_joining run joining⟩
  refine ⟨fun more last longer => (waits.turns_le longer).trans (rank_le run inside),
    fun _ _ found other expired => advances waits.closed found other expired, fun all => ?_⟩
  have exited : pool.workers.all WorkerPoint.isExited = true :=
    List.all_eq_true.mpr fun point member => by rw [all point member]; rfl
  rw [step, joining, exited]
  exact ⟨_, rfl⟩

/-- Two workers take two of three tasks before `stop` is called, and the third one behind the loop. -/
def stopsBehindThree : List (WorkerEvent Nat) := [
    .start, .tryPush 1, .tryPush 2, .tryPush 3, .tryPush 4,
    .advance 0 false, .advance 0 false, .advance 1 false, .advance 1 false, .advance 1 false,
    .stop, .advance 1 false, .close, .tryPush 5, .advance 1 false, .advance 1 false,
    .advance 1 false, .advance 0 false, .advance 0 false, .advance 0 false, .join
  ]

theorem tasks_run_once_stopsBehindThree
    : ∃ history pool, WorkerRun 3 2 history pool ∧ startedIn history = [1, 2, 3]
      ∧ acceptedIn history = [1, 2, 3] ++ pool.queue.items := by
  obtain ⟨history, pool, run, shown⟩ := @Run.of_shows _ _ _ _ step
    { queue := { capacity := 3 }, count := 2 } stopsBehindThree
    (fun history => decide (startedIn history = [1, 2, 3])) (by decide)
  have started := of_decide_eq_true shown
  have once := (tasks_run_once (by decide) run).1
  exact ⟨history, pool, run, started, started ▸ once⟩

/-- The workers of `m_request_queue`, with a task in it when it is closed. -/
theorem stop_returns_requestWorkers
    : ∃ history pool, WorkerRun 256 4 history pool ∧ pool.queue.items = [7]
      ∧ ∀ more last, Run step (fun _ _ event => event ≠ .join) pool more last
        → (more.map fun stage => stage.event.turns).sum ≤ 524 := by
  have executed : execute step (requestWorkers Nat) [.start, .tryPush 7, .stop, .close]
      = .ok (_, _) := rfl
  have run := Run.extend .start executed
  exact ⟨_, _, run, rfl, (stop_returns run rfl).1⟩

end LeafWorkers

end Creek.Leaf
