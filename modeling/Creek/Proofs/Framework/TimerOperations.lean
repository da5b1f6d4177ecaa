import Creek.Framework.Timer
import Creek.Library.Runs

/-! What one call does to the heap of a timer, whatever the order of entries with equal deadlines. -/

namespace Creek.Framework

open Library

namespace TimerEntry

variable {Func : Type} {now threshold : Int} {entry : TimerEntry Func}

def due (now : Int) (entry : TimerEntry Func) : Bool :=
  entry.deadline ≤ now

/-- Whether a poll hands out the task of an entry. -/
def fires (now threshold : Int) (entry : TimerEntry Func) : Bool :=
  entry.due now && !entry.skips now threshold

/-- Whether a poll drops an entry. -/
def drops (now threshold : Int) (entry : TimerEntry Func) : Bool :=
  entry.due now && entry.skips now threshold

theorem due_of_fires (fires : entry.fires now threshold) : entry.deadline ≤ now :=
  of_decide_eq_true (Bool.and_eq_true_iff.mp fires).1

@[simp] theorem deadline_movedFrom : entry.movedFrom.deadline = entry.deadline := rfl

@[simp] theorem deadline_next {id : Nat} : (entry.next now id).deadline = timeAfter now entry.period := rfl

/-- Whether an entry fires over and over in one poll: it is armed again for a time that has passed, and does
not come too late for it.
-/
def hangs (now threshold : Int) (entry : TimerEntry Func) : Bool :=
  entry.fires now threshold && entry.repeats && (entry.next now 0).fires now threshold

/-- Whether an entry is what another one becomes when it is armed again. -/
def Rearms (now : Int) (old new : TimerEntry Func) : Prop :=
  ∃ id, new = old.next now id

/-- An entry that is armed again is not due before its period is over, if the clock can tell. -/
theorem not_due_next {id : Nat} (positive : 0 < entry.period)
    (fits : now + entry.period * 1000000 < 2 ^ 63)
    : (entry.next now id).due now = false := by
  rw [due, decide_eq_false_iff_not, deadline_next, timeAfter_eq_int64]
  have kept := le_int64_iff.mpr fits
  omega

/-- An entry that does not fire over and over does not fire again in the poll that arms it. -/
theorem fires_next {id : Nat} (calm : entry.hangs now threshold = false)
    (fires : entry.fires now threshold) (repeats : entry.repeats)
    : (entry.next now id).fires now threshold = false := by
  rwa [hangs, fires, repeats, Bool.true_and, Bool.true_and] at calm

theorem exists_rearms {old new : List (TimerEntry Func)} (rearms : List.Forall₂ (Rearms now) old new)
    {later : TimerEntry Func} (member : later ∈ new)
    : ∃ earlier ∈ old, Rearms now earlier later := by
  induction rearms with
  | nil => cases member
  | cons first _ ih =>
      rcases List.mem_cons.mp member with rfl | rest
      · exact ⟨_, List.mem_cons_self, first⟩
      · obtain ⟨earlier, found, becomes⟩ := ih rest
        exact ⟨earlier, List.mem_cons_of_mem _ found, becomes⟩

end TimerEntry

namespace PriorityTimer

open TimerEntry

variable {Func : Type} {queue : TimerQueue Func} {now threshold : Int}

-- Polls

/-- What the loop of a poll does from some turn on: it hands out the tasks of `fired`, drops `skipped` and
leaves the entries that are not due, with `rearmed` for the periodic ones it has handed out. What is armed
again for a time that has passed is dropped in the same poll.
-/
structure Expires (now threshold : Int) (before after : Expiry queue)
    (fired skipped rearmed : List (TimerEntry Func))
    : Prop where
  tasks : after.tasks = before.tasks ++ fired.map TimerEntry.task
  slowSkips : after.slowSkips = before.slowSkips ++ skipped.map (TimerEntry.slowSkip now)
  fires : fired.Perm ((queue.elements before.heap).filter (TimerEntry.fires now threshold))
  drops : skipped.Perm
    ((rearmed ++ queue.elements before.heap).filter (TimerEntry.drops now threshold))
  ordered : fired.Pairwise fun earlier later => earlier.deadline ≤ later.deadline
  heap : (queue.elements after.heap).Perm
    ((rearmed ++ queue.elements before.heap).filter fun entry => !entry.due now)
  rearms : List.Forall₂ (Rearms now) (fired.filter TimerEntry.repeats) rearmed

theorem Expires.refl {expiry : Expiry queue}
    (later : ∀ entry ∈ queue.elements expiry.heap, now < entry.deadline)
    : Expires now threshold expiry expiry [] [] [] := by
  have not_due : ∀ entry ∈ queue.elements expiry.heap, entry.due now = false := fun entry member =>
    decide_eq_false (not_le.mpr (later entry member))
  refine ⟨(List.append_nil _).symm, (List.append_nil _).symm, ?_, ?_, .nil, ?_, .nil⟩
  · rw [List.filter_eq_nil_iff.mpr fun entry member => by simp [TimerEntry.fires, not_due entry member]]
  · rw [List.nil_append,
      List.filter_eq_nil_iff.mpr fun entry member => by simp [TimerEntry.drops, not_due entry member]]
  · rw [List.nil_append, List.filter_eq_self.mpr fun entry member => by simp [not_due entry member]]

theorem Expires.skip {before between after : Expiry queue} {entry : TimerEntry Func}
    {fired skipped rearmed : List (TimerEntry Func)}
    (rest : Expires now threshold between after fired skipped rearmed)
    (popped : (queue.elements before.heap).Perm (entry :: queue.elements between.heap))
    (drops : entry.drops now threshold) (tasks : between.tasks = before.tasks)
    (slowSkips : between.slowSkips = before.slowSkips ++ [entry.slowSkip now])
    : Expires now threshold before after fired (entry :: skipped) rearmed := by
  obtain ⟨due, skips⟩ := Bool.and_eq_true_iff.mp drops
  have unfired : entry.fires now threshold = false := by simp [TimerEntry.fires, skips]
  refine ⟨tasks ▸ rest.tasks, ?_, ?_, ?_, rest.ordered, ?_, rest.rearms⟩
  · rw [rest.slowSkips, slowSkips, List.append_assoc, List.map_cons, List.singleton_append]
  · refine rest.fires.trans (.symm ((popped.filter _).trans ?_))
    rw [List.filter_cons_of_neg (by simp [unfired])]
  · refine (rest.drops.cons entry).trans (.symm (((popped.append_left rearmed).filter _).trans ?_))
    refine (List.perm_middle.filter _).trans ?_
    rw [List.filter_cons_of_pos drops]
  · refine rest.heap.trans (.symm (((popped.append_left rearmed).filter _).trans ?_))
    refine (List.perm_middle.filter _).trans ?_
    rw [List.filter_cons_of_neg (by simp [due])]

/-- A turn that hands out the task at the top, with the entries that replace it. -/
theorem Expires.fire {before between after : Expiry queue} {entry : TimerEntry Func} {popped : queue.Heap}
    {again fired skipped rearmed : List (TimerEntry Func)}
    (rest : Expires now threshold between after fired skipped rearmed)
    (top : queue.top? before.heap = some entry)
    (pops : (queue.elements before.heap).Perm (entry :: queue.elements popped))
    (pushed : (queue.elements between.heap).Perm (again ++ queue.elements popped))
    (fires : entry.fires now threshold)
    (rearms : List.Forall₂ (Rearms now) ([entry].filter TimerEntry.repeats) again)
    (calm : ∀ new ∈ again, new.fires now threshold = false)
    (tasks : between.tasks = before.tasks ++ [entry.task])
    (slowSkips : between.slowSkips = before.slowSkips)
    : Expires now threshold before after (entry :: fired) skipped (again ++ rearmed) := by
  obtain ⟨due, unskipped⟩ := Bool.and_eq_true_iff.mp fires
  have undropped : entry.drops now threshold = false := by
    simpa [TimerEntry.drops, due] using unskipped
  have fired_between : fired.Perm ((queue.elements popped).filter (TimerEntry.fires now threshold)) := by
    refine rest.fires.trans ((pushed.filter _).trans ?_)
    rw [List.filter_append,
      List.filter_eq_nil_iff.mpr fun new member => Bool.eq_false_iff.mp (calm new member),
      List.nil_append]
  -- what is armed again and what was in the heap before, without the entry that fires
  have moved : (rearmed ++ queue.elements between.heap).Perm
      (again ++ rearmed ++ queue.elements popped) := by
    refine (pushed.append_left rearmed).trans ?_
    rw [← List.append_assoc]
    exact List.perm_append_comm.append_right _
  have whole : (again ++ rearmed ++ queue.elements before.heap).Perm
      (entry :: (again ++ rearmed ++ queue.elements popped)) :=
    (pops.append_left _).trans List.perm_middle
  refine ⟨?_, slowSkips ▸ rest.slowSkips, ?_, ?_, ?_, ?_, ?_⟩
  · rw [rest.tasks, tasks, List.append_assoc, List.map_cons, List.singleton_append]
  · refine (fired_between.cons entry).trans (.symm ((pops.filter _).trans ?_))
    rw [List.filter_cons_of_pos fires]
  · refine rest.drops.trans ((moved.filter _).trans (.symm ((whole.filter _).trans ?_)))
    rw [List.filter_cons_of_neg (by simp [undropped])]
  · refine List.pairwise_cons.mpr ⟨fun other member => ?_, rest.ordered⟩
    exact queue.top?_le _ _ top other
      (pops.mem_iff.mpr (List.mem_cons_of_mem _
        (List.mem_of_mem_filter (fired_between.mem_iff.mp member))))
  · refine rest.heap.trans ((moved.filter _).trans (.symm ((whole.filter _).trans ?_)))
    rw [List.filter_cons_of_neg (by simp [due])]
  · rw [← List.singleton_append, List.filter_append]
    exact List.rel_append rearms rest.rearms

/-- The number of turns that the entries of a heap ask for at most: an entry that fires may come up twice. -/
def turns (now threshold : Int) (entries : List (TimerEntry Func)) : Nat :=
  (entries.filter (TimerEntry.due now)).length + (entries.filter (TimerEntry.fires now threshold)).length

theorem turns_le (entries : List (TimerEntry Func)) : turns now threshold entries ≤ 2 * entries.length := by
  have due := List.length_filter_le (TimerEntry.due now) entries
  have fires := List.length_filter_le (TimerEntry.fires now threshold) entries
  unfold turns
  omega

theorem turns_append (front back : List (TimerEntry Func))
    : turns now threshold (front ++ back) = turns now threshold front + turns now threshold back := by
  simp only [turns, List.filter_append, List.length_append]
  omega

theorem turns_perm (now threshold : Int) {one other : List (TimerEntry Func)} (perm : one.Perm other)
    : turns now threshold one = turns now threshold other := by
  rw [turns, turns, (perm.filter _).length_eq, (perm.filter _).length_eq]

/-- The loop of a poll ends within the turns that its entries ask for and one more, if none of them fires
over and over.
-/
theorem expire_spec (now threshold : Int) (fuel : Nat) (expiry : Expiry queue)
    (calm : ∀ entry ∈ queue.elements expiry.heap, entry.hangs now threshold = false)
    (enough : turns now threshold (queue.elements expiry.heap) < fuel)
    : ∃ after fired skipped rearmed, expire now threshold fuel expiry = some after
      ∧ Expires now threshold expiry after fired skipped rearmed := by
  induction fuel generalizing expiry with
  | zero => cases enough
  | succ fuel ih =>
      rw [expire, expireTop]
      rcases top : queue.top? expiry.heap with _ | entry
      · refine ⟨expiry, [], [], [], rfl, .refl ?_⟩
        rw [(queue.top?_eq_none _).mp top]
        nofun
      · by_cases later : now < entry.deadline
        · simp only [if_pos later]
          exact ⟨expiry, [], [], [], rfl, .refl fun other member =>
            later.trans_le (queue.top?_le _ _ top other member)⟩
        · have due : entry.due now := decide_eq_true (not_lt.mp later)
          have pops := queue.elements_pop _ _ top
          have held : entry ∈ queue.elements expiry.heap := pops.mem_iff.mpr List.mem_cons_self
          have calm_popped : ∀ other ∈ queue.elements (queue.pop expiry.heap),
              other.hangs now threshold = false := fun other member =>
            calm other (pops.mem_iff.mpr (List.mem_cons_of_mem _ member))
          have counts := turns_perm now threshold pops
          rw [← List.singleton_append, turns_append] at counts
          simp only [if_neg later]
          by_cases skips : entry.skips now threshold
          · have one : 0 < turns now threshold [entry] := by simp [turns, due]
            simp only [if_pos skips]
            obtain ⟨after, fired, skipped, rearmed, ends, rest⟩ :=
              ih
                { expiry with
                  heap := queue.pop expiry.heap
                  slowSkips := expiry.slowSkips ++ [entry.slowSkip now] }
                calm_popped (by dsimp only; omega)
            refine ⟨after, fired, entry :: skipped, rearmed, ends, rest.skip pops ?_ rfl rfl⟩
            simp [TimerEntry.drops, due, skips]
          · have fires : entry.fires now threshold := by simp [TimerEntry.fires, due, skips]
            have two : turns now threshold [entry] = 2 := by simp [turns, due, fires]
            simp only [if_neg skips, queue.pop_modifyTop _ _ _ top deadline_movedFrom]
            by_cases again : entry.repeats
            · simp only [if_pos again]
              have quiet := @fires_next _ _ _ _ expiry.nextId (calm entry held) fires again
              have pushed : (queue.elements
                  (queue.push (queue.pop expiry.heap) (entry.next now expiry.nextId))).Perm
                    ([entry.next now expiry.nextId] ++ queue.elements (queue.pop expiry.heap)) :=
                queue.elements_push _ _
              have one : turns now threshold [entry.next now expiry.nextId] ≤ 1 := by
                simp only [turns, List.filter_cons, quiet]
                split <;> simp
              have fewer := turns_perm now threshold pushed
              rw [turns_append] at fewer
              obtain ⟨after, fired, skipped, rearmed, ends, rest⟩ :=
                ih
                  { expiry with
                    heap := queue.push (queue.pop expiry.heap) (entry.next now expiry.nextId)
                    nextId := idAfter expiry.nextId
                    tasks := expiry.tasks ++ [entry.task] }
                  (fun other member => by
                    rcases List.mem_cons.mp (pushed.mem_iff.mp member) with rfl | old
                    · simp [hangs, quiet]
                    · exact calm_popped other old)
                  (by dsimp only; omega)
              refine ⟨after, entry :: fired, skipped, _, ends,
                rest.fire top pops pushed fires ?_ ?_ rfl rfl⟩
              · rw [List.filter_cons_of_pos again]
                exact .cons ⟨expiry.nextId, rfl⟩ .nil
              · intro new member
                exact List.mem_singleton.mp member ▸ quiet
            · simp only [if_neg again]
              obtain ⟨after, fired, skipped, rearmed, ends, rest⟩ :=
                ih
                  { expiry with
                    heap := queue.pop expiry.heap
                    tasks := expiry.tasks ++ [entry.task] }
                  calm_popped (by dsimp only; omega)
              refine ⟨after, entry :: fired, skipped, [] ++ rearmed, ends, ?_⟩
              refine rest.fire top pops .rfl fires ?_ nofun rfl rfl
              rw [List.filter_cons_of_neg again]
              exact .nil

/-- A loop with an entry that fires over and over does not end. Witness: the entry, or what it is armed as,
is due in every turn.
-/
theorem expire_hangs (now threshold : Int) (fuel : Nat) (expiry : Expiry queue)
    {entry : TimerEntry Func} (held : entry ∈ queue.elements expiry.heap)
    (hangs : entry.hangs now threshold)
    : expire now threshold fuel expiry = none := by
  induction fuel generalizing expiry entry with
  | zero => rfl
  | succ fuel ih =>
      obtain ⟨⟨fires, repeats⟩, again⟩ := by simpa only [TimerEntry.hangs, Bool.and_eq_true] using hangs
      rw [expire, expireTop]
      rcases top : queue.top? expiry.heap with _ | first
      · rw [(queue.top?_eq_none _).mp top] at held
        cases held
      · have due := (queue.top?_le _ _ top entry held).trans (due_of_fires fires)
        have pops := queue.elements_pop _ _ top
        have stays (other : first ≠ entry) : entry ∈ queue.elements (queue.pop expiry.heap) :=
          (List.mem_cons.mp (pops.mem_iff.mp held)).resolve_left other.symm
        simp only [if_neg (not_lt.mpr due)]
        by_cases same : first = entry
        · subst same
          have unskipped : ¬first.skips now threshold := by
            simpa using (Bool.and_eq_true_iff.mp fires).2
          simp only [if_neg unskipped, queue.pop_modifyTop _ _ _ top deadline_movedFrom, if_pos repeats]
          refine ih _ ((queue.elements_push _ _).mem_iff.mpr List.mem_cons_self) ?_
          simpa [TimerEntry.hangs, Bool.and_eq_true] using ⟨⟨again, repeats⟩, again⟩
        · by_cases skips : first.skips now threshold
          · simp only [if_pos skips]
            exact ih _ (stays same) hangs
          · simp only [if_neg skips, queue.pop_modifyTop _ _ _ top deadline_movedFrom]
            by_cases armed : first.repeats
            · simp only [if_pos armed]
              refine ih _ ?_ hangs
              exact (queue.elements_push _ _).mem_iff.mpr (List.mem_cons_of_mem _ (stays same))
            · simp only [if_neg armed]
              exact ih _ (stays same) hangs

/-- What a poll does to the timer, with what it hands out and what it logs. -/
structure Polls (before after : PriorityTimer queue) (tasks : List (Task Func)) (slowSkips : List SlowSkip)
    (fired skipped rearmed : List (TimerEntry Func))
    : Prop where
  threshold : after.skipThreshold = before.skipThreshold
  clock : after.now = before.now
  tasks : tasks = fired.map TimerEntry.task
  slowSkips : slowSkips = skipped.map (TimerEntry.slowSkip before.now)
  fires : fired.Perm
    ((queue.elements before.heap).filter (TimerEntry.fires before.now before.skipThreshold))
  drops : skipped.Perm
    ((rearmed ++ queue.elements before.heap).filter
      (TimerEntry.drops before.now before.skipThreshold))
  ordered : fired.Pairwise fun earlier later => earlier.deadline ≤ later.deadline
  heap : (queue.elements after.heap).Perm
    ((rearmed ++ queue.elements before.heap).filter fun entry => !entry.due before.now)
  rearms : List.Forall₂ (Rearms before.now) (fired.filter TimerEntry.repeats) rearmed

/-- No entry of the timer would fire over and over in a poll. -/
def Calm (timer : PriorityTimer queue) : Prop :=
  ∀ entry ∈ queue.elements timer.heap, entry.hangs timer.now timer.skipThreshold = false

theorem getExpiredTasks_spec {timer : PriorityTimer queue} (calm : timer.Calm)
    : ∃ after tasks slowSkips fired skipped rearmed,
      timer.getExpiredTasks = some (after, tasks, slowSkips)
      ∧ Polls timer after tasks slowSkips fired skipped rearmed := by
  obtain ⟨last, fired, skipped, rearmed, ends, expires⟩ :=
    expire_spec timer.now timer.skipThreshold _ { heap := timer.heap, nextId := timer.nextId } calm
      (Nat.lt_succ_of_le (turns_le _))
  refine ⟨{ timer with heap := last.heap, nextId := last.nextId }, last.tasks, last.slowSkips, fired,
    skipped, rearmed, ?_, ?_⟩
  · unfold getExpiredTasks
    exact ends ▸ rfl
  · exact ⟨rfl, rfl, expires.tasks, expires.slowSkips, expires.fires, expires.drops, expires.ordered,
      expires.heap, expires.rearms⟩

/-- A poll that ends has met no entry that fires over and over. -/
theorem calm_of_getExpiredTasks {timer after : PriorityTimer queue} {tasks : List (Task Func)}
    {slowSkips : List SlowSkip} (ends : timer.getExpiredTasks = some (after, tasks, slowSkips))
    : timer.Calm := by
  intro entry member
  refine Bool.eq_false_iff.mpr fun hangs => ?_
  rw [getExpiredTasks, expire_hangs timer.now timer.skipThreshold _
    { heap := timer.heap, nextId := timer.nextId } member hangs] at ends
  cases ends

theorem polls_of_getExpiredTasks {timer after : PriorityTimer queue} {tasks : List (Task Func)}
    {slowSkips : List SlowSkip} (ends : timer.getExpiredTasks = some (after, tasks, slowSkips))
    : ∃ fired skipped rearmed, Polls timer after tasks slowSkips fired skipped rearmed := by
  obtain ⟨_, _, _, fired, skipped, rearmed, same, polls⟩ :=
    getExpiredTasks_spec (calm_of_getExpiredTasks ends)
  obtain ⟨rfl, rfl, rfl⟩ := by simpa using ends.symm.trans same
  exact ⟨fired, skipped, rearmed, polls⟩

/-- The entries that were in the heap before a poll, where nothing is armed again: it hands out or drops
those that are due.
-/
theorem Polls.before {before after : PriorityTimer queue} {tasks : List (Task Func)}
    {slowSkips : List SlowSkip} {fired skipped : List (TimerEntry Func)}
    (polls : Polls before after tasks slowSkips fired skipped [])
    : (queue.elements before.heap).Perm
      (fired ++ skipped ++ (queue.elements before.heap).filter fun entry => !entry.due before.now) := by
  have all := List.filter_append_perm (TimerEntry.due before.now) (queue.elements before.heap)
  have two := List.filter_append_perm (fun entry => !entry.skips before.now before.skipThreshold)
    ((queue.elements before.heap).filter (TimerEntry.due before.now))
  simp only [List.filter_filter, Bool.not_not] at two
  refine all.symm.trans (.append_right _ (two.symm.trans ?_))
  refine (List.Perm.append ?_ ?_).symm
  · refine polls.fires.trans (.of_eq (List.filter_congr fun entry _ => ?_))
    exact Bool.and_comm ..
  · refine polls.drops.trans (.of_eq (List.filter_congr fun entry _ => ?_))
    exact Bool.and_comm ..

section

variable {before after : PriorityTimer queue} {tasks : List (Task Func)} {slowSkips : List SlowSkip}
  {fired skipped rearmed : List (TimerEntry Func)} {entry : TimerEntry Func}

theorem Polls.mem_fired (polls : Polls before after tasks slowSkips fired skipped rearmed)
    (member : entry ∈ fired)
    : entry ∈ queue.elements before.heap :=
  List.mem_of_mem_filter (polls.fires.mem_iff.mp member)

/-- What is in the heap after a poll was there before it, or was armed again for what was. -/
theorem Polls.origin (polls : Polls before after tasks slowSkips fired skipped rearmed)
    (member : entry ∈ queue.elements after.heap)
    : ∃ old ∈ queue.elements before.heap, entry = old ∨ Rearms before.now old entry := by
  rcases List.mem_append.mp (List.mem_of_mem_filter (polls.heap.mem_iff.mp member)) with armed | kept
  · obtain ⟨old, chosen, rearms⟩ := exists_rearms polls.rearms armed
    exact ⟨old, polls.mem_fired (List.mem_of_mem_filter chosen), .inr rearms⟩
  · exact ⟨entry, kept, .inl rfl⟩

end

-- Cancellation

/-- What cancelling the first entry that is meant does, with the entry, if there is one. -/
structure Cancels (meant : TimerEntry Func → Bool) (before after : PriorityTimer queue) (found : Bool)
    (removed : Option (TimerEntry Func))
    : Prop where
  threshold : after.skipThreshold = before.skipThreshold
  clock : after.now = before.now
  found : found = removed.isSome
  heap : (queue.elements before.heap).Perm (removed.toList ++ queue.elements after.heap)
  chosen : ∀ entry ∈ removed, meant entry
  none_left : removed = none → ∀ entry ∈ queue.elements before.heap, ¬meant entry

/-- Every cancellation ends, and takes at most one entry out of the heap. -/
theorem cancelFirst_spec (meant : TimerEntry Func → Bool) (timer : PriorityTimer queue)
    : ∃ after found removed, timer.cancelFirst meant = some (after, found)
      ∧ Cancels meant timer after found removed := by
  obtain ⟨entries, emptied, drains, perm, -, none_left⟩ :=
    queue.drain_spec (fun _ => deadline_movedFrom)
      (Nat.lt_succ_self (queue.size timer.heap))
  have pushed := queue.elements_pushAll emptied (entries.eraseP meant)
  rw [none_left, List.append_nil] at pushed
  refine ⟨{ timer with heap := queue.pushAll emptied (entries.eraseP meant) }, entries.any meant,
    entries.find? meant, ?_, rfl, rfl, ?_, ?_, ?_, ?_⟩
  · rw [cancelFirst, drains]
    rfl
  · exact List.isSome_find?.symm
  · refine perm.symm.trans (.trans ?_ (pushed.symm.append_left _))
    rcases first : entries.find? meant with _ | entry
    · rw [List.eraseP_of_forall_not (List.find?_eq_none.mp first)]
      exact .rfl
    · obtain ⟨chosen, front, back, rfl, others⟩ := List.find?_eq_some_iff_append.mp first
      have not_in_front : ∀ other ∈ front, ¬meant other := fun other member => by
        simpa using others other member
      rw [List.eraseP_append_right _ not_in_front, List.eraseP_cons_of_pos chosen]
      exact List.perm_middle
  · exact fun entry first => List.find?_some first
  · exact fun missing entry member => List.find?_eq_none.mp missing entry (perm.mem_iff.mpr member)

-- Steps

/-- The entry that an event puts into the heap, if it does. -/
def added (timer : PriorityTimer queue) : TimerEvent Func → Option (TimerEntry Func)
  | .scheduleAt task deadline => some { task, deadline }
  | .scheduleIn task delay => some { task, deadline := timeAfter timer.now delay }
  | .schedulePeriodicEntry task period periodicId =>
      some { task, deadline := timeAfter timer.now period, period, periodicId }
  | _ => none

/-- What an event does. -/
inductive Takes (before after : PriorityTimer queue)
    : TimerEvent Func → List (TimerOutput Func) → Prop
  | advance (elapsed : Nat) (same : after = { before with now := before.now + elapsed })
    : Takes before after (.advance elapsed) []
  | drawId (same : after = { before with nextId := idAfter before.nextId })
    : Takes before after .drawId []
  | schedule {event : TimerEvent Func} {entry : TimerEntry Func} (adds : before.added event = some entry)
      (same : after = { before with heap := queue.push before.heap entry })
    : Takes before after event []
  | poll {tasks : List (Task Func)} {slowSkips : List SlowSkip}
      {fired skipped rearmed : List (TimerEntry Func)}
      (polls : Polls before after tasks slowSkips fired skipped rearmed)
    : Takes before after .getExpiredTasks (slowSkips.map .slowTask ++ [.expired tasks])
  | cancel (taskId : Nat) {found : Bool} {removed : Option (TimerEntry Func)}
      (cancels : Cancels (fun entry => entry.task.id = taskId) before after found removed)
    : Takes before after (.cancel taskId) [.cancelled found]
  | cancelPeriodic (periodicId : Nat) {found : Bool} {removed : Option (TimerEntry Func)}
      (cancels : Cancels (fun entry => entry.periodicId = periodicId) before after found removed)
    : Takes before after (.cancelPeriodic periodicId) [.cancelled found]

/-- Every call ends, a poll if no entry would fire over and over. -/
theorem exists_step (timer : PriorityTimer queue) (event : TimerEvent Func)
    (calm : event = .getExpiredTasks → timer.Calm)
    : ∃ after outputs, timer.step event = .ok (after, outputs) := by
  cases event with
  | advance | drawId | scheduleAt | scheduleIn | schedulePeriodicEntry => exact ⟨_, _, rfl⟩
  | getExpiredTasks =>
      obtain ⟨after, tasks, slowSkips, _, _, _, ends, -⟩ := getExpiredTasks_spec (calm rfl)
      exact ⟨after, _, by rw [step, ends]⟩
  | cancel taskId =>
      obtain ⟨after, found, _, ends, -⟩ :=
        cancelFirst_spec (fun entry : TimerEntry Func => entry.task.id = taskId) timer
      exact ⟨after, _, by rw [step, cancel, ends]⟩
  | cancelPeriodic periodicId =>
      obtain ⟨after, found, _, ends, -⟩ :=
        cancelFirst_spec (fun entry : TimerEntry Func => entry.periodicId = periodicId) timer
      exact ⟨after, _, by rw [step, cancelPeriodic, ends]⟩

theorem takes_of_step {timer after : PriorityTimer queue} {event : TimerEvent Func}
    {outputs : List (TimerOutput Func)} (taken : timer.step event = .ok (after, outputs))
    : Takes timer after event outputs := by
  cases event with
  | advance elapsed =>
      cases taken
      exact .advance elapsed rfl
  | drawId =>
      cases taken
      exact .drawId rfl
  | scheduleAt | scheduleIn | schedulePeriodicEntry =>
      cases taken
      exact .schedule rfl rfl
  | getExpiredTasks =>
      rw [step] at taken
      split at taken
      · cases taken
      · rename_i ends
        cases taken
        obtain ⟨fired, skipped, rearmed, polls⟩ := polls_of_getExpiredTasks ends
        exact .poll polls
  | cancel taskId =>
      obtain ⟨after', found, removed, ends, cancels⟩ :=
        cancelFirst_spec (fun entry : TimerEntry Func => entry.task.id = taskId) timer
      rw [step, cancel, ends] at taken
      cases taken
      exact .cancel taskId cancels
  | cancelPeriodic periodicId =>
      obtain ⟨after', found, removed, ends, cancels⟩ :=
        cancelFirst_spec (fun entry : TimerEntry Func => entry.periodicId = periodicId) timer
      rw [step, cancelPeriodic, ends] at taken
      cases taken
      exact .cancelPeriodic periodicId cancels

end PriorityTimer

end Creek.Framework
