import Mathlib

/-! Finite runs of a step function that may fail.
A run keeps its whole history, so that a property may compare any two of its steps, and a
side condition on a step may speak about the steps before it.
-/

namespace Creek.Library

/-- One step of a run: the state it was taken in, its event and its outputs. -/
structure Stage (σ ε ω : Type*) where
  before : σ
  event : ε
  outputs : List ω

/-- Everything a history has put out, in order. -/
def emitted {σ ε ω : Type*} (history : List (Stage σ ε ω)) : List ω :=
  history.flatMap Stage.outputs

section

variable {σ ε ω φ : Type*}

@[simp] theorem emitted_append (front back : List (Stage σ ε ω))
    : emitted (front ++ back) = emitted front ++ emitted back :=
  List.flatMap_append

@[simp] theorem emitted_singleton (stage : Stage σ ε ω) : emitted [stage] = stage.outputs := by
  simp [emitted]

/-- The runs from `start` whose steps are all allowed, each in view of the history before
it.
-/
inductive Run (step : σ → ε → Except φ (σ × List ω))
    (allowed : List (Stage σ ε ω) → σ → ε → Prop) (start : σ)
    : List (Stage σ ε ω) → σ → Prop
  | start : Run step allowed start [] start
  | next {history : List (Stage σ ε ω)} {state after : σ} {event : ε} {outputs : List ω}
      (run : Run step allowed start history state)
      (permitted : allowed history state event)
      (taken : step state event = .ok (after, outputs))
      : Run step allowed start (history ++ [{ before := state, event, outputs }]) after

namespace Run

variable {step : σ → ε → Except φ (σ × List ω)}
  {allowed : List (Stage σ ε ω) → σ → ε → Prop} {start state : σ}
  {history : List (Stage σ ε ω)}

/-- What holds at the start and is kept by every allowed step holds in every run.
The step may use that it extends a run.
-/
theorem invariant (holds : List (Stage σ ε ω) → σ → Prop) (initially : holds [] start)
    (kept : ∀ history state event after outputs, Run step allowed start history state
      → holds history state
      → allowed history state event
      → step state event = .ok (after, outputs)
      → holds (history ++ [{ before := state, event, outputs }]) after)
    (run : Run step allowed start history state)
    : holds history state := by
  induction run with
  | start => exact initially
  | next run permitted taken ih => exact kept _ _ _ _ _ run ih permitted taken

/-- What an invariant gives for every allowed step holds of every step of a run. -/
theorem forall_stage {holds : List (Stage σ ε ω) → σ → Prop} {property : Stage σ ε ω → Prop}
    (always : ∀ history state, Run step allowed start history state → holds history state)
    (each : ∀ history state event after outputs, holds history state
      → allowed history state event
      → step state event = .ok (after, outputs)
      → property { before := state, event, outputs })
    (run : Run step allowed start history state)
    : ∀ stage ∈ history, property stage := by
  induction run with
  | start => exact fun stage member => absurd member List.not_mem_nil
  | next run permitted taken ih =>
      intro stage member
      rcases List.mem_append.mp member with earlier | last
      · exact ih stage earlier
      · obtain rfl := List.mem_singleton.mp last
        exact each _ _ _ _ _ (always _ _ run) permitted taken

/-- Every step of a run was allowed after the run before it. -/
theorem at_stage {front back : List (Stage σ ε ω)} {stage : Stage σ ε ω}
    (run : Run step allowed start history state) (split : history = front ++ stage :: back)
    : Run step allowed start front stage.before
      ∧ allowed front stage.before stage.event
      ∧ ∃ after, step stage.before stage.event = .ok (after, stage.outputs) := by
  induction run generalizing back with
  | start => simp at split
  | @next earlier before after event outputs run permitted taken ih =>
      rcases List.eq_nil_or_concat back with rfl | ⟨rest, last, rfl⟩
      · obtain ⟨rfl, same⟩ := List.append_inj' split rfl
        obtain rfl := List.head_eq_of_cons_eq same
        exact ⟨run, permitted, after, taken⟩
      · rw [List.concat_eq_append, ← List.cons_append, ← List.append_assoc] at split
        exact ih (List.append_inj' split rfl).1

/-- The state before each step of a run is reached by a run. -/
theorem of_mem {stage : Stage σ ε ω} (run : Run step allowed start history state)
    (member : stage ∈ history)
    : ∃ front, Run step allowed start front stage.before := by
  obtain ⟨front, back, split⟩ := List.append_of_mem member
  exact ⟨front, (run.at_stage split).1⟩

/-- A run stays a run under a weaker side condition. -/
theorem mono {weaker : List (Stage σ ε ω) → σ → ε → Prop}
    (implied : ∀ history state event, allowed history state event → weaker history state event)
    (run : Run step allowed start history state)
    : Run step weaker start history state := by
  induction run with
  | start => exact .start
  | next run permitted taken ih => exact .next ih (implied _ _ _ permitted) taken

end Run

/-- What holds in every state that a run has passed through, each in view of the history before it.
-/
def Throughout (holds : List (Stage σ ε ω) → σ → Prop) (history : List (Stage σ ε ω)) (last : σ)
    : Prop :=
  (∀ front stage back, history = front ++ stage :: back → holds front stage.before)
    ∧ holds history last

/-- What holds of every run holds throughout each. -/
theorem Run.throughout {step : σ → ε → Except φ (σ × List ω)}
    {allowed : List (Stage σ ε ω) → σ → ε → Prop} {start last : σ} {history : List (Stage σ ε ω)}
    {holds : List (Stage σ ε ω) → σ → Prop}
    (always : ∀ history state, Run step allowed start history state → holds history state)
    (run : Run step allowed start history last)
    : Throughout holds history last :=
  ⟨fun front stage _ split => always front stage.before (run.at_stage split).1,
    always history last run⟩

/-- A longer run passes through the states of the shorter one and one more. -/
theorem throughout_append {holds : List (Stage σ ε ω) → σ → Prop} {history : List (Stage σ ε ω)}
    {stage : Stage σ ε ω} {last : σ}
    : Throughout holds (history ++ [stage]) last
      ↔ Throughout holds history stage.before ∧ holds (history ++ [stage]) last := by
  constructor
  · rintro ⟨earlier, final⟩
    refine ⟨⟨?_, earlier history stage [] rfl⟩, final⟩
    intro front middle back split
    refine earlier front middle (back ++ [stage]) ?_
    rw [split, List.append_assoc, List.cons_append]
  · rintro ⟨⟨earlier, before⟩, final⟩
    refine ⟨?_, final⟩
    intro front middle back split
    rcases List.eq_nil_or_concat back with rfl | ⟨rest, end_, rfl⟩
    · obtain ⟨rfl, same⟩ := List.append_inj' split rfl
      obtain rfl := List.head_eq_of_cons_eq same
      exact before
    · rw [List.concat_eq_append, ← List.cons_append, ← List.append_assoc] at split
      exact earlier front middle rest (List.append_inj' split rfl).1

namespace Run

variable {step : σ → ε → Except φ (σ × List ω)}
  {allowed : List (Stage σ ε ω) → σ → ε → Prop} {start state : σ}
  {history : List (Stage σ ε ω)}

/-- What every allowed step keeps exactly when it is sound after the steps before it holds throughout a
run exactly when all of its steps are.
-/
theorem throughout_iff_split {holds : List (Stage σ ε ω) → σ → Prop}
    {sound : List (Stage σ ε ω) → Stage σ ε ω → Prop} (initially : holds [] start)
    (each : ∀ history state event after outputs, Run step allowed start history state
      → holds history state
      → allowed history state event
      → step state event = .ok (after, outputs)
      → (holds (history ++ [{ before := state, event, outputs }]) after
        ↔ sound history { before := state, event, outputs }))
    (run : Run step allowed start history state)
    : Throughout holds history state
      ↔ ∀ front stage back, history = front ++ stage :: back → sound front stage := by
  induction run with
  | start =>
      constructor
      · intro _ front stage back split
        cases (List.append_eq_nil_iff.mp split.symm).2
      · refine fun _ => ⟨?_, initially⟩
        intro front stage back split
        cases (List.append_eq_nil_iff.mp split.symm).2
  | @next history before after event outputs run permitted taken ih =>
      rw [throughout_append, ih]
      constructor
      · rintro ⟨earlier, final⟩ front stage back split
        have kept := (ih.mpr earlier).2
        rcases List.eq_nil_or_concat back with rfl | ⟨rest, last, rfl⟩
        · obtain ⟨rfl, same⟩ := List.append_inj' split rfl
          rw [← List.head_eq_of_cons_eq same]
          exact (each _ _ _ _ _ run kept permitted taken).mp final
        · rw [List.concat_eq_append, ← List.cons_append, ← List.append_assoc] at split
          exact earlier front stage rest (List.append_inj' split rfl).1
      · intro all
        have earlier : ∀ front stage back, history = front ++ stage :: back → sound front stage := by
          intro front stage back split
          refine all front stage (back ++ [{ before := before, event := event, outputs := outputs }]) ?_
          rw [split, List.append_assoc, List.cons_append]
        refine ⟨earlier, ?_⟩
        exact (each _ _ _ _ _ run (ih.mpr earlier).2 permitted taken).mpr (all history _ [] rfl)

/-- What every allowed step keeps exactly when it is sound holds throughout a run exactly when all of
its steps are sound.
-/
theorem throughout_iff {holds : List (Stage σ ε ω) → σ → Prop} {sound : Stage σ ε ω → Prop}
    (initially : holds [] start)
    (each : ∀ history state event after outputs, Run step allowed start history state
      → holds history state
      → allowed history state event
      → step state event = .ok (after, outputs)
      → (holds (history ++ [{ before := state, event, outputs }]) after
        ↔ sound { before := state, event, outputs }))
    (run : Run step allowed start history state)
    : Throughout holds history state ↔ ∀ stage ∈ history, sound stage := by
  have positions : Throughout holds history state
      ↔ ∀ front stage back, history = front ++ stage :: back → sound stage :=
    run.throughout_iff_split initially each
  rw [positions]
  constructor
  · intro all stage member
    obtain ⟨front, back, split⟩ := List.append_of_mem member
    exact all front stage back split
  · intro all front stage back split
    exact all stage (split ▸ List.mem_append_right _ List.mem_cons_self)

end Run

/-- Some step of a history began something, and every step since lets it last. -/
def Since (began lasts : Stage σ ε ω → Prop) (history : List (Stage σ ε ω)) : Prop :=
  ∃ front stage back, history = front ++ stage :: back
    ∧ began stage
    ∧ ∀ later ∈ back, lasts later

theorem not_since_nil {began lasts : Stage σ ε ω → Prop} : ¬Since began lasts [] := by
  rintro ⟨front, stage, back, split, -⟩
  cases (List.append_eq_nil_iff.mp split.symm).2

/-- One more step begins it, or lets it last. -/
theorem since_append {began lasts : Stage σ ε ω → Prop} {history : List (Stage σ ε ω)}
    {stage : Stage σ ε ω}
    : Since began lasts (history ++ [stage])
      ↔ began stage ∨ Since began lasts history ∧ lasts stage := by
  constructor
  · rintro ⟨front, first, back, split, begins, since⟩
    rcases List.eq_nil_or_concat back with rfl | ⟨rest, final, rfl⟩
    · have same := (List.append_inj' split rfl).2
      exact .inl (List.head_eq_of_cons_eq same ▸ begins)
    · rw [List.concat_eq_append, ← List.cons_append, ← List.append_assoc] at split
      obtain ⟨earlier, same⟩ := List.append_inj' split rfl
      obtain rfl := List.head_eq_of_cons_eq same
      refine .inr ⟨⟨front, first, rest, earlier, begins, ?_⟩, ?_⟩
      · intro later member
        exact since later (List.concat_eq_append ▸ List.mem_append_left _ member)
      · exact since stage (List.concat_eq_append ▸ List.mem_append_right _ List.mem_cons_self)
  · rintro (begins | ⟨⟨front, first, back, rfl, begins, since⟩, lasting⟩)
    · exact ⟨history, stage, [], rfl, begins, fun later member => absurd member List.not_mem_nil⟩
    · refine ⟨front, first, back ++ [stage], ?_, begins, ?_⟩
      · rw [List.append_assoc, List.cons_append]
      · intro later member
        rcases List.mem_append.mp member with earlier | last
        · exact since later earlier
        · exact List.mem_singleton.mp last ▸ lasting

/-- Runs a list of events: the history and the state reached, or the first failure. -/
def execute (step : σ → ε → Except φ (σ × List ω)) (state : σ)
    : List ε → Except φ (List (Stage σ ε ω) × σ)
  | [] => .ok ([], state)
  | event :: events =>
      match step state event with
      | .error fault => .error fault
      | .ok (after, outputs) =>
          match execute step after events with
          | .error fault => .error fault
          | .ok (history, last) => .ok ({ before := state, event, outputs } :: history, last)

/-- The first step of an execution, and the execution after it. -/
theorem execute_cons {step : σ → ε → Except φ (σ × List ω)} {state last : σ} {event : ε}
    {events : List ε} {history : List (Stage σ ε ω)}
    (executed : execute step state (event :: events) = .ok (history, last))
    : ∃ after outputs rest, step state event = .ok (after, outputs)
        ∧ execute step after events = .ok (rest, last)
        ∧ history = { before := state, event, outputs } :: rest := by
  rw [execute] at executed
  rcases taken : step state event with fault | ⟨after, outputs⟩
  · rw [taken] at executed
    cases executed
  · rcases ran : execute step after events with fault | ⟨rest, later⟩
    · simp only [taken, ran] at executed
      cases executed
    · simp only [taken, ran] at executed
      cases executed
      exact ⟨after, outputs, rest, rfl, ran, rfl⟩

/-- An execution extends a run. Witness: one more step moves the head of the execution to the
end of the run.
-/
theorem Run.extend {step : σ → ε → Except φ (σ × List ω)} {start state last : σ}
    {front history : List (Stage σ ε ω)} {events : List ε}
    (run : Run step (fun _ _ _ => True) start front state)
    (executed : execute step state events = .ok (history, last))
    : Run step (fun _ _ _ => True) start (front ++ history) last := by
  induction events generalizing front state history with
  | nil =>
      cases executed
      rw [List.append_nil]
      exact run
  | cons event events ih =>
      obtain ⟨after, outputs, rest, taken, ran, rfl⟩ := execute_cons executed
      have longer := ih (.next run trivial taken) ran
      rwa [List.append_assoc] at longer

/-- The events of an execution are the events executed. -/
theorem execute_events {step : σ → ε → Except φ (σ × List ω)} {state last : σ} {events : List ε}
    {history : List (Stage σ ε ω)} (executed : execute step state events = .ok (history, last))
    : history.map Stage.event = events := by
  induction events generalizing state history with
  | nil =>
      cases executed
      rfl
  | cons event events ih =>
      obtain ⟨after, outputs, rest, -, ran, rfl⟩ := execute_cons executed
      rw [List.map_cons, ih ran]

/-- Whether a list of events executes to a history that passes a check. -/
def shows (step : σ → ε → Except φ (σ × List ω)) (start : σ) (events : List ε)
    (check : List (Stage σ ε ω) → Bool)
    : Bool :=
  match execute step start events with
  | .error _ => false
  | .ok (history, _) => check history

/-- What executes is an unrestricted run. -/
theorem Run.of_shows {step : σ → ε → Except φ (σ × List ω)} {start : σ} {events : List ε}
    {check : List (Stage σ ε ω) → Bool} (shown : shows step start events check = true)
    : ∃ history last, Run step (fun _ _ _ => True) start history last ∧ check history = true := by
  unfold shows at shown
  rcases executed : execute step start events with fault | ⟨history, last⟩
  · rw [executed] at shown
    cases shown
  · rw [executed] at shown
    exact ⟨history, last, Run.extend .start executed, shown⟩

/-- Whether every step of a history passes a check in view of the steps before it. -/
def audit (check : List (Stage σ ε ω) → σ → ε → Bool) (front : List (Stage σ ε ω))
    : List (Stage σ ε ω) → Bool
  | [] => true
  | stage :: rest =>
      check front stage.before stage.event && audit check (front ++ [stage]) rest

/-- An unrestricted run whose steps pass a check is a run under what the check implies. -/
theorem Run.of_audit {step : σ → ε → Except φ (σ × List ω)}
    {allowed : List (Stage σ ε ω) → σ → ε → Prop} {start state : σ}
    {history : List (Stage σ ε ω)} {check : List (Stage σ ε ω) → σ → ε → Bool}
    (run : Run step (fun _ _ _ => True) start history state)
    (sound : ∀ front before event, check front before event = true → allowed front before event)
    (passes : audit check [] history = true)
    : Run step allowed start history state := by
  have last : ∀ (back front : List (Stage σ ε ω)) (stage : Stage σ ε ω),
      audit check front (back ++ [stage]) = true
      → audit check front back = true
        ∧ check (front ++ back) stage.before stage.event = true := by
    intro back
    induction back with
    | nil =>
        intro front stage passes
        simpa [audit] using passes
    | cons first rest ih =>
        intro front stage passes
        simp only [List.cons_append, audit, Bool.and_eq_true] at passes ⊢
        obtain ⟨earlier, final⟩ := ih _ stage passes.2
        exact ⟨⟨passes.1, earlier⟩, by simpa using final⟩
  induction run with
  | start => exact .start
  | next run permitted taken ih =>
      obtain ⟨earlier, final⟩ := last _ _ _ passes
      exact .next (ih earlier) (sound _ _ _ final) taken

end

end Creek.Library
