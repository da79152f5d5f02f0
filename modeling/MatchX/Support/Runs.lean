import Mathlib.Data.List.Basic
import Mathlib.Logic.Relation

/-!
# Runs of a step function

A step function maps a state and an action to the next state, and may fail. `Reached` holds of
the states reached from a start by completed steps that are allowed. A property that holds of
the start and is kept by every allowed step holds of every state reached; a finite run whose
steps pass a decidable check reaches its last state. Where one step function simulates another,
possibly in several steps, what one reaches is matched by what the other reaches.
-/

namespace MatchX.Support

variable {σ α ε : Type} {start : σ → Prop} {step : σ → α → Except ε σ}
  {allowed allowed' : σ → α → Prop}

/-- The states reached from a start by completed steps that are allowed. -/
inductive Reached (start : σ → Prop) (step : σ → α → Except ε σ) (allowed : σ → α → Prop) :
    σ → Prop
  /-- A start is reached. -/
  | start {state : σ} (initial : start state) : Reached start step allowed state
  /-- An allowed step that completes reaches the state it leads to. -/
  | step {state following : σ} {action : α} (reached : Reached start step allowed state)
      (fits : allowed state action) (completed : step state action = .ok following) :
      Reached start step allowed following

/-- What holds at the start and is kept by every allowed step holds wherever a run gets. -/
@[elab_as_elim]
theorem Reached.invariant {inv : σ → Prop} (initial : ∀ state, start state → inv state)
    (kept : ∀ state action following, inv state → allowed state action →
      step state action = .ok following → inv following)
    {state : σ} (reached : Reached start step allowed state) : inv state := by
  induction reached with
  | start begins => exact initial _ begins
  | step _ fits completed held => exact kept _ _ _ held fits completed

/-- A state reached by steps that meet a condition is reached by steps that meet a weaker
one. -/
theorem Reached.mono (weaker : ∀ state action, allowed state action → allowed' state action)
    {state : σ} (reached : Reached start step allowed state) :
    Reached start step allowed' state := by
  induction reached with
  | start begins => exact .start begins
  | step _ fits completed held => exact .step held (weaker _ _ fits) completed

/-- Completed steps that are allowed lead from one state to another. -/
def Leads (step : σ → α → Except ε σ) (allowed : σ → α → Prop) : σ → σ → Prop :=
  Relation.ReflTransGen fun state following =>
    ∃ action, allowed state action ∧ step state action = .ok following

/-- A step leads to the next state. -/
theorem Leads.one {state following : σ} (action : α) (fits : allowed state action)
    (completed : step state action = .ok following) : Leads step allowed state following :=
  .single ⟨action, fits, completed⟩

/-- What a state that is reached leads to is reached. -/
theorem Reached.leads {state later : σ} (reached : Reached start step allowed state)
    (leads : Leads step allowed state later) : Reached start step allowed later := by
  induction leads with
  | refl => exact reached
  | tail _ next held =>
    obtain ⟨action, fits, completed⟩ := next
    exact held.step fits completed

/-- What is reached from one state the steps lead to from there. -/
theorem Reached.leads_from {state later : σ} (reached : Reached (· = state) step allowed later) :
    Leads step allowed state later := by
  induction reached with
  | start begins => exact begins ▸ .refl
  | step _ fits completed ih => exact ih.tail ⟨_, fits, completed⟩

/-- Where every allowed step of one function is matched by steps of another, every state that one
reaches is matched by a state that the other reaches. -/
theorem Reached.simulates {τ β δ : Type} {start' : τ → Prop} {step' : τ → β → Except δ τ}
    {allowed'' : τ → β → Prop} (agrees : σ → τ → Prop)
    (initial : ∀ state, start state → ∃ other, start' other ∧ agrees state other)
    (matched : ∀ state action following other, agrees state other → allowed state action →
      step state action = .ok following →
        ∃ later, Leads step' allowed'' other later ∧ agrees following later)
    {state : σ} (reached : Reached start step allowed state) :
    ∃ other, Reached start' step' allowed'' other ∧ agrees state other := by
  induction reached with
  | start begins =>
    obtain ⟨other, begins', same⟩ := initial _ begins
    exact ⟨other, .start begins', same⟩
  | step _ fits completed held =>
    obtain ⟨other, reached', same⟩ := held
    obtain ⟨later, leads, same'⟩ := matched _ _ _ other same fits completed
    exact ⟨later, reached'.leads leads, same'⟩

/-- A computation that shows a value returned it. -/
theorem ok_of_toOption {β : Type} {computed : Except ε β} {value : β}
    (shown : computed.toOption = some value) : computed = .ok value := by
  cases computed with
  | error fault => contradiction
  | ok result => exact congrArg Except.ok (Option.some.inj shown)

/-- Run a list of actions, as long as each passes a check and completes. -/
def checkedRun (check : σ → α → Bool) (step : σ → α → Except ε σ) : List α → σ → Option σ
  | [], state => some state
  | action :: rest, state =>
    if check state action then
      match step state action with
      | .ok following => checkedRun check step rest following
      | .error _ => none
    else none

/-- A run whose steps pass a check for being allowed reaches its last state. -/
theorem Reached.checkedRun {check : σ → α → Bool}
    (sound : ∀ state action, check state action = true → allowed state action)
    {actions : List α} {state last : σ} (reached : Reached start step allowed state)
    (runs : checkedRun check step actions state = some last) :
    Reached start step allowed last := by
  induction actions generalizing state with
  | nil => exact Option.some.inj runs ▸ reached
  | cons action rest ih =>
    simp only [Support.checkedRun] at runs
    split at runs
    · rename_i passes
      split at runs
      · rename_i following completed
        exact ih (reached.step (sound _ _ passes) completed) runs
      · contradiction
    · contradiction

/-- A run whose steps pass a check and whose last state passes a test reaches such a state. -/
theorem Reached.exists_checkedRun (check : σ → α → Bool) (test : σ → Bool)
    (sound : ∀ state action, check state action = true → allowed state action)
    {state : σ} (initial : start state) (actions : List α)
    (passes : (Support.checkedRun check step actions state).any test = true) :
    ∃ last, Reached start step allowed last ∧ test last = true := by
  obtain ⟨last, runs, tested⟩ := (Option.any_eq_true _ _).mp passes
  exact ⟨last, (Reached.start initial).checkedRun sound runs, tested⟩

/-- Every step of a run of given actions meets a condition, as long as the steps complete. -/
def Along (allowed : σ → α → Prop) (step : σ → α → Except ε σ) : List α → σ → Prop
  | [], _ => True
  | action :: rest, state => allowed state action ∧
    ∀ following, step state action = .ok following → Along allowed step rest following

/-- A run whose steps pass a check for the condition meets it along the way. -/
theorem Along.of_checkedRun {check : σ → α → Bool}
    (sound : ∀ state action, check state action = true → allowed state action)
    {actions : List α} {state last : σ}
    (runs : Support.checkedRun check step actions state = some last) :
    Along allowed step actions state := by
  induction actions generalizing state with
  | nil => trivial
  | cons action rest ih =>
    simp only [Support.checkedRun] at runs
    split at runs
    · rename_i passes
      refine ⟨sound _ _ passes, fun following completed => ih ?_⟩
      rw [completed] at runs
      exact runs
    · contradiction

/-! ## Traces -/

/-- A run from a start with the steps it has completed, latest first: each step's state and
action. -/
inductive Trace (start : σ → Prop) (step : σ → α → Except ε σ) : List (σ × α) → σ → Prop
  /-- No step is completed at a start. -/
  | start {state : σ} (initial : start state) : Trace start step [] state
  /-- A step that completes is the latest one. -/
  | step {calls : List (σ × α)} {state following : σ} {action : α}
      (trace : Trace start step calls state) (completed : step state action = .ok following) :
      Trace start step ((state, action) :: calls) following

/-- What holds at the start and is kept by every step holds at every step of a run and at its end. -/
theorem Trace.invariant {inv : σ → Prop} (initial : ∀ state, start state → inv state)
    (kept : ∀ state action following, inv state → step state action = .ok following →
      inv following)
    {calls : List (σ × α)} {last : σ} (trace : Trace start step calls last) :
    inv last ∧ ∀ call ∈ calls, inv call.1 ∧ ∃ following, step call.1 call.2 = .ok following := by
  induction trace with
  | start begins => exact ⟨initial _ begins, by simp⟩
  | step _ completed held =>
    obtain ⟨holds, earlier⟩ := held
    refine ⟨kept _ _ _ holds completed, fun call member => ?_⟩
    rcases List.mem_cons.mp member with rfl | before
    · exact ⟨holds, _, completed⟩
    · exact earlier call before

/-- A list of actions that pass a check and complete is a run, whose steps pass the check. -/
theorem Trace.checkedRun {check : σ → α → Bool} {actions : List α} {calls : List (σ × α)}
    {state last : σ} (trace : Trace start step calls state)
    (passed : ∀ call ∈ calls, check call.1 call.2 = true)
    (runs : Support.checkedRun check step actions state = some last) :
    ∃ calls', Trace start step calls' last ∧ ∀ call ∈ calls', check call.1 call.2 = true := by
  induction actions generalizing state calls with
  | nil => exact ⟨calls, Option.some.inj runs ▸ trace, passed⟩
  | cons action rest ih =>
    simp only [Support.checkedRun] at runs
    split at runs
    · rename_i passes
      split at runs
      · rename_i following completed
        refine ih (trace.step completed) (fun call member => ?_) runs
        rcases List.mem_cons.mp member with rfl | earlier
        · exact passes
        · exact passed call earlier
      · contradiction
    · contradiction

/-- Actions that pass a check and whose last state passes a test are such a run. -/
theorem Trace.exists_checkedRun (check : σ → α → Bool) (test : σ → Bool) {state : σ}
    (initial : start state) (actions : List α)
    (passes : (Support.checkedRun check step actions state).any test = true) :
    ∃ calls last, Trace start step calls last ∧ (∀ call ∈ calls, check call.1 call.2 = true) ∧
      test last = true := by
  obtain ⟨last, runs, tested⟩ := (Option.any_eq_true _ _).mp passes
  obtain ⟨calls, trace, passed⟩ := (Trace.start initial).checkedRun (by simp) runs
  exact ⟨calls, last, trace, passed, tested⟩

end MatchX.Support
