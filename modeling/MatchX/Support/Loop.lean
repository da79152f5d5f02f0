import Mathlib.Logic.Relation

/-!
# Loops with an exit value

A loop body maps a state either to the next state or to the value the loop exits with, and
may fail. `loop` runs a body for at most a given number of iterations; running out of them
is a failure of its own, so a value returned by `loop` is the value the unbounded loop
returns. `Visits` relates a state to every state a later iteration starts from. The rules
below are the invariant rule, its form with the visited states at hand, the rule from the exit
back, and termination by a decreasing measure. `LoopEnds` says what a loop ends with however many
iterations it takes.
-/

namespace MatchX.Support

/-- What one iteration of a loop body decides. -/
inductive Flow (σ ρ : Type) where
  /-- Start another iteration from this state. -/
  | next (state : σ)
  /-- Leave the loop with this value. -/
  | done (result : ρ)

variable {ε σ ρ : Type}

/-- Iterate a body at most `fuel` times; `exhausted` is the failure of the bound. -/
def loop (exhausted : ε) (body : σ → Except ε (Flow σ ρ)) : Nat → σ → Except ε ρ
  | 0, _ => .error exhausted
  | fuel + 1, state =>
    match body state with
    | .error fault => .error fault
    | .ok (.next following) => loop exhausted body fuel following
    | .ok (.done result) => .ok result

/-- Some iteration of the loop entered at the first state starts from the second one. -/
def Visits (body : σ → Except ε (Flow σ ρ)) : σ → σ → Prop :=
  Relation.ReflTransGen fun state following => body state = .ok (.next following)

/-- A loop entered at a state visits that state. -/
theorem Visits.refl (body : σ → Except ε (Flow σ ρ)) (state : σ) : Visits body state state :=
  Relation.ReflTransGen.refl

/-- The states visited after one iteration are visited. -/
theorem Visits.head {body : σ → Except ε (Flow σ ρ)} {state following later : σ}
    (step : body state = .ok (.next following)) (rest : Visits body following later) :
    Visits body state later :=
  Relation.ReflTransGen.head step rest

/-- The state after an iteration from a visited state is visited. -/
theorem Visits.tail {body : σ → Except ε (Flow σ ρ)} {state later following : σ}
    (visits : Visits body state later) (step : body later = .ok (.next following)) :
    Visits body state following :=
  Relation.ReflTransGen.tail visits step

/-- A property kept by every iteration holds of every visited state. -/
theorem Visits.invariant {body : σ → Except ε (Flow σ ρ)} {inv : σ → Prop}
    (kept : ∀ state following, inv state → body state = .ok (.next following) → inv following)
    {start later : σ} (initial : inv start) (visits : Visits body start later) : inv later := by
  induction visits with
  | refl => exact initial
  | tail _ step held => exact kept _ _ held step

variable {exhausted : ε} {body : σ → Except ε (Flow σ ρ)}

/-- A loop that returns has visited a state whose iteration left the loop with the value
returned. -/
theorem loop_exit {fuel : Nat} {start : σ} {result : ρ}
    (returned : loop exhausted body fuel start = .ok result) :
    ∃ last, Visits body start last ∧ body last = .ok (.done result) := by
  induction fuel generalizing start with
  | zero => simp [loop] at returned
  | succ fuel ih =>
    simp only [loop] at returned
    split at returned
    · contradiction
    · rename_i following step
      obtain ⟨last, visits, exit⟩ := ih returned
      exact ⟨last, visits.head step, exit⟩
    · rename_i value step
      obtain rfl := Except.ok.inj returned
      exact ⟨start, Visits.refl _ _, step⟩

/-- A loop that fails has run out of iterations, or its body fails at a state it has visited. -/
theorem loop_error {fuel : Nat} {start : σ} {fault : ε}
    (failed : loop exhausted body fuel start = .error fault) :
    fault = exhausted ∨ ∃ last, Visits body start last ∧ body last = .error fault := by
  induction fuel generalizing start with
  | zero => exact .inl (Except.error.inj failed).symm
  | succ fuel ih =>
    simp only [loop] at failed
    split at failed
    · rename_i other step
      obtain rfl := Except.error.inj failed
      exact .inr ⟨start, Visits.refl _ _, step⟩
    · rename_i following step
      obtain spent | ⟨last, visits, stops⟩ := ih failed
      · exact .inl spent
      · exact .inr ⟨last, visits.head step, stops⟩
    · contradiction

/-- A computation that fails fails in its first part, or in its second one. -/
theorem bind_error {α β : Type} {first : Except ε α} {second : α → Except ε β} {fault : ε}
    (failed : (first >>= second) = .error fault) :
    first = .error fault ∨ ∃ value, first = .ok value ∧ second value = .error fault := by
  cases first with
  | error other => exact .inl (congrArg Except.error (Except.error.inj failed))
  | ok value => exact .inr ⟨value, rfl, failed⟩

/-- A computation that succeeds succeeds in both of its parts. -/
theorem bind_ok {α β : Type} {first : Except ε α} {second : α → Except ε β} {result : β}
    (returned : (first >>= second) = .ok result) :
    ∃ value, first = .ok value ∧ second value = .ok result := by
  cases first with
  | error fault => cases returned
  | ok value => exact ⟨value, rfl, returned⟩

/-- A loop whose first iteration is its last one visits no other state. -/
theorem Visits.eq_start {start later : σ} (last : ∀ following, body start ≠ .ok (.next following))
    (visits : Visits body start later) : later = start := by
  cases Relation.ReflTransGen.cases_head visits with
  | inl same => exact same.symm
  | inr step =>
    obtain ⟨following, step, -⟩ := step
    exact absurd step (last following)

/-- A loop that returns goes on from every state it visits to the same value. -/
theorem Visits.returns {fuel : Nat} {start later : σ} {result : ρ}
    (visits : Visits body start later)
    (returned : loop exhausted body fuel start = .ok result) :
    ∃ fuel', loop exhausted body (fuel' + 1) later = .ok result := by
  induction fuel generalizing start with
  | zero => simp [loop] at returned
  | succ fuel ih =>
    cases Relation.ReflTransGen.cases_head visits with
    | inl same => exact ⟨fuel, same ▸ returned⟩
    | inr step =>
      obtain ⟨following, step, rest⟩ := step
      simp only [loop, step] at returned
      exact ih rest returned

/-- The states from which the iterations of a loop start, in order. -/
def states (body : σ → Except ε (Flow σ ρ)) : Nat → σ → List σ
  | 0, _ => []
  | fuel + 1, state =>
    state :: match body state with
      | .ok (.next following) => states body fuel following
      | _ => []

/-- The states that a loop visits before it returns are the ones listed. -/
theorem Visits.mem_states {fuel : Nat} {start later : σ} {result : ρ}
    (visits : Visits body start later)
    (returned : loop exhausted body fuel start = .ok result) : later ∈ states body fuel start := by
  induction fuel generalizing start with
  | zero => simp [loop] at returned
  | succ fuel ih =>
    cases Relation.ReflTransGen.cases_head visits with
    | inl same => exact same ▸ List.mem_cons_self
    | inr step =>
      obtain ⟨following, step, rest⟩ := step
      simp only [loop, step] at returned
      simp only [states, step]
      exact List.mem_cons_of_mem _ (ih rest returned)

/-- The state whose iteration leaves the loop, if one does. -/
def lastState (body : σ → Except ε (Flow σ ρ)) : Nat → σ → Option σ
  | 0, _ => none
  | fuel + 1, state =>
    match body state with
    | .ok (.next following) => lastState body fuel following
    | .ok (.done _) => some state
    | .error _ => none

/-- A loop that returns leaves at its last state, with the value returned. -/
theorem lastState_of_loop {fuel : Nat} {start : σ} {result : ρ}
    (returned : loop exhausted body fuel start = .ok result) :
    ∃ last, lastState body fuel start = some last ∧ Visits body start last ∧
      body last = .ok (.done result) := by
  induction fuel generalizing start with
  | zero => simp [loop] at returned
  | succ fuel ih =>
    simp only [loop] at returned
    split at returned
    · contradiction
    · rename_i following step
      obtain ⟨last, found, visits, exit⟩ := ih returned
      exact ⟨last, by simp only [lastState, step, found], visits.head step, exit⟩
    · rename_i value step
      obtain rfl := Except.ok.inj returned
      exact ⟨start, by simp only [lastState, step], Visits.refl _ _, step⟩

/-- The flow with its states and its exit value mapped. -/
def Flow.map {σ' ρ' : Type} (onState : σ → σ') (onExit : ρ → ρ') : Flow σ ρ → Flow σ' ρ'
  | .next state => .next (onState state)
  | .done result => .done (onExit result)

/-- A loop whose body follows another body under a map of states follows the other loop. -/
theorem loop_map {σ' ρ' : Type} {body' : σ' → Except ε (Flow σ' ρ')} {onState : σ → σ'}
    {onExit : ρ → ρ'}
    (follows : ∀ state, (body state).map (Flow.map onState onExit) = body' (onState state))
    (fuel : Nat) (start : σ) :
    (loop exhausted body fuel start).map onExit = loop exhausted body' fuel (onState start) := by
  induction fuel generalizing start with
  | zero => rfl
  | succ fuel ih =>
    simp only [loop, ← follows]
    cases body start with
    | error fault => rfl
    | ok flow =>
      cases flow with
      | next following => exact ih following
      | done result => rfl

/-- Two bodies that agree on every state in reach have the same loops. -/
theorem loop_congr {body' : σ → Except ε (Flow σ ρ)} {inv : σ → Prop}
    (agree : ∀ state, inv state → body' state = body state)
    (kept : ∀ state following, inv state → body state = .ok (.next following) → inv following)
    {fuel : Nat} {start : σ} (initial : inv start) :
    loop exhausted body' fuel start = loop exhausted body fuel start := by
  induction fuel generalizing start with
  | zero => rfl
  | succ fuel ih =>
    simp only [loop, agree start initial]
    cases step : body start with
    | error fault => rfl
    | ok flow =>
      cases flow with
      | next following => exact ih (kept start following initial step)
      | done result => rfl

/-- A computation whose two parts each follow another one under maps of their values follows it as
a whole. -/
theorem follows_bind {α α' β β' : Type} {first : Except ε α} {first' : Except ε α'}
    {second : α → Except ε β} {second' : α' → Except ε β'} {onFirst : α → α'} {onSecond : β → β'}
    (begins : first' = first.map onFirst)
    (goesOn : ∀ value, first = .ok value → second' (onFirst value) = (second value).map onSecond) :
    (first' >>= second') = (first >>= second).map onSecond := by
  subst begins
  cases first with
  | error fault => rfl
  | ok value => exact goesOn value rfl

/-- Two computations with the same first part follow one another as their second parts do. -/
theorem follows_second {α β β' : Type} {first : Except ε α} {second : α → Except ε β}
    {second' : α → Except ε β'} {onSecond : β → β'}
    (goesOn : ∀ value, first = .ok value → second' value = (second value).map onSecond) :
    (first >>= second') = (first >>= second).map onSecond :=
  follows_bind (congrFun Except.map_id first).symm goesOn

/-- The invariant rule: what every iteration keeps, and every exit turns into the
postcondition, gives the postcondition of the value returned. -/
theorem loop_rule {inv : σ → Prop} {post : ρ → Prop}
    (kept : ∀ state following, inv state → body state = .ok (.next following) → inv following)
    (exits : ∀ state result, inv state → body state = .ok (.done result) → post result)
    {fuel : Nat} {start : σ} {result : ρ} (initial : inv start)
    (returned : loop exhausted body fuel start = .ok result) : post result := by
  obtain ⟨last, visits, exit⟩ := loop_exit returned
  exact exits last result (visits.invariant kept initial) exit

section Avoids

variable {β γ : Type} {fault : ε}

/-- A computation does not fail in the given way. -/
def Avoids (fault : ε) (computed : Except ε β) : Prop := computed ≠ .error fault

/-- A value is no failure. -/
theorem Avoids.ok (value : β) : Avoids fault (.ok value : Except ε β) := by
  simp [Avoids]

/-- Another failure is not the given one. -/
theorem Avoids.error {other : ε} (apart : other ≠ fault) :
    Avoids fault (.error other : Except ε β) := by
  simpa [Avoids] using apart

/-- A computation followed by another one fails in the given way in neither. -/
theorem Avoids.bind {computed : Except ε β} {further : β → Except ε γ}
    (first : Avoids fault computed)
    (second : ∀ value, computed = .ok value → Avoids fault (further value)) :
    Avoids fault (computed >>= further) := by
  cases computed with
  | error other => exact fun failed => first (by simpa [Bind.bind, Except.bind] using failed)
  | ok value => exact second value rfl

end Avoids

/-- A measure that falls with every further iteration bounds the iterations: with more fuel than
the measure of its start, a loop whose body does not exhaust its own fuel does not exhaust its. -/
theorem loop_avoids {inv : σ → Prop} {measure : σ → Nat}
    (steps : ∀ state, inv state → Avoids exhausted (body state))
    (kept : ∀ state following, inv state → body state = .ok (.next following) →
      inv following ∧ measure following < measure state)
    {fuel : Nat} {start : σ} (initial : inv start) (enough : measure start < fuel) :
    Avoids exhausted (loop exhausted body fuel start) := by
  induction fuel generalizing start with
  | zero => omega
  | succ fuel ih =>
    simp only [loop]
    cases step : body start with
    | error fault =>
      have avoids := steps start initial
      rw [step] at avoids
      exact fun failed => avoids (congrArg Except.error (Except.error.inj failed))
    | ok flow =>
      cases flow with
      | done result => exact Avoids.ok result
      | next following =>
        obtain ⟨held, falls⟩ := kept start following initial step
        exact ih held (by omega)

/-! ## What a loop ends with -/

/-- What the loop entered at a state ends with, however many iterations it takes. -/
inductive LoopEnds (body : σ → Except ε (Flow σ ρ)) : σ → Except ε ρ → Prop
  /-- The body fails. -/
  | fails {state : σ} {fault : ε} (stops : body state = .error fault) :
    LoopEnds body state (.error fault)
  /-- The body leaves the loop. -/
  | exits {state : σ} {result : ρ} (leaves : body state = .ok (.done result)) :
    LoopEnds body state (.ok result)
  /-- The loop goes on. -/
  | goes {state following : σ} {outcome : Except ε ρ}
    (step : body state = .ok (.next following)) (onwards : LoopEnds body following outcome) :
    LoopEnds body state outcome

/-- A loop ends in one way. -/
theorem LoopEnds.unique {state : σ} {outcome other : Except ε ρ} (ends : LoopEnds body state outcome)
    (ends' : LoopEnds body state other) : outcome = other := by
  induction ends with
  | fails stops =>
    cases ends' with
    | fails stops' => exact congrArg Except.error (Except.error.inj (stops.symm.trans stops'))
    | exits leaves => cases stops.symm.trans leaves
    | goes step _ => cases stops.symm.trans step
  | exits leaves =>
    cases ends' with
    | fails stops => cases leaves.symm.trans stops
    | exits leaves' =>
      exact congrArg Except.ok (Flow.done.inj (Except.ok.inj (leaves.symm.trans leaves')))
    | goes step _ => cases leaves.symm.trans step
  | goes step _ ih =>
    cases ends' with
    | fails stops => cases step.symm.trans stops
    | exits leaves => cases step.symm.trans leaves
    | goes step' onwards =>
      cases step.symm.trans step'
      exact ih onwards

/-- Two states that the body treats alike end alike. -/
theorem LoopEnds.congr {state other : σ} {outcome : Except ε ρ} (same : body other = body state)
    (ends : LoopEnds body state outcome) : LoopEnds body other outcome := by
  cases ends with
  | fails stops => exact .fails (same.trans stops)
  | exits leaves => exact .exits (same.trans leaves)
  | goes step onwards => exact .goes (same.trans step) onwards

/-- A loop that does not run out of iterations ends with what it returns. -/
theorem loop_ends {fuel : Nat} {start : σ}
    (enough : Avoids exhausted (loop exhausted body fuel start)) :
    LoopEnds body start (loop exhausted body fuel start) := by
  induction fuel generalizing start with
  | zero => exact absurd rfl enough
  | succ fuel ih =>
    simp only [loop] at enough ⊢
    split
    · rename_i fault stops
      exact .fails stops
    · rename_i following step
      rw [step] at enough
      exact .goes step (ih enough)
    · rename_i result leaves
      exact .exits leaves

/-- A loop that takes over where another one ends ends as if it had run from the start, when each
iteration of the other is one of its own or leaves with its state. -/
theorem LoopEnds.takesOver {first second : σ → Except ε (Flow σ σ)} {state : σ}
    {outcome : Except ε σ}
    (same : ∀ state, first state = .ok (.done state) ∨ second state = first state)
    (leaves : ∀ state result, first state = .ok (.done result) → result = state)
    (ends : LoopEnds first state outcome) :
    (∀ fault, outcome = .error fault → LoopEnds second state outcome) ∧
    ∀ result, outcome = .ok result → ∀ outcome', LoopEnds second result outcome' →
      LoopEnds second state outcome' := by
  induction ends with
  | @fails state fault stops =>
    have stops' : second state = .error fault := by
      rcases same state with exit | alike
      · cases stops.symm.trans exit
      · exact alike.trans stops
    exact ⟨fun _ _ => .fails stops', fun _ returned => by contradiction⟩
  | @exits state result exit =>
    refine ⟨fun _ failed => by contradiction, fun other returned outcome' onwards => ?_⟩
    obtain rfl := Except.ok.inj returned
    rwa [leaves state result exit] at onwards
  | @goes state following outcome step _ ih =>
    have step' : second state = .ok (.next following) := by
      rcases same state with exit | alike
      · cases step.symm.trans exit
      · exact alike.trans step
    exact ⟨fun fault failed => .goes step' (ih.1 fault failed),
      fun result returned outcome' onwards => .goes step' (ih.2 result returned outcome' onwards)⟩

end MatchX.Support
