import MatchX.Support.Loop

/-!
# Postconditions and simulation

`Returns` is about one computation: whatever it returns meets a condition. `Simulates` is about
two: whatever the first returns is matched by a value that the second returns. Both go through
sequencing, and simulation goes through loops, where it is enough to match one iteration from
matching states.
-/

namespace MatchX.Support

variable {α β γ α' β' σ τ ρ ω ε δ : Type}

/-! ## Postconditions -/

/-- What a computation returns meets a condition. -/
def Returns (post : α → Prop) (computed : Except ε α) : Prop :=
  ∀ value, computed = .ok value → post value

/-- A value that meets the condition. -/
theorem Returns.ok {post : α → Prop} {value : α} (meets : post value) :
    Returns post (.ok value : Except ε α) := by
  intro returned returns
  exact Except.ok.inj returns ▸ meets

/-- A failure returns nothing. -/
theorem Returns.error {post : α → Prop} {fault : ε} : Returns post (.error fault : Except ε α) := by
  intro value returns
  contradiction

/-- What a first part returns decides what the second part may return. -/
theorem Returns.bind {first : Except ε α} {second : α → Except ε β} {between : α → Prop}
    {post : β → Prop} (begins : Returns between first)
    (goesOn : ∀ value, between value → Returns post (second value)) :
    Returns post (first >>= second) := by
  cases computed : first with
  | error fault => exact .error
  | ok value => exact goesOn value (begins value computed)

/-- Nothing is asked of what a computation returns. -/
theorem Returns.any {computed : Except ε α} : Returns (fun _ => True) computed :=
  fun _ _ => trivial

/-- A first part that is a value leaves the second part. -/
theorem Returns.pass {value : α} {second : α → Except ε β} {post : β → Prop}
    (goesOn : Returns post (second value)) :
    Returns post ((.ok value : Except ε α) >>= second) := goesOn

/-! ## Simulation -/

/-- What a computation returns is matched by what another one returns. -/
def Simulates (matching : α → β → Prop) (computed : Except ε α) (computed' : Except δ β) : Prop :=
  ∀ value, computed = .ok value → ∃ value', computed' = .ok value' ∧ matching value value'

/-- A value that matches is simulated. -/
theorem Simulates.ok {matching : α → β → Prop} {value : α} {value' : β}
    (same : matching value value') :
    Simulates matching (.ok value : Except ε α) (.ok value' : Except δ β) := by
  intro returned returns
  obtain rfl := Except.ok.inj returns
  exact ⟨value', rfl, same⟩

/-- What a failure returns is matched by anything. -/
theorem Simulates.error {matching : α → β → Prop} {fault : ε} {computed' : Except δ β} :
    Simulates matching (.error fault : Except ε α) computed' := by
  intro value returns
  contradiction

/-- Simulation goes through sequencing. -/
theorem Simulates.bind {first : Except ε α} {first' : Except δ α'} {second : α → Except ε β}
    {second' : α' → Except δ β'} {between : α → α' → Prop} {matching : β → β' → Prop}
    (begins : Simulates between first first')
    (goesOn : ∀ value value', first = .ok value → between value value' →
      Simulates matching (second value) (second' value')) :
    Simulates matching (first >>= second) (first' >>= second') := by
  cases computed : first with
  | error fault => exact .error
  | ok value =>
    obtain ⟨value', returns, same⟩ := begins value computed
    rw [returns]
    exact goesOn value value' computed same

/-- A second part alone simulates a computation whose first part returns. -/
theorem Simulates.second {first : Except ε α} {second : α → Except ε β} {computed' : Except δ β'}
    {matching : β → β' → Prop}
    (goesOn : ∀ value, first = .ok value → Simulates matching (second value) computed') :
    Simulates matching (first >>= second) computed' := by
  cases computed : first with
  | error fault => exact .error
  | ok value => exact goesOn value computed

/-- Two iterations match: both go on to matching states, or both leave with matching results. -/
inductive Flow.Matching (goes : σ → τ → Prop) (ends : ρ → ω → Prop) : Flow σ ρ → Flow τ ω → Prop
  /-- Both go on. -/
  | next {state : σ} {state' : τ} (same : goes state state') :
    Matching goes ends (.next state) (.next state')
  /-- Both leave. -/
  | done {result : ρ} {result' : ω} (same : ends result result') :
    Matching goes ends (.done result) (.done result')

/-- Loops whose bodies simulate one another, from every state that the first one visits, simulate
one another. -/
theorem Simulates.loop {exhausted : ε} {exhausted' : δ} {body : σ → Except ε (Flow σ ρ)}
    {body' : τ → Except δ (Flow τ ω)} {goes : σ → τ → Prop} {ends : ρ → ω → Prop}
    {start : σ} {start' : τ}
    (step : ∀ state state', Visits body start state → goes state state' →
      Simulates (Flow.Matching goes ends) (body state) (body' state'))
    (initial : goes start start') (fuel : Nat) :
    Simulates ends (Support.loop exhausted body fuel start)
      (Support.loop exhausted' body' fuel start') := by
  induction fuel generalizing start start' with
  | zero => exact .error
  | succ fuel ih =>
    intro result returns
    simp only [Support.loop] at returns ⊢
    cases computed : body start with
    | error fault => simp [computed] at returns
    | ok flow =>
      obtain ⟨flow', computed', same⟩ :=
        step start start' (Visits.refl _ _) initial flow computed
      rw [computed']
      rw [computed] at returns
      cases same with
      | next goesOn =>
        exact ih (fun state state' visits => step state state' (visits.head computed)) goesOn
          result returns
      | done leaves =>
        obtain rfl := Except.ok.inj returns
        exact ⟨_, rfl, leaves⟩

end MatchX.Support
