import Mathlib.Order.Basic

/-!
# What happens in the end

An infinite run takes one step after another, among those that its state allows. Some steps bring a
goal nearer. A run is fair to these if it takes one whenever, from some moment on, one could always
be taken. When such a step is possible in every state short of the goal, lowers the effort that is
left, and no other step raises it, a fair run gets to the goal.
-/

namespace MatchX.Support

variable {σ α ε : Type} {step : σ → α → Except ε σ} {nears : σ → α → Prop}
  {run : Nat → σ} {actions : Nat → α}

/-- An infinite run: every step leads from one state to the next. -/
def Goes (step : σ → α → Except ε σ) (run : Nat → σ) (actions : Nat → α) : Prop :=
  ∀ n, step (run n) (actions n) = .ok (run (n + 1))

/-- A step that brings the goal nearer is possible. -/
def CanNear (step : σ → α → Except ε σ) (nears : σ → α → Prop) (state : σ) : Prop :=
  ∃ action following, nears state action ∧ step state action = .ok following

/-- The run takes a step that brings the goal nearer when it always could from some moment on. -/
def Fair (step : σ → α → Except ε σ) (nears : σ → α → Prop) (run : Nat → σ)
    (actions : Nat → α) : Prop :=
  ∀ n, (∀ m, n ≤ m → CanNear step nears (run m)) → ∃ m, n ≤ m ∧ nears (run m) (actions m)

/-- The effort that is left brings a fair run to the goal. -/
theorem Goes.reaches (inv goal : σ → Prop) (effort : σ → Nat) (goes : Goes step run actions)
    (fair : Fair step nears run actions) (initial : inv (run 0))
    (kept : ∀ state action following, inv state → ¬goal state →
      step state action = .ok following → inv following)
    (possible : ∀ state, inv state → ¬goal state → CanNear step nears state)
    (still : ∀ state action following, inv state → ¬goal state →
      step state action = .ok following → effort following ≤ effort state)
    (falls : ∀ state action following, inv state → ¬goal state → nears state action →
      step state action = .ok following → effort following < effort state) :
    ∃ n, goal (run n) := by
  by_contra never
  have short : ∀ n, ¬goal (run n) := fun n reached => never ⟨n, reached⟩
  have holds : ∀ n, inv (run n) := by
    intro n
    induction n with
    | zero => exact initial
    | succ n ih => exact kept _ _ _ ih (short n) (goes n)
  have later : ∀ n m, effort (run (n + m)) ≤ effort (run n) := by
    intro n m
    induction m with
    | zero => exact Nat.le_refl _
    | succ m ih =>
      have next := still _ _ _ (holds (n + m)) (short (n + m)) (goes (n + m))
      exact Nat.le_trans next ih
  -- Below every effort there is a later one that is lower.
  have lower : ∀ n, ∃ m, effort (run m) < effort (run n) := by
    intro n
    obtain ⟨m, after, step⟩ := fair n fun m _ => possible _ (holds m) (short m)
    have next := falls _ _ _ (holds m) (short m) step (goes m)
    have before := later n (m - n)
    rw [Nat.add_sub_cancel' after] at before
    exact ⟨m + 1, Nat.lt_of_lt_of_le next before⟩
  have none : ∀ bound n, effort (run n) < bound → False := by
    intro bound
    induction bound with
    | zero => exact fun n low => absurd low (Nat.not_lt_zero _)
    | succ bound ih =>
      intro n low
      obtain ⟨m, below⟩ := lower n
      exact ih m (by omega)
  exact none _ 0 (Nat.lt_succ_self _)

end MatchX.Support
