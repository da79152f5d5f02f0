import MatchX.Support.Lines
import MatchX.Support.Loop
import Mathlib.Data.List.Chain

/-!
# Moments

A system passes through moments, each in a step from the one before. The moments of a loop are
those of its iterations, in order. Where at most one member comes in a step, of any two members one
came before the other. What every move of lines keeps is kept from the first moment to the last.
-/

namespace MatchX.Support

variable {σ ρ ε τ κ ι : Type} {step : τ → τ → Prop}

/-- From one moment a system passes through those listed to the last of them, step by step. -/
inductive Passes (step : τ → τ → Prop) : τ → List τ → τ → Prop
  /-- It stays where it is. -/
  | none (state : τ) : Passes step state [] state
  /-- It takes a step first. -/
  | next {state following last : τ} {moments : List τ} (one : step state following)
      (rest : Passes step following moments last) : Passes step state (following :: moments) last

/-- A single step. -/
theorem Passes.one {state following : τ} (one : step state following) :
    Passes step state [following] following :=
  .next one (.none following)

/-- Passing on from where one has got to. -/
theorem Passes.append {first between last : τ} {early late : List τ}
    (begins : Passes step first early between) (ends : Passes step between late last) :
    Passes step first (early ++ late) last := by
  induction begins with
  | none => exact ends
  | next one _ ih => exact .next one (ih ends)

/-- The moments are a chain. -/
theorem Passes.isChain {first last : τ} {moments : List τ} (passes : Passes step first moments last) :
    (first :: moments).IsChain step := by
  induction passes with
  | none => exact List.isChain_singleton _
  | next one _ ih => exact List.isChain_cons_cons.mpr ⟨one, ih⟩

/-- The last moment is the one passed to. -/
theorem Passes.getLast {first last : τ} {moments : List τ} (passes : Passes step first moments last) :
    (first :: moments).getLast? = some last := by
  induction passes with
  | none => rfl
  | next _ _ ih => rwa [List.getLast?_cons_cons]

/-- The moments of a loop that returns are those of its iterations. -/
theorem loop_passes {body : σ → Except ε (Flow σ ρ)} {exhausted : ε} {moments : σ → List τ}
    (view : σ → τ) (out : ρ → τ)
    (goesOn : ∀ state following, body state = .ok (.next following) →
      Passes step (view state) (moments state) (view following))
    (exits : ∀ state result, body state = .ok (.done result) →
      Passes step (view state) (moments state) (out result))
    {fuel : Nat} {start : σ} {result : ρ} (returned : loop exhausted body fuel start = .ok result) :
    Passes step (view start) ((states body fuel start).flatMap moments) (out result) := by
  induction fuel generalizing start with
  | zero => simp [loop] at returned
  | succ fuel ih =>
    simp only [loop] at returned
    split at returned
    · contradiction
    · rename_i following taken
      simp only [states, taken, List.flatMap_cons]
      exact (goesOn start following taken).append (ih returned)
    · rename_i value taken
      obtain rfl := Except.ok.inj returned
      simp only [states, taken, List.flatMap_cons, List.flatMap_nil, List.append_nil]
      exact exits start value taken

/-- Whether some cut of a list passes a test of its two parts. -/
def anySplit (test : List τ → List τ → Bool) (moments : List τ) : Bool :=
  (List.range (moments.length + 1)).any fun n => test (moments.take n) (moments.drop n)

/-- Where some cut of a list passes a test, the list has such parts. -/
theorem exists_split {test : List τ → List τ → Bool} {moments : List τ}
    (passes : anySplit test moments = true) :
    ∃ past rest, moments = past ++ rest ∧ test past rest = true := by
  obtain ⟨n, -, tested⟩ := List.any_eq_true.mp passes
  exact ⟨moments.take n, moments.drop n, (List.take_append_drop n moments).symm, tested⟩

/-! ## Who came first -/

section Came

variable {stands : τ → ι → Prop} {first second : ι} {start now : τ} {moments : List τ}

/-- At the last of some moments the first member had come before the second: from one of them on it
stands without a break, and there the second does not stand. -/
def CameBefore (stands : τ → ι → Prop) (first second : ι) (moments : List τ) : Prop :=
  ∃ begins later, (begins :: later) <:+ moments ∧ ¬stands begins second ∧
    ∀ state ∈ begins :: later, stands state first

/-- Who came before another one did so at a later moment at which it stands. -/
theorem CameBefore.later (came : CameBefore stands first second moments)
    (remains : stands now first) : CameBefore stands first second (moments ++ [now]) := by
  obtain ⟨begins, later, ⟨earlier, parts⟩, absent, always⟩ := came
  refine ⟨begins, later ++ [now], ⟨earlier, ?_⟩, absent, fun state member => ?_⟩
  · rw [← parts, List.append_assoc, List.cons_append]
  · rcases List.mem_append.mp (List.cons_append ▸ member) with before | last
    · exact always state before
    · exact List.mem_singleton.mp last ▸ remains

/-- Where at most one member comes in a step, of any two that stand in the end one came before the
other. -/
theorem cameBefore_total (empty : ∀ member, ¬stands start member)
    (single : ∀ state ∈ start :: moments, ∀ following, step state following →
      ∀ first second, stands following first → stands following second → ¬stands state first →
        ¬stands state second → first = second)
    (chain : (start :: moments).IsChain step) :
    ∀ last, (start :: moments).getLast? = some last → ∀ first second, first ≠ second →
      stands last first → stands last second →
      CameBefore stands first second moments ∨ CameBefore stands second first moments := by
  induction moments using List.reverseRecOn with
  | nil =>
    intro last ends first second _ stays
    obtain rfl := Option.some.inj ends
    exact absurd stays (empty first)
  | append_singleton earlier next ih =>
    intro last ends first second apart here there
    rw [← List.cons_append, List.getLast?_concat] at ends
    obtain rfl := Option.some.inj ends
    rw [← List.cons_append] at chain
    obtain ⟨chain', -, one⟩ := List.isChain_append.mp chain
    obtain ⟨before, ends'⟩ : ∃ before, (start :: earlier).getLast? = some before :=
      Option.isSome_iff_exists.mp (by simp)
    have taken := one before ends' next rfl
    -- A member that stands before the step and one that does not.
    have joins : ∀ {old new}, stands before old → ¬stands before new → stands next old →
        CameBefore stands old new (earlier ++ [next]) := fun {old new} stood absent remains => by
      rcases List.eq_nil_or_concat earlier with rfl | ⟨front, state, rfl⟩
      · obtain rfl := Option.some.inj ends'
        exact absurd stood (empty old)
      · rw [List.concat_eq_append, ← List.cons_append, List.getLast?_concat] at ends'
        obtain rfl := Option.some.inj ends'
        refine ⟨state, [next], ⟨front, by simp⟩, absent, ?_⟩
        simp only [List.mem_cons, List.not_mem_nil, or_false]
        rintro other (rfl | rfl)
        · exact stood
        · exact remains
    by_cases stood : stands before first
    · by_cases stood' : stands before second
      · have single' := fun state (member : state ∈ start :: earlier) =>
          single state (List.cons_append ▸ List.mem_append_left _ member)
        rcases ih single' chain' before ends' first second apart stood stood' with came | came
        · exact .inl (came.later here)
        · exact .inr (came.later there)
      · exact .inl (joins stood stood' here)
    · by_cases stood' : stands before second
      · exact .inr (joins stood' stood there)
      · have inside : before ∈ start :: (earlier ++ [next]) :=
          List.cons_append ▸ List.mem_append_left _ (List.mem_of_getLast? ends')
        exact absurd (single before inside next taken first second here there stood stood') apart

end Came

/-! ## Lines that are shown -/

section Shown

variable {shows : τ → Lines κ ι → Prop} {first : τ} {later : List τ}

/-- Whatever lines one moment shows, the other shows lines to which they move. -/
def LinesMove (shows : τ → Lines κ ι → Prop) (state following : τ) : Prop :=
  ∀ lines, shows state lines → ∃ lines', shows following lines' ∧ Lines.Moves lines lines'

/-- Every moment of a chain that begins with lines shows lines. -/
theorem exists_shown (follows : ∀ state following, step state following →
      LinesMove shows state following)
    (begins : ∃ lines, shows first lines) (chain : (first :: later).IsChain step) :
    ∀ state ∈ first :: later, ∃ lines, shows state lines := by
  induction later generalizing first with
  | nil => simpa using begins
  | cons second rest ih =>
    obtain ⟨one, chain'⟩ := List.isChain_cons_cons.mp chain
    obtain ⟨lines, shown⟩ := begins
    obtain ⟨lines', shown', -⟩ := follows first second one lines shown
    intro state member
    rcases List.mem_cons.mp member with rfl | behind
    · exact ⟨lines, shown⟩
    · exact ih ⟨lines', shown'⟩ chain' state behind

/-- What the lines of the first moment of a chain have, and every step keeps, the lines of the last
one have. -/
theorem kept_at_last {inv : Lines κ ι → Prop} (follows : ∀ state following, step state following →
      LinesMove shows state following)
    (keeps : ∀ state ∈ first :: later, ∀ following ∈ first :: later, ∀ lines lines',
      shows state lines → shows following lines' → Lines.Moves lines lines' → inv lines → inv lines')
    (begins : ∃ lines, shows first lines ∧ inv lines) (chain : (first :: later).IsChain step) :
    ∀ last, (first :: later).getLast? = some last → ∃ lines, shows last lines ∧ inv lines := by
  induction later generalizing first with
  | nil =>
    intro last ends
    obtain rfl := Option.some.inj ends
    exact begins
  | cons second rest ih =>
    obtain ⟨one, chain'⟩ := List.isChain_cons_cons.mp chain
    obtain ⟨lines, shown, held⟩ := begins
    obtain ⟨lines', shown', moves⟩ := follows first second one lines shown
    have next : second ∈ first :: second :: rest := List.mem_cons_of_mem _ List.mem_cons_self
    intro last ends
    rw [List.getLast?_cons_cons] at ends
    refine ih (fun state member following member' => keeps state (List.mem_cons_of_mem _ member)
      following (List.mem_cons_of_mem _ member')) ⟨lines', shown', ?_⟩ chain' last ends
    exact keeps first List.mem_cons_self second next lines lines' shown shown' moves held

end Shown

end MatchX.Support
