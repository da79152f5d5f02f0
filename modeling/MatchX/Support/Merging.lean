import Mathlib.Data.List.Basic

/-!
# Merging entries in a row

A list of amounts under keys, with the entries of one key that stand in a row merged into one of
their sum. Entries are merged from the last one on: `pushEntry` puts one in front of others that
are merged already. Two pushes of one key are a push of the sum, so a list may have an entry
parted in two, wherever that is, and merge to the same.
-/

namespace MatchX.Support

variable {κ : Type} [DecidableEq κ] {key : κ} {first second : Nat}
  {front back entries : List (κ × Nat)}

/-- An entry in front of merged ones: it joins the first of them when that has its key. -/
def pushEntry (entry : κ × Nat) : List (κ × Nat) → List (κ × Nat)
  | [] => [entry]
  | (key, amount) :: rest =>
    if entry.1 = key then (key, entry.2 + amount) :: rest else entry :: (key, amount) :: rest

/-- The entries with those in a row under one key merged. -/
def mergeRuns (entries : List (κ × Nat)) : List (κ × Nat) := entries.foldr pushEntry []

/-- One more entry is pushed in front of the merged ones. -/
@[simp] theorem mergeRuns_cons {entry : κ × Nat} :
    mergeRuns (entry :: entries) = pushEntry entry (mergeRuns entries) := rfl

/-- Entries in front of others are pushed one after the other. -/
theorem mergeRuns_append :
    mergeRuns (front ++ back) = front.foldr pushEntry (mergeRuns back) := List.foldr_append

/-- Two amounts pushed under one key are their sum pushed under it. -/
theorem pushEntry_twice :
    pushEntry (key, first) (pushEntry (key, second) entries) =
      pushEntry (key, first + second) entries := by
  cases entries with
  | nil => simp [pushEntry]
  | cons head rest =>
    obtain ⟨other, amount⟩ := head
    by_cases same : key = other
    · simp [pushEntry, same, Nat.add_assoc]
    · simp [pushEntry, same]

/-- An entry whose key is not the first one stays apart. -/
theorem pushEntry_fresh (fresh : ∀ entry ∈ entries, entry.1 ≠ key) :
    pushEntry (key, first) entries = (key, first) :: entries := by
  cases entries with
  | nil => rfl
  | cons head rest =>
    have apart : key ≠ head.1 := fun same => fresh head List.mem_cons_self same.symm
    rw [pushEntry, if_neg apart]

/-- Merged entries merge with those behind them as the entries did. -/
theorem mergeRuns_merged : mergeRuns (mergeRuns front ++ back) = mergeRuns (front ++ back) := by
  have pushed : ∀ (entry : κ × Nat) (merged : List (κ × Nat)),
      mergeRuns (pushEntry entry merged ++ back) = pushEntry entry (mergeRuns (merged ++ back)) := by
    intro entry merged
    cases merged with
    | nil => rfl
    | cons head rest =>
      obtain ⟨other, amount⟩ := head
      by_cases same : entry.1 = other
      · obtain ⟨key, most⟩ := entry
        obtain rfl : key = other := same
        rw [pushEntry, if_pos rfl, List.cons_append, List.cons_append, mergeRuns_cons,
          mergeRuns_cons, pushEntry_twice]
      · rw [pushEntry, if_neg same]
        rfl
  induction front with
  | nil => rfl
  | cons entry rest ih => rw [mergeRuns_cons, pushed, ih, List.cons_append, mergeRuns_cons]

/-- An entry that is parted in two, behind merged ones. -/
theorem mergeRuns_parted :
    mergeRuns (mergeRuns (entries ++ [(key, first)]) ++ [(key, second)]) =
      mergeRuns (entries ++ [(key, first + second)]) := by
  have tail : mergeRuns ([(key, first)] ++ [(key, second)]) = mergeRuns [(key, first + second)] :=
    @pushEntry_twice _ _ key first second []
  rw [mergeRuns_merged, List.append_assoc, mergeRuns_append, tail, ← mergeRuns_append]

end MatchX.Support
