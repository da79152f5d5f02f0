import Mathlib.Data.List.Flatten
import Mathlib.Order.Lattice

/-!
# Tagged values

Values in a row, each under a tag. When the tags are in ascending order, the values are those of
each tag in a row.
-/

namespace MatchX.Support

variable {κ α : Type}

section Equal

variable [DecidableEq κ]

/-- The values under a tag, in order. -/
def tagged (tag : κ) (items : List (κ × α)) : List α :=
  (items.filter fun item => item.1 = tag).map Prod.snd

/-- Items in two parts. -/
theorem tagged_append (tag : κ) (first second : List (κ × α)) :
    tagged tag (first ++ second) = tagged tag first ++ tagged tag second := by
  rw [tagged, List.filter_append, List.map_append]
  rfl

/-- One item under its tag. -/
theorem tagged_self (tag : κ) (value : α) : tagged tag [(tag, value)] = [value] := by
  simp [tagged]

/-- One item under another tag. -/
theorem tagged_of_ne {tag other : κ} (apart : other ≠ tag) (value : α) :
    tagged tag [(other, value)] = [] := by
  simp [tagged, apart]

/-- A tag that is not used has no value. -/
theorem tagged_eq_nil {tag : κ} {items : List (κ × α)} (unused : ∀ item ∈ items, item.1 ≠ tag) :
    tagged tag items = [] := by
  have none : items.filter (fun item => item.1 = tag) = [] :=
    List.filter_eq_nil_iff.mpr fun item among => by simpa using unused item among
  rw [tagged, none, List.map_nil]

/-- Fewer items have fewer values under a tag. -/
theorem tagged_sublist (tag : κ) {items others : List (κ × α)} (fewer : items.Sublist others) :
    (tagged tag items).Sublist (tagged tag others) :=
  (fewer.filter _).map _

end Equal

section Sorted

variable [LinearOrder κ]

/-- The items under the least tag come first. -/
theorem split_least {tag : κ} {items : List (κ × α)}
    (ordered : items.Pairwise fun first second => first.1 ≤ second.1)
    (least : ∀ item ∈ items, tag ≤ item.1) :
    items = items.filter (fun item => item.1 = tag) ++ items.filter (fun item => item.1 ≠ tag) := by
  induction items with
  | nil => rfl
  | cons item rest ih =>
    obtain ⟨first, others⟩ := List.pairwise_cons.mp ordered
    by_cases here : item.1 = tag
    · have later := ih others fun other among => least other (List.mem_cons_of_mem _ among)
      simp only [ne_eq, decide_not] at later
      simp only [List.filter_cons, here, decide_true, ↓reduceIte, ne_eq, decide_not, Bool.not_true,
        Bool.false_eq_true, List.cons_append, ← later]
    · have above : ∀ other ∈ item :: rest, other.1 ≠ tag := by
        intro other among
        rcases List.mem_cons.mp among with rfl | later
        · exact here
        · have less := lt_of_le_of_ne (least item List.mem_cons_self) (Ne.symm here)
          exact ne_of_gt (lt_of_lt_of_le less (first other later))
      have none : (item :: rest).filter (fun item => item.1 = tag) = [] :=
        List.filter_eq_nil_iff.mpr fun other among => by simpa using above other among
      have all : (item :: rest).filter (fun item => item.1 ≠ tag) = item :: rest :=
        List.filter_eq_self.mpr fun other among => by simpa using above other among
      rw [none, all, List.nil_append]

/-- Values in the order of their tags are among those of each tag in a row. -/
theorem sublist_flatMap_tagged {tags : List κ} {items : List (κ × α)}
    (sorted : tags.Pairwise (· ≤ ·))
    (ordered : items.Pairwise fun first second => first.1 ≤ second.1)
    (used : ∀ item ∈ items, item.1 ∈ tags) :
    (items.map Prod.snd).Sublist (tags.flatMap fun tag => tagged tag items) := by
  induction tags generalizing items with
  | nil =>
    have none : items = [] := List.eq_nil_iff_forall_not_mem.mpr fun item among =>
      List.not_mem_nil (used item among)
    rw [none]
    exact .slnil
  | cons tag rest ih =>
    obtain ⟨below, sortedRest⟩ := List.pairwise_cons.mp sorted
    have least : ∀ item ∈ items, tag ≤ item.1 := by
      intro item among
      rcases List.mem_cons.mp (used item among) with same | later
      · exact le_of_eq same.symm
      · exact below _ later
    have later := @ih (items.filter fun item => item.1 ≠ tag) sortedRest (ordered.filter _)
      fun item among => by
        obtain ⟨inside, apart⟩ := List.mem_filter.mp among
        exact (List.mem_cons.mp (used item inside)).resolve_left (by simpa using apart)
    have part : (items.filter fun item => item.1 ≠ tag).Sublist items := List.filter_sublist
    have fewer := List.Sublist.flatMap_right rest fun other _ => tagged_sublist other part
    have split := congrArg (List.map Prod.snd) (split_least ordered least)
    rw [List.map_append] at split
    rw [split, List.flatMap_cons]
    exact (List.Sublist.refl _).append (later.trans fewer)

end Sorted

end MatchX.Support
