import Mathlib.Data.List.Nodup

/-!
# Lines

Members stand in lines, at most once and in one line only. A move lets some of them leave and
others join, each at the end of a line. Whoever stands in front of another one stays there as long
as both stand: nobody is overtaken by a later member.
-/

namespace MatchX.Support

variable {κ ι : Type}

/-- A line of members for every key, first to last. -/
abbrev Lines (κ ι : Type) := κ → List ι

namespace Lines

variable {before after : Lines κ ι} {front back : ι} {k : κ}

/-- A member stands in some line. -/
def Stands (lines : Lines κ ι) (member : ι) : Prop := ∃ k, member ∈ lines k

/-- No member stands twice. -/
structure Distinct (lines : Lines κ ι) : Prop where
  /-- A line holds a member once. -/
  nodup : ∀ k, (lines k).Nodup
  /-- A member stands in one line. -/
  single : ∀ {k k' member}, member ∈ lines k → member ∈ lines k' → k = k'

/-- Where two members stand in one line, the first stands in front of the second. -/
def InFront (lines : Lines κ ι) (front back : ι) : Prop :=
  ∀ k, front ∈ lines k → back ∈ lines k → [front, back].Sublist (lines k)

/-- Some members leave, and at most one joins, at the end of a line. -/
structure Moves (before after : Lines κ ι) : Prop where
  /-- A line keeps some of its members, and new ones join at its end. -/
  parts : ∀ k, ∃ kept joined, after k = kept ++ joined ∧ kept.Sublist (before k) ∧
    ∀ member ∈ joined, ¬before.Stands member
  /-- At most one joins. -/
  single : ∀ {first second}, after.Stands first → after.Stands second → ¬before.Stands first →
    ¬before.Stands second → first = second

/-- Members only leave. -/
theorem Moves.of_sublist (leaves : ∀ k, (after k).Sublist (before k)) : Moves before after where
  parts k := ⟨after k, [], (List.append_nil _).symm, leaves k, by simp⟩
  single := by
    rintro first second ⟨k, member⟩ - absent
    exact absurd ⟨k, (leaves k).subset member⟩ absent

/-- Nothing moves. -/
theorem Moves.refl (lines : Lines κ ι) : Moves lines lines :=
  Moves.of_sublist fun k => List.Sublist.refl (lines k)

/-- Of two members of a line that stay in what is kept of it, the first stays in front. -/
theorem pair_sublist {line kept : List ι} (nodup : line.Nodup) (sublist : kept.Sublist line)
    (order : [front, back].Sublist line) (first : front ∈ kept) (second : back ∈ kept) :
    [front, back].Sublist kept := by
  induction sublist with
  | slnil => simp at first
  | cons other rest ih =>
    obtain ⟨absent, nodup'⟩ := List.nodup_cons.mp nodup
    refine ih nodup' ?_ first second
    cases order with
    | cons _ order => exact order
    | cons_cons _ _ => exact absurd (rest.subset first) absent
  | cons_cons other rest ih =>
    obtain ⟨absent, nodup'⟩ := List.nodup_cons.mp nodup
    cases order with
    | cons _ order =>
      have apart : ∀ {member}, member ∈ [front, back] → member ≠ other := by
        rintro member inside rfl
        exact absent (order.subset inside)
      have first' := (List.mem_cons.mp first).resolve_left (apart (by simp))
      have second' := (List.mem_cons.mp second).resolve_left (apart (by simp))
      exact (ih nodup' order first' second').cons _
    | cons_cons _ order =>
      have behind : back ≠ front := by
        rintro rfl
        exact absent (order.subset (List.mem_singleton_self _))
      have second' := (List.mem_cons.mp second).resolve_left behind
      exact (List.singleton_sublist.mpr second').cons_cons _

/-- A member that stands and is not overtaken is not overtaken in a move. -/
theorem Moves.inFront (moves : Moves before after) (distinct : before.Distinct)
    (stands : before.Stands front) (order : before.InFront front back) :
    after.InFront front back := by
  intro k first second
  obtain ⟨kept, joined, parts, sublist, fresh⟩ := moves.parts k
  rw [parts] at first second ⊢
  have stays : front ∈ kept := (List.mem_append.mp first).resolve_right fun joins =>
    fresh front joins stands
  rcases List.mem_append.mp second with remains | joins
  · have old := order k (sublist.subset stays) (sublist.subset remains)
    have pair := pair_sublist (distinct.nodup k) sublist old stays remains
    exact pair.trans (List.sublist_append_left _ _)
  · have parts' := List.Sublist.append (List.singleton_sublist.mpr stays)
      (List.singleton_sublist.mpr joins)
    exact parts'

/-- A member that goes on standing stays in its line. -/
theorem Moves.stays {member : ι} (moves : Moves before after) (distinct : before.Distinct)
    (stood : member ∈ before k) (stands : after.Stands member) : member ∈ after k := by
  obtain ⟨k', there⟩ := stands
  obtain ⟨kept, joined, parts, sublist, fresh⟩ := moves.parts k'
  have remains : member ∈ kept := by
    rw [parts] at there
    exact (List.mem_append.mp there).resolve_right fun joins => fresh member joins ⟨k, stood⟩
  obtain rfl := distinct.single (sublist.subset remains) stood
  exact there

/-- Nobody overtakes a member that does not stand yet. -/
theorem InFront.of_absent {lines : Lines κ ι} (absent : ¬lines.Stands back) :
    lines.InFront front back :=
  fun k _ second => absurd ⟨k, second⟩ absent

/-- The first of a line stands in front of the others. -/
theorem InFront.of_first {lines : Lines κ ι} (distinct : lines.Distinct)
    (first : (lines k).head? = some front) (apart : back ≠ front) : lines.InFront front back := by
  intro k' here there
  obtain ⟨rest, line⟩ := List.head?_eq_some_iff.mp first
  have member : front ∈ lines k := line ▸ List.mem_cons_self
  obtain rfl := distinct.single member here
  rw [line] at there ⊢
  exact (List.singleton_sublist.mpr ((List.mem_cons.mp there).resolve_left apart)).cons_cons _

/-- Nobody stands in front of the first of a line. -/
theorem InFront.not_first {lines : Lines κ ι} (distinct : lines.Distinct)
    (order : lines.InFront front back) (first : (lines k).head? = some back) :
    front ∉ lines k := by
  intro member
  obtain ⟨rest, line⟩ := List.head?_eq_some_iff.mp first
  have pair := order k member (line ▸ List.mem_cons_self)
  have nodup := distinct.nodup k
  rw [line] at pair nodup
  have absent := (List.nodup_cons.mp nodup).1
  cases pair with
  | cons _ pair => exact absent (pair.subset (by simp))
  | cons_cons _ pair => exact absent (pair.subset (List.mem_singleton_self _))

end Lines

end MatchX.Support
