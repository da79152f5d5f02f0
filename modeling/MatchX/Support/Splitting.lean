import Mathlib.Data.List.Infix

/-!
# Bytes that split into records

A front parser finds a record at the front of some bytes and says how many it has used. When
what it finds depends on no byte behind those, the ways to split bytes into records agree as
far as they go: bytes with no record behind their last are the longest beginning that splits.
-/

namespace MatchX.Support

variable {β ρ : Type} (parse : List β → Option (ρ × Nat))

/-- A front parser uses some of the bytes that are there, and looks only at these. -/
structure FrontParser : Prop where
  /-- A record has a byte. -/
  used_pos : ∀ {data record used}, parse data = some (record, used) → 0 < used
  /-- A record lies within the data. -/
  used_le : ∀ {data record used}, parse data = some (record, used) → used ≤ data.length
  /-- The bytes behind a record do not matter. -/
  frame : ∀ {data record used}, parse data = some (record, used) →
    ∀ rest, parse (data.take used ++ rest) = some (record, used)

/-- The bytes are pieces in a row, each of which is all of a record. -/
inductive Splits : List β → List ρ → Prop
  /-- No bytes hold no records. -/
  | nil : Splits [] []
  /-- A piece that is one record, and pieces behind it. -/
  | cons {piece rest : List β} {record : ρ} {records : List ρ} :
    parse piece = some (record, piece.length) → Splits rest records →
      Splits (piece ++ rest) (record :: records)

variable {parse}

/-- A record that is all of its bytes is found whatever follows them. -/
theorem FrontParser.append (front : FrontParser parse) {piece : List β} {record : ρ}
    (found : parse piece = some (record, piece.length)) (rest : List β) :
    parse (piece ++ rest) = some (record, piece.length) := by
  have framed := front.frame found rest
  rwa [List.take_length] at framed

/-- The bytes of a record that was found are all of that record. -/
theorem FrontParser.take (front : FrontParser parse) {data : List β} {record : ρ} {used : Nat}
    (found : parse data = some (record, used)) :
    parse (data.take used) = some (record, (data.take used).length) := by
  have alone := front.frame found []
  rw [List.append_nil] at alone
  rw [List.length_take_of_le (front.used_le found)]
  exact alone

/-- All data is a beginning that splits and bytes with no record at their front. -/
theorem FrontParser.exists_longest (front : FrontParser parse) (data : List β) :
    ∃ kept rest records, data = kept ++ rest ∧ Splits parse kept records ∧ parse rest = none := by
  induction length : data.length using Nat.strong_induction_on generalizing data with
  | h size ih =>
    cases found : parse data with
    | none => exact ⟨[], data, [], rfl, .nil, found⟩
    | some first =>
      obtain ⟨record, used⟩ := first
      have positive := front.used_pos found
      have bounded := front.used_le found
      have shorter : (data.drop used).length < size := by
        rw [List.length_drop, length]
        omega
      obtain ⟨kept, rest, records, pieces, splits, stuck⟩ := ih _ shorter (data.drop used) rfl
      refine ⟨data.take used ++ kept, rest, record :: records, ?_, ?_, stuck⟩
      · rw [List.append_assoc, ← pieces, List.take_append_drop]
      · exact splits.cons (front.take found)

/-- A beginning that splits lies within one that has no record behind it, and has the records
at its front. -/
theorem Splits.longest (front : FrontParser parse) {data start kept rest : List β}
    {others records : List ρ} (other : Splits parse start others) (begins : start <+: data)
    (splits : Splits parse kept records) (pieces : data = kept ++ rest)
    (stuck : parse rest = none) : start <+: kept ∧ others <+: records := by
  induction other generalizing data kept records with
  | nil => exact ⟨List.nil_prefix, List.nil_prefix⟩
  | @cons piece start record others found _ ih =>
    obtain ⟨behind, whole⟩ := begins
    have next : parse data = some (record, piece.length) := by
      rw [← whole, List.append_assoc]
      exact front.append found _
    cases splits with
    | nil => rw [pieces, List.nil_append, stuck] at next; cases next
    | @cons twin kept' record' records found' splits =>
      -- Both splittings begin with the record that the parser finds.
      have same : parse data = some (record', twin.length) := by
        rw [pieces, List.append_assoc]
        exact front.append found' _
      rw [next, Option.some.injEq, Prod.mk.injEq] at same
      obtain ⟨rfl, lengths⟩ := same
      have bytes : piece ++ (start ++ behind) = twin ++ (kept' ++ rest) := by
        rw [← List.append_assoc, whole, pieces, List.append_assoc]
      obtain ⟨rfl, tails⟩ := List.append_inj bytes lengths
      obtain ⟨inside, fewer⟩ := ih ⟨behind, rfl⟩ splits tails
      exact ⟨(List.prefix_append_right_inj _).mpr inside, (List.prefix_cons_inj _).mpr fewer⟩

/-- Bytes that split, in a row. -/
theorem Splits.append {first second : List β} {records others : List ρ}
    (splits : Splits parse first records) (behind : Splits parse second others) :
    Splits parse (first ++ second) (records ++ others) := by
  induction splits with
  | nil => exact behind
  | cons found _ ih =>
    rw [List.append_assoc]
    exact ih.cons found

variable (parse) in
/-- The records of the longest beginning of some data that splits. -/
def Longest (data : List β) (records : List ρ) : Prop :=
  ∃ kept rest, data = kept ++ rest ∧ Splits parse kept records ∧ parse rest = none

section Longest

variable {data : List β} {records records' : List ρ}

/-- All data has some. -/
theorem Longest.exists (front : FrontParser parse) (data : List β) :
    ∃ records, Longest parse data records := by
  obtain ⟨kept, rest, records, pieces, splits, stuck⟩ := front.exists_longest data
  exact ⟨records, kept, rest, pieces, splits, stuck⟩

/-- No record is found in no data. -/
theorem FrontParser.nil (front : FrontParser parse) : parse [] = none := by
  cases found : parse [] with
  | none => rfl
  | some first =>
    have positive := front.used_pos found
    have bounded := front.used_le found
    rw [List.length_nil] at bounded
    omega

/-- Data that splits is its longest beginning. -/
theorem Longest.of_splits (front : FrontParser parse) (splits : Splits parse data records) :
    Longest parse data records :=
  ⟨data, [], (List.append_nil data).symm, splits, front.nil⟩

/-- More data behind leaves the records where they are. -/
theorem Longest.begins (front : FrontParser parse) {more : List β}
    (longest : Longest parse data records) (longest' : Longest parse (data ++ more) records') :
    records <+: records' := by
  obtain ⟨kept, rest, rfl, splits, -⟩ := longest
  obtain ⟨kept', rest', pieces, splits', stuck⟩ := longest'
  have begins : kept <+: kept ++ rest ++ more := by
    rw [List.append_assoc]
    exact List.prefix_append ..
  exact (splits.longest front begins splits' pieces stuck).2

/-- The records are determined by the data. -/
theorem Longest.unique (front : FrontParser parse) (longest : Longest parse data records)
    (longest' : Longest parse data records') : records = records' := by
  have same : data ++ [] = data := List.append_nil data
  have there := longest.begins front (same.symm ▸ longest')
  have back := longest'.begins front (same.symm ▸ longest)
  exact there.eq_of_length_le back.length_le

end Longest

end MatchX.Support
