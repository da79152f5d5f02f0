import Mathlib.Data.List.Infix

/-!
# Logs of framed records cut short

A log is the concatenation of the frames of its records. When such a log is cut at a byte, the
records whose frames lie before the cut are left whole, and behind them at most a piece of one
frame.
-/

namespace MatchX.Support

variable {ρ : Type} (frame : ρ → List UInt8)

/-- The records at the front of a log whose frames fit a number of bytes. -/
def whole : Nat → List ρ → List ρ
  | _, [] => []
  | room, record :: rest =>
    if (frame record).length ≤ room then record :: whole (room - (frame record).length) rest
    else []

/-- A piece of a frame that lacks its end. -/
def Torn (bytes : List UInt8) : Prop :=
  ∃ record count, count < (frame record).length ∧ bytes = (frame record).take count

variable {frame}

/-- The whole records are at the front of the log. -/
theorem whole_prefix (room : Nat) (records : List ρ) : whole frame room records <+: records := by
  induction records generalizing room with
  | nil => exact List.prefix_rfl
  | cons record rest ih =>
    rw [whole]
    split
    · exact List.prefix_cons_inj record |>.mpr (ih _)
    · exact List.nil_prefix

/-- A log cut short is its whole records, and possibly a torn one. -/
theorem take_flatMap (room : Nat) (records : List ρ) :
    ∃ torn, (records.flatMap frame).take room = (whole frame room records).flatMap frame ++ torn ∧
      (torn = [] ∨ Torn frame torn) := by
  induction records generalizing room with
  | nil => exact ⟨[], by simp [whole], .inl rfl⟩
  | cons record rest ih =>
    by_cases fits : (frame record).length ≤ room
    · obtain ⟨torn, split, tear⟩ := ih (room - (frame record).length)
      refine ⟨torn, ?_, tear⟩
      rw [whole, if_pos fits, List.flatMap_cons, List.flatMap_cons, List.take_append, split,
        List.take_of_length_le fits, List.append_assoc]
    · have short : room < (frame record).length := Nat.lt_of_not_le fits
      refine ⟨(frame record).take room, ?_, .inr ⟨record, room, short, rfl⟩⟩
      rw [whole, if_neg fits, List.flatMap_cons, List.flatMap_nil, List.nil_append,
        List.take_append_of_le_length (Nat.le_of_lt short)]

/-- The frames of the whole records fit the bytes. -/
theorem length_whole_le (room : Nat) (records : List ρ) :
    ((whole frame room records).flatMap frame).length ≤ room := by
  obtain ⟨torn, split, -⟩ := @take_flatMap _ frame room records
  have bounded := List.length_take_le room (records.flatMap frame)
  rw [split, List.length_append] at bounded
  omega

/-- A log that fits the bytes keeps all its records. -/
theorem whole_of_le {room : Nat} {records : List ρ}
    (fits : (records.flatMap frame).length ≤ room) : whole frame room records = records := by
  induction records generalizing room with
  | nil => rfl
  | cons record rest ih =>
    rw [List.flatMap_cons, List.length_append] at fits
    rw [whole, if_pos (by omega), ih (by omega)]

/-- A log keeps the records at its front that fit the bytes. -/
theorem prefix_whole {room : Nat} {first rest : List ρ}
    (fits : (first.flatMap frame).length ≤ room) : first <+: whole frame room (first ++ rest) := by
  induction first generalizing room with
  | nil => exact List.nil_prefix
  | cons record first ih =>
    rw [List.flatMap_cons, List.length_append] at fits
    rw [List.cons_append, whole, if_pos (by omega), List.prefix_cons_inj]
    exact ih (by omega)

/-- A log that does not fit the bytes loses a record. -/
theorem whole_ne_of_lt {room : Nat} {records : List ρ}
    (cut : room < (records.flatMap frame).length) : whole frame room records ≠ records := by
  intro same
  have bounded := @length_whole_le _ frame room records
  rw [same] at bounded
  omega

/-- The records kept are those whose frames end within the bytes. -/
theorem whole_eq_take (room : Nat) (records : List ρ) :
    ∃ count, whole frame room records = records.take count ∧
      ∀ index < records.length,
        index < count ↔ ((records.take (index + 1)).flatMap frame).length ≤ room := by
  induction records generalizing room with
  | nil => exact ⟨0, rfl, fun _ inside => absurd inside (Nat.not_lt_zero _)⟩
  | cons record rest ih =>
    by_cases fits : (frame record).length ≤ room
    · obtain ⟨count, kept, ends⟩ := ih (room - (frame record).length)
      refine ⟨count + 1, ?_, fun index inside => ?_⟩
      · rw [whole, if_pos fits, kept, List.take_succ_cons]
      · rw [List.take_succ_cons, List.flatMap_cons, List.length_append]
        cases index with
        | zero => simpa using fits
        | succ index =>
          have later := ends index (Nat.lt_of_succ_lt_succ inside)
          omega
    · refine ⟨0, ?_, fun index _ => ?_⟩
      · rw [whole, if_neg fits, List.take_zero]
      · rw [List.take_succ_cons, List.flatMap_cons, List.length_append]
        omega

/-! ### Several logs in a row -/

variable {κ : Type} {kept full : κ → List ρ}

/-- Lists kept in part up to one that lost something, and not at all behind it, are in a row a
prefix of the lists in a row. -/
theorem flatMap_prefix_of_ends (parts : ∀ key, kept key <+: full key) {keys : List κ}
    (ends : keys.Pairwise fun earlier later => kept earlier ≠ full earlier → kept later = []) :
    keys.flatMap kept <+: keys.flatMap full := by
  induction keys with
  | nil => exact List.prefix_rfl
  | cons key rest ih =>
    obtain ⟨behind, later⟩ := List.pairwise_cons.mp ends
    rw [List.flatMap_cons, List.flatMap_cons]
    by_cases all : kept key = full key
    · rw [all]
      exact (List.prefix_append_right_inj _).mpr (ih later)
    · have nothing : rest.flatMap kept = [] :=
        List.flatMap_eq_nil_iff.mpr fun other among => behind other among all
      rw [nothing, List.append_nil]
      exact (parts key).trans (List.prefix_append ..)

/-- When no record occurs twice, lists kept in part are in a row a prefix only if nothing is
kept behind one that lost something. -/
theorem ends_of_flatMap_prefix (parts : ∀ key, kept key <+: full key) {keys : List κ}
    (distinct : (keys.flatMap full).Nodup) (before : keys.flatMap kept <+: keys.flatMap full) :
    keys.Pairwise fun earlier later => kept earlier ≠ full earlier → kept later = [] := by
  induction keys with
  | nil => exact .nil
  | cons key rest ih =>
    rw [List.flatMap_cons, List.flatMap_cons] at before
    rw [List.flatMap_cons] at distinct
    obtain ⟨-, distinctRest, apart⟩ := List.nodup_append.mp distinct
    by_cases all : kept key = full key
    · rw [all, List.prefix_append_right_inj] at before
      exact List.pairwise_cons.mpr ⟨fun _ _ lost => absurd all lost, ih distinctRest before⟩
    · -- The first record that the list lost would have to be the next one kept.
      obtain ⟨lost, rebuilt⟩ := parts key
      have nothing : rest.flatMap kept = [] := by
        cases lost with
        | nil => exact absurd (by rwa [List.append_nil] at rebuilt) all
        | cons first others =>
          rw [← rebuilt, List.append_assoc, List.prefix_append_right_inj,
            List.cons_append] at before
          cases next : rest.flatMap kept with
          | nil => rfl
          | cons record more =>
            rw [next, List.cons_prefix_cons] at before
            have inKept : first ∈ rest.flatMap kept := by simp [next, before.1]
            obtain ⟨other, among, found⟩ := List.mem_flatMap.mp inKept
            have inFull : first ∈ rest.flatMap full :=
              List.mem_flatMap.mpr ⟨other, among, (parts other).subset found⟩
            have inKey : first ∈ full key := by simp [← rebuilt]
            exact absurd rfl (apart _ inKey _ inFull)
      have empty := List.flatMap_eq_nil_iff.mp nothing
      refine List.pairwise_cons.mpr ⟨fun other among _ => empty other among, ?_⟩
      exact List.pairwise_of_forall_mem_list fun _ _ later among _ => empty later among

end MatchX.Support
