import MatchX.Journal.Recovery

/-!
# The files of a segmented journal

A segmented journal that was started in an empty directory has the segments 1 to n and no other
file. Each segment is a log of entries, and the segments in order hold the entries in the order
in which they were appended. Sorted by name the segments are in that order as long as their
numbers have at most eight digits.
-/

namespace MatchX.Journal

open Support

/-- Names of the first segments, in order. -/
def segmentNames (count : Nat) : List String :=
  (List.range count).map fun index => segmentPath (UInt64.ofNat (index + 1))

/-- Segments with different numbers have different names. -/
theorem segmentPath_injective : Function.Injective segmentPath := by
  intro left right same
  have texts := congrArg String.toList same
  simp only [segmentPath, String.toList_ofList] at texts
  have numbers := padded_injective 8 (List.append_cancel_right (List.append_cancel_left texts))
  exact UInt64.toNat_inj.mp numbers

/-- A segment name is named as a segment. -/
theorem isSegmentFile_segmentPath (index : UInt64) : isSegmentFile (segmentPath index) = true := by
  simp only [isSegmentFile, segmentPath, String.toList_ofList, Bool.and_eq_true,
    List.isPrefixOf_iff_prefix, List.isSuffixOf_iff_suffix]
  refine ⟨List.prefix_append _ _, ?_⟩
  rw [← List.append_assoc]
  exact List.suffix_append _ _

/-- Names of segments with at most eight digits are ordered as the segments. -/
theorem segmentPath_lt {less more : UInt64} (ordered : less < more)
    (few : more.toNat < 10 ^ 8) : segmentPath less < segmentPath more := by
  rw [String.lt_iff_toList_lt]
  simp only [segmentPath, String.toList_ofList]
  have below : less.toNat < more.toNat := UInt64.lt_iff_toNat_lt.mp ordered
  refine List.Lex.append_left _ (append_lt_append (padded_lt (by decide) below few) ?_ _ _) _
  rw [padded_length (by decide) few, padded_length (by decide) (Nat.lt_trans below few)]

/-- The number of a segment among the first. -/
theorem toNat_segment {index : Nat} (few : index < 10 ^ 8) :
    (UInt64.ofNat (index + 1)).toNat = index + 1 := by
  rw [UInt64.toNat_ofNat']
  exact Nat.mod_eq_of_lt (by omega)

/-- One more segment comes last. -/
theorem segmentNames_succ (count : Nat) :
    segmentNames (count + 1) = segmentNames count ++ [segmentPath (UInt64.ofNat (count + 1))] := by
  rw [segmentNames, List.range_succ, List.map_append]
  rfl

/-- There are as many names as segments. -/
@[simp]
theorem segmentNames_length (count : Nat) : (segmentNames count).length = count := by
  rw [segmentNames, List.length_map, List.length_range]

/-- The next segment has a new name. -/
theorem next_not_mem {count : Nat} (few : count < 10 ^ 8) :
    segmentPath (UInt64.ofNat (count + 1)) ∉ segmentNames count := by
  intro present
  obtain ⟨index, among, same⟩ := List.mem_map.mp present
  have below : index < count := List.mem_range.mp among
  have numbers := congrArg UInt64.toNat (segmentPath_injective same)
  rw [toNat_segment (by omega), toNat_segment few] at numbers
  omega

/-- The names of the segments are in ascending order. -/
theorem segmentNames_sorted {count : Nat} (few : count < 10 ^ 8) :
    (segmentNames count).Pairwise (· < ·) := by
  rw [segmentNames, List.pairwise_map]
  refine List.pairwise_lt_range.imp_of_mem fun {left right} _ among ordered => ?_
  have below : right < count := List.mem_range.mp among
  have number := toNat_segment (show right < 10 ^ 8 by omega)
  have smaller := toNat_segment (show left < 10 ^ 8 by omega)
  exact segmentPath_lt (UInt64.lt_iff_toNat_lt.mpr (by omega)) (by omega)

/-- However a directory lists its segments, they are read in order. -/
theorem listSegmentPaths_eq {dir : Directory} {count : Nat} (few : count < 10 ^ 8)
    (listed : dir.names.Perm (segmentNames count)) :
    listSegmentPaths dir = segmentNames count := by
  have all : dir.names.filter isSegmentFile = dir.names := by
    refine List.filter_eq_self.mpr fun name among => ?_
    obtain ⟨index, -, rfl⟩ := List.mem_map.mp (listed.mem_iff.mp among)
    exact isSegmentFile_segmentPath _
  have sorted : (segmentNames count).Pairwise (· ≤ ·) :=
    (segmentNames_sorted few).imp fun smaller => le_of_lt smaller
  rw [listSegmentPaths, all, sortNames]
  exact ((List.perm_insertionSort _ _).trans listed).eq_of_pairwise'
    (List.pairwise_insertionSort _ _) sorted

/-! ### What the writer leaves behind -/

/-- The files of a journal whose segments hold certain entries. -/
structure Layout (crc32 : List UInt8 → UInt32) (dir : Directory) (writer : SegmentedWriter)
    (chunk : String → List JournalEntry) (entries : List JournalEntry) : Prop where
  /-- The files are the segments up to the current one. -/
  names : dir.names = segmentNames writer.currentSegmentIndex.toNat
  /-- Segments are numbered from 1, with at most eight digits. -/
  numbered : 0 < writer.currentSegmentIndex.toNat ∧
    writer.currentSegmentIndex.toNat < 10 ^ 8
  /-- The current segment is the open file. -/
  current : writer.file = segmentPath writer.currentSegmentIndex
  /-- Each file is a log of entries. -/
  contents : ∀ name, dir.contents name = logBytes crc32 (chunk name)
  /-- In order they hold the entries. -/
  holds : dir.names.flatMap chunk = entries

variable {crc32 : List UInt8 → UInt32} {dir : Directory} {writer : SegmentedWriter}
  {chunk : String → List JournalEntry} {entries : List JournalEntry}

/-- An update elsewhere does not change what a list of keys maps to. -/
theorem flatMap_update {key : String} {keys : List String} (absent : key ∉ keys)
    (value : List JournalEntry) : keys.flatMap (Function.update chunk key value) =
      keys.flatMap chunk :=
  List.flatMap_congr fun _ among =>
    Function.update_of_ne (ne_of_mem_of_not_mem among absent) value chunk

/-- Changing the contents of one file changes its entries alone. -/
theorem contents_update (held : ∀ name, dir.contents name = logBytes crc32 (chunk name))
    (key : String) {bytes : List UInt8} {value : List JournalEntry}
    (written : bytes = logBytes crc32 value) (name : String) :
    Function.update dir.contents key bytes name =
      logBytes crc32 (Function.update chunk key value name) := by
  obtain rfl | other := eq_or_ne name key
  · rw [Function.update_self, Function.update_self, written]
  · rw [Function.update_of_ne other, Function.update_of_ne other, held]

/-- The open file is the last one. -/
theorem Layout.last (layout : Layout crc32 dir writer chunk entries) :
    ∃ before, dir.names = before ++ [writer.file] ∧ writer.file ∉ before := by
  obtain ⟨positive, few⟩ := layout.numbered
  obtain ⟨count, index⟩ := Nat.exists_eq_add_of_lt positive
  rw [Nat.zero_add] at index
  have named : segmentPath (UInt64.ofNat (count + 1)) = writer.file := by
    rw [layout.current, ← index, UInt64.ofNat_toNat]
  refine ⟨segmentNames count, ?_, ?_⟩
  · rw [layout.names, index, segmentNames_succ, named]
  · rw [← named]
    exact next_not_mem (by omega)

/-- Writing a record appends its entry. -/
theorem Layout.write (layout : Layout crc32 dir writer chunk entries) (entry : JournalEntry)
    (size : Nat) :
    Layout crc32 (dir.writeAll writer.file (entry.record crc32))
      { writer with currentSegmentSize := size }
      (Function.update chunk writer.file (chunk writer.file ++ [entry])) (entries ++ [entry]) where
  names := layout.names
  numbered := layout.numbered
  current := layout.current
  contents := contents_update layout.contents writer.file (by
    rw [layout.contents, logBytes, logBytes, List.flatMap_append, List.flatMap_singleton])
  holds := by
    obtain ⟨before, names, absent⟩ := layout.last
    have held := layout.holds
    rw [names, List.flatMap_append, List.flatMap_singleton] at held
    change dir.names.flatMap _ = _
    rw [names, List.flatMap_append, flatMap_update absent, List.flatMap_singleton,
      Function.update_self, ← List.append_assoc, held]

/-- Rotation adds an empty segment. -/
theorem Layout.rotate (layout : Layout crc32 dir writer chunk entries)
    (few : (rotateSegment writer dir).2.names.length < 10 ^ 8) :
    ∃ chunk', Layout crc32 (rotateSegment writer dir).2 (rotateSegment writer dir).1 chunk'
      entries := by
  obtain ⟨positive, bound⟩ := layout.numbered
  have number : (writer.currentSegmentIndex + 1).toNat =
      writer.currentSegmentIndex.toNat + 1 := by
    rw [UInt64.toNat_add]
    exact Nat.mod_eq_of_lt (by simp; omega)
  have index : UInt64.ofNat (writer.currentSegmentIndex.toNat + 1) =
      writer.currentSegmentIndex + 1 := by rw [← number, UInt64.ofNat_toNat]
  have absent : segmentPath (writer.currentSegmentIndex + 1) ∉ dir.names := by
    rw [layout.names, ← index]
    exact next_not_mem bound
  have names : (rotateSegment writer dir).2.names =
      segmentNames (writer.currentSegmentIndex.toNat + 1) := by
    rw [segmentNames_succ, index, ← layout.names]
    exact congrArg Directory.names (if_neg absent)
  have contents : (rotateSegment writer dir).2.contents =
      Function.update dir.contents (segmentPath (writer.currentSegmentIndex + 1)) [] :=
    congrArg Directory.contents (if_neg absent)
  rw [names, segmentNames_length] at few
  refine ⟨Function.update chunk (segmentPath (writer.currentSegmentIndex + 1)) [], ?_⟩
  refine ⟨?_, ?_, rfl, ?_, ?_⟩
  · exact names.trans (congrArg segmentNames number.symm)
  · exact ⟨number ▸ Nat.succ_pos _, number ▸ few⟩
  · rw [contents]
    exact contents_update layout.contents _ rfl
  · rw [names, segmentNames_succ, index, ← layout.names, List.flatMap_append,
      flatMap_update absent, List.flatMap_singleton, Function.update_self, List.append_nil,
      layout.holds]

/-- Appending a record to a segmented journal. -/
theorem Layout.append (layout : Layout crc32 dir writer chunk entries) (entry : JournalEntry)
    (few : (appendRaw (.segmented writer) dir (entry.record crc32)).2.names.length < 10 ^ 8) :
    ∃ writer' chunk',
      (appendRaw (.segmented writer) dir (entry.record crc32)).1 = .segmented writer' ∧
      Layout crc32 (appendRaw (.segmented writer) dir (entry.record crc32)).2 writer' chunk'
        (entries ++ [entry]) := by
  by_cases rotates : 0 < writer.currentSegmentSize ∧
      writer.maxSegmentBytes < writer.currentSegmentSize + (entry.record crc32).length
  · simp only [appendRaw, if_pos rotates] at few ⊢
    obtain ⟨chunk', rotated⟩ := layout.rotate few
    exact ⟨_, _, rfl, rotated.write entry _⟩
  · simp only [appendRaw, if_neg rotates]
    exact ⟨_, _, rfl, layout.write entry _⟩

/-- A fresh segmented journal starts with its first segment. -/
theorem openSegmented_empty (maxSegmentBytes : Nat) :
    openSegmented .empty maxSegmentBytes =
      (.segmented ⟨max maxSegmentBytes 1, 1, 0, segmentPath 1⟩,
        Directory.empty.openAppend (segmentPath 1)) := by
  rfl

/-- The files of a fresh segmented journal. -/
theorem Layout.fresh (crc32 : List UInt8 → UInt32) (maxSegmentBytes : Nat) :
    Layout crc32 (Directory.empty.openAppend (segmentPath 1))
      ⟨max maxSegmentBytes 1, 1, 0, segmentPath 1⟩ (fun _ => []) [] where
  names := rfl
  numbered := show 0 < (1 : UInt64).toNat ∧ (1 : UInt64).toNat < 10 ^ 8 by decide
  current := rfl
  contents := fun name => by
    simp [Directory.openAppend, Directory.empty, logBytes]
  holds := rfl

/-- The directory after a writer, opened in an empty directory, has appended some entries. -/
def written (crc32 : List UInt8 → UInt32) (maxSegmentBytes : Nat)
    (entries : List JournalEntry) : Directory :=
  let (mode, dir) := openSegmented .empty maxSegmentBytes
  (appendAll crc32 mode dir entries).2

/-- Appending a record never removes a file. -/
theorem names_appendRaw_le (mode : WriterMode) (dir : Directory) (record : List UInt8) :
    dir.names.length ≤ (appendRaw mode dir record).2.names.length := by
  cases mode with
  | single file => exact Nat.le_refl _
  | segmented writer =>
    simp only [appendRaw]
    split
    · change _ ≤ (dir.openAppend _).names.length
      rw [Directory.openAppend]
      split
      · exact Nat.le_refl _
      · simp
    · exact Nat.le_refl _

/-- Whatever was appended is laid out in the segments. -/
theorem written_layout {maxSegmentBytes : Nat} (entries : List JournalEntry)
    (few : (written crc32 maxSegmentBytes entries).names.length < 10 ^ 8) :
    ∃ writer chunk, Layout crc32 (written crc32 maxSegmentBytes entries) writer chunk entries := by
  suffices laid : ∃ writer chunk,
      (appendAll crc32 (openSegmented .empty maxSegmentBytes).1
        (openSegmented .empty maxSegmentBytes).2 entries).1 = .segmented writer ∧
      Layout crc32 (written crc32 maxSegmentBytes entries) writer chunk entries by
    obtain ⟨writer, chunk, -, layout⟩ := laid
    exact ⟨writer, chunk, layout⟩
  rw [written] at few ⊢
  rw [openSegmented_empty] at few ⊢
  induction entries using List.reverseRecOn with
  | nil => exact ⟨_, _, rfl, .fresh crc32 maxSegmentBytes⟩
  | append_singleton entries entry ih =>
    simp only [appendAll, List.foldl_append, List.foldl_cons, List.foldl_nil] at few ih ⊢
    have fewer := Nat.lt_of_le_of_lt (names_appendRaw_le _ _ _) few
    obtain ⟨writer, chunk, mode, layout⟩ := ih fewer
    rw [mode] at few ⊢
    exact layout.append entry few

end MatchX.Journal
