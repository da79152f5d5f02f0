import MatchX.Journal.GapFree

/-!
# A segmented journal closed and reopened

The segments of a journal have consecutive numbers, and nothing but their names tells in which
order they were written. The reader sorts the names, and a writer that opens the journal goes on
with the greatest name. Names of one length are sorted as their numbers are, so as long as all
names have the same length, appends and reopenings in any order leave the records in the order
in which they were appended. The name that a number past eight digits gets is longer, and sorts
before the one in front of it.
-/

namespace MatchX.Journal

open Support

/-- Names of segments in a row: the first one, and some more. -/
def segmentRange (first more : Nat) : List String :=
  (List.range' first (more + 1)).map fun index => segmentPath (UInt64.ofNat index)

/-- What is done with a segmented journal. -/
inductive JournalStep where
  /-- A record is appended. -/
  | append (entry : JournalEntry)
  /-- The journal is closed and opened again. -/
  | reopen
  deriving DecidableEq, Repr

namespace JournalStep

/-- The entry that a step appends. -/
def entries : JournalStep → List JournalEntry
  | append entry => [entry]
  | reopen => []

/-- The journal after a step. -/
def apply (crc32 : List UInt8 → UInt32) (maxSegmentBytes : Nat)
    (journal : WriterMode × Directory) : JournalStep → WriterMode × Directory
  | append entry => appendRaw journal.1 journal.2 (entry.record crc32)
  | reopen => openSegmented journal.2 maxSegmentBytes

/-- The journal after some steps. -/
def run (crc32 : List UInt8 → UInt32) (maxSegmentBytes : Nat)
    (journal : WriterMode × Directory) (steps : List JournalStep) : WriterMode × Directory :=
  steps.foldl (apply crc32 maxSegmentBytes) journal

end JournalStep

/-- Whether the next record starts a new segment. -/
def SegmentedWriter.Rotates (writer : SegmentedWriter) (record : List UInt8) : Prop :=
  0 < writer.currentSegmentSize ∧
    writer.maxSegmentBytes < writer.currentSegmentSize + record.length

/-- The segment behind this one has the next number, and a name as long. -/
def KeepsLength (index : UInt64) : Prop :=
  index + 1 ≠ 0 ∧ (segmentPath (index + 1)).length = (segmentPath index).length

instance (index : UInt64) : Decidable (KeepsLength index) := inferInstanceAs (Decidable (_ ∧ _))

/-- A step starts a new segment only where its name is as long as the one before. -/
def JournalStep.KeepsLength (crc32 : List UInt8 → UInt32) (mode : WriterMode) :
    JournalStep → Prop
  | .append entry => ∀ writer, mode = .segmented writer →
      writer.Rotates (entry.record crc32) → Journal.KeepsLength writer.currentSegmentIndex
  | .reopen => True

/-- Every step of a run starts a new segment only where its name is as long as the one
before. -/
def KeepsLengths (crc32 : List UInt8 → UInt32) (maxSegmentBytes : Nat) :
    WriterMode × Directory → List JournalStep → Prop
  | _, [] => True
  | journal, step :: rest => step.KeepsLength crc32 journal.1 ∧
      KeepsLengths crc32 maxSegmentBytes (step.apply crc32 maxSegmentBytes journal) rest

/-! ### The names in a row -/

variable {first more : Nat}

/-- Numbers of segments are kept in 64 bits. -/
theorem toNat_number {index : Nat} (fits : index < 2 ^ 64) :
    (UInt64.ofNat index).toNat = index := by
  rw [UInt64.toNat_ofNat']
  exact Nat.mod_eq_of_lt fits

/-- A segment is in a row if its number is. -/
theorem mem_segmentRange {index : UInt64} (fits : first + more < 2 ^ 64) :
    segmentPath index ∈ segmentRange first more ↔
      first ≤ index.toNat ∧ index.toNat ≤ first + more := by
  simp only [segmentRange, List.mem_map, List.mem_range'_1]
  constructor
  · rintro ⟨number, ⟨low, high⟩, same⟩
    rw [← segmentPath_injective same, toNat_number (by omega)]
    omega
  · rintro ⟨low, high⟩
    exact ⟨index.toNat, ⟨low, by omega⟩, by rw [UInt64.ofNat_toNat]⟩

/-- One more segment comes last. -/
theorem segmentRange_succ (first more : Nat) :
    segmentRange first (more + 1) =
      segmentRange first more ++ [segmentPath (UInt64.ofNat (first + more + 1))] := by
  rw [segmentRange, List.range'_concat, List.map_append, List.map_singleton, Nat.one_mul]
  rfl

/-- The last segment in a row. -/
theorem segmentRange_last (first more : Nat) :
    ∃ before, segmentRange first more =
      before ++ [segmentPath (UInt64.ofNat (first + more))] := by
  cases more with
  | zero => exact ⟨[], rfl⟩
  | succ more => exact ⟨_, segmentRange_succ first more⟩

/-- The length of a segment name is that of its number and of the rest. -/
theorem segmentPath_length (index : UInt64) :
    (segmentPath index).length = 12 + (padded 8 index.toNat).length := by
  have ends : segmentPrefix.length = 8 ∧ segmentSuffix.length = 4 := by decide
  rw [← String.length_toList, segmentPath, String.toList_ofList, List.length_append,
    List.length_append, ends.1, ends.2]
  omega

/-- Segment names of one length are ordered as the segments. -/
theorem segmentPath_lt_of_length {less more : UInt64} (ordered : less < more)
    (same : (segmentPath less).length = (segmentPath more).length) :
    segmentPath less < segmentPath more := by
  rw [segmentPath_length, segmentPath_length] at same
  have lengths : (padded 8 less.toNat).length = (padded 8 more.toNat).length := by omega
  rw [String.lt_iff_toList_lt]
  simp only [segmentPath, String.toList_ofList]
  have below : less.toNat < more.toNat := UInt64.lt_iff_toNat_lt.mp ordered
  exact List.Lex.append_left _ (append_lt_append (padded_lt_of_length below lengths) lengths _ _) _

/-- The first and the last name of a row have one length. -/
def SameLength (first more : Nat) : Prop :=
  (segmentPath (UInt64.ofNat first)).length = (segmentPath (UInt64.ofNat (first + more))).length

instance (first more : Nat) : Decidable (SameLength first more) :=
  inferInstanceAs (Decidable (_ = _))

/-- Names in a row of one length are in ascending order. -/
theorem segmentRange_sorted (fits : first + more < 2 ^ 64) (same : SameLength first more) :
    (segmentRange first more).Pairwise (· < ·) := by
  rw [segmentRange, List.pairwise_map]
  refine (List.pairwise_lt_range' 1 (by decide)).imp_of_mem
    fun {left right} leftIn rightIn ordered => ?_
  rw [List.mem_range'_1] at leftIn rightIn
  have smaller := toNat_number (show left < 2 ^ 64 by omega)
  have greater := toNat_number (show right < 2 ^ 64 by omega)
  refine segmentPath_lt_of_length (UInt64.lt_iff_toNat_lt.mpr (by omega)) ?_
  -- The lengths of the numbers between the ends are between those of the ends.
  have low := length_padded_le 8 leftIn.1
  have middle := length_padded_le 8 (Nat.le_of_lt ordered)
  have high := length_padded_le 8 (show right ≤ first + more by omega)
  rw [SameLength, segmentPath_length, segmentPath_length, toNat_number fits,
    toNat_number (by omega)] at same
  rw [segmentPath_length, segmentPath_length, smaller, greater]
  omega

/-- A text of digits stands for its number. -/
theorem parseU64_padded (index : UInt64) : parseU64 (padded 8 index.toNat) = some index := by
  have digits : ∀ digit ∈ padded 8 index.toNat, digit.isDigit = true := fun _ =>
    isDigit_of_mem_padded
  have filled : padded 8 index.toNat ≠ [] :=
    List.ne_nil_of_length_pos (length_padded_pos 8 index.toNat)
  have unsigned : (padded 8 index.toNat).head? ≠ some '+' := by
    intro sign
    have digit := digits '+' (List.mem_of_mem_head? sign)
    exact absurd digit (by decide)
  have all : (padded 8 index.toNat).all Char.isDigit = true := List.all_eq_true.mpr digits
  simp only [parseU64, if_neg unsigned, if_pos (And.intro filled all), ofDigitChars_padded,
    if_pos index.toNat_lt, UInt64.ofNat_toNat]

/-- The number of a segment is read from its name. -/
theorem parseSegmentIndex_segmentPath (index : UInt64) :
    parseSegmentIndex (segmentPath index) = some index := by
  rw [parseSegmentIndex, if_pos (isSegmentFile_segmentPath index)]
  simp only [segmentPath, String.toList_ofList]
  have front : (segmentPrefix ++ padded 8 index.toNat).length =
      (segmentPrefix ++ padded 8 index.toNat ++ segmentSuffix).length - segmentSuffix.length := by
    simp only [List.length_append, Nat.add_sub_cancel]
  rw [← List.append_assoc, List.take_left' front, List.drop_left, parseU64_padded]

/-- Only the names of segments have a number. -/
theorem isSegmentFile_of_parse {name : String} (parses : (parseSegmentIndex name).isSome = true) :
    isSegmentFile name = true := by
  rw [parseSegmentIndex] at parses
  split at parses
  · assumption
  · contradiction

/-- Writing to a file puts more bytes into it. -/
theorem Directory.writeAll_eq (dir : Directory) (name : String) (bytes : List UInt8) :
    dir.writeAll name bytes = dir.put name (dir.read name ++ bytes) := rfl

section Directories

variable {dir : Directory}

/-- However a directory lists its segments, they are read in a row. -/
theorem listSegmentPaths_range (fits : first + more < 2 ^ 64) (same : SameLength first more)
    (listed : (dir.names.filter isSegmentFile).Perm (segmentRange first more)) :
    listSegmentPaths dir = segmentRange first more := by
  have sorted : (segmentRange first more).Pairwise (· ≤ ·) :=
    (segmentRange_sorted fits same).imp fun smaller => le_of_lt smaller
  rw [listSegmentPaths, sortNames]
  exact ((List.perm_insertionSort _ _).trans listed).eq_of_pairwise'
    (List.pairwise_insertionSort _ _) sorted

/-- The writer finds the same segments. -/
theorem numberedSegmentPaths_range
    (listed : (dir.names.filter isSegmentFile).Perm (segmentRange first more)) :
    numberedSegmentPaths dir = listSegmentPaths dir := by
  have sameFiles : dir.names.filter (fun name => (parseSegmentIndex name).isSome) =
      dir.names.filter isSegmentFile := by
    refine List.filter_congr fun name among => ?_
    rw [Bool.eq_iff_iff]
    refine ⟨isSegmentFile_of_parse, fun named => ?_⟩
    have inRange := listed.mem_iff.mp (List.mem_filter.mpr ⟨among, named⟩)
    obtain ⟨index, -, rfl⟩ := List.mem_map.mp inRange
    rw [parseSegmentIndex_segmentPath]
    rfl
  rw [numberedSegmentPaths, sameFiles, listSegmentPaths]

end Directories

/-! ### Appending and reopening -/

/-- A segmented journal whose segments in a row hold certain entries, and in which a segment that
was not there at the start is longer than the limit only if it holds a single entry. -/
structure InOrder (crc32 : List UInt8 → UInt32) (maxSegmentBytes first more : Nat)
    (initial : List String) (dir : Directory) (chunk : String → List JournalEntry)
    (entries : List JournalEntry) : Prop where
  /-- The numbers of the segments fit. -/
  fits : first + more < 2 ^ 64
  /-- The names of the segments have one length. -/
  same : SameLength first more
  /-- The segments are numbered in a row. -/
  listed : (dir.names.filter isSegmentFile).Perm (segmentRange first more)
  /-- Each is a log of entries. -/
  contents : ∀ name ∈ segmentRange first more, dir.contents name = logBytes crc32 (chunk name)
  /-- In order they hold the entries. -/
  holds : (segmentRange first more).flatMap chunk = entries
  /-- A new segment stays within the limit or holds a single entry. -/
  small : ∀ name ∈ segmentRange first more, name ∉ initial →
    (dir.contents name).length ≤ max maxSegmentBytes 1 ∨ (chunk name).length = 1

/-- The writer goes on with the last segment. -/
structure AtLast (maxSegmentBytes : Nat) (writer : SegmentedWriter) (last : Nat)
    (dir : Directory) : Prop where
  /-- The limit is the one that the writer was opened with. -/
  limit : writer.maxSegmentBytes = max maxSegmentBytes 1
  /-- The current segment is the last. -/
  index : writer.currentSegmentIndex = UInt64.ofNat last
  /-- Its file is open. -/
  file : writer.file = segmentPath (UInt64.ofNat last)
  /-- Its size is known. -/
  size : writer.currentSegmentSize = (dir.contents writer.file).length

variable {crc32 : List UInt8 → UInt32} {maxSegmentBytes : Nat} {initial : List String}
  {dir : Directory} {chunk : String → List JournalEntry} {entries : List JournalEntry}
  {writer : SegmentedWriter}

namespace InOrder

/-- The journal reads as its entries. -/
theorem readAll (held : InOrder crc32 maxSegmentBytes first more initial dir chunk entries) :
    (JournalReader.openDir dir).readAll crc32 dir = .ok entries := by
  have found := @readAll_logs crc32 dir chunk _ [] held.contents
  rw [List.nil_append, held.holds] at found
  rw [JournalReader.readAll, JournalReader.openDir,
    listSegmentPaths_range held.fits held.same held.listed]
  exact found

/-- The last segment is in the row once. -/
theorem split_last (held : InOrder crc32 maxSegmentBytes first more initial dir chunk entries) :
    ∃ before, segmentRange first more =
        before ++ [segmentPath (UInt64.ofNat (first + more))] ∧
      segmentPath (UInt64.ofNat (first + more)) ∉ before := by
  obtain ⟨before, split⟩ := segmentRange_last first more
  have sorted := segmentRange_sorted held.fits held.same
  rw [split] at sorted
  refine ⟨before, split, fun earlier => ?_⟩
  have smaller := (List.pairwise_append.mp sorted).2.2 _ earlier _ (List.mem_singleton_self _)
  exact lt_irrefl _ smaller

/-- A writer that opens the journal goes on with its last segment. -/
theorem reopen (held : InOrder crc32 maxSegmentBytes first more initial dir chunk entries) :
    ∃ writer, openSegmented dir maxSegmentBytes = (.segmented writer, dir) ∧
      AtLast maxSegmentBytes writer (first + more) dir := by
  obtain ⟨before, split, -⟩ := held.split_last
  have last : (numberedSegmentPaths dir).getLast? =
      some (segmentPath (UInt64.ofNat (first + more))) := by
    rw [numberedSegmentPaths_range held.listed,
      listSegmentPaths_range held.fits held.same held.listed, split, List.getLast?_append]
    rfl
  have present : segmentPath (UInt64.ofNat (first + more)) ∈ dir.names := by
    have inRange : segmentPath (UInt64.ofNat (first + more)) ∈ segmentRange first more := by
      rw [split]
      exact List.mem_append_right _ (List.mem_singleton_self _)
    exact (List.mem_filter.mp (held.listed.mem_iff.mpr inRange)).1
  have opened : dir.openAppend (segmentPath (UInt64.ofNat (first + more))) = dir :=
    if_pos present
  refine ⟨⟨max maxSegmentBytes 1, UInt64.ofNat (first + more),
    (dir.read (segmentPath (UInt64.ofNat (first + more)))).length,
    segmentPath (UInt64.ofNat (first + more))⟩, ?_, ⟨rfl, rfl, rfl, rfl⟩⟩
  simp only [openSegmented, last, opened, parseSegmentIndex_segmentPath, Option.getD_some]

/-- A record that is written to the last segment comes after the entries. -/
theorem write (held : InOrder crc32 maxSegmentBytes first more initial dir chunk entries)
    (entry : JournalEntry)
    (room : chunk (segmentPath (UInt64.ofNat (first + more))) = [] ∨
      (dir.contents (segmentPath (UInt64.ofNat (first + more)))).length +
        (entry.record crc32).length ≤ max maxSegmentBytes 1) :
    InOrder crc32 maxSegmentBytes first more initial
      (dir.writeAll (segmentPath (UInt64.ofNat (first + more))) (entry.record crc32))
      (Function.update chunk (segmentPath (UInt64.ofNat (first + more)))
        (chunk (segmentPath (UInt64.ofNat (first + more))) ++ [entry])) (entries ++ [entry]) := by
  obtain ⟨before, split, absent⟩ := held.split_last
  set last := segmentPath (UInt64.ofNat (first + more))
  have bytes (name : String) (among : name ∈ segmentRange first more) :
      (dir.writeAll last (entry.record crc32)).contents name =
        logBytes crc32 (Function.update chunk last (chunk last ++ [entry]) name) := by
    rw [Directory.writeAll_eq, Directory.read]
    obtain rfl | other := eq_or_ne name last
    · rw [Directory.put_self, Function.update_self, held.contents _ among, logBytes, logBytes,
        List.flatMap_append, List.flatMap_singleton]
    · rw [dir.put_of_ne _ other, Function.update_of_ne other, held.contents _ among]
  refine ⟨held.fits, held.same, held.listed, bytes, ?_, ?_⟩
  · have inRow := held.holds
    rw [split, List.flatMap_append, List.flatMap_singleton] at inRow ⊢
    rw [flatMap_update absent, Function.update_self, ← List.append_assoc, inRow]
  · intro name among new
    rw [Directory.writeAll_eq, Directory.read]
    obtain rfl | other := eq_or_ne name last
    · rw [Directory.put_self, Function.update_self, List.length_append]
      obtain empty | fits := room
      · right
        rw [empty]
        rfl
      · exact .inl fits
    · rw [dir.put_of_ne _ other, Function.update_of_ne other]
      exact held.small name among new

/-- Rotation adds an empty segment at the end of the row. -/
theorem rotate (held : InOrder crc32 maxSegmentBytes first more initial dir chunk entries)
    (keeps : KeepsLength (UInt64.ofNat (first + more))) :
    ∃ path, path = segmentPath (UInt64.ofNat (first + (more + 1))) ∧
      UInt64.ofNat (first + more) + 1 = UInt64.ofNat (first + (more + 1)) ∧
      (dir.openAppend path).contents path = [] ∧
      InOrder crc32 maxSegmentBytes first (more + 1) initial (dir.openAppend path)
        (Function.update chunk path []) entries := by
  obtain ⟨inside, length⟩ := keeps
  have fits : first + (more + 1) < 2 ^ 64 := by
    by_contra beyond
    have wraps : first + more = 2 ^ 64 - 1 := by have below := held.fits; omega
    rw [wraps] at inside
    exact inside (by decide)
  have next : UInt64.ofNat (first + more) + 1 = UInt64.ofNat (first + (more + 1)) := by
    rw [← Nat.add_assoc, UInt64.ofNat_add (first + more)]
    rfl
  rw [next] at length
  set path := segmentPath (UInt64.ofNat (first + (more + 1))) with path_def
  have outside : path ∉ segmentRange first more := by
    rw [path_def, mem_segmentRange held.fits, toNat_number fits]
    omega
  have absent : path ∉ dir.names := fun present =>
    outside (held.listed.mem_iff.mp
      (List.mem_filter.mpr ⟨present, isSegmentFile_segmentPath _⟩))
  have names : (dir.openAppend path).names = dir.names ++ [path] :=
    congrArg Directory.names (if_neg absent)
  have contents : (dir.openAppend path).contents = Function.update dir.contents path [] :=
    congrArg Directory.contents (if_neg absent)
  have row : segmentRange first (more + 1) = segmentRange first more ++ [path] :=
    segmentRange_succ first more
  have apart {name : String} (among : name ∈ segmentRange first more) : name ≠ path :=
    ne_of_mem_of_not_mem among outside
  refine ⟨path, rfl, next, by rw [contents, Function.update_self], ?_⟩
  refine ⟨fits, held.same.trans length.symm, ?_, ?_, ?_, ?_⟩
  · have named : [path].filter isSegmentFile = [path] :=
      List.filter_eq_self.mpr fun name among => by
        rw [List.mem_singleton.mp among]
        exact isSegmentFile_segmentPath _
    rw [row, names, List.filter_append, named]
    exact held.listed.append_right [path]
  · intro name among
    rw [row, List.mem_append, List.mem_singleton] at among
    rw [contents]
    obtain earlier | rfl := among
    · rw [Function.update_of_ne (apart earlier), Function.update_of_ne (apart earlier)]
      exact held.contents name earlier
    · rw [Function.update_self, Function.update_self]
      rfl
  · rw [row, List.flatMap_append, flatMap_update outside, List.flatMap_singleton,
      Function.update_self, List.append_nil, held.holds]
  · intro name among new
    rw [row, List.mem_append, List.mem_singleton] at among
    rw [contents]
    obtain earlier | rfl := among
    · rw [Function.update_of_ne (apart earlier), Function.update_of_ne (apart earlier)]
      exact held.small name earlier new
    · left
      rw [Function.update_self]
      exact Nat.zero_le _

/-- Appending a record, when a new segment gets a name as long as the others. -/
theorem append (held : InOrder crc32 maxSegmentBytes first more initial dir chunk entries)
    (atLast : AtLast maxSegmentBytes writer (first + more) dir) (entry : JournalEntry)
    (keeps : writer.Rotates (entry.record crc32) → KeepsLength writer.currentSegmentIndex) :
    ∃ more' writer' dir' chunk',
      appendRaw (.segmented writer) dir (entry.record crc32) = (.segmented writer', dir') ∧
      InOrder crc32 maxSegmentBytes first more' initial dir' chunk' (entries ++ [entry]) ∧
      AtLast maxSegmentBytes writer' (first + more') dir' := by
  obtain ⟨limit, index, file, size⟩ := atLast
  by_cases rotates : writer.Rotates (entry.record crc32)
  · have longEnough := keeps rotates
    rw [index] at longEnough
    obtain ⟨path, rfl, next, empty, rotated⟩ := held.rotate longEnough
    have wrote := rotated.write entry (.inl (Function.update_self ..))
    let writer' : SegmentedWriter :=
      { writer with
        currentSegmentIndex := UInt64.ofNat (first + (more + 1))
        file := segmentPath (UInt64.ofNat (first + (more + 1)))
        currentSegmentSize := 0 + (entry.record crc32).length }
    refine ⟨more + 1, writer', _, _, ?_, wrote, limit, rfl, rfl, ?_⟩
    · rw [appendRaw]
      simp only [if_pos (show 0 < writer.currentSegmentSize ∧ _ from rotates), rotateSegment,
        index, next, writer']
    · simp only [Directory.writeAll, Function.update_self, empty, List.nil_append, writer',
        Nat.zero_add]
  · have stays : chunk (segmentPath (UInt64.ofNat (first + more))) = [] ∨
        (dir.contents (segmentPath (UInt64.ofNat (first + more)))).length +
          (entry.record crc32).length ≤ max maxSegmentBytes 1 := by
      rw [SegmentedWriter.Rotates, size, file, limit] at rotates
      have among : segmentPath (UInt64.ofNat (first + more)) ∈ segmentRange first more := by
        rw [mem_segmentRange held.fits, toNat_number held.fits]
        omega
      cases log : chunk (segmentPath (UInt64.ofNat (first + more))) with
      | nil => exact .inl rfl
      | cons oldest others =>
        right
        have bytes := held.contents _ among
        have long := encodeRecord_length crc32 oldest.sequence oldest.command
        have filled :
            0 < (dir.contents (segmentPath (UInt64.ofNat (first + more)))).length := by
          rw [bytes, log, logBytes, List.flatMap_cons, List.length_append, JournalEntry.record]
          omega
        omega
    have wrote := held.write entry stays
    rw [← file] at wrote
    let writer' : SegmentedWriter :=
      { writer with
        currentSegmentSize := writer.currentSegmentSize + (entry.record crc32).length }
    refine ⟨more, writer', _, _, ?_, wrote, limit, index, file, ?_⟩
    · rw [appendRaw]
      simp only [if_neg (show ¬(0 < writer.currentSegmentSize ∧ _) from rotates), writer']
    · simp only [Directory.writeAll, Function.update_self, List.length_append, size, writer']

/-- Every run of appends and reopenings keeps the journal in order, when new segments get names
as long as the others. -/
theorem run (held : InOrder crc32 maxSegmentBytes first more initial dir chunk entries)
    (atLast : AtLast maxSegmentBytes writer (first + more) dir) (steps : List JournalStep)
    (keeps : KeepsLengths crc32 maxSegmentBytes (.segmented writer, dir) steps) :
    ∃ more' chunk', InOrder crc32 maxSegmentBytes first more' initial
      (JournalStep.run crc32 maxSegmentBytes (.segmented writer, dir) steps).2 chunk'
      (entries ++ steps.flatMap JournalStep.entries) := by
  induction steps generalizing more dir chunk entries writer with
  | nil =>
    refine ⟨more, chunk, ?_⟩
    rw [List.flatMap_nil, List.append_nil]
    exact held
  | cons step rest ih =>
    obtain ⟨keepsFirst, keepsRest⟩ := keeps
    cases step with
    | append entry =>
      obtain ⟨more', writer', dir', chunk', appended, held', atLast'⟩ :=
        held.append atLast entry (keepsFirst writer rfl)
      simp only [JournalStep.apply, appended] at keepsRest
      obtain ⟨more'', chunk'', last⟩ := ih held' atLast' keepsRest
      refine ⟨more'', chunk'', ?_⟩
      simp only [JournalStep.run, List.foldl_cons, JournalStep.apply, appended,
        List.flatMap_cons, JournalStep.entries] at last ⊢
      rwa [← List.append_assoc]
    | reopen =>
      obtain ⟨writer', opened, atLast'⟩ := held.reopen
      simp only [JournalStep.apply, opened] at keepsRest
      obtain ⟨more'', chunk'', last⟩ := ih held atLast' keepsRest
      refine ⟨more'', chunk'', ?_⟩
      simpa only [JournalStep.run, List.foldl_cons, JournalStep.apply, opened,
        List.flatMap_cons, JournalStep.entries, List.nil_append] using last

end InOrder

/-- A log that is not empty is longer than a byte. -/
theorem one_lt_length_logBytes {log : List JournalEntry}
    (filled : 0 < (logBytes crc32 log).length) : 1 < (logBytes crc32 log).length := by
  cases log with
  | nil => contradiction
  | cons oldest others =>
    have long := encodeRecord_length crc32 oldest.sequence oldest.command
    rw [logBytes, List.flatMap_cons, List.length_append, JournalEntry.record]
    omega

/-- Appends and reopenings in any order leave a segmented journal that reads as the earlier
entries followed by the new ones, with no record split over two segments, and with no new
segment longer than the limit unless it holds a single record, as long as all segments get names
of one length. -/
theorem reopened_in_order (crc32 : List UInt8 → UInt32) (maxSegmentBytes first more : Nat)
    (dir : Directory) (log : String → List JournalEntry) (steps : List JournalStep)
    (fits : first + more < 2 ^ 64)
    (listed : (dir.names.filter isSegmentFile).Perm (segmentRange first more))
    (logs : ∀ name ∈ segmentRange first more, dir.contents name = logBytes crc32 (log name))
    (same : SameLength first more)
    (keeps : KeepsLengths crc32 maxSegmentBytes (openSegmented dir maxSegmentBytes) steps) :
    let final := (JournalStep.run crc32 maxSegmentBytes (openSegmented dir maxSegmentBytes) steps).2
    let entries := (segmentRange first more).flatMap log ++ steps.flatMap JournalStep.entries
    (JournalReader.openDir final).readAll crc32 final = .ok entries ∧
      ∃ chunk, (listSegmentPaths final).flatMap chunk = entries ∧
        (∀ name ∈ listSegmentPaths final, final.contents name = logBytes crc32 (chunk name)) ∧
        ∀ name ∈ listSegmentPaths final, name ∉ dir.names →
          maxSegmentBytes < (final.contents name).length → (chunk name).length = 1 := by
  intro final entries
  have begins : InOrder crc32 maxSegmentBytes first more dir.names dir log
      ((segmentRange first more).flatMap log) :=
    ⟨fits, same, listed, logs, rfl, fun name among new =>
      absurd (List.mem_filter.mp (listed.mem_iff.mpr among)).1 new⟩
  obtain ⟨writer, opened, atLast⟩ := begins.reopen
  rw [opened] at keeps
  obtain ⟨more', chunk, held⟩ := begins.run atLast steps keeps
  rw [← opened] at held
  have names := listSegmentPaths_range held.fits held.same held.listed
  refine ⟨held.readAll, chunk, ?_, ?_, ?_⟩
  · rw [names]
    exact held.holds
  · rw [names]
    exact held.contents
  · intro name among new large
    rw [names] at among
    have bytes := held.contents name among
    obtain within | single := held.small name among new
    · have filled : 0 < (final.contents name).length := Nat.zero_lt_of_lt large
      have long : 1 < (final.contents name).length := by
        rw [bytes] at filled ⊢
        exact one_lt_length_logBytes filled
      have bound : (final.contents name).length ≤ max maxSegmentBytes 1 := within
      omega
    · exact single

/-- A directory whose only segment holds one cancellation. -/
def loneSegment (index : UInt64) : Directory :=
  (Directory.empty.openAppend (segmentPath index)).writeAll (segmentPath index)
    (JournalEntry.record crc32Hash ⟨1, .cancelOrder 1⟩)

/-- An entry appended, the journal reopened, and another entry appended. -/
def appendTwice : List JournalStep :=
  [.append ⟨2, .cancelOrder 2⟩, .reopen, .append ⟨3, .cancelOrder 3⟩]

/-- Behind segment 7 the new segments are read in order. -/
theorem reopened_in_order_from_seven :
    let final := (JournalStep.run crc32Hash 1 (openSegmented (loneSegment 7) 1) appendTwice).2
    (JournalReader.openDir final).readAll crc32Hash final =
      .ok [⟨1, .cancelOrder 1⟩, ⟨2, .cancelOrder 2⟩, ⟨3, .cancelOrder 3⟩] := by
  have logs : ∀ name ∈ segmentRange 7 0, (loneSegment 7).contents name =
      logBytes crc32Hash [⟨1, .cancelOrder 1⟩] := by decide +kernel
  have keeps : KeepsLengths crc32Hash 1 (openSegmented (loneSegment 7) 1) appendTwice := by
    simp only [KeepsLengths, appendTwice, JournalStep.KeepsLength]
    refine ⟨fun writer opened _ => ?_, trivial, fun writer opened _ => ?_, trivial⟩
    · cases opened
      decide +kernel
    · cases opened
      decide +kernel
  exact (reopened_in_order crc32Hash 1 7 0 (loneSegment 7) (fun _ => [⟨1, .cancelOrder 1⟩])
    appendTwice (by decide) (by decide +kernel) logs (by decide +kernel) keeps).1

/-- The segment behind number 99999999 is read before it. -/
theorem misread_past_eight_digits :
    ((loneSegment 99999999).names.filter isSegmentFile).Perm (segmentRange 99999999 0) ∧
      (∀ name ∈ segmentRange 99999999 0, (loneSegment 99999999).contents name =
        logBytes crc32Hash [⟨1, .cancelOrder 1⟩]) ∧
      let final := (JournalStep.run crc32Hash 1 (openSegmented (loneSegment 99999999) 1)
        [.append ⟨2, .cancelOrder 2⟩]).2
      ((JournalReader.openDir final).readAll crc32Hash final).toOption =
        some [⟨2, .cancelOrder 2⟩, ⟨1, .cancelOrder 1⟩] := by
  decide +kernel

end MatchX.Journal
