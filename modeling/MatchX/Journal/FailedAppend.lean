import MatchX.Journal.Reopening
import MatchX.Journal.StreamingReader
import MatchX.Support.Runs
import MatchX.Support.Tagged

/-!
# Appends that fail

When `write_all` fails, what it has written stays in the file, and the writer goes on behind it.
Recovery then cuts the file in front of the torn record, and every record behind it is lost,
though `append` returned `Ok` for it. Nothing is lost while each such record is written behind
whole records, in a file that is read after those of the earlier ones.
-/

namespace MatchX.Journal

open Support

/-! ### Runs of a writer -/

/-- `append_raw` when its `write_all` fails: some of the record is in the file, and its size is not
counted. -/
def appendRawFails (mode : WriterMode) (dir : Directory) (record : List UInt8) (written : Nat) :
    WriterMode × Directory :=
  match mode with
  | .single file => (.single file, dir.writeAll file (record.take written))
  | .segmented writer =>
    let nextSize := writer.currentSegmentSize + record.length
    let (writer, dir) :=
      if 0 < writer.currentSegmentSize ∧ writer.maxSegmentBytes < nextSize then
        rotateSegment writer dir
      else (writer, dir)
    (.segmented writer, dir.writeAll writer.file (record.take written))

/-- `JournalWriter::open` or `JournalWriter::open_segmented`. -/
def openWriter (dir : Directory) (maxSegmentBytes : Nat) : JournalPath → WriterMode × Directory
  | .directory => openSegmented dir maxSegmentBytes
  | .file path => openSingle dir path

/-- The file that a writer appends to. -/
def WriterMode.file : WriterMode → String
  | .single file => file
  | .segmented writer => writer.file

/-- A call of `append`, and how it ends. -/
inductive AppendCall where
  /-- It returns `Ok`. -/
  | returnsOk (entry : JournalEntry)
  /-- It returns `Err`, since `write_all` failed when it had written some bytes of the record. -/
  | returnsErr (entry : JournalEntry) (written : Nat)
  deriving DecidableEq, Repr

/-- A writer, its files, and the entries of the calls that returned `Ok`, each with the file that
its record was written to. -/
structure Appending where
  /-- The writer. -/
  mode : WriterMode
  /-- The files. -/
  dir : Directory
  /-- Files and entries, in the order of the calls. -/
  acknowledged : List (String × JournalEntry)

namespace Appending

/-- A writer that was opened, before any call. -/
def opened (dir : Directory) (maxSegmentBytes : Nat) (path : JournalPath) : Appending :=
  let (mode, dir) := openWriter dir maxSegmentBytes path
  ⟨mode, dir, []⟩

/-- One call of `append`. -/
def apply (crc32 : List UInt8 → UInt32) (state : Appending) :
    AppendCall → Except JournalError Appending
  | .returnsOk entry =>
    let (mode, dir) := appendRaw state.mode state.dir (entry.record crc32)
    .ok ⟨mode, dir, state.acknowledged ++ [(mode.file, entry)]⟩
  | .returnsErr entry written =>
    let (mode, dir) := appendRawFails state.mode state.dir (entry.record crc32) written
    .ok { state with mode, dir }

/-- A `write_all` that fails leaves a strict beginning of the record. -/
def Possible (crc32 : List UInt8 → UInt32) : AppendCall → Prop
  | .returnsOk _ => True
  | .returnsErr entry written => written < (entry.record crc32).length

instance (crc32 : List UInt8 → UInt32) (call : AppendCall) : Decidable (Possible crc32 call) := by
  cases call <;> unfold Possible <;> infer_instance

/-- `append_raw` up to its `write_all`. -/
def beforeWrite (mode : WriterMode) (dir : Directory) (record : List UInt8) :
    WriterMode × Directory :=
  match mode with
  | .single file => (.single file, dir)
  | .segmented writer =>
    if 0 < writer.currentSegmentSize ∧
        writer.maxSegmentBytes < writer.currentSegmentSize + record.length then
      let (writer, dir) := rotateSegment writer dir
      (.segmented writer, dir)
    else (.segmented writer, dir)

/-- A call that returns `Ok` writes its record behind whole records, and into no file that is read
before the file of an earlier such call. -/
def InTime (crc32 : List UInt8 → UInt32) (state : Appending) : AppendCall → Prop
  | .returnsOk entry =>
    let before := beforeWrite state.mode state.dir (entry.record crc32)
    (readFrom crc32 (before.2.read before.1.file) 0 []).isOk = true ∧
      ∀ earlier ∈ state.acknowledged, earlier.1 ≤ before.1.file
  | .returnsErr _ _ => True

instance (crc32 : List UInt8 → UInt32) (state : Appending) (call : AppendCall) :
    Decidable (state.InTime crc32 call) := by
  cases call <;> unfold InTime <;> infer_instance

/-- Recovery succeeds, reading the recovered journal succeeds, and finds in order the entries of
all calls that returned `Ok`. -/
def KeepsAcknowledged (crc32 : List UInt8 → UInt32) (path : JournalPath) (state : Appending) :
    Prop :=
  ∃ recovered report read, recoverPath crc32 state.dir path = .ok (recovered, report) ∧
    (JournalReader.open recovered path).bind (fun reader => reader.readAll crc32 recovered) =
      .ok read ∧
    (state.acknowledged.map Prod.snd).Sublist read

end Appending

/-! ### What the writer does to the files -/

variable {crc32 : List UInt8 → UInt32} {path : JournalPath} {mode : WriterMode} {dir : Directory}
  {record bytes : List UInt8} {entry : JournalEntry} {acknowledged : List (String × JournalEntry)}

/-- A writer appends to a file of its journal. -/
inductive Serves : JournalPath → WriterMode → Directory → Prop
  /-- The one file. -/
  | single {file : String} {dir : Directory} (present : file ∈ dir.names) :
    Serves (.file file) (.single file) dir
  /-- A segment. -/
  | segmented {writer : SegmentedWriter} {dir : Directory} (present : writer.file ∈ dir.names)
      (named : isSegmentFile writer.file = true) : Serves .directory (.segmented writer) dir

/-- The segments of a directory are its files that are named so. -/
theorem mem_listSegmentPaths_iff {name : String} :
    name ∈ listSegmentPaths dir ↔ name ∈ dir.names ∧ isSegmentFile name = true := by
  rw [listSegmentPaths, sortNames, List.mem_insertionSort, List.mem_filter]

/-- The file is there. -/
theorem Serves.present (serves : Serves path mode dir) : mode.file ∈ dir.names := by
  cases serves with
  | single present => exact present
  | segmented present named => exact present

/-- It is one of the files that the journal is read from. -/
theorem Serves.mem (serves : Serves path mode dir) : mode.file ∈ segmentPaths dir path := by
  cases serves with
  | single present => exact List.mem_singleton_self _
  | segmented present named => exact mem_listSegmentPaths_iff.mpr ⟨present, named⟩

/-- The journal is read from files that are there. -/
theorem Serves.there (serves : Serves path mode dir) {name : String}
    (among : name ∈ segmentPaths dir path) : name ∈ dir.names := by
  cases serves with
  | single present => exact List.mem_singleton.mp among ▸ present
  | segmented present named => exact mem_listSegmentPaths among

/-- The files of a directory are there with what they held in another one. -/
def Retains (dir dir' : Directory) : Prop :=
  ∀ name ∈ dir.names, name ∈ dir'.names ∧ dir'.contents name = dir.contents name

/-- Opening a file keeps the files. -/
theorem openAppend_retains (dir : Directory) (file : String) : Retains dir (dir.openAppend file) := by
  intro name among
  rw [Directory.openAppend]
  split
  · exact ⟨among, rfl⟩
  · rename_i absent
    have apart : name ≠ file := ne_of_mem_of_not_mem among absent
    exact ⟨List.mem_append_left _ among, Function.update_of_ne apart ..⟩

/-- Files that are kept are read as before. -/
theorem Retains.mem {dir' : Directory} (retains : Retains dir dir') {name : String}
    (among : name ∈ segmentPaths dir path) : name ∈ segmentPaths dir' path := by
  cases path with
  | file path => exact among
  | directory =>
    obtain ⟨present, named⟩ := mem_listSegmentPaths_iff.mp among
    exact mem_listSegmentPaths_iff.mpr ⟨(retains name present).1, named⟩

namespace Appending

/-- Before it writes, a writer changes no file, and perhaps goes on with another one. -/
theorem beforeWrite_serves (serves : Serves path mode dir) (record : List UInt8) :
    Serves path (beforeWrite mode dir record).1 (beforeWrite mode dir record).2 ∧
      Retains dir (beforeWrite mode dir record).2 := by
  have same : Retains dir dir := fun _ among => ⟨among, rfl⟩
  cases serves with
  | single present => exact ⟨.single present, same⟩
  | @segmented writer _ present named =>
    rw [beforeWrite]
    split
    · exact ⟨.segmented (mem_openAppend ..) (isSegmentFile_segmentPath _),
        openAppend_retains dir _⟩
    · exact ⟨.segmented present named, same⟩

/-- The writer when it has counted the bytes of a record. -/
def counted (mode : WriterMode) (record : List UInt8) : WriterMode :=
  match mode with
  | .single file => .single file
  | .segmented writer =>
    .segmented { writer with currentSegmentSize := writer.currentSegmentSize + record.length }

/-- Counting changes no file. -/
theorem counted_file (mode : WriterMode) (record : List UInt8) :
    (counted mode record).file = mode.file := by
  cases mode <;> rfl

/-- Appending a record is writing it, and counting it, after the rotation. -/
theorem appendRaw_eq (mode : WriterMode) (dir : Directory) (record : List UInt8) :
    appendRaw mode dir record =
      (counted (beforeWrite mode dir record).1 record,
        (beforeWrite mode dir record).2.writeAll (beforeWrite mode dir record).1.file record) := by
  cases mode with
  | single file => rfl
  | segmented writer =>
    simp only [appendRaw, beforeWrite]
    split <;> rfl

/-- Failing to is writing some of it. -/
theorem appendRawFails_eq (mode : WriterMode) (dir : Directory) (record : List UInt8)
    (written : Nat) :
    appendRawFails mode dir record written =
      ((beforeWrite mode dir record).1,
        (beforeWrite mode dir record).2.writeAll (beforeWrite mode dir record).1.file
          (record.take written)) := by
  cases mode with
  | single file => rfl
  | segmented writer =>
    simp only [appendRawFails, beforeWrite]
    split <;> rfl

/-- A new writer serves its journal. -/
theorem openWriter_serves (dir : Directory) (maxSegmentBytes : Nat) (path : JournalPath) :
    Serves path (openWriter dir maxSegmentBytes path).1 (openWriter dir maxSegmentBytes path).2 := by
  cases path with
  | file path => exact .single (mem_openAppend ..)
  | directory =>
    simp only [openWriter, openSegmented]
    cases last : (numberedSegmentPaths dir).getLast? with
    | none => exact .segmented (mem_openAppend ..) (isSegmentFile_segmentPath 1)
    | some name =>
      have among := List.mem_of_getLast? last
      rw [numberedSegmentPaths, sortNames, List.mem_insertionSort, List.mem_filter] at among
      exact .segmented (mem_openAppend ..) (isSegmentFile_of_parse among.2)

/-! ### Where the acknowledged records are -/

/-- The acknowledged records are in files of the journal, in the order in which these are read, and
in front of what recovery cuts off. -/
structure Accounted (crc32 : List UInt8 → UInt32) (path : JournalPath) (state : Appending) :
    Prop where
  /-- The writer appends to a file of the journal. -/
  serves : Serves path state.mode state.dir
  /-- So it did before. -/
  listed : ∀ earlier ∈ state.acknowledged, earlier.1 ∈ segmentPaths state.dir path
  /-- It has gone on only with files that are read later. -/
  ordered : state.acknowledged.Pairwise fun first second => first.1 ≤ second.1
  /-- The records of a file are among those of its longest beginning. -/
  held : ∀ name records, Longest (acceptRecord crc32) (state.dir.contents name) records →
    (tagged name state.acknowledged).Sublist records

/-- Before it writes, a writer leaves the acknowledged records where they are. -/
theorem Accounted.before (accounted : Accounted crc32 path ⟨mode, dir, acknowledged⟩)
    (record : List UInt8) : Accounted crc32 path
      ⟨(beforeWrite mode dir record).1, (beforeWrite mode dir record).2, acknowledged⟩ := by
  obtain ⟨serves, listed, ordered, held⟩ := accounted
  obtain ⟨serves', retains⟩ := beforeWrite_serves serves record
  refine ⟨serves', fun earlier among => retains.mem (listed earlier among), ordered, ?_⟩
  intro name records longest
  by_cases present : name ∈ dir.names
  · rw [(retains name present).2] at longest
    exact held name records longest
  · have unused : ∀ earlier ∈ acknowledged, earlier.1 ≠ name := fun earlier among =>
      ne_of_mem_of_not_mem (serves.there (listed earlier among)) present
    rw [tagged_eq_nil unused]
    exact List.nil_sublist _

/-- A writer that has written serves the same journal. -/
theorem serves_writeAll {file : String} (serves : Serves path mode dir) (bytes : List UInt8) :
    Serves path mode (dir.writeAll file bytes) := by
  cases serves with
  | single present => exact .single present
  | segmented present named => exact .segmented present named

/-- A writer that has counted a record serves the same journal. -/
theorem serves_counted (serves : Serves path mode dir) (record : List UInt8) :
    Serves path (counted mode record) dir := by
  cases serves with
  | single present => exact .single present
  | segmented present named => exact .segmented present named

/-- Writing leaves the files of the journal. -/
theorem segmentPaths_writeAll (dir : Directory) (file : String) (bytes : List UInt8)
    (path : JournalPath) : segmentPaths (dir.writeAll file bytes) path = segmentPaths dir path := by
  cases path <;> rfl

/-- The bytes of a file after a write. -/
theorem contents_writeAll (dir : Directory) (file : String) (bytes : List UInt8) (name : String) :
    (dir.writeAll file bytes).contents name =
      dir.contents name ++ if name = file then bytes else [] := by
  by_cases same : name = file
  · subst same
    rw [if_pos rfl]
    exact Function.update_self ..
  · rw [if_neg same, List.append_nil]
    exact Function.update_of_ne same ..

/-- Writing any bytes leaves the acknowledged records where they are. -/
theorem Accounted.write (accounted : Accounted crc32 path ⟨mode, dir, acknowledged⟩)
    (bytes : List UInt8) :
    Accounted crc32 path ⟨mode, dir.writeAll mode.file bytes, acknowledged⟩ := by
  obtain ⟨serves, listed, ordered, held⟩ := accounted
  refine ⟨serves_writeAll serves bytes, ?_, ordered, fun name records longest => ?_⟩
  · intro earlier among
    rw [segmentPaths_writeAll]
    exact listed earlier among
  · obtain ⟨before, shorter⟩ := Longest.exists acceptRecord_front (dir.contents name)
    rw [contents_writeAll] at longest
    exact (held name before shorter).trans (shorter.begins acceptRecord_front longest).sublist

/-- Writing a record behind whole records, in a file that is read after those of the earlier ones,
and acknowledging it. -/
theorem Accounted.acknowledge (accounted : Accounted crc32 path ⟨mode, dir, acknowledged⟩)
    (entry : JournalEntry) {entries : List JournalEntry}
    (whole : Splits (acceptRecord crc32) (dir.contents mode.file) entries)
    (later : ∀ earlier ∈ acknowledged, earlier.1 ≤ mode.file) :
    Accounted crc32 path ⟨counted mode (entry.record crc32),
      dir.writeAll mode.file (entry.record crc32), acknowledged ++ [(mode.file, entry)]⟩ := by
  have written := accounted.write (entry.record crc32)
  refine ⟨serves_counted written.serves _, ?_, ?_, ?_⟩
  · intro earlier among
    rcases List.mem_append.mp among with old | new
    · exact written.listed earlier old
    · rw [List.mem_singleton.mp new]
      exact written.serves.mem
  · refine List.pairwise_append.mpr ⟨accounted.ordered, List.pairwise_singleton .., ?_⟩
    intro earlier among last new
    rw [List.mem_singleton.mp new]
    exact later earlier among
  · intro name records longest
    dsimp only at longest ⊢
    rw [tagged_append]
    by_cases same : name = mode.file
    · subst same
      have one : Splits (acceptRecord crc32) (entry.record crc32) [entry] := by
        have log := @logBytes_splits crc32 [entry]
        rwa [logBytes, List.flatMap_singleton] at log
      have all := Longest.of_splits acceptRecord_front (whole.append one)
      rw [contents_writeAll, if_pos rfl] at longest
      rw [longest.unique acceptRecord_front all, tagged_self]
      have before := accounted.held _ _ (Longest.of_splits acceptRecord_front whole)
      exact before.append (List.Sublist.refl _)
    · rw [tagged_of_ne (Ne.symm same), List.append_nil]
      exact written.held name records longest

/-! ### Recovery and reading -/

section Recovery

variable {chunk : String → List JournalEntry}

/-- Recovery of a file leaves its longest beginning, and the other files. -/
theorem recoverFile_chunk
    (longest : ∀ name, Longest (acceptRecord crc32) (dir.contents name) (chunk name))
    (file : String) :
    ∃ recovered report, recoverFile crc32 dir file = .ok (recovered, report) ∧
      recovered.names = dir.names ∧
      Splits (acceptRecord crc32) (recovered.contents file) (chunk file) ∧
      ∀ name, name ≠ file → recovered.contents name = dir.contents name := by
  obtain ⟨kept, removed, pieces, splits, stuck⟩ := longest file
  refine ⟨_, _, recoverFile_splits pieces splits stuck, rfl, ?_, fun name apart => ?_⟩
  · rw [dir.put_self]
    exact splits
  · exact dir.put_of_ne kept apart

/-- Recovery of files in a row leaves the longest beginning of each. -/
theorem recoverSegments_chunk
    (longest : ∀ name, Longest (acceptRecord crc32) (dir.contents name) (chunk name))
    (report : RecoveryReport) (files : List String) :
    ∃ recovered report', files.foldlM (recoverSegment crc32) (dir, report) =
        .ok (recovered, report') ∧
      recovered.names = dir.names ∧
      ∀ name, name ∈ files ∨ Splits (acceptRecord crc32) (dir.contents name) (chunk name) →
        Splits (acceptRecord crc32) (recovered.contents name) (chunk name) := by
  induction files generalizing dir report with
  | nil => exact ⟨dir, report, rfl, rfl, fun name whole => whole.resolve_left List.not_mem_nil⟩
  | cons file rest ih =>
    obtain ⟨following, first, run, names, here, others⟩ := recoverFile_chunk longest file
    have longest' : ∀ name,
        Longest (acceptRecord crc32) (following.contents name) (chunk name) := by
      intro name
      by_cases same : name = file
      · subst same
        exact .of_splits acceptRecord_front here
      · rw [others name same]
        exact longest name
    obtain ⟨recovered, report', later, names', whole⟩ := ih longest'
      ⟨if first.lastValidSequence ≠ 0 then first.lastValidSequence else report.lastValidSequence,
        report.truncatedBytes + first.truncatedBytes⟩
    refine ⟨recovered, report', ?_, names'.trans names, fun name among => whole name ?_⟩
    · rw [List.foldlM_cons, recoverSegment]
      simp only [run, bind, Except.bind]
      exact later
    · by_cases same : name = file
      · subst same
        exact .inr here
      · rcases among with listed | split
        · exact .inl ((List.mem_cons.mp listed).resolve_left same)
        · rw [others name same]
          exact .inr split

/-- Recovery of a journal leaves the longest beginning of each of its files. -/
theorem recoverPath_chunk
    (longest : ∀ name, Longest (acceptRecord crc32) (dir.contents name) (chunk name))
    (path : JournalPath) :
    ∃ recovered report, recoverPath crc32 dir path = .ok (recovered, report) ∧
      recovered.names = dir.names ∧
      ∀ name ∈ segmentPaths dir path,
        Splits (acceptRecord crc32) (recovered.contents name) (chunk name) := by
  cases path with
  | file file =>
    obtain ⟨recovered, report, run, names, here, -⟩ := recoverFile_chunk longest file
    exact ⟨recovered, report, run, names, fun name among => List.mem_singleton.mp among ▸ here⟩
  | directory =>
    obtain ⟨recovered, report, run, names, whole⟩ :=
      recoverSegments_chunk longest .default (listSegmentPaths dir)
    exact ⟨recovered, report, run, names, fun name among => whole name (.inl among)⟩

/-- Files that hold entries hold them in a row. -/
theorem inRow_flatMap {holds : String → List JournalEntry → Prop} {files : List String}
    (each : ∀ name ∈ files, holds name (chunk name)) : InRow holds files (files.flatMap chunk) := by
  induction files with
  | nil => rfl
  | cons file rest ih =>
    have later := ih fun name among => each name (List.mem_cons_of_mem _ among)
    exact ⟨chunk file, rest.flatMap chunk, List.flatMap_cons, each file List.mem_cons_self, later⟩

end Recovery

/-- The files that a journal is read from are in ascending order. -/
theorem segmentPaths_sorted (dir : Directory) (path : JournalPath) :
    (segmentPaths dir path).Pairwise (· ≤ ·) := by
  cases path with
  | file path => exact List.pairwise_singleton ..
  | directory => exact List.pairwise_insertionSort _ _

/-- What is acknowledged is recovered and read. -/
theorem Accounted.keepsAcknowledged {state : Appending}
    (accounted : Accounted crc32 path state) : state.KeepsAcknowledged crc32 path := by
  obtain ⟨serves, listed, ordered, held⟩ := accounted
  choose chunk longest using fun name =>
    Longest.exists (@acceptRecord_front crc32) (state.dir.contents name)
  obtain ⟨recovered, report, run, names, whole⟩ := recoverPath_chunk longest path
  have files : segmentPaths recovered path = segmentPaths state.dir path := by
    cases path with
    | file path => rfl
    | directory =>
      change listSegmentPaths recovered = listSegmentPaths state.dir
      rw [listSegmentPaths, listSegmentPaths, names]
  refine ⟨recovered, report, (segmentPaths state.dir path).flatMap chunk, run, ?_, ?_⟩
  · rw [batch_iff, files, names]
    exact ⟨fun name => serves.there, inRow_flatMap whole⟩
  · have among := sublist_flatMap_tagged (segmentPaths_sorted state.dir path) ordered listed
    exact among.trans (List.Sublist.flatMap_right _ fun name _ => held name _ (longest name))

/-! ### Every run -/

/-- A writer that was opened has acknowledged nothing. -/
theorem accounted_opened (dir : Directory) (maxSegmentBytes : Nat) (path : JournalPath) :
    Accounted crc32 path (opened dir maxSegmentBytes path) :=
  ⟨openWriter_serves dir maxSegmentBytes path, fun _ among => absurd among List.not_mem_nil, .nil,
    fun _ _ _ => List.nil_sublist _⟩

/-- A call that is made in time, or fails, leaves the acknowledged records recoverable. -/
theorem Accounted.step {state following : Appending} {call : AppendCall}
    (accounted : Accounted crc32 path state) (inTime : state.InTime crc32 call)
    (completed : state.apply crc32 call = .ok following) : Accounted crc32 path following := by
  obtain ⟨mode, dir, acknowledged⟩ := state
  cases call with
  | returnsOk entry =>
    have before := Accounted.before accounted (entry.record crc32)
    have whole : (readFrom crc32 ((beforeWrite mode dir (entry.record crc32)).2.read
        (beforeWrite mode dir (entry.record crc32)).1.file) 0 []).isOk = true := inTime.1
    simp only [apply, appendRaw_eq, counted_file, Except.ok.injEq] at completed
    subst completed
    cases read : readFrom crc32 ((beforeWrite mode dir (entry.record crc32)).2.read
        (beforeWrite mode dir (entry.record crc32)).1.file) 0 [] with
    | error error =>
      rw [read] at whole
      contradiction
    | ok entries =>
      obtain ⟨entries, -, splits⟩ := readFrom_ok_iff.mp read
      exact before.acknowledge entry splits inTime.2
  | returnsErr entry written =>
    have before := Accounted.before accounted (entry.record crc32)
    simp only [apply, appendRawFails_eq, Except.ok.injEq] at completed
    subst completed
    exact before.write ((entry.record crc32).take written)

/-- However many calls of `append` fail, and wherever, the records of those that returned `Ok` are
recovered and read in order, as long as each of these was written behind whole records and into no
file that is read before the file of an earlier one. -/
theorem acknowledged_kept_when_in_time (crc32 : List UInt8 → UInt32) (dir : Directory)
    (maxSegmentBytes : Nat) (path : JournalPath) (state : Appending)
    (reached : Reached (· = opened dir maxSegmentBytes path) (apply crc32)
      (fun state call => Possible crc32 call ∧ state.InTime crc32 call) state) :
    state.KeepsAcknowledged crc32 path := by
  have accounted : Accounted crc32 path state := by
    refine Reached.invariant ?_ ?_ reached
    · rintro _ rfl
      exact accounted_opened dir maxSegmentBytes path
    · intro state call following accounted allowed completed
      exact accounted.step allowed.2 completed
  exact accounted.keepsAcknowledged

/-- Two records in two segments, with a call between them that fails before it writes a byte, and
one behind them that leaves five bytes of its record. -/
theorem acknowledged_kept_of_two : ∃ state,
    Reached (· = opened .empty 30 .directory) (apply crc32Hash)
      (fun state call => Possible crc32Hash call ∧ state.InTime crc32Hash call) state ∧
    state.KeepsAcknowledged crc32Hash .directory ∧
    (state.acknowledged == [(segmentPath 1, ⟨1, .cancelOrder 1⟩),
      (segmentPath 2, ⟨3, .cancelOrder 3⟩)]) = true := by
  obtain ⟨state, reached, shown⟩ : ∃ state,
      Reached (· = opened .empty 30 .directory) (apply crc32Hash)
        (fun state call => Possible crc32Hash call ∧ state.InTime crc32Hash call) state ∧
      (state.acknowledged == [(segmentPath 1, ⟨1, .cancelOrder 1⟩),
        (segmentPath 2, ⟨3, .cancelOrder 3⟩)]) = true :=
    Reached.exists_checkedRun
      (fun state call => decide (Possible crc32Hash call ∧ state.InTime crc32Hash call)) _
      (fun _ _ => of_decide_eq_true) rfl
      [.returnsOk ⟨1, .cancelOrder 1⟩, .returnsErr ⟨2, .cancelOrder 2⟩ 0,
        .returnsOk ⟨3, .cancelOrder 3⟩, .returnsErr ⟨4, .cancelOrder 4⟩ 5] (by decide +kernel)
  exact ⟨state, reached, acknowledged_kept_when_in_time crc32Hash .empty 30 .directory state reached,
    shown⟩

/-- A call that leaves five bytes of its record, and one that returns `Ok`: recovery cuts the file
to nothing. -/
theorem acknowledged_lost_behind_torn :
    ¬∀ state, Reached (· = opened .empty 30 (.file "wal")) (apply crc32Hash)
      (fun _ call => Possible crc32Hash call) state →
      state.KeepsAcknowledged crc32Hash (.file "wal") := by
  intro always
  obtain ⟨state, reached, shown⟩ : ∃ state,
      Reached (· = opened .empty 30 (.file "wal")) (apply crc32Hash)
        (fun _ call => Possible crc32Hash call) state ∧
      (state.acknowledged == [("wal", ⟨2, .cancelOrder 2⟩)] &&
        (recoverPath crc32Hash state.dir (.file "wal")).toOption.any fun recovered =>
          ((JournalReader.open recovered.1 (.file "wal")).bind fun reader =>
            reader.readAll crc32Hash recovered.1).toOption == some []) = true :=
    Reached.exists_checkedRun (fun _ call => decide (Possible crc32Hash call)) _
      (fun _ _ => of_decide_eq_true) rfl
      [.returnsErr ⟨1, .cancelOrder 1⟩ 5, .returnsOk ⟨2, .cancelOrder 2⟩] (by decide +kernel)
  obtain ⟨recovered, report, read, run, found, among⟩ := always state reached
  rw [run, Bool.and_eq_true, beq_iff_eq] at shown
  obtain ⟨acknowledged, shown⟩ := shown
  simp only [Except.toOption, Option.any_some, found, beq_iff_eq, Option.some.injEq] at shown
  rw [acknowledged, shown] at among
  exact absurd among (by decide)

end Appending

end MatchX.Journal
