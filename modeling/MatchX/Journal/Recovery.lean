import MatchX.Journal.Frames
import MatchX.Journal.Writer
import MatchX.Support.Splitting

/-!
# Reading and recovering a journal

The reader decodes every record of every file and fails at the first that is damaged. Recovery
goes through the same files: it cuts each behind its last valid record, and reports the
sequence number of the last record it kept. Whatever the bytes of a file are, both go through
the beginning that splits into records that the decoder accepts; on a log of records cut short,
that is exactly the whole records.
-/

namespace MatchX.Journal

open Support

variable (crc32 : List UInt8 → UInt32)

/-- The loop of `read_all` over one file, from a position on. -/
def readFrom (data : List UInt8) (pos : Nat) (entries : List JournalEntry) :
    Except JournalError (List JournalEntry) :=
  if pos < data.length then
    match decoded : decodeRecord crc32 (data.drop pos) with
    | .ok (sequence, command, used) =>
      readFrom data (pos + used) (entries ++ [⟨sequence, command⟩])
    | .error error => .error error
  else .ok entries
termination_by data.length - pos
decreasing_by
  have := decodeRecord_used decoded
  simp only at this
  omega

/-- `JournalReader`: the files to read. -/
structure JournalReader where
  /-- Their names. -/
  paths : List String

/-- `JournalReader::open` of a directory. -/
def JournalReader.openDir (dir : Directory) : JournalReader := ⟨listSegmentPaths dir⟩

/-- `JournalReader::open` of a file. -/
def JournalReader.openFile (dir : Directory) (path : String) :
    Except JournalError JournalReader :=
  if path ∈ dir.names then .ok ⟨[path]⟩ else .error .io

/-- `JournalReader::read_all`. -/
def JournalReader.readAll (reader : JournalReader) (dir : Directory) :
    Except JournalError (List JournalEntry) :=
  reader.paths.foldlM (fun entries path => readFrom crc32 (dir.read path) 0 entries) []

/-- `RecoveryReport`. -/
structure RecoveryReport where
  /-- Sequence number of the last valid record, 0 for none. -/
  lastValidSequence : UInt64
  /-- Bytes cut off. -/
  truncatedBytes : Nat
  deriving DecidableEq, Repr

/-- `RecoveryReport::default`. -/
def RecoveryReport.default : RecoveryReport := ⟨0, 0⟩

/-- The loop of `recover_file`, from a position on: the offset behind the last valid record, and
its sequence number. -/
def scanFrom (data : List UInt8) (pos lastValidOffset : Nat) (lastValidSequence : UInt64) :
    Except JournalError (Nat × UInt64) :=
  if pos < data.length then
    match _decoded : decodeRecord crc32 (data.drop pos) with
    | .ok (sequence, _, used) => scanFrom data (pos + used) (pos + used) sequence
    | .error .invalidData | .error .crcMismatch => .ok (lastValidOffset, lastValidSequence)
    | .error error => .error error
  else .ok (lastValidOffset, lastValidSequence)
termination_by data.length - pos
decreasing_by
  have := decodeRecord_used _decoded
  simp only at this
  omega

/-- `recover_file`. -/
def recoverFile (dir : Directory) (path : String) :
    Except JournalError (Directory × RecoveryReport) := do
  let data := dir.read path
  let (lastValidOffset, lastValidSequence) ← scanFrom crc32 data 0 0 0
  let truncatedBytes := data.length - lastValidOffset
  let dir := if 0 < truncatedBytes then dir.setLen path lastValidOffset else dir
  .ok (dir, ⟨lastValidSequence, truncatedBytes⟩)

/-- One segment of `recover_dir`. -/
def recoverSegment (recovered : Directory × RecoveryReport) (path : String) :
    Except JournalError (Directory × RecoveryReport) := do
  let (dir, report) := recovered
  let (dir, segmentReport) ← recoverFile crc32 dir path
  let lastValidSequence :=
    if segmentReport.lastValidSequence ≠ 0 then segmentReport.lastValidSequence
    else report.lastValidSequence
  .ok (dir, ⟨lastValidSequence, report.truncatedBytes + segmentReport.truncatedBytes⟩)

/-- `RecoveryManager::recover_dir`. -/
def recoverDir (dir : Directory) : Except JournalError (Directory × RecoveryReport) :=
  (listSegmentPaths dir).foldlM (recoverSegment crc32) (dir, .default)

/-! ### Accepted records -/

/-- The record that the decoder accepts at the front of some data, and the bytes it takes. -/
def acceptRecord (data : List UInt8) : Option (JournalEntry × Nat) :=
  match decodeRecord crc32 data with
  | .ok (sequence, command, used) => some (⟨sequence, command⟩, used)
  | .error _ => none

variable {crc32}

/-- A record is accepted as it is decoded. -/
theorem acceptRecord_eq_some_iff {data : List UInt8} {entry : JournalEntry} {used : Nat} :
    acceptRecord crc32 data = some (entry, used) ↔
      decodeRecord crc32 data = .ok (entry.sequence, entry.command, used) := by
  rw [acceptRecord]
  split
  · rename_i sequence command count decoded
    rw [decoded]
    cases entry
    simp [and_assoc]
  · rename_i decoded
    rw [decoded]
    simp

/-- No record is accepted where the decoder fails. -/
theorem acceptRecord_eq_none {data : List UInt8} {error : JournalError}
    (failed : decodeRecord crc32 data = .error error) : acceptRecord crc32 data = none := by
  rw [acceptRecord, failed]

/-- The decoder looks only at the bytes of the record that it accepts. -/
theorem acceptRecord_front : FrontParser (acceptRecord crc32) where
  used_pos found := by
    have long := decodeRecord_used (acceptRecord_eq_some_iff.mp found)
    simp only at long
    omega
  used_le found := decodeRecord_used_le (acceptRecord_eq_some_iff.mp found)
  frame found rest := by
    have decoded := acceptRecord_eq_some_iff.mp found
    obtain ⟨small, read, used_eq, -⟩ := decodeRecord_ok decoded
    rw [acceptRecord_eq_some_iff, decodeRecord_take decoded, decodeRecord_frame _ _ small, read,
      used_eq]
    rfl

/-- The bytes of a list of entries. -/
abbrev logBytes (crc32 : List UInt8 → UInt32) (entries : List JournalEntry) : List UInt8 :=
  entries.flatMap (JournalEntry.record crc32)

/-- The bytes of entries split into them. -/
theorem logBytes_splits (entries : List JournalEntry) :
    Splits (acceptRecord crc32) (logBytes crc32 entries) entries := by
  induction entries with
  | nil => exact .nil
  | cons entry rest ih =>
    have decoded := decodeRecord_encodeRecord crc32 entry.sequence entry.command []
    rw [List.append_nil] at decoded
    exact ih.cons (acceptRecord_eq_some_iff.mpr decoded)

/-! ### One file -/

/-- A piece of a record is no record. -/
theorem decodeRecord_torn {bytes : List UInt8} (torn : Torn (JournalEntry.record crc32) bytes) :
    decodeRecord crc32 bytes = .error .invalidData := by
  obtain ⟨entry, count, short, rfl⟩ := torn
  exact decodeRecord_cut crc32 entry.sequence entry.command count short

/-- The next record of a file is at the front of what is left of it, with a byte or more. -/
theorem decodeRecord_next {piece : List UInt8} {entry : JournalEntry}
    (found : acceptRecord crc32 piece = some (entry, piece.length)) (before after : List UInt8) :
    before.length < (before ++ (piece ++ after)).length ∧
      decodeRecord crc32 ((before ++ (piece ++ after)).drop before.length) =
        .ok (entry.sequence, entry.command, piece.length) := by
  have long := acceptRecord_front.used_pos found
  rw [List.drop_left, List.length_append, List.length_append]
  exact ⟨by omega, acceptRecord_eq_some_iff.mp (acceptRecord_front.append found after)⟩

/-- Reading goes on behind a valid record. -/
theorem readFrom_valid {data : List UInt8} {pos used : Nat} {sequence : UInt64}
    {command : Command} {entries : List JournalEntry} (inside : pos < data.length)
    (valid : decodeRecord crc32 (data.drop pos) = .ok (sequence, command, used)) :
    readFrom crc32 data pos entries =
      readFrom crc32 data (pos + used) (entries ++ [⟨sequence, command⟩]) := by
  rw [readFrom, if_pos inside]
  split
  · rename_i decoded
    cases valid.symm.trans decoded
    rfl
  · rename_i decoded
    cases valid.symm.trans decoded

/-- Reading fails at bytes that are no record. -/
theorem readFrom_invalid {data : List UInt8} {pos : Nat} {error : JournalError}
    {entries : List JournalEntry} (inside : pos < data.length)
    (invalid : decodeRecord crc32 (data.drop pos) = .error error) :
    readFrom crc32 data pos entries = .error error := by
  rw [readFrom, if_pos inside]
  split
  · rename_i decoded
    cases invalid.symm.trans decoded
  · rename_i decoded
    cases invalid.symm.trans decoded
    rfl

/-- Reading bytes that split into records finds these, and goes on behind them. -/
theorem readFrom_splits {bytes : List UInt8} {entries : List JournalEntry}
    (splits : Splits (acceptRecord crc32) bytes entries) (before after : List UInt8)
    (found : List JournalEntry) :
    readFrom crc32 (before ++ (bytes ++ after)) before.length found =
      readFrom crc32 (before ++ (bytes ++ after)) (before ++ bytes).length (found ++ entries) := by
  induction splits generalizing before found with
  | nil => rw [List.append_nil, List.append_nil]
  | @cons piece rest entry entries accepted splits ih =>
    have onwards := ih (before ++ piece) (found ++ [entry])
    simp only [List.append_assoc, List.cons_append, List.nil_append] at onwards
    obtain ⟨inside, valid⟩ := decodeRecord_next accepted before (rest ++ after)
    rw [List.append_assoc, readFrom_valid inside valid, ← List.length_append]
    exact onwards

/-- Reading a log finds its entries. -/
theorem readFrom_log (before : List UInt8) (found entries : List JournalEntry) :
    readFrom crc32 (before ++ logBytes crc32 entries) before.length found =
      .ok (found ++ entries) := by
  have read := readFrom_splits (@logBytes_splits crc32 entries) before [] found
  rw [List.append_nil] at read
  rw [read, readFrom, if_neg (Nat.lt_irrefl _)]

/-- The scan goes on behind a valid record. -/
theorem scanFrom_valid {data : List UInt8} {pos used offset : Nat} {sequence last : UInt64}
    {command : Command} (inside : pos < data.length)
    (valid : decodeRecord crc32 (data.drop pos) = .ok (sequence, command, used)) :
    scanFrom crc32 data pos offset last =
      scanFrom crc32 data (pos + used) (pos + used) sequence := by
  rw [scanFrom, if_pos inside]
  split
  · rename_i decoded
    cases valid.symm.trans decoded
    rfl
  all_goals
    rename_i decoded
    cases valid.symm.trans decoded

/-- The scan ends at bytes that are no record. -/
theorem scanFrom_invalid {data : List UInt8} {pos offset : Nat} {last : UInt64}
    {error : JournalError} (invalid : decodeRecord crc32 (data.drop pos) = .error error) :
    scanFrom crc32 data pos offset last = .ok (offset, last) := by
  rw [scanFrom]
  split
  · split
    · rename_i decoded
      cases invalid.symm.trans decoded
    · rfl
    · rfl
    · rename_i other mismatch decoded
      obtain rfl | rfl := decodeRecord_error decoded
      · exact absurd rfl other
      · exact absurd rfl mismatch
  · rfl

/-- The sequence number of the last of some entries, or a number from before them. -/
def lastSequence (before : UInt64) (entries : List JournalEntry) : UInt64 :=
  (entries.getLast?.map JournalEntry.sequence).getD before

/-- The last sequence number of entries that follow one. -/
theorem lastSequence_cons (before : UInt64) (entry : JournalEntry) (rest : List JournalEntry) :
    lastSequence before (entry :: rest) = lastSequence entry.sequence rest := by
  cases rest with
  | nil => rfl
  | cons next rest => simp [lastSequence, List.getLast?_cons]

/-- The scan of bytes that split into records, with nothing that is a record behind them, ends
behind the last of these. -/
theorem scanFrom_splits {bytes : List UInt8} {entries : List JournalEntry}
    (splits : Splits (acceptRecord crc32) bytes entries) (before : List UInt8)
    {after : List UInt8} (stuck : acceptRecord crc32 after = none) (last : UInt64) :
    scanFrom crc32 (before ++ (bytes ++ after)) before.length before.length last =
      .ok ((before ++ bytes).length, lastSequence last entries) := by
  induction splits generalizing before last with
  | nil =>
    rw [List.append_nil, List.nil_append]
    cases decoded : decodeRecord crc32 after with
    | ok found => rw [acceptRecord, decoded] at stuck; cases stuck
    | error error => exact scanFrom_invalid (by rw [List.drop_left, decoded])
  | @cons piece rest entry entries accepted splits ih =>
    have onwards := ih (before ++ piece) entry.sequence
    simp only [List.append_assoc] at onwards
    obtain ⟨inside, valid⟩ := decodeRecord_next accepted before (rest ++ after)
    rw [List.append_assoc, lastSequence_cons, scanFrom_valid inside valid, ← List.length_append]
    exact onwards

end MatchX.Journal
