import MatchX.Journal.GapFree

/-!
# A journal in one file

The bytes of a log determine its entries: whatever follows a record it is read back, and no
strict beginning of a record is read as one. A journal in one file therefore survives a crash
that cuts the file at any byte: recovery cuts the file back to the last whole record, so what is
appended after it is reopened follows a record boundary.
-/

namespace MatchX.Journal

open Support

/-- What a path of the journal names. -/
inductive JournalPath where
  /-- The directory of the segments. -/
  | directory
  /-- A single file. -/
  | file (path : String)
  deriving DecidableEq, Repr

/-- `RecoveryManager::recover_path`. -/
def recoverPath (crc32 : List UInt8 → UInt32) (dir : Directory) :
    JournalPath → Except JournalError (Directory × RecoveryReport)
  | .directory => recoverDir crc32 dir
  | .file path => recoverFile crc32 dir path

/-! ### The codec -/

/-- Records are read back from the front of any bytes, no strict beginning of a record is
accepted, and the reader finds in files that are logs of records exactly these records: in one
file, and in several files in a row. -/
theorem codec_roundtrip (crc32 : List UInt8 → UInt32) :
    (∀ (sequence : UInt64) (cmd : Command) (suffix : List UInt8),
      decodeRecord crc32 (encodeRecord crc32 sequence cmd ++ suffix) =
        .ok (sequence, cmd, (encodeRecord crc32 sequence cmd).length)) ∧
    (∀ (sequence : UInt64) (cmd : Command) (piece : List UInt8),
      piece <+: encodeRecord crc32 sequence cmd → piece ≠ encodeRecord crc32 sequence cmd →
        ∀ found, decodeRecord crc32 piece ≠ .ok found) ∧
    (∀ entries : List JournalEntry,
      readFrom crc32 (entries.flatMap fun entry =>
        encodeRecord crc32 entry.sequence entry.command) 0 [] = .ok entries) ∧
    (∀ (names paths : List String) (log : String → List JournalEntry),
      (JournalReader.mk paths).readAll crc32 ⟨names, fun path => (log path).flatMap fun entry =>
        encodeRecord crc32 entry.sequence entry.command⟩ = .ok (paths.flatMap log)) := by
  refine ⟨decodeRecord_encodeRecord crc32, ?_, ?_, ?_⟩
  · intro sequence cmd piece begins strict found accepted
    have shorter : piece.length < (encodeRecord crc32 sequence cmd).length :=
      Nat.lt_of_le_of_ne begins.length_le fun same => strict (begins.eq_of_length same)
    have cut := decodeRecord_cut crc32 sequence cmd piece.length shorter
    rw [← List.prefix_iff_eq_take.mp begins, accepted] at cut
    contradiction
  · intro entries
    have found := @readFrom_log crc32 [] [] entries
    rwa [List.nil_append, List.nil_append, List.length_nil] at found
  · intro names paths log
    have found := @readAll_logs crc32 ⟨names, fun path => logBytes crc32 (log path)⟩ log paths []
      fun path _ => rfl
    rwa [List.nil_append] at found

/-- The records of two cancellations, and the first of them without its last byte. -/
theorem codec_roundtrip_two :
    readFrom crc32Hash (encodeRecord crc32Hash 1 (.cancelOrder 7) ++
      encodeRecord crc32Hash 2 (.cancelOrder 8)) 0 [] =
        .ok [⟨1, .cancelOrder 7⟩, ⟨2, .cancelOrder 8⟩] ∧
    decodeRecord crc32Hash ((encodeRecord crc32Hash 1 (.cancelOrder 7)).take 24) ≠
      .ok (1, .cancelOrder 7, 24) := by
  obtain ⟨-, pieces, logs, -⟩ := codec_roundtrip crc32Hash
  refine ⟨?_, pieces 1 (.cancelOrder 7) _ (List.take_prefix ..) (by decide +kernel) _⟩
  have found := logs [⟨1, .cancelOrder 7⟩, ⟨2, .cancelOrder 8⟩]
  rwa [List.flatMap_cons, List.flatMap_singleton] at found

/-! ### Crash, recover, continue -/

variable {crc32 : List UInt8 → UInt32}

/-- Opening a file that is there changes nothing. -/
theorem openAppend_of_mem {dir : Directory} {path : String} (present : path ∈ dir.names) :
    dir.openAppend path = dir := if_pos present

/-- A file that has been opened for appending is there. -/
theorem mem_openAppend (dir : Directory) (path : String) :
    path ∈ (dir.openAppend path).names := by
  rw [Directory.openAppend]
  split
  · assumption
  · exact List.mem_append_right _ (List.mem_singleton_self path)

/-- A file that was not there is empty when it has been opened. -/
theorem openAppend_fresh {dir : Directory} {path : String} (fresh : path ∉ dir.names) :
    (dir.openAppend path).read path = [] := by
  rw [Directory.openAppend, if_neg fresh]
  exact Function.update_self ..

/-- Appending entries to a file appends their log to its bytes. -/
theorem appendAll_single (dir : Directory) (path : String) (entries : List JournalEntry) :
    (appendAll crc32 (.single path) dir entries).2 =
      dir.put path (dir.read path ++ logBytes crc32 entries) := by
  induction entries generalizing dir with
  | nil =>
    have same : Function.update dir.contents path (dir.contents path) = dir.contents :=
      Function.update_eq_self path dir.contents
    simp only [appendAll, List.foldl_nil, logBytes, List.flatMap_nil, List.append_nil,
      Directory.put, Directory.read, same]
  | cons entry rest ih =>
    have later := ih (dir.writeAll path (entry.record crc32))
    simp only [appendAll, List.foldl_cons, appendRaw] at later ⊢
    rw [later]
    simp only [Directory.put, Directory.read, Directory.writeAll, Function.update_self,
      Function.update_idem, List.append_assoc, logBytes, List.flatMap_cons]

/-- Reading a file whose bytes split into records finds these. -/
theorem readAll_splits {dir : Directory} {path : String} {entries : List JournalEntry}
    (present : path ∈ dir.names)
    (splits : Splits (acceptRecord crc32) (dir.read path) entries) :
    (JournalReader.openFile dir path).bind (fun reader => reader.readAll crc32 dir) =
      .ok entries := by
  have opened : JournalReader.openFile dir path = .ok ⟨[path]⟩ := if_pos present
  have read := readFrom_splits splits [] [] []
  rw [List.nil_append, List.append_nil, List.nil_append, List.length_nil] at read
  rw [opened]
  change (readFrom crc32 (dir.read path) 0 [] >>= pure) = _
  rw [bind_pure, read, readFrom, if_neg (Nat.lt_irrefl _), List.nil_append]

/-- Reading a file that is a log finds its entries. -/
theorem readAll_openFile {dir : Directory} {path : String} {entries : List JournalEntry}
    (present : path ∈ dir.names) (held : dir.read path = logBytes crc32 entries) :
    (JournalReader.openFile dir path).bind (fun reader => reader.readAll crc32 dir) =
      .ok entries := by
  apply readAll_splits present
  rw [held]
  exact logBytes_splits entries

/-- After a crash that leaves the first bytes of a file, recovery and reopening, what is read is
the records that lie within these bytes, followed by the records appended since. -/
theorem recovered_then_appended (crc32 : List UInt8 → UInt32) (dir : Directory) (path : String)
    (fresh : path ∉ dir.names) (first second : List JournalEntry) (cut : Nat) :
    let opened := openSingle dir path
    let crashed := (appendAll crc32 opened.1 opened.2 first).2.setLen path cut
    ∃ recovered report kept,
      recoverPath crc32 crashed (.file path) = .ok (recovered, report) ∧
      (∀ index < first.length,
        index < kept ↔ (logBytes crc32 (first.take (index + 1))).length ≤ cut) ∧
      (let reopened := openSingle recovered path
        let continued := (appendAll crc32 reopened.1 reopened.2 second).2
        (JournalReader.openFile continued path).bind
          (fun reader => reader.readAll crc32 continued) = .ok (first.take kept ++ second)) := by
  intro opened crashed
  have bytes : crashed.contents path = (logBytes crc32 first).take cut := by
    simp only [crashed, opened, openSingle, appendAll_single, openAppend_fresh fresh,
      Directory.setLen, Directory.put_self, Function.update_self, List.nil_append]
  have present : path ∈ crashed.names := by
    simp only [crashed, opened, openSingle, appendAll_single]
    exact mem_openAppend dir path
  obtain ⟨truncated, run⟩ := recoverFile_cut bytes
  obtain ⟨kept, taken, ends⟩ := @whole_eq_take _ (JournalEntry.record crc32) cut first
  set recovered :=
    crashed.put path (logBytes crc32 (whole (JournalEntry.record crc32) cut first)) with cutBack
  have there : path ∈ recovered.names := present
  have held : recovered.read path = logBytes crc32 (first.take kept) := by
    rw [cutBack, Directory.read, Directory.put_self, taken]
  refine ⟨recovered, _, kept, run, ends, ?_⟩
  intro reopened continued
  have appended :
      continued = recovered.put path (logBytes crc32 (first.take kept ++ second)) := by
    simp only [continued, reopened, openSingle, openAppend_of_mem there, appendAll_single, held]
    rw [logBytes, logBytes, logBytes, List.flatMap_append]
  rw [appended]
  exact readAll_openFile there (Directory.put_self ..)

/-- A crash within the second record leaves the first, and the third follows it. -/
theorem recovered_then_appended_cancel :
    ∃ recovered report kept,
      recoverPath crc32Hash ((appendAll crc32Hash (openSingle .empty "wal").1
        (openSingle .empty "wal").2 twoCancels).2.setLen "wal" 30) (.file "wal") =
          .ok (recovered, report) ∧
      (∀ index < twoCancels.length,
        index < kept ↔ (logBytes crc32Hash (twoCancels.take (index + 1))).length ≤ 30) ∧
      (let reopened := openSingle recovered "wal"
        let continued := (appendAll crc32Hash reopened.1 reopened.2 [⟨3, .cancelOrder 3⟩]).2
        (JournalReader.openFile continued "wal").bind
          (fun reader => reader.readAll crc32Hash continued) =
            .ok (twoCancels.take kept ++ [⟨3, .cancelOrder 3⟩])) :=
  recovered_then_appended crc32Hash .empty "wal" (by decide) twoCancels [⟨3, .cancelOrder 3⟩] 30

end MatchX.Journal
