import MatchX.Journal.Segments

/-!
# Recovery of a segmented journal

A machine that stops may leave any of the files of a journal cut short. Recovery cuts every file
behind its last valid record and goes on with the next file, so what is read afterwards is the
entries that each segment kept, in a row. They are a prefix of what was written as long as no
segment that keeps a record comes behind a segment that lost one; otherwise a gap remains in the
middle of the journal.
-/

namespace MatchX.Journal

open Support

variable {crc32 : List UInt8 → UInt32} {dir : Directory} {full kept : String → List JournalEntry}

/-- The files of a directory, each cut to its first bytes. -/
def Directory.cutShort (dir : Directory) (cuts : String → Nat) : Directory :=
  { dir with contents := fun name => (dir.contents name).take (cuts name) }

/-- A directory in which one file has other bytes. -/
def Directory.put (dir : Directory) (path : String) (bytes : List UInt8) : Directory :=
  { dir with contents := Function.update dir.contents path bytes }

/-- The bytes put into a file are what it holds. -/
theorem Directory.put_self (dir : Directory) (path : String) (bytes : List UInt8) :
    (dir.put path bytes).contents path = bytes := Function.update_self ..

/-- The other files stay as they are. -/
theorem Directory.put_of_ne (dir : Directory) {path other : String} (bytes : List UInt8)
    (apart : other ≠ path) : (dir.put path bytes).contents other = dir.contents other :=
  Function.update_of_ne apart ..

/-- The entries that a file keeps when it is cut. -/
def keptEntries (crc32 : List UInt8 → UInt32) (cuts : String → Nat)
    (full : String → List JournalEntry) (path : String) : List JournalEntry :=
  whole (JournalEntry.record crc32) (cuts path) (full path)

/-- The last sequence number of entries in two parts. -/
theorem lastSequence_append (before : UInt64) (first second : List JournalEntry) :
    lastSequence before (first ++ second) =
      lastSequence (lastSequence before first) second := by
  induction first generalizing before with
  | nil => rfl
  | cons entry rest ih => rw [List.cons_append, lastSequence_cons, lastSequence_cons, ih]

/-- Among numbered entries the last sequence number is 0 only when there are none. -/
theorem lastSequence_zero {before : UInt64} {entries : List JournalEntry}
    (numbered : ∀ entry ∈ entries, entry.sequence ≠ 0) :
    (if lastSequence 0 entries ≠ 0 then lastSequence 0 entries else before) =
      lastSequence before entries := by
  induction entries using List.reverseRecOn with
  | nil => rfl
  | append_singleton entries entry _ =>
    have last (start : UInt64) : lastSequence start (entries ++ [entry]) = entry.sequence := by
      simp [lastSequence]
    rw [last, last, if_pos (numbered entry (by simp))]

/-- Recovery of a file whose bytes split into records, with none behind them, keeps these. -/
theorem recoverFile_splits {path : String} {bytes removed : List UInt8}
    {entries : List JournalEntry} (held : dir.contents path = bytes ++ removed)
    (splits : Splits (acceptRecord crc32) bytes entries)
    (stuck : acceptRecord crc32 removed = none) :
    recoverFile crc32 dir path =
      .ok (dir.put path bytes, ⟨lastSequence 0 entries, removed.length⟩) := by
  have scanned := scanFrom_splits splits [] stuck 0
  rw [List.nil_append, List.nil_append, List.length_nil] at scanned
  have total : (bytes ++ removed).length - bytes.length = removed.length := by
    rw [List.length_append, Nat.add_sub_cancel_left]
  simp only [recoverFile, Directory.read, held, scanned, bind, Except.bind, total]
  by_cases cut : 0 < removed.length
  · rw [if_pos cut, Directory.setLen, held, List.take_left, Directory.put]
  · have nothing : removed = [] := List.eq_nil_of_length_eq_zero (by omega)
    have same : Function.update dir.contents path bytes = dir.contents := by
      rw [nothing, List.append_nil] at held
      exact (congrArg _ held.symm).trans (Function.update_eq_self path dir.contents)
    rw [if_neg cut, Directory.put, same]

/-- Recovery of a file that is a log cut short keeps its whole records. -/
theorem recoverFile_cut {path : String} {room : Nat} {entries : List JournalEntry}
    (held : dir.contents path = (logBytes crc32 entries).take room) :
    ∃ truncated, recoverFile crc32 dir path =
      .ok (dir.put path (logBytes crc32 (whole (JournalEntry.record crc32) room entries)),
        ⟨lastSequence 0 (whole (JournalEntry.record crc32) room entries), truncated⟩) := by
  obtain ⟨torn, split, tear⟩ := @take_flatMap _ (JournalEntry.record crc32) room entries
  have stuck : acceptRecord crc32 torn = none := by
    obtain rfl | piece := tear
    · rfl
    · exact acceptRecord_eq_none (decodeRecord_torn piece)
  exact ⟨torn.length, recoverFile_splits (held.trans split) (logBytes_splits _) stuck⟩

/-- Recovery of one segment, when its entries are numbered. -/
theorem recoverSegment_cut {path : String} {room : Nat} {entries : List JournalEntry}
    {report : RecoveryReport} (held : dir.contents path = (logBytes crc32 entries).take room) :
    ∃ report', recoverSegment crc32 (dir, report) path =
      .ok (dir.put path (logBytes crc32 (whole (JournalEntry.record crc32) room entries)),
        report') ∧
      ((∀ entry ∈ whole (JournalEntry.record crc32) room entries, entry.sequence ≠ 0) →
        report'.lastValidSequence = lastSequence report.lastValidSequence
          (whole (JournalEntry.record crc32) room entries)) := by
  obtain ⟨truncated, recovered⟩ := recoverFile_cut held
  simp only [recoverSegment, recovered, bind, Except.bind]
  exact ⟨_, rfl, fun numbered => lastSequence_zero numbered⟩

/-- Recovery of several segments keeps the whole records of each. -/
theorem recoverSegments_cut {cuts : String → Nat} {paths : List String}
    (distinct : paths.Nodup)
    (held : ∀ path ∈ paths, dir.contents path = (logBytes crc32 (full path)).take (cuts path))
    (report : RecoveryReport) :
    ∃ recovered report',
      paths.foldlM (recoverSegment crc32) (dir, report) = .ok (recovered, report') ∧
      recovered.names = dir.names ∧
      (∀ path ∈ paths, recovered.contents path = logBytes crc32 (keptEntries crc32 cuts full path)) ∧
      (∀ path ∉ paths, recovered.contents path = dir.contents path) ∧
      ((∀ entry ∈ paths.flatMap (keptEntries crc32 cuts full), entry.sequence ≠ 0) →
        report'.lastValidSequence = lastSequence report.lastValidSequence
          (paths.flatMap (keptEntries crc32 cuts full))) := by
  induction paths generalizing dir report with
  | nil => exact ⟨dir, report, rfl, rfl, by simp, fun _ _ => rfl, fun _ => rfl⟩
  | cons path rest ih =>
    obtain ⟨absent, distinctRest⟩ := List.nodup_cons.mp distinct
    obtain ⟨following, first, last⟩ :=
      @recoverSegment_cut crc32 dir path _ _ report (held path List.mem_cons_self)
    have heldRest : ∀ other ∈ rest,
        (dir.put path (logBytes crc32 (keptEntries crc32 cuts full path))).contents other =
          (logBytes crc32 (full other)).take (cuts other) := fun other among => by
      rw [dir.put_of_ne _ (ne_of_mem_of_not_mem among absent)]
      exact held other (List.mem_cons_of_mem _ among)
    obtain ⟨recovered, report', run, names, inside, outside, lastRest⟩ :=
      ih distinctRest heldRest following
    refine ⟨recovered, report', ?_, names, ?_, ?_, ?_⟩
    · rw [List.foldlM_cons, first]
      exact run
    · intro other among
      obtain rfl | later := List.mem_cons.mp among
      · rw [outside _ absent]
        exact dir.put_self ..
      · exact inside other later
    · intro other apart
      rw [outside other fun later => apart (List.mem_cons_of_mem _ later)]
      exact dir.put_of_ne _ (List.ne_of_not_mem_cons apart)
    · intro numbered
      rw [List.flatMap_cons] at numbered ⊢
      rw [lastSequence_append, lastRest fun entry among =>
          numbered entry (List.mem_append_right _ among),
        last fun entry among => numbered entry (List.mem_append_left _ among)]
      rfl

/-- Reading files that are logs finds their entries in a row. -/
theorem readAll_logs {paths : List String} (found : List JournalEntry)
    (held : ∀ path ∈ paths, dir.contents path = logBytes crc32 (kept path)) :
    paths.foldlM (fun entries path => readFrom crc32 (dir.read path) 0 entries) found =
      .ok (found ++ paths.flatMap kept) := by
  induction paths generalizing found with
  | nil => rw [List.flatMap_nil, List.append_nil]; rfl
  | cons path rest ih =>
    have first : readFrom crc32 (dir.read path) 0 found = .ok (found ++ kept path) := by
      rw [Directory.read, held path List.mem_cons_self]
      exact readFrom_log [] found (kept path)
    have later := ih (found ++ kept path) fun other among =>
      held other (List.mem_cons_of_mem _ among)
    rw [List.foldlM_cons, first, List.flatMap_cons, ← List.append_assoc]
    exact later

/-- After recovery the journal reads as a prefix of the entries written to it, and the report
names the last of them. -/
def GapFree (crc32 : List UInt8 → UInt32) (dir : Directory) (entries : List JournalEntry) :
    Prop :=
  ∃ recovered report kept, recoverDir crc32 dir = .ok (recovered, report) ∧
    (JournalReader.openDir recovered).readAll crc32 recovered = .ok kept ∧ kept <+: entries ∧
    ((∀ entry ∈ entries, entry.sequence ≠ 0) → report.lastValidSequence = lastSequence 0 kept)

/-- Behind a segment that is cut short, no segment starts with a whole record any more. -/
def NothingBehindCut (crc32 : List UInt8 → UInt32) (dir : Directory) (cuts : String → Nat) :
    Prop :=
  (listSegmentPaths dir).Pairwise fun earlier later =>
    cuts earlier < (dir.read earlier).length →
      (decodeRecord crc32 ((dir.read later).take (cuts later))).toOption = none

/-- A file loses entries exactly when it is cut short. -/
theorem kept_ne_iff (cuts : String → Nat) (path : String) :
    keptEntries crc32 cuts full path ≠ full path ↔
      cuts path < (logBytes crc32 (full path)).length := by
  refine ⟨fun lost => ?_, whole_ne_of_lt⟩
  by_contra long
  exact lost (whole_of_le (Nat.not_lt.mp long))

/-- A file keeps no entry exactly when what is left of it does not start with a record. -/
theorem kept_eq_nil_iff (cuts : String → Nat) (path : String) :
    keptEntries crc32 cuts full path = [] ↔
      (decodeRecord crc32 ((logBytes crc32 (full path)).take (cuts path))).toOption = none := by
  obtain ⟨torn, split, tear⟩ :=
    @take_flatMap _ (JournalEntry.record crc32) (cuts path) (full path)
  rw [logBytes, split]
  change whole _ _ _ = [] ↔ _
  cases whole (JournalEntry.record crc32) (cuts path) (full path) with
  | nil =>
    refine ⟨fun _ => ?_, fun _ => rfl⟩
    obtain rfl | piece := tear
    · rfl
    · rw [List.flatMap_nil, List.nil_append, decodeRecord_torn piece]
      rfl
  | cons entry rest =>
    rw [List.flatMap_cons, List.append_assoc, JournalEntry.record, decodeRecord_encodeRecord]
    exact ⟨fun same => (List.cons_ne_nil _ _ same).elim, fun same => by cases same⟩

/-- What is read after the recovery of a journal cut short is what its segments keep. -/
theorem gapFree_iff {count : Nat} {cuts : String → Nat} {entries : List JournalEntry}
    (few : count < 10 ^ 8) (listed : dir.names.Perm (segmentNames count))
    (held : ∀ path, dir.contents path = (logBytes crc32 (full path)).take (cuts path)) :
    GapFree crc32 dir entries ↔
      (segmentNames count).flatMap (keptEntries crc32 cuts full) <+: entries := by
  have distinct : (segmentNames count).Nodup :=
    (segmentNames_sorted few).imp fun smaller => ne_of_lt smaller
  obtain ⟨recovered, report, run, names, inside, -, last⟩ :=
    recoverSegments_cut distinct (fun path _ => held path) .default
  rw [← listSegmentPaths_eq few listed] at run
  have paths : listSegmentPaths recovered = segmentNames count :=
    listSegmentPaths_eq few (names ▸ listed)
  have read : (JournalReader.openDir recovered).readAll crc32 recovered =
      .ok ((segmentNames count).flatMap (keptEntries crc32 cuts full)) := by
    rw [JournalReader.readAll, JournalReader.openDir, paths]
    exact readAll_logs [] inside
  constructor
  · rintro ⟨recovered', report', kept, run', read', before, -⟩
    cases run.symm.trans run'
    cases read.symm.trans read'
    exact before
  · intro before
    exact ⟨recovered, report, _, run, read, before, fun numbered =>
      last fun entry among => numbered entry (before.subset among)⟩

/-- Nothing is left behind a cut exactly when no segment keeps an entry behind one that lost
some. -/
theorem nothingBehindCut_iff {count : Nat} {cuts : String → Nat} (few : count < 10 ^ 8)
    (listed : dir.names.Perm (segmentNames count))
    (held : ∀ path, dir.contents path = logBytes crc32 (full path)) :
    NothingBehindCut crc32 dir cuts ↔ (segmentNames count).Pairwise fun earlier later =>
      keptEntries crc32 cuts full earlier ≠ full earlier →
        keptEntries crc32 cuts full later = [] := by
  rw [NothingBehindCut, listSegmentPaths_eq few listed]
  refine List.Pairwise.iff fun earlier later => ?_
  rw [kept_ne_iff, kept_eq_nil_iff, Directory.read, Directory.read, held, held]

/-- Recovery of a segmented journal, of which any files have been cut short, leaves a prefix of
what was written if behind a file that is cut short no file starts with a whole record any
more. When no record was written twice, it does so only then. -/
theorem recoverDir_gapFree_iff (crc32 : List UInt8 → UInt32) (maxSegmentBytes : Nat)
    (entries : List JournalEntry) (cuts : String → Nat) (listing : List String)
    (few : (written crc32 maxSegmentBytes entries).names.length < 10 ^ 8)
    (listed : listing.Perm (written crc32 maxSegmentBytes entries).names) :
    let dir := { written crc32 maxSegmentBytes entries with names := listing }
    (NothingBehindCut crc32 dir cuts → GapFree crc32 (dir.cutShort cuts) entries) ∧
      (entries.Nodup → GapFree crc32 (dir.cutShort cuts) entries →
        NothingBehindCut crc32 dir cuts) := by
  intro dir
  obtain ⟨writer, chunk, layout⟩ := written_layout entries few
  obtain ⟨-, bound⟩ := layout.numbered
  have segments : dir.names.Perm (segmentNames writer.currentSegmentIndex.toNat) :=
    layout.names ▸ listed
  have inOrder : (segmentNames writer.currentSegmentIndex.toNat).flatMap chunk = entries :=
    layout.names ▸ layout.holds
  have cutHeld (path : String) : (dir.cutShort cuts).contents path =
      (logBytes crc32 (chunk path)).take (cuts path) := congrArg _ (layout.contents path)
  have free := @gapFree_iff crc32 (dir.cutShort cuts) chunk _ cuts entries bound segments cutHeld
  rw [nothingBehindCut_iff bound segments layout.contents, free, ← inOrder]
  have parts (path : String) : keptEntries crc32 cuts chunk path <+: chunk path :=
    whole_prefix (cuts path) (chunk path)
  exact ⟨flatMap_prefix_of_ends parts, ends_of_flatMap_prefix parts⟩

/-- Two cancellations, numbered from 1. -/
def twoCancels : List JournalEntry := [⟨1, .cancelOrder 1⟩, ⟨2, .cancelOrder 2⟩]

/-- A cut of one segment to five bytes. -/
def cutSegment (index : UInt64) (name : String) : Nat :=
  if name = segmentPath index then 5 else 100

/-- Cutting the last of two segments leaves the first record. -/
theorem recoverDir_gapFree_of_last_cut :
    GapFree crc32Hash ((written crc32Hash 1 twoCancels).cutShort (cutSegment 2)) twoCancels :=
  (recoverDir_gapFree_iff crc32Hash 1 twoCancels (cutSegment 2) _ (by decide +kernel)
    (List.Perm.refl _)).1 (by unfold NothingBehindCut; decide +kernel)

/-- When the first of two segments is cut, the second record is read without the first. -/
theorem gap_behind_cut_segment :
    ¬ GapFree crc32Hash ((written crc32Hash 1 twoCancels).cutShort (cutSegment 1)) twoCancels := by
  rintro ⟨recovered, report, kept, run, read, before, -⟩
  have second : ((recoverDir crc32Hash
        ((written crc32Hash 1 twoCancels).cutShort (cutSegment 1))).bind fun recovered =>
      (JournalReader.openDir recovered.1).readAll crc32Hash recovered.1).toOption =
        some [⟨2, .cancelOrder 2⟩] := by decide +kernel
  simp only [run, Except.bind, read] at second
  cases second
  exact absurd before (by decide)

end MatchX.Journal
