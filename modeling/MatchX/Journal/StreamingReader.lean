import MatchX.Journal.LongestPrefix

/-!
# The streaming reader

The streaming reader decodes one record at a time. It reads the length of a record and then the
rest of it, and takes an end of the file in the length field for the end of the segment. One to
three bytes behind the last record of a segment are therefore passed over, where the reader of
whole files fails; on all other files both find the same.
-/

namespace MatchX.Journal

open Support

/-- `StreamingReader`: the segments, and what is left of the open one. -/
structure StreamingReader where
  /-- Files to read. -/
  paths : List String
  /-- Number of the file to open next. -/
  currentSegment : Nat
  /-- Bytes of the open file that have not been read. -/
  reader : Option (List UInt8)
  deriving DecidableEq, Repr

/-- The files of a journal. -/
def segmentPaths (dir : Directory) : JournalPath → List String
  | .directory => listSegmentPaths dir
  | .file path => [path]

/-- `JournalReader::open`. -/
def JournalReader.open (dir : Directory) : JournalPath → Except JournalError JournalReader
  | .directory => .ok (JournalReader.openDir dir)
  | .file path => JournalReader.openFile dir path

namespace StreamingReader

/-- `open_next_segment`: open the next file if there is one. -/
def openNextSegment (dir : Directory) (stream : StreamingReader) :
    Except JournalError (StreamingReader × Bool) :=
  match stream.paths[stream.currentSegment]? with
  | none => .ok ({ stream with reader := none }, false)
  | some path =>
    if path ∈ dir.names then
      .ok ({ stream with
        reader := some (dir.read path), currentSegment := stream.currentSegment + 1 }, true)
    else .error .io

/-- A segment that was opened leaves fewer to open. -/
theorem openNextSegment_lt {dir : Directory} {stream following : StreamingReader}
    (opened : stream.openNextSegment dir = .ok (following, true)) :
    following.paths.length - following.currentSegment <
      stream.paths.length - stream.currentSegment := by
  rw [openNextSegment] at opened
  split at opened
  · cases opened
  · rename_i path found
    have inside := (List.getElem?_eq_some_iff.mp found).1
    split at opened
    · cases opened
      simp only
      omega
    · cases opened

/-- `next_entry`: the next record, in the open segment or a later one. -/
def nextEntry (crc32 : List UInt8 → UInt32) (dir : Directory) (stream : StreamingReader) :
    Except JournalError (Option JournalEntry × StreamingReader) :=
  match stream.reader with
  | none => .ok (none, stream)
  | some bytes =>
    if bytes.length < 4 then
      match _opened : stream.openNextSegment dir with
      | .error error => .error error
      | .ok (following, false) => .ok (none, following)
      | .ok (following, true) => nextEntry crc32 dir following
    else
      let headerBuf := bytes.take 4
      let payloadLen := (word32 headerBuf).toNat
      let bodyLen := 8 + payloadLen + 4
      let rest := bytes.drop 4
      if rest.length < bodyLen then .error .invalidData
      else
        let fullRecord := headerBuf ++ rest.take bodyLen
        match decodeRecord crc32 fullRecord with
        | .error error => .error error
        | .ok (sequence, command, _) =>
          .ok (some ⟨sequence, command⟩, { stream with reader := some (rest.drop bodyLen) })
termination_by stream.paths.length - stream.currentSegment
decreasing_by exact openNextSegment_lt _opened

/-- Calling `next_entry` again and again returns these entries, and then none, and never
fails. -/
inductive Yields (crc32 : List UInt8 → UInt32) (dir : Directory) :
    StreamingReader → List JournalEntry → Prop
  /-- There is no further entry. -/
  | done {stream following : StreamingReader} :
    stream.nextEntry crc32 dir = .ok (none, following) → Yields crc32 dir stream []
  /-- The next entry, and those after it. -/
  | entry {stream following : StreamingReader} {entry : JournalEntry}
      {entries : List JournalEntry} :
    stream.nextEntry crc32 dir = .ok (some entry, following) →
      Yields crc32 dir following entries → Yields crc32 dir stream (entry :: entries)

end StreamingReader

/-- `StreamingReader::open`. -/
def StreamingReader.open (dir : Directory) (path : JournalPath) :
    Except JournalError StreamingReader :=
  (openNextSegment dir ⟨segmentPaths dir path, 0, none⟩).map Prod.fst

/-! ### What each reader finds in one segment -/

variable {crc32 : List UInt8 → UInt32} {dir : Directory} {bytes : List UInt8}
  {entries : List JournalEntry}

/-- Reading a file finds entries behind those found before exactly when the file splits into
them. -/
theorem readFrom_ok_iff {found result : List JournalEntry} :
    readFrom crc32 bytes 0 found = .ok result ↔
      ∃ entries, result = found ++ entries ∧ Splits (acceptRecord crc32) bytes entries := by
  constructor
  · intro read
    obtain ⟨kept, removed, entries, pieces, splits, stuck⟩ :=
      (@acceptRecord_front crc32).exists_longest bytes
    have onwards := readFrom_splits splits [] removed found
    rw [List.nil_append, List.nil_append, List.length_nil, ← pieces, read] at onwards
    by_cases more : kept.length < bytes.length
    · cases decoded : decodeRecord crc32 removed with
      | ok record => rw [acceptRecord, decoded] at stuck; cases stuck
      | error error =>
        have rest : bytes.drop kept.length = removed := by rw [pieces, List.drop_left]
        rw [readFrom_invalid more (by rw [rest, decoded])] at onwards
        cases onwards
    · have nothing : removed = [] := by
        rw [pieces, List.length_append] at more
        exact List.eq_nil_of_length_eq_zero (by omega)
      rw [readFrom, if_neg more] at onwards
      rw [nothing, List.append_nil] at pieces
      rw [pieces]
      exact ⟨entries, Except.ok.inj onwards, splits⟩
  · rintro ⟨entries, rfl, splits⟩
    have read := readFrom_splits splits [] [] found
    rw [List.nil_append, List.append_nil, List.nil_append, List.length_nil] at read
    rw [read, readFrom, if_neg (Nat.lt_irrefl _)]

/-- The bytes of a segment in which the streaming reader finds these entries: records, and too
few bytes for a length behind them. -/
def Streams (crc32 : List UInt8 → UInt32) (bytes : List UInt8) (entries : List JournalEntry) :
    Prop :=
  ∃ kept tail, bytes = kept ++ tail ∧ tail.length < 4 ∧ Splits (acceptRecord crc32) kept entries

/-- A record takes more bytes than a length. -/
theorem acceptRecord_long {entry : JournalEntry} {used : Nat}
    (found : acceptRecord crc32 bytes = some (entry, used)) : 16 ≤ used :=
  decodeRecord_used (acceptRecord_eq_some_iff.mp found)

/-- Few bytes hold no record. -/
theorem acceptRecord_few (few : bytes.length < 4) : acceptRecord crc32 bytes = none :=
  acceptRecord_eq_none (if_pos few)

/-- In few bytes the streaming reader finds no entry. -/
theorem streams_few (few : bytes.length < 4) : Streams crc32 bytes entries ↔ entries = [] := by
  constructor
  · rintro ⟨kept, tail, rfl, -, splits⟩
    cases splits with
    | nil => rfl
    | cons found splits =>
      have long := acceptRecord_long found
      simp only [List.length_append] at few
      omega
  · rintro rfl
    exact ⟨[], bytes, rfl, few, .nil⟩

/-- Where there is a record, the streaming reader finds it and what it finds behind it. -/
theorem streams_record {entry : JournalEntry} {used : Nat}
    (found : acceptRecord crc32 bytes = some (entry, used)) :
    Streams crc32 bytes entries ↔
      ∃ others, entries = entry :: others ∧ Streams crc32 (bytes.drop used) others := by
  constructor
  · rintro ⟨kept, tail, rfl, few, splits⟩
    cases splits with
    | nil =>
      rw [List.nil_append, acceptRecord_few few] at found
      cases found
    | @cons piece rest record records first splits =>
      rw [List.append_assoc] at found ⊢
      rw [acceptRecord_front.append first] at found
      cases found
      rw [List.drop_left]
      exact ⟨records, rfl, rest, tail, rfl, few, splits⟩
  · rintro ⟨others, rfl, kept, tail, pieces, few, splits⟩
    refine ⟨bytes.take used ++ kept, tail, ?_, few, splits.cons (acceptRecord_front.take found)⟩
    rw [List.append_assoc, ← pieces, List.take_append_drop]

/-- Where there are bytes for a length but no record, the streaming reader fails. -/
theorem streams_refused (enough : 4 ≤ bytes.length) (refused : acceptRecord crc32 bytes = none) :
    ¬ Streams crc32 bytes entries := by
  rintro ⟨kept, tail, rfl, few, splits⟩
  cases splits with
  | nil =>
    rw [List.nil_append] at enough
    omega
  | cons first splits =>
    rw [List.append_assoc, acceptRecord_front.append first] at refused
    cases refused

/-! ### What calling for entries finds -/

variable {paths : List String} {segment : Nat}

/-- A record at the front of the open file is the next entry. -/
theorem nextEntry_record {entry : JournalEntry} {used : Nat}
    (found : acceptRecord crc32 bytes = some (entry, used)) :
    StreamingReader.nextEntry crc32 dir ⟨paths, segment, some bytes⟩ =
      .ok (some entry, ⟨paths, segment, some (bytes.drop used)⟩) := by
  have long := acceptRecord_long found
  have inside := acceptRecord_front.used_le found
  have length := decodeRecord_used_eq (acceptRecord_eq_some_iff.mp found)
  simp only at length
  have alone := acceptRecord_eq_some_iff.mp (acceptRecord_front.take found)
  rw [StreamingReader.nextEntry]
  simp only
  rw [if_neg (by omega), if_neg (by rw [List.length_drop]; omega), ← List.take_add,
    List.drop_drop, ← length, alone]

/-- Bytes for a length that are not the front of a record are an error. -/
theorem nextEntry_refused (enough : 4 ≤ bytes.length) (refused : acceptRecord crc32 bytes = none)
    {found : Option JournalEntry × StreamingReader} :
    StreamingReader.nextEntry crc32 dir ⟨paths, segment, some bytes⟩ ≠ .ok found := by
  intro returned
  rw [StreamingReader.nextEntry] at returned
  simp only at returned
  rw [if_neg (by omega)] at returned
  split at returned
  · cases returned
  · split at returned
    · cases returned
    · rename_i whole _ sequence command used decoded
      -- The bytes that were read are a record of their own, so there is one at the front.
      rw [← List.take_add] at decoded
      have length := decodeRecord_used_eq decoded
      simp only [List.take_take] at length
      rw [Nat.min_eq_left (by omega)] at length
      rw [← length] at decoded
      rw [List.length_drop] at whole
      have kept : (bytes.take used).length = used := List.length_take_of_le (by omega)
      have alone : acceptRecord crc32 (bytes.take used) =
          some (⟨sequence, command⟩, (bytes.take used).length) := by
        rw [kept]
        exact acceptRecord_eq_some_iff.mpr decoded
      have there := acceptRecord_front.append alone (bytes.drop used)
      rw [List.take_append_drop, refused] at there
      cases there

/-- Behind the last bytes of the last segment there is no entry. -/
theorem nextEntry_last (few : bytes.length < 4) (last : paths[segment]? = none) :
    StreamingReader.nextEntry crc32 dir ⟨paths, segment, some bytes⟩ =
      .ok (none, ⟨paths, segment, none⟩) := by
  have closed : StreamingReader.openNextSegment dir ⟨paths, segment, some bytes⟩ =
      .ok (⟨paths, segment, none⟩, false) := by
    rw [StreamingReader.openNextSegment, last]
  rw [StreamingReader.nextEntry]
  simp only
  rw [if_pos few]
  split <;> rename_i opened <;> rw [closed] at opened <;> cases opened
  rfl

/-- Behind the last bytes of a segment the next entry is that of the next segment. -/
theorem nextEntry_next {path : String} (few : bytes.length < 4)
    (next : paths[segment]? = some path) (present : path ∈ dir.names) :
    StreamingReader.nextEntry crc32 dir ⟨paths, segment, some bytes⟩ =
      StreamingReader.nextEntry crc32 dir ⟨paths, segment + 1, some (dir.read path)⟩ := by
  have further : StreamingReader.openNextSegment dir ⟨paths, segment, some bytes⟩ =
      .ok (⟨paths, segment + 1, some (dir.read path)⟩, true) := by
    rw [StreamingReader.openNextSegment, next]
    exact if_pos present
  rw [StreamingReader.nextEntry]
  simp only
  rw [if_pos few]
  split <;> rename_i opened <;> rw [further] at opened <;> cases opened
  rfl

/-- Readers whose next entry is the same yield the same. -/
theorem yields_congr {stream other : StreamingReader}
    (same : stream.nextEntry crc32 dir = other.nextEntry crc32 dir)
    (yields : stream.Yields crc32 dir entries) : other.Yields crc32 dir entries := by
  cases yields with
  | done ended => exact .done (same ▸ ended)
  | entry found rest => exact .entry (same ▸ found) rest

/-- Entries found in a row, some in each of several files. -/
def InRow (holds : String → List JournalEntry → Prop) :
    List String → List JournalEntry → Prop
  | [], entries => entries = []
  | path :: rest, entries =>
    ∃ first others, entries = first ++ others ∧ holds path first ∧ InRow holds rest others

/-- What holds of the entries of each file may be weakened. -/
theorem InRow.mono {holds holds' : String → List JournalEntry → Prop}
    (weaker : ∀ path ∈ paths, ∀ entries, holds path entries → holds' path entries)
    (row : InRow holds paths entries) : InRow holds' paths entries := by
  induction paths generalizing entries with
  | nil => exact row
  | cons path rest ih =>
    obtain ⟨first, others, rfl, head, tail⟩ := row
    have later := ih (fun other among => weaker other (List.mem_cons_of_mem _ among)) tail
    exact ⟨first, others, rfl, weaker path List.mem_cons_self first head, later⟩

/-- Each file of a row has its entries. -/
theorem InRow.of_mem {holds : String → List JournalEntry → Prop} {path : String}
    (row : InRow holds paths entries) (among : path ∈ paths) : ∃ part, holds path part := by
  induction paths generalizing entries with
  | nil => cases among
  | cons head rest ih =>
    obtain ⟨first, others, rfl, here, tail⟩ := row
    obtain rfl | later := List.mem_cons.mp among
    · exact ⟨first, here⟩
    · exact ih tail later

/-- Files that each have entries have them in a row. -/
theorem InRow.exists {holds : String → List JournalEntry → Prop}
    (each : ∀ path ∈ paths, ∃ part, holds path part) : ∃ entries, InRow holds paths entries := by
  induction paths with
  | nil => exact ⟨[], rfl⟩
  | cons path rest ih =>
    obtain ⟨first, here⟩ := each path List.mem_cons_self
    obtain ⟨others, tail⟩ := ih fun other among => each other (List.mem_cons_of_mem _ among)
    exact ⟨first ++ others, first, others, rfl, here, tail⟩

/-- The streaming reader yields what it finds in the open segment, and then what it yields behind
its last bytes. -/
theorem yields_segment {after : List JournalEntry → Prop}
    (ends : ∀ {bytes : List UInt8} {entries : List JournalEntry}, bytes.length < 4 →
      (StreamingReader.Yields crc32 dir ⟨paths, segment, some bytes⟩ entries ↔ after entries)) :
    StreamingReader.Yields crc32 dir ⟨paths, segment, some bytes⟩ entries ↔
      ∃ first others, entries = first ++ others ∧ Streams crc32 bytes first ∧ after others := by
  induction length : bytes.length using Nat.strong_induction_on generalizing bytes entries with
  | h size ih =>
    cases found : acceptRecord crc32 bytes with
    | none =>
      by_cases few : bytes.length < 4
      · rw [ends few]
        constructor
        · intro later
          exact ⟨[], entries, rfl, (streams_few few).mpr rfl, later⟩
        · rintro ⟨first, others, rfl, streams, later⟩
          rw [(streams_few few).mp streams]
          exact later
      · have enough : 4 ≤ bytes.length := Nat.le_of_not_lt few
        constructor
        · intro yields
          cases yields with
          | done ended => exact absurd ended (nextEntry_refused enough found)
          | entry next _ => exact absurd next (nextEntry_refused enough found)
        · rintro ⟨first, others, -, streams, -⟩
          exact absurd streams (streams_refused enough found)
    | some record =>
      obtain ⟨entry, used⟩ := record
      have next := @nextEntry_record crc32 dir _ paths segment _ _ found
      have long := acceptRecord_long found
      have inside := acceptRecord_front.used_le found
      have shorter : (bytes.drop used).length < size := by
        rw [List.length_drop]
        omega
      constructor
      · intro yields
        cases yields with
        | done ended => rw [next] at ended; cases ended
        | @entry _ following _ rest found' yields =>
          rw [next] at found'
          cases found'
          obtain ⟨first, others, rfl, streams, later⟩ := (ih _ shorter rfl).mp yields
          exact ⟨entry :: first, others, rfl, (streams_record found).mpr ⟨first, rfl, streams⟩,
            later⟩
      · rintro ⟨first, others, rfl, streams, later⟩
        obtain ⟨first, rfl, behind⟩ := (streams_record found).mp streams
        exact .entry next ((ih _ shorter rfl).mpr ⟨first, others, rfl, behind, later⟩)

/-- The streaming reader yields what it finds in the open segment, and then what it finds in
each of the segments after it. -/
theorem yields_iff (present : ∀ path ∈ paths, path ∈ dir.names) :
    StreamingReader.Yields crc32 dir ⟨paths, segment, some bytes⟩ entries ↔
      ∃ first others, entries = first ++ others ∧ Streams crc32 bytes first ∧
        InRow (fun path => Streams crc32 (dir.read path)) (paths.drop segment) others := by
  induction remaining : paths.drop segment generalizing segment bytes entries with
  | nil =>
    have last : paths[segment]? = none := by
      rw [← List.head?_drop, remaining]
      rfl
    refine yields_segment fun few => ?_
    have ended := @nextEntry_last crc32 dir _ _ _ few last
    constructor
    · intro yields
      cases yields with
      | done _ => rfl
      | entry found _ => rw [ended] at found; cases found
    · rintro rfl
      exact .done ended
  | cons path rest ih =>
    have next : paths[segment]? = some path := by
      rw [← List.head?_drop, remaining]
      rfl
    have behind : paths.drop (segment + 1) = rest := by
      rw [← List.tail_drop, remaining]
      rfl
    have there : path ∈ dir.names := present path (List.mem_of_getElem? next)
    refine yields_segment fun few => ?_
    have same := @nextEntry_next crc32 dir _ _ _ _ few next there
    rw [InRow, ← ih behind]
    exact ⟨yields_congr same, yields_congr same.symm⟩

/-- The batch reader finds the entries that the files split into, in a row. -/
theorem readAll_ok_iff {found result : List JournalEntry} :
    paths.foldlM (fun entries path => readFrom crc32 (dir.read path) 0 entries) found =
        .ok result ↔
      ∃ entries, result = found ++ entries ∧
        InRow (fun path => Splits (acceptRecord crc32) (dir.read path)) paths entries := by
  induction paths generalizing found with
  | nil =>
    constructor
    · intro read
      cases read
      exact ⟨[], (List.append_nil _).symm, rfl⟩
    · rintro ⟨entries, rfl, none_left⟩
      rw [InRow] at none_left
      rw [none_left, List.append_nil]
      rfl
  | cons path rest ih =>
    rw [List.foldlM_cons]
    constructor
    · intro read
      cases first : readFrom crc32 (dir.read path) 0 found with
      | error error => rw [first] at read; cases read
      | ok sofar =>
        obtain ⟨entries, rfl, splits⟩ := readFrom_ok_iff.mp first
        rw [first] at read
        obtain ⟨others, rfl, later⟩ := ih.mp read
        exact ⟨entries ++ others, List.append_assoc .., entries, others, rfl, splits, later⟩
    · rintro ⟨entries, rfl, first, others, rfl, splits, later⟩
      rw [readFrom_ok_iff.mpr ⟨first, rfl, splits⟩]
      exact ih.mpr ⟨others, (List.append_assoc ..).symm, later⟩

/-! ### Agreement -/

variable {path : JournalPath}

/-- The segments of a directory are files of it. -/
theorem mem_listSegmentPaths {name : String} (among : name ∈ listSegmentPaths dir) :
    name ∈ dir.names := by
  rw [listSegmentPaths, sortNames, List.mem_insertionSort] at among
  exact (List.mem_filter.mp among).1

/-- The batch reader finds entries in files that are there, which split into them in a row. -/
theorem batch_iff :
    (JournalReader.open dir path).bind (fun reader => reader.readAll crc32 dir) = .ok entries ↔
      (∀ name ∈ segmentPaths dir path, name ∈ dir.names) ∧
        InRow (fun name => Splits (acceptRecord crc32) (dir.read name)) (segmentPaths dir path)
          entries := by
  have read {paths : List String} : (JournalReader.mk paths).readAll crc32 dir = .ok entries ↔
      InRow (fun name => Splits (acceptRecord crc32) (dir.read name)) paths entries := by
    rw [JournalReader.readAll, readAll_ok_iff]
    simp only [List.nil_append, exists_eq_left']
  cases path with
  | directory =>
    have there : ∀ name ∈ segmentPaths dir .directory, name ∈ dir.names :=
      fun _ => mem_listSegmentPaths
    exact read.trans (and_iff_right there).symm
  | file name =>
    by_cases present : name ∈ dir.names
    · have opened : JournalReader.open dir (.file name) = .ok ⟨[name]⟩ := if_pos present
      have there : ∀ other ∈ segmentPaths dir (.file name), other ∈ dir.names := by
        intro other among
        rw [List.mem_singleton.mp among]
        exact present
      rw [opened]
      exact read.trans (and_iff_right there).symm
    · have missing : JournalReader.open dir (.file name) = .error .io := if_neg present
      rw [missing]
      constructor
      · intro found
        cases found
      · rintro ⟨there, -⟩
        exact absurd (there name (List.mem_singleton_self name)) present

/-- The streaming reader yields entries from files that are there, in which it finds them in a
row. -/
theorem streaming_iff :
    (∃ stream, StreamingReader.open dir path = .ok stream ∧ stream.Yields crc32 dir entries) ↔
      (∀ name ∈ segmentPaths dir path, name ∈ dir.names) ∧
        InRow (fun name => Streams crc32 (dir.read name)) (segmentPaths dir path) entries := by
  have yields {paths : List String} (there : ∀ name ∈ paths, name ∈ dir.names) :
      (∃ stream, (StreamingReader.openNextSegment dir ⟨paths, 0, none⟩).map Prod.fst =
          .ok stream ∧ stream.Yields crc32 dir entries) ↔
        InRow (fun name => Streams crc32 (dir.read name)) paths entries := by
    cases paths with
    | nil =>
      have ended : StreamingReader.nextEntry crc32 dir ⟨[], 0, none⟩ =
          .ok (none, ⟨[], 0, none⟩) := by
        rw [StreamingReader.nextEntry]
      constructor
      · rintro ⟨stream, opened, yields⟩
        cases opened
        cases yields with
        | done _ => rfl
        | entry found _ => rw [ended] at found; cases found
      · intro nothing
        rw [InRow] at nothing
        rw [nothing]
        exact ⟨_, rfl, .done ended⟩
    | cons name rest =>
      have opened : (StreamingReader.openNextSegment dir ⟨name :: rest, 0, none⟩).map Prod.fst =
          .ok ⟨name :: rest, 1, some (dir.read name)⟩ := by
        have present := there name List.mem_cons_self
        simp only [StreamingReader.openNextSegment, List.getElem?_cons_zero, if_pos present]
        rfl
      rw [opened, InRow]
      simp only [Except.ok.injEq, exists_eq_left']
      exact yields_iff there
  cases path with
  | directory =>
    have there : ∀ name ∈ segmentPaths dir .directory, name ∈ dir.names :=
      fun _ => mem_listSegmentPaths
    exact (yields there).trans (and_iff_right there).symm
  | file name =>
    by_cases present : name ∈ dir.names
    · have there : ∀ other ∈ segmentPaths dir (.file name), other ∈ dir.names := by
        intro other among
        rw [List.mem_singleton.mp among]
        exact present
      exact (yields there).trans (and_iff_right there).symm
    · have missing : StreamingReader.open dir (.file name) = .error .io := by
        simp only [StreamingReader.open, segmentPaths, StreamingReader.openNextSegment,
          List.getElem?_cons_zero, if_neg present]
        rfl
      rw [missing]
      constructor
      · rintro ⟨stream, opened, -⟩
        cases opened
      · rintro ⟨there, -⟩
        exact absurd (there name (List.mem_singleton_self name)) present

/-- One to three bytes behind the last record of a segment. -/
def ShortTail (crc32 : List UInt8 → UInt32) (bytes : List UInt8) : Prop :=
  ∃ kept tail entries, bytes = kept ++ tail ∧ Splits (acceptRecord crc32) kept entries ∧
    0 < tail.length ∧ tail.length < 4

/-- A segment with a short tail does not split into records. -/
theorem ShortTail.not_splits (short : ShortTail crc32 bytes) :
    ¬ Splits (acceptRecord crc32) bytes entries := by
  intro splits
  obtain ⟨kept, tail, records, pieces, inside, some_left, few⟩ := short
  have within := splits.longest acceptRecord_front List.prefix_rfl inside pieces
    (acceptRecord_few few)
  have length := within.1.length_le
  rw [pieces, List.length_append] at length
  omega

/-- In a segment that splits into records the streaming reader finds these. -/
theorem streams_of_splits (splits : Splits (acceptRecord crc32) bytes entries) :
    Streams crc32 bytes entries :=
  ⟨bytes, [], (List.append_nil _).symm, by decide, splits⟩

/-- A segment splits into what the streaming reader finds in it, unless it has a short tail. -/
theorem Streams.splits (streams : Streams crc32 bytes entries)
    (whole : ¬ ShortTail crc32 bytes) : Splits (acceptRecord crc32) bytes entries := by
  obtain ⟨kept, tail, pieces, few, splits⟩ := streams
  have nothing : tail = [] := by
    apply List.eq_nil_of_length_eq_zero
    apply Nat.eq_zero_of_not_pos
    intro some_left
    exact whole ⟨kept, tail, entries, pieces, splits, some_left, few⟩
  rw [pieces, nothing, List.append_nil]
  exact splits

/-- The two readers find the same entries, or both fail, unless every segment is records with
less than four bytes behind them and some segment has such bytes. -/
theorem readers_agree_iff (crc32 : List UInt8 → UInt32) (dir : Directory) (path : JournalPath) :
    (∀ entries,
      (JournalReader.open dir path).bind (fun reader => reader.readAll crc32 dir) = .ok entries ↔
        ∃ stream, StreamingReader.open dir path = .ok stream ∧
          stream.Yields crc32 dir entries) ↔
      ¬ ((∀ name ∈ segmentPaths dir path, name ∈ dir.names ∧
            ∃ entries, Streams crc32 (dir.read name) entries) ∧
          ∃ name ∈ segmentPaths dir path, ShortTail crc32 (dir.read name)) := by
  simp only [batch_iff, streaming_iff]
  constructor
  · rintro agree ⟨each, name, among, short⟩
    have there : ∀ other ∈ segmentPaths dir path, other ∈ dir.names :=
      fun other inside => (each other inside).1
    obtain ⟨entries, row⟩ := InRow.exists fun other inside => (each other inside).2
    obtain ⟨part, splits⟩ := ((agree entries).mpr ⟨there, row⟩).2.of_mem among
    exact short.not_splits splits
  · intro apart entries
    constructor
    · rintro ⟨there, row⟩
      exact ⟨there, row.mono fun _ _ _ => streams_of_splits⟩
    · rintro ⟨there, row⟩
      refine ⟨there, row.mono fun name among part streams => streams.splits fun short => ?_⟩
      exact apart ⟨fun other inside => ⟨there other inside, row.of_mem inside⟩, name, among, short⟩

/-- A file of one record and the first three bytes of another: the reader of whole files fails,
the streaming reader yields the one record. -/
theorem readers_disagree_torn :
    let dir : Directory := ⟨["wal"], fun _ =>
      encodeRecord crc32Hash 1 (.cancelOrder 7) ++
        (encodeRecord crc32Hash 2 (.cancelOrder 8)).take 3⟩
    (JournalReader.open dir (.file "wal")).bind (fun reader => reader.readAll crc32Hash dir) =
        .error .invalidData ∧
      ∃ stream, StreamingReader.open dir (.file "wal") = .ok stream ∧
        stream.Yields crc32Hash dir [⟨1, .cancelOrder 7⟩] := by
  intro dir
  have present : "wal" ∈ dir.names := List.mem_singleton_self _
  have splits : Splits (acceptRecord crc32Hash) (encodeRecord crc32Hash 1 (.cancelOrder 7))
      [⟨1, .cancelOrder 7⟩] := by
    have log := @logBytes_splits crc32Hash [⟨1, .cancelOrder 7⟩]
    rwa [logBytes, List.flatMap_singleton] at log
  constructor
  · have opened : JournalReader.open dir (.file "wal") = .ok ⟨["wal"]⟩ := by
      rw [JournalReader.open, JournalReader.openFile, if_pos present]
    have read := readFrom_splits splits [] ((encodeRecord crc32Hash 2 (.cancelOrder 8)).take 3) []
    rw [opened]
    change (readFrom crc32Hash (dir.read "wal") 0 [] >>= pure) = _
    rw [bind_pure]
    refine Eq.trans read (readFrom_invalid (by decide +kernel) ?_)
    decide +kernel
  · rw [streaming_iff]
    constructor
    · intro name among
      rw [List.mem_singleton.mp among]
      exact present
    · exact ⟨_, [], rfl, ⟨_, _, rfl, by decide +kernel, splits⟩, rfl⟩

end MatchX.Journal
