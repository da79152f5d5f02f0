import MatchX.Journal.Crash
import MatchX.Journal.Marks

/-!
# Many lives of a journal

A journal is opened on a file, written by its threads in any order, and crashes; the file is
recovered, read, and opened again, any number of times. As long as a crash spares the bytes of what
was durable, the log at every recovery is what the lives left of their records, one life behind the
other: the first of those it had put into the queue, in order, with every durable one among them.
-/

namespace MatchX.Journal.JournalThreads

open Support

variable {crc32 : List UInt8 → UInt32} {path : String} {cfg : AsyncJournalConfig}
  {files : Directory} {threads : JournalThreads} {log : List JournalEntry} {cut : Nat}
  {lives : List JournalThreads}

/-- A crash leaves the records that were in the file when it was opened, and those that became
durable since. -/
def Spares (crc32 : List UInt8 → UInt32) (log : List JournalEntry) (threads : JournalThreads)
    (cut : Nat) : Prop :=
  (logBytes crc32 (log ++ threads.enqueued.filter fun entry =>
    decide (entry.sequence ≤ threads.durable))).length ≤ cut

instance : Decidable (Spares crc32 log threads cut) := inferInstanceAs (Decidable (_ ≤ _))

/-- The journals that were opened on a file one after the other, each as its crash met it, the log
that was read at the last recovery, and the files from then on. -/
inductive Lived (crc32 : List UInt8 → UInt32) (path : String) :
    List JournalThreads → List JournalEntry → Directory → Prop
  /-- There is no file at first. -/
  | born {files : Directory} (fresh : path ∉ files.names) : Lived crc32 path [] [] files
  /-- A journal is opened, run and crashes; then the file is recovered and read. -/
  | crashed {lives : List JournalThreads} {log found : List JournalEntry}
      {files recovered : Directory} {report : RecoveryReport} {cfg : AsyncJournalConfig}
      {threads : JournalThreads} {cut : Nat} (lived : Lived crc32 path lives log files)
      (reached : Reaches crc32 files path cfg Ascends threads)
      (spares : Spares crc32 log threads cut)
      (recovers : recoverPath crc32 (threads.files.setLen path cut) (.file path) =
        .ok (recovered, report))
      (reads : readLog crc32 recovered path = .ok found) :
      Lived crc32 path (lives ++ [threads]) found recovered

/-- What a life leaves of its records. -/
structure Survives (threads : JournalThreads) (survived : List JournalEntry) : Prop where
  /-- They are the first it had put into the queue. -/
  first : survived <+: threads.enqueued
  /-- Among them are those that were durable. -/
  durable : ∀ entry ∈ threads.enqueued, entry.sequence ≤ threads.durable → entry ∈ survived
  /-- Only calls that returned `Ok`, or were about to, had put them there. -/
  answered : threads.enqueued = threads.acknowledged ++ threads.unanswered

/-- Recovery cuts a crashed file back to a log. -/
structure CutBack (crc32 : List UInt8 → UInt32) (path : String) (log : List JournalEntry)
    (threads : JournalThreads) (cut : Nat) (survived : List JournalEntry) (recovered : Directory)
    (report : RecoveryReport) : Prop where
  /-- Recovery does not fail. -/
  recovers : recoverPath crc32 (threads.files.setLen path cut) (.file path) =
    .ok (recovered, report)
  /-- It leaves the records from before and those that the life leaves. -/
  reads : readLog crc32 recovered path = .ok (log ++ survived)
  /-- The life leaves the first of its records. -/
  survives : Survives threads survived
  /-- The report names the last sequence number. -/
  reports : report.lastValidSequence = lastSequence 0 (log ++ survived)
  /-- The file holds the log. -/
  holds : (recovered.openAppend path).read path = logBytes crc32 (log ++ survived)

/-- The durable entries of ascending ones are those up to the durable number. -/
theorem Accounts.done_eq {original : List UInt8} {done held behind : List JournalEntry}
    (accounts : Accounts crc32 original threads done held behind) (called : Called threads) :
    (threads.enqueued.filter fun entry => decide (entry.sequence ≤ threads.durable)) = done := by
  have split := accounts.split
  have durable := accounts.durable
  obtain ⟨early, -, above⟩ := List.pairwise_append.mp (split ▸ called.ascending)
  have last := lastSequence_mem 0 done
  rw [← durable] at last
  have low : ∀ entry ∈ done, decide (entry.sequence ≤ threads.durable) = true := by
    intro entry among
    rw [durable]
    exact decide_eq_true (le_lastSequence 0 early among)
  have high : ∀ entry ∈ held ++ behind, ¬decide (entry.sequence ≤ threads.durable) = true := by
    intro entry late most
    have most := of_decide_eq_true most
    rcases last with none | ⟨first, among, same⟩
    · have some := called.positive entry (split ▸ List.mem_append_right _ late)
      rw [none] at most
      exact UInt64.lt_irrefl _ (UInt64.lt_of_lt_of_le some most)
    · rw [← same] at most
      exact UInt64.lt_irrefl _ (UInt64.lt_of_lt_of_le (above first among entry late) most)
  rw [split, List.filter_append, List.filter_eq_self.mpr low, List.filter_eq_nil_iff.mpr high,
    List.append_nil]

/-- Every step keeps to the file. -/
theorem path_of_step {following : JournalThreads} {action : ThreadAction}
    (stepped : threads.step crc32 action = .ok following) : following.path = threads.path := by
  cases action with
  | call sequence cmd =>
    obtain ⟨-, rfl⟩ := called_of_step stepped
    rfl
  | produce =>
    cases produces_of_produce stepped with
    | refuses | passes | sends | accepts => rfl
  | close | work | write count | fail =>
    obtain ⟨-, -, -, -, same, -⟩ := apart_of_step rfl stepped
    exact same

/-- What a run of ascending calls keeps account of, behind the log that it found. -/
theorem accounts_of_opened (held : (files.openAppend path).read path = logBytes crc32 log)
    (reached : Reaches crc32 files path cfg Ascends threads) :
    (∃ done held behind, Accounts crc32 (logBytes crc32 log) threads done held behind) ∧
      Called threads ∧ Answers threads ∧ threads.path = path := by
  refine Reached.invariant ?_ ?_ reached
  · intro threads opened
    subst opened
    have accounts := @accounts_open crc32 files path cfg
    have bytes : (openThreads files path cfg).bytes = logBytes crc32 log := held
    rw [bytes] at accounts
    refine ⟨⟨[], [], [], accounts⟩, ⟨.nil, ?_, ?_⟩, ⟨rfl, mem_openAppend files path⟩, rfl⟩
    all_goals rintro entry ⟨⟩
  · intro threads action following before ascends stepped
    obtain ⟨⟨done, held, behind, accounts⟩, called, answers, same⟩ := before
    exact ⟨accounts.step stepped, called.step ascends stepped, answers.step stepped,
      (path_of_step stepped).trans same⟩

/-- After a crash that spares what is durable, recovery cuts the file back to the log from before
and the first of the records since. -/
theorem cutBack_of_spares (held : (files.openAppend path).read path = logBytes crc32 log)
    (reached : Reaches crc32 files path cfg Ascends threads)
    (spares : Spares crc32 log threads cut) :
    ∃ survived recovered report,
      CutBack crc32 path log threads cut survived recovered report := by
  obtain ⟨⟨done, held, behind, accounts⟩, called, answers, rfl⟩ := accounts_of_opened held reached
  rw [Spares, accounts.done_eq called] at spares
  have together : ∀ entries, extended crc32 (logBytes crc32 log) entries =
      logBytes crc32 (log ++ entries) := fun entries => List.flatMap_append.symm
  have inside := accounts.inside
  have begins : threads.files.read threads.path <+: _ := accounts.begins
  rw [together] at inside begins
  let room := min cut (threads.files.read threads.path).length
  have cutBack : (threads.files.setLen threads.path cut).contents threads.path =
      (logBytes crc32 (log ++ threads.enqueued)).take room := by
    rw [← List.take_take, ← List.prefix_iff_eq_take.mp begins]
    exact Function.update_self ..
  obtain ⟨truncated, run⟩ := recoverFile_cut cutBack
  have kept : log ++ done <+: whole (JournalEntry.record crc32) room (log ++ threads.enqueued) := by
    rw [accounts.split, ← List.append_assoc]
    exact prefix_whole (Nat.le_min.mpr ⟨spares, inside.length_le⟩)
  obtain ⟨rest, found⟩ := (List.prefix_append log done).trans kept
  have first : rest <+: threads.enqueued := by
    have begins' : whole (JournalEntry.record crc32) room (log ++ threads.enqueued) <+:
        log ++ threads.enqueued := whole_prefix room _
    rw [← found] at begins'
    exact (List.prefix_append_right_inj log).mp begins'
  rw [← found] at run kept
  refine ⟨rest, _, _, run, ?_, ⟨first, ?_, answers.answered⟩, rfl, ?_⟩
  · exact readAll_openFile answers.present (Directory.put_self ..)
  · intro entry among most
    have early : entry ∈ done := by
      rw [← accounts.done_eq called]
      exact List.mem_filter.mpr ⟨among, decide_eq_true most⟩
    exact ((List.prefix_append_right_inj log).mp kept).subset early
  · have present : threads.path ∈ ((threads.files.setLen threads.path cut).put threads.path
        (logBytes crc32 (log ++ rest))).names := answers.present
    rw [openAppend_of_mem present]
    exact Directory.put_self ..

/-- After any number of lives, of which no crash took what was durable, the log is what they left of
their records, one life behind the other; and the next life can crash at any moment and be recovered
in the same way. -/
theorem lives_keep_durable (crc32 : List UInt8 → UInt32) (path : String)
    (lives : List JournalThreads) (log : List JournalEntry) (files : Directory)
    (lived : Lived crc32 path lives log files) :
    (∃ survived, log = survived.flatten ∧ List.Forall₂ Survives lives survived) ∧
    ∀ cfg threads cut, Reaches crc32 files path cfg Ascends threads → Spares crc32 log threads cut →
      ∃ survived recovered report,
        CutBack crc32 path log threads cut survived recovered report := by
  have both : (∃ survived, log = survived.flatten ∧ List.Forall₂ Survives lives survived) ∧
      (files.openAppend path).read path = logBytes crc32 log := by
    induction lived with
    | born fresh => exact ⟨⟨[], rfl, .nil⟩, openAppend_fresh fresh⟩
    | crashed _ reached spares recovers reads ih =>
      obtain ⟨⟨before, rfl, survive⟩, held⟩ := ih
      obtain ⟨survived, recovered, report, cutBack⟩ := cutBack_of_spares held reached spares
      obtain ⟨rfl, rfl⟩ := Prod.mk.inj (Except.ok.inj (recovers.symm.trans cutBack.recovers))
      obtain rfl := Except.ok.inj (reads.symm.trans cutBack.reads)
      refine ⟨⟨before ++ [survived], ?_, ?_⟩, cutBack.holds⟩
      · rw [List.flatten_append, List.flatten_singleton]
      · exact List.rel_append survive (.cons cutBack.survives .nil)
  obtain ⟨survive, held⟩ := both
  exact ⟨survive, fun cfg threads cut reached spares => cutBack_of_spares held reached spares⟩

/-- The steps that put a record of 25 bytes into the file, apart from the last ones. -/
def oneRecord (sequence : UInt64) (written : Nat) : List ThreadAction :=
  wholeCall sequence ++ [.work, .work, .work, .write written]

/-- Crash, recover and read: what the log holds then passes a test. -/
def readsBack (files : Directory) (cut : Nat) (test : Directory → List JournalEntry → Bool) :
    Bool :=
  (recoverPath crc32Hash (files.setLen "wal" cut) (.file "wal")).toOption.any fun found =>
    (readLog crc32Hash found.1 "wal").toOption.any (test found.1)

/-- What is read back is a recovery and a reading of the file. -/
theorem exists_readsBack {test : Directory → List JournalEntry → Bool}
    (passes : readsBack files cut test = true) : ∃ recovered report found,
      recoverPath crc32Hash (files.setLen "wal" cut) (.file "wal") = .ok (recovered, report) ∧
      readLog crc32Hash recovered "wal" = .ok found ∧ test recovered found = true := by
  obtain ⟨⟨recovered, report⟩, recovers, reads⟩ := (Option.any_eq_true _ _).mp passes
  obtain ⟨found, reads, tested⟩ := (Option.any_eq_true _ _).mp reads
  exact ⟨recovered, report, found, ok_of_toOption recovers, ok_of_toOption reads, tested⟩

/-- A first life crashes within its second record, and a second life with that record written and
not yet durable. -/
theorem second_life_recovered : ∃ lives log files, Lived crc32Hash "wal" lives log files ∧
    (lives.length = 2 ∧ log.map JournalEntry.sequence = [1, 2]) ∧
    ∃ survived, log = survived.flatten ∧ List.Forall₂ Survives lives survived := by
  let ascends : JournalThreads → ThreadAction → Bool := fun threads action =>
    decide (Ascends threads action)
  let first : List JournalEntry := [⟨1, .cancelOrder 1⟩]
  obtain ⟨threads, reached, shown⟩ : ∃ threads,
      Reaches crc32Hash .empty "wal" ⟨1, 1⟩ Ascends threads ∧
      (decide (Spares crc32Hash [] threads 30) && readsBack threads.files 30 fun recovered found =>
        found == first &&
        (checkedRun ascends (step crc32Hash) (oneRecord 2 25)
          (openThreads recovered "wal" ⟨1, 1⟩)).any fun threads =>
            decide (Spares crc32Hash first threads 50) &&
            readsBack threads.files 50 fun _ found => found.map JournalEntry.sequence == [1, 2])
        = true :=
    Reached.exists_checkedRun ascends _ (fun _ _ => of_decide_eq_true) rfl
      (oneRecord 1 25 ++ [.work, .work] ++ oneRecord 2 10) (by decide +kernel)
  rw [Bool.and_eq_true] at shown
  obtain ⟨recovered, report, found, recovers, reads, more⟩ := exists_readsBack shown.2
  rw [Bool.and_eq_true] at more
  have born : Lived crc32Hash "wal" [] [] .empty := .born List.not_mem_nil
  have crashed := born.crashed reached (of_decide_eq_true shown.1) recovers reads
  rw [beq_iff_eq.mp more.1] at crashed
  obtain ⟨again, reached, shown⟩ : ∃ threads,
      Reaches crc32Hash recovered "wal" ⟨1, 1⟩ Ascends threads ∧ _ :=
    Reached.exists_checkedRun ascends _ (fun _ _ => of_decide_eq_true) rfl (oneRecord 2 25) more.2
  rw [Bool.and_eq_true] at shown
  obtain ⟨recovered', report', log, recovers, reads, sequences⟩ := exists_readsBack shown.2
  have lived := crashed.crashed reached (of_decide_eq_true shown.1) recovers reads
  exact ⟨_, log, recovered', lived, ⟨rfl, beq_iff_eq.mp sequences⟩,
    (lives_keep_durable crc32Hash "wal" _ log recovered' lived).1⟩

end MatchX.Journal.JournalThreads
