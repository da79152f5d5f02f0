import MatchX.Journal.Interleaving
import Mathlib.Data.List.Forall2

/-!
# A crash of the pipeline

The pipeline may crash at any moment and the file lose any of its last bytes. Recovery then finds
the first of the commands whose calls returned `Ok`, up to the durable sequence number at least when
nothing durable was lost. When no call was refused these are the first of the commands executed:
replaying them gives the engine as it was after them, with the events that their calls returned,
and the commands lost would lead it on to the engine of the crash.
-/

namespace MatchX.Journal

open Support

variable {config : InstrumentConfig} {crc32 : List UInt8 → UInt32} {path : String}
  {arenaCapacity : UInt32} {cfg : AsyncJournalConfig} {running following : Running config}
  {threads : JournalThreads} {executed : List Command} {outputs : List (List MatchEvent)}

/-! ## What a run has executed -/

/-- Commands with the sequence numbers that the pipeline gives them. -/
def numbered (executed : List Command) : List JournalEntry :=
  executed.mapIdx fun index cmd => ⟨UInt64.ofNat (index + 1), cmd⟩

/-- The entries of the calls that returned `Ok`. -/
def acknowledged (executed : List Command)
    (returned : List (Except JournalError (List MatchEvent))) : List JournalEntry :=
  ((numbered executed).zip returned).filterMap fun (entry, result) =>
    if errorOf result = none then some entry else none

/-- A call that returns `Ok` returns the events of the engine. -/
def Tells (result : Except JournalError (List MatchEvent)) (events : List MatchEvent) : Prop :=
  ∀ found, result = .ok found → found = events

/-- A call of the pipeline executes the command, counts it and offers it to the journal. -/
theorem EndToEndPipeline.process_cases {pipeline after : EndToEndPipeline config} {cmd : Command}
    {result : Except JournalError (List MatchEvent)}
    (processed : pipeline.process crc32 cmd = .ok (after, result)) :
    pipeline.engine.process cmd = .ok after.engine ∧ after.inputSeq = pipeline.inputSeq + 1 ∧
      Tells result after.engine.eventBuf ∧
      match errorOf result with
      | none => pipeline.journal.append crc32 (pipeline.inputSeq + 1) cmd = .ok after.journal
      | some error => pipeline.journal.append crc32 (pipeline.inputSeq + 1) cmd = .error error ∧
          after.journal = pipeline.journal := by
  unfold EndToEndPipeline.process at processed
  obtain ⟨engine, called, returned⟩ := bind_ok processed
  cases appended : pipeline.journal.append crc32 (pipeline.inputSeq + 1) cmd with
  | error error =>
    simp only [appended] at returned
    obtain ⟨rfl, rfl⟩ := Prod.mk.inj (Except.ok.inj returned)
    exact ⟨called, rfl, fun found failed => by contradiction, rfl, rfl⟩
  | ok journal =>
    simp only [appended] at returned
    obtain ⟨rfl, rfl⟩ := Prod.mk.inj (Except.ok.inj returned)
    exact ⟨called, rfl, fun found same => (Except.ok.inj same).symm, rfl⟩

/-- What a run has executed, next to the threads of its journal: every command of a call, refused
or not. -/
structure Executes (crc32 : List UInt8 → UInt32) (arenaCapacity : UInt32) (path : String)
    (running : Running config) (threads : JournalThreads) (executed : List Command)
    (outputs : List (List MatchEvent)) : Prop where
  /-- The threads are those of the journal. -/
  threaded : Threaded path running threads
  /-- The engine has executed the commands. -/
  executes : replay (MatchingEngine.new config arenaCapacity) executed =
    .ok (running.pipeline.engine, outputs)
  /-- Each was offered to the journal under its number. -/
  entries : threads.returned.map Prod.fst = numbered executed
  /-- The pipeline counts them. -/
  counted : running.pipeline.inputSeq = UInt64.ofNat executed.length
  /-- The calls returned the events. -/
  tells : List.Forall₂ Tells running.returned outputs

/-- A call executes one command more. -/
theorem Executes.process {pipeline : EndToEndPipeline config} {cmd : Command}
    {result : Except JournalError (List MatchEvent)}
    (executes : Executes crc32 arenaCapacity path running threads executed outputs)
    (processed : running.pipeline.process crc32 cmd = .ok (pipeline, result)) :
    ∃ later, Leads (JournalThreads.step crc32) JournalThreads.InTime threads later ∧
      Executes crc32 arenaCapacity path ⟨pipeline, running.returned ++ [result]⟩ later
        (executed ++ [cmd]) (outputs ++ [pipeline.engine.eventBuf]) := by
  obtain ⟨⟨single, ⟨enqueued, returned, rfl⟩, same⟩, executes, entries, counted, tells⟩ := executes
  obtain ⟨called, number, tell, appended⟩ := EndToEndPipeline.process_cases processed
  have leads := @JournalThreads.leads_append crc32 path running.pipeline.journal enqueued returned
    (running.pipeline.inputSeq + 1) cmd
  have executes' := replay_append executes called
  have tells' : List.Forall₂ Tells (running.returned ++ [result])
      (outputs ++ [pipeline.engine.eventBuf]) := List.rel_append tells (.cons tell .nil)
  have counted' : pipeline.inputSeq = UInt64.ofNat (executed ++ [cmd]).length := by
    rw [number, counted, List.length_append, UInt64.ofNat_add]
    rfl
  have entries' : returned.map Prod.fst ++ [⟨running.pipeline.inputSeq + 1, cmd⟩] =
      numbered (executed ++ [cmd]) := by
    have before : returned.map Prod.fst = numbered executed := entries
    rw [before, numbered, numbered, List.mapIdx_concat, counted, UInt64.ofNat_add]
    rfl
  cases failed : errorOf result with
  | none =>
    rw [failed] at appended
    simp only [appended] at leads
    refine ⟨_, leads, ⟨(append_writer appended).trans single, ⟨_, _, rfl⟩, ?_⟩, executes', ?_,
      counted', tells'⟩
    · simpa [JournalThreads.between, failed] using same
    · simpa [JournalThreads.between] using entries'
  | some error =>
    rw [failed] at appended
    obtain ⟨refused, kept⟩ := appended
    simp only [refused] at leads
    refine ⟨_, leads, ⟨kept ▸ single, ⟨enqueued, _, by rw [kept]⟩, ?_⟩, executes', ?_, counted',
      tells'⟩
    · simpa [JournalThreads.between, failed] using same
    · simpa [JournalThreads.between] using entries'

/-- A run of the pipeline has executed the commands of its calls, and is one of the runs of the
threads of its journal. -/
theorem executes_of_reaches {allowed : Running config → Action → Prop}
    (reached : Running.Reaches crc32 config arenaCapacity cfg path allowed running) :
    ∃ threads, JournalThreads.Reaches crc32 .empty path cfg JournalThreads.InTime threads ∧
      ∃ executed outputs,
        Executes crc32 arenaCapacity path running threads executed outputs := by
  refine Reached.simulates (fun running threads => ∃ executed outputs,
    Executes crc32 arenaCapacity path running threads executed outputs) ?_ ?_ reached
  · rintro running rfl
    exact ⟨_, rfl, [], [], ⟨rfl, ⟨[], [], rfl⟩, rfl⟩, rfl, rfl, rfl, .nil⟩
  · rintro running action following threads ⟨executed, outputs, executes⟩ - completed
    cases action with
    | process cmd =>
      simp only [Running.step] at completed
      split at completed
      · contradiction
      split at completed
      · rename_i processed
        cases completed
        obtain ⟨later, leads, executes'⟩ := executes.process processed
        exact ⟨later, leads, _, _, executes'⟩
      · contradiction
    | work =>
      obtain ⟨⟨single, ⟨enqueued, returned, rfl⟩, same⟩, executes, entries, counted, tells⟩ :=
        executes
      simp only [Running.step] at completed
      split at completed
      · rename_i journal worked
        cases completed
        obtain ⟨-, writer, -⟩ := AsyncJournal.work_handles single worked
        exact ⟨_, JournalThreads.leads_work single worked, executed, outputs,
          ⟨writer.trans single, ⟨_, _, rfl⟩, same⟩, executes, entries, counted, tells⟩
      · contradiction
    | drop =>
      obtain ⟨⟨single, ⟨enqueued, returned, rfl⟩, same⟩, executes, entries, counted, tells⟩ :=
        executes
      simp only [Running.step] at completed
      split at completed
      · rename_i journal closing
        cases completed
        exact ⟨_, JournalThreads.leads_close closing, executed, outputs,
          ⟨(close_writer closing).trans single, ⟨_, _, rfl⟩, same⟩, executes, entries, counted,
            tells⟩
      · contradiction

/-- The entries that the threads have acknowledged are those of the calls that returned `Ok`. -/
theorem Executes.acknowledged_eq
    (executes : Executes crc32 arenaCapacity path running threads executed outputs) :
    threads.acknowledged = acknowledged executed running.returned := by
  have pairs : threads.returned = (numbered executed).zip (running.returned.map errorOf) :=
    List.zip_of_prod executes.entries executes.threaded.returned
  rw [JournalThreads.acknowledged, acknowledged, pairs, List.zip_map_right, List.filterMap_map]
  rfl

/-- As many calls have returned as commands were executed. -/
theorem Executes.length_returned
    (executes : Executes crc32 arenaCapacity path running threads executed outputs) :
    running.returned.length = executed.length := by
  have entries := congrArg List.length executes.entries
  have returned := congrArg List.length executes.threaded.returned
  simp only [List.length_map, numbered, List.length_mapIdx] at entries returned
  omega

/-- When no call was refused, every command executed was acknowledged. -/
theorem acknowledged_all {returned : List (Except JournalError (List MatchEvent))}
    (length : returned.length = executed.length)
    (passed : ∀ result ∈ returned, errorOf result = none) :
    acknowledged executed returned = numbered executed := by
  have entries : (numbered executed).length = returned.length := by
    rw [numbered, List.length_mapIdx, length]
  have all : ((numbered executed).zip returned).filterMap (fun (entry, result) =>
      if errorOf result = none then some entry else none) =
      ((numbered executed).zip returned).map Prod.fst := by
    rw [← List.filterMap_eq_map]
    refine List.filterMap_congr fun pair among => ?_
    obtain ⟨entry, result⟩ := pair
    exact if_pos (passed result (List.of_mem_zip among).2)
  rw [acknowledged, all, List.map_fst_zip (Nat.le_of_eq entries)]

/-- Numbering commands changes none. -/
theorem commands_numbered (executed : List Command) :
    (numbered executed).map JournalEntry.command = executed := by
  apply List.ext_getElem
  · simp [numbered]
  · intro index inside inside'
    simp [numbered]

/-! ## What a crash leaves -/

/-- What can be recovered after a crash of a run that leaves the first bytes of the file. -/
structure CrashLeaves (crc32 : List UInt8 → UInt32) (arenaCapacity : UInt32) (path : String)
    (running : Running config) (cut : Nat) (executed : List Command)
    (outputs : List (List MatchEvent)) (kept : Nat) : Prop where
  /-- The engine had executed the commands. -/
  executes : replay (MatchingEngine.new config arenaCapacity) executed =
    .ok (running.pipeline.engine, outputs)
  /-- The calls that returned `Ok` had returned the events. -/
  tells : List.Forall₂ Tells running.returned outputs
  /-- Recovery finds the first of the acknowledged commands. -/
  recovers : ∃ recovered report, recoverPath crc32
      (running.pipeline.journal.files.setLen path cut) (.file path) = .ok (recovered, report) ∧
    readLog crc32 recovered path = .ok ((acknowledged executed running.returned).take kept) ∧
    report.lastValidSequence =
      lastSequence 0 ((acknowledged executed running.returned).take kept)
  /-- It finds those whose records lie within the bytes of the file and of the cut. -/
  ends : ∀ index < (acknowledged executed running.returned).length, index < kept ↔
    (logBytes crc32 ((acknowledged executed running.returned).take (index + 1))).length ≤
      min cut (running.pipeline.journal.files.read path).length
  /-- Among them are the durable ones, when the cut spares these. -/
  durable : ∃ marked ≤ (acknowledged executed running.returned).length,
    running.pipeline.journal.durable =
      lastSequence 0 ((acknowledged executed running.returned).take marked) ∧
    ((logBytes crc32 ((acknowledged executed running.returned).take marked)).length ≤ cut →
      marked ≤ kept)
  /-- When no call was refused, replaying them repeats the first calls of the run, and the commands
  lost lead on to the engine of the crash. -/
  resumes : (∀ result ∈ running.returned, errorOf result = none) → ∃ engine,
    replay (MatchingEngine.new config arenaCapacity)
      (((acknowledged executed running.returned).take kept).map JournalEntry.command) =
        .ok (engine, outputs.take kept) ∧
    replay engine (executed.drop kept) = .ok (running.pipeline.engine, outputs.drop kept)

/-- Every run of the threads keeps account of the records. -/
theorem JournalThreads.accounts_of_reaches {files : Directory}
    {allowed : JournalThreads → ThreadAction → Prop} (fresh : path ∉ files.names)
    (reached : JournalThreads.Reaches crc32 files path cfg allowed threads) :
    (∃ done held behind, JournalThreads.Accounts crc32 [] threads done held behind) ∧
      JournalThreads.Answers threads := by
  refine Reached.invariant ?_ ?_ reached
  · rintro threads rfl
    have opened := @JournalThreads.accounts_open crc32 files path cfg
    have empty : (JournalThreads.openThreads files path cfg).bytes = [] := openAppend_fresh fresh
    rw [empty] at opened
    exact ⟨⟨[], [], [], opened⟩, rfl, mem_openAppend files path⟩
  · rintro threads action following ⟨⟨done, held, behind, accounts⟩, answers⟩ - stepped
    exact ⟨accounts.step stepped, answers.step stepped⟩

/-- Entries whose records fit are among those kept. -/
theorem length_le_of_ends {entries first rest : List JournalEntry} {room kept : Nat}
    (split : entries = first ++ rest)
    (ends : ∀ index < entries.length,
      index < kept ↔ (logBytes crc32 (entries.take (index + 1))).length ≤ room)
    (fits : (logBytes crc32 first).length ≤ room) : first.length ≤ kept := by
  subst split
  cases count : first.length with
  | zero => exact Nat.zero_le kept
  | succ index =>
    have within : index < (first ++ rest).length := by
      rw [List.length_append]
      omega
    apply (ends index within).mpr
    rwa [← count, List.take_left]

/-- Whenever the pipeline crashes and wherever the file is cut then: recovery finds the first of
the acknowledged commands, the durable ones among them unless they were cut, and when no call was
refused a replay of these repeats the run up to there. -/
theorem crash_leaves_acknowledged {allowed : Running config → Action → Prop}
    (reached : Running.Reaches crc32 config arenaCapacity cfg path allowed running) (cut : Nat) :
    ∃ executed outputs kept,
      CrashLeaves crc32 arenaCapacity path running cut executed outputs kept := by
  obtain ⟨threads, reached', executed, outputs, executes⟩ := executes_of_reaches reached
  obtain ⟨⟨done, held, behind, accounts⟩, answers⟩ :=
    JournalThreads.accounts_of_reaches List.not_mem_nil reached'
  have known := executes.acknowledged_eq
  have length := executes.length_returned
  obtain ⟨⟨-, ⟨enqueued, returned, rfl⟩, -⟩, executes, -, -, tells⟩ := executes
  -- Between two calls what was acknowledged is what was put into the queue.
  have all : enqueued = acknowledged executed running.returned := by
    have answered := answers.answered
    rw [known] at answered
    exact answered.trans (List.append_nil _)
  have split : acknowledged executed running.returned = done ++ (held ++ behind) :=
    all ▸ accounts.split
  have first : (acknowledged executed running.returned).take done.length = done := by
    rw [split, List.take_left]
  have begins : running.pipeline.journal.files.read path <+:
      logBytes crc32 (acknowledged executed running.returned) := all ▸ accounts.begins
  have inside : logBytes crc32 done <+: running.pipeline.journal.files.read path :=
    accounts.inside
  have cutBack : (running.pipeline.journal.files.setLen path cut).contents path =
      (logBytes crc32 (acknowledged executed running.returned)).take
        (min cut (running.pipeline.journal.files.read path).length) := by
    rw [← List.take_take, ← List.prefix_iff_eq_take.mp begins]
    exact Function.update_self ..
  obtain ⟨truncated, run⟩ := recoverFile_cut cutBack
  obtain ⟨kept, taken, ends⟩ := @whole_eq_take _ (JournalEntry.record crc32)
    (min cut (running.pipeline.journal.files.read path).length)
    (acknowledged executed running.returned)
  rw [taken] at run
  refine ⟨executed, outputs, kept, executes, tells, ⟨_, _, run, ?_, rfl⟩, ends,
    ⟨done.length, ?_, ?_, ?_⟩, ?_⟩
  · exact readAll_openFile answers.present (Directory.put_self ..)
  · rw [split, List.length_append]
    exact Nat.le_add_right ..
  · rw [first]
    exact accounts.durable
  · intro spared
    rw [first] at spared
    exact length_le_of_ends split ends (Nat.le_min.mpr ⟨spared, inside.length_le⟩)
  · intro passed
    have outputs_length : outputs.length = executed.length := tells.length_eq.symm.trans length
    have whole : replay (MatchingEngine.new config arenaCapacity)
        (executed.take kept ++ executed.drop kept) = .ok (running.pipeline.engine, outputs) := by
      rwa [List.take_append_drop]
    obtain ⟨engine, early, late⟩ := replay_split whole
    rw [List.length_take, ← outputs_length] at early late
    rw [← List.take_eq_take_min] at early
    rw [← List.drop_eq_drop_min] at late
    rw [acknowledged_all length passed, List.map_take, commands_numbered]
    exact ⟨engine, early, late⟩

/-- What recovery leaves to be read when the file is cut. -/
def recoveredLog (running : Running (smallConfig .cancelNewest)) (cut : Nat) :
    Option (List JournalEntry) :=
  match recoverPath crc32Hash (running.pipeline.journal.files.setLen "journal.wal" cut)
      (.file "journal.wal") with
  | .ok (recovered, _) => (readLog crc32Hash recovered "journal.wal").toOption
  | .error _ => none

/-- An ask and a bid that trades with it are written, and the file is cut within the second record:
the ask is recovered. -/
theorem crash_within_second_record : ∃ (running : Running (smallConfig .cancelNewest))
    (executed : List Command) (outputs : List (List MatchEvent)) (kept : Nat),
    (running.returned.length = 2 ∧ running.pipeline.engine.lastTradePrice = some 2) ∧
      CrashLeaves crc32Hash 4 "journal.wal" running 90 executed outputs kept ∧
      (acknowledged executed running.returned).take kept =
        [⟨1, .newOrder 1 (.gtc 1 .ask 2 10)⟩] := by
  obtain ⟨running, reached, shown⟩ : ∃ running, OneSlot Running.FindsRoom running ∧
      ((running.returned.length == 2 && running.pipeline.engine.lastTradePrice == some 2) &&
        recoveredLog running 90 == some [⟨1, .newOrder 1 (.gtc 1 .ask 2 10)⟩]) = true :=
    Reached.exists_checkedRun (fun running action => decide (Running.FindsRoom running action)) _
      (fun _ _ => of_decide_eq_true) rfl
      ([.process (.newOrder 1 (.gtc 1 .ask 2 10))] ++ workOnce ++
        [.process (.newOrder 1 (.gtc 2 .bid 2 4))] ++ workOnce)
      (by decide +kernel)
  simp only [Bool.and_eq_true, beq_iff_eq] at shown
  obtain ⟨happened, found⟩ := shown
  obtain ⟨executed, outputs, kept, leaves⟩ := crash_leaves_acknowledged reached 90
  refine ⟨running, executed, outputs, kept, happened, leaves, ?_⟩
  -- Recovery is a function of the file: what the test found is what it must find.
  obtain ⟨recovered, report, run, read, -⟩ := leaves.recovers
  rw [recoveredLog, run] at found
  simp only [read, Except.toOption, Option.some.injEq] at found
  exact found

end MatchX.Journal
