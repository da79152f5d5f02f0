import MatchX.Journal.AsyncJournal
import MatchX.Engine.Matching
import MatchX.Support.Runs

/-!
# The pipeline and its write-ahead log

A call of the pipeline first executes the command and then appends it to the journal. When the
append fails the call fails, but the engine has moved on: a command that found the queue full is
executed and never logged. As long as every call finds room in the queue the log holds the
commands executed, and replaying it repeats the run.
-/

namespace MatchX.Journal

open Support

variable {config : InstrumentConfig}

/-- `EndToEndPipeline`. -/
structure EndToEndPipeline (config : InstrumentConfig) where
  /-- The engine. -/
  engine : MatchingEngine config
  /-- The journal. -/
  journal : AsyncJournal
  /-- Number of calls so far. -/
  inputSeq : UInt64

namespace EndToEndPipeline

/-- `EndToEndPipeline::new`, on a fresh directory. -/
def new (config : InstrumentConfig) (arenaCapacity : UInt32) (cfg : AsyncJournalConfig)
    (path : String) : EndToEndPipeline config :=
  ⟨MatchingEngine.new config arenaCapacity, .openJournal .empty path cfg, 0⟩

/-- `EndToEndPipeline::process`: the pipeline after the call, and what the call returns. -/
def process (crc32 : List UInt8 → UInt32) (pipeline : EndToEndPipeline config) (cmd : Command) :
    Except Fault (EndToEndPipeline config × Except JournalError (List MatchEvent)) := do
  let inputSeq := pipeline.inputSeq + 1
  let engine ← pipeline.engine.process cmd
  let events := engine.eventBuf
  match pipeline.journal.append crc32 inputSeq cmd with
  | .ok journal => .ok (⟨engine, journal, inputSeq⟩, .ok events)
  | .error error => .ok (⟨engine, pipeline.journal, inputSeq⟩, .error error)

end EndToEndPipeline

/-- A pipeline in use, with what its calls have returned. -/
structure Running (config : InstrumentConfig) where
  /-- The pipeline. -/
  pipeline : EndToEndPipeline config
  /-- Results of the calls, in order. -/
  returned : List (Except JournalError (List MatchEvent))

/-- What happens next: a call, a step of the worker, or the end of the pipeline. -/
inductive Action where
  /-- `process`. -/
  | process (cmd : Command)
  /-- The worker goes on. -/
  | work
  /-- The pipeline is dropped, which closes the journal. -/
  | drop
  deriving DecidableEq, Repr

/-- Why an action does not happen. -/
inductive Halt where
  /-- The call of the engine does not return. -/
  | fault (fault : Fault)
  /-- The pipeline was dropped. -/
  | dropped
  /-- The worker or the caller is blocked. -/
  | blocked
  deriving DecidableEq, Repr

namespace Running

/-- One action. -/
def step (crc32 : List UInt8 → UInt32) (running : Running config) :
    Action → Except Halt (Running config)
  | .process cmd =>
    if running.pipeline.journal.closed then .error .dropped
    else match running.pipeline.process crc32 cmd with
      | .ok (pipeline, result) => .ok ⟨pipeline, running.returned ++ [result]⟩
      | .error fault => .error (.fault fault)
  | .work =>
    match running.pipeline.journal.work with
    | some journal => .ok { running with pipeline := { running.pipeline with journal } }
    | none => .error .blocked
  | .drop =>
    match running.pipeline.journal.close with
    | some journal => .ok { running with pipeline := { running.pipeline with journal } }
    | none => .error .blocked

/-- The runs of a new pipeline, with its actions in any order. -/
def Reaches (crc32 : List UInt8 → UInt32) (config : InstrumentConfig) (arenaCapacity : UInt32)
    (cfg : AsyncJournalConfig) (path : String)
    (allowed : Running config → Action → Prop) : Running config → Prop :=
  Reached (· = ⟨.new config arenaCapacity cfg path, []⟩) (step crc32) allowed

/-- Every call finds room in the queue of the journal. -/
def FindsRoom (running : Running config) (action : Action) : Prop :=
  ∀ cmd, action = .process cmd → running.pipeline.journal.hasRoom = true

/-- Whether a call finds room can be decided. -/
instance (running : Running config) (action : Action) : Decidable (FindsRoom running action) :=
  match action with
  | .process cmd => decidable_of_iff (running.pipeline.journal.hasRoom = true)
      ⟨fun room _ _ => room, fun finds => finds cmd rfl⟩
  | .work | .drop => isTrue fun _ same => by cases same

end Running

/-- Execute commands in order; the engine afterwards and the events of each. -/
def replay (engine : MatchingEngine config) :
    List Command → Except Fault (MatchingEngine config × List (List MatchEvent))
  | [] => .ok (engine, [])
  | cmd :: rest => do
    let engine ← engine.process cmd
    let (last, events) ← replay engine rest
    .ok (last, engine.eventBuf :: events)

/-- A replay of commands in a row replays the first and then, from where these lead, the rest. -/
theorem replay_split {engine last : MatchingEngine config} {first second : List Command}
    {events : List (List MatchEvent)}
    (replayed : replay engine (first ++ second) = .ok (last, events)) :
    ∃ middle, replay engine first = .ok (middle, events.take first.length) ∧
      replay middle second = .ok (last, events.drop first.length) := by
  induction first generalizing engine events with
  | nil => exact ⟨engine, rfl, replayed⟩
  | cons command rest ih =>
    rw [List.cons_append] at replayed
    obtain ⟨next, called, returned⟩ := bind_ok replayed
    obtain ⟨⟨last', later⟩, replayed', returned'⟩ := bind_ok returned
    cases returned'
    obtain ⟨middle, early, late⟩ := ih replayed'
    refine ⟨middle, ?_, late⟩
    simp only [replay, called, early, bind, Except.bind]
    rfl

/-- The records of the log. -/
def readLog (crc32 : List UInt8 → UInt32) (files : Directory) (path : String) :
    Except JournalError (List JournalEntry) := do
  (← JournalReader.openFile files path).readAll crc32 files

/-- Replaying the log through a new engine gives the engine of the pipeline and the events that
its calls returned. -/
def Replays (crc32 : List UInt8 → UInt32) (arenaCapacity : UInt32) (path : String)
    (running : Running config) : Prop :=
  ∃ entries, readLog crc32 running.pipeline.journal.files path = .ok entries ∧
    replay (MatchingEngine.new config arenaCapacity) (entries.map JournalEntry.command) =
      .ok (running.pipeline.engine, running.returned.filterMap Except.toOption)

/-- Replaying one more command. -/
theorem replay_append {engine last following : MatchingEngine config} {commands : List Command}
    {events : List (List MatchEvent)} {cmd : Command}
    (replayed : replay engine commands = .ok (last, events))
    (processed : last.process cmd = .ok following) :
    replay engine (commands ++ [cmd]) = .ok (following, events ++ [following.eventBuf]) := by
  induction commands generalizing engine events with
  | nil =>
    cases replayed
    simp only [List.nil_append, replay, processed]
    rfl
  | cons first rest ih =>
    simp only [replay] at replayed
    cases ran : engine.process first with
    | error fault => rw [ran] at replayed; cases replayed
    | ok next =>
      rw [ran] at replayed
      cases went : replay next rest with
      | error fault =>
        simp only [went, bind, Except.bind] at replayed
        cases replayed
      | ok found =>
        simp only [went, bind, Except.bind] at replayed
        cases replayed
        simp only [List.cons_append, replay, ran, bind, Except.bind, ih went]

variable {crc32 : List UInt8 → UInt32} {arenaCapacity : UInt32} {cfg : AsyncJournalConfig}
  {path : String} {running following : Running config}

/-- What holds along a run whose calls find room: the commands executed are those in the file,
followed by those on their way to it. -/
structure Logged (crc32 : List UInt8 → UInt32) (arenaCapacity : UInt32) (path : String)
    (running : Running config) : Prop where
  /-- The worker writes to the one file. -/
  single : running.pipeline.journal.writer = .single path
  /-- The file is there. -/
  present : path ∈ running.pipeline.journal.files.names
  /-- No write has failed. -/
  healthy : running.pipeline.journal.degraded = false
  /-- The worker stays until the pipeline is dropped. -/
  alive : running.pipeline.journal.closed = false → running.pipeline.journal.Alive
  /-- Nothing executed is missing, and nothing is there that was not executed. -/
  logged : ∃ stored pending : List JournalEntry,
    running.pipeline.journal.files.contents path = logBytes crc32 stored ∧
    running.pipeline.journal.unwritten = pending.map (JournalEntry.record crc32) ∧
    replay (MatchingEngine.new config arenaCapacity)
      ((stored ++ pending).map JournalEntry.command) =
        .ok (running.pipeline.engine, running.returned.filterMap Except.toOption)

/-- A new pipeline has executed nothing. -/
theorem Logged.new (crc32 : List UInt8 → UInt32) (config : InstrumentConfig)
    (arenaCapacity : UInt32) (cfg : AsyncJournalConfig) (path : String) :
    Logged crc32 arenaCapacity path
      (⟨.new config arenaCapacity cfg path, []⟩ : Running config) where
  single := rfl
  present := by
    simp [EndToEndPipeline.new, AsyncJournal.openJournal, openSingle, Directory.openAppend,
      Directory.empty]
  healthy := rfl
  alive := fun _ => by
    constructor <;> simp [EndToEndPipeline.new, AsyncJournal.openJournal, openSingle]
  logged := by
    refine ⟨[], [], ?_, rfl, rfl⟩
    simp [EndToEndPipeline.new, AsyncJournal.openJournal, openSingle, Directory.openAppend,
      Directory.empty]

/-- A step of the worker keeps the log in step. -/
theorem Logged.work {journal : AsyncJournal} (logged : Logged crc32 arenaCapacity path running)
    (worked : running.pipeline.journal.work = some journal) :
    Logged crc32 arenaCapacity path
      { running with pipeline := { running.pipeline with journal } } := by
  obtain ⟨handles, writer, degraded, closed⟩ :=
    AsyncJournal.work_handles logged.single worked
  obtain ⟨stored, pending, contents, unwritten, replayed⟩ := logged.logged
  have alive := fun isOpen => (logged.alive (closed ▸ isOpen)).work worked
  obtain ⟨files, same⟩ | ⟨batch, rest, split, left, files⟩ := handles
  · exact ⟨writer.trans logged.single, files ▸ logged.present, degraded.trans logged.healthy, alive,
      stored, pending, files ▸ contents, same.trans unwritten, replayed⟩
  · rw [unwritten] at split
    obtain ⟨first, later, rfl, firstBytes, laterBytes⟩ := List.map_eq_append_iff.mp split
    refine ⟨writer.trans logged.single, files ▸ logged.present, degraded.trans logged.healthy, alive,
      stored ++ first, later, ?_, left.trans laterBytes.symm, ?_⟩
    · simp only [files, Directory.writeAll, Function.update_self, contents, logBytes,
        List.flatMap_append, ← firstBytes]
      rfl
    · rwa [List.append_assoc]

/-- A call of the pipeline that finds room: the engine executes the command, and its record is
queued. -/
theorem process_of_room {pipeline after : EndToEndPipeline config} {cmd : Command}
    {result : Except JournalError (List MatchEvent)}
    (healthy : pipeline.journal.degraded = false) (isOpen : pipeline.journal.closed = false)
    (alive : pipeline.journal.Alive) (room : pipeline.journal.hasRoom = true)
    (processed : pipeline.process crc32 cmd = .ok (after, result)) :
    pipeline.engine.process cmd = .ok after.engine ∧ result = .ok after.engine.eventBuf ∧
      after.journal = { pipeline.journal with
        accepted := pipeline.inputSeq + 1
        queue := pipeline.journal.queue ++
          [.append ⟨pipeline.inputSeq + 1, encodeRecord crc32 (pipeline.inputSeq + 1) cmd⟩] } := by
  cases ran : pipeline.engine.process cmd with
  | error fault =>
    simp only [EndToEndPipeline.process, ran, bind, Except.bind] at processed
    cases processed
  | ok engine =>
    simp only [EndToEndPipeline.process, ran, bind, Except.bind,
      AsyncJournal.append_of_room healthy isOpen alive.here room] at processed
    cases processed
    exact ⟨rfl, rfl, rfl⟩

/-- A call that finds room executes its command and logs it. -/
theorem Logged.process {cmd : Command} (logged : Logged crc32 arenaCapacity path running)
    (room : running.pipeline.journal.hasRoom = true)
    (stepped : running.step crc32 (.process cmd) = .ok following) :
    Logged crc32 arenaCapacity path following := by
  rw [Running.step] at stepped
  split at stepped
  · cases stepped
  rename_i isOpen
  rw [Bool.not_eq_true] at isOpen
  cases processed : running.pipeline.process crc32 cmd with
  | error fault => rw [processed] at stepped; cases stepped
  | ok found =>
    obtain ⟨after, result⟩ := found
    rw [processed] at stepped
    cases stepped
    obtain ⟨here, unasked, staying⟩ := logged.alive isOpen
    obtain ⟨executed, rfl, queued⟩ :=
      process_of_room logged.healthy isOpen (logged.alive isOpen) room processed
    obtain ⟨stored, pending, contents, unwritten, replayed⟩ := logged.logged
    refine ⟨?_, ?_, ?_, fun _ => ?_, stored,
      pending ++ [⟨running.pipeline.inputSeq + 1, cmd⟩], ?_, ?_, ?_⟩ <;> simp only [queued]
    · exact logged.single
    · exact logged.present
    · exact logged.healthy
    · exact ⟨here, by simpa using unasked, staying⟩
    · exact contents
    · simp only [AsyncJournal.unwritten, AsyncJournal.queued, AsyncJournal.held,
        List.filterMap_append, List.map_append] at unwritten ⊢
      rw [← List.append_assoc, unwritten]
      rfl
    · rw [← List.append_assoc, List.map_append, List.filterMap_append]
      exact replay_append replayed executed

/-- Dropping the pipeline loses nothing. -/
theorem Logged.drop {journal : AsyncJournal} (logged : Logged crc32 arenaCapacity path running)
    (dropped : running.pipeline.journal.close = some journal) :
    Logged crc32 arenaCapacity path
      { running with pipeline := { running.pipeline with journal } } := by
  rw [AsyncJournal.close] at dropped
  split at dropped
  · cases dropped
    exact logged
  split at dropped
  · cases dropped
    obtain ⟨stored, pending, contents, unwritten, replayed⟩ := logged.logged
    refine ⟨logged.single, logged.present, logged.healthy, nofun, stored, pending, contents, ?_,
      replayed⟩
    simpa [AsyncJournal.unwritten, AsyncJournal.queued, AsyncJournal.held] using unwritten
  · cases dropped

/-- Along a run whose calls find room, the log is in step. -/
theorem logged_of_room (reached : Running.Reaches crc32 config arenaCapacity cfg path
    Running.FindsRoom running) : Logged crc32 arenaCapacity path running := by
  refine Reached.invariant (fun state initial => initial ▸ .new ..) ?_ reached
  intro state action after logged fits completed
  cases action with
  | process cmd => exact logged.process (fits cmd rfl) completed
  | work =>
    simp only [Running.step] at completed
    split at completed
    · rename_i journal worked
      cases completed
      exact logged.work worked
    · cases completed
  | drop =>
    simp only [Running.step] at completed
    split at completed
    · rename_i journal dropped
      cases completed
      exact logged.drop dropped
    · cases completed

/-- In every run of the pipeline whose calls find room in the queue of the journal, once the
accepted records are written, replaying the log gives the engine and the events of the run. -/
theorem wal_replays_of_room
    (reached : Running.Reaches crc32 config arenaCapacity cfg path Running.FindsRoom running)
    (written : running.pipeline.journal.unwritten = []) :
    Replays crc32 arenaCapacity path running := by
  have logged := logged_of_room reached
  obtain ⟨stored, pending, contents, unwritten, replayed⟩ := logged.logged
  rw [written] at unwritten
  obtain rfl : pending = [] := List.map_eq_nil_iff.mp unwritten.symm
  refine ⟨stored, ?_, by rwa [List.append_nil] at replayed⟩
  have read := @readFrom_log crc32 [] [] stored
  simp only [readLog, JournalReader.openFile, if_pos logged.present, JournalReader.readAll,
    Directory.read, contents, bind, Except.bind, List.foldlM_cons, List.foldlM_nil]
  simp only [List.nil_append, List.length_nil] at read
  rw [read]
  rfl

/-- Runs of a pipeline whose queue has one slot. -/
abbrev OneSlot (allowed : Running (smallConfig .cancelNewest) → Action → Prop) :
    Running (smallConfig .cancelNewest) → Prop :=
  Running.Reaches crc32Hash (smallConfig .cancelNewest) 4 ⟨1, 1⟩ "journal.wal" allowed

/-- The worker receives one record and writes it. -/
def workOnce : List Action := [.work, .work, .work, .work]

/-- The log of an ask and of a bid that trades with it, each written before the next, replays. -/
theorem wal_replays_of_trade : ∃ running : Running (smallConfig .cancelNewest),
    running.returned.length = 2 ∧ running.pipeline.engine.lastTradePrice = some 2 ∧
      Replays crc32Hash 4 "journal.wal" running := by
  obtain ⟨running, reached, shown⟩ : ∃ running, OneSlot Running.FindsRoom running ∧
      (running.returned.length == 2 && running.pipeline.engine.lastTradePrice == some 2 &&
        running.pipeline.journal.unwritten == []) = true :=
    Reached.exists_checkedRun (fun running action => decide (Running.FindsRoom running action)) _
      (fun _ _ => of_decide_eq_true) rfl
      ([.process (.newOrder 1 (.gtc 1 .ask 2 10))] ++ workOnce ++
        [.process (.newOrder 1 (.gtc 2 .bid 2 4))] ++ workOnce)
      (by decide +kernel)
  simp only [Bool.and_eq_true, beq_iff_eq] at shown
  obtain ⟨⟨calls, traded⟩, written⟩ := shown
  exact ⟨running, calls, traded, wal_replays_of_room reached written⟩

/-- Whether the engine has emitted other events than a replay of the log. -/
def diverged (running : Running (smallConfig .cancelNewest)) : Bool :=
  match readLog crc32Hash running.pipeline.journal.files "journal.wal" with
  | .ok entries =>
    match replay (MatchingEngine.new (smallConfig .cancelNewest) 4)
        (entries.map JournalEntry.command) with
    | .ok (engine, _) => engine.sequence != running.pipeline.engine.sequence
    | .error _ => false
  | .error _ => false

/-- When the worker has not received the first record yet, the second call fails; its command
was executed and is not in the log. -/
theorem executed_and_not_logged : ¬ ∀ running : Running (smallConfig .cancelNewest),
    OneSlot (fun _ _ => True) running → running.pipeline.journal.unwritten = [] →
      Replays crc32Hash 4 "journal.wal" running := by
  intro never
  obtain ⟨running, reached, shown⟩ : ∃ running, OneSlot (fun _ _ => True) running ∧
      (running.pipeline.journal.unwritten == [] && diverged running) = true :=
    Reached.exists_checkedRun (fun _ _ => true) _ (fun _ _ _ => trivial) rfl
      ([.process (.cancelOrder 1), .process (.cancelOrder 2)] ++ workOnce) (by decide +kernel)
  rw [Bool.and_eq_true] at shown
  obtain ⟨entries, read, replayed⟩ := never running reached (beq_iff_eq.mp shown.1)
  have differs := shown.2
  simp [diverged, read, replayed] at differs

end MatchX.Journal
