import MatchX.Journal.Closing
import MatchX.Journal.Pipeline

/-!
# Whole calls among the steps of the threads

The pipeline's journal runs each call, and each batch of the worker, as one action. Such a run is
one of the runs in which the threads take turns step by step, so what holds of all of these holds of
the pipeline's journal.
-/

namespace MatchX.Journal

open Support

/-- Where a worker is that runs whole batches. -/
def Worker.thread : Worker → WorkerThread
  | .starting => .starting
  | .waiting => .waiting
  | .collecting batch lastSequence => .collecting batch lastSequence
  | .writing batch lastSequence shouldExit => .writing batch lastSequence shouldExit
  | .exited => .exited

namespace JournalThreads

/-- The threads of a journal between two calls: no call is under way, and one that closed the
journal waits for the worker. A worker that has left has dropped the queue. -/
def between (path : String) (journal : AsyncJournal) (enqueued : List JournalEntry)
    (returned : List (JournalEntry × Option JournalError)) : JournalThreads where
  queueCapacity := journal.queueCapacity
  batchSize := journal.batchSize
  queue := if journal.worker = .exited then [] else journal.queue
  accepted := journal.accepted
  durable := journal.durable
  degraded := journal.degraded
  closed := journal.closed
  path
  files := journal.files
  worker := journal.worker.thread
  producer := .idle
  closer := if journal.closed then .joining else .idle
  enqueued
  returned

variable {crc32 : List UInt8 → UInt32} {path : String} {journal following : AsyncJournal}
  {enqueued : List JournalEntry} {returned : List (JournalEntry × Option JournalError)}
  {threads : JournalThreads}

/-- Writing to a file twice. -/
theorem writeAll_writeAll (files : Directory) (first second : List UInt8) :
    (files.writeAll path first).writeAll path second = files.writeAll path (first ++ second) := by
  simp only [Directory.writeAll, Function.update_self, Function.update_idem, List.append_assoc]

/-- The worker writes its batch record by record. -/
theorem leads_writing (batch : List (List UInt8)) (lastSequence : UInt64) (shouldExit : Bool) :
    Leads (step crc32) InTime
      { threads with worker := .writing batch lastSequence shouldExit }
      { threads with
        files := threads.files.writeAll threads.path batch.flatten
        worker := .writing [] lastSequence shouldExit } := by
  induction batch generalizing threads with
  | nil =>
    have same : threads.files.writeAll threads.path [] = threads.files := by
      simp [Directory.writeAll]
    rw [List.flatten_nil, same]
    exact .refl
  | cons piece more ih =>
    have written : step crc32
        { threads with worker := .writing (piece :: more) lastSequence shouldExit }
        (.write piece.length) = .ok { threads with
          files := threads.files.writeAll threads.path piece
          worker := .writing more lastSequence shouldExit } := by
      simp [step, write]
    have rest := @ih { threads with files := threads.files.writeAll threads.path piece }
    dsimp only at rest
    rw [writeAll_writeAll] at rest
    exact (Leads.one _ trivial written).trans rest

/-- A worker is gone when its thread is. -/
theorem thread_eq_exited {worker : Worker} : worker.thread = .exited ↔ worker = .exited := by
  cases worker <;> simp [Worker.thread]

/-- A worker waits when its thread does. -/
theorem thread_eq_waiting {worker : Worker} : worker.thread = .waiting ↔ worker = .waiting := by
  cases worker <;> simp [Worker.thread]

/-- A queue has room for the threads when it has. -/
theorem hasRoom_between (here : journal.worker ≠ .exited) :
    (between path journal enqueued returned).hasRoom = journal.hasRoom := by
  simp only [hasRoom, AsyncJournal.hasRoom, between, if_neg here, thread_eq_waiting]

/-- The threads run a whole call of `append`. -/
theorem leads_append (sequence : UInt64) (cmd : Command) :
    Leads (step crc32) InTime (between path journal enqueued returned)
      (match journal.append crc32 sequence cmd with
      | .ok following => between path following (enqueued ++ [⟨sequence, cmd⟩])
          (returned ++ [(⟨sequence, cmd⟩, none)])
      | .error error => between path journal enqueued
          (returned ++ [(⟨sequence, cmd⟩, some error)])) := by
  let entry : JournalEntry := ⟨sequence, cmd⟩
  let base := between path journal enqueued returned
  have called : Leads (step crc32) InTime base { base with producer := .called entry } :=
    .one (.call sequence cmd) trivial rfl
  refine called.trans ?_
  -- Before the send no step is too late.
  have early : ∀ {state : JournalThreads}, (∀ other, state.producer ≠ .opened other) →
      InTime state .produce := fun apart other same => absurd same (apart other)
  cases degraded : journal.degraded with
  | true =>
    simp only [AsyncJournal.append, degraded, if_true]
    exact Leads.one .produce (early (by simp))
      (by simp [step, produce, base, between, degraded]; rfl)
  | false =>
    have healthy : Leads (step crc32) InTime { base with producer := .called entry }
        { base with producer := .healthy entry } :=
      Leads.one .produce (early (by simp)) (by simp [step, produce, base, between, degraded])
    refine healthy.trans ?_
    cases closed : journal.closed with
    | true =>
      simp only [AsyncJournal.append, degraded, closed, if_true]
      exact Leads.one .produce (early (by simp))
        (by simp [step, produce, base, between, closed]; rfl)
    | false =>
      have opened : Leads (step crc32) InTime { base with producer := .healthy entry }
          { base with producer := .opened entry } :=
        Leads.one .produce (early (by simp)) (by simp [step, produce, base, between, closed])
      refine opened.trans ?_
      have timely : InTime { base with producer := .opened entry } .produce :=
        fun _ _ _ _ => .inl (by simp [base, between, closed])
      by_cases gone : journal.worker = .exited
      · simp only [AsyncJournal.append, AsyncJournal.trySend, degraded, closed, gone, if_true,
          Bool.false_eq_true, if_false, bind, Except.bind]
        exact Leads.one .produce timely
          (by simp [step, produce, base, between, thread_eq_exited, gone]; rfl)
      have here : base.worker ≠ .exited := fun same => gone (thread_eq_exited.mp same)
      have room : ({ base with producer := .opened entry } : JournalThreads).hasRoom =
          journal.hasRoom :=
        @hasRoom_between path journal enqueued returned gone
      cases found : journal.hasRoom with
      | false =>
        simp only [AsyncJournal.append, AsyncJournal.trySend, degraded, closed, gone, found,
          Bool.false_eq_true, if_false, bind, Except.bind]
        refine Leads.one .produce timely ?_
        rw [found] at room
        simp only [step, produce, if_neg here, room, Bool.false_eq_true, if_false]
        rfl
      | true =>
        rw [AsyncJournal.append_of_room degraded closed gone found]
        have sends : Leads (step crc32) InTime { base with producer := .opened entry }
            { base with
              queue := base.queue ++ [.append (record crc32 entry)]
              enqueued := base.enqueued ++ [entry]
              producer := .sent entry } := by
          refine Leads.one .produce timely ?_
          rw [found] at room
          simp only [step, produce, if_neg here, room, if_true]
        refine sends.trans (Leads.one .produce (early (by simp)) ?_)
        simp only [step, produce, answer, base, between, if_neg gone]
        rfl

/-- The threads run a whole call of `close`. -/
theorem leads_close (closing : journal.close = some following) :
    Leads (step crc32) InTime (between path journal enqueued returned)
      (between path following enqueued returned) := by
  unfold AsyncJournal.close at closing
  split at closing
  · obtain rfl := Option.some.inj closing
    exact .refl
  · rename_i unclosed
    split at closing
    · rename_i room
      obtain rfl := Option.some.inj closing
      have closed : journal.closed = false := Bool.eq_false_iff.mpr unclosed
      have swapped : Leads (step crc32) InTime (between path journal enqueued returned)
          { between path journal enqueued returned with closed := true, closer := .swapped } :=
        Leads.one .close trivial (by simp [step, close, between, closed])
      refine swapped.trans (Leads.one .close trivial ?_)
      by_cases gone : journal.worker = .exited
      · simp [step, close, between, gone, Worker.thread]
      · have here : journal.worker.thread ≠ .exited := fun same => gone (thread_eq_exited.mp same)
        simp only [step, close, between, if_neg here, if_neg gone, if_pos room, if_true]
    · contradiction

/-- The threads run a whole step of the worker. -/
theorem leads_work (single : journal.writer = .single path)
    (worked : journal.work = some following) :
    Leads (step crc32) InTime (between path journal enqueued returned)
      (between path following enqueued returned) := by
  unfold AsyncJournal.work at worked
  split at worked
  case h_1 starting =>
    cases worked
    exact Leads.one .work trivial (by simp [step, work, between, starting, Worker.thread])
  case h_2 waiting =>
    split at worked
    case h_1 => contradiction
    case h_2 front =>
      cases worked
      exact Leads.one .work trivial (by simp [step, work, between, waiting, front, Worker.thread])
    case h_3 queue front =>
      cases worked
      have told : Leads (step crc32) InTime (between path journal enqueued returned)
          { between path journal enqueued returned with queue, worker := .leaving } :=
        Leads.one .work trivial (by simp [step, work, between, waiting, front, Worker.thread])
      exact told.trans (Leads.one .work trivial (by simp [step, work, between, Worker.thread]))
  case h_3 batch lastSequence collecting =>
    split at worked
    · rename_i more
      split at worked
      all_goals
        rename_i front
        cases worked
        exact Leads.one .work trivial
          (by simp [step, work, between, collecting, front, more, Worker.thread])
    · rename_i full
      cases worked
      exact Leads.one .work trivial
        (by simp [step, work, between, collecting, full, Worker.thread])
  case h_4 batch lastSequence shouldExit writing =>
    rw [single, AsyncJournal.appendRawBatch_single] at worked
    cases worked
    let base := between path journal enqueued returned
    have begins : base = { base with worker := .writing batch lastSequence shouldExit } := by
      simp [base, between, writing, Worker.thread]
    have written := @leads_writing crc32 base batch lastSequence shouldExit
    rw [← begins] at written
    refine written.trans ?_
    have flushed : Leads (step crc32) InTime
        { base with
          files := base.files.writeAll base.path batch.flatten
          worker := .writing [] lastSequence shouldExit }
        { base with
          files := base.files.writeAll base.path batch.flatten
          worker := .written lastSequence shouldExit } :=
      Leads.one .work trivial rfl
    refine flushed.trans ?_
    cases shouldExit with
    | false =>
      exact Leads.one .work trivial (by simp [step, work, base, between, writing, Worker.thread])
    | true =>
      have durable : Leads (step crc32) InTime
          { base with
            files := base.files.writeAll base.path batch.flatten
            worker := .written lastSequence true }
          { base with
            files := base.files.writeAll base.path batch.flatten
            durable := lastSequence
            worker := .leaving } :=
        Leads.one .work trivial rfl
      exact durable.trans (Leads.one .work trivial
        (by simp [step, work, base, between, Worker.thread]))
  case h_5 => contradiction

end JournalThreads

/-! ## The journal of the pipeline -/

/-- The error that a call returns, if any. -/
def errorOf {α : Type} : Except JournalError α → Option JournalError
  | .ok _ => none
  | .error error => some error

variable {config : InstrumentConfig} {crc32 : List UInt8 → UInt32} {path : String}
  {journal following : AsyncJournal} {cmd : Command}

/-- Appending keeps the writer. -/
theorem append_writer {sequence : UInt64}
    (appended : journal.append crc32 sequence cmd = .ok following) :
    following.writer = journal.writer := by
  unfold AsyncJournal.append at appended
  split at appended
  · contradiction
  split at appended
  · contradiction
  cases sent : journal.trySend (.append ⟨sequence, encodeRecord crc32 sequence cmd⟩) with
  | error error =>
    simp only [sent, bind, Except.bind] at appended
    contradiction
  | ok after =>
    simp only [sent, bind, Except.bind] at appended
    cases appended
    unfold AsyncJournal.trySend at sent
    split at sent
    · contradiction
    split at sent
    · cases sent
      rfl
    · contradiction

/-- Closing keeps the writer. -/
theorem close_writer (closing : journal.close = some following) :
    following.writer = journal.writer := by
  unfold AsyncJournal.close at closing
  split at closing
  · cases closing
    rfl
  split at closing
  · cases closing
    rfl
  · contradiction

/-- The threads of the journal of a pipeline between two calls, with what the calls have
returned. -/
structure Threaded (path : String) (running : Running config) (threads : JournalThreads) :
    Prop where
  /-- The journal is a single file. -/
  single : running.pipeline.journal.writer = .single path
  /-- No call is under way. -/
  between : ∃ enqueued returned,
    threads = .between path running.pipeline.journal enqueued returned
  /-- The calls returned what those of `append` returned. -/
  returned : threads.returned.map Prod.snd = running.returned.map errorOf

/-- The threads run a call of the pipeline. -/
theorem Threaded.process {running : Running config} {threads : JournalThreads}
    {pipeline : EndToEndPipeline config} {result : Except JournalError (List MatchEvent)}
    (threaded : Threaded path running threads)
    (processed : running.pipeline.process crc32 cmd = .ok (pipeline, result)) :
    ∃ later, Leads (JournalThreads.step crc32) JournalThreads.InTime threads later ∧
      Threaded path ⟨pipeline, running.returned ++ [result]⟩ later := by
  obtain ⟨single, ⟨enqueued, returned, rfl⟩, same⟩ := threaded
  have leads := @JournalThreads.leads_append crc32 path running.pipeline.journal enqueued returned
    (running.pipeline.inputSeq + 1) cmd
  unfold EndToEndPipeline.process at processed
  cases handled : running.pipeline.engine.process cmd with
  | error fault =>
    simp only [handled, bind, Except.bind] at processed
    contradiction
  | ok engine =>
    simp only [handled, bind, Except.bind] at processed
    cases appended : running.pipeline.journal.append crc32 (running.pipeline.inputSeq + 1) cmd with
    | error error =>
      simp only [appended] at processed leads
      obtain ⟨rfl, rfl⟩ := Prod.mk.inj (Except.ok.inj processed)
      exact ⟨_, leads, single, ⟨_, _, rfl⟩, by simpa [JournalThreads.between, errorOf] using same⟩
    | ok journal =>
      simp only [appended] at processed leads
      obtain ⟨rfl, rfl⟩ := Prod.mk.inj (Except.ok.inj processed)
      exact ⟨_, leads, (append_writer appended).trans single, ⟨_, _, rfl⟩,
        by simpa [JournalThreads.between, errorOf] using same⟩

/-- A run of the pipeline is one of the runs in which the threads of its journal take turns, and
none of its records gets behind the message of `close`. -/
theorem Running.threads {arenaCapacity : UInt32} {cfg : AsyncJournalConfig}
    {allowed : Running config → Action → Prop} {running : Running config}
    (reached : Running.Reaches crc32 config arenaCapacity cfg path allowed running) :
    ∃ threads, JournalThreads.Reaches crc32 .empty path cfg JournalThreads.InTime threads ∧
      Threaded path running threads := by
  refine Reached.simulates (Threaded path) ?_ ?_ reached
  · rintro running rfl
    exact ⟨_, rfl, rfl, ⟨[], [], rfl⟩, rfl⟩
  · intro running action following threads threaded _ completed
    cases action with
    | process cmd =>
      simp only [Running.step] at completed
      split at completed
      · contradiction
      split at completed
      · rename_i processed
        cases completed
        exact threaded.process processed
      · contradiction
    | work =>
      obtain ⟨single, ⟨enqueued, returned, rfl⟩, same⟩ := threaded
      simp only [Running.step] at completed
      split at completed
      · rename_i journal worked
        cases completed
        obtain ⟨-, writer, -⟩ := AsyncJournal.work_handles single worked
        exact ⟨_, JournalThreads.leads_work single worked, writer.trans single, ⟨_, _, rfl⟩, same⟩
      · contradiction
    | drop =>
      obtain ⟨single, ⟨enqueued, returned, rfl⟩, same⟩ := threaded
      simp only [Running.step] at completed
      split at completed
      · rename_i journal closing
        cases completed
        exact ⟨_, JournalThreads.leads_close closing, (close_writer closing).trans single,
          ⟨_, _, rfl⟩, same⟩
      · contradiction

/-- Once the worker of a dropped pipeline has left, the file holds the commands of the calls that
returned `Ok`, in order, and the last of them is durable: no call of the pipeline is under way when
it is dropped. -/
theorem dropped_pipeline_flushed {arenaCapacity : UInt32} {cfg : AsyncJournalConfig}
    {allowed : Running config → Action → Prop} {running : Running config}
    (reached : Running.Reaches crc32 config arenaCapacity cfg path allowed running)
    (left : running.pipeline.journal.worker = .exited) :
    ∃ threads, Threaded path running threads ∧ JournalThreads.Flushed crc32 [] threads := by
  obtain ⟨threads, reached', threaded⟩ := Running.threads reached
  obtain ⟨orderly, answers⟩ := JournalThreads.orderly_of_reaches reached'
  have fresh : path ∉ Directory.empty.names := List.not_mem_nil
  have empty : (JournalThreads.openThreads .empty path cfg).bytes = [] := openAppend_fresh fresh
  rw [empty] at orderly
  refine ⟨threads, threaded, ?_⟩
  obtain ⟨-, ⟨enqueued, returned, rfl⟩, -⟩ := threaded
  exact orderly.flushed answers (JournalThreads.thread_eq_exited.mpr left) rfl

end MatchX.Journal
