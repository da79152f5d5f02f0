import MatchX.Journal.Recovery

/-!
# The asynchronous journal

Appending to the asynchronous journal puts a record into a bounded queue and fails when the
queue is full. A worker takes records from the queue, collects what is there up to a batch,
writes the batch to the file and begins again. Closing the journal sends the worker a last
message. Caller and worker share the queue only, so each action below does at most one operation
on it.
-/

namespace MatchX.Journal

open Support

/-- `AsyncJournalConfig`, as far as the journal reads it. -/
structure AsyncJournalConfig where
  /-- Slots of the queue. -/
  queueCapacity : Nat
  /-- Records of a batch. -/
  batchSize : Nat
  deriving DecidableEq, Repr

/-- A record on its way to the worker. -/
structure AppendRecord where
  /-- Sequence number. -/
  sequence : UInt64
  /-- The framed record. -/
  bytes : List UInt8
  deriving DecidableEq, Repr

/-- Messages to the worker. -/
inductive WorkerMessage where
  /-- Write a record. -/
  | append (record : AppendRecord)
  /-- Stop. -/
  | shutdown
  deriving DecidableEq, Repr

/-- Where the worker is in its loop. -/
inductive Worker where
  /-- Before `recv`. -/
  | starting
  /-- In `recv`. -/
  | waiting
  /-- In the loop that fills a batch. -/
  | collecting (batch : List (List UInt8)) (lastSequence : UInt64)
  /-- About to write a batch. -/
  | writing (batch : List (List UInt8)) (lastSequence : UInt64) (shouldExit : Bool)
  /-- Gone, and the receiving end of the queue with it. -/
  | exited
  deriving DecidableEq, Repr

/-- The asynchronous journal: what caller and worker share, and the worker. -/
structure AsyncJournal where
  /-- Slots of the queue; with none a message is handed to a worker that waits for it. -/
  queueCapacity : Nat
  /-- Records of a batch, at least one. -/
  batchSize : Nat
  /-- Messages not yet received. -/
  queue : List WorkerMessage
  /-- Last sequence number that was queued. -/
  accepted : UInt64
  /-- Last sequence number that was written. -/
  durable : UInt64
  /-- The worker met an error of the file system. -/
  degraded : Bool
  /-- The journal was closed. -/
  closed : Bool
  /-- The worker. -/
  worker : Worker
  /-- Its writer. -/
  writer : WriterMode
  /-- The files it writes to. -/
  files : Directory

namespace AsyncJournal

/-- `AsyncJournal::open`. -/
def openJournal (files : Directory) (path : String) (cfg : AsyncJournalConfig) : AsyncJournal :=
  let (writer, files) := openSingle files path
  { queueCapacity := cfg.queueCapacity
    batchSize := max cfg.batchSize 1
    queue := []
    accepted := 0
    durable := 0
    degraded := false
    closed := false
    worker := .starting
    writer
    files }

/-- Whether a message can be sent without blocking. -/
def hasRoom (journal : AsyncJournal) : Bool :=
  if journal.queueCapacity = 0 then journal.worker = .waiting ∧ journal.queue = []
  else journal.queue.length < journal.queueCapacity

/-- `SyncSender::try_send`. -/
def trySend (journal : AsyncJournal) (message : WorkerMessage) :
    Except JournalError AsyncJournal :=
  if journal.worker = .exited then .error .writerStopped
  else if journal.hasRoom then .ok { journal with queue := journal.queue ++ [message] }
  else .error .queueFull

/-- `AsyncJournal::append`. -/
def append (crc32 : List UInt8 → UInt32) (journal : AsyncJournal) (sequence : UInt64)
    (cmd : Command) : Except JournalError AsyncJournal :=
  if journal.degraded then .error .writerDegraded
  else if journal.closed then .error .writerStopped
  else do
    let record : AppendRecord := ⟨sequence, encodeRecord crc32 sequence cmd⟩
    let journal ← journal.trySend (.append record)
    .ok { journal with accepted := sequence }

/-- `AsyncJournal::close`, once its blocking send goes through; while it blocks nothing changes.
With no slots the sender waits for the worker with its message in hand. -/
def close (journal : AsyncJournal) : Option AsyncJournal :=
  if journal.closed then some journal
  else if journal.queue.length < max journal.queueCapacity 1 then
    some { journal with closed := true, queue := journal.queue ++ [.shutdown] }
  else none

/-- The next step of `worker_loop`, unless the worker is blocked or gone. -/
def work (journal : AsyncJournal) : Option AsyncJournal :=
  match journal.worker with
  | .starting => some { journal with worker := .waiting }
  | .waiting =>
    match journal.queue with
    | [] => none
    | .append record :: queue =>
      some { journal with queue, worker := .collecting [record.bytes] record.sequence }
    | .shutdown :: queue => some { journal with queue, worker := .exited }
  | .collecting batch lastSequence =>
    if batch.length < journal.batchSize then
      match journal.queue with
      | [] => some { journal with worker := .writing batch lastSequence false }
      | .append record :: queue =>
        some { journal with queue, worker := .collecting (batch ++ [record.bytes]) record.sequence }
      | .shutdown :: queue =>
        some { journal with queue, worker := .writing batch lastSequence true }
    else some { journal with worker := .writing batch lastSequence false }
  | .writing batch lastSequence shouldExit =>
    let (writer, files) := appendRawBatch journal.writer journal.files batch
    let worker := if shouldExit then .exited else .starting
    some { journal with writer, files, worker, durable := lastSequence }
  | .exited => none

/-- The records that the worker holds. -/
def held (journal : AsyncJournal) : List (List UInt8) :=
  match journal.worker with
  | .collecting batch _ | .writing batch _ _ => batch
  | .starting | .waiting | .exited => []

/-- The records in the queue. -/
def queued (journal : AsyncJournal) : List (List UInt8) :=
  journal.queue.filterMap fun message => match message with
    | .append record => some record.bytes
    | .shutdown => none

/-- The accepted records that are not written yet, in order. -/
def unwritten (journal : AsyncJournal) : List (List UInt8) := journal.held ++ journal.queued

/-! ### What each action does to the records -/

variable {journal following : AsyncJournal}

/-- Writing a batch to a single file appends its records. -/
theorem appendRawBatch_single (file : String) (files : Directory) (batch : List (List UInt8)) :
    appendRawBatch (.single file) files batch =
      (.single file, files.writeAll file batch.flatten) := by
  induction batch generalizing files with
  | nil => simp [appendRawBatch, Directory.writeAll]
  | cons record rest ih =>
    rw [appendRawBatch, List.foldl_cons]
    refine (ih (files.writeAll file record)).trans ?_
    simp only [Directory.writeAll, Function.update_self, Function.update_idem, List.flatten_cons,
      List.append_assoc]

/-- What a worker step does to the records: it hands them on in order, or writes a batch of them
to the end of the file. -/
def Handles (file : String) (journal following : AsyncJournal) : Prop :=
  following.files = journal.files ∧ following.unwritten = journal.unwritten ∨
    ∃ batch rest, journal.unwritten = batch ++ rest ∧ following.unwritten = rest ∧
      following.files = journal.files.writeAll file batch.flatten

/-- A worker step loses no record and takes none out of order. -/
theorem work_handles {file : String} (single : journal.writer = .single file)
    (worked : journal.work = some following) :
    Handles file journal following ∧ following.writer = journal.writer ∧
      following.degraded = journal.degraded ∧ following.closed = journal.closed := by
  rw [work] at worked
  split at worked
  case h_1 starting =>
    cases worked
    exact ⟨.inl ⟨rfl, by simp [unwritten, held, queued, starting]⟩, rfl, rfl, rfl⟩
  case h_2 waiting =>
    split at worked
    case h_1 => cases worked
    all_goals
      rename_i front
      cases worked
      exact ⟨.inl ⟨rfl, by simp [unwritten, held, queued, waiting, front]⟩, rfl, rfl, rfl⟩
  case h_3 batch lastSequence collecting =>
    split at worked
    · split at worked
      all_goals
        rename_i front
        cases worked
        exact ⟨.inl ⟨rfl, by simp [unwritten, held, queued, collecting, front]⟩, rfl, rfl, rfl⟩
    · cases worked
      exact ⟨.inl ⟨rfl, by simp [unwritten, held, queued, collecting]⟩, rfl, rfl, rfl⟩
  case h_4 batch lastSequence shouldExit writing =>
    rw [single, appendRawBatch_single] at worked
    cases worked
    refine ⟨.inr ⟨batch, journal.queued, ?_, ?_, rfl⟩, single.symm, rfl, rfl⟩
    · simp [unwritten, held, writing]
    · cases shouldExit <;> rfl
  case h_5 => cases worked

/-- A worker goes only after the journal was closed. -/
structure Alive (journal : AsyncJournal) : Prop where
  /-- It is there. -/
  here : journal.worker ≠ .exited
  /-- It is not asked to stop. -/
  unasked : .shutdown ∉ journal.queue
  /-- It is not about to stop. -/
  staying : ∀ batch lastSequence, journal.worker ≠ .writing batch lastSequence true

/-- A worker that is not asked to stop stays. -/
theorem Alive.work (alive : journal.Alive) (worked : journal.work = some following) :
    following.Alive := by
  obtain ⟨here, unasked, staying⟩ := alive
  rw [AsyncJournal.work] at worked
  split at worked
  case h_1 => cases worked; exact ⟨by simp, unasked, by simp⟩
  case h_2 =>
    split at worked
    case h_1 => cases worked
    case h_2 front =>
      rw [front] at unasked
      cases worked
      exact ⟨by simp, fun asked => unasked (List.mem_cons_of_mem _ asked), by simp⟩
    case h_3 front => exact (unasked (by simp [front])).elim
  case h_3 =>
    split at worked
    · split at worked
      case h_1 => cases worked; exact ⟨by simp, unasked, by simp⟩
      case h_2 front =>
        rw [front] at unasked
        cases worked
        exact ⟨by simp, fun asked => unasked (List.mem_cons_of_mem _ asked), by simp⟩
      case h_3 front => exact (unasked (by simp [front])).elim
    · cases worked
      exact ⟨by simp, unasked, by simp⟩
  case h_4 shouldExit writing =>
    cases shouldExit with
    | true => exact (staying _ _ writing).elim
    | false => cases worked; exact ⟨by simp, unasked, by simp⟩
  case h_5 => cases worked

/-- Appending to an open journal with room queues the record. -/
theorem append_of_room {crc32 : List UInt8 → UInt32} (healthy : journal.degraded = false)
    (isOpen : journal.closed = false) (here : journal.worker ≠ .exited)
    (room : journal.hasRoom = true) (sequence : UInt64) (cmd : Command) :
    journal.append crc32 sequence cmd = .ok { journal with
      accepted := sequence
      queue := journal.queue ++ [.append ⟨sequence, encodeRecord crc32 sequence cmd⟩] } := by
  simp only [append, trySend, healthy, isOpen, room, if_neg here]
  rfl

end AsyncJournal

end MatchX.Journal
