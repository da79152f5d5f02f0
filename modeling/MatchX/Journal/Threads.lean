import MatchX.Journal.AsyncJournal
import MatchX.Journal.SingleFile
import MatchX.Support.Runs

/-!
# The threads of the asynchronous journal

The asynchronous journal step by step: one thread appends, one closes, and the worker writes. A
step loads or stores one shared flag, does one operation on the queue, or writes some bytes of a
record, so the steps of the three threads can come in any order, and the file system can fail
between any two bytes. The senders outlive the worker, since dropping the journal joins it first.
-/

namespace MatchX.Journal

open Support

/-- Where the worker is in `worker_loop`. -/
inductive WorkerThread where
  /-- Before `recv`. -/
  | starting
  /-- In `recv`. -/
  | waiting
  /-- In the loop that fills a batch. -/
  | collecting (batch : List (List UInt8)) (lastSequence : UInt64)
  /-- In `append_raw_batch`: what is left of the record under way and the records behind it; before
  `flush` when nothing is left. -/
  | writing (rest : List (List UInt8)) (lastSequence : UInt64) (shouldExit : Bool)
  /-- Before `durable.store`. -/
  | written (lastSequence : UInt64) (shouldExit : Bool)
  /-- Before `degraded.store`. -/
  | failed
  /-- Out of the loop, with the receiving end of the queue still there. -/
  | leaving
  /-- Gone, and the receiving end with it. -/
  | exited
  deriving DecidableEq, Repr

/-- Where the appending thread is in `append`. -/
inductive Producer where
  /-- Not in it. -/
  | idle
  /-- Before `degraded.load`. -/
  | called (entry : JournalEntry)
  /-- Before `closed.load`. -/
  | healthy (entry : JournalEntry)
  /-- Before `try_send`. -/
  | opened (entry : JournalEntry)
  /-- Before `accepted.store`. -/
  | sent (entry : JournalEntry)
  deriving DecidableEq, Repr

/-- Where the closing thread is in `close`. -/
inductive Closer where
  /-- It has not called it. -/
  | idle
  /-- Before or in `send`. -/
  | swapped
  /-- Before or in `join`. -/
  | joining
  /-- It has returned. -/
  | returned
  deriving DecidableEq, Repr

/-- The journal and its threads. -/
structure JournalThreads where
  /-- Slots of the queue; with none a message is handed to a worker that waits for it. -/
  queueCapacity : Nat
  /-- Records of a batch, at least one. -/
  batchSize : Nat
  /-- Messages not yet received. -/
  queue : List WorkerMessage
  /-- Last sequence number that was queued. -/
  accepted : UInt64
  /-- Last sequence number that was written. -/
  durable : UInt64
  /-- The worker met an error of the file system. -/
  degraded : Bool
  /-- The journal was closed. -/
  closed : Bool
  /-- The file that the worker writes. -/
  path : String
  /-- The files. -/
  files : Directory
  /-- The worker. -/
  worker : WorkerThread
  /-- The appending thread. -/
  producer : Producer
  /-- The closing thread. -/
  closer : Closer
  /-- The entries whose records were put into the queue so far. -/
  enqueued : List JournalEntry
  /-- The entries of the calls of `append` that have returned, each with the error, if any. -/
  returned : List (JournalEntry × Option JournalError)

/-- Why a thread does not take a step. -/
inductive Blocked where
  /-- It waits for another thread, or has nothing to do. -/
  | blocked
  deriving DecidableEq, Repr

/-- A step of one of the threads. -/
inductive ThreadAction where
  /-- The appending thread calls `append`. -/
  | call (sequence : UInt64) (cmd : Command)
  /-- It goes on in `append`. -/
  | produce
  /-- The closing thread calls `close`, or goes on in it. -/
  | close
  /-- The worker goes on, other than by writing. -/
  | work
  /-- The worker writes some of what is left of a record. -/
  | write (count : Nat)
  /-- The file system fails while the worker writes. -/
  | fail
  deriving DecidableEq, Repr

/-- Whether the appending thread takes the step. -/
def ThreadAction.appending : ThreadAction → Bool
  | .call _ _ | .produce => true
  | .close | .work | .write _ | .fail => false

namespace JournalThreads

/-- `AsyncJournal::open`, and no call so far. -/
def openThreads (files : Directory) (path : String) (cfg : AsyncJournalConfig) :
    JournalThreads where
  queueCapacity := cfg.queueCapacity
  batchSize := max cfg.batchSize 1
  queue := []
  accepted := 0
  durable := 0
  degraded := false
  closed := false
  path
  files := (openSingle files path).2
  worker := .starting
  producer := .idle
  closer := .idle
  enqueued := []
  returned := []

/-- Whether a message can be sent without blocking. -/
def hasRoom (threads : JournalThreads) : Bool :=
  if threads.queueCapacity = 0 then threads.worker = .waiting ∧ threads.queue = []
  else threads.queue.length < threads.queueCapacity

/-- `append` returns. -/
def answer (threads : JournalThreads) (entry : JournalEntry) (error : Option JournalError) :
    JournalThreads :=
  { threads with producer := .idle, returned := threads.returned ++ [(entry, error)] }

/-- The message that carries the record of an entry. -/
def record (crc32 : List UInt8 → UInt32) (entry : JournalEntry) : AppendRecord :=
  ⟨entry.sequence, entry.record crc32⟩

/-- The next step of `append`. -/
def produce (crc32 : List UInt8 → UInt32) (threads : JournalThreads) :
    Except Blocked JournalThreads :=
  match threads.producer with
  | .idle => .error .blocked
  | .called entry =>
    if threads.degraded then .ok (threads.answer entry (some .writerDegraded))
    else .ok { threads with producer := .healthy entry }
  | .healthy entry =>
    if threads.closed then .ok (threads.answer entry (some .writerStopped))
    else .ok { threads with producer := .opened entry }
  | .opened entry =>
    if threads.worker = .exited then .ok (threads.answer entry (some .writerStopped))
    else if threads.hasRoom then
      .ok { threads with
        queue := threads.queue ++ [.append (record crc32 entry)]
        enqueued := threads.enqueued ++ [entry]
        producer := .sent entry }
    else .ok (threads.answer entry (some .queueFull))
  | .sent entry => .ok ({ threads with accepted := entry.sequence }.answer entry none)

/-- The next step of `close`. Its `send` blocks while the queue is full; with no slots the sender
waits for the worker with the message in hand. -/
def close (threads : JournalThreads) : Except Blocked JournalThreads :=
  match threads.closer with
  | .idle | .returned =>
    if threads.closed then .ok { threads with closer := .returned }
    else .ok { threads with closed := true, closer := .swapped }
  | .swapped =>
    if threads.worker = .exited then .ok { threads with closer := .joining }
    else if threads.queue.length < max threads.queueCapacity 1 then
      .ok { threads with queue := threads.queue ++ [.shutdown], closer := .joining }
    else .error .blocked
  | .joining =>
    if threads.worker = .exited then .ok { threads with closer := .returned }
    else .error .blocked

/-- The next step of `worker_loop` that writes nothing. -/
def work (threads : JournalThreads) : Except Blocked JournalThreads :=
  match threads.worker with
  | .starting => .ok { threads with worker := .waiting }
  | .waiting =>
    match threads.queue with
    | [] => .error .blocked
    | .append record :: queue =>
      .ok { threads with queue, worker := .collecting [record.bytes] record.sequence }
    | .shutdown :: queue => .ok { threads with queue, worker := .leaving }
  | .collecting batch lastSequence =>
    if batch.length < threads.batchSize then
      match threads.queue with
      | [] => .ok { threads with worker := .writing batch lastSequence false }
      | .append record :: queue =>
        .ok { threads with queue, worker := .collecting (batch ++ [record.bytes]) record.sequence }
      | .shutdown :: queue => .ok { threads with queue, worker := .writing batch lastSequence true }
    else .ok { threads with worker := .writing batch lastSequence false }
  | .writing [] lastSequence shouldExit =>
    .ok { threads with worker := .written lastSequence shouldExit }
  | .writing (_ :: _) _ _ => .error .blocked
  | .written lastSequence shouldExit =>
    .ok { threads with
      durable := lastSequence
      worker := if shouldExit then .leaving else .starting }
  | .failed => .ok { threads with degraded := true, worker := .leaving }
  -- Dropping the receiving end drops what is queued.
  | .leaving => .ok { threads with queue := [], worker := .exited }
  | .exited => .error .blocked

/-- `write_all` of a record gets some bytes further. -/
def write (threads : JournalThreads) (count : Nat) : Except Blocked JournalThreads :=
  match threads.worker with
  | .writing (piece :: more) lastSequence shouldExit =>
    if count ≤ piece.length then
      let rest := if count = piece.length then more else piece.drop count :: more
      .ok { threads with
        files := threads.files.writeAll threads.path (piece.take count)
        worker := .writing rest lastSequence shouldExit }
    else .error .blocked
  | _ => .error .blocked

/-- `write_all` or `flush` fails. -/
def fail (threads : JournalThreads) : Except Blocked JournalThreads :=
  match threads.worker with
  | .writing _ _ _ => .ok { threads with worker := .failed }
  | _ => .error .blocked

/-- One step. -/
def step (crc32 : List UInt8 → UInt32) (threads : JournalThreads) :
    ThreadAction → Except Blocked JournalThreads
  | .call sequence cmd =>
    if threads.producer = .idle then .ok { threads with producer := .called ⟨sequence, cmd⟩ }
    else .error .blocked
  | .produce => threads.produce crc32
  | .close => threads.close
  | .work => threads.work
  | .write count => threads.write count
  | .fail => threads.fail

/-- The runs of a new journal, with the steps of its threads in any order. -/
def Reaches (crc32 : List UInt8 → UInt32) (files : Directory) (path : String)
    (cfg : AsyncJournalConfig) (allowed : JournalThreads → ThreadAction → Prop) :
    JournalThreads → Prop :=
  Reached (· = openThreads files path cfg) (step crc32) allowed

/-! ## The calls of append -/

variable {crc32 : List UInt8 → UInt32} {threads following : JournalThreads}
  {original : List UInt8} {done held behind : List JournalEntry}

/-- The entry of a call that has not got to the queue yet. -/
def entering (threads : JournalThreads) : Option JournalEntry :=
  match threads.producer with
  | .called entry | .healthy entry | .opened entry => some entry
  | .idle | .sent _ => none

/-- The entry of a call that has put its record into the queue and not returned yet. -/
def unanswered (threads : JournalThreads) : List JournalEntry :=
  match threads.producer with
  | .sent entry => [entry]
  | .idle | .called _ | .healthy _ | .opened _ => []

/-- The entries of the calls that have returned `Ok`. -/
def acknowledged (threads : JournalThreads) : List JournalEntry :=
  threads.returned.filterMap fun (entry, error) => if error = none then some entry else none

/-- What a step of `append` does. -/
inductive Produces (crc32 : List UInt8 → UInt32) (threads : JournalThreads) : JournalThreads → Prop
  /-- The call returns an error. -/
  | refuses {entry : JournalEntry} (enters : threads.entering = some entry) (error : JournalError) :
      Produces crc32 threads (threads.answer entry (some error))
  /-- It goes on. -/
  | passes {entry : JournalEntry} {producer : Producer} (enters : threads.entering = some entry)
      (next : producer = .healthy entry ∨ producer = .opened entry) :
      Produces crc32 threads { threads with producer }
  /-- It puts its record into the queue. -/
  | sends {entry : JournalEntry} (opened : threads.producer = .opened entry)
      (here : threads.worker ≠ .exited) (room : threads.hasRoom = true) :
      Produces crc32 threads { threads with
        queue := threads.queue ++ [.append (record crc32 entry)]
        enqueued := threads.enqueued ++ [entry]
        producer := .sent entry }
  /-- It returns `Ok`. -/
  | accepts {entry : JournalEntry} (sent : threads.producer = .sent entry) :
      Produces crc32 threads ({ threads with accepted := entry.sequence }.answer entry none)

/-- A step of `append` does one of these. -/
theorem produces_of_produce (stepped : threads.produce crc32 = .ok following) :
    Produces crc32 threads following := by
  unfold JournalThreads.produce at stepped
  split at stepped
  case h_1 => contradiction
  case h_5 entry sent =>
    cases stepped
    exact .accepts sent
  all_goals
    rename_i entry state
    have enters : threads.entering = some entry := by rw [entering, state]
    split at stepped
    case isTrue =>
      cases stepped
      exact .refuses enters _
  case h_2.isFalse =>
    cases stepped
    exact .passes enters (.inl rfl)
  case h_3.isFalse =>
    cases stepped
    exact .passes enters (.inr rfl)
  case h_4.isFalse here =>
    split at stepped
    · rename_i room
      cases stepped
      exact .sends state here room
    · cases stepped
      exact .refuses enters _

/-- What a step of `close` does. -/
inductive Closes (threads : JournalThreads) : JournalThreads → Prop
  /-- The journal is closed already, and the call returns. -/
  | passes (rests : threads.closer = .idle ∨ threads.closer = .returned)
      (closed : threads.closed = true) : Closes threads { threads with closer := .returned }
  /-- It closes the journal for further calls of `append`. -/
  | swaps (rests : threads.closer = .idle ∨ threads.closer = .returned)
      (opened : threads.closed ≠ true) :
      Closes threads { threads with closed := true, closer := .swapped }
  /-- There is no worker to send a message to. -/
  | skips (swapped : threads.closer = .swapped) (gone : threads.worker = .exited) :
      Closes threads { threads with closer := .joining }
  /-- It sends the worker the last message. -/
  | sends (swapped : threads.closer = .swapped) (here : threads.worker ≠ .exited) :
      Closes threads { threads with
        queue := threads.queue ++ [.shutdown], closer := .joining }
  /-- The worker has left, and the call returns. -/
  | joins (joining : threads.closer = .joining) (gone : threads.worker = .exited) :
      Closes threads { threads with closer := .returned }

/-- A step of `close` does one of these. -/
theorem closes_of_close (stepped : threads.close = .ok following) : Closes threads following := by
  have first (rests : threads.closer = .idle ∨ threads.closer = .returned)
      (stepped : (if threads.closed then .ok { threads with closer := .returned }
        else .ok { threads with closed := true, closer := .swapped } :
          Except Blocked JournalThreads) = .ok following) : Closes threads following := by
    split at stepped
    · rename_i closed
      cases stepped
      exact .passes rests closed
    · rename_i opened
      cases stepped
      exact .swaps rests opened
  unfold JournalThreads.close at stepped
  split at stepped
  case h_1 idle => exact first (.inl idle) stepped
  case h_2 returned => exact first (.inr returned) stepped
  case h_3 swapped =>
    split at stepped
    · rename_i gone
      cases stepped
      exact .skips swapped gone
    · rename_i here
      split at stepped
      · cases stepped
        exact .sends swapped here
      · contradiction
  case h_4 joining =>
    split at stepped
    · rename_i gone
      cases stepped
      exact .joins joining gone
    · contradiction

/-- What a step of the worker does that writes nothing. -/
inductive Works (threads : JournalThreads) : JournalThreads → Prop
  /-- It waits for a message. -/
  | awaits (starting : threads.worker = .starting) :
      Works threads { threads with worker := .waiting }
  /-- It receives the first record of a batch. -/
  | receives {record : AppendRecord} {queue : List WorkerMessage}
      (waiting : threads.worker = .waiting) (first : threads.queue = .append record :: queue) :
      Works threads { threads with queue, worker := .collecting [record.bytes] record.sequence }
  /-- It receives the message of `close`, and leaves. -/
  | leaves {queue : List WorkerMessage} (waiting : threads.worker = .waiting)
      (first : threads.queue = .shutdown :: queue) :
      Works threads { threads with queue, worker := .leaving }
  /-- It receives a further record. -/
  | collects {batch : List (List UInt8)} {last : UInt64} {record : AppendRecord}
      {queue : List WorkerMessage} (collecting : threads.worker = .collecting batch last)
      (first : threads.queue = .append record :: queue) :
      Works threads { threads with
        queue, worker := .collecting (batch ++ [record.bytes]) record.sequence }
  /-- It receives the message of `close` behind a batch. -/
  | ends {batch : List (List UInt8)} {last : UInt64} {queue : List WorkerMessage}
      (collecting : threads.worker = .collecting batch last)
      (first : threads.queue = .shutdown :: queue) :
      Works threads { threads with queue, worker := .writing batch last true }
  /-- Its batch is full, or there are no more messages. -/
  | begins {batch : List (List UInt8)} {last : UInt64}
      (collecting : threads.worker = .collecting batch last) :
      Works threads { threads with worker := .writing batch last false }
  /-- It has written the batch and flushes it. -/
  | flushes {last : UInt64} {shouldExit : Bool}
      (writing : threads.worker = .writing [] last shouldExit) :
      Works threads { threads with worker := .written last shouldExit }
  /-- It stores the durable number. -/
  | stores {last : UInt64} {shouldExit : Bool} (written : threads.worker = .written last shouldExit) :
      Works threads { threads with
        durable := last, worker := if shouldExit then .leaving else .starting }
  /-- It gives up after an error. -/
  | degrades (failed : threads.worker = .failed) :
      Works threads { threads with degraded := true, worker := .leaving }
  /-- It exits, and what is queued is gone. -/
  | exits (leaving : threads.worker = .leaving) :
      Works threads { threads with queue := [], worker := .exited }

/-- A step of the worker that writes nothing does one of these. -/
theorem works_of_work (stepped : threads.work = .ok following) : Works threads following := by
  unfold JournalThreads.work at stepped
  split at stepped
  case h_1 starting =>
    cases stepped
    exact .awaits starting
  case h_2 waiting =>
    split at stepped
    · contradiction
    · rename_i first
      cases stepped
      exact .receives waiting first
    · rename_i first
      cases stepped
      exact .leaves waiting first
  case h_3 collecting =>
    split at stepped
    · split at stepped
      · cases stepped
        exact .begins collecting
      · rename_i first
        cases stepped
        exact .collects collecting first
      · rename_i first
        cases stepped
        exact .ends collecting first
    · cases stepped
      exact .begins collecting
  case h_4 writing =>
    cases stepped
    exact .flushes writing
  case h_5 => contradiction
  case h_6 written =>
    cases stepped
    exact .stores written
  case h_7 failed =>
    cases stepped
    exact .degrades failed
  case h_8 leaving =>
    cases stepped
    exact .exits leaving
  case h_9 => contradiction

/-- A call of `append` begins when none is under way. -/
theorem called_of_step {sequence : UInt64} {cmd : Command}
    (stepped : threads.step crc32 (.call sequence cmd) = .ok following) :
    threads.producer = .idle ∧ following = { threads with producer := .called ⟨sequence, cmd⟩ } := by
  simp only [JournalThreads.step] at stepped
  split at stepped
  · rename_i idle
    exact ⟨idle, (Except.ok.inj stepped).symm⟩
  · contradiction

/-- The worker writes some bytes of the first record that is not whole. -/
theorem writes_of_write {count : Nat} (stepped : threads.write count = .ok following) :
    ∃ piece more last shouldExit, threads.worker = .writing (piece :: more) last shouldExit ∧
      count ≤ piece.length ∧ following = { threads with
        files := threads.files.writeAll threads.path (piece.take count)
        worker := .writing (if count = piece.length then more else piece.drop count :: more) last
          shouldExit } := by
  unfold JournalThreads.write at stepped
  split at stepped
  · rename_i piece more last shouldExit writing
    split at stepped
    · rename_i within
      exact ⟨piece, more, last, shouldExit, writing, within, (Except.ok.inj stepped).symm⟩
    · contradiction
  · contradiction

/-- The file system fails a worker that writes. -/
theorem fails_of_fail (stepped : threads.fail = .ok following) :
    (∃ rest last shouldExit, threads.worker = .writing rest last shouldExit) ∧
      following = { threads with worker := .failed } := by
  unfold JournalThreads.fail at stepped
  split at stepped
  · rename_i writing
    exact ⟨⟨_, _, _, writing⟩, (Except.ok.inj stepped).symm⟩
  · contradiction

/-- A call that has not got to the queue has put nothing into it. -/
theorem unanswered_of_entering {entry : JournalEntry} (enters : threads.entering = some entry) :
    threads.unanswered = [] := by
  unfold entering at enters
  unfold unanswered
  split at enters
  case h_4 | h_5 => contradiction
  all_goals
    rename_i state
    rw [state]

/-- A step of another thread leaves the appending thread and what it stores alone, and the file
where it is. -/
theorem apart_of_step {action : ThreadAction} (other : action.appending = false)
    (stepped : threads.step crc32 action = .ok following) :
    following.producer = threads.producer ∧ following.enqueued = threads.enqueued ∧
      following.returned = threads.returned ∧ following.accepted = threads.accepted ∧
      following.path = threads.path ∧ following.files.names = threads.files.names := by
  cases action with
  | call | produce => contradiction
  | close => cases closes_of_close stepped <;> exact ⟨rfl, rfl, rfl, rfl, rfl, rfl⟩
  | work => cases works_of_work stepped <;> exact ⟨rfl, rfl, rfl, rfl, rfl, rfl⟩
  | write count =>
    obtain ⟨_, _, _, _, -, -, rfl⟩ := writes_of_write stepped
    exact ⟨rfl, rfl, rfl, rfl, rfl, rfl⟩
  | fail =>
    obtain ⟨-, rfl⟩ := fails_of_fail stepped
    exact ⟨rfl, rfl, rfl, rfl, rfl, rfl⟩

/-- The records are those of the calls that return `Ok`. -/
structure Answers (threads : JournalThreads) : Prop where
  /-- These have returned `Ok`, or one is about to. -/
  answered : threads.enqueued = threads.acknowledged ++ threads.unanswered
  /-- The file is there. -/
  present : threads.path ∈ threads.files.names

/-- Every step keeps the records those of the calls that return `Ok`. -/
theorem Answers.step {action : ThreadAction} (answers : Answers threads)
    (stepped : threads.step crc32 action = .ok following) : Answers following := by
  obtain ⟨answered, present⟩ := answers
  have apart : action.appending = false → Answers following := by
    intro other
    obtain ⟨producer, enqueued, returned, -, path, names⟩ := apart_of_step other stepped
    unfold acknowledged unanswered at answered
    rw [← producer, ← enqueued, ← returned] at answered
    exact ⟨answered, by rw [path, names]; exact present⟩
  cases action with
  | call sequence cmd =>
    obtain ⟨idle, rfl⟩ := called_of_step stepped
    unfold unanswered at answered
    rw [idle] at answered
    exact ⟨answered, present⟩
  | produce =>
    cases produces_of_produce stepped with
    | refuses enters error =>
      rw [unanswered_of_entering enters] at answered
      refine ⟨?_, present⟩
      dsimp only [answer, acknowledged, unanswered] at answered ⊢
      rw [List.filterMap_append, answered]
      simp
    | passes enters next =>
      rw [unanswered_of_entering enters] at answered
      obtain rfl | rfl := next <;> exact ⟨answered, present⟩
    | @sends entry opened here room =>
      have enters : threads.entering = some entry := by rw [entering, opened]
      rw [unanswered_of_entering enters, List.append_nil] at answered
      refine ⟨?_, present⟩
      dsimp only [acknowledged, unanswered]
      rw [answered]
      rfl
    | accepts sent =>
      unfold unanswered at answered
      rw [sent] at answered
      refine ⟨?_, present⟩
      dsimp only [answer, acknowledged, unanswered]
      rw [List.filterMap_append, List.append_nil]
      exact answered
  | close | work | write count | fail => exact apart rfl

/-! ## What becomes of the records -/

/-- The bytes of the file. -/
def bytes (threads : JournalThreads) : List UInt8 := threads.files.read threads.path

/-- The record of a message. -/
def carried : WorkerMessage → Option AppendRecord
  | .append record => some record
  | .shutdown => none

/-- The records in the queue. -/
def queued (threads : JournalThreads) : List AppendRecord := threads.queue.filterMap carried

/-- A file with the records of entries behind what it held. -/
def extended (crc32 : List UInt8 → UInt32) (original : List UInt8) (entries : List JournalEntry) :
    List UInt8 := original ++ logBytes crc32 entries

/-- A file with the records of entries and of further entries. -/
theorem extended_append (first second : List JournalEntry) :
    extended crc32 original (first ++ second) =
      extended crc32 original first ++ logBytes crc32 second := by
  unfold extended
  rw [logBytes, List.flatMap_append, List.append_assoc]

/-- What the worker holds of the entries behind the durable ones, and what the file has of them. -/
def Carries (crc32 : List UInt8 → UInt32) (original : List UInt8) (done held : List JournalEntry)
    (bytes : List UInt8) : WorkerThread → Prop
  | .starting | .waiting => held = [] ∧ bytes = extended crc32 original done
  | .collecting batch lastSequence => batch = held.map (JournalEntry.record crc32) ∧
      (∀ before, Journal.lastSequence before held = lastSequence) ∧
      bytes = extended crc32 original done
  | .writing rest lastSequence _ =>
      bytes ++ rest.flatten = extended crc32 original (done ++ held) ∧
      ∀ before, Journal.lastSequence before held = lastSequence
  | .written lastSequence _ => bytes = extended crc32 original (done ++ held) ∧
      ∀ before, Journal.lastSequence before held = lastSequence
  | .failed | .leaving | .exited => True

/-- Where the entries are whose records were put into the queue: up to the durable one, in the
worker's batch, or behind it. -/
structure Accounts (crc32 : List UInt8 → UInt32) (original : List UInt8) (threads : JournalThreads)
    (done held behind : List JournalEntry) : Prop where
  /-- These are all, in order. -/
  split : threads.enqueued = done ++ (held ++ behind)
  /-- The last durable one has the durable sequence number. -/
  durable : threads.durable = lastSequence 0 done
  /-- The durable ones are in the file. -/
  inside : extended crc32 original done <+: threads.bytes
  /-- The file is the beginning of the file with all. -/
  begins : threads.bytes <+: extended crc32 original threads.enqueued
  /-- Those behind the batch are queued while there is a queue. -/
  queued : threads.worker ≠ .exited → threads.queued = behind.map (record crc32)
  /-- The worker has its batch. -/
  worker : Carries crc32 original done held threads.bytes threads.worker

/-- Putting a record into the queue. -/
theorem Accounts.enqueue (accounts : Accounts crc32 original threads done held behind)
    (here : threads.worker ≠ .exited) (entry : JournalEntry) :
    Accounts crc32 original { threads with
      queue := threads.queue ++ [.append (record crc32 entry)]
      enqueued := threads.enqueued ++ [entry]
      producer := .sent entry } done held (behind ++ [entry]) := by
  obtain ⟨split, durable, inside, begins, queued, worker⟩ := accounts
  refine ⟨?_, durable, inside, ?_, fun _ => ?_, worker⟩
  · simp only [split, List.append_assoc]
  · dsimp only
    rw [extended_append]
    exact begins.trans (List.prefix_append ..)
  · have before := queued here
    simp only [JournalThreads.queued, List.filterMap_append, List.map_append] at before ⊢
    rw [before]
    rfl

/-- A step of the appending thread. -/
theorem Accounts.produce (accounts : Accounts crc32 original threads done held behind)
    (stepped : threads.produce crc32 = .ok following) :
    ∃ behind', Accounts crc32 original following done held behind' := by
  have ⟨split, durable, inside, begins, queued, worker⟩ := accounts
  cases produces_of_produce stepped with
  | refuses | passes | accepts => exact ⟨behind, split, durable, inside, begins, queued, worker⟩
  | @sends entry opened here room => exact ⟨_, accounts.enqueue here entry⟩

/-- A step of the closing thread. -/
theorem Accounts.close (accounts : Accounts crc32 original threads done held behind)
    (stepped : threads.close = .ok following) :
    Accounts crc32 original following done held behind := by
  have ⟨split, durable, inside, begins, queued, worker⟩ := accounts
  cases closes_of_close stepped with
  | passes | swaps | skips | joins => exact ⟨split, durable, inside, begins, queued, worker⟩
  | sends =>
    refine ⟨split, durable, inside, begins, fun here => ?_, worker⟩
    have before := queued here
    simp only [JournalThreads.queued, List.filterMap_append] at before ⊢
    rw [before]
    exact List.append_nil _

/-- The first record in the queue is that of the first entry behind the batch. -/
theorem Accounts.front {message : AppendRecord} {queue : List WorkerMessage}
    (accounts : Accounts crc32 original threads done held behind) (here : threads.worker ≠ .exited)
    (first : threads.queue = .append message :: queue) :
    ∃ entry rest, behind = entry :: rest ∧ message = record crc32 entry ∧
      queue.filterMap carried = rest.map (record crc32) := by
  have before := accounts.queued here
  rw [JournalThreads.queued, first] at before
  change message :: queue.filterMap carried = _ at before
  obtain ⟨entry, rest, rfl, same, others⟩ := List.map_eq_cons_iff.mp before.symm
  exact ⟨entry, rest, rfl, same.symm, others.symm⟩

/-- Behind the message of `close` the queue has the records behind the batch. -/
theorem Accounts.behind_shutdown {queue : List WorkerMessage}
    (accounts : Accounts crc32 original threads done held behind) (here : threads.worker ≠ .exited)
    (first : threads.queue = .shutdown :: queue) :
    queue.filterMap carried = behind.map (record crc32) := by
  have before := accounts.queued here
  rwa [JournalThreads.queued, first] at before

/-- The last of entries with one more has its sequence number. -/
theorem lastSequence_snoc (entries : List JournalEntry) (entry : JournalEntry) (before : UInt64) :
    lastSequence before (entries ++ [entry]) = entry.sequence := by
  rw [lastSequence_append]
  rfl

/-- The batch that a worker begins to write is what the file lacks of it. -/
theorem Carries.begin {bytes : List UInt8} {batch : List (List UInt8)} {last : UInt64}
    (carries : Carries crc32 original done held bytes (.collecting batch last))
    (shouldExit : Bool) :
    Carries crc32 original done held bytes (.writing batch last shouldExit) := by
  obtain ⟨rfl, sequence, file⟩ := carries
  refine ⟨?_, sequence⟩
  rw [extended_append, file]
  rfl

/-- A step of the worker that writes nothing. -/
theorem Accounts.work (accounts : Accounts crc32 original threads done held behind)
    (stepped : threads.work = .ok following) :
    ∃ done' held' behind', Accounts crc32 original following done' held' behind' := by
  have ⟨split, durable, inside, begins, queued, worker⟩ := accounts
  cases works_of_work stepped with
  | awaits starting =>
    rw [starting] at worker
    exact ⟨done, held, behind, split, durable, inside, begins, fun _ => queued (by simp [starting]),
      worker⟩
  | receives waiting first =>
    rw [waiting] at worker
    obtain ⟨rfl, file⟩ := worker
    obtain ⟨entry, rest, rfl, rfl, others⟩ := accounts.front (by simp [waiting]) first
    exact ⟨done, [entry], rest, split, durable, inside, begins, fun _ => others, rfl,
      lastSequence_snoc [] entry, file⟩
  | leaves waiting first =>
    have others := accounts.behind_shutdown (by simp [waiting]) first
    exact ⟨done, held, behind, split, durable, inside, begins, fun _ => others, trivial⟩
  | collects collecting first =>
    rw [collecting] at worker
    obtain ⟨rfl, sequence, file⟩ := worker
    obtain ⟨entry, rest, rfl, rfl, others⟩ := accounts.front (by simp [collecting]) first
    refine ⟨done, held ++ [entry], rest, ?_, durable, inside, begins, fun _ => others, ?_,
      lastSequence_snoc held entry, file⟩
    · simpa using split
    · rw [List.map_append]
      rfl
  | ends collecting first =>
    rw [collecting] at worker
    have others := accounts.behind_shutdown (by simp [collecting]) first
    exact ⟨done, held, behind, split, durable, inside, begins, fun _ => others, worker.begin true⟩
  | begins collecting =>
    rw [collecting] at worker
    exact ⟨done, held, behind, split, durable, inside, begins,
      fun _ => queued (by simp [collecting]), worker.begin false⟩
  | flushes writing =>
    rw [writing] at worker
    obtain ⟨whole, sequence⟩ := worker
    rw [List.flatten_nil, List.append_nil] at whole
    exact ⟨done, held, behind, split, durable, inside, begins,
      fun _ => queued (by simp [writing]), whole, sequence⟩
  | @stores last shouldExit written =>
    rw [written] at worker
    obtain ⟨whole, sequence⟩ := worker
    refine ⟨done ++ held, [], behind, ?_, ?_, ?_, begins, fun _ => queued (by simp [written]), ?_⟩
    · simpa using split
    · rw [lastSequence_append, sequence]
    · exact whole ▸ List.prefix_rfl
    · cases shouldExit with
      | true => trivial
      | false => exact ⟨rfl, whole⟩
  | degrades failed =>
    exact ⟨done, held, behind, split, durable, inside, begins, fun _ => queued (by simp [failed]),
      trivial⟩
  | exits =>
    exact ⟨done, held, behind, split, durable, inside, begins, fun here => absurd rfl here, trivial⟩

/-- Writing some bytes of a record. -/
theorem Accounts.write {count : Nat} (accounts : Accounts crc32 original threads done held behind)
    (stepped : threads.write count = .ok following) :
    Accounts crc32 original following done held behind := by
  obtain ⟨split, durable, inside, begins, queued, worker⟩ := accounts
  obtain ⟨piece, more, last, shouldExit, writing, within, rfl⟩ := writes_of_write stepped
  rw [writing] at worker
  obtain ⟨whole, sequence⟩ := worker
  have grown : ∀ worker, ({ threads with
      files := threads.files.writeAll threads.path (piece.take count)
      worker := worker } : JournalThreads).bytes = threads.bytes ++ piece.take count :=
    fun _ => Function.update_self ..
  have left : (if count = piece.length then more else piece.drop count :: more).flatten =
      piece.drop count ++ more.flatten := by
    split
    · rename_i all
      rw [all, List.drop_length, List.nil_append]
    · rfl
  have still : threads.bytes ++ piece.take count ++ (piece.drop count ++ more.flatten) =
      extended crc32 original (done ++ held) := by
    rw [← whole, List.flatten_cons, List.append_assoc, ← List.append_assoc (piece.take count),
      List.take_append_drop]
  refine ⟨split, durable, ?_, ?_, fun _ => queued (by simp [writing]), ?_, sequence⟩
  · rw [grown]
    exact inside.trans (List.prefix_append ..)
  · rw [grown]
    refine (List.prefix_append _ (piece.drop count ++ more.flatten)).trans ?_
    rw [still]
    dsimp only
    rw [split, ← List.append_assoc, extended_append (done ++ held)]
    exact List.prefix_append ..
  · rw [grown, left]
    exact still

/-- A failure of the file system. -/
theorem Accounts.fail (accounts : Accounts crc32 original threads done held behind)
    (stepped : threads.fail = .ok following) :
    Accounts crc32 original following done held behind := by
  obtain ⟨split, durable, inside, begins, queued, worker⟩ := accounts
  obtain ⟨⟨_, _, _, writing⟩, rfl⟩ := fails_of_fail stepped
  exact ⟨split, durable, inside, begins, fun _ => queued (by simp [writing]), trivial⟩

/-- Every step keeps account of the records. -/
theorem Accounts.step {action : ThreadAction}
    (accounts : Accounts crc32 original threads done held behind)
    (stepped : threads.step crc32 action = .ok following) :
    ∃ done' held' behind', Accounts crc32 original following done' held' behind' := by
  cases action with
  | call sequence cmd =>
    obtain ⟨-, rfl⟩ := called_of_step stepped
    obtain ⟨split, durable, inside, begins, queued, worker⟩ := accounts
    exact ⟨done, held, behind, split, durable, inside, begins, queued, worker⟩
  | produce => exact ⟨done, held, accounts.produce stepped⟩
  | close => exact ⟨done, held, behind, accounts.close stepped⟩
  | work => exact accounts.work stepped
  | write count => exact ⟨done, held, behind, accounts.write stepped⟩
  | fail => exact ⟨done, held, behind, accounts.fail stepped⟩

/-! ## Ascending calls -/

/-- The sequence numbers start at 1 or later and each is larger than those put into the queue
before. -/
def Ascends (threads : JournalThreads) : ThreadAction → Prop
  | .call sequence _ => 1 ≤ sequence ∧ ∀ entry ∈ threads.enqueued, entry.sequence < sequence
  | .produce | .close | .work | .write _ | .fail => True

instance (threads : JournalThreads) (action : ThreadAction) : Decidable (Ascends threads action) :=
  match action with
  | .call sequence _ => inferInstanceAs (Decidable
      (1 ≤ sequence ∧ ∀ entry ∈ threads.enqueued, entry.sequence < sequence))
  | .produce | .close | .work | .write _ | .fail => isTrue trivial

/-- What a run of ascending calls has put into the queue. -/
structure Called (threads : JournalThreads) : Prop where
  /-- The sequence numbers are in ascending order. -/
  ascending : threads.enqueued.Pairwise fun first second => first.sequence < second.sequence
  /-- None is 0. -/
  positive : ∀ entry ∈ threads.enqueued, 0 < entry.sequence
  /-- The next one is larger. -/
  larger : ∀ entry, threads.entering = some entry →
    0 < entry.sequence ∧ ∀ before ∈ threads.enqueued, before.sequence < entry.sequence

/-- What a step does to the entries put into the queue: it leaves them alone, or the entry of the
call under way joins them. A call that has not got to the queue was so before or has just begun. -/
theorem enters_of_step {action : ThreadAction}
    (stepped : threads.step crc32 action = .ok following) :
    (following.enqueued = threads.enqueued ∧ ∀ entry, following.entering = some entry →
      threads.entering = some entry ∨ action = .call entry.sequence entry.command) ∨
    ∃ entry, threads.entering = some entry ∧ following.enqueued = threads.enqueued ++ [entry] ∧
      following.entering = none := by
  have apart : action.appending = false → following.enqueued = threads.enqueued ∧
      ∀ entry, following.entering = some entry →
        threads.entering = some entry ∨ action = .call entry.sequence entry.command := by
    intro other
    obtain ⟨producer, enqueued, -⟩ := apart_of_step other stepped
    have entering : following.entering = threads.entering := by
      unfold JournalThreads.entering
      rw [producer]
    exact ⟨enqueued, fun entry enters => .inl (entering ▸ enters)⟩
  cases action with
  | call sequence cmd =>
    obtain ⟨-, rfl⟩ := called_of_step stepped
    refine .inl ⟨rfl, ?_⟩
    rintro entry ⟨⟩
    exact .inr rfl
  | produce =>
    cases produces_of_produce stepped with
    | refuses | accepts =>
      refine .inl ⟨rfl, ?_⟩
      rintro entry ⟨⟩
    | @passes entry producer enters next =>
      refine .inl ⟨rfl, fun other same => .inl ?_⟩
      obtain rfl | rfl := next
      all_goals
        cases same
        exact enters
    | @sends entry opened here room => exact .inr ⟨entry, by rw [entering, opened], rfl, rfl⟩
  | close | work | write count | fail => exact .inl (apart rfl)

/-- Entries in ascending order stay so when one with a larger number joins them. -/
theorem ascending_snoc {entries : List JournalEntry} {entry : JournalEntry}
    (ascending : entries.Pairwise fun first second => first.sequence < second.sequence)
    (larger : ∀ before ∈ entries, before.sequence < entry.sequence) :
    (entries ++ [entry]).Pairwise fun first second => first.sequence < second.sequence :=
  List.pairwise_append.mpr ⟨ascending, List.pairwise_singleton .., fun before among _ same =>
    List.mem_singleton.mp same ▸ larger before among⟩

/-- Every step keeps what a run of ascending calls has put into the queue. -/
theorem Called.step {action : ThreadAction} (called : Called threads)
    (ascends : Ascends threads action) (stepped : threads.step crc32 action = .ok following) :
    Called following := by
  obtain ⟨ascending, positive, larger⟩ := called
  obtain ⟨same, enters⟩ | ⟨entry, entered, grown, left⟩ := enters_of_step stepped
  · refine ⟨same ▸ ascending, same ▸ positive, fun entry entered => ?_⟩
    rw [same]
    obtain before | rfl := enters entry entered
    · exact larger entry before
    · exact ⟨UInt64.lt_of_lt_of_le (by decide) ascends.1, ascends.2⟩
  · obtain ⟨some, above⟩ := larger entry entered
    refine ⟨?_, ?_, ?_⟩
    · rw [grown]
      exact ascending_snoc ascending above
    · intro other among
      rw [grown] at among
      obtain old | new := List.mem_append.mp among
      · exact positive other old
      · exact List.mem_singleton.mp new ▸ some
    · rw [left]
      rintro entry ⟨⟩

/-! ## What is recovered -/

/-- The records of a file are recovered: recovery cuts it back, and these are read from it then. -/
def Recovers (crc32 : List UInt8 → UInt32) (files : Directory) (path : String)
    (entries : List JournalEntry) : Prop :=
  ∃ recovered report, recoverPath crc32 files (.file path) = .ok (recovered, report) ∧
    (JournalReader.openFile recovered path).bind (fun reader => reader.readAll crc32 recovered) =
      .ok entries

/-- From a file that is the beginning of a log the records before its end are recovered. -/
theorem recovers_whole {files : Directory} {path : String} {entries : List JournalEntry}
    (present : path ∈ files.names) (begins : files.read path <+: logBytes crc32 entries) :
    Recovers crc32 files path
      (whole (JournalEntry.record crc32) (files.read path).length entries) := by
  have cut : files.contents path = (logBytes crc32 entries).take (files.read path).length :=
    List.prefix_iff_eq_take.mp begins
  obtain ⟨truncated, run⟩ := recoverFile_cut cut
  exact ⟨_, _, run, readAll_openFile present (Directory.put_self ..)⟩

/-- The last sequence number is the number from before, or that of an entry. -/
theorem lastSequence_mem (before : UInt64) (entries : List JournalEntry) :
    lastSequence before entries = before ∨
      ∃ entry ∈ entries, entry.sequence = lastSequence before entries := by
  unfold lastSequence
  cases last : entries.getLast? with
  | none => exact .inl rfl
  | some entry => exact .inr ⟨entry, List.mem_of_getLast? last, rfl⟩

/-- The journal keeps its promise at a moment: the records that can be recovered from the file are
the first of those put into the queue, up to the durable sequence number at least; this is 0 or the
number of a record put into the queue; and these are the records of the calls that returned `Ok`,
in order, and of a call about to do so. -/
structure Safe (crc32 : List UInt8 → UInt32) (threads : JournalThreads) : Prop where
  /-- The first records are recovered, and every durable one. -/
  recovers : ∃ entries, Recovers crc32 threads.files threads.path entries ∧
    entries <+: threads.enqueued ∧
    ∀ entry ∈ threads.enqueued, entry.sequence ≤ threads.durable → entry ∈ entries
  /-- The durable sequence number is that of a record. -/
  durable : threads.durable = 0 ∨ ∃ entry ∈ threads.enqueued, entry.sequence = threads.durable
  /-- Only calls that return `Ok` put a record into the queue. -/
  answered : threads.enqueued = threads.acknowledged ++ threads.unanswered

/-- A journal that keeps account of ascending records keeps its promise. -/
theorem Accounts.safe (accounts : Accounts crc32 [] threads done held behind)
    (called : Called threads) (answers : Answers threads) : Safe crc32 threads := by
  obtain ⟨split, durable, inside, begins, -, -⟩ := accounts
  have above : ∀ first ∈ done, ∀ second ∈ held ++ behind, first.sequence < second.sequence :=
    (List.pairwise_append.mp (split ▸ called.ascending)).2.2
  have last := lastSequence_mem 0 done
  rw [← durable] at last
  refine ⟨⟨_, recovers_whole answers.present begins, whole_prefix _ _, fun entry among most => ?_⟩,
    last.imp_right fun ⟨entry, among, same⟩ => ⟨entry, ?_, same⟩, answers.answered⟩
  · -- An entry behind the durable ones has a larger number.
    have early : entry ∈ done := by
      have among' := among
      rw [split] at among'
      refine (List.mem_append.mp among').resolve_right fun late => ?_
      obtain none | ⟨first, among', same⟩ := last
      · have some := called.positive entry among
        rw [none] at most
        exact UInt64.lt_irrefl _ (UInt64.lt_of_lt_of_le some most)
      · rw [← same] at most
        exact UInt64.lt_irrefl _ (UInt64.lt_of_lt_of_le (above first among' entry late) most)
    have kept := @prefix_whole _ (JournalEntry.record crc32) threads.bytes.length done
      (held ++ behind) inside.length_le
    rw [← split] at kept
    exact kept.subset early
  · rw [split]
    exact List.mem_append_left _ among

/-- Only the worker's store changes the durable sequence number. -/
theorem durable_of_step {action : ThreadAction}
    (stepped : threads.step crc32 action = .ok following) :
    following.durable = threads.durable ∨
      action = .work ∧ ∃ shouldExit, threads.worker = .written following.durable shouldExit := by
  cases action with
  | call sequence cmd =>
    obtain ⟨-, rfl⟩ := called_of_step stepped
    exact .inl rfl
  | produce =>
    cases produces_of_produce stepped with
    | refuses | passes | sends | accepts => exact .inl rfl
  | close =>
    cases closes_of_close stepped with
    | passes | swaps | skips | sends | joins => exact .inl rfl
  | work =>
    cases works_of_work stepped with
    | @stores last shouldExit written => exact .inr ⟨rfl, shouldExit, written⟩
    | awaits | receives | leaves | collects | ends | begins | flushes | degrades | exits =>
      exact .inl rfl
  | write count =>
    obtain ⟨_, _, _, _, -, -, rfl⟩ := writes_of_write stepped
    exact .inl rfl
  | fail =>
    obtain ⟨-, rfl⟩ := fails_of_fail stepped
    exact .inl rfl

/-- A step never lowers the durable sequence number. -/
theorem Accounts.durable_le {action : ThreadAction}
    (accounts : Accounts crc32 original threads done held behind) (called : Called threads)
    (stepped : threads.step crc32 action = .ok following) :
    threads.durable ≤ following.durable := by
  obtain same | ⟨-, shouldExit, written⟩ := durable_of_step stepped
  · exact UInt64.le_of_eq same.symm
  obtain ⟨split, durable, -, -, -, worker⟩ := accounts
  rw [written] at worker
  obtain last | ⟨entry, among, last⟩ := lastSequence_mem threads.durable held
  · exact UInt64.le_of_eq (last.symm.trans (worker.2 _))
  rw [worker.2] at last
  have above : ∀ first ∈ done, first.sequence < entry.sequence := fun first earlier =>
    (List.pairwise_append.mp (split ▸ called.ascending)).2.2 first earlier entry
      (List.mem_append_left _ among)
  obtain none | ⟨first, earlier, same⟩ := lastSequence_mem 0 done
  · rw [durable, none]
    exact UInt64.zero_le
  · rw [durable, ← same, ← last]
    exact UInt64.le_of_lt (above first earlier)

/-- A call that finds the queue full does nothing but return. -/
theorem refused_of_step {action : ThreadAction} {entry : JournalEntry}
    (stepped : threads.step crc32 action = .ok following)
    (refused : following.returned = threads.returned ++ [(entry, some .queueFull)]) :
    following = threads.answer entry (some .queueFull) := by
  have longer : threads.returned ≠ threads.returned ++ [(entry, some .queueFull)] :=
    fun same => by simpa using congrArg List.length same
  have apart : action.appending = false → following = threads.answer entry (some .queueFull) := by
    intro other
    obtain ⟨-, -, returned, -⟩ := apart_of_step other stepped
    exact absurd (returned.symm.trans refused) longer
  cases action with
  | call sequence cmd =>
    obtain ⟨-, rfl⟩ := called_of_step stepped
    exact absurd refused longer
  | produce =>
    cases produces_of_produce stepped with
    | refuses enters error =>
      have last := (List.cons.inj (List.append_cancel_left refused)).1
      rw [(Prod.mk.inj last).1, (Prod.mk.inj last).2]
    | passes | sends => exact absurd refused longer
    | accepts sent =>
      have last := (List.cons.inj (List.append_cancel_left refused)).1
      exact absurd (Prod.mk.inj last).2 (by simp)
  | close | work | write count | fail => exact apart rfl

/-- A new journal keeps account of no records. -/
theorem accounts_open (files : Directory) (path : String) (cfg : AsyncJournalConfig) :
    Accounts crc32 (openThreads files path cfg).bytes (openThreads files path cfg) [] [] [] := by
  have same : extended crc32 (openThreads files path cfg).bytes [] =
      (openThreads files path cfg).bytes := List.append_nil _
  exact ⟨rfl, rfl, ⟨[], (List.append_nil _).trans same⟩, ⟨[], (List.append_nil _).trans same.symm⟩,
    fun _ => rfl, rfl, same.symm⟩

/-- At every moment of every run of ascending calls the journal keeps its promise, whatever the
order of the threads' steps and wherever the file system fails; no step lowers the durable sequence
number, and a call that finds the queue full does nothing but return. -/
theorem journal_keeps_promise (crc32 : List UInt8 → UInt32) (files : Directory) (path : String)
    (fresh : path ∉ files.names) (cfg : AsyncJournalConfig) (threads : JournalThreads)
    (reached : Reaches crc32 files path cfg Ascends threads) :
    Safe crc32 threads ∧ ∀ action following, threads.step crc32 action = .ok following →
      threads.durable ≤ following.durable ∧
      ∀ entry, following.returned = threads.returned ++ [(entry, some .queueFull)] →
        following = threads.answer entry (some .queueFull) := by
  obtain ⟨⟨done, held, behind, accounts⟩, called, answers⟩ :
      (∃ done held behind, Accounts crc32 [] threads done held behind) ∧
      Called threads ∧ Answers threads := by
    refine Reached.invariant ?_ ?_ reached
    · rintro threads rfl
      have opened := @accounts_open crc32 files path cfg
      have empty : (openThreads files path cfg).bytes = [] := openAppend_fresh fresh
      rw [empty] at opened
      refine ⟨⟨[], [], [], opened⟩, ⟨.nil, ?_, ?_⟩, rfl, mem_openAppend files path⟩
      all_goals rintro entry ⟨⟩
    · rintro threads action following ⟨⟨done, held, behind, accounts⟩, called, answers⟩ ascends
        stepped
      exact ⟨accounts.step stepped, called.step ascends stepped, answers.step stepped⟩
  exact ⟨accounts.safe called answers, fun action following stepped =>
    ⟨accounts.durable_le called stepped, fun entry refused => refused_of_step stepped refused⟩⟩

/-- A call of `append` that runs to its end. -/
def wholeCall (sequence : UInt64) : List ThreadAction :=
  .call sequence (.cancelOrder sequence) :: List.replicate 4 .produce

/-- The second of two records is written in part when the file system fails, and a third call finds
the queue full: the first record is durable. -/
theorem journal_keeps_promise_when_torn :
    ∃ threads, Reaches crc32Hash .empty "wal" ⟨1, 1⟩ Ascends threads ∧
      (threads.durable = 1 ∧ threads.bytes.length = 35 ∧
        threads.returned.map Prod.snd = [none, none, some .queueFull]) ∧
      Safe crc32Hash threads := by
  obtain ⟨threads, reached, ends⟩ : ∃ threads,
      Reaches crc32Hash .empty "wal" ⟨1, 1⟩ Ascends threads ∧
      decide (threads.durable = 1 ∧ threads.bytes.length = 35 ∧
        threads.returned.map Prod.snd = [none, none, some .queueFull]) = true :=
    Reached.exists_checkedRun (fun threads action => decide (Ascends threads action)) _
      (fun _ _ => of_decide_eq_true) rfl
      (wholeCall 1 ++ [.work, .work, .work, .write 25, .work, .work] ++ wholeCall 2 ++
        (wholeCall 3).take 4 ++ [.work, .work, .work, .write 10, .fail]) (by decide +kernel)
  exact ⟨threads, reached, of_decide_eq_true ends,
    (journal_keeps_promise crc32Hash .empty "wal" (by simp [Directory.empty]) ⟨1, 1⟩ threads
      reached).1⟩

end JournalThreads

end MatchX.Journal
