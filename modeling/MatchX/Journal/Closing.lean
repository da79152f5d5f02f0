import MatchX.Journal.Threads

/-!
# Closing the asynchronous journal

`close` sends the worker a last message through the queue of the records. A call of `append` that
has found the journal open may put its record behind that message, and return `Ok`; the worker
leaves without it. When no record gets behind the message, everything that was acknowledged is in
the file once `close` has returned.
-/

namespace MatchX.Journal.JournalThreads

open Support

variable {crc32 : List UInt8 → UInt32} {threads following : JournalThreads} {original : List UInt8}
  {done held behind : List JournalEntry}

/-- The file system does not fail, and `append` puts no record into the queue once `close` has sent
its message. -/
def InTime (threads : JournalThreads) : ThreadAction → Prop
  | .produce => ∀ entry, threads.producer = .opened entry → threads.worker ≠ .exited →
      threads.hasRoom = true → threads.closer = .idle ∨ threads.closer = .swapped
  | .call _ _ | .close | .work | .write _ => True
  | .fail => False

/-- All that was acknowledged is in the file, once and in order, and the last of it is durable. -/
structure Flushed (crc32 : List UInt8 → UInt32) (original : List UInt8) (threads : JournalThreads) :
    Prop where
  /-- What was put into the queue was acknowledged. -/
  enqueued : threads.enqueued = threads.acknowledged
  /-- The file has these records behind what it held. -/
  bytes : threads.bytes = extended crc32 original threads.acknowledged
  /-- They are read behind the entries that the file held. -/
  read : ∀ before, original = logBytes crc32 before →
    (JournalReader.openFile threads.files threads.path).bind
      (fun reader => reader.readAll crc32 threads.files) = .ok (before ++ threads.acknowledged)
  /-- The durable sequence number is that of the last one. -/
  durable : threads.durable = lastSequence 0 threads.acknowledged

/-- Whether the worker takes more messages. -/
def receives : WorkerThread → Bool
  | .starting | .waiting | .collecting _ _ => true
  | .writing _ _ shouldExit | .written _ shouldExit => !shouldExit
  | .failed | .leaving | .exited => false

/-- How far the journal is closed. -/
inductive Stage (threads : JournalThreads) : Prop
  /-- `close` has sent nothing. -/
  | running (early : threads.closer = .idle ∨ threads.closer = .swapped)
      (on : receives threads.worker = true) (unsent : .shutdown ∉ threads.queue)
  /-- Its message is the last one in the queue. -/
  | asked (late : threads.closer = .joining) (on : receives threads.worker = true)
      (before : List WorkerMessage) (records : .shutdown ∉ before)
      (last : threads.queue = before ++ [.shutdown])
  /-- The worker has received it. -/
  | told (late : threads.closer = .joining ∨ threads.closer = .returned)
      (off : receives threads.worker = false) (empty : threads.queue = [])

/-- A step that leaves the queue and the closing thread alone. -/
theorem Stage.stays (stage : Stage threads) (closer : following.closer = threads.closer)
    (queue : following.queue = threads.queue)
    (same : receives following.worker = receives threads.worker) : Stage following := by
  cases stage with
  | running early on unsent =>
    rw [← closer] at early
    rw [← queue] at unsent
    exact .running early (same.trans on) unsent
  | asked late on before records last =>
    exact .asked (closer.trans late) (same.trans on) before records (queue.trans last)
  | told late off empty =>
    rw [← closer] at late
    exact .told late (same.trans off) (queue.trans empty)

/-- The worker receives a record. -/
theorem Stage.append {record : AppendRecord} {queue : List WorkerMessage} {worker : WorkerThread}
    (stage : Stage threads) (first : threads.queue = .append record :: queue)
    (on : receives worker = true) : Stage { threads with queue, worker } := by
  cases stage with
  | running early _ unsent =>
    refine .running early on fun among => unsent ?_
    rw [first]
    exact List.mem_cons_of_mem _ among
  | asked late _ before records last =>
    rw [first] at last
    cases before with
    | nil => cases last
    | cons message before =>
      have rest := (List.cons.inj last).2
      exact .asked late on before (fun among => records (List.mem_cons_of_mem _ among)) rest
  | told _ _ empty =>
    rw [first] at empty
    contradiction

/-- The worker receives the message of `close`, and nothing is behind it. -/
theorem Stage.shutdown {queue : List WorkerMessage} (stage : Stage threads)
    (first : threads.queue = .shutdown :: queue) :
    threads.closer = .joining ∧ queue = [] := by
  cases stage with
  | running _ _ unsent =>
    rw [first] at unsent
    exact absurd (List.mem_cons_self ..) unsent
  | asked late _ before records last =>
    rw [first] at last
    cases before with
    | nil => exact ⟨late, (List.cons.inj last).2⟩
    | cons message before =>
      rw [(List.cons.inj last).1] at records
      exact absurd (List.mem_cons_self ..) records
  | told _ _ empty =>
    rw [first] at empty
    contradiction

/-- A worker that receives nothing more has received the message of `close`. -/
theorem Stage.off (stage : Stage threads) (off : receives threads.worker = false) :
    (threads.closer = .joining ∨ threads.closer = .returned) ∧ threads.queue = [] := by
  cases stage with
  | running _ on | asked _ on =>
    rw [off] at on
    contradiction
  | told late _ empty => exact ⟨late, empty⟩

/-- What holds of a run that sends its records in time. -/
structure Orderly (crc32 : List UInt8 → UInt32) (original : List UInt8) (threads : JournalThreads) :
    Prop where
  /-- The journal is closed from the start of `close`. -/
  closed : threads.closed = true ↔ threads.closer ≠ .idle
  /-- How far it is closed. -/
  stage : Stage threads
  /-- The worker has met no error. -/
  sound : threads.worker ≠ .failed
  /-- It leaves when it has written everything. -/
  left : threads.worker = .leaving ∨ threads.worker = .exited →
    threads.bytes = extended crc32 original threads.enqueued ∧
    threads.durable = lastSequence 0 threads.enqueued
  /-- `close` waits for it. -/
  joined : threads.closer = .returned → threads.worker = .exited

/-- A step of the appending thread in time. -/
theorem Orderly.produce (orderly : Orderly crc32 original threads)
    (timely : InTime threads .produce) (stepped : threads.produce crc32 = .ok following) :
    Orderly crc32 original following := by
  obtain ⟨closed, stage, sound, left, joined⟩ := orderly
  cases produces_of_produce stepped with
  | refuses | passes | accepts => exact ⟨closed, stage.stays rfl rfl rfl, sound, left, joined⟩
  | @sends entry opened here room =>
    have early := timely entry opened here room
    cases stage with
    | running _ on unsent =>
      refine ⟨closed, .running early on ?_, sound, fun gone => ?_, joined⟩
      · simpa using unsent
      · -- A worker that receives has not left.
        dsimp only at gone
        obtain gone | gone := gone
        all_goals
          rw [gone] at on
          contradiction
    | asked late =>
      rw [late] at early
      exact absurd early (by decide)
    | told late =>
      obtain late | late := late
      all_goals
        rw [late] at early
        exact absurd early (by decide)

/-- A step of the closing thread. -/
theorem Orderly.close (orderly : Orderly crc32 original threads)
    (stepped : threads.close = .ok following) : Orderly crc32 original following := by
  obtain ⟨closed, stage, sound, left, joined⟩ := orderly
  cases closes_of_close stepped with
  | passes rests close =>
    have returned : threads.closer = .returned := rests.resolve_left (closed.mp close)
    exact ⟨by simp [close], stage.stays returned.symm rfl rfl, sound, left,
      fun _ => joined returned⟩
  | swaps rests opened =>
    have idle : threads.closer = .idle := not_not.mp fun later => opened (closed.mpr later)
    refine ⟨by simp, ?_, sound, left, nofun⟩
    cases stage with
    | running _ on unsent => exact .running (.inr rfl) on unsent
    | asked late | told late => simp [idle] at late
  | skips swapped gone =>
    -- The worker does not leave before the message of `close`.
    cases stage with
    | running _ on =>
      rw [gone] at on
      contradiction
    | asked late | told late => simp [swapped] at late
  | sends swapped here =>
    have close : threads.closed = true := closed.mpr (by simp [swapped])
    cases stage with
    | running _ on unsent =>
      exact ⟨by simp [close], .asked rfl on threads.queue unsent rfl, sound, left, nofun⟩
    | asked late | told late => simp [swapped] at late
  | joins joining gone =>
    have close : threads.closed = true := closed.mpr (by simp [joining])
    refine ⟨by simp [close], ?_, sound, left, fun _ => gone⟩
    cases stage with
    | running early => simp [joining] at early
    | asked _ on =>
      rw [gone] at on
      contradiction
    | told _ off empty => exact .told (.inr rfl) off empty

/-- A worker with nothing queued has all records. -/
theorem Accounts.all_of_empty (accounts : Accounts crc32 original threads done held behind)
    (here : threads.worker ≠ .exited) (empty : threads.queued = []) :
    threads.enqueued = done ++ held := by
  have none := accounts.queued here
  rw [empty] at none
  rw [accounts.split, List.map_eq_nil_iff.mp none.symm, List.append_nil]

/-- A step of a worker that does not leave yet. -/
theorem Orderly.goes (orderly : Orderly crc32 original threads) (here : threads.worker ≠ .exited)
    (closed : following.closed = threads.closed) (closer : following.closer = threads.closer)
    (stage : Stage following) (sound : following.worker ≠ .failed)
    (stays : ¬(following.worker = .leaving ∨ following.worker = .exited)) :
    Orderly crc32 original following := by
  refine ⟨?_, stage, sound, fun gone => absurd gone stays, fun returned => ?_⟩
  · rw [closed, closer]
    exact orderly.closed
  · exact absurd (orderly.joined (closer.symm.trans returned)) here

/-- A step of a worker that leaves when everything is written. -/
theorem Orderly.leaves (orderly : Orderly crc32 original threads) (here : threads.worker ≠ .exited)
    (closed : following.closed = threads.closed) (closer : following.closer = threads.closer)
    (stage : Stage following) (leaving : following.worker = .leaving)
    (bytes : following.bytes = extended crc32 original following.enqueued)
    (durable : following.durable = lastSequence 0 following.enqueued) :
    Orderly crc32 original following := by
  refine ⟨?_, stage, by simp [leaving], fun _ => ⟨bytes, durable⟩, fun returned => ?_⟩
  · rw [closed, closer]
    exact orderly.closed
  · exact absurd (orderly.joined (closer.symm.trans returned)) here

/-- A step of the worker that writes nothing. -/
theorem Orderly.work (orderly : Orderly crc32 original threads)
    (accounts : Accounts crc32 original threads done held behind)
    (stepped : threads.work = .ok following) : Orderly crc32 original following := by
  have ⟨_, durable, _, _, _, worker⟩ := accounts
  have all := accounts.all_of_empty
  have stage := orderly.stage
  cases works_of_work stepped with
  | awaits starting =>
    have on : receives threads.worker = true := by rw [starting]; rfl
    exact orderly.goes (by simp [starting]) rfl rfl (stage.stays rfl rfl on.symm) (by simp)
      (by simp)
  | receives waiting first =>
    exact orderly.goes (by simp [waiting]) rfl rfl (stage.append first rfl) (by simp) (by simp)
  | leaves waiting first =>
    have here : threads.worker ≠ .exited := by simp [waiting]
    obtain ⟨late, rfl⟩ := stage.shutdown first
    rw [waiting] at worker
    obtain ⟨rfl, file⟩ := worker
    have every := all here (by rw [queued, first]; rfl)
    rw [List.append_nil] at every
    rw [← every] at file durable
    exact orderly.leaves here rfl rfl (.told (.inl late) rfl rfl) rfl file durable
  | collects collecting first =>
    exact orderly.goes (by simp [collecting]) rfl rfl (stage.append first rfl) (by simp) (by simp)
  | ends collecting first =>
    obtain ⟨late, rfl⟩ := stage.shutdown first
    exact orderly.goes (by simp [collecting]) rfl rfl (.told (.inl late) rfl rfl) (by simp)
      (by simp)
  | begins collecting =>
    have on : receives threads.worker = true := by rw [collecting]; rfl
    exact orderly.goes (by simp [collecting]) rfl rfl (stage.stays rfl rfl on.symm) (by simp)
      (by simp)
  | @flushes last shouldExit writing =>
    have same : receives (.written last shouldExit) = receives threads.worker := by
      rw [writing]
      rfl
    exact orderly.goes (by simp [writing]) rfl rfl (stage.stays rfl rfl same) (by simp) (by simp)
  | @stores last shouldExit written =>
    have here : threads.worker ≠ .exited := by simp [written]
    rw [written] at worker
    obtain ⟨file, sequence⟩ := worker
    cases shouldExit with
    | false =>
      have on : receives threads.worker = true := by rw [written]; rfl
      exact orderly.goes here rfl rfl (stage.stays rfl rfl on.symm) (by simp) (by simp)
    | true =>
      have off : receives threads.worker = false := by rw [written]; rfl
      have every := all here (by rw [queued, (stage.off off).2]; rfl)
      rw [← every] at file
      refine orderly.leaves here rfl rfl (stage.stays rfl rfl off.symm) rfl file ?_
      dsimp only
      rw [every, lastSequence_append, sequence]
  | degrades failed => exact absurd failed orderly.sound
  | exits leaving =>
    have off : receives threads.worker = false := by rw [leaving]; rfl
    have late := (stage.off off).1
    exact ⟨orderly.closed, .told late rfl rfl, by simp, fun _ => orderly.left (.inl leaving),
      fun _ => rfl⟩

/-- Writing some bytes of a record. -/
theorem Orderly.write {count : Nat} (orderly : Orderly crc32 original threads)
    (stepped : threads.write count = .ok following) : Orderly crc32 original following := by
  obtain ⟨_, _, last, shouldExit, writing, -, rfl⟩ := writes_of_write stepped
  have same : (!shouldExit) = receives threads.worker := by rw [writing]; rfl
  exact orderly.goes (by simp [writing]) rfl rfl (orderly.stage.stays rfl rfl same) (by simp)
    (by simp)

/-- Every step in time keeps the journal orderly. -/
theorem Orderly.step {action : ThreadAction} (orderly : Orderly crc32 original threads)
    (accounts : Accounts crc32 original threads done held behind) (timely : InTime threads action)
    (stepped : threads.step crc32 action = .ok following) : Orderly crc32 original following := by
  cases action with
  | call sequence cmd =>
    obtain ⟨-, rfl⟩ := called_of_step stepped
    obtain ⟨closed, stage, sound, left, joined⟩ := orderly
    exact ⟨closed, stage.stays rfl rfl rfl, sound, left, joined⟩
  | produce => exact orderly.produce timely stepped
  | close => exact orderly.close stepped
  | work => exact orderly.work accounts stepped
  | write count => exact orderly.write stepped
  | fail => exact timely.elim

/-- A new journal is orderly. -/
theorem orderly_open (files : Directory) (path : String) (cfg : AsyncJournalConfig) :
    Orderly crc32 (openThreads files path cfg).bytes (openThreads files path cfg) := by
  constructor
  case stage => exact .running (.inl rfl) rfl (by simp [openThreads])
  all_goals simp [openThreads]

/-- A run in time keeps the journal orderly. -/
theorem orderly_of_reaches {files : Directory} {path : String} {cfg : AsyncJournalConfig}
    (reached : Reaches crc32 files path cfg InTime threads) :
    Orderly crc32 (openThreads files path cfg).bytes threads ∧ Answers threads := by
  obtain ⟨-, held⟩ :
      (∃ done held behind,
        Accounts crc32 (openThreads files path cfg).bytes threads done held behind) ∧
      Orderly crc32 (openThreads files path cfg).bytes threads ∧ Answers threads := by
    refine Reached.invariant ?_ ?_ reached
    · rintro threads rfl
      exact ⟨⟨[], [], [], accounts_open files path cfg⟩, orderly_open files path cfg, rfl,
        mem_openAppend files path⟩
    · rintro threads action following ⟨⟨done, held, behind, accounts⟩, orderly, answers⟩ timely
        stepped
      exact ⟨accounts.step stepped, orderly.step accounts timely stepped, answers.step stepped⟩
  exact held

/-- When the worker of an orderly journal has left and no call is under way, all that was
acknowledged is in the file. -/
theorem Orderly.flushed (orderly : Orderly crc32 original threads) (answers : Answers threads)
    (gone : threads.worker = .exited) (idle : threads.producer = .idle) :
    Flushed crc32 original threads := by
  obtain ⟨answered, present⟩ := answers
  have all : threads.enqueued = threads.acknowledged := by
    rw [answered, unanswered, idle, List.append_nil]
  obtain ⟨bytes, durable⟩ := orderly.left (.inr gone)
  rw [all] at bytes durable
  refine ⟨all, bytes, fun before log => readAll_openFile present ?_, durable⟩
  change threads.bytes = _
  rw [bytes, extended, log, logBytes, logBytes, logBytes, List.flatMap_append]

/-- In every run in which no record gets behind the message of `close`, all that was acknowledged is
in the file when `close` and the calls of `append` have returned. -/
theorem flushed_when_sent_in_time (crc32 : List UInt8 → UInt32) (files : Directory) (path : String)
    (cfg : AsyncJournalConfig) (threads : JournalThreads)
    (reached : Reaches crc32 files path cfg InTime threads) (closed : threads.closer = .returned)
    (returned : threads.producer = .idle) :
    Flushed crc32 (openThreads files path cfg).bytes threads := by
  obtain ⟨orderly, answers⟩ := orderly_of_reaches reached
  exact orderly.flushed answers (orderly.joined closed) returned

/-- The first record is in the worker's batch, and the second one in the queue, when `close` sends
its message. -/
theorem flushed_two_records :
    ∃ threads, Reaches crc32Hash .empty "wal" ⟨2, 2⟩ InTime threads ∧
      (threads.closer = .returned ∧ threads.producer = .idle ∧
        threads.acknowledged = [⟨1, .cancelOrder 1⟩, ⟨2, .cancelOrder 2⟩]) ∧
      Flushed crc32Hash (openThreads .empty "wal" ⟨2, 2⟩).bytes threads := by
  obtain ⟨threads, reached, ends⟩ : ∃ threads,
      Reaches crc32Hash .empty "wal" ⟨2, 2⟩ InTime threads ∧
      decide (threads.closer = .returned ∧ threads.producer = .idle ∧
        threads.acknowledged = [⟨1, .cancelOrder 1⟩, ⟨2, .cancelOrder 2⟩]) = true :=
    Reached.exists_checkedRun
      (fun threads action => action != .fail && (threads.closer == .idle || action != .produce)) _
      (fun threads action passes => by
        cases action with
        | call | close | work | write => trivial
        | produce => exact fun _ _ _ _ => .inl (by simpa using passes)
        | fail => simp at passes) rfl
      (wholeCall 1 ++ [.work, .work] ++ wholeCall 2 ++ [.close, .close, .work, .work, .write 25,
        .write 25, .work, .work, .work, .work, .work, .close]) (by decide +kernel)
  have ends := of_decide_eq_true ends
  exact ⟨threads, reached, ends,
    flushed_when_sent_in_time crc32Hash .empty "wal" ⟨2, 2⟩ threads reached ends.1 ends.2.1⟩

/-- A call finds the journal open, `close` sends its message, and the record gets behind it: the
call returns `Ok`, and the file stays empty. -/
theorem lost_behind_shutdown :
    ¬∀ (crc32 : List UInt8 → UInt32) (files : Directory) (path : String) (cfg : AsyncJournalConfig)
      (threads : JournalThreads),
      Reaches crc32 files path cfg (fun _ action => action ≠ .fail) threads →
      threads.closer = .returned → threads.producer = .idle →
        Flushed crc32 (openThreads files path cfg).bytes threads := by
  intro always
  obtain ⟨threads, reached, ends⟩ : ∃ threads,
      Reaches crc32Hash .empty "wal" ⟨2, 1⟩ (fun _ action => action ≠ .fail) threads ∧
      decide (threads.closer = .returned ∧ threads.producer = .idle ∧ threads.bytes = [] ∧
        threads.acknowledged = [⟨1, .cancelOrder 1⟩]) = true :=
    Reached.exists_checkedRun (fun _ action => action != .fail) _
      (fun _ _ passes => by simpa using passes) rfl
      ((wholeCall 1).take 3 ++ [.close, .close, .produce, .produce, .work, .work, .work, .close])
      (by decide +kernel)
  obtain ⟨closed, idle, empty, acknowledged⟩ := of_decide_eq_true ends
  have same := (always crc32Hash .empty "wal" ⟨2, 1⟩ threads reached closed idle).bytes
  rw [empty, acknowledged] at same
  exact absurd (congrArg List.length same) (by decide +kernel)

end MatchX.Journal.JournalThreads
