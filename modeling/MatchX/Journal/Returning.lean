import MatchX.Journal.Closing
import MatchX.Support.Liveness
import Mathlib.Data.List.GetD

/-!
# Closing returns

`close` waits twice: for room in the queue, to send its message, and for the worker to exit. It
never waits in vain. As long as it has not returned, the worker or the closing thread can take a
step that gets it on, however the thread that appends behaves, whatever is in the queue and even
when the file system fails; and there are only so many of these steps.
-/

namespace MatchX.Journal.JournalThreads

open Support

variable {crc32 : List UInt8 → UInt32} {threads following : JournalThreads}
  {action : ThreadAction}

/-- The steps that get `close` on: those of the closing thread and of the worker, apart from a write
of no bytes of a record that has some. -/
def Advances (threads : JournalThreads) : ThreadAction → Prop
  | .call _ _ | .produce => False
  | .close | .work | .fail => True
  | .write count => count = 0 →
      ∃ more last shouldExit, threads.worker = .writing ([] :: more) last shouldExit

/-! ## How far the journal is closed -/

/-- What every run makes sure of once `close` is called. -/
structure Asked (threads : JournalThreads) : Prop where
  /-- The journal is closed for further calls. -/
  closed : threads.closer ≠ .idle → threads.closed = true
  /-- A worker that `close` waits for gets its message, or leaves on its own. -/
  told : threads.closer = .joining → receives threads.worker = true → .shutdown ∈ threads.queue

/-- A step of the appending thread keeps what `close` has asked for. -/
theorem Asked.produce (asked : Asked threads) (produces : Produces crc32 threads following) :
    Asked following := by
  cases produces with
  | refuses | passes | accepts => exact ⟨asked.closed, asked.told⟩
  | sends =>
    refine ⟨asked.closed, fun joining on => ?_⟩
    exact List.mem_append_left _ (asked.told joining on)

/-- A step of the closing thread keeps it. -/
theorem Asked.close (asked : Asked threads) (closes : Closes threads following) :
    Asked following := by
  cases closes with
  | passes _ closed => exact ⟨fun _ => closed, fun joining => by contradiction⟩
  | swaps => exact ⟨fun _ => rfl, fun joining => by contradiction⟩
  | skips swapped gone =>
    refine ⟨fun _ => asked.closed (by simp [swapped]), fun _ on => ?_⟩
    have off : receives threads.worker = false := by
      rw [gone]
      rfl
    rw [off] at on
    contradiction
  | sends swapped =>
    refine ⟨fun _ => asked.closed (by simp [swapped]), fun _ _ => ?_⟩
    exact List.mem_append_right _ (List.mem_singleton_self _)
  | joins joining =>
    exact ⟨fun _ => asked.closed (by simp [joining]), fun joining => by contradiction⟩

/-- A step of the worker keeps it. -/
theorem Asked.work (asked : Asked threads) (works : Works threads following) : Asked following := by
  -- A worker that went on receiving finds the message where it was.
  have stays : ∀ {worker : WorkerThread}, receives threads.worker = receives worker →
      threads.closer = .joining → receives worker = true → .shutdown ∈ threads.queue :=
    fun same joining on => asked.told joining (same.trans on)
  have behind : ∀ {record : AppendRecord} {queue : List WorkerMessage},
      threads.queue = .append record :: queue → receives threads.worker = true →
      threads.closer = .joining → .shutdown ∈ queue := fun first on joining => by
    have among := asked.told joining on
    rw [first] at among
    simpa using among
  cases works with
  | awaits starting => exact ⟨asked.closed, stays (by rw [starting]; rfl)⟩
  | receives waiting first =>
    exact ⟨asked.closed, fun joining _ => behind first (by rw [waiting]; rfl) joining⟩
  | leaves => exact ⟨asked.closed, fun _ on => by contradiction⟩
  | collects collecting first =>
    exact ⟨asked.closed, fun joining _ => behind first (by rw [collecting]; rfl) joining⟩
  | ends => exact ⟨asked.closed, fun _ on => by contradiction⟩
  | begins collecting => exact ⟨asked.closed, stays (by rw [collecting]; rfl)⟩
  | flushes writing => exact ⟨asked.closed, stays (by rw [writing]; rfl)⟩
  | @stores last shouldExit written =>
    refine ⟨asked.closed, stays ?_⟩
    rw [written]
    cases shouldExit with
    | true => rfl
    | false => rfl
  | degrades => exact ⟨asked.closed, fun _ on => by contradiction⟩
  | exits => exact ⟨asked.closed, fun _ on => by contradiction⟩

/-- Every step keeps what `close` has asked for. -/
theorem Asked.step (asked : Asked threads)
    (stepped : threads.step crc32 action = .ok following) : Asked following := by
  cases action with
  | call sequence cmd =>
    obtain ⟨-, rfl⟩ := called_of_step stepped
    exact ⟨asked.closed, asked.told⟩
  | produce => exact asked.produce (produces_of_produce stepped)
  | close => exact asked.close (closes_of_close stepped)
  | work => exact asked.work (works_of_work stepped)
  | write count =>
    obtain ⟨piece, more, last, shouldExit, writing, -, rfl⟩ := writes_of_write stepped
    refine ⟨asked.closed, fun joining on => asked.told joining ?_⟩
    rw [writing]
    exact on
  | fail =>
    obtain ⟨-, rfl⟩ := fails_of_fail stepped
    exact ⟨asked.closed, fun _ on => by contradiction⟩

/-! ## A step is possible -/

/-- A worker that is there can go on, unless it waits for a message. -/
theorem canAdvance_of_worker (here : threads.worker ≠ .exited)
    (served : threads.worker = .waiting → threads.queue ≠ []) :
    CanNear (step crc32) Advances threads := by
  have works : ∀ {following}, threads.work = .ok following →
      CanNear (step crc32) Advances threads := fun worked => ⟨.work, _, trivial, worked⟩
  cases state : threads.worker with
  | starting => exact works (by rw [JournalThreads.work, state])
  | waiting =>
    obtain ⟨message, queue, first⟩ := List.exists_cons_of_ne_nil (served state)
    cases message with
    | append record =>
      exact works (by simp only [JournalThreads.work, state, first]; rfl)
    | shutdown => exact works (by simp only [JournalThreads.work, state, first]; rfl)
  | collecting batch last =>
    by_cases more : batch.length < threads.batchSize
    · cases first : threads.queue with
      | nil => exact works (by simp only [JournalThreads.work, state, if_pos more, first]; rfl)
      | cons message queue =>
        cases message with
        | append record =>
          exact works (by simp only [JournalThreads.work, state, if_pos more, first]; rfl)
        | shutdown =>
          exact works (by simp only [JournalThreads.work, state, if_pos more, first]; rfl)
    · exact works (by simp only [JournalThreads.work, state, if_neg more]; rfl)
  | writing rest last shouldExit =>
    cases rest with
    | nil => exact works (by rw [JournalThreads.work, state])
    | cons piece more =>
      have advances : Advances threads (.write piece.length) := fun nothing => by
        obtain rfl := List.length_eq_zero_iff.mp nothing
        exact ⟨more, last, shouldExit, state⟩
      exact ⟨.write piece.length, _, advances, by
        simp only [step, JournalThreads.write, state, le_refl, if_true]; rfl⟩
  | written last shouldExit => exact works (by rw [JournalThreads.work, state])
  | failed => exact works (by rw [JournalThreads.work, state])
  | leaving => exact works (by rw [JournalThreads.work, state])
  | exited => exact absurd state here

/-- As long as `close` has not returned, it can be got on. -/
theorem Asked.canAdvance (asked : Asked threads)
    (closing : threads.closer = .swapped ∨ threads.closer = .joining) :
    CanNear (JournalThreads.step crc32) Advances threads := by
  have closes : ∀ {following}, threads.close = .ok following →
      CanNear (JournalThreads.step crc32) Advances threads := fun closed =>
    ⟨.close, _, trivial, closed⟩
  by_cases gone : threads.worker = .exited
  · rcases closing with swapped | joining
    · exact closes (by simp only [JournalThreads.close, swapped, if_pos gone]; rfl)
    · exact closes (by simp only [JournalThreads.close, joining, if_pos gone]; rfl)
  rcases closing with swapped | joining
  · by_cases room : threads.queue.length < max threads.queueCapacity 1
    · exact closes (by simp only [JournalThreads.close, swapped, if_neg gone, if_pos room]; rfl)
    · -- The queue is full, so there is a message that the worker can take.
      refine canAdvance_of_worker gone fun _ empty => room ?_
      rw [empty, List.length_nil]
      omega
  · refine canAdvance_of_worker gone fun waiting empty => ?_
    have among := asked.told joining (by rw [waiting]; rfl)
    rw [empty] at among
    contradiction

/-! ## There are only so many -/

/-- The steps that the records of a batch take to write, at most. -/
def pieces (batch : List (List UInt8)) : Nat := (batch.map fun piece => piece.length + 1).sum

/-- The steps that a message takes, at most. -/
def messageEffort : WorkerMessage → Nat
  | .append record => record.bytes.length + 6
  | .shutdown => 1

/-- The steps that the worker takes with what it has, at most. -/
def workerEffort : WorkerThread → Nat
  | .starting => 2
  | .waiting => 1
  | .collecting batch _ => pieces batch + 5
  | .writing rest _ _ => pieces rest + 4
  | .written _ _ => 3
  | .failed => 2
  | .leaving => 1
  | .exited => 0

/-- The steps that a record takes which a call of `append` may still send. -/
def producerEffort (crc32 : List UInt8 → UInt32) : Producer → Nat
  | .opened entry => messageEffort (.append (record crc32 entry))
  | _ => 0

/-- The steps of the closing thread, and those that its message takes. -/
def closerEffort : Closer → Nat
  | .swapped => 3
  | .joining => 1
  | .idle | .returned => 0

/-- The steps that `close` takes at most before it returns. -/
def effort (crc32 : List UInt8 → UInt32) (threads : JournalThreads) : Nat :=
  (threads.queue.map messageEffort).sum + workerEffort threads.worker +
    producerEffort crc32 threads.producer + closerEffort threads.closer

/-- The appending thread adds nothing once the journal is closed. -/
theorem effort_produce (closed : threads.closed = true)
    (stepped : threads.produce crc32 = .ok following) :
    effort crc32 following ≤ effort crc32 threads := by
  unfold JournalThreads.produce at stepped
  split at stepped
  case h_1 => contradiction
  case h_2 entry called =>
    split at stepped
    · cases stepped
      simp [effort, answer, producerEffort]
    · cases stepped
      simp [effort, producerEffort]
  case h_3 entry healthy =>
    rw [if_pos closed] at stepped
    cases stepped
    simp [effort, answer, producerEffort]
  case h_4 entry opened =>
    split at stepped
    · cases stepped
      simp [effort, answer, producerEffort]
    · split at stepped
      · cases stepped
        simp only [effort, opened, producerEffort, List.map_append, List.map_cons, List.map_nil,
          List.sum_append, List.sum_cons, List.sum_nil]
        omega
      · cases stepped
        simp [effort, answer, producerEffort]
  case h_5 entry sent =>
    cases stepped
    simp [effort, answer, producerEffort]

/-- A step of the closing thread leaves less to do, until `close` has returned. -/
theorem effort_close (closing : threads.closer = .swapped ∨ threads.closer = .joining)
    (closes : Closes threads following) : effort crc32 following < effort crc32 threads := by
  have begun : ¬(threads.closer = .idle ∨ threads.closer = .returned) := by
    rcases closing with same | same <;> simp [same]
  cases closes with
  | passes rests => exact absurd rests begun
  | swaps rests => exact absurd rests begun
  | skips swapped =>
    simp only [effort, swapped, closerEffort]
    omega
  | sends swapped =>
    simp only [effort, swapped, closerEffort, List.map_append, List.map_cons, List.map_nil,
      List.sum_append, List.sum_cons, List.sum_nil, messageEffort]
    omega
  | joins joining =>
    simp only [effort, joining, closerEffort]
    omega

/-- A step of the worker leaves less to do. -/
theorem effort_work (works : Works threads following) :
    effort crc32 following < effort crc32 threads := by
  cases works with
  | awaits state | begins state | degrades state =>
    simp [effort, state, workerEffort]
  | flushes writing => simp [effort, writing, workerEffort, pieces]
  | leaves waiting first =>
    simp only [effort, waiting, first, workerEffort, messageEffort, List.map_cons, List.sum_cons]
    omega
  | ends collecting first =>
    simp only [effort, collecting, first, workerEffort, messageEffort, List.map_cons, List.sum_cons]
    omega
  | receives waiting first =>
    simp only [effort, waiting, first, workerEffort, messageEffort, pieces, List.map_cons,
      List.map_nil, List.sum_cons, List.sum_nil]
    omega
  | collects collecting first =>
    simp only [effort, collecting, first, workerEffort, messageEffort, pieces, List.map_cons,
      List.map_append, List.map_nil, List.sum_append, List.sum_cons, List.sum_nil]
    omega
  | @stores last shouldExit written =>
    cases shouldExit with
    | true => simp [effort, written, workerEffort]
    | false => simp [effort, written, workerEffort]
  | exits leaving =>
    simp only [effort, leaving, workerEffort, List.map_nil, List.sum_nil]
    omega

/-- A write that gets further leaves less to do. -/
theorem effort_write {count : Nat} (advances : Advances threads (.write count))
    (stepped : threads.write count = .ok following) :
    effort crc32 following < effort crc32 threads := by
  obtain ⟨piece, more, last, shouldExit, writing, within, rfl⟩ := writes_of_write stepped
  simp only [effort, writing, workerEffort, pieces, List.map_cons, List.sum_cons]
  split
  · omega
  · rename_i part
    have further : count ≠ 0 := fun nothing => by
      obtain ⟨more', last', shouldExit', state⟩ := advances nothing
      rw [writing] at state
      have empty := (List.cons.inj (WorkerThread.writing.inj state).1).1
      simp [nothing, empty] at part
    simp only [List.map_cons, List.sum_cons, List.length_drop]
    omega

/-- No write adds anything. -/
theorem effort_write_le {count : Nat} (stepped : threads.write count = .ok following) :
    effort crc32 following ≤ effort crc32 threads := by
  obtain ⟨piece, more, last, shouldExit, writing, within, rfl⟩ := writes_of_write stepped
  simp only [effort, writing, workerEffort, pieces, List.map_cons, List.sum_cons]
  split
  · omega
  · simp only [List.map_cons, List.sum_cons, List.length_drop]
    omega

/-- A failure of the file system leaves less to do. -/
theorem effort_fail (stepped : threads.fail = .ok following) :
    effort crc32 following < effort crc32 threads := by
  obtain ⟨⟨rest, last, shouldExit, writing⟩, rfl⟩ := fails_of_fail stepped
  simp only [effort, writing, workerEffort]
  omega

/-! ## Runs -/

/-- `close` is under way or has returned. -/
structure Closing (threads : JournalThreads) : Prop where
  /-- What `close` has asked for. -/
  asked : Asked threads
  /-- It was called. -/
  called : threads.closer ≠ .idle

/-- A `close` that has not returned waits in one of two places. -/
theorem Closing.waits (closing : Closing threads) (short : threads.closer ≠ .returned) :
    threads.closer = .swapped ∨ threads.closer = .joining := by
  cases state : threads.closer with
  | idle => exact absurd state closing.called
  | swapped => exact .inl rfl
  | joining => exact .inr rfl
  | returned => exact absurd state short

/-- Every step leaves `close` under way or returned. -/
theorem Closing.step (closing : Closing threads)
    (stepped : threads.step crc32 action = .ok following) : Closing following := by
  refine ⟨closing.asked.step stepped, ?_⟩
  have called := closing.called
  cases action with
  | call sequence cmd =>
    obtain ⟨-, rfl⟩ := called_of_step stepped
    exact called
  | produce => cases produces_of_produce stepped <;> exact called
  | close => cases closes_of_close stepped <;> simp
  | work => cases works_of_work stepped <;> exact called
  | write count =>
    obtain ⟨_, _, _, _, -, -, rfl⟩ := writes_of_write stepped
    exact called
  | fail =>
    obtain ⟨-, rfl⟩ := fails_of_fail stepped
    exact called

/-- A step that advances leaves less to do. -/
theorem Closing.falls (closing : Closing threads) (short : threads.closer ≠ .returned)
    (advances : Advances threads action) (stepped : threads.step crc32 action = .ok following) :
    effort crc32 following < effort crc32 threads := by
  cases action with
  | call | produce => exact advances.elim
  | close => exact effort_close (closing.waits short) (closes_of_close stepped)
  | work => exact effort_work (works_of_work stepped)
  | write count => exact effort_write advances stepped
  | fail => exact effort_fail stepped

/-- No step leaves more to do. -/
theorem Closing.still (closing : Closing threads) (short : threads.closer ≠ .returned)
    (stepped : threads.step crc32 action = .ok following) :
    effort crc32 following ≤ effort crc32 threads := by
  cases action with
  | call sequence cmd =>
    obtain ⟨-, rfl⟩ := called_of_step stepped
    simp only [effort, producerEffort]
    omega
  | produce => exact effort_produce (closing.asked.closed closing.called) stepped
  | close => exact le_of_lt (effort_close (closing.waits short) (closes_of_close stepped))
  | work => exact le_of_lt (effort_work (works_of_work stepped))
  | write count => exact effort_write_le stepped
  | fail => exact le_of_lt (effort_fail stepped)

/-- What `close` asks for holds in every run. -/
theorem asked_of_reaches {files : Directory} {path : String} {cfg : AsyncJournalConfig}
    (reached : Reaches crc32 files path cfg (fun _ _ => True) threads) : Asked threads := by
  refine Reached.invariant (fun state initial => ?_) (fun state action after asked _ stepped =>
    asked.step stepped) reached
  subst initial
  exact ⟨fun begun => absurd rfl begun, fun joining => by contradiction⟩

/-- `close` returns. Whatever the appending thread does and wherever the file system fails, as long
as `close` has not returned the worker or the closing thread can get it on, and a run that is fair
to these steps ends with its return. -/
theorem close_returns (crc32 : List UInt8 → UInt32) (files : Directory) (path : String)
    (cfg : AsyncJournalConfig) (run : Nat → JournalThreads) (actions : Nat → ThreadAction)
    (reached : Reaches crc32 files path cfg (fun _ _ => True) (run 0))
    (called : (run 0).closer ≠ .idle) (goes : Goes (step crc32) run actions)
    (fair : Fair (step crc32) Advances run actions) : ∃ n, (run n).closer = .returned :=
  Goes.reaches Closing (fun threads => threads.closer = .returned) (effort crc32) goes fair
    ⟨asked_of_reaches reached, called⟩
    (fun _ _ _ closing _ stepped => closing.step stepped)
    (fun _ closing short => closing.asked.canAdvance (closing.waits short))
    (fun _ _ _ closing short stepped => closing.still short stepped)
    (fun _ _ _ closing short advances stepped => closing.falls short advances stepped)

/-- Two calls of `append` fill the queue, `close` waits for room in it, the worker writes the first
record, and the file system fails within the second. -/
def failingWrite : List ThreadAction :=
  wholeCall 1 ++ wholeCall 2 ++ [.close, .work, .work, .close, .work, .write 25, .work, .work,
    .work, .work, .work, .write 10, .fail, .work, .work]

/-- Behind these steps `close` is called again and again. -/
def closingActions (n : Nat) : ThreadAction :=
  failingWrite.getD n .close

/-- The journal after these steps, from its opening. -/
def closingRun : Nat → JournalThreads
  | 0 => openThreads .empty "wal" ⟨2, 1⟩
  | n + 1 =>
    match step crc32Hash (closingRun n) (closingActions n) with
    | .ok following => following
    | .error _ => closingRun n

/-- Only `close` takes steps in the end. -/
theorem closingActions_late (n : Nat) : closingActions (n + 25) = .close := by
  have length : failingWrite.length = 25 := rfl
  have behind : failingWrite.length ≤ n + 25 := by omega
  exact List.getD_eq_default _ _ behind

/-- Once `close` has returned it does so again. -/
theorem closingRun_late (n : Nat) :
    (closingRun (n + 26)).closer = .returned ∧ (closingRun (n + 26)).closed = true := by
  induction n with
  | zero => decide +kernel
  | succ n ih =>
    have again : step crc32Hash (closingRun (n + 26)) (closingActions (n + 26)) =
        .ok { closingRun (n + 26) with closer := .returned } := by
      rw [closingActions_late (n + 1)]
      simp [step, JournalThreads.close, ih.1, ih.2]
    have next : closingRun (n + 1 + 26) = { closingRun (n + 26) with closer := .returned } := by
      rw [Nat.add_right_comm n 1 26, closingRun]
      simp only [again]
    rw [next]
    exact ⟨rfl, ih.2⟩

/-- Each of the steps is possible. -/
theorem closingRun_goes : Goes (step crc32Hash) closingRun closingActions := by
  intro n
  have possible : (step crc32Hash (closingRun n) (closingActions n)).toOption.isSome = true := by
    by_cases late : n < 26
    · have early : ∀ m < 26,
          (step crc32Hash (closingRun m) (closingActions m)).toOption.isSome = true := by
        decide +kernel
      exact early n late
    · obtain ⟨m, rfl⟩ := Nat.exists_eq_add_of_le' (not_lt.mp late)
      have ⟨returned, closed⟩ := closingRun_late m
      rw [closingActions_late (m + 1)]
      simp [step, JournalThreads.close, returned, closed, Except.toOption]
  rw [closingRun]
  cases stepped : step crc32Hash (closingRun n) (closingActions n) with
  | ok following => rfl
  | error stuck => simp [stepped, Except.toOption] at possible

/-- Each of these states is reached. -/
theorem closingRun_reaches (n : Nat) :
    Reaches crc32Hash .empty "wal" ⟨2, 1⟩ (fun _ _ => True) (closingRun n) := by
  induction n with
  | zero => exact .start rfl
  | succ n ih => exact .step ih trivial (closingRun_goes n)

/-- A journal is closed while two records fill the queue, and the second of them cannot be written:
`close` returns. -/
theorem close_returns_after_failed_write : (closingRun 11).queue.length = 2 ∧
    (closingRun 24).degraded = true ∧ ∃ n, (closingRun (n + 11)).closer = .returned := by
  refine ⟨by decide +kernel, by decide +kernel, ?_⟩
  apply close_returns crc32Hash .empty "wal" ⟨2, 1⟩ (fun n => closingRun (n + 11))
    (fun n => closingActions (n + 11)) (closingRun_reaches 11) (by decide +kernel)
  · intro n
    show step crc32Hash (closingRun (n + 11)) (closingActions (n + 11)) =
      .ok (closingRun (n + 1 + 11))
    rw [Nat.add_right_comm n 1 11]
    exact closingRun_goes (n + 11)
  · intro n _
    refine ⟨n + 14, by omega, ?_⟩
    show Advances (closingRun (n + 14 + 11)) (closingActions (n + 14 + 11))
    rw [Nat.add_assoc n 14 11, closingActions_late]
    trivial

end MatchX.Journal.JournalThreads
