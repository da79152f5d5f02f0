import MatchX.Journal.Threads

/-!
# A journal that has failed or was closed

`append` asks two flags before it offers a record to the queue. Once one of them is set it stays
set, and every call that comes to ask it later is refused, however the threads take turns: at most
the call that had passed it is still accepted. When the worker has given up after an error of the
file system, nothing is written or becomes durable any more either.
-/

namespace MatchX.Journal.JournalThreads

open Support

variable {crc32 : List UInt8 → UInt32} {threads later following : JournalThreads}
  {action : ThreadAction}

/-! ## Gates -/

/-- A flag that `append` asks. -/
structure Gate where
  /-- The flag. -/
  shut : JournalThreads → Bool
  /-- It is asked first. -/
  first : Bool
  /-- The errors of the calls that it refuses. -/
  errors : List JournalError

/-- The flag of a worker that met an error. -/
def degradedGate : Gate := ⟨degraded, true, [.writerDegraded]⟩

/-- The flag of a journal that was closed. -/
def closedGate : Gate := ⟨closed, false, [.writerDegraded, .writerStopped]⟩

namespace Gate

variable {gate : Gate}

/-- The call under way, if any, has asked the flag. -/
def past (gate : Gate) : Producer → Bool
  | .idle | .called _ => false
  | .healthy _ => gate.first
  | .opened _ | .sent _ => true

/-- The calls under way that have asked the flag: one or none. -/
def passing (gate : Gate) (threads : JournalThreads) : Nat := (gate.past threads.producer).toNat

/-- A call that was refused. -/
def Refuses (gate : Gate) (call : JournalEntry × Option JournalError) : Prop :=
  ∃ error ∈ gate.errors, call.2 = some error

/-- What a flag that is set does. -/
structure Guards (gate : Gate) (crc32 : List UInt8 → UInt32) : Prop where
  /-- No step takes it back. -/
  stays : ∀ {threads following : JournalThreads} {action : ThreadAction},
    gate.shut threads = true → threads.step crc32 action = .ok following →
      gate.shut following = true
  /-- A call that has yet to ask it puts nothing into the queue, and is refused if it returns. -/
  refuses : ∀ {threads following : JournalThreads}, gate.shut threads = true →
    gate.past threads.producer = false → threads.produce crc32 = .ok following →
      gate.past following.producer = false ∧ following.enqueued = threads.enqueued ∧
      (following.returned = threads.returned ∨
        ∃ call, gate.Refuses call ∧ following.returned = threads.returned ++ [call])

/-- What has come of the calls since a flag was set. -/
inductive Since (gate : Gate) (threads later : JournalThreads) : Prop
  /-- The call that had asked it is still under way. -/
  | passing (before : gate.past threads.producer = true) (now : gate.past later.producer = true)
      (returned : later.returned = threads.returned)
      (enqueued : later.enqueued = threads.enqueued ∨ ∃ entry,
        later.producer = .sent entry ∧ later.enqueued = threads.enqueued ++ [entry])
  /-- It has returned, or there was none, and all others were refused. -/
  | behind (passed refused : List (JournalEntry × Option JournalError)) (more : List JournalEntry)
      (now : gate.past later.producer = false)
      (returned : later.returned = threads.returned ++ passed ++ refused)
      (one : passed.length ≤ gate.passing threads) (refuses : ∀ call ∈ refused, gate.Refuses call)
      (enqueued : later.enqueued = threads.enqueued ++ more)
      (few : more.length ≤ gate.passing threads)

/-- At first no call has returned. -/
theorem since_refl (gate : Gate) (threads : JournalThreads) : gate.Since threads threads := by
  cases past : gate.past threads.producer with
  | true => exact .passing past past rfl (.inl rfl)
  | false =>
    exact .behind [] [] [] past (by simp) (Nat.zero_le _) (by simp) (by simp) (Nat.zero_le _)

/-- A step of another thread changes nothing for the calls. -/
theorem Since.apart (since : gate.Since threads later) (producer : following.producer = later.producer)
    (enqueued : following.enqueued = later.enqueued)
    (returned : following.returned = later.returned) : gate.Since threads following := by
  cases since with
  | passing before now same queued =>
    rw [← producer] at now
    rw [← returned] at same
    rw [← enqueued, ← producer] at queued
    exact .passing before now same queued
  | behind passed refused more now same one refuses queued few =>
    rw [← producer] at now
    rw [← returned] at same
    rw [← enqueued] at queued
    exact .behind passed refused more now same one refuses queued few

/-- The call that had asked the flag returns. -/
theorem Since.returns {entry : JournalEntry} {error : Option JournalError}
    {more : List JournalEntry} (before : gate.past threads.producer = true)
    (returned : later.returned = threads.returned)
    (enqueued : later.enqueued = threads.enqueued ++ more) (few : more.length ≤ 1) :
    gate.Since threads (later.answer entry error) := by
  have one : gate.passing threads = 1 := by
    rw [Gate.passing, before]
    rfl
  apply Since.behind [(entry, error)] [] more rfl
  · show later.returned ++ [(entry, error)] = _
    rw [returned, List.append_nil]
  · exact Nat.le_of_eq one.symm
  · simp
  · exact enqueued
  · rw [one]
    exact few

/-- The call that had asked the flag gets on, or returns. -/
theorem Since.passes (before : gate.past threads.producer = true)
    (now : gate.past later.producer = true) (returned : later.returned = threads.returned)
    (enqueued : later.enqueued = threads.enqueued ∨ ∃ entry,
      later.producer = .sent entry ∧ later.enqueued = threads.enqueued ++ [entry])
    (stepped : later.produce crc32 = .ok following) : gate.Since threads following := by
  have unsent : (∀ entry, later.producer ≠ .sent entry) → later.enqueued = threads.enqueued := by
    intro other
    rcases enqueued with same | ⟨entry, sent, -⟩
    · exact same
    · exact absurd sent (other entry)
  unfold JournalThreads.produce at stepped
  split at stepped
  case h_1 idle => contradiction
  case h_2 entry called =>
    rw [called] at now
    contradiction
  case h_3 entry healthy =>
    have same := unsent (by simp [healthy])
    split at stepped
    · cases stepped
      exact .returns before returned (same.trans (List.append_nil _).symm) (Nat.zero_le _)
    · cases stepped
      exact .passing before rfl returned (.inl same)
  case h_4 entry opened =>
    have same := unsent (by simp [opened])
    split at stepped
    · cases stepped
      exact .returns before returned (same.trans (List.append_nil _).symm) (Nat.zero_le _)
    · split at stepped
      · cases stepped
        exact .passing before rfl returned (.inr ⟨entry, rfl, congrArg (· ++ [entry]) same⟩)
      · cases stepped
        exact .returns before returned (same.trans (List.append_nil _).symm) (Nat.zero_le _)
  case h_5 entry sent =>
    cases stepped
    rcases enqueued with same | ⟨last, -, grown⟩
    · exact .returns before returned (same.trans (List.append_nil _).symm) (Nat.zero_le _)
    · exact .returns before returned grown (Nat.le_refl _)

/-- Every step goes on so. -/
theorem Since.step (guards : gate.Guards crc32) (shut : gate.shut later = true)
    (since : gate.Since threads later) (stepped : later.step crc32 action = .ok following) :
    gate.Since threads following := by
  have apart : action.appending = false → gate.Since threads following := by
    intro other
    obtain ⟨producer, enqueued, returned, -⟩ := apart_of_step other stepped
    exact since.apart producer enqueued returned
  cases action with
  | call sequence cmd =>
    obtain ⟨idle, rfl⟩ := called_of_step stepped
    cases since with
    | passing _ now =>
      rw [idle] at now
      contradiction
    | behind passed refused more _ returned one refuses enqueued few =>
      exact .behind passed refused more rfl returned one refuses enqueued few
  | produce =>
    cases since with
    | passing before now returned enqueued => exact .passes before now returned enqueued stepped
    | behind passed refused more now returned one refuses enqueued few =>
      obtain ⟨now', queued, same | ⟨call, refusal, longer⟩⟩ := guards.refuses shut now stepped
      · exact .behind passed refused more now' (same.trans returned) one refuses
          (queued.trans enqueued) few
      · apply Since.behind passed (refused ++ [call]) more now' ?_ one ?_ (queued.trans enqueued) few
        · rw [longer, returned, List.append_assoc _ refused]
        · intro other among
          rcases List.mem_append.mp among with earlier | last
          · exact refuses other earlier
          · rw [List.mem_singleton.mp last]
            exact refusal
  | close | work | write count | fail => exact apart rfl

/-- What comes of the calls once a flag is set. -/
structure Refused (gate : Gate) (threads later : JournalThreads) : Prop where
  /-- It stays set. -/
  shut : gate.shut later = true
  /-- All calls are refused that had not asked it before. -/
  returned : ∃ passed refused, later.returned = threads.returned ++ passed ++ refused ∧
    passed.length ≤ gate.passing threads ∧ ∀ call ∈ refused, gate.Refuses call
  /-- They put nothing into the queue. -/
  enqueued : ∃ more, later.enqueued = threads.enqueued ++ more ∧
    more.length ≤ gate.passing threads

/-- A run goes on so for good. -/
theorem Guards.refused (guards : gate.Guards crc32) (shut : gate.shut threads = true)
    (leads : Leads (JournalThreads.step crc32) (fun _ _ => True) threads later) :
    gate.Refused threads later := by
  have since : gate.shut later = true ∧ gate.Since threads later := by
    induction leads with
    | refl => exact ⟨shut, since_refl gate threads⟩
    | tail _ next ih =>
      obtain ⟨shut', since⟩ := ih
      obtain ⟨action, -, stepped⟩ := next
      exact ⟨guards.stays shut' stepped, since.step guards shut' stepped⟩
  obtain ⟨shut', since⟩ := since
  refine ⟨shut', ?_, ?_⟩
  · cases since with
    | passing _ _ returned =>
      exact ⟨[], [], by simpa using returned, Nat.zero_le _, by simp⟩
    | behind passed refused _ _ returned one refuses =>
      exact ⟨passed, refused, returned, one, refuses⟩
  · cases since with
    | passing before _ _ enqueued =>
      rcases enqueued with same | ⟨entry, -, grown⟩
      · exact ⟨[], by simpa using same, Nat.zero_le _⟩
      · refine ⟨[entry], grown, ?_⟩
        rw [passing, before]
        exact Nat.le_refl 1
    | behind _ _ more _ _ _ _ enqueued few => exact ⟨more, enqueued, few⟩

end Gate

/-! ## The two flags -/

/-- No step takes back that the worker met an error, or that the journal was closed. -/
theorem flags_of_step (stepped : threads.step crc32 action = .ok following) :
    (threads.degraded = true → following.degraded = true) ∧
      (threads.closed = true → following.closed = true) := by
  cases action with
  | call sequence cmd =>
    obtain ⟨-, rfl⟩ := called_of_step stepped
    exact ⟨fun set => set, fun set => set⟩
  | produce =>
    cases produces_of_produce stepped with
    | refuses | passes | sends | accepts => exact ⟨fun set => set, fun set => set⟩
  | close =>
    cases closes_of_close stepped with
    | swaps => exact ⟨fun set => set, fun _ => rfl⟩
    | passes | skips | sends | joins => exact ⟨fun set => set, fun set => set⟩
  | work =>
    cases works_of_work stepped with
    | degrades => exact ⟨fun _ => rfl, fun set => set⟩
    | awaits | receives | leaves | collects | ends | begins | flushes | stores | exits =>
      exact ⟨fun set => set, fun set => set⟩
  | write count =>
    obtain ⟨_, _, _, _, -, -, rfl⟩ := writes_of_write stepped
    exact ⟨fun set => set, fun set => set⟩
  | fail =>
    obtain ⟨-, rfl⟩ := fails_of_fail stepped
    exact ⟨fun set => set, fun set => set⟩

/-- The first flag refuses the calls that come to ask it. -/
theorem degradedGate_guards : degradedGate.Guards crc32 where
  stays set stepped := (flags_of_step stepped).1 set
  refuses {threads following} set front stepped := by
    have degraded : threads.degraded = true := set
    unfold JournalThreads.produce at stepped
    split at stepped
    case h_1 => contradiction
    case h_2 entry called =>
      rw [if_pos degraded] at stepped
      cases stepped
      exact ⟨rfl, rfl, .inr ⟨_, ⟨_, List.mem_singleton_self _, rfl⟩, rfl⟩⟩
    case h_3 entry state | h_4 entry state | h_5 entry state =>
      rw [state] at front
      contradiction

/-- So does the second, unless the first has. -/
theorem closedGate_guards : closedGate.Guards crc32 where
  stays set stepped := (flags_of_step stepped).2 set
  refuses {threads following} set front stepped := by
    have closed : threads.closed = true := set
    unfold JournalThreads.produce at stepped
    split at stepped
    case h_1 => contradiction
    case h_2 entry called =>
      split at stepped
      · cases stepped
        exact ⟨rfl, rfl, .inr ⟨_, ⟨.writerDegraded, by simp [closedGate], rfl⟩, rfl⟩⟩
      · cases stepped
        exact ⟨rfl, rfl, .inl rfl⟩
    case h_3 entry healthy =>
      rw [if_pos closed] at stepped
      cases stepped
      exact ⟨rfl, rfl, .inr ⟨_, ⟨.writerStopped, by simp [closedGate], rfl⟩, rfl⟩⟩
    case h_4 entry state | h_5 entry state =>
      rw [state] at front
      contradiction

/-! ## The worker that met an error -/

/-- A worker that met an error has left its loop. -/
def LeftOnceDegraded (threads : JournalThreads) : Prop :=
  threads.degraded = true → threads.worker = .leaving ∨ threads.worker = .exited

/-- Every step of a worker that is still there keeps it so; the others do not touch it. -/
theorem LeftOnceDegraded.step (left : LeftOnceDegraded threads)
    (stepped : threads.step crc32 action = .ok following) : LeftOnceDegraded following := by
  -- A worker that is elsewhere has met no error.
  have works : ∀ {worker}, threads.worker = worker → worker ≠ .leaving → worker ≠ .exited →
      threads.degraded ≠ true := by
    intro worker same stays here degraded
    rcases left degraded with leaving | exited
    · exact stays (same.symm.trans leaving)
    · exact here (same.symm.trans exited)
  cases action with
  | call sequence cmd =>
    obtain ⟨-, rfl⟩ := called_of_step stepped
    exact left
  | produce =>
    cases produces_of_produce stepped with
    | refuses | passes | sends | accepts => exact left
  | close =>
    cases closes_of_close stepped with
    | passes | swaps | skips | sends | joins => exact left
  | work =>
    cases works_of_work stepped with
    | awaits state | receives state | collects state | ends state | begins state | flushes state
    | stores state =>
      exact fun degraded => absurd degraded (works state (by simp) (by simp))
    | leaves | degrades => exact fun _ => .inl rfl
    | exits => exact fun _ => .inr rfl
  | write count =>
    obtain ⟨_, _, _, _, writing, -, rfl⟩ := writes_of_write stepped
    exact fun degraded => absurd degraded (works writing (by simp) (by simp))
  | fail =>
    obtain ⟨⟨_, _, _, writing⟩, rfl⟩ := fails_of_fail stepped
    exact fun degraded => absurd degraded (works writing (by simp) (by simp))

/-- From then on no step writes or makes anything durable. -/
theorem LeftOnceDegraded.unwritten (left : LeftOnceDegraded threads)
    (degraded : threads.degraded = true)
    (stepped : threads.step crc32 action = .ok following) :
    following.files = threads.files ∧ following.durable = threads.durable := by
  have left := left degraded
  cases action with
  | call sequence cmd =>
    obtain ⟨-, rfl⟩ := called_of_step stepped
    exact ⟨rfl, rfl⟩
  | produce =>
    cases produces_of_produce stepped with
    | refuses | passes | sends | accepts => exact ⟨rfl, rfl⟩
  | close =>
    cases closes_of_close stepped with
    | passes | swaps | skips | sends | joins => exact ⟨rfl, rfl⟩
  | work =>
    cases works_of_work stepped with
    | stores written =>
      rw [written] at left
      simp at left
    | awaits | receives | leaves | collects | ends | begins | flushes | degrades | exits =>
      exact ⟨rfl, rfl⟩
  | write count =>
    obtain ⟨_, _, _, _, writing, -, -⟩ := writes_of_write stepped
    rw [writing] at left
    simp at left
  | fail =>
    obtain ⟨-, rfl⟩ := fails_of_fail stepped
    exact ⟨rfl, rfl⟩

/-- The journal refuses for good. Once the worker has given up, whatever the threads still do in
whatever order, every call that had not asked by then is refused, and nothing is written or becomes
durable any more; once the journal was closed, every call that had not asked by then is refused. -/
theorem refuses_for_good (crc32 : List UInt8 → UInt32) (files : Directory) (path : String)
    (cfg : AsyncJournalConfig) (threads later : JournalThreads)
    (reached : Reaches crc32 files path cfg (fun _ _ => True) threads)
    (leads : Leads (step crc32) (fun _ _ => True) threads later) :
    (threads.degraded = true → degradedGate.Refused threads later ∧
      later.files = threads.files ∧ later.durable = threads.durable) ∧
    (threads.closed = true → closedGate.Refused threads later) := by
  have left : LeftOnceDegraded threads := by
    refine Reached.invariant (fun state initial => ?_) (fun _ _ _ left _ stepped =>
      left.step stepped) reached
    subst initial
    exact fun degraded => by contradiction
  refine ⟨fun degraded => ⟨degradedGate_guards.refused degraded leads, ?_⟩,
    fun closed => closedGate_guards.refused closed leads⟩
  have still : LeftOnceDegraded later ∧ later.degraded = true ∧ later.files = threads.files ∧
      later.durable = threads.durable := by
    induction leads with
    | refl => exact ⟨left, degraded, rfl, rfl⟩
    | tail _ next ih =>
      obtain ⟨left, degraded, files, durable⟩ := ih
      obtain ⟨action, -, stepped⟩ := next
      obtain ⟨files', durable'⟩ := left.unwritten degraded stepped
      exact ⟨left.step stepped, (flags_of_step stepped).1 degraded, files'.trans files,
        durable'.trans durable⟩
  exact still.2.2

/-- The steps of a first call, and of a second one that is about to send its record when the worker
gives up after an error of the file system. -/
def failingActions : List ThreadAction :=
  wholeCall 1 ++ [.work, .work, .work, .fail] ++ (wholeCall 2).take 3 ++ [.work]

/-- The second call ends, and a third one is made. -/
def laterActions : List ThreadAction := [.produce, .produce] ++ (wholeCall 3).take 2

/-- The file system fails while a second call is about to send its record. The queue still takes
it, and a third call is refused. -/
theorem third_call_refused : ∃ threads later : JournalThreads,
    (threads.degraded = true ∧
      later.returned.map Prod.snd = [none, none, some .writerDegraded]) ∧
    degradedGate.Refused threads later ∧ later.files = threads.files ∧
      later.durable = threads.durable := by
  let anything : JournalThreads → ThreadAction → Bool := fun _ _ => true
  obtain ⟨threads, reached, shown⟩ : ∃ threads,
      Reaches crc32Hash .empty "wal" ⟨2, 1⟩ (fun _ _ => True) threads ∧
      (threads.degraded && (checkedRun anything (step crc32Hash) laterActions threads).any
        fun later => later.returned.map Prod.snd == [none, none, some .writerDegraded]) = true :=
    Reached.exists_checkedRun anything _ (fun _ _ _ => trivial) rfl failingActions
      (by decide +kernel)
  rw [Bool.and_eq_true] at shown
  obtain ⟨degraded, goes⟩ := shown
  obtain ⟨later, goes, answers⟩ : ∃ later,
      Reached (· = threads) (step crc32Hash) (fun _ _ => True) later ∧
      (later.returned.map Prod.snd == [none, none, some .writerDegraded]) = true :=
    Reached.exists_checkedRun anything _ (fun _ _ _ => trivial) rfl laterActions goes
  have refuses := refuses_for_good crc32Hash .empty "wal" ⟨2, 1⟩ threads later reached
    goes.leads_from
  exact ⟨threads, later, ⟨degraded, beq_iff_eq.mp answers⟩, refuses.1 degraded⟩

end MatchX.Journal.JournalThreads
