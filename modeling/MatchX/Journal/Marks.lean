import MatchX.Journal.Threads

/-!
# The accepted and the durable mark

The appending thread stores the accepted sequence number after it has put the record into the
queue, and the worker stores the durable one after it has written the record. In between the worker
may run, so the durable mark can get ahead of the accepted one. It does so exactly when the worker
stores the number of a record whose call has not stored it yet.
-/

namespace MatchX.Journal

open Support

namespace JournalThreads

variable {crc32 : List UInt8 → UInt32} {threads following : JournalThreads}
  {original : List UInt8} {done held behind : List JournalEntry} {action : ThreadAction}

/-- A call has a sequence number above those put into the queue before. -/
def Rises (threads : JournalThreads) : ThreadAction → Prop
  | .call sequence _ => ∀ entry ∈ threads.enqueued, entry.sequence < sequence
  | .produce | .close | .work | .write _ | .fail => True

instance (threads : JournalThreads) (action : ThreadAction) : Decidable (Rises threads action) :=
  match action with
  | .call sequence _ => inferInstanceAs (Decidable
      (∀ entry ∈ threads.enqueued, entry.sequence < sequence))
  | .produce | .close | .work | .write _ | .fail => isTrue trivial

/-- The worker is about to store the number of a record, other than 0, and the call of that record
has not stored it yet. -/
def storesEarly (threads : JournalThreads) (action : ThreadAction) : Bool :=
  match action, threads.worker, threads.producer with
  | .work, .written lastSequence _, .sent entry =>
    entry.sequence == lastSequence && lastSequence != 0
  | _, _, _ => false

/-- What a run of rising calls has accepted. -/
structure Marked (threads : JournalThreads) : Prop where
  /-- The accepted sequence number is that of the last call that returned `Ok`. -/
  accepted : threads.accepted = lastSequence 0 threads.acknowledged
  /-- The sequence numbers in the queue are in ascending order. -/
  ascending : threads.enqueued.Pairwise fun first second => first.sequence < second.sequence
  /-- The next one is larger. -/
  larger : ∀ entry, threads.entering = some entry →
    ∀ before ∈ threads.enqueued, before.sequence < entry.sequence

/-- The last of ascending numbers is no smaller than any of them. -/
theorem le_lastSequence {entries : List JournalEntry} {entry : JournalEntry} (before : UInt64)
    (ascending : entries.Pairwise fun first second => first.sequence < second.sequence)
    (among : entry ∈ entries) : entry.sequence ≤ lastSequence before entries := by
  induction entries generalizing before with
  | nil => contradiction
  | cons first rest ih =>
    obtain ⟨above, others⟩ := List.pairwise_cons.mp ascending
    rw [lastSequence_cons]
    rcases List.mem_cons.mp among with rfl | later
    · obtain last | ⟨other, inside, last⟩ := lastSequence_mem entry.sequence rest
      · exact UInt64.le_of_eq last.symm
      · exact last ▸ UInt64.le_of_lt (above other inside)
    · exact ih first.sequence others later

/-- A step stores the accepted number of a call that was about to return, or leaves the accepted
number and the calls that have returned `Ok` alone. -/
theorem accepted_of_step (stepped : threads.step crc32 action = .ok following) :
    following.accepted = threads.accepted ∧ following.acknowledged = threads.acknowledged ∨
    ∃ entry, threads.producer = .sent entry ∧ following.accepted = entry.sequence ∧
      following.acknowledged = threads.acknowledged ++ [entry] := by
  have apart : action.appending = false → following.accepted = threads.accepted ∧
      following.acknowledged = threads.acknowledged := by
    intro other
    obtain ⟨-, -, returned, accepted, -⟩ := apart_of_step other stepped
    have acknowledged : following.acknowledged = threads.acknowledged := by
      unfold JournalThreads.acknowledged
      rw [returned]
    exact ⟨accepted, acknowledged⟩
  cases action with
  | call sequence cmd =>
    obtain ⟨-, rfl⟩ := called_of_step stepped
    exact .inl ⟨rfl, rfl⟩
  | produce =>
    cases produces_of_produce stepped with
    | refuses enters error =>
      refine .inl ⟨rfl, ?_⟩
      dsimp only [answer, acknowledged]
      rw [List.filterMap_append]
      exact List.append_nil _
    | passes | sends => exact .inl ⟨rfl, rfl⟩
    | @accepts entry sent =>
      refine .inr ⟨entry, sent, rfl, ?_⟩
      dsimp only [answer, acknowledged]
      rw [List.filterMap_append]
      rfl
  | close | work | write count | fail => exact .inl (apart rfl)

/-- Every step keeps what a run of rising calls has accepted. -/
theorem Marked.step (marked : Marked threads) (rises : Rises threads action)
    (stepped : threads.step crc32 action = .ok following) : Marked following := by
  obtain ⟨accepted, ascending, larger⟩ := marked
  have accepted' : following.accepted = lastSequence 0 following.acknowledged := by
    obtain ⟨same, others⟩ | ⟨entry, -, stored, grown⟩ := accepted_of_step stepped
    · rw [same, others, accepted]
    · rw [stored, grown, lastSequence_append]
      rfl
  obtain ⟨same, enters⟩ | ⟨entry, entered, grown, left⟩ := enters_of_step stepped
  · refine ⟨accepted', same ▸ ascending, fun entry entered => ?_⟩
    rw [same]
    obtain before | rfl := enters entry entered
    · exact larger entry before
    · exact rises
  · refine ⟨accepted', ?_, ?_⟩
    · rw [grown]
      exact ascending_snoc ascending (larger entry entered)
    · rw [left]
      rintro entry ⟨⟩

/-- What is about to be stored as accepted is above what has been accepted. -/
theorem Marked.lt_of_sent (marked : Marked threads) (answers : Answers threads)
    {entry : JournalEntry} (sent : threads.producer = .sent entry) :
    ∀ before ∈ threads.acknowledged, before.sequence < entry.sequence := by
  have split := answers.answered
  rw [unanswered, sent] at split
  have ascending := split ▸ marked.ascending
  exact fun before among =>
    (List.pairwise_append.mp ascending).2.2 before among entry (List.mem_singleton_self entry)

/-- A step never lowers the accepted mark. -/
theorem Marked.accepted_le (marked : Marked threads) (answers : Answers threads)
    (stepped : threads.step crc32 action = .ok following) :
    threads.accepted ≤ following.accepted := by
  obtain ⟨same, -⟩ | ⟨entry, sent, stored, -⟩ := accepted_of_step stepped
  · exact UInt64.le_of_eq same.symm
  rw [stored, marked.accepted]
  obtain none | ⟨before, among, last⟩ := lastSequence_mem 0 threads.acknowledged
  · rw [none]
    exact UInt64.zero_le
  · rw [← last]
    exact UInt64.le_of_lt (marked.lt_of_sent answers sent before among)

/-- The number that the worker is about to store is at most the accepted mark, unless the call of
its record has not stored it yet. -/
theorem Accounts.written_le_iff {last : UInt64} {shouldExit : Bool}
    (accounts : Accounts crc32 original threads done held behind) (answers : Answers threads)
    (marked : Marked threads) (written : threads.worker = .written last shouldExit) :
    last ≤ threads.accepted ↔ threads.storesEarly .work = false := by
  have worker := accounts.worker
  rw [written] at worker
  -- The number is that of a record that was put into the queue.
  obtain ⟨entry, among, number⟩ : ∃ entry ∈ threads.enqueued, entry.sequence = last := by
    obtain none | ⟨entry, among, same⟩ := lastSequence_mem (last + 1) held
    · rw [worker.2] at none
      exact absurd none (by simp)
    · refine ⟨entry, ?_, same.trans (worker.2 _)⟩
      rw [accounts.split]
      exact List.mem_append_right _ (List.mem_append_left _ among)
  have early : ∀ sent, threads.producer = .sent sent →
      (threads.storesEarly .work = true ↔ sent.sequence = last ∧ last ≠ 0) := by
    intro sent state
    simp [storesEarly, written, state]
  have split := answers.answered
  have known : entry ∈ threads.acknowledged → last ≤ threads.accepted := by
    intro inside
    have sublist : threads.acknowledged.Sublist threads.enqueued :=
      split ▸ List.sublist_append_left ..
    rw [marked.accepted, ← number]
    exact le_lastSequence 0 (marked.ascending.sublist sublist) inside
  cases state : threads.producer with
  | sent sent =>
    rw [← Bool.not_eq_true, early sent state]
    have below := marked.lt_of_sent answers state
    constructor
    · rintro most ⟨rfl, positive⟩
      rw [marked.accepted] at most
      obtain none | ⟨before, inside, same⟩ := lastSequence_mem 0 threads.acknowledged
      · rw [none] at most
        exact positive (UInt64.le_antisymm most UInt64.zero_le)
      · rw [← same] at most
        exact UInt64.lt_irrefl _ (UInt64.lt_of_lt_of_le (below before inside) most)
    · intro late
      by_cases zero : last = 0
      · rw [zero]
        exact UInt64.zero_le
      · refine known ?_
        rw [split, unanswered, state] at among
        refine (List.mem_append.mp among).resolve_right fun same => late ⟨?_, zero⟩
        rw [← List.mem_singleton.mp same, number]
  | idle | called | healthy | opened =>
    have quiet : threads.storesEarly .work = false := by simp [storesEarly, written, state]
    rw [split, unanswered, state, List.append_nil] at among
    exact iff_of_true (known among) quiet

/-- Where the durable mark is not ahead, a step gets it ahead exactly when it stores early. -/
theorem Accounts.durable_le_accepted_iff
    (accounts : Accounts crc32 original threads done held behind) (answers : Answers threads)
    (marked : Marked threads) (ordered : threads.durable ≤ threads.accepted)
    (stepped : threads.step crc32 action = .ok following) :
    following.durable ≤ following.accepted ↔ threads.storesEarly action = false := by
  by_cases stores : action = .work ∧ ∃ last shouldExit, threads.worker = .written last shouldExit
  · obtain ⟨rfl, last, shouldExit, written⟩ := stores
    have worked := stepped
    simp only [JournalThreads.step, JournalThreads.work, written] at worked
    cases worked
    exact accounts.written_le_iff answers marked written
  · have same : following.durable = threads.durable := by
      refine (durable_of_step stepped).resolve_right ?_
      rintro ⟨isWork, shouldExit, written⟩
      exact stores ⟨isWork, _, shouldExit, written⟩
    have quiet : threads.storesEarly action = false := by
      unfold storesEarly
      split
      · rename_i written _
        exact absurd ⟨rfl, _, _, written⟩ stores
      · rfl
    rw [same]
    exact iff_of_true (UInt64.le_trans ordered (marked.accepted_le answers stepped)) quiet

/-- What holds at every moment of a run of rising calls. -/
structure Follows (crc32 : List UInt8 → UInt32) (original : List UInt8) (threads : JournalThreads) :
    Prop where
  /-- The records are accounted for. -/
  accounts : ∃ done held behind, Accounts crc32 original threads done held behind
  /-- They are those of the calls that return `Ok`. -/
  answers : Answers threads
  /-- The accepted number is that of the last of them. -/
  marked : Marked threads

/-- In a run of rising calls the durable mark is at no moment ahead of the accepted one, if and only
if the worker never stores the number of a record whose call has not stored it yet. -/
theorem durable_le_accepted_iff_none_early (crc32 : List UInt8 → UInt32) (files : Directory)
    (path : String) (cfg : AsyncJournalConfig) (calls : List (JournalThreads × ThreadAction))
    (last : JournalThreads)
    (trace : Trace (· = openThreads files path cfg) (step crc32) calls last)
    (rises : ∀ call ∈ calls, Rises call.1 call.2) :
    (∀ threads ∈ last :: calls.map Prod.fst, threads.durable ≤ threads.accepted) ↔
      ∀ call ∈ calls, call.1.storesEarly call.2 = false := by
  have both : Follows crc32 (openThreads files path cfg).bytes last ∧
      ((∀ threads ∈ last :: calls.map Prod.fst, threads.durable ≤ threads.accepted) ↔
        ∀ call ∈ calls, call.1.storesEarly call.2 = false) := by
    induction trace with
    | start begins =>
      subst begins
      have marked : Marked (openThreads files path cfg) := ⟨rfl, .nil, by rintro entry ⟨⟩⟩
      exact ⟨⟨⟨_, _, _, accounts_open files path cfg⟩, ⟨rfl, mem_openAppend files path⟩, marked⟩,
        by simp [openThreads]⟩
    | @step calls threads following action trace completed ih =>
      obtain ⟨⟨⟨done, held, behind, accounts⟩, answers, marked⟩, earlier⟩ :=
        ih fun call member => rises call (List.mem_cons_of_mem _ member)
      refine ⟨⟨accounts.step completed, answers.step completed,
        marked.step (rises _ List.mem_cons_self) completed⟩, ?_⟩
      rw [List.forall_mem_cons, List.forall_mem_cons, List.map_cons, earlier]
      constructor
      · rintro ⟨now, before⟩
        have ordered := earlier.mpr before threads List.mem_cons_self
        exact ⟨(accounts.durable_le_accepted_iff answers marked ordered completed).mp now, before⟩
      · rintro ⟨late, before⟩
        have ordered := earlier.mpr before threads List.mem_cons_self
        exact ⟨(accounts.durable_le_accepted_iff answers marked ordered completed).mpr late, before⟩
  exact both.2

/-- Two records are written one after the other, each after its call has returned. -/
theorem none_early_of_two_records :
    ∃ calls last, Trace (· = openThreads .empty "wal" ⟨2, 1⟩) (step crc32Hash) calls last ∧
      (∀ threads ∈ last :: calls.map Prod.fst, threads.durable ≤ threads.accepted) ∧
      decide (last.durable = 2 ∧ last.accepted = 2) = true := by
  obtain ⟨calls, last, trace, passes, ends⟩ : ∃ calls last,
      Trace (· = openThreads .empty "wal" ⟨2, 1⟩) (step crc32Hash) calls last ∧
      (∀ call ∈ calls, (decide (Rises call.1 call.2) && !call.1.storesEarly call.2) = true) ∧
      decide (last.durable = 2 ∧ last.accepted = 2) = true :=
    Trace.exists_checkedRun
      (fun threads action => decide (Rises threads action) && !threads.storesEarly action) _ rfl
      (wholeCall 1 ++ [.work, .work, .work, .write 25, .work, .work] ++
        wholeCall 2 ++ [.work, .work, .work, .write 25, .work, .work]) (by decide +kernel)
  simp only [Bool.and_eq_true, decide_eq_true_eq, Bool.not_eq_true'] at passes
  have ordered := (durable_le_accepted_iff_none_early crc32Hash .empty "wal" ⟨2, 1⟩ calls last trace
    fun call member => (passes call member).1).mpr fun call member => (passes call member).2
  exact ⟨calls, last, trace, ordered, ends⟩

/-- The worker receives the first record, writes it and stores its number while the call that sent
it has not stored it: the durable mark is 1 and the accepted one 0. -/
theorem durable_ahead_of_accepted :
    ¬∀ calls last, Trace (· = openThreads .empty "wal" ⟨2, 1⟩) (step crc32Hash) calls last →
      (∀ call ∈ calls, Rises call.1 call.2) →
      ∀ threads ∈ last :: calls.map Prod.fst, threads.durable ≤ threads.accepted := by
  intro always
  obtain ⟨calls, last, trace, rises, ends⟩ : ∃ calls last,
      Trace (· = openThreads .empty "wal" ⟨2, 1⟩) (step crc32Hash) calls last ∧
      (∀ call ∈ calls, decide (Rises call.1 call.2) = true) ∧
      decide (last.durable = 1 ∧ last.accepted = 0) = true :=
    Trace.exists_checkedRun (fun threads action => decide (Rises threads action)) _ rfl
      ((wholeCall 1).take 4 ++ [.work, .work, .work, .write 25, .work, .work])
      (by decide +kernel)
  obtain ⟨durable, accepted⟩ := of_decide_eq_true ends
  have ordered := always calls last trace (fun call member => of_decide_eq_true (rises call member))
    last List.mem_cons_self
  rw [durable, accepted] at ordered
  exact absurd ordered (by decide)

end JournalThreads

end MatchX.Journal
