import MatchX.Engine.Stops
import MatchX.Journal.Pipeline
import MatchX.Support.Bytes

/-!
# The clock and the snapshot

Every event is stamped with the number of events before it, over all calls of an engine, and the
last trade price is the price of the last fill that was reported. The snapshot of an engine holds
these two and nothing else, so whoever has read the events knows the snapshot.
-/

namespace MatchX

open MatchX.Support

/-- The event that is reported as the one with a number, counted from zero. -/
def stamp (number : Nat) (body : EventBody) : MatchEvent :=
  ⟨⟨UInt64.ofNat (number + 1), UInt64.ofNat (number + 1)⟩, body⟩

/-- The price of a fill. -/
def fillPrice : EventBody → Option UInt64
  | .fill _ _ price _ _ _ => some price
  | _ => none

/-- The price of the last fill that was reported, if any was. -/
def lastFill (bodies : List EventBody) : Option UInt64 := (bodies.filterMap fillPrice).getLast?

/-- Later reports decide which fill is the last one, if there is a fill among them. -/
theorem lastFill_append (early late : List EventBody) :
    lastFill (early ++ late) = (lastFill late).or (lastFill early) := by
  rw [lastFill, List.filterMap_append, List.getLast?_append]
  rfl

namespace MatchingEngine

variable {config : InstrumentConfig} {engine engine' site : MatchingEngine config}
  {queues : Queues} {command : Command} {order : NewOrder} {qty price : UInt64} {number : Nat}
  {past : Option UInt64} {body : EventBody}

/-- `MatchingEngine::snapshot`. -/
def snapshot (engine : MatchingEngine config) : List UInt8 :=
  bytes64 engine.sequence ++ bytes64 engine.timestampNs ++
    bytes64 (engine.lastTradePrice.getD 0)

/-- `MatchingEngine::current_sequence`. -/
def currentSequence (engine : MatchingEngine config) : UInt64 := engine.sequence

/-- The events of the call are stamped from a number on, and the last trade price is that of the
last fill of the call, or the one before it. -/
structure Clocked (number : Nat) (past : Option UInt64) (engine : MatchingEngine config) : Prop where
  /-- The events are stamped one after the other. -/
  eventBuf : engine.eventBuf = engine.bodies.mapIdx fun i => stamp (number + i)
  /-- The sequence number counts the events. -/
  sequence : engine.sequence = UInt64.ofNat (number + engine.bodies.length)
  /-- So does the clock. -/
  timestampNs : engine.timestampNs = UInt64.ofNat (number + engine.bodies.length)
  /-- The last trade price is that of the last fill. -/
  lastTradePrice : engine.lastTradePrice = (lastFill engine.bodies).or past

namespace Clocked

/-- Another event is stamped with the next number. -/
theorem stamped (clocked : Clocked number past engine) (body : EventBody) :
    (engine.emit body).eventBuf =
        (engine.emit body).bodies.mapIdx (fun i => stamp (number + i)) ∧
      (engine.emit body).sequence = UInt64.ofNat (number + (engine.emit body).bodies.length) ∧
      (engine.emit body).timestampNs = UInt64.ofNat (number + (engine.emit body).bodies.length) := by
  have next : UInt64.ofNat (number + engine.bodies.length) + 1 =
      UInt64.ofNat (number + engine.bodies.length + 1) := (UInt64.ofNat_add _ 1).symm
  have length : (engine.bodies ++ [body]).length = engine.bodies.length + 1 := by simp
  rw [emit_bodies, length, ← Nat.add_assoc, List.mapIdx_concat, ← clocked.eventBuf]
  simp only [emit, clocked.sequence, clocked.timestampNs, next, stamp, and_true]

/-- An event that is no fill is reported. -/
theorem emit (clocked : Clocked number past engine) (quiet : fillPrice body = none) :
    Clocked number past (engine.emit body) := by
  obtain ⟨eventBuf, sequence, timestampNs⟩ := clocked.stamped body
  refine ⟨eventBuf, sequence, timestampNs, ?_⟩
  rw [emit_bodies, lastFill_append]
  have none : lastFill [body] = Option.none := by simp [lastFill, quiet]
  rw [none, Option.none_or]
  exact clocked.lastTradePrice

/-- A fill is reported, and its price is the last trade price. -/
theorem filled (clocked : Clocked number past engine) (fill : fillPrice body = some price) :
    Clocked number past ((engine.emit body).traded price) := by
  obtain ⟨eventBuf, sequence, timestampNs⟩ := clocked.stamped body
  refine ⟨eventBuf, sequence, timestampNs, ?_⟩
  rw [traded_bodies, emit_bodies, lastFill_append]
  have last : lastFill [body] = some price := by simp [lastFill, fill]
  rw [last]
  rfl

/-- The clock has nothing to do with the book. -/
theorem withBook (clocked : Clocked number past engine) (book : OrderBook config.maxTicks)
    (arena : Arena) : Clocked number past (engine.withBook book arena) :=
  ⟨clocked.1, clocked.2, clocked.3, clocked.4⟩

/-- The total of a level is reported. -/
theorem emitLevel (clocked : Clocked number past engine) (side : Side) (price : UInt64) :
    Clocked number past (engine.emitLevel side price) :=
  clocked.emit rfl

/-- An iteration of a sweep is stamped. -/
theorem iterated {taker : Taker} {sweep : Sweep config}
    {flow : Flow (Sweep config) (SweepResult config)} (clocked : Clocked number past sweep.engine)
    (iteration : Iteration taker queues sweep flow) : Clocked number past (flowEngine flow) := by
  cases iteration with
  | exhausted | unmatched | newest => exact clocked
  | stale => exact clocked.withBook _ _
  | oldest | both =>
    apply emitLevel
    exact (clocked.withBook _ _).emit rfl
  | decrementAll | decrementPart =>
    apply emitLevel
    exact clocked.withBook _ _
  | fillPart =>
    apply emitLevel
    exact (clocked.withBook _ _).filled rfl
  | fillAll =>
    apply withBook
    apply emitLevel
    exact (clocked.withBook _ _).filled rfl

/-- An insertion is stamped. -/
theorem rested (clocked : Clocked number past engine)
    (rested : Rested engine queues order qty engine') : Clocked number past engine' := by
  cases rested with
  | refused => exact clocked.emit rfl
  | inserted => exact (clocked.withBook _ _).emit rfl

/-- A sweep is stamped. -/
theorem swept {taker : Taker} {result : SweepResult config} (clocked : Clocked number past engine)
    (sound : engine.Sound queues) (swept : engine.matchAgainstBook taker qty = .ok result) :
    Clocked number past result.engine := by
  obtain ⟨-, -, -, -, -, -, ended⟩ := sweep_keeps (Clocked number past)
    (fun _ _ _ _ _ held _ iteration => held.iterated iteration) rfl sound clocked swept
  exact ended

/-- A stop order is stamped. -/
theorem parked (clocked : Clocked number past engine) (order : NewOrder) :
    Clocked number past (engine.processStopLimit order) := by
  have accepted : Clocked number past (engine.emit
    (.orderAccepted order.id order.side order.price order.qty order.orderType)) := clocked.emit rfl
  unfold processStopLimit
  split
  · exact clocked.emit rfl
  · split
    · exact clocked.emit rfl
    · dsimp only
      split
      · exact ⟨accepted.1, accepted.2, accepted.3, accepted.4⟩
      · exact ⟨accepted.1, accepted.2, accepted.3, accepted.4⟩

/-- Handling an order is stamped. -/
theorem handled (clocked : Clocked number past engine) (sound : engine.Sound queues)
    (handled : Handled engine queues order engine') : Clocked number past engine' := by
  have accepted : Clocked number past (engine.accept order) := clocked.emit rfl
  cases handled with
  | rejected => exact clocked.emit rfl
  | parked _ stopped => exact stopped ▸ clocked.parked order
  | posted _ _ rested => exact accepted.rested rested
  | matched _ _ swept _ settled =>
    have ended := accepted.swept (sound.accept order) swept
    cases settled with
    | prevented => exact ended.emit rfl
    | filled => exact ended
    | rested _ _ _ rested => exact ended.rested rested
    | dropped => exact ended.emit rfl

/-- Taking a triggered stop is stamped. -/
theorem fired {start before : MatchingEngine config} (clocked : Clocked number past before)
    (fired : Fires start before site order) : Clocked number past site := by
  cases fired with
  | buy _ _ _ triggered =>
    unfold triggerBuy at triggered
    split at triggered
    · contradiction
    · split at triggered
      · contradiction
      · obtain ⟨rfl, -⟩ := Prod.mk.inj (Option.some.inj triggered)
        exact emit ⟨clocked.1, clocked.2, clocked.3, clocked.4⟩ rfl
  | sell _ _ _ _ triggered =>
    unfold triggerSell at triggered
    split at triggered
    · contradiction
    · split at triggered
      · contradiction
      · obtain ⟨rfl, -⟩ := Prod.mk.inj (Option.some.inj triggered)
        exact emit ⟨clocked.1, clocked.2, clocked.3, clocked.4⟩ rfl

end Clocked

/-- Every part of a call is stamped. -/
theorem clocked_kept (engine : MatchingEngine config) (command : Command) (number : Nat)
    (past : Option UInt64) :
    Kept engine command fun state => (∃ queues, state.Sound queues) ∧ Clocked number past state where
  cancels id after asked := by
    rintro ⟨⟨queues, sound⟩, clocked⟩ returned
    refine ⟨(sound_kept engine command).cancels id after asked ⟨queues, sound⟩ returned, ?_⟩
    cases processCancel_cases sound returned with
    | missing => exact clocked.emit rfl
    | removed =>
      apply Clocked.emitLevel
      exact (clocked.withBook _ _).emit rfl
  withdraws id newPrice newQty index site order asked := by
    rintro ⟨⟨queues, sound⟩, clocked⟩ held withdrawn
    refine ⟨(sound_kept engine command).withdraws id newPrice newQty index site order asked
      ⟨queues, sound⟩ held withdrawn, ?_⟩
    cases withdraw_cases sound held withdrawn with
    | removed =>
      apply Clocked.emitLevel
      exact (clocked.withBook _ _).emit rfl
  misses _ _ _ _ := by
    rintro ⟨⟨queues, sound⟩, clocked⟩
    exact ⟨⟨queues, sound.congr rfl rfl⟩, clocked.emit rfl⟩
  fires _ _ _ _ _ fired := by
    rintro ⟨⟨queues, sound⟩, clocked⟩
    exact ⟨⟨queues, sound.congr fired.kept.1 fired.kept.2⟩, clocked.fired fired⟩
  handles _ _ _ _ := by
    rintro ⟨⟨queues, sound⟩, clocked⟩ returned
    have handled := processNewOrder_cases sound returned
    exact ⟨handled.sound sound, clocked.handled sound handled⟩

/-- The clock between calls: as many events were reported, and the last fill had the price. -/
structure Reads (number : Nat) (past : Option UInt64) (engine : MatchingEngine config) : Prop where
  /-- The sequence number counts the events. -/
  sequence : engine.sequence = UInt64.ofNat number
  /-- So does the clock. -/
  timestampNs : engine.timestampNs = UInt64.ofNat number
  /-- The last trade price is that of the last fill. -/
  lastTradePrice : engine.lastTradePrice = past

/-- A call is stamped with the numbers after those of the calls before. -/
theorem Reads.process (reads : Reads number past engine) (sound : ∃ queues, engine.Sound queues)
    (completed : engine.process command = .ok engine') :
    (∃ queues, engine'.Sound queues) ∧
      engine'.eventBuf = engine'.bodies.mapIdx (fun i => stamp (number + i)) ∧
      Reads (number + engine'.bodies.length) ((lastFill engine'.bodies).or past) engine' := by
  obtain ⟨queues, sound⟩ := sound
  have begins : Clocked number past engine.clearEvents :=
    ⟨rfl, reads.sequence, reads.timestampNs, reads.lastTradePrice⟩
  obtain ⟨sound', clocked⟩ := (clocked_kept engine command number past).returns
    ⟨⟨queues, sound.congr rfl rfl⟩, begins⟩ completed
  exact ⟨sound', clocked.eventBuf, clocked.sequence, clocked.timestampNs, clocked.lastTradePrice⟩

/-- The calls of a run are stamped one after the other. -/
theorem Reads.replay {commands : List Command} {last : MatchingEngine config}
    {events : List (List MatchEvent)} (reads : Reads number past engine)
    (sound : ∃ queues, engine.Sound queues)
    (runs : Journal.replay engine commands = .ok (last, events)) :
    events.flatten = (events.flatten.map MatchEvent.body).mapIdx (fun i => stamp (number + i)) ∧
      Reads (number + events.flatten.length)
        ((lastFill (events.flatten.map MatchEvent.body)).or past) last := by
  induction commands generalizing engine number past events with
  | nil =>
    obtain ⟨rfl, rfl⟩ := Prod.mk.inj (Except.ok.inj runs)
    exact ⟨rfl, reads⟩
  | cons command rest ih =>
    obtain ⟨engine', completed, further⟩ := bind_ok runs
    obtain ⟨⟨last', events'⟩, runs', ends⟩ := bind_ok further
    obtain ⟨rfl, rfl⟩ := Prod.mk.inj (Except.ok.inj ends)
    obtain ⟨sound', stamped, reads'⟩ := reads.process sound completed
    obtain ⟨others, ended⟩ := ih reads' sound' runs'
    have bodies : engine'.eventBuf.map MatchEvent.body = engine'.bodies := rfl
    have length : engine'.bodies.length = engine'.eventBuf.length := List.length_map _
    constructor
    · have shifted : (fun i => stamp (number + engine'.bodies.length + i)) =
          fun i => stamp (number + (i + engine'.bodies.length)) := by
        funext i
        rw [Nat.add_assoc, Nat.add_comm i]
      rw [shifted] at others
      rw [List.flatten_cons, List.map_append, bodies, List.mapIdx_append, ← others]
      exact congrArg (· ++ events'.flatten) stamped
    · rw [List.flatten_cons, List.map_append, bodies, lastFill_append, Option.or_assoc,
        List.length_append, ← length, ← Nat.add_assoc]
      exact ended

/-- Over every run of a new engine the events are numbered one after the other from one on,
across calls, and the snapshot holds how many there were, twice, and the price of the last fill
among them. -/
theorem snapshot_of_events (config : InstrumentConfig) (capacity : UInt32)
    (commands : List Command) (last : MatchingEngine config) (events : List (List MatchEvent))
    (runs : Journal.replay (new config capacity) commands = .ok (last, events)) :
    events.flatten = (events.flatten.map MatchEvent.body).mapIdx stamp ∧
      last.currentSequence = UInt64.ofNat events.flatten.length ∧
      last.snapshot = bytes64 (UInt64.ofNat events.flatten.length) ++
        bytes64 (UInt64.ofNat events.flatten.length) ++
        bytes64 ((lastFill (events.flatten.map MatchEvent.body)).getD 0) := by
  have reads : Reads 0 none (new config capacity) := ⟨rfl, rfl, rfl⟩
  obtain ⟨stamped, ended⟩ := reads.replay ⟨_, sound_new config capacity⟩ runs
  simp only [Nat.zero_add, Option.or_none] at stamped ended
  refine ⟨stamped, ended.sequence, ?_⟩
  rw [snapshot, ended.sequence, ended.timestampNs, ended.lastTradePrice]

/-- After an ask and a bid that takes four of it at 2 there were five events. -/
theorem snapshot_of_five_events : ∃ last : MatchingEngine (smallConfig .cancelNewest),
    last.snapshot = bytes64 5 ++ bytes64 5 ++ bytes64 2 := by
  have shown : (Journal.replay (new (smallConfig .cancelNewest) 8)
      [.submit (.gtc 1 .ask 2 10), .submit (.gtc 2 .bid 3 4)]).toOption.any
        (fun outcome => outcome.2.flatten.length == 5 &&
          lastFill (outcome.2.flatten.map MatchEvent.body) == some 2) = true := by decide +kernel
  obtain ⟨⟨last, events⟩, runs, counts⟩ := (Option.any_eq_true _ _).mp shown
  obtain ⟨-, -, snapshot⟩ := snapshot_of_events _ _ _ last events (ok_of_toOption runs)
  simp only [Bool.and_eq_true, beq_iff_eq] at counts
  rw [counts.1, counts.2] at snapshot
  exact ⟨last, snapshot⟩

end MatchingEngine

end MatchX
