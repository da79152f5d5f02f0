import MatchX.Engine.Rejection

/-!
# What the engine does not read

The engine writes its clocks and its event buffer and never reads them. `relog` moves an engine to
other clocks and puts events in front of its buffer; every part of a call commutes with it. So two
engines that agree on what they read do the same and report the same from there on.
-/

namespace MatchX

open MatchX.Support

/-- Another past of an engine: how much later its clocks are, and the events before its own. -/
structure Past where
  /-- How many sequence numbers later. -/
  sequence : UInt64
  /-- How much later in time. -/
  timestampNs : UInt64
  /-- The events before. -/
  events : List MatchEvent

/-- An event at later clocks. -/
def Past.shift (past : Past) (event : MatchEvent) : MatchEvent :=
  ⟨⟨event.info.sequence + past.sequence, event.info.timestampNs + past.timestampNs⟩, event.body⟩

namespace MatchingEngine

variable {config : InstrumentConfig}

/-- The engine with another past. -/
def relog (past : Past) (engine : MatchingEngine config) : MatchingEngine config :=
  { engine with
    sequence := engine.sequence + past.sequence
    timestampNs := engine.timestampNs + past.timestampNs
    eventBuf := past.events ++ engine.eventBuf.map past.shift }

/-- The sweep with another past. -/
def Sweep.relog (past : Past) (sweep : Sweep config) : Sweep config :=
  ⟨sweep.engine.relog past, sweep.remaining⟩

/-- The result of a sweep with another past. -/
def SweepResult.relog (past : Past) (result : SweepResult config) : SweepResult config :=
  ⟨result.engine.relog past, result.remaining, result.cancelIncoming⟩

section Relog

variable (past : Past) {engine : MatchingEngine config} {order : NewOrder} {taker : Taker} {body : EventBody}
  {index : ArenaIndex} {side : Side} {price qty lastPrice : UInt64} {sweep : Sweep config}
  {maker : Order} {result : SweepResult config} {book : OrderBook config.maxTicks} {arena : Arena}
  {trigger : MatchingEngine config → Option (MatchingEngine config × NewOrder)}

/-- The reports with another past. -/
theorem relog_bodies :
    (engine.relog past).bodies = past.events.map MatchEvent.body ++ engine.bodies := by
  simp [bodies, relog, Past.shift]

/-- An emission with another past. -/
theorem emit_relog : (engine.relog past).emit body = (engine.emit body).relog past := by
  have later : ∀ clock more : UInt64, clock + more + 1 = clock + 1 + more := fun clock more => by
    rw [UInt64.add_assoc, UInt64.add_comm more, ← UInt64.add_assoc]
  simp [relog, emit, Past.shift, later]

/-- Another book with another past. -/
theorem withBook_relog : (engine.relog past).withBook book arena =
    (engine.withBook book arena).relog past := rfl

/-- A trade with another past. -/
theorem traded_relog : (engine.relog past).traded price = (engine.traded price).relog past := rfl

/-- The total of a level with another past. -/
theorem emitLevel_relog :
    (engine.relog past).emitLevel side price = (engine.emitLevel side price).relog past :=
  emit_relog past

/-- Removing a maker with another past. -/
theorem removeMaker_relog :
    (engine.relog past).removeMaker index = (engine.removeMaker index).map (relog past) := by
  unfold removeMaker
  change (engine.book.removeOrder engine.arena index >>= _) = _
  cases engine.book.removeOrder engine.arena index <;> rfl

/-- Preventing a self-trade with another past. -/
theorem preventSelfTrade_relog :
    preventSelfTrade (sweep.relog past) price index maker =
      (preventSelfTrade sweep price index maker).map
        (Flow.map (Sweep.relog past) (SweepResult.relog past)) := by
  unfold preventSelfTrade
  cases config.stpMode with
  | cancelNewest => rfl
  | cancelOldest =>
    refine follows_bind (removeMaker_relog past) fun engine _ => ?_
    simp only [emit_relog, emitLevel_relog]
    rfl
  | cancelBoth =>
    refine follows_bind (removeMaker_relog past) fun engine _ => ?_
    simp only [emit_relog, emitLevel_relog]
    rfl
  | decrementAndCancel =>
    simp only [Sweep.relog, removeMaker_relog]
    split
    · refine follows_bind rfl fun engine _ => ?_
      simp only [emitLevel_relog]
      rfl
    · refine follows_second fun reduced _ => ?_
      have moved := @emitLevel_relog _ past (sweep.engine.withBook reduced.1 reduced.2) maker.side
        price
      exact congrArg (fun engine : MatchingEngine config => Except.ok (Flow.done
        (⟨engine, sweep.remaining - min sweep.remaining maker.remaining, true⟩ :
          SweepResult config))) moved

/-- The end of a fill: the maker leaves the book when nothing remains of it. -/
def retire (engine : MatchingEngine config) (index : ArenaIndex) (filled : Order) :
    Except Fault (MatchingEngine config) :=
  if filled.remaining = 0 then engine.removeMaker index else pure engine

/-- The fill of a maker, with what becomes of the engine in turn. -/
theorem fillMaker_eq : fillMaker taker sweep price index maker =
    (sweep.engine.arena.modify index fun order =>
      { order with filled := order.filled + min sweep.remaining maker.matchableQty }) >>= fun arena =>
    arena.get index >>= fun filled =>
    retire (((((sweep.engine.withBook (sweep.engine.book.setLevel taker.side.opposite price
      { sweep.engine.book.level taker.side.opposite price with
        totalQuantity := (sweep.engine.book.level taker.side.opposite price).totalQuantity -
          min sweep.remaining maker.matchableQty }) arena).emit (.fill maker.id taker.id price
            (min sweep.remaining maker.matchableQty) filled.remaining
            (sweep.remaining - min sweep.remaining maker.matchableQty))).traded price).emitLevel
              maker.side price)) index filled >>= fun engine =>
    pure ⟨engine, sweep.remaining - min sweep.remaining maker.matchableQty⟩ := by
  unfold fillMaker retire
  refine bind_congr fun arena => bind_congr fun filled => ?_
  by_cases spent : filled.remaining = 0
  · simp only [if_pos spent]
    rfl
  · simp only [if_neg spent]
    rfl

/-- Filling a maker with another past. -/
theorem fillMaker_relog :
    fillMaker taker (sweep.relog past) price index maker =
      (fillMaker taker sweep price index maker).map (Sweep.relog past) := by
  rw [fillMaker_eq, fillMaker_eq]
  refine follows_second fun arena _ => follows_second fun filled _ => ?_
  refine @follows_bind _ _ _ _ _ _ _ _ _ (relog past) _ ?_ fun engine _ => rfl
  simp only [Sweep.relog, withBook_relog, emit_relog, traded_relog, emitLevel_relog, retire]
  split
  · exact removeMaker_relog past
  · rfl

/-- An iteration of the matching loop with another past. -/
theorem matchStep_relog :
    matchStep taker (sweep.relog past) = (matchStep taker sweep).map
      (Flow.map (Sweep.relog past) (SweepResult.relog past)) := by
  unfold matchStep
  dsimp only
  change (if sweep.remaining = 0 then _ else _) = _
  by_cases nothing : sweep.remaining = 0
  · rw [if_pos nothing, if_pos nothing]
    rfl
  rw [if_neg nothing, if_neg nothing]
  have top : (sweep.relog past).engine.bestOpposing taker.side =
      sweep.engine.bestOpposing taker.side := rfl
  rw [top]
  cases sweep.engine.bestOpposing taker.side with
  | none => rfl
  | some restingPrice =>
    dsimp only
    cases isPriceAcceptable taker.side taker.price restingPrice with
    | false => rfl
    | true =>
      refine follows_second fun level _ => ?_
      cases level.head with
      | none => rfl
      | some makerIdx =>
        refine follows_second fun maker _ => ?_
        by_cases spent : maker.remaining = 0
        · rw [if_pos spent, if_pos spent]
          exact follows_bind (removeMaker_relog past) fun engine _ => rfl
        rw [if_neg spent, if_neg spent]
        cases sameGroup taker maker with
        | true => exact preventSelfTrade_relog past
        | false => exact follows_bind (fillMaker_relog past) fun filled _ => rfl

/-- A sweep with another past. -/
theorem matchAgainstBook_relog :
    (engine.relog past).matchAgainstBook taker qty =
      (engine.matchAgainstBook taker qty).map (SweepResult.relog past) :=
  (loop_map (fun sweep => (@matchStep_relog _ past taker sweep).symm)
    (engine.arena.len.toNat + qty.toNat + 1) ⟨engine, qty⟩).symm

/-- Resting an order with another past. -/
theorem restOrder_relog :
    (engine.relog past).restOrder order qty = (engine.restOrder order qty).map (relog past) := by
  unfold restOrder
  refine follows_second fun inserted _ => ?_
  exact congrArg Except.ok (@emit_relog _ past (engine.withBook inserted.2.1 inserted.2.2) _)

/-- Handling a post-only order with another past. -/
theorem processPostOnly_relog :
    (engine.relog past).processPostOnly order =
      (engine.processPostOnly order).map (relog past) := by
  rw [processPostOnly_eq, processPostOnly_eq]
  change (if (engine.book.best _).any _ = true then _ else _) = _
  split
  · exact congrArg Except.ok (emit_relog past)
  · rw [accept, emit_relog]
    exact restOrder_relog past

/-- Handling a stop-limit order with another past. -/
theorem processStopLimit_relog :
    (engine.relog past).processStopLimit order = (engine.processStopLimit order).relog past := by
  unfold processStopLimit
  split
  · exact emit_relog past
  · cases order.stopPrice with
    | none => exact emit_relog past
    | some stopPx =>
      cases order.side <;> simp only [emit_relog] <;> rfl

/-- Settling a remainder with another past. -/
theorem settleRemainder_relog :
    settleRemainder (result.relog past) order = (settleRemainder result order).map (relog past) := by
  obtain ⟨engine, remaining, cancelIncoming⟩ := result
  change settleRemainder ⟨engine.relog past, remaining, cancelIncoming⟩ order = _
  unfold settleRemainder
  dsimp only
  cases cancelIncoming with
  | true => exact congrArg Except.ok (emit_relog past)
  | false =>
    by_cases nothing : remaining = 0
    · simp only [nothing, if_true]
      rfl
    simp only [nothing, if_false, Bool.false_eq_true]
    split
    · exact restOrder_relog past
    · exact restOrder_relog past
    · exact congrArg Except.ok (emit_relog past)
    · exact congrArg Except.ok (emit_relog past)
    · exact congrArg Except.ok (emit_relog past)
    · rfl

/-- Handling an order with another past. -/
theorem processNewOrder_relog :
    (engine.relog past).processNewOrder order =
      (engine.processNewOrder order).map (relog past) := by
  unfold processNewOrder
  split
  · exact processPostOnly_relog past
  · exact congrArg Except.ok (processStopLimit_relog past)
  · refine follows_second fun verdict _ => ?_
    cases verdict with
    | some reason => exact congrArg Except.ok (emit_relog past)
    | none =>
      dsimp only
      rw [emit_relog, matchAgainstBook_relog]
      exact follows_bind rfl fun result _ => settleRemainder_relog past

/-- Triggering a buy stop with another past. -/
theorem triggerBuy_relog : triggerBuy lastPrice (engine.relog past) =
    (triggerBuy lastPrice engine).map (Prod.map (relog past) id) := by
  unfold triggerBuy
  have same : (engine.relog past).stopBids = engine.stopBids := rfl
  rw [same]
  cases stops : engine.stopBids with
  | nil => rfl
  | cons first rest =>
    dsimp only
    split
    · rfl
    · exact congrArg (fun engine => some (engine, first.2.order))
        (@emit_relog _ past { engine with stopBids := rest } _)

/-- Triggering a sell stop with another past. -/
theorem triggerSell_relog : triggerSell lastPrice (engine.relog past) =
    (triggerSell lastPrice engine).map (Prod.map (relog past) id) := by
  unfold triggerSell
  have same : (engine.relog past).stopAsks = engine.stopAsks := rfl
  rw [same]
  cases stops : engine.stopAsks with
  | nil => rfl
  | cons first rest =>
    dsimp only
    split
    · rfl
    · exact congrArg (fun engine => some (engine, first.2.order))
        (@emit_relog _ past { engine with stopAsks := rest } _)

/-- Firing a stop with another past. -/
theorem fireStop_relog
    (triggers : ∀ engine, trigger (engine.relog past) =
      (trigger engine).map (Prod.map (relog past) id)) :
    fireStop trigger (engine.relog past) =
      (fireStop trigger engine).map (Flow.map (relog past) (relog past)) := by
  unfold fireStop
  rw [triggers]
  cases trigger engine with
  | none => rfl
  | some fired => exact follows_bind (processNewOrder_relog past) fun after _ => rfl

/-- Draining the buy stops with another past. -/
theorem drainBuys_relog : drainBuys lastPrice (engine.relog past) =
    (drainBuys lastPrice engine).map (relog past) :=
  (loop_map (fun _ => (fireStop_relog past fun _ => triggerBuy_relog past).symm) _ _).symm

/-- Draining the sell stops with another past. -/
theorem drainSells_relog : drainSells lastPrice (engine.relog past) =
    (drainSells lastPrice engine).map (relog past) :=
  (loop_map (fun _ => (fireStop_relog past fun _ => triggerSell_relog past).symm) _ _).symm

/-- A pass with another past. -/
theorem drainPass_relog : drainPass (engine.relog past) =
    (drainPass engine).map (Flow.map (relog past) (relog past)) := by
  unfold drainPass
  have same : (engine.relog past).lastTradePrice = engine.lastTradePrice := rfl
  rw [same]
  cases engine.lastTradePrice with
  | none => rfl
  | some lastPrice =>
    refine follows_bind (drainBuys_relog past) fun bought _ => ?_
    refine follows_bind (drainSells_relog past) fun sold _ => ?_
    change (if sold.lastTradePrice = some lastPrice then _ else _) = _
    split <;> rfl

/-- Draining the stops with another past. -/
theorem drainStopTriggers_relog : (engine.relog past).drainStopTriggers =
    engine.drainStopTriggers.map (relog past) :=
  (loop_map (fun _ => (drainPass_relog past).symm) _ _).symm

end Relog

/-! ## Engines that agree on what they read -/

/-- Two engines agree on all but their clocks and their event buffers. -/
structure Alike (engine other : MatchingEngine config) : Prop where
  /-- Their books agree. -/
  book : other.book = engine.book
  /-- Their arenas agree. -/
  arena : other.arena = engine.arena
  /-- Their buy stops agree. -/
  stopBids : other.stopBids = engine.stopBids
  /-- Their sell stops agree. -/
  stopAsks : other.stopAsks = engine.stopAsks
  /-- Their last trade prices agree. -/
  lastTradePrice : other.lastTradePrice = engine.lastTradePrice

/-- The past of an engine. -/
def past (engine : MatchingEngine config) : Past :=
  ⟨engine.sequence, engine.timestampNs, engine.eventBuf⟩

/-- The engine without its past. -/
def bare (engine : MatchingEngine config) : MatchingEngine config :=
  { engine with sequence := 0, timestampNs := 0, eventBuf := [] }

/-- An engine is the one without its past, with it. -/
theorem relog_bare (engine : MatchingEngine config) : engine.bare.relog engine.past = engine := by
  simp [relog, bare, past]

/-- Engines that agree on what they read are one without their pasts. -/
theorem Alike.bare {engine other : MatchingEngine config} (alike : Alike engine other) :
    other.bare = engine.bare := by
  simp [MatchingEngine.bare, alike.book, alike.arena, alike.stopBids, alike.stopAsks,
    alike.lastTradePrice]

/-- Engines that agree on what they read do the same and report the same, by a computation that
commutes with their pasts. -/
theorem Alike.follows {compute : MatchingEngine config → Except Fault (MatchingEngine config)}
    (commutes : ∀ past engine, compute (engine.relog past) = (compute engine).map (relog past))
    {engine other after : MatchingEngine config} (alike : Alike engine other)
    (returned : compute engine = .ok after) :
    ∃ after', compute other = .ok after' ∧ Alike after after' ∧
      emittedSince engine after = emittedSince other after' := by
  rw [← relog_bare engine, commutes] at returned
  rw [← relog_bare other, commutes, alike.bare]
  cases computed : compute engine.bare with
  | error fault =>
    rw [computed] at returned
    contradiction
  | ok result =>
    rw [computed] at returned
    obtain rfl := Except.ok.inj returned
    refine ⟨_, rfl, ⟨rfl, rfl, rfl, rfl, rfl⟩, ?_⟩
    have since : ∀ start : MatchingEngine config,
        emittedSince start (result.relog start.past) = result.bodies := fun start =>
      emittedSince_eq (relog_bodies start.past)
    rw [← alike.bare, relog_bare, since, since]

/-- Engines that agree on what they read handle an order alike. -/
theorem Alike.processNewOrder {engine other after : MatchingEngine config} {order : NewOrder}
    (alike : Alike engine other) (returned : engine.processNewOrder order = .ok after) :
    ∃ after', other.processNewOrder order = .ok after' ∧ Alike after after' ∧
      emittedSince engine after = emittedSince other after' :=
  @Alike.follows _ (fun engine => engine.processNewOrder order)
    (fun past _ => processNewOrder_relog past) _ _ _ alike returned

/-- Engines that agree on what they read drain their stops alike. -/
theorem Alike.drainStopTriggers {engine other after : MatchingEngine config}
    (alike : Alike engine other) (returned : engine.drainStopTriggers = .ok after) :
    ∃ after', other.drainStopTriggers = .ok after' ∧ Alike after after' ∧
      emittedSince engine after = emittedSince other after' :=
  alike.follows (fun past _ => drainStopTriggers_relog past) returned

end MatchingEngine

end MatchX
