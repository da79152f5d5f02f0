import MatchX.Engine.FillTotals
import MatchX.Engine.Termination
import MatchX.Engine.Relog

/-!
# The matching loop without its reports

A `Tally` is what the matching loop reads and changes for a taker without a self-trade group, and
the totals of its fills in place of its reports. The matching loop follows `tallyStep` whoever the
taker is and whatever the engine has reported before.
-/

namespace MatchX

open MatchX.Support

namespace MatchingEngine

/-- The state of the matching loop, with the totals of the fills in place of the reports. -/
structure Tally (config : InstrumentConfig) where
  /-- The book. -/
  book : OrderBook config.maxTicks
  /-- The orders of the book. -/
  arena : Arena
  /-- Price of the last fill. -/
  lastTradePrice : Option UInt64
  /-- The taker's remaining quantity. -/
  remaining : UInt64
  /-- The totals of the fills so far. -/
  totals : List FillEntry

namespace Tally

variable {config : InstrumentConfig}

/-- Remove a maker from the book. -/
def removeMaker (tally : Tally config) (index : ArenaIndex) : Except Fault (Tally config) := do
  let (_, book, arena) ← tally.book.removeOrder tally.arena index
  return { tally with book, arena }

/-- The level opposite to a taker at a price that must exist. -/
def opposingLevel (tally : Tally config) (side : Side) (price : UInt64) :
    Except Fault PriceLevel :=
  match side with
  | .bid => tally.book.getAskLevel price
  | .ask => tally.book.getBidLevel price

/-- The price, the slot and the order of the maker in front, if the taker accepts its price. -/
def front (side : Side) (price : UInt64) (tally : Tally config) :
    Except Fault (Option (UInt64 × ArenaIndex × Order)) := do
  let some restingPrice := tally.book.best side.opposite | return none
  if !isPriceAcceptable side price restingPrice then return none
  let level ← tally.opposingLevel side restingPrice
  let some makerIdx := level.head | return none
  let maker ← tally.arena.get makerIdx
  return some (restingPrice, makerIdx, maker)

/-- The tally once a quantity of a maker is filled, with the orders as they are then. -/
def took (side : Side) (tally : Tally config) (restingPrice : UInt64) (maker : Order)
    (fillQty : UInt64) (arena : Arena) : Tally config :=
  let level := tally.book.level side.opposite restingPrice
  { book := tally.book.setLevel side.opposite restingPrice
      { level with totalQuantity := level.totalQuantity - fillQty }
    arena
    lastTradePrice := some restingPrice
    remaining := tally.remaining - fillQty
    totals := mergeRuns (tally.totals ++ [((maker.id, restingPrice), fillQty.toNat)]) }

/-- Fill a slice of the maker in front. -/
def fill (side : Side) (tally : Tally config) (restingPrice : UInt64) (makerIdx : ArenaIndex)
    (maker : Order) : Except Fault (Tally config) := do
  let fillQty := min tally.remaining maker.matchableQty
  let arena ← tally.arena.modify makerIdx fun order =>
    { order with filled := order.filled + fillQty }
  let filled ← arena.get makerIdx
  let after := tally.took side restingPrice maker fillQty arena
  if filled.remaining = 0 then after.removeMaker makerIdx else pure after

end Tally

variable {config : InstrumentConfig} {taker : Taker} {sweep : Sweep config}
  {engine : MatchingEngine config}

/-- One iteration of the matching loop, without its reports. -/
def tallyStep (side : Side) (price : UInt64) (tally : Tally config) :
    Except Fault (Flow (Tally config) (Tally config)) :=
  if tally.remaining = 0 then .ok (.done tally)
  else do
    match ← tally.front side price with
    | none => return .done tally
    | some (restingPrice, makerIdx, maker) =>
      if maker.remaining = 0 then return .next (← tally.removeMaker makerIdx)
      return .next (← tally.fill side restingPrice makerIdx maker)

/-- The tally of an engine and a remaining quantity, behind earlier fills. -/
def tallyOf (before : List FillEntry) (engine : MatchingEngine config) (remaining : UInt64) :
    Tally config :=
  ⟨engine.book, engine.arena, engine.lastTradePrice, remaining,
    mergeRuns (before ++ fillEntries engine.bodies)⟩

/-- The tally of a sweep. -/
def Sweep.tally (before : List FillEntry) (sweep : Sweep config) : Tally config :=
  tallyOf before sweep.engine sweep.remaining

/-- The tally of the result of a sweep. -/
def SweepResult.tally (before : List FillEntry) (result : SweepResult config) : Tally config :=
  tallyOf before result.engine result.remaining

variable {before : List FillEntry} {index : ArenaIndex} {maker : Order} {price : UInt64}

/-- Removing a maker, without reports. -/
theorem removeMaker_tally {remaining : UInt64} :
    (engine.removeMaker index).map (fun engine => tallyOf before engine remaining) =
      (tallyOf before engine remaining).removeMaker index := by
  unfold removeMaker Tally.removeMaker
  change _ = (engine.book.removeOrder engine.arena index) >>= _
  cases engine.book.removeOrder engine.arena index with
  | error fault => rfl
  | ok removed => rfl

/-- The tally of an engine that has reported a fill and the total of the level. -/
theorem tallyOf_filled {takerId : OrderId} {qty makerLeft takerLeft remaining : UInt64} {side : Side}
    {book : OrderBook config.maxTicks} {arena : Arena} :
    tallyOf before ((((engine.withBook book arena).emit
        (.fill maker.id takerId price qty makerLeft takerLeft)).traded price).emitLevel side price)
        remaining =
      ⟨book, arena, some price, remaining,
        mergeRuns ((tallyOf before engine remaining).totals ++ [((maker.id, price), qty.toNat)])⟩ := by
  have silent : ∀ total, fillEntries [.bookUpdate side price total] = [] := fun _ => rfl
  simp only [tallyOf, emitLevel_bodies, traded_bodies, emit_bodies, withBook_bodies,
    fillEntries_append, mergeRuns_merged, silent, List.append_nil, List.append_assoc]
  rfl

/-- The end of a fill, without reports. -/
theorem retire_tally {remaining : UInt64} {filled : Order} :
    (engine.retire index filled >>= fun engine =>
      pure (⟨engine, remaining⟩ : Sweep config)).map (Sweep.tally before) =
      if filled.remaining = 0 then (tallyOf before engine remaining).removeMaker index
      else pure (tallyOf before engine remaining) := by
  unfold retire
  split
  · rw [← removeMaker_tally]
    cases engine.removeMaker index with
    | error fault => rfl
    | ok removed => rfl
  · rfl

/-- A fill, without reports. -/
theorem fillMaker_tally :
    (fillMaker taker sweep price index maker).map (Sweep.tally before) =
      (sweep.tally before).fill taker.side price index maker := by
  rw [fillMaker_eq, Tally.fill]
  refine (follows_second fun arena _ => ?_).symm
  refine follows_second fun filled _ => ?_
  rw [retire_tally, tallyOf_filled]
  rfl

/-- An iteration, without reports, for a taker without a group. -/
theorem matchStep_tally (ungrouped : taker.stpGroup = none) :
    (matchStep taker sweep).map (Flow.map (Sweep.tally before) (SweepResult.tally before)) =
      tallyStep taker.side taker.price (sweep.tally before) := by
  unfold matchStep tallyStep Tally.front
  change _ = if sweep.remaining = 0 then _ else _
  by_cases nothing : sweep.remaining = 0
  · rw [if_pos nothing, if_pos nothing]
    rfl
  rw [if_neg nothing, if_neg nothing]
  have top : sweep.engine.bestOpposing taker.side =
      (sweep.tally before).book.best taker.side.opposite := bestOpposing_eq _ _
  rw [top]
  cases (sweep.tally before).book.best taker.side.opposite with
  | none => rfl
  | some restingPrice =>
    dsimp only
    cases isPriceAcceptable taker.side taker.price restingPrice with
    | false => rfl
    | true =>
      have found : (sweep.tally before).opposingLevel taker.side restingPrice =
          sweep.engine.opposingLevel taker.side restingPrice := rfl
      simp only [found, Bool.not_true, Bool.false_eq_true, if_false]
      cases sweep.engine.opposingLevel taker.side restingPrice with
      | error fault => rfl
      | ok level =>
        cases head : level.head with
        | none =>
          simp only [bind, Except.bind, head]
          rfl
        | some makerIdx =>
          have read : (sweep.tally before).arena.get makerIdx =
              sweep.engine.arena.get makerIdx := rfl
          simp only [bind, Except.bind, head, read]
          cases sweep.engine.arena.get makerIdx with
          | error fault => rfl
          | ok maker =>
            dsimp only [pure, Except.pure]
            by_cases spent : maker.remaining = 0
            · rw [if_pos spent, if_pos spent]
              have removal : _ = (sweep.tally before).removeMaker makerIdx :=
                @removeMaker_tally _ sweep.engine before makerIdx sweep.remaining
              change _ = ((sweep.tally before).removeMaker makerIdx >>= fun removed =>
                Except.ok (Flow.next removed))
              rw [← removal]
              cases sweep.engine.removeMaker makerIdx with
              | error fault => rfl
              | ok removed => rfl
            · have apart : sameGroup taker maker = false := by rw [sameGroup, ungrouped]
              rw [if_neg spent, if_neg spent, apart]
              change _ = ((sweep.tally before).fill taker.side restingPrice makerIdx maker >>=
                fun filled => Except.ok (Flow.next filled))
              rw [← fillMaker_tally]
              cases fillMaker taker sweep restingPrice makerIdx maker with
              | error fault => rfl
              | ok filled => rfl

/-- A sweep, without reports, for a taker without a group: it ends with what the iterations without
reports end with. -/
theorem matchAgainstBook_ends {queues : Queues} {qty : UInt64} (sound : engine.Sound queues)
    (ungrouped : taker.stpGroup = none) :
    LoopEnds (tallyStep taker.side taker.price) (tallyOf before engine qty)
      ((engine.matchAgainstBook taker qty).map (SweepResult.tally before)) := by
  let fuel := engine.arena.len.toNat + qty.toNat + 1
  have mapped : (loop .exhausted (matchStep taker) fuel ⟨engine, qty⟩).map
      (SweepResult.tally before) =
      loop .exhausted (tallyStep taker.side taker.price) fuel (tallyOf before engine qty) :=
    loop_map (fun sweep => @matchStep_tally _ taker sweep before ungrouped) fuel ⟨engine, qty⟩
  have enough : Avoids .exhausted (loop .exhausted (matchStep taker) fuel ⟨engine, qty⟩) :=
    matchAgainstBook_avoids sound
  change LoopEnds _ _ ((loop .exhausted (matchStep taker) fuel ⟨engine, qty⟩).map _)
  rw [mapped]
  refine loop_ends fun failed => enough ?_
  rw [← mapped] at failed
  cases swept : loop .exhausted (matchStep taker) fuel ⟨engine, qty⟩ with
  | error fault =>
    rw [swept] at failed
    exact congrArg Except.error (Except.error.inj failed)
  | ok result =>
    rw [swept] at failed
    cases failed

end MatchingEngine

end MatchX
