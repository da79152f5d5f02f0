import MatchX.Book.OrderBook
import MatchX.Support.Loop

/-!
# The matching engine

`MatchingEngine::process` and everything it calls. The configuration never changes after
the engine is created, so it is a parameter of the engine's type. Each loop of the source is
a `loop` over one iteration of its body. The event buffer is a list; a call that writes past
`maxEventsPerCall` aborts and leaves nothing behind, so the bound is checked once, at the end
of the call.
-/

namespace MatchX

open MatchX.Support

/-- `MAX_EVENTS_PER_CALL`. -/
def maxEventsPerCall : Nat := 64

/-- `PriceTimeFifo::is_price_acceptable`: whether an incoming price can trade against a
resting price. -/
def isPriceAcceptable : Side → UInt64 → UInt64 → Bool
  | .bid, incoming, resting => resting ≤ incoming
  | .ask, incoming, resting => incoming ≤ resting

/-- A pending stop-limit order. -/
structure StopEntry where
  /-- Identifier. -/
  id : OrderId
  /-- Side. -/
  side : Side
  /-- Limit price once triggered. -/
  limitPrice : UInt64
  /-- Quantity. -/
  qty : UInt64
  /-- Time in force once triggered. -/
  timeInForce : TimeInForce
  /-- Iceberg slice. -/
  visibleQty : Option UInt64
  /-- Self-trade group. -/
  stpGroup : Option UInt32
  deriving DecidableEq, Repr

/-- The order that a triggered stop submits. -/
def StopEntry.order (entry : StopEntry) : NewOrder where
  id := entry.id
  side := entry.side
  price := entry.limitPrice
  qty := entry.qty
  orderType := .limit
  timeInForce := entry.timeInForce
  visibleQty := entry.visibleQty
  stopPrice := none
  stpGroup := entry.stpGroup

/-- The state of the engine. -/
structure MatchingEngine (config : InstrumentConfig) where
  /-- The book. -/
  book : OrderBook config.maxTicks
  /-- The orders of the book. -/
  arena : Arena
  /-- Sequence number of the last event. -/
  sequence : UInt64
  /-- Clock of the last event. -/
  timestampNs : UInt64
  /-- Events of the current call. -/
  eventBuf : List MatchEvent
  /-- Buy stops, by trigger price ascending. -/
  stopBids : List (UInt64 × StopEntry)
  /-- Sell stops, by trigger price descending. -/
  stopAsks : List (UInt64 × StopEntry)
  /-- Price of the last fill. -/
  lastTradePrice : Option UInt64

namespace MatchingEngine

variable {config : InstrumentConfig}

/-- `MatchingEngine::new`. -/
def new (config : InstrumentConfig) (arenaCapacity : UInt32) : MatchingEngine config where
  book := OrderBook.new config
  arena := Arena.new arenaCapacity
  sequence := 0
  timestampNs := 0
  eventBuf := []
  stopBids := []
  stopAsks := []
  lastTradePrice := none

/-- `MatchingEngine::emit`. -/
def emit (engine : MatchingEngine config) (body : EventBody) : MatchingEngine config :=
  { engine with
    sequence := engine.sequence + 1
    timestampNs := engine.timestampNs + 1
    eventBuf := engine.eventBuf ++ [⟨⟨engine.sequence + 1, engine.timestampNs + 1⟩, body⟩] }

/-- `MatchingEngine::emit_rejected`. -/
def emitRejected (engine : MatchingEngine config) (id : OrderId) (reason : RejectReason) :
    MatchingEngine config :=
  engine.emit (.orderRejected id reason)

/-- The best price opposite to a taker. -/
def bestOpposing (engine : MatchingEngine config) : Side → Option UInt64
  | .bid => engine.book.bestAsk
  | .ask => engine.book.bestBid

/-- The level opposite to a taker at a price that must exist. -/
def opposingLevel (engine : MatchingEngine config) (side : Side) (price : UInt64) :
    Except Fault PriceLevel :=
  match side with
  | .bid => engine.book.getAskLevel price
  | .ask => engine.book.getBidLevel price

/-- `MatchingEngine::check_available_liquidity`. -/
def checkAvailableLiquidity (engine : MatchingEngine config) (takerSide : Side)
    (takerPrice : UInt64) : UInt64 :=
  match takerSide with
  | .bid => engine.book.askAvailableAtOrBelow takerPrice
  | .ask => engine.book.bidAvailableAtOrAbove takerPrice

/-- `MatchingEngine::stp_first_maker_matches`: the first maker that would trade is of the
taker's group. -/
def stpFirstMakerMatches (engine : MatchingEngine config) (takerSide : Side)
    (takerPrice : UInt64) (takerStp : UInt32) : Except Fault Bool := do
  let some restingPrice := engine.bestOpposing takerSide | return false
  if !isPriceAcceptable takerSide takerPrice restingPrice then return false
  let level ← engine.opposingLevel takerSide restingPrice
  let some head := level.head | return false
  let maker ← engine.arena.get head
  return maker.stpGroup != stpNone && maker.stpGroup == takerStp

/-- What a taker brings to the matching loop. -/
structure Taker where
  /-- Identifier. -/
  id : OrderId
  /-- Side. -/
  side : Side
  /-- Limit price, the extreme price for a market order. -/
  price : UInt64
  /-- Self-trade group. -/
  stpGroup : Option UInt32

/-- Whether a maker and a taker are of one self-trade group. -/
def sameGroup (taker : Taker) (maker : Order) : Bool :=
  match taker.stpGroup with
  | some group => maker.stpGroup != stpNone && group == maker.stpGroup
  | none => false

/-- The state of the matching loop: the engine and the taker's remaining quantity. -/
structure Sweep (config : InstrumentConfig) where
  /-- The engine. -/
  engine : MatchingEngine config
  /-- The taker's remaining quantity. -/
  remaining : UInt64

/-- What `match_against_book` returns: the state it leaves, and whether self-trade prevention
cancels the incoming order. -/
structure SweepResult (config : InstrumentConfig) where
  /-- The engine. -/
  engine : MatchingEngine config
  /-- The taker's remaining quantity. -/
  remaining : UInt64
  /-- Whether the incoming order is to be cancelled. -/
  cancelIncoming : Bool

/-- `self.book.remove_order(idx, &mut self.arena)`. -/
def removeMaker (engine : MatchingEngine config) (index : ArenaIndex) :
    Except Fault (MatchingEngine config) := do
  let (_, book, arena) ← engine.book.removeOrder engine.arena index
  return { engine with book, arena }

/-- Emit the total of a level as it is now. -/
def emitLevel (engine : MatchingEngine config) (side : Side) (price : UInt64) :
    MatchingEngine config :=
  engine.emit (.bookUpdate side price (engine.book.getLevelQty side price))

/-- The self-trade prevention branch of the matching loop. -/
def preventSelfTrade (sweep : Sweep config) (restingPrice : UInt64) (makerIdx : ArenaIndex)
    (maker : Order) :
    Except Fault (Flow (Sweep config) (SweepResult config)) :=
  match config.stpMode with
  | .cancelNewest =>
    -- The pre-check saw another maker first; matching stops and the remainder is kept.
    .ok (.done ⟨sweep.engine, sweep.remaining, false⟩)
  | .cancelOldest => do
    let engine ← sweep.engine.removeMaker makerIdx
    let engine := engine.emit (.orderCancelled maker.id maker.remaining)
    return .next ⟨engine.emitLevel maker.side restingPrice, sweep.remaining⟩
  | .cancelBoth => do
    let engine ← sweep.engine.removeMaker makerIdx
    let engine := engine.emit (.orderCancelled maker.id maker.remaining)
    return .done ⟨engine.emitLevel maker.side restingPrice, sweep.remaining, true⟩
  | .decrementAndCancel => do
    let overlap := min sweep.remaining maker.remaining
    let engine ←
      if maker.remaining = overlap then sweep.engine.removeMaker makerIdx
      else do
        let (book, arena) ←
          sweep.engine.book.reduceOrderQty sweep.engine.arena makerIdx overlap
        pure { sweep.engine with book, arena }
    return .done ⟨engine.emitLevel maker.side restingPrice, sweep.remaining - overlap, true⟩

/-- The fill of the matching loop: the maker's slice or the taker's remainder, whichever is
smaller, taken from the maker, its level and the taker. -/
def fillMaker (taker : Taker) (sweep : Sweep config) (restingPrice : UInt64)
    (makerIdx : ArenaIndex) (maker : Order) : Except Fault (Sweep config) := do
  let fillQty := min sweep.remaining maker.matchableQty
  let arena ← sweep.engine.arena.modify makerIdx fun order =>
    { order with filled := order.filled + fillQty }
  let level := sweep.engine.book.level taker.side.opposite restingPrice
  let book := sweep.engine.book.setLevel taker.side.opposite restingPrice
    { level with totalQuantity := level.totalQuantity - fillQty }
  let remaining := sweep.remaining - fillQty
  let filled ← arena.get makerIdx
  let engine := { sweep.engine with book, arena }
  let engine := engine.emit
    (.fill maker.id taker.id restingPrice fillQty filled.remaining remaining)
  let engine := { engine with lastTradePrice := some restingPrice }
  let engine := engine.emitLevel maker.side restingPrice
  let engine ← if filled.remaining = 0 then engine.removeMaker makerIdx else pure engine
  return ⟨engine, remaining⟩

/-- One iteration of the loop of `match_against_book`. -/
def matchStep (taker : Taker) (sweep : Sweep config) :
    Except Fault (Flow (Sweep config) (SweepResult config)) := do
  let stop := Flow.done ⟨sweep.engine, sweep.remaining, false⟩
  if sweep.remaining = 0 then return stop
  let some restingPrice := sweep.engine.bestOpposing taker.side | return stop
  if !isPriceAcceptable taker.side taker.price restingPrice then return stop
  let level ← sweep.engine.opposingLevel taker.side restingPrice
  let some makerIdx := level.head | return stop
  let maker ← sweep.engine.arena.get makerIdx
  if maker.remaining = 0 then
    -- A maker that rests with nothing remaining is removed without an event.
    let engine ← sweep.engine.removeMaker makerIdx
    return .next ⟨engine, sweep.remaining⟩
  if sameGroup taker maker then
    preventSelfTrade sweep restingPrice makerIdx maker
  else
    return .next (← fillMaker taker sweep restingPrice makerIdx maker)

/-- `MatchingEngine::match_against_book`. Every iteration but the last one removes an order
or lowers the remaining quantity, which bounds the iterations. -/
def matchAgainstBook (engine : MatchingEngine config) (taker : Taker) (remaining : UInt64) :
    Except Fault (SweepResult config) :=
  loop .exhausted (matchStep taker) (engine.arena.len.toNat + remaining.toNat + 1)
    ⟨engine, remaining⟩

/-- `self.book.insert_order(.., &mut self.arena)` followed by the `BookUpdate` of the order's
own quantity. -/
def restOrder (engine : MatchingEngine config) (order : NewOrder) (qty : UInt64) :
    Except Fault (MatchingEngine config) := do
  let (_, book, arena) ← engine.book.insertOrder engine.arena order.id order.side order.price qty
    order.orderType order.visibleQty order.stpGroup
  return { engine with book, arena }.emit (.bookUpdate order.side order.price qty)

/-- The post-only branch of `process_new_order`. -/
def processPostOnly (engine : MatchingEngine config) (order : NewOrder) :
    Except Fault (MatchingEngine config) :=
  let wouldCross := match order.side with
    | .bid => engine.book.bestAsk.any fun ask => ask ≤ order.price
    | .ask => engine.book.bestBid.any fun bid => order.price ≤ bid
  if wouldCross then .ok (engine.emitRejected order.id .wouldCrossSpread)
  else
    let engine := engine.emit
      (.orderAccepted order.id order.side order.price order.qty order.orderType)
    engine.restOrder order order.qty

/-- The stop queue with a new entry: behind the entries at its front that are triggered before
its price. -/
def insertStop {α : Type} (queue : List (UInt64 × α)) (before : UInt64 → Bool)
    (stopPrice : UInt64) (entry : α) : List (UInt64 × α) :=
  queue.insertIdx (partitionPoint (fun pending => before pending.1) queue) (stopPrice, entry)

/-- The stop-limit branch of `process_new_order`. -/
def processStopLimit (engine : MatchingEngine config) (order : NewOrder) :
    MatchingEngine config :=
  if order.qty = 0 then engine.emitRejected order.id .invalidQuantity
  else
    match order.stopPrice with
    | none => engine.emitRejected order.id .invalidPrice
    | some stopPx =>
      let engine := engine.emit
        (.orderAccepted order.id order.side order.price order.qty order.orderType)
      let entry : StopEntry := {
        id := order.id
        side := order.side
        limitPrice := order.price
        qty := order.qty
        timeInForce := order.timeInForce
        visibleQty := order.visibleQty
        stpGroup := order.stpGroup }
      match order.side with
      | .bid =>
        { engine with stopBids := insertStop engine.stopBids (· < stopPx) stopPx entry }
      | .ask =>
        { engine with stopAsks := insertStop engine.stopAsks (stopPx < ·) stopPx entry }

/-- The price up to which an order may trade. -/
def effectivePrice (order : NewOrder) : UInt64 :=
  match order.orderType, order.side with
  | .market, .bid => u64Max
  | .market, .ask => 0
  | _, _ => order.price

/-- The taker that an order becomes. -/
def takerOf (order : NewOrder) : Taker :=
  ⟨order.id, order.side, effectivePrice order, order.stpGroup⟩

/-- The validation of `process_new_order` that follows the post-only and stop-limit
branches: the reason of a rejection, if there is one. -/
def refusal (engine : MatchingEngine config) (order : NewOrder) :
    Except Fault (Option RejectReason) := do
  if order.qty = 0 then return some .invalidQuantity
  if (engine.book.lookup order.id).isSome then return some .duplicateOrderId
  if order.timeInForce = .fok ∧
      engine.checkAvailableLiquidity order.side (effectivePrice order) < order.qty then
    return some .insufficientLiquidity
  match order.stpGroup with
  | some takerStp =>
    if config.stpMode = .cancelNewest then
      if ← engine.stpFirstMakerMatches order.side (effectivePrice order) takerStp then
        return some .selfTradePreventionTriggered
    return none
  | none => return none

/-- The remainder handling of `process_new_order`. -/
def settleRemainder (result : SweepResult config) (order : NewOrder) :
    Except Fault (MatchingEngine config) :=
  if result.cancelIncoming then
    .ok (result.engine.emit (.orderCancelled order.id result.remaining))
  else if result.remaining = 0 then .ok result.engine
  else
    match order.orderType, order.timeInForce with
    | .limit, .gtc | .iceberg, .gtc => result.engine.restOrder order result.remaining
    | .market, _ | _, .ioc | _, .fok =>
      .ok (result.engine.emit (.orderCancelled order.id result.remaining))
    | _, _ => .ok result.engine

/-- `MatchingEngine::process_new_order`. -/
def processNewOrder (engine : MatchingEngine config) (order : NewOrder) :
    Except Fault (MatchingEngine config) :=
  match order.orderType with
  | .postOnly => engine.processPostOnly order
  | .stopLimit => .ok (engine.processStopLimit order)
  | _ => do
    match ← engine.refusal order with
    | some reason => return engine.emitRejected order.id reason
    | none =>
      let engine := engine.emit
        (.orderAccepted order.id order.side order.price order.qty order.orderType)
      let result ← engine.matchAgainstBook (takerOf order) order.qty
      settleRemainder result order

/-- `MatchingEngine::process_cancel`. -/
def processCancel (engine : MatchingEngine config) (id : OrderId) :
    Except Fault (MatchingEngine config) :=
  match engine.book.lookup id with
  | some index => do
    let order ← engine.arena.get index
    let engine ← engine.removeMaker index
    let engine := engine.emit (.orderCancelled id order.remaining)
    return engine.emitLevel order.side order.price
  | none => .ok (engine.emitRejected id .orderNotFound)

/-- The order that `process_modify` submits in place of a withdrawn one. -/
def replacement (id : OrderId) (side : Side) (newPrice newQty : UInt64) : NewOrder where
  id := id
  side := side
  price := newPrice
  qty := newQty
  orderType := .limit
  timeInForce := .gtc
  visibleQty := none
  stopPrice := none
  stpGroup := none

/-- The first half of `process_modify`, for a resting order: withdraw it and report the
modification. Returns the order to submit in its place. -/
def withdraw (engine : MatchingEngine config) (index : ArenaIndex) (id : OrderId)
    (newPrice newQty : UInt64) : Except Fault (MatchingEngine config × NewOrder) := do
  let order ← engine.arena.get index
  let engine ← engine.removeMaker index
  let engine := engine.emit (.orderModified id newPrice newQty)
  return (engine.emitLevel order.side order.price, replacement id order.side newPrice newQty)

/-- `MatchingEngine::process_modify`. -/
def processModify (engine : MatchingEngine config) (id : OrderId) (newPrice newQty : UInt64) :
    Except Fault (MatchingEngine config) :=
  match engine.book.lookup id with
  | some index => do
    let (engine, order) ← engine.withdraw index id newPrice newQty
    engine.processNewOrder order
  | none => .ok (engine.emitRejected id .orderNotFound)

/-- The next buy stop that `lastPrice` triggers: the engine after it left its queue and was
reported, and the order to submit. -/
def triggerBuy (lastPrice : UInt64) (engine : MatchingEngine config) :
    Option (MatchingEngine config × NewOrder) :=
  match engine.stopBids with
  | [] => none
  | (stopPx, entry) :: rest =>
    if lastPrice < stopPx then none
    else some ({ engine with stopBids := rest }.emit (.stopTriggered entry.id entry.id),
      entry.order)

/-- The next sell stop that `lastPrice` triggers. -/
def triggerSell (lastPrice : UInt64) (engine : MatchingEngine config) :
    Option (MatchingEngine config × NewOrder) :=
  match engine.stopAsks with
  | [] => none
  | (stopPx, entry) :: rest =>
    if stopPx < lastPrice then none
    else some ({ engine with stopAsks := rest }.emit (.stopTriggered entry.id entry.id),
      entry.order)

/-- One iteration of an inner loop of `drain_stop_triggers`: submit the next stop, if one is
triggered. -/
def fireStop (trigger : MatchingEngine config → Option (MatchingEngine config × NewOrder))
    (engine : MatchingEngine config) :
    Except Fault (Flow (MatchingEngine config) (MatchingEngine config)) :=
  match trigger engine with
  | none => .ok (.done engine)
  | some (engine, order) => do
    let engine ← engine.processNewOrder order
    return .next engine

/-- The loop over the buy stops. -/
def drainBuys (lastPrice : UInt64) (engine : MatchingEngine config) :
    Except Fault (MatchingEngine config) :=
  loop .exhausted (fireStop (triggerBuy lastPrice)) (engine.stopBids.length + 1) engine

/-- The loop over the sell stops. -/
def drainSells (lastPrice : UInt64) (engine : MatchingEngine config) :
    Except Fault (MatchingEngine config) :=
  loop .exhausted (fireStop (triggerSell lastPrice)) (engine.stopAsks.length + 1) engine

/-- One pass of the outer loop of `drain_stop_triggers`. -/
def drainPass (engine : MatchingEngine config) :
    Except Fault (Flow (MatchingEngine config) (MatchingEngine config)) :=
  match engine.lastTradePrice with
  | none => .ok (.done engine)
  | some lastPrice => do
    let engine ← drainBuys lastPrice engine
    let engine ← drainSells lastPrice engine
    if engine.lastTradePrice = some lastPrice then return .done engine
    else return .next engine

/-- `MatchingEngine::drain_stop_triggers`. A pass that is followed by another one triggered
a stop, which bounds the passes. -/
def drainStopTriggers (engine : MatchingEngine config) : Except Fault (MatchingEngine config) :=
  loop .exhausted drainPass (engine.stopBids.length + engine.stopAsks.length + 1) engine

/-- The event buffer is reused by each call. -/
def clearEvents (engine : MatchingEngine config) : MatchingEngine config :=
  { engine with eventBuf := [] }

/-- The command part of `MatchingEngine::process`. -/
def dispatch (engine : MatchingEngine config) : Command → Except Fault (MatchingEngine config)
  | .newOrder _ order => engine.processNewOrder order
  | .cancelOrder id => engine.processCancel id
  | .modifyOrder id newPrice newQty => engine.processModify id newPrice newQty

/-- `MatchingEngine::process` with an event buffer that never overflows. -/
def processUnbounded (engine : MatchingEngine config) (command : Command) :
    Except Fault (MatchingEngine config) := do
  let engine ← engine.clearEvents.dispatch command
  engine.drainStopTriggers

/-- `MatchingEngine::process`. The events returned are those left in the buffer. -/
def process (engine : MatchingEngine config) (command : Command) :
    Except Fault (MatchingEngine config) := do
  let engine ← engine.processUnbounded command
  if engine.eventBuf.length ≤ maxEventsPerCall then return engine
  else .error .eventOverflow

end MatchingEngine

end MatchX
