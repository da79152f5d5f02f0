import MatchX.Book.Queues
import MatchX.Engine.Orders
import MatchX.Support.Priority

/-!
# The reference engine

What the engine is for, without what it is built of. The book of the reference engine is one
line of orders for each side, in price-time priority: there is no arena, no window, no level, no
cached best price and no depth index. The best maker is the first order of a line, a level total
is a sum over the orders of its price, and the liquidity that a fill-or-kill order asks for is a
sum over the orders it accepts. It stands for the engine's intended behaviour and is compared
with the engine elsewhere.
-/

namespace MatchX

open MatchX.Support
open MatchingEngine (Taker sameGroup effectivePrice takerOf insertStop replacement)

/-- Which price is better is a strict order of the prices of a side. -/
theorem better_precedence (side : Side) : Precedence (OrderBook.better side) := by
  constructor
  · intro first second
    cases side <;> simp only [OrderBook.better, decide_eq_true_eq, decide_eq_false_iff_not] <;>
      grind
  · intro first second third
    cases side <;> simp only [OrderBook.better, decide_eq_true_eq] <;> grind
  · intro first second
    cases side <;> simp only [OrderBook.better, decide_eq_false_iff_not] <;> grind

/-- The resting orders: a line for each side, best price first, first come first at a price. -/
abbrev ReferenceBook := (side : Side) → Priority Order.price (OrderBook.better side)

namespace ReferenceBook

/-- No order rests. -/
def empty : ReferenceBook := fun _ => .empty

/-- The resting orders, bids first. -/
def orders (book : ReferenceBook) : List Order := (book .bid).items ++ (book .ask).items

/-- The resting order of an id. -/
def find? (book : ReferenceBook) (id : OrderId) : Option Order :=
  book.orders.find? fun order => order.id = id

/-- An order joins the line of its side. -/
def insert (book : ReferenceBook) (order : Order) : ReferenceBook := fun side =>
  if side = order.side then (book side).insert (better_precedence side) order else book side

/-- The order of an id leaves its line. -/
def delete (book : ReferenceBook) (id : OrderId) : ReferenceBook := fun side =>
  (book side).keep fun order => order.id ≠ id

/-- More of the order of an id is filled. -/
def fill (book : ReferenceBook) (id : OrderId) (delta : UInt64) : ReferenceBook := fun side =>
  (book side).change (fun order => if order.id = id then order.fill delta else order)
    fun order => by split <;> rfl

/-- The total of a price, as far as a word holds it. -/
def total (book : ReferenceBook) (side : Side) (price : UInt64) : UInt64 :=
  UInt64.ofNat (((book side).queue price).map fun order => order.remaining.toNat).sum

/-- The quantity that rests on a side at the prices of a test. -/
def liquidity (book : ReferenceBook) (side : Side) (within : UInt64 → Bool) : Nat :=
  (((book side).items.filter fun order => within order.price).map
    fun order => order.remaining.toNat).sum

end ReferenceBook

/-- The state of the reference engine. -/
structure ReferenceEngine where
  /-- The most orders that rest at once. -/
  capacity : Nat
  /-- The resting orders. -/
  book : ReferenceBook
  /-- Sequence number of the last event. -/
  sequence : UInt64
  /-- Clock of the last event. -/
  timestampNs : UInt64
  /-- Events of the current call. -/
  eventBuf : List MatchEvent
  /-- Buy stops, by trigger price ascending. -/
  stopBids : List (UInt64 × StopEntry)
  /-- Sell stops, by trigger price descending. -/
  stopAsks : List (UInt64 × StopEntry)
  /-- Price of the last fill. -/
  lastTradePrice : Option UInt64

namespace ReferenceEngine

/-- A new reference engine. -/
def new (capacity : Nat) : ReferenceEngine where
  capacity := capacity
  book := .empty
  sequence := 0
  timestampNs := 0
  eventBuf := []
  stopBids := []
  stopAsks := []
  lastTradePrice := none

/-- Report an event. -/
def emit (engine : ReferenceEngine) (body : EventBody) : ReferenceEngine :=
  { engine with
    sequence := engine.sequence + 1
    timestampNs := engine.timestampNs + 1
    eventBuf := engine.eventBuf ++ [⟨⟨engine.sequence + 1, engine.timestampNs + 1⟩, body⟩] }

/-- Report the total of a price. -/
def emitLevel (engine : ReferenceEngine) (side : Side) (price : UInt64) : ReferenceEngine :=
  engine.emit (.bookUpdate side price (engine.book.total side price))

/-- The engine with other resting orders. -/
def withBook (engine : ReferenceEngine) (book : ReferenceBook) : ReferenceEngine :=
  { engine with book }

/-- The engine after a trade at a price. -/
def traded (engine : ReferenceEngine) (price : UInt64) : ReferenceEngine :=
  { engine with lastTradePrice := some price }

/-- Report an order as accepted. -/
def accept (engine : ReferenceEngine) (order : NewOrder) : ReferenceEngine :=
  engine.emit (.orderAccepted order.id order.side order.price order.qty order.orderType)

/-- The order that would trade first with a taker. -/
def firstMaker (engine : ReferenceEngine) (side : Side) (price : UInt64) : Option Order :=
  (engine.book side.opposite).first?.filter fun maker => isPriceAcceptable side price maker.price

/-! ## Sweeps -/

/-- A sweep in progress: the engine and what remains of the taker. -/
structure Sweep where
  /-- The engine. -/
  engine : ReferenceEngine
  /-- What remains of the taker. -/
  remaining : UInt64

/-- The end of a sweep. -/
structure SweepResult where
  /-- The engine. -/
  engine : ReferenceEngine
  /-- What remains of the taker. -/
  remaining : UInt64
  /-- Whether the taker is to be cancelled. -/
  cancelIncoming : Bool

/-- The taker meets a maker of its own group. -/
def prevent (mode : StpMode) (sweep : Sweep) (maker : Order) : Flow Sweep SweepResult :=
  match mode with
  | .cancelNewest => .done ⟨sweep.engine, sweep.remaining, false⟩
  | .cancelOldest =>
    let engine := sweep.engine.withBook (sweep.engine.book.delete maker.id)
    let engine := engine.emit (.orderCancelled maker.id maker.remaining)
    .next ⟨engine.emitLevel maker.side maker.price, sweep.remaining⟩
  | .cancelBoth =>
    let engine := sweep.engine.withBook (sweep.engine.book.delete maker.id)
    let engine := engine.emit (.orderCancelled maker.id maker.remaining)
    .done ⟨engine.emitLevel maker.side maker.price, sweep.remaining, true⟩
  | .decrementAndCancel =>
    let overlap := min sweep.remaining maker.remaining
    let engine := sweep.engine.withBook <|
      if maker.remaining = overlap then sweep.engine.book.delete maker.id
      else sweep.engine.book.fill maker.id overlap
    .done ⟨engine.emitLevel maker.side maker.price, sweep.remaining - overlap, true⟩

/-- The taker trades with a maker. -/
def trade (taker : Taker) (sweep : Sweep) (maker : Order) : Sweep :=
  let qty := min sweep.remaining maker.matchableQty
  let engine := sweep.engine.withBook (sweep.engine.book.fill maker.id qty)
  let engine := engine.emit (.fill maker.id taker.id maker.price qty (maker.remaining - qty)
    (sweep.remaining - qty))
  let engine := (engine.traded maker.price).emitLevel maker.side maker.price
  let engine :=
    if maker.remaining = qty then engine.withBook (engine.book.delete maker.id) else engine
  ⟨engine, sweep.remaining - qty⟩

/-- One turn of a sweep. -/
def turn (mode : StpMode) (taker : Taker) (sweep : Sweep) : Flow Sweep SweepResult :=
  if sweep.remaining = 0 then .done ⟨sweep.engine, sweep.remaining, false⟩
  else
    match sweep.engine.firstMaker taker.side taker.price with
    | none => .done ⟨sweep.engine, sweep.remaining, false⟩
    | some maker =>
      if maker.remaining = 0 then
        .next ⟨sweep.engine.withBook (sweep.engine.book.delete maker.id), sweep.remaining⟩
      else if sameGroup taker maker then prevent mode sweep maker
      else .next (trade taker sweep maker)

/-- Sweep the book for a taker. -/
def sweep (mode : StpMode) (engine : ReferenceEngine) (taker : Taker) (remaining : UInt64) :
    Except Fault SweepResult :=
  loop .exhausted (fun sweep => .ok (turn mode taker sweep))
    (engine.book.orders.length + remaining.toNat + 1) ⟨engine, remaining⟩

/-! ## Orders -/

/-- Rest a quantity of an order: its id must not rest already, and there must be room. -/
def rest (engine : ReferenceEngine) (order : NewOrder) (qty : UInt64) : ReferenceEngine :=
  let engine := engine.withBook <|
    if (engine.book.find? order.id).isSome ∨ engine.capacity ≤ engine.book.orders.length then
      engine.book
    else engine.book.insert (order.resting qty)
  engine.emit (.bookUpdate order.side order.price qty)

/-- Why an order that is matched on arrival is refused, if it is. -/
def refusal (mode : StpMode) (engine : ReferenceEngine) (order : NewOrder) : Option RejectReason :=
  if order.qty = 0 then some .invalidQuantity
  else if (engine.book.find? order.id).isSome then some .duplicateOrderId
  else if order.timeInForce = .fok ∧
      engine.book.liquidity order.side.opposite
        (isPriceAcceptable order.side (effectivePrice order)) < order.qty.toNat then
    some .insufficientLiquidity
  else if mode = .cancelNewest ∧
      (engine.firstMaker order.side (effectivePrice order)).any (sameGroup (takerOf order)) then
    some .selfTradePreventionTriggered
  else none

/-- What becomes of the remainder of an order that was matched. -/
def settle (result : SweepResult) (order : NewOrder) : ReferenceEngine :=
  if result.cancelIncoming then
    result.engine.emit (.orderCancelled order.id result.remaining)
  else if result.remaining = 0 then result.engine
  else if order.Keeps then result.engine.rest order result.remaining
  else result.engine.emit (.orderCancelled order.id result.remaining)

/-- Handle a post-only order. -/
def post (engine : ReferenceEngine) (order : NewOrder) : ReferenceEngine :=
  if (engine.firstMaker order.side order.price).isSome then
    engine.emit (.orderRejected order.id .wouldCrossSpread)
  else (engine.accept order).rest order order.qty

/-- The entry in which a stop order waits. -/
def parked (order : NewOrder) : StopEntry where
  id := order.id
  side := order.side
  limitPrice := order.price
  qty := order.qty
  timeInForce := order.timeInForce
  visibleQty := order.visibleQty
  stpGroup := order.stpGroup

/-- Handle a stop order: it waits behind the stops that are triggered before it. -/
def park (engine : ReferenceEngine) (order : NewOrder) : ReferenceEngine :=
  if order.qty = 0 then engine.emit (.orderRejected order.id .invalidQuantity)
  else
    match order.stopPrice with
    | none => engine.emit (.orderRejected order.id .invalidPrice)
    | some stopPx =>
      let engine := engine.accept order
      match order.side with
      | .bid => { engine with
          stopBids := insertStop engine.stopBids (· < stopPx) stopPx (parked order) }
      | .ask => { engine with
          stopAsks := insertStop engine.stopAsks (stopPx < ·) stopPx (parked order) }

/-- Handle an order. -/
def submit (mode : StpMode) (engine : ReferenceEngine) (order : NewOrder) :
    Except Fault ReferenceEngine :=
  match order.orderType with
  | .postOnly => .ok (engine.post order)
  | .stopLimit => .ok (engine.park order)
  | _ =>
    match refusal mode engine order with
    | some reason => .ok (engine.emit (.orderRejected order.id reason))
    | none => do
      let result ← sweep mode (engine.accept order) (takerOf order) order.qty
      return settle result order

/-- Handle a cancel. -/
def cancel (engine : ReferenceEngine) (id : OrderId) : ReferenceEngine :=
  match engine.book.find? id with
  | some order =>
    let engine := engine.withBook (engine.book.delete id)
    (engine.emit (.orderCancelled id order.remaining)).emitLevel order.side order.price
  | none => engine.emit (.orderRejected id .orderNotFound)

/-- Handle a modification: the order is withdrawn and another one submitted under its id. -/
def modify (mode : StpMode) (engine : ReferenceEngine) (id : OrderId) (newPrice newQty : UInt64) :
    Except Fault ReferenceEngine :=
  match engine.book.find? id with
  | some order =>
    let engine := engine.withBook (engine.book.delete id)
    let engine := (engine.emit (.orderModified id newPrice newQty)).emitLevel order.side order.price
    submit mode engine (replacement id order.side newPrice newQty)
  | none => .ok (engine.emit (.orderRejected id .orderNotFound))

/-! ## Stops -/

/-- The next buy stop that a trade price triggers, taken off its queue. -/
def triggerBuy (lastPrice : UInt64) (engine : ReferenceEngine) :
    Option (ReferenceEngine × NewOrder) :=
  match engine.stopBids with
  | [] => none
  | (stopPx, entry) :: rest =>
    if lastPrice < stopPx then none
    else some ({ engine with stopBids := rest }.emit (.stopTriggered entry.id entry.id),
      entry.order)

/-- The next sell stop that a trade price triggers, taken off its queue. -/
def triggerSell (lastPrice : UInt64) (engine : ReferenceEngine) :
    Option (ReferenceEngine × NewOrder) :=
  match engine.stopAsks with
  | [] => none
  | (stopPx, entry) :: rest =>
    if stopPx < lastPrice then none
    else some ({ engine with stopAsks := rest }.emit (.stopTriggered entry.id entry.id),
      entry.order)

/-- Submit the next stop, if one is triggered. -/
def fire (mode : StpMode) (trigger : ReferenceEngine → Option (ReferenceEngine × NewOrder))
    (engine : ReferenceEngine) :
    Except Fault (Flow ReferenceEngine ReferenceEngine) :=
  match trigger engine with
  | none => .ok (.done engine)
  | some (engine, order) => do
    let engine ← submit mode engine order
    return .next engine

/-- Submit the buy stops that a trade price triggers. -/
def drainBuys (mode : StpMode) (lastPrice : UInt64) (engine : ReferenceEngine) :
    Except Fault ReferenceEngine :=
  loop .exhausted (fire mode (triggerBuy lastPrice)) (engine.stopBids.length + 1) engine

/-- Submit the sell stops that a trade price triggers. -/
def drainSells (mode : StpMode) (lastPrice : UInt64) (engine : ReferenceEngine) :
    Except Fault ReferenceEngine :=
  loop .exhausted (fire mode (triggerSell lastPrice)) (engine.stopAsks.length + 1) engine

/-- Submit the stops that the last trade price triggers, again when that moves the price. -/
def drainPass (mode : StpMode) (engine : ReferenceEngine) :
    Except Fault (Flow ReferenceEngine ReferenceEngine) :=
  match engine.lastTradePrice with
  | none => .ok (.done engine)
  | some lastPrice => do
    let engine ← drainBuys mode lastPrice engine
    let engine ← drainSells mode lastPrice engine
    if engine.lastTradePrice = some lastPrice then return .done engine
    else return .next engine

/-- Submit stops until none is triggered. -/
def drain (mode : StpMode) (engine : ReferenceEngine) : Except Fault ReferenceEngine :=
  loop .exhausted (drainPass mode) (engine.stopBids.length + engine.stopAsks.length + 1) engine

/-! ## Calls -/

/-- Each call reports its own events. -/
def clearEvents (engine : ReferenceEngine) : ReferenceEngine :=
  { engine with eventBuf := [] }

/-- Carry out a command. -/
def dispatch (mode : StpMode) (engine : ReferenceEngine) : Command → Except Fault ReferenceEngine
  | .newOrder _ order => submit mode engine order
  | .cancelOrder id => .ok (engine.cancel id)
  | .modifyOrder id newPrice newQty => modify mode engine id newPrice newQty

/-- A call: the command and the stops it triggers. -/
def process (mode : StpMode) (engine : ReferenceEngine) (command : Command) :
    Except Fault ReferenceEngine := do
  let engine ← dispatch mode engine.clearEvents command
  drain mode engine

/-- Calls in order: the engine afterwards and the events of each. -/
def replay (mode : StpMode) (engine : ReferenceEngine) :
    List Command → Except Fault (ReferenceEngine × List (List MatchEvent))
  | [] => .ok (engine, [])
  | command :: rest => do
    let engine ← process mode engine command
    let (last, events) ← replay mode engine rest
    .ok (last, engine.eventBuf :: events)

end ReferenceEngine

end MatchX
