import MatchX.Arena
import MatchX.Book.Depth
import MatchX.Support.Bitset

/-!
# The order book

A dense window of price levels around the best prices and a sorted map for every other
level, kept once per side. The source repeats each container for bids and asks; here the
containers of one side are a `BookSide`, and the two sides of a book have the same type.
The number of window slots never changes, so it is a parameter of the types and a slot
number carries its bound.
-/

namespace MatchX

open Std (ExtTreeMap)
open MatchX.Support

/-- The containers of one side of a book with `ticks` window slots. -/
structure BookSide (ticks : UInt32) where
  /-- `bids_dense`, `asks_dense`: the levels inside the window. -/
  dense : Vector PriceLevel ticks.toNat
  /-- `bids_sparse`, `asks_sparse`: the levels outside the window. -/
  sparse : ExtTreeMap UInt64 PriceLevel
  /-- `bid_depth_index`, `ask_depth_index`: quantities inside the window. -/
  depthIndex : FenwickTree
  /-- `best_bid_tick`, `best_ask_tick`: the cached best price. -/
  bestTick : Option UInt64
  /-- `bids_occupied`, `asks_occupied`: the non-empty window slots. -/
  occupied : Bitset ticks.toNat
  /-- `bids_sparse_index`, `asks_sparse_index`: quantities outside the window. -/
  sparseIndex : SparseVolumeIndex

/-- The empty side. -/
def BookSide.new (ticks : UInt32) : BookSide ticks where
  dense := Vector.replicate ticks.toNat PriceLevel.empty
  sparse := ∅
  depthIndex := FenwickTree.new ticks.toNat
  bestTick := none
  occupied := Bitset.empty ticks.toNat
  sparseIndex := SparseVolumeIndex.new

/-- `bids_dense[i]`, `asks_dense[i]`: the level in a window slot. -/
abbrev BookSide.denseLevel {ticks : UInt32} (half : BookSide ticks) (i : Fin ticks.toNat) :
    PriceLevel := half.dense[i]

/-- Replace the level in a slot of the window. -/
abbrev BookSide.setDenseLevel {ticks : UInt32} (half : BookSide ticks) (i : Fin ticks.toNat)
    (level : PriceLevel) : BookSide ticks :=
  { half with dense := half.dense.set i level }

/-- Hybrid order book. -/
structure OrderBook (ticks : UInt32) where
  /-- Instrument of the book. -/
  instrumentId : UInt32
  /-- The buy side. -/
  bids : BookSide ticks
  /-- The sell side. -/
  asks : BookSide ticks
  /-- First price of the window. -/
  denseBasePrice : UInt64
  /-- Slot of each resting order. -/
  orderIndex : ExtTreeMap OrderId ArenaIndex

namespace OrderBook

variable {ticks : UInt32}

/-- `OrderBook::new`. -/
def new (config : InstrumentConfig) : OrderBook config.maxTicks where
  instrumentId := config.id
  bids := BookSide.new config.maxTicks
  asks := BookSide.new config.maxTicks
  denseBasePrice := config.basePrice
  orderIndex := ∅

/-- The containers of a side. -/
def half (book : OrderBook ticks) : Side → BookSide ticks
  | .bid => book.bids
  | .ask => book.asks

/-- Replace the containers of a side. -/
def setHalf (book : OrderBook ticks) : Side → BookSide ticks → OrderBook ticks
  | .bid, half => { book with bids := half }
  | .ask, half => { book with asks := half }

/-- `OrderBook::dense_index`: the window slot of a price. -/
def denseIndex (book : OrderBook ticks) (price : UInt64) : Option (Fin ticks.toNat) :=
  if price < book.denseBasePrice then none
  else
    let idx := price - book.denseBasePrice
    if h : idx.toNat < ticks.toNat then some ⟨idx.toNat, h⟩ else none

/-- The level at a price, empty when it does not exist. -/
def level (book : OrderBook ticks) (side : Side) (price : UInt64) : PriceLevel :=
  match book.denseIndex price with
  | some i => (book.half side).dense[i]
  | none => (book.half side).sparse.getD price PriceLevel.empty

/-- A write through `OrderBook::level_mut`, `get_bid_level_mut` or `get_ask_level_mut`: the
sparse map gains the level if it lacks it. -/
def setLevel (book : OrderBook ticks) (side : Side) (price : UInt64) (level : PriceLevel) :
    OrderBook ticks :=
  let half := book.half side
  match book.denseIndex price with
  | some i => book.setHalf side (half.setDenseLevel i level)
  | none => book.setHalf side { half with sparse := half.sparse.insert price level }

/-- `OrderBook::set_occupied`. -/
def setOccupied (book : OrderBook ticks) (side : Side) (i : Fin ticks.toNat) :
    OrderBook ticks :=
  let half := book.half side
  book.setHalf side { half with occupied := half.occupied.insert i }

/-- `OrderBook::clear_occupied`. -/
def clearOccupied (book : OrderBook ticks) (side : Side) (i : Fin ticks.toNat) :
    OrderBook ticks :=
  let half := book.half side
  book.setHalf side { half with occupied := half.occupied.erase i }

/-- `OrderBook::best_bid`. -/
def bestBid (book : OrderBook ticks) : Option UInt64 := book.bids.bestTick

/-- `OrderBook::best_ask`. -/
def bestAsk (book : OrderBook ticks) : Option UInt64 := book.asks.bestTick

/-- The cached best price of a side. -/
def best (book : OrderBook ticks) (side : Side) : Option UInt64 := (book.half side).bestTick

/-- Replace the cached best price of a side. -/
def setBest (book : OrderBook ticks) (side : Side) (price : Option UInt64) : OrderBook ticks :=
  book.setHalf side { book.half side with bestTick := price }

/-- A level that a lookup requires to exist: a sparse level must be in the map. -/
def requireLevel (missing : Fault) (book : OrderBook ticks) (side : Side) (price : UInt64) :
    Except Fault PriceLevel :=
  match book.denseIndex price with
  | some i => .ok (book.half side).dense[i]
  | none =>
    match (book.half side).sparse[price]? with
    | some level => .ok level
    | none => .error missing

/-- `OrderBook::get_bid_level`. -/
def getBidLevel (book : OrderBook ticks) (price : UInt64) : Except Fault PriceLevel :=
  book.requireLevel .missingBidLevel .bid price

/-- `OrderBook::get_ask_level`. -/
def getAskLevel (book : OrderBook ticks) (price : UInt64) : Except Fault PriceLevel :=
  book.requireLevel .missingAskLevel .ask price

/-- `OrderBook::get_level_qty`: the total at a level, zero when it does not exist. -/
def getLevelQty (book : OrderBook ticks) (side : Side) (price : UInt64) : UInt64 :=
  (book.level side price).totalQuantity

/-- `OrderBook::lookup`. -/
def lookup (book : OrderBook ticks) (id : OrderId) : Option ArenaIndex := book.orderIndex[id]?

/-- `OrderBook::depth_add`. -/
def depthAdd (book : OrderBook ticks) (side : Side) (price qty : UInt64) : OrderBook ticks :=
  let half := book.half side
  match book.denseIndex price with
  | some i => book.setHalf side { half with depthIndex := half.depthIndex.add i qty }
  | none => book.setHalf side { half with sparseIndex := half.sparseIndex.add price qty }

/-- `OrderBook::depth_remove`. -/
def depthRemove (book : OrderBook ticks) (side : Side) (price qty : UInt64) :
    Except Fault (OrderBook ticks) :=
  let half := book.half side
  match book.denseIndex price with
  | some i => .ok (book.setHalf side { half with depthIndex := half.depthIndex.sub i qty })
  | none =>
    match half.sparseIndex.sub price qty with
    | .error fault => .error fault
    | .ok index => .ok (book.setHalf side { half with sparseIndex := index })

/-- Whether the first price is better than the second one for the side it rests on: a bid
when it is higher, an ask when it is lower. -/
def better : Side → UInt64 → UInt64 → Bool
  | .bid, price, other => other < price
  | .ask, price, other => price < other

/-- `OrderBook::insert_order`: append an order at the tail of its level. Returns the slot,
or none when the id is resting already or the arena is full. -/
def insertOrder (book : OrderBook ticks) (arena : Arena) (id : OrderId) (side : Side)
    (price qty : UInt64) (orderType : OrderType) (visibleQty : Option UInt64)
    (stpGroup : Option UInt32) :
    Except Fault (Option ArenaIndex × OrderBook ticks × Arena) := do
  let order : Order := {
    id, side, price, orderType
    quantity := qty
    filled := 0
    timeInForce := .gtc
    timestamp := 0
    visibleQuantity := visibleQty.getD qty
    stpGroup := stpGroup.getD stpNone
    prev := arenaNull
    next := arenaNull }
  if (book.orderIndex[id]?).isSome then return (none, book, arena)
  let some (index, arena) := arena.alloc order | return (none, book, arena)
  let book := { book with orderIndex := book.orderIndex.insert id index }
  let level := book.level side price
  let arena ← arena.modify index fun order =>
    { order with prev := level.tail.getD arenaNull, next := arenaNull }
  let (level, arena) ← match level.tail with
    | some tail => do
      let arena ← arena.modify tail fun order => { order with next := index }
      pure (level, arena)
    | none => pure ({ level with head := some index }, arena)
  let book := book.setLevel side price { level with
    tail := some index
    totalQuantity := level.totalQuantity + qty
    orderCount := level.orderCount + 1 }
  let book := book.depthAdd side price qty
  let book := match book.denseIndex price with
    | some i => book.setOccupied side i
    | none => book
  let book := match book.best side with
    | none => book.setBest side (some price)
    | some top => if better side price top then book.setBest side (some price) else book
  return (some index, book, arena)

/-- `OrderBook::reduce_order_qty`: lower the remaining quantity of an order that stays. -/
def reduceOrderQty (book : OrderBook ticks) (arena : Arena) (index : ArenaIndex)
    (delta : UInt64) : Except Fault (OrderBook ticks × Arena) := do
  let arena ← arena.modify index fun order => { order with filled := order.filled + delta }
  let order ← arena.get index
  let level := book.level order.side order.price
  let some total := checkedSub level.totalQuantity delta | .error .levelUnderflow
  let book := book.setLevel order.side order.price { level with totalQuantity := total }
  let book ← book.depthRemove order.side order.price delta
  return (book, arena)

/-- `OrderBook::level_is_empty`. -/
def levelIsEmpty (book : OrderBook ticks) (side : Side) (price : UInt64) : Bool :=
  (book.level side price).isEmpty

/-- `OrderBook::prune_if_sparse_empty`: an empty level leaves the sparse map. -/
def pruneIfSparseEmpty (book : OrderBook ticks) (side : Side) (price : UInt64) :
    OrderBook ticks :=
  match book.denseIndex price with
  | some _ => book
  | none =>
    let half := book.half side
    if (half.sparse[price]?).any PriceLevel.isEmpty then
      book.setHalf side { half with sparse := half.sparse.erase price }
    else book

/-- `OrderBook::find_highest_occupied_bid`. -/
def findHighestOccupiedBid (book : OrderBook ticks) : Option UInt64 :=
  book.bids.occupied.highest.map fun i => book.denseBasePrice + UInt64.ofNat i

/-- `OrderBook::find_lowest_occupied_ask`. -/
def findLowestOccupiedAsk (book : OrderBook ticks) : Option UInt64 :=
  book.asks.occupied.lowest.map fun i => book.denseBasePrice + UInt64.ofNat i

/-- The best price of a side as it is found anew: the best price of the window, or the best
sparse price when the window is empty. -/
def scanBest (book : OrderBook ticks) : Side → Option UInt64
  | .bid => book.findHighestOccupiedBid.or book.bids.sparse.keys.getLast?
  | .ask => book.findLowestOccupiedAsk.or book.asks.sparse.keys.head?

/-- `OrderBook::refresh_best_after_level_empty`. -/
def refreshBestAfterLevelEmpty (book : OrderBook ticks) (side : Side) (removed : UInt64) :
    OrderBook ticks :=
  let book := match book.denseIndex removed with
    | some i => book.clearOccupied side i
    | none => book
  if book.best side = some removed then book.setBest side (book.scanBest side) else book

/-- `OrderBook::remove_order`: unlink an order from its level and free its slot. Returns its
side and price. -/
def removeOrder (book : OrderBook ticks) (arena : Arena) (index : ArenaIndex) :
    Except Fault ((Side × UInt64) × OrderBook ticks × Arena) := do
  let order ← arena.get index
  let side := order.side
  let price := order.price
  let qty := order.remaining
  let prev := order.prev
  let next := order.next
  let level := book.level side price
  let (level, arena) ←
    if prev ≠ arenaNull then do
      let arena ← arena.modify prev fun order => { order with next := next }
      pure (level, arena)
    else pure ({ level with head := if next ≠ arenaNull then some next else none }, arena)
  let (level, arena) ←
    if next ≠ arenaNull then do
      let arena ← arena.modify next fun order => { order with prev := prev }
      pure (level, arena)
    else pure ({ level with tail := if prev ≠ arenaNull then some prev else none }, arena)
  let book := book.setLevel side price { level with
    totalQuantity := level.totalQuantity - qty
    orderCount := level.orderCount - 1 }
  let book ← book.depthRemove side price qty
  let book := { book with orderIndex := book.orderIndex.erase order.id }
  let arena ← arena.free index
  let book :=
    if book.levelIsEmpty side price then
      (book.pruneIfSparseEmpty side price).refreshBestAfterLevelEmpty side price
    else book
  return ((side, price), book, arena)

/-- `OrderBook::ask_available_at_or_below`. -/
def askAvailableAtOrBelow (book : OrderBook ticks) (price : UInt64) : UInt64 :=
  let windowEnd := saturatingAdd book.denseBasePrice ticks.toUInt64
  match book.denseIndex price with
  | some i =>
    book.asks.depthIndex.prefixSumLe i +
      book.asks.sparseIndex.sumAtOrBelow (saturatingSub book.denseBasePrice 1)
  | none =>
    if windowEnd ≤ price then
      let denseTotal :=
        if 0 < ticks then book.asks.depthIndex.prefixSum (ticks.toNat - 1) else 0
      denseTotal + book.asks.sparseIndex.sumAtOrBelow price
    else book.asks.sparseIndex.sumAtOrBelow price

/-- `OrderBook::bid_available_at_or_above`. -/
def bidAvailableAtOrAbove (book : OrderBook ticks) (price : UInt64) : UInt64 :=
  let windowEnd := saturatingAdd book.denseBasePrice ticks.toUInt64
  match book.denseIndex price with
  | some i =>
    book.bids.depthIndex.suffixSumGe i + book.bids.sparseIndex.sumAtOrAbove windowEnd
  | none =>
    if price < book.denseBasePrice then
      let denseTotal :=
        if 0 < ticks then book.bids.depthIndex.prefixSum (ticks.toNat - 1) else 0
      denseTotal + book.bids.sparseIndex.sumAtOrAbove price
    else book.bids.sparseIndex.sumAtOrAbove price

end OrderBook

end MatchX
