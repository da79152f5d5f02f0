import Mathlib.Algebra.Order.Ring.Nat
import Mathlib.Data.List.Basic

/-!
# Shared types

Identifiers, orders, price levels, events and commands of the matching engine. Machine
integers are the fixed-width words of the source, so an addition or subtraction wraps as it
does in the release build; the saturating and checked operations of the source are written
out where it uses them. `Fault` names the ways in which a call can end without returning.
-/

namespace MatchX

/-- Newtype for order ids. -/
abbrev OrderId := UInt64

/-- Newtype for arena slot indices. -/
abbrev ArenaIndex := UInt32

/-- Sentinel index meaning "no link". -/
def arenaNull : ArenaIndex := 0xffffffff

/-- Sentinel group meaning "no self-trade group". -/
def stpNone : UInt32 := 0xffffffff

/-- The largest `u64`. -/
def u64Max : UInt64 := 0xffffffffffffffff

/-- Ways in which a call ends without returning: a panic (which aborts the release build), a
read of a slot that holds no order, or a loop that runs past the iterations it is given. -/
inductive Fault where
  /-- An arena slot is read, written or freed while it holds no order. -/
  | vacantSlot
  /-- `get_bid_level`: "missing bid level". -/
  | missingBidLevel
  /-- `get_ask_level`: "missing ask level". -/
  | missingAskLevel
  /-- `SparseVolumeIndex::sub`: "price not in sparse volume index". -/
  | sparsePriceMissing
  /-- `SparseVolumeIndex::sub`: "sparse volume index underflow". -/
  | sparseUnderflow
  /-- `reduce_order_qty`: "level qty underflow in reduce_order_qty". -/
  | levelUnderflow
  /-- `BTreeMap::range` with its start after its end. -/
  | rangeInverted
  /-- A write past the end of the event buffer. -/
  | eventOverflow
  /-- A loop of the model ran out of iterations. -/
  | exhausted
  deriving DecidableEq, Repr

/-- `u64::saturating_sub`. -/
def saturatingSub (left right : UInt64) : UInt64 := if right ≤ left then left - right else 0

/-- `u64::saturating_add`. -/
def saturatingAdd (left right : UInt64) : UInt64 :=
  if left ≤ u64Max - right then left + right else u64Max

/-- `u64::checked_sub`. -/
def checkedSub (left right : UInt64) : Option UInt64 :=
  if right ≤ left then some (left - right) else none

/-- Bid or ask. -/
inductive Side where
  /-- Buy side. -/
  | bid
  /-- Sell side. -/
  | ask
  deriving DecidableEq, Repr

/-- `Side::opposite`. -/
def Side.opposite : Side → Side
  | .bid => .ask
  | .ask => .bid

/-- Order type. -/
inductive OrderType where
  /-- Trade up to a limit price, rest the remainder. -/
  | limit
  /-- Trade at any price. -/
  | market
  /-- Rest without trading, or be refused. -/
  | postOnly
  /-- Wait for a trade price, then act as a limit order. -/
  | stopLimit
  /-- Rest showing one slice at a time. -/
  | iceberg
  deriving DecidableEq, Repr

/-- Time in force. -/
inductive TimeInForce where
  /-- Good till cancel. -/
  | gtc
  /-- Immediate or cancel. -/
  | ioc
  /-- Fill or kill. -/
  | fok
  deriving DecidableEq, Repr

/-- Self-trade prevention mode. -/
inductive StpMode where
  /-- Keep the resting order, stop the incoming one. -/
  | cancelNewest
  /-- Cancel the resting order, go on with the incoming one. -/
  | cancelOldest
  /-- Cancel both. -/
  | cancelBoth
  /-- Reduce both by their overlap, then cancel the incoming one. -/
  | decrementAndCancel
  deriving DecidableEq, Repr

/-- Reason of a rejection. -/
inductive RejectReason where
  /-- The stop price is missing. -/
  | invalidPrice
  /-- The quantity is zero. -/
  | invalidQuantity
  /-- Unknown instrument. -/
  | instrumentNotFound
  /-- The id names no resting order. -/
  | orderNotFound
  /-- Post-only rejection. -/
  | wouldCrossSpread
  /-- Fill-or-kill rejection. -/
  | insufficientLiquidity
  /-- The first maker is of the taker's group. -/
  | selfTradePreventionTriggered
  /-- The id is resting already. -/
  | duplicateOrderId
  deriving DecidableEq, Repr

/-- An order stored in the arena, linked into the queue of its price level. -/
structure Order where
  /-- Identifier. -/
  id : OrderId
  /-- Limit price in ticks. -/
  price : UInt64
  /-- Quantity the order rested with. -/
  quantity : UInt64
  /-- Quantity taken from it since. -/
  filled : UInt64
  /-- Not used by the engine. -/
  timestamp : UInt64
  /-- Slice size of an iceberg. -/
  visibleQuantity : UInt64
  /-- Self-trade group, `stpNone` for none. -/
  stpGroup : UInt32
  /-- Previous order of the level, `arenaNull` for none. -/
  prev : ArenaIndex
  /-- Next order of the level, `arenaNull` for none. -/
  next : ArenaIndex
  /-- Side it rests on. -/
  side : Side
  /-- Order type. -/
  orderType : OrderType
  /-- Time in force. -/
  timeInForce : TimeInForce
  deriving DecidableEq, Repr

namespace Order

/-- Remaining unfilled quantity. -/
def remaining (order : Order) : UInt64 := saturatingSub order.quantity order.filled

/-- Quantity available for matching: the rest of the current slice of an iceberg, the
remaining quantity of any other order. -/
def matchableQty (order : Order) : UInt64 :=
  if order.orderType = .iceberg ∧ 0 < order.visibleQuantity then
    let peak := order.visibleQuantity
    let filledThisSlice := order.filled % peak
    min (peak - filledThisSlice) order.remaining
  else order.remaining

end Order

/-- A price level: the ends of its queue and its totals. -/
structure PriceLevel where
  /-- Sum of the remaining quantities. -/
  totalQuantity : UInt64
  /-- Number of orders. -/
  orderCount : UInt32
  /-- First order of the queue. -/
  head : Option ArenaIndex
  /-- Last order of the queue. -/
  tail : Option ArenaIndex
  deriving DecidableEq, Repr

namespace PriceLevel

/-- `PriceLevel::EMPTY`. -/
def empty : PriceLevel := ⟨0, 0, none, none⟩

/-- Whether the level holds no order. -/
def isEmpty (level : PriceLevel) : Bool := level.orderCount == 0

end PriceLevel

/-- Metadata of an emitted event. -/
structure EventMeta where
  /-- Output sequence number. -/
  sequence : UInt64
  /-- Logical clock. -/
  timestampNs : UInt64
  deriving DecidableEq, Repr

/-- What an event reports. -/
inductive EventBody where
  /-- The order passed validation. -/
  | orderAccepted (id : OrderId) (side : Side) (price qty : UInt64) (orderType : OrderType)
  /-- The command was refused. -/
  | orderRejected (id : OrderId) (reason : RejectReason)
  /-- A trade. -/
  | fill (makerId takerId : OrderId) (price qty makerRemaining takerRemaining : UInt64)
  /-- An order left with this quantity unfilled. -/
  | orderCancelled (id : OrderId) (remainingQty : UInt64)
  /-- An order was withdrawn to be replaced. -/
  | orderModified (id : OrderId) (newPrice newQty : UInt64)
  /-- New total of a level, zero when the level is gone. -/
  | bookUpdate (side : Side) (price qty : UInt64)
  /-- A stop order was triggered. -/
  | stopTriggered (stopId newOrderId : OrderId)
  deriving DecidableEq, Repr

/-- An event of the engine: its metadata and its body. -/
structure MatchEvent where
  /-- Sequence number and clock. -/
  info : EventMeta
  /-- What happened. -/
  body : EventBody
  deriving DecidableEq, Repr

/-- The arguments with which an order is submitted to the engine. -/
structure NewOrder where
  /-- Identifier. -/
  id : OrderId
  /-- Side. -/
  side : Side
  /-- Limit price. -/
  price : UInt64
  /-- Quantity. -/
  qty : UInt64
  /-- Order type. -/
  orderType : OrderType
  /-- Time in force. -/
  timeInForce : TimeInForce
  /-- Iceberg slice. -/
  visibleQty : Option UInt64
  /-- Trigger price of a stop-limit order. -/
  stopPrice : Option UInt64
  /-- Self-trade group. -/
  stpGroup : Option UInt32
  deriving DecidableEq, Repr

/-- A good-till-cancel limit order without a self-trade group. -/
def NewOrder.gtc (id : OrderId) (side : Side) (price qty : UInt64) : NewOrder :=
  ⟨id, side, price, qty, .limit, .gtc, none, none, none⟩

/-- Commands into the engine. -/
inductive Command where
  /-- Submit an order for an instrument. -/
  | newOrder (instrumentId : UInt32) (order : NewOrder)
  /-- Cancel a resting order. -/
  | cancelOrder (id : OrderId)
  /-- Replace a resting order. -/
  | modifyOrder (id : OrderId) (newPrice newQty : UInt64)
  deriving DecidableEq, Repr

/-- The id of the resting order that a command is about. -/
def Command.target : Command → Option OrderId
  | .newOrder .. => none
  | .cancelOrder id | .modifyOrder id .. => some id

/-- Instrument configuration. -/
structure InstrumentConfig where
  /-- Instrument id. -/
  id : UInt32
  /-- Tick size. -/
  tickSize : UInt64
  /-- Lot size. -/
  lotSize : UInt64
  /-- First price of the dense window. -/
  basePrice : UInt64
  /-- Number of tick slots of the dense window, per side. -/
  maxTicks : UInt32
  /-- Self-trade prevention mode. -/
  stpMode : StpMode
  deriving DecidableEq, Repr

/-- An instrument whose window has four ticks from 0. -/
def smallConfig (mode : StpMode) : InstrumentConfig := ⟨1, 1, 1, 0, 4, mode⟩

end MatchX
