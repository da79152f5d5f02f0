import MatchX.Engine.Events

/-!
# The engine with a ledger of groups

A ledger that the engine does not see records the self-trade group under which each order was
submitted: of the order that rests under an id, of each stop, and, once the two have met in a
fill, of maker and taker. An order that replaces a modified one counts as submitted under the
group of the order it replaces. Without its ledger the engine is the one of the model.
-/

namespace MatchX

open MatchX.Support

/-- The groups under which orders were submitted. -/
structure Ledger where
  /-- The group of the last order submitted under an id that was not resting. -/
  resting : OrderId → Option UInt32
  /-- The groups of the buy stops, with their trigger prices. -/
  stopBids : List (UInt64 × Option UInt32)
  /-- The groups of the sell stops, with their trigger prices. -/
  stopAsks : List (UInt64 × Option UInt32)
  /-- The groups of maker and taker of every fill. -/
  trades : List (Option UInt32 × Option UInt32)

/-- The makers of the fills among some reports. -/
def fillMakers (bodies : List EventBody) : List OrderId :=
  bodies.filterMap fun
    | .fill makerId _ _ _ _ _ => some makerId
    | _ => none

namespace Ledger

/-- Nothing was submitted. -/
def empty : Ledger := ⟨fun _ => none, [], [], []⟩

/-- Record a stop order that waits for its trigger price. -/
def park (ledger : Ledger) (order : NewOrder) (group : Option UInt32) : Ledger :=
  match order.orderType, order.stopPrice, order.side with
  | .stopLimit, some stopPx, .bid =>
    if order.qty = 0 then ledger
    else { ledger with
      stopBids := MatchingEngine.insertStop ledger.stopBids (· < stopPx) stopPx group }
  | .stopLimit, some stopPx, .ask =>
    if order.qty = 0 then ledger
    else { ledger with
      stopAsks := MatchingEngine.insertStop ledger.stopAsks (stopPx < ·) stopPx group }
  | _, _, _ => ledger

/-- Record an order that the engine handles and the fills it reports. -/
def handle {config : InstrumentConfig} (ledger : Ledger) (before after : MatchingEngine config)
    (order : NewOrder) (group : Option UInt32) : Ledger :=
  { ledger.park order group with
    resting := fun id =>
      if id = order.id ∧ before.book.lookup id = none then group else ledger.resting id
    trades := ledger.trades ++ (fillMakers (before.emittedSince after)).map fun makerId =>
      (ledger.resting makerId, group) }

/-- The group of the first buy stop, which is taken. -/
def takeBid (ledger : Ledger) : Option UInt32 × Ledger :=
  ((ledger.stopBids.head?.bind Prod.snd), { ledger with stopBids := ledger.stopBids.tail })

/-- The group of the first sell stop, which is taken. -/
def takeAsk (ledger : Ledger) : Option UInt32 × Ledger :=
  ((ledger.stopAsks.head?.bind Prod.snd), { ledger with stopAsks := ledger.stopAsks.tail })

end Ledger

/-- An engine with its ledger. -/
structure Tracked (config : InstrumentConfig) where
  /-- The engine. -/
  engine : MatchingEngine config
  /-- The ledger. -/
  ledger : Ledger

namespace Tracked

variable {config : InstrumentConfig}

/-- `process_new_order` with an order that counts as submitted under a group. -/
def processNewOrder (tracked : Tracked config) (order : NewOrder) (group : Option UInt32) :
    Except Fault (Tracked config) := do
  let after ← tracked.engine.processNewOrder order
  return ⟨after, tracked.ledger.handle tracked.engine after order group⟩

/-- An iteration of an inner loop of `drain_stop_triggers`. -/
def fireStop (trigger : MatchingEngine config → Option (MatchingEngine config × NewOrder))
    (take : Ledger → Option UInt32 × Ledger) (tracked : Tracked config) :
    Except Fault (Flow (Tracked config) (Tracked config)) :=
  match trigger tracked.engine with
  | none => .ok (.done tracked)
  | some (engine, order) => do
    let tracked ← processNewOrder ⟨engine, (take tracked.ledger).2⟩ order (take tracked.ledger).1
    return .next tracked

/-- The loop over the buy stops. -/
def drainBuys (lastPrice : UInt64) (tracked : Tracked config) : Except Fault (Tracked config) :=
  loop .exhausted (fireStop (MatchingEngine.triggerBuy lastPrice) Ledger.takeBid)
    (tracked.engine.stopBids.length + 1) tracked

/-- The loop over the sell stops. -/
def drainSells (lastPrice : UInt64) (tracked : Tracked config) : Except Fault (Tracked config) :=
  loop .exhausted (fireStop (MatchingEngine.triggerSell lastPrice) Ledger.takeAsk)
    (tracked.engine.stopAsks.length + 1) tracked

/-- One pass of the outer loop of `drain_stop_triggers`. -/
def drainPass (tracked : Tracked config) :
    Except Fault (Flow (Tracked config) (Tracked config)) :=
  match tracked.engine.lastTradePrice with
  | none => .ok (.done tracked)
  | some lastPrice => do
    let tracked ← drainBuys lastPrice tracked
    let tracked ← drainSells lastPrice tracked
    if tracked.engine.lastTradePrice = some lastPrice then return .done tracked
    else return .next tracked

/-- `drain_stop_triggers`. -/
def drainStopTriggers (tracked : Tracked config) : Except Fault (Tracked config) :=
  loop .exhausted drainPass
    (tracked.engine.stopBids.length + tracked.engine.stopAsks.length + 1) tracked

/-- The command part of `process`. -/
def dispatch (tracked : Tracked config) : Command → Except Fault (Tracked config)
  | .newOrder _ order => tracked.processNewOrder order order.stpGroup
  | .cancelOrder id => do
    let engine ← tracked.engine.processCancel id
    return ⟨engine, tracked.ledger⟩
  | .modifyOrder id newPrice newQty =>
    match tracked.engine.book.lookup id with
    | some index => do
      let (engine, order) ← tracked.engine.withdraw index id newPrice newQty
      processNewOrder ⟨engine, tracked.ledger⟩ order (tracked.ledger.resting id)
    | none => .ok ⟨tracked.engine.emitRejected id .orderNotFound, tracked.ledger⟩

/-- `process`. -/
def process (tracked : Tracked config) (command : Command) : Except Fault (Tracked config) := do
  let tracked ← dispatch ⟨tracked.engine.clearEvents, tracked.ledger⟩ command
  let tracked ← tracked.drainStopTriggers
  if tracked.engine.eventBuf.length ≤ maxEventsPerCall then return tracked
  else .error .eventOverflow

/-- The runs of engines with their ledgers from new ones. -/
def Reaches (config : InstrumentConfig) (allowed : Tracked config → Command → Prop) :
    Tracked config → Prop :=
  Reached (fun tracked => ∃ capacity, tracked = ⟨MatchingEngine.new config capacity, .empty⟩)
    process allowed

/-! ## Without the ledger -/

section Erase

variable (tracked : Tracked config)

/-- Handling an order without the ledger. -/
theorem engine_processNewOrder (order : NewOrder) (group : Option UInt32) :
    (tracked.processNewOrder order group).map engine = tracked.engine.processNewOrder order := by
  unfold processNewOrder
  cases tracked.engine.processNewOrder order <;> rfl

/-- Firing a stop without the ledger. -/
theorem engine_fireStop
    {trigger : MatchingEngine config → Option (MatchingEngine config × NewOrder)}
    {take : Ledger → Option UInt32 × Ledger} (tracked : Tracked config) :
    (fireStop trigger take tracked).map (Flow.map engine engine) =
      MatchingEngine.fireStop trigger tracked.engine := by
  unfold fireStop MatchingEngine.fireStop
  cases trigger tracked.engine with
  | none => rfl
  | some fired =>
    simp only
    rw [← engine_processNewOrder ⟨fired.1, (take tracked.ledger).2⟩ fired.2
      (take tracked.ledger).1]
    cases processNewOrder ⟨fired.1, (take tracked.ledger).2⟩ fired.2 (take tracked.ledger).1 <;>
      rfl

/-- Draining the buy stops without the ledger. -/
theorem engine_drainBuys (lastPrice : UInt64) :
    (drainBuys lastPrice tracked).map engine =
      MatchingEngine.drainBuys lastPrice tracked.engine :=
  loop_map engine_fireStop _ _

/-- Draining the sell stops without the ledger. -/
theorem engine_drainSells (lastPrice : UInt64) :
    (drainSells lastPrice tracked).map engine =
      MatchingEngine.drainSells lastPrice tracked.engine :=
  loop_map engine_fireStop _ _

/-- A pass without the ledger. -/
theorem engine_drainPass : (drainPass tracked).map (Flow.map engine engine) =
    MatchingEngine.drainPass tracked.engine := by
  unfold drainPass MatchingEngine.drainPass
  cases tracked.engine.lastTradePrice with
  | none => rfl
  | some lastPrice =>
    simp only [← engine_drainBuys]
    cases drainBuys lastPrice tracked with
    | error fault => rfl
    | ok bought =>
      simp only [Except.map, bind, Except.bind, ← engine_drainSells]
      cases drainSells lastPrice bought with
      | error fault => rfl
      | ok sold =>
        by_cases still : sold.engine.lastTradePrice = some lastPrice
        · simp only [still, if_true]
          rfl
        · simp only [still, if_false]
          rfl

/-- Dispatching a command without the ledger. -/
theorem engine_dispatch (command : Command) :
    (tracked.dispatch command).map engine = tracked.engine.dispatch command := by
  cases command with
  | newOrder instrumentId order => exact engine_processNewOrder tracked order order.stpGroup
  | cancelOrder id =>
    simp only [dispatch, MatchingEngine.dispatch]
    cases tracked.engine.processCancel id <;> rfl
  | modifyOrder id newPrice newQty =>
    simp only [dispatch, MatchingEngine.dispatch, MatchingEngine.processModify]
    cases tracked.engine.book.lookup id with
    | none => rfl
    | some index =>
      simp only
      cases tracked.engine.withdraw index id newPrice newQty with
      | error fault => rfl
      | ok withdrawn => exact engine_processNewOrder ⟨withdrawn.1, tracked.ledger⟩ _ _

/-- A call without the ledger is the call of the model. -/
theorem engine_process (command : Command) :
    (tracked.process command).map engine = tracked.engine.process command := by
  unfold process MatchingEngine.process MatchingEngine.processUnbounded
  rw [← engine_dispatch ⟨tracked.engine.clearEvents, tracked.ledger⟩]
  cases dispatch ⟨tracked.engine.clearEvents, tracked.ledger⟩ command with
  | error fault => rfl
  | ok dispatched =>
    have drained : (drainStopTriggers dispatched).map engine =
        dispatched.engine.drainStopTriggers := loop_map engine_drainPass _ _
    simp only [Except.map, bind, Except.bind, ← drained]
    cases drainStopTriggers dispatched with
    | error fault => rfl
    | ok after =>
      by_cases fits : after.engine.eventBuf.length ≤ maxEventsPerCall
      · simp only [fits, if_true]
        rfl
      · simp only [fits, if_false]

end Erase

end Tracked

end MatchX
