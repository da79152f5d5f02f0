import MatchX.Engine.Events
import Mathlib.Data.List.Sort

/-!
# Stop queues

Each side's pending stops stand in the order in which a moving trade price reaches them. A call
keeps that order and ends with no pending stop that the last trade price has reached: the drain
leaves only when a pass at the last trade price has emptied both queues of such stops, and the
orders that it submits add none.
-/

namespace MatchX

open MatchX.Support

/-- Whether a stop of a side at the first trigger price is reached before one at the second, as
the trade price moves: buy stops as it rises, sell stops as it falls. -/
def reachedBefore : Side → UInt64 → UInt64 → Bool
  | .bid, first, second => first < second
  | .ask, first, second => second < first

/-- A pending stop may stand in front of another one. -/
def StandsBefore (side : Side) (front back : UInt64 × StopEntry) : Prop :=
  reachedBefore side back.1 front.1 = false

instance (side : Side) : DecidableRel (StandsBefore side) := fun front back => by
  unfold StandsBefore
  infer_instance

/-- Of any two stops one may stand in front of the other. -/
instance (side : Side) : Std.Total (StandsBefore side) where
  total front back := by
    cases side <;> simp only [StandsBefore, reachedBefore, decide_eq_false_iff_not, UInt64.not_lt]
    · exact UInt64.le_total _ _
    · exact UInt64.le_total _ _

/-- Standing in front is transitive. -/
instance (side : Side) : IsTrans (UInt64 × StopEntry) (StandsBefore side) where
  trans front middle back := by
    cases side <;> simp only [StandsBefore, reachedBefore, decide_eq_false_iff_not, UInt64.not_lt]
    · exact UInt64.le_trans
    · exact fun first second => UInt64.le_trans second first

namespace MatchingEngine

variable {config : InstrumentConfig} {engine engine' : MatchingEngine config} {queues : Queues}
  {command : Command} {order : NewOrder} {side : Side} {queue : List (UInt64 × StopEntry)}
  {pending : UInt64 × StopEntry} {stopPx lastPrice : UInt64} {entry : StopEntry}

/-- Inserting into a stop queue is an ordered insertion. -/
theorem insertStop_eq (side : Side) (queue : List (UInt64 × StopEntry)) (stopPx : UInt64)
    (entry : StopEntry) : insertStop queue (reachedBefore side · stopPx) stopPx entry =
      queue.orderedInsert (StandsBefore side) (stopPx, entry) := by
  induction queue with
  | nil => rfl
  | cons first rest ih =>
    rw [List.orderedInsert_cons]
    cases ahead : reachedBefore side first.1 stopPx with
    | true =>
      rw [if_neg (by simp [StandsBefore, ahead]), ← ih]
      simp [insertStop, partitionPoint, ahead]
    | false =>
      rw [if_pos (by simp [StandsBefore, ahead])]
      simp [insertStop, partitionPoint, ahead]

/-- The stops of a side stand in order, each is of that side and has a quantity. -/
structure Orderly (side : Side) (queue : List (UInt64 × StopEntry)) : Prop where
  /-- The stops stand in order. -/
  sorted : queue.Pairwise (StandsBefore side)
  /-- Each is of the side and has a quantity. -/
  entries : ∀ pending ∈ queue, pending.2.side = side ∧ pending.2.qty ≠ 0

/-- No stop is orderly. -/
theorem Orderly.nil (side : Side) : Orderly side [] := ⟨.nil, by simp⟩

/-- The stops behind the first one are orderly. -/
theorem Orderly.tail (orderly : Orderly side (pending :: queue)) : Orderly side queue :=
  ⟨(List.pairwise_cons.mp orderly.sorted).2,
    fun later member => orderly.entries later (List.mem_cons_of_mem _ member)⟩

/-- An insertion of a stop of the side with a quantity is orderly. -/
theorem Orderly.insert (orderly : Orderly side queue) (onSide : entry.side = side)
    (proper : entry.qty ≠ 0) :
    Orderly side (insertStop queue (reachedBefore side · stopPx) stopPx entry) := by
  rw [insertStop_eq]
  refine ⟨orderly.sorted.orderedInsert _ _, fun pending member => ?_⟩
  rcases (List.mem_orderedInsert _).mp member with rfl | old
  · exact ⟨onSide, proper⟩
  · exact orderly.entries pending old

/-- When the trade price has not reached the first stop it has reached none. -/
theorem Orderly.unreached (orderly : Orderly side (pending :: queue))
    (first : reachedBefore side lastPrice pending.1 = true) :
    ∀ later ∈ pending :: queue, reachedBefore side lastPrice later.1 = true := by
  intro later member
  rcases List.mem_cons.mp member with rfl | behind
  · exact first
  · have order := (List.pairwise_cons.mp orderly.sorted).1 later behind
    cases side
    · simp only [StandsBefore, reachedBefore, decide_eq_false_iff_not, decide_eq_true_eq,
        UInt64.not_lt] at order first ⊢
      exact UInt64.lt_of_lt_of_le first order
    · simp only [StandsBefore, reachedBefore, decide_eq_false_iff_not, decide_eq_true_eq,
        UInt64.not_lt] at order first ⊢
      exact UInt64.lt_of_le_of_lt order first

/-! ## The stops of an engine -/

/-- The pending stops of a side. -/
def stops (engine : MatchingEngine config) : Side → List (UInt64 × StopEntry)
  | .bid => engine.stopBids
  | .ask => engine.stopAsks

/-- The next stop of a side that the last trade price triggers. -/
def trigger : Side → UInt64 → MatchingEngine config → Option (MatchingEngine config × NewOrder)
  | .bid => triggerBuy
  | .ask => triggerSell

/-- A side that is not another one is the opposite of it. -/
theorem eq_opposite {other : Side} (apart : side ≠ other) : side = other.opposite := by
  cases side <;> cases other <;> first | rfl | exact absurd rfl apart

/-- The pending stops are kept by what leaves both queues as they are. -/
theorem stops_congr (bids : engine'.stopBids = engine.stopBids)
    (asks : engine'.stopAsks = engine.stopAsks) (side : Side) :
    engine'.stops side = engine.stops side := by
  cases side
  · exact bids
  · exact asks

/-- The engine after the first stop of a side left its queue and was reported. -/
structure Popped (engine : MatchingEngine config) (side : Side) (stopPx : UInt64)
    (entry : StopEntry) (site : MatchingEngine config) : Prop where
  /-- The stop was the first one. -/
  first : engine.stops side = (stopPx, entry) :: site.stops side
  /-- The other queue is kept. -/
  other : site.stops side.opposite = engine.stops side.opposite
  /-- The last trade price is kept. -/
  price : site.lastTradePrice = engine.lastTradePrice
  /-- The stop is reported. -/
  bodies : site.bodies = engine.bodies ++ [.stopTriggered entry.id entry.id]
  /-- The book is kept. -/
  book : site.book = engine.book
  /-- The arena is kept. -/
  arena : site.arena = engine.arena

/-- A stop that is triggered is the first one of its queue, and the trade price has reached it. -/
theorem trigger_some {site : MatchingEngine config}
    (triggered : trigger side lastPrice engine = some (site, order)) :
    ∃ stopPx entry, order = entry.order ∧ reachedBefore side lastPrice stopPx = false ∧
      Popped engine side stopPx entry site := by
  cases side with
  | bid =>
    change triggerBuy lastPrice engine = _ at triggered
    unfold triggerBuy at triggered
    split at triggered
    · contradiction
    · rename_i stopPx entry rest queue
      split at triggered
      · contradiction
      · rename_i reached
        obtain ⟨rfl, rfl⟩ := Prod.mk.inj (Option.some.inj triggered)
        exact ⟨stopPx, entry, rfl, decide_eq_false reached, queue, rfl, rfl, emit_bodies _ _, rfl, rfl⟩
  | ask =>
    change triggerSell lastPrice engine = _ at triggered
    unfold triggerSell at triggered
    split at triggered
    · contradiction
    · rename_i stopPx entry rest queue
      split at triggered
      · contradiction
      · rename_i reached
        obtain ⟨rfl, rfl⟩ := Prod.mk.inj (Option.some.inj triggered)
        exact ⟨stopPx, entry, rfl, decide_eq_false reached, queue, rfl, rfl, emit_bodies _ _, rfl, rfl⟩

/-- When no stop is triggered the trade price has reached none. -/
theorem trigger_none (orderly : Orderly side (engine.stops side))
    (none : trigger side lastPrice engine = none) :
    ∀ pending ∈ engine.stops side, reachedBefore side lastPrice pending.1 = true := by
  cases queue : engine.stops side with
  | nil => simp
  | cons pending rest =>
    rw [queue] at orderly
    refine orderly.unreached ?_
    obtain ⟨stopPx, entry⟩ := pending
    cases side with
    | bid =>
      change engine.stopBids = _ at queue
      simp only [trigger, triggerBuy, queue] at none
      split at none
      · rename_i beyond
        exact decide_eq_true beyond
      · contradiction
    | ask =>
      change engine.stopAsks = _ at queue
      simp only [trigger, triggerSell, queue] at none
      split at none
      · rename_i beyond
        exact decide_eq_true beyond
      · contradiction

/-- A stop that fires is the first one of its queue, and the trade price at which the pass of
the drain began has reached it. -/
theorem Fires.popped {start before site : MatchingEngine config}
    (fired : Fires start before site order) :
    ∃ side stopPx entry, order = entry.order ∧ Popped before side stopPx entry site := by
  cases fired with
  | buy _ _ _ triggered =>
    obtain ⟨stopPx, entry, same, -, popped⟩ := trigger_some (show trigger .bid _ _ = _ from triggered)
    exact ⟨.bid, stopPx, entry, same, popped⟩
  | sell _ _ _ _ triggered =>
    obtain ⟨stopPx, entry, same, -, popped⟩ := trigger_some (show trigger .ask _ _ = _ from triggered)
    exact ⟨.ask, stopPx, entry, same, popped⟩

/-- The entry that a stop order waits as. -/
def stopEntry (order : NewOrder) : StopEntry :=
  ⟨order.id, order.side, order.price, order.qty, order.timeInForce, order.visibleQty,
    order.stpGroup⟩

/-- A stop order that is parked stands in the queue of its side. -/
theorem processStopLimit_stops (kept : engine.processStopLimit order = engine')
    (parked : engine'.bodies = (engine.accept order).bodies) :
    order.qty ≠ 0 ∧ ∃ stopPx, order.stopPrice = some stopPx ∧ ∀ side, engine'.stops side =
      if side = order.side then
        insertStop (engine.stops side) (reachedBefore side · stopPx) stopPx (stopEntry order)
      else engine.stops side := by
  have refused : ∀ reason, engine.emitRejected order.id reason ≠ engine' := by
    rintro reason rfl
    rw [emitRejected_bodies, accept_bodies] at parked
    have last := List.append_cancel_left parked
    simp at last
  unfold processStopLimit at kept
  split at kept
  · exact absurd kept (refused _)
  rename_i proper
  split at kept
  · exact absurd kept (refused _)
  rename_i stopPx given
  refine ⟨proper, stopPx, given, fun side => ?_⟩
  dsimp only at kept
  split at kept
  · rename_i buys
    subst kept
    cases side <;> simp [stops, stopEntry, reachedBefore, buys]
  · rename_i sells
    subst kept
    cases side <;> simp [stops, stopEntry, reachedBefore, sells]

/-- The stops of both sides are orderly. -/
def StopsOrderly (engine : MatchingEngine config) : Prop :=
  ∀ side, Orderly side (engine.stops side)

/-- Handling an order keeps the stops orderly. -/
theorem Handled.stopsOrderly (sound : engine.Sound queues) (orderly : engine.StopsOrderly)
    (handled : Handled engine queues order engine') : engine'.StopsOrderly := by
  by_cases waits : order.orderType = .stopLimit
  · cases handled with
    | rejected => exact orderly
    | parked _ stopped _ _ bodies =>
      obtain ⟨proper, stopPx, -, stands⟩ := processStopLimit_stops stopped bodies
      intro side
      rw [stands]
      split
      · rename_i onSide
        exact (orderly side).insert onSide.symm proper
      · exact orderly side
    | posted kind => simp [waits] at kind
    | matched kind => exact absurd waits kind.2
  · intro side
    obtain ⟨bids, asks⟩ := handled.stops_eq sound waits
    rw [stops_congr bids asks]
    exact orderly side

/-- Taking the first stop of a queue keeps the stops orderly. -/
theorem Popped.stopsOrderly {site : MatchingEngine config} (orderly : engine.StopsOrderly)
    (popped : Popped engine side stopPx entry site) : site.StopsOrderly := by
  have here := orderly side
  rw [popped.first] at here
  have there := orderly side.opposite
  rw [← popped.other] at there
  intro other
  by_cases same : other = side
  · exact same ▸ here.tail
  · exact eq_opposite same ▸ there

/-- Every part of a call keeps the stops orderly. -/
theorem orderly_kept (engine : MatchingEngine config) (command : Command) :
    Kept engine command fun state => (∃ queues, state.Sound queues) ∧ state.StopsOrderly where
  cancels id after asked := by
    rintro ⟨⟨queues, sound⟩, orderly⟩ returned
    refine ⟨(sound_kept engine command).cancels id after asked ⟨queues, sound⟩ returned, ?_⟩
    cases processCancel_cases sound returned with
    | missing => exact orderly
    | removed => exact orderly
  withdraws id newPrice newQty index site order asked := by
    rintro ⟨⟨queues, sound⟩, orderly⟩ held withdrawn
    refine ⟨(sound_kept engine command).withdraws id newPrice newQty index site order asked
      ⟨queues, sound⟩ held withdrawn, ?_⟩
    cases withdraw_cases sound held withdrawn with
    | removed => exact orderly
  misses id newPrice newQty _ := by
    rintro ⟨⟨queues, sound⟩, orderly⟩
    exact ⟨⟨queues, sound.congr rfl rfl⟩, orderly⟩
  fires start before site order _ fired := by
    rintro ⟨⟨queues, sound⟩, orderly⟩
    obtain ⟨side, stopPx, entry, -, popped⟩ := fired.popped
    exact ⟨⟨queues, sound.congr popped.book popped.arena⟩, popped.stopsOrderly orderly⟩
  handles site order after _ := by
    rintro ⟨⟨queues, sound⟩, orderly⟩ returned
    have handled := processNewOrder_cases sound returned
    exact ⟨handled.sound sound, handled.stopsOrderly sound orderly⟩

/-! ## The end of the drain -/

/-- The last trade price has reached no pending stop. -/
def Quiet (engine : MatchingEngine config) : Prop :=
  ∀ lastPrice, engine.lastTradePrice = some lastPrice →
    ∀ side, ∀ pending ∈ engine.stops side, reachedBefore side lastPrice pending.1 = true

/-- The order of a stop is no stop order. -/
theorem stopEntry_order_kind (entry : StopEntry) : entry.order.orderType ≠ .stopLimit := by
  simp [StopEntry.order]

/-- An iteration of an inner loop of the drain takes the first stop of its side and handles its
order, which leaves the other stops as they are. -/
theorem fireStop_popped {before after : MatchingEngine config} (sound : before.Sound queues)
    (step : fireStop (trigger side lastPrice) before = .ok (.next after)) :
    ∃ site stopPx entry, Popped before side stopPx entry site ∧ site.Sound queues ∧
      Handled site queues entry.order after ∧ ∀ other, after.stops other = site.stops other := by
  obtain ⟨site, order, triggered, returned⟩ := fireStop_next step
  obtain ⟨stopPx, entry, rfl, -, popped⟩ := trigger_some triggered
  have sound' : site.Sound queues := sound.congr popped.book popped.arena
  have handled := processNewOrder_cases sound' returned
  obtain ⟨bids, asks⟩ := handled.stops_eq sound' (stopEntry_order_kind entry)
  exact ⟨site, stopPx, entry, popped, sound', handled, stops_congr bids asks⟩

/-- An inner loop of the drain leaves no stop of its side that the price of the pass has reached,
and the stops of the other side as they were. -/
theorem fireStops_exhaust {pass after : MatchingEngine config} {fuel : Nat}
    (begins : (∃ queues, pass.Sound queues) ∧ pass.StopsOrderly)
    (returned : loop .exhausted (fireStop (trigger side lastPrice)) fuel pass = .ok after) :
    ((∃ queues, after.Sound queues) ∧ after.StopsOrderly) ∧
      (∀ pending ∈ after.stops side, reachedBefore side lastPrice pending.1 = true) ∧
      after.stops side.opposite = pass.stops side.opposite := by
  obtain ⟨last, visits, exit⟩ := loop_exit returned
  have held : ((∃ queues, last.Sound queues) ∧ last.StopsOrderly) ∧
      last.stops side.opposite = pass.stops side.opposite := by
    clear exit
    induction visits with
    | refl => exact ⟨begins, rfl⟩
    | tail _ step held =>
      obtain ⟨⟨⟨queues, sound⟩, orderly⟩, other⟩ := held
      obtain ⟨site, stopPx, entry, popped, sound', handled, still⟩ := fireStop_popped sound step
      refine ⟨⟨handled.sound sound', handled.stopsOrderly sound' (popped.stopsOrderly orderly)⟩, ?_⟩
      rw [still, popped.other, other]
  rw [fireStop_done exit]
  refine ⟨held.1, ?_, held.2⟩
  exact trigger_none (held.1.2 side) (fireStop_idle exit)

/-- A pass of the drain leaves no stop that the price at which it began has reached. -/
theorem drainPass_exhaust {pass : MatchingEngine config}
    {flow : Flow (MatchingEngine config) (MatchingEngine config)}
    (begins : (∃ queues, pass.Sound queues) ∧ pass.StopsOrderly)
    (step : drainPass pass = .ok flow) :
    (flow = .done pass ∧ pass.lastTradePrice = none) ∨
    ∃ lastPrice after, pass.lastTradePrice = some lastPrice ∧
      (∀ side, ∀ pending ∈ after.stops side, reachedBefore side lastPrice pending.1 = true) ∧
      flow = if after.lastTradePrice = some lastPrice then .done after else .next after := by
  cases traded : pass.lastTradePrice with
  | none =>
    unfold drainPass at step
    rw [traded] at step
    exact .inl ⟨(Except.ok.inj step).symm, rfl⟩
  | some lastPrice =>
    obtain ⟨bought, sold, buys, sells, leaves⟩ := drainPass_parts traded step
    obtain ⟨held, bids, -⟩ := fireStops_exhaust (show _ from begins)
      (show loop _ (fireStop (trigger .bid lastPrice)) _ _ = _ from buys)
    obtain ⟨-, asks, kept⟩ := fireStops_exhaust (show _ from held)
      (show loop _ (fireStop (trigger .ask lastPrice)) _ _ = _ from sells)
    refine .inr ⟨lastPrice, sold, rfl, fun side => ?_, leaves⟩
    cases side with
    | bid =>
      change sold.stops .bid = bought.stops .bid at kept
      rw [kept]
      exact bids
    | ask => exact asks

/-- A drain that returns leaves no stop that the last trade price has reached. -/
theorem drain_quiet {start result : MatchingEngine config}
    (each : ∀ pass, Visits drainPass start pass →
      (∃ queues, pass.Sound queues) ∧ pass.StopsOrderly)
    (returned : start.drainStopTriggers = .ok result) : result.Quiet := by
  obtain ⟨last, passes, exit⟩ := loop_exit returned
  intro lastPrice traded
  rcases drainPass_exhaust (each last passes) exit with
    ⟨same, untraded⟩ | ⟨price, after, -, quiet, leaves⟩
  · obtain rfl := Flow.done.inj same
    rw [untraded] at traded
    contradiction
  · split at leaves
    · rename_i unchanged
      obtain rfl := Flow.done.inj leaves
      rw [unchanged] at traded
      obtain rfl := Option.some.inj traded
      exact quiet
    · contradiction

/-- Every part of a call's drain begins with orderly stops, and it ends with no stop that the last
trade price has reached. -/
theorem quiet_returns (begins : (∃ queues, engine.Sound queues) ∧ engine.StopsOrderly)
    (completed : engine.process command = .ok engine') : engine'.Quiet := by
  obtain ⟨start, dispatched, drains, -⟩ := process_drained completed
  have clear : (∃ queues, engine.clearEvents.Sound queues) ∧ engine.clearEvents.StopsOrderly := by
    obtain ⟨⟨queues, sound⟩, orderly⟩ := begins
    exact ⟨⟨queues, sound.congr rfl rfl⟩, orderly⟩
  have kept := orderly_kept engine command
  have initial := kept.dispatch clear dispatched
  refine drain_quiet (fun pass passes => ?_) drains
  exact drain_visits initial (kept.carries.fired dispatched) (kept.carries.handled dispatched) passes

/-- In every engine of a run the stops are orderly and the last trade price has reached none. -/
theorem Reachable.stops (reachable : Reachable engine) :
    ((∃ queues, engine.Sound queues) ∧ engine.StopsOrderly) ∧ engine.Quiet := by
  refine Reached.invariant ?_ ?_ reachable
  · rintro engine ⟨capacity, rfl⟩
    refine ⟨⟨⟨_, sound_new config capacity⟩, fun side => ?_⟩, fun price traded => ?_⟩
    · cases side <;> exact Orderly.nil _
    · contradiction
  · rintro engine command following ⟨begins, -⟩ - completed
    refine ⟨?_, quiet_returns begins completed⟩
    obtain ⟨⟨queues, sound⟩, orderly⟩ := begins
    exact (orderly_kept engine command).returns ⟨⟨queues, sound.congr rfl rfl⟩, orderly⟩ completed

/-- What the stop queues are between two calls. -/
structure StopsAtRest (engine : MatchingEngine config) : Prop where
  /-- The buy stops stand by trigger price ascending. -/
  bidsSorted : engine.stopBids.Pairwise fun front back => front.1 ≤ back.1
  /-- The sell stops stand by trigger price descending. -/
  asksSorted : engine.stopAsks.Pairwise fun front back => back.1 ≤ front.1
  /-- The buy stops are buy orders with a quantity. -/
  bids : ∀ pending ∈ engine.stopBids, pending.2.side = .bid ∧ 0 < pending.2.qty
  /-- The sell stops are sell orders with a quantity. -/
  asks : ∀ pending ∈ engine.stopAsks, pending.2.side = .ask ∧ 0 < pending.2.qty
  /-- The last trade price is below every buy stop and above every sell stop. -/
  quiet : ∀ lastPrice, engine.lastTradePrice = some lastPrice →
    (∀ pending ∈ engine.stopBids, lastPrice < pending.1) ∧
      ∀ pending ∈ engine.stopAsks, pending.1 < lastPrice

/-- Between any two calls of any run the stop queues are sorted, hold entries of their side with a
quantity, and hold none that the last trade price has reached. -/
theorem stops_at_rest (config : InstrumentConfig) (engine : MatchingEngine config)
    (reachable : Reachable engine) : engine.StopsAtRest := by
  obtain ⟨⟨-, orderly⟩, quiet⟩ := reachable.stops
  have proper : ∀ side, ∀ pending ∈ engine.stops side, pending.2.side = side ∧ 0 < pending.2.qty :=
    fun side pending member => by
      obtain ⟨onSide, positive⟩ := (orderly _).entries pending member
      exact ⟨onSide, UInt64.pos_iff_ne_zero.mpr positive⟩
  have bids : engine.stopBids.Pairwise fun front back => front.1 ≤ back.1 :=
    (orderly .bid).sorted.imp fun stands => UInt64.not_lt.mp (of_decide_eq_false stands)
  have asks : engine.stopAsks.Pairwise fun front back => back.1 ≤ front.1 :=
    (orderly .ask).sorted.imp fun stands => UInt64.not_lt.mp (of_decide_eq_false stands)
  refine ⟨bids, asks, proper .bid, proper .ask, fun lastPrice traded => ?_⟩
  exact ⟨fun pending member => of_decide_eq_true (quiet lastPrice traded .bid pending member),
    fun pending member => of_decide_eq_true (quiet lastPrice traded .ask pending member)⟩

/-- After a stop was parked beside a trade below its price, the stop queues are at rest. -/
theorem stops_at_rest_of_parked :
    ∃ engine : MatchingEngine (smallConfig .cancelNewest), engine.StopsAtRest ∧
      (engine.stopBids.length == 1 && engine.lastTradePrice == some 2) = true := by
  obtain ⟨engine, reachable, shown⟩ := Reachable.exists_run
    (fun engine : MatchingEngine (smallConfig .cancelNewest) =>
      engine.stopBids.length == 1 && engine.lastTradePrice == some 2) 8
    [.submit { NewOrder.gtc 1 .bid 3 5 with orderType := .stopLimit, stopPrice := some 3 },
      .submit (.gtc 2 .ask 2 4), .submit (.gtc 3 .bid 2 4)] (by decide +kernel)
  exact ⟨engine, stops_at_rest _ engine reachable, shown⟩

end MatchingEngine

end MatchX
