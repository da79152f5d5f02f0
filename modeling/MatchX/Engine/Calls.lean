import MatchX.Engine.Orders
import MatchX.Support.Runs

/-!
# Calls of the engine

A call dispatches a command and then drains the stops that are triggered. `Submits` relates a
call to every state from which it hands an order to `process_new_order`, with that order:
the order of the command, the replacement of a modified order, and the order of each stop that
fires. A property that every part of a call keeps holds at each of these states and at the end
of the call. The engines reached from a new one by completed calls are sound.
-/

namespace MatchX

open MatchX.Support

/-- Submit an order. -/
def Command.submit (order : NewOrder) : Command := .newOrder 1 order

namespace MatchingEngine

variable {config : InstrumentConfig} {engine engine' : MatchingEngine config} {queues : Queues}
  {command : Command} {order : NewOrder} {id : OrderId} {newPrice newQty : UInt64}
  {index : ArenaIndex}

/-! ## Cancelling and withdrawing -/

/-- What becomes of a cancel command. -/
inductive Cancelled (engine : MatchingEngine config) (queues : Queues) (id : OrderId) :
    MatchingEngine config → Prop
  /-- The id names no resting order. -/
  | missing (absent : engine.book.lookup id = none) :
    Cancelled engine queues id (engine.emitRejected id .orderNotFound)
  /-- The order is removed. -/
  | removed {index order book arena} (held : engine.book.lookup id = some index)
      (found : engine.arena.find index = some order) (named : order.id = id)
      (removed : Removed engine.book engine.arena queues order.unlinked index book arena) :
    Cancelled engine queues id
      (((engine.withBook book arena).emit (.orderCancelled id order.remaining)).emitLevel
        order.side order.price)

/-- A slot that the index names holds an order of that id. -/
theorem Sound.held (sound : engine.Sound queues) (held : engine.book.lookup id = some index) :
    ∃ order, engine.arena.find index = some order ∧ order.id = id := by
  obtain ⟨resting, rests, named⟩ := (sound.rep.indexed id index).mp held
  obtain ⟨order, found, rfl⟩ := Arena.find_of_resting rests
  exact ⟨order, found, named⟩

/-- `process_cancel` does one of the things listed. -/
theorem processCancel_cases (sound : engine.Sound queues)
    (returned : engine.processCancel id = .ok engine') : Cancelled engine queues id engine' := by
  unfold processCancel at returned
  cases held : engine.book.lookup id with
  | none =>
    rw [held] at returned
    obtain rfl := Except.ok.inj returned
    exact .missing held
  | some index =>
    obtain ⟨order, found, named⟩ := sound.held held
    have get : engine.arena.get index = .ok order := Arena.get_ok.mpr found
    simp only [held, get, bind, Except.bind, pure, Except.pure] at returned
    split at returned
    · contradiction
    · rename_i removal
      obtain rfl := Except.ok.inj returned
      obtain ⟨book, arena, rfl, removed⟩ := removeMaker_ok sound.rep found removal
      exact .removed held found named removed

/-- Withdrawing an order removes it, reports it, and resubmits it under its id with another
price and quantity. -/
inductive Withdrawn (engine : MatchingEngine config) (queues : Queues) (index : ArenaIndex)
    (id : OrderId) (newPrice newQty : UInt64) : MatchingEngine config × NewOrder → Prop
  /-- The order is removed. -/
  | removed {order book arena} (found : engine.arena.find index = some order)
      (removed : Removed engine.book engine.arena queues order.unlinked index book arena) :
    Withdrawn engine queues index id newPrice newQty
      (((engine.withBook book arena).emit (.orderModified id newPrice newQty)).emitLevel
        order.side order.price, replacement id order.side newPrice newQty)

/-- `process_modify` withdraws a resting order in the way stated. -/
theorem withdraw_cases {withdrawn : MatchingEngine config × NewOrder}
    (sound : engine.Sound queues) (held : engine.book.lookup id = some index)
    (returned : engine.withdraw index id newPrice newQty = .ok withdrawn) :
    Withdrawn engine queues index id newPrice newQty withdrawn := by
  obtain ⟨order, found, named⟩ := sound.held held
  have get : engine.arena.get index = .ok order := Arena.get_ok.mpr found
  unfold withdraw at returned
  simp only [get, bind, Except.bind, pure, Except.pure] at returned
  split at returned
  · contradiction
  · rename_i removal
    obtain rfl := Except.ok.inj returned
    obtain ⟨book, arena, rfl, removed⟩ := removeMaker_ok sound.rep found removal
    exact .removed found removed

/-! ## Draining stops -/

/-- The drain of the stops entered at `start` takes the next triggered stop at `before`, which
leaves it at `site` with an order to submit. -/
inductive Fires (start : MatchingEngine config) :
    MatchingEngine config → MatchingEngine config → NewOrder → Prop
  /-- The stop is a buy stop. -/
  | buy {pass before site order lastPrice} (passes : Visits drainPass start pass)
      (traded : pass.lastTradePrice = some lastPrice)
      (visits : Visits (fireStop (triggerBuy lastPrice)) pass before)
      (triggered : triggerBuy lastPrice before = some (site, order)) :
    Fires start before site order
  /-- The stop is a sell stop. -/
  | sell {pass bought before site order lastPrice} (passes : Visits drainPass start pass)
      (traded : pass.lastTradePrice = some lastPrice)
      (buys : drainBuys lastPrice pass = .ok bought)
      (visits : Visits (fireStop (triggerSell lastPrice)) bought before)
      (triggered : triggerSell lastPrice before = some (site, order)) :
    Fires start before site order

/-- An iteration of an inner loop of the drain submits the stop that is triggered. -/
theorem fireStop_next
    {trigger : MatchingEngine config → Option (MatchingEngine config × NewOrder)}
    {before after : MatchingEngine config} (step : fireStop trigger before = .ok (.next after)) :
    ∃ site order, trigger before = some (site, order) ∧ site.processNewOrder order = .ok after := by
  unfold fireStop at step
  cases triggered : trigger before with
  | none =>
    rw [triggered] at step
    cases step
  | some fired =>
    obtain ⟨site, order⟩ := fired
    simp only [triggered, bind, Except.bind, pure, Except.pure] at step
    split at step
    · contradiction
    · rename_i after' handled
      obtain rfl : after' = after := Flow.next.inj (Except.ok.inj step)
      exact ⟨site, order, rfl, handled⟩

/-- An inner loop of the drain ends where no stop is triggered. -/
theorem fireStop_done
    {trigger : MatchingEngine config → Option (MatchingEngine config × NewOrder)}
    {before after : MatchingEngine config} (step : fireStop trigger before = .ok (.done after)) :
    after = before := by
  unfold fireStop at step
  split at step
  · exact (Flow.done.inj (Except.ok.inj step)).symm
  · simp only [bind, Except.bind, pure, Except.pure] at step
    split at step <;> cases step

/-- An inner loop of the drain ends when no stop is triggered. -/
theorem fireStop_idle
    {trigger : MatchingEngine config → Option (MatchingEngine config × NewOrder)}
    {before after : MatchingEngine config} (step : fireStop trigger before = .ok (.done after)) :
    trigger before = none := by
  unfold fireStop at step
  split at step
  · assumption
  · simp only [bind, Except.bind, pure, Except.pure] at step
    split at step <;> cases step

/-- A pass of the drain at a trade price goes through the buy stops and then the sell stops, and
another one follows when the trade price has moved. -/
theorem drainPass_parts {pass : MatchingEngine config} {lastPrice : UInt64}
    {flow : Flow (MatchingEngine config) (MatchingEngine config)}
    (traded : pass.lastTradePrice = some lastPrice) (step : drainPass pass = .ok flow) :
    ∃ bought sold, drainBuys lastPrice pass = .ok bought ∧ drainSells lastPrice bought = .ok sold ∧
      flow = if sold.lastTradePrice = some lastPrice then .done sold else .next sold := by
  unfold drainPass at step
  simp only [traded, bind, Except.bind, pure, Except.pure] at step
  cases buys : drainBuys lastPrice pass with
  | error fault => simp [buys] at step
  | ok bought =>
    simp only [buys] at step
    cases sells : drainSells lastPrice bought with
    | error fault => simp [sells] at step
    | ok sold =>
      simp only [sells] at step
      refine ⟨bought, sold, rfl, sells, ?_⟩
      split at step
      · rename_i still
        rw [if_pos still]
        exact (Except.ok.inj step).symm
      · rename_i moved
        rw [if_neg moved]
        exact (Except.ok.inj step).symm

section Drain

variable {inv : MatchingEngine config → Prop} {ready : MatchingEngine config → NewOrder → Prop}
  {start : MatchingEngine config} (initial : inv start)
  (fires : ∀ before site order, Fires start before site order → inv before → ready site order)
  (handles : ∀ before site order after, Fires start before site order → ready site order →
    site.processNewOrder order = .ok after → inv after)

/-- The states between the stops that an inner loop submits. -/
theorem fireStop_visits
    {trigger : MatchingEngine config → Option (MatchingEngine config × NewOrder)}
    {pass before : MatchingEngine config} (holds : inv pass)
    (each : ∀ before site order, Visits (fireStop trigger) pass before →
      trigger before = some (site, order) → Fires start before site order)
    (fires : ∀ before site order, Fires start before site order → inv before → ready site order)
    (handles : ∀ before site order after, Fires start before site order → ready site order →
      site.processNewOrder order = .ok after → inv after)
    (visits : Visits (fireStop trigger) pass before) : inv before := by
  induction visits with
  | refl => exact holds
  | tail seen step ih =>
    obtain ⟨site, order, triggered, handled⟩ := fireStop_next step
    have fired := each _ site order seen triggered
    exact handles _ site order _ fired (fires _ site order fired ih) handled

include fires handles

/-- A pass of the drain keeps what firing and submitting keep. -/
theorem drainPass_keeps {pass : MatchingEngine config} (passes : Visits drainPass start pass)
    (holds : inv pass) {flow : Flow (MatchingEngine config) (MatchingEngine config)}
    (step : drainPass pass = .ok flow) :
    match flow with
    | .next following => inv following
    | .done result => inv result := by
  cases traded : pass.lastTradePrice with
  | none =>
    unfold drainPass at step
    rw [traded] at step
    obtain rfl := Except.ok.inj step
    exact holds
  | some lastPrice =>
    obtain ⟨bought, sold, buys, sells, leaves⟩ := drainPass_parts traded step
    have afterBuys : inv bought := by
      obtain ⟨last, visits, exit⟩ := loop_exit buys
      rw [fireStop_done exit]
      exact fireStop_visits holds (fun _ _ _ => .buy passes traded) fires handles visits
    have afterSells : inv sold := by
      obtain ⟨last, visits, exit⟩ := loop_exit sells
      rw [fireStop_done exit]
      exact fireStop_visits afterBuys (fun _ _ _ => .sell passes traded buys) fires handles visits
    split at leaves <;> (subst leaves; exact afterSells)

include initial

/-- Every pass of the drain starts from a state with what firing and submitting keep. -/
theorem drain_visits {pass : MatchingEngine config} (passes : Visits drainPass start pass) :
    inv pass := by
  induction passes with
  | refl => exact initial
  | tail seen step ih => exact drainPass_keeps fires handles seen ih step

/-- What firing and submitting keep holds wherever the drain takes a stop. -/
theorem drain_fires {before site : MatchingEngine config} {order : NewOrder}
    (fired : Fires start before site order) : inv before ∧ ready site order := by
  have holds : inv before := by
    cases fired with
    | buy passes traded visits triggered =>
      exact fireStop_visits (drain_visits initial fires handles passes)
        (fun _ _ _ => .buy passes traded) fires handles visits
    | sell passes traded buys visits triggered =>
      have pass := drain_visits initial fires handles passes
      obtain ⟨last, seen, exit⟩ := loop_exit buys
      refine fireStop_visits ?_ (fun _ _ _ => .sell passes traded buys) fires handles visits
      rw [fireStop_done exit]
      exact fireStop_visits pass (fun _ _ _ => .buy passes traded) fires handles seen
  exact ⟨holds, fires _ _ _ fired holds⟩

/-- What firing and submitting keep holds at the end of the drain. -/
theorem drain_returns {result : MatchingEngine config}
    (returned : start.drainStopTriggers = .ok result) : inv result := by
  obtain ⟨last, passes, exit⟩ := loop_exit returned
  exact drainPass_keeps fires handles passes (drain_visits initial fires handles passes) exit

end Drain

/-! ## Submissions -/

/-- A call hands an order to `process_new_order` at a state. -/
inductive Submits (engine : MatchingEngine config) (command : Command) :
    MatchingEngine config → NewOrder → Prop
  /-- The order is the command's. -/
  | direct {instrumentId order} (asked : command = .newOrder instrumentId order) :
    Submits engine command engine.clearEvents order
  /-- The order replaces the one that the command modifies. -/
  | replaced {id newPrice newQty index site order}
      (asked : command = .modifyOrder id newPrice newQty)
      (held : engine.clearEvents.book.lookup id = some index)
      (withdrawn : engine.clearEvents.withdraw index id newPrice newQty = .ok (site, order)) :
    Submits engine command site order
  /-- The order is that of a stop that fires. -/
  | triggered {start before site order} (dispatched : engine.clearEvents.dispatch command = .ok start)
      (fired : Fires start before site order) :
    Submits engine command site order

/-- A call carries out its command and drains the stops, however many events it emits. -/
theorem processUnbounded_drained (ended : engine.processUnbounded command = .ok engine') :
    ∃ start, engine.clearEvents.dispatch command = .ok start ∧
      start.drainStopTriggers = .ok engine' := by
  unfold processUnbounded at ended
  simp only [bind, Except.bind] at ended
  cases dispatched : engine.clearEvents.dispatch command with
  | error fault => simp [dispatched] at ended
  | ok start =>
    simp only [dispatched] at ended
    exact ⟨start, rfl, ended⟩

/-- A call that returns ends with no more events than its buffer has room for. -/
theorem processUnbounded_of_process (returned : engine.process command = .ok engine') :
    engine.processUnbounded command = .ok engine' ∧
      engine'.eventBuf.length ≤ maxEventsPerCall := by
  unfold process at returned
  simp only [bind, Except.bind, pure, Except.pure] at returned
  split at returned
  · contradiction
  · rename_i ended
    split at returned
    · rename_i fits
      obtain rfl := Except.ok.inj returned
      exact ⟨ended, fits⟩
    · contradiction

/-- A call that returns has carried out its command and drained the stops. -/
theorem process_drained (completed : engine.process command = .ok engine') :
    ∃ start, engine.clearEvents.dispatch command = .ok start ∧
      start.drainStopTriggers = .ok engine' ∧ engine'.eventBuf.length ≤ maxEventsPerCall := by
  obtain ⟨ended, fits⟩ := processUnbounded_of_process completed
  obtain ⟨start, dispatched, drains⟩ := processUnbounded_drained ended
  exact ⟨start, dispatched, drains, fits⟩

section Call

variable {inv : MatchingEngine config → Prop} {ready : MatchingEngine config → NewOrder → Prop}

/-- What the parts of a call carry: a property between the parts, and one of a state together
with the order that is handed to `process_new_order` there. -/
structure Carries (engine : MatchingEngine config) (command : Command)
    (inv : MatchingEngine config → Prop) (ready : MatchingEngine config → NewOrder → Prop) :
    Prop where
  /-- A cancel keeps the property. -/
  cancels : ∀ id after, command = .cancelOrder id → inv engine.clearEvents →
    engine.clearEvents.processCancel id = .ok after → inv after
  /-- Refusing to modify an order that does not rest keeps the property. -/
  misses : ∀ id newPrice newQty, command = .modifyOrder id newPrice newQty →
    inv engine.clearEvents → inv (engine.clearEvents.emitRejected id .orderNotFound)
  /-- The order of the command can be handled. -/
  direct : ∀ instrumentId order, command = .newOrder instrumentId order →
    inv engine.clearEvents → ready engine.clearEvents order
  /-- The replacement of a withdrawn order can be handled. -/
  withdraws : ∀ id newPrice newQty index site order, command = .modifyOrder id newPrice newQty →
    inv engine.clearEvents → engine.clearEvents.book.lookup id = some index →
    engine.clearEvents.withdraw index id newPrice newQty = .ok (site, order) → ready site order
  /-- The order of a triggered stop can be handled. -/
  fires : ∀ start before site order, engine.clearEvents.dispatch command = .ok start →
    Fires start before site order → inv before → ready site order
  /-- Handling an order gives the property back. -/
  handles : ∀ site order after, Submits engine command site order → ready site order →
    site.processNewOrder order = .ok after → inv after

/-- What the parts of a call carry holds once the command is dispatched. -/
theorem Carries.dispatch (carries : Carries engine command inv ready)
    (initial : inv engine.clearEvents) {start : MatchingEngine config}
    (dispatched : engine.clearEvents.dispatch command = .ok start) : inv start := by
  cases command with
  | newOrder instrumentId order =>
    exact carries.handles _ order _ (.direct rfl) (carries.direct instrumentId order rfl initial)
      dispatched
  | cancelOrder id => exact carries.cancels id _ rfl initial dispatched
  | modifyOrder id newPrice newQty =>
    change engine.clearEvents.processModify id newPrice newQty = .ok start at dispatched
    unfold processModify at dispatched
    cases held : engine.clearEvents.book.lookup id with
    | none =>
      rw [held] at dispatched
      obtain rfl := Except.ok.inj dispatched
      exact carries.misses id newPrice newQty rfl initial
    | some index =>
      simp only [held, bind, Except.bind] at dispatched
      split at dispatched
      · contradiction
      · rename_i result withdrawn
        obtain ⟨site, order⟩ := result
        have placed := carries.withdraws id newPrice newQty index site order rfl initial held
          withdrawn
        exact carries.handles site order _ (.replaced rfl held withdrawn) placed dispatched

section Drained

variable (carries : Carries engine command inv ready) {start : MatchingEngine config}
  (dispatched : engine.clearEvents.dispatch command = .ok start)
include carries dispatched

/-- The orders of the stops that a call triggers can be handled where what its parts carry holds. -/
theorem Carries.fired (before site : MatchingEngine config) (order : NewOrder)
    (fires : Fires start before site order) (holds : inv before) : ready site order :=
  carries.fires _ before site order dispatched fires holds

/-- Handling the order of a stop that a call triggers gives back what its parts carry. -/
theorem Carries.handled (before site : MatchingEngine config) (order : NewOrder)
    (after : MatchingEngine config) (fires : Fires start before site order)
    (holds : ready site order) (returned : site.processNewOrder order = .ok after) : inv after :=
  carries.handles site order after (.triggered dispatched fires) holds returned

end Drained

/-- What the parts of a call carry holds wherever the call submits an order. -/
theorem Carries.submits (carries : Carries engine command inv ready)
    (initial : inv engine.clearEvents) {site : MatchingEngine config} {order : NewOrder}
    (submits : Submits engine command site order) : ready site order := by
  cases submits with
  | direct asked => exact carries.direct _ _ asked initial
  | replaced asked held withdrawn =>
    exact carries.withdraws _ _ _ _ _ _ asked initial held withdrawn
  | triggered dispatched fired =>
    exact (drain_fires (carries.dispatch initial dispatched) (carries.fired dispatched)
      (carries.handled dispatched) fired).2

/-- What the parts of a call carry holds at its end, however many events it emits. -/
theorem Carries.ends (carries : Carries engine command inv ready)
    (initial : inv engine.clearEvents) (ended : engine.processUnbounded command = .ok engine') :
    inv engine' := by
  obtain ⟨start, dispatched, drains⟩ := processUnbounded_drained ended
  exact drain_returns (carries.dispatch initial dispatched) (carries.fired dispatched)
    (carries.handled dispatched) drains

/-- What the parts of a call carry holds at its end. -/
theorem Carries.returns (carries : Carries engine command inv ready)
    (initial : inv engine.clearEvents) (returned : engine.process command = .ok engine') :
    inv engine' :=
  carries.ends initial (processUnbounded_of_process returned).1

/-- What every part of a call keeps: the removals of a cancel and of a modify, the firing of a
stop, and the handling of an order. -/
structure Kept (engine : MatchingEngine config) (command : Command)
    (inv : MatchingEngine config → Prop) : Prop where
  /-- A cancel keeps it. -/
  cancels : ∀ id after, command = .cancelOrder id → inv engine.clearEvents →
    engine.clearEvents.processCancel id = .ok after → inv after
  /-- Withdrawing an order to modify it keeps it. -/
  withdraws : ∀ id newPrice newQty index site order, command = .modifyOrder id newPrice newQty →
    inv engine.clearEvents → engine.clearEvents.book.lookup id = some index →
    engine.clearEvents.withdraw index id newPrice newQty = .ok (site, order) → inv site
  /-- Refusing to modify an order that does not rest keeps it. -/
  misses : ∀ id newPrice newQty, command = .modifyOrder id newPrice newQty →
    inv engine.clearEvents → inv (engine.clearEvents.emitRejected id .orderNotFound)
  /-- Taking a triggered stop keeps it. -/
  fires : ∀ start before site order, engine.clearEvents.dispatch command = .ok start →
    Fires start before site order → inv before → inv site
  /-- Handling an order keeps it. -/
  handles : ∀ site order after, Submits engine command site order → inv site →
    site.processNewOrder order = .ok after → inv after

/-- What every part of a call keeps is carried by them. -/
theorem Kept.carries (kept : Kept engine command inv) :
    Carries engine command inv fun site _ => inv site where
  cancels := kept.cancels
  misses := kept.misses
  direct _ _ _ initial := initial
  withdraws := kept.withdraws
  fires := kept.fires
  handles := kept.handles

/-- What every part of a call keeps holds once the command is dispatched. -/
theorem Kept.dispatch (kept : Kept engine command inv) (initial : inv engine.clearEvents)
    {start : MatchingEngine config} (dispatched : engine.clearEvents.dispatch command = .ok start) :
    inv start :=
  kept.carries.dispatch initial dispatched

/-- What every part of a call keeps holds wherever the call submits an order. -/
theorem Kept.submits (kept : Kept engine command inv) (initial : inv engine.clearEvents)
    {site : MatchingEngine config} {order : NewOrder}
    (submits : Submits engine command site order) : inv site :=
  kept.carries.submits initial submits

/-- What every part of a call keeps holds at its end. -/
theorem Kept.returns (kept : Kept engine command inv) (initial : inv engine.clearEvents)
    (returned : engine.process command = .ok engine') : inv engine' :=
  kept.carries.returns initial returned

end Call

/-- Taking a triggered stop changes neither the book nor the arena. -/
theorem Fires.kept {start before site : MatchingEngine config}
    (fired : Fires start before site order) : site.book = before.book ∧ site.arena = before.arena := by
  cases fired with
  | buy _ _ _ triggered =>
    unfold triggerBuy at triggered
    split at triggered
    · contradiction
    · split at triggered
      · contradiction
      · obtain ⟨rfl, -⟩ := Prod.mk.inj (Option.some.inj triggered)
        exact ⟨rfl, rfl⟩
  | sell _ _ _ _ triggered =>
    unfold triggerSell at triggered
    split at triggered
    · contradiction
    · split at triggered
      · contradiction
      · obtain ⟨rfl, -⟩ := Prod.mk.inj (Option.some.inj triggered)
        exact ⟨rfl, rfl⟩

/-- Taking a triggered stop reports it. -/
theorem Fires.bodies_eq {start before site : MatchingEngine config}
    (fired : Fires start before site order) :
    site.bodies = before.bodies ++ [.stopTriggered order.id order.id] := by
  cases fired with
  | buy _ _ _ triggered =>
    unfold triggerBuy at triggered
    split at triggered
    · contradiction
    · split at triggered
      · contradiction
      · obtain ⟨rfl, rfl⟩ := Prod.mk.inj (Option.some.inj triggered)
        exact emit_bodies _ _
  | sell _ _ _ _ triggered =>
    unfold triggerSell at triggered
    split at triggered
    · contradiction
    · split at triggered
      · contradiction
      · obtain ⟨rfl, rfl⟩ := Prod.mk.inj (Option.some.inj triggered)
        exact emit_bodies _ _

/-- Without stops to buy there is none to fire. -/
theorem fireBuy_idle {start : MatchingEngine config} (bids : start.stopBids = [])
    (lastPrice : UInt64) : fireStop (triggerBuy lastPrice) start = .ok (.done start) := by
  simp [fireStop, triggerBuy, bids]

/-- Without stops to sell there is none to fire. -/
theorem fireSell_idle {start : MatchingEngine config} (asks : start.stopAsks = [])
    (lastPrice : UInt64) : fireStop (triggerSell lastPrice) start = .ok (.done start) := by
  simp [fireStop, triggerSell, asks]

/-- A loop over the stops to buy leaves an engine without them as it is. -/
theorem drainBuys_idle {start : MatchingEngine config} (bids : start.stopBids = [])
    (lastPrice : UInt64) : drainBuys lastPrice start = .ok start := by
  simp [drainBuys, loop, fireBuy_idle bids]

/-- A loop over the stops to sell leaves an engine without them as it is. -/
theorem drainSells_idle {start : MatchingEngine config} (asks : start.stopAsks = [])
    (lastPrice : UInt64) : drainSells lastPrice start = .ok start := by
  simp [drainSells, loop, fireSell_idle asks]

/-- Without stops the first pass of a drain is the last one. -/
theorem drainPass_idle {start : MatchingEngine config} (bids : start.stopBids = [])
    (asks : start.stopAsks = []) : drainPass start = .ok (.done start) := by
  cases traded : start.lastTradePrice with
  | none => simp [drainPass, traded]
  | some lastPrice =>
    simp [drainPass, traded, drainBuys_idle bids, drainSells_idle asks, bind, Except.bind, pure,
      Except.pure]

/-- A drain without stops leaves the engine as it is. -/
theorem drainStopTriggers_idle {start : MatchingEngine config} (bids : start.stopBids = [])
    (asks : start.stopAsks = []) : start.drainStopTriggers = .ok start := by
  rw [drainStopTriggers, loop, drainPass_idle bids asks]

/-- A drain without stops takes none. -/
theorem Fires.false_of_no_stops {start before site : MatchingEngine config}
    (bids : start.stopBids = []) (asks : start.stopAsks = [])
    (fired : Fires start before site order) : False := by
  have pass : ∀ {pass}, Visits drainPass start pass → pass = start := fun {pass} passes => by
    refine passes.eq_start fun following step => ?_
    rw [drainPass_idle bids asks] at step
    cases step
  cases fired with
  | buy passes traded visits triggered =>
    obtain rfl := pass passes
    obtain rfl := visits.eq_start fun following step => by
      rw [fireBuy_idle bids] at step
      cases step
    simp [triggerBuy, bids] at triggered
  | sell passes traded buys' visits triggered =>
    obtain rfl := pass passes
    rw [drainBuys_idle bids] at buys'
    obtain rfl := Except.ok.inj buys'
    obtain rfl := visits.eq_start fun following step => by
      rw [fireSell_idle asks] at step
      cases step
    simp [triggerSell, asks] at triggered

/-- Whether a command submits its own order and no stop. -/
def lone (engine : MatchingEngine config) (command : Command) : Bool :=
  match command, engine.clearEvents.dispatch command with
  | .newOrder _ _, .ok start => start.stopBids.isEmpty && start.stopAsks.isEmpty
  | _, _ => false

/-- Such a command submits its order at the engine as it is called. -/
theorem Submits.of_lone {site : MatchingEngine config} (alone : engine.lone command = true)
    (submits : Submits engine command site order) :
    site = engine.clearEvents ∧ ∃ instrumentId, command = .newOrder instrumentId order := by
  cases submits with
  | direct asked => exact ⟨rfl, _, asked⟩
  | replaced asked =>
    rw [asked] at alone
    simp [lone] at alone
  | triggered dispatched fired =>
    unfold lone at alone
    split at alone
    · rename_i start' dispatched'
      rw [dispatched] at dispatched'
      obtain rfl := Except.ok.inj dispatched'
      simp only [Bool.and_eq_true, List.isEmpty_iff] at alone
      exact (fired.false_of_no_stops alone.1 alone.2).elim
    · contradiction

/-- Every part of a call keeps the engine sound. -/
theorem sound_kept (engine : MatchingEngine config) (command : Command) :
    Kept engine command fun state => ∃ queues, state.Sound queues where
  cancels id after _ := by
    rintro ⟨queues, sound⟩ returned
    cases processCancel_cases sound returned with
    | missing => exact ⟨queues, sound.congr rfl rfl⟩
    | removed _ _ _ removed => exact ⟨_, removed.represents, removed.tracks sound.tracks⟩
  withdraws id newPrice newQty index site order _ := by
    rintro ⟨queues, sound⟩ held withdrawn
    cases withdraw_cases sound held withdrawn with
    | removed _ removed => exact ⟨_, removed.represents, removed.tracks sound.tracks⟩
  misses _ _ _ _ := by
    rintro ⟨queues, sound⟩
    exact ⟨queues, sound.congr rfl rfl⟩
  fires _ _ _ _ _ fired := by
    rintro ⟨queues, sound⟩
    exact ⟨queues, sound.congr fired.kept.1 fired.kept.2⟩
  handles site order after _ := by
    rintro ⟨queues, sound⟩ returned
    exact (processNewOrder_cases sound returned).sound sound

/-! ## Runs -/

/-- The engines reached from a new one by completed calls that meet a condition. -/
def Reaches (config : InstrumentConfig) (allowed : MatchingEngine config → Command → Prop) :
    MatchingEngine config → Prop :=
  Reached (fun engine => ∃ capacity, engine = new config capacity) process allowed

/-- The engines reached from a new one by completed calls. -/
def Reachable (engine : MatchingEngine config) : Prop := Reaches config (fun _ _ => True) engine

/-- A run of commands that pass a check and whose last engine passes a test reaches such an
engine. -/
theorem Reaches.exists_run (allowed : MatchingEngine config → Command → Prop)
    (check : MatchingEngine config → Command → Bool) (test : MatchingEngine config → Bool)
    (sound : ∀ engine command, check engine command = true → allowed engine command)
    (capacity : UInt32) (commands : List Command)
    (passes : (checkedRun check process commands (new config capacity)).any test = true) :
    ∃ engine, Reaches config allowed engine ∧ test engine = true :=
  Reached.exists_checkedRun check test sound ⟨capacity, rfl⟩ commands passes

/-- A run of commands whose last engine passes a test reaches such an engine. -/
theorem Reachable.exists_run (test : MatchingEngine config → Bool) (capacity : UInt32)
    (commands : List Command)
    (passes : (checkedRun (fun _ _ => true) process commands (new config capacity)).any test =
      true) : ∃ engine : MatchingEngine config, Reachable engine ∧ test engine = true :=
  Reaches.exists_run (fun _ _ => True) (fun _ _ => true) test (fun _ _ _ => trivial) capacity
    commands passes

/-- A new engine is sound. -/
theorem sound_new (config : InstrumentConfig) (capacity : UInt32) :
    (new config capacity).Sound fun _ _ => [] :=
  ⟨represents_new config capacity, tracks_new config⟩

/-- Every engine of a run is sound. -/
theorem Reaches.sound {allowed : MatchingEngine config → Command → Prop}
    (reached : Reaches config allowed engine) : ∃ queues, engine.Sound queues := by
  refine Reached.invariant ?_ ?_ reached
  · rintro engine ⟨capacity, rfl⟩
    exact ⟨_, sound_new config capacity⟩
  · rintro engine command following ⟨queues, sound⟩ - completed
    exact (sound_kept engine command).returns ⟨queues, sound.congr rfl rfl⟩ completed

/-- An order is handed to a sound engine. -/
theorem Submits.sound {site : MatchingEngine config} (submits : Submits engine command site order)
    (sound : engine.Sound queues) : ∃ queues', site.Sound queues' :=
  (sound_kept engine command).submits ⟨queues, sound.congr rfl rfl⟩ submits

end MatchingEngine

end MatchX
