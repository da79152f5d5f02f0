import MatchX.Engine.Rejection
import MatchX.Engine.Termination

/-!
# Stops that a fill reaches

The drain reads the last trade price at the beginning of each of its passes. A stop that a fill
reaches leaves its queue exactly when one of the prices so read from then on reaches it: that of
the pass under way, if the fill happens in a pass, or of a later one. Between two looks the price
can move past a stop and back.
-/

namespace MatchX

open MatchX.Support

namespace MatchingEngine

variable {config : InstrumentConfig} {engine start pass site after result : MatchingEngine config}
  {queues : Queues} {command : Command} {order : NewOrder} {side : Side} {lastPrice : UInt64}
  {sweep following : Sweep config} {taker : Taker} {qty : UInt64} {pending : UInt64 × StopEntry}

/-- A pass of the drain takes a triggered stop, which leaves it at a site with an order to
submit. -/
inductive Takes (pass : MatchingEngine config) : MatchingEngine config → NewOrder → Prop
  /-- The stop is a buy stop. -/
  | buy {before site : MatchingEngine config} {order : NewOrder} {lastPrice : UInt64}
      (traded : pass.lastTradePrice = some lastPrice)
      (visits : Visits (fireStop (trigger .bid lastPrice)) pass before)
      (triggered : trigger .bid lastPrice before = some (site, order)) :
    Takes pass site order
  /-- The stop is a sell stop. -/
  | sell {bought before site : MatchingEngine config} {order : NewOrder} {lastPrice : UInt64}
      (traded : pass.lastTradePrice = some lastPrice)
      (buys : drainBuys lastPrice pass = .ok bought)
      (visits : Visits (fireStop (trigger .ask lastPrice)) bought before)
      (triggered : trigger .ask lastPrice before = some (site, order)) :
    Takes pass site order

/-- A call hands an order to `process_new_order` at a site, during a pass of the drain or before
the first one. -/
inductive SubmitsBy (engine : MatchingEngine config) (command : Command) :
    MatchingEngine config → NewOrder → MatchingEngine config → Prop
  /-- The order is the command's. -/
  | direct {instrumentId} {order : NewOrder} {start : MatchingEngine config}
      (asked : command = .newOrder instrumentId order)
      (dispatched : engine.clearEvents.dispatch command = .ok start) :
    SubmitsBy engine command engine.clearEvents order start
  /-- The order replaces the one that the command modifies. -/
  | replaced {id newPrice newQty index} {order : NewOrder} {site start : MatchingEngine config}
      (asked : command = .modifyOrder id newPrice newQty)
      (held : engine.clearEvents.book.lookup id = some index)
      (withdrawn : engine.clearEvents.withdraw index id newPrice newQty = .ok (site, order))
      (dispatched : engine.clearEvents.dispatch command = .ok start) :
    SubmitsBy engine command site order start
  /-- The order is that of a stop that a pass takes. -/
  | triggered {order : NewOrder} {start pass site : MatchingEngine config}
      (dispatched : engine.clearEvents.dispatch command = .ok start)
      (passes : Visits drainPass start pass) (takes : Takes pass site order) :
    SubmitsBy engine command site order pass

/-- During a call the sweep for an order fills a maker at a price, which leaves the sweep at
another state. -/
structure Fills (engine : MatchingEngine config) (command : Command)
    (site : MatchingEngine config) (order : NewOrder) (following : Sweep config)
    (price : UInt64) : Prop where
  /-- An iteration of the sweep leads to the state and reports a fill at the price. -/
  filled : ∃ sweep, Sweeps engine command site order sweep ∧
    matchStep (takerOf order) sweep = .ok (.next following) ∧
    ∃ makerId takerId qty makerRemaining takerRemaining,
      .fill makerId takerId price qty makerRemaining takerRemaining ∈
        emittedSince sweep.engine following.engine

/-- Every stop that is pending when a fill of a call reaches it has left its queue and been reported
as triggered at the end of the call. -/
def NoneMissed (engine : MatchingEngine config) (command : Command)
    (after : MatchingEngine config) : Prop :=
  ∀ site order following price, Fills engine command site order following price →
    ∀ side, ∀ pending ∈ following.engine.stops side, reachedBefore side price pending.1 = false →
      .stopTriggered pending.2.id pending.2.id ∈ emittedSince following.engine after ∧
        pending ∉ after.stops side

/-- Whenever a fill of a call reaches a pending stop, the last trade price reaches it at the
beginning of the drain's pass under way or of a later one. -/
def Attentive (engine : MatchingEngine config) (command : Command) : Prop :=
  ∀ site order pass following price, SubmitsBy engine command site order pass →
    Fills engine command site order following price →
    ∀ side, ∀ pending ∈ following.engine.stops side, reachedBefore side price pending.1 = false →
      ∃ later lastPrice, Visits drainPass pass later ∧ later.lastTradePrice = some lastPrice ∧
        reachedBefore side lastPrice pending.1 = false

/-- Every submission of a call is one during a pass of the drain or before the first one. -/
theorem Submits.submitsBy (submits : Submits engine command site order)
    (dispatched : engine.clearEvents.dispatch command = .ok start) :
    ∃ pass, SubmitsBy engine command site order pass := by
  cases submits with
  | direct asked => exact ⟨start, .direct asked dispatched⟩
  | replaced asked held withdrawn => exact ⟨start, .replaced asked held withdrawn dispatched⟩
  | triggered dispatched' fired =>
    cases fired with
    | buy passes traded visits triggered =>
      exact ⟨_, .triggered dispatched' passes (.buy traded visits triggered)⟩
    | sell passes traded buys visits triggered =>
      exact ⟨_, .triggered dispatched' passes (.sell traded buys visits triggered)⟩

/-- The pass of a submission is one of the drain's. -/
theorem SubmitsBy.passes (submits : SubmitsBy engine command site order pass) :
    ∃ start, engine.clearEvents.dispatch command = .ok start ∧ Visits drainPass start pass := by
  cases submits with
  | direct _ dispatched => exact ⟨_, dispatched, .refl _ _⟩
  | replaced _ _ _ dispatched => exact ⟨_, dispatched, .refl _ _⟩
  | triggered dispatched passes => exact ⟨_, dispatched, passes⟩

/-! ## The rest of a drain -/

section Rest

variable {inv : MatchingEngine config → Prop} {allowed : UInt64 → Prop}
  (kept : ∀ side lastPrice before after, allowed lastPrice → inv before →
    fireStop (trigger side lastPrice) before = .ok (.next after) → inv after)
include kept

/-- What firing a stop keeps holds at the end of an inner loop of the drain. -/
theorem fireStops_keep {fuel : Nat} (permitted : allowed lastPrice) (holds : inv start)
    (returned : loop .exhausted (fireStop (trigger side lastPrice)) fuel start = .ok after) :
    inv after := by
  refine @loop_rule _ _ _ .exhausted (fireStop (trigger side lastPrice)) inv inv ?_ ?_ _ _ _ holds
    returned
  · exact fun before following held step => kept side lastPrice before following permitted held step
  · rintro before result held exit
    rwa [fireStop_done exit]

/-- What firing a stop keeps holds at the end of a pass. -/
theorem drainPass_keep {flow : Flow (MatchingEngine config) (MatchingEngine config)}
    (permitted : ∀ lastPrice, pass.lastTradePrice = some lastPrice → allowed lastPrice)
    (holds : inv pass) (step : drainPass pass = .ok flow) : inv (passEngine flow) := by
  cases traded : pass.lastTradePrice with
  | none =>
    unfold drainPass at step
    rw [traded] at step
    obtain rfl := Except.ok.inj step
    exact holds
  | some lastPrice =>
    obtain ⟨bought, sold, buys, sells, leaves⟩ := drainPass_parts traded step
    have first := @fireStops_keep _ _ _ .bid lastPrice _ _ kept _ (permitted _ traded) holds buys
    have second := @fireStops_keep _ _ _ .ask lastPrice _ _ kept _ (permitted _ traded) first sells
    split at leaves <;> (subst leaves; exact second)

/-- What firing a stop keeps holds at the end of the passes. -/
theorem drainPasses_keep {fuel : Nat}
    (permitted : ∀ later lastPrice, Visits drainPass pass later →
      later.lastTradePrice = some lastPrice → allowed lastPrice)
    (holds : inv pass) (returned : loop .exhausted drainPass fuel pass = .ok result) :
    inv result := by
  refine @loop_rule _ _ _ .exhausted drainPass (fun state => inv state ∧ Visits drainPass pass state)
    inv ?_ ?_ _ _ _ ⟨holds, .refl _ _⟩ returned
  · rintro before following ⟨held, seen⟩ step
    exact ⟨drainPass_keep kept (fun _ => permitted _ _ seen) held step, seen.tail step⟩
  · rintro before result ⟨held, seen⟩ step
    exact drainPass_keep kept (fun _ => permitted _ _ seen) held step

/-- What firing a stop keeps, and holds at the end of a pass, holds at the end of the drain. -/
theorem drain_keep {fuel : Nat}
    (permitted : ∀ later lastPrice, Visits drainPass pass later →
      later.lastTradePrice = some lastPrice → allowed lastPrice)
    (passes : Visits drainPass start pass)
    (holds : ∀ flow, drainPass pass = .ok flow → inv (passEngine flow))
    (returned : loop .exhausted drainPass fuel start = .ok result) : inv result := by
  obtain ⟨fuel', further⟩ := passes.returns returned
  simp only [loop] at further
  cases step : drainPass pass with
  | error fault => simp [step] at further
  | ok flow =>
    simp only [step] at further
    have held := holds flow step
    cases flow with
    | next following =>
      exact drainPasses_keep kept (fun later lastPrice seen => permitted later lastPrice
        (.head step seen)) held further
    | done last =>
      obtain rfl := Except.ok.inj further
      exact held

/-- What holds once the order of a stop is handled, and firing a stop keeps, holds at the end of
the pass that took the stop. -/
theorem Takes.keep {handled : MatchingEngine config}
    {flow : Flow (MatchingEngine config) (MatchingEngine config)}
    (permitted : ∀ lastPrice, pass.lastTradePrice = some lastPrice → allowed lastPrice)
    (takes : Takes pass site order) (returned : site.processNewOrder order = .ok handled)
    (holds : inv handled) (step : drainPass pass = .ok flow) : inv (passEngine flow) := by
  have fires : ∀ {trigger before}, trigger before = some (site, order) →
      fireStop trigger before = .ok (.next handled) := fun {trigger before} triggered => by
    simp [fireStop, triggered, returned, bind, Except.bind, pure, Except.pure]
  cases takes with
  | buy traded visits triggered =>
    obtain ⟨bought, sold, buys, sells, leaves⟩ := drainPass_parts traded step
    obtain ⟨fuel, further⟩ := (visits.tail (fires triggered)).returns buys
    have first := fireStops_keep kept (permitted _ traded) holds further
    have second := @fireStops_keep _ _ _ .ask _ _ _ kept _ (permitted _ traded) first sells
    split at leaves <;> (subst leaves; exact second)
  | sell traded buys visits triggered =>
    obtain ⟨bought', sold, buys', sells, leaves⟩ := drainPass_parts traded step
    obtain rfl := Except.ok.inj (buys.symm.trans buys')
    obtain ⟨fuel, further⟩ := (visits.tail (fires triggered)).returns sells
    have second := fireStops_keep kept (permitted _ traded) holds further
    split at leaves <;> (subst leaves; exact second)

/-- What holds once an order of a call is handled, and firing a stop keeps, holds at the end of the
call. -/
theorem SubmitsBy.keep {handled : MatchingEngine config}
    (permitted : ∀ later lastPrice, Visits drainPass pass later →
      later.lastTradePrice = some lastPrice → allowed lastPrice)
    (submits : SubmitsBy engine command site order pass)
    (ended : engine.processUnbounded command = .ok after)
    (returned : site.processNewOrder order = .ok handled) (holds : inv handled) : inv after := by
  obtain ⟨start, dispatched, drains⟩ := processUnbounded_drained ended
  cases submits with
  | direct asked dispatched' =>
    subst asked
    obtain rfl := Except.ok.inj (dispatched'.symm.trans returned)
    obtain rfl := Except.ok.inj (dispatched.symm.trans dispatched')
    exact drainPasses_keep kept permitted holds drains
  | replaced asked held withdrawn dispatched' =>
    subst asked
    have dispatched'' := dispatched'
    change engine.clearEvents.processModify _ _ _ = _ at dispatched''
    unfold processModify at dispatched''
    simp only [held, withdrawn, bind, Except.bind] at dispatched''
    obtain rfl := Except.ok.inj (dispatched''.symm.trans returned)
    obtain rfl := Except.ok.inj (dispatched.symm.trans dispatched')
    exact drainPasses_keep kept permitted holds drains
  | triggered dispatched' passes takes =>
    obtain rfl := Except.ok.inj (dispatched.symm.trans dispatched')
    exact drain_keep kept permitted passes (fun flow step => takes.keep kept
      (fun _ => permitted _ _ (.refl _ _)) returned holds step) drains

end Rest

/-! ## A stop in a drain -/

/-- An iteration of an inner loop of the drain takes the first stop of its side, which its price
reaches, and leaves the others. -/
theorem fireStop_takes {before : MatchingEngine config} (sound : before.Sound queues)
    (step : fireStop (trigger side lastPrice) before = .ok (.next after)) :
    (∃ queues', after.Sound queues') ∧ Extends before after ∧
      ∃ taken, reachedBefore side lastPrice taken.1 = false ∧
        before.stops side = taken :: after.stops side ∧
        after.stops side.opposite = before.stops side.opposite ∧
        .stopTriggered taken.2.id taken.2.id ∈ emittedSince before after := by
  obtain ⟨site, order, triggered, returned⟩ := fireStop_next step
  obtain ⟨stopPx, entry, rfl, reached, popped⟩ := trigger_some triggered
  have sound' : site.Sound queues := sound.congr popped.book popped.arena
  have handled := processNewOrder_cases sound' returned
  obtain ⟨bids, asks⟩ := handled.stops_eq sound' (stopEntry_order_kind entry)
  have still := stops_congr bids asks
  have first : Extends before site := ⟨_, popped.bodies.symm⟩
  have further := handled.extends sound'
  refine ⟨handled.sound sound', first.trans further, (stopPx, entry), reached, ?_, ?_, ?_⟩
  · rw [still]
    exact popped.first
  · rw [still]
    exact popped.other
  · rw [emittedSince_trans first further, emittedSince_eq popped.bodies]
    exact List.mem_append_left _ List.mem_cons_self

/-- A stop that the price of a pass does not reach stays pending when another one is fired. -/
theorem pending_kept (pending : UInt64 × StopEntry) (side other : Side) (lastPrice : UInt64)
    (before after : MatchingEngine config) (beyond : reachedBefore side lastPrice pending.1 = true)
    (held : (∃ queues, before.Sound queues) ∧ pending ∈ before.stops side)
    (step : fireStop (trigger other lastPrice) before = .ok (.next after)) :
    (∃ queues, after.Sound queues) ∧ pending ∈ after.stops side := by
  obtain ⟨⟨queues, sound⟩, waits⟩ := held
  obtain ⟨sound', -, taken, reached, first, rest, -⟩ := fireStop_takes sound step
  refine ⟨sound', ?_⟩
  by_cases same : side = other
  · subst same
    rw [first] at waits
    rcases List.mem_cons.mp waits with rfl | behind
    · rw [reached] at beyond
      contradiction
    · exact behind
  · have opposite := eq_opposite same
    rw [opposite] at waits ⊢
    rwa [rest]

/-- A stop that is not pending does not become so when one is fired. -/
theorem absent_kept (pending : UInt64 × StopEntry) (side other : Side) (lastPrice : UInt64)
    (before after : MatchingEngine config)
    (held : (∃ queues, before.Sound queues) ∧ pending ∉ before.stops side)
    (step : fireStop (trigger other lastPrice) before = .ok (.next after)) :
    (∃ queues, after.Sound queues) ∧ pending ∉ after.stops side := by
  obtain ⟨⟨queues, sound⟩, absent⟩ := held
  obtain ⟨sound', -, taken, -, first, rest, -⟩ := fireStop_takes sound step
  refine ⟨sound', fun waits => absent ?_⟩
  by_cases same : side = other
  · subst same
    rw [first]
    exact List.mem_cons_of_mem _ waits
  · have opposite := eq_opposite same
    rw [opposite] at waits ⊢
    rwa [rest] at waits

/-- A stop that was pending waits or has been reported as triggered. -/
structure WaitsOrTold (moment : MatchingEngine config) (side : Side)
    (pending : UInt64 × StopEntry) (state : MatchingEngine config) : Prop where
  /-- The engine is sound. -/
  sound : ∃ queues, state.Sound queues
  /-- It is a later one. -/
  further : Extends moment state
  /-- The stop waits or has been reported. -/
  waits : pending ∈ state.stops side ∨
    .stopTriggered pending.2.id pending.2.id ∈ emittedSince moment state

/-- A stop that is no more pending when one is fired has been reported. -/
theorem WaitsOrTold.fired {moment : MatchingEngine config} {other : Side}
    {before : MatchingEngine config} (held : WaitsOrTold moment side pending before)
    (step : fireStop (trigger other lastPrice) before = .ok (.next after)) :
    WaitsOrTold moment side pending after := by
  obtain ⟨queues, sound⟩ := held.sound
  obtain ⟨sound', further, taken, -, first, rest, told⟩ := fireStop_takes sound step
  have since := emittedSince_trans held.further further
  refine ⟨sound', held.further.trans further, ?_⟩
  rw [since]
  rcases held.waits with waits | told'
  · by_cases same : side = other
    · subst same
      rw [first] at waits
      rcases List.mem_cons.mp waits with rfl | behind
      · exact .inr (List.mem_append_right _ told)
      · exact .inl behind
    · have opposite := eq_opposite same
      subst opposite
      exact .inl (rest.symm ▸ waits)
  · exact .inr (List.mem_append_left _ told')

/-! ## From a fill to the end of the call -/

/-- A sweep leaves the pending stops as they are. -/
theorem visits_stops (sound : site.Sound queues)
    (visits : Visits (matchStep taker) ⟨site, qty⟩ sweep) (side : Side) :
    sweep.engine.stops side = site.stops side := by
  have begins : (⟨site, qty⟩ : Sweep config).engine.Sound queues := sound
  obtain ⟨-, still⟩ := visits_keeps (fun state => ∀ side, state.stops side = site.stops side)
    (fun sweep queues' flow _ _ before _ iteration side => by
      rw [← before side]
      cases iteration <;> cases side <;> rfl) begins (fun _ => rfl) visits
  exact still side

/-- A sweep that ends has reported what any of its states had. -/
theorem visits_extend {swept : SweepResult config} (sound : site.Sound queues)
    (visits : Visits (matchStep taker) ⟨site, qty⟩ sweep)
    (returned : site.matchAgainstBook taker qty = .ok swept) :
    Extends sweep.engine swept.engine := by
  have begins : (⟨site, qty⟩ : Sweep config).engine.Sound queues := sound
  obtain ⟨fuel, further⟩ := visits.returns returned
  obtain ⟨queues', sound'⟩ := sound_of_visits begins visits
  obtain ⟨last, later, exit⟩ := loop_exit further
  obtain ⟨queues'', sound''⟩ := sound_of_visits sound' later
  obtain ⟨reports, -⟩ := visits_emitted (fun _ => True) sound' (fun _ _ _ _ _ _ => trivial) later
  have ends : Extends last.engine swept.engine := (matchStep_cases sound'' exit).extends
  exact reports.trans ends

/-- Once an order is handled, the stops are those of any state of its sweep, and what was reported
there has been reported. -/
theorem Sweeps.handled {handled : MatchingEngine config} (sound : site.Sound queues)
    (sweeps : Sweeps engine command site order sweep)
    (returned : site.processNewOrder order = .ok handled) :
    Extends sweep.engine handled ∧ ∀ side, handled.stops side = sweep.engine.stops side := by
  have accepts := sound.accept order
  obtain ⟨bids, asks⟩ := (processNewOrder_cases sound returned).stops_eq sound sweeps.matched.2
  have still := stops_congr bids asks
  rw [processNewOrder_matched sweeps.matched, sweeps.checked] at returned
  simp only [bind, Except.bind] at returned
  cases swept : (site.accept order).matchAgainstBook (takerOf order) order.qty with
  | error fault =>
    simp only [swept] at returned
    contradiction
  | ok result =>
    simp only [swept] at returned
    obtain ⟨queues', sound'⟩ := matchAgainstBook_sound accepts swept
    obtain ⟨tail, bodies, -⟩ := (settleRemainder_cases sound' sweeps.matched returned).bodies_eq
    have reports := visits_extend accepts sweeps.visits swept
    refine ⟨reports.trans ⟨tail, bodies.symm⟩, fun side => ?_⟩
    rw [still, visits_stops accepts sweeps.visits]
    cases side <;> rfl

/-- After a pass that begins at a price that reaches a stop, the stop is not pending any more. -/
theorem absent_after_pass {flow : Flow (MatchingEngine config) (MatchingEngine config)}
    (begins : (∃ queues, pass.Sound queues) ∧ pass.StopsOrderly)
    (traded : pass.lastTradePrice = some lastPrice)
    (reached : reachedBefore side lastPrice pending.1 = false) (step : drainPass pass = .ok flow) :
    (∃ queues, (passEngine flow).Sound queues) ∧ pending ∉ (passEngine flow).stops side := by
  obtain ⟨⟨queues, sound⟩, orderly⟩ := begins
  refine ⟨(drainPass_extends sound step).1, fun waits => ?_⟩
  rcases drainPass_exhaust ⟨⟨queues, sound⟩, orderly⟩ step with
    ⟨-, untraded⟩ | ⟨price, after, traded', quiet, rfl⟩
  · rw [traded] at untraded
    contradiction
  · obtain rfl := Option.some.inj (traded.symm.trans traded')
    have ends : passEngine (if after.lastTradePrice = some lastPrice then .done after
        else .next after) = after := by
      split <;> rfl
    rw [ends] at waits
    rw [quiet side pending waits] at reached
    contradiction

/-- Every stop that a fill reaches while it is pending is triggered before the call returns exactly
when the drain looks at the right times: whenever a fill reaches a pending stop, the last trade
price reaches it at the beginning of the pass under way or of a later one. -/
theorem none_missed_iff (config : InstrumentConfig) (engine : MatchingEngine config)
    (command : Command) (after : MatchingEngine config) (reachable : Reachable engine)
    (completed : engine.process command = .ok after) :
    NoneMissed engine command after ↔ Attentive engine command := by
  obtain ⟨⟨⟨queues, sound⟩, orderly⟩, -⟩ := Reachable.stops reachable
  obtain ⟨ended, -⟩ := processUnbounded_of_process completed
  -- From a fill on, the call handles the order and then drains.
  have onwards : ∀ {site order following price}, Fills engine command site order following price →
      ∃ handled, site.processNewOrder order = .ok handled ∧ Submits engine command site order ∧
        (∃ queues, handled.Sound queues) ∧ Extends following.engine handled ∧
        ∀ side, handled.stops side = following.engine.stops side := by
    rintro site order following price ⟨sweep, sweeps, step, -⟩
    obtain ⟨queues', sound'⟩ := sweeps.submits.sound sound
    obtain ⟨handled, returned, -⟩ := sweeps.submits.handled sound ended
    have later : Sweeps engine command site order following :=
      ⟨sweeps.submits, sweeps.matched, sweeps.checked, sweeps.visits.tail step⟩
    obtain ⟨further, still⟩ := later.handled sound' returned
    exact ⟨handled, returned, sweeps.submits, (processNewOrder_cases sound' returned).sound sound',
      further, still⟩
  constructor
  · intro none site order pass following price submits fills side pending waits reached
    by_contra unseen
    obtain ⟨handled, returned, -, sound', -, still⟩ := onwards fills
    have beyond : ∀ later lastPrice, Visits drainPass pass later →
        later.lastTradePrice = some lastPrice → reachedBefore side lastPrice pending.1 = true :=
      fun later lastPrice seen traded => by
        by_contra missed
        exact unseen ⟨later, lastPrice, seen, traded, Bool.eq_false_iff.mpr missed⟩
    obtain ⟨-, remains⟩ := SubmitsBy.keep (fun other lastPrice before after =>
      pending_kept pending side other lastPrice before after) beyond submits ended returned
      ⟨sound', (still side).symm ▸ waits⟩
    exact (none site order following price fills side pending waits reached).2 remains
  · intro attentive site order following price fills side pending waits reached
    obtain ⟨handled, returned, submits, sound', further, still⟩ := onwards fills
    obtain ⟨start, dispatched, drains⟩ := processUnbounded_drained ended
    obtain ⟨pass, by'⟩ := submits.submitsBy dispatched
    obtain ⟨later, lastPrice, seen, traded, looks⟩ :=
      attentive site order pass following price by' fills side pending waits reached
    obtain ⟨start', dispatched', passes⟩ := by'.passes
    obtain rfl := Except.ok.inj (dispatched.symm.trans dispatched')
    have kept := orderly_kept engine command
    have cleared : (∃ queues, engine.clearEvents.Sound queues) ∧ engine.clearEvents.StopsOrderly :=
      ⟨⟨queues, sound.congr rfl rfl⟩, orderly⟩
    have begins := drain_visits (kept.dispatch cleared dispatched) (kept.carries.fired dispatched)
      (kept.carries.handled dispatched) (passes.trans seen)
    obtain ⟨-, gone⟩ := drain_keep (fun other lastPrice before after (_ : True) =>
      absent_kept pending side other lastPrice before after) (fun _ _ _ _ => trivial)
      (passes.trans seen) (fun flow => absent_after_pass begins traded looks) drains
    have told := SubmitsBy.keep (fun other lastPrice before after (_ : True) held =>
      WaitsOrTold.fired held) (fun _ _ _ _ => trivial) by' ended returned
      (⟨sound', further, .inl ((still side).symm ▸ waits)⟩ :
        WaitsOrTold following.engine side pending handled)
    exact ⟨told.waits.resolve_left gone, gone⟩

/-- Where a pass takes a stop fewer are pending than at its beginning. -/
theorem Takes.falls (sound : pass.Sound queues) (takes : Takes pass site order) :
    site.pendingStops < pass.pendingStops := by
  have visited : ∀ {side lastPrice} {first before : MatchingEngine config},
      Visits (fireStop (trigger side lastPrice)) first before → (∃ queues, first.Sound queues) →
        (∃ queues, before.Sound queues) ∧ before.pendingStops ≤ first.pendingStops :=
      fun visits sound => by
    induction visits with
    | refl => exact ⟨sound, Nat.le_refl _⟩
    | tail _ step held =>
      obtain ⟨⟨queues, sound⟩, fewer⟩ := held
      obtain ⟨sound', -, falls⟩ := fireStop_falls sound step
      exact ⟨sound', by omega⟩
  have taken : ∀ {side lastPrice} {before : MatchingEngine config},
      trigger side lastPrice before = some (site, order) →
        site.pendingStops < before.pendingStops := fun {side _ _} triggered => by
    obtain ⟨stopPx, entry, -, -, popped⟩ := trigger_some triggered
    rw [pendingStops_eq side, pendingStops_eq side, popped.first, popped.other]
    simp
  cases takes with
  | buy _ visits triggered =>
    exact Nat.lt_of_lt_of_le (taken triggered) (visited visits ⟨queues, sound⟩).2
  | sell _ buys visits triggered =>
    obtain ⟨sound', fewer⟩ := @fireStops_falls _ _ .bid _ _ _ _ sound buys
    have later := Nat.lt_of_lt_of_le (taken triggered) (visited visits sound').2
    rcases fewer with rfl | fewer <;> omega

/-- No later pass of a drain begins with more stops than the first. -/
theorem passes_fall (sound : start.Sound queues) (passes : Visits drainPass start pass) :
    (∃ queues, pass.Sound queues) ∧ pass.pendingStops ≤ start.pendingStops := by
  induction passes with
  | refl => exact ⟨⟨queues, sound⟩, Nat.le_refl _⟩
  | tail _ step held =>
    obtain ⟨⟨queues, sound⟩, fewer⟩ := held
    obtain ⟨sound', falls⟩ := drainPass_falls sound step
    exact ⟨sound', by omega⟩

/-- A bid takes four of an ask at the price of the only stop, which is triggered. -/
theorem none_missed_of_buy_stop :
    ∃ (engine after : MatchingEngine (smallConfig .cancelNewest)),
      engine.stopBids.map Prod.fst = [2] ∧
      NoneMissed engine (.submit (.gtc 3 .bid 2 4)) after ∧
      .stopTriggered 7 7 ∈ after.bodies := by
  obtain ⟨engine, reachable, shown⟩ := Reachable.exists_run
    (fun engine : MatchingEngine (smallConfig .cancelNewest) =>
      (engine.process (.submit (.gtc 3 .bid 2 4))).toOption.any fun after =>
        (engine.clearEvents.dispatch (.submit (.gtc 3 .bid 2 4))).toOption.any fun start =>
          engine.stopBids.map Prod.fst == [2] && engine.stopAsks.isEmpty &&
            start.lastTradePrice == some 2 && start.pendingStops == 1 &&
            after.bodies.contains (.stopTriggered 7 7)) 8
    [.submit (.gtc 1 .ask 2 10),
      .submit { NewOrder.gtc 7 .bid 3 5 with orderType := .stopLimit, stopPrice := some 2 }]
    (by decide +kernel)
  obtain ⟨after, completed, facts⟩ := (Option.any_eq_true _ _).mp shown
  obtain ⟨start, dispatched, facts⟩ := (Option.any_eq_true _ _).mp facts
  simp only [Bool.and_eq_true, beq_iff_eq, List.isEmpty_iff, List.contains_iff_mem] at facts
  obtain ⟨⟨⟨⟨bids, asks⟩, traded⟩, single⟩, told⟩ := facts
  obtain ⟨queues, sound⟩ := reachable.sound
  refine ⟨engine, after, bids, (none_missed_iff _ engine _ after reachable
    (ok_of_toOption completed)).mpr ?_, told⟩
  rintro site order pass following price submits ⟨sweep, sweeps, step, -⟩ side pending waits reached
  obtain ⟨queues', sound'⟩ := sweeps.submits.sound sound
  rw [visits_stops (sound'.accept order) (sweeps.visits.tail step)] at waits
  cases submits with
  | direct asked dispatched' =>
    obtain rfl := Except.ok.inj ((ok_of_toOption dispatched).symm.trans dispatched')
    refine ⟨start, 2, .refl _ _, traded, ?_⟩
    cases side with
    | bid =>
      have member : pending.1 ∈ engine.stopBids.map Prod.fst := List.mem_map_of_mem waits
      rw [bids, List.mem_singleton] at member
      rw [member]
      decide
    | ask =>
      change pending ∈ engine.stopAsks at waits
      simp [asks] at waits
  | replaced asked => cases asked
  | triggered dispatched' passes takes =>
    obtain rfl := Except.ok.inj ((ok_of_toOption dispatched).symm.trans dispatched')
    obtain ⟨queues'', begins⟩ : ∃ queues, start.Sound queues :=
      (sound_kept engine _).dispatch ⟨queues, sound.congr rfl rfl⟩ (ok_of_toOption dispatched)
    obtain ⟨⟨held, passSound⟩, fewer⟩ := passes_fall begins passes
    have falls := takes.falls passSound
    have none : (site.stops side).length = 0 := by
      have whole := @pendingStops_eq _ site side
      omega
    rw [List.length_eq_zero_iff] at none
    have waits' : pending ∈ site.stops side := by
      cases side <;> exact waits
    simp [none] at waits'

/-- A bid takes one ask at the price of a sell stop and the next one above it: the stop is missed. -/
theorem sell_stop_missed :
    ¬∀ (engine : MatchingEngine (smallConfig .cancelNewest)) command after, Reachable engine →
      engine.process command = .ok after → NoneMissed engine command after := by
  intro always
  obtain ⟨engine, reachable, shown⟩ := Reachable.exists_run
    (fun engine : MatchingEngine (smallConfig .cancelNewest) =>
      (engine.process (.submit (.gtc 3 .bid 3 2))).toOption.any fun after =>
        (matchStep (takerOf (.gtc 3 .bid 3 2))
          ⟨engine.clearEvents.accept (.gtc 3 .bid 3 2), 2⟩).toOption.any fun flow =>
          match flow with
          | .next following =>
            (emittedSince (engine.clearEvents.accept (.gtc 3 .bid 3 2)) following.engine).contains
              (.fill 1 3 2 1 0 1) &&
            (engine.clearEvents.refusal (.gtc 3 .bid 3 2)).toOption == some none &&
            following.engine.stopAsks.any fun pending =>
              pending.1 == 2 && after.stopAsks.contains pending
          | .done _ => false) 8
    [.submit (.gtc 1 .ask 2 1), .submit (.gtc 2 .ask 3 1),
      .submit { NewOrder.gtc 7 .ask 1 1 with orderType := .stopLimit, stopPrice := some 2 }]
    (by decide +kernel)
  obtain ⟨after, completed, facts⟩ := (Option.any_eq_true _ _).mp shown
  obtain ⟨flow, step, facts⟩ := (Option.any_eq_true _ _).mp facts
  split at facts
  · rename_i following
    simp only [Bool.and_eq_true, beq_iff_eq, List.contains_iff_mem, List.any_eq_true] at facts
    obtain ⟨⟨filled, checked⟩, pending, waits, price, remains⟩ := facts
    have sweeps : Sweeps engine (.submit (.gtc 3 .bid 3 2)) engine.clearEvents (.gtc 3 .bid 3 2)
        ⟨engine.clearEvents.accept (.gtc 3 .bid 3 2), 2⟩ :=
      ⟨.direct rfl, by decide, ok_of_toOption checked, .refl _ _⟩
    have none := always engine _ after reachable (ok_of_toOption completed) _ _ following 2
      ⟨_, sweeps, ok_of_toOption step, 1, 3, 1, 0, 1, filled⟩ .ask pending waits
      (by rw [price]; decide)
    exact none.2 remains
  · contradiction

end MatchingEngine

end MatchX
