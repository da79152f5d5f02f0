import MatchX.Engine.Triggers

/-!
# The order in which stops fire

Each pending stop is numbered by the call that accepted it, in a copy of the stop queues that the
engine does not see. A new stop goes in front of the pending stops of its price, so of two stops
at one price the later one fires first. Stops at different prices fire in the order in which the
trade price reaches them. The stops of one pass of the drain therefore fire by price and then by
acceptance exactly when no two of them have one price.
-/

namespace MatchX

open MatchX.Support

/-- A pending stop with the number of the call that accepted it. -/
abbrev NumberedStop := UInt64 × StopEntry × Nat

/-- The stop without its number. -/
def NumberedStop.pending (stop : NumberedStop) : UInt64 × StopEntry := (stop.1, stop.2.1)

/-- A stop is to fire before another one: the trade price reaches it first, or both have one
price and it was accepted first. -/
def Precedes (side : Side) (earlier later : NumberedStop) : Prop :=
  reachedBefore side earlier.1 later.1 = true ∨ earlier.1 = later.1 ∧ earlier.2.2 < later.2.2

/-- A stop stands in front of another one: the trade price reaches it first, or both have one
price and it was accepted last. -/
def NewestFirst (side : Side) (front back : NumberedStop) : Prop :=
  reachedBefore side front.1 back.1 = true ∨ front.1 = back.1 ∧ back.2.2 < front.2.2

/-- Of two stops of which one stands in front of the other that one is to fire first exactly when
they have different prices. -/
theorem NewestFirst.precedes_iff {side : Side} {front back : NumberedStop}
    (stands : NewestFirst side front back) : Precedes side front back ↔ front.1 ≠ back.1 := by
  have apart : reachedBefore side front.1 back.1 = true → front.1 ≠ back.1 := by
    rintro before same
    rw [same] at before
    cases side <;> simp [reachedBefore] at before
  constructor
  · rintro (before | ⟨-, older⟩)
    · exact apart before
    · rcases stands with before | ⟨-, newer⟩
      · exact apart before
      · omega
  · intro different
    exact .inl (stands.resolve_right fun same => different same.1)

/-! ## Inserting -/

section Insert

variable {α β : Type} {before : UInt64 → Bool} {stopPx : UInt64} {entry : α}

/-- A new stop goes behind a first stop that is triggered before its price, and in front of any
other one. -/
theorem insertStop_cons (first : UInt64 × α) (rest : List (UInt64 × α)) :
    MatchingEngine.insertStop (first :: rest) before stopPx entry =
      if before first.1 then first :: MatchingEngine.insertStop rest before stopPx entry
      else (stopPx, entry) :: first :: rest := by
  cases ahead : before first.1 <;> simp [MatchingEngine.insertStop, partitionPoint, ahead]

/-- Inserting commutes with a map of the entries. -/
theorem insertStop_map (onEntry : α → β) (queue : List (UInt64 × α)) :
    (MatchingEngine.insertStop queue before stopPx entry).map (Prod.map id onEntry) =
      MatchingEngine.insertStop (queue.map (Prod.map id onEntry)) before stopPx (onEntry entry) := by
  induction queue with
  | nil => rfl
  | cons first rest ih =>
    rw [insertStop_cons, List.map_cons, insertStop_cons, ← ih]
    cases ahead : before first.1 <;> simp [ahead]

end Insert

/-- A stop that is accepted after all pending ones keeps the newest of a price first. -/
theorem newestFirst_insert {side : Side} {queue : List NumberedStop} {stopPx : UInt64}
    {entry : StopEntry} {number : Nat} (stands : queue.Pairwise (NewestFirst side))
    (older : ∀ stop ∈ queue, stop.2.2 < number) :
    (MatchingEngine.insertStop queue (reachedBefore side · stopPx) stopPx
      (entry, number)).Pairwise (NewestFirst side) := by
  induction queue with
  | nil => exact List.pairwise_singleton _ _
  | cons first rest ih =>
    have behind := List.pairwise_cons.mp stands
    have olderRest : ∀ stop ∈ rest, stop.2.2 < number :=
      fun stop member => older stop (List.mem_cons_of_mem _ member)
    rw [insertStop_cons]
    split
    · rename_i ahead
      refine List.pairwise_cons.mpr ⟨fun stop member => ?_, ih behind.2 olderRest⟩
      rcases List.eq_or_mem_of_mem_insertIdx member with rfl | old
      · exact .inl ahead
      · exact behind.1 stop old
    · rename_i reached
      refine List.pairwise_cons.mpr ⟨fun stop member => ?_, stands⟩
      have younger := older stop member
      -- No pending stop is reached before the price of the first one.
      have beyond : reachedBefore side stop.1 stopPx = false := by
        have first' := Bool.eq_false_iff.mpr reached
        rcases List.mem_cons.mp member with rfl | later
        · exact first'
        · rcases behind.1 stop later with before | ⟨same, -⟩
          · cases side <;> simp only [reachedBefore, decide_eq_true_eq, decide_eq_false_iff_not,
              UInt64.lt_iff_toNat_lt] at before first' ⊢ <;> omega
          · exact same ▸ first'
      by_cases same : stopPx = stop.1
      · exact .inr ⟨same, younger⟩
      · refine .inl ?_
        have apart : stopPx.toNat ≠ stop.1.toNat := fun equal => same (UInt64.toNat_inj.mp equal)
        cases side <;> simp only [reachedBefore, decide_eq_true_eq, decide_eq_false_iff_not,
          UInt64.lt_iff_toNat_lt] at beyond ⊢ <;> omega

/-! ## Engines with numbered stops -/

/-- An engine with its pending stops numbered. -/
structure Numbered (config : InstrumentConfig) where
  /-- The engine. -/
  engine : MatchingEngine config
  /-- The pending stops of a side. -/
  waiting : Side → List NumberedStop
  /-- The number of completed calls. -/
  calls : Nat

namespace Numbered

open MatchingEngine

variable {config : InstrumentConfig} {numbered following : Numbered config} {command : Command}
  {side : Side} {lastPrice : UInt64} {start pass entry before after : MatchingEngine config}

/-- The stop order of a command that is accepted, with its trigger price. -/
def stopOf : Command → Option (UInt64 × NewOrder)
  | .newOrder _ order =>
    if order.orderType = .stopLimit ∧ order.qty ≠ 0 then order.stopPrice.map (·, order) else none
  | _ => none

/-- The pending stops once a command is carried out. -/
def park (numbered : Numbered config) (command : Command) (side : Side) : List NumberedStop :=
  match stopOf command with
  | none => numbered.waiting side
  | some (stopPx, order) =>
    if side = order.side then
      insertStop (numbered.waiting side) (reachedBefore side · stopPx) stopPx
        (stopEntry order, numbered.calls)
    else numbered.waiting side

/-- The pending stops at a later state of the call: the drain takes stops from the front. -/
def left (numbered : Numbered config) (command : Command) (state : MatchingEngine config)
    (side : Side) : List NumberedStop :=
  (numbered.park command side).drop
    ((numbered.park command side).length - (state.stops side).length)

/-- `process`. -/
def process (numbered : Numbered config) (command : Command) : Except Fault (Numbered config) := do
  let after ← numbered.engine.process command
  return ⟨after, numbered.left command after, numbered.calls + 1⟩

/-- A new engine. -/
def IsNew (numbered : Numbered config) : Prop :=
  ∃ capacity, numbered = ⟨.new config capacity, fun _ => [], 0⟩

/-- A pass of the drain of a call begins at a trade price. -/
structure Passes (engine : MatchingEngine config) (command : Command)
    (pass : MatchingEngine config) (lastPrice : UInt64) : Prop where
  /-- The pass is one of the drain's. -/
  drains : ∃ start, engine.clearEvents.dispatch command = .ok start ∧ Visits drainPass start pass
  /-- The price is the last trade price at its beginning. -/
  traded : pass.lastTradePrice = some lastPrice

/-- A pass enters the loop over the stops of a side at a state. -/
def Enters (pass : MatchingEngine config) (lastPrice : UInt64) :
    Side → MatchingEngine config → Prop
  | .bid, entry => entry = pass
  | .ask, entry => drainBuys lastPrice pass = .ok entry

/-- The next stop that the drain fires at a state is a numbered one: it is reported and its order is
submitted. -/
structure Fires (numbered : Numbered config) (command : Command) (side : Side)
    (lastPrice : UInt64) (state : MatchingEngine config) (stop : NumberedStop) : Prop where
  /-- The stop is the first pending one. -/
  first : (numbered.left command state side).head? = some stop
  /-- It is reported and its order is submitted. -/
  triggered : ∃ site, trigger side lastPrice state = some (site, stop.2.1.order) ∧
    site.bodies = state.bodies ++ [.stopTriggered stop.2.1.id stop.2.1.id]

/-- Of any two stops of a side that one pass of a call's drain fires, the one that fires first is
the one that is to fire first. -/
def FiresInTurn (numbered : Numbered config) (command : Command) : Prop :=
  ∀ pass lastPrice, Passes numbered.engine command pass lastPrice →
    ∀ side entry, Enters pass lastPrice side entry →
    ∀ first between second last, Visits (fireStop (trigger side lastPrice)) entry first →
      fireStop (trigger side lastPrice) first = .ok (.next between) →
      Visits (fireStop (trigger side lastPrice)) between second →
      fireStop (trigger side lastPrice) second = .ok (.next last) →
      ∃ earlier later, numbered.Fires command side lastPrice first earlier ∧
        numbered.Fires command side lastPrice second later ∧ Precedes side earlier later

/-- The prices of the pending stops of a side that a trade price has reached. -/
def reachedPrices (engine : MatchingEngine config) (side : Side) (lastPrice : UInt64) :
    List UInt64 :=
  ((engine.stops side).filter fun pending => !reachedBefore side lastPrice pending.1).map Prod.fst

/-- No pass of a call's drain begins with two pending stops of one side that have one price, which
the trade price has reached. -/
def NoTies (engine : MatchingEngine config) (command : Command) : Prop :=
  ∀ pass lastPrice, Passes engine command pass lastPrice →
    ∀ side, (reachedPrices pass side lastPrice).Nodup

/-- The numbered stops are those of the engine, in order, numbered by earlier calls. -/
structure Faithful (numbered : Numbered config) : Prop where
  /-- The engine is sound and its stops are orderly. -/
  begins : (∃ queues, numbered.engine.Sound queues) ∧ numbered.engine.StopsOrderly
  /-- The stops are those of the engine. -/
  entries : ∀ side, (numbered.waiting side).map NumberedStop.pending = numbered.engine.stops side
  /-- Of the stops at one price the newest is the first. -/
  stands : ∀ side, (numbered.waiting side).Pairwise (NewestFirst side)
  /-- They were accepted by earlier calls. -/
  earlier : ∀ side, ∀ stop ∈ numbered.waiting side, stop.2.2 < numbered.calls

/-- A new engine has no stops. -/
theorem faithful_new (isNew : numbered.IsNew) : numbered.Faithful := by
  obtain ⟨capacity, rfl⟩ := isNew
  refine ⟨⟨⟨_, sound_new config capacity⟩, fun side => ?_⟩, fun side => ?_, fun _ => .nil, by simp⟩
  · cases side <;> exact Orderly.nil _
  · cases side <;> rfl

/-- The stop of an order with the number of the call. -/
theorem pending_eq_map : NumberedStop.pending = Prod.map id (Prod.fst : StopEntry × Nat → _) := rfl

/-- Handling an order that is no stop order leaves the stops as they are. -/
theorem stops_of_handled {site : MatchingEngine config} {order : NewOrder} {queues : Queues}
    (sound : site.Sound queues) (kind : order.orderType ≠ .stopLimit)
    (returned : site.processNewOrder order = .ok after) (side : Side) :
    after.stops side = site.stops side := by
  obtain ⟨bids, asks⟩ := (processNewOrder_cases sound returned).stops_eq sound kind
  exact stops_congr bids asks side

/-- The numbered stops are those of the engine once its event buffer is cleared. -/
theorem Faithful.cleared (faithful : numbered.Faithful) (side : Side) :
    (numbered.waiting side).map NumberedStop.pending = numbered.engine.clearEvents.stops side := by
  rw [faithful.entries]
  cases side <;> rfl

/-- A command that parks no stop leaves the numbered ones. -/
theorem Faithful.parks_none (faithful : numbered.Faithful) (none : stopOf command = none)
    (side : Side) : (numbered.park command side).map NumberedStop.pending =
      numbered.engine.clearEvents.stops side := by
  simp only [park, none, faithful.cleared]

/-- A stop-limit order that is parked joins the numbered stops as it joins the engine's. -/
theorem Faithful.parked_stop {order : NewOrder} {instrumentId : UInt32}
    (faithful : numbered.Faithful) (kind : order.orderType = .stopLimit)
    (dispatched : numbered.engine.clearEvents.processNewOrder order = .ok start) (side : Side) :
    (numbered.park (.newOrder instrumentId order) side).map NumberedStop.pending =
      start.stops side := by
  simp only [processNewOrder, kind, processStopLimit] at dispatched
  obtain rfl := Except.ok.inj dispatched
  by_cases proper : order.qty = 0
  · rw [faithful.parks_none (by simp [stopOf, proper]), if_pos proper]
    cases side <;> rfl
  · cases price : order.stopPrice with
    | none =>
      rw [faithful.parks_none (by simp [stopOf, price]), if_neg proper]
      cases side <;> rfl
    | some stopPx =>
      have parks : stopOf (.newOrder instrumentId order) = some (stopPx, order) := by
        simp [stopOf, kind, proper, price]
      simp only [park, parks, if_neg proper]
      by_cases onSide : side = order.side
      · rw [if_pos onSide, pending_eq_map, insertStop_map, ← pending_eq_map, faithful.cleared]
        subst onSide
        cases orderSide : order.side <;> simp [stops, stopEntry, reachedBefore, orderSide]
      · rw [if_neg onSide, faithful.cleared]
        cases side <;> cases orderSide : order.side <;>
          first | rfl | exact absurd orderSide.symm onSide

/-- Once a command is carried out the engine's stops are the numbered ones. -/
theorem Faithful.parked (faithful : numbered.Faithful)
    (dispatched : numbered.engine.clearEvents.dispatch command = .ok start) (side : Side) :
    (numbered.park command side).map NumberedStop.pending = start.stops side := by
  obtain ⟨⟨queues, sound⟩, -⟩ := faithful.begins
  have cleared : numbered.engine.clearEvents.Sound queues := sound.congr rfl rfl
  cases command with
  | newOrder instrumentId order =>
    change numbered.engine.clearEvents.processNewOrder order = .ok start at dispatched
    by_cases kind : order.orderType = .stopLimit
    · exact faithful.parked_stop kind dispatched side
    · rw [faithful.parks_none (by simp [stopOf, kind]), stops_of_handled cleared kind dispatched]
  | cancelOrder id =>
    rw [faithful.parks_none rfl]
    cases processCancel_cases cleared dispatched with
    | missing => cases side <;> rfl
    | removed => cases side <;> rfl
  | modifyOrder id newPrice newQty =>
    rw [faithful.parks_none rfl]
    change numbered.engine.clearEvents.processModify id newPrice newQty = .ok start at dispatched
    unfold processModify at dispatched
    cases held : numbered.engine.clearEvents.book.lookup id with
    | none =>
      rw [held] at dispatched
      obtain rfl := Except.ok.inj dispatched
      cases side <;> rfl
    | some index =>
      simp only [held] at dispatched
      obtain ⟨⟨site, order⟩, withdrawn, handled⟩ := bind_ok dispatched
      obtain ⟨queues', sound'⟩ := (sound_kept numbered.engine _).withdraws id newPrice newQty index
        site order rfl ⟨queues, cleared⟩ held withdrawn
      cases withdraw_cases cleared held withdrawn with
      | removed found removed =>
        rw [stops_of_handled sound' (by simp [replacement]) handled]
        cases side <;> rfl

/-! ## Firing -/

/-- At a state of a call's drain the engine's stops are the numbered ones that are left. -/
structure Holds (numbered : Numbered config) (command : Command)
    (state : MatchingEngine config) : Prop where
  /-- The engine is sound and its stops are orderly. -/
  begins : (∃ queues, state.Sound queues) ∧ state.StopsOrderly
  /-- The stops that are left are those of the engine. -/
  entries : ∀ side, (numbered.left command state side).map NumberedStop.pending = state.stops side

/-- The numbered stops that are left stand in the order in which they were parked. -/
theorem left_suffix (numbered : Numbered config) (command : Command)
    (state : MatchingEngine config) (side : Side) :
    numbered.left command state side <:+ numbered.park command side :=
  List.drop_suffix _ _

/-- Where one stop more is pending it is the first of those that are left. -/
theorem left_of_popped {pending : UInt64 × StopEntry}
    (held : (numbered.left command before side).map NumberedStop.pending = before.stops side)
    (popped : before.stops side = pending :: after.stops side) :
    ∃ stop, numbered.left command before side = stop :: numbered.left command after side ∧
      stop.pending = pending := by
  have count : (before.stops side).length = (after.stops side).length + 1 := by
    rw [popped, List.length_cons]
  have enough : (after.stops side).length + 1 ≤ (numbered.park command side).length := by
    have whole := congrArg List.length held
    rw [List.length_map, left, List.length_drop] at whole
    omega
  have within : (numbered.park command side).length - (before.stops side).length <
      (numbered.park command side).length := by omega
  have next : (numbered.park command side).length - (before.stops side).length + 1 =
      (numbered.park command side).length - (after.stops side).length := by omega
  have split := List.drop_eq_getElem_cons within
  rw [next] at split
  refine ⟨_, split, ?_⟩
  have heads := congrArg List.head? (held.trans popped)
  rw [left, split] at heads
  exact Option.some.inj heads

/-- Where a queue is kept so are the stops that are left of it. -/
theorem left_congr (kept : after.stops side = before.stops side) :
    numbered.left command after side = numbered.left command before side := by
  rw [left, left, kept]

/-- A stop that fires is the first numbered one, and the others are left. -/
theorem Holds.fired (holds : numbered.Holds command before)
    (step : fireStop (trigger side lastPrice) before = .ok (.next after)) :
    numbered.Holds command after ∧ ∃ stop,
      numbered.Fires command side lastPrice before stop ∧
      reachedBefore side lastPrice stop.1 = false ∧
      numbered.left command before side = stop :: numbered.left command after side := by
  obtain ⟨⟨queues, sound⟩, orderly⟩ := holds.begins
  obtain ⟨site, order, triggered, returned⟩ := fireStop_next step
  obtain ⟨stopPx, entry, rfl, reached, popped⟩ := trigger_some triggered
  have sound' : site.Sound queues := sound.congr popped.book popped.arena
  have handled := processNewOrder_cases sound' returned
  have still := stops_of_handled sound' (stopEntry_order_kind entry) returned
  have first : before.stops side = (stopPx, entry) :: after.stops side := by
    rw [still]
    exact popped.first
  obtain ⟨stop, split, same⟩ := left_of_popped (holds.entries side) first
  obtain ⟨rfl, rfl⟩ := Prod.mk.inj same
  refine ⟨⟨⟨handled.sound sound', ?_⟩, fun other => ?_⟩, stop, ⟨?_, site, triggered, popped.bodies⟩,
    reached, split⟩
  · exact handled.stopsOrderly sound' (popped.stopsOrderly orderly)
  · by_cases here : other = side
    · subst here
      have rest := holds.entries other
      rw [split, first, List.map_cons] at rest
      exact (List.cons.inj rest).2
    · obtain rfl := eq_opposite here
      have kept : after.stops side.opposite = before.stops side.opposite := by
        rw [still]
        exact popped.other
      rw [left_congr kept, kept]
      exact holds.entries side.opposite
  · rw [split]
    rfl

/-- The states of an inner loop of the drain have the numbered stops, and what is left at one is
at the end of what was left at the first. -/
theorem Holds.visits (holds : numbered.Holds command before)
    (visits : Visits (fireStop (trigger side lastPrice)) before after) :
    numbered.Holds command after ∧
      numbered.left command after side <:+ numbered.left command before side := by
  induction visits with
  | refl => exact ⟨holds, List.suffix_refl _⟩
  | tail _ step held =>
    obtain ⟨held', stop, -, -, split⟩ := held.1.fired step
    exact ⟨held', (split ▸ List.suffix_cons _ _).trans held.2⟩

/-- Every stop that the price of a pass reaches fires before the loop over its side returns. -/
theorem Holds.fires {fuel : Nat} {stop : NumberedStop} (holds : numbered.Holds command before)
    (waits : stop ∈ numbered.left command before side)
    (reached : reachedBefore side lastPrice stop.1 = false)
    (returned : loop .exhausted (fireStop (trigger side lastPrice)) fuel before = .ok after) :
    ∃ state following, Visits (fireStop (trigger side lastPrice)) before state ∧
      fireStop (trigger side lastPrice) state = .ok (.next following) ∧
      numbered.Fires command side lastPrice state stop := by
  induction fuel generalizing before with
  | zero => simp [loop] at returned
  | succ fuel ih =>
    simp only [loop] at returned
    split at returned
    · contradiction
    · rename_i following step
      obtain ⟨holds', first, fires, -, split⟩ := holds.fired step
      rw [split] at waits
      rcases List.mem_cons.mp waits with rfl | later
      · exact ⟨before, following, .refl _ _, step, fires⟩
      · obtain ⟨state, last, visits, step', fires'⟩ := ih holds' later returned
        exact ⟨state, last, visits.head step, step', fires'⟩
    · rename_i result step
      have quiet := trigger_none (holds.begins.2 side) (fireStop_idle step)
      have member : stop.pending ∈ before.stops side := by
        rw [← holds.entries]
        exact List.mem_map_of_mem waits
      have beyond := quiet _ member
      change reachedBefore side lastPrice stop.1 = true at beyond
      rw [reached] at beyond
      contradiction

/-- The drain of a call begins with the numbered stops. -/
theorem Faithful.holds (faithful : numbered.Faithful)
    (dispatched : numbered.engine.clearEvents.dispatch command = .ok start) :
    numbered.Holds command start := by
  obtain ⟨⟨queues, sound⟩, orderly⟩ := faithful.begins
  have cleared : (∃ queues, numbered.engine.clearEvents.Sound queues) ∧
      numbered.engine.clearEvents.StopsOrderly := ⟨⟨queues, sound.congr rfl rfl⟩, orderly⟩
  refine ⟨(orderly_kept numbered.engine command).dispatch cleared dispatched, fun side => ?_⟩
  have parked := faithful.parked dispatched side
  have whole : numbered.left command start side = numbered.park command side := by
    rw [left, ← parked, List.length_map, Nat.sub_self, List.drop_zero]
  rw [whole]
  exact parked

/-- The passes of a call's drain have the numbered stops. -/
theorem Faithful.passes (faithful : numbered.Faithful)
    (passes : Passes numbered.engine command pass lastPrice) : numbered.Holds command pass := by
  obtain ⟨start, dispatched, visits⟩ := passes.drains
  refine visits.invariant (fun before following held step => ?_) (faithful.holds dispatched)
  exact drainPass_keep (fun side lastPrice before after (_ : True) held =>
    fun step => (Holds.fired held step).1) (fun _ _ => trivial) held step

/-- The loop over a side's stops begins with the stops of the pass. -/
theorem Holds.enters (holds : numbered.Holds command pass)
    (enters : Enters pass lastPrice side entry) :
    numbered.Holds command entry ∧ entry.stops side = pass.stops side := by
  cases side with
  | bid =>
    obtain rfl : entry = pass := enters
    exact ⟨holds, rfl⟩
  | ask =>
    obtain ⟨last, visits, exit⟩ := loop_exit enters
    obtain rfl := fireStop_done exit
    obtain ⟨-, -, kept⟩ := fireStops_exhaust holds.begins
      (show loop _ (fireStop (trigger .bid lastPrice)) _ _ = _ from enters)
    exact ⟨(holds.visits (show Visits (fireStop (trigger .bid lastPrice)) _ _ from visits)).1, kept⟩

/-- A pass of a call that completes goes through the loop over each side's stops. -/
theorem enters_of_completed (completed : numbered.engine.process command = .ok after)
    (passes : Passes numbered.engine command pass lastPrice) (side : Side) :
    ∃ entry fuel result, Enters pass lastPrice side entry ∧
      loop .exhausted (fireStop (trigger side lastPrice)) fuel entry = .ok result := by
  obtain ⟨start, dispatched, visits⟩ := passes.drains
  obtain ⟨start', dispatched', drains, -⟩ := process_drained completed
  obtain rfl := Except.ok.inj (dispatched.symm.trans dispatched')
  obtain ⟨fuel, further⟩ := visits.returns drains
  simp only [loop] at further
  cases step : drainPass pass with
  | error fault => simp [step] at further
  | ok flow =>
    obtain ⟨bought, sold, buys, sells, -⟩ := drainPass_parts passes.traded step
    cases side with
    | bid => exact ⟨pass, _, bought, rfl, buys⟩
    | ask => exact ⟨bought, _, sold, buys, sells⟩

/-- The stops of a pass, first to last, in the order of what is parked. -/
theorem Faithful.stands_left (faithful : numbered.Faithful) (command : Command)
    (state : MatchingEngine config) (side : Side) :
    (numbered.left command state side).Pairwise (NewestFirst side) := by
  refine List.Pairwise.sublist (left_suffix numbered command state side).sublist ?_
  unfold park
  split
  · exact faithful.stands side
  · split
    · exact newestFirst_insert (faithful.stands side) (faithful.earlier side)
    · exact faithful.stands side

/-- The reached prices of the stops that are left. -/
theorem Holds.reachedPrices_eq (holds : numbered.Holds command before) (side : Side)
    (lastPrice : UInt64) : reachedPrices before side lastPrice =
      ((numbered.left command before side).filter fun stop =>
        !reachedBefore side lastPrice stop.1).map Prod.fst := by
  rw [reachedPrices, ← holds.entries, List.filter_map, List.map_map]
  rfl

/-- Where a stop fires its price is a reached one, besides those of the stops behind it. -/
theorem Holds.reachedPrices_fired (holds : numbered.Holds command before)
    (holds' : numbered.Holds command after) {stop : NumberedStop}
    (split : numbered.left command before side = stop :: numbered.left command after side)
    (reached : reachedBefore side lastPrice stop.1 = false) :
    reachedPrices before side lastPrice = stop.1 :: reachedPrices after side lastPrice := by
  rw [holds.reachedPrices_eq, holds'.reachedPrices_eq, split,
    List.filter_cons_of_pos (by simp [reached]), List.map_cons]

/-- When no two reached stops have one price, any two that fire do so in turn. -/
theorem Holds.in_turn (holds : numbered.Holds command entry) (faithful : numbered.Faithful)
    (apart : (reachedPrices entry side lastPrice).Nodup)
    {first between second last : MatchingEngine config}
    (visits : Visits (fireStop (trigger side lastPrice)) entry first)
    (step : fireStop (trigger side lastPrice) first = .ok (.next between))
    (visits' : Visits (fireStop (trigger side lastPrice)) between second)
    (step' : fireStop (trigger side lastPrice) second = .ok (.next last)) :
    ∃ earlier later, numbered.Fires command side lastPrice first earlier ∧
      numbered.Fires command side lastPrice second later ∧ Precedes side earlier later := by
  obtain ⟨holdsFirst, suffix⟩ := holds.visits visits
  obtain ⟨holdsBetween, earlier, fires, reached, split⟩ := holdsFirst.fired step
  obtain ⟨holdsSecond, suffix'⟩ := holdsBetween.visits visits'
  obtain ⟨-, later, fires', reached', split'⟩ := holdsSecond.fired step'
  refine ⟨earlier, later, fires, fires', ?_⟩
  have behind : later ∈ numbered.left command between side :=
    suffix'.subset (split' ▸ List.mem_cons_self)
  have stands := faithful.stands_left command first side
  rw [split] at stands
  refine ((List.pairwise_cons.mp stands).1 later behind).precedes_iff.mpr fun same => ?_
  have sublist : (reachedPrices first side lastPrice).Sublist
      (reachedPrices entry side lastPrice) := by
    rw [holds.reachedPrices_eq, holdsFirst.reachedPrices_eq]
    exact (suffix.sublist.filter _).map _
  have distinct := apart.sublist sublist
  rw [holdsFirst.reachedPrices_fired holdsBetween split reached] at distinct
  refine (List.nodup_cons.mp distinct).1 ?_
  rw [same, holdsBetween.reachedPrices_eq]
  exact List.mem_map_of_mem (List.mem_filter.mpr ⟨behind, by simp [reached']⟩)

/-- When any two stops that fire do so in turn, no two reached stops have one price. -/
theorem Holds.no_ties {fuel : Nat} (holds : numbered.Holds command entry)
    (faithful : numbered.Faithful)
    (inTurn : ∀ first between second last, Visits (fireStop (trigger side lastPrice)) entry first →
      fireStop (trigger side lastPrice) first = .ok (.next between) →
      Visits (fireStop (trigger side lastPrice)) between second →
      fireStop (trigger side lastPrice) second = .ok (.next last) →
      ∃ earlier later, numbered.Fires command side lastPrice first earlier ∧
        numbered.Fires command side lastPrice second later ∧ Precedes side earlier later)
    (returned : loop .exhausted (fireStop (trigger side lastPrice)) fuel entry = .ok after) :
    (reachedPrices entry side lastPrice).Nodup := by
  induction fuel generalizing entry with
  | zero => simp [loop] at returned
  | succ fuel ih =>
    simp only [loop] at returned
    split at returned
    · contradiction
    · rename_i following step
      obtain ⟨holds', front, fires, reached, split⟩ := holds.fired step
      rw [holds.reachedPrices_fired holds' split reached]
      refine List.nodup_cons.mpr ⟨fun tie => ?_, ih holds' (fun first between second last visits =>
        inTurn first between second last (visits.head step)) returned⟩
      rw [holds'.reachedPrices_eq] at tie
      obtain ⟨back, member, same⟩ := List.mem_map.mp tie
      obtain ⟨behind, reached'⟩ := List.mem_filter.mp member
      obtain ⟨state, last, visits, step', fires'⟩ :=
        holds'.fires behind (by simpa using reached') returned
      obtain ⟨earlier, later, fires₁, fires₂, precedes⟩ :=
        inTurn entry following state last (.refl _ _) step visits step'
      obtain rfl := Option.some.inj (fires.first.symm.trans fires₁.first)
      obtain rfl := Option.some.inj (fires'.first.symm.trans fires₂.first)
      have stands := faithful.stands_left command entry side
      rw [split] at stands
      exact ((List.pairwise_cons.mp stands).1 back behind).precedes_iff.mp precedes same.symm
    · rename_i result step
      have quiet := trigger_none (holds.begins.2 side) (fireStop_idle step)
      have none : reachedPrices entry side lastPrice = [] := by
        rw [reachedPrices, List.map_eq_nil_iff, List.filter_eq_nil_iff]
        exact fun pending member => by simp [quiet pending member]
      rw [none]
      exact List.nodup_nil

/-! ## Runs -/

/-- The stops of a call that completes fire in turn exactly when none of its passes begins with a
tie. -/
theorem Faithful.fires_in_turn_iff (faithful : numbered.Faithful)
    (completed : numbered.engine.process command = .ok after) :
    numbered.FiresInTurn command ↔ NoTies numbered.engine command := by
  constructor
  · intro inTurn pass lastPrice passes side
    obtain ⟨entry, fuel, result, enters, returned⟩ := enters_of_completed completed passes side
    obtain ⟨holds, same⟩ := (faithful.passes passes).enters enters
    have apart := holds.no_ties faithful (inTurn pass lastPrice passes side entry enters) returned
    rwa [reachedPrices, same] at apart
  · intro noTies pass lastPrice passes side entry enters first between second last visits step
      visits' step'
    obtain ⟨holds, same⟩ := (faithful.passes passes).enters enters
    have apart : (reachedPrices entry side lastPrice).Nodup := by
      rw [reachedPrices, same]
      exact noTies pass lastPrice passes side
    exact holds.in_turn faithful apart visits step visits' step'

/-- Where no two stops of a side that are pending when the drain begins have one price, no pass
begins with a tie. -/
theorem Faithful.noTies (faithful : numbered.Faithful)
    (distinct : ∀ side, ((numbered.park command side).map Prod.fst).Nodup) :
    NoTies numbered.engine command := by
  intro pass lastPrice passes side
  rw [(faithful.passes passes).reachedPrices_eq]
  refine (distinct side).sublist (List.Sublist.map _ ?_)
  exact List.filter_sublist.trans (left_suffix numbered command pass side).sublist

/-- Without the numbers a call is that of the engine. -/
theorem engine_process (numbered : Numbered config) (command : Command) :
    (numbered.process command).map engine = numbered.engine.process command := by
  unfold process
  cases numbered.engine.process command <;> rfl

/-- A completed call with numbered stops is a completed call of the engine. -/
theorem process_ok (completed : numbered.process command = .ok following) :
    ∃ after, numbered.engine.process command = .ok after ∧
      following = ⟨after, numbered.left command after, numbered.calls + 1⟩ := by
  obtain ⟨after, returned, same⟩ := bind_ok completed
  exact ⟨after, returned, (Except.ok.inj same).symm⟩

/-- A call keeps the stops numbered. -/
theorem Faithful.process (faithful : numbered.Faithful)
    (completed : numbered.process command = .ok following) : following.Faithful := by
  obtain ⟨after, returned, rfl⟩ := process_ok completed
  obtain ⟨start, dispatched, drains, -⟩ := process_drained returned
  have holds : numbered.Holds command after :=
    drain_keep (fun side lastPrice before after (_ : True) held step =>
      (Holds.fired held step).1) (fun _ _ _ _ => trivial) (.refl _ _)
      (fun flow step => drainPass_keep (fun side lastPrice before after (_ : True) held step =>
        (Holds.fired held step).1) (fun _ _ => trivial) (faithful.holds dispatched) step) drains
  refine ⟨holds.begins, holds.entries, faithful.stands_left command after, fun side stop member => ?_⟩
  have parked := (left_suffix numbered command after side).subset member
  unfold park at parked
  split at parked
  · exact Nat.lt_succ_of_lt (faithful.earlier side stop parked)
  · split at parked
    · rcases List.eq_or_mem_of_mem_insertIdx parked with rfl | old
      · exact Nat.lt_succ_self _
      · exact Nat.lt_succ_of_lt (faithful.earlier side stop old)
    · exact Nat.lt_succ_of_lt (faithful.earlier side stop parked)

/-- In every run the numbered stops are those of the engine, and all calls fire their stops by price
and then by acceptance exactly when no pass of their drains begins with a tie. -/
theorem fires_in_turn_iff_no_ties (config : InstrumentConfig)
    (calls : List (Numbered config × Command)) (last : Numbered config)
    (trace : Trace IsNew Numbered.process calls last) :
    (∀ side, (last.waiting side).map NumberedStop.pending = last.engine.stops side) ∧
      ((∀ call ∈ calls, call.1.FiresInTurn call.2) ↔
        ∀ call ∈ calls, NoTies call.1.engine call.2) := by
  obtain ⟨faithful, each⟩ := trace.invariant (fun _ => faithful_new)
    (fun _ _ _ faithful completed => Faithful.process faithful completed)
  have same : ∀ call ∈ calls, call.1.FiresInTurn call.2 ↔ NoTies call.1.engine call.2 := by
    intro call member
    obtain ⟨faithful, following, completed⟩ := each call member
    obtain ⟨after, returned, -⟩ := process_ok completed
    exact faithful.fires_in_turn_iff returned
  exact ⟨faithful.entries, forall₂_congr same⟩

/-- The ids of the stops that are reported as triggered. -/
def triggered (engine : MatchingEngine config) : List OrderId :=
  engine.bodies.filterMap fun
    | .stopTriggered stopId _ => some stopId
    | _ => none

/-- Commands that pass a check and whose last engine passes a test are a run of such calls. -/
theorem exists_run (check : Numbered config → Command → Bool) (test : Numbered config → Bool)
    (capacity : UInt32) (commands : List Command)
    (passes : (checkedRun check Numbered.process commands
      ⟨.new config capacity, fun _ => [], 0⟩).any test = true) :
    ∃ calls last, Trace IsNew Numbered.process calls last ∧
      (∀ call ∈ calls, check call.1 call.2 = true) ∧ test last = true :=
  Trace.exists_checkedRun check test ⟨capacity, rfl⟩ commands passes

/-- Two buy stops at different prices, the further one accepted first, fire in turn. -/
theorem fires_in_turn_of_two_prices :
    ∃ calls, ∃ last : Numbered (smallConfig .cancelNewest), Trace IsNew Numbered.process calls last ∧
      (∀ call ∈ calls, call.1.FiresInTurn call.2) ∧ triggered last.engine = [7, 8] := by
  obtain ⟨calls, last, trace, distinct, told⟩ := exists_run
    (fun (numbered : Numbered (smallConfig .cancelNewest)) command =>
      decide (((numbered.park command .bid).map Prod.fst).Nodup) &&
        decide (((numbered.park command .ask).map Prod.fst).Nodup))
    (fun last => triggered last.engine == [7, 8]) 8
    [.submit (.gtc 1 .ask 3 10),
      .submit { NewOrder.gtc 8 .bid 1 5 with orderType := .stopLimit, stopPrice := some 3 },
      .submit { NewOrder.gtc 7 .bid 1 5 with orderType := .stopLimit, stopPrice := some 2 },
      .submit (.gtc 2 .bid 3 4)] (by decide +kernel)
  refine ⟨calls, last, trace, (fires_in_turn_iff_no_ties _ calls last trace).2.mpr ?_,
    beq_iff_eq.mp told⟩
  obtain ⟨-, each⟩ := trace.invariant (fun _ => faithful_new)
    (fun _ _ _ faithful completed => Faithful.process faithful completed)
  intro call member
  have checked := distinct call member
  simp only [Bool.and_eq_true, decide_eq_true_eq] at checked
  refine (each call member).1.noTies fun side => ?_
  cases side
  · exact checked.1
  · exact checked.2

/-- Two buy stops at one price do not fire in turn. -/
theorem fires_newest_first :
    ¬∀ calls, ∀ last : Numbered (smallConfig .cancelNewest),
      Trace IsNew Numbered.process calls last → ∀ call ∈ calls, call.1.FiresInTurn call.2 := by
  intro always
  obtain ⟨calls, before, trace, -, shown⟩ := exists_run (fun _ _ => true)
    (fun before : Numbered (smallConfig .cancelNewest) =>
      (before.process (.submit (.gtc 4 .bid 2 4))).toOption.any fun last =>
        (before.engine.clearEvents.dispatch (.submit (.gtc 4 .bid 2 4))).toOption.any fun start =>
          start.lastTradePrice == some 2 && reachedPrices start .bid 2 == [2, 2] &&
            triggered last.engine == [3, 2]) 8
    [.submit (.gtc 1 .ask 2 10),
      .submit { NewOrder.gtc 2 .bid 1 5 with orderType := .stopLimit, stopPrice := some 2 },
      .submit { NewOrder.gtc 3 .bid 1 5 with orderType := .stopLimit, stopPrice := some 2 }]
    (by decide +kernel)
  obtain ⟨last, completed, facts⟩ := (Option.any_eq_true _ _).mp shown
  obtain ⟨start, dispatched, facts⟩ := (Option.any_eq_true _ _).mp facts
  simp only [Bool.and_eq_true, beq_iff_eq] at facts
  obtain ⟨⟨traded, tie⟩, -⟩ := facts
  have inTurn := always _ last (trace.step (ok_of_toOption completed)) _ List.mem_cons_self
  obtain ⟨faithful, -⟩ := trace.invariant (fun _ => faithful_new)
    (fun _ _ _ faithful completed => Faithful.process faithful completed)
  obtain ⟨after, returned, -⟩ := process_ok (ok_of_toOption completed)
  have apart := (faithful.fires_in_turn_iff returned).mp inTurn start 2
    ⟨⟨start, ok_of_toOption dispatched, .refl _ _⟩, traded⟩ .bid
  rw [tie] at apart
  exact absurd apart (by decide)

end Numbered

end MatchX
