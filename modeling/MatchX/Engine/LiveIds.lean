import MatchX.Engine.Makers
import MatchX.Engine.Rejection
import MatchX.Engine.Reports

/-!
# Live ids

An id is live while an order rests under it or a pending stop has it. Of the orders that are
matched on arrival the book refuses those whose id rests; no check looks at the pending stops,
and post-only and stop orders are not checked at all. As long as every new order whose id is live
is turned away, no id is live in two places.
-/

namespace MatchX

open MatchX.Support

namespace MatchingEngine

variable {config : InstrumentConfig} {engine engine' : MatchingEngine config} {queues : Queues}
  {command : Command} {order : NewOrder} {id : OrderId} {side : Side} {stopPx : UInt64}
  {entry : StopEntry}

/-- The ids of the pending stops. -/
def pendingIds (engine : MatchingEngine config) : List OrderId :=
  (engine.stopBids ++ engine.stopAsks).map fun pending => pending.2.id

/-- An order rests under the id or waits as a stop. -/
def Live (engine : MatchingEngine config) (id : OrderId) : Prop :=
  engine.restingOrder id ≠ none ∨ id ∈ engine.pendingIds

/-- No id is live in two places: no two orders rest under one id, no two stops have one id, and
no order rests under the id of a stop. -/
structure IdsUnique (engine : MatchingEngine config) : Prop where
  /-- No two slots hold orders of one id. -/
  book : ∀ i j first second, engine.arena.find i = some first → engine.arena.find j = some second →
    first.id = second.id → i = j
  /-- No two stops have one id. -/
  stops : engine.pendingIds.Nodup
  /-- No order rests under the id of a stop. -/
  apart : ∀ id ∈ engine.pendingIds, engine.restingOrder id = none

/-- Where ids live is a matter of the book, the orders in it and the pending stops. -/
theorem IdsUnique.congr (unique : engine.IdsUnique) (book : engine'.book = engine.book)
    (arena : engine'.arena = engine.arena) (bids : engine'.stopBids = engine.stopBids)
    (asks : engine'.stopAsks = engine.stopAsks) : engine'.IdsUnique := by
  have pending : engine'.pendingIds = engine.pendingIds := by
    rw [pendingIds, bids, asks, pendingIds]
  refine ⟨arena ▸ unique.book, pending ▸ unique.stops, fun id member => ?_⟩
  rw [restingOrder, book, arena]
  exact unique.apart id (pending ▸ member)

/-! ## Turning an order away -/

/-- The check of the first maker's group turns the order away. -/
def StoppedAtOnce (engine : MatchingEngine config) (order : NewOrder) : Prop :=
  config.stpMode = .cancelNewest ∧
    (makersFor (takerOf order) engine).head?.any (sameGroup (takerOf order)) = true

instance : Decidable (engine.StoppedAtOnce order) := by
  unfold StoppedAtOnce
  infer_instance

/-- Whether an order is turned away: a post-only order that would cross, a stop order without a
quantity or a stop price, and any other order without a quantity, whose id rests, that is to be
filled at once and is short of liquidity, or that the check of the first maker's group stops. -/
def turnsAway (engine : MatchingEngine config) (order : NewOrder) : Bool :=
  match order.orderType with
  | .postOnly =>
    (engine.book.best order.side.opposite).any (isPriceAcceptable order.side order.price)
  | .stopLimit => order.qty == 0 || order.stopPrice.isNone
  | _ =>
    order.qty == 0 || (engine.book.lookup order.id).isSome ||
      (order.timeInForce == .fok &&
        engine.checkAvailableLiquidity order.side (effectivePrice order) < order.qty) ||
      decide (engine.StoppedAtOnce order)

/-- An engine that reports an order as accepted is not the one that rejects it. -/
theorem not_rejected_of_accepted {reason : RejectReason}
    (accepted : Extends (engine.accept order) engine') :
    engine' ≠ engine.emitRejected order.id reason := by
  rintro rfl
  obtain ⟨rest, appended⟩ := accepted
  rw [accept_bodies, emitRejected_bodies, List.append_assoc] at appended
  have heads := congrArg List.head? (List.append_cancel_left appended)
  simp at heads

/-- A taker without a group is of no maker's group. -/
theorem sameGroup_of_none {taker : Taker} {maker : Order} (none : taker.stpGroup = none) :
    sameGroup taker maker = false := by
  simp [sameGroup, none]

/-- The check of the first maker's group is one of the first maker ahead. -/
theorem stpFirstMakerMatches_eq {group : UInt32} (sound : engine.Sound queues)
    (grouped : order.stpGroup = some group) :
    engine.stpFirstMakerMatches order.side (effectivePrice order) group =
      .ok ((makersFor (takerOf order) engine).head?.any (sameGroup (takerOf order))) := by
  have refused : (∀ price, engine.book.best order.side.opposite = some price →
      isPriceAcceptable order.side (effectivePrice order) price = false) →
      makersFor (takerOf order) engine = [] := fun refused =>
    makersFor_nil fun price best => refused price best
  unfold stpFirstMakerMatches
  simp only [bestOpposing_eq, bind, Except.bind, pure, Except.pure]
  cases best : engine.book.best order.side.opposite with
  | none => simp [refused (by simp [best])]
  | some price =>
    simp only
    by_cases acceptable : isPriceAcceptable order.side (effectivePrice order) price = true
    · obtain ⟨index, maker, front⟩ := @exists_front _ (takerOf order) _ _ _ sound best acceptable
      have get : engine.arena.get index = .ok maker := Arena.get_ok.mpr front.found
      have level := front.level_ok sound.rep
      have head := front.head sound.rep
      obtain ⟨behind, ahead⟩ := front.makersFor sound.rep
      dsimp only [takerOf] at level head
      simp only [acceptable, Bool.not_true, Bool.false_eq_true, if_false, level, head, get, ahead]
      simp [sameGroup, takerOf, grouped, Bool.beq_comm]
    · simp only [acceptable, Bool.not_false, if_true]
      rw [refused fun other same => ?_]
      · rfl
      · rw [best] at same
        obtain rfl := Option.some.inj same
        exact Bool.not_eq_true _ ▸ acceptable

/-- An order without a group is not turned away at once. -/
theorem not_stoppedAtOnce (none : order.stpGroup = none) : ¬engine.StoppedAtOnce order := by
  rintro ⟨-, first⟩
  have apart : sameGroup (takerOf order) = fun _ => false :=
    funext fun maker => sameGroup_of_none none
  simp [apart] at first

/-- What the checks of an order that is matched say. -/
theorem refusal_eq (sound : engine.Sound queues) :
    engine.refusal order = .ok (
      if order.qty = 0 then some .invalidQuantity
      else if (engine.book.lookup order.id).isSome then some .duplicateOrderId
      else if order.timeInForce = .fok ∧
          engine.checkAvailableLiquidity order.side (effectivePrice order) < order.qty then
        some .insufficientLiquidity
      else if engine.StoppedAtOnce order then some .selfTradePreventionTriggered
      else none) := by
  unfold refusal
  simp only [bind, Except.bind, pure, Except.pure]
  split
  · rfl
  split
  · rfl
  split
  · rfl
  cases grouped : order.stpGroup with
  | none => rw [if_neg (not_stoppedAtOnce grouped)]
  | some group =>
    simp only [stpFirstMakerMatches_eq sound grouped, StoppedAtOnce]
    by_cases newest : config.stpMode = .cancelNewest
    · simp only [newest, if_true, true_and]
      split <;> rfl
    · simp only [newest, if_false, false_and]

/-- An order that is matched is turned away when its checks give a reason. -/
theorem turnsAway_matched (sound : engine.Sound queues) (kind : order.Matched) :
    engine.turnsAway order = match engine.refusal order with
      | .ok (some _) => true
      | _ => false := by
  unfold turnsAway
  split
  · rename_i postOnly
    exact absurd postOnly kind.1
  · rename_i stopLimit
    exact absurd stopLimit kind.2
  · rw [refusal_eq sound, Bool.eq_iff_iff]
    simp only [Bool.or_eq_true, Bool.and_eq_true, beq_iff_eq, decide_eq_true_eq]
    split_ifs <;> simp_all

/-- An order that its checks refuse is rejected. -/
theorem rejected_of_turnsAway (sound : engine.Sound queues)
    (away : engine.turnsAway order = true)
    (returned : engine.processNewOrder order = .ok engine') :
    ∃ reason, engine' = engine.emitRejected order.id reason := by
  by_cases kind : order.Matched
  · rw [turnsAway_matched sound kind] at away
    rw [processNewOrder_matched kind] at returned
    split at away
    · rename_i reason checks
      rw [checks] at returned
      exact ⟨reason, (Except.ok.inj returned).symm⟩
    · contradiction
  · unfold turnsAway at away
    unfold processNewOrder at returned
    split at away
    · rename_i postOnly
      simp only [postOnly, processPostOnly_eq, away, if_true, Except.ok.injEq] at returned
      exact ⟨_, returned.symm⟩
    · rename_i stopLimit
      simp only [stopLimit, Except.ok.injEq] at returned
      unfold processStopLimit at returned
      by_cases nothing : order.qty = 0
      · rw [if_pos nothing] at returned
        exact ⟨_, returned.symm⟩
      · have unpriced : order.stopPrice = none := by simpa [nothing] using away
        simp only [if_neg nothing, unpriced] at returned
        exact ⟨_, returned.symm⟩
    · rename_i notPostOnly notStopLimit
      exact absurd ⟨notPostOnly, notStopLimit⟩ kind

/-- An order that its checks let pass is reported as accepted first. -/
theorem accepted_of_not_turnsAway (sound : engine.Sound queues)
    (passes : engine.turnsAway order = false)
    (returned : engine.processNewOrder order = .ok engine') :
    Extends (engine.accept order) engine' := by
  by_cases kind : order.Matched
  · rw [turnsAway_matched sound kind] at passes
    rw [processNewOrder_matched kind] at returned
    cases checks : engine.refusal order with
    | error fault =>
      rw [checks] at returned
      contradiction
    | ok found =>
      cases found with
      | some reason =>
        rw [checks] at passes
        contradiction
      | none =>
        simp only [checks, bind, Except.bind] at returned
        cases swept : (engine.accept order).matchAgainstBook (takerOf order) order.qty with
        | error fault =>
          simp only [swept] at returned
          contradiction
        | ok result =>
          simp only [swept] at returned
          obtain ⟨queues', sound'⟩ := matchAgainstBook_sound (sound.accept order) swept
          obtain ⟨further, -⟩ := swept_emitted (fun _ => True) (sound.accept order)
            (fun _ _ _ _ _ _ => trivial) swept
          obtain ⟨tail, bodies, -⟩ := (settleRemainder_cases sound' kind returned).bodies_eq
          exact further.trans ⟨tail, bodies.symm⟩
  · unfold turnsAway at passes
    unfold processNewOrder at returned
    split at passes
    · rename_i postOnly
      simp only [postOnly, processPostOnly_eq, passes, Bool.false_eq_true, if_false] at returned
      obtain ⟨rested, returned', rests⟩ :=
        restOrder_cases (sound.accept order).rep order order.qty
      rw [returned'] at returned
      obtain rfl := Except.ok.inj returned
      exact ⟨_, rests.bodies_eq.symm⟩
    · rename_i stopLimit
      simp only [stopLimit, Except.ok.injEq] at returned
      rw [Bool.or_eq_false_iff, beq_eq_false_iff_ne] at passes
      unfold processStopLimit at returned
      cases given : order.stopPrice with
      | none => simp [given] at passes
      | some stopPx =>
        simp only [if_neg passes.1, given] at returned
        split at returned <;> (subst returned; exact List.prefix_rfl)
    · rename_i notPostOnly notStopLimit
      exact absurd ⟨notPostOnly, notStopLimit⟩ kind

/-! ## Where ids live along a call -/

/-- Nothing rests under an id that the book does not know. -/
theorem restingOrder_none (unused : engine.book.lookup id = none) :
    engine.restingOrder id = none := by
  rw [restingOrder, MatchX.restingOrder, unused, Option.bind_none]

/-- The ids of the pending stops before and after the first one of a queue is taken. -/
theorem Popped.pendingIds {site : MatchingEngine config}
    (popped : Popped engine side stopPx entry site) :
    engine.pendingIds.Perm (entry.id :: site.pendingIds) := by
  have first := popped.first
  have other := popped.other
  cases side with
  | bid =>
    change engine.stopBids = _ :: site.stopBids at first
    change site.stopAsks = engine.stopAsks at other
    simp [MatchingEngine.pendingIds, first, other]
  | ask =>
    change engine.stopAsks = _ :: site.stopAsks at first
    change site.stopBids = engine.stopBids at other
    simp only [MatchingEngine.pendingIds, first, other, List.map_append, List.map_cons]
    exact List.perm_middle

/-- The ids of the pending stops once a stop order is parked. -/
theorem parked_pendingIds (stopped : engine.processStopLimit order = engine')
    (bodies : engine'.bodies = (engine.accept order).bodies) :
    engine'.pendingIds.Perm (order.id :: engine.pendingIds) := by
  obtain ⟨-, stopPx, -, stands⟩ := processStopLimit_stops stopped bodies
  have inserted : ∀ {queue : List (UInt64 × StopEntry)} {side},
      ((insertStop queue (reachedBefore side · stopPx) stopPx (stopEntry order)).map
        fun pending => pending.2.id).Perm (order.id :: queue.map fun pending => pending.2.id) :=
    fun {queue side} => by
      rw [insertStop_eq]
      exact ((List.perm_orderedInsert _ _ queue).map _)
  have bids := stands .bid
  have asks := stands .ask
  change engine'.stopBids = _ at bids
  change engine'.stopAsks = _ at asks
  unfold MatchingEngine.pendingIds
  rw [bids, asks, List.map_append, List.map_append]
  cases order.side with
  | bid =>
    simp only [if_true, reduceCtorEq, if_false]
    exact inserted.append_right _
  | ask =>
    simp only [if_true, reduceCtorEq, if_false]
    exact (inserted.append_left _).trans List.perm_middle

/-- An id under which an order rests once another is handled had one before, or is the other's. -/
theorem Handled.resting (sound : engine.Sound queues)
    (handled : Handled engine queues order engine') (rests : engine'.restingOrder id ≠ none) :
    engine.restingOrder id ≠ none ∨ id = order.id := by
  obtain ⟨queues', sound'⟩ := handled.sound sound
  obtain ⟨stored, held⟩ := Option.ne_none_iff_exists'.mp rests
  obtain ⟨i, resting, rfl⟩ := sound'.rep.restingOrder_iff.mp held
  rcases handled.origin sound resting with ⟨before, delta, resting', -, rfl⟩ | ⟨qty, rfl, -⟩
  · left
    have held' := sound.rep.restingOrder_iff.mpr ⟨i, resting', rfl⟩
    rw [restingOrder]
    intro none
    rw [show (before.fill delta).id = before.id from rfl, held'] at none
    contradiction
  · exact .inr rfl

/-- The ids that are live once an order is handled were live before, or are that of the order. -/
theorem Handled.live (sound : engine.Sound queues)
    (handled : Handled engine queues order engine') (live : engine'.Live id) :
    engine.Live id ∨ id = order.id := by
  rcases live with rests | waits
  · exact (handled.resting sound rests).imp_left .inl
  · by_cases kind : order.orderType = .stopLimit
    · cases handled with
      | rejected => exact .inl (.inr waits)
      | parked _ stopped _ _ bodies =>
        rcases List.mem_cons.mp ((parked_pendingIds stopped bodies).mem_iff.mp waits) with
          same | old
        · exact .inr same
        · exact .inl (.inr old)
      | posted other => simp [kind] at other
      | matched other => exact absurd kind other.2
    · obtain ⟨bids, asks⟩ := handled.stops_eq sound kind
      left
      right
      rwa [MatchingEngine.pendingIds, bids, asks] at waits

/-- What the book and the stops say of ids holds of the engine. -/
theorem Sound.idsUnique (sound : engine.Sound queues) (stops : engine.pendingIds.Nodup)
    (apart : ∀ id ∈ engine.pendingIds, engine.restingOrder id = none) : engine.IdsUnique where
  book _ _ _ _ found found' same := sound.rep.slot_unique (Arena.resting_of_find found)
    (Arena.resting_of_find found') same
  stops := stops
  apart := apart

/-- Handling an order whose id is not live keeps every id in one place. -/
theorem Handled.idsUnique (sound : engine.Sound queues) (unique : engine.IdsUnique)
    (handled : Handled engine queues order engine') (fresh : ¬engine.Live order.id) :
    engine'.IdsUnique := by
  obtain ⟨queues', sound'⟩ := handled.sound sound
  have still : ∀ id ∈ engine.pendingIds, engine'.restingOrder id = none := fun id member => by
    by_contra rests
    rcases handled.resting sound rests with before | rfl
    · exact before (unique.apart id member)
    · exact fresh (.inr member)
  by_cases kind : order.orderType = .stopLimit
  · cases handled with
    | rejected => exact sound'.idsUnique unique.stops unique.apart
    | parked _ stopped book arena bodies =>
      have ids := parked_pendingIds stopped bodies
      refine sound'.idsUnique ?_ fun id member => ?_
      · rw [ids.nodup_iff]
        exact List.nodup_cons.mpr ⟨fun member => fresh (.inr member), unique.stops⟩
      · rcases List.mem_cons.mp (ids.mem_iff.mp member) with rfl | old
        · by_contra rests
          rw [restingOrder, book, arena] at rests
          exact fresh (.inl rests)
        · exact still id old
    | posted other => simp [kind] at other
    | matched other => exact absurd kind other.2
  · obtain ⟨bids, asks⟩ := handled.stops_eq sound kind
    have same : engine'.pendingIds = engine.pendingIds := by
      rw [MatchingEngine.pendingIds, bids, asks, MatchingEngine.pendingIds]
    exact sound'.idsUnique (same ▸ unique.stops) (same ▸ still)

/-- Removing an order keeps every id in one place, and leaves that of the order in none. -/
theorem IdsUnique.removed {state state' : MatchingEngine config} {index : ArenaIndex}
    {maker : Order} (unique : state.IdsUnique) (sound : state.Sound queues)
    (sound' : ∃ queues', state'.Sound queues')
    (removed : Removed state.book state.arena queues maker.unlinked index state'.book state'.arena)
    (pending : state'.pendingIds = state.pendingIds) :
    state'.IdsUnique ∧ ¬state'.Live maker.id := by
  obtain ⟨queues', sound'⟩ := sound'
  have resting : ∀ id, state'.restingOrder id =
      if id = maker.unlinked.id then none else state.restingOrder id := fun _ =>
    removed.restingOrder sound.rep
  have apart : ∀ id ∈ state.pendingIds, state'.restingOrder id = none := fun id member => by
    rw [resting, unique.apart id member]
    split <;> rfl
  refine ⟨sound'.idsUnique (pending ▸ unique.stops) (pending ▸ apart), ?_⟩
  rintro (rests | waits)
  · exact rests ((resting maker.id).trans (if_pos rfl))
  · rw [pending] at waits
    have held := sound.rep.restingOrder_iff.mpr ⟨index, removed.found, rfl⟩
    have none := unique.apart maker.id waits
    rw [restingOrder, ← Order.unlinked_id, held] at none
    contradiction

/-- Taking the first stop of a queue keeps every id in one place, and leaves that of the stop in
none. -/
theorem Popped.idsUnique {site : MatchingEngine config} (unique : engine.IdsUnique)
    (sound' : ∃ queues', site.Sound queues')
    (popped : Popped engine side stopPx entry site) :
    site.IdsUnique ∧ ¬site.Live entry.id := by
  obtain ⟨queues', sound'⟩ := sound'
  have ids := popped.pendingIds
  have resting : ∀ id, site.restingOrder id = engine.restingOrder id := fun id => by
    rw [restingOrder, restingOrder, popped.book, popped.arena]
  obtain ⟨alone, nodup⟩ := List.nodup_cons.mp (ids.nodup_iff.mp unique.stops)
  refine ⟨sound'.idsUnique nodup fun id member => ?_, ?_⟩
  · rw [resting]
    exact unique.apart id (ids.mem_iff.mpr (List.mem_cons_of_mem _ member))
  · rintro (rests | waits)
    · rw [resting] at rests
      exact rests (unique.apart _ (ids.mem_iff.mpr List.mem_cons_self))
    · exact alone waits

/-! ## Runs -/

/-- A new order whose id is live is refused by its checks. -/
def RefusesReused (engine : MatchingEngine config) (command : Command) : Prop :=
  ∀ instrumentId order, command = .newOrder instrumentId order → engine.Live order.id →
    engine.turnsAway order = true

/-- A call that refuses to reuse a live id keeps every id in one place. -/
theorem idsUnique_carried (refuses : RefusesReused engine command) :
    Carries engine command (fun state => (∃ queues, state.Sound queues) ∧ state.IdsUnique)
      fun site order => ((∃ queues, site.Sound queues) ∧ site.IdsUnique) ∧
        (site.Live order.id → site.turnsAway order = true) where
  cancels id after asked := by
    rintro ⟨⟨queues, sound⟩, unique⟩ returned
    have sound' := (sound_kept engine command).cancels id after asked ⟨queues, sound⟩ returned
    refine ⟨sound', ?_⟩
    cases processCancel_cases sound returned with
    | missing => exact unique.congr rfl rfl rfl rfl
    | removed _ _ _ removed => exact (unique.removed sound sound' removed rfl).1
  misses id _ _ _ := by
    rintro ⟨⟨queues, sound⟩, unique⟩
    exact ⟨⟨queues, sound.congr rfl rfl⟩, unique.congr rfl rfl rfl rfl⟩
  direct instrumentId order asked begins :=
    ⟨begins, fun live => refuses instrumentId order asked live⟩
  withdraws id newPrice newQty index site order asked := by
    rintro ⟨⟨queues, sound⟩, unique⟩ held withdrawn
    have sound' := (sound_kept engine command).withdraws id newPrice newQty index site order asked
      ⟨queues, sound⟩ held withdrawn
    obtain ⟨stored, found, named⟩ := sound.held held
    cases withdraw_cases sound held withdrawn with
    | removed found' removed =>
      obtain rfl := Option.some.inj (found.symm.trans found')
      have both := unique.removed sound sound' removed rfl
      refine ⟨⟨sound', both.1⟩, fun live => absurd ?_ both.2⟩
      rw [named]
      exact live
  fires start before site order _ fired := by
    rintro ⟨⟨queues, sound⟩, unique⟩
    obtain ⟨side, stopPx, entry, rfl, popped⟩ := fired.popped
    have sound' : ∃ queues, site.Sound queues :=
      ⟨queues, sound.congr popped.book popped.arena⟩
    have both := popped.idsUnique unique sound'
    exact ⟨⟨sound', both.1⟩, fun live => absurd live both.2⟩
  handles site order after _ := by
    rintro ⟨⟨⟨queues, sound⟩, unique⟩, away⟩ returned
    have handled := processNewOrder_cases sound returned
    refine ⟨handled.sound sound, ?_⟩
    by_cases live : site.Live order.id
    · obtain ⟨reason, rfl⟩ := rejected_of_turnsAway sound (away live) returned
      exact unique.congr rfl rfl rfl rfl
    · exact handled.idsUnique sound unique live

/-- The ids of an engine whose run refused to reuse live ids are in one place each. -/
theorem Reaches.idsUnique (reached : Reaches config RefusesReused engine) :
    (∃ queues, engine.Sound queues) ∧ engine.IdsUnique := by
  refine Reached.invariant ?_ ?_ reached
  · rintro engine ⟨capacity, rfl⟩
    have sound := sound_new config capacity
    refine ⟨⟨_, sound⟩, sound.idsUnique List.nodup_nil fun id member => ?_⟩
    exact absurd member List.not_mem_nil
  · rintro engine command following ⟨⟨queues, sound⟩, unique⟩ refuses completed
    exact (idsUnique_carried refuses).returns
      ⟨⟨queues, sound.congr rfl rfl⟩, unique.congr rfl rfl rfl rfl⟩ completed

/-- A call turned a new order away: it rejected the order and did not accept it, and the book,
the orders in it and the pending stops are as they were. -/
structure TurnedAway (engine : MatchingEngine config) (order : NewOrder)
    (after : MatchingEngine config) : Prop where
  /-- The order is rejected. -/
  rejected : ∃ reason, .orderRejected order.id reason ∈ after.bodies
  /-- It is not accepted. -/
  unaccepted : ∀ side price qty orderType,
    .orderAccepted order.id side price qty orderType ∉ after.bodies
  /-- The book is kept. -/
  book : after.book = engine.book
  /-- The orders are kept. -/
  arena : after.arena = engine.arena
  /-- The pending stops are kept. -/
  stops : after.stopBids = engine.stopBids ∧ after.stopAsks = engine.stopAsks

/-- A new order is turned away exactly when its checks refuse it. -/
theorem turnedAway_iff {instrumentId : UInt32} (reachable : Reachable engine)
    (completed : engine.process (.newOrder instrumentId order) = .ok engine') :
    TurnedAway engine order engine' ↔ engine.turnsAway order = true := by
  obtain ⟨⟨⟨queues, sound⟩, -⟩, quiet⟩ := reachable.stops
  have clear : engine.clearEvents.Sound queues := sound.congr rfl rfl
  have same : engine.clearEvents.turnsAway order = engine.turnsAway order := rfl
  obtain ⟨start, dispatched, drains, -⟩ := process_drained completed
  cases away : engine.turnsAway order with
  | true =>
    refine iff_of_true ?_ rfl
    obtain ⟨reason, rfl⟩ := rejected_of_turnsAway clear (same.trans away) dispatched
    have still : (engine.clearEvents.emitRejected order.id reason).Quiet := quiet
    rw [still.drain] at drains
    obtain rfl := Except.ok.inj drains
    exact ⟨⟨reason, by simp⟩, by simp, rfl, rfl, rfl, rfl⟩
  | false =>
    refine iff_of_false (fun turned => ?_) (by simp)
    have accepted := accepted_of_not_turnsAway clear (same.trans away) dispatched
    obtain ⟨queues', sound'⟩ := (processNewOrder_cases clear dispatched).sound clear
    have further := accepted.trans (drain_extends sound' drains)
    refine turned.unaccepted order.side order.price order.qty order.orderType (further.subset ?_)
    simp

/-- In every reachable engine a new order whose id is live is turned away exactly when its checks
refuse it; and no id is live in two places after a run in which they always do. -/
theorem ids_unique_unless_reused (config : InstrumentConfig) :
    (∀ engine : MatchingEngine config, Reachable engine →
      ∀ instrumentId order after, engine.Live order.id →
        engine.process (.newOrder instrumentId order) = .ok after →
        (TurnedAway engine order after ↔ engine.turnsAway order = true)) ∧
    ∀ engine : MatchingEngine config, Reaches config RefusesReused engine → engine.IdsUnique :=
  ⟨fun _ reachable _ _ _ _ completed => turnedAway_iff reachable completed,
    fun _ reached => reached.idsUnique.2⟩

/-- Whether a new order has an id that is not live or is refused by its checks. -/
def refusesReused (engine : MatchingEngine config) : Command → Bool
  | .newOrder _ order =>
    engine.turnsAway order ||
      ((engine.restingOrder order.id).isNone && !engine.pendingIds.contains order.id)
  | _ => true

/-- Then it refuses to reuse a live id. -/
theorem refusesReused_sound (engine : MatchingEngine config) (command : Command)
    (passes : engine.refusesReused command = true) : RefusesReused engine command := by
  rintro instrumentId order rfl live
  rw [refusesReused, Bool.or_eq_true, Bool.and_eq_true, Option.isNone_iff_eq_none,
    Bool.not_eq_true', List.contains_eq_mem, decide_eq_false_iff_not] at passes
  exact passes.resolve_right fun fresh => live.elim (fun rests => rests fresh.1) fresh.2

/-- After an order whose id rests was refused, every id is in one place, and another such order
is turned away. -/
theorem ids_unique_after_refused_reuse :
    ∃ engine after : MatchingEngine (smallConfig .cancelNewest), engine.IdsUnique ∧
      TurnedAway engine (.gtc 1 .bid 3 5) after := by
  obtain ⟨engine, reached, shown⟩ := Reaches.exists_run RefusesReused refusesReused
    (fun engine : MatchingEngine (smallConfig .cancelNewest) =>
      (engine.restingOrder 1).isSome && engine.turnsAway (.gtc 1 .bid 3 5) &&
        (engine.process (.submit (.gtc 1 .bid 3 5))).toOption.isSome)
    refusesReused_sound 8 [.submit (.gtc 1 .ask 2 10), .submit (.gtc 1 .ask 3 5)]
    (by decide +kernel)
  rw [Bool.and_eq_true, Bool.and_eq_true] at shown
  obtain ⟨⟨rests, away⟩, completes⟩ := shown
  obtain ⟨after, completed⟩ := Option.isSome_iff_exists.mp completes
  have both := ids_unique_unless_reused (smallConfig .cancelNewest)
  have live : engine.Live 1 := .inl (Option.isSome_iff_ne_none.mp rests)
  exact ⟨engine, after, both.2 engine reached, (both.1 engine
    (reached.mono fun _ _ _ => trivial) 1 (.gtc 1 .bid 3 5) after live
    (ok_of_toOption completed)).mpr away⟩

/-- Two stops of one id are both pending. -/
theorem ids_shared_by_stops :
    ¬∀ engine : MatchingEngine (smallConfig .cancelNewest), Reachable engine →
      engine.IdsUnique := by
  intro always
  obtain ⟨engine, reachable, shown⟩ := Reachable.exists_run
    (fun engine : MatchingEngine (smallConfig .cancelNewest) => engine.pendingIds == [7, 7]) 8
    [.submit { NewOrder.gtc 7 .bid 3 5 with orderType := .stopLimit, stopPrice := some 3 },
      .submit { NewOrder.gtc 7 .bid 3 5 with orderType := .stopLimit, stopPrice := some 3 }]
    (by decide +kernel)
  have stops := (always engine reachable).stops
  rw [beq_iff_eq.mp shown] at stops
  exact absurd stops (by decide)

end MatchingEngine

end MatchX
