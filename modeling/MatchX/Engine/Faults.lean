import MatchX.Book.Liquidity
import MatchX.Engine.Calls

/-!
# How a call fails

A call that fails has removed an order that cannot be removed, or has failed while it handled an
order that it submits; handling an order fails in its checks or in an iteration of its sweep.
-/

namespace MatchX

open MatchX.Support

namespace MatchingEngine

variable {config : InstrumentConfig} {engine : MatchingEngine config} {queues : Queues}
  {command : Command} {order : NewOrder} {fault : Fault}

/-- An inner loop of the drain that fails has run out of iterations, or has failed while it
handled the order of a stop. -/
theorem fireStops_error {fuel : Nat} {pass : MatchingEngine config}
    {trigger : MatchingEngine config → Option (MatchingEngine config × NewOrder)}
    (failed : loop .exhausted (fireStop trigger) fuel pass = .error fault) :
    fault = .exhausted ∨ ∃ before site order, Visits (fireStop trigger) pass before ∧
      trigger before = some (site, order) ∧ site.processNewOrder order = .error fault := by
  obtain spent | ⟨before, visits, stops⟩ := loop_error failed
  · exact .inl spent
  · unfold fireStop at stops
    split at stops
    · contradiction
    · rename_i site order triggered
      obtain handling | ⟨after, -, impossible⟩ := bind_error stops
      · exact .inr ⟨before, site, order, visits, triggered, handling⟩
      · contradiction

/-- A drain that fails has run out of iterations, or has failed while it handled the order of a
stop. -/
theorem drain_error {start : MatchingEngine config}
    (failed : start.drainStopTriggers = .error fault) :
    fault = .exhausted ∨ ∃ before site order, Fires start before site order ∧
      site.processNewOrder order = .error fault := by
  obtain spent | ⟨pass, passes, stops⟩ := loop_error failed
  · exact .inl spent
  · cases traded : pass.lastTradePrice with
    | none =>
      unfold drainPass at stops
      rw [traded] at stops
      contradiction
    | some lastPrice =>
      unfold drainPass at stops
      rw [traded] at stops
      obtain buying | ⟨bought, buys, further⟩ := bind_error stops
      · obtain spent | ⟨before, site, order, visits, triggered, handling⟩ := fireStops_error buying
        · exact .inl spent
        · exact .inr ⟨before, site, order, .buy passes traded visits triggered, handling⟩
      · obtain selling | ⟨sold, sells, leaves⟩ := bind_error further
        · obtain spent | ⟨before, site, order, visits, triggered, handling⟩ :=
            fireStops_error selling
          · exact .inl spent
          · exact .inr ⟨before, site, order, .sell passes traded buys visits triggered, handling⟩
        · split at leaves <;> contradiction

/-- A call that fails has run out of iterations, has failed to remove the order that it cancels
or modifies, or has failed while it handled an order that it submits. -/
theorem processUnbounded_error (sound : engine.Sound queues)
    (failed : engine.processUnbounded command = .error fault) :
    fault = .exhausted ∨
      (∃ id index, engine.clearEvents.book.lookup id = some index ∧
        (command = .cancelOrder id ∨ ∃ newPrice newQty, command = .modifyOrder id newPrice newQty) ∧
        engine.clearEvents.removeMaker index = .error fault) ∨
      ∃ site order, Submits engine command site order ∧
        site.processNewOrder order = .error fault := by
  have clear : engine.clearEvents.Sound queues := sound.congr rfl rfl
  obtain dispatching | ⟨start, dispatched, draining⟩ := bind_error failed
  · right
    cases command with
    | newOrder instrumentId order => exact .inr ⟨_, order, .direct rfl, dispatching⟩
    | cancelOrder id =>
      have cancelling : engine.clearEvents.processCancel id = .error fault := dispatching
      unfold processCancel at cancelling
      split at cancelling
      · rename_i index held
        obtain ⟨order, found, -⟩ := clear.held held
        obtain reading | ⟨stored, -, further⟩ := bind_error cancelling
        · rw [Arena.get_ok.mpr found] at reading
          contradiction
        · obtain removing | ⟨removed, -, impossible⟩ := bind_error further
          · exact .inl ⟨id, index, held, .inl rfl, removing⟩
          · contradiction
      · contradiction
    | modifyOrder id newPrice newQty =>
      have modifying : engine.clearEvents.processModify id newPrice newQty = .error fault :=
        dispatching
      unfold processModify at modifying
      split at modifying
      · rename_i index held
        obtain withdrawing | ⟨⟨site, order⟩, withdrawn, handling⟩ := bind_error modifying
        · obtain ⟨order, found, -⟩ := clear.held held
          obtain reading | ⟨stored, -, further⟩ := bind_error withdrawing
          · rw [Arena.get_ok.mpr found] at reading
            contradiction
          · obtain removing | ⟨removed, -, impossible⟩ := bind_error further
            · exact .inl ⟨id, index, held, .inr ⟨newPrice, newQty, rfl⟩, removing⟩
            · contradiction
        · exact .inr ⟨site, order, .replaced rfl held withdrawn, handling⟩
      · contradiction
  · obtain spent | ⟨before, site, order, fired, handling⟩ := drain_error draining
    · exact .inl spent
    · exact .inr (.inr ⟨site, order, .triggered dispatched fired, handling⟩)

/-- The checks of an order never fail. -/
theorem refusal_ok (sound : engine.Sound queues) : ∃ reason, engine.refusal order = .ok reason := by
  have first : ∀ group, ∃ matched,
      engine.stpFirstMakerMatches order.side (effectivePrice order) group = .ok matched := by
    intro group
    unfold stpFirstMakerMatches
    rw [bestOpposing_eq]
    cases best : engine.book.best order.side.opposite with
    | none => exact ⟨_, rfl⟩
    | some price =>
      dsimp only
      split
      · exact ⟨_, rfl⟩
      · rename_i refused
        have acceptable : isPriceAcceptable order.side (effectivePrice order) price = true := by
          simpa using refused
        obtain ⟨index, maker, front⟩ := @exists_front _ (takerOf order) _ _ _ sound best acceptable
        have level := front.level_ok sound.rep
        have head := front.head sound.rep
        dsimp only [takerOf] at level head
        simp only [level, bind, Except.bind, head, Arena.get_ok.mpr front.found]
        exact ⟨_, rfl⟩
  unfold refusal
  dsimp only
  split
  · exact ⟨_, rfl⟩
  split
  · exact ⟨_, rfl⟩
  split
  · exact ⟨_, rfl⟩
  split
  · rename_i group _
    split
    · obtain ⟨matched, checks⟩ := first group
      rw [checks]
      cases matched
      · exact ⟨_, rfl⟩
      · exact ⟨_, rfl⟩
    · exact ⟨_, rfl⟩
  · exact ⟨_, rfl⟩

/-- Settling a remainder never fails. -/
theorem settleRemainder_ok {result : SweepResult config} (sound : result.engine.Sound queues) :
    ∃ after, settleRemainder result order = .ok after := by
  obtain ⟨rested, returned, -⟩ := restOrder_cases sound.rep order result.remaining
  unfold settleRemainder
  split
  · exact ⟨_, rfl⟩
  split
  · exact ⟨_, rfl⟩
  split
  · exact ⟨_, returned⟩
  · exact ⟨_, returned⟩
  all_goals exact ⟨_, rfl⟩

/-- Handling an order fails only where its sweep runs out of iterations or one of them fails. -/
theorem processNewOrder_error (sound : engine.Sound queues)
    (failed : engine.processNewOrder order = .error fault) :
    fault = .exhausted ∨ order.Matched ∧ engine.refusal order = .ok none ∧ ∃ sweep,
      Visits (matchStep (takerOf order)) ⟨engine.accept order, order.qty⟩ sweep ∧
      matchStep (takerOf order) sweep = .error fault := by
  by_cases kind : order.Matched
  · rw [processNewOrder_matched kind] at failed
    obtain checking | ⟨reason, checks, further⟩ := bind_error failed
    · obtain ⟨reason, checks⟩ := @refusal_ok _ engine queues order sound
      rw [checks] at checking
      contradiction
    cases reason with
    | some reason => contradiction
    | none =>
      obtain sweeping | ⟨result, swept, settling⟩ := bind_error further
      · obtain spent | ⟨sweep, visits, stops⟩ := loop_error sweeping
        · exact .inl spent
        · exact .inr ⟨kind, checks, sweep, visits, stops⟩
      · obtain ⟨queues', sound'⟩ := matchAgainstBook_sound (sound.accept order) swept
        obtain ⟨after, settled⟩ := @settleRemainder_ok _ _ order result sound'
        rw [settled] at settling
        contradiction
  · unfold processNewOrder at failed
    split at failed
    · rw [processPostOnly_eq] at failed
      obtain ⟨rested, returned, -⟩ := restOrder_cases (sound.accept order).rep order order.qty
      split at failed
      · contradiction
      · rw [returned] at failed
        contradiction
    · contradiction
    · rename_i notPostOnly notStopLimit
      exact absurd ⟨notPostOnly, notStopLimit⟩ kind

/-! ## Where an iteration fails -/

/-- Lowering the depth fails outside the window only, in the sparse volume index. -/
theorem depthRemove_error {ticks : UInt32} {book : OrderBook ticks} {side : Side}
    {price qty : UInt64} (failed : book.depthRemove side price qty = .error fault) :
    book.denseIndex price = none ∧ (book.depth side).2.sub price qty = .error fault := by
  unfold OrderBook.depthRemove at failed
  dsimp only at failed
  split at failed
  · cases failed
  · rename_i outside
    refine ⟨outside, ?_⟩
    split at failed
    · rename_i other failing
      obtain rfl := Except.error.inj failed
      exact failing
    · cases failed

/-- Removing an order that rests fails outside the window only, in the sparse volume index. -/
theorem removeOrder_error {ticks : UInt32} {book : OrderBook ticks} {arena : Arena}
    {index : ArenaIndex} {resting : Order} (rep : Represents book arena queues)
    (found : arena.find index = some resting)
    (failed : book.removeOrder arena index = .error fault) :
    book.denseIndex resting.price = none ∧
      (book.depth resting.side).2.sub resting.price resting.remaining = .error fault := by
  obtain ⟨arena', -, -, -, removed⟩ := rep.removeOrder_eq found
  rw [removed] at failed
  cases lowered : OrderBook.depthRemove _ resting.side resting.price resting.remaining with
  | error other =>
    rw [lowered] at failed
    obtain rfl := Except.error.inj failed
    have fails := depthRemove_error lowered
    rwa [OrderBook.denseIndex_setLevel, OrderBook.depth_setLevel] at fails
  | ok book =>
    rw [lowered] at failed
    cases failed

/-- Removing a maker that rests fails outside the window only, in the sparse volume index. -/
theorem removeMaker_error {index : ArenaIndex} {maker : Order}
    (rep : Represents engine.book engine.arena queues)
    (found : engine.arena.find index = some maker)
    (failed : engine.removeMaker index = .error fault) :
    engine.book.denseIndex maker.price = none ∧
      (engine.book.depth maker.side).2.sub maker.price maker.remaining = .error fault := by
  unfold removeMaker at failed
  cases removed : engine.book.removeOrder engine.arena index with
  | error other =>
    rw [removed] at failed
    obtain rfl := Except.error.inj failed
    exact removeOrder_error rep found removed
  | ok result =>
    rw [removed] at failed
    cases failed

/-- The removal of a maker of which nothing remains fails: it leaves its level outside the window,
and the sparse volume index fails to take nothing from its price. -/
structure LeavingFails (taker : Taker) (sweep : Sweep config) (price : UInt64) (maker : Order)
    (fault : Fault) : Prop where
  /-- All that remains of the maker is filled. -/
  whole : min sweep.remaining maker.matchableQty = maker.remaining
  /-- The price is outside the window. -/
  outside : sweep.engine.book.denseIndex price = none
  /-- Taking nothing fails. -/
  fails : (sweep.engine.book.depth taker.side.opposite).2.sub price 0 = .error fault

/-- Filling the maker in front fails when the maker leaves. -/
theorem fillMaker_error {taker : Taker} {sweep : Sweep config} {price : UInt64}
    {index : ArenaIndex} {maker : Order} (sound : sweep.engine.Sound queues)
    (front : Front taker sweep.engine queues price index maker)
    (failed : fillMaker taker sweep price index maker = .error fault) :
    LeavingFails taker sweep price maker fault := by
  have bound : min sweep.remaining maker.matchableQty ≤ maker.remaining :=
    UInt64.le_trans Std.min_le_right Order.matchableQty_le
  obtain ⟨arena, write, seen, head, keeps⟩ := Arena.modify_ok (fun order => { order with
    filled := order.filled + min sweep.remaining maker.matchableQty }) front.found
  have still : arena.find index = some (maker.fill (min sweep.remaining maker.matchableQty)) := by
    rw [seen, if_pos rfl]
    rfl
  have taken := sound.rep.take front.found bound (keeps sound.rep.slots) seen head
  have less := (Order.fill_sound (front.sound sound.rep) bound).2
  rw [front.onSide, front.atPrice] at taken
  unfold fillMaker at failed
  simp only [write, Arena.get_ok.mpr still, bind, Except.bind, pure, Except.pure] at failed
  split at failed
  · rename_i leaves
    obtain removal | ⟨left, -, returned⟩ := bind_error failed
    · obtain ⟨outside, fails⟩ := removeMaker_error taken.represents still removal
      rw [leaves] at fails
      simp only [Order.fill_side, Order.fill_price, front.onSide, front.atPrice] at outside fails
      rw [less] at leaves
      exact ⟨(sub_eq_zero_of_le bound).mp leaves, by simpa using outside, by simpa using fails⟩
    · cases returned
  · cases failed

/-- An iteration that meets no maker of the taker's group fails when the maker in front leaves. -/
theorem matchStep_error {taker : Taker} {sweep : Sweep config} (sound : sweep.engine.Sound queues)
    (apart : ∀ price index maker, Front taker sweep.engine queues price index maker →
      sameGroup taker maker = false)
    (failed : matchStep taker sweep = .error fault) :
    ∃ price index maker, Front taker sweep.engine queues price index maker ∧
      LeavingFails taker sweep price maker fault := by
  unfold matchStep at failed
  by_cases nothing : sweep.remaining = 0
  · rw [if_pos nothing] at failed
    cases failed
  simp only [if_neg nothing, bestOpposing_eq, bind, Except.bind, pure, Except.pure] at failed
  cases best : sweep.engine.book.best taker.side.opposite with
  | none =>
    rw [best] at failed
    cases failed
  | some price =>
    rw [best] at failed
    by_cases acceptable : isPriceAcceptable taker.side taker.price price = true
    · obtain ⟨index, maker, front⟩ := exists_front sound best acceptable
      have get : sweep.engine.arena.get index = .ok maker := Arena.get_ok.mpr front.found
      have other := apart price index maker front
      simp only [acceptable, Bool.not_true, Bool.false_eq_true, if_false, front.level_ok sound.rep,
        front.head sound.rep, get, other] at failed
      refine ⟨price, index, maker, front, ?_⟩
      split at failed
      · -- The maker is stale, and its removal fails.
        rename_i stale
        split at failed
        · rename_i removal
          obtain rfl := Except.error.inj failed
          obtain ⟨outside, fails⟩ := removeMaker_error sound.rep front.found removal
          rw [front.atPrice] at outside
          rw [stale, front.atPrice, front.onSide] at fails
          have none : maker.matchableQty = 0 :=
            UInt64.le_zero_iff.mp (stale ▸ maker.matchableQty_le)
          refine ⟨?_, outside, fails⟩
          rw [stale, none, min_of_le UInt64.zero_le]
        · cases failed
      · split at failed
        · rename_i filling
          obtain rfl := Except.error.inj failed
          exact fillMaker_error sound front filling
        · cases failed
    · simp only [acceptable, Bool.not_false, if_true] at failed
      cases failed

end MatchingEngine

end MatchX
