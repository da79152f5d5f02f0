import MatchX.Engine.Splitting

/-!
# Moving a limit outward

A taker with a limit trades as a taker with a limit further in and, with what that one leaves of its
quantity, a second one with the limit further out. The iterations of the first taker are those of
the one, as long as a maker is within its limit; where it ends, the second goes on.
-/

namespace MatchX.MatchingEngine

open MatchX.Support

variable {config : InstrumentConfig} {side : Side} {price near far restingPrice : UInt64}
  {tally after : Tally config} {index : ArenaIndex} {maker : Order} {engine : MatchingEngine config}

/-! ## One iteration -/

/-- A limit accepts every price that a limit further in accepts. -/
theorem accepts_outward (outward : isPriceAcceptable side far near = true)
    (accepted : isPriceAcceptable side near price = true) :
    isPriceAcceptable side far price = true := by
  cases side with
  | bid =>
    have first := of_decide_eq_true accepted
    have second := of_decide_eq_true outward
    exact decide_eq_true (UInt64.le_trans first second)
  | ask =>
    have first := of_decide_eq_true accepted
    have second := of_decide_eq_true outward
    exact decide_eq_true (UInt64.le_trans second first)

/-- The maker in front is the same within a limit and within one further out, unless the first has
none. -/
theorem front_outward (outward : isPriceAcceptable side far near = true) :
    tally.front side near = .ok none ∨ tally.front side far = tally.front side near := by
  unfold Tally.front
  cases best : tally.book.best side.opposite with
  | none => exact .inl rfl
  | some top =>
    cases accepted : isPriceAcceptable side near top with
    | false =>
      left
      simp only [accepted, Bool.not_false, if_true]
      rfl
    | true =>
      right
      simp only [accepted, accepts_outward outward accepted]

/-- An iteration ends the loop or is that of a limit further out. -/
theorem tallyStep_outward (outward : isPriceAcceptable side far near = true) :
    tallyStep side near tally = .ok (.done tally) ∨
      tallyStep side far tally = tallyStep side near tally := by
  by_cases left : tally.remaining = 0
  · exact .inl (tallyStep_filled left)
  · rcases @front_outward _ _ _ _ tally outward with none | same
    · exact .inl (tallyStep_none left none)
    · right
      unfold tallyStep
      rw [same]

/-- What an iteration that does not fail does: it ends the loop, removes a maker or fills one. -/
theorem tallyStep_ok {flow : Flow (Tally config) (Tally config)}
    (step : tallyStep side price tally = .ok flow) : flow = .done tally ∨
      ∃ after, flow = .next after ∧ ∃ restingPrice index maker,
        tally.removeMaker index = .ok after ∨
          tally.fill side restingPrice index maker = .ok after := by
  by_cases left : tally.remaining = 0
  · rw [tallyStep_filled left] at step
    exact .inl (Except.ok.inj step).symm
  cases front : tally.front side price with
  | error fault =>
    rw [tallyStep_error left front] at step
    contradiction
  | ok found =>
    cases found with
    | none =>
      rw [tallyStep_none left front] at step
      exact .inl (Except.ok.inj step).symm
    | some ahead =>
      obtain ⟨restingPrice, index, maker⟩ := ahead
      rw [tallyStep_some left front] at step
      right
      split at step
      · cases removed : tally.removeMaker index with
        | error fault =>
          rw [removed] at step
          contradiction
        | ok after =>
          rw [removed] at step
          exact ⟨after, (Except.ok.inj step).symm, restingPrice, index, maker, .inl removed⟩
      · cases filled : tally.fill side restingPrice index maker with
        | error fault =>
          rw [filled] at step
          contradiction
        | ok after =>
          rw [filled] at step
          exact ⟨after, (Except.ok.inj step).symm, restingPrice, index, maker, .inr filled⟩

/-- The loop ends with the tally of its last iteration. -/
theorem tallyStep_done (step : tallyStep side price tally = .ok (.done after)) : after = tally := by
  rcases tallyStep_ok step with done | ⟨_, next, -⟩
  · exact Flow.done.inj done
  · contradiction

/-! ## What a taker leaves of its quantity -/

/-- The quantity of some fills. -/
def filledQty (fills : List FillEntry) : Nat := (fills.map Prod.snd).sum

/-- Merging fills in a row keeps their quantity. -/
theorem filledQty_mergeRuns (fills : List FillEntry) :
    filledQty (mergeRuns fills) = filledQty fills := by
  have pushed : ∀ (entry : FillEntry) (merged : List FillEntry),
      filledQty (pushEntry entry merged) = entry.2 + filledQty merged := by
    intro entry merged
    cases merged with
    | nil => rfl
    | cons head rest =>
      obtain ⟨key, amount⟩ := head
      rw [pushEntry]
      split
      · simp only [filledQty, List.map_cons, List.sum_cons]
        omega
      · rfl
  induction fills with
  | nil => rfl
  | cons entry rest ih =>
    rw [mergeRuns_cons, pushed, ih]
    rfl

/-- The quantity that a taker has filled and has still to fill. -/
def Tally.brought (tally : Tally config) : Nat := tally.remaining.toNat + filledQty tally.totals

/-- Removing a maker fills nothing. -/
theorem brought_removeMaker (removed : tally.removeMaker index = .ok after) :
    after.brought = tally.brought := by
  unfold Tally.removeMaker at removed
  obtain ⟨result, -, returned⟩ := bind_ok removed
  obtain rfl := Except.ok.inj returned
  rfl

/-- A fill takes from the remaining quantity what it adds to the filled one. -/
theorem brought_fill (filled : tally.fill side restingPrice index maker = .ok after) :
    after.brought = tally.brought := by
  have within : min tally.remaining maker.matchableQty ≤ tally.remaining := Std.min_le_left
  have taken : ∀ arena, (tally.took side restingPrice maker
      (min tally.remaining maker.matchableQty) arena).brought = tally.brought := by
    intro arena
    have parts := UInt64.le_iff_toNat_le.mp within
    simp only [Tally.brought, Tally.took, filledQty_mergeRuns, UInt64.toNat_sub_of_le _ _ within]
    simp only [filledQty, List.map_append, List.sum_append, List.map_cons, List.map_nil,
      List.sum_cons, List.sum_nil]
    omega
  unfold Tally.fill at filled
  obtain ⟨arena, -, filled⟩ := bind_ok filled
  obtain ⟨order, -, filled⟩ := bind_ok filled
  split at filled
  · exact (brought_removeMaker filled).trans (taken arena)
  · obtain rfl := Except.ok.inj filled
    exact taken arena

/-- No iteration changes what the taker brought. -/
theorem brought_tallyStep (step : tallyStep side price tally = .ok (.next after)) :
    after.brought = tally.brought := by
  rcases tallyStep_ok step with done | ⟨other, next, _, _, _, removed | filled⟩
  · contradiction
  · rw [Flow.next.inj next]
    exact brought_removeMaker removed
  · rw [Flow.next.inj next]
    exact brought_fill filled

/-- Nor does a run of them. -/
theorem brought_ends {outcome : Except Fault (Tally config)}
    (ends : LoopEnds (tallyStep side price) tally outcome) (returns : outcome = .ok after) :
    after.brought = tally.brought := by
  induction ends with
  | fails => contradiction
  | exits leaves =>
    rw [← Except.ok.inj returns, tallyStep_done leaves]
  | goes step _ ih => exact (ih returns).trans (brought_tallyStep step)

/-! ## Calls -/

variable {queues : Queues} {order : NewOrder} {instrumentId : UInt32} {qty : UInt64}

/-- The part of a quantity that a call has left unfilled, by its reports. -/
def leftOf (qty : UInt64) (bodies : List EventBody) : UInt64 :=
  qty - UInt64.ofNat (filledQty (fillEntries bodies))

/-- What a call has left unfilled by its reports is what its sweep has left. -/
theorem leftOf_eq {between : MatchingEngine config} {result : SweepResult config}
    (ends : LoopEnds (tallyStep side price) (tallyOf [] engine.clearEvents qty)
      (.ok (result.tally [])))
    (tally : tallyOf [] between result.remaining = result.tally []) :
    leftOf qty between.bodies = result.remaining := by
  have brought := brought_ends ends rfl
  rw [← tally] at brought
  have before : (tallyOf [] engine.clearEvents qty).brought = qty.toNat := Nat.add_zero _
  have now : (tallyOf [] between result.remaining).brought =
      result.remaining.toNat + filledQty (fillEntries between.bodies) :=
    congrArg (result.remaining.toNat + ·) (filledQty_mergeRuns _)
  rw [before, now] at brought
  have cap := qty.toNat_lt
  have filled : (UInt64.ofNat (filledQty (fillEntries between.bodies))).toNat =
      filledQty (fillEntries between.bodies) := by
    rw [UInt64.toNat_ofNat']
    exact Nat.mod_eq_of_lt (by omega)
  have within : UInt64.ofNat (filledQty (fillEntries between.bodies)) ≤ qty := by
    rw [UInt64.le_iff_toNat_le, filled]
    omega
  apply UInt64.toNat_inj.mp
  rw [leftOf, UInt64.toNat_sub_of_le _ _ within, filled]
  omega

/-- A limit order of which the remainder is cancelled has the limit of its sweep for a price. -/
theorem effectivePrice_ioc (kind : IocLimit order) : effectivePrice order = order.price := by
  unfold effectivePrice
  rw [kind.limit]

/-- An order leaves what one with its limit further in leaves and, when that has left some of its
quantity, an order for the rest behind it: the same book, the same arena, the same last trade price,
and the same totals of fills in the same order; and where a call fails on one side, it fails in the
same way on the other. -/
theorem process_outward {whole first second : OrderId} (reachable : Reachable engine)
    (bids : engine.stopBids = []) (asks : engine.stopAsks = []) (kind : IocLimit order)
    (positive : order.qty ≠ 0) (outward : isPriceAcceptable order.side far near = true)
    (fresh : ∀ id ∈ [whole, first, second], engine.book.lookup id = none) :
    (engine.processUnbounded
        (.newOrder instrumentId { order with id := whole, price := far })).map (residue []) =
      engine.processUnbounded
          (.newOrder instrumentId { order with id := first, price := near }) >>= fun between =>
        if leftOf order.qty between.bodies = 0 then .ok (residue [] between)
        else (between.processUnbounded (.newOrder instrumentId { order with
          id := second, price := far, qty := leftOf order.qty between.bodies })).map
            (residue between.bodies) := by
  obtain ⟨queues, sound⟩ := reachable.sound
  have kinds : ∀ id price qty, IocLimit { order with id, price, qty } := fun id price qty =>
    ⟨kind.limit, kind.ioc, kind.ungrouped⟩
  obtain ⟨wholeSwept, wholeCall, wholeEnds⟩ := @process_ioc _ _ _
    { order with id := whole, price := far } instrumentId sound bids asks (kinds _ _ _) positive
    (fresh whole (by simp))
  obtain ⟨firstSwept, firstCall, firstEnds⟩ := @process_ioc _ _ _
    { order with id := first, price := near } instrumentId sound bids asks (kinds _ _ _) positive
    (fresh first (by simp))
  have wholeEnds := wholeEnds []
  have firstEnds := firstEnds []
  rw [effectivePrice_ioc (kinds _ _ _)] at wholeEnds firstEnds
  have wholeLeaves := wholeCall.leaves []
  have onwards := LoopEnds.takesOver (fun tally => tallyStep_outward outward)
    (fun _ _ => tallyStep_done) firstEnds
  generalize engine.processUnbounded
    (.newOrder instrumentId { order with id := whole, price := far }) = wholeCalled
    at wholeLeaves ⊢
  generalize engine.processUnbounded
    (.newOrder instrumentId { order with id := first, price := near }) = firstCalled
    at firstCall ⊢
  cases firstCall with
  | @failed fault =>
    rw [wholeEnds.unique (onwards.1 fault rfl)] at wholeLeaves
    cases wholeCalled with
    | error other => exact congrArg Except.error (Except.error.inj wholeLeaves)
    | ok after => contradiction
  | @swept result between tally bids' asks' sound' unused =>
    have left : leftOf order.qty between.bodies = result.remaining := leftOf_eq firstEnds (tally [])
    show _ = if leftOf order.qty between.bodies = 0 then _ else _
    rw [left]
    by_cases nothing : result.remaining = 0
    · rw [if_pos nothing]
      have rests : LoopEnds (tallyStep order.side far) (result.tally [])
          (.ok (result.tally [])) := .exits (tallyStep_filled nothing)
      rw [wholeEnds.unique (onwards.2 _ rfl _ rests)] at wholeLeaves
      apply @residue_congr _ [] [] wholeCalled (.ok between)
      apply wholeLeaves.trans
      exact congrArg (fun tally : Tally config => Except.ok (tally.given 0)) (tally []).symm
    · rw [if_neg nothing]
      obtain ⟨queues', sound'⟩ := sound'
      obtain ⟨secondSwept, secondCall, secondEnds⟩ := @process_ioc _ _ _
        { order with id := second, price := far, qty := result.remaining } instrumentId sound' bids'
        asks' (kinds _ _ _) nothing (unused _ (fresh second (by simp)))
      have secondEnds := secondEnds (fillEntries between.bodies)
      rw [tallyOf_cleared, tally [], effectivePrice_ioc (kinds _ _ _)] at secondEnds
      have secondLeaves := secondCall.leaves (fillEntries between.bodies)
      rw [wholeEnds.unique (onwards.2 _ rfl _ secondEnds), ← secondLeaves] at wholeLeaves
      exact residue_congr wholeLeaves

/-- A bid at two prices, and two bids one behind the other. -/
theorem process_outward_two_levels :
    ∃ engine : MatchingEngine (smallConfig .cancelOldest), Reachable engine ∧
      (engine.arena.orders.map Order.price == [3, 5]) = true ∧
      (engine.processUnbounded (.newOrder 1 ⟨7, .bid, 5, 7, .limit, .ioc, none, none, none⟩)).map
          (residue []) =
        engine.processUnbounded (.newOrder 1 ⟨8, .bid, 3, 7, .limit, .ioc, none, none, none⟩) >>=
          fun between =>
            if leftOf 7 between.bodies = 0 then .ok (residue [] between)
            else (between.processUnbounded (.newOrder 1
              ⟨9, .bid, 5, leftOf 7 between.bodies, .limit, .ioc, none, none, none⟩)).map
                (residue between.bodies) := by
  obtain ⟨engine, reachable, shown⟩ := Reachable.exists_run
    (fun engine : MatchingEngine (smallConfig .cancelOldest) =>
      engine.arena.orders.map Order.price == [3, 5] &&
        engine.stopBids.isEmpty && engine.stopAsks.isEmpty &&
        [7, 8, 9].all fun id => engine.book.lookup id == none) 8
    [.submit (.gtc 1 .ask 3 5), .submit (.gtc 2 .ask 5 4)] (by decide +kernel)
  simp only [Bool.and_eq_true, List.isEmpty_iff, List.all_eq_true, beq_iff_eq] at shown
  obtain ⟨⟨⟨prices, bids⟩, asks⟩, fresh⟩ := shown
  refine ⟨engine, reachable, by rw [prices]; rfl, ?_⟩
  exact @process_outward _ 3 5 engine ⟨0, .bid, 0, 7, .limit, .ioc, none, none, none⟩ 1 7 8 9
    reachable bids asks ⟨rfl, rfl, rfl⟩ (by decide) (by decide) fresh

end MatchX.MatchingEngine
