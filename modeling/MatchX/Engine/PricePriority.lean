import MatchX.Engine.Events
import MatchX.Engine.Uncrossed

/-!
# Price priority

With exact best prices, a fill executes at the best price over all live opposite orders, at a
price that the taker accepts, so the prices of one taker's fills never get better; and a sweep
that ends with quantity left, other than at a maker of the taker's group, leaves no opposite
order that the taker accepts. The best prices are exact as long as no removal hides a better one.
-/

namespace MatchX

open MatchX.Support

/-- Some order of a side with quantity left rests at a price. -/
def RestsLive (arena : Arena) (side : Side) (price : UInt64) : Prop :=
  ∃ i order, arena.find i = some order ∧ order.side = side ∧ order.price = price ∧
    order.remaining ≠ 0

/-- A price is the best one at which an order of a side with quantity left rests. -/
def BestLive (arena : Arena) (side : Side) (price : UInt64) : Prop :=
  RestsLive arena side price ∧
    ∀ other, RestsLive arena side other → OrderBook.better side other price = false

/-- Where a live order rests after the arena shrank, one rested before. -/
theorem Arena.Shrinks.restsLive {arena arena' : Arena} {queues : Queues} {side : Side}
    {price : UInt64} (queued : Queued arena queues) (shrinks : arena.Shrinks arena')
    (rests : RestsLive arena' side price) : RestsLive arena side price := by
  obtain ⟨i, order', found, rfl, rfl, live⟩ := rests
  obtain ⟨order, delta, resting, bound, same⟩ := shrinks i _ (Arena.resting_of_find found)
  have left : (order.fill delta).remaining ≠ 0 := by
    rw [← same]
    exact live
  rw [(Order.fill_sound (queued.sound resting) bound).2] at left
  obtain ⟨stored, held, rfl⟩ := Arena.find_of_resting resting
  refine ⟨i, stored, held, (congrArg Order.side same).symm, (congrArg Order.price same).symm, ?_⟩
  intro spent
  rw [Order.unlinked_remaining, spent] at bound left
  obtain rfl := UInt64.le_zero_iff.mp bound
  exact left rfl

namespace MatchingEngine

variable {config : InstrumentConfig} {engine : MatchingEngine config} {queues : Queues}
  {taker : Taker} {sweep start : Sweep config}
  {flow : Flow (Sweep config) (SweepResult config)}

/-- Price priority of a sweep. -/
structure PricePriority (taker : Taker) (start : Sweep config) : Prop where
  /-- A fill executes at the best live opposite price, which the taker accepts. -/
  best : ∀ sweep flow makerId takerId price qty makerLeft takerLeft,
    Visits (matchStep taker) start sweep → matchStep taker sweep = .ok flow →
    .fill makerId takerId price qty makerLeft takerLeft ∈
      emittedSince sweep.engine (flowEngine flow) →
    BestLive sweep.engine.arena taker.side.opposite price ∧
      isPriceAcceptable taker.side taker.price price = true
  /-- The price of a later fill is no better. -/
  ordered : ∀ sweep following later flow makerId takerId price qty makerLeft takerLeft
    makerId' takerId' price' qty' makerLeft' takerLeft',
    Visits (matchStep taker) start sweep → matchStep taker sweep = .ok (.next following) →
    .fill makerId takerId price qty makerLeft takerLeft ∈
      emittedSince sweep.engine following.engine →
    Visits (matchStep taker) following later → matchStep taker later = .ok flow →
    .fill makerId' takerId' price' qty' makerLeft' takerLeft' ∈
      emittedSince later.engine (flowEngine flow) →
    OrderBook.better taker.side.opposite price' price = false
  /-- Where the sweep ends with quantity left, other than at a maker of the taker's group, the
  taker accepts no opposite order. -/
  swept : ∀ last result, Visits (matchStep taker) start last →
    matchStep taker last = .ok (.done result) → result.remaining ≠ 0 → ¬MeetsGroup taker last →
    ∀ price, Rests result.engine.arena taker.side.opposite price →
      isPriceAcceptable taker.side taker.price price = false

/-- A sweep with exact best prices that hides no better price has price priority. -/
theorem pricePriority_of_exact (sound : start.engine.Sound queues)
    (exact : BestExact start.engine.book start.engine.arena)
    (clear : ∀ sweep, Visits (matchStep taker) start sweep → ¬Hides taker sweep) :
    PricePriority taker start := by
  have exactAt : ∀ sweep, Visits (matchStep taker) start sweep →
      (∃ queues', sweep.engine.Sound queues') ∧ BestExact sweep.engine.book sweep.engine.arena :=
    fun sweep visits => visits_keeps (fun state => BestExact state.book state.arena)
      (fun _ _ _ seen sound' exact' _ iteration => iteration.bestExact sound' (clear _ seen) exact')
      sound exact visits
  have best : ∀ sweep flow makerId takerId price qty makerLeft takerLeft,
      Visits (matchStep taker) start sweep → matchStep taker sweep = .ok flow →
      .fill makerId takerId price qty makerLeft takerLeft ∈
        emittedSince sweep.engine (flowEngine flow) →
      BestLive sweep.engine.arena taker.side.opposite price ∧
        isPriceAcceptable taker.side taker.price price = true := by
    intro sweep flow makerId takerId price qty makerLeft takerLeft visits step emitted
    obtain ⟨⟨queues', sound'⟩, exact'⟩ := exactAt sweep visits
    obtain ⟨index, maker, front, live, -, -, -, -⟩ := (matchStep_cases sound' step).filled emitted
    refine ⟨⟨⟨index, maker, front.found, front.onSide, front.atPrice, live⟩, ?_⟩,
      front.acceptable⟩
    rintro other ⟨i, order, found, onSide, atPrice, -⟩
    exact (exact'.best sound'.rep.toQueued front.best).2 other
      (sound'.rep.toQueued.rests_iff.mp ⟨i, order, found, onSide, atPrice⟩)
  refine ⟨best, ?_, ?_⟩
  · intro sweep following later flow makerId takerId price qty makerLeft takerLeft makerId'
      takerId' price' qty' makerLeft' takerLeft' visits step emitted later' step' emitted'
    obtain ⟨⟨queues', sound'⟩, -⟩ := exactAt sweep visits
    obtain ⟨⟨-, least⟩, -⟩ := best sweep _ makerId takerId price qty makerLeft takerLeft visits step
      emitted
    obtain ⟨⟨rests, -⟩, -⟩ := best later flow makerId' takerId' price' qty' makerLeft' takerLeft'
      ((visits.tail step).trans later') step' emitted'
    -- The later order rested already when the earlier fill took place.
    have iteration := matchStep_cases sound' step
    obtain ⟨queues'', sound''⟩ := iteration.sound sound'
    obtain ⟨-, shrinks⟩ := visits_keeps
      (fun state => sweep.engine.arena.Shrinks state.arena)
      (fun _ _ _ _ held before _ further =>
        before.trans sound'.rep.toQueued (further.shrinks held))
      sound'' (iteration.shrinks sound') later'
    exact least price' (shrinks.restsLive sound'.rep.toQueued rests)
  · intro last result visits step left free
    obtain ⟨⟨queues', sound'⟩, exact'⟩ := exactAt last visits
    have group : ∀ {price index maker}, Front taker last.engine queues' price index maker →
        maker.remaining ≠ 0 → sameGroup taker maker ≠ true := fun front live same =>
      free ⟨_, _, front.frontMaker_eq sound'.rep, live, same⟩
    cases matchStep_cases sound' step with
    | exhausted nothing => exact absurd nothing left
    | unmatched _ refused => exact exact'.apart refused
    | newest _ front live same => exact absurd same (group front live)
    | both _ front live same => exact absurd same (group front live)
    | decrementAll _ front live same => exact absurd same (group front live)
    | decrementPart _ front same _ part =>
      exact absurd same (group front (word_ne_zero_of_lt part))

/-- Sweeps have price priority at every engine reached without hiding a better price, for every
taker, and within every call that hides none, as long as they hide none themselves. -/
theorem price_priority_unless_hidden (config : InstrumentConfig) :
    (∀ (engine : MatchingEngine config) taker qty, Reaches config NoneHidden engine →
      (∀ sweep, Visits (matchStep taker) ⟨engine, qty⟩ sweep → ¬Hides taker sweep) →
      PricePriority taker ⟨engine, qty⟩) ∧
    ∀ (engine : MatchingEngine config) command site order, Reaches config NoneHidden engine →
      NoneHidden engine command → Submits engine command site order → order.Matched →
      site.refusal order = .ok none →
      PricePriority (takerOf order) ⟨site.accept order, order.qty⟩ := by
  constructor
  · intro engine taker qty reached clear
    obtain ⟨⟨queues, sound⟩, exact⟩ := reached.bestExact
    exact pricePriority_of_exact sound exact clear
  · intro engine command site order reached clear submits matched checked
    obtain ⟨⟨queues, sound⟩, exact⟩ := reached.bestExact
    obtain ⟨⟨queues', sound'⟩, exact'⟩ := (keepsBestExact clear).kept.submits
      ⟨⟨queues, sound.congr rfl rfl⟩, exact⟩ submits
    exact pricePriority_of_exact (sound'.accept order) exact' fun sweep visits =>
      clear.makers site order sweep ⟨submits, matched, checked, visits⟩

/-- A bid that sweeps two asks of the window has price priority. -/
theorem price_priority_of_two_levels :
    ∃ engine : MatchingEngine (smallConfig .cancelNewest),
      PricePriority (takerOf (.gtc 3 .bid 3 15))
        ⟨engine.clearEvents.accept (.gtc 3 .bid 3 15), 15⟩ ∧
      ((engine.process (.submit (.gtc 3 .bid 3 15))).toOption.any fun after => after.bodies ==
        [.orderAccepted 3 .bid 3 15 .limit, .fill 2 3 2 10 0 5, .bookUpdate .ask 2 0,
          .fill 1 3 3 5 5 0, .bookUpdate .ask 3 5]) = true := by
  obtain ⟨engine, reached, shown⟩ := Reaches.exists_run NoneHidden
    (loneSweep fun _ sweep => windowOnly sweep.engine.book sweep.engine.arena)
    (fun engine : MatchingEngine (smallConfig .cancelNewest) =>
      (loneSweep (fun _ sweep => windowOnly sweep.engine.book sweep.engine.arena) engine
        (.submit (.gtc 3 .bid 3 15)) &&
        (engine.clearEvents.refusal (.gtc 3 .bid 3 15)).toOption == some none) &&
      (engine.process (.submit (.gtc 3 .bid 3 15))).toOption.any fun after => after.bodies ==
        [.orderAccepted 3 .bid 3 15 .limit, .fill 2 3 2 10 0 5, .bookUpdate .ask 2 0,
          .fill 1 3 3 5 5 0, .bookUpdate .ask 3 5])
    (fun _ _ => noneHidden_of_loneSweep) 8
    [.submit (.gtc 1 .ask 3 10), .submit (.gtc 2 .ask 2 10)] (by decide +kernel)
  rw [Bool.and_eq_true, Bool.and_eq_true, beq_iff_eq] at shown
  obtain ⟨⟨lone, checks⟩, after⟩ := shown
  have checked := ok_of_toOption checks
  exact ⟨engine, (price_priority_unless_hidden _).2 engine (.submit (.gtc 3 .bid 3 15)) _ _ reached
    (noneHidden_of_loneSweep lone) (.direct rfl) (by decide) checked, after⟩

/-- Bids at 10, 20 and 2 with the window from 0 to 3, the second cancelled: a sell at 1 or more
fills the bid at 2 while the one at 10 rests. -/
theorem trade_through_after_removal :
    ¬∀ engine : MatchingEngine (smallConfig .cancelNewest), Reachable engine →
      ∀ taker qty, PricePriority taker ⟨engine, qty⟩ := by
  intro always
  obtain ⟨engine, reachable, shown⟩ := Reachable.exists_run
    (fun engine : MatchingEngine (smallConfig .cancelNewest) =>
      ((engine.arena.find 0).any fun order => order.side == .bid && (order.price == 10 &&
        order.remaining == 10)) &&
      (matchStep ⟨4, .ask, 1, none⟩ ⟨engine, 5⟩).toOption.any fun flow =>
        emittedSince engine (flowEngine flow) == [.fill 3 4 2 5 5 0, .bookUpdate .bid 2 5]) 8
    [.submit (.gtc 1 .bid 10 10), .submit (.gtc 2 .bid 20 10), .submit (.gtc 3 .bid 2 10),
      .cancelOrder 2] (by decide +kernel)
  rw [Bool.and_eq_true] at shown
  obtain ⟨rests, fills⟩ := shown
  obtain ⟨order, found, places⟩ := (Option.any_eq_true _ _).mp rests
  simp only [Bool.and_eq_true, beq_iff_eq] at places
  obtain ⟨flow, step, emitted⟩ := (Option.any_eq_true _ _).mp fills
  have priority := (always engine reachable ⟨4, .ask, 1, none⟩ 5).best ⟨engine, 5⟩ flow 3 4 2 5 5 0
    (Visits.refl _ _) (ok_of_toOption step)
    (by rw [beq_iff_eq.mp emitted]; exact List.mem_cons_self)
  have least := priority.1.2 10
    ⟨0, order, found, places.1, places.2.1, by rw [places.2.2]; decide⟩
  exact absurd least (by decide)

end MatchingEngine

end MatchX
