import MatchX.Engine.Sweeps

/-!
# The book is not crossed

Every resting bid is below every resting ask. An order that rests with a price that no opposite
order accepts keeps this so, and when the best prices are exact a sweep that runs to its end
leaves no such opposite order. Two things cross the book: a removal that hides a better price,
behind which a later order rests, and a sweep that stops at a maker of the taker's own group and
rests its remainder on the spot.
-/

namespace MatchX

open MatchX.Support

variable {ticks : UInt32} {book book' : OrderBook ticks} {arena arena' : Arena} {queues : Queues}
  {order : Order} {index : ArenaIndex}

/-- Every resting bid is below every resting ask. -/
def Uncrossed (arena : Arena) : Prop :=
  ∀ bid ask, Rests arena .bid bid → Rests arena .ask ask → bid < ask

/-- An arena that shrinks stays uncrossed. -/
theorem Arena.Shrinks.uncrossed (shrinks : arena.Shrinks arena') (uncrossed : Uncrossed arena) :
    Uncrossed arena' := fun bid ask restsBid restsAsk =>
  uncrossed bid ask (shrinks.rests restsBid) (shrinks.rests restsAsk)

/-- After an insertion orders rest where they did and at the price of the new order. -/
theorem Inserted.rests (inserted : Inserted book arena queues order index book' arena')
    {side : Side} {price : UInt64} (rests : Rests arena' side price) :
    Rests arena side price ∨ order.side = side ∧ order.price = price := by
  obtain ⟨i, other, resting, places⟩ := rests_resting.mp rests
  rw [inserted.resting] at resting
  split at resting
  · obtain rfl := Option.some.inj resting
    exact .inr places
  · exact .inl (rests_resting.mpr ⟨i, other, resting, places⟩)

/-- An order whose price accepts no opposite order keeps the arena uncrossed. -/
theorem Inserted.uncrossed (inserted : Inserted book arena queues order index book' arena')
    (apart : ∀ price, Rests arena order.side.opposite price →
      isPriceAcceptable order.side order.price price = false) (uncrossed : Uncrossed arena) :
    Uncrossed arena' := by
  intro bid ask restsBid restsAsk
  rcases inserted.rests restsBid with oldBid | ⟨isBid, rfl⟩
  · rcases inserted.rests restsAsk with oldAsk | ⟨isAsk, rfl⟩
    · exact uncrossed bid ask oldBid oldAsk
    · have refused := apart bid (by rw [isAsk]; exact oldBid)
      rw [isAsk] at refused
      simpa [isPriceAcceptable] using refused
  · rcases inserted.rests restsAsk with oldAsk | ⟨isAsk, rfl⟩
    · have refused := apart ask (by rw [isBid]; exact oldAsk)
      rw [isBid] at refused
      simpa [isPriceAcceptable] using refused
    · rw [isBid] at isAsk
      contradiction

/-- A price that does not accept the best opposite price accepts no opposite order. -/
theorem BestExact.apart {side : Side} {limit : UInt64} (exact : BestExact book arena)
    (refused : ∀ price, book.best side.opposite = some price →
      isPriceAcceptable side limit price = false) (price : UInt64)
    (rests : Rests arena side.opposite price) : isPriceAcceptable side limit price = false := by
  have isBest := exact side.opposite
  cases best : book.best side.opposite with
  | none =>
    rw [best] at isBest
    exact absurd rests (isBest price)
  | some top =>
    rw [best] at isBest
    have beyond := refused top best
    have least := isBest.2 price rests
    revert beyond least
    cases side <;>
      simp only [isPriceAcceptable, Side.opposite, OrderBook.better, decide_eq_false_iff_not] <;>
      grind

namespace MatchingEngine

variable {config : InstrumentConfig} {engine engine' : MatchingEngine config} {queues : Queues}
  {command : Command} {order : NewOrder} {qty : UInt64}

/-- The next iteration ends the sweep at a maker of the taker's group, whatever remains. -/
def StopsShort (taker : Taker) (sweep : Sweep config) : Prop :=
  config.stpMode = .cancelNewest ∧ sweep.remaining ≠ 0 ∧ ∃ index maker,
    frontMaker taker sweep.engine = some (index, maker) ∧ maker.remaining ≠ 0 ∧
    sameGroup taker maker = true

/-- No sweep of a call for an order whose remainder rests ends at a maker of its group. -/
def NoneKept (engine : MatchingEngine config) (command : Command) : Prop :=
  ∀ site order sweep, Sweeps engine command site order sweep → order.Keeps →
    ¬StopsShort (takerOf order) sweep

/-- Resting an order whose price accepts no opposite order keeps the book uncrossed. -/
theorem Rested.uncrossed (rested : Rested engine queues order qty engine')
    (apart : ∀ price, Rests engine.arena order.side.opposite price →
      isPriceAcceptable order.side order.price price = false)
    (uncrossed : Uncrossed engine.arena) : Uncrossed engine'.arena := by
  cases rested with
  | refused => exact uncrossed
  | inserted _ inserted => exact inserted.uncrossed apart uncrossed

/-- A call that hides no better price and keeps no remainder short of its end leaves the book
uncrossed throughout. -/
theorem uncrossed_kept (clear : NoneHidden engine command) (full : NoneKept engine command)
    (sound : engine.Sound queues) (exact : BestExact engine.book engine.arena) :
    Kept engine command fun state => Uncrossed state.arena := by
  have initial : (∃ queues, engine.clearEvents.Sound queues) ∧
      BestExact engine.clearEvents.book engine.clearEvents.arena :=
    ⟨⟨queues, sound.congr rfl rfl⟩, exact⟩
  refine ⟨?_, ?_, fun _ _ _ _ uncrossed => uncrossed, ?_, ?_⟩
  · intro id after _ uncrossed returned
    cases processCancel_cases (sound.congr rfl rfl : engine.clearEvents.Sound queues) returned with
    | missing => exact uncrossed
    | removed _ _ _ removed => exact removed.shrinks.uncrossed uncrossed
  · intro id newPrice newQty index site order _ uncrossed held withdrawn
    cases withdraw_cases (sound.congr rfl rfl : engine.clearEvents.Sound queues) held withdrawn with
    | removed _ removed => exact removed.shrinks.uncrossed uncrossed
  · intro start before site order _ fired uncrossed
    rw [fired.kept.2]
    exact uncrossed
  · intro site order after submits uncrossed returned
    obtain ⟨⟨queues', sound'⟩, exact'⟩ := (keepsBestExact clear).kept.submits initial submits
    cases processNewOrder_cases sound' returned with
    | rejected => exact uncrossed
    | parked _ _ _ arena =>
      rw [arena]
      exact uncrossed
    | posted _ apart rested => exact rested.uncrossed (exact'.apart apart) uncrossed
    | matched kind checks swept sound'' settled =>
      have still := (matchAgainstBook_shrinks (sound'.accept order) swept).uncrossed uncrossed
      cases settled with
      | prevented | filled | dropped => exact still
      | rested free left keeps rested =>
        obtain ⟨last, _, sweeps, soundLast, exactLast, iteration, -⟩ :=
          (keepsBestExact clear).sweptOut sound' exact' submits kind checks swept
        refine rested.uncrossed ?_ still
        cases iteration with
        | exhausted nothing => exact absurd nothing left
        | unmatched _ refused =>
          have apart := exactLast.apart refused
          simpa only [takerOf, effectivePrice_of_keeps keeps] using apart
        | newest rem front live group mode =>
          exact absurd ⟨mode, rem, _, _, front.frontMaker_eq soundLast.rep, live, group⟩
            (full site order last sweeps keeps)
        | both | decrementAll | decrementPart => contradiction

/-- The book is uncrossed after every run in which no removal hides a better price and no sweep
that stops at a maker of the taker's own group rests its remainder. -/
theorem book_uncrossed_unless_hidden_or_kept (config : InstrumentConfig)
    (engine : MatchingEngine config)
    (reached : Reaches config (fun engine command => NoneHidden engine command ∧
      NoneKept engine command) engine) :
    Uncrossed engine.arena ∧ ∀ bid ask, engine.book.bestBid = some bid →
      engine.book.bestAsk = some ask → bid < ask := by
  have clear : Reaches config NoneHidden engine := Reached.mono (fun _ _ both => both.1) reached
  obtain ⟨⟨queues, sound⟩, exact⟩ := clear.bestExact
  have uncrossed : Uncrossed engine.arena := by
    have both : ((∃ queues, engine.Sound queues) ∧ BestExact engine.book engine.arena) ∧
        Uncrossed engine.arena := by
      refine Reached.invariant ?_ ?_ reached
      · rintro engine ⟨capacity, rfl⟩
        refine ⟨⟨⟨_, sound_new config capacity⟩, bestExact_new config capacity⟩, ?_⟩
        rintro bid ask ⟨i, order, found, -⟩ -
        rw [show (new config capacity).arena = Arena.new capacity from rfl,
          Arena.find_new] at found
        contradiction
      · rintro engine command following ⟨⟨⟨queues, sound⟩, exact⟩, uncrossed⟩ ⟨clear, full⟩ completed
        refine ⟨(keepsBestExact clear).kept.returns ⟨⟨queues, sound.congr rfl rfl⟩, exact⟩ completed,
          ?_⟩
        exact (uncrossed_kept clear full sound exact).returns uncrossed completed
    exact both.2
  refine ⟨uncrossed, fun bid ask bestBid bestAsk => uncrossed bid ask ?_ ?_⟩
  · exact sound.rep.toQueued.rests_iff.mpr (sound.tracks.held .bid bid bestBid)
  · exact sound.rep.toQueued.rests_iff.mpr (sound.tracks.held .ask ask bestAsk)

/-- Commands that submit their own ungrouped order and no stop, and sweep inside the window. -/
def ungroupedInWindow (engine : MatchingEngine config) (command : Command) : Bool :=
  loneSweep (fun order sweep => windowOnly sweep.engine.book sweep.engine.arena &&
    order.stpGroup.isNone) engine command

/-- Such commands hide no better price and keep no remainder short of the end. -/
theorem kept_of_ungroupedInWindow (passes : ungroupedInWindow engine command = true) :
    NoneHidden engine command ∧ NoneKept engine command := by
  constructor
  · exact noneHidden_of_loneSweep (loneSweep_mono (fun _ _ both => (Bool.and_eq_true _ _ ▸ both).1)
      passes)
  · rintro site order sweep sweeps - ⟨-, -, index, maker, -, -, group⟩
    have both := Sweeps.of_loneSweep passes sweeps
    rw [Bool.and_eq_true, Option.isNone_iff_eq_none] at both
    simp [sameGroup, takerOf, both.2] at group

/-- After an ask is filled in part and a lower bid rests, the book is uncrossed. -/
theorem book_uncrossed_after_fill :
    ∃ engine : MatchingEngine (smallConfig .cancelNewest),
      (Uncrossed engine.arena ∧ ∀ bid ask, engine.book.bestBid = some bid →
        engine.book.bestAsk = some ask → bid < ask) ∧
      (engine.book.bestBid == some 2 && engine.book.bestAsk == some 3) = true := by
  obtain ⟨engine, reached, shown⟩ := Reaches.exists_run
    (fun engine command => NoneHidden engine command ∧ NoneKept engine command)
    ungroupedInWindow
    (fun engine : MatchingEngine (smallConfig .cancelNewest) =>
      engine.book.bestBid == some 2 && engine.book.bestAsk == some 3)
    (fun _ _ => kept_of_ungroupedInWindow) 8
    [.submit (.gtc 1 .ask 3 10), .submit (.gtc 2 .bid 3 4), .submit (.gtc 3 .bid 2 10)]
    (by decide +kernel)
  exact ⟨engine, book_uncrossed_unless_hidden_or_kept _ engine reached, shown⟩

/-- Asks of 10 at price 2, one without a group and one of group 1, and a bid of 20 at 2 of group
1: the bid fills the first ask, stops at the second one, and rests beside it at its price. -/
theorem book_crossed_after_short_stop :
    ¬∀ engine : MatchingEngine (smallConfig .cancelNewest), Reachable engine →
      Uncrossed engine.arena ∧ ∀ bid ask, engine.book.bestBid = some bid →
        engine.book.bestAsk = some ask → bid < ask := by
  intro always
  obtain ⟨engine, reachable, shown⟩ := Reachable.exists_run
    (fun engine : MatchingEngine (smallConfig .cancelNewest) =>
      engine.book.bestBid == some 2 && engine.book.bestAsk == some 2) 8
    [.submit (.gtc 1 .ask 2 10), .submit { NewOrder.gtc 2 .ask 2 10 with stpGroup := some 1 },
      .submit { NewOrder.gtc 3 .bid 2 20 with stpGroup := some 1 }] (by decide +kernel)
  rw [Bool.and_eq_true, beq_iff_eq, beq_iff_eq] at shown
  exact absurd ((always engine reachable).2 2 2 shown.1 shown.2) (by decide)

end MatchingEngine

end MatchX
