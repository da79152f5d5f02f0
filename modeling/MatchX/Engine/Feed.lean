import MatchX.Engine.Events

/-!
# The feed of level totals

Folding the `BookUpdate` events of a run, the last one of a level winning, gives the totals of
all levels as long as every order that rests is reported with the total of its level. The event
carries the quantity of the order instead, and is sent whether or not the book takes the order.
-/

namespace MatchX

open MatchX.Support

variable {ticks : UInt32} {book book' : OrderBook ticks} {arena arena' : Arena}
  {queues queues' : Queues} {order : Order} {index : ArenaIndex} {side : Side}
  {price delta : UInt64}

/-! ## Levels that an operation leaves alone -/

/-- A level whose queue and orders are kept is kept. -/
theorem Represents.level_kept (rep : Represents book arena queues)
    (rep' : Represents book' arena' queues') (sameQueue : queues' side price = queues side price)
    (sameOrders : ∀ i ∈ queues side price, arena'.resting i = arena.resting i) :
    book'.level side price = book.level side price := by
  rw [rep'.levels, rep.levels, sameQueue, levelOf_congr sameOrders]

/-- The slots of the other levels are not the one that holds an order. -/
theorem Queued.not_mem_other (queued : Queued arena queues) (found : arena.resting index = some order)
    (apart : ¬(side = order.side ∧ price = order.price)) : ∀ i ∈ queues side price, i ≠ index := by
  rintro i member rfl
  exact apart (queued.same_queue (queued.placed found) member)

/-- An insertion leaves the other levels alone. -/
theorem Inserted.level_other (rep : Represents book arena queues)
    (inserted : Inserted book arena queues order index book' arena')
    (apart : ¬(side = order.side ∧ price = order.price)) :
    book'.level side price = book.level side price :=
  rep.level_kept inserted.represents (Queues.set_other apart)
    (rep.toQueued.resting_kept inserted.fresh inserted.resting)

/-- A removal leaves the other levels alone. -/
theorem Removed.level_other (rep : Represents book arena queues)
    (removed : Removed book arena queues order index book' arena')
    (apart : ¬(side = order.side ∧ price = order.price)) :
    book'.level side price = book.level side price :=
  rep.level_kept removed.represents (Queues.set_other apart) fun i member => by
    rw [removed.resting, if_neg (rep.toQueued.not_mem_other removed.found apart i member)]

/-- Taking a quantity leaves the other levels alone. -/
theorem Taken.level_other (rep : Represents book arena queues)
    (taken : Taken book arena queues order index delta book' arena')
    (apart : ¬(side = order.side ∧ price = order.price)) :
    book'.level side price = book.level side price :=
  rep.level_kept taken.represents rfl fun i member => by
    rw [taken.resting, if_neg (rep.toQueued.not_mem_other taken.found apart i member)]

/-- Removing an order of which nothing remains leaves every total as it is. -/
theorem Removed.total_of_spent (rep : Represents book arena queues)
    (removed : Removed book arena queues order index book' arena') (spent : order.remaining = 0) :
    book'.getLevelQty side price = book.getLevelQty side price := by
  by_cases here : side = order.side ∧ price = order.price
  · obtain ⟨rfl, rfl⟩ := here
    have nodup := rep.nodup order.side order.price
    have kept : liquidity arena' ((queues order.side order.price).erase index) =
        liquidity arena ((queues order.side order.price).erase index) :=
      liquidity_congr fun i member => by
        rw [removed.resting, if_neg ((List.Nodup.mem_erase_iff nodup).mp member).1]
    rw [OrderBook.getLevelQty, OrderBook.getLevelQty, rep.levels, removed.represents.levels]
    simp only [levelOf, Queues.delete, Queues.set_same, kept,
      liquidity_erase (rep.placed removed.found), Arena.remainingAt_of_resting removed.found, spent,
      UInt64.toNat_zero, Nat.zero_add]
  · rw [OrderBook.getLevelQty, OrderBook.getLevelQty, removed.level_other rep here]

/-- The total of the level of an inserted order. -/
theorem Inserted.total (rep : Represents book arena queues)
    (inserted : Inserted book arena queues order index book' arena') :
    book'.getLevelQty order.side order.price =
      book.getLevelQty order.side order.price + order.remaining := by
  rw [OrderBook.getLevelQty, OrderBook.getLevelQty, rep.levels, inserted.represents.levels,
    Queues.append, Queues.set_same, levelOf_append (by rw [inserted.resting, if_pos rfl])
      (rep.toQueued.resting_kept inserted.fresh inserted.resting)]

/-! ## The feed -/

/-- The total of every level, zero for no level, as a reader of the events knows it. -/
abbrev Feed := Side → UInt64 → UInt64

namespace Feed

/-- Take up one event. -/
def apply (feed : Feed) : EventBody → Feed
  | .bookUpdate side price qty => fun side' price' =>
    if side' = side ∧ price' = price then qty else feed side' price'
  | _ => feed

/-- Take up events in order. -/
def applyAll (feed : Feed) (bodies : List EventBody) : Feed := bodies.foldl apply feed

/-- Taking up events in a row. -/
theorem applyAll_append (feed : Feed) (early late : List EventBody) :
    feed.applyAll (early ++ late) = (feed.applyAll early).applyAll late :=
  List.foldl_append

end Feed

namespace MatchingEngine

variable {config : InstrumentConfig} {engine engine' : MatchingEngine config} {queues : Queues}
  {taker : Taker} {sweep : Sweep config} {flow : Flow (Sweep config) (SweepResult config)}
  {command : Command} {feed : Feed}

/-- With the events of the call so far, the feed shows the total of every level. -/
def Shown (feed : Feed) (engine : MatchingEngine config) : Prop :=
  ∀ side price, feed.applyAll engine.bodies side price = engine.book.getLevelQty side price

/-- The feed shows what it showed when nothing is reported of the levels and their totals are
kept. -/
theorem Shown.quiet (bodies : List EventBody) (shown : Shown feed engine)
    (appended : engine'.bodies = engine.bodies ++ bodies)
    (silent : ∀ feed : Feed, feed.applyAll bodies = feed)
    (kept : ∀ side price, engine'.book.getLevelQty side price =
      engine.book.getLevelQty side price) : Shown feed engine' := by
  intro side price
  rw [appended, Feed.applyAll_append, silent, shown, kept]

/-- The feed shows the totals after one level changed, when its total is reported last. -/
theorem Shown.update (bodies : List EventBody) {side : Side} {price : UInt64}
    (shown : Shown feed engine)
    (appended : engine'.bodies = engine.bodies ++ bodies ++
      [.bookUpdate side price (engine'.book.getLevelQty side price)])
    (silent : ∀ feed : Feed, feed.applyAll bodies = feed)
    (kept : ∀ side' price', ¬(side' = side ∧ price' = price) →
      engine'.book.level side' price' = engine.book.level side' price') : Shown feed engine' := by
  intro side' price'
  rw [appended, Feed.applyAll_append, Feed.applyAll_append, silent]
  simp only [Feed.applyAll, List.foldl_cons, List.foldl_nil, Feed.apply]
  split
  · rename_i here
    rw [here.1, here.2]
  · rename_i apart
    rw [OrderBook.getLevelQty, kept side' price' apart]
    exact shown side' price'

/-- A fill, an acceptance, a cancellation and a modification say nothing of the levels. -/
theorem silent_one {body : EventBody} (other : ∀ side price qty, body ≠ .bookUpdate side price qty)
    (feed : Feed) : feed.applyAll [body] = feed := by
  cases body with
  | bookUpdate side price qty => exact absurd rfl (other side price qty)
  | _ => rfl

/-- An iteration reports every total that it changes. -/
theorem Iteration.shown (sound : sweep.engine.Sound queues)
    (iteration : Iteration taker queues sweep flow) (shown : Shown feed sweep.engine) :
    Shown feed (flowEngine flow) := by
  have sameLevel : ∀ {price index maker}, Front taker sweep.engine queues price index maker →
      ∀ side price', ¬(side = maker.side ∧ price' = price) →
        ¬(side = maker.unlinked.side ∧ price' = maker.unlinked.price) :=
    fun front side price' apart same => apart ⟨same.1, same.2.trans front.atPrice⟩
  cases iteration with
  | exhausted | unmatched | newest => exact shown
  | stale _ front spent removed =>
    exact shown.quiet [] (by simp [flowEngine]) (fun _ => rfl)
      fun side price => removed.total_of_spent sound.rep spent
  | oldest _ front _ _ _ removed =>
    exact shown.update _ (by simp [flowEngine]; rfl) (silent_one (by simp))
      fun side price apart => removed.level_other sound.rep (sameLevel front side price apart)
  | both _ front _ _ _ removed =>
    exact shown.update _ (by simp [flowEngine]; rfl) (silent_one (by simp))
      fun side price apart => removed.level_other sound.rep (sameLevel front side price apart)
  | decrementAll _ front _ _ _ _ removed =>
    exact shown.update [] (by simp [flowEngine]) (fun _ => rfl)
      fun side price apart => removed.level_other sound.rep (sameLevel front side price apart)
  | decrementPart _ front _ _ _ taken =>
    exact shown.update [] (by simp [flowEngine]) (fun _ => rfl)
      fun side price apart => taken.level_other sound.rep (sameLevel front side price apart)
  | fillPart _ front _ _ taken =>
    exact shown.update _ (by simp [flowEngine]; rfl) (silent_one (by simp))
      fun side price apart => taken.level_other sound.rep (sameLevel front side price apart)
  | fillAll _ front _ _ _ taken _ removed =>
    rename_i price index maker book arena book' arena' left live apart whole depth
    -- The total is reported after the fill; removing the spent maker does not change it.
    have filled : Shown feed ((((sweep.engine.withBook book arena).emit
        (.fill maker.id taker.id price maker.remaining 0
          (sweep.remaining - maker.remaining))).traded price).emitLevel maker.side price) :=
      shown.update _ (by simp; rfl) (silent_one (by simp))
        fun side price apart => taken.level_other sound.rep (sameLevel front side price apart)
    have spent : (maker.fill maker.remaining).unlinked.remaining = 0 := by
      have less := (Order.fill_sound (front.sound sound.rep) (UInt64.le_refl maker.remaining)).2
      rw [Order.unlinked_remaining, less, sub_eq_zero_of_le (UInt64.le_refl _)]
    exact filled.quiet [] (by simp [flowEngine]) (fun _ => rfl)
      fun side price => removed.total_of_spent taken.represents spent

/-- The quantity that an insertion reports will be the total of its level: the level totals zero
before the book takes the order, or just that quantity when the book refuses it. -/
def ReportsTotal (engine : MatchingEngine config) (order : NewOrder) (qty : UInt64) : Prop :=
  engine.book.getLevelQty order.side order.price =
    if engine.book.lookup order.id = none ∧ engine.arena.freeHead ≠ freeListEnd then 0 else qty

/-- Every insertion of a call reports the total of its level. -/
def ReportsTotals (engine : MatchingEngine config) (command : Command) : Prop :=
  ∀ site order qty, RestsAt engine command site order qty → ReportsTotal site order qty

/-- Resting an order that reports the total of its level keeps the feed right. -/
theorem Rested.shown {order : NewOrder} {qty : UInt64} (sound : engine.Sound queues)
    (rested : Rested engine queues order qty engine') (total : ReportsTotal engine order qty)
    (shown : Shown feed engine) : Shown feed engine' := by
  unfold ReportsTotal at total
  cases rested with
  | refused why =>
    have refused : ¬(engine.book.lookup order.id = none ∧
        engine.arena.freeHead ≠ freeListEnd) := fun taken =>
      why.elim (fun resting => resting taken.1) taken.2
    rw [if_neg refused] at total
    have appended : (engine.emit (.bookUpdate order.side order.price qty)).bodies =
        engine.bodies ++ [] ++ [.bookUpdate order.side order.price
          ((engine.emit (.bookUpdate order.side order.price qty)).book.getLevelQty order.side
            order.price)] := by
      rw [emit_book, total]
      simp
    exact shown.update [] appended (fun _ => rfl) fun _ _ _ => rfl
  | inserted room inserted =>
    rw [if_pos ⟨inserted.unused, room⟩] at total
    have whole : (order.resting qty).remaining = qty := by
      simp [NewOrder.resting, Order.submitted, Order.remaining, saturatingSub]
    have now := inserted.total sound.rep
    rw [whole] at now
    refine shown.update [] ?_ (fun _ => rfl) fun side price apart =>
      inserted.level_other sound.rep apart
    have level := now.trans (show _ + qty = qty by
      rw [show engine.book.getLevelQty (order.resting qty).side (order.resting qty).price = 0 from
        total, UInt64.zero_add])
    simp only [emit_bodies, withBook_bodies, List.append_nil, emit_book, withBook_book]
    rw [← level]
    rfl

/-- A call whose insertions report the totals of their levels keeps the feed right. -/
theorem shown_kept (totals : ReportsTotals engine command) :
    Kept engine command fun state => (∃ queues, state.Sound queues) ∧ Shown feed state where
  cancels id after asked := by
    rintro ⟨⟨queues, sound⟩, shown⟩ returned
    refine ⟨(sound_kept engine command).cancels id after asked ⟨queues, sound⟩ returned, ?_⟩
    cases processCancel_cases sound returned with
    | missing => exact shown.quiet _ (by simp; rfl) (silent_one (by simp)) fun _ _ => rfl
    | removed _ _ _ removed =>
      exact shown.update _ (by simp; rfl) (silent_one (by simp))
        fun side price apart => removed.level_other sound.rep apart
  withdraws id newPrice newQty index site order asked := by
    rintro ⟨⟨queues, sound⟩, shown⟩ held withdrawn
    refine ⟨(sound_kept engine command).withdraws id newPrice newQty index site order asked
      ⟨queues, sound⟩ held withdrawn, ?_⟩
    cases withdraw_cases sound held withdrawn with
    | removed _ removed =>
      exact shown.update _ (by simp; rfl) (silent_one (by simp))
        fun side price apart => removed.level_other sound.rep apart
  misses id _ _ _ := by
    rintro ⟨⟨queues, sound⟩, shown⟩
    exact ⟨⟨queues, sound.congr rfl rfl⟩,
      shown.quiet _ (by simp; rfl) (silent_one (by simp)) fun _ _ => rfl⟩
  fires start before site order _ fired := by
    rintro ⟨⟨queues, sound⟩, shown⟩
    refine ⟨⟨queues, sound.congr fired.kept.1 fired.kept.2⟩, ?_⟩
    exact shown.quiet _ fired.bodies_eq (silent_one (by simp)) fun _ _ => by rw [fired.kept.1]
  handles site order after submits := by
    rintro ⟨⟨queues, sound⟩, shown⟩ returned
    have handled := processNewOrder_cases sound returned
    refine ⟨handled.sound sound, ?_⟩
    have accepted : Shown feed (site.accept order) :=
      shown.quiet _ (by simp; rfl) (silent_one (by simp)) fun _ _ => rfl
    cases handled with
    | rejected => exact shown.quiet _ (by simp; rfl) (silent_one (by simp)) fun _ _ => rfl
    | parked _ _ book _ bodies =>
      exact accepted.quiet [] (by simp [bodies]) (fun _ => rfl) fun _ _ => by rw [book]; rfl
    | posted kind apart rested =>
      exact rested.shown (sound.accept order) (totals _ _ _ (.posted submits kind apart)) accepted
    | matched kind checks swept sound' settled =>
      obtain ⟨-, -, -, -, -, -, shown'⟩ := sweep_keeps (fun state => Shown feed state)
        (fun _ _ _ _ held before _ iteration => iteration.shown held before)
        rfl (sound.accept order) accepted swept
      cases settled with
      | prevented => exact shown'.quiet _ (by simp; rfl) (silent_one (by simp)) fun _ _ => rfl
      | filled => exact shown'
      | rested free left keeps rested =>
        exact rested.shown sound'
          (totals _ _ _ (.remainder submits kind checks swept free left keeps)) shown'
      | dropped => exact shown'.quiet _ (by simp; rfl) (silent_one (by simp)) fun _ _ => rfl

/-! ## Runs -/

/-- A call of the engine, whose events the reader takes up. -/
def feedStep (state : MatchingEngine config × Feed) (command : Command) :
    Except Fault (MatchingEngine config × Feed) := do
  let after ← state.1.process command
  return (after, state.2.applyAll after.bodies)

/-- The engines with their readers reached from a new engine and an empty feed by completed calls
that meet a condition. -/
def FeedReaches (config : InstrumentConfig) (allowed : MatchingEngine config → Command → Prop) :
    MatchingEngine config × Feed → Prop :=
  Reached (fun state => ∃ capacity, state = (new config capacity, fun _ _ => 0)) feedStep
    fun state command => allowed state.1 command

/-- After every call of a run whose insertions report the totals of their levels, the feed shows
the total of every level. -/
theorem feed_exact_unless_misreported (config : InstrumentConfig)
    (state : MatchingEngine config × Feed) (reached : FeedReaches config ReportsTotals state)
    (side : Side) (price : UInt64) : state.2 side price = state.1.book.getLevelQty side price := by
  have both : (∃ queues, state.1.Sound queues) ∧
      ∀ side price, state.2 side price = state.1.book.getLevelQty side price := by
    refine Reached.invariant ?_ ?_ reached
    · rintro state ⟨capacity, rfl⟩
      refine ⟨⟨_, sound_new config capacity⟩, fun side price => ?_⟩
      rw [OrderBook.getLevelQty, (sound_new config capacity).rep.levels]
      rfl
    · rintro ⟨engine, feed⟩ command following ⟨⟨queues, sound⟩, exact⟩ totals completed
      unfold feedStep at completed
      cases called : engine.process command with
      | error fault =>
        rw [called] at completed
        contradiction
      | ok after =>
        rw [called] at completed
        obtain rfl := Except.ok.inj completed
        exact (shown_kept totals).returns ⟨⟨queues, sound.congr rfl rfl⟩, exact⟩ called
  exact both.2 side price

/-- A command that submits its own order and no stop, where the order is post-only and reports the
total of its level or rests no remainder. -/
def loneReport (engine : MatchingEngine config) (command : Command) : Bool :=
  engine.lone command && match command with
    | .newOrder _ order =>
      if order.orderType = .postOnly then
        engine.book.getLevelQty order.side order.price == 0 &&
          ((engine.book.lookup order.id).isNone && engine.arena.freeHead != freeListEnd)
      else decide ¬order.Keeps
    | _ => false

/-- Such a command reports the total of every level it inserts into. -/
theorem reportsTotals_of_loneReport (passes : loneReport engine command = true) :
    ReportsTotals engine command := by
  unfold loneReport at passes
  rw [Bool.and_eq_true] at passes
  intro site order qty rests
  cases rests with
  | posted submits kind apart =>
    obtain ⟨rfl, instrumentId, rfl⟩ := submits.of_lone passes.1
    have reports := passes.2
    simp only [kind, if_true, Bool.and_eq_true, beq_iff_eq, Option.isNone_iff_eq_none,
      bne_iff_ne] at reports
    have fits : engine.clearEvents.book.lookup order.id = none ∧
        engine.clearEvents.arena.freeHead ≠ freeListEnd := reports.2
    exact reports.1.trans (if_pos fits).symm
  | remainder submits kind checked swept free left keeps =>
    obtain ⟨rfl, instrumentId, rfl⟩ := submits.of_lone passes.1
    have drops := passes.2
    simp only [kind.1, if_false, decide_eq_true_eq] at drops
    exact absurd keeps drops

/-- After an ask is filled in part the feed shows what is left at its price. -/
theorem feed_exact_after_fill :
    ∃ state : MatchingEngine (smallConfig .cancelNewest) × Feed,
      state.2 .ask 2 = state.1.book.getLevelQty .ask 2 ∧ (state.2 .ask 2 == 6) = true := by
  obtain ⟨state, reached, shown⟩ : ∃ state,
      FeedReaches (smallConfig .cancelNewest) ReportsTotals state ∧
        (state.2 .ask 2 == 6) = true :=
    Reached.exists_checkedRun (fun state command => loneReport state.1 command) _
      (fun _ _ => reportsTotals_of_loneReport) ⟨8, rfl⟩
      [.submit { NewOrder.gtc 1 .ask 2 10 with orderType := .postOnly },
        .submit { NewOrder.gtc 2 .bid 2 4 with timeInForce := .ioc }] (by decide +kernel)
  exact ⟨state, feed_exact_unless_misreported _ state reached .ask 2, shown⟩

/-- Of two asks of 10 at price 2 the second one is reported as a total of 10. -/
theorem feed_wrong_after_second_order :
    ¬∀ state : MatchingEngine (smallConfig .cancelNewest) × Feed,
      FeedReaches (smallConfig .cancelNewest) (fun _ _ => True) state →
      ∀ side price, state.2 side price = state.1.book.getLevelQty side price := by
  intro always
  obtain ⟨state, reached, shown⟩ : ∃ state,
      FeedReaches (smallConfig .cancelNewest) (fun _ _ => True) state ∧
        (state.2 .ask 2 == 10 && state.1.book.getLevelQty .ask 2 == 20) = true :=
    Reached.exists_checkedRun (fun _ _ => true) _ (fun _ _ _ => trivial) ⟨8, rfl⟩
      [.submit (.gtc 1 .ask 2 10), .submit (.gtc 2 .ask 2 10)] (by decide +kernel)
  rw [Bool.and_eq_true, beq_iff_eq, beq_iff_eq] at shown
  have same := always state reached .ask 2
  rw [shown.1, shown.2] at same
  exact absurd same (by decide)

end MatchingEngine

end MatchX
