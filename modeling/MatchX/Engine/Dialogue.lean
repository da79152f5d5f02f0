import MatchX.Engine.Outcome
import MatchX.Engine.Stops
import MatchX.Engine.Termination

/-!
# The events of a call as a dialogue

The events of a call come in an order that a reader can rely on. First comes the answer to the
command. An accepted order then trades: each fill names it as the taker, at a price that it accepts,
and leaves of it what was left less the quantity of the fill; each fill and each cancelled maker is
followed by an update of a level. Then what is left of the order is reported as resting or as
cancelled, and each stop that is triggered after it is answered and handled in the same way. The
reader is an automaton that knows the mode of self-trade prevention and what may come next, and
every call of a reachable engine takes it to its end.
-/

namespace MatchX

open MatchX.Support

/-- An accepted order that trades, as the reader knows it. -/
structure OpenOrder where
  /-- The id. -/
  id : OrderId
  /-- The side. -/
  side : Side
  /-- The limit price, none for a market order. -/
  limit : Option UInt64
  /-- What is left of it. -/
  remaining : UInt64
  deriving DecidableEq, Repr

/-- Whether the order may trade at a price. -/
def OpenOrder.accepts (order : OpenOrder) (price : UInt64) : Bool :=
  order.limit.all fun limit => isPriceAcceptable order.side limit price

/-- What the reader knows of an order before it is answered. -/
structure Terms where
  /-- The side. -/
  side : Option Side
  /-- The price. -/
  price : Option UInt64
  /-- The quantity. -/
  qty : Option UInt64
  /-- The type. -/
  orderType : OrderType
  deriving DecidableEq, Repr

/-- Whether an acceptance agrees with what is known of the order. -/
def Terms.fit (terms : Terms) (side : Side) (price qty : UInt64) (orderType : OrderType) : Bool :=
  terms.side.all (· = side) && terms.price.all (· = price) && terms.qty.all (· = qty) &&
    terms.orderType = orderType

/-- What the reader of the events of a call expects next. -/
inductive Reading where
  /-- The answer to a new order, to a replaced one, or to that of a triggered stop. -/
  | asked (id : OrderId) (terms : Terms)
  /-- The answer to a cancel. -/
  | cancelling (id : OrderId)
  /-- The answer to a modification. -/
  | modifying (id : OrderId) (newPrice newQty : UInt64)
  /-- The update of the level that an order was removed from. -/
  | withdrawn
  /-- The update of the level that an order was removed from to be replaced. -/
  | replacing (id : OrderId) (newPrice newQty : UInt64)
  /-- The update of the level of a post-only order. -/
  | posted (side : Side) (price qty : UInt64)
  /-- The next trade of an order, or what becomes of the rest of it. -/
  | opened (order : OpenOrder)
  /-- The update of the level that an order has traded with. -/
  | traded (price : UInt64) (order : OpenOrder)
  /-- The update of the level of a maker that was cancelled for an order. -/
  | prevented (order : OpenOrder)
  /-- The update of the level of a maker that was cancelled together with an order. -/
  | preventedBoth (order : OpenOrder)
  /-- The cancellation of an order together with a maker. -/
  | stopped (order : OpenOrder)
  /-- The cancellation of an order that was decremented. -/
  | decremented (order : OpenOrder)
  /-- A triggered stop, or nothing. -/
  | idle
  deriving DecidableEq, Repr

namespace Reading

/-- What the reader expects of a command. -/
def begins : Command → Reading
  | .newOrder _ order =>
    .asked order.id ⟨some order.side, some order.price, some order.qty, order.orderType⟩
  | .cancelOrder id => .cancelling id
  | .modifyOrder id newPrice newQty => .modifying id newPrice newQty

/-- What the reader expects after a stop was triggered. -/
def triggered (id : OrderId) : Reading := .asked id ⟨none, none, none, .limit⟩

/-- What the reader expects after an order was accepted. -/
def accepted (id : OrderId) (side : Side) (price qty : UInt64) : OrderType → Reading
  | .postOnly => .posted side price qty
  | .stopLimit => .idle
  | .market => .opened ⟨id, side, none, qty⟩
  | .limit | .iceberg => .opened ⟨id, side, some price, qty⟩

/-- What the reader expects after an event, unless the event is out of place. -/
def read (mode : StpMode) : Reading → EventBody → Option Reading
  | .asked id terms, .orderAccepted id' side price qty orderType =>
    if id' = id ∧ terms.fit side price qty orderType = true then
      some (accepted id side price qty orderType)
    else none
  | .asked id _, .orderRejected id' _ => if id' = id then some .idle else none
  | .cancelling id, .orderRejected id' reason =>
    if id' = id ∧ reason = .orderNotFound then some .idle else none
  | .cancelling id, .orderCancelled id' _ => if id' = id then some .withdrawn else none
  | .modifying id _ _, .orderRejected id' reason =>
    if id' = id ∧ reason = .orderNotFound then some .idle else none
  | .modifying id newPrice newQty, .orderModified id' newPrice' newQty' =>
    if id' = id ∧ newPrice' = newPrice ∧ newQty' = newQty then
      some (.replacing id newPrice newQty)
    else none
  | .withdrawn, .bookUpdate _ _ _ => some .idle
  | .replacing id newPrice newQty, .bookUpdate side _ _ =>
    some (.asked id ⟨some side, some newPrice, some newQty, .limit⟩)
  | .posted side price qty, .bookUpdate side' price' qty' =>
    if side' = side ∧ price' = price ∧ qty' = qty then some .idle else none
  | .opened order, .fill makerId takerId price qty _ takerLeft =>
    if takerId = order.id ∧ makerId ≠ order.id ∧ order.accepts price = true ∧ qty ≠ 0 ∧
        qty ≤ order.remaining ∧ takerLeft = order.remaining - qty then
      some (.traded price { order with remaining := takerLeft })
    else none
  | .opened order, .orderCancelled id left =>
    if order.remaining = 0 then none
    else if id = order.id then if left = order.remaining then some .idle else none
    else if mode = .cancelOldest then some (.prevented order)
    else if mode = .cancelBoth then some (.preventedBoth order)
    else none
  | .opened order, .bookUpdate side price qty =>
    if order.remaining = 0 then none
    else if side = order.side then
      if order.limit = some price ∧ qty = order.remaining then some .idle else none
    else if mode = .decrementAndCancel ∧ order.accepts price = true then some (.decremented order)
    else none
  | .opened order, .stopTriggered stopId newId =>
    if order.remaining = 0 ∧ newId = stopId then some (triggered newId) else none
  | .traded price order, .bookUpdate side price' _ =>
    if side = order.side.opposite ∧ price' = price then some (.opened order) else none
  | .prevented order, .bookUpdate side price _ =>
    if side = order.side.opposite ∧ order.accepts price = true then some (.opened order) else none
  | .preventedBoth order, .bookUpdate side price _ =>
    if side = order.side.opposite ∧ order.accepts price = true then some (.stopped order) else none
  | .stopped order, .orderCancelled id left =>
    if id = order.id ∧ left = order.remaining then some .idle else none
  | .decremented order, .orderCancelled id left =>
    if id = order.id ∧ left < order.remaining then some .idle else none
  | .idle, .stopTriggered stopId newId => if newId = stopId then some (triggered newId) else none
  | _, _ => none

/-- Read events in order. -/
def readAll (mode : StpMode) (reading : Reading) (bodies : List EventBody) : Option Reading :=
  bodies.foldlM (read mode) reading

/-- The events may end here. -/
def Ended : Reading → Prop
  | .idle => True
  | .opened order => order.remaining = 0
  | _ => False

/-- Read one event more. -/
theorem readAll_snoc (mode : StpMode) (reading : Reading) (bodies : List EventBody)
    (body : EventBody) : reading.readAll mode (bodies ++ [body]) =
      (reading.readAll mode bodies).bind fun later => later.read mode body := by
  simp [readAll, List.foldlM_append]

end Reading

namespace MatchingEngine

variable {config : InstrumentConfig} {engine engine' site : MatchingEngine config}
  {queues : Queues} {sweep : Sweep config} {flow : Flow (Sweep config) (SweepResult config)}
  {command : Command} {order : NewOrder} {qty : UInt64} {reading following : Reading}
  {maker : Order} {price : UInt64} {index : ArenaIndex} {body : EventBody} {start : Reading}

/-- With the events of the call so far the reader is here. -/
def ReadsTo (start : Reading) (engine : MatchingEngine config) (reading : Reading) : Prop :=
  start.readAll config.stpMode engine.bodies = some reading

/-- The reader reads an event. -/
theorem ReadsTo.emit (reads : ReadsTo start engine reading)
    (next : reading.read config.stpMode body = some following)
    (appended : engine'.bodies = engine.bodies ++ [body]) : ReadsTo start engine' following := by
  have before : start.readAll config.stpMode engine.bodies = some reading := reads
  rw [ReadsTo, appended, Reading.readAll_snoc, before]
  exact next

/-! ## Sweeps -/

/-- An order that is matched, as the reader knows it. -/
def openOrder (order : NewOrder) (remaining : UInt64) : OpenOrder :=
  ⟨order.id, order.side, if order.orderType = .market then none else some order.price, remaining⟩

/-- A matched order that was accepted trades. -/
theorem accepted_matched (kind : order.Matched) (qty : UInt64) :
    Reading.accepted order.id order.side order.price qty order.orderType =
      .opened (openOrder order qty) := by
  unfold openOrder
  cases type : order.orderType with
  | postOnly => exact absurd type kind.1
  | stopLimit => exact absurd type kind.2
  | limit | market | iceberg => rfl

/-- The reader sees that a price is acceptable. -/
theorem openOrder_accepts (acceptable : isPriceAcceptable (takerOf order).side (takerOf order).price
    price = true) (remaining : UInt64) : (openOrder order remaining).accepts price = true := by
  unfold OpenOrder.accepts openOrder
  by_cases market : order.orderType = .market
  · rw [if_pos market]
    rfl
  · have limit : (takerOf order).price = order.price := by
      cases type : order.orderType with
      | market => exact absurd type market
      | limit | postOnly | stopLimit | iceberg => simp [takerOf, effectivePrice, type]
    rw [limit] at acceptable
    rw [if_neg market]
    exact acceptable

/-- The reader reads two events. -/
theorem ReadsTo.emits {body' : EventBody} {later : Reading} (reads : ReadsTo start engine reading)
    (next : reading.read config.stpMode body = some following)
    (then_ : following.read config.stpMode body' = some later)
    (appended : engine'.bodies = engine.bodies ++ [body] ++ [body']) :
    ReadsTo start engine' later := by
  have before : start.readAll config.stpMode engine.bodies = some reading := reads
  rw [ReadsTo, appended, Reading.readAll_snoc, Reading.readAll_snoc, before, Option.bind_some, next]
  exact then_

/-- The reader follows a fill and the update of its level. -/
theorem ReadsTo.filled {delta makerLeft total remaining : UInt64}
    (reads : ReadsTo start engine (.opened (openOrder order remaining))) (proper : delta ≠ 0)
    (within : delta ≤ remaining) (other : maker.id ≠ order.id)
    (acceptable : isPriceAcceptable (takerOf order).side (takerOf order).price price = true)
    (appended : engine'.bodies = engine.bodies ++
      [.fill maker.id order.id price delta makerLeft (remaining - delta)] ++
      [.bookUpdate order.side.opposite price total]) :
    ReadsTo start engine' (.opened (openOrder order (remaining - delta))) := by
  have accepts := openOrder_accepts acceptable remaining
  have reported : (Reading.opened (openOrder order remaining)).read config.stpMode
      (.fill maker.id order.id price delta makerLeft (remaining - delta)) =
        some (.traded price (openOrder order (remaining - delta))) := by
    rw [Reading.read, if_pos ⟨rfl, other, accepts, proper, within, rfl⟩]
    rfl
  have updated : (Reading.traded price (openOrder order (remaining - delta))).read config.stpMode
      (.bookUpdate order.side.opposite price total) =
        some (.opened (openOrder order (remaining - delta))) := by
    rw [Reading.read]
    exact if_pos ⟨rfl, rfl⟩
  exact reads.emits reported updated appended

/-- The reader follows the cancellation of a maker and the update of its level. -/
theorem ReadsTo.prevented {left total remaining : UInt64}
    (reads : ReadsTo start engine (.opened (openOrder order remaining))) (live : remaining ≠ 0)
    (other : maker.id ≠ order.id) (mode : config.stpMode = .cancelOldest)
    (acceptable : isPriceAcceptable (takerOf order).side (takerOf order).price price = true)
    (appended : engine'.bodies = engine.bodies ++ [.orderCancelled maker.id left] ++
      [.bookUpdate order.side.opposite price total]) :
    ReadsTo start engine' (.opened (openOrder order remaining)) := by
  have accepts := openOrder_accepts acceptable remaining
  have apart : maker.id ≠ (openOrder order remaining).id := other
  have open_ : (openOrder order remaining).remaining ≠ 0 := live
  have reported : (Reading.opened (openOrder order remaining)).read config.stpMode
      (.orderCancelled maker.id left) = some (.prevented (openOrder order remaining)) := by
    rw [Reading.read, if_neg open_, if_neg apart, if_pos mode]
  have updated : (Reading.prevented (openOrder order remaining)).read config.stpMode
      (.bookUpdate order.side.opposite price total) =
        some (.opened (openOrder order remaining)) := by
    rw [Reading.read]
    exact if_pos ⟨rfl, accepts⟩
  exact reads.emits reported updated appended

/-- The reader follows the cancellation of a maker that stops the order. -/
theorem ReadsTo.preventedBoth {left total remaining : UInt64}
    (reads : ReadsTo start engine (.opened (openOrder order remaining))) (live : remaining ≠ 0)
    (other : maker.id ≠ order.id) (mode : config.stpMode = .cancelBoth)
    (acceptable : isPriceAcceptable (takerOf order).side (takerOf order).price price = true)
    (appended : engine'.bodies = engine.bodies ++ [.orderCancelled maker.id left] ++
      [.bookUpdate order.side.opposite price total]) :
    ReadsTo start engine' (.stopped (openOrder order remaining)) := by
  have accepts := openOrder_accepts acceptable remaining
  have apart : maker.id ≠ (openOrder order remaining).id := other
  have open_ : (openOrder order remaining).remaining ≠ 0 := live
  have both : config.stpMode ≠ .cancelOldest := by
    rw [mode]
    decide
  have reported : (Reading.opened (openOrder order remaining)).read config.stpMode
      (.orderCancelled maker.id left) = some (.preventedBoth (openOrder order remaining)) := by
    rw [Reading.read, if_neg open_, if_neg apart, if_neg both, if_pos mode]
  have updated : (Reading.preventedBoth (openOrder order remaining)).read config.stpMode
      (.bookUpdate order.side.opposite price total) =
        some (.stopped (openOrder order remaining)) := by
    rw [Reading.read]
    exact if_pos ⟨rfl, accepts⟩
  exact reads.emits reported updated appended

/-- The reader notices that an order is decremented. -/
theorem ReadsTo.decremented {total remaining : UInt64}
    (reads : ReadsTo start engine (.opened (openOrder order remaining))) (live : remaining ≠ 0)
    (mode : config.stpMode = .decrementAndCancel)
    (acceptable : isPriceAcceptable (takerOf order).side (takerOf order).price price = true)
    (appended : engine'.bodies = engine.bodies ++ [.bookUpdate order.side.opposite price total]) :
    ReadsTo start engine' (.decremented (openOrder order remaining)) := by
  have accepts := openOrder_accepts acceptable remaining
  have open_ : (openOrder order remaining).remaining ≠ 0 := live
  have across : order.side.opposite ≠ (openOrder order remaining).side := by
    change order.side.opposite ≠ order.side
    cases order.side <;> decide
  refine reads.emit ?_ appended
  rw [Reading.read, if_neg open_, if_neg across, if_pos ⟨mode, accepts⟩]

/-- After an iteration of a sweep the reader follows the order that trades, unless self-trade
prevention has stopped or decremented it. -/
def SweepReadsTo (start : Reading) (order : NewOrder) :
    Flow (Sweep config) (SweepResult config) → Prop
  | .next later => ReadsTo start later.engine (.opened (openOrder order later.remaining))
  | .done result => result.cancelIncoming = false ∧
        ReadsTo start result.engine (.opened (openOrder order result.remaining)) ∨
      result.cancelIncoming = true ∧
        (ReadsTo start result.engine (.stopped (openOrder order result.remaining)) ∨
          ∃ before, result.remaining < before ∧
            ReadsTo start result.engine (.decremented (openOrder order before)))

/-- An iteration of a sweep reports what the reader expects. -/
theorem Iteration.readsTo (sound : sweep.engine.Sound queues)
    (unused : sweep.engine.book.lookup order.id = none)
    (reads : ReadsTo start sweep.engine (.opened (openOrder order sweep.remaining)))
    (iteration : Iteration (takerOf order) queues sweep flow) : SweepReadsTo start order flow := by
  have other : ∀ {index : ArenaIndex} {maker : Order},
      sweep.engine.arena.find index = some maker → maker.id ≠ order.id := by
    intro index maker found
    have apart := sound.rep.lookup_none unused (Arena.resting_of_find found)
    rw [Order.unlinked_id] at apart
    exact apart
  cases iteration with
  | exhausted | unmatched | newest => exact .inl ⟨rfl, reads⟩
  | stale => exact reads
  | oldest left front _ _ mode removed =>
    apply reads.prevented left (other front.found) mode front.acceptable
    rw [emitLevel_bodies, emit_bodies, withBook_bodies, front.onSide]
    rfl
  | both left front _ _ mode removed =>
    refine .inr ⟨rfl, .inl ?_⟩
    apply reads.preventedBoth left (other front.found) mode front.acceptable
    rw [emitLevel_bodies, emit_bodies, withBook_bodies, front.onSide]
    rfl
  | decrementAll left front live group mode whole =>
    refine .inr ⟨rfl, .inr ⟨sweep.remaining, sub_lt_of_pos whole live, ?_⟩⟩
    apply reads.decremented left mode front.acceptable
    rw [emitLevel_bodies, withBook_bodies, front.onSide]
    rfl
  | decrementPart left front group mode =>
    refine .inr ⟨rfl, .inr ⟨sweep.remaining, sub_lt_of_pos (UInt64.le_refl _) left, ?_⟩⟩
    apply reads.decremented left mode front.acceptable
    rw [emitLevel_bodies, withBook_bodies, front.onSide]
    rfl
  | @fillPart price index maker book arena left front apart part taken =>
    have live : maker.remaining ≠ 0 := by
      intro spent
      rw [spent] at part
      exact UInt64.not_lt_zero part
    have proper : min sweep.remaining maker.matchableQty ≠ 0 := by
      rw [Std.min_eq_if]
      split
      · exact left
      · exact Order.matchableQty_ne_zero live
    apply reads.filled proper Std.min_le_left (other front.found) front.acceptable
    rw [emitLevel_bodies, traded_bodies, emit_bodies, withBook_bodies, front.onSide]
    rfl
  | @fillAll price index maker book arena book' arena' left front live apart whole taken =>
    have within : maker.remaining ≤ sweep.remaining := whole ▸ Std.min_le_left
    apply reads.filled live within (other front.found) front.acceptable
    rw [withBook_bodies, emitLevel_bodies, traded_bodies, emit_bodies, withBook_bodies,
      front.onSide]
    rfl

/-- The reader follows a sweep to its end. -/
theorem swept_readsTo {result : SweepResult config} (sound : engine.Sound queues)
    (unused : engine.book.lookup order.id = none)
    (reads : ReadsTo start engine (.opened (openOrder order qty)))
    (swept : engine.matchAgainstBook (takerOf order) qty = .ok result) :
    SweepReadsTo start order (.done result) := by
  obtain ⟨last, visits, exit⟩ := loop_exit swept
  have here : (∃ queues, last.engine.Sound queues) ∧ last.engine.book.lookup order.id = none ∧
      ReadsTo start last.engine (.opened (openOrder order last.remaining)) := by
    clear exit
    induction visits with
    | refl => exact ⟨⟨queues, sound⟩, unused, reads⟩
    | tail _ returned ih =>
      obtain ⟨⟨queues', sound'⟩, unused', reads'⟩ := ih
      have iteration := matchStep_cases sound' returned
      obtain ⟨queues'', sound''⟩ := iteration.sound sound'
      refine ⟨⟨queues'', sound''⟩, ?_, iteration.readsTo sound' unused' reads'⟩
      exact lookup_none_of_shrinks sound' sound'' (iteration.shrinks sound') unused'
  obtain ⟨⟨queues', sound'⟩, unused', reads'⟩ := here
  exact (matchStep_cases sound' exit).readsTo sound' unused' reads'

/-! ## Orders -/

/-- The reader follows the cancellation of what is left of an order. -/
theorem ReadsTo.dropped {remaining : UInt64}
    (reads : ReadsTo start engine (.opened (openOrder order remaining))) (left : remaining ≠ 0) :
    ReadsTo start (engine.emit (.orderCancelled order.id remaining)) .idle := by
  have open_ : (openOrder order remaining).remaining ≠ 0 := left
  have own : order.id = (openOrder order remaining).id := rfl
  have all : remaining = (openOrder order remaining).remaining := rfl
  refine reads.emit ?_ (emit_bodies _ _)
  rw [Reading.read, if_neg open_, if_pos own, if_pos all]

/-- The reader follows what is left of an order to its level. -/
theorem ReadsTo.rested {remaining : UInt64}
    (reads : ReadsTo start engine (.opened (openOrder order remaining))) (left : remaining ≠ 0)
    (keeps : order.Keeps) (rested : Rested engine queues order remaining engine') :
    ReadsTo start engine' .idle := by
  have open_ : (openOrder order remaining).remaining ≠ 0 := left
  have own : order.side = (openOrder order remaining).side := rfl
  have limit : (openOrder order remaining).limit = some order.price := by
    refine if_neg ?_
    rcases keeps.2 with kind | kind <;> simp [kind]
  refine reads.emit ?_ rested.bodies_eq
  rw [Reading.read, if_neg open_, if_pos own, if_pos ⟨limit, rfl⟩]

/-- The reader follows what becomes of the rest of an order. -/
theorem Settled.readsTo {result : SweepResult config}
    (sweeps : SweepReadsTo start order (.done result))
    (settled : Settled result queues order engine') :
    ∃ reading, ReadsTo start engine' reading ∧ reading.Ended := by
  have trades : result.cancelIncoming = false →
      ReadsTo start result.engine (.opened (openOrder order result.remaining)) := by
    intro free
    rcases sweeps with ⟨-, reads⟩ | ⟨stopped, -⟩
    · exact reads
    · rw [free] at stopped
      contradiction
  cases settled with
  | prevented stopped =>
    refine ⟨.idle, ?_, trivial⟩
    rcases sweeps with ⟨free, -⟩ | ⟨-, reads | ⟨before, less, reads⟩⟩
    · rw [free] at stopped
      contradiction
    · refine reads.emit ?_ (emit_bodies _ _)
      rw [Reading.read]
      exact if_pos ⟨rfl, rfl⟩
    · refine reads.emit ?_ (emit_bodies _ _)
      rw [Reading.read]
      exact if_pos ⟨rfl, less⟩
  | filled free nothing => exact ⟨_, trades free, nothing⟩
  | rested free left keeps rested => exact ⟨.idle, (trades free).rested left keeps rested, trivial⟩
  | dropped free left drops => exact ⟨.idle, (trades free).dropped left, trivial⟩

/-- The reader follows an order from its answer to its end. -/
theorem Handled.readsTo {terms : Terms} (handled : Handled engine queues order engine')
    (sound : engine.Sound queues) (reads : ReadsTo start engine (.asked order.id terms))
    (fit : terms.fit order.side order.price order.qty order.orderType = true) :
    ∃ reading, ReadsTo start engine' reading ∧ reading.Ended := by
  have accepted : ReadsTo start (engine.accept order)
      (.accepted order.id order.side order.price order.qty order.orderType) := by
    refine reads.emit ?_ accept_bodies
    rw [Reading.read]
    exact if_pos ⟨rfl, fit⟩
  cases handled with
  | rejected reason =>
    refine ⟨.idle, reads.emit ?_ (emitRejected_bodies _ _ _), trivial⟩
    rw [Reading.read]
    exact if_pos rfl
  | parked kind stopped book arena bodies =>
    rw [kind] at accepted
    rw [ReadsTo, ← bodies] at accepted
    exact ⟨.idle, accepted, trivial⟩
  | posted kind apart rested =>
    have posted : ReadsTo start (engine.accept order)
        (.posted order.side order.price order.qty) := by
      rw [kind] at accepted
      exact accepted
    refine ⟨.idle, posted.emit ?_ rested.bodies_eq, trivial⟩
    rw [Reading.read]
    exact if_pos ⟨rfl, rfl, rfl⟩
  | matched kind checks swept sound' settled =>
    rw [accepted_matched kind] at accepted
    have unused := (refusal_none checks).2.1
    exact settled.readsTo (swept_readsTo (sound.accept order) unused accepted swept)

/-! ## Calls -/

/-- Between the parts of a call the reader has come to an end, and the engine is sound. -/
def Paused (start : Reading) (engine : MatchingEngine config) : Prop :=
  (∃ queues, engine.Sound queues) ∧ ∃ reading, ReadsTo start engine reading ∧ reading.Ended

/-- Before an order is handled the reader expects its answer, and the engine is sound. -/
def Asks (start : Reading) (engine : MatchingEngine config) (order : NewOrder) : Prop :=
  (∃ queues, engine.Sound queues) ∧ ∃ terms, ReadsTo start engine (.asked order.id terms) ∧
    terms.fit order.side order.price order.qty order.orderType = true

/-- Handling an order takes the reader to an end. -/
theorem Asks.handled (asks : Asks start engine order)
    (returned : engine.processNewOrder order = .ok engine') : Paused start engine' := by
  obtain ⟨⟨queues, sound⟩, terms, reads, fit⟩ := asks
  have handled := processNewOrder_cases sound returned
  exact ⟨handled.sound sound, handled.readsTo sound reads fit⟩

/-- When a stop is triggered the reader expects the answer to its order. -/
theorem Paused.fired {before site : MatchingEngine config} (paused : Paused start before)
    (fires : Fires engine before site order) : Asks start site order := by
  obtain ⟨⟨queues, sound⟩, reading, reads, ended⟩ := paused
  obtain ⟨side, stopPx, entry, rfl, popped⟩ := fires.popped
  refine ⟨⟨queues, sound.congr popped.book popped.arena⟩, ⟨none, none, none, .limit⟩,
    reads.emit ?_ popped.bodies, rfl⟩
  cases reading with
  | idle =>
    rw [Reading.read]
    exact if_pos rfl
  | opened last =>
    rw [Reading.read]
    exact if_pos ⟨ended, rfl⟩
  | asked | cancelling | modifying | withdrawn | replacing | posted | traded | prevented
    | preventedBoth | stopped | decremented => exact ended.elim

/-- A cancel takes the reader to an end. -/
theorem Cancelled.readsTo {id : OrderId} (cancelled : Cancelled engine queues id engine')
    (reads : ReadsTo start engine (.cancelling id)) : ReadsTo start engine' .idle := by
  cases cancelled with
  | missing absent =>
    refine reads.emit ?_ (emitRejected_bodies _ _ _)
    rw [Reading.read]
    exact if_pos ⟨rfl, rfl⟩
  | @removed index stored book arena held found named removed =>
    have reported : (Reading.cancelling id).read config.stpMode
        (.orderCancelled id stored.remaining) = some .withdrawn := by
      rw [Reading.read]
      exact if_pos rfl
    have appended := emitLevel_bodies
      ((engine.withBook book arena).emit (.orderCancelled id stored.remaining)) stored.side
      stored.price
    rw [emit_bodies, withBook_bodies] at appended
    refine reads.emits reported ?_ appended
    rfl

/-- The reader expects the answer to an order that replaces another one. -/
theorem Withdrawn.asks {id : OrderId} {newPrice newQty : UInt64} {site : MatchingEngine config}
    (withdrawn : Withdrawn engine queues index id newPrice newQty (site, order))
    (sound : ∃ queues, site.Sound queues)
    (reads : ReadsTo start engine (.modifying id newPrice newQty)) : Asks start site order := by
  cases withdrawn with
  | @removed stored book arena found removed =>
    have reported : (Reading.modifying id newPrice newQty).read config.stpMode
        (.orderModified id newPrice newQty) = some (.replacing id newPrice newQty) := by
      rw [Reading.read]
      exact if_pos ⟨rfl, rfl, rfl⟩
    refine ⟨sound, ⟨some stored.side, some newPrice, some newQty, .limit⟩, ?_, ?_⟩
    · have appended := emitLevel_bodies
        ((engine.withBook book arena).emit (.orderModified id newPrice newQty)) stored.side
        stored.price
      rw [emit_bodies, withBook_bodies] at appended
      refine reads.emits reported ?_ appended
      rfl
    · simp [Terms.fit, replacement]

/-- A command that is dispatched takes the reader to an end. -/
theorem dispatched_readsTo (sound : engine.Sound queues)
    (dispatched : engine.clearEvents.dispatch command = .ok engine') :
    Paused (Reading.begins command) engine' := by
  have clear : engine.clearEvents.Sound queues := sound.congr rfl rfl
  have begins : ReadsTo (Reading.begins command) engine.clearEvents (Reading.begins command) := rfl
  cases command with
  | newOrder instrumentId order =>
    have asks : Asks (Reading.begins (.newOrder instrumentId order)) engine.clearEvents order :=
      ⟨⟨queues, clear⟩, _, begins, by simp [Terms.fit]⟩
    exact asks.handled dispatched
  | cancelOrder id =>
    have sound' := (sound_kept engine (.cancelOrder id)).cancels id _ rfl ⟨queues, clear⟩ dispatched
    have reads := (processCancel_cases clear dispatched).readsTo begins
    exact ⟨sound', .idle, reads, trivial⟩
  | modifyOrder id newPrice newQty =>
    have kept := sound_kept engine (.modifyOrder id newPrice newQty)
    change engine.clearEvents.processModify id newPrice newQty = .ok engine' at dispatched
    unfold processModify at dispatched
    cases held : engine.clearEvents.book.lookup id with
    | none =>
      rw [held] at dispatched
      obtain rfl := Except.ok.inj dispatched
      refine ⟨kept.misses id newPrice newQty rfl ⟨queues, clear⟩, .idle, ?_, trivial⟩
      refine begins.emit ?_ (emitRejected_bodies _ _ _)
      rw [Reading.begins, Reading.read]
      exact if_pos ⟨rfl, rfl⟩
    | some index =>
      simp only [held, bind, Except.bind] at dispatched
      split at dispatched
      · contradiction
      · rename_i result withdrawn
        obtain ⟨site, order⟩ := result
        have sound' := kept.withdraws id newPrice newQty index site order rfl ⟨queues, clear⟩ held
          withdrawn
        have asks := (withdraw_cases clear held withdrawn).asks sound' begins
        exact asks.handled dispatched

/-- Every call reports its command, its trades and its stops in an order that a reader can follow
to the end. -/
theorem call_reads {after : MatchingEngine config} (reached : Reachable engine)
    (called : engine.process command = .ok after) :
    ∃ reading, (Reading.begins command).readAll config.stpMode after.bodies = some reading ∧
      reading.Ended := by
  obtain ⟨⟨⟨queues, sound⟩, -⟩, -⟩ := reached.stops
  obtain ⟨start, dispatched, drains, -⟩ := process_drained called
  have paused := dispatched_readsTo sound dispatched
  have ends : Paused (Reading.begins command) after :=
    drain_returns paused (fun before site order fires holds => holds.fired fires)
      (fun before site order after fires holds returned => holds.handled returned) drains
  exact ends.2

/-- A bid of 10 at 1 is moved to 2, where it trades 4 with an ask of 10 and triggers a stop to buy,
which trades the other 6 and rests: nine events and the update of its level. -/
theorem replacement_and_stop_read : ∃ engine after : MatchingEngine (smallConfig .cancelNewest),
    (∃ reading, (Reading.begins (.modifyOrder 2 2 4)).readAll .cancelNewest after.bodies =
      some reading ∧ reading.Ended) ∧ engine.process (.modifyOrder 2 2 4) = .ok after ∧
      after.bodies.length = 10 := by
  obtain ⟨engine, reachable, shown⟩ := Reachable.exists_run
    (fun engine : MatchingEngine (smallConfig .cancelNewest) =>
      (engine.process (.modifyOrder 2 2 4)).toOption.any fun after => after.bodies.length == 10) 8
    [.submit (.gtc 1 .ask 2 10), .submit (.gtc 2 .bid 1 10),
      .submit { NewOrder.gtc 7 .bid 3 9 with orderType := .stopLimit, stopPrice := some 2 }]
    (by decide +kernel)
  obtain ⟨after, completed, counted⟩ := (Option.any_eq_true _ _).mp shown
  have called := ok_of_toOption completed
  exact ⟨engine, after, call_reads reachable called, called, beq_iff_eq.mp counted⟩

end MatchingEngine

end MatchX
