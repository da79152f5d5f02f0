import MatchX.Engine.Reports

/-!
# The feed of resting orders

A reader of the events can keep every resting order with what remains of it: an accepted order is
there with its quantity, a fill leaves of both parties what it reports, and what is cancelled or
modified is gone. The reader is right after every call as long as the engine does nothing to an
order without an event: no sweep removes a maker of which nothing remains, self-trade prevention
decrements none, and the book takes every order that it is handed.
-/

namespace MatchX

open MatchX.Support

/-- What the reader knows of an order. -/
structure KnownOrder where
  /-- The side. -/
  side : Side
  /-- The price. -/
  price : UInt64
  /-- What remains. -/
  remaining : UInt64
  deriving DecidableEq, Repr

/-- What the reader can know of a resting order. -/
def Order.known (order : Order) : KnownOrder := ⟨order.side, order.price, order.remaining⟩

/-- The orders, as a reader of the events knows them. -/
abbrev OrderFeed := OrderId → Option KnownOrder

namespace OrderFeed

variable {feed : OrderFeed} {id other : OrderId} {entry entry' : Option KnownOrder}

/-- The feed with what is known of one id replaced. -/
def set (feed : OrderFeed) (id : OrderId) (entry : Option KnownOrder) : OrderFeed :=
  fun id' => if id' = id then entry else feed id'

/-- What remains of an order changes; an order of which nothing remains is gone. -/
def leave (feed : OrderFeed) (id : OrderId) (left : UInt64) : OrderFeed :=
  feed.set id
    (if left = 0 then none else (feed id).map fun known => { known with remaining := left })

/-- Take up one event. -/
def apply (feed : OrderFeed) : EventBody → OrderFeed
  | .orderAccepted id side price qty orderType =>
    if orderType = .stopLimit then feed else feed.set id (some ⟨side, price, qty⟩)
  | .fill makerId takerId _ _ makerLeft takerLeft =>
    (feed.leave takerId takerLeft).leave makerId makerLeft
  | .orderCancelled id _ | .orderModified id _ _ => feed.set id none
  | .orderRejected _ _ | .bookUpdate _ _ _ | .stopTriggered _ _ => feed

/-- Take up events in order. -/
def applyAll (feed : OrderFeed) (bodies : List EventBody) : OrderFeed := bodies.foldl apply feed

/-- Taking up events in a row. -/
theorem applyAll_append (feed : OrderFeed) (early late : List EventBody) :
    feed.applyAll (early ++ late) = (feed.applyAll early).applyAll late :=
  List.foldl_append

/-- Taking up one event more. -/
theorem applyAll_snoc (feed : OrderFeed) (bodies : List EventBody) (body : EventBody) :
    feed.applyAll (bodies ++ [body]) = (feed.applyAll bodies).apply body :=
  applyAll_append feed bodies [body]

/-- What is known of the id. -/
@[simp] theorem set_same : feed.set id entry id = entry := if_pos rfl

/-- What is known of another id. -/
theorem set_other (apart : other ≠ id) : feed.set id entry other = feed other := if_neg apart

/-- The last replacement counts. -/
@[simp] theorem set_set : (feed.set id entry).set id entry' = feed.set id entry' := by
  funext id'
  simp only [set]
  split <;> rfl

/-- Replacements of different ids can change places. -/
theorem set_comm (apart : other ≠ id) :
    (feed.set id entry).set other entry' = (feed.set other entry').set id entry := by
  funext id'
  simp only [set]
  split
  · rename_i here
    rw [if_neg (here ▸ apart)]
  · rfl

/-- Replacing what is known by itself changes nothing. -/
theorem set_self (same : feed id = entry) : feed.set id entry = feed := by
  funext id'
  simp only [set]
  split
  · rename_i here
    rw [here, same]
  · rfl

end OrderFeed

namespace MatchingEngine

variable {config : InstrumentConfig} {engine engine' : MatchingEngine config} {queues : Queues}
  {sweep : Sweep config} {flow : Flow (Sweep config) (SweepResult config)} {command : Command}
  {order : NewOrder} {qty : UInt64} {feed : OrderFeed} {maker : Order} {index : ArenaIndex}
  {book : OrderBook config.maxTicks} {arena : Arena} {body : EventBody}

/-- The resting orders, as a reader who is right knows them. -/
def view (engine : MatchingEngine config) : OrderFeed :=
  fun id => (engine.restingOrder id).map Order.known

/-- With the events of the call so far the reader knows the resting orders. -/
def Known (feed : OrderFeed) (engine : MatchingEngine config) : Prop :=
  feed.applyAll engine.bodies = engine.view

/-! ## How the resting orders change -/

/-- The resting orders are those of the book and the arena. -/
theorem view_congr (sameBook : engine'.book = engine.book)
    (sameArena : engine'.arena = engine.arena) : engine'.view = engine.view := by
  funext id
  rw [view, view, restingOrder, restingOrder, sameBook, sameArena]

/-- A removal takes one order. -/
theorem view_removed (rep : Represents engine.book engine.arena queues)
    (removed : Removed engine.book engine.arena queues maker.unlinked index book arena) :
    (engine.withBook book arena).view = engine.view.set maker.id none := by
  funext id
  have here : MatchX.restingOrder book arena id = if id = maker.unlinked.id then none
      else MatchX.restingOrder engine.book engine.arena id := removed.restingOrder rep
  rw [view, restingOrder, withBook_book, withBook_arena, here, Order.unlinked_id, OrderFeed.set]
  split <;> rfl

/-- Taking a quantity changes what remains of one order. -/
theorem view_taken {delta : UInt64} (rep : Represents engine.book engine.arena queues)
    (taken : Taken engine.book engine.arena queues maker.unlinked index delta book arena)
    (within : delta ≤ maker.remaining) :
    (engine.withBook book arena).view =
      engine.view.set maker.id (some { maker.known with remaining := maker.remaining - delta }) := by
  have less := (Order.fill_sound (rep.sound taken.found) within).2
  funext id
  have here : (engine.withBook book arena).restingOrder id =
      if id = maker.id then some (maker.unlinked.fill delta) else engine.restingOrder id :=
    taken.restingOrder rep
  rw [view, here, OrderFeed.set]
  split
  · rw [Option.map_some, Order.known, less]
    rfl
  · rfl

/-- An insertion adds one order. -/
theorem view_inserted (rep : Represents engine.book engine.arena queues)
    (inserted : Inserted engine.book engine.arena queues maker index book arena) :
    (engine.withBook book arena).view = engine.view.set maker.id (some maker.known) := by
  funext id
  have here : (engine.withBook book arena).restingOrder id =
      if id = maker.id then some maker else engine.restingOrder id := inserted.restingOrder rep
  rw [view, here, OrderFeed.set]
  split <;> rfl

/-- The order in a slot is the one that rests under its id. -/
theorem view_found (rep : Represents engine.book engine.arena queues)
    (found : engine.arena.find index = some maker) : engine.view maker.id = some maker.known := by
  have rests : engine.restingOrder maker.id = some maker.unlinked :=
    rep.restingOrder_iff.mpr ⟨index, Arena.resting_of_find found, rfl⟩
  rw [view, rests]
  rfl

/-- Nothing is known of an id that does not rest. -/
theorem view_unused (unused : engine.book.lookup order.id = none) : engine.view order.id = none := by
  rw [view, restingOrder, MatchX.restingOrder, unused]
  rfl

/-! ## The reader keeps up -/

/-- An event that the reader takes up as the engine changed. -/
theorem Known.emit (known : Known feed engine) (changed : engine'.view = engine.view.apply body)
    (appended : engine'.bodies = engine.bodies ++ [body]) : Known feed engine' := by
  have before : feed.applyAll engine.bodies = engine.view := known
  rw [Known, appended, OrderFeed.applyAll_snoc, before, changed]

/-- An event that is about no order. -/
theorem Known.quiet (known : Known feed engine) (silent : engine.view.apply body = engine.view)
    (kept : engine'.view = engine.view) (appended : engine'.bodies = engine.bodies ++ [body]) :
    Known feed engine' :=
  known.emit (kept.trans silent.symm) appended

/-- An order that is removed, as an event tells. -/
theorem Known.withdrawn {side : Side} {price : UInt64} (known : Known feed engine)
    (rep : Represents engine.book engine.arena queues)
    (removed : Removed engine.book engine.arena queues maker.unlinked index book arena)
    (tells : ∀ feed : OrderFeed, feed.apply body = feed.set maker.id none) :
    Known feed (((engine.withBook book arena).emit body).emitLevel side price) := by
  have told : Known feed ((engine.withBook book arena).emit body) :=
    known.emit ((view_removed rep removed).trans (tells _).symm) (by simp)
  exact told.quiet rfl rfl (emit_bodies _ _)

/-- What is known of an order that is matched, with what remains of it. -/
def incoming (order : NewOrder) (remaining : UInt64) : Option KnownOrder :=
  if remaining = 0 then none else some ⟨order.side, order.price, remaining⟩

/-- In a sweep the reader knows the resting orders and the order that is matched. -/
structure KnownSweep (feed : OrderFeed) (order : NewOrder) (engine : MatchingEngine config)
    (remaining : UInt64) : Prop where
  /-- The reader knows the order that is matched with what remains of it. -/
  known : feed.applyAll engine.bodies = engine.view.set order.id (incoming order remaining)
  /-- It does not rest. -/
  apart : engine.view order.id = none

namespace KnownSweep

/-- The engine changed, and an event told it. -/
theorem emit {left left' : UInt64} (swept : KnownSweep feed order engine left)
    (changed : engine'.view.set order.id (incoming order left') =
      (engine.view.set order.id (incoming order left)).apply body)
    (apart : engine'.view order.id = none)
    (appended : engine'.bodies = engine.bodies ++ [body]) : KnownSweep feed order engine' left' := by
  refine ⟨?_, apart⟩
  rw [appended, OrderFeed.applyAll_snoc, swept.known, changed]

/-- The total of a level is reported. -/
theorem emitLevel {left : UInt64} (swept : KnownSweep feed order engine left) (side : Side)
    (price : UInt64) : KnownSweep feed order (engine.emitLevel side price) left :=
  swept.emit rfl swept.apart (emit_bodies _ _)

/-- A maker is cancelled. -/
theorem cancelled {left : UInt64} (swept : KnownSweep feed order engine left)
    (rep : Represents engine.book engine.arena queues)
    (removed : Removed engine.book engine.arena queues maker.unlinked index book arena)
    (other : maker.id ≠ order.id) :
    KnownSweep feed order
      ((engine.withBook book arena).emit (.orderCancelled maker.id maker.remaining)) left := by
  have changed : ((engine.withBook book arena).emit
      (.orderCancelled maker.id maker.remaining)).view = engine.view.set maker.id none :=
    view_removed rep removed
  refine swept.emit ?_ ?_ (emit_bodies _ _)
  · rw [changed, OrderFeed.set_comm other.symm]
    rfl
  · rw [changed, OrderFeed.set_other other.symm]
    exact swept.apart

/-- A fill leaves of both parties what it reports. -/
theorem filled {left price delta : UInt64} (swept : KnownSweep feed order engine left)
    (proper : left ≠ 0) (rests : engine.view maker.id = some maker.known)
    (other : maker.id ≠ order.id)
    (changed : engine'.view = engine.view.set maker.id
      (if maker.remaining - delta = 0 then none
        else some { maker.known with remaining := maker.remaining - delta }))
    (appended : engine'.bodies = engine.bodies ++
      [.fill maker.id order.id price delta (maker.remaining - delta) (left - delta)]) :
    KnownSweep feed order engine' (left - delta) := by
  have taker : (engine.view.set order.id (incoming order left)).leave order.id (left - delta) =
      engine.view.set order.id (incoming order (left - delta)) := by
    rw [OrderFeed.leave, OrderFeed.set_same, OrderFeed.set_set, incoming, if_neg proper, incoming]
    rfl
  have told : (engine.view.set order.id (incoming order (left - delta))).leave maker.id
        (maker.remaining - delta) =
      engine'.view.set order.id (incoming order (left - delta)) := by
    rw [OrderFeed.leave, OrderFeed.set_other other, rests, changed, OrderFeed.set_comm other]
    rfl
  refine swept.emit ?_ ?_ appended
  · rw [OrderFeed.apply, taker, told]
  · rw [changed, OrderFeed.set_other other.symm]
    exact swept.apart

end KnownSweep

/-- The next iteration removes or reduces a maker without telling of it: nothing remains of the
maker, or it is decremented. -/
def RemovesSilently (taker : Taker) (sweep : Sweep config) : Prop :=
  sweep.remaining ≠ 0 ∧ ∃ index maker, frontMaker taker sweep.engine = some (index, maker) ∧
    (maker.remaining = 0 ∨ sameGroup taker maker = true ∧ config.stpMode = .decrementAndCancel)

/-- An iteration that removes no maker silently keeps the reader right. -/
theorem Iteration.known (sound : sweep.engine.Sound queues)
    (iteration : Iteration (takerOf order) queues sweep flow)
    (audible : ¬RemovesSilently (takerOf order) sweep)
    (swept : KnownSweep feed order sweep.engine sweep.remaining) :
    KnownSweep feed order (flowEngine flow) (flowRemaining flow) := by
  have rep := sound.rep
  have other : ∀ {index maker}, sweep.engine.arena.find index = some maker →
      maker.id ≠ order.id := fun found same => by
    have none := swept.apart
    rw [← same, view_found rep found] at none
    contradiction
  have audibly : ∀ {price index maker}, sweep.remaining ≠ 0 →
      Front (takerOf order) sweep.engine queues price index maker →
      ¬(maker.remaining = 0 ∨ sameGroup (takerOf order) maker = true ∧
        config.stpMode = .decrementAndCancel) := fun left front silent =>
    audible ⟨left, _, _, front.frontMaker_eq rep, silent⟩
  cases iteration with
  | exhausted | unmatched | newest => exact swept
  | stale left front spent => exact absurd (.inl spent) (audibly left front)
  | oldest _ front _ _ _ removed | both _ front _ _ _ removed =>
    exact (swept.cancelled rep removed (other front.found)).emitLevel _ _
  | decrementAll left front _ group mode =>
    exact absurd (.inr ⟨group, mode⟩) (audibly left front)
  | decrementPart left front group mode =>
    exact absurd (.inr ⟨group, mode⟩) (audibly left front)
  | @fillPart price index maker book arena left front apart part taken =>
    have within := UInt64.le_of_lt part
    have stays : maker.remaining - min sweep.remaining maker.matchableQty ≠ 0 := fun none =>
      UInt64.ne_of_lt part ((sub_eq_zero_of_le within).mp none)
    apply KnownSweep.emitLevel
    refine swept.filled left (view_found rep front.found) (other front.found) ?_ (emit_bodies _ _)
    rw [if_neg stays]
    exact view_taken rep taken within
  | @fillAll price index maker book arena book' arena' left front live apart whole taken _ removed =>
    -- The total is reported while the spent maker is still there, which the reader does not see.
    have gone : ((sweep.engine.withBook book arena).withBook book' arena').view =
        sweep.engine.view.set maker.id none := by
      have filled := view_taken rep taken (UInt64.le_refl maker.remaining)
      have spent : ((sweep.engine.withBook book arena).withBook book' arena').view =
          (sweep.engine.withBook book arena).view.set (maker.fill maker.remaining).id none :=
        view_removed taken.represents removed
      rw [spent, Order.fill_id, filled]
      exact OrderFeed.set_set
    have told : KnownSweep feed order
        (((sweep.engine.withBook book arena).withBook book' arena').emit
          (.fill maker.id order.id price maker.remaining (maker.remaining - maker.remaining)
            (sweep.remaining - maker.remaining))) (sweep.remaining - maker.remaining) := by
      refine swept.filled left (view_found rep front.found) (other front.found) ?_ (emit_bodies _ _)
      rw [UInt64.sub_self, if_pos rfl]
      exact gone
    rw [UInt64.sub_self] at told
    exact told.emit rfl told.apart (emitLevel_bodies _ _ _)

/-- A sweep that removes no maker silently keeps the reader right. -/
theorem swept_known {result : SweepResult config} (sound : engine.Sound queues)
    (audible : ∀ sweep, Visits (matchStep (takerOf order)) ⟨engine, qty⟩ sweep →
      ¬RemovesSilently (takerOf order) sweep)
    (begins : KnownSweep feed order engine qty)
    (swept : engine.matchAgainstBook (takerOf order) qty = .ok result) :
    KnownSweep feed order result.engine result.remaining := by
  have start : (⟨engine, qty⟩ : Sweep config).engine.Sound queues := sound
  have along : ∀ sweep, Visits (matchStep (takerOf order)) ⟨engine, qty⟩ sweep →
      KnownSweep feed order sweep.engine sweep.remaining := by
    intro sweep visits
    induction visits with
    | refl => exact begins
    | tail seen step ih =>
      obtain ⟨queues', sound'⟩ := sound_of_visits start seen
      exact (matchStep_cases sound' step).known sound' (audible _ seen) ih
  obtain ⟨last, visits, exit⟩ := loop_exit swept
  obtain ⟨queues', sound'⟩ := sound_of_visits start visits
  exact (matchStep_cases sound' exit).known sound' (audible last visits) (along last visits)

/-! ## Calls -/

/-- A call does nothing to an order without an event: its sweeps remove no maker silently, and the
book takes every order that it is handed. -/
structure Audible (engine : MatchingEngine config) (command : Command) : Prop where
  /-- The sweeps remove no maker silently. -/
  makers : ∀ site order sweep, Sweeps engine command site order sweep →
    ¬RemovesSilently (takerOf order) sweep
  /-- The book takes the orders. -/
  taken : ∀ site order qty, RestsAt engine command site order qty →
    site.book.lookup order.id = none ∧ site.arena.freeHead ≠ freeListEnd

/-- What rests of an order is what the reader knows of it. -/
theorem resting_known (order : NewOrder) (qty : UInt64) :
    (order.resting qty).known = ⟨order.side, order.price, qty⟩ := by
  have whole : (order.resting qty).remaining = qty := by
    simp [NewOrder.resting, Order.submitted, Order.remaining, saturatingSub]
  rw [Order.known, whole]
  rfl

/-- An order that the book takes rests as the reader knows it. -/
theorem Rested.known (sound : engine.Sound queues) (rested : Rested engine queues order qty engine')
    (taken : engine.book.lookup order.id = none ∧ engine.arena.freeHead ≠ freeListEnd)
    (known : feed.applyAll engine.bodies =
      engine.view.set order.id (some ⟨order.side, order.price, qty⟩)) : Known feed engine' := by
  cases rested with
  | refused why => exact absurd taken fun taken => why.elim (· taken.1) taken.2
  | @inserted index book arena room inserted =>
    have changed := view_inserted sound.rep inserted
    rw [resting_known] at changed
    rw [Known, emit_bodies, withBook_bodies, OrderFeed.applyAll_snoc, known]
    exact changed.symm

/-- The remainder of an order that was matched is settled as the reader knows it. -/
theorem Settled.known {result : SweepResult config} (sound : result.engine.Sound queues)
    (settled : Settled result queues order engine')
    (taken : result.cancelIncoming = false → result.remaining ≠ 0 → order.Keeps →
      result.engine.book.lookup order.id = none ∧ result.engine.arena.freeHead ≠ freeListEnd)
    (swept : KnownSweep feed order result.engine result.remaining) : Known feed engine' := by
  -- Without the order that was matched, what the reader knows is what rests.
  have without : result.engine.view.set order.id none = result.engine.view :=
    OrderFeed.set_self swept.apart
  have cancelled : Known feed
      (result.engine.emit (.orderCancelled order.id result.remaining)) := by
    rw [Known, emit_bodies, OrderFeed.applyAll_snoc, swept.known, OrderFeed.apply,
      OrderFeed.set_set, without]
    rfl
  cases settled with
  | prevented => exact cancelled
  | filled free nothing =>
    have known := swept.known
    rw [incoming, if_pos nothing, without] at known
    exact known
  | rested free left keeps rested =>
    have known := swept.known
    rw [incoming, if_neg left] at known
    exact rested.known sound (taken free left keeps) known
  | dropped => exact cancelled

/-- A call that is audible keeps the reader right. -/
theorem known_kept (audible : Audible engine command) :
    Kept engine command fun state => (∃ queues, state.Sound queues) ∧ Known feed state where
  cancels id after asked := by
    rintro ⟨⟨queues, sound⟩, known⟩ returned
    refine ⟨(sound_kept engine command).cancels id after asked ⟨queues, sound⟩ returned, ?_⟩
    cases processCancel_cases sound returned with
    | missing => exact known.quiet rfl rfl (emitRejected_bodies _ _ _)
    | removed _ _ named removed =>
      exact known.withdrawn sound.rep removed fun feed => by rw [named]; rfl
  withdraws id newPrice newQty index site order asked := by
    rintro ⟨⟨queues, sound⟩, known⟩ held withdrawn
    refine ⟨(sound_kept engine command).withdraws id newPrice newQty index site order asked
      ⟨queues, sound⟩ held withdrawn, ?_⟩
    obtain ⟨stored, found', named⟩ := sound.held held
    cases withdraw_cases sound held withdrawn with
    | removed found removed =>
      obtain rfl := Option.some.inj (found'.symm.trans found)
      exact known.withdrawn sound.rep removed fun feed => by rw [named]; rfl
  misses id _ _ _ := by
    rintro ⟨⟨queues, sound⟩, known⟩
    exact ⟨⟨queues, sound.congr rfl rfl⟩, known.quiet rfl rfl (emitRejected_bodies _ _ _)⟩
  fires start before site order _ fired := by
    rintro ⟨⟨queues, sound⟩, known⟩
    exact ⟨⟨queues, sound.congr fired.kept.1 fired.kept.2⟩,
      known.quiet rfl (view_congr fired.kept.1 fired.kept.2) fired.bodies_eq⟩
  handles site order after submits := by
    rintro ⟨⟨queues, sound⟩, known⟩ returned
    have handled := processNewOrder_cases sound returned
    refine ⟨handled.sound sound, ?_⟩
    have before : feed.applyAll site.bodies = site.view := known
    have accepted : order.orderType ≠ .stopLimit → feed.applyAll (site.accept order).bodies =
        site.view.set order.id (some ⟨order.side, order.price, order.qty⟩) := fun kind => by
      rw [accept_bodies, OrderFeed.applyAll_snoc, before, OrderFeed.apply, if_neg kind]
    cases handled with
    | rejected => exact known.quiet rfl rfl (emitRejected_bodies _ _ _)
    | parked kind _ book arena bodies =>
      refine known.quiet ?_ (view_congr book arena) (bodies.trans accept_bodies)
      rw [OrderFeed.apply, if_pos kind]
    | posted kind apart rested =>
      have taken := audible.taken _ _ _ (.posted submits kind apart)
      exact rested.known (sound.accept order) taken (accepted (by simp [kind]))
    | matched kind checks swept sound' settled =>
      obtain ⟨proper, unused, -⟩ := refusal_none checks
      have begins : KnownSweep feed order (site.accept order) order.qty := by
        refine ⟨?_, view_unused unused⟩
        rw [accepted kind.2, incoming, if_neg proper]
        rfl
      have ended := swept_known (sound.accept order)
        (fun sweep visits => audible.makers site order sweep ⟨submits, kind, checks, visits⟩)
        begins swept
      exact settled.known sound' (fun free left keeps =>
        audible.taken _ _ _ (.remainder submits kind checks swept free left keeps)) ended

/-! ## Runs -/

/-- A call of the engine, whose events the reader takes up. -/
def orderFeedStep (state : MatchingEngine config × OrderFeed) (command : Command) :
    Except Fault (MatchingEngine config × OrderFeed) := do
  let after ← state.1.process command
  return (after, state.2.applyAll after.bodies)

/-- The engines with their readers reached from a new engine and a reader who knows of no order, by
completed calls that meet a condition. -/
def OrderFeedReaches (config : InstrumentConfig)
    (allowed : MatchingEngine config → Command → Prop) : MatchingEngine config × OrderFeed → Prop :=
  Reached (fun state => ∃ capacity, state = (new config capacity, fun _ => none)) orderFeedStep
    fun state command => allowed state.1 command

/-- After every call of a run that does nothing to an order without an event, who has read the
events knows of every id whether an order rests under it, and its side, price and remainder. -/
theorem order_feed_exact_unless_silent (config : InstrumentConfig)
    (state : MatchingEngine config × OrderFeed) (reached : OrderFeedReaches config Audible state)
    (id : OrderId) : state.2 id = (state.1.restingOrder id).map Order.known := by
  have both : (∃ queues, state.1.Sound queues) ∧ state.2 = state.1.view := by
    refine Reached.invariant ?_ ?_ reached
    · rintro state ⟨capacity, rfl⟩
      refine ⟨⟨_, sound_new config capacity⟩, ?_⟩
      funext id
      cases rests : (new config capacity).restingOrder id with
      | none => rw [view, rests]; rfl
      | some order =>
        obtain ⟨i, resting, -⟩ := (sound_new config capacity).rep.restingOrder_iff.mp rests
        have placed := (sound_new config capacity).rep.toQueued.placed resting
        contradiction
    · rintro ⟨engine, feed⟩ command following ⟨⟨queues, sound⟩, known⟩ audible completed
      obtain ⟨after, called, returned⟩ := bind_ok completed
      obtain rfl := Except.ok.inj returned
      exact (known_kept audible).returns ⟨⟨queues, sound.congr rfl rfl⟩, known⟩ called
  rw [both.2]
  rfl

/-- Whether a maker is in front of which nothing remains or which is decremented. -/
def removesSilently (taker : Taker) (sweep : Sweep config) : Bool :=
  (frontMaker taker sweep.engine).any fun (_, maker) => maker.remaining == 0 ||
    (sameGroup taker maker && config.stpMode == .decrementAndCancel)

/-- A command that submits its own order and no stop, whose sweep removes no maker silently, where
the order is post-only and the book takes it, or rests no remainder. -/
def loneAudible (engine : MatchingEngine config) (command : Command) : Bool :=
  loneSweep (fun order sweep => !removesSilently (takerOf order) sweep) engine command &&
    match command with
    | .newOrder _ order =>
      if order.orderType = .postOnly then
        (engine.book.lookup order.id).isNone && engine.arena.freeHead != freeListEnd
      else decide ¬order.Keeps
    | _ => false

/-- Such a command does nothing to an order without an event. -/
theorem audible_of_loneAudible (passes : loneAudible engine command = true) :
    Audible engine command := by
  unfold loneAudible at passes
  rw [Bool.and_eq_true] at passes
  have alone := passes.1
  unfold loneSweep at alone
  rw [Bool.and_eq_true] at alone
  constructor
  · intro site order sweep sweeps silent
    have clear := Sweeps.of_loneSweep passes.1 sweeps
    obtain ⟨-, index, maker, front, silent⟩ := silent
    simp [removesSilently, front] at clear
    rcases silent with spent | both
    · exact clear.1 spent
    · rcases clear.2 with apart | other
      · simp [apart] at both
      · exact other both.2
  · intro site order qty rests
    cases rests with
    | posted submits kind apart =>
      obtain ⟨rfl, instrumentId, rfl⟩ := submits.of_lone alone.1
      have takes := passes.2
      simp only [kind, if_true, Bool.and_eq_true, Option.isNone_iff_eq_none, bne_iff_ne] at takes
      exact takes
    | remainder submits kind checked swept free left keeps =>
      obtain ⟨rfl, instrumentId, rfl⟩ := submits.of_lone alone.1
      have drops := passes.2
      simp only [kind.1, if_false, decide_eq_true_eq] at drops
      exact absurd keeps drops

/-- After an ask of ten is filled in part the reader knows that six remain of it. -/
theorem order_feed_exact_after_fill :
    ∃ state : MatchingEngine (smallConfig .cancelNewest) × OrderFeed,
      state.2 1 = (state.1.restingOrder 1).map Order.known ∧
        (state.2 1 == some ⟨.ask, 2, 6⟩) = true := by
  obtain ⟨state, reached, shown⟩ : ∃ state,
      OrderFeedReaches (smallConfig .cancelNewest) Audible state ∧
        (state.2 1 == some ⟨.ask, 2, 6⟩) = true :=
    Reached.exists_checkedRun (fun state command => loneAudible state.1 command) _
      (fun _ _ => audible_of_loneAudible) ⟨8, rfl⟩
      [.submit { NewOrder.gtc 1 .ask 2 10 with orderType := .postOnly },
        .submit { NewOrder.gtc 2 .bid 2 4 with timeInForce := .ioc }] (by decide +kernel)
  exact ⟨state, order_feed_exact_unless_silent _ state reached 1, shown⟩

end MatchingEngine

end MatchX
