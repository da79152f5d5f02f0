import MatchX.Engine.Calls

/-!
# Sweeps

What holds along the iterations of one sweep of the book. An iteration leaves in every slot the
order that rests there, at most filled further, or nothing. It keeps the best prices exact
unless it removes a maker whose removal hides a better price.
-/

namespace MatchX

open MatchX.Support

variable {ticks : UInt32} {book book' : OrderBook ticks} {arena arena' arena'' : Arena}
  {queues : Queues} {order : Order} {index : ArenaIndex} {delta : UInt64}

/-! ## Shrinking -/

/-- Every slot holds what it held, at most filled further, or nothing. -/
def Arena.Shrinks (arena arena' : Arena) : Prop :=
  ∀ i order', arena'.resting i = some order' →
    ∃ order delta, arena.resting i = some order ∧ delta ≤ order.remaining ∧
      order' = order.fill delta

/-- Filling nothing changes nothing. -/
@[simp] theorem Order.fill_zero (order : Order) : order.fill 0 = order := by
  simp [Order.fill]

/-- An arena shrinks to itself. -/
theorem Arena.Shrinks.refl (arena : Arena) : arena.Shrinks arena := fun _ order rests =>
  ⟨order, 0, rests, UInt64.zero_le, (Order.fill_zero order).symm⟩

/-- Shrinking composes, when no order is overfilled. -/
theorem Arena.Shrinks.trans (queued : Queued arena queues) (first : arena.Shrinks arena')
    (second : arena'.Shrinks arena'') : arena.Shrinks arena'' := by
  intro i order'' rests''
  obtain ⟨order', delta', rests', bound', rfl⟩ := second i order'' rests''
  obtain ⟨order, delta, rests, bound, rfl⟩ := first i order' rests'
  have sound := queued.sound rests
  have less := (Order.fill_sound sound bound).2
  rw [less, UInt64.le_iff_toNat_le, UInt64.toNat_sub_of_le _ _ bound] at bound'
  have small := UInt64.le_iff_toNat_le.mp bound
  have word := order.remaining.toNat_lt
  refine ⟨order, delta + delta', rests, ?_, ?_⟩
  · rw [UInt64.le_iff_toNat_le, UInt64.toNat_add]
    omega
  · simp only [Order.fill, UInt64.add_assoc]

/-- A removal shrinks the arena. -/
theorem Removed.shrinks (removed : Removed book arena queues order index book' arena') :
    arena.Shrinks arena' := by
  intro i order' rests
  rw [removed.resting] at rests
  split at rests
  · contradiction
  · exact Arena.Shrinks.refl arena i order' rests

/-- Taking no more than what remains shrinks the arena. -/
theorem Taken.shrinks (taken : Taken book arena queues order index delta book' arena')
    (bound : delta ≤ order.remaining) : arena.Shrinks arena' := by
  intro i order' rests
  rw [taken.resting] at rests
  split at rests
  · rename_i same
    obtain rfl := Option.some.inj rests
    exact ⟨order, delta, same ▸ taken.found, bound, rfl⟩
  · exact Arena.Shrinks.refl arena i order' rests

/-- Where an order rests after the arena shrank, one rested before. -/
theorem Arena.Shrinks.rests {side : Side} {price : UInt64} (shrinks : arena.Shrinks arena')
    (rests : Rests arena' side price) : Rests arena side price := by
  obtain ⟨i, order', found, rfl, rfl⟩ := rests
  obtain ⟨order, delta, resting, -, same⟩ := shrinks i _ (Arena.resting_of_find found)
  obtain ⟨stored, held, rfl⟩ := Arena.find_of_resting resting
  refine ⟨i, stored, held, ?_, ?_⟩
  · exact (congrArg Order.side same).symm
  · exact (congrArg Order.price same).symm

/-! ## Hiding a better price -/

/-- Whether orders rest beside a slot is a matter of what rests in the slots. -/
theorem restsBeside_resting {i : ArenaIndex} {side : Side} {price : UInt64} :
    RestsBeside arena i side price ↔
      ∃ j order, j ≠ i ∧ arena.resting j = some order ∧ order.side = side ∧ order.price = price := by
  constructor
  · rintro ⟨j, stored, apart, found, places⟩
    exact ⟨j, stored.unlinked, apart, Arena.resting_of_find found, places⟩
  · rintro ⟨j, order, apart, rests, places⟩
    obtain ⟨stored, found, rfl⟩ := Arena.find_of_resting rests
    exact ⟨j, stored, apart, found, places⟩

/-- Whether every order rests at a price of the window. -/
def windowOnly (book : OrderBook ticks) (arena : Arena) : Bool :=
  arena.orders.all fun order => (book.denseIndex order.price).isSome

/-- No removal hides a better price as long as every order rests in the window. -/
theorem not_hidesBetter {i : ArenaIndex} (inside : windowOnly book arena = true) :
    ¬HidesBetter book arena i := by
  rintro ⟨-, -, -, -, -, outside, beyond, ⟨j, order, -, found, -, rfl⟩, -⟩
  have within := List.all_eq_true.mp inside order (Arena.mem_orders_of_find found)
  exact beyond (Option.isSome_iff_ne_none.mp within)

/-- Taking a quantity changes nothing about which removal hides a better price. -/
theorem Taken.hidesBetter (taken : Taken book arena queues order index delta book' arena')
    {i : ArenaIndex} (hides : HidesBetter book' arena' i) : HidesBetter book arena i := by
  have window : ∀ price, book'.InWindow price ↔ book.InWindow price := fun price => by
    rw [OrderBook.InWindow, OrderBook.denseIndex_congr taken.base, OrderBook.InWindow]
  have same : ∀ j side price, (∃ order, arena'.resting j = some order ∧ order.side = side ∧
      order.price = price) ↔ ∃ order, arena.resting j = some order ∧ order.side = side ∧
        order.price = price := fun j side price => by
    rw [taken.resting]
    split
    · rename_i here
      subst here
      simp [taken.found]
    · rfl
  have beside : ∀ {side price}, RestsBeside arena' i side price ↔
      RestsBeside arena i side price := fun {side price} => by
    simp only [restsBeside_resting]
    constructor
    · rintro ⟨j, order, apart, places⟩
      obtain ⟨order, places⟩ := (same j side price).mp ⟨order, places⟩
      exact ⟨j, order, apart, places⟩
    · rintro ⟨j, order, apart, places⟩
      obtain ⟨order, places⟩ := (same j side price).mpr ⟨order, places⟩
      exact ⟨j, order, apart, places⟩
  obtain ⟨stored', found', best, alone, ⟨inside, within, rests⟩, outside, beyond, rests', improves⟩ :=
    hides
  obtain ⟨order, resting, onSide, atPrice⟩ :=
    (same i _ _).mp ⟨stored'.unlinked, Arena.resting_of_find found', rfl, rfl⟩
  obtain ⟨stored, found, rfl⟩ := Arena.find_of_resting resting
  simp only [Order.unlinked_side, Order.unlinked_price] at onSide atPrice
  rw [taken.best, ← onSide, ← atPrice] at best
  rw [← onSide] at rests rests' improves
  rw [← onSide, ← atPrice] at alone
  exact ⟨stored, found, best, fun other => alone (beside.mpr other),
    ⟨inside, (window inside).mp within, beside.mp rests⟩, outside,
    fun within => beyond ((window outside).mpr within), beside.mp rests',
    fun price within other => improves price ((window price).mpr within) (beside.mpr other)⟩

namespace MatchingEngine

variable {config : InstrumentConfig} {engine engine' : MatchingEngine config} {queues : Queues}
  {taker : Taker} {sweep : Sweep config} {flow : Flow (Sweep config) (SweepResult config)}
  {index : ArenaIndex} {maker : Order} {price : UInt64}

/-! ## The maker in front -/

/-- The first order of the best opposing level, when the taker accepts its price. -/
def frontMaker (taker : Taker) (engine : MatchingEngine config) : Option (ArenaIndex × Order) :=
  match engine.bestOpposing taker.side with
  | none => none
  | some price =>
    if isPriceAcceptable taker.side taker.price price then
      match (engine.book.level taker.side.opposite price).head with
      | none => none
      | some index => (engine.arena.find index).map fun maker => (index, maker)
    else none

/-- The maker that an iteration meets is the one in front. -/
theorem Front.frontMaker_eq (rep : Represents engine.book engine.arena queues)
    (front : Front taker engine queues price index maker) :
    frontMaker taker engine = some (index, maker) := by
  simp only [frontMaker, bestOpposing_eq, front.best, front.acceptable, front.head rep, front.found,
    Option.map_some, if_true]

/-- The maker in front is the one that an iteration meets. -/
theorem front_of_frontMaker (rep : Represents engine.book engine.arena queues)
    (found : frontMaker taker engine = some (index, maker)) :
    Front taker engine queues maker.price index maker := by
  unfold frontMaker at found
  rw [bestOpposing_eq] at found
  split at found
  · contradiction
  rename_i price best
  split at found
  · rename_i acceptable
    split at found
    · contradiction
    rename_i head level
    rw [rep.levels, levelOf] at level
    obtain ⟨order, held, same⟩ := Option.map_eq_some_iff.mp found
    obtain ⟨rfl, rfl⟩ := Prod.mk.inj same
    obtain ⟨resting, rests, onSide, atPrice⟩ := rep.stored (List.mem_of_mem_head? level)
    rw [Arena.resting_of_find held] at rests
    obtain rfl := Option.some.inj rests
    simp only [Order.unlinked_side, Order.unlinked_price] at onSide atPrice
    subst atPrice
    exact ⟨best, acceptable, level, held, onSide, rfl⟩
  · contradiction

/-- A maker from which a quantity is taken stays in front. -/
theorem Front.taken {book : OrderBook config.maxTicks} {arena : Arena} {delta : UInt64}
    (front : Front taker engine queues price index maker)
    (taken : Taken engine.book engine.arena queues maker.unlinked index delta book arena) :
    ∃ stored, Front taker (engine.withBook book arena) queues price index stored ∧
      stored.unlinked = maker.unlinked.fill delta := by
  have rests := taken.resting index
  rw [if_pos rfl] at rests
  obtain ⟨stored, found, same⟩ := Arena.find_of_resting rests
  have onSide := congrArg Order.side same
  have atPrice := congrArg Order.price same
  simp only [Order.unlinked_side, Order.fill_side] at onSide
  simp only [Order.unlinked_price, Order.fill_price] at atPrice
  exact ⟨stored, ⟨by rw [withBook_book, taken.best, front.best], front.acceptable, front.first, found,
    onSide.trans front.onSide, atPrice.trans front.atPrice⟩, same⟩

/-- Without an acceptable opposing price no maker is in front. -/
theorem frontMaker_eq_none (refused : ∀ price, engine.book.best taker.side.opposite = some price →
    isPriceAcceptable taker.side taker.price price = false) : frontMaker taker engine = none := by
  unfold frontMaker
  rw [bestOpposing_eq]
  split
  · rfl
  · rename_i price best
    simp [refused price best]

/-- Whether the iteration that meets a maker takes it out of the book. -/
def removesMaker (taker : Taker) (sweep : Sweep config) (maker : Order) : Bool :=
  if maker.remaining = 0 then true
  else if sameGroup taker maker then
    match config.stpMode with
    | .cancelNewest => false
    | .cancelOldest | .cancelBoth => true
    | .decrementAndCancel => maker.remaining ≤ sweep.remaining
  else min sweep.remaining maker.matchableQty = maker.remaining

/-- The next iteration removes a maker whose removal hides a better price. -/
def Hides (taker : Taker) (sweep : Sweep config) : Prop :=
  sweep.remaining ≠ 0 ∧ ∃ index maker, frontMaker taker sweep.engine = some (index, maker) ∧
    removesMaker taker sweep maker = true ∧
    HidesBetter sweep.engine.book sweep.engine.arena index

/-- An iteration shrinks the arena. -/
theorem Iteration.shrinks (sound : sweep.engine.Sound queues)
    (iteration : Iteration taker queues sweep flow) :
    sweep.engine.arena.Shrinks (flowEngine flow).arena := by
  cases iteration with
  | exhausted | unmatched | newest => exact Arena.Shrinks.refl _
  | stale _ _ _ removed => exact removed.shrinks
  | oldest _ _ _ _ _ removed => exact removed.shrinks
  | both _ _ _ _ _ removed => exact removed.shrinks
  | decrementAll _ _ _ _ _ _ removed => exact removed.shrinks
  | decrementPart _ _ _ _ part taken => exact taken.shrinks (UInt64.le_of_lt part)
  | fillPart _ _ _ part taken => exact taken.shrinks (UInt64.le_of_lt part)
  | fillAll _ _ _ _ _ taken _ removed =>
    exact (taken.shrinks (UInt64.le_refl _)).trans sound.rep.toQueued removed.shrinks

/-- An iteration that hides no better price keeps exact best prices exact. -/
theorem Iteration.bestExact (sound : sweep.engine.Sound queues)
    (iteration : Iteration taker queues sweep flow) (clear : ¬Hides taker sweep)
    (exact : BestExact sweep.engine.book sweep.engine.arena) :
    BestExact (flowEngine flow).book (flowEngine flow).arena := by
  have kept : ∀ {price index maker}, sweep.remaining ≠ 0 →
      Front taker sweep.engine queues price index maker → removesMaker taker sweep maker = true →
      ¬HidesBetter sweep.engine.book sweep.engine.arena index := fun left front removes hides =>
    clear ⟨left, _, _, front.frontMaker_eq sound.rep, removes, hides⟩
  have queued := sound.rep.toQueued
  cases iteration with
  | exhausted | unmatched | newest => exact exact
  | stale left front spent removed =>
    exact removed.bestExact front.found queued
      (kept left front (by simp [removesMaker, spent])) exact
  | oldest left front live group mode removed =>
    exact removed.bestExact front.found queued
      (kept left front (by simp [removesMaker, live, group, mode])) exact
  | both left front live group mode removed =>
    exact removed.bestExact front.found queued
      (kept left front (by simp [removesMaker, live, group, mode])) exact
  | decrementAll left front live group mode whole removed =>
    exact removed.bestExact front.found queued
      (kept left front (by simp [removesMaker, live, group, mode, whole])) exact
  | decrementPart _ _ _ _ _ taken => exact taken.bestExact queued exact
  | fillPart _ _ _ _ taken => exact taken.bestExact queued exact
  | fillAll left front live apart whole taken _ removed =>
    have clear := kept left front (by simp [removesMaker, live, apart, whole])
    obtain ⟨order, held, same⟩ := Arena.find_of_resting removed.found
    rw [← same] at removed
    exact removed.bestExact held taken.represents.toQueued
      (fun hides => clear (taken.hidesBetter hides)) (taken.bestExact queued exact)

/-! ## Whole sweeps -/

section Whole

variable (inv : MatchingEngine config → Prop) {start : Sweep config}
  (kept : ∀ sweep queues flow, Visits (matchStep taker) start sweep →
    sweep.engine.Sound queues → inv sweep.engine → matchStep taker sweep = .ok flow →
    Iteration taker queues sweep flow → inv (flowEngine flow))
include kept

/-- What every iteration of a sweep keeps holds at every state it visits. -/
theorem visits_keeps (sound : start.engine.Sound queues) (initial : inv start.engine)
    (visits : Visits (matchStep taker) start sweep) :
    (∃ queues', sweep.engine.Sound queues') ∧ inv sweep.engine := by
  induction visits with
  | refl => exact ⟨⟨queues, sound⟩, initial⟩
  | tail seen step ih =>
    obtain ⟨⟨queues', sound'⟩, held⟩ := ih
    have iteration := matchStep_cases sound' step
    exact ⟨iteration.sound sound', kept _ queues' _ seen sound' held step iteration⟩

/-- What every iteration of a sweep keeps holds at its end, where the last iteration meets a
visited state. -/
theorem sweep_keeps {qty : UInt64} {result : SweepResult config} (begins : start = ⟨engine, qty⟩)
    (sound : engine.Sound queues) (initial : inv engine)
    (swept : engine.matchAgainstBook taker qty = .ok result) :
    ∃ last queues', Visits (matchStep taker) start last ∧ last.engine.Sound queues' ∧
      inv last.engine ∧ Iteration taker queues' last (.done result) ∧ inv result.engine := by
  subst begins
  obtain ⟨last, visits, exit⟩ := loop_exit swept
  obtain ⟨⟨queues', sound'⟩, held⟩ := visits_keeps inv kept sound initial visits
  have iteration := matchStep_cases sound' exit
  exact ⟨last, queues', visits, sound', held, iteration,
    kept last queues' _ visits sound' held exit iteration⟩

end Whole

/-- A sweep shrinks the arena. -/
theorem matchAgainstBook_shrinks {taker : Taker} {qty : UInt64} {result : SweepResult config}
    (sound : engine.Sound queues) (swept : engine.matchAgainstBook taker qty = .ok result) :
    engine.arena.Shrinks result.engine.arena := by
  obtain ⟨-, -, -, -, -, -, shrinks⟩ := sweep_keeps
    (fun state => engine.arena.Shrinks state.arena)
    (fun sweep queues' flow _ sound' before _ iteration =>
      before.trans sound.rep.toQueued (iteration.shrinks sound'))
    rfl sound (Arena.Shrinks.refl _) swept
  exact shrinks

/-! ## The sweeps of a call -/

/-- A call hands an order to `process_new_order` at a site, where it passes its checks, and the
sweep of the book for it gets to a state. -/
structure Sweeps (engine : MatchingEngine config) (command : Command)
    (site : MatchingEngine config) (order : NewOrder) (sweep : Sweep config) : Prop where
  /-- The order is submitted at the site. -/
  submits : Submits engine command site order
  /-- It is matched on arrival. -/
  matched : order.Matched
  /-- It passes its checks. -/
  checked : site.refusal order = .ok none
  /-- The sweep gets to the state. -/
  visits : Visits (matchStep (takerOf order)) ⟨site.accept order, order.qty⟩ sweep

/-- A call inserts a quantity of an order at an engine: of a post-only order that does not cross,
or the remainder of an order that was matched. -/
inductive RestsAt (engine : MatchingEngine config) (command : Command) :
    MatchingEngine config → NewOrder → UInt64 → Prop
  /-- The order is post-only. -/
  | posted {site order} (submits : Submits engine command site order)
      (kind : order.orderType = .postOnly)
      (apart : ∀ price, site.book.best order.side.opposite = some price →
        isPriceAcceptable order.side order.price price = false) :
    RestsAt engine command (site.accept order) order order.qty
  /-- The order was matched. -/
  | remainder {site order} {result : SweepResult config}
      (submits : Submits engine command site order) (kind : order.Matched)
      (checked : site.refusal order = .ok none)
      (swept : (site.accept order).matchAgainstBook (takerOf order) order.qty = .ok result)
      (free : result.cancelIncoming = false) (left : result.remaining ≠ 0)
      (keeps : order.Keeps) :
    RestsAt engine command result.engine order result.remaining

/-! ## What a call keeps of its book -/

/-- What a call does to its book and its orders keeps a property of them: the removal of the order
that the command names, the iterations of its sweeps, and its insertions. -/
structure KeepsBook (engine : MatchingEngine config) (command : Command)
    (holds : OrderBook config.maxTicks → Arena → Prop) : Prop where
  /-- Removing the order that is cancelled or modified keeps it. -/
  removes : ∀ {id index order queues book arena},
    (command = .cancelOrder id ∨ ∃ newPrice newQty, command = .modifyOrder id newPrice newQty) →
    engine.clearEvents.book.lookup id = some index → engine.clearEvents.Sound queues →
    engine.clearEvents.arena.find index = some order →
    Removed engine.clearEvents.book engine.clearEvents.arena queues order.unlinked index book
      arena →
    holds engine.clearEvents.book engine.clearEvents.arena → holds book arena
  /-- An iteration of a sweep keeps it. -/
  iterates : ∀ {site order sweep queues flow}, Sweeps engine command site order sweep →
    sweep.engine.Sound queues → Iteration (takerOf order) queues sweep flow →
    holds sweep.engine.book sweep.engine.arena →
    holds (flowEngine flow).book (flowEngine flow).arena
  /-- Resting an order keeps it. -/
  rests : ∀ {site order qty queues after}, RestsAt engine command site order qty →
    site.Sound queues → Rested site queues order qty after → holds site.book site.arena →
    holds after.book after.arena

section Keeps

variable {command : Command} {site : MatchingEngine config} {order : NewOrder}
  {holds : OrderBook config.maxTicks → Arena → Prop}

/-- What the iterations of the sweeps keep holds at every state of a sweep. -/
theorem KeepsBook.swept (keeps : KeepsBook engine command holds) (sound : site.Sound queues)
    (initial : holds site.book site.arena) (sweeps : Sweeps engine command site order sweep) :
    (∃ queues', sweep.engine.Sound queues') ∧ holds sweep.engine.book sweep.engine.arena :=
  visits_keeps (fun state => holds state.book state.arena)
    (fun _ _ _ visits sound' held _ iteration => keeps.iterates
      ⟨sweeps.submits, sweeps.matched, sweeps.checked, visits⟩ sound' iteration held)
    (sound.accept order) initial sweeps.visits

/-- The last iteration of a sweep meets a state of it, and what the iterations keep holds there
and at the end. -/
theorem KeepsBook.sweptOut (keeps : KeepsBook engine command holds) (sound : site.Sound queues)
    (initial : holds site.book site.arena) (submits : Submits engine command site order)
    (matched : order.Matched) (checked : site.refusal order = .ok none)
    {result : SweepResult config}
    (swept : (site.accept order).matchAgainstBook (takerOf order) order.qty = .ok result) :
    ∃ last queues', Sweeps engine command site order last ∧ last.engine.Sound queues' ∧
      holds last.engine.book last.engine.arena ∧
      Iteration (takerOf order) queues' last (.done result) ∧
      holds result.engine.book result.engine.arena := by
  obtain ⟨last, visits, exit⟩ := loop_exit swept
  have sweeps : Sweeps engine command site order last := ⟨submits, matched, checked, visits⟩
  obtain ⟨⟨queues', sound'⟩, held⟩ := keeps.swept sound initial sweeps
  have iteration := matchStep_cases sound' exit
  exact ⟨last, queues', sweeps, sound', held, iteration, keeps.iterates sweeps sound' iteration held⟩

/-- What a call keeps of its book, every part of the call keeps. -/
theorem KeepsBook.kept (keeps : KeepsBook engine command holds) :
    Kept engine command fun state =>
      (∃ queues, state.Sound queues) ∧ holds state.book state.arena where
  cancels id after asked := by
    rintro ⟨⟨queues, sound⟩, held⟩ returned
    refine ⟨(sound_kept engine command).cancels id after asked ⟨queues, sound⟩ returned, ?_⟩
    cases processCancel_cases sound returned with
    | missing => exact held
    | removed named found _ removed => exact keeps.removes (.inl asked) named sound found removed held
  withdraws id newPrice newQty index site order asked := by
    rintro ⟨⟨queues, sound⟩, held⟩ named withdrawn
    refine ⟨(sound_kept engine command).withdraws id newPrice newQty index site order asked
      ⟨queues, sound⟩ named withdrawn, ?_⟩
    cases withdraw_cases sound named withdrawn with
    | removed found removed =>
      exact keeps.removes (.inr ⟨newPrice, newQty, asked⟩) named sound found removed held
  misses _ _ _ _ := by
    rintro ⟨⟨queues, sound⟩, held⟩
    exact ⟨⟨queues, sound.congr rfl rfl⟩, held⟩
  fires _ _ _ _ _ fired := by
    rintro ⟨⟨queues, sound⟩, held⟩
    refine ⟨⟨queues, sound.congr fired.kept.1 fired.kept.2⟩, ?_⟩
    rw [fired.kept.1, fired.kept.2]
    exact held
  handles site order after submits := by
    rintro ⟨⟨queues, sound⟩, held⟩ returned
    have handled := processNewOrder_cases sound returned
    refine ⟨handled.sound sound, ?_⟩
    cases handled with
    | rejected => exact held
    | parked _ _ book arena =>
      rw [book, arena]
      exact held
    | posted kind apart rested =>
      exact keeps.rests (.posted submits kind apart) (sound.accept order) rested held
    | matched kind checks swept sound' settled =>
      obtain ⟨-, -, -, -, -, -, ended⟩ := keeps.sweptOut sound held submits kind checks swept
      cases settled with
      | prevented | filled | dropped => exact ended
      | rested free left stays rested =>
        exact keeps.rests (.remainder submits kind checks swept free left stays) sound' rested ended

/-- What a call keeps of its book holds in every engine of a run of such calls, when it holds of a
new one. -/
theorem KeepsBook.reaches {allowed : MatchingEngine config → Command → Prop}
    (keeps : ∀ engine command, allowed engine command → KeepsBook engine command holds)
    (initial : ∀ capacity, holds (new config capacity).book (new config capacity).arena)
    (reached : Reaches config allowed engine) :
    (∃ queues, engine.Sound queues) ∧ holds engine.book engine.arena := by
  refine Reached.invariant ?_ ?_ reached
  · rintro engine ⟨capacity, rfl⟩
    exact ⟨⟨_, sound_new config capacity⟩, initial capacity⟩
  · rintro engine command following ⟨⟨queues, sound⟩, held⟩ meets completed
    exact (keeps engine command meets).kept.returns ⟨⟨queues, sound.congr rfl rfl⟩, held⟩ completed

end Keeps

/-! ## Best prices -/

/-- No removal of a call hides a better price: neither that of the order that the command names
nor one of a sweep. -/
structure NoneHidden (engine : MatchingEngine config) (command : Command) : Prop where
  /-- The removal of the order that the command names hides none. -/
  target : ∀ id index, command.target = some id → engine.book.lookup id = some index →
    ¬HidesBetter engine.book engine.arena index
  /-- The removals of the sweeps hide none. -/
  makers : ∀ site order sweep, Sweeps engine command site order sweep →
    ¬Hides (takerOf order) sweep

/-- Whether a command submits its own order and no stop, and a test passes at every state of the
sweep for the order, if there is one. -/
def loneSweep (test : NewOrder → Sweep config → Bool) (engine : MatchingEngine config)
    (command : Command) : Bool :=
  engine.lone command && match command with
    | .newOrder _ order =>
      match (engine.clearEvents.accept order).matchAgainstBook (takerOf order) order.qty with
      | .ok _ => (states (matchStep (takerOf order))
          (engine.arena.len.toNat + order.qty.toNat + 1)
          ⟨engine.clearEvents.accept order, order.qty⟩).all (test order)
      | .error _ => false
    | _ => false

/-- Then the test passes at every state of the sweeps of the call. -/
theorem Sweeps.of_loneSweep {test : NewOrder → Sweep config → Bool} {command : Command}
    {site : MatchingEngine config} {order : NewOrder}
    (passes : loneSweep test engine command = true)
    (sweeps : Sweeps engine command site order sweep) : test order sweep = true := by
  unfold loneSweep at passes
  rw [Bool.and_eq_true] at passes
  obtain ⟨rfl, instrumentId, rfl⟩ := sweeps.submits.of_lone passes.1
  have listed := passes.2
  simp only at listed
  split at listed
  · rename_i result swept
    exact List.all_eq_true.mp listed sweep (sweeps.visits.mem_states swept)
  · contradiction

/-- A weaker test passes as well. -/
theorem loneSweep_mono {test test' : NewOrder → Sweep config → Bool} {command : Command}
    (weaker : ∀ order sweep, test order sweep = true → test' order sweep = true)
    (passes : loneSweep test engine command = true) : loneSweep test' engine command = true := by
  unfold loneSweep at passes ⊢
  rw [Bool.and_eq_true] at passes ⊢
  refine ⟨passes.1, ?_⟩
  cases command with
  | newOrder instrumentId order =>
    cases swept : (engine.clearEvents.accept order).matchAgainstBook (takerOf order) order.qty with
    | ok result =>
      simp only [swept] at passes ⊢
      exact List.all_eq_true.mpr fun sweep member =>
        weaker _ _ (List.all_eq_true.mp passes.2 sweep member)
    | error fault => simp [swept] at passes
  | cancelOrder | modifyOrder => simp at passes

section Exact

variable {command : Command} {site : MatchingEngine config} {order : NewOrder}

/-- A command that submits its own order and no stop hides no better price when every order rests
in the window at every state of its sweep. -/
theorem noneHidden_of_loneSweep
    (passes : loneSweep (fun _ sweep => windowOnly sweep.engine.book sweep.engine.arena)
      engine command = true) : NoneHidden engine command where
  target id index named := by
    cases command with
    | newOrder => contradiction
    | cancelOrder | modifyOrder => simp [loneSweep, lone] at passes
  makers site order sweep sweeps hides := by
    obtain ⟨-, index, maker, -, -, hides⟩ := hides
    exact not_hidesBetter (Sweeps.of_loneSweep passes sweeps) hides

/-- Resting an order keeps exact best prices exact. -/
theorem Rested.bestExact {qty : UInt64} (rep : Represents engine.book engine.arena queues)
    (exact : BestExact engine.book engine.arena) (rested : Rested engine queues order qty engine') :
    BestExact engine'.book engine'.arena := by
  cases rested with
  | refused => exact exact
  | inserted _ inserted => exact inserted.bestExact rep.toQueued exact

/-- A call that hides no better price keeps the best prices exact throughout. -/
theorem keepsBestExact (clear : NoneHidden engine command) :
    KeepsBook engine command BestExact where
  removes named held sound found removed exact := by
    refine removed.bestExact found sound.rep.toQueued (clear.target _ _ ?_ held) exact
    obtain rfl | ⟨newPrice, newQty, rfl⟩ := named
    · rfl
    · rfl
  iterates sweeps sound iteration exact :=
    iteration.bestExact sound (clear.makers _ _ _ sweeps) exact
  rests _ sound rested exact := rested.bestExact sound.rep exact

/-- The best prices of a new engine are exact. -/
theorem bestExact_new (config : InstrumentConfig) (capacity : UInt32) :
    BestExact (new config capacity).book (new config capacity).arena :=
  (sound_new config capacity).tracks.bestExact (sound_new config capacity).rep.toQueued
    fun side top best => absurd rfl ((sound_new config capacity).tracks.held side top best)

/-- The best prices are exact in every engine of a run that hides no better price. -/
theorem Reaches.bestExact (reached : Reaches config NoneHidden engine) :
    (∃ queues, engine.Sound queues) ∧ BestExact engine.book engine.arena :=
  KeepsBook.reaches (fun _ _ => keepsBestExact) (bestExact_new config) reached

end Exact

end MatchingEngine

end MatchX
