import MatchX.Engine.Inside
import Mathlib.Data.List.Find

/-!
# New names for sides, prices, ids and groups

The engine looks at little of what it is given: which of two prices is better, whether two ids
are the same, whether two self-trade groups are the same, and quantities. A relabelling renames
ids and groups one to one, and the prices that it covers in their order; or it exchanges the sides
and renames the prices in the opposite order. Renaming every command renames every event and every
resting order, and changes nothing else. Only the stops tell the sides apart, as buy stops are
triggered first, so an exchange of the sides is no renaming of stop orders. All this is shown of
the reference engine, part by part, and holds of every engine whose commands are plain.
-/

namespace MatchX

open MatchX.Support
open MatchingEngine (Taker sameGroup effectivePrice takerOf insertStop replacement)

/-- New names that keep what the engine looks at. -/
structure Relabelling where
  /-- The prices that are renamed in their order. -/
  covers : UInt64 → Prop
  /-- The new side. -/
  side : Side → Side
  /-- The new price. -/
  price : UInt64 → UInt64
  /-- The new id. -/
  id : OrderId → OrderId
  /-- The new group. -/
  group : UInt32 → UInt32
  /-- Opposite sides stay opposite. -/
  opposite : ∀ here, side here.opposite = (side here).opposite
  /-- Better prices stay better. -/
  better : ∀ {first second} here, covers first → covers second →
    OrderBook.better (side here) (price first) (price second) = OrderBook.better here first second
  /-- Different orders stay different. -/
  ids : Function.Injective id
  /-- Different groups stay different. -/
  groups : Function.Injective group
  /-- No group stays no group. -/
  ungrouped : group stpNone = stpNone
  /-- By how much later events are numbered. -/
  later : UInt64

namespace Relabelling

variable (names : Relabelling)

/-! ## What is renamed -/

/-- The sides are exchanged. -/
def Turns : Prop := names.side .bid = .ask

/-- A resting order under its new names. -/
def order (order : Order) : Order :=
  { order with
    id := names.id order.id
    side := names.side order.side
    price := names.price order.price
    stpGroup := names.group order.stpGroup }

/-- A submitted order under its new names. -/
def newOrder (order : NewOrder) : NewOrder :=
  { order with
    id := names.id order.id
    side := names.side order.side
    price := names.price order.price
    stopPrice := order.stopPrice.map names.price
    stpGroup := order.stpGroup.map names.group }

/-- A pending stop under its new names. -/
def stop (pending : UInt64 × StopEntry) : UInt64 × StopEntry :=
  (names.price pending.1, { pending.2 with
    id := names.id pending.2.id
    side := names.side pending.2.side
    limitPrice := names.price pending.2.limitPrice
    stpGroup := pending.2.stpGroup.map names.group })

/-- What an event reports, under the new names. -/
def body : EventBody → EventBody
  | .orderAccepted id side price qty orderType =>
    .orderAccepted (names.id id) (names.side side) (names.price price) qty orderType
  | .orderRejected id reason => .orderRejected (names.id id) reason
  | .fill makerId takerId price qty makerLeft takerLeft =>
    .fill (names.id makerId) (names.id takerId) (names.price price) qty makerLeft takerLeft
  | .orderCancelled id left => .orderCancelled (names.id id) left
  | .orderModified id newPrice newQty =>
    .orderModified (names.id id) (names.price newPrice) newQty
  | .bookUpdate side price qty => .bookUpdate (names.side side) (names.price price) qty
  | .stopTriggered stopId newId => .stopTriggered (names.id stopId) (names.id newId)

/-- An event under the new names, numbered later. -/
def event (event : MatchEvent) : MatchEvent where
  info := ⟨event.info.sequence + names.later, event.info.timestampNs + names.later⟩
  body := names.body event.body

/-- A command under the new names. -/
def command : Command → Command
  | .newOrder instrumentId order => .newOrder instrumentId (names.newOrder order)
  | .cancelOrder id => .cancelOrder (names.id id)
  | .modifyOrder id newPrice newQty => .modifyOrder (names.id id) (names.price newPrice) newQty

/-- A submitted order can be renamed. -/
structure CoversOrder (order : NewOrder) : Prop where
  /-- Its price is covered. -/
  price : names.covers order.price
  /-- Its stop price is covered. -/
  stopPrice : ∀ stopPx ∈ order.stopPrice, names.covers stopPx
  /-- It is no stop order when the sides are exchanged. -/
  turns : names.Turns → order.orderType ≠ .stopLimit

/-- A command can be renamed. -/
def CoversCommand : Command → Prop
  | .newOrder _ order => names.CoversOrder order
  | .cancelOrder _ => True
  | .modifyOrder _ newPrice _ => names.covers newPrice

/-- A book is another one under the new names. -/
structure Books (lines lines' : ReferenceBook) : Prop where
  /-- The orders of each side are renamed. -/
  items : ∀ side, (lines' (names.side side)).items = (lines side).items.map names.order
  /-- Their prices are covered. -/
  covered : ∀ side, ∀ order ∈ (lines side).items, names.covers order.price
  /-- Their ids differ. -/
  distinct : (lines.orders.map Order.id).Nodup

/-- A queue of stops is another one under the new names. -/
structure Stops (stops stops' : List (UInt64 × StopEntry)) : Prop where
  /-- The stops are renamed. -/
  entries : stops' = stops.map names.stop
  /-- Their prices are covered. -/
  covered : ∀ pending ∈ stops, names.covers pending.1 ∧ names.covers pending.2.limitPrice

/-- A reference engine is another one under the new names. -/
structure Engines (state state' : ReferenceEngine) : Prop where
  /-- As many orders may rest. -/
  capacity : state'.capacity = state.capacity
  /-- The resting orders are renamed. -/
  book : names.Books state.book state'.book
  /-- The events are numbered later. -/
  sequence : state'.sequence = state.sequence + names.later
  /-- The clock is later. -/
  timestampNs : state'.timestampNs = state.timestampNs + names.later
  /-- The events are renamed. -/
  eventBuf : state'.eventBuf = state.eventBuf.map names.event
  /-- The buy stops are renamed. -/
  stopBids : names.Stops state.stopBids state'.stopBids
  /-- The sell stops are renamed. -/
  stopAsks : names.Stops state.stopAsks state'.stopAsks
  /-- No stop is pending when the sides are exchanged. -/
  turns : names.Turns → state.stopBids = [] ∧ state.stopAsks = []
  /-- The last trade price is renamed. -/
  lastTradePrice : state'.lastTradePrice = state.lastTradePrice.map names.price
  /-- The last trade price is covered. -/
  covered : ∀ price ∈ state.lastTradePrice, names.covers price

/-- A sweep is another one under the new names. -/
structure Sweeps (sweep sweep' : ReferenceEngine.Sweep) : Prop where
  /-- As much remains. -/
  remaining : sweep'.remaining = sweep.remaining
  /-- The engine is renamed. -/
  engine : names.Engines sweep.engine sweep'.engine

/-- The end of a sweep is another one under the new names. -/
structure Results (result result' : ReferenceEngine.SweepResult) : Prop where
  /-- As much remains. -/
  remaining : result'.remaining = result.remaining
  /-- The taker fares alike. -/
  cancelIncoming : result'.cancelIncoming = result.cancelIncoming
  /-- The engine is renamed. -/
  engine : names.Engines result.engine result'.engine

/-- A taker is another one under the new names: it accepts the same covered prices. -/
structure Takers (taker taker' : Taker) : Prop where
  /-- The id is the new one. -/
  id : taker'.id = names.id taker.id
  /-- The side is the new one. -/
  side : taker'.side = names.side taker.side
  /-- The group is the new one. -/
  group : taker'.stpGroup = taker.stpGroup.map names.group
  /-- The same prices are accepted. -/
  accepts : ∀ price, names.covers price →
    isPriceAcceptable taker'.side taker'.price (names.price price) =
      isPriceAcceptable taker.side taker.price price

variable {names} {taker taker' : Taker} {maker : Order} {id : OrderId} {qty : UInt64}
  {lines lines' : ReferenceBook} {side : Side} {price first second limit limit' : UInt64}
  {state state' : ReferenceEngine} {order : NewOrder}

/-! ## Orders and prices -/

/-- The sides are kept or exchanged. -/
theorem side_cases (names : Relabelling) :
    (∀ here, names.side here = here) ∨ ∀ here, names.side here = here.opposite := by
  have asks : names.side .ask = (names.side .bid).opposite := names.opposite .bid
  cases bids : names.side .bid with
  | bid =>
    rw [bids] at asks
    exact .inl fun here => by cases here <;> assumption
  | ask =>
    rw [bids] at asks
    exact .inr fun here => by cases here <;> assumption

/-- Different sides stay different. -/
theorem side_injective (names : Relabelling) : Function.Injective names.side := by
  intro here there same
  rcases names.side_cases with kept | turned
  · rwa [kept, kept] at same
  · rw [turned, turned] at same
    cases here <;> cases there <;> first | rfl | contradiction

/-- Every side is the new one of a side. -/
theorem exists_side (names : Relabelling) (here : Side) : ∃ there, names.side there = here := by
  rcases names.side_cases with kept | turned
  · exact ⟨here, kept here⟩
  · refine ⟨here.opposite, (turned here.opposite).trans ?_⟩
    cases here <;> rfl

/-- Unless the sides are exchanged they are kept. -/
theorem side_kept (still : ¬names.Turns) (here : Side) : names.side here = here := by
  rcases names.side_cases with kept | turned
  · exact kept here
  · exact absurd (turned .bid) still

/-- Unless the sides are exchanged higher prices stay higher. -/
theorem price_lt (still : ¬names.Turns) (covered : names.covers first)
    (covered' : names.covers second) : names.price first < names.price second ↔ first < second := by
  have better := names.better .ask covered covered'
  rw [side_kept still] at better
  exact decide_eq_decide.mp better

/-- Different prices stay different. -/
theorem prices (covered : names.covers first) (covered' : names.covers second) :
    names.price first = names.price second ↔ first = second := by
  constructor
  · intro same
    have ahead := names.better .bid covered covered'
    have behind := names.better .bid covered' covered
    rw [same, (better_precedence _).irrefl] at ahead behind
    exact (better_precedence .bid).total ahead.symm behind.symm
  · exact congrArg names.price

/-- A price is acceptable unless the limit is better, seen from where it rests. -/
theorem isPriceAcceptable_eq (side : Side) (limit price : UInt64) :
    isPriceAcceptable side limit price = !OrderBook.better side price limit := by
  cases side <;> simp only [isPriceAcceptable, OrderBook.better, ← decide_not, UInt64.not_lt]

/-- The same prices are acceptable to a limit. -/
theorem isPriceAcceptable_price (side : Side) (covered : names.covers limit)
    (covered' : names.covers price) :
    isPriceAcceptable (names.side side) (names.price limit) (names.price price) =
      isPriceAcceptable side limit price := by
  rw [isPriceAcceptable_eq, isPriceAcceptable_eq, names.better side covered' covered]

/-- A submitted order becomes the renamed taker. -/
theorem CoversOrder.takers (covers : names.CoversOrder order) :
    names.Takers (takerOf order) (takerOf (names.newOrder order)) := by
  obtain ⟨id, side, price, qty, orderType, timeInForce, visibleQty, stopPrice, group⟩ := order
  refine ⟨rfl, rfl, rfl, fun other covered => ?_⟩
  cases orderType with
  | market =>
    -- A market order accepts every price under its old and under its new name.
    have most : ∀ word : UInt64, word ≤ u64Max := fun word => by
      rw [UInt64.le_iff_toNat_le]
      have := word.toNat_lt
      have top : u64Max.toNat = 18446744073709551615 := rfl
      omega
    have every : ∀ {sold : NewOrder}, sold.orderType = .market → ∀ price,
        isPriceAcceptable sold.side (effectivePrice sold) price = true := by
      rintro ⟨id, side, limit, qty, orderType, timeInForce, visibleQty, stopPrice, group⟩ rfl price
      cases side <;> simp [effectivePrice, isPriceAcceptable, most]
    let sold : NewOrder :=
      ⟨id, side, price, qty, .market, timeInForce, visibleQty, stopPrice, group⟩
    have renamed := @every (names.newOrder sold) rfl (names.price other)
    have original := @every sold rfl other
    exact renamed.trans original.symm
  | limit | postOnly | stopLimit | iceberg => exact isPriceAcceptable_price side covers.price covered

/-- A maker of the taker's group is one under the new names. -/
theorem Takers.sameGroup (same : names.Takers taker taker') (maker : Order) :
    sameGroup taker' (names.order maker) = sameGroup taker maker := by
  simp only [MatchingEngine.sameGroup, same.group]
  cases taker.stpGroup with
  | none => rfl
  | some group =>
    have real : (names.group maker.stpGroup != stpNone) = (maker.stpGroup != stpNone) := by
      have named := names.groups.eq_iff (a := maker.stpGroup) (b := stpNone)
      rw [names.ungrouped] at named
      exact congrArg not (decide_eq_decide.mpr named)
    have named : (names.group group == names.group maker.stpGroup) = (group == maker.stpGroup) :=
      decide_eq_decide.mpr names.groups.eq_iff
    simp only [Option.map_some, Relabelling.order, real, named]

/-! ## Resting orders -/

namespace Books

/-- An order that is inserted is listed in addition. -/
theorem orders_insert (lines : ReferenceBook) (maker : Order) :
    (lines.insert maker).orders.Perm (maker :: lines.orders) := by
  have placed : ∀ side, (Priority.place Order.price (OrderBook.better side) maker
      (lines side).items).Perm (maker :: (lines side).items) := fun side =>
    List.perm_orderedInsert _ maker _
  unfold ReferenceBook.orders ReferenceBook.insert
  cases side : maker.side with
  | bid => exact (placed .bid).append_right _
  | ask => exact ((placed .ask).append_left _).trans List.perm_middle

/-- Inserting a renamed order. -/
theorem insert (same : names.Books lines lines') (covered : names.covers maker.price)
    (unused : lines.find? maker.id = none) :
    names.Books (lines.insert maker) (lines'.insert (names.order maker)) := by
  constructor
  · intro here
    have joins : names.side here = (names.order maker).side ↔ here = maker.side :=
      names.side_injective.eq_iff
    simp only [ReferenceBook.insert, joins]
    split
    · have placed : (Priority.place Order.price (OrderBook.better here) maker
            (lines here).items).map names.order =
          Priority.place Order.price (OrderBook.better (names.side here)) (names.order maker)
            ((lines here).items.map names.order) :=
        Priority.map_place fun other member =>
          ⟨names.better here covered (same.covered here other member),
            names.better here (same.covered here other member) covered⟩
      simp only [Priority.insert, same.items, placed]
    · exact same.items here
  · intro here other member
    simp only [ReferenceBook.insert] at member
    split at member
    · rcases (List.mem_orderedInsert _).mp member with rfl | member
      · exact covered
      · exact same.covered here other member
    · exact same.covered here other member
  · have apart : maker.id ∉ lines.orders.map Order.id := fun listed => by
      obtain ⟨other, member, sameId⟩ := List.mem_map.mp listed
      have found := List.find?_eq_none.mp unused other member
      exact found (decide_eq_true sameId)
    have joined := (orders_insert lines maker).map Order.id
    exact joined.nodup_iff.mpr (List.nodup_cons.mpr ⟨apart, same.distinct⟩)

/-- Deleting a renamed order. -/
theorem delete (same : names.Books lines lines') (id : OrderId) :
    names.Books (lines.delete id) (lines'.delete (names.id id)) := by
  constructor
  · intro side
    simp only [ReferenceBook.delete, Priority.keep, same.items, List.filter_map]
    refine congrArg (List.map names.order) (List.filter_congr fun maker _ => ?_)
    exact decide_eq_decide.mpr (not_congr names.ids.eq_iff)
  · intro side maker member
    exact same.covered side maker (List.mem_filter.mp member).1
  · have fewer : (lines.delete id).orders.Sublist lines.orders :=
      List.filter_sublist.append List.filter_sublist
    exact same.distinct.sublist (fewer.map Order.id)

/-- Filling a renamed order. -/
theorem fill (same : names.Books lines lines') (id : OrderId) (qty : UInt64) :
    names.Books (lines.fill id qty) (lines'.fill (names.id id) qty) := by
  constructor
  · intro side
    simp only [ReferenceBook.fill, Priority.change, same.items, List.map_map]
    refine List.map_congr_left fun maker _ => ?_
    have named : (names.order maker).id = names.id maker.id := rfl
    simp only [Function.comp_apply, named, names.ids.eq_iff]
    split <;> rfl
  · intro side maker member
    obtain ⟨old, listed, rfl⟩ := List.mem_map.mp member
    have covered := same.covered side old listed
    split
    · exact covered
    · exact covered
  · have still : (lines.fill id qty).orders.map Order.id = lines.orders.map Order.id := by
      simp only [ReferenceBook.orders, ReferenceBook.fill, Priority.change, ← List.map_append,
        List.map_map]
      refine List.map_congr_left fun maker _ => ?_
      rw [Function.comp_apply]
      split <;> rfl
    rw [still]
    exact same.distinct

/-- The renamed orders are listed, those of one side before those of the other. -/
theorem orders (same : names.Books lines lines') :
    (lines.orders.map names.order).Perm lines'.orders := by
  have bids := same.items .bid
  have asks := same.items .ask
  rw [ReferenceBook.orders, ReferenceBook.orders, List.map_append, ← bids, ← asks]
  rcases names.side_cases with kept | turned
  · rw [kept, kept]
  · rw [turned, turned]
    exact List.perm_append_comm

/-- As many orders rest. -/
theorem length_orders (same : names.Books lines lines') :
    lines'.orders.length = lines.orders.length := by
  rw [← same.orders.length_eq, List.length_map]

/-- The prices of the listed orders are covered. -/
theorem orders_covered (same : names.Books lines lines') (listed : maker ∈ lines.orders) :
    names.covers maker.price := by
  rcases List.mem_append.mp listed with bid | ask
  · exact same.covered _ _ bid
  · exact same.covered _ _ ask

/-- A renamed order is found under its new id. -/
theorem find? (same : names.Books lines lines') (id : OrderId) :
    lines'.find? (names.id id) = (lines.find? id).map names.order := by
  have alike : (fun maker => decide (maker.id = names.id id)) ∘ names.order =
      fun maker => decide (maker.id = id) := by
    funext maker
    exact decide_eq_decide.mpr names.ids.eq_iff
  have once : {maker | maker ∈ lines.orders.map names.order ∧
      decide (maker.id = names.id id) = true}.Subsingleton := by
    rintro first ⟨listed, named⟩ second ⟨listed', named'⟩
    obtain ⟨one, member, rfl⟩ := List.mem_map.mp listed
    obtain ⟨other, member', rfl⟩ := List.mem_map.mp listed'
    have sameId : one.id = other.id :=
      names.ids ((of_decide_eq_true named).trans (of_decide_eq_true named').symm)
    rw [List.inj_on_of_nodup_map same.distinct member member' sameId]
  have found := List.find?_eq_find?_of_perm same.orders once
  rw [List.find?_map, alike] at found
  exact found.symm

/-- The price of an order that is found is covered. -/
theorem found_covered (same : names.Books lines lines') (found : lines.find? id = some maker) :
    names.covers maker.price :=
  same.orders_covered (List.mem_of_find?_eq_some found)

/-- The total of a price is the same under its new name. -/
theorem total (same : names.Books lines lines') (side : Side) (covered : names.covers price) :
    lines'.total (names.side side) (names.price price) = lines.total side price := by
  simp only [ReferenceBook.total, Priority.queue, same.items, List.filter_map, List.map_map]
  refine congrArg (fun orders => UInt64.ofNat (List.sum (List.map _ orders))) ?_
  refine List.filter_congr fun maker member => ?_
  exact decide_eq_decide.mpr (prices (same.covered side maker member) covered)

/-- What rests within a limit is the same under the new names. -/
theorem liquidity {within within' : UInt64 → Bool} (same : names.Books lines lines') (side : Side)
    (accepts : ∀ price, names.covers price → within' (names.price price) = within price) :
    lines'.liquidity (names.side side) within' = lines.liquidity side within := by
  simp only [ReferenceBook.liquidity, same.items, List.filter_map, List.map_map]
  refine congrArg (fun orders => List.sum (List.map _ orders)) ?_
  exact List.filter_congr fun maker member => accepts _ (same.covered side maker member)

end Books

/-! ## Reports -/

namespace Engines

/-- The next number is as much later. -/
theorem next_later (names : Relabelling) (number : UInt64) :
    number + names.later + 1 = number + 1 + names.later := by
  rw [UInt64.add_assoc, UInt64.add_comm names.later 1, ← UInt64.add_assoc]

/-- An event is reported under the new names. -/
theorem emit (same : names.Engines state state') (body : EventBody) :
    names.Engines (state.emit body) (state'.emit (names.body body)) where
  capacity := same.capacity
  book := same.book
  sequence := by
    simp only [ReferenceEngine.emit, same.sequence, next_later]
  timestampNs := by
    simp only [ReferenceEngine.emit, same.timestampNs, next_later]
  eventBuf := by
    simp only [ReferenceEngine.emit, same.eventBuf, same.sequence, same.timestampNs,
      List.map_append, List.map_cons, List.map_nil, event, next_later]
  stopBids := same.stopBids
  stopAsks := same.stopAsks
  turns := same.turns
  lastTradePrice := same.lastTradePrice
  covered := same.covered

/-- The resting orders change to renamed ones. -/
theorem withBook (same : names.Engines state state') (books : names.Books lines lines') :
    names.Engines (state.withBook lines) (state'.withBook lines') :=
  { same with book := books }

/-- The total of a level is reported under the new names. -/
theorem emitLevel (same : names.Engines state state') (side : Side)
    (covered : names.covers price) :
    names.Engines (state.emitLevel side price)
      (state'.emitLevel (names.side side) (names.price price)) := by
  have reported := same.emit (.bookUpdate side price (state.book.total side price))
  rw [ReferenceEngine.emitLevel, ReferenceEngine.emitLevel, same.book.total side covered]
  exact reported

/-- The last trade price is renamed. -/
theorem traded (same : names.Engines state state') (covered : names.covers price) :
    names.Engines (state.traded price) (state'.traded (names.price price)) :=
  { same with
    lastTradePrice := rfl
    covered := fun _ last => Option.some.inj last ▸ covered }

/-- An order is accepted under the new names. -/
theorem accept (same : names.Engines state state') (order : NewOrder) :
    names.Engines (state.accept order) (state'.accept (names.newOrder order)) :=
  same.emit _

/-- The order of an id is deleted under its new name. -/
theorem delete (same : names.Engines state state') (id : OrderId) :
    names.Engines (state.withBook (state.book.delete id))
      (state'.withBook (state'.book.delete (names.id id))) :=
  same.withBook (same.book.delete id)

/-- The order of an id is filled under its new name. -/
theorem fill (same : names.Engines state state') (id : OrderId) (qty : UInt64) :
    names.Engines (state.withBook (state.book.fill id qty))
      (state'.withBook (state'.book.fill (names.id id) qty)) :=
  same.withBook (same.book.fill id qty)

/-- The first maker is the same one, renamed. -/
theorem firstMaker (same : names.Engines state state') (side : Side)
    (accepts : ∀ price, names.covers price →
      isPriceAcceptable (names.side side) limit' (names.price price) =
        isPriceAcceptable side limit price) :
    state'.firstMaker (names.side side) limit' =
      (state.firstMaker side limit).map names.order := by
  have first : (state'.book (names.side side).opposite).first? =
      (state.book side.opposite).first?.map names.order := by
    rw [← names.opposite]
    simp only [Priority.first?, same.book.items, List.head?_map]
  rw [ReferenceEngine.firstMaker, ReferenceEngine.firstMaker, first]
  cases best : (state.book side.opposite).first? with
  | none => rfl
  | some maker =>
    have alike : isPriceAcceptable (names.side side) limit' (names.order maker).price =
        isPriceAcceptable side limit maker.price :=
      accepts _ (same.book.covered _ maker (List.mem_of_head? best))
    rw [Option.map_some, Option.filter_some, Option.filter_some, alike]
    split <;> rfl

/-- The price of the first maker is covered. -/
theorem firstMaker_covered (same : names.Engines state state')
    (first : state.firstMaker side limit = some maker) : names.covers maker.price :=
  same.book.covered _ maker (List.mem_of_head? (Option.filter_eq_some_iff.mp first).1)

end Engines

/-! ## Sweeps -/

variable {sweep sweep' : ReferenceEngine.Sweep} {result result' : ReferenceEngine.SweepResult}

/-- A trade within a group is prevented alike. -/
theorem Sweeps.prevent (same : names.Sweeps sweep sweep') (mode : StpMode)
    (covered : names.covers maker.price) :
    Flow.Matching names.Sweeps names.Results (ReferenceEngine.prevent mode sweep maker)
      (ReferenceEngine.prevent mode sweep' (names.order maker)) := by
  obtain ⟨remaining, engine⟩ := same
  have left : (names.order maker).remaining = maker.remaining := rfl
  cases mode with
  | cancelNewest => exact .done ⟨remaining, rfl, engine⟩
  | cancelOldest =>
    have cancelled := (engine.delete maker.id).emit (.orderCancelled maker.id maker.remaining)
    exact .next ⟨remaining, cancelled.emitLevel maker.side covered⟩
  | cancelBoth =>
    have cancelled := (engine.delete maker.id).emit (.orderCancelled maker.id maker.remaining)
    exact .done ⟨remaining, rfl, cancelled.emitLevel maker.side covered⟩
  | decrementAndCancel =>
    simp only [ReferenceEngine.prevent, left, remaining]
    split
    · exact .done ⟨rfl, rfl, (engine.delete maker.id).emitLevel maker.side covered⟩
    · exact .done ⟨rfl, rfl, (engine.fill maker.id _).emitLevel maker.side covered⟩

/-- A trade is made alike. -/
theorem Sweeps.trade (same : names.Sweeps sweep sweep') (takers : names.Takers taker taker')
    (covered : names.covers maker.price) :
    names.Sweeps (ReferenceEngine.trade taker sweep maker)
      (ReferenceEngine.trade taker' sweep' (names.order maker)) := by
  obtain ⟨remaining, engine⟩ := same
  have left : (names.order maker).remaining = maker.remaining := rfl
  have slice : (names.order maker).matchableQty = maker.matchableQty := rfl
  have reported := (((engine.fill maker.id (min sweep.remaining maker.matchableQty)).emit
    (.fill maker.id taker.id maker.price (min sweep.remaining maker.matchableQty)
      (maker.remaining - min sweep.remaining maker.matchableQty)
      (sweep.remaining - min sweep.remaining maker.matchableQty))).traded covered).emitLevel
        maker.side covered
  simp only [ReferenceEngine.trade, left, slice, remaining, takers.id]
  split
  · exact ⟨rfl, reported.delete maker.id⟩
  · exact ⟨rfl, reported⟩

/-- A turn of a sweep is taken alike. -/
theorem Sweeps.turn (same : names.Sweeps sweep sweep') (mode : StpMode)
    (takers : names.Takers taker taker') :
    Flow.Matching names.Sweeps names.Results (ReferenceEngine.turn mode taker sweep)
      (ReferenceEngine.turn mode taker' sweep') := by
  have first : sweep'.engine.firstMaker taker'.side taker'.price =
      (sweep.engine.firstMaker taker.side taker.price).map names.order := by
    have accepts := takers.accepts
    rw [takers.side] at accepts ⊢
    exact same.engine.firstMaker taker.side accepts
  unfold ReferenceEngine.turn
  rw [same.remaining, first]
  split
  · exact .done ⟨rfl, rfl, same.engine⟩
  · cases best : sweep.engine.firstMaker taker.side taker.price with
    | none => exact .done ⟨rfl, rfl, same.engine⟩
    | some maker =>
      have covered := same.engine.firstMaker_covered best
      have left : (names.order maker).remaining = maker.remaining := rfl
      simp only [Option.map_some, left, takers.sameGroup]
      split
      · exact .next ⟨rfl, same.engine.delete maker.id⟩
      · split
        · exact same.prevent mode covered
        · exact .next (same.trade takers covered)

/-- A sweep goes alike. -/
theorem Engines.swept (same : names.Engines state state') (mode : StpMode)
    (takers : names.Takers taker taker') (qty : UInt64) :
    Simulates names.Results (ReferenceEngine.sweep mode state taker qty)
      (ReferenceEngine.sweep mode state' taker' qty) := by
  unfold ReferenceEngine.sweep
  rw [same.book.length_orders]
  have start : names.Sweeps ⟨state, qty⟩ ⟨state', qty⟩ := ⟨rfl, same⟩
  exact .loop (fun sweep sweep' _ (matching : names.Sweeps sweep sweep') =>
    .ok (matching.turn mode takers)) start _

/-! ## Orders -/

/-- What rests of a submitted order is renamed. -/
theorem resting_newOrder (order : NewOrder) (qty : UInt64) :
    (names.newOrder order).resting qty = names.order (order.resting qty) := by
  obtain ⟨id, side, price, total, orderType, timeInForce, visibleQty, stopPrice, group⟩ := order
  cases group with
  | none => simp [NewOrder.resting, Order.submitted, newOrder, Relabelling.order, names.ungrouped]
  | some group => rfl

namespace Engines

/-- A remainder rests alike. -/
theorem rest (same : names.Engines state state') (covers : names.CoversOrder order)
    (qty : UInt64) :
    names.Engines (state.rest order qty) (state'.rest (names.newOrder order) qty) := by
  have held : state'.book.find? (names.newOrder order).id =
      (state.book.find? order.id).map names.order := same.book.find? order.id
  have covered : names.covers (order.resting qty).price := covers.price
  simp only [ReferenceEngine.rest, held, same.book.length_orders, same.capacity, Option.isSome_map]
  split
  · exact (same.withBook same.book).emit (.bookUpdate order.side order.price qty)
  · rename_i free
    have unused : state.book.find? order.id = none := by
      simpa using (not_or.mp free).1
    rw [resting_newOrder]
    have inserted := same.withBook (same.book.insert covered unused)
    exact inserted.emit (.bookUpdate order.side order.price qty)

/-- An order is refused for the same reason. -/
theorem refusal (same : names.Engines state state') (mode : StpMode)
    (covers : names.CoversOrder order) :
    ReferenceEngine.refusal mode state' (names.newOrder order) =
      ReferenceEngine.refusal mode state order := by
  have takers := covers.takers
  have held : state'.book.find? (names.newOrder order).id =
      (state.book.find? order.id).map names.order := same.book.find? order.id
  have rests : state'.book.liquidity (names.side order.side).opposite
        (isPriceAcceptable (names.side order.side) (effectivePrice (names.newOrder order))) =
      state.book.liquidity order.side.opposite
        (isPriceAcceptable order.side (effectivePrice order)) := by
    rw [← names.opposite]
    exact same.book.liquidity order.side.opposite takers.accepts
  have first : state'.firstMaker (names.side order.side) (effectivePrice (names.newOrder order)) =
      (state.firstMaker order.side (effectivePrice order)).map names.order :=
    same.firstMaker order.side takers.accepts
  have own : ((state.firstMaker order.side (effectivePrice order)).map names.order).any
        (sameGroup (takerOf (names.newOrder order))) =
      (state.firstMaker order.side (effectivePrice order)).any (sameGroup (takerOf order)) := by
    cases state.firstMaker order.side (effectivePrice order) with
    | none => rfl
    | some maker => exact takers.sameGroup maker
  have side : (names.newOrder order).side = names.side order.side := rfl
  simp only [ReferenceEngine.refusal, held, side, rests, first, own, Option.isSome_map]
  rfl

/-- A post-only order is handled alike. -/
theorem post (same : names.Engines state state') (covers : names.CoversOrder order) :
    names.Engines (state.post order) (state'.post (names.newOrder order)) := by
  have first : state'.firstMaker (names.side order.side) (names.newOrder order).price =
      (state.firstMaker order.side order.price).map names.order :=
    same.firstMaker order.side fun _ => isPriceAcceptable_price order.side covers.price
  have side : (names.newOrder order).side = names.side order.side := rfl
  simp only [ReferenceEngine.post, side, first, Option.isSome_map]
  split
  · exact same.emit (.orderRejected order.id .wouldCrossSpread)
  · exact (same.accept order).rest covers order.qty

end Engines

/-- What remains is settled alike. -/
theorem Results.settle (same : names.Results result result') (covers : names.CoversOrder order) :
    names.Engines (ReferenceEngine.settle result order)
      (ReferenceEngine.settle result' (names.newOrder order)) := by
  have keeps : (names.newOrder order).Keeps ↔ order.Keeps := Iff.rfl
  have cancelled := same.engine.emit (.orderCancelled order.id result.remaining)
  simp only [ReferenceEngine.settle, same.cancelIncoming, same.remaining, keeps]
  split
  · exact cancelled
  · split
    · exact same.engine
    · split
      · exact same.engine.rest covers result.remaining
      · exact cancelled

/-- As many renamed items are ahead as items. -/
theorem partitionPoint_map {α β : Type} {name : α → β} {before : α → Bool} {before' : β → Bool}
    {items : List α} (respects : ∀ item ∈ items, before' (name item) = before item) :
    partitionPoint before' (items.map name) = partitionPoint before items := by
  induction items with
  | nil => rfl
  | cons item rest ih =>
    obtain ⟨here, behind⟩ := List.forall_mem_cons.mp respects
    have further := ih behind
    simp only [partitionPoint, List.map_cons, List.takeWhile_cons, here] at further ⊢
    split
    · exact congrArg (· + 1) further
    · rfl

/-- A renamed stop is placed where the stop is. -/
theorem Stops.insert {stops stops' : List (UInt64 × StopEntry)} (same : names.Stops stops stops')
    {stopPx : UInt64} {entry : StopEntry} (covered : names.covers stopPx)
    (covered' : names.covers entry.limitPrice) (before before' : UInt64 → Bool)
    (respects : ∀ price, names.covers price → before' (names.price price) = before price) :
    names.Stops (insertStop stops before stopPx entry)
      (insertStop stops' before' (names.stop (stopPx, entry)).1 (names.stop (stopPx, entry)).2) := by
  constructor
  · have ahead : partitionPoint (fun pending => before' pending.1) (stops.map names.stop) =
        partitionPoint (fun pending => before pending.1) stops :=
      partitionPoint_map fun pending member => respects _ (same.covered pending member).1
    rw [insertStop, insertStop, same.entries, ahead, List.map_insertIdx]
  · intro pending member
    rcases List.eq_or_mem_of_mem_insertIdx member with rfl | member
    · exact ⟨covered, covered'⟩
    · exact same.covered pending member

namespace Engines

/-- A stop order is handled alike. -/
theorem park (same : names.Engines state state') (covers : names.CoversOrder order)
    (kind : order.orderType = .stopLimit) :
    names.Engines (state.park order) (state'.park (names.newOrder order)) := by
  have still : ¬names.Turns := fun turned => covers.turns turned kind
  have qty : (names.newOrder order).qty = order.qty := rfl
  have trigger : (names.newOrder order).stopPrice = order.stopPrice.map names.price := rfl
  have side : (names.newOrder order).side = names.side order.side := rfl
  have accepted := same.accept order
  unfold ReferenceEngine.park
  rw [qty, trigger, side, side_kept still]
  split
  · exact same.emit (.orderRejected order.id .invalidQuantity)
  · cases stopPrice : order.stopPrice with
    | none => exact same.emit (.orderRejected order.id .invalidPrice)
    | some stopPx =>
      have covered : names.covers stopPx := covers.stopPrice stopPx stopPrice
      cases order.side with
      | bid =>
        exact { accepted with
          stopBids := accepted.stopBids.insert covered covers.price (· < stopPx)
            (· < names.price stopPx)
            fun price covered' => decide_eq_decide.mpr (price_lt still covered' covered)
          turns := fun turned => absurd turned still }
      | ask =>
        exact { accepted with
          stopAsks := accepted.stopAsks.insert covered covers.price (stopPx < ·)
            (names.price stopPx < ·)
            fun price covered' => decide_eq_decide.mpr (price_lt still covered covered')
          turns := fun turned => absurd turned still }

/-- An order is handled alike. -/
theorem submit (same : names.Engines state state') (mode : StpMode)
    (covers : names.CoversOrder order) :
    Simulates names.Engines (ReferenceEngine.submit mode state order)
      (ReferenceEngine.submit mode state' (names.newOrder order)) := by
  have kind : (names.newOrder order).orderType = order.orderType := rfl
  unfold ReferenceEngine.submit
  rw [kind, same.refusal mode covers]
  split
  · exact .ok (same.post covers)
  · rename_i waits
    exact .ok (same.park covers waits)
  · cases ReferenceEngine.refusal mode state order with
    | some reason => exact .ok (same.emit (.orderRejected order.id reason))
    | none =>
      refine .bind ((same.accept order).swept mode covers.takers order.qty) ?_
      exact fun result result' _ settled => .ok (settled.settle covers)

/-! ## Commands -/

/-- A cancel is handled alike. -/
theorem cancel (same : names.Engines state state') (id : OrderId) :
    names.Engines (state.cancel id) (state'.cancel (names.id id)) := by
  unfold ReferenceEngine.cancel
  rw [same.book.find?]
  cases found : state.book.find? id with
  | none => exact same.emit (.orderRejected id .orderNotFound)
  | some order =>
    have cancelled := (same.delete id).emit (.orderCancelled id order.remaining)
    exact cancelled.emitLevel order.side (same.book.found_covered found)

/-- A modification is handled alike. -/
theorem modify (same : names.Engines state state') (mode : StpMode) (id : OrderId)
    {newPrice : UInt64} (covered : names.covers newPrice) (newQty : UInt64) :
    Simulates names.Engines (ReferenceEngine.modify mode state id newPrice newQty)
      (ReferenceEngine.modify mode state' (names.id id) (names.price newPrice) newQty) := by
  unfold ReferenceEngine.modify
  rw [same.book.find?]
  cases found : state.book.find? id with
  | none => exact .ok (same.emit (.orderRejected id .orderNotFound))
  | some order =>
    have modified := (same.delete id).emit (.orderModified id newPrice newQty)
    have withdrawn := modified.emitLevel order.side (same.book.found_covered found)
    have covers : names.CoversOrder (replacement id order.side newPrice newQty) :=
      ⟨covered, fun _ none => by contradiction, fun _ => by simp [replacement]⟩
    exact withdrawn.submit mode covers

/-! ## Stops -/

/-- What a trigger finds in one engine it finds in the other. -/
def Triggers (names : Relabelling) : Option (ReferenceEngine × NewOrder) →
    Option (ReferenceEngine × NewOrder) → Prop
  | none, none => True
  | some (state, order), some (state', order') =>
    names.Engines state state' ∧ names.CoversOrder order ∧ order' = names.newOrder order
  | _, _ => False

/-- The next buy stop is triggered alike. -/
theorem triggerBuy (same : names.Engines state state') (covered : names.covers price) :
    Triggers names (ReferenceEngine.triggerBuy price state)
      (ReferenceEngine.triggerBuy (names.price price) state') := by
  unfold ReferenceEngine.triggerBuy
  rw [same.stopBids.entries]
  cases waiting : state.stopBids with
  | nil => trivial
  | cons first rest =>
    obtain ⟨stopPx, entry⟩ := first
    have still : ¬names.Turns := fun turned => by
      have idle := (same.turns turned).1
      rw [waiting] at idle
      contradiction
    have pending := same.stopBids.covered (stopPx, entry) (waiting ▸ List.mem_cons_self)
    have ahead : names.price price < names.price stopPx ↔ price < stopPx :=
      price_lt still covered pending.1
    simp only [List.map_cons, stop, ahead]
    split
    · trivial
    · refine ⟨?_, ⟨pending.2, fun _ none => by contradiction, fun turned => absurd turned still⟩,
        rfl⟩
      have taken : names.Engines { state with stopBids := rest }
          { state' with stopBids := rest.map names.stop } := { same with
        stopBids := ⟨rfl, fun other member => same.stopBids.covered other
          (waiting ▸ List.mem_cons_of_mem _ member)⟩
        turns := fun turned => absurd turned still }
      exact taken.emit (.stopTriggered entry.id entry.id)

/-- The next sell stop is triggered alike. -/
theorem triggerSell (same : names.Engines state state') (covered : names.covers price) :
    Triggers names (ReferenceEngine.triggerSell price state)
      (ReferenceEngine.triggerSell (names.price price) state') := by
  unfold ReferenceEngine.triggerSell
  rw [same.stopAsks.entries]
  cases waiting : state.stopAsks with
  | nil => trivial
  | cons first rest =>
    obtain ⟨stopPx, entry⟩ := first
    have still : ¬names.Turns := fun turned => by
      have idle := (same.turns turned).2
      rw [waiting] at idle
      contradiction
    have pending := same.stopAsks.covered (stopPx, entry) (waiting ▸ List.mem_cons_self)
    have ahead : names.price stopPx < names.price price ↔ stopPx < price :=
      price_lt still pending.1 covered
    simp only [List.map_cons, stop, ahead]
    split
    · trivial
    · refine ⟨?_, ⟨pending.2, fun _ none => by contradiction, fun turned => absurd turned still⟩,
        rfl⟩
      have taken : names.Engines { state with stopAsks := rest }
          { state' with stopAsks := rest.map names.stop } := { same with
        stopAsks := ⟨rfl, fun other member => same.stopAsks.covered other
          (waiting ▸ List.mem_cons_of_mem _ member)⟩
        turns := fun turned => absurd turned still }
      exact taken.emit (.stopTriggered entry.id entry.id)

/-- A triggered stop is submitted alike. -/
theorem fire (same : names.Engines state state') (mode : StpMode)
    {trigger trigger' : ReferenceEngine → Option (ReferenceEngine × NewOrder)}
    (triggers : Triggers names (trigger state) (trigger' state')) :
    Simulates (Flow.Matching names.Engines names.Engines)
      (ReferenceEngine.fire mode trigger state) (ReferenceEngine.fire mode trigger' state') := by
  unfold ReferenceEngine.fire
  cases found : trigger state with
  | none =>
    cases found' : trigger' state' with
    | none => exact .ok (.done same)
    | some fired' =>
      rw [found, found'] at triggers
      exact triggers.elim
  | some fired =>
    cases found' : trigger' state' with
    | none =>
      rw [found, found'] at triggers
      exact triggers.elim
    | some fired' =>
      rw [found, found'] at triggers
      obtain ⟨engine', order'⟩ := fired'
      obtain ⟨engines, covers, rfl⟩ := triggers
      exact .bind (engines.submit mode covers) fun _ _ _ submitted => .ok (.next submitted)

/-- The buy stops of a pass are submitted alike. -/
theorem drainBuys (same : names.Engines state state') (mode : StpMode)
    (covered : names.covers price) :
    Simulates names.Engines (ReferenceEngine.drainBuys mode price state)
      (ReferenceEngine.drainBuys mode (names.price price) state') := by
  unfold ReferenceEngine.drainBuys
  rw [same.stopBids.entries, List.length_map]
  exact .loop (fun _ _ _ matching => matching.fire mode (matching.triggerBuy covered)) same _

/-- The sell stops of a pass are submitted alike. -/
theorem drainSells (same : names.Engines state state') (mode : StpMode)
    (covered : names.covers price) :
    Simulates names.Engines (ReferenceEngine.drainSells mode price state)
      (ReferenceEngine.drainSells mode (names.price price) state') := by
  unfold ReferenceEngine.drainSells
  rw [same.stopAsks.entries, List.length_map]
  exact .loop (fun _ _ _ matching => matching.fire mode (matching.triggerSell covered)) same _

/-- A pass of the drain goes alike. -/
theorem drainPass (same : names.Engines state state') (mode : StpMode) :
    Simulates (Flow.Matching names.Engines names.Engines) (ReferenceEngine.drainPass mode state)
      (ReferenceEngine.drainPass mode state') := by
  unfold ReferenceEngine.drainPass
  rw [same.lastTradePrice]
  cases traded : state.lastTradePrice with
  | none => exact .ok (.done same)
  | some lastPrice =>
    have covered := same.covered lastPrice traded
    refine .bind (same.drainBuys mode covered) fun bought bought' _ same => ?_
    refine .bind (same.drainSells mode covered) fun sold sold' _ same => ?_
    have still : sold'.lastTradePrice = some (names.price lastPrice) ↔
        sold.lastTradePrice = some lastPrice := by
      rw [same.lastTradePrice]
      cases last : sold.lastTradePrice with
      | none => simp
      | some price => simp [prices (same.covered price last) covered]
    simp only [still]
    split
    · exact .ok (.done same)
    · exact .ok (.next same)

/-- A drain goes alike. -/
theorem drain (same : names.Engines state state') (mode : StpMode) :
    Simulates names.Engines (ReferenceEngine.drain mode state)
      (ReferenceEngine.drain mode state') := by
  unfold ReferenceEngine.drain
  rw [same.stopBids.entries, same.stopAsks.entries, List.length_map, List.length_map]
  exact .loop (fun _ _ _ matching => matching.drainPass mode) same _

/-! ## Calls and runs -/

/-- Reference engines are the same under the new names before any event of a call. -/
theorem clearEvents (same : names.Engines state state') :
    names.Engines state.clearEvents state'.clearEvents :=
  { same with eventBuf := rfl }

/-- A call goes alike. -/
theorem process (same : names.Engines state state') (mode : StpMode) {command : Command}
    (covers : names.CoversCommand command) :
    Simulates names.Engines (ReferenceEngine.process mode state command)
      (ReferenceEngine.process mode state' (names.command command)) := by
  have cleared := same.clearEvents
  have dispatched : Simulates names.Engines (ReferenceEngine.dispatch mode state.clearEvents command)
      (ReferenceEngine.dispatch mode state'.clearEvents (names.command command)) := by
    cases command with
    | newOrder instrumentId order => exact cleared.submit mode covers
    | cancelOrder id => exact .ok (cleared.cancel id)
    | modifyOrder id newPrice newQty => exact cleared.modify mode id covers newQty
  exact .bind dispatched fun _ _ _ same => same.drain mode

/-- A run goes alike, and each call reports the renamed events. -/
theorem replay (same : names.Engines state state') (mode : StpMode) {commands : List Command}
    (covers : ∀ command ∈ commands, names.CoversCommand command) :
    Simulates (fun outcome outcome' => names.Engines outcome.1 outcome'.1 ∧
        outcome'.2 = outcome.2.map (List.map names.event))
      (ReferenceEngine.replay mode state commands)
      (ReferenceEngine.replay mode state' (commands.map names.command)) := by
  induction commands generalizing state state' with
  | nil => exact .ok ⟨same, rfl⟩
  | cons command rest ih =>
    obtain ⟨covers, others⟩ := List.forall_mem_cons.mp covers
    refine .bind (same.process mode covers) fun after after' _ same => ?_
    refine .bind (ih same others) fun outcome outcome' _ alike => ?_
    exact .ok ⟨alike.1, congrArg₂ List.cons same.eventBuf alike.2⟩

end Engines

/-! ## Engines -/

/-- An engine does the business of another one under the new names. -/
structure Relabels {config config' : InstrumentConfig} (names : Relabelling)
    (engine : MatchingEngine config) (engine' : MatchingEngine config') : Prop where
  /-- As many orders may rest. -/
  capacity : engine'.arena.capacity = engine.arena.capacity
  /-- The orders rest where the renamed prices are, in the same order, and nowhere else. -/
  queues : ∃ queues queues', engine.Sound queues ∧ engine'.Sound queues' ∧
    (∀ side price, fifo engine.arena queues side price ≠ [] → names.covers price) ∧
    (∀ side price, names.covers price →
      fifo engine'.arena queues' (names.side side) (names.price price) =
        (fifo engine.arena queues side price).map names.order) ∧
    ∀ side price', fifo engine'.arena queues' side price' ≠ [] →
      ∃ price, names.covers price ∧ price' = names.price price
  /-- The buy stops are renamed. -/
  stopBids : names.Stops engine.stopBids engine'.stopBids
  /-- The sell stops are renamed. -/
  stopAsks : names.Stops engine.stopAsks engine'.stopAsks
  /-- No stop is pending when the sides are exchanged. -/
  turns : names.Turns → engine.stopBids = [] ∧ engine.stopAsks = []
  /-- The last trade price is renamed. -/
  lastTradePrice : engine'.lastTradePrice = engine.lastTradePrice.map names.price
  /-- The last trade price is covered. -/
  covered : ∀ price ∈ engine.lastTradePrice, names.covers price
  /-- The events are numbered later. -/
  sequence : engine'.sequence = engine.sequence + names.later
  /-- The clock is later. -/
  timestampNs : engine'.timestampNs = engine.timestampNs + names.later

/-- The queue of a renamed price is that of the price, renamed. -/
theorem Books.queue (same : names.Books lines lines') (side : Side) (covered : names.covers price) :
    (lines' (names.side side)).queue (names.price price) =
      ((lines side).queue price).map names.order := by
  simp only [Priority.queue, same.items, List.filter_map]
  refine congrArg (List.map names.order) (List.filter_congr fun maker member => ?_)
  exact decide_eq_decide.mpr (prices (same.covered side maker member) covered)

/-- Lines whose queues are renamed are renamed. -/
theorem Books.of_queues (distinct : (lines.orders.map Order.id).Nodup)
    (covered : ∀ side price, (lines side).queue price ≠ [] → names.covers price)
    (renamed : ∀ side price, names.covers price →
      (lines' (names.side side)).queue (names.price price) =
        ((lines side).queue price).map names.order)
    (nowhere : ∀ side price', (lines' side).queue price' ≠ [] →
      ∃ price, names.covers price ∧ price' = names.price price) : names.Books lines lines' := by
  have inside : ∀ side, ∀ order ∈ (lines side).items, names.covers order.price := by
    intro side order listed
    have member := Priority.mem_queue.mpr ⟨listed, rfl⟩
    exact covered side order.price (List.ne_nil_of_mem member)
  refine ⟨fun side => ?_, inside, distinct⟩
  -- The renamed orders stand in the order of the new side, so they are a line as well.
  have sorted : ((lines side).items.map names.order).Pairwise fun earlier later =>
      OrderBook.better (names.side side) later.price earlier.price = false := by
    rw [List.pairwise_map]
    refine (lines side).sorted.imp_of_mem fun {earlier later} first second ordered => ?_
    exact (names.better side (inside side later second) (inside side earlier first)).trans ordered
  have alike : lines' (names.side side) = ⟨(lines side).items.map names.order, sorted⟩ := by
    refine Priority.eq_of_queues (better_precedence _) fun price' => ?_
    by_cases held : ∃ price, names.covers price ∧ price' = names.price price
    · obtain ⟨price, covers, rfl⟩ := held
      rw [renamed side price covers, Priority.queue, Priority.queue, List.filter_map]
      refine congrArg (List.map names.order) (List.filter_congr fun maker member => ?_)
      exact (decide_eq_decide.mpr (prices (inside side maker member) covers)).symm
    · have empty : (lines' (names.side side)).queue price' = [] :=
        not_not.mp fun present => held (nowhere _ _ present)
      rw [empty]
      refine (List.filter_eq_nil_iff.mpr fun maker' listed here => ?_).symm
      obtain ⟨maker, member, rfl⟩ := List.mem_map.mp listed
      exact held ⟨maker.price, inside side maker member, (of_decide_eq_true here).symm⟩
  rw [alike]

section Followed

variable {config config' : InstrumentConfig} {engine last : MatchingEngine config}
  {engine' last' : MatchingEngine config'}

/-- Engines that follow reference engines of the same business do the same business. -/
theorem Engines.relabels (same : names.Engines state.clearEvents state'.clearEvents)
    (follows : engine.Follows state) (follows' : engine'.Follows state') :
    names.Relabels engine engine' := by
  obtain ⟨⟨queues, agrees⟩, room⟩ := follows
  obtain ⟨⟨queues', agrees'⟩, room'⟩ := follows'
  have books : names.Books state.book state'.book := same.book
  exact {
    capacity := UInt32.toNat_inj.mp (room'.trans (same.capacity.trans room.symm))
    queues := by
      refine ⟨queues, queues', agrees.sound, agrees'.sound, fun side price held => ?_,
        fun side price covered => ?_, fun side price' held => ?_⟩
      · rw [← agrees.listed] at held
        obtain ⟨maker, member⟩ := List.exists_mem_of_ne_nil _ held
        obtain ⟨listed, rfl⟩ := Priority.mem_queue.mp member
        exact books.covered side maker listed
      · rw [← agrees.listed, ← agrees'.listed, books.queue side covered]
      · rw [← agrees'.listed] at held
        obtain ⟨maker', member⟩ := List.exists_mem_of_ne_nil _ held
        obtain ⟨listed, rfl⟩ := Priority.mem_queue.mp member
        obtain ⟨there, rfl⟩ := names.exists_side side
        rw [books.items] at listed
        obtain ⟨maker, old, rfl⟩ := List.mem_map.mp listed
        exact ⟨maker.price, books.covered there maker old, rfl⟩
    stopBids := by
      rw [agrees.stopBids, agrees'.stopBids]
      exact same.stopBids
    stopAsks := by
      rw [agrees.stopAsks, agrees'.stopAsks]
      exact same.stopAsks
    turns := by
      rw [agrees.stopBids, agrees.stopAsks]
      exact same.turns
    lastTradePrice := by
      rw [agrees.lastTradePrice, agrees'.lastTradePrice]
      exact same.lastTradePrice
    covered := by
      rw [agrees.lastTradePrice]
      exact same.covered
    sequence := by
      rw [agrees.sequence, agrees'.sequence]
      exact same.sequence
    timestampNs := by
      rw [agrees.timestampNs, agrees'.timestampNs]
      exact same.timestampNs }

/-- The best prices of engines that follow renamed reference engines are renamed. -/
theorem Engines.best (same : names.Engines state.clearEvents state'.clearEvents)
    (follows : engine.Follows state) (follows' : engine'.Follows state') (side : Side) :
    engine'.book.best (names.side side) = (engine.book.best side).map names.price := by
  obtain ⟨⟨queues, agrees⟩, -⟩ := follows
  obtain ⟨⟨queues', agrees'⟩, -⟩ := follows'
  have books : names.Books state.book state'.book := same.book
  have first : (state'.book (names.side side)).first? =
      (state.book side).first?.map names.order := by
    simp only [Priority.first?, books.items, List.head?_map]
  rw [agrees.best_eq, agrees'.best_eq, first, Option.map_map, Option.map_map]
  rfl

/-- Runs of engines that follow renamed reference engines report renamed events and lead to engines
that follow renamed reference engines. -/
theorem Engines.futures {events events' : List (List MatchEvent)} {commands : List Command}
    (same : names.Engines state.clearEvents state'.clearEvents)
    (mode : config.stpMode = config'.stpMode) (follows : engine.Follows state)
    (follows' : engine'.Follows state') (inside : engine.Inside) (inside' : engine'.Inside)
    (covers : ∀ command ∈ commands, names.CoversCommand command)
    (plain : ∀ command ∈ commands, config.PlainCommand command)
    (plain' : ∀ command ∈ commands, config'.PlainCommand (names.command command))
    (runs : Journal.replay engine commands = .ok (last, events))
    (runs' : Journal.replay engine' (commands.map names.command) = .ok (last', events')) :
    events' = events.map (List.map names.event) ∧
      ∃ after after', names.Engines after.clearEvents after'.clearEvents ∧ last.Follows after ∧
        last'.Follows after' := by
  cases commands with
  | nil =>
    obtain ⟨rfl, rfl⟩ := Prod.mk.inj (Except.ok.inj runs)
    obtain ⟨rfl, rfl⟩ := Prod.mk.inj (Except.ok.inj runs')
    exact ⟨rfl, state, state', same, follows, follows'⟩
  | cons command rest =>
    have renamed : ∀ other ∈ (command :: rest).map names.command, config'.PlainCommand other :=
      List.forall_mem_map.mpr plain'
    obtain ⟨outcome, returns, follows, reported⟩ := follows.replayed (inside.along plain) _ runs
    obtain ⟨outcome', returns', follows', reported'⟩ :=
      follows'.replayed (inside'.along renamed) _ runs'
    -- The first call forgets the events of the last one, so it may start without them.
    obtain ⟨outcome'', returned, alike, events⟩ :=
      same.replay config.stpMode covers outcome returns
    have again : ReferenceEngine.replay config.stpMode state'
        ((command :: rest).map names.command) = .ok outcome'' := returned
    rw [mode, returns'] at again
    obtain rfl := Except.ok.inj again
    refine ⟨?_, outcome.1, outcome'.1, alike.clearEvents, follows, follows'⟩
    exact reported'.trans (events.trans (congrArg _ reported.symm))

end Followed

/-- The ids of a reference engine that is followed differ. -/
theorem distinct_of_follows {config : InstrumentConfig} {engine : MatchingEngine config}
    (follows : engine.Follows state) : (state.book.orders.map Order.id).Nodup := by
  obtain ⟨⟨queues, agrees⟩, -⟩ := follows
  refine List.Nodup.map_on ?_ (agrees.listed.nodup agrees.sound.rep)
  intro order member other member' named
  exact agrees.listed.same_order agrees.sound.rep member member' named

/-- Between calls, reference engines that are followed by engines of the same business are the same
under the new names. -/
theorem Relabels.engines {config config' : InstrumentConfig} {engine : MatchingEngine config}
    {engine' : MatchingEngine config'} (same : names.Relabels engine engine')
    (follows : engine.Follows state) (follows' : engine'.Follows state') :
    names.Engines state.clearEvents state'.clearEvents := by
  have distinct := distinct_of_follows follows
  obtain ⟨⟨queues, agrees⟩, room⟩ := follows
  obtain ⟨⟨queues', agrees'⟩, room'⟩ := follows'
  obtain ⟨there, there', sound, sound', covered, renamed, nowhere⟩ := same.queues
  obtain rfl := agrees.sound.rep.queues_unique sound.rep
  obtain rfl := agrees'.sound.rep.queues_unique sound'.rep
  exact {
    capacity := by
      change state'.capacity = state.capacity
      rw [← room, ← room', same.capacity]
    book := by
      refine Books.of_queues distinct (fun side price held => ?_) (fun side price covers => ?_)
        fun side price' held => ?_
      · exact covered side price (agrees.listed side price ▸ held)
      · exact (agrees'.listed _ _).trans ((renamed side price covers).trans
          (congrArg (List.map names.order) (agrees.listed side price).symm))
      · exact nowhere side price' (agrees'.listed side price' ▸ held)
    sequence := by
      have numbers := same.sequence
      rwa [agrees.sequence, agrees'.sequence] at numbers
    timestampNs := by
      have clocks := same.timestampNs
      rwa [agrees.timestampNs, agrees'.timestampNs] at clocks
    eventBuf := rfl
    stopBids := by
      have stops := same.stopBids
      rwa [agrees.stopBids, agrees'.stopBids] at stops
    stopAsks := by
      have stops := same.stopAsks
      rwa [agrees.stopAsks, agrees'.stopAsks] at stops
    turns := by
      have turns := same.turns
      rwa [agrees.stopBids, agrees.stopAsks] at turns
    lastTradePrice := by
      have prices := same.lastTradePrice
      rwa [agrees.lastTradePrice, agrees'.lastTradePrice] at prices
    covered := by
      have covered := same.covered
      rwa [agrees.lastTradePrice] at covered }

end Relabelling

namespace MatchingEngine

/-- A new engine does the business of another one that has as much room, under any names. -/
theorem relabels_new (names : Relabelling) (still : names.later = 0)
    (config config' : InstrumentConfig) (capacity : UInt32) :
    names.Relabels (new config capacity) (new config' capacity) where
  capacity := rfl
  queues := ⟨_, _, sound_new config capacity, sound_new config' capacity,
    fun _ _ held => absurd rfl held, fun _ _ _ => rfl, fun _ _ held => absurd rfl held⟩
  stopBids := ⟨rfl, fun _ listed => absurd listed List.not_mem_nil⟩
  stopAsks := ⟨rfl, fun _ listed => absurd listed List.not_mem_nil⟩
  turns := fun _ => ⟨rfl, rfl⟩
  lastTradePrice := rfl
  covered := fun _ none => by contradiction
  sequence := by rw [still]; rfl
  timestampNs := by rw [still]; rfl

/-- What an engine will do follows from the business that it does, whatever led to it, and names
show in nothing but the names, those of the sides included: instruments with one self-trade
prevention mode and any windows, of which one does the business of the other under new names, report
events and the renamed events when they are given plain commands and the renamed commands, which
are plain as well, and go on doing the same business. -/
theorem names_invisible (names : Relabelling) {config config' : InstrumentConfig}
    {engine last : MatchingEngine config} {engine' last' : MatchingEngine config'}
    {events events' : List (List MatchEvent)} (commands : List Command)
    (mode : config.stpMode = config'.stpMode)
    (reached : Reaches config (fun _ command => config.PlainCommand command) engine)
    (reached' : Reaches config' (fun _ command => config'.PlainCommand command) engine')
    (same : names.Relabels engine engine')
    (covers : ∀ command ∈ commands, names.CoversCommand command)
    (plain : ∀ command ∈ commands, config.PlainCommand command)
    (plain' : ∀ command ∈ commands, config'.PlainCommand (names.command command))
    (runs : Journal.replay engine commands = .ok (last, events))
    (runs' : Journal.replay engine' (commands.map names.command) = .ok (last', events')) :
    events' = events.map (List.map names.event) ∧ names.Relabels last last' ∧
      ∀ side, last'.book.best (names.side side) = (last.book.best side).map names.price := by
  obtain ⟨inside, reference, follows⟩ := Inside.of_reaches reached
  obtain ⟨inside', reference', follows'⟩ := Inside.of_reaches reached'
  obtain ⟨renamed, after, after', alike, follows, follows'⟩ :=
    (same.engines follows follows').futures mode follows follows' inside inside' covers plain plain'
      runs runs'
  exact ⟨renamed, alike.relabels follows follows', alike.best follows follows'⟩

/-- Bids become asks and asks bids, prices go from a hundred and three down, and ids are one
higher. -/
def mirrored : Relabelling where
  covers := (· ≤ 103)
  side := Side.opposite
  price := (103 - ·)
  id := (· + 1)
  group := id
  opposite := fun _ => rfl
  better := by
    intro first second here low low'
    have falls : ∀ {one other : UInt64}, one ≤ 103 → other ≤ 103 →
        (103 - one < 103 - other ↔ other < one) := by
      intro one other low low'
      rw [UInt64.lt_iff_toNat_lt, UInt64.lt_iff_toNat_lt, UInt64.toNat_sub_of_le _ _ low,
        UInt64.toNat_sub_of_le _ _ low']
      rw [UInt64.le_iff_toNat_le] at low low'
      omega
    cases here with
    | bid => exact decide_eq_decide.mpr (falls low low')
    | ask => exact decide_eq_decide.mpr (falls low' low)
  ids := fun _ _ same => (UInt64.add_left_inj 1).mp same
  groups := Function.injective_id
  ungrouped := rfl
  later := 0

/-- The small instrument with a window a hundred higher. -/
def higherConfig : InstrumentConfig := { smallConfig .cancelNewest with basePrice := 100 }

/-- An ask and the bids that take it, and their mirror image in a window a hundred higher. -/
theorem asks_mirrored :
    ∃ (last : MatchingEngine (smallConfig .cancelNewest)) (last' : MatchingEngine higherConfig),
      mirrored.Relabels last last' ∧ last'.lastTradePrice = some 101 := by
  have shown : (Journal.replay (new (smallConfig .cancelNewest) 8) askTakenTwice).toOption.isSome =
    true := by decide +kernel
  have shown' : (Journal.replay (new higherConfig 8)
      (askTakenTwice.map mirrored.command)).toOption.any
        (fun outcome => outcome.1.lastTradePrice == some 101) = true := by decide +kernel
  obtain ⟨⟨last, events⟩, runs⟩ := Option.isSome_iff_exists.mp shown
  obtain ⟨⟨last', events'⟩, runs', traded⟩ := (Option.any_eq_true _ _).mp shown'
  have covers : ∀ command ∈ askTakenTwice, mirrored.CoversCommand command := by
    have plain : ∀ {order : NewOrder}, order.price ≤ 103 → order.stopPrice = none →
        order.orderType ≠ .stopLimit → mirrored.CoversOrder order := fun low none kind =>
      ⟨low, by simp [none], fun _ => kind⟩
    simp only [askTakenTwice, List.forall_mem_cons]
    exact ⟨plain (by decide) rfl (by decide), plain (by decide) rfl (by decide),
      plain (by decide) rfl (by decide), trivial, fun _ listed => absurd listed List.not_mem_nil⟩
  have begins : ∀ config, Reaches config (fun _ command => config.PlainCommand command)
      (new config 8) := fun config => .start ⟨8, rfl⟩
  have mode : (smallConfig .cancelNewest).stpMode = higherConfig.stpMode := rfl
  obtain ⟨-, same, -⟩ := names_invisible mirrored askTakenTwice mode (begins _) (begins _)
    (relabels_new mirrored rfl _ _ 8) covers (by decide +kernel) (by decide +kernel)
    (ok_of_toOption runs) (ok_of_toOption runs')
  exact ⟨last, last', same, beq_iff_eq.mp traded⟩

end MatchingEngine

end MatchX
