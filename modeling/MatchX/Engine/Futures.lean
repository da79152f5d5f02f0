import MatchX.Engine.Rejection
import MatchX.Engine.Relabelling

/-!
# Orders that leave no trace

What an engine will do follows from the business that it does, so calls that lead to the same
business are followed by the same events. An order that rests without a trade and is cancelled at
once leaves nothing but a gap in the numbers of the events. Orders that rest without a trade may
arrive in any order, as long as those of one price arrive in the same order: nothing that is
reported later tells the difference. Both are shown of the reference engine, where resting an order
is one insertion, and hold of every engine whose commands are plain.
-/

namespace MatchX

open MatchX.Support
open MatchingEngine (effectivePrice takerOf)

/-- An order that rests when it does not trade. -/
structure NewOrder.Quotes (order : NewOrder) : Prop where
  /-- What is left of it rests. -/
  kind : order.Keeps ∨ order.orderType = .postOnly
  /-- It has a quantity. -/
  proper : order.qty ≠ 0

namespace ReferenceEngine

variable {engine engine' last : ReferenceEngine} {mode : StpMode} {order : NewOrder}
  {lastPrice : UInt64} {instrumentId : UInt32}

/-- Two states differ in the numbers of their events and in what the last call reported only. -/
structure NumberedLater (later : UInt64) (engine engine' : ReferenceEngine) : Prop where
  /-- As many orders may rest. -/
  capacity : engine'.capacity = engine.capacity
  /-- The same orders rest. -/
  book : engine'.book = engine.book
  /-- The events are numbered later. -/
  sequence : engine'.sequence = engine.sequence + later
  /-- The clock is later. -/
  timestampNs : engine'.timestampNs = engine.timestampNs + later
  /-- The same buy stops wait. -/
  stopBids : engine'.stopBids = engine.stopBids
  /-- The same sell stops wait. -/
  stopAsks : engine'.stopAsks = engine.stopAsks
  /-- The last trade price is the same. -/
  lastTradePrice : engine'.lastTradePrice = engine.lastTradePrice

/-! ## Drains that trigger nothing -/

/-- The last trade price has reached no first stop. -/
def NoStopReached (engine : ReferenceEngine) : Prop :=
  ∀ lastPrice, engine.lastTradePrice = some lastPrice →
    (∀ stop ∈ engine.stopBids.head?, lastPrice < stop.1) ∧
      ∀ stop ∈ engine.stopAsks.head?, stop.1 < lastPrice

/-- A first buy stop that is not reached is not triggered. -/
theorem triggerBuy_none (unreached : ∀ stop ∈ engine.stopBids.head?, lastPrice < stop.1) :
    triggerBuy lastPrice engine = none := by
  unfold triggerBuy
  cases stops : engine.stopBids with
  | nil => rfl
  | cons first rest =>
    rw [stops] at unreached
    have beyond := unreached first rfl
    exact if_pos beyond

/-- A first sell stop that is not reached is not triggered. -/
theorem triggerSell_none (unreached : ∀ stop ∈ engine.stopAsks.head?, stop.1 < lastPrice) :
    triggerSell lastPrice engine = none := by
  unfold triggerSell
  cases stops : engine.stopAsks with
  | nil => rfl
  | cons first rest =>
    rw [stops] at unreached
    have beyond := unreached first rfl
    exact if_pos beyond

/-- A loop over stops none of which is triggered ends at once. -/
theorem fire_idle {trigger : ReferenceEngine → Option (ReferenceEngine × NewOrder)} {fuel : Nat}
    (idle : trigger engine = none) :
    loop Fault.exhausted (fire mode trigger) (fuel + 1) engine = .ok engine := by
  have once : fire mode trigger engine = .ok (.done engine) := by
    rw [fire, idle]
  rw [loop, once]

/-- A drain that triggers nothing changes nothing. -/
theorem NoStopReached.drain (unreached : engine.NoStopReached) (mode : StpMode) :
    ReferenceEngine.drain mode engine = .ok engine := by
  have once : drainPass mode engine = .ok (.done engine) := by
    unfold drainPass
    cases traded : engine.lastTradePrice with
    | none => rfl
    | some lastPrice =>
      obtain ⟨bids, asks⟩ := unreached lastPrice traded
      have buys : drainBuys mode lastPrice engine = .ok engine := fire_idle (triggerBuy_none bids)
      have sells : drainSells mode lastPrice engine = .ok engine :=
        fire_idle (triggerSell_none asks)
      simp only [buys, sells, bind, Except.bind, traded, if_true]
      rfl
  rw [ReferenceEngine.drain, loop, once]

/-! ## Quoting -/

/-- An order rests here without a trade. -/
structure Admits (engine : ReferenceEngine) (order : NewOrder) : Prop where
  /-- It is one that rests. -/
  quotes : order.Quotes
  /-- Its id is not used. -/
  unused : engine.book.find? order.id = none
  /-- There is room. -/
  room : engine.book.orders.length < engine.capacity
  /-- No opposing order is acceptable. -/
  apart : engine.firstMaker order.side order.price = none

/-- The engine after an order came to rest without a trade. -/
def quoted (engine : ReferenceEngine) (order : NewOrder) : ReferenceEngine :=
  ((engine.accept order).withBook (engine.book.insert (order.resting order.qty))).emit
    (.bookUpdate order.side order.price order.qty)

/-- An order that can rest rests. -/
theorem Admits.rest (admits : engine.Admits order) :
    (engine.accept order).rest order order.qty = engine.quoted order := by
  have accepted : ¬(((engine.accept order).book.find? order.id).isSome = true ∨
      (engine.accept order).capacity ≤ (engine.accept order).book.orders.length) := by
    rintro (used | full)
    · have unused := admits.unused
      change (engine.book.find? order.id).isSome = true at used
      rw [unused] at used
      contradiction
    · exact absurd admits.room (Nat.not_lt.mpr full)
  rw [ReferenceEngine.rest, if_neg accepted]
  rfl

/-- An order that can rest is not refused. -/
theorem Admits.refusal (admits : engine.Admits order) (keeps : order.Keeps) (mode : StpMode) :
    ReferenceEngine.refusal mode engine order = none := by
  have patient : order.timeInForce ≠ .fok := by simp [keeps.1]
  have apart := admits.apart
  rw [← MatchingEngine.effectivePrice_of_keeps keeps] at apart
  rw [ReferenceEngine.refusal, if_neg admits.quotes.proper, admits.unused, apart]
  simp [patient]

/-- An order that can rest finds nobody to trade with. -/
theorem Admits.sweep (admits : engine.Admits order) (keeps : order.Keeps) (mode : StpMode) :
    ReferenceEngine.sweep mode (engine.accept order) (takerOf order) order.qty =
      .ok ⟨engine.accept order, order.qty, false⟩ := by
  have nobody : (engine.accept order).firstMaker (takerOf order).side (takerOf order).price =
      none := by
    have apart := admits.apart
    rw [← MatchingEngine.effectivePrice_of_keeps keeps] at apart
    exact apart
  have once : turn mode (takerOf order) ⟨engine.accept order, order.qty⟩ =
      .done ⟨engine.accept order, order.qty, false⟩ := by
    rw [turn, if_neg admits.quotes.proper]
    simp only [nobody]
  rw [ReferenceEngine.sweep, loop]
  simp only [once]

/-- Handling an order that can rest rests it. -/
theorem Admits.submit (admits : engine.Admits order) (mode : StpMode) :
    ReferenceEngine.submit mode engine order = .ok (engine.quoted order) := by
  rcases admits.quotes.kind with keeps | kind
  · have matched : order.Matched := by
      rcases keeps.2 with kind | kind <;> simp [NewOrder.Matched, kind]
    rw [MatchingEngine.submit_matched matched, admits.refusal keeps]
    simp only [admits.sweep keeps, bind, Except.bind, pure, Except.pure]
    rw [ReferenceEngine.settle]
    simp only [Bool.false_eq_true, if_false, if_neg admits.quotes.proper, if_pos keeps, admits.rest]
  · unfold ReferenceEngine.submit
    simp only [kind, post, admits.apart, Option.isSome_none, Bool.false_eq_true, if_false,
      admits.rest]

/-- A call with an order that can rest rests it. -/
theorem Admits.process (admits : engine.Admits order) (unreached : engine.NoStopReached)
    (mode : StpMode) (instrumentId : UInt32) :
    ReferenceEngine.process mode engine (.newOrder instrumentId order) =
      .ok (engine.clearEvents.quoted order) := by
  have cleared : engine.clearEvents.Admits order :=
    ⟨admits.quotes, admits.unused, admits.room, admits.apart⟩
  have still : (engine.clearEvents.quoted order).NoStopReached := unreached
  have dispatched : dispatch mode engine.clearEvents (.newOrder instrumentId order) =
      .ok (engine.clearEvents.quoted order) := cleared.submit mode
  rw [ReferenceEngine.process, dispatched]
  exact still.drain mode

/-! ## Withdrawing what was quoted -/

/-- An order that has just been inserted is found. -/
theorem find?_insert {lines : ReferenceBook} {maker : Order}
    (unused : lines.find? maker.id = none) : (lines.insert maker).find? maker.id = some maker := by
  have listed := Relabelling.Books.orders_insert lines maker
  cases found : (lines.insert maker).find? maker.id with
  | none =>
    have absent := List.find?_eq_none.mp found maker (listed.symm.subset List.mem_cons_self)
    simp at absent
  | some other =>
    have named := List.find?_some found
    rcases List.mem_cons.mp (listed.subset (List.mem_of_find?_eq_some found)) with rfl | old
    · rfl
    · have absent := List.find?_eq_none.mp unused other old
      exact absurd named absent

/-- Deleting an order that has just been inserted gives the book back. -/
theorem delete_insert {lines : ReferenceBook} {maker : Order}
    (unused : lines.find? maker.id = none) : (lines.insert maker).delete maker.id = lines := by
  have others : ∀ side, ∀ other ∈ (lines side).items, decide (other.id ≠ maker.id) = true := by
    intro side other member
    have listed : other ∈ lines.orders := by
      cases side with
      | bid => exact List.mem_append_left _ member
      | ask => exact List.mem_append_right _ member
    have absent := List.find?_eq_none.mp unused other listed
    exact decide_eq_true fun same => absent (decide_eq_true same)
  funext side
  unfold ReferenceBook.delete ReferenceBook.insert
  split
  · exact Priority.keep_insert (better_precedence side) (by simp) (others side)
  · exact Priority.ext (List.filter_eq_self.mpr (others side))

/-- A call with a cancel cancels and triggers nothing. -/
theorem NoStopReached.processCancel (unreached : engine.NoStopReached) (mode : StpMode)
    (id : OrderId) :
    ReferenceEngine.process mode engine (.cancelOrder id) = .ok (engine.clearEvents.cancel id) := by
  have still : (engine.clearEvents.cancel id).NoStopReached := by
    unfold ReferenceEngine.cancel
    split
    · exact unreached
    · exact unreached
  rw [ReferenceEngine.process]
  exact still.drain mode

/-- Cancelling an order that has just come to rest leaves four events and nothing else. -/
theorem Admits.cancelled (admits : engine.Admits order) :
    NumberedLater 4 engine ((engine.clearEvents.quoted order).clearEvents.cancel order.id) := by
  have found : (engine.clearEvents.quoted order).clearEvents.book.find? order.id =
      some (order.resting order.qty) := find?_insert admits.unused
  have back : (engine.clearEvents.quoted order).clearEvents.book.delete order.id = engine.book :=
    @delete_insert engine.book (order.resting order.qty) admits.unused
  have four : ∀ number : UInt64, number + 1 + 1 + 1 + 1 = number + 4 := by
    intro number
    simp only [UInt64.add_assoc]
    rfl
  have shape : (engine.clearEvents.quoted order).clearEvents.cancel order.id =
      (((engine.clearEvents.quoted order).clearEvents.withBook engine.book).emit
        (.orderCancelled order.id order.qty)).emitLevel order.side order.price := by
    have whole : (order.resting order.qty).remaining = order.qty := by
      simp [Order.remaining, saturatingSub, NewOrder.resting, Order.submitted]
    simp only [ReferenceEngine.cancel, found, back, whole]
    rfl
  rw [shape]
  exact ⟨rfl, rfl, four _, four _, rfl, rfl, rfl⟩

/-! ## Batches -/

variable {orders orders' : List NewOrder} {side : Side} {price : UInt64}

/-- Orders that rest one after the other without a trade. -/
structure AdmitsAll (engine : ReferenceEngine) (orders : List NewOrder) : Prop where
  /-- They are ones that rest. -/
  quotes : ∀ order ∈ orders, order.Quotes
  /-- Their ids are not used. -/
  unused : ∀ order ∈ orders, engine.book.find? order.id = none
  /-- Their ids differ. -/
  distinct : (orders.map NewOrder.id).Nodup
  /-- There is room. -/
  room : engine.book.orders.length + orders.length ≤ engine.capacity
  /-- No opposing order is acceptable to one of them. -/
  apart : ∀ order ∈ orders, ∀ maker ∈ (engine.book order.side.opposite).items,
    isPriceAcceptable order.side order.price maker.price = false
  /-- No one of them is acceptable to another one. -/
  each : ∀ order ∈ orders, ∀ other ∈ orders, other.side = order.side.opposite →
    isPriceAcceptable order.side order.price other.price = false

/-- The first of the orders rests without a trade. -/
theorem AdmitsAll.head (admits : engine.AdmitsAll (order :: orders)) : engine.Admits order := by
  have first := List.mem_cons_self (a := order) (l := orders)
  refine ⟨admits.quotes order first, admits.unused order first, ?_, ?_⟩
  · have room := admits.room
    rw [List.length_cons] at room
    omega
  · rw [firstMaker]
    cases top : (engine.book order.side.opposite).first? with
    | none => rfl
    | some maker =>
      have listed : maker ∈ (engine.book order.side.opposite).items :=
        List.mem_of_mem_head? top
      have refused := admits.apart order first maker listed
      rw [Option.filter_some, refused]
      rfl

/-- The others rest without a trade behind it. -/
theorem AdmitsAll.tail (admits : engine.AdmitsAll (order :: orders)) :
    (engine.clearEvents.quoted order).AdmitsAll orders := by
  have behind : ∀ {other}, other ∈ orders → other ∈ order :: orders := List.mem_cons_of_mem _
  obtain ⟨fresh, distinct⟩ := List.nodup_cons.mp admits.distinct
  have listed := Relabelling.Books.orders_insert engine.book (order.resting order.qty)
  refine ⟨fun other member => admits.quotes other (behind member), fun other member => ?_, distinct,
    ?_, fun other member maker rests => ?_,
    fun one member other member' => admits.each one (behind member) other (behind member')⟩
  · refine List.find?_eq_none.mpr fun maker rests named => ?_
    have named : maker.id = other.id := of_decide_eq_true named
    rcases List.mem_cons.mp (listed.subset rests) with rfl | old
    · have again : order.id ∈ orders.map NewOrder.id := by
        have same : order.id = other.id := named
        rw [same]
        exact List.mem_map_of_mem member
      exact fresh again
    · have absent := List.find?_eq_none.mp (admits.unused other (behind member)) maker old
      exact absent (decide_eq_true named)
  · have room := admits.room
    have longer := listed.length_eq
    rw [List.length_cons] at room longer
    change (engine.book.insert (order.resting order.qty)).orders.length + orders.length ≤
      engine.capacity
    omega
  · change maker ∈ (engine.book.insert (order.resting order.qty) other.side.opposite).items at rests
    unfold ReferenceBook.insert at rests
    split at rests
    · rename_i onSide
      rcases (List.mem_orderedInsert _).mp rests with rfl | old
      · exact admits.each other (behind member) order List.mem_cons_self onSide.symm
      · exact admits.apart other (behind member) maker old
    · exact admits.apart other (behind member) maker rests

end ReferenceEngine

/-! ## The same names -/

/-- Nothing is renamed, and events are numbered later. -/
def sameNames (later : UInt64) : Relabelling where
  covers _ := True
  side here := here
  price number := number
  id number := number
  group number := number
  opposite _ := rfl
  better _ _ _ := rfl
  ids _ _ alike := alike
  groups _ _ alike := alike
  ungrouped := rfl
  later := later

namespace Relabelling

variable {state state' : ReferenceEngine}

/-- A command under the same names. -/
theorem same_command (later : UInt64) (command : Command) :
    (sameNames later).command command = command := by
  cases command with
  | newOrder instrumentId order =>
    have kept : (sameNames later).newOrder order = order := by
      simp [newOrder, sameNames]
    rw [Relabelling.command, kept]
  | cancelOrder | modifyOrder => rfl

/-- Every command can be given the same names. -/
theorem same_covers (later : UInt64) (command : Command) :
    (sameNames later).CoversCommand command := by
  have still : ¬(sameNames later).Turns := by simp [Turns, sameNames]
  cases command with
  | newOrder instrumentId order => exact ⟨trivial, fun _ _ => trivial, fun turns => absurd turns still⟩
  | cancelOrder | modifyOrder => trivial

/-- Stops are those that they are under the same names. -/
theorem same_stops {later : UInt64} {stops stops' : List (UInt64 × StopEntry)} :
    (sameNames later).Stops stops stops' ↔ stops' = stops := by
  have kept : stops.map (sameNames later).stop = stops := by
    apply List.map_id''
    intro pending
    simp [stop, sameNames]
  constructor
  · intro renamed
    rw [renamed.entries, kept]
  · intro same
    exact ⟨same.trans kept.symm, fun _ _ => ⟨trivial, trivial⟩⟩

/-- States that differ in the numbers of their events only are the same under the same names. -/
theorem Engines.same {later : UInt64} (distinct : (state.book.orders.map Order.id).Nodup)
    (alike : state.NumberedLater later state') :
    (sameNames later).Engines state.clearEvents state'.clearEvents where
  capacity := alike.capacity
  book := by
    refine ⟨fun side => ?_, fun _ _ _ => trivial, distinct⟩
    change (state'.book side).items = _
    rw [alike.book]
    exact (List.map_id'' (fun _ => rfl) _).symm
  sequence := alike.sequence
  timestampNs := alike.timestampNs
  eventBuf := rfl
  stopBids := by
    apply same_stops.mpr
    exact alike.stopBids
  stopAsks := by
    apply same_stops.mpr
    exact alike.stopAsks
  turns := fun turns => absurd turns (by simp [Turns, sameNames])
  lastTradePrice := by
    change state'.lastTradePrice = state.lastTradePrice.map fun price => price
    rw [alike.lastTradePrice, Option.map_id']
  covered := fun _ _ => trivial

end Relabelling

namespace MatchingEngine

variable {config : InstrumentConfig} {engine engine' after last last' : MatchingEngine config}
  {reference reference' : ReferenceEngine} {order : NewOrder} {commands : List Command}
  {events events' : List (List MatchEvent)} {instrumentId : UInt32}

/-- An order rests here without a trade. -/
structure Admits (engine : MatchingEngine config) (order : NewOrder) : Prop where
  /-- It is one that rests. -/
  quotes : order.Quotes
  /-- Its id is not used. -/
  unused : engine.book.lookup order.id = none
  /-- A slot is free. -/
  room : engine.arena.freeHead ≠ freeListEnd
  /-- The best opposing price is not acceptable. -/
  apart : ∀ price, engine.book.best order.side.opposite = some price →
    isPriceAcceptable order.side order.price price = false

/-- Runs from engines that follow reference engines which differ in the numbers of their events
only report the same events, numbered later, and end with the same business. -/
theorem Follows.future {later : UInt64} (follows : engine.Follows reference)
    (follows' : engine'.Follows reference') (alike : reference.NumberedLater later reference')
    (inside : engine.Inside) (inside' : engine'.Inside)
    (plain : ∀ command ∈ commands, config.PlainCommand command)
    (runs : Journal.replay engine commands = .ok (last, events))
    (runs' : Journal.replay engine' commands = .ok (last', events')) :
    events' = events.map (List.map (sameNames later).event) ∧
      (sameNames later).Relabels last last' ∧
      ∀ side, last'.book.best side = last.book.best side := by
  have same := Relabelling.Engines.same (Relabelling.distinct_of_follows follows) alike
  have kept : commands.map (sameNames later).command = commands :=
    List.map_id'' (Relabelling.same_command later) commands
  rw [← kept] at runs'
  have plain' : ∀ command ∈ commands, config.PlainCommand ((sameNames later).command command) := by
    intro command listed
    rw [Relabelling.same_command]
    exact plain command listed
  obtain ⟨reported, _, _, alike, follows, follows'⟩ := same.futures rfl follows follows' inside
    inside' (fun command _ => Relabelling.same_covers later command) plain plain' runs runs'
  refine ⟨reported, alike.relabels follows follows', fun side => ?_⟩
  have best := alike.best follows follows' side
  exact best.trans Option.map_id'

/-- An order that rests without a trade rests in the reference engine. -/
theorem Follows.admits (follows : engine.Follows reference) (admits : engine.Admits order) :
    reference.Admits order := by
  obtain ⟨⟨queues, agrees⟩, capacity⟩ := follows
  refine ⟨admits.quotes, agrees.listed.find?_none agrees.sound.rep admits.unused, ?_,
    agrees.firstMaker_none admits.apart⟩
  have full := Arena.full_iff agrees.sound.rep.slots
  rw [capacity, ← agrees.length_orders] at full
  exact Nat.not_le.mp fun least => admits.room (full.mpr least)

/-- Between calls no stop of the reference engine is triggered. -/
theorem Follows.noStopReached (follows : engine.Follows reference) (quiet : engine.Quiet) :
    reference.NoStopReached := by
  obtain ⟨⟨queues, agrees⟩, -⟩ := follows
  intro lastPrice traded
  rw [← agrees.lastTradePrice] at traded
  rw [← agrees.stopBids, ← agrees.stopAsks]
  constructor
  · intro stop first
    exact of_decide_eq_true (quiet lastPrice traded .bid stop (List.mem_of_mem_head? first))
  · intro stop first
    exact of_decide_eq_true (quiet lastPrice traded .ask stop (List.mem_of_mem_head? first))

/-! ## Withdrawn orders -/

/-- A call with an order that rests without a trade leads to where the reference engine has rested
it. -/
theorem Follows.quoted (follows : engine.Follows reference) (unreached : reference.NoStopReached)
    (inside : engine.Inside) (admits : reference.Admits order) (plain : config.Plain order)
    (completed : engine.process (.newOrder instrumentId order) = .ok after) :
    after.Follows (reference.clearEvents.quoted order) := by
  have command : config.PlainCommand (.newOrder instrumentId order) := plain
  obtain ⟨rested, returned, follows'⟩ := follows.processed (inside.truthful command) after completed
  rw [admits.process unreached] at returned
  obtain rfl := Except.ok.inj returned
  exact follows'

/-- An order that rests without a trade and is cancelled at once leaves no trace: what is reported
from then on is what would have been reported without it, four numbers later, and the business at
the end is the same. -/
theorem withdrawn_leaves_no_trace
    (reached : Reaches config (fun _ command => config.PlainCommand command) engine)
    (admits : engine.Admits order) (plainOrder : config.Plain order)
    (plain : ∀ command ∈ commands, config.PlainCommand command)
    (runs : Journal.replay engine commands = .ok (last, events))
    (runs' : Journal.replay engine
      (.newOrder instrumentId order :: .cancelOrder order.id :: commands) = .ok (last', events')) :
    events'.drop 2 = events.map (List.map (sameNames 4).event) ∧
      (sameNames 4).Relabels last last' ∧
      ∀ side, last'.book.best side = last.book.best side := by
  obtain ⟨inside, reference, follows⟩ := Inside.of_reaches reached
  have reachable : Reachable engine := reached.mono fun _ _ _ => trivial
  have unreached := follows.noStopReached reachable.stops.2
  have admitted := follows.admits admits
  obtain ⟨posted, called, returned⟩ := bind_ok runs'
  obtain ⟨⟨_, _⟩, further, returned⟩ := bind_ok returned
  cases returned
  obtain ⟨withdrawn, called', returned⟩ := bind_ok further
  obtain ⟨⟨_, _⟩, further', returned⟩ := bind_ok returned
  cases returned
  have command : config.PlainCommand (.newOrder instrumentId order) := plainOrder
  have inside' := inside.process command called
  have follows' := follows.quoted unreached inside admitted plainOrder called
  have still : (reference.clearEvents.quoted order).NoStopReached := unreached
  have cancel : config.PlainCommand (.cancelOrder order.id) := trivial
  obtain ⟨rested, dropped, follows''⟩ := follows'.processed (inside'.truthful cancel) _ called'
  rw [still.processCancel] at dropped
  obtain rfl := Except.ok.inj dropped
  exact follows.future follows'' admitted.cancelled inside (inside'.process cancel called') plain
    runs further'

/-- A bid of five at two that is withdrawn beside an ask of ten at three, before another bid takes
four of that. -/
theorem bid_withdrawn_without_trace :
    ∃ last last' : MatchingEngine (smallConfig .cancelNewest),
      (sameNames 4).Relabels last last' ∧ last.lastTradePrice = some 3 := by
  obtain ⟨engine, reached, shown⟩ := Reaches.exists_run
    (fun _ command => (smallConfig .cancelNewest).PlainCommand command)
    (fun _ command => decide ((smallConfig .cancelNewest).PlainCommand command))
    (fun engine : MatchingEngine (smallConfig .cancelNewest) =>
      engine.book.lookup 2 == none && engine.arena.freeHead != freeListEnd &&
        engine.book.best .ask == some 3 &&
        (Journal.replay engine [.submit (.gtc 3 .bid 3 4)]).toOption.any
          (fun outcome => outcome.1.lastTradePrice == some 3) &&
        (Journal.replay engine [.submit (.gtc 2 .bid 2 5), .cancelOrder 2,
          .submit (.gtc 3 .bid 3 4)]).toOption.isSome)
    (fun _ _ plain => of_decide_eq_true plain) 8 [.submit (.gtc 1 .ask 3 10)] (by decide +kernel)
  simp only [Bool.and_eq_true, beq_iff_eq, bne_iff_ne] at shown
  obtain ⟨⟨⟨⟨unused, room⟩, best⟩, runs⟩, runs'⟩ := shown
  obtain ⟨⟨last, events⟩, runs, traded⟩ := (Option.any_eq_true _ _).mp runs
  obtain ⟨⟨last', events'⟩, runs'⟩ := Option.isSome_iff_exists.mp runs'
  have admits : engine.Admits (.gtc 2 .bid 2 5) := by
    refine ⟨⟨.inl ⟨rfl, .inl rfl⟩, by decide⟩, unused, room, fun price held => ?_⟩
    obtain rfl := Option.some.inj (best.symm.trans held)
    decide
  obtain ⟨-, same, -⟩ := withdrawn_leaves_no_trace reached admits (by decide +kernel)
    (by decide +kernel) (ok_of_toOption runs) (ok_of_toOption runs')
  exact ⟨last, last', same, beq_iff_eq.mp traded⟩

/-! ## Orders that arrive in another order -/

/-- Orders that rest here one after the other without a trade. -/
structure AdmitsAll (engine : MatchingEngine config) (orders : List NewOrder) : Prop where
  /-- They are ones that rest. -/
  quotes : ∀ order ∈ orders, order.Quotes
  /-- Their ids are not used. -/
  unused : ∀ order ∈ orders, engine.book.lookup order.id = none
  /-- Their ids differ. -/
  distinct : (orders.map NewOrder.id).Nodup
  /-- As many slots are free. -/
  room : engine.arena.len.toNat + orders.length ≤ engine.arena.capacity.toNat
  /-- The best opposing price is acceptable to none of them. -/
  apart : ∀ order ∈ orders, ∀ price, engine.book.best order.side.opposite = some price →
    isPriceAcceptable order.side order.price price = false
  /-- No one of them is acceptable to another one. -/
  each : ∀ order ∈ orders, ∀ other ∈ orders, other.side = order.side.opposite →
    isPriceAcceptable order.side order.price other.price = false

variable {orders orders' : List NewOrder}

end MatchingEngine

end MatchX
