import MatchX.Engine.ReferenceRuns
import MatchX.Engine.Stops

/-!
# Runs inside the window

The caches of an engine go wrong in two ways: a removal can hide a better price outside the
window, and the depth indices, which answer fill-or-kill checks, forget fills. Neither matters to a
run whose resting prices all lie in the window of its instrument and that has no fill-or-kill
order. Which runs these are can be seen from their commands.
-/

namespace MatchX

open MatchX.Support

/-- The book of an instrument starts with a window that has the price. -/
def InstrumentConfig.Has (config : InstrumentConfig) (price : UInt64) : Prop :=
  (MatchingEngine.new config 0).book.InWindow price

/-- An order may rest in the window only, and asks for no check of the depth. -/
structure InstrumentConfig.Plain (config : InstrumentConfig) (order : NewOrder) : Prop where
  /-- It rests in the window, if it rests. -/
  inside : order.orderType ≠ .market → config.Has order.price
  /-- It is no fill-or-kill order. -/
  kills : order.timeInForce ≠ .fok

/-- A command submits no other orders. -/
def InstrumentConfig.PlainCommand (config : InstrumentConfig) : Command → Prop
  | .newOrder _ order => config.Plain order
  | .cancelOrder _ => True
  | .modifyOrder _ newPrice _ => config.Has newPrice

instance (config : InstrumentConfig) (price : UInt64) : Decidable (config.Has price) := by
  unfold InstrumentConfig.Has OrderBook.InWindow
  infer_instance

instance (config : InstrumentConfig) (order : NewOrder) : Decidable (config.Plain order) :=
  decidable_of_iff ((order.orderType ≠ .market → config.Has order.price) ∧
    order.timeInForce ≠ .fok) ⟨fun plain => ⟨plain.1, plain.2⟩, fun plain => ⟨plain.1, plain.2⟩⟩

instance (config : InstrumentConfig) (command : Command) :
    Decidable (config.PlainCommand command) :=
  match command with
  | .newOrder _ order => inferInstanceAs (Decidable (config.Plain order))
  | .cancelOrder _ => .isTrue trivial
  | .modifyOrder _ newPrice _ => inferInstanceAs (Decidable (config.Has newPrice))

namespace MatchingEngine

variable {config : InstrumentConfig} {engine engine' site : MatchingEngine config}
  {queues : Queues} {command : Command} {order : NewOrder} {book book' : OrderBook config.maxTicks}
  {arena arena' : Arena} {side : Side} {stopPx : UInt64} {entry : StopEntry}

/-! ## The stops -/

/-- The orders of the pending stops are plain. -/
def PlainStops (engine : MatchingEngine config) : Prop :=
  ∀ side, ∀ pending ∈ engine.stops side, config.Plain pending.2.order

/-- Handling a plain order keeps the stops plain. -/
theorem Handled.plainStops (sound : engine.Sound queues) (plain : config.Plain order)
    (stops : engine.PlainStops) (handled : Handled engine queues order engine') :
    engine'.PlainStops := by
  by_cases kind : order.orderType = .stopLimit
  · cases handled with
    | rejected => exact stops
    | parked _ stopped _ _ bodies =>
      obtain ⟨-, stopPx, -, stands⟩ := processStopLimit_stops stopped bodies
      intro side pending member
      rw [stands] at member
      split at member
      · rcases List.eq_or_mem_of_mem_insertIdx member with rfl | old
        · exact ⟨fun _ => plain.inside (by simp [kind]), plain.kills⟩
        · exact stops side pending old
      · exact stops side pending member
    | posted other => simp [kind] at other
    | matched other => exact absurd kind other.2
  · obtain ⟨bids, asks⟩ := handled.stops_eq sound kind
    intro side
    rw [stops_congr bids asks]
    exact stops side

/-- Taking the first stop of a queue leaves plain stops, and its order is plain. -/
theorem Popped.plain (stops : engine.PlainStops) (popped : Popped engine side stopPx entry site) :
    config.Plain entry.order ∧ site.PlainStops := by
  have first := popped.first
  refine ⟨stops side (stopPx, entry) (first ▸ List.mem_cons_self), fun other pending member => ?_⟩
  by_cases same : other = side
  · subst same
    exact stops _ pending (first ▸ List.mem_cons_of_mem _ member)
  · obtain rfl := eq_opposite same
    rw [popped.other] at member
    exact stops _ pending member

/-- A call of a plain command submits plain orders and leaves plain stops. -/
theorem plain_carried (plain : config.PlainCommand command) :
    Carries engine command (fun state => (∃ queues, state.Sound queues) ∧ state.PlainStops)
      fun state order => ((∃ queues, state.Sound queues) ∧ state.PlainStops) ∧
        config.Plain order where
  cancels id after asked := by
    rintro ⟨⟨queues, sound⟩, stops⟩ returned
    refine ⟨(sound_kept engine command).cancels id after asked ⟨queues, sound⟩ returned, ?_⟩
    cases processCancel_cases sound returned with
    | missing => exact stops
    | removed => exact stops
  misses _ _ _ _ := by
    rintro ⟨⟨queues, sound⟩, stops⟩
    exact ⟨⟨queues, sound.congr rfl rfl⟩, stops⟩
  direct instrumentId order asked initial := by
    subst asked
    exact ⟨initial, plain⟩
  withdraws id newPrice newQty index site order asked := by
    rintro ⟨⟨queues, sound⟩, stops⟩ held withdrawn
    have kept := (sound_kept engine command).withdraws id newPrice newQty index site order asked
      ⟨queues, sound⟩ held withdrawn
    subst asked
    cases withdraw_cases sound held withdrawn with
    | removed => exact ⟨⟨kept, stops⟩, fun _ => plain, by simp [replacement]⟩
  fires start before site order _ fired := by
    rintro ⟨⟨queues, sound⟩, stops⟩
    obtain ⟨side, stopPx, entry, rfl, popped⟩ := fired.popped
    obtain ⟨order, others⟩ := popped.plain stops
    exact ⟨⟨⟨queues, sound.congr popped.book popped.arena⟩, others⟩, order⟩
  handles site order after _ := by
    rintro ⟨⟨⟨queues, sound⟩, stops⟩, order⟩ returned
    have handled := processNewOrder_cases sound returned
    exact ⟨handled.sound sound, handled.plainStops sound order stops⟩

/-! ## The book -/

/-- The book has the window of the instrument, and every order rests in it. -/
structure RestsInside (config : InstrumentConfig) (book : OrderBook config.maxTicks)
    (arena : Arena) : Prop where
  /-- The window is that of a new book. -/
  base : book.denseBasePrice = (new config 0).book.denseBasePrice
  /-- The orders rest in the window. -/
  inside : ∀ i order, arena.resting i = some order → config.Has order.price

namespace RestsInside

/-- Removing an order leaves orders in the window. -/
theorem removed {order : Order} {index : ArenaIndex} (inside : RestsInside config book arena)
    (removed : Removed book arena queues order index book' arena') :
    RestsInside config book' arena' where
  base := removed.base.trans inside.base
  inside := by
    intro i stored rests
    rw [removed.resting] at rests
    split at rests
    · contradiction
    · exact inside.inside i stored rests

/-- Taking from an order leaves orders in the window. -/
theorem taken {order : Order} {index : ArenaIndex} {delta : UInt64}
    (inside : RestsInside config book arena)
    (taken : Taken book arena queues order index delta book' arena') :
    RestsInside config book' arena' where
  base := taken.base.trans inside.base
  inside := by
    intro i stored rests
    rw [taken.resting] at rests
    split at rests
    · obtain rfl := Option.some.inj rests
      exact inside.inside index order taken.found
    · exact inside.inside i stored rests

/-- Resting an order of the window leaves orders in the window. -/
theorem rested {qty : UInt64} (inside : RestsInside config engine.book engine.arena)
    (within : config.Has order.price) (rested : Rested engine queues order qty engine') :
    RestsInside config engine'.book engine'.arena := by
  cases rested with
  | refused => exact inside
  | inserted _ inserted =>
    refine ⟨inserted.base.trans inside.base, fun i stored rests => ?_⟩
    rw [emit_arena, withBook_arena, inserted.resting] at rests
    split at rests
    · obtain rfl := Option.some.inj rests
      exact within
    · exact inside.inside i stored rests

/-- An iteration of a sweep leaves orders in the window. -/
theorem iterated {taker : Taker} {sweep : Sweep config}
    {flow : Flow (Sweep config) (SweepResult config)}
    (inside : RestsInside config sweep.engine.book sweep.engine.arena)
    (iteration : Iteration taker queues sweep flow) :
    RestsInside config (flowEngine flow).book (flowEngine flow).arena := by
  cases iteration with
  | exhausted | unmatched | newest => exact inside
  | stale _ _ _ removed => exact inside.removed removed
  | oldest _ _ _ _ _ removed => exact inside.removed removed
  | both _ _ _ _ _ removed => exact inside.removed removed
  | decrementAll _ _ _ _ _ _ removed => exact inside.removed removed
  | decrementPart _ _ _ _ _ taken => exact inside.taken taken
  | fillPart _ _ _ _ taken => exact inside.taken taken
  | fillAll _ _ _ _ _ taken _ removed => exact (inside.taken taken).removed removed

/-- While every order rests in the window no removal hides a better price. -/
theorem clear {index : ArenaIndex} (inside : RestsInside config book arena) :
    ¬HidesBetter book arena index := by
  rintro ⟨-, -, -, -, -, outside, beyond, ⟨j, order, -, found, -, rfl⟩, -⟩
  have within := inside.inside j order.unlinked (Arena.resting_of_find found)
  rw [InstrumentConfig.Has, OrderBook.InWindow, ← OrderBook.denseIndex_congr inside.base] at within
  exact beyond within

end RestsInside

/-- A call that submits plain orders keeps the orders in the window. -/
theorem keepsInside
    (plain : ∀ site order, Submits engine command site order → config.Plain order) :
    KeepsBook engine command (RestsInside config) where
  removes _ _ _ _ removed inside := inside.removed removed
  iterates _ _ iteration inside := inside.iterated iteration
  rests rests _ rested inside := by
    cases rests with
    | posted submits kind => exact inside.rested ((plain _ _ submits).inside (by simp [kind])) rested
    | remainder submits _ _ _ _ _ keeps =>
      refine inside.rested ((plain _ _ submits).inside ?_) rested
      rcases keeps.2 with limit | iceberg
      · simp [limit]
      · simp [iceberg]

/-! ## Runs -/

/-- The stops are plain and the orders rest in the window. -/
structure Inside (engine : MatchingEngine config) : Prop where
  /-- The engine is sound. -/
  sound : ∃ queues, engine.Sound queues
  /-- The stops are plain. -/
  stops : engine.PlainStops
  /-- The orders rest in the window. -/
  book : RestsInside config engine.book engine.arena

/-- A call of a plain command submits plain orders. -/
theorem Inside.submits (inside : engine.Inside) (plain : config.PlainCommand command)
    (submits : Submits engine command site order) : config.Plain order := by
  obtain ⟨queues, sound⟩ := inside.sound
  exact ((plain_carried plain).submits ⟨⟨queues, sound.congr rfl rfl⟩, inside.stops⟩ submits).2

/-- A call of a plain command keeps the orders in the window. -/
theorem Inside.process (inside : engine.Inside) (plain : config.PlainCommand command)
    (completed : engine.process command = .ok engine') : engine'.Inside := by
  obtain ⟨queues, sound⟩ := inside.sound
  have cleared : ∃ queues, engine.clearEvents.Sound queues := ⟨queues, sound.congr rfl rfl⟩
  obtain ⟨sound', stops⟩ := (plain_carried plain).returns ⟨cleared, inside.stops⟩ completed
  obtain ⟨-, book⟩ := (keepsInside fun _ _ => inside.submits plain).kept.returns
    ⟨cleared, inside.book⟩ completed
  exact ⟨sound', stops, book⟩

/-- The caches tell the truth throughout a call of a plain command. -/
theorem Inside.truthful (inside : engine.Inside) (plain : config.PlainCommand command) :
    Truthful engine command := by
  obtain ⟨queues, sound⟩ := inside.sound
  have cleared : ∃ queues, engine.clearEvents.Sound queues := ⟨queues, sound.congr rfl rfl⟩
  have keeps := keepsInside fun _ _ => inside.submits plain
  refine ⟨⟨fun id index _ _ => inside.book.clear, fun site order sweep sweeps hides => ?_⟩, ?_⟩
  · obtain ⟨⟨queues', sound'⟩, book⟩ := keeps.kept.submits ⟨cleared, inside.book⟩ sweeps.submits
    obtain ⟨-, index, maker, -, -, hides⟩ := hides
    exact (keeps.swept sound' book sweeps).2.clear hides
  · exact fun site order submits fok => absurd fok (inside.submits plain submits).kills

/-- A new engine has no order outside its window. -/
theorem Inside.new (config : InstrumentConfig) (capacity : UInt32) :
    (new config capacity).Inside where
  sound := ⟨_, sound_new config capacity⟩
  stops side pending member := by
    cases side <;> contradiction
  book := by
    refine ⟨rfl, fun i order rests => ?_⟩
    have none := (sound_new config capacity).rep.toQueued.placed rests
    contradiction

/-- The caches tell the truth throughout a run of plain commands. -/
theorem Inside.along {commands : List Command} (inside : engine.Inside)
    (plain : ∀ command ∈ commands, config.PlainCommand command) :
    Along Truthful MatchingEngine.process commands engine := by
  induction commands generalizing engine with
  | nil => trivial
  | cons command rest ih =>
    obtain ⟨first, others⟩ := List.forall_mem_cons.mp plain
    exact ⟨inside.truthful first, fun after completed => ih (inside.process first completed) others⟩

/-- An engine that plain commands lead to has no order outside its window and follows a reference
engine. -/
theorem Inside.of_reaches
    (reached : Reaches config (fun _ command => config.PlainCommand command) engine) :
    engine.Inside ∧ ∃ reference, engine.Follows reference := by
  refine Reached.invariant ?_ ?_ reached
  · rintro engine ⟨capacity, rfl⟩
    exact ⟨.new config capacity, _, .new config capacity⟩
  · rintro engine command after ⟨inside, reference, follows⟩ plain completed
    obtain ⟨reference', -, follows'⟩ := follows.processed (inside.truthful plain) after completed
    exact ⟨inside.process plain completed, reference', follows'⟩

/-- Every run of plain commands is one of the reference engine: whether the caches go wrong can be
told from the commands alone. -/
theorem runs_inside_as_reference (config : InstrumentConfig) (capacity : UInt32)
    (commands : List Command) (last : MatchingEngine config) (events : List (List MatchEvent))
    (plain : ∀ command ∈ commands, config.PlainCommand command)
    (runs : Journal.replay (new config capacity) commands = .ok (last, events)) :
    ∃ reference, ReferenceEngine.replay config.stpMode (.new capacity.toNat) commands =
      .ok (reference, events) ∧ Follows last reference := by
  obtain ⟨outcome, runs', follows, same⟩ :=
    (Follows.new config capacity).replayed ((Inside.new config capacity).along plain) _ runs
  obtain ⟨reference, events'⟩ := outcome
  obtain rfl : events = events' := same
  exact ⟨reference, runs', follows⟩

/-- An ask of ten, a bid that takes four of it, a market order that takes five more and a cancel. -/
def askTakenTwice : List Command :=
  [.submit (.gtc 1 .ask 2 10), .submit (.gtc 2 .bid 3 4),
    .submit { NewOrder.gtc 3 .bid 99 5 with orderType := .market, timeInForce := .ioc },
    .cancelOrder 1]

/-- The reference engine runs it with the same events. -/
theorem asks_inside_as_reference :
    ∃ (last : MatchingEngine (smallConfig .cancelNewest)) (reference : ReferenceEngine)
      (events : List (List MatchEvent)),
      ReferenceEngine.replay .cancelNewest (.new 8) askTakenTwice = .ok (reference, events) ∧
      Follows last reference ∧ events.map List.length = [2, 3, 3, 2] := by
  have shown : (Journal.replay (new (smallConfig .cancelNewest) 8) askTakenTwice).toOption.any
      (fun outcome => outcome.2.map List.length == [2, 3, 3, 2]) = true := by decide +kernel
  obtain ⟨⟨last, events⟩, runs, counts⟩ := (Option.any_eq_true _ _).mp shown
  obtain ⟨reference, runs', follows⟩ := runs_inside_as_reference (smallConfig .cancelNewest) 8
    askTakenTwice last events (by decide +kernel) (ok_of_toOption runs)
  exact ⟨last, reference, events, runs', follows, beq_iff_eq.mp counts⟩

/-- The window of a book shows in nothing: two instruments that differ in window, tick and lot
size but not in self-trade prevention, run on commands that are plain to both, report the same
events and end with the same business. -/
theorem window_invisible (config config' : InstrumentConfig) (capacity : UInt32)
    (commands : List Command) (last : MatchingEngine config) (last' : MatchingEngine config')
    (events events' : List (List MatchEvent)) (mode : config.stpMode = config'.stpMode)
    (plain : ∀ command ∈ commands, config.PlainCommand command)
    (plain' : ∀ command ∈ commands, config'.PlainCommand command)
    (runs : Journal.replay (new config capacity) commands = .ok (last, events))
    (runs' : Journal.replay (new config' capacity) commands = .ok (last', events')) :
    events = events' ∧ SameBusiness last last' := by
  obtain ⟨outcome, returns, follows, same⟩ :=
    (Follows.new config capacity).replayed ((Inside.new config capacity).along plain) _ runs
  obtain ⟨outcome', returns', follows', same'⟩ :=
    (Follows.new config' capacity).replayed ((Inside.new config' capacity).along plain') _ runs'
  rw [mode, returns'] at returns
  obtain rfl := Except.ok.inj returns
  exact ⟨same.trans same'.symm, follows.sameBusiness follows'⟩

/-- With a window of eight ticks from 1 it has the events it has with one of four ticks from 0. -/
theorem asks_in_two_windows :
    ∃ (last : MatchingEngine (smallConfig .cancelNewest))
      (last' : MatchingEngine { smallConfig .cancelNewest with basePrice := 1, maxTicks := 8 }),
      SameBusiness last last' ∧ last.lastTradePrice = some 2 := by
  have shown : (Journal.replay (new (smallConfig .cancelNewest) 8) askTakenTwice).toOption.any
      (fun outcome => outcome.1.lastTradePrice == some 2) = true := by decide +kernel
  have shown' : (Journal.replay (new { smallConfig .cancelNewest with
      basePrice := 1, maxTicks := 8 } 8) askTakenTwice).toOption.isSome = true := by decide +kernel
  obtain ⟨⟨last, events⟩, runs, traded⟩ := (Option.any_eq_true _ _).mp shown
  obtain ⟨⟨last', events'⟩, runs'⟩ := Option.isSome_iff_exists.mp shown'
  obtain ⟨-, same⟩ := window_invisible _ _ 8 askTakenTwice last last' events events' rfl
    (by decide +kernel) (by decide +kernel) (ok_of_toOption runs) (ok_of_toOption runs')
  exact ⟨last, last', same, beq_iff_eq.mp traded⟩

end MatchingEngine

end MatchX
