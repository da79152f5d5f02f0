import MatchX.Engine.Agreement
import MatchX.Journal.Pipeline

/-!
# Runs of the reference engine

A call whose caches tell the truth is one of the reference engine: it leaves the same orders in
the same places, the same stops and the same last trade price, and reports the same events. So is
every run of such calls. What the window of a book is, and how the arena hands out its slots,
shows in nothing that the engine reports.
-/

namespace MatchX

open MatchX.Support

namespace MatchingEngine

variable {config : InstrumentConfig} {engine engine' start pass : MatchingEngine config}
  {reference : ReferenceEngine} {command : Command} {lastPrice : UInt64}

/-! ## Draining -/

/-- The stop that is fired next is fired alike. -/
theorem Follows.fired
    {trigger : MatchingEngine config → Option (MatchingEngine config × NewOrder)}
    {trigger' : ReferenceEngine → Option (ReferenceEngine × NewOrder)}
    (same : (trigger engine = none ∧ trigger' reference = none) ∨
      ∃ site site' order, trigger engine = some (site, order) ∧
        trigger' reference = some (site', order) ∧ Follows site site')
    (follows : Follows engine reference)
    (truthful : ∀ site order, trigger engine = some (site, order) → site.TruthfulTo order) :
    Simulates (Flow.Matching Follows Follows) (fireStop trigger engine)
      (ReferenceEngine.fire config.stpMode trigger' reference) := by
  unfold fireStop ReferenceEngine.fire
  rcases same with ⟨idle, idle'⟩ | ⟨site, site', order, fired, fired', matching⟩
  · rw [idle, idle']
    exact .ok (.done follows)
  · rw [fired, fired']
    exact .bind (matching.submit (truthful site order fired)) fun _ _ _ after => .ok (.next after)

/-- The buy stops of a pass are fired alike. -/
theorem Follows.buysDrained (follows : Follows pass reference)
    (truthful : ∀ before site order, Visits (fireStop (triggerBuy lastPrice)) pass before →
      triggerBuy lastPrice before = some (site, order) → site.TruthfulTo order) :
    Simulates Follows (drainBuys lastPrice pass)
      (ReferenceEngine.drainBuys config.stpMode lastPrice reference) := by
  obtain ⟨⟨queues, agrees⟩, -⟩ := id follows
  unfold drainBuys ReferenceEngine.drainBuys
  rw [← agrees.stopBids]
  exact .loop (fun before reference visits matching => matching.fired
    (matching.buyStop lastPrice) fun site order => truthful before site order visits) follows _

/-- The sell stops of a pass are fired alike. -/
theorem Follows.sellsDrained (follows : Follows pass reference)
    (truthful : ∀ before site order, Visits (fireStop (triggerSell lastPrice)) pass before →
      triggerSell lastPrice before = some (site, order) → site.TruthfulTo order) :
    Simulates Follows (drainSells lastPrice pass)
      (ReferenceEngine.drainSells config.stpMode lastPrice reference) := by
  obtain ⟨⟨queues, agrees⟩, -⟩ := id follows
  unfold drainSells ReferenceEngine.drainSells
  rw [← agrees.stopAsks]
  exact .loop (fun before reference visits matching => matching.fired
    (matching.sellStop lastPrice) fun site order => truthful before site order visits) follows _

/-- The last trade prices agree. -/
theorem Follows.lastTradePrice (follows : Follows engine reference) :
    engine.lastTradePrice = reference.lastTradePrice := by
  obtain ⟨⟨queues, agrees⟩, -⟩ := follows
  exact agrees.lastTradePrice

/-- A pass of the drain is one of the reference engine. -/
theorem Follows.passDrained (follows : Follows pass reference) (passes : Visits drainPass start pass)
    (truthful : ∀ before site order, Fires start before site order → site.TruthfulTo order) :
    Simulates (Flow.Matching Follows Follows) (drainPass pass)
      (ReferenceEngine.drainPass config.stpMode reference) := by
  unfold drainPass ReferenceEngine.drainPass
  rw [← follows.lastTradePrice]
  cases traded : pass.lastTradePrice with
  | none => exact .ok (.done follows)
  | some lastPrice =>
    refine .bind (follows.buysDrained fun before site order visits triggered =>
      truthful before site order (.buy passes traded visits triggered)) ?_
    intro bought reference' buys follows'
    refine .bind (follows'.sellsDrained fun before site order visits triggered =>
      truthful before site order (.sell passes traded buys visits triggered)) ?_
    intro sold reference'' _ follows''
    rw [← follows''.lastTradePrice]
    split
    · exact .ok (.done follows'')
    · exact .ok (.next follows'')

/-- A drain is one of the reference engine. -/
theorem Follows.drained (follows : Follows start reference)
    (truthful : ∀ before site order, Fires start before site order → site.TruthfulTo order) :
    Simulates Follows start.drainStopTriggers (ReferenceEngine.drain config.stpMode reference) := by
  obtain ⟨⟨queues, agrees⟩, -⟩ := id follows
  unfold drainStopTriggers ReferenceEngine.drain
  rw [← agrees.stopBids, ← agrees.stopAsks]
  exact .loop (fun pass reference passes matching => matching.passDrained passes truthful) follows _

/-! ## Calls -/

/-- The caches tell the truth throughout a call: no removal hides a better price, and the depth
indices answer every fill-or-kill check as the resting orders do. -/
structure Truthful (engine : MatchingEngine config) (command : Command) : Prop where
  /-- No removal hides a better price. -/
  hidden : NoneHidden engine command
  /-- The depth indices answer as the resting orders do. -/
  informed : ∀ site order, Submits engine command site order → site.Informed order

/-- They tell it about every order that the call submits. -/
theorem Truthful.to {site : MatchingEngine config} {order : NewOrder}
    (truthful : Truthful engine command) (submits : Submits engine command site order) :
    site.TruthfulTo order where
  informed := truthful.informed site order submits
  clear sweep matched checked visits :=
    truthful.hidden.makers site order sweep ⟨submits, matched, checked, visits⟩

/-- Both start a call with no events. -/
theorem Follows.clearEvents (follows : Follows engine reference) :
    Follows engine.clearEvents reference.clearEvents := by
  obtain ⟨⟨queues, agrees⟩, capacity⟩ := follows
  exact ⟨⟨queues, { agrees with sound := agrees.sound.congr rfl rfl, eventBuf := rfl }⟩, capacity⟩

/-- A command whose caches tell the truth is carried out alike. -/
theorem Follows.dispatched (follows : Follows engine reference)
    (truthful : Truthful engine command) :
    Simulates Follows (engine.clearEvents.dispatch command)
      (ReferenceEngine.dispatch config.stpMode reference.clearEvents command) := by
  cases command with
  | newOrder instrumentId order =>
    exact follows.clearEvents.submit (truthful.to (.direct rfl))
  | cancelOrder id =>
    exact follows.clearEvents.cancel fun index => truthful.hidden.target id index rfl
  | modifyOrder id newPrice newQty =>
    exact follows.clearEvents.modify (fun index => truthful.hidden.target id index rfl)
      fun index site order held withdrawn => truthful.to (.replaced rfl held withdrawn)

/-- A call whose caches tell the truth is one of the reference engine. -/
theorem Follows.processed (follows : Follows engine reference) (truthful : Truthful engine command) :
    Simulates Follows (engine.process command)
      (ReferenceEngine.process config.stpMode reference command) := by
  intro after completed
  obtain ⟨start, dispatched, drains, -⟩ := process_drained completed
  obtain ⟨reference', dispatched', follows'⟩ := follows.dispatched truthful start dispatched
  unfold ReferenceEngine.process
  rw [dispatched']
  exact follows'.drained (fun before site order fires =>
    truthful.to (.triggered dispatched fires)) after drains

/-! ## Runs -/

/-- A new engine is where the new reference engine is. -/
theorem Follows.new (config : InstrumentConfig) (capacity : UInt32) :
    Follows (new config capacity) (ReferenceEngine.new capacity.toNat) :=
  ⟨⟨_, sound_new config capacity, Recorded.new capacity, bestExact_new config capacity, rfl, rfl,
    rfl, rfl, rfl, rfl⟩, rfl⟩

/-- A run whose caches tell the truth is one of the reference engine. -/
theorem Follows.replayed {commands : List Command} (follows : Follows engine reference)
    (truthful : Along Truthful process commands engine) :
    Simulates (fun outcome outcome' => Follows outcome.1 outcome'.1 ∧ outcome.2 = outcome'.2)
      (Journal.replay engine commands)
      (ReferenceEngine.replay config.stpMode reference commands) := by
  induction commands generalizing engine reference with
  | nil => exact .ok ⟨follows, rfl⟩
  | cons command rest ih =>
    obtain ⟨first, further⟩ := truthful
    refine .bind (follows.processed first) fun after after' completed follows' => ?_
    refine .bind (ih follows' (further after completed)) fun outcome outcome' _ same => ?_
    obtain ⟨last, events⟩ := outcome
    obtain ⟨last', events'⟩ := outcome'
    obtain ⟨⟨queues, agrees⟩, -⟩ := follows'
    exact .ok ⟨same.1, congrArg₂ List.cons agrees.eventBuf same.2⟩

/-- Every run of a new engine whose caches tell the truth is a run of the reference engine: the
same commands lead that to a state which the last engine follows, and each call reports the same
events. -/
theorem runs_as_reference (config : InstrumentConfig) (capacity : UInt32)
    (commands : List Command) (last : MatchingEngine config) (events : List (List MatchEvent))
    (truthful : Along Truthful process commands (new config capacity))
    (runs : Journal.replay (new config capacity) commands = .ok (last, events)) :
    ∃ reference, ReferenceEngine.replay config.stpMode (.new capacity.toNat) commands =
      .ok (reference, events) ∧ Follows last reference := by
  obtain ⟨outcome, runs', follows, same⟩ :=
    (Follows.new config capacity).replayed truthful _ runs
  obtain ⟨reference, events'⟩ := outcome
  obtain rfl : events = events' := same
  exact ⟨reference, runs', follows⟩

/-- Two engines do the same business: the same orders rest in the same places, in the same order,
the same stops wait, and the best prices, the last trade price and the counters are the same. -/
def SameBusiness {config' : InstrumentConfig} (engine : MatchingEngine config)
    (engine' : MatchingEngine config') : Prop :=
  (∃ queues queues', engine.Sound queues ∧ engine'.Sound queues' ∧ ∀ side price,
    fifo engine.arena queues side price = fifo engine'.arena queues' side price) ∧
  (∀ side, engine.book.best side = engine'.book.best side) ∧
  engine.stopBids = engine'.stopBids ∧ engine.stopAsks = engine'.stopAsks ∧
  engine.lastTradePrice = engine'.lastTradePrice ∧ engine.sequence = engine'.sequence ∧
  engine.timestampNs = engine'.timestampNs

/-- The best price of a side is that of its first order. -/
theorem Agrees.best_eq {queues : Queues} (agrees : Agrees engine queues reference) (side : Side) :
    engine.book.best side = (reference.book side).first?.map Order.price := by
  cases best : engine.book.best side with
  | none =>
    rw [agrees.listed.first?_none agrees.sound.rep agrees.exact best]
    rfl
  | some top =>
    obtain ⟨index, rest, queue⟩ := List.exists_cons_of_ne_nil (agrees.sound.tracks.held _ _ best)
    obtain ⟨order, rests, -, rfl⟩ := agrees.sound.rep.stored (queue ▸ List.mem_cons_self)
    rw [agrees.listed.first?_eq agrees.sound.rep agrees.exact best (by rw [queue]; rfl) rests]
    rfl

/-- Engines that follow one reference engine do the same business. -/
theorem Follows.sameBusiness {config' : InstrumentConfig} {other : MatchingEngine config'}
    (follows : Follows engine reference) (follows' : Follows other reference) :
    SameBusiness engine other := by
  obtain ⟨⟨queues, agrees⟩, -⟩ := follows
  obtain ⟨⟨queues', agrees'⟩, -⟩ := follows'
  refine ⟨⟨queues, queues', agrees.sound, agrees'.sound, fun side price => ?_⟩,
    fun side => ?_, ?_, ?_, ?_, ?_, ?_⟩
  · rw [← agrees.listed, ← agrees'.listed]
  · rw [agrees.best_eq, agrees'.best_eq]
  · rw [agrees.stopBids, agrees'.stopBids]
  · rw [agrees.stopAsks, agrees'.stopAsks]
  · rw [agrees.lastTradePrice, agrees'.lastTradePrice]
  · rw [agrees.sequence, agrees'.sequence]
  · rw [agrees.timestampNs, agrees'.timestampNs]

/-! ## A run -/

/-- A command that submits its own order and no stop, about which the depth indices answer as the
resting orders do, while every order rests in the window. -/
def loneTruth (engine : MatchingEngine config) (command : Command) : Bool :=
  loneSweep (fun _ sweep => windowOnly sweep.engine.book sweep.engine.arena) engine command &&
    match command with
    | .newOrder _ order =>
      decide (engine.clearEvents.checkAvailableLiquidity order.side (effectivePrice order) <
          order.qty) ==
        decide (engine.clearEvents.acceptableLiquidity order < order.qty.toNat)
    | _ => false

/-- The caches tell the truth about such a command. -/
theorem truthful_of_loneTruth (passes : loneTruth engine command = true) :
    Truthful engine command := by
  unfold loneTruth at passes
  rw [Bool.and_eq_true] at passes
  refine ⟨noneHidden_of_loneSweep passes.1, fun site order submits _ => ?_⟩
  have alone := passes.1
  unfold loneSweep at alone
  rw [Bool.and_eq_true] at alone
  obtain ⟨rfl, instrumentId, rfl⟩ := submits.of_lone alone.1
  exact decide_eq_decide.mp (beq_iff_eq.mp passes.2)

/-- A run of such commands is one whose caches tell the truth. -/
theorem along_of_loneTruth {commands : List Command}
    (passes : (checkedRun loneTruth process commands engine).isSome = true) :
    Along Truthful process commands engine := by
  obtain ⟨last, runs⟩ := Option.isSome_iff_exists.mp passes
  exact .of_checkedRun (fun _ _ => truthful_of_loneTruth) runs

/-- An ask of ten, a bid that takes four of it and a fill-or-kill bid that takes five more. -/
def askThenBids : List Command :=
  [.submit (.gtc 1 .ask 2 10), .submit (.gtc 2 .bid 3 4),
    .submit { NewOrder.gtc 3 .bid 2 5 with timeInForce := .fok }]

/-- The reference engine runs it with the same events. -/
theorem asks_and_bids_as_reference :
    ∃ (last : MatchingEngine (smallConfig .cancelNewest)) (reference : ReferenceEngine)
      (events : List (List MatchEvent)),
      ReferenceEngine.replay .cancelNewest (.new 8) askThenBids = .ok (reference, events) ∧
      Follows last reference ∧ events.map List.length = [2, 3, 3] := by
  have shown : (Journal.replay (new (smallConfig .cancelNewest) 8) askThenBids).toOption.any
      (fun outcome => outcome.2.map List.length == [2, 3, 3]) = true := by decide +kernel
  obtain ⟨⟨last, events⟩, runs, counts⟩ := (Option.any_eq_true _ _).mp shown
  obtain ⟨reference, runs', follows⟩ := runs_as_reference (smallConfig .cancelNewest) 8 askThenBids
    last events (along_of_loneTruth (by decide +kernel)) (ok_of_toOption runs)
  exact ⟨last, reference, events, runs', follows, beq_iff_eq.mp counts⟩

end MatchingEngine

end MatchX
