import MatchX.Engine.Ledger

/-!
# No self-trade

The group that the engine keeps of a resting order or of a stop is the one it was submitted
under, as long as no order is submitted under the group that stands for none and no order that
was submitted under a group is modified, which drops the group. Then no fill has a maker and a
taker of one group.
-/

namespace MatchX

open MatchX.Support

variable {config : InstrumentConfig}

/-- A trigger price with the group of its stop. -/
def stopGroup (pending : UInt64 × StopEntry) : UInt64 × Option UInt32 :=
  (pending.1, pending.2.stpGroup)

/-- The groups of a stop queue with a new entry. -/
theorem insertStop_groups (queue : List (UInt64 × StopEntry)) (before : UInt64 → Bool)
    (stopPx : UInt64) (entry : StopEntry) :
    (MatchingEngine.insertStop queue before stopPx entry).map stopGroup =
      MatchingEngine.insertStop (queue.map stopGroup) before stopPx entry.stpGroup := by
  simp only [MatchingEngine.insertStop, partitionPoint, List.takeWhile_map, List.length_map,
    List.map_insertIdx]
  rfl

/-- A new entry or an old one is in the queue. -/
theorem mem_insertStop {queue : List (UInt64 × StopEntry)} {before : UInt64 → Bool}
    {stopPx : UInt64} {entry : StopEntry} {pending : UInt64 × StopEntry}
    (member : pending ∈ MatchingEngine.insertStop queue before stopPx entry) :
    pending = (stopPx, entry) ∨ pending ∈ queue :=
  List.eq_or_mem_of_mem_insertIdx member

/-- A maker of a reported fill is in a fill that is reported. -/
theorem mem_fillMakers {bodies : List EventBody} {makerId : OrderId}
    (member : makerId ∈ fillMakers bodies) : ∃ takerId price qty makerLeft takerLeft,
      .fill makerId takerId price qty makerLeft takerLeft ∈ bodies := by
  obtain ⟨body, reported, same⟩ := List.mem_filterMap.mp member
  split at same
  · obtain rfl := Option.some.inj same
    exact ⟨_, _, _, _, _, reported⟩
  · contradiction

namespace Tracked

/-- The groups that the engine keeps are those of the ledger, and no fill so far had a maker and
a taker of one group. -/
structure Faithful (tracked : Tracked config) : Prop where
  /-- The engine is sound. -/
  sound : ∃ queues, tracked.engine.Sound queues
  /-- A resting order keeps its group, which is not the one that stands for none. -/
  makers : ∀ i order, tracked.engine.arena.resting i = some order →
    order.stpGroup = (tracked.ledger.resting order.id).getD stpNone ∧
      tracked.ledger.resting order.id ≠ some stpNone
  /-- The buy stops keep their groups. -/
  bids : tracked.ledger.stopBids = tracked.engine.stopBids.map stopGroup
  /-- The sell stops keep their groups. -/
  asks : tracked.ledger.stopAsks = tracked.engine.stopAsks.map stopGroup
  /-- No buy stop is of the group that stands for none. -/
  properBids : ∀ pending ∈ tracked.engine.stopBids, pending.2.stpGroup ≠ some stpNone
  /-- No sell stop is of the group that stands for none. -/
  properAsks : ∀ pending ∈ tracked.engine.stopAsks, pending.2.stpGroup ≠ some stpNone
  /-- No fill had a maker and a taker of one group. -/
  apart : ∀ trade ∈ tracked.ledger.trades, ∀ group, trade ≠ (some group, some group)

variable {tracked tracked' : Tracked config} {order : NewOrder} {group : Option UInt32}

/-- A new engine has an empty ledger. -/
theorem faithful_new (config : InstrumentConfig) (capacity : UInt32) :
    Faithful (⟨MatchingEngine.new config capacity, .empty⟩ : Tracked config) where
  sound := ⟨_, MatchingEngine.sound_new config capacity⟩
  makers i order rests := by
    change (Arena.new capacity).resting i = some order at rests
    rw [Arena.resting_eq_none.mpr (Arena.find_new capacity i)] at rests
    contradiction
  bids := rfl
  asks := rfl
  properBids _ member := by simp [MatchingEngine.new] at member
  properAsks _ member := by simp [MatchingEngine.new] at member
  apart _ member := by simp [Ledger.empty] at member

/-- Only a stop order is parked. -/
theorem park_eq {ledger : Ledger} (other : order.orderType ≠ .stopLimit) :
    ledger.park order group = ledger := by
  unfold Ledger.park
  split
  · contradiction
  · contradiction
  · rfl

/-- The stops after an order is handled, in the engine and in the ledger. -/
theorem handle_stops {after : MatchingEngine config} (faithful : Faithful tracked)
    (kept : order.stpGroup = group) (proper : group ≠ some stpNone)
    (returned : tracked.engine.processNewOrder order = .ok after) :
    ((tracked.ledger.park order group).stopBids = after.stopBids.map stopGroup ∧
      (tracked.ledger.park order group).stopAsks = after.stopAsks.map stopGroup) ∧
    (∀ pending ∈ after.stopBids, pending.2.stpGroup ≠ some stpNone) ∧
    ∀ pending ∈ after.stopAsks, pending.2.stpGroup ≠ some stpNone := by
  obtain ⟨queues, sound⟩ := faithful.sound
  by_cases kind : order.orderType = .stopLimit
  · have parked : tracked.engine.processStopLimit order = after := by
      simpa [MatchingEngine.processNewOrder, kind] using returned
    unfold MatchingEngine.processStopLimit at parked
    have same : ∀ reason, tracked.engine.emitRejected order.id reason = after →
        tracked.ledger.park order group = tracked.ledger →
        ((tracked.ledger.park order group).stopBids = after.stopBids.map stopGroup ∧
          (tracked.ledger.park order group).stopAsks = after.stopAsks.map stopGroup) ∧
        (∀ pending ∈ after.stopBids, pending.2.stpGroup ≠ some stpNone) ∧
        ∀ pending ∈ after.stopAsks, pending.2.stpGroup ≠ some stpNone := by
      rintro reason rfl unchanged
      rw [unchanged]
      exact ⟨⟨faithful.bids, faithful.asks⟩, faithful.properBids, faithful.properAsks⟩
    split at parked
    · rename_i nothing
      refine same _ parked ?_
      unfold Ledger.park
      split <;> simp [nothing]
    rename_i something
    split at parked
    · rename_i missing
      refine same _ parked ?_
      simp [Ledger.park, missing]
    rename_i stopPx stops
    subst kept
    dsimp only at parked
    cases side : order.side with
    | bid =>
      simp only [side] at parked
      subst parked
      simp only [Ledger.park, kind, stops, side, if_neg something]
      refine ⟨⟨?_, faithful.asks⟩, fun pending member => ?_, faithful.properAsks⟩
      · rw [faithful.bids, insertStop_groups]
        rfl
      · rcases mem_insertStop member with rfl | old
        · exact proper
        · exact faithful.properBids pending old
    | ask =>
      simp only [side] at parked
      subst parked
      simp only [Ledger.park, kind, stops, side, if_neg something]
      refine ⟨⟨faithful.bids, ?_⟩, faithful.properBids, fun pending member => ?_⟩
      · rw [faithful.asks, insertStop_groups]
        rfl
      · rcases mem_insertStop member with rfl | old
        · exact proper
        · exact faithful.properAsks pending old
  · obtain ⟨bids, asks⟩ := (MatchingEngine.processNewOrder_cases sound returned).stops_eq sound kind
    rw [park_eq kind, bids, asks]
    exact ⟨⟨faithful.bids, faithful.asks⟩, faithful.properBids, faithful.properAsks⟩

/-- An order whose group is the one it was submitted under, and not the one that stands for none,
keeps the ledger faithful. -/
theorem Faithful.processNewOrder (faithful : Faithful tracked) (kept : order.stpGroup = group)
    (proper : group ≠ some stpNone)
    (returned : tracked.processNewOrder order group = .ok tracked') : Faithful tracked' := by
  unfold Tracked.processNewOrder at returned
  cases handling : tracked.engine.processNewOrder order with
  | error fault =>
    rw [handling] at returned
    contradiction
  | ok after =>
    rw [handling] at returned
    obtain rfl := Except.ok.inj returned
    obtain ⟨queues, sound⟩ := faithful.sound
    have handled := MatchingEngine.processNewOrder_cases sound handling
    obtain ⟨⟨bids, asks⟩, properBids, properAsks⟩ := handle_stops faithful kept proper handling
    refine ⟨handled.sound sound, ?_, bids, asks, properBids, properAsks, ?_⟩
    · intro i stored rests
      simp only [Ledger.handle]
      rcases handled.origin sound rests with ⟨before, delta, old, -, rfl⟩ | ⟨qty, rfl, unused⟩
      · have other : ¬(before.id = order.id ∧ tracked.engine.book.lookup before.id = none) :=
          fun same => sound.rep.lookup_none same.2 old rfl
        rw [Order.fill_id, Order.fill_stpGroup, if_neg other]
        exact faithful.makers i before old
      · rw [if_pos ⟨rfl, unused⟩, ← kept]
        exact ⟨rfl, kept ▸ proper⟩
    · intro trade member shared same
      simp only [Ledger.handle, List.mem_append] at member
      rcases member with old | new
      · exact faithful.apart trade old shared same
      obtain ⟨makerId, filled, rfl⟩ := List.mem_map.mp new
      obtain ⟨takerId, price, qty, makerLeft, takerLeft, reported⟩ := mem_fillMakers filled
      obtain ⟨-, -, sweep, flow, visits, step, emitted⟩ := handled.filled sound reported
      obtain ⟨queues', sound'⟩ := MatchingEngine.sound_of_visits
        (MatchingEngine.Sound.accept sound order) visits
      obtain ⟨index, maker, front, -, apart, rfl, -, -⟩ :=
        (MatchingEngine.matchStep_cases sound' step).filled emitted
      -- The maker rested under its group before the order was handled.
      obtain ⟨-, shrinks⟩ := MatchingEngine.visits_keeps
        (fun state => tracked.engine.arena.Shrinks state.arena)
        (fun _ _ _ _ held before _ further =>
          before.trans sound.rep.toQueued (further.shrinks held))
        (MatchingEngine.Sound.accept sound order) (Arena.Shrinks.refl _) visits
      obtain ⟨before, delta, old, -, became⟩ := shrinks index _ (Arena.resting_of_find front.found)
      obtain ⟨keeps, -⟩ := faithful.makers index before old
      have sameId : before.id = maker.id := (congrArg Order.id became).symm
      have sameGroup : before.stpGroup = maker.stpGroup := (congrArg Order.stpGroup became).symm
      obtain ⟨ofMaker, ofTaker⟩ := Prod.mk.inj same
      rw [sameGroup, sameId, ofMaker, Option.getD_some] at keeps
      have different : shared ≠ stpNone := fun none => proper (by rw [ofTaker, none])
      simp [MatchingEngine.sameGroup, MatchingEngine.takerOf, kept, ofTaker, keeps, different]
        at apart

/-! ## Calls and runs -/

/-- A buy stop that fires is submitted under its group. -/
theorem Faithful.triggerBuy {lastPrice : UInt64} {engine : MatchingEngine config}
    (faithful : Faithful tracked)
    (triggered : MatchingEngine.triggerBuy lastPrice tracked.engine = some (engine, order)) :
    Faithful ⟨engine, tracked.ledger.takeBid.2⟩ ∧ order.stpGroup = tracked.ledger.takeBid.1 ∧
      tracked.ledger.takeBid.1 ≠ some stpNone := by
  unfold MatchingEngine.triggerBuy at triggered
  have bids := faithful.bids
  split at triggered
  · contradiction
  rename_i stopPx entry rest queue
  rw [queue] at bids
  split at triggered
  · contradiction
  obtain ⟨rfl, rfl⟩ := Prod.mk.inj (Option.some.inj triggered)
  have group : tracked.ledger.takeBid.1 = entry.stpGroup := by simp [Ledger.takeBid, bids, stopGroup]
  obtain ⟨queues, sound⟩ := faithful.sound
  refine ⟨⟨⟨queues, sound.congr rfl rfl⟩, faithful.makers, ?_, faithful.asks, ?_,
    faithful.properAsks, faithful.apart⟩, ?_, ?_⟩
  · simp [Ledger.takeBid, bids]
  · exact fun pending member => faithful.properBids pending (queue ▸ List.mem_cons_of_mem _ member)
  · exact group.symm
  · rw [group]
    exact faithful.properBids (stopPx, entry) (queue ▸ List.mem_cons_self)

/-- A sell stop that fires is submitted under its group. -/
theorem Faithful.triggerSell {lastPrice : UInt64} {engine : MatchingEngine config}
    (faithful : Faithful tracked)
    (triggered : MatchingEngine.triggerSell lastPrice tracked.engine = some (engine, order)) :
    Faithful ⟨engine, tracked.ledger.takeAsk.2⟩ ∧ order.stpGroup = tracked.ledger.takeAsk.1 ∧
      tracked.ledger.takeAsk.1 ≠ some stpNone := by
  unfold MatchingEngine.triggerSell at triggered
  have asks := faithful.asks
  split at triggered
  · contradiction
  rename_i stopPx entry rest queue
  rw [queue] at asks
  split at triggered
  · contradiction
  obtain ⟨rfl, rfl⟩ := Prod.mk.inj (Option.some.inj triggered)
  have group : tracked.ledger.takeAsk.1 = entry.stpGroup := by simp [Ledger.takeAsk, asks, stopGroup]
  obtain ⟨queues, sound⟩ := faithful.sound
  refine ⟨⟨⟨queues, sound.congr rfl rfl⟩, faithful.makers, faithful.bids, ?_,
    faithful.properBids, ?_, faithful.apart⟩, ?_, ?_⟩
  · simp [Ledger.takeAsk, asks]
  · exact fun pending member => faithful.properAsks pending (queue ▸ List.mem_cons_of_mem _ member)
  · exact group.symm
  · rw [group]
    exact faithful.properAsks (stopPx, entry) (queue ▸ List.mem_cons_self)

section Drain

variable {trigger : MatchingEngine config → Option (MatchingEngine config × NewOrder)}
  {take : Ledger → Option UInt32 × Ledger}
  (each : ∀ (tracked : Tracked config) engine order, Faithful tracked →
    trigger tracked.engine = some (engine, order) →
    Faithful ⟨engine, (take tracked.ledger).2⟩ ∧ order.stpGroup = (take tracked.ledger).1 ∧
      (take tracked.ledger).1 ≠ some stpNone)
include each

/-- An inner loop of the drain keeps the ledger faithful. -/
theorem Faithful.fires (faithful : Faithful tracked) {fuel : Nat}
    (returned : loop .exhausted (fireStop trigger take) fuel tracked = .ok tracked') :
    Faithful tracked' := by
  have steps : ∀ (state : Tracked config) flow, Faithful state →
      fireStop trigger take state = .ok flow →
      match flow with
      | .next following => Faithful following
      | .done result => Faithful result := by
    intro state flow held step
    unfold fireStop at step
    split at step
    · obtain rfl := Except.ok.inj step
      exact held
    · rename_i engine order triggered
      obtain ⟨placed, kept, proper⟩ := each state engine order held triggered
      simp only [bind, Except.bind, pure, Except.pure] at step
      split at step
      · contradiction
      · rename_i after handled
        obtain rfl := Except.ok.inj step
        exact placed.processNewOrder kept proper handled
  exact loop_rule (fun state following held step => steps state _ held step)
    (fun state result held step => steps state _ held step) faithful returned

end Drain

/-- The drain of the stops keeps the ledger faithful. -/
theorem Faithful.drainStopTriggers (faithful : Faithful tracked)
    (returned : tracked.drainStopTriggers = .ok tracked') : Faithful tracked' := by
  have steps : ∀ (state : Tracked config) flow, Faithful state → drainPass state = .ok flow →
      match flow with
      | .next following => Faithful following
      | .done result => Faithful result := by
    intro state flow held step
    unfold drainPass at step
    split at step
    · obtain rfl := Except.ok.inj step
      exact held
    · simp only [bind, Except.bind, pure, Except.pure] at step
      split at step
      · contradiction
      rename_i bought buys
      have afterBuys := held.fires (fun _ _ _ faithful => faithful.triggerBuy) buys
      split at step
      · contradiction
      rename_i sold sells
      have afterSells := afterBuys.fires (fun _ _ _ faithful => faithful.triggerSell) sells
      split at step <;> (obtain rfl := Except.ok.inj step; exact afterSells)
  exact loop_rule (fun state following held step => steps state _ held step)
    (fun state result held step => steps state _ held step) faithful returned

/-- The command submits no order under the group that stands for none, and modifies no order that
was submitted under a group. -/
def KeepsGroups (tracked : Tracked config) : Command → Prop
  | .newOrder _ order => order.stpGroup ≠ some stpNone
  | .cancelOrder _ => True
  | .modifyOrder id _ _ => tracked.engine.book.lookup id ≠ none → tracked.ledger.resting id = none

/-- A command that keeps the groups keeps the ledger faithful. -/
theorem Faithful.dispatch {command : Command} (faithful : Faithful tracked)
    (keeps : KeepsGroups tracked command)
    (returned : tracked.dispatch command = .ok tracked') : Faithful tracked' := by
  obtain ⟨queues, sound⟩ := faithful.sound
  have shrunk : ∀ {engine : MatchingEngine config}, (∃ queues, engine.Sound queues) →
      tracked.engine.arena.Shrinks engine.arena → engine.stopBids = tracked.engine.stopBids →
      engine.stopAsks = tracked.engine.stopAsks → Faithful ⟨engine, tracked.ledger⟩ := by
    intro engine sound' shrinks bids asks
    refine ⟨sound', fun i stored rests => ?_, ?_, ?_, ?_, ?_, faithful.apart⟩
    · obtain ⟨before, delta, old, -, rfl⟩ := shrinks i stored rests
      exact faithful.makers i before old
    · rw [faithful.bids, ← bids]
    · rw [faithful.asks, ← asks]
    · rw [bids]
      exact faithful.properBids
    · rw [asks]
      exact faithful.properAsks
  cases command with
  | newOrder instrumentId order => exact faithful.processNewOrder rfl keeps returned
  | cancelOrder id =>
    simp only [Tracked.dispatch, bind, Except.bind, pure, Except.pure] at returned
    split at returned
    · contradiction
    rename_i after cancelled
    obtain rfl := Except.ok.inj returned
    cases MatchingEngine.processCancel_cases sound cancelled with
    | missing => exact shrunk ⟨queues, sound.congr rfl rfl⟩ (Arena.Shrinks.refl _) rfl rfl
    | removed _ _ _ removed =>
      exact shrunk ⟨_, removed.represents, removed.tracks sound.tracks⟩ removed.shrinks rfl rfl
  | modifyOrder id newPrice newQty =>
    simp only [Tracked.dispatch] at returned
    split at returned
    · rename_i index held
      simp only [bind, Except.bind] at returned
      split at returned
      · contradiction
      rename_i withdrawn withdrawal
      have none : tracked.ledger.resting id = none := keeps (by simp [held])
      rw [none] at returned
      cases MatchingEngine.withdraw_cases sound held withdrawal with
      | removed _ removed =>
        refine Faithful.processNewOrder ?_ rfl (by simp [MatchingEngine.replacement]) returned
        exact shrunk ⟨_, removed.represents, removed.tracks sound.tracks⟩ removed.shrinks rfl rfl
    · obtain rfl := Except.ok.inj returned
      exact shrunk ⟨queues, sound.congr rfl rfl⟩ (Arena.Shrinks.refl _) rfl rfl

/-- A call whose command keeps the groups keeps the ledger faithful. -/
theorem Faithful.process {command : Command} (faithful : Faithful tracked)
    (keeps : KeepsGroups tracked command)
    (returned : tracked.process command = .ok tracked') : Faithful tracked' := by
  unfold Tracked.process at returned
  simp only [bind, Except.bind, pure, Except.pure] at returned
  obtain ⟨queues, sound⟩ := faithful.sound
  have cleared : Faithful ⟨tracked.engine.clearEvents, tracked.ledger⟩ :=
    ⟨⟨queues, sound.congr rfl rfl⟩, faithful.makers, faithful.bids, faithful.asks,
      faithful.properBids, faithful.properAsks, faithful.apart⟩
  split at returned
  · contradiction
  rename_i dispatched dispatching
  have placed := cleared.dispatch (by cases command <;> exact keeps) dispatching
  split at returned
  · contradiction
  rename_i drained draining
  split at returned
  · obtain rfl := Except.ok.inj returned
    exact placed.drainStopTriggers draining
  · contradiction

/-- In every run that submits no order under the group that stands for none and modifies no order
that was submitted under a group, no fill has a maker and a taker that were submitted under one
group. The calls of such a run are those of the engine. -/
theorem no_self_trade_unless_dropped (config : InstrumentConfig) :
    (∀ tracked : Tracked config, Reaches config KeepsGroups tracked →
      ∀ trade ∈ tracked.ledger.trades, ∀ group, trade ≠ (some group, some group)) ∧
    ∀ (tracked : Tracked config) command,
      (tracked.process command).map engine = tracked.engine.process command := by
  refine ⟨fun tracked reached => ?_, engine_process⟩
  have faithful : Faithful tracked := by
    refine Reached.invariant ?_ ?_ reached
    · rintro tracked ⟨capacity, rfl⟩
      exact faithful_new config capacity
    · exact fun tracked command following faithful keeps returned =>
        faithful.process keeps returned
  exact faithful.apart

instance (tracked : Tracked config) (command : Command) :
    Decidable (KeepsGroups tracked command) := by
  cases command <;> unfold KeepsGroups <;> infer_instance

/-- A fill between groups 1 and 2 is recorded, and none of one group. -/
theorem no_self_trade_of_two_groups :
    ∃ tracked : Tracked (smallConfig .cancelNewest),
      (∀ trade ∈ tracked.ledger.trades, ∀ group, trade ≠ (some group, some group)) ∧
      tracked.ledger.trades = [(some 1, some 2)] := by
  obtain ⟨tracked, reached, shown⟩ : ∃ tracked, Reaches (smallConfig .cancelNewest) KeepsGroups
      tracked ∧ (tracked.ledger.trades == [(some 1, some 2)]) = true :=
    Reached.exists_checkedRun (fun tracked command => decide (KeepsGroups tracked command)) _
      (fun _ _ => of_decide_eq_true) ⟨8, rfl⟩
      [.submit { NewOrder.gtc 1 .ask 2 10 with stpGroup := some 1 },
        .submit { NewOrder.gtc 2 .bid 2 4 with stpGroup := some 2 }] (by decide +kernel)
  exact ⟨tracked, (no_self_trade_unless_dropped _).1 tracked reached, beq_iff_eq.mp shown⟩

/-- An ask of group 1 is modified and filled by a bid of group 1. -/
theorem self_trade_after_modify :
    ¬∀ tracked : Tracked (smallConfig .cancelNewest),
      Reaches (smallConfig .cancelNewest) (fun _ _ => True) tracked →
      ∀ trade ∈ tracked.ledger.trades, ∀ group, trade ≠ (some group, some group) := by
  intro never
  obtain ⟨tracked, reached, shown⟩ : ∃ tracked,
      Reaches (smallConfig .cancelNewest) (fun _ _ => True) tracked ∧
        (tracked.ledger.trades == [(some 1, some 1)]) = true :=
    Reached.exists_checkedRun (fun _ _ => true) _ (fun _ _ _ => trivial) ⟨8, rfl⟩
      [.submit { NewOrder.gtc 1 .ask 2 10 with stpGroup := some 1 }, .modifyOrder 1 3 10,
        .submit { NewOrder.gtc 2 .bid 3 4 with stpGroup := some 1 }] (by decide +kernel)
  refine never tracked reached (some 1, some 1) ?_ 1 rfl
  rw [beq_iff_eq.mp shown]
  exact List.mem_cons_self

end Tracked

end MatchX
