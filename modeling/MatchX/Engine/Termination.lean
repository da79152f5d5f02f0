import MatchX.Book.Liquidity
import MatchX.Engine.Stops

/-!
# Termination

The loops of a call end. An iteration of the matching loop that does not leave it removes an
order or fills a positive quantity, so the number of resting orders and the taker's remaining
quantity bound the iterations; a pass of the drain that is followed by another one has taken a
pending stop, since a trade price changes only when an order is handled. In the model: no loop
runs out of the iterations it is given.
-/

namespace MatchX

open MatchX.Support

variable {ticks : UInt32} {book book' : OrderBook ticks} {arena arena' : Arena}
  {queues : Queues} {order : Order} {index : ArenaIndex} {delta : UInt64}

/-! ## Parts without loops -/

/-- Reading a slot runs no loop. -/
theorem Arena.get_avoids : Avoids .exhausted (arena.get index) := by
  unfold Arena.get
  split
  · exact .ok _
  · exact .error (by decide)

/-- Writing a slot runs no loop. -/
theorem Arena.modify_avoids {change : Order → Order} :
    Avoids .exhausted (arena.modify index change) := by
  unfold Arena.modify
  split
  · exact .ok _
  · exact .error (by decide)

/-- Freeing a slot runs no loop. -/
theorem Arena.free_avoids : Avoids .exhausted (arena.free index) := by
  unfold Arena.free
  split
  · exact .ok _
  · exact .error (by decide)

namespace OrderBook

variable {side : Side} {price qty : UInt64}

/-- Finding a level that must exist runs no loop. -/
theorem requireLevel_avoids {missing : Fault} (apart : missing ≠ .exhausted) :
    Avoids .exhausted (book.requireLevel missing side price) := by
  unfold requireLevel
  split
  · exact .ok _
  · split
    · exact .ok _
    · exact .error apart

/-- Lowering the depth runs no loop that the model bounds by a fault. -/
theorem depthRemove_avoids : Avoids .exhausted (book.depthRemove side price qty) := by
  unfold depthRemove
  dsimp only
  split
  · exact .ok _
  · split
    · rename_i fault failed
      refine .error ?_
      rintro rfl
      unfold SparseVolumeIndex.sub at failed
      split at failed
      · cases failed
      · split at failed
        · cases failed
        · dsimp only at failed
          split at failed <;> cases failed
    · exact .ok _

/-- Removing an order runs no loop. -/
theorem removeOrder_avoids : Avoids .exhausted (book.removeOrder arena index) := by
  unfold removeOrder
  refine .bind Arena.get_avoids fun order _ => ?_
  dsimp only
  have tail : ∀ {book : OrderBook ticks} {arena : Arena}
      {further : OrderBook ticks → Arena → (Side × UInt64) × OrderBook ticks × Arena},
      Avoids .exhausted (do
        let book ← book.depthRemove order.side order.price order.remaining
        let arena ← arena.free index
        pure (further book arena)) :=
    .bind depthRemove_avoids fun _ _ => .bind Arena.free_avoids fun _ _ => .ok _
  split
  · refine .bind Arena.modify_avoids fun _ _ => .bind (.ok _) fun _ _ => ?_
    split
    · exact .bind Arena.modify_avoids fun _ _ => .bind (.ok _) fun _ _ => tail
    · exact .bind (.ok _) fun _ _ => tail
  · refine .bind (.ok _) fun _ _ => ?_
    split
    · exact .bind Arena.modify_avoids fun _ _ => .bind (.ok _) fun _ _ => tail
    · exact .bind (.ok _) fun _ _ => tail

/-- Lowering the quantity of an order runs no loop. -/
theorem reduceOrderQty_avoids : Avoids .exhausted (book.reduceOrderQty arena index delta) := by
  unfold reduceOrderQty
  refine .bind Arena.modify_avoids fun _ _ => .bind Arena.get_avoids fun _ _ => ?_
  dsimp only
  split
  · exact .bind depthRemove_avoids fun _ _ => .ok _
  · exact .error (by decide)

end OrderBook

/-- A live order can be matched for a quantity. -/
theorem Order.matchableQty_ne_zero (live : order.remaining ≠ 0) : order.matchableQty ≠ 0 := by
  unfold matchableQty
  split
  · rename_i iceberg
    have below : order.filled % order.visibleQuantity < order.visibleQuantity :=
      UInt64.mod_lt _ iceberg.2
    have slice : order.visibleQuantity - order.filled % order.visibleQuantity ≠ 0 := fun spent =>
      UInt64.ne_of_lt below ((MatchingEngine.sub_eq_zero_of_le (UInt64.le_of_lt below)).mp spent)
    dsimp only
    rw [Std.min_eq_if]
    split
    · exact slice
    · exact live
  · exact live

namespace Arena

/-- The number of orders in an arena. -/
def count (arena : Arena) : Nat := arena.weigh fun _ => 1

/-- The occupied slots are counted. -/
theorem count_le_len (inv : arena.Inv) : arena.count ≤ arena.len.toNat := by
  obtain ⟨free, list⟩ := inv
  have fits : arena.data.size ≤ UInt32.size := by
    rw [list.dataSize]
    exact Nat.le_of_lt arena.capacity.toNat_lt_size
  have counted : ∀ slots : List ArenaIndex, (slots.map (arena.weightAt fun _ => 1)).sum =
      (slots.filter fun i => (arena.find i).isSome).length := fun slots => by
    induction slots with
    | nil => rfl
    | cons i rest ih =>
      rw [List.map_cons, List.sum_cons, ih, List.filter_cons, weightAt, resting]
      cases arena.find i with
      | none => simp
      | some order => simp [Nat.add_comm]
  have apart : (((slotsBelow arena.data.size).filter fun i => (arena.find i).isSome) ++
      free).Nodup := by
    refine List.nodup_append'.mpr ⟨(slotsBelow_nodup fits).filter _, list.nodup, ?_⟩
    intro i member vacant
    have occupied := (List.mem_filter.mp member).2
    simp [((list.vacant i).mp vacant).2] at occupied
  have bound := length_le_of_lt apart fun i member => by
    rcases List.mem_append.mp member with occupied | vacant
    · obtain ⟨order, found⟩ := Option.isSome_iff_exists.mp (List.mem_filter.mp occupied).2
      exact list.dataSize ▸ find_lt found
    · exact ((list.vacant i).mp vacant).1
  have total := list.count
  rw [count, weigh_eq (fun _ => 1) (Nat.le_refl _) fits, counted]
  rw [List.length_append] at bound
  omega

end Arena

/-- A removal takes one order away. -/
theorem Removed.count_eq
    (removed : Removed book arena queues order index book' arena') (slots : arena.Inv) :
    arena.count = arena'.count + 1 :=
  removed.weigh slots fun _ => 1

/-- Taking a quantity removes no order. -/
theorem Taken.count_eq
    (taken : Taken book arena queues order index delta book' arena') (slots : arena.Inv) :
    arena'.count = arena.count :=
  (Nat.add_right_cancel (taken.weigh slots fun _ => 1)).symm

namespace MatchingEngine

variable {config : InstrumentConfig} {engine engine' : MatchingEngine config} {command : Command}
  {order : NewOrder} {taker : Taker} {sweep following : Sweep config} {side : Side}
  {price lastPrice : UInt64} {maker : Order}

/-- Finding the opposing level runs no loop. -/
theorem opposingLevel_avoids : Avoids .exhausted (engine.opposingLevel side price) := by
  cases side
  · exact OrderBook.requireLevel_avoids (by decide)
  · exact OrderBook.requireLevel_avoids (by decide)

/-- Removing a maker runs no loop. -/
theorem removeMaker_avoids : Avoids .exhausted (engine.removeMaker index) :=
  .bind OrderBook.removeOrder_avoids fun _ _ => .ok _

/-- Preventing a self-trade runs no loop. -/
theorem preventSelfTrade_avoids : Avoids .exhausted (preventSelfTrade sweep price index maker) := by
  unfold preventSelfTrade
  split
  · exact .ok _
  · exact .bind removeMaker_avoids fun _ _ => .ok _
  · exact .bind removeMaker_avoids fun _ _ => .ok _
  · dsimp only
    split
    · exact .bind removeMaker_avoids fun _ _ => .ok _
    · exact .bind OrderBook.reduceOrderQty_avoids fun _ _ => .bind (.ok _) fun _ _ => .ok _

/-- Filling a maker runs no loop. -/
theorem fillMaker_avoids : Avoids .exhausted (fillMaker taker sweep price index maker) := by
  unfold fillMaker
  refine .bind Arena.modify_avoids fun _ _ => .bind Arena.get_avoids fun _ _ => ?_
  dsimp only
  split
  · exact .bind removeMaker_avoids fun _ _ => .ok _
  · exact .bind (.ok _) fun _ _ => .ok _

/-- An iteration of the matching loop runs no loop of its own. -/
theorem matchStep_avoids : Avoids .exhausted (matchStep taker sweep) := by
  unfold matchStep
  dsimp only
  split
  · exact .ok _
  split
  · split
    · exact .ok _
    refine .bind opposingLevel_avoids fun _ _ => ?_
    split
    · refine .bind Arena.get_avoids fun _ _ => ?_
      split
      · exact .bind removeMaker_avoids fun _ _ => .ok _
      split
      · exact preventSelfTrade_avoids
      · exact .bind fillMaker_avoids fun _ _ => .ok _
    · exact .ok _
  · exact .ok _

/-! ## The matching loop -/

/-- What an iteration of the matching loop that does not leave it achieves. -/
structure Progress (sweep following : Sweep config) : Prop where
  /-- No order is added. -/
  orders : following.engine.arena.count ≤ sweep.engine.arena.count
  /-- The remaining quantity does not grow. -/
  remaining : following.remaining ≤ sweep.remaining
  /-- An order is removed or the remaining quantity falls. -/
  strict : following.engine.arena.count < sweep.engine.arena.count ∨
    following.remaining < sweep.remaining
  /-- What is filled is filled by a quantity. -/
  fills : ∃ news, following.engine.bodies = sweep.engine.bodies ++ news ∧
    ∀ makerId takerId price qty makerRemaining takerRemaining,
      EventBody.fill makerId takerId price qty makerRemaining takerRemaining ∈ news → 0 < qty

/-- A difference of a word and a positive one no larger is less than the word. -/
theorem sub_lt_of_pos {large small : UInt64} (ordered : small ≤ large) (positive : small ≠ 0) :
    large - small < large := by
  have proper : small.toNat ≠ 0 := fun zero => positive (UInt64.toNat_inj.mp zero)
  have bound := UInt64.le_iff_toNat_le.mp ordered
  rw [UInt64.lt_iff_toNat_lt, UInt64.toNat_sub_of_le _ _ ordered]
  omega

/-- An iteration that does not leave the matching loop makes progress. -/
theorem Iteration.progress (sound : sweep.engine.Sound queues)
    (iteration : Iteration taker queues sweep (.next following)) : Progress sweep following := by
  have slots := sound.rep.slots
  cases iteration with
  | stale _ _ _ removed =>
    have fewer := removed.count_eq slots
    exact ⟨by simp; omega, UInt64.le_refl _, .inl (by simp; omega), [], by simp, by simp⟩
  | oldest _ _ _ _ _ removed =>
    have fewer := removed.count_eq slots
    refine ⟨by simp; omega, UInt64.le_refl _, .inl (by simp; omega), _, by simp; rfl, by simp⟩
  | @fillPart price index maker book arena left front apart part taken =>
    have same := taken.count_eq slots
    have live : maker.remaining ≠ 0 := fun spent => by
      rw [spent] at part
      exact absurd part (UInt64.not_lt_zero)
    have positive : min sweep.remaining maker.matchableQty ≠ 0 := by
      rw [Std.min_eq_if]
      split
      · exact left
      · exact Order.matchableQty_ne_zero live
    have falls : sweep.remaining - min sweep.remaining maker.matchableQty < sweep.remaining :=
      sub_lt_of_pos Std.min_le_left positive
    refine ⟨by simp [same], UInt64.le_of_lt falls, .inr falls, _, by simp; rfl, ?_⟩
    intro makerId takerId price' qty makerRemaining takerRemaining member
    simp only [List.mem_cons, EventBody.fill.injEq, List.not_mem_nil, reduceCtorEq, or_false] at member
    exact member.2.2.2.1 ▸ UInt64.pos_iff_ne_zero.mpr positive
  | @fillAll price index maker book arena book' arena' left front live apart whole taken _ removed =>
    have same := taken.count_eq slots
    have fewer := removed.count_eq taken.represents.slots
    have within : maker.remaining ≤ sweep.remaining := whole ▸ Std.min_le_left
    have falls := sub_lt_of_pos within live
    refine ⟨by simp; omega, UInt64.le_of_lt falls, .inr falls, _, by simp; rfl, ?_⟩
    intro makerId takerId price' qty makerRemaining takerRemaining member
    simp only [List.mem_cons, EventBody.fill.injEq, List.not_mem_nil, reduceCtorEq, or_false] at member
    exact member.2.2.2.1 ▸ UInt64.pos_iff_ne_zero.mpr live

/-- The matching loop ends within the iterations that the resting orders and the remaining
quantity allow. -/
theorem matchAgainstBook_avoids {qty : UInt64} (sound : engine.Sound queues) :
    Avoids .exhausted (engine.matchAgainstBook taker qty) := by
  refine @loop_avoids _ _ _ .exhausted (matchStep taker)
    (fun sweep => ∃ queues, sweep.engine.Sound queues)
    (fun sweep => sweep.engine.arena.count + sweep.remaining.toNat)
    (fun _ _ => matchStep_avoids) ?_ _ _ ⟨queues, sound⟩ ?_
  · rintro sweep following ⟨queues, sound⟩ step
    have iteration := matchStep_cases sound step
    have progress := iteration.progress sound
    have orders := progress.orders
    have remaining := UInt64.le_iff_toNat_le.mp progress.remaining
    refine ⟨iteration.sound sound, ?_⟩
    rcases progress.strict with fewer | lower
    · omega
    · have := UInt64.lt_iff_toNat_lt.mp lower
      omega
  · have counted := Arena.count_le_len sound.rep.slots
    dsimp only
    omega

/-! ## Handling an order -/

/-- Resting an order never faults. -/
theorem restOrder_avoids {qty : UInt64} (sound : engine.Sound queues) :
    Avoids .exhausted (engine.restOrder order qty) := by
  obtain ⟨engine', returned, -⟩ := restOrder_cases sound.rep order qty
  exact returned ▸ .ok engine'

/-- The checks of an order run no loop. -/
theorem refusal_avoids : Avoids .exhausted (engine.refusal order) := by
  have first : ∀ {group}, Avoids .exhausted
      (engine.stpFirstMakerMatches order.side (effectivePrice order) group) := fun {group} => by
    unfold stpFirstMakerMatches
    split
    · split
      · exact .ok _
      refine .bind opposingLevel_avoids fun _ _ => ?_
      split
      · exact .bind Arena.get_avoids fun _ _ => .ok _
      · exact .ok _
    · exact .ok _
  unfold refusal
  dsimp only
  split
  · exact .ok _
  split
  · exact .ok _
  split
  · exact .ok _
  split
  · split
    · refine .bind first fun prevented _ => ?_
      split
      · exact .ok _
      · exact .ok _
    · exact .ok _
  · exact .ok _

/-- Settling a remainder runs no loop. -/
theorem settleRemainder_avoids {result : SweepResult config} (sound : result.engine.Sound queues) :
    Avoids .exhausted (settleRemainder result order) := by
  unfold settleRemainder
  split
  · exact .ok _
  split
  · exact .ok _
  split
  · exact restOrder_avoids sound
  · exact restOrder_avoids sound
  all_goals exact .ok _

/-- Handling an order ends. -/
theorem processNewOrder_avoids (sound : engine.Sound queues) :
    Avoids .exhausted (engine.processNewOrder order) := by
  unfold processNewOrder
  split
  · rw [processPostOnly_eq]
    split
    · exact .ok _
    · exact restOrder_avoids (sound.accept order)
  · exact .ok _
  · refine .bind refusal_avoids fun reason _ => ?_
    cases reason with
    | some reason => exact .ok _
    | none =>
      refine .bind (matchAgainstBook_avoids (sound.accept order)) fun result swept => ?_
      obtain ⟨queues', sound'⟩ := matchAgainstBook_sound (sound.accept order) swept
      exact settleRemainder_avoids sound'

/-! ## The drain -/

/-- The number of pending stops. -/
def pendingStops (engine : MatchingEngine config) : Nat :=
  engine.stopBids.length + engine.stopAsks.length

/-- The pending stops are those of either side. -/
theorem pendingStops_eq (side : Side) :
    engine.pendingStops = (engine.stops side).length + (engine.stops side.opposite).length := by
  cases side
  · rfl
  · exact Nat.add_comm _ _

/-- An iteration of an inner loop of the drain takes one stop of its side. -/
theorem fireStop_falls {before after : MatchingEngine config} (sound : before.Sound queues)
    (step : fireStop (trigger side lastPrice) before = .ok (.next after)) :
    (∃ queues', after.Sound queues') ∧
      (after.stops side).length + 1 = (before.stops side).length ∧
      after.pendingStops + 1 = before.pendingStops := by
  obtain ⟨site, stopPx, entry, popped, sound', handled, still⟩ := fireStop_popped sound step
  have first := congrArg List.length popped.first
  rw [List.length_cons] at first
  refine ⟨handled.sound sound', by rw [still, first], ?_⟩
  rw [pendingStops_eq side, pendingStops_eq side, still, still, popped.other, first]
  omega

/-- An inner loop of the drain ends within the iterations that the stops of its side allow. -/
theorem fireStops_avoid {pass : MatchingEngine config} (sound : pass.Sound queues) :
    Avoids .exhausted (loop .exhausted (fireStop (trigger side lastPrice))
      ((pass.stops side).length + 1) pass) := by
  refine @loop_avoids _ _ _ .exhausted (fireStop (trigger side lastPrice))
    (fun state => ∃ queues, state.Sound queues) (fun state => (state.stops side).length)
    ?_ ?_ _ _ ⟨queues, sound⟩ (Nat.lt_succ_self _)
  · rintro state ⟨queues, sound⟩
    unfold fireStop
    split
    · exact .ok _
    · rename_i site order triggered
      obtain ⟨stopPx, entry, -, -, popped⟩ := trigger_some triggered
      exact .bind (processNewOrder_avoids (sound.congr popped.book popped.arena)) fun _ _ => .ok _
  · rintro state following ⟨queues, sound⟩ step
    obtain ⟨sound', falls, -⟩ := fireStop_falls sound step
    exact ⟨sound', by omega⟩

/-- An inner loop of the drain leaves the engine as it was or takes a stop. -/
theorem fireStops_falls {pass after : MatchingEngine config} {fuel : Nat} (sound : pass.Sound queues)
    (returned : loop .exhausted (fireStop (trigger side lastPrice)) fuel pass = .ok after) :
    (∃ queues', after.Sound queues') ∧
      (after = pass ∨ after.pendingStops < pass.pendingStops) := by
  obtain ⟨last, visits, exit⟩ := loop_exit returned
  rw [fireStop_done exit]
  clear exit
  induction visits with
  | refl => exact ⟨⟨queues, sound⟩, .inl rfl⟩
  | tail _ step held =>
    obtain ⟨⟨queues', sound'⟩, taken⟩ := held
    obtain ⟨sound'', -, falls⟩ := fireStop_falls sound' step
    refine ⟨sound'', .inr ?_⟩
    rcases taken with rfl | fewer <;> omega

/-- A pass of the drain that another one follows has taken a stop. -/
theorem drainPass_falls {pass following : MatchingEngine config} (sound : pass.Sound queues)
    (step : drainPass pass = .ok (.next following)) :
    (∃ queues', following.Sound queues') ∧ following.pendingStops < pass.pendingStops := by
  cases traded : pass.lastTradePrice with
  | none =>
    unfold drainPass at step
    rw [traded] at step
    cases step
  | some lastPrice =>
    obtain ⟨bought, sold, buys, sells, leaves⟩ := drainPass_parts traded step
    obtain ⟨⟨queues', sound'⟩, afterBuys⟩ := @fireStops_falls _ _ .bid _ _ _ _ sound buys
    obtain ⟨sound'', afterSells⟩ := @fireStops_falls _ _ .ask _ _ _ _ sound' sells
    split at leaves
    · cases leaves
    rename_i moved
    obtain rfl := Flow.next.inj leaves
    refine ⟨sound'', ?_⟩
    -- With no stop taken the trade price could not have moved.
    rcases afterBuys with rfl | fewer <;> rcases afterSells with rfl | fewer'
    · exact absurd traded moved
    all_goals omega

/-- The drain ends within the passes that the pending stops allow. -/
theorem drainStopTriggers_avoids (sound : engine.Sound queues) :
    Avoids .exhausted engine.drainStopTriggers := by
  refine @loop_avoids _ _ _ .exhausted drainPass (fun state => ∃ queues, state.Sound queues)
    pendingStops ?_ ?_ _ _ ⟨queues, sound⟩ (Nat.lt_succ_self _)
  · rintro pass ⟨queues, sound⟩
    unfold drainPass
    split
    · exact .ok _
    · rename_i lastPrice traded
      refine .bind (@fireStops_avoid _ _ .bid lastPrice _ sound) fun bought buys => ?_
      obtain ⟨⟨queues', sound'⟩, -⟩ := @fireStops_falls _ _ .bid _ _ _ _ sound buys
      refine .bind (@fireStops_avoid _ _ .ask lastPrice _ sound') fun sold _ => ?_
      split
      · exact .ok _
      · exact .ok _
  · rintro pass following ⟨queues, sound⟩ step
    exact drainPass_falls sound step

/-! ## A call -/

/-- Carrying out a command ends. -/
theorem dispatch_avoids (sound : engine.Sound queues) :
    Avoids .exhausted (engine.dispatch command) := by
  cases command with
  | newOrder instrumentId order => exact processNewOrder_avoids sound
  | cancelOrder id =>
    change Avoids .exhausted (engine.processCancel id)
    unfold processCancel
    split
    · exact .bind Arena.get_avoids fun _ _ => .bind removeMaker_avoids fun _ _ => .ok _
    · exact .ok _
  | modifyOrder id newPrice newQty =>
    change Avoids .exhausted (engine.processModify id newPrice newQty)
    unfold processModify
    split
    · rename_i index held
      refine .bind (.bind Arena.get_avoids fun _ _ => .bind removeMaker_avoids fun _ _ => .ok _)
        fun withdrawn returned => ?_
      cases withdraw_cases sound held returned with
      | removed _ removed =>
        exact processNewOrder_avoids ⟨removed.represents, removed.tracks sound.tracks⟩
    · exact .ok _

/-- A call ends. -/
theorem processUnbounded_avoids (sound : engine.Sound queues) :
    Avoids .exhausted (engine.processUnbounded command) := by
  have clear : engine.clearEvents.Sound queues := sound.congr rfl rfl
  refine .bind (dispatch_avoids clear) fun start dispatched => ?_
  obtain ⟨queues', sound'⟩ := (sound_kept engine command).dispatch ⟨queues, clear⟩ dispatched
  exact drainStopTriggers_avoids sound'

/-- Every loop of a call ends, and each further iteration achieves something. -/
structure Terminates (engine : MatchingEngine config) (command : Command) : Prop where
  /-- No loop runs out of the iterations it is given, with no bound on the events. -/
  ends : engine.processUnbounded command ≠ .error .exhausted
  /-- An iteration of a matching loop that does not leave it removes an order or lowers the
  remaining quantity. -/
  sweeps : ∀ site order sweep following, Sweeps engine command site order sweep →
    matchStep (takerOf order) sweep = .ok (.next following) → Progress sweep following
  /-- A pass of the drain that another one follows has taken a pending stop. -/
  passes : ∀ start pass following, engine.clearEvents.dispatch command = .ok start →
    Visits drainPass start pass → drainPass pass = .ok (.next following) →
    following.pendingStops < pass.pendingStops

/-- Every command on an engine that a run reaches terminates. -/
theorem process_terminates (config : InstrumentConfig) (engine : MatchingEngine config)
    (command : Command) (reachable : Reachable engine) : engine.Terminates command where
  ends := by
    obtain ⟨queues, sound⟩ := reachable.sound
    exact processUnbounded_avoids sound
  sweeps site order sweep following sweeps step := by
    obtain ⟨queues, sound⟩ := reachable.sound
    obtain ⟨queues', site⟩ := sweeps.submits.sound sound
    obtain ⟨queues'', sound'⟩ := sound_of_visits (site.accept order) sweeps.visits
    exact (matchStep_cases sound' step).progress sound'
  passes start pass following dispatched visits step := by
    obtain ⟨queues, sound⟩ := reachable.sound
    obtain ⟨queues', sound'⟩ := (sound_kept engine command).dispatch
      ⟨queues, sound.congr rfl rfl⟩ dispatched
    obtain ⟨queues'', sound''⟩ : ∃ queues, pass.Sound queues := by
      clear step
      induction visits with
      | refl => exact ⟨queues', sound'⟩
      | tail _ taken held =>
        obtain ⟨queues, sound⟩ := held
        exact (drainPass_falls sound taken).1
    exact (drainPass_falls sound'' step).2

/-- A market order that fills an iceberg slice by slice and triggers a stop terminates. -/
theorem process_terminates_of_cascade :
    ∃ engine : MatchingEngine (smallConfig .cancelOldest),
      engine.Terminates (.submit { NewOrder.gtc 9 .bid 0 7 with orderType := .market }) ∧
      (engine.stopBids.length == 1 && engine.arena.orders.length == 2) = true := by
  obtain ⟨engine, reachable, shown⟩ := Reachable.exists_run
    (fun engine : MatchingEngine (smallConfig .cancelOldest) =>
      engine.stopBids.length == 1 && engine.arena.orders.length == 2) 8
    [.submit { NewOrder.gtc 1 .ask 3 6 with orderType := .iceberg, visibleQty := some 2 },
      .submit (.gtc 2 .ask 5 4),
      .submit { NewOrder.gtc 3 .bid 6 2 with orderType := .stopLimit, stopPrice := some 5 }]
    (by decide +kernel)
  exact ⟨engine, process_terminates _ engine _ reachable, shown⟩

end MatchingEngine

end MatchX
