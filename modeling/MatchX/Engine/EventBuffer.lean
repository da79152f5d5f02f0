import MatchX.Engine.Makers
import MatchX.Engine.Rejection

/-!
# The event buffer

How many events an order causes, counted from the makers ahead of it: two for each slice of a
maker that is filled, two or three for each order that self-trade prevention cancels, and one for
what becomes of the remainder. A call stays within its buffer exactly when each order it submits
does.
-/

namespace MatchX

open MatchX.Support

variable {mode : StpMode} {taker : Taker}

/-- The number of fills that take a quantity from a maker: one for each slice of an iceberg, one
at most for any other order. -/
def Order.slices (maker : Order) (qty : Nat) : Nat :=
  if qty = 0 then 0
  else if maker.orderType = .iceberg ∧ 0 < maker.visibleQuantity then
    let peak := maker.visibleQuantity.toNat
    (qty + maker.filled.toNat % peak + (peak - 1)) / peak
  else 1

/-- The slices of a quantity are the first one, up to the next multiple of the peak, and those of
the rest. -/
theorem ceil_step {peak done qty : Nat} (peaks : 0 < peak) (proper : 0 < qty) :
    (qty + done % peak + (peak - 1)) / peak =
      1 + if qty - min qty (peak - done % peak) = 0 then 0
        else (qty - min qty (peak - done % peak) +
          (done + min qty (peak - done % peak)) % peak + (peak - 1)) / peak := by
  have offset := Nat.mod_lt done peaks
  rcases Nat.le_total qty (peak - done % peak) with last | further
  · rw [Nat.min_eq_left last, Nat.sub_self, if_pos rfl]
    have split : qty + done % peak + (peak - 1) = qty + done % peak - 1 + peak := by omega
    rw [split, Nat.add_div_right _ peaks, Nat.div_eq_of_lt (by omega)]
  · rw [Nat.min_eq_right further, ← Nat.mod_add_mod]
    have turned : done % peak + (peak - done % peak) = peak := by omega
    rw [turned, Nat.mod_self]
    split
    · rename_i exact
      have split : qty + done % peak + (peak - 1) = peak - 1 + peak := by omega
      rw [split, Nat.add_div_right _ peaks, Nat.div_eq_of_lt (by omega)]
    · have split : qty + done % peak + (peak - 1) =
          qty - (peak - done % peak) + 0 + (peak - 1) + peak := by omega
      rw [split, Nat.add_div_right _ peaks]
      omega

/-- The first slice of a maker and the others. -/
theorem Order.slices_step {maker : Order} {remaining : UInt64}
    (proper : maker.filled ≤ maker.quantity) (left : remaining ≠ 0) (live : maker.remaining ≠ 0) :
    maker.slices (min remaining maker.remaining).toNat =
      1 + (maker.fill (min remaining maker.matchableQty)).slices
        ((min remaining maker.remaining).toNat - (min remaining maker.matchableQty).toNat) := by
  have positive : 0 < remaining.toNat := Nat.pos_of_ne_zero fun zero => left (UInt64.toNat_inj.mp zero)
  have positive' : 0 < maker.remaining.toNat :=
    Nat.pos_of_ne_zero fun zero => live (UInt64.toNat_inj.mp zero)
  by_cases iceberg : maker.orderType = .iceberg ∧ 0 < maker.visibleQuantity
  · have peaks := UInt64.lt_iff_toNat_lt.mp iceberg.2
    have offset := Nat.mod_lt maker.filled.toNat peaks
    have slice : maker.matchableQty.toNat = min
        (maker.visibleQuantity.toNat - maker.filled.toNat % maker.visibleQuantity.toNat)
        maker.remaining.toNat := by
      have below : maker.filled % maker.visibleQuantity ≤ maker.visibleQuantity :=
        UInt64.le_of_lt (UInt64.mod_lt _ iceberg.2)
      rw [matchableQty, if_pos iceberg]
      simp only [toNat_min, UInt64.toNat_sub_of_le _ _ below, UInt64.toNat_mod]
    have filled : (maker.filled + min remaining maker.matchableQty).toNat =
        maker.filled.toNat + (min remaining maker.matchableQty).toNat := by
      have rest := toNat_remaining proper
      have most := UInt64.le_iff_toNat_le.mp (@matchableQty_le maker)
      have part := toNat_min remaining maker.matchableQty
      have cap := maker.quantity.toNat_lt
      rw [UInt64.toNat_add]
      omega
    have first : (min remaining maker.matchableQty).toNat =
        min (min remaining maker.remaining).toNat
          (maker.visibleQuantity.toNat - maker.filled.toNat % maker.visibleQuantity.toNat) := by
      rw [toNat_min, toNat_min, slice]
      omega
    have proper' : 0 < (min remaining maker.remaining).toNat := by
      rw [toNat_min]
      omega
    have step := @ceil_step maker.visibleQuantity.toNat maker.filled.toNat _ peaks proper'
    rw [← first] at step
    have iceberg' : (maker.fill (min remaining maker.matchableQty)).orderType = .iceberg ∧
        0 < (maker.fill (min remaining maker.matchableQty)).visibleQuantity := iceberg
    rw [slices, slices, if_neg (Nat.ne_of_gt proper'), if_pos iceberg, if_pos iceberg']
    simp only [fill_filled, filled]
    exact step
  · have whole : maker.matchableQty = maker.remaining := by
      rw [matchableQty, if_neg iceberg]
    rw [whole, Nat.sub_self, slices, slices, toNat_min, if_neg (by omega), if_neg iceberg, if_pos rfl]

namespace MatchingEngine

/-! ## The events of a sweep -/

/-- The number of events of a sweep over makers, with the one that reports what becomes of the
taker's remainder, if there is one. -/
def sweepEvents (mode : StpMode) (taker : Taker) : List Order → Nat → Nat
  | [], left => if left = 0 then 0 else 1
  | maker :: rest, left =>
    if left = 0 then 0
    else if maker.remaining = 0 then sweepEvents mode taker rest left
    else if sameGroup taker maker then
      match mode with
      | .cancelNewest => 1
      | .cancelOldest => 2 + sweepEvents mode taker rest left
      | .cancelBoth => 3
      | .decrementAndCancel => 2
    else
      let qty := min left maker.remaining.toNat
      2 * maker.slices qty + sweepEvents mode taker rest (left - qty)

/-- A taker that is filled causes no more events. -/
@[simp] theorem sweepEvents_zero {makers : List Order} : sweepEvents mode taker makers 0 = 0 := by
  cases makers <;> simp [sweepEvents]

/-- The events of a sweep that meets a live maker of another group. -/
theorem sweepEvents_fill {maker : Order} {rest : List Order} {remaining : UInt64}
    (live : maker.remaining ≠ 0) (apart : sameGroup taker maker = false) :
    sweepEvents mode taker (maker :: rest) remaining.toNat =
      2 * maker.slices (min remaining maker.remaining).toNat +
        sweepEvents mode taker rest (remaining.toNat - (min remaining maker.remaining).toNat) := by
  simp only [sweepEvents, toNat_min, if_neg live, apart, Bool.false_eq_true, if_false]
  split
  · rename_i nothing
    simp [nothing, Order.slices]
  · rfl

/-- The events of a turn and of the sweep that goes on are those of the sweep. -/
theorem Turn.events {makers makers' : List Order} {remaining remaining' : UInt64} {events : Nat}
    (sound : ∀ maker ∈ makers, maker.filled ≤ maker.quantity)
    (turn : Turn mode taker makers remaining makers' remaining' events) :
    sweepEvents mode taker makers remaining.toNat =
      events + sweepEvents mode taker makers' remaining'.toNat := by
  have nonzero : ∀ {word : UInt64}, word ≠ 0 → word.toNat ≠ 0 := fun proper zero =>
    proper (UInt64.toNat_inj.mp zero)
  cases turn with
  | stale left spent => simp [sweepEvents, nonzero left, spent]
  | oldest left live group cancels => simp [sweepEvents, nonzero left, live, group, cancels]
  | @part maker rest _ left apart part =>
    have proper := sound maker List.mem_cons_self
    have bound := UInt64.le_of_lt part
    have within : min remaining maker.matchableQty ≤ remaining := Std.min_le_left
    obtain ⟨live, less, still⟩ := fill_part proper part
    have apart' : sameGroup taker (maker.fill (min remaining maker.matchableQty)) = false := apart
    have less' := UInt64.le_iff_toNat_le.mp bound
    have within' := UInt64.le_iff_toNat_le.mp within
    have rest' : (min (remaining - min remaining maker.matchableQty)
        (maker.fill (min remaining maker.matchableQty)).remaining).toNat =
          (min remaining maker.remaining).toNat - (min remaining maker.matchableQty).toNat := by
      rw [toNat_min, less, UInt64.toNat_sub_of_le _ _ within, UInt64.toNat_sub_of_le _ _ bound,
        toNat_min remaining maker.remaining]
      omega
    rw [sweepEvents_fill live apart, sweepEvents_fill still apart', rest',
      Order.slices_step proper left live, UInt64.toNat_sub_of_le _ _ within]
    have whole := toNat_min remaining maker.remaining
    have same : remaining.toNat - (min remaining maker.remaining).toNat =
        remaining.toNat - (min remaining maker.matchableQty).toNat -
          ((min remaining maker.remaining).toNat - (min remaining maker.matchableQty).toNat) := by
      omega
    rw [same]
    omega
  | @whole maker rest _ left live apart whole =>
    have proper := sound maker List.mem_cons_self
    have within : maker.remaining ≤ remaining := whole ▸ Std.min_le_left
    rw [sweepEvents_fill live apart, Order.slices_step proper left live, whole,
      min_of_le within, UInt64.toNat_sub_of_le _ _ within]
    simp [Order.slices]

/-- The events of the last iteration and of the report of the remainder are those of the sweep. -/
theorem Close.events {makers : List Order} {remaining remaining' : UInt64} {cancel : Bool}
    {events : Nat} (close : Close mode taker makers remaining remaining' cancel events) :
    sweepEvents mode taker makers remaining.toNat =
      events + if cancel = false ∧ remaining' = 0 then 0 else 1 := by
  have nonzero : ∀ {word : UInt64}, word ≠ 0 → word.toNat ≠ 0 := fun proper zero =>
    proper (UInt64.toNat_inj.mp zero)
  cases close with
  | exhausted => simp
  | unmatched left => simp [sweepEvents, nonzero left, left]
  | newest left live group stops => simp [sweepEvents, nonzero left, live, group, stops, left]
  | both left live group stops => simp [sweepEvents, nonzero left, live, group, stops]
  | decrement left live group stops => simp [sweepEvents, nonzero left, live, group, stops]

variable {config : InstrumentConfig} {engine engine' site after : MatchingEngine config}
  {queues : Queues} {sweep start : Sweep config} {result : SweepResult config} {order : NewOrder}
  {command : Command}

/-- The events of a sweep so far and those that it still causes are those it causes. -/
theorem visits_events (sound : start.engine.Sound queues)
    (visits : Visits (matchStep taker) start sweep) :
    start.engine.eventBuf.length +
        sweepEvents config.stpMode taker (makersFor taker start.engine) start.remaining.toNat =
      sweep.engine.eventBuf.length +
        sweepEvents config.stpMode taker (makersFor taker sweep.engine) sweep.remaining.toNat := by
  induction visits with
  | refl => rfl
  | tail seen step ih =>
    obtain ⟨queues', sound'⟩ := sound_of_visits sound seen
    obtain ⟨events, turn, buffered⟩ := (matchStep_cases sound' step).turn sound'
    have caused := turn.events (makersFor_sound sound'.rep)
    omega

/-- The events of a sweep. -/
theorem swept_events {qty : UInt64} (sound : engine.Sound queues)
    (swept : engine.matchAgainstBook taker qty = .ok result) :
    result.engine.eventBuf.length +
        (if result.cancelIncoming = false ∧ result.remaining = 0 then 0 else 1) =
      engine.eventBuf.length +
        sweepEvents config.stpMode taker (makersFor taker engine) qty.toNat := by
  obtain ⟨last, visits, exit⟩ := loop_exit swept
  have begins : (⟨engine, qty⟩ : Sweep config).engine.Sound queues := sound
  have spent := visits_events begins visits
  obtain ⟨queues', sound'⟩ := sound_of_visits begins visits
  obtain ⟨events, close, buffered⟩ := (matchStep_cases sound' exit).close sound'
  have caused := close.events
  dsimp only at spent
  omega

/-! ## The events of an order -/

/-- The number of events that handling an order causes. -/
def orderEvents (site : MatchingEngine config) (order : NewOrder) : Nat :=
  match order.orderType with
  | .postOnly =>
    if (site.book.best order.side.opposite).any (isPriceAcceptable order.side order.price) then 1
    else 2
  | .stopLimit => 1
  | _ =>
    match site.refusal order with
    | .ok none => 1 + sweepEvents config.stpMode (takerOf order) (makersFor (takerOf order) site)
        order.qty.toNat
    | _ => 1

/-- An emission adds one event. -/
@[simp] theorem emit_length (body : EventBody) :
    (engine.emit body).eventBuf.length = engine.eventBuf.length + 1 := by
  simp [emit]

/-- Resting an order adds one event. -/
theorem Rested.length_eq {qty : UInt64} (rested : Rested engine queues order qty engine') :
    engine'.eventBuf.length = engine.eventBuf.length + 1 := by
  cases rested with
  | refused => exact emit_length _
  | inserted => exact emit_length _

/-- Settling a remainder adds an event when there is one. -/
theorem Settled.length_eq (settled : Settled result queues order engine') :
    engine'.eventBuf.length = result.engine.eventBuf.length +
      if result.cancelIncoming = false ∧ result.remaining = 0 then 0 else 1 := by
  cases settled with
  | prevented stopped => simp [stopped]
  | filled free nothing => simp [free, nothing]
  | rested free left _ rested => simp [left, rested.length_eq]
  | dropped free left => simp [left]

/-- An order that is matched causes a rejection, or an acceptance and the events of its sweep. -/
theorem orderEvents_matched (matched : order.Matched) :
    orderEvents site order = match site.refusal order with
      | .ok none => 1 + sweepEvents config.stpMode (takerOf order)
          (makersFor (takerOf order) site) order.qty.toNat
      | _ => 1 := by
  obtain ⟨notPostOnly, notStopLimit⟩ := matched
  unfold orderEvents
  split
  · contradiction
  · contradiction
  · rfl

/-- Handling an order causes the events counted. -/
theorem processNewOrder_events (sound : site.Sound queues)
    (returned : site.processNewOrder order = .ok after) :
    after.eventBuf.length = site.eventBuf.length + orderEvents site order := by
  by_cases matched : order.Matched
  · rw [processNewOrder_matched matched] at returned
    rw [orderEvents_matched matched]
    cases checked : site.refusal order with
    | error fault =>
      rw [checked] at returned
      contradiction
    | ok verdict =>
      simp only [checked, bind, Except.bind] at returned
      cases verdict with
      | some reason =>
        obtain rfl := Except.ok.inj returned
        exact emit_length _
      | none =>
        cases swept : (site.accept order).matchAgainstBook (takerOf order) order.qty with
        | error fault =>
          simp only [swept] at returned
          contradiction
        | ok result =>
          simp only [swept] at returned
          obtain ⟨queues', sound'⟩ := matchAgainstBook_sound (sound.accept order) swept
          have settled := (settleRemainder_cases sound' matched returned).length_eq
          have caused := swept_events (sound.accept order) swept
          have accepted : (site.accept order).eventBuf.length = site.eventBuf.length + 1 :=
            emit_length _
          rw [makersFor_congr accept_book accept_arena] at caused
          change after.eventBuf.length = site.eventBuf.length + (1 + sweepEvents config.stpMode
            (takerOf order) (makersFor (takerOf order) site) order.qty.toNat)
          omega
  · unfold processNewOrder at returned
    unfold orderEvents
    cases kind : order.orderType with
    | postOnly =>
      simp only [kind, processPostOnly_eq] at returned ⊢
      split at returned
      · rename_i crosses
        obtain rfl := Except.ok.inj returned
        rw [if_pos crosses]
        exact emit_length _
      · rename_i apart
        obtain ⟨rested, returned', rests⟩ := restOrder_cases (sound.accept order).rep order order.qty
        have same : Except.ok after = Except.ok rested := returned.symm.trans returned'
        obtain rfl := Except.ok.inj same
        rw [rests.length_eq, if_neg apart]
        exact congrArg (· + 1) (emit_length _)
    | stopLimit =>
      simp only [kind] at returned ⊢
      obtain rfl := Except.ok.inj returned
      unfold processStopLimit
      split
      · exact emit_length _
      split
      · exact emit_length _
      dsimp only
      split
      · exact emit_length _
      · exact emit_length _
    | limit | market | iceberg => exact absurd (by simp [NewOrder.Matched, kind]) matched

/-! ## The events of a call -/

/-- Each order that a call submits fits the buffer with the events before it and those it
causes. -/
def OrdersFit (engine : MatchingEngine config) (command : Command) : Prop :=
  ∀ site order, Submits engine command site order →
    site.eventBuf.length + orderEvents site order ≤ maxEventsPerCall

/-- The parts of a call whose orders fit its buffer stay within it. -/
theorem OrdersFit.carries (fits : OrdersFit engine command) :
    Carries engine command
      (fun state => (∃ queues, state.Sound queues) ∧ state.eventBuf.length ≤ maxEventsPerCall)
      fun site order => (∃ queues, site.Sound queues) ∧
        site.eventBuf.length + orderEvents site order ≤ maxEventsPerCall where
  cancels id after asked := by
    rintro ⟨⟨queues, sound⟩, -⟩ returned
    refine ⟨(sound_kept engine command).cancels id after asked ⟨queues, sound⟩ returned, ?_⟩
    cases processCancel_cases sound returned with
    | missing => simp [emitRejected, clearEvents, maxEventsPerCall]
    | removed => simp [emitLevel, withBook, clearEvents, maxEventsPerCall]
  misses id newPrice newQty _ := by
    rintro ⟨⟨queues, sound⟩, -⟩
    exact ⟨⟨queues, sound.congr rfl rfl⟩, by simp [emitRejected, clearEvents, maxEventsPerCall]⟩
  direct instrumentId order asked := fun held => ⟨held.1, fits _ _ (.direct asked)⟩
  withdraws id newPrice newQty index site order asked := by
    rintro ⟨held, -⟩ found withdrawn
    exact ⟨(sound_kept engine command).withdraws id newPrice newQty index site order asked held
      found withdrawn, fits _ _ (.replaced asked found withdrawn)⟩
  fires start before site order dispatched fired := by
    rintro ⟨⟨queues, sound⟩, -⟩
    exact ⟨⟨queues, sound.congr fired.kept.1 fired.kept.2⟩,
      fits _ _ (.triggered dispatched fired)⟩
  handles site order after submits := by
    rintro ⟨⟨queues, sound⟩, room⟩ returned
    refine ⟨(processNewOrder_cases sound returned).sound sound, ?_⟩
    rw [processNewOrder_events sound returned]
    exact room

/-- What a call emits, at any point of it, fits the buffer: at the end of the call, and at every
state of a sweep. -/
structure FitsBuffer (engine : MatchingEngine config) (command : Command) : Prop where
  /-- At the end. -/
  ends : ∀ after, engine.processUnbounded command = .ok after →
    after.eventBuf.length ≤ maxEventsPerCall
  /-- At every state of a sweep. -/
  sweeps : ∀ site order sweep, Sweeps engine command site order sweep →
    sweep.engine.eventBuf.length ≤ maxEventsPerCall

/-- A call of which each order fits the buffer never writes past its end, and of the calls that
would end with an unbounded buffer no other one stays within it. -/
theorem events_fit_iff (config : InstrumentConfig) (engine : MatchingEngine config)
    (command : Command) (reachable : Reachable engine) :
    (OrdersFit engine command → FitsBuffer engine command) ∧
      ∀ after, engine.processUnbounded command = .ok after →
        (FitsBuffer engine command ↔ OrdersFit engine command) := by
  obtain ⟨queues, sound⟩ := Reaches.sound reachable
  have initial : (∃ queues, engine.clearEvents.Sound queues) ∧
      engine.clearEvents.eventBuf.length ≤ maxEventsPerCall :=
    ⟨⟨queues, sound.congr rfl rfl⟩, by simp [clearEvents]⟩
  have enough : OrdersFit engine command → FitsBuffer engine command := fun fits => by
    refine ⟨fun after ended => (fits.carries.ends initial ended).2,
      fun site order sweep sweeps => ?_⟩
    obtain ⟨⟨queues', sound'⟩, room⟩ := fits.carries.submits initial sweeps.submits
    have caused := visits_events (sound'.accept order) sweeps.visits
    have accepted : (site.accept order).eventBuf.length = site.eventBuf.length + 1 := emit_length _
    rw [makersFor_congr accept_book accept_arena] at caused
    rw [orderEvents_matched sweeps.matched, sweeps.checked] at room
    have total : site.eventBuf.length + (1 + sweepEvents config.stpMode (takerOf order)
        (makersFor (takerOf order) site) order.qty.toNat) ≤ maxEventsPerCall := room
    dsimp only at caused
    omega
  refine ⟨enough, fun after ended => ⟨fun fits site order submits => ?_, enough⟩⟩
  obtain ⟨queues', sound'⟩ := submits.sound sound
  obtain ⟨handled, returned, reports⟩ := submits.handled sound ended
  have counted := processNewOrder_events sound' returned
  have longer : handled.eventBuf.length ≤ after.eventBuf.length := by
    simpa [bodies] using List.IsPrefix.length_le reports
  have total := fits.ends after ended
  omega

/-- A bid that fills thirty-one asks stays within the buffer. -/
theorem events_fit_of_many_asks :
    ∃ engine : MatchingEngine (smallConfig .cancelNewest),
      FitsBuffer engine (.submit (.gtc 40 .bid 2 32)) ∧
        engine.clearEvents.orderEvents (.gtc 40 .bid 2 32) = 64 := by
  obtain ⟨engine, reachable, shown⟩ := Reachable.exists_run
    (fun engine : MatchingEngine (smallConfig .cancelNewest) =>
      engine.lone (.submit (.gtc 40 .bid 2 32)) &&
        engine.clearEvents.orderEvents (.gtc 40 .bid 2 32) == 64) 64
    ((List.range 31).map fun k => .submit (.gtc (UInt64.ofNat k) .ask 2 1)) (by decide +kernel)
  rw [Bool.and_eq_true, beq_iff_eq] at shown
  obtain ⟨alone, caused⟩ := shown
  refine ⟨engine, (events_fit_iff _ engine _ reachable).1 fun site order submits => ?_, caused⟩
  obtain ⟨rfl, instrumentId, asked⟩ := submits.of_lone alone
  obtain ⟨-, rfl⟩ := Command.newOrder.inj asked
  rw [caused]
  exact Nat.le_refl 64

/-- Thirty-two asks of one unit and a bid for all of them make sixty-five events. -/
theorem event_buffer_overflows :
    ¬∀ (engine : MatchingEngine (smallConfig .cancelNewest)) (command : Command),
      Reachable engine → FitsBuffer engine command := by
  intro always
  obtain ⟨engine, reachable, shown⟩ := Reachable.exists_run
    (fun engine : MatchingEngine (smallConfig .cancelNewest) =>
      (engine.processUnbounded (.submit (.gtc 40 .bid 2 32))).toOption.any fun after =>
        after.eventBuf.length == 65) 64
    ((List.range 32).map fun k => .submit (.gtc (UInt64.ofNat k) .ask 2 1)) (by decide +kernel)
  obtain ⟨after, ended, long⟩ := (Option.any_eq_true _ _).mp shown
  have fits := (always engine _ reachable).ends after (ok_of_toOption ended)
  rw [eq_of_beq long] at fits
  contradiction

end MatchingEngine

end MatchX
