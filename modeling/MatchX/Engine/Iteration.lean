import MatchX.Book.BestPrice
import MatchX.Engine.Matching

/-!
# One iteration of the matching loop

`Sound` is what the engine relies on between any two of its steps: the book represents some
queues and its best prices are those of levels with orders. Under it, an iteration of the
matching loop does one of ten things, each with all it changes: `Iteration` lists them and
`matchStep_cases` shows that there are no others.
-/

namespace MatchX

open MatchX.Support

/-- The smaller of two words as a number. -/
theorem toNat_min (first second : UInt64) : (min first second).toNat = min first.toNat second.toNat := by
  rw [Std.min_eq_if]
  split
  · rename_i ordered
    rw [Nat.min_eq_left (UInt64.le_iff_toNat_le.mp ordered)]
  · rename_i ordered
    rw [Nat.min_eq_right]
    exact Nat.le_of_lt (UInt64.lt_iff_toNat_lt.mp (UInt64.not_le.mp ordered))

namespace MatchingEngine

variable {config : InstrumentConfig}

/-- The engine with another book and arena. -/
def withBook (engine : MatchingEngine config) (book : OrderBook config.maxTicks)
    (arena : Arena) : MatchingEngine config :=
  { engine with book, arena }

/-- The engine after a trade at a price. -/
def traded (engine : MatchingEngine config) (price : UInt64) : MatchingEngine config :=
  { engine with lastTradePrice := some price }

/-- What the events of the current call report. -/
def bodies (engine : MatchingEngine config) : List EventBody :=
  engine.eventBuf.map MatchEvent.body

section Fields

variable (engine : MatchingEngine config) (body : EventBody) (side : Side) (price : UInt64)
  (book : OrderBook config.maxTicks) (arena : Arena)

@[simp] theorem emit_book : (engine.emit body).book = engine.book := rfl
@[simp] theorem emit_arena : (engine.emit body).arena = engine.arena := rfl
@[simp] theorem emit_stopBids : (engine.emit body).stopBids = engine.stopBids := rfl
@[simp] theorem emit_stopAsks : (engine.emit body).stopAsks = engine.stopAsks := rfl
@[simp] theorem emit_lastTradePrice :
    (engine.emit body).lastTradePrice = engine.lastTradePrice := rfl
@[simp] theorem emit_bodies : (engine.emit body).bodies = engine.bodies ++ [body] := by
  simp [emit, bodies]
@[simp] theorem emitLevel_book : (engine.emitLevel side price).book = engine.book := rfl
@[simp] theorem emitLevel_arena : (engine.emitLevel side price).arena = engine.arena := rfl
@[simp] theorem emitLevel_stopBids : (engine.emitLevel side price).stopBids = engine.stopBids := rfl
@[simp] theorem emitLevel_stopAsks : (engine.emitLevel side price).stopAsks = engine.stopAsks := rfl
@[simp] theorem emitLevel_lastTradePrice :
    (engine.emitLevel side price).lastTradePrice = engine.lastTradePrice := rfl
@[simp] theorem emitLevel_bodies : (engine.emitLevel side price).bodies =
    engine.bodies ++ [.bookUpdate side price (engine.book.getLevelQty side price)] := by
  simp [emitLevel]
@[simp] theorem emitRejected_book (id : OrderId) (reason : RejectReason) :
    (engine.emitRejected id reason).book = engine.book := rfl
@[simp] theorem emitRejected_arena (id : OrderId) (reason : RejectReason) :
    (engine.emitRejected id reason).arena = engine.arena := rfl
@[simp] theorem emitRejected_bodies (id : OrderId) (reason : RejectReason) :
    (engine.emitRejected id reason).bodies = engine.bodies ++ [.orderRejected id reason] := by
  simp [emitRejected]
@[simp] theorem withBook_book : (engine.withBook book arena).book = book := rfl
@[simp] theorem withBook_arena : (engine.withBook book arena).arena = arena := rfl
@[simp] theorem withBook_stopBids : (engine.withBook book arena).stopBids = engine.stopBids := rfl
@[simp] theorem withBook_stopAsks : (engine.withBook book arena).stopAsks = engine.stopAsks := rfl
@[simp] theorem withBook_lastTradePrice :
    (engine.withBook book arena).lastTradePrice = engine.lastTradePrice := rfl
@[simp] theorem withBook_bodies : (engine.withBook book arena).bodies = engine.bodies := rfl
@[simp] theorem traded_book : (engine.traded price).book = engine.book := rfl
@[simp] theorem traded_arena : (engine.traded price).arena = engine.arena := rfl
@[simp] theorem traded_stopBids : (engine.traded price).stopBids = engine.stopBids := rfl
@[simp] theorem traded_stopAsks : (engine.traded price).stopAsks = engine.stopAsks := rfl
@[simp] theorem traded_bodies : (engine.traded price).bodies = engine.bodies := rfl
@[simp] theorem clearEvents_book : engine.clearEvents.book = engine.book := rfl
@[simp] theorem clearEvents_arena : engine.clearEvents.arena = engine.arena := rfl
@[simp] theorem clearEvents_stopBids : engine.clearEvents.stopBids = engine.stopBids := rfl
@[simp] theorem clearEvents_stopAsks : engine.clearEvents.stopAsks = engine.stopAsks := rfl
@[simp] theorem clearEvents_bodies : engine.clearEvents.bodies = [] := rfl

end Fields

/-- The book represents queues, and its best prices are those of levels with orders. -/
structure Sound (engine : MatchingEngine config) (queues : Queues) : Prop where
  /-- The book agrees with the queues. -/
  rep : Represents engine.book engine.arena queues
  /-- The best prices are those of levels with orders. -/
  tracks : Tracks engine.book queues

/-- Soundness is about the book and the arena. -/
theorem Sound.congr {engine engine' : MatchingEngine config} {queues : Queues}
    (sound : engine.Sound queues) (book : engine'.book = engine.book)
    (arena : engine'.arena = engine.arena) : engine'.Sound queues :=
  ⟨by rw [book, arena]; exact sound.rep, by rw [book]; exact sound.tracks⟩

/-- The best opposing price is the best price of the opposite side. -/
theorem bestOpposing_eq (engine : MatchingEngine config) (side : Side) :
    engine.bestOpposing side = engine.book.best side.opposite := by
  cases side <;> rfl

/-- The opposing level at a price with orders is found. -/
theorem opposingLevel_ok {engine : MatchingEngine config} {queues : Queues} {side : Side}
    {price : UInt64} (rep : Represents engine.book engine.arena queues)
    (present : queues side.opposite price ≠ []) :
    engine.opposingLevel side price = .ok (engine.book.level side.opposite price) := by
  cases side <;> exact rep.requireLevel_ok present

/-- The maker that the next iteration meets: the first order of the level at the best opposing
price, which is acceptable. -/
structure Front (taker : Taker) (engine : MatchingEngine config) (queues : Queues)
    (price : UInt64) (index : ArenaIndex) (maker : Order) : Prop where
  /-- The price is the best opposing one. -/
  best : engine.book.best taker.side.opposite = some price
  /-- The taker accepts the price. -/
  acceptable : isPriceAcceptable taker.side taker.price price = true
  /-- The slot is the first of the level's queue. -/
  first : (queues taker.side.opposite price).head? = some index
  /-- The maker is in the slot. -/
  found : engine.arena.find index = some maker
  /-- It rests opposite to the taker. -/
  onSide : maker.side = taker.side.opposite
  /-- It rests at the price. -/
  atPrice : maker.price = price

/-- What an iteration of the matching loop does, and what it leaves. -/
inductive Iteration (taker : Taker) (queues : Queues) (sweep : Sweep config) :
    Flow (Sweep config) (SweepResult config) → Prop
  /-- The taker is filled. -/
  | exhausted (nothing : sweep.remaining = 0) :
    Iteration taker queues sweep (.done ⟨sweep.engine, sweep.remaining, false⟩)
  /-- No opposing price is acceptable. -/
  | unmatched (left : sweep.remaining ≠ 0)
      (refused : ∀ price, sweep.engine.book.best taker.side.opposite = some price →
        isPriceAcceptable taker.side taker.price price = false) :
    Iteration taker queues sweep (.done ⟨sweep.engine, sweep.remaining, false⟩)
  /-- A maker with nothing remaining is removed. -/
  | stale {price index maker book arena} (left : sweep.remaining ≠ 0)
      (front : Front taker sweep.engine queues price index maker)
      (spent : maker.remaining = 0)
      (removed : Removed sweep.engine.book sweep.engine.arena queues maker.unlinked index book
        arena) :
    Iteration taker queues sweep (.next ⟨sweep.engine.withBook book arena, sweep.remaining⟩)
  /-- A maker of the taker's group stops the taker. -/
  | newest {price index maker} (left : sweep.remaining ≠ 0)
      (front : Front taker sweep.engine queues price index maker)
      (live : maker.remaining ≠ 0) (group : sameGroup taker maker = true)
      (mode : config.stpMode = .cancelNewest) :
    Iteration taker queues sweep (.done ⟨sweep.engine, sweep.remaining, false⟩)
  /-- A maker of the taker's group is cancelled. -/
  | oldest {price index maker book arena} (left : sweep.remaining ≠ 0)
      (front : Front taker sweep.engine queues price index maker)
      (live : maker.remaining ≠ 0) (group : sameGroup taker maker = true)
      (mode : config.stpMode = .cancelOldest)
      (removed : Removed sweep.engine.book sweep.engine.arena queues maker.unlinked index book
        arena) :
    Iteration taker queues sweep (.next
      ⟨((sweep.engine.withBook book arena).emit
        (.orderCancelled maker.id maker.remaining)).emitLevel maker.side price, sweep.remaining⟩)
  /-- A maker of the taker's group is cancelled with the taker. -/
  | both {price index maker book arena} (left : sweep.remaining ≠ 0)
      (front : Front taker sweep.engine queues price index maker)
      (live : maker.remaining ≠ 0) (group : sameGroup taker maker = true)
      (mode : config.stpMode = .cancelBoth)
      (removed : Removed sweep.engine.book sweep.engine.arena queues maker.unlinked index book
        arena) :
    Iteration taker queues sweep (.done
      ⟨((sweep.engine.withBook book arena).emit
        (.orderCancelled maker.id maker.remaining)).emitLevel maker.side price, sweep.remaining,
        true⟩)
  /-- A maker of the taker's group, no larger than the taker, is removed. -/
  | decrementAll {price index maker book arena} (left : sweep.remaining ≠ 0)
      (front : Front taker sweep.engine queues price index maker)
      (live : maker.remaining ≠ 0) (group : sameGroup taker maker = true)
      (mode : config.stpMode = .decrementAndCancel) (whole : maker.remaining ≤ sweep.remaining)
      (removed : Removed sweep.engine.book sweep.engine.arena queues maker.unlinked index book
        arena) :
    Iteration taker queues sweep (.done
      ⟨(sweep.engine.withBook book arena).emitLevel maker.side price,
        sweep.remaining - maker.remaining, true⟩)
  /-- A maker of the taker's group, larger than the taker, is reduced. -/
  | decrementPart {price index maker book arena} (left : sweep.remaining ≠ 0)
      (front : Front taker sweep.engine queues price index maker)
      (group : sameGroup taker maker = true)
      (mode : config.stpMode = .decrementAndCancel) (part : sweep.remaining < maker.remaining)
      (taken : Taken sweep.engine.book sweep.engine.arena queues maker.unlinked index
        sweep.remaining book arena)
      (depth : ∃ lowered, sweep.engine.book.depthRemove maker.side price sweep.remaining =
        .ok lowered ∧ ∀ side, book.depth side = lowered.depth side) :
    Iteration taker queues sweep (.done
      ⟨(sweep.engine.withBook book arena).emitLevel maker.side price,
        sweep.remaining - sweep.remaining, true⟩)
  /-- A maker is filled in part. -/
  | fillPart {price index maker book arena} (left : sweep.remaining ≠ 0)
      (front : Front taker sweep.engine queues price index maker)
      (apart : sameGroup taker maker = false)
      (part : min sweep.remaining maker.matchableQty < maker.remaining)
      (taken : Taken sweep.engine.book sweep.engine.arena queues maker.unlinked index
        (min sweep.remaining maker.matchableQty) book arena)
      (depth : ∀ side, book.depth side = sweep.engine.book.depth side) :
    Iteration taker queues sweep (.next
      ⟨(((sweep.engine.withBook book arena).emit
        (.fill maker.id taker.id price (min sweep.remaining maker.matchableQty)
          (maker.remaining - min sweep.remaining maker.matchableQty)
          (sweep.remaining - min sweep.remaining maker.matchableQty))).traded price).emitLevel
            maker.side price,
        sweep.remaining - min sweep.remaining maker.matchableQty⟩)
  /-- A maker is filled and removed. -/
  | fillAll {price index maker book arena book' arena'} (left : sweep.remaining ≠ 0)
      (front : Front taker sweep.engine queues price index maker)
      (live : maker.remaining ≠ 0) (apart : sameGroup taker maker = false)
      (whole : min sweep.remaining maker.matchableQty = maker.remaining)
      (taken : Taken sweep.engine.book sweep.engine.arena queues maker.unlinked index
        maker.remaining book arena)
      (depth : ∀ side, book.depth side = sweep.engine.book.depth side)
      (removed : Removed book arena queues (maker.fill maker.remaining).unlinked index book'
        arena') :
    Iteration taker queues sweep (.next
      ⟨((((sweep.engine.withBook book arena).emit
        (.fill maker.id taker.id price maker.remaining 0
          (sweep.remaining - maker.remaining))).traded price).emitLevel
            maker.side price).withBook book' arena',
        sweep.remaining - maker.remaining⟩)

/-- Removing a maker removes it from the book and changes nothing else of the engine. -/
theorem removeMaker_ok {engine engine' : MatchingEngine config} {queues : Queues}
    {index : ArenaIndex} {maker : Order} (rep : Represents engine.book engine.arena queues)
    (found : engine.arena.find index = some maker)
    (returned : engine.removeMaker index = .ok engine') :
    ∃ book arena, engine' = engine.withBook book arena ∧
      Removed engine.book engine.arena queues maker.unlinked index book arena := by
  unfold removeMaker at returned
  cases removal : engine.book.removeOrder engine.arena index with
  | error fault =>
    rw [removal] at returned
    contradiction
  | ok result =>
    obtain ⟨place, book, arena⟩ := result
    rw [removal] at returned
    obtain rfl := Except.ok.inj returned
    exact ⟨book, arena, rfl, (removeOrder_spec rep found removal).2⟩

section Cases

variable {taker : Taker} {queues : Queues} {sweep : Sweep config} {price : UInt64}
  {index : ArenaIndex} {maker : Order}

/-- The maker that an iteration meets is not overfilled. -/
theorem Front.sound {engine : MatchingEngine config}
    (front : Front taker engine queues price index maker)
    (rep : Represents engine.book engine.arena queues) : maker.filled ≤ maker.quantity :=
  rep.find_sound front.found

/-- Its slot is the head of its level. -/
theorem Front.head {engine : MatchingEngine config}
    (front : Front taker engine queues price index maker)
    (rep : Represents engine.book engine.arena queues) :
    (engine.book.level taker.side.opposite price).head = some index := by
  rw [rep.levels, levelOf]
  exact front.first

/-- Its level is found. -/
theorem Front.level_ok {engine : MatchingEngine config}
    (front : Front taker engine queues price index maker)
    (rep : Represents engine.book engine.arena queues) :
    engine.opposingLevel taker.side price = .ok (engine.book.level taker.side.opposite price) :=
  opposingLevel_ok rep fun none => by simpa [none] using front.first

/-- A level at an acceptable best opposing price has a maker in front. -/
theorem exists_front {engine : MatchingEngine config} (sound : engine.Sound queues)
    (best : engine.book.best taker.side.opposite = some price)
    (acceptable : isPriceAcceptable taker.side taker.price price = true) :
    ∃ index maker, Front taker engine queues price index maker := by
  obtain ⟨index, rest, queue⟩ := List.exists_cons_of_ne_nil (sound.tracks.held _ _ best)
  obtain ⟨resting, rests, onSide, atPrice⟩ := sound.rep.stored (queue ▸ List.mem_cons_self)
  obtain ⟨maker, found, rfl⟩ := Arena.find_of_resting rests
  exact ⟨index, maker, best, acceptable, by rw [queue]; rfl, found, onSide, atPrice⟩

/-- A word above another one is not zero. -/
theorem word_ne_zero_of_lt {large small : UInt64} (ordered : small < large) : large ≠ 0 :=
  fun zero => UInt64.not_lt_zero (zero ▸ ordered)

/-- A difference of a word and one no larger is zero exactly when the two are equal. -/
theorem sub_eq_zero_of_le {large small : UInt64} (ordered : small ≤ large) :
    large - small = 0 ↔ small = large := by
  rw [← UInt64.toNat_inj, ← UInt64.toNat_inj, UInt64.toNat_sub_of_le _ _ ordered]
  have := UInt64.le_iff_toNat_le.mp ordered
  simp only [UInt64.toNat_zero]
  omega

/-- A maker that is filled in part is live before and after. -/
theorem fill_part {qty : UInt64} (proper : maker.filled ≤ maker.quantity)
    (part : qty < maker.remaining) :
    maker.remaining ≠ 0 ∧ (maker.fill qty).remaining = maker.remaining - qty ∧
      (maker.fill qty).remaining ≠ 0 := by
  have bound := UInt64.le_of_lt part
  have less := (Order.fill_sound proper bound).2
  refine ⟨word_ne_zero_of_lt part, less, ?_⟩
  rw [less]
  exact fun spent => UInt64.ne_of_lt part ((sub_eq_zero_of_le bound).mp spent)

/-- The smaller of two words when the second one is no larger. -/
theorem min_of_le {large small : UInt64} (ordered : small ≤ large) : min large small = small := by
  rw [Std.min_eq_if]
  split
  · rename_i ordered'
    exact UInt64.le_antisymm ordered' ordered
  · rfl

/-- The fill of an iteration. -/
theorem fillMaker_cases {sweep' : Sweep config} (sound : sweep.engine.Sound queues)
    (left : sweep.remaining ≠ 0) (front : Front taker sweep.engine queues price index maker)
    (live : maker.remaining ≠ 0) (apart : sameGroup taker maker = false)
    (returned : fillMaker taker sweep price index maker = .ok sweep') :
    Iteration taker queues sweep (.next sweep') := by
  have bound : min sweep.remaining maker.matchableQty ≤ maker.remaining :=
    UInt64.le_trans Std.min_le_right Order.matchableQty_le
  obtain ⟨arena, write, seen, head, keeps⟩ := Arena.modify_ok (fun order => { order with
    filled := order.filled + min sweep.remaining maker.matchableQty }) front.found
  have get : arena.get index = .ok (maker.fill (min sweep.remaining maker.matchableQty)) :=
    Arena.get_ok.mpr (by rw [seen, if_pos rfl]; rfl)
  have taken := sound.rep.take front.found bound (keeps sound.rep.slots) seen head
  rw [front.onSide, front.atPrice] at taken
  have less : (maker.fill (min sweep.remaining maker.matchableQty)).remaining =
      maker.remaining - min sweep.remaining maker.matchableQty :=
    (Order.fill_sound (front.sound sound.rep) bound).2
  unfold fillMaker at returned
  simp only [write, get, bind, Except.bind, pure, Except.pure, less,
    sub_eq_zero_of_le bound] at returned
  split at returned
  · rename_i whole
    simp only [whole] at returned
    rw [whole] at taken
    have still : arena.find index = some (maker.fill maker.remaining) := by
      rw [seen, if_pos rfl, whole]
      rfl
    split at returned
    · contradiction
    · rename_i engine removal
      obtain rfl := Except.ok.inj returned
      obtain ⟨book', arena', rfl, removed⟩ := removeMaker_ok taken.represents still removal
      rw [(sub_eq_zero_of_le (UInt64.le_refl maker.remaining)).mpr rfl]
      exact .fillAll left front live apart whole taken (fun _ => OrderBook.depth_setLevel) removed
  · rename_i part
    obtain rfl := Except.ok.inj returned
    exact .fillPart left front apart (UInt64.lt_of_le_of_ne bound part) taken
      fun _ => OrderBook.depth_setLevel

/-- The self-trade prevention of an iteration. -/
theorem preventSelfTrade_cases {flow : Flow (Sweep config) (SweepResult config)}
    (sound : sweep.engine.Sound queues)
    (left : sweep.remaining ≠ 0) (front : Front taker sweep.engine queues price index maker)
    (live : maker.remaining ≠ 0) (group : sameGroup taker maker = true)
    (returned : preventSelfTrade sweep price index maker = .ok flow) :
    Iteration taker queues sweep flow := by
  unfold preventSelfTrade at returned
  cases mode : config.stpMode with
  | cancelNewest =>
    rw [mode] at returned
    obtain rfl := Except.ok.inj returned
    exact .newest left front live group mode
  | cancelOldest =>
    simp only [mode, bind, Except.bind, pure, Except.pure] at returned
    split at returned
    · contradiction
    · rename_i engine removal
      obtain rfl := Except.ok.inj returned
      obtain ⟨book, arena, rfl, removed⟩ := removeMaker_ok sound.rep front.found removal
      exact .oldest left front live group mode removed
  | cancelBoth =>
    simp only [mode, bind, Except.bind, pure, Except.pure] at returned
    split at returned
    · contradiction
    · rename_i engine removal
      obtain rfl := Except.ok.inj returned
      obtain ⟨book, arena, rfl, removed⟩ := removeMaker_ok sound.rep front.found removal
      exact .both left front live group mode removed
  | decrementAndCancel =>
    simp only [mode, bind, Except.bind, pure, Except.pure] at returned
    split at returned
    · rename_i whole
      have overlap : maker.remaining ≤ sweep.remaining := whole ▸ Std.min_le_left
      split at returned
      · contradiction
      · rename_i engine removal
        obtain rfl := Except.ok.inj returned
        obtain ⟨book, arena, rfl, removed⟩ := removeMaker_ok sound.rep front.found removal
        rw [← whole]
        exact .decrementAll left front live group mode overlap removed
    · rename_i part
      have overlap : sweep.remaining < maker.remaining := by
        rw [Std.min_eq_if] at part
        split at part
        · rename_i ordered
          exact UInt64.lt_of_le_of_ne ordered (Ne.symm part)
        · exact absurd rfl part
      have least : min sweep.remaining maker.remaining = sweep.remaining := by
        rw [Std.min_eq_if, if_pos (UInt64.le_of_lt overlap)]
      rw [least] at returned
      split at returned
      · contradiction
      · rename_i result reduction
        obtain rfl := Except.ok.inj returned
        obtain ⟨book, arena⟩ := result
        obtain ⟨taken, depth⟩ := reduceOrderQty_spec sound.rep front.found
          (UInt64.le_of_lt overlap) reduction
        rw [front.atPrice] at depth
        exact .decrementPart left front group mode overlap taken depth

/-- An iteration of the matching loop does one of the things listed. -/
theorem matchStep_cases {flow : Flow (Sweep config) (SweepResult config)}
    (sound : sweep.engine.Sound queues) (returned : matchStep taker sweep = .ok flow) :
    Iteration taker queues sweep flow := by
  unfold matchStep at returned
  by_cases nothing : sweep.remaining = 0
  · rw [if_pos nothing] at returned
    obtain rfl := Except.ok.inj returned
    exact .exhausted nothing
  simp only [if_neg nothing, bestOpposing_eq, bind, Except.bind, pure, Except.pure] at returned
  cases best : sweep.engine.book.best taker.side.opposite with
  | none =>
    simp only [best] at returned
    obtain rfl := Except.ok.inj returned
    exact .unmatched nothing fun price same => by simp [best] at same
  | some price =>
    simp only [best] at returned
    by_cases acceptable : isPriceAcceptable taker.side taker.price price = true
    · simp only [acceptable, Bool.not_true, Bool.false_eq_true, if_false] at returned
      obtain ⟨index, maker, front⟩ := exists_front sound best acceptable
      have get : sweep.engine.arena.get index = .ok maker := Arena.get_ok.mpr front.found
      simp only [front.level_ok sound.rep, front.head sound.rep, get] at returned
      by_cases spent : maker.remaining = 0
      · rw [if_pos spent] at returned
        split at returned
        · contradiction
        · rename_i engine removal
          obtain rfl := Except.ok.inj returned
          obtain ⟨book, arena, rfl, removed⟩ := removeMaker_ok sound.rep front.found removal
          exact .stale nothing front spent removed
      · rw [if_neg spent] at returned
        cases group : sameGroup taker maker with
        | true =>
          simp only [group, if_true] at returned
          exact preventSelfTrade_cases sound nothing front spent group returned
        | false =>
          simp only [group, Bool.false_eq_true, if_false] at returned
          split at returned
          · contradiction
          · rename_i filled fill
            obtain rfl := Except.ok.inj returned
            exact fillMaker_cases sound nothing front spent group fill
    · simp only [acceptable, Bool.not_false, if_true] at returned
      obtain rfl := Except.ok.inj returned
      refine .unmatched nothing fun other same => ?_
      rw [best] at same
      obtain rfl := Option.some.inj same
      exact Bool.not_eq_true _ ▸ acceptable

end Cases

/-- The engine at the end of an iteration. -/
def flowEngine : Flow (Sweep config) (SweepResult config) → MatchingEngine config
  | .next following => following.engine
  | .done result => result.engine

/-- An iteration keeps the engine sound. -/
theorem Iteration.sound {taker : Taker} {queues : Queues} {sweep : Sweep config}
    {flow : Flow (Sweep config) (SweepResult config)} (sound : sweep.engine.Sound queues)
    (iteration : Iteration taker queues sweep flow) :
    ∃ queues', (flowEngine flow).Sound queues' := by
  cases iteration with
  | exhausted | unmatched | newest => exact ⟨queues, sound⟩
  | stale _ _ _ removed => exact ⟨_, removed.represents, removed.tracks sound.tracks⟩
  | oldest _ _ _ _ _ removed => exact ⟨_, removed.represents, removed.tracks sound.tracks⟩
  | both _ _ _ _ _ removed => exact ⟨_, removed.represents, removed.tracks sound.tracks⟩
  | decrementAll _ _ _ _ _ _ removed =>
    exact ⟨_, removed.represents, removed.tracks sound.tracks⟩
  | decrementPart _ _ _ _ _ taken => exact ⟨_, taken.represents, taken.tracks sound.tracks⟩
  | fillPart _ _ _ _ taken => exact ⟨_, taken.represents, taken.tracks sound.tracks⟩
  | fillAll _ _ _ _ _ taken _ removed =>
    exact ⟨_, removed.represents, removed.tracks (taken.tracks sound.tracks)⟩

/-- Every iteration of a sweep starts from a sound engine. -/
theorem sound_of_visits {taker : Taker} {start sweep : Sweep config} {queues : Queues}
    (sound : start.engine.Sound queues) (visits : Visits (matchStep taker) start sweep) :
    ∃ queues', sweep.engine.Sound queues' := by
  induction visits with
  | refl => exact ⟨queues, sound⟩
  | tail _ step ih =>
    obtain ⟨queues', sound'⟩ := ih
    exact (matchStep_cases sound' step).sound sound'

end MatchingEngine

end MatchX
