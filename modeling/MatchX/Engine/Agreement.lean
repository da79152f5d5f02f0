import MatchX.Engine.FillOrKill
import MatchX.Engine.Recorded
import MatchX.Engine.Room
import MatchX.Engine.Sweeps

/-!
# The engine follows the reference engine

`Follows` relates an engine to the reference engine: the lines list its queues, its best prices
are exact, and everything else is the same. Each part of a call that the engine completes is
then matched by the reference engine, as long as the caches of the engine tell the truth where
the call asks them: no removal hides a better price, and the depth indices answer the
fill-or-kill checks as the resting orders do.
-/

namespace MatchX

open MatchX.Support

namespace MatchingEngine

variable {config : InstrumentConfig} {engine engine' : MatchingEngine config} {queues : Queues}
  {reference : ReferenceEngine} {taker : Taker} {sweep : Sweep config} {price qty : UInt64}
  {index : ArenaIndex} {maker : Order} {order : NewOrder} {command : Command}

/-- The engine and the reference engine have the same orders in the same places, and the rest of
their states is the same; the capacity is left to `Follows`. -/
structure Agrees (engine : MatchingEngine config) (queues : Queues)
    (reference : ReferenceEngine) : Prop where
  /-- The book represents the queues. -/
  sound : engine.Sound queues
  /-- The lines list the queues. -/
  listed : Recorded engine.arena queues reference.book
  /-- The best prices are exact. -/
  exact : BestExact engine.book engine.arena
  /-- The sequence numbers agree. -/
  sequence : engine.sequence = reference.sequence
  /-- The clocks agree. -/
  timestampNs : engine.timestampNs = reference.timestampNs
  /-- The events agree. -/
  eventBuf : engine.eventBuf = reference.eventBuf
  /-- The buy stops agree. -/
  stopBids : engine.stopBids = reference.stopBids
  /-- The sell stops agree. -/
  stopAsks : engine.stopAsks = reference.stopAsks
  /-- The last trade prices agree. -/
  lastTradePrice : engine.lastTradePrice = reference.lastTradePrice

/-- The engine is where the reference engine is. -/
def Follows (engine : MatchingEngine config) (reference : ReferenceEngine) : Prop :=
  (∃ queues, Agrees engine queues reference) ∧ engine.arena.capacity.toNat = reference.capacity

namespace Agrees

/-! ## Reports and changes -/

/-- Both report the same event. -/
theorem emit (agrees : Agrees engine queues reference) (body : EventBody) :
    Agrees (engine.emit body) queues (reference.emit body) where
  sound := agrees.sound.congr rfl rfl
  listed := agrees.listed
  exact := agrees.exact
  sequence := congrArg (· + 1) agrees.sequence
  timestampNs := congrArg (· + 1) agrees.timestampNs
  eventBuf := by
    simp only [MatchingEngine.emit, ReferenceEngine.emit, agrees.sequence, agrees.timestampNs,
      agrees.eventBuf]
  stopBids := agrees.stopBids
  stopAsks := agrees.stopAsks
  lastTradePrice := agrees.lastTradePrice

/-- Both report the same total of a level. -/
theorem emitLevel (agrees : Agrees engine queues reference) (side : Side) (price : UInt64) :
    Agrees (engine.emitLevel side price) queues (reference.emitLevel side price) := by
  rw [MatchingEngine.emitLevel, ReferenceEngine.emitLevel,
    agrees.listed.total_eq agrees.sound.rep]
  exact agrees.emit _

/-- Both are after a trade at the same price. -/
theorem traded (agrees : Agrees engine queues reference) (price : UInt64) :
    Agrees (engine.traded price) queues (reference.traded price) where
  sound := agrees.sound.congr rfl rfl
  listed := agrees.listed
  exact := agrees.exact
  sequence := agrees.sequence
  timestampNs := agrees.timestampNs
  eventBuf := agrees.eventBuf
  stopBids := agrees.stopBids
  stopAsks := agrees.stopAsks
  lastTradePrice := rfl

/-- Both have other resting orders. -/
theorem withBook {book : OrderBook config.maxTicks} {arena : Arena} {queues' : Queues}
    {lines : ReferenceBook} (agrees : Agrees engine queues reference)
    (sound : (engine.withBook book arena).Sound queues') (listed : Recorded arena queues' lines)
    (exact : BestExact book arena) :
    Agrees (engine.withBook book arena) queues' (reference.withBook lines) where
  sound := sound
  listed := listed
  exact := exact
  sequence := agrees.sequence
  timestampNs := agrees.timestampNs
  eventBuf := agrees.eventBuf
  stopBids := agrees.stopBids
  stopAsks := agrees.stopAsks
  lastTradePrice := agrees.lastTradePrice

/-- Both remove the same order, when that hides no better price. -/
theorem removed {book : OrderBook config.maxTicks} {arena : Arena}
    (agrees : Agrees engine queues reference) (found : engine.arena.find index = some maker)
    (clear : ¬HidesBetter engine.book engine.arena index)
    (removed : Removed engine.book engine.arena queues maker.unlinked index book arena) :
    Agrees (engine.withBook book arena) (queues.delete maker.unlinked index)
      (reference.withBook (reference.book.delete maker.id)) :=
  agrees.withBook ⟨removed.represents, removed.tracks agrees.sound.tracks⟩
    (agrees.listed.removed agrees.sound.rep removed)
    (removed.bestExact found agrees.sound.rep.toQueued clear agrees.exact)

/-- Both fill the same order by the same quantity. -/
theorem taken {book : OrderBook config.maxTicks} {arena : Arena}
    (agrees : Agrees engine queues reference)
    (taken : Taken engine.book engine.arena queues maker.unlinked index qty book arena) :
    Agrees (engine.withBook book arena) queues
      (reference.withBook (reference.book.fill maker.id qty)) := by
  have listed := agrees.listed.taken agrees.sound.rep taken
  exact agrees.withBook ⟨taken.represents, taken.tracks agrees.sound.tracks⟩ listed
    (taken.bestExact agrees.sound.rep.toQueued agrees.exact)

/-! ## Questions -/

/-- The maker in front is the first one of its line. -/
theorem firstMaker_eq (agrees : Agrees engine queues reference)
    (front : Front taker engine queues price index maker) :
    reference.firstMaker taker.side taker.price = some maker.unlinked := by
  rw [ReferenceEngine.firstMaker, agrees.listed.first?_eq agrees.sound.rep agrees.exact front.best
    front.first (Arena.resting_of_find front.found), Option.filter_some, Order.unlinked_price,
    front.atPrice, front.acceptable, if_pos rfl]

/-- Without an acceptable opposing price there is no first maker. -/
theorem firstMaker_none {side : Side} (agrees : Agrees engine queues reference)
    (refused : ∀ price', engine.book.best side.opposite = some price' →
      isPriceAcceptable side price price' = false) :
    reference.firstMaker side price = none := by
  rw [ReferenceEngine.firstMaker]
  cases best : engine.book.best side.opposite with
  | none => rw [agrees.listed.first?_none agrees.sound.rep agrees.exact best, Option.filter_none]
  | some top =>
    obtain ⟨index, rest, queue⟩ := List.exists_cons_of_ne_nil (agrees.sound.tracks.held _ _ best)
    obtain ⟨order, rests, -, atPrice⟩ := agrees.sound.rep.stored (queue ▸ List.mem_cons_self)
    rw [agrees.listed.first?_eq agrees.sound.rep agrees.exact best (by rw [queue]; rfl) rests,
      Option.filter_some, atPrice, refused top best]
    rfl

/-- There is a first maker exactly when the best opposing price is acceptable. -/
theorem isSome_firstMaker {side : Side} (agrees : Agrees engine queues reference) :
    (reference.firstMaker side price).isSome =
      (engine.book.best side.opposite).any (isPriceAcceptable side price) := by
  cases accepted : (engine.book.best side.opposite).any (isPriceAcceptable side price) with
  | false =>
    rw [agrees.firstMaker_none fun other best => ?_]
    · rfl
    · rw [best] at accepted
      simpa using accepted
  | true =>
    obtain ⟨top, best, acceptable⟩ := (Option.any_eq_true _ _).mp accepted
    obtain ⟨index, maker, front⟩ : ∃ index maker,
        Front ⟨0, side, price, none⟩ engine queues top index maker :=
      exists_front agrees.sound best acceptable
    rw [agrees.firstMaker_eq front]
    rfl

end Agrees

/-- Following is about the book, the reports and the capacity. -/
theorem Follows.mk {engine' : MatchingEngine config} {reference' : ReferenceEngine}
    (follows : Follows engine reference) (agrees : Agrees engine' queues reference')
    (room : engine.SameRoom engine') (capacity : reference'.capacity = reference.capacity) :
    Follows engine' reference' :=
  ⟨⟨queues, agrees⟩, by rw [room, follows.2, capacity]⟩

/-! ## Sweeps -/

/-- Two sweeps are at the same point. -/
def SweepMatches (sweep : Sweep config) (sweep' : ReferenceEngine.Sweep) : Prop :=
  sweep.remaining = sweep'.remaining ∧ Follows sweep.engine sweep'.engine

/-- Two sweeps end alike. -/
def ResultMatches (result : SweepResult config) (result' : ReferenceEngine.SweepResult) : Prop :=
  result.remaining = result'.remaining ∧ result.cancelIncoming = result'.cancelIncoming ∧
    Follows result.engine result'.engine

/-- What a turn of the reference engine does with a first maker. -/
theorem turn_maker {mode : StpMode} (left : qty ≠ 0)
    (first : reference.firstMaker taker.side taker.price = some maker.unlinked) :
    ReferenceEngine.turn mode taker ⟨reference, qty⟩ =
      if maker.remaining = 0 then
        .next ⟨reference.withBook (reference.book.delete maker.id), qty⟩
      else if sameGroup taker maker then
        ReferenceEngine.prevent mode ⟨reference, qty⟩ maker.unlinked
      else .next (ReferenceEngine.trade taker ⟨reference, qty⟩ maker.unlinked) := by
  simp only [ReferenceEngine.turn, if_neg left, first]
  rfl

/-- An iteration that hides no better price is matched by a turn of the reference engine. -/
theorem matchStep_simulates {sweep' : ReferenceEngine.Sweep} (same : SweepMatches sweep sweep')
    (clear : ¬Hides taker sweep) :
    Simulates (Flow.Matching SweepMatches ResultMatches) (matchStep taker sweep)
      (.ok (ReferenceEngine.turn config.stpMode taker sweep') : Except Fault _) := by
  obtain ⟨reference, remaining⟩ := sweep'
  obtain ⟨rfl, follows⟩ := same
  obtain ⟨⟨queues, agrees⟩, -⟩ := id follows
  intro flow returned
  have room := matchStep_room flow returned
  have kept : ∀ {price index maker}, sweep.remaining ≠ 0 →
      Front taker sweep.engine queues price index maker → removesMaker taker sweep maker = true →
      ¬HidesBetter sweep.engine.book sweep.engine.arena index := fun left front removes hides =>
    clear ⟨left, _, _, front.frontMaker_eq agrees.sound.rep, removes, hides⟩
  refine ⟨_, rfl, ?_⟩
  cases matchStep_cases agrees.sound returned with
  | exhausted nothing =>
    rw [ReferenceEngine.turn, if_pos nothing]
    exact .done ⟨rfl, rfl, follows⟩
  | unmatched left refused =>
    simp only [ReferenceEngine.turn, if_neg left, agrees.firstMaker_none refused]
    exact .done ⟨rfl, rfl, follows⟩
  | stale left front spent removed =>
    rw [turn_maker left (agrees.firstMaker_eq front), if_pos spent]
    have clear := kept left front (by simp [removesMaker, spent])
    exact .next ⟨rfl, follows.mk (agrees.removed front.found clear removed) room rfl⟩
  | newest left front live group mode =>
    rw [turn_maker left (agrees.firstMaker_eq front), if_neg live, if_pos group, mode]
    exact .done ⟨rfl, rfl, follows⟩
  | oldest left front live group mode removed =>
    obtain rfl := front.atPrice
    rw [turn_maker left (agrees.firstMaker_eq front), if_neg live, if_pos group, mode]
    have clear := kept left front (by simp [removesMaker, live, group, mode])
    exact .next ⟨rfl, follows.mk
      (((agrees.removed front.found clear removed).emit _).emitLevel _ _) room rfl⟩
  | both left front live group mode removed =>
    obtain rfl := front.atPrice
    rw [turn_maker left (agrees.firstMaker_eq front), if_neg live, if_pos group, mode]
    have clear := kept left front (by simp [removesMaker, live, group, mode])
    exact .done ⟨rfl, rfl, follows.mk
      (((agrees.removed front.found clear removed).emit _).emitLevel _ _) room rfl⟩
  | decrementAll left front live group mode whole removed =>
    obtain rfl := front.atPrice
    rw [turn_maker left (agrees.firstMaker_eq front), if_neg live, if_pos group, mode]
    have clear := kept left front (by simp [removesMaker, live, group, mode, whole])
    simp only [ReferenceEngine.prevent, Order.unlinked_remaining, min_of_le whole, if_true]
    exact .done ⟨rfl, rfl, follows.mk
      ((agrees.removed front.found clear removed).emitLevel _ _) room rfl⟩
  | decrementPart left front group mode part taken =>
    obtain rfl := front.atPrice
    rw [turn_maker left (agrees.firstMaker_eq front), if_neg (word_ne_zero_of_lt part),
      if_pos group, mode]
    have rest := (UInt64.ne_of_lt part).symm
    simp only [ReferenceEngine.prevent, Order.unlinked_remaining, Std.min_eq_if,
      if_pos (UInt64.le_of_lt part), rest, if_false]
    exact .done ⟨rfl, rfl, follows.mk ((agrees.taken taken).emitLevel _ _) room rfl⟩
  | fillPart left front apart part taken =>
    obtain rfl := front.atPrice
    rw [turn_maker left (agrees.firstMaker_eq front), if_neg (word_ne_zero_of_lt part),
      if_neg (by simpa using apart)]
    have rest := (UInt64.ne_of_lt part).symm
    simp only [ReferenceEngine.trade, Order.unlinked_remaining, Order.unlinked_matchableQty, rest,
      if_false]
    exact .next ⟨rfl, follows.mk
      ((((agrees.taken taken).emit _).traded _).emitLevel _ _) room rfl⟩
  | @fillAll _ _ maker _ _ _ _ left front live apart whole taken _ removed =>
    obtain rfl := front.atPrice
    have clear := kept left front (by simp [removesMaker, live, apart, whole])
    rw [turn_maker left (agrees.firstMaker_eq front), if_neg live, if_neg (by simpa using apart)]
    simp only [ReferenceEngine.trade, Order.unlinked_remaining, Order.unlinked_matchableQty,
      whole, if_true, UInt64.sub_self]
    obtain ⟨stored, held, same⟩ := Arena.find_of_resting removed.found
    rw [← same] at removed
    have named := congrArg Order.id same
    rw [Order.unlinked_id, Order.unlinked_id, Order.fill_id] at named
    have filled := (((agrees.taken taken).emit (.fill maker.id taker.id maker.price maker.remaining
      0 (sweep.remaining - maker.remaining))).traded maker.price).emitLevel maker.side maker.price
    have after := filled.removed held (fun hides => clear (taken.hidesBetter hides)) removed
    rw [named] at after
    exact .next ⟨rfl, follows.mk after room rfl⟩

/-- As many orders are listed as rest. -/
theorem Agrees.length_orders (agrees : Agrees engine queues reference) :
    reference.book.orders.length = engine.arena.count := by
  rw [Arena.count, agrees.listed.weigh_eq agrees.sound.rep, List.map_const',
    List.sum_replicate_nat, Nat.mul_one]

/-- A sweep that hides no better price is matched by a sweep of the reference engine. -/
theorem matchAgainstBook_simulates (follows : Follows engine reference)
    (clear : ∀ sweep, Visits (matchStep taker) ⟨engine, qty⟩ sweep → ¬Hides taker sweep) :
    Simulates ResultMatches (engine.matchAgainstBook taker qty)
      (ReferenceEngine.sweep config.stpMode reference taker qty) := by
  obtain ⟨⟨queues, agrees⟩, -⟩ := id follows
  rw [matchAgainstBook, ReferenceEngine.sweep, agrees.length_orders,
    Arena.count_eq_len agrees.sound.rep.slots]
  exact .loop (fun sweep _ visits same => matchStep_simulates same (clear sweep visits))
    ⟨rfl, follows⟩ _

/-! ## Orders -/

/-- Both report an event. -/
theorem Follows.emit (follows : Follows engine reference) (body : EventBody) :
    Follows (engine.emit body) (reference.emit body) := by
  obtain ⟨⟨queues, agrees⟩, -⟩ := id follows
  exact follows.mk (agrees.emit body) rfl rfl

/-- Both rest a quantity of an order, or refuse it. -/
theorem Follows.rest (follows : Follows engine reference)
    (returned : engine.restOrder order qty = .ok engine') :
    Follows engine' (reference.rest order qty) := by
  obtain ⟨⟨queues, agrees⟩, capacity⟩ := id follows
  obtain ⟨rested, returned', rests⟩ := restOrder_cases agrees.sound.rep order qty
  have same : Except.ok engine' = Except.ok rested := returned.symm.trans returned'
  obtain rfl := Except.ok.inj same
  have room := restOrder_room _ returned
  have known := agrees.listed.isSome_find? agrees.sound.rep order.id
  have full := Arena.full_iff agrees.sound.rep.slots
  rw [capacity, ← agrees.length_orders] at full
  unfold ReferenceEngine.rest
  cases rests with
  | refused why =>
    have refused : (reference.book.find? order.id).isSome = true ∨
        reference.capacity ≤ reference.book.orders.length := by
      rw [known, Option.isSome_iff_ne_none, ← full]
      exact why
    simp only [if_pos refused]
    exact follows.mk (agrees.emit _) room rfl
  | inserted space inserted =>
    have accepted : ¬((reference.book.find? order.id).isSome = true ∨
        reference.capacity ≤ reference.book.orders.length) := by
      rw [known, Option.isSome_iff_ne_none, ← full, not_or, not_not]
      exact ⟨inserted.unused, space⟩
    simp only [if_neg accepted]
    have grown := agrees.withBook ⟨inserted.represents, inserted.tracks agrees.sound.tracks⟩
      (agrees.listed.inserted agrees.sound.rep.toQueued inserted)
      (inserted.bestExact agrees.sound.rep.toQueued agrees.exact)
    exact follows.mk (grown.emit _) room rfl

/-- The check of the first maker's group is one of the first maker. -/
theorem Agrees.stpFirstMakerMatches_eq {group : UInt32} {found : Bool}
    (agrees : Agrees engine queues reference)
    (returned : engine.stpFirstMakerMatches taker.side taker.price group = .ok found)
    (grouped : taker.stpGroup = some group) :
    (reference.firstMaker taker.side taker.price).any (sameGroup taker) = found := by
  unfold stpFirstMakerMatches at returned
  rw [bestOpposing_eq] at returned
  cases best : engine.book.best taker.side.opposite with
  | none =>
    rw [best] at returned
    rw [agrees.firstMaker_none fun price same => by simp [best] at same]
    exact Except.ok.inj returned
  | some price =>
    simp only [best, bind, Except.bind, pure, Except.pure] at returned
    by_cases acceptable : isPriceAcceptable taker.side taker.price price = true
    · obtain ⟨index, maker, front⟩ := exists_front agrees.sound best acceptable
      have get : engine.arena.get index = .ok maker := Arena.get_ok.mpr front.found
      simp only [acceptable, Bool.not_true, Bool.false_eq_true, if_false,
        front.level_ok agrees.sound.rep, front.head agrees.sound.rep, get, Except.ok.injEq]
        at returned
      rw [agrees.firstMaker_eq front, Option.any_some, ← returned]
      simp only [sameGroup, grouped, Order.unlinked_stpGroup]
      grind
    · simp only [acceptable, Bool.not_false, if_true, Except.ok.injEq] at returned
      rw [agrees.firstMaker_none fun other same => ?_]
      · exact returned
      · rw [best] at same
        obtain rfl := Option.some.inj same
        exact Bool.not_eq_true _ ▸ acceptable

/-- The depth indices answer the fill-or-kill check of an order as the resting orders do. -/
def Informed (site : MatchingEngine config) (order : NewOrder) : Prop :=
  order.timeInForce = .fok →
    (site.checkAvailableLiquidity order.side (effectivePrice order) < order.qty ↔
      site.acceptableLiquidity order < order.qty.toNat)

/-- Both refuse an order for the same reason. -/
theorem Agrees.refusal_eq {verdict : Option RejectReason} (agrees : Agrees engine queues reference)
    (informed : engine.Informed order) (returned : engine.refusal order = .ok verdict) :
    ReferenceEngine.refusal config.stpMode reference order = verdict := by
  unfold refusal at returned
  simp only [bind, Except.bind, pure, Except.pure] at returned
  unfold ReferenceEngine.refusal
  rw [agrees.listed.isSome_find? agrees.sound.rep]
  split at returned
  · rename_i nothing
    rw [if_pos nothing]
    exact Except.ok.inj returned
  rename_i proper
  rw [if_neg proper]
  split at returned
  · rename_i duplicate
    rw [if_pos duplicate]
    exact Except.ok.inj returned
  rename_i fresh
  rw [if_neg fresh]
  have told : (order.timeInForce = .fok ∧
      engine.checkAvailableLiquidity order.side (effectivePrice order) < order.qty) ↔
      order.timeInForce = .fok ∧ reference.book.liquidity order.side.opposite
        (isPriceAcceptable order.side (effectivePrice order)) < order.qty.toNat := by
    refine and_congr_right fun fok => ?_
    rw [informed fok, acceptableLiquidity, agrees.listed.liquidity_eq agrees.sound.rep]
  split at returned
  · rename_i short
    rw [if_pos (told.mp short)]
    exact Except.ok.inj returned
  rename_i enough
  rw [if_neg fun short => enough (told.mpr short)]
  cases grouped : order.stpGroup with
  | none =>
    simp only [grouped] at returned
    obtain rfl := Except.ok.inj returned
    refine if_neg fun both => ?_
    obtain ⟨maker, -, same⟩ := (Option.any_eq_true _ _).mp both.2
    simp [sameGroup, takerOf, grouped] at same
  | some group =>
    simp only [grouped] at returned
    split at returned
    · rename_i mode
      split at returned
      · contradiction
      rename_i found first
      have alike : (reference.firstMaker order.side (effectivePrice order)).any
          (sameGroup (takerOf order)) = found := agrees.stpFirstMakerMatches_eq first grouped
      rw [alike]
      split at returned
      · rename_i matching
        rw [if_pos ⟨mode, matching⟩]
        exact Except.ok.inj returned
      · rename_i other
        rw [if_neg fun both => other both.2]
        exact Except.ok.inj returned
    · rename_i mode
      rw [if_neg fun both => mode both.1]
      exact Except.ok.inj returned

/-- Both settle the remainder of an order alike. -/
theorem settleRemainder_simulates {result : SweepResult config}
    {result' : ReferenceEngine.SweepResult} (same : ResultMatches result result')
    (matched : order.Matched) :
    Simulates Follows (settleRemainder result order)
      (.ok (ReferenceEngine.settle result' order) : Except Fault _) := by
  obtain ⟨left, cancel, follows⟩ := same
  obtain ⟨⟨queues, agrees⟩, -⟩ := id follows
  intro after returned
  refine ⟨_, rfl, ?_⟩
  have settled := settleRemainder_cases agrees.sound matched returned
  rw [ReferenceEngine.settle, ← left, ← cancel]
  cases settled with
  | prevented stopped =>
    rw [if_pos stopped]
    exact follows.emit _
  | filled free nothing =>
    rw [if_neg (by simp [free]), if_pos nothing]
    exact follows
  | rested free some keeps rested =>
    rw [if_neg (by simp [free]), if_neg some, if_pos keeps]
    have rests : result.engine.restOrder order result.remaining = .ok after := by
      rw [← returned, settleRemainder, free, if_neg (by simp), if_neg some]
      obtain ⟨gtc, limit | iceberg⟩ := keeps
      · simp only [gtc, limit]
      · simp only [gtc, iceberg]
    exact follows.rest rests
  | dropped free some drops =>
    rw [if_neg (by simp [free]), if_neg some, if_neg drops]
    exact follows.emit _

/-- Both accept an order. -/
theorem Follows.accept (follows : Follows engine reference) (order : NewOrder) :
    Follows (engine.accept order) (reference.accept order) := follows.emit _

/-- Both handle a post-only order alike. -/
theorem Follows.post (follows : Follows engine reference) :
    Simulates Follows (engine.processPostOnly order)
      (.ok (reference.post order) : Except Fault _) := by
  obtain ⟨⟨queues, agrees⟩, -⟩ := id follows
  intro after returned
  refine ⟨_, rfl, ?_⟩
  rw [processPostOnly_eq] at returned
  rw [ReferenceEngine.post, agrees.isSome_firstMaker]
  split at returned
  · rename_i crosses
    obtain rfl := Except.ok.inj returned
    rw [if_pos crosses]
    exact follows.emit _
  · rename_i apart
    rw [if_neg apart]
    exact (follows.accept order).rest returned

/-- Both have other pending stops. -/
theorem Agrees.withStops {bids bids' asks asks' : List (UInt64 × StopEntry)}
    (agrees : Agrees engine queues reference) (sameBids : bids = bids') (sameAsks : asks = asks') :
    Agrees { engine with stopBids := bids, stopAsks := asks } queues
      { reference with stopBids := bids', stopAsks := asks' } where
  sound := agrees.sound.congr rfl rfl
  listed := agrees.listed
  exact := agrees.exact
  sequence := agrees.sequence
  timestampNs := agrees.timestampNs
  eventBuf := agrees.eventBuf
  stopBids := sameBids
  stopAsks := sameAsks
  lastTradePrice := agrees.lastTradePrice

/-- Both handle a stop order alike. -/
theorem Follows.park (follows : Follows engine reference) (order : NewOrder) :
    Follows (engine.processStopLimit order) (reference.park order) := by
  have accepted := follows.accept order
  obtain ⟨id, side, price, qty, orderType, timeInForce, visibleQty, stopPrice, group⟩ := order
  unfold processStopLimit ReferenceEngine.park
  by_cases nothing : qty = 0
  · rw [if_pos nothing, if_pos nothing]
    exact follows.emit _
  rw [if_neg nothing, if_neg nothing]
  cases stopPrice with
  | none => exact follows.emit _
  | some stopPx =>
    obtain ⟨⟨queues, agrees⟩, -⟩ := accepted
    cases side with
    | bid =>
      exact follows.mk (agrees.withStops
        (congrArg (fun stops => insertStop stops (· < stopPx) stopPx _) agrees.stopBids)
        agrees.stopAsks) rfl rfl
    | ask =>
      exact follows.mk (agrees.withStops agrees.stopBids
        (congrArg (fun stops => insertStop stops (stopPx < ·) stopPx _) agrees.stopAsks)) rfl rfl

/-- What the reference engine does with an order that is matched on arrival. -/
theorem submit_matched {mode : StpMode} (kind : order.Matched) :
    ReferenceEngine.submit mode reference order =
      match ReferenceEngine.refusal mode reference order with
      | some reason => .ok (reference.emit (.orderRejected order.id reason))
      | none => do
        let result ←
          ReferenceEngine.sweep mode (reference.accept order) (takerOf order) order.qty
        return ReferenceEngine.settle result order := by
  unfold ReferenceEngine.submit
  obtain ⟨notPostOnly, notStopLimit⟩ := kind
  split
  · contradiction
  · contradiction
  · rfl

/-- The caches tell the truth about an order that is handed in: the depth indices answer for its
fill-or-kill check, and no removal of its sweep hides a better price. -/
structure TruthfulTo (site : MatchingEngine config) (order : NewOrder) : Prop where
  /-- The depth indices answer as the resting orders do. -/
  informed : site.Informed order
  /-- The sweep hides no better price. -/
  clear : ∀ sweep, order.Matched → site.refusal order = .ok none →
    Visits (matchStep (takerOf order)) ⟨site.accept order, order.qty⟩ sweep →
    ¬Hides (takerOf order) sweep

/-- An order about which the caches tell the truth is handled alike. -/
theorem Follows.submit (follows : Follows engine reference) (truthful : engine.TruthfulTo order) :
    Simulates Follows (engine.processNewOrder order)
      (ReferenceEngine.submit config.stpMode reference order) := by
  by_cases kind : order.Matched
  · obtain ⟨⟨queues, agrees⟩, -⟩ := id follows
    rw [processNewOrder_matched kind, submit_matched kind]
    refine .second fun verdict checked => ?_
    rw [agrees.refusal_eq truthful.informed checked]
    cases verdict with
    | some reason => exact .ok (follows.emit _)
    | none =>
      refine .bind (matchAgainstBook_simulates (follows.accept order)
        fun sweep => truthful.clear sweep kind checked) fun result result' _ same => ?_
      exact settleRemainder_simulates same kind
  · unfold processNewOrder ReferenceEngine.submit
    cases other : order.orderType with
    | postOnly => exact follows.post
    | stopLimit => exact .ok (follows.park order)
    | limit | market | iceberg => exact absurd (by simp [NewOrder.Matched, other]) kind

/-! ## Cancels and modifications -/

/-- Both find the order of an id, and both remove it. -/
theorem Follows.found {id : OrderId} (follows : Follows engine reference)
    (held : engine.book.lookup id = some index) :
    ∃ queues order, engine.Sound queues ∧ engine.arena.find index = some order ∧ order.id = id ∧
      reference.book.find? id = some order.unlinked ∧ Agrees engine queues reference := by
  obtain ⟨⟨queues, agrees⟩, -⟩ := follows
  obtain ⟨order, found, rfl⟩ := agrees.sound.held held
  exact ⟨queues, order, agrees.sound, found, rfl,
    agrees.listed.find?_some agrees.sound.rep (Arena.resting_of_find found), agrees⟩

/-- Neither finds an order for an id that is not indexed. -/
theorem Follows.missing {id : OrderId} (follows : Follows engine reference)
    (absent : engine.book.lookup id = none) : reference.book.find? id = none := by
  obtain ⟨⟨queues, agrees⟩, -⟩ := follows
  exact agrees.listed.find?_none agrees.sound.rep absent

/-- Both cancel an order alike, when its removal hides no better price. -/
theorem Follows.cancel {id : OrderId} (follows : Follows engine reference)
    (clear : ∀ index, engine.book.lookup id = some index →
      ¬HidesBetter engine.book engine.arena index) :
    Simulates Follows (engine.processCancel id) (.ok (reference.cancel id) : Except Fault _) := by
  intro after returned
  refine ⟨_, rfl, ?_⟩
  have room := processCancel_room after returned
  unfold ReferenceEngine.cancel
  cases held : engine.book.lookup id with
  | none =>
    rw [processCancel, held] at returned
    obtain rfl := Except.ok.inj returned
    rw [follows.missing held]
    exact follows.emit _
  | some index =>
    obtain ⟨queues, order, sound, found, rfl, known, agrees⟩ := follows.found held
    rw [known]
    cases processCancel_cases sound returned with
    | missing absent => simp [held] at absent
    | removed held' found' _ removed =>
      rw [held] at held'
      obtain rfl := Option.some.inj held'
      rw [found] at found'
      obtain rfl := Option.some.inj found'
      have gone := agrees.removed found (clear _ held) removed
      exact follows.mk ((gone.emit _).emitLevel _ _) room rfl

/-- Both withdraw an order alike, when its removal hides no better price, and submit the same
replacement. -/
theorem Follows.withdraw {id : OrderId} {newPrice newQty : UInt64}
    {site : MatchingEngine config} (follows : Follows engine reference)
    (held : engine.book.lookup id = some index)
    (clear : ¬HidesBetter engine.book engine.arena index)
    (withdrawn : engine.withdraw index id newPrice newQty = .ok (site, order)) :
    ∃ resting, reference.book.find? id = some resting ∧
      order = replacement id resting.side newPrice newQty ∧
      Follows site (((reference.withBook (reference.book.delete id)).emit
        (.orderModified id newPrice newQty)).emitLevel resting.side resting.price) := by
  obtain ⟨queues, resting, sound, found, rfl, known, agrees⟩ := follows.found held
  have room := withdraw_room _ withdrawn
  cases withdraw_cases sound held withdrawn with
  | removed found' removed =>
    rw [found] at found'
    obtain rfl := Option.some.inj found'
    have gone := agrees.removed found clear removed
    exact ⟨_, known, rfl, follows.mk ((gone.emit _).emitLevel _ _) room rfl⟩

/-- Both modify an order alike, when its removal hides no better price and the caches tell the
truth about its replacement. -/
theorem Follows.modify {id : OrderId} {newPrice newQty : UInt64}
    (follows : Follows engine reference)
    (clear : ∀ index, engine.book.lookup id = some index →
      ¬HidesBetter engine.book engine.arena index)
    (truthful : ∀ index site order, engine.book.lookup id = some index →
      engine.withdraw index id newPrice newQty = .ok (site, order) → site.TruthfulTo order) :
    Simulates Follows (engine.processModify id newPrice newQty)
      (ReferenceEngine.modify config.stpMode reference id newPrice newQty) := by
  unfold processModify ReferenceEngine.modify
  cases held : engine.book.lookup id with
  | none =>
    rw [follows.missing held]
    exact .ok (follows.emit _)
  | some index =>
    refine .second fun withdrawn withdraws => ?_
    obtain ⟨site, order⟩ := withdrawn
    obtain ⟨resting, known, rfl, after⟩ := follows.withdraw held (clear index held) withdraws
    rw [known]
    exact after.submit (truthful index site _ held withdraws)

/-! ## Stops -/

/-- Both take the same buy stop next. -/
theorem Follows.buyStop (follows : Follows engine reference) (lastPrice : UInt64) :
    (triggerBuy lastPrice engine = none ∧ reference.triggerBuy lastPrice = none) ∨
      ∃ site site' order, triggerBuy lastPrice engine = some (site, order) ∧
        reference.triggerBuy lastPrice = some (site', order) ∧ Follows site site' := by
  obtain ⟨⟨queues, agrees⟩, -⟩ := id follows
  unfold triggerBuy ReferenceEngine.triggerBuy
  rw [← agrees.stopBids]
  cases engine.stopBids with
  | nil => exact .inl ⟨rfl, rfl⟩
  | cons first rest =>
    obtain ⟨stopPx, entry⟩ := first
    dsimp only
    split
    · exact .inl ⟨rfl, rfl⟩
    · exact .inr ⟨_, _, _, rfl, rfl,
        follows.mk ((agrees.withStops rfl agrees.stopAsks).emit _) rfl rfl⟩

/-- Both take the same sell stop next. -/
theorem Follows.sellStop (follows : Follows engine reference) (lastPrice : UInt64) :
    (triggerSell lastPrice engine = none ∧ reference.triggerSell lastPrice = none) ∨
      ∃ site site' order, triggerSell lastPrice engine = some (site, order) ∧
        reference.triggerSell lastPrice = some (site', order) ∧ Follows site site' := by
  obtain ⟨⟨queues, agrees⟩, -⟩ := id follows
  unfold triggerSell ReferenceEngine.triggerSell
  rw [← agrees.stopAsks]
  cases engine.stopAsks with
  | nil => exact .inl ⟨rfl, rfl⟩
  | cons first rest =>
    obtain ⟨stopPx, entry⟩ := first
    dsimp only
    split
    · exact .inl ⟨rfl, rfl⟩
    · exact .inr ⟨_, _, _, rfl, rfl,
        follows.mk ((agrees.withStops agrees.stopBids rfl).emit _) rfl rfl⟩

end MatchingEngine

end MatchX
