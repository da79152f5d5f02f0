import MatchX.Book.Assertions
import MatchX.Engine.Faults
import MatchX.Engine.Feed
import MatchX.Engine.Termination

/-!
# Calls in which no assertion fails

The price index drops a price when it holds nothing there any more, the level stays as long as
it has orders. The two part where the last quantity leaves a price at which post-only orders of
quantity zero rest; the next of them to leave is looked up in the index and not found. And the
depth indices keep what fills take from the orders, so they can hold more than a word when what
rests is less. In runs without either no assertion of the book fails and every call returns.
-/

namespace MatchX

open MatchX.Support

/-- What the depth indices of a side hold in all, as the book answers it for a market order. -/
def OrderBook.depthTotal {ticks : UInt32} (book : OrderBook ticks) : Side → UInt64
  | .bid => book.bidAvailableAtOrAbove 0
  | .ask => book.askAvailableAtOrBelow u64Max

/-- The answer is what is held, when that is a word. -/
theorem DepthCovers.toNat_depthTotal {ticks : UInt32} {book : OrderBook ticks} {arena : Arena}
    {held : Side → Nat → Nat} (covers : DepthCovers book arena held) (side : Side) :
    (book.depthTotal side).toNat = ∑ number ∈ Finset.range (2 ^ 64), held side number := by
  have word := covers.words side
  cases side with
  | bid =>
    rw [OrderBook.depthTotal, (covers.holds .bid).bidAvailableAtOrAbove (covers.past .bid),
      UInt64.toNat_zero, ← Finset.range_eq_Ico, UInt64.toNat_ofNat_of_lt' word]
  | ask =>
    have top : u64Max.toNat + 1 = 2 ^ 64 := rfl
    rw [OrderBook.depthTotal, (covers.holds .ask).askAvailableAtOrBelow, top,
      UInt64.toNat_ofNat_of_lt' word]

namespace MatchingEngine

variable {config : InstrumentConfig} {engine engine' : MatchingEngine config} {queues : Queues}
  {taker : Taker} {sweep : Sweep config} {flow : Flow (Sweep config) (SweepResult config)}
  {command : Command} {order : NewOrder} {qty price : UInt64} {index : ArenaIndex} {maker : Order}
  {held : Side → Nat → Nat}

/-! ## The condition -/

/-- If the book takes an order, what the depth indices of its side then hold is a word, and the
price index has room for one more price (a vector has, as its bytes are counted by a word). -/
def DepthRoom (engine : MatchingEngine config) (order : NewOrder) (qty : UInt64) : Prop :=
  engine.book.lookup order.id = none → engine.arena.freeHead ≠ freeListEnd →
    (engine.book.depthTotal order.side).toNat + qty.toNat < 2 ^ 64 ∧
      (engine.book.depth order.side).2.prices.length + 2 < 2 ^ 64

/-- The removals of a call take no price out of the price index at which another order rests, and
its insertions leave words in the depth indices. -/
structure Clean (engine : MatchingEngine config) (command : Command) : Prop where
  /-- The insertions leave words. -/
  room : ∀ site order qty, RestsAt engine command site order qty → DepthRoom site order qty
  /-- The order that is cancelled or modified leaves its price to no other. -/
  commands : ∀ id index, engine.clearEvents.book.lookup id = some index →
    (command = .cancelOrder id ∨ ∃ newPrice newQty, command = .modifyOrder id newPrice newQty) →
    EntryKept engine.clearEvents.book engine.clearEvents.arena index
  /-- So does a maker that is removed without being filled. -/
  makers : ∀ site order sweep index maker, Sweeps engine command site order sweep →
    sweep.remaining ≠ 0 → frontMaker (takerOf order) sweep.engine = some (index, maker) →
    removesMaker (takerOf order) sweep maker = true →
    (maker.remaining = 0 ∨ sameGroup (takerOf order) maker = true) →
    EntryKept sweep.engine.book sweep.engine.arena index

/-! ## What the book is asked during a call -/

/-- The first half of the fill of the matching loop: a quantity is taken from a maker and from
its level. -/
def takeFrom (taker : Taker) (engine : MatchingEngine config) (restingPrice : UInt64)
    (makerIdx : ArenaIndex) (fillQty : UInt64) : Except Fault (MatchingEngine config) := do
  let arena ← engine.arena.modify makerIdx fun order =>
    { order with filled := order.filled + fillQty }
  let level := engine.book.level taker.side.opposite restingPrice
  let book := engine.book.setLevel taker.side.opposite restingPrice
    { level with totalQuantity := level.totalQuantity - fillQty }
  return engine.withBook book arena

/-- The states of a call in which it looks at a level, removes an order or reduces one. -/
inductive During (engine : MatchingEngine config) (command : Command) :
    MatchingEngine config → Prop
  /-- The command is carried out. -/
  | command : During engine command engine.clearEvents
  /-- An order is checked. -/
  | site {site order} (submits : Submits engine command site order) : During engine command site
  /-- An iteration of a sweep begins. -/
  | sweep {site order sweep} (sweeps : Sweeps engine command site order sweep) :
    During engine command sweep.engine
  /-- A maker is filled and not yet removed. -/
  | filled {site order sweep index maker taken} (sweeps : Sweeps engine command site order sweep)
      (left : sweep.remaining ≠ 0)
      (front : frontMaker (takerOf order) sweep.engine = some (index, maker))
      (live : maker.remaining ≠ 0) (apart : sameGroup (takerOf order) maker = false)
      (returned : takeFrom (takerOf order) sweep.engine maker.price index
        (min sweep.remaining maker.matchableQty) = .ok taken) :
    During engine command taken

/-! ## What a call keeps -/

/-- The depth indices cover what rests, and every price that needs to be is listed. -/
def Covered (engine : MatchingEngine config) : Prop :=
  ∃ held, DepthCovers engine.book engine.arena held ∧ Listed engine.book engine.arena

/-- In a covered book no assertion can fail. -/
theorem Sound.asserts (sound : engine.Sound queues) (covered : Covered engine) :
    Asserts engine.book engine.arena := by
  obtain ⟨held, covers, listed⟩ := covered
  exact MatchX.asserts sound.rep covers sound.tracks listed

/-- Taking a quantity from a maker and its level keeps what rests held by the depth indices, and
keeps the prices listed. -/
theorem takeFrom_covers {taken : MatchingEngine config} (sound : engine.Sound queues)
    (covers : DepthCovers engine.book engine.arena held)
    (front : Front taker engine queues price index maker) (bound : qty ≤ maker.remaining)
    (returned : takeFrom taker engine price index qty = .ok taken) :
    taken.Sound queues ∧ DepthCovers taken.book taken.arena held ∧
      (Listed engine.book engine.arena → Listed taken.book taken.arena) := by
  obtain ⟨arena, write, seen, head, keeps⟩ := Arena.modify_ok
    (fun order => { order with filled := order.filled + qty }) front.found
  have taken' := sound.rep.take front.found bound (keeps sound.rep.slots) seen head
  rw [front.onSide, front.atPrice] at taken'
  unfold takeFrom at returned
  rw [write] at returned
  obtain rfl := Except.ok.inj returned
  have depth : ∀ side, (engine.book.setLevel taker.side.opposite price
      { engine.book.level taker.side.opposite price with
        totalQuantity := (engine.book.level taker.side.opposite price).totalQuantity - qty }).depth
          side = engine.book.depth side := fun _ => OrderBook.depth_setLevel
  exact ⟨⟨taken'.represents, taken'.tracks sound.tracks⟩,
    covers.fill sound.rep.toQueued taken' bound depth, fun listed => listed.fill taken' depth⟩

/-- An iteration keeps what rests held by the depth indices. It keeps the prices listed, when a
maker that it removes unfilled leaves its price to no other. -/
theorem Iteration.covers (sound : sweep.engine.Sound queues)
    (iteration : Iteration taker queues sweep flow)
    (covers : DepthCovers sweep.engine.book sweep.engine.arena held) :
    ∃ held', DepthCovers (flowEngine flow).book (flowEngine flow).arena held' ∧
      (Listed sweep.engine.book sweep.engine.arena →
        (∀ index maker, sweep.remaining ≠ 0 →
          frontMaker taker sweep.engine = some (index, maker) →
          removesMaker taker sweep maker = true →
          (maker.remaining = 0 ∨ sameGroup taker maker = true) →
          EntryKept sweep.engine.book sweep.engine.arena index) →
        Listed (flowEngine flow).book (flowEngine flow).arena) := by
  have slots := sound.rep.slots
  cases iteration with
  | exhausted | unmatched | newest => exact ⟨held, covers, fun listed _ => listed⟩
  | stale left front spent removed =>
    refine ⟨_, covers.remove slots removed, fun listed kept =>
      listed.remove covers removed front.found ?_⟩
    exact kept _ _ left (front.frontMaker_eq sound.rep) (by simp [removesMaker, spent]) (.inl spent)
  | oldest left front live group mode removed =>
    refine ⟨_, covers.remove slots removed, fun listed kept =>
      listed.remove covers removed front.found ?_⟩
    exact kept _ _ left (front.frontMaker_eq sound.rep)
      (by simp [removesMaker, live, group, mode]) (.inr group)
  | both left front live group mode removed =>
    refine ⟨_, covers.remove slots removed, fun listed kept =>
      listed.remove covers removed front.found ?_⟩
    exact kept _ _ left (front.frontMaker_eq sound.rep)
      (by simp [removesMaker, live, group, mode]) (.inr group)
  | decrementAll left front live group mode whole removed =>
    refine ⟨_, covers.remove slots removed, fun listed kept =>
      listed.remove covers removed front.found ?_⟩
    exact kept _ _ left (front.frontMaker_eq sound.rep)
      (by simp [removesMaker, live, group, mode, whole]) (.inr group)
  | decrementPart left front group mode part taken depth =>
    obtain rfl := front.atPrice
    exact ⟨_, covers.take sound.rep.toQueued taken (UInt64.le_of_lt part) depth,
      fun listed _ => listed.take covers sound.rep.toQueued taken part depth⟩
  | fillPart left front apart part taken depth =>
    exact ⟨held, covers.fill sound.rep.toQueued taken (UInt64.le_of_lt part) depth,
      fun listed _ => listed.fill taken depth⟩
  | @fillAll price index maker book arena book' arena' left front live apart whole taken depth
      removed =>
    have filled := covers.fill sound.rep.toQueued taken (UInt64.le_refl maker.remaining) depth
    have less := (Order.fill_sound (front.sound sound.rep) (UInt64.le_refl maker.remaining)).2
    have spent : (maker.fill maker.remaining).remaining = 0 := by
      rw [less, sub_eq_zero_of_le (UInt64.le_refl _)]
    have part := sound.rep.toQueued.remaining_le taken.found
    have most : liquidity sweep.engine.arena (queues maker.side maker.price) ≤
        held maker.side maker.price.toNat := covers.liquidity_le sound.rep.toQueued
    have some : maker.remaining.toNat ≠ 0 := fun none => live (UInt64.toNat_inj.mp none)
    have more : held maker.side maker.price.toNat ≠ 0 := by
      have part' : maker.remaining.toNat ≤
        liquidity sweep.engine.arena (queues maker.side maker.price) := part
      omega
    exact ⟨_, filled.remove taken.represents.slots removed, fun listed _ =>
      (listed.fill taken depth).removeFilled filled removed spent more⟩

/-- Resting an order keeps what rests held by the depth indices, when they have room for it, and
keeps the prices listed. -/
theorem Rested.covers (sound : engine.Sound queues)
    (rested : Rested engine queues order qty engine') (room : DepthRoom engine order qty)
    (covers : DepthCovers engine.book engine.arena held) :
    ∃ held', DepthCovers engine'.book engine'.arena held' ∧
      (Listed engine.book engine.arena → Listed engine'.book engine'.arena) := by
  cases rested with
  | refused => exact ⟨held, covers, id⟩
  | inserted free inserted =>
    obtain ⟨word, places⟩ := room inserted.unused free
    have whole : (order.resting qty).remaining = qty := by
      simp [NewOrder.resting, Order.submitted, Order.remaining, saturatingSub]
    rw [covers.toNat_depthTotal] at word
    exact ⟨_, covers.insert sound.rep.slots inserted whole places word, fun listed =>
      listed.insert covers inserted⟩

/-- A call whose insertions the depth indices have room for keeps what rests held by them. -/
theorem keepsCovers (room : ∀ site order qty, RestsAt engine command site order qty →
    DepthRoom site order qty) :
    KeepsBook engine command fun book arena => ∃ held, DepthCovers book arena held where
  removes _ _ sound _ removed := fun ⟨_, covers⟩ => ⟨_, covers.remove sound.rep.slots removed⟩
  iterates _ sound iteration := fun ⟨_, covers⟩ =>
    (iteration.covers sound covers).imp fun _ both => both.1
  rests rests sound rested := fun ⟨_, covers⟩ =>
    (rested.covers sound (room _ _ _ rests) covers).imp fun _ both => both.1

/-- A clean call keeps the book covered. -/
theorem keepsCovered (clear : Clean engine command) :
    KeepsBook engine command fun book arena =>
      ∃ held, DepthCovers book arena held ∧ Listed book arena where
  removes {id index order queues book arena} named held sound found removed := by
    rintro ⟨held', covers, listed⟩
    exact ⟨_, covers.remove sound.rep.slots removed,
      listed.remove covers removed found (clear.commands id index held named)⟩
  iterates sweeps sound iteration := by
    rintro ⟨held, covers, listed⟩
    obtain ⟨held', covers', still⟩ := iteration.covers sound covers
    exact ⟨held', covers', still listed fun index maker => clear.makers _ _ _ index maker sweeps⟩
  rests rests sound rested := by
    rintro ⟨held, covers, listed⟩
    obtain ⟨held', covers', still⟩ := rested.covers sound (clear.room _ _ _ rests) covers
    exact ⟨held', covers', still listed⟩

/-! ## No iteration fails -/

/-- Removing a resting order succeeds where no assertion can fail. -/
theorem removeMaker_returns (sound : engine.Sound queues)
    (asserts : Asserts engine.book engine.arena) (found : engine.arena.find index = some maker) :
    ∃ after, engine.removeMaker index = .ok after := by
  obtain ⟨result, returned⟩ := (asserts.removable index maker found).ok sound.rep found
  unfold removeMaker
  rw [returned]
  exact ⟨_, rfl⟩

/-- The fill of an iteration succeeds where no assertion can fail once its quantity is taken. -/
theorem fillMaker_returns (found : sweep.engine.arena.find index = some maker)
    (filled : ∀ taken, takeFrom taker sweep.engine price index
        (min sweep.remaining maker.matchableQty) = .ok taken →
      (∃ queues, taken.Sound queues) ∧ Asserts taken.book taken.arena) :
    ∃ following, fillMaker taker sweep price index maker = .ok following := by
  obtain ⟨arena, write, seen, -, -⟩ := Arena.modify_ok (fun order => { order with
    filled := order.filled + min sweep.remaining maker.matchableQty }) found
  have now : arena.find index = some (maker.fill (min sweep.remaining maker.matchableQty)) := by
    rw [seen, if_pos rfl]
    rfl
  have get := Arena.get_ok.mpr now
  unfold takeFrom at filled
  simp only [write, bind, Except.bind, pure, Except.pure] at filled
  obtain ⟨⟨queues, sound⟩, asserts⟩ := filled _ rfl
  unfold fillMaker
  simp only [write, get, bind, Except.bind, pure, Except.pure]
  split
  · split
    · rename_i fault removing
      obtain ⟨result, returned⟩ := (asserts.removable index _ now).ok sound.rep now
      obtain failing | ⟨removed, -, impossible⟩ := bind_error removing
      · exact absurd (failing.symm.trans returned) nofun
      · contradiction
    · exact ⟨_, rfl⟩
  · exact ⟨_, rfl⟩

/-- The self-trade prevention of an iteration succeeds where no assertion can fail. -/
theorem preventSelfTrade_returns (sound : sweep.engine.Sound queues)
    (asserts : Asserts sweep.engine.book sweep.engine.arena)
    (found : sweep.engine.arena.find index = some maker) :
    ∃ flow, preventSelfTrade sweep price index maker = .ok flow := by
  obtain ⟨after, removed⟩ := removeMaker_returns sound asserts found
  unfold preventSelfTrade
  cases config.stpMode with
  | cancelNewest => exact ⟨_, rfl⟩
  | cancelOldest | cancelBoth =>
    simp only [removed, bind, Except.bind]
    exact ⟨_, rfl⟩
  | decrementAndCancel =>
    have within : min sweep.remaining maker.remaining ≤ maker.remaining := Std.min_le_right
    obtain ⟨reduced, returned⟩ := (asserts.reducible index maker _ found within).ok found
    simp only [removed, returned, bind, Except.bind, pure, Except.pure]
    split
    · exact ⟨_, rfl⟩
    · exact ⟨_, rfl⟩

/-- An iteration succeeds where no assertion can fail, neither as it begins nor once the quantity
of its fill is taken. -/
theorem matchStep_returns (sound : sweep.engine.Sound queues)
    (asserts : Asserts sweep.engine.book sweep.engine.arena)
    (filled : ∀ index maker taken, sweep.remaining ≠ 0 →
      frontMaker taker sweep.engine = some (index, maker) → maker.remaining ≠ 0 →
      sameGroup taker maker = false → takeFrom taker sweep.engine maker.price index
        (min sweep.remaining maker.matchableQty) = .ok taken →
      (∃ queues, taken.Sound queues) ∧ Asserts taken.book taken.arena) :
    ∃ flow, matchStep taker sweep = .ok flow := by
  unfold matchStep
  by_cases nothing : sweep.remaining = 0
  · rw [if_pos nothing]
    exact ⟨_, rfl⟩
  simp only [if_neg nothing, bestOpposing_eq, bind, Except.bind, pure, Except.pure]
  cases best : sweep.engine.book.best taker.side.opposite with
  | none => exact ⟨_, rfl⟩
  | some price =>
    dsimp only
    by_cases acceptable : isPriceAcceptable taker.side taker.price price = true
    · obtain ⟨index, maker, front⟩ := exists_front sound best acceptable
      have get : sweep.engine.arena.get index = .ok maker := Arena.get_ok.mpr front.found
      simp only [acceptable, Bool.not_true, Bool.false_eq_true, if_false,
        front.level_ok sound.rep, front.head sound.rep, get]
      by_cases spent : maker.remaining = 0
      · obtain ⟨after, removed⟩ := removeMaker_returns sound asserts front.found
        rw [if_pos spent, removed]
        exact ⟨_, rfl⟩
      rw [if_neg spent]
      cases group : sameGroup taker maker with
      | true =>
        obtain ⟨flow, prevented⟩ := preventSelfTrade_returns sound asserts front.found
        exact ⟨flow, prevented⟩
      | false =>
        obtain ⟨following, filling⟩ := fillMaker_returns front.found fun taken taking =>
          filled index maker taken nothing (front.frontMaker_eq sound.rep) spent group
            (front.atPrice ▸ taking)
        rw [filling]
        exact ⟨_, rfl⟩
    · simp only [acceptable, Bool.not_false, if_true]
      exact ⟨_, rfl⟩

/-! ## No call fails -/

/-- In a clean call no assertion can fail at any state in which it could. -/
theorem During.asserts {state : MatchingEngine config} (clear : Clean engine command)
    (sound : engine.Sound queues) (covered : Covered engine)
    (during : During engine command state) :
    (∃ queues, state.Sound queues) ∧ Asserts state.book state.arena := by
  have start : engine.clearEvents.Sound queues := sound.congr rfl rfl
  have kept : ∀ {site order}, Submits engine command site order →
      (∃ queues, site.Sound queues) ∧ Covered site := fun submits =>
    (keepsCovered clear).kept.submits ⟨⟨queues, start⟩, covered⟩ submits
  cases during with
  | command => exact ⟨⟨queues, start⟩, start.asserts covered⟩
  | site submits =>
    obtain ⟨⟨queues', sound'⟩, covered'⟩ := kept submits
    exact ⟨⟨queues', sound'⟩, sound'.asserts covered'⟩
  | sweep sweeps =>
    obtain ⟨⟨queues', sound'⟩, covered'⟩ := kept sweeps.submits
    obtain ⟨⟨queues'', sound''⟩, covered''⟩ := (keepsCovered clear).swept sound' covered' sweeps
    exact ⟨⟨queues'', sound''⟩, sound''.asserts covered''⟩
  | filled sweeps left front live apart returned =>
    obtain ⟨⟨queues', sound'⟩, covered'⟩ := kept sweeps.submits
    obtain ⟨⟨queues'', sound''⟩, held, covers, listed⟩ :=
      (keepsCovered clear).swept sound' covered' sweeps
    obtain ⟨taken, covers', still⟩ := takeFrom_covers sound'' covers
      (front_of_frontMaker sound''.rep front)
      (UInt64.le_trans Std.min_le_right Order.matchableQty_le) returned
    exact ⟨⟨queues'', taken⟩, taken.asserts ⟨held, covers', still listed⟩⟩

/-- A clean call returns. -/
theorem processUnbounded_returns (clear : Clean engine command) (sound : engine.Sound queues)
    (covered : Covered engine) : ∃ after, engine.processUnbounded command = .ok after := by
  cases ended : engine.processUnbounded command with
  | ok after => exact ⟨after, rfl⟩
  | error fault =>
    have spent : fault ≠ .exhausted := fun same =>
      processUnbounded_avoids sound (same ▸ ended)
    obtain same | ⟨id, index, held, -, removing⟩ | ⟨site, order, submits, handling⟩ :=
      processUnbounded_error sound ended
    · exact absurd same spent
    · obtain ⟨⟨queues', sound'⟩, asserts⟩ := During.asserts clear sound covered .command
      obtain ⟨stored, found, -⟩ := sound'.held held
      obtain ⟨after, removed⟩ := removeMaker_returns sound' asserts found
      exact absurd (removing.symm.trans removed) nofun
    · obtain ⟨⟨queues', sound'⟩, -⟩ := During.asserts clear sound covered (.site submits)
      obtain same | ⟨kind, checks, sweep, visits, stops⟩ := processNewOrder_error sound' handling
      · exact absurd same spent
      · have sweeps : Sweeps engine command site order sweep := ⟨submits, kind, checks, visits⟩
        obtain ⟨⟨queues'', sound''⟩, asserts⟩ := During.asserts clear sound covered (.sweep sweeps)
        obtain ⟨flow, returned⟩ := matchStep_returns sound'' asserts
          fun index maker taken left front live apart taking =>
            During.asserts clear sound covered (.filled sweeps left front live apart taking)
        exact absurd (stops.symm.trans returned) nofun

/-- In every run of clean calls no assertion of the book fails: each call returns, and none of its
assertions can fail where it looks at a level, removes an order or reduces one. -/
theorem book_asserts_in_clean_runs (config : InstrumentConfig) (engine : MatchingEngine config)
    (reached : Reaches config Clean engine) (command : Command) (clear : Clean engine command) :
    (∃ after, engine.processUnbounded command = .ok after) ∧
      ∀ state, During engine command state → Asserts state.book state.arena := by
  obtain ⟨⟨queues, sound⟩, covered⟩ := KeepsBook.reaches (fun _ _ => keepsCovered)
    (fun capacity => ⟨_, DepthCovers.new config capacity, Listed.new config capacity⟩) reached
  exact ⟨processUnbounded_returns clear sound covered,
    fun _ during => (during.asserts clear sound covered).2⟩

/-- A command after which no stop is pending, that posts a post-only order for which the depth
indices have room, or cancels an order at whose price they hold more than remains of it. -/
def tidy (engine : MatchingEngine config) (command : Command) : Bool :=
  match command, engine.clearEvents.dispatch command with
  | .newOrder _ order, .ok start =>
    start.stopBids.isEmpty && start.stopAsks.isEmpty && order.orderType == .postOnly &&
      decide ((engine.book.depthTotal order.side).toNat + order.qty.toNat < 2 ^ 64 ∧
        (engine.book.depth order.side).2.prices.length + 2 < 2 ^ 64)
  | .cancelOrder id, .ok start =>
    start.stopBids.isEmpty && start.stopAsks.isEmpty &&
      (engine.book.lookup id).all fun index => (engine.arena.find index).all fun order =>
        (engine.book.denseIndex order.price).isSome ||
          (engine.book.depth order.side).2.qtyAt order.price != order.remaining
  | _, _ => false

/-- Such a command is clean. -/
theorem clean_of_tidy (passes : tidy engine command = true) : Clean engine command := by
  unfold tidy at passes
  split at passes
  · rename_i instrumentId order start dispatched
    simp only [Bool.and_eq_true, List.isEmpty_iff, beq_iff_eq, decide_eq_true_eq] at passes
    obtain ⟨⟨⟨bids, asks⟩, posts⟩, room⟩ := passes
    have alone : engine.lone (.newOrder instrumentId order) = true := by
      simp [lone, dispatched, bids, asks]
    have submitted : ∀ {site order'}, Submits engine (.newOrder instrumentId order) site order' →
        site = engine.clearEvents ∧ order' = order := by
      intro site order' submits
      obtain ⟨rfl, instrumentId', asked⟩ := submits.of_lone alone
      exact ⟨rfl, (Command.newOrder.inj asked).2.symm⟩
    refine ⟨fun site order' qty rests => ?_, fun id index _ asked => ?_,
      fun site order' sweep index maker sweeps => ?_⟩
    · cases rests with
      | posted submits =>
        obtain ⟨rfl, rfl⟩ := submitted submits
        exact fun _ _ => room
      | remainder submits kind =>
        obtain ⟨-, rfl⟩ := submitted submits
        exact absurd posts kind.1
    · obtain impossible | ⟨_, _, impossible⟩ := asked <;> contradiction
    · obtain ⟨-, rfl⟩ := submitted sweeps.submits
      exact absurd posts sweeps.matched.1
  · rename_i id start dispatched
    simp only [Bool.and_eq_true, List.isEmpty_iff] at passes
    obtain ⟨⟨bids, asks⟩, kept⟩ := passes
    have silent : ∀ {site order}, ¬Submits engine (.cancelOrder id) site order := by
      rintro site order (asked | asked | ⟨dispatched', fired⟩)
      · contradiction
      · contradiction
      · rw [dispatched] at dispatched'
        obtain rfl := Except.ok.inj dispatched'
        exact fired.false_of_no_stops bids asks
    refine ⟨fun site order qty rests => ?_, fun id' index held asked order found outside same => ?_,
      fun site order sweep index maker sweeps => absurd sweeps.submits silent⟩
    · cases rests with
      | posted submits => exact absurd submits silent
      | remainder submits => exact absurd submits silent
    · obtain asked | ⟨_, _, impossible⟩ := asked
      · obtain rfl := Command.cancelOrder.inj asked
        have found' : engine.arena.find index = some order := found
        have held' : engine.book.lookup id = some index := held
        have outside' : engine.book.denseIndex order.price = none := outside
        have same' : (engine.book.depth order.side).2.qtyAt order.price = order.remaining := same
        simp [held', found', outside', same'] at kept
      · contradiction
  · contradiction

/-- One of two asks past the window is cancelled. -/
theorem book_asserts_of_two_asks : ∃ engine : MatchingEngine (smallConfig .cancelNewest),
    ((∃ after, engine.processUnbounded (.cancelOrder 1) = .ok after) ∧
      ∀ state, During engine (.cancelOrder 1) state → Asserts state.book state.arena) ∧
    (engine.book.lookup 1).isSome = true := by
  obtain ⟨engine, reached, shown⟩ := Reaches.exists_run Clean tidy
    (fun engine : MatchingEngine (smallConfig .cancelNewest) =>
      tidy engine (.cancelOrder 1) && (engine.book.lookup 1).isSome)
    (fun _ _ => clean_of_tidy) 8
    [.submit { NewOrder.gtc 1 .ask 9 5 with orderType := .postOnly },
      .submit { NewOrder.gtc 2 .ask 9 3 with orderType := .postOnly }] (by decide +kernel)
  rw [Bool.and_eq_true] at shown
  exact ⟨engine, book_asserts_in_clean_runs _ engine reached (.cancelOrder 1)
    (clean_of_tidy shown.1), shown.2⟩

/-- Of two post-only asks of quantity zero past the window, the first to be cancelled takes the
price from the index and the second one is not found there. -/
theorem book_asserts_fail_of_empty_asks :
    ¬∀ engine : MatchingEngine (smallConfig .cancelNewest), Reachable engine →
      engine.arena.totalResting < 2 ^ 64 → ∀ command,
      (∃ after, engine.processUnbounded command = .ok after) ∧
        ∀ state, During engine command state → Asserts state.book state.arena := by
  intro always
  obtain ⟨engine, reachable, shown⟩ := Reachable.exists_run
    (fun engine : MatchingEngine (smallConfig .cancelNewest) =>
      engine.arena.totalResting == 0 &&
        (engine.processUnbounded (.cancelOrder 2)).toOption.isNone) 8
    [.submit { NewOrder.gtc 1 .ask 9 0 with orderType := .postOnly },
      .submit { NewOrder.gtc 2 .ask 9 0 with orderType := .postOnly }, .cancelOrder 1]
    (by decide +kernel)
  obtain ⟨nothing, fails⟩ := (Bool.and_eq_true _ _).mp shown
  obtain ⟨⟨after, returned⟩, -⟩ := always engine reachable (by rw [beq_iff_eq.mp nothing]; decide)
    (.cancelOrder 2)
  rw [returned] at fails
  contradiction

end MatchingEngine

end MatchX
