import MatchX.Book.DepthExact
import MatchX.Engine.Feed
import MatchX.Engine.Termination

/-!
# Matching conserves quantity

A sweep moves quantity and makes none. What it takes from the taker it reports as filled or
decrements, and what an opposite order loses is what the reports tell of its fills and of its
cancellation, and the overlap. An iteration touches one order at most, that of the maker in
front, so the account of every order is kept iteration by iteration.
-/

namespace MatchX

open MatchX.Support

/-! ## What reports tell of makers -/

/-- The sum of what each of some reports tells. -/
def tally (told : EventBody → Nat) (bodies : List EventBody) : Nat := (bodies.map told).sum

/-- What one report tells of the fills of a maker. -/
def filledOf (id : OrderId) : EventBody → Nat
  | .fill makerId _ _ qty _ _ => if makerId = id then qty.toNat else 0
  | _ => 0

/-- What one report tells of the cancellation of an order. -/
def cancelledOf (id : OrderId) : EventBody → Nat
  | .orderCancelled cancelled left => if cancelled = id then left.toNat else 0
  | _ => 0

/-- What one report tells of cancellations. -/
def cancelledQty : EventBody → Nat
  | .orderCancelled _ left => left.toNat
  | _ => 0

section Tally

variable {told : EventBody → Nat} {early late : List EventBody} {body : EventBody}

/-- Nothing is told by no reports. -/
@[simp] theorem tally_nil : tally told [] = 0 := rfl

/-- What a report and those behind it tell. -/
@[simp] theorem tally_cons : tally told (body :: late) = told body + tally told late := rfl

/-- What reports in a row tell. -/
@[simp] theorem tally_append : tally told (early ++ late) = tally told early + tally told late := by
  simp [tally]

end Tally

/-! ## The account of an order -/

/-- How an order stands, when it still rests and when it does not, after quantities of it were
filled, cancelled and decremented: a cancelled order is gone, a kept one is filled further by
what was filled and decremented, and of one that is gone nothing is missing. -/
def Accounted (before : Order) (now : Option Order) (filled cancelled overlap : Nat) : Prop :=
  match now with
  | some after =>
    cancelled = 0 ∧ ∃ delta ≤ before.remaining, delta.toNat = filled + overlap ∧
      after = before.fill delta
  | none => filled + cancelled + overlap = before.remaining.toNat

section Accounts

variable {before between : Order} {now : Option Order}
  {filled cancelled overlap filled' cancelled' : Nat}

/-- An order that nothing happened to is accounted for. -/
theorem Accounted.refl (order : Order) : Accounted order (some order) 0 0 0 :=
  ⟨rfl, 0, UInt64.zero_le, rfl, (Order.fill_zero order).symm⟩

/-- Accounts compose, when the order is not overfilled. -/
theorem Accounted.trans (sound : before.filled ≤ before.quantity)
    (first : Accounted before (some between) filled cancelled 0)
    (second : Accounted between now filled' cancelled' overlap) :
    Accounted before now (filled + filled') (cancelled + cancelled') overlap := by
  obtain ⟨rfl, delta, bound, amount, rfl⟩ := first
  have less := (Order.fill_sound sound bound).2
  have most := UInt64.le_iff_toNat_le.mp bound
  have left : (before.fill delta).remaining.toNat = before.remaining.toNat - delta.toNat := by
    rw [less, UInt64.toNat_sub_of_le _ _ bound]
  cases now with
  | none =>
    have rest : filled' + cancelled' + overlap = (before.fill delta).remaining.toNat := second
    show filled + filled' + (0 + cancelled') + overlap = before.remaining.toNat
    omega
  | some after =>
    obtain ⟨rfl, delta', bound', amount', rfl⟩ := second
    have most' := UInt64.le_iff_toNat_le.mp bound'
    have cap := before.remaining.toNat_lt
    have sum : (delta + delta').toNat = delta.toNat + delta'.toNat := by
      rw [UInt64.toNat_add]
      omega
    refine ⟨rfl, delta + delta', ?_, by omega, ?_⟩
    · rw [UInt64.le_iff_toNat_le]
      omega
    · simp only [Order.fill, UInt64.add_assoc]

/-- No more of an order is filled and decremented than what remained of it. -/
theorem Accounted.bound (accounted : Accounted before now filled cancelled overlap) :
    filled + overlap ≤ before.remaining.toNat := by
  cases now with
  | none =>
    have whole : filled + cancelled + overlap = before.remaining.toNat := accounted
    omega
  | some after =>
    obtain ⟨-, delta, bound, amount, -⟩ := accounted
    rw [← amount]
    exact UInt64.le_iff_toNat_le.mp bound

/-- An order that still rests is filled further by what was filled and decremented, and is
otherwise what it was. -/
theorem Accounted.kept {after : Order} (sound : before.filled ≤ before.quantity)
    (accounted : Accounted before (some after) filled cancelled overlap) :
    after = { before with filled := after.filled } ∧
      after.filled.toNat = before.filled.toNat + filled + overlap ∧ cancelled = 0 := by
  obtain ⟨none, delta, bound, amount, rfl⟩ := accounted
  have most := UInt64.le_iff_toNat_le.mp bound
  have left := Order.toNat_remaining sound
  have cap := before.quantity.toNat_lt
  have base := UInt64.le_iff_toNat_le.mp sound
  refine ⟨rfl, ?_, none⟩
  rw [Order.fill_filled, UInt64.toNat_add]
  omega

/-- What remains of an order, nothing once it is gone, and what its account tells sum to what
remained of it. -/
theorem Accounted.balance (sound : before.filled ≤ before.quantity)
    (accounted : Accounted before now filled cancelled overlap) :
    (now.map fun after => after.remaining.toNat).getD 0 + filled + cancelled + overlap =
      before.remaining.toNat := by
  cases now with
  | none =>
    have whole : filled + cancelled + overlap = before.remaining.toNat := accounted
    simpa using whole
  | some after =>
    obtain ⟨rfl, delta, bound, amount, rfl⟩ := accounted
    have most := UInt64.le_iff_toNat_le.mp bound
    have less := (Order.fill_sound sound bound).2
    rw [Option.map_some, Option.getD_some, less, UInt64.toNat_sub_of_le _ _ bound]
    omega

end Accounts

namespace MatchingEngine

variable {config : InstrumentConfig} {engine : MatchingEngine config} {queues : Queues}
  {taker : Taker} {sweep start : Sweep config} {result : SweepResult config}
  {flow : Flow (Sweep config) (SweepResult config)} {index : ArenaIndex} {maker before : Order}
  {written : Option Order} {filled cancelled overlap : Nat}

/-! ## One iteration -/

/-- An iteration writes the slot of the maker in front, and its reports and its overlap account
for what it writes. -/
structure Touches (taker : Taker) (queues : Queues) (sweep : Sweep config)
    (flow : Flow (Sweep config) (SweepResult config)) (index : ArenaIndex) (maker : Order)
    (written : Option Order) (filled cancelled overlap : Nat) : Prop where
  /-- The maker is in front. -/
  front : ∃ price, Front taker sweep.engine queues price index maker
  /-- Its slot is written and no other. -/
  resting : ∀ j, (flowEngine flow).arena.resting j =
    if j = index then written else sweep.engine.arena.resting j
  /-- What is written is accounted for. -/
  accounted : Accounted maker.unlinked written filled cancelled overlap
  /-- The reports tell of the fill of no other maker. -/
  fills : ∀ id, tally (filledOf id) (emittedSince sweep.engine (flowEngine flow)) =
    if id = maker.id then filled else 0
  /-- The reports tell of the cancellation of no other maker. -/
  cancels : ∀ id, tally (cancelledOf id) (emittedSince sweep.engine (flowEngine flow)) =
    if id = maker.id then cancelled else 0
  /-- The taker is filled by what the maker is. -/
  takes : takerFills taker.id (emittedSince sweep.engine (flowEngine flow)) = filled
  /-- What is cancelled is the maker's. -/
  cancelled : tally cancelledQty (emittedSince sweep.engine (flowEngine flow)) = cancelled
  /-- The overlap is the one of the iteration. -/
  overlap : (decrementAt taker sweep).toNat = overlap

/-- An iteration changes no order, reports nothing and decrements nothing, or it touches the
maker in front. -/
theorem Iteration.touches (sound : sweep.engine.Sound queues)
    (iteration : Iteration taker queues sweep flow) :
    ((flowEngine flow).arena = sweep.engine.arena ∧
      emittedSince sweep.engine (flowEngine flow) = [] ∧ decrementAt taker sweep = 0) ∨
    ∃ index maker written filled cancelled overlap,
      Touches taker queues sweep flow index maker written filled cancelled overlap := by
  cases iteration with
  | exhausted spent =>
    have idle : decrementAt taker sweep = 0 := decrementAt_filled spent
    exact .inl ⟨rfl, by simp [flowEngine, emittedSince], idle⟩
  | unmatched _ refused =>
    have idle : decrementAt taker sweep = 0 := by
      simp [decrementAt, frontMaker_eq_none refused]
    exact .inl ⟨rfl, by simp [flowEngine, emittedSince], idle⟩
  | newest _ front _ _ mode =>
    have idle := decrementAt_eq_zero sound.rep front fun all => by simp [mode] at all
    exact .inl ⟨rfl, by simp [flowEngine, emittedSince], idle⟩
  | @stale price index maker book arena _ front spent removed =>
    have idle := decrementAt_eq_zero sound.rep front fun all => all.2.1 spent
    refine .inr ⟨index, maker, none, 0, 0, 0, ⟨price, front⟩, removed.resting, ?_, ?_, ?_, ?_, ?_, ?_⟩
    · simp [Accounted, spent]
    all_goals simp [flowEngine, emittedSince, idle]
  | @oldest price index maker book arena _ front _ _ mode removed =>
    have idle := decrementAt_eq_zero sound.rep front fun all => by simp [mode] at all
    refine .inr ⟨index, maker, none, 0, maker.remaining.toNat, 0, ⟨price, front⟩, removed.resting,
      ?_, ?_, ?_, ?_, ?_, ?_⟩
    · simp [Accounted]
    all_goals simp [flowEngine, emittedSince, idle, filledOf, cancelledOf, cancelledQty, filledBy,
      eq_comm]
  | @both price index maker book arena _ front _ _ mode removed =>
    have idle := decrementAt_eq_zero sound.rep front fun all => by simp [mode] at all
    refine .inr ⟨index, maker, none, 0, maker.remaining.toNat, 0, ⟨price, front⟩, removed.resting,
      ?_, ?_, ?_, ?_, ?_, ?_⟩
    · simp [Accounted]
    all_goals simp [flowEngine, emittedSince, idle, filledOf, cancelledOf, cancelledQty, filledBy,
      eq_comm]
  | @decrementAll price index maker book arena left front live group mode whole removed =>
    have overlap := decrementAt_eq_min sound.rep front ⟨left, live, group, mode⟩
    rw [min_of_le whole] at overlap
    refine .inr ⟨index, maker, none, 0, 0, maker.remaining.toNat, ⟨price, front⟩, removed.resting,
      ?_, ?_, ?_, ?_, ?_, ?_⟩
    · simp [Accounted]
    all_goals simp [flowEngine, emittedSince, overlap, filledOf, cancelledOf, cancelledQty, filledBy]
  | @decrementPart price index maker book arena left front group mode part taken depth =>
    have live : maker.remaining ≠ 0 := word_ne_zero_of_lt part
    have overlap := decrementAt_eq_min sound.rep front ⟨left, live, group, mode⟩
    rw [Std.min_eq_if, if_pos (UInt64.le_of_lt part)] at overlap
    refine .inr ⟨index, maker, some (maker.unlinked.fill sweep.remaining), 0, 0,
      sweep.remaining.toNat, ⟨price, front⟩, taken.resting, ?_, ?_, ?_, ?_, ?_, ?_⟩
    · exact ⟨rfl, _, UInt64.le_of_lt part, (Nat.zero_add _).symm, rfl⟩
    all_goals simp [flowEngine, emittedSince, overlap, filledOf, cancelledOf, cancelledQty, filledBy]
  | @fillPart price index maker book arena left front apart part taken depth =>
    have idle := decrementAt_eq_zero sound.rep front fun all => by simp [apart] at all
    refine .inr ⟨index, maker, _, (min sweep.remaining maker.matchableQty).toNat, 0, 0,
      ⟨price, front⟩, taken.resting, ?_, ?_, ?_, ?_, ?_, ?_⟩
    · exact ⟨rfl, _, UInt64.le_of_lt part, rfl, rfl⟩
    all_goals simp [flowEngine, emittedSince, idle, filledOf, cancelledOf, cancelledQty, filledBy,
      eq_comm]
  | @fillAll price index maker book arena book' arena' left front live apart whole taken depth
      removed =>
    have idle := decrementAt_eq_zero sound.rep front fun all => by simp [apart] at all
    refine .inr ⟨index, maker, none, maker.remaining.toNat, 0, 0, ⟨price, front⟩, fun j => ?_,
      ?_, ?_, ?_, ?_, ?_, ?_⟩
    · show arena'.resting j = _
      rw [removed.resting, taken.resting]
      by_cases here : j = index
      · rw [if_pos here, if_pos here]
      · rw [if_neg here, if_neg here, if_neg here]
    · simp [Accounted]
    all_goals simp [flowEngine, emittedSince, idle, filledOf, cancelledOf, cancelledQty, filledBy,
      eq_comm]

/-- The overlap by which an iteration decrements the maker of an id. -/
def decrementOf (taker : Taker) (sweep : Sweep config) (id : OrderId) : Nat :=
  match frontMaker taker sweep.engine with
  | some (_, maker) => if id = maker.id then (decrementAt taker sweep).toNat else 0
  | none => 0

/-- Without an overlap no maker is decremented. -/
theorem decrementOf_idle {id : OrderId} (idle : decrementAt taker sweep = 0) :
    decrementOf taker sweep id = 0 := by
  unfold decrementOf
  split
  · rw [idle, UInt64.toNat_zero, ite_self]
  · rfl

/-- Only the maker in front is decremented. -/
theorem Touches.decrementOf {id : OrderId} (sound : sweep.engine.Sound queues)
    (touches : Touches taker queues sweep flow index maker written filled cancelled overlap) :
    MatchingEngine.decrementOf taker sweep id = if id = maker.id then overlap else 0 := by
  obtain ⟨price, front⟩ := touches.front
  simp only [MatchingEngine.decrementOf, front.frontMaker_eq sound.rep, touches.overlap]

/-- An iteration keeps the account of every order that rested at an earlier engine. -/
theorem Iteration.account {queues' : Queues} {i : ArenaIndex} (begins : engine.Sound queues')
    (shrinks : engine.arena.Shrinks sweep.engine.arena) (sound : sweep.engine.Sound queues)
    (iteration : Iteration taker queues sweep flow) (rested : engine.arena.resting i = some before)
    (accounted : Accounted before (sweep.engine.arena.resting i) filled cancelled 0) :
    Accounted before ((flowEngine flow).arena.resting i)
      (filled + tally (filledOf before.id) (emittedSince sweep.engine (flowEngine flow)))
      (cancelled + tally (cancelledOf before.id) (emittedSince sweep.engine (flowEngine flow)))
      (decrementOf taker sweep before.id) := by
  rcases iteration.touches sound with ⟨same, quiet, idle⟩ | ⟨index, maker, written, _, _, _, touches⟩
  · rw [same, quiet, decrementOf_idle idle]
    exact accounted
  · obtain ⟨price, front⟩ := touches.front
    have here := Arena.resting_of_find front.found
    rw [touches.resting, touches.fills, touches.cancels, touches.decrementOf sound]
    by_cases met : i = index
    · subst met
      rw [here] at accounted
      have named : before.id = maker.id := by
        obtain ⟨-, delta, -, -, same⟩ := accounted
        exact (congrArg Order.id same).symm
      rw [if_pos rfl, if_pos named, if_pos named, if_pos named]
      exact accounted.trans (begins.rep.sound rested) touches.accounted
    · -- The maker in front rested in its slot before, and no two orders shared an id.
      have named : before.id ≠ maker.id := by
        intro same
        obtain ⟨earlier, delta, rested', -, filled'⟩ := shrinks index _ here
        have kept := congrArg Order.id filled'
        exact met (begins.rep.slot_unique rested rested' (same.trans kept))
      rw [if_neg met, if_neg named, if_neg named, if_neg named]
      exact accounted

/-- What rests opposite to the taker before an iteration is what rests there after it, what it
fills and cancels, and the overlap. -/
theorem Iteration.total (sound : sweep.engine.Sound queues)
    (iteration : Iteration taker queues sweep flow) :
    sweep.engine.arena.sumResting taker.side.opposite (fun _ => true) =
      (flowEngine flow).arena.sumResting taker.side.opposite (fun _ => true) +
        takerFills taker.id (emittedSince sweep.engine (flowEngine flow)) +
        tally cancelledQty (emittedSince sweep.engine (flowEngine flow)) +
        (decrementAt taker sweep).toNat := by
  obtain ⟨queues', sound'⟩ := iteration.sound sound
  rcases iteration.touches sound with ⟨same, quiet, idle⟩ | ⟨index, maker, written, _, _, _, touches⟩
  · rw [same, quiet, idle]
    rfl
  · obtain ⟨price, front⟩ := touches.front
    have here := Arena.resting_of_find front.found
    have proper := sound.rep.sound here
    have changed := Arena.weigh_written sound.rep.slots sound'.rep.slots touches.resting
      fun order => if order.side = taker.side.opposite ∧ true = true then order.remaining.toNat else 0
    have balance := touches.accounted.balance proper
    have weight : (written.map fun order =>
        if order.side = taker.side.opposite ∧ true = true then order.remaining.toNat else 0).getD 0 =
          (written.map fun order => order.remaining.toNat).getD 0 := by
      cases written with
      | none => rfl
      | some after =>
        obtain ⟨-, delta, -, -, rfl⟩ := touches.accounted
        simp [front.onSide]
    rw [weight, here, Option.map_some, Option.getD_some, Order.unlinked_side,
      if_pos ⟨front.onSide, rfl⟩] at changed
    rw [Arena.sumResting_eq, Arena.sumResting_eq, touches.takes, touches.cancelled, touches.overlap]
    omega

/-! ## The other side -/

/-- No side is its own opposite. -/
theorem opposite_ne (side : Side) : side ≠ side.opposite := by cases side <;> decide

/-- A side of the book, with its queues, and the stops are the same in two engines. -/
structure SideKept (side : Side) (engine : MatchingEngine config) (queues : Queues)
    (after : MatchingEngine config) (queues' : Queues) : Prop where
  /-- The queues of the side are the same. -/
  queue : ∀ price, queues' side price = queues side price
  /-- The same orders rest on the side, in the same slots. -/
  resting : ∀ i order, order.side = side →
    (after.arena.resting i = some order ↔ engine.arena.resting i = some order)
  /-- The best price is the same. -/
  best : after.book.best side = engine.book.best side
  /-- The depth index is the same. -/
  depth : after.book.depth side = engine.book.depth side
  /-- The buy stops are the same. -/
  stopBids : after.stopBids = engine.stopBids
  /-- The sell stops are the same. -/
  stopAsks : after.stopAsks = engine.stopAsks

section OtherSide

variable {ticks : UInt32} {book book' : OrderBook ticks} {arena arena' : Arena} {order : Order}
  {side : Side} {delta : UInt64}

/-- Writing the slot of an order leaves the orders of the other side as they are. -/
theorem resting_other (found : arena.resting index = some order) (apart : side ≠ order.side)
    (proper : ∀ after, written = some after → after.side = order.side)
    (rests : ∀ j, arena'.resting j = if j = index then written else arena.resting j)
    (i : ArenaIndex) (stored : Order) (onSide : stored.side = side) :
    arena'.resting i = some stored ↔ arena.resting i = some stored := by
  rw [rests]
  by_cases here : i = index
  · rw [if_pos here, here, found]
    constructor
    · intro after
      exact absurd (onSide.symm.trans (proper stored after)) apart
    · intro before
      exact absurd (onSide.symm.trans (congrArg Order.side (Option.some.inj before)).symm) apart
  · rw [if_neg here]

/-- A removal leaves the other side as it is. -/
theorem Removed.other_side (removed : Removed book arena queues order index book' arena')
    (apart : side ≠ order.side) :
    (∀ price, queues.delete order index side price = queues side price) ∧
      (∀ i stored, stored.side = side →
        (arena'.resting i = some stored ↔ arena.resting i = some stored)) ∧
      book'.best side = book.best side ∧ book'.depth side = book.depth side := by
  obtain ⟨lowered, returned, depth⟩ := removed.depth
  refine ⟨fun price => ?_, ?_, ?_, ?_⟩
  · exact Queues.set_other fun here => apart here.1
  · exact resting_other removed.found apart (fun after none => by contradiction) removed.resting
  · rw [removed.best, if_neg fun here => apart here.1]
  · rw [depth, OrderBook.depth_depthRemove_other apart returned]

/-- Taking a quantity leaves the other side as it is, apart from the depth. -/
theorem Taken.other_side (taken : Taken book arena queues order index delta book' arena')
    (apart : side ≠ order.side) :
    (∀ i stored, stored.side = side →
      (arena'.resting i = some stored ↔ arena.resting i = some stored)) ∧
      book'.best side = book.best side := by
  refine ⟨resting_other taken.found apart ?_ taken.resting, taken.best side⟩
  intro after written
  rw [← Option.some.inj written]
  rfl

end OtherSide

/-- An iteration leaves the taker's own side and the stops as they are. -/
theorem Iteration.sideKept (sound : sweep.engine.Sound queues)
    (iteration : Iteration taker queues sweep flow) :
    ∃ queues', (flowEngine flow).Sound queues' ∧
      SideKept taker.side sweep.engine queues (flowEngine flow) queues' := by
  have apart : ∀ {price index maker}, Front taker sweep.engine queues price index maker →
      taker.side ≠ maker.unlinked.side := fun front => by
    rw [Order.unlinked_side, front.onSide]
    exact opposite_ne taker.side
  have idle : SideKept taker.side sweep.engine queues sweep.engine queues :=
    ⟨fun _ => rfl, fun _ _ _ => Iff.rfl, rfl, rfl, rfl, rfl⟩
  cases iteration with
  | exhausted | unmatched | newest => exact ⟨queues, sound, idle⟩
  | stale _ front _ removed | oldest _ front _ _ _ removed | both _ front _ _ _ removed
  | decrementAll _ front _ _ _ _ removed =>
    obtain ⟨queue, resting, best, depth⟩ := Removed.other_side removed (apart front)
    exact ⟨_, ⟨removed.represents, removed.tracks sound.tracks⟩, queue, resting, best, depth, rfl, rfl⟩
  | decrementPart _ front _ _ _ taken lower =>
    obtain ⟨resting, best⟩ := Taken.other_side taken (apart front)
    obtain ⟨lowered, returned, depth⟩ := lower
    refine ⟨queues, ⟨taken.represents, taken.tracks sound.tracks⟩, fun _ => rfl, resting, best, ?_,
      rfl, rfl⟩
    exact (depth taker.side).trans (OrderBook.depth_depthRemove_other (apart front) returned)
  | fillPart _ front _ _ taken depth =>
    obtain ⟨resting, best⟩ := Taken.other_side taken (apart front)
    exact ⟨queues, ⟨taken.represents, taken.tracks sound.tracks⟩, fun _ => rfl, resting, best,
      depth taker.side, rfl, rfl⟩
  | fillAll _ front _ _ _ taken depth removed =>
    obtain ⟨resting, best⟩ := Taken.other_side taken (apart front)
    have apart' := apart front
    rw [Order.unlinked_side, ← Order.fill_side _ _, ← Order.unlinked_side] at apart'
    obtain ⟨queue, resting', best', depth'⟩ := Removed.other_side removed apart'
    refine ⟨_, ⟨removed.represents, removed.tracks (taken.tracks sound.tracks)⟩, queue, ?_,
      best'.trans best, depth'.trans (depth taker.side), rfl, rfl⟩
    intro i order onSide
    exact (resting' i order onSide).trans (resting i order onSide)

/-! ## The fills that are reported -/

/-- A fill, told of behind the early reports of a sweep, is of the taker and of an opposite order
at its price, is not empty, and tells what remains of both after it. -/
structure FillTold (engine : MatchingEngine config) (taker : Taker) (qty : UInt64)
    (early : List EventBody) (makerId takerId : OrderId)
    (price fillQty makerLeft takerLeft : UInt64) : Prop where
  /-- Something is filled. -/
  positive : 1 ≤ fillQty
  /-- The taker is named. -/
  ofTaker : takerId = taker.id
  /-- What remains of the taker is what its fills so far leave. -/
  takerLeft : takerFills taker.id early + fillQty.toNat + takerLeft.toNat = qty.toNat
  /-- What remains of the maker is what its fills so far leave. -/
  makerLeft : ∃ i before, engine.arena.resting i = some before ∧
    before.side = taker.side.opposite ∧ before.id = makerId ∧ before.price = price ∧
    tally (filledOf makerId) early + fillQty.toNat + makerLeft.toNat = before.remaining.toNat

/-- Every fill among the reports of a sweep is told right. -/
def FillsTold (engine : MatchingEngine config) (taker : Taker) (qty : UInt64)
    (reports : List EventBody) : Prop :=
  ∀ early late makerId takerId price fillQty makerLeft takerLeft,
    reports = early ++ .fill makerId takerId price fillQty makerLeft takerLeft :: late →
    FillTold engine taker qty early makerId takerId price fillQty makerLeft takerLeft

/-- Of two reports, one that is not the second is the first. -/
theorem first_of_pair {first second body : EventBody} {early late : List EventBody}
    (apart : second ≠ body) (parts : [first, second] = early ++ body :: late) :
    early = [] ∧ body = first := by
  cases early with
  | nil => exact ⟨rfl, (List.cons.inj parts).1.symm⟩
  | cons head rest =>
    have behind := (List.cons.inj parts).2
    cases rest with
    | nil => exact absurd (List.cons.inj behind).1 apart
    | cons head rest => simp at behind

/-- A fill that an iteration reports comes first, is of the maker in front, and tells what remains
of both sides. -/
theorem Iteration.fill_told (iteration : Iteration taker queues sweep flow)
    {early late : List EventBody} {makerId takerId : OrderId}
    {price fillQty makerLeft takerLeft : UInt64}
    (told : emittedSince sweep.engine (flowEngine flow) =
      early ++ .fill makerId takerId price fillQty makerLeft takerLeft :: late) :
    early = [] ∧ takerId = taker.id ∧ 1 ≤ fillQty ∧
      fillQty.toNat + takerLeft.toNat = sweep.remaining.toNat ∧
      ∃ index maker, Front taker sweep.engine queues price index maker ∧ makerId = maker.id ∧
        fillQty.toNat + makerLeft.toNat = maker.remaining.toNat := by
  have positive : ∀ {qty : UInt64}, qty ≠ 0 → 1 ≤ qty := fun {qty} live => by
    rw [UInt64.le_iff_toNat_le]
    exact Nat.pos_of_ne_zero fun none => live (UInt64.toNat_inj.mp none)
  have split : ∀ {small large : UInt64}, small ≤ large →
      small.toNat + (large - small).toNat = large.toNat := fun ordered => by
    have := UInt64.le_iff_toNat_le.mp ordered
    rw [UInt64.toNat_sub_of_le _ _ ordered]
    omega
  have member : .fill makerId takerId price fillQty makerLeft takerLeft ∈
      emittedSince sweep.engine (flowEngine flow) := by
    rw [told]
    exact List.mem_append_right _ List.mem_cons_self
  cases iteration with
  | exhausted | unmatched | newest | stale | oldest | both | decrementAll | decrementPart =>
    simp [emittedSince, flowEngine] at member
  | @fillPart price index maker book arena left front apart part taken depth =>
    have live : maker.remaining ≠ 0 := word_ne_zero_of_lt part
    simp only [emittedSince, flowEngine, emitLevel_bodies, traded_bodies, emit_bodies,
      withBook_bodies, List.append_assoc, List.drop_left, List.cons_append, List.nil_append] at told
    obtain ⟨rfl, same⟩ := first_of_pair (by simp) told
    obtain ⟨rfl, rfl, rfl, rfl, rfl, rfl⟩ := EventBody.fill.inj same
    refine ⟨rfl, rfl, positive ?_, split Std.min_le_left, _, _, front, rfl,
      split (UInt64.le_of_lt part)⟩
    rw [Std.min_eq_if]
    split
    · exact left
    · exact Order.matchableQty_ne_zero live
  | fillAll left front live apart whole taken depth removed =>
    simp only [emittedSince, flowEngine, emitLevel_bodies, traded_bodies, emit_bodies,
      withBook_bodies, List.append_assoc, List.drop_left, List.cons_append, List.nil_append] at told
    obtain ⟨rfl, same⟩ := first_of_pair (by simp) told
    obtain ⟨rfl, rfl, rfl, rfl, rfl, rfl⟩ := EventBody.fill.inj same
    exact ⟨rfl, rfl, positive live, split (whole ▸ Std.min_le_left), _, _, front, rfl, rfl⟩

/-! ## A whole sweep -/

/-- The books of a sweep balance at an engine that it gets to, when it has decremented the taker by
an overlap and the maker of each id by its share of it. -/
structure Balanced (taker : Taker) (start : Sweep config) (queues : Queues)
    (after : MatchingEngine config) (remaining overlap : UInt64) (overlapOf : OrderId → Nat) :
    Prop where
  /-- Nothing reported is taken back. -/
  reported : Extends start.engine after
  /-- Orders are filled further or gone, and none is new. -/
  shrinks : start.engine.arena.Shrinks after.arena
  /-- The taker's side and the stops are as they were. -/
  side : ∃ queues', after.Sound queues' ∧
    SideKept taker.side start.engine queues after queues'
  /-- What the taker has lost is filled or decremented. -/
  balance : takerFills taker.id (emittedSince start.engine after) + overlap.toNat +
    remaining.toNat = start.remaining.toNat
  /-- Every order is accounted for. -/
  accounts : ∀ i before, start.engine.arena.resting i = some before →
    Accounted before (after.arena.resting i)
      (tally (filledOf before.id) (emittedSince start.engine after))
      (tally (cancelledOf before.id) (emittedSince start.engine after)) (overlapOf before.id)
  /-- What the other side has lost is filled, cancelled or decremented. -/
  total : start.engine.arena.sumResting taker.side.opposite (fun _ => true) =
    after.arena.sumResting taker.side.opposite (fun _ => true) +
      takerFills taker.id (emittedSince start.engine after) +
      tally cancelledQty (emittedSince start.engine after) + overlap.toNat
  /-- Every fill is told right. -/
  fills : FillsTold start.engine taker start.remaining (emittedSince start.engine after)

/-- The books balance before the first iteration. -/
theorem Balanced.refl (sound : start.engine.Sound queues) :
    Balanced taker start queues start.engine start.remaining 0 fun _ => 0 := by
  have none : emittedSince start.engine start.engine = [] := by simp [emittedSince]
  refine ⟨List.prefix_rfl, Arena.Shrinks.refl _, ⟨queues, sound, ?_⟩, ?_, ?_, ?_, ?_⟩
  · exact ⟨fun _ => rfl, fun _ _ _ => Iff.rfl, rfl, rfl, rfl, rfl⟩
  · simp [none]
  · intro i before rested
    rw [rested, none]
    exact Accounted.refl before
  · simp [none]
  · intro early late makerId takerId price fillQty makerLeft takerLeft parts
    rw [none] at parts
    simp at parts

/-- The other side of the books kept along two steps. -/
theorem SideKept.trans {side : Side} {between after : MatchingEngine config}
    {queues' queues'' : Queues} (first : SideKept side engine queues between queues')
    (second : SideKept side between queues' after queues'') :
    SideKept side engine queues after queues'' where
  queue price := (second.queue price).trans (first.queue price)
  resting i order onSide := (second.resting i order onSide).trans (first.resting i order onSide)
  best := second.best.trans first.best
  depth := second.depth.trans first.depth
  stopBids := second.stopBids.trans first.stopBids
  stopAsks := second.stopAsks.trans first.stopAsks

/-- The fills of more iterations are told right when those of the last one are. -/
theorem FillsTold.append {qty : UInt64} {reports further : List EventBody}
    (told : FillsTold engine taker qty reports)
    (later : ∀ early late makerId takerId price fillQty makerLeft takerLeft,
      further = early ++ .fill makerId takerId price fillQty makerLeft takerLeft :: late →
      FillTold engine taker qty (reports ++ early) makerId takerId price fillQty makerLeft
        takerLeft) :
    FillsTold engine taker qty (reports ++ further) := by
  intro early late makerId takerId price fillQty makerLeft takerLeft parts
  rcases List.append_eq_append_iff.mp parts with ⟨between, rfl, behind⟩ | ⟨between, rfl, behind⟩
  · exact later _ _ _ _ _ _ _ _ behind
  · cases between with
    | nil =>
      rw [List.nil_append] at behind
      have first := later [] late makerId takerId price fillQty makerLeft takerLeft behind.symm
      simpa using first
    | cons body rest =>
      obtain ⟨rfl, rfl⟩ := List.cons.inj behind
      exact told _ _ _ _ _ _ _ _ rfl

/-- An iteration keeps the books balanced. -/
theorem Iteration.balanced (begins : start.engine.Sound queues)
    (balanced : Balanced taker start queues sweep.engine sweep.remaining 0 fun _ => 0)
    (step : matchStep taker sweep = .ok flow) :
    Balanced taker start queues (flowEngine flow) (flowRemaining flow) (decrementAt taker sweep)
      (decrementOf taker sweep) := by
  obtain ⟨queues', sound, side⟩ := balanced.side
  have iteration := matchStep_cases sound step
  have further : Extends sweep.engine (flowEngine flow) := iteration.extends
  have since := emittedSince_trans balanced.reported further
  have spent := balanced.balance
  have step' := iteration.balance sound
  have before := balanced.total
  have lost := iteration.total sound
  rw [UInt64.toNat_zero] at spent before
  obtain ⟨queues'', sound', side'⟩ := iteration.sideKept sound
  refine ⟨balanced.reported.trans further,
    balanced.shrinks.trans begins.rep.toQueued (iteration.shrinks sound),
    ⟨queues'', sound', side.trans side'⟩, ?_, ?_, ?_, ?_⟩
  · rw [since, takerFills_append]
    omega
  · intro i before rested
    rw [since, tally_append, tally_append]
    exact iteration.account begins balanced.shrinks sound rested (balanced.accounts i before rested)
  · rw [since, takerFills_append, tally_append]
    omega
  · rw [since]
    refine balanced.fills.append fun early late makerId takerId price fillQty makerLeft takerLeft
      parts => ?_
    obtain ⟨rfl, ofTaker, positive, left, index, maker, front, rfl, left'⟩ := iteration.fill_told parts
    have here := Arena.resting_of_find front.found
    obtain ⟨first, delta, rested, bound, same⟩ := balanced.shrinks index _ here
    have accounted := balanced.accounts index first rested
    rw [here] at accounted
    have sums := accounted.balance (begins.rep.sound rested)
    have named : maker.id = first.id := by
      have kept := congrArg Order.id same
      exact kept
    have cancelled := (accounted.kept (begins.rep.sound rested)).2.2
    rw [Option.map_some, Option.getD_some, Order.unlinked_remaining] at sums
    rw [List.append_nil]
    refine ⟨positive, ofTaker, by omega, index, first, rested, ?_, named.symm, ?_, ?_⟩
    · exact (congrArg Order.side same).symm.trans front.onSide
    · exact (congrArg Order.price same).symm.trans front.atPrice
    · rw [named]
      omega

/-- The books balance at every state that a sweep visits. -/
theorem visits_balanced (sound : start.engine.Sound queues)
    (visits : Visits (matchStep taker) start sweep) :
    Balanced taker start queues sweep.engine sweep.remaining 0 fun _ => 0 := by
  induction visits with
  | refl => exact Balanced.refl sound
  | @tail last following seen step ih =>
    obtain ⟨queues', sound', -⟩ := ih.side
    have idle := (matchStep_cases sound' step).decrementAt_next sound'
    have balanced := Iteration.balanced sound ih step
    have none : decrementOf taker last = fun _ => 0 := funext fun id => decrementOf_idle idle
    rw [idle, none] at balanced
    exact balanced

/-- What a call of `match_against_book` conserves, where `last` is the state in which its last
iteration begins, the only one with an overlap. -/
structure Conserves (taker : Taker) (engine : MatchingEngine config) (qty : UInt64)
    (last : Sweep config) (result : SweepResult config) : Prop where
  /-- What the taker has lost is what is filled, and the overlap. -/
  taken : takerFills taker.id (emittedSince engine result.engine) +
    (decrementAt taker last).toNat + result.remaining.toNat = qty.toNat
  /-- An opposite order that still rests is filled further by its fills and its share of the
  overlap, and is otherwise what it was. -/
  kept : ∀ i before after, engine.arena.resting i = some before →
    before.side = taker.side.opposite → result.engine.arena.resting i = some after →
    after = { before with filled := after.filled } ∧
      after.filled.toNat = before.filled.toNat +
        tally (filledOf before.id) (emittedSince engine result.engine) +
        decrementOf taker last before.id
  /-- So it is at every state before the last iteration, also for one that is gone later. -/
  keptSoFar : ∀ sweep i before after, Visits (matchStep taker) ⟨engine, qty⟩ sweep →
    engine.arena.resting i = some before → before.side = taker.side.opposite →
    sweep.engine.arena.resting i = some after →
    after = { before with filled := after.filled } ∧
      after.filled.toNat = before.filled.toNat +
        tally (filledOf before.id) (emittedSince engine sweep.engine)
  /-- Of an opposite order that is gone, nothing is missing. -/
  gone : ∀ i before, engine.arena.resting i = some before → before.side = taker.side.opposite →
    result.engine.arena.resting i = none →
    tally (filledOf before.id) (emittedSince engine result.engine) +
        tally (cancelledOf before.id) (emittedSince engine result.engine) +
        decrementOf taker last before.id =
      before.remaining.toNat
  /-- No more of an opposite order is filled and decremented than remained of it. -/
  bounded : ∀ i before, engine.arena.resting i = some before →
    before.side = taker.side.opposite →
    tally (filledOf before.id) (emittedSince engine result.engine) +
      decrementOf taker last before.id ≤ before.remaining.toNat
  /-- No order is new. -/
  known : ∀ i after, result.engine.arena.resting i = some after →
    ∃ before, engine.arena.resting i = some before ∧ before.id = after.id
  /-- Every fill is told right. -/
  fills : FillsTold engine taker qty (emittedSince engine result.engine)
  /-- What the other side has lost is filled, decremented or cancelled. -/
  total : engine.arena.sumResting taker.side.opposite (fun _ => true) =
    result.engine.arena.sumResting taker.side.opposite (fun _ => true) +
      takerFills taker.id (emittedSince engine result.engine) +
      tally cancelledQty (emittedSince engine result.engine) + (decrementAt taker last).toNat
  /-- An opposite order with quantity left of which nothing is filled, cancelled or decremented is
  unchanged. -/
  untouched : ∀ i before, engine.arena.resting i = some before →
    before.side = taker.side.opposite → before.remaining ≠ 0 →
    tally (filledOf before.id) (emittedSince engine result.engine) = 0 →
    (∀ left, .orderCancelled before.id left ∉ emittedSince engine result.engine) →
    decrementOf taker last before.id = 0 → result.engine.arena.resting i = some before
  /-- The taker's side and the stops are as they were. -/
  side : ∃ queues queues', engine.Sound queues ∧ result.engine.Sound queues' ∧
    SideKept taker.side engine queues result.engine queues'
  /-- So are the levels of the taker's side. -/
  levels : ∀ price, result.engine.book.level taker.side price = engine.book.level taker.side price

/-- A call of `match_against_book` conserves quantity. -/
def MatchConserves (taker : Taker) (engine : MatchingEngine config) (qty : UInt64)
    (result : SweepResult config) : Prop :=
  ∃ last, Visits (matchStep taker) ⟨engine, qty⟩ last ∧
    matchStep taker last = .ok (.done result) ∧ Conserves taker engine qty last result

/-- No cancellation of an order is told of by reports without one. -/
theorem tally_cancelledOf_none {id : OrderId} {reports : List EventBody}
    (none : ∀ left, .orderCancelled id left ∉ reports) : tally (cancelledOf id) reports = 0 := by
  refine List.sum_eq_zero fun count member => ?_
  obtain ⟨body, listed, rfl⟩ := List.mem_map.mp member
  cases body with
  | orderCancelled cancelled left =>
    refine if_neg fun same => ?_
    subst same
    exact none left listed
  | _ => rfl

/-- A call of `match_against_book` on a sound engine conserves quantity. -/
theorem conserves_of_sound {qty : UInt64} (sound : engine.Sound queues)
    (swept : engine.matchAgainstBook taker qty = .ok result) :
    MatchConserves taker engine qty result := by
  obtain ⟨last, visits, exit⟩ := loop_exit swept
  have begins : (⟨engine, qty⟩ : Sweep config).engine.Sound queues := sound
  have balanced : Balanced taker ⟨engine, qty⟩ queues result.engine result.remaining
      (decrementAt taker last) (decrementOf taker last) :=
    Iteration.balanced begins (visits_balanced begins visits) exit
  obtain ⟨queues', sound', side⟩ := balanced.side
  have account := balanced.accounts
  have proper : ∀ {i before}, engine.arena.resting i = some before → before.filled ≤ before.quantity :=
    fun rested => sound.rep.sound rested
  refine ⟨last, visits, exit, balanced.balance, ?_, ?_, ?_, ?_, ?_, balanced.fills, ?_, ?_,
    ⟨queues, queues', sound, sound', side⟩, ?_⟩
  · intro i before after rested _ rests
    have accounted := account i before rested
    rw [rests] at accounted
    exact ⟨(accounted.kept (proper rested)).1, (accounted.kept (proper rested)).2.1⟩
  · intro sweep i before after seen rested _ rests
    have accounted := (visits_balanced begins seen).accounts i before rested
    rw [rests] at accounted
    exact ⟨(accounted.kept (proper rested)).1, (accounted.kept (proper rested)).2.1⟩
  · intro i before rested _ free
    have accounted := account i before rested
    rw [free] at accounted
    exact accounted
  · intro i before rested _
    exact (account i before rested).bound
  · intro i after rests
    obtain ⟨before, delta, rested, -, rfl⟩ := balanced.shrinks i after rests
    exact ⟨before, rested, rfl⟩
  · exact balanced.total
  · intro i before rested _ live unfilled uncancelled alone
    have accounted := account i before rested
    rw [unfilled, tally_cancelledOf_none uncancelled, alone] at accounted
    cases rests : result.engine.arena.resting i with
    | none =>
      rw [rests] at accounted
      have spent : 0 + 0 + 0 = before.remaining.toNat := accounted
      exact absurd (UInt64.toNat_inj.mp spent.symm) live
    | some after =>
      rw [rests] at accounted
      obtain ⟨-, delta, -, amount, rfl⟩ := accounted
      have nothing : delta = 0 := UInt64.toNat_inj.mp amount
      rw [nothing, Order.fill_zero]
  · intro price
    refine sound.rep.level_kept sound'.rep (side.queue price) fun i member => ?_
    obtain ⟨stored, rested, onSide, -⟩ := sound.rep.stored member
    exact ((side.resting i stored onSide).mpr rested).trans rested.symm

/-- Every call of `match_against_book` conserves quantity: on every reachable engine, for every
taker and quantity, and wherever a command of a run matches an order. -/
theorem match_conserves (config : InstrumentConfig) :
    (∀ (engine : MatchingEngine config) taker qty result, Reachable engine →
      engine.matchAgainstBook taker qty = .ok result → MatchConserves taker engine qty result) ∧
    ∀ (engine : MatchingEngine config) command site order result, Reachable engine →
      Submits engine command site order →
      (site.accept order).matchAgainstBook (takerOf order) order.qty = .ok result →
      MatchConserves (takerOf order) (site.accept order) order.qty result := by
  constructor
  · intro engine taker qty result reachable swept
    obtain ⟨queues, sound⟩ := reachable.sound
    exact conserves_of_sound sound swept
  · intro engine command site order result reachable submits swept
    obtain ⟨queues, sound⟩ := reachable.sound
    obtain ⟨queues', sound'⟩ := submits.sound sound
    exact conserves_of_sound (sound'.accept order) swept

/-- A bid of fifteen fills an ask of ten and meets one of its own group, of twenty: the overlap of
five decrements both. -/
theorem match_conserves_of_overlap :
    ∃ (engine : MatchingEngine (smallConfig .decrementAndCancel)) (taker : Taker)
      (result : SweepResult (smallConfig .decrementAndCancel)),
      engine.matchAgainstBook taker 15 = .ok result ∧ MatchConserves taker engine 15 result := by
  obtain ⟨engine, reachable, shown⟩ := Reachable.exists_run
    (fun engine : MatchingEngine (smallConfig .decrementAndCancel) =>
      (engine.matchAgainstBook ⟨3, .bid, 2, some 7⟩ 15).toOption.any fun result =>
        result.cancelIncoming && emittedSince engine result.engine ==
          [.fill 1 3 2 10 0 5, .bookUpdate .ask 2 20, .bookUpdate .ask 2 15]) 8
    [.submit (.gtc 1 .ask 2 10), .submit { NewOrder.gtc 2 .ask 2 20 with stpGroup := some 7 }]
    (by decide +kernel)
  obtain ⟨result, swept, -⟩ := (Option.any_eq_true _ _).mp shown
  exact ⟨engine, _, result, ok_of_toOption swept,
    (match_conserves _).1 engine _ 15 result reachable (ok_of_toOption swept)⟩

end MatchingEngine

end MatchX
