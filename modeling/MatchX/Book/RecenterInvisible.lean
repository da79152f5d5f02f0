import MatchX.Book.DepthRecenter

/-!
# Recentering is invisible

What a book answers is read from its best prices, its levels, its index of ids and its depth
indices. Moving the window moves levels between its slots and the sparse map and builds the
indices anew, and leaves every answer as it was. Afterwards each level with orders is again in
exactly one container, and the bits and the depth indices match the levels.
-/

namespace MatchX

open MatchX.Support

variable {ticks : UInt32} {book book' : OrderBook ticks} {arena : Arena} {queues : Queues}

/-- The invariants of a book: its containers agree with some queues, its best prices are those of
levels with orders, and its depth indices hold the totals of its levels. -/
structure WellIndexed (book : OrderBook ticks) (arena : Arena) (queues : Queues) : Prop extends
    Represents book arena queues, Tracks book queues where
  /-- The depth indices hold the totals of the levels. -/
  depth : ∀ side, book.DepthHolds side (book.levelQty side)

/-- Each level with orders is in one container, and the indices match the containers. -/
structure OrderBook.Contained (book : OrderBook ticks) : Prop where
  /-- A level with orders is in the slot of its price and not in the sparse map, or in the
  sparse map when its price has no slot. -/
  one : ∀ side price, book.levelIsEmpty side price = false →
    (∃ slot, book.denseIndex price = some slot ∧
      (book.half side).denseLevel slot = book.level side price ∧
      (book.half side).sparse[price]? = none) ∨
    book.denseIndex price = none ∧ (book.half side).sparse[price]? = some (book.level side price)
  /-- The sparse map holds no other levels. -/
  sparse : ∀ side price level, (book.half side).sparse[price]? = some level →
    level.isEmpty = false ∧ book.denseIndex price = none
  /-- Slots with orders have a price. -/
  dense : ∀ side (slot : Fin ticks.toNat), ((book.half side).denseLevel slot).isEmpty = false →
    ∃ price, book.denseIndex price = some slot
  /-- A slot is marked exactly when it has orders. -/
  occupied : ∀ side i, book.isOccupied side i = true ↔
    ∃ slot : Fin ticks.toNat, slot.val = i ∧ ((book.half side).denseLevel slot).isEmpty = false
  /-- The depth indices hold the totals of the levels. -/
  depth : ∀ side, book.DepthHolds side (book.levelQty side)

/-- The level of a price with a slot is in the slot. -/
theorem OrderBook.level_of_slot {side : Side} {price : UInt64} {slot : Fin ticks.toNat}
    (within : book.denseIndex price = some slot) :
    book.level side price = (book.half side).denseLevel slot := by
  simp only [OrderBook.level, within]

namespace WellIndexed

/-- In a book with its invariants whose window ends within the prices the levels are
contained. -/
theorem contained (inv : WellIndexed book arena queues) (fits : book.WindowFits) :
    book.Contained := by
  have full (side : Side) (price : UInt64) :
      book.levelIsEmpty side price = false ↔ queues side price ≠ [] := by
    rw [← Bool.not_eq_true, inv.levelIsEmpty_iff]
  have priced (side : Side) (slot : Fin ticks.toNat)
      (some_orders : ((book.half side).denseLevel slot).isEmpty = false) :
      ∃ price, book.denseIndex price = some slot :=
    ⟨_, (vacantPast_of_fits fits).denseIndex some_orders⟩
  have held (side : Side) (price : UInt64) {level : PriceLevel}
      (found : (book.half side).sparse[price]? = some level) :
      book.denseIndex price = none ∧ queues side price ≠ [] := by
    rw [← inv.sparse, OrderBook.inSparse, Std.ExtTreeMap.contains_eq_isSome_getElem?, found]
    rfl
  have missing (side : Side) (price : UInt64) {slot : Fin ticks.toNat}
      (within : book.denseIndex price = some slot) : (book.half side).sparse[price]? = none := by
    cases found : (book.half side).sparse[price]? with
    | none => rfl
    | some level =>
      have outside := (held side price found).1
      rw [within] at outside
      cases outside
  have beyond (side : Side) (price : UInt64) (outside : book.denseIndex price = none)
      (present : queues side price ≠ []) :
      (book.half side).sparse[price]? = some (book.level side price) := by
    have inside := (inv.sparse side price).mpr ⟨outside, present⟩
    rw [OrderBook.inSparse, Std.ExtTreeMap.contains_eq_isSome_getElem?,
      Option.isSome_iff_exists] at inside
    obtain ⟨level, found⟩ := inside
    simp only [OrderBook.level, outside, Std.ExtTreeMap.getD_eq_getD_getElem?, found,
      Option.getD_some]
  refine ⟨?_, ?_, priced, ?_, inv.depth⟩
  · intro side price nonempty
    cases window : book.denseIndex price with
    | some slot =>
      exact .inl ⟨slot, rfl, (OrderBook.level_of_slot window).symm, missing side price window⟩
    | none => exact .inr ⟨rfl, beyond side price window ((full side price).mp nonempty)⟩
  · intro side price level found
    obtain ⟨outside, present⟩ := held side price found
    have same := beyond side price outside present
    rw [found, Option.some.injEq] at same
    rw [same]
    exact ⟨(full side price).mpr present, outside⟩
  · intro side i
    rw [inv.occupied]
    constructor
    · rintro ⟨price, slot, within, here, present⟩
      refine ⟨slot, here, ?_⟩
      rw [← OrderBook.level_of_slot within]
      exact (full side price).mpr present
    · rintro ⟨slot, here, nonempty⟩
      obtain ⟨price, within⟩ := priced side slot nonempty
      rw [← OrderBook.level_of_slot within] at nonempty
      exact ⟨price, slot, within, here, (full side price).mp nonempty⟩

/-- A book of a run of operations has the invariants. -/
theorem of_run {config : InstrumentConfig} {capacity : UInt32}
    {state : BookState config.maxTicks} (run : DepthRun config capacity state) :
    ∃ queues, WellIndexed state.1 state.2 queues := by
  have inv : DepthInv state := DepthRun.inv run
  obtain ⟨queues, rep, tracks⟩ := inv.queues
  refine ⟨queues, { rep, tracks with depth := fun side => ?_ }⟩
  exact (inv.exact.holds side).congr rfl rfl fun number =>
    rep.levelQty_eq inv.exact.total side number

end WellIndexed

/-- Moving the window changes nothing that a book answers, and no order. From a book with its
invariants, whose window ends within the prices, to any other such window, it succeeds and
leaves the best prices, every level, every lookup, the arena and the volumes up to and from
every price as they are. In the new window each level with orders is in exactly one container,
and the indices match the containers. -/
theorem recenter_invisible {newBase : UInt64} (inv : WellIndexed book arena queues)
    (fits : book.WindowFits) (fitsNew : newBase.toNat + ticks.toNat < 2 ^ 64) :
    ∃ moved : OrderBook ticks,
      BookOp.apply (book, arena) (.recenter newBase) = .ok (moved, arena) ∧
      moved.denseBasePrice = newBase ∧
      moved.bestBid = book.bestBid ∧ moved.bestAsk = book.bestAsk ∧
      (∀ side price, moved.level side price = book.level side price) ∧
      (∀ id, moved.lookup id = book.lookup id) ∧
      (∀ price, moved.askAvailableAtOrBelow price = book.askAvailableAtOrBelow price ∧
        moved.bidAvailableAtOrAbove price = book.bidAvailableAtOrAbove price) ∧
      moved.Contained ∧ WellIndexed moved arena queues := by
  obtain ⟨moved, completed, rep, best, base, rebuilt⟩ :=
    forceRecenter_spec inv.toRepresents inv.toTracks (vacantPast_of_fits fits) fitsNew
  have tracks : Tracks moved queues :=
    ⟨fun side none => inv.empty side (best side ▸ none),
      fun side price held => inv.held side price (best side ▸ held)⟩
  have within : moved.WindowFits := by
    rw [OrderBook.WindowFits, base]
    exact fitsNew
  have levels (side : Side) (price : UInt64) :
      moved.level side price = book.level side price := by
    rw [rep.levels, inv.levels]
  have amounts (side : Side) : moved.levelQty side = book.levelQty side := by
    funext number
    rw [OrderBook.levelQty, OrderBook.levelQty, levels]
  have depth (side : Side) : moved.DepthHolds side (moved.levelQty side) := by
    obtain ⟨-, rfl⟩ | each := rebuilt
    · exact inv.depth side
    · obtain ⟨half, same⟩ := each side
      exact (rebuilt_levels rep within same).1
  have indexed : WellIndexed moved arena queues := { rep, tracks with depth }
  have lookups (id : OrderId) : moved.lookup id = book.lookup id := by
    apply Option.ext
    intro index
    rw [OrderBook.lookup, OrderBook.lookup, rep.indexed, inv.indexed]
  have answers (price : UInt64) :
      moved.askAvailableAtOrBelow price = book.askAvailableAtOrBelow price ∧
        moved.bidAvailableAtOrAbove price = book.bidAvailableAtOrAbove price := by
    have asks := (inv.depth .ask).askAvailableAtOrBelow price
    have bids := (inv.depth .bid).bidAvailableAtOrAbove
      (fun _ => OrderBook.levelQty_past) price
    have movedAsks := (depth .ask).askAvailableAtOrBelow price
    have movedBids := (depth .bid).bidAvailableAtOrAbove (fun _ => OrderBook.levelQty_past) price
    rw [amounts, ← asks] at movedAsks
    rw [amounts, ← bids] at movedBids
    exact ⟨movedAsks, movedBids⟩
  refine ⟨moved, ?_, base, best .bid, best .ask, levels, lookups, answers,
    indexed.contained within, indexed⟩
  rw [BookOp.apply, completed]
  rfl

/-- A book with orders in its window and on both sides of it, moved to a window that overlaps the
old one. -/
theorem recenter_invisible_overlapping :
    ∃ (book moved : OrderBook 4) (arena : Arena) (queues : Queues),
      book.lookup 1 = some 0 ∧ book.lookup 3 = some 2 ∧
      BookOp.apply (book, arena) (.recenter 2) = .ok (moved, arena) ∧
      moved.denseBasePrice = 2 ∧
      moved.bestBid = book.bestBid ∧ moved.bestAsk = book.bestAsk ∧
      (∀ side price, moved.level side price = book.level side price) ∧
      (∀ id, moved.lookup id = book.lookup id) ∧
      (∀ price, moved.askAvailableAtOrBelow price = book.askAvailableAtOrBelow price ∧
        moved.bidAvailableAtOrAbove price = book.bidAvailableAtOrAbove price) ∧
      moved.Contained ∧ WellIndexed moved arena queues := by
  have legal (state : BookState (smallConfig .cancelNewest).maxTicks) (op : BookOp)
      (allowed : decide (op.Legal state) = true) : op.Legal state := of_decide_eq_true allowed
  obtain ⟨state, run, shown⟩ : ∃ state, DepthRun (smallConfig .cancelNewest) 8 state ∧
      (state.1.lookup 1 == some 0 && state.1.lookup 3 == some 2 &&
        state.1.denseBasePrice == 0) = true :=
    Reached.exists_checkedRun _ _ legal rfl
      [.insert 1 .bid 1 10 .limit none none, .insert 2 .ask 3 5 .limit none none,
        .insert 3 .ask 5 4 .limit none none, .insert 4 .ask 90 4 .limit none none]
      (by decide +kernel)
  simp only [Bool.and_eq_true, beq_iff_eq] at shown
  obtain ⟨⟨first, third⟩, base⟩ := shown
  obtain ⟨queues, inv⟩ := WellIndexed.of_run run
  have fits : state.1.WindowFits := by
    rw [OrderBook.WindowFits, base]
    decide
  have fitsNew : (2 : UInt64).toNat + (4 : UInt32).toNat < 2 ^ 64 := by decide
  obtain ⟨moved, result⟩ := recenter_invisible inv fits fitsNew
  exact ⟨state.1, moved, state.2, queues, first, third, result⟩

end MatchX
