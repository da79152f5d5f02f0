import MatchX.Book.DepthChecks
import MatchX.Book.DepthExact

/-!
# The assertions of the book

A fill leaves the depth indices as they are, so over a run they hold at least what rests. As long
as what they hold on a side sums to a word, and every price outside the window at which an order
rests is listed, no assertion of the book can fail: the level of the best price exists, and what
is taken from a level, from a listed price or from a node of a tree is there.
-/

namespace MatchX

open MatchX.Support

variable {ticks : UInt32} {book book' : OrderBook ticks} {arena arena' : Arena} {queues : Queues}
  {order : Order} {index : ArenaIndex} {side : Side} {price qty delta : UInt64}
  {held : Side → Nat → Nat}

/-! ## What the depth indices hold -/

/-- The depth indices hold at least what rests at every price, and on each side a word in all. -/
structure DepthCovers (book : OrderBook ticks) (arena : Arena) (held : Side → Nat → Nat) :
    Prop where
  /-- The indices hold the quantities. -/
  holds : ∀ side, book.DepthHolds side (held side)
  /-- What rests at a price is held there. -/
  covers : ∀ side number, arena.quantityAt side number ≤ held side number
  /-- Nothing is held past the largest price. -/
  past : ∀ side number, 2 ^ 64 ≤ number → held side number = 0
  /-- What is held on a side is a word. -/
  words : ∀ side, ∑ number ∈ Finset.range (2 ^ 64), held side number < 2 ^ 64

namespace DepthCovers

/-- What is held at some prices of a side is a word. -/
theorem bounded (covers : DepthCovers book arena held) (side : Side) (numbers : Finset Nat) :
    ∑ number ∈ numbers, held side number < 2 ^ 64 := by
  refine Nat.lt_of_le_of_lt ?_ (covers.words side)
  rw [← Finset.sum_filter_add_sum_filter_not numbers (· < 2 ^ 64)]
  have none : ∑ number ∈ numbers with ¬number < 2 ^ 64, held side number = 0 := by
    refine Finset.sum_eq_zero fun number member => covers.past side number ?_
    have := (Finset.mem_filter.mp member).2
    omega
  rw [none, Nat.add_zero]
  refine Finset.sum_le_sum_of_subset fun number member => ?_
  exact Finset.mem_range.mpr (Finset.mem_filter.mp member).2

/-- What is held at one price is a word. -/
theorem word (covers : DepthCovers book arena held) (side : Side) (number : Nat) :
    held side number < 2 ^ 64 := by
  have sum := covers.bounded side {number}
  rwa [Finset.sum_singleton] at sum

/-- A new book holds nothing. -/
theorem new (config : InstrumentConfig) (capacity : UInt32) :
    DepthCovers (OrderBook.new config) (Arena.new capacity) fun _ _ => 0 := by
  have exact := DepthExact.new config capacity
  have nothing : ∀ side number, (Arena.new capacity).quantityAt side number = 0 := by
    intro side number
    have vacant : (Arena.new capacity).orders = [] := by
      rw [Arena.orders, Arena.new, Array.toList_replicate]
      simp
    rw [Arena.quantityAt, Arena.sumResting, vacant]
    rfl
  refine ⟨fun side => ?_, fun side number => ?_, fun _ _ _ => rfl, fun _ => by simp⟩
  · exact (exact.holds side).congr rfl rfl fun number => (nothing side number).symm
  · rw [nothing]

/-- What is held once a quantity is added at a price. -/
def raised (held : Side → Nat → Nat) (side : Side) (price qty : UInt64) (side' : Side)
    (number : Nat) : Nat :=
  held side' number + if side = side' ∧ number = price.toNat then qty.toNat else 0

/-- What is held once a quantity is taken at a price. -/
def lowered (held : Side → Nat → Nat) (side : Side) (price qty : UInt64) (side' : Side)
    (number : Nat) : Nat :=
  held side' number - if side = side' ∧ number = price.toNat then qty.toNat else 0

/-- What is held on a side once a quantity is added at a price of it. -/
theorem sum_raised (held : Side → Nat → Nat) (side : Side) (price qty : UInt64) :
    ∑ number ∈ Finset.range (2 ^ 64), raised held side price qty side number =
      ∑ number ∈ Finset.range (2 ^ 64), held side number + qty.toNat := by
  simp only [raised, true_and]
  rw [Finset.sum_add_distrib, Finset.sum_ite_eq', if_pos (Finset.mem_range.mpr price.toNat_lt)]

/-- Inserting an order adds its quantity to what is held. -/
theorem insert (covers : DepthCovers book arena held) (slots : arena.Inv)
    (inserted : Inserted book arena queues order index book' arena')
    (whole : order.remaining = order.quantity)
    (room : (book.depth order.side).2.prices.length + 2 < 2 ^ 64)
    (word : ∑ number ∈ Finset.range (2 ^ 64), held order.side number + order.quantity.toNat <
      2 ^ 64) :
    DepthCovers book' arena' (raised held order.side order.price order.quantity) := by
  refine ⟨fun side => ?_, fun side number => ?_, fun side number beyond => ?_, fun side => ?_⟩
  · by_cases same : order.side = side
    · subst same
      have one := covers.bounded order.side {order.price.toNat}
      have all : held order.side order.price.toNat ≤
          ∑ number ∈ Finset.range (2 ^ 64), held order.side number :=
        Finset.single_le_sum (fun _ _ => Nat.zero_le _)
          (Finset.mem_range.mpr order.price.toNat_lt)
      refine ((covers.holds order.side).raise room (by omega)).congr ?_
        (inserted.depth order.side) fun number => ?_
      · rw [inserted.base, OrderBook.denseBasePrice_depthAdd]
      · simp only [raised, true_and]
    · refine (covers.holds side).congr inserted.base ?_ fun number => ?_
      · rw [inserted.depth, OrderBook.depth_depthAdd, if_neg (Ne.symm same)]
      · rw [raised, if_neg fun here => same here.1, Nat.add_zero]
  · rw [inserted.quantityAt slots, whole, raised]
    exact Nat.add_le_add_right (covers.covers side number) _
  · have small := order.price.toNat_lt
    rw [raised, covers.past side number beyond, if_neg (by omega)]
  · by_cases same : order.side = side
    · subst same
      rw [sum_raised]
      exact word
    · simp only [raised, same, false_and, if_false, Nat.add_zero]
      exact covers.words side

/-- Taking from the depth what leaves the arena at a price keeps what rests held. -/
theorem lower (covers : DepthCovers book arena held)
    (base : book'.denseBasePrice = book.denseBasePrice)
    (depth : ∃ less, book.depthRemove side price qty = .ok less ∧
      ∀ side', book'.depth side' = less.depth side')
    (quantities : ∀ side' number, arena.quantityAt side' number = arena'.quantityAt side' number +
      if side = side' ∧ number = price.toNat then qty.toNat else 0) :
    DepthCovers book' arena' (lowered held side price qty) := by
  obtain ⟨less, returned, same⟩ := depth
  have base' : book'.denseBasePrice = less.denseBasePrice :=
    base.trans (OrderBook.depthRemove_same returned).base.symm
  have here := quantities side price.toNat
  rw [if_pos ⟨rfl, rfl⟩] at here
  have enough := covers.covers side price.toNat
  obtain ⟨holds, -⟩ := (covers.holds side).lower (covers.bounded side) (by omega) returned
  refine ⟨fun side' => ?_, fun side' number => ?_, fun side' number beyond => ?_, fun side' => ?_⟩
  · by_cases sides : side' = side
    · subst sides
      refine holds.congr base' (same side') fun number => ?_
      simp only [lowered, true_and]
    · refine (covers.holds side').congr base ?_ fun number => ?_
      · rw [same, OrderBook.depth_depthRemove_other sides returned]
      · rw [lowered, if_neg fun here => sides here.1.symm, Nat.sub_zero]
  · have before := covers.covers side' number
    rw [quantities side' number] at before
    rw [lowered]
    omega
  · rw [lowered, covers.past side' number beyond, Nat.zero_sub]
  · refine Nat.lt_of_le_of_lt (Finset.sum_le_sum fun number _ => ?_) (covers.words side')
    exact Nat.sub_le _ _

/-- Removing an order takes what remains of it from what is held. -/
theorem remove (covers : DepthCovers book arena held) (slots : arena.Inv)
    (removed : Removed book arena queues order index book' arena') :
    DepthCovers book' arena' (lowered held order.side order.price order.remaining) :=
  covers.lower removed.base removed.depth (removed.quantityAt slots)

/-- Taking a quantity from an order and from the depth takes it from what is held. -/
theorem take (covers : DepthCovers book arena held) (queued : Queued arena queues)
    (taken : Taken book arena queues order index delta book' arena')
    (bound : delta ≤ order.remaining)
    (depth : ∃ less, book.depthRemove order.side order.price delta = .ok less ∧
      ∀ side, book'.depth side = less.depth side) :
    DepthCovers book' arena' (lowered held order.side order.price delta) :=
  covers.lower taken.base depth (taken.quantityAt queued bound)

/-- Filling an order leaves what is held as it is. -/
theorem fill (covers : DepthCovers book arena held) (queued : Queued arena queues)
    (taken : Taken book arena queues order index delta book' arena')
    (bound : delta ≤ order.remaining) (depth : ∀ side, book'.depth side = book.depth side) :
    DepthCovers book' arena' held where
  holds side := (covers.holds side).congr taken.base (depth side) fun _ => rfl
  covers side number := by
    have before := covers.covers side number
    rw [taken.quantityAt queued bound] at before
    omega
  past := covers.past
  words := covers.words

/-- What a level should total is what its queue holds, and no more than what is held. -/
theorem liquidity_le (covers : DepthCovers book arena held) (queued : Queued arena queues) :
    liquidity arena (queues side price) ≤ held side price.toNat := by
  refine Nat.le_trans (Nat.le_of_eq ?_) (covers.covers side price.toNat)
  rw [queued.liquidity_eq, Arena.quantityAt]
  congr 1
  funext other
  rw [Bool.eq_iff_iff, beq_iff_eq, beq_iff_eq, UInt64.toNat_inj]

end DepthCovers

/-! ## Listed prices -/

/-- Every price outside the window at which an order rests is in the price index. -/
def Listed (book : OrderBook ticks) (arena : Arena) : Prop :=
  ∀ index order, arena.resting index = some order → book.denseIndex order.price = none →
    order.price ∈ (book.depth order.side).2.prices

/-- When removing the order in a slot takes its price out of the price index, because the index
holds no more there than remains of the order, no other order rests at the price. -/
def EntryKept (book : OrderBook ticks) (arena : Arena) (index : ArenaIndex) : Prop :=
  ∀ order, arena.find index = some order → book.denseIndex order.price = none →
    (book.depth order.side).2.qtyAt order.price = order.remaining →
    ∀ i other, arena.find i = some other → other.side = order.side → other.price = order.price →
      i = index

namespace Listed

/-- No order rests in a new book. -/
theorem new (config : InstrumentConfig) (capacity : UInt32) :
    Listed (OrderBook.new config) (Arena.new capacity) := by
  intro index order rests
  rw [Arena.resting_eq_none.mpr (Arena.find_new capacity index)] at rests
  contradiction

/-- An order that is inserted is listed, and no price is taken from the index. -/
theorem insert (listed : Listed book arena) (covers : DepthCovers book arena held)
    (inserted : Inserted book arena queues order index book' arena') : Listed book' arena' := by
  intro i other rests outside
  rw [OrderBook.denseIndex_congr inserted.base] at outside
  have grown := @OrderBook.depth_depthAdd _ book order.side other.side order.price order.quantity
  rw [inserted.depth, grown]
  rw [inserted.resting] at rests
  by_cases here : i = index
  · obtain rfl : order = other := by simpa [here] using rests
    rw [if_pos rfl, outside]
    exact SparseVolumeIndex.mem_prices_add_self (covers.holds order.side).sparse
  · rw [if_neg here] at rests
    have before := listed i other rests outside
    split
    · rename_i same
      split
      · exact same ▸ before
      · exact SparseVolumeIndex.mem_prices_add_of_mem (same ▸ before)
    · exact before

/-- Taking from the depth at a price keeps the other prices, and this one when more was held. -/
theorem lower (listed : Listed book arena) (covers : DepthCovers book arena held)
    (base : book'.denseBasePrice = book.denseBasePrice)
    (depth : ∃ less, book.depthRemove side price qty = .ok less ∧
      ∀ side', book'.depth side' = less.depth side')
    (rested : ∀ i other, arena'.resting i = some other →
      ∃ before, arena.resting i = some before ∧ before.side = other.side ∧
        before.price = other.price)
    (left : ∀ i other, arena'.resting i = some other → other.side = side → other.price = price →
      book.denseIndex price = none → held side price.toNat ≠ qty.toNat) : Listed book' arena' := by
  intro i other rests outside
  rw [OrderBook.denseIndex_congr base] at outside
  obtain ⟨before, rests', sides, prices⟩ := rested i other rests
  have among := listed i before rests' (prices ▸ outside)
  rw [sides, prices] at among
  obtain ⟨less, returned, same⟩ := depth
  rw [same]
  by_cases here : other.side = side
  · subst here
    cases window : book.denseIndex price with
    | some slot => rwa [OrderBook.depth_depthRemove_some window returned]
    | none =>
      obtain ⟨sparse, taken, depth⟩ := OrderBook.depth_depthRemove_none window returned
      rw [depth]
      refine SparseVolumeIndex.mem_prices_sub (covers.holds other.side).sparse taken among ?_
      intro there
      rw [if_neg (OrderBook.not_spans window)]
      exact left i other rests rfl there window
  · rwa [OrderBook.depth_depthRemove_other here returned]

/-- Removing an order keeps the prices of the others listed, when it takes none of theirs out of
the index. -/
theorem remove (listed : Listed book arena) (covers : DepthCovers book arena held)
    (removed : Removed book arena queues order.unlinked index book' arena')
    (found : arena.find index = some order) (kept : EntryKept book arena index) :
    Listed book' arena' := by
  refine listed.lower covers removed.base removed.depth (fun i other rests => ?_) ?_
  · rw [removed.resting] at rests
    split at rests
    · contradiction
    · exact ⟨other, rests, rfl, rfl⟩
  · intro i other rests sides prices outside spent
    rw [removed.resting] at rests
    split at rests
    · contradiction
    · rename_i apart
      obtain ⟨stored, found', rfl⟩ := Arena.find_of_resting rests
      refine apart (kept order found outside ?_ i stored found' sides prices)
      have apart' : ¬book.Spans order.price.toNat := OrderBook.not_spans outside
      refine UInt64.toNat_inj.mp ?_
      rw [(covers.holds order.side).sparse.qtyAt, if_neg apart']
      exact spent

/-- Taking less than what remains of an order keeps every price listed. -/
theorem take (listed : Listed book arena) (covers : DepthCovers book arena held)
    (queued : Queued arena queues)
    (taken : Taken book arena queues order index delta book' arena')
    (bound : delta < order.remaining)
    (depth : ∃ less, book.depthRemove order.side order.price delta = .ok less ∧
      ∀ side, book'.depth side = less.depth side) : Listed book' arena' := by
  have most := UInt64.lt_iff_toNat_lt.mp bound
  have held := Nat.le_trans (queued.remaining_le taken.found)
    (covers.liquidity_le queued)
  refine listed.lower covers taken.base depth (fun i other rests => ?_) ?_
  · rw [taken.resting] at rests
    split at rests
    · rename_i here
      obtain rfl := Option.some.inj rests
      exact ⟨order, here ▸ taken.found, rfl, rfl⟩
    · exact ⟨other, rests, rfl, rfl⟩
  · intro i other _ _ _ _ spent
    omega

/-- Filling an order keeps every price listed. -/
theorem fill (listed : Listed book arena)
    (taken : Taken book arena queues order index delta book' arena')
    (depth : ∀ side, book'.depth side = book.depth side) : Listed book' arena' := by
  intro i other rests outside
  rw [OrderBook.denseIndex_congr taken.base] at outside
  rw [depth]
  rw [taken.resting] at rests
  split at rests
  · obtain rfl := Option.some.inj rests
    exact listed index order taken.found outside
  · exact listed i other rests outside

/-- Removing an order of which nothing remains, where more is held at its price, keeps the other
prices listed. -/
theorem removeFilled (listed : Listed book arena) (covers : DepthCovers book arena held)
    (removed : Removed book arena queues order index book' arena')
    (spent : order.remaining = 0) (more : held order.side order.price.toNat ≠ 0) :
    Listed book' arena' := by
  refine listed.lower covers removed.base removed.depth (fun i other rests => ?_) ?_
  · rw [removed.resting] at rests
    split at rests
    · contradiction
    · exact ⟨other, rests, rfl, rfl⟩
  · intro i other _ _ _ _ same
    rw [spent] at same
    exact more same

end Listed

/-! ## The assertions -/

namespace OrderBook

/-- The checks of `depth_remove`: those of the tree in the window, those of the price index
outside it. -/
def DepthRemovable (book : OrderBook ticks) (side : Side) (price qty : UInt64) : Prop :=
  match book.denseIndex price with
  | some slot => (book.depth side).1.Subtractable slot qty
  | none => (book.depth side).2.Subtractable price qty

/-- The checks of `remove_order` for a resting order. -/
structure Removable (book : OrderBook ticks) (order : Order) : Prop where
  /-- The level's total does not underflow. -/
  total : order.remaining ≤ (book.level order.side order.price).totalQuantity
  /-- The level's count does not underflow. -/
  count : 1 ≤ (book.level order.side order.price).orderCount
  /-- The depth can be lowered. -/
  depth : book.DepthRemovable order.side order.price order.remaining

/-- The checks of `reduce_order_qty` for a resting order and a quantity. -/
structure Reducible (book : OrderBook ticks) (order : Order) (delta : UInt64) : Prop where
  /-- The level's total does not underflow. -/
  total : delta ≤ (book.level order.side order.price).totalQuantity
  /-- The depth can be lowered. -/
  depth : book.DepthRemovable order.side order.price delta

/-- Lowering the depth succeeds when its checks pass. -/
theorem DepthRemovable.ok (passes : book.DepthRemovable side price qty) :
    ∃ less, book.depthRemove side price qty = .ok less := by
  unfold DepthRemovable at passes
  unfold depthRemove
  cases window : book.denseIndex price with
  | some slot => exact ⟨_, rfl⟩
  | none =>
    rw [window] at passes
    obtain ⟨sparse, taken⟩ := passes.sub_ok
    have taken' : (book.half side).sparseIndex.sub price qty = .ok sparse := taken
    simp only [taken']
    exact ⟨_, rfl⟩

/-- The checks of lowering the depth do not depend on the levels. -/
theorem DepthRemovable.setLevel {level : PriceLevel} {side' : Side} {price' : UInt64}
    (passes : book.DepthRemovable side price qty) :
    (book.setLevel side' price' level).DepthRemovable side price qty := by
  unfold DepthRemovable
  rw [denseIndex_setLevel, depth_setLevel]
  exact passes

end OrderBook

/-- No assertion of the book can fail: not the lookups of the best levels, not the removal of a
resting order, and not the reduction of one by up to what remains of it. -/
structure Asserts (book : OrderBook ticks) (arena : Arena) : Prop where
  /-- `get_bid_level` finds the level of the best bid. -/
  bidLevel : ∀ price, book.bestBid = some price → ∃ level, book.getBidLevel price = .ok level
  /-- `get_ask_level` finds the level of the best ask. -/
  askLevel : ∀ price, book.bestAsk = some price → ∃ level, book.getAskLevel price = .ok level
  /-- Every resting order can be removed. -/
  removable : ∀ index order, arena.find index = some order → book.Removable order
  /-- Every resting order can be reduced. -/
  reducible : ∀ index order delta, arena.find index = some order → delta ≤ order.remaining →
    book.Reducible order delta

section Passes

variable (rep : Represents book arena queues) (covers : DepthCovers book arena held)
include rep covers

/-- The total of a level is what rests in its queue. -/
theorem toNat_total : (book.level side price).totalQuantity.toNat =
    liquidity arena (queues side price) := by
  have bound : liquidity arena (queues side price) ≤ held side price.toNat :=
    covers.liquidity_le rep.toQueued
  have word := covers.word side price.toNat
  rw [rep.levels]
  exact UInt64.toNat_ofNat_of_lt' (Nat.lt_of_le_of_lt bound word)

/-- The total of a level is at least what remains of an order in it. -/
theorem remaining_le_total (found : arena.find index = some order) :
    order.remaining ≤ (book.level order.side order.price).totalQuantity := by
  have part := rep.toQueued.remaining_le (Arena.resting_of_find found)
  rw [UInt64.le_iff_toNat_le, toNat_total rep covers]
  exact part

/-- What is no more than what remains of a listed order can be taken from the depth. -/
theorem depthRemovable (listed : Listed book arena) (found : arena.find index = some order)
    (bound : delta ≤ order.remaining) : book.DepthRemovable order.side order.price delta := by
  have rests := Arena.resting_of_find found
  have part := rep.toQueued.remaining_le rests
  have most : liquidity arena (queues order.side order.price) ≤
      held order.side order.price.toNat := covers.liquidity_le rep.toQueued
  have enough := UInt64.le_iff_toNat_le.mp bound
  simp only [Order.unlinked_remaining, Order.unlinked_side, Order.unlinked_price] at part
  have holds := covers.holds order.side
  unfold OrderBook.DepthRemovable
  cases window : book.denseIndex order.price with
  | some slot =>
    have place := OrderBook.denseIndex_some.mp window
    have words := covers.bounded order.side (Finset.Ico book.denseBasePrice.toNat
      (book.denseBasePrice.toNat + ticks.toNat))
    rw [Finset.sum_Ico_eq_sum_range, Nat.add_sub_cancel_left] at words
    refine holds.dense.subtractable ?_ words
    rw [← place]
    omega
  | none =>
    have among := listed index order.unlinked rests window
    refine holds.sparse.subtractable (holds.sparse_sum (covers.bounded order.side)) among ?_
    rw [if_neg (OrderBook.not_spans window)]
    omega

/-- No assertion can fail in a book whose orders are covered and listed. -/
theorem asserts (tracks : Tracks book queues) (listed : Listed book arena) :
    Asserts book arena := by
  have count : ∀ {index order}, arena.find index = some order →
      1 ≤ (book.level order.side order.price).orderCount := by
    intro index order found
    have some := List.length_pos_of_mem (rep.find_placed found)
    have short := @Queued.length_lt _ _ order.side order.price rep.toQueued
    rw [rep.levels, UInt32.le_iff_toNat_le]
    show 1 ≤ (UInt32.ofNat _).toNat
    rw [UInt32.toNat_ofNat_of_lt' short]
    exact some
  refine ⟨fun price best => ?_, fun price best => ?_, fun index order found => ?_,
    fun index order delta found bound => ?_⟩
  · exact ⟨_, rep.requireLevel_ok (tracks.held .bid price best)⟩
  · exact ⟨_, rep.requireLevel_ok (tracks.held .ask price best)⟩
  · exact ⟨remaining_le_total rep covers found, count found,
      depthRemovable rep covers listed found (UInt64.le_refl _)⟩
  · exact ⟨UInt64.le_trans bound (remaining_le_total rep covers found),
      depthRemovable rep covers listed found bound⟩

end Passes

/-- Removing a resting order succeeds when its checks pass. -/
theorem OrderBook.Removable.ok (passes : book.Removable order) (rep : Represents book arena queues)
    (found : arena.find index = some order) :
    ∃ result, book.removeOrder arena index = .ok result := by
  obtain ⟨arena', -, -, -, removed⟩ := rep.removeOrder_eq found
  rw [removed]
  obtain ⟨less, returned⟩ := passes.depth.setLevel.ok
  rw [returned]
  exact ⟨_, rfl⟩

/-- Reducing a resting order succeeds when its checks pass. -/
theorem OrderBook.Reducible.ok (passes : book.Reducible order delta)
    (found : arena.find index = some order) :
    ∃ result, book.reduceOrderQty arena index delta = .ok result := by
  obtain ⟨arena', write, seen, -, -⟩ := Arena.modify_ok
    (fun order => { order with filled := order.filled + delta }) found
  have get : arena'.get index = .ok (order.fill delta) :=
    Arena.get_ok.mpr (by rw [seen, if_pos rfl]; rfl)
  have total : checkedSub (book.level order.side order.price).totalQuantity delta =
      some ((book.level order.side order.price).totalQuantity - delta) := if_pos passes.total
  obtain ⟨less, returned⟩ := (@OrderBook.DepthRemovable.setLevel _ book _ _ _
    { book.level order.side order.price with
      totalQuantity := (book.level order.side order.price).totalQuantity - delta }
    order.side order.price passes.depth).ok
  unfold OrderBook.reduceOrderQty
  simp only [write, get, bind, Except.bind, Order.fill_side, Order.fill_price, total, returned]
  exact ⟨_, rfl⟩

end MatchX
