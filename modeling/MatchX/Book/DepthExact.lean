import Mathlib.Algebra.BigOperators.Group.Finset.Piecewise
import Mathlib.Algebra.BigOperators.Intervals
import MatchX.Book.BestPrice
import MatchX.Book.DepthSums
import MatchX.Book.Liquidity

/-!
# Depth indices that agree with the orders

The depth indices of a book are exact when they hold, price by price, the quantity that rests in
the arena: the tree that of the window and the price index that of every other price. Inserting
and removing an order keeps them exact, and so does taking a quantity when it is taken from the
depth as well. What the book answers about its depth is then what rests.
-/

namespace MatchX

variable {ticks : UInt32} {book book' : OrderBook ticks} {arena arena' : Arena} {queues : Queues}
  {order : Order} {index : ArenaIndex} {side side' : Side} {price qty delta : UInt64}

/-! ## The quantity at a price -/

namespace Arena

/-- The quantity that rests on a side at a price. -/
def quantityAt (arena : Arena) (side : Side) (number : Nat) : Nat :=
  arena.sumResting side fun price => price.toNat == number

/-- The quantity at a price is a weight. -/
theorem quantityAt_eq (side : Side) (number : Nat) :
    arena.quantityAt side number = arena.weigh fun order =>
      if order.side = side ∧ number = order.price.toNat then order.remaining.toNat else 0 := by
  rw [quantityAt, sumResting_eq]
  simp only [beq_iff_eq, @eq_comm Nat _ number]

/-- A sum of weights is the weight by the sum. -/
theorem sum_weigh (numbers : Finset Nat) (weight : Nat → Order → Nat) :
    ∑ number ∈ numbers, arena.weigh (weight number) =
      arena.weigh fun order => ∑ number ∈ numbers, weight number order :=
  (Multiset.sum_map_sum (m := (arena.orders : Multiset Order))).symm

/-- The quantities at some prices sum to what rests at these prices. -/
theorem sum_quantityAt (numbers : Finset Nat) :
    ∑ number ∈ numbers, arena.quantityAt side number =
      arena.sumResting side fun price => decide (price.toNat ∈ numbers) := by
  simp only [quantityAt_eq]
  rw [sum_weigh, sumResting_eq]
  congr 1
  funext order
  by_cases same : order.side = side
  · simp [same]
  · simp [same]

/-- The quantities at some prices sum to no more than the total. -/
theorem sum_quantityAt_le (numbers : Finset Nat) :
    ∑ number ∈ numbers, arena.quantityAt side number ≤ arena.totalResting :=
  sum_quantityAt numbers ▸ sumResting_le

/-- The quantity at one price is no more than the total. -/
theorem quantityAt_le (number : Nat) : arena.quantityAt side number ≤ arena.totalResting :=
  sumResting_le

/-- Nothing rests at a number that is no price. -/
theorem quantityAt_past {number : Nat} (past : 2 ^ 64 ≤ number) :
    arena.quantityAt side number = 0 := by
  rw [quantityAt, sumResting, List.filter_eq_nil_iff.mpr]
  · rfl
  · intro order _
    have small := order.price.toNat_lt
    have apart : order.price.toNat ≠ number := by omega
    simp [apart]

/-- An order rests at a price that has a quantity. -/
theorem rests_of_quantityAt (slots : arena.Inv)
    (some : arena.quantityAt side price.toNat ≠ 0) : Rests arena side price := by
  rw [quantityAt, sumResting] at some
  have listed : (arena.orders.filter fun order =>
      order.side = side && order.price.toNat == price.toNat) ≠ [] := by
    intro none
    rw [none] at some
    exact some rfl
  obtain ⟨order, member⟩ := List.exists_mem_of_ne_nil _ listed
  obtain ⟨among, here⟩ := List.mem_filter.mp member
  simp only [Bool.and_eq_true, decide_eq_true_eq, beq_iff_eq] at here
  obtain ⟨i, found⟩ := exists_find slots among
  exact ⟨i, order, found, here.1, UInt64.toNat_inj.mp here.2⟩

/-- Distinct prices at which orders rest are no more than the slots. -/
theorem length_le_of_rests {prices : List UInt64} (slots : arena.Inv) (nodup : prices.Nodup)
    (rest : ∀ price ∈ prices, Rests arena side price) : prices.length < 2 ^ 32 := by
  have among : prices ⊆ arena.orders.map Order.price := by
    intro price member
    obtain ⟨i, order, found, -, rfl⟩ := rest price member
    exact List.mem_map.mpr ⟨order, mem_orders_of_find found, rfl⟩
  have atMost := (nodup.subperm among).length_le
  rw [List.length_map] at atMost
  have listed : arena.orders.length ≤ arena.data.size := by
    have filtered := List.length_filterMap_le id arena.data.toList
    rwa [Array.length_toList] at filtered
  obtain ⟨free, list⟩ := slots
  have size := list.dataSize
  have capacity := arena.capacity.toNat_lt
  omega

end Arena

/-- An insertion adds the quantity of its order at its price. -/
theorem Inserted.quantityAt (inserted : Inserted book arena queues order index book' arena')
    (slots : arena.Inv) (side : Side) (number : Nat) :
    arena'.quantityAt side number = arena.quantityAt side number +
      if order.side = side ∧ number = order.price.toNat then order.remaining.toNat else 0 := by
  rw [Arena.quantityAt_eq, Arena.quantityAt_eq, inserted.weigh slots]

/-- A removal takes away the quantity of its order at its price. -/
theorem Removed.quantityAt (removed : Removed book arena queues order index book' arena')
    (slots : arena.Inv) (side : Side) (number : Nat) :
    arena.quantityAt side number = arena'.quantityAt side number +
      if order.side = side ∧ number = order.price.toNat then order.remaining.toNat else 0 := by
  rw [Arena.quantityAt_eq, Arena.quantityAt_eq, removed.weigh slots]

/-- Taking a quantity takes it away at the price of its order. -/
theorem Taken.quantityAt (taken : Taken book arena queues order index delta book' arena')
    (queued : Queued arena queues) (bound : delta ≤ order.remaining) (side : Side) (number : Nat) :
    arena.quantityAt side number = arena'.quantityAt side number +
      if order.side = side ∧ number = order.price.toNat then delta.toNat else 0 := by
  have changed := taken.weigh queued.slots fun order =>
    if order.side = side ∧ number = order.price.toNat then order.remaining.toNat else 0
  have less := (Order.fill_sound (queued.sound taken.found) bound).2
  have left := UInt64.toNat_sub_of_le _ _ bound
  have most := UInt64.le_iff_toNat_le.mp bound
  simp only [Order.fill_side, Order.fill_price, less, left] at changed
  rw [Arena.quantityAt_eq, Arena.quantityAt_eq]
  split at changed
  · rename_i here
    rw [if_pos here]
    omega
  · rename_i apart
    rw [if_neg apart]
    omega

/-! ## What the depth indices of a side hold -/

namespace OrderBook

/-- Whether a number is the price of a window slot. -/
abbrev Spans (book : OrderBook ticks) (number : Nat) : Prop :=
  book.denseBasePrice.toNat ≤ number ∧ number < book.denseBasePrice.toNat + ticks.toNat

/-- A price outside the window has no slot. -/
theorem not_spans (outside : book.denseIndex price = none) : ¬book.Spans price.toNat := by
  have := denseIndex_none.mp outside
  unfold Spans
  omega

/-- The depth indices after the depth of a price is raised. -/
theorem depth_depthAdd : (book.depthAdd side price qty).depth side' =
    if side' = side then
      match book.denseIndex price with
      | some slot => ((book.depth side).1.add slot qty, (book.depth side).2)
      | none => ((book.depth side).1, (book.depth side).2.add price qty)
    else book.depth side' := by
  unfold depthAdd depth
  cases book.denseIndex price <;> cases side <;> cases side' <;> rfl

/-- Lowering the depth of a price leaves the other side alone. -/
theorem depth_depthRemove_other {lowered : OrderBook ticks} (apart : side' ≠ side)
    (returned : book.depthRemove side price qty = .ok lowered) :
    lowered.depth side' = book.depth side' := by
  unfold depthRemove at returned
  split at returned
  · obtain rfl := Except.ok.inj returned
    simp [depth, apart]
  · simp only at returned
    split at returned
    · contradiction
    · obtain rfl := Except.ok.inj returned
      simp [depth, apart]

/-- Lowering the depth of a window slot. -/
theorem depth_depthRemove_some {lowered : OrderBook ticks} {slot : Fin ticks.toNat}
    (window : book.denseIndex price = some slot)
    (returned : book.depthRemove side price qty = .ok lowered) :
    lowered.depth side = ((book.depth side).1.sub slot qty, (book.depth side).2) := by
  simp only [depthRemove, window] at returned
  obtain rfl := Except.ok.inj returned
  simp [depth]

/-- Lowering the depth of a price outside the window. -/
theorem depth_depthRemove_none {lowered : OrderBook ticks} (window : book.denseIndex price = none)
    (returned : book.depthRemove side price qty = .ok lowered) :
    ∃ sparse, (book.depth side).2.sub price qty = .ok sparse ∧
      lowered.depth side = ((book.depth side).1, sparse) := by
  simp only [depthRemove, window] at returned
  split at returned
  · contradiction
  · rename_i sparse taken
    obtain rfl := Except.ok.inj returned
    exact ⟨sparse, taken, by simp [depth]⟩

/-- The depth indices of a side hold a quantity for each price: the tree those of the window, the
price index the others. -/
structure DepthHolds (book : OrderBook ticks) (side : Side) (quantity : Nat → Nat) : Prop where
  /-- The tree holds the quantities of the window. -/
  dense : (book.depth side).1.Holds ticks.toNat fun slot =>
    quantity (book.denseBasePrice.toNat + slot)
  /-- The price index holds the other quantities. -/
  sparse : (book.depth side).2.Holds fun number =>
    if book.Spans number then 0 else quantity number
  /-- The prices of the index are outside the window. -/
  outside : ∀ price ∈ (book.depth side).2.prices, book.denseIndex price = none

variable {quantity quantity' : Nat → Nat}

/-- The depth indices of a side are read from them and the window. -/
theorem DepthHolds.congr (holds : book.DepthHolds side quantity)
    (base : book'.denseBasePrice = book.denseBasePrice)
    (depth : book'.depth side = book.depth side)
    (same : ∀ number, quantity' number = quantity number) : book'.DepthHolds side quantity' := by
  obtain rfl : quantity' = quantity := funext same
  refine ⟨?_, ?_, fun price among => ?_⟩
  · rw [depth, base]
    exact holds.dense
  · unfold Spans
    rw [depth, base]
    exact holds.sparse
  · rw [depth] at among
    rw [denseIndex_congr base]
    exact holds.outside price among

/-- No price outside the window is that of a window slot. -/
theorem ne_of_not_spans {slot : Fin ticks.toNat} (window : book.denseIndex price = some slot)
    (number : Nat) (apart : ¬book.Spans number) : number ≠ price.toNat := by
  have := denseIndex_some.mp window
  have := slot.isLt
  unfold Spans at apart
  omega

/-- No window slot is at a price outside the window. -/
theorem slot_ne (window : book.denseIndex price = none) {i : Nat} (inside : i < ticks.toNat) :
    book.denseBasePrice.toNat + i ≠ price.toNat := by
  have := denseIndex_none.mp window
  omega

/-- Raising the depth of a price. -/
theorem DepthHolds.raise (holds : book.DepthHolds side quantity)
    (fits : (book.depth side).2.prices.length + 2 < 2 ^ 64)
    (bounded : quantity price.toNat + qty.toNat < 2 ^ 64) :
    (book.depthAdd side price qty).DepthHolds side fun number =>
      quantity number + if number = price.toNat then qty.toNat else 0 := by
  have depth := @depth_depthAdd _ book side side price qty
  rw [if_pos rfl] at depth
  cases window : book.denseIndex price with
  | some slot =>
    rw [window] at depth
    have place := denseIndex_some.mp window
    refine ⟨?_, ?_, ?_⟩
    · rw [depth, denseBasePrice_depthAdd]
      refine (holds.dense.add slot qty).congr fun i _ => ?_
      simp only [place, Nat.add_left_cancel_iff]
    · rw [depth]
      unfold Spans
      rw [denseBasePrice_depthAdd]
      refine holds.sparse.congr fun number => ?_
      split
      · rfl
      · rename_i apart
        rw [if_neg (ne_of_not_spans window number apart), Nat.add_zero]
    · simp only [depth, denseIndex_depthAdd]
      exact holds.outside
  | none =>
    rw [window] at depth
    have outside := not_spans window
    refine ⟨?_, ?_, ?_⟩
    · rw [depth, denseBasePrice_depthAdd]
      refine holds.dense.congr fun i inside => ?_
      rw [if_neg (slot_ne window inside), Nat.add_zero]
    · rw [depth]
      unfold Spans
      rw [denseBasePrice_depthAdd]
      refine (holds.sparse.add fits (by rwa [if_neg outside])).congr fun number => ?_
      by_cases here : number = price.toNat
      · subst here
        rw [if_neg outside, if_neg outside, if_pos rfl]
      · simp [here]
    · simp only [depth, denseIndex_depthAdd]
      intro other among
      obtain rfl | before := SparseVolumeIndex.mem_prices_add among
      · exact window
      · exact holds.outside other before

/-- Raising the depth of a price adds no other price to the index. -/
theorem mem_prices_depthAdd {other : UInt64}
    (among : other ∈ ((book.depthAdd side price qty).depth side').2.prices) :
    (side' = side ∧ other = price) ∨ other ∈ (book.depth side').2.prices := by
  rw [depth_depthAdd] at among
  split at among
  · rename_i same
    subst same
    cases window : book.denseIndex price with
    | some slot =>
      rw [window] at among
      exact .inr among
    | none =>
      rw [window] at among
      exact (SparseVolumeIndex.mem_prices_add among).imp_left fun here => ⟨rfl, here⟩
  · exact .inr among

/-- The quantities of the price index sum to a word when all do. -/
theorem DepthHolds.sparse_sum (holds : book.DepthHolds side quantity)
    (bounded : ∀ numbers : Finset Nat, ∑ number ∈ numbers, quantity number < 2 ^ 64) :
    ((book.depth side).2.qtys.map UInt64.toNat).sum < 2 ^ 64 := by
  have ranks := sum_rankQty (book.depth side).2.qtys (book.depth side).2.qtys.length
  rw [List.take_length, holds.sparse.aligned, holds.sparse.sum_all] at ranks
  rw [← ranks]
  refine Nat.lt_of_le_of_lt (Finset.sum_le_sum fun number _ => ?_) (bounded (Finset.range (2 ^ 64)))
  split
  · exact Nat.zero_le _
  · exact Nat.le_refl _

/-- Lowering the depth of a price. -/
theorem DepthHolds.lower (holds : book.DepthHolds side quantity)
    (bounded : ∀ numbers : Finset Nat, ∑ number ∈ numbers, quantity number < 2 ^ 64)
    (enough : qty.toNat ≤ quantity price.toNat)
    (returned : book.depthRemove side price qty = .ok book') :
    book'.DepthHolds side (fun number =>
      quantity number - if number = price.toNat then qty.toNat else 0) ∧
    ∀ other ∈ (book'.depth side).2.prices, other ∈ (book.depth side).2.prices ∧
      (other = price → quantity price.toNat - qty.toNat ≠ 0) := by
  have base := (depthRemove_same returned).base
  cases window : book.denseIndex price with
  | some slot =>
    have depth := depth_depthRemove_some window returned
    have place := denseIndex_some.mp window
    have words := bounded (Finset.Ico book.denseBasePrice.toNat
      (book.denseBasePrice.toNat + ticks.toNat))
    rw [Finset.sum_Ico_eq_sum_range, Nat.add_sub_cancel_left] at words
    refine ⟨⟨?_, ?_, ?_⟩, ?_⟩
    · rw [depth, base]
      refine (holds.dense.sub (place ▸ enough) words).congr fun i _ => ?_
      simp only [place, Nat.add_left_cancel_iff]
    · rw [depth]
      unfold Spans
      rw [base]
      refine holds.sparse.congr fun number => ?_
      split
      · rfl
      · rename_i apart
        rw [if_neg (ne_of_not_spans window number apart), Nat.sub_zero]
    · simp only [depth, denseIndex_congr base]
      exact holds.outside
    · rw [depth]
      refine fun other among => ⟨among, ?_⟩
      rintro rfl
      rw [holds.outside other among] at window
      contradiction
  | none =>
    obtain ⟨sparse, taken, depth⟩ := depth_depthRemove_none window returned
    have outside := not_spans window
    obtain ⟨lowered, -, kept⟩ := holds.sparse.sub (holds.sparse_sum bounded) taken
    rw [if_neg outside] at kept
    refine ⟨⟨?_, ?_, ?_⟩, ?_⟩
    · rw [depth, base]
      refine holds.dense.congr fun i inside => ?_
      rw [if_neg (slot_ne window inside), Nat.sub_zero]
    · rw [depth]
      unfold Spans
      rw [base]
      refine lowered.congr fun number => ?_
      by_cases here : number = price.toNat
      · subst here
        rw [if_neg outside, if_neg outside, if_pos rfl]
      · simp [here]
    · simp only [depth, denseIndex_congr base]
      exact fun other among => holds.outside other (kept other among).1
    · rw [depth]
      exact kept

/-! ## What the book answers -/

/-- A sum over prices is that of the prices outside the window and that of the window slots. -/
theorem sum_window (quantity : Nat → Nat) (numbers : Finset Nat) :
    ∑ number ∈ numbers, quantity number =
      (∑ slot ∈ Finset.range ticks.toNat, if book.denseBasePrice.toNat + slot ∈ numbers then
        quantity (book.denseBasePrice.toNat + slot) else 0) +
      ∑ number ∈ numbers, if book.Spans number then 0 else quantity number := by
  have window := Finset.sum_Ico_eq_sum_range
    (fun number => if number ∈ numbers then quantity number else 0) book.denseBasePrice.toNat
    (book.denseBasePrice.toNat + ticks.toNat)
  rw [Nat.add_sub_cancel_left] at window
  rw [← window, Finset.sum_ite_mem, Finset.inter_comm, ← Finset.sum_ite_mem,
    ← Finset.sum_add_distrib]
  refine Finset.sum_congr rfl fun number _ => ?_
  simp only [Finset.mem_Ico, Spans]
  split <;> simp

/-- A sum that saturates is the sum or the largest word. -/
theorem toNat_saturatingAdd (left right : UInt64) :
    (saturatingAdd left right).toNat = min (left.toNat + right.toNat) (2 ^ 64 - 1) := by
  have top : u64Max.toNat = 2 ^ 64 - 1 := rfl
  have small := left.toNat_lt
  have room : (u64Max - right).toNat = 2 ^ 64 - 1 - right.toNat :=
    UInt64.toNat_sub_of_le _ _ (UInt64.le_iff_toNat_le.mpr (Nat.le_pred_of_lt right.toNat_lt))
  have small' := right.toNat_lt
  unfold saturatingAdd
  split
  · rename_i fits
    rw [UInt64.le_iff_toNat_le, room] at fits
    rw [UInt64.toNat_add, Nat.mod_eq_of_lt (by omega)]
    omega
  · rename_i past
    rw [UInt64.le_iff_toNat_le, room] at past
    rw [top]
    exact (Nat.min_eq_right (by omega)).symm

/-- A sum over prices whose window slots are known: the sum over the slots and that over the
prices outside the window. -/
theorem sum_split (book : OrderBook ticks) (quantity : Nat → Nat) (numbers slots : Finset Nat)
    (inside : slots ⊆ Finset.range ticks.toNat)
    (same : ∀ slot < ticks.toNat, quantity (book.denseBasePrice.toNat + slot) ≠ 0 →
      (book.denseBasePrice.toNat + slot ∈ numbers ↔ slot ∈ slots)) :
    UInt64.ofNat (∑ number ∈ numbers, quantity number) =
      UInt64.ofNat (∑ slot ∈ slots, quantity (book.denseBasePrice.toNat + slot)) +
      UInt64.ofNat (∑ number ∈ numbers, if book.Spans number then 0 else quantity number) := by
  rw [sum_window quantity numbers, UInt64.ofNat_add, ← Finset.inter_eq_right.mpr inside,
    ← Finset.sum_ite_mem]
  congr 2
  refine Finset.sum_congr rfl fun slot member => ?_
  by_cases none : quantity (book.denseBasePrice.toNat + slot) = 0
  · rw [none, ite_self, ite_self]
  · simp only [same slot (Finset.mem_range.mp member) none]

/-- What all window slots hold. -/
theorem DepthHolds.total (holds : book.DepthHolds side quantity) :
    (if 0 < ticks then (book.depth side).1.prefixSum (ticks.toNat - 1) else 0) =
      UInt64.ofNat (∑ slot ∈ Finset.range ticks.toNat,
        quantity (book.denseBasePrice.toNat + slot)) := by
  split
  · rename_i some
    have positive : 0 < ticks.toNat := some
    rw [holds.dense.prefixSum (by omega), Nat.sub_add_cancel positive]
  · rename_i none
    have zero : ticks.toNat = 0 := Nat.eq_zero_of_not_pos none
    rw [zero]
    rfl

/-- Prices in the window weigh nothing among those outside it. -/
theorem sum_outside (book : OrderBook ticks) (quantity : Nat → Nat) (numbers wider : Finset Nat)
    (among : numbers ⊆ wider)
    (window : ∀ number ∈ wider, number ∉ numbers → quantity number ≠ 0 → book.Spans number) :
    (∑ number ∈ numbers, if book.Spans number then 0 else quantity number) =
      ∑ number ∈ wider, if book.Spans number then 0 else quantity number :=
  Finset.sum_subset among fun number member absent => by
    by_cases none : quantity number = 0
    · rw [none, ite_self]
    · rw [if_pos (window number member absent none)]

/-- The last price before the window. -/
theorem toNat_saturatingSub_one (price : UInt64) :
    (saturatingSub price 1).toNat = price.toNat - 1 := by
  unfold saturatingSub
  split
  · rename_i positive
    exact UInt64.toNat_sub_of_le _ _ positive
  · rename_i zero
    rw [UInt64.le_iff_toNat_le] at zero
    have none : price.toNat = 0 := Nat.lt_one_iff.mp (Nat.not_le.mp zero)
    rw [none]
    rfl

/-- The book answers what rests on the sell side up to a price. -/
theorem DepthHolds.askAvailableAtOrBelow (holds : book.DepthHolds .ask quantity) (price : UInt64) :
    book.askAvailableAtOrBelow price =
      UInt64.ofNat (∑ number ∈ Finset.range (price.toNat + 1), quantity number) := by
  have windowEnd := toNat_saturatingAdd book.denseBasePrice ticks.toUInt64
  rw [UInt32.toNat_toUInt64] at windowEnd
  have below := holds.sparse.sumAtOrBelow
  have total := holds.total
  have small := price.toNat_lt
  have start := book.denseBasePrice.toNat_lt
  simp only [depth, half] at below total
  unfold OrderBook.askAvailableAtOrBelow
  cases window : book.denseIndex price with
  | some slot =>
    have place := denseIndex_some.mp window
    have bound := slot.isLt
    have first := holds.dense.prefixSum bound
    simp only [depth, half] at first
    simp only [FenwickTree.prefixSumLe]
    rw [first, below, toNat_saturatingSub_one,
      sum_split book quantity _ (Finset.range (slot.val + 1)),
      sum_outside book quantity (Finset.range (book.denseBasePrice.toNat - 1 + 1))
        (Finset.range (price.toNat + 1))]
    · refine Finset.range_subset_range.mpr ?_
      omega
    · simp only [Finset.mem_range, Spans]
      omega
    · refine Finset.range_subset_range.mpr ?_
      omega
    · simp only [Finset.mem_range]
      omega
  | none =>
    have outside := denseIndex_none.mp window
    simp only []
    split
    · rename_i past
      rw [UInt64.le_iff_toNat_le, windowEnd] at past
      rw [total, below,
        sum_split book quantity _ (Finset.range ticks.toNat) (Finset.Subset.refl _)]
      simp only [Finset.mem_range]
      omega
    · rename_i before
      rw [UInt64.le_iff_toNat_le, windowEnd] at before
      rw [below, sum_split book quantity _ ∅ (Finset.empty_subset _), Finset.sum_empty]
      · exact (UInt64.zero_add _).symm
      · simp only [Finset.mem_range, Finset.notMem_empty, iff_false]
        omega

/-- The book answers what rests on the buy side from a price on, when nothing rests past the
largest price. -/
theorem DepthHolds.bidAvailableAtOrAbove (holds : book.DepthHolds .bid quantity)
    (past : ∀ number, 2 ^ 64 ≤ number → quantity number = 0) (price : UInt64) :
    book.bidAvailableAtOrAbove price =
      UInt64.ofNat (∑ number ∈ Finset.Ico price.toNat (2 ^ 64), quantity number) := by
  have windowEnd := toNat_saturatingAdd book.denseBasePrice ticks.toUInt64
  rw [UInt32.toNat_toUInt64] at windowEnd
  have above := holds.sparse.sumAtOrAbove
  have total := holds.total
  have small := price.toNat_lt
  have start := book.denseBasePrice.toNat_lt
  have real : ∀ number, quantity number ≠ 0 → number < 2 ^ 64 := fun number some =>
    Nat.lt_of_not_le fun beyond => some (past number beyond)
  simp only [depth, half] at above total
  unfold OrderBook.bidAvailableAtOrAbove
  cases window : book.denseIndex price with
  | some slot =>
    have place := denseIndex_some.mp window
    have bound := slot.isLt
    have last := holds.dense.suffixSumGe bound
    simp only [depth, half] at last
    simp only []
    rw [last, above, windowEnd, sum_split book quantity _ (Finset.Ico slot.val ticks.toNat),
      sum_outside book quantity (Finset.Ico (min (book.denseBasePrice.toNat + ticks.toNat)
        (2 ^ 64 - 1)) (2 ^ 64)) (Finset.Ico price.toNat (2 ^ 64))]
    · refine Finset.Ico_subset_Ico ?_ (Nat.le_refl _)
      omega
    · simp only [Finset.mem_Ico, Spans]
      omega
    · rw [Finset.range_eq_Ico]
      exact Finset.Ico_subset_Ico (Nat.zero_le _) (Nat.le_refl _)
    · intro i inside some
      have := real _ some
      simp only [Finset.mem_Ico]
      omega
  | none =>
    have outside := denseIndex_none.mp window
    simp only []
    split
    · rename_i before
      rw [UInt64.lt_iff_toNat_lt] at before
      rw [total, above,
        sum_split book quantity _ (Finset.range ticks.toNat) (Finset.Subset.refl _)]
      intro i inside some
      have := real _ some
      simp only [Finset.mem_Ico, Finset.mem_range]
      omega
    · rename_i after
      rw [UInt64.lt_iff_toNat_lt] at after
      rw [above, sum_split book quantity _ ∅ (Finset.empty_subset _), Finset.sum_empty]
      · exact (UInt64.zero_add _).symm
      · simp only [Finset.mem_Ico, Finset.notMem_empty, iff_false]
        omega

end OrderBook

/-! ## Exact depth indices -/

/-- The depth indices hold what rests in the arena, which is no more than a word. -/
structure DepthExact (book : OrderBook ticks) (arena : Arena) : Prop where
  /-- What rests is a word. -/
  total : arena.totalResting < 2 ^ 64
  /-- The indices of each side hold what rests on it. -/
  holds : ∀ side, book.DepthHolds side (arena.quantityAt side)
  /-- Orders rest at the prices of the price indices. -/
  rest : ∀ side, ∀ price ∈ (book.depth side).2.prices, Rests arena side price

namespace DepthExact

/-- Nothing rests in a new book. -/
theorem new (config : InstrumentConfig) (capacity : UInt32) :
    DepthExact (OrderBook.new config) (Arena.new capacity) := by
  have vacant : (Arena.new capacity).orders = [] := by
    rw [Arena.orders, Arena.new, Array.toList_replicate]
    simp
  have nothing : ∀ side number, (Arena.new capacity).quantityAt side number = 0 :=
    fun side number => by rw [Arena.quantityAt, Arena.sumResting, vacant]; rfl
  have ticks := config.maxTicks.toNat_lt
  have fresh : ∀ side, (OrderBook.new config).depth side =
      (FenwickTree.new config.maxTicks.toNat, SparseVolumeIndex.new) := fun side => by
    cases side <;> rfl
  refine ⟨by rw [Arena.totalResting, vacant]; decide, fun side => ⟨?_, ?_, ?_⟩, fun side => ?_⟩
  · simp only [nothing, fresh]
    exact FenwickTree.holds_new (by omega)
  · simp only [nothing, fresh, ite_self]
    exact SparseVolumeIndex.holds_new
  · rw [fresh]
    exact fun price among => absurd among List.not_mem_nil
  · rw [fresh]
    exact fun price among => absurd among List.not_mem_nil

/-- Inserting an order keeps the depth indices exact when what then rests is a word. -/
theorem insert (exact : DepthExact book arena) (slots : arena.Inv)
    (inserted : Inserted book arena queues order index book' arena')
    (whole : order.remaining = order.quantity) (total : arena'.totalResting < 2 ^ 64) :
    DepthExact book' arena' := by
  have rests : ∀ {side price}, Rests arena side price → Rests arena' side price := by
    intro side price before
    obtain ⟨i, other, found, here⟩ := rests_resting.mp before
    have apart : i ≠ index := by
      rintro rfl
      rw [inserted.fresh] at found
      contradiction
    exact rests_resting.mpr ⟨i, other, by rw [inserted.resting, if_neg apart, found], here⟩
  refine ⟨total, fun side => ?_, fun side price among => ?_⟩
  · by_cases same : order.side = side
    · subst same
      have nodup : (book.depth order.side).2.prices.Nodup :=
        (exact.holds order.side).sparse.sorted.imp fun less => UInt64.ne_of_lt less
      have few := Arena.length_le_of_rests slots nodup (exact.rest order.side)
      have now := inserted.quantityAt slots order.side
      have bounded := now order.price.toNat
      rw [if_pos ⟨rfl, rfl⟩, whole] at bounded
      have most := @Arena.quantityAt_le arena' order.side order.price.toNat
      refine ((exact.holds order.side).raise (by omega) (by omega)).congr ?_
        (inserted.depth order.side) fun number => ?_
      · rw [inserted.base, OrderBook.denseBasePrice_depthAdd]
      · rw [now number, whole]
        simp only [true_and]
    · refine (exact.holds side).congr inserted.base ?_ fun number => ?_
      · rw [inserted.depth, OrderBook.depth_depthAdd, if_neg (Ne.symm same)]
      · rw [inserted.quantityAt slots, if_neg fun here => same here.1, Nat.add_zero]
  · rw [inserted.depth] at among
    obtain ⟨rfl, rfl⟩ | before := OrderBook.mem_prices_depthAdd among
    · exact rests_resting.mpr ⟨index, order, by rw [inserted.resting, if_pos rfl], rfl, rfl⟩
    · exact rests (exact.rest side price before)

/-- Taking a quantity from the depth that leaves the arena at a price keeps the depth indices
exact. -/
theorem lower (exact : DepthExact book arena) (slots : arena'.Inv)
    (base : book'.denseBasePrice = book.denseBasePrice)
    (depth : ∃ lowered, book.depthRemove side price qty = .ok lowered ∧
      ∀ side', book'.depth side' = lowered.depth side')
    (quantities : ∀ side' number, arena.quantityAt side' number = arena'.quantityAt side' number +
      if side = side' ∧ number = price.toNat then qty.toNat else 0)
    (total : arena'.totalResting ≤ arena.totalResting)
    (rests : ∀ side' price', Rests arena side' price' → ¬(side' = side ∧ price' = price) →
      Rests arena' side' price') : DepthExact book' arena' := by
  obtain ⟨lowered, returned, same⟩ := depth
  have base' : book'.denseBasePrice = lowered.denseBasePrice :=
    base.trans (OrderBook.depthRemove_same returned).base.symm
  have here := quantities side price.toNat
  rw [if_pos ⟨rfl, rfl⟩] at here
  obtain ⟨holds, left⟩ := (exact.holds side).lower
    (fun numbers => Nat.lt_of_le_of_lt (Arena.sum_quantityAt_le numbers) exact.total)
    (by omega) returned
  refine ⟨Nat.lt_of_le_of_lt total exact.total, fun side' => ?_, fun side' price' among => ?_⟩
  · by_cases sides : side' = side
    · subst sides
      refine holds.congr base' (same side') fun number => ?_
      rw [quantities side' number]
      simp only [true_and, Nat.add_sub_cancel]
    · refine (exact.holds side').congr base ?_ fun number => ?_
      · rw [same, OrderBook.depth_depthRemove_other sides returned]
      · rw [quantities side' number, if_neg fun here => sides here.1.symm, Nat.add_zero]
  · rw [same] at among
    by_cases sides : side' = side
    · subst sides
      obtain ⟨before, some⟩ := left price' among
      by_cases prices : price' = price
      · subst prices
        exact Arena.rests_of_quantityAt slots (by have := some rfl; omega)
      · exact rests side' price' (exact.rest side' price' before) fun same => prices same.2
    · rw [OrderBook.depth_depthRemove_other sides returned] at among
      exact rests side' price' (exact.rest side' price' among) fun same => sides same.1

/-- Removing an order keeps the depth indices exact. -/
theorem remove (exact : DepthExact book arena) (slots : arena.Inv)
    (removed : Removed book arena queues order index book' arena') : DepthExact book' arena' := by
  have total := removed.weigh slots fun order => order.remaining.toNat
  rw [← Arena.totalResting_eq, ← Arena.totalResting_eq] at total
  refine exact.lower removed.represents.slots removed.base removed.depth
    (removed.quantityAt slots) (by omega) ?_
  intro side price before apart
  obtain ⟨i, other, found, rfl, rfl⟩ := rests_resting.mp before
  have beside : i ≠ index := by
    rintro rfl
    obtain rfl := Option.some.inj (found.symm.trans removed.found)
    exact apart ⟨rfl, rfl⟩
  exact rests_resting.mpr ⟨i, other, by rw [removed.resting, if_neg beside, found], rfl, rfl⟩

/-- Taking a quantity from an order and from the depth keeps the depth indices exact. -/
theorem take (exact : DepthExact book arena) (queued : Queued arena queues)
    (taken : Taken book arena queues order index delta book' arena')
    (bound : delta ≤ order.remaining)
    (depth : ∃ lowered, book.depthRemove order.side order.price delta = .ok lowered ∧
      ∀ side, book'.depth side = lowered.depth side) : DepthExact book' arena' := by
  have total := taken.weigh queued.slots fun order => order.remaining.toNat
  have less := (Order.fill_sound (queued.sound taken.found) bound).2
  have left := UInt64.toNat_sub_of_le _ _ bound
  rw [less, left, ← Arena.totalResting_eq, ← Arena.totalResting_eq] at total
  refine exact.lower taken.represents.slots taken.base depth (taken.quantityAt queued bound)
    (by omega) ?_
  intro side price before apart
  obtain ⟨i, other, found, rfl, rfl⟩ := rests_resting.mp before
  have beside : i ≠ index := by
    rintro rfl
    obtain rfl := Option.some.inj (found.symm.trans taken.found)
    exact apart ⟨rfl, rfl⟩
  exact rests_resting.mpr ⟨i, other, by rw [taken.resting, if_neg beside, found], rfl, rfl⟩

/-- The sum of what rests at some prices is a word. -/
theorem toNat_sum (exact : DepthExact book arena) (side : Side) (numbers : Finset Nat) :
    (UInt64.ofNat (∑ number ∈ numbers, arena.quantityAt side number)).toNat =
      arena.sumResting side fun price => decide (price.toNat ∈ numbers) := by
  rw [UInt64.toNat_ofNat_of_lt', Arena.sum_quantityAt]
  exact Nat.lt_of_le_of_lt (Arena.sum_quantityAt_le numbers) exact.total

/-- The book answers what rests on the sell side up to a price. -/
theorem askAvailableAtOrBelow (exact : DepthExact book arena) (price : UInt64) :
    (book.askAvailableAtOrBelow price).toNat = arena.sumResting .ask (· ≤ price) := by
  rw [(exact.holds .ask).askAvailableAtOrBelow, exact.toNat_sum]
  simp only [Finset.mem_range, Nat.lt_succ_iff, UInt64.le_iff_toNat_le]

/-- The book answers what rests on the buy side from a price on. -/
theorem bidAvailableAtOrAbove (exact : DepthExact book arena) (price : UInt64) :
    (book.bidAvailableAtOrAbove price).toNat = arena.sumResting .bid (price ≤ ·) := by
  rw [(exact.holds .bid).bidAvailableAtOrAbove fun _ => Arena.quantityAt_past, exact.toNat_sum]
  simp only [Finset.mem_Ico, UInt64.toNat_lt, and_true, UInt64.le_iff_toNat_le]

end DepthExact

end MatchX
