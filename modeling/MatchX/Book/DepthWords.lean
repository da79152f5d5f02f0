import MatchX.Book.Assertions

/-!
# The additions of the depth indices

Every addition of quantities that the depth indices make, along the code that makes it: those of a
tree that grows or is built anew, those of the quantities by price, and those of the answers, which
add what a tree says of the window to what the price index says of the rest. None of them passes
the largest word when what a side holds in all is a word.
-/

namespace MatchX

open MatchX.Support

/-- The value of a word made from a number is no more than the number. -/
theorem toNat_ofNat_le (number : Nat) : (UInt64.ofNat number).toNat ≤ number := by
  rw [UInt64.toNat_ofNat']
  exact Nat.mod_le _ _

namespace FenwickTree

variable {tree : FenwickTree} {size index : Nat} {weight : Nat → Nat}

/-- A prefix sum is no more than all weights. -/
theorem Holds.prefixSum_le (holds : tree.Holds size weight) (inside : index < size) :
    (tree.prefixSum index).toNat ≤ ∑ i ∈ Finset.range size, weight i := by
  rw [holds.prefixSum inside]
  refine Nat.le_trans (toNat_ofNat_le _) (Finset.sum_le_sum_of_subset ?_)
  exact Finset.range_subset_range.mpr (by omega)

/-- A suffix sum is no more than all weights. -/
theorem Holds.suffixSumGe_le (holds : tree.Holds size weight) (inside : index < size) :
    (tree.suffixSumGe index).toNat ≤ ∑ i ∈ Finset.range size, weight i := by
  rw [holds.suffixSumGe inside]
  refine Nat.le_trans (toNat_ofNat_le _) (Finset.sum_le_sum_of_subset ?_)
  rw [Finset.range_eq_Ico]
  exact Finset.Ico_subset_Ico (Nat.zero_le _) (Nat.le_refl _)

end FenwickTree

namespace SparseVolumeIndex

variable {index : SparseVolumeIndex} {quantity : Nat → Nat} {price qty : UInt64}

/-! ## The additions of the price index -/

/-- No addition overflows when a tree gets the quantities of ranks one by one. -/
def addsFit : List (UInt64 × Nat) → FenwickTree → Prop
  | [], _ => True
  | (qty, i) :: rest, tree =>
    (0 < qty → tree.Addable i qty) ∧ addsFit rest (if 0 < qty then tree.add i qty else tree)

/-- No addition of `SparseVolumeIndex::rebuild_fenwick` overflows. -/
def RebuildFits (index : SparseVolumeIndex) : Prop :=
  addsFit index.qtys.zipIdx (FenwickTree.new index.prices.length)

/-- No addition of `SparseVolumeIndex::add` overflows. -/
def Addable (index : SparseVolumeIndex) (price qty : UInt64) : Prop :=
  match binarySearch index.prices price with
  | (rank, true) =>
    (index.qtys.getD rank 0).toNat + qty.toNat < 2 ^ 64 ∧ index.fenwick.Addable rank qty
  | (rank, false) =>
    RebuildFits { index with
      prices := index.prices.insertIdx rank price
      qtys := index.qtys.insertIdx rank qty }

/-- No addition of `SparseVolumeIndex::sub` overflows: it adds only where a price leaves the index
and the tree is built anew. -/
def SubFits (index : SparseVolumeIndex) (price qty : UInt64) : Prop :=
  match binarySearch index.prices price with
  | (_, false) => True
  | (rank, true) => checkedSub (index.qtys.getD rank 0) qty = some 0 →
    RebuildFits { index with
      prices := index.prices.eraseIdx rank
      qtys := (index.qtys.set rank 0).eraseIdx rank }

/-- No addition of `SparseVolumeIndex::sum_at_or_below` overflows. -/
def BelowFits (index : SparseVolumeIndex) (price : UInt64) : Prop :=
  let n := partitionPoint (· ≤ price) index.prices
  n ≠ 0 → index.fenwick.PrefixFits (n - 1)

/-- No addition of `SparseVolumeIndex::sum_at_or_above` overflows. -/
def AboveFits (index : SparseVolumeIndex) (price : UInt64) : Prop :=
  let start := partitionPoint (· < price) index.prices
  let n := index.prices.length
  start < n → index.fenwick.PrefixFits (n - 1) ∧
    (0 < start → index.fenwick.PrefixFits (start - 1))

/-- Adding the quantities of ranks overflows nowhere, when the weights of the tree and the
quantities sum to a word. -/
theorem addsFit_of_sum {tree : FenwickTree} {size : Nat} {weight : Nat → Nat}
    (holds : tree.Holds size weight) (qtys : List UInt64) (start : Nat)
    (inside : start + qtys.length ≤ size)
    (bounded : ∑ i ∈ Finset.range size, weight i + (qtys.map UInt64.toNat).sum < 2 ^ 64) :
    addsFit (qtys.zipIdx start) tree := by
  induction qtys generalizing tree weight start with
  | nil => trivial
  | cons qty rest ih =>
    rw [List.map_cons, List.sum_cons] at bounded
    rw [List.length_cons] at inside
    have first : (if 0 < qty then tree.add start qty else tree).Holds size
        fun i => weight i + if i = start then qty.toNat else 0 := by
      split
      · exact holds.add start qty
      · rename_i zero
        obtain rfl : qty = 0 := by simpa using zero
        simpa using holds
    have total : ∑ i ∈ Finset.range size, (weight i + if i = start then qty.toNat else 0) =
        ∑ i ∈ Finset.range size, weight i + qty.toNat := by
      rw [Finset.sum_add_distrib, Finset.sum_ite_eq',
        if_pos (Finset.mem_range.mpr (by omega))]
    rw [List.zipIdx_cons]
    refine ⟨fun _ => holds.addable (by omega), ih first (start + 1) (by omega) ?_⟩
    rw [total]
    omega

/-- Building the tree anew overflows nowhere, when the quantities sum to a word. -/
theorem rebuildFits_of_sum (aligned : index.qtys.length = index.prices.length)
    (fits : index.prices.length + 1 < 2 ^ 64)
    (bounded : (index.qtys.map UInt64.toNat).sum < 2 ^ 64) : index.RebuildFits := by
  refine addsFit_of_sum (FenwickTree.holds_new fits) index.qtys 0 ?_ ?_
  · omega
  · rw [Finset.sum_const_zero, Nat.zero_add]
    exact bounded

/-- Adding a quantity overflows nowhere, when it and all that is held sum to a word. -/
theorem Holds.addable (holds : index.Holds quantity) (fits : index.prices.length + 2 < 2 ^ 64)
    (bounded : (index.qtys.map UInt64.toNat).sum + qty.toNat < 2 ^ 64) :
    index.Addable price qty := by
  obtain ⟨low, high, lowQtys, highQtys, around,
    ⟨old, prices, qtys, value, search⟩ | ⟨prices, qtys, unused, search⟩⟩ := holds.around price
  · have here : index.qtys.getD low.length 0 = old := by
      rw [qtys, ← around.aligned]
      simp
    have part : old.toNat ≤ (index.qtys.map UInt64.toNat).sum := by
      rw [qtys]
      simp only [List.map_append, List.map_cons, List.sum_append, List.sum_cons]
      omega
    unfold Addable
    rw [search]
    refine ⟨by rw [here]; omega, holds.tree.addable ?_⟩
    rw [holds.sum_ranks_all]
    exact bounded
  · have lengths := congrArg List.length prices
    rw [List.length_append] at lengths
    unfold Addable
    rw [search]
    simp only [prices, insertIdx_middle]
    rw [qtys, ← around.aligned, insertIdx_middle]
    refine rebuildFits_of_sum ?_ ?_ ?_
    · have high := congrArg List.length around.highs
      rw [List.length_map, List.length_map] at high
      simp [around.aligned, high]
    · simp only [List.length_append, List.length_cons]
      omega
    · rw [qtys] at bounded
      simp only [List.map_append, List.map_cons, List.sum_append, List.sum_cons] at bounded ⊢
      omega

/-- Taking a quantity overflows nowhere, when all that is held sums to a word. -/
theorem Holds.subFits (holds : index.Holds quantity)
    (bounded : (index.qtys.map UInt64.toNat).sum < 2 ^ 64) : index.SubFits price qty := by
  have fits := holds.tree.fits
  unfold SubFits
  split
  · trivial
  · rename_i rank search
    intro _
    have shorter := List.length_eraseIdx_le index.prices rank
    have fewer : (index.qtys.eraseIdx rank).Sublist index.qtys := List.eraseIdx_sublist ..
    rw [List.eraseIdx_set_eq]
    refine rebuildFits_of_sum ?_ (by dsimp only; omega) ?_
    · simp [List.length_eraseIdx, holds.aligned]
    · exact Nat.lt_of_le_of_lt ((fewer.map UInt64.toNat).sum_le_sum fun _ _ => Nat.zero_le _) bounded

/-- A prefix sum over the first ranks overflows nowhere. -/
theorem Holds.ranksFit (holds : index.Holds quantity)
    (bounded : (index.qtys.map UInt64.toNat).sum < 2 ^ 64) {rank : Nat}
    (inside : rank < index.prices.length) : index.fenwick.PrefixFits rank :=
  holds.tree.prefixFits inside (holds.sum_ranks_all ▸ bounded)

/-- Summing up to a price overflows nowhere, when all that is held sums to a word. -/
theorem Holds.belowFits (holds : index.Holds quantity)
    (bounded : (index.qtys.map UInt64.toNat).sum < 2 ^ 64) : index.BelowFits price := by
  have inside := partitionPoint_le (· ≤ price) index.prices
  exact fun some => holds.ranksFit bounded (by omega)

/-- Summing from a price on overflows nowhere, when all that is held sums to a word. -/
theorem Holds.aboveFits (holds : index.Holds quantity)
    (bounded : (index.qtys.map UInt64.toNat).sum < 2 ^ 64) : index.AboveFits price := by
  have inside := partitionPoint_le (· < price) index.prices
  exact fun some => ⟨holds.ranksFit bounded (by omega), fun _ => holds.ranksFit bounded (by omega)⟩

/-- What is answered up to a price is no more than all that is held. -/
theorem Holds.sumAtOrBelow_le (holds : index.Holds quantity) (price : UInt64) :
    (index.sumAtOrBelow price).toNat ≤ (index.qtys.map UInt64.toNat).sum := by
  have small := price.toNat_lt
  rw [holds.sumAtOrBelow, ← holds.sum_ranks_all, holds.sum_all]
  refine Nat.le_trans (toNat_ofNat_le _) (Finset.sum_le_sum_of_subset ?_)
  exact Finset.range_subset_range.mpr (by omega)

/-- What is answered from a price on is no more than all that is held. -/
theorem Holds.sumAtOrAbove_le (holds : index.Holds quantity) (price : UInt64) :
    (index.sumAtOrAbove price).toNat ≤ (index.qtys.map UInt64.toNat).sum := by
  rw [holds.sumAtOrAbove, ← holds.sum_ranks_all, holds.sum_all, Finset.range_eq_Ico]
  refine Nat.le_trans (toNat_ofNat_le _) (Finset.sum_le_sum_of_subset ?_)
  exact Finset.Ico_subset_Ico (Nat.zero_le _) (Nat.le_refl _)

end SparseVolumeIndex

namespace OrderBook

variable {ticks : UInt32} {book : OrderBook ticks} {side : Side} {price qty : UInt64}
  {quantity : Nat → Nat}

/-! ## The additions of the book -/

/-- No addition of `depth_add` overflows. -/
def DepthAddable (book : OrderBook ticks) (side : Side) (price qty : UInt64) : Prop :=
  match book.denseIndex price with
  | some slot => (book.depth side).1.Addable slot qty
  | none => (book.depth side).2.Addable price qty

/-- No addition of `depth_remove` overflows. -/
def DepthSubFits (book : OrderBook ticks) (side : Side) (price qty : UInt64) : Prop :=
  match book.denseIndex price with
  | some _ => True
  | none => (book.depth side).2.SubFits price qty

/-- What all window slots of a side hold, as an answer past the window starts. -/
def denseTotal (book : OrderBook ticks) (side : Side) : UInt64 :=
  if 0 < ticks then (book.depth side).1.prefixSum (ticks.toNat - 1) else 0

/-- No addition of `ask_available_at_or_below` overflows. -/
def AskSumFits (book : OrderBook ticks) (price : UInt64) : Prop :=
  let (dense, sparse) := book.depth .ask
  match book.denseIndex price with
  | some i =>
    let last := saturatingSub book.denseBasePrice 1
    dense.PrefixFits i ∧ sparse.BelowFits last ∧
      (dense.prefixSumLe i).toNat + (sparse.sumAtOrBelow last).toNat < 2 ^ 64
  | none =>
    sparse.BelowFits price ∧
      (saturatingAdd book.denseBasePrice ticks.toUInt64 ≤ price →
        (0 < ticks → dense.PrefixFits (ticks.toNat - 1)) ∧
          (book.denseTotal .ask).toNat + (sparse.sumAtOrBelow price).toNat < 2 ^ 64)

/-- No addition of `bid_available_at_or_above` overflows. -/
def BidSumFits (book : OrderBook ticks) (price : UInt64) : Prop :=
  let (dense, sparse) := book.depth .bid
  match book.denseIndex price with
  | some i =>
    let windowEnd := saturatingAdd book.denseBasePrice ticks.toUInt64
    dense.SuffixFits i ∧ sparse.AboveFits windowEnd ∧
      (dense.suffixSumGe i).toNat + (sparse.sumAtOrAbove windowEnd).toNat < 2 ^ 64
  | none =>
    sparse.AboveFits price ∧
      (price < book.denseBasePrice →
        (0 < ticks → dense.PrefixFits (ticks.toNat - 1)) ∧
          (book.denseTotal .bid).toNat + (sparse.sumAtOrAbove price).toNat < 2 ^ 64)

/-- What the window slots and the price index of a side hold in all. -/
theorem DepthHolds.sum_parts (holds : book.DepthHolds side quantity) :
    ∑ slot ∈ Finset.range ticks.toNat, quantity (book.denseBasePrice.toNat + slot) +
      ((book.depth side).2.qtys.map UInt64.toNat).sum ≤
    ∑ number ∈ Finset.range (2 ^ 64 + ticks.toNat), quantity number := by
  have start := book.denseBasePrice.toNat_lt
  rw [@sum_window _ book quantity (Finset.range (2 ^ 64 + ticks.toNat)),
    ← holds.sparse.sum_ranks_all, holds.sparse.sum_all]
  refine Nat.add_le_add (Nat.le_of_eq (Finset.sum_congr rfl fun slot inside => ?_)) ?_
  · have among := Finset.mem_range.mp inside
    rw [if_pos (Finset.mem_range.mpr (by omega))]
  · exact Finset.sum_le_sum_of_subset (Finset.range_subset_range.mpr (Nat.le_add_right ..))

/-- What the window slots of a side hold is a word. -/
theorem DepthHolds.dense_sum (holds : book.DepthHolds side quantity)
    (bounded : ∀ numbers : Finset Nat, ∑ number ∈ numbers, quantity number < 2 ^ 64) :
    ∑ slot ∈ Finset.range ticks.toNat, quantity (book.denseBasePrice.toNat + slot) < 2 ^ 64 := by
  have parts := holds.sum_parts
  have word := bounded (Finset.range (2 ^ 64 + ticks.toNat))
  omega

/-- What is answered for all window slots is no more than they hold. -/
theorem DepthHolds.denseTotal_le (holds : book.DepthHolds side quantity) :
    (book.denseTotal side).toNat ≤
      ∑ slot ∈ Finset.range ticks.toNat, quantity (book.denseBasePrice.toNat + slot) := by
  unfold denseTotal
  rw [holds.total]
  exact toNat_ofNat_le _

/-- The sum over all window slots overflows nowhere. -/
theorem DepthHolds.denseTotal_fits (holds : book.DepthHolds side quantity)
    (bounded : ∀ numbers : Finset Nat, ∑ number ∈ numbers, quantity number < 2 ^ 64)
    (some : 0 < ticks) : (book.depth side).1.PrefixFits (ticks.toNat - 1) := by
  have positive : 0 < ticks.toNat := some
  exact holds.dense.prefixFits (by omega) (holds.dense_sum bounded)

/-- Raising the depth overflows nowhere, when the quantity and all that is held sum to a word. -/
theorem DepthHolds.addable (holds : book.DepthHolds side quantity)
    (fits : (book.depth side).2.prices.length + 2 < 2 ^ 64)
    (word : ∑ number ∈ Finset.range (2 ^ 64 + ticks.toNat), quantity number + qty.toNat < 2 ^ 64) :
    book.DepthAddable side price qty := by
  have parts := holds.sum_parts
  unfold DepthAddable
  split
  · exact holds.dense.addable (by omega)
  · exact holds.sparse.addable fits (by omega)

/-- Lowering the depth overflows nowhere. -/
theorem DepthHolds.subFits (holds : book.DepthHolds side quantity)
    (bounded : ∀ numbers : Finset Nat, ∑ number ∈ numbers, quantity number < 2 ^ 64) :
    book.DepthSubFits side price qty := by
  unfold DepthSubFits
  split
  · trivial
  · exact holds.sparse.subFits (holds.sparse_sum bounded)

/-- An answer about the sell side overflows nowhere. -/
theorem DepthHolds.askSumFits (holds : book.DepthHolds .ask quantity)
    (bounded : ∀ numbers : Finset Nat, ∑ number ∈ numbers, quantity number < 2 ^ 64)
    (price : UInt64) : book.AskSumFits price := by
  have parts := holds.sum_parts
  have word := bounded (Finset.range (2 ^ 64 + ticks.toNat))
  have sparse := holds.sparse_sum bounded
  unfold AskSumFits
  dsimp only
  split
  · rename_i slot window
    have dense := holds.dense.prefixSum_le slot.isLt
    have below := holds.sparse.sumAtOrBelow_le (saturatingSub book.denseBasePrice 1)
    refine ⟨holds.dense.prefixFits slot.isLt (holds.dense_sum bounded),
      holds.sparse.belowFits sparse, ?_⟩
    unfold FenwickTree.prefixSumLe
    omega
  · have dense := holds.denseTotal_le
    have below := holds.sparse.sumAtOrBelow_le price
    exact ⟨holds.sparse.belowFits sparse, fun _ => ⟨holds.denseTotal_fits bounded, by omega⟩⟩

/-- An answer about the buy side overflows nowhere. -/
theorem DepthHolds.bidSumFits (holds : book.DepthHolds .bid quantity)
    (bounded : ∀ numbers : Finset Nat, ∑ number ∈ numbers, quantity number < 2 ^ 64)
    (price : UInt64) : book.BidSumFits price := by
  have parts := holds.sum_parts
  have word := bounded (Finset.range (2 ^ 64 + ticks.toNat))
  have sparse := holds.sparse_sum bounded
  unfold BidSumFits
  dsimp only
  split
  · rename_i slot window
    have dense := holds.dense.suffixSumGe_le slot.isLt
    have above := holds.sparse.sumAtOrAbove_le
      (saturatingAdd book.denseBasePrice ticks.toUInt64)
    exact ⟨holds.dense.suffixFits slot.isLt (holds.dense_sum bounded),
      holds.sparse.aboveFits sparse, by omega⟩
  · have dense := holds.denseTotal_le
    have above := holds.sparse.sumAtOrAbove_le price
    exact ⟨holds.sparse.aboveFits sparse, fun _ => ⟨holds.denseTotal_fits bounded, by omega⟩⟩

/-- No addition overflows when the book takes a quantity at a price: neither the total of the level
nor the depth. -/
structure RestFits (book : OrderBook ticks) (side : Side) (price qty : UInt64) : Prop where
  /-- The level's total does not overflow. -/
  total : (book.level side price).totalQuantity.toNat + qty.toNat < 2 ^ 64
  /-- The depth can be raised. -/
  depth : book.DepthAddable side price qty

end OrderBook

/-! ## True sums -/

/-- Every sum of quantities of a book is the true one. The depth indices hold quantities, at every
price at least what rests there; the levels total what rests in them, the answers about the depth
are sums of what is held, and no addition overflows: none of an answer, of a fill, or where
lowering the depth builds a tree anew. -/
structure TrueSums {ticks : UInt32} (book : OrderBook ticks) (arena : Arena)
    (held : Side → Nat → Nat) : Prop where
  /-- The depth indices hold the quantities. -/
  depth : ∀ side, book.DepthHolds side (held side)
  /-- What rests at a price is held there. -/
  covers : ∀ side number, arena.quantityAt side number ≤ held side number
  /-- A level totals what rests in it. -/
  levels : ∀ side price, (book.level side price).totalQuantity.toNat =
    arena.sumResting side (· == price)
  /-- The answers about the sell side are sums of what is held. -/
  asks : ∀ price, book.AskSumFits price ∧ (book.askAvailableAtOrBelow price).toNat =
    ∑ number ∈ Finset.range (price.toNat + 1), held .ask number
  /-- The answers about the buy side are sums of what is held. -/
  bids : ∀ price, book.BidSumFits price ∧ (book.bidAvailableAtOrAbove price).toNat =
    ∑ number ∈ Finset.Ico price.toNat (2 ^ 64), held .bid number
  /-- What is filled of an order does not overflow. -/
  fills : ∀ index order delta, arena.find index = some order → delta ≤ order.remaining →
    order.filled.toNat + delta.toNat < 2 ^ 64
  /-- Lowering the depth by what remains of an order, or less, adds without overflow. -/
  lowers : ∀ index order delta, arena.find index = some order → delta ≤ order.remaining →
    book.DepthSubFits order.side order.price delta

variable {ticks : UInt32} {book : OrderBook ticks} {arena : Arena} {queues : Queues}
  {held : Side → Nat → Nat}

/-- The sums are true where the depth indices hold at least what rests and words in all. -/
theorem DepthCovers.trueSums (rep : Represents book arena queues)
    (covers : DepthCovers book arena held) : TrueSums book arena held where
  depth := covers.holds
  covers := covers.covers
  levels side price := by rw [toNat_total rep covers, rep.toQueued.liquidity_eq]
  asks price := by
    refine ⟨(covers.holds .ask).askSumFits (covers.bounded .ask) price, ?_⟩
    rw [(covers.holds .ask).askAvailableAtOrBelow]
    exact UInt64.toNat_ofNat_of_lt' (covers.bounded .ask _)
  bids price := by
    refine ⟨(covers.holds .bid).bidSumFits (covers.bounded .bid) price, ?_⟩
    rw [(covers.holds .bid).bidAvailableAtOrAbove (covers.past .bid)]
    exact UInt64.toNat_ofNat_of_lt' (covers.bounded .bid _)
  fills index order delta found bound := by
    have sound := rep.find_sound found
    have word := order.quantity.toNat_lt
    have most := UInt64.le_iff_toNat_le.mp sound
    have left := UInt64.le_iff_toNat_le.mp bound
    rw [Order.remaining, saturatingSub, if_pos sound, UInt64.toNat_sub_of_le _ _ sound] at left
    omega
  lowers index order delta _ _ := (covers.holds order.side).subFits (covers.bounded order.side)

/-- Taking a quantity overflows nowhere, when what the depth indices of its side hold leaves room
for it. -/
theorem DepthCovers.restFits {side : Side} {price qty : UInt64} (rep : Represents book arena queues)
    (covers : DepthCovers book arena held)
    (fits : (book.depth side).2.prices.length + 2 < 2 ^ 64)
    (word : ∑ number ∈ Finset.range (2 ^ 64), held side number + qty.toNat < 2 ^ 64) :
    book.RestFits side price qty := by
  constructor
  · have most : liquidity arena (queues side price) ≤ held side price.toNat :=
      covers.liquidity_le rep.toQueued
    have part : held side price.toNat ≤ ∑ number ∈ Finset.range (2 ^ 64), held side number :=
      Finset.single_le_sum (fun _ _ => Nat.zero_le _) (Finset.mem_range.mpr price.toNat_lt)
    rw [toNat_total rep covers]
    omega
  · refine (covers.holds side).addable fits ?_
    have wide : ∑ number ∈ Finset.range (2 ^ 64 + ticks.toNat), held side number =
        ∑ number ∈ Finset.range (2 ^ 64), held side number := by
      refine (Finset.sum_subset (Finset.range_subset_range.mpr (Nat.le_add_right ..)) ?_).symm
      intro number _ beyond
      exact covers.past side number (Nat.le_of_not_lt fun inside =>
        beyond (Finset.mem_range.mpr inside))
    rw [wide]
    exact word

end MatchX
