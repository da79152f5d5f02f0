import MatchX.Book.OrderBook

/-!
# Recentering the dense window

Moving the window evicts every level of it to the sparse map, absorbs the sparse levels of
the new window, and rebuilds the occupancy bits, the depth indices and the best prices.
-/

namespace MatchX

open Std (ExtTreeMap)
open MatchX.Support

variable {ticks : UInt32}

namespace BookSide

/-- Step 1 of `force_recenter`: move every non-empty level of the window, which starts at
`oldBase`, to the sparse map and clear the window. -/
def evict (half : BookSide ticks) (oldBase : UInt64) : BookSide ticks :=
  { half with
    sparse := (List.finRange ticks.toNat).foldl
      (fun sparse i =>
        if (half.denseLevel i).isEmpty then sparse
        else sparse.insert (oldBase + UInt64.ofNat i.val) (half.denseLevel i))
      half.sparse
    dense := Vector.replicate ticks.toNat PriceLevel.empty }

/-- One level of step 2 of `force_recenter`: move a sparse level into its window slot. -/
def absorbOne (slot : UInt64 → Option (Fin ticks.toNat)) (half : BookSide ticks)
    (price : UInt64) : BookSide ticks :=
  match half.sparse[price]?, slot price with
  | some level, some i =>
    { half.setDenseLevel i level with sparse := half.sparse.erase price }
  | _, _ => half

/-- Step 2 of `force_recenter`: the sparse keys of the new window, each moved into it. -/
def absorb (half : BookSide ticks) (slot : UInt64 → Option (Fin ticks.toNat))
    (newBase newEnd : UInt64) : BookSide ticks :=
  (half.sparse.keys.filter fun key => newBase ≤ key && key < newEnd).foldl (absorbOne slot) half

/-- The window part of `rebuild_indices`: bits and Fenwick tree from the window levels. -/
def rebuildDense (half : BookSide ticks) : BookSide ticks :=
  (List.finRange ticks.toNat).foldl
    (fun rebuilt i =>
      if (half.denseLevel i).isEmpty then rebuilt
      else { rebuilt with
        occupied := rebuilt.occupied.insert i
        depthIndex := rebuilt.depthIndex.add i (half.denseLevel i).totalQuantity })
    { half with
      occupied := Bitset.empty ticks.toNat
      depthIndex := FenwickTree.new ticks.toNat }

/-- `rebuild_sparse_indices`, one side: the price index from the sparse levels. -/
def rebuildSparse (half : BookSide ticks) : BookSide ticks :=
  { half with
    sparseIndex := (half.sparse.toList.filter fun entry => !entry.2.isEmpty).foldl
      (fun index entry => index.add entry.1 entry.2.totalQuantity) SparseVolumeIndex.new }

end BookSide

namespace OrderBook

/-- `OrderBook::rebuild_indices`. -/
def rebuildIndices (book : OrderBook ticks) : OrderBook ticks :=
  { book with
    bids := book.bids.rebuildDense.rebuildSparse
    asks := book.asks.rebuildDense.rebuildSparse }

/-- One side of `refresh_bbo_after_recenter`: a cached best price whose level is empty is
found anew. -/
def refreshBest (book : OrderBook ticks) (side : Side) : OrderBook ticks :=
  match book.best side with
  | some price =>
    if book.levelIsEmpty side price then book.setBest side (book.scanBest side) else book
  | none => book

/-- `OrderBook::refresh_bbo_after_recenter`. -/
def refreshBboAfterRecenter (book : OrderBook ticks) : OrderBook ticks :=
  (book.refreshBest .bid).refreshBest .ask

/-- `OrderBook::force_recenter`. The arena is not touched. -/
def forceRecenter (book : OrderBook ticks) (newBase : UInt64) :
    Except Fault (OrderBook ticks) :=
  if newBase = book.denseBasePrice then .ok book
  else
    let oldBase := book.denseBasePrice
    let newEnd := newBase + ticks.toUInt64
    let book := { book with
      bids := book.bids.evict oldBase
      asks := book.asks.evict oldBase
      denseBasePrice := newBase }
    if newEnd < newBase then .error .rangeInverted
    else
      let book := { book with
        bids := book.bids.absorb book.denseIndex newBase newEnd
        asks := book.asks.absorb book.denseIndex newBase newEnd }
      .ok book.rebuildIndices.refreshBboAfterRecenter

end OrderBook

end MatchX
