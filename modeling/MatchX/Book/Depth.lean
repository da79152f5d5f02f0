import MatchX.Types

/-!
# Depth indices

The Fenwick tree over the dense window and the sorted price index over the levels outside
it. Both answer how much quantity rests at or beyond a price.
-/

namespace MatchX

/-- `i & i.wrapping_neg()` on a 64-bit `usize`: the lowest set bit. -/
def lowestBit (i : Nat) : Nat := i &&& (2 ^ 64 - i)

/-- Fenwick tree; node `i` sums the `lowestBit i` positions that end at position `i - 1`. -/
structure FenwickTree where
  /-- The nodes; node 0 is not used. -/
  data : Array UInt64

namespace FenwickTree

/-- `FenwickTree::new`. -/
def new (size : Nat) : FenwickTree := ⟨Array.replicate (size + 1) 0⟩

/-- The upward walk of `add` and `sub`: change node `i` and every node above it. The walk
ends because each further node has a larger number; `fuel` counts them. -/
def walkUp (change : UInt64 → UInt64) : Nat → Nat → Array UInt64 → Array UInt64
  | 0, _, data => data
  | fuel + 1, i, data =>
    if i < data.size then walkUp change fuel (i + lowestBit i) (data.modify i change) else data

/-- `FenwickTree::add`. -/
def add (tree : FenwickTree) (index : Nat) (delta : UInt64) : FenwickTree :=
  ⟨walkUp (· + delta) tree.data.size (index + 1) tree.data⟩

/-- `FenwickTree::sub`. -/
def sub (tree : FenwickTree) (index : Nat) (delta : UInt64) : FenwickTree :=
  ⟨walkUp (saturatingSub · delta) tree.data.size (index + 1) tree.data⟩

/-- The downward walk of `prefix_sum`: node `i` and every node to its left. -/
def walkDown (data : Array UInt64) : Nat → Nat → UInt64 → UInt64
  | 0, _, acc => acc
  | fuel + 1, i, acc =>
    if 0 < i then walkDown data fuel (i - lowestBit i) (acc + data.getD i 0) else acc

/-- `FenwickTree::prefix_sum`: the sum of the positions up to and including `index`. -/
def prefixSum (tree : FenwickTree) (index : Nat) : UInt64 :=
  walkDown tree.data (index + 1) (index + 1) 0

/-- `FenwickTree::prefix_sum_le`. -/
def prefixSumLe (tree : FenwickTree) (index : Nat) : UInt64 := tree.prefixSum index

/-- `FenwickTree::suffix_sum_ge`: the sum of the positions from `index` on. -/
def suffixSumGe (tree : FenwickTree) (index : Nat) : UInt64 :=
  let total := tree.prefixSum (tree.data.size - 2)
  let before := match index with
    | 0 => 0
    | i + 1 => tree.prefixSum i
  total - before

end FenwickTree

/-- `slice::partition_point`: how many elements at the front satisfy a predicate. -/
def partitionPoint {α : Type} (pred : α → Bool) (values : List α) : Nat :=
  (values.takeWhile pred).length

/-- `slice::binary_search` in a sorted slice: the rank of the value and whether it is
there. -/
def binarySearch (values : List UInt64) (value : UInt64) : Nat × Bool :=
  let rank := partitionPoint (· < value) values
  (rank, values[rank]? == some value)

/-- Sorted prices with their quantities and a Fenwick tree over the ranks. -/
structure SparseVolumeIndex where
  /-- The prices, ascending. -/
  prices : List UInt64
  /-- The quantity of each price. -/
  qtys : List UInt64
  /-- Sums of the quantities by rank. -/
  fenwick : FenwickTree

namespace SparseVolumeIndex

/-- `SparseVolumeIndex::new`. -/
def new : SparseVolumeIndex := ⟨[], [], FenwickTree.new 0⟩

/-- `SparseVolumeIndex::rebuild_fenwick`. -/
def rebuildFenwick (index : SparseVolumeIndex) : SparseVolumeIndex :=
  { index with
    fenwick := index.qtys.zipIdx.foldl
      (fun tree (qty, i) => if 0 < qty then tree.add i qty else tree)
      (FenwickTree.new index.prices.length) }

/-- `SparseVolumeIndex::add`. -/
def add (index : SparseVolumeIndex) (price qty : UInt64) : SparseVolumeIndex :=
  match binarySearch index.prices price with
  | (rank, true) =>
    { index with
      qtys := index.qtys.modify rank (· + qty)
      fenwick := index.fenwick.add rank qty }
  | (rank, false) =>
    rebuildFenwick { index with
      prices := index.prices.insertIdx rank price
      qtys := index.qtys.insertIdx rank qty }

/-- `SparseVolumeIndex::sub`. -/
def sub (index : SparseVolumeIndex) (price qty : UInt64) : Except Fault SparseVolumeIndex :=
  match binarySearch index.prices price with
  | (_, false) => .error .sparsePriceMissing
  | (rank, true) =>
    match checkedSub (index.qtys.getD rank 0) qty with
    | none => .error .sparseUnderflow
    | some left =>
      let index := { index with
        qtys := index.qtys.set rank left
        fenwick := index.fenwick.sub rank qty }
      if left = 0 then
        .ok (rebuildFenwick { index with
          prices := index.prices.eraseIdx rank
          qtys := index.qtys.eraseIdx rank })
      else .ok index

/-- `SparseVolumeIndex::sum_at_or_below`. -/
def sumAtOrBelow (index : SparseVolumeIndex) (price : UInt64) : UInt64 :=
  let n := partitionPoint (· ≤ price) index.prices
  if n = 0 then 0 else index.fenwick.prefixSum (n - 1)

/-- `SparseVolumeIndex::sum_at_or_above`. -/
def sumAtOrAbove (index : SparseVolumeIndex) (price : UInt64) : UInt64 :=
  let start := partitionPoint (· < price) index.prices
  let n := index.prices.length
  if n ≤ start then 0
  else
    let total := index.fenwick.prefixSum (n - 1)
    let before := if 0 < start then index.fenwick.prefixSum (start - 1) else 0
    total - before

end SparseVolumeIndex

end MatchX
