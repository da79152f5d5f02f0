import MatchX.Book.DepthSums

/-!
# The checks behind the depth indices

What the arithmetic of the depth indices relies on and the compiled program does not check: no
node of a tree is smaller than what is taken from it, and no sum is past the largest word. The
checks are stated along the walks of the source, node by node. They pass when the quantities that
an index holds sum to a word, and then taking from a listed price that holds enough succeeds.
-/

namespace MatchX

open MatchX.Support

namespace FenwickTree

variable {tree : FenwickTree} {size index : Nat} {weight : Nat → Nat} {delta : UInt64}

/-- A check passes at every node that the upward walk changes, as the walk finds it. -/
def walkUpAll (check : UInt64 → Prop) (change : UInt64 → UInt64) : Nat → Nat → Array UInt64 → Prop
  | 0, _, _ => True
  | fuel + 1, i, data =>
    i < data.size → check (data.getD i 0) ∧
      walkUpAll check change fuel (i + lowestBit i) (data.modify i change)

/-- The `debug_assert!` of `FenwickTree::sub`: no node is smaller than what is taken from it. -/
def Subtractable (tree : FenwickTree) (index : Nat) (delta : UInt64) : Prop :=
  walkUpAll (delta ≤ ·) (saturatingSub · delta) tree.data.size (index + 1) tree.data

/-- No addition of `FenwickTree::add` overflows. -/
def Addable (tree : FenwickTree) (index : Nat) (delta : UInt64) : Prop :=
  walkUpAll (fun value => value.toNat + delta.toNat < 2 ^ 64) (· + delta) tree.data.size
    (index + 1) tree.data

/-- No addition of the downward walk of `prefix_sum` overflows. -/
def walkDownFits (data : Array UInt64) : Nat → Nat → UInt64 → Prop
  | 0, _, _ => True
  | fuel + 1, i, acc =>
    0 < i → acc.toNat + (data.getD i 0).toNat < 2 ^ 64 ∧
      walkDownFits data fuel (i - lowestBit i) (acc + data.getD i 0)

/-- No addition of `FenwickTree::prefix_sum` overflows. -/
def PrefixFits (tree : FenwickTree) (index : Nat) : Prop :=
  walkDownFits tree.data (index + 1) (index + 1) 0

/-- No addition of `FenwickTree::suffix_sum_ge` overflows. -/
def SuffixFits (tree : FenwickTree) (index : Nat) : Prop :=
  tree.PrefixFits (tree.data.size - 2) ∧ (index ≠ 0 → tree.PrefixFits (index - 1))

/-- A check that passes at every node covering the start of the upward walk passes along it. -/
theorem walkUpAll_of_covers {check : UInt64 → Prop} {change : UInt64 → UInt64}
    {fuel position : Nat} {data : Array UInt64} (small : data.size ≤ 2 ^ 64)
    (started : 0 < position)
    (each : ∀ node, 0 < node → node < data.size → Covers node (lowestBit node) position →
      check (data.getD node 0)) : walkUpAll check change fuel position data := by
  induction fuel generalizing position data with
  | zero => trivial
  | succ fuel ih =>
    intro within
    have stepBit := lowestBit_isLowBit started (by omega)
    have step := stepBit.bounds.1
    have itself : Covers position (lowestBit position) position :=
      (covers_iff stepBit stepBit).mpr (.inl rfl)
    refine ⟨each position started within itself, ih ?_ (by omega) ?_⟩
    · rwa [Array.size_modify]
    · intro node positive inside covers
      rw [Array.size_modify] at inside
      have nodeBit := lowestBit_isLowBit positive (by omega)
      have later : node ≠ position := by
        have := covers.2
        omega
      rw [getD_modify change inside, if_neg later]
      exact each node positive inside ((covers_iff nodeBit stepBit).mpr (.inr covers))

/-- Taking from a position that weighs enough underflows at no node, when the weights sum to a
word. -/
theorem Holds.subtractable (holds : tree.Holds size weight) (enough : delta.toNat ≤ weight index)
    (bounded : ∑ i ∈ Finset.range size, weight i < 2 ^ 64) : tree.Subtractable index delta := by
  have nodes := holds.nodes
  have fits := holds.fits
  refine walkUpAll_of_covers (by omega) (Nat.succ_pos index) fun node positive within covers => ?_
  exact holds.le_node enough bounded positive (by omega) covers

/-- Adding to a position overflows at no node, when the weights with it sum to a word. -/
theorem Holds.addable (holds : tree.Holds size weight)
    (bounded : ∑ i ∈ Finset.range size, weight i + delta.toNat < 2 ^ 64) :
    tree.Addable index delta := by
  have nodes := holds.nodes
  have fits := holds.fits
  refine walkUpAll_of_covers (by omega) (Nat.succ_pos index) fun node positive within _ => ?_
  have most := @nodeSum_le _ (lowestBit node) weight size (show node ≤ size by omega)
  rw [holds.node_toNat (by omega) positive (by omega)]
  omega

/-- The downward walk overflows nowhere, when what it starts from and all weights sum to a word. -/
theorem walkDownFits_of_sum (holds : tree.Holds size weight) {fuel node : Nat}
    (within : node ≤ size) (acc : UInt64)
    (bounded : acc.toNat + ∑ i ∈ Finset.range node, weight i < 2 ^ 64) :
    walkDownFits tree.data fuel node acc := by
  induction fuel generalizing node acc with
  | zero => trivial
  | succ fuel ih =>
    intro positive
    have fits := holds.fits
    have lower := (lowestBit_isLowBit positive (by omega)).bounds
    have split := sum_range_eq_nodeSum weight node (lowestBit node)
    have value : (tree.data.getD node 0).toNat = nodeSum weight node (lowestBit node) := by
      rw [holds.sums node positive within, UInt64.toNat_ofNat_of_lt' (show _ < 2 ^ 64 by omega)]
    have sum : (acc + tree.data.getD node 0).toNat =
        acc.toNat + nodeSum weight node (lowestBit node) := by
      rw [UInt64.toNat_add, value]
      omega
    refine ⟨by omega, ih (by omega) _ ?_⟩
    omega

/-- A prefix sum overflows nowhere, when all weights sum to a word. -/
theorem Holds.prefixFits (holds : tree.Holds size weight) (inside : index < size)
    (bounded : ∑ i ∈ Finset.range size, weight i < 2 ^ 64) : tree.PrefixFits index := by
  refine walkDownFits_of_sum holds inside 0 ?_
  have most := Finset.sum_le_sum_of_subset (f := weight)
    (Finset.range_subset_range.mpr (show index + 1 ≤ size by omega))
  rw [UInt64.toNat_zero, Nat.zero_add]
  exact Nat.lt_of_le_of_lt most bounded

/-- A suffix sum overflows nowhere, when all weights sum to a word. -/
theorem Holds.suffixFits (holds : tree.Holds size weight) (inside : index < size)
    (bounded : ∑ i ∈ Finset.range size, weight i < 2 ^ 64) : tree.SuffixFits index := by
  have nodes := holds.nodes
  exact ⟨holds.prefixFits (by omega) bounded, fun _ => holds.prefixFits (by omega) bounded⟩

end FenwickTree

namespace SparseVolumeIndex

variable {index index' : SparseVolumeIndex} {quantity : Nat → Nat} {price qty : UInt64}

/-- The checks of `SparseVolumeIndex::sub`: the price is in the index with at least the quantity
taken, and no node of the tree is smaller than it. -/
def Subtractable (index : SparseVolumeIndex) (price qty : UInt64) : Prop :=
  ∃ rank, binarySearch index.prices price = (rank, true) ∧ qty ≤ index.qtys.getD rank 0 ∧
    index.fenwick.Subtractable rank qty

/-- The quantity that the index lists at a price. -/
def qtyAt (index : SparseVolumeIndex) (price : UInt64) : UInt64 :=
  match binarySearch index.prices price with
  | (rank, true) => index.qtys.getD rank 0
  | (_, false) => 0

/-- The index lists what it holds at a price. -/
theorem Holds.qtyAt (holds : index.Holds quantity) (price : UInt64) :
    (index.qtyAt price).toNat = quantity price.toNat := by
  obtain ⟨low, high, lowQtys, highQtys, around,
    ⟨old, prices, qtys, value, search⟩ | ⟨-, -, unused, search⟩⟩ := holds.around price
  · rw [SparseVolumeIndex.qtyAt, search, ← value, qtys, ← around.aligned]
    simp
  · rw [SparseVolumeIndex.qtyAt, search, unused]
    rfl

/-- A listed price has a place, with the quantity that is held there. -/
theorem Holds.place (holds : index.Holds quantity) (listed : price ∈ index.prices) :
    ∃ rank, binarySearch index.prices price = (rank, true) ∧ rank < index.prices.length ∧
      (index.qtys.getD rank 0).toNat = quantity price.toNat ∧
      rankQty index.qtys rank = quantity price.toNat := by
  obtain ⟨low, high, lowQtys, highQtys, around,
    ⟨old, prices, qtys, value, search⟩ | ⟨prices, -, -, -⟩⟩ := holds.around price
  · refine ⟨low.length, search, ?_, ?_, ?_⟩
    · rw [prices, List.length_append, List.length_cons]
      omega
    · rw [qtys, ← around.aligned, ← value]
      simp
    · rw [qtys, ← around.aligned, rankQty_middle, value]
  · rw [prices] at listed
    obtain lower | higher := List.mem_append.mp listed
    · exact absurd (around.below _ lower) (UInt64.lt_irrefl _)
    · exact absurd (around.above _ higher) (UInt64.lt_irrefl _)

/-- What the ranks of an index hold sums to what its prices list. -/
theorem Holds.sum_ranks_all (holds : index.Holds quantity) :
    ∑ rank ∈ Finset.range index.prices.length, rankQty index.qtys rank =
      (index.qtys.map UInt64.toNat).sum := by
  rw [sum_rankQty, ← holds.aligned, List.take_length]

/-- The checks of taking a quantity from a listed price that holds enough pass. -/
theorem Holds.subtractable (holds : index.Holds quantity)
    (bounded : (index.qtys.map UInt64.toNat).sum < 2 ^ 64) (listed : price ∈ index.prices)
    (enough : qty.toNat ≤ quantity price.toNat) : index.Subtractable price qty := by
  obtain ⟨rank, search, -, value, here⟩ := holds.place listed
  refine ⟨rank, search, ?_, ?_⟩
  · rw [UInt64.le_iff_toNat_le, value]
    exact enough
  · exact holds.tree.subtractable (here ▸ enough) (holds.sum_ranks_all ▸ bounded)

/-- Taking a quantity succeeds when its checks pass. -/
theorem Subtractable.sub_ok (passes : index.Subtractable price qty) :
    ∃ index', index.sub price qty = .ok index' := by
  obtain ⟨rank, search, enough, -⟩ := passes
  unfold SparseVolumeIndex.sub
  rw [search]
  simp only [checkedSub, if_pos enough]
  split
  · exact ⟨_, rfl⟩
  · exact ⟨_, rfl⟩

/-- Adding a quantity at a price lists the price. -/
theorem mem_prices_add_self (holds : index.Holds quantity) :
    price ∈ (index.add price qty).prices := by
  obtain ⟨low, high, lowQtys, highQtys, around,
    ⟨old, prices, qtys, value, search⟩ | ⟨prices, qtys, unused, search⟩⟩ := holds.around price
  · rw [SparseVolumeIndex.add, search]
    simp only [prices]
    exact List.mem_append_right _ List.mem_cons_self
  · rw [SparseVolumeIndex.add, search]
    simp only [rebuildFenwick, prices, insertIdx_middle]
    exact List.mem_append_right _ List.mem_cons_self

/-- Adding a quantity at a price keeps every listed price. -/
theorem mem_prices_add_of_mem {other : UInt64} (listed : other ∈ index.prices) :
    other ∈ (index.add price qty).prices := by
  unfold SparseVolumeIndex.add
  split
  · exact listed
  · rename_i rank search
    refine (List.mem_insertIdx ?_).mpr (.inr listed)
    obtain rfl : partitionPoint (· < price) index.prices = rank := congrArg Prod.fst search
    exact partitionPoint_le _ _

/-- Taking a quantity keeps every listed price at which something is left or nothing was taken. -/
theorem mem_prices_sub (holds : index.Holds quantity) (taken : index.sub price qty = .ok index')
    {other : UInt64} (listed : other ∈ index.prices)
    (left : other = price → quantity price.toNat ≠ qty.toNat) : other ∈ index'.prices := by
  obtain ⟨low, high, lowQtys, highQtys, around,
    ⟨old, prices, qtys, value, search⟩ | ⟨-, -, -, search⟩⟩ := holds.around price
  · have found : index.qtys.getD low.length 0 = old := by
      rw [qtys, ← around.aligned]
      simp
    rw [SparseVolumeIndex.sub, search] at taken
    simp only [found, checkedSub] at taken
    split at taken
    · cases taken
    · rename_i remaining left'
      split at left'
      · rename_i enough
        obtain rfl := Option.some.inj left'
        split at taken
        · -- The price leaves the index, so it is not the other one.
          rename_i nothing
          cases taken
          have spent : quantity price.toNat = qty.toNat := by
            have words := congrArg UInt64.toNat nothing
            have ordered := UInt64.le_iff_toNat_le.mp enough
            rw [UInt64.toNat_sub_of_le _ _ enough, UInt64.toNat_zero] at words
            omega
          have erased : index.prices.eraseIdx low.length = low ++ high := by
            rw [prices, List.eraseIdx_append_of_length_le (Nat.le_refl _), Nat.sub_self,
              List.eraseIdx_cons_zero]
          show other ∈ index.prices.eraseIdx low.length
          rw [erased]
          rw [prices] at listed
          have apart : other ≠ price := fun same => left same spent
          simpa [apart] using listed
        · cases taken
          exact listed
      · contradiction
  · rw [SparseVolumeIndex.sub, search] at taken
    cases taken

end SparseVolumeIndex

end MatchX
