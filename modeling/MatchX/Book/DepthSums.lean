import Mathlib.Algebra.BigOperators.Group.List.Basic
import Mathlib.Data.List.TakeWhile
import MatchX.Book.Depth
import MatchX.Support.Fenwick

/-!
# What the depth indices sum

A Fenwick tree holds weights when each node holds the sum of the positions it covers; adding to
a position and taking from it keep that, as long as no sum is past the largest word, and prefix
and suffix sums are read off it. A sorted price index holds a quantity for each price when its
prices are all the prices with a quantity and its tree holds their quantities by rank.
-/

namespace MatchX

open MatchX.Support

/-- The lowest set bit of a node number. -/
theorem lowestBit_isLowBit {node : Nat} (positive : 0 < node) (fits : node < 2 ^ 64) :
    IsLowBit node (lowestBit node) := isLowBit_and_sub positive fits

namespace FenwickTree

variable {tree : FenwickTree} {size index : Nat} {weight : Nat → Nat} {delta : UInt64}

/-- A tree over some positions holds their weights. -/
structure Holds (tree : FenwickTree) (size : Nat) (weight : Nat → Nat) : Prop where
  /-- There is a node for each position, and node 0. -/
  nodes : tree.data.size = size + 1
  /-- Node numbers are words. -/
  fits : size + 1 < 2 ^ 64
  /-- Each node holds the sum of the positions it covers. -/
  sums : ∀ node, 0 < node → node ≤ size →
    tree.data.getD node 0 = UInt64.ofNat (nodeSum weight node (lowestBit node))

/-- A node after one node was changed. -/
theorem getD_modify (change : UInt64 → UInt64) {data : Array UInt64} {node : Nat}
    (inside : node < data.size) (position : Nat) :
    (data.modify position change).getD node 0 =
      if node = position then change (data.getD node 0) else data.getD node 0 := by
  rw [Array.getD_eq_getD_getElem?, Array.getD_eq_getD_getElem?, Array.getElem?_modify,
    Array.getElem?_eq_getElem inside]
  by_cases here : node = position
  · simp [here]
  · simp [here, Ne.symm here]

/-- The upward walk changes the nodes that cover its start. -/
theorem walkUp_getD (change : UInt64 → UInt64) {fuel position : Nat} {data : Array UInt64}
    (small : data.size ≤ 2 ^ 64) (started : 0 < position) (enough : data.size ≤ position + fuel)
    {node : Nat} (positive : 0 < node) (inside : node < data.size) :
    (walkUp change fuel position data).getD node 0 =
      if Covers node (lowestBit node) position then change (data.getD node 0)
      else data.getD node 0 := by
  have beyond {position : Nat} (past : node < position) :
      ¬Covers node (lowestBit node) position := fun covers => Nat.not_le.mpr past covers.2
  induction fuel generalizing position data with
  | zero => rw [walkUp, if_neg (beyond (by omega))]
  | succ fuel ih =>
    rw [walkUp]
    by_cases within : position < data.size
    · have stepBit := lowestBit_isLowBit started (by omega)
      have nodeBit := lowestBit_isLowBit positive (by omega)
      have step := stepBit.bounds.1
      rw [if_pos within, ih (by simpa using small) (by omega) (by rw [Array.size_modify]; omega)
        (by rwa [Array.size_modify]), getD_modify change inside]
      by_cases here : node = position
      · subst here
        have itself : Covers node (lowestBit node) node :=
          (covers_iff stepBit stepBit).mpr (.inl rfl)
        rw [if_neg (beyond (by omega)), if_pos rfl, if_pos itself]
      · simp only [if_neg here, covers_iff nodeBit stepBit, Ne.symm here, false_or]
    · rw [if_neg within, if_neg (beyond (by omega))]

/-- The upward walk keeps the number of nodes. -/
@[simp]
theorem walkUp_size (change : UInt64 → UInt64) (fuel position : Nat) (data : Array UInt64) :
    (walkUp change fuel position data).size = data.size := by
  induction fuel generalizing position data with
  | zero => rfl
  | succ fuel ih =>
    rw [walkUp]
    split
    · rw [ih, Array.size_modify]
    · rfl

/-- Weights are compared position by position. -/
theorem Holds.congr {weight' : Nat → Nat} (holds : tree.Holds size weight)
    (same : ∀ i < size, weight i = weight' i) : tree.Holds size weight' where
  nodes := holds.nodes
  fits := holds.fits
  sums node positive within := by
    rw [holds.sums node positive within]
    refine congrArg UInt64.ofNat (Finset.sum_congr rfl fun i member => same i ?_)
    exact Nat.lt_of_lt_of_le (Finset.mem_Ico.mp member).2 within

/-- A new tree holds nothing. -/
theorem holds_new (fits : size + 1 < 2 ^ 64) : (new size).Holds size fun _ => 0 where
  nodes := Array.size_replicate
  fits := fits
  sums node _ inside := by
    have within : node < size + 1 := by omega
    simp [new, nodeSum, Array.getD, within]

/-- Adding to a position. -/
theorem Holds.add (holds : tree.Holds size weight) (index : Nat) (delta : UInt64) :
    (tree.add index delta).Holds size fun i => weight i + if i = index then delta.toNat else 0 where
  nodes := by rw [FenwickTree.add, walkUp_size, holds.nodes]
  fits := holds.fits
  sums node positive within := by
    have nodes := holds.nodes
    have fits := holds.fits
    rw [FenwickTree.add,
      walkUp_getD _ (by omega) (Nat.succ_pos index) (by omega) positive (by omega),
      holds.sums node positive within, nodeSum_add]
    split
    · rw [UInt64.ofNat_add, UInt64.ofNat_toNat]
    · rw [Nat.add_zero]

/-- A node is the sum of the positions it covers also as a number, when all weights sum to a
word. -/
theorem Holds.node_toNat (holds : tree.Holds size weight)
    (bounded : ∑ i ∈ Finset.range size, weight i < 2 ^ 64) {node : Nat} (positive : 0 < node)
    (within : node ≤ size) :
    (tree.data.getD node 0).toNat = nodeSum weight node (lowestBit node) := by
  have most := @nodeSum_le _ (lowestBit node) weight _ within
  rw [holds.sums node positive within, UInt64.toNat_ofNat_of_lt' (show _ < 2 ^ 64 by omega)]

/-- A node that covers a position holds no less than its weight. -/
theorem Holds.le_node (holds : tree.Holds size weight) (enough : delta.toNat ≤ weight index)
    (bounded : ∑ i ∈ Finset.range size, weight i < 2 ^ 64) {node : Nat} (positive : 0 < node)
    (within : node ≤ size) (covers : Covers node (lowestBit node) (index + 1)) :
    delta ≤ tree.data.getD node 0 := by
  rw [UInt64.le_iff_toNat_le, holds.node_toNat bounded positive within]
  exact Nat.le_trans enough (le_nodeSum covers)

/-- Taking from a position that weighs enough, when the sums are words. -/
theorem Holds.sub (holds : tree.Holds size weight) (enough : delta.toNat ≤ weight index)
    (bounded : ∑ i ∈ Finset.range size, weight i < 2 ^ 64) :
    (tree.sub index delta).Holds size fun i => weight i - if i = index then delta.toNat else 0 where
  nodes := by rw [FenwickTree.sub, walkUp_size, holds.nodes]
  fits := holds.fits
  sums node positive within := by
    have nodes := holds.nodes
    have fits := holds.fits
    set less : Nat → Nat := fun i => weight i - if i = index then delta.toNat else 0 with less_def
    have rebuilt : weight = fun i => less i + if i = index then delta.toNat else 0 := by
      funext i
      rw [less_def]
      by_cases here : i = index
      · subst here
        simp only [↓reduceIte]
        omega
      · simp only [if_neg here]
        omega
    have split : nodeSum weight node (lowestBit node) =
        nodeSum less node (lowestBit node) +
          if Covers node (lowestBit node) (index + 1) then delta.toNat else 0 :=
      (congrArg (nodeSum · node (lowestBit node)) rebuilt).trans (nodeSum_add index delta.toNat)
    rw [FenwickTree.sub,
      walkUp_getD _ (by omega) (Nat.succ_pos index) (by omega) positive (by omega)]
    split
    · rename_i covers
      have under := holds.le_node enough bounded positive within covers
      rw [if_pos covers] at split
      rw [saturatingSub, if_pos under, holds.sums node positive within, split, UInt64.ofNat_add,
        UInt64.ofNat_toNat, UInt64.add_sub_cancel]
    · rename_i apart
      rw [if_neg apart, Nat.add_zero] at split
      rw [holds.sums node positive within, split]

/-- The downward walk adds up the positions up to its start. -/
theorem walkDown_eq (holds : tree.Holds size weight) {fuel node : Nat} (enough : node ≤ fuel)
    (within : node ≤ size) (acc : UInt64) :
    walkDown tree.data fuel node acc =
      acc + UInt64.ofNat (∑ i ∈ Finset.range node, weight i) := by
  induction fuel generalizing node acc with
  | zero =>
    obtain rfl : node = 0 := Nat.le_zero.mp enough
    simp [walkDown]
  | succ fuel ih =>
    rw [walkDown]
    split
    · rename_i positive
      have fits := holds.fits
      have lower := (lowestBit_isLowBit positive (by omega)).bounds
      rw [ih (by omega) (by omega), holds.sums node positive within,
        sum_range_eq_nodeSum weight node (lowestBit node), UInt64.ofNat_add, UInt64.add_assoc]
    · rename_i zero
      obtain rfl : node = 0 := by omega
      simp

/-- A prefix sum. -/
theorem Holds.prefixSum (holds : tree.Holds size weight) (inside : index < size) :
    tree.prefixSum index = UInt64.ofNat (∑ i ∈ Finset.range (index + 1), weight i) := by
  rw [FenwickTree.prefixSum, walkDown_eq holds (Nat.le_refl _) inside, UInt64.zero_add]

/-- A difference of prefix sums. -/
theorem ofNat_sum_sub {first last : Nat} (ordered : first ≤ last) :
    UInt64.ofNat (∑ i ∈ Finset.range last, weight i) -
        UInt64.ofNat (∑ i ∈ Finset.range first, weight i) =
      UInt64.ofNat (∑ i ∈ Finset.Ico first last, weight i) := by
  rw [← Finset.sum_range_add_sum_Ico _ ordered, UInt64.ofNat_add, UInt64.add_comm,
    UInt64.add_sub_cancel]

/-- A suffix sum. -/
theorem Holds.suffixSumGe (holds : tree.Holds size weight) (inside : index < size) :
    tree.suffixSumGe index = UInt64.ofNat (∑ i ∈ Finset.Ico index size, weight i) := by
  have total : tree.prefixSum (tree.data.size - 2) =
      UInt64.ofNat (∑ i ∈ Finset.range size, weight i) := by
    have last : tree.data.size - 2 + 1 = size := by rw [holds.nodes]; omega
    rw [holds.prefixSum (by omega), last]
  unfold FenwickTree.suffixSumGe
  rw [total, ← ofNat_sum_sub (Nat.le_of_lt inside)]
  cases index with
  | zero => simp
  | succ index => rw [← holds.prefixSum (show index < size by omega)]

end FenwickTree

/-! ## Quantities by rank -/

/-- The quantity at a rank, 0 past the end. -/
def rankQty (qtys : List UInt64) (rank : Nat) : Nat := (qtys[rank]?.map UInt64.toNat).getD 0

/-- The quantities of the first ranks sum to those at the front of the list. -/
theorem sum_rankQty (qtys : List UInt64) (count : Nat) :
    ∑ rank ∈ Finset.range count, rankQty qtys rank = ((qtys.take count).map UInt64.toNat).sum := by
  induction qtys generalizing count with
  | nil => simp [rankQty]
  | cons qty rest ih =>
    cases count with
    | zero => rfl
    | succ count =>
      rw [Finset.sum_range_succ', List.take_succ_cons, List.map_cons, List.sum_cons, ← ih]
      simp only [rankQty, List.getElem?_cons_succ, List.getElem?_cons_zero, Option.map_some,
        Option.getD_some]
      exact Nat.add_comm ..

/-- Adding all quantities to a tree from a rank on. -/
theorem holds_foldl {tree : FenwickTree} {size : Nat} {weight : Nat → Nat}
    (holds : tree.Holds size weight) (qtys : List UInt64) (start : Nat) :
    ((qtys.zipIdx start).foldl
      (fun tree (qty, i) => if 0 < qty then tree.add i qty else tree) tree).Holds size
        fun i => weight i + if start ≤ i then rankQty qtys (i - start) else 0 := by
  induction qtys generalizing tree weight start with
  | nil => simpa [rankQty] using holds
  | cons qty rest ih =>
    have first : (if 0 < qty then tree.add start qty else tree).Holds size
        fun i => weight i + if i = start then qty.toNat else 0 := by
      split
      · exact holds.add start qty
      · rename_i zero
        obtain rfl : qty = 0 := by simpa using zero
        simpa using holds
    rw [List.zipIdx_cons, List.foldl_cons]
    refine (ih first (start + 1)).congr fun i _ => ?_
    obtain before | rfl | after := Nat.lt_trichotomy i start
    · rw [if_neg (by omega), if_neg (by omega), if_neg (by omega)]
    · rw [if_pos rfl, if_neg (by omega), if_pos (Nat.le_refl i), Nat.sub_self]
      rfl
    · obtain ⟨further, rfl⟩ := Nat.exists_eq_add_of_lt after
      have later : start + further + 1 - start = further + 1 := by omega
      have nearer : start + further + 1 - (start + 1) = further := by omega
      rw [if_neg (by omega), if_pos (by omega), if_pos (by omega), later, nearer, Nat.add_zero]
      simp [rankQty]

/-! ## Splitting sorted prices -/

/-- Changing the element behind some others. -/
theorem modify_middle {α : Type} (low : List α) (middle : α) (high : List α) (change : α → α) :
    (low ++ middle :: high).modify low.length change = low ++ change middle :: high := by
  induction low with
  | nil => rfl
  | cons first low ih =>
    rw [List.cons_append, List.length_cons, List.modify_succ_cons, ih, List.cons_append]

/-- Inserting an element behind some others. -/
theorem insertIdx_middle {α : Type} (low high : List α) (middle : α) :
    (low ++ high).insertIdx low.length middle = low ++ middle :: high := by
  induction low with
  | nil => rfl
  | cons first low ih =>
    rw [List.cons_append, List.length_cons, List.insertIdx_succ_cons, ih, List.cons_append]

/-- Behind the first sorted price that fails a test which lower prices pass, all prices fail
it. -/
theorem not_of_mem_dropWhile {prices : List UInt64} {test : UInt64 → Bool}
    (sorted : prices.Pairwise (· < ·))
    (downward : ∀ lower higher, lower < higher → test higher = true → test lower = true)
    {price : UInt64} (among : price ∈ prices.dropWhile test) : test price = false := by
  induction prices with
  | nil => contradiction
  | cons first rest ih =>
    obtain ⟨above, sortedRest⟩ := List.pairwise_cons.mp sorted
    rw [List.dropWhile_cons] at among
    split at among
    · exact ih sortedRest among
    · rename_i fails
      rw [Bool.not_eq_true] at fails
      obtain rfl | later := List.mem_cons.mp among
      · exact fails
      · by_contra passes
        rw [Bool.not_eq_false] at passes
        rw [downward _ _ (above price later) passes] at fails
        contradiction

/-- Sorted prices fall into those below a price and the rest, as many below it as its rank. -/
theorem binarySearch_cases {prices : List UInt64} (sorted : prices.Pairwise (· < ·))
    (price : UInt64) : ∃ low high, prices = low ++ high ∧ (∀ other ∈ low, other < price) ∧
      ((∃ rest, high = price :: rest ∧ (∀ other ∈ rest, price < other) ∧
          binarySearch prices price = (low.length, true)) ∨
        (∀ other ∈ high, price < other) ∧ binarySearch prices price = (low.length, false)) := by
  refine ⟨prices.takeWhile (· < price), prices.dropWhile (· < price),
    List.takeWhile_append_dropWhile.symm, fun other among => ?_, ?_⟩
  · simpa using List.mem_takeWhile_imp among
  have rebuilt := @List.takeWhile_append_dropWhile _ (· < price) prices
  have first : prices[(prices.takeWhile (· < price)).length]? =
      (prices.dropWhile (· < price)).head? := by
    have front (low high : List UInt64) : (low ++ high)[low.length]? = high.head? := by
      rw [List.getElem?_append_right (Nat.le_refl _), Nat.sub_self, List.head?_eq_getElem?]
    have found := front (prices.takeWhile (· < price)) (prices.dropWhile (· < price))
    rwa [rebuilt] at found
  cases split : prices.dropWhile (· < price) with
  | nil =>
    rw [split] at first
    exact .inr ⟨by simp, by simp [binarySearch, partitionPoint, first]⟩
  | cons head rest =>
    have notBelow : ¬head < price := by
      have := @List.head?_dropWhile_not _ (· < price) prices
      simpa [split] using this
    rw [← rebuilt, split] at sorted
    have ordered := (List.pairwise_append.mp sorted).2.1
    obtain ⟨above, -⟩ := List.pairwise_cons.mp ordered
    rw [split] at first
    by_cases here : head = price
    · subst here
      exact .inl ⟨rest, rfl, above, by simp [binarySearch, partitionPoint, first]⟩
    · have beyond : price < head := by
        rw [UInt64.lt_iff_toNat_lt] at notBelow ⊢
        have apart : head.toNat ≠ price.toNat := fun same => here (UInt64.toNat_inj.mp same)
        omega
      refine .inr ⟨fun other among => ?_, ?_⟩
      · obtain rfl | later := List.mem_cons.mp among
        · exact beyond
        · exact UInt64.lt_trans beyond (above other later)
      · simp [binarySearch, partitionPoint, first, here]

namespace SparseVolumeIndex

variable {index index' : SparseVolumeIndex} {quantity : Nat → Nat} {price qty : UInt64}

/-- A sorted price index holds a quantity for each price. -/
structure Holds (index : SparseVolumeIndex) (quantity : Nat → Nat) : Prop where
  /-- The prices are in ascending order. -/
  sorted : index.prices.Pairwise (· < ·)
  /-- Each has its quantity. -/
  values : index.qtys.map UInt64.toNat = index.prices.map fun price => quantity price.toNat
  /-- Every other price has none. -/
  absent : ∀ number, quantity number ≠ 0 → ∃ price ∈ index.prices, price.toNat = number
  /-- The tree holds the quantities by rank. -/
  tree : index.fenwick.Holds index.prices.length (rankQty index.qtys)

/-- There are as many quantities as prices. -/
theorem Holds.aligned (holds : index.Holds quantity) :
    index.qtys.length = index.prices.length := by
  have lengths := congrArg List.length holds.values
  rwa [List.length_map, List.length_map] at lengths

/-- Quantities are compared price by price. -/
theorem Holds.congr {quantity' : Nat → Nat} (holds : index.Holds quantity)
    (same : ∀ number, quantity number = quantity' number) : index.Holds quantity' :=
  (funext same : quantity = _) ▸ holds

/-- An index without prices holds nothing. -/
theorem holds_new : new.Holds fun _ => 0 where
  sorted := .nil
  values := rfl
  absent _ present := absurd rfl present
  tree := FenwickTree.holds_new (by decide)

/-- The tree that is built anew holds the quantities. -/
theorem rebuildFenwick_holds (fits : index.prices.length + 1 < 2 ^ 64) :
    index.rebuildFenwick.fenwick.Holds index.prices.length (rankQty index.qtys) :=
  (holds_foldl (FenwickTree.holds_new fits) index.qtys 0).congr fun i _ => by
    rw [if_pos (Nat.zero_le i), Nat.sub_zero, Nat.zero_add]

/-- The quantities on both sides of a rank. -/
theorem Holds.split (holds : index.Holds quantity) {low high : List UInt64}
    (prices : index.prices = low ++ high) : ∃ lowQtys highQtys,
      index.qtys = lowQtys ++ highQtys ∧ lowQtys.length = low.length ∧
      lowQtys.map UInt64.toNat = low.map (fun price => quantity price.toNat) ∧
      highQtys.map UInt64.toNat = high.map fun price => quantity price.toNat := by
  have values := holds.values
  rw [prices, List.map_append] at values
  obtain ⟨lowQtys, highQtys, split, lows, highs⟩ := List.map_eq_append_iff.mp values
  have lengths := congrArg List.length lows
  rw [List.length_map, List.length_map] at lengths
  exact ⟨lowQtys, highQtys, split, lengths, lows, highs⟩

/-- A quantity that changes at one price only does not change at others. -/
theorem map_quantity_of_ne {prices : List UInt64} {quantity' : Nat → Nat}
    (kept : ∀ number, number ≠ price.toNat → quantity' number = quantity number)
    (apart : ∀ other ∈ prices, other ≠ price) :
    prices.map (fun other => quantity' other.toNat) =
      prices.map fun other => quantity other.toNat :=
  List.map_congr_left fun other among =>
    kept _ fun same => apart other among (UInt64.toNat_inj.mp same)

/-- The quantity behind some others. -/
theorem rankQty_middle (lowQtys : List UInt64) (value : UInt64) (highQtys : List UInt64) :
    rankQty (lowQtys ++ value :: highQtys) lowQtys.length = value.toNat := by
  simp [rankQty]

/-- The ranks after a quantity was changed. -/
theorem rankQty_set {lowQtys rest : List UInt64} (old value : UInt64) (rank : Nat) :
    rankQty (lowQtys ++ value :: rest) rank =
      if rank = lowQtys.length then value.toNat else rankQty (lowQtys ++ old :: rest) rank := by
  simp only [rankQty]
  obtain before | rfl | after := Nat.lt_trichotomy rank lowQtys.length
  · rw [if_neg (by omega), List.getElem?_append_left before, List.getElem?_append_left before]
  · simp
  · rw [if_neg (by omega), List.getElem?_append_right (by omega),
      List.getElem?_append_right (by omega)]
    obtain ⟨further, same⟩ : ∃ further, rank - lowQtys.length = further + 1 :=
      ⟨rank - lowQtys.length - 1, by omega⟩
    rw [same, List.getElem?_cons_succ, List.getElem?_cons_succ]

/-- Prices and quantities around the place of one price. -/
structure Around (quantity : Nat → Nat) (price : UInt64)
    (low high lowQtys highQtys : List UInt64) : Prop where
  /-- The prices before it are lower. -/
  below : ∀ other ∈ low, other < price
  /-- The prices behind it are higher. -/
  above : ∀ other ∈ high, price < other
  /-- They are in ascending order. -/
  sorted : (low ++ high).Pairwise (· < ·)
  /-- There are as many quantities as prices before it. -/
  aligned : lowQtys.length = low.length
  /-- The prices before it have their quantities. -/
  lows : lowQtys.map UInt64.toNat = low.map fun price => quantity price.toNat
  /-- The prices behind it have their quantities. -/
  highs : highQtys.map UInt64.toNat = high.map fun price => quantity price.toNat
  /-- Every other price has none. -/
  others : ∀ number, number ≠ price.toNat → quantity number ≠ 0 →
    ∃ other ∈ low ++ high, other.toNat = number

/-- What surrounds the place of a price, whether or not the price is there. -/
theorem Holds.around (holds : index.Holds quantity) (price : UInt64) :
    ∃ low high lowQtys highQtys, Around quantity price low high lowQtys highQtys ∧
      ((∃ old, index.prices = low ++ price :: high ∧ index.qtys = lowQtys ++ old :: highQtys ∧
          old.toNat = quantity price.toNat ∧
          binarySearch index.prices price = (low.length, true)) ∨
        index.prices = low ++ high ∧ index.qtys = lowQtys ++ highQtys ∧
          quantity price.toNat = 0 ∧ binarySearch index.prices price = (low.length, false)) := by
  obtain ⟨low, high, prices, below, ⟨rest, rfl, above, search⟩ | ⟨above, search⟩⟩ :=
    binarySearch_cases holds.sorted price
  all_goals
    obtain ⟨lowQtys, highQtys, qtys, aligned, lows, highs⟩ := holds.split prices
    have sorted := holds.sorted
    rw [prices] at sorted
  · obtain ⟨old, restQtys, rfl, value, rests⟩ := List.map_eq_cons_iff.mp highs
    refine ⟨low, rest, lowQtys, restQtys, ⟨below, above, sorted.sublist (by simp), aligned, lows,
      rests, ?_⟩, .inl ⟨old, prices, qtys, value, search⟩⟩
    intro number apart present
    obtain ⟨other, among, named⟩ := holds.absent number present
    rw [prices] at among
    refine ⟨other, ?_, named⟩
    have different : other ≠ price := fun same => apart (same ▸ named.symm)
    simpa [different] using among
  · refine ⟨low, high, lowQtys, highQtys, ⟨below, above, sorted, aligned, lows, highs, ?_⟩,
      .inr ⟨prices, qtys, ?_, search⟩⟩
    · intro number _ present
      exact prices ▸ holds.absent number present
    · by_contra present
      obtain ⟨other, among, named⟩ := holds.absent _ present
      obtain rfl := UInt64.toNat_inj.mp named
      rw [prices] at among
      obtain lower | higher := List.mem_append.mp among
      · exact UInt64.lt_irrefl _ (below _ lower)
      · exact UInt64.lt_irrefl _ (above _ higher)

variable {low high lowQtys highQtys : List UInt64} {quantity' : Nat → Nat}

/-- The surroundings of a price do not depend on its own quantity. -/
theorem Around.congr (around : Around quantity price low high lowQtys highQtys)
    (kept : ∀ number, number ≠ price.toNat → quantity' number = quantity number) :
    Around quantity' price low high lowQtys highQtys where
  below := around.below
  above := around.above
  sorted := around.sorted
  aligned := around.aligned
  lows := around.lows.trans (map_quantity_of_ne kept fun other among =>
    UInt64.ne_of_lt (around.below other among)).symm
  highs := around.highs.trans (map_quantity_of_ne kept fun other among =>
    (UInt64.ne_of_lt (around.above other among)).symm).symm
  others number apart present := around.others number apart (kept number apart ▸ present)

/-- An index that has a price in its place. -/
theorem Around.holds_with (around : Around quantity price low high lowQtys highQtys)
    {value : UInt64} (prices : index.prices = low ++ price :: high)
    (qtys : index.qtys = lowQtys ++ value :: highQtys) (here : value.toNat = quantity price.toNat)
    (tree : index.fenwick.Holds index.prices.length (rankQty index.qtys)) :
    index.Holds quantity where
  sorted := by
    obtain ⟨lowSorted, highSorted, across⟩ := List.pairwise_append.mp around.sorted
    rw [prices]
    refine List.pairwise_append.mpr
      ⟨lowSorted, List.pairwise_cons.mpr ⟨around.above, highSorted⟩, ?_⟩
    intro left among right behind
    obtain rfl | later := List.mem_cons.mp behind
    · exact around.below left among
    · exact across left among right later
  values := by
    rw [prices, qtys, List.map_append, List.map_append, List.map_cons, List.map_cons, around.lows,
      around.highs, here]
  absent number present := by
    rw [prices]
    by_cases same : number = price.toNat
    · exact ⟨price, by simp, same.symm⟩
    · obtain ⟨other, among, named⟩ := around.others number same present
      refine ⟨other, ?_, named⟩
      simp only [List.mem_append, List.mem_cons] at among ⊢
      exact among.imp_right .inr
  tree := tree

/-- An index that lacks a price, which has no quantity. -/
theorem Around.holds_without (around : Around quantity price low high lowQtys highQtys)
    (prices : index.prices = low ++ high) (qtys : index.qtys = lowQtys ++ highQtys)
    (nothing : quantity price.toNat = 0)
    (tree : index.fenwick.Holds index.prices.length (rankQty index.qtys)) :
    index.Holds quantity where
  sorted := prices ▸ around.sorted
  values := by rw [prices, qtys, List.map_append, List.map_append, around.lows, around.highs]
  absent number present := by
    rw [prices]
    exact around.others number (fun same => present (same ▸ nothing)) present
  tree := tree

/-- Adding a quantity at a price adds no other price. -/
theorem mem_prices_add {other : UInt64} (among : other ∈ (index.add price qty).prices) :
    other = price ∨ other ∈ index.prices := by
  unfold SparseVolumeIndex.add at among
  split at among
  · exact .inr among
  · exact List.eq_or_mem_of_mem_insertIdx among

/-- Adding a quantity at a price. -/
theorem Holds.add (holds : index.Holds quantity) (fits : index.prices.length + 2 < 2 ^ 64)
    (bounded : quantity price.toNat + qty.toNat < 2 ^ 64) :
    (index.add price qty).Holds fun number =>
      quantity number + if number = price.toNat then qty.toNat else 0 := by
  obtain ⟨low, high, lowQtys, highQtys, around,
    ⟨old, prices, qtys, value, search⟩ | ⟨prices, qtys, unused, search⟩⟩ := holds.around price
  all_goals
    have around := around.congr fun number apart => show
      (quantity number + if number = price.toNat then qty.toNat else 0) = quantity number by
        rw [if_neg apart, Nat.add_zero]
  · have added : index.add price qty = { index with
        qtys := lowQtys ++ (old + qty) :: highQtys
        fenwick := index.fenwick.add low.length qty } := by
      rw [SparseVolumeIndex.add, search]
      simp only [qtys, ← around.aligned, modify_middle]
    have total : (old + qty).toNat = quantity price.toNat + qty.toNat := by
      rw [UInt64.toNat_add, value]
      exact Nat.mod_eq_of_lt bounded
    rw [added]
    refine around.holds_with prices rfl (by rw [if_pos rfl, total]) ?_
    refine (holds.tree.add low.length qty).congr fun rank _ => ?_
    rw [rankQty_set old, qtys, around.aligned]
    split
    · rename_i here
      rw [total, here, ← around.aligned, rankQty_middle, value]
    · rfl
  · have added : index.add price qty = rebuildFenwick { index with
        prices := low ++ price :: high
        qtys := lowQtys ++ qty :: highQtys } := by
      rw [SparseVolumeIndex.add, search]
      simp only [prices, insertIdx_middle]
      rw [qtys, ← around.aligned, insertIdx_middle]
    rw [added]
    refine around.holds_with rfl rfl (by rw [if_pos rfl, unused, Nat.zero_add])
      (rebuildFenwick_holds ?_)
    rw [prices, List.length_append] at fits
    rw [List.length_append, List.length_cons]
    omega

/-- Taking a quantity at a price takes no more than there is, adds no price, and leaves the price
only when something is left of it. -/
theorem Holds.sub (holds : index.Holds quantity)
    (bounded : (index.qtys.map UInt64.toNat).sum < 2 ^ 64)
    (taken : index.sub price qty = .ok index') :
    index'.Holds (fun number => quantity number - if number = price.toNat then qty.toNat else 0) ∧
      qty.toNat ≤ quantity price.toNat ∧
      ∀ other ∈ index'.prices, other ∈ index.prices ∧
        (other = price → quantity price.toNat - qty.toNat ≠ 0) := by
  obtain ⟨low, high, lowQtys, highQtys, around,
    ⟨old, prices, qtys, value, search⟩ | ⟨-, -, -, search⟩⟩ := holds.around price
  · have found : index.qtys.getD low.length 0 = old := by
      rw [qtys, ← around.aligned]
      simp
    rw [SparseVolumeIndex.sub, search] at taken
    simp only [found] at taken
    cases left : checkedSub old qty with
    | none => rw [left] at taken; cases taken
    | some remaining =>
      obtain ⟨enough, rfl⟩ : qty ≤ old ∧ old - qty = remaining := by
        unfold checkedSub at left
        split at left
        · rename_i enough
          exact ⟨enough, Option.some.inj left⟩
        · cases left
      have covered : qty.toNat ≤ quantity price.toNat :=
        value ▸ UInt64.le_iff_toNat_le.mp enough
      have less : (old - qty).toNat = quantity price.toNat - qty.toNat := by
        rw [UInt64.toNat_sub_of_le _ _ enough, value]
      have kept := around.congr fun number apart => show
        (quantity number - if number = price.toNat then qty.toNat else 0) = quantity number by
          rw [if_neg apart, Nat.sub_zero]
      rw [left] at taken
      simp only at taken
      split at taken
      · -- Nothing is left at the price, which leaves the index.
        rename_i nothing
        cases taken
        have erased : index.prices.eraseIdx low.length = low ++ high := by
          rw [prices, List.eraseIdx_append_of_length_le (Nat.le_refl _), Nat.sub_self,
            List.eraseIdx_cons_zero]
        refine ⟨kept.holds_without erased ?_ ?_ (rebuildFenwick_holds ?_), covered,
          fun other among => ⟨List.mem_of_mem_eraseIdx among, fun same => ?_⟩⟩
        · simp only [rebuildFenwick, qtys, ← around.aligned]
          rw [List.set_append_right _ _ (Nat.le_refl _), Nat.sub_self, List.set_cons_zero,
            List.eraseIdx_append_of_length_le (Nat.le_refl _), Nat.sub_self,
            List.eraseIdx_cons_zero]
        · rw [if_pos rfl, ← less, nothing]
          rfl
        · have fits := holds.tree.fits
          have shorter := List.length_eraseIdx_le index.prices low.length
          simp only
          omega
        · subst same
          have among : other ∈ low ++ high := erased ▸ among
          obtain lower | higher := List.mem_append.mp among
          · exact absurd (around.below _ lower) (UInt64.lt_irrefl _)
          · exact absurd (around.above _ higher) (UInt64.lt_irrefl _)
      · cases taken
        have changed : index.qtys.set low.length (old - qty) =
            lowQtys ++ (old - qty) :: highQtys := by
          rw [qtys, ← around.aligned, List.set_append_right _ _ (Nat.le_refl _), Nat.sub_self,
            List.set_cons_zero]
        have all : ∑ rank ∈ Finset.range index.prices.length, rankQty index.qtys rank < 2 ^ 64 := by
          rwa [sum_rankQty, ← holds.aligned, List.take_length]
        have here : qty.toNat ≤ rankQty index.qtys low.length := by
          rw [qtys, ← around.aligned, rankQty_middle]
          exact UInt64.le_iff_toNat_le.mp enough
        have stays : quantity price.toNat - qty.toNat ≠ 0 := fun zero => by
          rename_i left
          exact left (UInt64.toNat_inj.mp (less.trans zero))
        refine ⟨kept.holds_with prices changed (by rw [if_pos rfl, less]) ?_, covered,
          fun other among => ⟨among, fun _ => stays⟩⟩
        refine (holds.tree.sub here all).congr fun rank _ => ?_
        simp only [changed]
        rw [rankQty_set old, qtys, around.aligned]
        split
        · rename_i same
          rw [less, same, ← around.aligned, rankQty_middle, value]
        · rfl
  · rw [SparseVolumeIndex.sub, search] at taken
    cases taken

/-- The quantities of some numbers are those of the prices among them. -/
theorem sum_eq_of_prices {prices : List UInt64} {numbers : Finset Nat}
    (sorted : prices.Pairwise (· < ·)) (inside : ∀ price ∈ prices, price.toNat ∈ numbers)
    (all : ∀ number ∈ numbers, quantity number ≠ 0 → ∃ price ∈ prices, price.toNat = number) :
    ∑ number ∈ numbers, quantity number =
      (prices.map fun price => quantity price.toNat).sum := by
  have nodup : (prices.map UInt64.toNat).Nodup :=
    List.pairwise_map.mpr (sorted.imp fun less => Nat.ne_of_lt (UInt64.lt_iff_toNat_lt.mp less))
  have listed : (prices.map fun price => quantity price.toNat).sum =
      ∑ number ∈ (prices.map UInt64.toNat).toFinset, quantity number := by
    rw [List.sum_toFinset _ nodup, List.map_map]
    rfl
  rw [listed]
  refine (Finset.sum_subset ?_ ?_).symm
  · intro number among
    obtain ⟨price, found, rfl⟩ := List.mem_map.mp (List.mem_toFinset.mp among)
    exact inside price found
  · intro number among absent
    by_contra present
    obtain ⟨price, found, rfl⟩ := all number among present
    exact absent (List.mem_toFinset.mpr (List.mem_map_of_mem found))

/-- The quantities of the first ranks are those of the first prices. -/
theorem Holds.sum_ranks (holds : index.Holds quantity) (count : Nat) :
    ∑ rank ∈ Finset.range count, rankQty index.qtys rank =
      ((index.prices.take count).map fun price => quantity price.toNat).sum := by
  rw [sum_rankQty, List.map_take, holds.values, List.map_take]

/-- The first ranks, up to those of the prices that pass a test which lower prices pass. -/
theorem Holds.sum_passing (holds : index.Holds quantity) {test : UInt64 → Bool}
    {numbers : Finset Nat}
    (downward : ∀ lower higher, lower < higher → test higher = true → test lower = true)
    (passes : ∀ price : UInt64, test price = true ↔ price.toNat ∈ numbers) :
    ∑ rank ∈ Finset.range (partitionPoint test index.prices), rankQty index.qtys rank =
      ∑ number ∈ numbers, quantity number := by
  have rebuilt := @List.takeWhile_append_dropWhile _ test index.prices
  have front : index.prices.take (partitionPoint test index.prices) =
      index.prices.takeWhile test :=
    (List.prefix_iff_eq_take.mp (List.takeWhile_prefix test)).symm
  rw [holds.sum_ranks, front, sum_eq_of_prices (holds.sorted.sublist (List.takeWhile_sublist _))]
  · intro price among
    exact (passes price).mp (List.mem_takeWhile_imp among)
  · intro number among present
    obtain ⟨price, listed, rfl⟩ := holds.absent number present
    refine ⟨price, ?_, rfl⟩
    rw [← rebuilt] at listed
    obtain passing | failing := List.mem_append.mp listed
    · exact passing
    · have fails := not_of_mem_dropWhile holds.sorted downward failing
      rw [(passes price).mpr among] at fails
      contradiction

/-- The prefix sum of the tree over the first ranks. -/
theorem Holds.prefixSum_ranks (holds : index.Holds quantity) {count : Nat}
    (positive : 0 < count) (inside : count ≤ index.prices.length) :
    index.fenwick.prefixSum (count - 1) =
      UInt64.ofNat (∑ rank ∈ Finset.range count, rankQty index.qtys rank) := by
  rw [holds.tree.prefixSum (by omega), Nat.sub_add_cancel positive]

/-- The ranks before a price that fails a test are ranks of the index. -/
theorem partitionPoint_le (test : UInt64 → Bool) (prices : List UInt64) :
    partitionPoint test prices ≤ prices.length := (List.takeWhile_sublist _).length_le

/-- The ranks of the prices below a bound. -/
theorem Holds.sum_below (holds : index.Holds quantity) (price : UInt64) :
    ∑ rank ∈ Finset.range (partitionPoint (· < price) index.prices), rankQty index.qtys rank =
      ∑ number ∈ Finset.range price.toNat, quantity number := by
  refine holds.sum_passing (fun lower higher less passes => ?_) fun other => ?_
  · exact decide_eq_true (UInt64.lt_trans less (of_decide_eq_true passes))
  · rw [decide_eq_true_iff, UInt64.lt_iff_toNat_lt, Finset.mem_range]

/-- The ranks of all prices. -/
theorem Holds.sum_all (holds : index.Holds quantity) :
    ∑ rank ∈ Finset.range index.prices.length, rankQty index.qtys rank =
      ∑ number ∈ Finset.range (2 ^ 64), quantity number := by
  have ranks := @Holds.sum_passing _ _ holds (fun _ => true) (Finset.range (2 ^ 64))
    (fun _ _ _ _ => rfl) fun price => by simpa using price.toNat_lt
  have whole : partitionPoint (fun _ => true) index.prices = index.prices.length :=
    congrArg List.length (List.takeWhile_eq_self_iff.mpr fun _ _ => rfl)
  rwa [whole] at ranks

/-- What rests at or below a price. -/
theorem Holds.sumAtOrBelow (holds : index.Holds quantity) (price : UInt64) :
    index.sumAtOrBelow price =
      UInt64.ofNat (∑ number ∈ Finset.range (price.toNat + 1), quantity number) := by
  have ranks := @Holds.sum_passing _ _ holds (· ≤ price) (Finset.range (price.toNat + 1))
    (fun lower higher less passes =>
      decide_eq_true (UInt64.le_of_lt (UInt64.lt_of_lt_of_le less (of_decide_eq_true passes))))
    (fun other => by
      rw [decide_eq_true_iff, UInt64.le_iff_toNat_le, Finset.mem_range]
      omega)
  rw [← ranks]
  unfold SparseVolumeIndex.sumAtOrBelow
  by_cases none : partitionPoint (· ≤ price) index.prices = 0
  · simp [none]
  · simp only [none, if_false]
    exact holds.prefixSum_ranks (Nat.pos_of_ne_zero none) (partitionPoint_le _ _)

/-- What rests at or above a price. -/
theorem Holds.sumAtOrAbove (holds : index.Holds quantity) (price : UInt64) :
    index.sumAtOrAbove price =
      UInt64.ofNat (∑ number ∈ Finset.Ico price.toNat (2 ^ 64), quantity number) := by
  rw [← FenwickTree.ofNat_sum_sub (Nat.le_of_lt price.toNat_lt), ← holds.sum_all,
    ← holds.sum_below]
  have inside := partitionPoint_le (· < price) index.prices
  unfold SparseVolumeIndex.sumAtOrAbove
  by_cases past : index.prices.length ≤ partitionPoint (· < price) index.prices
  · simp only [past, if_true]
    rw [Nat.le_antisymm inside past, UInt64.sub_self]
  · simp only [past, if_false]
    rw [holds.prefixSum_ranks (by omega) (Nat.le_refl _)]
    by_cases some : 0 < partitionPoint (· < price) index.prices
    · rw [if_pos some, holds.prefixSum_ranks some inside]
    · rw [if_neg some, Nat.eq_zero_of_not_pos some]
      rfl

end SparseVolumeIndex

end MatchX
