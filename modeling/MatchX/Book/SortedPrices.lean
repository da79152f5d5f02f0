import MatchX.Book.DepthChecks
import MatchX.Book.DepthExact

/-!
# The prices of the price index

The price index keeps its prices in ascending order, whatever it holds at them. So it lists a price
at most once, and taking nothing from a listed price either leaves the index as it is or drops the
price from it, when it holds nothing there.
-/

namespace MatchX

open MatchX.Support

namespace SparseVolumeIndex

variable {index index' : SparseVolumeIndex} {price qty : UInt64} {fault : Fault}

/-- The prices ascend. -/
def Sorted (index : SparseVolumeIndex) : Prop := index.prices.Pairwise (· < ·)

/-- Adding a quantity keeps the prices sorted. -/
theorem Sorted.add (sorted : index.Sorted) : (index.add price qty).Sorted := by
  unfold Sorted at sorted ⊢
  obtain ⟨low, high, prices, below, ⟨rest, -, -, search⟩ | ⟨above, search⟩⟩ :=
    binarySearch_cases sorted price
  · rw [SparseVolumeIndex.add, search]
    exact sorted
  · rw [SparseVolumeIndex.add, search]
    change (index.prices.insertIdx low.length price).Pairwise (· < ·)
    rw [prices, insertIdx_middle]
    rw [prices] at sorted
    obtain ⟨lower, higher, across⟩ := List.pairwise_append.mp sorted
    refine List.pairwise_append.mpr ⟨lower, List.pairwise_cons.mpr ⟨above, higher⟩, ?_⟩
    intro other among next member
    obtain rfl | later := List.mem_cons.mp member
    · exact below other among
    · exact across other among next later

/-- Taking a quantity keeps the prices sorted. -/
theorem Sorted.sub (sorted : index.Sorted) (taken : index.sub price qty = .ok index') :
    index'.Sorted := by
  unfold SparseVolumeIndex.sub at taken
  split at taken
  · cases taken
  · split at taken
    · cases taken
    · dsimp only at taken
      split at taken
      · cases taken
        exact sorted.sublist (List.eraseIdx_sublist _ _)
      · cases taken
        exact sorted

/-- A listed price has a rank, and no other price is listed in its place. -/
theorem Sorted.rank (sorted : index.Sorted) (listed : price ∈ index.prices) :
    ∃ rank, binarySearch index.prices price = (rank, true) ∧
      price ∉ index.prices.eraseIdx rank := by
  obtain ⟨low, high, prices, below, ⟨rest, rfl, above, search⟩ | ⟨above, -⟩⟩ :=
    binarySearch_cases sorted price
  · refine ⟨low.length, search, ?_⟩
    rw [prices, List.eraseIdx_append_of_length_le (Nat.le_refl _), Nat.sub_self,
      List.eraseIdx_cons_zero, List.mem_append]
    rintro (lower | higher)
    · exact UInt64.lt_irrefl _ (below price lower)
    · exact UInt64.lt_irrefl _ (above price higher)
  · rw [prices, List.mem_append] at listed
    obtain lower | higher := listed
    · exact absurd (below price lower) (UInt64.lt_irrefl _)
    · exact absurd (above price higher) (UInt64.lt_irrefl _)

/-- Taking nothing fails at a price only that is not listed. -/
theorem Sorted.unlisted (sorted : index.Sorted) (failed : index.sub price 0 = .error fault) :
    price ∉ index.prices := by
  intro listed
  obtain ⟨rank, search, -⟩ := sorted.rank listed
  have none : (0 : UInt64) ≤ index.qtys.getD rank 0 := UInt64.zero_le
  simp only [SparseVolumeIndex.sub, search, checkedSub, if_pos none] at failed
  split at failed <;> cases failed

/-- Taking nothing succeeds at a listed price only, and drops it exactly when nothing is held
there; else the index holds there what it held. -/
theorem Sorted.sub_zero (sorted : index.Sorted) (taken : index.sub price 0 = .ok index') :
    price ∈ index.prices ∧
      ((index.qtyAt price = 0 ∧ price ∉ index'.prices) ∨
        (index.qtyAt price ≠ 0 ∧ price ∈ index'.prices ∧ index'.qtyAt price ≠ 0)) := by
  have listed : price ∈ index.prices := by
    obtain ⟨low, high, prices, -, ⟨rest, rfl, -, -⟩ | ⟨-, search⟩⟩ :=
      binarySearch_cases sorted price
    · rw [prices]
      exact List.mem_append_right _ List.mem_cons_self
    · rw [SparseVolumeIndex.sub, search] at taken
      cases taken
  refine ⟨listed, ?_⟩
  obtain ⟨rank, search, erased⟩ := sorted.rank listed
  have held : index.qtyAt price = index.qtys.getD rank 0 := by rw [qtyAt, search]
  have whole : checkedSub (index.qtyAt price) 0 = some (index.qtyAt price) := by simp [checkedSub]
  simp only [SparseVolumeIndex.sub, search, ← held, whole] at taken
  split at taken
  · rename_i nothing
    cases taken
    exact .inl ⟨nothing, erased⟩
  · rename_i some
    cases taken
    refine .inr ⟨some, listed, ?_⟩
    have inside : rank < index.qtys.length := by
      by_contra beyond
      rw [held, List.getD_eq_default _ _ (Nat.le_of_not_lt beyond)] at some
      contradiction
    simpa [qtyAt, search, inside] using some

end SparseVolumeIndex

/-! ## In the book -/

namespace OrderBook

variable {ticks : UInt32} {book book' : OrderBook ticks} {arena arena' : Arena} {queues : Queues}
  {order : Order} {index : ArenaIndex} {side : Side} {price qty : UInt64}

/-- The price indices of both sides have their prices sorted. -/
def SortedPrices (book : OrderBook ticks) : Prop := ∀ side, (book.depth side).2.Sorted

/-- Sorting is a matter of the depth indices. -/
theorem SortedPrices.congr (sorted : book.SortedPrices)
    (same : ∀ side, book'.depth side = book.depth side) : book'.SortedPrices := fun side => by
  rw [same]
  exact sorted side

/-- Raising the depth of a price keeps the prices sorted. -/
theorem SortedPrices.depthAdd (sorted : book.SortedPrices) :
    (book.depthAdd side price qty).SortedPrices := by
  intro other
  rw [depth_depthAdd]
  split
  · split
    · exact sorted side
    · exact (sorted side).add
  · exact sorted other

/-- Lowering the depth of a price keeps the prices sorted. -/
theorem SortedPrices.depthRemove (sorted : book.SortedPrices)
    (returned : book.depthRemove side price qty = .ok book') : book'.SortedPrices := by
  intro other
  by_cases same : other = side
  · subst same
    cases window : book.denseIndex price with
    | some slot =>
      rw [depth_depthRemove_some window returned]
      exact sorted other
    | none =>
      obtain ⟨sparse, taken, depth⟩ := depth_depthRemove_none window returned
      rw [depth]
      exact (sorted other).sub taken
  · rw [depth_depthRemove_other same returned]
    exact sorted other

end OrderBook

variable {ticks : UInt32} {book book' : OrderBook ticks} {arena arena' : Arena} {queues : Queues}
  {order : Order} {index : ArenaIndex}

/-- Inserting an order keeps the prices sorted. -/
theorem Inserted.sortedPrices (inserted : Inserted book arena queues order index book' arena')
    (sorted : book.SortedPrices) : book'.SortedPrices :=
  OrderBook.SortedPrices.congr sorted.depthAdd inserted.depth

/-- Removing an order keeps the prices sorted. -/
theorem Removed.sortedPrices (removed : Removed book arena queues order index book' arena')
    (sorted : book.SortedPrices) : book'.SortedPrices := by
  obtain ⟨lowered, returned, depth⟩ := removed.depth
  exact (sorted.depthRemove returned).congr depth

end MatchX
