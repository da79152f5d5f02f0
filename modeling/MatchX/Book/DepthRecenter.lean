import MatchX.Book.BestPriceRuns
import MatchX.Book.DepthExact
import Mathlib.Algebra.BigOperators.Fin

/-!
# Depth over runs of book operations

Recentering builds the depth indices anew from the totals of the levels, so they hold what rests
whatever they held before. With that, every run of book operations keeps them exact, also from a
window that goes past the last price, whose slots without a price never hold an order.
-/

namespace MatchX

open MatchX.Support

variable {ticks : UInt32} {book book' : OrderBook ticks} {arena arena' : Arena} {queues : Queues}
  {half : BookSide ticks} {side : Side} {price : UInt64}

/-! ## Rebuilding the depth indices -/

/-- A number below the words is one. -/
theorem exists_word {number : Nat} (fits : number < 2 ^ 64) :
    ∃ word : UInt64, word.toNat = number :=
  ⟨UInt64.ofNat number, UInt64.toNat_ofNat_of_lt' fits⟩

/-- The total of a level is the quantity at its price. -/
theorem Represents.toNat_total (rep : Represents book arena queues)
    (total : arena.totalResting < 2 ^ 64) (side : Side) (price : UInt64) :
    (levelOf arena (queues side price)).totalQuantity.toNat =
      arena.quantityAt side price.toNat := by
  have here : arena.quantityAt side price.toNat = liquidity arena (queues side price) := by
    rw [rep.liquidity_eq, Arena.quantityAt]
    refine congrArg _ (funext fun other => ?_)
    rw [Bool.eq_iff_iff, beq_iff_eq, beq_iff_eq, UInt64.toNat_inj]
  have most := @Arena.quantityAt_le arena side price.toNat
  rw [here] at most ⊢
  exact UInt64.toNat_ofNat_of_lt' (Nat.lt_of_le_of_lt most total)

namespace BookSide

/-- What the rebuilt tree holds for a window slot. -/
def slotQty (half : BookSide ticks) (slot : Fin ticks.toNat) : Nat :=
  if (half.denseLevel slot).isEmpty then 0 else (half.denseLevel slot).totalQuantity.toNat

/-- Adding the levels of some slots in turn to the tree. -/
theorem foldl_rebuildDense (half : BookSide ticks) (slots : List (Fin ticks.toNat))
    (rebuilt : BookSide ticks) {weight : Nat → Nat}
    (holds : rebuilt.depthIndex.Holds ticks.toNat weight) :
    (slots.foldl (fun (rebuilt : BookSide ticks) i =>
      if (half.denseLevel i).isEmpty then rebuilt
      else { rebuilt with
        occupied := rebuilt.occupied.insert i
        depthIndex := rebuilt.depthIndex.add i (half.denseLevel i).totalQuantity })
      rebuilt).depthIndex.Holds ticks.toNat fun number =>
        weight number +
          (slots.map fun slot => if number = slot.val then half.slotQty slot else 0).sum := by
  induction slots generalizing rebuilt weight with
  | nil => exact holds
  | cons first rest ih =>
    rw [List.foldl_cons]
    by_cases empty : (half.denseLevel first).isEmpty = true
    · rw [if_pos empty]
      refine (ih rebuilt holds).congr fun number _ => ?_
      rw [List.map_cons, List.sum_cons, slotQty, if_pos empty, ite_self, Nat.zero_add]
    · rw [if_neg empty]
      refine (ih _ (holds.add first (half.denseLevel first).totalQuantity)).congr fun number _ => ?_
      rw [List.map_cons, List.sum_cons, slotQty, if_neg empty, Nat.add_assoc]

/-- The rebuilt tree holds the totals of the window slots. -/
theorem depthIndex_rebuild (half : BookSide ticks) :
    half.rebuildDense.rebuildSparse.depthIndex.Holds ticks.toNat fun number =>
      if inside : number < ticks.toNat then half.slotQty ⟨number, inside⟩ else 0 := by
  have small := ticks.toNat_lt
  have fresh := FenwickTree.holds_new (show ticks.toNat + 1 < 2 ^ 64 by omega)
  refine (foldl_rebuildDense half (List.finRange ticks.toNat) { half with
    occupied := Bitset.empty ticks.toNat
    depthIndex := FenwickTree.new ticks.toNat } fresh).congr fun number inside => ?_
  have alone (slot : Fin ticks.toNat) (apart : slot ≠ ⟨number, inside⟩) :
      (if number = slot.val then half.slotQty slot else 0) = 0 :=
    if_neg fun same => apart (Fin.ext same.symm)
  rw [Nat.zero_add, dif_pos inside, ← Fin.sum_univ_def, Fintype.sum_eq_single _ alone, if_pos rfl]

end BookSide

namespace SparseVolumeIndex

/-- Adding at a price adds at most that price. -/
theorem length_prices_add_le {index : SparseVolumeIndex} {price qty : UInt64} :
    (index.add price qty).prices.length ≤ index.prices.length + 1 := by
  unfold SparseVolumeIndex.add
  split
  · exact Nat.le_succ _
  · exact List.length_insertIdx_le_succ

/-- Adding the totals of some levels of different prices in turn to a price index that has none
of them. -/
theorem holds_foldl_add (entries : List (UInt64 × PriceLevel)) (index : SparseVolumeIndex)
    {quantity : Nat → Nat} (holds : index.Holds quantity)
    (distinct : (entries.map Prod.fst).Nodup)
    (few : index.prices.length + entries.length + 1 < 2 ^ 64)
    (fresh : ∀ entry ∈ entries, quantity entry.1.toNat = 0) :
    (entries.foldl (fun index entry => index.add entry.1 entry.2.totalQuantity) index).Holds
      (fun number => quantity number + (entries.map fun entry =>
        if number = entry.1.toNat then entry.2.totalQuantity.toNat else 0).sum) ∧
    ∀ price ∈ (entries.foldl
      (fun index entry => index.add entry.1 entry.2.totalQuantity) index).prices,
      price ∈ index.prices ∨ price ∈ entries.map Prod.fst := by
  induction entries generalizing index quantity with
  | nil => exact ⟨holds, fun _ among => .inl among⟩
  | cons first rest ih =>
    obtain ⟨apart, distinctRest⟩ := List.nodup_cons.mp distinct
    rw [List.length_cons] at few
    have nothing := fresh first List.mem_cons_self
    have words := first.2.totalQuantity.toNat_lt
    have added := holds.add (show index.prices.length + 2 < 2 ^ 64 by omega)
      (show quantity first.1.toNat + first.2.totalQuantity.toNat < 2 ^ 64 by omega)
    have longer : (index.add first.1 first.2.totalQuantity).prices.length ≤
        index.prices.length + 1 := length_prices_add_le
    have freshRest : ∀ entry ∈ rest, (quantity entry.1.toNat +
        if entry.1.toNat = first.1.toNat then first.2.totalQuantity.toNat else 0) = 0 := by
      intro entry among
      have other : entry.1 ≠ first.1 := fun same =>
        apart (same ▸ List.mem_map_of_mem among)
      rw [fresh entry (List.mem_cons_of_mem first among), Nat.zero_add,
        if_neg fun same => other (UInt64.toNat_inj.mp same)]
    obtain ⟨result, among⟩ := ih _ added distinctRest (by omega) freshRest
    rw [List.foldl_cons]
    refine ⟨result.congr fun number => ?_, fun price member => ?_⟩
    · rw [List.map_cons, List.sum_cons, Nat.add_assoc]
    · rw [List.map_cons]
      obtain before | later := among price member
      · obtain rfl | old := mem_prices_add before
        · exact .inr List.mem_cons_self
        · exact .inl old
      · exact .inr (List.mem_cons_of_mem _ later)

end SparseVolumeIndex

/-- The sum over entries of what none of them has is nothing. -/
theorem sum_of_no_entry {entries : List (UInt64 × PriceLevel)} {number : Nat}
    (absent : ∀ entry ∈ entries, number ≠ entry.1.toNat) : (entries.map fun entry =>
      if number = entry.1.toNat then entry.2.totalQuantity.toNat else 0).sum = 0 := by
  rw [List.sum_eq_zero]
  intro value among
  obtain ⟨entry, member, rfl⟩ := List.mem_map.mp among
  exact if_neg (absent entry member)

/-- The sum over entries of different keys of what one of them has is its value. -/
theorem sum_of_entry {entries : List (UInt64 × PriceLevel)}
    (distinct : (entries.map Prod.fst).Nodup) {entry : UInt64 × PriceLevel}
    (among : entry ∈ entries) : (entries.map fun other =>
      if entry.1.toNat = other.1.toNat then other.2.totalQuantity.toNat else 0).sum =
        entry.2.totalQuantity.toNat := by
  induction entries with
  | nil => contradiction
  | cons first rest ih =>
    obtain ⟨apart, distinctRest⟩ := List.nodup_cons.mp distinct
    rw [List.map_cons, List.sum_cons]
    obtain rfl | later := List.mem_cons.mp among
    · rw [if_pos rfl, sum_of_no_entry]
      · rfl
      · intro other member same
        exact apart (UInt64.toNat_inj.mp same ▸ List.mem_map_of_mem member)
    · rw [if_neg, Nat.zero_add, ih distinctRest later]
      intro same
      exact apart (UInt64.toNat_inj.mp same ▸ List.mem_map_of_mem later)

namespace BookSide

variable {slot : UInt64 → Option (Fin ticks.toNat)} {level : UInt64 → PriceLevel}
  {present : UInt64 → Prop}

/-- The entries from which the price index is rebuilt. -/
def entries (half : BookSide ticks) : List (UInt64 × PriceLevel) :=
  half.sparse.toList.filter fun entry => !entry.2.isEmpty

/-- They are the levels with orders outside the window. -/
theorem mem_entries (holds : half.Holds slot present level)
    (empty : ∀ price, (level price).isEmpty = true ↔ ¬present price)
    {entry : UInt64 × PriceLevel} : entry ∈ half.entries ↔
      slot entry.1 = none ∧ present entry.1 ∧ entry.2 = level entry.1 := by
  rw [entries, List.mem_filter, Std.ExtTreeMap.mem_toList_iff_getElem?_eq_some]
  by_cases held : slot entry.1 = none ∧ present entry.1
  · have full : (level entry.1).isEmpty = false :=
      Bool.eq_false_iff.mpr fun vacant => (empty _).mp vacant held.2
    rw [holds.sparse held.1 held.2]
    constructor
    · rintro ⟨found, -⟩
      exact ⟨held.1, held.2, (Option.some.inj found).symm⟩
    · rintro ⟨-, -, same⟩
      rw [same, full]
      exact ⟨rfl, rfl⟩
  · rw [holds.only held]
    constructor
    · rintro ⟨found, -⟩
      contradiction
    · rintro ⟨beyond, inside, -⟩
      exact absurd ⟨beyond, inside⟩ held

/-- Their prices are different. -/
theorem entries_distinct (half : BookSide ticks) : (half.entries.map Prod.fst).Nodup := by
  have sorted := Std.ExtTreeMap.distinct_keys_toList (t := half.sparse)
  have apart : half.entries.Pairwise fun left right => left.1 ≠ right.1 :=
    (sorted.filter _).imp fun other same => other (by rw [same]; exact Std.compare_self)
  exact List.pairwise_map.mpr apart

end BookSide

/-- The total of the level at a price; numbers past the last price have none. -/
def OrderBook.levelQty (book : OrderBook ticks) (side : Side) (number : Nat) : Nat :=
  if number < 2 ^ 64 then (book.level side (UInt64.ofNat number)).totalQuantity.toNat else 0

/-- The total of the level at a price is read there. -/
theorem OrderBook.levelQty_toNat (price : UInt64) :
    book.levelQty side price.toNat = (book.level side price).totalQuantity.toNat := by
  rw [levelQty, if_pos price.toNat_lt, UInt64.ofNat_toNat]

/-- Past the last price there is no level. -/
theorem OrderBook.levelQty_past {number : Nat} (past : 2 ^ 64 ≤ number) :
    book.levelQty side number = 0 := if_neg (Nat.not_lt.mpr past)

/-- The totals of the levels are what rests, when that fits a word. -/
theorem Represents.levelQty_eq (rep : Represents book arena queues)
    (total : arena.totalResting < 2 ^ 64) (side : Side) (number : Nat) :
    book.levelQty side number = arena.quantityAt side number := by
  by_cases real : number < 2 ^ 64
  · obtain ⟨price, rfl⟩ := exists_word real
    rw [OrderBook.levelQty_toNat, rep.levels, rep.toNat_total total]
  · have past : 2 ^ 64 ≤ number := Nat.not_lt.mp real
    rw [OrderBook.levelQty_past past, Arena.quantityAt_past past]

/-- The total of a level is that of the orders of its queue. -/
theorem Represents.levelQty_queue (rep : Represents book arena queues) (price : UInt64) :
    book.levelQty side price.toNat =
      (levelOf arena (queues side price)).totalQuantity.toNat := by
  rw [OrderBook.levelQty_toNat, rep.levels]

/-- A level without orders has no total. -/
theorem Represents.levelQty_vacant (rep : Represents book arena queues) {price : UInt64}
    (vacant : queues side price = []) : book.levelQty side price.toNat = 0 := by
  rw [rep.levelQty_queue, vacant, levelOf_nil]
  rfl

/-- The containers that are rebuilt hold the levels where they stand. -/
theorem Represents.rebuilt_holds (rep : Represents book arena queues)
    (rebuilt : book.half side = half.rebuildDense.rebuildSparse) :
    half.Holds book.denseIndex (fun price => queues side price ≠ [])
      fun price => levelOf arena (queues side price) := by
  have whole := rep.holds side
  rw [rebuilt] at whole
  exact BookSide.rebuild_holds.mp whole

/-- The entries past the window add up, at a price, to the total of its level. -/
theorem Represents.sum_of_entries (rep : Represents book arena queues)
    (holds : half.Holds book.denseIndex (fun price => queues side price ≠ [])
      fun price => levelOf arena (queues side price)) (number : Nat) :
    (half.entries.map fun entry =>
      if number = entry.1.toNat then entry.2.totalQuantity.toNat else 0).sum =
        if book.Spans number then 0 else book.levelQty side number := by
  by_cases listed : ∃ entry ∈ half.entries, number = entry.1.toNat
  · obtain ⟨entry, among, rfl⟩ := listed
    obtain ⟨beyond, -, level⟩ := (BookSide.mem_entries holds rep.isEmpty_iff).mp among
    rw [sum_of_entry half.entries_distinct among, if_neg (OrderBook.not_spans beyond), level,
      rep.levelQty_queue]
  · rw [sum_of_no_entry fun entry among same => listed ⟨entry, among, same⟩]
    split
    · rfl
    · rename_i outside
      by_contra some
      have real : number < 2 ^ 64 := by
        by_contra past
        exact some (OrderBook.levelQty_past (Nat.not_lt.mp past)).symm
      obtain ⟨price, rfl⟩ := exists_word real
      have beyond : book.denseIndex price = none := by
        rw [OrderBook.denseIndex_none]
        unfold OrderBook.Spans at outside
        omega
      have present : queues side price ≠ [] := fun vacant =>
        some (rep.levelQty_vacant vacant).symm
      have level : (price, levelOf arena (queues side price)) ∈ half.entries :=
        (BookSide.mem_entries holds rep.isEmpty_iff).mpr ⟨beyond, present, rfl⟩
      exact listed ⟨_, level, rfl⟩

/-- After the containers of a side are rebuilt, its depth indices hold the totals of its levels,
and orders rest at the prices of its price index. -/
theorem rebuilt_levels (rep : Represents book arena queues)
    (fits : book.denseBasePrice.toNat + ticks.toNat < 2 ^ 64)
    (rebuilt : book.half side = half.rebuildDense.rebuildSparse) :
    book.DepthHolds side (book.levelQty side) ∧
      ∀ price ∈ (book.depth side).2.prices, Rests arena side price := by
  obtain ⟨-, kept, -, -⟩ := BookSide.rebuild_views half
  have holds := rep.rebuilt_holds rebuilt
  have rests {entry : UInt64 × PriceLevel} (among : entry ∈ half.entries) :
      Rests arena side entry.1 :=
    (rep.toQueued.rests_iff).mpr ((BookSide.mem_entries holds rep.isEmpty_iff).mp among).2.1
  have few : half.entries.length < 2 ^ 32 := by
    have atMost := Arena.length_le_of_rests rep.slots half.entries_distinct fun price among => by
      obtain ⟨entry, member, rfl⟩ := List.mem_map.mp among
      exact rests member
    rwa [List.length_map] at atMost
  obtain ⟨sums, prices⟩ := SparseVolumeIndex.holds_foldl_add half.entries .new
    SparseVolumeIndex.holds_new half.entries_distinct
    (show ([] : List UInt64).length + _ + 1 < 2 ^ 64 by rw [List.length_nil]; omega)
    fun _ _ => rfl
  have indices : book.depth side = (half.rebuildDense.rebuildSparse.depthIndex,
      half.entries.foldl (fun index entry => index.add entry.1 entry.2.totalQuantity) .new) := by
    have kept' : half.rebuildDense.sparse = half.sparse := kept
    simp only [OrderBook.depth, rebuilt, BookSide.rebuildSparse, kept', BookSide.entries]
  have inside (price : UInt64) (among : price ∈ (book.depth side).2.prices) :
      ∃ entry ∈ half.entries, entry.1 = price := by
    rw [indices] at among
    obtain none | listed := prices price among
    · contradiction
    · exact List.mem_map.mp listed
  refine ⟨⟨?_, ?_, fun price among => ?_⟩, fun price among => ?_⟩
  · rw [indices]
    refine half.depthIndex_rebuild.congr fun number within => ?_
    obtain ⟨price, real⟩ :=
      exists_word (show book.denseBasePrice.toNat + number < 2 ^ 64 by omega)
    have slot : book.denseIndex price = some ⟨number, within⟩ := OrderBook.denseIndex_some.mpr real
    rw [dif_pos within, BookSide.slotQty, holds.dense slot, ← real]
    by_cases vacant : (levelOf arena (queues side price)).isEmpty = true
    · rw [if_pos vacant, rep.levelQty_vacant (not_not.mp ((rep.isEmpty_iff price).mp vacant))]
    · rw [if_neg vacant, rep.levelQty_queue]
  · rw [indices]
    refine sums.congr fun number => ?_
    rw [Nat.zero_add]
    exact rep.sum_of_entries holds number
  · obtain ⟨entry, listed, rfl⟩ := inside price among
    exact ((BookSide.mem_entries holds rep.isEmpty_iff).mp listed).1
  · obtain ⟨entry, listed, rfl⟩ := inside price among
    exact rests listed

/-- After the containers of a side are rebuilt, its depth indices hold what rests on it, when
that fits a word. -/
theorem rebuilt_depth (rep : Represents book arena queues)
    (fits : book.denseBasePrice.toNat + ticks.toNat < 2 ^ 64)
    (total : arena.totalResting < 2 ^ 64)
    (rebuilt : book.half side = half.rebuildDense.rebuildSparse) :
    book.DepthHolds side (arena.quantityAt side) ∧
      ∀ price ∈ (book.depth side).2.prices, Rests arena side price := by
  obtain ⟨holds, rests⟩ := rebuilt_levels rep fits rebuilt
  exact ⟨holds.congr rfl rfl fun number => (rep.levelQty_eq total side number).symm, rests⟩

/-! ## Slots past the last price -/

/-- Two books have the same window, and the same levels in its slots that have no price. -/
structure SamePast (book book' : OrderBook ticks) : Prop where
  /-- The window is the same. -/
  base : book'.denseBasePrice = book.denseBasePrice
  /-- The levels without a price are the same. -/
  dense : ∀ side (slot : Fin ticks.toNat), 2 ^ 64 ≤ book.denseBasePrice.toNat + slot.val →
    (book'.half side).denseLevel slot = (book.half side).denseLevel slot

namespace SamePast

variable {book'' : OrderBook ticks} {qty : UInt64}

/-- A book is the same as itself. -/
theorem refl (book : OrderBook ticks) : SamePast book book := ⟨rfl, fun _ _ _ => rfl⟩

/-- What is the same after each of two steps is the same after both. -/
theorem trans (first : SamePast book book') (second : SamePast book' book'') :
    SamePast book book'' where
  base := second.base.trans first.base
  dense side slot past :=
    (second.dense side slot (by rwa [first.base])).trans (first.dense side slot past)

/-- Slots without orders stay so. -/
theorem vacant (same : SamePast book book') (vacant : book.VacantPast) : book'.VacantPast := by
  intro side slot past
  rw [same.base] at past
  rw [same.dense side slot past, vacant side slot past]

/-- Other containers than the levels of the window do not matter. -/
theorem setHalf (book : OrderBook ticks) (side : Side) {half : BookSide ticks}
    (dense : half.dense = (book.half side).dense) : SamePast book (book.setHalf side half) where
  base := OrderBook.denseBasePrice_setHalf
  dense side' slot _ := by
    rw [OrderBook.half_setHalf]
    split
    · rename_i same
      subst same
      exact congrArg (fun levels : Vector PriceLevel ticks.toNat => levels[slot]) dense
    · rfl

/-- A level is written at the slot of a price. -/
theorem setLevel (book : OrderBook ticks) (side : Side) (price : UInt64) (level : PriceLevel) :
    SamePast book (book.setLevel side price level) := by
  unfold OrderBook.setLevel
  cases window : book.denseIndex price with
  | none => exact .setHalf book side rfl
  | some i =>
    refine ⟨OrderBook.denseBasePrice_setHalf, fun side' slot past => ?_⟩
    have place := OrderBook.denseIndex_some.mp window
    have real := price.toNat_lt
    have apart : i.val ≠ slot.val := by omega
    rw [OrderBook.half_setHalf]
    split
    · rename_i same
      subst same
      simp [Vector.getElem_set_ne, apart]
    · rfl

/-- Raising the depth of a price. -/
theorem depthAdd (book : OrderBook ticks) (side : Side) (price qty : UInt64) :
    SamePast book (book.depthAdd side price qty) := by
  unfold OrderBook.depthAdd
  cases book.denseIndex price <;> exact .setHalf book side rfl

/-- Lowering the depth of a price. -/
theorem depthRemove (returned : book.depthRemove side price qty = .ok book') :
    SamePast book book' := by
  unfold OrderBook.depthRemove at returned
  split at returned
  · obtain rfl := Except.ok.inj returned
    exact .setHalf book side rfl
  · simp only at returned
    split at returned
    · contradiction
    · obtain rfl := Except.ok.inj returned
      exact .setHalf book side rfl

/-- Marking a slot. -/
theorem mark (book : OrderBook ticks) (side : Side) (price : UInt64) :
    SamePast book (book.mark side price) := by
  unfold OrderBook.mark
  cases book.denseIndex price with
  | none => exact .refl book
  | some slot => exact .setHalf book side rfl

/-- Clearing a slot. -/
theorem unmark (book : OrderBook ticks) (side : Side) (price : UInt64) :
    SamePast book (book.unmark side price) := by
  unfold OrderBook.unmark
  cases book.denseIndex price with
  | none => exact .refl book
  | some slot => exact .setHalf book side rfl

/-- Improving the best price. -/
theorem improve (book : OrderBook ticks) (side : Side) (price : UInt64) :
    SamePast book (book.improve side price) := by
  unfold OrderBook.improve
  split
  · exact .setHalf book side rfl
  · split
    · exact .setHalf book side rfl
    · exact .refl book

/-- Settling an empty level. -/
theorem settle (book : OrderBook ticks) (side : Side) (price : UInt64) :
    SamePast book (book.settle side price) := by
  unfold OrderBook.settle
  split
  · have pruned : SamePast book (book.pruneIfSparseEmpty side price) := by
      unfold OrderBook.pruneIfSparseEmpty
      split
      · exact .refl book
      · simp only
        split
        · exact .setHalf book side rfl
        · exact .refl book
    refine pruned.trans ((SamePast.unmark _ side price).trans ?_)
    set cleared := (book.pruneIfSparseEmpty side price).unmark side price
    change SamePast cleared (if cleared.best side = some price then
      cleared.setBest side (cleared.scanBest side) else cleared)
    split
    · exact .setHalf cleared side rfl
    · exact .refl cleared
  · exact .refl book

/-- Placing an order. -/
theorem place (book : OrderBook ticks) (id : OrderId) (side : Side) (price qty : UInt64)
    (index : ArenaIndex) (level : PriceLevel) :
    SamePast book (book.place id side price qty index level) := by
  let filed := { book with orderIndex := book.orderIndex.insert id index }
  have begins : SamePast book filed := ⟨rfl, fun side _ _ => by cases side <;> rfl⟩
  exact begins.trans ((SamePast.setLevel filed side price level).trans
    ((SamePast.depthAdd _ side price qty).trans
      ((SamePast.mark _ side price).trans (SamePast.improve _ side price))))

/-- Inserting an order. -/
theorem insertOrder {id : OrderId} {orderType : OrderType} {visibleQty : Option UInt64}
    {stpGroup : Option UInt32} {index : Option ArenaIndex}
    (returned : book.insertOrder arena id side price qty orderType visibleQty stpGroup =
      .ok (index, book', arena')) : SamePast book book' := by
  unfold OrderBook.insertOrder at returned
  simp only [bind, Except.bind, pure, Except.pure] at returned
  split at returned
  · cases returned
    exact .refl book
  split at returned
  · split at returned
    · contradiction
    · split at returned
      · split at returned
        · contradiction
        · cases returned
          exact .place book id side price qty _ _
      · cases returned
        exact .place book id side price qty _ _
  · cases returned
    exact .refl book

/-- Removing an order. -/
theorem removeOrder {index : ArenaIndex} {key : Side × UInt64}
    (rep : Represents book arena queues)
    (returned : book.removeOrder arena index = .ok (key, book', arena')) :
    SamePast book book' := by
  obtain ⟨order, found⟩ := removeOrder_found returned
  obtain ⟨arena₃, -, -, -, removed⟩ := rep.removeOrder_eq found
  rw [removed] at returned
  generalize leveled : book.setLevel order.side order.price _ = lower at returned
  cases removal : lower.depthRemove order.side order.price order.remaining with
  | error fault =>
    rw [removal] at returned
    contradiction
  | ok lowered =>
    rw [removal] at returned
    cases returned
    let filed := { lowered with orderIndex := lowered.orderIndex.erase order.id }
    have first : SamePast book lower := leveled ▸ .setLevel book order.side order.price _
    have last : SamePast lowered filed := ⟨rfl, fun side _ _ => by cases side <;> rfl⟩
    exact first.trans ((SamePast.depthRemove removal).trans
      (last.trans (SamePast.settle filed order.side order.price)))

/-- Reducing an order. -/
theorem reduceOrderQty {index : ArenaIndex} {delta : UInt64}
    (returned : book.reduceOrderQty arena index delta = .ok (book', arena')) :
    SamePast book book' := by
  unfold OrderBook.reduceOrderQty at returned
  simp only [bind, Except.bind, pure, Except.pure] at returned
  split at returned
  · contradiction
  split at returned
  · contradiction
  split at returned
  · split at returned
    · contradiction
    · rename_i lowered removal
      cases returned
      exact (SamePast.setLevel book _ _ _).trans (SamePast.depthRemove removal)
  · contradiction

end SamePast

/-! ## Runs -/

/-- What every legal operation keeps: some queues are represented, the best prices are those of
levels with orders, no order is at a slot without a price, and the depth indices are exact. -/
structure DepthInv (state : BookState ticks) : Prop where
  /-- The book agrees with some queues, and its best prices with them. -/
  queues : ∃ queues, Represents state.1 state.2 queues ∧ Tracks state.1 queues
  /-- Slots past the last price hold no orders. -/
  vacant : state.1.VacantPast
  /-- The depth indices hold what rests. -/
  exact : DepthExact state.1 state.2

/-- Recentering to a window within the prices keeps the depth indices exact. -/
theorem DepthExact.recenter {newBase : UInt64} (exact : DepthExact book arena)
    (rep : Represents book arena queues) (tracks : Tracks book queues) (vacant : book.VacantPast)
    (fits : newBase.toNat + ticks.toNat < 2 ^ 64)
    (returned : book.forceRecenter newBase = .ok book') :
    Represents book' arena queues ∧ Tracks book' queues ∧ book'.VacantPast ∧
      DepthExact book' arena := by
  obtain ⟨moved, completed, rep', best, base, rebuilt⟩ :=
    forceRecenter_spec rep tracks vacant fits
  obtain rfl := Except.ok.inj (completed.symm.trans returned)
  have tracks' : Tracks moved queues :=
    ⟨fun side none => tracks.empty side (best side ▸ none),
      fun side price held => tracks.held side price (best side ▸ held)⟩
  have within : moved.denseBasePrice.toNat + ticks.toNat < 2 ^ 64 := by rwa [base]
  refine ⟨rep', tracks', vacantPast_of_fits within, ?_⟩
  obtain ⟨-, rfl⟩ | each := rebuilt
  · exact exact
  · have sides (side : Side) : moved.DepthHolds side (arena.quantityAt side) ∧
        ∀ price ∈ (moved.depth side).2.prices, Rests arena side price := by
      obtain ⟨half, same⟩ := each side
      exact rebuilt_depth rep' within exact.total same
    exact ⟨exact.total, fun side => (sides side).1, fun side => (sides side).2⟩

/-- Every legal operation keeps the depth indices exact. -/
theorem DepthInv.apply {state following : BookState ticks} {op : BookOp} (inv : DepthInv state)
    (legal : op.Legal state) (completed : op.apply state = .ok following) :
    DepthInv following := by
  obtain ⟨⟨queues, rep, tracks⟩, vacant, exact⟩ := inv
  cases op with
  | insert id side price qty orderType visibleQty stpGroup =>
    simp only [BookOp.apply] at completed
    rcases insertOrder_spec rep id side price qty orderType visibleQty stpGroup with
      ⟨refused, -⟩ | ⟨index, book', arena', accepted, -, inserted⟩
    · rw [refused] at completed
      obtain rfl := Except.ok.inj completed
      exact ⟨⟨queues, rep, tracks⟩, vacant, exact⟩
    · rw [accepted] at completed
      obtain rfl := Except.ok.inj completed
      have whole : (Order.submitted id side price qty orderType visibleQty stpGroup).remaining =
          qty := by
        simp [Order.remaining, Order.submitted, saturatingSub]
      have total := inserted.weigh rep.slots fun order => order.remaining.toNat
      rw [← Arena.totalResting_eq, ← Arena.totalResting_eq, whole] at total
      refine ⟨⟨_, inserted.represents, inserted.tracks tracks⟩,
        (SamePast.insertOrder accepted).vacant vacant, exact.insert rep.slots inserted whole ?_⟩
      rw [total]
      exact legal.2
  | remove index =>
    simp only [BookOp.apply] at completed
    cases removal : state.1.removeOrder state.2 index with
    | error fault =>
      rw [removal] at completed
      contradiction
    | ok result =>
      obtain ⟨place, book', arena'⟩ := result
      rw [removal] at completed
      obtain rfl := Except.ok.inj completed
      obtain ⟨order, found⟩ := removeOrder_found removal
      obtain ⟨-, removed⟩ := removeOrder_spec rep found removal
      exact ⟨⟨_, removed.represents, removed.tracks tracks⟩,
        (SamePast.removeOrder rep removal).vacant vacant, exact.remove rep.slots removed⟩
  | reduce index delta =>
    simp only [BookOp.apply] at completed
    obtain ⟨order, found, below⟩ := (Option.any_eq_true _ _).mp legal
    have bound : delta ≤ order.remaining := UInt64.le_of_lt (of_decide_eq_true below)
    obtain ⟨taken, depth⟩ := reduceOrderQty_spec rep found bound completed
    exact ⟨⟨_, taken.represents, taken.tracks tracks⟩,
      (SamePast.reduceOrderQty completed).vacant vacant,
      exact.take rep.toQueued taken bound depth⟩
  | recenter newBase =>
    simp only [BookOp.apply] at completed
    cases moved : state.1.forceRecenter newBase with
    | error fault =>
      rw [moved] at completed
      contradiction
    | ok book' =>
      rw [moved] at completed
      obtain rfl := Except.ok.inj completed
      obtain ⟨rep', tracks', vacant', exact'⟩ := exact.recenter rep tracks vacant legal moved
      exact ⟨⟨queues, rep', tracks'⟩, vacant', exact'⟩

/-- A new book has exact depth indices, wherever its window is. -/
theorem depthInv_new (config : InstrumentConfig) (capacity : UInt32) :
    DepthInv (OrderBook.new config, Arena.new capacity) where
  queues := ⟨_, represents_new config capacity, tracks_new config⟩
  vacant side slot _ := by
    cases side <;> simp [OrderBook.new, OrderBook.half, BookSide.new]
  exact := .new config capacity

/-- A book reached from a new one, whatever its window, by legal operations. -/
def DepthRun (config : InstrumentConfig) (capacity : UInt32) :
    BookState config.maxTicks → Prop :=
  Reached (fun state => state = (OrderBook.new config, Arena.new capacity)) BookOp.apply
    fun state op => op.Legal state

/-- Every book of a run has exact depth indices. -/
theorem DepthRun.inv {config : InstrumentConfig} {capacity : UInt32}
    {state : BookState config.maxTicks} (run : DepthRun config capacity state) :
    DepthInv state := by
  refine Reached.invariant ?_ ?_ run
  · rintro state rfl
    exact depthInv_new config capacity
  · intro state op following inv legal completed
    exact inv.apply legal completed

/-- In every book of a run the volume that is answered for a price is what a scan of the resting
orders finds: on the sell side up to the price, on the buy side from the price on. -/
theorem range_volume_eq_scan (config : InstrumentConfig) (capacity : UInt32)
    (state : BookState config.maxTicks) (run : DepthRun config capacity state) (price : UInt64) :
    (state.1.askAvailableAtOrBelow price).toNat = state.2.sumResting .ask (· ≤ price) ∧
      (state.1.bidAvailableAtOrAbove price).toNat = state.2.sumResting .bid (price ≤ ·) := by
  have inv : DepthInv state := DepthRun.inv run
  exact ⟨inv.exact.askAvailableAtOrBelow price, inv.exact.bidAvailableAtOrAbove price⟩

/-- Asks inside and outside the window, one of them reduced, after the window was moved over
the others. -/
theorem range_volume_eq_scan_after_recenter :
    ∃ state, DepthRun (smallConfig .cancelNewest) 8 state ∧ state.1.denseBasePrice = 6 ∧
      (state.1.askAvailableAtOrBelow 7).toNat = state.2.sumResting .ask (· ≤ 7) := by
  have legal (state : BookState (smallConfig .cancelNewest).maxTicks) (op : BookOp)
      (allowed : decide (op.Legal state) = true) : op.Legal state := of_decide_eq_true allowed
  obtain ⟨state, run, base⟩ : ∃ state, DepthRun (smallConfig .cancelNewest) 8 state ∧
      (state.1.denseBasePrice == 6) = true :=
    Reached.exists_checkedRun _ _ legal rfl
      [.insert 1 .ask 2 10 .limit none none, .insert 2 .ask 7 5 .limit none none,
        .insert 3 .ask 9 4 .limit none none, .reduce 0 3, .recenter 6] (by decide +kernel)
  exact ⟨state, run, beq_iff_eq.mp base, (range_volume_eq_scan _ _ state run 7).1⟩

end MatchX
