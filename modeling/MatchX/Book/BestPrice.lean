import MatchX.Book.Operations

/-!
# The cached best prices

A cached best price is exact when no resting order of its side has a better price. Insertions
keep it exact. A removal that empties the level of the best price has it found anew by a scan
that looks at the window first and outside it only when the window is empty, so the removal
loses a better price exactly when it `HidesBetter`.
-/

namespace MatchX

open MatchX.Support

variable {ticks : UInt32} {book book' : OrderBook ticks} {arena arena' : Arena} {queues : Queues}
  {order : Order} {index : ArenaIndex} {side : Side} {price : UInt64}

/-- Some order of a side rests at a price. -/
def Rests (arena : Arena) (side : Side) (price : UInt64) : Prop :=
  ∃ i order, arena.find i = some order ∧ order.side = side ∧ order.price = price

/-- Whether orders rest at a price is a matter of what rests in the slots. -/
theorem rests_resting : Rests arena side price ↔
    ∃ i order, arena.resting i = some order ∧ order.side = side ∧ order.price = price := by
  constructor
  · rintro ⟨i, stored, found, places⟩
    exact ⟨i, stored.unlinked, Arena.resting_of_find found, places⟩
  · rintro ⟨i, order, rests, places⟩
    obtain ⟨stored, found, rfl⟩ := Arena.find_of_resting rests
    exact ⟨i, stored, found, places⟩

/-- Some order of a side other than the one in a slot rests at a price. -/
def RestsBeside (arena : Arena) (index : ArenaIndex) (side : Side) (price : UInt64) : Prop :=
  ∃ i order, i ≠ index ∧ arena.find i = some order ∧ order.side = side ∧ order.price = price

/-- A price is the best one at which an order of a side rests; no price is when none does. -/
def IsBest (arena : Arena) (side : Side) : Option UInt64 → Prop
  | none => ∀ price, ¬Rests arena side price
  | some top => Rests arena side top ∧
      ∀ price, Rests arena side price → OrderBook.better side price top = false

/-- Both cached best prices are exact. -/
def BestExact (book : OrderBook ticks) (arena : Arena) : Prop :=
  ∀ side, IsBest arena side (book.best side)

/-- The price has a slot in the window. -/
def OrderBook.InWindow (book : OrderBook ticks) (price : UInt64) : Prop :=
  book.denseIndex price ≠ none

/-- Removing the order of a slot makes its side lose its best price: the order is the last one
at the cached best price, and of the orders left beside it some are inside the window and one
outside it has a better price than all of those. -/
def HidesBetter (book : OrderBook ticks) (arena : Arena) (index : ArenaIndex) : Prop :=
  ∃ order, arena.find index = some order ∧ book.best order.side = some order.price ∧
    ¬RestsBeside arena index order.side order.price ∧
    (∃ inside, book.InWindow inside ∧ RestsBeside arena index order.side inside) ∧
    ∃ outside, ¬book.InWindow outside ∧ RestsBeside arena index order.side outside ∧
      ∀ inside, book.InWindow inside → RestsBeside arena index order.side inside →
        OrderBook.better order.side outside inside = true

namespace Queued

variable (queued : Queued arena queues)
include queued

/-- Orders rest at a price exactly when its queue is not empty. -/
theorem rests_iff : Rests arena side price ↔ queues side price ≠ [] := by
  constructor
  · rintro ⟨i, order, found, rfl, rfl⟩
    exact List.ne_nil_of_mem (queued.find_placed found)
  · intro present
    obtain ⟨i, member⟩ := List.exists_mem_of_ne_nil _ present
    obtain ⟨order, rests, rfl, rfl⟩ := queued.stored member
    obtain ⟨stored, found, rfl⟩ := Arena.find_of_resting rests
    exact ⟨i, stored, found, rfl, rfl⟩

/-- Orders rest beside an order exactly when they are left once it is deleted. -/
theorem restsBeside_iff (found : arena.find index = some order) :
    RestsBeside arena index side price ↔ queues.delete order index side price ≠ [] := by
  have nodup := queued.nodup order.side order.price
  have member : ∀ i, i ∈ queues.delete order index side price ↔
      i ≠ index ∧ i ∈ queues side price := by
    intro i
    unfold Queues.delete Queues.set
    split
    · rename_i same
      rw [same.1, same.2, List.Nodup.mem_erase_iff nodup]
    · rename_i apart
      refine ⟨fun inside => ⟨?_, inside⟩, And.right⟩
      rintro rfl
      exact apart (queued.same_queue (queued.find_placed found) inside)
  constructor
  · rintro ⟨i, other, apart, found, rfl, rfl⟩
    exact List.ne_nil_of_mem ((member i).mpr ⟨apart, queued.find_placed found⟩)
  · intro present
    obtain ⟨i, inside⟩ := List.exists_mem_of_ne_nil _ present
    obtain ⟨apart, inside⟩ := (member i).mp inside
    obtain ⟨other, rests, rfl, rfl⟩ := queued.stored inside
    obtain ⟨stored, found, rfl⟩ := Arena.find_of_resting rests
    exact ⟨i, stored, apart, found, rfl, rfl⟩

end Queued

/-! ## The scan -/

/-- The last element of an ascending list is a largest one. -/
theorem pairwise_getLast {α : Type} {r : α → α → Prop} {l : List α} {last : α}
    (ordered : l.Pairwise r) (found : l.getLast? = some last) :
    ∀ x ∈ l, x = last ∨ r x last := by
  obtain ⟨front, rfl⟩ := List.getLast?_eq_some_iff.mp found
  intro x member
  rcases List.mem_append.mp member with inFront | isLast
  · exact .inr ((List.pairwise_append.mp ordered).2.2 x inFront last (by simp))
  · exact .inl (List.mem_singleton.mp isLast)

/-- The first element of an ascending list is a smallest one. -/
theorem pairwise_head {α : Type} {r : α → α → Prop} {l : List α} {first : α}
    (ordered : l.Pairwise r) (found : l.head? = some first) :
    ∀ x ∈ l, x = first ∨ r first x := by
  cases l with
  | nil => contradiction
  | cons y rest =>
    obtain rfl := Option.some.inj found
    intro x member
    rcases List.mem_cons.mp member with isFirst | inRest
    · exact .inl isFirst
    · exact .inr ((List.pairwise_cons.mp ordered).1 x inRest)

/-- The keys of a map of prices ascend. -/
theorem keys_ascend {V : Type} (map : Std.ExtTreeMap UInt64 V) :
    map.keys.Pairwise fun left right => left < right :=
  map.ordered_keys.imp fun less => Std.compare_eq_lt.mp less

/-- No price is better than itself. -/
theorem better_irrefl (side : Side) (price : UInt64) :
    OrderBook.better side price price = false := by
  cases side <;> simp [OrderBook.better]

/-- Of two prices not both is better than the other. -/
theorem better_asymm {first second : UInt64}
    (improves : OrderBook.better side first second = true) :
    OrderBook.better side second first = false := by
  revert improves
  cases side <;> simp only [OrderBook.better, decide_eq_false_iff_not, decide_eq_true_iff] <;>
    grind

/-- A price better than one that another price is not better than is better than that other
price. -/
theorem better_of_not_better {first second third : UInt64}
    (improves : OrderBook.better side first second = true)
    (least : OrderBook.better side third second = false) :
    OrderBook.better side first third = true := by
  revert improves least
  cases side <;> simp only [OrderBook.better, decide_eq_false_iff_not, decide_eq_true_iff] <;>
    grind

/-- The sparse price that the scan of a side falls back to. -/
def OrderBook.sparseBest (book : OrderBook ticks) : Side → Option UInt64
  | .bid => book.bids.sparse.keys.getLast?
  | .ask => book.asks.sparse.keys.head?

/-- The window price that the scan of a side looks for first. -/
def OrderBook.denseBest (book : OrderBook ticks) : Side → Option UInt64
  | .bid => book.findHighestOccupiedBid
  | .ask => book.findLowestOccupiedAsk

/-- The price of a window slot. -/
theorem slot_price {slot : Fin ticks.toNat} (inside : book.denseIndex price = some slot) :
    book.denseBasePrice + UInt64.ofNat slot.val = price := by
  have place := OrderBook.denseIndex_some.mp inside
  have cap := price.toNat_lt
  apply UInt64.toNat_inj.mp
  rw [UInt64.toNat_add, UInt64.toNat_ofNat_of_lt' (by simp only [UInt64.size]; omega)]
  omega

namespace Represents

variable (rep : Represents book arena queues)
include rep

/-- The sparse part of the scan finds the best level outside the window. -/
theorem sparseBest_spec (side : Side) :
    match book.sparseBest side with
    | none => ∀ price, queues side price ≠ [] → book.InWindow price
    | some top => queues side top ≠ [] ∧ ¬book.InWindow top ∧
        ∀ price, queues side price ≠ [] → ¬book.InWindow price →
          OrderBook.better side price top = false := by
  have keys : ∀ price, price ∈ (book.half side).sparse.keys ↔
      ¬book.InWindow price ∧ queues side price ≠ [] := fun price => by
    rw [Std.ExtTreeMap.mem_keys, ← Std.ExtTreeMap.contains_iff_mem, OrderBook.InWindow, ne_eq,
      not_not]
    exact rep.sparse side price
  have ascend := keys_ascend (book.half side).sparse
  cases side with
  | bid =>
    cases found : book.sparseBest .bid with
    | none =>
      have none : (book.half .bid).sparse.keys = [] := List.getLast?_eq_none_iff.mp found
      intro price present
      by_contra outside
      have := (keys price).mpr ⟨outside, present⟩
      simp [none] at this
    | some top =>
      obtain ⟨outside, present⟩ := (keys top).mp (List.mem_of_getLast? found)
      refine ⟨present, outside, fun price present outside => ?_⟩
      rcases pairwise_getLast ascend found price ((keys price).mpr ⟨outside, present⟩) with
        rfl | less
      · exact better_irrefl _ _
      · simpa [OrderBook.better] using UInt64.le_of_lt less
  | ask =>
    cases found : book.sparseBest .ask with
    | none =>
      have none : (book.half .ask).sparse.keys = [] := List.head?_eq_none_iff.mp found
      intro price present
      by_contra outside
      have := (keys price).mpr ⟨outside, present⟩
      simp [none] at this
    | some top =>
      obtain ⟨outside, present⟩ := (keys top).mp (List.mem_of_mem_head? found)
      refine ⟨present, outside, fun price present outside => ?_⟩
      rcases pairwise_head ascend found price ((keys price).mpr ⟨outside, present⟩) with
        rfl | less
      · exact better_irrefl _ _
      · simpa [OrderBook.better] using UInt64.le_of_lt less

/-- The window part of the scan finds the best level inside the window. -/
theorem denseBest_spec (side : Side) :
    match book.denseBest side with
    | none => ∀ price, queues side price ≠ [] → ¬book.InWindow price
    | some top => queues side top ≠ [] ∧ book.InWindow top ∧
        ∀ price, queues side price ≠ [] → book.InWindow price →
          OrderBook.better side price top = false := by
  have bit : ∀ {price slot}, book.denseIndex price = some slot →
      queues side price ≠ [] → (book.half side).occupied.test slot.val = true :=
    fun {price slot} inside present => (rep.occupied side _).mpr ⟨price, slot, inside, rfl, present⟩
  have levelOfBit : ∀ {i}, (book.half side).occupied.test i = true →
      ∃ price, queues side price ≠ [] ∧ book.InWindow price ∧
        price.toNat = book.denseBasePrice.toNat + i ∧
        book.denseBasePrice + UInt64.ofNat i = price := fun {i} set => by
    obtain ⟨price, slot, inside, rfl, present⟩ := (rep.occupied side i).mp set
    exact ⟨price, present, by simp [OrderBook.InWindow, inside],
      OrderBook.denseIndex_some.mp inside, slot_price inside⟩
  cases side with
  | bid =>
    unfold OrderBook.denseBest OrderBook.findHighestOccupiedBid
    cases found : book.bids.occupied.highest with
    | none =>
      intro price present inside
      obtain ⟨slot, inside⟩ := Option.ne_none_iff_exists'.mp inside
      have := bit inside present
      rw [show (book.half .bid).occupied = book.bids.occupied from rfl,
        Bitset.highest_none.mp found] at this
      contradiction
    | some i =>
      obtain ⟨set, largest⟩ := Bitset.highest_some found
      obtain ⟨top, present, inside, place, same⟩ := levelOfBit set
      simp only [Option.map_some, same]
      refine ⟨present, inside, fun price present inside => ?_⟩
      obtain ⟨slot, inside⟩ := Option.ne_none_iff_exists'.mp inside
      have below := largest _ (bit inside present)
      have place' := OrderBook.denseIndex_some.mp inside
      simp only [OrderBook.better, decide_eq_false_iff_not, UInt64.lt_iff_toNat_lt]
      omega
  | ask =>
    unfold OrderBook.denseBest OrderBook.findLowestOccupiedAsk
    cases found : book.asks.occupied.lowest with
    | none =>
      intro price present inside
      obtain ⟨slot, inside⟩ := Option.ne_none_iff_exists'.mp inside
      have := bit inside present
      rw [show (book.half .ask).occupied = book.asks.occupied from rfl,
        Bitset.lowest_none.mp found] at this
      contradiction
    | some i =>
      obtain ⟨set, smallest⟩ := Bitset.lowest_some found
      obtain ⟨top, present, inside, place, same⟩ := levelOfBit set
      simp only [Option.map_some, same]
      refine ⟨present, inside, fun price present inside => ?_⟩
      obtain ⟨slot, inside⟩ := Option.ne_none_iff_exists'.mp inside
      have above := smallest _ (bit inside present)
      have place' := OrderBook.denseIndex_some.mp inside
      simp only [OrderBook.better, decide_eq_false_iff_not, UInt64.lt_iff_toNat_lt]
      omega

end Represents

/-- The scan looks at the window first. -/
theorem scanBest_eq : book.scanBest side = (book.denseBest side).or (book.sparseBest side) := by
  cases side <;> rfl

/-- The scan finds a level with orders as long as there is one; none inside the window is
better when it is inside, and none at all when it is outside. -/
theorem Represents.scanBest_spec (rep : Represents book arena queues) (side : Side) :
    match book.scanBest side with
    | none => ∀ price, queues side price = []
    | some top => queues side top ≠ [] ∧
        (∀ price, queues side price ≠ [] → book.InWindow price →
          book.InWindow top ∧ OrderBook.better side price top = false) ∧
        (¬book.InWindow top → ∀ price, queues side price ≠ [] →
          OrderBook.better side price top = false) := by
  have dense := rep.denseBest_spec side
  have sparse := rep.sparseBest_spec side
  rw [scanBest_eq]
  cases inside : book.denseBest side with
  | some top =>
    rw [inside] at dense
    obtain ⟨present, window, least⟩ := dense
    exact ⟨present, fun price held within => ⟨window, least price held within⟩,
      fun outside => absurd window outside⟩
  | none =>
    rw [inside] at dense
    cases outside : book.sparseBest side with
    | none =>
      rw [outside] at sparse
      intro price
      by_contra held
      exact dense price held (sparse price held)
    | some top =>
      rw [outside] at sparse
      obtain ⟨present, -, least⟩ := sparse
      exact ⟨present, fun price held within => absurd within (dense price held),
        fun _ price held => least price held (dense price held)⟩

/-! ## Tracking -/

/-- The other levels keep their queues when an order is appended. -/
theorem Queues.append_ne_nil (present : queues side price ≠ []) :
    queues.append order index side price ≠ [] := by
  unfold append set
  split
  · simp
  · exact present

/-- Only a level that had orders has some after one is deleted. -/
theorem Queues.of_delete_ne_nil (present : queues.delete order index side price ≠ []) :
    queues side price ≠ [] := by
  unfold delete set at present
  split at present
  · rename_i same
    rw [same.1, same.2]
    rintro empty
    simp [empty] at present
  · exact present

/-- An insertion keeps the best prices those of levels with orders. -/
theorem Inserted.tracks (inserted : Inserted book arena queues order index book' arena')
    (tracks : Tracks book queues) : Tracks book' (queues.append order index) where
  empty side none price := by
    rw [inserted.best] at none
    split at none
    · contradiction
    · rename_i kept
      have apart : side ≠ order.side := fun same => kept ⟨same, by rw [none]; rfl⟩
      simp [Queues.append, Queues.set, apart, tracks.empty side none price]
  held side price best := by
    rw [inserted.best] at best
    split at best
    · rename_i improved
      obtain rfl := Option.some.inj best
      rw [improved.1]
      simp [Queues.append]
    · exact Queues.append_ne_nil (tracks.held side price best)

/-- A removal keeps the best prices those of levels with orders. -/
theorem Removed.tracks (removed : Removed book arena queues order index book' arena')
    (tracks : Tracks book queues) : Tracks book' (queues.delete order index) where
  empty side none price := by
    have best := removed.best side
    split at best
    · have scan := removed.represents.scanBest_spec side
      rw [← best, none] at scan
      exact scan price
    · by_contra present
      exact Queues.of_delete_ne_nil present (tracks.empty side (best ▸ none) price)
  held side price held := by
    have best := removed.best side
    split at best
    · have scan := removed.represents.scanBest_spec side
      rw [← best, held] at scan
      exact scan.1
    · rename_i kept
      rw [held] at best
      intro gone
      by_cases same : side = order.side ∧ price = order.price
      · obtain ⟨rfl, rfl⟩ := same
        exact kept ⟨rfl, best.symm, gone⟩
      · rw [Queues.delete, Queues.set_other same] at gone
        exact tracks.held side price best.symm gone

/-- Taking a quantity keeps the best prices those of levels with orders. -/
theorem Taken.tracks {delta : UInt64}
    (taken : Taken book arena queues order index delta book' arena')
    (tracks : Tracks book queues) : Tracks book' queues where
  empty side none := tracks.empty side (taken.best side ▸ none)
  held side price best := tracks.held side price (taken.best side ▸ best)

/-! ## Exactness -/

/-- An exact best price is that of a level with orders. -/
theorem BestExact.best (exact : BestExact book arena) (queued : Queued arena queues)
    {top : UInt64} (best : book.best side = some top) :
    queues side top ≠ [] ∧
      ∀ price, queues side price ≠ [] → OrderBook.better side price top = false := by
  have isBest := exact side
  rw [best] at isBest
  exact ⟨queued.rests_iff.mp isBest.1,
    fun price present => isBest.2 price (queued.rests_iff.mpr present)⟩

/-- Best prices that no level with orders improves on are exact. -/
theorem Tracks.bestExact (tracks : Tracks book queues) (queued : Queued arena queues)
    (least : ∀ side top, book.best side = some top → ∀ price, queues side price ≠ [] →
      OrderBook.better side price top = false) : BestExact book arena := by
  intro side
  cases best : book.best side with
  | none =>
    intro price rests
    exact queued.rests_iff.mp rests (tracks.empty side best price)
  | some top =>
    exact ⟨queued.rests_iff.mpr (tracks.held side top best),
      fun price rests => least side top best price (queued.rests_iff.mp rests)⟩

/-- Exact best prices are those of levels with orders. -/
theorem BestExact.tracks (exact : BestExact book arena) (queued : Queued arena queues) :
    Tracks book queues where
  empty side none price := by
    have isBest := exact side
    rw [none] at isBest
    by_contra present
    exact isBest price (queued.rests_iff.mpr present)
  held side price best := (exact.best queued best).1

/-- An insertion keeps exact best prices exact. -/
theorem Inserted.bestExact (inserted : Inserted book arena queues order index book' arena')
    (queued : Queued arena queues) (exact : BestExact book arena) : BestExact book' arena' := by
  refine (inserted.tracks (exact.tracks queued)).bestExact inserted.represents.toQueued ?_
  intro side top best price present
  have old : ¬(side = order.side ∧ price = order.price) → queues side price ≠ [] := fun apart => by
    rw [Queues.append, Queues.set_other apart] at present
    exact present
  rw [inserted.best] at best
  split at best
  · rename_i improved
    obtain ⟨rfl, improves⟩ := improved
    obtain rfl := Option.some.inj best
    by_cases same : price = order.price
    · rw [same]
      exact better_irrefl _ _
    · have present := old fun both => same both.2
      cases former : book.best order.side with
      | none =>
        exact absurd ((exact.tracks queued).empty _ former price) present
      | some last =>
        have least := (exact.best queued former).2 price present
        rw [former, Option.all_some] at improves
        exact better_asymm (better_of_not_better improves least)
  · rename_i kept
    by_cases same : side = order.side ∧ price = order.price
    · obtain ⟨rfl, rfl⟩ := same
      rw [best] at kept
      simpa using kept
    · exact (exact.best queued best).2 price (old same)

/-- Taking a quantity keeps exact best prices exact. -/
theorem Taken.bestExact {delta : UInt64}
    (taken : Taken book arena queues order index delta book' arena')
    (queued : Queued arena queues) (exact : BestExact book arena) : BestExact book' arena' := by
  refine (taken.tracks (exact.tracks queued)).bestExact taken.represents.toQueued ?_
  intro side top best
  rw [taken.best] at best
  exact (exact.best queued best).2

/-- A removal that hides no better price keeps exact best prices exact. -/
theorem Removed.bestExact (removed : Removed book arena queues order.unlinked index book' arena')
    (found : arena.find index = some order) (queued : Queued arena queues)
    (clear : ¬HidesBetter book arena index) (exact : BestExact book arena) :
    BestExact book' arena' := by
  refine (removed.tracks (exact.tracks queued)).bestExact removed.represents.toQueued ?_
  intro side top best price present
  have scanned := removed.best side
  split at scanned
  · rename_i emptied
    obtain ⟨rfl, former, gone⟩ := emptied
    have scan := removed.represents.scanBest_spec order.unlinked.side
    rw [← scanned, best] at scan
    obtain ⟨topPresent, within, beyond⟩ := scan
    have window : ∀ price, book'.InWindow price ↔ book.InWindow price := fun price => by
      rw [OrderBook.InWindow, OrderBook.InWindow, OrderBook.denseIndex_congr removed.base]
    by_contra improves
    rw [Bool.not_eq_false] at improves
    -- The scan stopped inside the window, and the better level is outside it.
    have inside : book'.InWindow top := by
      by_contra outside
      rw [beyond outside price present] at improves
      contradiction
    have outside : ¬book'.InWindow price := fun here => by
      rw [(within price present here).2] at improves
      contradiction
    refine clear ⟨order, found, former, ?_, ⟨top, (window top).mp inside, ?_⟩, price,
      fun here => outside ((window price).mpr here), ?_, fun other here rests => ?_⟩
    · rw [queued.restsBeside_iff found, not_not]
      exact gone
    · exact (queued.restsBeside_iff found).mpr topPresent
    · exact (queued.restsBeside_iff found).mpr present
    · have least := (within other ((queued.restsBeside_iff found).mp rests)
        ((window other).mpr here)).2
      exact better_of_not_better improves least
  · rw [scanned] at best
    exact (exact.best queued best).2 price (Queues.of_delete_ne_nil present)

/-- A removal that hides a better price leaves an inexact best price. -/
theorem Removed.not_bestExact
    (removed : Removed book arena queues order.unlinked index book' arena')
    (queued : Queued arena queues) (found : arena.find index = some order)
    (hides : HidesBetter book arena index) : ¬BestExact book' arena' := by
  obtain ⟨other, found', former, gone, ⟨inside, window, rests⟩, outside, beyond, rests',
    improves⟩ := hides
  rw [found] at found'
  obtain rfl := Option.some.inj found'
  have window' : ∀ price, book'.InWindow price ↔ book.InWindow price := fun price => by
    rw [OrderBook.InWindow, OrderBook.InWindow, OrderBook.denseIndex_congr removed.base]
  have emptied := removed.best order.side
  rw [queued.restsBeside_iff found, not_not] at gone
  rw [queued.restsBeside_iff found] at rests rests'
  rw [if_pos ⟨rfl, former, gone⟩] at emptied
  have scan := removed.represents.scanBest_spec order.side
  intro exact
  cases best : book'.best order.side with
  | none =>
    rw [← emptied, best] at scan
    exact rests (scan inside)
  | some top =>
    rw [← emptied, best] at scan
    obtain ⟨topPresent, within, -⟩ := scan
    have least := (exact.best removed.represents.toQueued best).2 outside rests'
    have topInside := (within inside rests ((window' inside).mpr window)).1
    have := improves top ((window' top).mp topInside)
      ((queued.restsBeside_iff found).mpr topPresent)
    rw [this] at least
    contradiction

end MatchX
