import Mathlib.Data.List.Dedup
import Mathlib.Data.List.Sort
import Mathlib.Data.List.TakeWhile
import MatchX.Book.BestPrice
import MatchX.Book.Fifo

/-!
# The order in which a sweep meets the makers

A sweep takes the makers of a side level by level: first those of the cached best price, then
those of the levels as the scan finds them, with the levels inside the window before every level
outside it. `slotsAhead` lists the slots of the makers in that order, up to the first price that
the taker does not accept. Removing the first of them leaves the others, and taking a quantity
from an order leaves all of them.
-/

namespace MatchX

open MatchX.Support

variable {ticks : UInt32} {book book' : OrderBook ticks} {arena arena' : Arena} {queues : Queues}
  {order : Order} {index : ArenaIndex} {side : Side} {price first second third : UInt64}
  {within : UInt64 → Bool}

namespace OrderBook

/-- Whether the scan of a side finds a level at the first price before one at the second. -/
def sooner (book : OrderBook ticks) (side : Side) (first second : UInt64) : Bool :=
  match (book.denseIndex first).isSome, (book.denseIndex second).isSome with
  | true, false => true
  | false, true => false
  | _, _ => better side first second

/-- A level at the first price may be found before one at the second. -/
def Foregoes (book : OrderBook ticks) (side : Side) (first second : UInt64) : Prop :=
  book.sooner side second first = false

instance (book : OrderBook ticks) (side : Side) : DecidableRel (book.Foregoes side) :=
  fun first second => by
    unfold Foregoes
    infer_instance

/-- Of two prices that are not better than each other neither is another one. -/
theorem eq_of_not_better (first second : UInt64) (least : better side first second = false)
    (least' : better side second first = false) : first = second := by
  revert least least'
  cases side <;> simp only [better, decide_eq_false_iff_not, UInt64.not_lt]
  · exact fun below above => UInt64.le_antisymm below above
  · exact fun above below => UInt64.le_antisymm below above

/-- Of any two levels one may be found before the other. -/
instance (book : OrderBook ticks) (side : Side) : Std.Total (book.Foregoes side) where
  total first second := by
    unfold Foregoes sooner
    cases (book.denseIndex first).isSome <;> cases (book.denseIndex second).isSome <;>
      cases side <;> simp [better, UInt64.le_total]

/-- Being found before is transitive. -/
instance (book : OrderBook ticks) (side : Side) : IsTrans UInt64 (book.Foregoes side) where
  trans first second third := by
    unfold Foregoes sooner
    cases (book.denseIndex first).isSome <;> cases (book.denseIndex second).isSome <;>
      cases (book.denseIndex third).isSome <;> cases side <;>
      simp only [better, decide_eq_false_iff_not, UInt64.not_lt] <;> grind

/-- Two levels that may be found before each other are one. -/
theorem Foregoes.antisymm (ahead : book.Foregoes side first second)
    (behind : book.Foregoes side second first) : first = second := by
  unfold Foregoes sooner at ahead behind
  cases inside : (book.denseIndex first).isSome <;>
    cases inside' : (book.denseIndex second).isSome <;> simp only [inside, inside'] at ahead behind
  · exact eq_of_not_better first second behind ahead
  · contradiction
  · contradiction
  · exact eq_of_not_better first second behind ahead

/-- The prices at which orders of a side rest, in the order in which the scan finds them. -/
def restingPrices (book : OrderBook ticks) (arena : Arena) (side : Side) : List UInt64 :=
  ((arena.orders.filter fun order => order.side = side).map Order.price).dedup.insertionSort
    (book.Foregoes side)

/-- The prices of the levels of a side, in the order in which a sweep visits them. -/
def visitOrder (book : OrderBook ticks) (arena : Arena) (side : Side) : List UInt64 :=
  match book.best side with
  | none => []
  | some top => top :: (book.restingPrices arena side).erase top

/-- The slots of the orders of a level, first to last. -/
def queueAt (book : OrderBook ticks) (arena : Arena) (side : Side) (price : UInt64) :
    List ArenaIndex :=
  let level := book.level side price
  walk orderLinks arena.find arenaNull level.orderCount.toNat (level.head.getD arenaNull)

/-- The slots of the makers of a side that a sweep meets as long as prices pass a test, in order. -/
def slotsAhead (book : OrderBook ticks) (arena : Arena) (side : Side) (within : UInt64 → Bool) :
    List ArenaIndex :=
  ((book.visitOrder arena side).takeWhile within).flatMap (book.queueAt arena side)

/-- The makers that a sweep meets, in order, without links. -/
def makersAhead (book : OrderBook ticks) (arena : Arena) (side : Side) (within : UInt64 → Bool) :
    List Order :=
  (book.slotsAhead arena side within).filterMap arena.resting

end OrderBook

/-! ## The prices of a side -/

/-- The resting prices of a side are those of its orders. -/
theorem mem_restingPrices (slots : arena.Inv) :
    price ∈ book.restingPrices arena side ↔ Rests arena side price := by
  rw [OrderBook.restingPrices, List.mem_insertionSort, List.mem_dedup, List.mem_map]
  constructor
  · rintro ⟨order, listed, rfl⟩
    obtain ⟨i, found⟩ := Arena.exists_find slots (List.mem_filter.mp listed).1
    exact ⟨i, order, found, of_decide_eq_true (List.mem_filter.mp listed).2, rfl⟩
  · rintro ⟨i, order, found, rfl, rfl⟩
    exact ⟨order, List.mem_filter.mpr ⟨Arena.mem_orders_of_find found, by simp⟩, rfl⟩

/-- Prices without duplicates that are sorted and at which the orders of a side rest are the
resting prices. -/
theorem restingPrices_eq {prices : List UInt64} (slots : arena.Inv)
    (sorted : prices.Pairwise (book.Foregoes side))
    (nodup : prices.Nodup) (members : ∀ price, price ∈ prices ↔ Rests arena side price) :
    book.restingPrices arena side = prices := by
  have sorted' : (book.restingPrices arena side).Pairwise (book.Foregoes side) :=
    List.pairwise_insertionSort _ _
  have nodup' : (book.restingPrices arena side).Nodup :=
    (List.perm_insertionSort _ _).nodup_iff.mpr (List.nodup_dedup _)
  refine List.Perm.eq_of_pairwise (fun _ _ _ _ => OrderBook.Foregoes.antisymm) sorted' sorted ?_
  exact (List.perm_ext_iff_of_nodup nodup' nodup).mpr fun price =>
    (mem_restingPrices slots).trans (members price).symm

/-- The resting prices are sorted. -/
theorem restingPrices_sorted :
    (book.restingPrices arena side).Pairwise (book.Foregoes side) :=
  List.pairwise_insertionSort _ _

/-- No resting price is listed twice. -/
theorem restingPrices_nodup : (book.restingPrices arena side).Nodup :=
  (List.perm_insertionSort _ _).nodup_iff.mpr (List.nodup_dedup _)

/-- The scan of a side finds the first of its prices. -/
theorem Represents.scanBest_head (rep : Represents book arena queues) :
    book.scanBest side = (book.restingPrices arena side).head? := by
  have scan := rep.scanBest_spec side
  have member : ∀ price, price ∈ book.restingPrices arena side ↔ queues side price ≠ [] :=
    fun price => (mem_restingPrices rep.slots).trans rep.rests_iff
  cases found : book.scanBest side with
  | none =>
    rw [found] at scan
    have none : book.restingPrices arena side = [] :=
      List.eq_nil_iff_forall_not_mem.mpr fun price listed => (member price).mp listed (scan price)
    rw [none]
    rfl
  | some top =>
    rw [found] at scan
    obtain ⟨present, inside, outside⟩ := scan
    cases prices : book.restingPrices arena side with
    | nil =>
      have listed := (member top).mpr present
      rw [prices] at listed
      contradiction
    | cons first rest =>
      have sorted : (first :: rest).Pairwise (book.Foregoes side) := prices ▸ restingPrices_sorted
      have listed := (member top).mpr present
      have least : book.Foregoes side top first := by
        have held := (member first).mp (prices ▸ List.mem_cons_self)
        unfold OrderBook.Foregoes OrderBook.sooner
        cases window : book.denseIndex first with
        | some slot =>
          obtain ⟨within, least⟩ := inside first held (by simp [OrderBook.InWindow, window])
          obtain ⟨slot', window'⟩ := Option.ne_none_iff_exists'.mp within
          simp [window', least]
        | none =>
          cases window' : book.denseIndex top with
          | some slot' => simp
          | none =>
            simpa using outside (by simp [OrderBook.InWindow, window']) first held
      rw [prices] at listed
      rcases List.mem_cons.mp listed with rfl | behind
      · rfl
      · have ahead := (List.pairwise_cons.mp sorted).1 top behind
        rw [ahead.antisymm least]
        rfl

/-! ## The slots ahead -/

namespace Represents

variable (rep : Represents book arena queues)
include rep

/-- The queue that the links of a level stand for is that of the level. -/
theorem queueAt_eq : book.queueAt arena side price = queues side price := by
  have short : (queues side price).length < UInt32.size := rep.length_lt
  have proper : arenaNull ∉ queues side price := fun member => by
    obtain ⟨order, rests, -⟩ := rep.stored member
    obtain ⟨stored, found, -⟩ := Arena.find_of_resting rests
    exact Arena.find_ne_null rep.slots found rfl
  have walked := walk_linked (rep.linked side price) proper
  unfold OrderBook.queueAt
  rw [rep.levels side price]
  simp only [levelOf, UInt32.toNat_ofNat_of_lt' short]
  rwa [List.headD_eq_head?_getD] at walked

/-- The slots ahead, by the queues. -/
theorem slotsAhead_eq : book.slotsAhead arena side within =
    ((book.visitOrder arena side).takeWhile within).flatMap (queues side) :=
  List.flatMap_congr fun _ _ => rep.queueAt_eq

/-- The slots ahead hold orders of the side. -/
theorem stored_of_ahead (ahead : index ∈ book.slotsAhead arena side within) :
    ∃ order, arena.resting index = some order ∧ order.side = side ∧ within order.price = true := by
  rw [rep.slotsAhead_eq] at ahead
  obtain ⟨price, visited, queued⟩ := List.mem_flatMap.mp ahead
  obtain ⟨order, rests, onSide, rfl⟩ := rep.stored queued
  exact ⟨order, rests, onSide, List.mem_takeWhile_imp visited⟩

/-- No slot is listed twice. -/
theorem slotsAhead_nodup (side : Side) (within : UInt64 → Bool) :
    (book.slotsAhead arena side within).Nodup := by
  rw [rep.slotsAhead_eq, List.nodup_flatMap]
  have visits : (book.visitOrder arena side).Nodup := by
    unfold OrderBook.visitOrder
    split
    · exact .nil
    · exact List.nodup_cons.mpr ⟨restingPrices_nodup.not_mem_erase, restingPrices_nodup.erase _⟩
  refine ⟨fun price _ => rep.nodup side price, ?_⟩
  refine (visits.sublist (List.takeWhile_sublist _)).imp fun apart => ?_
  exact fun i member member' => apart (rep.same_queue member member').2.symm

/-- The first order of a best level that passes the test is the first maker ahead. -/
theorem slotsAhead_cons (within : UInt64 → Bool) (best : book.best side = some price)
    (first : (queues side price).head? = some index) (passes : within price = true) :
    ∃ rest, book.slotsAhead arena side within = index :: rest := by
  obtain ⟨behind, queue⟩ : ∃ behind, queues side price = index :: behind :=
    ⟨_, List.eq_cons_of_mem_head? first⟩
  rw [rep.slotsAhead_eq, OrderBook.visitOrder, best]
  simp only [List.takeWhile_cons_of_pos passes, List.flatMap_cons, queue, List.cons_append]
  exact ⟨_, rfl⟩

end Represents

/-- The order of the scan depends on the window only. -/
theorem foregoes_congr (side : Side) (base : book'.denseBasePrice = book.denseBasePrice) :
    book'.Foregoes side = book.Foregoes side := by
  funext first second
  simp only [OrderBook.Foregoes, OrderBook.sooner, OrderBook.denseIndex_congr base]

/-- A best price that the scan found is visited like the other prices. -/
theorem visitOrder_of_scanned
    (best : book.best side = (book.restingPrices arena side).head?) :
    book.visitOrder arena side = book.restingPrices arena side := by
  unfold OrderBook.visitOrder
  rw [best]
  cases book.restingPrices arena side with
  | nil => rfl
  | cons top rest => simp

/-- No slot is ahead when the best price does not pass the test. -/
theorem slotsAhead_nil (refused : ∀ price, book.best side = some price → within price = false) :
    book.slotsAhead arena side within = [] := by
  unfold OrderBook.slotsAhead OrderBook.visitOrder
  cases best : book.best side with
  | none => rfl
  | some top => simp [refused top best]

/-- Removing the first order of the best level leaves the slots behind it. -/
theorem Removed.slotsAhead (removed : Removed book arena queues order index book' arena')
    (rep : Represents book arena queues) (best : book.best order.side = some order.price)
    (first : (queues order.side order.price).head? = some index)
    (passes : within order.price = true) :
    book.slotsAhead arena order.side within =
      index :: book'.slotsAhead arena' order.side within := by
  have rep' := removed.represents
  obtain ⟨rest, queue⟩ : ∃ rest, queues order.side order.price = index :: rest :=
    ⟨_, List.eq_cons_of_mem_head? first⟩
  have here : queues.delete order index order.side order.price = rest := by
    simp [Queues.delete, queue]
  have there : ∀ price, price ≠ order.price →
      queues.delete order index order.side price = queues order.side price := fun price apart =>
    Queues.set_other fun same => apart same.2
  have behind : ∀ prices : List UInt64, order.price ∉ prices →
      prices.flatMap (queues order.side) =
        prices.flatMap (queues.delete order index order.side) := fun prices absent =>
    List.flatMap_congr fun price listed => (there price fun same => absent (same ▸ listed)).symm
  have former : book.visitOrder arena order.side =
      order.price :: (book.restingPrices arena order.side).erase order.price := by
    rw [OrderBook.visitOrder, best]
  have absent : order.price ∉ ((book.restingPrices arena order.side).erase order.price).takeWhile
      within := fun member =>
    restingPrices_nodup.not_mem_erase (List.takeWhile_subset _ member)
  have ordered := foregoes_congr order.side removed.base
  have scanned := removed.best order.side
  rw [rep.slotsAhead_eq, rep'.slotsAhead_eq, former, List.takeWhile_cons_of_pos passes,
    List.flatMap_cons, queue, behind _ absent, List.cons_append]
  refine congrArg (index :: ·) ?_
  by_cases emptied : rest = []
  · -- The level is left without orders, and the scan finds the next one.
    rw [if_pos ⟨rfl, best, here.trans emptied⟩, rep'.scanBest_head] at scanned
    have left : book'.restingPrices arena' order.side =
        (book.restingPrices arena order.side).erase order.price := by
      refine restingPrices_eq rep'.slots ?_ (restingPrices_nodup.erase _) fun price => ?_
      · rw [ordered]
        exact restingPrices_sorted.sublist List.erase_sublist
      · rw [restingPrices_nodup.mem_erase_iff, mem_restingPrices rep.slots, rep.rests_iff,
          rep'.rests_iff]
        by_cases same : price = order.price
        · simp [same, here, emptied]
        · simp [same, there price same]
    rw [visitOrder_of_scanned scanned, left, emptied, List.nil_append]
  · rw [if_neg fun found => emptied (here.symm.trans found.2.2), best] at scanned
    have left : book'.restingPrices arena' order.side = book.restingPrices arena order.side := by
      refine restingPrices_eq rep'.slots ?_ restingPrices_nodup fun price => ?_
      · rw [ordered]
        exact restingPrices_sorted
      · rw [mem_restingPrices rep.slots, rep.rests_iff, rep'.rests_iff]
        by_cases same : price = order.price
        · simp [same, here, emptied, queue]
        · simp [there price same]
    have latter : book'.visitOrder arena' order.side =
        order.price :: (book.restingPrices arena order.side).erase order.price := by
      rw [OrderBook.visitOrder, scanned, left]
    rw [latter, List.takeWhile_cons_of_pos passes, List.flatMap_cons, here]

/-- Taking a quantity leaves the slots ahead as they were. -/
theorem Taken.slotsAhead {delta : UInt64}
    (taken : Taken book arena queues order index delta book' arena')
    (rep : Represents book arena queues) :
    book'.slotsAhead arena' side within = book.slotsAhead arena side within := by
  have rep' := taken.represents
  have ordered := foregoes_congr side taken.base
  have left : book'.restingPrices arena' side = book.restingPrices arena side := by
    refine restingPrices_eq rep'.slots ?_ restingPrices_nodup fun price => ?_
    · rw [ordered]
      exact restingPrices_sorted
    · rw [mem_restingPrices rep.slots, rep.rests_iff, rep'.rests_iff]
  rw [rep.slotsAhead_eq, rep'.slotsAhead_eq, OrderBook.visitOrder, OrderBook.visitOrder,
    taken.best, left]

/-! ## The makers ahead -/

/-- No maker is ahead when the best price does not pass the test. -/
theorem makersAhead_nil (refused : ∀ price, book.best side = some price → within price = false) :
    book.makersAhead arena side within = [] := by
  rw [OrderBook.makersAhead, slotsAhead_nil refused]
  rfl

/-- The makers ahead once the first one is removed. -/
theorem Removed.makersAhead (removed : Removed book arena queues order index book' arena')
    (rep : Represents book arena queues) (within : UInt64 → Bool)
    (best : book.best order.side = some order.price)
    (first : (queues order.side order.price).head? = some index)
    (passes : within order.price = true) :
    book.makersAhead arena order.side within =
      order :: book'.makersAhead arena' order.side within := by
  have ahead := removed.slotsAhead rep best first passes
  have nodup := rep.slotsAhead_nodup order.side within
  rw [ahead] at nodup
  rw [OrderBook.makersAhead, ahead, List.filterMap_cons_some removed.found, OrderBook.makersAhead]
  refine congrArg (order :: ·) (filterMap_resting_congr fun i member => ?_)
  rw [removed.resting, if_neg]
  rintro rfl
  exact (List.nodup_cons.mp nodup).1 member

/-- The makers ahead once a quantity is taken from the first one. -/
theorem Taken.makersAhead {delta : UInt64}
    (taken : Taken book arena queues order index delta book' arena')
    (rep : Represents book arena queues) (within : UInt64 → Bool)
    (best : book.best order.side = some order.price)
    (first : (queues order.side order.price).head? = some index)
    (passes : within order.price = true) :
    ∃ rest, book.makersAhead arena order.side within = order :: rest ∧
      book'.makersAhead arena' order.side within = order.fill delta :: rest := by
  obtain ⟨slots, ahead⟩ := rep.slotsAhead_cons within best first passes
  have nodup := rep.slotsAhead_nodup order.side within
  rw [ahead] at nodup
  refine ⟨slots.filterMap arena.resting, ?_, ?_⟩
  · rw [OrderBook.makersAhead, ahead, List.filterMap_cons_some taken.found]
  · have found : arena'.resting index = some (order.fill delta) := by
      rw [taken.resting, if_pos rfl]
    rw [OrderBook.makersAhead, taken.slotsAhead rep, ahead, List.filterMap_cons_some found]
    refine congrArg (order.fill delta :: ·) (filterMap_resting_congr fun i member => ?_)
    rw [taken.resting, if_neg]
    rintro rfl
    exact (List.nodup_cons.mp nodup).1 member

/-- Removing an order of the other side leaves the makers ahead. -/
theorem Removed.makersAhead_other (removed : Removed book arena queues order index book' arena')
    (rep : Represents book arena queues) (apart : side ≠ order.side) :
    book'.makersAhead arena' side within = book.makersAhead arena side within := by
  have rep' := removed.represents
  have same : ∀ price, queues.delete order index side price = queues side price := fun price =>
    Queues.set_other fun both => apart both.1
  have best : book'.best side = book.best side := by
    rw [removed.best, if_neg fun both => apart both.1]
  have prices : book'.restingPrices arena' side = book.restingPrices arena side := by
    refine restingPrices_eq rep'.slots ?_ restingPrices_nodup fun price => ?_
    · rw [foregoes_congr side removed.base]
      exact restingPrices_sorted
    · rw [mem_restingPrices rep.slots, rep.rests_iff, rep'.rests_iff, same]
  have slots : book'.slotsAhead arena' side within = book.slotsAhead arena side within := by
    rw [rep.slotsAhead_eq, rep'.slotsAhead_eq, OrderBook.visitOrder, OrderBook.visitOrder, best,
      prices]
    exact List.flatMap_congr fun price _ => same price
  rw [OrderBook.makersAhead, OrderBook.makersAhead, slots]
  refine filterMap_resting_congr fun i member => ?_
  rw [removed.resting, if_neg]
  rintro rfl
  obtain ⟨stored, rests, onSide, -⟩ := rep.stored_of_ahead member
  rw [removed.found] at rests
  obtain rfl := Option.some.inj rests
  exact apart onSide.symm

end MatchX
