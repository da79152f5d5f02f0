import MatchX.Book.SortedPrices
import MatchX.Engine.Faults
import MatchX.Engine.FillTotals
import MatchX.Engine.Termination

/-!
# Sweeps of one level that return

A fill takes nothing from the depth indices, so a maker that is filled up has nothing left to take
from them when it is removed. Inside the window that succeeds. Outside it the price index must list
the price, and drops it at once when it holds nothing there: the next maker of the level that is
filled up is then removed from a price that is not listed. So a sweep of one level returns or fails
by the number of makers that it fills up and by what the price index holds before it.
-/

namespace MatchX

open MatchX.Support

/-- As many orders of a price as are counted, of which nothing remains, can be removed one after
the other: none is, or the price is inside the window, or the price index lists it, and holds
something there unless the first removal is the only one. -/
def OrderBook.CanRemoveFilled {ticks : UInt32} (book : OrderBook ticks) (side : Side)
    (price : UInt64) (count : Nat) : Prop :=
  (book.denseIndex price).isSome = true ∨ count = 0 ∨
    (price ∈ (book.depth side).2.prices ∧ ((book.depth side).2.qtyAt price ≠ 0 ∨ count = 1))

instance {ticks : UInt32} {book : OrderBook ticks} {side : Side} {price : UInt64} {count : Nat} :
    Decidable (book.CanRemoveFilled side price count) := by
  unfold OrderBook.CanRemoveFilled
  infer_instance

/-- How many of the makers, first to last, a quantity fills up. -/
def filledUp : UInt64 → List Order → Nat
  | _, [] => 0
  | qty, maker :: rest =>
    if maker.remaining ≤ qty then filledUp (qty - maker.remaining) rest + 1 else 0

/-- Filling the first maker in part changes nothing about how many are filled up. -/
theorem filledUp_part {qty part : UInt64} {maker : Order} {rest : List Order}
    (proper : maker.filled ≤ maker.quantity) (within : part ≤ qty) (less : part < maker.remaining) :
    filledUp (qty - part) (maker.fill part :: rest) = filledUp qty (maker :: rest) := by
  have bound := UInt64.le_of_lt less
  have left : (maker.fill part).remaining = maker.remaining - part :=
    (Order.fill_sound proper bound).2
  have fits : maker.remaining - part ≤ qty - part ↔ maker.remaining ≤ qty := by
    have most := UInt64.le_iff_toNat_le.mp within
    have most' := UInt64.le_iff_toNat_le.mp bound
    rw [UInt64.le_iff_toNat_le, UInt64.le_iff_toNat_le, UInt64.toNat_sub_of_le _ _ within,
      UInt64.toNat_sub_of_le _ _ bound]
    omega
  rw [filledUp, filledUp, left]
  by_cases whole : maker.remaining ≤ qty
  · have rests : qty - part - (maker.remaining - part) = qty - maker.remaining := by
      have fits' := fits.mpr whole
      have most := UInt64.le_iff_toNat_le.mp bound
      rw [← UInt64.toNat_inj, UInt64.toNat_sub_of_le _ _ fits', UInt64.toNat_sub_of_le _ _ within,
        UInt64.toNat_sub_of_le _ _ bound, UInt64.toNat_sub_of_le _ _ whole]
      omega
    rw [if_pos whole, if_pos (fits.mpr whole), rests]
  · rw [if_neg whole, if_neg (fun fewer => whole (fits.mp fewer))]

/-- No quantity fills up no live maker. -/
theorem filledUp_zero {makers : List Order} (live : ∀ maker ∈ makers, maker.remaining ≠ 0) :
    filledUp 0 makers = 0 := by
  cases makers with
  | nil => rfl
  | cons maker rest =>
    have some := live maker List.mem_cons_self
    rw [filledUp, if_neg (fun none => some (UInt64.le_zero_iff.mp none))]

namespace OrderBook.CanRemoveFilled

variable {ticks : UInt32} {book book' : OrderBook ticks} {side : Side} {price : UInt64}
  {count : Nat} {fault : Fault}

/-- It is a matter of the window and the depth indices. -/
theorem congr (base : book'.denseBasePrice = book.denseBasePrice)
    (depth : book'.depth side = book.depth side) :
    book'.CanRemoveFilled side price count ↔ book.CanRemoveFilled side price count := by
  rw [CanRemoveFilled, CanRemoveFilled, OrderBook.denseIndex_congr base, depth]

/-- Once a filled order is removed, one removal less is to come. -/
theorem removed {lowered : OrderBook ticks} (sorted : book.SortedPrices)
    (base : book'.denseBasePrice = book.denseBasePrice)
    (taken : book.depthRemove side price 0 = .ok lowered)
    (depth : book'.depth side = lowered.depth side) :
    book'.CanRemoveFilled side price count ↔ book.CanRemoveFilled side price (count + 1) := by
  unfold CanRemoveFilled
  rw [OrderBook.denseIndex_congr base]
  cases window : book.denseIndex price with
  | some slot => simp
  | none =>
    obtain ⟨sparse, lowers, depth'⟩ := OrderBook.depth_depthRemove_none window taken
    rw [depth, depth']
    obtain ⟨listed, ⟨nothing, dropped⟩ | ⟨some, kept, some'⟩⟩ := (sorted side).sub_zero lowers
    · simp [listed, nothing, dropped]
    · simp [listed, some, kept, some']

/-- Where taking nothing fails, no filled order can be removed. -/
theorem fails (sorted : book.SortedPrices) (outside : book.denseIndex price = none)
    (failed : (book.depth side).2.sub price 0 = .error fault) :
    ¬book.CanRemoveFilled side price (count + 1) := by
  have unlisted := (sorted side).unlisted failed
  simp [CanRemoveFilled, outside, unlisted]

end OrderBook.CanRemoveFilled

namespace MatchingEngine

variable {config : InstrumentConfig} {engine engine' : MatchingEngine config} {queues : Queues}
  {taker : Taker} {price qty : UInt64} {sweep following : Sweep config}
  {flow : Flow (Sweep config) (SweepResult config)} {order : NewOrder} {command : Command}
  {fault : Fault}

/-! ## Sorted prices over runs -/

/-- The book agrees with queues, and its price indices are sorted. -/
structure WellFormed (engine : MatchingEngine config) (queues : Queues) : Prop where
  /-- The book agrees with the queues. -/
  sound : engine.Sound queues
  /-- The prices of the price indices ascend. -/
  sorted : engine.book.SortedPrices

/-- An iteration keeps the prices sorted. -/
theorem Iteration.sortedPrices (iteration : Iteration taker queues sweep flow)
    (sorted : sweep.engine.book.SortedPrices) : (flowEngine flow).book.SortedPrices := by
  cases iteration with
  | exhausted | unmatched | newest => exact sorted
  | stale _ _ _ removed => exact removed.sortedPrices sorted
  | oldest _ _ _ _ _ removed => exact removed.sortedPrices sorted
  | both _ _ _ _ _ removed => exact removed.sortedPrices sorted
  | decrementAll _ _ _ _ _ _ removed => exact removed.sortedPrices sorted
  | decrementPart _ _ _ _ _ _ depth =>
    obtain ⟨lowered, returned, same⟩ := depth
    exact (sorted.depthRemove returned).congr same
  | fillPart _ _ _ _ _ depth => exact sorted.congr depth
  | fillAll _ _ _ _ _ _ depth removed => exact removed.sortedPrices (sorted.congr depth)

/-- Every part of a call keeps the prices sorted. -/
theorem keepsSortedPrices (engine : MatchingEngine config) (command : Command) :
    KeepsBook engine command fun book _ => book.SortedPrices where
  removes _ _ _ _ removed sorted := removed.sortedPrices sorted
  iterates _ _ iteration sorted := iteration.sortedPrices sorted
  rests _ _ rested sorted := by
    cases rested with
    | refused => exact sorted
    | inserted _ inserted => exact inserted.sortedPrices sorted

/-- Every engine reached by completed calls is well formed. -/
theorem Reachable.wellFormed (reachable : Reachable engine) : ∃ queues, engine.WellFormed queues := by
  obtain ⟨⟨queues, sound⟩, sorted⟩ : (∃ queues, engine.Sound queues) ∧ engine.book.SortedPrices :=
    KeepsBook.reaches (fun engine command _ => keepsSortedPrices engine command)
      (fun _ side => by cases side <;> exact List.Pairwise.nil) reachable
  exact ⟨queues, sound, sorted⟩

/-! ## Sweeps of one level -/

/-- A sweep whose makers are live, outside the taker's group and at one price. -/
structure SweepsLevel (taker : Taker) (price : UInt64) (sweep : Sweep config) : Prop where
  /-- The engine is well formed. -/
  wellFormed : ∃ queues, sweep.engine.WellFormed queues
  /-- The makers ahead are live and outside the taker's group. -/
  walkable : Walkable taker (makersFor taker sweep.engine)
  /-- They rest at the price. -/
  priced : ∀ maker ∈ makersFor taker sweep.engine, maker.price = price

/-- The makers that the sweep fills up from a state on can be removed. -/
def CanGoOn (taker : Taker) (price : UInt64) (sweep : Sweep config) : Prop :=
  sweep.engine.book.CanRemoveFilled taker.side.opposite price
    (filledUp sweep.remaining (makersFor taker sweep.engine))

/-- The maker in front of such a sweep rests at the price, and is live and outside the taker's
group. -/
theorem SweepsLevel.front {price' : UInt64} {index : ArenaIndex} {maker : Order}
    (level : SweepsLevel taker price sweep) (sound : sweep.engine.Sound queues)
    (front : Front taker sweep.engine queues price' index maker) :
    price' = price ∧ maker.remaining ≠ 0 ∧ sameGroup taker maker = false := by
  obtain ⟨rest, ahead⟩ := front.makersFor sound.rep
  have first : maker.unlinked ∈ makersFor taker sweep.engine := ahead ▸ List.mem_cons_self
  have atPrice : maker.price = price := level.priced maker.unlinked first
  exact ⟨front.atPrice.symm.trans atPrice, level.walkable.live maker.unlinked first,
    level.walkable.apart maker.unlinked first⟩

/-- An iteration after which such a sweep goes on leaves such a sweep, which can go on exactly when
the sweep could before. -/
theorem SweepsLevel.step (level : SweepsLevel taker price sweep)
    (step : matchStep taker sweep = .ok (.next following)) :
    SweepsLevel taker price following ∧
      (CanGoOn taker price following ↔ CanGoOn taker price sweep) := by
  obtain ⟨queues, sound, sorted⟩ := level.wellFormed
  have iteration := matchStep_cases sound step
  obtain ⟨⟨queues', sound'⟩, walkable⟩ := walks_on ⟨⟨queues, sound⟩, level.walkable⟩ step
  have sorted' : following.engine.book.SortedPrices := iteration.sortedPrices sorted
  have proper := level.walkable.sound
  unfold CanGoOn
  cases iteration with
  | stale _ front spent => exact absurd spent (level.front sound front).2.1
  | oldest _ front _ group =>
    rw [(level.front sound front).2.2] at group
    contradiction
  | @fillPart _ index maker book arena left front apart part taken depth =>
    obtain ⟨rest, ahead, ahead'⟩ := front.lowered sound.rep taken
    have priced := level.priced
    rw [ahead] at priced proper
    refine ⟨⟨⟨queues', sound', sorted'⟩, walkable, ?_⟩, ?_⟩
    · intro other member
      change other ∈ makersFor taker (sweep.engine.withBook book arena) at member
      rw [ahead'] at member
      obtain rfl | behind := List.mem_cons.mp member
      · exact priced maker.unlinked List.mem_cons_self
      · exact priced other (List.mem_cons_of_mem _ behind)
    · have same : filledUp (sweep.remaining - min sweep.remaining maker.matchableQty)
          (makersFor taker (sweep.engine.withBook book arena)) =
            filledUp sweep.remaining (makersFor taker sweep.engine) := by
        rw [ahead', ahead]
        exact filledUp_part (proper _ List.mem_cons_self) Std.min_le_left part
      change book.CanRemoveFilled _ _ (filledUp (sweep.remaining - min sweep.remaining
        maker.matchableQty) (makersFor taker (sweep.engine.withBook book arena))) ↔ _
      rw [same]
      exact OrderBook.CanRemoveFilled.congr taken.base (depth _)
  | @fillAll _ index maker book arena book' arena' left front live apart whole taken depth
      removed =>
    have ahead := front.finished sound.rep taken removed
    have priced := level.priced
    rw [ahead] at priced
    refine ⟨⟨⟨queues', sound', sorted'⟩, walkable, ?_⟩, ?_⟩
    · intro other member
      exact priced other (List.mem_cons_of_mem _ member)
    · have within : maker.remaining ≤ sweep.remaining := whole ▸ Std.min_le_left
      have fewer : filledUp sweep.remaining (makersFor taker sweep.engine) =
          filledUp (sweep.remaining - maker.remaining)
            (makersFor taker (sweep.engine.withBook book' arena')) + 1 := by
        rw [ahead, filledUp]
        exact if_pos within
      have nothing : (maker.fill maker.remaining).remaining = 0 := by
        rw [(Order.fill_sound (front.sound sound.rep) (UInt64.le_refl maker.remaining)).2,
          UInt64.sub_self]
      obtain ⟨lowered, returned, lowers⟩ := removed.depth
      simp only [Order.unlinked_side, Order.unlinked_price, Order.unlinked_remaining,
        Order.fill_side, Order.fill_price, nothing, front.onSide, front.atPrice,
        (level.front sound front).1] at returned
      have removes := @OrderBook.CanRemoveFilled.removed _ book book' taker.side.opposite price
        (filledUp (sweep.remaining - maker.remaining)
          (makersFor taker (sweep.engine.withBook book' arena'))) lowered
        (sorted.congr depth) removed.base returned (lowers _)
      rw [fewer]
      exact removes.trans (OrderBook.CanRemoveFilled.congr taken.base (depth _))

/-- Such a sweep is left where it can go on: it fills up no further maker. -/
theorem SweepsLevel.left {result : SweepResult config} (level : SweepsLevel taker price sweep)
    (step : matchStep taker sweep = .ok (.done result)) : CanGoOn taker price sweep := by
  obtain ⟨queues, sound, -⟩ := level.wellFormed
  have group {price' index maker} (front : Front taker sweep.engine queues price' index maker) :
      sameGroup taker maker = false := (level.front sound front).2.2
  refine .inr (.inl ?_)
  cases matchStep_cases sound step with
  | exhausted nothing =>
    rw [nothing]
    exact filledUp_zero level.walkable.live
  | unmatched _ refused =>
    rw [makersFor_nil refused]
    rfl
  | newest _ front _ same => simp [group front] at same
  | both _ front _ same => simp [group front] at same
  | decrementAll _ front _ same => simp [group front] at same
  | decrementPart _ front same => simp [group front] at same

/-- An iteration of such a sweep fails only where the sweep cannot go on. -/
theorem SweepsLevel.fails (level : SweepsLevel taker price sweep)
    (failed : matchStep taker sweep = .error fault) : ¬CanGoOn taker price sweep := by
  obtain ⟨queues, sound, sorted⟩ := level.wellFormed
  obtain ⟨price', index, maker, front, whole, outside, fails⟩ :=
    matchStep_error sound (fun _ _ _ front => (level.front sound front).2.2) failed
  obtain ⟨rfl, -, -⟩ := level.front sound front
  obtain ⟨rest, ahead⟩ := front.makersFor sound.rep
  have within : maker.unlinked.remaining ≤ sweep.remaining :=
    show maker.remaining ≤ sweep.remaining from whole ▸ Std.min_le_left
  rw [CanGoOn, ahead, filledUp, if_pos within]
  exact OrderBook.CanRemoveFilled.fails sorted outside fails

end MatchingEngine

end MatchX
