import Mathlib.Data.Finset.Basic
import MatchX.Book.Views
import MatchX.Support.Runs

/-!
# Histories of the occupancy bits

A book beside the slots that were marked as occupied and not cleared since, on each side. In every
history of marks the bits are exactly those slots, so that the scans for the best dense price find
the extreme one, whatever the number of slots is.
-/

namespace MatchX

open MatchX.Support

variable {ticks : UInt32}

/-- A call that changes the occupancy bits. -/
inductive MarkCall (ticks : UInt32) where
  /-- `set_occupied` -/
  | set (side : Side) (slot : Fin ticks.toNat)
  /-- `clear_occupied` -/
  | clear (side : Side) (slot : Fin ticks.toNat)

/-- A book with the slots that are marked on each side. -/
structure MarkedBook (ticks : UInt32) where
  /-- The book. -/
  book : OrderBook ticks
  /-- The numbers of the slots that are marked. -/
  marks : Side → Finset Nat

namespace MarkedBook

/-- No slot of a new book is marked. -/
def new (config : InstrumentConfig) : MarkedBook config.maxTicks :=
  ⟨OrderBook.new config, fun _ => ∅⟩

/-- Make a call of the book, and note the mark. -/
def apply (marked : MarkedBook ticks) : MarkCall ticks → Except Fault (MarkedBook ticks)
  | .set side slot => .ok ⟨marked.book.setOccupied side slot,
      Function.update marked.marks side (insert slot.val (marked.marks side))⟩
  | .clear side slot => .ok ⟨marked.book.clearOccupied side slot,
      Function.update marked.marks side ((marked.marks side).erase slot.val)⟩

/-- A book reached from a new one by marks that are set and cleared. -/
abbrev Run (config : InstrumentConfig) : MarkedBook config.maxTicks → Prop :=
  Reached (· = new config) apply fun _ _ => True

/-- The bits of a book are its marks, and its window starts where it did. -/
structure Inv (base : UInt64) (marked : MarkedBook ticks) : Prop where
  /-- A bit is set exactly for a mark. -/
  bits : ∀ side i, marked.book.isOccupied side i = true ↔ i ∈ marked.marks side
  /-- The window has not moved. -/
  base : marked.book.denseBasePrice = base

variable {base : UInt64} {marked : MarkedBook ticks}

/-- Setting a bit keeps the invariant. -/
theorem Inv.set (inv : marked.Inv base) (side : Side) (slot : Fin ticks.toNat) :
    Inv base ⟨marked.book.setOccupied side slot,
      Function.update marked.marks side (insert slot.val (marked.marks side))⟩ := by
  refine ⟨fun side' i => ?_, OrderBook.denseBasePrice_setOccupied.trans inv.base⟩
  have before := inv.bits side' i
  rw [OrderBook.isOccupied_setOccupied]
  by_cases same : side' = side
  · subst same
    simp [before]
  · simp [same, before]

/-- Clearing a bit keeps the invariant. -/
theorem Inv.clear (inv : marked.Inv base) (side : Side) (slot : Fin ticks.toNat) :
    Inv base ⟨marked.book.clearOccupied side slot,
      Function.update marked.marks side ((marked.marks side).erase slot.val)⟩ := by
  refine ⟨fun side' i => ?_, OrderBook.denseBasePrice_clearOccupied.trans inv.base⟩
  have before := inv.bits side' i
  rw [OrderBook.isOccupied_clearOccupied]
  by_cases same : side' = side
  · subst same
    simp [before]
  · simp [same, before]

/-- Every book reached meets the invariant. -/
theorem Run.inv {config : InstrumentConfig} {marked : MarkedBook config.maxTicks}
    (run : Run config marked) : marked.Inv config.basePrice := by
  refine Reached.invariant ?_ ?_ run
  · rintro _ rfl
    refine ⟨fun side i => ?_, rfl⟩
    have clear : (OrderBook.new config).isOccupied side i = false := by
      cases side <;> exact Bitset.test_empty i
    simp [new, clear]
  · intro marked call following inv _ completed
    cases call with
    | set side slot => exact Except.ok.inj completed ▸ inv.set side slot
    | clear side slot => exact Except.ok.inj completed ▸ inv.clear side slot

/-- The marked slots of a side are the indices of its bits. -/
theorem Inv.indices (inv : marked.Inv base) (side : Side) :
    {i | (marked.book.half side).occupied.test i = true} = (marked.marks side : Set Nat) :=
  Set.ext fun i => inv.bits side i

/-- No bit of a side is set exactly when no slot of it is marked. -/
theorem Inv.clear_iff (inv : marked.Inv base) (side : Side) :
    (∀ i, (marked.book.half side).occupied.test i = false) ↔ marked.marks side = ∅ := by
  rw [Finset.eq_empty_iff_forall_notMem]
  refine forall_congr' fun i => ?_
  rw [← inv.bits side i, Bool.not_eq_true]
  rfl

/-- The scans find the extreme marks, and a mark is of one slot and one side. -/
structure ScansExact (base : UInt64) (marked : MarkedBook ticks) : Prop where
  /-- The highest bid is at the largest slot marked for bids. -/
  highest : ∀ price, marked.book.findHighestOccupiedBid = some price ↔
    ∃ i, IsGreatest (marked.marks .bid : Set Nat) i ∧ price = base + UInt64.ofNat i
  /-- There is none exactly when no slot is marked for bids. -/
  noHighest : marked.book.findHighestOccupiedBid = none ↔ marked.marks .bid = ∅
  /-- The lowest ask is at the smallest slot marked for asks. -/
  lowest : ∀ price, marked.book.findLowestOccupiedAsk = some price ↔
    ∃ i, IsLeast (marked.marks .ask : Set Nat) i ∧ price = base + UInt64.ofNat i
  /-- There is none exactly when no slot is marked for asks. -/
  noLowest : marked.book.findLowestOccupiedAsk = none ↔ marked.marks .ask = ∅
  /-- The window starts at the first price of the instrument, and a bit is set for a mark. -/
  bits : marked.book.denseBasePrice = base ∧
    ∀ side i, marked.book.isOccupied side i = true ↔ i ∈ marked.marks side
  /-- Setting a bit sets it and leaves every other index and the other side as they are. -/
  set : ∀ side slot, (marked.book.setOccupied side slot).isOccupied side slot.val = true ∧
    (∀ i, i ≠ slot.val →
      (marked.book.setOccupied side slot).isOccupied side i = marked.book.isOccupied side i) ∧
    ∀ side', side' ≠ side →
      (marked.book.setOccupied side slot).half side' = marked.book.half side'
  /-- Clearing a bit clears it and leaves every other index and the other side as they are. -/
  clear : ∀ side slot, (marked.book.clearOccupied side slot).isOccupied side slot.val = false ∧
    (∀ i, i ≠ slot.val →
      (marked.book.clearOccupied side slot).isOccupied side i = marked.book.isOccupied side i) ∧
    ∀ side', side' ≠ side →
      (marked.book.clearOccupied side slot).half side' = marked.book.half side'

/-- In every history of marks, of a window of any size, the scans find the extreme marks. -/
theorem occupied_scans_exact {config : InstrumentConfig} {marked : MarkedBook config.maxTicks}
    (run : Run config marked) : marked.ScansExact config.basePrice := by
  have inv := run.inv
  have bidIndices := inv.indices .bid
  have askIndices := inv.indices .ask
  refine {
    highest := fun price => ?_
    noHighest := ?_
    lowest := fun price => ?_
    noLowest := ?_
    bits := ⟨inv.base, inv.bits⟩
    set := fun side slot => ⟨?_, fun i other => ?_, fun side' other => ?_⟩
    clear := fun side slot => ⟨?_, fun i other => ?_, fun side' other => ?_⟩ }
  · simp only [OrderBook.findHighestOccupiedBid, Option.map_eq_some_iff, Bitset.highest_iff]
    rw [← bidIndices, inv.base]
    exact exists_congr fun i => and_congr_right fun _ => eq_comm
  · rw [← inv.clear_iff, ← Bitset.highest_none]
    exact Option.map_eq_none_iff
  · simp only [OrderBook.findLowestOccupiedAsk, Option.map_eq_some_iff, Bitset.lowest_iff]
    rw [← askIndices, inv.base]
    exact exists_congr fun i => and_congr_right fun _ => eq_comm
  · rw [← inv.clear_iff, ← Bitset.lowest_none]
    exact Option.map_eq_none_iff
  · simp [OrderBook.isOccupied_setOccupied]
  · simp [OrderBook.isOccupied_setOccupied, other]
  · simp [OrderBook.setOccupied, other]
  · simp [OrderBook.isOccupied_clearOccupied]
  · simp [OrderBook.isOccupied_clearOccupied, other]
  · simp [OrderBook.clearOccupied, other]

/-- An instrument whose window has seventy ticks, so that the last word is partly used. -/
def wideConfig : InstrumentConfig := ⟨1, 1, 1, 100, 70, .cancelNewest⟩

/-- Bids at slots 3 and 69, the higher one cleared again, and asks at slots 64 and 66. -/
theorem occupied_scans_exact_of_two_words : ∃ marked, Run wideConfig marked ∧
    marked.ScansExact 100 ∧ (marked.book.findHighestOccupiedBid == some 103 &&
      marked.book.findLowestOccupiedAsk == some 164) = true := by
  obtain ⟨marked, run, shown⟩ : ∃ marked, Run wideConfig marked ∧
      (marked.book.findHighestOccupiedBid == some 103 &&
        marked.book.findLowestOccupiedAsk == some 164) = true :=
    Reached.exists_checkedRun (fun _ _ => true) _ (fun _ _ _ => trivial) rfl
      [.set .bid ⟨3, by decide⟩, .set .bid ⟨69, by decide⟩, .set .ask ⟨66, by decide⟩,
        .clear .bid ⟨69, by decide⟩, .set .ask ⟨64, by decide⟩] (by decide +kernel)
  exact ⟨marked, run, occupied_scans_exact run, shown⟩

end MarkedBook

end MatchX
