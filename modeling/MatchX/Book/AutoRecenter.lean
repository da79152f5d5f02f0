import MatchX.Book.BestPriceRuns

/-!
# Automatic recentering

`maybe_recenter` moves the window when the best prices have drifted towards its end or its
start, and centers it at the best bid, or at the best ask without bids. It does so without an
overflow as long as a window around that price ends within the prices; near the last price the
window end overflows.
-/

namespace MatchX

open MatchX.Support

variable {ticks : UInt32} {book : OrderBook ticks}

namespace OrderBook

/-- 70 percent of the window. -/
def recenterThreshold (ticks : UInt32) : UInt64 := ticks.toUInt64 * 7 / 10

/-- `needs_recenter` of `maybe_recenter`. -/
def needsRecenter (book : OrderBook ticks) : Bool :=
  let windowSize := ticks.toUInt64
  let threshold := recenterThreshold ticks
  book.bestBid.any (fun bid => book.denseBasePrice + threshold ≤ bid) ||
    book.bestAsk.any fun ask => ask < book.denseBasePrice + (windowSize - threshold)

/-- The window start that `maybe_recenter` chooses. -/
def recenterBase (book : OrderBook ticks) : UInt64 :=
  let center := (book.bestBid.or book.bestAsk).getD 0
  saturatingSub center (ticks.toUInt64 / 2)

/-- `OrderBook::maybe_recenter`. -/
def maybeRecenter (book : OrderBook ticks) : Except Fault (OrderBook ticks) :=
  if book.needsRecenter then book.forceRecenter book.recenterBase else .ok book

/-! ### The additions -/

/-- An addition of `u64` that must not overflow. -/
def checkedAdd (left right : UInt64) : Option UInt64 :=
  if left.toNat + right.toNat < 2 ^ 64 then some (left + right) else none

/-- `needs_recenter`, its additions checked. -/
def needsRecenterChecked (book : OrderBook ticks) : Option Bool := do
  let windowSize := ticks.toUInt64
  let threshold := recenterThreshold ticks
  let drifted ← match book.bestBid with
    | some bid => (checkedAdd book.denseBasePrice threshold).map fun bound => decide (bound ≤ bid)
    | none => some false
  if drifted then some true
  else match book.bestAsk with
    | some ask =>
      (checkedAdd book.denseBasePrice (windowSize - threshold)).map fun bound =>
        decide (ask < bound)
    | none => some false

/-- `force_recenter`, its additions checked: the end of the new window, and the price of each
slot of the old one. -/
def forceRecenterChecked (book : OrderBook ticks) (newBase : UInt64) :
    Option (OrderBook ticks) :=
  if newBase = book.denseBasePrice then some book
  else do
    let _ ← checkedAdd newBase ticks.toUInt64
    let priced := (List.range ticks.toNat).all fun i =>
      (checkedAdd book.denseBasePrice (UInt64.ofNat i)).isSome
    if priced then (book.forceRecenter newBase).toOption else none

/-- `maybe_recenter`, its additions checked. -/
def maybeRecenterChecked (book : OrderBook ticks) : Option (OrderBook ticks) := do
  if ← book.needsRecenterChecked then book.forceRecenterChecked book.recenterBase else some book

/-- No addition overflows, no range has its start after its end, and a window that is moved
holds the best bid, or the best ask without bids. -/
def RecentersSafely (book : OrderBook ticks) : Prop :=
  ∃ moved, book.maybeRecenterChecked = some moved ∧ book.maybeRecenter = .ok moved ∧
    (moved.denseBasePrice ≠ book.denseBasePrice →
      ∃ top slot, moved.bestBid.or moved.bestAsk = some top ∧ moved.denseIndex top = some slot)

/-- Where the window has to be moved, a window around the best price ends within the prices. -/
def CenterFits (book : OrderBook ticks) : Prop :=
  book.needsRecenter = true → ∀ top, book.bestBid.or book.bestAsk = some top →
    top.toNat + (ticks.toNat - ticks.toNat / 2) < 2 ^ 64

/-- A sum that is a word is computed. -/
theorem checkedAdd_of_fits {left right : UInt64} (fits : left.toNat + right.toNat < 2 ^ 64) :
    checkedAdd left right = some (left + right) := if_pos fits

/-- The threshold lies within the window. -/
theorem recenterThreshold_toNat (ticks : UInt32) :
    (recenterThreshold ticks).toNat = ticks.toNat * 7 / 10 := by
  have small := ticks.toNat_lt
  rw [recenterThreshold, UInt64.toNat_div, UInt64.toNat_mul, UInt32.toNat_toUInt64]
  have product : ticks.toNat * UInt64.toNat 7 < 2 ^ 64 := by
    change ticks.toNat * 7 < 2 ^ 64
    omega
  rw [Nat.mod_eq_of_lt product]
  rfl

/-- In a window that ends within the prices the check of the best prices overflows nowhere. -/
theorem needsRecenterChecked_eq (fits : book.WindowFits) :
    book.needsRecenterChecked = some book.needsRecenter := by
  have threshold := recenterThreshold_toNat ticks
  have small : ticks.toNat < 2 ^ 32 := ticks.toNat_lt
  have window : ticks.toUInt64.toNat = ticks.toNat := UInt32.toNat_toUInt64 ticks
  unfold OrderBook.WindowFits at fits
  have rest : (ticks.toUInt64 - recenterThreshold ticks).toNat =
      ticks.toNat - ticks.toNat * 7 / 10 := by
    rw [UInt64.toNat_sub_of_le, window, threshold]
    rw [UInt64.le_iff_toNat_le, window, threshold]
    omega
  have high := @checkedAdd_of_fits book.denseBasePrice (recenterThreshold ticks) (by omega)
  have low := @checkedAdd_of_fits book.denseBasePrice (ticks.toUInt64 - recenterThreshold ticks)
    (by omega)
  rw [needsRecenterChecked, needsRecenter]
  cases book.bestBid with
  | none =>
    cases book.bestAsk with
    | none => rfl
    | some ask => simp [low]
  | some bid =>
    simp only [high, Option.map_some, Option.bind_eq_bind, Option.bind_some]
    by_cases drifted : book.denseBasePrice + recenterThreshold ticks ≤ bid
    · simp [drifted]
    · cases book.bestAsk with
      | none => simp [drifted]
      | some ask => simp [drifted, low]

/-- In a window that ends within the prices the price of every slot is computed. -/
theorem slotPrices_checked (fits : book.WindowFits) :
    ((List.range ticks.toNat).all fun i =>
      (checkedAdd book.denseBasePrice (UInt64.ofNat i)).isSome) = true := by
  rw [List.all_eq_true]
  intro i among
  have inside := List.mem_range.mp among
  have small := ticks.toNat_lt
  unfold OrderBook.WindowFits at fits
  have number : (UInt64.ofNat i).toNat = i :=
    UInt64.toNat_ofNat_of_lt' (by simp only [UInt64.size]; omega)
  rw [checkedAdd_of_fits (by omega)]
  rfl

/-- The chosen window start is half a window below the best price, or the first price. -/
theorem recenterBase_toNat {top : UInt64} (best : book.bestBid.or book.bestAsk = some top) :
    book.recenterBase.toNat = top.toNat - ticks.toNat / 2 := by
  have half : (ticks.toUInt64 / 2).toNat = ticks.toNat / 2 := by
    rw [UInt64.toNat_div, UInt32.toNat_toUInt64]
    rfl
  rw [recenterBase, best, Option.getD_some, saturatingSub]
  split
  · rename_i below
    rw [UInt64.toNat_sub_of_le _ _ below, half]
  · rename_i above
    rw [UInt64.le_iff_toNat_le, half] at above
    change 0 = _
    omega

/-- A window that has to be moved has a best price. -/
theorem exists_top (needs : book.needsRecenter = true) :
    ∃ top, book.bestBid.or book.bestAsk = some top := by
  rw [needsRecenter] at needs
  cases first : book.bestBid with
  | some bid => exact ⟨bid, rfl⟩
  | none =>
    cases second : book.bestAsk with
    | some ask => exact ⟨ask, rfl⟩
    | none => simp [first, second] at needs

end OrderBook

/-! ### Books that orders were put into and taken from -/

/-- Insertions and removals, with any arguments. -/
def BookOp.Fills : BookOp → Prop
  | .insert .. | .remove _ => True
  | .reduce .. | .recenter _ => False

instance (op : BookOp) : Decidable op.Fills :=
  match op with
  | .insert .. | .remove _ => isTrue trivial
  | .reduce .. | .recenter _ => isFalse id

/-- A book reached from a new one, whose window ends within the prices, by insertions and
removals. -/
def FillRun (config : InstrumentConfig) (capacity : UInt32) :
    BookState config.maxTicks → Prop :=
  Reached
    (fun state => state = (OrderBook.new config, Arena.new capacity) ∧ state.1.WindowFits)
    BookOp.apply fun _ op => op.Fills

/-- A book of such a run agrees with some queues, and its window ends within the prices. -/
theorem FillRun.inv {config : InstrumentConfig} {capacity : UInt32}
    {state : BookState config.maxTicks} (run : FillRun config capacity state) :
    ∃ queues, BookInv state queues := by
  refine Reached.invariant ?_ ?_ run
  · rintro state ⟨rfl, fits⟩
    exact ⟨_, represents_new config capacity, tracks_new config, fits⟩
  · rintro state op following ⟨queues, inv⟩ fills completed
    cases op with
    | insert id side price qty orderType visibleQty stpGroup =>
      exact (insert_step inv completed).1
    | remove index => exact (remove_step inv completed).1
    | reduce index delta => exact absurd fills id
    | recenter newBase => exact absurd fills id

/-- Moving the window to the chosen start succeeds when the window around the best price ends
within the prices, and the best price is then in it. -/
theorem recenter_fits {state : BookState ticks} {queues : Queues} {top : UInt64}
    (inv : BookInv state queues) (positive : 0 < ticks.toNat)
    (best : state.1.bestBid.or state.1.bestAsk = some top)
    (fits : top.toNat + (ticks.toNat - ticks.toNat / 2) < 2 ^ 64) :
    ∃ moved slot, state.1.forceRecenterChecked state.1.recenterBase = some moved ∧
      state.1.forceRecenter state.1.recenterBase = .ok moved ∧
      moved.bestBid.or moved.bestAsk = some top ∧ moved.denseIndex top = some slot := by
  have small := ticks.toNat_lt
  have start := OrderBook.recenterBase_toNat best
  have fitsNew : state.1.recenterBase.toNat + ticks.toNat < 2 ^ 64 := by omega
  obtain ⟨moved, completed, -, kept, base, -⟩ :=
    forceRecenter_spec inv.rep inv.tracks (vacantPast_of_fits inv.fits) fitsNew
  have inside : top.toNat - state.1.recenterBase.toNat < ticks.toNat := by omega
  have within : moved.denseIndex top = some ⟨_, inside⟩ := by
    rw [OrderBook.denseIndex_some, base]
    simp only
    omega
  have top_kept : moved.bestBid.or moved.bestAsk = some top := by
    have bid : moved.bestBid = state.1.bestBid := kept .bid
    have ask : moved.bestAsk = state.1.bestAsk := kept .ask
    rw [bid, ask, best]
  refine ⟨moved, _, ?_, completed, top_kept, within⟩
  rw [OrderBook.forceRecenterChecked]
  by_cases same : state.1.recenterBase = state.1.denseBasePrice
  · rw [OrderBook.forceRecenter, if_pos same, Except.ok.injEq] at completed
    rw [if_pos same, completed]
  · have windowEnd := @OrderBook.checkedAdd_of_fits state.1.recenterBase ticks.toUInt64
      (by rw [UInt32.toNat_toUInt64]; exact fitsNew)
    rw [if_neg same, windowEnd]
    simp only [Option.bind_eq_bind, Option.bind_some, OrderBook.slotPrices_checked inv.fits,
      if_true, completed]
    rfl

/-- In every book that orders were put into and taken from, automatic recentering is safe exactly
when the window need not be moved or one around the best price ends within the prices. -/
theorem maybe_recenter_safe_iff (config : InstrumentConfig) (capacity : UInt32)
    (positive : 0 < config.maxTicks.toNat) (state : BookState config.maxTicks)
    (run : FillRun config capacity state) :
    state.1.RecentersSafely ↔ state.1.CenterFits := by
  obtain ⟨queues, inv⟩ := run.inv
  have checked := OrderBook.needsRecenterChecked_eq inv.fits
  by_cases needs : state.1.needsRecenter = true
  · obtain ⟨top, best⟩ := OrderBook.exists_top needs
    have start := OrderBook.recenterBase_toNat best
    rw [needs] at checked
    constructor
    · rintro ⟨moved, completed, -, -⟩ - other best'
      obtain rfl := Option.some.inj (best.symm.trans best')
      have fits := inv.fits
      rw [OrderBook.WindowFits] at fits
      rw [OrderBook.maybeRecenterChecked, checked] at completed
      simp only [Option.bind_eq_bind, Option.bind_some, if_true,
        OrderBook.forceRecenterChecked] at completed
      split at completed
      · rename_i same
        rw [same] at start
        omega
      · by_contra past
        have overflows : OrderBook.checkedAdd state.1.recenterBase config.maxTicks.toUInt64 =
            none := by
          rw [OrderBook.checkedAdd, UInt32.toNat_toUInt64]
          exact if_neg (by omega)
        rw [overflows] at completed
        cases completed
    · intro fits
      obtain ⟨moved, slot, completed, plain, top_kept, within⟩ :=
        recenter_fits inv positive best (fits needs top best)
      refine ⟨moved, ?_, ?_, fun _ => ⟨top, slot, top_kept, within⟩⟩
      · rw [OrderBook.maybeRecenterChecked, checked]
        exact completed
      · rw [OrderBook.maybeRecenter, if_pos needs]
        exact plain
  · rw [Bool.not_eq_true] at needs
    rw [needs] at checked
    constructor
    · intro _ drifted
      rw [needs] at drifted
      cases drifted
    · intro _
      refine ⟨state.1, ?_, ?_, fun moved => absurd rfl moved⟩
      · rw [OrderBook.maybeRecenterChecked, checked]
        rfl
      · rw [OrderBook.maybeRecenter, needs]
        rfl

/-- With a bid past 70 percent of the window, the window is moved, and safely. -/
theorem maybe_recenter_safe_of_drift :
    ∃ state, FillRun (smallConfig .cancelNewest) 8 state ∧ state.1.needsRecenter = true ∧
      state.1.RecentersSafely := by
  obtain ⟨state, run, shown⟩ : ∃ state, FillRun (smallConfig .cancelNewest) 8 state ∧
      (state.1.needsRecenter && state.1.bestBid.or state.1.bestAsk == some 10) = true :=
    Reached.exists_checkedRun (fun _ op => decide op.Fills) _
      (fun _ _ => of_decide_eq_true) ⟨rfl, by unfold OrderBook.WindowFits; decide⟩
      [.bid 1 10] (by decide +kernel)
  rw [Bool.and_eq_true, beq_iff_eq] at shown
  obtain ⟨needs, best⟩ := shown
  refine ⟨state, run, needs, (maybe_recenter_safe_iff _ _ (by decide) state run).mpr ?_⟩
  intro _ top isTop
  obtain rfl := Option.some.inj (best.symm.trans isTop)
  decide

/-- A bid at the last price: the end of the window around it overflows, and the range of the new
window has its start after its end. -/
theorem maybe_recenter_overflows :
    ∃ state, FillRun (smallConfig .cancelNewest) 8 state ∧
      state.1.maybeRecenterChecked.isNone = true ∧
      (match state.1.maybeRecenter with
        | .error .rangeInverted => true
        | _ => false) = true ∧
      ¬ state.1.RecentersSafely := by
  obtain ⟨state, run, shown⟩ : ∃ state, FillRun (smallConfig .cancelNewest) 8 state ∧
      (state.1.maybeRecenterChecked.isNone && match state.1.maybeRecenter with
        | .error .rangeInverted => true
        | _ => false) = true :=
    Reached.exists_checkedRun (fun _ op => decide op.Fills) _
      (fun _ _ => of_decide_eq_true) ⟨rfl, by unfold OrderBook.WindowFits; decide⟩
      [.bid 1 18446744073709551615] (by decide +kernel)
  rw [Bool.and_eq_true] at shown
  refine ⟨state, run, shown.1, shown.2, ?_⟩
  rintro ⟨moved, completed, -, -⟩
  rw [completed] at shown
  cases shown.1

end MatchX
