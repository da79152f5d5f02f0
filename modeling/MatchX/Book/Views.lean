import MatchX.Book.OrderBook

/-!
# Views of a book

What the proofs read off a book: its levels, the occupancy of its window, the prices of its
sparse maps, its cached best prices and its depth indices. Each update of the book changes
one view; the lemmas say how, and that the other views are kept.
-/

namespace MatchX

open MatchX.Support

namespace OrderBook

variable {ticks : UInt32} (book : OrderBook ticks)

/-- Whether a window slot of a side is marked as non-empty. -/
def isOccupied (side : Side) (i : Nat) : Bool := (book.half side).occupied.test i

/-- Whether the sparse map of a side has a level at a price. -/
def inSparse (side : Side) (price : UInt64) : Bool := (book.half side).sparse.contains price

/-- The depth indices of a side. -/
def depth (side : Side) : FenwickTree × SparseVolumeIndex :=
  ((book.half side).depthIndex, (book.half side).sparseIndex)

variable {book} {side side' : Side} {price price' qty : UInt64} {level : PriceLevel}
  {half : BookSide ticks} {slot : Fin ticks.toNat} {top : Option UInt64} {i : Nat}

@[simp] theorem half_setHalf :
    (book.setHalf side half).half side' = if side' = side then half else book.half side' := by
  cases side <;> cases side' <;> rfl

@[simp] theorem denseBasePrice_setHalf :
    (book.setHalf side half).denseBasePrice = book.denseBasePrice := by cases side <;> rfl

@[simp] theorem orderIndex_setHalf : (book.setHalf side half).orderIndex = book.orderIndex := by
  cases side <;> rfl

/-- The window is that of the first price. -/
theorem denseIndex_congr {book' : OrderBook ticks}
    (same : book'.denseBasePrice = book.denseBasePrice) :
    book'.denseIndex price = book.denseIndex price := by
  simp only [denseIndex, same]

@[simp] theorem denseIndex_setHalf :
    (book.setHalf side half).denseIndex price = book.denseIndex price :=
  denseIndex_congr denseBasePrice_setHalf

/-- A level is read from the containers of its side. -/
theorem level_congr {book' : OrderBook ticks}
    (same : book'.denseBasePrice = book.denseBasePrice)
    (dense : (book'.half side).dense = (book.half side).dense)
    (sparse : (book'.half side).sparse = (book.half side).sparse) :
    book'.level side price = book.level side price := by
  simp only [level, denseIndex_congr same, dense, sparse]

/-- A window slot counts the prices from the start of the window. -/
theorem denseIndex_some :
    book.denseIndex price = some slot ↔ price.toNat = book.denseBasePrice.toNat + slot.val := by
  unfold denseIndex
  split
  · rename_i below
    rw [UInt64.lt_iff_toNat_lt] at below
    simp only [reduceCtorEq, false_iff]
    omega
  · rename_i above
    simp only [UInt64.lt_iff_toNat_lt, Nat.not_lt] at above
    have distance := UInt64.toNat_sub_of_le _ _ (UInt64.le_iff_toNat_le.mpr above)
    have inside := slot.isLt
    simp only [Option.dite_none_right_eq_some, Option.some.injEq, Fin.ext_iff, distance,
      exists_prop]
    omega

/-- The prices outside the window are those before and those after its slots. -/
theorem denseIndex_none : book.denseIndex price = none ↔
    price.toNat < book.denseBasePrice.toNat ∨
      book.denseBasePrice.toNat + ticks.toNat ≤ price.toNat := by
  constructor
  · intro outside
    by_contra inside
    have slot : price.toNat - book.denseBasePrice.toNat < ticks.toNat := by omega
    have found : book.denseIndex price = some ⟨_, slot⟩ := denseIndex_some.mpr (by simp; omega)
    rw [outside] at found
    contradiction
  · intro outside
    cases found : book.denseIndex price with
    | none => rfl
    | some slot =>
      have := denseIndex_some.mp found
      have := slot.isLt
      omega

/-- No two prices share a window slot. -/
theorem denseIndex_inj (inside : book.denseIndex price = some slot)
    (inside' : book.denseIndex price' = some slot) : price = price' :=
  UInt64.toNat_inj.mp ((denseIndex_some.mp inside).trans (denseIndex_some.mp inside').symm)

/-- Keys of a map compare equal when they are the same. -/
theorem compare_beq : (compare price price' == Ordering.eq) = decide (price' = price) := by
  rw [Bool.eq_iff_iff, beq_iff_eq, Std.compare_eq_iff_eq, decide_eq_true_iff, eq_comm]

/-! ## Writing a level -/

/-- A level that is written twice is as it was written last. -/
theorem setLevel_setLevel {later : PriceLevel} :
    (book.setLevel side price level).setLevel side price later = book.setLevel side price later := by
  unfold setLevel
  cases window : book.denseIndex price with
  | some slot =>
    simp only [denseIndex_setHalf, window]
    cases side <;> simp [setHalf, half, Vector.set_set]
  | none =>
    have twice : ∀ levels : Std.ExtTreeMap UInt64 PriceLevel,
        (levels.insert price level).insert price later = levels.insert price later := by
      intro levels
      refine Std.ExtTreeMap.ext_getElem? fun other => ?_
      simp only [Std.ExtTreeMap.getElem?_insert]
      split <;> rfl
    simp only [denseIndex_setHalf, window]
    cases side <;> simp [setHalf, half, twice]

/-- A level that is written reads back; the other levels are kept. -/
theorem level_setLevel : (book.setLevel side price level).level side' price' =
    if side' = side ∧ price' = price then level else book.level side' price' := by
  unfold setLevel
  cases window : book.denseIndex price with
  | some slot =>
    simp only [OrderBook.level, denseIndex_setHalf, half_setHalf]
    by_cases sides : side' = side
    · subst sides
      by_cases prices : price' = price
      · simp [prices, window]
      · simp only [if_true, prices, and_false, if_false]
        cases other : book.denseIndex price' with
        | none => rfl
        | some slot' =>
          have apart : slot.val ≠ slot'.val := fun same =>
            prices (denseIndex_inj other (Fin.ext same ▸ window))
          simp [Vector.getElem_set_ne, apart]
    · simp [sides]
  | none =>
    simp only [OrderBook.level, denseIndex_setHalf, half_setHalf]
    by_cases sides : side' = side
    · subst sides
      by_cases prices : price' = price
      · simp [prices, window]
      · simp only [if_true, prices, and_false, if_false]
        cases other : book.denseIndex price' with
        | some slot' => rfl
        | none => simp [Std.ExtTreeMap.getD_insert, Ne.symm prices]
    · simp [sides]

@[simp] theorem denseBasePrice_setLevel :
    (book.setLevel side price level).denseBasePrice = book.denseBasePrice := by
  unfold setLevel
  cases book.denseIndex price <;> exact denseBasePrice_setHalf

@[simp] theorem denseIndex_setLevel :
    (book.setLevel side price level).denseIndex price' = book.denseIndex price' :=
  denseIndex_congr denseBasePrice_setLevel

@[simp] theorem orderIndex_setLevel :
    (book.setLevel side price level).orderIndex = book.orderIndex := by
  unfold setLevel
  cases book.denseIndex price <;> exact orderIndex_setHalf

@[simp] theorem best_setLevel : (book.setLevel side price level).best side' = book.best side' := by
  unfold setLevel best
  cases book.denseIndex price <;> cases side <;> cases side' <;> rfl

@[simp] theorem isOccupied_setLevel :
    (book.setLevel side price level).isOccupied side' i = book.isOccupied side' i := by
  unfold setLevel isOccupied
  cases book.denseIndex price <;> cases side <;> cases side' <;> rfl

@[simp] theorem depth_setLevel :
    (book.setLevel side price level).depth side' = book.depth side' := by
  unfold setLevel depth
  cases book.denseIndex price <;> cases side <;> cases side' <;> rfl

/-- A level outside the window that is written is in the sparse map. -/
theorem inSparse_setLevel : (book.setLevel side price level).inSparse side' price' =
    (decide (side' = side ∧ price' = price ∧ book.denseIndex price = none) ||
      book.inSparse side' price') := by
  unfold setLevel inSparse
  cases window : book.denseIndex price with
  | some slot =>
    simp only [half_setHalf]
    by_cases sides : side' = side
    · subst sides
      simp
    · simp [sides]
  | none =>
    simp only [half_setHalf]
    by_cases sides : side' = side
    · subst sides
      simp [Std.ExtTreeMap.contains_insert, compare_beq]
    · simp [sides]

/-! ## Occupancy bits -/

@[simp] theorem denseBasePrice_setOccupied :
    (book.setOccupied side slot).denseBasePrice = book.denseBasePrice := denseBasePrice_setHalf

@[simp] theorem denseIndex_setOccupied :
    (book.setOccupied side slot).denseIndex price = book.denseIndex price := denseIndex_setHalf

@[simp] theorem orderIndex_setOccupied :
    (book.setOccupied side slot).orderIndex = book.orderIndex := orderIndex_setHalf

@[simp] theorem level_setOccupied :
    (book.setOccupied side slot).level side' price = book.level side' price :=
  level_congr denseBasePrice_setHalf (by cases side <;> cases side' <;> rfl)
    (by cases side <;> cases side' <;> rfl)

@[simp] theorem best_setOccupied : (book.setOccupied side slot).best side' = book.best side' := by
  cases side <;> cases side' <;> rfl

@[simp] theorem inSparse_setOccupied :
    (book.setOccupied side slot).inSparse side' price = book.inSparse side' price := by
  cases side <;> cases side' <;> rfl

@[simp] theorem depth_setOccupied : (book.setOccupied side slot).depth side' = book.depth side' := by
  cases side <;> cases side' <;> rfl

theorem isOccupied_setOccupied : (book.setOccupied side slot).isOccupied side' i =
    (decide (side' = side ∧ i = slot.val) || book.isOccupied side' i) := by
  unfold setOccupied isOccupied
  simp only [half_setHalf]
  by_cases sides : side' = side
  · subst sides
    simp
  · simp [sides]

@[simp] theorem denseBasePrice_clearOccupied :
    (book.clearOccupied side slot).denseBasePrice = book.denseBasePrice := denseBasePrice_setHalf

@[simp] theorem denseIndex_clearOccupied :
    (book.clearOccupied side slot).denseIndex price = book.denseIndex price := denseIndex_setHalf

@[simp] theorem orderIndex_clearOccupied :
    (book.clearOccupied side slot).orderIndex = book.orderIndex := orderIndex_setHalf

@[simp] theorem level_clearOccupied :
    (book.clearOccupied side slot).level side' price = book.level side' price :=
  level_congr denseBasePrice_setHalf (by cases side <;> cases side' <;> rfl)
    (by cases side <;> cases side' <;> rfl)

@[simp] theorem best_clearOccupied :
    (book.clearOccupied side slot).best side' = book.best side' := by
  cases side <;> cases side' <;> rfl

@[simp] theorem inSparse_clearOccupied :
    (book.clearOccupied side slot).inSparse side' price = book.inSparse side' price := by
  cases side <;> cases side' <;> rfl

@[simp] theorem depth_clearOccupied :
    (book.clearOccupied side slot).depth side' = book.depth side' := by
  cases side <;> cases side' <;> rfl

theorem isOccupied_clearOccupied : (book.clearOccupied side slot).isOccupied side' i =
    (!decide (side' = side ∧ i = slot.val) && book.isOccupied side' i) := by
  unfold clearOccupied isOccupied
  simp only [half_setHalf]
  by_cases sides : side' = side
  · subst sides
    simp
  · simp [sides]

/-! ## The cached best price -/

@[simp] theorem denseBasePrice_setBest :
    (book.setBest side top).denseBasePrice = book.denseBasePrice := denseBasePrice_setHalf

@[simp] theorem denseIndex_setBest :
    (book.setBest side top).denseIndex price = book.denseIndex price := denseIndex_setHalf

@[simp] theorem orderIndex_setBest : (book.setBest side top).orderIndex = book.orderIndex :=
  orderIndex_setHalf

@[simp] theorem level_setBest :
    (book.setBest side top).level side' price = book.level side' price :=
  level_congr denseBasePrice_setHalf (by cases side <;> cases side' <;> rfl)
    (by cases side <;> cases side' <;> rfl)

@[simp] theorem isOccupied_setBest :
    (book.setBest side top).isOccupied side' i = book.isOccupied side' i := by
  cases side <;> cases side' <;> rfl

@[simp] theorem inSparse_setBest :
    (book.setBest side top).inSparse side' price = book.inSparse side' price := by
  cases side <;> cases side' <;> rfl

@[simp] theorem depth_setBest : (book.setBest side top).depth side' = book.depth side' := by
  cases side <;> cases side' <;> rfl

theorem best_setBest :
    (book.setBest side top).best side' = if side' = side then top else book.best side' := by
  cases side <;> cases side' <;> rfl

/-! ## Depth indices -/

@[simp] theorem denseBasePrice_depthAdd :
    (book.depthAdd side price qty).denseBasePrice = book.denseBasePrice := by
  unfold depthAdd
  cases book.denseIndex price <;> exact denseBasePrice_setHalf

@[simp] theorem denseIndex_depthAdd :
    (book.depthAdd side price qty).denseIndex price' = book.denseIndex price' :=
  denseIndex_congr denseBasePrice_depthAdd

@[simp] theorem orderIndex_depthAdd :
    (book.depthAdd side price qty).orderIndex = book.orderIndex := by
  unfold depthAdd
  cases book.denseIndex price <;> exact orderIndex_setHalf

@[simp] theorem level_depthAdd :
    (book.depthAdd side price qty).level side' price' = book.level side' price' := by
  refine level_congr denseBasePrice_depthAdd ?_ ?_ <;> unfold depthAdd <;>
    cases book.denseIndex price <;> cases side <;> cases side' <;> rfl

@[simp] theorem best_depthAdd : (book.depthAdd side price qty).best side' = book.best side' := by
  unfold depthAdd best
  cases book.denseIndex price <;> cases side <;> cases side' <;> rfl

@[simp] theorem isOccupied_depthAdd :
    (book.depthAdd side price qty).isOccupied side' i = book.isOccupied side' i := by
  unfold depthAdd isOccupied
  cases book.denseIndex price <;> cases side <;> cases side' <;> rfl

@[simp] theorem inSparse_depthAdd :
    (book.depthAdd side price qty).inSparse side' price' = book.inSparse side' price' := by
  unfold depthAdd inSparse
  cases book.denseIndex price <;> cases side <;> cases side' <;> rfl

/-- What raising the depth of a price does is determined by the window and the depth indices. -/
theorem depthAdd_congr {book' : OrderBook ticks}
    (base : book'.denseBasePrice = book.denseBasePrice)
    (same : ∀ side, book'.depth side = book.depth side) :
    (book'.depthAdd side price qty).depth side' = (book.depthAdd side price qty).depth side' := by
  have here := same side
  have there := same side'
  simp only [depth, Prod.mk.injEq] at here there ⊢
  unfold depthAdd
  rw [denseIndex_congr base]
  cases book.denseIndex price <;> simp only [half_setHalf] <;> split <;> simp [here, there]

/-- Two books differ in their depth indices only. -/
structure SameButDepth (book book' : OrderBook ticks) : Prop where
  /-- The same window. -/
  base : book'.denseBasePrice = book.denseBasePrice
  /-- The same resting ids. -/
  index : book'.orderIndex = book.orderIndex
  /-- The same levels. -/
  levels : ∀ side price, book'.level side price = book.level side price
  /-- The same best prices. -/
  best : ∀ side, book'.best side = book.best side
  /-- The same occupancy. -/
  occupied : ∀ side i, book'.isOccupied side i = book.isOccupied side i
  /-- The same sparse prices. -/
  sparse : ∀ side price, book'.inSparse side price = book.inSparse side price

/-- Lowering the depth of a price changes the depth indices only. -/
theorem depthRemove_same {book' : OrderBook ticks}
    (removed : book.depthRemove side price qty = .ok book') : SameButDepth book book' := by
  unfold depthRemove at removed
  have rest : ∃ tree sparse, book' = book.setHalf side
      { book.half side with depthIndex := tree, sparseIndex := sparse } := by
    cases window : book.denseIndex price with
    | some slot =>
      simp only [window, Except.ok.injEq] at removed
      exact ⟨_, _, removed.symm⟩
    | none =>
      simp only [window] at removed
      split at removed
      · contradiction
      · exact ⟨_, _, (Except.ok.inj removed).symm⟩
  obtain ⟨tree, sparse, rfl⟩ := rest
  refine ⟨denseBasePrice_setHalf, orderIndex_setHalf, fun side' price' => ?_, ?_, ?_, ?_⟩
  · refine level_congr denseBasePrice_setHalf ?_ ?_ <;> cases side <;> cases side' <;> rfl
  all_goals
    intro side'
    cases side <;> cases side' <;> first | rfl | exact fun _ => rfl

/-- Whether the depth of a price can be lowered, and what that does, is determined by the
window and the depth indices. -/
theorem depthRemove_congr {book' lowered' : OrderBook ticks}
    (base : book'.denseBasePrice = book.denseBasePrice)
    (same : ∀ side, book'.depth side = book.depth side)
    (removed : book'.depthRemove side price qty = .ok lowered') :
    ∃ lowered, book.depthRemove side price qty = .ok lowered ∧
      ∀ side', lowered'.depth side' = lowered.depth side' := by
  have same₁ : ∀ side, (book'.half side).depthIndex = (book.half side).depthIndex :=
    fun side => congrArg Prod.fst (same side)
  have same₂ : ∀ side, (book'.half side).sparseIndex = (book.half side).sparseIndex :=
    fun side => congrArg Prod.snd (same side)
  unfold depthRemove at removed ⊢
  rw [denseIndex_congr base] at removed
  cases window : book.denseIndex price with
  | some slot =>
    simp only [window, Except.ok.injEq] at removed
    subst removed
    refine ⟨_, rfl, fun side' => ?_⟩
    simp only [depth, half_setHalf]
    split <;> simp [same₁, same₂]
  | none =>
    simp only [window, same₂] at removed ⊢
    cases lower : (book.half side).sparseIndex.sub price qty with
    | error fault =>
      rw [lower] at removed
      contradiction
    | ok index =>
      simp only [lower, Except.ok.injEq] at removed
      subst removed
      refine ⟨_, rfl, fun side' => ?_⟩
      simp only [depth, half_setHalf]
      split <;> simp [same₁, same₂]

/-! ## Pruning -/

@[simp] theorem denseBasePrice_pruneIfSparseEmpty :
    (book.pruneIfSparseEmpty side price).denseBasePrice = book.denseBasePrice := by
  unfold pruneIfSparseEmpty
  cases book.denseIndex price <;> dsimp only
  split
  · exact denseBasePrice_setHalf
  · rfl

@[simp] theorem denseIndex_pruneIfSparseEmpty :
    (book.pruneIfSparseEmpty side price).denseIndex price' = book.denseIndex price' :=
  denseIndex_congr denseBasePrice_pruneIfSparseEmpty

@[simp] theorem orderIndex_pruneIfSparseEmpty :
    (book.pruneIfSparseEmpty side price).orderIndex = book.orderIndex := by
  unfold pruneIfSparseEmpty
  cases book.denseIndex price <;> dsimp only
  split
  · exact orderIndex_setHalf
  · rfl

@[simp] theorem best_pruneIfSparseEmpty :
    (book.pruneIfSparseEmpty side price).best side' = book.best side' := by
  unfold pruneIfSparseEmpty
  cases book.denseIndex price <;> dsimp only
  split
  · cases side <;> cases side' <;> rfl
  · rfl

@[simp] theorem isOccupied_pruneIfSparseEmpty :
    (book.pruneIfSparseEmpty side price).isOccupied side' i = book.isOccupied side' i := by
  unfold pruneIfSparseEmpty
  cases book.denseIndex price <;> dsimp only
  split
  · cases side <;> cases side' <;> rfl
  · rfl

@[simp] theorem depth_pruneIfSparseEmpty :
    (book.pruneIfSparseEmpty side price).depth side' = book.depth side' := by
  unfold pruneIfSparseEmpty
  cases book.denseIndex price <;> dsimp only
  split
  · cases side <;> cases side' <;> rfl
  · rfl

/-- Pruning a level that is written out as empty keeps every level. -/
theorem level_pruneIfSparseEmpty (empty : book.level side price = PriceLevel.empty) :
    (book.pruneIfSparseEmpty side price).level side' price' = book.level side' price' := by
  unfold pruneIfSparseEmpty
  cases window : book.denseIndex price with
  | some slot => rfl
  | none =>
    dsimp only
    split
    · simp only [OrderBook.level, denseIndex_setHalf, half_setHalf]
      by_cases sides : side' = side
      · subst sides
        cases other : book.denseIndex price' with
        | some slot' => simp
        | none =>
          simp only [if_true, Std.ExtTreeMap.getD_erase]
          split
          · rename_i same
            have same : price = price' := by simpa using same
            subst same
            simpa [OrderBook.level, window] using empty.symm
          · rfl
      · simp [sides]
    · rfl

/-- Pruning a level that reads as empty takes its price out of the sparse map. -/
theorem inSparse_pruneIfSparseEmpty (empty : book.level side price = PriceLevel.empty) :
    (book.pruneIfSparseEmpty side price).inSparse side' price' =
      (!decide (side' = side ∧ price' = price ∧ book.denseIndex price = none) &&
        book.inSparse side' price') := by
  unfold pruneIfSparseEmpty
  cases window : book.denseIndex price with
  | some slot => simp
  | none =>
    have held : ∀ level, (book.half side).sparse[price]? = some level → level.isEmpty = true := by
      intro level found
      have read : book.level side price = level := by
        simp [OrderBook.level, window, Std.ExtTreeMap.getD_eq_getD_getElem?, found]
      rw [← read, empty]
      rfl
    dsimp only
    split
    · simp only [inSparse, half_setHalf]
      by_cases sides : side' = side
      · subst sides
        simp [Std.ExtTreeMap.contains_erase, bne, compare_beq]
      · simp [sides]
    · rename_i kept
      by_cases same : side' = side ∧ price' = price
      · obtain ⟨rfl, rfl⟩ := same
        have absent : (book.half side').sparse[price']? = none := by
          cases found : (book.half side').sparse[price']? with
          | none => rfl
          | some level => simp [found, held level found] at kept
        simp [inSparse, Std.ExtTreeMap.contains_eq_isSome_getElem?, absent]
      · have apart : ¬(side' = side ∧ price' = price ∧ none = (none : Option (Fin ticks.toNat))) :=
          fun h => same ⟨h.1, h.2.1⟩
        rw [decide_eq_false apart, Bool.not_false, Bool.true_and]

end OrderBook

end MatchX
