import MatchX.Book.BestPrice
import MatchX.Book.Recenter

/-!
# Recentering keeps what the book represents

Evicting, absorbing and rebuilding move levels between the window and the sparse maps. The
queues and the cached best prices are the same before and after; each step is described by
what the containers hold at every price.
-/

namespace MatchX

open MatchX.Support

variable {ticks : UInt32} {book : OrderBook ticks} {arena : Arena} {queues : Queues}

/-! ## Folds over containers -/

/-- Inserting entries in turn leaves a key that none of them has as it was. -/
theorem foldl_insert_other {ι V : Type} (skip : ι → Bool) (key : ι → UInt64) (value : ι → V)
    {price : UInt64} (l : List ι) (map : Std.ExtTreeMap UInt64 V)
    (absent : ∀ i ∈ l, skip i = false → key i ≠ price) :
    (l.foldl (fun map i => if skip i then map else map.insert (key i) (value i)) map)[price]? =
      map[price]? := by
  induction l generalizing map with
  | nil => rfl
  | cons i rest ih =>
    rw [List.foldl_cons, ih _ fun j member => absent j (List.mem_cons_of_mem i member)]
    split
    · rfl
    · rename_i kept
      have other := absent i List.mem_cons_self (by simpa using kept)
      simp [Std.ExtTreeMap.getElem?_insert, other]

/-- Inserting entries of different keys in turn leaves each of them at its key. -/
theorem foldl_insert_same {ι V : Type} (skip : ι → Bool) (key : ι → UInt64) (value : ι → V)
    {i : ι} (l : List ι) (map : Std.ExtTreeMap UInt64 V) (member : i ∈ l) (taken : skip i = false)
    (unique : ∀ j ∈ l, key j = key i → j = i) :
    (l.foldl (fun map i => if skip i then map else map.insert (key i) (value i)) map)[key i]? =
      some (value i) := by
  induction l generalizing map with
  | nil => contradiction
  | cons j rest ih =>
    rw [List.foldl_cons]
    by_cases later : i ∈ rest
    · exact ih _ later fun k member => unique k (List.mem_cons_of_mem j member)
    · have here : i = j := (List.mem_cons.mp member).resolve_right later
      subst here
      rw [foldl_insert_other]
      · simp [taken]
      · intro k member _ same
        exact later (unique k (List.mem_cons_of_mem i member) same ▸ member)

namespace BookSide

variable {half : BookSide ticks} {slot : UInt64 → Option (Fin ticks.toNat)}
  {level : UInt64 → PriceLevel} {present : UInt64 → Prop}

/-- The containers of a side hold the levels of the prices at which orders rest: inside the
window at the slot of the price, outside it in the sparse map. -/
structure Holds (half : BookSide ticks) (slot : UInt64 → Option (Fin ticks.toNat))
    (present : UInt64 → Prop) (level : UInt64 → PriceLevel) : Prop where
  /-- A window slot holds the level of its price. -/
  dense : ∀ {price i}, slot price = some i → half.denseLevel i = level price
  /-- The sparse map holds the levels with orders of the prices without a slot. -/
  sparse : ∀ {price}, slot price = none → present price →
    half.sparse[price]? = some (level price)
  /-- It holds no other levels. -/
  only : ∀ {price}, ¬(slot price = none ∧ present price) → half.sparse[price]? = none

/-- Slots of a window have different numbers, also where the numbers wrap. -/
theorem windowSlot_injective {base : UInt64} {i j : Fin ticks.toNat}
    (same : base + UInt64.ofNat i.val = base + UInt64.ofNat j.val) : i = j := by
  have small := ticks.toNat_lt
  have offsets := (UInt64.add_right_inj base).mp same
  have numbers := congrArg UInt64.toNat offsets
  have left := i.isLt
  have right := j.isLt
  rw [UInt64.toNat_ofNat_of_lt' (by simp only [UInt64.size]; omega),
    UInt64.toNat_ofNat_of_lt' (by simp only [UInt64.size]; omega)] at numbers
  exact Fin.ext numbers

/-- After the eviction the sparse map holds every level with orders, and the window none. -/
theorem evict_holds {oldBase : UInt64} (holds : half.Holds slot present level)
    (empty : ∀ price, (level price).isEmpty = true ↔ ¬present price)
    (placed : ∀ {price} {i : Fin ticks.toNat},
      slot price = some i → oldBase + UInt64.ofNat i.val = price)
    (real : ∀ i : Fin ticks.toNat, (half.denseLevel i).isEmpty = false →
      slot (oldBase + UInt64.ofNat i.val) = some i) :
    (half.evict oldBase).Holds (fun _ => none) present level ∧
      ∀ i : Fin ticks.toNat, (half.evict oldBase).denseLevel i = PriceLevel.empty := by
  have outside : ∀ {price}, ¬(∃ i, slot price = some i ∧ present price) →
      (half.evict oldBase).sparse[price]? = half.sparse[price]? := fun {price} apart => by
    refine foldl_insert_other (fun i : Fin ticks.toNat => (half.denseLevel i).isEmpty) _ _ _ _ ?_
    rintro i - full rfl
    refine apart ⟨i, real i full, ?_⟩
    rw [holds.dense (real i full)] at full
    by_contra vacant
    rw [(empty _).mpr vacant] at full
    contradiction
  refine ⟨⟨fun {price i} within => ?_, fun {price} _ held => ?_, fun {price} other => ?_⟩,
    fun i => ?_⟩
  · contradiction
  · cases within : slot price with
    | none =>
      rw [outside]
      · exact holds.sparse within held
      · rintro ⟨i, here, -⟩
        rw [within] at here
        contradiction
    | some i =>
      have full : (half.denseLevel i).isEmpty = false := by
        rw [holds.dense within]
        by_contra vacant
        exact (empty _).mp (by simpa using vacant) held
      have here := placed within
      subst here
      have evicted := foldl_insert_same (fun i : Fin ticks.toNat => (half.denseLevel i).isEmpty)
        (fun i => oldBase + UInt64.ofNat i.val) (fun i => half.denseLevel i)
        (List.finRange ticks.toNat) half.sparse (List.mem_finRange i) full fun j _ same =>
          windowSlot_injective same
      rw [← holds.dense within]
      exact evicted
  · have vacant : ¬present price := fun held => other ⟨rfl, held⟩
    rw [outside fun ⟨_, _, held⟩ => vacant held]
    exact holds.only fun held => vacant held.2
  · simp [evict]

/-- Absorbing a key that has a slot moves its level, if there is one, into the slot. -/
theorem absorbOne_views (slot' : UInt64 → Option (Fin ticks.toNat)) (half : BookSide ticks)
    (key : UInt64) :
    (absorbOne slot' half key).bestTick = half.bestTick ∧
    (∀ price, (absorbOne slot' half key).sparse[price]? =
      if price = key ∧ slot' key ≠ none then none else half.sparse[price]?) ∧
    ∀ i, (absorbOne slot' half key).denseLevel i =
      if slot' key = some i then (half.sparse[key]?).getD (half.denseLevel i)
      else half.denseLevel i := by
  unfold absorbOne
  cases held : half.sparse[key]? with
  | none =>
    refine ⟨rfl, fun price => ?_, fun i => by simp⟩
    by_cases same : price = key ∧ slot' key ≠ none
    · rw [if_pos same, same.1]
      exact held
    · rw [if_neg same]
  | some level =>
    cases within : slot' key with
    | none => simp
    | some i =>
      refine ⟨rfl, fun price => ?_, fun j => ?_⟩
      · simp only [Std.ExtTreeMap.getElem?_erase, Std.compare_eq_iff_eq]
        by_cases same : price = key
        · simp [same]
        · simp [same, Ne.symm same]
      · by_cases same : i = j
        · subst same
          simp
        · have apart : i.val ≠ j.val := fun equal => same (Fin.ext equal)
          simp [same, Vector.getElem_set_ne, apart]

/-- Absorbing one key after another moves exactly those of the keys that have a slot. -/
theorem foldl_absorb (slot' : UInt64 → Option (Fin ticks.toNat)) (keys : List UInt64)
    (half : BookSide ticks) (nodup : keys.Nodup)
    (injective : ∀ {price price' i}, slot' price = some i → slot' price' = some i →
      price = price') :
    (keys.foldl (absorbOne slot') half).bestTick = half.bestTick ∧
    (∀ price, (keys.foldl (absorbOne slot') half).sparse[price]? =
      if price ∈ keys ∧ slot' price ≠ none then none else half.sparse[price]?) ∧
    ∀ price i, slot' price = some i → (keys.foldl (absorbOne slot') half).denseLevel i =
      if price ∈ keys then (half.sparse[price]?).getD (half.denseLevel i)
      else half.denseLevel i := by
  induction keys generalizing half with
  | nil => simp
  | cons key rest ih =>
    obtain ⟨fresh, nodup⟩ := List.nodup_cons.mp nodup
    obtain ⟨best₁, sparse₁, dense₁⟩ := absorbOne_views slot' half key
    obtain ⟨best, sparse, dense⟩ := ih (absorbOne slot' half key) nodup
    simp only [List.foldl_cons]
    refine ⟨best.trans best₁, fun price => ?_, fun price i within => ?_⟩
    · rw [sparse, sparse₁]
      by_cases same : price = key
      · subst same
        simp [fresh]
      · simp [same]
    · rw [dense price i within, dense₁, sparse₁]
      by_cases same : price = key
      · subst same
        simp [fresh, within]
      · have apart : slot' key ≠ some i := fun here => same (injective within here)
        simp [same, apart]

/-- After the absorption the window and the sparse map hold the levels of the new window. -/
theorem absorb_holds {slot' : UInt64 → Option (Fin ticks.toNat)} {newBase newEnd : UInt64}
    (holds : half.Holds (fun _ => none) present level)
    (clear : ∀ i : Fin ticks.toNat, half.denseLevel i = PriceLevel.empty)
    (nothing : ∀ price, ¬present price → level price = PriceLevel.empty)
    (injective : ∀ {price price' i}, slot' price = some i → slot' price' = some i →
      price = price')
    (window : ∀ price, slot' price ≠ none ↔ newBase ≤ price ∧ price < newEnd) :
    (half.absorb slot' newBase newEnd).Holds slot' present level ∧
      (half.absorb slot' newBase newEnd).bestTick = half.bestTick := by
  have nodup : (half.sparse.keys.filter fun key => newBase ≤ key && key < newEnd).Nodup :=
    List.Nodup.filter _ ((keys_ascend half.sparse).imp fun less => UInt64.ne_of_lt less)
  obtain ⟨best, sparse, dense⟩ := foldl_absorb slot' _ half nodup injective
  have chosen : ∀ {price}, price ∈ (half.sparse.keys.filter fun key =>
      newBase ≤ key && key < newEnd) ↔ present price ∧ slot' price ≠ none := fun {price} => by
    rw [List.mem_filter, Std.ExtTreeMap.mem_keys, ← Std.ExtTreeMap.contains_iff_mem,
      Std.ExtTreeMap.contains_eq_isSome_getElem?, window]
    by_cases held : present price
    · simp [holds.sparse rfl held, held]
    · simp [holds.only fun both => held both.2, held]
  refine ⟨⟨fun {price i} within => ?_, fun {price} beyond held => ?_, fun {price} other => ?_⟩,
    best⟩
  · refine (dense price i within).trans ?_
    by_cases held : present price
    · rw [if_pos (chosen.mpr ⟨held, by simp [within]⟩), holds.sparse rfl held]
      rfl
    · rw [if_neg fun member => held (chosen.mp member).1, clear, nothing price held]
  · refine (sparse price).trans ?_
    rw [if_neg fun both => both.2 beyond, holds.sparse rfl held]
  · refine (sparse price).trans ?_
    split
    · rfl
    · rename_i kept
      refine holds.only fun both => ?_
      by_cases beyond : slot' price = none
      · exact other ⟨beyond, both.2⟩
      · exact kept ⟨chosen.mpr ⟨both.2, beyond⟩, beyond⟩

/-- Rebuilding marks exactly the window slots whose level has orders, and leaves the levels and
the best price as they are. -/
theorem rebuild_views (half : BookSide ticks) :
    half.rebuildDense.rebuildSparse.dense = half.dense ∧
    half.rebuildDense.rebuildSparse.sparse = half.sparse ∧
    half.rebuildDense.rebuildSparse.bestTick = half.bestTick ∧
    ∀ i, half.rebuildDense.rebuildSparse.occupied.test i = true ↔
      ∃ slot : Fin ticks.toNat, slot.val = i ∧ (half.denseLevel slot).isEmpty = false := by
  let step := fun (rebuilt : BookSide ticks) (i : Fin ticks.toNat) =>
    if (half.denseLevel i).isEmpty then rebuilt
    else { rebuilt with
      occupied := rebuilt.occupied.insert i
      depthIndex := rebuilt.depthIndex.add i (half.denseLevel i).totalQuantity }
  have fold : ∀ (l : List (Fin ticks.toNat)) (rebuilt : BookSide ticks),
      (l.foldl step rebuilt).dense = rebuilt.dense ∧
      (l.foldl step rebuilt).sparse = rebuilt.sparse ∧
      (l.foldl step rebuilt).bestTick = rebuilt.bestTick ∧
      ∀ i, (l.foldl step rebuilt).occupied.test i = true ↔ rebuilt.occupied.test i = true ∨
        ∃ slot ∈ l, slot.val = i ∧ (half.denseLevel slot).isEmpty = false := by
    intro l
    induction l with
    | nil => simp
    | cons j rest ih =>
      intro rebuilt
      obtain ⟨dense, sparse, best, bits⟩ := ih (step rebuilt j)
      simp only [List.foldl_cons]
      have kept : (step rebuilt j).dense = rebuilt.dense ∧
          (step rebuilt j).sparse = rebuilt.sparse ∧
          (step rebuilt j).bestTick = rebuilt.bestTick := by
        simp only [step]
        split <;> exact ⟨rfl, rfl, rfl⟩
      refine ⟨dense.trans kept.1, sparse.trans kept.2.1, best.trans kept.2.2, fun i => ?_⟩
      rw [bits]
      simp only [step]
      cases empty : (half.denseLevel j).isEmpty with
      | true =>
        simp only [if_true, List.mem_cons, exists_eq_or_imp, empty]
        simp
      | false =>
        simp only [Bool.false_eq_true, if_false, Bitset.test_insert, Bool.or_eq_true,
          decide_eq_true_iff, List.mem_cons, exists_eq_or_imp, empty, and_true]
        rw [eq_comm, or_assoc, or_left_comm]
  obtain ⟨dense, sparse, best, bits⟩ := fold (List.finRange ticks.toNat) { half with
    occupied := Bitset.empty ticks.toNat
    depthIndex := FenwickTree.new ticks.toNat }
  refine ⟨dense, sparse, best, fun i => (bits i).trans ?_⟩
  simp

/-- Rebuilding leaves the levels where they are held. -/
theorem rebuild_holds : half.rebuildDense.rebuildSparse.Holds slot present level ↔
    half.Holds slot present level := by
  obtain ⟨dense, sparse, -, -⟩ := rebuild_views half
  constructor
  · rintro ⟨inside, beyond, only⟩
    exact ⟨fun within => by rw [denseLevel, ← dense]; exact inside within,
      fun outside resting => by rw [← sparse]; exact beyond outside resting,
      fun other => by rw [← sparse]; exact only other⟩
  · rintro ⟨inside, beyond, only⟩
    exact ⟨fun within => by rw [denseLevel, dense]; exact inside within,
      fun outside resting => by rw [sparse]; exact beyond outside resting,
      fun other => by rw [sparse]; exact only other⟩

/-- When every window slot has a price, rebuilding marks those of the prices at which orders
rest. -/
theorem Holds.rebuild_marks (holds : half.Holds slot present level)
    (empty : ∀ price, (level price).isEmpty = true ↔ ¬present price)
    (priced : ∀ i, ∃ price, slot price = some i) (number : Nat) :
    half.rebuildDense.rebuildSparse.occupied.test number = true ↔
      ∃ price i, slot price = some i ∧ i.val = number ∧ present price := by
  obtain ⟨-, -, -, bits⟩ := rebuild_views half
  have full : ∀ {price i}, slot price = some i →
      ((half.denseLevel i).isEmpty = false ↔ present price) := by
    intro price i within
    rw [holds.dense within, ← Bool.not_eq_true, empty, not_not]
  rw [bits]
  constructor
  · rintro ⟨i, here, some_orders⟩
    obtain ⟨price, within⟩ := priced i
    exact ⟨price, i, within, here, (full within).mp some_orders⟩
  · rintro ⟨price, i, within, here, resting⟩
    exact ⟨i, here, (full within).mpr resting⟩

end BookSide

/-- The containers of a book hold the levels of its queues. -/
theorem Represents.holds (rep : Represents book arena queues) (side : Side) :
    (book.half side).Holds book.denseIndex (fun price => queues side price ≠ [])
      fun price => levelOf arena (queues side price) where
  dense {price i} within := by
    rw [← rep.levels]
    simp [OrderBook.level, within]
  sparse {price} beyond present := by
    have held := (rep.sparse side price).mpr ⟨beyond, present⟩
    rw [OrderBook.inSparse, Std.ExtTreeMap.contains_eq_isSome_getElem?,
      Option.isSome_iff_exists] at held
    obtain ⟨level, found⟩ := held
    have read := rep.levels side price
    simp only [OrderBook.level, beyond, Std.ExtTreeMap.getD_eq_getD_getElem?, found,
      Option.getD_some] at read
    rw [found, read]
  only {price} other := by
    have absent : book.inSparse side price = false := by
      rw [← Bool.not_eq_true, rep.sparse]
      exact other
    rw [OrderBook.inSparse, Std.ExtTreeMap.contains_eq_isSome_getElem?] at absent
    rw [← Option.not_isSome_iff_eq_none, absent]
    exact Bool.false_ne_true

/-- A book whose containers hold the levels of the queues represents them. -/
theorem represents_of_holds (queued : Queued arena queues)
    (indexed : ∀ id i, book.orderIndex[id]? = some i ↔
      ∃ order, arena.resting i = some order ∧ order.id = id)
    (holds : ∀ side, (book.half side).Holds book.denseIndex (fun price => queues side price ≠ [])
      fun price => levelOf arena (queues side price))
    (occupied : ∀ side i, book.isOccupied side i = true ↔
      ∃ price slot, book.denseIndex price = some slot ∧ slot.val = i ∧ queues side price ≠ []) :
    Represents book arena queues where
  toQueued := queued
  indexed := indexed
  occupied := occupied
  levels side price := by
    unfold OrderBook.level
    cases within : book.denseIndex price with
    | some i => exact (holds side).dense within
    | none =>
      dsimp only
      rw [Std.ExtTreeMap.getD_eq_getD_getElem?]
      by_cases present : queues side price ≠ []
      · rw [(holds side).sparse within present]
        rfl
      · rw [(holds side).only fun both => present both.2, not_not.mp present]
        rfl
  sparse side price := by
    rw [OrderBook.inSparse, Std.ExtTreeMap.contains_eq_isSome_getElem?]
    by_cases present : book.denseIndex price = none ∧ queues side price ≠ []
    · simp [(holds side).sparse present.1 present.2, present]
    · rw [(holds side).only present]
      simp only [Option.isSome_none, Bool.false_eq_true, false_iff]
      exact present

/-- A best price whose level has orders is not looked for anew. -/
theorem refreshBest_held (rep : Represents book arena queues) (tracks : Tracks book queues)
    (side : Side) : book.refreshBest side = book := by
  unfold OrderBook.refreshBest
  cases best : book.best side with
  | none => rfl
  | some price =>
    have full : book.levelIsEmpty side price ≠ true := fun empty =>
      tracks.held side price best (rep.levelIsEmpty_iff.mp empty)
    simp [full]

/-- The window slots that have no price, because the window goes past the last price, hold no
orders. -/
def OrderBook.VacantPast (book : OrderBook ticks) : Prop :=
  ∀ side (slot : Fin ticks.toNat), 2 ^ 64 ≤ book.denseBasePrice.toNat + slot.val →
    (book.half side).denseLevel slot = PriceLevel.empty

/-- In a window that ends within the prices every slot has a price. -/
theorem vacantPast_of_fits (fits : book.denseBasePrice.toNat + ticks.toNat < 2 ^ 64) :
    book.VacantPast := by
  intro side slot past
  have inside := slot.isLt
  omega

/-- A slot that is not past the last price is that of the price it stands for. -/
theorem OrderBook.denseIndex_add {slot : Fin ticks.toNat}
    (real : book.denseBasePrice.toNat + slot.val < 2 ^ 64) :
    book.denseIndex (book.denseBasePrice + UInt64.ofNat slot.val) = some slot := by
  have number : (UInt64.ofNat slot.val).toNat = slot.val :=
    UInt64.toNat_ofNat_of_lt' (by simp only [UInt64.size]; omega)
  rw [OrderBook.denseIndex_some, UInt64.toNat_add, number]
  exact Nat.mod_eq_of_lt real

/-- A slot with orders has a price. -/
theorem OrderBook.VacantPast.denseIndex (vacant : book.VacantPast) {side : Side}
    {slot : Fin ticks.toNat} (full : ((book.half side).denseLevel slot).isEmpty = false) :
    book.denseIndex (book.denseBasePrice + UInt64.ofNat slot.val) = some slot := by
  refine OrderBook.denseIndex_add ?_
  by_contra past
  rw [vacant side slot (Nat.not_lt.mp past)] at full
  contradiction

/-- The price of a window slot is the sum of the first price and the number of the slot. -/
theorem OrderBook.add_of_denseIndex {price : UInt64} {slot : Fin ticks.toNat}
    (within : book.denseIndex price = some slot) :
    book.denseBasePrice + UInt64.ofNat slot.val = price := by
  have place := OrderBook.denseIndex_some.mp within
  have bound := price.toNat_lt
  rw [← UInt64.toNat_inj, UInt64.toNat_add,
    UInt64.toNat_ofNat_of_lt' (by simp only [UInt64.size]; omega), place]
  exact Nat.mod_eq_of_lt (by omega)

/-- `force_recenter` to a window within the prices succeeds, and keeps the queues and the best
prices. The containers of the new window are rebuilt from its levels. -/
theorem forceRecenter_spec {newBase : UInt64} (rep : Represents book arena queues)
    (tracks : Tracks book queues) (vacant : book.VacantPast)
    (fits : newBase.toNat + ticks.toNat < 2 ^ 64) :
    ∃ book', book.forceRecenter newBase = .ok book' ∧ Represents book' arena queues ∧
      (∀ side, book'.best side = book.best side) ∧ book'.denseBasePrice = newBase ∧
      (newBase = book.denseBasePrice ∧ book' = book ∨
        ∀ side, ∃ half : BookSide ticks, book'.half side = half.rebuildDense.rebuildSparse) := by
  unfold OrderBook.forceRecenter
  by_cases same : newBase = book.denseBasePrice
  · exact ⟨book, by rw [if_pos same], rep, fun _ => rfl, same.symm, .inl ⟨same, rfl⟩⟩
  have windowEnd : (newBase + ticks.toUInt64).toNat = newBase.toNat + ticks.toNat := by
    rw [UInt64.toNat_add, UInt32.toNat_toUInt64]
    omega
  have proper : ¬newBase + ticks.toUInt64 < newBase := by
    rw [UInt64.lt_iff_toNat_lt, windowEnd]
    omega
  let evicted : OrderBook ticks := { book with
    bids := book.bids.evict book.denseBasePrice
    asks := book.asks.evict book.denseBasePrice
    denseBasePrice := newBase }
  let absorbed : OrderBook ticks := { evicted with
    bids := evicted.bids.absorb evicted.denseIndex newBase (newBase + ticks.toUInt64)
    asks := evicted.asks.absorb evicted.denseIndex newBase (newBase + ticks.toUInt64) }
  simp only [if_neg same, if_neg proper]
  have nothing : ∀ side price, ¬queues side price ≠ [] →
      levelOf arena (queues side price) = PriceLevel.empty := fun side price vacant => by
    rw [not_not.mp vacant, levelOf_nil]
  have window : ∀ price, evicted.denseIndex price ≠ none ↔
      newBase ≤ price ∧ price < newBase + ticks.toUInt64 := fun price => by
    rw [ne_eq, OrderBook.denseIndex_none, UInt64.le_iff_toNat_le, UInt64.lt_iff_toNat_lt,
      windowEnd]
    simp only [evicted]
    omega
  have moved : ∀ side, (absorbed.half side).Holds absorbed.denseIndex
      (fun price => queues side price ≠ []) (fun price => levelOf arena (queues side price)) ∧
      (absorbed.half side).bestTick = (book.half side).bestTick := fun side => by
    obtain ⟨holds, clear⟩ := BookSide.evict_holds (rep.holds side) rep.isEmpty_iff
      OrderBook.add_of_denseIndex fun _ full => vacant.denseIndex full
    have result := BookSide.absorb_holds holds clear (nothing side)
      (fun within within' => OrderBook.denseIndex_inj within within') window
    cases side <;> exact result
  have rebuilt : ∀ side, absorbed.rebuildIndices.half side =
      (absorbed.half side).rebuildDense.rebuildSparse := fun side => by cases side <;> rfl
  have priced : ∀ slot : Fin ticks.toNat, ∃ price, absorbed.denseIndex price = some slot := by
    intro slot
    have inside := slot.isLt
    have real : absorbed.denseBasePrice.toNat + slot.val < 2 ^ 64 := by
      simp only [absorbed, evicted]
      omega
    exact ⟨_, OrderBook.denseIndex_add real⟩
  have rep' : Represents absorbed.rebuildIndices arena queues := by
    refine represents_of_holds rep.toQueued rep.indexed (fun side => ?_) fun side i => ?_
    · rw [rebuilt]
      exact BookSide.rebuild_holds.mpr (moved side).1
    · rw [OrderBook.isOccupied, rebuilt]
      exact (moved side).1.rebuild_marks rep.isEmpty_iff priced i
  have best : ∀ side, absorbed.rebuildIndices.best side = book.best side := fun side => by
    obtain ⟨-, -, kept, -⟩ := BookSide.rebuild_views (absorbed.half side)
    rw [OrderBook.best, rebuilt, kept, (moved side).2]
    rfl
  have tracks' : Tracks absorbed.rebuildIndices queues :=
    ⟨fun side none => tracks.empty side (best side ▸ none),
      fun side price held => tracks.held side price (best side ▸ held)⟩
  refine ⟨absorbed.rebuildIndices, ?_, rep', best, rfl, .inr fun side => ⟨_, rebuilt side⟩⟩
  change Except.ok ((absorbed.rebuildIndices.refreshBest .bid).refreshBest .ask) = _
  rw [refreshBest_held rep' tracks', refreshBest_held rep' tracks']

end MatchX
