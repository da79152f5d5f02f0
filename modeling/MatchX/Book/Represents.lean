import MatchX.Book.Queues
import MatchX.Book.Views

/-!
# The book represents its queues

`levelOf` computes the level that a queue of slots stands for. `Represents` says that every
container of the book agrees with the queues: the levels, the occupancy bits, the sparse maps
and the index of resting ids. `Tracks` says of the cached best prices what matching relies on,
that they name a level with orders as long as there is one.
-/

namespace MatchX

open MatchX.Support

variable {ticks : UInt32} {book : OrderBook ticks} {arena arena' : Arena} {queues : Queues}
  {queue : List ArenaIndex} {index : ArenaIndex} {side : Side} {price : UInt64}

/-- The quantity that rests in the slots of a queue. -/
def liquidity (arena : Arena) (queue : List ArenaIndex) : Nat :=
  (queue.map arena.remainingAt).sum

/-- The level that a queue of slots stands for. -/
def levelOf (arena : Arena) (queue : List ArenaIndex) : PriceLevel where
  totalQuantity := UInt64.ofNat (liquidity arena queue)
  orderCount := UInt32.ofNat queue.length
  head := queue.head?
  tail := queue.getLast?

/-- The empty queue stands for the empty level. -/
@[simp] theorem levelOf_nil : levelOf arena [] = PriceLevel.empty := rfl

/-- A slot that rests the same order has the same remaining quantity. -/
theorem remainingAt_congr (same : arena'.resting index = arena.resting index) :
    arena'.remainingAt index = arena.remainingAt index := by
  simp only [Arena.remainingAt, same]

/-- The quantity of a queue whose slots rest the same orders is the same. -/
theorem liquidity_congr (same : ∀ i ∈ queue, arena'.resting i = arena.resting i) :
    liquidity arena' queue = liquidity arena queue :=
  congrArg List.sum (List.map_congr_left fun i member => remainingAt_congr (same i member))

/-- A queue whose slots rest the same orders stands for the same level. -/
theorem levelOf_congr (same : ∀ i ∈ queue, arena'.resting i = arena.resting i) :
    levelOf arena' queue = levelOf arena queue := by
  simp only [levelOf, liquidity_congr same]

/-- The quantity of a longer queue. -/
theorem liquidity_append :
    liquidity arena (queue ++ [index]) = liquidity arena queue + arena.remainingAt index := by
  simp [liquidity]

/-- The quantity of one slot of a queue and that of the others. -/
theorem liquidity_erase (member : index ∈ queue) :
    liquidity arena queue = arena.remainingAt index + liquidity arena (queue.erase index) := by
  have rearranged := (List.perm_cons_erase member).map arena.remainingAt
  simpa [liquidity] using rearranged.sum_nat

/-- The book agrees with the queues. -/
structure Represents (book : OrderBook ticks) (arena : Arena) (queues : Queues) : Prop extends
    Queued arena queues where
  /-- Each level is the one its queue stands for. -/
  levels : ∀ side price, book.level side price = levelOf arena (queues side price)
  /-- The index maps exactly the resting ids to their slots. -/
  indexed : ∀ id i, book.orderIndex[id]? = some i ↔
    ∃ order, arena.resting i = some order ∧ order.id = id
  /-- A window slot is marked exactly when its level has orders. -/
  occupied : ∀ side i, book.isOccupied side i = true ↔
    ∃ price slot, book.denseIndex price = some slot ∧ slot.val = i ∧ queues side price ≠ []
  /-- The sparse map holds exactly the levels outside the window that have orders. -/
  sparse : ∀ side price, book.inSparse side price = true ↔
    book.denseIndex price = none ∧ queues side price ≠ []

/-- A cached best price names a level with orders, as long as the side has orders. -/
structure Tracks (book : OrderBook ticks) (queues : Queues) : Prop where
  /-- Without a best price the side is empty. -/
  empty : ∀ side, book.best side = none → ∀ price, queues side price = []
  /-- A best price is that of a level with orders. -/
  held : ∀ side price, book.best side = some price → queues side price ≠ []

/-- No queue is longer than the number of slots. -/
theorem Queued.length_lt (queued : Queued arena queues) :
    (queues side price).length < UInt32.size := by
  have fits := Arena.length_le_capacity queued.slots (queued.nodup side price) fun i member => by
    obtain ⟨order, rests, -⟩ := queued.stored member
    obtain ⟨stored, found, -⟩ := Arena.find_of_resting rests
    exact ⟨stored, found⟩
  have := arena.capacity.toNat_lt
  simp only [UInt32.size]
  omega

/-- A queue shorter than the count wraps stands for an empty level only when it is empty. -/
theorem levelOf_isEmpty (short : queue.length < UInt32.size) :
    (levelOf arena queue).isEmpty = true ↔ queue = [] := by
  simp only [levelOf, PriceLevel.isEmpty, beq_iff_eq, ← UInt32.toNat_inj, UInt32.toNat_zero]
  rw [UInt32.toNat_ofNat_of_lt' short, List.length_eq_zero_iff]

namespace Represents

variable (rep : Represents book arena queues)
include rep

/-- A level is empty exactly when its queue is. -/
theorem levelIsEmpty_iff : book.levelIsEmpty side price = true ↔ queues side price = [] := by
  rw [OrderBook.levelIsEmpty, rep.levels, levelOf_isEmpty rep.length_lt]

/-- The level of a queue is empty where no orders are queued. -/
theorem isEmpty_iff (price : UInt64) :
    (levelOf arena (queues side price)).isEmpty = true ↔ ¬queues side price ≠ [] := by
  rw [levelOf_isEmpty rep.length_lt, not_not]

/-- A level with orders is found by a lookup that requires it. -/
theorem requireLevel_ok {missing : Fault} (present : queues side price ≠ []) :
    book.requireLevel missing side price = .ok (book.level side price) := by
  unfold OrderBook.requireLevel OrderBook.level
  cases window : book.denseIndex price with
  | some slot => rfl
  | none =>
    have held := (rep.sparse side price).mpr ⟨window, present⟩
    rw [OrderBook.inSparse, Std.ExtTreeMap.contains_eq_isSome_getElem?,
      Option.isSome_iff_exists] at held
    obtain ⟨level, found⟩ := held
    simp [found, Std.ExtTreeMap.getD_eq_getD_getElem?]

/-- No resting order has an id that is not indexed. -/
theorem lookup_none {id : OrderId} (absent : book.lookup id = none) {order : Order}
    (rests : arena.resting index = some order) : order.id ≠ id := by
  rintro rfl
  have indexed := (rep.indexed order.id index).mpr ⟨order, rests, rfl⟩
  rw [OrderBook.lookup] at absent
  rw [absent] at indexed
  contradiction

/-- A book and its arena represent one family of queues only. -/
theorem queues_unique {queues' : Queues} (rep' : Represents book arena queues') :
    queues' = queues := by
  funext side price
  have apart : ∀ {queues : Queues}, Represents book arena queues → arenaNull ∉ queues side price := by
    intro queues rep member
    obtain ⟨order, rests, -⟩ := rep.stored member
    obtain ⟨stored, found, -⟩ := Arena.find_of_resting rests
    exact Arena.find_ne_null rep.slots found rfl
  have heads : (queues' side price).head? = (queues side price).head? := by
    have levels := (rep'.levels side price).symm.trans (rep.levels side price)
    exact congrArg PriceLevel.head levels
  apply linked_unique (rep'.linked side price) (rep.linked side price) (apart rep') (apart rep)
  rw [List.headD_eq_head?_getD, List.headD_eq_head?_getD, heads]

/-- Two slots do not rest orders of one id. -/
theorem slot_unique {i j : ArenaIndex} {first second : Order}
    (rests : arena.resting i = some first) (rests' : arena.resting j = some second)
    (same : first.id = second.id) : i = j := by
  have here := (rep.indexed first.id i).mpr ⟨first, rests, rfl⟩
  have there := (rep.indexed first.id j).mpr ⟨second, rests', same.symm⟩
  exact Option.some.inj (here.symm.trans there)

omit rep in
/-- The depth indices are not part of what the book represents. -/
theorem of_sameButDepth {book' : OrderBook ticks} (rep : Represents book arena queues)
    (same : book.SameButDepth book') : Represents book' arena queues where
  toQueued := rep.toQueued
  levels side price := by rw [same.levels, rep.levels]
  indexed id i := by rw [same.index, rep.indexed]
  occupied side i := by
    simp only [same.occupied, rep.occupied, OrderBook.denseIndex_congr same.base]
  sparse side price := by
    rw [same.sparse, rep.sparse, OrderBook.denseIndex_congr same.base]

end Represents

/-- A new book represents empty queues. -/
theorem represents_new (config : InstrumentConfig) (capacity : UInt32) :
    Represents (OrderBook.new config) (Arena.new capacity) fun _ _ => [] where
  toQueued := Queued.new capacity
  levels side price := by
    unfold OrderBook.level
    split
    · cases side <;> simp [OrderBook.new, OrderBook.half, BookSide.new]
    · cases side <;> simp [OrderBook.new, OrderBook.half, BookSide.new]
  indexed id i := by
    have vacant := Arena.resting_eq_none.mpr (Arena.find_new capacity i)
    simp [OrderBook.new, vacant]
  occupied side i := by
    cases side <;> simp [OrderBook.isOccupied, OrderBook.new, OrderBook.half, BookSide.new]
  sparse side price := by
    cases side <;> simp [OrderBook.inSparse, OrderBook.new, OrderBook.half, BookSide.new]

/-- A new book has no best prices. -/
theorem tracks_new (config : InstrumentConfig) :
    Tracks (OrderBook.new config) fun _ _ => [] where
  empty _ _ _ := rfl
  held side price best := by cases side <;> contradiction

end MatchX
