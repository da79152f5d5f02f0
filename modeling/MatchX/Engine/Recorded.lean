import MatchX.Book.BestPrice
import MatchX.Book.Fifo
import MatchX.Book.Liquidity
import MatchX.Engine.Reference

/-!
# The lines of a book

What a book and its arena hold, listed as the lines of the reference engine: at each side and
price a line has the orders of the level's queue. A listed book answers every question of the
reference engine as the lines do: which order is first, which one has an id, how much rests at
a price or within a limit, and how many orders there are. Inserting, removing and filling do to
the lines what they do to the book.
-/

namespace MatchX

open MatchX.Support
open MatchingEngine (Taker)

variable {ticks : UInt32} {book book' : OrderBook ticks} {arena arena' : Arena} {queues : Queues}
  {lines : ReferenceBook} {order : Order} {index : ArenaIndex} {side : Side} {price : UInt64}
  {id : OrderId}

/-- The lines have the orders of the queues. -/
def Recorded (arena : Arena) (queues : Queues) (lines : ReferenceBook) : Prop :=
  ∀ side price, (lines side).queue price = fifo arena queues side price

/-- The empty lines list empty queues. -/
theorem Recorded.new (capacity : UInt32) :
    Recorded (Arena.new capacity) (fun _ _ => []) ReferenceBook.empty := fun _ _ => rfl

namespace Recorded

/-! ## What is listed -/

/-- The orders of a line are the resting orders of its side. -/
theorem mem_items (listed : Recorded arena queues lines) (queued : Queued arena queues) :
    order ∈ (lines side).items ↔ ∃ i, arena.resting i = some order ∧ order.side = side := by
  have atPrice : order ∈ (lines side).items ↔ order ∈ fifo arena queues side order.price := by
    rw [← listed side order.price, Priority.mem_queue]
    simp
  rw [atPrice, fifo, List.mem_filterMap]
  constructor
  · rintro ⟨i, member, rests⟩
    obtain ⟨stored, rests', onSide, -⟩ := queued.stored member
    rw [rests] at rests'
    obtain rfl := Option.some.inj rests'
    exact ⟨i, rests, onSide⟩
  · rintro ⟨i, rests, rfl⟩
    exact ⟨i, queued.placed rests, rests⟩

/-- The orders of the lines are the resting orders. -/
theorem mem_orders (listed : Recorded arena queues lines) (queued : Queued arena queues) :
    order ∈ lines.orders ↔ ∃ i, arena.resting i = some order := by
  rw [ReferenceBook.orders, List.mem_append, listed.mem_items queued, listed.mem_items queued]
  constructor
  · rintro (⟨i, rests, -⟩ | ⟨i, rests, -⟩)
    · exact ⟨i, rests⟩
    · exact ⟨i, rests⟩
  · rintro ⟨i, rests⟩
    cases order.side with
    | bid => exact .inl ⟨i, rests, rfl⟩
    | ask => exact .inr ⟨i, rests, rfl⟩

/-- No order is listed twice. -/
theorem nodup (listed : Recorded arena queues lines) (rep : Represents book arena queues) :
    lines.orders.Nodup := by
  have queued := rep.toQueued
  have line : ∀ side, (lines side).items.Nodup := fun side =>
    Priority.nodup_of_queues fun price => by
      rw [listed side price, fifo]
      refine (rep.nodup side price).filterMap fun i j order here there => ?_
      exact rep.slot_unique here there rfl
  refine List.nodup_append.mpr ⟨line .bid, line .ask, fun bid inBids ask inAsks same => ?_⟩
  obtain ⟨-, -, onBids⟩ := (listed.mem_items queued).mp inBids
  obtain ⟨-, -, onAsks⟩ := (listed.mem_items queued).mp inAsks
  rw [same, onAsks] at onBids
  contradiction

/-- No two listed orders have one id. -/
theorem same_order (listed : Recorded arena queues lines) (rep : Represents book arena queues)
    {other : Order} (member : order ∈ lines.orders) (member' : other ∈ lines.orders)
    (same : order.id = other.id) : order = other := by
  obtain ⟨i, rests⟩ := (listed.mem_orders rep.toQueued).mp member
  obtain ⟨j, rests'⟩ := (listed.mem_orders rep.toQueued).mp member'
  obtain rfl := rep.slot_unique rests rests' same
  exact Option.some.inj (rests.symm.trans rests')

/-- The order of a resting id is found in the lines. -/
theorem find?_some (listed : Recorded arena queues lines) (rep : Represents book arena queues)
    (rests : arena.resting index = some order) : lines.find? order.id = some order := by
  have member := (listed.mem_orders rep.toQueued).mpr ⟨index, rests⟩
  rw [ReferenceBook.find?]
  cases found : lines.orders.find? fun other => decide (other.id = order.id) with
  | none =>
    have absent := List.find?_eq_none.mp found order member
    simp at absent
  | some other =>
    have named := List.find?_some found
    exact congrArg some
      (listed.same_order rep (List.mem_of_find?_eq_some found) member (of_decide_eq_true named))

/-- An id that is not indexed is not found in the lines. -/
theorem find?_none (listed : Recorded arena queues lines) (rep : Represents book arena queues)
    (absent : book.lookup id = none) : lines.find? id = none := by
  refine List.find?_eq_none.mpr fun order member named => ?_
  obtain ⟨i, rests⟩ := (listed.mem_orders rep.toQueued).mp member
  exact rep.lookup_none absent rests (of_decide_eq_true named)

/-- The lines know an id exactly when it is indexed. -/
theorem isSome_find? (listed : Recorded arena queues lines) (rep : Represents book arena queues)
    (id : OrderId) : (lines.find? id).isSome = (book.lookup id).isSome := by
  cases held : book.lookup id with
  | none =>
    rw [listed.find?_none rep held]
    rfl
  | some index =>
    obtain ⟨order, rests, rfl⟩ := (rep.indexed id index).mp held
    rw [listed.find?_some rep rests]
    rfl

/-- The total of a level is that of its price in the lines. -/
theorem total_eq (listed : Recorded arena queues lines) (rep : Represents book arena queues) :
    book.getLevelQty side price = lines.total side price := by
  rw [OrderBook.getLevelQty, rep.levels, levelOf, ReferenceBook.total, listed side price, liquidity,
    fifo]
  refine congrArg (fun orders => UInt64.ofNat (List.sum orders)) ?_
  have stored : ∀ i ∈ queues side price, (arena.resting i).isSome := fun i member => by
    obtain ⟨order, rests, -⟩ := rep.stored member
    rw [rests]
    rfl
  generalize queues side price = queue at stored
  induction queue with
  | nil => rfl
  | cons i rest ih =>
    obtain ⟨order, rests⟩ := Option.isSome_iff_exists.mp (stored i List.mem_cons_self)
    rw [List.map_cons, List.filterMap_cons, rests, List.map_cons,
      ih fun j member => stored j (List.mem_cons_of_mem i member),
      Arena.remainingAt_of_resting rests]

/-- A sum over the resting orders is one over the lines. -/
theorem weigh_eq (listed : Recorded arena queues lines) (rep : Represents book arena queues)
    (weight : Order → Nat) : arena.weigh weight = (lines.orders.map weight).sum := by
  let slot : Order → ArenaIndex := fun order => (book.lookup order.id).getD arenaNull
  have held : ∀ order ∈ lines.orders, arena.resting (slot order) = some order := by
    intro order member
    obtain ⟨i, rests⟩ := (listed.mem_orders rep.toQueued).mp member
    have indexed := (rep.indexed order.id i).mpr ⟨order, rests, rfl⟩
    have here : slot order = i := by simp [slot, OrderBook.lookup, indexed]
    rw [here, rests]
  have distinct : (lines.orders.map slot).Nodup :=
    (listed.nodup rep).map_on fun order member other member' same => by
      have rests := held order member
      rw [same, held other member'] at rests
      exact (Option.some.inj rests).symm
  rw [Arena.weigh_slots rep.slots distinct weight, List.map_map]
  · refine congrArg List.sum (List.map_congr_left fun order member => ?_)
    simp [Arena.weightAt, held order member]
  · intro i order rests absent
    refine absurd (List.mem_map.mpr ⟨order, ?_, ?_⟩) absent
    · exact (listed.mem_orders rep.toQueued).mpr ⟨i, rests⟩
    · have member := (listed.mem_orders rep.toQueued).mpr ⟨i, rests⟩
      exact rep.slot_unique (held order member) rests rfl

/-- What rests within a limit is what the line of the side has within it. -/
theorem liquidity_eq (listed : Recorded arena queues lines) (rep : Represents book arena queues)
    (within : UInt64 → Bool) : arena.sumResting side within = lines.liquidity side within := by
  have onSide : ∀ side', ∀ order ∈ (lines side').items, order.side = side' :=
    fun side' order member => ((listed.mem_items rep.toQueued).mp member).elim fun _ rests => rests.2
  have line : ∀ side', ((lines side').items.map fun order =>
      if order.side = side ∧ within order.price = true then order.remaining.toNat else 0).sum =
        if side' = side then lines.liquidity side within else 0 := by
    intro side'
    by_cases same : side' = side
    · subst same
      rw [if_pos rfl, ReferenceBook.liquidity]
      have sides := onSide side'
      generalize (lines side').items = items at sides
      induction items with
      | nil => rfl
      | cons order rest ih =>
        have here := sides order List.mem_cons_self
        rw [List.map_cons, List.sum_cons, List.filter_cons,
          ih fun other member => sides other (List.mem_cons_of_mem order member)]
        by_cases inside : within order.price = true
        · simp [here, inside]
        · simp [inside]
    · rw [if_neg same]
      refine List.sum_eq_zero fun value member => ?_
      obtain ⟨order, inside, rfl⟩ := List.mem_map.mp member
      exact if_neg fun chosen => same ((onSide side' order inside).symm.trans chosen.1)
  rw [Arena.sumResting_eq, listed.weigh_eq rep, ReferenceBook.orders, List.map_append,
    List.sum_append, line, line]
  cases side <;> simp

/-- The first order of a line is the first one at the best price. -/
theorem first?_eq (listed : Recorded arena queues lines) (rep : Represents book arena queues)
    (exact : BestExact book arena) (best : book.best side = some price)
    (first : (queues side price).head? = some index) (rests : arena.resting index = some order) :
    (lines side).first? = some order := by
  have present : ∀ price, (lines side).queue price ≠ [] → queues side price ≠ [] :=
    fun price held none => held (by rw [listed side price, fifo, none]; rfl)
  have top : (lines side).queue price =
      order :: ((queues side price).tail).filterMap arena.resting := by
    rw [listed side price, fifo]
    cases queue : queues side price with
    | nil => simp [queue] at first
    | cons head rest =>
      rw [queue] at first
      obtain rfl := Option.some.inj first
      rw [List.filterMap_cons, rests, List.tail_cons]
  rw [Priority.first?_eq (better_precedence side) (by rw [top]; exact List.cons_ne_nil _ _)
    fun other held => (exact.best rep.toQueued best).2 other (present other held), top]
  rfl

/-- Without a best price the line of the side is empty. -/
theorem first?_none (listed : Recorded arena queues lines) (rep : Represents book arena queues)
    (exact : BestExact book arena) (none : book.best side = none) :
    (lines side).first? = Option.none := by
  refine Priority.first?_eq_none.mpr fun price => ?_
  rw [listed side price, fifo, (exact.tracks rep.toQueued).empty side none price]
  rfl

/-! ## Changes -/

/-- An inserted order joins its line. -/
theorem inserted (listed : Recorded arena queues lines) (queued : Queued arena queues)
    (inserted : Inserted book arena queues order index book' arena') :
    Recorded arena' (queues.append order index) (lines.insert order) := by
  intro side price
  rw [inserted.fifo_eq queued, FifoBook.append, ReferenceBook.insert]
  by_cases same : side = order.side
  · rw [if_pos same, Priority.queue_insert, listed side price]
    by_cases here : order.price = price
    · rw [if_pos here, if_pos ⟨same, here.symm⟩]
    · rw [if_neg here, if_neg fun both => here both.2.symm]
  · rw [if_neg same, if_neg fun both => same both.1, listed side price]

/-- A removed order leaves its line. -/
theorem removed (listed : Recorded arena queues lines) (rep : Represents book arena queues)
    (removed : Removed book arena queues order index book' arena') :
    Recorded arena' (queues.delete order index) (lines.delete order.id) := by
  intro side price
  rw [removed.fifo_eq rep, FifoBook.delete, ReferenceBook.delete, Priority.queue_keep,
    listed side price]

/-- An order that stays keeps its place when more of it is filled. -/
theorem taken {delta : UInt64} (listed : Recorded arena queues lines)
    (rep : Represents book arena queues)
    (taken : Taken book arena queues order index delta book' arena') :
    Recorded arena' queues (lines.fill order.id delta) := by
  intro side price
  rw [taken.fifo_eq rep, FifoBook.fill, ReferenceBook.fill, Priority.queue_change,
    listed side price]

end Recorded

end MatchX
