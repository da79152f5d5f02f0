import MatchX.Book.Represents

/-!
# What the book operations do

One specification for each operation: what it does to the resting orders, to the queues, to
the cached best prices and to the depth indices. `insert_order` appends to the queue of a
level, `remove_order` deletes one element of a queue, and filling or reducing an order lowers
what remains of one element and leaves the queues as they are.
-/

namespace MatchX

open MatchX.Support

variable {ticks : UInt32} {book book' : OrderBook ticks} {arena arena' : Arena} {queues : Queues}
  {order : Order} {index : ArenaIndex}

/-- The order that `insert_order` puts in the arena. -/
def Order.submitted (id : OrderId) (side : Side) (price qty : UInt64) (orderType : OrderType)
    (visibleQty : Option UInt64) (stpGroup : Option UInt32) : Order where
  id := id
  price := price
  quantity := qty
  filled := 0
  timestamp := 0
  visibleQuantity := visibleQty.getD qty
  stpGroup := stpGroup.getD stpNone
  prev := arenaNull
  next := arenaNull
  side := side
  orderType := orderType
  timeInForce := .gtc

/-- The queues with an order appended at the tail of its level. -/
def Queues.append (queues : Queues) (order : Order) (index : ArenaIndex) : Queues :=
  queues.set order.side order.price (queues order.side order.price ++ [index])

/-- The queues with one slot deleted from the level of its order. -/
def Queues.delete (queues : Queues) (order : Order) (index : ArenaIndex) : Queues :=
  queues.set order.side order.price ((queues order.side order.price).erase index)

/-- What an accepted `insert_order` does. -/
structure Inserted (book : OrderBook ticks) (arena : Arena) (queues : Queues) (order : Order)
    (index : ArenaIndex) (book' : OrderBook ticks) (arena' : Arena) : Prop where
  /-- The id was not resting. -/
  unused : book.lookup order.id = none
  /-- The slot was free. -/
  fresh : arena.resting index = none
  /-- The order rests in the slot, every other slot is kept. -/
  resting : ∀ j, arena'.resting j = if j = index then some order else arena.resting j
  /-- The order is the last one of its level. -/
  represents : Represents book' arena' (queues.append order index)
  /-- The window is kept. -/
  base : book'.denseBasePrice = book.denseBasePrice
  /-- The best price of the side is the order's when that is better. -/
  best : ∀ side, book'.best side =
    if side = order.side ∧ (book.best side).all (OrderBook.better order.side order.price) = true
    then some order.price else book.best side
  /-- The order's quantity is added to the depth of its price. -/
  depth : ∀ side,
    book'.depth side = (book.depthAdd order.side order.price order.quantity).depth side

/-- What `remove_order` does. -/
structure Removed (book : OrderBook ticks) (arena : Arena) (queues : Queues) (order : Order)
    (index : ArenaIndex) (book' : OrderBook ticks) (arena' : Arena) : Prop where
  /-- The slot rested the order. -/
  found : arena.resting index = some order
  /-- The slot is free, every other slot is kept. -/
  resting : ∀ j, arena'.resting j = if j = index then none else arena.resting j
  /-- The slot has left its queue. -/
  represents : Represents book' arena' (queues.delete order index)
  /-- The window is kept. -/
  base : book'.denseBasePrice = book.denseBasePrice
  /-- A best price whose level is left without orders is found anew. -/
  best : ∀ side, book'.best side =
    if side = order.side ∧ book.best side = some order.price ∧
      queues.delete order index order.side order.price = [] then book'.scanBest side
    else book.best side
  /-- What remained is taken from the depth of the order's price. -/
  depth : ∃ lowered, book.depthRemove order.side order.price order.remaining = .ok lowered ∧
    ∀ side, book'.depth side = lowered.depth side
  /-- The slot is the first free one. -/
  freeHead : arena'.freeHead = index

/-- What taking a quantity from an order that stays does, the depth indices aside. -/
structure Taken (book : OrderBook ticks) (arena : Arena) (queues : Queues) (order : Order)
    (index : ArenaIndex) (delta : UInt64) (book' : OrderBook ticks) (arena' : Arena) : Prop where
  /-- The slot rested the order. -/
  found : arena.resting index = some order
  /-- Less of the order remains, every other slot is kept. -/
  resting : ∀ j, arena'.resting j =
    if j = index then some (order.fill delta) else arena.resting j
  /-- The queues are kept. -/
  represents : Represents book' arena' queues
  /-- The window is kept. -/
  base : book'.denseBasePrice = book.denseBasePrice
  /-- The best prices are kept. -/
  best : ∀ side, book'.best side = book.best side
  /-- The free slots are kept. -/
  freeHead : arena'.freeHead = arena.freeHead

/-! ## Inserting -/

/-- The slots of the queues rest what they did when another slot is written. -/
theorem Queued.resting_kept {written : Option Order} (queued : Queued arena queues)
    (fresh : arena.resting index = none)
    (rests : ∀ j, arena'.resting j = if j = index then written else arena.resting j)
    {side : Side} {price : UInt64} :
    ∀ i ∈ queues side price, arena'.resting i = arena.resting i := by
  intro i member
  obtain ⟨stored, resting, -⟩ := queued.stored member
  rw [rests, if_neg]
  rintro rfl
  rw [fresh] at resting
  contradiction

/-- A book whose level, occupancy, sparse map and index follow an appended order represents
the longer queue. -/
theorem Represents.push (rep : Represents book arena queues)
    (queued : Queued arena' (queues.append order index)) (fresh : arena.resting index = none)
    (unused : book.lookup order.id = none)
    (rests : ∀ j, arena'.resting j = if j = index then some order else arena.resting j)
    (base : book'.denseBasePrice = book.denseBasePrice)
    (indexed : book'.orderIndex = book.orderIndex.insert order.id index)
    (levels : ∀ side price, book'.level side price =
      if side = order.side ∧ price = order.price then
        levelOf arena' (queues order.side order.price ++ [index]) else book.level side price)
    (occupied : ∀ side i, book'.isOccupied side i = true ↔
      (side = order.side ∧ ∃ slot, book.denseIndex order.price = some slot ∧ slot.val = i) ∨
        book.isOccupied side i = true)
    (sparse : ∀ side price, book'.inSparse side price = true ↔
      (side = order.side ∧ price = order.price ∧ book.denseIndex order.price = none) ∨
        book.inSparse side price = true) :
    Represents book' arena' (queues.append order index) where
  toQueued := queued
  levels side price := by
    rw [levels, Queues.append, Queues.set]
    split
    · rfl
    · rw [rep.levels]
      exact (levelOf_congr (rep.resting_kept fresh rests)).symm
  indexed id i := by
    simp only [indexed, Std.ExtTreeMap.getElem?_insert, Std.compare_eq_iff_eq, rests]
    by_cases same : order.id = id
    · subst same
      simp only [if_true, Option.some.injEq]
      constructor
      · rintro rfl
        exact ⟨order, if_pos rfl, rfl⟩
      · rintro ⟨other, resting, same⟩
        split at resting
        · rename_i here
          exact here.symm
        · exact absurd same (rep.lookup_none unused resting)
    · rw [if_neg same, rep.indexed]
      by_cases here : i = index
      · subst here
        simp [fresh, same]
      · simp [here]
  occupied side i := by
    rw [occupied, rep.occupied]
    simp only [OrderBook.denseIndex_congr base, Queues.append, Queues.set]
    constructor
    · rintro (⟨rfl, slot, inside, here⟩ | ⟨price, slot, inside, here, present⟩)
      · exact ⟨order.price, slot, inside, here, by simp⟩
      · refine ⟨price, slot, inside, here, ?_⟩
        split
        · simp
        · exact present
    · rintro ⟨price, slot, inside, here, present⟩
      split at present
      · rename_i same
        obtain ⟨rfl, rfl⟩ := same
        exact .inl ⟨rfl, slot, inside, here⟩
      · exact .inr ⟨price, slot, inside, here, present⟩
  sparse side price := by
    rw [sparse, rep.sparse]
    simp only [OrderBook.denseIndex_congr base, Queues.append, Queues.set]
    constructor
    · rintro (⟨rfl, rfl, outside⟩ | ⟨outside, present⟩)
      · exact ⟨outside, by simp⟩
      · refine ⟨outside, ?_⟩
        split
        · simp
        · exact present
    · rintro ⟨outside, present⟩
      split at present
      · rename_i same
        obtain ⟨rfl, rfl⟩ := same
        exact .inl ⟨rfl, rfl, outside⟩
      · exact .inr ⟨outside, present⟩

/-- The level of a queue with one more order. -/
theorem levelOf_append {queue : List ArenaIndex} (rests : arena'.resting index = some order)
    (kept : ∀ i ∈ queue, arena'.resting i = arena.resting i) :
    levelOf arena' (queue ++ [index]) = {
      totalQuantity := (levelOf arena queue).totalQuantity + order.remaining
      orderCount := (levelOf arena queue).orderCount + 1
      head := (levelOf arena queue).head.or (some index)
      tail := some index } := by
  have total : UInt64.ofNat (liquidity arena' (queue ++ [index])) =
      UInt64.ofNat (liquidity arena queue) + order.remaining := by
    rw [liquidity_append, liquidity_congr kept, Arena.remainingAt_of_resting rests,
      UInt64.ofNat_add, UInt64.ofNat_toNat]
  have count : UInt32.ofNat (queue ++ [index]).length = UInt32.ofNat queue.length + 1 := by
    rw [List.length_append, List.length_singleton, UInt32.ofNat_add]
    rfl
  simp only [levelOf, total, count, List.head?_append, List.head?_cons, List.getLast?_concat]

namespace OrderBook

variable {id : OrderId} {side side' : Side} {price price' qty : UInt64} {level : PriceLevel}
  {i : Nat}

/-- The step of `insert_order` that marks the window slot of a price. -/
def mark (book : OrderBook ticks) (side : Side) (price : UInt64) : OrderBook ticks :=
  match book.denseIndex price with
  | some i => book.setOccupied side i
  | none => book

/-- Marking a slot changes the occupancy only. -/
theorem mark_kept (book : OrderBook ticks) (side : Side) (price : UInt64) :
    (book.mark side price).denseBasePrice = book.denseBasePrice ∧
    (book.mark side price).orderIndex = book.orderIndex ∧
    (∀ side' price', (book.mark side price).level side' price' = book.level side' price') ∧
    (∀ side', (book.mark side price).best side' = book.best side') ∧
    (∀ side' price', (book.mark side price).inSparse side' price' =
      book.inSparse side' price') ∧
    ∀ side', (book.mark side price).depth side' = book.depth side' := by
  unfold mark
  cases book.denseIndex price <;> simp

/-- The slot of the price is marked. -/
theorem isOccupied_mark : (book.mark side price).isOccupied side' i = true ↔
    (side' = side ∧ ∃ slot, book.denseIndex price = some slot ∧ slot.val = i) ∨
      book.isOccupied side' i = true := by
  unfold mark
  cases book.denseIndex price with
  | none => simp
  | some slot => simp [isOccupied_setOccupied, @eq_comm _ i]

/-- The step of `insert_order` that improves the best price. -/
def improve (book : OrderBook ticks) (side : Side) (price : UInt64) : OrderBook ticks :=
  match book.best side with
  | none => book.setBest side (some price)
  | some top => if better side price top then book.setBest side (some price) else book

/-- Improving the best price changes nothing else. -/
theorem improve_kept (book : OrderBook ticks) (side : Side) (price : UInt64) :
    (book.improve side price).denseBasePrice = book.denseBasePrice ∧
    (book.improve side price).orderIndex = book.orderIndex ∧
    (∀ side' price', (book.improve side price).level side' price' = book.level side' price') ∧
    (∀ side' i, (book.improve side price).isOccupied side' i = book.isOccupied side' i) ∧
    (∀ side' price', (book.improve side price).inSparse side' price' =
      book.inSparse side' price') ∧
    ∀ side', (book.improve side price).depth side' = book.depth side' := by
  unfold improve
  cases book.best side with
  | none => simp
  | some top =>
    dsimp only
    split <;> simp

/-- The best price is the new one where that is better than the old one. -/
theorem best_improve : (book.improve side price).best side' =
    if side' = side ∧ (book.best side').all (better side price) = true then some price
    else book.best side' := by
  unfold improve
  by_cases same : side' = side
  · subst same
    cases top : book.best side' with
    | none => simp [best_setBest]
    | some top' =>
      dsimp only
      split <;> simp_all [best_setBest]
  · cases book.best side with
    | none => simp [best_setBest, same]
    | some top =>
      dsimp only
      split <;> simp [best_setBest, same]

/-- The containers of the book after an order is linked into its level. -/
def place (book : OrderBook ticks) (id : OrderId) (side : Side) (price qty : UInt64)
    (index : ArenaIndex) (level : PriceLevel) : OrderBook ticks :=
  let filed := { book with orderIndex := book.orderIndex.insert id index }
  (((filed.setLevel side price level).depthAdd side price qty).mark side price).improve side price

/-- What the book shows after an order is placed. -/
theorem place_views (book : OrderBook ticks) (id : OrderId) (side : Side) (price qty : UInt64)
    (index : ArenaIndex) (level : PriceLevel) :
    let placed := book.place id side price qty index level
    placed.denseBasePrice = book.denseBasePrice ∧
    placed.orderIndex = book.orderIndex.insert id index ∧
    (∀ side' price', placed.level side' price' =
      if side' = side ∧ price' = price then level else book.level side' price') ∧
    (∀ side' i, placed.isOccupied side' i = true ↔
      (side' = side ∧ ∃ slot, book.denseIndex price = some slot ∧ slot.val = i) ∨
        book.isOccupied side' i = true) ∧
    (∀ side' price', placed.inSparse side' price' = true ↔
      (side' = side ∧ price' = price ∧ book.denseIndex price = none) ∨
        book.inSparse side' price' = true) ∧
    (∀ side', placed.best side' =
      if side' = side ∧ (book.best side').all (better side price) = true then some price
      else book.best side') ∧
    ∀ side', placed.depth side' = (book.depthAdd side price qty).depth side' := by
  let filed := { book with orderIndex := book.orderIndex.insert id index }
  let raised := (filed.setLevel side price level).depthAdd side price qty
  obtain ⟨base₁, index₁, levels₁, best₁, sparse₁, depth₁⟩ := mark_kept raised side price
  obtain ⟨base₂, index₂, levels₂, occupied₂, sparse₂, depth₂⟩ :=
    improve_kept (raised.mark side price) side price
  have window : ∀ price', raised.denseIndex price' = book.denseIndex price' := fun price' => by
    simp only [raised, denseIndex_depthAdd, denseIndex_setLevel]
    rfl
  refine ⟨?_, ?_, fun side' price' => ?_, fun side' i => ?_, fun side' price' => ?_,
    fun side' => ?_, fun side' => ?_⟩
  · exact base₂.trans (base₁.trans (by simp [raised, filed]))
  · exact index₂.trans (index₁.trans (by simp [raised, filed]))
  · refine (levels₂ side' price').trans ((levels₁ side' price').trans ?_)
    rw [level_depthAdd, level_setLevel]
    cases side' <;> rfl
  · rw [place, occupied₂, isOccupied_mark, window]
    rw [isOccupied_depthAdd, isOccupied_setLevel]
    cases side' <;> rfl
  · rw [place, sparse₂, sparse₁, inSparse_depthAdd, inSparse_setLevel, Bool.or_eq_true,
      decide_eq_true_iff]
    cases side' <;> rfl
  · have top : (raised.mark side price).best side' = book.best side' := by
      rw [best₁, best_depthAdd, best_setLevel]
      cases side' <;> rfl
    rw [place, best_improve, top]
  · rw [place, depth₂, depth₁]
    refine depthAdd_congr (by simp [filed]) fun side => ?_
    rw [depth_setLevel]
    cases side <;> rfl

end OrderBook

/-- A book in which an order is placed with the level of the longer queue represents the longer
queue. -/
theorem Represents.place {level : PriceLevel} (rep : Represents book arena queues)
    (queued : Queued arena' (queues.append order index)) (fresh : arena.resting index = none)
    (unused : book.lookup order.id = none)
    (rests : ∀ j, arena'.resting j = if j = index then some order else arena.resting j)
    (summary : level = levelOf arena' (queues order.side order.price ++ [index])) :
    Inserted book arena queues order index
      (book.place order.id order.side order.price order.quantity index level) arena' := by
  subst summary
  obtain ⟨base, indexed, levels, occupied, sparse, best, depth⟩ :=
    book.place_views order.id order.side order.price order.quantity index
      (levelOf arena' (queues order.side order.price ++ [index]))
  exact {
    unused, fresh, base, best, depth
    resting := rests
    represents := rep.push queued fresh unused rests base indexed levels occupied sparse }

/-- Linking a new order behind the last order of its level succeeds, and appends it. -/
theorem Queued.link {arena₁ : Arena} (queued : Queued arena queues)
    (sound : order.filled ≤ order.quantity)
    (taken : arena.alloc order = some (index, arena₁)) :
    ∃ arena₂ arena',
      arena₁.modify index (fun new => { new with
        prev := (queues order.side order.price).getLast?.getD arenaNull, next := arenaNull }) =
          .ok arena₂ ∧
      (match (queues order.side order.price).getLast? with
        | none => arena' = arena₂
        | some last =>
          arena₂.modify last (fun order => { order with next := index }) = .ok arena') ∧
      (∀ j, arena'.resting j = if j = index then some order.unlinked else arena.resting j) ∧
      Queued arena' (queues.append order index) := by
  obtain ⟨free, -, -, seen₁, inv₁⟩ := Arena.alloc_some queued.slots taken
  obtain ⟨arena₂, write₂, seen₂, -, keeps₂⟩ := Arena.modify_ok
    (fun new => { new with
      prev := (queues order.side order.price).getLast?.getD arenaNull, next := arenaNull })
    (show arena₁.find index = some order by rw [seen₁, if_pos rfl])
  cases last : (queues order.side order.price).getLast? with
  | none =>
    refine ⟨arena₂, arena₂, by simpa only [last] using write₂, rfl,
      queued.push free (keeps₂ inv₁) sound fun j => ?_⟩
    rw [seen₂, seen₁, List.getLastD_eq_getLast?, last]
    split <;> simp
  | some tail =>
    have member := List.mem_of_getLast? last
    obtain ⟨node, stored⟩ := linked_find (queued.linked _ _) member
    have other : tail ≠ index := by
      rintro rfl
      rw [free] at stored
      contradiction
    obtain ⟨arena₃, write₃, seen₃, -, keeps₃⟩ := Arena.modify_ok
      (fun order => { order with next := index })
      (show arena₂.find tail = some node by rw [seen₂, seen₁, if_neg other, if_neg other, stored])
    refine ⟨arena₂, arena₃, by simpa only [last] using write₂, write₃,
      queued.push free (keeps₃ (keeps₂ inv₁)) sound fun j => ?_⟩
    rw [seen₃, seen₂, seen₁, List.getLastD_eq_getLast?, last]
    by_cases here : j = tail
    · subst here
      simp [other, stored]
    · simp only [if_neg here, Option.some.injEq, if_neg (Ne.symm here)]
      split <;> simp

/-- `insert_order` for an unused id and a free slot: link the order, then place it. -/
theorem insertOrder_linked {arena₁ arena₂ arena' : Arena} {id : OrderId} {side : Side}
    {price qty : UInt64} {orderType : OrderType} {visibleQty : Option UInt64}
    {stpGroup : Option UInt32} (unused : book.orderIndex[id]? = none)
    (taken : arena.alloc (Order.submitted id side price qty orderType visibleQty stpGroup) =
      some (index, arena₁))
    (written : arena₁.modify index (fun order => { order with
      prev := (book.level side price).tail.getD arenaNull, next := arenaNull }) = .ok arena₂)
    (linked : match (book.level side price).tail with
      | none => arena' = arena₂
      | some last =>
        arena₂.modify last (fun order => { order with next := index }) = .ok arena') :
    book.insertOrder arena id side price qty orderType visibleQty stpGroup =
      .ok (some index, book.place id side price qty index {
        totalQuantity := (book.level side price).totalQuantity + qty
        orderCount := (book.level side price).orderCount + 1
        head := if (book.level side price).tail = none then some index
          else (book.level side price).head
        tail := some index }, arena') := by
  have written' : arena₁.modify index (fun order => { order with
      prev := (({ book with orderIndex := book.orderIndex.insert id index }).level side
        price).tail.getD arenaNull, next := arenaNull }) = .ok arena₂ := written
  unfold OrderBook.insertOrder
  simp only [unused]
  unfold Order.submitted at taken
  simp only [taken, bind, Except.bind, pure, Except.pure]
  rw [written']
  have level : ({ book with orderIndex := book.orderIndex.insert id index }).level side price =
    book.level side price := rfl
  cases tail : (book.level side price).tail with
  | none =>
    rw [tail] at linked
    subst linked
    rw [level, tail]
    rfl
  | some last =>
    rw [tail] at linked
    simp only at linked
    rw [level, tail]
    simp only [linked]
    rfl

/-- `insert_order` refuses a resting id and a full arena, and changes nothing then; else it
inserts the order. It never faults. -/
theorem insertOrder_spec (rep : Represents book arena queues) (id : OrderId) (side : Side)
    (price qty : UInt64) (orderType : OrderType) (visibleQty : Option UInt64)
    (stpGroup : Option UInt32) :
    (book.insertOrder arena id side price qty orderType visibleQty stpGroup =
        .ok (none, book, arena) ∧
      (book.lookup id ≠ none ∨ arena.freeHead = freeListEnd)) ∨
    ∃ index book' arena',
      book.insertOrder arena id side price qty orderType visibleQty stpGroup =
        .ok (some index, book', arena') ∧ arena.freeHead ≠ freeListEnd ∧
      Inserted book arena queues
        (Order.submitted id side price qty orderType visibleQty stpGroup) index book' arena' := by
  let order := Order.submitted id side price qty orderType visibleQty stpGroup
  have sound : order.filled ≤ order.quantity := by simp [order, Order.submitted]
  have whole : order.remaining = qty := by
    simp [order, Order.remaining, Order.submitted, saturatingSub]
  cases duplicate : book.orderIndex[id]? with
  | some slot =>
    refine .inl ⟨?_, .inl (by simp [OrderBook.lookup, duplicate])⟩
    simp [OrderBook.insertOrder, duplicate, pure, Except.pure]
  | none =>
    cases taken : arena.alloc order with
    | none =>
      refine .inl ⟨?_, .inr (Arena.alloc_none.mp taken)⟩
      simp only [order, Order.submitted] at taken
      simp [OrderBook.insertOrder, duplicate, taken, pure, Except.pure]
    | some result =>
      obtain ⟨index, arena₁⟩ := result
      obtain ⟨free, proper, first, -⟩ := Arena.alloc_some rep.slots taken
      obtain ⟨arena₂, arena', write₂, write₃, rests, queued⟩ := rep.toQueued.link sound taken
      have vacant := Arena.resting_eq_none.mpr free
      have level : book.level side price = levelOf arena (queues side price) := rep.levels _ _
      have filled : levelOf arena' (queues side price ++ [index]) = _ :=
        levelOf_append (by rw [rests, if_pos rfl]) (rep.resting_kept vacant rests)
      have tail : (book.level order.side order.price).tail =
        (queues order.side order.price).getLast? := congrArg PriceLevel.tail level
      rw [← tail] at write₂ write₃
      refine .inr ⟨index, _, arena', insertOrder_linked duplicate taken write₂ write₃,
        first ▸ proper, rep.place queued vacant duplicate rests ?_⟩
      change _ = levelOf arena' (queues side price ++ [index])
      rw [filled, level, Order.unlinked_remaining, whole]
      cases queues side price <;> simp [levelOf]

/-! ## Removing -/

/-- A book whose level, occupancy, sparse map and index follow a deleted order represents the
shorter queue. -/
theorem Represents.drop (rep : Represents book arena queues)
    (queued : Queued arena' (queues.delete order index))
    (found : arena.resting index = some order)
    (rests : ∀ j, arena'.resting j = if j = index then none else arena.resting j)
    (base : book'.denseBasePrice = book.denseBasePrice)
    (indexed : book'.orderIndex = book.orderIndex.erase order.id)
    (levels : ∀ side price, book'.level side price =
      if side = order.side ∧ price = order.price then
        levelOf arena' ((queues order.side order.price).erase index)
      else book.level side price)
    (occupied : ∀ side i, book'.isOccupied side i = true ↔ book.isOccupied side i = true ∧
      ¬(side = order.side ∧ (queues order.side order.price).erase index = [] ∧
        ∃ slot, book.denseIndex order.price = some slot ∧ slot.val = i))
    (sparse : ∀ side price, book'.inSparse side price = true ↔
      book.inSparse side price = true ∧
      ¬(side = order.side ∧ (queues order.side order.price).erase index = [] ∧
        price = order.price ∧ book.denseIndex order.price = none)) :
    Represents book' arena' (queues.delete order index) where
  toQueued := queued
  levels side price := by
    rw [levels, Queues.delete, Queues.set]
    split
    · rfl
    · rename_i apart
      rw [rep.levels]
      refine (levelOf_congr fun i member => ?_).symm
      rw [rests, if_neg]
      rintro rfl
      exact apart (rep.same_queue (rep.placed found) member)
  indexed id i := by
    simp only [indexed, Std.ExtTreeMap.getElem?_erase, Std.compare_eq_iff_eq, rests]
    by_cases same : order.id = id
    · subst same
      simp only [if_true, reduceCtorEq, false_iff]
      rintro ⟨other, resting, same⟩
      split at resting
      · contradiction
      · rename_i elsewhere
        exact elsewhere (rep.slot_unique resting found same)
    · rw [if_neg same, rep.indexed]
      by_cases here : i = index
      · subst here
        simp [found, same]
      · simp [here]
  occupied side i := by
    rw [occupied, rep.occupied]
    simp only [OrderBook.denseIndex_congr base, Queues.delete, Queues.set]
    constructor
    · rintro ⟨⟨price, slot, inside, here, present⟩, kept⟩
      refine ⟨price, slot, inside, here, ?_⟩
      split
      · rename_i same
        obtain ⟨rfl, rfl⟩ := same
        exact fun empty => kept ⟨rfl, empty, slot, inside, here⟩
      · exact present
    · rintro ⟨price, slot, inside, here, present⟩
      refine ⟨⟨price, slot, inside, here, ?_⟩, ?_⟩
      · split at present
        · rename_i same
          obtain ⟨rfl, rfl⟩ := same
          exact List.ne_nil_of_mem (rep.placed found)
        · exact present
      · rintro ⟨rfl, empty, slot', inside', here'⟩
        have same : price = order.price :=
          OrderBook.denseIndex_inj (Fin.ext (here.trans here'.symm) ▸ inside) inside'
        exact present (by simpa [same] using empty)
  sparse side price := by
    rw [sparse, rep.sparse]
    simp only [OrderBook.denseIndex_congr base, Queues.delete, Queues.set]
    constructor
    · rintro ⟨⟨outside, present⟩, kept⟩
      refine ⟨outside, ?_⟩
      split
      · rename_i same
        obtain ⟨rfl, rfl⟩ := same
        exact fun empty => kept ⟨rfl, empty, rfl, outside⟩
      · exact present
    · rintro ⟨outside, present⟩
      refine ⟨⟨outside, ?_⟩, ?_⟩
      · split at present
        · rename_i same
          obtain ⟨rfl, rfl⟩ := same
          exact List.ne_nil_of_mem (rep.placed found)
        · exact present
      · rintro ⟨rfl, empty, rfl, -⟩
        exact present (by simpa using empty)

/-- The level of a queue with one order less. -/
theorem levelOf_erase {queue : List ArenaIndex} (nodup : queue.Nodup) (member : index ∈ queue)
    (found : arena.resting index = some order)
    (kept : ∀ i ∈ queue, i ≠ index → arena'.resting i = arena.resting i) :
    levelOf arena' (queue.erase index) = {
      totalQuantity := (levelOf arena queue).totalQuantity - order.remaining
      orderCount := (levelOf arena queue).orderCount - 1
      head := (queue.erase index).head?
      tail := (queue.erase index).getLast? } := by
  have same : liquidity arena' (queue.erase index) = liquidity arena (queue.erase index) :=
    liquidity_congr fun i inside => by
      obtain ⟨other, inside⟩ := (List.Nodup.mem_erase_iff nodup).mp inside
      exact kept i inside other
  have total : UInt64.ofNat (liquidity arena' (queue.erase index)) =
      UInt64.ofNat (liquidity arena queue) - order.remaining := by
    rw [liquidity_erase member, Arena.remainingAt_of_resting found, UInt64.ofNat_add,
      UInt64.ofNat_toNat, same, UInt64.add_comm]
    exact (UInt64.add_sub_cancel _ _).symm
  have length : queue.length = (queue.erase index).length + 1 := by
    rw [List.length_erase_of_mem member]
    have := List.length_pos_of_mem member
    omega
  have count : UInt32.ofNat (queue.erase index).length = UInt32.ofNat queue.length - 1 := by
    rw [length, UInt32.ofNat_add]
    exact (UInt32.add_sub_cancel _ _).symm
  simp only [levelOf, total, count]

/-- Unlinking a resting order and freeing its slot succeeds, and deletes it. -/
theorem Queued.detach (queued : Queued arena queues) (found : arena.find index = some order) :
    ∃ arena₁ arena₂ arena',
      (if order.prev ≠ arenaNull then
        arena.modify order.prev (fun node => { node with next := order.next }) = .ok arena₁
        else arena₁ = arena) ∧
      (if order.next ≠ arenaNull then
        arena₁.modify order.next (fun node => { node with prev := order.prev }) = .ok arena₂
        else arena₂ = arena₁) ∧
      arena₂.free index = .ok arena' ∧ arena'.freeHead = index ∧
      (∀ j, arena'.resting j = if j = index then none else arena.resting j) ∧
      Queued arena' (queues.delete order index) := by
  obtain ⟨front, back, parts, prev, next⟩ := queued.cut found
  have nodup := queued.nodup order.side order.price
  rw [parts] at nodup
  obtain ⟨-, restNodup, apart⟩ := List.nodup_append.mp nodup
  have stored : ∀ j ∈ front ++ back, ∃ node, arena.find j = some node := fun j member =>
    linked_find (queued.linked order.side order.price) <| by
      rw [parts]
      rcases List.mem_append.mp member with inFront | inBack
      · exact List.mem_append_left _ inFront
      · exact List.mem_append_right _ (List.mem_cons_of_mem _ inBack)
  have prevStored : order.prev ≠ arenaNull → order.prev ∈ front := fun proper => by
    rw [prev, List.getLastD_eq_getLast?] at proper ⊢
    cases last : front.getLast? with
    | none => simp [last] at proper
    | some tail => exact List.mem_of_getLast? last
  have nextStored : order.next ≠ arenaNull → order.next ∈ back := fun proper => by
    rw [next, List.headD_eq_head?_getD] at proper ⊢
    cases first : back.head? with
    | none => simp [first] at proper
    | some head => exact List.mem_of_mem_head? first
  have prevApart : order.prev ≠ arenaNull → order.prev ≠ index := fun proper =>
    apart _ (prevStored proper) _ List.mem_cons_self
  have nextApart : order.next ≠ arenaNull → order.next ≠ index := fun proper same =>
    (List.nodup_cons.mp restNodup).1 (same ▸ nextStored proper)
  obtain ⟨arena₁, write₁, inv₁, seen₁⟩ := Arena.modify_unless_null queued.slots
    (fun node => { node with next := order.next })
    fun proper => stored _ (List.mem_append_left _ (prevStored proper))
  obtain ⟨arena₂, write₂, inv₂, seen₂⟩ := Arena.modify_unless_null inv₁
    (fun node => { node with prev := order.prev }) fun proper => by
      obtain ⟨node, found₂⟩ := stored _ (List.mem_append_right _ (nextStored proper))
      exact ⟨_, (seen₁ _).trans (by rw [found₂]; rfl)⟩
  have seen : ∀ j, arena₂.find j = (arena.find j).map fun node => { node with
      prev := if order.next = j then order.prev else node.prev
      next := if order.prev = j then order.next else node.next } := by
    intro j
    rw [seen₂, seen₁, Option.map_map]
    congr 1
    funext node
    dsimp only [Function.comp]
    split <;> split <;> rfl
  have indexPrev : order.prev ≠ index := fun same => by
    by_cases proper : order.prev ≠ arenaNull
    · exact prevApart proper same
    · exact Arena.find_ne_null queued.slots found (same ▸ not_not.mp proper)
  have indexNext : order.next ≠ index := fun same => by
    by_cases proper : order.next ≠ arenaNull
    · exact nextApart proper same
    · exact Arena.find_ne_null queued.slots found (same ▸ not_not.mp proper)
  have still : arena₂.find index = some order := by
    rw [seen, found, Option.map_some, if_neg indexPrev, if_neg indexNext]
  obtain ⟨arena', freed, seen', head', inv'⟩ := Arena.free_ok inv₂ still
  refine ⟨arena₁, arena₂, arena', write₁, write₂, freed, head',
    queued.unlink found inv' fun j => ?_⟩
  rw [seen', seen]

namespace OrderBook

variable {side side' : Side} {price price' : UInt64} {i : Nat}

/-- The last step of `remove_order`: a level left empty is pruned and the best price that was
its price is found anew. -/
def settle (book : OrderBook ticks) (side : Side) (price : UInt64) : OrderBook ticks :=
  if book.levelIsEmpty side price then
    (book.pruneIfSparseEmpty side price).refreshBestAfterLevelEmpty side price
  else book

/-- The best price found anew depends on the occupancy and the sparse maps only. -/
theorem scanBest_setBest {top : Option UInt64} :
    (book.setBest side top).scanBest side' = book.scanBest side' := by
  cases side <;> cases side' <;> rfl

/-- The first step of a refresh clears the window slot of a price. -/
def unmark (book : OrderBook ticks) (side : Side) (price : UInt64) : OrderBook ticks :=
  match book.denseIndex price with
  | some i => book.clearOccupied side i
  | none => book

/-- Clearing a slot changes the occupancy only. -/
theorem unmark_kept (book : OrderBook ticks) (side : Side) (price : UInt64) :
    (book.unmark side price).denseBasePrice = book.denseBasePrice ∧
    (book.unmark side price).orderIndex = book.orderIndex ∧
    (∀ side' price', (book.unmark side price).level side' price' = book.level side' price') ∧
    (∀ side', (book.unmark side price).best side' = book.best side') ∧
    (∀ side' price', (book.unmark side price).inSparse side' price' =
      book.inSparse side' price') ∧
    ∀ side', (book.unmark side price).depth side' = book.depth side' := by
  unfold unmark
  cases book.denseIndex price <;> simp

/-- The slot of the price is cleared. -/
theorem isOccupied_unmark : (book.unmark side price).isOccupied side' i = true ↔
    book.isOccupied side' i = true ∧
      ¬(side' = side ∧ ∃ slot, book.denseIndex price = some slot ∧ slot.val = i) := by
  unfold unmark
  cases book.denseIndex price with
  | none => simp
  | some slot =>
    rw [isOccupied_clearOccupied, Bool.and_eq_true, Bool.not_eq_true', decide_eq_false_iff_not,
      and_comm]
    simp [@eq_comm _ i]

/-- What the book shows after the level of a price, written out, is settled. -/
theorem settle_views (book : OrderBook ticks) (side : Side) (price : UInt64)
    (empty : book.levelIsEmpty side price = true → book.level side price = PriceLevel.empty) :
    let settled := book.settle side price
    settled.denseBasePrice = book.denseBasePrice ∧
    settled.orderIndex = book.orderIndex ∧
    (∀ side' price', settled.level side' price' = book.level side' price') ∧
    (∀ side' i, settled.isOccupied side' i = true ↔ book.isOccupied side' i = true ∧
      ¬(side' = side ∧ book.levelIsEmpty side price = true ∧
        ∃ slot, book.denseIndex price = some slot ∧ slot.val = i)) ∧
    (∀ side' price', settled.inSparse side' price' = true ↔
      book.inSparse side' price' = true ∧ ¬(side' = side ∧ book.levelIsEmpty side price = true ∧
        price' = price ∧ book.denseIndex price = none)) ∧
    (∀ side', settled.best side' =
      if side' = side ∧ book.best side = some price ∧ book.levelIsEmpty side price = true
      then settled.scanBest side' else book.best side') ∧
    ∀ side', settled.depth side' = book.depth side' := by
  cases emptied : book.levelIsEmpty side price with
  | false => simp [settle, emptied]
  | true =>
    have empty := empty emptied
    let pruned := book.pruneIfSparseEmpty side price
    obtain ⟨base, index, levels, best, sparse, depth⟩ := unmark_kept pruned side price
    have settled : book.settle side price =
        if (pruned.unmark side price).best side = some price then
          (pruned.unmark side price).setBest side ((pruned.unmark side price).scanBest side)
        else pruned.unmark side price := by
      simp only [settle, emptied, if_true]
      rfl
    have window : ∀ price', pruned.denseIndex price' = book.denseIndex price' := fun price' =>
      denseIndex_pruneIfSparseEmpty
    have top : ∀ side', (pruned.unmark side price).best side' = book.best side' := fun side' => by
      rw [best, best_pruneIfSparseEmpty]
    have occupied : ∀ side' i, (pruned.unmark side price).isOccupied side' i = true ↔
        book.isOccupied side' i = true ∧
          ¬(side' = side ∧ ∃ slot, book.denseIndex price = some slot ∧ slot.val = i) :=
      fun side' i => by rw [isOccupied_unmark, isOccupied_pruneIfSparseEmpty, window]
    have inSparse : ∀ side' price', (pruned.unmark side price).inSparse side' price' = true ↔
        book.inSparse side' price' = true ∧
          ¬(side' = side ∧ price' = price ∧ book.denseIndex price = none) :=
      fun side' price' => by
        rw [sparse, inSparse_pruneIfSparseEmpty empty, Bool.and_eq_true, Bool.not_eq_true',
          decide_eq_false_iff_not, and_comm]
    simp only [settled, top side, true_and, and_true]
    by_cases held : book.best side = some price
    · simp only [if_pos held, denseBasePrice_setBest, orderIndex_setBest, level_setBest,
        isOccupied_setBest, inSparse_setBest, depth_setBest, best_setBest, scanBest_setBest]
      refine ⟨base.trans denseBasePrice_pruneIfSparseEmpty,
        index.trans orderIndex_pruneIfSparseEmpty,
        fun side' price' => (levels side' price').trans (level_pruneIfSparseEmpty empty),
        occupied, inSparse, fun side' => ?_,
        fun side' => (depth side').trans depth_pruneIfSparseEmpty⟩
      by_cases same : side' = side
      · simp [same, held]
      · simp [same, top]
    · simp only [if_neg held]
      refine ⟨base.trans denseBasePrice_pruneIfSparseEmpty,
        index.trans orderIndex_pruneIfSparseEmpty,
        fun side' price' => (levels side' price').trans (level_pruneIfSparseEmpty empty),
        occupied, inSparse, fun side' => ?_,
        fun side' => (depth side').trans depth_pruneIfSparseEmpty⟩
      simp [held, top]

end OrderBook

/-- `remove_order` for a resting order: unlink it, then lower its level and settle it. -/
theorem removeOrder_detached {arena₁ arena₂ : Arena} (found : arena.find index = some order)
    (write₁ : if order.prev ≠ arenaNull then
      arena.modify order.prev (fun node => { node with next := order.next }) = .ok arena₁
      else arena₁ = arena)
    (write₂ : if order.next ≠ arenaNull then
      arena₁.modify order.next (fun node => { node with prev := order.prev }) = .ok arena₂
      else arena₂ = arena₁)
    (freed : arena₂.free index = .ok arena') :
    book.removeOrder arena index =
      ((book.setLevel order.side order.price {
        totalQuantity := (book.level order.side order.price).totalQuantity - order.remaining
        orderCount := (book.level order.side order.price).orderCount - 1
        head := if order.prev ≠ arenaNull then (book.level order.side order.price).head
          else if order.next ≠ arenaNull then some order.next else none
        tail := if order.next ≠ arenaNull then (book.level order.side order.price).tail
          else if order.prev ≠ arenaNull then some order.prev else none }).depthRemove
        order.side order.price order.remaining).map fun lowered =>
          ((order.side, order.price), ({ lowered with
            orderIndex := lowered.orderIndex.erase order.id }).settle order.side order.price,
            arena') := by
  have get : arena.get index = .ok order := Arena.get_ok.mpr found
  unfold OrderBook.removeOrder
  simp only [get, bind, Except.bind, pure, Except.pure]
  by_cases hasPrev : order.prev ≠ arenaNull
  · rw [if_pos hasPrev] at write₁
    simp only [if_pos hasPrev, write₁]
    by_cases hasNext : order.next ≠ arenaNull
    · rw [if_pos hasNext] at write₂
      simp only [if_pos hasNext, write₂, freed]
      cases OrderBook.depthRemove _ _ _ _ <;> rfl
    · rw [if_neg hasNext] at write₂
      subst write₂
      simp only [if_neg hasNext, freed]
      cases OrderBook.depthRemove _ _ _ _ <;> rfl
  · rw [if_neg hasPrev] at write₁
    subst write₁
    simp only [if_neg hasPrev]
    by_cases hasNext : order.next ≠ arenaNull
    · rw [if_pos hasNext] at write₂
      simp only [if_pos hasNext, write₂, freed]
      cases OrderBook.depthRemove _ _ _ _ <;> rfl
    · rw [if_neg hasNext] at write₂
      subst write₂
      simp only [if_neg hasNext, freed]
      cases OrderBook.depthRemove _ _ _ _ <;> rfl

/-- The ends of a queue after an order is taken out of it. -/
theorem Queued.ends (queued : Queued arena queues) (found : arena.find index = some order) :
    let queue := queues order.side order.price
    (queue.erase index).head? = (if order.prev ≠ arenaNull then queue.head?
      else if order.next ≠ arenaNull then some order.next else none) ∧
    (queue.erase index).getLast? = (if order.next ≠ arenaNull then queue.getLast?
      else if order.prev ≠ arenaNull then some order.prev else none) := by
  obtain ⟨front, back, parts, prev, next⟩ := queued.cut found
  have nodup := queued.nodup order.side order.price
  have stored : ∀ j ∈ queues order.side order.price, j ≠ arenaNull := fun j member => by
    obtain ⟨node, found⟩ := linked_find (queued.linked _ _) member
    exact Arena.find_ne_null queued.slots found
  rw [parts] at nodup stored
  have inFront : index ∉ front := fun member =>
    (List.nodup_append.mp nodup).2.2 index member index List.mem_cons_self rfl
  simp only [parts, List.erase_append_right _ inFront, List.erase_cons_head, prev, next]
  have hasPrev : front ≠ [] → front.getLastD arenaNull ≠ arenaNull := fun present =>
    stored _ <| List.mem_append_left _ <| by
      rw [List.getLastD_eq_getLast?, List.getLast?_eq_some_getLast present]
      exact List.getLast_mem present
  have hasNext : back ≠ [] → back.headD arenaNull ≠ arenaNull := fun present =>
    stored _ <| List.mem_append_right _ <| List.mem_cons_of_mem _ <| by
      rw [List.headD_eq_head?_getD, List.head?_eq_some_head present]
      exact List.head_mem present
  constructor
  · cases front with
    | nil =>
      cases back with
      | nil => simp
      | cons first rest => simpa using hasNext
    | cons first rest =>
      rw [if_pos (hasPrev (List.cons_ne_nil _ _))]
      simp
  · cases back with
    | nil =>
      rcases List.eq_nil_or_concat front with rfl | ⟨init, last, rfl⟩
      · simp
      · have proper := hasPrev (by simp)
        simp only [List.getLastD_concat, List.concat_eq_append] at proper
        simp [proper]
    | cons first rest =>
      rw [if_pos (hasNext (List.cons_ne_nil _ _))]
      simp [List.getLast?_append, List.getLast?_cons]

/-- `remove_order` for a resting order of a represented book: its level becomes that of the shorter
queue, the depth is lowered, and the level is settled. -/
theorem Represents.removeOrder_eq (rep : Represents book arena queues)
    (found : arena.find index = some order) :
    ∃ arena', arena'.freeHead = index ∧
      (∀ j, arena'.resting j = if j = index then none else arena.resting j) ∧
      Queued arena' (queues.delete order index) ∧
      book.removeOrder arena index =
        ((book.setLevel order.side order.price
          (levelOf arena' ((queues order.side order.price).erase index))).depthRemove
          order.side order.price order.remaining).map fun lowered =>
            ((order.side, order.price), ({ lowered with
              orderIndex := lowered.orderIndex.erase order.id }).settle order.side order.price,
              arena') := by
  obtain ⟨arena₁, arena₂, arena', write₁, write₂, freed, head, rests, queued⟩ :=
    rep.toQueued.detach found
  have summary := levelOf_erase (rep.nodup order.side order.price) (rep.find_placed found)
    (Arena.resting_of_find found) fun i _ other => by rw [rests, if_neg other]
  obtain ⟨headEnd, tailEnd⟩ := rep.toQueued.ends found
  refine ⟨arena', head, rests, queued, ?_⟩
  rw [removeOrder_detached found write₁ write₂ freed, rep.levels, summary, headEnd, tailEnd]
  rfl

/-- `remove_order` deletes a resting order from its level. -/
theorem removeOrder_spec {place : Side × UInt64} (rep : Represents book arena queues)
    (found : arena.find index = some order)
    (returned : book.removeOrder arena index = .ok (place, book', arena')) :
    place = (order.side, order.price) ∧
      Removed book arena queues order.unlinked index book' arena' := by
  have rested := Arena.resting_of_find found
  obtain ⟨arena₃, head, rests, queued, removed⟩ := rep.removeOrder_eq found
  rw [removed] at returned
  have short : ((queues order.side order.price).erase index).length < UInt32.size :=
    Nat.lt_of_le_of_lt List.length_erase_le rep.length_lt
  cases removal : (book.setLevel order.side order.price
      (levelOf arena₃ ((queues order.side order.price).erase index))).depthRemove
      order.side order.price order.remaining with
  | error fault =>
    rw [removal] at returned
    contradiction
  | ok lowered =>
    rw [removal] at returned
    obtain ⟨rfl, rfl, rfl⟩ : (order.side, order.price) = place ∧ _ = book' ∧ arena₃ = arena' := by
      simpa only [Except.map, Except.ok.injEq, Prod.mk.injEq] using returned
    have same := OrderBook.depthRemove_same removal
    let filed := { lowered with orderIndex := lowered.orderIndex.erase order.id }
    have read : ∀ side price, filed.level side price =
        if side = order.side ∧ price = order.price then
          levelOf arena₃ ((queues order.side order.price).erase index)
        else book.level side price := fun side price => by
      rw [← OrderBook.level_setLevel, ← same.levels]
      cases side <;> rfl
    have here : filed.level order.side order.price =
        levelOf arena₃ ((queues order.side order.price).erase index) := by simp [read]
    have emptied : filed.levelIsEmpty order.side order.price = true ↔
        (queues order.side order.price).erase index = [] := by
      rw [OrderBook.levelIsEmpty, here, levelOf_isEmpty short]
    have window : ∀ price, filed.denseIndex price = book.denseIndex price := fun price =>
      OrderBook.denseIndex_congr (same.base.trans OrderBook.denseBasePrice_setLevel)
    obtain ⟨base, indexed, levels, occupied, sparse, best, depth⟩ :=
      filed.settle_views order.side order.price fun empty => by
        rw [here, emptied.mp empty, levelOf_nil]
    obtain ⟨raised, lowers, deep⟩ := OrderBook.depthRemove_congr OrderBook.denseBasePrice_setLevel
      (fun _ => OrderBook.depth_setLevel) removal
    have top : ∀ side, filed.best side = book.best side := fun side => by
      refine Eq.trans ?_ ((same.best side).trans OrderBook.best_setLevel)
      cases side <;> rfl
    have left : queues.delete order.unlinked index order.unlinked.side order.unlinked.price =
        (queues order.side order.price).erase index := Queues.set_same
    refine ⟨rfl, rested, rests, ?_, ?_, fun side => ?_, ⟨raised, lowers, fun side => ?_⟩, head⟩
    · refine rep.drop queued rested rests ?_ ?_ (fun side price => ?_) (fun side i => ?_)
        fun side price => ?_
      · exact base.trans (same.base.trans OrderBook.denseBasePrice_setLevel)
      · refine indexed.trans ?_
        change lowered.orderIndex.erase order.id = _
        rw [same.index, OrderBook.orderIndex_setLevel]
        rfl
      · rw [levels, read]
        rfl
      · rw [occupied, emptied, window, show filed.isOccupied side i = book.isOccupied side i from ?_]
        · rfl
        · refine Eq.trans ?_ ((same.occupied side i).trans OrderBook.isOccupied_setLevel)
          cases side <;> rfl
      · rw [sparse, emptied, window, show filed.inSparse side price = true ↔
          book.inSparse side price = true from ?_]
        · rfl
        · have kept : filed.inSparse side price = lowered.inSparse side price := by
            cases side <;> rfl
          rw [kept, same.sparse, OrderBook.inSparse_setLevel, Bool.or_eq_true, decide_eq_true_iff,
            or_iff_right_iff_imp]
          rintro ⟨rfl, rfl, outside⟩
          exact (rep.sparse _ _).mpr ⟨outside, List.ne_nil_of_mem (rep.find_placed found)⟩
    · exact base.trans (same.base.trans OrderBook.denseBasePrice_setLevel)
    · have anew := best side
      simp only [top, emptied] at anew
      refine anew.trans ?_
      rw [left]
      by_cases same : side = order.side
      · subst same
        rfl
      · simp [same]
    · rw [depth, ← deep]
      cases side <;> rfl

/-- `remove_order` succeeds on a resting order only. -/
theorem removeOrder_found {place : Side × UInt64}
    (returned : book.removeOrder arena index = .ok (place, book', arena')) :
    ∃ order, arena.find index = some order := by
  cases found : arena.find index with
  | some order => exact ⟨order, rfl⟩
  | none => simp [OrderBook.removeOrder, Arena.get, found, bind, Except.bind] at returned

/-! ## Taking -/

/-- A book whose one level follows an order that shrinks represents the same queues. -/
theorem Represents.take {delta : UInt64} (rep : Represents book arena queues)
    (found : arena.find index = some order) (bound : delta ≤ order.remaining)
    (inv : arena'.Inv) (written : ∀ j, arena'.find j =
      if j = index then some (order.fill delta) else arena.find j)
    (head : arena'.freeHead = arena.freeHead) :
    Taken book arena queues order.unlinked index delta
      (book.setLevel order.side order.price
        { book.level order.side order.price with
          totalQuantity := (book.level order.side order.price).totalQuantity - delta }) arena' := by
  obtain ⟨rests, queued⟩ := rep.toQueued.take found inv bound written
  have member := rep.find_placed found
  have nodup := rep.nodup order.side order.price
  have apart : ∀ {side price}, ¬(side = order.side ∧ price = order.price) →
      index ∉ queues side price := fun other inside => other (rep.same_queue member inside)
  have shrunk : ({ book.level order.side order.price with
      totalQuantity := (book.level order.side order.price).totalQuantity - delta } : PriceLevel) =
      levelOf arena' (queues order.side order.price) := by
    have others : liquidity arena' ((queues order.side order.price).erase index) =
        liquidity arena ((queues order.side order.price).erase index) :=
      liquidity_congr fun i inside => by
        rw [rests, if_neg ((List.Nodup.mem_erase_iff nodup).mp inside).1]
    have before : liquidity arena (queues order.side order.price) = _ := liquidity_erase member
    have after : liquidity arena' (queues order.side order.price) = _ := liquidity_erase member
    rw [others, Arena.remainingAt_of_resting (by rw [rests, if_pos rfl])] at after
    rw [Arena.remainingAt_of_resting (Arena.resting_of_find found)] at before
    have sound := rep.sound (Arena.resting_of_find found)
    have less := (Order.fill_sound sound bound).2
    have lowered : UInt64.ofNat (liquidity arena' (queues order.side order.price)) =
        UInt64.ofNat (liquidity arena (queues order.side order.price)) - delta := by
      rw [before, after, less, UInt64.ofNat_add, UInt64.ofNat_add, UInt64.ofNat_toNat,
        UInt64.ofNat_toNat, UInt64.sub_eq_add_neg, UInt64.sub_eq_add_neg]
      ac_rfl
    rw [rep.levels]
    simp only [levelOf, lowered]
  refine ⟨Arena.resting_of_find found, rests, ⟨queued, fun side price => ?_, fun id i => ?_,
    fun side i => ?_, fun side price => ?_⟩, OrderBook.denseBasePrice_setLevel,
    fun _ => OrderBook.best_setLevel, head⟩
  · rw [OrderBook.level_setLevel, shrunk]
    split
    · rename_i same
      rw [same.1, same.2]
    · rename_i other
      rw [rep.levels]
      refine (levelOf_congr fun i inside => ?_).symm
      rw [rests, if_neg]
      rintro rfl
      exact apart other inside
  · rw [OrderBook.orderIndex_setLevel, rep.indexed]
    by_cases here : i = index
    · subst here
      simp [rests, Arena.resting_of_find found]
    · simp [rests, here]
  · simp only [OrderBook.isOccupied_setLevel, OrderBook.denseIndex_setLevel, rep.occupied]
  · rw [OrderBook.inSparse_setLevel, Bool.or_eq_true, decide_eq_true_iff,
      OrderBook.denseIndex_setLevel, rep.sparse, or_iff_right_iff_imp]
    rintro ⟨rfl, rfl, outside⟩
    exact ⟨outside, List.ne_nil_of_mem member⟩

/-- The depth indices are not part of what taking a quantity does. -/
theorem Taken.of_sameButDepth {delta : UInt64} {book'' : OrderBook ticks}
    (taken : Taken book arena queues order index delta book' arena')
    (same : book'.SameButDepth book'') : Taken book arena queues order index delta book'' arena' where
  found := taken.found
  resting := taken.resting
  represents := taken.represents.of_sameButDepth same
  base := same.base.trans taken.base
  best side := (same.best side).trans (taken.best side)
  freeHead := taken.freeHead

/-- `reduce_order_qty` takes a quantity from a resting order, its level and the depth of its
price. -/
theorem reduceOrderQty_spec {delta : UInt64} (rep : Represents book arena queues)
    (found : arena.find index = some order) (bound : delta ≤ order.remaining)
    (returned : book.reduceOrderQty arena index delta = .ok (book', arena')) :
    Taken book arena queues order.unlinked index delta book' arena' ∧
      ∃ lowered, book.depthRemove order.side order.price delta = .ok lowered ∧
        ∀ side, book'.depth side = lowered.depth side := by
  obtain ⟨arena₁, write, seen, head, keeps⟩ := Arena.modify_ok
    (fun order => { order with filled := order.filled + delta }) found
  have get : arena₁.get index = .ok (order.fill delta) :=
    Arena.get_ok.mpr (by rw [seen, if_pos rfl]; rfl)
  have taken := rep.take found bound (keeps rep.slots) seen head
  unfold OrderBook.reduceOrderQty at returned
  simp only [write, get, bind, Except.bind, Order.fill_side, Order.fill_price] at returned
  cases left : checkedSub (book.level order.side order.price).totalQuantity delta with
  | none =>
    rw [left] at returned
    contradiction
  | some total =>
    have value : (book.level order.side order.price).totalQuantity - delta = total := by
      unfold checkedSub at left
      split at left
      · exact Option.some.inj left
      · contradiction
    rw [value] at taken
    simp only [left] at returned
    cases removal : (book.setLevel order.side order.price
        { book.level order.side order.price with totalQuantity := total }).depthRemove
        order.side order.price delta with
    | error fault =>
      rw [removal] at returned
      contradiction
    | ok lowered =>
      rw [removal] at returned
      obtain ⟨rfl, rfl⟩ := Prod.mk.inj (Except.ok.inj returned)
      exact ⟨taken.of_sameButDepth (OrderBook.depthRemove_same removal),
        OrderBook.depthRemove_congr OrderBook.denseBasePrice_setLevel
          (fun _ => OrderBook.depth_setLevel) removal⟩

end MatchX
