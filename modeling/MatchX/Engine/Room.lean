import MatchX.Engine.Termination
import MatchX.Support.Simulation

/-!
# Room in the arena

The capacity of an arena never changes, and its occupied slots are counted exactly: the free
list is at its end exactly when as many orders rest as the arena has slots.
-/

namespace MatchX

open MatchX.Support

variable {ticks : UInt32} {book : OrderBook ticks} {arena : Arena} {index : ArenaIndex}
  {order : Order}

namespace Arena

/-- The occupied slots and the free ones are all slots. -/
theorem count_eq_len (inv : arena.Inv) : arena.count = arena.len.toNat := by
  obtain ⟨free, list⟩ := inv
  have whole : arena.data.size ≤ UInt32.size := by
    rw [list.dataSize]
    exact Nat.le_of_lt arena.capacity.toNat_lt_size
  have weighed : ∀ slots : List ArenaIndex, (slots.map (arena.weightAt fun _ => 1)).sum =
      (slots.filter fun i => (arena.find i).isSome).length := fun slots => by
    induction slots with
    | nil => rfl
    | cons i rest ih =>
      rw [List.map_cons, List.sum_cons, ih, List.filter_cons, weightAt, resting]
      cases found : arena.find i with
      | none => simp
      | some order => simp [Nat.add_comm]
  have vacant : ((slotsBelow arena.data.size).filter fun i => !(arena.find i).isSome).length =
      free.length := by
    refine List.Perm.length_eq ((List.perm_ext_iff_of_nodup
      ((slotsBelow_nodup whole).filter _) list.nodup).mpr fun i => ?_)
    rw [list.vacant, List.mem_filter, Bool.not_eq_true', Option.isSome_eq_false_iff,
      Option.isNone_iff_eq_none, ← list.dataSize]
    constructor
    · rintro ⟨member, none⟩
      obtain ⟨k, below, rfl⟩ := List.mem_map.mp member
      have small := List.mem_range.mp below
      rw [UInt32.toNat_ofNat_of_lt' (Nat.lt_of_lt_of_le small whole)]
      exact ⟨small, none⟩
    · rintro ⟨below, none⟩
      exact ⟨mem_slotsBelow below, none⟩
  have parts := List.length_eq_length_filter_add (l := slotsBelow arena.data.size)
    fun i => (arena.find i).isSome
  have size : (slotsBelow arena.data.size).length = arena.data.size := by
    rw [slotsBelow, List.length_map, List.length_range]
  rw [count, weigh_eq _ (Nat.le_refl _) whole, weighed]
  have counted := list.count
  rw [← list.dataSize] at counted
  omega

/-- No slot is free exactly when as many orders rest as there are slots. -/
theorem full_iff (inv : arena.Inv) :
    arena.freeHead = freeListEnd ↔ arena.capacity.toNat ≤ arena.count := by
  have counted := count_eq_len inv
  obtain ⟨free, list⟩ := inv
  have sum := list.count
  have chain := list.chain
  cases free with
  | nil =>
    rw [List.length_nil] at sum
    exact ⟨fun _ => by omega, fun _ => chain⟩
  | cons i rest =>
    obtain ⟨head, inside, -⟩ := chain
    rw [List.length_cons] at sum
    refine ⟨fun last => ?_, fun full => by omega⟩
    rw [list.nextSize, ← head, last] at inside
    have bound := arena.capacity.toNat_lt
    simp only [freeListEnd] at inside
    have same : (0xffffffff : UInt32).toNat = 4294967295 := rfl
    omega

/-! ## The capacity is kept -/

/-- The arena of a step has the capacity of the arena before it. -/
def SameCapacity (arena arena' : Arena) : Prop := arena'.capacity = arena.capacity

/-- Writing a slot keeps the capacity. -/
theorem modify_capacity {change : Order → Order} :
    Returns (SameCapacity arena) (arena.modify index change) := by
  unfold modify
  split
  · exact .ok rfl
  · exact .error

/-- Freeing a slot keeps the capacity. -/
theorem free_capacity : Returns (SameCapacity arena) (arena.free index) := by
  unfold free
  split
  · exact .ok rfl
  · exact .error

/-- Taking a slot keeps the capacity. -/
theorem alloc_capacity {arena' : Arena} (taken : arena.alloc order = some (index, arena')) :
    SameCapacity arena arena' := by
  unfold alloc at taken
  split at taken
  · contradiction
  · obtain ⟨-, rfl⟩ := Prod.mk.inj (Option.some.inj taken)
    rfl

/-- Two steps keep the capacity when each does. -/
theorem SameCapacity.trans {between after : Arena} (first : SameCapacity arena between)
    (second : SameCapacity between after) : SameCapacity arena after :=
  Eq.trans second first

end Arena

namespace OrderBook

variable {id : OrderId} {side : Side} {price qty delta : UInt64} {orderType : OrderType}
  {visibleQty : Option UInt64} {stpGroup : Option UInt32}

/-- Removing an order keeps the capacity. -/
theorem removeOrder_capacity :
    Returns (fun result => arena.SameCapacity result.2.2) (book.removeOrder arena index) := by
  have tail : ∀ {start : Arena} {place : Side × UInt64} {lowered : Except Fault (OrderBook ticks)}
      {further : OrderBook ticks → OrderBook ticks}, arena.SameCapacity start →
      Returns (fun result => arena.SameCapacity result.2.2) (do
        let book ← lowered
        let arena ← start.free index
        pure (place, further book, arena)) := fun same =>
    .bind .any fun _ _ => .bind Arena.free_capacity fun _ freed => .ok (same.trans freed)
  unfold removeOrder
  refine .bind .any fun order _ => ?_
  dsimp only
  split
  · refine .bind Arena.modify_capacity fun _ first => .pass ?_
    split
    · exact .bind Arena.modify_capacity fun _ second => .pass (tail (first.trans second))
    · exact .pass (tail first)
  · refine .pass ?_
    split
    · exact .bind Arena.modify_capacity fun _ second => .pass (tail second)
    · exact .pass (tail rfl)

/-- Lowering the quantity of an order keeps the capacity. -/
theorem reduceOrderQty_capacity :
    Returns (fun result => arena.SameCapacity result.2) (book.reduceOrderQty arena index delta) := by
  unfold reduceOrderQty
  refine .bind Arena.modify_capacity fun _ kept => .bind .any fun _ _ => ?_
  dsimp only
  split
  · exact .bind .any fun _ _ => .ok kept
  · exact .error

/-- Inserting an order keeps the capacity. -/
theorem insertOrder_capacity :
    Returns (fun result => arena.SameCapacity result.2.2)
      (book.insertOrder arena id side price qty orderType visibleQty stpGroup) := by
  unfold insertOrder
  dsimp only
  split
  · exact .ok rfl
  · split
    · rename_i slot taken alloc
      have first := Arena.alloc_capacity alloc
      refine .bind Arena.modify_capacity fun _ second => ?_
      split
      · exact .bind Arena.modify_capacity fun _ third =>
          .pass (.ok ((first.trans second).trans third))
      · exact .pass (.ok (first.trans second))
    · exact .ok rfl

end OrderBook

namespace MatchingEngine

variable {config : InstrumentConfig} {engine : MatchingEngine config} {taker : Taker}
  {sweep : Sweep config} {command : Command}

/-- An engine after a step whose arena has the capacity of the one before it. -/
def SameRoom (engine engine' : MatchingEngine config) : Prop :=
  engine.arena.SameCapacity engine'.arena

/-- Removing a maker keeps the capacity. -/
theorem removeMaker_room : Returns engine.SameRoom (engine.removeMaker index) :=
  .bind OrderBook.removeOrder_capacity fun _ kept => .ok kept

/-- Preventing a trade keeps the capacity. -/
theorem preventSelfTrade_room {price : UInt64} {maker : Order} :
    Returns (fun flow => sweep.engine.SameRoom (flowEngine flow))
      (preventSelfTrade sweep price index maker) := by
  unfold preventSelfTrade
  split
  · exact .ok rfl
  · exact .bind removeMaker_room fun _ kept => .ok kept
  · exact .bind removeMaker_room fun _ kept => .ok kept
  · dsimp only
    split
    · exact .bind removeMaker_room fun _ kept => .ok kept
    · exact .bind OrderBook.reduceOrderQty_capacity fun _ kept => .pass (.ok kept)

/-- A fill keeps the capacity. -/
theorem fillMaker_room {price : UInt64} {maker : Order} :
    Returns (fun following => sweep.engine.SameRoom following.engine)
      (fillMaker taker sweep price index maker) := by
  unfold fillMaker
  refine .bind Arena.modify_capacity fun _ kept => .bind .any fun _ _ => ?_
  dsimp only
  split
  · exact .bind removeMaker_room fun _ removed => .ok (kept.trans removed)
  · exact .pass (.ok kept)

/-- An iteration of the matching loop keeps the capacity. -/
theorem matchStep_room :
    Returns (fun flow => sweep.engine.SameRoom (flowEngine flow)) (matchStep taker sweep) := by
  unfold matchStep
  dsimp only
  split
  · exact .ok rfl
  split
  · split
    · exact .ok rfl
    refine .bind .any fun level _ => ?_
    split
    · refine .bind .any fun maker _ => ?_
      split
      · exact .bind removeMaker_room fun _ kept => .ok kept
      · split
        · exact preventSelfTrade_room
        · exact .bind fillMaker_room fun _ kept => .ok kept
    · exact .ok rfl
  · exact .ok rfl

/-- Resting an order keeps the capacity. -/
theorem restOrder_room {order : NewOrder} {qty : UInt64} :
    Returns engine.SameRoom (engine.restOrder order qty) :=
  .bind OrderBook.insertOrder_capacity fun _ kept => .ok kept

/-- Withdrawing an order keeps the capacity. -/
theorem withdraw_room {id : OrderId} {newPrice newQty : UInt64} :
    Returns (fun result => engine.SameRoom result.1) (engine.withdraw index id newPrice newQty) :=
  .bind .any fun _ _ => .bind removeMaker_room fun _ kept => .ok kept

/-- Cancelling an order keeps the capacity. -/
theorem processCancel_room {id : OrderId} : Returns engine.SameRoom (engine.processCancel id) := by
  unfold processCancel
  split
  · exact .bind .any fun _ _ => .bind removeMaker_room fun _ kept => .ok kept
  · exact .ok rfl

end MatchingEngine

end MatchX
