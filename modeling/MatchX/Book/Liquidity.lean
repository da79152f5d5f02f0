import Mathlib.Algebra.BigOperators.Group.Finset.Basic
import Mathlib.Algebra.Order.BigOperators.Group.Finset
import Mathlib.Data.List.Nodup
import MatchX.Book.Operations

/-!
# Resting quantities

How much rests on a side of an arena at given prices, and how each operation changes it. The
orders of an arena are weighed by a function of the order without its links; an operation
changes the weight by that of the one order it touches. The total of a level is the weight of
the orders of its side and price.
-/

namespace MatchX

/-- The first slot numbers. -/
def slotsBelow (count : Nat) : List ArenaIndex := (List.range count).map UInt32.ofNat

variable {count : Nat}

/-- Every slot number below the bound is listed. -/
theorem mem_slotsBelow {i : ArenaIndex} (below : i.toNat < count) : i ∈ slotsBelow count :=
  List.mem_map.mpr ⟨i.toNat, List.mem_range.mpr below, UInt32.ofNat_toNat⟩

/-- Each slot number is listed once. -/
theorem slotsBelow_nodup (fits : count ≤ UInt32.size) : (slotsBelow count).Nodup := by
  refine List.Nodup.map_on (fun x inside y inside' same => ?_) List.nodup_range
  have numbers := congrArg UInt32.toNat same
  rwa [UInt32.toNat_ofNat_of_lt' (Nat.lt_of_lt_of_le (List.mem_range.mp inside) fits),
    UInt32.toNat_ofNat_of_lt' (Nat.lt_of_lt_of_le (List.mem_range.mp inside') fits)] at numbers

namespace Arena

/-- The weight of the resting orders, each taken without links. -/
def weigh (arena : Arena) (weight : Order → Nat) : Nat :=
  (arena.orders.map fun order => weight order.unlinked).sum

/-- The quantity that rests on a side at the prices of a test. -/
def sumResting (arena : Arena) (side : Side) (within : UInt64 → Bool) : Nat :=
  ((arena.orders.filter fun order => order.side = side && within order.price).map
    fun order => order.remaining.toNat).sum

/-- The quantity that rests in an arena. -/
def totalResting (arena : Arena) : Nat :=
  (arena.orders.map fun order => order.remaining.toNat).sum

variable {arena arena' : Arena} {order : Order} {index : ArenaIndex}

/-- The weight of what rests in a slot, nothing when it is free. -/
def weightAt (arena : Arena) (weight : Order → Nat) (index : ArenaIndex) : Nat :=
  ((arena.resting index).map weight).getD 0

/-- The weight of the orders is that of the slots below any bound of their numbers. -/
theorem weigh_eq (weight : Order → Nat) (all : arena.data.size ≤ count)
    (fits : count ≤ UInt32.size) :
    arena.weigh weight = ((slotsBelow count).map (arena.weightAt weight)).sum := by
  have slot : ∀ k < count, arena.weightAt weight (UInt32.ofNat k) =
      ((arena.data[k]?).join.map fun order => weight order.unlinked).getD 0 := fun k inside => by
    rw [weightAt, resting, find, UInt32.toNat_ofNat_of_lt' (Nat.lt_of_lt_of_le inside fits),
      Option.map_map]
    rfl
  have listed : (List.range count).map (fun k => arena.weightAt weight (UInt32.ofNat k)) =
      (List.range count).map fun k =>
        ((arena.data[k]?).join.map fun order => weight order.unlinked).getD 0 :=
    List.map_congr_left fun k member => slot k (List.mem_range.mp member)
  rw [weigh, orders, slotsBelow, List.map_map, Function.comp_def, listed]
  have cells : ∀ cells : List (Option Order), cells.length ≤ count →
      ((cells.filterMap id).map fun order => weight order.unlinked).sum =
        ((List.range count).map fun k =>
          ((cells[k]?).join.map fun order => weight order.unlinked).getD 0).sum := by
    clear slot listed all fits
    intro cells short
    induction cells generalizing count with
    | nil => simp
    | cons cell rest ih =>
      cases count with
      | zero => simp at short
      | succ count =>
        rw [List.range_succ_eq_map, List.map_cons, List.sum_cons, List.map_map,
          Function.comp_def]
        simp only [List.getElem?_cons_zero, List.getElem?_cons_succ]
        rw [← ih (by simpa using short)]
        cases cell <;> simp
  simpa using cells arena.data.toList (by simpa using all)

/-- A sum over the orders of an arena is a weight. -/
theorem sumResting_eq (side : Side) (within : UInt64 → Bool) :
    arena.sumResting side within = arena.weigh fun order =>
      if order.side = side ∧ within order.price = true then order.remaining.toNat else 0 := by
  rw [sumResting, weigh]
  induction arena.orders with
  | nil => rfl
  | cons order rest ih =>
    rw [List.filter_cons, List.map_cons, List.sum_cons, ← ih]
    split
    · rename_i chosen
      rw [List.map_cons, List.sum_cons]
      simp only [Bool.and_eq_true, decide_eq_true_eq] at chosen
      simp [chosen]
    · rename_i other
      simp only [Bool.and_eq_true, decide_eq_true_eq] at other
      simp [other]

/-- The total is a weight. -/
theorem totalResting_eq : arena.totalResting = arena.weigh fun order => order.remaining.toNat :=
  rfl

/-- The weight of the orders when one slot is written. -/
theorem weigh_written {written : Option Order} (inv : arena.Inv) (inv' : arena'.Inv)
    (rests : ∀ j, arena'.resting j = if j = index then written else arena.resting j)
    (weight : Order → Nat) :
    arena.weigh weight + (written.map weight).getD 0 =
      arena'.weigh weight + ((arena.resting index).map weight).getD 0 := by
  obtain ⟨count, fits, all, all', below⟩ : ∃ count, count ≤ UInt32.size ∧
      arena.data.size ≤ count ∧ arena'.data.size ≤ count ∧ index.toNat < count := by
    obtain ⟨free, list⟩ := inv
    obtain ⟨free', list'⟩ := inv'
    have capacity := arena.capacity.toNat_lt_size
    have capacity' := arena'.capacity.toNat_lt_size
    have slot := index.toNat_lt_size
    rw [← list.dataSize] at capacity
    rw [← list'.dataSize] at capacity'
    exact ⟨max (max arena.data.size arena'.data.size) (index.toNat + 1), by omega, by omega,
      by omega, by omega⟩
  obtain ⟨front, back, parts⟩ := List.append_of_mem (mem_slotsBelow below)
  have nodup := slotsBelow_nodup fits
  rw [parts] at nodup
  have inFront : index ∉ front := fun member =>
    (List.nodup_append.mp nodup).2.2 index member index List.mem_cons_self rfl
  have inBack : index ∉ back := (List.nodup_cons.mp (List.nodup_append.mp nodup).2.1).1
  have kept : ∀ slots : List ArenaIndex, index ∉ slots →
      slots.map (arena'.weightAt weight) = slots.map (arena.weightAt weight) :=
    fun slots absent => List.map_congr_left fun i member => by
      have other : i ≠ index := fun same => absent (same ▸ member)
      rw [weightAt, weightAt, rests, if_neg other]
  have here : arena'.weightAt weight index = (written.map weight).getD 0 := by
    rw [weightAt, rests, if_pos rfl]
  have old : arena.weightAt weight index = ((arena.resting index).map weight).getD 0 := rfl
  rw [weigh_eq weight all fits, weigh_eq weight all' fits, parts]
  simp only [List.map_append, List.sum_append, List.map_cons, List.sum_cons, kept front inFront,
    kept back inBack, here, old]
  omega

/-- The weight of some slots that hold every order with weight. -/
theorem weigh_slots {slots : List ArenaIndex} (inv : arena.Inv) (nodup : slots.Nodup)
    (weight : Order → Nat)
    (rest : ∀ i order, arena.resting i = some order → i ∉ slots → weight order = 0) :
    arena.weigh weight = (slots.map (arena.weightAt weight)).sum := by
  obtain ⟨count, whole⟩ : ∃ count, count = UInt32.size := ⟨_, rfl⟩
  have all : arena.data.size ≤ count := by
    obtain ⟨free, list⟩ := inv
    have capacity := arena.capacity.toNat_lt_size
    rw [list.dataSize, whole]
    exact Nat.le_of_lt capacity
  have fits := Nat.le_of_eq whole
  rw [weigh_eq weight all fits, ← List.sum_toFinset _ (slotsBelow_nodup fits),
    ← List.sum_toFinset _ nodup]
  refine (Finset.sum_subset (fun i member => ?_) fun i _ absent => ?_).symm
  · exact List.mem_toFinset.mpr (mem_slotsBelow (whole ▸ i.toNat_lt_size))
  · cases rests : arena.resting i with
    | none => simp [weightAt, rests]
    | some order =>
      simpa [weightAt, rests] using rest i order rests fun member =>
        absent (List.mem_toFinset.mpr member)

end Arena

variable {ticks : UInt32} {book book' : OrderBook ticks} {arena arena' : Arena} {queues : Queues}
  {order : Order} {index : ArenaIndex} {side : Side} {price delta : UInt64}

/-- An insertion adds the weight of its order. -/
theorem Inserted.weigh (inserted : Inserted book arena queues order index book' arena')
    (slots : arena.Inv) (weight : Order → Nat) :
    arena'.weigh weight = arena.weigh weight + weight order := by
  have changed := Arena.weigh_written slots inserted.represents.slots inserted.resting weight
  rw [inserted.fresh] at changed
  simpa using changed.symm

/-- A removal takes away the weight of its order. -/
theorem Removed.weigh (removed : Removed book arena queues order index book' arena')
    (slots : arena.Inv) (weight : Order → Nat) :
    arena.weigh weight = arena'.weigh weight + weight order := by
  have changed := Arena.weigh_written slots removed.represents.slots removed.resting weight
  rw [removed.found] at changed
  simpa using changed

/-- Taking a quantity changes the weight of its order. -/
theorem Taken.weigh (taken : Taken book arena queues order index delta book' arena')
    (slots : arena.Inv) (weight : Order → Nat) :
    arena.weigh weight + weight (order.fill delta) = arena'.weigh weight + weight order := by
  have changed := Arena.weigh_written slots taken.represents.slots taken.resting weight
  rw [taken.found] at changed
  simpa using changed

/-- The quantity of a queue is what rests at its side and price. -/
theorem Queued.liquidity_eq (queued : Queued arena queues) :
    liquidity arena (queues side price) = arena.sumResting side (· == price) := by
  rw [Arena.sumResting_eq, Arena.weigh_slots queued.slots (queued.nodup side price), liquidity]
  · refine congrArg List.sum (List.map_congr_left fun i member => ?_)
    obtain ⟨order, rests, onSide, atPrice⟩ := queued.stored member
    simp [Arena.remainingAt, Arena.weightAt, rests, onSide, atPrice]
  · intro i order rests absent
    refine if_neg fun chosen => absent ?_
    have placed := queued.placed rests
    rwa [chosen.1, eq_of_beq chosen.2] at placed

/-- What rests at one price is no more than what rests at all. -/
theorem Arena.sumResting_le {within : UInt64 → Bool} :
    arena.sumResting side within ≤ arena.totalResting := by
  rw [sumResting, totalResting]
  exact (List.filter_sublist.map _).sum_le_sum fun _ _ => Nat.zero_le _

/-- What remains of a resting order is part of what its level should total. -/
theorem Queued.remaining_le (queued : Queued arena queues)
    (rests : arena.resting index = some order) :
    order.remaining.toNat ≤ liquidity arena (queues order.side order.price) := by
  have parts := @liquidity_erase arena _ _ (queued.placed rests)
  rw [Arena.remainingAt_of_resting rests] at parts
  omega

end MatchX
