import MatchX.ArenaInv
import MatchX.Support.Runs

/-!
# Histories of the arena

Whatever allocations and frees are made of a new arena, as long as each free names an occupied
slot: the free list visits the slots without an order, `len` counts the others, and the debug
count of a slot is odd exactly while an order is in it.
-/

namespace MatchX.Arena

open MatchX.Support

variable {capacity : UInt32} {arena arena' : Arena} {order : Order} {index i : ArenaIndex}
  {vacancies : List ArenaIndex}

/-- A call of the arena. -/
inductive Call where
  /-- `alloc` -/
  | alloc (order : Order)
  /-- `free` -/
  | free (index : ArenaIndex)

/-- Perform a call. An allocation that returns none leaves the arena as it is. -/
def Call.apply (arena : Arena) : Call → Except Fault Arena
  | .alloc order => .ok ((arena.alloc order).elim arena Prod.snd)
  | .free index => arena.free index

/-- The promise of the callers: a free names an occupied slot. -/
def Call.Legal (arena : Arena) : Call → Prop
  | .alloc _ => True
  | .free index => (arena.find index).isSome = true

instance (arena : Arena) (call : Call) : Decidable (call.Legal arena) := by
  cases call <;> unfold Call.Legal <;> infer_instance

/-- An arena reached from a new one by calls that keep the promise. -/
abbrev ArenaRun (capacity : UInt32) : Arena → Prop :=
  Reached (· = Arena.new capacity) Call.apply fun arena call => call.Legal arena

/-! ## Counting the slots -/

/-- The numbers of the slots. -/
def slots (arena : Arena) : List ArenaIndex :=
  (List.range arena.data.size).map UInt32.ofNat

/-- The numbers of the occupied slots. -/
def occupied (arena : Arena) : List ArenaIndex :=
  arena.slots.filter fun i => (arena.find i).isSome

/-- Each slot number below the number of slots is one of them. -/
theorem FreeList.mem_slots (list : arena.FreeList vacancies) :
    i ∈ arena.slots ↔ i.toNat < arena.capacity.toNat := by
  rw [slots, list.dataSize]
  exact mem_slots_below (Nat.le_of_lt arena.capacity.toNat_lt_size)

/-- The slots have distinct numbers. -/
theorem FreeList.slots_nodup (list : arena.FreeList vacancies) : arena.slots.Nodup := by
  rw [slots, list.dataSize]
  exact nodup_slots_below (Nat.le_of_lt arena.capacity.toNat_lt_size)

/-- `len` is the number of occupied slots. -/
theorem FreeList.len_eq (list : arena.FreeList vacancies) :
    arena.len.toNat = arena.occupied.length := by
  have vacant : vacancies.Perm (arena.slots.filter fun i => !(arena.find i).isSome) := by
    rw [List.perm_ext_iff_of_nodup list.nodup (list.slots_nodup.filter _)]
    intro i
    rw [list.vacant, List.mem_filter, list.mem_slots]
    simp
  have split := List.length_eq_length_filter_add (l := arena.slots) fun i =>
    (arena.find i).isSome
  have total : arena.slots.length = arena.capacity.toNat := by simp [slots, list.dataSize]
  have counted := list.count
  have same := vacant.length_eq
  rw [occupied]
  omega

/-- The free list is empty exactly when every slot is counted. -/
theorem FreeList.full_iff (list : arena.FreeList vacancies) :
    arena.freeHead = freeListEnd ↔ arena.len = arena.capacity := by
  have counted := list.count
  have chain := list.chain
  cases vacancies with
  | nil =>
    have same : arena.len = arena.capacity := UInt32.toNat_inj.mp (by simpa using counted)
    exact iff_of_true chain same
  | cons first rest =>
    obtain ⟨head, inside, -⟩ := chain
    constructor
    · intro ended
      have bound := arena.capacity.toNat_lt
      rw [← head, ended, list.nextSize] at inside
      simp only [freeListEnd, UInt32.reduceToNat] at inside
      omega
    · intro same
      rw [same, List.length_cons] at counted
      omega

/-! ## The debug count -/

/-- The debug count of a slot is odd exactly while an order is in it. -/
structure Counted (arena : Arena) : Prop where
  /-- One count a slot. -/
  size : arena.generation.size = arena.data.size
  /-- Odd counts are those of occupied slots. -/
  odd : ∀ i : ArenaIndex, i.toNat < arena.data.size →
    (arena.generation.getD i.toNat 0 % 2 = 1 ↔ (arena.find i).isSome = true)

/-- One more turns an odd count into an even one and an even one into an odd one. -/
theorem odd_succ (count : UInt64) : (count + 1) % 2 = 1 ↔ ¬count % 2 = 1 := by
  simp only [← UInt64.toNat_inj, UInt64.toNat_mod, UInt64.toNat_add, UInt64.reduceToNat]
  omega

/-- A call that fills an empty slot or empties an occupied one, and counts it, keeps the counts. -/
theorem Counted.turn (counted : arena.Counted) (inside : i.toNat < arena.data.size)
    {value : Option Order} (turned : value.isSome = true ↔ ¬(arena.find i).isSome = true)
    (written : arena'.data = arena.data.setIfInBounds i.toNat value)
    (counts : arena'.generation = arena.generation.modify i.toNat (· + 1)) : arena'.Counted := by
  have size : arena'.data.size = arena.data.size := by simp [written]
  refine ⟨by simp [counts, size, counted.size], fun j below => ?_⟩
  rw [size] at below
  rw [find_set inside written, counts]
  by_cases same : j = i
  · subst same
    have before := counted.odd j below
    have slot : j.toNat < arena.generation.size := by rwa [counted.size]
    have here : (arena.generation.modify j.toNat (· + 1)).getD j.toNat 0 =
        arena.generation.getD j.toNat 0 + 1 := by
      simp [Array.getD_eq_getD_getElem?, Array.getElem_modify, slot]
    rw [here, odd_succ, before, if_pos rfl, turned]
  · have other : i.toNat ≠ j.toNat := fun h => same (UInt32.toNat_inj.mp h).symm
    have there : (arena.generation.modify i.toNat (· + 1)).getD j.toNat 0 =
        arena.generation.getD j.toNat 0 := by
      simp [Array.getD_eq_getD_getElem?, Array.getElem?_modify, other]
    rw [there, if_neg same]
    exact counted.odd j below

/-- No slot of a new arena is counted. -/
theorem new_counted (capacity : UInt32) : (Arena.new capacity).Counted := by
  refine ⟨by simp [new], fun i inside => ?_⟩
  rw [find_new]
  simp only [new, Array.size_replicate] at inside
  simp [new, Array.getD_eq_getD_getElem?, inside]

/-! ## Runs -/

/-- What every run keeps: an exact free list, the debug counts, and the capacity. -/
structure RunInv (capacity : UInt32) (arena : Arena) : Prop where
  /-- Some free list is exact. -/
  inv : arena.Inv
  /-- The debug counts tell which slots are occupied. -/
  counted : arena.Counted
  /-- The arena keeps its capacity. -/
  same : arena.capacity = capacity

/-- What a completed free writes. -/
theorem free_writes (completed : arena.free i = .ok arena') :
    (arena.find i).isSome = true ∧ arena'.capacity = arena.capacity ∧
      arena'.data = arena.data.setIfInBounds i.toNat none ∧
      arena'.generation = arena.generation.modify i.toNat (· + 1) := by
  unfold Arena.free at completed
  split at completed
  · rename_i order found
    obtain rfl := Except.ok.inj completed
    exact ⟨by simp [found], rfl, rfl, rfl⟩
  · contradiction

/-- What an allocation that finds a slot writes. -/
theorem alloc_writes (taken : arena.alloc order = some (index, arena')) :
    arena'.capacity = arena.capacity ∧
      arena'.data = arena.data.setIfInBounds index.toNat (some order) ∧
      arena'.generation = arena.generation.modify index.toNat (· + 1) := by
  unfold alloc at taken
  split at taken
  · contradiction
  · simp only [Option.some.injEq, Prod.mk.injEq] at taken
    obtain ⟨rfl, rfl⟩ := taken
    exact ⟨rfl, rfl, rfl⟩

/-- A slot that an allocation takes is below the capacity. -/
theorem alloc_lt (inv : arena.Inv) (taken : arena.alloc order = some (index, arena')) :
    index.toNat < arena.capacity.toNat := by
  obtain ⟨-, -, head, -, -⟩ := alloc_some inv taken
  obtain ⟨free, list⟩ := inv
  have proper : arena.freeHead ≠ freeListEnd := fun ended => by
    rw [alloc_none.mpr ended] at taken
    contradiction
  have chain := list.chain
  cases free with
  | nil => exact absurd chain proper
  | cons first rest =>
    obtain ⟨same, inside, -⟩ := chain
    rwa [head, same, ← list.nextSize]

/-- A new arena meets the invariant. -/
theorem runInv_new (capacity : UInt32) : RunInv capacity (Arena.new capacity) :=
  ⟨new_inv capacity, new_counted capacity, rfl⟩

/-- An allocation keeps the invariant. -/
theorem RunInv.alloc (held : RunInv capacity arena)
    (taken : arena.alloc order = some (index, arena')) : RunInv capacity arena' := by
  obtain ⟨vacant, -, -, -, inv⟩ := alloc_some held.inv taken
  obtain ⟨same, written, counts⟩ := alloc_writes taken
  have inside : index.toNat < arena.data.size := by
    obtain ⟨free, list⟩ := held.inv
    rw [list.dataSize]
    exact alloc_lt ⟨free, list⟩ taken
  have turned : (some order).isSome = true ↔ ¬(arena.find index).isSome = true := by
    simp [vacant]
  exact ⟨inv, held.counted.turn inside turned written counts, same.trans held.same⟩

/-- A free keeps the invariant. -/
theorem RunInv.free (held : RunInv capacity arena) (completed : arena.free i = .ok arena') :
    RunInv capacity arena' := by
  obtain ⟨occupied, same, written, counts⟩ := free_writes completed
  obtain ⟨order, found⟩ := Option.isSome_iff_exists.mp occupied
  obtain ⟨freed, frees, -, -, inv⟩ := free_ok held.inv found
  have result : freed = arena' := Except.ok.inj (frees.symm.trans completed)
  have turned : (none : Option Order).isSome = true ↔ ¬(arena.find i).isSome = true := by
    simp [found]
  exact ⟨result ▸ inv, held.counted.turn (find_lt found) turned written counts,
    same.trans held.same⟩

/-- Every arena reached meets the invariant. -/
theorem ArenaRun.inv (run : ArenaRun capacity arena) : RunInv capacity arena := by
  refine Reached.invariant (fun arena begins => begins ▸ runInv_new capacity) ?_ run
  intro arena call following held _ completed
  cases call with
  | alloc order =>
    simp only [Call.apply, Except.ok.injEq] at completed
    cases taken : arena.alloc order with
    | none =>
      rw [taken] at completed
      exact completed ▸ held
    | some result =>
      rw [taken] at completed
      exact completed ▸ held.alloc taken
  | free i => exact held.free completed

/-- The free list is exact: it holds the free slots, and a call moves one slot between it and
the occupied slots. -/
structure FreeListExact (capacity : UInt32) (arena : Arena) : Prop where
  /-- The arena has the capacity it was created with, with one slot and one link a unit. -/
  size : arena.capacity = capacity ∧ arena.data.size = capacity.toNat ∧
    arena.nextFree.size = capacity.toNat
  /-- The chain from `free_head` visits the free slots, each once, up to the end mark. -/
  chain : ∃ free : List ArenaIndex, FreeChain arena.nextFree arena.freeHead free ∧ free.Nodup ∧
    ∀ i : ArenaIndex, i ∈ free ↔ i.toNat < capacity.toNat ∧ arena.find i = none
  /-- `len` is the number of occupied slots. -/
  len : arena.len.toNat = arena.occupied.length
  /-- An allocation returns none exactly when every slot is occupied. -/
  full : ∀ order, arena.alloc order = none ↔ arena.len = capacity
  /-- Any other allocation puts the order in a slot that was free, and nothing else changes. -/
  alloc : ∀ order index following, arena.alloc order = some (index, following) →
    index.toNat < capacity.toNat ∧ index ≠ arenaNull ∧ arena.find index = none ∧
      ∀ j, following.find j = if j = index then some order else arena.find j
  /-- A free of an occupied slot completes, empties it, and nothing else changes. -/
  free : ∀ i, (arena.find i).isSome = true → ∃ following, arena.free i = .ok following ∧
    ∀ j, following.find j = if j = i then none else arena.find j
  /-- The debug count of a slot is odd exactly while the slot is occupied. -/
  generation : arena.generation.size = capacity.toNat ∧ ∀ i : ArenaIndex,
    i.toNat < capacity.toNat →
      (arena.generation.getD i.toNat 0 % 2 = 1 ↔ (arena.find i).isSome = true)

/-- Whatever calls are made of a new arena, as long as each free names an occupied slot, the
free list is exact. -/
theorem freeList_exact (run : ArenaRun capacity arena) : FreeListExact capacity arena := by
  have held := run.inv
  obtain ⟨free, list⟩ := held.inv
  have same := held.same
  have size : arena.data.size = capacity.toNat := by rw [list.dataSize, same]
  refine {
    size := ⟨same, size, by rw [list.nextSize, same]⟩
    chain := ⟨free, list.chain, list.nodup, fun i => by rw [list.vacant i, same]⟩
    len := list.len_eq
    full := fun order => by rw [alloc_none, list.full_iff, same]
    alloc := fun order index following taken => ?_
    free := fun i occupied => ?_
    generation := ⟨held.counted.size.trans size, fun i below =>
      held.counted.odd i (size ▸ below)⟩ }
  · obtain ⟨vacant, proper, -, seen, -⟩ := alloc_some held.inv taken
    have inside := alloc_lt held.inv taken
    rw [same] at inside
    exact ⟨inside, proper, vacant, seen⟩
  · obtain ⟨order, found⟩ := Option.isSome_iff_exists.mp occupied
    obtain ⟨following, completed, seen, -, -⟩ := free_ok held.inv found
    exact ⟨following, completed, seen⟩

/-- An order to put in a slot. -/
def sampleOrder (id : OrderId) : Order where
  id := id
  price := 10
  quantity := 1
  filled := 0
  timestamp := 0
  visibleQuantity := 0
  stpGroup := stpNone
  prev := arenaNull
  next := arenaNull
  side := .bid
  orderType := .limit
  timeInForce := .gtc

/-- Two slots are filled, the first one is freed and filled again: the arena is full. -/
theorem freeList_exact_after_reuse : ∃ arena, ArenaRun 2 arena ∧ FreeListExact 2 arena ∧
    (arena.len == 2 && (arena.find 0).map Order.id == some 3) = true := by
  obtain ⟨arena, run, shown⟩ : ∃ arena, ArenaRun 2 arena ∧
      (arena.len == 2 && (arena.find 0).map Order.id == some 3) = true :=
    Reached.exists_checkedRun (fun arena call => decide (Call.Legal arena call)) _
      (fun _ _ => of_decide_eq_true) rfl
      [.alloc (sampleOrder 1), .alloc (sampleOrder 2), .free 0, .alloc (sampleOrder 3)]
      (by decide +kernel)
  exact ⟨arena, run, freeList_exact run, shown⟩

end MatchX.Arena
