import Mathlib.Data.List.Nodup
import Mathlib.Data.List.Perm.Subperm
import MatchX.Arena

/-!
# The free list of the arena

`Arena.FreeList arena free` says that the free list visits exactly the slots of `free`, once
each, that these are the slots without an order, and that `len` counts the others. Allocation
takes the head of the list and freeing puts a slot in front, so both keep it. Reads and writes
of slots are described by `find` alone.
-/

namespace MatchX

/-- The chain of slot numbers from `head` through the array of next slots. -/
def FreeChain (next : Array UInt32) : UInt32 → List ArenaIndex → Prop
  | head, [] => head = freeListEnd
  | head, i :: rest =>
    head = i ∧ i.toNat < next.size ∧ FreeChain next (next.getD i.toNat freeListEnd) rest

/-- Writing a slot that is not on a chain leaves the chain as it is. -/
theorem freeChain_set {next : Array UInt32} {head value : UInt32} {free : List ArenaIndex}
    {i : ArenaIndex} (chain : FreeChain next head free) (apart : i ∉ free) :
    FreeChain (next.setIfInBounds i.toNat value) head free := by
  induction free generalizing head with
  | nil => exact chain
  | cons j rest ih =>
    obtain ⟨same, inside, tail⟩ := chain
    simp only [List.mem_cons, not_or] at apart
    refine ⟨same, by simpa using inside, ?_⟩
    have other : i.toNat ≠ j.toNat := fun h => apart.1 (UInt32.toNat_inj.mp h)
    have value : (next.setIfInBounds i.toNat value).getD j.toNat freeListEnd =
        next.getD j.toNat freeListEnd := by
      simp [Array.getD_eq_getD_getElem?, Array.getElem?_setIfInBounds_ne other]
    rw [value]
    exact ih tail apart.2

namespace Arena

variable {arena arena' : Arena} {order : Order} {index i j : ArenaIndex}

/-- The free list visits exactly the slots of `free`. -/
structure FreeList (arena : Arena) (free : List ArenaIndex) : Prop where
  /-- One slot a unit of capacity. -/
  dataSize : arena.data.size = arena.capacity.toNat
  /-- One link a slot. -/
  nextSize : arena.nextFree.size = arena.capacity.toNat
  /-- The chain from the head. -/
  chain : FreeChain arena.nextFree arena.freeHead free
  /-- No slot is visited twice. -/
  nodup : free.Nodup
  /-- The slots visited are those without an order. -/
  vacant : ∀ i, i ∈ free ↔ i.toNat < arena.capacity.toNat ∧ arena.find i = none
  /-- The other slots are counted. -/
  count : arena.len.toNat + free.length = arena.capacity.toNat

/-- Some free list is exact. -/
def Inv (arena : Arena) : Prop := ∃ free, arena.FreeList free

/-- Distinct slot numbers below a bound are no more than the bound. -/
theorem length_le_of_lt {slots : List ArenaIndex} {bound : Nat} (nodup : slots.Nodup)
    (below : ∀ i ∈ slots, i.toNat < bound) : slots.length ≤ bound := by
  have distinct : (slots.map UInt32.toNat).Nodup :=
    List.Nodup.map (fun _ _ same => UInt32.toNat_inj.mp same) nodup
  have subset : slots.map UInt32.toNat ⊆ List.range bound := by
    intro k member
    obtain ⟨i, inside, rfl⟩ := List.mem_map.mp member
    exact List.mem_range.mpr (below i inside)
  simpa using (distinct.subperm subset).length_le

/-- An occupied slot is one of the slots. -/
theorem find_lt (found : arena.find i = some order) : i.toNat < arena.data.size := by
  unfold find at found
  by_cases inside : i.toNat < arena.data.size
  · exact inside
  · simp [Array.getElem?_eq_none (Nat.le_of_not_lt inside)] at found

/-- An occupied slot is not the sentinel, since no capacity reaches it. -/
theorem find_ne_null (inv : arena.Inv) (found : arena.find i = some order) : i ≠ arenaNull := by
  obtain ⟨free, list⟩ := inv
  have inside := find_lt found
  rw [list.dataSize] at inside
  have bound := arena.capacity.toNat_lt
  rintro rfl
  simp only [arenaNull] at inside
  have : (0xffffffff : UInt32).toNat = 4294967295 := rfl
  omega

/-- A read succeeds exactly on an occupied slot. -/
theorem get_ok : arena.get i = .ok order ↔ arena.find i = some order := by
  unfold get
  cases arena.find i <;> simp

/-- Reading a slot after one slot is overwritten. -/
theorem find_set {value : Option Order} (inside : i.toNat < arena.data.size)
    (written : arena'.data = arena.data.setIfInBounds i.toNat value) (j : ArenaIndex) :
    arena'.find j = if j = i then value else arena.find j := by
  rw [find, written]
  by_cases same : j = i
  · subst same
    simp [inside]
  · have other : i.toNat ≠ j.toNat := fun h => same (UInt32.toNat_inj.mp h).symm
    simp [find, Array.getElem?_setIfInBounds_ne other, same]

/-- A write through a mutable reference changes one occupied slot. -/
theorem modify_ok (change : Order → Order) (found : arena.find i = some order) :
    ∃ arena', arena.modify i change = .ok arena' ∧
      (∀ j, arena'.find j = if j = i then some (change order) else arena.find j) ∧
      arena'.freeHead = arena.freeHead ∧ (arena.Inv → arena'.Inv) := by
  let written := { arena with
    data := arena.data.setIfInBounds i.toNat (some (change order)) }
  have seen : ∀ j, written.find j = if j = i then some (change order) else arena.find j :=
    find_set (find_lt found) rfl
  refine ⟨written, by simp only [modify, found]; rfl, seen, rfl, fun ⟨free, list⟩ => ⟨free, ?_⟩⟩
  refine ⟨by simpa [written] using list.dataSize, list.nextSize, list.chain, list.nodup,
    fun j => ?_, list.count⟩
  rw [list.vacant j, seen]
  by_cases same : j = i
  · simp [same, found]
  · simp [same, written]

/-- The sentinel is no occupied slot. -/
theorem find_null (inv : arena.Inv) : arena.find arenaNull = none := by
  cases occupied : arena.find arenaNull with
  | none => rfl
  | some order => exact absurd rfl (find_ne_null inv occupied)

/-- A write to a slot unless it is the sentinel. -/
theorem modify_unless_null {target : ArenaIndex} (inv : arena.Inv) (change : Order → Order)
    (stored : target ≠ arenaNull → ∃ order, arena.find target = some order) :
    ∃ arena', (if target ≠ arenaNull then arena.modify target change = .ok arena'
        else arena' = arena) ∧ arena'.Inv ∧
      ∀ j, arena'.find j = (arena.find j).map fun order =>
        if target = j then change order else order := by
  by_cases proper : target ≠ arenaNull
  · obtain ⟨order, found⟩ := stored proper
    obtain ⟨arena', write, seen, -, keeps⟩ := modify_ok change found
    refine ⟨arena', by rw [if_pos proper]; exact write, keeps inv, fun j => ?_⟩
    rw [seen]
    by_cases here : j = target
    · simp [here, found]
    · simp [here, Ne.symm here]
  · refine ⟨arena, by rw [if_neg proper], inv, fun j => ?_⟩
    rw [ne_eq, not_not] at proper
    by_cases here : target = j
    · rw [← here, proper, find_null inv]
      rfl
    · simp [here]

/-- Two writes to a slot, one after the other, are one. -/
theorem modify_modify {change later : Order → Order}
    (written : arena.modify i change = .ok arena') :
    arena'.modify i later = arena.modify i fun order => later (change order) := by
  cases found : arena.find i with
  | none => simp [modify, found] at written
  | some order =>
    simp only [modify, found, Except.ok.injEq] at written ⊢
    subst written
    rw [find_set (find_lt found) rfl i, if_pos rfl]
    simp [Array.setIfInBounds_setIfInBounds]

/-- Allocation fails exactly on an empty free list. -/
theorem alloc_none : arena.alloc order = none ↔ arena.freeHead = freeListEnd := by
  unfold alloc
  split <;> simp_all

/-- Allocation puts the order in a slot that was free. -/
theorem alloc_some (inv : arena.Inv) (taken : arena.alloc order = some (index, arena')) :
    arena.find index = none ∧ index ≠ arenaNull ∧ index = arena.freeHead ∧
      (∀ j, arena'.find j = if j = index then some order else arena.find j) ∧ arena'.Inv := by
  obtain ⟨free, list⟩ := inv
  unfold alloc at taken
  split at taken
  · contradiction
  rename_i proper
  simp only [Option.some.injEq, Prod.mk.injEq] at taken
  obtain ⟨rfl, rfl⟩ := taken
  have chain := list.chain
  cases free with
  | nil => exact absurd chain proper
  | cons first rest =>
    obtain ⟨same, -, tail⟩ := chain
    obtain ⟨inside, empty⟩ := (list.vacant first).mp List.mem_cons_self
    obtain ⟨fresh, nodup⟩ := List.nodup_cons.mp list.nodup
    have bound := arena.capacity.toNat_lt
    subst same
    have slot : arena.freeHead.toNat < arena.data.size := by rw [list.dataSize]; exact inside
    refine ⟨empty, proper, rfl, find_set slot rfl, rest, ?_⟩
    refine ⟨by simpa using list.dataSize, list.nextSize, tail, nodup, fun j => ?_, ?_⟩
    · rw [find_set slot rfl]
      by_cases head : j = arena.freeHead
      · simpa [head] using fresh
      · simpa [head] using list.vacant j
    · have counted := list.count
      simp only [List.length_cons] at counted
      simp only [UInt32.toNat_add, UInt32.reduceToNat]
      omega

/-- Freeing an occupied slot empties it and puts it in front of the free list. -/
theorem free_ok (inv : arena.Inv) (found : arena.find i = some order) :
    ∃ arena', arena.free i = .ok arena' ∧
      (∀ j, arena'.find j = if j = i then none else arena.find j) ∧
      arena'.freeHead = i ∧ arena'.Inv := by
  obtain ⟨free, list⟩ := inv
  have slot := find_lt found
  let freed := { arena with
    data := arena.data.setIfInBounds i.toNat none
    nextFree := arena.nextFree.setIfInBounds i.toNat arena.freeHead
    freeHead := i
    len := arena.len - 1
    generation := arena.generation.modify i.toNat (· + 1) }
  have seen : ∀ j, freed.find j = if j = i then none else arena.find j := find_set slot rfl
  refine ⟨freed, by simp only [Arena.free, found]; rfl, seen, rfl, i :: free, ?_⟩
  have occupied : i ∉ free := fun member => by
    simpa [found] using ((list.vacant i).mp member).2
  have inside : i.toNat < arena.nextFree.size := by
    rw [list.nextSize, ← list.dataSize]
    exact slot
  refine ⟨by simpa [freed] using list.dataSize, by simpa [freed] using list.nextSize, ?_,
    List.nodup_cons.mpr ⟨occupied, list.nodup⟩, fun j => ?_, ?_⟩
  · refine ⟨rfl, by simpa [freed] using inside, ?_⟩
    simp only [freed, Array.getD_eq_getD_getElem?, Array.getElem?_setIfInBounds, inside]
    exact freeChain_set list.chain occupied
  · rw [List.mem_cons, list.vacant j, seen]
    by_cases same : j = i
    · simpa [same, freed, list.dataSize] using slot
    · simp [same, freed]
  · have counted := list.count
    have bound := arena.capacity.toNat_lt
    have some_occupied : 0 < arena.len.toNat := by
      -- The occupied slot and the free ones are distinct slots.
      have distinct : (i :: free).Nodup := List.nodup_cons.mpr ⟨occupied, list.nodup⟩
      have below : ∀ j ∈ i :: free, j.toNat < arena.capacity.toNat := fun j member => by
        rcases List.mem_cons.mp member with same | member
        · rw [same, ← list.dataSize]
          exact slot
        · exact ((list.vacant j).mp member).1
      have fits := length_le_of_lt distinct below
      simp only [List.length_cons] at fits
      omega
    have fewer : (arena.len - 1).toNat = arena.len.toNat - 1 :=
      UInt32.toNat_sub_of_le _ _ (UInt32.le_iff_toNat_le.mpr some_occupied)
    simp only [freed, List.length_cons, fewer]
    omega

/-- No slot of a new arena is occupied. -/
theorem find_new (capacity : UInt32) (i : ArenaIndex) : (Arena.new capacity).find i = none := by
  simp only [find, new, Array.getElem?_replicate]
  split <;> rfl

/-- The slots of a new arena from slot `k` on are chained in order. -/
theorem new_chain (capacity : UInt32) (count k : Nat) (reach : k + count = capacity.toNat) :
    FreeChain (Arena.new capacity).nextFree
      (if k < capacity.toNat then UInt32.ofNat k else freeListEnd)
      ((List.range' k count).map UInt32.ofNat) := by
  induction count generalizing k with
  | zero => simp [FreeChain, show ¬k < capacity.toNat by omega]
  | succ count ih =>
    have inside : k < capacity.toNat := by omega
    have bound := capacity.toNat_lt
    have word : (UInt32.ofNat k).toNat = k :=
      UInt32.toNat_ofNat_of_lt' (by simp only [UInt32.size]; omega)
    rw [List.range'_succ, List.map_cons, if_pos inside]
    refine ⟨rfl, by simpa [new, word] using inside, ?_⟩
    have next := ih (k + 1) (by omega)
    simpa [new, word, Array.getD_eq_getD_getElem?, inside] using next

/-- The slot numbers below a bound. -/
theorem mem_slots_below {bound : Nat} (small : bound ≤ UInt32.size) :
    i ∈ (List.range bound).map UInt32.ofNat ↔ i.toNat < bound := by
  simp only [List.mem_map, List.mem_range]
  constructor
  · rintro ⟨k, inside, rfl⟩
    rwa [UInt32.toNat_ofNat_of_lt' (by omega)]
  · intro inside
    exact ⟨i.toNat, inside, UInt32.ofNat_toNat⟩

/-- They are distinct. -/
theorem nodup_slots_below {bound : Nat} (small : bound ≤ UInt32.size) :
    ((List.range bound).map UInt32.ofNat).Nodup := by
  refine List.Nodup.map_on (fun j hj k hk same => ?_) List.nodup_range
  rw [List.mem_range] at hj hk
  have numbers := congrArg UInt32.toNat same
  rwa [UInt32.toNat_ofNat_of_lt' (by omega), UInt32.toNat_ofNat_of_lt' (by omega)] at numbers

/-- A new arena has every slot free. -/
theorem new_inv (capacity : UInt32) : (Arena.new capacity).Inv := by
  have small := Nat.le_of_lt capacity.toNat_lt_size
  refine ⟨(List.range capacity.toNat).map UInt32.ofNat, by simp [new], by simp [new], ?_,
    nodup_slots_below small, fun i => ?_, by simp [new]⟩
  · have chain := new_chain capacity capacity.toNat 0 (by omega)
    rw [List.range_eq_range']
    simpa [new, UInt32.lt_iff_toNat_lt] using chain
  · rw [find_new, mem_slots_below small]
    simp [new]

/-- The order of an occupied slot is one of the orders. -/
theorem mem_orders_of_find (found : arena.find i = some order) : order ∈ arena.orders := by
  rw [orders, List.mem_filterMap]
  refine ⟨some order, ?_, rfl⟩
  rw [Array.mem_toList_iff, Array.mem_iff_getElem?]
  exact ⟨i.toNat, Option.join_eq_some_iff.mp found⟩

/-- A listed order is in some slot. -/
theorem exists_find (inv : arena.Inv) (listed : order ∈ arena.orders) :
    ∃ i, arena.find i = some order := by
  obtain ⟨free, list⟩ := inv
  obtain ⟨cell, member, stored⟩ := List.mem_filterMap.mp listed
  obtain ⟨k, inside, here⟩ := List.mem_iff_getElem.mp member
  have size : k < arena.data.size := by simpa using inside
  have fits : k < UInt32.size := by
    have capacity := arena.capacity.toNat_lt_size
    have total := list.dataSize
    omega
  refine ⟨UInt32.ofNat k, ?_⟩
  rw [find, UInt32.toNat_ofNat_of_lt' fits, Array.getElem?_eq_getElem size]
  simpa using here.trans stored

/-- Distinct occupied slots are no more than the capacity. -/
theorem length_le_capacity {slots : List ArenaIndex} (inv : arena.Inv) (nodup : slots.Nodup)
    (occupied : ∀ i ∈ slots, ∃ order, arena.find i = some order) :
    slots.length ≤ arena.capacity.toNat := by
  obtain ⟨free, list⟩ := inv
  refine length_le_of_lt nodup fun i member => ?_
  obtain ⟨order, found⟩ := occupied i member
  rw [← list.dataSize]
  exact find_lt found

end Arena

end MatchX
