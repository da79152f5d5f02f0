import MatchX.Types

/-!
# The arena

A fixed number of order slots with a free list threaded through a parallel array of slot
numbers. `MaybeUninit` slots are optional orders: a free slot holds none, and reading,
writing or freeing it is a fault. The debug build counts the allocations and frees of each
slot in `generation`; that count is kept here, its assertions are the `vacantSlot` faults.
-/

namespace MatchX

/-- End of the free list. -/
def freeListEnd : UInt32 := 0xffffffff

/-- Order slots and their free list. -/
structure Arena where
  /-- The slots. -/
  data : Array (Option Order)
  /-- For a free slot, the next free slot. -/
  nextFree : Array UInt32
  /-- First free slot. -/
  freeHead : UInt32
  /-- Number of occupied slots. -/
  len : UInt32
  /-- Number of slots. -/
  capacity : UInt32
  /-- Allocations and frees of each slot. -/
  generation : Array UInt64

namespace Arena

/-- `Arena::new`: every slot is free, each linked to the one after it. -/
def new (capacity : UInt32) : Arena where
  data := Array.replicate capacity.toNat none
  nextFree := Array.ofFn fun i : Fin capacity.toNat =>
    if i.val + 1 < capacity.toNat then UInt32.ofNat (i.val + 1) else freeListEnd
  freeHead := if 0 < capacity then 0 else freeListEnd
  len := 0
  capacity := capacity
  generation := Array.replicate capacity.toNat 0

/-- The order in a slot, if the slot is occupied. -/
def find (arena : Arena) (index : ArenaIndex) : Option Order :=
  (arena.data[index.toNat]?).join

/-- `Arena::get`. -/
def get (arena : Arena) (index : ArenaIndex) : Except Fault Order :=
  match arena.find index with
  | some order => .ok order
  | none => .error .vacantSlot

/-- A write through `Arena::get_mut`. -/
def modify (arena : Arena) (index : ArenaIndex) (change : Order → Order) :
    Except Fault Arena :=
  match arena.find index with
  | some order =>
    .ok { arena with data := arena.data.setIfInBounds index.toNat (some (change order)) }
  | none => .error .vacantSlot

/-- `Arena::alloc`: take the first free slot, or return none when there is none. -/
def alloc (arena : Arena) (order : Order) : Option (ArenaIndex × Arena) :=
  if arena.freeHead = freeListEnd then none
  else
    let index := arena.freeHead
    some (index, { arena with
      freeHead := arena.nextFree.getD index.toNat freeListEnd
      data := arena.data.setIfInBounds index.toNat (some order)
      len := arena.len + 1
      generation := arena.generation.modify index.toNat (· + 1) })

/-- `Arena::free`: put a slot at the front of the free list. -/
def free (arena : Arena) (index : ArenaIndex) : Except Fault Arena :=
  match arena.find index with
  | some _ => .ok { arena with
      data := arena.data.setIfInBounds index.toNat none
      nextFree := arena.nextFree.setIfInBounds index.toNat arena.freeHead
      freeHead := index
      len := arena.len - 1
      generation := arena.generation.modify index.toNat (· + 1) }
  | none => .error .vacantSlot

/-- Every order in the arena, in slot order. -/
def orders (arena : Arena) : List Order := arena.data.toList.filterMap id

end Arena

end MatchX
