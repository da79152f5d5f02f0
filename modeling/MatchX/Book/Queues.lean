import MatchX.ArenaInv
import MatchX.Support.LinkedList

/-!
# Level queues

What the links of the arena stand for: one queue of slots for every side and price. `Queued`
says that the occupied slots are exactly the slots of the queues, each in the queue of its
order's side and price, and that the links follow the queues. An order is compared by its
`resting` form, without links, so that what an operation does to the orders is stated apart
from how it mends the links around them.
-/

namespace MatchX

open MatchX.Support

namespace Order

variable (order : Order)

/-- The order without its links. -/
def unlinked : Order := { order with prev := arenaNull, next := arenaNull }

@[simp] theorem unlinked_id : order.unlinked.id = order.id := rfl
@[simp] theorem unlinked_side : order.unlinked.side = order.side := rfl
@[simp] theorem unlinked_price : order.unlinked.price = order.price := rfl
@[simp] theorem unlinked_quantity : order.unlinked.quantity = order.quantity := rfl
@[simp] theorem unlinked_filled : order.unlinked.filled = order.filled := rfl
@[simp] theorem unlinked_stpGroup : order.unlinked.stpGroup = order.stpGroup := rfl
@[simp] theorem unlinked_remaining : order.unlinked.remaining = order.remaining := rfl
@[simp] theorem unlinked_matchableQty : order.unlinked.matchableQty = order.matchableQty := rfl

/-- The order after more of it is filled. -/
def fill (delta : UInt64) : Order := { order with filled := order.filled + delta }

variable (delta : UInt64)

@[simp] theorem fill_id : (order.fill delta).id = order.id := rfl
@[simp] theorem fill_side : (order.fill delta).side = order.side := rfl
@[simp] theorem fill_price : (order.fill delta).price = order.price := rfl
@[simp] theorem fill_quantity : (order.fill delta).quantity = order.quantity := rfl
@[simp] theorem fill_filled : (order.fill delta).filled = order.filled + delta := rfl
@[simp] theorem fill_stpGroup : (order.fill delta).stpGroup = order.stpGroup := rfl
@[simp] theorem fill_unlinked : (order.fill delta).unlinked = order.unlinked.fill delta := rfl

variable {order delta}

/-- The remaining quantity of an order that is not overfilled. -/
theorem toNat_remaining (sound : order.filled ≤ order.quantity) :
    order.remaining.toNat = order.quantity.toNat - order.filled.toNat := by
  rw [remaining, saturatingSub, if_pos sound, UInt64.toNat_sub_of_le _ _ sound]

/-- Filling no more than what remains does not overfill, and lowers what remains by it. -/
theorem fill_sound (sound : order.filled ≤ order.quantity) (bound : delta ≤ order.remaining) :
    (order.fill delta).filled ≤ (order.fill delta).quantity ∧
      (order.fill delta).remaining = order.remaining - delta := by
  have left := toNat_remaining sound
  have most := UInt64.le_iff_toNat_le.mp bound
  have cap := order.quantity.toNat_lt
  have base := UInt64.le_iff_toNat_le.mp sound
  have sum : (order.filled + delta).toNat = order.filled.toNat + delta.toNat := by
    rw [UInt64.toNat_add]
    omega
  have filled : order.filled + delta ≤ order.quantity := by
    rw [UInt64.le_iff_toNat_le]
    omega
  refine ⟨filled, UInt64.toNat_inj.mp ?_⟩
  rw [toNat_remaining filled, UInt64.toNat_sub_of_le _ _ bound, left]
  simp only [fill_filled, fill_quantity, sum]
  omega

/-- What can be matched at once is no more than what remains. -/
theorem matchableQty_le : order.matchableQty ≤ order.remaining := by
  unfold matchableQty
  split
  · exact Std.min_le_right
  · exact UInt64.le_refl _

end Order

/-- How orders name their neighbours. -/
def orderLinks : Links ArenaIndex Order := ⟨Order.prev, Order.next⟩

namespace Arena

/-- The order in a slot without its links, if the slot is occupied. -/
def resting (arena : Arena) (index : ArenaIndex) : Option Order :=
  (arena.find index).map Order.unlinked

variable {arena : Arena} {index : ArenaIndex} {order : Order}

/-- An occupied slot rests its order. -/
theorem resting_of_find (found : arena.find index = some order) :
    arena.resting index = some order.unlinked := by
  rw [resting, found]
  rfl

/-- A resting order is in its slot, with links. -/
theorem find_of_resting (rests : arena.resting index = some order) :
    ∃ stored, arena.find index = some stored ∧ stored.unlinked = order :=
  Option.map_eq_some_iff.mp rests

/-- Nothing rests in a free slot. -/
theorem resting_eq_none : arena.resting index = none ↔ arena.find index = none := by
  simp [resting]

/-- The remaining quantity of a slot, zero when it is free. -/
def remainingAt (arena : Arena) (index : ArenaIndex) : Nat :=
  ((arena.resting index).map fun order => order.remaining.toNat).getD 0

/-- The remaining quantity of an occupied slot. -/
theorem remainingAt_of_resting (rests : arena.resting index = some order) :
    arena.remainingAt index = order.remaining.toNat := by
  rw [remainingAt, rests]
  rfl

end Arena

/-- The slots of the orders of each level, first to last. -/
abbrev Queues := Side → UInt64 → List ArenaIndex

namespace Queues

/-- Replace the queue of one level. -/
def set (queues : Queues) (side : Side) (price : UInt64) (queue : List ArenaIndex) : Queues :=
  fun side' price' => if side' = side ∧ price' = price then queue else queues side' price'

variable {queues : Queues} {side side' : Side} {price price' : UInt64} {queue : List ArenaIndex}

/-- The queue that was replaced. -/
@[simp] theorem set_same : queues.set side price queue side price = queue := by simp [set]

/-- The other queues are kept. -/
theorem set_other (apart : ¬(side' = side ∧ price' = price)) :
    queues.set side price queue side' price' = queues side' price' := by simp [set, apart]

/-- Who is queued once a slot is appended to a queue. -/
theorem mem_set_append {index other : ArenaIndex} :
    other ∈ queues.set side price (queues side price ++ [index]) side' price' ↔
      other ∈ queues side' price' ∨ (other = index ∧ side' = side ∧ price' = price) := by
  unfold set
  split
  · rename_i same
    rw [same.1, same.2]
    simp
  · rename_i apart
    simp [apart]

end Queues

/-- The occupied slots are the slots of the queues, linked in queue order. -/
structure Queued (arena : Arena) (queues : Queues) : Prop where
  /-- The free list is exact. -/
  slots : arena.Inv
  /-- No resting order is overfilled. -/
  sound : ∀ {i order}, arena.resting i = some order → order.filled ≤ order.quantity
  /-- A resting order is in the queue of its side and price. -/
  placed : ∀ {i order}, arena.resting i = some order → i ∈ queues order.side order.price
  /-- A slot of a queue holds an order of that side and price. -/
  stored : ∀ {side price i}, i ∈ queues side price →
    ∃ order, arena.resting i = some order ∧ order.side = side ∧ order.price = price
  /-- The links follow the queue. -/
  linked : ∀ side price, Linked orderLinks arena.find arenaNull (queues side price) arenaNull
  /-- No slot is queued twice. -/
  nodup : ∀ side price, (queues side price).Nodup

namespace Queued

variable {arena arena' : Arena} {queues : Queues} {order : Order} {index : ArenaIndex}
  {side side' : Side} {price price' delta : UInt64}

/-- No order rests in a new arena. -/
theorem new (capacity : UInt32) : Queued (Arena.new capacity) fun _ _ => [] := by
  have vacant : ∀ i, (Arena.new capacity).resting i = none := fun i =>
    Arena.resting_eq_none.mpr (Arena.find_new capacity i)
  refine ⟨Arena.new_inv capacity, ?_, ?_, ?_, fun _ _ => trivial, fun _ _ => List.nodup_nil⟩
  · intro i order rests
    simp [vacant] at rests
  · intro i order rests
    simp [vacant] at rests
  · intro side price i member
    simp at member

/-- A slot is in one queue at most. -/
theorem same_queue (queued : Queued arena queues) (member : index ∈ queues side price)
    (member' : index ∈ queues side' price') : side' = side ∧ price' = price := by
  obtain ⟨order, rests, rfl, rfl⟩ := queued.stored member
  obtain ⟨order', rests', rfl, rfl⟩ := queued.stored member'
  rw [rests] at rests'
  obtain rfl := Option.some.inj rests'
  exact ⟨rfl, rfl⟩

/-- The order of an occupied slot is not overfilled. -/
theorem find_sound (queued : Queued arena queues) (found : arena.find index = some order) :
    order.filled ≤ order.quantity := by
  have sound := queued.sound (Arena.resting_of_find found)
  exact sound

/-- The slot of an occupied slot's order is queued at its side and price. -/
theorem find_placed (queued : Queued arena queues) (found : arena.find index = some order) :
    index ∈ queues order.side order.price := by
  have placed := queued.placed (Arena.resting_of_find found)
  exact placed

/-- A queue in which an occupied slot stands, cut at it: the links of its order name the ends
of the parts around it. -/
theorem cut (queued : Queued arena queues) (found : arena.find index = some order) :
    ∃ front back, queues order.side order.price = front ++ index :: back ∧
      order.prev = front.getLastD arenaNull ∧ order.next = back.headD arenaNull := by
  obtain ⟨front, back, split⟩ := List.append_of_mem (queued.find_placed found)
  have linked := queued.linked order.side order.price
  rw [split] at linked
  obtain ⟨node, found', prev, next⟩ := linked_middle linked
  rw [found] at found'
  obtain rfl := Option.some.inj found'
  exact ⟨front, back, split, prev, next⟩

/-- An order put in a free slot and linked behind the last order of its level is appended to
the queue of the level. -/
theorem push (queued : Queued arena queues) (free : arena.find index = none)
    (inv : arena'.Inv) (sound : order.filled ≤ order.quantity)
    (written : ∀ j, arena'.find j =
      if j = index then
        some { order with
          prev := (queues order.side order.price).getLastD arenaNull, next := arenaNull }
      else if (queues order.side order.price).getLast? = some j then
        (arena.find j).map fun last => { last with next := index }
      else arena.find j) :
    (∀ j, arena'.resting j = if j = index then some order.unlinked else arena.resting j) ∧
      Queued arena' (queues.set order.side order.price
        (queues order.side order.price ++ [index])) := by
  have rests : ∀ j,
      arena'.resting j = if j = index then some order.unlinked else arena.resting j := by
    intro j
    rw [Arena.resting, written]
    split
    · rfl
    · split
      · rw [Option.map_map]
        rfl
      · rfl
  have unqueued : ∀ side price, index ∉ queues side price := by
    intro side price member
    obtain ⟨stored, resting, -⟩ := queued.stored member
    rw [Arena.resting_eq_none.mpr free] at resting
    contradiction
  refine ⟨rests, inv, ?_, ?_, ?_, ?_, ?_⟩
  · intro j other resting
    rw [rests] at resting
    split at resting
    · obtain rfl := Option.some.inj resting
      exact sound
    · exact queued.sound resting
  · intro j other resting
    rw [rests] at resting
    split at resting
    · rename_i same
      obtain rfl := Option.some.inj resting
      exact Queues.mem_set_append.mpr (.inr ⟨same, rfl, rfl⟩)
    · exact Queues.mem_set_append.mpr (.inl (queued.placed resting))
  · intro side price j member
    rcases Queues.mem_set_append.mp member with old | ⟨rfl, rfl, rfl⟩
    · obtain ⟨stored, resting, places⟩ := queued.stored old
      refine ⟨stored, ?_, places⟩
      rw [rests, if_neg fun same => unqueued _ _ (same ▸ old)]
      exact resting
    · exact ⟨order.unlinked, by rw [rests, if_pos rfl], rfl, rfl⟩
  · intro side price
    unfold Queues.set
    split
    · refine linked_push (queued.nodup _ _) (queued.linked _ _) (fun j member node found => ?_) ?_
      · have other : j ≠ index := fun same => unqueued _ _ (same ▸ member)
        rw [written, if_neg other]
        split
        · exact ⟨{ node with next := index }, by rw [found]; rfl, rfl, rfl⟩
        · exact ⟨node, found, rfl, rfl⟩
      · exact ⟨{ order with
          prev := (queues order.side order.price).getLastD arenaNull, next := arenaNull },
          by rw [written, if_pos rfl], rfl, rfl⟩
    · rename_i apart
      refine linked_congr (queued.linked side price) fun j member node found => ?_
      refine ⟨node, ?_, rfl, rfl⟩
      rw [written, if_neg fun same => unqueued _ _ (same ▸ member), if_neg, found]
      exact fun last => apart (queued.same_queue (List.mem_of_getLast? last) member)
  · intro side price
    unfold Queues.set
    split
    · exact List.nodup_append.mpr ⟨queued.nodup _ _, List.nodup_singleton _,
        fun i member j last same =>
          unqueued _ _ ((List.mem_singleton.mp last ▸ same) ▸ member)⟩
    · exact queued.nodup side price

/-- Who is queued once an occupied slot is taken out of its queue. -/
theorem mem_set_erase (queued : Queued arena queues) (found : arena.find index = some order)
    {other : ArenaIndex} :
    other ∈ queues.set order.side order.price ((queues order.side order.price).erase index)
        side price ↔
      other ≠ index ∧ other ∈ queues side price := by
  unfold Queues.set
  split
  · rename_i same
    rw [same.1, same.2]
    exact List.Nodup.mem_erase_iff (queued.nodup _ _)
  · rename_i apart
    refine (and_iff_right_of_imp fun member => ?_).symm
    rintro rfl
    exact apart (queued.same_queue (queued.find_placed found) member)

/-- A link that names the end of a part in front names an occupied slot if it is that end. -/
theorem getLastD_eq_iff (queued : Queued arena queues) (found : arena.find index = some order)
    {front : List ArenaIndex} :
    front.getLastD arenaNull = index ↔ front.getLast? = some index := by
  have proper := Arena.find_ne_null queued.slots found
  rw [List.getLastD_eq_getLast?]
  cases front.getLast? with
  | none => simpa using proper.symm
  | some last => simp

/-- A link that names the beginning of a part behind names an occupied slot if it is that
beginning. -/
theorem headD_eq_iff (queued : Queued arena queues) (found : arena.find index = some order)
    {back : List ArenaIndex} : back.headD arenaNull = index ↔ back.head? = some index := by
  have proper := Arena.find_ne_null queued.slots found
  rw [List.headD_eq_head?_getD]
  cases back.head? with
  | none => simpa using proper.symm
  | some first => simp

/-- An order whose neighbours are linked to each other and whose slot is freed is deleted from
the queue of its level. -/
theorem unlink (queued : Queued arena queues) (found : arena.find index = some order)
    (inv : arena'.Inv)
    (written : ∀ j, arena'.find j =
      if j = index then none
      else (arena.find j).map fun node => { node with
        prev := if order.next = j then order.prev else node.prev
        next := if order.prev = j then order.next else node.next }) :
    (∀ j, arena'.resting j = if j = index then none else arena.resting j) ∧
      Queued arena' (queues.set order.side order.price
        ((queues order.side order.price).erase index)) := by
  have rests : ∀ j, arena'.resting j = if j = index then none else arena.resting j := by
    intro j
    rw [Arena.resting, written]
    split
    · rfl
    · rw [Option.map_map]
      rfl
  obtain ⟨front, back, parts, prev, next⟩ := queued.cut found
  have nodup := queued.nodup order.side order.price
  have linked := queued.linked order.side order.price
  have inFront : index ∉ front := fun member =>
    (List.nodup_append.mp (parts ▸ nodup)).2.2 index member index List.mem_cons_self rfl
  have erased : (queues order.side order.price).erase index = front ++ back := by
    rw [parts, List.erase_append_right _ inFront, List.erase_cons_head]
  refine ⟨rests, inv, ?_, ?_, ?_, ?_, ?_⟩
  · intro j other resting
    rw [rests] at resting
    split at resting
    · contradiction
    · exact queued.sound resting
  · intro j other resting
    rw [rests] at resting
    split at resting
    · contradiction
    · rename_i others
      exact (queued.mem_set_erase found).mpr ⟨others, queued.placed resting⟩
  · intro side price j member
    obtain ⟨others, member⟩ := (queued.mem_set_erase found).mp member
    obtain ⟨stored, resting, places⟩ := queued.stored member
    exact ⟨stored, by rw [rests, if_neg others]; exact resting, places⟩
  · intro side price
    unfold Queues.set
    split
    · rw [erased]
      refine linked_unlink (parts ▸ nodup) (parts ▸ linked) fun j member node held => ?_
      have others := ((List.Nodup.mem_erase_iff nodup).mp (erased ▸ member)).1
      refine ⟨{ node with
        prev := if order.next = j then order.prev else node.prev
        next := if order.prev = j then order.next else node.next }, ?_, ?_, ?_⟩
      · rw [written, if_neg others, held]
        rfl
      · simp only [orderLinks, next, queued.headD_eq_iff held, prev]
      · simp only [orderLinks, prev, queued.getLastD_eq_iff held, next]
    · rename_i other
      refine linked_congr (queued.linked side price) fun j member node held => ?_
      have outside : j ∉ queues order.side order.price := fun member' =>
        other (queued.same_queue member' member)
      rw [parts] at outside
      have notPrev : order.prev ≠ j := by
        rw [prev, Ne, queued.getLastD_eq_iff held]
        exact fun last => outside (List.mem_append_left _ (List.mem_of_getLast? last))
      have notNext : order.next ≠ j := by
        rw [next, Ne, queued.headD_eq_iff held]
        exact fun first => outside (List.mem_append_right _
          (List.mem_cons_of_mem _ (List.mem_of_mem_head? first)))
      have others : j ≠ index := by
        rintro rfl
        exact outside (List.mem_append_right _ List.mem_cons_self)
      refine ⟨node, ?_, rfl, rfl⟩
      rw [written, if_neg others, held, Option.map_some, if_neg notNext, if_neg notPrev]
  · intro side price
    unfold Queues.set
    split
    · exact nodup.erase index
    · exact queued.nodup side price

/-- An order of which no more is taken than remains stays in its queue. -/
theorem take (queued : Queued arena queues) (found : arena.find index = some order)
    (inv : arena'.Inv) (bound : delta ≤ order.remaining)
    (written : ∀ j, arena'.find j =
      if j = index then some (order.fill delta) else arena.find j) :
    (∀ j, arena'.resting j =
        if j = index then some (order.unlinked.fill delta) else arena.resting j) ∧
      Queued arena' queues := by
  have rests : ∀ j, arena'.resting j =
      if j = index then some (order.unlinked.fill delta) else arena.resting j := by
    intro j
    rw [Arena.resting, written]
    split <;> rfl
  refine ⟨rests, inv, ?_, ?_, ?_, ?_, queued.nodup⟩
  · intro j other resting
    rw [rests] at resting
    split at resting
    · obtain rfl := Option.some.inj resting
      exact (Order.fill_sound (queued.find_sound found) bound).1
    · exact queued.sound resting
  · intro j other resting
    rw [rests] at resting
    split at resting
    · rename_i same
      obtain rfl := Option.some.inj resting
      rw [same]
      have placed := queued.find_placed found
      exact placed
    · exact queued.placed resting
  · intro side price j member
    obtain ⟨stored, resting, places⟩ := queued.stored member
    by_cases same : j = index
    · subst same
      rw [Arena.resting_of_find found] at resting
      obtain rfl := Option.some.inj resting
      exact ⟨order.unlinked.fill delta, by rw [rests, if_pos rfl], places⟩
    · exact ⟨stored, by rw [rests, if_neg same]; exact resting, places⟩
  · intro side price
    refine linked_congr (queued.linked side price) fun j member node held => ?_
    by_cases same : j = index
    · subst same
      rw [found] at held
      obtain rfl := Option.some.inj held
      exact ⟨order.fill delta, by rw [written, if_pos rfl], rfl, rfl⟩
    · exact ⟨node, by rw [written, if_neg same]; exact held, rfl, rfl⟩

end Queued

end MatchX
