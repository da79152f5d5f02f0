import MatchX.Book.Operations

/-!
# The abstract book

What the book is for, without slots, links and containers: a list of orders for every side and
price, first come first. Inserting appends, removing deletes the order of an id, and filling
lowers what remains of the order of an id. Each operation of the concrete book does just that
to the lists its queues stand for.
-/

namespace MatchX

/-- The orders of each side and price, first to last, without links. -/
abbrev FifoBook := Side → UInt64 → List Order

namespace FifoBook

/-- Append an order to its level. -/
def append (book : FifoBook) (order : Order) : FifoBook := fun side price =>
  if side = order.side ∧ price = order.price then book side price ++ [order] else book side price

/-- Delete the order of an id. -/
def delete (book : FifoBook) (id : OrderId) : FifoBook := fun side price =>
  (book side price).filter fun order => order.id ≠ id

/-- Fill the order of an id by a quantity. -/
def fill (book : FifoBook) (id : OrderId) (delta : UInt64) : FifoBook := fun side price =>
  (book side price).map fun order => if order.id = id then order.fill delta else order

end FifoBook

/-- The orders that queues of slots stand for. -/
def fifo (arena : Arena) (queues : Queues) : FifoBook := fun side price =>
  (queues side price).filterMap arena.resting

variable {ticks : UInt32} {book book' : OrderBook ticks} {arena arena' : Arena} {queues : Queues}
  {order : Order} {index : ArenaIndex}

/-- The orders of a queue whose slots rest what they did are the same. -/
theorem filterMap_resting_congr {queue : List ArenaIndex}
    (same : ∀ i ∈ queue, arena'.resting i = arena.resting i) :
    queue.filterMap arena'.resting = queue.filterMap arena.resting := by
  induction queue with
  | nil => rfl
  | cons i rest ih =>
    rw [List.filterMap_cons, List.filterMap_cons, same i List.mem_cons_self,
      ih fun j member => same j (List.mem_cons_of_mem i member)]

/-- An insertion appends to the abstract book. -/
theorem Inserted.fifo_eq (inserted : Inserted book arena queues order index book' arena')
    (queued : Queued arena queues) :
    fifo arena' (queues.append order index) = (fifo arena queues).append order := by
  funext side price
  have kept : (queues side price).filterMap arena'.resting =
      (queues side price).filterMap arena.resting :=
    filterMap_resting_congr (queued.resting_kept inserted.fresh inserted.resting)
  simp only [fifo, FifoBook.append, Queues.append, Queues.set]
  split
  · rename_i same
    obtain ⟨rfl, rfl⟩ := same
    rw [List.filterMap_append, kept]
    simp [inserted.resting]
  · exact kept

/-- A removal deletes from the abstract book. -/
theorem Removed.fifo_eq (removed : Removed book arena queues order index book' arena')
    (rep : Represents book arena queues) :
    fifo arena' (queues.delete order index) = (fifo arena queues).delete order.id := by
  funext side price
  have kept : ∀ queue : List ArenaIndex, index ∉ queue →
      queue.filterMap arena'.resting = queue.filterMap arena.resting ∧
      (queue.filterMap arena.resting).filter (fun other => decide (other.id ≠ order.id)) =
        queue.filterMap arena.resting := fun queue absent => by
    constructor
    · refine filterMap_resting_congr fun i member => ?_
      have other : i ≠ index := fun same => absent (same ▸ member)
      rw [removed.resting, if_neg other]
    · refine List.filter_eq_self.mpr fun other inside => ?_
      obtain ⟨i, member, rests⟩ := List.mem_filterMap.mp inside
      refine decide_eq_true fun same => absent ?_
      rw [← rep.slot_unique rests removed.found same]
      exact member
  simp only [fifo, FifoBook.delete, Queues.delete, Queues.set]
  split
  · rename_i same
    obtain ⟨rfl, rfl⟩ := same
    have nodup := rep.nodup order.side order.price
    obtain ⟨front, back, parts⟩ := List.append_of_mem (rep.placed removed.found)
    rw [parts] at nodup ⊢
    have inFront : index ∉ front := fun member =>
      (List.nodup_append.mp nodup).2.2 index member index List.mem_cons_self rfl
    have inBack : index ∉ back := (List.nodup_cons.mp (List.nodup_append.mp nodup).2.1).1
    rw [List.erase_append_right _ inFront, List.erase_cons_head, List.filterMap_append,
      (kept front inFront).1, (kept back inBack).1, List.filterMap_append, List.filter_append,
      (kept front inFront).2, List.filterMap_cons, removed.found, List.filter_cons,
      (kept back inBack).2]
    simp
  · rename_i apart
    have absent : index ∉ queues side price := fun member =>
      apart (rep.same_queue (rep.placed removed.found) member)
    rw [(kept _ absent).1, (kept _ absent).2]

/-- Taking a quantity fills in the abstract book. -/
theorem Taken.fifo_eq {delta : UInt64}
    (taken : Taken book arena queues order index delta book' arena')
    (rep : Represents book arena queues) :
    fifo arena' queues = (fifo arena queues).fill order.id delta := by
  funext side price
  simp only [fifo, FifoBook.fill]
  induction queues side price with
  | nil => rfl
  | cons i rest ih =>
    rw [List.filterMap_cons, List.filterMap_cons, taken.resting]
    by_cases here : i = index
    · subst here
      simp [taken.found, ih]
    · cases rests : arena.resting i with
      | none => simp [here, ih]
      | some other =>
        have apart : other.id ≠ order.id := fun same =>
          here (rep.slot_unique rests taken.found same)
        simp [here, ih, apart]

end MatchX
