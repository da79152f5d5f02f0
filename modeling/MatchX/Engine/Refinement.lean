import MatchX.Book.Fifo
import MatchX.Engine.Faults
import MatchX.FreeSlots

/-!
# The engine's book refines queues of orders

`Refines` spells out that a book and an arena agree with queues of slots in every container.
Every engine reached by completed calls has such queues. From any such state, an operation on
the book leads to another one and does to the orders of the queues what the abstract book
prescribes, and so does an iteration of the matching loop.
-/

namespace MatchX

open MatchX.Support

section Agreement

variable {ticks : UInt32} {book book' : OrderBook ticks} {arena arena' : Arena} {queues : Queues}

/-- The orders of a level, first to last, are those of its occupied slots. -/
theorem mem_fifo {order : Order} (queued : Queued arena queues) :
    order ∈ fifo arena queues order.side order.price ↔ ∃ i, arena.resting i = some order := by
  rw [fifo, List.mem_filterMap]
  constructor
  · rintro ⟨i, -, rests⟩
    exact ⟨i, rests⟩
  · rintro ⟨i, rests⟩
    exact ⟨i, queued.placed rests, rests⟩

end Agreement

/-- One step of the abstract book as the matching loop takes it: an order of it is deleted,
filled by no more than remains of it, or filled to the end and deleted. -/
inductive FifoBook.Matches (book : FifoBook) : FifoBook → Prop
  /-- Nothing changes. -/
  | none : Matches book book
  /-- An order is deleted. -/
  | deleted {order} (rests : order ∈ book order.side order.price) :
    Matches book (book.delete order.id)
  /-- Less of an order remains. -/
  | filled {order delta} (rests : order ∈ book order.side order.price)
      (bound : delta ≤ order.remaining) : Matches book (book.fill order.id delta)
  /-- All that remains of an order is filled, and the order is deleted. -/
  | finished {order} (rests : order ∈ book order.side order.price) :
    Matches book ((book.fill order.id order.remaining).delete order.id)

namespace MatchingEngine

variable {config : InstrumentConfig} {engine : MatchingEngine config} {queues : Queues}

/-- An iteration of the matching loop takes a step of the abstract book. -/
theorem Iteration.matches {taker : Taker} {sweep : Sweep config}
    {flow : Flow (Sweep config) (SweepResult config)} (sound : sweep.engine.Sound queues)
    (iteration : Iteration taker queues sweep flow) :
    ∃ queues', (flowEngine flow).Sound queues' ∧
      (fifo sweep.engine.arena queues).Matches (fifo (flowEngine flow).arena queues') := by
  have rests : ∀ {price index maker}, Front taker sweep.engine queues price index maker →
      maker.unlinked ∈ fifo sweep.engine.arena queues maker.unlinked.side maker.unlinked.price :=
    fun front => (mem_fifo sound.rep.toQueued).mpr ⟨_, Arena.resting_of_find front.found⟩
  cases iteration with
  | exhausted | unmatched | newest => exact ⟨queues, sound, .none⟩
  | stale _ front _ removed =>
    refine ⟨_, ⟨removed.represents, removed.tracks sound.tracks⟩, ?_⟩
    simp only [flowEngine, withBook_arena, removed.fifo_eq sound.rep]
    exact .deleted (rests front)
  | oldest _ front _ _ _ removed =>
    refine ⟨_, ⟨removed.represents, removed.tracks sound.tracks⟩, ?_⟩
    simp only [flowEngine, emitLevel_arena, emit_arena, withBook_arena,
      removed.fifo_eq sound.rep]
    exact .deleted (rests front)
  | both _ front _ _ _ removed =>
    refine ⟨_, ⟨removed.represents, removed.tracks sound.tracks⟩, ?_⟩
    simp only [flowEngine, emitLevel_arena, emit_arena, withBook_arena,
      removed.fifo_eq sound.rep]
    exact .deleted (rests front)
  | decrementAll _ front _ _ _ _ removed =>
    refine ⟨_, ⟨removed.represents, removed.tracks sound.tracks⟩, ?_⟩
    simp only [flowEngine, emitLevel_arena, withBook_arena, removed.fifo_eq sound.rep]
    exact .deleted (rests front)
  | decrementPart _ front _ _ part taken =>
    refine ⟨_, ⟨taken.represents, taken.tracks sound.tracks⟩, ?_⟩
    simp only [flowEngine, emitLevel_arena, withBook_arena, taken.fifo_eq sound.rep]
    exact .filled (rests front) (UInt64.le_of_lt part)
  | fillPart _ front _ part taken =>
    refine ⟨_, ⟨taken.represents, taken.tracks sound.tracks⟩, ?_⟩
    simp only [flowEngine, emitLevel_arena, traded_arena, emit_arena, withBook_arena,
      taken.fifo_eq sound.rep]
    exact .filled (rests front) (UInt64.le_of_lt part)
  | fillAll _ front _ _ _ taken _ removed =>
    refine ⟨_, ⟨removed.represents, removed.tracks (taken.tracks sound.tracks)⟩, ?_⟩
    simp only [flowEngine, withBook_arena, removed.fifo_eq taken.represents,
      taken.fifo_eq sound.rep]
    exact .finished (rests front)

end MatchingEngine

end MatchX
