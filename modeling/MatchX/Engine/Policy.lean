import MatchX.Book.Fifo
import MatchX.Engine.FilledUp

/-!
# The matching policy

`PriceTimeFifo::match_order` goes along a level by its links, without a change of the book. Along a
level of the book it fills what `walkMakers` fills, and always returns. The matching loop fills the
same once its fills of a maker are merged, for a taker that trades at that level only, where it
returns: it removes the makers that it fills up, which can fail outside the window.
-/

namespace MatchX

open MatchX.Support

/-- `Fill`. -/
structure Fill where
  /-- Slot of the maker. -/
  makerIdx : ArenaIndex
  /-- Identifier of the maker. -/
  makerId : OrderId
  /-- Identifier of the taker. -/
  takerId : OrderId
  /-- Price of the level. -/
  price : UInt64
  /-- Quantity. -/
  qty : UInt64
  deriving DecidableEq, Repr

/-- The maker, the price and the quantity of a fill. -/
def Fill.entry (fill : Fill) : MatchingEngine.FillEntry :=
  ((fill.makerId, fill.price), fill.qty.toNat)

namespace PriceTimeFifo

/-- The state of the loop of `match_order`. -/
structure LevelWalk where
  /-- The next maker of the level. -/
  cursor : Option ArenaIndex
  /-- The taker's remaining quantity. -/
  remaining : UInt64
  /-- The fills that the sink was given. -/
  sink : List Fill

/-- One iteration of the loop of `match_order`. -/
def walkStep (arena : Arena) (takerId : OrderId) (restingPrice : UInt64) (walk : LevelWalk) :
    Except Fault (Flow LevelWalk LevelWalk) := do
  let some makerIdx := walk.cursor | return .done walk
  if walk.remaining = 0 then return .done walk
  let maker ← arena.get makerIdx
  let fillQty := min walk.remaining maker.remaining
  let fill : Fill := ⟨makerIdx, maker.id, takerId, restingPrice, fillQty⟩
  return .next {
    cursor := if maker.next ≠ arenaNull then some maker.next else none
    remaining := walk.remaining - fillQty
    sink := walk.sink ++ [fill] }

/-- `PriceTimeFifo::match_order`: the fills that the sink is given, and the remaining quantity it
leaves; the arena stays as it is. The links that do not end lead around in a circle, on which each
round lowers the remaining quantity or none does. -/
def matchOrder (takerId : OrderId) (remaining restingPrice : UInt64)
    (levelHead : Option ArenaIndex) (arena : Arena) : Except Fault (List Fill × UInt64) := do
  let walk ← loop .exhausted (walkStep arena takerId restingPrice)
    (arena.capacity.toNat * (remaining.toNat + 1) + 1) ⟨levelHead, remaining, []⟩
  return (walk.sink, walk.remaining)

open MatchingEngine

variable {arena : Arena} {takerId : OrderId} {price : UInt64} {queue : List ArenaIndex}

/-- The loop once a maker is filled: at the next one, with less of the taker. -/
def LevelWalk.past (walk : LevelWalk) (takerId : OrderId) (price : UInt64) (index : ArenaIndex)
    (maker : Order) : LevelWalk where
  cursor := if maker.next ≠ arenaNull then some maker.next else none
  remaining := walk.remaining - min walk.remaining maker.remaining
  sink := walk.sink ++ [⟨index, maker.id, takerId, price, min walk.remaining maker.remaining⟩]

variable {config : InstrumentConfig} {engine : MatchingEngine config} {queues : Queues}
  {taker : Taker} {remaining : UInt64}

/-- A taker may trade at the level of a price and at no other one: it accepts the price, the cached
best price leads to the level as long as orders rest there, and no order rests at another price
that it accepts. -/
structure TradesOnlyAt (taker : Taker) (engine : MatchingEngine config) (queues : Queues)
    (price : UInt64) : Prop where
  /-- The taker accepts the price. -/
  acceptable : isPriceAcceptable taker.side taker.price price = true
  /-- The level is the best one as long as it has orders. -/
  reached : queues taker.side.opposite price ≠ [] →
    engine.book.best taker.side.opposite = some price
  /-- The taker accepts no other price with orders. -/
  only : ∀ other, queues taker.side.opposite other ≠ [] →
    isPriceAcceptable taker.side taker.price other = true → other = price

/-- The makers ahead of a taker that may trade at one level only are those of the level. -/
theorem TradesOnlyAt.makersFor (sound : engine.Sound queues)
    (trades : TradesOnlyAt taker engine queues price) :
    makersFor taker engine =
      (queues taker.side.opposite price).filterMap engine.arena.resting := by
  by_cases present : queues taker.side.opposite price = []
  · rw [present]
    refine makersFor_nil fun other best => Bool.eq_false_iff.mpr fun acceptable => ?_
    have held := sound.tracks.held _ _ best
    exact held (trades.only other held acceptable ▸ present)
  · have best := trades.reached present
    have behind : ((engine.book.restingPrices engine.arena taker.side.opposite).erase
        price).takeWhile (isPriceAcceptable taker.side taker.price) = [] := by
      refine List.eq_nil_iff_forall_not_mem.mpr fun other member => ?_
      have listed := List.takeWhile_subset _ member
      have held : queues taker.side.opposite other ≠ [] := sound.rep.rests_iff.mp
        ((mem_restingPrices sound.rep.slots).mp (List.mem_of_mem_erase listed))
      have same := trades.only other held (List.mem_takeWhile_imp member)
      exact restingPrices_nodup.not_mem_erase (same ▸ listed)
    rw [MatchingEngine.makersFor, OrderBook.makersAhead, sound.rep.slotsAhead_eq,
      OrderBook.visitOrder, best, List.takeWhile_cons_of_pos trades.acceptable, behind,
      List.flatMap_singleton]

/-- The policy and the matching loop agree on what a quantity of a taker trades at a price: both
return, the fills of the policy's sink are those that the loop reports once those of one maker in a
row are merged, and both leave the same of the taker. -/
def Agrees (engine : MatchingEngine config) (taker : Taker) (price remaining : UInt64) : Prop :=
  ∃ fills left result,
    matchOrder taker.id remaining price (engine.book.level taker.side.opposite price).head
      engine.arena = .ok (fills, left) ∧
    engine.matchAgainstBook taker remaining = .ok result ∧
    fills.map Fill.entry = fillTotals (emittedSince engine result.engine) ∧
    left = result.remaining

end PriceTimeFifo

end MatchX
