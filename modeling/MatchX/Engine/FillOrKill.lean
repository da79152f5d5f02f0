import MatchX.Book.Liquidity
import MatchX.Engine.Calls
import MatchX.Engine.Makers

/-!
# Fill-or-kill orders

A fill-or-kill order is decided on what the depth indices say, before the sweep that fills it
from the queues. It is all or nothing exactly when the indices do not mislead: they find enough
only where the sweep can trade the whole quantity, and too little only where too little rests.
-/

namespace MatchX

open MatchX.Support

namespace MatchingEngine

variable {config : InstrumentConfig} {engine site after : MatchingEngine config} {queues : Queues}
  {command : Command} {order : NewOrder} {reason : RejectReason}

/-- The quantity that rests opposite to an order at the prices it accepts. -/
def acceptableLiquidity (site : MatchingEngine config) (order : NewOrder) : Nat :=
  site.arena.sumResting order.side.opposite (isPriceAcceptable order.side (effectivePrice order))

end MatchingEngine

end MatchX
