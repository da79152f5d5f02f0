import MatchX.Book.Recenter
import MatchX.Engine.FillOrKill
import MatchX.Engine.EventBuffer
import MatchX.Book.BestPriceRuns
import MatchX.Engine.Refinement
import MatchX.Engine.PricePriority
import MatchX.Engine.SelfTrade
import MatchX.Engine.Outcome
import MatchX.Engine.Feed
import MatchX.Engine.Reports
import MatchX.Engine.Stops
import MatchX.Engine.Rejection
import MatchX.Engine.LiveIds
import MatchX.Engine.CancelFinal
import MatchX.Engine.Termination
import MatchX.Engine.Modify
import MatchX.Engine.Triggers
import MatchX.Journal.GapFree
import MatchX.Journal.SingleFile
import MatchX.Journal.Reopening
import MatchX.Book.DepthRecenter
import MatchX.Engine.Conservation
import MatchX.Engine.ModifyAtomic
import MatchX.Engine.DepthRuns
import MatchX.Journal.Pipeline
import MatchX.Engine.Overflow
import MatchX.Engine.Inside
import MatchX.Engine.Relabelling
import MatchX.Engine.Clock
import MatchX.Engine.OrderFeed
import MatchX.Journal.Returning
import MatchX.Journal.Interleaving
import MatchX.Journal.StreamingReader
import MatchX.Book.RecenterInvisible
import MatchX.Book.AutoRecenter
import MatchX.Engine.Policy
import MatchX.Engine.Splitting
import MatchX.Engine.StopOrder
import MatchX.Engine.IcebergPriority
import MatchX.FreeSlots
import MatchX.Book.FenwickRuns
import MatchX.Book.Occupancy
import MatchX.Journal.Marks
import MatchX.Journal.FailedAppend
import MatchX.Engine.Dialogue
import MatchX.Journal.Crash
import MatchX.Engine.Futures
import MatchX.Journal.FailFast
import MatchX.Journal.Lives
import MatchX.Engine.Outward
