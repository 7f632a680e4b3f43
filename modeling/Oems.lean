import Oems.Lib.OrdMap
import Oems.Lib.Machine
import Oems.Lib.Decimal
import Oems.Lib.Keyed
import Oems.Lib.Delimited
import Oems.Lib.Substring
import Oems.Lib.Checks
import Oems.Lib.Bounded
import Oems.Lib.Renumber
import Oems.Lib.Apportion
import Oems.Lib.RoundEven
import Oems.Lib.SlidingWindow
import Oems.Lib.Latest
import Oems.Lib.Sql
import Oems.Lib.Link
import Oems.Lib.Tally
import Oems.Lib.Greedy
import Oems.Types
import Oems.OrderBook
import Oems.NaiveBook
import Oems.BookLevels
import Oems.MatchingLoops
import Oems.BookRefinement
import Oems.PublishedBook
import Oems.SameBook
import Oems.BookInvariant
import Oems.AddedOrder
import Oems.LimitMonotone
import Oems.OrderSplit
import Oems.CancelledTrace
import Oems.MatchingEngine
import Oems.EngineRefinement
import Oems.SymbolIndependence
import Oems.EngineAtomic
import Oems.RiskManager
import Oems.RiskArithmetic
import Oems.RiskSpec
import Oems.RateLimit
import Oems.MarketData
import Oems.Database
import Oems.OrderManager
import Oems.LiveOrders
import Oems.Submission
import Oems.BookAgreement
import Oems.RunInvariants
import Oems.RecordBounds
import Oems.Placement
import Oems.QuantityLedger
import Oems.FairTrades
import Oems.Lifecycle
import Oems.CancelExact
import Oems.EventLog
import Oems.AuditLog
import Oems.EventHistory
import Oems.StoredTables
import Oems.Journal
import Oems.Recovery
import Oems.SubmitFootprint
import Oems.GuardedTrading
import Oems.RestoreAtomic
import Oems.SqlRows
import Oems.RowTables
import Oems.PartialLoad
import Oems.RestartEquivalence
import Oems.CrashRecovery
import Oems.DurableHistory
import Oems.StoreFile
import Oems.StoreHistory
import Oems.AlgoEngine
import Oems.AlgoQuantity
import Oems.AlgoExecution
import Oems.TwapRun
import Oems.AlgoRegistry
import Oems.Schedule
import Oems.FixMessage
import Oems.FixGrammar
import Oems.TextFrame
import Oems.FixStrict
import Oems.FixRoundTrip
import Oems.FixCorruption
import Oems.FixSession
import Oems.InboundSequence
import Oems.FixGateway
import Oems.FixNumbers
import Oems.OrdersController
import Oems.Controllers
import Oems.ApiServer
import Oems.RowServer
import Oems.ListedBooks
import Oems.ApiConsistency
import Oems.CancelBatch
import Oems.Accounting
import Oems.PriceTime
import Oems.ApiRestart
import Oems.ReportForgery
import Oems.OutboundSequence
import Oems.FixLink
import Oems.FixSettling
import Oems.FixWire
import Oems.EntryPoints
import Oems.ServerFile
import Oems.ExecutionReport
import Oems.ReportTrail
