import TradingLab.Lib.Machine
import TradingLab.Lib.Eval
import TradingLab.Lib.Maps
import TradingLab.Lib.Slab
import TradingLab.Lib.Chain
import TradingLab.Lib.Keyed
import TradingLab.Lib.Counter
import TradingLab.Lib.Ranked
import TradingLab.Protocol
import TradingLab.Book
import TradingLab.BookRepr
import TradingLab.BookSpec
import TradingLab.BookView
import TradingLab.Matching
import TradingLab.MatchSpec
import TradingLab.Lib.Sorting
import TradingLab.Sweep
import TradingLab.Reference
import TradingLab.Refinement
import TradingLab.Market
import TradingLab.Ladder
import TradingLab.MarketFeed
import TradingLab.MarketSync
import TradingLab.Snapshots
import TradingLab.Account
import TradingLab.State
import TradingLab.Risk
import TradingLab.Core
import TradingLab.Desk
import TradingLab.Ledger
import TradingLab.Story
import TradingLab.Settlement
import TradingLab.Admission
import TradingLab.Handlers
import TradingLab.Runs
import TradingLab.Handled
import TradingLab.Invariants
import TradingLab.Refusals
import TradingLab.KillSwitch
import TradingLab.Alignment
import TradingLab.Replaces
import TradingLab.Acceptance
import TradingLab.Outputs
import TradingLab.Lib.Ring
import TradingLab.DedupWindow
import TradingLab.Requests
import TradingLab.Reports
import TradingLab.Database
import TradingLab.Projection
import TradingLab.OrderRows
import TradingLab.Lib.System
import TradingLab.ControlPlane
import TradingLab.Polling
import TradingLab.Cursors
import TradingLab.Outbox
import TradingLab.Dispatcher
import TradingLab.SettlementRows
import TradingLab.Lib.Bytes
import TradingLab.Lib.Streams
import TradingLab.Lib.BufWriter
import TradingLab.Lib.Growing
import TradingLab.Wire
import TradingLab.Canonical
import TradingLab.Replay
import TradingLab.Journal
import TradingLab.JournalTail
import TradingLab.TailRecovery
import TradingLab.Codec
import TradingLab.BitFlips
import TradingLab.Header
import TradingLab.Feed
import TradingLab.Batches
import TradingLab.Lib.Guards
import TradingLab.SolanaProgram
import TradingLab.SolanaLedger
import TradingLab.SolanaBatches
import TradingLab.LegsPreimage
import TradingLab.Canton
import TradingLab.Venues
import TradingLab.CantonVenue
import TradingLab.Receipts
import TradingLab.Lib.Text
import TradingLab.Economics
import TradingLab.Lib.Tally
import TradingLab.Netting
import TradingLab.Exposure
import TradingLab.Resync
import TradingLab.Lib.Channel
import TradingLab.QueueStats
import TradingLab.Telemetry
import TradingLab.Capture
import TradingLab.Pipeline
import TradingLab.EngineThread
import TradingLab.Recording
import TradingLab.Visibility
import TradingLab.Progress
