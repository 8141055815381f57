import TradingLab.Lib.Machine
/-!
# Protocol types

The integer types, enums and events of the `protocol` crate that the engine
reads and writes. A newtype over a machine integer is that integer type; the
crate only compares the ids and counts the sequences up.
-/
open LabLib

namespace TradingLab

/-! ## Ids and quantities -/

abbrev InstrumentId := UInt32
abbrev AccountId := UInt32
abbrev ClientOrderId := UInt64
abbrev RequestId := UInt64
abbrev OrderId := UInt64
abbrev TradeId := UInt64
abbrev IngressSeq := UInt64
abbrev EngineSeq := UInt64
abbrev OutputSeq := UInt64
abbrev PrioritySeq := UInt64

/-- The next value of a counter, or `none` when it is exhausted. -/
def next (counter : UInt64) : Option UInt64 := checked_add counter 1

/-- Signed tick count relative to the instrument's price scale. -/
abbrev PriceTicks := Int64

/-- Unsigned lot count. -/
abbrev QuantityLots := UInt64

/-- Absolute notional in tick * lot units. -/
abbrev Notional := U128

def QuantityLots.is_zero (q : QuantityLots) : Bool := q = 0

/-- Quantity times price, in the wide type. -/
def QuantityLots.checked_notional (q : QuantityLots) (price : PriceTicks) : Option Notional :=
  ofInt? (val q * |val price|)

def PriceTicks.checked_add_ticks (p : PriceTicks) (ticks : Int64) : Option PriceTicks := checked_add p ticks

def PriceTicks.checked_sub_ticks (p : PriceTicks) (ticks : Int64) : Option PriceTicks := checked_sub p ticks

/-- Midpoint rounded toward negative infinity. -/
def PriceTicks.midpoint (bid ask : PriceTicks) : Option PriceTicks := do
  let sum ← checked_add bid ask
  ofInt? (val sum / 2)

/-! ## Enums -/

inductive Side where
  | Buy
  | Sell
deriving DecidableEq, Repr

def Side.opposite : Side → Side
  | Buy => Sell
  | Sell => Buy

def Side.wire : Side → UInt8
  | Buy => 1
  | Sell => 2

inductive OrderType where
  | Limit
  | Market
deriving DecidableEq, Repr

def OrderType.wire : OrderType → UInt8
  | Limit => 1
  | Market => 2

inductive OrderState where
  | Working
  | PartiallyFilled
  | Filled
  | Cancelled
deriving DecidableEq, Repr

inductive RequestKind where
  | New
  | Cancel
  | Replace
deriving DecidableEq, Repr

def RequestKind.wire : RequestKind → UInt8
  | New => 1
  | Cancel => 2
  | Replace => 3

inductive ReportKind where
  | Accepted
  | Rejected
  | PartiallyFilled
  | Filled
  | Cancelled
  | Replaced
deriving DecidableEq, Repr

inductive RejectReason where
  | MalformedRequest
  | UnknownInstrument
  | UnknownAccount
  | UnknownOrder
  | InvalidSide
  | InvalidOrderType
  | InvalidPrice
  | InvalidQuantity
  | PriceNotAligned
  | QuantityNotAligned
  | DuplicateRequestConflict
  | SequenceTooOld
  | SequenceOutOfOrder
  | DuplicateClientOrderId
  | AccountDisabled
  | GlobalKillActive
  | MarketDataUnsynchronized
  | MarketDataStale
  | MaxOrderQuantity
  | MaxOrderNotional
  | PriceCollar
  | MaxPosition
  | MaxGrossExposure
  | CapacityExhausted
  | ArithmeticOverflow
  | OrderAlreadyTerminal
  | InvalidReplaceQuantity
  | NoReferencePrice
deriving DecidableEq, Repr

inductive FeedState where
  | Unsynchronized
  | ApplyingSnapshot
  | Live
  | Gap
deriving DecidableEq, Repr

/-! ## Inputs -/

inductive MarketEventKind where
  | SnapshotBegin (snapshot_seq : UInt64)
  | SnapshotLevel (side : Side) (price : PriceTicks) (quantity : QuantityLots)
  | SnapshotEnd (snapshot_seq : UInt64) (level_count : UInt32)
  /-- Absolute level quantity. Zero deletes the level. -/
  | LevelSet (side : Side) (price : PriceTicks) (quantity : QuantityLots)
  | Trade (aggressor : Side) (price : PriceTicks) (quantity : QuantityLots)
  | Heartbeat
  | FeedReset (new_epoch : UInt64)
deriving DecidableEq, Repr

structure MarketEvent where
  instrument : InstrumentId
  source_seq : UInt64
  source_time_ns : UInt64
  kind : MarketEventKind
deriving DecidableEq, Repr

structure OrderRequest where
  kind : RequestKind
  account : AccountId
  instrument : InstrumentId
  request_id : RequestId
  client_seq : UInt64
  client_order_id : ClientOrderId
  /-- Cancel and replace target. Zero for new orders. -/
  target_client_order_id : ClientOrderId
  side : Side
  order_type : OrderType
  price : PriceTicks
  /-- Total order quantity. For replace this is the new total, not the new remainder. -/
  quantity : QuantityLots
deriving DecidableEq, Repr

structure AccountLimits where
  max_order_quantity : QuantityLots
  max_order_notional : Notional
  max_position_lots : UInt64
  max_gross_exposure : Notional
  price_collar_ticks : Int64
deriving DecidableEq, Repr

inductive ControlCommand where
  | SetGlobalKill (engaged : Bool)
  | SetAccountEnabled (account : AccountId) (enabled : Bool)
  | SetAccountLimits (account : AccountId) (limits : AccountLimits)
deriving DecidableEq, Repr

inductive InputEvent where
  | Market (event : MarketEvent)
  | Order (request : OrderRequest)
  | Control (command : ControlCommand)
deriving DecidableEq, Repr

structure EngineInput where
  ingress_seq : IngressSeq
  recv_time_ns : UInt64
  event : InputEvent
deriving DecidableEq, Repr

/-! ## Outputs -/

structure ExecutionReport where
  output_seq : OutputSeq
  engine_seq : EngineSeq
  engine_time_ns : UInt64
  account : AccountId
  instrument : InstrumentId
  request_id : RequestId
  client_order_id : ClientOrderId
  /-- Zero when the request was rejected before an order existed. -/
  order_id : OrderId
  kind : ReportKind
  state : OrderState
  side : Side
  order_type : OrderType
  price : PriceTicks
  total_quantity : QuantityLots
  cumulative_filled : QuantityLots
  remaining : QuantityLots
  last_fill_quantity : QuantityLots
  last_fill_price : PriceTicks
  reject_reason : Option RejectReason
deriving DecidableEq, Repr

structure TradeEvent where
  output_seq : OutputSeq
  engine_seq : EngineSeq
  engine_time_ns : UInt64
  trade_id : TradeId
  instrument : InstrumentId
  maker_order_id : OrderId
  taker_order_id : OrderId
  maker_account : AccountId
  taker_account : AccountId
  aggressor : Side
  price : PriceTicks
  quantity : QuantityLots
deriving DecidableEq, Repr

inductive EngineStateEvent where
  | KillSwitchEngaged
  | KillSwitchReleased
  | AccountEnabledChanged (account : AccountId) (enabled : Bool)
  | AccountLimitsChanged (account : AccountId)
  | FeedStateChanged (instrument : InstrumentId) (state : FeedState)
deriving DecidableEq, Repr

structure StateEvent where
  output_seq : OutputSeq
  engine_seq : EngineSeq
  engine_time_ns : UInt64
  event : EngineStateEvent
deriving DecidableEq, Repr

inductive OutputEvent where
  | Trade (trade : TradeEvent)
  | Report (report : ExecutionReport)
  | State (state : StateEvent)
deriving DecidableEq, Repr

def OutputEvent.output_seq : OutputEvent → OutputSeq
  | Trade trade => trade.output_seq
  | Report report => report.output_seq
  | State state => state.output_seq

def OutputEvent.engine_seq : OutputEvent → EngineSeq
  | Trade trade => trade.engine_seq
  | Report report => report.engine_seq
  | State state => state.engine_seq

/-! ## Lemmas -/

theorem next_eq_some {c c' : UInt64} : next c = some c' ↔ val c' = val c + 1 := checked_add_eq_some

theorem next_eq_none {c : UInt64} : next c = none ↔ val c = 18446744073709551615 := by
  have hone : val (1 : UInt64) = 1 := rfl
  have hb := u64_bounds c
  rw [← Option.not_isSome_iff_eq_none, next, checked_add_isSome, hone]
  simp only [Machine.lo, Machine.hi]
  omega

theorem exists_next {c : UInt64} (h : val c < 18446744073709551615) : ∃ c', next c = some c' ∧ val c' = val c + 1 := by
  cases hn : next c with
  | none =>
    have := next_eq_none.1 hn
    omega
  | some c' => exact ⟨c', rfl, next_eq_some.1 hn⟩

@[simp] theorem opposite_opposite (s : Side) : s.opposite.opposite = s := by cases s <;> rfl

theorem is_zero_iff {q : QuantityLots} : QuantityLots.is_zero q = true ↔ val q = 0 := by
  rw [QuantityLots.is_zero, decide_eq_true_iff, ← val_inj]; rfl

/-- A notional is the product of its factors, and never overflows. -/
theorem checked_notional_eq (q : QuantityLots) (p : PriceTicks) :
    ∃ v, QuantityLots.checked_notional q p = some v ∧ val v = val q * |val p| := by
  have hq := u64_bounds q
  have hp := i64_bounds p
  have h0 : (0 : Int) ≤ |val p| := abs_nonneg _
  have h1 : |val p| ≤ 9223372036854775808 := abs_le.2 ⟨by omega, by omega⟩
  refine exists_word (α := U128) (Int.mul_nonneg hq.1 h0) ?_
  calc val q * |val p| ≤ 18446744073709551615 * 9223372036854775808 :=
        Int.mul_le_mul hq.2 h1 h0 (by norm_num)
    _ ≤ Machine.hi U128 := by decide

end TradingLab
