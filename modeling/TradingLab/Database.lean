import TradingLab.Core
/-!
# The database of the control plane

The tables of `db.ts`. An integer column holds every integer (SQLite stops at 64
bits), and a table without an order of its own is a finite map from its key. Times
of creation and change, which nothing reads, are left out.
-/
open LabLib

namespace TradingLab

/-- The text of a run id; `0` stands for no run. -/
abbrev RunId := Nat

inductive ProjectionHealth where
  | healthy
  | degraded
  | run_mismatch
deriving DecidableEq, Repr

/-- The rows of `projection_state`. -/
structure ProjectionState where
  last_output_seq : Int
  as_of_engine_seq : Int
  projection_seq : Int
  run_id : RunId
  projection_health : ProjectionHealth
deriving DecidableEq

structure OrderRow where
  account : AccountId
  instrument : InstrumentId
  client_order_id : ClientOrderId
  side : Side
  order_type : OrderType
  price_ticks : PriceTicks
  total_lots : QuantityLots
  filled_lots : QuantityLots
  state : OrderState
  updated_output_seq : OutputSeq
deriving DecidableEq

structure TradeRow where
  run_id : RunId
  trade_id : TradeId
  output_seq : OutputSeq
  engine_seq : EngineSeq
  engine_time_ns : UInt64
  instrument : InstrumentId
  maker_account : AccountId
  taker_account : AccountId
  aggressor : Side
  price_ticks : PriceTicks
  quantity_lots : QuantityLots
  settlement_id : Option String
deriving DecidableEq

structure PositionRow where
  position_lots : Int
  bought_lots : Int
  sold_lots : Int
deriving DecidableEq

inductive SettlementStatus where
  | pending
  | submitted
  | unknown
  | confirmed
  | failed
  | needs_operator
deriving DecidableEq, Repr

structure SettlementRow where
  settlement_id : String
  venue : String
  status : SettlementStatus
  manifest_hash : String
  first_trade_id : TradeId
  last_trade_id : TradeId
  trade_count : Nat
  attempts : Nat
  next_attempt_at_ms : Nat
  receipt : Option String
  last_error : Option String
deriving DecidableEq

structure Database where
  orders : HashMap OrderId OrderRow
  trades : List TradeRow
  positions : HashMap (AccountId × InstrumentId) PositionRow
  risk_rejects : HashMap String Nat
  settlements : List SettlementRow
  state : ProjectionState

/-- The database `migrate` makes. -/
def Database.migrate : Database where
  orders := ∅
  trades := []
  positions := ∅
  risk_rejects := ∅
  settlements := []
  state := ⟨0, 0, 0, 0, .healthy⟩

/-- `INSERT OR IGNORE INTO trades`: both the trade id and the output sequence are unique within a run. -/
def Database.insert_trade (db : Database) (row : TradeRow) : Database :=
  if db.trades.any fun old => old.run_id = row.run_id && (old.trade_id = row.trade_id || old.output_seq = row.output_seq) then
    db
  else { db with trades := db.trades ++ [row] }

end TradingLab
