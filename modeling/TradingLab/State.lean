import TradingLab.Account
import TradingLab.Market
import TradingLab.Matching
/-!
# The engine state

The types of `core.rs`. An engine has `n` instruments and `m` accounts; both
vectors keep their length for good and every index into them was made by
enumerating them, so the indexes are `Fin n` and `Fin m`.
-/
open LabLib

namespace TradingLab

structure InstrumentRuntime where
  config : InstrumentConfig
  market : MarketView
  book : OrderBook

structure LiveOrder (n m : Nat) where
  account_index : Fin m
  instrument_index : Fin n
deriving DecidableEq

structure EngineMetrics where
  inputs_applied : UInt64 := 0
  requests_accepted : UInt64 := 0
  requests_rejected : UInt64 := 0
  reports_emitted : UInt64 := 0
  trades : UInt64 := 0
  market_events : UInt64 := 0
  control_events : UInt64 := 0
deriving DecidableEq, Repr

/-- Fatal conditions. These stop the run instead of silently wrapping. -/
inductive EngineFault where
  | SequenceExhausted
  | Accounting
deriving DecidableEq, Repr

structure TradingCore (n m : Nat) where
  config : EngineConfig
  instruments : Vector InstrumentRuntime n
  instrument_index : HashMap InstrumentId (Fin n)
  accounts : Vector (AccountState n) m
  account_index : HashMap AccountId (Fin m)
  live_orders : HashMap OrderId (LiveOrder n m)
  client_orders : HashMap (AccountId × ClientOrderId) OrderId
  global_kill : Bool
  engine_seq : EngineSeq
  output_seq : OutputSeq
  next_order_id : OrderId
  next_trade_id : TradeId
  next_priority : PrioritySeq
  engine_time_ns : UInt64
  metrics : EngineMetrics
  fault : Option EngineFault
  /-- Ghost state: every fault ever set, newest first. A later fault overwrites
  `fault` but not this record of the earlier one. -/
  faults : List EngineFault

/-- A map from ids to positions; a repeated id keeps its last position. -/
def index_by {K : Type} [DecidableEq K] {k : Nat} (id : Fin k → K) : HashMap K (Fin k) :=
  (List.finRange k).foldl (fun map i => map.insert (id i) i) ∅

namespace TradingCore
variable {n m : Nat}

def new (allocator : SlabAllocator) (config : EngineConfig) :
    TradingCore config.instruments.length config.accounts.length where
  config := config
  instruments := Vector.ofFn fun i => {
    config := config.instruments.get i
    market := .new (config.instruments.get i).min_price_ticks (config.instruments.get i).max_price_ticks
      config.max_market_depth
    book := .with_capacity allocator config.max_live_orders }
  instrument_index := index_by fun i => (config.instruments.get i).id
  accounts := Vector.ofFn fun i =>
    let account := config.accounts.get i
    .new account.id account.enabled account.limits config.dedup_window
  account_index := index_by fun i => (config.accounts.get i).id
  live_orders := ∅
  client_orders := ∅
  global_kill := false
  engine_seq := 0
  output_seq := 0
  next_order_id := 0
  next_trade_id := 0
  next_priority := 0
  engine_time_ns := 0
  metrics := {}
  fault := none
  faults := []

def set_fault (self : TradingCore n m) (fault : EngineFault) : TradingCore n m :=
  { self with fault := some fault, faults := fault :: self.faults }

def set_market (self : TradingCore n m) (i : Fin n) (market : MarketView) : TradingCore n m :=
  { self with instruments := self.instruments.set i { self.instruments[i] with market := market } i.isLt }

def set_book (self : TradingCore n m) (i : Fin n) (book : OrderBook) : TradingCore n m :=
  { self with instruments := self.instruments.set i { self.instruments[i] with book := book } i.isLt }

def set_account (self : TradingCore n m) (a : Fin m) (account : AccountState n) : TradingCore n m :=
  { self with accounts := self.accounts.set a account a.isLt }

def position (self : TradingCore n m) (a : Fin m) (i : Fin n) : InstrumentPosition :=
  self.accounts[a].positions[i]

def set_position (self : TradingCore n m) (a : Fin m) (i : Fin n) (p : InstrumentPosition) : TradingCore n m :=
  self.set_account a { self.accounts[a] with positions := self.accounts[a].positions.set i p i.isLt }

def account_index_of (self : TradingCore n m) (account : AccountId) : Option (Fin m) :=
  self.account_index.lookup account

def instrument_index_of (self : TradingCore n m) (instrument : InstrumentId) : Option (Fin n) :=
  self.instrument_index.lookup instrument

def client_order_lookup (self : TradingCore n m) (account : AccountId) (client_order_id : ClientOrderId) :
    Option OrderId :=
  self.client_orders.lookup (account, client_order_id)

end TradingCore

end TradingLab
