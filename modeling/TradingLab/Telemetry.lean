import TradingLab.Core
/-!
# The read model

`snapshot.rs`, with the two readers of `book.rs` that it uses. The engine thread copies
a bounded part of its state for cold consumers: the best levels of every book with the
first orders in them, and all positions.
-/
open LabLib

namespace TradingLab

structure LevelSnapshot where
  side : Side
  price : PriceTicks
  quantity : QuantityLots
  order_count : UInt32
deriving DecidableEq, Repr

structure OrderSnapshot where
  order_id : OrderId
  account : AccountId
  client_order_id : ClientOrderId
  side : Side
  price : PriceTicks
  total_quantity : QuantityLots
  cumulative_filled : QuantityLots
deriving DecidableEq, Repr

structure InstrumentSnapshot where
  instrument : InstrumentId
  feed_state : FeedState
  last_source_seq : UInt64
  best_bid : Option PriceTicks
  best_ask : Option PriceTicks
  levels : List LevelSnapshot
  orders : List OrderSnapshot
deriving DecidableEq, Repr

structure PositionSnapshot where
  account : AccountId
  instrument : InstrumentId
  position_lots : Int64
  open_buy_lots : UInt64
  open_sell_lots : UInt64
  open_buy_notional : U128
  open_sell_notional : U128
deriving DecidableEq, Repr

structure EngineSnapshot where
  run_id : U128
  as_of_engine_seq : EngineSeq
  engine_time_ns : UInt64
  global_kill : Bool
  metrics : EngineMetrics
  instruments : List InstrumentSnapshot
  positions : List PositionSnapshot
deriving DecidableEq, Repr

/-! ## Reading a book in part -/

namespace OrderBook

/-- Best `limit` levels on one side. -/
def top_levels (self : OrderBook) (side : Side) (limit : Nat) : List (PriceTicks × PriceLevel) :=
  match side with
  | .Buy => self.bids.toList.reverse.take limit
  | .Sell => self.asks.toList.take limit

/-- One step of walking a level up to a number of orders. -/
def walk_upto_body (self : OrderBook) (limit : Nat) : Option Nat × List OrderNode →
    Eval (Flow (Option Nat × List OrderNode) (List OrderNode))
  | (none, out) => pure (.done out)
  | (some slot, out) =>
    if limit ≤ out.length then pure (.done out)
    else do
      let node ← idx (self.orders.get? slot)
      pure (.cont (node.next, out ++ [node]))

/-- First `limit` orders at one price, in FIFO priority order. -/
def level_orders_upto (self : OrderBook) (side : Side) (price : PriceTicks) (limit : Nat) : Eval (List OrderNode) :=
  loop (self.walk_upto_body limit) (self.orders.len + 1) (self.head_slot side price, [])

end OrderBook

/-! ## The capture -/

/-- Their sizes in bytes, on a target of 64 bits. -/
def LevelSnapshot.SIZE : Nat := 24
def OrderSnapshot.SIZE : Nat := 48

/-- `Vec::with_capacity` for elements of a size: no more than `isize::MAX` bytes can be reserved. -/
def with_capacity (size capacity : Nat) : Eval Unit :=
  expect (if capacity * size < 2 ^ 63 then some () else none) "capacity overflow"

/-- Orders a snapshot may carry per level of requested depth. -/
def ORDERS_PER_LEVEL : Nat := 8

/-- `depth.saturating_mul(ORDERS_PER_LEVEL)`. -/
def max_orders (depth : Nat) : Nat := min (depth * ORDERS_PER_LEVEL) (2 ^ 64 - 1)

def NewOrder.shown (order : NewOrder) : OrderSnapshot where
  order_id := order.order_id
  account := order.account
  client_order_id := order.client_order_id
  side := order.side
  price := order.price
  total_quantity := order.total_quantity
  cumulative_filled := order.cumulative_filled

/-- One pass of the inner loop of `capture`. -/
def capture_level (book : OrderBook) (max_orders : Nat) (side : Side) (shown : List LevelSnapshot × List OrderSnapshot)
    (level : PriceTicks × PriceLevel) : Eval (List LevelSnapshot × List OrderSnapshot) :=
  let levels := shown.1 ++ [{
    side := side
    price := level.1
    quantity := level.2.total_remaining
    order_count := level.2.order_count }]
  let room := max_orders - shown.2.length
  if room = 0 then pure (levels, shown.2)
  else do
    let orders ← book.level_orders_upto side level.1 room
    pure (levels, shown.2 ++ orders.map fun order => order.toNewOrder.shown)

def capture_side (book : OrderBook) (depth : Nat) (side : Side) (shown : List LevelSnapshot × List OrderSnapshot) :
    Eval (List LevelSnapshot × List OrderSnapshot) :=
  (book.top_levels side depth).foldlM (capture_level book (max_orders depth) side) shown

def capture_instrument (instrument : InstrumentRuntime) (depth : Nat) : Eval InstrumentSnapshot := do
  let levels ← expect (if depth * 2 < 2 ^ 64 then some (depth * 2) else none) "attempt to multiply with overflow"
  with_capacity LevelSnapshot.SIZE levels
  with_capacity OrderSnapshot.SIZE (max_orders depth)
  let shown ← capture_side instrument.book depth .Buy ([], [])
  let (levels, orders) ← capture_side instrument.book depth .Sell shown
  pure {
    instrument := instrument.config.id
    feed_state := instrument.market.state
    last_source_seq := instrument.market.last_source_seq
    best_bid := instrument.market.best_bid
    best_ask := instrument.market.best_ask
    levels := levels
    orders := orders }

/-- Copies a bounded read model out of the engine, whose configuration has this run id. -/
def TradingCore.capture {n m : Nat} (core : TradingCore n m) (run_id : U128) (depth : Nat) : Eval EngineSnapshot := do
  let instruments ← (List.finRange n).mapM fun i => capture_instrument core.instruments[i] depth
  let positions := (List.finRange m).flatMap fun a => (List.finRange n).map fun i => {
    account := core.accounts[a].id
    instrument := core.instruments[i].config.id
    position_lots := (core.position a i).position_lots
    open_buy_lots := (core.position a i).open_buy_lots
    open_sell_lots := (core.position a i).open_sell_lots
    open_buy_notional := (core.position a i).open_buy_notional
    open_sell_notional := (core.position a i).open_sell_notional }
  pure {
    run_id := run_id
    as_of_engine_seq := core.engine_seq
    engine_time_ns := core.engine_time_ns
    global_kill := core.global_kill
    metrics := core.metrics
    instruments := instruments
    positions := positions }

end TradingLab
