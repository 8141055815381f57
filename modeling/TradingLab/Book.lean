import TradingLab.Lib.Eval
import TradingLab.Lib.Slab
import TradingLab.Protocol
/-!
# The matching book

`book.rs`. Price levels are maps from price to the ends of a queue; the orders
of a level form a doubly linked list through the slab. Every `expect`, index
and slab removal of the source is a step that may panic.
-/
open LabLib

namespace TradingLab

/-- An order to rest: everything a node holds except its links. -/
structure NewOrder where
  order_id : OrderId
  account : AccountId
  client_order_id : ClientOrderId
  side : Side
  price : PriceTicks
  total_quantity : QuantityLots
  cumulative_filled : QuantityLots
  priority : PrioritySeq
deriving DecidableEq, Repr

structure OrderNode extends NewOrder where
  prev : Option Nat
  next : Option Nat
deriving DecidableEq, Repr

def OrderNode.remaining (self : OrderNode) : Eval QuantityLots :=
  expect (checked_sub self.total_quantity self.cumulative_filled) "accounting: cumulative fill exceeded total"

structure PriceLevel where
  head : Option Nat := none
  tail : Option Nat := none
  order_count : UInt32 := 0
  total_remaining : UInt64 := 0
deriving DecidableEq, Repr

inductive CapacityExhausted where
  | mk
deriving DecidableEq, Repr

structure OrderBook where
  bids : BTreeMap PriceTicks PriceLevel
  asks : BTreeMap PriceTicks PriceLevel
  orders : Slab OrderNode
  index : HashMap OrderId Nat
  capacity : Nat

namespace OrderBook

def with_capacity (allocator : SlabAllocator) (capacity : Nat) : OrderBook where
  bids := ∅
  asks := ∅
  orders := .empty allocator
  index := ∅
  capacity := capacity

def is_full (self : OrderBook) : Bool := self.orders.len ≥ self.capacity

def get (self : OrderBook) (order_id : OrderId) : Eval (Option OrderNode) :=
  match self.index.lookup order_id with
  | none => pure none
  | some slot => do
    let node ← idx (self.orders.get? slot)
    pure (some node)

def best_bid (self : OrderBook) : Option (PriceTicks × PriceLevel) := self.bids.last?

def best_ask (self : OrderBook) : Option (PriceTicks × PriceLevel) := self.asks.first?

/-- The levels of one side. -/
def side_levels (self : OrderBook) : Side → BTreeMap PriceTicks PriceLevel
  | .Buy => self.bids
  | .Sell => self.asks

def set_side_levels (self : OrderBook) (levels : BTreeMap PriceTicks PriceLevel) : Side → OrderBook
  | .Buy => { self with bids := levels }
  | .Sell => { self with asks := levels }

/-- Whether appending `remaining` to the level would overflow its aggregates. -/
def level_overflows (self : OrderBook) (side : Side) (price : PriceTicks) (remaining : UInt64) : Bool :=
  match (self.side_levels side)[price]? with
  | some level => (checked_add level.total_remaining remaining).isNone || (checked_add level.order_count 1).isNone
  | none => false

/-- Appends an order at the tail of its price level. -/
def insert (self : OrderBook) (order : NewOrder) : Eval (Except CapacityExhausted OrderBook) :=
  if self.is_full then
    pure (.error .mk)
  else
    match checked_sub order.total_quantity order.cumulative_filled with
    | none => pure (.error .mk)
    | some remaining =>
      if self.level_overflows order.side order.price remaining then
        pure (.error .mk)
      else do
        let (slot, orders) := self.orders.insert { order with prev := none, next := none }
        let levels := self.side_levels order.side
        let level := levels[order.price]?.getD {}
        let (orders, level) ← match level.tail with
          | some tail => do
            let orders ← idx (orders.modify tail fun node => { node with next := some slot })
            let orders ← idx (orders.modify slot fun node => { node with prev := some tail })
            pure (orders, level)
          | none => pure (orders, { level with head := some slot })
        let level := { level with
          tail := some slot
          order_count := level.order_count + 1
          total_remaining := level.total_remaining + remaining }
        let self := { self with orders := orders, index := self.index.insert order.order_id slot }
        pure (.ok (self.set_side_levels (levels.insert order.price level) order.side))

def unlink (self : OrderBook) (node : OrderNode) : Eval OrderBook :=
  let levels := self.side_levels node.side
  match levels[node.price]? with
  | none => pure self
  | some level => do
    let (orders, level) ← match node.prev with
      | some prev => do
        let orders ← idx (self.orders.modify prev fun n => { n with next := node.next })
        pure (orders, level)
      | none => pure (self.orders, { level with head := node.next })
    let (orders, level) ← match node.next with
      | some next => do
        let orders ← idx (orders.modify next fun n => { n with prev := node.prev })
        pure (orders, level)
      | none => pure (orders, { level with tail := node.prev })
    let remaining ← node.remaining
    let total ← expect (checked_sub level.total_remaining remaining) "accounting: level remaining underflow"
    let level := { level with order_count := saturating_sub32 level.order_count 1, total_remaining := total }
    let self := { self with orders := orders }
    if level.order_count = (0 : UInt32) then
      pure (self.set_side_levels (levels.erase node.price) node.side)
    else
      pure (self.set_side_levels (levels.insert node.price level) node.side)

/-- Unlinks and removes an order. Returns its final node state. -/
def remove (self : OrderBook) (order_id : OrderId) : Eval (Option OrderNode × OrderBook) :=
  match self.index.lookup order_id with
  | none => pure (none, self)
  | some slot => do
    let (node, orders) ← idx (self.orders.remove slot)
    let self ← { self with index := self.index.erase order_id, orders := orders }.unlink node
    pure (some node, self)

/-- Reduces the total quantity of a resting order while keeping its priority. -/
def reduce_total (self : OrderBook) (order_id : OrderId) (new_total : QuantityLots) : Eval OrderBook :=
  match self.index.lookup order_id with
  | none => pure self
  | some slot => do
    let node ← idx (self.orders.get? slot)
    let old_remaining ← node.remaining
    let node := { node with total_quantity := new_total }
    let orders ← idx (self.orders.modify slot fun _ => node)
    let new_remaining ← node.remaining
    let self := { self with orders := orders }
    let levels := self.side_levels node.side
    match levels[node.price]? with
    | none => pure self
    | some level => do
      let total ← expect ((checked_sub level.total_remaining old_remaining).bind (checked_add · new_remaining))
        "accounting: level remaining overflow"
      pure (self.set_side_levels (levels.insert node.price { level with total_remaining := total }) node.side)

/-- Applies a fill to a resting order and removes it when fully filled. -/
def fill_maker (self : OrderBook) (slot : Nat) (quantity : QuantityLots) : Eval (OrderNode × OrderBook) := do
  let node ← idx (self.orders.get? slot)
  let cumulative ← expect (checked_add node.cumulative_filled quantity) "accounting: cumulative fill overflow"
  let node := { node with cumulative_filled := cumulative }
  let orders ← idx (self.orders.modify slot fun _ => node)
  let remaining ← node.remaining
  let self := { self with orders := orders }
  let levels := self.side_levels node.side
  let self ← match levels[node.price]? with
    | none => pure self
    | some level => do
      let total ← expect (checked_sub level.total_remaining quantity) "accounting: level remaining underflow"
      pure (self.set_side_levels (levels.insert node.price { level with total_remaining := total }) node.side)
  if QuantityLots.is_zero remaining then do
    let (removed, orders) ← idx (self.orders.remove slot)
    let self ← { self with index := self.index.erase node.order_id, orders := orders }.unlink removed
    pure (node, self)
  else
    pure (node, self)

def head_slot (self : OrderBook) (side : Side) (price : PriceTicks) : Option Nat :=
  (self.side_levels side)[price]?.bind (·.head)

def node (self : OrderBook) (slot : Nat) : Eval OrderNode := idx (self.orders.get? slot)

/-- Best resting price on `side` that is eligible against `limit`. -/
def next_eligible_price (self : OrderBook) (side : Side) (limit : Option PriceTicks) : Option PriceTicks :=
  match side with
  | .Buy => do
    let (price, _) ← self.bids.last?
    match limit with
    | some limit => if price < limit then none else some price
    | none => some price
  | .Sell => do
    let (price, _) ← self.asks.first?
    match limit with
    | some limit => if price > limit then none else some price
    | none => some price

/-- Level view in canonical price order: bids descending, asks ascending. -/
def levels (self : OrderBook) : Side → List (PriceTicks × PriceLevel)
  | .Buy => self.bids.toList.reverse
  | .Sell => self.asks.toList

/-- One step of walking a level: push the node and follow its link. -/
def walk_body (self : OrderBook) : Option Nat × List OrderNode →
    Eval (Flow (Option Nat × List OrderNode) (List OrderNode))
  | (none, out) => pure (.done out)
  | (some slot, out) => do
    let node ← idx (self.orders.get? slot)
    pure (.cont (node.next, out ++ [node]))

/-- Orders at one price in FIFO priority order. -/
def level_orders (self : OrderBook) (side : Side) (price : PriceTicks) : Eval (List OrderNode) :=
  -- A walk longer than the slab has come back to a slot it has seen.
  loop self.walk_body (self.orders.len + 1) (self.head_slot side price, [])

/-- The rows of one side of the snapshot. -/
def side_snapshot (self : OrderBook) (side : Side) : Eval (List (Side × PriceTicks × List OrderNode)) :=
  (self.levels side).mapM fun level => do
    let orders ← self.level_orders side level.1
    pure (side, level.1, orders)

/-- Full canonical view used by state hashing, tests, and read models. -/
def snapshot (self : OrderBook) : Eval (List (Side × PriceTicks × List OrderNode)) := do
  let bids ← self.side_snapshot .Buy
  let asks ← self.side_snapshot .Sell
  pure (bids ++ asks)

/-- The order checks of one level, in queue order. -/
def check_orders (self : OrderBook) (side : Side) (price : PriceTicks) :
    Option PrioritySeq → List OrderNode → ExceptT String Eval Unit
  | _, [] => pure ()
  | previous_priority, order :: orders => do
    let order_id := order.order_id
    if order.side ≠ side ∨ order.price ≠ price then
      throw s!"order {order_id} in wrong level"
    let remaining ← order.remaining
    if QuantityLots.is_zero remaining then
      throw s!"order {order_id} rests with no quantity"
    if let some previous := previous_priority then
      if order.priority ≤ previous then
        throw s!"priority not increasing at {price}"
    match self.index.lookup order_id with
    | none => throw s!"order {order_id} missing from index"
    | some slot => do
      let indexed ← (idx (self.orders.get? slot) : Eval OrderNode)
      if indexed.order_id = order_id then
        self.check_orders side price (some order.priority) orders
      else
        throw s!"order {order_id} missing from index"

/-- The checks of one level. Returns the number of orders seen. -/
def check_level (self : OrderBook) (side : Side) (price : PriceTicks) (level : PriceLevel) :
    ExceptT String Eval Nat := do
  if level.order_count = 0 then
    throw s!"empty level retained at {price}"
  let orders ← self.level_orders side price
  if orders.length ≠ level.order_count.toNat then
    throw s!"level {price} count mismatch"
  let remainings ← orders.mapM (fun order => (order.remaining : Eval QuantityLots))
  if remainings.foldl (· + ·) 0 ≠ level.total_remaining then
    throw s!"level {price} aggregate mismatch"
  self.check_orders side price none orders
  pure orders.length

/-- The checks of the levels of one side, counting the orders seen. -/
def check_levels (self : OrderBook) (side : Side) : Nat → List (PriceTicks × PriceLevel) → ExceptT String Eval Nat
  | seen, [] => pure seen
  | seen, (price, level) :: rest => do
    let n ← self.check_level side price level
    self.check_levels side (seen + n) rest

/-- Checks the structural invariants. Used by tests and debug tooling. -/
def check_invariants (self : OrderBook) : ExceptT String Eval Unit := do
  let seen ← self.check_levels .Buy 0 (self.levels .Buy)
  let seen ← self.check_levels .Sell seen (self.levels .Sell)
  if seen ≠ self.orders.len ∨ seen ≠ self.index.keys.card then
    throw "live order count mismatch"
  match self.best_bid, self.best_ask with
  | some (bid, _), some (ask, _) =>
    if bid ≥ ask then
      throw s!"crossed book: bid {bid} ask {ask}"
  | _, _ => pure ()

end OrderBook

end TradingLab
