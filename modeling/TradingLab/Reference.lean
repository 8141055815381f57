import TradingLab.Matching
/-!
# The reference book

`reference.rs`: the deliberately simple book used as the correctness oracle,
and the canonical rows both books are compared by.
-/
open LabLib

namespace TradingLab

structure ReferenceOrder where
  order_id : OrderId
  priority : PrioritySeq
  total_quantity : QuantityLots
  cumulative_filled : QuantityLots
deriving DecidableEq, Repr

def ReferenceOrder.remaining (self : ReferenceOrder) : QuantityLots :=
  self.total_quantity - self.cumulative_filled

structure ReferenceFill where
  maker_order_id : OrderId
  price : PriceTicks
  quantity : QuantityLots
  maker_remaining : QuantityLots
deriving DecidableEq, Repr

/-- One canonical row: side, price, and the orders resting there in FIFO order. -/
abbrev BookRow := Side × PriceTicks × List (OrderId × QuantityLots × PrioritySeq)

structure ReferenceBook where
  bids : BTreeMap PriceTicks (List ReferenceOrder)
  asks : BTreeMap PriceTicks (List ReferenceOrder)

/-- What the loops of the reference `match_order` change. -/
structure ReferenceMatch where
  book : ReferenceBook
  remaining : UInt64
  fills : List ReferenceFill

/-- The inner loop works on the queue of one level. -/
structure ReferenceLevelMatch where
  orders : List ReferenceOrder
  remaining : UInt64
  fills : List ReferenceFill

namespace ReferenceBook

def new : ReferenceBook where
  bids := ∅
  asks := ∅

def side (self : ReferenceBook) : Side → BTreeMap PriceTicks (List ReferenceOrder)
  | .Buy => self.bids
  | .Sell => self.asks

def set_side (self : ReferenceBook) (levels : BTreeMap PriceTicks (List ReferenceOrder)) : Side → ReferenceBook
  | .Buy => { self with bids := levels }
  | .Sell => { self with asks := levels }

def insert (self : ReferenceBook) (side : Side) (price : PriceTicks) (order : ReferenceOrder) : ReferenceBook :=
  let levels := self.side side
  self.set_side (levels.insert price (levels[price]?.getD [] ++ [order])) side

/-- The first level of a side, in price order, that holds the order. -/
def find_level (self : ReferenceBook) (side : Side) (order_id : OrderId) :
    Option (PriceTicks × List ReferenceOrder × ReferenceOrder) :=
  (self.side side).toList.findSome? fun level =>
    (level.2.find? (·.order_id = order_id)).map fun order => (level.1, level.2, order)

def remove_side (self : ReferenceBook) (side : Side) (order_id : OrderId) :
    Option ((Side × PriceTicks × ReferenceOrder) × ReferenceBook) := do
  let (price, orders, order) ← self.find_level side order_id
  let orders := orders.eraseP (·.order_id = order_id)
  let levels := self.side side
  let levels := if orders.isEmpty then levels.erase price else levels.insert price orders
  some ((side, price, order), self.set_side levels side)

def remove (self : ReferenceBook) (order_id : OrderId) :
    Option (Side × PriceTicks × ReferenceOrder) × ReferenceBook :=
  match self.remove_side .Buy order_id with
  | some (found, book) => (some found, book)
  | none =>
    match self.remove_side .Sell order_id with
    | some (found, book) => (some found, book)
    | none => (none, self)

/-- Sets the total of the first order with this id. -/
def set_total (order_id : OrderId) (new_total : QuantityLots) : List ReferenceOrder → List ReferenceOrder
  | [] => []
  | o :: orders =>
    if o.order_id = order_id then { o with total_quantity := new_total } :: orders
    else o :: set_total order_id new_total orders

def reduce_total_side (self : ReferenceBook) (side : Side) (order_id : OrderId) (new_total : QuantityLots) :
    Option ReferenceBook := do
  let (price, orders, _) ← self.find_level side order_id
  some (self.set_side ((self.side side).insert price (set_total order_id new_total orders)) side)

def reduce_total (self : ReferenceBook) (order_id : OrderId) (new_total : QuantityLots) : ReferenceBook :=
  match self.reduce_total_side .Buy order_id new_total with
  | some book => book
  | none => (self.reduce_total_side .Sell order_id new_total).getD self

def match_level_body (price : PriceTicks) (s : ReferenceLevelMatch) :
    Eval (Flow ReferenceLevelMatch ReferenceLevelMatch) :=
  if s.remaining > 0 then
    match s.orders with
    | [] => pure (.done s)
    | maker :: rest =>
      let traded := min s.remaining maker.remaining
      let maker := { maker with cumulative_filled := maker.cumulative_filled + traded }
      let maker_remaining := maker.remaining
      pure (.cont {
        orders := if QuantityLots.is_zero maker_remaining then rest else maker :: rest
        remaining := s.remaining - traded
        fills := s.fills ++ [{
          maker_order_id := maker.order_id
          price := price
          quantity := traded
          maker_remaining := maker_remaining }] })
  else
    pure (.done s)

/-- The best price of the maker side. -/
def best_price (self : ReferenceBook) : Side → Option PriceTicks
  | .Buy => self.bids.last?.map (·.1)
  | .Sell => self.asks.first?.map (·.1)

/-- Whether a maker price is acceptable against the taker's limit. -/
def eligible (maker_side : Side) (price limit : PriceTicks) : Bool :=
  match maker_side with
  | .Buy => price ≥ limit
  | .Sell => price ≤ limit

def match_order_body (maker_side : Side) (limit : PriceTicks) (s : ReferenceMatch) :
    Eval (Flow ReferenceMatch ReferenceMatch) :=
  if s.remaining > 0 then
    match s.book.best_price maker_side with
    | none => pure (.done s)
    | some price =>
      if eligible maker_side price limit then do
        let levels := s.book.side maker_side
        let orders ← expect levels[price]? "price came from this map"
        let l ← loop (match_level_body price) (orders.length + 2) ⟨orders, s.remaining, s.fills⟩
        let levels := if l.orders.isEmpty then levels.erase price else levels.insert price l.orders
        pure (.cont ⟨s.book.set_side levels maker_side, l.remaining, l.fills⟩)
      else
        pure (.done s)
  else
    pure (.done s)

def match_order (self : ReferenceBook) (taker_side : Side) (limit : PriceTicks) (quantity : QuantityLots) :
    Eval (ReferenceBook × QuantityLots × List ReferenceFill) := do
  let maker_side := taker_side.opposite
  -- Every pass but the last empties a level.
  let s ← loop (match_order_body maker_side limit) ((self.side maker_side).size + 2) ⟨self, quantity, []⟩
  pure (s.book, quantity - s.remaining, s.fills)

def canonical_orders (orders : List ReferenceOrder) : List (OrderId × QuantityLots × PrioritySeq) :=
  orders.map fun order => (order.order_id, order.remaining, order.priority)

def snapshot (self : ReferenceBook) : List BookRow :=
  (self.bids.toList.reverse.map fun level => (Side.Buy, level.1, canonical_orders level.2)) ++
    self.asks.toList.map fun level => (Side.Sell, level.1, canonical_orders level.2)

end ReferenceBook

/-- Same canonical rows for the indexed book, so the two can be compared directly. -/
def book_rows (book : OrderBook) : Eval (List BookRow) := do
  let rows ← book.snapshot
  rows.mapM fun row => do
    let orders ← row.2.2.mapM fun order => do
      let remaining ← order.remaining
      pure (order.order_id, remaining, order.priority)
    pure (row.1, row.2.1, orders)

end TradingLab
