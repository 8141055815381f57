import TradingLab.Book
/-!
# Matching against the book

`matching.rs`. Both loops of `match_order` may take each resting order off the
book once, so the number of orders bounds their passes.
-/
open LabLib

namespace TradingLab

structure Fill where
  maker_order_id : OrderId
  maker_account : AccountId
  maker_client_order_id : ClientOrderId
  price : PriceTicks
  quantity : QuantityLots
  maker_total_quantity : QuantityLots
  maker_cumulative_filled : QuantityLots
  maker_remaining : QuantityLots
deriving DecidableEq, Repr

def Fill.maker_is_filled (self : Fill) : Bool := QuantityLots.is_zero self.maker_remaining

/-- What the loops of `match_order` change. -/
structure MatchState where
  book : OrderBook
  remaining : UInt64
  fills : List Fill

/-- One pass of the inner loop: trade with the head of the level at `price`. -/
def match_level_body (maker_side : Side) (price : PriceTicks) (s : MatchState) :
    Eval (Flow MatchState MatchState) :=
  if s.remaining > 0 then
    match s.book.head_slot maker_side price with
    | none => pure (.done s)
    | some slot => do
      let maker ← s.book.node slot
      let maker_remaining ← maker.remaining
      let traded := min s.remaining maker_remaining
      let (maker_after, book) ← s.book.fill_maker slot traded
      let after_remaining ← maker_after.remaining
      pure (.cont {
        book := book
        remaining := s.remaining - traded
        fills := s.fills ++ [{
          maker_order_id := maker.order_id
          maker_account := maker.account
          maker_client_order_id := maker.client_order_id
          price := price
          quantity := traded
          maker_total_quantity := maker_after.total_quantity
          maker_cumulative_filled := maker_after.cumulative_filled
          maker_remaining := after_remaining }] })
  else
    pure (.done s)

/-- One pass of the outer loop: trade at the best eligible price. -/
def match_order_body (maker_side : Side) (limit : PriceTicks) (s : MatchState) :
    Eval (Flow MatchState MatchState) :=
  if s.remaining > 0 then
    match s.book.next_eligible_price maker_side (some limit) with
    | none => pure (.done s)
    | some price => do
      let s ← loop (match_level_body maker_side price) (s.book.orders.len + 2) s
      pure (.cont s)
  else
    pure (.done s)

/-- Matches `quantity` from `taker_side` against resting liquidity. Returns the
book, the filled quantity and the fills in execution order. -/
def match_order (book : OrderBook) (taker_side : Side) (limit : PriceTicks) (quantity : QuantityLots) :
    Eval (OrderBook × QuantityLots × List Fill) := do
  let s ← loop (match_order_body taker_side.opposite limit) (book.orders.len + 2) ⟨book, quantity, []⟩
  pure (s.book, quantity - s.remaining, s.fills)

end TradingLab
