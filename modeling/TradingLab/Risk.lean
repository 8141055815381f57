import TradingLab.State
/-!
# Pre-trade risk

`risk.rs`. Checks run in a fixed order so one invalid request always produces
the same primary reject reason. A check ends in a value, a reject reason, or a
panic: `%` by a tick or lot size of zero panics.
-/
open LabLib

namespace TradingLab

/-- A check: it may reject, and the arithmetic in it may panic. -/
abbrev Check := ExceptT RejectReason Eval

/-- Reject when `c` holds. -/
def reject_if (c : Prop) [Decidable c] (reason : RejectReason) : Check Unit :=
  if c then throw reason else pure ()

/-- Reject when the value is missing. -/
def ok_or {α : Type} (o : Option α) (reason : RejectReason) : Check α :=
  match o with
  | some a => pure a
  | none => throw reason

def rem_u64 (a b : UInt64) : Eval UInt64 :=
  if b = 0 then .error .remainder else .ok (a % b)

def rem_i64 (a b : Int64) : Eval Int64 :=
  if b = 0 ∨ (a = Int64.minValue ∧ b = -1) then .error .remainder else .ok (a % b)

/-- Fields resolved by the pre-trade checks so the mutating path does not repeat work. -/
structure CheckedNewOrder (n m : Nat) where
  account_index : Fin m
  instrument_index : Fin n
  execution_limit : PriceTicks

structure CheckedReplace (n m : Nat) where
  account_index : Fin m
  instrument_index : Fin n
  order_id : OrderId
  existing : OrderNode

/-- Tick distance that is correct for every pair of prices. -/
def tick_distance (left right : PriceTicks) : UInt64 := .ofNat (val left - val right).natAbs

/-- A negative collar admits no distance at all. -/
def collar_ticks (limits : AccountLimits) : UInt64 := (try_from limits.price_collar_ticks).getD 0

def worst_case_position (position : InstrumentPosition) (side : Side) : Option UInt64 := do
  let signed ← match side with
    | .Buy => do
      let lots : Int64 ← try_from position.open_buy_lots
      checked_add position.position_lots lots
    | .Sell => do
      let lots : Int64 ← try_from position.open_sell_lots
      checked_sub position.position_lots lots
  some (unsigned_abs signed)

/-- Market orders execute up to a bounded distance from the reference price. -/
def protection_price (reference : PriceTicks) (side : Side) (ticks : Int64) : Check PriceTicks :=
  ok_or (match side with
    | .Buy => PriceTicks.checked_add_ticks reference ticks
    | .Sell => PriceTicks.checked_sub_ticks reference ticks) .ArithmeticOverflow

/-- The position with the replaced reservation taken out and the added one put in. -/
def project (current : InstrumentPosition) (side : Side) (added_lots : QuantityLots) (added : Notional)
    (replaced_lots : QuantityLots) (released : Notional) : Check InstrumentPosition :=
  match side with
  | .Buy => do
    let lots ← ok_or ((checked_sub current.open_buy_lots replaced_lots).bind (checked_add · added_lots))
      .ArithmeticOverflow
    let notional ← ok_or ((checked_sub current.open_buy_notional released).bind (checked_add · added))
      .ArithmeticOverflow
    pure { current with open_buy_lots := lots, open_buy_notional := notional }
  | .Sell => do
    let lots ← ok_or ((checked_sub current.open_sell_lots replaced_lots).bind (checked_add · added_lots))
      .ArithmeticOverflow
    let notional ← ok_or ((checked_sub current.open_sell_notional released).bind (checked_add · added))
      .ArithmeticOverflow
    pure { current with open_sell_lots := lots, open_sell_notional := notional }

namespace TradingCore
variable {n m : Nat}

def check_quantity (self : TradingCore n m) (instrument_index : Fin n) (quantity : QuantityLots) : Check Unit := do
  reject_if (QuantityLots.is_zero quantity) .InvalidQuantity
  let rem ← (rem_u64 quantity self.instruments[instrument_index].config.lot_size : Eval UInt64)
  reject_if (rem ≠ 0) .QuantityNotAligned

def check_price (self : TradingCore n m) (instrument_index : Fin n) (price : PriceTicks) : Check Unit := do
  let instrument := self.instruments[instrument_index].config
  reject_if (price < instrument.min_price_ticks ∨ price > instrument.max_price_ticks) .InvalidPrice
  let rem ← (rem_i64 price instrument.tick_size : Eval Int64)
  reject_if (rem ≠ 0) .PriceNotAligned

def check_trading_permitted (self : TradingCore n m) (account_index : Fin m) : Check Unit := do
  reject_if self.global_kill .GlobalKillActive
  reject_if (¬ self.accounts[account_index].enabled) .AccountDisabled

def check_client_sequence (self : TradingCore n m) (account_index : Fin m) (client_seq : UInt64) : Check Unit := do
  reject_if (client_seq = 0) .MalformedRequest
  reject_if (client_seq ≤ self.accounts[account_index].last_client_seq) .SequenceTooOld

/-- Requires a synchronized and sufficiently fresh market view. -/
def reference_price (self : TradingCore n m) (instrument_index : Fin n) : Check PriceTicks := do
  let market := self.instruments[instrument_index].market
  reject_if (market.state ≠ .Live) .MarketDataUnsynchronized
  let age := saturating_sub64 self.engine_time_ns market.last_update_time_ns
  reject_if (age > self.config.max_market_age_ns) .MarketDataStale
  ok_or market.reference_price .NoReferencePrice

/-- The price an instrument is marked at: without a reference, only a flat position can be. -/
def mark_price (self : TradingCore n m) (i : Fin n) (position : InstrumentPosition) : Check PriceTicks :=
  match self.instruments[i].market.reference_price with
  | some mark => pure mark
  | none => if position.position_lots = 0 then pure 0 else throw .NoReferencePrice

/-- One pass of the loop over the instruments: the gross exposure with that of one more. -/
def add_exposure (self : TradingCore n m) (account_index : Fin m) (instrument_index : Fin n)
    (projected : InstrumentPosition) (gross : Notional) (i : Fin n) : Check Notional :=
  let position := if i = instrument_index then projected else self.position account_index i
  if position.position_lots = 0 ∧ position.open_buy_notional = 0 ∧ position.open_sell_notional = 0 then pure gross
  else do
    let mark ← self.mark_price i position
    let exposure ← ok_or (instrument_exposure position mark) .ArithmeticOverflow
    ok_or (checked_add gross exposure) .ArithmeticOverflow

/-- Worst-case position and gross exposure including working orders. -/
def check_exposure (self : TradingCore n m) (account_index : Fin m) (instrument_index : Fin n) (side : Side)
    (added_lots : QuantityLots) (added_price : PriceTicks) (replaced_lots : QuantityLots)
    (replaced_price : PriceTicks) : Check Unit := do
  let limits := self.accounts[account_index].limits
  let released ← ok_or (QuantityLots.checked_notional replaced_lots replaced_price) .ArithmeticOverflow
  let added ← ok_or (QuantityLots.checked_notional added_lots added_price) .ArithmeticOverflow
  let projected ← project (self.position account_index instrument_index) side added_lots added replaced_lots released
  let worst ← ok_or (worst_case_position projected side) .ArithmeticOverflow
  reject_if (worst > limits.max_position_lots) .MaxPosition
  let gross ← (List.finRange n).foldlM (self.add_exposure account_index instrument_index projected) 0
  reject_if (gross > limits.max_gross_exposure) .MaxGrossExposure

/-- Only a limit order has a price to check. -/
def check_limit_price (self : TradingCore n m) (instrument_index : Fin n) (request : OrderRequest) : Check Unit :=
  if request.order_type = .Limit then self.check_price instrument_index request.price else pure ()

/-- The worst price a new order may execute at. -/
def execution_limit (self : TradingCore n m) (request : OrderRequest) (reference : PriceTicks) : Check PriceTicks :=
  match request.order_type with
  | .Limit => pure request.price
  | .Market => protection_price reference request.side self.config.market_protection_ticks

def check_new_order (self : TradingCore n m) (request : OrderRequest) : Check (CheckedNewOrder n m) := do
  reject_if (request.kind ≠ .New) .MalformedRequest
  let account_index ← ok_or (self.account_index_of request.account) .UnknownAccount
  let instrument_index ← ok_or (self.instrument_index_of request.instrument) .UnknownInstrument
  self.check_quantity instrument_index request.quantity
  self.check_limit_price instrument_index request
  reject_if (self.client_order_lookup request.account request.client_order_id).isSome .DuplicateClientOrderId
  self.check_trading_permitted account_index
  self.check_client_sequence account_index request.client_seq
  let reference ← self.reference_price instrument_index
  let limits := self.accounts[account_index].limits
  reject_if (request.quantity > limits.max_order_quantity) .MaxOrderQuantity
  let execution_limit ← self.execution_limit request reference
  reject_if (tick_distance execution_limit reference > collar_ticks limits) .PriceCollar
  let notional ← ok_or (QuantityLots.checked_notional request.quantity execution_limit) .ArithmeticOverflow
  reject_if (notional > limits.max_order_notional) .MaxOrderNotional
  self.check_exposure account_index instrument_index request.side request.quantity execution_limit 0 execution_limit
  reject_if self.instruments[instrument_index].book.is_full .CapacityExhausted
  pure ⟨account_index, instrument_index, execution_limit⟩

def check_replace (self : TradingCore n m) (request : OrderRequest) : Check (CheckedReplace n m) := do
  let account_index ← ok_or (self.account_index_of request.account) .UnknownAccount
  let instrument_index ← ok_or (self.instrument_index_of request.instrument) .UnknownInstrument
  let order_id ← ok_or (self.client_order_lookup request.account request.target_client_order_id) .UnknownOrder
  let found ← (self.instruments[instrument_index].book.get order_id : Eval (Option OrderNode))
  let existing ← ok_or found .OrderAlreadyTerminal
  -- A replace may change price and quantity, never side or order type.
  reject_if (request.side ≠ existing.side ∨ request.order_type ≠ .Limit) .MalformedRequest
  self.check_price instrument_index request.price
  reject_if (QuantityLots.is_zero request.quantity) .InvalidQuantity
  let rem ← (rem_u64 request.quantity self.instruments[instrument_index].config.lot_size : Eval UInt64)
  reject_if (rem ≠ 0) .QuantityNotAligned
  -- A replacement total below the cumulative fill is not representable.
  reject_if (request.quantity < existing.cumulative_filled) .InvalidReplaceQuantity
  self.check_trading_permitted account_index
  self.check_client_sequence account_index request.client_seq
  let reference ← self.reference_price instrument_index
  let limits := self.accounts[account_index].limits
  let new_remaining := request.quantity - existing.cumulative_filled
  reject_if (new_remaining > limits.max_order_quantity) .MaxOrderQuantity
  reject_if (tick_distance request.price reference > collar_ticks limits) .PriceCollar
  let notional ← ok_or (QuantityLots.checked_notional new_remaining request.price) .ArithmeticOverflow
  reject_if (notional > limits.max_order_notional) .MaxOrderNotional
  let existing_remaining ← (existing.remaining : Eval QuantityLots)
  self.check_exposure account_index instrument_index existing.side new_remaining request.price existing_remaining
    existing.price
  pure ⟨account_index, instrument_index, order_id, existing⟩

end TradingCore

end TradingLab
