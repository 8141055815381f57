import TradingLab.Risk
/-!
# The engine

`core.rs`: the pure deterministic state machine. `out` of the source is only
appended to, so a function that writes to it returns the events it appends.
-/
open LabLib

namespace TradingLab

namespace TradingCore
variable {n m : Nat}

/-! ## Reports -/

def take_output_seq (self : TradingCore n m) : TradingCore n m × OutputSeq :=
  match next self.output_seq with
  | some next => ({ self with output_seq := next }, next)
  | none => (self.set_fault .SequenceExhausted, self.output_seq)

def push_state (self : TradingCore n m) (event : EngineStateEvent) : TradingCore n m × List OutputEvent :=
  let (self, output_seq) := self.take_output_seq
  (self, [.State {
    output_seq := output_seq
    engine_seq := self.engine_seq
    engine_time_ns := self.engine_time_ns
    event := event }])

def base_report (self : TradingCore n m) (request : OrderRequest) (order_id : OrderId) :
    TradingCore n m × ExecutionReport :=
  let (self, output_seq) := self.take_output_seq
  (self, {
    output_seq := output_seq
    engine_seq := self.engine_seq
    engine_time_ns := self.engine_time_ns
    account := request.account
    instrument := request.instrument
    request_id := request.request_id
    client_order_id := request.client_order_id
    order_id := order_id
    kind := .Accepted
    state := .Working
    side := request.side
    order_type := request.order_type
    price := request.price
    total_quantity := request.quantity
    cumulative_filled := 0
    remaining := request.quantity
    last_fill_quantity := 0
    last_fill_price := 0
    reject_reason := none })

def reject_report (self : TradingCore n m) (request : OrderRequest) (reason : RejectReason) :
    TradingCore n m × ExecutionReport :=
  let (self, report) := self.base_report request 0
  (self, { report with kind := .Rejected, state := .Cancelled, remaining := 0, reject_reason := some reason })

def terminal_report (self : TradingCore n m) (request : OrderRequest) (order_id : OrderId) (kind : ReportKind)
    (filled : QuantityLots) : TradingCore n m × ExecutionReport :=
  let (self, report) := self.base_report request order_id
  (self, { report with kind := kind, state := .Filled, cumulative_filled := filled, remaining := 0 })

def cancelled_report (self : TradingCore n m) (request : OrderRequest) (order_id : OrderId) (total : QuantityLots)
    (filled : QuantityLots) : TradingCore n m × ExecutionReport :=
  let (self, report) := self.base_report request order_id
  (self, { report with
    kind := .Cancelled
    state := .Cancelled
    total_quantity := total
    cumulative_filled := filled
    remaining := 0 })

def replace_cancelled_report (self : TradingCore n m) (request : OrderRequest) (order_id : OrderId)
    (existing : OrderNode) : TradingCore n m × ExecutionReport :=
  let (self, report) := self.base_report request order_id
  (self, { report with
    kind := .Cancelled
    state := .Cancelled
    client_order_id := existing.client_order_id
    side := existing.side
    cumulative_filled := existing.cumulative_filled
    remaining := 0 })

/-! ## Reservations and settlement -/

def reserve (self : TradingCore n m) (account_index : Fin m) (instrument_index : Fin n) (side : Side)
    (lots : QuantityLots) (price : PriceTicks) : TradingCore n m :=
  match QuantityLots.checked_notional lots price with
  | none => self.set_fault .Accounting
  | some notional =>
    let (position, reserved) := (self.position account_index instrument_index).reserve side lots notional
    let self := self.set_position account_index instrument_index position
    if reserved.isNone then self.set_fault .Accounting else self

def release_reservation (self : TradingCore n m) (account_index : Fin m) (instrument_index : Fin n) (side : Side)
    (lots : QuantityLots) (price : PriceTicks) : TradingCore n m :=
  if QuantityLots.is_zero lots then self
  else
    match QuantityLots.checked_notional lots price with
    | none => self.set_fault .Accounting
    | some notional =>
      let (position, released) := (self.position account_index instrument_index).release side lots notional
      let self := self.set_position account_index instrument_index position
      if released.isNone then self.set_fault .Accounting else self

/-- Moves a position by a fill. `settle_fill` and `settle_taker` end in this. -/
def move_position (self : TradingCore n m) (account_index : Fin m) (instrument_index : Fin n) (side : Side)
    (quantity : QuantityLots) : TradingCore n m :=
  match apply_fill_to_position (self.position account_index instrument_index) side quantity with
  | none => self.set_fault .Accounting
  | some position => self.set_position account_index instrument_index position

def settle_fill (self : TradingCore n m) (maker_account_index : Fin m) (instrument_index : Fin n) (fill : Fill)
    (aggressor : Side) : TradingCore n m :=
  let maker_side := aggressor.opposite
  let self := self.release_reservation maker_account_index instrument_index maker_side fill.quantity fill.price
  self.move_position maker_account_index instrument_index maker_side fill.quantity

def settle_taker (self : TradingCore n m) (account_index : Fin m) (instrument_index : Fin n) (side : Side)
    (quantity : QuantityLots) : TradingCore n m :=
  self.move_position account_index instrument_index side quantity

/-- The trade and the maker report of one fill. -/
def maker_events (self : TradingCore n m) (instrument_index : Fin n) (request : OrderRequest)
    (order_id : OrderId) (side : Side) (trade_id : TradeId) (fill : Fill) : TradingCore n m × List OutputEvent :=
  let instrument := self.instruments[instrument_index].config.id
  let (self, output_seq) := self.take_output_seq
  let trade : TradeEvent := {
    output_seq := output_seq
    engine_seq := self.engine_seq
    engine_time_ns := self.engine_time_ns
    trade_id := trade_id
    instrument := instrument
    maker_order_id := fill.maker_order_id
    taker_order_id := order_id
    maker_account := fill.maker_account
    taker_account := request.account
    aggressor := side
    price := fill.price
    quantity := fill.quantity }
  let (self, output_seq) := self.take_output_seq
  let maker_report : ExecutionReport := {
    output_seq := output_seq
    engine_seq := self.engine_seq
    engine_time_ns := self.engine_time_ns
    account := fill.maker_account
    instrument := instrument
    request_id := 0
    client_order_id := fill.maker_client_order_id
    order_id := fill.maker_order_id
    kind := if fill.maker_is_filled then .Filled else .PartiallyFilled
    state := if fill.maker_is_filled then .Filled else .PartiallyFilled
    side := side.opposite
    order_type := .Limit
    price := fill.price
    total_quantity := fill.maker_total_quantity
    cumulative_filled := fill.maker_cumulative_filled
    remaining := fill.maker_remaining
    last_fill_quantity := fill.quantity
    last_fill_price := fill.price
    reject_reason := none }
  (self, [.Trade trade, .Report maker_report])

/-- A maker that is filled leaves the order maps. -/
def drop_filled (self : TradingCore n m) (fill : Fill) : TradingCore n m :=
  if fill.maker_is_filled then
    { self with
      live_orders := self.live_orders.erase fill.maker_order_id
      client_orders := self.client_orders.erase (fill.maker_account, fill.maker_client_order_id) }
  else self

/-- The taker report of one fill. -/
def taker_event (self : TradingCore n m) (request : OrderRequest) (order_id : OrderId) (side : Side)
    (quantity taker_cumulative : QuantityLots) (fill : Fill) : TradingCore n m × List OutputEvent :=
  let (self, report) := self.base_report request order_id
  let (self, remaining) := match checked_sub quantity taker_cumulative with
    | some lots => (self, lots)
    | none => (self.set_fault .Accounting, 0)
  (self, [.Report { report with
    side := side
    kind := if taker_cumulative = quantity then .Filled else .PartiallyFilled
    state := if taker_cumulative = quantity then .Filled else .PartiallyFilled
    cumulative_filled := taker_cumulative
    remaining := remaining
    last_fill_quantity := fill.quantity
    last_fill_price := fill.price }])

/-- One pass of the loop of `execute`, after its exits: trade, maker report and
taker report in that fixed order. -/
def settle_one (self : TradingCore n m) (instrument_index : Fin n) (account_index maker_account_index : Fin m)
    (request : OrderRequest) (order_id : OrderId) (side : Side) (quantity taker_cumulative : QuantityLots)
    (trade_id : TradeId) (fill : Fill) : TradingCore n m × List OutputEvent :=
  let self := { self with
    next_trade_id := trade_id
    metrics := { self.metrics with trades := self.metrics.trades + 1 } }
  let self := self.settle_fill maker_account_index instrument_index fill side
  let self := self.settle_taker account_index instrument_index side fill.quantity
  let (self, made) := self.maker_events instrument_index request order_id side trade_id fill
  let self := self.drop_filled fill
  let (self, taken) := self.taker_event request order_id side quantity taker_cumulative fill
  (self, made ++ taken)

/-- The loop of `execute` over the fills. -/
def settle_fills (instrument_index : Fin n) (account_index : Fin m) (request : OrderRequest) (order_id : OrderId)
    (side : Side) (quantity : QuantityLots) :
    TradingCore n m → QuantityLots → List Fill → Eval (TradingCore n m × List OutputEvent)
  | self, _, [] => pure (self, [])
  | self, taker_cumulative, fill :: fills =>
    match checked_add taker_cumulative fill.quantity with
    | none => pure (self.set_fault .Accounting, [])
    | some taker_cumulative =>
      match next self.next_trade_id with
      | none => pure (self.set_fault .SequenceExhausted, [])
      | some trade_id => do
        let maker_account_index ← idx (self.account_index.lookup fill.maker_account)
        let (self, one) := self.settle_one instrument_index account_index maker_account_index request order_id side
          quantity taker_cumulative trade_id fill
        let (self, out) ← settle_fills instrument_index account_index request order_id side quantity self
          taker_cumulative fills
        pure (self, one ++ out)

/-- Matches one aggressing order and settles its fills. -/
def execute (self : TradingCore n m) (instrument_index : Fin n) (account_index : Fin m) (request : OrderRequest)
    (order_id : OrderId) (side : Side) (limit : PriceTicks) (quantity : QuantityLots) :
    Eval (TradingCore n m × List OutputEvent × QuantityLots) := do
  let (book, filled, fills) ← match_order self.instruments[instrument_index].book side limit quantity
  let self := self.set_book instrument_index book
  if QuantityLots.is_zero filled then
    pure (self, [], filled)
  else do
    let (self, out) ← settle_fills instrument_index account_index request order_id side quantity self 0 fills
    pure (self, out, filled)

def rest_order_with (self : TradingCore n m) (instrument_index : Fin n) (account_index : Fin m)
    (client_order_id : ClientOrderId) (side : Side) (price : PriceTicks) (total filled : QuantityLots)
    (order_id : OrderId) : Eval (TradingCore n m) :=
  match next self.next_priority with
  | none => pure (self.set_fault .SequenceExhausted)
  | some priority => do
    let self := { self with next_priority := priority }
    let account := self.accounts[account_index].id
    let inserted ← self.instruments[instrument_index].book.insert {
      order_id := order_id
      account := account
      client_order_id := client_order_id
      side := side
      price := price
      total_quantity := total
      cumulative_filled := filled
      priority := priority }
    match inserted with
    -- The source returns here without a word to its caller.
    | .error _ => pure self
    | .ok book =>
      let self := self.set_book instrument_index book
      match checked_sub total filled with
      | none => pure (self.set_fault .Accounting)
      | some remaining =>
        let self := self.reserve account_index instrument_index side remaining price
        pure { self with
          live_orders := self.live_orders.insert order_id ⟨account_index, instrument_index⟩
          client_orders := self.client_orders.insert (account, client_order_id) order_id }

def rest_order (self : TradingCore n m) (instrument_index : Fin n) (account_index : Fin m) (request : OrderRequest)
    (order_id : OrderId) (total filled : QuantityLots) : Eval (TradingCore n m) :=
  self.rest_order_with instrument_index account_index request.client_order_id request.side request.price total
    filled order_id

/-! ## Requests -/

def handle_new (self : TradingCore n m) (request : OrderRequest) :
    Eval (TradingCore n m × List OutputEvent × ExecutionReport) := do
  match ← (self.check_new_order request).run with
  | .error reason =>
    let (self, report) := self.reject_report request reason
    pure (self, [], report)
  | .ok checked =>
    match next self.next_order_id with
    | none =>
      let (self, report) := (self.set_fault .SequenceExhausted).reject_report request .CapacityExhausted
      pure (self, [], report)
    | some order_id => do
      let self := { self with next_order_id := order_id }
      let (self, out, filled) ← self.execute checked.instrument_index checked.account_index request order_id
        request.side checked.execution_limit request.quantity
      match checked_sub request.quantity filled with
      | none =>
        let (self, report) := (self.set_fault .Accounting).reject_report request .ArithmeticOverflow
        pure (self, out, report)
      | some remaining =>
        if QuantityLots.is_zero remaining then
          let (self, report) := self.terminal_report request order_id .Filled filled
          pure (self, out, report)
        else if request.order_type = .Market then
          -- Market orders never rest. The remainder is cancelled.
          let (self, report) := self.cancelled_report request order_id request.quantity filled
          pure (self, out, report)
        else do
          let self ← self.rest_order checked.instrument_index checked.account_index request order_id
            request.quantity filled
          let (self, report) := self.base_report request order_id
          pure (self, out, { report with
            kind := .Accepted
            state := if QuantityLots.is_zero filled then .Working else .PartiallyFilled
            cumulative_filled := filled
            remaining := remaining })

def handle_cancel (self : TradingCore n m) (request : OrderRequest) :
    Eval (TradingCore n m × ExecutionReport) :=
  if (self.account_index.lookup request.account).isNone then
    pure (self.reject_report request .UnknownAccount)
  else
    let key := (request.account, request.target_client_order_id)
    match self.client_orders.lookup key with
    | none => pure (self.reject_report request .UnknownOrder)
    | some order_id =>
      match self.live_orders.lookup order_id with
      | none => pure (self.reject_report request .OrderAlreadyTerminal)
      | some live => do
        let (removed, book) ← self.instruments[live.instrument_index].book.remove order_id
        let node ← expect removed "live order is present in its book"
        let self := self.set_book live.instrument_index book
        let remaining ← node.remaining
        let self := self.release_reservation live.account_index live.instrument_index node.side remaining node.price
        let self := { self with
          live_orders := self.live_orders.erase order_id
          client_orders := self.client_orders.erase key }
        let (self, report) := self.base_report request order_id
        pure (self, { report with
          kind := .Cancelled
          state := .Cancelled
          client_order_id := node.client_order_id
          side := node.side
          price := node.price
          total_quantity := node.total_quantity
          cumulative_filled := node.cumulative_filled
          remaining := 0 })

/-- Same price with a lower total keeps queue priority. -/
def replace_in_place (self : TradingCore n m) (request : OrderRequest) (checked : CheckedReplace n m) :
    Eval (TradingCore n m × ExecutionReport) :=
  let account_index := checked.account_index
  let instrument_index := checked.instrument_index
  let order_id := checked.order_id
  let existing := checked.existing
  let key := (request.account, existing.client_order_id)
  match checked_sub existing.total_quantity request.quantity with
  | none => pure ((self.set_fault .Accounting).reject_report request .ArithmeticOverflow)
  | some released => do
    let self := self.release_reservation account_index instrument_index existing.side released existing.price
    let book ← self.instruments[instrument_index].book.reduce_total order_id request.quantity
    let self := self.set_book instrument_index book
    if request.quantity = existing.cumulative_filled then do
      let (_, book) ← self.instruments[instrument_index].book.remove order_id
      let self := self.set_book instrument_index book
      let self := { self with
        live_orders := self.live_orders.erase order_id
        client_orders := self.client_orders.erase key }
      pure (self.replace_cancelled_report request order_id existing)
    else
      let (self, report) := self.base_report request order_id
      match checked_sub request.quantity existing.cumulative_filled with
      | none => pure ((self.set_fault .Accounting).reject_report request .ArithmeticOverflow)
      | some lots => pure (self, { report with
          kind := .Replaced
          client_order_id := existing.client_order_id
          side := existing.side
          state := if QuantityLots.is_zero existing.cumulative_filled then .Working else .PartiallyFilled
          cumulative_filled := existing.cumulative_filled
          remaining := lots })

/-- A price change or quantity increase loses priority. -/
def replace_requeue (self : TradingCore n m) (request : OrderRequest) (checked : CheckedReplace n m) :
    Eval (TradingCore n m × List OutputEvent × ExecutionReport) := do
  let account_index := checked.account_index
  let instrument_index := checked.instrument_index
  let order_id := checked.order_id
  let existing := checked.existing
  let key := (request.account, existing.client_order_id)
  let (_, book) ← self.instruments[instrument_index].book.remove order_id
  let self := self.set_book instrument_index book
  let existing_remaining ← existing.remaining
  let self := self.release_reservation account_index instrument_index existing.side existing_remaining existing.price
  let self := { self with
    live_orders := self.live_orders.erase order_id
    client_orders := self.client_orders.erase key }
  if request.quantity = existing.cumulative_filled then
    let (self, report) := self.replace_cancelled_report request order_id existing
    pure (self, [], report)
  else
    match checked_sub request.quantity existing.cumulative_filled with
    | none =>
      let (self, report) := (self.set_fault .Accounting).reject_report request .ArithmeticOverflow
      pure (self, [], report)
    | some target_remaining => do
      let (self, out, filled) ← self.execute instrument_index account_index request order_id existing.side
        request.price target_remaining
      match checked_add existing.cumulative_filled filled with
      | none =>
        let (self, report) := (self.set_fault .Accounting).reject_report request .ArithmeticOverflow
        pure (self, out, report)
      | some cumulative =>
        if cumulative = request.quantity then
          let (self, report) := self.base_report request order_id
          pure (self, out, { report with
            kind := .Filled
            state := .Filled
            client_order_id := existing.client_order_id
            side := existing.side
            cumulative_filled := cumulative
            remaining := 0 })
        else do
          let self ← self.rest_order_with instrument_index account_index existing.client_order_id existing.side
            request.price request.quantity cumulative order_id
          let (self, report) := self.base_report request order_id
          let (self, remaining) := match checked_sub request.quantity cumulative with
            | some lots => (self, lots)
            | none => (self.set_fault .Accounting, 0)
          pure (self, out, { report with
            kind := .Replaced
            client_order_id := existing.client_order_id
            side := existing.side
            state := if QuantityLots.is_zero cumulative then .Working else .PartiallyFilled
            cumulative_filled := cumulative
            remaining := remaining })

def handle_replace (self : TradingCore n m) (request : OrderRequest) :
    Eval (TradingCore n m × List OutputEvent × ExecutionReport) := do
  match ← (self.check_replace request).run with
  | .error reason =>
    let (self, report) := self.reject_report request reason
    pure (self, [], report)
  | .ok checked =>
    if request.price = checked.existing.price ∧ request.quantity < checked.existing.total_quantity then do
      let (self, report) ← self.replace_in_place request checked
      pure (self, [], report)
    else
      self.replace_requeue request checked

def record_outcome (self : TradingCore n m) (account_index : Fin m) (request : OrderRequest) (fingerprint : UInt64)
    (report : ExecutionReport) : TradingCore n m :=
  let account := self.accounts[account_index]
  let account := { account with cache := account.cache.record request.request_id fingerprint report }
  let account := if report.reject_reason.isNone ∧ request.client_seq > 0 then
      { account with last_client_seq := request.client_seq }
    else account
  self.set_account account_index account

/-- The cached result of an earlier request with the same id. -/
def cache_hit (self : TradingCore n m) (request : OrderRequest) : Option (Fin m × CacheHit) := do
  let account_index ← self.account_index.lookup request.account
  let hit ← self.accounts[account_index].cache.lookup request.request_id (request_fingerprint request)
  some (account_index, hit)

/-- The handler of a request that the cache does not answer. -/
def handle_request (self : TradingCore n m) (request : OrderRequest) :
    Eval (TradingCore n m × List OutputEvent × ExecutionReport) :=
  match request.kind with
  | .New => self.handle_new request
  | .Cancel => do
    let (self, report) ← self.handle_cancel request
    pure (self, [], report)
  | .Replace => self.handle_replace request

/-- What follows the handler: the request is counted and its outcome recorded. -/
def finish_request (self : TradingCore n m) (request : OrderRequest) (fingerprint : UInt64)
    (outcome : ExecutionReport) : TradingCore n m :=
  let metrics := if outcome.reject_reason.isSome then
      { self.metrics with requests_rejected := self.metrics.requests_rejected + 1 }
    else { self.metrics with requests_accepted := self.metrics.requests_accepted + 1 }
  let self := { self with metrics := metrics }
  match self.account_index.lookup request.account with
  | some account_index => self.record_outcome account_index request fingerprint outcome
  | none => self

def apply_request (self : TradingCore n m) (request : OrderRequest) : Eval (TradingCore n m × List OutputEvent) :=
  let fingerprint := request_fingerprint request
  match self.cache_hit request with
  -- An exact retry returns the recorded result and changes nothing.
  | some (_, .Retry previous) =>
    let (self, output_seq) := self.take_output_seq
    pure (self, [.Report { previous with
      output_seq := output_seq
      engine_seq := self.engine_seq
      engine_time_ns := self.engine_time_ns }])
  | some (account_index, .Conflict) =>
    let (self, report) := self.reject_report request .DuplicateRequestConflict
    pure (self.record_outcome account_index request fingerprint report, [.Report report])
  | none => do
    let (self, out, outcome) ← self.handle_request request
    pure (self.finish_request request fingerprint outcome, out ++ [.Report outcome])

/-! ## Market data and control -/

def apply_market (self : TradingCore n m) (event : MarketEvent) : TradingCore n m × List OutputEvent :=
  let self := { self with metrics := { self.metrics with market_events := self.metrics.market_events + 1 } }
  match self.instrument_index.lookup event.instrument with
  | none => (self, [])
  | some i =>
    let (market, update) := self.instruments[i].market.apply event.source_seq event.kind self.engine_time_ns
    let self := self.set_market i market
    if update.state_changed then
      self.push_state (.FeedStateChanged event.instrument update.state)
    else
      (self, [])

def apply_control (self : TradingCore n m) (command : ControlCommand) : TradingCore n m × List OutputEvent :=
  let self := { self with metrics := { self.metrics with control_events := self.metrics.control_events + 1 } }
  match command with
  | .SetGlobalKill engaged =>
    if self.global_kill = engaged then (self, [])
    else
      { self with global_kill := engaged }.push_state (if engaged then .KillSwitchEngaged else .KillSwitchReleased)
  | .SetAccountEnabled account enabled =>
    match self.account_index.lookup account with
    | none => (self, [])
    | some a =>
      if self.accounts[a].enabled = enabled then (self, [])
      else
        (self.set_account a { self.accounts[a] with enabled := enabled }).push_state
          (.AccountEnabledChanged account enabled)
  | .SetAccountLimits account limits =>
    match self.account_index.lookup account with
    | none => (self, [])
    | some a =>
      (self.set_account a { self.accounts[a] with limits := limits }).push_state (.AccountLimitsChanged account)

/-! ## Inputs -/

/-- The effect of an event, after the engine sequence and time are set. -/
def apply_event (self : TradingCore n m) (event : InputEvent) : Eval (TradingCore n m × List OutputEvent) :=
  match event with
  | .Market event => pure (self.apply_market event)
  | .Order request => self.apply_request request
  | .Control command => pure (self.apply_control command)

/-- Applies one input. Returns the engine and the output events. -/
def apply (self : TradingCore n m) (input : EngineInput) : Eval (TradingCore n m × List OutputEvent) :=
  if self.fault.isSome then pure (self, [])
  else
    match next self.engine_seq with
    | none => pure (self.set_fault .SequenceExhausted, [])
    | some engine_seq => do
      let self := { self with
        engine_seq := engine_seq
        engine_time_ns := input.recv_time_ns
        metrics := { self.metrics with inputs_applied := self.metrics.inputs_applied + 1 } }
      let (self, out) ← self.apply_event input.event
      let reports := out.countP fun event => event matches .Report _
      pure ({ self with metrics := { self.metrics with
        reports_emitted := self.metrics.reports_emitted + .ofNat reports } }, out)

/-- Applies the inputs one after another. -/
def run (self : TradingCore n m) (inputs : List EngineInput) : Eval (TradingCore n m × List (List OutputEvent)) :=
  runs apply self inputs

end TradingCore

end TradingLab
