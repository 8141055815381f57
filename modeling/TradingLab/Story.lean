import TradingLab.Lib.Counter
import TradingLab.Ledger
/-!
# What the outputs say

The outputs of a request, in two parts. The stamps: sequence numbers and trade
ids, drawn one after another (`Emits`). And the story they tell once the stamps
are taken off (`bare`): three events for each fill, then one final report
(`Story`). Handlers are shown to tell the story of what they do to the desk.
-/
open LabLib

namespace TradingLab

/-! ## Stamps -/

def trades (out : List OutputEvent) : List TradeEvent :=
  out.filterMap fun event => match event with
    | .Trade trade => some trade
    | _ => none

@[simp] theorem trades_append (out out' : List OutputEvent) : trades (out ++ out') = trades out ++ trades out' :=
  List.filterMap_append

/-- The report without its stamps. -/
def ExecutionReport.bare (report : ExecutionReport) : ExecutionReport :=
  { report with output_seq := 0, engine_seq := 0, engine_time_ns := 0 }

def TradeEvent.bare (trade : TradeEvent) : TradeEvent :=
  { trade with output_seq := 0, engine_seq := 0, engine_time_ns := 0, trade_id := 0 }

/-- The event without its stamps. -/
def OutputEvent.bare : OutputEvent → OutputEvent
  | .Trade trade => .Trade trade.bare
  | .Report report => .Report report.bare
  | .State state => .State { state with output_seq := 0, engine_seq := 0, engine_time_ns := 0 }

/-- The counters outputs are stamped from. -/
structure Stamps where
  engine_seq : EngineSeq
  output_seq : OutputSeq
  trade_id : TradeId

def TradingCore.stamps {n m : Nat} (c : TradingCore n m) : Stamps := ⟨c.engine_seq, c.output_seq, c.next_trade_id⟩

/-- The outputs tell the story, and every stamp drawn from `s` to `s'` is on one of them, in order. -/
structure Emits (s s' : Stamps) (story out : List OutputEvent) : Prop where
  bare : out.map OutputEvent.bare = story
  engine : s'.engine_seq = s.engine_seq
  stamped : ∀ event ∈ out, event.engine_seq = s.engine_seq
  seqs : Counts (val s.output_seq) (out.map fun event => val event.output_seq) (val s'.output_seq)
  ids : Counts (val s.trade_id) ((trades out).map fun trade => val trade.trade_id) (val s'.trade_id)

theorem Emits.nil (s : Stamps) : Emits s s [] [] := ⟨rfl, rfl, fun _ h => absurd h List.not_mem_nil, rfl, rfl⟩

theorem Emits.append {s s' s'' : Stamps} {story story' out out' : List OutputEvent} (h : Emits s s' story out)
    (h' : Emits s' s'' story' out') : Emits s s'' (story ++ story') (out ++ out') where
  bare := by rw [List.map_append, h.bare, h'.bare]
  engine := h'.engine.trans h.engine
  stamped event he := by
    rcases List.mem_append.1 he with he | he
    · exact h.stamped event he
    · exact (h'.stamped event he).trans h.engine
  seqs := by
    rw [List.map_append]
    exact h.seqs.append h'.seqs
  ids := by
    rw [trades_append, List.map_append]
    exact h.ids.append h'.ids

section Draw
variable {n m : Nat} {c : TradingCore n m}

/-- A drawn sequence number is the next one, unless there is none. -/
theorem take_output_seq_some (h : c.take_output_seq.1.fault = none) :
    val c.take_output_seq.2 = val c.output_seq + 1 ∧
      c.take_output_seq.1.stamps = ⟨c.engine_seq, c.take_output_seq.2, c.next_trade_id⟩ := by
  rw [TradingCore.take_output_seq] at h ⊢
  cases hn : next c.output_seq with
  | some q => exact ⟨next_eq_some.1 hn, rfl⟩
  | none => rw [hn] at h; cases h

/-- An event that is no trade and carries the next sequence number. -/
theorem emits_one (hf : c.take_output_seq.1.fault = none) (event : OutputEvent)
    (hseq : event.output_seq = c.take_output_seq.2) (heng : event.engine_seq = c.engine_seq) (ht : trades [event] = []) :
    Emits c.stamps c.take_output_seq.1.stamps [event.bare] [event] := by
  obtain ⟨hq, hs⟩ := take_output_seq_some hf
  rw [hs]
  refine ⟨rfl, rfl, fun e he => ?_, ⟨?_, ?_⟩, ?_⟩
  · rw [List.mem_singleton.1 he]
    exact heng
  · change val event.output_seq = val c.output_seq + 1
    rw [hseq, hq]
  · change val c.take_output_seq.2 = val event.output_seq
    rw [hseq]
  · rw [ht]
    rfl

theorem emits_report (hf : c.take_output_seq.1.fault = none) {report : ExecutionReport}
    (hseq : report.output_seq = c.take_output_seq.2) (heng : report.engine_seq = c.engine_seq) :
    Emits c.stamps c.take_output_seq.1.stamps [.Report report.bare] [.Report report] :=
  emits_one hf (.Report report) hseq heng rfl

/-- A trade under the next trade id, which was drawn before its sequence number. -/
theorem emits_trade {c₂ : TradingCore n m} {trade : TradeEvent} (hid : val trade.trade_id = val c.next_trade_id + 1)
    (hst : c₂.stamps = ⟨c.engine_seq, c.output_seq, trade.trade_id⟩) (hf : c₂.take_output_seq.1.fault = none)
    (hseq : trade.output_seq = c₂.take_output_seq.2) (heng : trade.engine_seq = c.engine_seq) :
    Emits c.stamps c₂.take_output_seq.1.stamps [.Trade trade.bare] [.Trade trade] := by
  obtain ⟨hq, hs⟩ := take_output_seq_some hf
  have h1 : c₂.engine_seq = c.engine_seq := congrArg Stamps.engine_seq hst
  have h2 : c₂.output_seq = c.output_seq := congrArg Stamps.output_seq hst
  have h3 : c₂.next_trade_id = trade.trade_id := congrArg Stamps.trade_id hst
  rw [hs, h1, h3]
  rw [h2] at hq
  refine ⟨rfl, rfl, fun e he => ?_, ⟨?_, ?_⟩, hid, rfl⟩
  · rw [List.mem_singleton.1 he]
    exact heng
  · change val trade.output_seq = val c.output_seq + 1
    rw [hseq, hq]
  · change val c₂.take_output_seq.2 = val trade.output_seq
    rw [hseq]

end Draw

/-! ## Reports -/

/-- A report of a request as it is begun. -/
def plain (request : OrderRequest) (order_id : OrderId) : ExecutionReport where
  output_seq := 0
  engine_seq := 0
  engine_time_ns := 0
  account := request.account
  instrument := request.instrument
  request_id := request.request_id
  client_order_id := request.client_order_id
  order_id := order_id
  kind := .Accepted
  state := .Working
  side := request.side
  order_type := request.order_type
  price := request.price
  total_quantity := request.quantity
  cumulative_filled := 0
  remaining := request.quantity
  last_fill_quantity := 0
  last_fill_price := 0
  reject_reason := none

/-- Final reports, by what became of the request. -/
def rejected (request : OrderRequest) (reason : RejectReason) : ExecutionReport :=
  { plain request 0 with kind := .Rejected, state := .Cancelled, remaining := 0, reject_reason := some reason }

/-- A cancel takes everything but the request's own fields from the order. -/
def cancelled (request : OrderRequest) (o : NewOrder) : ExecutionReport :=
  { plain request o.order_id with
    kind := .Cancelled
    state := .Cancelled
    client_order_id := o.client_order_id
    side := o.side
    price := o.price
    total_quantity := o.total_quantity
    cumulative_filled := o.cumulative_filled
    remaining := 0 }

/-- A replace down to what is filled already. -/
def retired (request : OrderRequest) (o : NewOrder) : ExecutionReport :=
  { plain request o.order_id with
    kind := .Cancelled
    state := .Cancelled
    client_order_id := o.client_order_id
    side := o.side
    cumulative_filled := o.cumulative_filled
    remaining := 0 }

/-- The state of an order that is not done. -/
def openState (filled : QuantityLots) : OrderState := if QuantityLots.is_zero filled then .Working else .PartiallyFilled

/-- An order that went through matching, or was made smaller: under its own tag. -/
def landed (request : OrderRequest) (tag : Tag) (kind : ReportKind) (state : OrderState)
    (filled remaining : QuantityLots) : ExecutionReport :=
  { plain request tag.order_id with
    kind := kind
    state := state
    client_order_id := tag.client_order_id
    side := tag.side
    cumulative_filled := filled
    remaining := remaining }

/-! ## Fills -/

/-- The report to the maker of a fill. -/
def makerReport (instrument : InstrumentId) (side : Side) (fill : Fill) : ExecutionReport where
  output_seq := 0
  engine_seq := 0
  engine_time_ns := 0
  account := fill.maker_account
  instrument := instrument
  request_id := 0
  client_order_id := fill.maker_client_order_id
  order_id := fill.maker_order_id
  kind := if fill.maker_is_filled then .Filled else .PartiallyFilled
  state := if fill.maker_is_filled then .Filled else .PartiallyFilled
  side := side.opposite
  order_type := .Limit
  price := fill.price
  total_quantity := fill.maker_total_quantity
  cumulative_filled := fill.maker_cumulative_filled
  remaining := fill.maker_remaining
  last_fill_quantity := fill.quantity
  last_fill_price := fill.price
  reject_reason := none

/-- The report to the taker: `quantity` is what went into matching, `filled` what of it is filled by now. -/
def takerReport (request : OrderRequest) (order_id : OrderId) (side : Side) (quantity filled : QuantityLots) (fill : Fill) :
    ExecutionReport :=
  { plain request order_id with
    side := side
    kind := if filled = quantity then .Filled else .PartiallyFilled
    state := if filled = quantity then .Filled else .PartiallyFilled
    cumulative_filled := filled
    remaining := quantity - filled
    last_fill_quantity := fill.quantity
    last_fill_price := fill.price }

def fillTrade (instrument : InstrumentId) (request : OrderRequest) (order_id : OrderId) (side : Side) (fill : Fill) :
    TradeEvent where
  output_seq := 0
  engine_seq := 0
  engine_time_ns := 0
  trade_id := 0
  instrument := instrument
  maker_order_id := fill.maker_order_id
  taker_order_id := order_id
  maker_account := fill.maker_account
  taker_account := request.account
  aggressor := side
  price := fill.price
  quantity := fill.quantity

/-- The events of one fill. -/
def fillStory (instrument : InstrumentId) (request : OrderRequest) (order_id : OrderId) (side : Side)
    (quantity filled : QuantityLots) (fill : Fill) : List OutputEvent :=
  [.Trade (fillTrade instrument request order_id side fill), .Report (makerReport instrument side fill),
    .Report (takerReport request order_id side quantity filled fill)]

/-- The events of the fills of a matching, of which `filled` was filled before. -/
def fillsStory (instrument : InstrumentId) (request : OrderRequest) (order_id : OrderId) (side : Side)
    (quantity : QuantityLots) : QuantityLots → List Fill → List OutputEvent
  | _, [] => []
  | filled, fill :: fills => fillStory instrument request order_id side quantity (filled + fill.quantity) fill ++
      fillsStory instrument request order_id side quantity (filled + fill.quantity) fills

/-! ## Requests -/

section Story
variable {n m : Nat}

/-- The order in flight as it would rest. -/
def Flight.order (f : Flight n m) (price : PriceTicks) (total filled : QuantityLots) (priority : PrioritySeq) :
    NewOrder where
  order_id := f.tag.order_id
  account := f.tag.account
  client_order_id := f.tag.client_order_id
  side := f.tag.side
  price := price
  total_quantity := total
  cumulative_filled := filled
  priority := priority

/-- How an order ends that went through matching, which left `r'` of it: the
final report, and what its instrument lists when `l'` was left of the others. -/
inductive Landing (f : Flight n m) (request : OrderRequest) (kind : ReportKind) (fits : Bool) (filled r' : QuantityLots)
    (l' : List NewOrder) : ExecutionReport → List NewOrder → Prop
  | filled : val r' = 0 → Landing f request kind fits filled r' l' (landed request f.tag .Filled .Filled filled 0) l'
  /-- Market orders never rest. -/
  | cancelled : 0 < val r' → request.kind = .New → request.order_type = .Market →
      Landing f request kind fits filled r' l' (landed request f.tag .Cancelled .Cancelled filled 0) l'
  | rests (priority : PrioritySeq) : 0 < val r' → (request.kind = .New → request.order_type = .Limit) → fits = true →
      Landing f request kind fits filled r' l' (landed request f.tag kind (openState filled) filled r')
        (l' ++ [f.order request.price request.quantity filled priority])
  /-- Reported as resting, but its price level is full. -/
  | dropped : 0 < val r' → (request.kind = .New → request.order_type = .Limit) → fits = false →
      Landing f request kind fits filled r' l' (landed request f.tag kind (openState filled) filled r') l'

/-- Every final report names the instrument of the request. -/
theorem Landing.instrument {f : Flight n m} {request : OrderRequest} {kind : ReportKind} {fits : Bool}
    {filled r' : QuantityLots} {l' l'' : List NewOrder} {report : ExecutionReport}
    (h : Landing f request kind fits filled r' l' report l'') : report.instrument = request.instrument := by
  cases h <;> rfl

/-- What handling a request does to the resting orders, and the story its
outputs tell. `fits` says whether an order that comes to rest finds room. -/
inductive Story (w : Wiring n m) (fits : Bool) (d : Desk n m) (request : OrderRequest) :
    List OutputEvent → Desk n m → Prop
  | reject (reason : RejectReason) : Story w fits d request [.Report (rejected request reason)] d
  | cancel {i : Fin n} {o : NewOrder} : request.kind = .Cancel → o ∈ d.book i → o.account = request.account →
      o.client_order_id = request.target_client_order_id →
      Story w fits d request [.Report (cancelled request o)]
        (d.setBook i (without NewOrder.order_id o.order_id (d.book i)))
  /-- A lower total, at or above what is filled: at what is filled the order is gone. -/
  | retire {i : Fin n} {o : NewOrder} : request.kind = .Replace → o ∈ d.book i → o.account = request.account →
      o.client_order_id = request.target_client_order_id → w.instrument_index.lookup request.instrument = some i →
      request.quantity = o.cumulative_filled →
      Story w fits d request [.Report (retired request o)]
        (d.setBook i (without NewOrder.order_id o.order_id (d.book i)))
  | shrink {i : Fin n} {o : NewOrder} {r' : QuantityLots} : request.kind = .Replace → o ∈ d.book i →
      o.account = request.account → o.client_order_id = request.target_client_order_id →
      w.instrument_index.lookup request.instrument = some i → fits = true → request.price = o.price →
      val r' = val request.quantity - val o.cumulative_filled →
      Story w fits d request
        [.Report (landed request o.tag .Replaced (openState o.cumulative_filled) o.cumulative_filled r')]
        (d.setBook i (amend NewOrder.order_id o.order_id (fun o => { o with total_quantity := request.quantity })
          (d.book i)))
  | enter {f : Flight n m} {limit : PriceTicks} {fills : List Fill} {l' l'' : List NewOrder} {r' filled : QuantityLots}
      {report : ExecutionReport} {d' : Desk n m} : request.kind = .New →
      f.tag.account = request.account → f.tag.client_order_id = request.client_order_id → f.tag.side = request.side →
      val f.tag.order_id = val d.next_order_id + 1 → val f.tag.order_id ≤ val d'.next_order_id →
      f.left = request.quantity →
      w.instrument_index.lookup request.instrument = some f.instrument_index →
      Fills f.tag.side.opposite limit (d.book f.instrument_index) f.left fills l' r' →
      val filled + val r' = val request.quantity →
      Landing f request .Accepted fits filled r' l' report l'' →
      d'.book = Function.update d.book f.instrument_index l'' →
      Story w fits d request (fillsStory (w.instruments f.instrument_index).id request f.tag.order_id f.tag.side f.left 0
        fills ++ [.Report report]) d'
  | requeue {f : Flight n m} {o : NewOrder} {fills : List Fill} {l' l'' : List NewOrder}
      {r' filled : QuantityLots} {report : ExecutionReport} {d' : Desk n m} : request.kind = .Replace →
      o ∈ d.book f.instrument_index → o.account = request.account → o.client_order_id = request.target_client_order_id →
      f.tag = o.tag → val f.left = val request.quantity - val o.cumulative_filled → 0 < val f.left →
      w.instrument_index.lookup request.instrument = some f.instrument_index →
      Fills f.tag.side.opposite request.price (without NewOrder.order_id o.order_id (d.book f.instrument_index)) f.left
        fills l' r' →
      val filled + val r' = val request.quantity →
      Landing f request .Replaced fits filled r' l' report l'' →
      d'.book = Function.update d.book f.instrument_index l'' →
      Story w fits d request (fillsStory (w.instruments f.instrument_index).id request f.tag.order_id f.tag.side f.left 0
        fills ++ [.Report report]) d'

end Story

end TradingLab
