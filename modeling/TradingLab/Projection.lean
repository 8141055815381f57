import TradingLab.Lib.Counter
import TradingLab.Database
/-!
# The projection

`Projection.apply` puts a batch of output events into the tables, in one
transaction. What it keeps in memory is no part of the transaction: when it is
aborted, the tables are as before and the memory is not. SQLite may abort it,
and so does an integer that is no `i64`: the driver throws when it is bound.
-/
open LabLib

namespace TradingLab

/-- The names of the reasons in the events of the gateway. -/
def RejectReason.label : RejectReason → String
  | .MalformedRequest => "malformed_request"
  | .UnknownInstrument => "unknown_instrument"
  | .UnknownAccount => "unknown_account"
  | .UnknownOrder => "unknown_order"
  | .InvalidSide => "invalid_side"
  | .InvalidOrderType => "invalid_order_type"
  | .InvalidPrice => "invalid_price"
  | .InvalidQuantity => "invalid_quantity"
  | .PriceNotAligned => "price_not_aligned"
  | .QuantityNotAligned => "quantity_not_aligned"
  | .DuplicateRequestConflict => "duplicate_request_conflict"
  | .SequenceTooOld => "sequence_too_old"
  | .SequenceOutOfOrder => "sequence_out_of_order"
  | .DuplicateClientOrderId => "duplicate_client_order_id"
  | .AccountDisabled => "account_disabled"
  | .GlobalKillActive => "global_kill_active"
  | .MarketDataUnsynchronized => "market_data_unsynchronized"
  | .MarketDataStale => "market_data_stale"
  | .MaxOrderQuantity => "max_order_quantity"
  | .MaxOrderNotional => "max_order_notional"
  | .PriceCollar => "price_collar"
  | .MaxPosition => "max_position"
  | .MaxGrossExposure => "max_gross_exposure"
  | .CapacityExhausted => "capacity_exhausted"
  | .ArithmeticOverflow => "arithmetic_overflow"
  | .OrderAlreadyTerminal => "order_already_terminal"
  | .InvalidReplaceQuantity => "invalid_replace_quantity"
  | .NoReferencePrice => "no_reference_price"

/-! ## Tables -/

def Database.addPosition (db : Database) (account : AccountId) (instrument : InstrumentId) (delta : Int) : Database :=
  let excluded : PositionRow := ⟨delta, if 0 < delta then delta else 0, if delta < 0 then -delta else 0⟩
  let row : PositionRow := match db.positions.lookup (account, instrument) with
    | none => excluded
    | some row => ⟨row.position_lots + excluded.position_lots, row.bought_lots + excluded.bought_lots,
        row.sold_lots + excluded.sold_lots⟩
  { db with positions := db.positions.insert (account, instrument) row }

/-- The positions move also when the trade itself is there already and is ignored. -/
def Database.applyTrade (db : Database) (runId : RunId) (event : TradeEvent) : Database :=
  let db := db.insert_trade {
    run_id := runId
    trade_id := event.trade_id
    output_seq := event.output_seq
    engine_seq := event.engine_seq
    engine_time_ns := event.engine_time_ns
    instrument := event.instrument
    maker_account := event.maker_account
    taker_account := event.taker_account
    aggressor := event.aggressor
    price_ticks := event.price
    quantity_lots := event.quantity
    settlement_id := none }
  let quantity := val event.quantity
  let takerBuys := event.aggressor = .Buy
  let db := db.addPosition event.taker_account event.instrument (if takerBuys then quantity else -quantity)
  db.addPosition event.maker_account event.instrument (if takerBuys then -quantity else quantity)

def OrderState.terminal : OrderState → Bool
  | .Filled | .Cancelled => true
  | .Working | .PartiallyFilled => false

/-- An order that is in the table keeps its identity: only what can change is written. -/
def Database.applyReport (db : Database) (event : ExecutionReport) : Database :=
  match event.reject_reason with
  | some reason =>
    let count := (db.risk_rejects.lookup reason.label).getD 0
    { db with risk_rejects := db.risk_rejects.insert reason.label (count + 1) }
  | none =>
    if event.order_id = 0 then db
    else if event.state.terminal then { db with orders := db.orders.erase event.order_id }
    else
      let row : OrderRow := match db.orders.lookup event.order_id with
        | none => {
            account := event.account
            instrument := event.instrument
            client_order_id := event.client_order_id
            side := event.side
            order_type := event.order_type
            price_ticks := event.price
            total_lots := event.total_quantity
            filled_lots := event.cumulative_filled
            state := event.state
            updated_output_seq := event.output_seq }
        | some row => { row with
            price_ticks := event.price
            total_lots := event.total_quantity
            filled_lots := event.cumulative_filled
            state := event.state
            updated_output_seq := event.output_seq }
      { db with orders := db.orders.insert event.order_id row }

/-- What an event does to the tables. -/
def Database.applyEvent (db : Database) (runId : RunId) : OutputEvent → Database
  | .Trade event => db.applyTrade runId event
  | .Report event => db.applyReport event
  | .State _ => db

/-- What `run` is given for the integers of an event. A report binds nothing that is not written. -/
def OutputEvent.bound : OutputEvent → List Int
  | .Trade event =>
    [val event.trade_id, val event.output_seq, val event.engine_seq, val event.engine_time_ns, val event.instrument,
      val event.maker_account, val event.taker_account, val event.price, val event.quantity]
  | .Report event =>
    if event.reject_reason ≠ none ∨ event.order_id = 0 then []
    else if event.state.terminal then [val event.order_id]
    else
      [val event.order_id, val event.account, val event.instrument, val event.client_order_id, val event.price,
        val event.total_quantity, val event.cumulative_filled, val event.output_seq]
  | .State _ => []

/-- SQLite has no integers beyond `i64`, and the driver throws at a `BigInt` that is none. -/
def OutputEvent.binds (event : OutputEvent) : Bool :=
  event.bound.all fun n => -9223372036854775808 ≤ n ∧ n ≤ 9223372036854775807

/-! ## Batches -/

structure Projection where
  db : Database
  lastOutputSeq : Int
  projectionSeq : Int
  lastEngineSeq : Int
  runId : RunId
  healthState : ProjectionHealth

/-- The constructor reads its position from the database. -/
def Projection.new (db : Database) : Projection where
  db := db
  lastOutputSeq := db.state.last_output_seq
  projectionSeq := db.state.projection_seq
  lastEngineSeq := db.state.as_of_engine_seq
  runId := db.state.run_id
  healthState := db.state.projection_health

def Projection.latch (p : Projection) (next : ProjectionHealth) : Projection :=
  { p with
    healthState := next
    db := { p.db with state := { p.db.state with projection_health := next } } }

/-- The event that is next: into the tables, and the position moves on. -/
def Projection.take (p : Projection) (event : OutputEvent) : Projection :=
  { p with
    db := p.db.applyEvent p.runId event
    lastOutputSeq := val event.output_seq
    lastEngineSeq := val event.engine_seq
    projectionSeq := p.projectionSeq + 1 }

/-- The loop of the transaction, which says whether it came to the end of the
batch. Before the first event every sequence number will do. -/
def Projection.applyLoop (p : Projection) : List OutputEvent → Projection × Bool
  | [] => (p, true)
  | event :: batch =>
    if val event.output_seq ≤ p.lastOutputSeq then p.applyLoop batch
    else if val event.output_seq ≠ p.lastOutputSeq + 1 ∧ p.lastOutputSeq ≠ 0 then (p.latch .degraded, false)
    else (p.take event).applyLoop batch

/-- The position goes into the database. -/
def Projection.store (p : Projection) : Projection :=
  { p with
    db := { p.db with
      state := { p.db.state with
        last_output_seq := p.lastOutputSeq
        as_of_engine_seq := p.lastEngineSeq
        projection_seq := p.projectionSeq } } }

/-- A transaction that comes to its end. -/
def Projection.commit (p : Projection) (events : List OutputEvent) : Projection :=
  match p.applyLoop events with
  | (p, true) => p.store
  | (p, false) => p

/-- The transaction is aborted after `count` events: all it wrote is undone. -/
def Projection.applyAborted (p : Projection) (events : List OutputEvent) (count : Nat) : Projection :=
  { (p.applyLoop (events.take count)).1 with db := p.db }

/-- How many events the loop has behind it when it throws. -/
def Projection.thrownAt (p : Projection) : List OutputEvent → Option Nat
  | [] => none
  | event :: batch =>
    if val event.output_seq ≤ p.lastOutputSeq then (p.thrownAt batch).map (· + 1)
    else if val event.output_seq ≠ p.lastOutputSeq + 1 ∧ p.lastOutputSeq ≠ 0 then none
    else if event.binds then ((p.take event).thrownAt batch).map (· + 1)
    else some 0

def Projection.apply (p : Projection) (events : List OutputEvent) : Projection :=
  match p.thrownAt events with
  | none => p.commit events
  | some count => p.applyAborted events count

/-- The events of a batch that go into the tables. -/
def Projection.applied (p : Projection) : List OutputEvent → List OutputEvent
  | [] => []
  | event :: batch =>
    if val event.output_seq ≤ p.lastOutputSeq then p.applied batch
    else if val event.output_seq ≠ p.lastOutputSeq + 1 ∧ p.lastOutputSeq ≠ 0 then []
    else event :: (p.take event).applied batch

/-- The first run the gateway names is bound; another one latches. -/
def Projection.bindRun (p : Projection) (incoming : RunId) : Projection :=
  if incoming = 0 then p
  else if p.runId = 0 then
    { p with
      runId := incoming
      db := { p.db with state := { p.db.state with run_id := incoming } } }
  else if p.runId ≠ incoming then p.latch .run_mismatch
  else p

/-- The first half of `rebuild`: everything is deleted, before the gateway is asked to start over. -/
def Projection.wipe (p : Projection) : Projection where
  db := { p.db with
    orders := ∅
    trades := []
    positions := ∅
    risk_rejects := ∅
    settlements := []
    state := ⟨0, 0, 0, 0, .healthy⟩ }
  lastOutputSeq := 0
  projectionSeq := 0
  lastEngineSeq := 0
  runId := 0
  healthState := .healthy

/-! ## Batches that throw -/

theorem thrownAt_eq_none_iff {p : Projection} {events : List OutputEvent} :
    p.thrownAt events = none ↔ ∀ event ∈ p.applied events, event.binds = true := by
  induction events generalizing p with
  | nil => simp [Projection.thrownAt, Projection.applied]
  | cons event events ih =>
    rw [Projection.thrownAt, Projection.applied]
    split
    · rw [Option.map_eq_none_iff, ih]
    · split
      · simp
      · rw [List.forall_mem_cons, ← ih]
        cases event.binds <;> simp

/-- Only events behind the position are applied. -/
theorem mem_applied {p : Projection} {events : List OutputEvent} {event : OutputEvent} (h : event ∈ p.applied events) :
    event ∈ events ∧ p.lastOutputSeq < val event.output_seq := by
  induction events generalizing p with
  | nil => cases h
  | cons first events ih =>
    rw [Projection.applied] at h
    split at h
    · exact ⟨List.mem_cons_of_mem _ (ih h).1, (ih h).2⟩
    · rename_i hnew
      split at h
      · cases h
      · rcases List.mem_cons.1 h with rfl | h
        · exact ⟨List.mem_cons_self, by omega⟩
        · have hlater : val first.output_seq < val event.output_seq := (ih h).2
          exact ⟨List.mem_cons_of_mem _ (ih h).1, by omega⟩

theorem apply_of_binds {p : Projection} {events : List OutputEvent} (h : ∀ event ∈ p.applied events, event.binds = true) :
    p.apply events = p.commit events := by
  rw [Projection.apply, thrownAt_eq_none_iff.2 h]

/-! ## Streams without gaps -/

/-- A batch that goes on where the projection stands goes in event by event. -/
theorem applyLoop_of_counts {p : Projection} {events : List OutputEvent} {last : Int}
    (h : Counts p.lastOutputSeq (events.map fun event => val event.output_seq) last) :
    p.applyLoop events = (events.foldl Projection.take p, true) := by
  induction events generalizing p with
  | nil => rfl
  | cons event events ih =>
    have hseq : val event.output_seq = p.lastOutputSeq + 1 := h.1
    have hfresh : ¬val event.output_seq ≤ p.lastOutputSeq := by omega
    have hnext : ¬(val event.output_seq ≠ p.lastOutputSeq + 1 ∧ p.lastOutputSeq ≠ 0) := fun hgap => hgap.1 hseq
    rw [Projection.applyLoop, if_neg hfresh, if_neg hnext, ih h.2]
    rfl

theorem applied_of_counts {p : Projection} {events : List OutputEvent} {last : Int}
    (h : Counts p.lastOutputSeq (events.map fun event => val event.output_seq) last) : p.applied events = events := by
  induction events generalizing p with
  | nil => rfl
  | cons event events ih =>
    have hseq : val event.output_seq = p.lastOutputSeq + 1 := h.1
    rw [Projection.applied, if_neg (by omega), if_neg fun hgap => hgap.1 hseq, ih (p := p.take event) h.2]

theorem db_foldl_take (p : Projection) (events : List OutputEvent) :
    (events.foldl Projection.take p).db = events.foldl (fun db event => db.applyEvent p.runId event) p.db := by
  induction events generalizing p with
  | nil => rfl
  | cons event events ih => exact ih (p.take event)

/-- What the empty batch, a latch and each event that is taken have in common, a batch has. -/
theorem Projection.applyLoop_rel {events : List OutputEvent} (R : Projection → Projection → Prop) (refl : ∀ p, R p p)
    (latch : ∀ p, R p (p.latch .degraded)) (take : ∀ p q, ∀ event ∈ events, R (p.take event) q → R p q) (p : Projection) :
    R p (p.applyLoop events).1 := by
  induction events generalizing p with
  | nil => exact refl p
  | cons event events ih =>
    have hrest := ih fun p q event hevent => take p q event (List.mem_cons_of_mem _ hevent)
    rw [Projection.applyLoop]
    split
    · exact hrest p
    · split
      · exact latch p
      · exact take p _ event List.mem_cons_self (hrest (p.take event))

theorem Projection.commit_rel {events : List OutputEvent} (R : Projection → Projection → Prop) (refl : ∀ p, R p p)
    (latch : ∀ p, R p (p.latch .degraded)) (take : ∀ p q, ∀ event ∈ events, R (p.take event) q → R p q)
    (store : ∀ p q, R p q → R p q.store) (p : Projection) : R p (p.commit events) := by
  have h := applyLoop_rel R refl latch take p
  rw [Projection.commit]
  split
  · rename_i p' hloop
    rw [hloop] at h
    exact store p p' h
  · rename_i p' hloop
    rw [hloop] at h
    exact h

/-- An event neither reads nor writes the settlements and the position. -/
theorem Database.applyEvent_with (db : Database) (settlements : List SettlementRow) (state : ProjectionState) (runId : RunId)
    (event : OutputEvent) : Database.applyEvent { db with settlements := settlements, state := state } runId event =
      { db.applyEvent runId event with settlements := settlements, state := state } := by
  cases event with
  | State _ => rfl
  | Trade trade =>
    simp only [Database.applyEvent, Database.applyTrade, Database.insert_trade]
    split <;> rfl
  | Report report =>
    simp only [Database.applyEvent, Database.applyReport]
    split
    · rfl
    · split
      · rfl
      · split <;> rfl

end TradingLab
