import TradingLab.Lib.Maps
import TradingLab.Protocol
/-!
# The market view

`market.rs`: external reference data and the feed synchronization state
machine. It never holds orders accepted by the engine.
-/
open LabLib

namespace TradingLab

structure FeedCounters where
  applied : UInt64 := 0
  duplicates : UInt64 := 0
  gaps : UInt64 := 0
  resyncs : UInt64 := 0
  out_of_order : UInt64 := 0
  invalid_prices : UInt64 := 0
deriving DecidableEq, Repr

structure MarketUpdate where
  previous_state : FeedState
  state : FeedState
  duplicate : Bool
deriving DecidableEq, Repr

def MarketUpdate.state_changed (self : MarketUpdate) : Bool := self.previous_state ≠ self.state

structure MarketView where
  state : FeedState
  epoch : UInt64
  last_source_seq : UInt64
  bids : BTreeMap PriceTicks UInt64
  asks : BTreeMap PriceTicks UInt64
  scratch_bids : BTreeMap PriceTicks UInt64
  scratch_asks : BTreeMap PriceTicks UInt64
  scratch_levels : UInt32
  snapshot_seq : UInt64
  last_trade_price : Option PriceTicks
  last_update_time_ns : UInt64
  counters : FeedCounters
  min_price_ticks : Int64
  max_price_ticks : Int64
  max_depth : Nat

inductive SequenceCheck where
  | Ok
  | Duplicate
  | OutOfOrder
  | Gap
deriving DecidableEq, Repr

def quoted_price : MarketEventKind → Option PriceTicks
  | .SnapshotLevel _ price _ | .LevelSet _ price _ | .Trade _ price _ => some price
  | .SnapshotBegin _ | .SnapshotEnd _ _ | .Heartbeat | .FeedReset _ => none

namespace MarketView

def new (min_price_ticks max_price_ticks : Int64) (max_depth : Nat) : MarketView where
  state := .Unsynchronized
  epoch := 0
  last_source_seq := 0
  bids := ∅
  asks := ∅
  scratch_bids := ∅
  scratch_asks := ∅
  scratch_levels := 0
  snapshot_seq := 0
  last_trade_price := none
  last_update_time_ns := 0
  counters := {}
  min_price_ticks := min_price_ticks
  max_price_ticks := max_price_ticks
  max_depth := max max_depth 1

def best_bid (self : MarketView) : Option PriceTicks := self.bids.last?.map (·.1)

def best_ask (self : MarketView) : Option PriceTicks := self.asks.first?.map (·.1)

def best (self : MarketView) (side : Side) : Option PriceTicks :=
  match side with
  | .Buy => self.best_bid
  | .Sell => self.best_ask

/-- Midpoint when both sides are valid, otherwise the last trade price. -/
def reference_price (self : MarketView) : Option PriceTicks :=
  match self.best_bid, self.best_ask with
  | some bid, some ask => if bid < ask then PriceTicks.midpoint bid ask else self.last_trade_price
  | _, _ => self.last_trade_price

def check_sequence (self : MarketView) (source_seq : UInt64) : SequenceCheck :=
  match self.state with
  | .Unsynchronized | .Gap => .Ok
  | .ApplyingSnapshot | .Live =>
    if self.last_source_seq = 0 then .Ok
    else if source_seq = self.last_source_seq then .Duplicate
    else if source_seq < self.last_source_seq then .OutOfOrder
    else if source_seq = self.last_source_seq + 1 then .Ok
    else .Gap

def improves (side : Side) (price : PriceTicks) (levels : BTreeMap PriceTicks UInt64) : Bool :=
  match side with
  | .Buy => levels.first?.any fun worst => price > worst.1
  | .Sell => levels.last?.any fun worst => price < worst.1

/-- Drops the worst levels, one for each unit of excess. -/
def trim_by (side : Side) : Nat → BTreeMap PriceTicks UInt64 → BTreeMap PriceTicks UInt64
  | 0, levels => levels
  | excess + 1, levels =>
    let worst := match side with
      | .Buy => levels.first?
      | .Sell => levels.last?
    match worst with
    | none => levels
    | some worst => trim_by side excess (levels.erase worst.1)

def trim (side : Side) (levels : BTreeMap PriceTicks UInt64) (max_depth : Nat) : BTreeMap PriceTicks UInt64 :=
  trim_by side (levels.size - max_depth) levels

def set_bounded (levels : BTreeMap PriceTicks UInt64) (side : Side) (price : PriceTicks) (quantity : UInt64)
    (max_depth : Nat) : BTreeMap PriceTicks UInt64 :=
  if levels[price]?.isSome then levels.insert price quantity
  else if levels.size ≥ max_depth ∧ ¬ improves side price levels then levels
  else trim side (levels.insert price quantity) max_depth

def enter_gap (self : MarketView) : MarketView :=
  { self with state := .Gap, scratch_bids := ∅, scratch_asks := ∅, scratch_levels := 0 }

/-- The effect of an event that passed the sequence, price and epoch checks. -/
def apply_kind (self : MarketView) (kind : MarketEventKind) : MarketView :=
  match kind with
  | .SnapshotBegin snapshot_seq =>
    { self with
      scratch_bids := ∅
      scratch_asks := ∅
      scratch_levels := 0
      snapshot_seq := snapshot_seq
      state := .ApplyingSnapshot }
  | .SnapshotLevel side price quantity =>
    if self.state = .ApplyingSnapshot ∧ ¬ QuantityLots.is_zero quantity then
      match side with
      | .Buy => { self with
          scratch_bids := set_bounded self.scratch_bids side price quantity self.max_depth
          scratch_levels := self.scratch_levels + 1 }
      | .Sell => { self with
          scratch_asks := set_bounded self.scratch_asks side price quantity self.max_depth
          scratch_levels := self.scratch_levels + 1 }
    else self
  | .SnapshotEnd snapshot_seq level_count =>
    let complete := self.state = .ApplyingSnapshot ∧ snapshot_seq = self.snapshot_seq ∧
      level_count = self.scratch_levels
    let self :=
      if complete then
        -- The snapshot becomes visible only when it is fully validated.
        { self with
          bids := trim .Buy self.scratch_bids self.max_depth
          asks := trim .Sell self.scratch_asks self.max_depth
          state := .Live
          counters := { self.counters with resyncs := self.counters.resyncs + 1 } }
      else self.enter_gap
    { self with scratch_bids := ∅, scratch_asks := ∅, scratch_levels := 0 }
  | .LevelSet side price quantity =>
    if self.state = .Live then
      let update := fun levels : BTreeMap PriceTicks UInt64 =>
        if QuantityLots.is_zero quantity then levels.erase price
        else set_bounded levels side price quantity self.max_depth
      match side with
      | .Buy => { self with bids := update self.bids }
      | .Sell => { self with asks := update self.asks }
    else self
  | .Trade _ price _ => if self.state = .Live then { self with last_trade_price := some price } else self
  | .Heartbeat => self
  | .FeedReset new_epoch =>
    { self with
      epoch := new_epoch
      last_source_seq := 0
      bids := ∅
      asks := ∅
      scratch_bids := ∅
      scratch_asks := ∅
      scratch_levels := 0
      last_trade_price := none
      state := .Unsynchronized }

/-- The checks after the sequence check, and the effect of an event that passes. -/
def apply_checked (self : MarketView) (kind : MarketEventKind) (recv_time_ns : UInt64) : MarketView :=
  let outside := match quoted_price kind with
    | some price => decide (price < self.min_price_ticks ∨ price > self.max_price_ticks)
    | none => false
  let stale := match kind with
    | .FeedReset new_epoch => decide (new_epoch ≤ self.epoch)
    | _ => false
  if outside then
    -- A price outside the instrument domain makes the feed untrustworthy.
    { self with counters := { self.counters with invalid_prices := self.counters.invalid_prices + 1 } }.enter_gap
  else if stale then
    { self with counters := { self.counters with out_of_order := self.counters.out_of_order + 1 } }
  else
    { self with
      counters := { self.counters with applied := self.counters.applied + 1 }
      last_update_time_ns := recv_time_ns }.apply_kind kind

def apply (self : MarketView) (source_seq : UInt64) (kind : MarketEventKind) (recv_time_ns : UInt64) :
    MarketView × MarketUpdate :=
  let previous_state := self.state
  let update := fun (view : MarketView) (duplicate : Bool) =>
    (view, { previous_state := previous_state, state := view.state, duplicate := duplicate })
  -- Non-sequenced messages carry source sequence zero.
  if source_seq = 0 then update (self.apply_checked kind recv_time_ns) false
  else
    match self.check_sequence source_seq with
    | .Duplicate =>
      update { self with counters := { self.counters with duplicates := self.counters.duplicates + 1 } } true
    | .Gap =>
      update { self with counters := { self.counters with gaps := self.counters.gaps + 1 } }.enter_gap false
    | .OutOfOrder =>
      update { self with
        counters := { self.counters with out_of_order := self.counters.out_of_order + 1 } }.enter_gap false
    | .Ok => update ({ self with last_source_seq := source_seq }.apply_checked kind recv_time_ns) false

end MarketView

end TradingLab
