import TradingLab.Lib.Maps
import TradingLab.Protocol
/-!
# Accounts

`account.rs` and `config.rs`: limits, positions, working-order reservations and
the bounded request deduplication window. Positions are indexed by instrument,
so an account holds one for each of the `n` instruments of the engine.
-/
open LabLib

namespace TradingLab

/-! ## Configuration -/

structure InstrumentConfig where
  id : InstrumentId
  tick_size : Int64
  lot_size : UInt64
  min_price_ticks : Int64
  max_price_ticks : Int64
deriving DecidableEq, Repr

structure AccountConfig where
  id : AccountId
  enabled : Bool
  limits : AccountLimits
deriving DecidableEq, Repr

structure EngineConfig where
  instruments : List InstrumentConfig
  accounts : List AccountConfig
  /-- Live resting orders allowed per instrument book. -/
  max_live_orders : Nat
  /-- Reject risk-increasing orders when the market view is older than this. -/
  max_market_age_ns : UInt64
  /-- Distance from the reference price used as a market-order protection bound. -/
  market_protection_ticks : Int64
  /-- Retained request fingerprints per account. -/
  dedup_window : Nat
  /-- Best bid/ask levels retained per side in the market view. -/
  max_market_depth : Nat
deriving DecidableEq, Repr

/-! ## Positions -/

structure InstrumentPosition where
  position_lots : Int64 := 0
  open_buy_lots : UInt64 := 0
  open_sell_lots : UInt64 := 0
  open_buy_notional : U128 := 0
  open_sell_notional : U128 := 0
deriving DecidableEq, Repr

namespace InstrumentPosition

def open_lots (self : InstrumentPosition) : Side → UInt64
  | .Buy => self.open_buy_lots
  | .Sell => self.open_sell_lots

/-- `reserve` and `release` write the lots before they check the notional. They
return the position after the writes, and whether both checks passed. -/
def reserve (self : InstrumentPosition) (side : Side) (lots : QuantityLots) (notional : Notional) :
    InstrumentPosition × Option Unit :=
  match side with
  | .Buy =>
    match checked_add self.open_buy_lots lots with
    | none => (self, none)
    | some lots =>
      match checked_add self.open_buy_notional notional with
      | none => ({ self with open_buy_lots := lots }, none)
      | some notional => ({ self with open_buy_lots := lots, open_buy_notional := notional }, some ())
  | .Sell =>
    match checked_add self.open_sell_lots lots with
    | none => (self, none)
    | some lots =>
      match checked_add self.open_sell_notional notional with
      | none => ({ self with open_sell_lots := lots }, none)
      | some notional => ({ self with open_sell_lots := lots, open_sell_notional := notional }, some ())

def release (self : InstrumentPosition) (side : Side) (lots : QuantityLots) (notional : Notional) :
    InstrumentPosition × Option Unit :=
  match side with
  | .Buy =>
    match checked_sub self.open_buy_lots lots with
    | none => (self, none)
    | some lots =>
      match checked_sub self.open_buy_notional notional with
      | none => ({ self with open_buy_lots := lots }, none)
      | some notional => ({ self with open_buy_lots := lots, open_buy_notional := notional }, some ())
  | .Sell =>
    match checked_sub self.open_sell_lots lots with
    | none => (self, none)
    | some lots =>
      match checked_sub self.open_sell_notional notional with
      | none => ({ self with open_sell_lots := lots }, none)
      | some notional => ({ self with open_sell_lots := lots, open_sell_notional := notional }, some ())

end InstrumentPosition

/-- Signed position after applying a fill, `none` when it overflows. -/
def apply_fill_to_position (position : InstrumentPosition) (side : Side) (quantity : QuantityLots) :
    Option InstrumentPosition := do
  let signed : Int64 ← try_from quantity
  let lots ← match side with
    | .Buy => checked_add position.position_lots signed
    | .Sell => checked_sub position.position_lots signed
  some { position with position_lots := lots }

/-- Absolute exposure of one instrument at the supplied mark. -/
def instrument_exposure (position : InstrumentPosition) (mark : PriceTicks) : Option Notional := do
  let position_value : U128 ← ofInt? (|val position.position_lots| * |val mark|)
  let value ← checked_add position_value position.open_buy_notional
  checked_add value position.open_sell_notional

/-! ## Request cache -/

structure CachedRequest where
  request_id : RequestId
  fingerprint : UInt64
  outcome : ExecutionReport
deriving DecidableEq, Repr

inductive CacheHit where
  | Retry (outcome : ExecutionReport)
  | Conflict
deriving DecidableEq, Repr

/-- Fixed-size ring of recent request results, with an index by request id. -/
structure RequestCache where
  entries : List (Option CachedRequest)
  index : HashMap RequestId Nat
  next : Nat
  next_lt : next < entries.length

namespace RequestCache

def new (capacity : Nat) : RequestCache where
  entries := List.replicate (max capacity 1) none
  index := ∅
  next := 0
  next_lt := by simp

def lookup (self : RequestCache) (request_id : RequestId) (fingerprint : UInt64) : Option CacheHit := do
  let slot ← self.index.lookup request_id
  let entry ← (self.entries[slot]?).join
  if entry.request_id ≠ request_id then
    -- Slot was reused; a stale index must not resolve.
    none
  else if entry.fingerprint = fingerprint then
    some (.Retry entry.outcome)
  else
    some .Conflict

def record (self : RequestCache) (request_id : RequestId) (fingerprint : UInt64) (outcome : ExecutionReport) :
    RequestCache :=
  let index := match self.entries.get ⟨self.next, self.next_lt⟩ with
    | some previous =>
      if self.index.lookup previous.request_id = some self.next then self.index.erase previous.request_id
      else self.index
    | none => self.index
  { entries := self.entries.set self.next (some ⟨request_id, fingerprint, outcome⟩)
    index := index.insert request_id self.next
    next := (self.next + 1) % self.entries.length
    next_lt := by
      rw [List.length_set]
      exact Nat.mod_lt _ (Nat.lt_of_le_of_lt (Nat.zero_le _) self.next_lt) }

/-- Retained entries in insertion order. Used by the canonical state hash. -/
def canonical_entries (self : RequestCache) : List (RequestId × UInt64 × ExecutionReport) :=
  let len := self.entries.length
  ((List.range len).filterMap fun offset => (self.entries[(self.next + offset) % len]?).join).map fun entry =>
    (entry.request_id, entry.fingerprint, entry.outcome)

end RequestCache

/-- One FNV-1a round for each byte of `value`, least significant first. -/
def mix (hash : UInt64) (value : UInt64) : UInt64 :=
  ([0, 8, 16, 24, 32, 40, 48, 56] : List UInt64).foldl
    (fun hash shift => (hash ^^^ ((value >>> shift) &&& 0xff)) * 0x100000001b3) hash

/-- Stable fingerprint of the economic content of a request, excluding its ID. -/
def request_fingerprint (request : OrderRequest) : UInt64 :=
  let hash := 0xcbf29ce484222325
  let hash := mix hash request.kind.wire.toUInt64
  let hash := mix hash request.side.wire.toUInt64
  let hash := mix hash request.order_type.wire.toUInt64
  let hash := mix hash request.account.toUInt64
  let hash := mix hash request.instrument.toUInt64
  let hash := mix hash request.client_order_id
  let hash := mix hash request.target_client_order_id
  let hash := mix hash request.client_seq
  let hash := mix hash request.price.toUInt64
  mix hash request.quantity

/-! ## Account state -/

structure AccountState (n : Nat) where
  id : AccountId
  enabled : Bool
  limits : AccountLimits
  last_client_seq : UInt64
  positions : Vector InstrumentPosition n
  cache : RequestCache

def AccountState.new {n : Nat} (id : AccountId) (enabled : Bool) (limits : AccountLimits) (dedup_window : Nat) :
    AccountState n where
  id := id
  enabled := enabled
  limits := limits
  last_client_seq := 0
  positions := Vector.replicate n {}
  cache := .new dedup_window

end TradingLab
