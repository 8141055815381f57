import TradingLab.Ladder
/-!
# Runs of the market view

What the market view holds after any sequence of feed messages. A message that the
sequence check turns down is a duplicate or breaks the feed; one that it lets pass
quotes a price outside the domain, is a stale reset, or takes effect. `Fed` says so
once, and the invariants below are shown for each of these ways.
-/
open LabLib

namespace TradingLab

/-! ## Messages -/

/-- What `MarketView::apply` takes. -/
structure FeedMessage where
  source_seq : UInt64
  kind : MarketEventKind
  recv_time_ns : UInt64
deriving DecidableEq, Repr

namespace MarketView

/-- The view after a message. -/
def next (self : MarketView) (message : FeedMessage) : MarketView :=
  (self.apply message.source_seq message.kind message.recv_time_ns).1

/-- The view after some messages. -/
def feed (self : MarketView) (messages : List FeedMessage) : MarketView := messages.foldl next self

@[simp] theorem feed_nil (self : MarketView) : self.feed [] = self := rfl

theorem feed_cons (self : MarketView) (message : FeedMessage) (messages : List FeedMessage) :
    self.feed (message :: messages) = (self.next message).feed messages := rfl

theorem feed_append (self : MarketView) (before after : List FeedMessage) :
    self.feed (before ++ after) = (self.feed before).feed after := List.foldl_append

theorem feed_snoc (self : MarketView) (messages : List FeedMessage) (message : FeedMessage) :
    self.feed (messages ++ [message]) = (self.feed messages).next message := feed_append self messages [message]

/-- The sequence check lets the message pass. A stale reset passes, too: it uses up its
number and has no other effect. -/
def Accepts (self : MarketView) (message : FeedMessage) : Prop :=
  message.source_seq = 0 ∨ self.check_sequence message.source_seq = .Ok

instance (self : MarketView) (message : FeedMessage) : Decidable (self.Accepts message) :=
  inferInstanceAs (Decidable (_ ∨ _))

/-- The view with the number of an accepted message. -/
def seen (self : MarketView) (message : FeedMessage) : MarketView :=
  if message.source_seq = 0 then self else { self with last_source_seq := message.source_seq }

/-- The view in which an accepted message takes effect. -/
def entered (self : MarketView) (message : FeedMessage) (counters : FeedCounters) : MarketView :=
  { self.seen message with counters := counters, last_update_time_ns := message.recv_time_ns }

/-- The price is in the domain of the instrument. -/
def InDomain (self : MarketView) (price : PriceTicks) : Prop :=
  val self.min_price_ticks ≤ val price ∧ val price ≤ val self.max_price_ticks

instance (self : MarketView) (price : PriceTicks) : Decidable (self.InDomain price) :=
  inferInstanceAs (Decidable (_ ∧ _))

/-- A price that the message quotes is in the domain. -/
def Quotes (self : MarketView) (kind : MarketEventKind) : Prop := ∀ price ∈ quoted_price kind, self.InDomain price

instance (self : MarketView) (kind : MarketEventKind) : Decidable (self.Quotes kind) :=
  inferInstanceAs (Decidable (∀ price ∈ quoted_price kind, self.InDomain price))

/-- The message resets the feed to an epoch that is not newer. -/
def Stale (self : MarketView) (kind : MarketEventKind) : Prop :=
  ∃ epoch, kind = .FeedReset epoch ∧ val epoch ≤ val self.epoch

/-- The ways a message ends. -/
inductive Fed (v : MarketView) (message : FeedMessage) : MarketView → Prop
  | duplicate (counters : FeedCounters) : ¬v.Accepts message → Fed v message { v with counters := counters }
  | broken (counters : FeedCounters) : ¬v.Accepts message → Fed v message { v with counters := counters }.enter_gap
  | outside (counters : FeedCounters) : v.Accepts message → ¬v.Quotes message.kind →
      Fed v message { v.seen message with counters := counters }.enter_gap
  | stale (counters : FeedCounters) : v.Accepts message → v.Stale message.kind →
      Fed v message { v.seen message with counters := counters }
  | applied (counters : FeedCounters) : v.Accepts message → v.Quotes message.kind → ¬v.Stale message.kind →
      Fed v message ((v.entered message counters).apply_kind message.kind)

variable {v : MarketView} {message : FeedMessage}

/-- The price check of `apply`. -/
def outside (self : MarketView) (kind : MarketEventKind) : Bool :=
  match quoted_price kind with
  | some price => decide (price < self.min_price_ticks ∨ price > self.max_price_ticks)
  | none => false

/-- The epoch check of `apply`. -/
def stale (self : MarketView) (kind : MarketEventKind) : Bool :=
  match kind with
  | .FeedReset new_epoch => decide (new_epoch ≤ self.epoch)
  | _ => false

theorem quotes_iff {kind : MarketEventKind} : v.Quotes kind ↔ ¬v.outside kind = true := by
  rw [Quotes, outside]
  cases quoted_price kind with
  | none => simp
  | some price => simp [InDomain, i64_lt]

theorem stale_iff {kind : MarketEventKind} : v.Stale kind ↔ v.stale kind = true := by
  cases kind <;> simp [Stale, stale, u64_le]

theorem apply_checked_eq (v : MarketView) (kind : MarketEventKind) (recv_time_ns : UInt64) :
    v.apply_checked kind recv_time_ns =
      if v.outside kind then
        { v with counters := { v.counters with invalid_prices := v.counters.invalid_prices + 1 } }.enter_gap
      else if v.stale kind then
        { v with counters := { v.counters with out_of_order := v.counters.out_of_order + 1 } }
      else
        { v with
          counters := { v.counters with applied := v.counters.applied + 1 }
          last_update_time_ns := recv_time_ns }.apply_kind kind := rfl

/-- What the checks after the sequence check lead to. -/
theorem fed_checked (h : v.Accepts message) :
    Fed v message ((v.seen message).apply_checked message.kind message.recv_time_ns) := by
  have hquotes : (v.seen message).Quotes message.kind ↔ v.Quotes message.kind := by
    rw [seen]; split <;> rfl
  have hstale : (v.seen message).Stale message.kind ↔ v.Stale message.kind := by
    rw [seen]; split <;> rfl
  rw [apply_checked_eq]
  by_cases hout : (v.seen message).outside message.kind = true
  · rw [if_pos hout]
    exact .outside _ h fun hq => quotes_iff.1 (hquotes.2 hq) hout
  · rw [if_neg hout]
    by_cases hold : (v.seen message).stale message.kind = true
    · rw [if_pos hold]
      exact .stale _ h (hstale.1 (stale_iff.2 hold))
    · rw [if_neg hold]
      exact .applied _ h (hquotes.1 (quotes_iff.2 hout)) fun hs => hold (stale_iff.1 (hstale.2 hs))

theorem next_fed (v : MarketView) (message : FeedMessage) : Fed v message (v.next message) := by
  rw [next, apply]
  dsimp only
  split
  · rename_i hzero
    have hseen : v.seen message = v := by rw [seen, if_pos hzero]
    have hfed := fed_checked (show v.Accepts message from .inl hzero)
    rw [hseen] at hfed
    exact hfed
  · rename_i hzero
    have hnot : ∀ {check}, v.check_sequence message.source_seq = check → check ≠ .Ok → ¬v.Accepts message := by
      rintro check hcheck hne (h | h)
      · exact hzero h
      · exact hne (hcheck.symm.trans h)
    split
    · rename_i hcheck
      exact .duplicate _ (hnot hcheck (by decide))
    · rename_i hcheck
      exact .broken _ (hnot hcheck (by decide))
    · rename_i hcheck
      exact .broken _ (hnot hcheck (by decide))
    · rename_i hcheck
      have hseen : v.seen message = { v with last_source_seq := message.source_seq } := by rw [seen, if_neg hzero]
      have hfed := fed_checked (show v.Accepts message from .inr hcheck)
      rw [hseen] at hfed
      exact hfed

/-! ## Sides -/

/-- The ladder of a side that the engine reads. -/
def visible (self : MarketView) : Side → BTreeMap PriceTicks UInt64
  | .Buy => self.bids
  | .Sell => self.asks

/-- The ladder of a side in the snapshot that is being received. -/
def scratch (self : MarketView) : Side → BTreeMap PriceTicks UInt64
  | .Buy => self.scratch_bids
  | .Sell => self.scratch_asks

def set_visible (self : MarketView) (levels : BTreeMap PriceTicks UInt64) : Side → MarketView
  | .Buy => { self with bids := levels }
  | .Sell => { self with asks := levels }

def set_scratch (self : MarketView) (levels : BTreeMap PriceTicks UInt64) : Side → MarketView
  | .Buy => { self with scratch_bids := levels }
  | .Sell => { self with scratch_asks := levels }

/-- A level update: no quantity removes the level. -/
def set_level (levels : BTreeMap PriceTicks UInt64) (side : Side) (price : PriceTicks) (quantity : UInt64)
    (max_depth : Nat) : BTreeMap PriceTicks UInt64 :=
  if QuantityLots.is_zero quantity then levels.erase price else set_bounded levels side price quantity max_depth

variable {side : Side} {levels : BTreeMap PriceTicks UInt64}

theorem visible_set_visible (other : Side) :
    (v.set_visible levels side).visible other = if other = side then levels else v.visible other := by
  cases side <;> cases other <;> rfl

theorem scratch_set_scratch (other : Side) :
    (v.set_scratch levels side).scratch other = if other = side then levels else v.scratch other := by
  cases side <;> cases other <;> rfl

/-- What a message that takes effect does, for each kind of message. -/
theorem apply_level (v : MarketView) (side : Side) (price : PriceTicks) (quantity : UInt64) :
    v.apply_kind (.SnapshotLevel side price quantity) =
      if v.state = .ApplyingSnapshot ∧ ¬QuantityLots.is_zero quantity then
        { v.set_scratch (set_bounded (v.scratch side) side price quantity v.max_depth) side with
          scratch_levels := v.scratch_levels + 1 }
      else v := by
  cases side <;> rfl

theorem apply_level_set (v : MarketView) (side : Side) (price : PriceTicks) (quantity : UInt64) :
    v.apply_kind (.LevelSet side price quantity) =
      if v.state = .Live then v.set_visible (set_level (v.visible side) side price quantity v.max_depth) side
      else v := by
  cases side <;> rfl

theorem apply_trade (v : MarketView) (side : Side) (price : PriceTicks) (quantity : UInt64) :
    v.apply_kind (.Trade side price quantity) =
      if v.state = .Live then { v with last_trade_price := some price } else v := rfl

/-- The snapshot that `SnapshotEnd` closes is the one that was begun, and none of its levels is missing. -/
def Complete (self : MarketView) (snapshot_seq : UInt64) (level_count : UInt32) : Prop :=
  self.state = .ApplyingSnapshot ∧ snapshot_seq = self.snapshot_seq ∧ level_count = self.scratch_levels

instance (self : MarketView) (snapshot_seq : UInt64) (level_count : UInt32) :
    Decidable (self.Complete snapshot_seq level_count) := inferInstanceAs (Decidable (_ ∧ _))

theorem apply_end (v : MarketView) (snapshot_seq : UInt64) (level_count : UInt32) :
    v.apply_kind (.SnapshotEnd snapshot_seq level_count) =
      if v.Complete snapshot_seq level_count then
        { v with
          bids := trim .Buy v.scratch_bids v.max_depth
          asks := trim .Sell v.scratch_asks v.max_depth
          state := .Live
          counters := { v.counters with resyncs := v.counters.resyncs + 1 }
          scratch_bids := ∅
          scratch_asks := ∅
          scratch_levels := 0 }
      else v.enter_gap := by
  by_cases hc : v.Complete snapshot_seq level_count
  · have hand : v.state = .ApplyingSnapshot ∧ snapshot_seq = v.snapshot_seq ∧ level_count = v.scratch_levels := hc
    simp only [apply_kind, if_pos hand, if_pos hc]
  · have hand : ¬(v.state = .ApplyingSnapshot ∧ snapshot_seq = v.snapshot_seq ∧ level_count = v.scratch_levels) := hc
    simp only [apply_kind, if_neg hand, if_neg hc]
    rfl

end MarketView

/-! ## What the view holds -/

section Held
variable {lo hi : Int64} {depth : Nat} {v : MarketView} {levels : BTreeMap PriceTicks UInt64}

/-- The price is between the bounds. -/
def Between (lo hi : Int64) (price : PriceTicks) : Prop := val lo ≤ val price ∧ val price ≤ val hi

/-- At most `depth` levels, each with a price between the bounds and a positive quantity. -/
structure LadderOk (lo hi : Int64) (depth : Nat) (levels : BTreeMap PriceTicks UInt64) : Prop where
  size : levels.size ≤ depth
  row : ∀ p q, levels[p]? = some q → Between lo hi p ∧ 0 < val q

theorem LadderOk.empty (lo hi : Int64) (depth : Nat) : LadderOk lo hi depth ∅ where
  size := by
    rw [Std.ExtTreeMap.size_empty]
    exact Nat.zero_le _
  row p q h := by
    rw [Std.ExtTreeMap.getElem?_empty] at h
    cases h

theorem LadderOk.set_bounded (h : LadderOk lo hi depth levels) (side : Side) {p : PriceTicks} {q : UInt64}
    (hp : Between lo hi p) (hq : 0 < val q) : LadderOk lo hi depth (MarketView.set_bounded levels side p q depth) where
  size := size_set_bounded side p q h.size
  row p' q' hrow := by
    rcases mem_set_bounded h.size (mem_ladder.2 hrow) with he | hold
    · cases he
      exact ⟨hp, hq⟩
    · exact h.row p' q' (mem_ladder.1 hold)

theorem pos_of_not_zero {q : UInt64} (h : ¬QuantityLots.is_zero q = true) : 0 < val q := by
  rw [is_zero_iff] at h
  have := (u64_bounds q).1
  omega

theorem LadderOk.trim (h : LadderOk lo hi depth levels) (side : Side) : LadderOk lo hi depth (MarketView.trim side levels depth) where
  size := size_trim side levels depth
  row p q hrow := by
    have hmem := ((ladder_listing side).mem _ p q).2 hrow
    rw [ladder_trim] at hmem
    exact h.row p q (mem_ladder.1 (List.mem_of_mem_take hmem))

theorem LadderOk.erase (h : LadderOk lo hi depth levels) (p : PriceTicks) : LadderOk lo hi depth (levels.erase p) where
  size := Nat.le_trans Std.ExtTreeMap.size_erase_le h.size
  row p' q hrow := by
    rw [get?_erase] at hrow
    split at hrow
    · cases hrow
    · exact h.row p' q hrow

theorem LadderOk.set_level (h : LadderOk lo hi depth levels) (side : Side) {p : PriceTicks} (hp : Between lo hi p) (q : UInt64) :
    LadderOk lo hi depth (MarketView.set_level levels side p q depth) := by
  rw [MarketView.set_level]
  split
  · exact h.erase p
  · rename_i hzero
    exact h.set_bounded side hp (pos_of_not_zero hzero)

/-- What every view that a feed leads to holds. -/
structure MarketView.Sound (lo hi : Int64) (depth : Nat) (v : MarketView) : Prop where
  min : v.min_price_ticks = lo
  max : v.max_price_ticks = hi
  limit : v.max_depth = depth
  visible : ∀ side, LadderOk lo hi depth (v.visible side)
  scratch : ∀ side, LadderOk lo hi depth (v.scratch side)
  last_trade : ∀ p, v.last_trade_price = some p → Between lo hi p

namespace MarketView.Sound

theorem new (lo hi : Int64) (depth : Nat) : Sound lo hi (Max.max depth 1) (.new lo hi depth) where
  min := rfl
  max := rfl
  limit := rfl
  visible side := by cases side <;> exact .empty _ _ _
  scratch side := by cases side <;> exact .empty _ _ _
  last_trade _ h := by cases h

theorem seen (h : Sound lo hi depth v) (message : FeedMessage) : Sound lo hi depth (v.seen message) := by
  rw [MarketView.seen]
  split
  · exact h
  · exact { h with }

theorem entered (h : Sound lo hi depth v) (message : FeedMessage) (counters : FeedCounters) :
    Sound lo hi depth (v.entered message counters) :=
  { h.seen message with }

theorem enter_gap (h : Sound lo hi depth v) : Sound lo hi depth v.enter_gap :=
  { h with scratch := fun side => by cases side <;> exact .empty _ _ _ }

theorem set_visible (h : Sound lo hi depth v) {levels : BTreeMap PriceTicks UInt64} (hl : LadderOk lo hi depth levels)
    (side : Side) : Sound lo hi depth (v.set_visible levels side) := by
  have hvisible : ∀ other, LadderOk lo hi depth ((v.set_visible levels side).visible other) := by
    intro other
    rw [visible_set_visible]
    split
    · exact hl
    · exact h.visible other
  cases side <;> exact { h with visible := hvisible }

theorem set_scratch (h : Sound lo hi depth v) {levels : BTreeMap PriceTicks UInt64} (hl : LadderOk lo hi depth levels)
    (side : Side) : Sound lo hi depth (v.set_scratch levels side) := by
  have hscratch : ∀ other, LadderOk lo hi depth ((v.set_scratch levels side).scratch other) := by
    intro other
    rw [scratch_set_scratch]
    split
    · exact hl
    · exact h.scratch other
  cases side <;> exact { h with scratch := hscratch }

theorem apply_kind (h : Sound lo hi depth v) {kind : MarketEventKind} (hq : v.Quotes kind) :
    Sound lo hi depth (v.apply_kind kind) := by
  have hbetween : ∀ {price}, quoted_price kind = some price → Between lo hi price := by
    intro price hprice
    have := hq price hprice
    rwa [InDomain, h.min, h.max] at this
  cases kind with
  | SnapshotBegin snapshot_seq => exact { h with scratch := fun side => by cases side <;> exact .empty _ _ _ }
  | SnapshotLevel side price quantity =>
    rw [apply_level]
    split
    · rename_i hlevel
      rw [h.limit]
      exact { h.set_scratch ((h.scratch side).set_bounded side (hbetween rfl) (pos_of_not_zero hlevel.2)) side with }
    · exact h
  | SnapshotEnd snapshot_seq level_count =>
    rw [apply_end]
    split
    · have htrim : ∀ side, LadderOk lo hi depth (trim side (v.scratch side) v.max_depth) := by
        intro side
        rw [h.limit]
        exact (h.scratch side).trim side
      exact { h with
        visible := fun side => by cases side <;> exact htrim _
        scratch := fun side => by cases side <;> exact .empty _ _ _ }
    · exact h.enter_gap
  | LevelSet side price quantity =>
    rw [apply_level_set]
    split
    · rw [h.limit]
      exact h.set_visible ((h.visible side).set_level side (hbetween rfl) quantity) side
    · exact h
  | Trade aggressor price quantity =>
    rw [apply_trade]
    split
    · refine { h with last_trade := fun p hp => ?_ }
      cases hp
      exact hbetween rfl
    · exact h
  | Heartbeat => exact h
  | FeedReset new_epoch =>
    exact { h with
      visible := fun side => by cases side <;> exact .empty _ _ _
      scratch := fun side => by cases side <;> exact .empty _ _ _
      last_trade := fun p hp => by cases hp }

theorem next (h : Sound lo hi depth v) (message : FeedMessage) : Sound lo hi depth (v.next message) := by
  have hquotes : ∀ {kind counters}, v.Quotes kind → (v.entered message counters).Quotes kind := by
    intro kind counters hq
    rw [MarketView.entered, MarketView.seen]
    split <;> exact hq
  have hfed := next_fed v message
  generalize v.next message = v' at hfed ⊢
  cases hfed with
  | duplicate => exact { h with }
  | broken => exact enter_gap { h with }
  | outside => exact enter_gap { h.seen message with }
  | stale => exact { h.seen message with }
  | applied counters _ hq => exact (h.entered message counters).apply_kind (hquotes hq)

theorem feed (h : Sound lo hi depth v) (messages : List FeedMessage) : Sound lo hi depth (v.feed messages) := by
  induction messages generalizing v with
  | nil => exact h
  | cons message messages ih => exact ih (h.next message)

end MarketView.Sound

/-! ## The reference price -/

/-- The midpoint lies between its arguments, and below the upper one. -/
theorem midpoint_between {bid ask mid : PriceTicks} (h : PriceTicks.midpoint bid ask = some mid)
    (hlt : val bid < val ask) : val bid ≤ val mid ∧ val mid < val ask := by
  simp only [PriceTicks.midpoint, Option.bind_eq_bind, Option.bind_eq_some_iff] at h
  obtain ⟨sum, hsum, hmid⟩ := h
  rw [checked_add_eq_some] at hsum
  rw [Machine.ofInt?_eq_some] at hmid
  omega

/-- There is a midpoint unless the sum overflows. -/
theorem midpoint_eq_none {bid ask : PriceTicks} :
    PriceTicks.midpoint bid ask = none ↔ checked_add bid ask = none := by
  rw [PriceTicks.midpoint, Option.bind_eq_bind]
  cases hsum : checked_add bid ask with
  | none => simp
  | some sum =>
    have hfits : (ofInt? (val sum / 2) : Option Int64).isSome := by
      have hb := i64_bounds sum
      refine Machine.ofInt?_isSome.2 ?_
      simp only [Machine.lo, Machine.hi]
      omega
    rw [Option.bind_some, ← Option.not_isSome_iff_eq_none]
    simp [hfits]

theorem reference_price_eq {bid ask : PriceTicks} (hbid : v.best_bid = some bid) (hask : v.best_ask = some ask)
    (hlt : val bid < val ask) : v.reference_price = PriceTicks.midpoint bid ask := by
  rw [MarketView.reference_price, hbid, hask]
  exact if_pos (i64_lt.2 hlt)

/-- The reference price is a midpoint or the last trade price. -/
theorem reference_price_cases {p : PriceTicks} (h : v.reference_price = some p) :
    (∃ bid ask, v.best_bid = some bid ∧ v.best_ask = some ask ∧ val bid < val ask ∧
      PriceTicks.midpoint bid ask = some p) ∨ v.last_trade_price = some p := by
  rw [MarketView.reference_price] at h
  split at h
  · rename_i bid ask hbid hask
    split at h
    · rename_i hlt
      exact .inl ⟨bid, ask, hbid, hask, i64_lt.1 hlt, h⟩
    · exact .inr h
  · exact .inr h

theorem MarketView.Sound.best_bid (h : v.Sound lo hi depth) {bid : PriceTicks} (hb : v.best_bid = some bid) :
    Between lo hi bid := by
  rw [MarketView.best_bid, Option.map_eq_some_iff] at hb
  obtain ⟨⟨p, q⟩, hlast, rfl⟩ := hb
  exact ((h.visible .Buy).row p q (last?_eq_some hlast).1).1

theorem MarketView.Sound.best_ask (h : v.Sound lo hi depth) {ask : PriceTicks} (ha : v.best_ask = some ask) :
    Between lo hi ask := by
  rw [MarketView.best_ask, Option.map_eq_some_iff] at ha
  obtain ⟨⟨p, q⟩, hfirst, rfl⟩ := ha
  exact ((h.visible .Sell).row p q (first?_eq_some hfirst).1).1

theorem MarketView.Sound.reference_price (h : v.Sound lo hi depth) {p : PriceTicks} (hp : v.reference_price = some p) :
    Between lo hi p := by
  rcases reference_price_cases hp with ⟨bid, ask, hbid, hask, hlt, hmid⟩ | htrade
  · have hb := h.best_bid hbid
    have ha := h.best_ask hask
    have hm := midpoint_between hmid hlt
    simp only [Between] at hb ha ⊢
    omega
  · exact h.last_trade p htrade

/-- Whatever the feed sends, the view holds only prices of the instrument with positive
quantities, no ladder grows beyond its depth, and the reference price is one of the
instrument, between the best prices when these do not cross. -/
theorem view_holds_domain_prices (lo hi : Int64) (depth : Nat) (messages : List FeedMessage) :
    let v := (MarketView.new lo hi depth).feed messages
    (∀ side p q, (v.visible side)[p]? = some q ∨ (v.scratch side)[p]? = some q → Between lo hi p ∧ 0 < val q) ∧
    (v.max_depth = max depth 1 ∧ ∀ side, (v.visible side).size ≤ v.max_depth ∧ (v.scratch side).size ≤ v.max_depth) ∧
    (∀ p, v.last_trade_price = some p → Between lo hi p) ∧
    (∀ p, v.reference_price = some p → Between lo hi p) ∧
    ∀ bid ask, v.best_bid = some bid → v.best_ask = some ask → val bid < val ask →
      (∀ p, v.reference_price = some p → val bid ≤ val p ∧ val p < val ask) ∧
      (v.reference_price = none ↔ checked_add bid ask = none) := by
  intro v
  have hv : v.Sound lo hi (max depth 1) := (MarketView.Sound.new lo hi depth).feed messages
  refine ⟨fun side p q h => ?_, ⟨hv.limit, fun side => ?_⟩, hv.last_trade, fun p hp => hv.reference_price hp,
    fun bid ask hbid hask hlt => ?_⟩
  · rcases h with h | h
    · exact (hv.visible side).row p q h
    · exact (hv.scratch side).row p q h
  · rw [hv.limit]
    exact ⟨(hv.visible side).size, (hv.scratch side).size⟩
  · rw [reference_price_eq hbid hask hlt]
    exact ⟨fun p hp => midpoint_between hp hlt, midpoint_eq_none⟩

end Held

end TradingLab
