import TradingLab.Handled
/-!
# Ticks and lots

Prices and totals are checked against the tick and lot size of the instrument
once, when a request comes in. Everything after that keeps multiples of a lot:
a fill takes the smaller of two of them off both sides. Trades take their price
from the resting order, so those of a market order, whose own price is not
checked, are on a tick as well.
-/
open LabLib

namespace TradingLab

/-- A price the instrument can trade at. -/
def InstrumentConfig.Quotes (config : InstrumentConfig) (price : PriceTicks) : Prop :=
  val config.min_price_ticks ≤ val price ∧ val price ≤ val config.max_price_ticks ∧ val config.tick_size ∣ val price

/-- Whole lots. -/
def InstrumentConfig.Whole (config : InstrumentConfig) (quantity : QuantityLots) : Prop :=
  val config.lot_size ∣ val quantity

/-- An order on a tick, in whole lots. -/
structure InstrumentConfig.Aligned (config : InstrumentConfig) (o : NewOrder) : Prop where
  price : config.Quotes o.price
  total : config.Whole o.total_quantity
  filled : config.Whole o.cumulative_filled

/-- A fill on a tick, of whole lots and at least one. -/
structure InstrumentConfig.Takes (config : InstrumentConfig) (price : PriceTicks) (quantity : QuantityLots) : Prop where
  price : config.Quotes price
  whole : config.Whole quantity
  positive : 0 < val quantity

/-! ## What the checks establish -/

section Checks
variable {n m : Nat} {c : TradingCore n m}

theorem rem_u64_zero {a b : UInt64} (h : rem_u64 a b = .ok 0) : val b ∣ val a := by
  rw [rem_u64] at h
  split at h
  · cases h
  · have hmod : (a % b).toNat = 0 := by rw [Except.ok.inj h]; rfl
    rw [UInt64.toNat_mod] at hmod
    rw [u64_val, u64_val]
    exact Int.natCast_dvd_natCast.2 (Nat.dvd_of_mod_eq_zero hmod)

theorem rem_i64_zero {a b : Int64} (h : rem_i64 a b = .ok 0) : val b ∣ val a := by
  rw [rem_i64] at h
  split at h
  · cases h
  · have hmod : (a % b).toInt = 0 := by rw [Except.ok.inj h]; rfl
    rw [Int64.toInt_mod] at hmod
    exact Int.dvd_of_tmod_eq_zero hmod

theorem check_quantity_passes {i : Fin n} {quantity : QuantityLots} {u : Unit} (h : Passes (c.check_quantity i quantity) u) :
    0 < val quantity ∧ c.instruments[i].config.Whole quantity := by
  simp only [TradingCore.check_quantity, passes_bind, passes_reject_if, passes_lift] at h
  obtain ⟨_, hzero, rem, hrem, hne⟩ := h
  rw [not_not] at hne
  subst hne
  rw [is_zero_iff] at hzero
  have := (u64_bounds quantity).1
  exact ⟨by omega, rem_u64_zero hrem⟩

theorem check_price_passes {i : Fin n} {price : PriceTicks} {u : Unit} (h : Passes (c.check_price i price) u) :
    c.instruments[i].config.Quotes price := by
  simp only [TradingCore.check_price, passes_bind, passes_reject_if, passes_lift] at h
  obtain ⟨_, hdomain, rem, hrem, hne⟩ := h
  rw [not_not] at hne
  subst hne
  rw [not_or, gt_iff_lt, i64_lt, i64_lt] at hdomain
  exact ⟨Int.not_lt.1 hdomain.1, Int.not_lt.1 hdomain.2, rem_i64_zero hrem⟩

theorem check_new_order_aligned {request : OrderRequest} {checked : CheckedNewOrder n m}
    (h : Passes (c.check_new_order request) checked) :
    c.instruments[checked.instrument_index].config.Whole request.quantity ∧
      (request.order_type = .Limit → c.instruments[checked.instrument_index].config.Quotes request.price) := by
  simp only [TradingCore.check_new_order, passes_bind, passes_ok_or, passes_reject_if, passes_pure] at h
  obtain ⟨_, -, a, -, i, -, _, hquantity, _, hprice, _, -, _, -, _, -, r, -, _, -, limit, -, _, -, _, -, _, -, _, -, _, -,
    rfl⟩ := h
  refine ⟨(check_quantity_passes hquantity).2, fun ht => ?_⟩
  rw [TradingCore.check_limit_price, if_pos ht] at hprice
  exact check_price_passes hprice

theorem check_replace_aligned {request : OrderRequest} {checked : CheckedReplace n m}
    (h : Passes (c.check_replace request) checked) :
    c.instruments[checked.instrument_index].config.Whole request.quantity ∧
      c.instruments[checked.instrument_index].config.Quotes request.price := by
  simp only [TradingCore.check_replace, passes_bind, passes_ok_or, passes_reject_if, passes_pure, passes_lift] at h
  obtain ⟨a, -, i, -, id, -, found, -, existing, -, _, -, _, hprice, _, -, rem, hrem, _, hne, _, -, _, -, _, -, r, -, _, -, _,
    -, _, -, _, -, remaining, -, _, -, rfl⟩ := h
  rw [not_not] at hne
  subst hne
  exact ⟨rem_u64_zero hrem, check_price_passes hprice⟩

end Checks

/-! ## Fills -/

section Fills
variable {config : InstrumentConfig} {l l' : List NewOrder}

theorem InstrumentConfig.Aligned.left {o : NewOrder} (h : config.Aligned o) (hs : o.Sound) : config.Whole o.left := by
  rw [InstrumentConfig.Whole, NewOrder.left_val hs]
  exact Int.dvd_sub h.total h.filled

theorem InstrumentConfig.Aligned.fill {o : NewOrder} (h : config.Aligned o) (hs : o.Sound) {t : QuantityLots}
    (ht : config.Whole t) (hle : val t ≤ val o.left) : config.Aligned (o.fill t) where
  price := h.price
  total := h.total
  filled := by
    rw [InstrumentConfig.Whole, NewOrder.fill_cumulative hs hle]
    exact Int.dvd_add h.filled ht

/-- Fills take whole lots from aligned orders, and leave them aligned. -/
theorem Fills.aligned {s : Side} {limit : PriceTicks} {r r' : UInt64} {fills : List Fill}
    (h : Fills s limit l r fills l' r') (hn : (l.map NewOrder.order_id).Nodup)
    (hl : ∀ o ∈ l, config.Aligned o ∧ o.Sound ∧ 0 < val o.left) (hr : config.Whole r) :
    (∀ fill ∈ fills, config.Takes fill.price fill.quantity) ∧ (∀ o ∈ l', config.Aligned o) ∧ config.Whole r' := by
  induction h with
  | nil => exact ⟨fun _ hf => absurd hf List.not_mem_nil, fun o ho => (hl o ho).1, hr⟩
  | @cons l r o fs l' r' hpos hnext _ _ ih =>
    obtain ⟨ho, -⟩ := hnext.mem
    obtain ⟨halign, hs, hopen⟩ := hl o ho
    have hmin := u64_min r o.left
    have hle : val (min r o.left) ≤ val o.left := by omega
    have hwhole : config.Whole (min r o.left) := by
      rcases le_total (val r) (val o.left) with h | h
      · rw [InstrumentConfig.Whole, hmin, min_eq_left h]
        exact hr
      · rw [InstrumentConfig.Whole, hmin, min_eq_right h]
        exact halign.left hs
    have hrest : config.Whole (r - min r o.left) := by
      rw [InstrumentConfig.Whole, u64_sub (by omega)]
      exact Int.dvd_sub hr hwhole
    obtain ⟨hfills, horders, hleft⟩ := ih (ids_afterFill hn _ _) (fun x hx => by
      have hsound := sound_afterFill hn (fun y hy => (hl y hy).2.1) ho hle x hx
      rcases mem_afterFill hx with ⟨hx, -⟩ | ⟨hne, y, hy, hid, rfl⟩
      · exact hl x hx
      · obtain rfl := List.inj_on_of_nodup_map hn hy ho hid
        have hleft := NewOrder.fill_left hs hle
        have hne' : val y.left ≠ val (min r y.left) := fun he => hne (val_inj.1 he)
        exact ⟨halign.fill hs hwhole hle, hsound, by omega⟩) hrest
    refine ⟨fun fill hf => ?_, horders, hleft⟩
    rcases List.mem_cons.1 hf with rfl | hf
    · exact ⟨halign.price, hwhole, by change 0 < val (min r o.left); omega⟩
    · exact hfills fill hf

end Fills

/-! ## Requests -/

section Requests
variable {n m : Nat} {c c' : TradingCore n m} {d : Desk n m}
variable {out : List OutputEvent} {w : Wiring n m} {request : OrderRequest} {i : Fin n}

/-- Every resting order is aligned. -/
def AlignedBooks (w : Wiring n m) (book : Fin n → OrderBook) : Prop :=
  ∀ i id node, (book i).get id = .ok (some node) → (w.instruments i).Aligned node.toNewOrder

/-- The trade is on a tick of its instrument, in whole lots of it and at least one. -/
def AlignedTrade (w : Wiring n m) (trade : TradeEvent) : Prop :=
  ∃ i, w.instrument_index.lookup trade.instrument = some i ∧ (w.instruments i).Takes trade.price trade.quantity

theorem AlignedBooks.desk (h : AlignedBooks w c.book) (hb : Books c d) {o : NewOrder} (ho : o ∈ d.book i) :
    (w.instruments i).Aligned o := by
  obtain ⟨node, hn, rfl⟩ := (hb i).get_ok ho
  exact h i _ node hn

/-- Only the book of one instrument is new. -/
theorem AlignedBooks.shelved (h : AlignedBooks w c.book) {l : List NewOrder} (hs : Shelved c c' i l)
    (hl : ∀ o ∈ l, (w.instruments i).Aligned o) : AlignedBooks w c'.book := by
  intro j id node hn
  by_cases hj : j = i
  · subst hj
    exact hl _ (hs.holds.get_iff hn).1
  · rw [hs.others j hj] at hn
    exact h j id node hn

/-- The trades of aligned fills are aligned. -/
theorem Traded.aligned {instrument : InstrumentId} {trade_id : TradeId} {order_id : OrderId} {side : Side}
    {fills : List Fill} (h : Traded instrument trade_id request order_id side fills out)
    (hi : w.instrument_index.lookup instrument = some i)
    (hf : ∀ fill ∈ fills, (w.instruments i).Takes fill.price fill.quantity) :
    ∀ trade ∈ trades out, AlignedTrade w trade := by
  obtain ⟨settled, hle, htrades, -⟩ := h
  intro trade ht
  have hmem : trade.bare ∈ settled.map (fillTrade instrument request order_id side) := by
    rw [← htrades]
    exact List.mem_map_of_mem ht
  obtain ⟨fill, hfill, hbare⟩ := List.mem_map.1 hmem
  have hinstrument : trade.instrument = instrument := congrArg TradeEvent.instrument hbare.symm
  have hprice : trade.price = fill.price := congrArg TradeEvent.price hbare.symm
  have hquantity : trade.quantity = fill.quantity := congrArg TradeEvent.quantity hbare.symm
  refine ⟨i, by rw [hinstrument]; exact hi, ?_⟩
  rw [hprice, hquantity]
  exact hf fill (hle.subset hfill)

/-- An order that goes through matching with whole lots, and would rest on a tick. -/
theorem Matched.aligned (h : AlignedBooks w c.book) {order_id : OrderId} {client_order_id : ClientOrderId} {side : Side}
    {limit : PriceTicks} {quantity r' : QuantityLots} {l l' : List NewOrder} {fills : List Fill}
    (hm : Matched c c' i request order_id client_order_id side limit quantity l fills l' r' out)
    (hn : (l.map NewOrder.order_id).Nodup) (hl : ∀ o ∈ l, (w.instruments i).Aligned o ∧ o.Sound ∧ 0 < val o.left)
    (hquantity : (w.instruments i).Whole quantity) (htotal : (w.instruments i).Whole request.quantity)
    (hprice : (request.kind = .New → request.order_type = .Limit) → (w.instruments i).Quotes request.price)
    (hi : w.instrument_index.lookup c.instruments[i].config.id = some i) :
    AlignedBooks w c'.book ∧ ∀ trade ∈ trades out, AlignedTrade w trade := by
  obtain ⟨hfills, horders, hleft⟩ := hm.trail.aligned hn hl hquantity
  refine ⟨?_, hm.traded.aligned hi hfills⟩
  rcases hm.books with hs | ⟨o, hrest, hs⟩
  · exact h.shelved hs horders
  · refine h.shelved hs fun x hx => ?_
    rcases List.mem_append.1 hx with hx | hx
    · exact horders x hx
    · rw [List.mem_singleton.1 hx]
      refine ⟨by rw [hrest.price]; exact hprice hrest.limit, by rw [hrest.total]; exact htotal, ?_⟩
      rw [InstrumentConfig.Whole, show val o.cumulative_filled = val request.quantity - val r' by have := hrest.filled; omega]
      exact Int.dvd_sub htotal hleft

theorem Handled.aligned (hv : View c d) (h : AlignedBooks c.wiring c.book) {report : ExecutionReport}
    (hh : Handled c c' d request out report) :
    AlignedBooks c.wiring c'.book ∧ ∀ trade ∈ trades out, AlignedTrade c.wiring trade := by
  have hnone : ∀ trade ∈ trades ([] : List OutputEvent), AlignedTrade c.wiring trade := fun _ ht => absurd ht List.not_mem_nil
  have hdesk : ∀ {i o}, o ∈ d.book i → (c.wiring.instruments i).Aligned o ∧ o.Sound ∧ 0 < val o.left := fun ho =>
    ⟨h.desk hv.books ho, hv.inv.working ho⟩
  have hself : ∀ {i : Fin n}, c.instrument_index.lookup request.instrument = some i →
      c.wiring.instrument_index.lookup c.instruments[i].config.id = some i := fun hi => by
    rw [hv.wired.instrument hi]
    exact hi
  cases hh with
  | refused reason he hout =>
    have hs : (c.reject_report request reason).1.shelf = c.shelf := shelf_take_output_seq c
    rw [he] at hs
    rw [hout, show c'.book = c.book from book_of_shelf hs]
    exact ⟨h, hnone⟩
  | exhausted _ _ _ hout hs =>
    rw [hout, show c'.book = c.book from book_of_shelf hs]
    exact ⟨h, hnone⟩
  | @cancels i node _ _ _ hout _ _ _ _ hrem hothers =>
    rw [hout]
    exact ⟨h.shelved ⟨((hv.books i).of_remove hrem).2.2, hothers⟩ fun o ho => (hdesk (mem_without.1 ho).1).1, hnone⟩
  | @enters checked order_id fills l' r' hk hcheck _ _ _ hm =>
    obtain ⟨hwhole, hprice⟩ := check_new_order_aligned hcheck
    exact hm.aligned h (hv.inv.ids _) (fun o ho => hdesk ho) hwhole hwhole (fun hlimit => hprice (hlimit hk))
      (hself (check_new_order_passes hcheck).instrument)
  | retires _ _ _ hout _ _ _ hs =>
    rw [hout]
    exact ⟨h.shelved hs fun o ho => (hdesk (mem_without.1 ho).1).1, hnone⟩
  | reduces _ hcheck _ _ _ hout _ _ _ hs =>
    rw [hout]
    refine ⟨h.shelved hs fun o ho => ?_, hnone⟩
    rcases mem_amend.1 ho with ⟨ho, -⟩ | ⟨x, hx, -, rfl⟩
    · exact (hdesk ho).1
    · exact ⟨(hdesk hx).1.price, (check_replace_aligned hcheck).1, (hdesk hx).1.filled⟩
  | @requeues checked target fills l' r' _ hcheck _ htarget _ _ _ hm =>
    obtain ⟨hwhole, hprice⟩ := check_replace_aligned hcheck
    have ha := check_replace_passes hcheck
    have hexisting := (hdesk (ha.existing hv).1).1
    refine hm.aligned h (hv.inv.ids _ |>.sublist ((without_sublist _ _).map _)) (fun o ho => hdesk (mem_without.1 ho).1) ?_
      hwhole (fun _ => hprice) (hself ha.instrument)
    rw [InstrumentConfig.Whole, htarget]
    exact Int.dvd_sub hwhole hexisting.filled

theorem Happened.aligned (hv : View c d) (h : AlignedBooks c.wiring c.book) {event : InputEvent}
    (hh : Happened c c' d out event) :
    AlignedBooks c.wiring c'.book ∧ ∀ trade ∈ trades out, AlignedTrade c.wiring trade := by
  rcases hh.ground with ⟨hg, hquiet⟩ | ⟨request, c₁, out₁, report, -, -, hhandled, hg, hout⟩
  · rw [hquiet, show c'.book = c.book from congrArg Ground.book hg]
    exact ⟨h, fun _ ht => absurd ht List.not_mem_nil⟩
  · rw [hout, trades_append, show c'.book = c₁.book from congrArg Ground.book hg]
    obtain ⟨hbooks, htrades⟩ := hhandled.aligned hv h
    refine ⟨hbooks, fun trade ht => ?_⟩
    rcases List.mem_append.1 ht with ht | ht
    · exact htrades trade ht
    · exact absurd ht List.not_mem_nil

end Requests

/-! ## Runs -/

theorem alignedBooks_new (allocator : SlabAllocator) (config : EngineConfig)
    (w : Wiring config.instruments.length config.accounts.length) : AlignedBooks w (TradingCore.new allocator config).book := by
  intro i id node hn
  exact absurd (((view_new allocator config).books i).get_iff hn).1 List.not_mem_nil

theorem wiring_new (allocator : SlabAllocator) (config : EngineConfig) (i : Fin config.instruments.length) :
    (TradingCore.new allocator config).wiring.instruments i = config.instruments.get i := by
  simp [TradingCore.wiring, TradingCore.new]

/-- Along a run everything stays aligned with the tables the engine was made with. -/
theorem history_aligned {n m : Nat} {c₀ c : TradingCore n m} {d₀ : Desk n m} (h₀ : View c₀ d₀)
    (ha : AlignedBooks c₀.wiring c₀.book) {inputs : List EngineInput} {ts : List (CoreTurn n m)}
    (h : c₀.history inputs = .ok (c, ts)) :
    c.wiring = c₀.wiring ∧ AlignedBooks c₀.wiring c.book ∧ ∀ t ∈ ts, ∀ trade ∈ trades t.output, AlignedTrade c₀.wiring trade := by
  refine history_events (fun _ => ⟨d₀, h₀⟩) (fun c ts => c.wiring = c₀.wiring ∧ AlignedBooks c₀.wiring c.book ∧
    ∀ t ∈ ts, ∀ trade ∈ trades t.output, AlignedTrade c₀.wiring trade)
    ⟨rfl, ha, fun _ ht => absurd ht List.not_mem_nil⟩ ?_ ?_ h
  · intro c ts input c' ⟨hw, hbooks, htrades⟩ hi
    have hsame : c'.wiring = c.wiring ∧ c'.book = c.book := by cases hi <;> exact ⟨rfl, rfl⟩
    rw [hsame.1, hsame.2]
    refine ⟨hw, hbooks, fun t ht => ?_⟩
    rcases List.mem_append.1 ht with ht | ht
    · exact htrades t ht
    · rw [List.mem_singleton.1 ht]
      exact fun _ hm => absurd hm List.not_mem_nil
  · intro c ts d input seq c₁ out ⟨hw, hbooks, htrades⟩ _ hv _ he
    have hv' := hv.entered input seq
    have hw' : (c.entered input seq).wiring = c₀.wiring := hw
    obtain ⟨hbooks', htrades'⟩ := (apply_event_happened hv' he).aligned hv' (by rw [hw']; exact hbooks)
    rw [hw'] at hbooks' htrades'
    refine ⟨(applied_of_event hv' he).wiring.trans hw', hbooks', fun t ht => ?_⟩
    rcases List.mem_append.1 ht with ht | ht
    · exact htrades t ht
    · rw [List.mem_singleton.1 ht]
      exact htrades'

/-- Every resting order is at a price of the domain of its instrument, on a tick,
and its total, its fill and its remainder are whole lots; every trade is at such
a price, for whole lots and at least one. -/
theorem orders_and_trades_aligned {allocator : SlabAllocator} {config : EngineConfig} {inputs : List EngineInput}
    {c : TradingCore config.instruments.length config.accounts.length} {outs : List (List OutputEvent)}
    (h : (TradingCore.new allocator config).run inputs = .ok (c, outs)) :
    (∀ i id node, (c.book i).get id = .ok (some node) → ∃ remaining, node.remaining = .ok remaining ∧
      (config.instruments.get i).Quotes node.price ∧ (config.instruments.get i).Whole node.total_quantity ∧
      (config.instruments.get i).Whole node.cumulative_filled ∧ (config.instruments.get i).Whole remaining) ∧
    ∀ out ∈ outs, ∀ trade ∈ trades out, ∃ i, c.instrument_index_of trade.instrument = some i ∧
      (config.instruments.get i).Takes trade.price trade.quantity := by
  obtain ⟨ts, hts, -, rfl⟩ := exists_history TradingCore.apply h
  obtain ⟨hw, hbooks, htrades⟩ := history_aligned (view_new allocator config) (alignedBooks_new allocator config _) hts
  constructor
  · intro i id node hn
    obtain ⟨l, hl⟩ := run_holds h i
    have hsound := hl.sound (hl.get_iff hn).1
    have halign := hbooks i id node hn
    rw [wiring_new] at halign
    exact ⟨_, OrderNode.remaining_eq hsound, halign.price, halign.total, halign.filled, halign.left hsound⟩
  · intro out hout trade ht
    obtain ⟨t, hm, rfl⟩ := List.mem_map.1 hout
    obtain ⟨i, hi, htakes⟩ := htrades t hm trade ht
    rw [wiring_new] at htakes
    rw [← hw] at hi
    exact ⟨i, hi, htakes⟩

/-- An instrument in steps of five ticks and ten lots. -/
def steppedConfig : EngineConfig := { smallConfig smallLimits [1, 2] with instruments := [⟨1, 5, 10, 5, 1000⟩] }

theorem orders_and_trades_aligned_small :
    ∃ c outs, (TradingCore.new freeListAllocator steppedConfig).run
        (opening ++ [placed 1 1 .Sell 100 50, placed 2 1 .Buy 105 30]) = .ok (c, outs) ∧
      (outs.flatMap trades).length = 1 ∧ ∀ out ∈ outs, ∀ trade ∈ trades out, ∃ i,
        c.instrument_index_of trade.instrument = some i ∧
          (steppedConfig.instruments.get i).Takes trade.price trade.quantity := by
  have hends : Ends ((TradingCore.new freeListAllocator steppedConfig).run
      (opening ++ [placed 1 1 .Sell 100 50, placed 2 1 .Buy 105 30])) fun r => (r.2.flatMap trades).length = 1 := by
    decide +kernel
  obtain ⟨⟨c, outs⟩, h, hlen⟩ := hends
  exact ⟨c, outs, h, hlen, (orders_and_trades_aligned h).2⟩

end TradingLab
