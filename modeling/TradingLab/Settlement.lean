import TradingLab.Story
/-!
# Settlement

Matching takes all fills off the book at once; `settle_fills` then books them
one by one. Each pass is a fill of the desk. When the trade ids run out it
stops in between, with a fault, and then the ledger is behind the book.
-/
open LabLib

namespace TradingLab

/-! ## Trades as moves -/

section Moves
variable {n m : Nat}

/-- The trade as a move between positions of the tables. -/
def Wiring.move_of (w : Wiring n m) (trade : TradeEvent) : Option (Move n m) := do
  let i ← w.instrument_index.lookup trade.instrument
  let taker ← w.account_index.lookup trade.taker_account
  let maker ← w.account_index.lookup trade.maker_account
  some ⟨i, taker, maker, trade.aggressor, trade.quantity⟩

/-- The outputs report exactly these moves. -/
def Settles (w : Wiring n m) (out : List OutputEvent) (ms : List (Move n m)) : Prop :=
  (trades out).map w.move_of = ms.map some

theorem Settles.append {w : Wiring n m} {out out' : List OutputEvent} {ms ms' : List (Move n m)} (h : Settles w out ms)
    (h' : Settles w out' ms') : Settles w (out ++ out') (ms ++ ms') := by
  simp only [Settles, trades, List.filterMap_append, List.map_append] at *
  rw [h, h']

end Moves

/-! ## One fill -/

section Fill
variable {n m : Nat} {c : TradingCore n m} {d : Desk n m} {f : Flight n m} {o : NewOrder} {maker : Fin m} {t : QuantityLots}

/-- The desk after the order in flight traded with a resting one. -/
def Desk.filled (d : Desk n m) (f : Flight n m) (o : NewOrder) (maker : Fin m) (t : QuantityLots) : Desk n m :=
  { d.setBook f.instrument_index (afterFill (d.book f.instrument_index) o t) with
    lots := fun a i => d.lots a i + Move.delta ⟨f.instrument_index, f.account_index, maker, f.tag.side, t⟩ a i
    flight := some { f with left := f.left - t } }

theorem Positions.congr (h : Positions c d) {d' : Desk n m} (hl : ∀ a i, d'.lots a i = d.lots a i)
    (hb : d'.book = d.book) (ho : d'.owner = d.owner) : Positions c d' := by
  intro a i
  have hr : d'.reserved a i = d.reserved a i := by funext s; simp only [Desk.reserved, hb, ho]
  have hn : d'.notional a i = d.notional a i := by funext s; simp only [Desk.notional, hb, ho]
  rw [hl, hr, hn]
  exact h a i

/-- The maker's reservation covers the fill. -/
theorem le_exposure (hi : Inv d) (ho : o ∈ d.book f.instrument_index) (hm : d.owner o.account = some maker)
    (hto : val t ≤ val o.left) : val t ≤ d.exposure maker f.instrument_index o.side := by
  have h1 := reserved_draws (draws_afterFill (hi.ids _) ho (hi.working ho).1 hto) hm maker f.instrument_index o.side
  rw [if_pos ⟨rfl, rfl, rfl⟩] at h1
  have h2 := reserved_nonneg (d.setBook f.instrument_index (afterFill (d.book f.instrument_index) o t)) maker
    f.instrument_index o.side
  have h3 := inFlight_nonneg d maker f.instrument_index o.side
  rw [Desk.exposure]
  omega

/-- A position after a fill that its exposure covers is still a signed word. -/
theorem Inv.room (hi : Inv d) {a : Fin m} {i : Fin n} {s : Side} (ht : val t ≤ d.exposure a i s) :
    -9223372036854775808 ≤ d.lots a i + s.sign * val t ∧ d.lots a i + s.sign * val t ≤ 9223372036854775807 := by
  have h1 := hi.headroom a i
  have h2 := exposure_nonneg d a i .Buy
  have h3 := exposure_nonneg d a i .Sell
  have h4 := (u64_bounds t).1
  cases s <;> simp only [Side.sign] <;> omega

theorem settle_positions (h : Positions c d) (hi : Inv d) (hf : d.flight = some f) (ho : o ∈ d.book f.instrument_index)
    (hs : o.side = f.tag.side.opposite) (hm : d.owner o.account = some maker) (hto : val t ≤ val o.left)
    (htf : val t ≤ val f.left) :
    ∃ p₁ p₂ p₃, (c.settle_fill maker f.instrument_index (Fill.of o t) f.tag.side).settle_taker f.account_index
        f.instrument_index f.tag.side t = ((c.set_position maker f.instrument_index p₁).set_position maker
          f.instrument_index p₂).set_position f.account_index f.instrument_index p₃ ∧
      Positions (((c.set_position maker f.instrument_index p₁).set_position maker f.instrument_index p₂).set_position
        f.account_index f.instrument_index p₃) (d.filled f o maker t) := by
  have hmaker := le_exposure hi ho hm hto
  have htaker : val t ≤ d.exposure f.account_index f.instrument_index f.tag.side := by
    have := reserved_nonneg d f.account_index f.instrument_index f.tag.side
    rw [Desk.exposure, inFlight_some hf, if_pos ⟨rfl, rfl, rfl⟩]
    omega
  have hword : val t ≤ 9223372036854775807 := Int.le_trans hmaker (hi.small _ _ _)
  have hroom := hi.room hmaker
  have hroom' := hi.room htaker
  have hnow : -9223372036854775808 ≤ d.lots maker f.instrument_index ∧
      d.lots maker f.instrument_index ≤ 9223372036854775807 := by
    simpa using hi.room (t := 0) (exposure_nonneg d maker f.instrument_index .Buy)
  obtain ⟨p₁, e₁, h₁⟩ := h.release (draws_afterFill (hi.ids _) ho (hi.working ho).1 hto) hm
  obtain ⟨p₂, e₂, h₂⟩ := h₁.move (a := maker) (i := f.instrument_index) (s := o.side) hword hroom.1 hroom.2
  -- In a self-trade the second move takes the first one back.
  obtain ⟨p₃, e₃, h₃⟩ := h₂.move (a := f.account_index) (i := f.instrument_index) (s := f.tag.side) hword
    (by simp only [Desk.setBook, hs, sign_opposite, Int.neg_mul]; split <;> rename_i hc <;> [rw [hc.1]; skip] <;> omega)
    (by simp only [Desk.setBook, hs, sign_opposite, Int.neg_mul]; split <;> rename_i hc <;> [rw [hc.1]; skip] <;> omega)
  refine ⟨p₁, p₂, p₃, ?_, h₃.congr (fun a i => ?_) rfl rfl⟩
  · simp only [TradingCore.settle_fill, TradingCore.settle_taker, Fill.of, ← hs, e₁, e₂, e₃]
  · simp only [Desk.filled, Desk.setBook, Move.delta, hs, eq_comm (a := a), eq_comm (a := i)]
    by_cases hc : f.instrument_index = i
    · simp only [hc, and_true, if_true]; ring
    · simp only [hc, and_false, if_false]; ring

/-- A filled maker leaves the order maps, another one stays. -/
theorem drop_filled_orders (h : OrderMaps c.live_orders c.client_orders d) (hl : Listed d) {i : Fin n} (ho : o ∈ d.book i)
    (hto : val t ≤ val o.left) :
    OrderMaps (c.drop_filled (Fill.of o t)).live_orders (c.drop_filled (Fill.of o t)).client_orders
      (d.setBook i (afterFill (d.book i) o t)) := by
  have hz : (Fill.of o t).maker_is_filled = true ↔ o.left = t := fill_left_zero (hl.working ho).1 hto
  rw [TradingCore.drop_filled, afterFill]
  by_cases hf : o.left = t
  · rw [if_pos (hz.2 hf), if_pos hf]
    exact h.erase hl ho
  · rw [if_neg (fun hh => hf (hz.1 hh)), if_neg hf]
    exact h.amend i _ fun _ => rfl

theorem drop_filled_frame (c : TradingCore n m) (fill : Fill) :
    (c.drop_filled fill).setup = c.setup ∧ (c.drop_filled fill).book = c.book ∧
      (c.drop_filled fill).position = c.position ∧ Clean c (c.drop_filled fill) ∧
      (c.drop_filled fill).next_order_id = c.next_order_id ∧ (c.drop_filled fill).next_priority = c.next_priority := by
  rw [TradingCore.drop_filled]
  split
  · exact ⟨rfl, rfl, rfl, .of_eq rfl rfl, rfl, rfl⟩
  · exact ⟨rfl, rfl, rfl, .refl c, rfl, rfl⟩

theorem stamps_drop_filled (c : TradingCore n m) (fill : Fill) : (c.drop_filled fill).stamps = c.stamps := by
  rw [TradingCore.drop_filled]
  split <;> rfl

theorem engine_seq_take_output_seq (c : TradingCore n m) : c.take_output_seq.1.engine_seq = c.engine_seq :=
  eq_of_still TradingCore.engine_seq (fun _ => rfl) (still_take_output_seq c)

theorem maker_events_eq (c : TradingCore n m) (i : Fin n) (request : OrderRequest) (order_id : OrderId) (side : Side)
    (trade_id : TradeId) (fill : Fill) :
    ∃ trade report, c.maker_events i request order_id side trade_id fill =
        (c.take_output_seq.1.take_output_seq.1, [.Trade trade, .Report report]) ∧
      trade.bare = fillTrade c.instruments[i].config.id request order_id side fill ∧ trade.trade_id = trade_id ∧
      trade.output_seq = c.take_output_seq.2 ∧ trade.engine_seq = c.take_output_seq.1.engine_seq ∧
      report.bare = makerReport c.instruments[i].config.id side fill ∧
      report.output_seq = c.take_output_seq.1.take_output_seq.2 ∧
      report.engine_seq = c.take_output_seq.1.take_output_seq.1.engine_seq :=
  ⟨_, _, rfl, rfl, rfl, rfl, rfl, rfl, rfl, rfl⟩

theorem taker_event_eq (c : TradingCore n m) (request : OrderRequest) (order_id : OrderId) (side : Side) (fill : Fill)
    {quantity cum rest : QuantityLots} (h : checked_sub quantity cum = some rest) :
    ∃ report, c.taker_event request order_id side quantity cum fill = (c.take_output_seq.1, [.Report report]) ∧
      report.bare = takerReport request order_id side quantity cum fill ∧
      report.output_seq = c.take_output_seq.2 ∧ report.engine_seq = c.take_output_seq.1.engine_seq := by
  have hrest : rest = quantity - cum := by
    have hv := checked_sub_eq_some.1 h
    have hb := u64_bounds rest
    exact val_inj.1 (hv.trans (u64_sub (by omega)).symm)
  subst hrest
  simp only [TradingCore.taker_event, TradingCore.base_report, h]
  exact ⟨_, rfl, rfl, rfl, rfl⟩

theorem settle_one_eq {c c₂ : TradingCore n m} {i : Fin n} {a maker : Fin m} {request : OrderRequest} {order_id : OrderId}
    {side : Side} {quantity cum : QuantityLots} {trade_id : TradeId} {fill : Fill}
    (h : (TradingCore.settle_fill { c with
      next_trade_id := trade_id, metrics := { c.metrics with trades := c.metrics.trades + 1 } } maker i fill
        side).settle_taker a i side fill.quantity = c₂) :
    c.settle_one i a maker request order_id side quantity cum trade_id fill =
      ((((c₂.maker_events i request order_id side trade_id fill).1.drop_filled fill).taker_event request order_id side
        quantity cum fill).1,
        (c₂.maker_events i request order_id side trade_id fill).2 ++
        (((c₂.maker_events i request order_id side trade_id fill).1.drop_filled fill).taker_event request order_id side
          quantity cum fill).2) := by
  subst h
  rfl

/-- One pass of the settlement is a fill of the desk. -/
theorem settle_one_ok (h : Ledger c d) (hw : Wired c) (hi : Inv d) (hf : d.flight = some f)
    (ho : o ∈ d.book f.instrument_index) (hs : o.side = f.tag.side.opposite) (hm : d.owner o.account = some maker)
    (hto : val t ≤ val o.left) (htf : val t ≤ val f.left) {request : OrderRequest} {quantity cum rest : QuantityLots}
    {trade_id : TradeId} (hid : val trade_id = val c.next_trade_id + 1) (hsub : checked_sub quantity cum = some rest)
    (hacc : c.account_index.lookup request.account = some f.account_index)
    (hins : c.instrument_index.lookup request.instrument = some f.instrument_index) :
    ∃ c' out, c.settle_one f.instrument_index f.account_index maker request f.tag.order_id f.tag.side quantity cum
        trade_id (Fill.of o t) = (c', out) ∧
      c'.setup = c.setup ∧ c'.book = c.book ∧ Clean c c' ∧ Ledger c' (d.filled f o maker t) ∧
      Settles c.wiring out [⟨f.instrument_index, f.account_index, maker, f.tag.side, t⟩] ∧
      (c'.fault = none → Emits c.stamps c'.stamps (fillStory (c.wiring.instruments f.instrument_index).id request
        f.tag.order_id f.tag.side quantity cum (Fill.of o t)) out) := by
  have hp : Positions { c with next_trade_id := trade_id, metrics := { c.metrics with trades := c.metrics.trades + 1 } }
      d := h.positions
  obtain ⟨p₁, p₂, p₃, e, hp'⟩ := settle_positions hp hi hf ho hs hm hto htf
  change TradingCore.settle_taker _ _ _ _ (Fill.of o t).quantity = _ at e
  rw [settle_one_eq e]
  generalize hc₂ : ((TradingCore.set_position { c with
      next_trade_id := trade_id, metrics := { c.metrics with trades := c.metrics.trades + 1 } } maker f.instrument_index
        p₁).set_position maker f.instrument_index p₂).set_position f.account_index f.instrument_index p₃ = c₂ at hp' ⊢
  have hset₂ : c₂.setup = c.setup := by subst hc₂; simp only [setup_set_position]; rfl
  have hbook₂ : c₂.book = c.book := by subst hc₂; rfl
  have hlive₂ : c₂.live_orders = c.live_orders := by subst hc₂; rfl
  have hclient₂ : c₂.client_orders = c.client_orders := by subst hc₂; rfl
  have hclean₂ : Clean c c₂ := by subst hc₂; exact .of_eq rfl rfl
  have hid₂ : c₂.next_order_id = c.next_order_id := by subst hc₂; rfl
  have hpr₂ : c₂.next_priority = c.next_priority := by subst hc₂; rfl
  have hst₂ : c₂.stamps = ⟨c.engine_seq, c.output_seq, trade_id⟩ := by subst hc₂; rfl
  have hconf : c₂.instruments[f.instrument_index].config = c.wiring.instruments f.instrument_index :=
    congrArg (fun s => (s.instruments f.instrument_index).1) hset₂
  clear hc₂ e hp
  obtain ⟨trade, maker_report, hmk, htb, htid, hts, hte, hmb, hms, hme⟩ :=
    maker_events_eq c₂ f.instrument_index request f.tag.order_id f.tag.side trade_id (Fill.of o t)
  rw [hmk]
  dsimp only
  -- The two sequence numbers of the trade and the maker report.
  have hst₃ : c₂.take_output_seq.1.take_output_seq.1.still = c₂.still := by
    rw [still_take_output_seq, still_take_output_seq]
  have hclean₃ : Clean c₂ c₂.take_output_seq.1.take_output_seq.1 :=
    (clean_take_output_seq _).trans (clean_take_output_seq _)
  obtain ⟨hset₄, hbook₄, hpos₄, hclean₄, hid₄, hpr₄⟩ :=
    drop_filled_frame c₂.take_output_seq.1.take_output_seq.1 (Fill.of o t)
  have hst₄ := stamps_drop_filled c₂.take_output_seq.1.take_output_seq.1 (Fill.of o t)
  obtain ⟨taker_report, htk, hkb, hks, hke⟩ := taker_event_eq
    (c₂.take_output_seq.1.take_output_seq.1.drop_filled (Fill.of o t)) request f.tag.order_id f.tag.side (Fill.of o t) hsub
  rw [htk]
  dsimp only
  have hst₅ := still_take_output_seq (c₂.take_output_seq.1.take_output_seq.1.drop_filled (Fill.of o t))
  have hset : (c₂.take_output_seq.1.take_output_seq.1.drop_filled (Fill.of o t)).setup = c.setup := by
    rw [hset₄, setup_of_still hst₃, hset₂]
  refine ⟨_, _, rfl, ?_, ?_, ?_, ?_, ?_, fun hfault => ?_⟩
  · rw [setup_of_still hst₅, hset]
  · rw [book_of_still hst₅, hbook₄, book_of_still hst₃, hbook₂]
  · exact ((hclean₂.trans hclean₃).trans hclean₄).trans (clean_take_output_seq _)
  · refine Ledger.of_still ?_ hst₅
    refine ⟨fun a i => ?_, ?_, fun x => ?_, ?_, ?_⟩
    · rw [hpos₄, eq_of_still TradingCore.position (fun _ => rfl) hst₃]
      exact hp' a i
    · have horders : OrderMaps c₂.take_output_seq.1.take_output_seq.1.live_orders
          c₂.take_output_seq.1.take_output_seq.1.client_orders d := by
        rw [eq_of_still TradingCore.live_orders (fun _ => rfl) hst₃, hlive₂,
          eq_of_still TradingCore.client_orders (fun _ => rfl) hst₃, hclient₂]
        exact h.orders
      exact (drop_filled_orders horders hi.toListed ho hto).same (fun _ => rfl) rfl
    · exact (congrArg (fun s => s.account_index.lookup x) hset).trans (h.owner x)
    · rw [hid₄, eq_of_still TradingCore.next_order_id (fun _ => rfl) hst₃, hid₂, h.order_id]; rfl
    · rw [hpr₄, eq_of_still TradingCore.next_priority (fun _ => rfl) hst₃, hpr₂, h.priority]; rfl
  · have h1 : c.wiring.instrument_index.lookup (c.wiring.instruments f.instrument_index).id = some f.instrument_index := by
      rw [show (c.wiring.instruments f.instrument_index).id = request.instrument from hw.instrument hins]
      exact hins
    have h2 : c.wiring.account_index.lookup o.account = some maker := (h.owner _).trans hm
    have h3 : c.wiring.account_index.lookup request.account = some f.account_index := hacc
    rw [hconf] at htb
    have hmove : c.wiring.move_of trade = some ⟨f.instrument_index, f.account_index, maker, f.tag.side, t⟩ := by
      rw [show c.wiring.move_of trade = c.wiring.move_of trade.bare from rfl, htb]
      simp [Wiring.move_of, fillTrade, Fill.of, h1, h2, h3]
    simp [Settles, trades, hmove]
  · have hf₃ := (clean_take_output_seq _).sticky hfault
    have hf₂ := hclean₄.sticky hf₃
    have hf₁ := (clean_take_output_seq _).sticky hf₂
    have he₁ : c₂.take_output_seq.1.engine_seq = c.engine_seq := 
      (engine_seq_take_output_seq c₂).trans (congrArg Stamps.engine_seq hst₂)
    rw [hconf] at htb hmb
    have h1 := emits_trade (c := c) (by rw [htid]; exact hid) (by rw [htid]; exact hst₂) hf₁ hts (hte.trans he₁)
    have h2 := emits_report hf₂ hms (hme.trans (engine_seq_take_output_seq _))
    have h3 := emits_report hfault hks (hke.trans (engine_seq_take_output_seq _))
    rw [hst₄] at h3
    rw [htb] at h1
    rw [hmb] at h2
    rw [hkb] at h3
    exact (h1.append h2).append h3

end Fill

/-! ## All fills -/

section Fills
variable {n m : Nat} {c : TradingCore n m} {d : Desk n m} {f : Flight n m}

/-- From `c` to `c'` the engine settled fills of the order in flight that are to
leave it the quantity `r'` and its instrument the orders `l'`. Unless trade ids
ran out, which is a fault, it settled all of them. -/
structure Settled (lo hi : Fin m → Int) (c c' : TradingCore n m) (d d' : Desk n m) (f : Flight n m)
    (story out : List OutputEvent) (ms : List (Move n m)) (l' : List NewOrder) (r' left : UInt64) : Prop where
  setup : c'.setup = c.setup
  book : c'.book = c.book
  clean : Clean c c'
  ledger : Ledger c' d'
  steps : Steps lo hi d ms d'
  flight : d'.flight = some { f with left := left }
  behind : val r' ≤ val left
  done : c'.fault = none → left = r' ∧ d'.book = Function.update d.book f.instrument_index l' ∧ Settles c.wiring out ms ∧
    Emits c.stamps c'.stamps story out

/-- The loop of `execute` settles the fills of a matching. -/
theorem settle_fills_ok {lo hi : Fin m → Int} (hb : WordBounds lo hi) (request : OrderRequest) (quantity : QuantityLots)
    {s : Side} {limit : PriceTicks} {l l' : List NewOrder} {r r' : UInt64} {fills : List Fill}
    (hfills : Fills s limit l r fills l' r') (c : TradingCore n m) (d : Desk n m) (f : Flight n m) (cum : QuantityLots)
    (h : Ledger c d) (hw : Wired c) (hinv : Inv d) (hf : d.flight = some f) (hs : s = f.tag.side.opposite)
    (hl : d.book f.instrument_index = l) (hr : f.left = r) (hcum : val cum + val r = val quantity)
    (hacc : c.account_index.lookup request.account = some f.account_index)
    (hins : c.instrument_index.lookup request.instrument = some f.instrument_index) :
    ∃ c' out d' ms left, TradingCore.settle_fills f.instrument_index f.account_index request f.tag.order_id f.tag.side
        quantity c cum fills = .ok (c', out) ∧ Settled lo hi c c' d d' f (fillsStory
          (c.wiring.instruments f.instrument_index).id request f.tag.order_id f.tag.side quantity cum fills) out ms l' r'
          left := by
  induction hfills generalizing c d f cum with
  | nil =>
    refine ⟨c, [], d, [], f.left, rfl, rfl, rfl, .refl c, h, .refl, hf, by rw [hr], fun _ => ⟨hr, ?_, rfl, .nil _⟩⟩
    rw [← hl, Function.update_eq_self]
  | @cons l r o fs l' r' hpos hnext hcross hrest ih =>
    obtain ⟨ho, hside⟩ := hnext.mem
    rw [← hl] at ho
    rw [hs] at hside
    obtain ⟨maker, hm⟩ := hinv.owned ho
    have hmin := u64_min r o.left
    have hleft := (hinv.working ho).2
    have hq := u64_bounds quantity
    have htr : val (min r o.left) ≤ val r := by omega
    obtain ⟨cum', hadd, hcum'⟩ := exists_checked_add rfl (a := cum) (b := min r o.left) (by simp only [Machine.hi]; omega)
    obtain ⟨rest, hsub, -⟩ := exists_checked_sub rfl (a := quantity) (b := cum') (by omega)
    have hmaker : c.account_index.lookup (Fill.of o (min r o.left)).maker_account = some maker := (h.owner _).trans hm
    have hquant : (Fill.of o (min r o.left)).quantity = min r o.left := rfl
    cases hid : next c.next_trade_id with
    | none =>
      refine ⟨c.set_fault .SequenceExhausted, [], d, [], f.left, ?_, rfl, rfl, clean_exhausted c, h.of_still rfl, .refl,
        hf, ?_, fun hc => by simp [TradingCore.set_fault] at hc⟩
      · simp only [TradingCore.settle_fills, hquant, hadd, hid, pure_eq]
      · have := hrest.left_le
        rw [u64_sub htr] at this
        rw [hr]; omega
    | some trade_id =>
      obtain ⟨c₁, one, hone, hset₁, hbook₁, hclean₁, hled₁, hsett₁, hemit₁⟩ := settle_one_ok h hw hinv hf ho hside hm
        (t := min r o.left) (by omega) (by rw [hr]; omega) (next_eq_some.1 hid) hsub hacc hins
      have hstep : Step lo hi d [⟨f.instrument_index, f.account_index, maker, f.tag.side, min r o.left⟩]
          (d.filled f o maker (min r o.left)) :=
        .fill f o maker (min r o.left) hf ho hside hm (by omega) (by omega) (by rw [hr]; omega)
      obtain ⟨c', out, d', ms, left, hrun, hset⟩ := ih c₁ (d.filled f o maker (min r o.left))
        { f with left := f.left - min r o.left } cum' hled₁ (hw.of_setup hset₁) (hstep.inv hb hinv) rfl hs
        (by rw [← hl]; simp [Desk.filled, Desk.setBook]) (by rw [hr]) (by rw [u64_sub htr]; omega)
        (by rw [show c₁.account_index = c.account_index from congrArg Setup.account_index hset₁]; exact hacc)
        (by rw [show c₁.instrument_index = c.instrument_index from congrArg Setup.instrument_index hset₁]; exact hins)
      refine ⟨c', one ++ out, d', _ :: ms, left, ?_, hset.setup.trans hset₁, hset.book.trans hbook₁,
        hclean₁.trans hset.clean, hset.ledger, (Steps.one hstep).trans hset.steps, hset.flight, hset.behind, fun hc => ?_⟩
      · simp only [TradingCore.settle_fills, hquant, hadd, hid, hmaker, idx_some, ok_bind, hone, hrun, pure_eq]
      · obtain ⟨h1, h2, h3, h4⟩ := hset.done hc
        refine ⟨h1, ?_, hsett₁.append (by rw [← wiring_of_setup hset₁]; exact h3), ?_⟩
        · rw [h2]
          simp [Desk.filled, Desk.setBook]
        · have hcums : cum + min r o.left = cum' := val_inj.1 ((u64_add (by omega)).trans hcum'.symm)
          rw [fillsStory, hquant, hcums]
          rw [wiring_of_setup hset₁] at h4
          exact (hemit₁ (hset.clean.sticky hc)).append h4

/-- From `c` to `c'` the engine matched the order in flight at a limit and
settled the fills; `r'` is what matching left of it, `l'` what it left in the book. -/
structure Executed (lo hi : Fin m → Int) (c c' : TradingCore n m) (d d' : Desk n m) (f : Flight n m) (limit : PriceTicks)
    (filled : QuantityLots) (fills : List Fill) (story out : List OutputEvent) (ms : List (Move n m)) (l' : List NewOrder)
    (r' left : UInt64) : Prop where
  setup : c'.setup = c.setup
  clean : Clean c c'
  ledger : Ledger c' d'
  steps : Steps lo hi d ms d'
  flight : d'.flight = some { f with left := left }
  behind : val r' ≤ val left
  sum : val filled + val r' = val f.left
  holds : Holds (c'.book f.instrument_index) l'
  capacity : (c'.book f.instrument_index).capacity = (c.book f.instrument_index).capacity
  ids : (l'.map NewOrder.order_id).Sublist ((d.book f.instrument_index).map NewOrder.order_id)
  level : ∀ p, levelAt l' f.tag.side p = levelAt (d.book f.instrument_index) f.tag.side p
  crossed : 0 < val filled → ∃ o ∈ d.book f.instrument_index, o.side = f.tag.side.opposite ∧ Crosses o.side o.price limit
  exhausted : Exhausted f.tag.side.opposite limit l' r'
  matched : Fills f.tag.side.opposite limit (d.book f.instrument_index) f.left fills l' r'
  done : c'.fault = none → left = r' ∧ d'.book = Function.update d.book f.instrument_index l' ∧ Books c' d' ∧
    Settles c.wiring out ms ∧ Emits c.stamps c'.stamps story out

theorem execute_ok {lo hi : Fin m → Int} (hb : WordBounds lo hi) (request : OrderRequest) (h : Ledger c d)
    (hbooks : Books c d) (hw : Wired c) (hinv : Inv d) (hf : d.flight = some f)
    (hacc : c.account_index.lookup request.account = some f.account_index)
    (hins : c.instrument_index.lookup request.instrument = some f.instrument_index) (limit : PriceTicks) :
    ∃ c' out filled fills d' ms l' r' left, c.execute f.instrument_index f.account_index request f.tag.order_id f.tag.side
        limit f.left = .ok (c', out, filled) ∧ Executed lo hi c c' d d' f limit filled fills (fillsStory
          (c.wiring.instruments f.instrument_index).id request f.tag.order_id f.tag.side f.left 0 fills) out ms l' r' left := by
  obtain ⟨b, l', r', fills, hmatch, hholds, hcap, hfills, hex⟩ :=
    match_order_ok (hbooks f.instrument_index) f.tag.side limit f.left
  have hle := hfills.left_le
  have hfilled : val (f.left - r') + val r' = val f.left := by rw [u64_sub hle]; omega
  have hbook : ∀ {c' : TradingCore n m}, c'.book = (c.set_book f.instrument_index b).book →
      Holds (c'.book f.instrument_index) l' ∧
        (c'.book f.instrument_index).capacity = (c.book f.instrument_index).capacity := by
    intro c' hc'
    rw [hc', book_set_book, if_pos rfl]
    exact ⟨hholds, hcap⟩
  have hbooks' : ∀ {c' : TradingCore n m} {d' : Desk n m}, c'.book = (c.set_book f.instrument_index b).book →
      d'.book = Function.update d.book f.instrument_index l' → Books c' d' := by
    intro c' d' hc' hd' j
    rw [hc', hd']
    exact hbooks.set hholds j
  have hlevel := hfills.levelAt_other (hinv.ids _) f.tag.side (by cases f.tag.side <;> decide)
  rw [TradingCore.execute, show c.instruments[f.instrument_index].book = c.book f.instrument_index from rfl, hmatch]
  simp only [ok_bind]
  by_cases hz : QuantityLots.is_zero (f.left - r') = true
  · rw [if_pos hz]
    rw [is_zero_iff] at hz
    refine ⟨_, _, _, fills, d, [], l', r', f.left, rfl, setup_set_book _ _ _, .of_eq rfl rfl, h.set_book _ _, .refl, hf,
      hle, hfilled, (hbook rfl).1, (hbook rfl).2, hfills.ids_subset, hlevel, fun hpos => by omega, hex, hfills, fun _ => ?_⟩
    have hsame : l' = d.book f.instrument_index ∧ fills = [] := by
      cases hfills with
      | nil => exact ⟨rfl, rfl⟩
      | @cons _ _ o _ _ _ hpos hnext _ hrest =>
        -- A first fill would have left the order in flight less than it had.
        have h1 := hrest.left_le
        have h2 := u64_min f.left o.left
        have h3 := (hinv.working hnext.mem.1).2
        rw [u64_sub (by omega)] at h1
        omega
    have hupd : d.book = Function.update d.book f.instrument_index l' := by rw [hsame.1, Function.update_eq_self]
    exact ⟨val_inj.1 (by omega), hupd, hbooks' rfl hupd, rfl, by rw [hsame.2]; exact .nil _⟩
  · rw [if_neg hz]
    obtain ⟨c', out, d', ms, left, hrun, hset⟩ := settle_fills_ok hb request f.left hfills
      (c.set_book f.instrument_index b) d f 0 (h.set_book _ _) (hw.of_setup (setup_set_book _ _ _)) hinv hf rfl rfl rfl
      (by rw [u64_val_zero]; omega) hacc hins
    rw [hrun]
    have hclean : Clean c (c.set_book f.instrument_index b) := .of_eq rfl rfl
    refine ⟨_, _, _, fills, d', ms, l', r', left, rfl, hset.setup.trans (setup_set_book _ _ _),
      hclean.trans hset.clean, hset.ledger, hset.steps, hset.flight, hset.behind, hfilled, (hbook hset.book).1,
      (hbook hset.book).2, hfills.ids_subset, hlevel, fun hpos => ?_, hex, hfills, fun hc => ?_⟩
    · cases hfills with
      | nil => omega
      | @cons _ _ o _ _ _ _ hnext hcross _ =>
        exact ⟨o, hnext.mem.1, hnext.mem.2, by rw [hnext.mem.2]; exact hcross⟩
    · obtain ⟨h1, h2, h3, h4⟩ := hset.done hc
      rw [wiring_of_setup (setup_set_book c f.instrument_index b)] at h3 h4
      exact ⟨h1, h2, hbooks' hset.book h2, h3, h4⟩

end Fills

/-! ## Coming to rest -/

section Rest
variable {n m : Nat} {c : TradingCore n m} {d : Desk n m} {f : Flight n m}

/-- Resting reserves what is left of the order and enters it in the maps, unless
its level overflows: then the order is gone without a trace. -/
theorem rest_order_with_ok (lo hi : Fin m → Int) (h : Ledger c d) (hw : Wired c) (hinv : Inv d) (hf : d.flight = some f)
    (price : PriceTicks) (total filled : QuantityLots) {l' : List NewOrder} (hholds : Holds (c.book f.instrument_index) l')
    (hfresh : f.tag.order_id ∉ l'.map NewOrder.order_id) (hroom : l'.length < (c.book f.instrument_index).capacity)
    (hlt : val filled < val total) (hleft : val total - val filled ≤ val f.left)
    (hdone : c.fault = none → val total - val filled = val f.left ∧ Books c d ∧ d.book f.instrument_index = l' ∧
      ∀ x ∈ l', x.side = f.tag.side.opposite → ¬Crosses x.side x.price price) :
    ∃ c', c.rest_order_with f.instrument_index f.account_index f.tag.client_order_id f.tag.side price total filled
        f.tag.order_id = .ok c' ∧ c'.setup = c.setup ∧ Clean c c' ∧
      (c'.fault = none → c'.stamps = c.stamps ∧ ∃ d' p, Step lo hi d [] d' ∧ Ledger c' d' ∧ Books c' d' ∧
        d'.flight = none ∧ d'.book = Function.update d.book f.instrument_index
          (if (c.book f.instrument_index).level_overflows f.tag.side price (total - filled) then l'
          else l' ++ [f.order price total filled p])) := by
  have hok := hinv.flight f hf
  rw [TradingCore.rest_order_with]
  cases hp : next c.next_priority with
  | none =>
    exact ⟨_, rfl, rfl, clean_exhausted c, fun hc => by simp [TradingCore.set_fault] at hc⟩
  | some p =>
    have hpv : val p = val d.next_priority + 1 := by rw [← h.priority]; exact checked_add_eq_some.1 hp
    have hname : c.accounts[f.account_index].id = f.tag.account := hw.account ((h.owner _).trans hok.owner)
    have hsound : (f.order price total filled p).Sound := Int.le_of_lt hlt
    have hov : (f.order price total filled p).left = total - filled := rfl
    simp only [hname]
    rw [show ({ c with next_priority := p } : TradingCore n m).instruments[f.instrument_index].book =
      c.book f.instrument_index from rfl]
    change ∃ c', ((c.book f.instrument_index).insert (f.order price total filled p) >>= _) = _ ∧ _
    cases hlv : (c.book f.instrument_index).level_overflows f.tag.side price (total - filled) with
    | true =>
      rw [Holds.insert_error hsound hlv]
      refine ⟨_, rfl, rfl, .of_eq rfl rfl, fun hc => ?_⟩
      obtain ⟨-, hbooks, hl, -⟩ := hdone hc
      refine ⟨rfl, _, p, .refuse p hpv, ⟨h.positions.congr (fun _ _ => rfl) rfl rfl, h.orders.same (fun _ => rfl) rfl,
        h.owner, h.order_id, rfl⟩, hbooks, rfl, ?_⟩
      simp only [if_true, ← hl, Function.update_eq_self]
    | false =>
      obtain ⟨b', hins, hb', -⟩ := hholds.insert_ok hfresh hsound hroom hlv
      rw [hins]
      have hsub : checked_sub total filled = some (f.order price total filled p).left :=
        checked_sub_eq_some.2 (NewOrder.left_val hsound)
      have hlv := NewOrder.left_val hsound
      have hdraw := draws_append (d.book f.instrument_index) (f.order price total filled p)
      have hres := reserved_draws hdraw hok.owner f.account_index f.instrument_index f.tag.side
      rw [if_pos ⟨rfl, rfl, rfl⟩] at hres
      have hsmall := hinv.small f.account_index f.instrument_index f.tag.side
      rw [Desk.exposure, inFlight_some hf, if_pos ⟨rfl, rfl, rfl⟩] at hsmall
      have hpos : Positions (TradingCore.set_book { c with next_priority := p } f.instrument_index b') d := h.positions
      obtain ⟨q, hq, hpos'⟩ := hpos.reserve hdraw hok.owner (by
        change (d.setBook _ _).reserved _ _ f.tag.side ≤ _
        simp only [Flight.order] at hlv
        rw [hres]
        simp only [Flight.order]; omega)
      have hq' : (TradingCore.set_book { c with next_priority := p } f.instrument_index b').reserve f.account_index
        f.instrument_index f.tag.side (f.order price total filled p).left price = _ := hq
      simp only [ok_bind, hsub, hq', pure_eq]
      refine ⟨_, rfl, ?_, .of_eq rfl rfl, fun hc => ?_⟩
      · exact (setup_set_position (TradingCore.set_book { c with next_priority := p } f.instrument_index b')
          f.account_index f.instrument_index q).trans (setup_set_book { c with next_priority := p } f.instrument_index b')
      · obtain ⟨heq, hbooks, hl, hcross⟩ := hdone hc
        refine ⟨rfl, _, p, .rest f (f.order price total filled p) hf rfl hsound (by rw [hlv]; exact Int.sub_pos.2 hlt)
          (by rw [hlv]; exact heq) hpv (by rw [hl]; exact hcross), ⟨hpos'.congr (fun _ _ => rfl) rfl rfl,
          (h.orders.insert hok (o := f.order price total filled p) rfl).same (fun _ => rfl) rfl, h.owner, h.order_id, rfl⟩, fun j => ?_, rfl, ?_⟩
        · rw [← hl] at hb'
          exact (Books.set (c := { c with next_priority := p }) hbooks hb') j
        · simp [Desk.setBook, hl]

end Rest

end TradingLab
