import TradingLab.BookView
import TradingLab.Runs
/-!
# Invariants of runs

What holds in every state the engine reaches from any configuration without a
fault, read off the desk the state stands for: reservations are what the books
hold, books pass their own check, positions stay within limits and come from
the trades, and the order maps list the books.
-/
open LabLib

namespace TradingLab

section Invariants
variable {n m : Nat} {c : TradingCore n m} {d : Desk n m}
variable {outs : List (List OutputEvent)} {inputs : List EngineInput} {out : List OutputEvent} {config : EngineConfig}
  {c' : TradingCore n m} {i : Fin n} {id : OrderId}

/-- A state without a fault stands for a desk. -/
theorem run_view {allocator : SlabAllocator} {c : TradingCore config.instruments.length config.accounts.length}
    (h : (TradingCore.new allocator config).run inputs = .ok (c, outs)) (hf : c.fault = none) : ∃ d, View c d := by
  obtain ⟨d, hv, -⟩ := run_induction (view_new allocator config) (fun _ _ _ _ => True) trivial
    (fun _ _ _ _ _ => trivial) h hf
  exact ⟨d, hv⟩

/-! ## Reservations -/

/-- The sum of `remaining()` times a weight over the resting orders of an
account on a side. An order belongs to the account its account id leads to. -/
def TradingCore.open_sum (c : TradingCore n m) (a : Fin m) (i : Fin n) (side : Side) (weight : OrderNode → Int) :
    Eval Int := do
  let nodes ← (c.book i).resting
  let mine := nodes.filter fun node => c.account_index_of node.account = some a ∧ node.side = side
  let parts ← mine.mapM fun node => do
    let remaining ← node.remaining
    pure (val remaining * weight node)
  pure parts.sum

theorem sum_filter_eq (p : NewOrder → Prop) [DecidablePred p] (f : NewOrder → Int) (l : List NewOrder) :
    ((l.filter p).map f).sum = (l.map fun o => if p o then f o else 0).sum := by
  induction l with
  | nil => rfl
  | cons o l ih => by_cases h : p o <;> simp [h, ih]

/-- The sum over a book is the sum over the list of the desk. -/
theorem open_sum_eq (h : View c d) (a : Fin m) (i : Fin n) (side : Side) (g : PriceTicks → Int) :
    c.open_sum a i side (fun node => g node.price) =
      .ok (weighed (fun o => share d.owner a side o * g o.price) (d.book i)) := by
  obtain ⟨nodes, hn, hperm⟩ := (h.books i).resting_perm
  have hmem : ∀ node ∈ nodes, node.toNewOrder ∈ d.book i := fun node hm => hperm.subset (List.mem_map_of_mem hm)
  rw [TradingCore.open_sum, hn, ok_bind]
  dsimp only
  rw [mapM_eq_pure (g := fun node => val node.toNewOrder.left * g node.price)]
  · rw [pure_eq, ok_bind, pure_eq]
    congr 1
    have hown : ∀ x, c.account_index_of x = d.owner x := h.ledger.owner
    simp only [hown]
    have hlist : (nodes.filter fun node => d.owner node.account = some a ∧ node.side = side).map
        (fun node => val node.toNewOrder.left * g node.price) =
        ((nodes.map OrderNode.toNewOrder).filter fun o => d.owner o.account = some a ∧ o.side = side).map
          (fun o => val o.left * g o.price) := by
      rw [List.filter_map, List.map_map]
      rfl
    rw [hlist, ((hperm.filter _).map _).sum_eq, sum_filter_eq, weighed]
    congr 1
    refine List.map_congr_left fun o _ => ?_
    rw [share]
    split <;> simp
  · intro node hm
    have hs := (h.inv.working (hmem node (List.mem_of_mem_filter hm))).1
    rw [OrderNode.remaining_eq hs]
    rfl

/-- Working reservations equal the live remaining exposure they represent. -/
theorem reservations_match_live_orders {allocator : SlabAllocator} {config : EngineConfig} {inputs : List EngineInput}
    {c : TradingCore config.instruments.length config.accounts.length} {outs : List (List OutputEvent)}
    (h : (TradingCore.new allocator config).run inputs = .ok (c, outs)) (hf : c.fault = none)
    (a : Fin config.accounts.length) (i : Fin config.instruments.length) :
    c.open_sum a i .Buy (fun _ => 1) = .ok (val (c.position a i).open_buy_lots) ∧
    c.open_sum a i .Sell (fun _ => 1) = .ok (val (c.position a i).open_sell_lots) ∧
    c.open_sum a i .Buy (fun node => |val node.price|) = .ok (val (c.position a i).open_buy_notional) ∧
    c.open_sum a i .Sell (fun node => |val node.price|) = .ok (val (c.position a i).open_sell_notional) := by
  obtain ⟨d, hv⟩ := run_view h hf
  have hp := hv.ledger.positions a i
  have hlots : ∀ side, c.open_sum a i side (fun _ => 1) = .ok (val ((c.position a i).open_lots side)) := by
    intro side
    rw [hp.reserved, open_sum_eq hv a i side fun _ => 1]
    simp only [Int.mul_one]
    rfl
  have hnotional : ∀ side, c.open_sum a i side (fun node => |val node.price|) =
      .ok (val ((c.position a i).open_notional side)) := by
    intro side
    rw [hp.notional]
    exact open_sum_eq hv a i side fun price => |val price|
  exact ⟨hlots .Buy, hlots .Sell, hnotional .Buy, hnotional .Sell⟩

theorem reservations_match_small :
    ∃ c outs, smallCore.run smallInputs = .ok (c, outs) ∧ c.fault = none ∧
      c.open_sum ⟨1, by decide⟩ ⟨0, by decide⟩ .Buy (fun node => |val node.price|) = .ok 396 ∧
      c.open_sum ⟨0, by decide⟩ ⟨0, by decide⟩ .Sell (fun _ => 1) = .ok 2 := by
  have hends : Ends (smallCore.run smallInputs) fun r => r.1.fault = none ∧
      (r.1.position ⟨1, by decide⟩ ⟨0, by decide⟩).open_buy_notional = 396 ∧
      (r.1.position ⟨0, by decide⟩ ⟨0, by decide⟩).open_sell_lots = 2 := by decide +kernel
  obtain ⟨⟨c, outs⟩, hr, hf, h1, h2⟩ := hends
  refine ⟨c, outs, hr, hf, ?_, ?_⟩
  · rw [(reservations_match_live_orders hr hf _ _).2.2.1, h1]
    rfl
  · rw [(reservations_match_live_orders hr hf _ _).2.1, h2]
    rfl

/-! ## No panic and no accounting fault -/

theorem upright_new (allocator : SlabAllocator)
    (hs : ∀ instrument ∈ config.instruments, 0 < val instrument.tick_size ∧ 0 < val instrument.lot_size) :
    Upright (TradingCore.new allocator config) where
  sized i := by
    have hi : (TradingCore.new allocator config).instruments[i].config = config.instruments.get i := by
      simp [TradingCore.new]
    rw [hi]
    exact hs _ (List.get_mem _ _)
  view _ := ⟨_, view_new allocator config⟩
  accounting := List.not_mem_nil
  logged f hf := by cases hf

/-- With positive tick and lot sizes every run ends: no check of the book or the
core fails, and no accounting fault is ever set, not even one that a later fault
hides. -/
theorem run_never_fails_accounting (allocator : SlabAllocator) (config : EngineConfig)
    (hs : ∀ instrument ∈ config.instruments, 0 < val instrument.tick_size ∧ 0 < val instrument.lot_size)
    (inputs : List EngineInput) :
    ∃ c outs, (TradingCore.new allocator config).run inputs = .ok (c, outs) ∧ .Accounting ∉ c.faults ∧
      c.fault ≠ some .Accounting := by
  obtain ⟨c, outs, hr, hu⟩ := runs_total TradingCore.apply Upright (upright_new allocator hs)
    (fun _ input hu => hu.apply input) inputs
  exact ⟨c, outs, hr, hu.accounting, fun hf => hu.accounting (hu.logged _ hf)⟩

theorem run_never_fails_accounting_small :
    (∀ instrument ∈ (smallConfig smallLimits [1, 2]).instruments,
      0 < val instrument.tick_size ∧ 0 < val instrument.lot_size) ∧
    ∃ c outs, smallCore.run smallInputs = .ok (c, outs) ∧ .Accounting ∉ c.faults ∧ c.fault ≠ some .Accounting :=
  ⟨by decide, run_never_fails_accounting freeListAllocator (smallConfig smallLimits [1, 2]) (by decide) smallInputs⟩

/-! ## Books -/

/-- Every book passes its own check. -/
theorem books_check {allocator : SlabAllocator} {config : EngineConfig} {inputs : List EngineInput}
    {c : TradingCore config.instruments.length config.accounts.length} {outs : List (List OutputEvent)}
    (h : (TradingCore.new allocator config).run inputs = .ok (c, outs)) (hf : c.fault = none)
    (i : Fin config.instruments.length) : (c.book i).check_invariants.run = .ok (.ok ()) := by
  obtain ⟨d, hv⟩ := run_view h hf
  have hl := hv.inv.toListed
  rw [(hv.books i).check_invariants_ok (fun o ho => (hl.working ho).2) (hl.sorted i)
    (fun x hx y hy => hl.uncrossed hx hy)]
  rfl

theorem books_check_small :
    ∃ c outs, smallCore.run smallInputs = .ok (c, outs) ∧ c.fault = none ∧ (c.book ⟨0, by decide⟩).orders.len = 2 ∧
      (c.book ⟨0, by decide⟩).check_invariants.run = .ok (.ok ()) := by
  have hends : Ends (smallCore.run smallInputs) fun r => r.1.fault = none ∧
      (r.1.book ⟨0, by decide⟩).orders.len = 2 := by decide +kernel
  obtain ⟨⟨c, outs⟩, hr, hf, hlen⟩ := hends
  exact ⟨c, outs, hr, hf, hlen, books_check hr hf _⟩

/-! ## Position limits -/

theorem within_of_limits {lo hi : Int} (h : View c d) (a : Fin m) (hw : d.Within a lo hi) (i : Fin n) :
    val (c.position a i).position_lots + val (c.position a i).open_buy_lots ≤ hi ∧
      lo ≤ val (c.position a i).position_lots - val (c.position a i).open_sell_lots := by
  have hp := h.ledger.positions a i
  have hb : val (c.position a i).open_buy_lots = d.exposure a i .Buy := by
    rw [Desk.exposure, inFlight_none h.idle, Int.add_zero]
    exact hp.reserved .Buy
  have hs : val (c.position a i).open_sell_lots = d.exposure a i .Sell := by
    rw [Desk.exposure, inFlight_none h.idle, Int.add_zero]
    exact hp.reserved .Sell
  rw [hp.lots, hb, hs]
  exact hw i

/-- Until its limits are changed an account has those of the configuration, and stays within them. -/
def Limited (config : EngineConfig) (a : Fin config.accounts.length) (inputs : List EngineInput)
    (c : TradingCore config.instruments.length config.accounts.length)
    (d : Desk config.instruments.length config.accounts.length) : Prop :=
  (∀ input ∈ inputs, ¬SetsLimits input.event (config.accounts.get a).id) →
    c.accounts[a].id = (config.accounts.get a).id ∧ c.accounts[a].limits = (config.accounts.get a).limits ∧
      d.Within a (-val (config.accounts.get a).limits.max_position_lots)
        (val (config.accounts.get a).limits.max_position_lots)

theorem limited_new (allocator : SlabAllocator) (config : EngineConfig) (a : Fin config.accounts.length) :
    Limited config a [] (TradingCore.new allocator config)
      (.empty (TradingCore.new allocator config).account_index.lookup) := by
  have hpos := (u64_bounds (config.accounts.get a).limits.max_position_lots).1
  have hnew : (TradingCore.new allocator config).accounts[a].id = (config.accounts.get a).id ∧
      (TradingCore.new allocator config).accounts[a].limits = (config.accounts.get a).limits := by
    simp [TradingCore.new, AccountState.new]
  exact fun _ => ⟨hnew.1, hnew.2, within_empty _ a (by omega) hpos⟩

theorem Limited.step {a : Fin config.accounts.length}
    {c c' : TradingCore config.instruments.length config.accounts.length} {input : EngineInput}
    {d d' : Desk config.instruments.length config.accounts.length} {ms : List (Move _ _)}
    (h : Limited config a inputs c d) (hv : View c d) {seq : EngineSeq}
    (happ : Applied c c' d input.event out (c.stampsAt seq)) (hs : Steps c.floor c.ceiling d ms d') :
    Limited config a (inputs ++ [input]) c' d' := by
  intro hl
  obtain ⟨hid, hlim, hw⟩ := h fun x hx => hl x (List.mem_append_left _ hx)
  have hq : ¬SetsLimits input.event c.accounts[a].id := by
    rw [hid]
    exact hl input (List.mem_append_right _ (List.mem_singleton_self _))
  refine ⟨(congrArg (fun w => w.accounts a) happ.wiring).trans hid, (happ.limits a hq).trans hlim, ?_⟩
  -- The limit is at least as wide as what the engine admits under it.
  refine hs.within (wordBounds c) hv.inv ?_ ?_ hw
  · rw [TradingCore.floor, hlim]
    exact le_max_right _ _
  · rw [TradingCore.ceiling, hlim]
    exact min_le_right _ _

/-- Whichever working orders fill, an account whose limits nobody changes stays within its position limit. -/
theorem position_within_limit {allocator : SlabAllocator} {config : EngineConfig} {inputs : List EngineInput}
    {c : TradingCore config.instruments.length config.accounts.length} {outs : List (List OutputEvent)}
    (h : (TradingCore.new allocator config).run inputs = .ok (c, outs)) (hf : c.fault = none)
    (a : Fin config.accounts.length) (hl : ∀ input ∈ inputs, ¬SetsLimits input.event (config.accounts.get a).id)
    (i : Fin config.instruments.length) :
    c.accounts[a].limits = (config.accounts.get a).limits ∧
      val (c.position a i).position_lots + val (c.position a i).open_buy_lots ≤
        val c.accounts[a].limits.max_position_lots ∧
      -val c.accounts[a].limits.max_position_lots ≤
        val (c.position a i).position_lots - val (c.position a i).open_sell_lots ∧
      |val (c.position a i).position_lots| ≤ val c.accounts[a].limits.max_position_lots := by
  obtain ⟨d, hv, hkeep⟩ := run_induction (view_new allocator config) (fun inputs c _ d => Limited config a inputs c d)
    (limited_new allocator config a) (fun ih hv _ happ hd => ih.step hv happ hd.steps) h hf
  obtain ⟨-, hlim, hw⟩ := hkeep hl
  obtain ⟨hbuy, hsell⟩ := within_of_limits hv a hw i
  have h1 := (u64_bounds (c.position a i).open_buy_lots).1
  have h2 := (u64_bounds (c.position a i).open_sell_lots).1
  rw [hlim, abs_le]
  exact ⟨rfl, hbuy, hsell, by omega, by omega⟩

theorem position_within_limit_small :
    ∃ c outs, smallCore.run smallInputs = .ok (c, outs) ∧ c.fault = none ∧
      (∀ input ∈ smallInputs, ¬SetsLimits input.event 2) ∧
      val (c.position ⟨1, by decide⟩ ⟨0, by decide⟩).position_lots = 3 ∧
      val (c.position ⟨1, by decide⟩ ⟨0, by decide⟩).position_lots +
        val (c.position ⟨1, by decide⟩ ⟨0, by decide⟩).open_buy_lots ≤ 50 := by
  have hends : Ends (smallCore.run smallInputs) fun r => r.1.fault = none ∧
      (r.1.position ⟨1, by decide⟩ ⟨0, by decide⟩).position_lots = 3 := by decide +kernel
  obtain ⟨⟨c, outs⟩, hr, hf, hpos⟩ := hends
  have hl : ∀ input ∈ smallInputs, ¬SetsLimits input.event 2 := by
    simp [smallInputs, opening, fed, placed, SetsLimits]
  obtain ⟨hlim, hle, -⟩ := position_within_limit hr hf ⟨1, by decide⟩ hl ⟨0, by decide⟩
  rw [hlim] at hle
  exact ⟨c, outs, hr, hf, hl, by rw [hpos]; rfl, hle⟩

/-! ## Positions and trades -/

/-- What a trade is to the position of an account in an instrument: its signed
quantity for the taker, the opposite for the maker. -/
def TradingCore.traded (c : TradingCore n m) (a : Fin m) (i : Fin n) (trade : TradeEvent) : Int :=
  let signed := match trade.aggressor with
    | .Buy => val trade.quantity
    | .Sell => -val trade.quantity
  if c.instrument_index_of trade.instrument = some i then
    (if c.account_index_of trade.taker_account = some a then signed else 0) -
      (if c.account_index_of trade.maker_account = some a then signed else 0)
  else 0

theorem traded_eq_delta {trade : TradeEvent} {v : Move n m} (h : c.wiring.move_of trade = some v) (a : Fin m)
    (i : Fin n) : c.traded a i trade = v.delta a i := by
  simp only [Wiring.move_of, Option.bind_eq_bind, Option.bind_eq_some_iff, Option.some.injEq] at h
  obtain ⟨j, hj, taker, ht, maker, hm, rfl⟩ := h
  have h1 : c.instrument_index_of trade.instrument = some j := hj
  have h2 : c.account_index_of trade.taker_account = some taker := ht
  have h3 : c.account_index_of trade.maker_account = some maker := hm
  simp only [TradingCore.traded, Move.delta, h1, h2, h3, Option.some.injEq, sign_opposite]
  cases trade.aggressor <;> simp only [Side.sign] <;> split_ifs <;> ring

theorem sum_traded {ms : List (Move n m)} (h : Settles c.wiring out ms) (a : Fin m) (i : Fin n) :
    ((trades out).map (c.traded a i)).sum = (ms.map fun v => v.delta a i).sum := by
  rw [Settles] at h
  generalize trades out = ts at h
  induction ts generalizing ms with
  | nil =>
    rw [List.map_nil, eq_comm, List.map_eq_nil_iff] at h
    rw [h]; rfl
  | cons trade ts ih =>
    cases ms with
    | nil => cases h
    | cons v ms =>
      rw [List.map_cons, List.map_cons, List.cons.injEq] at h
      rw [List.map_cons, List.sum_cons, List.map_cons, List.sum_cons, ih h.2, traded_eq_delta h.1]

theorem sum_deltas (ms : List (Move n m)) (i : Fin n) : ∑ a, (ms.map fun v => v.delta a i).sum = 0 := by
  induction ms with
  | nil => simp
  | cons v ms ih => simp only [List.map_cons, List.sum_cons, Finset.sum_add_distrib, sum_delta, ih, Int.add_zero]

/-- The outputs so far made the positions of the desk. -/
def Booked (w : Wiring n m) (c : TradingCore n m) (outs : List (List OutputEvent)) (d : Desk n m) : Prop :=
  c.wiring = w ∧ ∃ ms, Settles w outs.flatten ms ∧ ∀ a i, d.lots a i = (ms.map fun v => v.delta a i).sum

theorem Booked.step {w : Wiring n m} {d' : Desk n m} {event : InputEvent} {ms : List (Move n m)} (h : Booked w c outs d)
    {seq : EngineSeq} (happ : Applied c c' d event out (c.stampsAt seq)) (hs : Steps c.floor c.ceiling d ms d')
    (hsett : Settles c.wiring out ms) :
    Booked w c' (outs ++ [out]) d' := by
  obtain ⟨rfl, ms₀, hsett₀, hlots⟩ := h
  refine ⟨happ.wiring, ms₀ ++ ms, ?_, fun a i => ?_⟩
  · rw [List.flatten_append, List.flatten_singleton]
    exact hsett₀.append hsett
  · rw [hs.lots, hlots, List.map_append, List.sum_append]

/-- Every position is the signed sum of the account's trades so far, and the positions of an instrument sum to zero. -/
theorem positions_match_trades {allocator : SlabAllocator} {config : EngineConfig} {inputs : List EngineInput}
    {c : TradingCore config.instruments.length config.accounts.length} {outs : List (List OutputEvent)}
    (h : (TradingCore.new allocator config).run inputs = .ok (c, outs)) (hf : c.fault = none)
    (i : Fin config.instruments.length) :
    (∀ a, val (c.position a i).position_lots = ((trades outs.flatten).map (c.traded a i)).sum) ∧
      ∑ a, val (c.position a i).position_lots = 0 := by
  obtain ⟨d, hv, hw, ms, hsett, hlots⟩ := run_induction (view_new allocator config)
    (fun _ c outs d => Booked (TradingCore.new allocator config).wiring c outs d)
    ⟨rfl, [], rfl, fun _ _ => rfl⟩ (fun ih _ _ happ hd => ih.step happ hd.steps hd.settles) h hf
  rw [← hw] at hsett
  have hpos : ∀ a, val (c.position a i).position_lots = (ms.map fun v => v.delta a i).sum := fun a => by
    rw [(hv.ledger.positions a i).lots, hlots]
  refine ⟨fun a => by rw [hpos, sum_traded hsett], ?_⟩
  simp only [hpos]
  exact sum_deltas ms i

theorem positions_match_trades_small :
    ∃ c outs, smallCore.run smallInputs = .ok (c, outs) ∧ c.fault = none ∧ (trades outs.flatten).length = 1 ∧
      ((trades outs.flatten).map (c.traded ⟨0, by decide⟩ ⟨0, by decide⟩)).sum = -3 ∧
      ∑ a, val (c.position a ⟨0, by decide⟩).position_lots = 0 := by
  have hends : Ends (smallCore.run smallInputs) fun r => r.1.fault = none ∧ (trades r.2.flatten).length = 1 ∧
      (r.1.position ⟨0, by decide⟩ ⟨0, by decide⟩).position_lots = -3 := by decide +kernel
  obtain ⟨⟨c, outs⟩, hr, hf, hlen, hpos⟩ := hends
  obtain ⟨hsum, hzero⟩ := positions_match_trades hr hf ⟨0, by decide⟩
  exact ⟨c, outs, hr, hf, hlen, by rw [← hsum, hpos]; rfl, hzero⟩

/-! ## Order indexes -/

/-- The book of the instrument finds the order under its id. -/
def TradingCore.LiveIn (c : TradingCore n m) (i : Fin n) (id : OrderId) (node : OrderNode) : Prop :=
  (c.book i).get id = .ok (some node)

theorem View.mem_of_live (h : View c d) {node : OrderNode} (hl : c.LiveIn i id node) :
    node.toNewOrder ∈ d.book i ∧ node.order_id = id :=
  (h.books i).get_iff hl

theorem View.live_of_mem (h : View c d) {o : NewOrder} (ho : o ∈ d.book i) :
    ∃ node, c.LiveIn i o.order_id node ∧ node.toNewOrder = o :=
  (h.books i).get_ok ho

/-- The three order indexes agree. -/
structure IndexesAgree (c : TradingCore n m) : Prop where
  /-- The keys of `live_orders` are the orders of the books, each in one book only. -/
  key : ∀ id, (∃ live, c.live_orders.lookup id = some live) ↔ ∃! i, ∃ node, c.LiveIn i id node
  /-- An entry leads to the book and the account of its order. -/
  entry : ∀ id live, c.live_orders.lookup id = some live → ∃ node, c.LiveIn live.instrument_index id node ∧
    node.order_id = id ∧ node.account = c.accounts[live.account_index].id
  /-- A client key leads to the live order that carries it. -/
  client : ∀ account client_order_id id, c.client_orders.lookup (account, client_order_id) = some id ↔
    ∃ live node, c.live_orders.lookup id = some live ∧ c.LiveIn live.instrument_index id node ∧
      node.account = account ∧ node.client_order_id = client_order_id
  unique : ∀ i j id id' node node', c.LiveIn i id node → c.LiveIn j id' node' → node.account = node'.account →
    node.client_order_id = node'.client_order_id → id = id'

theorem View.live_orders_of_mem (h : View c d) {o : NewOrder} (ho : o ∈ d.book i) :
    ∃ a, c.live_orders.lookup o.order_id = some ⟨a, i⟩ := by
  obtain ⟨a, ha⟩ := h.inv.owned ho
  exact ⟨a, (h.ledger.orders.live o.order_id ⟨a, i⟩).2 ⟨o.tag, List.mem_map_of_mem ho, rfl, ha⟩⟩

theorem View.mem_of_live_orders (h : View c d) {live : LiveOrder n m} (hl : c.live_orders.lookup id = some live) :
    ∃ o ∈ d.book live.instrument_index, o.order_id = id ∧ o.account = c.accounts[live.account_index].id := by
  obtain ⟨t, ht, hid, hown⟩ := (h.ledger.orders.live id live).1 hl
  obtain ⟨o, ho, rfl⟩ := List.mem_map.1 ht
  refine ⟨o, ho, hid, (h.wired.account ?_).symm⟩
  rw [h.ledger.owner]
  exact hown

theorem View.indexes_agree (h : View c d) : IndexesAgree c where
  key id := by
    constructor
    · rintro ⟨live, hl⟩
      obtain ⟨o, ho, rfl, -⟩ := h.mem_of_live_orders hl
      obtain ⟨node, hn, -⟩ := h.live_of_mem ho
      refine ⟨live.instrument_index, ⟨node, hn⟩, ?_⟩
      rintro j ⟨node', hn'⟩
      obtain ⟨hm, hid⟩ := h.mem_of_live hn'
      exact h.inv.apart hm ho hid
    · rintro ⟨i, ⟨node, hn⟩, -⟩
      obtain ⟨hm, rfl⟩ := h.mem_of_live hn
      obtain ⟨a, ha⟩ := h.live_orders_of_mem hm
      exact ⟨_, ha⟩
  entry id live hl := by
    obtain ⟨o, ho, rfl, hacc⟩ := h.mem_of_live_orders hl
    obtain ⟨node, hn, rfl⟩ := h.live_of_mem ho
    exact ⟨node, hn, rfl, hacc⟩
  client account client_order_id id := by
    rw [h.ledger.orders.client]
    constructor
    · rintro ⟨i, t, ht, hk, rfl⟩
      obtain ⟨o, ho, rfl⟩ := List.mem_map.1 ht
      obtain ⟨a, ha⟩ := h.live_orders_of_mem ho
      obtain ⟨node, hn, rfl⟩ := h.live_of_mem ho
      rw [Prod.mk.injEq] at hk
      exact ⟨_, node, ha, hn, hk.1, hk.2⟩
    · rintro ⟨live, node, -, hn, rfl, rfl⟩
      obtain ⟨hm, rfl⟩ := h.mem_of_live hn
      exact ⟨_, _, List.mem_map_of_mem hm, rfl, rfl⟩
  unique i j id id' node node' hn hn' ha hc := by
    obtain ⟨hm, rfl⟩ := h.mem_of_live hn
    obtain ⟨hm', rfl⟩ := h.mem_of_live hn'
    exact h.inv.keys hm hm' ha hc

theorem View.evolves (h : View c d) (hr : c.run inputs = .ok (c', outs)) (hf : c'.fault = none) :
    ∃ d', View c' d' ∧ Evolves d d' :=
  run_induction h (fun _ _ _ d' => Evolves d d') (.refl d)
    (fun ih hv _ _ hd => ih.trans (hd.steps.evolves (wordBounds _) hv.inv)) hr hf

/-- An id that was issued before names no other order later. -/
theorem View.never_reused (h : View c d) (hr : c.run inputs = .ok (c', outs)) (hf : c'.fault = none) {node' : OrderNode}
    (hid : val id ≤ val c.next_order_id) (hl : c'.LiveIn i id node') :
    ∃ node, c.LiveIn i id node ∧ node.account = node'.account ∧ node.client_order_id = node'.client_order_id ∧
      node.side = node'.side := by
  obtain ⟨d', hv', hev⟩ := h.evolves hr hf
  obtain ⟨hm', rfl⟩ := hv'.mem_of_live hl
  rcases hev.known i node'.toNewOrder.tag (.inl ⟨_, hm', rfl⟩) with
    (⟨o, ho, ht⟩ | ⟨f, hfl, -⟩) | hlt
  · obtain ⟨node, hn, rfl⟩ := h.live_of_mem ho
    obtain ⟨h1, h2, h3, h4⟩ := tag_eq_iff.1 ht
    exact ⟨node, h1 ▸ hn, h2, h3, h4⟩
  · rw [h.idle] at hfl; cases hfl
  · rw [h.ledger.order_id] at hid
    exact absurd hid (Int.not_le.2 hlt)

/-- In every state the order indexes agree, every live order has an issued id,
and an issued id never names another order in any later state. -/
theorem order_indexes_agree {allocator : SlabAllocator} {config : EngineConfig} {inputs : List EngineInput}
    {c : TradingCore config.instruments.length config.accounts.length} {outs : List (List OutputEvent)}
    (h : (TradingCore.new allocator config).run inputs = .ok (c, outs)) (hf : c.fault = none) :
    IndexesAgree c ∧
    (∀ i id node, c.LiveIn i id node → val id ≤ val c.next_order_id) ∧
    ∀ later c' outs', c.run later = .ok (c', outs') → c'.fault = none → val c.next_order_id ≤ val c'.next_order_id ∧
      ∀ i id node', val id ≤ val c.next_order_id → c'.LiveIn i id node' →
        ∃ node, c.LiveIn i id node ∧ node.account = node'.account ∧
          node.client_order_id = node'.client_order_id ∧ node.side = node'.side := by
  obtain ⟨d, hv⟩ := run_view h hf
  refine ⟨hv.indexes_agree, fun i id node hl => ?_, fun later c' outs' hr hf' => ⟨?_, ?_⟩⟩
  · obtain ⟨hm, rfl⟩ := hv.mem_of_live hl
    rw [hv.ledger.order_id]
    exact hv.inv.issued hm
  · obtain ⟨d', hv', hev⟩ := hv.evolves hr hf'
    rw [hv.ledger.order_id, hv'.ledger.order_id]
    exact hev.issued
  · exact fun i id node' hid hl => hv.never_reused hr hf' hid hl

theorem order_indexes_agree_small :
    ∃ c outs c' outs', smallCore.run smallInputs = .ok (c, outs) ∧ c.fault = none ∧
      c.run [placed 1 2 .Sell 99 4] = .ok (c', outs') ∧ c'.fault = none ∧ IndexesAgree c ∧
      c.next_order_id = 3 ∧ c.live_orders.keys.card = 2 ∧ c'.live_orders.keys.card = 1 ∧
      ∀ node', c'.LiveIn ⟨0, by decide⟩ 1 node' → ∃ node, c.LiveIn ⟨0, by decide⟩ 1 node ∧ node.account = node'.account := by
  have hends : Ends (smallCore.run smallInputs) fun r => r.1.fault = none ∧ r.1.next_order_id = 3 ∧
      r.1.live_orders.keys.card = 2 ∧ Ends (r.1.run [placed 1 2 .Sell 99 4]) fun r' => r'.1.fault = none ∧
        r'.1.live_orders.keys.card = 1 := by decide +kernel
  obtain ⟨⟨c, outs⟩, hr, hf, hnext, hlen, ⟨c', outs'⟩, hr', hf', hlen'⟩ := hends
  obtain ⟨hagree, -, hreuse⟩ := order_indexes_agree hr hf
  refine ⟨c, outs, c', outs', hr, hf, hr', hf', hagree, hnext, hlen, hlen', fun node' hl => ?_⟩
  obtain ⟨node, hn, ha, -⟩ := (hreuse _ _ _ hr' hf').2 _ _ _ (by rw [hnext]; decide) hl
  exact ⟨node, hn, ha⟩

end Invariants

end TradingLab
