import TradingLab.Replaces
/-!
# Gross exposure

`check_exposure` values a position at the mark and a working order at its own limit price, and compares the sum
with the gross limit of the account. An order priced below the mark is worth more once it has filled than what is
reserved for it. So the check does not bound what the account is worth whatever fills; it bounds it up to what the
orders are priced below the mark.
-/
open LabLib

namespace TradingLab

section Exposure
variable {n m : Nat} {c c' : TradingCore n m} {d d' : Desk n m} {a : Fin m} {i : Fin n}
variable {request : OrderRequest} {out : List OutputEvent} {l l' : List NewOrder} {fills : List Fill}
  {g : PriceTicks → Int} {ms : List (Move n m)} {order_id : OrderId} {side : Side} {limit : PriceTicks}
  {w : Wiring n m}

/-! ## What an account is worth when orders fill -/

namespace TradingCore

/-- What a lot counts for: the size of the reference price, nothing without one. -/
def mark (c : TradingCore n m) (i : Fin n) : Int :=
  match c.instruments[i].market.reference_price with
  | some price => |val price|
  | none => 0

/-- The working orders of an account in an instrument. -/
def working_orders (c : TradingCore n m) (a : Fin m) (i : Fin n) : Eval (List OrderNode) := do
  let nodes ← (c.book i).resting
  pure (nodes.filter fun node => c.account_index_of node.account = some a)

/-- The position of an account in an instrument once its working orders have filled by these quantities. -/
def lots_after (c : TradingCore n m) (a : Fin m) (fills : Fin n → OrderNode → QuantityLots) (i : Fin n) : Eval Int := do
  let nodes ← c.working_orders a i
  pure (val (c.position a i).position_lots + (nodes.map fun node => node.side.sign * val (fills i node)).sum)

/-- No working order of the account fills with more than what is left of it. -/
def Fillable (c : TradingCore n m) (a : Fin m) (fills : Fin n → OrderNode → QuantityLots) : Prop :=
  ∀ i nodes, c.working_orders a i = .ok nodes → ∀ node ∈ nodes,
    ∃ remaining, node.remaining = .ok remaining ∧ val (fills i node) ≤ val remaining

/-- Whichever working orders of the account fill, and by whatever part, its positions at the present marks stay
within its gross limit. -/
def Covered (c : TradingCore n m) (a : Fin m) : Prop :=
  ∀ fills, c.Fillable a fills → ∃ lots : Fin n → Int, (∀ i, c.lots_after a fills i = .ok (lots i)) ∧
    ∑ i, |lots i| * c.mark i ≤ val c.accounts[a].limits.max_gross_exposure

/-- The same from the records: in each instrument the side fills that takes the position further from zero. -/
def worst_exposure (c : TradingCore n m) (a : Fin m) : Int :=
  ∑ i, max |val (c.position a i).position_lots - val (c.position a i).open_sell_lots|
    |val (c.position a i).position_lots + val (c.position a i).open_buy_lots| * c.mark i

/-- No working order of the account is priced below the mark, in size. -/
def AtMark (c : TradingCore n m) (a : Fin m) : Prop :=
  ∀ i, Ends (c.working_orders a i) fun nodes => ∀ node ∈ nodes, c.mark i ≤ |val node.price|

/-- What the working orders on a side are reserved below the mark. -/
def shortfall (c : TradingCore n m) (a : Fin m) (i : Fin n) (side : Side) : Eval Int :=
  c.open_sum a i side fun node => max 0 (c.mark i - |val node.price|)

end TradingCore

theorem mark_nonneg (c : TradingCore n m) (i : Fin n) : 0 ≤ c.mark i := by
  rw [TradingCore.mark]
  split
  · exact abs_nonneg _
  · exact le_rfl

/-! ## The worst case -/

/-- The working orders, and what they have reserved. -/
theorem working_orders_eq (h : View c d) (a : Fin m) (i : Fin n) : ∃ nodes, c.working_orders a i = .ok nodes ∧
    (∀ node ∈ nodes, node.remaining = .ok node.toNewOrder.left) ∧
    ∀ side, val ((c.position a i).open_lots side) =
      (nodes.map fun node => if node.side = side then val node.toNewOrder.left else 0).sum := by
  obtain ⟨nodes, hn, hperm⟩ := (h.books i).resting_perm
  have hown : ∀ x, c.account_index_of x = d.owner x := h.ledger.owner
  refine ⟨nodes.filter fun node => c.account_index_of node.account = some a, ?_, fun node hm => ?_, fun side => ?_⟩
  · rw [TradingCore.working_orders, hn]
    rfl
  · have hmem : node.toNewOrder ∈ d.book i := hperm.subset (List.mem_map_of_mem (List.mem_of_mem_filter hm))
    exact OrderNode.remaining_eq (h.inv.working hmem).1
  · rw [(h.ledger.positions a i).reserved, Desk.reserved, weighed, ← (hperm.map _).sum_eq, List.map_map]
    simp only [hown]
    clear hn hperm
    induction nodes with
    | nil => rfl
    | cons node nodes ih =>
      rw [List.map_cons, List.sum_cons, ih, List.filter_cons]
      by_cases ho : d.owner node.account = some a <;> by_cases hs : node.side = side <;> simp [share, ho, hs]

/-- Fills on both sides leave the position between all sells and all buys. -/
theorem signed_sum_bounds {nodes : List OrderNode} {q r : OrderNode → Int} (h : ∀ x ∈ nodes, 0 ≤ q x ∧ q x ≤ r x) :
    -(nodes.map fun x => if x.side = .Sell then r x else 0).sum ≤ (nodes.map fun x => x.side.sign * q x).sum ∧
      (nodes.map fun x => x.side.sign * q x).sum ≤ (nodes.map fun x => if x.side = .Buy then r x else 0).sum := by
  induction nodes with
  | nil => exact ⟨le_rfl, le_rfl⟩
  | cons x nodes ih =>
    obtain ⟨h1, h2⟩ := ih fun y hy => h y (List.mem_cons_of_mem _ hy)
    obtain ⟨h0, hr⟩ := h x List.mem_cons_self
    have hx : -(if x.side = .Sell then r x else 0) ≤ x.side.sign * q x ∧
        x.side.sign * q x ≤ if x.side = .Buy then r x else 0 := by
      cases x.side <;> simp only [Side.sign, reduceCtorEq, if_true, if_false] <;> omega
    simp only [List.map_cons, List.sum_cons]
    omega

/-- Filling one side only. -/
theorem signed_sum_side (nodes : List OrderNode) (r : OrderNode → Int) (side : Side) :
    (nodes.map fun x => x.side.sign * if x.side = side then r x else 0).sum =
      side.sign * (nodes.map fun x => if x.side = side then r x else 0).sum := by
  rw [← List.sum_map_mul_left]
  congr 1
  refine List.map_congr_left fun x _ => ?_
  by_cases hs : x.side = side
  · rw [if_pos hs, hs]
  · rw [if_neg hs, Int.mul_zero, Int.mul_zero]

theorem covered_iff (h : View c d) (a : Fin m) :
    c.Covered a ↔ c.worst_exposure a ≤ val c.accounts[a].limits.max_gross_exposure := by
  choose nodes hn hrem hopen using working_orders_eq h a
  have hbuy : ∀ i, val (c.position a i).open_buy_lots = _ := fun i => hopen i .Buy
  have hsell : ∀ i, val (c.position a i).open_sell_lots = _ := fun i => hopen i .Sell
  have hafter : ∀ fills i, c.lots_after a fills i = .ok (val (c.position a i).position_lots +
      ((nodes i).map fun node => node.side.sign * val (fills i node)).sum) := by
    intro fills i
    rw [TradingCore.lots_after, hn]
    rfl
  constructor
  · -- In each instrument the side fills that is worth more.
    intro hc
    let best : Fin n → Side := fun i =>
      if |val (c.position a i).position_lots - val (c.position a i).open_sell_lots| ≤
        |val (c.position a i).position_lots + val (c.position a i).open_buy_lots| then .Buy else .Sell
    obtain ⟨lots, hl, hle⟩ := hc (fun i node => if node.side = best i then node.toNewOrder.left else 0) (by
      intro i nodes' hn' node hm
      rw [hn] at hn'
      cases hn'
      refine ⟨_, hrem i node hm, ?_⟩
      dsimp only
      split
      · exact le_rfl
      · exact (u64_bounds _).1)
    refine le_trans (Finset.sum_le_sum fun i _ => ?_) hle
    refine Int.mul_le_mul_of_nonneg_right (le_of_eq ?_) (mark_nonneg c i)
    have hlots := Except.ok.inj ((hafter _ i).symm.trans (hl i))
    have hside : ∀ node : OrderNode, val (if node.side = best i then node.toNewOrder.left else 0) =
        if node.side = best i then val node.toNewOrder.left else 0 := fun node => by split <;> rfl
    simp only [hside] at hlots
    rw [signed_sum_side, ← hopen] at hlots
    rw [← hlots]
    by_cases hb : |val (c.position a i).position_lots - val (c.position a i).open_sell_lots| ≤
        |val (c.position a i).position_lots + val (c.position a i).open_buy_lots|
    · rw [max_eq_right hb, show best i = .Buy from if_pos hb, Side.sign, Int.one_mul]
      rfl
    · rw [max_eq_left (not_le.1 hb).le, show best i = .Sell from if_neg hb, Side.sign, Int.neg_mul, Int.one_mul,
        ← Int.sub_eq_add_neg]
      rfl
  · intro hw fills hf
    refine ⟨_, hafter fills, le_trans (Finset.sum_le_sum fun i _ => ?_) hw⟩
    have hq : ∀ node ∈ nodes i, 0 ≤ val (fills i node) ∧ val (fills i node) ≤ val node.toNewOrder.left := by
      intro node hm
      obtain ⟨remaining, hr, hle⟩ := hf i _ (hn i) node hm
      rw [hrem i node hm] at hr
      cases hr
      exact ⟨(u64_bounds _).1, hle⟩
    obtain ⟨h1, h2⟩ := signed_sum_bounds hq
    rw [← hsell] at h1
    rw [← hbuy] at h2
    exact Int.mul_le_mul_of_nonneg_right (abs_le_max_abs_abs (by omega) (by omega)) (mark_nonneg c i)

/-! ## What the check establishes -/

/-- The value of a record: its position at the mark and its reservations. -/
def InstrumentPosition.value (p : InstrumentPosition) (mark : Int) : Int :=
  |val p.position_lots| * mark + (val p.open_buy_notional + val p.open_sell_notional)

theorem project_value {current p : InstrumentPosition} {s : Side} {added replaced : QuantityLots} {av rv : Notional}
    (h : Passes (project current s added av replaced rv) p) (mark : Int) :
    p.value mark = current.value mark - val rv + val av := by
  cases s with
  | Buy =>
    simp only [project, passes_bind, passes_ok_or, passes_pure, Option.bind_eq_some_iff, checked_sub_eq_some,
      checked_add_eq_some] at h
    obtain ⟨lots, -, y, ⟨x, hx, hy⟩, rfl⟩ := h
    simp only [InstrumentPosition.value]; omega
  | Sell =>
    simp only [project, passes_bind, passes_ok_or, passes_pure, Option.bind_eq_some_iff, checked_sub_eq_some,
      checked_add_eq_some] at h
    obtain ⟨lots, -, y, ⟨x, hx, hy⟩, rfl⟩ := h
    simp only [InstrumentPosition.value]; omega

theorem instrument_exposure_eq {p : InstrumentPosition} {mark : PriceTicks} {v : Notional}
    (h : instrument_exposure p mark = some v) : val v = p.value |val mark| := by
  simp only [instrument_exposure, Option.bind_eq_bind, Option.bind_eq_some_iff, Machine.ofInt?_eq_some,
    checked_add_eq_some] at h
  obtain ⟨x, hx, y, hy, hv⟩ := h
  rw [InstrumentPosition.value, ← hx]; omega

/-- The record that one pass of the loop looks at. -/
def TradingCore.looked_at (c : TradingCore n m) (a : Fin m) (i : Fin n) (projected : InstrumentPosition) (j : Fin n) :
    InstrumentPosition := if j = i then projected else c.position a j

theorem add_exposure_passes {projected : InstrumentPosition} {gross gross' : Notional} {j : Fin n}
    (h : Passes (c.add_exposure a i projected gross j) gross') :
    val gross' = val gross + (c.looked_at a i projected j).value (c.mark j) := by
  rw [TradingCore.looked_at]
  rw [TradingCore.add_exposure] at h
  generalize (if j = i then projected else c.position a j) = p at h ⊢
  split at h
  · rename_i hz
    have hlots : val (0 : Int64) = 0 := rfl
    have hnone : val (0 : U128) = 0 := rfl
    rw [passes_pure] at h
    rw [InstrumentPosition.value, hz.1, hz.2.1, hz.2.2, h, hlots, hnone, abs_zero, Int.zero_mul]
    omega
  · simp only [passes_bind, passes_ok_or, checked_add_eq_some] at h
    obtain ⟨mark, hm, v, hv, hg⟩ := h
    rw [hg, instrument_exposure_eq hv, TradingCore.mark]
    rw [TradingCore.mark_price] at hm
    cases hr : c.instruments[j].market.reference_price with
    | some price =>
      rw [hr, passes_pure] at hm
      rw [hm]
    | none =>
      rw [hr] at hm
      dsimp only at hm
      split at hm
      · rename_i hp
        simp [InstrumentPosition.value, hp]
      · rw [passes_throw] at hm
        exact hm.elim

theorem gross_exposure_passes {projected : InstrumentPosition} {l : List (Fin n)} {gross gross' : Notional}
    (h : Passes (l.foldlM (c.add_exposure a i projected) gross) gross') :
    val gross' = val gross + (l.map fun j => (c.looked_at a i projected j).value (c.mark j)).sum := by
  induction l generalizing gross with
  | nil =>
    rw [List.foldlM_nil, passes_pure] at h
    rw [h]
    simp
  | cons j l ih =>
    rw [List.foldlM_cons, passes_bind] at h
    obtain ⟨g, hg, h⟩ := h
    rw [ih h, add_exposure_passes hg, List.map_cons, List.sum_cons, Int.add_assoc]

/-- The records of an account, with the added order at its price and without the replaced one, are within the limit. -/
theorem check_exposure_value {added replaced : QuantityLots} {price replaced_price : PriceTicks}
    (h : Passes (c.check_exposure a i side added price replaced replaced_price) ()) :
    ∑ j, (c.position a j).value (c.mark j) - val replaced * |val replaced_price| + val added * |val price| ≤
      val c.accounts[a].limits.max_gross_exposure := by
  simp only [TradingCore.check_exposure, passes_bind, passes_ok_or, passes_reject_if] at h
  obtain ⟨rv, hrv, av, hav, p, hproj, _, -, _, -, gross, hgross, hle⟩ := h
  obtain ⟨rv', hrv', hrvv⟩ := checked_notional_eq replaced replaced_price
  obtain ⟨av', hav', havv⟩ := checked_notional_eq added price
  rw [hrv] at hrv'
  rw [hav] at hav'
  cases hrv'
  cases hav'
  have hsum := gross_exposure_passes hgross
  have hone : ∀ j, (c.looked_at a i p j).value (c.mark j) =
      (c.position a j).value (c.mark j) + if j = i then val av - val rv else 0 := by
    intro j
    rw [TradingCore.looked_at]
    split
    · rename_i hj
      rw [hj, project_value hproj]
      omega
    · omega
  rw [← List.ofFn_eq_map, List.sum_ofFn, Finset.sum_congr rfl fun j _ => hone j, Finset.sum_add_distrib,
    Finset.sum_ite_eq' Finset.univ i, if_pos (Finset.mem_univ i)] at hsum
  rw [gt_iff_lt, u128_lt, not_lt, hsum] at hle
  rw [← hrvv, ← havv]
  have h0 : val (0 : Notional) = 0 := rfl
  omega

/-! ## From the check to the state after the request -/

/-- A weight of the price for the orders of the account. -/
def owned (owner : AccountId → Option (Fin m)) (a : Fin m) (g : PriceTicks → Int) (o : NewOrder) : Int :=
  if owner o.account = some a then g o.price else 0

/-- What a lot at this price is reserved below the mark. -/
def below (mark : Int) (price : PriceTicks) : Int := max 0 (mark - |val price|)

theorem below_nonneg (mark : Int) (price : PriceTicks) : 0 ≤ below mark price := le_max_left _ _

theorem owned_nonneg (owner : AccountId → Option (Fin m)) (a : Fin m) (hg : ∀ p, 0 ≤ g p) (o : NewOrder) :
    0 ≤ owned owner a g o := by
  rw [owned]
  split
  · exact hg _
  · exact le_rfl

theorem owned_le (owner : AccountId → Option (Fin m)) (a : Fin m) (hg : ∀ p, 0 ≤ g p) (o : NewOrder) :
    owned owner a g o ≤ g o.price := by
  rw [owned]
  split
  · exact le_rfl
  · exact hg _

theorem Draws.owned {o : NewOrder} {q : Int} (h : Draws l o q l') (owner : AccountId → Option (Fin m)) (a : Fin m)
    (g : PriceTicks → Int) :
    weighed (owned owner a g) l' = weighed (owned owner a g) l - q * owned owner a g o :=
  h fun account _ price => if owner account = some a then g price else 0

/-- Both sides together. -/
theorem weighed_sides (owner : AccountId → Option (Fin m)) (a : Fin m) (l : List NewOrder) (g : PriceTicks → Int) :
    weighed (fun o => share owner a .Buy o * g o.price) l + weighed (fun o => share owner a .Sell o * g o.price) l =
      weighed (owned owner a g) l := by
  rw [weighed, weighed, weighed, ← List.sum_map_add]
  congr 1
  refine List.map_congr_left fun o _ => ?_
  by_cases ho : owner o.account = some a <;> cases hs : o.side <;> simp [owned, share, ho, hs]

theorem value_eq (h : Positions c d) (a : Fin m) (j : Fin n) (mark : Int) :
    (c.position a j).value mark = |d.lots a j| * mark + weighed (owned d.owner a fun price => |val price|) (d.book j) := by
  have hP := h a j
  have hbuy := hP.notional .Buy
  have hsell := hP.notional .Sell
  simp only [InstrumentPosition.open_notional, Desk.notional] at hbuy hsell
  rw [InstrumentPosition.value, hP.lots, hbuy, hsell, ← weighed_sides]

theorem Holds.perm {b : OrderBook} (h : Holds b l) (h' : Holds b l') : l.Perm l' := by
  obtain ⟨nodes, hn, hp⟩ := h.resting_perm
  obtain ⟨nodes', hn', hp'⟩ := h'.resting_perm
  rw [hn] at hn'
  cases hn'
  exact hp.symm.trans hp'

theorem Holds.weighed_eq {b : OrderBook} (h : Holds b l) (h' : Holds b l') (g : NewOrder → Int) :
    weighed g l = weighed g l' :=
  ((h.perm h').map _).sum_eq

/-- Fills only lower what resting orders weigh. -/
theorem Fills.weighed_le {s : Side} {r r' : UInt64} (h : Fills s limit l r fills l' r')
    (hn : (l.map NewOrder.order_id).Nodup) (hs : ∀ o ∈ l, o.Sound) (owner : AccountId → Option (Fin m)) (a : Fin m)
    (hg : ∀ p, 0 ≤ g p) :
    weighed (owned owner a g) l' ≤ weighed (owned owner a g) l := by
  induction h with
  | nil => exact le_rfl
  | @cons l r o fs l' r' _ hnext _ _ ih =>
    have ht : val (min r o.left) ≤ val o.left := by
      have := u64_min r o.left
      omega
    have hdraws := (draws_afterFill hn hnext.mem.1 (hs o hnext.mem.1) ht).owned owner a g
    have h0 := Int.mul_nonneg (u64_bounds (min r o.left)).1 (owned_nonneg owner a hg o)
    have := ih (ids_afterFill hn _ _) (sound_afterFill hn hs hnext.mem.1 ht)
    omega

/-- The trades are for at most what was filled. -/
theorem Traded.sum_le {instrument : InstrumentId} {trade_id : TradeId}
    (h : Traded instrument trade_id request order_id side fills out) :
    ((trades out).map fun trade => val trade.quantity).sum ≤ (fills.map fun fill => val fill.quantity).sum := by
  obtain ⟨settled, ⟨rest, rfl⟩, htrades, -⟩ := h
  have hq : (trades out).map (fun trade => val trade.quantity) = settled.map fun fill => val fill.quantity := by
    have := congrArg (List.map fun trade => val trade.quantity) htrades
    rwa [List.map_map, List.map_map] at this
  have hrest : 0 ≤ (rest.map fun fill => val fill.quantity).sum := sum_nonneg_of fun fill _ => (u64_bounds _).1
  rw [hq, List.map_append, List.sum_append]
  omega

/-- The lots that change hands. -/
def lots_traded (out : List OutputEvent) : Int := ((trades out).map fun trade => val trade.quantity).sum

/-- What the trades of a request do to the positions of its account. -/
structure Moved (d d' : Desk n m) (a : Fin m) (i : Fin n) (lots : Int) : Prop where
  here : |d'.lots a i| ≤ |d.lots a i| + lots
  elsewhere : ∀ j, j ≠ i → d'.lots a j = d.lots a j

theorem sum_delta_le (h : ∀ v ∈ ms, v.instrument = i ∧ v.taker = a) :
    |(ms.map fun v => v.delta a i).sum| ≤ (ms.map fun v => val v.quantity).sum ∧
      ∀ j, j ≠ i → (ms.map fun v => v.delta a j).sum = 0 := by
  induction ms with
  | nil => exact ⟨le_rfl, fun _ _ => rfl⟩
  | cons v ms ih =>
    obtain ⟨ih1, ih2⟩ := ih fun w hw => h w (List.mem_cons_of_mem _ hw)
    obtain ⟨hi, ha⟩ := h v List.mem_cons_self
    have hq := (u64_bounds v.quantity).1
    have hv : |v.delta a i| ≤ val v.quantity := by
      -- A trade of the account with itself leaves its position.
      rw [Move.delta, if_pos hi, if_pos ha, abs_le]
      cases v.aggressor <;> simp only [Side.opposite, Side.sign] <;> split <;> omega
    refine ⟨?_, fun j hj => ?_⟩
    · rw [List.map_cons, List.sum_cons, List.map_cons, List.sum_cons]
      exact (abs_add_le _ _).trans (add_le_add hv ih1)
    · rw [List.map_cons, List.sum_cons, ih2 j hj, Move.delta, if_neg fun he => hj (he.symm.trans hi)]
      rfl

theorem move_of_fields {trade : TradeEvent} {v : Move n m} (h : w.move_of trade = some v) :
    w.instrument_index.lookup trade.instrument = some v.instrument ∧
      w.account_index.lookup trade.taker_account = some v.taker ∧ v.quantity = trade.quantity := by
  simp only [Wiring.move_of, Option.bind_eq_bind, Option.bind_eq_some_iff, Option.some.injEq] at h
  obtain ⟨i, hi, taker, ht, _, -, rfl⟩ := h
  exact ⟨hi, ht, rfl⟩

theorem move_quantities {l : List TradeEvent} (h : l.map w.move_of = ms.map some) :
    (ms.map fun v => val v.quantity) = l.map fun trade => val trade.quantity := by
  induction l generalizing ms with
  | nil =>
    rw [List.map_eq_nil_iff.1 h.symm]
    rfl
  | cons trade l ih =>
    cases ms with
    | nil => cases h
    | cons v ms =>
      obtain ⟨hv, hrest⟩ := List.cons.inj h
      rw [List.map_cons, List.map_cons, ih hrest, (move_of_fields hv).2.2]

theorem moved_of_steps {lo hi : Fin m → Int} (hs : Steps lo hi d ms d') (hsett : Settles c.wiring out ms)
    (hi : c.instrument_index.lookup request.instrument = some i) (ha : c.account_index.lookup request.account = some a)
    (ht : ∀ trade ∈ trades out, trade.instrument = request.instrument ∧ trade.taker_account = request.account) :
    Moved d d' a i (lots_traded out) := by
  have hplace : ∀ v ∈ ms, v.instrument = i ∧ v.taker = a := by
    intro v hv
    have hm : some v ∈ (trades out).map c.wiring.move_of := by
      rw [hsett]
      exact List.mem_map_of_mem hv
    obtain ⟨trade, htrade, hmove⟩ := List.mem_map.1 hm
    obtain ⟨h1, h2⟩ := ht trade htrade
    obtain ⟨hi', ha', -⟩ := move_of_fields hmove
    rw [h1] at hi'
    rw [h2] at ha'
    exact ⟨Option.some.inj (hi'.symm.trans hi), Option.some.inj (ha'.symm.trans ha)⟩
  have hsum : (ms.map fun v => val v.quantity).sum = lots_traded out := congrArg List.sum (move_quantities hsett)
  obtain ⟨h1, h2⟩ := sum_delta_le hplace
  refine ⟨?_, fun j hj => ?_⟩
  · rw [hs.lots, ← hsum]
    exact (abs_add_le _ _).trans (Int.add_le_add_left h1 _)
  · rw [hs.lots, h2 j hj, Int.add_zero]

/-- What a request that passed the check did to the orders and the position of its account. It traded `lots`, left at
most `rest` lots at its limit in the book, and took `freed` lots at another price out of it. -/
structure Restocked (c : TradingCore n m) (d d' : Desk n m) (a : Fin m) (i : Fin n) (limit price : PriceTicks)
    (lots rest added freed : Int) : Prop where
  moved : Moved d d' a i lots
  here : ∀ {g : PriceTicks → Int}, (∀ p, 0 ≤ g p) → weighed (owned d.owner a g) (d'.book i) ≤
    weighed (owned d.owner a g) (d.book i) - freed * g price + rest * g limit
  elsewhere : ∀ (g : PriceTicks → Int) j, j ≠ i →
    weighed (owned d.owner a g) (d'.book j) = weighed (owned d.owner a g) (d.book j)
  lots_nonneg : 0 ≤ lots
  freed_nonneg : 0 ≤ freed
  within : lots + rest ≤ added
  checked : ∑ j, (c.position a j).value (c.mark j) - freed * |val price| + added * |val limit| ≤
    val c.accounts[a].limits.max_gross_exposure

section Restocked
variable {limit price : PriceTicks} {lots rest added freed : Int}

/-- A sum over the instruments that changes in one of them. -/
theorem sum_le_at {f g : Fin n → Int} {more : Int} (here : f i ≤ g i + more) (elsewhere : ∀ j, j ≠ i → f j = g j) :
    ∑ j, f j ≤ ∑ j, g j + more := by
  have hone : ∀ j, f j ≤ g j + if j = i then more else 0 := by
    intro j
    split
    · rename_i hj
      rw [hj]
      exact here
    · rename_i hj
      rw [elsewhere j hj, Int.add_zero]
  have hsum := Finset.sum_le_sum fun j (_ : j ∈ Finset.univ) => hone j
  rwa [Finset.sum_add_distrib, Finset.sum_ite_eq' Finset.univ i, if_pos (Finset.mem_univ i)] at hsum

/-- The records are within the limit, up to what the trades were reserved below the mark. -/
theorem Restocked.value_le (h : Restocked c d d' a i limit price lots rest added freed) (hp : Positions c d)
    (hp' : Positions c' d') (howner : d'.owner = d.owner) :
    ∑ j, (c'.position a j).value (c.mark j) ≤
      val c.accounts[a].limits.max_gross_exposure + lots * below (c.mark i) limit := by
  have hsum : ∑ j, (c'.position a j).value (c.mark j) ≤ ∑ j, (c.position a j).value (c.mark j) +
      (lots * c.mark i - freed * |val price| + rest * |val limit|) := by
    refine sum_le_at (i := i) ?_ fun j hj => ?_
    · have hlots := Int.mul_le_mul_of_nonneg_right h.moved.here (mark_nonneg c i)
      have hbook := h.here (g := fun price => |val price|) fun p => abs_nonneg _
      rw [Int.add_mul] at hlots
      rw [value_eq hp', value_eq hp, howner]
      omega
    · rw [value_eq hp', value_eq hp, howner, h.elsewhere _ j hj, h.moved.elsewhere j hj]
  have hrest : rest * |val limit| ≤ (added - lots) * |val limit| :=
    Int.mul_le_mul_of_nonneg_right (by have := h.within; omega) (abs_nonneg _)
  have htraded : lots * c.mark i ≤ lots * (|val limit| + below (c.mark i) limit) :=
    Int.mul_le_mul_of_nonneg_left (by rw [below]; omega) h.lots_nonneg
  have hchecked := h.checked
  rw [Int.sub_mul] at hrest
  rw [Int.mul_add] at htraded
  omega

/-- What is reserved below the mark grows by the lots that come to rest at the limit. -/
theorem Restocked.below_le (h : Restocked c d d' a i limit price lots rest added freed) (mark : Fin n → Int) :
    ∑ j, weighed (owned d.owner a (below (mark j))) (d'.book j) ≤
      ∑ j, weighed (owned d.owner a (below (mark j))) (d.book j) + rest * below (mark i) limit := by
  refine sum_le_at (i := i) ?_ fun j hj => h.elsewhere _ j hj
  have hhere := h.here (below_nonneg (mark i))
  have hfreed := Int.mul_nonneg h.freed_nonneg (below_nonneg (mark i) price)
  omega

end Restocked

theorem Shelved.weighed_here {l : List NewOrder} (h : Shelved c c' i l) (hv' : View c' d') (g : NewOrder → Int) :
    weighed g (d'.book i) = weighed g l :=
  (hv'.books i).weighed_eq h.holds g

theorem Shelved.weighed_elsewhere {l : List NewOrder} (h : Shelved c c' i l) (hv : View c d) (hv' : View c' d')
    (g : NewOrder → Int) {j : Fin n} (hj : j ≠ i) : weighed g (d'.book j) = weighed g (d.book j) := by
  refine (hv'.books j).weighed_eq ?_ g
  rw [h.others j hj]
  exact hv.books j

/-- An order that went through matching leaves at most its remainder at its limit in the book. -/
theorem Matched.weighed_le {client_order_id : ClientOrderId} {quantity r' : QuantityLots}
    (h : Matched c c' i request order_id client_order_id side limit quantity l fills l' r' out) (hv' : View c' d')
    (hn : (l.map NewOrder.order_id).Nodup) (hs : ∀ o ∈ l, o.Sound)
    (hlimit : (request.kind = .New → request.order_type = .Limit) → limit = request.price)
    (owner : AccountId → Option (Fin m)) (a : Fin m) (hg : ∀ p, 0 ≤ g p) :
    weighed (owned owner a g) (d'.book i) ≤ weighed (owned owner a g) l + val r' * g limit := by
  have hle := h.trail.weighed_le hn hs owner a hg
  have hr0 := (u64_bounds r').1
  rcases h.books with hb | ⟨o, ho, hb⟩
  · have := Int.mul_nonneg hr0 (hg limit)
    rw [hb.weighed_here hv']
    omega
  · have hleft : val o.left = val r' := by
      have hsum := ho.filled
      rw [← ho.total] at hsum
      have hsound : o.Sound := by
        rw [NewOrder.Sound]
        omega
      rw [NewOrder.left_val hsound]
      omega
    have hone : weighed (owned owner a g) [o] ≤ val r' * g limit := by
      rw [weighed, List.map_singleton, List.sum_singleton, hleft, hlimit ho.limit, ← ho.price]
      exact Int.mul_le_mul_of_nonneg_left (owned_le owner a hg o) hr0
    rw [hb.weighed_here hv', weighed_append]
    omega

/-- The trades of an order that went through matching are in its instrument, and it is the taker. -/
theorem Traded.places {instrument : InstrumentId} {trade_id : TradeId}
    (h : Traded instrument trade_id request order_id side fills out) {trade : TradeEvent} (ht : trade ∈ trades out) :
    trade.instrument = instrument ∧ trade.taker_account = request.account := by
  obtain ⟨settled, -, htrades, -⟩ := h
  have hm : trade.bare ∈ settled.map (fillTrade instrument request order_id side) := by
    rw [← htrades]
    exact List.mem_map_of_mem ht
  obtain ⟨fill, -, hf⟩ := List.mem_map.1 hm
  exact ⟨congrArg TradeEvent.instrument hf.symm, congrArg TradeEvent.taker_account hf.symm⟩

theorem Matched.lots_le {client_order_id : ClientOrderId} {quantity r' : QuantityLots}
    (h : Matched c c' i request order_id client_order_id side limit quantity l fills l' r' out) :
    lots_traded out + val r' ≤ val quantity := by
  have h1 := h.traded.sum_le
  have h2 := h.trail.sum
  rw [lots_traded]
  omega

theorem lots_traded_nonneg (out : List OutputEvent) : 0 ≤ lots_traded out :=
  sum_nonneg_of fun trade _ => (u64_bounds trade.quantity).1

/-! ## Accepted requests -/

theorem reference_price_passes {price : PriceTicks} (h : Passes (c.reference_price i) price) :
    c.instruments[i].market.reference_price = some price := by
  simp only [TradingCore.reference_price, passes_bind, passes_reject_if, passes_ok_or] at h
  obtain ⟨_, -, _, -, h⟩ := h
  exact h

/-- The price a checked order is reserved at. -/
def TradingCore.ReservedAt (c : TradingCore n m) (i : Fin n) (request : OrderRequest) (limit : PriceTicks) : Prop :=
  ∃ reference, c.instruments[i].market.reference_price = some reference ∧
    Passes (c.execution_limit request reference) limit

theorem check_new_order_reserved {checked : CheckedNewOrder n m} (h : Passes (c.check_new_order request) checked) :
    c.ReservedAt checked.instrument_index request checked.execution_limit := by
  simp only [TradingCore.check_new_order, passes_bind, passes_reject_if, passes_pure] at h
  obtain ⟨_, -, a, -, i, -, _, -, _, -, _, -, _, -, _, -, r, hr, _, -, limit, hlimit, _, -, _, -, _, -, _, -, _, -, rfl⟩ := h
  exact ⟨r, reference_price_passes hr, hlimit⟩

theorem check_replace_reserved {checked : CheckedReplace n m} (h : Passes (c.check_replace request) checked) :
    c.ReservedAt checked.instrument_index request request.price := by
  simp only [TradingCore.check_replace, passes_bind, passes_reject_if, passes_pure] at h
  obtain ⟨a, -, i, -, id, -, found, -, existing, -, _, hside, _, -, _, -, _, -, _, -, _, -, _, -, _, -, r, hr, _, -, _, -,
    _, -, _, -, remaining, -, _, -, rfl⟩ := h
  simp only [not_or, ne_eq, not_not] at hside
  refine ⟨r, reference_price_passes hr, ?_⟩
  rw [TradingCore.execution_limit, hside.2]
  exact passes_pure.2 rfl

/-- An accepted new order finds an order id. -/
theorem Story.has_id {fits : Bool} {story : List OutputEvent} (h : Story w fits d request story d')
    (hk : request.kind = .New) {report : ExecutionReport} (hlast : final_report story = some report)
    (hacc : report.reject_reason = none) :
    next d.next_order_id ≠ none := by
  cases h with
  | reject reason =>
    cases hlast
    cases hacc
  | cancel hk' => rw [hk] at hk'; cases hk'
  | retire hk' => rw [hk] at hk'; cases hk'
  | shrink hk' => rw [hk] at hk'; cases hk'
  | requeue hk' => rw [hk] at hk'; cases hk'
  | @enter f _ _ _ _ _ _ _ _ _ _ _ _ hid =>
    rw [next_eq_some.2 hid]
    exact Option.some_ne_none _

/-- The check of a replace, with what the order it replaces had reserved. -/
theorem AdmitsReplace.value {checked : CheckedReplace n m} (ha : AdmitsReplace c request checked) (hv : View c d) :
    ∑ j, (c.position checked.account_index j).value (c.mark j) -
        val checked.existing.toNewOrder.left * |val checked.existing.price| +
        (val request.quantity - val checked.existing.cumulative_filled) * |val request.price| ≤
      val c.accounts[checked.account_index].limits.max_gross_exposure ∧
    ∀ g, weighed (owned d.owner checked.account_index g)
        (without NewOrder.order_id checked.order_id (d.book checked.instrument_index)) =
      weighed (owned d.owner checked.account_index g) (d.book checked.instrument_index) -
        val checked.existing.toNewOrder.left * g checked.existing.price := by
  obtain ⟨hmem, hid, -, -, hown⟩ := ha.existing hv
  obtain ⟨remaining, hrem, hexp⟩ := ha.exposure
  rw [OrderNode.remaining_eq (hv.inv.working hmem).1] at hrem
  cases hrem
  have hvalue := check_exposure_value hexp
  rw [u64_sub ha.total] at hvalue
  refine ⟨hvalue, fun g => ?_⟩
  have hown : owned d.owner checked.account_index g checked.existing.toNewOrder = g checked.existing.price := if_pos hown
  rw [← hid, ← hown]
  exact (draws_without (hv.inv.ids _) hmem).owned d.owner checked.account_index g

/-- What an accepted request did to its account. -/
theorem Handled.restocked {report : ExecutionReport} (h : Handled c c' d request out report) (hv : View c d)
    (hv' : View c' d') (hsteps : Steps c.floor c.ceiling d ms d') (hsett : Settles c.wiring out ms)
    {story : List OutputEvent} (hstory : Story c.wiring (c.fits request) d request story d')
    (hlast : final_report story = some report.bare) (hk : request.kind ≠ .Cancel) (hacc : report.reject_reason = none) :
    ∃ a i limit price rest added freed, c.account_index.lookup request.account = some a ∧
      c.instrument_index.lookup request.instrument = some i ∧ c.ReservedAt i request limit ∧
      added ≤ val request.quantity ∧ Restocked c d d' a i limit price (lots_traded out) rest added freed := by
  have hnone : ∀ {i a}, c.instrument_index.lookup request.instrument = some i →
      c.account_index.lookup request.account = some a → out = [] → Moved d d' a i (lots_traded out) := by
    intro i a hi ha he
    refine moved_of_steps hsteps hsett hi ha fun trade ht => ?_
    rw [he] at ht
    cases ht
  have hlots := lots_traded_nonneg out
  cases h with
  | refused reason he =>
    have hreason : (c.reject_report request reason).2.reject_reason = some reason := rfl
    rw [he, hacc] at hreason
    cases hreason
  | exhausted hk' _ hid =>
    refine absurd ?_ (hstory.has_id hk' hlast hacc)
    rw [← hv.ledger.order_id]
    exact hid
  | cancels hk' => exact absurd hk' hk
  | @enters checked _ _ _ r' hk' hcheck _ _ _ hm =>
    have ha := check_new_order_passes hcheck
    refine ⟨_, _, _, checked.execution_limit, val r', val request.quantity, 0, ha.account, ha.instrument,
      check_new_order_reserved hcheck, le_rfl, ?_, fun hg => ?_, fun g j hj => ?_, hlots, le_rfl, hm.lots_le, ?_⟩
    · refine moved_of_steps hsteps hsett ha.instrument ha.account fun trade ht => ?_
      rw [← hv.wired.instrument ha.instrument]
      exact hm.traded.places ht
    · rw [Int.zero_mul, Int.sub_zero]
      exact hm.weighed_le hv' (hv.inv.ids _) (fun o hmem => (hv.inv.working hmem).1) (fun hl => ha.limit (hl hk')) _ _ hg
    · rcases hm.books with hb | ⟨_, -, hb⟩ <;> exact hb.weighed_elsewhere hv hv' _ hj
    · exact check_exposure_value ha.exposure
  | @retires checked _ hcheck hq hout _ _ _ hs =>
    have ha := check_replace_passes hcheck
    obtain ⟨hvalue, hfreed⟩ := ha.value hv
    refine ⟨_, _, _, checked.existing.price, 0, _, _, ha.account, ha.instrument, check_replace_reserved hcheck, ?_,
      hnone ha.instrument ha.account hout, fun {g} hg => ?_, fun g j hj => hs.weighed_elsewhere hv hv' _ hj, hlots,
      (u64_bounds _).1, ?_, hvalue⟩
    · have := (u64_bounds checked.existing.cumulative_filled).1
      omega
    · rw [hs.weighed_here hv', hfreed]
      omega
    · rw [hout, hq]
      simp [lots_traded, trades]
  | @reduces checked _ hcheck hprice _ _ hout _ _ _ hs =>
    have ha := check_replace_passes hcheck
    obtain ⟨hvalue, -⟩ := ha.value hv
    obtain ⟨hmem, hid, -, -, hown⟩ := ha.existing hv
    have hsound := (hv.inv.working hmem).1
    refine ⟨_, _, _, checked.existing.price, val request.quantity - val checked.existing.cumulative_filled, _, _,
      ha.account, ha.instrument, check_replace_reserved hcheck, ?_, hnone ha.instrument ha.account hout, fun {g} hg => ?_,
      fun g j hj => hs.weighed_elsewhere hv hv' _ hj, hlots, (u64_bounds _).1, ?_, hvalue⟩
    · have := (u64_bounds checked.existing.cumulative_filled).1
      omega
    · have hdraws := (draws_set_total (hv.inv.ids _) hmem hsound ha.total).owned d.owner checked.account_index g
      have hown : owned d.owner checked.account_index g checked.existing.toNewOrder = g checked.existing.price :=
        if_pos hown
      rw [hs.weighed_here hv', ← hid, hprice, NewOrder.left_val hsound]
      refine le_of_eq (hdraws.trans ?_)
      rw [hown]
      ring
    · rw [hout]
      simp [lots_traded, trades]
  | @requeues checked target _ _ r' _ hcheck _ htarget _ _ _ hm =>
    have ha := check_replace_passes hcheck
    obtain ⟨hvalue, hfreed⟩ := ha.value hv
    rw [← htarget] at hvalue
    refine ⟨_, _, _, checked.existing.price, val r', val target, _, ha.account, ha.instrument,
      check_replace_reserved hcheck, ?_, ?_, fun {g} hg => ?_, fun g j hj => ?_, hlots, (u64_bounds _).1, hm.lots_le, hvalue⟩
    · have := (u64_bounds checked.existing.cumulative_filled).1
      omega
    · refine moved_of_steps hsteps hsett ha.instrument ha.account fun trade ht => ?_
      rw [← hv.wired.instrument ha.instrument]
      exact hm.traded.places ht
    · rw [← hfreed]
      exact hm.weighed_le hv' ((hv.inv.ids _).sublist ((without_sublist _ _).map _))
        (fun o hmem => (hv.inv.working (mem_without.1 hmem).1).1) (fun _ => rfl) _ _ hg
    · rcases hm.books with hb | ⟨_, -, hb⟩ <;> exact hb.weighed_elsewhere hv hv' _ hj

/-- The worst case is at most the records with what the working orders are reserved below the mark. -/
theorem worst_exposure_le (h : View c d) (a : Fin m) : c.worst_exposure a ≤
    ∑ i, (c.position a i).value (c.mark i) + ∑ i, weighed (owned d.owner a (below (c.mark i))) (d.book i) := by
  rw [← Finset.sum_add_distrib]
  refine Finset.sum_le_sum fun i _ => ?_
  have hside : ∀ side, val ((c.position a i).open_lots side) * c.mark i ≤ val ((c.position a i).open_notional side) +
      weighed (fun o => share d.owner a side o * below (c.mark i) o.price) (d.book i) := by
    intro side
    rw [(h.ledger.positions a i).reserved, (h.ledger.positions a i).notional, Desk.reserved, Desk.notional, weighed,
      weighed, weighed, ← List.sum_map_add, ← List.sum_map_mul_right]
    refine List.sum_le_sum fun o _ => ?_
    have hle : c.mark i ≤ |val o.price| + below (c.mark i) o.price := by
      rw [below]
      omega
    have h0 := Int.mul_nonneg o.left_nonneg (share_nonneg d.owner a side o)
    calc val o.left * share d.owner a side o * c.mark i
        ≤ val o.left * share d.owner a side o * (|val o.price| + below (c.mark i) o.price) :=
          Int.mul_le_mul_of_nonneg_left hle h0
      _ = _ := by ring
  have hbuy := hside .Buy
  have hsell := hside .Sell
  simp only [InstrumentPosition.open_lots, InstrumentPosition.open_notional] at hbuy hsell
  have h1 := (u64_bounds (c.position a i).open_buy_lots).1
  have h2 := (u64_bounds (c.position a i).open_sell_lots).1
  have habs : max |val (c.position a i).position_lots - val (c.position a i).open_sell_lots|
      |val (c.position a i).position_lots + val (c.position a i).open_buy_lots| ≤
        |val (c.position a i).position_lots| + val (c.position a i).open_buy_lots +
          val (c.position a i).open_sell_lots := by
    have hlo := neg_abs_le (val (c.position a i).position_lots)
    have hhi := le_abs_self (val (c.position a i).position_lots)
    exact max_le (abs_le.2 ⟨by omega, by omega⟩) (abs_le.2 ⟨by omega, by omega⟩)
  have hmul := Int.mul_le_mul_of_nonneg_right habs (mark_nonneg c i)
  rw [Int.add_mul, Int.add_mul] at hmul
  rw [InstrumentPosition.value, ← weighed_sides]
  omega

/-- What the working orders are reserved below the mark, on both sides. -/
theorem shortfall_eq (h : View c d) (a : Fin m) (i : Fin n) : ∃ buy sell, c.shortfall a i .Buy = .ok buy ∧
    c.shortfall a i .Sell = .ok sell ∧ weighed (owned d.owner a (below (c.mark i))) (d.book i) = buy + sell :=
  ⟨_, _, open_sum_eq h a i .Buy (below (c.mark i)), open_sum_eq h a i .Sell (below (c.mark i)), (weighed_sides ..).symm⟩

/-- Nothing is, if no working order is priced below the mark. -/
theorem TradingCore.AtMark.below_eq (hat : c.AtMark a) (h : View c d) (i : Fin n) :
    weighed (owned d.owner a (below (c.mark i))) (d.book i) = 0 := by
  refine List.sum_eq_zero fun x hx => ?_
  obtain ⟨o, ho, rfl⟩ := List.mem_map.1 hx
  rw [owned]
  split
  · rename_i howner
    obtain ⟨nodes, hn, hperm⟩ := (h.books i).resting_perm
    obtain ⟨nodes', hn', hall⟩ := hat i
    rw [TradingCore.working_orders, hn] at hn'
    cases hn'
    obtain ⟨node, hnode, rfl⟩ := List.mem_map.1 (hperm.symm.subset ho)
    have hprice := hall node (List.mem_filter.2 ⟨hnode, by rw [decide_eq_true_eq, ← howner]; exact h.ledger.owner _⟩)
    have hzero : below (c.mark i) node.toNewOrder.price = 0 := max_eq_left (by change _ - |val node.price| ≤ 0; omega)
    rw [hzero, Int.mul_zero]
  · rw [Int.mul_zero]

theorem mark_finish_request (c : TradingCore n m) (request : OrderRequest) (fingerprint : UInt64)
    (report : ExecutionReport) : (c.finish_request request fingerprint report).mark = c.mark := by
  rw [TradingCore.finish_request]
  dsimp only
  split <;> rfl

theorem mark_of_setup (h : c'.setup = c.setup) : c'.mark = c.mark := by
  funext i
  have hm : c'.instruments[i].market = c.instruments[i].market := congrArg (fun s => (s.instruments i).2) h
  rw [TradingCore.mark, TradingCore.mark, hm]

end Exposure

/-- Right after a new order or a replace was accepted, the worst case of the account is within its limit up to what is
reserved below the mark: by the working orders before the request, and by the request for its own quantity. So if none
of these is priced below the mark, the account is covered whatever of its orders fills. -/
theorem accepted_exposure_covered {allocator : SlabAllocator} {config : EngineConfig} {inputs : List EngineInput}
    {c c' : TradingCore config.instruments.length config.accounts.length} {outs : List (List OutputEvent)}
    (h : (TradingCore.new allocator config).run inputs = .ok (c, outs)) {input : EngineInput}
    {request : OrderRequest} (he : input.event = .Order request) (hk : request.kind ≠ .Cancel)
    (hn : ¬c.Retries request) {out : List OutputEvent} (hrun : c.apply input = .ok (c', out)) (hf' : c'.fault = none)
    {report : ExecutionReport} (hlast : final_report out = some report) (hacc : report.reject_reason = none) :
    ∃ a i limit, ∃ short : Fin config.instruments.length → Side → Int,
      c.account_index_of request.account = some a ∧ c.instrument_index_of request.instrument = some i ∧
      c.ReservedAt i request limit ∧ (∀ j side, c.shortfall a j side = .ok (short j side)) ∧
      c'.worst_exposure a ≤ val c.accounts[a].limits.max_gross_exposure + ∑ j, (short j .Buy + short j .Sell) +
        val request.quantity * max 0 (c.mark i - |val limit|) ∧
      (c.AtMark a → c.mark i ≤ |val limit| → c'.Covered a) := by
  have hf := fault_none_of_apply hrun hf'
  obtain ⟨d, hv⟩ := run_view h hf
  obtain ⟨_, d', _, -, -, hd⟩ := apply_done hv hrun hf'
  rcases apply_cases hrun with ⟨hs, -⟩ | ⟨-, -, rfl⟩ | ⟨seq, c₁, -, -, hevent, rfl⟩
  · rw [hf] at hs
    cases hs
  · cases hlast
  · rw [he] at hevent
    have hv₁ := hv.entered input seq
    obtain ⟨c₂, out₂, ho, hh, rfl, rfl⟩ := (apply_event_happened hv₁ hevent).accepted hn hlast hacc
    let c' := (c₂.finish_request request (request_fingerprint request) report).counted (out₂ ++ [.Report report])
    have hrec := finish_request_recorded c₂ request report
    have hf₂ : c₂.fault = none := (fault_finish_request c₂ request _ report).symm.trans hf'
    obtain ⟨d₂, ms, hsteps, hv₂, hsett, story, hstory, hemits⟩ := ho.steps hf₂
    have hlast₂ : final_report story = some report.bare := by
      rw [← hemits.bare, final_report_bare, final_report_append]
      rfl
    obtain ⟨a, i, limit, price, rest, added, freed, ha, hi, hlimit, hadded, hstock⟩ :=
      hh.restocked hv₁ hv₂ hsteps hsett hstory hlast₂ hk hacc
    choose buy sell hbuy hsell hbelow using shortfall_eq hv a
    have howner : d₂.owner = d.owner := by
      funext x
      rw [← hv₂.ledger.owner, ← hv.ledger.owner,
        show c₂.account_index = c.account_index from congrArg Setup.account_index ho.setup]
    have hmark : c'.mark = (c.entered input seq).mark :=
      (mark_finish_request c₂ request _ report).trans (mark_of_setup ho.setup)
    change c'.mark = c.mark at hmark
    have hlimits : c'.accounts[a].limits = c.accounts[a].limits :=
      (hrec.limits a).trans (congrArg (fun s => (s.accounts a).limits) ho.setup)
    have hvalue := hstock.value_le hv₁.ledger.positions hv₂.ledger.positions howner
    have hworst : c'.worst_exposure a ≤ val c.accounts[a].limits.max_gross_exposure + ∑ j, (buy j + sell j) +
        val request.quantity * below (c.mark i) limit := by
      have hv' : View c' d₂ := hv₂.of_ground hrec.ground
      have hle := worst_exposure_le hv' a
      have hstocked := hstock.below_le c.mark
      rw [hmark, howner, show c'.position = c₂.position from congrArg Ground.position hrec.ground] at hle
      rw [Finset.sum_congr rfl fun j _ => hbelow j] at hstocked
      have hquantity : (lots_traded out₂ + rest) * below (c.mark i) limit ≤ val request.quantity * below (c.mark i) limit :=
        Int.mul_le_mul_of_nonneg_right (hstock.within.trans hadded) (below_nonneg _ _)
      rw [Int.add_mul] at hquantity
      change ∑ j, (c₂.position a j).value (c.mark j) ≤
        val c.accounts[a].limits.max_gross_exposure + lots_traded out₂ * below (c.mark i) limit at hvalue
      linarith
    refine ⟨a, i, limit, fun j side => if side = .Buy then buy j else sell j, ha, hi, hlimit, ?_, hworst, ?_⟩
    · intro j side
      cases side
      · exact hbuy j
      · exact hsell j
    · intro hat hpriced
      refine (covered_iff hd.view a).2 ?_
      have hzero : below (c.mark i) limit = 0 := max_eq_left (by omega)
      have hnone : ∑ j, (buy j + sell j) = 0 :=
        Finset.sum_eq_zero fun j _ => (hbelow j).symm.trans (hat.below_eq hv j)
      rw [hzero, hnone, Int.mul_zero, Int.add_zero, Int.add_zero, ← hlimits] at hworst
      exact hworst

/-- Limits of which the gross one binds first. -/
def grossLimits (gross : Notional) : AccountLimits := { smallLimits with max_gross_exposure := gross }

/-- Four lots are bid for at the mark, and then six more: as much as the limit allows. -/
theorem accepted_exposure_covered_small :
    ∃ c outs c' out, (TradingCore.new freeListAllocator (smallConfig (grossLimits 1000) [1])).run
        (opening ++ [placed 1 1 .Buy 100 4]) = .ok (c, outs) ∧ c.AtMark ⟨0, by decide⟩ ∧
      c.apply (placed 1 2 .Buy 100 6) = .ok (c', out) ∧ c'.worst_exposure ⟨0, by decide⟩ = 1000 ∧
      c'.Covered ⟨0, by decide⟩ := by
  let request : OrderRequest := ⟨.New, 1, 1, 2, 2, 2, 0, .Buy, .Limit, 100, 6⟩
  have hends : Ends ((TradingCore.new freeListAllocator (smallConfig (grossLimits 1000) [1])).run
      (opening ++ [placed 1 1 .Buy 100 4])) fun r => r.1.cache_hit request = none ∧
      r.1.account_index_of 1 = some ⟨0, by decide⟩ ∧ (∀ i, r.1.mark i = 100) ∧
      (∀ i, Ends (r.1.working_orders ⟨0, by decide⟩ i) fun nodes => ∀ node ∈ nodes, r.1.mark i ≤ |val node.price|) ∧
      Ends (r.1.apply (placed 1 2 .Buy 100 6)) fun r' => r'.1.fault = none ∧
        (∃ report ∈ final_report r'.2, report.reject_reason = none) ∧ r'.1.worst_exposure ⟨0, by decide⟩ = 1000 := by
    decide +kernel
  obtain ⟨⟨c, outs⟩, hr, hhit, ha, hmark, hat, ⟨c', out⟩, hr', hf', ⟨report, hlast, hacc⟩, hworst⟩ := hends
  have hn : ¬c.Retries request := by
    rintro ⟨a, previous, hp⟩
    rw [hhit] at hp; cases hp
  obtain ⟨a, i, limit, short, ha', -, ⟨reference, -, hlimit⟩, -, -, hcovered⟩ :=
    accepted_exposure_covered hr rfl (by decide) hn hr' hf' hlast hacc
  obtain rfl : a = ⟨0, by decide⟩ := Option.some.inj (ha'.symm.trans ha)
  obtain rfl : (100 : PriceTicks) = limit := passes_pure.1 hlimit
  refine ⟨c, outs, c', out, hr, hat, hr', hworst, hcovered hat ?_⟩
  rw [hmark]
  decide

/-- Ten lots bought at 95 pass a limit of 960 while the mark is 100, and are worth 1000 once they fill. -/
theorem exposure_exceeds_limit :
    ∃ c outs c' out report, (TradingCore.new freeListAllocator (smallConfig (grossLimits 960) [1])).run opening =
        .ok (c, outs) ∧ ¬c.Retries ⟨.New, 1, 1, 1, 1, 1, 0, .Buy, .Limit, 95, 10⟩ ∧
      c.apply (placed 1 1 .Buy 95 10) = .ok (c', out) ∧ c'.fault = none ∧ final_report out = some report ∧
      report.kind = .Accepted ∧ report.reject_reason = none ∧ c'.account_index_of 1 = some ⟨0, by decide⟩ ∧
      c'.mark ⟨0, by decide⟩ = 100 ∧ c'.worst_exposure ⟨0, by decide⟩ = 1000 ∧
      val (c'.accounts.get ⟨0, by decide⟩).limits.max_gross_exposure = 960 ∧ ¬c'.Covered ⟨0, by decide⟩ := by
  let request : OrderRequest := ⟨.New, 1, 1, 1, 1, 1, 0, .Buy, .Limit, 95, 10⟩
  have hends : Ends ((TradingCore.new freeListAllocator (smallConfig (grossLimits 960) [1])).run opening) fun r =>
      r.1.cache_hit request = none ∧ Ends (r.1.apply (placed 1 1 .Buy 95 10)) fun r' => r'.1.fault = none ∧
        (∃ report ∈ final_report r'.2, report.kind = .Accepted ∧ report.reject_reason = none) ∧
        r'.1.account_index_of 1 = some ⟨0, by decide⟩ ∧ r'.1.mark ⟨0, by decide⟩ = 100 ∧
        r'.1.worst_exposure ⟨0, by decide⟩ = 1000 ∧
        val (r'.1.accounts.get ⟨0, by decide⟩).limits.max_gross_exposure = 960 := by decide +kernel
  obtain ⟨⟨c, outs⟩, hr, hhit, ⟨c', out⟩, hr', hf', ⟨report, hlast, hkind, hacc⟩, ha, hmark, hworst, hlimit⟩ := hends
  have hn : ¬c.Retries request := by
    rintro ⟨a, previous, hp⟩
    rw [hhit] at hp; cases hp
  obtain ⟨d, hv⟩ := run_view hr (fault_none_of_apply hr' hf')
  obtain ⟨_, d', _, -, -, hd⟩ := apply_done hv hr' hf'
  refine ⟨c, outs, c', out, report, hr, hn, hr', hf', hlast, hkind, hacc, ha, hmark, hworst, hlimit, fun hc => ?_⟩
  have hle := (covered_iff hd.view _).1 hc
  rw [hworst] at hle
  exact absurd (hle.trans hlimit.le) (by decide)

end TradingLab
