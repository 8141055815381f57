import TradingLab.Outputs
import TradingLab.Requests
/-!
# What reports say about their orders

The cumulative fill of a report should be what its order traded so far, and its
identity the one the order was entered with. Both fail for a replace that trades
at once: the fill reports of `execute` are made from the request, without what
the order filled before and under the client order id of the request. A cancel
reports the instrument it was sent with, whatever the order's instrument is.
-/
open LabLib

namespace TradingLab

/-! ## Quantities -/

/-- What the trade added to the fills of an order, as maker or as taker. -/
def TradeEvent.amount (trade : TradeEvent) (id : OrderId) : Int :=
  (if trade.maker_order_id = id then val trade.quantity else 0) +
    if trade.taker_order_id = id then val trade.quantity else 0

/-- The total quantity an order traded. -/
def traded_by (id : OrderId) (ts : List TradeEvent) : Int := (ts.map fun trade => trade.amount id).sum

@[simp] theorem traded_by_nil (id : OrderId) : traded_by id [] = 0 := rfl

@[simp] theorem traded_by_cons (id : OrderId) (trade : TradeEvent) (ts : List TradeEvent) :
    traded_by id (trade :: ts) = trade.amount id + traded_by id ts := by
  simp [traded_by]

@[simp] theorem traded_by_append (id : OrderId) (ts ts' : List TradeEvent) :
    traded_by id (ts ++ ts') = traded_by id ts + traded_by id ts' := by
  simp [traded_by]

/-- The report has the quantities of an order that traded `amount` so far. -/
structure ExecutionReport.Tallies (report : ExecutionReport) (amount : Int) : Prop where
  cumulative : val report.cumulative_filled = amount
  remaining : report.state = .Working ∨ report.state = .PartiallyFilled →
    val report.remaining = val report.total_quantity - val report.cumulative_filled

/-- Every report of the outputs tallies, when the orders traded `T` before them. -/
def TalliesAll : (OrderId → Int) → List OutputEvent → Prop
  | _, [] => True
  | T, .Trade trade :: out => TalliesAll (fun id => T id + trade.amount id) out
  | T, .Report report :: out => (report.order_id ≠ 0 → report.Tallies (T report.order_id)) ∧ TalliesAll T out
  | T, .State _ :: out => TalliesAll T out

theorem TalliesAll.append {T : OrderId → Int} {out out' : List OutputEvent} (h : TalliesAll T out)
    (h' : TalliesAll (fun id => T id + traded_by id (trades out)) out') : TalliesAll T (out ++ out') := by
  induction out generalizing T with
  | nil => simpa [trades] using h'
  | cons event out ih =>
    cases event with
    | Trade trade =>
      refine ih h ?_
      simp only [trades, List.filterMap_cons, traded_by_cons, ← Int.add_assoc] at h'
      exact h'
    | Report report => exact ⟨h.1, ih h.2 h'⟩
    | State state => exact ih h h'

/-- A report tallies with the trades before it. -/
theorem TalliesAll.report {T : OrderId → Int} {pre post : List OutputEvent} {report : ExecutionReport}
    (h : TalliesAll T (pre ++ .Report report :: post)) (hid : report.order_id ≠ 0) :
    report.Tallies (T report.order_id + traded_by report.order_id (trades pre)) := by
  induction pre generalizing T with
  | nil => simpa [trades] using h.1 hid
  | cons event pre ih =>
    cases event with
    | Trade trade =>
      have := ih h
      simp only [trades, List.filterMap_cons, traded_by_cons, ← Int.add_assoc]
      exact this
    | Report report' => exact ih h.2
    | State state => exact ih h

theorem talliesAll_of_bare {T : OrderId → Int} {out : List OutputEvent} (h : TalliesAll T (out.map OutputEvent.bare)) :
    TalliesAll T out := by
  induction out generalizing T with
  | nil => trivial
  | cons event out ih =>
    cases event with
    | Trade trade => exact ih h
    | Report report => exact ⟨fun hid => ⟨(h.1 hid).1, (h.1 hid).2⟩, ih h.2⟩
    | State state => exact ih h

theorem traded_by_bare (id : OrderId) (out : List OutputEvent) :
    traded_by id (trades (out.map OutputEvent.bare)) = traded_by id (trades out) := by
  induction out with
  | nil => rfl
  | cons event out ih =>
    cases event with
    | Trade trade => exact congrArg (trade.amount id + ·) ih
    | Report report => exact ih
    | State state => exact ih

/-! ## Fills -/

/-- What the orders traded after the trades of some outputs. -/
def after (T : OrderId → Int) (out : List OutputEvent) (id : OrderId) : Int := T id + traded_by id (trades out)

theorem after_fillsStory (T : OrderId → Int) (instrument : InstrumentId) (request : OrderRequest) (tid : OrderId)
    (side : Side) (quantity filled : QuantityLots) (fill : Fill) (fills : List Fill) (id : OrderId) :
    after T (fillsStory instrument request tid side quantity filled (fill :: fills)) id =
      after (fun id => T id + (fillTrade instrument request tid side fill).amount id)
        (fillsStory instrument request tid side quantity (filled + fill.quantity) fills) id := by
  rw [fillsStory, after, after, trades_append, traded_by_append]
  change T id + (traded_by id [fillTrade instrument request tid side fill] + _) = _
  rw [traded_by_cons, traded_by_nil, Int.add_zero, Int.add_assoc]

/-- The fills of an order whose reports count from what it traded before. -/
structure FillsTally (T : OrderId → Int) (l l' : List NewOrder) (tid : OrderId) (story : List OutputEvent) (sum : Int) :
    Prop where
  reports : TalliesAll T story
  makers : ∀ x ∈ l', val x.cumulative_filled = after T story x.order_id
  taker : after T story tid = sum
  others : ∀ id, id ∉ l.map NewOrder.order_id → id ≠ tid → after T story id = T id

theorem Fills.tally {s : Side} {limit : PriceTicks} {l l' : List NewOrder} {r r' : UInt64} {fills : List Fill}
    (h : Fills s limit l r fills l' r') {T : OrderId → Int} (hn : (l.map NewOrder.order_id).Nodup)
    (hsound : ∀ x ∈ l, x.Sound) (hT : ∀ x ∈ l, val x.cumulative_filled = T x.order_id) {tid : OrderId}
    (htid : tid ∉ l.map NewOrder.order_id) (instrument : InstrumentId) (request : OrderRequest) (side : Side)
    {filled : QuantityLots} (hfilled : val filled = T tid) (hq : val filled + val r = val request.quantity) :
    FillsTally T l l' tid (fillsStory instrument request tid side request.quantity filled fills)
      (val request.quantity - val r') := by
  induction h generalizing T filled with
  | @nil l r =>
    refine ⟨trivial, fun x hx => ?_, ?_, fun id _ _ => ?_⟩
    · rw [hT x hx]
      exact (Int.add_zero _).symm
    · rw [after, fillsStory]
      simp only [trades, List.filterMap_nil, traded_by_nil]
      omega
    · exact Int.add_zero _
  | @cons l r o fs l' r' hpos hnext hcross hrest ih =>
    obtain ⟨ho, -⟩ := hnext.mem
    have hmin := u64_min r o.left
    have hto : val (min r o.left) ≤ val o.left := by omega
    have hso := hsound o ho
    have hbound := u64_bounds request.quantity
    have hcum := NewOrder.fill_cumulative hso hto
    have hadd : val (filled + min r o.left) = val filled + val (min r o.left) := u64_add (by omega)
    have hne : o.order_id ≠ tid := fun he => htid (he ▸ List.mem_map_of_mem ho)
    generalize ht : min r o.left = t at hmin hto hcum hadd hrest ih ⊢
    -- What the orders traded after this fill.
    generalize hT₁ : (fun id => T id + (fillTrade instrument request tid side (Fill.of o t)).amount id) = T₁
    have hT₁' : ∀ id, T₁ id = T id + ((if o.order_id = id then val t else 0) + if tid = id then val t else 0) := by
      intro id
      rw [← hT₁]
      rfl
    have hmaker : T₁ o.order_id = T o.order_id + val t := by
      rw [hT₁', if_pos rfl, if_neg (Ne.symm hne), Int.add_zero]
    have htaker : T₁ tid = T tid + val t := by
      rw [hT₁', if_neg hne, if_pos rfl, Int.zero_add]
    have hother : ∀ id, id ≠ o.order_id → id ≠ tid → T₁ id = T id := by
      intro id h1 h2
      rw [hT₁', if_neg (Ne.symm h1), if_neg (Ne.symm h2), Int.add_zero, Int.add_zero]
    have hids := ids_afterFill_sublist l o t
    have ht₁ : ∀ x ∈ afterFill l o t, val x.cumulative_filled = T₁ x.order_id := by
      intro x hx
      rcases mem_afterFill hx with ⟨hx, hxo⟩ | ⟨-, y, hy, hyo, rfl⟩
      · rw [hother x.order_id hxo fun he => htid (he ▸ List.mem_map_of_mem hx)]
        exact hT x hx
      · obtain rfl := List.inj_on_of_nodup_map hn hy ho hyo
        rw [hcum, hT y ho]
        exact hmaker.symm
    have hfilled₁ : val (filled + t) = T₁ tid := by rw [hadd, hfilled, htaker]
    obtain ⟨h1, h2, h3, h4⟩ := ih (ids_afterFill hn o t) (sound_afterFill hn hsound ho hto) ht₁
      (fun hm => htid (hids.subset hm)) hfilled₁ (by rw [hadd, u64_sub (by omega)]; omega)
    have hafter : after T (fillsStory instrument request tid side request.quantity filled (Fill.of o t :: fs)) =
        after T₁ (fillsStory instrument request tid side request.quantity (filled + t) fs) := by
      funext id
      rw [after_fillsStory, hT₁]
      rfl
    refine ⟨?_, ?_, ?_, ?_⟩
    · have hleft := NewOrder.left_val (NewOrder.fill_sound hso hto)
      have hr' := hrest.left_le
      rw [u64_sub (by omega)] at hr'
      have hrem : val (request.quantity - (filled + t)) = val request.quantity - val (filled + t) := u64_sub (by omega)
      have hstory : TalliesAll T (fillStory instrument request tid side request.quantity (filled + t) (Fill.of o t)) := by
        change TalliesAll (fun id => T id + (fillTrade instrument request tid side (Fill.of o t)).amount id) _
        rw [hT₁]
        refine ⟨fun _ => ⟨?_, fun _ => hleft⟩, fun _ => ⟨?_, fun _ => hrem⟩, trivial⟩
        · exact hcum.trans (by rw [hT o ho]; exact hmaker.symm)
        · exact hadd.trans (by rw [hfilled]; exact htaker.symm)
      refine hstory.append ?_
      change TalliesAll (after T (fillStory _ _ _ _ _ _ _)) _
      have : after T (fillStory instrument request tid side request.quantity (filled + t) (Fill.of o t)) = T₁ := by
        funext id
        rw [after, ← hT₁]
        change T id + traded_by id [_] = _
        rw [traded_by_cons, traded_by_nil, Int.add_zero]
      rw [this]
      exact h1
    · rw [hafter]
      exact h2
    · rw [hafter]
      exact h3
    · intro id hid hidt
      rw [hafter, h4 id (fun hm => hid (hids.subset hm)) hidt]
      exact hother id (fun he => hid (he ▸ List.mem_map_of_mem ho)) hidt

@[simp] theorem after_report (T : OrderId → Int) (story : List OutputEvent) (report : ExecutionReport) :
    after T (story ++ [.Report report]) = after T story := by
  funext id
  rw [after, after, trades_append, traded_by_append]
  exact congrArg (T id + ·) (Int.add_zero _)

/-- The last fills of an order and its final report. -/
theorem FillsTally.land {n m : Nat} {T : OrderId → Int} {l l' l'' : List NewOrder} {f : Flight n m} {request : OrderRequest}
    {kind : ReportKind} {fits : Bool} {filled r' : QuantityLots} {story : List OutputEvent} {report : ExecutionReport}
    (h : FillsTally T l l' f.tag.order_id story (val request.quantity - val r'))
    (hland : Landing f request kind fits filled r' l' report l'') (hsum : val filled + val r' = val request.quantity) :
    TalliesAll T (story ++ [.Report report]) ∧ ∀ x ∈ l'', val x.cumulative_filled = after T story x.order_id := by
  have htaker : val filled = after T story f.tag.order_id := by
    rw [h.taker]
    omega
  have hrep : report.order_id = f.tag.order_id ∧ report.Tallies (after T story f.tag.order_id) := by
    cases hland with
    | filled => exact ⟨rfl, htaker, by simp [landed]⟩
    | cancelled => exact ⟨rfl, htaker, by simp [landed]⟩
    | rests | dropped =>
      refine ⟨rfl, htaker, fun _ => ?_⟩
      simp only [landed, plain]
      omega
  refine ⟨h.reports.append ⟨fun _ => ?_, trivial⟩, fun x hx => ?_⟩
  · rw [hrep.1]
    exact hrep.2
  · cases hland with
    | filled | cancelled | dropped => exact h.makers x hx
    | rests =>
      rcases List.mem_append.1 hx with hx | hx
      · exact h.makers x hx
      · rw [List.mem_singleton.1 hx]
        exact htaker

/-! ## Requests -/

section Requests
variable {n m : Nat} {c c' : TradingCore n m} {d d' : Desk n m}
variable {T : OrderId → Int} {story : List OutputEvent} {request : OrderRequest} {i : Fin n}

/-- The resting orders traded their cumulative fill, and ids that are not issued nothing. -/
structure Tallied (T : OrderId → Int) (d : Desk n m) : Prop where
  resting : ∀ i, ∀ o ∈ d.book i, val o.cumulative_filled = T o.order_id
  unissued : ∀ id, val d.next_order_id < val id → T id = 0

/-- If the request replaces an order that has fills, its price crosses no order of the other side. -/
def QuietReplace (d : Desk n m) (request : OrderRequest) : Prop :=
  request.kind = .Replace → ∀ i, ∀ o ∈ d.book i, o.account = request.account →
    o.client_order_id = request.target_client_order_id → 0 < val o.cumulative_filled →
    ∀ x ∈ d.book i, x.side = o.side.opposite → ¬Crosses x.side x.price request.price

/-- The orders of an instrument changed, and those of the others traded nothing. -/
theorem Tallied.update (h : Tallied T d) {l'' : List NewOrder} (hnext : val d.next_order_id ≤ val d'.next_order_id)
    (hbook : d'.book = Function.update d.book i l'')
    (hl : ∀ x ∈ l'', val x.cumulative_filled = after T story x.order_id)
    (hothers : ∀ j, j ≠ i → ∀ x ∈ d.book j, after T story x.order_id = T x.order_id)
    (hissued : ∀ id, val d'.next_order_id < val id → after T story id = T id) : Tallied (after T story) d' where
  resting j x hx := by
    rw [hbook, Function.update_apply] at hx
    split at hx
    · exact hl x hx
    · rename_i hj
      rw [hothers j hj x hx]
      exact h.resting j x hx
  unissued id hid := by
    rw [hissued id hid]
    exact h.unissued id (by omega)

/-- A request without fills. -/
theorem Tallied.same (h : Tallied T d) (report : ExecutionReport) (hnext : val d.next_order_id ≤ val d'.next_order_id)
    (hbook : ∀ i, ∀ x ∈ d'.book i, ∃ y ∈ d.book i, x.order_id = y.order_id ∧ x.cumulative_filled = y.cumulative_filled) :
    Tallied (after T [.Report report]) d' := by
  have hafter : after T [.Report report] = T := by
    funext id
    exact Int.add_zero _
  rw [hafter]
  refine ⟨fun i x hx => ?_, fun id hid => h.unissued id (by omega)⟩
  obtain ⟨y, hy, h1, h2⟩ := hbook i x hx
  rw [h1, h2]
  exact h.resting i y hy

theorem mem_of_setBook_without {i j : Fin n} {id : OrderId} {x : NewOrder}
    (hx : x ∈ (d.setBook i (without NewOrder.order_id id (d.book i))).book j) : x ∈ d.book j := by
  rw [mem_setBook] at hx
  split at hx
  · rename_i hj
    subst hj
    exact (mem_without.1 hx).1
  · exact hx

/-- The reports of a request tally, and so do the resting orders after it. -/
theorem Story.tally {w : Wiring n m} {fits : Bool} (h : Story w fits d request story d') (hinv : Inv d)
    (hnext : val d.next_order_id ≤ val d'.next_order_id) (hT : Tallied T d) (hq : QuietReplace d request) :
    TalliesAll T story ∧ Tallied (after T story) d' := by
  have hl := hinv.toListed
  cases h with
  | reject reason => exact ⟨⟨fun hid => absurd rfl hid, trivial⟩, hT.same _ hnext fun i x hx => ⟨x, hx, rfl, rfl⟩⟩
  | @cancel i o _ ho _ _ =>
    exact ⟨⟨fun _ => ⟨hT.resting i o ho, by simp [cancelled]⟩, trivial⟩,
      hT.same _ hnext fun j x hx => ⟨x, mem_of_setBook_without hx, rfl, rfl⟩⟩
  | @retire i o _ ho _ _ _ _ =>
    exact ⟨⟨fun _ => ⟨hT.resting i o ho, by simp [retired]⟩, trivial⟩,
      hT.same _ hnext fun j x hx => ⟨x, mem_of_setBook_without hx, rfl, rfl⟩⟩
  | @shrink i o r' _ ho _ _ _ _ _ hr =>
    refine ⟨⟨fun _ => ⟨hT.resting i o ho, fun _ => hr⟩, trivial⟩, hT.same _ hnext fun j x hx => ?_⟩
    rw [mem_setBook] at hx
    split at hx
    · rename_i hj
      subst hj
      rcases mem_amend.1 hx with ⟨hx, -⟩ | ⟨y, hy, -, rfl⟩
      · exact ⟨x, hx, rfl, rfl⟩
      · exact ⟨y, hy, rfl, rfl⟩
    · exact ⟨x, hx, rfl, rfl⟩
  | @enter f _ fills l' l'' r' filled report _ _ _ _ _ hid hid' hleft _ hfills hsum hland hbook =>
    rw [hleft] at hfills ⊢
    have hfresh : ∀ i, ∀ x ∈ d.book i, x.order_id ≠ f.tag.order_id := by
      intro i x hx he
      have := hl.issued hx
      rw [he] at this
      omega
    have hnone : f.tag.order_id ∉ (d.book f.instrument_index).map NewOrder.order_id := by
      intro hm
      obtain ⟨x, hx, he⟩ := List.mem_map.1 hm
      exact hfresh _ x hx he
    have hzero : val (0 : QuantityLots) = T f.tag.order_id := by
      rw [hT.unissued _ (by omega)]
      rfl
    have hft := hfills.tally (hl.ids _) (fun x hx => (hl.working hx).1) (hT.resting _) hnone
      (w.instruments f.instrument_index).id request f.tag.side hzero (by rw [u64_val_zero]; omega)
    obtain ⟨h1, h2⟩ := hft.land hland hsum
    refine ⟨h1, ?_⟩
    rw [after_report]
    refine hT.update hnext hbook h2 (fun j hj x hx => hft.others _ (fun hm => ?_) (hfresh j x hx)) fun id hi =>
      hft.others id (fun hm => ?_) fun he => ?_
    · obtain ⟨y, hy, he⟩ := List.mem_map.1 hm
      exact hj (hl.apart hx hy he.symm)
    · obtain ⟨y, hy, rfl⟩ := List.mem_map.1 hm
      have := hl.issued hy
      omega
    · rw [he] at hi
      omega
  | @requeue f o fills l' l'' r' filled report _ hk ho hacc hcl htag hleft hpos _ hfills hsum hland hbook =>
    have htid : f.tag.order_id = o.order_id := by rw [htag]; rfl
    have hside : f.tag.side = o.side := by rw [htag]; rfl
    have hsub : ∀ x ∈ without NewOrder.order_id o.order_id (d.book f.instrument_index), x ∈ d.book f.instrument_index :=
      fun x hx => (mem_without.1 hx).1
    have hnot : f.tag.order_id ∉ (without NewOrder.order_id o.order_id (d.book f.instrument_index)).map
        NewOrder.order_id := by
      rw [htid]
      intro hm
      obtain ⟨x, hx, he⟩ := List.mem_map.1 hm
      exact (mem_without.1 hx).2 he
    have hcum := hT.resting _ o ho
    have h0 := (u64_bounds o.cumulative_filled).1
    have hft : FillsTally T (without NewOrder.order_id o.order_id (d.book f.instrument_index)) l' f.tag.order_id
        (fillsStory (w.instruments f.instrument_index).id request f.tag.order_id f.tag.side f.left 0 fills)
        (val request.quantity - val r') := by
      by_cases hzero : val o.cumulative_filled = 0
      · have hleft' : f.left = request.quantity := val_inj.1 (by omega)
        rw [hleft'] at hfills ⊢
        exact hfills.tally ((hl.ids _).sublist ((without_sublist _ _).map _)) (fun x hx => (hl.working (hsub x hx)).1)
          (fun x hx => hT.resting _ x (hsub x hx)) hnot _ request _ (by rw [htid, ← hcum, hzero]; rfl)
          (by rw [u64_val_zero]; omega)
      · -- An order with fills crosses nothing, so it has none now.
        cases hfills with
        | nil =>
          refine ⟨trivial, fun x hx => ?_, ?_, fun id _ _ => Int.add_zero _⟩
          · rw [hT.resting _ x (hsub x hx)]
            exact (Int.add_zero _).symm
          · rw [htid]
            refine (Int.add_zero _).trans ?_
            omega
        | @cons _ _ x _ _ _ _ hnext' hcross _ =>
          obtain ⟨hx, hxs⟩ := hnext'.mem
          refine absurd ?_ (hq hk _ o ho hacc hcl (by omega) x (hsub x hx) (by rw [hxs, hside]))
          rw [hxs]
          exact hcross
    obtain ⟨h1, h2⟩ := hft.land hland hsum
    refine ⟨h1, ?_⟩
    rw [after_report]
    refine hT.update hnext hbook h2 (fun j hj x hx => hft.others _ (fun hm => ?_) fun he => ?_) fun id hi =>
      hft.others id (fun hm => ?_) fun he => ?_
    · obtain ⟨y, hy, he⟩ := List.mem_map.1 hm
      exact hj (hl.apart hx (hsub y hy) he.symm)
    · exact hj (hl.apart hx ho (he.trans htid))
    · obtain ⟨y, hy, rfl⟩ := List.mem_map.1 hm
      have := hl.issued (hsub y hy)
      omega
    · have := hl.issued ho
      rw [he, htid] at hi
      omega

/-! ## Runs -/

/-- The live order a cancel or a replace is about, and its instrument. -/
def TradingCore.target (c : TradingCore n m) (request : OrderRequest) : Option (Fin n × OrderNode) :=
  match c.client_orders.lookup (request.account, request.target_client_order_id) with
  | none => none
  | some order_id =>
    match c.live_orders.lookup order_id with
    | none => none
    | some live =>
      match (c.book live.instrument_index).get order_id with
      | .ok (some node) => some (live.instrument_index, node)
      | _ => none

theorem View.target_of_mem (h : View c d) {o : NewOrder} (ho : o ∈ d.book i) (hacc : o.account = request.account)
    (hcl : o.client_order_id = request.target_client_order_id) :
    ∃ node, c.target request = some (i, node) ∧ node.toNewOrder = o := by
  obtain ⟨a, ha⟩ := h.inv.owned ho
  obtain ⟨node, hnode, hno⟩ := (h.books i).get_ok ho
  have hclient : c.client_orders.lookup (request.account, request.target_client_order_id) = some o.order_id :=
    (h.ledger.orders.client _ _).2 ⟨i, o.tag, List.mem_map_of_mem ho, by rw [← hacc, ← hcl]; rfl, rfl⟩
  have hlive : c.live_orders.lookup o.order_id = some ⟨a, i⟩ :=
    (h.ledger.orders.live _ ⟨a, i⟩).2 ⟨o.tag, List.mem_map_of_mem ho, rfl, ha⟩
  exact ⟨node, by simp only [TradingCore.target, hclient, hlive, hnode], hno⟩

/-- The request would trade if it put its target at its price. -/
def TradingCore.trades_at_once (c : TradingCore n m) (request : OrderRequest) (target : Fin n × OrderNode) : Bool :=
  ((c.book target.1).next_eligible_price target.2.side.opposite (some request.price)).isSome

/-- If this turn replaces an order that has fills, the order does not trade at once. -/
def ReplacesQuietly (t : CoreTurn n m) : Prop :=
  t.input.event.OnOrder fun request => request.kind = .Replace → t.before.cache_hit request = none →
    ∀ target ∈ t.before.target request, 0 < val target.2.cumulative_filled →
      t.before.trades_at_once request target = false

instance (t : CoreTurn n m) : Decidable (ReplacesQuietly t) :=
  inferInstanceAs (Decidable (t.input.event.OnOrder _))

theorem View.not_crosses (h : View c d) {node : OrderNode} (hq : c.trades_at_once request (i, node) = false)
    {x : NewOrder} (hx : x ∈ d.book i) (hxs : x.side = node.side.opposite) : ¬Crosses x.side x.price request.price := by
  rw [TradingCore.trades_at_once, Option.isSome_eq_false_iff, Option.isNone_iff_eq_none] at hq
  rw [hxs]
  exact (h.books i).next_eligible_none hq hx hxs

/-- The outputs of the turns. -/
def outputs (ts : List (CoreTurn n m)) : List OutputEvent := (ts.map Turn.output).flatten

theorem outputs_append (ts ts' : List (CoreTurn n m)) : outputs (ts ++ ts') = outputs ts ++ outputs ts' := by
  simp [outputs]

/-- What the orders traded in the turns. -/
def tradedIn (ts : List (CoreTurn n m)) (id : OrderId) : Int := traded_by id (trades (outputs ts))

/-- The turn is no exact retry. -/
def Fresh (t : CoreTurn n m) : Prop := t.input.event.OnOrder fun request => ¬t.before.Retries request

/-- The reports of an input tally, unless it is an exact retry. -/
theorem Effect.tally {event : InputEvent} (h : Effect c d event story d') (hv : View c d)
    (hnext : val d.next_order_id ≤ val d'.next_order_id) (hT : Tallied T d)
    (hq : event.OnOrder fun request => c.cache_hit request = none → QuietReplace d request) :
    ((event.OnOrder fun request => ¬c.Retries request) → TalliesAll T story) ∧ Tallied (after T story) d' := by
  have hzero : ∀ {story : List OutputEvent}, trades story = [] → after T story = T := by
    intro story hs
    funext id
    rw [after, hs]
    exact Int.add_zero _
  cases h with
  | quiet _ hstory =>
    rcases hstory with rfl | ⟨state, rfl⟩
    · exact ⟨fun _ => trivial, by rw [hzero rfl]; exact hT⟩
    · exact ⟨fun _ => trivial, by rw [hzero rfl]; exact hT⟩
  | retry hhit => exact ⟨fun hn => absurd ⟨_, _, hhit⟩ hn, by rw [hzero rfl]; exact hT⟩
  | conflict hhit => exact ⟨fun _ => ⟨fun hid => absurd rfl hid, trivial⟩, by rw [hzero rfl]; exact hT⟩
  | handled hhit hstory =>
    obtain ⟨h1, h2⟩ := hstory.tally hv.inv hnext hT (hq hhit)
    exact ⟨fun _ => h1, h2⟩

/-- A replace that does not trade at once crosses no resting order. -/
theorem ReplacesQuietly.quiet {t : CoreTurn n m} (h : ReplacesQuietly t) (hv : View t.before d) :
    t.input.event.OnOrder fun request => t.before.cache_hit request = none → QuietReplace d request := by
  rw [ReplacesQuietly] at h
  cases he : t.input.event with
  | Market _ => trivial
  | Control _ => trivial
  | Order request =>
    rw [he] at h
    intro hhit hk i o ho hacc hcl hpos x hx hxs
    obtain ⟨node, htarget, rfl⟩ := hv.target_of_mem ho hacc hcl
    exact hv.not_crosses (h hk hhit _ htarget hpos) hx hxs

/-- The reports of all turns tally with the trades before them. -/
structure TalliedRun (ts : List (CoreTurn n m)) (d : Desk n m) : Prop where
  orders : Tallied (tradedIn ts) d
  reports : ∀ pre t post, ts = pre ++ t :: post → Fresh t → TalliesAll (tradedIn pre) t.output

theorem TalliedRun.snoc {ts : List (CoreTurn n m)} (h : TalliedRun ts d) {input : EngineInput} {out : List OutputEvent}
    {seq : EngineSeq} {ms : List (Move n m)} (hv : View c d) (hd : Done c c' d input.event out (c.stampsAt seq) d' ms)
    (hq : ReplacesQuietly (⟨c, input, out⟩ : CoreTurn n m)) : TalliedRun (ts ++ [⟨c, input, out⟩]) d' := by
  obtain ⟨story, heffect, hemits⟩ := hd.told
  have hnext := (hd.steps.evolves (wordBounds c) hv.inv).issued
  obtain ⟨h1, h2⟩ := heffect.tally hv hnext h.orders (hq.quiet hv)
  have hafter : after (tradedIn ts) story = tradedIn (ts ++ [⟨c, input, out⟩]) := by
    funext id
    rw [after, tradedIn, tradedIn, outputs_append, trades_append, traded_by_append, ← hemits.bare, traded_by_bare]
    simp [outputs]
  rw [hafter] at h2
  refine ⟨h2, fun pre t post hts hfresh => ?_⟩
  rcases List.eq_nil_or_concat post with rfl | ⟨post', t', rfl⟩
  · obtain ⟨rfl, ht⟩ := List.append_inj' hts rfl
    cases ht
    apply talliesAll_of_bare
    rw [hemits.bare]
    exact h1 hfresh
  · rw [List.concat_eq_append, ← List.cons_append, ← List.append_assoc] at hts
    obtain ⟨rfl, -⟩ := List.append_inj' hts rfl
    exact h.reports pre t post' rfl hfresh

/-- In a run without a fault in which no replace of an order that has fills trades at once, the cumulative fill of every
report but those of exact retries is what the order traded up to there, and an order that is not done has the rest of its
total remaining. -/
theorem reports_tally_with_trades {allocator : SlabAllocator} {config : EngineConfig} {inputs : List EngineInput}
    {c : TradingCore config.instruments.length config.accounts.length} {ts : List (CoreTurn _ _)}
    (h : (TradingCore.new allocator config).history inputs = .ok (c, ts)) (hf : c.fault = none)
    (hq : ∀ t ∈ ts, ReplacesQuietly t) {pre post : List (CoreTurn _ _)} {t : CoreTurn _ _} (hts : ts = pre ++ t :: post)
    (hfresh : Fresh t) {before rest : List OutputEvent} {report : ExecutionReport}
    (hout : t.output = before ++ .Report report :: rest) (hid : report.order_id ≠ 0) :
    val report.cumulative_filled = traded_by report.order_id (trades (outputs pre ++ before)) ∧
      (report.state = .Working ∨ report.state = .PartiallyFilled →
        val report.remaining = val report.total_quantity - val report.cumulative_filled) := by
  obtain ⟨d, -, hrun⟩ := history_steady (view_new allocator config)
    (fun _ ts d => (∀ t ∈ ts, ReplacesQuietly t) → TalliedRun ts d)
    (fun _ => ⟨⟨fun _ _ ho => (nomatch ho), fun _ _ => rfl⟩, by simp⟩)
    (fun ih hv _ _ _ _ hd hq => (ih fun t ht => hq t (List.mem_append_left _ ht)).snoc hv hd
      (hq _ (List.mem_append_right _ (List.mem_singleton_self _)))) h hf
  have hall := (hrun hq).reports pre t post hts hfresh
  rw [hout] at hall
  obtain ⟨h1, h2⟩ := hall.report hid
  refine ⟨?_, h2⟩
  rw [h1, trades_append, traded_by_append]
  rfl

/-- The maker report of a fill of three lots. -/
theorem reports_tally_with_trades_small :
    ∃ c pre t post before report rest, smallCore.history smallInputs = .ok (c, pre ++ t :: post) ∧ c.fault = none ∧
      t.output = before ++ .Report report :: rest ∧ report.order_id = 1 ∧ val report.cumulative_filled = 3 ∧
      traded_by 1 (trades (outputs pre ++ before)) = 3 := by
  have hends : Ends (smallCore.history smallInputs) fun r => r.1.fault = none ∧ (∀ t ∈ r.2, ReplacesQuietly t) ∧
      ∃ t ∈ r.2[4]?, t.input = placed 2 1 .Buy 100 3 ∧
        t.before.retried ⟨.New, 2, 1, 1, 1, 1, 0, .Buy, .Limit, 100, 3⟩ = false ∧
        ∃ event ∈ t.output[1]?, ∃ report ∈ final_report [event], report.order_id = 1 ∧ val report.cumulative_filled = 3 := by
    decide +kernel
  obtain ⟨⟨c, ts⟩, hr, hf, hq, t, ht, hi, hret, event, he, report, hrep, hid, hcum⟩ := hends
  dsimp only at hr hf hq ht
  have hevent : event = .Report report := by
    cases event <;> cases hrep
    rfl
  subst hevent
  have hts := eq_take_cons_drop ht
  have hout := eq_take_cons_drop he
  have hfresh : Fresh t := by
    rw [Fresh, hi]
    rw [← Bool.not_eq_true, retried_iff] at hret
    exact hret
  obtain ⟨h1, -⟩ := reports_tally_with_trades hr hf hq hts hfresh hout (by rw [hid]; decide)
  rw [hts] at hr
  exact ⟨c, _, t, _, _, report, _, hr, hf, hout, hid, hcum, by rw [← hid, ← h1]; exact hcum⟩

/-- An order with three of its lots filled is replaced by one for eight at a lower price and trades four at once: the
report of that fill counts from zero, and its quantities do not add up. -/
theorem replace_report_miscounts :
    ∃ c pre t post before report rest, smallCore.history (smallInputs ++ [replacing 1 2 1 .Sell 99 8]) =
        .ok (c, pre ++ t :: post) ∧ c.fault = none ∧ Fresh t ∧ t.output = before ++ .Report report :: rest ∧
      report.order_id = 1 ∧ report.state = .PartiallyFilled ∧ val report.cumulative_filled = 4 ∧
      traded_by 1 (trades (outputs pre ++ before)) = 7 ∧ val report.total_quantity = 8 ∧ val report.remaining = 1 := by
  have hends : Ends (smallCore.history (smallInputs ++ [replacing 1 2 1 .Sell 99 8])) fun r => r.1.fault = none ∧
      ∃ t ∈ r.2[6]?, t.input = replacing 1 2 1 .Sell 99 8 ∧
        t.before.retried ⟨.Replace, 1, 1, 2, 2, 2, 1, .Sell, .Limit, 99, 8⟩ = false ∧
        traded_by 1 (trades (outputs (r.2.take 6) ++ t.output.take 2)) = 7 ∧
        ∃ event ∈ t.output[2]?, ∃ report ∈ final_report [event], report.order_id = 1 ∧ report.state = .PartiallyFilled ∧
          val report.cumulative_filled = 4 ∧ val report.total_quantity = 8 ∧ val report.remaining = 1 := by
    decide +kernel
  obtain ⟨⟨c, ts⟩, hr, hf, t, ht, hi, hret, htr, event, he, report, hrep, hid, hst, hcum, htot, hrem⟩ := hends
  dsimp only at hr hf ht
  have hevent : event = .Report report := by
    cases event <;> cases hrep
    rfl
  subst hevent
  have hts := eq_take_cons_drop ht
  rw [hts] at hr
  have hfresh : Fresh t := by
    rw [Fresh, hi]
    rw [← Bool.not_eq_true, retried_iff] at hret
    exact hret
  exact ⟨c, _, t, _, _, report, _, hr, hf, hfresh, eq_take_cons_drop he, hid, hst, hcum, htr, htot, hrem⟩

end Requests

/-! ## Identities -/

/-- What an order is entered with. -/
structure Identity where
  account : AccountId
  instrument : InstrumentId
  side : Side
  client_order_id : ClientOrderId
deriving DecidableEq

def OrderRequest.identity (request : OrderRequest) : Identity :=
  ⟨request.account, request.instrument, request.side, request.client_order_id⟩

def ExecutionReport.identity (report : ExecutionReport) : Identity :=
  ⟨report.account, report.instrument, report.side, report.client_order_id⟩

def Tag.identity (tag : Tag) (instrument : InstrumentId) : Identity :=
  ⟨tag.account, instrument, tag.side, tag.client_order_id⟩

theorem mem_fillsStory {instrument : InstrumentId} {request : OrderRequest} {tid : OrderId} {side : Side}
    {quantity filled : QuantityLots} {fills : List Fill} {report : ExecutionReport}
    (h : .Report report ∈ fillsStory instrument request tid side quantity filled fills) :
    ∃ fill ∈ fills, report = makerReport instrument side fill ∨
      ∃ filled, report = takerReport request tid side quantity filled fill := by
  induction fills generalizing filled with
  | nil => cases h
  | cons fill fills ih =>
    rw [fillsStory, List.mem_append] at h
    rcases h with h | h
    · refine ⟨fill, List.mem_cons_self, ?_⟩
      simp only [fillStory, List.mem_cons, reduceCtorEq, OutputEvent.Report.injEq, List.not_mem_nil, or_false,
        false_or] at h
      rcases h with h | h
      · exact .inl h
      · exact .inr ⟨_, h⟩
    · obtain ⟨fill', hf, hr⟩ := ih h
      exact ⟨fill', List.mem_cons_of_mem _ hf, hr⟩

/-- Fills keep the tags of the makers: those of the fills and those of the orders that are left. -/
theorem Fills.tags {s : Side} {limit : PriceTicks} {l l' : List NewOrder} {r r' : UInt64} {fills : List Fill}
    (h : Fills s limit l r fills l' r') :
    (∀ fill ∈ fills, ∃ o ∈ l, o.tag = ⟨fill.maker_order_id, fill.maker_account, fill.maker_client_order_id, s⟩) ∧
      ∀ x ∈ l', ∃ o ∈ l, o.tag = x.tag := by
  induction h with
  | nil => exact ⟨by simp, fun x hx => ⟨x, hx, rfl⟩⟩
  | @cons l r o fs l' r' _ hnext _ _ ih =>
    have hback : ∀ x ∈ afterFill l o (min r o.left), ∃ y ∈ l, y.tag = x.tag := by
      intro x hx
      rcases mem_afterFill hx with ⟨hx, -⟩ | ⟨-, y, hy, -, rfl⟩
      · exact ⟨x, hx, rfl⟩
      · exact ⟨y, hy, rfl⟩
    constructor
    · intro fill hfill
      rcases List.mem_cons.1 hfill with rfl | hfill
      · obtain ⟨ho, hs⟩ := hnext.mem
        exact ⟨o, ho, by rw [← hs]; rfl⟩
      · obtain ⟨x, hx, hxt⟩ := ih.1 fill hfill
        obtain ⟨y, hy, hyt⟩ := hback x hx
        exact ⟨y, hy, hyt.trans hxt⟩
    · intro x hx
      obtain ⟨y, hy, hyt⟩ := ih.2 x hx
      obtain ⟨z, hz, hzt⟩ := hback y hy
      exact ⟨z, hz, hzt.trans hyt⟩

section Names
variable {n m : Nat} {c c' : TradingCore n m} {d d' : Desk n m}
variable {request : OrderRequest} {out : List OutputEvent} {w : Wiring n m}

/-- A resting order with this id and identity. -/
def Named (w : Wiring n m) (d : Desk n m) (id : OrderId) (who : Identity) : Prop :=
  ∃ i, ∃ o ∈ d.book i, o.order_id = id ∧ o.tag.identity (w.instruments i).id = who

/-- The request enters a new order with this id. -/
def Opens (request : OrderRequest) (story : List OutputEvent) (id : OrderId) : Prop :=
  request.kind = .New ∧ id ≠ 0 ∧ ∃ report, final_report story = some report ∧ report.order_id = id

/-- The identity is that of a resting order or of the new one. -/
def NamedBy (w : Wiring n m) (d : Desk n m) (request : OrderRequest) (story : List OutputEvent) (id : OrderId)
    (who : Identity) : Prop :=
  Named w d id who ∨ (Opens request story id ∧ request.identity = who)

/-- A cancel names the instrument of its order, and a replace that crosses an order of the other side its client order id. -/
structure NamesOrder (w : Wiring n m) (d : Desk n m) (request : OrderRequest) : Prop where
  cancel : request.kind = .Cancel → ∀ i, ∀ o ∈ d.book i, o.account = request.account →
    o.client_order_id = request.target_client_order_id → (w.instruments i).id = request.instrument
  replace : request.kind = .Replace → ∀ i, ∀ o ∈ d.book i, o.account = request.account →
    o.client_order_id = request.target_client_order_id →
    ∀ x ∈ d.book i, x.side = o.side.opposite → Crosses x.side x.price request.price →
    request.client_order_id = o.client_order_id

/-- What the outputs of a request say about identities, and the orders it leaves. -/
structure Names (w : Wiring n m) (d d' : Desk n m) (request : OrderRequest) (story : List OutputEvent) : Prop where
  reports : ∀ report, .Report report ∈ story → report.order_id ≠ 0 →
    NamedBy w d request story report.order_id report.identity
  resting : ∀ i, ∀ o ∈ d'.book i, NamedBy w d request story o.order_id (o.tag.identity (w.instruments i).id)
  opened : ∀ id, Opens request story id → val d.next_order_id < val id ∧ val id ≤ val d'.next_order_id

/-- One report about a resting order, and orders that rested before. -/
theorem Names.one {report : ExecutionReport} (hnew : request.kind = .New → report.order_id = 0)
    (hrep : report.order_id ≠ 0 → Named w d report.order_id report.identity)
    (hbook : ∀ i, ∀ x ∈ d'.book i, ∃ y ∈ d.book i, y.tag = x.tag) : Names w d d' request [.Report report] where
  reports r hr hid := by
    obtain rfl : r = report := by simpa using hr
    exact .inl (hrep hid)
  resting i o ho := by
    obtain ⟨y, hy, ht⟩ := hbook i o ho
    exact .inl ⟨i, y, hy, congrArg Tag.order_id ht, by rw [ht]⟩
  opened id h := by
    obtain ⟨hk, hid, r, hr, rfl⟩ := h
    obtain rfl : report = r := by simpa [final_report] using hr
    exact absurd (hnew hk) hid

/-- The reports of the makers name resting orders. -/
theorem named_maker {i : Fin n} {s : Side} {limit : PriceTicks} {l l' : List NewOrder} {r r' : UInt64}
    {fills : List Fill} (h : Fills s.opposite limit l r fills l' r') (hl : ∀ x ∈ l, x ∈ d.book i) {fill : Fill}
    (hf : fill ∈ fills) :
    Named w d (makerReport (w.instruments i).id s fill).order_id (makerReport (w.instruments i).id s fill).identity := by
  obtain ⟨o, ho, ht⟩ := h.tags.1 fill hf
  exact ⟨i, o, hl o ho, congrArg Tag.order_id ht, by rw [ht]; rfl⟩

theorem Landing.identity {f : Flight n m} {kind : ReportKind} {fits : Bool} {filled r' : QuantityLots}
    {l' l'' : List NewOrder} {report : ExecutionReport} (h : Landing f request kind fits filled r' l' report l'')
    (hacc : f.tag.account = request.account) :
    report.order_id = f.tag.order_id ∧ report.identity = f.tag.identity request.instrument ∧
      ∀ x ∈ l'', x ∈ l' ∨ x.tag = f.tag := by
  have hid : ∀ {kind state filled left}, (landed request f.tag kind state filled left).identity =
      f.tag.identity request.instrument := by
    intro kind state filled left
    rw [Tag.identity, hacc]
    rfl
  cases h with
  | filled | cancelled | dropped => exact ⟨rfl, hid, fun x hx => .inl hx⟩
  | rests =>
    refine ⟨rfl, hid, fun x hx => ?_⟩
    rcases List.mem_append.1 hx with hx | hx
    · exact .inl hx
    · rw [List.mem_singleton.1 hx]
      exact .inr rfl

theorem Story.names {fits : Bool} {story : List OutputEvent} (h : Story w fits d request story d')
    (hw : ∀ {x i}, w.instrument_index.lookup x = some i → (w.instruments i).id = x) (hq : NamesOrder w d request) :
    Names w d d' request story := by
  have hnamed : ∀ {i o who}, o ∈ d.book i → o.tag.identity (w.instruments i).id = who → Named w d o.order_id who :=
    fun ho hwho => ⟨_, _, ho, rfl, hwho⟩
  cases h with
  | reject reason => exact .one (fun _ => rfl) (fun hid => absurd rfl hid) fun i x hx => ⟨x, hx, rfl⟩
  | @cancel i o hk ho hacc hcl =>
    refine .one (by rw [hk]; nofun) (fun _ => hnamed ho ?_) fun j x hx => ⟨x, mem_of_setBook_without hx, rfl⟩
    rw [hq.cancel hk i o ho hacc hcl]
    exact congrArg (fun a => (⟨a, _, _, _⟩ : Identity)) hacc
  | @retire i o hk ho hacc _ hi _ =>
    refine .one (by rw [hk]; nofun) (fun _ => hnamed ho ?_) fun j x hx => ⟨x, mem_of_setBook_without hx, rfl⟩
    rw [hw hi]
    exact congrArg (fun a => (⟨a, _, _, _⟩ : Identity)) hacc
  | @shrink i o r' hk ho hacc _ hi _ _ _ =>
    refine .one (by rw [hk]; nofun) (fun _ => hnamed ho ?_) fun j x hx => ?_
    · rw [hw hi]
      exact congrArg (fun a => (⟨a, _, _, _⟩ : Identity)) hacc
    · rw [mem_setBook] at hx
      split at hx
      · rename_i hj
        subst hj
        rcases mem_amend.1 hx with ⟨hx, -⟩ | ⟨y, hy, -, rfl⟩
        · exact ⟨x, hx, rfl⟩
        · exact ⟨y, hy, rfl⟩
      · exact ⟨x, hx, rfl⟩
  | @enter f _ fills l' l'' r' filled report _ hk hacc hcl hside hid hid' _ hi hfills _ hland hbook =>
    obtain ⟨hrid, hrwho, hl''⟩ := hland.identity hacc
    have hwho : f.tag.identity request.instrument = request.identity := by
      rw [Tag.identity, hacc, hcl, hside]
      rfl
    have h0 := (u64_bounds d.next_order_id).1
    have hne : f.tag.order_id ≠ 0 := by
      intro he
      rw [he, u64_val_zero] at hid
      omega
    have hopen : Opens request (fillsStory (w.instruments f.instrument_index).id request f.tag.order_id f.tag.side f.left 0
        fills ++ [.Report report]) f.tag.order_id :=
      ⟨hk, hne, report, final_report_append _ _, hrid⟩
    refine ⟨fun r hr hrne => ?_, fun j x hx => ?_, fun id hop => ?_⟩
    · rcases List.mem_append.1 hr with hr | hr
      · obtain ⟨fill, hf, rfl | ⟨q, rfl⟩⟩ := mem_fillsStory hr
        · exact .inl (named_maker hfills (fun x hx => hx) hf)
        · refine .inr ⟨hopen, ?_⟩
          rw [← hwho, Tag.identity, hacc, hcl]
          rfl
      · obtain rfl : r = report := by simpa using hr
        rw [hrid, hrwho, hwho]
        exact .inr ⟨hopen, rfl⟩
    · rw [hbook, Function.update_apply] at hx
      split at hx
      · rename_i hj
        subst hj
        rcases hl'' x hx with hx | ht
        · obtain ⟨o, ho, hot⟩ := hfills.tags.2 x hx
          exact .inl ⟨_, o, ho, congrArg Tag.order_id hot, by rw [hot]⟩
        · refine .inr ⟨?_, by rw [ht, hw hi, hwho]⟩
          rw [show x.order_id = f.tag.order_id from congrArg Tag.order_id ht]
          exact hopen
      · exact .inl ⟨j, x, hx, rfl, rfl⟩
    · obtain ⟨-, -, r, hr, rfl⟩ := hop
      rw [final_report_append] at hr
      cases hr
      rw [hrid]
      exact ⟨by omega, hid'⟩
  | @requeue f o fills l' l'' r' filled report _ hk ho hacc hcl htag _ _ hi hfills _ hland hbook =>
    have hsub : ∀ x ∈ without NewOrder.order_id o.order_id (d.book f.instrument_index), x ∈ d.book f.instrument_index :=
      fun x hx => (mem_without.1 hx).1
    have htacc : f.tag.account = request.account := by rw [htag]; exact hacc
    obtain ⟨hrid, hrwho, hl''⟩ := hland.identity htacc
    rw [htag] at hrid hrwho hl''
    have hnamed' : Named w d o.order_id (o.tag.identity request.instrument) := by
      refine hnamed ho ?_
      rw [hw hi]
    refine ⟨fun r hr hrne => ?_, fun j x hx => ?_, fun id hop => ?_⟩
    · rcases List.mem_append.1 hr with hr | hr
      · obtain ⟨fill, hf, rfl | ⟨q, rfl⟩⟩ := mem_fillsStory hr
        · exact .inl (named_maker hfills hsub hf)
        · -- The order traded, so it crossed an order of the other side.
          have hclient : request.client_order_id = o.client_order_id := by
            cases hfills with
            | nil => cases hf
            | @cons _ _ x _ _ _ _ hnext hcross _ =>
              obtain ⟨hx, hxs⟩ := hnext.mem
              refine hq.replace hk _ o ho hacc hcl x (hsub x hx) (by rw [hxs, htag]; rfl) ?_
              rw [hxs]
              exact hcross
          rw [show (takerReport request f.tag.order_id f.tag.side f.left q fill).order_id = o.order_id by rw [htag]; rfl,
            show (takerReport request f.tag.order_id f.tag.side f.left q fill).identity =
              o.tag.identity request.instrument by
                rw [htag, Tag.identity, show o.tag.account = request.account from hacc,
                  show o.tag.client_order_id = request.client_order_id from hclient.symm]
                rfl]
          exact .inl hnamed'
      · obtain rfl : r = report := by simpa using hr
        rw [hrid, hrwho]
        exact .inl hnamed'
    · rw [hbook, Function.update_apply] at hx
      split at hx
      · rename_i hj
        subst hj
        rcases hl'' x hx with hx | ht
        · obtain ⟨y, hy, hyt⟩ := hfills.tags.2 x hx
          exact .inl ⟨_, y, hsub y hy, congrArg Tag.order_id hyt, by rw [hyt]⟩
        · exact .inl ⟨_, o, ho, (congrArg Tag.order_id ht).symm, by rw [ht]⟩
      · exact .inl ⟨j, x, hx, rfl, rfl⟩
    · obtain ⟨hn, -⟩ := hop
      rw [hk] at hn
      cases hn

/-! ## Identities in runs -/

/-- The turn enters an order with this id and identity. -/
def Enters (t : CoreTurn n m) (id : OrderId) (who : Identity) : Prop :=
  ∃ request, t.input.event = .Order request ∧ ¬t.before.Retries request ∧ Opens request t.output id ∧
    request.identity = who

/-- If this turn cancels an order, it names its instrument; if it replaces one that trades at once, its client order id. -/
def NamesTarget (t : CoreTurn n m) : Prop :=
  t.input.event.OnOrder fun request => t.before.cache_hit request = none → ∀ target ∈ t.before.target request,
    (request.kind = .Cancel → t.before.instruments[target.1].config.id = request.instrument) ∧
    (request.kind = .Replace → t.before.trades_at_once request target = true →
      request.client_order_id = request.target_client_order_id)

instance (t : CoreTurn n m) : Decidable (NamesTarget t) :=
  inferInstanceAs (Decidable (t.input.event.OnOrder _))

theorem NamesTarget.names {t : CoreTurn n m} (h : NamesTarget t) (hv : View t.before d)
    (he : t.input.event = .Order request) (hhit : t.before.cache_hit request = none) :
    NamesOrder t.before.wiring d request := by
  rw [NamesTarget, he] at h
  refine ⟨fun hk i o ho hacc hcl => ?_, fun hk i o ho hacc hcl x hx hxs hcross => ?_⟩
  · obtain ⟨node, htarget, rfl⟩ := hv.target_of_mem ho hacc hcl
    exact (h hhit _ htarget).1 hk
  · obtain ⟨node, htarget, rfl⟩ := hv.target_of_mem ho hacc hcl
    rw [hcl]
    refine (h hhit _ htarget).2 hk ?_
    by_contra hq
    exact hv.not_crosses (Bool.eq_false_iff.2 hq) hx hxs hcross

theorem opens_bare {id : OrderId} :
    Opens request (out.map OutputEvent.bare) id ↔ Opens request out id := by
  simp only [Opens, final_report_bare, Option.map_eq_some_iff]
  constructor
  · rintro ⟨h1, h2, _, ⟨report, h3, rfl⟩, h4⟩
    exact ⟨h1, h2, report, h3, h4⟩
  · rintro ⟨h1, h2, report, h3, h4⟩
    exact ⟨h1, h2, _, ⟨report, h3, rfl⟩, h4⟩

/-- The outcome a retry is answered with is an entry of the ring. -/
theorem mem_of_hit {a : Fin m} {previous : ExecutionReport} (h : c.cache_hit request = some (a, .Retry previous)) :
    ∃ entry, some entry ∈ (c.memory a).cache.entries ∧ entry.outcome = previous := by
  rw [cache_hit_eq (account_of_hit h), Option.map_eq_some_iff] at h
  obtain ⟨hit, hl, heq⟩ := h
  cases heq
  simp only [RequestCache.lookup, Option.bind_eq_bind, Option.bind_eq_some_iff] at hl
  obtain ⟨slot, -, entry, he, hl⟩ := hl
  split at hl
  · cases hl
  · split at hl
    · cases hl
      rw [Option.join_eq_some_iff] at he
      exact ⟨entry, List.mem_of_getElem? he, rfl⟩
    · cases hl

/-- A ring with one more outcome has the entries it had, and that one. -/
theorem mem_record {cache : RequestCache} {id : RequestId} {fingerprint : UInt64} {outcome : ExecutionReport}
    {entry : CachedRequest} (h : some entry ∈ (cache.record id fingerprint outcome).entries) :
    some entry ∈ cache.entries ∨ entry.outcome = outcome := by
  rcases List.mem_or_eq_of_mem_set h with h | h
  · exact .inl h
  · cases h
    exact .inr rfl

/-- A turn leaves in the rings what they had, and its final report. -/
theorem Remembers.entries {event : InputEvent} (h : Remembers c c' out event) {a : Fin m} {entry : CachedRequest}
    (hentry : some entry ∈ (c'.memory a).cache.entries) :
    some entry ∈ (c.memory a).cache.entries ∨ ∃ report, final_report out = some report ∧ entry.outcome = report := by
  cases h with
  | quiet _ hm | retry _ hm =>
    rw [hm] at hentry
    exact .inl hentry
  | @records _ report _ hrep hm _ =>
    rw [hm, remembered_apply] at hentry
    split at hentry
    · rcases mem_record hentry with hentry | hout
      · exact .inl hentry
      · exact .inr ⟨report, hrep, hout⟩
    · exact .inl hentry

/-- Orders, cached outcomes and reports have the identities their orders were entered with. -/
structure Identified (c : TradingCore n m) (ts : List (CoreTurn n m)) (d : Desk n m) : Prop where
  issued : ∀ t ∈ ts, ∀ id who, Enters t id who → val id ≤ val d.next_order_id
  unique : ∀ t ∈ ts, ∀ t' ∈ ts, ∀ id who who', Enters t id who → Enters t' id who' → who = who'
  resting : ∀ i, ∀ o ∈ d.book i, ∃ t ∈ ts, Enters t o.order_id (o.tag.identity (c.wiring.instruments i).id)
  cached : ∀ a entry, some entry ∈ (c.memory a).cache.entries → entry.outcome.order_id ≠ 0 →
    ∃ t ∈ ts, Enters t entry.outcome.order_id entry.outcome.identity
  reports : ∀ pre t post, ts = pre ++ t :: post → ∀ report, .Report report ∈ t.output → report.order_id ≠ 0 →
    ∃ t₀ ∈ pre ++ [t], Enters t₀ report.order_id report.identity

/-- What one turn adds. -/
structure Identifies (c : TradingCore n m) (ts : List (CoreTurn n m)) (t : CoreTurn n m) (d d' : Desk n m) : Prop where
  opened : ∀ id who, Enters t id who → val d.next_order_id < val id ∧ val id ≤ val d'.next_order_id
  resting : ∀ i, ∀ o ∈ d'.book i, ∃ t₀ ∈ ts ++ [t], Enters t₀ o.order_id (o.tag.identity (c.wiring.instruments i).id)
  reports : ∀ report, .Report report ∈ t.output → report.order_id ≠ 0 →
    ∃ t₀ ∈ ts ++ [t], Enters t₀ report.order_id report.identity

theorem Identified.turn {ts : List (CoreTurn n m)} (h : Identified c ts d) {input : EngineInput} {seq : EngineSeq}
    {ms : List (Move n m)} (hv : View c d) (hd : Done c c' d input.event out (c.stampsAt seq) d' ms)
    (hq : NamesTarget (⟨c, input, out⟩ : CoreTurn n m)) : Identifies c ts ⟨c, input, out⟩ d d' := by
  obtain ⟨story, heffect, hemits⟩ := hd.told
  have hold : ∀ {id who}, (∃ t ∈ ts, Enters t id who) → ∃ t₀ ∈ ts ++ [⟨c, input, out⟩], Enters t₀ id who := by
    rintro id who ⟨t, ht, hent⟩
    exact ⟨t, List.mem_append_left _ ht, hent⟩
  have hstory : ∀ {report : ExecutionReport}, .Report report ∈ out → .Report report.bare ∈ story := by
    intro report hr
    rw [← hemits.bare]
    exact List.mem_map_of_mem hr
  generalize he : input.event = event at heffect
  cases heffect with
  | quiet hnot hst =>
    refine ⟨fun id who hent => ?_, fun i o ho => hold (h.resting i o ho), fun report hr _ => ?_⟩
    · obtain ⟨request, he', -⟩ := hent
      rw [he] at he'
      exact absurd he' (hnot request)
    · have := hstory hr
      rcases hst with rfl | ⟨state, rfl⟩
      · cases this
      · simp at this
  | @retry request a previous hhit =>
    refine ⟨fun id who hent => ?_, fun i o ho => hold (h.resting i o ho), fun report hr hid => ?_⟩
    · obtain ⟨request', he', hn, -⟩ := hent
      rw [he] at he'
      cases he'
      exact absurd ⟨a, previous, hhit⟩ hn
    · have hb : report.bare = previous.bare := by simpa using hstory hr
      obtain ⟨entry, hentry, rfl⟩ := mem_of_hit hhit
      have h1 := congrArg ExecutionReport.order_id hb
      have h2 := congrArg ExecutionReport.identity hb
      change report.order_id = entry.outcome.order_id at h1
      change report.identity = entry.outcome.identity at h2
      rw [h1] at hid ⊢
      rw [h2]
      exact hold (h.cached a entry hentry hid)
  | @conflict request a hhit =>
    refine ⟨fun id who hent => ?_, fun i o ho => hold (h.resting i o ho), fun report hr hid => ?_⟩
    · obtain ⟨request', he', -, hop, -⟩ := hent
      rw [he] at he'
      cases he'
      rw [← opens_bare, hemits.bare] at hop
      obtain ⟨-, hid, r, hr, rfl⟩ := hop
      cases hr
      exact absurd rfl hid
    · have hb : report.bare = rejected request .DuplicateRequestConflict := by simpa using hstory hr
      exact absurd (congrArg ExecutionReport.order_id hb) hid
  | @handled request _ _ hhit hst =>
    have hn := hst.names (fun {x i} hx => hv.wired.instrument hx) (hq.names hv he hhit)
    have hfresh : ¬c.Retries request := by
      rintro ⟨a, previous, hp⟩
      rw [hhit] at hp
      cases hp
    have hby : ∀ {id who}, NamedBy c.wiring d request story id who →
        ∃ t₀ ∈ ts ++ [⟨c, input, out⟩], Enters t₀ id who := by
      rintro id who (⟨i, o, ho, rfl, rfl⟩ | ⟨hop, hwho⟩)
      · exact hold (h.resting i o ho)
      · rw [← hemits.bare, opens_bare] at hop
        exact ⟨_, List.mem_append_right _ (List.mem_singleton_self _), request, he, hfresh, hop, hwho⟩
    refine ⟨fun id who hent => ?_, fun i o ho => hby (hn.resting i o ho), fun report hr hid => ?_⟩
    · obtain ⟨request', he', -, hop, -⟩ := hent
      rw [he] at he'
      cases he'
      rw [← opens_bare, hemits.bare] at hop
      exact hn.opened id hop
    · exact hby (hn.reports report.bare (hstory hr) hid)

theorem Identified.snoc {ts : List (CoreTurn n m)} (h : Identified c ts d) {input : EngineInput} {seq : EngineSeq}
    {ms : List (Move n m)} (hv : View c d) (ha : Applied c c' d input.event out (c.stampsAt seq))
    (hd : Done c c' d input.event out (c.stampsAt seq) d' ms) (hq : NamesTarget (⟨c, input, out⟩ : CoreTurn n m)) :
    Identified c' (ts ++ [⟨c, input, out⟩]) d' := by
  have ht := h.turn hv hd hq
  have hnext := (hd.steps.evolves (wordBounds c) hv.inv).issued
  refine ⟨fun t hm id who hent => ?_, fun t hm t' hm' id who who' hent hent' => ?_, fun i o ho => ?_,
    fun a entry hentry hid => ?_, fun pre t post hts report hr hid => ?_⟩
  · rcases List.mem_append.1 hm with hm | hm
    · exact Int.le_trans (h.issued t hm id who hent) hnext
    · rw [List.mem_singleton.1 hm] at hent
      exact (ht.opened id who hent).2
  · rcases List.mem_append.1 hm with hm | hm <;> rcases List.mem_append.1 hm' with hm' | hm'
    · exact h.unique t hm t' hm' id who who' hent hent'
    · rw [List.mem_singleton.1 hm'] at hent'
      have h1 := h.issued t hm id who hent
      have h2 := (ht.opened id who' hent').1
      omega
    · rw [List.mem_singleton.1 hm] at hent
      have h1 := h.issued t' hm' id who' hent'
      have h2 := (ht.opened id who hent).1
      omega
    · rw [List.mem_singleton.1 hm] at hent
      rw [List.mem_singleton.1 hm'] at hent'
      obtain ⟨request, he, -, -, rfl⟩ := hent
      obtain ⟨request', he', -, -, rfl⟩ := hent'
      rw [he] at he'
      cases he'
      rfl
  · rw [ha.wiring]
    exact ht.resting i o ho
  · rcases ha.memory.entries hentry with hentry | ⟨report, hrep, hout⟩
    · obtain ⟨t, hm, hent⟩ := h.cached a entry hentry hid
      exact ⟨t, List.mem_append_left _ hm, hent⟩
    · rw [hout] at hid ⊢
      exact ht.reports report (mem_of_final_report hrep) hid
  · rcases List.eq_nil_or_concat post with rfl | ⟨post', t', rfl⟩
    · obtain ⟨rfl, heq⟩ := List.append_inj' hts rfl
      cases heq
      exact ht.reports report hr hid
    · rw [List.concat_eq_append, ← List.cons_append, ← List.append_assoc] at hts
      obtain ⟨rfl, -⟩ := List.append_inj' hts rfl
      exact h.reports pre t post' rfl report hr hid

/-- In a run without a fault in which cancels name the instrument of their order, and replaces that trade at once its
client order id, every report about an order has the identity the order was entered with. -/
theorem reports_identify_orders {allocator : SlabAllocator} {config : EngineConfig} {inputs : List EngineInput}
    {c : TradingCore config.instruments.length config.accounts.length} {ts : List (CoreTurn _ _)}
    (h : (TradingCore.new allocator config).history inputs = .ok (c, ts)) (hf : c.fault = none)
    (hq : ∀ t ∈ ts, NamesTarget t) {pre post : List (CoreTurn _ _)} {t : CoreTurn _ _} (hts : ts = pre ++ t :: post)
    {report : ExecutionReport} (hr : .Report report ∈ t.output) (hid : report.order_id ≠ 0) :
    (∃ t₀ ∈ pre ++ [t], Enters t₀ report.order_id report.identity) ∧
      ∀ t₀ ∈ ts, ∀ who, Enters t₀ report.order_id who → report.identity = who := by
  obtain ⟨d, -, hrun⟩ := history_steady (view_new allocator config)
    (fun c ts d => (∀ t ∈ ts, NamesTarget t) → Identified c ts d)
    (fun _ => ⟨by simp, by simp, fun _ _ ho => (nomatch ho), fun a entry he => by
      simp [TradingCore.memory, TradingCore.new, AccountState.new, RequestCache.new] at he, by simp⟩)
    (fun ih hv _ _ _ ha hd hq => (ih fun t ht => hq t (List.mem_append_left _ ht)).snoc hv ha hd
      (hq _ (List.mem_append_right _ (List.mem_singleton_self _)))) h hf
  have hrun := hrun hq
  obtain ⟨t₀, ht₀, hent⟩ := hrun.reports pre t post hts report hr hid
  refine ⟨⟨t₀, ht₀, hent⟩, fun t₁ ht₁ who hent₁ => ?_⟩
  have hmem : t₀ ∈ ts := by
    rw [hts]
    rcases List.mem_append.1 ht₀ with hm | hm
    · exact List.mem_append_left _ hm
    · rw [List.mem_singleton.1 hm]
      exact List.mem_append_right _ List.mem_cons_self
  exact hrun.unique t₀ hmem t₁ ht₁ _ _ _ hent hent₁

/-- A report about the first account's order after it was filled in part and cancelled. -/
theorem reports_identify_orders_small :
    ∃ c pre t post report, smallCore.history (smallInputs ++ [cancelling 1 2 2 1]) = .ok (c, pre ++ t :: post) ∧
      c.fault = none ∧ .Report report ∈ t.output ∧ report.order_id = 1 ∧ report.kind = .Cancelled ∧
      ∃ t₀ ∈ pre ++ [t], Enters t₀ 1 report.identity := by
  have hends : Ends (smallCore.history (smallInputs ++ [cancelling 1 2 2 1])) fun r => r.1.fault = none ∧
      (∀ t ∈ r.2, NamesTarget t) ∧ ∃ t ∈ r.2[6]?, ∃ report ∈ final_report t.output, report.order_id = 1 ∧
        report.kind = .Cancelled := by
    decide +kernel
  obtain ⟨⟨c, ts⟩, hr, hf, hq, t, ht, report, hrep, hid, hkind⟩ := hends
  dsimp only at hr hf hq ht
  have hts := eq_take_cons_drop ht
  obtain ⟨h1, -⟩ := reports_identify_orders hr hf hq hts (mem_of_final_report hrep) (by rw [hid]; decide)
  rw [hts] at hr
  rw [hid] at h1
  exact ⟨c, _, t, _, report, hr, hf, mem_of_final_report hrep, hid, hkind, h1⟩

/-- A cancel of an order of instrument 1 that says instrument 9. -/
def cancelElsewhere : EngineInput := ⟨0, 0, .Order ⟨.Cancel, 1, 9, 2, 2, 2, 1, .Buy, .Limit, 0, 0⟩⟩

/-- Order 1 was entered as the first account's sell order 1 of instrument 1. Cancelled through another instrument, it is
reported as of that one; replaced under client order id 2, its fill is reported under that one. -/
theorem reports_misname_orders :
    (∃ c ts, smallCore.history (smallInputs ++ [cancelElsewhere]) = .ok (c, ts) ∧ c.fault = none ∧
      (∃ t₀ ∈ ts, Enters t₀ 1 ⟨1, 1, .Sell, 1⟩) ∧
      ∃ t ∈ ts, ∃ report, .Report report ∈ t.output ∧ report.order_id = 1 ∧ report.identity = ⟨1, 9, .Sell, 1⟩) ∧
    ∃ c ts, smallCore.history (smallInputs ++ [replacing 1 2 1 .Sell 99 8]) = .ok (c, ts) ∧ c.fault = none ∧
      (∃ t₀ ∈ ts, Enters t₀ 1 ⟨1, 1, .Sell, 1⟩) ∧
      ∃ t ∈ ts, ∃ report, .Report report ∈ t.output ∧ report.order_id = 1 ∧ report.identity = ⟨1, 1, .Sell, 2⟩ := by
  have henters : ∀ {t : CoreTurn (smallConfig smallLimits [1, 2]).instruments.length
      (smallConfig smallLimits [1, 2]).accounts.length}, t.input = placed 1 1 .Sell 100 5 →
      t.before.retried ⟨.New, 1, 1, 1, 1, 1, 0, .Sell, .Limit, 100, 5⟩ = false →
      (∃ report ∈ final_report t.output, report.order_id = 1) → Enters t 1 ⟨1, 1, .Sell, 1⟩ := by
    rintro t hi hret ⟨report, hrep, hid⟩
    rw [← Bool.not_eq_true, retried_iff] at hret
    exact ⟨_, by rw [hi]; rfl, hret, ⟨rfl, by decide, report, hrep, hid⟩, rfl⟩
  constructor
  · have hends : Ends (smallCore.history (smallInputs ++ [cancelElsewhere])) fun r => r.1.fault = none ∧
        (∃ t ∈ r.2[3]?, t.input = placed 1 1 .Sell 100 5 ∧
          t.before.retried ⟨.New, 1, 1, 1, 1, 1, 0, .Sell, .Limit, 100, 5⟩ = false ∧
          ∃ report ∈ final_report t.output, report.order_id = 1) ∧
        ∃ t ∈ r.2[6]?, ∃ report ∈ final_report t.output, report.order_id = 1 ∧ report.identity = ⟨1, 9, .Sell, 1⟩ := by
      decide +kernel
    obtain ⟨⟨c, ts⟩, hr, hf, ⟨t₀, ht₀, hi, hret, hrep₀⟩, t, ht, report, hrep, hid, hwho⟩ := hends
    exact ⟨c, ts, hr, hf, ⟨t₀, List.mem_of_getElem? ht₀, henters hi hret hrep₀⟩, t, List.mem_of_getElem? ht, report,
      mem_of_final_report hrep, hid, hwho⟩
  · have hends : Ends (smallCore.history (smallInputs ++ [replacing 1 2 1 .Sell 99 8])) fun r => r.1.fault = none ∧
        (∃ t ∈ r.2[3]?, t.input = placed 1 1 .Sell 100 5 ∧
          t.before.retried ⟨.New, 1, 1, 1, 1, 1, 0, .Sell, .Limit, 100, 5⟩ = false ∧
          ∃ report ∈ final_report t.output, report.order_id = 1) ∧
        ∃ t ∈ r.2[6]?, ∃ report ∈ final_report (t.output.take 3), report.order_id = 1 ∧
          report.identity = ⟨1, 1, .Sell, 2⟩ := by
      decide +kernel
    obtain ⟨⟨c, ts⟩, hr, hf, ⟨t₀, ht₀, hi, hret, hrep₀⟩, t, ht, report, hrep, hid, hwho⟩ := hends
    exact ⟨c, ts, hr, hf, ⟨t₀, List.mem_of_getElem? ht₀, henters hi hret hrep₀⟩, t, List.mem_of_getElem? ht, report,
      List.mem_of_mem_take (mem_of_final_report hrep), hid, hwho⟩

end Names

end TradingLab
