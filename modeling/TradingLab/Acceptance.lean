import TradingLab.Invariants
/-!
# Accepted orders

A report of a working order should mean that the order is in the book. It does
exactly when the order fits into its price level: the book refuses an order
that would overflow the level's aggregates, and `rest_order_with` does not
tell anyone.
-/
open LabLib

namespace TradingLab

section Acceptance
variable {n m : Nat} {c c' : TradingCore n m} {d d' : Desk n m}
variable {report : ExecutionReport} {request : OrderRequest}

/-! ## Reports and the desk -/

/-- The order of a report rests in the instrument just as the report says. -/
def Shown (d : Desk n m) (i : Fin n) (report : ExecutionReport) : Prop :=
  ∃ o ∈ d.book i, o.tag = ⟨report.order_id, report.account, report.client_order_id, report.side⟩ ∧
    o.price = report.price ∧ o.total_quantity = report.total_quantity ∧
    o.cumulative_filled = report.cumulative_filled ∧ o.left = report.remaining

/-- An order that went through matching is shown by its report just when it fits. -/
theorem Landing.shown {f : Flight n m} {kind : ReportKind} {fits : Bool} {filled r' : QuantityLots}
    {l' l'' : List NewOrder} (h : Landing f request kind fits filled r' l' report l'')
    (hacc : f.tag.account = request.account) (hfresh : f.tag.order_id ∉ l'.map NewOrder.order_id)
    (hsum : val filled + val r' = val request.quantity)
    (hbook : d'.book = Function.update d.book f.instrument_index l'')
    (hs : report.state = .Working ∨ report.state = .PartiallyFilled) :
    Shown d' f.instrument_index report ↔ fits = true := by
  have hr0 := (u64_bounds r').1
  rw [Shown, hbook, Function.update_self]
  cases h with
  | filled => simp [landed] at hs
  | cancelled => simp [landed] at hs
  | rests priority _ _ hfits =>
    refine iff_of_true ⟨_, List.mem_append_right _ (List.mem_singleton_self _), ?_, rfl, rfl, rfl, ?_⟩ hfits
    · simp only [landed, plain, ← hacc]
      rfl
    · refine val_inj.1 ((NewOrder.left_val ?_).trans ?_)
      · simp only [NewOrder.Sound, Flight.order]; omega
      · simp only [Flight.order, landed]; omega
  | dropped _ _ hfits =>
    refine iff_of_false ?_ (by rw [hfits]; exact Bool.false_ne_true)
    rintro ⟨o, ho, ht, -⟩
    exact hfresh (List.mem_map.2 ⟨o, ho, congrArg Tag.order_id ht⟩)

/-- A final report of a working order tells the truth just when the order fits. -/
theorem Story.shown {w : Wiring n m} {fits : Bool} {story : List OutputEvent} (h : Story w fits d request story d')
    (hinv : Inv d) (hlast : final_report story = some report)
    (hs : report.state = .Working ∨ report.state = .PartiallyFilled) :
    ∃ i, w.instrument_index.lookup report.instrument = some i ∧ (Shown d' i report ↔ fits = true) := by
  have hl := hinv.toListed
  cases h with
  | reject reason =>
    cases hlast
    simp [rejected] at hs
  | cancel =>
    cases hlast
    simp [cancelled] at hs
  | retire =>
    cases hlast
    simp [retired] at hs
  | @shrink i o r' _ ho hacc _ hi hfits hp hr =>
    cases hlast
    have hr0 := (u64_bounds r').1
    refine ⟨i, hi, iff_of_true ⟨{ o with total_quantity := request.quantity }, ?_, ?_, hp.symm, rfl, rfl, ?_⟩ hfits⟩
    · rw [mem_setBook, if_pos rfl]
      exact mem_amend.2 (.inr ⟨o, ho, rfl, rfl⟩)
    · simp only [landed, plain, ← hacc]
      rfl
    · refine val_inj.1 ((NewOrder.left_val ?_).trans hr.symm)
      simp only [NewOrder.Sound]; omega
  | enter _ hacc _ _ hid _ _ hi hfills hsum hland hbook =>
    rw [final_report_append] at hlast
    cases hlast
    have hins : report.instrument = request.instrument := hland.instrument
    rw [hins]
    refine ⟨_, hi, hland.shown hacc (fun hm => ?_) hsum hbook hs⟩
    obtain ⟨x, hx, he⟩ := List.mem_map.1 (hfills.ids_subset.subset hm)
    have := hl.issued hx
    rw [he] at this
    omega
  | @requeue f o _ _ _ _ _ _ _ _ ho hacc _ htag _ _ hi hfills hsum hland hbook =>
    rw [final_report_append] at hlast
    cases hlast
    have hins : report.instrument = request.instrument := hland.instrument
    rw [hins]
    refine ⟨_, hi, hland.shown (by rw [htag]; exact hacc) (fun hm => ?_) hsum hbook hs⟩
    obtain ⟨x, hx, he⟩ := List.mem_map.1 (hfills.ids_subset.subset hm)
    rw [htag] at he
    exact (mem_without.1 hx).2 he

/-! ## Reports and the engine -/

/-- The order of a report is live in the book of its instrument just as the
report says, its remainder is part of what its account has reserved, and the
client finds it under its own id. -/
structure Rests (c : TradingCore n m) (report : ExecutionReport) (a : Fin m) (i : Fin n) (node : OrderNode) : Prop where
  account : c.account_index_of report.account = some a
  instrument : c.instrument_index_of report.instrument = some i
  live : c.LiveIn i report.order_id node
  indexed : c.live_orders.lookup report.order_id = some ⟨a, i⟩
  found : c.client_order_lookup report.account report.client_order_id = some report.order_id
  owner : node.account = report.account ∧ node.client_order_id = report.client_order_id ∧ node.side = report.side
  price : node.price = report.price
  total : node.total_quantity = report.total_quantity
  cumulative : node.cumulative_filled = report.cumulative_filled
  remaining : node.remaining = .ok report.remaining
  /-- The sum runs over the order itself, by `account`, `live` and `owner`. -/
  reserved : c.open_sum a i report.side (fun _ => 1) = .ok (val ((c.position a i).open_lots report.side))
  covered : val report.remaining ≤ val ((c.position a i).open_lots report.side)

theorem le_weighed {g : NewOrder → Int} (hg : ∀ o, 0 ≤ g o) {l : List NewOrder} {o : NewOrder} (ho : o ∈ l) :
    val o.left * g o ≤ weighed g l := by
  induction l with
  | nil => cases ho
  | cons x l ih =>
    have hx : 0 ≤ val x.left * g x := Int.mul_nonneg x.left_nonneg (hg x)
    have hl : 0 ≤ weighed g l := weighed_nonneg hg
    have hcons : weighed g (x :: l) = val x.left * g x + weighed g l := by simp [weighed]
    rw [hcons]
    rcases List.mem_cons.1 ho with rfl | ho
    · omega
    · have := ih ho
      omega

theorem rests_of_shown (h : View c d) {i : Fin n} (hi : c.instrument_index.lookup report.instrument = some i)
    (hs : Shown d i report) :
    ∃ a node, Rests c report a i node := by
  obtain ⟨o, ho, ht, hp, htot, hcum, hleft⟩ := hs
  obtain ⟨hid, hacc, hcl, hside⟩ : o.order_id = report.order_id ∧ o.account = report.account ∧
      o.client_order_id = report.client_order_id ∧ o.side = report.side := by
    simpa only [NewOrder.tag, Tag.mk.injEq] using ht
  obtain ⟨a, ha⟩ := h.inv.owned ho
  obtain ⟨node, hn, hno⟩ := h.live_of_mem ho
  have hpos := h.ledger.positions a i
  have hopen : c.open_sum a i report.side (fun _ => 1) = .ok (val ((c.position a i).open_lots report.side)) := by
    rw [hpos.reserved, open_sum_eq h a i report.side fun _ => 1]
    simp only [Int.mul_one]
    rfl
  have hlive : c.live_orders.lookup report.order_id = some ⟨a, i⟩ :=
    (h.ledger.orders.live _ ⟨a, i⟩).2 ⟨o.tag, List.mem_map_of_mem ho, hid, ha⟩
  have hfound : c.client_orders.lookup (report.account, report.client_order_id) = some report.order_id :=
    (h.ledger.orders.client _ _).2 ⟨i, o.tag, List.mem_map_of_mem ho, by rw [← hacc, ← hcl]; rfl, hid⟩
  have hrem : node.remaining = .ok report.remaining := by
    rw [← hleft, ← hno]
    exact OrderNode.remaining_eq (by rw [hno]; exact (h.inv.working ho).1)
  refine ⟨a, node, ?_, hi, hid ▸ hn, hlive, hfound, ?_, ?_, ?_, ?_, hrem, hopen, ?_⟩
  · rw [← hacc]
    exact (h.ledger.owner _).trans ha
  · rw [← hacc, ← hcl, ← hside, ← hno]
    exact ⟨rfl, rfl, rfl⟩
  · rw [← hp, ← hno]
  · rw [← htot, ← hno]
  · rw [← hcum, ← hno]
  · rw [hpos.reserved, ← hleft, Desk.reserved]
    have := le_weighed (share_nonneg d.owner a report.side) ho
    rwa [share, if_pos ⟨ha, hside⟩, Int.mul_one] at this

theorem shown_of_rests (h : View c d) {a : Fin m} {i : Fin n} {node : OrderNode} (hr : Rests c report a i node) :
    Shown d i report := by
  obtain ⟨hm, hid⟩ := h.mem_of_live hr.live
  obtain ⟨h1, h2, h3⟩ := hr.owner
  refine ⟨node.toNewOrder, hm, ?_, hr.price, hr.total, hr.cumulative, ?_⟩
  · rw [← hid, ← h1, ← h2, ← h3]
    rfl
  · have hrem := hr.remaining
    rw [OrderNode.remaining_eq (h.inv.working hm).1] at hrem
    exact Except.ok.inj hrem

/-- For a request that is no retry, the last report and the desk after it. -/
theorem apply_reported (h : View c d) {input : EngineInput} (he : input.event = .Order request) {out : List OutputEvent}
    (hr : c.apply input = .ok (c', out)) (hf' : c'.fault = none) (hn : ¬c.Retries request)
    (hlast : final_report out = some report) (hs : report.state = .Working ∨ report.state = .PartiallyFilled) :
    ∃ d' i, View c' d' ∧ c'.instrument_index.lookup report.instrument = some i ∧
      (Shown d' i report ↔ c.fits request = true) := by
  obtain ⟨seq, d', ms, -, ha, hd⟩ := apply_done h hr hf'
  obtain ⟨story, heffect, hemits⟩ := hd.told
  have hbare : final_report story = some report.bare := by rw [← hemits.bare, final_report_bare, hlast]; rfl
  rw [he] at heffect
  rw [show c'.instrument_index = c.instrument_index from congrArg Wiring.instrument_index ha.wiring]
  cases heffect with
  | quiet hq => exact absurd rfl (hq request)
  | retry hhit => exact absurd ⟨_, _, hhit⟩ hn
  | conflict =>
    have hstate : report.state = .Cancelled := congrArg ExecutionReport.state (Option.some.inj hbare).symm
    rw [hstate] at hs
    simp at hs
  | handled _ hstory =>
    obtain ⟨i, hi, hshown⟩ := hstory.shown h.inv hbare hs
    exact ⟨d', i, hd.view, hi, hshown⟩

/-- An order reported as working or partially filled is there, exactly when it
fits into its price level. -/
theorem accepted_order_rests_iff_fits {allocator : SlabAllocator} {config : EngineConfig} {inputs : List EngineInput}
    {c c' : TradingCore config.instruments.length config.accounts.length} {outs : List (List OutputEvent)}
    (h : (TradingCore.new allocator config).run inputs = .ok (c, outs)) (hf : c.fault = none) {input : EngineInput}
    {request : OrderRequest} (he : input.event = .Order request)
    (hn : ¬c.Retries request) {out : List OutputEvent} (hr : c.apply input = .ok (c', out)) (hf' : c'.fault = none)
    {report : ExecutionReport} (hlast : final_report out = some report)
    (hs : report.state = .Working ∨ report.state = .PartiallyFilled) :
    (∃ a i node, Rests c' report a i node) ↔ c.fits request = true := by
  obtain ⟨d, hv⟩ := run_view h hf
  obtain ⟨d', i, hv', hi, hshown⟩ := apply_reported hv he hr hf' hn hlast hs
  rw [← hshown]
  constructor
  · rintro ⟨a, j, node, hrest⟩
    obtain rfl : j = i := Option.some.inj (hrest.instrument.symm.trans hi)
    exact shown_of_rests hv' hrest
  · intro hsh
    obtain ⟨a, node, hrest⟩ := rests_of_shown hv' hi hsh
    exact ⟨a, i, node, hrest⟩

theorem accepted_order_rests_small :
    ∃ c outs c' out report, smallCore.run smallInputs = .ok (c, outs) ∧ c.fault = none ∧
      c.apply (placed 1 2 .Sell 99 7) = .ok (c', out) ∧ c'.fault = none ∧ final_report out = some report ∧
      report.state = .PartiallyFilled ∧ report.remaining = 3 ∧ ∃ a i node, Rests c' report a i node := by
  let request : OrderRequest := ⟨.New, 1, 1, 2, 2, 2, 0, .Sell, .Limit, 99, 7⟩
  have hends : Ends (smallCore.run smallInputs) fun r => r.1.fault = none ∧ r.1.cache_hit request = none ∧
      r.1.fits request = true ∧ Ends (r.1.apply (placed 1 2 .Sell 99 7)) fun r' => r'.1.fault = none ∧
        ∃ report ∈ final_report r'.2, report.state = .PartiallyFilled ∧ report.remaining = 3 := by decide +kernel
  obtain ⟨⟨c, outs⟩, hr, hf, hhit, hfits, ⟨c', out⟩, hr', hf', report, hlast, hstate, hrem⟩ := hends
  have hn : ¬c.Retries request := by
    rintro ⟨a, previous, hp⟩
    rw [hhit] at hp; cases hp
  exact ⟨c, outs, c', out, report, hr, hf, hr', hf', hlast, hstate, hrem,
    (accepted_order_rests_iff_fits hr hf rfl hn hr' hf' hlast (.inr hstate)).2 hfits⟩

/-- Limits that never bind. -/
def wideLimits : AccountLimits where
  max_order_quantity := 18446744073709551615
  max_order_notional := BitVec.allOnes 128
  max_position_lots := 18446744073709551615
  max_gross_exposure := BitVec.allOnes 128
  price_collar_ticks := 100

/-- Two accounts fill a price level up to one lot below a `u64`; the order of the
third, for two lots, is reported as working and is nowhere. -/
theorem accepted_order_dropped :
    ∃ c outs c' out report, (TradingCore.new freeListAllocator (smallConfig wideLimits [1, 2, 3])).run
        (opening ++ [placed 1 1 .Buy 100 9223372036854775807, placed 2 1 .Buy 100 9223372036854775807]) = .ok (c, outs) ∧
      c.fault = none ∧ ¬c.Retries ⟨.New, 3, 1, 1, 1, 1, 0, .Buy, .Limit, 100, 2⟩ ∧
      c.apply (placed 3 1 .Buy 100 2) = .ok (c', out) ∧ c'.fault = none ∧ final_report out = some report ∧
      report.kind = .Accepted ∧ report.state = .Working ∧ report.remaining = 2 ∧
      ¬∃ a i node, Rests c' report a i node := by
  let request : OrderRequest := ⟨.New, 3, 1, 1, 1, 1, 0, .Buy, .Limit, 100, 2⟩
  have hends : Ends ((TradingCore.new freeListAllocator (smallConfig wideLimits [1, 2, 3])).run
      (opening ++ [placed 1 1 .Buy 100 9223372036854775807, placed 2 1 .Buy 100 9223372036854775807])) fun r =>
      r.1.fault = none ∧ r.1.cache_hit request = none ∧ Ends (r.1.apply (placed 3 1 .Buy 100 2)) fun r' =>
        r'.1.fault = none ∧ ∃ report ∈ final_report r'.2, report.kind = .Accepted ∧ report.state = .Working ∧
          report.remaining = 2 ∧ r'.1.live_orders.lookup report.order_id = none := by decide +kernel
  obtain ⟨⟨c, outs⟩, hr, hf, hhit, ⟨c', out⟩, hr', hf', report, hlast, hkind, hstate, hrem, hgone⟩ := hends
  refine ⟨c, outs, c', out, report, hr, hf, ?_, hr', hf', hlast, hkind, hstate, hrem, ?_⟩
  · rintro ⟨a, previous, hp⟩
    rw [hhit] at hp; cases hp
  · rintro ⟨a, i, node, hrest⟩
    rw [hrest.indexed] at hgone; cases hgone

end Acceptance

end TradingLab
