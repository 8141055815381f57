import TradingLab.Handled
import TradingLab.Invariants
/-!
# Replaced orders

A replace lowers the total of its order where it stands, or takes the order out,
matches what is open of it and lists it again under its old id. `Replaced` is
what a client sees of either, and it covers replaces that stop the engine, too:
trade ids do not run out before output sequence numbers do, so every fill of
the replace has its trade.
-/
open LabLib

namespace TradingLab

/-! ## Fills -/

section Fills
variable {side : Side} {limit : PriceTicks} {l l' : List NewOrder} {r r' : UInt64} {fills : List Fill}

/-- What gives an order its place in the book. -/
def NewOrder.place (o : NewOrder) : Tag × PriceTicks × PrioritySeq := (o.tag, o.price, o.priority)

theorem Fills.places (h : Fills side limit l r fills l' r') :
    (l'.map NewOrder.place).Sublist (l.map NewOrder.place) := by
  refine h.keeps (P := fun l' => (l'.map NewOrder.place).Sublist (l.map NewOrder.place)) (fun hl _ _ => ?_) (.refl _)
  refine List.Sublist.trans ?_ hl
  rw [afterFill]
  split
  · exact (without_sublist _ _).map _
  · rw [map_amend NewOrder.place (f := fun o => NewOrder.fill o _) fun _ _ _ => rfl]

/-- Every maker is filled once: what is left of an order is less than what it takes to use up the last one. -/
theorem Fills.length_le (h : Fills side limit l r fills l' r') (hn : (l.map NewOrder.order_id).Nodup) :
    fills.length ≤ l.length := by
  induction h with
  | nil => exact Nat.zero_le _
  | @cons l r o fills l' r' _ hnext _ hrest ih =>
    have ho := hnext.mem.1
    have hlen := ih (ids_afterFill hn o _)
    rw [List.length_cons]
    by_cases hused : o.left = min r o.left
    · rw [afterFill, if_pos hused] at hlen
      have := length_without hn ho
      omega
    · -- The maker outlasts the order, of which nothing is left for another one.
      have hmin := u64_min r o.left
      have hne : val o.left ≠ val (min r o.left) := fun he => hused (val_inj.1 he)
      obtain ⟨rfl, -, -⟩ := hrest.of_zero (by rw [u64_sub (by omega)]; omega)
      exact List.length_pos_of_mem ho

/-- While there are trade ids, the trades are for what was filled. -/
theorem Traded.sum {instrument : InstrumentId} {trade_id : TradeId} {request : OrderRequest} {order_id : OrderId}
    {out : List OutputEvent} (h : Traded instrument trade_id request order_id side fills out)
    (hroom : val trade_id + fills.length ≤ 18446744073709551615) :
    ((trades out).map fun trade => val trade.quantity).sum = (fills.map fun fill => val fill.quantity).sum := by
  obtain ⟨settled, -, htrades, hall⟩ := h
  have hq : (trades out).map (fun trade => val trade.quantity) =
      ((trades out).map TradeEvent.bare).map fun trade => val trade.quantity := by
    rw [List.map_map]
    rfl
  rw [hq, htrades, hall hroom, List.map_map]
  rfl

end Fills

/-! ## Trade ids do not run out -/

section Room
variable {n m : Nat} {c c' : TradingCore n m} {d d' : Desk n m}

theorem length_trades_le (out : List OutputEvent) : (trades out).length ≤ out.length := List.length_filterMap_le _ _

theorem length_trades_bare (out : List OutputEvent) : (trades (out.map OutputEvent.bare)).length = (trades out).length := by
  induction out with
  | nil => rfl
  | cons event out ih =>
    cases event with
    | Trade trade => exact congrArg Nat.succ ih
    | Report report => exact ih
    | State state => exact ih

theorem Landing.length_le {f : Flight n m} {request : OrderRequest} {kind : ReportKind} {fits : Bool}
    {filled r' : QuantityLots} {l' l'' : List NewOrder} {report : ExecutionReport}
    (h : Landing f request kind fits filled r' l' report l'') : l''.length ≤ l'.length + 1 := by
  cases h <;> simp

/-- An output is drawn for every trade, and one more for an order that comes to rest. -/
theorem Story.room {w : Wiring n m} {fits : Bool} {request : OrderRequest} {story : List OutputEvent}
    (h : Story w fits d request story d') (i : Fin n) :
    (trades story).length + (d'.book i).length ≤ story.length + (d.book i).length := by
  have matched : ∀ {j : Fin n} {l : List NewOrder} {events : List OutputEvent} {report : ExecutionReport},
      d'.book = Function.update d.book j l → l.length ≤ (d.book j).length + 1 →
      (trades (events ++ [.Report report])).length + (d'.book i).length ≤
        (events ++ [OutputEvent.Report report]).length + (d.book i).length := by
    intro j l events report hd hl
    have htrades : trades (events ++ [.Report report]) = trades events := by simp [trades]
    have hle := length_trades_le events
    rw [hd, htrades, List.length_append, List.length_singleton, Function.update_apply]
    split
    · rename_i hi
      rw [hi]
      omega
    · omega
  have shorter : ∀ {j : Fin n} {l : List NewOrder} {report : ExecutionReport}, l.length ≤ (d.book j).length →
      (trades [OutputEvent.Report report]).length + ((d.setBook j l).book i).length ≤
        [OutputEvent.Report report].length + (d.book i).length := by
    intro j l report hl
    have hbook : (d.setBook j l).book i = if i = j then l else d.book i := Function.update_apply ..
    have htrades : trades [.Report report] = [] := rfl
    rw [hbook, htrades]
    split
    · rename_i hi
      rw [hi]
      exact Nat.add_le_add (Nat.zero_le _) hl
    · exact Nat.add_le_add_right (Nat.zero_le _) _
  cases h with
  | reject reason => exact Nat.add_le_add_right (Nat.zero_le _) _
  | cancel => exact shorter (without_sublist _ _).length_le
  | retire => exact shorter (without_sublist _ _).length_le
  | shrink => exact shorter (length_amend _ _ _).le
  | enter _ _ _ _ _ _ _ _ hfills _ hland hbook =>
    have h1 := hfills.places.length_le
    have h2 := hland.length_le
    rw [List.length_map, List.length_map] at h1
    exact matched hbook (by omega)
  | requeue _ _ _ _ _ _ _ _ hfills _ hland hbook =>
    have h1 := (hfills.places.trans ((without_sublist _ _).map _)).length_le
    have h2 := hland.length_le
    rw [List.length_map, List.length_map] at h1
    exact matched hbook (by omega)

theorem Effect.room {event : InputEvent} {story : List OutputEvent} (h : Effect c d event story d') (i : Fin n) :
    (trades story).length + (d'.book i).length ≤ story.length + (d.book i).length := by
  have hle := length_trades_le story
  cases h with
  | handled _ hstory => exact hstory.room i
  | quiet => omega
  | retry => omega
  | conflict => omega

/-- There is an output sequence number for every trade so far, and for one with every resting order. -/
def TradingCore.Room (c : TradingCore n m) (d : Desk n m) : Prop :=
  ∀ i, val c.next_trade_id + (d.book i).length ≤ val c.output_seq

theorem Done.room {event : InputEvent} {out : List OutputEvent} {seq : EngineSeq} {ms : List (Move n m)}
    (h : Done c c' d event out (c.stampsAt seq) d' ms) (hroom : c.Room d) : c'.Room d' := by
  intro i
  obtain ⟨story, heffect, hemits⟩ := h.told
  have hle := heffect.room i
  have hseqs : val c'.output_seq = val c.output_seq + _ := hemits.seqs.eq_range.2
  have hids : val c'.next_trade_id = val c.next_trade_id + _ := hemits.ids.eq_range.2
  have hstart := hroom i
  rw [← hemits.bare, length_trades_bare, List.length_map] at hle
  rw [hseqs, hids, List.length_map, List.length_map]
  omega

end Room

/-! ## Replaces -/

section Replaces
variable {n m : Nat} {c c' : TradingCore n m} {d : Desk n m} {i : Fin n} {request : OrderRequest} {out : List OutputEvent}

/-- What an accepted replace makes of the order `node`, if it still rests afterwards. The book lists the orders
`l` before and `l'` after it, oldest first. -/
structure Replaced (c c' : TradingCore n m) (i : Fin n) (request : OrderRequest) (out : List OutputEvent)
    (node node' : OrderNode) (l l' : List NewOrder) : Prop where
  before : Holds (c.book i) l
  after : Holds (c'.book i) l'
  id : node'.order_id = node.order_id
  client : node'.client_order_id = node.client_order_id
  side : node'.side = node.side
  price : node'.price = request.price
  total : node'.total_quantity = request.quantity
  filled : val node'.cumulative_filled =
    val node.cumulative_filled + ((trades out).map fun trade => val trade.quantity).sum
  /-- The same price and a lower total: the order stays where it is. -/
  stays : request.price = node.price → request.quantity < node.total_quantity → trades out = [] ∧
    node'.priority = node.priority ∧ ∀ s p, (levelAt l' s p).map NewOrder.place = (levelAt l s p).map NewOrder.place
  /-- Otherwise it is the last one of its level, and the newest of all. -/
  requeued : ¬(request.price = node.price ∧ request.quantity < node.total_quantity) →
    (levelAt l' node'.side node'.price).getLast? = some node'.toNewOrder ∧
      ∀ j id other, c'.LiveIn j id other → id ≠ node'.order_id → other.priority < node'.priority
  others : ((without NewOrder.order_id node'.order_id l').map NewOrder.place).Sublist (l.map NewOrder.place)
  books : ∀ j, j ≠ i → c'.book j = c.book j

theorem Replaced.of_book {c₁ c₁' : TradingCore n m} {out' : List OutputEvent} {node node' : OrderNode} {l l' : List NewOrder}
    (h : Replaced c c' i request out node node' l l') (hb : c₁.book = c.book) (hb' : c₁'.book = c'.book)
    (ht : trades out' = trades out) : Replaced c₁ c₁' i request out' node node' l l' :=
  { h with
    before := by rw [hb]; exact h.before
    after := by rw [hb']; exact h.after
    filled := by rw [ht]; exact h.filled
    stays := by rw [ht]; exact h.stays
    requeued := by
      simp only [TradingCore.LiveIn, hb']
      exact h.requeued
    books := by rw [hb, hb']; exact h.books }

/-- An order of one book is not found in another one. -/
theorem Shelved.mem_of_live {i₀ : Fin n} {l' : List NewOrder} (hs : Shelved c c' i₀ l') (hv : View c d) {o : NewOrder}
    (ho : o ∈ d.book i₀) {node' : OrderNode} (hl : c'.LiveIn i o.order_id node') :
    i = i₀ ∧ node'.toNewOrder ∈ l' ∧ node'.order_id = o.order_id := by
  by_cases hi : i = i₀
  · subst hi
    exact ⟨rfl, hs.holds.get_iff hl⟩
  · rw [TradingCore.LiveIn, hs.others i hi] at hl
    obtain ⟨hm, hid⟩ := hv.mem_of_live hl
    exact absurd (hv.inv.apart hm ho hid) hi

theorem levelAt_amend {id : OrderId} {f : NewOrder → NewOrder} (hf : ∀ o, (f o).place = o.place) (l : List NewOrder)
    (s : Side) (p : PriceTicks) :
    (levelAt (amend NewOrder.order_id id f l) s p).map NewOrder.place = (levelAt l s p).map NewOrder.place := by
  have hsame : ∀ o, (if o.order_id = id then f o else o).place = o.place := fun o => by
    split
    · exact hf o
    · rfl
  rw [levelAt, amend, List.filter_map, List.map_map]
  have hfilter : l.filter ((fun o => decide (o.side = s ∧ o.price = p)) ∘ fun o => if o.order_id = id then f o else o) =
      levelAt l s p := by
    refine List.filter_congr fun o _ => ?_
    have hside := congrArg (fun x : Tag × PriceTicks × PrioritySeq => x.1.side) (hsame o)
    have hprice := congrArg (fun x : Tag × PriceTicks × PrioritySeq => x.2.1) (hsame o)
    change NewOrder.side _ = o.side at hside
    change NewOrder.price _ = o.price at hprice
    simp only [Function.comp, hside, hprice]
  rw [hfilter]
  exact List.map_congr_left fun o _ => hsame o

/-- A lower total at the same price. -/
theorem replaced_in_place (hv : View c d) {node : OrderNode} (ho : node.toNewOrder ∈ d.book i)
    (hs : Shelved c c' i (amend NewOrder.order_id node.order_id (fun o => { o with total_quantity := request.quantity })
      (d.book i))) (hprice : request.price = node.price) (hless : request.quantity < node.total_quantity)
    {node' : OrderNode} (hl : c'.LiveIn i node.order_id node') (hout : trades out = []) :
    Replaced c c' i request out node node' (d.book i) (amend NewOrder.order_id node.order_id
      (fun o => { o with total_quantity := request.quantity }) (d.book i)) := by
  obtain ⟨hm, hid⟩ := hs.holds.get_iff hl
  have hsame : node'.toNewOrder = { node.toNewOrder with total_quantity := request.quantity } := by
    rcases mem_amend.1 hm with ⟨-, hne⟩ | ⟨o, ho', hid', he⟩
    · exact absurd hid hne
    · rw [← he, List.inj_on_of_nodup_map (hv.inv.ids i) ho' ho hid']
  have hfilled := congrArg NewOrder.cumulative_filled hsame
  have hpriority := congrArg NewOrder.priority hsame
  have hclient := congrArg NewOrder.client_order_id hsame
  have hside := congrArg NewOrder.side hsame
  have hplace : ∀ o : NewOrder, ({ o with total_quantity := request.quantity } : NewOrder).place = o.place := fun _ => rfl
  refine ⟨hv.books i, hs.holds, hid, hclient, hside, (congrArg NewOrder.price hsame).trans hprice.symm,
    congrArg NewOrder.total_quantity hsame, ?_, fun _ _ => ⟨hout, hpriority, levelAt_amend hplace _⟩,
    fun hne => absurd ⟨hprice, hless⟩ hne, ?_, hs.others⟩
  · rw [hout, show node'.cumulative_filled = node.cumulative_filled from hfilled]
    exact (Int.add_zero _).symm
  · rw [hid]
    rw [without_amend fun o => congrArg (fun x : Tag × PriceTicks × PrioritySeq => x.1.order_id) (hplace o)]
    exact (without_sublist _ _).map _

/-- The order goes to the end of its level. -/
theorem replaced_requeued (hv : View c d) (hroom : c.Room d) {node : OrderNode} (ho : node.toNewOrder ∈ d.book i)
    {target r' : QuantityLots} (htarget : val target = val request.quantity - val node.cumulative_filled)
    {fills : List Fill} {l' : List NewOrder}
    (hfills : Fills node.side.opposite request.price (without NewOrder.order_id node.order_id (d.book i)) target fills l' r')
    {instrument : InstrumentId} {order_id : OrderId}
    (htraded : Traded instrument c.next_trade_id request order_id node.side fills out) {node' : OrderNode}
    (hrest : Rested c request node.order_id node.client_order_id node.side r' node'.toNewOrder)
    (hs : Shelved c c' i (l' ++ [node'.toNewOrder]))
    (hne : ¬(request.price = node.price ∧ request.quantity < node.total_quantity)) :
    Replaced c c' i request out node node' (d.book i) (l' ++ [node'.toNewOrder]) := by
  have hid : node'.order_id = node.order_id := hrest.id
  have hgone : node.order_id ∉ l'.map NewOrder.order_id := fun hm => by
    obtain ⟨o, ho, he⟩ := List.mem_map.1 (hfills.ids_subset.subset hm)
    exact (mem_without.1 ho).2 he
  have hplaces := hfills.places.trans ((without_sublist _ _).map _)
  refine ⟨hv.books i, hs.holds, hid, hrest.client, hrest.side, hrest.price, hrest.total, ?_,
    fun hprice hless => absurd ⟨hprice, hless⟩ hne, fun _ => ⟨?_, ?_⟩, ?_, hs.others⟩
  · have hcount := hfills.length_le ((hv.inv.ids i).sublist ((without_sublist _ _).map _))
    have hfewer : (without NewOrder.order_id node.order_id (d.book i)).length ≤ (d.book i).length :=
      (without_sublist _ _).length_le
    have hstart := hroom i
    have hseq := u64_bounds c.output_seq
    rw [htraded.sum (by omega), hfills.sum, htarget]
    have := hrest.filled
    change val node'.cumulative_filled + val r' = _ at this
    omega
  · have hlast : levelAt [node'.toNewOrder] node'.side node'.price = [node'.toNewOrder] :=
      List.filter_cons_of_pos (decide_eq_true ⟨rfl, rfl⟩)
    rw [levelAt, List.filter_append]
    change (_ ++ levelAt [node'.toNewOrder] node'.side node'.price).getLast? = _
    rw [hlast, List.getLast?_concat]
  · -- Every other order was there before, behind the counter the new priority is drawn from.
    intro j id other hl hother
    have hnew := next_eq_some.1 hrest.newest
    change val node'.priority = _ at hnew
    have hold : val other.priority ≤ val c.next_priority := by
      rw [hv.ledger.priority]
      by_cases hj : j = i
      · subst hj
        obtain ⟨hm, hid'⟩ := hs.holds.get_iff hl
        rcases List.mem_append.1 hm with hm | hm
        · obtain ⟨o, ho, he⟩ := List.mem_map.1 (hplaces.subset (List.mem_map_of_mem hm))
          rw [show other.priority = o.priority from
            (congrArg (fun x : Tag × PriceTicks × PrioritySeq => x.2.2) he).symm]
          exact hv.inv.behind ho
        · exact absurd (hid'.symm.trans (congrArg NewOrder.order_id (List.mem_singleton.1 hm))) hother
      · rw [TradingCore.LiveIn, hs.others j hj] at hl
        exact hv.inv.behind (hv.mem_of_live hl).1
    rw [u64_lt]
    omega
  · rw [hid, without, List.filter_append, List.filter_cons_of_neg (by simpa using hid), List.filter_nil, List.append_nil]
    change ((without NewOrder.order_id node.order_id l').map NewOrder.place).Sublist _
    rw [without_of_notMem hgone]
    exact hplaces

theorem Handled.replaced {report : ExecutionReport} (h : Handled c c' d request out report) (hv : View c d)
    (hroom : c.Room d) (hk : request.kind = .Replace) (hacc : report.reject_reason = none) {node' : OrderNode}
    (hl : c'.LiveIn i report.order_id node') :
    ∃ node l l', c.LiveIn i report.order_id node ∧ node.account = request.account ∧
      node.client_order_id = request.target_client_order_id ∧ Replaced c c' i request out node node' l l' := by
  cases h with
  | refused reason he =>
    have hreason : (c.reject_report request reason).2.reject_reason = some reason := rfl
    rw [he, hacc] at hreason
    cases hreason
  | exhausted hk' => rw [hk] at hk'; cases hk'
  | cancels hk' => rw [hk] at hk'; cases hk'
  | enters hk' => rw [hk] at hk'; cases hk'
  | retires _ hcheck _ _ _ hreport _ hs =>
    have ha := check_replace_passes hcheck
    obtain ⟨ho, hid, -⟩ := ha.existing hv
    rw [hreport, ← hid] at hl
    obtain ⟨-, hm, hid'⟩ := hs.mem_of_live hv ho hl
    exact absurd (hid'.trans hid) (mem_without.1 hm).2
  | reduces _ hcheck hprice hless _ hout _ hreport _ hs =>
    have ha := check_replace_passes hcheck
    obtain ⟨ho, hid, hacc, hcl, -⟩ := ha.existing hv
    rw [hreport, ← hid] at hl ⊢
    rw [← hid] at hs
    obtain ⟨rfl, -, -⟩ := hs.mem_of_live hv ho hl
    exact ⟨_, _, _, by rw [hid]; exact ha.found, hacc, hcl,
      replaced_in_place hv ho hs hprice hless hl (by rw [hout]; rfl)⟩
  | requeues _ hcheck hne htarget _ hreport _ hm =>
    have ha := check_replace_passes hcheck
    obtain ⟨ho, hid, hacc, hcl, -⟩ := ha.existing hv
    rw [hreport, ← hid] at hl ⊢
    rw [← hid] at hm
    rcases hm.books with hs | ⟨o, hrest, hs⟩
    · obtain ⟨-, hmem, hid'⟩ := hs.mem_of_live hv ho hl
      obtain ⟨x, hx, he⟩ := List.mem_map.1 (hm.trail.ids_subset.subset (List.mem_map_of_mem hmem))
      exact absurd (he.trans hid') (mem_without.1 hx).2
    · obtain ⟨rfl, hmem, hid'⟩ := hs.mem_of_live hv ho hl
      obtain rfl : node'.toNewOrder = o := by
        rcases List.mem_append.1 hmem with hmem | hmem
        · obtain ⟨x, hx, he⟩ := List.mem_map.1 (hm.trail.ids_subset.subset (List.mem_map_of_mem hmem))
          exact absurd (he.trans hid') (mem_without.1 hx).2
        · exact List.mem_singleton.1 hmem
      exact ⟨_, _, _, by rw [hid]; exact ha.found, hacc, hcl,
        replaced_requeued hv hroom ho htarget hm.trail hm.traded hrest hs hne⟩

/-- An accepted request is no conflict; unless it repeats another one it has been handled. -/
theorem Happened.accepted (h : Happened c c' d out (.Order request)) (hn : ¬c.Retries request) {report : ExecutionReport}
    (hlast : final_report out = some report) (hacc : report.reject_reason = none) :
    ∃ c₁ out₁, Outcome c c₁ d request out₁ report ∧ Handled c c₁ d request out₁ report ∧
      c' = c₁.finish_request request (request_fingerprint request) report ∧ out = out₁ ++ [.Report report] := by
  cases h with
  | quiet hq => exact absurd rfl (hq request)
  | retry hhit => exact absurd ⟨_, _, hhit⟩ hn
  | conflict _ _ hout hr =>
    subst hout
    cases hlast
    rw [hacc] at hr
    cases hr
  | @handled _ c₁ out₁ report₁ _ ho hh hc hout =>
    rw [hout, final_report_append] at hlast
    cases hlast
    exact ⟨c₁, out₁, ho, hh, hc, hout⟩

end Replaces

/-- An accepted replace that leaves its order resting: the order has the price and the total of the request, its
old id, client order id and side, and the trades of the request added to its fill. At the same price with a lower
total it stays where it is without a trade; otherwise it goes to the end of its level. The orders around it keep
their places. -/
theorem replace_keeps_or_requeues {allocator : SlabAllocator} {config : EngineConfig} {inputs : List EngineInput}
    {c c' : TradingCore config.instruments.length config.accounts.length} {outs : List (List OutputEvent)}
    (h : (TradingCore.new allocator config).run inputs = .ok (c, outs)) (hf : c.fault = none) {input : EngineInput}
    {request : OrderRequest} (he : input.event = .Order request) (hk : request.kind = .Replace)
    (hn : ¬c.Retries request) {out : List OutputEvent} (hrun : c.apply input = .ok (c', out)) {report : ExecutionReport}
    (hlast : final_report out = some report) (hacc : report.reject_reason = none)
    {i : Fin config.instruments.length} {node' : OrderNode} (hl : c'.LiveIn i report.order_id node') :
    ∃ node l l', c.LiveIn i report.order_id node ∧ node.account = request.account ∧
      node.client_order_id = request.target_client_order_id ∧ Replaced c c' i request out node node' l l' := by
  obtain ⟨d, hv, hroom⟩ := run_induction (view_new allocator config) (fun _ c _ d => c.Room d) (fun _ => Int.le_refl _)
    (fun ih _ _ _ hd => hd.room ih) h hf
  rcases apply_cases hrun with ⟨hs, -⟩ | ⟨-, -, rfl⟩ | ⟨seq, c₁, -, -, hevent, rfl⟩
  · rw [hf] at hs
    cases hs
  · cases hlast
  · rw [he] at hevent
    have hv' := hv.entered input seq
    obtain ⟨c₂, out₂, -, hh, rfl, rfl⟩ := (apply_event_happened hv' hevent).accepted hn hlast hacc
    have hbook : (TradingCore.counted _ (out₂ ++ [.Report report])).book = c₂.book :=
      congrArg Ground.book (finish_request_recorded c₂ request report).ground
    have hl' : c₂.LiveIn i report.order_id node' := by
      rw [TradingCore.LiveIn, ← hbook]
      exact hl
    obtain ⟨node, l, l', hold, ha, hcl, hr⟩ := hh.replaced hv' hroom hk hacc hl'
    exact ⟨node, l, l', hold, ha, hcl, hr.of_book rfl hbook (by simp [trades])⟩

/-- The bid of the second account goes up to the offer, takes what is left of it and rests with the remainder. -/
theorem replace_keeps_or_requeues_small :
    ∃ c outs c' out report node node' l l', smallCore.run smallInputs = .ok (c, outs) ∧ c.fault = none ∧
      c.apply (replacing 2 3 2 .Buy 100 5) = .ok (c', out) ∧ final_report out = some report ∧
      report.reject_reason = none ∧ c.LiveIn ⟨0, by decide⟩ report.order_id node ∧
      c'.LiveIn ⟨0, by decide⟩ report.order_id node' ∧ (trades out).length = 1 ∧ node'.cumulative_filled = 2 ∧
      Replaced c c' ⟨0, by decide⟩ ⟨.Replace, 2, 1, 3, 3, 3, 2, .Buy, .Limit, 100, 5⟩ out node node' l l' := by
  have hends : Ends (smallCore.run smallInputs) fun r => r.1.fault = none ∧
      r.1.cache_hit ⟨.Replace, 2, 1, 3, 3, 3, 2, .Buy, .Limit, 100, 5⟩ = none ∧
      Ends (r.1.apply (replacing 2 3 2 .Buy 100 5)) fun r' => (trades r'.2).length = 1 ∧
        ∃ report ∈ final_report r'.2, report.reject_reason = none ∧
          Ends ((r'.1.book ⟨0, by decide⟩).get report.order_id) fun found =>
            ∃ node' ∈ found, node'.cumulative_filled = 2 := by decide +kernel
  obtain ⟨⟨c, outs⟩, h, hf, hhit, ⟨c', out⟩, hrun, hlen, report, hlast, hacc, found, hget, node', hm, hfilled⟩ := hends
  cases hm
  have hn : ¬c.Retries ⟨.Replace, 2, 1, 3, 3, 3, 2, .Buy, .Limit, 100, 5⟩ := by
    rintro ⟨a, previous, hretry⟩
    rw [hhit] at hretry
    cases hretry
  obtain ⟨node, l, l', hold, -, -, hr⟩ := replace_keeps_or_requeues h hf rfl rfl hn hrun hlast hacc hget
  exact ⟨c, outs, c', out, report, node, node', l, l', h, hf, hrun, hlast, hacc, hold, hget, hlen, hfilled, hr⟩

end TradingLab
