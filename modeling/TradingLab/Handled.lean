import TradingLab.Runs
import TradingLab.Sweep
/-!
# What a request does to the books

`Outcome` follows a request to the desk behind the engine, and for that the
engine has to come out of it without a fault. Here only the books and the
trades are followed, and they can be followed into a fault, too: a request that
was matched has matched, whether or not its reports still found a number.
`Handled` is the one inversion of the handlers for that.
-/
open LabLib

namespace TradingLab

/-! ## What settlement leaves alone -/

section Shelf
variable {n m : Nat} {c c' : TradingCore n m}

/-- The part of the engine that reservations and reports do not touch. -/
structure Shelf (n : Nat) where
  instruments : Vector InstrumentRuntime n
  next_order_id : OrderId
  next_trade_id : TradeId
  next_priority : PrioritySeq

def TradingCore.shelf (c : TradingCore n m) : Shelf n where
  instruments := c.instruments
  next_order_id := c.next_order_id
  next_trade_id := c.next_trade_id
  next_priority := c.next_priority

theorem shelf_take_output_seq (c : TradingCore n m) : c.take_output_seq.1.shelf = c.shelf := by
  rw [TradingCore.take_output_seq]
  split <;> rfl

theorem shelf_reserve (c : TradingCore n m) (a : Fin m) (i : Fin n) (side : Side) (lots : QuantityLots)
    (price : PriceTicks) : (c.reserve a i side lots price).shelf = c.shelf := by
  rw [TradingCore.reserve]
  split
  · rfl
  · dsimp only
    split <;> rfl

theorem shelf_release_reservation (c : TradingCore n m) (a : Fin m) (i : Fin n) (side : Side) (lots : QuantityLots)
    (price : PriceTicks) : (c.release_reservation a i side lots price).shelf = c.shelf := by
  rw [TradingCore.release_reservation]
  split
  · rfl
  · split
    · rfl
    · dsimp only
      split <;> rfl

theorem shelf_move_position (c : TradingCore n m) (a : Fin m) (i : Fin n) (side : Side) (quantity : QuantityLots) :
    (c.move_position a i side quantity).shelf = c.shelf := by
  rw [TradingCore.move_position]
  split <;> rfl

theorem shelf_drop_filled (c : TradingCore n m) (fill : Fill) : (c.drop_filled fill).shelf = c.shelf := by
  rw [TradingCore.drop_filled]
  split <;> rfl

theorem shelf_taker_event (c : TradingCore n m) (request : OrderRequest) (order_id : OrderId) (side : Side)
    (quantity cum : QuantityLots) (fill : Fill) :
    ∃ report, (c.taker_event request order_id side quantity cum fill).2 = [.Report report] ∧
      (c.taker_event request order_id side quantity cum fill).1.shelf = c.shelf := by
  rw [TradingCore.taker_event]
  cases checked_sub quantity cum <;> exact ⟨_, rfl, shelf_take_output_seq c⟩

/-- One pass of the settlement draws a trade id and emits one trade, that of its fill. -/
theorem settle_one_shelf (c : TradingCore n m) (i : Fin n) (a maker : Fin m) (request : OrderRequest) (order_id : OrderId)
    (side : Side) (quantity cum : QuantityLots) (trade_id : TradeId) (fill : Fill) :
    (c.settle_one i a maker request order_id side quantity cum trade_id fill).1.shelf =
        { c.shelf with next_trade_id := trade_id } ∧
      (trades (c.settle_one i a maker request order_id side quantity cum trade_id fill).2).map TradeEvent.bare =
        [fillTrade c.instruments[i].config.id request order_id side fill] := by
  rw [settle_one_eq rfl]
  generalize hc₂ : TradingCore.settle_taker _ a i side fill.quantity = c₂
  have hshelf : c₂.shelf = { c.shelf with next_trade_id := trade_id } := by
    rw [← hc₂, TradingCore.settle_taker, shelf_move_position, TradingCore.settle_fill]
    dsimp only
    rw [shelf_move_position, shelf_release_reservation]
    rfl
  have hconfig : c₂.instruments[i].config.id = c.instruments[i].config.id :=
    congrArg (fun s : Shelf n => s.instruments[i].config.id) hshelf
  obtain ⟨trade, report, hmade, htrade, -⟩ := maker_events_eq c₂ i request order_id side trade_id fill
  rw [hmade]
  dsimp only
  obtain ⟨report', htaken, hshelf'⟩ := shelf_taker_event (c₂.take_output_seq.1.take_output_seq.1.drop_filled fill) request
    order_id side quantity cum fill
  rw [htaken, hshelf', shelf_drop_filled, shelf_take_output_seq, shelf_take_output_seq]
  refine ⟨hshelf, ?_⟩
  change [trade.bare] = _
  rw [htrade, hconfig]

end Shelf

/-! ## Trades and books -/

section Books
variable {n m : Nat} {c c' : TradingCore n m}
variable {l : List NewOrder} {i : Fin n} {order_id : OrderId} {side : Side} {a : Fin m}

/-- The trades are those of a first part of the fills; of all of them while there are trade ids. -/
def Traded (instrument : InstrumentId) (trade_id : TradeId) (request : OrderRequest) (order_id : OrderId) (side : Side)
    (fills : List Fill) (out : List OutputEvent) : Prop :=
  ∃ settled, settled <+: fills ∧ (trades out).map TradeEvent.bare = settled.map (fillTrade instrument request order_id side) ∧
    (val trade_id + fills.length ≤ 18446744073709551615 → settled = fills)

/-- The book of instrument `i` holds `l` now; the others are as they were. -/
structure Shelved (c c' : TradingCore n m) (i : Fin n) (l : List NewOrder) : Prop where
  holds : Holds (c'.book i) l
  others : ∀ j, j ≠ i → c'.book j = c.book j

theorem Shelved.of_book {b : OrderBook} (hb : Holds b l) (h : c'.book = (c.set_book i b).book) : Shelved c c' i l := by
  constructor
  · rw [h, book_set_book, if_pos rfl]
    exact hb
  · intro j hj
    rw [h, book_set_book, if_neg hj]

theorem Shelved.of_eq {c₁ : TradingCore n m} (h : Shelved c c₁ i l) (he : c'.book = c₁.book) :
    Shelved c c' i l := by
  constructor
  · rw [he]
    exact h.holds
  · intro j hj
    rw [he]
    exact h.others j hj

theorem Shelved.trans {l l' : List NewOrder} {c₁ : TradingCore n m} (h : Shelved c c₁ i l) (h' : Shelved c₁ c' i l') :
    Shelved c c' i l' :=
  ⟨h'.holds, fun j hj => (h'.others j hj).trans (h.others j hj)⟩

/-- Every book still holds a list of orders. -/
theorem Shelved.total {d : Desk n m} (hb : Books c d) (h : Shelved c c' i l) (j : Fin n) :
    ∃ l, Holds (c'.book j) l := by
  by_cases hj : j = i
  · rw [hj]
    exact ⟨l, h.holds⟩
  · rw [h.others j hj]
    exact ⟨_, hb j⟩

theorem book_of_shelf {s : Shelf n} (h : c'.shelf = s) : c'.book = fun i => s.instruments[i].book := by
  funext i
  exact congrArg (fun s : Shelf n => s.instruments[i].book) h

theorem settle_fills_shelf {request : OrderRequest} {quantity : QuantityLots} {fills : List Fill} {c : TradingCore n m}
    {cum : QuantityLots} {out : List OutputEvent}
    (h : TradingCore.settle_fills i a request order_id side quantity c cum fills = .ok (c', out))
    (hsum : val cum + (fills.map fun fill => val fill.quantity).sum ≤ 18446744073709551615) :
    (∃ trade_id, c'.shelf = { c.shelf with next_trade_id := trade_id }) ∧
      Traded c.instruments[i].config.id c.next_trade_id request order_id side fills out := by
  induction fills generalizing c cum out with
  | nil =>
    cases h
    exact ⟨⟨_, rfl⟩, [], List.prefix_rfl, rfl, fun _ => rfl⟩
  | cons fill fills ih =>
    rw [List.map_cons, List.sum_cons] at hsum
    have hrest : 0 ≤ (fills.map fun fill => val fill.quantity).sum := sum_nonneg_of fun fill _ => (u64_bounds _).1
    obtain ⟨cum', hadd, hcum⟩ := exists_checked_add rfl (a := cum) (b := fill.quantity) (by simp only [Machine.hi]; omega)
    rw [TradingCore.settle_fills, hadd] at h
    dsimp only at h
    cases hid : next c.next_trade_id with
    | none =>
      rw [hid] at h
      cases h
      refine ⟨⟨_, rfl⟩, [], List.nil_prefix, rfl, fun hle => ?_⟩
      rw [next_eq_none.1 hid, List.length_cons] at hle
      omega
    | some trade_id =>
      rw [hid] at h
      obtain ⟨maker, -, h⟩ := bind_eq_ok.1 h
      obtain ⟨⟨c₂, rest⟩, hrun, h⟩ := bind_eq_ok.1 h
      cases h
      obtain ⟨hone, htrade⟩ := settle_one_shelf c i a maker request order_id side quantity cum' trade_id fill
      obtain ⟨⟨last, hshelf⟩, settled, hle, htrades, hall⟩ := ih hrun (by omega)
      have hconfig : (c.settle_one i a maker request order_id side quantity cum' trade_id fill).1.instruments[i].config.id =
          c.instruments[i].config.id := congrArg (fun s : Shelf n => s.instruments[i].config.id) hone
      have hnext : (c.settle_one i a maker request order_id side quantity cum' trade_id fill).1.next_trade_id = trade_id :=
        congrArg Shelf.next_trade_id hone
      refine ⟨⟨last, by rw [hshelf, hone]⟩, fill :: settled, List.cons_prefix_cons.2 ⟨rfl, hle⟩, ?_, fun hroom => ?_⟩
      · rw [trades_append, List.map_append, htrade, htrades, hconfig]
        rfl
      · rw [hall]
        rw [hnext, next_eq_some.1 hid]
        rw [List.length_cons] at hroom
        push_cast at hroom
        omega

/-- Matching an order and settling its fills, as far as the books are concerned. -/
theorem execute_shelf {request : OrderRequest} {limit : PriceTicks} {quantity filled : QuantityLots}
    {out : List OutputEvent} (hl : Holds (c.book i) l) (hopen : ∀ o ∈ l, 0 < val o.left)
    (h : c.execute i a request order_id side limit quantity = .ok (c', out, filled)) :
    ∃ fills l' r', Fills side.opposite limit l quantity fills l' r' ∧ val filled + val r' = val quantity ∧
      Traded c.instruments[i].config.id c.next_trade_id request order_id side fills out ∧ Shelved c c' i l' ∧
      c'.next_order_id = c.next_order_id ∧ c'.next_priority = c.next_priority := by
  obtain ⟨b, l', r', fills, hmatch, hb, -, hfills, -⟩ := match_order_ok hl side limit quantity
  have hle := hfills.left_le
  have hsum := hfills.sum
  have hfilled : val (quantity - r') = val quantity - val r' := u64_sub hle
  have hbound := u64_bounds quantity
  have hr0 := u64_bounds r'
  rw [TradingCore.execute, show c.instruments[i].book = c.book i from rfl, hmatch, ok_bind] at h
  dsimp only at h
  split at h
  · rename_i hz
    cases h
    rw [is_zero_iff] at hz
    have hnone : fills = [] := by
      cases hfills with
      | nil => rfl
      | @cons _ _ o _ _ _ hpos hnext _ hrest =>
        -- A first fill would have left less of the order.
        have h1 := hrest.left_le
        have h2 := u64_min quantity o.left
        have h3 := hopen o hnext.mem.1
        rw [u64_sub (by omega)] at h1
        omega
    refine ⟨fills, l', r', hfills, by omega, ?_, .of_book hb rfl, rfl, rfl⟩
    rw [hnone]
    exact ⟨[], List.prefix_rfl, rfl, fun _ => rfl⟩
  · obtain ⟨⟨c₂, out₂⟩, hrun, h⟩ := bind_eq_ok.1 h
    cases h
    have hzero : val (0 : UInt64) = 0 := rfl
    obtain ⟨⟨trade_id, hshelf⟩, htraded⟩ := settle_fills_shelf hrun (by rw [hsum, hzero]; omega)
    have hconfig : (c.set_book i b).instruments[i].config.id = c.instruments[i].config.id :=
      congrArg (fun s => (s.instruments i).1.id) (setup_set_book c i b)
    rw [hconfig] at htraded
    exact ⟨fills, l', r', hfills, by omega, htraded, .of_book hb (book_of_shelf hshelf),
      congrArg Shelf.next_order_id hshelf, congrArg Shelf.next_priority hshelf⟩

/-- The order of a request as it comes to rest, with `r'` left of it. -/
structure Rested (c : TradingCore n m) (request : OrderRequest) (order_id : OrderId) (client_order_id : ClientOrderId)
    (side : Side) (r' : QuantityLots) (o : NewOrder) : Prop where
  id : o.order_id = order_id
  client : o.client_order_id = client_order_id
  side : o.side = side
  price : o.price = request.price
  total : o.total_quantity = request.quantity
  filled : val o.cumulative_filled + val r' = val request.quantity
  open_lots : 0 < val r'
  newest : next c.next_priority = some o.priority
  limit : request.kind = .New → request.order_type = .Limit

/-- An order that went through matching against `l`: its fills, its trades, and
what its instrument lists afterwards. -/
structure Matched (c c' : TradingCore n m) (i : Fin n) (request : OrderRequest) (order_id : OrderId)
    (client_order_id : ClientOrderId) (side : Side) (limit : PriceTicks) (quantity : QuantityLots) (l : List NewOrder)
    (fills : List Fill) (l' : List NewOrder) (r' : QuantityLots) (out : List OutputEvent) : Prop where
  trail : Fills side.opposite limit l quantity fills l' r'
  traded : Traded c.instruments[i].config.id c.next_trade_id request order_id side fills out
  books : Shelved c c' i l' ∨
    ∃ o, Rested c request order_id client_order_id side r' o ∧ Shelved c c' i (l' ++ [o])

/-- An order that should rest does, unless priorities have run out or the book has no place for it. -/
theorem rest_order_with_shelf {client_order_id : ClientOrderId} {price : PriceTicks} {total filled : QuantityLots}
    (hl : Holds (c.book i) l) (hfresh : order_id ∉ l.map NewOrder.order_id)
    (h : c.rest_order_with i a client_order_id side price total filled order_id = .ok c') :
    c'.next_order_id = c.next_order_id ∧ (c'.book = c.book ∨ ∃ account priority, next c.next_priority = some priority ∧
      Shelved c c' i (l ++ [⟨order_id, account, client_order_id, side, price, total, filled, priority⟩])) := by
  rw [TradingCore.rest_order_with] at h
  cases hp : next c.next_priority with
  | none =>
    rw [hp] at h
    cases h
    exact ⟨rfl, .inl rfl⟩
  | some priority =>
    rw [hp] at h
    obtain ⟨inserted, hins, h⟩ := bind_eq_ok.1 h
    cases inserted with
    | error full =>
      cases h
      exact ⟨rfl, .inl rfl⟩
    | ok b =>
      obtain ⟨hb, -⟩ := hl.insert_accepted hfresh hins
      have hshelved : ∀ {c₁ : TradingCore n m}, c₁.book = (c.set_book i b).book → Shelved c c₁ i _ := .of_book hb
      cases hsub : checked_sub total filled with
      | none =>
        simp only [hsub] at h
        cases h
        exact ⟨rfl, .inr ⟨_, priority, rfl, hshelved rfl⟩⟩
      | some remaining =>
        simp only [hsub] at h
        cases h
        have hshelf := shelf_reserve (TradingCore.set_book { c with next_priority := priority } i b) a i side remaining price
        exact ⟨congrArg Shelf.next_order_id hshelf, .inr ⟨_, priority, rfl, hshelved (book_of_shelf hshelf)⟩⟩

end Books

/-! ## The handlers -/

section Handlers
variable {n m : Nat} {c c' : TradingCore n m} {d : Desk n m}
variable {report : ExecutionReport} {request : OrderRequest} {out : List OutputEvent}

/-- What handling a request does to the books, and the trades of it. -/
inductive Handled (c c' : TradingCore n m) (d : Desk n m) (request : OrderRequest) (out : List OutputEvent)
    (report : ExecutionReport) : Prop
  | refused (reason : RejectReason) : c.reject_report request reason = (c', report) → out = [] →
      Handled c c' d request out report
  /-- The order ids have run out, and the engine stops. -/
  | exhausted {checked : CheckedNewOrder n m} : request.kind = .New → Passes (c.check_new_order request) checked →
      next c.next_order_id = none → out = [] → c'.shelf = c.shelf → Handled c c' d request out report
  | cancels {i : Fin n} {node : OrderNode} : request.kind = .Cancel → node.account = request.account →
      node.client_order_id = request.target_client_order_id → out = [] → report.reject_reason = none →
      c'.next_order_id = c.next_order_id → c'.next_priority = c.next_priority →
      (∀ a j, (c'.position a j).position_lots = (c.position a j).position_lots) →
      (c.book i).remove node.order_id = .ok (some node, c'.book i) → (∀ j, j ≠ i → c'.book j = c.book j) →
      Handled c c' d request out report
  | enters {checked : CheckedNewOrder n m} {order_id : OrderId} {fills : List Fill} {l' : List NewOrder}
      {r' : QuantityLots} : request.kind = .New → Passes (c.check_new_order request) checked →
      next c.next_order_id = some order_id → report.reject_reason = none → c'.next_order_id = order_id →
      Matched c c' checked.instrument_index request order_id request.client_order_id request.side checked.execution_limit
        request.quantity (d.book checked.instrument_index) fills l' r' out →
      Handled c c' d request out report
  /-- A total at what is filled already. -/
  | retires {checked : CheckedReplace n m} : request.kind = .Replace → Passes (c.check_replace request) checked →
      request.quantity = checked.existing.cumulative_filled → out = [] → report.reject_reason = none →
      report.order_id = checked.order_id → c'.next_order_id = c.next_order_id →
      Shelved c c' checked.instrument_index
        (without NewOrder.order_id checked.order_id (d.book checked.instrument_index)) →
      Handled c c' d request out report
  /-- The same price with a lower total. -/
  | reduces {checked : CheckedReplace n m} : request.kind = .Replace → Passes (c.check_replace request) checked →
      request.price = checked.existing.price → request.quantity < checked.existing.total_quantity →
      request.quantity ≠ checked.existing.cumulative_filled → out = [] → report.reject_reason = none →
      report.order_id = checked.order_id → c'.next_order_id = c.next_order_id →
      Shelved c c' checked.instrument_index (amend NewOrder.order_id checked.order_id
        (fun o => { o with total_quantity := request.quantity }) (d.book checked.instrument_index)) →
      Handled c c' d request out report
  | requeues {checked : CheckedReplace n m} {target : QuantityLots} {fills : List Fill} {l' : List NewOrder}
      {r' : QuantityLots} : request.kind = .Replace → Passes (c.check_replace request) checked →
      ¬(request.price = checked.existing.price ∧ request.quantity < checked.existing.total_quantity) →
      val target = val request.quantity - val checked.existing.cumulative_filled → report.reject_reason = none →
      report.order_id = checked.order_id → c'.next_order_id = c.next_order_id →
      Matched c c' checked.instrument_index request checked.order_id checked.existing.client_order_id
        checked.existing.side request.price target
        (without NewOrder.order_id checked.order_id (d.book checked.instrument_index)) fills l' r' out →
      Handled c c' d request out report

theorem handle_new_handled (h : View c d) (hk : request.kind = .New)
    (hrun : c.handle_new request = .ok (c', out, report)) :
    Handled c c' d request out report := by
  rw [TradingCore.handle_new] at hrun
  obtain ⟨checked, hcheck, hrun⟩ := bind_eq_ok.1 hrun
  cases checked with
  | error reason =>
    cases hrun
    exact .refused reason rfl rfl
  | ok checked =>
    dsimp only at hrun
    cases hid : next c.next_order_id with
    | none =>
      rw [hid] at hrun
      cases hrun
      exact .exhausted hk hcheck hid rfl (shelf_take_output_seq (c.set_fault .SequenceExhausted))
    | some order_id =>
      rw [hid] at hrun
      obtain ⟨⟨c₁, out₁, filled⟩, hex, hrun⟩ := bind_eq_ok.1 hrun
      obtain ⟨fills, l', r', hfills, hsum, htraded, ⟨hholds, hothers⟩, hids, hprio⟩ :=
        execute_shelf (c := { c with next_order_id := order_id }) (h.books checked.instrument_index)
          (fun o ho => (h.inv.working ho).2) hex
      have hshelved : Shelved c c₁ checked.instrument_index l' := ⟨hholds, hothers⟩
      have hb := u64_bounds r'
      have hsub : checked_sub request.quantity filled = some r' := checked_sub_eq_some.2 (by omega)
      have hdone : ∀ {c₂ : TradingCore n m}, c₂.shelf = c₁.shelf → Matched c c₂ checked.instrument_index request order_id
          request.client_order_id request.side checked.execution_limit request.quantity (d.book checked.instrument_index)
          fills l' r' out₁ :=
        fun hs => ⟨hfills, htraded, .inl (Shelved.of_eq hshelved (book_of_shelf hs))⟩
      dsimp only at hrun
      rw [hsub] at hrun
      dsimp only at hrun
      have hseq := shelf_take_output_seq c₁
      split at hrun
      · cases hrun
        exact .enters hk hcheck hid rfl ((congrArg Shelf.next_order_id hseq).trans hids) (hdone hseq)
      · rename_i hz
        split at hrun
        · cases hrun
          exact .enters hk hcheck hid rfl ((congrArg Shelf.next_order_id hseq).trans hids) (hdone hseq)
        · rename_i hmarket
          obtain ⟨c₂, hrest, hrun⟩ := bind_eq_ok.1 hrun
          cases hrun
          have hseq := shelf_take_output_seq c₂
          have hfresh : order_id ∉ l'.map NewOrder.order_id := by
            intro hm
            obtain ⟨o, ho, he⟩ := List.mem_map.1 (hfills.ids_subset.subset hm)
            have := h.inv.issued ho
            rw [he, ← h.ledger.order_id, next_eq_some.1 hid] at this
            omega
          obtain ⟨hids₂, hbook⟩ := rest_order_with_shelf hshelved.holds hfresh hrest
          refine .enters hk hcheck hid rfl ((congrArg Shelf.next_order_id hseq).trans (hids₂.trans hids))
            ⟨hfills, htraded, ?_⟩
          rw [is_zero_iff] at hz
          rcases hbook with hbook | ⟨account, priority, hp, hrested⟩
          · exact .inl (hshelved.of_eq ((book_of_shelf hseq).trans hbook))
          · have hshelved' := (hshelved.trans hrested).of_eq (book_of_shelf hseq)
            refine .inr ⟨_, ⟨rfl, rfl, rfl, rfl, rfl, hsum, by omega, ?_, fun _ => ?_⟩, hshelved'⟩
            · rw [hprio] at hp
              exact hp
            · cases ht : request.order_type with
              | Limit => rfl
              | Market => exact absurd ht hmarket

theorem handle_cancel_handled (h : View c d) (hk : request.kind = .Cancel)
    (hrun : c.handle_cancel request = .ok (c', report)) :
    Handled c c' d request [] report := by
  rw [TradingCore.handle_cancel] at hrun
  split at hrun
  · cases hrun
    exact .refused _ rfl rfl
  · dsimp only at hrun
    cases hkey : c.client_orders.lookup (request.account, request.target_client_order_id) with
    | none =>
      rw [hkey] at hrun
      cases hrun
      exact .refused _ rfl rfl
    | some order_id =>
      rw [hkey] at hrun
      dsimp only at hrun
      cases hlive : c.live_orders.lookup order_id with
      | none =>
        rw [hlive] at hrun
        cases hrun
        exact .refused _ rfl rfl
      | some live =>
        rw [hlive] at hrun
        dsimp only at hrun
        obtain ⟨i, o, ho, rfl, hacc, hcl⟩ := h.ledger.order_of_key hkey
        obtain ⟨t, ht, hid, hown⟩ := (h.ledger.orders.live _ _).1 hlive
        obtain ⟨hi, rfl⟩ := h.inv.tag_unique ht (List.mem_map_of_mem ho) hid
        subst hi
        obtain ⟨node, book, p, hrem, rfl, -, hrel, -, hview⟩ := take_out h ho hown
        have hrem' : c.instruments[live.instrument_index].book.remove node.order_id = .ok (some node, book) := hrem
        have hgone : ∀ c₁ : TradingCore n m, c₁.shelf = (c.set_book live.instrument_index book).shelf →
            c₁.position = (c.without_order live.account_index live.instrument_index book p node.toNewOrder).position →
            ∀ report : ExecutionReport, report.reject_reason = none →
              Handled c (c₁.base_report request node.order_id).1 d request [] report := by
          intro c₁ hshelf hpos report hreason
          have hseq := (shelf_take_output_seq c₁).trans hshelf
          have hbook : (c₁.base_report request node.order_id).1.book = (c.set_book live.instrument_index book).book :=
            book_of_shelf hseq
          refine .cancels (i := live.instrument_index) hk hacc hcl rfl hreason (congrArg Shelf.next_order_id hseq)
            (congrArg Shelf.next_priority hseq) (fun a j => ?_) ?_ fun j hj => ?_
          · change (c₁.take_output_seq.1.position a j).position_lots = _
            rw [eq_of_still TradingCore.position (fun _ => rfl) (still_take_output_seq c₁), hpos]
            exact val_inj.1 ((hview.ledger.positions a j).lots.trans (h.ledger.positions a j).lots.symm)
          · rw [hbook, book_set_book, if_pos rfl]
            exact hrem
          · rw [hbook, book_set_book, if_neg hj]
        simp only [hrem', ok_bind, expect_some, OrderNode.remaining_eq (h.inv.working ho).1, hrel] at hrun
        cases hrun
        refine hgone _ ?_ ?_ _ ?_
        · rfl
        · rfl
        · rfl

/-- A lower total at the same price: of the book only this one order changes. -/
theorem replace_in_place_handled (h : View c d) (hk : request.kind = .Replace) {checked : CheckedReplace n m}
    (hcheck : Passes (c.check_replace request) checked)
    (hin : request.price = checked.existing.price ∧ request.quantity < checked.existing.total_quantity)
    (hrun : c.replace_in_place request checked = .ok (c', report)) :
    Handled c c' d request [] report := by
  have ha := check_replace_passes hcheck
  obtain ⟨ho, hid, -⟩ := ha.existing h
  have htotal := ha.total
  have hlt := u64_lt.1 hin.2
  have hleft := NewOrder.left_val (h.inv.working ho).1
  have hq := u64_bounds request.quantity
  have hcum := u64_bounds checked.existing.cumulative_filled
  obtain ⟨b, hred, hb, -⟩ := (h.books checked.instrument_index).reduce_total_ok ho htotal (by
    have := (h.books checked.instrument_index).openTotal_le ho
    omega)
  obtain ⟨released, hrel, -⟩ := exists_checked_sub rfl (a := checked.existing.total_quantity)
    (b := request.quantity) (by omega)
  obtain ⟨lots, hlots, -⟩ := exists_checked_sub rfl (a := request.quantity)
    (b := checked.existing.cumulative_filled) (by omega)
  rw [hid] at hred hb
  rw [TradingCore.replace_in_place] at hrun
  dsimp only at hrun
  rw [hrel] at hrun
  dsimp only at hrun
  have hshelf := shelf_release_reservation c checked.account_index checked.instrument_index checked.existing.side released
    checked.existing.price
  generalize c.release_reservation checked.account_index checked.instrument_index checked.existing.side released
    checked.existing.price = c₁ at hrun hshelf
  obtain ⟨b₁, hred₁, hrun⟩ := bind_eq_ok.1 hrun
  have hbook : c₁.book = c.book := book_of_shelf hshelf
  have hread : c₁.instruments[checked.instrument_index].book = c.book checked.instrument_index :=
    congrFun hbook checked.instrument_index
  rw [hread, hred] at hred₁
  cases hred₁
  have hread' : (c₁.set_book checked.instrument_index b).instruments[checked.instrument_index].book = b :=
    (book_set_book c₁ checked.instrument_index checked.instrument_index b).trans (if_pos rfl)
  have hother : ∀ b' : OrderBook, (c₁.set_book checked.instrument_index b').book =
      (c.set_book checked.instrument_index b').book := by
    intro b'
    funext j
    rw [book_set_book, book_set_book, hbook]
  by_cases heq : request.quantity = checked.existing.cumulative_filled
  · rw [if_pos heq] at hrun
    obtain ⟨⟨_, b₂⟩, hrem, hrun⟩ := bind_eq_ok.1 hrun
    have ho₁ := mem_amend.2 (.inr ⟨checked.existing.toNewOrder, ho, hid, rfl⟩ : _ ∨
      ∃ x ∈ d.book checked.instrument_index, x.order_id = checked.order_id ∧
        { x with total_quantity := request.quantity } =
          { checked.existing.toNewOrder with total_quantity := request.quantity })
    obtain ⟨node, b₃, hrem', -, hb₃, -⟩ := hb.remove_ok ho₁
    have hrem'' : b.remove checked.order_id = .ok (some node, b₃) := by
      rw [← hid]
      exact hrem'
    rw [hread', hrem''] at hrem
    cases hrem
    cases hrun
    refine .retires hk hcheck heq rfl rfl rfl
      ((congrArg Shelf.next_order_id (shelf_take_output_seq _)).trans (congrArg Shelf.next_order_id hshelf)) ?_
    have hid₁ : NewOrder.order_id { checked.existing.toNewOrder with total_quantity := request.quantity } =
      checked.order_id := hid
    rw [hid₁, without_amend (by intro x; rfl)] at hb₃
    refine .of_book hb₃ ((book_of_shelf (shelf_take_output_seq _)).trans ?_)
    rw [← hother]
    funext j
    change ((c₁.set_book checked.instrument_index b).set_book checked.instrument_index b₂).book j = _
    simp only [book_set_book]
    split <;> rfl
  · rw [if_neg heq] at hrun
    simp only [hlots] at hrun
    cases hrun
    exact .reduces hk hcheck hin.1 hin.2 heq rfl rfl rfl
      ((congrArg Shelf.next_order_id (shelf_take_output_seq _)).trans (congrArg Shelf.next_order_id hshelf))
      (.of_book hb ((book_of_shelf (shelf_take_output_seq _)).trans (hother b)))

/-- A new price or a higher total: the order leaves, goes through matching, and comes back under its id. -/
theorem replace_requeue_handled (h : View c d) (hk : request.kind = .Replace) {checked : CheckedReplace n m}
    (hcheck : Passes (c.check_replace request) checked)
    (hin : ¬(request.price = checked.existing.price ∧ request.quantity < checked.existing.total_quantity))
    (hrun : c.replace_requeue request checked = .ok (c', out, report)) : Handled c c' d request out report := by
  have ha := check_replace_passes hcheck
  obtain ⟨ho, hid, -⟩ := ha.existing h
  have htotal := ha.total
  have hq := u64_bounds request.quantity
  have hcum := u64_bounds checked.existing.cumulative_filled
  obtain ⟨target, htarget, htargetv⟩ := exists_checked_sub rfl (a := request.quantity)
    (b := checked.existing.cumulative_filled) (by omega)
  obtain ⟨node, b, hrem, -, hb, -⟩ := (h.books checked.instrument_index).remove_ok ho
  rw [show checked.existing.toNewOrder.order_id = checked.order_id from hid] at hrem hb
  have hrem' : c.instruments[checked.instrument_index].book.remove checked.order_id = .ok (some node, b) := hrem
  rw [TradingCore.replace_requeue] at hrun
  simp only [hrem', ok_bind, OrderNode.remaining_eq (h.inv.working ho).1] at hrun
  -- The engine without the order, as far as the books are concerned.
  have hshelf := shelf_release_reservation (c.set_book checked.instrument_index b) checked.account_index
    checked.instrument_index checked.existing.side checked.existing.left checked.existing.price
  generalize (c.set_book checked.instrument_index b).release_reservation checked.account_index checked.instrument_index
    checked.existing.side checked.existing.left checked.existing.price = c₁ at hrun hshelf
  have hshelf' : TradingCore.shelf { c₁ with
      live_orders := c₁.live_orders.erase checked.order_id
      client_orders := c₁.client_orders.erase (request.account, checked.existing.client_order_id) } =
    (c.set_book checked.instrument_index b).shelf := hshelf
  generalize ({ c₁ with
      live_orders := c₁.live_orders.erase checked.order_id
      client_orders := c₁.client_orders.erase (request.account, checked.existing.client_order_id) } :
    TradingCore n m) = c₂ at hrun hshelf'
  have hshelved : Shelved c c₂ checked.instrument_index _ := .of_book hb (book_of_shelf hshelf')
  have hids : c₂.next_order_id = c.next_order_id := congrArg Shelf.next_order_id hshelf'
  have htrade : c₂.next_trade_id = c.next_trade_id := congrArg Shelf.next_trade_id hshelf'
  have hprio : c₂.next_priority = c.next_priority := congrArg Shelf.next_priority hshelf'
  have hconfig : c₂.instruments[checked.instrument_index].config.id = c.instruments[checked.instrument_index].config.id :=
    (congrArg (fun s : Shelf n => s.instruments[checked.instrument_index].config.id) hshelf').trans
      (congrArg (fun s => (s.instruments checked.instrument_index).1.id) (setup_set_book c checked.instrument_index b))
  by_cases heq : request.quantity = checked.existing.cumulative_filled
  · rw [if_pos heq] at hrun
    cases hrun
    have hseq := shelf_take_output_seq c₂
    exact .retires hk hcheck heq rfl rfl rfl ((congrArg Shelf.next_order_id hseq).trans hids)
      (hshelved.of_eq (book_of_shelf hseq))
  · rw [if_neg heq] at hrun
    simp only [htarget] at hrun
    obtain ⟨⟨c₃, out₃, filled⟩, hex, hrun⟩ := bind_eq_ok.1 hrun
    obtain ⟨fills, l', r', hfills, hsum, htraded, hshelved₃, hids₃, hprio₃⟩ := execute_shelf hshelved.holds
      (fun o ho => (h.inv.working (mem_without.1 ho).1).2) hex
    rw [hconfig, htrade] at htraded
    have hr0 := u64_bounds r'
    have hf0 := u64_bounds filled
    obtain ⟨cum, hadd, hcumv⟩ := exists_checked_add rfl (a := checked.existing.cumulative_filled) (b := filled)
      (by simp only [Machine.hi]; omega)
    simp only [hadd] at hrun
    split at hrun
    · cases hrun
      have hseq := shelf_take_output_seq c₃
      exact .requeues hk hcheck hin htargetv rfl rfl ((congrArg Shelf.next_order_id hseq).trans (hids₃.trans hids))
        ⟨hfills, htraded, .inl ((hshelved.trans hshelved₃).of_eq (book_of_shelf hseq))⟩
    · rename_i hfull
      have hne : val cum ≠ val request.quantity := fun he => hfull (val_inj.1 he)
      obtain ⟨c₄, hrest, hrun⟩ := bind_eq_ok.1 hrun
      have hsub : checked_sub request.quantity cum = some r' := checked_sub_eq_some.2 (by omega)
      simp only [hsub] at hrun
      cases hrun
      have hseq := shelf_take_output_seq c₄
      have hfresh : checked.order_id ∉ l'.map NewOrder.order_id := by
        intro hm
        obtain ⟨o, ho, he⟩ := List.mem_map.1 (hfills.ids_subset.subset hm)
        exact (mem_without.1 ho).2 he
      obtain ⟨hids₄, hbook⟩ := rest_order_with_shelf hshelved₃.holds hfresh hrest
      refine .requeues hk hcheck hin htargetv rfl rfl
        ((congrArg Shelf.next_order_id hseq).trans (hids₄.trans (hids₃.trans hids))) ⟨hfills, htraded, ?_⟩
      rcases hbook with hbook | ⟨account, priority, hp, hrested⟩
      · exact .inl ((hshelved.trans hshelved₃).of_eq ((book_of_shelf hseq).trans hbook))
      · have hshelved' := ((hshelved.trans hshelved₃).trans hrested).of_eq (book_of_shelf hseq)
        rw [hprio₃, hprio] at hp
        have hsum' : val cum + val r' = val request.quantity := by omega
        have hopen : 0 < val r' := by omega
        have hkind : request.kind = .New → request.order_type = .Limit := by rw [hk]; simp
        refine .inr ⟨_, ?_, hshelved'⟩
        exact ⟨rfl, rfl, rfl, rfl, rfl, hsum', hopen, hp, hkind⟩

theorem handle_request_handled (h : View c d) (hrun : c.handle_request request = .ok (c', out, report)) :
    Handled c c' d request out report := by
  rw [TradingCore.handle_request] at hrun
  cases hk : request.kind with
  | New =>
    rw [hk] at hrun
    exact handle_new_handled h hk hrun
  | Cancel =>
    rw [hk] at hrun
    obtain ⟨⟨c₁, report₁⟩, hcancel, hrun⟩ := bind_eq_ok.1 hrun
    cases hrun
    exact handle_cancel_handled h hk hcancel
  | Replace =>
    rw [hk] at hrun
    change c.handle_replace request = _ at hrun
    rw [TradingCore.handle_replace] at hrun
    obtain ⟨checked, hcheck, hrun⟩ := bind_eq_ok.1 hrun
    cases checked with
    | error reason =>
      cases hrun
      exact .refused reason rfl rfl
    | ok checked =>
      dsimp only at hrun
      split at hrun
      · rename_i hin
        obtain ⟨⟨c₁, report₁⟩, hplace, hrun⟩ := bind_eq_ok.1 hrun
        cases hrun
        exact replace_in_place_handled h hk hcheck hin hplace
      · rename_i hin
        exact replace_requeue_handled h hk hcheck hin hrun

end Handlers

section Total
variable {n m : Nat} {c c' : TradingCore n m} {d : Desk n m}

theorem Matched.total {i : Fin n} {request : OrderRequest} {order_id : OrderId} {client_order_id : ClientOrderId}
    {side : Side} {limit : PriceTicks} {quantity r' : QuantityLots} {l l' : List NewOrder} {fills : List Fill}
    {out : List OutputEvent} (hb : Books c d)
    (h : Matched c c' i request order_id client_order_id side limit quantity l fills l' r' out) (j : Fin n) :
    ∃ l, Holds (c'.book j) l := by
  rcases h.books with hs | ⟨o, -, hs⟩
  · exact hs.total hb j
  · exact hs.total hb j

/-- A request leaves every book with a list of orders, even when it stops the engine. -/
theorem Handled.total (hb : Books c d) {request : OrderRequest} {out : List OutputEvent} {report : ExecutionReport}
    (h : Handled c c' d request out report) (j : Fin n) : ∃ l, Holds (c'.book j) l := by
  cases h with
  | refused reason he =>
    have hs : (c.reject_report request reason).1.shelf = c.shelf := shelf_take_output_seq c
    rw [he] at hs
    rw [show c'.book = c.book from book_of_shelf hs]
    exact ⟨_, hb j⟩
  | exhausted _ _ _ _ hs =>
    rw [show c'.book = c.book from book_of_shelf hs]
    exact ⟨_, hb j⟩
  | @cancels i _ _ _ _ _ _ _ _ _ hrem hothers =>
    exact Shelved.total hb ⟨((hb i).of_remove hrem).2.2, hothers⟩ j
  | enters _ _ _ _ _ hm => exact hm.total hb j
  | retires _ _ _ _ _ _ _ hs => exact hs.total hb j
  | reduces _ _ _ _ _ _ _ _ _ hs => exact hs.total hb j
  | requeues _ _ _ _ _ _ _ hm => exact hm.total hb j

end Total

/-! ## Events -/

section Events
variable {n m : Nat} {c c' : TradingCore n m} {d : Desk n m}
variable {out : List OutputEvent} {event : InputEvent}

theorem outcome_of_handled (h : View c d) {request : OrderRequest} {report : ExecutionReport}
    (hrun : c.handle_request request = .ok (c', out, report)) : Outcome c c' d request out report := by
  obtain ⟨c₁, out₁, report₁, hrun₁, ho⟩ := handle_request_ok h (checkable_of_handled hrun)
  rw [hrun] at hrun₁
  cases hrun₁
  exact ho

/-- What an event does, whether or not it ends in a fault. -/
inductive Happened (c c' : TradingCore n m) (d : Desk n m) (out : List OutputEvent) : InputEvent → Prop
  | quiet {event : InputEvent} : (∀ request, event ≠ .Order request) → c'.ground = c.ground → trades out = [] →
      Happened c c' d out event
  | retry {request : OrderRequest} {a : Fin m} {previous report : ExecutionReport} :
      c.cache_hit request = some (a, .Retry previous) → c' = c.take_output_seq.1 → out = [.Report report] →
      report.reject_reason = previous.reject_reason → Happened c c' d out (.Order request)
  | conflict {request : OrderRequest} {a : Fin m} {report : ExecutionReport} :
      c.cache_hit request = some (a, .Conflict) →
      c' = c.take_output_seq.1.record_outcome a request (request_fingerprint request) report → out = [.Report report] →
      report.reject_reason = some .DuplicateRequestConflict → Happened c c' d out (.Order request)
  | handled {request : OrderRequest} {c₁ : TradingCore n m} {out₁ : List OutputEvent} {report : ExecutionReport} :
      c.cache_hit request = none → Outcome c c₁ d request out₁ report → Handled c c₁ d request out₁ report →
      c' = c₁.finish_request request (request_fingerprint request) report → out = out₁ ++ [.Report report] →
      Happened c c' d out (.Order request)

theorem ground_push_state (c : TradingCore n m) (event : EngineStateEvent) : (c.push_state event).1.ground = c.ground :=
  ground_of_still (still_take_output_seq c)

theorem apply_market_happened (event : MarketEvent) :
    Happened c (c.apply_market event).1 d (c.apply_market event).2 (.Market event) := by
  have ho : ∀ request, InputEvent.Market event ≠ .Order request := nofun
  rw [TradingCore.apply_market]
  split
  · exact .quiet ho rfl rfl
  · dsimp only
    generalize MarketView.apply _ _ _ _ = r
    split
    · exact .quiet ho ((ground_push_state _ _).trans (ground_set_market _ _ _)) rfl
    · exact .quiet ho (ground_set_market _ _ _) rfl

theorem apply_control_happened (command : ControlCommand) :
    Happened c (c.apply_control command).1 d (c.apply_control command).2 (.Control command) := by
  have ho : ∀ request, InputEvent.Control command ≠ .Order request := nofun
  cases command with
  | SetGlobalKill engaged =>
    rw [TradingCore.apply_control]
    dsimp only
    split
    · exact .quiet ho rfl rfl
    · exact .quiet ho (ground_push_state _ _) rfl
  | SetAccountEnabled account enabled =>
    rw [TradingCore.apply_control]
    dsimp only
    split
    · exact .quiet ho rfl rfl
    · split
      · exact .quiet ho rfl rfl
      · exact .quiet ho ((ground_push_state _ _).trans (ground_set_account _ _ _ rfl rfl)) rfl
  | SetAccountLimits account limits =>
    rw [TradingCore.apply_control]
    dsimp only
    split
    · exact .quiet ho rfl rfl
    · exact .quiet ho ((ground_push_state _ _).trans (ground_set_account _ _ _ rfl rfl)) rfl

theorem apply_event_happened (h : View c d) (hrun : c.apply_event event = .ok (c', out)) :
    Happened c c' d out event := by
  cases event with
  | Market event =>
    have he : c.apply_market event = (c', out) := Except.ok.inj hrun
    have := apply_market_happened (c := c) (d := d) event
    rwa [he] at this
  | Control command =>
    have he : c.apply_control command = (c', out) := Except.ok.inj hrun
    have := apply_control_happened (c := c) (d := d) command
    rwa [he] at this
  | Order request =>
    rw [TradingCore.apply_event, TradingCore.apply_request] at hrun
    cases hhit : c.cache_hit request with
    | none =>
      rw [hhit] at hrun
      obtain ⟨⟨c₁, out₁, report⟩, hreq, hrun⟩ := bind_eq_ok.1 hrun
      cases hrun
      exact .handled hhit (outcome_of_handled h hreq) (handle_request_handled h hreq) rfl rfl
    | some hit =>
      obtain ⟨a, hit⟩ := hit
      rw [hhit] at hrun
      cases hit with
      | Retry previous =>
        cases hrun
        exact .retry hhit rfl rfl rfl
      | Conflict =>
        cases hrun
        exact .conflict hhit rfl rfl rfl

/-- An event leaves the books, the positions and the ids as they are and brings no trade, unless it is a
request that is handled. -/
theorem Happened.ground (h : Happened c c' d out event) :
    (c'.ground = c.ground ∧ trades out = []) ∨
      ∃ request c₁ out₁ report, event = .Order request ∧ c.cache_hit request = none ∧
        Handled c c₁ d request out₁ report ∧ c'.ground = c₁.ground ∧ out = out₁ ++ [.Report report] := by
  have hseq : c.take_output_seq.1.ground = c.ground := ground_of_still (still_take_output_seq c)
  cases h with
  | quiet _ hg ht => exact .inl ⟨hg, ht⟩
  | retry _ hc hout =>
    subst hc hout
    exact .inl ⟨hseq, rfl⟩
  | @conflict request a report hhit hc hout =>
    have ha : c.take_output_seq.1.account_index.lookup request.account = some a := by
      rw [show c.take_output_seq.1.account_index = c.account_index from
        congrArg (fun g : Ground n m => g.wiring.account_index) hseq]
      exact account_of_hit hhit
    have hg := (record_outcome_recorded c.take_output_seq.1 report ha).ground
    rw [← hc] at hg
    subst hout
    exact .inl ⟨hg.trans hseq, rfl⟩
  | @handled request c₁ out₁ report hhit _ hh hc hout =>
    have hg := (finish_request_recorded c₁ request report).ground
    rw [← hc] at hg
    exact .inr ⟨request, c₁, out₁, report, rfl, hhit, hh, hg, hout⟩

theorem Happened.total (hb : Books c d) (h : Happened c c' d out event) (j : Fin n) : ∃ l, Holds (c'.book j) l := by
  rcases h.ground with ⟨hg, -⟩ | ⟨request, c₁, out₁, report, -, -, hh, hg, -⟩
  · rw [show c'.book = c.book from congrArg Ground.book hg]
    exact ⟨_, hb j⟩
  · rw [show c'.book = c₁.book from congrArg Ground.book hg]
    exact hh.total hb j

/-- The books hold orders in every state a run reaches, also in one with a fault. -/
theorem run_holds {allocator : SlabAllocator} {config : EngineConfig} {inputs : List EngineInput}
    {c : TradingCore config.instruments.length config.accounts.length} {outs : List (List OutputEvent)}
    (h : (TradingCore.new allocator config).run inputs = .ok (c, outs)) (i : Fin config.instruments.length) :
    ∃ l, Holds (c.book i) l := by
  have h₀ := view_new allocator config
  obtain ⟨ts, hts, -, -⟩ := exists_history TradingCore.apply h
  refine history_events (fun _ => ⟨_, h₀⟩) (fun c _ => ∀ i, ∃ l, Holds (c.book i) l) (fun i => ⟨_, h₀.books i⟩) ?_ ?_ hts i
  · intro c ts input c' ih hi
    cases hi with
    | faulted => exact ih
    | exhausted => exact ih
  · intro c ts d input seq c₁ out _ _ hv _ he i
    exact (apply_event_happened (hv.entered input seq) he).total (hv.entered input seq).books i

end Events

end TradingLab
