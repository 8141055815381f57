import TradingLab.Invariants
import TradingLab.Sweep
import TradingLab.Telemetry
/-!
# What a snapshot shows

A snapshot is a bounded part of the books: the levels and orders it has are the best ones,
in the order in which they would trade.
-/
open LabLib

namespace TradingLab

/-! ## What there is to show -/

/-- The prices at which orders of a side rest, the best first. -/
def restingPrices (l : List NewOrder) (side : Side) : List PriceTicks :=
  orderBy side.rank ((l.filter fun o => o.side = side).map NewOrder.price).dedup

/-- The best levels of a side: the price, the open quantity and the number of orders. -/
def topLevels (l : List NewOrder) (depth : Nat) (side : Side) : List (Side × PriceTicks × Int × Int) :=
  ((restingPrices l side).take depth).map fun p =>
    (side, p, openTotal (levelAt l side p), ((levelAt l side p).length : Int))

/-- The orders in them: better prices first, older orders first at one price. -/
def topOrders (l : List NewOrder) (depth : Nat) (side : Side) : List NewOrder :=
  ((restingPrices l side).take depth).flatMap (levelAt l side)

def LevelSnapshot.view (level : LevelSnapshot) : Side × PriceTicks × Int × Int :=
  (level.side, level.price, val level.quantity, val level.order_count)

/-! ## Reading levels -/

namespace Represents
variable {b : OrderBook} {L : List Entry}

theorem walk_upto {q : List Entry} {p : Option Nat} (h : Dll OrderNode.mk b.orders.get? p q none) {fuel : Nat}
    (hf : q.length < fuel) {limit : Nat} (out : List OrderNode) (hout : out.length ≤ limit) :
    loop (b.walk_upto_body limit) fuel (firstOr none q, out) =
      .ok (out ++ (linkedNodes OrderNode.mk p q).take (limit - out.length)) := by
  induction q generalizing p fuel out with
  | nil =>
    obtain ⟨fuel, rfl⟩ := Nat.exists_eq_add_of_lt hf
    simp [loop, OrderBook.walk_upto_body, firstOr, linkedNodes]
  | cons e q ih =>
    cases fuel with
    | zero => cases hf
    | succ fuel =>
      rw [List.length_cons] at hf
      by_cases hfull : limit ≤ out.length
      · have hroom : limit - out.length = 0 := by omega
        simp only [loop, firstOr_cons, OrderBook.walk_upto_body, if_pos hfull, pure_eq, ok_bind]
        rw [hroom, List.take_zero, List.append_nil]
      · obtain ⟨room, hroom⟩ : ∃ room, limit - out.length = room + 1 := ⟨limit - out.length - 1, by omega⟩
        have hrest := ih h.2 (Nat.lt_of_succ_lt_succ hf) (out ++ [.mk e.2 p (firstOr none q)])
          (by rw [List.length_append, List.length_singleton]; omega)
        simp only [loop, firstOr_cons, OrderBook.walk_upto_body, if_neg hfull, h.1, idx_some, ok_bind, pure_eq]
        rw [hrest, linkedNodes, hroom, List.take_succ_cons, List.append_assoc, List.length_append, List.length_singleton,
          show limit - (out.length + 1) = room by omega]
        rfl

theorem level_orders_upto_eq (h : Represents b L) (s : Side) (p : PriceTicks) (limit : Nat) :
    b.level_orders_upto s p limit = .ok ((linkedNodes OrderNode.mk none (queue L s p)).take limit) := by
  rw [OrderBook.level_orders_upto, h.head_slot_eq, h.len]
  have hlen : (queue L s p).length ≤ L.length := List.length_filter_le ..
  exact walk_upto (h.linked s p) (by omega) [] (Nat.zero_le _)

end Represents

theorem top_levels_eq (b : OrderBook) (s : Side) (limit : Nat) : b.top_levels s limit = (b.levels s).take limit := by
  cases s <;> rfl

/-- What fits into a list that was cut already. -/
theorem take_append_room {α : Type} (all more : List α) (k : Nat) :
    all.take k ++ more.take (k - (all.take k).length) = (all ++ more).take k := by
  rw [List.take_append, List.length_take]
  congr 2
  omega

/-- Levels are listed from the best price on. -/
theorem levels_sorted (b : OrderBook) (s : Side) : (b.levels s).Pairwise fun x y => s.rank x.1 ≤ s.rank y.1 := by
  have hlt : ∀ m : BTreeMap PriceTicks PriceLevel, m.toList.Pairwise fun x y => val x.1 ≤ val y.1 := fun m =>
    (toList_sorted m).imp fun h => crosses_of_compare (.inr h)
  cases s
  · exact List.pairwise_reverse.2 ((hlt _).imp neg_le_neg)
  · exact hlt _

namespace Holds
variable {b : OrderBook} {l : List NewOrder}

theorem level_orders_upto_shown (h : Holds b l) (s : Side) (p : PriceTicks) (limit : Nat) :
    ∃ nodes, b.level_orders_upto s p limit = .ok nodes ∧ nodes.map OrderNode.toNewOrder = (levelAt l s p).take limit := by
  obtain ⟨L, hr, rfl⟩ := h
  refine ⟨_, hr.level_orders_upto_eq s p limit, ?_⟩
  rw [List.map_take, ← queue_snd]
  congr 1
  exact map_linkedNodes (f := OrderNode.toNewOrder) (g := id) (fun _ _ _ => rfl) none _

theorem level_count (h : Holds b l) {s : Side} {p : PriceTicks} {level : PriceLevel}
    (hl : (b.side_levels s)[p]? = some level) : val level.order_count = (levelAt l s p).length := by
  obtain ⟨L, hr, rfl⟩ := h
  have hlv := hr.levels s p
  rw [hl] at hlv
  rw [IsLevel.count hlv, ← queue_snd, List.length_map]

/-- A level adds what the order budget still has room for. -/
theorem capture_level_eq (h : Holds b l) (k : Nat) (s : Side) (level : PriceTicks × PriceLevel)
    (shown : List LevelSnapshot) (all : List NewOrder) :
    capture_level b k s (shown, (all.take k).map NewOrder.shown) level =
      .ok (shown ++ [⟨s, level.1, level.2.total_remaining, level.2.order_count⟩],
        ((all ++ levelAt l s level.1).take k).map NewOrder.shown) := by
  rw [capture_level, List.length_map, ← take_append_room, List.map_append]
  by_cases hroom : k - (all.take k).length = 0
  · rw [if_pos hroom, hroom, List.take_zero, List.map_nil, List.append_nil]
    rfl
  · obtain ⟨nodes, hnodes, hmap⟩ := h.level_orders_upto_shown s level.1 (k - (all.take k).length)
    rw [if_neg hroom, hnodes, ok_bind, ← hmap, List.map_map]
    rfl

theorem mem_restingPrices {s : Side} {p : PriceTicks} : p ∈ restingPrices l s ↔ levelAt l s p ≠ [] := by
  have hmem : p ∈ restingPrices l s ↔ ∃ o, o ∈ levelAt l s p := by
    simp only [restingPrices, mem_orderBy, List.mem_dedup, List.mem_map, mem_levelAt, List.mem_filter,
      decide_eq_true_eq, and_assoc]
  rw [hmem]
  exact ⟨fun ⟨_, ho⟩ => List.ne_nil_of_mem ho, List.exists_mem_of_ne_nil _⟩

/-- The levels of a book are where its orders rest, in order. -/
theorem levels_eq (h : Holds b l) (s : Side) : (b.levels s).map Prod.fst = restingPrices l s := by
  have hnodup : ((b.levels s).map Prod.fst).Nodup := List.pairwise_map.2 (levels_nodup b s)
  refine (orderBy_eq ?_ hnodup (List.pairwise_map.2 (levels_sorted b s)) fun p => ?_).symm
  · exact (List.nodup_dedup _).map fun _ _ => rank_inj
  · have hp : p ∈ ((l.filter fun o => o.side = s).map NewOrder.price).dedup ↔ p ∈ restingPrices l s := mem_orderBy.symm
    rw [hp, mem_restingPrices, ← h.level_isSome, Option.isSome_iff_exists]
    simp [mem_levels]

/-- The loop over levels shows them, and as many of their orders as there is room for. -/
theorem capture_levels (h : Holds b l) (k : Nat) (s : Side) (levels : List (PriceTicks × PriceLevel))
    (hlevels : ∀ level ∈ levels, (b.side_levels s)[level.1]? = some level.2) (shown : List LevelSnapshot) (all : List NewOrder) :
    ∃ more, levels.foldlM (capture_level b k s) (shown, (all.take k).map NewOrder.shown) =
        .ok (shown ++ more, ((all ++ levels.flatMap fun level => levelAt l s level.1).take k).map NewOrder.shown) ∧
      more.map LevelSnapshot.view = levels.map fun level =>
        (s, level.1, openTotal (levelAt l s level.1), ((levelAt l s level.1).length : Int)) := by
  induction levels generalizing shown all with
  | nil => exact ⟨[], by simp [pure_eq], rfl⟩
  | cons level levels ih =>
    have hl := hlevels level (List.mem_cons_self ..)
    obtain ⟨more, hmore, hview⟩ := ih (fun x hx => hlevels x (List.mem_cons_of_mem _ hx))
      (shown ++ [⟨s, level.1, level.2.total_remaining, level.2.order_count⟩]) (all ++ levelAt l s level.1)
    refine ⟨⟨s, level.1, level.2.total_remaining, level.2.order_count⟩ :: more, ?_, ?_⟩
    · rw [List.foldlM_cons, h.capture_level_eq, ok_bind, hmore, List.flatMap_cons, List.append_assoc, List.append_assoc]
      rfl
    · rw [List.map_cons, List.map_cons, hview, LevelSnapshot.view, h.level_total hl, h.level_count hl]

theorem capture_side_eq (h : Holds b l) (depth : Nat) (s : Side) (shown : List LevelSnapshot) (all : List NewOrder) :
    ∃ more, capture_side b depth s (shown, (all.take (max_orders depth)).map NewOrder.shown) =
        .ok (shown ++ more, ((all ++ topOrders l depth s).take (max_orders depth)).map NewOrder.shown) ∧
      more.map LevelSnapshot.view = topLevels l depth s := by
  obtain ⟨more, hmore, hview⟩ := h.capture_levels (max_orders depth) s ((b.levels s).take depth)
    (fun level hlevel => mem_levels.1 (List.mem_of_mem_take hlevel)) shown all
  refine ⟨more, ?_, ?_⟩
  · rw [capture_side, top_levels_eq, hmore, topOrders, ← h.levels_eq, ← List.map_take, List.flatMap_map]
  · rw [hview, topLevels, ← h.levels_eq, ← List.map_take, List.map_map]
    rfl

end Holds

/-- A snapshot of an instrument shows these resting orders: the best levels of both sides,
and of the orders in them as many as there is room for, the bids first. -/
structure Depicts (l : List NewOrder) (depth : Nat) (shown : InstrumentSnapshot) : Prop where
  levels : shown.levels.map LevelSnapshot.view = topLevels l depth .Buy ++ topLevels l depth .Sell
  orders : shown.orders =
    ((topOrders l depth .Buy ++ topOrders l depth .Sell).take (max_orders depth)).map NewOrder.shown

/-- The reservations of a snapshot can be made. -/
def depth_fits (depth : Nat) : Prop := max_orders depth * OrderSnapshot.SIZE < 2 ^ 63

instance (depth : Nat) : Decidable (depth_fits depth) := inferInstanceAs (Decidable (_ < _))

theorem capture_instrument_eq {x : InstrumentRuntime} {l : List NewOrder} (h : Holds x.book l) {depth : Nat}
    (hdepth : depth_fits depth) :
    ∃ shown, capture_instrument x depth = .ok shown ∧ shown.instrument = x.config.id ∧ Depicts l depth shown := by
  obtain ⟨bids, hbids, hbidsView⟩ := h.capture_side_eq depth .Buy [] []
  obtain ⟨asks, hasks, hasksView⟩ := h.capture_side_eq depth .Sell bids (topOrders l depth .Buy)
  rw [List.take_nil, List.map_nil, List.nil_append, List.nil_append] at hbids
  have hlevels : depth * 2 < 2 ^ 64 ∧ depth * 2 * LevelSnapshot.SIZE < 2 ^ 63 := by
    simp only [depth_fits, max_orders, ORDERS_PER_LEVEL, OrderSnapshot.SIZE] at hdepth
    simp only [LevelSnapshot.SIZE]
    omega
  have horders : max_orders depth * OrderSnapshot.SIZE < 2 ^ 63 := hdepth
  rw [capture_instrument, if_pos hlevels.1, expect_some, ok_bind, with_capacity, if_pos hlevels.2, expect_some, ok_bind,
    with_capacity, if_pos horders, expect_some, ok_bind, hbids, ok_bind, hasks, ok_bind]
  exact ⟨_, rfl, rfl, by rw [List.map_append, hbidsView, hasksView], rfl⟩

/-- Books that hold orders can be captured, whatever else is the matter with the engine. -/
theorem capture_ends {n m : Nat} {c : TradingCore n m} {l : Fin n → List NewOrder} (h : ∀ i, Holds (c.book i) (l i))
    {depth : Nat} (hdepth : depth_fits depth) (run_id : U128) :
    ∃ snapshot, c.capture run_id depth = .ok snapshot ∧ snapshot.as_of_engine_seq = c.engine_seq ∧
      List.Forall₂ (fun i shown => shown.instrument = c.instruments[i].config.id ∧ Depicts (l i) depth shown)
        (List.finRange _) snapshot.instruments := by
  have hall : ∀ is : List (Fin n), ∃ shown, is.mapM (fun i => capture_instrument c.instruments[i] depth) = .ok shown ∧
      List.Forall₂ (fun i x => x.instrument = c.instruments[i].config.id ∧ Depicts (l i) depth x) is shown := by
    intro is
    induction is with
    | nil => exact ⟨[], rfl, .nil⟩
    | cons i is ih =>
      obtain ⟨x, hx, hdepicts⟩ := capture_instrument_eq (h i) hdepth
      obtain ⟨shown, hshown, hall⟩ := ih
      refine ⟨x :: shown, ?_, .cons hdepicts hall⟩
      rw [List.mapM_cons]
      change capture_instrument c.instruments[i] depth = _ at hx
      rw [hx, hshown]
      rfl
  obtain ⟨shown, hshown, hall⟩ := hall (List.finRange _)
  rw [TradingCore.capture, hshown, ok_bind]
  exact ⟨_, rfl, rfl, hall⟩

/-- After any run that ended without a fault the read model can be taken with every depth whose reservations can be made,
and it shows every book as it is: per side the best levels with what they total, then the orders in these levels, by
price and age, as far as the budget reaches. -/
theorem capture_shows_books {allocator : SlabAllocator} {config : EngineConfig} {inputs : List EngineInput}
    {c : TradingCore config.instruments.length config.accounts.length} {outs : List (List OutputEvent)}
    (h : (TradingCore.new allocator config).run inputs = .ok (c, outs)) (hf : c.fault = none) (run_id : U128) {depth : Nat}
    (hdepth : depth_fits depth) :
    ∃ snapshot, c.capture run_id depth = .ok snapshot ∧ snapshot.as_of_engine_seq = c.engine_seq ∧
      List.Forall₂ (fun i shown => shown.instrument = c.instruments[i].config.id ∧
        ∃ l, Holds (c.book i) l ∧ (l.Pairwise fun x y => x.priority < y.priority) ∧ Depicts l depth shown)
        (List.finRange _) snapshot.instruments := by
  obtain ⟨d, hv⟩ := run_view h hf
  obtain ⟨snapshot, hok, hseq, hall⟩ := capture_ends hv.books hdepth run_id
  refine ⟨snapshot, hok, hseq, hall.imp ?_⟩
  rintro i x ⟨hid, hdepicts⟩
  exact ⟨hid, d.book i, hv.books i, hv.inv.sorted i, hdepicts⟩

theorem capture_shows_books_small : ∃ c outs snapshot, smallCore.run smallInputs = .ok (c, outs) ∧
    c.capture 7 1 = .ok snapshot ∧
    (snapshot.instruments.flatMap InstrumentSnapshot.levels).map LevelSnapshot.view =
      [(.Buy, 99, 4, 1), (.Sell, 100, 2, 1)] ∧
    List.Forall₂ (fun i shown => shown.instrument = c.instruments[i].config.id ∧
      ∃ l, Holds (c.book i) l ∧ (l.Pairwise fun x y => x.priority < y.priority) ∧ Depicts l 1 shown)
      (List.finRange _) snapshot.instruments := by
  have hends : Ends (smallCore.run smallInputs) fun r => r.1.fault = none ∧ Ends (r.1.capture 7 1) fun snapshot =>
      (snapshot.instruments.flatMap InstrumentSnapshot.levels).map LevelSnapshot.view =
        [(.Buy, 99, 4, 1), (.Sell, 100, 2, 1)] := by
    decide +kernel
  obtain ⟨⟨c, outs⟩, h, hf, snapshot', hok', hlevels⟩ := hends
  have hdepth : depth_fits 1 := by decide
  obtain ⟨snapshot, hok, -, hall⟩ := capture_shows_books h hf 7 hdepth
  cases hok.symm.trans hok'
  exact ⟨c, outs, _, h, hok, hlevels, hall⟩

end TradingLab
