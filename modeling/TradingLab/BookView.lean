import TradingLab.BookSpec
/-!
# Reading a book

The walk along a level returns its queue, so the snapshot lists every resting
order once, level by level. `check_invariants` accepts a book whose orders have
open quantity, increasing priorities and no crossing prices.
-/
open LabLib

namespace TradingLab

/-- All resting orders, in the order of the snapshot. -/
def OrderBook.resting (b : OrderBook) : Eval (List OrderNode) := do
  let rows ← b.snapshot
  pure (rows.flatMap fun row => row.2.2)

namespace Represents
variable {b : OrderBook} {L : List Entry}

/-! ## Walking a level -/

/-- Following the links from the first node of a list visits exactly its nodes. -/
theorem walk {q : List Entry} {p : Option Nat} (h : Dll OrderNode.mk b.orders.get? p q none) {fuel : Nat}
    (hf : q.length < fuel) (out : List OrderNode) :
    loop b.walk_body fuel (firstOr none q, out) = .ok (out ++ linkedNodes OrderNode.mk p q) := by
  induction q generalizing p fuel out with
  | nil =>
    obtain ⟨fuel, rfl⟩ := Nat.exists_eq_add_of_lt hf
    simp [loop, OrderBook.walk_body, firstOr, linkedNodes]
  | cons e q ih =>
    cases fuel with
    | zero => cases hf
    | succ fuel =>
      rw [List.length_cons] at hf
      have hrest := ih h.2 (Nat.lt_of_succ_lt_succ hf) (out ++ [.mk e.2 p (firstOr none q)])
      simp only [loop, firstOr_cons, OrderBook.walk_body, h.1, idx_some, ok_bind, pure_eq]
      rw [hrest, linkedNodes, List.append_assoc]
      rfl

theorem level_orders_eq (h : Represents b L) (s : Side) (p : PriceTicks) :
    b.level_orders s p = .ok (linkedNodes OrderNode.mk none (queue L s p)) := by
  rw [OrderBook.level_orders, h.head_slot_eq, h.len]
  have hlen : (queue L s p).length ≤ L.length := List.length_filter_le ..
  exact walk (h.linked s p) (by omega) []

/-! ## Snapshots -/

theorem side_snapshot_eq (h : Represents b L) (s : Side) : b.side_snapshot s = .ok ((b.levels s).map fun level =>
    (s, level.1, linkedNodes OrderNode.mk none (queue L s level.1))) :=
  mapM_eq_pure fun level _ => by rw [h.level_orders_eq]; rfl

theorem snapshot_eq (h : Represents b L) : b.snapshot = .ok (
    ((b.levels .Buy).map fun level => (Side.Buy, level.1, linkedNodes OrderNode.mk none (queue L .Buy level.1))) ++
    (b.levels .Sell).map fun level => (Side.Sell, level.1, linkedNodes OrderNode.mk none (queue L .Sell level.1))) := by
  rw [OrderBook.snapshot, h.side_snapshot_eq, h.side_snapshot_eq]
  rfl

end Represents

theorem mem_levels {b : OrderBook} {s : Side} {p : PriceTicks} {level : PriceLevel} :
    (p, level) ∈ b.levels s ↔ (b.side_levels s)[p]? = some level := by
  cases s
  · rw [OrderBook.levels, List.mem_reverse, mem_toList]; rfl
  · exact mem_toList

/-- Each price is listed once. -/
theorem levels_nodup (b : OrderBook) (s : Side) : (b.levels s).Pairwise fun x y => x.1 ≠ y.1 := by
  have hne : ∀ m : BTreeMap PriceTicks PriceLevel, m.toList.Pairwise fun x y => x.1 ≠ y.1 := fun m =>
    (toList_sorted m).imp fun h he => by rw [he, Std.compare_self] at h; cases h
  cases s
  · exact List.pairwise_reverse.2 ((hne _).imp Ne.symm)
  · exact hne _

namespace Holds
variable {b : OrderBook} {l : List NewOrder}

/-- The levels of a side, flattened, hold the orders of that side. -/
theorem mem_flat_levels (h : Holds b l) {s : Side} {o : NewOrder} :
    o ∈ (b.levels s).flatMap (fun level => levelAt l s level.1) ↔ o ∈ l ∧ o.side = s := by
  simp only [List.mem_flatMap, mem_levelAt]
  constructor
  · rintro ⟨level, -, ho, hs, -⟩; exact ⟨ho, hs⟩
  · rintro ⟨ho, rfl⟩
    obtain ⟨level, hl⟩ := h.level_of_mem ho
    exact ⟨(o.price, level), mem_levels.2 hl, ho, rfl, rfl⟩

theorem nodup (h : Holds b l) : l.Nodup := h.ids.of_map

theorem nodup_flat_levels (h : Holds b l) (s : Side) :
    ((b.levels s).flatMap fun level => levelAt l s level.1).Nodup := by
  refine List.nodup_flatMap.2 ⟨fun level _ => h.nodup.filter _, (levels_nodup b s).imp fun hne => ?_⟩
  intro o h1 h2
  exact hne ((mem_levelAt.1 h1).2.2.symm.trans (mem_levelAt.1 h2).2.2)

/-- The levels of both sides, flattened, are the resting orders. -/
theorem flat_levels_perm (h : Holds b l) : (((b.levels .Buy).flatMap fun level => levelAt l .Buy level.1) ++
    (b.levels .Sell).flatMap fun level => levelAt l .Sell level.1).Perm l := by
  refine (List.perm_ext_iff_of_nodup ?_ h.nodup).2 fun o => ?_
  · refine (h.nodup_flat_levels .Buy).append (h.nodup_flat_levels .Sell) fun o h1 h2 => ?_
    have hb := (h.mem_flat_levels.1 h1).2
    rw [(h.mem_flat_levels.1 h2).2] at hb
    cases hb
  · rw [List.mem_append, h.mem_flat_levels, h.mem_flat_levels]
    cases o.side <;> simp

/-- The snapshot lists every resting order exactly once. -/
theorem resting_perm (h : Holds b l) : ∃ nodes, b.resting = .ok nodes ∧ (nodes.map OrderNode.toNewOrder).Perm l := by
  obtain ⟨L, hr, rfl⟩ := h
  have h : Holds b (L.map Prod.snd) := ⟨L, hr, rfl⟩
  have hmap : ∀ s, ((b.levels s).map fun level =>
      (s, level.1, linkedNodes OrderNode.mk none (queue L s level.1))).flatMap
        (fun row => row.2.2.map OrderNode.toNewOrder) =
      (b.levels s).flatMap fun level => levelAt (L.map Prod.snd) s level.1 := by
    intro s
    rw [List.flatMap_map]
    congr 1
    funext level
    rw [← queue_snd]
    exact map_linkedNodes (f := OrderNode.toNewOrder) (g := id) (fun _ _ _ => rfl) none _
  refine ⟨_, by rw [OrderBook.resting, hr.snapshot_eq]; rfl, ?_⟩
  rw [List.map_flatMap, List.flatMap_append, hmap, hmap]
  exact h.flat_levels_perm

end Holds

/-! ## The self check -/

/-- A sum of words that fits is the sum of their values. -/
theorem foldl_add_val (xs : List UInt64) (a : UInt64)
    (h : val a + (xs.map val).sum ≤ 18446744073709551615) :
    val (xs.foldl (· + ·) a) = val a + (xs.map val).sum := by
  induction xs generalizing a with
  | nil => simp
  | cons x xs ih =>
    simp only [List.map_cons, List.sum_cons, List.foldl_cons] at h ⊢
    have hge : 0 ≤ (xs.map val).sum := sum_nonneg_of fun y _ => (u64_bounds y).1
    have hadd : val (a + x) = val a + val x := u64_add (by omega)
    rw [ih (a + x) (by omega), hadd]; omega

namespace Represents
variable {b : OrderBook} {L : List Entry}

/-- The checks of one queue pass when its orders have open quantity and increasing priorities. -/
theorem check_orders_ok (h : Represents b L) {s : Side} {p : PriceTicks} {nodes : List OrderNode}
    (hmem : ∀ node ∈ nodes, node.toNewOrder ∈ levelAt (L.map Prod.snd) s p)
    (hpos : ∀ node ∈ nodes, 0 < val node.toNewOrder.left)
    (hprio : nodes.Pairwise fun x y => x.priority < y.priority) (previous : Option PrioritySeq)
    (hprev : ∀ q ∈ previous, ∀ node ∈ nodes, q < node.priority) :
    b.check_orders s p previous nodes = pure () := by
  induction nodes generalizing previous with
  | nil => rfl
  | cons node nodes ih =>
    obtain ⟨hm, hs, hp⟩ := mem_levelAt.1 (hmem node List.mem_cons_self)
    obtain ⟨⟨k, o⟩, he, hko⟩ := List.mem_map.1 hm
    obtain ⟨hlt, hrest⟩ := List.pairwise_cons.1 hprio
    have hlook := h.lookup he
    obtain ⟨node', hn', hno'⟩ := h.node_of_mem he
    have hsound := h.sound _ he
    simp only at hko hlook hn' hno' hsound
    subst hko
    have hzero : QuantityLots.is_zero node.toNewOrder.left = false := by
      rw [← Bool.not_eq_true, is_zero_iff]
      have := hpos node List.mem_cons_self
      omega
    have hid : node'.order_id = node.order_id := congrArg NewOrder.order_id hno'
    have ih := ih (fun x hx => hmem x (List.mem_cons_of_mem _ hx)) (fun x hx => hpos x (List.mem_cons_of_mem _ hx)) hrest
      (some node.priority) (fun q hq x hx => by cases hq; exact hlt x hx)
    rw [OrderBook.check_orders]
    simp only [hs, hp, ne_eq, not_true, or_self, if_false, OrderNode.remaining_eq hsound, hzero, lift_ok, pure_bind,
      hlook, hn', idx_some, hid, if_true, ih, Bool.false_eq_true]
    cases previous with
    | none => rfl
    | some q =>
      have hlt := u64_lt.1 (hprev q rfl node List.mem_cons_self)
      have hle : ¬node.priority ≤ q := by rw [u64_le]; omega
      exact if_neg hle

theorem check_level_ok (h : Represents b L) {s : Side} {p : PriceTicks} {level : PriceLevel}
    (hl : (b.side_levels s)[p]? = some level) (hpos : ∀ o ∈ L.map Prod.snd, 0 < val o.left)
    (hprio : (levelAt (L.map Prod.snd) s p).Pairwise fun x y => x.priority < y.priority) :
    b.check_level s p level = pure (levelAt (L.map Prod.snd) s p).length := by
  have hlv : IsLevel (queue L s p) level := by have := h.levels s p; rwa [hl] at this
  have hnodes : (linkedNodes OrderNode.mk none (queue L s p)).map OrderNode.toNewOrder =
      levelAt (L.map Prod.snd) s p := by
    rw [← queue_snd]; exact map_linkedNodes (f := OrderNode.toNewOrder) (g := id) (fun _ _ _ => rfl) none _
  have hmem : ∀ node ∈ linkedNodes OrderNode.mk none (queue L s p),
      node.toNewOrder ∈ levelAt (L.map Prod.snd) s p := by
    intro node hn; rw [← hnodes]; exact List.mem_map_of_mem hn
  have hsound : ∀ node ∈ linkedNodes OrderNode.mk none (queue L s p), node.toNewOrder.Sound := by
    intro node hn
    obtain ⟨e, he, heq⟩ := List.mem_map.1 (mem_levelAt.1 (hmem node hn)).1
    rw [← heq]; exact h.sound e he
  have hlen : (linkedNodes OrderNode.mk none (queue L s p)).length = (levelAt (L.map Prod.snd) s p).length := by
    rw [← hnodes, List.length_map]
  have hcount : level.order_count.toNat = (levelAt (L.map Prod.snd) s p).length := by
    have := hlv.count
    rw [u32_val] at this
    rw [← queue_snd, List.length_map]; omega
  have hne : level.order_count ≠ 0 := by
    intro h0
    rw [h0, ← queue_snd, List.length_map] at hcount
    exact hlv.nonempty (List.length_eq_zero_iff.1 hcount.symm)
  have hsum : ((linkedNodes OrderNode.mk none (queue L s p)).map fun node => node.toNewOrder.left).foldl (· + ·) 0 =
      level.total_remaining := by
    have hv : (((linkedNodes OrderNode.mk none (queue L s p)).map fun node => node.toNewOrder.left).map val).sum =
        val level.total_remaining := by
      rw [hlv.total, openQuantity_eq, queue_snd, ← hnodes]
      simp only [openTotal, List.map_map]; rfl
    have hb := u64_bounds level.total_remaining
    exact val_inj.1 (by rw [foldl_add_val _ _ (by rw [hv, u64_val_zero]; omega), hv, u64_val_zero]; omega)
  have hrem : (linkedNodes OrderNode.mk none (queue L s p)).mapM
        (fun order => (liftM order.remaining : ExceptT String Eval QuantityLots)) =
      pure ((linkedNodes OrderNode.mk none (queue L s p)).map fun node => node.toNewOrder.left) :=
    mapM_eq_pure fun node hn => by rw [OrderNode.remaining_eq (hsound node hn), lift_ok]
  have horders := h.check_orders_ok hmem (fun node hn => hpos _ (mem_levelAt.1 (hmem node hn)).1)
    (by rw [← hnodes, List.pairwise_map] at hprio; exact hprio) none (by simp)
  rw [OrderBook.check_level]
  simp only [hne, if_false, h.level_orders_eq, lift_ok, pure_bind, hlen, hcount, ne_eq, not_true, hrem, hsum, horders]

theorem index_card (h : Represents b L) : b.index.keys.card = L.length := by
  have hkeys : b.index.keys = (L.map fun e => e.2.order_id).toFinset := by
    ext id
    rw [Finmap.mem_keys, List.mem_toFinset, List.mem_map]
    constructor
    · intro hm
      obtain ⟨k, hk⟩ := Finmap.mem_iff.1 hm
      obtain ⟨o, ho, rfl⟩ := (h.index _ _).1 hk
      exact ⟨_, ho, rfl⟩
    · rintro ⟨e, he, rfl⟩
      exact Finmap.mem_of_lookup_eq_some (h.lookup he)
  rw [hkeys, List.toFinset_card_of_nodup h.ids, List.length_map]

end Represents

namespace Holds
variable {b : OrderBook} {l : List NewOrder}

theorem check_level_ok (h : Holds b l) {s : Side} {p : PriceTicks} {level : PriceLevel}
    (hl : (b.side_levels s)[p]? = some level) (hpos : ∀ o ∈ l, 0 < val o.left)
    (hprio : l.Pairwise fun x y => x.priority < y.priority) :
    b.check_level s p level = pure (levelAt l s p).length := by
  obtain ⟨L, hr, rfl⟩ := h
  exact hr.check_level_ok hl hpos (hprio.filter _)

theorem check_levels_ok (h : Holds b l) (s : Side) (hpos : ∀ o ∈ l, 0 < val o.left)
    (hprio : l.Pairwise fun x y => x.priority < y.priority) (levels : List (PriceTicks × PriceLevel))
    (hl : ∀ x ∈ levels, (b.side_levels s)[x.1]? = some x.2) (seen : Nat) :
    b.check_levels s seen levels = pure (seen + (levels.flatMap fun level => levelAt l s level.1).length) := by
  induction levels generalizing seen with
  | nil => rfl
  | cons x levels ih =>
    have hx := h.check_level_ok (hl x List.mem_cons_self) hpos hprio
    rw [OrderBook.check_levels, hx, pure_bind, ih fun y hy => hl y (List.mem_cons_of_mem _ hy)]
    rw [List.flatMap_cons, List.length_append, Nat.add_assoc]

/-- The self check of the source accepts a book that holds sound working orders. -/
theorem check_invariants_ok (h : Holds b l) (hpos : ∀ o ∈ l, 0 < val o.left)
    (hprio : l.Pairwise fun x y => x.priority < y.priority)
    (hcross : ∀ x ∈ l, ∀ y ∈ l, x.side = .Buy → y.side = .Sell → x.price < y.price) :
    b.check_invariants = pure () := by
  have hcount : ((b.levels .Buy).flatMap fun level => levelAt l .Buy level.1).length +
      ((b.levels .Sell).flatMap fun level => levelAt l .Sell level.1).length = l.length := by
    rw [← List.length_append, h.flat_levels_perm.length_eq]
  have hlv : ∀ s, ∀ x ∈ b.levels s, (b.side_levels s)[x.1]? = some x.2 := fun s x hx => mem_levels.1 hx
  have hindex : b.index.keys.card = l.length := by
    obtain ⟨L, hr, rfl⟩ := h
    rw [hr.index_card, List.length_map]
  rw [OrderBook.check_invariants, h.check_levels_ok .Buy hpos hprio _ (hlv .Buy), pure_bind,
    h.check_levels_ok .Sell hpos hprio _ (hlv .Sell), pure_bind, Nat.zero_add, hcount, h.len, hindex]
  simp only [ne_eq, not_true, or_self, if_false]
  cases hb : b.best_bid with
  | none => rfl
  | some bid =>
    cases ha : b.best_ask with
    | none => rfl
    | some ask =>
      have hbid := (h.level_isSome .Buy bid.1).1 (by
        rw [OrderBook.side_levels, (last?_eq_some (k := bid.1) (v := bid.2) hb).1]; rfl)
      have hask := (h.level_isSome .Sell ask.1).1 (by
        rw [OrderBook.side_levels, (first?_eq_some (k := ask.1) (v := ask.2) ha).1]; rfl)
      obtain ⟨x, hx⟩ := List.exists_mem_of_ne_nil _ hbid
      obtain ⟨y, hy⟩ := List.exists_mem_of_ne_nil _ hask
      obtain ⟨hxl, hxs, hxp⟩ := mem_levelAt.1 hx
      obtain ⟨hyl, hys, hyp⟩ := mem_levelAt.1 hy
      have hlt := hcross x hxl y hyl hxs hys
      rw [hxp, hyp, i64_lt] at hlt
      have hge : ¬bid.1 ≥ ask.1 := by rw [ge_iff_le, i64_le]; omega
      exact if_neg hge

end Holds

end TradingLab
