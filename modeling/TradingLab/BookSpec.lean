import TradingLab.BookRepr
/-!
# The operations of a book

`Holds b l` forgets the slots: `b` holds the orders `l`, oldest first. Each
operation gets one lemma in those terms, and later modules use nothing else
about books. An order is found by its id, so `without` and `amend` on the id
say what leaves and what changes.
-/
open LabLib

namespace TradingLab

/-- The book holds these orders, oldest first. -/
def Holds (b : OrderBook) (l : List NewOrder) : Prop := ∃ L, Represents b L ∧ L.map Prod.snd = l

/-- The orders of one price level, oldest first. -/
def levelAt (l : List NewOrder) (s : Side) (p : PriceTicks) : List NewOrder :=
  l.filter fun o => o.side = s ∧ o.price = p

/-- The open quantity of a list of orders. -/
def openTotal (l : List NewOrder) : Int := (l.map fun o => val o.left).sum

/-- The order after a fill. -/
def NewOrder.fill (o : NewOrder) (t : QuantityLots) : NewOrder :=
  { o with cumulative_filled := o.cumulative_filled + t }

/-- The orders after a fill of `o`: a filled order leaves. -/
def afterFill (l : List NewOrder) (o : NewOrder) (t : QuantityLots) : List NewOrder :=
  if o.left = t then without NewOrder.order_id o.order_id l
  else amend NewOrder.order_id o.order_id (fun o => o.fill t) l

theorem mem_levelAt {l : List NewOrder} {s : Side} {p : PriceTicks} {o : NewOrder} :
    o ∈ levelAt l s p ↔ o ∈ l ∧ o.side = s ∧ o.price = p := by
  simp [levelAt]

theorem queue_snd (L : List Entry) (s : Side) (p : PriceTicks) :
    (queue L s p).map Prod.snd = levelAt (L.map Prod.snd) s p := by
  rw [levelAt, List.filter_map]; rfl

theorem openQuantity_eq (L : List Entry) : openQuantity L = openTotal (L.map Prod.snd) := by
  simp only [openQuantity, openTotal, List.map_map]; rfl

theorem openTotal_nonneg (l : List NewOrder) : 0 ≤ openTotal l := sum_nonneg_of fun o _ => o.left_nonneg

namespace NewOrder
variable {t : QuantityLots} {o : NewOrder}

theorem fill_sound (h : o.Sound) (ht : val t ≤ val o.left) : (o.fill t).Sound := by
  have h1 := left_val h
  have h2 := u64_bounds o.total_quantity
  have h3 : val (o.cumulative_filled + t) = val o.cumulative_filled + val t := u64_add (by omega)
  simp only [Sound, fill, h3]; omega

theorem fill_left (h : o.Sound) (ht : val t ≤ val o.left) :
    val (o.fill t).left = val o.left - val t := by
  have h1 := left_val h
  have h2 := u64_bounds o.total_quantity
  have h3 : val (o.cumulative_filled + t) = val o.cumulative_filled + val t := u64_add (by omega)
  rw [left_val (fill_sound h ht), h1]
  simp only [fill, h3]; omega

theorem fill_cumulative (h : o.Sound) (ht : val t ≤ val o.left) :
    val (o.fill t).cumulative_filled = val o.cumulative_filled + val t := by
  have h1 := left_val h
  have h2 := u64_bounds o.total_quantity
  exact u64_add (by omega)

end NewOrder

namespace Holds
variable {b : OrderBook} {l : List NewOrder}
variable {o : NewOrder} {id : OrderId} {node : OrderNode}

theorem ids (h : Holds b l) : (l.map NewOrder.order_id).Nodup := by
  obtain ⟨L, hr, rfl⟩ := h
  rw [List.map_map]
  exact hr.ids

theorem sound (h : Holds b l) (ho : o ∈ l) : o.Sound := by
  obtain ⟨L, hr, rfl⟩ := h
  obtain ⟨e, he, rfl⟩ := List.mem_map.1 ho
  exact hr.sound e he

theorem fits (h : Holds b l) : l.length ≤ b.capacity := by
  obtain ⟨L, hr, rfl⟩ := h
  rw [List.length_map]; exact hr.fits

theorem len (h : Holds b l) : b.orders.len = l.length := by
  obtain ⟨L, hr, rfl⟩ := h
  rw [List.length_map]; exact hr.len

theorem is_full (h : Holds b l) : b.is_full = decide (b.capacity ≤ l.length) := by
  rw [OrderBook.is_full, h.len]

theorem empty (al : SlabAllocator) (capacity : Nat) : Holds (.with_capacity al capacity) [] := by
  refine ⟨[], ⟨by simp, by simp, by simp, fun s p => trivial, fun s p => ?_, Slab.len_empty al, fun id k => ?_,
    Nat.zero_le _⟩, rfl⟩
  · cases s <;> exact (by simp [OrderBook.side_levels, OrderBook.with_capacity, LevelFor, queue])
  · simp [OrderBook.with_capacity]

/-! ## Reading -/

/-- The entry of an order, at its place in the list. -/
theorem split (h : Holds b l) (ho : o ∈ l) :
    ∃ pre k post, Represents b (pre ++ (k, o) :: post) ∧ l = pre.map Prod.snd ++ o :: post.map Prod.snd := by
  obtain ⟨L, hr, rfl⟩ := h
  obtain ⟨⟨k, o⟩, he, rfl⟩ := List.mem_map.1 ho
  obtain ⟨pre, post, rfl⟩ := List.append_of_mem he
  exact ⟨pre, k, post, hr, by simp⟩

theorem lookup_none (h : Holds b l) (hid : id ∉ l.map NewOrder.order_id) :
    b.index.lookup id = none := by
  obtain ⟨L, hr, rfl⟩ := h
  rw [List.map_map] at hid
  exact hr.lookup_none fun e he hee => hid (List.mem_map.2 ⟨e, he, hee⟩)

theorem get_ok (h : Holds b l) (ho : o ∈ l) :
    ∃ node, b.get o.order_id = .ok (some node) ∧ node.toNewOrder = o := by
  obtain ⟨pre, k, post, hr, -⟩ := h.split ho
  have hm : (k, o) ∈ pre ++ (k, o) :: post := List.mem_append_right _ List.mem_cons_self
  obtain ⟨node, hn, hno⟩ := hr.node_of_mem hm
  refine ⟨node, ?_, hno⟩
  simp [OrderBook.get, hr.lookup hm, hn]

theorem get_none (h : Holds b l) (hid : id ∉ l.map NewOrder.order_id) : b.get id = .ok none := by
  simp [OrderBook.get, h.lookup_none hid]

/-- `get` finds exactly the orders the book holds. -/
theorem get_iff (h : Holds b l) (hg : b.get id = .ok (some node)) :
    node.toNewOrder ∈ l ∧ node.order_id = id := by
  by_cases hid : id ∈ l.map NewOrder.order_id
  · obtain ⟨o, ho, rfl⟩ := List.mem_map.1 hid
    obtain ⟨node', hn, rfl⟩ := h.get_ok ho
    rw [hn] at hg
    cases hg
    exact ⟨ho, rfl⟩
  · rw [h.get_none hid] at hg
    cases hg

theorem get_total (h : Holds b l) (id : OrderId) : ∃ found, b.get id = .ok found := by
  by_cases hid : id ∈ l.map NewOrder.order_id
  · obtain ⟨o, ho, rfl⟩ := List.mem_map.1 hid
    obtain ⟨node, hn, -⟩ := h.get_ok ho
    exact ⟨_, hn⟩
  · exact ⟨_, h.get_none hid⟩

/-! ## Writing -/

theorem level_overflows_iff (h : Holds b l) (s : Side) (p : PriceTicks) (r : UInt64) :
    b.level_overflows s p r = false ↔ levelAt l s p = [] ∨
      (openTotal (levelAt l s p) + val r ≤ 18446744073709551615 ∧ (levelAt l s p).length + 1 ≤ 4294967295) := by
  obtain ⟨L, hr, rfl⟩ := h
  rw [hr.level_overflows_iff, openQuantity_eq, queue_snd, ← queue_snd, List.length_map, List.map_eq_nil_iff]

/-- An insertion appends, or leaves the book alone when it is full, the order is
unsound or the level would overflow. -/
theorem insert_ok (h : Holds b l) (hid : o.order_id ∉ l.map NewOrder.order_id) (hs : o.Sound)
    (hfull : l.length < b.capacity) (hov : b.level_overflows o.side o.price o.left = false) :
    ∃ b', b.insert o = .ok (.ok b') ∧ Holds b' (l ++ [o]) ∧ b'.capacity = b.capacity := by
  obtain ⟨L, hr, rfl⟩ := h
  rw [List.map_map] at hid
  rw [List.length_map] at hfull
  obtain ⟨b', h1, h2, h3⟩ := hr.insert_ok (fun e he hee => hid (List.mem_map.2 ⟨e, he, hee⟩)) hs hfull hov
  exact ⟨b', h1, ⟨_, h2, by simp⟩, h3⟩

theorem insert_error (hs : o.Sound) (hov : b.level_overflows o.side o.price o.left = true) :
    b.insert o = .ok (.error .mk) := by
  rw [OrderBook.insert, checked_sub_eq_some.2 (NewOrder.left_val hs)]
  simp [hov]

/-- An accepted order was appended. -/
theorem insert_accepted (h : Holds b l) (hid : o.order_id ∉ l.map NewOrder.order_id) {b' : OrderBook}
    (hi : b.insert o = .ok (.ok b')) : Holds b' (l ++ [o]) ∧ b'.capacity = b.capacity := by
  have hfull : l.length < b.capacity := by
    by_contra hge
    rw [OrderBook.insert, h.is_full, decide_eq_true (Nat.le_of_not_lt hge)] at hi
    cases hi
  have hs : o.Sound := by
    by_contra hlt
    have hnone : checked_sub o.total_quantity o.cumulative_filled = none := by
      rw [← Option.not_isSome_iff_eq_none, checked_sub, Machine.ofInt?_isSome]
      simp only [NewOrder.Sound, Machine.lo] at hlt ⊢; omega
    rw [OrderBook.insert, hnone] at hi
    split at hi <;> cases hi
  cases hov : b.level_overflows o.side o.price o.left with
  | true => rw [insert_error hs hov] at hi; cases hi
  | false =>
    obtain ⟨b'', h1, h2, h3⟩ := h.insert_ok hid hs hfull hov
    rw [hi] at h1
    cases h1
    exact ⟨h2, h3⟩

theorem remove_ok (h : Holds b l) (ho : o ∈ l) :
    ∃ node b', b.remove o.order_id = .ok (some node, b') ∧ node.toNewOrder = o ∧
      Holds b' (without NewOrder.order_id o.order_id l) ∧ b'.capacity = b.capacity := by
  have hn := h.ids
  obtain ⟨pre, k, post, hr, rfl⟩ := h.split ho
  obtain ⟨node, orders, b', h1, h2, h3, h4, h5⟩ := hr.unlink_ok
  have hl := hr.lookup (e := (k, o)) (List.mem_append_right _ List.mem_cons_self)
  refine ⟨node, b', ?_, h2, ⟨_, h4, ?_⟩, h5⟩
  · simp [OrderBook.remove, hl, h1, h3]
  · rw [without_split hn]; simp

theorem remove_none (h : Holds b l) (hid : id ∉ l.map NewOrder.order_id) :
    b.remove id = .ok (none, b) := by
  simp [OrderBook.remove, h.lookup_none hid]

/-- What a removal found was there, and is gone. -/
theorem of_remove (h : Holds b l) {b' : OrderBook} (hr : b.remove id = .ok (some node, b')) :
    node.toNewOrder ∈ l ∧ node.order_id = id ∧ Holds b' (without NewOrder.order_id id l) := by
  by_cases hid : id ∈ l.map NewOrder.order_id
  · obtain ⟨o, ho, rfl⟩ := List.mem_map.1 hid
    obtain ⟨node', b'', hr', rfl, hb, -⟩ := h.remove_ok ho
    rw [hr'] at hr
    cases hr
    exact ⟨ho, rfl, hb⟩
  · rw [h.remove_none hid] at hr
    cases hr

/-- The write both in-place operations make: new data in the node of an order. -/
theorem write_node {pre post : List Entry} {k : Nat} (h : Represents b (pre ++ (k, o) :: post)) (o' : NewOrder) :
    ∃ node orders level, b.orders.get? k = some node ∧ node.toNewOrder = o ∧
      b.orders.modify k (fun _ => { node with toNewOrder := o' }) = some orders ∧
      (b.side_levels o.side)[o.price]? = some level ∧
      val level.total_remaining = openTotal (levelAt ((pre ++ (k, o) :: post).map Prod.snd) o.side o.price) ∧
      ∀ total : UInt64, o'.order_id = o.order_id → o'.side = o.side → o'.price = o.price → o'.Sound →
        val total = val level.total_remaining - val o.left + val o'.left →
        Represents ({ b with orders := orders }.set_side_levels
          ((b.side_levels o.side).insert o.price { level with total_remaining := total }) o.side)
          (pre ++ (k, o') :: post) := by
  have hnode := h.node rfl
  obtain ⟨level, hlv, hlevel⟩ := h.level_of_mem (e := (k, o)) (List.mem_append_right _ List.mem_cons_self)
  obtain ⟨orders, horders, hlen, hget⟩ := Slab.modify_of_get? (fun _ => OrderNode.mk o'
    (lastOr none (queue pre o.side o.price)) (firstOr none (queue post o.side o.price))) hnode
  refine ⟨_, orders, level, hnode, rfl, horders, hlv, ?_, fun total h1 h2 h3 h4 h5 =>
    h.amend_entry h1 h2 h3 h4 hlen hget hlv h5⟩
  rw [hlevel.total, openQuantity_eq, queue_snd]

/-- A new total at or above the cumulative fill, with which the aggregate of
the level still fits. -/
theorem reduce_total_ok (h : Holds b l) (ho : o ∈ l) {total : QuantityLots}
    (hs : val o.cumulative_filled ≤ val total)
    (hfit : openTotal (levelAt l o.side o.price) - val o.left + (val total - val o.cumulative_filled) ≤
      18446744073709551615) :
    ∃ b', b.reduce_total o.order_id total = .ok b' ∧
      Holds b' (amend NewOrder.order_id o.order_id (fun o => { o with total_quantity := total }) l) ∧
      b'.capacity = b.capacity := by
  have hn := h.ids
  have hso := h.sound ho
  have hge : val o.left ≤ openTotal (levelAt l o.side o.price) :=
    le_sum_of_mem (fun o _ => o.left_nonneg) (mem_levelAt.2 ⟨ho, rfl, rfl⟩)
  obtain ⟨pre, k, post, hr, rfl⟩ := h.split ho
  have hs' : NewOrder.Sound { o with total_quantity := total } := hs
  have hleft := NewOrder.left_val hs'
  have hlook := hr.lookup (e := (k, o)) (List.mem_append_right _ List.mem_cons_self)
  obtain ⟨node, orders, level, hnode, hno, horders, hlv, htot, hrep⟩ := write_node hr { o with total_quantity := total }
  simp only [List.map_append, List.map_cons] at htot
  have hb := u64_bounds level.total_remaining
  have hb' := o.left_nonneg
  obtain ⟨t1, ht1, hv1⟩ := exists_checked_sub rfl (a := level.total_remaining) (b := o.left) (by omega)
  obtain ⟨t2, ht2, hv2⟩ := exists_checked_add rfl (a := t1) (b := NewOrder.left { o with total_quantity := total })
    (by simp only [Machine.hi, hleft]; omega)
  have hr' := hrep t2 rfl rfl rfl hs' (by rw [hv2, hv1])
  refine ⟨_, ?_, ⟨_, hr', ?_⟩, by simp⟩
  · subst hno
    have hrem : OrderNode.remaining { node with total_quantity := total } =
        .ok (NewOrder.left { node.toNewOrder with total_quantity := total }) := OrderNode.remaining_eq hs'
    simp only [OrderBook.reduce_total, hlook, hnode, idx_some, ok_bind, OrderNode.remaining_eq hso, horders, hrem,
      OrderBook.side_levels_with, hlv, ht1, Option.bind_some, ht2, expect_some, pure_eq]
  · rw [amend_split hn]; simp

/-- What `fill_maker` computes up to the removal of a filled order. -/
theorem fill_maker_eq {k : Nat} {t : QuantityLots} {orders : Slab OrderNode} {level : PriceLevel}
    {total : UInt64} (hnode : b.orders.get? k = some node) (hso : node.toNewOrder.Sound)
    (ht : val t ≤ val node.toNewOrder.left)
    (horders : b.orders.modify k (fun _ => .mk (node.toNewOrder.fill t) node.prev node.next) = some orders)
    (hlv : (b.side_levels node.side)[node.price]? = some level)
    (htotal : checked_sub level.total_remaining t = some total) {b1 : OrderBook}
    (hb1 : b1 = { b with orders := orders }.set_side_levels
      ((b.side_levels node.side).insert node.price { level with total_remaining := total }) node.side) :
    b.fill_maker k t = if QuantityLots.is_zero (node.toNewOrder.fill t).left then do
        let (removed, orders) ← idx (b1.orders.remove k)
        let self ← { b1 with index := b1.index.erase node.order_id, orders := orders }.unlink removed
        pure (.mk (node.toNewOrder.fill t) node.prev node.next, self)
      else pure (.mk (node.toNewOrder.fill t) node.prev node.next, b1) := by
  have hcum := checked_add_eq_some.2 (NewOrder.fill_cumulative hso ht)
  have hnode' : { node with cumulative_filled := (node.toNewOrder.fill t).cumulative_filled } =
      OrderNode.mk (node.toNewOrder.fill t) node.prev node.next := rfl
  have hrem : (OrderNode.mk (node.toNewOrder.fill t) node.prev node.next).remaining =
      .ok (node.toNewOrder.fill t).left := OrderNode.remaining_eq (NewOrder.fill_sound hso ht)
  simp only [OrderBook.fill_maker, hnode, idx_some, ok_bind, hcum, expect_some, hnode', horders, hrem,
    OrderBook.side_levels_with, hlv, htotal, pure_eq, ← hb1]

/-- A fill of at most the open quantity: a filled order leaves the book. -/
theorem fill_maker_ok {pre post : List Entry} {k : Nat} (h : Represents b (pre ++ (k, o) :: post)) {t : QuantityLots}
    (ht : val t ≤ val o.left) :
    ∃ node b', b.fill_maker k t = .ok (node, b') ∧ node.toNewOrder = o.fill t ∧
      Holds b' (afterFill ((pre ++ (k, o) :: post).map Prod.snd) o t) ∧ b'.capacity = b.capacity := by
  have hm : (k, o) ∈ pre ++ (k, o) :: post := List.mem_append_right _ List.mem_cons_self
  have hn : (((pre ++ (k, o) :: post).map Prod.snd).map NewOrder.order_id).Nodup := ids ⟨_, h, rfl⟩
  have hso : o.Sound := h.sound _ hm
  have hge : val o.left ≤ openTotal (levelAt ((pre ++ (k, o) :: post).map Prod.snd) o.side o.price) :=
    le_sum_of_mem (fun o _ => o.left_nonneg) (mem_levelAt.2 ⟨List.mem_map_of_mem hm, rfl, rfl⟩)
  have hleft := NewOrder.fill_left hso ht
  obtain ⟨node, orders, level, hnode, rfl, horders, hlv, htot, hrep⟩ := write_node h (o.fill t)
  have hb := u64_bounds level.total_remaining
  have hb' := u64_bounds t
  obtain ⟨total, htotal, hv⟩ := exists_checked_sub rfl (a := level.total_remaining) (b := t) (by omega)
  have hr' := hrep total rfl rfl rfl (NewOrder.fill_sound hso ht) (by rw [hv, hleft]; ring)
  have hzero : QuantityLots.is_zero (node.toNewOrder.fill t).left = true ↔ node.toNewOrder.left = t := by
    rw [is_zero_iff, hleft, ← val_inj (a := node.toNewOrder.left)]; omega
  rw [fill_maker_eq hnode hso ht horders hlv htotal rfl, afterFill]
  rw [List.map_append, List.map_cons] at hn ⊢
  by_cases hz : node.toNewOrder.left = t
  · rw [if_pos (hzero.2 hz), if_pos hz, without_split hn]
    obtain ⟨removed, orders', b', h1, h2, h3, h4, h5⟩ := hr'.unlink_ok
    refine ⟨.mk (node.toNewOrder.fill t) node.prev node.next, b', ?_, rfl, ⟨_, h4, by simp⟩, by rw [h5]; simp⟩
    simp only [h1, idx_some, ok_bind]
    exact congrArg (· >>= fun self => pure (_, self)) h3
  · rw [if_neg (fun hh => hz (hzero.1 hh)), if_neg hz, amend_split hn]
    exact ⟨_, _, rfl, rfl, ⟨_, hr', by simp⟩, by simp⟩

end Holds

/-! ## Levels and prices -/

/-- A maker price is at least as good for the taker as `limit`. -/
def Crosses (maker_side : Side) (price limit : PriceTicks) : Prop :=
  match maker_side with
  | .Buy => val limit ≤ val price
  | .Sell => val price ≤ val limit

instance (s : Side) (p q : PriceTicks) : Decidable (Crosses s p q) := by unfold Crosses; cases s <;> infer_instance

theorem Crosses.trans {s : Side} {p q r : PriceTicks} (h1 : Crosses s p q) (h2 : Crosses s q r) : Crosses s p r := by
  cases s <;> simp only [Crosses] at * <;> omega

theorem Crosses.antisymm {s : Side} {p q : PriceTicks} (h1 : Crosses s p q) (h2 : Crosses s q p) : p = q := by
  cases s <;> exact val_inj.1 (by simp only [Crosses] at *; omega)

theorem crosses_of_compare {p q : PriceTicks} (h : p = q ∨ compare p q = .lt) : val p ≤ val q := by
  rcases h with rfl | h
  · exact le_refl _
  · exact Int.le_of_lt (i64_lt.1 (Std.compare_eq_lt.1 h))

namespace Represents
variable {b : OrderBook} {L : List Entry}

theorem head_slot_eq (h : Represents b L) (s : Side) (p : PriceTicks) : b.head_slot s p = firstOr none (queue L s p) := by
  have hl := h.levels s p
  rw [OrderBook.head_slot]
  cases hlv : (b.side_levels s)[p]? with
  | none =>
    rw [hlv] at hl
    rw [show queue L s p = [] from hl]
    rfl
  | some level => rw [hlv] at hl; exact hl.head

end Represents

namespace Holds
variable {b : OrderBook} {l : List NewOrder}
variable {o : NewOrder}

/-- A price has a level just when an order rests there. -/
theorem level_isSome (h : Holds b l) (s : Side) (p : PriceTicks) :
    ((b.side_levels s)[p]?).isSome ↔ levelAt l s p ≠ [] := by
  obtain ⟨L, hr, rfl⟩ := h
  have hl := hr.levels s p
  rw [← queue_snd, ne_eq, List.map_eq_nil_iff]
  cases hlv : (b.side_levels s)[p]? with
  | none => rw [hlv] at hl; simp [show queue L s p = [] from hl]
  | some level => rw [hlv] at hl; simp [IsLevel.nonempty hl]

theorem level_total (h : Holds b l) {s : Side} {p : PriceTicks} {level : PriceLevel}
    (hl : (b.side_levels s)[p]? = some level) : val level.total_remaining = openTotal (levelAt l s p) := by
  obtain ⟨L, hr, rfl⟩ := h
  have hlv := hr.levels s p
  rw [hl] at hlv
  rw [IsLevel.total hlv, openQuantity_eq, queue_snd]

theorem level_of_mem (h : Holds b l) (ho : o ∈ l) :
    ∃ level, (b.side_levels o.side)[o.price]? = some level := by
  refine Option.isSome_iff_exists.1 ((h.level_isSome _ _).2 ?_)
  exact List.ne_nil_of_mem (mem_levelAt.2 ⟨ho, rfl, rfl⟩)

/-- The aggregate of a level is a word. -/
theorem openTotal_le (h : Holds b l) (ho : o ∈ l) :
    openTotal (levelAt l o.side o.price) ≤ 18446744073709551615 := by
  obtain ⟨level, hl⟩ := h.level_of_mem ho
  rw [← h.level_total hl]
  exact (u64_bounds _).2

/-- The best eligible price is the price of some order, and no order of the side beats it. -/
theorem next_eligible_some (h : Holds b l) {s : Side} {limit p : PriceTicks}
    (hp : b.next_eligible_price s (some limit) = some p) :
    levelAt l s p ≠ [] ∧ Crosses s p limit ∧ ∀ o ∈ l, o.side = s → Crosses s p o.price := by
  cases s with
  | Buy =>
    simp only [OrderBook.next_eligible_price, Option.bind_eq_bind, Option.bind_eq_some_iff] at hp
    obtain ⟨⟨p', level⟩, hlast, hp⟩ := hp
    split at hp
    · cases hp
    · rename_i hlt
      cases hp
      obtain ⟨hget, hbest⟩ := last?_eq_some hlast
      refine ⟨(h.level_isSome .Buy _).1 (by rw [OrderBook.side_levels, hget]; rfl), ?_, fun o ho hs => ?_⟩
      · rw [i64_lt] at hlt; exact Int.not_lt.1 hlt
      · obtain ⟨level', hl'⟩ := h.level_of_mem ho
        rw [hs] at hl'
        exact crosses_of_compare ((hbest _ _ hl').imp_left Eq.symm)
  | Sell =>
    simp only [OrderBook.next_eligible_price, Option.bind_eq_bind, Option.bind_eq_some_iff] at hp
    obtain ⟨⟨p', level⟩, hfirst, hp⟩ := hp
    split at hp
    · cases hp
    · rename_i hlt
      cases hp
      obtain ⟨hget, hbest⟩ := first?_eq_some hfirst
      refine ⟨(h.level_isSome .Sell _).1 (by rw [OrderBook.side_levels, hget]; rfl), ?_, fun o ho hs => ?_⟩
      · rw [gt_iff_lt, i64_lt] at hlt; exact Int.not_lt.1 hlt
      · obtain ⟨level', hl'⟩ := h.level_of_mem ho
        rw [hs] at hl'
        exact crosses_of_compare (hbest _ _ hl')

theorem next_eligible_none (h : Holds b l) {s : Side} {limit : PriceTicks}
    (hp : b.next_eligible_price s (some limit) = none) (ho : o ∈ l) (hs : o.side = s) :
    ¬Crosses s o.price limit := by
  obtain ⟨level', hl'⟩ := h.level_of_mem ho
  rw [hs] at hl'
  cases s with
  | Buy =>
    cases hlast : b.bids.last? with
    | none => rw [last?_eq_none] at hlast; rw [OrderBook.side_levels, hlast] at hl'; cases hl'
    | some e =>
      obtain ⟨p', level⟩ := e
      have hle : val o.price ≤ val p' := crosses_of_compare (((last?_eq_some hlast).2 _ _ hl').imp_left Eq.symm)
      simp only [OrderBook.next_eligible_price, hlast, Option.bind_eq_bind, Option.bind_some] at hp
      split at hp
      · rename_i hlt; rw [i64_lt] at hlt; simp only [Crosses]; omega
      · cases hp
  | Sell =>
    cases hfirst : b.asks.first? with
    | none => rw [first?_eq_none] at hfirst; rw [OrderBook.side_levels, hfirst] at hl'; cases hl'
    | some e =>
      obtain ⟨p', level⟩ := e
      have hle : val p' ≤ val o.price := crosses_of_compare ((first?_eq_some hfirst).2 _ _ hl')
      simp only [OrderBook.next_eligible_price, hfirst, Option.bind_eq_bind, Option.bind_some] at hp
      split at hp
      · rename_i hlt; rw [gt_iff_lt, i64_lt] at hlt; simp only [Crosses]; omega
      · cases hp

end Holds

end TradingLab
