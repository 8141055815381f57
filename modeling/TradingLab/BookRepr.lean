import TradingLab.Lib.Chain
import TradingLab.Lib.Keyed
import TradingLab.Book
/-!
# What a book holds

A book stands for the list of its resting orders, oldest first. `Represents b L` ties
the slab, the links, the levels with their aggregates and the index to that
list, each entry with its slot. Every operation of `book.rs` succeeds on a
represented book and is a change of the list: `insert` appends, `remove` takes
an order out, `reduce_total` and a partial `fill_maker` amend one in place.
-/
open LabLib

namespace TradingLab

/-! ## Orders -/

namespace NewOrder

/-- The quantity still open. -/
def left (o : NewOrder) : QuantityLots := o.total_quantity - o.cumulative_filled

/-- The cumulative fill has not passed the total. -/
def Sound (o : NewOrder) : Prop := val o.cumulative_filled ≤ val o.total_quantity

instance (o : NewOrder) : Decidable o.Sound := inferInstanceAs (Decidable (_ ≤ _))

theorem left_val {o : NewOrder} (h : o.Sound) : val o.left = val o.total_quantity - val o.cumulative_filled :=
  u64_sub h

theorem left_nonneg (o : NewOrder) : 0 ≤ val o.left := (u64_bounds _).1

end NewOrder

theorem OrderNode.remaining_eq {node : OrderNode} (h : node.toNewOrder.Sound) :
    node.remaining = .ok node.toNewOrder.left := by
  rw [OrderNode.remaining, checked_sub_eq_some.2 (NewOrder.left_val h), expect_some]

/-! ## The representation -/

/-- A resting order with its slot. -/
abbrev Entry := Nat × NewOrder

/-- The entries of one price level, oldest first. -/
def queue (L : List Entry) (s : Side) (p : PriceTicks) : List Entry :=
  L.filter fun e => e.2.side = s ∧ e.2.price = p

/-- The open quantity of a list of entries. -/
def openQuantity (q : List Entry) : Int := (q.map fun e => val e.2.left).sum

/-- A level describes its queue: both ends, the count and the aggregate. -/
structure IsLevel (q : List Entry) (level : PriceLevel) : Prop where
  nonempty : q ≠ []
  head : level.head = firstOr none q
  tail : level.tail = lastOr none q
  count : val level.order_count = q.length
  total : val level.total_remaining = openQuantity q

/-- A price has a level just when its queue is not empty. -/
def LevelFor (q : List Entry) : Option PriceLevel → Prop
  | none => q = []
  | some level => IsLevel q level

structure Represents (b : OrderBook) (L : List Entry) : Prop where
  slots : (L.map Prod.fst).Nodup
  ids : (L.map fun e => e.2.order_id).Nodup
  sound : ∀ e ∈ L, e.2.Sound
  linked : ∀ s p, Linked OrderNode.mk b.orders.get? (queue L s p)
  levels : ∀ s p, LevelFor (queue L s p) ((b.side_levels s)[p]?)
  len : b.orders.len = L.length
  index : ∀ id k, b.index.lookup id = some k ↔ ∃ o, (k, o) ∈ L ∧ o.order_id = id
  fits : L.length ≤ b.capacity

theorem mem_queue {L : List Entry} {s : Side} {p : PriceTicks} {e : Entry} :
    e ∈ queue L s p ↔ e ∈ L ∧ e.2.side = s ∧ e.2.price = p := by
  simp [queue]

theorem queue_append (L L' : List Entry) (s : Side) (p : PriceTicks) :
    queue (L ++ L') s p = queue L s p ++ queue L' s p := List.filter_append ..

theorem queue_cons_self (e : Entry) (L : List Entry) : queue (e :: L) e.2.side e.2.price = e :: queue L e.2.side e.2.price :=
  List.filter_cons_of_pos (by simp)

theorem queue_cons_of_ne {e : Entry} {L : List Entry} {s : Side} {p : PriceTicks} (h : ¬(e.2.side = s ∧ e.2.price = p)) :
    queue (e :: L) s p = queue L s p := List.filter_cons_of_neg (by simpa using h)

theorem queue_split (pre post : List Entry) (e : Entry) : queue (pre ++ e :: post) e.2.side e.2.price =
    queue pre e.2.side e.2.price ++ e :: queue post e.2.side e.2.price := by
  rw [queue_append, queue_cons_self]

theorem sublist_middle (pre post : List Entry) (e : Entry) : (pre ++ post).Sublist (pre ++ e :: post) :=
  (List.Sublist.refl pre).append (List.sublist_cons_self _ _)

theorem openQuantity_append (q q' : List Entry) : openQuantity (q ++ q') = openQuantity q + openQuantity q' := by
  simp [openQuantity]

theorem openQuantity_cons (e : Entry) (q : List Entry) : openQuantity (e :: q) = val e.2.left + openQuantity q := by
  simp [openQuantity]

theorem openQuantity_nonneg (q : List Entry) : 0 ≤ openQuantity q := sum_nonneg_of fun e _ => e.2.left_nonneg

namespace Represents
variable {b : OrderBook} {L : List Entry}
variable {e : Entry}

theorem queue_slots (h : Represents b L) (s : Side) (p : PriceTicks) : ((queue L s p).map Prod.fst).Nodup :=
  h.slots.sublist (List.filter_sublist.map _)

/-- The node of an entry, with its neighbours in the queue. -/
theorem node (h : Represents b L) {pre post : List Entry} (hL : L = pre ++ e :: post) :
    b.orders.get? e.1 = some (.mk e.2 (lastOr none (queue pre e.2.side e.2.price))
      (firstOr none (queue post e.2.side e.2.price))) := by
  have hq := h.linked e.2.side e.2.price
  rw [hL, queue_append, queue_cons_self] at hq
  exact hq.node

theorem node_of_mem (h : Represents b L) (he : e ∈ L) :
    ∃ node, b.orders.get? e.1 = some node ∧ node.toNewOrder = e.2 := by
  obtain ⟨pre, post, hL⟩ := List.append_of_mem he
  exact ⟨_, h.node hL, rfl⟩

theorem slot_notMem {pre post : List Entry} (h : Represents b (pre ++ e :: post)) :
    e.1 ∉ (pre ++ post).map Prod.fst := by
  have hsl := h.slots
  rw [List.map_append, List.map_cons] at hsl
  rw [List.map_append]
  exact (List.nodup_middle.1 hsl).notMem

theorem slot_ne_vacant (h : Represents b L) (he : e ∈ L) : e.1 ≠ b.orders.vacant := by
  obtain ⟨node, hn, -⟩ := h.node_of_mem he
  intro hv
  rw [hv, b.orders.get?_vacant] at hn
  cases hn

theorem lookup (h : Represents b L) (he : e ∈ L) : b.index.lookup e.2.order_id = some e.1 :=
  (h.index _ _).2 ⟨e.2, he, rfl⟩

theorem lookup_none (h : Represents b L) {id : OrderId} (hid : ∀ e ∈ L, e.2.order_id ≠ id) : b.index.lookup id = none := by
  cases hk : b.index.lookup id with
  | none => rfl
  | some k =>
    obtain ⟨o, ho, rfl⟩ := (h.index _ _).1 hk
    exact absurd rfl (hid _ ho)

/-- The level of an entry. -/
theorem level_of_mem (h : Represents b L) (he : e ∈ L) :
    ∃ level, (b.side_levels e.2.side)[e.2.price]? = some level ∧ IsLevel (queue L e.2.side e.2.price) level := by
  have hl := h.levels e.2.side e.2.price
  cases hlv : (b.side_levels e.2.side)[e.2.price]? with
  | none =>
    rw [hlv] at hl
    have hm : e ∈ queue L e.2.side e.2.price := mem_queue.2 ⟨he, rfl, rfl⟩
    rw [hl] at hm; cases hm
  | some level => rw [hlv] at hl; exact ⟨level, rfl, hl⟩

end Represents

/-! ## Writing the levels of a side -/

namespace OrderBook
variable (b : OrderBook) (levels : BTreeMap PriceTicks PriceLevel) (s : Side)

theorem side_levels_set (s' : Side) :
    (b.set_side_levels levels s).side_levels s' = if s' = s then levels else b.side_levels s' := by
  cases s <;> cases s' <;> rfl

@[simp] theorem set_side_levels_orders : (b.set_side_levels levels s).orders = b.orders := by cases s <;> rfl
@[simp] theorem set_side_levels_index : (b.set_side_levels levels s).index = b.index := by cases s <;> rfl
@[simp] theorem set_side_levels_capacity : (b.set_side_levels levels s).capacity = b.capacity := by cases s <;> rfl
@[simp] theorem side_levels_with (orders : Slab OrderNode) (index : HashMap OrderId Nat) :
    { b with orders := orders, index := index }.side_levels s = b.side_levels s := by cases s <;> rfl

theorem set_side_levels_insert (orders : Slab OrderNode) (index : HashMap OrderId Nat) (s' : Side)
    (p p' : PriceTicks) (level : PriceLevel) :
    (({ b with orders := orders, index := index }.set_side_levels ((b.side_levels s).insert p level) s).side_levels s')[p']? =
      if s' = s ∧ p' = p then some level else (b.side_levels s')[p']? := by
  rw [side_levels_set]
  by_cases hs : s' = s
  · subst hs
    rw [if_pos rfl, get?_insert]
    simp only [true_and, eq_comm]
  · rw [if_neg hs, if_neg (fun h => hs h.1), side_levels_with]

theorem set_side_levels_erase (orders : Slab OrderNode) (index : HashMap OrderId Nat) (s' : Side)
    (p p' : PriceTicks) :
    (({ b with orders := orders, index := index }.set_side_levels ((b.side_levels s).erase p) s).side_levels s')[p']? =
      if s' = s ∧ p' = p then none else (b.side_levels s')[p']? := by
  rw [side_levels_set]
  by_cases hs : s' = s
  · subst hs
    rw [if_pos rfl, get?_erase]
    simp only [true_and, eq_comm]
  · rw [if_neg hs, if_neg (fun h => hs h.1), side_levels_with]

end OrderBook

namespace Represents
variable {b : OrderBook} {L : List Entry}
variable {pre post : List Entry} {level : PriceLevel} {o : NewOrder} {k : Nat} {total : UInt64}

/-- A change at one price: the other queues, their nodes and their levels are as before. -/
theorem change (h : Represents b L) (s₀ : Side) (p₀ : PriceTicks) {b' : OrderBook} {L' : List Entry}
    (slots : (L'.map Prod.fst).Nodup) (ids : (L'.map fun e => e.2.order_id).Nodup) (sound : ∀ e ∈ L', e.2.Sound)
    (others : ∀ s p, ¬(s = s₀ ∧ p = p₀) → queue L' s p = queue L s p)
    (nodes : ∀ e ∈ L, ¬(e.2.side = s₀ ∧ e.2.price = p₀) → b'.orders.get? e.1 = b.orders.get? e.1)
    (levels : ∀ s p, ¬(s = s₀ ∧ p = p₀) → (b'.side_levels s)[p]? = (b.side_levels s)[p]?)
    (linked : Linked OrderNode.mk b'.orders.get? (queue L' s₀ p₀))
    (level : LevelFor (queue L' s₀ p₀) ((b'.side_levels s₀)[p₀]?))
    (len : b'.orders.len = L'.length)
    (index : ∀ id k, b'.index.lookup id = some k ↔ ∃ o, (k, o) ∈ L' ∧ o.order_id = id)
    (fits : L'.length ≤ b'.capacity) : Represents b' L' := by
  refine ⟨slots, ids, sound, fun s p => ?_, fun s p => ?_, len, index, fits⟩
  · by_cases hsp : s = s₀ ∧ p = p₀
    · obtain ⟨rfl, rfl⟩ := hsp; exact linked
    · rw [others s p hsp]
      refine (h.linked s p).congr fun j hj => ?_
      obtain ⟨e, he, rfl⟩ := List.mem_map.1 hj
      obtain ⟨hm, rfl, rfl⟩ := mem_queue.1 he
      exact nodes e hm hsp
  · by_cases hsp : s = s₀ ∧ p = p₀
    · obtain ⟨rfl, rfl⟩ := hsp; exact level
    · rw [others s p hsp, levels s p hsp]; exact h.levels s p

/-! ## Insert -/

/-- The level an insertion starts from: the one at the price, or an empty one. -/
theorem level_getD (h : Represents b L) (s : Side) (p : PriceTicks) :
    ((b.side_levels s)[p]?.getD {}).head = firstOr none (queue L s p) ∧
      ((b.side_levels s)[p]?.getD {}).tail = lastOr none (queue L s p) ∧
      val ((b.side_levels s)[p]?.getD {}).order_count = (queue L s p).length ∧
      val ((b.side_levels s)[p]?.getD {}).total_remaining = openQuantity (queue L s p) := by
  have hl := h.levels s p
  cases hlv : (b.side_levels s)[p]? with
  | none =>
    rw [hlv] at hl
    have hq : queue L s p = [] := hl
    rw [hq]
    exact ⟨rfl, rfl, rfl, rfl⟩
  | some level => rw [hlv] at hl; exact ⟨hl.head, hl.tail, hl.count, hl.total⟩

theorem level_overflows_iff (h : Represents b L) (s : Side) (p : PriceTicks) (r : UInt64) :
    b.level_overflows s p r = false ↔ queue L s p = [] ∨
      (openQuantity (queue L s p) + val r ≤ 18446744073709551615 ∧ (queue L s p).length + 1 ≤ 4294967295) := by
  have hl := h.levels s p
  rw [OrderBook.level_overflows]
  cases hlv : (b.side_levels s)[p]? with
  | none => rw [hlv] at hl; exact iff_of_true rfl (.inl hl)
  | some level =>
    rw [hlv] at hl
    have hl : IsLevel _ level := hl
    have h1 := u64_bounds level.total_remaining
    have h2 := u64_bounds r
    have h3 := u32_bounds level.order_count
    simp only [Bool.or_eq_false_iff, Option.isNone_eq_false_iff, checked_add_isSome, hl.nonempty, false_or,
      u32_val_one, ← hl.total]
    have hc := hl.count
    simp only [Machine.lo, Machine.hi]
    omega

/-- Linking a new node behind the tail of its level. -/
theorem link_tail (h : Represents b L) (o : NewOrder) :
    ∃ orders, (match lastOr none (queue L o.side o.price) with
      | some tail => do
        let orders ← idx ((b.orders.insert (.mk o none none)).2.modify tail
          fun node => { node with next := some b.orders.vacant })
        idx (orders.modify b.orders.vacant fun node => { node with prev := some tail })
      | none => (.ok (b.orders.insert (.mk o none none)).2 : Eval (Slab OrderNode))) = .ok orders ∧
      orders.len = b.orders.len + 1 ∧
      orders.get? b.orders.vacant = some (.mk o (lastOr none (queue L o.side o.price)) none) ∧
      ∀ j, j ≠ b.orders.vacant → orders.get? j =
        updAt b.orders.get? (lastOr none (queue L o.side o.price))
          (fun node => { node with next := some b.orders.vacant }) j := by
  have hi := b.orders.get?_insert (.mk o none none)
  have hlen := b.orders.len_insert (.mk o none none)
  cases ht : lastOr none (queue L o.side o.price) with
  | none =>
    refine ⟨_, rfl, hlen, by rw [hi, if_pos rfl], fun j hj => ?_⟩
    rw [hi, if_neg hj, updAt_of_ne (by simp)]
  | some t =>
    obtain ⟨e, he, rfl⟩ := List.mem_map.1 (lastOr_mem ht)
    have hv := h.slot_ne_vacant (mem_queue.1 he).1
    obtain ⟨tail, htail, -⟩ := h.node_of_mem (mem_queue.1 he).1
    obtain ⟨s1, h1, hlen1, hg1⟩ := Slab.modify_of_get? (s := (b.orders.insert (.mk o none none)).2) (k := e.1)
      (fun node => { node with next := some b.orders.vacant }) (by rw [hi, if_neg hv]; exact htail)
    obtain ⟨s2, h2, hlen2, hg2⟩ := Slab.modify_of_get? (s := s1) (k := b.orders.vacant)
      (fun node => { node with prev := some e.1 }) (by rw [hg1, if_neg (Ne.symm hv), hi, if_pos rfl])
    refine ⟨s2, by simp only [h1, h2, idx_some, ok_bind], by omega, by rw [hg2, if_pos rfl], fun j hj => ?_⟩
    rw [hg2, if_neg hj, hg1, hi, updAt]
    by_cases hje : j = e.1
    · rw [if_pos hje, if_pos (by rw [hje]), hje, htail]; rfl
    · rw [if_neg hje, if_neg hj, if_neg (by simpa using Ne.symm hje)]

theorem append (h : Represents b L) {orders : Slab OrderNode}
    (hid : ∀ e ∈ L, e.2.order_id ≠ o.order_id) (hs : o.Sound) (hfull : L.length < b.capacity)
    (hk : ∀ e ∈ L, e.1 ≠ k) (hlen : orders.len = b.orders.len + 1)
    (hnew : orders.get? k = some (.mk o (lastOr none (queue L o.side o.price)) none))
    (hold : ∀ j, j ≠ k → orders.get? j = updAt b.orders.get? (lastOr none (queue L o.side o.price))
      (fun node => { node with next := some k }) j)
    (hl : IsLevel (queue L o.side o.price ++ [(k, o)]) level) :
    Represents ({ b with orders := orders, index := b.index.insert o.order_id k }.set_side_levels
      ((b.side_levels o.side).insert o.price level) o.side) (L ++ [(k, o)]) := by
  have hself : queue (L ++ [(k, o)]) o.side o.price = queue L o.side o.price ++ [(k, o)] := by
    rw [queue_append]; exact congrArg _ (queue_cons_self (k, o) [])
  have hkslots : k ∉ L.map Prod.fst := by
    intro hm; obtain ⟨e, he, rfl⟩ := List.mem_map.1 hm; exact hk e he rfl
  refine h.change o.side o.price ?_ ?_ ?_ (fun s p hsp => ?_) (fun e he hsp => ?_) (fun s p hsp => ?_) ?_ ?_ ?_
    (fun id j => ?_) ?_
  · rw [List.map_append]
    exact h.slots.append (List.nodup_singleton _) (List.disjoint_singleton.2 hkslots)
  · rw [List.map_append]
    refine h.ids.append (List.nodup_singleton _) (List.disjoint_singleton.2 fun hm => ?_)
    obtain ⟨e, he, hee⟩ := List.mem_map.1 hm
    exact hid e he hee
  · intro e he
    rcases List.mem_append.1 he with he | he
    · exact h.sound e he
    · cases List.mem_singleton.1 he; exact hs
  · rw [queue_append, queue_cons_of_ne (fun hh => hsp ⟨hh.1.symm, hh.2.symm⟩)]
    exact List.append_nil _
  · rw [OrderBook.set_side_levels_orders, hold _ (hk e he)]
    apply updAt_of_ne
    intro ht
    obtain ⟨e', he', hee⟩ := List.mem_map.1 (lastOr_mem ht)
    obtain ⟨hm', hs', hp'⟩ := mem_queue.1 he'
    rw [List.inj_on_of_nodup_map h.slots hm' he hee] at hs' hp'
    exact hsp ⟨hs', hp'⟩
  · rw [OrderBook.set_side_levels_insert, if_neg hsp]
  · rw [OrderBook.set_side_levels_orders, hself]
    refine Linked.push (fun node n => { node with next := n }) (fun _ _ _ _ => rfl) (h.linked _ _)
      (h.queue_slots _ _) (fun hm => hkslots ?_) hnew hold
    exact (List.filter_sublist.map _).subset hm
  · rw [OrderBook.set_side_levels_insert, if_pos ⟨rfl, rfl⟩, hself]
    exact hl
  · rw [OrderBook.set_side_levels_orders, hlen, h.len, List.length_append]; rfl
  · rw [OrderBook.set_side_levels_index]
    by_cases hi : id = o.order_id
    · subst hi
      rw [Finmap.lookup_insert]
      constructor
      · intro hj; cases hj; exact ⟨o, by simp, rfl⟩
      · rintro ⟨o', ho', he⟩
        rcases List.mem_append.1 ho' with hm | hm
        · exact absurd he (hid _ hm)
        · cases List.mem_singleton.1 hm; rfl
    · rw [Finmap.lookup_insert_of_ne _ hi, h.index]
      constructor
      · rintro ⟨o', ho', he⟩; exact ⟨o', List.mem_append_left _ ho', he⟩
      · rintro ⟨o', ho', he⟩
        rcases List.mem_append.1 ho' with hm | hm
        · exact ⟨o', hm, he⟩
        · cases List.mem_singleton.1 hm; exact absurd he.symm hi
  · rw [OrderBook.set_side_levels_capacity, List.length_append]
    exact hfull

/-- A fresh order is appended, unless the book is full or its level would overflow. -/
theorem insert_ok (h : Represents b L) (hid : ∀ e ∈ L, e.2.order_id ≠ o.order_id) (hs : o.Sound)
    (hfull : L.length < b.capacity) (hov : b.level_overflows o.side o.price o.left = false) :
    ∃ b', b.insert o = .ok (.ok b') ∧ Represents b' (L ++ [(b.orders.vacant, o)]) ∧ b'.capacity = b.capacity := by
  obtain ⟨orders, horders, hlen, hnew, hold⟩ := h.link_tail o
  obtain ⟨hhead, htail, hcount, htotal⟩ := h.level_getD o.side o.price
  have hov' := (h.level_overflows_iff _ _ _).1 hov
  have hsub := checked_sub_eq_some.2 (NewOrder.left_val hs)
  have hnf : b.is_full = false := by rw [OrderBook.is_full, h.len]; simpa using hfull
  have hlv : ∀ level : PriceLevel, level.head = firstOr none (queue L o.side o.price ++ [(b.orders.vacant, o)]) →
      level.tail = some b.orders.vacant →
      level.order_count = ((b.side_levels o.side)[o.price]?.getD {}).order_count + 1 →
      level.total_remaining = ((b.side_levels o.side)[o.price]?.getD {}).total_remaining + o.left →
      IsLevel (queue L o.side o.price ++ [(b.orders.vacant, o)]) level := by
    intro level h1 h2 h3 h4
    have hb := u64_bounds o.left
    refine ⟨by simp, h1, by rw [h2, lastOr_append]; rfl, ?_, ?_⟩
    · rw [h3, u32_add, hcount]
      · simp
      · rw [hcount, u32_val_one]
        rcases hov' with hq | hq
        · simp [hq]
        · omega
    · rw [h4, u64_add, htotal, openQuantity_append]
      · simp [openQuantity]
      · rw [htotal]
        rcases hov' with hq | hq
        · simp only [hq, openQuantity, List.map_nil, List.sum_nil]; omega
        · exact hq.1
  have hins : b.insert o = .ok (.ok ({ b with
      orders := orders, index := b.index.insert o.order_id b.orders.vacant }.set_side_levels
      ((b.side_levels o.side).insert o.price {
        head := firstOr none (queue L o.side o.price ++ [(b.orders.vacant, o)])
        tail := some b.orders.vacant
        order_count := ((b.side_levels o.side)[o.price]?.getD {}).order_count + 1
        total_remaining := ((b.side_levels o.side)[o.price]?.getD {}).total_remaining + o.left }) o.side)) := by
    rw [OrderBook.insert, hnf, hsub]
    simp only [hov, Bool.false_eq_true, if_false, htail]
    cases hq : queue L o.side o.price with
    | nil =>
      rw [hq] at horders
      cases horders
      rfl
    | cons e q =>
      obtain ⟨t, ht⟩ : ∃ t, lastOr none (e :: q) = some t := by rw [lastOr_eq, List.getLast?_cons]; exact ⟨_, rfl⟩
      simp only [hq, ht, bind_eq_ok] at horders ⊢
      obtain ⟨s1, hs1, hs2⟩ := horders
      refine ⟨s1, hs1, orders, hs2, _, rfl, ?_⟩
      simp only [hhead, hq]
      rfl
  exact ⟨_, hins, h.append hid hs hfull (fun e he => h.slot_ne_vacant he) hlen hnew hold
    (hlv _ rfl rfl rfl rfl), by simp⟩

/-! ## Changing an order in place -/

/-- New data for one order that keeps its place, with the aggregate of its level adjusted. -/
theorem amend_entry {o o' : NewOrder} (h : Represents b (pre ++ (k, o) :: post))
    (hid : o'.order_id = o.order_id) (hside : o'.side = o.side) (hprice : o'.price = o.price) (hs : o'.Sound)
    {orders : Slab OrderNode} (hlen : orders.len = b.orders.len)
    (hget : ∀ j, orders.get? j = if j = k then some (.mk o' (lastOr none (queue pre o.side o.price))
      (firstOr none (queue post o.side o.price))) else b.orders.get? j)
    (hl : (b.side_levels o.side)[o.price]? = some level)
    (ht : val total = val level.total_remaining - val o.left + val o'.left) :
    Represents ({ b with orders := orders }.set_side_levels
      ((b.side_levels o.side).insert o.price { level with total_remaining := total }) o.side)
      (pre ++ (k, o') :: post) := by
  have hq : queue (pre ++ (k, o) :: post) o.side o.price =
      queue pre o.side o.price ++ (k, o) :: queue post o.side o.price := queue_split pre post (k, o)
  have hq' : queue (pre ++ (k, o') :: post) o.side o.price =
      queue pre o.side o.price ++ (k, o') :: queue post o.side o.price := by
    rw [← hside, ← hprice]; exact queue_split pre post (k, o')
  refine h.change o.side o.price (by simpa using h.slots) (by simpa [hid] using h.ids) ?_ (fun s p hsp => ?_)
    (fun e he hsp => ?_) (fun s p hsp => ?_) ?_ ?_ ?_ (fun id j => ?_) ?_
  · intro e he
    rcases List.mem_append.1 he with he | he
    · exact h.sound e (List.mem_append_left _ he)
    · rcases List.mem_cons.1 he with rfl | he
      · exact hs
      · exact h.sound e (List.mem_append_right _ (List.mem_cons_of_mem _ he))
  · have hne : ¬(o.side = s ∧ o.price = p) := fun hh => hsp ⟨hh.1.symm, hh.2.symm⟩
    have hne' : ¬(o'.side = s ∧ o'.price = p) := by rwa [hside, hprice]
    rw [queue_append, queue_append, queue_cons_of_ne hne', queue_cons_of_ne hne]
  · rw [OrderBook.set_side_levels_orders, hget, if_neg]
    rintro rfl
    have := List.inj_on_of_nodup_map h.slots he (List.mem_append_right pre List.mem_cons_self) rfl
    rw [this] at hsp
    exact hsp ⟨rfl, rfl⟩
  · rw [OrderBook.set_side_levels_insert, if_neg hsp]
  · rw [OrderBook.set_side_levels_orders, hq']
    have hlk := h.linked o.side o.price
    have hsl := h.queue_slots o.side o.price
    rw [hq] at hlk hsl
    exact hlk.set hsl (by rw [hget, if_pos rfl]) fun j hj => by rw [hget, if_neg hj]
  · rw [OrderBook.set_side_levels_insert, if_pos ⟨rfl, rfl⟩, hq']
    have hlv := h.levels o.side o.price
    rw [hl, hq] at hlv
    obtain ⟨-, h1, h2, h3, h4⟩ := hlv
    refine ⟨by simp, ?_, ?_, ?_, ?_⟩
    · rw [h1, firstOr_append, firstOr_append]; rfl
    · rw [h2, lastOr_append, lastOr_append]; rfl
    · rw [h3]; simp
    · rw [openQuantity_append, openQuantity_cons] at h4 ⊢
      rw [ht, h4]; ring
  · rw [OrderBook.set_side_levels_orders, hlen, h.len]
    simp
  · rw [OrderBook.set_side_levels_index, h.index]
    simp only [List.mem_append, List.mem_cons, Prod.mk.injEq]
    constructor
    · rintro ⟨x, hx | ⟨rfl, rfl⟩ | hx, he⟩
      · exact ⟨x, .inl hx, he⟩
      · exact ⟨o', .inr (.inl ⟨rfl, rfl⟩), hid.trans he⟩
      · exact ⟨x, .inr (.inr hx), he⟩
    · rintro ⟨x, hx | ⟨rfl, rfl⟩ | hx, he⟩
      · exact ⟨x, .inl hx, he⟩
      · exact ⟨o, .inr (.inl ⟨rfl, rfl⟩), hid.symm.trans he⟩
      · exact ⟨x, .inr (.inr hx), he⟩
  · rw [OrderBook.set_side_levels_capacity]
    simpa using h.fits

/-! ## Taking an order out -/

/-- Redirecting a link of a neighbour, when there is one. -/
theorem redirect (orders : Slab OrderNode) (slot : Option Nat) (f : OrderNode → OrderNode)
    (h : ∀ k, slot = some k → ∃ node, orders.get? k = some node) :
    ∃ orders', (match slot with
      | some k => idx (orders.modify k f)
      | none => (.ok orders : Eval (Slab OrderNode))) = .ok orders' ∧ orders'.len = orders.len ∧
      ∀ j, orders'.get? j = updAt orders.get? slot f j := by
  cases slot with
  | none => exact ⟨orders, rfl, rfl, fun j => (updAt_of_ne (by simp)).symm⟩
  | some k =>
    obtain ⟨node, hk⟩ := h k rfl
    obtain ⟨s', h1, h2, h3⟩ := Slab.modify_of_get? f hk
    refine ⟨s', by simp only [h1, idx_some], h2, fun j => ?_⟩
    rw [h3, updAt]
    by_cases hj : j = k
    · rw [if_pos hj, if_pos (by rw [hj]), hj, hk]; rfl
    · rw [if_neg hj, if_neg (by simpa using Ne.symm hj)]

/-- The level after unlinking: the ends move when the node was one of them. -/
theorem unlink_level {e : Entry} {count : UInt32} (h : IsLevel (pre ++ e :: post) level) (hne : pre ++ post ≠ [])
    (hc : val count = val level.order_count - 1) (ht : val total = val level.total_remaining - val e.2.left) :
    IsLevel (pre ++ post) {
      head := if lastOr none pre = none then firstOr none post else level.head
      tail := if firstOr none post = none then lastOr none pre else level.tail
      order_count := count
      total_remaining := total } := by
  obtain ⟨-, h1, h2, h3, h4⟩ := h
  refine ⟨hne, ?_, ?_, ?_, ?_⟩
  · cases pre with
    | nil => rfl
    | cons a pre =>
      have : lastOr none (a :: pre) ≠ none := by rw [lastOr_eq, List.getLast?_cons]; simp
      rw [if_neg this, h1]; rfl
  · cases post with
    | nil => rw [List.append_nil]; rfl
    | cons a post =>
      have : firstOr none (a :: post) ≠ none := Option.some_ne_none _
      rw [if_neg this, h2, lastOr_append, lastOr_append]; rfl
  · rw [hc, h3]; simp only [List.length_append, List.length_cons]; omega
  · rw [openQuantity_append, openQuantity_cons] at h4
    rw [ht, h4, openQuantity_append]; ring

/-- What `unlink` computes, from what each of its steps does. -/
theorem unlink_eq (node : OrderNode) {orders2 orders3 : Slab OrderNode}
    (hl : (b.side_levels node.side)[node.price]? = some level) (hs : node.toNewOrder.Sound)
    (hprev : (match node.prev with
      | some k => idx (b.orders.modify k fun n => { n with next := node.next })
      | none => (.ok b.orders : Eval (Slab OrderNode))) = .ok orders2)
    (hnext : (match node.next with
      | some k => idx (orders2.modify k fun n => { n with prev := node.prev })
      | none => (.ok orders2 : Eval (Slab OrderNode))) = .ok orders3)
    (ht : checked_sub level.total_remaining node.left = some total) :
    b.unlink node = .ok (
      if saturating_sub32 level.order_count 1 = (0 : UInt32) then
        { b with orders := orders3 }.set_side_levels ((b.side_levels node.side).erase node.price) node.side
      else
        { b with orders := orders3 }.set_side_levels ((b.side_levels node.side).insert node.price {
          head := if node.prev = none then node.next else level.head
          tail := if node.next = none then node.prev else level.tail
          order_count := saturating_sub32 level.order_count 1
          total_remaining := total }) node.side) := by
  rw [OrderBook.unlink]
  simp only [hl, OrderNode.remaining_eq hs]
  cases hp : node.prev with
  | none =>
    rw [hp] at hprev hnext
    cases hprev
    cases hn : node.next with
    | none =>
      rw [hn] at hnext
      cases hnext
      simp only [pure_eq, ok_bind, ht, expect_some, if_true]
      split <;> rfl
    | some k =>
      simp only [hn] at hnext
      simp only [pure_eq, ok_bind, hnext, ht, expect_some, if_true, reduceCtorEq, if_false]
      split <;> rfl
  | some j =>
    simp only [hp] at hprev hnext
    cases hn : node.next with
    | none =>
      simp only [hn] at hprev hnext
      cases hnext
      simp only [pure_eq, ok_bind, hprev, ht, expect_some, if_true, reduceCtorEq, if_false]
      split <;> rfl
    | some k =>
      simp only [hn] at hprev hnext
      simp only [pure_eq, ok_bind, hprev, hnext, ht, expect_some, reduceCtorEq, if_false]
      split <;> rfl

/-- Both neighbours of a removed node are still in the slab and get joined. -/
theorem unlink_slab (h : Represents b (pre ++ (k, o) :: post)) {orders1 : Slab OrderNode}
    (hget : ∀ j, orders1.get? j = if j = k then none else b.orders.get? j) :
    ∃ orders2 orders3, (match lastOr none (queue pre o.side o.price) with
        | some k => idx (orders1.modify k fun n => { n with next := firstOr none (queue post o.side o.price) })
        | none => (.ok orders1 : Eval (Slab OrderNode))) = .ok orders2 ∧
      (match firstOr none (queue post o.side o.price) with
        | some k => idx (orders2.modify k fun n => { n with prev := lastOr none (queue pre o.side o.price) })
        | none => (.ok orders2 : Eval (Slab OrderNode))) = .ok orders3 ∧
      orders3.len = orders1.len ∧
      ∀ j, j ≠ k → orders3.get? j = updAt (updAt b.orders.get? (lastOr none (queue pre o.side o.price))
        (fun n => { n with next := firstOr none (queue post o.side o.price) })) (firstOr none (queue post o.side o.price))
        (fun n => { n with prev := lastOr none (queue pre o.side o.price) }) j := by
  have hstill : ∀ e ∈ pre ++ post, ∃ node, orders1.get? e.1 = some node := by
    intro e he
    obtain ⟨node, hn, -⟩ := h.node_of_mem ((sublist_middle pre post (k, o)).subset he)
    refine ⟨node, ?_⟩
    rw [hget, if_neg, hn]
    intro hk
    exact h.slot_notMem (List.mem_map.2 ⟨e, he, hk⟩)
  obtain ⟨orders2, hred2, hlen2, hget2⟩ := redirect orders1 (lastOr none (queue pre o.side o.price))
    (fun n => { n with next := firstOr none (queue post o.side o.price) }) (by
      intro j hj
      obtain ⟨e, he, rfl⟩ := List.mem_map.1 (lastOr_mem hj)
      exact hstill e (List.mem_append_left _ (mem_queue.1 he).1))
  obtain ⟨orders3, hred3, hlen3, hget3⟩ := redirect orders2 (firstOr none (queue post o.side o.price))
    (fun n => { n with prev := lastOr none (queue pre o.side o.price) }) (by
      intro j hj
      obtain ⟨e, he, rfl⟩ := List.mem_map.1 (firstOr_mem hj)
      obtain ⟨node, hn⟩ := hstill e (List.mem_append_right _ (mem_queue.1 he).1)
      rw [hget2, updAt, hn]
      split
      · exact ⟨_, rfl⟩
      · exact ⟨_, rfl⟩)
  refine ⟨orders2, orders3, hred2, hred3, by omega, fun j hj => ?_⟩
  rw [hget3]
  simp only [updAt, hget2, hget, if_neg hj]

/-- The book without one entry: its queue is joined up and its level described again. -/
theorem removed (h : Represents b (pre ++ (k, o) :: post)) {b' : OrderBook}
    (hlen : b'.orders.len + 1 = b.orders.len) (hi : b'.index = b.index.erase o.order_id)
    (hcap : b'.capacity = b.capacity)
    (hget : ∀ j, j ≠ k → b'.orders.get? j = updAt (updAt b.orders.get? (lastOr none (queue pre o.side o.price))
      (fun n => { n with next := firstOr none (queue post o.side o.price) })) (firstOr none (queue post o.side o.price))
      (fun n => { n with prev := lastOr none (queue pre o.side o.price) }) j)
    (hlevels : ∀ s p, ¬(s = o.side ∧ p = o.price) → (b'.side_levels s)[p]? = (b.side_levels s)[p]?)
    (hlevel : LevelFor (queue pre o.side o.price ++ queue post o.side o.price) ((b'.side_levels o.side)[o.price]?)) :
    Represents b' (pre ++ post) := by
  have hsl := sublist_middle pre post (k, o)
  refine h.change o.side o.price (h.slots.sublist (hsl.map _)) (h.ids.sublist (hsl.map _))
    (fun e he => h.sound e (hsl.subset he)) (fun s p hsp => ?_) (fun e he hsp => ?_) hlevels ?_
    (by rw [queue_append]; exact hlevel) ?_ (fun id j => ?_) ?_
  · rw [queue_append, queue_append, queue_cons_of_ne (fun hh => hsp ⟨hh.1.symm, hh.2.symm⟩)]
  · have hother : ∀ e' ∈ pre ++ (k, o) :: post, e'.2.side = o.side → e'.2.price = o.price → e'.1 ≠ e.1 := by
      intro e' he' h1 h2 heq
      rw [List.inj_on_of_nodup_map h.slots he' he heq] at h1 h2
      exact hsp ⟨h1, h2⟩
    rw [hget _ (Ne.symm (hother _ (List.mem_append_right _ List.mem_cons_self) rfl rfl)), updAt_of_ne, updAt_of_ne]
    · intro hl
      obtain ⟨e', he', hee⟩ := List.mem_map.1 (lastOr_mem hl)
      obtain ⟨hm, h1, h2⟩ := mem_queue.1 he'
      exact hother e' (List.mem_append_left _ hm) h1 h2 hee
    · intro hl
      obtain ⟨e', he', hee⟩ := List.mem_map.1 (firstOr_mem hl)
      obtain ⟨hm, h1, h2⟩ := mem_queue.1 he'
      exact hother e' (List.mem_append_right _ (List.mem_cons_of_mem _ hm)) h1 h2 hee
  · have hlk := h.linked o.side o.price
    have hn := h.queue_slots o.side o.price
    rw [queue_split pre post (k, o)] at hlk hn
    rw [queue_append]
    exact Linked.unlink (fun n p => { n with prev := p }) (fun n q => { n with next := q })
      (fun _ _ _ _ => rfl) (fun _ _ _ _ => rfl) hlk hn hget
  · have := h.len
    simp only [List.length_append, List.length_cons] at this ⊢
    omega
  · rw [hi]
    have hids := h.ids
    rw [List.map_append, List.map_cons] at hids
    have hnot := (List.nodup_middle.1 hids).notMem
    rw [← List.map_append] at hnot
    by_cases hid : id = o.order_id
    · subst hid
      rw [Finmap.lookup_erase]
      constructor
      · intro hh; cases hh
      · rintro ⟨x, hx, he⟩
        exact absurd (List.mem_map.2 ⟨_, hx, he⟩) hnot
    · rw [Finmap.lookup_erase_ne hid, h.index]
      constructor
      · rintro ⟨x, hx, he⟩
        refine ⟨x, ?_, he⟩
        rcases List.mem_append.1 hx with hx | hx
        · exact List.mem_append_left _ hx
        · rcases List.mem_cons.1 hx with hx | hx
          · cases hx; exact absurd he.symm hid
          · exact List.mem_append_right _ hx
      · rintro ⟨x, hx, he⟩; exact ⟨x, hsl.subset hx, he⟩
  · have := h.fits
    rw [hcap]
    simp only [List.length_append, List.length_cons] at this ⊢
    omega

/-- Removing the node of an entry from the slab and unlinking it takes the entry out. -/
theorem unlink_ok (h : Represents b (pre ++ (k, o) :: post)) :
    ∃ node orders b', b.orders.remove k = some (node, orders) ∧ node.toNewOrder = o ∧
      { b with index := b.index.erase o.order_id, orders := orders }.unlink node = .ok b' ∧
      Represents b' (pre ++ post) ∧ b'.capacity = b.capacity := by
  have hmem : (k, o) ∈ pre ++ (k, o) :: post := List.mem_append_right _ List.mem_cons_self
  obtain ⟨level, hlv, hlevel⟩ := h.level_of_mem hmem
  rw [queue_split pre post (k, o)] at hlevel
  obtain ⟨orders1, hrem, hlen1, hget1⟩ := Slab.remove_of_get? (h.node rfl)
  obtain ⟨orders2, orders3, hred2, hred3, hlen3, hget3⟩ := h.unlink_slab hget1
  have hleft := o.left_nonneg
  have htot : val level.total_remaining =
      openQuantity (queue pre o.side o.price) + (val o.left + openQuantity (queue post o.side o.price)) := by
    rw [hlevel.total, openQuantity_append, openQuantity_cons]
  have hge := openQuantity_nonneg (queue pre o.side o.price)
  have hge' := openQuantity_nonneg (queue post o.side o.price)
  obtain ⟨total, htotal, htv⟩ := exists_checked_sub rfl (a := level.total_remaining) (b := o.left) (by omega)
  have hcnt : val level.order_count = (queue pre o.side o.price).length + ((queue post o.side o.price).length + 1) := by
    rw [hlevel.count]; simp only [List.length_append, List.length_cons]; omega
  have hcv : val (saturating_sub32 level.order_count 1) = val level.order_count - 1 :=
    saturating_sub32_val (by rw [hcnt, u32_val_one]; omega)
  have hunlink := unlink_eq (b := { b with index := b.index.erase o.order_id, orders := orders1 })
    (.mk o (lastOr none (queue pre o.side o.price)) (firstOr none (queue post o.side o.price)))
    (by rw [OrderBook.side_levels_with]; exact hlv) (h.sound _ hmem) hred2 hred3 htotal
  refine ⟨_, orders1, _, hrem, rfl, hunlink, ?_, by split <;> simp⟩
  simp only [OrderBook.side_levels_with]
  split
  · rename_i hzero
    have hz : val (saturating_sub32 level.order_count 1) = 0 := by rw [hzero]; rfl
    refine h.removed (by simp; omega) (by simp) (by simp) (by simpa using hget3) (fun s p hsp => ?_) ?_
    · rw [OrderBook.set_side_levels_erase, if_neg hsp]
    · rw [OrderBook.set_side_levels_erase, if_pos ⟨rfl, rfl⟩]
      exact List.length_eq_zero_iff.1 (by rw [List.length_append]; omega)
  · rename_i hzero
    have hne : queue pre o.side o.price ++ queue post o.side o.price ≠ [] := by
      intro he
      have hl := congrArg List.length he
      simp only [List.length_append, List.length_nil] at hl
      exact hzero (val_inj.1 (by rw [hcv, u32_val_zero]; omega))
    refine h.removed (by simp; omega) (by simp) (by simp) (by simpa using hget3) (fun s p hsp => ?_) ?_
    · rw [OrderBook.set_side_levels_insert, if_neg hsp]
    · rw [OrderBook.set_side_levels_insert, if_pos ⟨rfl, rfl⟩]
      exact unlink_level hlevel hne hcv htv

end Represents

end TradingLab
