import TradingLab.BookView
import TradingLab.MatchSpec
import TradingLab.Reference
/-!
# The indexed book refines the reference book

Both books are run in lock step on the commands of the model test. They stand
for the same list of orders throughout, so they show the same rows, remove the
same orders and produce the same fills.
-/
open LabLib

namespace TradingLab

/-- What the reference keeps of an order. -/
def NewOrder.toReference (o : NewOrder) : ReferenceOrder where
  order_id := o.order_id
  priority := o.priority
  total_quantity := o.total_quantity
  cumulative_filled := o.cumulative_filled

theorem NewOrder.toReference_order_id (o : NewOrder) : o.toReference.order_id = o.order_id := rfl

/-- What the reference keeps of a fill. -/
def Fill.toReference (f : Fill) : ReferenceFill where
  maker_order_id := f.maker_order_id
  price := f.price
  quantity := f.quantity
  maker_remaining := f.maker_remaining

/-- The level of a queue in the reference: none when it is empty. -/
def refLevel (q : List NewOrder) : Option (List ReferenceOrder) :=
  if q = [] then none else some (q.map NewOrder.toReference)

/-- The reference book holds these orders, oldest first. -/
def RefHolds (r : ReferenceBook) (l : List NewOrder) : Prop := ∀ s p, (r.side s)[p]? = refLevel (levelAt l s p)

/-! ## Rows -/

/-- The canonical row of a queue. -/
def rowOf (q : List NewOrder) : List (OrderId × QuantityLots × PrioritySeq) :=
  q.map fun o => (o.order_id, o.left, o.priority)

theorem canonical_orders_eq (q : List NewOrder) :
    ReferenceBook.canonical_orders (q.map NewOrder.toReference) = rowOf q := by
  rw [ReferenceBook.canonical_orders, List.map_map]; rfl

theorem Holds.book_rows_eq {b : OrderBook} {l : List NewOrder} (h : Holds b l) : book_rows b = .ok (
    ((b.levels .Buy).map fun level => (Side.Buy, level.1, rowOf (levelAt l .Buy level.1))) ++
    (b.levels .Sell).map fun level => (Side.Sell, level.1, rowOf (levelAt l .Sell level.1))) := by
  obtain ⟨L, hr, rfl⟩ := h
  have hrow : ∀ s p, (linkedNodes OrderNode.mk none (queue L s p)).mapM (fun order => (do
      let remaining ← order.remaining
      pure (order.order_id, remaining, order.priority) : Eval (OrderId × QuantityLots × PrioritySeq))) =
      .ok (rowOf (levelAt (L.map Prod.snd) s p)) := by
    intro s p
    have hmap : (linkedNodes OrderNode.mk none (queue L s p)).map OrderNode.toNewOrder =
        levelAt (L.map Prod.snd) s p := by
      rw [← queue_snd]; exact map_linkedNodes (f := OrderNode.toNewOrder) (g := id) (fun _ _ _ => rfl) none _
    rw [rowOf, ← hmap, List.map_map]
    refine mapM_eq_pure fun node hn => ?_
    have hm : node.toNewOrder ∈ levelAt (L.map Prod.snd) s p := by rw [← hmap]; exact List.mem_map_of_mem hn
    obtain ⟨e, he, heq⟩ := List.mem_map.1 (mem_levelAt.1 hm).1
    rw [OrderNode.remaining_eq (by rw [← heq]; exact hr.sound e he)]
    rfl
  rw [book_rows, hr.snapshot_eq, ok_bind]
  refine (mapM_eq_pure (g := fun row : Side × PriceTicks × List OrderNode =>
    (row.1, row.2.1, rowOf (levelAt (L.map Prod.snd) row.1 row.2.1))) ?_).trans ?_
  · intro row hrow'
    rcases List.mem_append.1 hrow' with hm | hm
    · obtain ⟨level, -, rfl⟩ := List.mem_map.1 hm
      simp only [hrow, ok_bind]
    · obtain ⟨level, -, rfl⟩ := List.mem_map.1 hm
      simp only [hrow, ok_bind]
  · rw [List.map_append, List.map_map, List.map_map]
    rfl

/-- Books that hold the same orders show the same rows. -/
theorem rows_eq {b : OrderBook} {r : ReferenceBook} {l : List NewOrder} (h : Holds b l) (hr : RefHolds r l) :
    book_rows b = .ok r.snapshot := by
  have hside : ∀ s, (b.side_levels s).toList.map (fun level => (level.1, rowOf (levelAt l s level.1))) =
      (r.side s).toList.map fun level => (level.1, ReferenceBook.canonical_orders level.2) := by
    intro s
    refine map_toList_congr (b.side_levels s) (r.side s) (fun p _ => rowOf (levelAt l s p))
      (fun _ q => ReferenceBook.canonical_orders q) fun p => ?_
    have hl := h.level_isSome s p
    rw [hr s p, refLevel]
    by_cases hq : levelAt l s p = []
    · rw [if_pos hq]
      cases hlv : (b.side_levels s)[p]? with
      | none => rfl
      | some level => rw [hlv] at hl; exact absurd hq (hl.1 rfl)
    · rw [if_neg hq]
      obtain ⟨level, hlv⟩ := Option.isSome_iff_exists.1 (hl.2 hq)
      rw [hlv, Option.map_some, Option.map_some, canonical_orders_eq]
  have hbuy := congrArg (fun rows => rows.reverse.map fun row => (Side.Buy, row)) (hside .Buy)
  have hsell := congrArg (fun rows => rows.map fun row => (Side.Sell, row)) (hside .Sell)
  simp only [← List.map_reverse, List.map_map] at hbuy hsell
  rw [h.book_rows_eq, ReferenceBook.snapshot]
  exact congrArg Except.ok (congrArg₂ (· ++ ·) hbuy hsell)

/-! ## The reference operations -/

theorem ReferenceBook.side_set (r : ReferenceBook) (levels : BTreeMap PriceTicks (List ReferenceOrder)) (s s' : Side) :
    (r.set_side levels s).side s' = if s' = s then levels else r.side s' := by
  cases s <;> cases s' <;> rfl

/-- Writing one level back, dropping it when it is empty. -/
theorem ReferenceBook.side_set_level (r : ReferenceBook) (s s' : Side) (p p' : PriceTicks) (q : List ReferenceOrder) :
    ((r.set_side (if q.isEmpty then (r.side s).erase p else (r.side s).insert p q) s).side s')[p']? =
      if s' = s ∧ p' = p then (if q = [] then none else some q) else (r.side s')[p']? := by
  rw [side_set]
  by_cases hs : s' = s
  · subst hs
    rw [if_pos rfl]
    by_cases hq : q = []
    · subst hq
      simp only [List.isEmpty_nil, if_true, get?_erase, true_and, eq_comm]
    · rw [if_neg (by simpa using hq), get?_insert, if_neg hq]
      simp only [true_and, eq_comm]
  · rw [if_neg hs, if_neg (fun h => hs h.1)]

theorem refLevel_eq (q : List NewOrder) : (if q.map NewOrder.toReference = [] then none
    else some (q.map NewOrder.toReference)) = refLevel q := by
  simp only [refLevel, List.map_eq_nil_iff]

namespace RefHolds
variable {r : ReferenceBook} {l : List NewOrder}
variable {o : NewOrder} {id : OrderId}

theorem new : RefHolds .new [] := by
  intro s p
  cases s <;> simp [ReferenceBook.new, ReferenceBook.side, levelAt, refLevel]

/-- A new level at one price, as long as the other queues are as before. -/
theorem set_level (h : RefHolds r l) {l' : List NewOrder} (s : Side) (p : PriceTicks)
    (others : ∀ s' p', ¬(s' = s ∧ p' = p) → levelAt l' s' p' = levelAt l s' p') {q : List ReferenceOrder}
    (hq : q = (levelAt l' s p).map NewOrder.toReference) :
    RefHolds (r.set_side (if q.isEmpty then (r.side s).erase p else (r.side s).insert p q) s) l' := by
  intro s' p'
  rw [ReferenceBook.side_set_level]
  split
  · rename_i hsp
    obtain ⟨rfl, rfl⟩ := hsp
    rw [hq, refLevel_eq]
  · rename_i hsp
    rw [h s' p', others s' p' hsp]

theorem insert (h : RefHolds r l) (o : NewOrder) :
    RefHolds (r.insert o.side o.price o.toReference) (l ++ [o]) := by
  have hself : levelAt (l ++ [o]) o.side o.price = levelAt l o.side o.price ++ [o] := by
    simp [levelAt, List.filter_append]
  have hq : (r.side o.side)[o.price]?.getD [] ++ [o.toReference] =
      (levelAt (l ++ [o]) o.side o.price).map NewOrder.toReference := by
    rw [hself, h o.side o.price, refLevel, List.map_append]
    split
    · rename_i he; rw [he]; rfl
    · rfl
  have hothers : ∀ s p, ¬(s = o.side ∧ p = o.price) → levelAt (l ++ [o]) s p = levelAt l s p := fun s p hsp => by
    rw [levelAt, List.filter_append, List.filter_cons_of_neg (by simpa using fun h1 h2 => hsp ⟨h1.symm, h2.symm⟩)]
    simp [levelAt]
  have hset := h.set_level o.side o.price hothers hq
  rw [if_neg (by simp)] at hset
  exact hset

/-- The order is found at its level. -/
theorem find_level_some (h : RefHolds r l) (hn : (l.map NewOrder.order_id).Nodup) (ho : o ∈ l) :
    r.find_level o.side o.order_id = some (o.price, (levelAt l o.side o.price).map NewOrder.toReference, o.toReference) := by
  have hq : ∀ p, o ∈ levelAt l o.side p → ((levelAt l o.side p).map NewOrder.toReference).find?
      (fun x => x.order_id = o.order_id) = some o.toReference := by
    intro p hm
    have hsub : ((levelAt l o.side p).map NewOrder.order_id).Nodup := hn.sublist (List.filter_sublist.map _)
    rw [List.find?_map]
    exact congrArg (Option.map NewOrder.toReference) (find?_key hsub hm)
  have hmem : o ∈ levelAt l o.side o.price := mem_levelAt.2 ⟨ho, rfl, rfl⟩
  rw [ReferenceBook.find_level]
  cases hf : (r.side o.side).toList.findSome? _ with
  | none =>
    have hlv : (o.price, (levelAt l o.side o.price).map NewOrder.toReference) ∈ (r.side o.side).toList := by
      rw [mem_toList, h o.side o.price, refLevel, if_neg (List.ne_nil_of_mem hmem)]
    have := List.findSome?_eq_none_iff.1 hf _ hlv
    rw [hq _ hmem] at this
    cases this
  | some found =>
    -- Only the level of the order itself holds an order with its id.
    obtain ⟨⟨p, q⟩, hlv, hfound⟩ := List.exists_of_findSome?_eq_some hf
    rw [mem_toList, h o.side p, refLevel] at hlv
    split at hlv
    · cases hlv
    · cases hlv
      obtain ⟨x, hx, rfl⟩ := Option.map_eq_some_iff.1 hfound
      obtain ⟨o', ho', rfl⟩ := List.mem_map.1 (List.mem_of_find?_eq_some hx)
      have hsat := List.find?_some hx
      have hid : o'.order_id = o.order_id := of_decide_eq_true hsat
      obtain ⟨hm', -, hp'⟩ := mem_levelAt.1 ho'
      cases List.inj_on_of_nodup_map hn hm' ho hid
      subst hp'
      rfl

theorem find_level_none (h : RefHolds r l) {s : Side} (hid : ∀ o ∈ l, o.order_id = id → o.side ≠ s) :
    r.find_level s id = none := by
  refine List.findSome?_eq_none_iff.2 fun level hlv => ?_
  obtain ⟨p, q⟩ := level
  rw [mem_toList, h s p, refLevel] at hlv
  split at hlv
  · cases hlv
  · cases hlv
    rw [Option.map_eq_none_iff, List.find?_eq_none]
    intro x hx
    obtain ⟨o, ho, rfl⟩ := List.mem_map.1 hx
    obtain ⟨hm, hs, -⟩ := mem_levelAt.1 ho
    exact fun he => hid o hm (of_decide_eq_true he) hs

theorem levelAt_without (id : OrderId) (s : Side) (p : PriceTicks) :
    levelAt (without NewOrder.order_id id l) s p = without NewOrder.order_id id (levelAt l s p) := by
  simp only [levelAt, without, List.filter_filter, Bool.and_comm]

theorem levelAt_set_total (id : OrderId) (total : QuantityLots) (s : Side) (p : PriceTicks) :
    levelAt (amend NewOrder.order_id id (fun o => { o with total_quantity := total }) l) s p =
      amend NewOrder.order_id id (fun o => { o with total_quantity := total }) (levelAt l s p) := by
  rw [levelAt, amend, List.filter_map, amend]
  congr 1
  refine List.filter_congr fun x _ => ?_
  simp only [Function.comp]
  split <;> rfl

/-- Other levels do not hold the order. -/
theorem notMem_level (hn : (l.map NewOrder.order_id).Nodup) (ho : o ∈ l) {s : Side} {p : PriceTicks}
    (hsp : ¬(s = o.side ∧ p = o.price)) : o.order_id ∉ (levelAt l s p).map NewOrder.order_id := by
  intro hm
  obtain ⟨x, hx, hid⟩ := List.mem_map.1 hm
  obtain ⟨hxl, hs, hp⟩ := mem_levelAt.1 hx
  rw [List.inj_on_of_nodup_map hn hxl ho hid] at hs hp
  exact hsp ⟨hs.symm, hp.symm⟩

theorem eraseP_toReference {q : List NewOrder} (hn : (q.map NewOrder.order_id).Nodup) (ho : o ∈ q) :
    (q.map NewOrder.toReference).eraseP (fun x => x.order_id = o.order_id) =
      (without NewOrder.order_id o.order_id q).map NewOrder.toReference := by
  obtain ⟨pre, post, rfl⟩ := List.append_of_mem ho
  rw [without_split hn, List.map_append, List.map_cons, List.eraseP_append_right, List.eraseP_cons_of_pos]
  · rw [List.map_append]
  · exact decide_eq_true rfl
  · intro x hx
    obtain ⟨y, hy, rfl⟩ := List.mem_map.1 hx
    simp only [List.map_append, List.map_cons, List.nodup_append] at hn
    exact fun he => hn.2.2 _ (List.mem_map_of_mem hy) _ List.mem_cons_self (of_decide_eq_true he)

theorem set_total_toReference {q : List NewOrder} (hn : (q.map NewOrder.order_id).Nodup) (id : OrderId)
    (total : QuantityLots) : ReferenceBook.set_total id total (q.map NewOrder.toReference) =
      (amend NewOrder.order_id id (fun o => { o with total_quantity := total }) q).map NewOrder.toReference := by
  induction q with
  | nil => rfl
  | cons o q ih =>
    rw [List.map_cons, List.nodup_cons] at hn
    rw [List.map_cons, ReferenceBook.set_total, NewOrder.toReference_order_id]
    by_cases hid : o.order_id = id
    · have hq := amend_of_notMem (f := fun o : NewOrder => { o with total_quantity := total }) (hid ▸ hn.1)
      rw [if_pos hid, amend, List.map_cons, if_pos hid, ← amend, hq]
      rfl
    · rw [if_neg hid, ih hn.2, amend, amend, List.map_cons, if_neg hid]
      rfl

theorem remove_side_ok (h : RefHolds r l) (hn : (l.map NewOrder.order_id).Nodup) (ho : o ∈ l) :
    ∃ r', r.remove_side o.side o.order_id = some ((o.side, o.price, o.toReference), r') ∧
      RefHolds r' (without NewOrder.order_id o.order_id l) := by
  have hsub : ((levelAt l o.side o.price).map NewOrder.order_id).Nodup := hn.sublist (List.filter_sublist.map _)
  refine ⟨_, by rw [ReferenceBook.remove_side, h.find_level_some hn ho]; rfl, h.set_level o.side o.price ?_ ?_⟩
  · intro s p hsp
    rw [levelAt_without, without_of_notMem (notMem_level hn ho hsp)]
  · rw [levelAt_without, eraseP_toReference hsub (mem_levelAt.2 ⟨ho, rfl, rfl⟩)]

theorem side_of_id (hn : (l.map NewOrder.order_id).Nodup) (ho : o ∈ l) {s : Side} (hs : o.side ≠ s) :
    ∀ x ∈ l, x.order_id = o.order_id → x.side ≠ s := by
  intro x hx hid
  rwa [List.inj_on_of_nodup_map hn hx ho hid]

theorem remove_ok (h : RefHolds r l) (hn : (l.map NewOrder.order_id).Nodup) (ho : o ∈ l) :
    ∃ r', r.remove o.order_id = (some (o.side, o.price, o.toReference), r') ∧
      RefHolds r' (without NewOrder.order_id o.order_id l) := by
  obtain ⟨r', h1, h2⟩ := h.remove_side_ok hn ho
  refine ⟨r', ?_, h2⟩
  rw [ReferenceBook.remove]
  cases hs : o.side with
  | Buy => rw [hs] at h1; rw [h1]
  | Sell =>
    have hnone : r.remove_side .Buy o.order_id = none := by
      rw [ReferenceBook.remove_side, h.find_level_none (side_of_id hn ho (by rw [hs]; decide))]; rfl
    rw [hs] at h1
    rw [hnone, h1]

theorem remove_none (h : RefHolds r l) (hid : id ∉ l.map NewOrder.order_id) : r.remove id = (none, r) := by
  have hnone : ∀ s, r.remove_side s id = none := fun s => by
    rw [ReferenceBook.remove_side, h.find_level_none fun o ho he => absurd (List.mem_map.2 ⟨o, ho, he⟩) hid]; rfl
  rw [ReferenceBook.remove, hnone, hnone]

theorem reduce_total_side_ok (h : RefHolds r l) (hn : (l.map NewOrder.order_id).Nodup) (ho : o ∈ l)
    (total : QuantityLots) : ∃ r', r.reduce_total_side o.side o.order_id total = some r' ∧
      RefHolds r' (amend NewOrder.order_id o.order_id (fun o => { o with total_quantity := total }) l) := by
  have hsub : ((levelAt l o.side o.price).map NewOrder.order_id).Nodup := hn.sublist (List.filter_sublist.map _)
  have hmem : o ∈ levelAt l o.side o.price := mem_levelAt.2 ⟨ho, rfl, rfl⟩
  have hset := h.set_level o.side o.price (fun s p hsp => by
    rw [levelAt_set_total o.order_id total, amend_of_notMem (notMem_level hn ho hsp)])
    ((set_total_toReference hsub o.order_id total).trans (by rw [← levelAt_set_total]))
  refine ⟨_, by rw [ReferenceBook.reduce_total_side, h.find_level_some hn ho]; rfl, ?_⟩
  rw [if_neg] at hset
  · exact hset
  · rw [set_total_toReference hsub, List.isEmpty_iff, List.map_eq_nil_iff, amend, List.map_eq_nil_iff]
    exact List.ne_nil_of_mem hmem

theorem reduce_total_ok (h : RefHolds r l) (hn : (l.map NewOrder.order_id).Nodup) (ho : o ∈ l) (total : QuantityLots) :
    RefHolds (r.reduce_total o.order_id total)
      (amend NewOrder.order_id o.order_id (fun o => { o with total_quantity := total }) l) := by
  obtain ⟨r', h1, h2⟩ := h.reduce_total_side_ok hn ho total
  rw [ReferenceBook.reduce_total]
  cases hs : o.side with
  | Buy => rw [hs] at h1; rw [h1]; exact h2
  | Sell =>
    have hnone : r.reduce_total_side .Buy o.order_id total = none := by
      rw [ReferenceBook.reduce_total_side, h.find_level_none (side_of_id hn ho (by rw [hs]; decide))]; rfl
    rw [hs] at h1
    rw [hnone, h1]
    exact h2

theorem reduce_total_none (h : RefHolds r l) (hid : id ∉ l.map NewOrder.order_id) (total : QuantityLots) :
    r.reduce_total id total = r := by
  have hnone : ∀ s, r.reduce_total_side s id total = none := fun s => by
    rw [ReferenceBook.reduce_total_side, h.find_level_none fun o ho he => absurd (List.mem_map.2 ⟨o, ho, he⟩) hid]; rfl
  rw [ReferenceBook.reduce_total, hnone, hnone]
  rfl

end RefHolds

/-! ## Matching in the reference -/

/-- What the inner loop of the reference keeps: it works on the queue of one level. -/
structure RefMatching (s : Side) (limit : PriceTicks) (l₀ : List NewOrder) (r₀ : UInt64) (p : PriceTicks)
    (l : List NewOrder) (st : ReferenceLevelMatch) (fs : List Fill) (l' : List NewOrder) : Prop where
  recorded : st.fills = fs.map Fill.toReference
  fills : Fills s limit l₀ r₀ fs l' st.remaining
  orders : st.orders = (levelAt l' s p).map NewOrder.toReference
  others : ∀ s' p', ¬(s' = s ∧ p' = p) → levelAt l' s' p' = levelAt l s' p'
  ids : (l'.map NewOrder.order_id).Nodup
  sound : ∀ x ∈ l', x.Sound
  best : ∀ x ∈ l', x.side = s → Crosses s p x.price

/-- A pass with quantity left trades with the front of the queue. -/
theorem RefMatching.step {s : Side} {limit p : PriceTicks} {l₀ l l' : List NewOrder} {r₀ : UInt64}
    {st : ReferenceLevelMatch} {fs : List Fill} (h : RefMatching s limit l₀ r₀ p l st fs l') (hlim : Crosses s p limit)
    (hr : 0 < val st.remaining) {o : NewOrder} {q : List NewOrder} (hq : levelAt l' s p = o :: q) :
    ∃ st', ReferenceBook.match_level_body p st = .ok (.cont st') ∧
      RefMatching s limit l₀ r₀ p l st' (fs ++ [Fill.of o (min st.remaining o.left)])
        (afterFill l' o (min st.remaining o.left)) ∧
      st'.remaining = st.remaining - min st.remaining o.left := by
  obtain ⟨hm, hs, rfl⟩ := mem_levelAt.1 (show o ∈ levelAt l' s p by rw [hq]; exact List.mem_cons_self)
  have ht : val (min st.remaining o.left) ≤ val o.left := by rw [u64_min]; omega
  have hsub : ((o :: q).map NewOrder.order_id).Nodup := by
    rw [← hq]; exact h.ids.sublist (List.filter_sublist.map _)
  have horders := h.orders
  rw [hq, List.map_cons] at horders
  refine ⟨_, by rw [ReferenceBook.match_level_body, if_pos (u64_lt.2 hr), horders]; rfl, ?_, rfl⟩
  refine ⟨?_, h.fills.snoc hr ⟨by rw [hq]; rfl, h.best⟩ hlim, ?_, fun s' p' hsp => ?_, ids_afterFill h.ids _ _,
    sound_afterFill h.ids h.sound hm ht, fun x hx hxs => ?_⟩
  · rw [List.map_append, h.recorded]; rfl
  · rw [levelAt_afterFill, hq, afterFill_cons hsub]
    have hz := fill_left_zero (h.sound o hm) ht
    by_cases hf : o.left = min st.remaining o.left
    · rw [if_pos hf]; exact if_pos (hz.2 hf)
    · rw [if_neg hf]; exact if_neg (fun hh => hf (hz.1 hh))
  · rw [levelAt_afterFill, afterFill, without_of_notMem, amend_of_notMem, ite_self, h.others s' p' hsp]
    · exact RefHolds.notMem_level h.ids hm (by rwa [hs])
    · exact RefHolds.notMem_level h.ids hm (by rwa [hs])
  · obtain ⟨y, hy, -, hys, hyp⟩ := side_of_afterFill hx
    rw [← hyp]; exact h.best y hy (hys.trans hxs)

/-- The inner loop ends with the level or the quantity used up. -/
theorem RefMatching.loop_ok {s : Side} {limit p : PriceTicks} {l₀ l l₁ : List NewOrder} {r₀ : UInt64}
    {st : ReferenceLevelMatch} {fs : List Fill} (h : RefMatching s limit l₀ r₀ p l st fs l₁) (hlim : Crosses s p limit) :
    ∃ st', loop (ReferenceBook.match_level_body p) (st.orders.length + 2) st = .ok st' ∧
      ∃ fs' l', RefMatching s limit l₀ r₀ p l st' fs' l' ∧ (st'.orders = [] ∨ val st'.remaining = 0) := by
  refine loop_spec (ReferenceBook.match_level_body p)
    (fun st' => ∃ fs' l', RefMatching s limit l₀ r₀ p l st' fs' l')
    (fun st' => st'.orders.length + if 0 < val st'.remaining then 1 else 0) _ ?_ _ st ⟨fs, l₁, h⟩ (by split <;> omega)
  rintro st1 ⟨fs1, l1, h1⟩
  by_cases hr : 0 < val st1.remaining
  · cases hq : levelAt l1 s p with
    | nil =>
      have hnil : st1.orders = [] := by rw [h1.orders, hq]; rfl
      exact ⟨.done st1, by rw [ReferenceBook.match_level_body, if_pos (u64_lt.2 hr), hnil]; rfl, fs1, l1, h1, .inl hnil⟩
    | cons o q =>
      obtain ⟨st2, hbody, h2, hrem⟩ := h1.step hlim hr hq
      refine ⟨_, hbody, ⟨_, _, h2⟩, ?_⟩
      have hmem : o ∈ levelAt l1 s p := by rw [hq]; exact List.mem_cons_self
      have hlt := measure_afterFill (h1.ids.sublist (List.filter_sublist.map _)) hmem st1.remaining
      dsimp only
      rw [h2.orders, levelAt_afterFill, hrem, h1.orders, List.length_map, List.length_map, if_pos hr]
      exact hlt
  · refine ⟨.done st1, by rw [ReferenceBook.match_level_body, if_neg (fun hh => hr (u64_lt.1 hh))]; rfl, fs1, l1, h1, .inr ?_⟩
    have := (u64_bounds st1.remaining).1
    omega

theorem eligible_iff {s : Side} {p limit : PriceTicks} : ReferenceBook.eligible s p limit = true ↔ Crosses s p limit := by
  cases s <;> simp only [ReferenceBook.eligible, Crosses, ge_iff_le, decide_eq_true_eq, i64_le]

namespace RefHolds
variable {r : ReferenceBook} {l : List NewOrder}

theorem level_of_mem (h : RefHolds r l) {o : NewOrder} (ho : o ∈ l) :
    (r.side o.side)[o.price]? = some ((levelAt l o.side o.price).map NewOrder.toReference) := by
  rw [h, refLevel, if_neg (List.ne_nil_of_mem (mem_levelAt.2 ⟨ho, rfl, rfl⟩))]

theorem nonempty (h : RefHolds r l) {s : Side} {p : PriceTicks} {q : List ReferenceOrder}
    (hq : (r.side s)[p]? = some q) : levelAt l s p ≠ [] ∧ q = (levelAt l s p).map NewOrder.toReference := by
  rw [h, refLevel] at hq
  split at hq
  · cases hq
  · cases hq; exact ⟨‹_›, rfl⟩

theorem best_price_some (h : RefHolds r l) {s : Side} {p : PriceTicks} (hp : r.best_price s = some p) :
    levelAt l s p ≠ [] ∧ ∀ o ∈ l, o.side = s → Crosses s p o.price := by
  cases s with
  | Buy =>
    obtain ⟨⟨p', q⟩, hlast, rfl⟩ := Option.map_eq_some_iff.1 hp
    obtain ⟨hget, hbest⟩ := last?_eq_some hlast
    refine ⟨(h.nonempty hget).1, fun o ho hs => ?_⟩
    have hl := h.level_of_mem ho
    rw [hs] at hl
    exact crosses_of_compare ((hbest _ _ hl).imp_left Eq.symm)
  | Sell =>
    obtain ⟨⟨p', q⟩, hfirst, rfl⟩ := Option.map_eq_some_iff.1 hp
    obtain ⟨hget, hbest⟩ := first?_eq_some hfirst
    refine ⟨(h.nonempty hget).1, fun o ho hs => ?_⟩
    have hl := h.level_of_mem ho
    rw [hs] at hl
    exact crosses_of_compare (hbest _ _ hl)

theorem best_price_none (h : RefHolds r l) {s : Side} (hp : r.best_price s = none) {o : NewOrder} (ho : o ∈ l) :
    o.side ≠ s := by
  rintro rfl
  have hl := h.level_of_mem ho
  cases hs : o.side with
  | Buy =>
    rw [hs] at hl hp
    have hnone := last?_eq_none.1 (Option.map_eq_none_iff.1 hp) o.price
    rw [ReferenceBook.side, hnone] at hl
    cases hl
  | Sell =>
    rw [hs] at hl hp
    have hnone := first?_eq_none.1 (Option.map_eq_none_iff.1 hp) o.price
    rw [ReferenceBook.side, hnone] at hl
    cases hl

end RefHolds

/-- What the outer loop of the reference keeps. -/
structure RefProgress (s : Side) (limit : PriceTicks) (l₀ : List NewOrder) (r₀ : UInt64) (st : ReferenceMatch)
    (fs : List Fill) (l' : List NewOrder) : Prop where
  recorded : st.fills = fs.map Fill.toReference
  fills : Fills s limit l₀ r₀ fs l' st.remaining
  book : RefHolds st.book l'
  ids : (l'.map NewOrder.order_id).Nodup
  sound : ∀ x ∈ l', x.Sound

theorem ReferenceBook.size_set_level (r : ReferenceBook) (s : Side) (p : PriceTicks) (q q' : List ReferenceOrder)
    (h : (r.side s)[p]? = some q) :
    ((r.set_side (if q'.isEmpty then (r.side s).erase p else (r.side s).insert p q') s).side s).size +
      (if q' = [] then 1 else 0) = (r.side s).size := by
  rw [side_set, if_pos rfl]
  by_cases hq : q' = []
  · subst hq
    exact size_erase_of_get? h
  · rw [if_neg (by simpa using hq), if_neg hq]
    exact size_insert_of_get? q' h

/-- Passes of the outer loop: each empties a level or uses up the quantity. -/
def ReferenceMatch.measure (st : ReferenceMatch) (s : Side) : Nat :=
  (st.book.side s).size + if 0 < val st.remaining then 1 else 0

/-- A pass with an eligible level trades there. -/
theorem RefProgress.step {s : Side} {limit p : PriceTicks} {l₀ l : List NewOrder} {r₀ : UInt64} {st : ReferenceMatch}
    {fs : List Fill} (h : RefProgress s limit l₀ r₀ st fs l) (hr : 0 < val st.remaining)
    (hp : st.book.best_price s = some p) (hlim : Crosses s p limit) :
    ∃ st', ReferenceBook.match_order_body s limit st = .ok (.cont st') ∧
      (∃ fs' l', RefProgress s limit l₀ r₀ st' fs' l') ∧ st'.measure s < st.measure s := by
  obtain ⟨hne, hbest⟩ := h.book.best_price_some hp
  have hlv : (st.book.side s)[p]? = some ((levelAt l s p).map NewOrder.toReference) := by
    rw [h.book, refLevel, if_neg hne]
  have hstart : RefMatching s limit l₀ r₀ p l ⟨(levelAt l s p).map NewOrder.toReference, st.remaining, st.fills⟩ fs l :=
    ⟨h.recorded, h.fills, rfl, fun _ _ _ => rfl, h.ids, h.sound, hbest⟩
  obtain ⟨lm, hinner, fs', l', h', hend⟩ := hstart.loop_ok hlim
  refine ⟨⟨st.book.set_side (if lm.orders.isEmpty then (st.book.side s).erase p
    else (st.book.side s).insert p lm.orders) s, lm.remaining, lm.fills⟩, ?_,
    ⟨fs', l', h'.recorded, h'.fills, h.book.set_level s p h'.others h'.orders, h'.ids, h'.sound⟩, ?_⟩
  · rw [ReferenceBook.match_order_body, if_pos (u64_lt.2 hr), hp]
    simp only [eligible_iff.2 hlim, if_true, hlv, expect_some, ok_bind, hinner, pure_eq]
  · have hsize := ReferenceBook.size_set_level st.book s p _ lm.orders hlv
    simp only [ReferenceMatch.measure, if_pos hr]
    rcases hend with hend | hend
    · have hone : (if 0 < val lm.remaining then 1 else 0) ≤ 1 := by split <;> omega
      rw [if_pos hend] at hsize
      omega
    · rw [if_neg (show ¬0 < val lm.remaining by omega)]
      omega

/-- The reference trades by price and time until nothing is left to trade. -/
theorem RefHolds.match_order_ok {r : ReferenceBook} {l : List NewOrder} (h : RefHolds r l)
    (hn : (l.map NewOrder.order_id).Nodup) (hs : ∀ x ∈ l, x.Sound) (taker_side : Side) (limit : PriceTicks)
    (quantity : QuantityLots) :
    ∃ r' l' q' fills, r.match_order taker_side limit quantity = .ok (r', quantity - q', fills.map Fill.toReference) ∧
      RefHolds r' l' ∧ Fills taker_side.opposite limit l quantity fills l' q' ∧
      Exhausted taker_side.opposite limit l' q' := by
  generalize hms : taker_side.opposite = ms
  obtain ⟨st', hloop, fs, l', hst, hex⟩ := loop_spec (ReferenceBook.match_order_body ms limit)
    (fun st => ∃ fs l', RefProgress ms limit l quantity st fs l') (·.measure ms)
    (fun st => ∃ fs l', RefProgress ms limit l quantity st fs l' ∧ Exhausted ms limit l' st.remaining) (by
    rintro st ⟨fs, l1, h1⟩
    by_cases hr : 0 < val st.remaining
    · cases hp : st.book.best_price ms with
      | none =>
        refine ⟨.done st, by rw [ReferenceBook.match_order_body, if_pos (u64_lt.2 hr), hp]; rfl, fs, l1, h1, .inr ?_⟩
        exact fun o ho hos => absurd hos (h1.book.best_price_none hp ho)
      | some p =>
        by_cases hlim : Crosses ms p limit
        · obtain ⟨st2, hbody, h2, hlt⟩ := h1.step hr hp hlim
          exact ⟨.cont st2, hbody, h2, hlt⟩
        · refine ⟨.done st, ?_, fs, l1, h1, .inr fun o ho hos hc => ?_⟩
          · rw [ReferenceBook.match_order_body, if_pos (u64_lt.2 hr), hp]
            exact if_neg (eligible_iff.not.2 hlim)
          · exact hlim (((h1.book.best_price_some hp).2 o ho hos).trans hc)
    · refine ⟨.done st, by rw [ReferenceBook.match_order_body, if_neg (fun hh => hr (u64_lt.1 hh))]; rfl, fs, l1, h1,
        .inl ?_⟩
      have := (u64_bounds st.remaining).1
      omega)
    ((r.side ms).size + 2) ⟨r, quantity, []⟩ ⟨[], l, rfl, .nil, h, hn, hs⟩ (by
      dsimp only [ReferenceMatch.measure]; split <;> omega)
  refine ⟨st'.book, l', st'.remaining, fs, ?_, hst.book, hst.fills, hex⟩
  rw [ReferenceBook.match_order, hms, hloop, ← hst.recorded]
  rfl

/-! ## Lock step -/

/-- A command of the model test. -/
inductive BookCommand where
  | insert (order : NewOrder)
  | remove (order_id : OrderId)
  | reduce_total (order_id : OrderId) (new_total : QuantityLots)
  | match_order (taker_side : Side) (limit : PriceTicks) (quantity : QuantityLots)

/-- What a command returns. `ρ` and `φ` are the order and fill types of the book. -/
inductive BookReply (ρ φ : Type) where
  | accepted
  | refused
  | removed (order : Option ρ)
  | reduced
  | matched (filled : QuantityLots) (fills : List φ)

def OrderBook.exec (b : OrderBook) : BookCommand → Eval (OrderBook × BookReply OrderNode Fill)
  | .insert order => do
    match ← b.insert order with
    | .ok b => pure (b, .accepted)
    | .error _ => pure (b, .refused)
  | .remove order_id => do
    let (node, b) ← b.remove order_id
    pure (b, .removed node)
  | .reduce_total order_id new_total => do
    let b ← b.reduce_total order_id new_total
    pure (b, .reduced)
  | .match_order taker_side limit quantity => do
    let (b, filled, fills) ← TradingLab.match_order b taker_side limit quantity
    pure (b, .matched filled fills)

def ReferenceBook.exec (r : ReferenceBook) :
    BookCommand → Eval (ReferenceBook × BookReply (Side × PriceTicks × ReferenceOrder) ReferenceFill)
  | .insert order => pure (r.insert order.side order.price order.toReference, .accepted)
  | .remove order_id =>
    let (found, r) := r.remove order_id
    pure (r, .removed found)
  | .reduce_total order_id new_total => pure (r.reduce_total order_id new_total, .reduced)
  | .match_order taker_side limit quantity => do
    let (r, filled, fills) ← r.match_order taker_side limit quantity
    pure (r, .matched filled fills)

/-- One command on both books. -/
def exec_both (s : OrderBook × ReferenceBook) (command : BookCommand) : Eval ((OrderBook × ReferenceBook) ×
    BookReply OrderNode Fill × BookReply (Side × PriceTicks × ReferenceOrder) ReferenceFill) := do
  let (b, reply) ← s.1.exec command
  let (r, expected) ← s.2.exec command
  pure ((b, r), reply, expected)

/-- The replies agree: both removed the same order or none, and both matched the same way. -/
def Agrees : BookReply OrderNode Fill → BookReply (Side × PriceTicks × ReferenceOrder) ReferenceFill → Prop
  | .accepted, .accepted => True
  | .removed none, .removed none => True
  | .removed (some node), .removed (some (side, price, order)) =>
    node.side = side ∧ node.price = price ∧ node.toNewOrder.toReference = order
  | .reduced, .reduced => True
  | .matched filled fills, .matched filled' fills' => filled = filled' ∧ fills.map Fill.toReference = fills'
  | _, _ => False

/-- The book accepts an insertion. -/
def OrderBook.accepts (b : OrderBook) (order : NewOrder) : Bool :=
  match b.insert order with
  | .ok (.ok _) => true
  | _ => false

/-- The order found under an id. -/
def OrderBook.found (b : OrderBook) (order_id : OrderId) : Option OrderNode :=
  match b.get order_id with
  | .ok node => node
  | .error _ => none

/-- An insertion has a fresh id and is accepted; a new total is at or above the cumulative fill. -/
def InContract (b : OrderBook) : BookCommand → Prop
  | .insert order => b.found order.order_id = none ∧ b.accepts order = true
  | .reduce_total order_id new_total => ∀ node ∈ b.found order_id, node.cumulative_filled ≤ new_total
  | .remove _ => True
  | .match_order .. => True

/-- With the new total the aggregate of the order's level still fits in its word. -/
def LevelFits (b : OrderBook) : BookCommand → Prop
  | .reduce_total order_id new_total => ∀ node ∈ b.found order_id,
      ∀ level ∈ (b.side_levels node.side)[node.price]?,
        val level.total_remaining - val node.total_quantity + val new_total ≤ 18446744073709551615
  | .insert _ => True
  | .remove _ => True
  | .match_order .. => True

instance (b : OrderBook) : DecidablePred (InContract b)
  | .insert _ => inferInstanceAs (Decidable (_ ∧ _))
  | .reduce_total .. => inferInstanceAs (Decidable (∀ _ ∈ _, _))
  | .remove _ => inferInstanceAs (Decidable True)
  | .match_order .. => inferInstanceAs (Decidable True)

instance (b : OrderBook) : DecidablePred (LevelFits b)
  | .insert _ => inferInstanceAs (Decidable True)
  | .reduce_total .. => inferInstanceAs (Decidable (∀ _ ∈ _, ∀ _ ∈ _, _))
  | .remove _ => inferInstanceAs (Decidable True)
  | .match_order .. => inferInstanceAs (Decidable True)

/-- Every command of the list satisfies `ok` on the book it is given to. -/
def Throughout (ok : OrderBook → BookCommand → Prop) : OrderBook → List BookCommand → Prop
  | _, [] => True
  | b, command :: commands => ok b command ∧
    match b.exec command with
    | .ok (b, _) => Throughout ok b commands
    | .error _ => True

instance decidableThroughout (ok : OrderBook → BookCommand → Prop) [∀ b, DecidablePred (ok b)] :
    (b : OrderBook) → (commands : List BookCommand) → Decidable (Throughout ok b commands)
  | _, [] => inferInstanceAs (Decidable True)
  | b, command :: commands =>
    have : Decidable (match b.exec command with
        | .ok (b, _) => Throughout ok b commands
        | .error _ => True) :=
      match b.exec command with
      | .ok (b, _) => decidableThroughout ok b commands
      | .error _ => inferInstanceAs (Decidable True)
    inferInstanceAs (Decidable (_ ∧ _))

/-- A command in contract keeps both books in step, and both reply alike. -/
theorem exec_both_ok {b : OrderBook} {r : ReferenceBook} {l : List NewOrder} (h : Holds b l) (hr : RefHolds r l)
    {command : BookCommand} (hc : InContract b command) (hf : LevelFits b command) :
    ∃ b' r' reply expected, b.exec command = .ok (b', reply) ∧ r.exec command = .ok (r', expected) ∧
      Agrees reply expected ∧ ∃ l', Holds b' l' ∧ RefHolds r' l' := by
  cases command with
  | insert o =>
    obtain ⟨hnone, hacc⟩ := hc
    have hid : o.order_id ∉ l.map NewOrder.order_id := by
      intro hm
      obtain ⟨x, hx, hxo⟩ := List.mem_map.1 hm
      obtain ⟨node, hg, -⟩ := h.get_ok hx
      rw [OrderBook.found, ← hxo, hg] at hnone
      cases hnone
    rw [OrderBook.accepts] at hacc
    split at hacc
    · rename_i b' hi
      have hb' := (h.insert_accepted hid hi).1
      exact ⟨b', _, .accepted, .accepted, by simp [OrderBook.exec, hi], rfl, trivial, l ++ [o], hb', hr.insert o⟩
    · cases hacc
  | remove id =>
    by_cases hid : id ∈ l.map NewOrder.order_id
    · obtain ⟨o, ho, rfl⟩ := List.mem_map.1 hid
      obtain ⟨node, b', h1, h2, h3, -⟩ := h.remove_ok ho
      obtain ⟨r', h4, h5⟩ := hr.remove_ok h.ids ho
      refine ⟨b', r', _, _, by rw [OrderBook.exec, h1]; rfl, by rw [ReferenceBook.exec, h4]; rfl, ?_, _, h3, h5⟩
      subst h2
      exact ⟨rfl, rfl, rfl⟩
    · exact ⟨b, r, .removed none, .removed none, by simp [OrderBook.exec, h.remove_none hid],
        by simp [ReferenceBook.exec, hr.remove_none hid], trivial, l, h, hr⟩
  | reduce_total id total =>
    by_cases hid : id ∈ l.map NewOrder.order_id
    · obtain ⟨o, ho, rfl⟩ := List.mem_map.1 hid
      obtain ⟨node, hg, rfl⟩ := h.get_ok ho
      obtain ⟨level, hl⟩ := h.level_of_mem ho
      have hfound : b.found node.order_id = some node := by rw [OrderBook.found, hg]
      have hc := hc node hfound
      have hf := hf node hfound level hl
      rw [h.level_total hl] at hf
      have hleft := NewOrder.left_val (h.sound ho)
      obtain ⟨b', h1, h2, -⟩ := h.reduce_total_ok ho (u64_le.1 hc) (by omega)
      exact ⟨b', _, .reduced, .reduced, by simp [OrderBook.exec, h1], rfl, trivial, _, h2, hr.reduce_total_ok h.ids ho total⟩
    · refine ⟨b, r, .reduced, .reduced, ?_, ?_, trivial, l, h, hr⟩
      · simp [OrderBook.exec, OrderBook.reduce_total, h.lookup_none hid]
      · simp [ReferenceBook.exec, hr.reduce_total_none hid]
  | match_order side limit quantity =>
    obtain ⟨b', l1, q1, fs1, h1, h2, -, h3, h4⟩ := match_order_ok h side limit quantity
    obtain ⟨r', l2, q2, fs2, h5, h6, h7, h8⟩ := hr.match_order_ok h.ids (fun x hx => h.sound hx) side limit quantity
    obtain ⟨rfl, rfl, rfl⟩ := h3.unique h4 h7 h8
    exact ⟨b', r', .matched _ _, .matched _ _, by rw [OrderBook.exec, h1]; rfl, by rw [ReferenceBook.exec, h5]; rfl,
      ⟨rfl, rfl⟩, l1, h2, h6⟩

theorem exec_both_eq {b b' : OrderBook} {r r' : ReferenceBook} {command : BookCommand} {reply expected}
    (h1 : b.exec command = .ok (b', reply)) (h2 : r.exec command = .ok (r', expected)) :
    exec_both (b, r) command = .ok ((b', r'), reply, expected) := by
  rw [exec_both, h1, ok_bind, h2]
  rfl

/-- Both books run any commands in contract to the end in step. -/
theorem runs_both_ok {b : OrderBook} {r : ReferenceBook} {l : List NewOrder} (h : Holds b l) (hr : RefHolds r l)
    {commands : List BookCommand} (hc : Throughout (fun b command => InContract b command ∧ LevelFits b command) b commands) :
    ∃ b' r' replies, runs exec_both (b, r) commands = .ok ((b', r'), replies) ∧
      (∀ reply ∈ replies, Agrees reply.1 reply.2) ∧ ∃ l', Holds b' l' ∧ RefHolds r' l' := by
  induction commands generalizing b r l with
  | nil => exact ⟨b, r, [], rfl, by simp, l, h, hr⟩
  | cons command commands ih =>
    obtain ⟨⟨hin, hfit⟩, hrest⟩ := hc
    obtain ⟨b1, r1, reply, expected, h1, h2, hagree, l1, hb1, hr1⟩ := exec_both_ok h hr hin hfit
    rw [h1] at hrest
    obtain ⟨b', r', replies, hrun, hall, hend⟩ := ih hb1 hr1 hrest
    refine ⟨b', r', (reply, expected) :: replies, ?_, ?_, hend⟩
    · exact runs_cons (exec_both_eq h1 h2) hrun
    · intro x hx
      rcases List.mem_cons.1 hx with rfl | hx
      · exact hagree
      · exact hall x hx

theorem Throughout.take {ok : OrderBook → BookCommand → Prop} {b : OrderBook} {commands : List BookCommand}
    (h : Throughout ok b commands) (n : Nat) : Throughout ok b (commands.take n) := by
  induction commands generalizing b n with
  | nil => rw [List.take_nil]; exact h
  | cons command commands ih =>
    cases n with
    | zero => trivial
    | succ n =>
      refine ⟨h.1, ?_⟩
      have hrest := h.2
      split at hrest
      · exact ih hrest n
      · trivial

/-- The indexed book refines the reference book: after any number of commands the rows are
the same, and every command was answered alike. -/
theorem book_refines_reference (allocator : SlabAllocator) (capacity : Nat) (commands : List BookCommand)
    (h : Throughout (fun b command => InContract b command ∧ LevelFits b command) (.with_capacity allocator capacity)
      commands) (n : Nat) :
    ∃ b r replies, runs exec_both (.with_capacity allocator capacity, .new) (commands.take n) = .ok ((b, r), replies) ∧
      book_rows b = .ok r.snapshot ∧ ∀ reply ∈ replies, Agrees reply.1 reply.2 := by
  obtain ⟨b, r, replies, hrun, hall, l, hb, hr⟩ :=
    runs_both_ok (Holds.empty allocator capacity) RefHolds.new (h.take n)
  exact ⟨b, r, replies, hrun, rows_eq hb hr, hall⟩

/-- A resting order of one account. -/
def plainOrder (id : UInt64) (side : Side) (price : PriceTicks) (total : QuantityLots) : NewOrder where
  order_id := id
  account := 1
  client_order_id := id
  side := side
  price := price
  total_quantity := total
  cumulative_filled := 0
  priority := id

/-- Three resting sells, a buy that fills the first and part of the second, a reduction and a removal. -/
def sampleCommands : List BookCommand :=
  [.insert (plainOrder 1 .Sell 100 5), .insert (plainOrder 2 .Sell 100 7), .insert (plainOrder 3 .Sell 101 4),
    .match_order .Buy 100 8, .reduce_total 2 6, .remove 3]

theorem book_refines_reference_sample : ∃ b r replies,
    runs exec_both (.with_capacity freeListAllocator 4, .new) (sampleCommands.take 6) = .ok ((b, r), replies) ∧
      book_rows b = .ok r.snapshot ∧ ∀ reply ∈ replies, Agrees reply.1 reply.2 :=
  book_refines_reference freeListAllocator 4 sampleCommands (by decide +kernel) 6

/-- Raising a total can overflow the aggregate of the level: the book then panics. -/
theorem reduce_total_raise_panics :
    Throughout InContract (.with_capacity freeListAllocator 2)
      [.insert (plainOrder 1 .Buy 100 18446744073709551614), .insert (plainOrder 2 .Buy 100 1), .reduce_total 2 2] ∧
    panicOf (runs exec_both (.with_capacity freeListAllocator 2, .new)
      [.insert (plainOrder 1 .Buy 100 18446744073709551614), .insert (plainOrder 2 .Buy 100 1), .reduce_total 2 2]) =
      some (.expect "accounting: level remaining overflow") := by
  decide +kernel

end TradingLab
