import TradingLab.BookSpec
import TradingLab.Matching
/-!
# Matching by price and time

What matching is for, said on the list of resting orders alone: as long as the
taker has quantity and some maker crosses the limit, trade with the oldest
order at the best price. `match_order` does exactly that (`match_order_ok`),
and there is only one way to do it (`Fills.unique`).
-/
open LabLib

namespace TradingLab

/-- The fill of a maker. -/
def Fill.of (o : NewOrder) (t : QuantityLots) : Fill where
  maker_order_id := o.order_id
  maker_account := o.account
  maker_client_order_id := o.client_order_id
  price := o.price
  quantity := t
  maker_total_quantity := o.total_quantity
  maker_cumulative_filled := (o.fill t).cumulative_filled
  maker_remaining := (o.fill t).left

/-- The maker that trades next: the oldest order at the best price of its side. -/
structure Next (s : Side) (l : List NewOrder) (o : NewOrder) : Prop where
  head : (levelAt l s o.price).head? = some o
  best : ∀ x ∈ l, x.side = s → Crosses s o.price x.price

/-- `Fills s limit l r fs l' r'`: the fills `fs` take the makers of side `s` from
`l` to `l'` and the quantity of the taker from `r` to `r'`. -/
inductive Fills (s : Side) (limit : PriceTicks) : List NewOrder → UInt64 → List Fill → List NewOrder → UInt64 → Prop
  | nil {l r} : Fills s limit l r [] l r
  | cons {l r o fs l' r'} : 0 < val r → Next s l o → Crosses s o.price limit →
      Fills s limit (afterFill l o (min r o.left)) (r - min r o.left) fs l' r' →
      Fills s limit l r (Fill.of o (min r o.left) :: fs) l' r'

/-- Nothing is left to trade. -/
def Exhausted (s : Side) (limit : PriceTicks) (l : List NewOrder) (r : UInt64) : Prop :=
  val r = 0 ∨ ∀ o ∈ l, o.side = s → ¬Crosses s o.price limit

/-! ## One fill -/

theorem mem_afterFill {l : List NewOrder} {o x : NewOrder} {t : QuantityLots} (h : x ∈ afterFill l o t) :
    (x ∈ l ∧ x.order_id ≠ o.order_id) ∨ (o.left ≠ t ∧ ∃ y ∈ l, y.order_id = o.order_id ∧ x = y.fill t) := by
  rw [afterFill] at h
  split at h
  · exact .inl (mem_without.1 h)
  · rename_i hne
    rcases mem_amend.1 h with h | ⟨y, hy, hid, rfl⟩
    · exact .inl h
    · exact .inr ⟨hne, y, hy, hid, rfl⟩

/-- Fills move no order to another side or price. -/
theorem side_of_afterFill {l : List NewOrder} {o x : NewOrder} {t : QuantityLots} (h : x ∈ afterFill l o t) :
    ∃ y ∈ l, y.order_id = x.order_id ∧ y.side = x.side ∧ y.price = x.price := by
  rcases mem_afterFill h with ⟨h, -⟩ | ⟨-, y, hy, -, rfl⟩
  · exact ⟨x, h, rfl, rfl, rfl⟩
  · exact ⟨y, hy, rfl, rfl, rfl⟩

theorem levelAt_afterFill (l : List NewOrder) (o : NewOrder) (t : QuantityLots) (s : Side) (p : PriceTicks) :
    levelAt (afterFill l o t) s p = afterFill (levelAt l s p) o t := by
  simp only [afterFill, levelAt]
  split
  · simp only [without, List.filter_filter, Bool.and_comm]
  · rw [amend, List.filter_map]
    congr 1
    refine List.filter_congr fun x _ => ?_
    simp only [Function.comp]
    split <;> rfl

/-- A fill of the head of a queue. -/
theorem afterFill_cons {o : NewOrder} {q : List NewOrder} {t : QuantityLots}
    (hn : ((o :: q).map NewOrder.order_id).Nodup) :
    afterFill (o :: q) o t = if o.left = t then q else o.fill t :: q := by
  rw [afterFill]
  have h1 : without _ _ ([] ++ o :: q) = [] ++ q := without_split hn
  have h2 : amend _ _ (fun o => NewOrder.fill o t) ([] ++ o :: q) = [] ++ o.fill t :: q := amend_split hn
  rw [List.nil_append] at h1 h2
  rw [h1, h2]
  rfl

theorem ids_afterFill_sublist (l : List NewOrder) (o : NewOrder) (t : QuantityLots) :
    ((afterFill l o t).map NewOrder.order_id).Sublist (l.map NewOrder.order_id) := by
  rw [afterFill]
  split
  · exact (without_sublist _ _).map _
  · rw [map_amend NewOrder.order_id (f := fun o => NewOrder.fill o t) fun _ _ _ => rfl]

theorem ids_afterFill {l : List NewOrder} (hn : (l.map NewOrder.order_id).Nodup) (o : NewOrder) (t : QuantityLots) :
    ((afterFill l o t).map NewOrder.order_id).Nodup :=
  hn.sublist (ids_afterFill_sublist l o t)

theorem afterFill_of_notMem {l : List NewOrder} {o : NewOrder} (h : o.order_id ∉ l.map NewOrder.order_id)
    (t : QuantityLots) : afterFill l o t = l := by
  rw [afterFill, without_of_notMem h, amend_of_notMem h, ite_self]

theorem sound_afterFill {l : List NewOrder} (hn : (l.map NewOrder.order_id).Nodup) (hs : ∀ x ∈ l, x.Sound)
    {o : NewOrder} (ho : o ∈ l) {t : QuantityLots} (ht : val t ≤ val o.left) : ∀ x ∈ afterFill l o t, x.Sound := by
  intro x hx
  rcases mem_afterFill hx with ⟨hx, -⟩ | ⟨-, y, hy, hid, rfl⟩
  · exact hs x hx
  · obtain rfl := List.inj_on_of_nodup_map hn hy ho hid
    exact NewOrder.fill_sound (hs _ hy) ht

/-- A fill uses up the maker just when nothing is left of it. -/
theorem fill_left_zero {o : NewOrder} (hs : o.Sound) {t : QuantityLots} (ht : val t ≤ val o.left) :
    QuantityLots.is_zero (o.fill t).left = true ↔ o.left = t := by
  rw [is_zero_iff, NewOrder.fill_left hs ht, ← val_inj (a := o.left)]; omega

theorem Next.mem {s : Side} {l : List NewOrder} {o : NewOrder} (h : Next s l o) : o ∈ l ∧ o.side = s := by
  obtain ⟨h1, h2, -⟩ := mem_levelAt.1 (List.mem_of_head? h.head)
  exact ⟨h1, h2⟩

theorem Next.unique {s : Side} {l : List NewOrder} {o o' : NewOrder} (h : Next s l o) (h' : Next s l o') : o = o' := by
  have hp : o.price = o'.price :=
    (h.best o' h'.mem.1 h'.mem.2).antisymm (h'.best o h.mem.1 h.mem.2)
  have := h.head
  rw [hp, h'.head] at this
  exact (Option.some.inj this).symm

/-! ## Chains of fills -/

namespace Fills
variable {s : Side} {limit : PriceTicks} {l l' l'' : List NewOrder} {r r' r'' : UInt64} {fs fs' : List Fill}

theorem trans (h : Fills s limit l r fs l' r') (h' : Fills s limit l' r' fs' l'' r'') :
    Fills s limit l r (fs ++ fs') l'' r'' := by
  induction h with
  | nil => exact h'
  | cons hr hn hc _ ih => exact .cons hr hn hc (ih h')

theorem snoc {o : NewOrder} (h : Fills s limit l r fs l' r') (hr : 0 < val r') (hn : Next s l' o)
    (hc : Crosses s o.price limit) :
    Fills s limit l r (fs ++ [Fill.of o (min r' o.left)]) (afterFill l' o (min r' o.left)) (r' - min r' o.left) :=
  h.trans (.cons hr hn hc .nil)

theorem left_le (h : Fills s limit l r fs l' r') : val r' ≤ val r := by
  induction h with
  | nil => exact le_refl _
  | @cons _ r o _ _ _ _ _ _ _ ih =>
    have h1 := u64_min r o.left
    have h2 := (u64_bounds (min r o.left)).1
    rw [u64_sub (by omega)] at ih
    omega

theorem sum (h : Fills s limit l r fs l' r') : (fs.map fun f => val f.quantity).sum = val r - val r' := by
  induction h with
  | nil => exact (Int.sub_self _).symm
  | @cons _ r o _ _ _ _ _ _ _ ih =>
    have hmin := u64_min r o.left
    rw [u64_sub (by omega)] at ih
    have hq : (Fill.of o (min r o.left)).quantity = min r o.left := rfl
    rw [List.map_cons, List.sum_cons, ih, hq]
    omega

/-- What a fill of one maker keeps, all fills keep. -/
theorem keeps (h : Fills s limit l r fs l' r') {P : List NewOrder → Prop}
    (step : ∀ {l o t}, P l → o ∈ l → o.side = s → P (afterFill l o t)) (hp : P l) : P l' := by
  induction h with
  | nil => exact hp
  | cons _ hn _ _ ih => exact ih (step hp hn.mem.1 hn.mem.2)

/-- Fills leave the other side alone. -/
theorem levelAt_other (h : Fills s limit l r fs l' r') (hn : (l.map NewOrder.order_id).Nodup) (s' : Side) (hs : s' ≠ s)
    (p : PriceTicks) : levelAt l' s' p = levelAt l s' p := by
  refine (h.keeps (P := fun l' => (l'.map NewOrder.order_id).Nodup ∧ levelAt l' s' p = levelAt l s' p) ?_ ⟨hn, rfl⟩).2
  rintro l₁ o t ⟨hn₁, hl⟩ ho hos
  refine ⟨ids_afterFill hn₁ o t, ?_⟩
  rw [levelAt_afterFill, afterFill_of_notMem, hl]
  rintro hm
  obtain ⟨x, hx, hxo⟩ := List.mem_map.1 hm
  obtain ⟨hx, hxs, -⟩ := mem_levelAt.1 hx
  rw [List.inj_on_of_nodup_map hn₁ hx ho hxo] at hxs
  exact hs (hxs.symm.trans hos)

theorem ids_subset (h : Fills s limit l r fs l' r') : (l'.map NewOrder.order_id).Sublist (l.map NewOrder.order_id) :=
  h.keeps (P := fun l' => (l'.map NewOrder.order_id).Sublist (l.map NewOrder.order_id))
    (fun hl _ _ => (ids_afterFill_sublist _ _ _).trans hl) (.refl _)

/-- Matching to the end has one outcome. -/
theorem unique {l1 l2 : List NewOrder} {r1 r2 : UInt64} {fs1 fs2 : List Fill} (h1 : Fills s limit l r fs1 l1 r1)
    (e1 : Exhausted s limit l1 r1) (h2 : Fills s limit l r fs2 l2 r2) (e2 : Exhausted s limit l2 r2) :
    fs1 = fs2 ∧ l1 = l2 ∧ r1 = r2 := by
  have stuck : ∀ {l r o}, Exhausted s limit l r → 0 < val r → Next s l o → ¬Crosses s o.price limit := by
    rintro l r o (h0 | h) hr hn
    · omega
    · exact h o hn.mem.1 hn.mem.2
  induction h1 generalizing fs2 with
  | nil =>
    cases h2 with
    | nil => exact ⟨rfl, rfl, rfl⟩
    | cons hr hn hc _ => exact absurd hc (stuck e1 hr hn)
  | cons hr hn hc _ ih =>
    cases h2 with
    | nil => exact absurd hc (stuck e2 hr hn)
    | cons hr' hn' hc' h2 =>
      cases hn.unique hn'
      obtain ⟨rfl, rfl, rfl⟩ := ih e1 h2
      exact ⟨rfl, rfl, rfl⟩

end Fills

/-! ## The loops of `match_order` -/

/-- The head of a level, with its slot. -/
theorem Holds.head {b : OrderBook} {l : List NewOrder} (h : Holds b l) {s : Side} {p : PriceTicks} {o : NewOrder}
    {q : List NewOrder} (hq : levelAt l s p = o :: q) :
    ∃ pre k post, Represents b (pre ++ (k, o) :: post) ∧ l = (pre ++ (k, o) :: post).map Prod.snd ∧
      b.head_slot s p = some k := by
  obtain ⟨L, hr, rfl⟩ := h
  rw [← queue_snd] at hq
  obtain ⟨⟨k, x⟩, q', hq', rfl, rfl⟩ := List.map_eq_cons_iff.1 hq
  have hm : (k, x) ∈ L := (mem_queue.1 (by rw [hq']; exact List.mem_cons_self)).1
  obtain ⟨pre, post, rfl⟩ := List.append_of_mem hm
  exact ⟨pre, k, post, hr, rfl, by rw [hr.head_slot_eq, hq']; rfl⟩

theorem Holds.head_none {b : OrderBook} {l : List NewOrder} (h : Holds b l) {s : Side} {p : PriceTicks}
    (hq : levelAt l s p = []) : b.head_slot s p = none := by
  obtain ⟨L, hr, rfl⟩ := h
  rw [← queue_snd, List.map_eq_nil_iff] at hq
  rw [hr.head_slot_eq, hq]
  rfl

/-- A pass with quantity left trades with the head of the level. -/
theorem match_level_body_ok {st : MatchState} {l : List NewOrder} {s : Side} {p : PriceTicks} {o : NewOrder}
    {q : List NewOrder} (h : Holds st.book l) (hr : 0 < val st.remaining) (hq : levelAt l s p = o :: q) :
    ∃ book, match_level_body s p st = .ok (.cont {
        book := book
        remaining := st.remaining - min st.remaining o.left
        fills := st.fills ++ [Fill.of o (min st.remaining o.left)] }) ∧
      Holds book (afterFill l o (min st.remaining o.left)) ∧ book.capacity = st.book.capacity := by
  have hm := mem_levelAt.1 (show o ∈ levelAt l s p by rw [hq]; exact List.mem_cons_self)
  have hso := h.sound hm.1
  obtain ⟨pre, k, post, hrep, rfl, hslot⟩ := h.head hq
  obtain ⟨node, hnode, rfl⟩ := hrep.node_of_mem (e := (k, o)) (List.mem_append_right _ List.mem_cons_self)
  have ht : val (min st.remaining node.toNewOrder.left) ≤ val node.toNewOrder.left := by rw [u64_min]; omega
  obtain ⟨node', book, hfill, hn', hbook, hcap⟩ := Holds.fill_maker_ok hrep ht
  refine ⟨book, ?_, hbook, hcap⟩
  have hso' : node'.toNewOrder.Sound := by rw [hn']; exact NewOrder.fill_sound hso ht
  rw [match_level_body, if_pos (u64_lt.2 hr), hslot]
  simp only [OrderBook.node, hnode, idx_some, ok_bind, OrderNode.remaining_eq hso, hfill, OrderNode.remaining_eq hso',
    pure_eq, hn', Fill.of, hm.2.2]
  rfl

/-- Passes of the loops: each takes an order off the book or the last of the taker's quantity. -/
def MatchState.measure (st : MatchState) : Nat := st.book.orders.len + if 0 < val st.remaining then 1 else 0

theorem measure_afterFill {l : List NewOrder} (hn : (l.map NewOrder.order_id).Nodup) {o : NewOrder} (ho : o ∈ l)
    (r : UInt64) :
    (afterFill l o (min r o.left)).length + (if 0 < val (r - min r o.left) then 1 else 0) < l.length + 1 := by
  have hmin := u64_min r o.left
  have hsub : val (r - min r o.left) = val r - val (min r o.left) := u64_sub (by omega)
  rw [afterFill]
  by_cases hf : o.left = min r o.left
  · rw [if_pos hf]
    have := length_without hn ho
    split <;> omega
  · have hne : val o.left ≠ val (min r o.left) := fun he => hf (val_inj.1 he)
    rw [if_neg hf, length_amend, if_neg (by omega)]
    omega

/-- What a loop of the matching keeps: the fills so far lead from the start to the state. -/
structure Matching (s : Side) (limit : PriceTicks) (l : List NewOrder) (r : UInt64) (capacity : Nat) (st : MatchState)
    (l' : List NewOrder) : Prop where
  book : Holds st.book l'
  capacity : st.book.capacity = capacity
  fills : Fills s limit l r st.fills l' st.remaining

theorem Matching.measure_eq {s : Side} {limit : PriceTicks} {l₀ l : List NewOrder} {r : UInt64} {capacity : Nat}
    {st : MatchState} (h : Matching s limit l₀ r capacity st l) :
    st.measure = l.length + if 0 < val st.remaining then 1 else 0 := by
  rw [MatchState.measure, h.book.len]

/-- The inner loop trades at one price until the level or the quantity is used up. -/
theorem match_level_ok {s : Side} {limit p : PriceTicks} {l₀ l : List NewOrder} {r : UInt64} {capacity : Nat}
    {st : MatchState} (h : Matching s limit l₀ r capacity st l) (hr : 0 < val st.remaining)
    (hne : levelAt l s p ≠ []) (hlim : Crosses s p limit) (hbest : ∀ x ∈ l, x.side = s → Crosses s p x.price) :
    ∃ st', loop (match_level_body s p) (st.book.orders.len + 2) st = .ok st' ∧
      ∃ l', Matching s limit l₀ r capacity st' l' ∧ st'.measure < st.measure := by
  refine loop_spec (match_level_body s p)
    (fun st' => ∃ l', Matching s limit l₀ r capacity st' l' ∧ (∀ x ∈ l', x.side = s → Crosses s p x.price) ∧
      ((st' = st ∧ l' = l) ∨ st'.measure < st.measure)) MatchState.measure _ ?_ _ st
    ⟨l, h, hbest, .inl ⟨rfl, rfl⟩⟩ (by rw [MatchState.measure]; split <;> omega)
  rintro st1 ⟨l1, h1, hb1, hprog⟩
  by_cases hr1 : 0 < val st1.remaining
  · cases hq : levelAt l1 s p with
    | nil =>
      refine ⟨.done st1, by rw [match_level_body, if_pos (u64_lt.2 hr1), h1.book.head_none hq]; rfl, l1, h1, ?_⟩
      rcases hprog with ⟨-, rfl⟩ | hlt
      · exact absurd hq hne
      · exact hlt
    | cons o q =>
      obtain ⟨hm, hs, rfl⟩ := mem_levelAt.1 (show o ∈ levelAt l1 s p by rw [hq]; exact List.mem_cons_self)
      obtain ⟨book, hbody, hbook, hcap⟩ := match_level_body_ok h1.book hr1 hq
      have hnext : Next s l1 o := ⟨by rw [hq]; rfl, hb1⟩
      have h2 : Matching s limit l₀ r capacity ⟨book, _, _⟩ _ :=
        ⟨hbook, hcap.trans h1.capacity, h1.fills.snoc hr1 hnext hlim⟩
      have hlt := measure_afterFill h1.book.ids hm st1.remaining
      have hm1 := h1.measure_eq
      have hm2 := h2.measure_eq
      rw [if_pos hr1] at hm1
      dsimp only at hm2
      refine ⟨_, hbody, ⟨_, h2, fun x hx hxs => ?_, .inr ?_⟩, by omega⟩
      · obtain ⟨y, hy, -, hys, hyp⟩ := side_of_afterFill hx
        rw [← hyp]; exact hb1 y hy (hys.trans hxs)
      · rcases hprog with ⟨rfl, -⟩ | hprog <;> omega
  · refine ⟨.done st1, by rw [match_level_body, if_neg (fun hh => hr1 (u64_lt.1 hh))]; rfl, l1, h1, ?_⟩
    rcases hprog with ⟨rfl, -⟩ | hlt
    · exact absurd hr hr1
    · exact hlt

/-- `match_order` trades by price and time until nothing is left to trade. -/
theorem match_order_ok {b : OrderBook} {l : List NewOrder} (h : Holds b l) (taker_side : Side) (limit : PriceTicks)
    (quantity : QuantityLots) :
    ∃ b' l' r' fills, match_order b taker_side limit quantity = .ok (b', quantity - r', fills) ∧ Holds b' l' ∧
      b'.capacity = b.capacity ∧ Fills taker_side.opposite limit l quantity fills l' r' ∧
      Exhausted taker_side.opposite limit l' r' := by
  obtain ⟨st', hloop, l', hm, hex⟩ := loop_spec (match_order_body taker_side.opposite limit)
    (fun st => ∃ l', Matching taker_side.opposite limit l quantity b.capacity st l') MatchState.measure
    (fun st => ∃ l', Matching taker_side.opposite limit l quantity b.capacity st l' ∧
      Exhausted taker_side.opposite limit l' st.remaining) (by
    rintro st ⟨l1, h1⟩
    by_cases hr1 : 0 < val st.remaining
    · rw [match_order_body, if_pos (u64_lt.2 hr1)]
      cases hp : st.book.next_eligible_price taker_side.opposite (some limit) with
      | none => exact ⟨_, rfl, l1, h1, .inr fun o ho hs => h1.book.next_eligible_none hp ho hs⟩
      | some p =>
        obtain ⟨hne, hlim, hbest⟩ := h1.book.next_eligible_some hp
        obtain ⟨st2, hloop, l2, h2, hlt⟩ := match_level_ok h1 hr1 hne hlim hbest
        refine ⟨.cont st2, ?_, ⟨l2, h2⟩, hlt⟩
        simp only [hloop, ok_bind, pure_eq]
    · exact ⟨.done st, by rw [match_order_body, if_neg (fun hh => hr1 (u64_lt.1 hh))]; rfl, l1, h1, .inl (by
        have := (u64_bounds st.remaining).1; omega)⟩)
    (b.orders.len + 2) ⟨b, quantity, []⟩ ⟨l, h, rfl, .nil⟩ (by
      dsimp only [MatchState.measure]; split <;> omega)
  refine ⟨st'.book, l', st'.remaining, st'.fills, ?_, hm.book, hm.capacity, hm.fills, hex⟩
  rw [match_order, hloop]
  rfl

end TradingLab
