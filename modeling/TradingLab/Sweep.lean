import TradingLab.Lib.Sorting
import TradingLab.MatchSpec
/-!
# Sweeping the book

The outcome of matching as one pass over a sorted list. The makers that a limit lets
trade are put in order of price, and of age at one price; the taker walks down that list
until its quantity is used up.
-/
open LabLib

namespace TradingLab

/-- Prices of a side with the best one lowest. -/
def Side.rank (side : Side) (price : PriceTicks) : Int :=
  match side with
  | .Buy => -val price
  | .Sell => val price

/-- The makers of a side that a limit lets trade: better prices first, older orders first at
one price. -/
def eligible (side : Side) (limit : PriceTicks) (l : List NewOrder) : List NewOrder :=
  orderBy (fun o => side.rank o.price) (l.filter fun o => o.side = side ∧ Crosses side o.price limit)

/-- The fills of a taker that walks down a list of makers. -/
def sweep : QuantityLots → List NewOrder → List Fill
  | _, [] => []
  | quantity, o :: makers =>
    if QuantityLots.is_zero quantity then []
    else Fill.of o (min quantity o.left) :: sweep (quantity - min quantity o.left) makers

/-- What the fills leave of an order. -/
def afterFills (fills : List Fill) (o : NewOrder) : Option NewOrder :=
  match fills.find? (·.maker_order_id = o.order_id) with
  | none => some o
  | some f => if f.maker_is_filled then none else some { o with cumulative_filled := f.maker_cumulative_filled }

section Sweep
variable {side : Side} {limit : PriceTicks} {l l' : List NewOrder} {o : NewOrder} {r r' : UInt64} {fills : List Fill}

theorem crosses_iff_rank {p q : PriceTicks} : Crosses side p q ↔ side.rank p ≤ side.rank q := by
  cases side with
  | Buy => exact neg_le_neg_iff.symm
  | Sell => exact Iff.rfl

theorem rank_inj {p q : PriceTicks} (h : side.rank p = side.rank q) : p = q :=
  Crosses.antisymm (crosses_iff_rank.2 h.le) (crosses_iff_rank.2 h.ge)

theorem mem_eligible : o ∈ eligible side limit l ↔ o ∈ l ∧ o.side = side ∧ Crosses side o.price limit := by
  simp [eligible]

theorem filter_eligible (k : Int) :
    (eligible side limit l).filter (fun o => side.rank o.price = k) =
      l.filter fun o => side.rank o.price = k ∧ o.side = side ∧ Crosses side o.price limit := by
  rw [eligible, filter_orderBy, List.filter_filter]
  exact List.filter_congr fun o _ => (Bool.decide_and ..).symm

/-- At a price that crosses, the makers are those of the level. -/
theorem filter_level {p : PriceTicks} (hp : Crosses side p limit) :
    (l.filter fun o => side.rank o.price = side.rank p ∧ o.side = side ∧ Crosses side o.price limit) = levelAt l side p := by
  refine List.filter_congr fun o _ => decide_eq_decide.2 ⟨fun h => ⟨h.2.1, rank_inj h.1⟩, fun h => ?_⟩
  rw [h.2]
  exact ⟨rfl, h.1, hp⟩

/-- The head of a level leaves the others as they were. -/
theorem levelAt_head (hn : (l.map NewOrder.order_id).Nodup) {p : PriceTicks} (h : (levelAt l side p).head? = some o) :
    levelAt l side p = o :: levelAt (without NewOrder.order_id o.order_id l) side p := by
  obtain ⟨rest, hlevel⟩ := List.head?_eq_some_iff.1 h
  have hids : ((o :: rest).map NewOrder.order_id).Nodup := by
    rw [← hlevel]
    exact hn.sublist (List.filter_sublist.map _)
  have hrest : without NewOrder.order_id o.order_id ([] ++ o :: rest) = rest := without_split hids
  have hcomm : levelAt (without NewOrder.order_id o.order_id l) side p =
      without NewOrder.order_id o.order_id (levelAt l side p) := by
    simp only [levelAt, without, List.filter_filter, Bool.and_comm]
  rw [hcomm, hlevel]
  exact congrArg (o :: ·) hrest.symm

/-- The maker that trades next comes first. -/
theorem eligible_next (hn : (l.map NewOrder.order_id).Nodup) (h : Next side l o) (hc : Crosses side o.price limit) :
    eligible side limit l = o :: eligible side limit (without NewOrder.order_id o.order_id l) := by
  have hsorted : (o :: eligible side limit (without NewOrder.order_id o.order_id l)).Pairwise
      fun a b => side.rank a.price ≤ side.rank b.price := by
    refine List.pairwise_cons.2 ⟨fun x hx => ?_, orderBy_pairwise _⟩
    obtain ⟨hx, hside, -⟩ := mem_eligible.1 hx
    exact crosses_iff_rank.1 (h.best x (mem_without.1 hx).1 hside)
  refine eq_of_filter_key (orderBy_pairwise _) hsorted fun k => ?_
  rw [filter_eligible, List.filter_cons, filter_eligible]
  by_cases hk : side.rank o.price = k
  · subst hk
    rw [if_pos (by simp), filter_level hc, filter_level hc]
    exact levelAt_head hn h.head
  · rw [if_neg (by simpa using hk), without, List.filter_filter]
    refine List.filter_congr fun x hx => ?_
    by_cases hid : x.order_id = o.order_id
    · rw [List.inj_on_of_nodup_map hn hx h.mem.1 hid]
      simp [hk]
    · simp [hid]

theorem sweep_zero (h : val r = 0) (makers : List NewOrder) : sweep r makers = [] := by
  cases makers with
  | nil => rfl
  | cons o makers => rw [sweep, if_pos (is_zero_iff.2 h)]

theorem sweep_cons (h : 0 < val r) (o : NewOrder) (makers : List NewOrder) :
    sweep r (o :: makers) = Fill.of o (min r o.left) :: sweep (r - min r o.left) makers := by
  rw [sweep, if_neg fun hzero => by rw [is_zero_iff] at hzero; omega]

theorem afterFills_cons (maker : NewOrder) (traded : QuantityLots) (fills : List Fill) (o : NewOrder) :
    afterFills (Fill.of maker traded :: fills) o =
      if maker.order_id = o.order_id then
        if QuantityLots.is_zero (maker.fill traded).left then none
        else some { o with cumulative_filled := (maker.fill traded).cumulative_filled }
      else afterFills fills o := by
  have hid : (Fill.of maker traded).maker_order_id = maker.order_id := rfl
  rw [afterFills, List.find?_cons, hid]
  by_cases h : maker.order_id = o.order_id
  · rw [if_pos h, decide_eq_true h]
    rfl
  · rw [if_neg h, decide_eq_false h]
    rfl

/-- A taker without quantity makes no fills. -/
theorem Fills.of_zero (h : Fills side limit l r fills l' r') (hr : val r = 0) : fills = [] ∧ l' = l ∧ r' = r := by
  cases h with
  | nil => exact ⟨rfl, rfl, rfl⟩
  | cons hpos => omega

/-- What matching to the end does is a sweep of the eligible makers. -/
structure Swept (side : Side) (limit : PriceTicks) (l : List NewOrder) (r : UInt64) (fills : List Fill)
    (l' : List NewOrder) (r' : UInt64) : Prop where
  walk : fills = sweep r (eligible side limit l)
  left : val r - val r' = min (val r) (openTotal (eligible side limit l))
  orders : l' = l.filterMap (afterFills fills)
  consumed : ∀ f ∈ fills.dropLast, f.maker_is_filled

theorem Fills.swept (h : Fills side limit l r fills l' r') (he : Exhausted side limit l' r')
    (hn : (l.map NewOrder.order_id).Nodup) (hs : ∀ o ∈ l, o.Sound) : Swept side limit l r fills l' r' := by
  induction h with
  | @nil l r =>
    have horders : l = l.filterMap (afterFills []) := (List.filterMap_some).symm
    rcases he with hzero | hnone
    · refine ⟨(sweep_zero hzero _).symm, ?_, horders, by simp⟩
      have := openTotal_nonneg (eligible side limit l)
      omega
    · have hempty : eligible side limit l = [] := by
        refine List.eq_nil_iff_forall_not_mem.2 fun o ho => ?_
        obtain ⟨ho, hside, hc⟩ := mem_eligible.1 ho
        exact hnone o ho hside hc
      have := (u64_bounds r).1
      refine ⟨by rw [hempty]; rfl, ?_, horders, by simp⟩
      rw [hempty, openTotal, List.map_nil, List.sum_nil]
      omega
  | @cons l r o fills l' r' hr hnext hc hfills ih =>
    obtain ⟨ho, -⟩ := hnext.mem
    have hmin := u64_min r o.left
    have hle : val (min r o.left) ≤ val o.left := by omega
    have hrest : val (r - min r o.left) = val r - val (min r o.left) := u64_sub (by omega)
    have hfilled := fill_left_zero (hs o ho) hle
    have hhead := eligible_next hn hnext hc
    have htotal := openTotal_nonneg (eligible side limit (without NewOrder.order_id o.order_id l))
    have hopen : openTotal (eligible side limit l) =
        val o.left + openTotal (eligible side limit (without NewOrder.order_id o.order_id l)) := by
      rw [hhead, openTotal, List.map_cons, List.sum_cons]
      rfl
    by_cases hfull : o.left = min r o.left
    · -- The maker leaves and the walk goes on behind it.
      have hafter : afterFill l o (min r o.left) = without NewOrder.order_id o.order_id l := if_pos hfull
      have h := ih he (ids_afterFill hn _ _) (sound_afterFill hn hs ho hle)
      rw [hafter] at h
      rw [← hfull] at hmin hrest
      refine ⟨?_, ?_, ?_, ?_⟩
      · rw [hhead, sweep_cons hr, h.walk]
      · have hleft := h.left
        rw [← hfull] at hleft
        omega
      · rw [h.orders, without, List.filterMap_filter]
        refine List.filterMap_congr fun x _ => ?_
        rw [afterFills_cons]
        by_cases hid : x.order_id = o.order_id
        · rw [if_neg (by simpa using hid), if_pos hid.symm, if_pos (hfilled.2 hfull)]
        · rw [if_pos (by simpa using hid), if_neg (Ne.symm hid)]
      · intro f hf
        cases fills with
        | nil => exact absurd hf List.not_mem_nil
        | cons g fills =>
          rcases List.mem_cons.1 hf with rfl | hf
          · exact hfilled.2 hfull
          · exact h.consumed f hf
    · -- The taker is used up and the maker keeps its place.
      have hafter : afterFill l o (min r o.left) = amend NewOrder.order_id o.order_id (·.fill (min r o.left)) l := if_neg hfull
      have hne : val o.left ≠ val (min r o.left) := fun h => hfull (val_inj.1 h)
      obtain ⟨rfl, rfl, rfl⟩ := hfills.of_zero (by omega)
      refine ⟨?_, by omega, ?_, by simp⟩
      · rw [hhead, sweep_cons hr, sweep_zero (by omega)]
      · rw [hafter, amend, ← List.filterMap_eq_map]
        refine List.filterMap_congr fun x hx => ?_
        rw [afterFills_cons]
        by_cases hid : x.order_id = o.order_id
        · rw [Function.comp_apply, if_pos hid, if_pos hid.symm, if_neg (fun hz => hfull (hfilled.1 hz)),
            List.inj_on_of_nodup_map hn hx ho hid]
          rfl
        · rw [Function.comp_apply, if_neg hid, if_neg (Ne.symm hid)]
          rfl

/-- The fills of a sweep are those of the first makers, in their order and at their prices. -/
theorem sweep_makers (quantity : QuantityLots) (makers : List NewOrder) :
    ∃ traded : List QuantityLots, traded.length ≤ makers.length ∧ sweep quantity makers = List.zipWith Fill.of makers traded := by
  induction makers generalizing quantity with
  | nil => exact ⟨[], le_rfl, rfl⟩
  | cons o makers ih =>
    by_cases hzero : QuantityLots.is_zero quantity
    · exact ⟨[], Nat.zero_le _, by rw [sweep, if_pos hzero, List.zipWith_nil_right]⟩
    · obtain ⟨traded, hlength, hsweep⟩ := ih (quantity - min quantity o.left)
      exact ⟨min quantity o.left :: traded, Nat.succ_le_succ hlength, by
        rw [sweep, if_neg hzero, hsweep, List.zipWith_cons_cons]⟩

/-- `match_order` ends, and its fills are those of a walk down the makers that the limit
lets trade, by price and then by age: each at the maker's own price, all makers but the
last used up. Makers that are used up leave the book, the last one keeps what is left
of it, and all other orders stay as and where they were. -/
theorem match_order_sweeps {b : OrderBook} (h : Holds b l) (taker_side : Side) (limit : PriceTicks)
    (quantity : QuantityLots) :
    let makers := eligible taker_side.opposite limit l
    ∃ b' filled fills, match_order b taker_side limit quantity = .ok (b', filled, fills) ∧
      fills = sweep quantity makers ∧
      (∃ traded : List QuantityLots, traded.length ≤ makers.length ∧ fills = List.zipWith Fill.of makers traded) ∧
      (∀ f ∈ fills.dropLast, f.maker_is_filled) ∧
      val filled = min (val quantity) (openTotal makers) ∧
      Holds b' (l.filterMap (afterFills fills)) := by
  intro makers
  obtain ⟨b', l', r', fills, hmatch, hb', -, hfills, hex⟩ := match_order_ok h taker_side limit quantity
  have hswept := hfills.swept hex h.ids fun o ho => h.sound ho
  refine ⟨b', _, fills, hmatch, hswept.walk, ?_, hswept.consumed, ?_, hswept.orders ▸ hb'⟩
  · rw [hswept.walk]
    exact sweep_makers quantity makers
  · rw [u64_sub hfills.left_le]
    exact hswept.left

/-- Three offers, the last at the best price and partly filled. -/
def smallOffers : List NewOrder :=
  [⟨1, 1, 1, .Sell, 101, 2, 0, 1⟩, ⟨2, 1, 2, .Sell, 103, 4, 0, 2⟩, ⟨3, 2, 1, .Sell, 100, 5, 3, 3⟩]

theorem holds_smallOffers : ∃ b, Holds b smallOffers := by
  have insert {l : List NewOrder} (o : NewOrder) (hid : o.order_id ∉ l.map NewOrder.order_id) (hs : o.Sound)
      (hlength : l.length < 4) (hlevel : levelAt l o.side o.price = []) :
      (∃ b, Holds b l ∧ b.capacity = 4) → ∃ b, Holds b (l ++ [o]) ∧ b.capacity = 4 := by
    rintro ⟨b, hb, hcap⟩
    obtain ⟨b', -, hb', hcap'⟩ := hb.insert_ok hid hs (by rw [hcap]; exact hlength)
      ((hb.level_overflows_iff ..).2 (.inl hlevel))
    exact ⟨b', hb', hcap'.trans hcap⟩
  obtain ⟨b, hb, -⟩ := insert ⟨3, 2, 1, .Sell, 100, 5, 3, 3⟩ (by decide) (by decide) (by decide) rfl
    (insert ⟨2, 1, 2, .Sell, 103, 4, 0, 2⟩ (by decide) (by decide) (by decide) rfl
      (insert ⟨1, 1, 1, .Sell, 101, 2, 0, 1⟩ (by decide) (by decide) (by decide) rfl ⟨_, .empty freeListAllocator 4, rfl⟩))
  exact ⟨b, hb⟩

theorem match_order_sweeps_small : ∃ b b' filled, Holds b smallOffers ∧
    match_order b .Buy 102 3 = .ok (b', filled,
      [Fill.of ⟨3, 2, 1, .Sell, 100, 5, 3, 3⟩ 2, Fill.of ⟨1, 1, 1, .Sell, 101, 2, 0, 1⟩ 1]) ∧
    Holds b' [⟨1, 1, 1, .Sell, 101, 2, 1, 1⟩, ⟨2, 1, 2, .Sell, 103, 4, 0, 2⟩] := by
  obtain ⟨b, hb⟩ := holds_smallOffers
  obtain ⟨b', filled, fills, hmatch, hfills, -, -, -, hb'⟩ := match_order_sweeps hb .Buy 102 3
  have hwalk : sweep 3 (eligible Side.Buy.opposite 102 smallOffers) =
      [Fill.of ⟨3, 2, 1, .Sell, 100, 5, 3, 3⟩ 2, Fill.of ⟨1, 1, 1, .Sell, 101, 2, 0, 1⟩ 1] := by decide
  rw [hwalk] at hfills
  subst hfills
  exact ⟨b, b', filled, hb, hmatch, hb'⟩

end Sweep

end TradingLab
