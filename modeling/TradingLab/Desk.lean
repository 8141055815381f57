import TradingLab.MatchSpec
/-!
# The trading desk

What the engine is for, without its bookkeeping: each instrument has a list of
resting orders, oldest first, each account has a signed position in each
instrument, and at most one order is in flight between the two. Reservations
and order maps are not part of the desk; they can be computed from the lists.

A `Step` is one thing the desk can do. Its guards say when; `Step.inv` shows
that every step keeps the desk sound, and later modules show that every request
to the engine is a sequence of steps.
-/
open LabLib

namespace TradingLab

/-! ## Orders by what never changes -/

/-- What an order keeps for life. -/
structure Tag where
  order_id : OrderId
  account : AccountId
  client_order_id : ClientOrderId
  side : Side
deriving DecidableEq

def NewOrder.tag (o : NewOrder) : Tag := ⟨o.order_id, o.account, o.client_order_id, o.side⟩

theorem tag_eq_iff {x y : NewOrder} : x.tag = y.tag ↔ x.order_id = y.order_id ∧ x.account = y.account ∧
    x.client_order_id = y.client_order_id ∧ x.side = y.side := by
  simp only [NewOrder.tag, Tag.mk.injEq]

/-- An order on its way through matching: accepted, and not yet at rest or gone. -/
structure Flight (n m : Nat) where
  account_index : Fin m
  instrument_index : Fin n
  tag : Tag
  left : UInt64

/-- A trade: who bought and sold, as positions in the engine's tables. -/
structure Move (n m : Nat) where
  instrument : Fin n
  taker : Fin m
  maker : Fin m
  aggressor : Side
  quantity : UInt64

structure Desk (n m : Nat) where
  owner : AccountId → Option (Fin m)
  book : Fin n → List NewOrder
  lots : Fin m → Fin n → Int
  flight : Option (Flight n m)
  next_order_id : UInt64
  next_priority : UInt64

/-! ## Quantities -/

/-- The open quantity of the orders, each times its weight. -/
def weighed (c : NewOrder → Int) (l : List NewOrder) : Int := (l.map fun o => val o.left * c o).sum

/-- One for the orders of an account on a side. -/
def share {m : Nat} (owner : AccountId → Option (Fin m)) (a : Fin m) (s : Side) (o : NewOrder) : Int :=
  if owner o.account = some a ∧ o.side = s then 1 else 0

/-- The sign of a trade for the party on a side. -/
def Side.sign : Side → Int
  | .Buy => 1
  | .Sell => -1

@[simp] theorem sign_opposite (s : Side) : s.opposite.sign = -s.sign := by cases s <;> rfl

/-- What a trade does to the position of an account in an instrument. -/
def Move.delta {n m : Nat} (v : Move n m) (a : Fin m) (i : Fin n) : Int :=
  if v.instrument = i then
    (if v.taker = a then v.aggressor.sign * val v.quantity else 0) +
      (if v.maker = a then v.aggressor.opposite.sign * val v.quantity else 0)
  else 0

namespace Desk
variable {n m : Nat} (d : Desk n m)

/-- Lots the resting orders of an account hold reserved. -/
def reserved (a : Fin m) (i : Fin n) (s : Side) : Int := weighed (share d.owner a s) (d.book i)

/-- Their notional at the order prices. -/
def notional (a : Fin m) (i : Fin n) (s : Side) : Int :=
  weighed (fun o => share d.owner a s o * |val o.price|) (d.book i)

/-- The quantity in flight. -/
def inFlight (a : Fin m) (i : Fin n) (s : Side) : Int :=
  match d.flight with
  | none => 0
  | some f => if f.account_index = a ∧ f.instrument_index = i ∧ f.tag.side = s then val f.left else 0

/-- What may still trade for an account on a side. -/
def exposure (a : Fin m) (i : Fin n) (s : Side) : Int := d.reserved a i s + d.inFlight a i s

/-- Whatever fills, the position of an account stays between two bounds. -/
def Within (a : Fin m) (lo hi : Int) : Prop :=
  ∀ i, d.lots a i + d.exposure a i .Buy ≤ hi ∧ lo ≤ d.lots a i - d.exposure a i .Sell

/-- The desk with another list of orders for one instrument. -/
def setBook (i : Fin n) (l : List NewOrder) : Desk n m := { d with book := Function.update d.book i l }

end Desk

/-! ## Steps -/

section Steps
variable {n m : Nat}
variable {lo hi : Fin m → Int}

/-- A new order in flight keeps its account within bounds, and reservations small enough for a signed word. -/
structure Admitted (lo hi : Fin m → Int) (d : Desk n m) (f : Flight n m) : Prop where
  small : d.reserved f.account_index f.instrument_index f.tag.side + val f.left ≤ 9223372036854775807
  buy : f.tag.side = .Buy →
    d.lots f.account_index f.instrument_index + (d.reserved f.account_index f.instrument_index .Buy + val f.left) ≤
      hi f.account_index
  sell : f.tag.side = .Sell →
    lo f.account_index ≤
      d.lots f.account_index f.instrument_index - (d.reserved f.account_index f.instrument_index .Sell + val f.left)

/-- One step of the desk, with the trades it makes. -/
inductive Step (lo hi : Fin m → Int) : Desk n m → List (Move n m) → Desk n m → Prop
  /-- A new order enters under the next order id. -/
  | submit {d : Desk n m} (f : Flight n m) : d.flight = none → val f.tag.order_id = val d.next_order_id + 1 →
      d.owner f.tag.account = some f.account_index →
      (∀ i, ∀ o ∈ d.book i, ¬(o.account = f.tag.account ∧ o.client_order_id = f.tag.client_order_id)) →
      Admitted lo hi d f →
      Step lo hi d [] { d with flight := some f, next_order_id := f.tag.order_id }
  /-- A resting order is taken back into flight. -/
  | requeue {d : Desk n m} (o : NewOrder) (f : Flight n m) : d.flight = none → o ∈ d.book f.instrument_index →
      f.tag = o.tag → d.owner o.account = some f.account_index →
      Admitted lo hi (d.setBook f.instrument_index
        (without NewOrder.order_id o.order_id (d.book f.instrument_index))) f →
      Step lo hi d [] { d.setBook f.instrument_index
        (without NewOrder.order_id o.order_id (d.book f.instrument_index)) with flight := some f }
  /-- The order in flight trades with a resting one. -/
  | fill {d : Desk n m} (f : Flight n m) (o : NewOrder) (maker : Fin m) (t : UInt64) : d.flight = some f →
      o ∈ d.book f.instrument_index → o.side = f.tag.side.opposite → d.owner o.account = some maker →
      0 < val t → val t ≤ val o.left → val t ≤ val f.left →
      Step lo hi d [⟨f.instrument_index, f.account_index, maker, f.tag.side, t⟩]
        { d.setBook f.instrument_index (afterFill (d.book f.instrument_index) o t) with
          lots := fun a i => d.lots a i +
            Move.delta ⟨f.instrument_index, f.account_index, maker, f.tag.side, t⟩ a i
          flight := some { f with left := f.left - t } }
  /-- The order in flight comes to rest behind all others, crossing none. -/
  | rest {d : Desk n m} (f : Flight n m) (o : NewOrder) : d.flight = some f → o.tag = f.tag → o.Sound →
      0 < val o.left → val o.left = val f.left → val o.priority = val d.next_priority + 1 →
      (∀ x ∈ d.book f.instrument_index, x.side = o.side.opposite → ¬Crosses x.side x.price o.price) →
      Step lo hi d [] { d.setBook f.instrument_index (d.book f.instrument_index ++ [o]) with
        flight := none, next_priority := o.priority }
  /-- The order in flight is done, filled or not. -/
  | leave {d : Desk n m} : Step lo hi d [] { d with flight := none }
  /-- The order in flight is refused by the book after it was given a priority. -/
  | refuse {d : Desk n m} (p : UInt64) : val p = val d.next_priority + 1 →
      Step lo hi d [] { d with flight := none, next_priority := p }
  | cancel {d : Desk n m} (i : Fin n) (o : NewOrder) : o ∈ d.book i →
      Step lo hi d [] (d.setBook i (without NewOrder.order_id o.order_id (d.book i)))
  /-- A lower total, still above the cumulative fill. -/
  | reduce {d : Desk n m} (i : Fin n) (o : NewOrder) (total : UInt64) : o ∈ d.book i →
      val o.cumulative_filled < val total → val total ≤ val o.total_quantity →
      Step lo hi d [] (d.setBook i
        (amend NewOrder.order_id o.order_id (fun o => { o with total_quantity := total }) (d.book i)))

/-- Steps one after another, with all their trades. -/
inductive Steps (lo hi : Fin m → Int) : Desk n m → List (Move n m) → Desk n m → Prop
  | refl {d} : Steps lo hi d [] d
  | snoc {d ms d' ms' d''} : Steps lo hi d ms d' → Step lo hi d' ms' d'' → Steps lo hi d (ms ++ ms') d''

theorem Steps.one {d d' : Desk n m} {ms : List (Move n m)} (h : Step lo hi d ms d') :
    Steps lo hi d ms d' := by
  simpa using Steps.snoc .refl h

theorem Steps.trans {d d' d'' : Desk n m} {ms ms' : List (Move n m)} (h : Steps lo hi d ms d')
    (h' : Steps lo hi d' ms' d'') : Steps lo hi d (ms ++ ms') d'' := by
  induction h' with
  | refl => simpa using h
  | snoc _ hs ih => rw [← List.append_assoc]; exact .snoc ih hs

/-- A property of desks that every step keeps is kept by all steps. -/
theorem Steps.induct {P : Desk n m → Prop} (step : ∀ {d d' ms}, Step lo hi d ms d' → P d → P d') {d d' : Desk n m}
    {ms : List (Move n m)} (h : Steps lo hi d ms d') (hd : P d) : P d' := by
  induction h with
  | refl => exact hd
  | snoc _ hs ih => exact step hs ih
end Steps

/-! ## What a change of a list does to its sums -/

section Sums
variable {c : NewOrder → Int} {l : List NewOrder}
variable {o : NewOrder}

theorem weighed_append (l' : List NewOrder) : weighed c (l ++ l') = weighed c l + weighed c l' := by
  simp [weighed]

/-- The list lost the quantity `q` of the order, and no weight saw another change. -/
def Draws (l : List NewOrder) (o : NewOrder) (q : Int) (l' : List NewOrder) : Prop :=
  ∀ g : AccountId → Side → PriceTicks → Int, weighed (fun x => g x.account x.side x.price) l' =
    weighed (fun x => g x.account x.side x.price) l - q * g o.account o.side o.price

theorem draws_append (l : List NewOrder) (o : NewOrder) : Draws l o (-val o.left) (l ++ [o]) := by
  intro g
  rw [weighed_append]
  simp [weighed]

theorem draws_without (hn : (l.map NewOrder.order_id).Nodup) (ho : o ∈ l) :
    Draws l o (val o.left) (without NewOrder.order_id o.order_id l) :=
  fun _ => sum_without hn ho _

theorem draws_amend (hn : (l.map NewOrder.order_id).Nodup) (ho : o ∈ l) (f : NewOrder → NewOrder)
    (hf : ∀ x, (f x).account = x.account ∧ (f x).side = x.side ∧ (f x).price = x.price) :
    Draws l o (val o.left - val (f o).left) (amend NewOrder.order_id o.order_id f l) := by
  intro g
  have := sum_amend hn ho f fun x => val x.left * g x.account x.side x.price
  simp only [(hf o).1, (hf o).2.1, (hf o).2.2] at this
  rw [weighed, this, weighed]; ring

theorem draws_afterFill (hn : (l.map NewOrder.order_id).Nodup) (ho : o ∈ l) (hs : o.Sound) {t : UInt64}
    (ht : val t ≤ val o.left) : Draws l o (val t) (afterFill l o t) := by
  rw [afterFill]
  split
  · rename_i hf
    rw [← hf]
    exact draws_without hn ho
  · have h := draws_amend hn ho (fun o => o.fill t) fun _ => ⟨rfl, rfl, rfl⟩
    rwa [NewOrder.fill_left hs ht, Int.sub_sub_self] at h

theorem draws_set_total (hn : (l.map NewOrder.order_id).Nodup) (ho : o ∈ l) (hs : o.Sound) {total : UInt64}
    (ht : val o.cumulative_filled ≤ val total) : Draws l o (val o.total_quantity - val total)
      (amend NewOrder.order_id o.order_id (fun o => { o with total_quantity := total }) l) := by
  have h := draws_amend hn ho (fun o => { o with total_quantity := total }) fun _ => ⟨rfl, rfl, rfl⟩
  have hs' : NewOrder.Sound { o with total_quantity := total } := ht
  rw [NewOrder.left_val hs, NewOrder.left_val hs'] at h
  rwa [show val o.total_quantity - val total = val o.total_quantity - val o.cumulative_filled -
    (val total - val o.cumulative_filled) by ring]

theorem weighed_nonneg (hc : ∀ o, 0 ≤ c o) : 0 ≤ weighed c l :=
  sum_nonneg_of fun o _ => Int.mul_nonneg o.left_nonneg (hc o)
end Sums

theorem share_nonneg {m : Nat} (owner : AccountId → Option (Fin m)) (a : Fin m) (s : Side) (o : NewOrder) :
    0 ≤ share owner a s o := by
  rw [share]; split <;> decide

/-! ## Soundness of the lists -/

section Soundness
variable {n m : Nat} {d : Desk n m}
variable {lo hi : Fin m → Int} {ms : List (Move n m)} {o : NewOrder} {d' : Desk n m} {f : Flight n m} {i : Fin n}
  {a : Fin m} {l l' : List NewOrder} {lo' hi' : Int} {t : UInt64}

/-- The resting orders: distinct ids and client keys, working, owned, in order of priority, not crossed. -/
structure Listed (d : Desk n m) : Prop where
  ids : ∀ i, ((d.book i).map NewOrder.order_id).Nodup
  apart : ∀ {i j x y}, x ∈ d.book i → y ∈ d.book j → x.order_id = y.order_id → i = j
  keys : ∀ {i j x y}, x ∈ d.book i → y ∈ d.book j → x.account = y.account →
    x.client_order_id = y.client_order_id → x.order_id = y.order_id
  issued : ∀ {i o}, o ∈ d.book i → val o.order_id ≤ val d.next_order_id
  working : ∀ {i o}, o ∈ d.book i → o.Sound ∧ 0 < val o.left
  owned : ∀ {i o}, o ∈ d.book i → ∃ a, d.owner o.account = some a
  sorted : ∀ i, (d.book i).Pairwise fun x y => x.priority < y.priority
  behind : ∀ {i o}, o ∈ d.book i → val o.priority ≤ val d.next_priority
  uncrossed : ∀ {i x y}, x ∈ d.book i → y ∈ d.book i → x.side = .Buy → y.side = .Sell → x.price < y.price

/-- The order in flight is issued and owned, and no resting order has its id or its key. -/
structure FlightOk (d : Desk n m) (f : Flight n m) : Prop where
  owner : d.owner f.tag.account = some f.account_index
  issued : val f.tag.order_id ≤ val d.next_order_id
  fresh : ∀ {i o}, o ∈ d.book i → o.order_id ≠ f.tag.order_id
  key : ∀ {i o}, o ∈ d.book i → ¬(o.account = f.tag.account ∧ o.client_order_id = f.tag.client_order_id)

/-- A sound desk. -/
structure Inv (d : Desk n m) : Prop extends Listed d where
  flight : ∀ f, d.flight = some f → FlightOk d f
  small : ∀ a i s, d.exposure a i s ≤ 9223372036854775807
  headroom : ∀ a, d.Within a (-9223372036854775808) 9223372036854775807

/-- Orders left, or kept everything but their quantities. -/
structure Shrinks (l l' : List NewOrder) : Prop where
  source : ∀ x ∈ l', ∃ y ∈ l, x.tag = y.tag ∧ x.price = y.price ∧ x.priority = y.priority ∧ x.Sound ∧ 0 < val x.left
  ids : (l'.map NewOrder.order_id).Nodup
  sorted : l'.Pairwise fun x y => x.priority < y.priority

theorem mem_setBook {i j : Fin n} :
    o ∈ (d.setBook i l).book j ↔ if j = i then o ∈ l else o ∈ d.book j := by
  simp only [Desk.setBook, Function.update_apply]
  split <;> rfl

theorem Shrinks.mem {i j : Fin n} (h : Shrinks (d.book i) l') (hl : Listed d) {x : NewOrder}
    (hx : x ∈ (d.setBook i l').book j) :
    ∃ y ∈ d.book j, x.tag = y.tag ∧ x.price = y.price ∧ x.priority = y.priority ∧ x.Sound ∧ 0 < val x.left := by
  rw [mem_setBook] at hx
  split at hx
  · rename_i hj; subst hj; exact h.source x hx
  · exact ⟨x, hx, rfl, rfl, rfl, hl.working hx⟩

theorem Listed.shrink (h : Listed d) (hs : Shrinks (d.book i) l') :
    Listed (d.setBook i l') where
  ids j := by
    simp only [Desk.setBook, Function.update_apply]
    split
    · exact hs.ids
    · exact h.ids j
  apart hx hy he := by
    obtain ⟨x', hx', tx, -⟩ := hs.mem h hx
    obtain ⟨y', hy', ty, -⟩ := hs.mem h hy
    exact h.apart hx' hy' ((tag_eq_iff.1 tx).1.symm.trans (he.trans (tag_eq_iff.1 ty).1))
  keys hx hy ha hc := by
    obtain ⟨x', hx', tx, -⟩ := hs.mem h hx
    obtain ⟨y', hy', ty, -⟩ := hs.mem h hy
    obtain ⟨ix, ax, cx, -⟩ := tag_eq_iff.1 tx
    obtain ⟨iy, ay, cy, -⟩ := tag_eq_iff.1 ty
    rw [ix, iy]
    exact h.keys hx' hy' (by rw [← ax, ← ay, ha]) (by rw [← cx, ← cy, hc])
  issued ho := by
    obtain ⟨y, hy, ty, -⟩ := hs.mem h ho
    rw [(tag_eq_iff.1 ty).1]; exact h.issued hy
  working ho := by
    obtain ⟨y, -, -, -, -, hw⟩ := hs.mem h ho
    exact hw
  owned ho := by
    obtain ⟨y, hy, ty, -⟩ := hs.mem h ho
    rw [(tag_eq_iff.1 ty).2.1]; exact h.owned hy
  sorted j := by
    simp only [Desk.setBook, Function.update_apply]
    split
    · exact hs.sorted
    · exact h.sorted j
  behind ho := by
    obtain ⟨y, hy, -, -, hp, -⟩ := hs.mem h ho
    rw [hp]; exact h.behind hy
  uncrossed hx hy sx sy := by
    obtain ⟨x', hx', tx, px, -⟩ := hs.mem h hx
    obtain ⟨y', hy', ty, py, -⟩ := hs.mem h hy
    rw [px, py]
    exact h.uncrossed hx' hy' ((tag_eq_iff.1 tx).2.2.2.symm.trans sx) ((tag_eq_iff.1 ty).2.2.2.symm.trans sy)

theorem FlightOk.shrink (h : FlightOk d f) (hl : Listed d) (hs : Shrinks (d.book i) l') :
    FlightOk (d.setBook i l') f where
  owner := h.owner
  issued := h.issued
  fresh ho := by
    obtain ⟨y, hy, ty, -⟩ := hs.mem hl ho
    rw [(tag_eq_iff.1 ty).1]; exact h.fresh hy
  key ho := by
    obtain ⟨y, hy, ty, -⟩ := hs.mem hl ho
    rw [(tag_eq_iff.1 ty).2.1, (tag_eq_iff.1 ty).2.2.1]; exact h.key hy

/-! ## The three ways a list shrinks -/

theorem shrinks_without (h : Listed d) (i : Fin n) (id : OrderId) :
    Shrinks (d.book i) (without NewOrder.order_id id (d.book i)) where
  source x hx := ⟨x, (mem_without.1 hx).1, rfl, rfl, rfl, h.working (mem_without.1 hx).1⟩
  ids := (h.ids i).sublist ((without_sublist _ _).map _)
  sorted := (h.sorted i).sublist (without_sublist _ _)

theorem shrinks_amend (h : Listed d) (ho : o ∈ d.book i) (f : NewOrder → NewOrder) (htag : ∀ x, (f x).tag = x.tag)
    (hprice : ∀ x, (f x).price = x.price) (hprio : ∀ x, (f x).priority = x.priority)
    (hw : (f o).Sound ∧ 0 < val (f o).left) :
    Shrinks (d.book i) (amend NewOrder.order_id o.order_id f (d.book i)) where
  source x hx := by
    rcases mem_amend.1 hx with ⟨hx, -⟩ | ⟨y, hy, hid, rfl⟩
    · exact ⟨x, hx, rfl, rfl, rfl, h.working hx⟩
    · obtain rfl := List.inj_on_of_nodup_map (h.ids i) hy ho hid
      exact ⟨_, hy, htag _, hprice _, hprio _, hw⟩
  ids := by
    rw [map_amend NewOrder.order_id fun x _ _ => (tag_eq_iff.1 (htag x)).1]
    exact h.ids i
  sorted := by
    have hmap : (amend NewOrder.order_id o.order_id f (d.book i)).map NewOrder.priority =
        (d.book i).map NewOrder.priority := map_amend _ fun x _ _ => hprio x
    have hsorted := h.sorted i
    rw [← List.pairwise_map (R := (· < ·)), ← hmap] at hsorted
    exact List.pairwise_map.1 hsorted

theorem shrinks_afterFill (h : Listed d) (ho : o ∈ d.book i) (ht : val t ≤ val o.left) :
    Shrinks (d.book i) (afterFill (d.book i) o t) := by
  rw [afterFill]
  split
  · exact shrinks_without h i _
  · rename_i hne
    have hs := (h.working ho).1
    refine shrinks_amend h ho (fun o => o.fill t) (fun _ => rfl) (fun _ => rfl) (fun _ => rfl)
      ⟨NewOrder.fill_sound hs ht, ?_⟩
    have hv : val o.left ≠ val t := fun he => hne (val_inj.1 he)
    rw [NewOrder.fill_left hs ht]; omega

theorem shrinks_set_total (h : Listed d) (ho : o ∈ d.book i) {total : UInt64} (ht : val o.cumulative_filled < val total) :
    Shrinks (d.book i)
      (amend NewOrder.order_id o.order_id (fun o => { o with total_quantity := total }) (d.book i)) := by
  have hs : NewOrder.Sound { o with total_quantity := total } := Int.le_of_lt ht
  refine shrinks_amend h ho _ (fun _ => rfl) (fun _ => rfl) (fun _ => rfl) ⟨hs, ?_⟩
  rw [NewOrder.left_val hs]
  exact Int.sub_pos.2 ht

/-! ## What steps do to quantities -/

theorem reserved_setBook (i : Fin n) (l : List NewOrder) (a : Fin m) (j : Fin n) (s : Side) :
    (d.setBook i l).reserved a j s = if j = i then weighed (share d.owner a s) l else d.reserved a j s := by
  simp only [Desk.reserved, Desk.setBook, Function.update_apply]
  split <;> rfl

theorem notional_setBook (i : Fin n) (l : List NewOrder) (a : Fin m) (j : Fin n) (s : Side) :
    (d.setBook i l).notional a j s =
      if j = i then weighed (fun o => share d.owner a s o * |val o.price|) l else d.notional a j s := by
  simp only [Desk.notional, Desk.setBook, Function.update_apply]
  split <;> rfl

theorem share_of_owner (ho : d.owner o.account = some a) (b : Fin m) (s : Side) :
    share d.owner b s o = if b = a ∧ s = o.side then 1 else 0 := by
  simp only [share, ho, Option.some.injEq, eq_comm]

/-- What a list loses, the account of the order has no longer reserved. -/
theorem reserved_draws {q : Int} (h : Draws (d.book i) o q l) (ho : d.owner o.account = some a) (b : Fin m) (j : Fin n)
    (s : Side) :
    (d.setBook i l).reserved b j s = d.reserved b j s - if b = a ∧ j = i ∧ s = o.side then q else 0 := by
  have hw : weighed (share d.owner b s) l = weighed (share d.owner b s) (d.book i) - q * share d.owner b s o :=
    h fun account side _ => if d.owner account = some b ∧ side = s then 1 else 0
  rw [reserved_setBook, hw, share_of_owner ho]
  by_cases hj : j = i
  · subst hj
    simp only [true_and, if_true, Desk.reserved]
    split <;> simp
  · rw [if_neg hj, if_neg fun hc => hj hc.2.1, Int.sub_zero]

theorem notional_draws {q : Int} (h : Draws (d.book i) o q l) (ho : d.owner o.account = some a) (b : Fin m) (j : Fin n)
    (s : Side) :
    (d.setBook i l).notional b j s =
      d.notional b j s - if b = a ∧ j = i ∧ s = o.side then q * |val o.price| else 0 := by
  have hw : weighed (fun o => share d.owner b s o * |val o.price|) l =
      weighed (fun o => share d.owner b s o * |val o.price|) (d.book i) - q * (share d.owner b s o * |val o.price|) :=
    h fun account side price => (if d.owner account = some b ∧ side = s then 1 else 0) * |val price|
  rw [notional_setBook, hw, share_of_owner ho]
  by_cases hj : j = i
  · subst hj
    simp only [true_and, if_true, Desk.notional]
    split <;> simp
  · rw [if_neg hj, if_neg fun hc => hj hc.2.1, Int.sub_zero]

theorem inFlight_none (h : d.flight = none) (a : Fin m) (i : Fin n) (s : Side) : d.inFlight a i s = 0 := by
  rw [Desk.inFlight, h]

theorem inFlight_some (h : d.flight = some f) (a : Fin m) (i : Fin n) (s : Side) :
    d.inFlight a i s = if f.account_index = a ∧ f.instrument_index = i ∧ f.tag.side = s then val f.left else 0 := by
  rw [Desk.inFlight, h]

theorem inFlight_nonneg (d : Desk n m) (a : Fin m) (i : Fin n) (s : Side) : 0 ≤ d.inFlight a i s := by
  rw [Desk.inFlight]
  split
  · exact le_refl _
  · split
    · exact (u64_bounds _).1
    · exact le_refl _

theorem reserved_nonneg (d : Desk n m) (a : Fin m) (i : Fin n) (s : Side) : 0 ≤ d.reserved a i s :=
  weighed_nonneg fun o => share_nonneg _ _ _ o

theorem exposure_nonneg (d : Desk n m) (a : Fin m) (i : Fin n) (s : Side) : 0 ≤ d.exposure a i s :=
  Int.add_nonneg (reserved_nonneg d a i s) (inFlight_nonneg d a i s)

theorem notional_nonneg (d : Desk n m) (a : Fin m) (i : Fin n) (s : Side) : 0 ≤ d.notional a i s :=
  weighed_nonneg fun o => Int.mul_nonneg (share_nonneg _ _ _ o) (abs_nonneg _)

/-- No price is larger than a signed word, so reserved notional is bounded by reserved lots. -/
theorem notional_le (d : Desk n m) (a : Fin m) (i : Fin n) (s : Side) :
    d.notional a i s ≤ 9223372036854775808 * d.reserved a i s := by
  rw [Desk.notional, Desk.reserved, weighed, weighed, ← List.sum_map_mul_left]
  refine List.sum_le_sum fun o _ => ?_
  have hp : |val o.price| ≤ 9223372036854775808 := by
    have := i64_bounds o.price
    exact abs_le.2 ⟨by omega, by omega⟩
  have h0 := Int.mul_nonneg o.left_nonneg (share_nonneg d.owner a s o)
  calc val o.left * (share d.owner a s o * |val o.price|) = val o.left * share d.owner a s o * |val o.price| := by ring
    _ ≤ val o.left * share d.owner a s o * 9223372036854775808 := Int.mul_le_mul_of_nonneg_left hp h0
    _ = 9223372036854775808 * (val o.left * share d.owner a s o) := by ring

/-- The positions are as before and nothing may trade that could not before. -/
structure Eases (d d' : Desk n m) : Prop where
  lots : d'.lots = d.lots
  exposure : ∀ a i s, d'.exposure a i s ≤ d.exposure a i s

theorem Eases.within (h : Eases d d') {lo hi : Int} (hw : d.Within a lo hi) :
    d'.Within a lo hi := by
  intro i
  have h1 := h.exposure a i .Buy
  have h2 := h.exposure a i .Sell
  have h3 := hw i
  rw [h.lots]
  omega

/-- A list with no more open quantity eases. -/
theorem eases_draws {q : Int} (h : Draws (d.book i) o q l) (ho : d.owner o.account = some a) (hq : 0 ≤ q) :
    Eases d (d.setBook i l) where
  lots := rfl
  exposure b j s := by
    have hf : (d.setBook i l).inFlight b j s = d.inFlight b j s := rfl
    rw [Desk.exposure, Desk.exposure, hf, reserved_draws h ho]
    split <;> omega

theorem eases_without (h : Listed d) (ho : o ∈ d.book i) :
    Eases d (d.setBook i (without NewOrder.order_id o.order_id (d.book i))) := by
  obtain ⟨a, ha⟩ := h.owned ho
  exact eases_draws (draws_without (h.ids i) ho) ha o.left_nonneg

theorem eases_set_total (h : Listed d) (ho : o ∈ d.book i) {total : UInt64} (h1 : val o.cumulative_filled < val total)
    (h2 : val total ≤ val o.total_quantity) :
    Eases d (d.setBook i
      (amend NewOrder.order_id o.order_id (fun o => { o with total_quantity := total }) (d.book i))) := by
  obtain ⟨a, ha⟩ := h.owned ho
  exact eases_draws (draws_set_total (h.ids i) ho (h.working ho).1 (Int.le_of_lt h1)) ha (Int.sub_nonneg.2 h2)

theorem eases_leave (d : Desk n m) (p : UInt64) : Eases d { d with flight := none, next_priority := p } where
  lots := rfl
  exposure a i s := by
    have h0 : Desk.inFlight { d with flight := none, next_priority := p } a i s = 0 := rfl
    have h1 : Desk.reserved { d with flight := none, next_priority := p } a i s = d.reserved a i s := rfl
    have h2 := inFlight_nonneg d a i s
    simp only [Desk.exposure, h0, h1]
    omega

/-- Coming to rest turns the quantity in flight into a reservation. -/
theorem exposure_rest {p : UInt64} (hf : d.flight = some f) (ht : o.tag = f.tag)
    (ho : d.owner f.tag.account = some f.account_index) (hl : val o.left = val f.left) (a : Fin m) (i : Fin n)
    (s : Side) :
    Desk.exposure { d.setBook f.instrument_index (d.book f.instrument_index ++ [o]) with
      flight := none, next_priority := p } a i s = d.exposure a i s := by
  have h0 : Desk.inFlight { d.setBook f.instrument_index (d.book f.instrument_index ++ [o]) with
      flight := none, next_priority := p } a i s = 0 := rfl
  have h1 : Desk.reserved { d.setBook f.instrument_index (d.book f.instrument_index ++ [o]) with
      flight := none, next_priority := p } a i s =
      (d.setBook f.instrument_index (d.book f.instrument_index ++ [o])).reserved a i s := rfl
  have hacc : o.account = f.tag.account := congrArg Tag.account ht
  have hside : o.side = f.tag.side := congrArg Tag.side ht
  rw [Desk.exposure, Desk.exposure, h0, h1, reserved_draws (draws_append _ _) (by rw [hacc]; exact ho), inFlight_some hf,
    hside, hl]
  simp only [eq_comm (a := f.account_index), eq_comm (a := f.instrument_index), eq_comm (a := f.tag.side)]
  split <;> omega

/-- An order entering flight adds its quantity, and nothing else changes. -/
theorem exposure_enter {id : UInt64} (hf : d.flight = none) (a : Fin m) (i : Fin n) (s : Side) :
    Desk.exposure { d with flight := some f, next_order_id := id } a i s = d.exposure a i s +
      if f.account_index = a ∧ f.instrument_index = i ∧ f.tag.side = s then val f.left else 0 := by
  have h0 : Desk.inFlight { d with flight := some f, next_order_id := id } a i s =
    if f.account_index = a ∧ f.instrument_index = i ∧ f.tag.side = s then val f.left else 0 := rfl
  have h1 : Desk.reserved { d with flight := some f, next_order_id := id } a i s = d.reserved a i s := rfl
  simp only [Desk.exposure, h0, h1, inFlight_none hf]
  omega

theorem within_enter (hf : d.flight = none) (ha : Admitted lo hi d f) (hlo : lo' ≤ lo a) (hhi : hi a ≤ hi')
    (hw : d.Within a lo' hi') (id : UInt64) :
    Desk.Within { d with flight := some f, next_order_id := id } a lo' hi' := by
  intro i
  have hwi := hw i
  rw [exposure_enter hf, exposure_enter hf]
  by_cases hc : f.account_index = a ∧ f.instrument_index = i
  · obtain ⟨rfl, rfl⟩ := hc
    simp only [Desk.exposure, inFlight_none hf] at hwi ⊢
    cases hs : f.tag.side with
    | Buy =>
      have := ha.buy hs
      simp only [true_and, reduceCtorEq, if_true, if_false]
      omega
    | Sell =>
      have := ha.sell hs
      simp only [true_and, reduceCtorEq, if_true, if_false]
      omega
  · rw [if_neg (fun h => hc ⟨h.1, h.2.1⟩), if_neg (fun h => hc ⟨h.1, h.2.1⟩)]
    simpa using hwi

/-- A fill takes its quantity from the maker's reservation and from the order in flight. -/
theorem exposure_fill (h : Listed d) {maker : Fin m} (hf : d.flight = some f) (ho : o ∈ d.book f.instrument_index)
    (hm : d.owner o.account = some maker) (hto : val t ≤ val o.left) (htf : val t ≤ val f.left)
    (lots : Fin m → Fin n → Int) (a : Fin m) (i : Fin n) (s : Side) :
    Desk.exposure { d.setBook f.instrument_index (afterFill (d.book f.instrument_index) o t) with
      lots := lots, flight := some { f with left := f.left - t } } a i s = d.exposure a i s -
        (if f.instrument_index = i then (if maker = a ∧ o.side = s then val t else 0) +
          (if f.account_index = a ∧ f.tag.side = s then val t else 0) else 0) := by
  have h0 : Desk.inFlight { d.setBook f.instrument_index (afterFill (d.book f.instrument_index) o t) with
      lots := lots, flight := some { f with left := f.left - t } } a i s =
      if f.account_index = a ∧ f.instrument_index = i ∧ f.tag.side = s then val (f.left - t) else 0 := rfl
  have h1 : Desk.reserved { d.setBook f.instrument_index (afterFill (d.book f.instrument_index) o t) with
      lots := lots, flight := some { f with left := f.left - t } } a i s =
      (d.setBook f.instrument_index (afterFill (d.book f.instrument_index) o t)).reserved a i s := rfl
  have hd := draws_afterFill (h.ids _) ho (h.working ho).1 hto
  rw [Desk.exposure, Desk.exposure, h0, h1, reserved_draws hd hm, inFlight_some hf, u64_sub htf]
  simp only [eq_comm (a := i), eq_comm (a := a), eq_comm (a := s)]
  by_cases hi : f.instrument_index = i
  · simp only [hi, true_and, if_true]
    split <;> split <;> omega
  · simp only [hi, false_and, and_false, if_false]
    omega

theorem within_fill (h : Listed d) {maker : Fin m} (hf : d.flight = some f) (ho : o ∈ d.book f.instrument_index)
    (hs : o.side = f.tag.side.opposite) (hm : d.owner o.account = some maker) (hto : val t ≤ val o.left)
    (htf : val t ≤ val f.left) {lo hi : Int} (hw : d.Within a lo hi) :
    Desk.Within { d.setBook f.instrument_index (afterFill (d.book f.instrument_index) o t) with
      lots := fun a i => d.lots a i + Move.delta ⟨f.instrument_index, f.account_index, maker, f.tag.side, t⟩ a i
      flight := some { f with left := f.left - t } } a lo hi := by
  intro i
  have hwi := hw i
  have ht := (u64_bounds t).1
  rw [exposure_fill h hf ho hm hto htf, exposure_fill h hf ho hm hto htf]
  simp only [Move.delta]
  by_cases hi : f.instrument_index = i
  · simp only [if_pos hi, hs]
    cases f.tag.side <;> simp only [Side.opposite, Side.sign, and_true, and_false, reduceCtorEq, if_false] <;>
      split <;> split <;> omega
  · simp only [if_neg hi]
    omega

/-! ## Steps keep the desk sound -/

/-- An order coming to rest keeps the lists sound: it is new, the last, and crosses nothing. -/
theorem Listed.rest (h : Listed d) (hok : FlightOk d f) (ht : o.tag = f.tag) (hs : o.Sound) (hp : 0 < val o.left)
    (hprio : val o.priority = val d.next_priority + 1)
    (hc : ∀ x ∈ d.book f.instrument_index, x.side = o.side.opposite → ¬Crosses x.side x.price o.price) :
    Listed { d.setBook f.instrument_index (d.book f.instrument_index ++ [o]) with
      flight := none, next_priority := o.priority } := by
  have hid : o.order_id = f.tag.order_id := congrArg Tag.order_id ht
  have hacc : o.account = f.tag.account := congrArg Tag.account ht
  have hcl : o.client_order_id = f.tag.client_order_id := congrArg Tag.client_order_id ht
  have hmem : ∀ {j x}, x ∈ (d.setBook f.instrument_index (d.book f.instrument_index ++ [o])).book j →
      x ∈ d.book j ∨ (j = f.instrument_index ∧ x = o) := by
    intro j x hx
    rw [mem_setBook] at hx
    split at hx
    · rename_i hj
      subst hj
      rcases List.mem_append.1 hx with hx | hx
      · exact .inl hx
      · exact .inr ⟨rfl, List.mem_singleton.1 hx⟩
    · exact .inl hx
  refine ⟨fun j => ?_, fun hx hy he => ?_, fun hx hy ha hk => ?_, fun ho => ?_, fun ho => ?_, fun ho => ?_, fun j => ?_,
    fun ho => ?_, fun hx hy sx sy => ?_⟩
  · simp only [Desk.setBook, Function.update_apply]
    split
    · rw [List.map_append]
      refine (h.ids _).append (List.nodup_singleton _) (List.disjoint_singleton.2 fun hm => ?_)
      obtain ⟨x, hx, hxe⟩ := List.mem_map.1 hm
      exact hok.fresh hx (hxe.trans hid)
    · exact h.ids j
  · rcases hmem hx with hx' | ⟨rfl, rfl⟩ <;> rcases hmem hy with hy' | ⟨rfl, rfl⟩
    · exact h.apart hx' hy' he
    · exact absurd (he.trans hid) (hok.fresh hx')
    · exact absurd (he.symm.trans hid) (hok.fresh hy')
    · rfl
  · rcases hmem hx with hx' | ⟨rfl, rfl⟩ <;> rcases hmem hy with hy' | ⟨rfl, rfl⟩
    · exact h.keys hx' hy' ha hk
    · exact absurd ⟨ha.trans hacc, hk.trans hcl⟩ (hok.key hx')
    · exact absurd ⟨ha.symm.trans hacc, hk.symm.trans hcl⟩ (hok.key hy')
    · rfl
  · rcases hmem ho with ho' | ⟨rfl, rfl⟩
    · exact h.issued ho'
    · rw [hid]; exact hok.issued
  · rcases hmem ho with ho' | ⟨rfl, rfl⟩
    · exact h.working ho'
    · exact ⟨hs, hp⟩
  · rcases hmem ho with ho' | ⟨rfl, rfl⟩
    · exact h.owned ho'
    · rw [hacc]; exact ⟨_, hok.owner⟩
  · simp only [Desk.setBook, Function.update_apply]
    split
    · refine List.pairwise_append.2 ⟨h.sorted _, List.pairwise_singleton _ _, fun x hx y hy => ?_⟩
      obtain rfl := List.mem_singleton.1 hy
      have := h.behind hx
      rw [u64_lt]; omega
    · exact h.sorted j
  · rcases hmem ho with ho' | ⟨rfl, rfl⟩
    · have := h.behind ho'
      exact Int.le_trans this (by rw [hprio]; omega)
    · exact le_refl _
  · rcases hmem hx with hx' | ⟨rfl, rfl⟩ <;> rcases hmem hy with hy' | ⟨hj, rfl⟩
    · exact h.uncrossed hx' hy' sx sy
    · rw [hj] at hx'
      have := hc _ hx' (by rw [sx, sy]; rfl)
      rw [sx] at this
      rw [i64_lt]
      exact Int.not_le.1 this
    · have := hc _ hy' (by rw [sx, sy]; rfl)
      rw [sy] at this
      rw [i64_lt]
      exact Int.not_le.1 this
    · rw [sx] at sy; cases sy

/-- A list with no order of the tag any more: the order can go into flight. -/
theorem flightOk_requeue (h : Listed d) (ho : o ∈ d.book f.instrument_index) (ht : f.tag = o.tag)
    (hown : d.owner o.account = some f.account_index) :
    FlightOk (d.setBook f.instrument_index (without NewOrder.order_id o.order_id (d.book f.instrument_index))) f := by
  have hid : f.tag.order_id = o.order_id := congrArg Tag.order_id ht
  have hacc : f.tag.account = o.account := congrArg Tag.account ht
  have hcl : f.tag.client_order_id = o.client_order_id := congrArg Tag.client_order_id ht
  have hfresh : ∀ {j x}, x ∈ (d.setBook f.instrument_index (without NewOrder.order_id o.order_id
      (d.book f.instrument_index))).book j → x ∈ d.book j ∧ x.order_id ≠ o.order_id := by
    intro j x hx
    rw [mem_setBook] at hx
    split at hx
    · rename_i hj; rw [hj]; exact mem_without.1 hx
    · rename_i hj
      exact ⟨hx, fun he => hj (h.apart hx ho he)⟩
  refine ⟨by rw [hacc]; exact hown, by rw [hid]; exact h.issued ho, fun hx => ?_, fun hx hk => ?_⟩
  · rw [hid]; exact (hfresh hx).2
  · refine (hfresh hx).2 (h.keys (hfresh hx).1 ho ?_ ?_)
    · rw [hk.1, hacc]
    · rw [hk.2, hcl]

/-- Bounds wide enough for every order the desk admits are kept. -/
theorem Step.within (hs : Step lo hi d ms d') (h : Inv d) (hlo : lo' ≤ lo a) (hhi : hi a ≤ hi')
    (hw : d.Within a lo' hi') :
    d'.Within a lo' hi' := by
  cases hs with
  | submit f hf _ _ _ hadm => exact within_enter hf hadm hlo hhi hw _
  | requeue o f hf ho _ _ hadm =>
    exact within_enter (d := d.setBook f.instrument_index _) hf hadm hlo hhi
      ((eases_without h.toListed ho).within hw) d.next_order_id
  | fill f o maker t hf ho hside hm _ hto htf => exact within_fill h.toListed hf ho hside hm hto htf hw
  | rest f o hf ht _ _ hl _ _ =>
    intro i
    rw [exposure_rest hf ht (h.flight f hf).owner hl, exposure_rest hf ht (h.flight f hf).owner hl]
    exact hw i
  | leave => exact (eases_leave d d.next_priority).within hw
  | refuse p _ => exact (eases_leave d p).within hw
  | cancel i o ho => exact (eases_without h.toListed ho).within hw
  | reduce i o total ho h1 h2 => exact (eases_set_total h.toListed ho h1 h2).within hw

theorem Step.small (hs : Step lo hi d ms d') (h : Inv d) (a : Fin m) (i : Fin n) (s : Side) :
    d'.exposure a i s ≤ 9223372036854775807 := by
  have hsm := h.small a i s
  have henter : ∀ {d : Desk n m} {f : Flight n m} (id : UInt64), d.flight = none → Admitted lo hi d f →
      d.exposure a i s ≤ 9223372036854775807 →
      Desk.exposure { d with flight := some f, next_order_id := id } a i s ≤ 9223372036854775807 := by
    intro d f id hf hadm hle
    rw [exposure_enter hf]
    split
    · rename_i hc
      obtain ⟨rfl, rfl, rfl⟩ := hc
      rw [Desk.exposure, inFlight_none hf, Int.add_zero]
      exact hadm.small
    · omega
  cases hs with
  | submit f hf _ _ _ hadm => exact henter _ hf hadm hsm
  | requeue o f hf ho _ _ hadm =>
    exact henter (d := d.setBook f.instrument_index _) d.next_order_id hf hadm
      (Int.le_trans ((eases_without h.toListed ho).exposure a i s) hsm)
  | fill f o maker t hf ho hside hm _ hto htf =>
    have ht := (u64_bounds t).1
    rw [exposure_fill h.toListed hf ho hm hto htf]
    split
    · split <;> split <;> omega
    · omega
  | rest f o hf ht _ _ hl _ _ => rw [exposure_rest hf ht (h.flight f hf).owner hl]; exact hsm
  | leave => exact Int.le_trans ((eases_leave d d.next_priority).exposure a i s) hsm
  | refuse p _ => exact Int.le_trans ((eases_leave d p).exposure a i s) hsm
  | cancel i' o ho => exact Int.le_trans ((eases_without h.toListed ho).exposure a i s) hsm
  | reduce i' o total ho h1 h2 => exact Int.le_trans ((eases_set_total h.toListed ho h1 h2).exposure a i s) hsm

theorem Step.listed (hs : Step lo hi d ms d') (h : Inv d) :
    Listed d' := by
  have hl := h.toListed
  cases hs with
  | submit f _ hid _ _ _ =>
    refine { hl with issued := fun ho => ?_ }
    have := hl.issued ho
    exact Int.le_trans this (by rw [hid]; omega)
  | requeue o f _ ho _ _ _ => exact { hl.shrink (shrinks_without hl f.instrument_index o.order_id) with }
  | fill f o maker t _ ho _ _ _ hto _ => exact { hl.shrink (shrinks_afterFill hl ho hto) with }
  | rest f o hf ht hsound hp _ hprio hc => exact hl.rest (h.flight f hf) ht hsound hp hprio hc
  | leave => exact { hl with }
  | refuse p hp =>
    refine { hl with behind := fun ho => ?_ }
    have := hl.behind ho
    exact Int.le_trans this (by rw [hp]; omega)
  | cancel i o ho => exact hl.shrink (shrinks_without hl i o.order_id)
  | reduce i o total ho h1 _ => exact hl.shrink (shrinks_set_total hl ho h1)

theorem Step.flightOk (hs : Step lo hi d ms d') (h : Inv d) (hf : d'.flight = some f) : FlightOk d' f := by
  have hl := h.toListed
  cases hs with
  | submit f' _ hid hown hkey _ =>
    obtain rfl : f' = f := by simpa using hf
    refine ⟨hown, le_refl _, fun {i o} ho he => ?_, fun ho => hkey _ _ ho⟩
    have := hl.issued (i := i) ho
    rw [he, hid] at this
    omega
  | requeue o f' _ ho ht hown _ =>
    obtain rfl : f' = f := by simpa using hf
    exact { flightOk_requeue hl ho ht hown with }
  | fill f' o maker t hf' ho _ _ _ hto _ =>
    obtain rfl : { f' with left := f'.left - t } = f := by simpa using hf
    exact { (h.flight f' hf').shrink hl (shrinks_afterFill hl ho hto) with }
  | rest => simp at hf
  | leave => simp at hf
  | refuse => simp at hf
  | cancel i o ho => exact (h.flight f hf).shrink hl (shrinks_without hl i o.order_id)
  | reduce i o total ho h1 _ => exact (h.flight f hf).shrink hl (shrinks_set_total hl ho h1)

/-- Bounds on what may be admitted that leave every position in a signed word. -/
def WordBounds (lo hi : Fin m → Int) : Prop := ∀ a, -9223372036854775808 ≤ lo a ∧ hi a ≤ 9223372036854775807

/-- Every step keeps the desk sound. -/
theorem Step.inv (hb : WordBounds lo hi) (hs : Step lo hi d ms d') (h : Inv d) : Inv d' where
  toListed := hs.listed h
  flight _ hf := hs.flightOk h hf
  small := hs.small h
  headroom a := hs.within h (hb a).1 (hb a).2 (h.headroom a)

theorem Inv.leave (h : Inv d) : Inv { d with flight := none } :=
  (Step.leave : Step (fun _ => 0) (fun _ => 0) d [] _).inv (fun _ => by decide) h

theorem Inv.cancel (h : Inv d) (ho : o ∈ d.book i) :
    Inv (d.setBook i (without NewOrder.order_id o.order_id (d.book i))) :=
  (Step.cancel i o ho : Step (fun _ => 0) (fun _ => 0) d [] _).inv (fun _ => by decide) h

theorem Steps.inv (hb : WordBounds lo hi) (hs : Steps lo hi d ms d') (h : Inv d) : Inv d' :=
  hs.induct (fun st => st.inv hb) h

theorem Steps.within (hb : WordBounds lo hi) (hs : Steps lo hi d ms d') (h : Inv d) (hlo : lo' ≤ lo a)
    (hhi : hi a ≤ hi') (hw : d.Within a lo' hi') : d'.Within a lo' hi' := by
  have step : ∀ {d d' : Desk n m} {ms}, Step lo hi d ms d' → Inv d ∧ d.Within a lo' hi' → Inv d' ∧ d'.Within a lo' hi' :=
    fun st hd => ⟨st.inv hb hd.1, st.within hd.1 hlo hhi hd.2⟩
  exact (hs.induct (P := fun d => Inv d ∧ d.Within a lo' hi') step ⟨h, hw⟩).2

/-! ## Orders keep their ids -/

/-- An order of an instrument, resting or in flight. -/
def Desk.Known (d : Desk n m) (i : Fin n) (t : Tag) : Prop :=
  (∃ o ∈ d.book i, o.tag = t) ∨ ∃ f, d.flight = some f ∧ f.instrument_index = i ∧ f.tag = t

/-- Every order was there before or has an id that was not issued then. -/
structure Evolves (d d' : Desk n m) : Prop where
  known : ∀ i t, d'.Known i t → d.Known i t ∨ val d.next_order_id < val t.order_id
  issued : val d.next_order_id ≤ val d'.next_order_id
  owner : d'.owner = d.owner

theorem Evolves.refl (d : Desk n m) : Evolves d d := ⟨fun _ _ h => .inl h, le_refl _, rfl⟩

theorem Evolves.trans {d' d'' : Desk n m} (h : Evolves d d') (h' : Evolves d' d'') : Evolves d d'' where
  known i t ht := by
    rcases h'.known i t ht with ht | ht
    · exact h.known i t ht
    · have := h.issued
      exact .inr (by omega)
  issued := Int.le_trans h.issued h'.issued
  owner := h'.owner.trans h.owner

theorem Evolves.shrink (h : Listed d) (hs : Shrinks (d.book i) l') :
    Evolves d (d.setBook i l') where
  known j t ht := by
    left
    rcases ht with ⟨x, hx, rfl⟩ | hf
    · obtain ⟨y, hy, ty, -⟩ := hs.mem h hx
      exact .inl ⟨y, hy, ty.symm⟩
    · exact .inr hf
  issued := le_refl _
  owner := rfl

/-- A change of the order in flight. -/
theorem Evolves.land (hbook : d'.book = d.book) (hid : d'.next_order_id = d.next_order_id) (howner : d'.owner = d.owner)
    (hf : ∀ f, d'.flight = some f → d.Known f.instrument_index f.tag) : Evolves d d' where
  known i t ht := by
    left
    rcases ht with ⟨x, hx, rfl⟩ | ⟨f, hf', rfl, rfl⟩
    · rw [hbook] at hx; exact .inl ⟨x, hx, rfl⟩
    · exact hf f hf'
  issued := by rw [hid]
  owner := howner

theorem Step.evolves (hs : Step lo hi d ms d') (h : Inv d) : Evolves d d' := by
  have hl := h.toListed
  cases hs with
  | submit f _ hid _ _ _ =>
    refine ⟨fun i t ht => ?_, by rw [hid]; omega, rfl⟩
    rcases ht with ht | ⟨f', hf', -, rfl⟩
    · exact .inl (.inl ht)
    · obtain rfl : f = f' := by simpa using hf'
      exact .inr (by rw [hid]; omega)
  | requeue o f _ ho ht _ _ =>
    have hb := Evolves.shrink hl (shrinks_without hl f.instrument_index o.order_id)
    refine ⟨fun i t hk => ?_, le_refl _, rfl⟩
    rcases hk with hk | ⟨f', hf', rfl, rfl⟩
    · exact hb.known i t (.inl hk)
    · obtain rfl : f = f' := by simpa using hf'
      exact .inl (.inl ⟨o, ho, ht.symm⟩)
  | fill f o maker t hf ho _ _ _ hto _ =>
    refine (Evolves.shrink hl (shrinks_afterFill hl ho hto)).trans (.land rfl rfl rfl fun f' hf' => .inr ⟨f, hf, ?_⟩)
    obtain rfl : { f with left := f.left - t } = f' := by simpa using hf'
    exact ⟨rfl, rfl⟩
  | rest f o hf ht _ _ _ _ _ =>
    refine ⟨fun i t hk => .inl ?_, le_refl _, rfl⟩
    rcases hk with ⟨x, hx, rfl⟩ | ⟨f', hf', -⟩
    · change x ∈ (d.setBook f.instrument_index _).book i at hx
      rw [mem_setBook] at hx
      split at hx
      · rename_i hi
        subst hi
        rcases List.mem_append.1 hx with hx | hx
        · exact .inl ⟨x, hx, rfl⟩
        · obtain rfl := List.mem_singleton.1 hx
          exact .inr ⟨f, hf, rfl, ht.symm⟩
      · exact .inl ⟨x, hx, rfl⟩
    · simp at hf'
  | leave => exact .land rfl rfl rfl fun f hf => by simp at hf
  | refuse p _ => exact .land rfl rfl rfl fun f hf => by simp at hf
  | cancel i o ho => exact .shrink hl (shrinks_without hl i o.order_id)
  | reduce i o total ho h1 _ => exact .shrink hl (shrinks_set_total hl ho h1)

theorem Steps.evolves (hb : WordBounds lo hi) (hs : Steps lo hi d ms d') (h : Inv d) : Evolves d d' := by
  have step : ∀ {d₁ d₂ : Desk n m} {ms}, Step lo hi d₁ ms d₂ → Inv d₁ ∧ Evolves d d₁ → Inv d₂ ∧ Evolves d d₂ :=
    fun st hd => ⟨st.inv hb hd.1, hd.2.trans (st.evolves hd.1)⟩
  exact (hs.induct (P := fun d₁ => Inv d₁ ∧ Evolves d d₁) step ⟨h, .refl d⟩).2

/-! ## Positions come from trades -/

theorem Step.lots (hs : Step lo hi d ms d') (a : Fin m) (i : Fin n) :
    d'.lots a i = d.lots a i + (ms.map fun v => v.delta a i).sum := by
  cases hs <;> simp [Desk.setBook]

theorem Steps.lots (hs : Steps lo hi d ms d') (a : Fin m) (i : Fin n) :
    d'.lots a i = d.lots a i + (ms.map fun v => v.delta a i).sum := by
  induction hs with
  | refl => simp
  | snoc _ st ih => rw [st.lots, ih, List.map_append, List.sum_append, Int.add_assoc]

/-- What one party of a trade gains the other loses. -/
theorem sum_delta (v : Move n m) (i : Fin n) : ∑ a, v.delta a i = 0 := by
  simp only [Move.delta]
  split
  · rw [Finset.sum_add_distrib, Finset.sum_ite_eq Finset.univ v.taker, Finset.sum_ite_eq Finset.univ v.maker,
      if_pos (Finset.mem_univ _), if_pos (Finset.mem_univ _), sign_opposite]
    ring
  · exact Finset.sum_const_zero

end Soundness

end TradingLab
