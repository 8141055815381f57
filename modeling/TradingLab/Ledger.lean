import TradingLab.Core
import TradingLab.Desk
/-!
# The ledger

How the records of the engine stand for a desk: every position, every
reservation and every entry of the order maps can be read off the lists of
resting orders. The books are related to the lists separately (`Books`), since
matching changes a book before any of its fills is settled.
-/
open LabLib

namespace TradingLab

/-! ## One position -/

namespace InstrumentPosition

def open_notional (self : InstrumentPosition) : Side → Notional
  | .Buy => self.open_buy_notional
  | .Sell => self.open_sell_notional

/-- The record with other reservations on a side. -/
def with_open (self : InstrumentPosition) (side : Side) (lots : QuantityLots) (notional : Notional) :
    InstrumentPosition :=
  match side with
  | .Buy => { self with open_buy_lots := lots, open_buy_notional := notional }
  | .Sell => { self with open_sell_lots := lots, open_sell_notional := notional }

theorem reserve_eq {p : InstrumentPosition} {s : Side} {q x : QuantityLots} {v y : Notional}
    (hx : checked_add (p.open_lots s) q = some x) (hy : checked_add (p.open_notional s) v = some y) :
    p.reserve s q v = (p.with_open s x y, some ()) := by
  cases s <;> simp only [open_lots, open_notional] at hx hy <;> simp only [reserve, hx, hy, with_open]

theorem release_eq {p : InstrumentPosition} {s : Side} {q x : QuantityLots} {v y : Notional}
    (hx : checked_sub (p.open_lots s) q = some x) (hy : checked_sub (p.open_notional s) v = some y) :
    p.release s q v = (p.with_open s x y, some ()) := by
  cases s <;> simp only [open_lots, open_notional] at hx hy <;> simp only [release, hx, hy, with_open]

end InstrumentPosition

/-- What a position record says: net lots, and lots and notional reserved on each side. -/
structure PositionIs (p : InstrumentPosition) (lots : Int) (reserved notional : Side → Int) : Prop where
  lots : val p.position_lots = lots
  reserved : ∀ s, val (p.open_lots s) = reserved s
  notional : ∀ s, val (p.open_notional s) = notional s

namespace PositionIs
variable {p : InstrumentPosition} {L : Int} {R N : Side → Int} {s : Side} {q : QuantityLots} {v : Notional}
variable {R' N' : Side → Int}

theorem with_open (h : PositionIs p L R N) (s : Side) {x : QuantityLots} {y : Notional} (hx : val x = R' s)
    (hy : val y = N' s) (hother : ∀ t, t ≠ s → R' t = R t ∧ N' t = N t) :
    PositionIs (p.with_open s x y) L R' N' := by
  have hsame : ∀ t, t ≠ s → (p.with_open s x y).open_lots t = p.open_lots t ∧
      (p.with_open s x y).open_notional t = p.open_notional t := by
    cases s <;> rintro (_ | _) ht <;> first | exact absurd rfl ht | exact ⟨rfl, rfl⟩
  have hset : (p.with_open s x y).open_lots s = x ∧ (p.with_open s x y).open_notional s = y := by
    cases s <;> exact ⟨rfl, rfl⟩
  refine ⟨?_, fun t => ?_, fun t => ?_⟩
  · rw [← h.lots]; cases s <;> rfl
  · by_cases ht : t = s
    · rw [ht, hset.1, hx]
    · rw [(hsame t ht).1, h.reserved, (hother t ht).1]
  · by_cases ht : t = s
    · rw [ht, hset.2, hy]
    · rw [(hsame t ht).2, h.notional, (hother t ht).2]

theorem reserve (h : PositionIs p L R N) (hr : R s + val q ≤ 18446744073709551615)
    (hn : N s + val v ≤ 340282366920938463463374607431768211455) (hR : R' s = R s + val q) (hN : N' s = N s + val v)
    (hother : ∀ t, t ≠ s → R' t = R t ∧ N' t = N t) :
    ∃ p', p.reserve s q v = (p', some ()) ∧ PositionIs p' L R' N' := by
  rw [← h.reserved] at hr hR
  rw [← h.notional] at hn hN
  obtain ⟨x, hx, hxv⟩ := exists_checked_add rfl hr
  obtain ⟨y, hy, hyv⟩ := exists_checked_add rfl hn
  exact ⟨_, InstrumentPosition.reserve_eq hx hy, h.with_open s (hxv.trans hR.symm) (hyv.trans hN.symm) hother⟩

theorem release (h : PositionIs p L R N) (hr : val q ≤ R s) (hn : val v ≤ N s) (hR : R' s = R s - val q)
    (hN : N' s = N s - val v) (hother : ∀ t, t ≠ s → R' t = R t ∧ N' t = N t) :
    ∃ p', p.release s q v = (p', some ()) ∧ PositionIs p' L R' N' := by
  rw [← h.reserved] at hr hR
  rw [← h.notional] at hn hN
  obtain ⟨x, hx, hxv⟩ := exists_checked_sub rfl hr
  obtain ⟨y, hy, hyv⟩ := exists_checked_sub rfl hn
  exact ⟨_, InstrumentPosition.release_eq hx hy, h.with_open s (hxv.trans hR.symm) (hyv.trans hN.symm) hother⟩

theorem apply_fill (h : PositionIs p L R N) (hq : val q ≤ 9223372036854775807)
    (hlo : -9223372036854775808 ≤ L + s.sign * val q) (hhi : L + s.sign * val q ≤ 9223372036854775807) :
    ∃ p', apply_fill_to_position p s q = some p' ∧ PositionIs p' (L + s.sign * val q) R N := by
  have hq0 := (u64_bounds q).1
  rw [← h.lots] at hlo hhi ⊢
  obtain ⟨signed, hs, hsv⟩ : ∃ x : Int64, (try_from q : Option Int64) = some x ∧ val x = val q :=
    exists_word (by simp only [Machine.lo]; omega) (by simp only [Machine.hi]; omega)
  cases s with
  | Buy =>
    simp only [Side.sign, Int.one_mul] at hlo hhi ⊢
    obtain ⟨x, hx, hxv⟩ : ∃ x, checked_add p.position_lots signed = some x ∧ val x = val p.position_lots + val signed :=
      exists_word (by simp only [Machine.lo]; omega) (by simp only [Machine.hi]; omega)
    refine ⟨{ p with position_lots := x }, ?_, by rw [← hsv]; exact hxv, h.reserved, h.notional⟩
    simp only [apply_fill_to_position, hs, Option.bind_eq_bind, Option.bind_some, hx]
  | Sell =>
    simp only [Side.sign, Int.neg_mul, Int.one_mul] at hlo hhi ⊢
    obtain ⟨x, hx, hxv⟩ : ∃ x, checked_sub p.position_lots signed = some x ∧ val x = val p.position_lots - val signed :=
      exists_word (by simp only [Machine.lo]; omega) (by simp only [Machine.hi]; omega)
    refine ⟨{ p with position_lots := x }, ?_, by rw [← hsv, ← Int.sub_eq_add_neg]; exact hxv, h.reserved, h.notional⟩
    simp only [apply_fill_to_position, hs, Option.bind_eq_bind, Option.bind_some, hx]

end PositionIs

/-! ## All positions -/

section Positions
variable {n m : Nat} {c : TradingCore n m} {d : Desk n m}
variable {a : Fin m} {i : Fin n} {l : List NewOrder} {q : QuantityLots} {o : NewOrder}

theorem position_set_position (c : TradingCore n m) (a b : Fin m) (i j : Fin n) (p : InstrumentPosition) :
    (c.set_position a i p).position b j = if b = a ∧ j = i then p else c.position b j := by
  simp only [TradingCore.position, TradingCore.set_position, TradingCore.set_account, getElem_set_fin]
  by_cases hb : b = a
  · subst hb
    simp only [if_true, true_and, getElem_set_fin]
  · simp only [hb, if_false, false_and]

theorem set_position_self (c : TradingCore n m) (a : Fin m) (i : Fin n) : c.set_position a i (c.position a i) = c := by
  have hp : c.accounts[a].positions.set i (c.position a i) = c.accounts[a].positions := by
    simp [TradingCore.position]
  have ha : c.accounts.set a c.accounts[a] = c.accounts := by simp
  rw [TradingCore.set_position, hp]
  change { c with accounts := c.accounts.set a c.accounts[a] } = c
  rw [ha]

/-- Every position record says what the desk says. -/
def Positions (c : TradingCore n m) (d : Desk n m) : Prop :=
  ∀ a i, PositionIs (c.position a i) (d.lots a i) (d.reserved a i) (d.notional a i)

theorem Positions.set (h : Positions c d) {d' : Desk n m} {p : InstrumentPosition}
    (hp : PositionIs p (d'.lots a i) (d'.reserved a i) (d'.notional a i))
    (hother : ∀ b j, ¬(b = a ∧ j = i) →
      d'.lots b j = d.lots b j ∧ d'.reserved b j = d.reserved b j ∧ d'.notional b j = d.notional b j) :
    Positions (c.set_position a i p) d' := by
  intro b j
  rw [position_set_position]
  split
  · rename_i hc
    obtain ⟨rfl, rfl⟩ := hc
    exact hp
  · rename_i hc
    obtain ⟨h1, h2, h3⟩ := hother b j hc
    rw [h1, h2, h3]
    exact h b j

/-- A change of one order leaves the reservations of all other accounts and instruments. -/
theorem setBook_other {q : Int} (hd : Draws (d.book i) o q l) (ho : d.owner o.account = some a) (b : Fin m) (j : Fin n)
    (hc : ¬(b = a ∧ j = i)) :
    (d.setBook i l).lots b j = d.lots b j ∧ (d.setBook i l).reserved b j = d.reserved b j ∧
      (d.setBook i l).notional b j = d.notional b j := by
  refine ⟨rfl, funext fun s => ?_, funext fun s => ?_⟩
  · rw [reserved_draws hd ho, if_neg fun h => hc ⟨h.1, h.2.1⟩, Int.sub_zero]
  · rw [notional_draws hd ho, if_neg fun h => hc ⟨h.1, h.2.1⟩, Int.sub_zero]

/-- What the account of the order has reserved on its side, and on the other. -/
theorem setBook_at {q : Int} (hd : Draws (d.book i) o q l) (ho : d.owner o.account = some a) :
    (d.setBook i l).reserved a i o.side = d.reserved a i o.side - q ∧
      (d.setBook i l).notional a i o.side = d.notional a i o.side - q * |val o.price| ∧
      ∀ t, t ≠ o.side → (d.setBook i l).reserved a i t = d.reserved a i t ∧
        (d.setBook i l).notional a i t = d.notional a i t := by
  refine ⟨?_, ?_, fun t ht => ?_⟩
  · rw [reserved_draws hd ho, if_pos ⟨rfl, rfl, rfl⟩]
  · rw [notional_draws hd ho, if_pos ⟨rfl, rfl, rfl⟩]
  · rw [reserved_draws hd ho, notional_draws hd ho, if_neg fun hc => ht hc.2.2, if_neg fun hc => ht hc.2.2, Int.sub_zero,
      Int.sub_zero]
    exact ⟨rfl, rfl⟩

/-- Releasing what an order lost. -/
theorem Positions.release (h : Positions c d) (hd : Draws (d.book i) o (val q) l) (ho : d.owner o.account = some a) :
    ∃ p, c.release_reservation a i o.side q o.price = c.set_position a i p ∧
      Positions (c.set_position a i p) (d.setBook i l) := by
  obtain ⟨hRs, hNs, hside⟩ := setBook_at hd ho
  have hR0 := reserved_nonneg (d.setBook i l) a i o.side
  have hN0 := notional_nonneg (d.setBook i l) a i o.side
  rw [TradingCore.release_reservation]
  split
  · rename_i hz
    rw [is_zero_iff] at hz
    rw [hz] at hRs hNs
    refine ⟨c.position a i, (set_position_self c a i).symm, h.set ?_ (setBook_other hd ho)⟩
    have hsame : (d.setBook i l).reserved a i = d.reserved a i ∧ (d.setBook i l).notional a i = d.notional a i := by
      refine ⟨funext fun t => ?_, funext fun t => ?_⟩ <;> by_cases ht : t = o.side
      · rw [ht]; omega
      · exact (hside t ht).1
      · rw [ht]; omega
      · exact (hside t ht).2
    rw [hsame.1, hsame.2]
    exact h a i
  · obtain ⟨v, hv, hvv⟩ := checked_notional_eq q o.price
    rw [← hvv] at hNs
    obtain ⟨p, hp, hpi⟩ := (h a i).release (q := q) (v := v) (by omega) (by omega) hRs hNs hside
    refine ⟨p, ?_, h.set hpi (setBook_other hd ho)⟩
    simp [hv, hp]

/-- Reserving what an order brings. -/
theorem Positions.reserve (h : Positions c d) (hd : Draws (d.book i) o (-val q) l) (ho : d.owner o.account = some a)
    (hb : (d.setBook i l).reserved a i o.side ≤ 9223372036854775807) :
    ∃ p, c.reserve a i o.side q o.price = c.set_position a i p ∧
      Positions (c.set_position a i p) (d.setBook i l) := by
  obtain ⟨hRs, hNs, hside⟩ := setBook_at hd ho
  have hle := notional_le (d.setBook i l) a i o.side
  obtain ⟨v, hv, hvv⟩ := checked_notional_eq q o.price
  rw [Int.neg_mul, ← hvv, Int.sub_neg] at hNs
  rw [Int.sub_neg] at hRs
  obtain ⟨p, hp, hpi⟩ := (h a i).reserve (q := q) (v := v) (by omega) (by omega) hRs hNs hside
  refine ⟨p, ?_, h.set hpi (setBook_other hd ho)⟩
  simp [TradingCore.reserve, hv, hp]

/-- Moving a position by a fill. -/
theorem Positions.move (h : Positions c d) {s : Side} (hq : val q ≤ 9223372036854775807)
    (hlo : -9223372036854775808 ≤ d.lots a i + s.sign * val q) (hhi : d.lots a i + s.sign * val q ≤ 9223372036854775807) :
    ∃ p, c.move_position a i s q = c.set_position a i p ∧ Positions (c.set_position a i p)
      { d with lots := fun b j => d.lots b j + if b = a ∧ j = i then s.sign * val q else 0 } := by
  obtain ⟨p, hp, hpi⟩ := (h a i).apply_fill hq hlo hhi
  refine ⟨p, by simp only [TradingCore.move_position, hp], h.set ?_ fun b j hc => ⟨?_, rfl, rfl⟩⟩
  · simp only [and_self, if_true]
    exact hpi
  · simp only [hc, if_false, Int.add_zero]

end Positions

/-! ## What a request never changes -/

section Setup
variable {n m : Nat}
variable {c c' : TradingCore n m}

/-- The part of the engine that handling a request reads and does not write. -/
structure Setup (n m : Nat) where
  config : EngineConfig
  instruments : Fin n → InstrumentConfig × MarketView
  instrument_index : HashMap InstrumentId (Fin n)
  /-- Without the positions. -/
  accounts : Fin m → AccountState 0
  account_index : HashMap AccountId (Fin m)
  global_kill : Bool
  engine_seq : EngineSeq
  engine_time_ns : UInt64

namespace TradingCore

def setup (c : TradingCore n m) : Setup n m where
  config := c.config
  instruments i := (c.instruments[i].config, c.instruments[i].market)
  instrument_index := c.instrument_index
  accounts a := { c.accounts[a] with positions := #v[] }
  account_index := c.account_index
  global_kill := c.global_kill
  engine_seq := c.engine_seq
  engine_time_ns := c.engine_time_ns

def book (c : TradingCore n m) (i : Fin n) : OrderBook := c.instruments[i].book

/-- The engine without the counters of its outputs and its faults. -/
def still (c : TradingCore n m) : TradingCore n m :=
  { c with output_seq := 0, next_trade_id := 0, metrics := {}, fault := none, faults := [] }

end TradingCore

@[simp] theorem setup_set_position (c : TradingCore n m) (a : Fin m) (i : Fin n) (p : InstrumentPosition) :
    (c.set_position a i p).setup = c.setup := by
  simp only [TradingCore.setup, TradingCore.set_position, TradingCore.set_account, Setup.mk.injEq, true_and, and_true]
  funext b
  rw [getElem_set_fin]
  split
  · rename_i h; rw [h]
  · rfl

@[simp] theorem setup_set_book (c : TradingCore n m) (i : Fin n) (b : OrderBook) : (c.set_book i b).setup = c.setup := by
  simp only [TradingCore.setup, TradingCore.set_book, Setup.mk.injEq, true_and, and_true]
  funext j
  rw [getElem_set_fin]
  split
  · rename_i h; rw [h]
  · rfl

@[simp] theorem book_set_book (c : TradingCore n m) (i j : Fin n) (b : OrderBook) :
    (c.set_book i b).book j = if j = i then b else c.book j := by
  simp only [TradingCore.book, TradingCore.set_book, getElem_set_fin]
  split <;> rfl

theorem still_take_output_seq (c : TradingCore n m) : c.take_output_seq.1.still = c.still := by
  simp only [TradingCore.take_output_seq]
  split <;> simp only [TradingCore.still, TradingCore.set_fault]

/-- What `still` engines share. -/
theorem eq_of_still {α : Type} (g : TradingCore n m → α) (hg : ∀ c, g c.still = g c) (h : c'.still = c.still) :
    g c' = g c := by
  rw [← hg c', h, hg]

theorem setup_of_still (h : c'.still = c.still) : c'.setup = c.setup :=
  eq_of_still TradingCore.setup (fun _ => rfl) h

theorem book_of_still (h : c'.still = c.still) : c'.book = c.book :=
  eq_of_still TradingCore.book (fun _ => rfl) h

/-- The tables of ids, which are fixed for good. -/
structure Wiring (n m : Nat) where
  instruments : Fin n → InstrumentConfig
  instrument_index : HashMap InstrumentId (Fin n)
  accounts : Fin m → AccountId
  account_index : HashMap AccountId (Fin m)

def TradingCore.wiring (c : TradingCore n m) : Wiring n m where
  instruments i := c.instruments[i].config
  instrument_index := c.instrument_index
  accounts a := c.accounts[a].id
  account_index := c.account_index

theorem wiring_of_setup (h : c'.setup = c.setup) : c'.wiring = c.wiring :=
  congrArg (fun s : Setup n m => (⟨fun i => (s.instruments i).1, s.instrument_index, fun a => (s.accounts a).id,
    s.account_index⟩ : Wiring n m)) h

/-- Ids lead back to the entry they came from. -/
structure Wired (c : TradingCore n m) : Prop where
  account : ∀ {x a}, c.account_index.lookup x = some a → c.accounts[a].id = x
  instrument : ∀ {x i}, c.instrument_index.lookup x = some i → c.instruments[i].config.id = x

theorem Wired.of_wiring (hw : Wired c) (h : c'.wiring = c.wiring) : Wired c' where
  account {x a} hx := by
    have h1 : c'.account_index = c.account_index := congrArg Wiring.account_index h
    have h2 : c'.accounts[a].id = c.accounts[a].id := congrArg (fun w => w.accounts a) h
    rw [h1] at hx
    rw [h2]; exact hw.account hx
  instrument {x i} hx := by
    have h1 : c'.instrument_index = c.instrument_index := congrArg Wiring.instrument_index h
    have h2 : c'.instruments[i].config = c.instruments[i].config := congrArg (fun w => w.instruments i) h
    rw [h1] at hx
    rw [h2]; exact hw.instrument hx

theorem Wired.of_setup (h : c'.setup = c.setup) (hw : Wired c) : Wired c' :=
  hw.of_wiring (wiring_of_setup h)

/-! ## Faults -/

/-- From the first engine to the second no accounting fault was set, and no fault was cleared. -/
structure Clean (c c' : TradingCore n m) : Prop where
  accounting : .Accounting ∈ c'.faults → .Accounting ∈ c.faults
  sticky : c'.fault = none → c.fault = none
  logged : (∀ f, c.fault = some f → f ∈ c.faults) → ∀ f, c'.fault = some f → f ∈ c'.faults

theorem Clean.of_eq (h : c'.fault = c.fault) (hs : c'.faults = c.faults) : Clean c c' where
  accounting hf := by rwa [hs] at hf
  sticky hf := by rwa [h] at hf
  logged hl := by rwa [h, hs]

theorem Clean.refl (c : TradingCore n m) : Clean c c := .of_eq rfl rfl

theorem Clean.trans {c c' c'' : TradingCore n m} (h : Clean c c') (h' : Clean c' c'') : Clean c c'' :=
  ⟨fun hf => h.accounting (h'.accounting hf), fun hf => h.sticky (h'.sticky hf), fun hl => h'.logged (h.logged hl)⟩

theorem clean_exhausted (c : TradingCore n m) : Clean c (c.set_fault .SequenceExhausted) where
  accounting hf := by simpa [TradingCore.set_fault] using hf
  sticky hf := by simp [TradingCore.set_fault] at hf
  logged _ f hf := by cases hf; exact List.mem_cons_self

theorem clean_take_output_seq (c : TradingCore n m) : Clean c c.take_output_seq.1 := by
  rw [TradingCore.take_output_seq]
  split
  · exact .of_eq rfl rfl
  · exact clean_exhausted c

end Setup

/-! ## The order maps -/

section Maps
variable {n m : Nat} {d : Desk n m}
variable {i j : Fin n}

def Desk.tags (d : Desk n m) (i : Fin n) : List Tag := (d.book i).map NewOrder.tag

/-- The maps list exactly the resting orders. -/
structure OrderMaps (live : HashMap OrderId (LiveOrder n m)) (client : HashMap (AccountId × ClientOrderId) OrderId)
    (d : Desk n m) : Prop where
  live : ∀ id l, live.lookup id = some l ↔
    ∃ t ∈ d.tags l.instrument_index, t.order_id = id ∧ d.owner t.account = some l.account_index
  client : ∀ k id, client.lookup k = some id ↔
    ∃ i, ∃ t ∈ d.tags i, (t.account, t.client_order_id) = k ∧ t.order_id = id

theorem tags_setBook (i j : Fin n) (l : List NewOrder) :
    (d.setBook i l).tags j = if j = i then l.map NewOrder.tag else d.tags j := by
  simp only [Desk.tags, Desk.setBook, Function.update_apply]
  split <;> rfl

theorem Listed.tag_unique (h : Listed d) {t u : Tag} (ht : t ∈ d.tags i) (hu : u ∈ d.tags j)
    (he : t.order_id = u.order_id) : i = j ∧ t = u := by
  obtain ⟨x, hx, rfl⟩ := List.mem_map.1 ht
  obtain ⟨y, hy, rfl⟩ := List.mem_map.1 hu
  obtain rfl := h.apart hx hy he
  rw [List.inj_on_of_nodup_map (h.ids i) hx hy he]
  exact ⟨rfl, rfl⟩

theorem Listed.key_unique (h : Listed d) {t u : Tag} (ht : t ∈ d.tags i) (hu : u ∈ d.tags j)
    (he : (t.account, t.client_order_id) = (u.account, u.client_order_id)) : t.order_id = u.order_id := by
  obtain ⟨x, hx, rfl⟩ := List.mem_map.1 ht
  obtain ⟨y, hy, rfl⟩ := List.mem_map.1 hu
  rw [Prod.mk.injEq] at he
  exact h.keys hx hy he.1 he.2

theorem mem_tags_without (h : Listed d) {i : Fin n} {o : NewOrder} (ho : o ∈ d.book i) {j : Fin n} {t : Tag} :
    t ∈ (d.setBook i (without NewOrder.order_id o.order_id (d.book i))).tags j ↔
      t ∈ d.tags j ∧ t.order_id ≠ o.order_id := by
  rw [tags_setBook]
  split
  · rename_i hj
    subst hj
    simp only [Desk.tags, List.mem_map, mem_without]
    constructor
    · rintro ⟨x, ⟨hx, hne⟩, rfl⟩
      exact ⟨⟨x, hx, rfl⟩, hne⟩
    · rintro ⟨⟨x, hx, rfl⟩, hne⟩
      exact ⟨x, ⟨hx, hne⟩, rfl⟩
  · rename_i hj
    refine ⟨fun ht => ⟨ht, fun he => hj ?_⟩, And.left⟩
    exact (h.tag_unique ht (List.mem_map_of_mem ho) he).1

theorem mem_tags_append {o : NewOrder} {t : Tag} :
    t ∈ (d.setBook i (d.book i ++ [o])).tags j ↔ t ∈ d.tags j ∨ (j = i ∧ t = o.tag) := by
  rw [tags_setBook]
  split
  · rename_i hj
    subst hj
    simp [Desk.tags]
  · rename_i hj
    simp [hj]

namespace OrderMaps
variable {live : HashMap OrderId (LiveOrder n m)} {client : HashMap (AccountId × ClientOrderId) OrderId}

theorem same (h : OrderMaps live client d) {d' : Desk n m} (ht : ∀ i, d'.tags i = d.tags i) (ho : d'.owner = d.owner) :
    OrderMaps live client d' where
  live id l := by rw [ht, ho]; exact h.live id l
  client k id := by simp only [ht]; exact h.client k id

/-- The maps do not see quantities. -/
theorem amend (h : OrderMaps live client d) (i : Fin n) (id : OrderId) {f : NewOrder → NewOrder}
    (hf : ∀ x, (f x).tag = x.tag) :
    OrderMaps live client (d.setBook i (LabLib.amend NewOrder.order_id id f (d.book i))) := by
  refine h.same (fun j => ?_) rfl
  rw [tags_setBook]
  split
  · rename_i hj
    rw [hj, map_amend NewOrder.tag fun x _ _ => hf x]
    rfl
  · rfl

/-- An order leaves the maps with its list. -/
theorem erase (h : OrderMaps live client d) (hl : Listed d) {i : Fin n} {o : NewOrder} (ho : o ∈ d.book i) :
    OrderMaps (live.erase o.order_id) (client.erase (o.account, o.client_order_id))
      (d.setBook i (without NewOrder.order_id o.order_id (d.book i))) where
  live id l := by
    rw [lookup_erase_eq]
    simp only [mem_tags_without hl ho]
    split
    · rename_i hid
      subst hid
      simp only [reduceCtorEq, false_iff, not_exists]
      rintro t ⟨⟨-, hne⟩, he, -⟩
      exact hne he
    · rename_i hid
      rw [h.live]
      constructor
      · rintro ⟨t, ht, rfl, hown⟩
        exact ⟨t, ⟨ht, hid⟩, rfl, hown⟩
      · rintro ⟨t, ⟨ht, -⟩, rfl, hown⟩
        exact ⟨t, ht, rfl, hown⟩
  client k id := by
    have hot : o.tag ∈ d.tags i := List.mem_map_of_mem ho
    rw [lookup_erase_eq]
    simp only [mem_tags_without hl ho]
    split
    · rename_i hk
      subst hk
      simp only [reduceCtorEq, false_iff, not_exists]
      rintro j t ⟨⟨ht, hne⟩, hk, -⟩
      exact hne (hl.key_unique ht hot hk)
    · rename_i hk
      rw [h.client]
      constructor
      · rintro ⟨j, t, ht, rfl, rfl⟩
        refine ⟨j, t, ⟨ht, fun he => hk ?_⟩, rfl, rfl⟩
        rw [(hl.tag_unique ht hot he).2]
        rfl
      · rintro ⟨j, t, ⟨ht, -⟩, rfl, rfl⟩
        exact ⟨j, t, ht, rfl, rfl⟩

/-- An order enters the maps with its list. -/
theorem insert (h : OrderMaps live client d) {f : Flight n m} (hf : FlightOk d f) {o : NewOrder} (ht : o.tag = f.tag) :
    OrderMaps (live.insert o.order_id ⟨f.account_index, f.instrument_index⟩)
      (client.insert (o.account, o.client_order_id) o.order_id)
      (d.setBook f.instrument_index (d.book f.instrument_index ++ [o])) where
  live id l := by
    have hfresh : ∀ {j t}, t ∈ d.tags j → t.order_id ≠ o.order_id := by
      intro j t hm he
      obtain ⟨x, hx, rfl⟩ := List.mem_map.1 hm
      exact hf.fresh hx (he.trans (congrArg Tag.order_id ht))
    have hown : d.owner o.account = some f.account_index := by
      rw [show o.account = f.tag.account from congrArg Tag.account ht]; exact hf.owner
    rw [lookup_insert_eq]
    simp only [mem_tags_append]
    split
    · rename_i hid
      subst hid
      constructor
      · intro hl
        cases hl
        exact ⟨o.tag, .inr ⟨rfl, rfl⟩, rfl, hown⟩
      · rintro ⟨t, hm | ⟨hi, rfl⟩, he, ho⟩
        · exact absurd he (hfresh hm)
        · change d.owner o.account = some l.account_index at ho
          rw [hown] at ho
          rw [← hi, Option.some.inj ho]
    · rename_i hid
      rw [h.live]
      constructor
      · rintro ⟨t, hm, rfl, ho⟩
        exact ⟨t, .inl hm, rfl, ho⟩
      · rintro ⟨t, hm | ⟨-, rfl⟩, rfl, ho⟩
        · exact ⟨t, hm, rfl, ho⟩
        · exact absurd rfl hid
  client k id := by
    have hkey : ∀ {j t}, t ∈ d.tags j → (t.account, t.client_order_id) ≠ (o.account, o.client_order_id) := by
      intro j t hm he
      obtain ⟨x, hx, rfl⟩ := List.mem_map.1 hm
      rw [Prod.mk.injEq] at he
      exact hf.key hx ⟨he.1.trans (congrArg Tag.account ht), he.2.trans (congrArg Tag.client_order_id ht)⟩
    rw [lookup_insert_eq]
    simp only [mem_tags_append]
    split
    · rename_i hk
      subst hk
      constructor
      · intro hl
        cases hl
        exact ⟨_, o.tag, .inr ⟨rfl, rfl⟩, rfl, rfl⟩
      · rintro ⟨j, t, hm | ⟨-, rfl⟩, he, rfl⟩
        · exact absurd he (hkey hm)
        · rfl
    · rename_i hk
      rw [h.client]
      constructor
      · rintro ⟨j, t, hm, rfl, rfl⟩
        exact ⟨j, t, .inl hm, rfl, rfl⟩
      · rintro ⟨j, t, hm | ⟨-, rfl⟩, rfl, rfl⟩
        · exact ⟨j, t, hm, rfl, rfl⟩
        · exact absurd rfl hk

end OrderMaps
end Maps

/-! ## The ledger -/

section Ledger
variable {n m : Nat} {c c' : TradingCore n m} {d : Desk n m}

/-- The records of the engine stand for the desk. -/
structure Ledger (c : TradingCore n m) (d : Desk n m) : Prop where
  positions : Positions c d
  orders : OrderMaps c.live_orders c.client_orders d
  owner : ∀ x, c.account_index.lookup x = d.owner x
  order_id : c.next_order_id = d.next_order_id
  priority : c.next_priority = d.next_priority

/-- Every book holds the orders of its instrument. -/
def Books (c : TradingCore n m) (d : Desk n m) : Prop := ∀ i, Holds (c.book i) (d.book i)

theorem Ledger.of_still (h : Ledger c d) (hs : c'.still = c.still) : Ledger c' d where
  positions := by
    have hp : c'.position = c.position := eq_of_still TradingCore.position (fun _ => rfl) hs
    intro a i
    rw [hp]; exact h.positions a i
  orders := by
    have h1 : c'.live_orders = c.live_orders := eq_of_still TradingCore.live_orders (fun _ => rfl) hs
    have h2 : c'.client_orders = c.client_orders := eq_of_still TradingCore.client_orders (fun _ => rfl) hs
    rw [h1, h2]; exact h.orders
  owner := by
    have h1 : c'.account_index = c.account_index := eq_of_still TradingCore.account_index (fun _ => rfl) hs
    rw [h1]; exact h.owner
  order_id := (eq_of_still TradingCore.next_order_id (fun _ => rfl) hs).trans h.order_id
  priority := (eq_of_still TradingCore.next_priority (fun _ => rfl) hs).trans h.priority

theorem Ledger.set_book (h : Ledger c d) (i : Fin n) (b : OrderBook) : Ledger (c.set_book i b) d :=
  ⟨h.positions, h.orders, h.owner, h.order_id, h.priority⟩

theorem Books.of_eq (h : Books c d) (hb : c'.book = c.book) : Books c' d := by
  intro i
  rw [hb]; exact h i

theorem Books.set (h : Books c d) {i : Fin n} {b : OrderBook} {l : List NewOrder} (hb : Holds b l) :
    Books (c.set_book i b) (d.setBook i l) := by
  intro j
  rw [book_set_book]
  simp only [Desk.setBook, Function.update_apply]
  split
  · exact hb
  · exact h j

end Ledger

end TradingLab
