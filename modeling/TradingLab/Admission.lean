import TradingLab.Ledger
/-!
# Admission

What the pre-trade checks of `risk.rs` establish, and that they do not panic
when tick and lot sizes are positive. Their worst case is the guard under which
the desk takes an order into flight.
-/
open LabLib

namespace TradingLab

section Checks
variable {α : Type} {p : Prop} [Decidable p] {reason : RejectReason}

@[simp] theorem passes_reject_if {u : Unit} : Passes (reject_if p reason) u ↔ ¬p := by
  rw [reject_if]
  split
  · rename_i h; simp [h]
  · rename_i h; simp [h]

@[simp] theorem passes_ok_or {o : Option α} {a : α} : Passes (ok_or o reason) a ↔ o = some a := by
  cases o <;> simp [ok_or]

theorem safe_reject_if : Safe (reject_if p reason) := by
  rw [reject_if]
  split
  · exact safe_throw _
  · exact safe_pure _

theorem safe_ok_or (o : Option α) : Safe (ok_or o reason) := by
  cases o
  · exact safe_throw _
  · exact safe_pure _

end Checks

section Admission
variable {n m : Nat} {c : TradingCore n m}

/-! ## No check panics -/

/-- Every tick and lot size is positive. -/
def Sized (c : TradingCore n m) : Prop :=
  ∀ i : Fin n, 0 < val c.instruments[i].config.tick_size ∧ 0 < val c.instruments[i].config.lot_size

theorem Sized.of_wiring {c' : TradingCore n m} (hs : Sized c) (h : c'.wiring = c.wiring) : Sized c' := by
  intro i
  have hi : c'.instruments[i].config = c.instruments[i].config := congrArg (fun w => w.instruments i) h
  rw [hi]
  exact hs i

theorem rem_u64_ok (a : UInt64) {b : UInt64} (h : 0 < val b) : rem_u64 a b = .ok (a % b) := by
  rw [rem_u64, if_neg]
  rintro rfl
  exact absurd h (by decide)

theorem rem_i64_ok (a : Int64) {b : Int64} (h : 0 < val b) : rem_i64 a b = .ok (a % b) := by
  rw [rem_i64, if_neg]
  rintro (rfl | ⟨-, rfl⟩)
  · exact absurd h (by decide)
  · exact absurd h (by decide)

theorem check_quantity_safe (hs : Sized c) (i : Fin n) (quantity : QuantityLots) : Safe (c.check_quantity i quantity) :=
  safe_reject_if.bind fun _ _ => (safe_lift (rem_u64_ok _ (hs i).2)).bind fun _ _ => safe_reject_if

theorem check_price_safe (hs : Sized c) (i : Fin n) (price : PriceTicks) : Safe (c.check_price i price) :=
  safe_reject_if.bind fun _ _ => (safe_lift (rem_i64_ok _ (hs i).1)).bind fun _ _ => safe_reject_if

theorem check_limit_price_safe (hs : Sized c) (i : Fin n) (request : OrderRequest) :
    Safe (c.check_limit_price i request) := by
  rw [TradingCore.check_limit_price]
  split
  · exact check_price_safe hs i _
  · exact safe_pure _

theorem check_trading_permitted_safe (a : Fin m) : Safe (c.check_trading_permitted a) :=
  safe_reject_if.bind fun _ _ => safe_reject_if

theorem check_client_sequence_safe (a : Fin m) (client_seq : UInt64) : Safe (c.check_client_sequence a client_seq) :=
  safe_reject_if.bind fun _ _ => safe_reject_if

theorem reference_price_safe (i : Fin n) : Safe (c.reference_price i) :=
  safe_reject_if.bind fun _ _ => safe_reject_if.bind fun _ _ => safe_ok_or _

theorem execution_limit_safe (request : OrderRequest) (reference : PriceTicks) :
    Safe (c.execution_limit request reference) := by
  rw [TradingCore.execution_limit]
  split
  · exact safe_pure _
  · exact safe_ok_or _

theorem project_safe (current : InstrumentPosition) (side : Side) (added_lots : QuantityLots) (added : Notional)
    (replaced_lots : QuantityLots) (released : Notional) :
    Safe (project current side added_lots added replaced_lots released) := by
  cases side <;> exact (safe_ok_or _).bind fun _ _ => (safe_ok_or _).bind fun _ _ => safe_pure _

theorem mark_price_safe (i : Fin n) (position : InstrumentPosition) : Safe (c.mark_price i position) := by
  rw [TradingCore.mark_price]
  split
  · exact safe_pure _
  · split
    · exact safe_pure _
    · exact safe_throw _

theorem add_exposure_safe (a : Fin m) (i : Fin n) (projected : InstrumentPosition) (gross : Notional) (j : Fin n) :
    Safe (c.add_exposure a i projected gross j) := by
  rw [TradingCore.add_exposure]
  generalize (if j = i then projected else c.position a j) = position
  split
  · exact safe_pure _
  · exact (mark_price_safe _ _).bind fun _ _ => (safe_ok_or _).bind fun _ _ => safe_ok_or _

theorem gross_exposure_safe (a : Fin m) (i : Fin n) (projected : InstrumentPosition) (gross : Notional)
    (js : List (Fin n)) : Safe (js.foldlM (c.add_exposure a i projected) gross) := by
  induction js generalizing gross with
  | nil => exact safe_pure _
  | cons j js ih => exact (add_exposure_safe a i projected gross j).bind fun gross _ => ih gross

theorem check_exposure_safe (a : Fin m) (i : Fin n) (side : Side) (added_lots : QuantityLots) (added_price : PriceTicks)
    (replaced_lots : QuantityLots) (replaced_price : PriceTicks) :
    Safe (c.check_exposure a i side added_lots added_price replaced_lots replaced_price) :=
  (safe_ok_or _).bind fun _ _ => (safe_ok_or _).bind fun _ _ => (project_safe _ _ _ _ _ _).bind fun _ _ =>
    (safe_ok_or _).bind fun _ _ => safe_reject_if.bind fun _ _ => (gross_exposure_safe _ _ _ _ _).bind fun _ _ =>
      safe_reject_if

theorem check_new_order_safe (hs : Sized c) (request : OrderRequest) : Safe (c.check_new_order request) :=
  safe_reject_if.bind fun _ _ => (safe_ok_or _).bind fun _ _ => (safe_ok_or _).bind fun i _ =>
    (check_quantity_safe hs i _).bind fun _ _ => (check_limit_price_safe hs i _).bind fun _ _ =>
    safe_reject_if.bind fun _ _ => (check_trading_permitted_safe _).bind fun _ _ =>
    (check_client_sequence_safe _ _).bind fun _ _ => (reference_price_safe i).bind fun _ _ =>
    safe_reject_if.bind fun _ _ => (execution_limit_safe _ _).bind fun _ _ => safe_reject_if.bind fun _ _ =>
    (safe_ok_or _).bind fun _ _ => safe_reject_if.bind fun _ _ =>
    (check_exposure_safe _ _ _ _ _ _ _).bind fun _ _ => safe_reject_if.bind fun _ _ => safe_pure _

theorem check_replace_safe (hs : Sized c) {d : Desk n m} (hb : Books c d) (request : OrderRequest) :
    Safe (c.check_replace request) := by
  refine (safe_ok_or _).bind fun a _ => (safe_ok_or _).bind fun i _ => (safe_ok_or _).bind fun id _ => ?_
  obtain ⟨found, hfound⟩ := (hb i).get_total id
  refine (safe_lift hfound).bind fun found' hf => (safe_ok_or found').bind fun existing he => ?_
  rw [passes_ok_or] at he
  rw [passes_lift, he] at hf
  have hsound := (hb i).sound ((hb i).get_iff hf).1
  exact safe_reject_if.bind fun _ _ => (check_price_safe hs i _).bind fun _ _ => safe_reject_if.bind fun _ _ =>
    (safe_lift (rem_u64_ok _ (hs i).2)).bind fun _ _ => safe_reject_if.bind fun _ _ => safe_reject_if.bind fun _ _ =>
    (check_trading_permitted_safe _).bind fun _ _ => (check_client_sequence_safe _ _).bind fun _ _ =>
    (reference_price_safe i).bind fun _ _ => safe_reject_if.bind fun _ _ => safe_reject_if.bind fun _ _ =>
    (safe_ok_or _).bind fun _ _ => safe_reject_if.bind fun _ _ =>
    (safe_lift (OrderNode.remaining_eq hsound)).bind fun _ _ => (check_exposure_safe _ _ _ _ _ _ _).bind fun _ _ =>
    safe_pure _

/-! ## What the checks establish -/

/-- The highest position an account may reach. -/
def TradingCore.ceiling (c : TradingCore n m) (a : Fin m) : Int :=
  min 9223372036854775807 (val c.accounts[a].limits.max_position_lots)

/-- The lowest one. -/
def TradingCore.floor (c : TradingCore n m) (a : Fin m) : Int :=
  max (-9223372036854775808) (-val c.accounts[a].limits.max_position_lots)

theorem wordBounds (c : TradingCore n m) : WordBounds c.floor c.ceiling := by
  intro a
  simp only [TradingCore.floor, TradingCore.ceiling]
  omega

/-- The worst case of a side is the position with everything on the side filled. -/
theorem worst_case_position_eq {p : InstrumentPosition} {s : Side} {w : UInt64} (h : worst_case_position p s = some w) :
    val (p.open_lots s) ≤ 9223372036854775807 ∧
      val w = |val p.position_lots + s.sign * val (p.open_lots s)| ∧
      -9223372036854775808 ≤ val p.position_lots + s.sign * val (p.open_lots s) ∧
      val p.position_lots + s.sign * val (p.open_lots s) ≤ 9223372036854775807 := by
  cases s with
  | Buy =>
    simp only [worst_case_position, Option.bind_eq_bind, Option.bind_eq_some_iff, Option.some.injEq] at h
    obtain ⟨lots, hl, signed, hs, rfl⟩ := h
    rw [try_from_eq_some] at hl
    rw [checked_add_eq_some] at hs
    have h1 := i64_bounds lots
    have h2 := i64_bounds signed
    simp only [InstrumentPosition.open_lots, Side.sign, Int.one_mul, unsigned_abs_val, ← hl, ← hs, true_and]
    omega
  | Sell =>
    simp only [worst_case_position, Option.bind_eq_bind, Option.bind_eq_some_iff, Option.some.injEq] at h
    obtain ⟨lots, hl, signed, hs, rfl⟩ := h
    rw [try_from_eq_some] at hl
    rw [checked_sub_eq_some, Int.sub_eq_add_neg] at hs
    have h1 := i64_bounds lots
    have h2 := i64_bounds signed
    simp only [InstrumentPosition.open_lots, Side.sign, Int.neg_mul, Int.one_mul, unsigned_abs_val, ← hl, ← hs, true_and]
    omega

theorem project_passes {current p : InstrumentPosition} {s : Side} {added replaced : QuantityLots} {av rv : Notional}
    (h : Passes (project current s added av replaced rv) p) :
    val (p.open_lots s) = val (current.open_lots s) - val replaced + val added ∧
      p.position_lots = current.position_lots := by
  cases s with
  | Buy =>
    simp only [project, passes_bind, passes_ok_or, passes_pure, Option.bind_eq_some_iff, checked_sub_eq_some,
      checked_add_eq_some] at h
    obtain ⟨lots, ⟨x, hx, hl⟩, y, -, rfl⟩ := h
    refine ⟨?_, rfl⟩
    simp only [InstrumentPosition.open_lots]; omega
  | Sell =>
    simp only [project, passes_bind, passes_ok_or, passes_pure, Option.bind_eq_some_iff, checked_sub_eq_some,
      checked_add_eq_some] at h
    obtain ⟨lots, ⟨x, hx, hl⟩, y, -, rfl⟩ := h
    refine ⟨?_, rfl⟩
    simp only [InstrumentPosition.open_lots]; omega

/-- The exposure check is the guard of the desk. -/
theorem admitted_of_exposure {d d₀ : Desk n m} {f : Flight n m} {price replaced_price : PriceTicks} {replaced : QuantityLots}
    (h : Positions c d) (hlots : d₀.lots = d.lots)
    (hres : d₀.reserved f.account_index f.instrument_index f.tag.side =
      d.reserved f.account_index f.instrument_index f.tag.side - val replaced)
    (hp : Passes (c.check_exposure f.account_index f.instrument_index f.tag.side f.left price replaced replaced_price) ()) :
    Admitted c.floor c.ceiling d₀ f := by
  simp only [TradingCore.check_exposure, passes_bind, passes_ok_or, passes_reject_if] at hp
  obtain ⟨_, -, _, -, p, hproj, w, hw, _, hle, -⟩ := hp
  obtain ⟨hopen, hpos⟩ := project_passes hproj
  obtain ⟨h1, h2, h3, h4⟩ := worst_case_position_eq hw
  have hP := h f.account_index f.instrument_index
  rw [hP.reserved, ← hres] at hopen
  rw [hpos, hP.lots, hopen, ← hlots] at h2 h3 h4
  rw [hopen] at h1
  rw [gt_iff_lt, u64_lt, h2, not_lt, abs_le] at hle
  refine ⟨h1, fun hs => ?_, fun hs => ?_⟩
  · rw [hs, Side.sign, Int.one_mul] at h4 hle
    exact Int.le_min.2 ⟨h4, hle.2⟩
  · rw [hs, Side.sign, Int.neg_mul, Int.one_mul, ← Int.sub_eq_add_neg] at h3 hle
    exact Int.max_le.2 ⟨h3, hle.1⟩

/-- What a request for a new order has passed. -/
structure AdmitsNew (c : TradingCore n m) (request : OrderRequest) (checked : CheckedNewOrder n m) : Prop where
  account : c.account_index.lookup request.account = some checked.account_index
  instrument : c.instrument_index.lookup request.instrument = some checked.instrument_index
  positive : 0 < val request.quantity
  limit : request.order_type = .Limit → checked.execution_limit = request.price
  fresh : c.client_orders.lookup (request.account, request.client_order_id) = none
  sequence : val c.accounts[checked.account_index].last_client_seq < val request.client_seq
  exposure : Passes (c.check_exposure checked.account_index checked.instrument_index request.side request.quantity
    checked.execution_limit 0 checked.execution_limit) ()
  room : (c.book checked.instrument_index).is_full = false

theorem check_new_order_passes {request : OrderRequest} {checked : CheckedNewOrder n m}
    (h : Passes (c.check_new_order request) checked) : AdmitsNew c request checked := by
  simp only [TradingCore.check_new_order, TradingCore.check_quantity, TradingCore.check_client_sequence, passes_bind,
    passes_ok_or, passes_reject_if, passes_pure] at h
  obtain ⟨_, -, a, ha, i, hi, _, ⟨_, hq, -⟩, _, -, _, hfresh, _, -, _, ⟨_, -, hseq⟩, r, -, _, -, limit, hlimit, _, -, _, -, _,
    -, _, hexp, _, hroom, rfl⟩ := h
  refine ⟨ha, hi, ?_, fun ht => ?_, ?_, ?_, hexp, ?_⟩
  · rw [is_zero_iff] at hq
    have := (u64_bounds request.quantity).1
    omega
  · rw [TradingCore.execution_limit, ht, passes_pure] at hlimit
    exact hlimit.symm
  · simpa [TradingCore.client_order_lookup] using hfresh
  · rw [u64_le] at hseq
    exact Int.not_le.1 hseq
  · exact Bool.eq_false_iff.2 hroom

/-- What a request to replace an order has passed. -/
structure AdmitsReplace (c : TradingCore n m) (request : OrderRequest) (checked : CheckedReplace n m) : Prop where
  account : c.account_index.lookup request.account = some checked.account_index
  instrument : c.instrument_index.lookup request.instrument = some checked.instrument_index
  order : c.client_orders.lookup (request.account, request.target_client_order_id) = some checked.order_id
  found : (c.book checked.instrument_index).get checked.order_id = .ok (some checked.existing)
  side : request.side = checked.existing.side
  total : val checked.existing.cumulative_filled ≤ val request.quantity
  sequence : val c.accounts[checked.account_index].last_client_seq < val request.client_seq
  exposure : ∃ remaining, checked.existing.remaining = .ok remaining ∧
    Passes (c.check_exposure checked.account_index checked.instrument_index checked.existing.side
      (request.quantity - checked.existing.cumulative_filled) request.price remaining checked.existing.price) ()

theorem check_replace_passes {request : OrderRequest} {checked : CheckedReplace n m}
    (h : Passes (c.check_replace request) checked) : AdmitsReplace c request checked := by
  simp only [TradingCore.check_replace, TradingCore.check_client_sequence, passes_bind, passes_ok_or, passes_reject_if,
    passes_pure, passes_lift] at h
  obtain ⟨a, ha, i, hi, id, hid, found, hfound, existing, hsome, _, hside, _, -, _, -, _, -, _, -, _, htotal, _, -, _,
    ⟨_, -, hseq⟩, r, -, _, -, _, -, _, -, _, -, remaining, hrem, _, hexp, rfl⟩ := h
  subst hsome
  refine ⟨ha, hi, hid, hfound, ?_, ?_, ?_, remaining, hrem, hexp⟩
  · simp only [not_or, ne_eq, not_not] at hside
    exact hside.1
  · rw [u64_lt] at htotal
    exact Int.not_lt.1 htotal
  · rw [u64_le] at hseq
    exact Int.not_le.1 hseq

end Admission

end TradingLab
