import TradingLab.Admission
import TradingLab.Settlement
/-!
# Requests as steps of the desk

Every request the engine handles is a sequence of steps of the desk, its trades
are the moves of those steps, and no handler panics or sets an accounting fault.
The one thing that can go wrong is said by `fits`: an order whose price level
overflows is reported as working and is not there.
-/
open LabLib

namespace TradingLab

section Handlers
variable {n m : Nat} {c : TradingCore n m} {d : Desk n m}
variable {request : OrderRequest} {checked : CheckedReplace n m}

/-- The engine between two inputs stands for a sound desk with nothing in flight. -/
structure View (c : TradingCore n m) (d : Desk n m) : Prop where
  ledger : Ledger c d
  books : Books c d
  wired : Wired c
  inv : Inv d
  idle : d.flight = none

theorem View.of_still {c' : TradingCore n m} (h : View c d) (hs : c'.still = c.still) : View c' d where
  ledger := h.ledger.of_still hs
  books := h.books.of_eq (book_of_still hs)
  wired := h.wired.of_setup (setup_of_still hs)
  inv := h.inv
  idle := h.idle

/-- A drawn sequence number changes nothing. -/
theorem View.report (h : View c d) : View c.take_output_seq.1 d := h.of_still (still_take_output_seq c)

/-- The order of the request still fits into its price level. A replaced order
has left the book by then, unless it only shrinks. -/
def TradingCore.fits (c : TradingCore n m) (request : OrderRequest) : Bool :=
  match c.instrument_index.lookup request.instrument, request.kind with
  | some i, .New => !(c.book i).level_overflows request.side request.price request.quantity
  | some i, .Replace =>
    match c.client_orders.lookup (request.account, request.target_client_order_id) with
    | none => false
    | some order_id =>
      match (c.book i).remove order_id with
      | .ok (some existing, book) =>
        (request.price = existing.price && request.quantity < existing.total_quantity) ||
          !book.level_overflows existing.side request.price (request.quantity - existing.cumulative_filled)
      | _ => false
  | _, _ => false

/-- The outputs tell the story of what the request did to the desk. -/
def Tells (c c' : TradingCore n m) (d d' : Desk n m) (request : OrderRequest) (out : List OutputEvent) : Prop :=
  ∃ story, Story c.wiring (c.fits request) d request story d' ∧ Emits c.stamps c'.stamps story out

/-- The client sequence of the request is above the last one of its account. -/
def TradingCore.InSequence (c : TradingCore n m) (request : OrderRequest) : Prop :=
  ∃ a, c.account_index.lookup request.account = some a ∧ val c.accounts[a].last_client_seq < val request.client_seq

instance (request : OrderRequest) : Decidable (c.InSequence request) :=
  inferInstanceAs (Decidable (∃ a, c.account_index.lookup request.account = some a ∧
    val c.accounts[a].last_client_seq < val request.client_seq))

/-- The request cancels a live order. -/
def TradingCore.Cancels (c : TradingCore n m) (request : OrderRequest) : Prop :=
  request.kind = .Cancel ∧ (c.client_orders.lookup (request.account, request.target_client_order_id)).isSome

instance (request : OrderRequest) : Decidable (c.Cancels request) :=
  inferInstanceAs (Decidable (request.kind = .Cancel ∧
    (c.client_orders.lookup (request.account, request.target_client_order_id)).isSome))

/-- What handling a request does. -/
structure Outcome (c c' : TradingCore n m) (d : Desk n m) (request : OrderRequest) (out : List OutputEvent)
    (report : ExecutionReport) : Prop where
  setup : c'.setup = c.setup
  clean : Clean c c'
  /-- Cancels are accepted out of sequence, too. -/
  accepted : report.reject_reason = none → c.InSequence request ∨ c.Cancels request
  steps : c'.fault = none → ∃ d' ms, Steps c.floor c.ceiling d ms d' ∧ View c' d' ∧ Settles c.wiring out ms ∧
    Tells c c' d d' request (out ++ [.Report report])

/-- The final report comes after the others. -/
theorem Emits.final {s : Stamps} {e : TradingCore n m} {story out : List OutputEvent} {report final : ExecutionReport}
    (h : Emits s e.stamps story out) (hf : e.take_output_seq.1.fault = none) (hb : report.bare = final)
    (hseq : report.output_seq = e.take_output_seq.2) (heng : report.engine_seq = e.take_output_seq.1.engine_seq) :
    Emits s e.take_output_seq.1.stamps (story ++ [.Report final]) (out ++ [.Report report]) := by
  have h1 := emits_report hf hseq (heng.trans (engine_seq_take_output_seq e))
  rw [hb] at h1
  exact h.append h1

/-- A rejected request only draws a sequence number. -/
theorem Outcome.reject (h : View c d) (request : OrderRequest) (reason : RejectReason) :
    Outcome c (c.reject_report request reason).1 d request [] (c.reject_report request reason).2 where
  setup := setup_of_still (still_take_output_seq c)
  clean := clean_take_output_seq c
  accepted hr := by cases hr
  steps hf := ⟨d, [], .refl, h.report, rfl, _, .reject reason, (Emits.nil c.stamps).final hf rfl rfl rfl⟩

/-! ## New orders -/

/-- What a fill of the other side leaves of an order fits just when the order fitted before. -/
theorem level_overflows_after {b b' : OrderBook} {l l' : List NewOrder} (h : Holds b l) (h' : Holds b' l') {s : Side}
    {p : PriceTicks} {q r : UInt64} (hl : levelAt l' s p = levelAt l s p) (hr : val r = val q ∨ levelAt l s p = []) :
    b'.level_overflows s p r = false ↔ b.level_overflows s p q = false := by
  rw [h.level_overflows_iff, h'.level_overflows_iff, hl]
  rcases hr with hr | hr
  · rw [hr]
  · simp only [hr, true_or]

/-- No order rests at a price where the other side trades. -/
theorem level_nil_of_crossed (h : Listed d) {i : Fin n} {s : Side} {p : PriceTicks}
    (hc : ∃ o ∈ d.book i, o.side = s.opposite ∧ Crosses o.side o.price p) : levelAt (d.book i) s p = [] := by
  obtain ⟨o, ho, hs, hc⟩ := hc
  rw [List.eq_nil_iff_forall_not_mem]
  intro x hx
  obtain ⟨hx', hxs, rfl⟩ := mem_levelAt.1 hx
  cases s with
  | Buy =>
    have := i64_lt.1 (h.uncrossed hx' ho hxs hs)
    rw [hs] at hc
    exact absurd hc (Int.not_le.2 this)
  | Sell =>
    have := i64_lt.1 (h.uncrossed ho hx' hs hxs)
    rw [hs] at hc
    exact absurd hc (Int.not_le.2 this)

theorem Ledger.with_flight (h : Ledger c d) (f : Option (Flight n m)) : Ledger c { d with flight := f } :=
  ⟨h.positions.congr (fun _ _ => rfl) rfl rfl, h.orders.same (fun _ => rfl) rfl, h.owner, h.order_id, h.priority⟩

/-- The order in flight is done. -/
theorem View.leave (hl : Ledger c d) (hb : Books c d) (hw : Wired c) (hi : Inv d) : View c { d with flight := none } where
  ledger := hl.with_flight none
  books := hb
  wired := hw
  inv := hi.leave
  idle := rfl

section Tails
variable {lo hi : Fin m → Int} {c' : TradingCore n m} {d' : Desk n m} {f : Flight n m} {limit : PriceTicks}
  {filled : QuantityLots} {fills : List Fill} {story out : List OutputEvent} {ms : List (Move n m)} {l' : List NewOrder}
  {r' left : UInt64}

/-- An order that is done after it was matched. -/
theorem Executed.leave (hx : Executed lo hi c c' d d' f limit filled fills story out ms l' r' left)
    (hb : WordBounds lo hi) (hw : Wired c) (hinv : Inv d) (hc : c'.fault = none) :
    ∃ d'', Steps lo hi d ms d'' ∧ View c' d'' ∧ Settles c.wiring out ms ∧ Emits c.stamps c'.stamps story out ∧
      d''.book = Function.update d.book f.instrument_index l' := by
  obtain ⟨-, hbook, hbooks, hsett, hemits⟩ := hx.done hc
  exact ⟨{ d' with flight := none }, by simpa using hx.steps.snoc .leave,
    .leave hx.ledger hbooks (hw.of_setup hx.setup) (hx.steps.inv hb hinv), hsett, hemits, hbook⟩

/-- An order that rests after it was matched: it does unless it did not fit before. -/
theorem Executed.rest (hx : Executed lo hi c c' d d' f limit filled fills story out ms l' r' left)
    (hb : WordBounds lo hi) (total cum : QuantityLots) (hbooks : Books c d) (hw : Wired c) (hinv : Inv d) (hf : d.flight = some f)
    (hroom : (d.book f.instrument_index).length < (c.book f.instrument_index).capacity)
    (hr : 0 < val r') (htotal : val total - val cum = val r') :
    ∃ c'', c'.rest_order_with f.instrument_index f.account_index f.tag.client_order_id f.tag.side limit total cum
        f.tag.order_id = .ok c'' ∧ c''.setup = c.setup ∧ Clean c c'' ∧
      (c''.fault = none → ∃ d'' p, Steps lo hi d ms d'' ∧ View c'' d'' ∧ Settles c.wiring out ms ∧
        Emits c.stamps c''.stamps story out ∧ d''.book = Function.update d.book f.instrument_index
          (if (c.book f.instrument_index).level_overflows f.tag.side limit f.left then l'
          else l' ++ [f.order limit total cum p])) := by
  have hsub : val (total - cum) = val r' := by rw [u64_sub (by omega), htotal]
  have hinv' := hx.steps.inv hb hinv
  have hfresh : f.tag.order_id ∉ l'.map NewOrder.order_id := by
    intro hm
    obtain ⟨x, hx', he⟩ := List.mem_map.1 (hx.ids.subset hm)
    exact (hinv.flight f hf).fresh hx' he
  have hlen : l'.length < (c'.book f.instrument_index).capacity := by
    have := hx.ids.length_le
    rw [List.length_map, List.length_map] at this
    rw [hx.capacity]; omega
  have hlevel : (c'.book f.instrument_index).level_overflows f.tag.side limit (total - cum) =
      (c.book f.instrument_index).level_overflows f.tag.side limit f.left := by
    have := level_overflows_after (hbooks f.instrument_index) hx.holds (q := f.left) (r := total - cum) (hx.level limit) (by
      by_cases h0 : 0 < val filled
      · exact .inr (level_nil_of_crossed hinv.toListed (hx.crossed h0))
      · have h1 := (u64_bounds filled).1
        have h2 := hx.sum
        exact .inl (by omega))
    rw [Bool.eq_iff_iff, ← not_iff_not, Bool.not_eq_true, Bool.not_eq_true]
    exact this
  have hbehind := hx.behind
  obtain ⟨c'', hrest, hset, hclean, hdone⟩ := rest_order_with_ok (f := { f with left := left }) lo hi hx.ledger
    (hw.of_setup hx.setup) hinv' hx.flight limit total cum hx.holds hfresh hlen (by omega)
    (by rw [htotal]; exact hbehind) (fun hc => by
      obtain ⟨h1, h2, h3, -, -⟩ := hx.done hc
      refine ⟨by rw [htotal, h1], h3, by rw [h2]; simp, ?_⟩
      rcases hx.exhausted with h0 | h0
      · omega
      · intro x hx' hs
        rw [hs]; exact h0 x hx' hs)
  refine ⟨c'', hrest, hset.trans hx.setup, hx.clean.trans hclean, fun hc => ?_⟩
  obtain ⟨hstamps, d'', p, hstep, hled, hbk, hidle, hbook⟩ := hdone hc
  obtain ⟨-, hbook', -, hsett, hemits⟩ := hx.done (hclean.sticky hc)
  refine ⟨d'', p, by simpa using hx.steps.snoc hstep, ⟨hled, hbk, (hw.of_setup hx.setup).of_setup hset,
    hstep.inv hb hinv', hidle⟩, hsett, by rw [hstamps]; exact hemits, ?_⟩
  rw [hbook, hbook']
  dsimp only
  rw [Function.update_idem, hlevel]
  rfl

/-- The report of an order that comes to rest, or would. -/
theorem landing_rest {f : Flight n m} {request : OrderRequest} {kind : ReportKind} {overflows : Bool}
    {filled r' : QuantityLots} {l' : List NewOrder} (hr : 0 < val r')
    (ht : request.kind = .New → request.order_type = .Limit) (p : PrioritySeq) :
    Landing f request kind (!overflows) filled r' l' (landed request f.tag kind (openState filled) filled r')
      (if overflows then l' else l' ++ [f.order request.price request.quantity filled p]) := by
  cases overflows with
  | true => exact .dropped hr ht rfl
  | false => exact .rests p hr ht rfl

end Tails

/-- The order of a request for a new one, in flight. -/
def newFlight (request : OrderRequest) (checked : CheckedNewOrder n m) (order_id : OrderId) : Flight n m where
  account_index := checked.account_index
  instrument_index := checked.instrument_index
  tag := ⟨order_id, request.account, request.client_order_id, request.side⟩
  left := request.quantity

theorem submit_ok (h : View c d) {checked : CheckedNewOrder n m} {order_id : OrderId} (ha : AdmitsNew c request checked)
    (hid : next c.next_order_id = some order_id) :
    Step c.floor c.ceiling d []
        { d with flight := some (newFlight request checked order_id), next_order_id := order_id } ∧
      Ledger { c with next_order_id := order_id }
        { d with flight := some (newFlight request checked order_id), next_order_id := order_id } := by
  have hl := h.ledger
  refine ⟨.submit _ h.idle ?_ ?_ ?_ ?_, hl.positions.congr (fun _ _ => rfl) rfl rfl, hl.orders.same (fun _ => rfl) rfl,
    hl.owner, rfl, hl.priority⟩
  · rw [← hl.order_id]
    exact checked_add_eq_some.1 hid
  · exact (hl.owner _).symm.trans ha.account
  · rintro i o ho ⟨h1, h2⟩
    have := (hl.orders.client (request.account, request.client_order_id) o.order_id).2
      ⟨i, o.tag, List.mem_map_of_mem ho, Prod.ext h1 h2, rfl⟩
    rw [ha.fresh] at this
    cases this
  · exact admitted_of_exposure (f := newFlight request checked order_id) hl.positions rfl (by simp) ha.exposure

/-- A request for a new order. -/
theorem handle_new_ok (h : View c d) (hk : request.kind = .New) (hsafe : Safe (c.check_new_order request)) :
    ∃ c' out report, c.handle_new request = .ok (c', out, report) ∧ Outcome c c' d request out report := by
  obtain ⟨r, hr⟩ := hsafe
  rw [TradingCore.handle_new, hr, ok_bind]
  cases r with
  | error reason => exact ⟨_, _, _, rfl, .reject h request reason⟩
  | ok checked =>
    have ha := check_new_order_passes hr
    have hseq : c.InSequence request := ⟨_, ha.account, ha.sequence⟩
    dsimp only
    cases hid : next c.next_order_id with
    | none =>
      refine ⟨_, _, _, rfl, setup_of_still (still_take_output_seq _), (clean_exhausted c).trans (clean_take_output_seq _),
        nofun, fun hc => ?_⟩
      have := (clean_take_output_seq (c.set_fault .SequenceExhausted)).sticky hc
      simp [TradingCore.set_fault] at this
    | some order_id =>
      obtain ⟨hstep, hled⟩ := submit_ok h ha hid
      have hinv := hstep.inv (wordBounds c) h.inv
      obtain ⟨c₂, out, filled, fills, d₂, ms, l', r', left, hex, hx⟩ := execute_ok (wordBounds c) request hled
        (c := { c with next_order_id := order_id }) h.books ⟨h.wired.account, h.wired.instrument⟩ hinv rfl ha.account
        ha.instrument checked.execution_limit
      have hex' : TradingCore.execute { c with next_order_id := order_id } checked.instrument_index checked.account_index
        request order_id request.side checked.execution_limit request.quantity = .ok (c₂, out, filled) := hex
      have hsum : val filled + val r' = val request.quantity := hx.sum
      have hr0 := u64_bounds r'
      obtain ⟨remaining, hrem, hremv⟩ := exists_checked_sub rfl (a := request.quantity) (b := filled) (by omega)
      have hwired : Wired ({ c with next_order_id := order_id } : TradingCore n m) :=
        ⟨h.wired.account, h.wired.instrument⟩
      have hclean : Clean c ({ c with next_order_id := order_id } : TradingCore n m) := .of_eq rfl rfl
      have hremaining : remaining = r' := val_inj.1 (by omega)
      subst hremaining
      have htells : ∀ {d₃ : Desk n m} {l'' : List NewOrder} {final : ExecutionReport},
          Steps c.floor c.ceiling { d with flight := some (newFlight request checked order_id), next_order_id := order_id }
            ms d₃ → Landing (newFlight request checked order_id) request .Accepted (c.fits request) filled remaining l' final
            l'' → d₃.book = Function.update d.book checked.instrument_index l'' →
          Story c.wiring (c.fits request) d request (fillsStory (c.wiring.instruments checked.instrument_index).id request
            order_id request.side request.quantity 0 fills ++ [.Report final]) d₃ := by
        intro d₃ l'' final hsteps hland hbook
        exact .enter (f := newFlight request checked order_id) hk rfl rfl rfl
          (by rw [← h.ledger.order_id]; exact next_eq_some.1 hid) (hsteps.evolves (wordBounds c) hinv).issued rfl
          ha.instrument hx.matched hsum hland hbook
      -- The order is filled, or a market order has lost its remainder.
      have hgone : ∀ {report final : ExecutionReport}, Landing (newFlight request checked order_id) request .Accepted
          (c.fits request) filled remaining l' final l' → report.bare = final →
          report.output_seq = c₂.take_output_seq.2 → report.engine_seq = c₂.take_output_seq.1.engine_seq →
          Outcome c c₂.take_output_seq.1 d request out report := by
        intro report final hland hb hout heng
        refine ⟨(setup_of_still (still_take_output_seq c₂)).trans hx.setup,
          (hclean.trans hx.clean).trans (clean_take_output_seq c₂), fun _ => .inl hseq, fun hc => ?_⟩
        obtain ⟨d₃, hsteps, hview, hsett, hemits, hbook⟩ :=
          hx.leave (wordBounds c) hwired hinv ((clean_take_output_seq c₂).sticky hc)
        exact ⟨d₃, _, (Steps.one hstep).trans hsteps, hview.report, hsett, _, htells hsteps hland hbook,
          hemits.final hc hb hout heng⟩
      dsimp only
      rw [hex', ok_bind]
      dsimp only
      rw [hrem]
      dsimp only
      by_cases hz : QuantityLots.is_zero remaining = true
      · rw [if_pos hz]
        exact ⟨_, _, _, rfl, hgone (.filled (is_zero_iff.1 hz)) rfl rfl rfl⟩
      · rw [if_neg hz]
        rw [is_zero_iff] at hz
        by_cases hmarket : request.order_type = .Market
        · rw [if_pos hmarket]
          exact ⟨_, _, _, rfl, hgone (.cancelled (by omega) hk hmarket) rfl rfl rfl⟩
        · rw [if_neg hmarket]
          have htype : request.order_type = .Limit := by
            cases ht : request.order_type <;> [rfl; exact absurd ht hmarket]
          have hlimit := ha.limit htype
          have hroom : (d.book checked.instrument_index).length < (c.book checked.instrument_index).capacity := by
            have := ha.room
            rw [(h.books _).is_full, decide_eq_false_iff_not] at this
            omega
          obtain ⟨c₃, hrest, hset, hclean₃, hdone⟩ := hx.rest (wordBounds c) request.quantity filled
            h.books hwired hinv rfl hroom (by omega) (by omega)
          rw [hlimit] at hrest hdone
          have hrest' : c₂.rest_order checked.instrument_index checked.account_index request order_id request.quantity
            filled = .ok c₃ := hrest
          rw [hrest', ok_bind]
          refine ⟨_, _, _, rfl, (setup_of_still (still_take_output_seq c₃)).trans hset,
            (hclean.trans hclean₃).trans (clean_take_output_seq c₃), fun _ => .inl hseq, fun hc => ?_⟩
          obtain ⟨d₃, p, hsteps, hview, hsett, hemits, hbook⟩ := hdone ((clean_take_output_seq c₃).sticky hc)
          have hfits : c.fits request =
              !(c.book checked.instrument_index).level_overflows request.side request.price request.quantity := by
            simp only [TradingCore.fits, ha.instrument, hk]
          refine ⟨d₃, _, (Steps.one hstep).trans hsteps, hview.report, hsett, _,
            htells hsteps (by rw [hfits]; exact landing_rest (by omega) (fun _ => htype) p) hbook, hemits.final hc rfl rfl rfl⟩

/-! ## Cancels -/

/-- The engine after an order left its book and the maps. -/
def TradingCore.without_order (c : TradingCore n m) (a : Fin m) (i : Fin n) (book : OrderBook) (p : InstrumentPosition)
    (o : NewOrder) : TradingCore n m :=
  { (c.set_book i book).set_position a i p with
    live_orders := c.live_orders.erase o.order_id
    client_orders := c.client_orders.erase (o.account, o.client_order_id) }

/-- Taking an order out: remove it from the book, release its reservation, drop it from the maps. -/
theorem take_out (h : View c d) {i : Fin n} {o : NewOrder} (ho : o ∈ d.book i) {a : Fin m}
    (ha : d.owner o.account = some a) :
    ∃ node book p, (c.book i).remove o.order_id = .ok (some node, book) ∧ node.toNewOrder = o ∧
      book.capacity = (c.book i).capacity ∧
      (c.set_book i book).release_reservation a i o.side o.left o.price = (c.set_book i book).set_position a i p ∧
      (c.without_order a i book p o).setup = c.setup ∧
      View (c.without_order a i book p o) (d.setBook i (without NewOrder.order_id o.order_id (d.book i))) := by
  have hl := h.inv.toListed
  obtain ⟨node, book, hrem, hnode, hbook, hcap⟩ := (h.books i).remove_ok ho
  obtain ⟨p, hp, hpos⟩ := (h.ledger.set_book i book).positions.release (draws_without (hl.ids i) ho) ha
  have hset : (c.without_order a i book p o).setup = c.setup :=
    (setup_set_position (c.set_book i book) a i p).trans (setup_set_book c i book)
  refine ⟨node, book, p, hrem, hnode, hcap, hp, hset, ⟨hpos, h.ledger.orders.erase hl ho, h.ledger.owner,
    h.ledger.order_id, h.ledger.priority⟩, h.books.set hbook, h.wired.of_setup hset, ?_, h.idle⟩
  exact h.inv.cancel ho

/-- The order a client key stands for. -/
theorem Ledger.order_of_key (h : Ledger c d) {account : AccountId} {key : ClientOrderId} {id : OrderId}
    (hk : c.client_orders.lookup (account, key) = some id) :
    ∃ i, ∃ o ∈ d.book i, o.order_id = id ∧ o.account = account ∧ o.client_order_id = key := by
  obtain ⟨i, t, ht, hkey, hid⟩ := (h.orders.client _ _).1 hk
  obtain ⟨o, ho, rfl⟩ := List.mem_map.1 ht
  rw [Prod.mk.injEq] at hkey
  exact ⟨i, o, ho, hid, hkey.1, hkey.2⟩

theorem handle_cancel_ok (h : View c d) (hkind : request.kind = .Cancel) :
    ∃ c' report, c.handle_cancel request = .ok (c', report) ∧ Outcome c c' d request [] report := by
  rw [TradingCore.handle_cancel]
  split
  · exact ⟨_, _, rfl, .reject h request _⟩
  · dsimp only
    cases hk : c.client_orders.lookup (request.account, request.target_client_order_id) with
    | none => exact ⟨_, _, rfl, .reject h request _⟩
    | some order_id =>
      dsimp only
      cases hlive : c.live_orders.lookup order_id with
      | none => exact ⟨_, _, rfl, .reject h request _⟩
      | some live =>
        obtain ⟨i, o, ho, rfl, hacc, hcl⟩ := h.ledger.order_of_key hk
        obtain ⟨t, ht, hid, hown⟩ := (h.ledger.orders.live _ _).1 hlive
        obtain ⟨hi, rfl⟩ := h.inv.tag_unique ht (List.mem_map_of_mem ho) hid
        subst hi
        obtain ⟨node, book, p, hrem, rfl, -, hrel, hset, hview⟩ := take_out h ho hown
        have hsound := (h.inv.working ho).1
        have hrem' : c.instruments[live.instrument_index].book.remove node.order_id = .ok (some node, book) := hrem
        simp only [hrem', ok_bind, expect_some, OrderNode.remaining_eq hsound]
        have hclean : Clean c (c.without_order live.account_index live.instrument_index book p node.toNewOrder) :=
          .of_eq rfl rfl
        rw [hrel]
        have hstory : Story c.wiring (c.fits request) d request _ _ := .cancel hkind ho hacc hcl
        have hstamps : (c.without_order live.account_index live.instrument_index book p node.toNewOrder).stamps = c.stamps :=
          rfl
        rw [TradingCore.without_order, show node.toNewOrder.account = request.account from hacc,
          show node.toNewOrder.client_order_id = request.target_client_order_id from hcl] at hset hview hclean hstamps
        refine ⟨_, _, rfl, (setup_of_still (still_take_output_seq _)).trans hset, hclean.trans (clean_take_output_seq _),
          fun _ => .inr ⟨hkind, by rw [hk]; rfl⟩, fun hc => ⟨_, [], .one (.cancel _ _ ho), hview.report, rfl, _, hstory, ?_⟩⟩
        rw [← hstamps]
        exact (Emits.nil _).final hc rfl rfl rfl

/-! ## Replaces -/

theorem setBook_setBook (d : Desk n m) (i : Fin n) (l l' : List NewOrder) : (d.setBook i l).setBook i l' = d.setBook i l' := by
  simp only [Desk.setBook, Function.update_idem]

/-- The order a replace found is the one its client key stands for. -/
theorem AdmitsReplace.existing (ha : AdmitsReplace c request checked) (h : View c d) :
    checked.existing.toNewOrder ∈ d.book checked.instrument_index ∧ checked.existing.order_id = checked.order_id ∧
      checked.existing.account = request.account ∧ checked.existing.client_order_id = request.target_client_order_id ∧
      d.owner checked.existing.account = some checked.account_index := by
  obtain ⟨ho, hid⟩ := (h.books _).get_iff ha.found
  obtain ⟨i, o, ho', hid', hacc, hcl⟩ := h.ledger.order_of_key ha.order
  obtain ⟨-, ht⟩ := h.inv.tag_unique (List.mem_map_of_mem ho) (List.mem_map_of_mem ho') (hid.trans hid'.symm)
  have hacc' : checked.existing.account = request.account := (tag_eq_iff.1 ht).2.1.trans hacc
  exact ⟨ho, hid, hacc', (tag_eq_iff.1 ht).2.2.1.trans hcl, by rw [hacc', ← h.ledger.owner]; exact ha.account⟩

/-- A lower total at the same price. -/
theorem replace_in_place_ok (h : View c d) (hk : request.kind = .Replace) (ha : AdmitsReplace c request checked)
    (hin : request.price = checked.existing.price ∧ request.quantity < checked.existing.total_quantity) :
    ∃ c' report, c.replace_in_place request checked = .ok (c', report) ∧ Outcome c c' d request [] report := by
  obtain ⟨ho, hid, hacc, hcl, hown⟩ := ha.existing h
  obtain ⟨a, i, order_id, existing⟩ := checked
  dsimp only at ho hid hacc hcl hown hin
  have hseq : c.InSequence request := ⟨_, ha.account, ha.sequence⟩
  have htotal : val existing.cumulative_filled ≤ val request.quantity := ha.total
  subst hid
  have hl := h.inv.toListed
  have hs := (hl.working ho).1
  have hlt := u64_lt.1 hin.2
  have hleft := NewOrder.left_val hs
  obtain ⟨released, hrel, hrelv⟩ := exists_checked_sub rfl (Int.le_of_lt hlt)
  obtain ⟨b₁, hred, hb₁, -⟩ := (h.books i).reduce_total_ok ho htotal (by
    have := (h.books i).openTotal_le ho
    omega)
  rw [TradingCore.replace_in_place]
  dsimp only
  rw [hrel]
  dsimp only
  by_cases heq : request.quantity = existing.cumulative_filled
  · have hdraw : Draws (d.book i) existing.toNewOrder (val released)
        (without NewOrder.order_id existing.order_id (d.book i)) := by
      rw [hrelv, heq, ← hleft]
      exact draws_without (hl.ids i) ho
    obtain ⟨p, hp, hpos⟩ := h.ledger.positions.release hdraw hown
    have ho₁ := mem_amend.2 (.inr ⟨existing.toNewOrder, ho, rfl, rfl⟩ : _ ∨ ∃ x ∈ d.book i, x.order_id =
      existing.order_id ∧ { x with total_quantity := request.quantity } =
        { existing.toNewOrder with total_quantity := request.quantity })
    obtain ⟨node, b₂, hrem, -, hb₂, -⟩ := hb₁.remove_ok ho₁
    rw [without_amend (by intro x; rfl)] at hb₂
    have hread : ((c.set_position a i p).set_book i b₁).instruments[i].book = b₁ :=
      (book_set_book (c.set_position a i p) i i b₁).trans (if_pos rfl)
    have hred' : (c.set_position a i p).instruments[i].book.reduce_total existing.order_id request.quantity = .ok b₁ := hred
    have hrem' : b₁.remove existing.order_id = .ok (some node, b₂) := hrem
    rw [hp]
    simp only [hred', ok_bind, if_pos heq, hread, hrem']
    have hset := (setup_set_book ((c.set_position a i p).set_book i b₁) i b₂).trans
      ((setup_set_book (c.set_position a i p) i b₁).trans (setup_set_position c a i p))
    have hbooks := Books.set (i := i) (Books.set (c := c.set_position a i p) (i := i) h.books hb₁) hb₂
    rw [setBook_setBook] at hbooks
    have horders := h.ledger.orders.erase hl ho
    rw [hacc] at horders
    have hview : View { ((c.set_position a i p).set_book i b₁).set_book i b₂ with
        live_orders := c.live_orders.erase existing.order_id
        client_orders := c.client_orders.erase (request.account, existing.client_order_id) }
        (d.setBook i (without NewOrder.order_id existing.order_id (d.book i))) :=
      ⟨⟨hpos, horders, h.ledger.owner, h.ledger.order_id, h.ledger.priority⟩, hbooks, h.wired.of_setup hset,
        h.inv.cancel ho, h.idle⟩
    have hclean : Clean c { ((c.set_position a i p).set_book i b₁).set_book i b₂ with
        live_orders := c.live_orders.erase existing.order_id
        client_orders := c.client_orders.erase (request.account, existing.client_order_id) } := .of_eq rfl rfl
    refine ⟨_, _, rfl, (setup_of_still (still_take_output_seq _)).trans hset, hclean.trans (clean_take_output_seq _),
      fun _ => .inl hseq, fun hc => ⟨_, [], .one (.cancel i _ ho), hview.report, rfl, _, .retire hk ho hacc hcl ha.instrument heq, ?_⟩⟩
    exact Emits.final (e := { ((c.set_position a i p).set_book i b₁).set_book i b₂ with
        live_orders := c.live_orders.erase existing.order_id
        client_orders := c.client_orders.erase (request.account, existing.client_order_id) }) (.nil c.stamps) hc rfl rfl rfl
  -- A smaller order keeps its place.
  · have hgt : val existing.cumulative_filled < val request.quantity :=
      lt_of_le_of_ne htotal fun he => heq (val_inj.1 he.symm)
    have hdraw : Draws (d.book i) existing.toNewOrder (val released) (amend NewOrder.order_id existing.order_id
        (fun o => { o with total_quantity := request.quantity }) (d.book i)) := by
      rw [hrelv]
      exact draws_set_total (hl.ids i) ho hs htotal
    obtain ⟨p, hp, hpos⟩ := h.ledger.positions.release hdraw hown
    have hred' : (c.set_position a i p).instruments[i].book.reduce_total existing.order_id request.quantity = .ok b₁ := hred
    obtain ⟨lots, hlots, hlotsv⟩ := exists_checked_sub rfl htotal
    rw [hp]
    simp only [hred', ok_bind, if_neg heq, hlots]
    have hset := (setup_set_book (c.set_position a i p) i b₁).trans (setup_set_position c a i p)
    have hstep : Step c.floor c.ceiling d [] _ := .reduce i _ request.quantity ho hgt (Int.le_of_lt hlt)
    have horders : OrderMaps c.live_orders c.client_orders (d.setBook i (amend NewOrder.order_id existing.order_id
        (fun o => { o with total_quantity := request.quantity }) (d.book i))) := h.ledger.orders.amend i _ fun _ => rfl
    have hview : View ((c.set_position a i p).set_book i b₁) (d.setBook i (amend NewOrder.order_id existing.order_id
        (fun o => { o with total_quantity := request.quantity }) (d.book i))) :=
      ⟨⟨hpos, horders, h.ledger.owner, h.ledger.order_id, h.ledger.priority⟩,
        Books.set (c := c.set_position a i p) h.books hb₁, h.wired.of_setup hset, hstep.inv (wordBounds c) h.inv, h.idle⟩
    have hclean : Clean c ((c.set_position a i p).set_book i b₁) := .of_eq rfl rfl
    obtain ⟨node, b, hrem, hnode, -⟩ := (h.books i).remove_ok ho
    have hfits : c.fits request = true := by
      have h1 : request.price = node.price := by
        rw [hin.1]; exact (congrArg NewOrder.price hnode).symm
      have h2 : request.quantity < node.total_quantity := by
        rw [show node.total_quantity = existing.total_quantity from congrArg NewOrder.total_quantity hnode]; exact hin.2
      have h3 : c.client_orders.lookup (request.account, request.target_client_order_id) = some existing.order_id := ha.order
      have h4 : c.instrument_index.lookup request.instrument = some i := ha.instrument
      have h5 : (c.book i).remove existing.order_id = .ok (some node, b) := hrem
      simp only [TradingCore.fits, h4, hk, h3, h5, h1, h2, decide_true, Bool.and_self, Bool.true_or]
    refine ⟨_, _, rfl, (setup_of_still (still_take_output_seq _)).trans hset, hclean.trans (clean_take_output_seq _),
      fun _ => .inl hseq, fun hc => ⟨_, [], .one hstep, hview.report, rfl, _, .shrink hk ho hacc hcl ha.instrument hfits hin.1 hlotsv, ?_⟩⟩
    exact Emits.final (e := (c.set_position a i p).set_book i b₁) (.nil c.stamps) hc rfl rfl rfl

/-- A new price or a higher total: out of the book, through matching, and back under the old id. -/
theorem replace_requeue_ok (h : View c d) (hk : request.kind = .Replace) (ha : AdmitsReplace c request checked)
    (hin : ¬(request.price = checked.existing.price ∧ request.quantity < checked.existing.total_quantity)) :
    ∃ c' out report, c.replace_requeue request checked = .ok (c', out, report) ∧ Outcome c c' d request out report := by
  obtain ⟨ho, hid, hacc, hcl, hown⟩ := ha.existing h
  obtain ⟨a, i, order_id, existing⟩ := checked
  dsimp only at ho hid hacc hcl hown hin
  have hseq : c.InSequence request := ⟨_, ha.account, ha.sequence⟩
  have htotal : val existing.cumulative_filled ≤ val request.quantity := ha.total
  obtain ⟨remaining, hrem, hexp⟩ := ha.exposure
  dsimp only at hrem hexp
  subst hid
  have hl := h.inv.toListed
  have hs := (hl.working ho).1
  rw [OrderNode.remaining_eq hs, Except.ok.injEq] at hrem
  subst hrem
  obtain ⟨node, book, p, hremove, hnode, hcap, hrel, hset, hview⟩ := take_out h ho hown
  have hclean : Clean c (c.without_order a i book p existing.toNewOrder) := .of_eq rfl rfl
  have hremove' : c.instruments[i].book.remove existing.order_id = .ok (some node, book) := hremove
  have hrel' : (c.set_book i book).release_reservation a i existing.side existing.left existing.price =
    (c.set_book i book).set_position a i p := hrel
  have hc₁ : c.without_order a i book p existing.toNewOrder = { (c.set_book i book).set_position a i p with
      live_orders := ((c.set_book i book).set_position a i p).live_orders.erase existing.order_id
      client_orders := ((c.set_book i book).set_position a i p).client_orders.erase
        (request.account, existing.client_order_id) } := by
    rw [← hacc]; rfl
  have hread : (c.without_order a i book p existing.toNewOrder).book i = book :=
    (book_set_book c i i book).trans (if_pos rfl)
  have hstamps : (c.without_order a i book p existing.toNewOrder).stamps = c.stamps := rfl
  rw [TradingCore.replace_requeue]
  simp only [hremove', ok_bind, OrderNode.remaining_eq hs, hrel', ← hc₁]
  clear hc₁ hrel hrel' hremove'
  generalize c.without_order a i book p existing.toNewOrder = c₁ at *
  by_cases heq : request.quantity = existing.cumulative_filled
  · rw [if_pos heq]
    exact ⟨_, _, _, rfl, (setup_of_still (still_take_output_seq c₁)).trans hset, hclean.trans (clean_take_output_seq c₁),
      fun _ => .inl hseq, fun hc => ⟨_, [], .one (.cancel i _ ho), hview.report, rfl, _, .retire hk ho hacc hcl ha.instrument heq, by
        rw [← hstamps]; exact (Emits.nil _).final hc rfl rfl rfl⟩⟩
  · rw [if_neg heq]
    have hq := u64_bounds request.quantity
    have hc0 := u64_bounds existing.cumulative_filled
    have hgt : val existing.cumulative_filled < val request.quantity :=
      lt_of_le_of_ne htotal fun he => heq (val_inj.1 he.symm)
    obtain ⟨target, htarget, htargetv⟩ := exists_checked_sub rfl htotal
    have htarget' : request.quantity - existing.cumulative_filled = target :=
      val_inj.1 ((u64_sub htotal).trans htargetv.symm)
    rw [htarget'] at hexp
    have hfits : c.fits request = !(c₁.book i).level_overflows existing.side request.price target := by
      have h1 : c.client_orders.lookup (request.account, request.target_client_order_id) = some existing.order_id := ha.order
      have h2 : c.instrument_index.lookup request.instrument = some i := ha.instrument
      have h3 : (c.book i).remove existing.order_id = .ok (some node, book) := hremove
      have h4 : (decide (request.price = existing.price) && decide (request.quantity < existing.total_quantity)) = false := by
        rw [← Bool.not_eq_true, Bool.and_eq_true, decide_eq_true_iff, decide_eq_true_iff]
        exact hin
      simp only [TradingCore.fits, h2, hk, h1, h3, hnode, h4, Bool.false_or, htarget', hread]
    -- The order in flight keeps its tag.
    have hres := reserved_draws (draws_without (hl.ids i) ho) hown a i existing.side
    rw [if_pos ⟨rfl, rfl, rfl⟩] at hres
    have hstep : Step c.floor c.ceiling d [] _ := .requeue existing.toNewOrder ⟨a, i, existing.tag, target⟩ h.idle ho rfl
      hown (admitted_of_exposure (f := ⟨a, i, existing.tag, target⟩) h.ledger.positions rfl hres hexp)
    have hinv := hstep.inv (wordBounds c) h.inv
    obtain ⟨c₂, out, filled, fills, d₂, ms, l', r', left, hex, hx⟩ := execute_ok (wordBounds c) request
      (hview.ledger.with_flight (some ⟨a, i, existing.tag, target⟩)) hview.books hview.wired hinv rfl
      (by rw [show c₁.account_index = c.account_index from congrArg Setup.account_index hset]; exact ha.account)
      (by rw [show c₁.instrument_index = c.instrument_index from congrArg Setup.instrument_index hset]; exact ha.instrument)
      request.price
    have hex' : c₁.execute i a request existing.order_id existing.side request.price target = .ok (c₂, out, filled) := hex
    have hsum : val filled + val r' = val target := hx.sum
    have hr0 := u64_bounds r'
    have hf0 := u64_bounds filled
    obtain ⟨cum, hcum, hcumv⟩ := exists_checked_add rfl (a := existing.cumulative_filled) (b := filled)
      (by simp only [Machine.hi]; omega)
    have hmatched : Fills existing.tag.side.opposite request.price (without NewOrder.order_id existing.order_id (d.book i)) target
        fills l' r' := by
      have := hx.matched
      simpa only [Desk.setBook, Function.update_self] using this
    have htells : ∀ {d₃ : Desk n m} {l'' : List NewOrder} {final : ExecutionReport},
        Landing ⟨a, i, existing.tag, target⟩ request .Replaced (c.fits request) cum r' l' final l'' →
        d₃.book = Function.update (Function.update d.book i (without NewOrder.order_id existing.order_id (d.book i))) i l'' →
        Story c.wiring (c.fits request) d request (fillsStory (c₁.wiring.instruments i).id request existing.order_id
          existing.side target 0 fills ++ [.Report final]) d₃ := by
      intro d₃ l'' final hland hbook
      rw [Function.update_idem] at hbook
      rw [wiring_of_setup hset]
      have hpos : 0 < val target := by omega
      exact .requeue (f := ⟨a, i, existing.tag, target⟩) hk ho hacc hcl rfl htargetv hpos ha.instrument hmatched
        (by omega) hland hbook
    simp only [htarget, hex', ok_bind, hcum]
    by_cases hfull : cum = request.quantity
    · rw [if_pos hfull]
      refine ⟨_, _, _, rfl, (setup_of_still (still_take_output_seq c₂)).trans (hx.setup.trans hset),
        (hclean.trans hx.clean).trans (clean_take_output_seq c₂), fun _ => .inl hseq, fun hc => ?_⟩
      obtain ⟨d₃, hsteps, hview', hsett, hemits, hbook⟩ :=
        hx.leave (wordBounds c) hview.wired hinv ((clean_take_output_seq c₂).sticky hc)
      rw [hstamps] at hemits
      have hr' : val r' = 0 := by
        have := congrArg val hfull
        omega
      exact ⟨d₃, _, (Steps.one hstep).trans hsteps, hview'.report, by rw [← wiring_of_setup hset]; exact hsett, _,
        htells (.filled hr') hbook, hemits.final hc rfl rfl rfl⟩
    · rw [if_neg hfull]
      have hne : val cum ≠ val request.quantity := fun he => hfull (val_inj.1 he)
      have hlen : (without NewOrder.order_id existing.order_id (d.book i)).length + 1 = (d.book i).length :=
        length_without (hl.ids i) ho
      have hfit := (h.books i).fits
      obtain ⟨c₃, hrest, hset₃, hclean₃, hdone⟩ := hx.rest (wordBounds c) request.quantity cum
        hview.books hview.wired hinv rfl (by
          rw [hread, hcap]
          simp only [Desk.setBook, Function.update_self]; omega) (by omega) (by omega)
      have hrest' : c₂.rest_order_with i a existing.client_order_id existing.side request.price request.quantity cum
        existing.order_id = .ok c₃ := hrest
      have hlots : checked_sub request.quantity cum = some r' := checked_sub_eq_some.2 (by omega)
      simp only [hrest', ok_bind, hlots]
      refine ⟨_, _, _, rfl, (setup_of_still (still_take_output_seq c₃)).trans (hset₃.trans hset),
        (hclean.trans hclean₃).trans (clean_take_output_seq c₃), fun _ => .inl hseq, fun hc => ?_⟩
      obtain ⟨d₃, q, hsteps, hview', hsett, hemits, hbook⟩ := hdone ((clean_take_output_seq c₃).sticky hc)
      rw [hstamps] at hemits
      exact ⟨d₃, _, (Steps.one hstep).trans hsteps, hview'.report, by rw [← wiring_of_setup hset]; exact hsett, _,
        htells (by rw [hfits]; exact landing_rest (by omega) (by rw [hk]; simp) q) hbook, hemits.final hc rfl rfl rfl⟩

theorem handle_replace_ok (h : View c d) (hk : request.kind = .Replace) (hsafe : Safe (c.check_replace request)) :
    ∃ c' out report, c.handle_replace request = .ok (c', out, report) ∧ Outcome c c' d request out report := by
  obtain ⟨r, hr⟩ := hsafe
  rw [TradingCore.handle_replace, hr, ok_bind]
  cases r with
  | error reason => exact ⟨_, _, _, rfl, .reject h request reason⟩
  | ok checked =>
    have ha := check_replace_passes hr
    dsimp only
    split
    · rename_i hin
      obtain ⟨c', report, hrun, hout⟩ := replace_in_place_ok h hk ha hin
      exact ⟨c', [], report, by simp only [hrun, ok_bind, pure_eq], hout⟩
    · rename_i hin
      exact replace_requeue_ok h hk ha hin

/-! ## All requests -/

/-- The check of the request does not panic. -/
def TradingCore.Checkable (c : TradingCore n m) (request : OrderRequest) : Prop :=
  match request.kind with
  | .New => Safe (c.check_new_order request)
  | .Cancel => True
  | .Replace => Safe (c.check_replace request)

theorem checkable_of_sized (hs : Sized c) (h : View c d) (request : OrderRequest) : c.Checkable request := by
  rw [TradingCore.Checkable]
  split
  · exact check_new_order_safe hs request
  · trivial
  · exact check_replace_safe hs h.books request

/-- A request that was handled had a check that ended. -/
theorem checkable_of_handled {r : TradingCore n m × List OutputEvent × ExecutionReport}
    (h : c.handle_request request = .ok r) : c.Checkable request := by
  rw [TradingCore.handle_request] at h
  rw [TradingCore.Checkable]
  cases hk : request.kind with
  | New =>
    rw [hk] at h
    obtain ⟨x, hx, -⟩ := bind_eq_ok.1 h
    exact ⟨x, hx⟩
  | Cancel => trivial
  | Replace =>
    rw [hk] at h
    obtain ⟨x, hx, -⟩ := bind_eq_ok.1 h
    exact ⟨x, hx⟩

/-- Every request is a sequence of steps of the desk. -/
theorem handle_request_ok (h : View c d) (hsafe : c.Checkable request) :
    ∃ c' out report, c.handle_request request = .ok (c', out, report) ∧ Outcome c c' d request out report := by
  rw [TradingCore.handle_request]
  rw [TradingCore.Checkable] at hsafe
  cases hk : request.kind with
  | New =>
    rw [hk] at hsafe
    exact handle_new_ok h hk hsafe
  | Cancel =>
    obtain ⟨c', report, hrun, hout⟩ := handle_cancel_ok h hk
    exact ⟨c', [], report, by simp only [hrun, ok_bind, pure_eq], hout⟩
  | Replace =>
    rw [hk] at hsafe
    exact handle_replace_ok h hk hsafe

end Handlers

end TradingLab
