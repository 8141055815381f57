import TradingLab.Handled
import TradingLab.Invariants
/-!
# The kill switch

While the kill switch is engaged every new order and every replace is rejected,
so the books can only lose orders, to cancels. What one request can do then is
read off the inversion of the handlers; a run follows turn by turn.
-/
open LabLib

namespace TradingLab

/-! ## Requests while trading is stopped -/

section Stopped
variable {n m : Nat} {c c' : TradingCore n m} {d : Desk n m}
variable {out : List OutputEvent} {request : OrderRequest}

theorem not_killed_of_new {checked : CheckedNewOrder n m} (h : Passes (c.check_new_order request) checked) :
    c.global_kill = false := by
  simp only [TradingCore.check_new_order, TradingCore.check_trading_permitted, passes_bind, passes_reject_if] at h
  obtain ⟨_, -, a, -, i, -, _, -, _, -, _, -, _, ⟨_, hkill, -⟩, -⟩ := h
  exact Bool.eq_false_iff.2 hkill

theorem not_killed_of_replace {checked : CheckedReplace n m} (h : Passes (c.check_replace request) checked) :
    c.global_kill = false := by
  simp only [TradingCore.check_replace, TradingCore.check_trading_permitted, passes_bind, passes_reject_if] at h
  obtain ⟨a, -, i, -, id, -, found, -, existing, -, _, -, _, -, _, -, _, -, _, -, _, -, _, ⟨_, hkill, -⟩, -⟩ := h
  exact Bool.eq_false_iff.2 hkill

/-- The order leaves its book by this request. -/
structure CancelledBy (c c' : TradingCore n m) (request : OrderRequest) (i : Fin n) (node : OrderNode) : Prop where
  kind : request.kind = .Cancel
  account : node.account = request.account
  client : node.client_order_id = request.target_client_order_id
  removed : (c.book i).remove node.order_id = .ok (some node, c'.book i)
  others : ∀ j, j ≠ i → c'.book j = c.book j

/-- What a request does while trading is stopped. -/
structure Halted (c c' : TradingCore n m) (request : OrderRequest) (out : List OutputEvent) (report : ExecutionReport) :
    Prop where
  quiet : out = []
  lots : ∀ a i, (c'.position a i).position_lots = (c.position a i).position_lots
  order_ids : c'.next_order_id = c.next_order_id
  priorities : c'.next_priority = c.next_priority
  books : c'.book = c.book ∨ ∃ i node, CancelledBy c c' request i node
  refused : request.kind ≠ .Cancel → report.reject_reason ≠ none

theorem Handled.halted {report : ExecutionReport} (h : Handled c c' d request out report) (hk : c.global_kill = true) :
    Halted c c' request out report := by
  have hnew : ∀ {checked : CheckedNewOrder n m}, ¬Passes (c.check_new_order request) checked := fun hp => by
    rw [not_killed_of_new hp] at hk
    cases hk
  have hreplace : ∀ {checked : CheckedReplace n m}, ¬Passes (c.check_replace request) checked := fun hp => by
    rw [not_killed_of_replace hp] at hk
    cases hk
  cases h with
  | refused reason he hout =>
    have hg : (c.reject_report request reason).1.ground = c.ground := ground_of_still (still_take_output_seq c)
    have hr : (c.reject_report request reason).2.reject_reason = some reason := rfl
    rw [he] at hg hr
    refine ⟨hout, fun a i => ?_, congrArg Ground.next_order_id hg, congrArg Ground.next_priority hg,
      .inl (congrArg Ground.book hg), fun _ => by rw [hr]; nofun⟩
    rw [show c'.position = c.position from congrArg Ground.position hg]
  | exhausted _ hcheck => exact absurd hcheck hnew
  | cancels hkind hacc hcl hout _ hids hprio hlots hrem hothers =>
    exact ⟨hout, hlots, hids, hprio, .inr ⟨_, _, hkind, hacc, hcl, hrem, hothers⟩, fun hne => absurd hkind hne⟩
  | enters _ hcheck => exact absurd hcheck hnew
  | retires _ hcheck => exact absurd hcheck hreplace
  | reduces _ hcheck => exact absurd hcheck hreplace
  | requeues _ hcheck => exact absurd hcheck hreplace

theorem global_kill_take_output_seq (c : TradingCore n m) : c.take_output_seq.1.global_kill = c.global_kill :=
  eq_of_still TradingCore.global_kill (fun _ => rfl) (still_take_output_seq c)

theorem global_kill_apply_market (c : TradingCore n m) (event : MarketEvent) :
    (c.apply_market event).1.global_kill = c.global_kill := by
  rw [TradingCore.apply_market]
  split
  · rfl
  · dsimp only
    split
    · exact global_kill_take_output_seq _
    · rfl

/-- Only a release ends a stop. -/
theorem global_kill_apply_control {command : ControlCommand} (hne : command ≠ .SetGlobalKill false)
    (hk : c.global_kill = true) : (c.apply_control command).1.global_kill = true := by
  cases command with
  | SetGlobalKill engaged =>
    cases engaged with
    | false => exact absurd rfl hne
    | true =>
      rw [TradingCore.apply_control]
      dsimp only
      rw [if_pos hk]
      exact hk
  | SetAccountEnabled account enabled =>
    rw [TradingCore.apply_control]
    dsimp only
    split
    · exact hk
    · split
      · exact hk
      · exact (global_kill_take_output_seq _).trans hk
  | SetAccountLimits account limits =>
    rw [TradingCore.apply_control]
    dsimp only
    split
    · exact hk
    · exact (global_kill_take_output_seq _).trans hk

theorem global_kill_finish_request (c : TradingCore n m) (request : OrderRequest) (fingerprint : UInt64)
    (report : ExecutionReport) : (c.finish_request request fingerprint report).global_kill = c.global_kill := by
  rw [TradingCore.finish_request]
  dsimp only
  split <;> rfl

theorem global_kill_of_event (h : View c d) {event : InputEvent} (hne : event ≠ .Control (.SetGlobalKill false))
    (hk : c.global_kill = true) (he : c.apply_event event = .ok (c', out)) :
    c'.global_kill = true := by
  cases event with
  | Market event =>
    have hc : c' = (c.apply_market event).1 := congrArg Prod.fst (Except.ok.inj he).symm
    rw [hc, global_kill_apply_market, hk]
  | Control command =>
    have hc : c' = (c.apply_control command).1 := congrArg Prod.fst (Except.ok.inj he).symm
    rw [hc]
    exact global_kill_apply_control (fun hcommand => hne (by rw [hcommand])) hk
  | Order request =>
    cases apply_event_happened h he with
    | quiet hq => exact absurd rfl (hq request)
    | retry _ hc =>
      rw [hc, global_kill_take_output_seq, hk]
    | conflict _ hc =>
      rw [hc, record_outcome_eq]
      exact (global_kill_take_output_seq c).trans hk
    | handled _ ho _ hc =>
      rw [hc, global_kill_finish_request]
      exact (congrArg Setup.global_kill ho.setup).trans hk

/-- A turn on a request to cancel the order. -/
def CancelsOrder (o : NewOrder) (t : CoreTurn n m) : Prop :=
  ∃ request, t.input.event = .Order request ∧ request.kind = .Cancel ∧ request.account = o.account ∧
    request.target_client_order_id = o.client_order_id

/-- If the turn is on a new order or a replace that is no exact retry, it is rejected. An engine that has
stopped, or is out of sequence numbers for its inputs, ignores it. -/
def RefusesEntry (t : CoreTurn n m) : Prop :=
  ∀ request, t.input.event = .Order request → request.kind = .New ∨ request.kind = .Replace → ¬t.before.Retries request →
    (t.output = [] ∧ (t.before.fault ≠ none ∨ next t.before.engine_seq = none)) ∨
      ∃ report, t.output = [.Report report] ∧ report.reject_reason ≠ none

/-- From `c` to `c'` the engine only lost orders, and those to cancels. -/
structure Frozen (c c' : TradingCore n m) (ts : List (CoreTurn n m)) : Prop where
  quiet : ∀ t ∈ ts, trades t.output = []
  lots : ∀ a i, (c'.position a i).position_lots = (c.position a i).position_lots
  order_ids : c'.next_order_id = c.next_order_id
  priorities : c'.next_priority = c.next_priority
  books : ∀ i l, Holds (c.book i) l → ∃ l', Holds (c'.book i) l' ∧ l'.Sublist l ∧
    ∀ o ∈ l, o ∉ l' → ∃ t ∈ ts, CancelsOrder o t
  refuses : ∀ t ∈ ts, RefusesEntry t

theorem Frozen.refl (c : TradingCore n m) : Frozen c c [] where
  quiet _ ht := absurd ht List.not_mem_nil
  lots _ _ := rfl
  order_ids := rfl
  priorities := rfl
  books _ l hl := ⟨l, hl, .refl l, fun _ ho hno => absurd ho hno⟩
  refuses _ ht := absurd ht List.not_mem_nil

/-- What one turn does while trading is stopped. -/
structure Standstill (c c' : TradingCore n m) (t : CoreTurn n m) : Prop where
  quiet : trades t.output = []
  lots : ∀ a i, (c'.position a i).position_lots = (c.position a i).position_lots
  order_ids : c'.next_order_id = c.next_order_id
  priorities : c'.next_priority = c.next_priority
  books : c'.book = c.book ∨ ∃ request i node, t.input.event = .Order request ∧ CancelledBy c c' request i node
  refuses : RefusesEntry t

theorem Standstill.of_ground {t : CoreTurn n m} (hg : c'.ground = c.ground) (hquiet : trades t.output = [])
    (hr : RefusesEntry t) : Standstill c c' t where
  quiet := hquiet
  lots a i := by rw [show c'.position = c.position from congrArg Ground.position hg]
  order_ids := congrArg Ground.next_order_id hg
  priorities := congrArg Ground.next_priority hg
  books := .inl (congrArg Ground.book hg)
  refuses := hr

theorem Frozen.snoc {c₀ : TradingCore n m} {ts : List (CoreTurn n m)} (h : Frozen c₀ c ts) {t : CoreTurn n m}
    (ht : Standstill c c' t) : Frozen c₀ c' (ts ++ [t]) where
  quiet t' hm := by
    rcases List.mem_append.1 hm with hm | hm
    · exact h.quiet t' hm
    · rw [List.mem_singleton.1 hm]
      exact ht.quiet
  lots a i := (ht.lots a i).trans (h.lots a i)
  order_ids := ht.order_ids.trans h.order_ids
  priorities := ht.priorities.trans h.priorities
  books i l hl := by
    obtain ⟨l', hl', hsub, hgone⟩ := h.books i l hl
    have hbefore : ∀ o ∈ l, o ∉ l' → ∃ t' ∈ ts ++ [t], CancelsOrder o t' := fun o ho hno => by
      obtain ⟨t', hm, hc⟩ := hgone o ho hno
      exact ⟨t', List.mem_append_left _ hm, hc⟩
    rcases ht.books with hb | ⟨request, j, node, he, hc⟩
    · rw [hb]
      exact ⟨l', hl', hsub, hbefore⟩
    · by_cases hij : i = j
      · subst hij
        obtain ⟨hnode, -, hleft⟩ := hl'.of_remove hc.removed
        refine ⟨_, hleft, (without_sublist _ _).trans hsub, fun o ho hno => ?_⟩
        by_cases ho' : o ∈ l'
        · -- It was there until this turn, so it is the order that was cancelled.
          have hid : o.order_id = node.order_id := by
            by_contra hne
            exact hno (mem_without.2 ⟨ho', hne⟩)
          have heq : o = node.toNewOrder := List.inj_on_of_nodup_map hl'.ids ho' hnode hid
          refine ⟨t, List.mem_append_right _ List.mem_cons_self, request, he, hc.kind, ?_, ?_⟩
          · rw [heq]
            exact hc.account.symm
          · rw [heq]
            exact hc.client.symm
        · exact hbefore o ho ho'
      · rw [hc.others i hij]
        exact ⟨l', hl', hsub, hbefore⟩
  refuses t' hm := by
    rcases List.mem_append.1 hm with hm | hm
    · exact h.refuses t' hm
    · rw [List.mem_singleton.1 hm]
      exact ht.refuses

theorem standstill_of_ignored (hi : Ignores c c') (input : EngineInput) : Standstill c c' ⟨c, input, []⟩ := by
  cases hi with
  | faulted hf => exact .of_ground rfl rfl fun _ _ _ _ => .inl ⟨rfl, .inl hf⟩
  | exhausted _ hn => exact .of_ground rfl rfl fun _ _ _ _ => .inl ⟨rfl, .inr hn⟩

theorem refusesEntry_of_event (h : View c d) (hk : c.global_kill = true) {input : EngineInput} {seq : EngineSeq}
    {c₁ : TradingCore n m} (he : (c.entered input seq).apply_event input.event = .ok (c₁, out)) :
    RefusesEntry ⟨c, input, out⟩ := by
  intro request hr hkind hno
  dsimp only at hr hno
  rw [hr] at he
  cases apply_event_happened (h.entered input seq) he with
  | quiet hq => exact absurd rfl (hq request)
  | retry hhit => exact absurd ⟨_, _, hhit⟩ hno
  | conflict _ _ hout hreason => exact .inr ⟨_, hout, by rw [hreason]; nofun⟩
  | handled _ _ hh _ hout =>
    have hhalted := hh.halted hk
    rw [hhalted.quiet] at hout
    exact .inr ⟨_, hout, hhalted.refused (by rcases hkind with hkind | hkind <;> rw [hkind] <;> nofun)⟩

theorem standstill_of_event (h : View c d) (hk : c.global_kill = true) {input : EngineInput} {seq : EngineSeq}
    {c₁ : TradingCore n m} (he : (c.entered input seq).apply_event input.event = .ok (c₁, out)) :
    Standstill c (c₁.counted out) ⟨c, input, out⟩ := by
  have hr := refusesEntry_of_event h hk he
  rcases (apply_event_happened (h.entered input seq) he).ground with
    ⟨hg, ht⟩ | ⟨request, c₂, out₂, report, hevent, -, hh, hg, hout⟩
  · exact .of_ground hg ht hr
  · have hhalted := hh.halted hk
    have hbook : (c₁.counted out).book = c₂.book := congrArg Ground.book hg
    refine ⟨?_, fun a i => ?_, (congrArg Ground.next_order_id hg).trans hhalted.order_ids,
      (congrArg Ground.next_priority hg).trans hhalted.priorities, ?_, hr⟩
    · rw [hout, hhalted.quiet]
      rfl
    · rw [show (c₁.counted out).position = c₂.position from congrArg Ground.position hg]
      exact hhalted.lots a i
    · rcases hhalted.books with hb | ⟨i, node, hc⟩
      · exact .inl (hbook.trans hb)
      · exact .inr ⟨request, i, node, hevent, hc.kind, hc.account, hc.client, by rw [hbook]; exact hc.removed, by
          rw [hbook]; exact hc.others⟩

/-- While trading is stopped no trade happens, no position changes, no id and no
priority is given out, books only lose orders, each by a cancel, and every new
order and every replace that is no exact retry is rejected, or ignored by an
engine that takes no inputs any more. -/
theorem stopped_trading_only_cancels {allocator : SlabAllocator} {config : EngineConfig} {inputs : List EngineInput}
    {c c' : TradingCore config.instruments.length config.accounts.length} {outs : List (List OutputEvent)}
    (h : (TradingCore.new allocator config).run inputs = .ok (c, outs)) (hk : c.global_kill = true)
    {more : List EngineInput} {ts : List (CoreTurn config.instruments.length config.accounts.length)}
    (hmore : c.history more = .ok (c', ts)) (hno : ∀ input ∈ more, input.event ≠ .Control (.SetGlobalKill false)) :
    (∀ t ∈ ts, trades t.output = []) ∧
      (∀ a i, (c'.position a i).position_lots = (c.position a i).position_lots) ∧
      c'.next_order_id = c.next_order_id ∧ c'.next_priority = c.next_priority ∧
      (∀ i, ∃ l l', Holds (c.book i) l ∧ Holds (c'.book i) l' ∧ l'.Sublist l ∧
        ∀ o ∈ l, o ∉ l' → ∃ t ∈ ts, CancelsOrder o t) ∧
      ∀ t ∈ ts, RefusesEntry t := by
  have hrun : (∀ t ∈ ts, t.input.event ≠ .Control (.SetGlobalKill false)) → c'.global_kill = true ∧ Frozen c c' ts := by
    refine history_events (fun hf => run_view h hf) (fun c' ts =>
      (∀ t ∈ ts, t.input.event ≠ .Control (.SetGlobalKill false)) → c'.global_kill = true ∧ Frozen c c' ts)
      (fun _ => ⟨hk, .refl c⟩) ?_ ?_ hmore
    · intro c₁ ts input c₂ ih hi hts
      obtain ⟨hkill, hfrozen⟩ := ih fun t ht => hts t (List.mem_append_left _ ht)
      refine ⟨?_, hfrozen.snoc (standstill_of_ignored hi input)⟩
      cases hi with
      | faulted => exact hkill
      | exhausted => exact hkill
    · intro c₁ ts d input seq c₂ out ih _ hv _ he hts
      obtain ⟨hkill, hfrozen⟩ := ih fun t ht => hts t (List.mem_append_left _ ht)
      have hne : input.event ≠ _ := hts _ (List.mem_append_right _ List.mem_cons_self)
      have hkill' : c₂.global_kill = true := global_kill_of_event (hv.entered input seq) hne hkill he
      exact ⟨hkill', hfrozen.snoc (standstill_of_event hv hkill he)⟩
  have hfrozen := (hrun fun t ht => hno _ (by
    rw [← history_inputs TradingCore.apply hmore]
    exact List.mem_map_of_mem ht)).2
  refine ⟨hfrozen.quiet, hfrozen.lots, hfrozen.order_ids, hfrozen.priorities, fun i => ?_, hfrozen.refuses⟩
  obtain ⟨l, hl⟩ := run_holds h i
  obtain ⟨l', hl', hsub, hgone⟩ := hfrozen.books i l hl
  exact ⟨l, l', hl, hl', hsub, hgone⟩

end Stopped

def stopping : EngineInput := ⟨0, 0, .Control (.SetGlobalKill true)⟩

theorem stopped_trading_small :
    ∃ c outs c' ts, smallCore.run (smallInputs ++ [stopping]) = .ok (c, outs) ∧ c.global_kill = true ∧
      c.history [placed 1 2 .Sell 99 1, cancelling 1 3 3 1, replacing 2 3 2 .Buy 100 4] = .ok (c', ts) ∧ ts.length = 3 ∧
      (c.book ⟨0, by decide⟩).orders.len = 2 ∧ (c'.book ⟨0, by decide⟩).orders.len = 1 ∧
      (∀ t ∈ ts, trades t.output = []) ∧ c'.next_order_id = c.next_order_id ∧ ∀ t ∈ ts, RefusesEntry t := by
  have hends : Ends (smallCore.run (smallInputs ++ [stopping])) fun r => r.1.global_kill = true ∧
      (r.1.book ⟨0, by decide⟩).orders.len = 2 ∧
      Ends (r.1.history [placed 1 2 .Sell 99 1, cancelling 1 3 3 1, replacing 2 3 2 .Buy 100 4]) fun r' =>
        r'.2.length = 3 ∧ (r'.1.book ⟨0, by decide⟩).orders.len = 1 := by decide +kernel
  obtain ⟨⟨c, outs⟩, h, hk, hlen, ⟨c', ts⟩, hmore, hts, hlen'⟩ := hends
  obtain ⟨hquiet, -, hids, -, -, hrefuses⟩ := stopped_trading_only_cancels h hk hmore (by
    simp [placed, cancelling, replacing])
  exact ⟨c, outs, c', ts, h, hk, hmore, hts, hlen, hlen', hquiet, hids, hrefuses⟩

/-- An input that takes an engine sequence number and nothing else: its instrument is unknown. -/
def strayed : EngineInput := ⟨0, 0, .Market ⟨7, 0, 0, .Trade .Buy 100 1⟩⟩

theorem apply_strayed {n m : Nat} {c : TradingCore n m} (hf : c.fault = none) {seq : EngineSeq}
    (hn : next c.engine_seq = some seq) (hi : c.instrument_index.lookup 7 = none) :
    ∃ c', c.apply strayed = .ok (c', []) ∧ c'.fault = none ∧ c'.engine_seq = seq ∧ c'.global_kill = c.global_kill ∧
      c'.instrument_index = c.instrument_index ∧ c'.cache_hit = c.cache_hit := by
  have hmarket : ∀ c₁ : TradingCore n m, c₁.instrument_index.lookup 7 = none →
      c₁.apply_market ⟨7, 0, 0, .Trade .Buy 100 1⟩ =
        ({ c₁ with metrics := { c₁.metrics with market_events := c₁.metrics.market_events + 1 } }, []) := by
    intro c₁ hnone
    simp only [TradingCore.apply_market, hnone]
  have hevent : (c.entered strayed seq).apply_event strayed.event = .ok (_, []) :=
    congrArg Except.ok (hmarket (c.entered strayed seq) hi)
  rw [apply_eq hf _ hn, hevent, ok_bind]
  exact ⟨_, rfl, hf, rfl, rfl, rfl, rfl⟩

/-- An engine that is out of sequence numbers for its inputs answers a new order with nothing, not with a rejection. -/
theorem stopped_engine_ignores :
    ∃ c outs c', smallCore.run ([stopping] ++ List.replicate 18446744073709551614 strayed) = .ok (c, outs) ∧
      c.global_kill = true ∧ ¬c.Retries ⟨.New, 1, 1, 1, 1, 1, 0, .Buy, .Limit, 100, 1⟩ ∧
      c.apply (placed 1 1 .Buy 100 1) = .ok (c', []) := by
  let request : OrderRequest := ⟨.New, 1, 1, 1, 1, 1, 0, .Buy, .Limit, 100, 1⟩
  have hends : Ends (smallCore.run [stopping]) fun r => r.1.fault = none ∧ r.1.engine_seq = 1 ∧ r.1.global_kill = true ∧
      r.1.instrument_index.lookup 7 = none ∧ r.1.cache_hit request = none := by decide +kernel
  obtain ⟨⟨c, outs⟩, h, hf, hseq, hkill, hi, hhit⟩ := hends
  dsimp only at hf hseq hkill hi hhit
  obtain ⟨c', outs', h', hf', hseq', hkill', -, hhit'⟩ := runs_replicate TradingCore.apply h (i := strayed)
    (fun k (c : TradingCore _ _) => c.fault = none ∧ val c.engine_seq = 1 + k ∧ c.global_kill = true ∧
      c.instrument_index.lookup 7 = none ∧ c.cache_hit request = none)
    ⟨hf, by rw [hseq]; rfl, hkill, hi, hhit⟩ 18446744073709551614 (by
    rintro k c hk ⟨hf, hseq, hkill, hi, hhit⟩
    obtain ⟨seq, hn, hseq'⟩ : ∃ x, next c.engine_seq = some x ∧ _ := exists_next (by omega)
    obtain ⟨c', hr, hf', h1, h2, h3, h4⟩ := apply_strayed hf hn hi
    refine ⟨c', [], hr, hf', ?_, h2.trans hkill, by rw [h3]; exact hi, by rw [h4]; exact hhit⟩
    rw [h1, hseq', hseq]
    push_cast
    omega)
  refine ⟨c', outs', c'.set_fault .SequenceExhausted, h', hkill', ?_, ?_⟩
  · rintro ⟨a, previous, hp⟩
    rw [hhit'] at hp
    cases hp
  · have hs : c'.fault.isSome = false := by rw [hf']; rfl
    rw [TradingCore.apply, hs, next_eq_none.2 hseq']
    rfl

end TradingLab
