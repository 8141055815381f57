import TradingLab.Handled
import TradingLab.Invariants
/-!
# Requests the engine refuses

A rejected request leaves no trace but its report: whatever the reason, nothing
of the engine changes that a later request could notice, except that the
account remembers the rejection.
-/
open LabLib

namespace TradingLab

section Refusals
variable {n m : Nat} {c c' : TradingCore n m} {d : Desk n m}
variable {request : OrderRequest} {report : ExecutionReport} {out : List OutputEvent} {reason : RejectReason}

/-! ## Order ids do not run out -/

/-- A request draws at most one order id. -/
theorem Handled.issues (h : Handled c c' d request out report) : val c'.next_order_id ≤ val c.next_order_id + 1 := by
  have same : ∀ {x y : OrderId}, x = y → val x ≤ val y + 1 := fun he => by rw [he]; omega
  cases h with
  | refused reason he =>
    have hs : (c.reject_report request reason).1.shelf = c.shelf := shelf_take_output_seq c
    rw [he] at hs
    exact same (congrArg Shelf.next_order_id hs)
  | exhausted _ _ _ _ hs => exact same (congrArg Shelf.next_order_id hs)
  | cancels _ _ _ _ _ hids => exact same hids
  | enters _ _ hid _ hids =>
    rw [hids, next_eq_some.1 hid]
  | retires _ _ _ _ _ _ hids => exact same hids
  | reduces _ _ _ _ _ _ _ _ hids => exact same hids
  | requeues _ _ _ _ _ _ hids => exact same hids

theorem Happened.issues {event : InputEvent} (h : Happened c c' d out event) :
    val c'.next_order_id ≤ val c.next_order_id + 1 := by
  rcases h.ground with ⟨hg, -⟩ | ⟨request, c₁, out₁, report, -, -, hh, hg, -⟩
  · rw [show c'.next_order_id = c.next_order_id from congrArg Ground.next_order_id hg]
    omega
  · rw [show c'.next_order_id = c₁.next_order_id from congrArg Ground.next_order_id hg]
    exact hh.issues

/-- No more order ids are drawn than inputs are counted. -/
theorem history_order_ids {c₀ : TradingCore n m} (h₀ : c₀.fault = none → ∃ d, View c₀ d)
    (hle : val c₀.next_order_id ≤ val c₀.engine_seq) {inputs : List EngineInput} {ts : List (CoreTurn n m)}
    (h : c₀.history inputs = .ok (c, ts)) (hf : c.fault = none) : val c.next_order_id ≤ val c.engine_seq := by
  refine history_events h₀ (fun c _ => c.fault = none → val c.next_order_id ≤ val c.engine_seq) (fun _ => hle) ?_ ?_ h hf
  · intro c ts input c' ih hi hf'
    cases hi with
    | faulted hf => exact absurd hf' hf
    | exhausted => cases hf'
  · intro c ts d input seq c₁ out ih hf hv hn he hf'
    have hids := (apply_event_happened (hv.entered input seq) he).issues
    obtain ⟨d', ms, hdone⟩ := (applied_of_event (hv.entered input seq) he).done hf'
    obtain ⟨story, -, hemits⟩ := hdone.told
    have hseq : c₁.engine_seq = seq := hemits.engine
    have hle := ih hf
    change val c₁.next_order_id ≤ val c₁.engine_seq
    change val c₁.next_order_id ≤ val c.next_order_id + 1 at hids
    rw [hseq, next_eq_some.1 hn]
    omega

/-! ## Rejected requests -/

/-- Of the engine only counters, time, metrics and the fault may have changed,
and of its accounts only the cache of the one the request names. -/
structure Untouched (c c' : TradingCore n m) (request : OrderRequest) : Prop where
  engine : c' = { c with
    engine_seq := c'.engine_seq
    output_seq := c'.output_seq
    engine_time_ns := c'.engine_time_ns
    metrics := c'.metrics
    accounts := c'.accounts
    fault := c'.fault
    faults := c'.faults }
  account : ∀ a : Fin m, c'.accounts[a] = { c.accounts[a] with cache := c'.accounts[a].cache }
  others : ∀ a : Fin m, c.account_index.lookup request.account ≠ some a → c'.accounts[a] = c.accounts[a]

theorem Untouched.account_index (h : Untouched c c' request) :
    c'.account_index = c.account_index := by
  rw [h.engine]

theorem Untouched.trans {c₁ : TradingCore n m} (h : Untouched c c₁ request) (h' : Untouched c₁ c' request) :
    Untouched c c' request where
  engine := by
    refine h'.engine.trans ?_
    rw [h.engine]
  account a := by
    refine (h'.account a).trans ?_
    rw [h.account a]
  others a ha := by
    rw [h'.others a (by rw [h.account_index]; exact ha), h.others a ha]

theorem untouched_take_output_seq (c : TradingCore n m) (request : OrderRequest) :
    Untouched c c.take_output_seq.1 request := by
  rw [TradingCore.take_output_seq]
  split <;> exact ⟨rfl, fun _ => rfl, fun _ _ => rfl⟩

/-- The account remembers a rejection, and its client sequence stays. -/
theorem untouched_record_outcome {a : Fin m} (ha : c.account_index.lookup request.account = some a)
    (hr : report.reject_reason = some reason) :
    Untouched c (c.record_outcome a request (request_fingerprint request) report) request := by
  have hrecord : c.accounts[a].recorded request report = { c.accounts[a] with
      cache := c.accounts[a].cache.record request.request_id (request_fingerprint request) report } := by
    simp [AccountState.recorded, hr]
  rw [record_outcome_eq, hrecord]
  refine ⟨rfl, fun b => ?_, fun b hb => ?_⟩
  · simp only [TradingCore.set_account, getElem_set_fin]
    split
    · rename_i hba
      rw [hba]
    · rfl
  · have hne : b ≠ a := fun hba => hb (by rw [ha, hba])
    simp only [TradingCore.set_account, getElem_set_fin, if_neg hne]

theorem untouched_finish_request (c : TradingCore n m) (request : OrderRequest)
    (hr : report.reject_reason = some reason) :
    Untouched c (c.finish_request request (request_fingerprint request) report) request := by
  rw [TradingCore.finish_request]
  generalize (if report.reject_reason.isSome then _ else _ : EngineMetrics) = metrics
  have hmetrics : Untouched c { c with metrics := metrics } request := ⟨rfl, fun _ => rfl, fun _ _ => rfl⟩
  dsimp only
  split
  · rename_i a ha
    exact hmetrics.trans (untouched_record_outcome (c := { c with metrics := metrics }) ha hr)
  · exact hmetrics

/-- Drawing an output sequence number stops the engine when there is none. -/
theorem fault_take_output_seq (c : TradingCore n m) :
    c.take_output_seq.1.fault = if next c.output_seq = none then some .SequenceExhausted else c.fault := by
  rw [TradingCore.take_output_seq]
  cases next c.output_seq <;> rfl

/-- A request whose answer carries a reject reason. -/
theorem Happened.untouched (h : Happened c c' d out (.Order request)) (hid : next c.next_order_id ≠ none)
    (hlast : final_report out = some report) (hr : report.reject_reason = some reason) :
    Untouched c c' request ∧ out = [.Report report] ∧ c'.fault = c.take_output_seq.1.fault := by
  have hseq := untouched_take_output_seq c request
  cases h with
  | quiet hq => exact absurd rfl (hq request)
  | retry _ hc hout _ =>
    subst hout hc
    cases hlast
    exact ⟨hseq, rfl, rfl⟩
  | @conflict _ a _ hhit hc hout _ =>
    subst hout hc
    cases hlast
    have ha : c.take_output_seq.1.account_index.lookup request.account = some a := by
      rw [hseq.account_index]
      exact account_of_hit hhit
    exact ⟨hseq.trans (untouched_record_outcome ha hr), rfl, rfl⟩
  | @handled _ c₁ out₁ report₁ _ _ hh hc hout =>
    subst hout hc
    rw [final_report_append] at hlast
    cases hlast
    cases hh with
    | refused reason he hout =>
      have hc₁ : c.take_output_seq.1 = c₁ := congrArg Prod.fst he
      rw [hc₁] at hseq ⊢
      exact ⟨hseq.trans (untouched_finish_request c₁ request hr), by rw [hout]; rfl, fault_finish_request _ _ _ _⟩
    | exhausted _ _ hnone => exact absurd hnone hid
    | cancels _ _ _ _ haccepted => rw [haccepted] at hr; cases hr
    | enters _ _ _ haccepted => rw [haccepted] at hr; cases hr
    | retires _ _ _ _ haccepted => rw [haccepted] at hr; cases hr
    | reduces _ _ _ _ _ _ haccepted => rw [haccepted] at hr; cases hr
    | requeues _ _ _ _ haccepted => rw [haccepted] at hr; cases hr

/-- A request that ends rejected, for whatever reason, changes nothing but
counters, time, metrics and the cache of its account, and its only output is
the rejection. When the rejection finds no output sequence number the engine
stops. -/
theorem rejected_request_changes_nothing {allocator : SlabAllocator} {config : EngineConfig} {inputs : List EngineInput}
    {c c' : TradingCore config.instruments.length config.accounts.length} {outs : List (List OutputEvent)}
    (h : (TradingCore.new allocator config).run inputs = .ok (c, outs)) (hf : c.fault = none) {input : EngineInput}
    {request : OrderRequest} (he : input.event = .Order request) {out : List OutputEvent}
    (hrun : c.apply input = .ok (c', out)) {report : ExecutionReport} (hlast : final_report out = some report)
    {reason : RejectReason} (hr : report.reject_reason = some reason) :
    Untouched c c' request ∧ out = [.Report report] ∧
      c'.fault = if next c.output_seq = none then some .SequenceExhausted else none := by
  obtain ⟨d, hv⟩ := run_view h hf
  obtain ⟨ts, hts, -, -⟩ := exists_history TradingCore.apply h
  have hids := history_order_ids (fun _ => ⟨_, view_new allocator config⟩) (Int.le_refl _) hts hf
  rcases apply_cases hrun with ⟨hs, -⟩ | ⟨-, -, rfl⟩ | ⟨seq, c₁, -, hn, hevent, rfl⟩
  · rw [hf] at hs
    cases hs
  · cases hlast
  · rw [he] at hevent
    have hentered : Untouched c (c.entered input seq) request := ⟨rfl, fun _ => rfl, fun _ _ => rfl⟩
    have hcounted : Untouched c₁ (c₁.counted out) request := ⟨rfl, fun _ => rfl, fun _ _ => rfl⟩
    have hfresh : next (c.entered input seq).next_order_id ≠ none := by
      intro hnone
      have h1 : val c.next_order_id = _ := next_eq_none.1 hnone
      have h2 := next_eq_some.1 hn
      have h3 := u64_bounds seq
      omega
    obtain ⟨hsame, hout, hfault⟩ := (apply_event_happened (hv.entered input seq) hevent).untouched hfresh hlast hr
    refine ⟨(hentered.trans hsame).trans hcounted, hout, ?_⟩
    change c₁.fault = _
    rw [hfault, fault_take_output_seq]
    change (if next c.output_seq = none then _ else c.fault) = _
    rw [hf]

end Refusals

theorem rejected_request_small :
    ∃ c outs c' out report, smallCore.run smallInputs = .ok (c, outs) ∧ c.fault = none ∧
      c.apply (placed 2 3 .Buy 100 60) = .ok (c', out) ∧ final_report out = some report ∧
      report.reject_reason = some .MaxPosition ∧
      Untouched c c' ⟨.New, 2, 1, 3, 3, 3, 0, .Buy, .Limit, 100, 60⟩ ∧ out = [.Report report] ∧
      c'.fault = if next c.output_seq = none then some .SequenceExhausted else none := by
  have hends : Ends (smallCore.run smallInputs) fun r => r.1.fault = none ∧
      Ends (r.1.apply (placed 2 3 .Buy 100 60)) fun r' =>
        ∃ report ∈ final_report r'.2, report.reject_reason = some .MaxPosition := by decide +kernel
  obtain ⟨⟨c, outs⟩, h, hf, ⟨c', out⟩, hrun, report, hlast, hr⟩ := hends
  exact ⟨c, outs, c', out, report, h, hf, hrun, hlast, hr, rejected_request_changes_nothing h hf rfl hrun hlast hr⟩

section Exhausted
variable {n m : Nat} {c : TradingCore n m}

/-- An input that takes one engine and one output sequence number. -/
def limiting (account : AccountId) : EngineInput := ⟨0, 0, .Control (.SetAccountLimits account smallLimits)⟩

theorem apply_control_limits {account : AccountId} {a : Fin m} {output_seq : OutputSeq}
    (hq : next c.output_seq = some output_seq) (ha : c.account_index.lookup account = some a) (limits : AccountLimits) :
    (c.apply_control (.SetAccountLimits account limits)).1.fault = c.fault ∧
      (c.apply_control (.SetAccountLimits account limits)).1.engine_seq = c.engine_seq ∧
      (c.apply_control (.SetAccountLimits account limits)).1.output_seq = output_seq ∧
      (c.apply_control (.SetAccountLimits account limits)).1.account_index = c.account_index := by
  simp only [TradingCore.apply_control, ha, TradingCore.push_state, TradingCore.take_output_seq, TradingCore.set_account, hq,
    and_self]

theorem apply_limiting {account : AccountId} {a : Fin m} (hf : c.fault = none) {seq : EngineSeq}
    (hn : next c.engine_seq = some seq) {output_seq : OutputSeq} (hq : next c.output_seq = some output_seq)
    (ha : c.account_index.lookup account = some a) :
    ∃ c' out, c.apply (limiting account) = .ok (c', out) ∧ c'.fault = none ∧ c'.engine_seq = seq ∧
      c'.output_seq = output_seq ∧ c'.account_index = c.account_index := by
  obtain ⟨h1, h2, h3, h4⟩ := apply_control_limits (c := c.entered (limiting account) seq) hq ha smallLimits
  rw [apply_eq hf _ hn]
  exact ⟨_, _, rfl, h1.trans hf, h2, h3, h4⟩

/-- An engine that has used up its output sequence numbers, and not yet those of its inputs. -/
theorem output_seq_runs_out :
    ∃ c outs, smallCore.run (smallInputs ++ List.replicate 18446744073709551607 (limiting 1)) = .ok (c, outs) ∧
      c.fault = none ∧ val c.engine_seq = 18446744073709551613 ∧ val c.output_seq = 18446744073709551615 ∧
      c.account_index = smallCore.account_index := by
  have hends : Ends (smallCore.run smallInputs) fun r => r.1.fault = none ∧ r.1.engine_seq = 6 ∧ r.1.output_seq = 8 ∧
      r.1.account_index = smallCore.account_index := by decide +kernel
  obtain ⟨⟨c, outs⟩, h, hf, hseq, hout, hindex⟩ := hends
  dsimp only at hf hseq hout hindex
  have hlookup : smallCore.account_index.lookup 1 = some ⟨0, by decide⟩ := by decide +kernel
  obtain ⟨c', outs', h', hf', hseq', hout', hindex'⟩ := runs_replicate TradingCore.apply h (i := limiting 1)
    (fun k (c : TradingCore _ _) => c.fault = none ∧ val c.engine_seq = 6 + k ∧ val c.output_seq = 8 + k ∧
      c.account_index = smallCore.account_index) ⟨hf, by rw [hseq]; rfl, by rw [hout]; rfl, hindex⟩ 18446744073709551607 (by
    rintro k c hk ⟨hf, hseq, hout, hindex⟩
    obtain ⟨seq, hn, hseq'⟩ : ∃ x, next c.engine_seq = some x ∧ _ := exists_next (by omega)
    obtain ⟨q, hq, hout'⟩ : ∃ x, next c.output_seq = some x ∧ _ := exists_next (by omega)
    obtain ⟨c', out, hr, hf', h1, h2, h3⟩ := apply_limiting hf hn hq (by rw [hindex]; exact hlookup)
    refine ⟨c', out, hr, hf', ?_, ?_, h3.trans hindex⟩
    · rw [h1, hseq', hseq]
      push_cast
      omega
    · rw [h2, hout', hout]
      push_cast
      omega)
  exact ⟨c', outs', h', hf', hseq', hout', hindex'⟩

/-- A cancel from an account the engine does not know. -/
theorem apply_request_unknown {request : OrderRequest} (hk : request.kind = .Cancel)
    (ha : c.account_index.lookup request.account = none) :
    ∃ c' report, c.apply_request request = .ok (c', [.Report report]) ∧ report.reject_reason = some .UnknownAccount ∧
      c'.fault = c.take_output_seq.1.fault := by
  have hhit : c.cache_hit request = none := by
    rw [TradingCore.cache_hit, ha]
    rfl
  have hcancel : c.handle_cancel request = .ok (c.reject_report request .UnknownAccount) := by
    rw [TradingCore.handle_cancel, ha]
    rfl
  rw [TradingCore.apply_request, hhit, TradingCore.handle_request, hk]
  simp only [hcancel, ok_bind, pure_eq, List.nil_append]
  exact ⟨_, _, rfl, rfl, fault_finish_request _ _ _ _⟩

/-- A rejection without an output sequence number to go out under stops the engine. -/
theorem rejection_stops_engine :
    ∃ c outs c' report, smallCore.run (smallInputs ++ List.replicate 18446744073709551607 (limiting 1)) = .ok (c, outs) ∧
      c.fault = none ∧ c.apply (cancelling 9 1 1 1) = .ok (c', [.Report report]) ∧
      report.reject_reason = some .UnknownAccount ∧ c'.fault = some .SequenceExhausted := by
  obtain ⟨c, outs, h, hf, hseq, hout, hindex⟩ := output_seq_runs_out
  obtain ⟨seq, hn, -⟩ := exists_next (c := c.engine_seq) (by omega)
  have hlookup : c.account_index.lookup 9 = none := by
    rw [hindex]
    decide +kernel
  let request : OrderRequest := ⟨.Cancel, 9, 1, 1, 1, 1, 1, .Buy, .Limit, 0, 0⟩
  have hunknown : (c.entered (cancelling 9 1 1 1) seq).account_index.lookup request.account = none := hlookup
  obtain ⟨c₂, report, hreq, hr, hfault⟩ := apply_request_unknown rfl hunknown
  have hevent : (c.entered (cancelling 9 1 1 1) seq).apply_event (cancelling 9 1 1 1).event =
    .ok (c₂, [.Report report]) := hreq
  refine ⟨c, outs, c₂.counted [.Report report], report, h, hf, ?_, hr, ?_⟩
  · rw [apply_eq hf _ hn, hevent, ok_bind]
  · change c₂.fault = _
    rw [hfault, fault_take_output_seq]
    exact if_pos (next_eq_none.2 hout)

end Exhausted

end TradingLab
