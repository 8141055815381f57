import TradingLab.Handlers
/-!
# Inputs and runs

From requests to whole runs. An input that leaves the engine without a fault is
a sequence of steps of the desk; market data and control commands take none.
What every step of the desk keeps therefore holds in every state a run reaches.
-/
open LabLib

namespace TradingLab

/-! ## What a view reads -/

section Ground
variable {n m : Nat} {c c' : TradingCore n m} {d : Desk n m}

/-- What a view of the engine reads. -/
structure Ground (n m : Nat) where
  wiring : Wiring n m
  position : Fin m → Fin n → InstrumentPosition
  book : Fin n → OrderBook
  live_orders : HashMap OrderId (LiveOrder n m)
  client_orders : HashMap (AccountId × ClientOrderId) OrderId
  next_order_id : OrderId
  next_priority : PrioritySeq

def TradingCore.ground (c : TradingCore n m) : Ground n m where
  wiring := c.wiring
  position := c.position
  book := c.book
  live_orders := c.live_orders
  client_orders := c.client_orders
  next_order_id := c.next_order_id
  next_priority := c.next_priority

theorem ground_of_still (h : c'.still = c.still) : c'.ground = c.ground :=
  eq_of_still TradingCore.ground (fun _ => rfl) h

theorem ground_set_market (c : TradingCore n m) (i : Fin n) (market : MarketView) :
    (c.set_market i market).ground = c.ground := by
  have h1 : (fun j : Fin n => (c.set_market i market).instruments[j].config) = fun j => c.instruments[j].config := by
    funext j
    simp only [TradingCore.set_market, getElem_set_fin]
    split
    · rename_i h; rw [h]
    · rfl
  have h2 : (c.set_market i market).book = c.book := by
    funext j
    simp only [TradingCore.book, TradingCore.set_market, getElem_set_fin]
    split
    · rename_i h; rw [h]
    · rfl
  simp only [TradingCore.ground, TradingCore.wiring, h1, h2]
  rfl

theorem ground_set_account (c : TradingCore n m) (a : Fin m) (account : AccountState n)
    (hid : account.id = c.accounts[a].id) (hp : account.positions = c.accounts[a].positions) : (c.set_account a account).ground = c.ground := by
  have h1 : (fun b : Fin m => (c.set_account a account).accounts[b].id) = fun b => c.accounts[b].id := by
    funext b
    simp only [TradingCore.set_account, getElem_set_fin]
    split
    · rename_i h; rw [h, hid]
    · rfl
  have h2 : (c.set_account a account).position = c.position := by
    funext b j
    have hb : (c.set_account a account).accounts[b].positions = c.accounts[b].positions := by
      simp only [TradingCore.set_account, getElem_set_fin]
      split
      · rename_i h; rw [h, hp]
      · rfl
    exact congrArg (fun v => v[j]) hb
  simp only [TradingCore.ground, TradingCore.wiring, h1, h2]
  rfl

theorem View.of_ground (h : View c d) (hg : c'.ground = c.ground) : View c' d where
  ledger := by
    have h1 : c'.position = c.position := congrArg Ground.position hg
    have h2 : c'.live_orders = c.live_orders := congrArg Ground.live_orders hg
    have h3 : c'.client_orders = c.client_orders := congrArg Ground.client_orders hg
    have h4 : c'.account_index = c.account_index := congrArg (fun g => g.wiring.account_index) hg
    refine ⟨fun a i => ?_, ?_, ?_, ?_, ?_⟩
    · rw [h1]; exact h.ledger.positions a i
    · rw [h2, h3]; exact h.ledger.orders
    · rw [h4]; exact h.ledger.owner
    · exact (congrArg Ground.next_order_id hg).trans h.ledger.order_id
    · exact (congrArg Ground.next_priority hg).trans h.ledger.priority
  books := h.books.of_eq (congrArg Ground.book hg)
  wired := h.wired.of_wiring (congrArg Ground.wiring hg)
  inv := h.inv
  idle := h.idle

/-! ## What an account remembers -/

/-- What an account remembers of its requests. -/
structure Memory where
  cache : RequestCache
  last_client_seq : UInt64

def TradingCore.memory (c : TradingCore n m) (a : Fin m) : Memory := ⟨c.accounts[a].cache, c.accounts[a].last_client_seq⟩

/-- The memory with one more outcome. -/
def Memory.recorded (memory : Memory) (request : OrderRequest) (report : ExecutionReport) : Memory where
  cache := memory.cache.record request.request_id (request_fingerprint request) report
  last_client_seq := if report.reject_reason.isNone ∧ request.client_seq > 0 then request.client_seq
    else memory.last_client_seq

/-- The memories after the outcome of a request; requests of unknown accounts are not remembered. -/
def TradingCore.remembered (c : TradingCore n m) (request : OrderRequest) (report : ExecutionReport) : Fin m → Memory :=
  match c.account_index.lookup request.account with
  | some a => Function.update c.memory a ((c.memory a).recorded request report)
  | none => c.memory

theorem remembered_apply (c : TradingCore n m) (request : OrderRequest) (report : ExecutionReport) (a : Fin m) :
    c.remembered request report a = if c.account_index.lookup request.account = some a then
      (c.memory a).recorded request report else c.memory a := by
  rw [TradingCore.remembered]
  cases c.account_index.lookup request.account with
  | none => rfl
  | some b =>
    simp only [Function.update_apply, Option.some.injEq]
    by_cases hab : a = b
    · rw [if_pos hab, if_pos hab.symm, hab]
    · rw [if_neg hab, if_neg (Ne.symm hab)]

/-- What neither market data nor control commands change. -/
structure Footing (n m : Nat) where
  ground : Ground n m
  memory : Fin m → Memory
  stamps : Stamps
  fault : Option EngineFault
  faults : List EngineFault

def TradingCore.footing (c : TradingCore n m) : Footing n m := ⟨c.ground, c.memory, c.stamps, c.fault, c.faults⟩

theorem footing_set_market (c : TradingCore n m) (i : Fin n) (market : MarketView) :
    (c.set_market i market).footing = c.footing := by
  rw [TradingCore.footing, ground_set_market]
  rfl

theorem footing_set_account (c : TradingCore n m) (a : Fin m) (account : AccountState n)
    (hid : account.id = c.accounts[a].id) (hp : account.positions = c.accounts[a].positions)
    (hm : (⟨account.cache, account.last_client_seq⟩ : Memory) = c.memory a) :
    (c.set_account a account).footing = c.footing := by
  have hmem : (c.set_account a account).memory = c.memory := by
    funext b
    simp only [TradingCore.memory, TradingCore.set_account, getElem_set_fin]
    split
    · rename_i h; rw [h]; exact hm
    · rfl
  rw [TradingCore.footing, ground_set_account c a account hid hp, hmem]
  rfl

end Ground

/-! ## One event -/

section Events
variable {n m : Nat} {c c' : TradingCore n m} {d : Desk n m}
variable {event : InputEvent} {request : OrderRequest}

/-- The event gives the account other limits. -/
def SetsLimits (event : InputEvent) (account : AccountId) : Prop :=
  ∃ limits, event = .Control (.SetAccountLimits account limits)

/-- The last output, when it is a report. -/
def final_report (out : List OutputEvent) : Option ExecutionReport :=
  out.getLast?.bind fun event => match event with
    | .Report report => some report
    | _ => none

@[simp] theorem final_report_append (out : List OutputEvent) (report : ExecutionReport) :
    final_report (out ++ [.Report report]) = some report := by
  simp [final_report]

theorem final_report_bare (out : List OutputEvent) :
    final_report (out.map OutputEvent.bare) = (final_report out).map ExecutionReport.bare := by
  rw [final_report, final_report, List.getLast?_map]
  cases out.getLast? with
  | none => rfl
  | some event => cases event <;> rfl

theorem mem_of_final_report {out : List OutputEvent} {report : ExecutionReport} (h : final_report out = some report) :
    .Report report ∈ out := by
  rw [final_report, Option.bind_eq_some_iff] at h
  obtain ⟨event, he, hr⟩ := h
  cases event with
  | Report r =>
    cases hr
    exact List.mem_of_getLast? he
  | Trade _ => cases hr
  | State _ => cases hr

/-- The request repeats an earlier one exactly. -/
def TradingCore.Retries (c : TradingCore n m) (request : OrderRequest) : Prop :=
  ∃ a previous, c.cache_hit request = some (a, .Retry previous)

/-- What an event does to the memories of the accounts. -/
inductive Remembers (c c' : TradingCore n m) (out : List OutputEvent) : InputEvent → Prop
  | quiet {event : InputEvent} : (∀ request, event ≠ .Order request) → c'.memory = c.memory → Remembers c c' out event
  | retry {request : OrderRequest} : c.Retries request → c'.memory = c.memory → Remembers c c' out (.Order request)
  | records {request : OrderRequest} {report : ExecutionReport} : ¬c.Retries request → final_report out = some report →
      c'.memory = c.remembered request report →
      (report.reject_reason = none → c.cache_hit request = none ∧ (c.InSequence request ∨ c.Cancels request)) →
      Remembers c c' out (.Order request)

/-- What an event does to the desk, and the story its outputs tell. -/
inductive Effect (c : TradingCore n m) (d : Desk n m) : InputEvent → List OutputEvent → Desk n m → Prop
  | quiet {event : InputEvent} {story : List OutputEvent} : (∀ request, event ≠ .Order request) →
      (story = [] ∨ ∃ state, story = [.State state]) → Effect c d event story d
  /-- The cached report again, under new stamps. -/
  | retry {request : OrderRequest} {a : Fin m} {previous : ExecutionReport} :
      c.cache_hit request = some (a, .Retry previous) → Effect c d (.Order request) [.Report previous.bare] d
  | conflict {request : OrderRequest} {a : Fin m} : c.cache_hit request = some (a, .Conflict) →
      Effect c d (.Order request) [.Report (rejected request .DuplicateRequestConflict)] d
  | handled {request : OrderRequest} {story : List OutputEvent} {d' : Desk n m} : c.cache_hit request = none →
      Story c.wiring (c.fits request) d request story d' → Effect c d (.Order request) story d'

/-- What an event that ends without a fault does; its outputs are stamped from `s` on. -/
structure Done (c c' : TradingCore n m) (d : Desk n m) (event : InputEvent) (out : List OutputEvent) (s : Stamps)
    (d' : Desk n m) (ms : List (Move n m)) : Prop where
  steps : Steps c.floor c.ceiling d ms d'
  view : View c' d'
  settles : Settles c.wiring out ms
  told : ∃ story, Effect c d event story d' ∧ Emits s c'.stamps story out

/-- What an event does. -/
structure Applied (c c' : TradingCore n m) (d : Desk n m) (event : InputEvent) (out : List OutputEvent) (s : Stamps) :
    Prop where
  clean : Clean c c'
  wiring : c'.wiring = c.wiring
  limits : ∀ a : Fin m, ¬SetsLimits event c.accounts[a].id → c'.accounts[a].limits = c.accounts[a].limits
  memory : Remembers c c' out event
  done : c'.fault = none → ∃ d' ms, Done c c' d event out s d' ms

/-- An event without orders. -/
theorem Applied.quiet (h : View c d) (ho : ∀ request, event ≠ .Order request) (hb : c'.footing = c.footing)
    (hl : ∀ a : Fin m, ¬SetsLimits event c.accounts[a].id → c'.accounts[a].limits = c.accounts[a].limits) :
    Applied c c' d event [] c.stamps where
  clean := .of_eq (congrArg Footing.fault hb) (congrArg Footing.faults hb)
  wiring := congrArg (fun b => b.ground.wiring) hb
  limits := hl
  memory := .quiet ho (congrArg Footing.memory hb)
  done _ := by
    refine ⟨d, [], .refl, h.of_ground (congrArg Footing.ground hb), rfl, [], .quiet ho (.inl rfl), ?_⟩
    rw [show c'.stamps = c.stamps from congrArg Footing.stamps hb]
    exact .nil _

theorem accounts_take_output_seq (c : TradingCore n m) : c.take_output_seq.1.accounts = c.accounts :=
  eq_of_still TradingCore.accounts (fun _ => rfl) (still_take_output_seq c)

theorem memory_of_accounts (h : c'.accounts = c.accounts) : c'.memory = c.memory := by
  funext a
  simp only [TradingCore.memory, h]

/-- An event without orders that is announced by a state event. -/
theorem Applied.push (h : View c d) {c₁ : TradingCore n m} (ho : ∀ request, event ≠ .Order request)
    (hb : c₁.footing = c.footing)
    (hl : ∀ a : Fin m, ¬SetsLimits event c.accounts[a].id → c₁.accounts[a].limits = c.accounts[a].limits)
    (e : EngineStateEvent) : Applied c (c₁.push_state e).1 d event (c₁.push_state e).2 c.stamps := by
  have hacc : (c₁.push_state e).1.accounts = c₁.accounts := accounts_take_output_seq c₁
  have hg : (c₁.push_state e).1.ground = c.ground :=
    (ground_of_still (still_take_output_seq c₁)).trans (congrArg Footing.ground hb)
  refine ⟨(Clean.of_eq (congrArg Footing.fault hb) (congrArg Footing.faults hb)).trans (clean_take_output_seq c₁),
    congrArg Ground.wiring hg, fun a ha => ?_, ?_, fun hf => ?_⟩
  · rw [hacc]
    exact hl a ha
  · exact .quiet ho ((memory_of_accounts hacc).trans (congrArg Footing.memory hb))
  · have hemits := emits_one hf (.State ⟨c₁.take_output_seq.2, c₁.take_output_seq.1.engine_seq,
      c₁.take_output_seq.1.engine_time_ns, e⟩) rfl (engine_seq_take_output_seq c₁) rfl
    rw [show c₁.stamps = c.stamps from congrArg Footing.stamps hb] at hemits
    exact ⟨d, [], .refl, h.of_ground hg, rfl, _, .quiet ho (.inr ⟨_, rfl⟩), hemits⟩

theorem limits_set_account (c : TradingCore n m) (a b : Fin m) (account : AccountState n)
    (h : b = a → account.limits = c.accounts[a].limits) :
    (c.set_account a account).accounts[b].limits = c.accounts[b].limits := by
  simp only [TradingCore.set_account, getElem_set_fin]
  split
  · rename_i hb; rw [h hb, hb]
  · rfl

theorem apply_market_ok (h : View c d) (event : MarketEvent) :
    Applied c (c.apply_market event).1 d (.Market event) (c.apply_market event).2 c.stamps := by
  let c₁ : TradingCore n m := { c with metrics := { c.metrics with market_events := c.metrics.market_events + 1 } }
  have ho : ∀ request, InputEvent.Market event ≠ .Order request := nofun
  rw [TradingCore.apply_market]
  split
  · exact .quiet h ho rfl (fun _ _ => rfl)
  · rename_i i hi
    generalize MarketView.apply _ _ _ _ = r
    obtain ⟨market, update⟩ := r
    have hb : (c₁.set_market i market).footing = c.footing := footing_set_market c₁ i market
    dsimp only
    split
    · exact .push h ho hb (fun _ _ => rfl) _
    · exact .quiet h ho hb (fun _ _ => rfl)

theorem apply_control_ok (h : View c d) (command : ControlCommand) :
    Applied c (c.apply_control command).1 d (.Control command) (c.apply_control command).2 c.stamps := by
  let c₁ : TradingCore n m := { c with metrics := { c.metrics with control_events := c.metrics.control_events + 1 } }
  have ho : ∀ request, InputEvent.Control command ≠ .Order request := nofun
  have hq : Applied c c₁ d (.Control command) [] c.stamps := .quiet h ho rfl (fun _ _ => rfl)
  cases command with
  | SetGlobalKill engaged =>
    rw [TradingCore.apply_control]
    split
    · exact hq
    · have hb : TradingCore.footing { c₁ with global_kill := engaged } = c.footing := rfl
      exact .push h ho hb (fun _ _ => rfl) _
  | SetAccountEnabled account enabled =>
    rw [TradingCore.apply_control]
    split
    · exact hq
    · rename_i a ha
      have hb := footing_set_account c₁ a { c₁.accounts[a] with enabled := enabled } rfl rfl rfl
      split
      · exact hq
      · exact .push h ho hb (fun b _ => limits_set_account c₁ a b _ fun _ => rfl) _
  | SetAccountLimits account limits =>
    rw [TradingCore.apply_control]
    split
    · exact hq
    · rename_i a ha
      have hb := footing_set_account c₁ a { c₁.accounts[a] with limits := limits } rfl rfl rfl
      refine .push h ho hb (fun b hb => limits_set_account c₁ a b _ fun he => ?_) _
      -- The command names the account whose limits it sets.
      exact absurd ⟨limits, by rw [he, h.wired.account ha]⟩ hb

/-! ## Requests -/

/-- The account with a recorded outcome. -/
def AccountState.recorded (account : AccountState n) (request : OrderRequest) (report : ExecutionReport) :
    AccountState n :=
  { account with
    cache := account.cache.record request.request_id (request_fingerprint request) report
    last_client_seq := if report.reject_reason.isNone ∧ request.client_seq > 0 then request.client_seq
      else account.last_client_seq }

theorem record_outcome_eq (c : TradingCore n m) (a : Fin m) (request : OrderRequest) (report : ExecutionReport) :
    c.record_outcome a request (request_fingerprint request) report =
      c.set_account a (c.accounts[a].recorded request report) := by
  rw [TradingCore.record_outcome, AccountState.recorded]
  dsimp only
  split <;> rfl

/-- Recording an outcome is seen by the account's memory only. -/
structure Recorded (c c' : TradingCore n m) (request : OrderRequest) (report : ExecutionReport) : Prop where
  ground : c'.ground = c.ground
  clean : Clean c c'
  limits : ∀ a : Fin m, c'.accounts[a].limits = c.accounts[a].limits
  stamps : c'.stamps = c.stamps
  memory : c'.memory = c.remembered request report

theorem record_outcome_recorded (c : TradingCore n m) {a : Fin m} (report : ExecutionReport)
    (ha : c.account_index.lookup request.account = some a) :
    Recorded c (c.record_outcome a request (request_fingerprint request) report) request report := by
  rw [record_outcome_eq]
  refine ⟨ground_set_account c a _ rfl rfl, .of_eq rfl rfl, fun b => limits_set_account c a b _ fun _ => rfl, rfl, ?_⟩
  rw [TradingCore.remembered, ha]
  funext b
  simp only [TradingCore.memory, TradingCore.set_account, getElem_set_fin, Function.update_apply]
  split <;> rfl

theorem finish_request_recorded (c : TradingCore n m) (request : OrderRequest) (outcome : ExecutionReport) :
    Recorded c (c.finish_request request (request_fingerprint request) outcome) request outcome := by
  rw [TradingCore.finish_request]
  generalize (if outcome.reject_reason.isSome then _ else _ : EngineMetrics) = metrics
  let c₁ : TradingCore n m := { c with metrics := metrics }
  have hc : Clean c c₁ := .of_eq rfl rfl
  dsimp only
  cases ha : c.account_index.lookup request.account with
  | some a =>
    obtain ⟨h1, h2, h3, h4, h5⟩ := record_outcome_recorded c₁ outcome ha
    exact ⟨h1, hc.trans h2, h3, h4, h5⟩
  | none => exact ⟨rfl, hc, fun _ => rfl, rfl, by rw [TradingCore.remembered, ha]; rfl⟩

theorem fault_finish_request (c : TradingCore n m) (request : OrderRequest) (fingerprint : UInt64)
    (report : ExecutionReport) : (c.finish_request request fingerprint report).fault = c.fault := by
  rw [TradingCore.finish_request]
  dsimp only
  split <;> rfl

theorem account_of_hit {a : Fin m} {hit : CacheHit} (h : c.cache_hit request = some (a, hit)) :
    c.account_index.lookup request.account = some a := by
  simp only [TradingCore.cache_hit, Option.bind_eq_bind, Option.bind_eq_some_iff, Option.some.injEq, Prod.mk.injEq] at h
  obtain ⟨b, hb, _, -, rfl, -⟩ := h
  exact hb

theorem remembered_of_setup {report : ExecutionReport} (h : c'.setup = c.setup) :
    c'.remembered request report = c.remembered request report := by
  have h1 : c'.account_index = c.account_index := congrArg Setup.account_index h
  have h2 : c'.memory = c.memory := by
    funext a
    exact congrArg (fun s => (⟨(s.accounts a).cache, (s.accounts a).last_client_seq⟩ : Memory)) h
  simp only [TradingCore.remembered, h1, h2]

theorem apply_request_ok (h : View c d) (hsafe : c.cache_hit request = none → c.Checkable request) :
    ∃ c' out, c.apply_request request = .ok (c', out) ∧ Applied c c' d (.Order request) out c.stamps := by
  rw [TradingCore.apply_request]
  cases hhit : c.cache_hit request with
  | none =>
    obtain ⟨c₁, out, report, hrun, ho⟩ := handle_request_ok h (hsafe hhit)
    have hr := finish_request_recorded c₁ request report
    simp only [hrun, ok_bind, pure_eq]
    refine ⟨_, _, rfl, ho.clean.trans hr.clean, (congrArg Ground.wiring hr.ground).trans (wiring_of_setup ho.setup),
      fun a _ => ?_, ?_, fun hf => ?_⟩
    · exact (hr.limits a).trans (congrArg (fun s => (s.accounts a).limits) ho.setup)
    · refine .records ?_ (final_report_append out report) (hr.memory.trans (remembered_of_setup ho.setup))
        fun hacc => ⟨hhit, ho.accepted hacc⟩
      rintro ⟨a, previous, hp⟩
      rw [hhit] at hp; cases hp
    · obtain ⟨d', ms, h1, h2, h3, story, h4, h5⟩ := ho.steps (hr.clean.sticky hf)
      have hrep : Settles c.wiring [OutputEvent.Report report] [] := rfl
      exact ⟨d', ms, h1, h2.of_ground hr.ground, by simpa using h3.append hrep, story, .handled hhit h4,
        by rw [hr.stamps]; exact h5⟩
  | some hit =>
    obtain ⟨a, hit⟩ := hit
    have hset := setup_of_still (still_take_output_seq c)
    cases hit with
    | Retry previous =>
      refine ⟨_, _, rfl, clean_take_output_seq c, wiring_of_setup hset, fun b _ => ?_, ?_, fun hf => ?_⟩
      · exact congrArg (fun v => v[b].limits) (accounts_take_output_seq c)
      · exact .retry ⟨a, previous, hhit⟩ (memory_of_accounts (accounts_take_output_seq c))
      · exact ⟨d, [], .refl, h.report, rfl, _, .retry hhit, (Emits.nil c.stamps).final hf rfl rfl rfl⟩
    | Conflict =>
      let report := (c.reject_report request .DuplicateRequestConflict).2
      have ha : c.take_output_seq.1.account_index.lookup request.account = some a := by
        rw [show c.take_output_seq.1.account_index = c.account_index from congrArg Setup.account_index hset]
        exact account_of_hit hhit
      have hr := record_outcome_recorded c.take_output_seq.1 report ha
      refine ⟨c.take_output_seq.1.record_outcome a request (request_fingerprint request) report, [.Report report], rfl,
        (clean_take_output_seq c).trans hr.clean,
        (congrArg Ground.wiring hr.ground).trans (wiring_of_setup hset), fun b _ => ?_, ?_, fun hf => ?_⟩
      · exact (hr.limits b).trans (congrArg (fun v => v[b].limits) (accounts_take_output_seq c))
      · refine .records ?_ rfl (hr.memory.trans (remembered_of_setup hset)) nofun
        rintro ⟨b, previous, hp⟩
        rw [hhit] at hp; cases hp
      · refine ⟨d, [], .refl, h.report.of_ground hr.ground, rfl, _, .conflict hhit, ?_⟩
        rw [hr.stamps]
        exact (Emits.nil c.stamps).final (hr.clean.sticky hf) rfl rfl rfl

/-! ## All events -/

/-- The check an event leads to does not panic. -/
def TradingCore.Ready (c : TradingCore n m) (event : InputEvent) : Prop :=
  ∀ request, event = .Order request → c.cache_hit request = none → c.Checkable request

theorem ready_of_sized (hs : Sized c) (h : View c d) (event : InputEvent) : c.Ready event :=
  fun request _ _ => checkable_of_sized hs h request

/-- An event that was applied had a check that ended. -/
theorem ready_of_applied {r : TradingCore n m × List OutputEvent} (h : c.apply_event event = .ok r) :
    c.Ready event := by
  intro request he hhit
  rw [he, TradingCore.apply_event, TradingCore.apply_request, hhit] at h
  obtain ⟨x, hx, -⟩ := bind_eq_ok.1 h
  exact checkable_of_handled hx

theorem apply_event_ok (h : View c d) (hr : c.Ready event) :
    ∃ c' out, c.apply_event event = .ok (c', out) ∧ Applied c c' d event out c.stamps := by
  cases event with
  | Market event => exact ⟨_, _, rfl, apply_market_ok h event⟩
  | Order request => exact apply_request_ok h (hr request rfl)
  | Control command => exact ⟨_, _, rfl, apply_control_ok h command⟩

/-- An event that was applied. -/
theorem applied_of_event (h : View c d) {out : List OutputEvent} (he : c.apply_event event = .ok (c', out)) :
    Applied c c' d event out c.stamps := by
  obtain ⟨c₁, out₁, he', ha⟩ := apply_event_ok h (ready_of_applied he)
  rw [he] at he'
  cases he'
  exact ha

end Events

/-! ## One input -/

section Inputs
variable {n m : Nat} {c c' : TradingCore n m} {d : Desk n m}
variable {out : List OutputEvent} {seq : EngineSeq}

/-- The engine as it starts on an input. -/
def TradingCore.entered (c : TradingCore n m) (input : EngineInput) (engine_seq : EngineSeq) : TradingCore n m :=
  { c with
    engine_seq := engine_seq
    engine_time_ns := input.recv_time_ns
    metrics := { c.metrics with inputs_applied := c.metrics.inputs_applied + 1 } }

/-- The engine after it counted the reports of an input. -/
def TradingCore.counted (c : TradingCore n m) (out : List OutputEvent) : TradingCore n m :=
  { c with metrics := { c.metrics with
    reports_emitted := c.metrics.reports_emitted + .ofNat (out.countP fun event => event matches .Report _) } }

theorem apply_eq (hf : c.fault = none) (input : EngineInput) (hn : next c.engine_seq = some seq) :
    c.apply input =
      (c.entered input seq).apply_event input.event >>= fun r => .ok (r.1.counted r.2, r.2) := by
  have hs : c.fault.isSome = false := by rw [hf]; rfl
  rw [TradingCore.apply, hs, hn]
  rfl

/-- The ways an input ends. -/
theorem apply_cases {input : EngineInput} (h : c.apply input = .ok (c', out)) :
    (c.fault.isSome ∧ c' = c ∧ out = []) ∨
    (c.fault = none ∧ c' = c.set_fault .SequenceExhausted ∧ out = []) ∨
    ∃ seq c₁, c.fault = none ∧ next c.engine_seq = some seq ∧
      (c.entered input seq).apply_event input.event = .ok (c₁, out) ∧ c' = c₁.counted out := by
  cases hf : c.fault with
  | some fault =>
    rw [TradingCore.apply, hf] at h
    cases h
    exact .inl ⟨rfl, rfl, rfl⟩
  | none =>
    cases hn : next c.engine_seq with
    | none =>
      rw [TradingCore.apply, hf, hn] at h
      cases h
      exact .inr (.inl ⟨rfl, rfl, rfl⟩)
    | some seq =>
      rw [apply_eq hf input hn] at h
      obtain ⟨⟨c₁, out₁⟩, h1, h2⟩ := bind_eq_ok.1 h
      cases h2
      exact .inr (.inr ⟨seq, c₁, rfl, rfl, h1, rfl⟩)

theorem fault_none_of_apply {input : EngineInput} (h : c.apply input = .ok (c', out)) (hf : c'.fault = none) :
    c.fault = none := by
  rcases apply_cases h with ⟨-, rfl, -⟩ | ⟨h1, -⟩ | ⟨_, _, h1, -⟩
  · exact hf
  · exact h1
  · exact h1

theorem View.entered (h : View c d) (input : EngineInput) (seq : EngineSeq) : View (c.entered input seq) d :=
  h.of_ground rfl

/-- Entering an input changes nothing an event looks at but the stamps and the time. -/
theorem Effect.input {input : EngineInput} {event : InputEvent} {story : List OutputEvent} {d' : Desk n m}
    (h : Effect (c.entered input seq) d event story d') : Effect c d event story d' := by
  cases h with
  | quiet h1 h2 => exact .quiet h1 h2
  | retry h1 => exact .retry h1
  | conflict h1 => exact .conflict h1
  | handled h1 h2 => exact .handled h1 h2

theorem Remembers.input {input : EngineInput} {c₁ : TradingCore n m} {event : InputEvent}
    (h : Remembers (c.entered input seq) c₁ out event) :
    Remembers c (c₁.counted out) out event := by
  cases h with
  | quiet h1 h2 => exact .quiet h1 h2
  | retry h1 h2 => exact .retry h1 h2
  | records h1 h2 h3 h4 => exact .records h1 h2 h3 h4

/-- The stamps an input starts from. -/
def TradingCore.stampsAt (c : TradingCore n m) (seq : EngineSeq) : Stamps := ⟨seq, c.output_seq, c.next_trade_id⟩

/-- What an input does is what its event does. -/
theorem Applied.input {input : EngineInput} {c₁ : TradingCore n m}
    (h : Applied (c.entered input seq) c₁ d input.event out (c.stampsAt seq)) :
    Applied c (c₁.counted out) d input.event out (c.stampsAt seq) where
  clean := ⟨h.clean.accounting, h.clean.sticky, h.clean.logged⟩
  wiring := h.wiring
  limits := h.limits
  memory := h.memory.input
  done hf := by
    obtain ⟨d', ms, h1, h2, h3, story, h4, h5⟩ := h.done hf
    exact ⟨d', ms, h1, h2.of_ground rfl, h3, story, h4.input, h5⟩

/-- Every input that is not ignored, and leaves no fault, is a sequence of steps of the desk. -/
theorem apply_applied (h : View c d) (hf : c.fault = none) {input : EngineInput} (hr : c.apply input = .ok (c', out)) :
    (c' = c.set_fault .SequenceExhausted ∧ out = []) ∨
      ∃ seq, next c.engine_seq = some seq ∧ Applied c c' d input.event out (c.stampsAt seq) := by
  rcases apply_cases hr with ⟨hs, -⟩ | ⟨-, rfl, rfl⟩ | ⟨seq, c₁, -, hn, he, rfl⟩
  · rw [hf] at hs; cases hs
  · exact .inl ⟨rfl, rfl⟩
  · exact .inr ⟨seq, hn, (applied_of_event (h.entered input seq) he).input⟩

/-- An input that leaves no fault. -/
theorem apply_done (h : View c d) {input : EngineInput} (hr : c.apply input = .ok (c', out)) (hf' : c'.fault = none) :
    ∃ seq d' ms, next c.engine_seq = some seq ∧ Applied c c' d input.event out (c.stampsAt seq) ∧
      Done c c' d input.event out (c.stampsAt seq) d' ms := by
  rcases apply_applied h (fault_none_of_apply hr hf') hr with ⟨rfl, -⟩ | ⟨seq, hn, ha⟩
  · cases hf'
  · obtain ⟨d', ms, hd⟩ := ha.done hf'
    exact ⟨seq, d', ms, hn, ha, hd⟩

/-- With positive sizes no input panics. -/
theorem apply_total (h : c.fault = none → ∃ d, View c d) (hs : Sized c) (input : EngineInput) :
    ∃ c' out, c.apply input = .ok (c', out) := by
  cases hf : c.fault with
  | some fault => exact ⟨c, [], by rw [TradingCore.apply, hf]; rfl⟩
  | none =>
    cases hn : next c.engine_seq with
    | none => exact ⟨_, [], by rw [TradingCore.apply, hf, hn]; rfl⟩
    | some seq =>
      obtain ⟨d, hv⟩ := h hf
      have hv := hv.entered input seq
      have hs' : Sized (c.entered input seq) := hs
      obtain ⟨c₁, out, he, -⟩ := apply_event_ok hv (ready_of_sized hs' hv input.event)
      exact ⟨c₁.counted out, out, by rw [apply_eq hf input hn, he]; rfl⟩

end Inputs

/-! ## Runs -/

section Runs
variable {n m : Nat}
variable {c c₀ : TradingCore n m} {inputs : List EngineInput} {d₀ : Desk n m}

/-- Nothing has happened yet. -/
def Desk.empty (owner : AccountId → Option (Fin m)) : Desk n m where
  owner := owner
  book _ := []
  lots _ _ := 0
  flight := none
  next_order_id := 0
  next_priority := 0

theorem within_empty (owner : AccountId → Option (Fin m)) (a : Fin m) {lo hi : Int} (hlo : lo ≤ 0) (hhi : 0 ≤ hi) :
    (Desk.empty owner : Desk n m).Within a lo hi :=
  fun _ => ⟨hhi, hlo⟩

theorem inv_empty (owner : AccountId → Option (Fin m)) : Inv (Desk.empty owner : Desk n m) where
  ids _ := List.nodup_nil
  apart hx := by cases hx
  keys hx := by cases hx
  issued hx := by cases hx
  working hx := by cases hx
  owned hx := by cases hx
  sorted _ := List.Pairwise.nil
  behind hx := by cases hx
  uncrossed hx := by cases hx
  flight f hf := by cases hf
  small a i s := by
    have h : (Desk.empty owner).exposure a i s = 0 := rfl
    rw [h]; decide
  headroom a := within_empty owner a (by decide) (by decide)

/-- An id in the table leads to an entry with that id. -/
theorem index_by_lookup {K : Type} [DecidableEq K] {k : Nat} (id : Fin k → K) {x : K} {i : Fin k}
    (h : (index_by id).lookup x = some i) : id i = x := by
  have hfold : ∀ (l : List (Fin k)) (map : HashMap K (Fin k)), (∀ x i, map.lookup x = some i → id i = x) →
      ∀ x i, (l.foldl (fun map i => map.insert (id i) i) map).lookup x = some i → id i = x := by
    intro l
    induction l with
    | nil => exact fun _ hm => hm
    | cons j l ih =>
      refine fun map hm => ih _ fun x i hx => ?_
      rw [lookup_insert_eq] at hx
      split at hx
      · rename_i he
        cases hx
        exact he.symm
      · exact hm x i hx
  exact hfold _ ∅ (fun x i hx => by simp at hx) x i h

theorem view_new (allocator : SlabAllocator) (config : EngineConfig) :
    View (TradingCore.new allocator config) (.empty (TradingCore.new allocator config).account_index.lookup) where
  ledger := by
    refine ⟨fun a i => ?_, ⟨fun id l => ?_, fun k id => ?_⟩, fun _ => rfl, rfl, rfl⟩
    · have hp : (TradingCore.new allocator config).position a i = {} := by
        simp [TradingCore.position, TradingCore.new, AccountState.new]
      rw [hp]
      exact ⟨rfl, fun s => by cases s <;> rfl, fun s => by cases s <;> rfl⟩
    · simp [TradingCore.new, Desk.tags, Desk.empty]
    · simp [TradingCore.new, Desk.tags, Desk.empty]
  books i := by
    have hb : (TradingCore.new allocator config).book i = .with_capacity allocator config.max_live_orders := by
      simp [TradingCore.book, TradingCore.new]
    rw [hb]
    exact .empty allocator config.max_live_orders
  wired := by
    constructor
    · intro x a hx
      rw [← index_by_lookup _ hx]
      simp [TradingCore.new, AccountState.new]
    · intro x i hx
      rw [← index_by_lookup _ hx]
      simp [TradingCore.new]
  inv := inv_empty _
  idle := rfl

/-- What holds of the request, if the event is one. -/
def InputEvent.OnOrder (event : InputEvent) (P : OrderRequest → Prop) : Prop :=
  match event with
  | .Order request => P request
  | _ => True

instance (event : InputEvent) (P : OrderRequest → Prop) [DecidablePred P] : Decidable (event.OnOrder P) :=
  match event with
  | .Order request => inferInstanceAs (Decidable (P request))
  | .Market _ => isTrue trivial
  | .Control _ => isTrue trivial

/-- A step of a run of the engine. -/
abbrev CoreTurn (n m : Nat) : Type := Turn (TradingCore n m) EngineInput (List OutputEvent)

/-- A run that lists the engine before every input, the input and its outputs. -/
def TradingCore.history (c : TradingCore n m) (inputs : List EngineInput) : Eval (TradingCore n m × List (CoreTurn n m)) :=
  LabLib.history TradingCore.apply c inputs

/-- An input the engine does not look at: after a fault, and when the engine sequence is exhausted. -/
inductive Ignores (c : TradingCore n m) : TradingCore n m → Prop
  | faulted : c.fault ≠ none → Ignores c c
  | exhausted : c.fault = none → next c.engine_seq = none → Ignores c (c.set_fault .SequenceExhausted)

/-- What holds at the start and is kept by every event holds in every run. -/
theorem history_events (h₀ : c₀.fault = none → ∃ d, View c₀ d)
    (P : TradingCore n m → List (CoreTurn n m) → Prop) (nil : P c₀ [])
    (ignored : ∀ {c ts input c'}, P c ts → Ignores c c' → P c' (ts ++ [⟨c, input, []⟩]))
    (applied : ∀ {c ts d input seq c₁ out}, P c ts → c.fault = none → View c d → next c.engine_seq = some seq →
      (c.entered input seq).apply_event input.event = .ok (c₁, out) → P (c₁.counted out) (ts ++ [⟨c, input, out⟩]))
    {ts : List (CoreTurn n m)}
    (h : c₀.history inputs = .ok (c, ts)) : P c ts := by
  refine (history_induction TradingCore.apply (fun c ts => (c.fault = none → ∃ d, View c d) ∧ P c ts) ⟨h₀, nil⟩ ?_ h).2
  intro c ts input c' out ⟨hv, hp⟩ hr
  cases hf : c.fault with
  | some fault =>
    rw [TradingCore.apply, hf] at hr
    cases hr
    exact ⟨hv, ignored hp (.faulted (by rw [hf]; nofun))⟩
  | none =>
    obtain ⟨d, hd⟩ := hv hf
    cases hn : next c.engine_seq with
    | none =>
      have hs : c.fault.isSome = false := by rw [hf]; rfl
      rw [TradingCore.apply, hs, hn] at hr
      cases hr
      exact ⟨nofun, ignored hp (.exhausted hf hn)⟩
    | some seq =>
      have hview : c'.fault = none → ∃ d, View c' d := fun hf' => by
        obtain ⟨_, d', _, -, -, hdone⟩ := apply_done hd hr hf'
        exact ⟨d', hdone.view⟩
      rw [apply_eq hf input hn] at hr
      obtain ⟨⟨c₁, out₁⟩, he, hr⟩ := bind_eq_ok.1 hr
      cases hr
      exact ⟨hview, applied hp hf hd hn he⟩

/-- The same, with what an event does instead of the call. -/
theorem history_cases (h₀ : View c₀ d₀)
    (P : TradingCore n m → List (CoreTurn n m) → Prop) (nil : P c₀ [])
    (ignored : ∀ {c ts input c'}, P c ts → c'.fault ≠ none → (c' = c ∨ c' = c.set_fault .SequenceExhausted) →
      P c' (ts ++ [⟨c, input, []⟩]))
    (applied : ∀ {c ts d input c' out seq}, P c ts → c.fault = none → View c d → next c.engine_seq = some seq →
      Applied c c' d input.event out (c.stampsAt seq) → P c' (ts ++ [⟨c, input, out⟩]))
    {ts : List (CoreTurn n m)}
    (h : c₀.history inputs = .ok (c, ts)) : P c ts := by
  refine history_events (fun _ => ⟨d₀, h₀⟩) P nil (fun hp hi => ?_) (fun hp hf hv hn he => ?_) h
  · cases hi with
    | faulted hf => exact ignored hp hf (.inl rfl)
    | exhausted => exact ignored hp nofun (.inr rfl)
  · exact applied hp hf hv hn (applied_of_event (hv.entered _ _) he).input

/-- What holds at the start and is kept by every input holds, together with a
desk the engine stands for, wherever a run ends without a fault. -/
theorem history_steady (h₀ : View c₀ d₀)
    (P : TradingCore n m → List (CoreTurn n m) → Desk n m → Prop) (nil : P c₀ [] d₀)
    (snoc : ∀ {c ts d input c' out seq d' ms}, P c ts d → View c d → c.fault = none → c.apply input = .ok (c', out) →
      next c.engine_seq = some seq → Applied c c' d input.event out (c.stampsAt seq) →
      Done c c' d input.event out (c.stampsAt seq) d' ms →
      P c' (ts ++ [⟨c, input, out⟩]) d') {ts : List (CoreTurn n m)}
    (h : c₀.history inputs = .ok (c, ts)) (hf : c.fault = none) : ∃ d, View c d ∧ P c ts d := by
  refine history_induction TradingCore.apply (fun c ts => c.fault = none → ∃ d, View c d ∧ P c ts d)
    (fun _ => ⟨d₀, h₀, nil⟩) ?_ h hf
  intro c ts input c' out ih hr hf'
  have hf := fault_none_of_apply hr hf'
  obtain ⟨d, hv, hp⟩ := ih hf
  obtain ⟨seq, d', ms, hn, ha, hd⟩ := apply_done hv hr hf'
  exact ⟨d', hd.view, snoc hp hv hf hr hn ha hd⟩

/-- The same for runs. -/
theorem run_induction (h₀ : View c₀ d₀)
    (P : List EngineInput → TradingCore n m → List (List OutputEvent) → Desk n m → Prop) (nil : P [] c₀ [] d₀)
    (snoc : ∀ {inputs c outs d input c' out seq d' ms}, P inputs c outs d → View c d → next c.engine_seq = some seq →
      Applied c c' d input.event out (c.stampsAt seq) → Done c c' d input.event out (c.stampsAt seq) d' ms →
      P (inputs ++ [input]) c' (outs ++ [out]) d')
    {outs : List (List OutputEvent)} (h : c₀.run inputs = .ok (c, outs)) (hf : c.fault = none) :
    ∃ d, View c d ∧ P inputs c outs d := by
  obtain ⟨ts, hts, rfl, rfl⟩ := exists_history TradingCore.apply h
  refine history_steady h₀ (fun c ts d => P (ts.map Turn.input) c (ts.map Turn.output) d) nil ?_ hts hf
  intro c ts d input c' out seq d' ms hp hv _ _ hn ha hd
  simpa using snoc hp hv hn ha hd

/-- What every state of a run with positive sizes has. -/
structure Upright (c : TradingCore n m) : Prop where
  sized : Sized c
  view : c.fault = none → ∃ d, View c d
  accounting : .Accounting ∉ c.faults
  logged : ∀ f, c.fault = some f → f ∈ c.faults

theorem Upright.apply (h : Upright c) (input : EngineInput) :
    ∃ c' out, c.apply input = .ok (c', out) ∧ Upright c' := by
  obtain ⟨c', out, hr⟩ := apply_total h.view h.sized input
  refine ⟨c', out, hr, ?_⟩
  cases hf : c.fault with
  | some fault =>
    rcases apply_cases hr with ⟨-, rfl, -⟩ | ⟨h1, -⟩ | ⟨_, _, h1, -⟩
    · exact h
    · rw [hf] at h1; cases h1
    · rw [hf] at h1; cases h1
  | none =>
    obtain ⟨d, hv⟩ := h.view hf
    rcases apply_applied hv hf hr with ⟨rfl, -⟩ | ⟨seq, -, ha⟩
    · exact ⟨h.sized, fun hf' => (nomatch hf'), fun hm => h.accounting ((clean_exhausted c).accounting hm),
        (clean_exhausted c).logged h.logged⟩
    · refine ⟨h.sized.of_wiring ha.wiring, fun hf' => ?_, fun hm => h.accounting (ha.clean.accounting hm),
        ha.clean.logged h.logged⟩
      obtain ⟨d', _, hd⟩ := ha.done hf'
      exact ⟨d', hd.view⟩

end Runs

/-! ## A small market

One instrument whose feed is live at a price of 100, for runs on fixed inputs. -/

def smallConfig (limits : AccountLimits) (accounts : List AccountId) : EngineConfig where
  instruments := [⟨1, 1, 1, 1, 1000⟩]
  accounts := accounts.map fun account => ⟨account, true, limits⟩
  max_live_orders := 8
  max_market_age_ns := 1000
  market_protection_ticks := 10
  dedup_window := 4
  max_market_depth := 2

def smallLimits : AccountLimits where
  max_order_quantity := 100
  max_order_notional := 100000
  max_position_lots := 50
  max_gross_exposure := 1000000
  price_collar_ticks := 100

def fed (kind : MarketEventKind) : EngineInput := ⟨0, 0, .Market ⟨1, 0, 0, kind⟩⟩

/-- The inputs that open the market. -/
def opening : List EngineInput := [fed (.SnapshotBegin 1), fed (.SnapshotEnd 1 0), fed (.Trade .Buy 100 1)]

/-- A new limit order; its number is its request id, client sequence and client order id. -/
def placed (account : AccountId) (number : UInt64) (side : Side) (price : PriceTicks) (quantity : QuantityLots) :
    EngineInput :=
  ⟨0, 0, .Order ⟨.New, account, 1, number, number, number, 0, side, .Limit, price, quantity⟩⟩

/-- A cancel of the order with the client order id `target`. -/
def cancelling (account : AccountId) (number client_seq : UInt64) (target : ClientOrderId) : EngineInput :=
  ⟨0, 0, .Order ⟨.Cancel, account, 1, number, client_seq, number, target, .Buy, .Limit, 0, 0⟩⟩

/-- A replace of the order with the client order id `target`. -/
def replacing (account : AccountId) (number : UInt64) (target : ClientOrderId) (side : Side) (price : PriceTicks)
    (quantity : QuantityLots) : EngineInput :=
  ⟨0, 0, .Order ⟨.Replace, account, 1, number, number, number, target, side, .Limit, price, quantity⟩⟩

/-- Two accounts: the second buys three of the five lots the first offers, and bids for four more below. -/
def smallInputs : List EngineInput :=
  opening ++ [placed 1 1 .Sell 100 5, placed 2 1 .Buy 100 3, placed 2 2 .Buy 99 4]

def smallCore : TradingCore (smallConfig smallLimits [1, 2]).instruments.length
    (smallConfig smallLimits [1, 2]).accounts.length :=
  .new freeListAllocator (smallConfig smallLimits [1, 2])

end TradingLab
