import TradingLab.Invariants
import TradingLab.Lib.Ring
/-!
# What accounts remember

Each account keeps the client sequence of its last accepted request and a ring
of outcomes. Client sequences increase as long as cancels keep to them: a cancel
is not checked, but recorded like every other request. A retry is answered from
the ring as long as nobody used its request id for something else: the outcome of
such a conflict takes the place of the one the retry asks for.
-/
open LabLib

namespace TradingLab

/-! ## Turns -/

section Turns
variable {n m : Nat}

/-- The cache has the outcome of the request. -/
def TradingCore.retried (c : TradingCore n m) (request : OrderRequest) : Bool :=
  c.cache_hit request matches some (_, .Retry _)

theorem retried_iff {c : TradingCore n m} {request : OrderRequest} : c.retried request = true ↔ c.Retries request := by
  rw [TradingCore.retried, TradingCore.Retries]
  constructor
  · intro h
    split at h
    · exact ⟨_, _, ‹_›⟩
    · cases h
  · rintro ⟨a, previous, h⟩
    rw [h]

/-- The client sequence of the account's request, when it was accepted in this turn. -/
def accepted (account : AccountId) (t : CoreTurn n m) : Option UInt64 :=
  match t.input.event, final_report t.output with
  | .Order request, some report =>
    if request.account = account ∧ report.reject_reason = none ∧ t.before.retried request = false then
      some request.client_seq
    else none
  | _, _ => none

theorem accepted_eq_some {account : AccountId} {t : CoreTurn n m} {seq : UInt64} :
    accepted account t = some seq ↔ ∃ request report, t.input.event = .Order request ∧
      final_report t.output = some report ∧ request.account = account ∧ report.reject_reason = none ∧
      ¬t.before.Retries request ∧ request.client_seq = seq := by
  rw [accepted]
  constructor
  · intro h
    split at h
    · rename_i request report he hr
      split at h
      · rename_i hc
        refine ⟨request, report, he, hr, hc.1, hc.2.1, fun hret => ?_, Option.some.inj h⟩
        rw [retried_iff.2 hret] at hc
        cases hc.2.2
      · cases h
    · cases h
  · rintro ⟨request, report, he, hr, ha, hrej, hret, rfl⟩
    have hret' : t.before.retried request = false := by
      rw [← Bool.not_eq_true, retried_iff]
      exact hret
    simp only [he, hr, ha, hrej, hret', and_self, if_true]

/-- A cancel of a live order, if this turn is one, is in sequence. -/
def CancelInSequence (t : CoreTurn n m) : Prop :=
  t.input.event.OnOrder fun request => t.before.cache_hit request = none → t.before.Cancels request →
    t.before.InSequence request

instance (t : CoreTurn n m) : Decidable (CancelInSequence t) :=
  inferInstanceAs (Decidable (t.input.event.OnOrder _))

end Turns

/-! ## Client sequences -/

section Sequence
variable {n m : Nat} {c c' : TradingCore n m}

/-- The client sequence the account accepted last. -/
def TradingCore.lastSeq (c : TradingCore n m) (a : Fin m) : Int := val c.accounts[a].last_client_seq

theorem lastSeq_of_memory (h : c'.memory = c.memory) : c'.lastSeq = c.lastSeq := by
  funext a
  exact congrArg (fun f : Fin m → Memory => val (f a).last_client_seq) h

/-- A recorded outcome moves the last client sequence of its account only, and only if it is an acceptance. -/
theorem lastSeq_remembered {request : OrderRequest} {report : ExecutionReport} (h : c'.memory = c.remembered request report)
    (a : Fin m) : c'.lastSeq a = if c.account_index.lookup request.account = some a ∧ report.reject_reason = none ∧
      0 < val request.client_seq then val request.client_seq else c.lastSeq a := by
  have hl : c'.lastSeq a = val (c.remembered request report a).last_client_seq := by
    rw [← h]
    rfl
  have hpos : (0 < val request.client_seq) ↔ request.client_seq > 0 := by
    rw [gt_iff_lt, u64_lt, u64_val_zero]
  rw [hl, remembered_apply]
  by_cases ha : c.account_index.lookup request.account = some a
  · rw [if_pos ha]
    simp only [Memory.recorded, ha, true_and, hpos, Option.isNone_iff_eq_none]
    split <;> rfl
  · simp only [ha, false_and, if_false]
    rfl

/-- With cancels in sequence, an accepted request has a client sequence above the last one and becomes the last one. -/
theorem Remembers.sequence {t : CoreTurn n m} (h : Remembers t.before c' t.output t.input.event) (hc : CancelInSequence t) :
    (∀ a, t.before.lastSeq a ≤ c'.lastSeq a) ∧ ∀ account seq, accepted account t = some seq →
      ∃ a, t.before.account_index.lookup account = some a ∧ t.before.lastSeq a < val seq ∧ c'.lastSeq a = val seq := by
  generalize he : t.input.event = event at h
  cases h with
  | quiet hq hm =>
    rw [lastSeq_of_memory hm]
    refine ⟨fun _ => le_refl _, fun account seq hs => ?_⟩
    obtain ⟨request, -, he', -⟩ := accepted_eq_some.1 hs
    rw [he] at he'
    exact absurd he' (hq request)
  | @retry request hret hm =>
    rw [lastSeq_of_memory hm]
    refine ⟨fun _ => le_refl _, fun account seq hs => ?_⟩
    obtain ⟨request', -, he', -, -, -, hn, -⟩ := accepted_eq_some.1 hs
    rw [he] at he'
    cases he'
    exact absurd hret hn
  | @records request report hret hrep hm hacc =>
    have hin : report.reject_reason = none → t.before.InSequence request := by
      intro hr
      obtain ⟨hhit, hseq | hcan⟩ := hacc hr
      · exact hseq
      · rw [CancelInSequence, he] at hc
        exact hc hhit hcan
    constructor
    · intro a
      rw [lastSeq_remembered hm]
      split
      · rename_i hif
        obtain ⟨b, hb, hlt⟩ := hin hif.2.1
        rw [hif.1] at hb
        cases hb
        exact Int.le_of_lt hlt
      · exact le_refl _
    · intro account seq hs
      obtain ⟨request', report', he', hrep', rfl, hr, -, rfl⟩ := accepted_eq_some.1 hs
      rw [he] at he'
      cases he'
      rw [hrep] at hrep'
      cases hrep'
      obtain ⟨a, ha, hlt⟩ := hin hr
      have h0 := (u64_bounds t.before.accounts[a].last_client_seq).1
      exact ⟨a, ha, hlt, by rw [lastSeq_remembered hm, if_pos ⟨ha, hr, by omega⟩]⟩

/-- What accepted client sequences and last client sequences have been so far. -/
structure Increasing (c₀ c : TradingCore n m) (ts : List (CoreTurn n m)) : Prop where
  wiring : c.wiring = c₀.wiring
  accepted : ∀ account, (ts.filterMap (accepted account)).Pairwise fun x y => val x < val y
  below : ∀ account a, c.account_index.lookup account = some a →
    ∀ seq ∈ ts.filterMap (TradingLab.accepted account), val seq ≤ c.lastSeq a
  last : ts.Pairwise fun t t' => ∀ a, t.before.lastSeq a ≤ t'.before.lastSeq a
  reached : ∀ t ∈ ts, ∀ a, t.before.lastSeq a ≤ c.lastSeq a

/-- One more turn keeps the order. -/
theorem Increasing.snoc {c₀ : TradingCore n m} {ts : List (CoreTurn n m)} (h : Increasing c₀ c ts) {input : EngineInput}
    {out : List OutputEvent} (hw : c'.wiring = c.wiring) (hlast : ∀ a, c.lastSeq a ≤ c'.lastSeq a)
    (hacc : ∀ account seq, TradingLab.accepted account ⟨c, input, out⟩ = some seq →
      ∃ a, c.account_index.lookup account = some a ∧ c.lastSeq a < val seq ∧ c'.lastSeq a = val seq) :
    Increasing c₀ c' (ts ++ [⟨c, input, out⟩]) where
  wiring := hw.trans h.wiring
  accepted account := by
    rw [List.filterMap_append, List.pairwise_append]
    refine ⟨h.accepted account, ?_, fun x hx y hy => ?_⟩
    · rw [List.filterMap_cons]
      split <;> simp
    · simp only [List.filterMap_cons, List.filterMap_nil] at hy
      split at hy
      · cases hy
      · rename_i seq hs
        obtain rfl := List.mem_singleton.1 hy
        obtain ⟨a, ha, hlt, -⟩ := hacc account y hs
        exact lt_of_le_of_lt (h.below account a ha x hx) hlt
  below account a ha seq hseq := by
    have ha' : c.account_index.lookup account = some a := by
      rw [show c.account_index = c'.account_index from (congrArg Wiring.account_index hw).symm]
      exact ha
    rw [List.filterMap_append, List.mem_append] at hseq
    rcases hseq with hseq | hseq
    · exact Int.le_trans (h.below account a ha' seq hseq) (hlast a)
    · obtain ⟨t, ht, hs⟩ := List.mem_filterMap.1 hseq
      obtain rfl := List.mem_singleton.1 ht
      obtain ⟨b, hb, -, heq⟩ := hacc account seq hs
      rw [ha'] at hb
      cases hb
      exact heq.ge
  last := by
    rw [List.pairwise_append]
    refine ⟨h.last, List.pairwise_singleton _ _, fun t ht t' ht' => ?_⟩
    rw [List.mem_singleton.1 ht']
    exact h.reached t ht
  reached t ht a := by
    rcases List.mem_append.1 ht with ht | ht
    · exact Int.le_trans (h.reached t ht a) (hlast a)
    · rw [List.mem_singleton.1 ht]
      exact hlast a

theorem accepted_ignored (c : TradingCore n m) (input : EngineInput) (account : AccountId) :
    accepted account ⟨c, input, []⟩ = none := by
  rw [accepted]
  split
  · rename_i _ hr
    cases hr
  · rfl

/-- When every cancel of a live order comes in sequence, the client sequences of an account's accepted requests increase
strictly, and its last client sequence never decreases. -/
theorem accepted_client_seqs_increase {allocator : SlabAllocator} {config : EngineConfig} {inputs : List EngineInput}
    {c : TradingCore config.instruments.length config.accounts.length} {ts : List (CoreTurn _ _)}
    (h : (TradingCore.new allocator config).history inputs = .ok (c, ts)) (hs : ∀ t ∈ ts, CancelInSequence t) :
    (∀ account, (ts.filterMap (accepted account)).Pairwise fun x y => val x < val y) ∧
      (ts.Pairwise fun t t' => ∀ a : Fin config.accounts.length,
        val t.before.accounts[a].last_client_seq ≤ val t'.before.accounts[a].last_client_seq) ∧
      ∀ t ∈ ts, ∀ a : Fin config.accounts.length,
        val t.before.accounts[a].last_client_seq ≤ val c.accounts[a].last_client_seq := by
  have hinc := history_cases (view_new allocator config)
    (fun c ts => (∀ t ∈ ts, CancelInSequence t) → Increasing (TradingCore.new allocator config) c ts)
    (fun _ => ⟨rfl, fun _ => List.Pairwise.nil, by simp, List.Pairwise.nil, by simp⟩)
    (fun {c ts input c'} ih _ hc' hs => by
      have hi := ih fun t ht => hs t (List.mem_append_left _ ht)
      have hw : c'.wiring = c.wiring ∧ c'.lastSeq = c.lastSeq := by
        rcases hc' with rfl | rfl <;> exact ⟨rfl, rfl⟩
      refine hi.snoc hw.1 (fun a => by rw [hw.2]) fun account seq hseq => ?_
      rw [accepted_ignored] at hseq
      cases hseq)
    (fun {c ts d input c' out seq} ih _ _ _ ha hs => by
      have hi := ih fun t ht => hs t (List.mem_append_left _ ht)
      have hmem : Remembers (⟨c, input, out⟩ : CoreTurn _ _).before c' out input.event := ha.memory
      obtain ⟨h1, h2⟩ := hmem.sequence (hs _ (List.mem_append_right _ (List.mem_singleton_self _)))
      exact hi.snoc ha.wiring h1 h2) h hs
  exact ⟨hinc.accepted, hinc.last, hinc.reached⟩

theorem accepted_client_seqs_increase_small :
    ∃ c ts, smallCore.history (smallInputs ++ [cancelling 1 2 2 1]) = .ok (c, ts) ∧ (∀ t ∈ ts, CancelInSequence t) ∧
      ts.filterMap (accepted 1) = [1, 2] ∧ (ts.filterMap (accepted 1)).Pairwise fun x y => val x < val y := by
  have hends : Ends (smallCore.history (smallInputs ++ [cancelling 1 2 2 1])) fun r =>
      (∀ t ∈ r.2, CancelInSequence t) ∧ r.2.filterMap (accepted 1) = [1, 2] := by decide +kernel
  obtain ⟨⟨c, ts⟩, hr, hs, hacc⟩ := hends
  exact ⟨c, ts, hr, hs, hacc, (accepted_client_seqs_increase hr hs).1 1⟩

/-- A cancel is accepted with a client sequence below that of the order it cancels, and then so is a new order. -/
theorem accepted_client_seqs_decrease :
    ∃ c ts, smallCore.history (opening ++ [placed 1 5 .Buy 99 1, cancelling 1 6 2 5, placed 1 3 .Buy 99 1]) = .ok (c, ts) ∧
      c.fault = none ∧ ts.filterMap (accepted 1) = [5, 2, 3] ∧ c.accounts[(⟨0, by decide⟩ : Fin 2)].last_client_seq = 3 := by
  have hends : Ends (smallCore.history (opening ++ [placed 1 5 .Buy 99 1, cancelling 1 6 2 5, placed 1 3 .Buy 99 1]))
      fun r => r.1.fault = none ∧ r.2.filterMap (accepted 1) = [5, 2, 3] ∧
        r.1.accounts[(⟨0, by decide⟩ : Fin 2)].last_client_seq = 3 := by decide +kernel
  obtain ⟨⟨c, ts⟩, hr, hf, hacc, hlast⟩ := hends
  exact ⟨c, ts, hr, hf, hacc, hlast⟩

end Sequence

/-! ## The ring of outcomes -/

section Ring
variable {cache : RequestCache} {entry : CachedRequest} {age : Nat}

/-- The ring finds the entry under its request id, and has recorded `age` others since. -/
structure RequestCache.Keeps (cache : RequestCache) (entry : CachedRequest) (age : Nat) (k : Nat) : Prop where
  index : cache.index.lookup entry.request_id = some k
  entry : cache.entries[k]? = some (some entry)
  next : cache.next = (k + 1 + age) % cache.entries.length
  young : age < cache.entries.length

theorem RequestCache.Keeps.lookup {k : Nat} (h : cache.Keeps entry age k) (fingerprint : UInt64) :
    cache.lookup entry.request_id fingerprint =
      some (if entry.fingerprint = fingerprint then .Retry entry.outcome else .Conflict) := by
  simp only [RequestCache.lookup, h.index, h.entry, Option.bind_eq_bind, Option.bind_some, Option.join_some, ne_eq,
    not_true_eq_false, if_false]
  split <;> rfl

@[simp] theorem length_record (id : RequestId) (fingerprint : UInt64) (outcome : ExecutionReport) :
    (cache.record id fingerprint outcome).entries.length = cache.entries.length :=
  List.length_set

/-- What was just recorded. -/
theorem keeps_record (id : RequestId) (fingerprint : UInt64) (outcome : ExecutionReport) :
    (cache.record id fingerprint outcome).Keeps ⟨id, fingerprint, outcome⟩ 0 cache.next where
  index := by
    rw [RequestCache.record]
    dsimp only
    rw [lookup_insert_eq, if_pos rfl]
  entry := List.getElem?_set_self cache.next_lt
  next := by rw [length_record]; rfl
  young := by
    rw [length_record]
    exact Nat.lt_of_le_of_lt (Nat.zero_le _) cache.next_lt

/-- Outcomes of other requests leave the entry alone for a round. -/
theorem RequestCache.Keeps.record {k : Nat} (h : cache.Keeps entry age k) {id : RequestId} (hid : id ≠ entry.request_id)
    (fingerprint : UInt64) (outcome : ExecutionReport) (hage : age + 1 < cache.entries.length) :
    (cache.record id fingerprint outcome).Keeps entry (age + 1) k := by
  have hk : k < cache.entries.length := (List.getElem?_eq_some_iff.1 h.entry).1
  have hne : cache.next ≠ k := by
    rw [h.next]
    exact slot_ne hk hage
  refine ⟨?_, ?_, ?_, by rw [length_record]; exact hage⟩
  · rw [RequestCache.record]
    dsimp only
    rw [lookup_insert_eq, if_neg (Ne.symm hid)]
    split
    · rename_i previous _
      split
      · rename_i hprev
        -- The evicted entry is another one: the index has this one elsewhere.
        rw [lookup_erase_eq, if_neg, h.index]
        intro heq
        rw [← heq, h.index] at hprev
        exact hne (Option.some.inj hprev).symm
      · exact h.index
    · exact h.index
  · exact (List.getElem?_set_ne hne).trans h.entry
  · rw [length_record]
    change (cache.next + 1) % _ = _
    rw [h.next, Nat.mod_add_mod, Nat.add_assoc]

end Ring

/-! ## Retries -/

section Retries
variable {n m : Nat} {c c' : TradingCore n m}
variable {request : OrderRequest} {report : ExecutionReport} {a : Fin m}

/-- An outcome is recorded for the account in this turn. -/
def records (a : Fin m) (t : CoreTurn n m) : Bool :=
  match t.input.event with
  | .Order request => t.before.account_index.lookup request.account = some a && !t.before.retried request
  | _ => false

/-- The turn does not use the id of the request for something else. -/
def SameContent (request : OrderRequest) (t : CoreTurn n m) : Prop :=
  t.input.event.OnOrder fun other => other.account = request.account → other.request_id = request.request_id →
    request_fingerprint other = request_fingerprint request

instance (request : OrderRequest) (t : CoreTurn n m) : Decidable (SameContent request t) :=
  inferInstanceAs (Decidable (t.input.event.OnOrder _))

/-- The entry the outcome of a request makes. -/
def cachedAs (request : OrderRequest) (report : ExecutionReport) : CachedRequest :=
  ⟨request.request_id, request_fingerprint request, report⟩

theorem cache_hit_eq (ha : c.account_index.lookup request.account = some a) :
    c.cache_hit request =
      ((c.memory a).cache.lookup request.request_id (request_fingerprint request)).map fun hit => (a, hit) := by
  rw [TradingCore.cache_hit, ha]
  simp only [Option.bind_eq_bind, Option.bind_some, TradingCore.memory]
  cases (c.accounts[a].cache.lookup request.request_id (request_fingerprint request)) <;> rfl

/-- A kept outcome answers the request it is the outcome of. -/
theorem RequestCache.Keeps.hit {age k : Nat} (h : (c.memory a).cache.Keeps (cachedAs request report) age k)
    (ha : c.account_index.lookup request.account = some a) : c.cache_hit request = some (a, .Retry report) := by
  have hl := h.lookup (request_fingerprint request)
  rw [if_pos (show (cachedAs request report).fingerprint = request_fingerprint request from rfl)] at hl
  rw [cache_hit_eq ha]
  exact congrArg (Option.map fun hit => (a, hit)) hl

theorem length_remembered (a : Fin m) :
    (c.remembered request report a).cache.entries.length = (c.memory a).cache.entries.length := by
  rw [remembered_apply]
  split
  · exact length_record _ _ _
  · rfl

theorem Remembers.length {out : List OutputEvent} {event : InputEvent} (h : Remembers c c' out event) (a : Fin m) :
    (c'.memory a).cache.entries.length = (c.memory a).cache.entries.length := by
  cases h with
  | quiet _ hm | retry _ hm => rw [hm]
  | records _ _ hm _ => rw [hm, length_remembered]

/-- An outcome is kept through a turn that agrees with its request, and grows older when the turn records another. -/
theorem RequestCache.Keeps.turn {age k : Nat} {t : CoreTurn n m}
    (h : (t.before.memory a).cache.Keeps (cachedAs request report) age k)
    (hr : Remembers t.before c' t.output t.input.event) (hw : Wired t.before)
    (ha : t.before.account_index.lookup request.account = some a) (hagree : SameContent request t)
    (hage : age + (if records a t then 1 else 0) < (t.before.memory a).cache.entries.length) :
    (c'.memory a).cache.Keeps (cachedAs request report) (age + if records a t then 1 else 0) k := by
  rw [SameContent] at hagree
  rw [records] at hage ⊢
  generalize t.input.event = event at hr hagree hage ⊢
  cases hr with
  | quiet hq hm =>
    cases event with
    | Order other => exact absurd rfl (hq other)
    | Market _ | Control _ =>
      rw [hm]
      exact h
  | @retry other hret hm =>
    simp only [retried_iff.2 hret, Bool.not_true, Bool.and_false, Bool.false_eq_true, if_false]
    rw [hm]
    exact h
  | @records other report' hret _ hm _ =>
    have hret' : t.before.retried other = false := by
      rw [← Bool.not_eq_true, retried_iff]
      exact hret
    simp only [hret', Bool.not_false, Bool.and_true, decide_eq_true_eq] at hage ⊢
    rw [hm, remembered_apply]
    by_cases hb : t.before.account_index.lookup other.account = some a
    · -- A request of the account under the same id would have been a retry.
      simp only [if_pos hb] at hage ⊢
      have hid : other.request_id ≠ request.request_id := by
        intro hid
        have hacc : other.account = request.account := (hw.account hb).symm.trans (hw.account ha)
        have hfp := hagree hacc hid
        refine hret ⟨a, report, ?_⟩
        rw [cache_hit_eq hb, hid, hfp, ← cache_hit_eq ha]
        exact h.hit ha
      exact h.record hid _ _ hage
    · simp only [if_neg hb]
      exact h

/-- The outcomes the rings hold after the turns: each one that was recorded, as long as the turns since then agree with its
request and recorded less than a round of others. -/
structure Kept (c₀ c : TradingCore n m) (window : Nat) (ts : List (CoreTurn n m)) : Prop where
  wiring : c.wiring = c₀.wiring
  length : ∀ a, (c.memory a).cache.entries.length = window
  kept : ∀ pre t mid, ts = pre ++ t :: mid → ∀ request report a, t.input.event = .Order request →
    final_report t.output = some report → ¬t.before.Retries request → c₀.account_index.lookup request.account = some a →
    mid.countP (records a) < window → (∀ t' ∈ mid, SameContent request t') →
    ∃ k, (c.memory a).cache.Keeps (cachedAs request report) (mid.countP (records a)) k

theorem kept_new (allocator : SlabAllocator) (config : EngineConfig) :
    Kept (TradingCore.new allocator config) (TradingCore.new allocator config) (max 1 config.dedup_window) [] where
  wiring := rfl
  length a := by
    have hc : ((TradingCore.new allocator config).memory a).cache = .new config.dedup_window := by
      simp [TradingCore.memory, TradingCore.new, AccountState.new]
    rw [hc, RequestCache.new, List.length_replicate, Nat.max_comm]
  kept pre t mid h := by simp at h

theorem Kept.snoc {c₀ : TradingCore n m} {window : Nat} {ts : List (CoreTurn n m)} (h : Kept c₀ c window ts)
    {input : EngineInput} {out : List OutputEvent} (hw : Wired c) (hw' : c'.wiring = c.wiring)
    (hr : Remembers c c' out input.event) : Kept c₀ c' window (ts ++ [⟨c, input, out⟩]) where
  wiring := hw'.trans h.wiring
  length a := (hr.length a).trans (h.length a)
  kept pre t mid hts request report a he hrep hret ha hcount hagree := by
    have ha' : c.account_index.lookup request.account = some a := by
      rw [show c.account_index = c₀.account_index from congrArg Wiring.account_index h.wiring]
      exact ha
    rcases List.eq_nil_or_concat mid with rfl | ⟨mid', t', rfl⟩
    · -- The turn itself records the outcome.
      obtain ⟨-, ht⟩ := List.append_inj' hts rfl
      cases ht
      dsimp only at he hrep hret
      rw [he] at hr
      cases hr with
      | quiet hq _ => exact absurd rfl (hq request)
      | retry hr' _ => exact absurd hr' hret
      | records _ hrep' hm _ =>
        rw [hrep] at hrep'
        cases hrep'
        rw [hm, remembered_apply, if_pos ha']
        exact ⟨_, keeps_record _ _ _⟩
    · rw [List.concat_eq_append] at hts hcount hagree ⊢
      rw [← List.cons_append, ← List.append_assoc] at hts
      obtain ⟨hts', ht⟩ := List.append_inj' hts rfl
      cases ht
      rw [List.countP_append, List.countP_singleton] at hcount ⊢
      obtain ⟨k, hk⟩ := h.kept pre t mid' hts' request report a he hrep hret ha (by omega)
        fun x hx => hagree x (List.mem_append_left _ hx)
      refine ⟨k, RequestCache.Keeps.turn (t := ⟨c, input, out⟩) hk hr hw ha'
        (hagree _ (List.mem_append_right _ (List.mem_singleton_self _))) ?_⟩
      rw [h.length]
      exact hcount

/-- A request of a known account that is applied again, after less than a round of other outcomes and with its request id
not used for another content, is answered by one report. It is the first one but for its stamps, and nothing else changes. -/
theorem exact_retry_repeats_outcome {allocator : SlabAllocator} {config : EngineConfig} {inputs : List EngineInput}
    {c : TradingCore config.instruments.length config.accounts.length} {pre mid : List (CoreTurn _ _)} {t : CoreTurn _ _}
    (h : (TradingCore.new allocator config).history inputs = .ok (c, pre ++ t :: mid)) (hf : c.fault = none)
    {request : OrderRequest} {report : ExecutionReport} {a : Fin config.accounts.length}
    (he : t.input.event = .Order request) (hr : final_report t.output = some report) (hret : ¬t.before.Retries request)
    (ha : c.account_index_of request.account = some a) (hcount : mid.countP (records a) < max 1 config.dedup_window)
    (hagree : ∀ t' ∈ mid, SameContent request t') {input : EngineInput} (hi : input.event = .Order request) {seq : EngineSeq}
    (hseq : next c.engine_seq = some seq) :
    ∃ c' report', c.apply input = .ok (c', [.Report report']) ∧ report'.bare = report.bare ∧
      c'.still = { c.still with engine_seq := c'.engine_seq, engine_time_ns := c'.engine_time_ns } ∧
      c'.next_trade_id = c.next_trade_id := by
  obtain ⟨d, hv, hk⟩ := history_steady (view_new allocator config)
    (fun c ts _ => Kept (TradingCore.new allocator config) c (max 1 config.dedup_window) ts) (kept_new allocator config)
    (fun ih hv _ _ _ happ _ => ih.snoc hv.wired happ.wiring happ.memory) h hf
  have ha₀ : (TradingCore.new allocator config).account_index.lookup request.account = some a := by
    rw [show (TradingCore.new allocator config).account_index = c.account_index from
      (congrArg Wiring.account_index hk.wiring).symm]
    exact ha
  obtain ⟨k, hkeep⟩ := hk.kept pre t mid rfl request report a he hr hret ha₀ hcount hagree
  have hhit : (c.entered input seq).cache_hit request = some (a, .Retry report) := hkeep.hit ha
  let c₁ := c.entered input seq
  have hst := still_take_output_seq c₁
  let report' : ExecutionReport := { report with
    output_seq := c₁.take_output_seq.2
    engine_seq := c₁.take_output_seq.1.engine_seq
    engine_time_ns := c₁.take_output_seq.1.engine_time_ns }
  have happ : c.apply input = .ok (c₁.take_output_seq.1.counted [.Report report'], [.Report report']) := by
    rw [apply_eq hf input hseq, hi]
    simp only [TradingCore.apply_event, TradingCore.apply_request, hhit]
    rfl
  refine ⟨_, report', happ, rfl, ?_, ?_⟩
  · have h1 : c₁.take_output_seq.1.engine_seq = seq := eq_of_still TradingCore.engine_seq (fun _ => rfl) hst
    have h2 : c₁.take_output_seq.1.engine_time_ns = input.recv_time_ns :=
      eq_of_still TradingCore.engine_time_ns (fun _ => rfl) hst
    change c₁.take_output_seq.1.still = { c.still with
      engine_seq := c₁.take_output_seq.1.engine_seq, engine_time_ns := c₁.take_output_seq.1.engine_time_ns }
    rw [hst, h1, h2]
    rfl
  · change c₁.take_output_seq.1.next_trade_id = c.next_trade_id
    rw [TradingCore.take_output_seq]
    split <;> rfl

/-- Entry `k` of a list parts it. -/
theorem eq_take_cons_drop {α : Type} {l : List α} {k : Nat} {x : α} (h : l[k]? = some x) :
    l = l.take k ++ x :: l.drop (k + 1) := by
  obtain ⟨hlt, rfl⟩ := List.getElem?_eq_some_iff.1 h
  rw [List.getElem_cons_drop, List.take_append_drop]

/-- The second account asks again for its first order, after it placed another. -/
theorem exact_retry_repeats_outcome_small :
    ∃ c pre t mid report c' report', smallCore.history smallInputs = .ok (c, pre ++ t :: mid) ∧
      final_report t.output = some report ∧ report.kind = .Filled ∧
      c.apply (placed 2 1 .Buy 100 3) = .ok (c', [.Report report']) ∧ report'.bare = report.bare := by
  let request : OrderRequest := ⟨.New, 2, 1, 1, 1, 1, 0, .Buy, .Limit, 100, 3⟩
  have hends : Ends (smallCore.history smallInputs) fun r => r.1.fault = none ∧ next r.1.engine_seq = some 7 ∧
      r.1.account_index_of 2 = some ⟨1, by decide⟩ ∧ ∃ t ∈ r.2[4]?, t.input = placed 2 1 .Buy 100 3 ∧
        t.before.retried request = false ∧ (∃ report ∈ final_report t.output, report.kind = .Filled) ∧
        (r.2.drop 5).countP (records ⟨1, by decide⟩) < 4 ∧ ∀ t' ∈ r.2.drop 5, SameContent request t' := by decide +kernel
  obtain ⟨⟨c, ts⟩, hr, hf, hseq, hacc, t, ht, hi, hret, ⟨report, hrep, hkind⟩, hcount, hagree⟩ := hends
  have hts := eq_take_cons_drop ht
  dsimp only at hr hts
  rw [hts] at hr
  have he : t.input.event = .Order request := by
    rw [hi]
    rfl
  have hret' : ¬t.before.Retries request := by
    rw [← retried_iff, hret]
    exact Bool.false_ne_true
  have hagain : (placed 2 1 .Buy 100 3).event = .Order request := rfl
  obtain ⟨c', report', happ, hbare, -⟩ :=
    exact_retry_repeats_outcome hr hf he hrep hret' hacc hcount hagree hagain hseq
  exact ⟨c, _, t, _, report, c', report', hr, hrep, hkind, happ, hbare⟩

/-- A request that was accepted is a conflict when it is repeated: in between its id was used with another quantity. -/
theorem exact_retry_conflicts :
    ∃ c pre t mid report c' report', smallCore.history (opening ++ [placed 1 1 .Buy 99 1, placed 1 1 .Buy 99 2]) =
        .ok (c, pre ++ t :: mid) ∧ c.fault = none ∧ t.input = placed 1 1 .Buy 99 1 ∧ final_report t.output = some report ∧
      report.reject_reason = none ∧ mid.countP (records ⟨0, by decide⟩) = 1 ∧
      c.apply (placed 1 1 .Buy 99 1) = .ok (c', [.Report report']) ∧
      report'.reject_reason = some .DuplicateRequestConflict := by
  have hends : Ends (smallCore.history (opening ++ [placed 1 1 .Buy 99 1, placed 1 1 .Buy 99 2])) fun r =>
      r.1.fault = none ∧ (∃ t ∈ r.2[3]?, t.input = placed 1 1 .Buy 99 1 ∧
        ∃ report ∈ final_report t.output, report.reject_reason = none) ∧
      (r.2.drop 4).countP (records ⟨0, by decide⟩) = 1 ∧ Ends (r.1.apply (placed 1 1 .Buy 99 1)) fun r' =>
        r'.2.length = 1 ∧ ∃ report ∈ final_report r'.2, report.reject_reason = some .DuplicateRequestConflict := by
    decide +kernel
  obtain ⟨⟨c, ts⟩, hr, hf, ⟨t, ht, hi, report, hrep, hacc⟩, hcount, ⟨c', out⟩, happ, hlen, report', hrep', hrej⟩ := hends
  have hts := eq_take_cons_drop ht
  dsimp only at hr hts happ hlen hrep'
  rw [hts] at hr
  obtain ⟨event, rfl⟩ := List.length_eq_one_iff.1 hlen
  have hevent : event = .Report report' := by
    cases event <;> cases hrep'
    rfl
  rw [hevent] at happ
  exact ⟨c, _, t, _, report, c', report', hr, hf, hi, hrep, hacc, hcount, happ, hrej⟩

end Retries

end TradingLab
