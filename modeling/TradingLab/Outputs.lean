import TradingLab.Invariants
/-!
# The output stream

Every number the engine draws for an output ends up on exactly one output, in
the order they are emitted. The outputs of a request come in groups of three,
one group for a fill, and end with one report.
-/
open LabLib

namespace TradingLab

/-! ## Groups -/

/-- The events of one fill. -/
structure Group where
  trade : TradeEvent
  maker : ExecutionReport
  taker : ExecutionReport

def Group.events (g : Group) : List OutputEvent := [.Trade g.trade, .Report g.maker, .Report g.taker]

/-- The report is about this order's part in the trade. -/
structure ExecutionReport.Of (report : ExecutionReport) (order_id : OrderId) (account : AccountId) (trade : TradeEvent) :
    Prop where
  order : report.order_id = order_id
  account : report.account = account
  quantity : report.last_fill_quantity = trade.quantity
  price : report.last_fill_price = trade.price

/-- Both reports are about the trade. -/
structure Group.Sound (g : Group) : Prop where
  maker : g.maker.Of g.trade.maker_order_id g.trade.maker_account g.trade
  taker : g.taker.Of g.trade.taker_order_id g.trade.taker_account g.trade

/-- The outputs are groups, and one final report. -/
def Grouped (out : List OutputEvent) : Prop :=
  ∃ (groups : List Group) (final : ExecutionReport), (∀ g ∈ groups, g.Sound) ∧
    out = groups.flatMap Group.events ++ [.Report final]

theorem grouped_one (report : ExecutionReport) : Grouped [.Report report] := ⟨[], report, by simp, rfl⟩

theorem bare_eq_report {event : OutputEvent} {report : ExecutionReport} (h : event.bare = .Report report) :
    ∃ r, event = .Report r ∧ r.bare = report := by
  cases event with
  | Report r => exact ⟨r, rfl, OutputEvent.Report.inj h⟩
  | Trade t => cases h
  | State s => cases h

theorem bare_eq_trade {event : OutputEvent} {trade : TradeEvent} (h : event.bare = .Trade trade) :
    ∃ t, event = .Trade t ∧ t.bare = trade := by
  cases event with
  | Trade t => exact ⟨t, rfl, OutputEvent.Trade.inj h⟩
  | Report r => cases h
  | State s => cases h

/-- Stamps do not matter for grouping. -/
theorem grouped_of_bare {out : List OutputEvent} (h : Grouped (out.map OutputEvent.bare)) : Grouped out := by
  obtain ⟨groups, final, hs, he⟩ := h
  induction groups generalizing out with
  | nil =>
    obtain ⟨event, rfl, hb⟩ := List.map_eq_singleton_iff.1 he
    obtain ⟨r, rfl, -⟩ := bare_eq_report hb
    exact grouped_one r
  | cons g groups ih =>
    obtain ⟨e₁, out₁, rfl, h1, he₁⟩ := List.map_eq_cons_iff.1 he
    obtain ⟨e₂, out₂, rfl, h2, he₂⟩ := List.map_eq_cons_iff.1 he₁
    obtain ⟨e₃, out₃, rfl, h3, he₃⟩ := List.map_eq_cons_iff.1 he₂
    obtain ⟨t, rfl, ht⟩ := bare_eq_trade h1
    obtain ⟨mk, rfl, hm⟩ := bare_eq_report h2
    obtain ⟨tk, rfl, hk⟩ := bare_eq_report h3
    obtain ⟨groups', final', hs', rfl⟩ := ih (fun g' hg' => hs g' (List.mem_cons_of_mem _ hg')) he₃
    have hg := hs g List.mem_cons_self
    rw [show g = ⟨t.bare, mk.bare, tk.bare⟩ by rw [ht, hm, hk]] at hg
    refine ⟨⟨t, mk, tk⟩ :: groups', final', ?_, rfl⟩
    intro g' hg'
    rcases List.mem_cons.1 hg' with rfl | hg'
    · exact ⟨⟨hg.maker.1, hg.maker.2, hg.maker.3, hg.maker.4⟩, ⟨hg.taker.1, hg.taker.2, hg.taker.3, hg.taker.4⟩⟩
    · exact hs' g' hg'

theorem grouped_fills (instrument : InstrumentId) (request : OrderRequest) (order_id : OrderId) (side : Side)
    (quantity filled : QuantityLots) (fills : List Fill) (report : ExecutionReport) :
    Grouped (fillsStory instrument request order_id side quantity filled fills ++ [.Report report]) := by
  induction fills generalizing filled with
  | nil => exact grouped_one report
  | cons fill fills ih =>
    obtain ⟨groups, final, hs, he⟩ := ih (filled + fill.quantity)
    refine ⟨⟨fillTrade instrument request order_id side fill, makerReport instrument side fill,
      takerReport request order_id side quantity (filled + fill.quantity) fill⟩ :: groups, final, ?_, ?_⟩
    · intro g hg
      rcases List.mem_cons.1 hg with rfl | hg
      · exact ⟨⟨rfl, rfl, rfl, rfl⟩, ⟨rfl, rfl, rfl, rfl⟩⟩
      · exact hs g hg
    · rw [fillsStory, List.append_assoc, he]
      rfl

section Outputs
variable {n m : Nat} {c c' : TradingCore n m} {d d' : Desk n m}

theorem Story.grouped {w : Wiring n m} {fits : Bool} {request : OrderRequest} {story : List OutputEvent}
    (h : Story w fits d request story d') : Grouped story := by
  cases h with
  | reject | cancel | retire | shrink => exact grouped_one _
  | enter | requeue => exact grouped_fills _ _ _ _ _ _ _ _

theorem Effect.grouped {story : List OutputEvent} {request : OrderRequest} (h : Effect c d (.Order request) story d') : Grouped story := by
  cases h with
  | quiet hq => exact absurd rfl (hq request)
  | retry | conflict => exact grouped_one _
  | handled _ hstory => exact hstory.grouped

/-! ## Runs -/

/-- The stamps on the outputs of a run, and their groups. -/
structure Stamped (inputs : List EngineInput) (c : TradingCore n m) (outs : List (List OutputEvent)) : Prop where
  length : outs.length = inputs.length
  engine : val c.engine_seq = inputs.length
  seqs : Counts 0 (outs.flatten.map fun event => val event.output_seq) (val c.output_seq)
  ids : Counts 0 ((trades outs.flatten).map fun trade => val trade.trade_id) (val c.next_trade_id)
  stamped : ∀ (k : Nat) out, outs[k]? = some out → ∀ event ∈ out, val event.engine_seq = k + 1
  grouped : ∀ (k : Nat) input request out, inputs[k]? = some input → outs[k]? = some out → input.event = .Order request →
    Grouped out

theorem Stamped.new (allocator : SlabAllocator) (config : EngineConfig) :
    Stamped [] (TradingCore.new allocator config) [] where
  length := rfl
  engine := rfl
  seqs := rfl
  ids := rfl
  stamped k out h := by simp at h
  grouped k input request out h := by simp at h

theorem Stamped.step {inputs : List EngineInput} {outs : List (List OutputEvent)} {input : EngineInput}
    {out : List OutputEvent} {seq : EngineSeq} {ms : List (Move n m)} (h : Stamped inputs c outs)
    (hn : next c.engine_seq = some seq) (hd : Done c c' d input.event out (c.stampsAt seq) d' ms) :
    Stamped (inputs ++ [input]) c' (outs ++ [out]) := by
  obtain ⟨story, heffect, hemits⟩ := hd.told
  have hseq : val seq = inputs.length + 1 := by rw [next_eq_some.1 hn, h.engine]
  refine ⟨by simp [h.length], ?_, ?_, ?_, ?_, ?_⟩
  · have h1 : c'.engine_seq = seq := hemits.engine
    rw [h1, hseq, List.length_append]
    simp
  · rw [List.flatten_append, List.flatten_singleton, List.map_append]
    exact h.seqs.append hemits.seqs
  · rw [List.flatten_append, List.flatten_singleton, trades_append, List.map_append]
    exact h.ids.append hemits.ids
  · intro k out' hk event he
    rcases getElem?_snoc hk with hk | ⟨rfl, rfl⟩
    · exact h.stamped k out' hk event he
    · rw [hemits.stamped event he, h.length]
      exact hseq
  · intro k input' request out' hi ho hev
    rcases getElem?_snoc ho with ho' | ⟨rfl, rfl⟩
    · have hlt : k < inputs.length := by rw [← h.length]; exact (List.getElem?_eq_some_iff.1 ho').1
      rw [List.getElem?_append_left hlt] at hi
      exact h.grouped k input' request out' hi ho' hev
    · rw [h.length, List.getElem?_concat_length] at hi
      cases hi
      rw [hev] at heffect
      apply grouped_of_bare
      rw [hemits.bare]
      exact heffect.grouped

/-- Output sequence numbers and trade ids count up from one. All outputs of an
input carry its engine sequence, and those of a request are groups of trade,
maker report and taker report, and one final report. -/
theorem outputs_are_stamped_and_grouped {allocator : SlabAllocator} {config : EngineConfig} {inputs : List EngineInput}
    {c : TradingCore config.instruments.length config.accounts.length} {outs : List (List OutputEvent)}
    (h : (TradingCore.new allocator config).run inputs = .ok (c, outs)) (hf : c.fault = none) :
    (outs.flatten.map fun event => val event.output_seq) = (List.range outs.flatten.length).map (fun k : Nat => 1 + (k : Int)) ∧
      ((trades outs.flatten).map fun trade => val trade.trade_id) =
        (List.range (trades outs.flatten).length).map (fun k : Nat => 1 + (k : Int)) ∧
      outs.length = inputs.length ∧ ∀ (k : Nat) input out, inputs[k]? = some input → outs[k]? = some out →
        (∀ event ∈ out, val event.engine_seq = k + 1) ∧ ∀ request, input.event = .Order request → Grouped out := by
  obtain ⟨-, -, hs⟩ := run_induction (view_new allocator config) (fun inputs c outs _ => Stamped inputs c outs)
    (Stamped.new allocator config) (fun ih _ hn _ hd => ih.step hn hd) h hf
  refine ⟨?_, ?_, hs.length, fun k input out hi ho => ⟨hs.stamped k out ho, fun request => hs.grouped k input request out hi ho⟩⟩
  · have := hs.seqs.eq_range.1
    rwa [List.length_map, Int.zero_add] at this
  · have := hs.ids.eq_range.1
    rwa [List.length_map, Int.zero_add] at this

theorem outputs_are_stamped_and_grouped_small :
    ∃ c outs, smallCore.run smallInputs = .ok (c, outs) ∧ c.fault = none ∧
      (outs.flatten.map fun event => val event.output_seq) = [1, 2, 3, 4, 5, 6, 7, 8] ∧
      ((trades outs.flatten).map fun trade => val trade.trade_id) = [1] ∧
      ∃ out, outs[4]? = some out ∧ out.length = 4 ∧ Grouped out := by
  have hends : Ends (smallCore.run smallInputs) fun r => r.1.fault = none ∧ r.2.flatten.length = 8 ∧
      (trades r.2.flatten).length = 1 ∧ ∃ out ∈ r.2[4]?, out.length = 4 := by decide +kernel
  obtain ⟨⟨c, outs⟩, hr, hf, hlen, htr, out, ho, hl⟩ := hends
  obtain ⟨h1, h2, -, h3⟩ := outputs_are_stamped_and_grouped hr hf
  rw [hlen] at h1
  rw [htr] at h2
  exact ⟨c, outs, hr, hf, h1, h2, out, ho, hl, (h3 4 _ out rfl ho).2 _ rfl⟩

end Outputs

end TradingLab
