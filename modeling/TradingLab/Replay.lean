import TradingLab.Canonical
/-!
# Replay evidence

`replay.rs`: the canonical bytes of the inputs an engine applied. Nothing stands
between two inputs, so every layout has to end by itself.
-/
open LabLib

namespace TradingLab

/-! ## Inputs as bytes -/

def encode_market_kind : MarketEventKind → List UInt8
  | .SnapshotBegin snapshot_seq => [[1], to_le_bytes snapshot_seq].flatten
  | .SnapshotLevel side price quantity => [[2], [side.wire], to_le_bytes price, to_le_bytes quantity].flatten
  | .SnapshotEnd snapshot_seq level_count => [[3], to_le_bytes snapshot_seq, to_le_bytes level_count].flatten
  | .LevelSet side price quantity => [[4], [side.wire], to_le_bytes price, to_le_bytes quantity].flatten
  | .Trade aggressor price quantity => [[5], [aggressor.wire], to_le_bytes price, to_le_bytes quantity].flatten
  | .Heartbeat => [6]
  | .FeedReset new_epoch => [[7], to_le_bytes new_epoch].flatten

def encode_limits (limits : AccountLimits) : List UInt8 :=
  [to_le_bytes limits.max_order_quantity,
    to_le_bytes limits.max_order_notional,
    to_le_bytes limits.max_position_lots,
    to_le_bytes limits.max_gross_exposure,
    to_le_bytes limits.price_collar_ticks].flatten

def encode_command : ControlCommand → List UInt8
  | .SetGlobalKill engaged => [1, flag engaged]
  | .SetAccountEnabled account enabled => [[2], to_le_bytes account, [flag enabled]].flatten
  | .SetAccountLimits account limits => [[3], to_le_bytes account, encode_limits limits].flatten

def encode_request (request : OrderRequest) : List UInt8 :=
  [[request.kind.wire],
    [request.side.wire],
    [request.order_type.wire],
    to_le_bytes request.account,
    to_le_bytes request.instrument,
    to_le_bytes request.request_id,
    to_le_bytes request.client_seq,
    to_le_bytes request.client_order_id,
    to_le_bytes request.target_client_order_id,
    to_le_bytes request.price,
    to_le_bytes request.quantity].flatten

def encode_market (event : MarketEvent) : List UInt8 :=
  [to_le_bytes event.instrument,
    to_le_bytes event.source_seq,
    to_le_bytes event.source_time_ns,
    encode_market_kind event.kind].flatten

def encode_event : InputEvent → List UInt8
  | .Market event => 1 :: encode_market event
  | .Order request => 2 :: encode_request request
  | .Control command => 3 :: encode_command command

def encode_input (input : EngineInput) : List UInt8 :=
  [to_le_bytes input.ingress_seq, to_le_bytes input.recv_time_ns, encode_event input.event].flatten

/-! ## The bytes determine the inputs -/

theorem encode_market_kind_delimited : Delimited encode_market_kind := by
  intro a b rest rest' h
  cases a <;> cases b <;> simp_all [encode_market_kind]

theorem encode_market_delimited : Delimited encode_market := by
  rintro ⟨instrument, source_seq, source_time_ns, kind⟩ ⟨instrument', source_seq', source_time_ns', kind'⟩ rest rest' h
  simp only [encode_market, List.flatten_cons, List.flatten_nil, List.append_nil, List.append_assoc, to_le_bytes_append_inj,
    encode_market_kind_delimited.append_inj] at h
  obtain ⟨rfl, rfl, rfl, rfl, hrest⟩ := h
  exact ⟨rfl, hrest⟩

theorem encode_request_delimited : Delimited encode_request := by
  rintro ⟨kind, account, instrument, request_id, client_seq, client_order_id, target, side, order_type, price, quantity⟩
    ⟨kind', account', instrument', request_id', client_seq', client_order_id', target', side', order_type', price', quantity'⟩
    rest rest' h
  simp only [encode_request, List.flatten_cons, List.flatten_nil, List.append_nil, List.append_assoc, List.cons_append,
    List.nil_append, List.cons.injEq, RequestKind.wire_inj, Side.wire_inj, OrderType.wire_inj, to_le_bytes_append_inj] at h
  obtain ⟨rfl, rfl, rfl, rfl, rfl, rfl, rfl, rfl, rfl, rfl, rfl, hrest⟩ := h
  exact ⟨rfl, hrest⟩

theorem encode_limits_delimited : Delimited encode_limits := by
  rintro ⟨quantity, notional, position, exposure, collar⟩ ⟨quantity', notional', position', exposure', collar'⟩ rest rest' h
  simp only [encode_limits, List.flatten_cons, List.flatten_nil, List.append_nil, List.append_assoc,
    to_le_bytes_append_inj] at h
  obtain ⟨rfl, rfl, rfl, rfl, rfl, hrest⟩ := h
  exact ⟨rfl, hrest⟩

theorem encode_command_delimited : Delimited encode_command := by
  intro a b rest rest' h
  cases a <;> cases b <;> simp_all [encode_command, encode_limits_delimited.append_inj]

/-- The tag says which of the layouts follows. -/
theorem encode_event_delimited : Delimited encode_event := by
  intro a b rest rest' h
  cases a <;> cases b <;>
    simp_all [encode_event, encode_market_delimited.append_inj, encode_request_delimited.append_inj,
      encode_command_delimited.append_inj]

theorem encode_input_delimited : Delimited encode_input := by
  rintro ⟨ingress_seq, recv_time_ns, event⟩ ⟨ingress_seq', recv_time_ns', event'⟩ rest rest' h
  simp only [encode_input, List.flatten_cons, List.flatten_nil, List.append_nil, List.append_assoc, to_le_bytes_append_inj,
    encode_event_delimited.append_inj] at h
  obtain ⟨rfl, rfl, rfl, hrest⟩ := h
  exact ⟨rfl, hrest⟩

theorem encode_input_ne_nil (input : EngineInput) : encode_input input ≠ [] := by
  refine List.ne_nil_of_length_pos ?_
  simp [encode_input, Word.width]

/-- The stream that goes into the input digest determines every input. -/
theorem input_stream_determines_inputs {inputs inputs' : List EngineInput}
    (h : inputs.flatMap encode_input = inputs'.flatMap encode_input) : inputs = inputs' :=
  encode_input_delimited.flatMap_injective encode_input_ne_nil h

/-- The same stream made twice: a heartbeat for each of two instruments, and a kill. -/
theorem input_stream_determines_inputs_small :
    ([1, 2].map fun i => (⟨i.toUInt64, 7, .Market ⟨i, 0, 9, .Heartbeat⟩⟩ : EngineInput)) ++
        [⟨3, 7, .Control (.SetGlobalKill true)⟩] =
      [⟨1, 7, .Market ⟨1, 0, 9, .Heartbeat⟩⟩, ⟨2, 7, .Market ⟨2, 0, 9, .Heartbeat⟩⟩, ⟨3, 7, .Control (.SetGlobalKill true)⟩] :=
  input_stream_determines_inputs (by decide +kernel)

end TradingLab
