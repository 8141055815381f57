import TradingLab.Wire
/-!
# The canonical encoding of outputs

`canonical.rs`. An output event is written field by field; the same bytes go into the
output digest and into the journal. They are read back to the event, and no other
bytes are.
-/
open LabLib

namespace TradingLab

/-! ## Writing -/

def TAG_TRADE : UInt8 := 1
def TAG_REPORT : UInt8 := 2
def TAG_STATE : UInt8 := 3

def encode_state_event : EngineStateEvent → List UInt8
  | .KillSwitchEngaged => [1]
  | .KillSwitchReleased => [2]
  | .AccountEnabledChanged account enabled => [[3], to_le_bytes account, [flag enabled]].flatten
  | .AccountLimitsChanged account => [[4], to_le_bytes account].flatten
  | .FeedStateChanged instrument state => [[5], to_le_bytes instrument, [state.wire]].flatten

def encode_trade (trade : TradeEvent) : List UInt8 :=
  [[TAG_TRADE],
    to_le_bytes trade.output_seq,
    to_le_bytes trade.engine_seq,
    to_le_bytes trade.engine_time_ns,
    to_le_bytes trade.trade_id,
    to_le_bytes trade.instrument,
    to_le_bytes trade.maker_order_id,
    to_le_bytes trade.taker_order_id,
    to_le_bytes trade.maker_account,
    to_le_bytes trade.taker_account,
    [trade.aggressor.wire],
    to_le_bytes trade.price,
    to_le_bytes trade.quantity].flatten

def encode_report (report : ExecutionReport) : List UInt8 :=
  [[TAG_REPORT],
    to_le_bytes report.output_seq,
    to_le_bytes report.engine_seq,
    to_le_bytes report.engine_time_ns,
    to_le_bytes report.account,
    to_le_bytes report.instrument,
    to_le_bytes report.request_id,
    to_le_bytes report.client_order_id,
    to_le_bytes report.order_id,
    [report.kind.wire],
    [report.state.wire],
    [report.side.wire],
    [report.order_type.wire],
    to_le_bytes report.price,
    to_le_bytes report.total_quantity,
    to_le_bytes report.cumulative_filled,
    to_le_bytes report.remaining,
    to_le_bytes report.last_fill_quantity,
    to_le_bytes report.last_fill_price,
    [report.reject_reason.elim 0 RejectReason.wire]].flatten

def encode_state (state : StateEvent) : List UInt8 :=
  [[TAG_STATE],
    to_le_bytes state.output_seq,
    to_le_bytes state.engine_seq,
    to_le_bytes state.engine_time_ns,
    encode_state_event state.event].flatten

def encode_output : OutputEvent → List UInt8
  | .Trade trade => encode_trade trade
  | .Report report => encode_report report
  | .State state => encode_state state

/-! ## Reading -/

open Reader

def read_trade : Decode TradeEvent := do
  return {
    output_seq := ← u64
    engine_seq := ← u64
    engine_time_ns := ← u64
    trade_id := ← u64
    instrument := ← u32
    maker_order_id := ← u64
    taker_order_id := ← u64
    maker_account := ← u32
    taker_account := ← u32
    aggressor := ← read_side
    price := ← i64
    quantity := ← u64 }

def read_report : Decode ExecutionReport := do
  return {
    output_seq := ← u64
    engine_seq := ← u64
    engine_time_ns := ← u64
    account := ← u32
    instrument := ← u32
    request_id := ← u64
    client_order_id := ← u64
    order_id := ← u64
    kind := ← read_report_kind
    state := ← read_order_state
    side := ← read_side
    order_type := ← read_order_type
    price := ← i64
    total_quantity := ← u64
    cumulative_filled := ← u64
    remaining := ← u64
    last_fill_quantity := ← u64
    last_fill_price := ← i64
    reject_reason := ← read_reject }

def read_state_event : Decode EngineStateEvent := do
  match ← u8 with
  | 1 => return .KillSwitchEngaged
  | 2 => return .KillSwitchReleased
  | 3 => return .AccountEnabledChanged (← u32) (← read_flag)
  | 4 => return .AccountLimitsChanged (← u32)
  | 5 => return .FeedStateChanged (← u32) (← read_feed_state)
  | _ => invalid_field

def read_state : Decode StateEvent := do
  return {
    output_seq := ← u64
    engine_seq := ← u64
    engine_time_ns := ← u64
    event := ← read_state_event }

def read_output : Decode OutputEvent := do
  match ← u8 with
  | 1 => return .Trade (← read_trade)
  | 2 => return .Report (← read_report)
  | 3 => return .State (← read_state)
  | _ => invalid_field

/-- One event, and the number of bytes it took. -/
def decode_output (bytes : List UInt8) : Except DecodeError (OutputEvent × Nat) := do
  let (event, reader) ← read_output ⟨bytes, 0⟩
  return (event, reader.offset)

/-! ## What is written is read back -/

theorem reads_state_event (event : EngineStateEvent) : Reads read_state_event (encode_state_event event) event := by
  cases event with
  | KillSwitchEngaged => exact .byte rfl
  | KillSwitchReleased => exact .byte rfl
  | AccountEnabledChanged account enabled =>
    exact (reads_u8 3).bind <| (reads_word account).bind <| (reads_flag enabled).bind <| .done _
  | AccountLimitsChanged account => exact (reads_u8 4).bind <| (reads_word account).bind <| .done _
  | FeedStateChanged instrument state =>
    exact (reads_u8 5).bind <| (reads_word instrument).bind <| (reads_feed_state state).bind <| .done _

theorem reads_output (event : OutputEvent) : Reads read_output (encode_output event) event := by
  cases event with
  | Trade trade =>
    rw [encode_output, encode_trade]
    simp only [List.flatten_cons, List.flatten_nil]
    refine (reads_u8 TAG_TRADE).bind ?_
    refine Reads.map ?_ OutputEvent.Trade
    exact (reads_word _).bind <| (reads_word _).bind <| (reads_word _).bind <| (reads_word _).bind <| (reads_word _).bind <|
      (reads_word _).bind <| (reads_word _).bind <| (reads_word _).bind <| (reads_word _).bind <| (reads_side _).bind <|
      (reads_word _).bind <| (reads_word _).bind <| .done _
  | Report report =>
    rw [encode_output, encode_report]
    simp only [List.flatten_cons, List.flatten_nil]
    refine (reads_u8 TAG_REPORT).bind ?_
    refine Reads.map ?_ OutputEvent.Report
    exact (reads_word _).bind <| (reads_word _).bind <| (reads_word _).bind <| (reads_word _).bind <| (reads_word _).bind <|
      (reads_word _).bind <| (reads_word _).bind <| (reads_word _).bind <| (reads_report_kind _).bind <|
      (reads_order_state _).bind <| (reads_side _).bind <| (reads_order_type _).bind <| (reads_word _).bind <|
      (reads_word _).bind <| (reads_word _).bind <| (reads_word _).bind <| (reads_word _).bind <| (reads_word _).bind <|
      (reads_reject _).bind <| .done _
  | State state =>
    rw [encode_output, encode_state]
    simp only [List.flatten_cons, List.flatten_nil]
    refine (reads_u8 TAG_STATE).bind ?_
    refine Reads.map ?_ OutputEvent.State
    exact (reads_word _).bind <| (reads_word _).bind <| (reads_word _).bind <| (reads_state_event _).bind <| .done _

/-- An event is read back from its own bytes, and all of them are consumed. -/
theorem decode_encode_output (event : OutputEvent) (rest : List UInt8) :
    decode_output (encode_output event ++ rest) = .ok (event, (encode_output event).length) := by
  have h := reads_output event rest 0
  rw [Nat.zero_add] at h
  rw [decode_output, h]
  rfl

/-! ## Nothing else is -/

theorem consumes_state_event : Consumes read_state_event fun event used => used = encode_state_event event := by
  refine Consumes.byte fun tag => ?_
  split
  · exact .done rfl
  · exact .done rfl
  · exact .word fun account => consumes_flag.wire fun enabled => .done rfl
  · exact .word fun account => .done rfl
  · exact .word fun instrument => consumes_feed_state.wire fun state => .done rfl
  · exact .fail

theorem consumes_trade : Consumes read_trade fun trade used => TAG_TRADE :: used = encode_trade trade :=
  .word fun _ => .word fun _ => .word fun _ => .word fun _ => .word fun _ => .word fun _ => .word fun _ => .word fun _ =>
    .word fun _ => consumes_side.wire fun _ => .word fun _ => .word fun _ => .done rfl

theorem consumes_report : Consumes read_report fun report used => TAG_REPORT :: used = encode_report report :=
  .word fun _ => .word fun _ => .word fun _ => .word fun _ => .word fun _ => .word fun _ => .word fun _ => .word fun _ =>
    consumes_report_kind.wire fun _ => consumes_order_state.wire fun _ => consumes_side.wire fun _ =>
    consumes_order_type.wire fun _ => .word fun _ => .word fun _ => .word fun _ => .word fun _ => .word fun _ =>
    .word fun _ => consumes_reject.wire fun _ => .done rfl

theorem consumes_state : Consumes read_state fun state used => TAG_STATE :: used = encode_state state := by
  refine .word fun output_seq => .word fun engine_seq => .word fun engine_time_ns => ?_
  refine consumes_state_event.bind fun event used hused => .done ?_
  rw [hused, encode_state]
  simp

theorem consumes_output : Consumes read_output fun event used => used = encode_output event := by
  refine Consumes.byte fun tag => ?_
  split
  · refine consumes_trade.bind fun trade used hused => .done ?_
    rw [List.append_nil]
    exact hused
  · refine consumes_report.bind fun report used hused => .done ?_
    rw [List.append_nil]
    exact hused
  · refine consumes_state.bind fun state used hused => .done ?_
    rw [List.append_nil]
    exact hused
  · exact .fail

/-- A record of the journal is never empty, and always short. -/
theorem length_encode_output (event : OutputEvent) :
    0 < (encode_output event).length ∧ (encode_output event).length ≤ 132 := by
  cases event with
  | Trade trade => simp [encode_output, encode_trade, Word.width]
  | Report report => simp [encode_output, encode_report, Word.width]
  | State state => cases hevent : state.event <;> simp [encode_output, encode_state, encode_state_event, hevent, Word.width]

theorem encode_output_ne_nil (event : OutputEvent) : encode_output event ≠ [] :=
  List.ne_nil_of_length_pos (length_encode_output event).1

/-- The canonical encoding is read back whatever follows it, nothing else is accepted,
and the bytes of a stream determine the stream. -/
theorem canonical_outputs_round_trip :
    (∀ event rest, decode_output (encode_output event ++ rest) = .ok (event, (encode_output event).length)) ∧
    (∀ bytes event n, decode_output bytes = .ok (event, n) → encode_output event = bytes.take n) ∧
    ∀ events events' : List OutputEvent, events.flatMap encode_output = events'.flatMap encode_output → events = events' := by
  refine ⟨decode_encode_output, fun bytes event n hdecode => ?_, fun events events' heq => ?_⟩
  · rw [decode_output] at hdecode
    cases hread : read_output ⟨bytes, 0⟩ with
    | error e =>
      rw [hread] at hdecode
      cases hdecode
    | ok x =>
      obtain ⟨event', reader⟩ := x
      rw [hread] at hdecode
      cases hdecode
      obtain ⟨used, hbytes, hoffset, hused⟩ := consumes_output _ _ _ _ hread
      rw [hbytes, hoffset, Nat.zero_add, List.take_left, hused]
  · exact (Reads.delimited reads_output).flatMap_injective encode_output_ne_nil heq

/-- A state event is told from the byte behind it. -/
theorem canonical_outputs_round_trip_small :
    encode_output (.State ⟨1, 1, 5, .KillSwitchEngaged⟩) =
      [3, 1, 0, 0, 0, 0, 0, 0, 0, 1, 0, 0, 0, 0, 0, 0, 0, 5, 0, 0, 0, 0, 0, 0, 0, 1] :=
  canonical_outputs_round_trip.2.1
    [3, 1, 0, 0, 0, 0, 0, 0, 0, 1, 0, 0, 0, 0, 0, 0, 0, 5, 0, 0, 0, 0, 0, 0, 0, 1, 9] _ 26 (by decide +kernel)

end TradingLab
