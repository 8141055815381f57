import TradingLab.Wire
/-!
# The feed format

`codec.rs`: frames. A frame carries its own length, which counts the checksum at its
end; the checksum covers everything before it. `crc32` is any fixed function of the
bytes.
-/
open LabLib

namespace TradingLab

def SCHEMA_VERSION : UInt16 := 1
def MAX_FRAME_LEN : UInt32 := 4096

def FRAME_PREFIX_LEN : Nat := 36
def FRAME_CRC_LEN : Nat := 4

@[match_pattern] def TYPE_SNAPSHOT_BEGIN : UInt8 := 1
@[match_pattern] def TYPE_SNAPSHOT_LEVEL : UInt8 := 2
@[match_pattern] def TYPE_SNAPSHOT_END : UInt8 := 3
@[match_pattern] def TYPE_LEVEL_SET : UInt8 := 4
@[match_pattern] def TYPE_MARKET_TRADE : UInt8 := 5
@[match_pattern] def TYPE_HEARTBEAT : UInt8 := 6
@[match_pattern] def TYPE_FEED_RESET : UInt8 := 7
@[match_pattern] def TYPE_ORDER_REQUEST : UInt8 := 8

inductive FrameBody where
  | SnapshotBegin (snapshot_seq : UInt64)
  | SnapshotLevel (side : Side) (price : PriceTicks) (quantity : QuantityLots)
  | SnapshotEnd (snapshot_seq : UInt64) (level_count : UInt32) (state_crc : UInt32)
  | LevelSet (side : Side) (price : PriceTicks) (quantity : QuantityLots)
  | MarketTrade (aggressor : Side) (price : PriceTicks) (quantity : QuantityLots)
  | Heartbeat
  | FeedReset (new_epoch : UInt64)
  | OrderRequest (request : OrderRequest)
deriving DecidableEq

def FrameBody.message_type : FrameBody → UInt8
  | SnapshotBegin .. => TYPE_SNAPSHOT_BEGIN
  | SnapshotLevel .. => TYPE_SNAPSHOT_LEVEL
  | SnapshotEnd .. => TYPE_SNAPSHOT_END
  | LevelSet .. => TYPE_LEVEL_SET
  | MarketTrade .. => TYPE_MARKET_TRADE
  | Heartbeat => TYPE_HEARTBEAT
  | FeedReset .. => TYPE_FEED_RESET
  | OrderRequest _ => TYPE_ORDER_REQUEST

structure Frame where
  /-- Per channel. Zero is reserved for non-sequenced messages. -/
  source_seq : UInt64
  source_time_ns : UInt64
  recv_time_ns : UInt64
  instrument : InstrumentId
  body : FrameBody
deriving DecidableEq

/-! ## Encoding -/

def encode_level (side : Side) (price : PriceTicks) (quantity : QuantityLots) : List UInt8 :=
  [[side.wire], to_le_bytes price, to_le_bytes quantity].flatten

/-- The instrument of a request is not written: the frame has it. -/
def encode_order (request : OrderRequest) : List UInt8 :=
  [[request.kind.wire], [request.side.wire], [request.order_type.wire], to_le_bytes request.account,
    to_le_bytes request.client_order_id, to_le_bytes request.target_client_order_id, to_le_bytes request.request_id,
    to_le_bytes request.client_seq, to_le_bytes request.price, to_le_bytes request.quantity].flatten

def encode_payload : FrameBody → List UInt8
  | .SnapshotBegin snapshot_seq => to_le_bytes snapshot_seq
  | .SnapshotLevel side price quantity => encode_level side price quantity
  | .LevelSet side price quantity => encode_level side price quantity
  | .SnapshotEnd snapshot_seq level_count state_crc =>
    [to_le_bytes snapshot_seq, to_le_bytes level_count, to_le_bytes state_crc].flatten
  | .MarketTrade aggressor price quantity => encode_level aggressor price quantity
  | .Heartbeat => []
  | .FeedReset new_epoch => to_le_bytes new_epoch
  | .OrderRequest request => encode_order request

/-- All but the checksum. -/
def Frame.unsealed (frame : Frame) (frame_len : UInt32) : List UInt8 :=
  [to_le_bytes frame_len, [frame.body.message_type], [0], to_le_bytes SCHEMA_VERSION, to_le_bytes frame.source_seq,
    to_le_bytes frame.source_time_ns, to_le_bytes frame.recv_time_ns, to_le_bytes frame.instrument,
    encode_payload frame.body].flatten

section Frames
variable (crc32 : List UInt8 → UInt32)

def Frame.encode (frame : Frame) : List UInt8 :=
  -- the length is written over a zero once the payload is there
  let out := frame.unsealed 0
  let frame_len : UInt32 := .ofNat (out.length + FRAME_CRC_LEN)
  let out := to_le_bytes frame_len ++ out.drop 4
  out ++ to_le_bytes (crc32 out)

/-! ## Decoding -/

def read_level : Decode (Side × PriceTicks × QuantityLots) := do
  let side ← read_side
  let price ← Reader.i64
  let quantity ← Reader.u64
  return (side, price, quantity)

def read_order (instrument : InstrumentId) : Decode OrderRequest := do
  let kind ← read_request_kind
  let side ← read_side
  let order_type ← read_order_type
  return {
    kind := kind
    side := side
    order_type := order_type
    account := ← Reader.u32
    instrument := instrument
    client_order_id := ← Reader.u64
    target_client_order_id := ← Reader.u64
    request_id := ← Reader.u64
    client_seq := ← Reader.u64
    price := ← Reader.i64
    quantity := ← Reader.u64 }

def decode_payload (message_type : UInt8) (instrument : InstrumentId) : Decode FrameBody :=
  match message_type with
  | TYPE_SNAPSHOT_BEGIN => do return .SnapshotBegin (← Reader.u64)
  | TYPE_SNAPSHOT_LEVEL => do
    let (side, price, quantity) ← read_level
    return .SnapshotLevel side price quantity
  | TYPE_SNAPSHOT_END => do return .SnapshotEnd (← Reader.u64) (← Reader.u32) (← Reader.u32)
  | TYPE_LEVEL_SET => do
    let (side, price, quantity) ← read_level
    return .LevelSet side price quantity
  | TYPE_MARKET_TRADE => do
    let (aggressor, price, quantity) ← read_level
    if quantity = 0 then Reader.invalid_field else return .MarketTrade aggressor price quantity
  | TYPE_HEARTBEAT => return .Heartbeat
  | TYPE_FEED_RESET => do return .FeedReset (← Reader.u64)
  | TYPE_ORDER_REQUEST => do return .OrderRequest (← read_order instrument)
  | _ => fun reader => .error { kind := .UnknownMessageType, offset := reader.offset }

/-- An error gets the sequence number of the frame it is in. -/
def with_source_seq {α : Type} (source_seq : UInt64) (decode : Decode α) : Decode α := fun reader =>
  (decode reader).mapError fun error => { error with source_seq := some source_seq }

def Reader.require (ok : Bool) (kind : DecodeErrorKind) (offset : Nat) : Decode Unit :=
  if ok then return () else throw { kind := kind, offset := offset }

def read_frame : Decode Frame := do
  let _ ← Reader.take 4
  let message_type ← Reader.u8
  Reader.require ((← Reader.u8) = 0) .ReservedFlags 5
  Reader.require ((← Reader.u16) = SCHEMA_VERSION) .UnsupportedVersion 6
  let source_seq ← Reader.u64
  let source_time_ns ← Reader.u64
  let recv_time_ns ← Reader.u64
  let instrument ← Reader.u32
  let body ← with_source_seq source_seq (decode_payload message_type instrument)
  return {
    source_seq := source_seq
    source_time_ns := source_time_ns
    recv_time_ns := recv_time_ns
    instrument := instrument
    body := body }

def Frame.decode (bytes : List UInt8) : Except DecodeError (Frame × Nat) :=
  if bytes.length < 4 then .error { kind := .Truncated, offset := 0 }
  else
    let frame_len : UInt32 := from_le_bytes (bytes.take 4)
    if frame_len < .ofNat (FRAME_PREFIX_LEN + FRAME_CRC_LEN) ∨ MAX_FRAME_LEN < frame_len then
      .error { kind := .FrameLength, offset := 0 }
    else
      let frame_len := frame_len.toNat
      if bytes.length < frame_len then .error { kind := .Truncated, offset := 0 }
      else
        let frame := bytes.take frame_len
        let stored_crc : UInt32 := from_le_bytes (frame.drop (frame_len - 4))
        if stored_crc ≠ crc32 (frame.take (frame_len - 4)) then .error { kind := .Checksum, offset := frame_len - 4 }
        else
          match read_frame ⟨frame.take (frame_len - FRAME_CRC_LEN), 0⟩ with
          | .error error => .error error
          | .ok (frame, reader) =>
            if reader.bytes.length ≠ 0 then
              .error { kind := .PayloadLength, offset := reader.offset, source_seq := some frame.source_seq }
            else .ok (frame, frame_len)

end Frames

/-! ## Payloads -/

/-- The wire cannot carry a request for another instrument than the frame's, nor a trade
of nothing. -/
def FrameBody.Encodable (instrument : InstrumentId) : FrameBody → Prop
  | MarketTrade _ _ quantity => quantity ≠ 0
  | OrderRequest request => request.instrument = instrument
  | _ => True

theorem reads_level (side : Side) (price : PriceTicks) (quantity : QuantityLots) :
    Reads read_level (encode_level side price quantity) (side, price, quantity) :=
  (reads_side _).bind <| (reads_word _).bind <| (reads_word _).bind <| .done _

theorem reads_order (request : OrderRequest) : Reads (read_order request.instrument) (encode_order request) request := by
  rw [encode_order]
  exact (reads_request_kind _).bind <| (reads_side _).bind <| (reads_order_type _).bind <| (reads_word _).bind <|
    (reads_word _).bind <| (reads_word _).bind <| (reads_word _).bind <| (reads_word _).bind <| (reads_word _).bind <|
    (reads_word _).bind <| .done _

theorem reads_payload {instrument : InstrumentId} {body : FrameBody} (h : body.Encodable instrument) :
    Reads (decode_payload body.message_type instrument) (encode_payload body) body := by
  cases body with
  | SnapshotBegin snapshot_seq => exact (reads_word _).map FrameBody.SnapshotBegin
  | SnapshotLevel side price quantity => exact (reads_level _ _ _).map fun x => FrameBody.SnapshotLevel x.1 x.2.1 x.2.2
  | SnapshotEnd snapshot_seq level_count state_crc =>
    exact (reads_word _).bind <| (reads_word _).bind <| (reads_word _).bind <| .done _
  | LevelSet side price quantity => exact (reads_level _ _ _).map fun x => FrameBody.LevelSet x.1 x.2.1 x.2.2
  | MarketTrade aggressor price quantity =>
    let accept : Side × PriceTicks × QuantityLots → Decode FrameBody := fun x =>
      if x.2.2 = 0 then Reader.invalid_field else pure (.MarketTrade x.1 x.2.1 x.2.2)
    have haccept : accept (aggressor, price, quantity) = pure (.MarketTrade aggressor price quantity) := if_neg h
    have hread : Reads (read_level >>= accept) (encode_level aggressor price quantity ++ [])
        (.MarketTrade aggressor price quantity) := (reads_level _ _ _).bind (haccept ▸ .done _)
    rwa [List.append_nil] at hread
  | Heartbeat => exact .done _
  | FeedReset new_epoch => exact (reads_word _).map FrameBody.FeedReset
  | OrderRequest request =>
    cases h
    exact (reads_order request).map FrameBody.OrderRequest

theorem consumes_level : Consumes read_level fun x used => used = encode_level x.1 x.2.1 x.2.2 :=
  consumes_side.wire fun _ => .word fun _ => .word fun _ => .done rfl

theorem consumes_order (instrument : InstrumentId) :
    Consumes (read_order instrument) fun request used => used = encode_order request ∧ request.instrument = instrument :=
  consumes_request_kind.wire fun _ => consumes_side.wire fun _ => consumes_order_type.wire fun _ => .word fun _ =>
    .word fun _ => .word fun _ => .word fun _ => .word fun _ => .word fun _ => .word fun _ => .done ⟨rfl, rfl⟩

theorem consumes_payload (message_type : UInt8) (instrument : InstrumentId) :
    Consumes (decode_payload message_type instrument) fun body used =>
      used = encode_payload body ∧ message_type = body.message_type ∧ body.Encodable instrument := by
  unfold decode_payload
  split
  · exact .word fun snapshot_seq => .done ⟨by simp [encode_payload], rfl, trivial⟩
  · exact consumes_level.bind fun x used hused => .done ⟨by simp [encode_payload, hused], rfl, trivial⟩
  · exact .word fun snapshot_seq => .word fun level_count => .word fun state_crc =>
      .done ⟨by simp [encode_payload], rfl, trivial⟩
  · exact consumes_level.bind fun x used hused => .done ⟨by simp [encode_payload, hused], rfl, trivial⟩
  · refine consumes_level.bind fun x used hused => ?_
    dsimp only
    split
    · exact .fail
    · rename_i hquantity
      exact .done ⟨by simp [encode_payload, hused], rfl, hquantity⟩
  · exact .done ⟨rfl, rfl, trivial⟩
  · exact .word fun new_epoch => .done ⟨by simp [encode_payload], rfl, trivial⟩
  · exact (consumes_order instrument).bind fun request used hused => .done ⟨by simp [encode_payload, hused.1], rfl, hused.2⟩
  · intro bytes offset body reader hread
    cases hread

theorem length_encode_payload (body : FrameBody) : (encode_payload body).length ≤ 55 := by
  cases body <;> simp [encode_payload, encode_level, encode_order, Word.width]

/-! ## Frames -/

theorem Reader.reads_require {ok : Bool} {kind : DecodeErrorKind} {offset : Nat} (h : ok = true) :
    Reads (Reader.require ok kind offset) [] () := by
  subst h
  exact .done ()

theorem Reader.consumes_require (ok : Bool) (kind : DecodeErrorKind) (offset : Nat) :
    Consumes (Reader.require ok kind offset) fun _ used => used = [] ∧ ok = true := by
  cases ok with
  | true => exact .done ⟨rfl, rfl⟩
  | false =>
    intro bytes start done reader hread
    cases hread

theorem reads_with_source_seq {α : Type} {decode : Decode α} {bytes : List UInt8} {a : α} (source_seq : UInt64)
    (h : Reads decode bytes a) : Reads (with_source_seq source_seq decode) bytes a := by
  intro rest offset
  rw [with_source_seq, h rest offset]
  rfl

theorem consumes_with_source_seq {α : Type} {decode : Decode α} {P : α → List UInt8 → Prop} (source_seq : UInt64)
    (h : Consumes decode P) : Consumes (with_source_seq source_seq decode) P := by
  intro bytes offset a reader hread
  refine h bytes offset a reader ?_
  rw [with_source_seq] at hread
  cases hfirst : decode ⟨bytes, offset⟩ with
  | error error =>
    rw [hfirst] at hread
    cases hread
  | ok x =>
    rw [hfirst] at hread
    exact hread

theorem reads_frame {frame : Frame} (h : frame.body.Encodable frame.instrument) (frame_len : UInt32) :
    Reads read_frame (frame.unsealed frame_len) frame := by
  have hskip : Reads (Reader.take 4) (to_le_bytes frame_len) (to_le_bytes frame_len) := by
    intro rest offset
    rw [Reader.take, if_neg (by simp [Word.width]), List.take_left' (by simp [Word.width]),
      List.drop_left' (by simp [Word.width]), length_to_le_bytes]
    rfl
  rw [Frame.unsealed]
  exact hskip.bind <| (reads_u8 _).bind <| (reads_u8 _).bind <| (Reader.reads_require rfl).bind <| (reads_word _).bind <|
    (Reader.reads_require rfl).bind <| (reads_word _).bind <| (reads_word _).bind <| (reads_word _).bind <|
    (reads_word _).bind <| (reads_with_source_seq _ (reads_payload h)).bind <| .done _

/-- Of the length word only its place is read. -/
theorem consumes_frame : Consumes read_frame fun frame used =>
    frame.body.Encodable frame.instrument ∧ ∃ frame_len : UInt32, used = frame.unsealed frame_len := by
  refine (consumes_take 4).bind fun skipped used hskipped => ?_
  obtain ⟨rfl, hlength⟩ := hskipped
  refine .byte fun message_type => .byte fun flags => (Reader.consumes_require _ _ _).bind ?_
  rintro - - ⟨rfl, hflags⟩
  refine .word fun version => (Reader.consumes_require _ _ _).bind ?_
  rintro - - ⟨rfl, hversion⟩
  refine .word fun source_seq => .word fun source_time_ns => .word fun recv_time_ns => .word fun instrument => ?_
  refine (consumes_with_source_seq source_seq (consumes_payload message_type instrument)).bind ?_
  rintro body payload ⟨rfl, rfl, hencodable⟩
  refine .done ⟨hencodable, from_le_bytes used, ?_⟩
  obtain rfl : flags = 0 := of_decide_eq_true hflags
  obtain rfl : version = SCHEMA_VERSION := of_decide_eq_true hversion
  rw [Frame.unsealed, to_from_le_bytes hlength]
  simp

/-- What the length word of a frame says. -/
def Frame.frame_len (frame : Frame) : UInt32 :=
  .ofNat (FRAME_PREFIX_LEN + (encode_payload frame.body).length + FRAME_CRC_LEN)

theorem Frame.frame_len_toNat (frame : Frame) :
    frame.frame_len.toNat = FRAME_PREFIX_LEN + (encode_payload frame.body).length + FRAME_CRC_LEN := by
  have hpayload := length_encode_payload frame.body
  rw [frame_len, UInt32.toNat_ofNat', FRAME_PREFIX_LEN, FRAME_CRC_LEN]
  omega

theorem Frame.length_unsealed (frame : Frame) (frame_len : UInt32) :
    (frame.unsealed frame_len).length = FRAME_PREFIX_LEN + (encode_payload frame.body).length := by
  simp [unsealed, Word.width, FRAME_PREFIX_LEN]
  omega

theorem Frame.take_unsealed (frame : Frame) (frame_len : UInt32) (rest : List UInt8) :
    (frame.unsealed frame_len ++ rest).take 4 = to_le_bytes frame_len := by
  rw [unsealed, List.flatten_cons, List.append_assoc]
  exact List.take_left' (by simp [Word.width])

section Frames
variable {crc32 : List UInt8 → UInt32}

theorem Frame.encode_eq (frame : Frame) :
    frame.encode crc32 = frame.unsealed frame.frame_len ++ to_le_bytes (crc32 (frame.unsealed frame.frame_len)) := by
  have hpatched : to_le_bytes frame.frame_len ++ (frame.unsealed 0).drop 4 = frame.unsealed frame.frame_len := by
    rw [unsealed, List.flatten_cons, List.drop_left' (by simp [Word.width])]
    rfl
  rw [encode, length_unsealed]
  change (to_le_bytes frame.frame_len ++ (frame.unsealed 0).drop 4) ++
    to_le_bytes (crc32 (to_le_bytes frame.frame_len ++ (frame.unsealed 0).drop 4)) = _
  rw [hpatched]

variable (crc32) in
theorem Frame.length_encode (frame : Frame) :
    (frame.encode crc32).length = FRAME_PREFIX_LEN + (encode_payload frame.body).length + FRAME_CRC_LEN := by
  rw [encode_eq, List.length_append, length_unsealed, length_to_le_bytes]
  rfl

theorem Frame.frame_len_bounds (frame : Frame) :
    ¬(frame.frame_len < .ofNat (FRAME_PREFIX_LEN + FRAME_CRC_LEN) ∨ MAX_FRAME_LEN < frame.frame_len) := by
  have hpayload := length_encode_payload frame.body
  rw [UInt32.lt_iff_toNat_lt, UInt32.lt_iff_toNat_lt, frame_len_toNat]
  simp only [MAX_FRAME_LEN, FRAME_PREFIX_LEN, FRAME_CRC_LEN, UInt32.toNat_ofNat, UInt32.toNat_ofNat']
  omega

/-- A frame the wire can carry is read back, and just its bytes are consumed. -/
theorem Frame.decode_encode {frame : Frame} (h : frame.body.Encodable frame.instrument) (rest : List UInt8) :
    Frame.decode crc32 (frame.encode crc32 ++ rest) = .ok (frame, (frame.encode crc32).length) := by
  have hlength := length_encode crc32 frame
  have hword : (frame.encode crc32 ++ rest).take 4 = to_le_bytes frame.frame_len := by
    rw [encode_eq, List.append_assoc, take_unsealed]
  have htotal : frame.frame_len.toNat = (frame.encode crc32).length := by rw [frame_len_toNat, hlength]
  have hcrc : (frame.encode crc32).length - 4 = (frame.unsealed frame.frame_len).length := by
    rw [hlength, length_unsealed]
    rfl
  have hsealed : (frame.encode crc32).take ((frame.encode crc32).length - 4) = frame.unsealed frame.frame_len := by
    rw [hcrc, encode_eq, List.take_left]
  have hstored : (frame.encode crc32).drop ((frame.encode crc32).length - 4) =
      to_le_bytes (crc32 (frame.unsealed frame.frame_len)) := by
    rw [hcrc, encode_eq, List.drop_left]
  have hread := reads_frame h frame.frame_len [] 0
  rw [List.append_nil] at hread
  rw [decode, if_neg (by rw [List.length_append, hlength, FRAME_PREFIX_LEN]; omega), hword, from_to_le_bytes,
    if_neg frame.frame_len_bounds]
  simp only [htotal, FRAME_CRC_LEN]
  rw [if_neg (by simp), List.take_left, hstored, hsealed, from_to_le_bytes, if_neg (by simp), hread]
  simp

/-- A part of a frame is reported as such. -/
theorem Frame.decode_torn (frame : Frame) {n : Nat} (hn : n < (frame.encode crc32).length) :
    Frame.decode crc32 ((frame.encode crc32).take n) = .error { kind := .Truncated, offset := 0 } := by
  have hlength : ((frame.encode crc32).take n).length = n := by
    rw [List.length_take, Nat.min_eq_left hn.le]
  rw [decode, hlength]
  split
  · rfl
  · have hword : ((frame.encode crc32).take n).take 4 = to_le_bytes frame.frame_len := by
      rw [List.take_take, Nat.min_eq_left (by omega), encode_eq, take_unsealed]
    have htotal : frame.frame_len.toNat = (frame.encode crc32).length := by rw [frame_len_toNat, length_encode]
    simp only [hword, from_to_le_bytes]
    rw [if_neg frame.frame_len_bounds, htotal, if_pos hn]

/-- What is accepted is the encoding of a frame the wire can carry. -/
theorem Frame.encode_decode {bytes : List UInt8} {frame : Frame} {n : Nat}
    (h : Frame.decode crc32 bytes = .ok (frame, n)) :
    frame.encode crc32 = bytes.take n ∧ frame.body.Encodable frame.instrument := by
  rw [decode] at h
  split at h
  · cases h
  rename_i hshort
  dsimp only at h
  split at h
  · cases h
  rename_i hbounds
  split at h
  · cases h
  rename_i hlong
  split at h
  · cases h
  rename_i hcrc
  split at h
  · cases h
  rename_i read reader hread
  split at h
  · cases h
  rename_i hrest
  cases h
  obtain ⟨used, hused, -, hencodable, word, rfl⟩ := consumes_frame _ _ _ _ hread
  rw [not_not, List.length_eq_zero_iff] at hrest
  rw [hrest, List.append_nil] at hused
  rw [not_not] at hcrc
  refine ⟨?_, hencodable⟩
  -- the word in front is the one the frame has, as its value fixes the length of the payload
  generalize hlen : (from_le_bytes (bytes.take 4) : UInt32) = len at hbounds hlong hcrc hused ⊢
  have hlow : FRAME_PREFIX_LEN + FRAME_CRC_LEN ≤ len.toNat := by
    rw [not_or, UInt32.not_lt, UInt32.le_iff_toNat_le] at hbounds
    exact hbounds.1
  rw [FRAME_PREFIX_LEN, FRAME_CRC_LEN] at hlow
  rw [FRAME_CRC_LEN] at hused
  have hword : word = len := by
    have htake := congrArg (List.take 4) hused
    rw [List.take_take, List.take_take, Nat.min_eq_left (by omega), ← List.append_nil (frame.unsealed word),
      take_unsealed] at htake
    rw [← hlen, show bytes.take 4 = to_le_bytes word by rw [← htake]; congr 1; omega, from_to_le_bytes]
  have hframe_len : len = frame.frame_len := by
    have hlength := congrArg List.length hused
    rw [length_unsealed, List.length_take, List.length_take] at hlength
    rw [← UInt32.toNat_inj, frame_len_toNat, FRAME_CRC_LEN]
    omega
  have hdrop : ((bytes.take len.toNat).drop (len.toNat - 4)).length = Word.width UInt32 := by
    rw [List.length_drop, List.length_take]
    change _ = 4
    omega
  rw [encode_eq, ← hframe_len, ← hword, ← hused, ← hcrc, hword, to_from_le_bytes hdrop, List.take_append_drop]

theorem FrameBody.encodable_iff {instrument : InstrumentId} {body : FrameBody} :
    body.Encodable instrument ↔
      (∀ aggressor price, body ≠ .MarketTrade aggressor price 0) ∧
      (∀ request, body = .OrderRequest request → request.instrument = instrument) := by
  cases body <;> simp [Encodable]

/-- The frames the decoder gives back, that it accepts nothing but encodings, and that it
reports every part of one. -/
theorem frame_round_trip (crc32 : List UInt8 → UInt32) :
    (∀ (frame : Frame) (rest : List UInt8),
      Frame.decode crc32 (frame.encode crc32 ++ rest) = .ok (frame, (frame.encode crc32).length) ↔
        (∀ aggressor price, frame.body ≠ .MarketTrade aggressor price 0) ∧
        (∀ request, frame.body = .OrderRequest request → request.instrument = frame.instrument)) ∧
    (∀ bytes frame n, Frame.decode crc32 bytes = .ok (frame, n) → frame.encode crc32 = bytes.take n) ∧
    (∀ (frame : Frame) (part : List UInt8), part <+: frame.encode crc32 → part ≠ frame.encode crc32 →
      Frame.decode crc32 part = .error { kind := .Truncated, offset := 0 }) := by
  refine ⟨fun frame rest => ?_, fun bytes frame n h => (Frame.encode_decode h).1, fun frame part hpart hne => ?_⟩
  · rw [← FrameBody.encodable_iff]
    exact ⟨fun h => (Frame.encode_decode h).2, fun h => Frame.decode_encode h rest⟩
  · rw [List.prefix_iff_eq_take.1 hpart]
    refine Frame.decode_torn frame (lt_of_le_of_ne hpart.length_le fun hlength => hne ?_)
    exact hpart.eq_of_length hlength

/-- A heartbeat, with a byte of the next frame behind it. -/
theorem frame_round_trip_small :
    Frame.decode (fun _ => 7) (Frame.encode (fun _ => 7) ⟨3, 5, 6, 1, .Heartbeat⟩ ++ [44]) =
      .ok (⟨3, 5, 6, 1, .Heartbeat⟩, 40) :=
  ((frame_round_trip fun _ => 7).1 ⟨3, 5, 6, 1, .Heartbeat⟩ [44]).2 ⟨by simp, by simp⟩

end Frames

end TradingLab
