import TradingLab.Lib.Bytes
import TradingLab.Protocol
/-!
# Bytes on the wire

The wire values of the enums and the cursor of `read.rs`, and the two questions to a
decoder: does it read back what was written, whatever follows (`Reads`), and is what
it accepts nothing but what would be written (`Consumes`)?
-/
open LabLib

namespace TradingLab

/-! ## Wire values -/

def OrderState.wire : OrderState → UInt8
  | Working => 1
  | PartiallyFilled => 2
  | Filled => 3
  | Cancelled => 4

def ReportKind.wire : ReportKind → UInt8
  | Accepted => 1
  | Rejected => 2
  | PartiallyFilled => 3
  | Filled => 4
  | Cancelled => 5
  | Replaced => 6

def FeedState.wire : FeedState → UInt8
  | Unsynchronized => 1
  | ApplyingSnapshot => 2
  | Live => 3
  | Gap => 4

def RejectReason.wire : RejectReason → UInt8
  | MalformedRequest => 1
  | UnknownInstrument => 2
  | UnknownAccount => 3
  | UnknownOrder => 4
  | InvalidSide => 5
  | InvalidOrderType => 6
  | InvalidPrice => 7
  | InvalidQuantity => 8
  | PriceNotAligned => 9
  | QuantityNotAligned => 10
  | DuplicateRequestConflict => 11
  | SequenceTooOld => 12
  | SequenceOutOfOrder => 13
  | DuplicateClientOrderId => 14
  | AccountDisabled => 15
  | GlobalKillActive => 16
  | MarketDataUnsynchronized => 17
  | MarketDataStale => 18
  | MaxOrderQuantity => 19
  | MaxOrderNotional => 20
  | PriceCollar => 21
  | MaxPosition => 22
  | MaxGrossExposure => 23
  | CapacityExhausted => 24
  | ArithmeticOverflow => 25
  | OrderAlreadyTerminal => 26
  | InvalidReplaceQuantity => 27
  | NoReferencePrice => 28

def RejectReason.ALL : List RejectReason :=
  [.MalformedRequest, .UnknownInstrument, .UnknownAccount, .UnknownOrder, .InvalidSide, .InvalidOrderType, .InvalidPrice,
    .InvalidQuantity, .PriceNotAligned, .QuantityNotAligned, .DuplicateRequestConflict, .SequenceTooOld, .SequenceOutOfOrder,
    .DuplicateClientOrderId, .AccountDisabled, .GlobalKillActive, .MarketDataUnsynchronized, .MarketDataStale,
    .MaxOrderQuantity, .MaxOrderNotional, .PriceCollar, .MaxPosition, .MaxGrossExposure, .CapacityExhausted,
    .ArithmeticOverflow, .OrderAlreadyTerminal, .InvalidReplaceQuantity, .NoReferencePrice]

def Side.from_wire : UInt8 → Option Side
  | 1 => some .Buy
  | 2 => some .Sell
  | _ => none

def OrderType.from_wire : UInt8 → Option OrderType
  | 1 => some .Limit
  | 2 => some .Market
  | _ => none

def RequestKind.from_wire : UInt8 → Option RequestKind
  | 1 => some .New
  | 2 => some .Cancel
  | 3 => some .Replace
  | _ => none

/-- `u8::from`. -/
def flag (b : Bool) : UInt8 := if b then 1 else 0

/-! ## Reading -/

inductive DecodeErrorKind where
  | Truncated
  | BadMagic
  | UnsupportedVersion
  | BadEndian
  | FrameLength
  | UnknownMessageType
  | ReservedFlags
  | PayloadLength
  | Checksum
  | InvalidField
  | InstrumentTable
deriving DecidableEq, Repr

/-- The byte offset says where to stop. -/
structure DecodeError where
  kind : DecodeErrorKind
  offset : Nat
  source_seq : Option UInt64 := none
deriving DecidableEq, Repr

/-- The bytes that are left, and the number of those read. -/
structure Reader where
  bytes : List UInt8
  offset : Nat

abbrev Decode := StateT Reader (Except DecodeError)

namespace Reader

def take (len : Nat) : Decode (List UInt8) := fun reader =>
  if reader.bytes.length < len then .error { kind := .Truncated, offset := reader.offset }
  else .ok (reader.bytes.take len, ⟨reader.bytes.drop len, reader.offset + len⟩)

def word (α : Type) [Word α] : Decode α := do
  let bytes ← take (Word.width α)
  return from_le_bytes bytes

def u8 : Decode UInt8 := word UInt8
def u16 : Decode UInt16 := word UInt16
def u32 : Decode UInt32 := word UInt32
def u64 : Decode UInt64 := word UInt64
def i64 : Decode Int64 := word Int64
def u128 : Decode U128 := word U128

def invalid_field {α : Type} : Decode α := fun reader => .error { kind := .InvalidField, offset := reader.offset }

end Reader

open Reader

def read_side : Decode Side := do
  match Side.from_wire (← u8) with
  | some side => return side
  | none => invalid_field

def read_order_type : Decode OrderType := do
  match OrderType.from_wire (← u8) with
  | some order_type => return order_type
  | none => invalid_field

def read_request_kind : Decode RequestKind := do
  match RequestKind.from_wire (← u8) with
  | some kind => return kind
  | none => invalid_field

def read_report_kind : Decode ReportKind := do
  match ← u8 with
  | 1 => return .Accepted
  | 2 => return .Rejected
  | 3 => return .PartiallyFilled
  | 4 => return .Filled
  | 5 => return .Cancelled
  | 6 => return .Replaced
  | _ => invalid_field

def read_order_state : Decode OrderState := do
  match ← u8 with
  | 1 => return .Working
  | 2 => return .PartiallyFilled
  | 3 => return .Filled
  | 4 => return .Cancelled
  | _ => invalid_field

def read_feed_state : Decode FeedState := do
  match ← u8 with
  | 1 => return .Unsynchronized
  | 2 => return .ApplyingSnapshot
  | 3 => return .Live
  | 4 => return .Gap
  | _ => invalid_field

def read_reject : Decode (Option RejectReason) := do
  let value ← u8
  if value = 0 then return none
  match RejectReason.ALL.find? fun reason => reason.wire = value with
  | some reason => return some reason
  | none => invalid_field

def read_flag : Decode Bool := do
  match ← u8 with
  | 0 => return false
  | 1 => return true
  | _ => invalid_field

/-! ## What is written is read back -/

section Reads
variable {α β : Type} {decode : Decode α} {bytes bytes' : List UInt8} {a : α} {b : β}

/-- The bytes are read as the value, whatever follows them. -/
def Reads (decode : Decode α) (bytes : List UInt8) (a : α) : Prop :=
  ∀ rest offset, decode ⟨bytes ++ rest, offset⟩ = .ok (a, ⟨rest, offset + bytes.length⟩)

theorem Reads.bind {next : α → Decode β} (h : Reads decode bytes a) (h' : Reads (next a) bytes' b) :
    Reads (decode >>= next) (bytes ++ bytes') b := by
  intro rest offset
  have hfirst := h (bytes' ++ rest) offset
  have hnext := h' rest (offset + bytes.length)
  rw [List.append_assoc, List.length_append, ← Nat.add_assoc]
  change (decode _ >>= fun x => next x.1 x.2) = _
  rw [hfirst]
  exact hnext

theorem Reads.done (a : α) : Reads (pure a) [] a := fun _ _ => rfl

/-- The value becomes a part of another one. -/
theorem Reads.map (h : Reads decode bytes a) (f : α → β) : Reads (decode >>= fun x => pure (f x)) bytes (f a) := by
  have hdone : Reads (pure (f a)) [] (f a) := .done (f a)
  have hbind : Reads (decode >>= fun x => pure (f x)) (bytes ++ []) (f a) := h.bind hdone
  rwa [List.append_nil] at hbind

/-- What is read back can be told from whatever follows. -/
theorem Reads.delimited {encode : α → List UInt8} (h : ∀ a, Reads decode (encode a) a) : Delimited encode := by
  intro a a' rest rest' heq
  have hread := h a rest 0
  rw [heq, h a' rest' 0] at hread
  cases hread
  exact ⟨rfl, rfl⟩

theorem reads_word [Word α] (a : α) : Reads (word α) (to_le_bytes a) a := by
  intro rest offset
  have htake : take (Word.width α) ⟨to_le_bytes a ++ rest, offset⟩ =
      .ok (to_le_bytes a, ⟨rest, offset + (to_le_bytes a).length⟩) := by
    have hlen := length_to_le_bytes a
    rw [take, if_neg (by simp), List.take_left' hlen, List.drop_left' hlen, hlen]
  change (take (Word.width α) _ >>= fun x => .ok (from_le_bytes x.1, x.2)) = _
  rw [htake]
  change Except.ok (from_le_bytes (to_le_bytes a), _) = _
  rw [from_to_le_bytes]

theorem to_le_bytes_u8 (byte : UInt8) : to_le_bytes byte = [byte] := by
  simp [to_le_bytes, leBytes, Word.width, Word.toNat]

theorem reads_u8 (byte : UInt8) : Reads u8 [byte] byte := by
  have h := reads_word byte
  rwa [to_le_bytes_u8] at h

/-- A byte that is checked after it is read. -/
theorem Reads.byte {next : UInt8 → Decode α} {byte : UInt8} (h : next byte = pure a) : Reads (u8 >>= next) [byte] a := by
  have hread : Reads (next byte) [] a := h ▸ .done a
  exact (reads_u8 byte).bind hread

theorem reads_side (side : Side) : Reads read_side [side.wire] side := .byte (by cases side <;> rfl)

theorem reads_order_type (order_type : OrderType) : Reads read_order_type [order_type.wire] order_type :=
  .byte (by cases order_type <;> rfl)

theorem reads_request_kind (kind : RequestKind) : Reads read_request_kind [kind.wire] kind := .byte (by cases kind <;> rfl)

theorem reads_report_kind (kind : ReportKind) : Reads read_report_kind [kind.wire] kind := .byte (by cases kind <;> rfl)

theorem reads_order_state (state : OrderState) : Reads read_order_state [state.wire] state := .byte (by cases state <;> rfl)

theorem reads_feed_state (state : FeedState) : Reads read_feed_state [state.wire] state := .byte (by cases state <;> rfl)

theorem reads_reject (reason : Option RejectReason) :
    Reads read_reject [reason.elim 0 RejectReason.wire] reason := by
  refine .byte ?_
  cases reason with
  | none => rfl
  | some reason => cases reason <;> rfl

theorem reads_flag (b : Bool) : Reads read_flag [flag b] b := .byte (by cases b <;> rfl)

/-- Different values have different wire values. -/
theorem wire_injective {wire : α → UInt8} (h : ∀ a, Reads decode [wire a] a) : Function.Injective wire :=
  fun a a' heq => (Reads.delimited h a a' [] [] (by rw [heq])).1

@[simp] theorem Side.wire_inj {a b : Side} : a.wire = b.wire ↔ a = b := (wire_injective reads_side).eq_iff

@[simp] theorem OrderType.wire_inj {a b : OrderType} : a.wire = b.wire ↔ a = b := (wire_injective reads_order_type).eq_iff

@[simp] theorem RequestKind.wire_inj {a b : RequestKind} : a.wire = b.wire ↔ a = b :=
  (wire_injective reads_request_kind).eq_iff

@[simp] theorem flag_inj {a b : Bool} : flag a = flag b ↔ a = b := (wire_injective reads_flag).eq_iff

end Reads

/-! ## What is accepted was written -/

section Consumes
variable {α β : Type} {decode : Decode α} {P : α → List UInt8 → Prop} {Q : β → List UInt8 → Prop}

/-- What is accepted and the bytes it took are as `P` says. -/
def Consumes (decode : Decode α) (P : α → List UInt8 → Prop) : Prop :=
  ∀ bytes offset a reader, decode ⟨bytes, offset⟩ = .ok (a, reader) →
    ∃ used, bytes = used ++ reader.bytes ∧ reader.offset = offset + used.length ∧ P a used

theorem Consumes.bind {next : α → Decode β} (h : Consumes decode P)
    (h' : ∀ a used, P a used → Consumes (next a) fun b more => Q b (used ++ more)) : Consumes (decode >>= next) Q := by
  intro bytes offset b reader hread
  change (decode _ >>= fun x => next x.1 x.2) = _ at hread
  cases hfirst : decode ⟨bytes, offset⟩ with
  | error e =>
    rw [hfirst] at hread
    cases hread
  | ok x =>
    obtain ⟨a, middle⟩ := x
    rw [hfirst] at hread
    obtain ⟨used, hbytes, hoffset, hP⟩ := h bytes offset a middle hfirst
    obtain ⟨more, hmore, hoffset', hQ⟩ := h' a used hP middle.bytes middle.offset b reader hread
    refine ⟨used ++ more, ?_, ?_, hQ⟩
    · rw [hbytes, hmore, List.append_assoc]
    · rw [hoffset', hoffset, List.length_append, Nat.add_assoc]

theorem Consumes.done {b : β} (h : Q b []) : Consumes (pure b) Q := by
  intro bytes offset b' reader hread
  cases hread
  exact ⟨[], rfl, rfl, h⟩

theorem Consumes.fail : Consumes invalid_field Q := by
  intro bytes offset b reader hread
  cases hread

theorem consumes_take (len : Nat) : Consumes (take len) fun bytes used => used = bytes ∧ used.length = len := by
  intro bytes offset a reader hread
  rw [take] at hread
  split at hread
  · cases hread
  · rename_i hlen
    dsimp only at hlen
    cases hread
    have hused : (bytes.take len).length = len := List.length_take_of_le (by omega)
    exact ⟨bytes.take len, (List.take_append_drop len bytes).symm, by rw [hused], rfl, hused⟩

/-- A number, and then the rest. -/
theorem Consumes.word [Word α] {next : α → Decode β}
    (h : ∀ a, Consumes (next a) fun b more => Q b (to_le_bytes a ++ more)) : Consumes (word α >>= next) Q := by
  refine Consumes.bind (P := fun a used => used = to_le_bytes a) ?_ fun a used hused => hused ▸ h a
  refine (consumes_take _).bind fun bytes used hused => .done ?_
  rw [List.append_nil, hused.1, to_from_le_bytes (hused.1 ▸ hused.2)]

theorem Consumes.byte {next : UInt8 → Decode β} (h : ∀ byte, Consumes (next byte) fun b more => Q b (byte :: more)) :
    Consumes (u8 >>= next) Q := by
  refine Consumes.word fun byte => ?_
  rw [to_le_bytes_u8]
  exact h byte

/-- The wire value of an enum, and then the rest. -/
theorem Consumes.wire {wire : α → UInt8} {next : α → Decode β} (h : Consumes decode fun a used => used = [wire a])
    (h' : ∀ a, Consumes (next a) fun b more => Q b (wire a :: more)) : Consumes (decode >>= next) Q :=
  h.bind fun a _ hused => hused ▸ h' a

theorem consumes_side : Consumes read_side fun side used => used = [side.wire] := by
  refine Consumes.byte fun byte => ?_
  cases hside : Side.from_wire byte with
  | none => exact .fail
  | some side =>
    refine .done ?_
    unfold Side.from_wire at hside
    split at hside <;> cases hside <;> rfl

theorem consumes_order_type : Consumes read_order_type fun order_type used => used = [order_type.wire] := by
  refine Consumes.byte fun byte => ?_
  cases htype : OrderType.from_wire byte with
  | none => exact .fail
  | some order_type =>
    refine .done ?_
    unfold OrderType.from_wire at htype
    split at htype <;> cases htype <;> rfl

theorem consumes_request_kind : Consumes read_request_kind fun kind used => used = [kind.wire] := by
  refine Consumes.byte fun byte => ?_
  cases hkind : RequestKind.from_wire byte with
  | none => exact .fail
  | some kind =>
    refine .done ?_
    unfold RequestKind.from_wire at hkind
    split at hkind <;> cases hkind <;> rfl

theorem consumes_report_kind : Consumes read_report_kind fun kind used => used = [kind.wire] := by
  refine Consumes.byte fun byte => ?_
  split <;> first | exact .fail | exact .done rfl

theorem consumes_order_state : Consumes read_order_state fun state used => used = [state.wire] := by
  refine Consumes.byte fun byte => ?_
  split <;> first | exact .fail | exact .done rfl

theorem consumes_feed_state : Consumes read_feed_state fun state used => used = [state.wire] := by
  refine Consumes.byte fun byte => ?_
  split <;> first | exact .fail | exact .done rfl

theorem consumes_flag : Consumes read_flag fun b used => used = [flag b] := by
  refine Consumes.byte fun byte => ?_
  split <;> first | exact .fail | exact .done rfl

theorem consumes_reject : Consumes read_reject fun reason used => used = [reason.elim 0 RejectReason.wire] := by
  refine Consumes.byte fun byte => ?_
  split
  · rename_i hzero
    exact .done (by rw [hzero]; rfl)
  · split
    · rename_i reason hreason
      have hwire : reason.wire = byte := by simpa using List.find?_some hreason
      exact .done (by rw [← hwire]; rfl)
    · exact .fail

end Consumes

end TradingLab
