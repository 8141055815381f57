import TradingLab.Codec
/-!
# The file header

`codec.rs`: the header in front of the frames, with the table of the instruments.
-/
open LabLib

namespace TradingLab

def FileHeader.MAGIC : List UInt8 := [0x52, 0x4c, 0x54, 0x4c]
def FORMAT_MAJOR : UInt16 := 1
def FORMAT_MINOR : UInt16 := 0
/-- Reading this as little-endian proves the writer used little-endian. -/
def ENDIAN_MARKER : UInt16 := 0x1234
def MAX_INSTRUMENTS : UInt16 := 256
def INSTRUMENT_LEN : Nat := 30

structure InstrumentSpec where
  id : InstrumentId
  /-- ASCII, right padded with zero bytes. -/
  symbol : Vector UInt8 8
  tick_size : Int64
  lot_size : UInt64
  price_scale : UInt8
  quantity_scale : UInt8
deriving DecidableEq

structure FileHeader where
  run_id : U128
  seed : UInt64
  start_wall_time_ns : UInt64
  instruments : List InstrumentSpec
deriving DecidableEq

/-! ## Encoding -/

def InstrumentSpec.encode (instrument : InstrumentSpec) : List UInt8 :=
  [to_le_bytes instrument.id, instrument.symbol.toList, to_le_bytes instrument.tick_size,
    to_le_bytes instrument.lot_size, [instrument.price_scale], [instrument.quantity_scale]].flatten

def FileHeader.header_len (header : FileHeader) : Nat := 46 + header.instruments.length * INSTRUMENT_LEN + 4

/-- All but the checksum. -/
def FileHeader.unsealed (header : FileHeader) : List UInt8 :=
  [MAGIC, to_le_bytes FORMAT_MAJOR, to_le_bytes FORMAT_MINOR, to_le_bytes ENDIAN_MARKER,
    to_le_bytes (UInt16.ofNat header.header_len), to_le_bytes header.run_id, to_le_bytes header.seed,
    to_le_bytes header.start_wall_time_ns, to_le_bytes (UInt16.ofNat header.instruments.length),
    header.instruments.flatMap InstrumentSpec.encode].flatten

section Headers
variable (crc32 : List UInt8 → UInt32)

def FileHeader.encode (header : FileHeader) : List UInt8 :=
  header.unsealed ++ to_le_bytes (crc32 header.unsealed)

/-! ## Decoding -/

def Reader.array (len : Nat) : Decode (Vector UInt8 len) := fun reader =>
  if h : len ≤ reader.bytes.length then
    .ok (⟨(reader.bytes.take len).toArray, by simpa using h⟩, ⟨reader.bytes.drop len, reader.offset + len⟩)
  else .error { kind := .Truncated, offset := reader.offset }

/-- A check that reports where the reader is. -/
def Reader.require_here (ok : Bool) (kind : DecodeErrorKind) : Decode Unit := fun reader =>
  if ok then .ok ((), reader) else .error { kind := kind, offset := reader.offset }

def read_instrument (instruments : List InstrumentSpec) : Decode InstrumentSpec := do
  let id ← Reader.u32
  let symbol ← Reader.array 8
  let tick_size ← Reader.i64
  let lot_size ← Reader.u64
  let price_scale ← Reader.u8
  let quantity_scale ← Reader.u8
  Reader.require_here (¬(tick_size ≤ 0 ∨ lot_size = 0)) .InstrumentTable
  Reader.require_here (¬instruments.any fun existing => existing.id = id) .InstrumentTable
  return {
    id := id
    symbol := symbol
    tick_size := tick_size
    lot_size := lot_size
    price_scale := price_scale
    quantity_scale := quantity_scale }

def read_instruments : Nat → List InstrumentSpec → Decode (List InstrumentSpec)
  | 0, instruments => return instruments
  | count + 1, instruments => do
    let instrument ← read_instrument instruments
    read_instruments count (instruments ++ [instrument])

/-- The reader goes over `bytes`; their number and the checksum are taken from them. -/
def read_header (bytes : List UInt8) : Decode (FileHeader × Nat) := do
  Reader.require ((← Reader.take 4) = FileHeader.MAGIC) .BadMagic 0
  let major ← Reader.u16
  let minor ← Reader.u16
  Reader.require (¬(major ≠ FORMAT_MAJOR ∨ FORMAT_MINOR < minor)) .UnsupportedVersion 4
  Reader.require ((← Reader.u16) = ENDIAN_MARKER) .BadEndian 8
  let header_len := (← Reader.u16).toNat
  Reader.require (¬(header_len < 50 ∨ bytes.length < header_len)) .Truncated 10
  let run_id ← Reader.u128
  let seed ← Reader.u64
  let start_wall_time_ns ← Reader.u64
  let instrument_count ← Reader.u16
  Reader.require (¬MAX_INSTRUMENTS < instrument_count) .InstrumentTable 44
  Reader.require (header_len = 46 + instrument_count.toNat * INSTRUMENT_LEN + 4) .InstrumentTable 10
  let instruments ← read_instruments instrument_count.toNat []
  let expected := crc32 (bytes.take (header_len - 4))
  Reader.require ((← Reader.u32) = expected) .Checksum (header_len - 4)
  return ({
    run_id := run_id
    seed := seed
    start_wall_time_ns := start_wall_time_ns
    instruments := instruments }, header_len)

def FileHeader.decode (bytes : List UInt8) : Except DecodeError (FileHeader × Nat) :=
  (read_header crc32 bytes ⟨bytes, 0⟩).map Prod.fst

end Headers

/-! ## What is written is read back -/

/-- The instruments a header can list: their ids differ, and each has a tick and a lot. -/
structure FileHeader.Valid (header : FileHeader) : Prop where
  count : header.instruments.length ≤ 256
  ids : (header.instruments.map InstrumentSpec.id).Nodup
  tick_size : ∀ instrument ∈ header.instruments, 0 < instrument.tick_size
  lot_size : ∀ instrument ∈ header.instruments, instrument.lot_size ≠ 0

theorem Reader.reads_array {len : Nat} (v : Vector UInt8 len) : Reads (Reader.array len) v.toList v := by
  intro rest offset
  have hlength : v.toList.length = len := by simp
  have harray : v.toList.toArray = v.toArray := by rw [← Vector.toArray_toList]
  rw [Reader.array, dif_pos (by rw [List.length_append, hlength]; omega)]
  simp [List.take_left' hlength, List.drop_left' hlength, harray]

theorem Reader.reads_require_here {ok : Bool} {kind : DecodeErrorKind} (h : ok = true) :
    Reads (Reader.require_here ok kind) [] () := by
  subst h
  exact fun _ _ => rfl

theorem reads_instrument {instruments : List InstrumentSpec} {instrument : InstrumentSpec}
    (htick : 0 < instrument.tick_size) (hlot : instrument.lot_size ≠ 0)
    (hnew : ∀ existing ∈ instruments, existing.id ≠ instrument.id) :
    Reads (read_instrument instruments) instrument.encode instrument := by
  rw [InstrumentSpec.encode]
  exact (reads_word _).bind <| (Reader.reads_array _).bind <| (reads_word _).bind <| (reads_word _).bind <|
    (reads_u8 _).bind <| (reads_u8 _).bind <| (Reader.reads_require_here (by simp [hlot, htick])).bind <|
    (Reader.reads_require_here (by simpa using hnew)).bind <| .done _

/-- The table is read behind the instruments that are already there. -/
theorem reads_instruments {instruments rest : List InstrumentSpec}
    (hids : ((instruments ++ rest).map InstrumentSpec.id).Nodup) (htick : ∀ instrument ∈ rest, 0 < instrument.tick_size)
    (hlot : ∀ instrument ∈ rest, instrument.lot_size ≠ 0) :
    Reads (read_instruments rest.length instruments) (rest.flatMap InstrumentSpec.encode) (instruments ++ rest) := by
  induction rest generalizing instruments with
  | nil =>
    rw [List.append_nil]
    exact .done _
  | cons instrument rest ih =>
    rw [List.forall_mem_cons] at htick hlot
    have hnew : ∀ existing ∈ instruments, existing.id ≠ instrument.id := by
      intro existing hexisting heq
      rw [List.map_append, List.nodup_append] at hids
      exact hids.2.2 existing.id (List.mem_map_of_mem hexisting) instrument.id (by simp) heq
    have hids' : ((instruments ++ [instrument] ++ rest).map InstrumentSpec.id).Nodup := by rwa [List.append_assoc]
    have hrest := ih hids' htick.2 hlot.2
    rw [List.append_assoc] at hrest
    exact (reads_instrument htick.1 hlot.1 hnew).bind hrest

theorem InstrumentSpec.length_encode (instrument : InstrumentSpec) : instrument.encode.length = INSTRUMENT_LEN := by
  simp [encode, Word.width, INSTRUMENT_LEN]

theorem FileHeader.length_unsealed (header : FileHeader) : header.unsealed.length + 4 = header.header_len := by
  have htable : (header.instruments.flatMap InstrumentSpec.encode).length = header.instruments.length * INSTRUMENT_LEN := by
    rw [List.length_flatMap, List.map_congr_left fun instrument _ => instrument.length_encode, List.map_const', List.sum_replicate,
      smul_eq_mul]
  simp [unsealed, MAGIC, Word.width, htable, header_len]
  omega

section Headers
variable {crc32 : List UInt8 → UInt32}

variable (crc32) in
theorem FileHeader.length_encode (header : FileHeader) : (header.encode crc32).length = header.header_len := by
  rw [encode, List.length_append, length_to_le_bytes, ← length_unsealed]
  rfl

theorem reads_header {header : FileHeader} (h : header.Valid) {bytes : List UInt8}
    (hlong : header.header_len ≤ bytes.length) (hbytes : bytes.take (header.header_len - 4) = header.unsealed) :
    Reads (read_header crc32 bytes) (header.encode crc32) (header, header.header_len) := by
  have hcount : (UInt16.ofNat header.instruments.length).toNat = header.instruments.length := by
    have := h.count
    rw [UInt16.toNat_ofNat']
    omega
  have hlen : (UInt16.ofNat header.header_len).toNat = header.header_len := by
    have := h.count
    rw [UInt16.toNat_ofNat', FileHeader.header_len, INSTRUMENT_LEN]
    omega
  have hmagic : Reads (Reader.take 4) FileHeader.MAGIC FileHeader.MAGIC := fun _ _ => rfl
  have htable : Reads (read_instruments (UInt16.ofNat header.instruments.length).toNat [])
      (header.instruments.flatMap InstrumentSpec.encode) header.instruments := by
    rw [hcount]
    exact reads_instruments h.ids h.tick_size h.lot_size
  have hlimit : decide ¬MAX_INSTRUMENTS < UInt16.ofNat header.instruments.length = true := by
    have := h.count
    rw [decide_eq_true_eq, UInt16.lt_iff_toNat_lt, hcount, MAX_INSTRUMENTS]
    simpa using this
  have hroom : 50 ≤ header.header_len := by
    rw [FileHeader.header_len]
    omega
  have hencode : header.encode crc32 =
      FileHeader.MAGIC ++ (to_le_bytes FORMAT_MAJOR ++ (to_le_bytes FORMAT_MINOR ++ (to_le_bytes ENDIAN_MARKER ++
        (to_le_bytes (UInt16.ofNat header.header_len) ++ (to_le_bytes header.run_id ++ (to_le_bytes header.seed ++
          (to_le_bytes header.start_wall_time_ns ++ (to_le_bytes (UInt16.ofNat header.instruments.length) ++
            (header.instruments.flatMap InstrumentSpec.encode ++ (to_le_bytes (crc32 header.unsealed) ++ [])))))))))) := by
    simp [FileHeader.encode, FileHeader.unsealed]
  have hread : Reads (read_header crc32 bytes) (header.encode crc32) (header, (UInt16.ofNat header.header_len).toNat) := by
    rw [hencode]
    exact hmagic.bind <| (Reader.reads_require rfl).bind <| (reads_word _).bind <| (reads_word _).bind <|
      (Reader.reads_require rfl).bind <| (reads_word _).bind <| (Reader.reads_require rfl).bind <| (reads_word _).bind <|
      (Reader.reads_require (by simpa [hlen] using ⟨hroom, hlong⟩)).bind <| (reads_word _).bind <| (reads_word _).bind <|
      (reads_word _).bind <| (reads_word _).bind <| (Reader.reads_require hlimit).bind <|
      (Reader.reads_require (by rw [hlen, hcount]; exact decide_eq_true rfl)).bind <| htable.bind <|
      (reads_word _).bind <| (Reader.reads_require (by simp [hlen, hbytes])).bind <| .done _
  rwa [hlen] at hread

/-- A header is found in front of whatever follows it. -/
theorem FileHeader.decode_encode {header : FileHeader} (h : header.Valid) (rest : List UInt8) :
    FileHeader.decode crc32 (header.encode crc32 ++ rest) = .ok (header, (header.encode crc32).length) := by
  have hlength := length_encode crc32 header
  have hunsealed := header.length_unsealed
  have hlong : header.header_len ≤ (header.encode crc32 ++ rest).length := by
    rw [List.length_append]
    omega
  have hbytes : (header.encode crc32 ++ rest).take (header.header_len - 4) = header.unsealed := by
    rw [encode, List.append_assoc]
    exact List.take_left' (by omega)
  rw [decode, reads_header h hlong hbytes rest 0, hlength]
  rfl

end Headers

/-! ## What is read was written -/

theorem Reader.consumes_array (len : Nat) : Consumes (Reader.array len) fun v used => used = v.toList := by
  intro bytes offset v reader hread
  rw [Reader.array] at hread
  split at hread
  · rename_i hlen
    cases hread
    refine ⟨bytes.take len, (List.take_append_drop len bytes).symm, ?_, rfl⟩
    rw [List.length_take_of_le hlen]
  · cases hread

theorem Reader.consumes_require_here (ok : Bool) (kind : DecodeErrorKind) :
    Consumes (Reader.require_here ok kind) fun _ used => used = [] ∧ ok = true := by
  intro bytes offset done reader hread
  rw [Reader.require_here] at hread
  split at hread
  · rename_i hok
    cases hread
    exact ⟨[], rfl, rfl, rfl, hok⟩
  · cases hread

theorem consumes_instrument (instruments : List InstrumentSpec) :
    Consumes (read_instrument instruments) fun instrument used => used = instrument.encode ∧
      0 < instrument.tick_size ∧ instrument.lot_size ≠ 0 ∧ ∀ existing ∈ instruments, existing.id ≠ instrument.id := by
  refine .word fun id => (Reader.consumes_array 8).bind ?_
  rintro symbol - rfl
  refine .word fun tick_size => .word fun lot_size => .byte fun price_scale => .byte fun quantity_scale => ?_
  refine (Reader.consumes_require_here _ _).bind ?_
  rintro - - ⟨rfl, hsizes⟩
  refine (Reader.consumes_require_here _ _).bind ?_
  rintro - - ⟨rfl, hnew⟩
  refine .done ⟨by simp [InstrumentSpec.encode], ?_⟩
  simp at hsizes hnew
  exact ⟨hsizes.1, hsizes.2, hnew⟩

/-- The table that is read continues the one that is there. -/
theorem consumes_instruments (count : Nat) {instruments : List InstrumentSpec}
    (hids : (instruments.map InstrumentSpec.id).Nodup) :
    Consumes (read_instruments count instruments) fun table used => ∃ rest, table = instruments ++ rest ∧
      rest.length = count ∧ used = rest.flatMap InstrumentSpec.encode ∧ (table.map InstrumentSpec.id).Nodup ∧
      (∀ instrument ∈ rest, 0 < instrument.tick_size) ∧ ∀ instrument ∈ rest, instrument.lot_size ≠ 0 := by
  induction count generalizing instruments with
  | zero => exact .done ⟨[], by simp, rfl, rfl, hids, by simp, by simp⟩
  | succ count ih =>
    refine (consumes_instrument instruments).bind ?_
    rintro instrument - ⟨rfl, htick, hlot, hnew⟩
    have hids' : ((instruments ++ [instrument]).map InstrumentSpec.id).Nodup := by
      rw [List.map_append, List.nodup_append]
      refine ⟨hids, by simp, ?_⟩
      intro id hid id' hid'
      obtain ⟨existing, hexisting, rfl⟩ := List.mem_map.1 hid
      simp only [List.map_cons, List.map_nil, List.mem_singleton] at hid'
      rw [hid']
      exact hnew existing hexisting
    intro bytes offset table reader hread
    obtain ⟨used, hbytes, hoffset, rest, rfl, hcount, rfl, hnodup, hticks, hlots⟩ := ih hids' bytes offset table reader hread
    refine ⟨_, hbytes, hoffset, instrument :: rest, by simp, by simp [hcount], by simp, hnodup, ?_, ?_⟩
    · exact List.forall_mem_cons.2 ⟨htick, hticks⟩
    · exact List.forall_mem_cons.2 ⟨hlot, hlots⟩

section Headers
variable {crc32 : List UInt8 → UInt32}

theorem consumes_header (bytes : List UInt8) :
    Consumes (read_header crc32 bytes) fun x used => x.1.Valid ∧ x.2 = x.1.header_len ∧
      used = x.1.unsealed ++ to_le_bytes (crc32 (bytes.take (x.1.header_len - 4))) := by
  refine (consumes_take 4).bind ?_
  rintro magic - ⟨rfl, -⟩
  refine (Reader.consumes_require _ _ _).bind ?_
  rintro - - ⟨rfl, hmagic⟩
  refine .word fun major => .word fun minor => (Reader.consumes_require _ _ _).bind ?_
  rintro - - ⟨rfl, hversion⟩
  refine .word fun marker => (Reader.consumes_require _ _ _).bind ?_
  rintro - - ⟨rfl, hmarker⟩
  refine .word fun header_len => (Reader.consumes_require _ _ _).bind ?_
  rintro - - ⟨rfl, -⟩
  refine .word fun run_id => .word fun seed => .word fun start_wall_time_ns => .word fun count => ?_
  refine (Reader.consumes_require _ _ _).bind ?_
  rintro - - ⟨rfl, hlimit⟩
  refine (Reader.consumes_require _ _ _).bind ?_
  rintro - - ⟨rfl, hlen⟩
  have hnone : (([] : List InstrumentSpec).map InstrumentSpec.id).Nodup := List.nodup_nil
  refine (consumes_instruments count.toNat hnone).bind ?_
  rintro instruments used ⟨_, rfl, hcount, rfl, hids, htick, hlot⟩
  refine .word fun stored => (Reader.consumes_require _ _ _).bind ?_
  rintro - - ⟨rfl, hstored⟩
  simp only [decide_eq_true_eq] at hmagic hversion hmarker hlimit hlen hstored
  obtain ⟨rfl, rfl⟩ : major = FORMAT_MAJOR ∧ minor = FORMAT_MINOR := by
    rw [not_or, not_not, UInt16.not_lt] at hversion
    exact ⟨hversion.1, UInt16.le_antisymm hversion.2 (UInt16.le_iff_toNat_le.2 (Nat.zero_le _))⟩
  subst hmagic hmarker
  have hfew : instruments.length ≤ 256 := by
    rw [UInt16.not_lt, UInt16.le_iff_toNat_le, ← hcount] at hlimit
    exact hlimit
  have hword : UInt16.ofNat instruments.length = count := by
    rw [hcount, UInt16.ofNat_toNat]
  have hlength : header_len = UInt16.ofNat (46 + instruments.length * INSTRUMENT_LEN + 4) := by
    rw [hcount, ← hlen, UInt16.ofNat_toNat]
  refine .done ⟨⟨hfew, hids, htick, hlot⟩, ?_, ?_⟩
  · rw [hlen, ← hcount]
    rfl
  · rw [hstored, hlen, ← hcount, hlength, ← hword]
    simp [FileHeader.unsealed, FileHeader.header_len]

/-- What is accepted is the encoding of a header. -/
theorem FileHeader.encode_decode {bytes : List UInt8} {header : FileHeader} {n : Nat}
    (h : FileHeader.decode crc32 bytes = .ok (header, n)) : header.Valid ∧ header.encode crc32 = bytes.take n := by
  rw [decode] at h
  cases hread : read_header crc32 bytes ⟨bytes, 0⟩ with
  | error error =>
    rw [hread] at h
    cases h
  | ok x =>
    obtain ⟨x, reader⟩ := x
    rw [hread] at h
    cases h
    obtain ⟨used, hbytes, -, hvalid, hn, hused⟩ := consumes_header bytes _ _ _ _ hread
    dsimp only at hvalid hn hused
    -- The checksum is taken of what has been read in front of it.
    have hlength := header.length_unsealed
    have hunsealed : bytes.take (header.header_len - 4) = header.unsealed := by
      rw [hbytes, hused, List.append_assoc]
      exact List.take_left' (by omega)
    rw [hunsealed] at hused
    refine ⟨hvalid, ?_⟩
    rw [hn, ← length_encode crc32 header, hbytes, hused]
    exact (List.take_left ..).symm

/-- The headers the decoder gives back are those with at most 256 instruments, each under an id of its own and with
a tick and a lot, and it accepts nothing but their encodings. -/
theorem file_header_round_trip (crc32 : List UInt8 → UInt32) :
    (∀ (header : FileHeader) (rest : List UInt8), header.Valid →
      FileHeader.decode crc32 (header.encode crc32 ++ rest) = .ok (header, (header.encode crc32).length)) ∧
    ∀ bytes header n, FileHeader.decode crc32 bytes = .ok (header, n) →
      header.Valid ∧ header.encode crc32 = bytes.take n :=
  ⟨fun _ rest h => FileHeader.decode_encode h rest, fun _ _ _ h => FileHeader.encode_decode h⟩

/-- Two instruments. -/
def smallHeader : FileHeader := ⟨3, 5, 6, [⟨1, Vector.replicate 8 65, 5, 10, 2, 0⟩, ⟨2, Vector.replicate 8 66, 1, 4, 0, 3⟩]⟩

theorem smallHeader_valid : smallHeader.Valid := ⟨by decide, by decide, by decide, by decide⟩

/-- A byte of the first frame is behind the header. -/
theorem file_header_round_trip_small :
    smallHeader.Valid ∧
      FileHeader.decode (fun _ => 7) (smallHeader.encode (fun _ => 7) ++ [44]) = .ok (smallHeader, 110) :=
  ⟨smallHeader_valid, (file_header_round_trip fun _ => 7).1 smallHeader [44] smallHeader_valid⟩

end Headers

end TradingLab
