import TradingLab.Lib.BufWriter
import TradingLab.Lib.Streams
import TradingLab.Canonical
/-!
# The output journal

`journal.rs`. A record is the length of an event's canonical bytes, the bytes and
their checksum; a reader stops at the last complete record. `crc32` is any fixed
function of the bytes.
-/
open LabLib

namespace TradingLab

def MAGIC : List UInt8 := [0x52, 0x4c, 0x54, 0x4a]
def VERSION : UInt16 := 1
def HEADER_LEN : Nat := 24
def MAX_RECORD_LEN : UInt32 := 4096

def journal_header (run_id : U128) : List UInt8 :=
  [MAGIC, to_le_bytes VERSION, to_le_bytes (0 : UInt16), to_le_bytes run_id].flatten

section Journal
variable (crc32 : List UInt8 → UInt32)

/-- What `append` writes, in three calls. -/
def record_parts (event : OutputEvent) : List (List UInt8) :=
  let payload := encode_output event
  [to_le_bytes (UInt32.ofNat payload.length), payload, to_le_bytes (crc32 payload)]

def journal_record (event : OutputEvent) : List UInt8 := (record_parts crc32 event).flatten

/-- The bytes of a journal with these records. -/
def journal_bytes (run_id : U128) (events : List OutputEvent) : List UInt8 :=
  journal_header run_id ++ events.flatMap (journal_record crc32)

/-! ## The writer -/

structure JournalWriter where
  sink : BufWriter UInt8
  records : Nat

/-- The calls of `write_all` one after the other, up to the first that fails; `takes`
says how much the sink accepts during each. -/
def write_parts (sink : BufWriter UInt8) : List (List UInt8) → List Nat → BufWriter UInt8 × Bool
  | [], _ => (sink, true)
  | part :: parts, takes =>
    match sink.write_all part (takes.headD 0) with
    | (sink, true) => write_parts sink parts takes.tail
    | (sink, false) => (sink, false)

def JournalWriter.flush (journal : JournalWriter) (takes : Nat) : JournalWriter × Bool :=
  let (sink, ok) := journal.sink.flush_buf takes
  ({ journal with sink := sink }, ok)

/-- `sync_data` comes after the flush, and may fail as well. -/
def JournalWriter.sync (journal : JournalWriter) (takes : Nat) (synced : Bool) : JournalWriter × Bool :=
  let (journal, ok) := journal.flush takes
  (journal, ok && synced)

def JournalWriter.with_sink (capacity : Nat) (run_id : U128) (takes : Nat) (flushed : Nat) : JournalWriter × Bool :=
  match ({ capacity := capacity, buffer := [], sink := [] } : BufWriter UInt8).write_all (journal_header run_id) takes with
  | (sink, true) => { sink := sink, records := 0 : JournalWriter }.flush flushed
  | (sink, false) => ({ sink := sink, records := 0 }, false)

def JournalWriter.append (journal : JournalWriter) (event : OutputEvent) (takes : List Nat) : JournalWriter × Bool :=
  match write_parts journal.sink (record_parts crc32 event) takes with
  | (sink, true) => ({ sink := sink, records := journal.records + 1 }, true)
  | (sink, false) => ({ journal with sink := sink }, false)

/-- A journal of these events, each call so far successful; when it was flushed is left
open. -/
inductive Journaled (capacity : Nat) (run_id : U128) : List OutputEvent → JournalWriter → Prop where
  | with_sink {journal : JournalWriter} {takes flushed : Nat} :
    JournalWriter.with_sink capacity run_id takes flushed = (journal, true) → Journaled capacity run_id [] journal
  | append {events : List OutputEvent} {journal journal' : JournalWriter} {event : OutputEvent} {takes : List Nat} :
    Journaled capacity run_id events journal → journal.append crc32 event takes = (journal', true) →
    Journaled capacity run_id (events ++ [event]) journal'
  | flush {events : List OutputEvent} {journal journal' : JournalWriter} {takes : Nat} :
    Journaled capacity run_id events journal → journal.flush takes = (journal', true) →
    Journaled capacity run_id events journal'

/-! ## Recovery -/

inductive JournalError where
  | Io
  | BadHeader
  | IncompleteHeader
  | TruncatedTail (offset : Nat)
  | Corrupt (offset : Nat)
deriving DecidableEq, Repr

structure JournalRecovery where
  run_id : U128
  events : List OutputEvent
  /-- Set when the last record is incomplete or corrupt. -/
  truncated_at : Option Nat
deriving DecidableEq

/-- The loop of `read_journal` over the bytes from `offset` on; a record takes some
bytes, so their number is fuel enough. -/
def read_records : Nat → Nat → List UInt8 → List OutputEvent × Option Nat
  | 0, _, _ => ([], none)
  | fuel + 1, offset, bytes =>
    if bytes = [] then ([], none)
    else if bytes.length < 4 then ([], some offset)
    else
      let len : UInt32 := from_le_bytes (bytes.take 4)
      if len = 0 ∨ MAX_RECORD_LEN < len then ([], some offset)
      else
        let stop := 4 + len.toNat + 4
        if bytes.length < stop then ([], some offset)
        else
          let payload := (bytes.drop 4).take len.toNat
          let stored : UInt32 := from_le_bytes ((bytes.drop (4 + len.toNat)).take 4)
          if stored ≠ crc32 payload then ([], some offset)
          else
            match decode_output payload with
            | .ok (event, consumed) =>
              if consumed = payload.length then
                let (events, truncated_at) := read_records fuel (offset + stop) (bytes.drop stop)
                (event :: events, truncated_at)
              else ([], some offset)
            | .error _ => ([], some offset)

def read_journal (bytes : List UInt8) : Except JournalError JournalRecovery :=
  if bytes.length < HEADER_LEN then .error .IncompleteHeader
  else if bytes.take 4 ≠ MAGIC ∨ from_le_bytes ((bytes.drop 4).take 2) ≠ VERSION then .error .BadHeader
  else
    let (events, truncated_at) := read_records crc32 bytes.length HEADER_LEN (bytes.drop HEADER_LEN)
    .ok {
      run_id := from_le_bytes ((bytes.drop 8).take 16)
      events := events
      truncated_at := truncated_at }

/-! ## What the writer writes -/

variable {crc32}
variable {journal journal' : JournalWriter} {takes : List Nat} {ok : Bool}

theorem write_parts_written {sink sink' : BufWriter UInt8} {parts : List (List UInt8)}
    (h : write_parts sink parts takes = (sink', true)) : sink'.written = sink.written ++ parts.flatten := by
  induction parts generalizing sink takes with
  | nil =>
    cases h
    simp
  | cons part parts ih =>
    rw [write_parts] at h
    split at h
    · rename_i next hwrite
      rw [ih h, (BufWriter.write_all_writes hwrite).all rfl, List.flatten_cons, List.append_assoc]
    · cases h

/-- A call that fails leaves a part of what it should write. -/
theorem write_parts_torn {sink sink' : BufWriter UInt8} {parts : List (List UInt8)}
    (h : write_parts sink parts takes = (sink', ok)) : sink'.written <+: sink.written ++ parts.flatten := by
  induction parts generalizing sink takes with
  | nil =>
    cases h
    simp
  | cons part parts ih =>
    rw [write_parts] at h
    split at h
    · rename_i next hwrite
      have hnext := ih h
      rwa [(BufWriter.write_all_writes hwrite).all rfl, List.append_assoc, ← List.flatten_cons] at hnext
    · rename_i next hwrite
      cases h
      obtain ⟨k, hpart⟩ := (BufWriter.write_all_writes hwrite).part
      rw [hpart, List.prefix_append_right_inj, List.flatten_cons]
      exact (List.take_prefix k part).trans (List.prefix_append part _)

theorem JournalWriter.flush_written {takes : Nat} (h : journal.flush takes = (journal', ok)) :
    journal'.sink.written = journal.sink.written ∧ journal'.records = journal.records := by
  cases h
  exact ⟨(BufWriter.flush_buf_written rfl).1, rfl⟩

theorem JournalWriter.sync_written {takes : Nat} {synced ok : Bool} (h : journal.sync takes synced = (journal', ok)) :
    journal'.sink.written = journal.sink.written ∧ journal'.records = journal.records ∧
      (ok = true → journal'.sink.buffer = []) := by
  cases h
  refine ⟨(BufWriter.flush_buf_written rfl).1, rfl, fun hok => ?_⟩
  exact (BufWriter.flush_buf_written rfl).2 (Bool.and_eq_true_iff.1 hok).1

/-- A record is added as a whole, or the call fails with a part of it. -/
theorem JournalWriter.append_written {event : OutputEvent} (h : journal.append crc32 event takes = (journal', ok)) :
    journal'.sink.written <+: journal.sink.written ++ journal_record crc32 event ∧
      (ok = true → journal'.sink.written = journal.sink.written ++ journal_record crc32 event ∧
        journal'.records = journal.records + 1) := by
  rw [JournalWriter.append] at h
  split at h
  · rename_i sink hwrite
    cases h
    have hall := write_parts_written hwrite
    exact ⟨by rw [hall, journal_record], fun _ => ⟨hall, rfl⟩⟩
  · rename_i sink hwrite
    cases h
    exact ⟨write_parts_torn hwrite, nofun⟩

/-- A new journal has its header, or a part of it. -/
theorem JournalWriter.with_sink_torn (capacity : Nat) (run_id : U128) (takes flushed : Nat) :
    (JournalWriter.with_sink capacity run_id takes flushed).1.sink.written <+: journal_header run_id := by
  rw [JournalWriter.with_sink]
  split
  · rename_i sink hwrite
    have hflush : (JournalWriter.flush { sink := sink, records := 0 } flushed).1.sink.written = sink.written :=
      (JournalWriter.flush_written rfl).1
    rw [hflush, (BufWriter.write_all_writes hwrite).all rfl]
    simp [BufWriter.written]
  · rename_i sink hwrite
    obtain ⟨k, hpart⟩ := (BufWriter.write_all_writes hwrite).part
    rw [hpart]
    simpa [BufWriter.written] using List.take_prefix k _

/-- Nothing is lost and nothing reordered: the buffer follows the sink. -/
theorem Journaled.written {capacity : Nat} {run_id : U128} {events : List OutputEvent} {journal : JournalWriter}
    (h : Journaled crc32 capacity run_id events journal) :
    journal.sink.written = journal_bytes crc32 run_id events ∧ journal.records = events.length := by
  induction h with
  | with_sink h =>
    rw [JournalWriter.with_sink] at h
    split at h
    · rename_i sink hwrite
      obtain ⟨hwritten, hrecords⟩ := JournalWriter.flush_written h
      rw [hwritten, hrecords, (BufWriter.write_all_writes hwrite).all rfl]
      simp [journal_bytes, BufWriter.written]
    · cases h
  | append _ h ih =>
    obtain ⟨hwritten, hrecords⟩ := (JournalWriter.append_written h).2 rfl
    refine ⟨?_, by simp [hrecords, ih.2]⟩
    rw [hwritten, ih.1]
    simp [journal_bytes]
  | flush _ h ih =>
    obtain ⟨hwritten, hrecords⟩ := JournalWriter.flush_written h
    exact ⟨hwritten.trans ih.1, hrecords.trans ih.2⟩

/-! ## What recovery reads -/

theorem length_journal_header (run_id : U128) : (journal_header run_id).length = HEADER_LEN := by
  simp [journal_header, MAGIC, HEADER_LEN, Word.width]

variable (crc32) in
theorem length_journal_record (event : OutputEvent) :
    (journal_record crc32 event).length = 4 + (encode_output event).length + 4 := by
  simp [journal_record, record_parts, Word.width, Nat.add_assoc]

theorem journal_record_eq (event : OutputEvent) (rest : List UInt8) :
    journal_record crc32 event ++ rest =
      to_le_bytes (UInt32.ofNat (encode_output event).length) ++
        (encode_output event ++ (to_le_bytes (crc32 (encode_output event)) ++ rest)) := by
  simp [journal_record, record_parts]

/-- The length word holds the length, which is within the bounds. -/
theorem payload_len (event : OutputEvent) :
    (UInt32.ofNat (encode_output event).length).toNat = (encode_output event).length ∧
      ¬(UInt32.ofNat (encode_output event).length = 0 ∨ MAX_RECORD_LEN < UInt32.ofNat (encode_output event).length) := by
  have hlength := length_encode_output event
  have hlen : (UInt32.ofNat (encode_output event).length).toNat = (encode_output event).length := by
    rw [UInt32.toNat_ofNat']
    omega
  refine ⟨hlen, ?_⟩
  rw [← UInt32.toNat_inj, UInt32.lt_iff_toNat_lt, hlen]
  simp only [MAX_RECORD_LEN, UInt32.toNat_ofNat]
  omega

variable (crc32) in
theorem take_journal_record (event : OutputEvent) (rest : List UInt8) :
    (journal_record crc32 event ++ rest).take 4 = to_le_bytes (UInt32.ofNat (encode_output event).length) := by
  rw [journal_record_eq]
  exact List.take_left' (by simp [Word.width])

/-- What a reader finds at the start of bytes that begin with the record of `event`. -/
structure StartsWith (crc32 : List UInt8 → UInt32) (event : OutputEvent) (rest bytes : List UInt8) : Prop where
  length : bytes.length = 4 + (encode_output event).length + 4 + rest.length
  len : from_le_bytes (bytes.take 4) = UInt32.ofNat (encode_output event).length
  payload : (bytes.drop 4).take (encode_output event).length = encode_output event
  stored : from_le_bytes ((bytes.drop (4 + (encode_output event).length)).take 4) = crc32 (encode_output event)
  rest : bytes.drop (4 + (encode_output event).length + 4) = rest
  decodes : decode_output (encode_output event) = .ok (event, (encode_output event).length)

variable (crc32) in
theorem startsWith_record (event : OutputEvent) (rest : List UInt8) :
    StartsWith crc32 event rest (journal_record crc32 event ++ rest) := by
  have hpayload : (journal_record crc32 event ++ rest).drop 4 =
      encode_output event ++ (to_le_bytes (crc32 (encode_output event)) ++ rest) := by
    rw [journal_record_eq]
    exact List.drop_left' (by simp [Word.width])
  have hstored : (journal_record crc32 event ++ rest).drop (4 + (encode_output event).length) =
      to_le_bytes (crc32 (encode_output event)) ++ rest := by
    rw [← List.drop_drop, hpayload, List.drop_left]
  have hdecode := decode_encode_output event []
  rw [List.append_nil] at hdecode
  constructor
  case length => rw [List.length_append, length_journal_record]
  case len => rw [take_journal_record, from_to_le_bytes]
  case payload => rw [hpayload, List.take_left]
  case stored => rw [hstored, List.take_left' (by simp [Word.width]), from_to_le_bytes]
  case rest => rw [← length_journal_record crc32, List.drop_left]
  case decodes => exact hdecode

/-- A complete record is read back, and the reader goes on behind it. -/
theorem read_records_record (fuel offset : Nat) (event : OutputEvent) (rest : List UInt8) :
    read_records crc32 (fuel + 1) offset (journal_record crc32 event ++ rest) =
      (event :: (read_records crc32 fuel (offset + (journal_record crc32 event).length) rest).1,
        (read_records crc32 fuel (offset + (journal_record crc32 event).length) rest).2) := by
  obtain ⟨hlen, hbound⟩ := payload_len event
  have h := startsWith_record crc32 event rest
  have hlength := h.length
  rw [read_records, if_neg (List.ne_nil_of_length_pos (by omega)), if_neg (by omega), h.len, if_neg hbound]
  simp only [hlen]
  rw [if_neg (by omega), h.payload, h.stored, h.rest, if_neg (by simp), h.decodes]
  simp only [if_true, length_journal_record]

/-- The length word is whole in a part that has four bytes. -/
theorem len_of_torn (event : OutputEvent) {n : Nat} (h : 4 ≤ n) :
    from_le_bytes (((journal_record crc32 event).take n).take 4) = UInt32.ofNat (encode_output event).length := by
  rw [List.take_take, Nat.min_eq_left h, ← List.append_nil (journal_record crc32 event), take_journal_record,
    from_to_le_bytes]

/-- A part of a record is reported, with the offset it starts at. -/
theorem read_records_torn (fuel offset n : Nat) (event : OutputEvent) (hpos : 0 < n)
    (hlt : n < (journal_record crc32 event).length) :
    read_records crc32 (fuel + 1) offset ((journal_record crc32 event).take n) = ([], some offset) := by
  obtain ⟨hlen, hbound⟩ := payload_len event
  have hlength : ((journal_record crc32 event).take n).length = n := by
    rw [List.length_take, Nat.min_eq_left hlt.le]
  rw [read_records, if_neg (List.ne_nil_of_length_pos (by omega)), hlength]
  split
  · rfl
  · rename_i hshort
    rw [length_journal_record] at hlt
    simp only [len_of_torn event (Nat.le_of_not_lt hshort), hlen]
    rw [if_neg hbound, if_pos hlt]

/-- With as much fuel as bytes the loop reads every complete record. -/
theorem read_records_stream {events all : List OutputEvent} {part : List UInt8}
    (hpart : part = [] ∨ Torn (journal_record crc32) all part) {fuel offset : Nat}
    (hfuel : (events.flatMap (journal_record crc32) ++ part).length ≤ fuel) :
    read_records crc32 fuel offset (events.flatMap (journal_record crc32) ++ part) =
      (events, if part = [] then none else some (offset + (events.flatMap (journal_record crc32)).length)) := by
  induction events generalizing fuel offset with
  | nil =>
    rw [List.flatMap_nil, List.nil_append] at hfuel ⊢
    rcases hpart with rfl | htorn
    · cases fuel <;> rfl
    · have hne := htorn.ne_nil
      obtain ⟨event, -, n, hpos, hlt, rfl⟩ := htorn
      cases fuel with
      | zero => exact absurd (List.length_eq_zero_iff.1 (Nat.le_zero.1 hfuel)) hne
      | succ fuel =>
        rw [read_records_torn fuel offset n event hpos hlt, if_neg hne]
        rfl
  | cons event events ih =>
    rw [List.flatMap_cons, List.append_assoc] at hfuel ⊢
    rw [List.length_append, length_journal_record] at hfuel
    cases fuel with
    | zero => omega
    | succ fuel =>
      rw [read_records_record, ih (by omega), List.length_append, Nat.add_assoc]

theorem magic_journal_header (run_id : U128) (rest : List UInt8) : (journal_header run_id ++ rest).take 4 = MAGIC := by
  rw [journal_header, List.flatten_cons, List.append_assoc]
  exact List.take_left' rfl

theorem version_journal_header (run_id : U128) (rest : List UInt8) :
    from_le_bytes (((journal_header run_id ++ rest).drop 4).take 2) = VERSION := by
  have hversion : ((journal_header run_id ++ rest).drop 4).take 2 = to_le_bytes VERSION := by
    rw [journal_header, List.flatten_cons, List.append_assoc, List.drop_left' (by rfl), List.flatten_cons, List.append_assoc]
    exact List.take_left' rfl
  rw [hversion, from_to_le_bytes]

/-- The header of a journal is recognised, whatever follows it. -/
theorem read_journal_header (run_id : U128) (rest : List UInt8) :
    read_journal crc32 (journal_header run_id ++ rest) =
      .ok {
        run_id := run_id
        events := (read_records crc32 (HEADER_LEN + rest.length) HEADER_LEN rest).1
        truncated_at := (read_records crc32 (HEADER_LEN + rest.length) HEADER_LEN rest).2 } := by
  have hlength : (journal_header run_id ++ rest).length = HEADER_LEN + rest.length := by
    rw [List.length_append, length_journal_header]
  have hrest : (journal_header run_id ++ rest).drop HEADER_LEN = rest := List.drop_left' (length_journal_header run_id)
  have hrun : ((journal_header run_id ++ rest).drop 8).take 16 = to_le_bytes run_id := by
    have hfixed : journal_header run_id ++ rest =
        (MAGIC ++ to_le_bytes VERSION ++ to_le_bytes (0 : UInt16)) ++ (to_le_bytes run_id ++ rest) := by
      simp [journal_header]
    rw [hfixed, List.drop_left' (by rfl)]
    exact List.take_left' (by simp [Word.width])
  rw [read_journal, hlength, if_neg (by omega), magic_journal_header, version_journal_header, hrun, hrest,
    from_to_le_bytes, if_neg (by simp)]

/-- A reader of the first `c` bytes of a journal finds the run, and just the events whose
records end before `c`. -/
theorem read_journal_take (run_id : U128) (events : List OutputEvent) {c : Nat} (hheader : HEADER_LEN ≤ c)
    (hc : c ≤ (journal_bytes crc32 run_id events).length) :
    ∃ k ≤ events.length,
      HEADER_LEN + boundary (journal_record crc32) events k ≤ c ∧
      (∀ j ≤ events.length, HEADER_LEN + boundary (journal_record crc32) events j ≤ c → j ≤ k) ∧
      read_journal crc32 ((journal_bytes crc32 run_id events).take c) =
        .ok {
          run_id := run_id
          events := events.take k
          truncated_at :=
            if c = HEADER_LEN + boundary (journal_record crc32) events k then none
            else some (HEADER_LEN + boundary (journal_record crc32) events k) } := by
  have htotal : c - HEADER_LEN ≤ (events.flatMap (journal_record crc32)).length := by
    rw [journal_bytes, List.length_append, length_journal_header] at hc
    omega
  obtain ⟨k, part, hcut⟩ := exists_cutAt events htotal
  have hposition := hcut.position
  refine ⟨k, hcut.le, by omega, fun j hj hboundary => hcut.last j hj (by omega), ?_⟩
  have htake : (journal_bytes crc32 run_id events).take c =
      journal_header run_id ++ ((events.take k).flatMap (journal_record crc32) ++ part) := by
    rw [← hcut.stream, journal_bytes, List.take_append, length_journal_header,
      List.take_of_length_le (by rw [length_journal_header]; exact hheader)]
  rw [htake, read_journal_header, read_records_stream hcut.torn (Nat.le_add_left _ _)]
  have hwhole : part = [] ↔ c = HEADER_LEN + boundary (journal_record crc32) events k := by
    rw [hcut.part_eq_nil]
    omega
  by_cases hpart : part = []
  · rw [if_pos hpart, if_pos (hwhole.1 hpart)]
  · rw [if_neg hpart, if_neg fun hat => hpart (hwhole.2 hat), boundary]

/-- A whole journal is read back. -/
theorem read_journal_bytes (run_id : U128) (events : List OutputEvent) :
    read_journal crc32 (journal_bytes crc32 run_id events) =
      .ok { run_id := run_id, events := events, truncated_at := none } := by
  have hwhole : ([] : List UInt8) = [] ∨ Torn (journal_record crc32) events [] := .inl rfl
  have hfuel : (events.flatMap (journal_record crc32) ++ []).length ≤
      HEADER_LEN + (events.flatMap (journal_record crc32)).length := by simp
  have hrecords := @read_records_stream crc32 events events [] hwhole _ HEADER_LEN hfuel
  rw [List.append_nil] at hrecords
  rw [journal_bytes, read_journal_header, hrecords, if_pos rfl]

/-- A reader of the first `c` bytes that a writer put out finds the run, and just the
events whose records end before `c`; if `c` is no end of a record, it reports where
the incomplete one starts. -/
theorem journal_recovery {capacity : Nat} {run_id : U128} {events : List OutputEvent} {journal : JournalWriter} {c : Nat}
    (hjournal : Journaled crc32 capacity run_id events journal) (hheader : HEADER_LEN ≤ c)
    (hc : c ≤ journal.sink.sink.length) :
    ∃ k ≤ events.length,
      HEADER_LEN + boundary (journal_record crc32) events k ≤ c ∧
      (∀ j ≤ events.length, HEADER_LEN + boundary (journal_record crc32) events j ≤ c → j ≤ k) ∧
      read_journal crc32 (journal.sink.sink.take c) =
        .ok {
          run_id := run_id
          events := events.take k
          truncated_at :=
            if c = HEADER_LEN + boundary (journal_record crc32) events k then none
            else some (HEADER_LEN + boundary (journal_record crc32) events k) } := by
  have hbytes : journal.sink.sink ++ journal.sink.buffer = journal_bytes crc32 run_id events := hjournal.written.1
  have htake : journal.sink.sink.take c = (journal_bytes crc32 run_id events).take c := by
    rw [← hbytes, List.take_append_of_le_length hc]
  rw [htake]
  refine read_journal_take run_id events hheader ?_
  rw [← hbytes, List.length_append]
  omega

/-- A journal of one state event, cut inside its record. -/
theorem journal_recovery_small :
    ∃ k ≤ 1,
      read_journal (fun _ => 7)
          ((JournalWriter.append (fun _ => 7) (JournalWriter.with_sink 16 5 24 24).1 (.State ⟨1, 1, 0, .KillSwitchEngaged⟩)
            [4, 30, 4]).1.sink.sink.take 30) =
        .ok {
          run_id := 5
          events := [.State ⟨1, 1, 0, .KillSwitchEngaged⟩].take k
          truncated_at :=
            if 30 = 24 + boundary (journal_record fun _ => 7) [.State ⟨1, 1, 0, .KillSwitchEngaged⟩] k then none
            else some (24 + boundary (journal_record fun _ => 7) [.State ⟨1, 1, 0, .KillSwitchEngaged⟩] k) } :=
  have hjournal : Journaled (fun _ => 7) 16 5 [.State ⟨1, 1, 0, .KillSwitchEngaged⟩] _ :=
    .append (.with_sink (Prod.ext rfl (by decide +kernel))) (Prod.ext rfl (by decide +kernel))
  have ⟨k, hk, _, _, hread⟩ := journal_recovery hjournal (by decide) (by decide +kernel)
  ⟨k, hk, hread⟩

end Journal

end TradingLab
