import TradingLab.Lib.Growing
import TradingLab.Lib.System
import TradingLab.Journal
/-!
# Following the journal

`JournalTail` of `journal.rs`: a reader of a journal that the output thread still
writes. A poll reads what has become visible, returns the records that are complete,
up to a limit, and keeps the rest for the next one. The file may grow before any call
of `read`, by any number of bytes.
-/
open LabLib

namespace TradingLab

/-- `position` is that of the file handle. -/
structure JournalTail where
  position : Nat
  /-- Offset of the first record not yet returned. -/
  offset : Nat
  /-- Bytes read from `offset` onwards that did not form a whole record yet. -/
  pending : List UInt8
  bytes_read : Nat
deriving DecidableEq, Repr

def JournalTail.open (calls : List ReadCall) (file : GrowingFile UInt8) :
    Except JournalError JournalTail × GrowingFile UInt8 :=
  match file.read_exact HEADER_LEN calls with
  | (none, file) => (.error .IncompleteHeader, file)
  | (some header, file) =>
    if header.take 4 ≠ MAGIC ∨ from_le_bytes ((header.drop 4).take 2) ≠ VERSION then (.error .BadHeader, file)
    else (.ok { position := HEADER_LEN, offset := HEADER_LEN, pending := [], bytes_read := 0 }, file)

section Tail
variable (crc32 : List UInt8 → UInt32)

/-- The second loop of `poll`, with the number of events that may still be returned and
the bytes behind those consumed. -/
def tail_records (offset : Nat) : Nat → Nat → List UInt8 → Except JournalError (List OutputEvent × Nat)
  | 0, consumed, _ => .ok ([], consumed)
  | limit + 1, consumed, rest =>
    if rest.length < 4 then .ok ([], consumed)
    else
      let len : UInt32 := from_le_bytes (rest.take 4)
      if len = 0 ∨ MAX_RECORD_LEN < len then .error (.Corrupt (offset + consumed))
      else
        let stop := 4 + len.toNat + 4
        if rest.length < stop then
          -- An incomplete record is held until the writer finishes it.
          .ok ([], consumed)
        else
          let payload := (rest.drop 4).take len.toNat
          let stored : UInt32 := from_le_bytes ((rest.drop (4 + len.toNat)).take 4)
          if stored ≠ crc32 payload then .error (.Corrupt (offset + consumed))
          else
            match decode_output payload with
            | .ok (event, used) =>
              if used = payload.length then
                match tail_records offset limit (consumed + stop) (rest.drop stop) with
                | .ok (events, consumed) => .ok (event :: events, consumed)
                | .error e => .error e
              else .error (.Corrupt (offset + consumed))
            | .error _ => .error (.Corrupt (offset + consumed))

def JournalTail.poll (tail : JournalTail) (limit : Nat) (calls : List ReadCall) (file : GrowingFile UInt8) :
    JournalTail × GrowingFile UInt8 × Except JournalError (List OutputEvent) :=
  let (bytes, file) := file.read_to_end 8192 calls tail.position
  let tail := { tail with
    position := tail.position + bytes.length
    pending := tail.pending ++ bytes
    bytes_read := tail.bytes_read + bytes.length }
  match tail_records crc32 tail.offset limit 0 tail.pending with
  | .ok (events, consumed) =>
    ({ tail with pending := tail.pending.drop consumed, offset := tail.offset + consumed }, file, .ok events)
  | .error e => (tail, file, .error e)

/-! ## The writer and the tail -/

/-- A journal file, a tail of it once one is open, and what the polls answered so far. -/
structure TailRun where
  file : GrowingFile UInt8
  tail : Option JournalTail
  answers : List (Except JournalError (List OutputEvent))

inductive TailMove where
  | grow (n : Nat)
  | open (calls : List ReadCall)
  | poll (limit : Nat) (calls : List ReadCall)

/-- A file of these bytes of which nothing is visible yet. -/
def TailRun.start (bytes : List UInt8) : TailRun where
  file := ⟨[], bytes⟩
  tail := none
  answers := []

def TailRun.step (s : TailRun) : TailMove → Option TailRun
  | .grow n => some { s with file := s.file.grow n }
  | .open calls =>
    match s.tail, JournalTail.open calls s.file with
    | some _, _ => none
    | none, (.ok tail, file) => some { s with file := file, tail := some tail }
    -- The caller may try again.
    | none, (.error _, file) => some { s with file := file }
  | .poll limit calls =>
    s.tail.map fun tail =>
      let (tail, file, answer) := tail.poll crc32 limit calls s.file
      { file := file, tail := some tail, answers := s.answers ++ [answer] }

/-- All polled batches, one after the other. -/
def TailRun.delivered (s : TailRun) : List OutputEvent := (s.answers.filterMap Except.toOption).flatten

/-! ## One poll -/

variable {crc32}

/-- A complete record is returned, and the loop goes on behind it. -/
theorem tail_records_record (offset limit consumed : Nat) (event : OutputEvent) (rest : List UInt8) :
    tail_records crc32 offset (limit + 1) consumed (journal_record crc32 event ++ rest) =
      match tail_records crc32 offset limit (consumed + (journal_record crc32 event).length) rest with
      | .ok (events, consumed) => .ok (event :: events, consumed)
      | .error e => .error e := by
  obtain ⟨hlen, hbound⟩ := payload_len event
  have h := startsWith_record crc32 event rest
  have hlength := h.length
  rw [tail_records, if_neg (by omega), h.len, if_neg hbound]
  simp only [hlen]
  rw [if_neg (by omega), h.payload, h.stored, h.rest, if_neg (by simp), h.decodes]
  simp only [if_true, length_journal_record]

/-- A part of a record is held. -/
theorem tail_records_torn (offset limit consumed n : Nat) (event : OutputEvent)
    (hlt : n < (journal_record crc32 event).length) :
    tail_records crc32 offset limit consumed ((journal_record crc32 event).take n) = .ok ([], consumed) := by
  obtain ⟨hlen, hbound⟩ := payload_len event
  have hlength : ((journal_record crc32 event).take n).length = n := by
    rw [List.length_take, Nat.min_eq_left hlt.le]
  cases limit with
  | zero => rfl
  | succ limit =>
    rw [tail_records, hlength]
    split
    · rfl
    · rename_i hshort
      rw [length_journal_record] at hlt
      simp only [len_of_torn event (Nat.le_of_not_lt hshort), hlen]
      rw [if_neg hbound, if_pos hlt]

/-- The loop returns the complete records up to the limit. -/
theorem tail_records_stream {events all : List OutputEvent} {part : List UInt8}
    (hpart : part = [] ∨ Torn (journal_record crc32) all part) (offset limit consumed : Nat) :
    tail_records crc32 offset limit consumed (events.flatMap (journal_record crc32) ++ part) =
      .ok (events.take limit, consumed + boundary (journal_record crc32) events limit) := by
  induction events generalizing limit consumed with
  | nil =>
    have hnone : consumed + boundary (journal_record crc32) [] limit = consumed := by simp [boundary]
    rw [List.flatMap_nil, List.nil_append, List.take_nil, hnone]
    rcases hpart with rfl | ⟨event, -, n, -, hlt, rfl⟩
    · cases limit <;> rfl
    · exact tail_records_torn offset limit consumed n event hlt
  | cons event events ih =>
    cases limit with
    | zero => simp [tail_records, boundary]
    | succ limit =>
      rw [List.flatMap_cons, List.append_assoc, tail_records_record, ih, boundary_cons, ← Nat.add_assoc]
      rfl

/-- A tail of a file of which the first `k` events have been returned. -/
structure JournalTail.At (tail : JournalTail) (file : GrowingFile UInt8) (crc32 : List UInt8 → UInt32)
    (events : List OutputEvent) (k : Nat) : Prop where
  le : k ≤ events.length
  offset : tail.offset = HEADER_LEN + boundary (journal_record crc32) events k
  offset_le : tail.offset ≤ tail.position
  position_le : tail.position ≤ file.visible.length
  pending : tail.pending = (file.visible.take tail.position).drop tail.offset

variable {tail : JournalTail} {file : GrowingFile UInt8} {run_id : U128} {events : List OutputEvent} {k : Nat}

theorem JournalTail.At.grow (h : tail.At file crc32 events k) (n : Nat) : tail.At (file.grow n) crc32 events k where
  le := h.le
  offset := h.offset
  offset_le := h.offset_le
  position_le := h.position_le.trans (file.visible_grow n).length_le
  pending := by
    rw [GrowingFile.grow, List.take_append_of_le_length h.position_le]
    exact h.pending

/-- What is visible behind the offset are complete records and a part of one. -/
theorem cut_behind (hfile : file.whole = journal_bytes crc32 run_id events) {offset : Nat}
    (hoffset : offset = HEADER_LEN + boundary (journal_record crc32) events k) :
    ∃ j part, CutAt (journal_record crc32) (events.drop k) (file.visible.length - offset) j part ∧
      file.visible.drop offset = ((events.drop k).take j).flatMap (journal_record crc32) ++ part := by
  have hvisible : file.visible.drop offset =
      ((events.drop k).flatMap (journal_record crc32)).take (file.visible.length - offset) := by
    have hbehind : (journal_bytes crc32 run_id events).drop offset = (events.drop k).flatMap (journal_record crc32) := by
      rw [hoffset, ← List.drop_drop, journal_bytes, List.drop_left' (length_journal_header run_id), drop_boundary]
    rw [← hbehind, ← hfile, ← List.drop_take, ← file.visible_eq_take]
  have hlength : file.visible.length - offset ≤ ((events.drop k).flatMap (journal_record crc32)).length := by
    have htake := congrArg List.length hvisible
    rw [List.length_drop, List.length_take] at htake
    omega
  obtain ⟨j, part, hcut⟩ := exists_cutAt (events.drop k) hlength
  exact ⟨j, part, hcut, hvisible.trans hcut.stream⟩

/-- The tail has read what is visible of the file. -/
def JournalTail.caught_up (tail : JournalTail) (visible : List UInt8) : JournalTail where
  position := visible.length
  offset := tail.offset
  pending := visible.drop tail.offset
  bytes_read := tail.bytes_read + (visible.drop tail.position).length

/-- It has also returned the records in this many bytes. -/
def JournalTail.advanced (tail : JournalTail) (visible : List UInt8) (consumed : Nat) : JournalTail :=
  { tail.caught_up visible with pending := (visible.drop tail.offset).drop consumed, offset := tail.offset + consumed }

/-- A poll catches up with the file and looks at all that is visible behind the offset. -/
theorem JournalTail.poll_reads (hoffset : tail.offset ≤ tail.position) (hposition : tail.position ≤ file.visible.length)
    (hpending : tail.pending = (file.visible.take tail.position).drop tail.offset) (limit : Nat) (calls : List ReadCall) :
    ∃ n, tail.poll crc32 limit calls file =
      match tail_records crc32 tail.offset limit 0 ((file.grow n).visible.drop tail.offset) with
      | .ok (events, consumed) => (tail.advanced (file.grow n).visible consumed, file.grow n, .ok events)
      | .error e => (tail.caught_up (file.grow n).visible, file.grow n, .error e) := by
  obtain ⟨n, hgrown, hread⟩ := @GrowingFile.read_to_end_reads _ file calls 8192 (by decide) _ hposition
  have hposition' := hposition.trans (file.visible_grow n).length_le
  have hpending' : tail.pending ++ (file.grow n).visible.drop tail.position = (file.grow n).visible.drop tail.offset := by
    have hjoin := List.take_append_drop tail.position (file.grow n).visible
    have hlength : ((file.grow n).visible.take tail.position).length = tail.position := by
      rw [List.length_take, Nat.min_eq_left hposition']
    have hbefore : tail.pending = ((file.grow n).visible.take tail.position).drop tail.offset := by
      rw [GrowingFile.grow, List.take_append_of_le_length hposition]
      exact hpending
    conv_rhs => rw [← hjoin]
    rw [List.drop_append_of_le_length (by rw [hlength]; exact hoffset), hbefore]
  have hend : tail.position + ((file.grow n).visible.drop tail.position).length = (file.grow n).visible.length := by
    rw [List.length_drop]
    exact Nat.add_sub_cancel' hposition'
  refine ⟨n, ?_⟩
  rw [JournalTail.poll, ← Prod.mk.eta (p := file.read_to_end 8192 calls tail.position), hgrown, hread]
  simp only [hpending', hend]
  rfl

/-- A poll returns the next complete records, and all of them when the file is complete. -/
theorem JournalTail.At.poll (h : tail.At file crc32 events k) (hfile : file.whole = journal_bytes crc32 run_id events)
    (limit : Nat) (calls : List ReadCall) :
    ∃ n j, j ≤ limit ∧ (tail.poll crc32 limit calls file).2 = (file.grow n, .ok ((events.drop k).take j)) ∧
      (tail.poll crc32 limit calls file).1.At (file.grow n) crc32 events (k + j) ∧
      ((file.grow n).hidden = [] → j = min limit (events.length - k)) := by
  obtain ⟨n, hreads⟩ := JournalTail.poll_reads h.offset_le h.position_le h.pending limit calls
  have h' := h.grow n
  have hfile' : (file.grow n).whole = journal_bytes crc32 run_id events := (file.whole_grow n).trans hfile
  obtain ⟨complete, part, hcut, hrecords⟩ := cut_behind hfile' h'.offset
  have hle : complete ≤ events.length - k := by
    have := hcut.le
    rwa [List.length_drop] at this
  have hpoll : tail.poll crc32 limit calls file =
      (tail.advanced (file.grow n).visible (boundary (journal_record crc32) ((events.drop k).take complete) limit),
        file.grow n, .ok (((events.drop k).take complete).take limit)) := by
    rw [hreads, hrecords, tail_records_stream hcut.torn, Nat.zero_add]
  have hboundary : boundary (journal_record crc32) ((events.drop k).take complete) limit =
      boundary (journal_record crc32) (events.drop k) (min limit complete) := by
    rw [boundary, List.take_take, ← boundary]
  have hoffset : tail.offset + boundary (journal_record crc32) ((events.drop k).take complete) limit =
      HEADER_LEN + boundary (journal_record crc32) events (k + min limit complete) := by
    rw [hboundary, boundary_add, h.offset, Nat.add_assoc]
  have hwithin : boundary (journal_record crc32) (events.drop k) (min limit complete) ≤
      (file.grow n).visible.length - tail.offset := by
    have hmono := boundary_mono (f := journal_record crc32) (events.drop k) (Nat.min_le_right limit complete)
    have hposition := hcut.position
    omega
  refine ⟨n, min limit complete, Nat.min_le_left _ _, ?_, ?_, fun hhidden => ?_⟩
  · rw [hpoll, List.take_take]
  · rw [hpoll]
    have hbehind := h'.offset_le.trans h'.position_le
    refine ⟨by have := h.le; omega, hoffset, ?_, le_rfl, ?_⟩
    · dsimp only [JournalTail.advanced, JournalTail.caught_up]
      rw [hboundary]
      omega
    · dsimp only [JournalTail.advanced, JournalTail.caught_up]
      rw [List.drop_drop, List.take_length]
  · have hwhole : (file.grow n).visible.length = HEADER_LEN + boundary (journal_record crc32) events events.length := by
      have hall : (file.grow n).visible = (file.grow n).whole := by rw [GrowingFile.whole, hhidden, List.append_nil]
      rw [hall, GrowingFile.whole_grow, hfile, journal_bytes, List.length_append, length_journal_header, boundary_length]
    have hrest : boundary (journal_record crc32) (events.drop k) (events.length - k) ≤
        (file.grow n).visible.length - tail.offset := by
      have hadd := boundary_add (f := journal_record crc32) events k (events.length - k)
      rw [Nat.add_sub_cancel' h.le] at hadd
      have hoffset := h.offset
      omega
    have hlast := hcut.last (events.length - k) (by rw [List.length_drop]) hrest
    omega

/-- Opening succeeds as soon as the header is visible. -/
theorem JournalTail.open_at (hfile : file.whole = journal_bytes crc32 run_id events) (calls : List ReadCall) :
    ∃ n, (JournalTail.open calls file).2 = file.grow n ∧
      ((JournalTail.open calls file).1 = .error .IncompleteHeader ∧ (file.grow n).visible.length < HEADER_LEN ∨
        ∃ tail, (JournalTail.open calls file).1 = .ok tail ∧ tail.At (file.grow n) crc32 events 0) := by
  obtain ⟨n, hgrown, hread⟩ := @GrowingFile.read_exact_reads _ file calls HEADER_LEN
  refine ⟨n, ?_⟩
  rw [JournalTail.open, ← Prod.mk.eta (p := file.read_exact HEADER_LEN calls), hgrown, hread]
  by_cases hshort : (file.grow n).visible.length < HEADER_LEN
  · rw [if_pos hshort]
    exact ⟨rfl, .inl ⟨rfl, hshort⟩⟩
  · rw [if_neg hshort]
    have hheader : (file.grow n).visible.take HEADER_LEN = journal_header run_id ++ [] := by
      rw [(file.grow n).visible_eq_take, List.take_take, Nat.min_eq_left (Nat.le_of_not_lt hshort),
        GrowingFile.whole_grow, hfile, journal_bytes, List.take_left' (length_journal_header run_id), List.append_nil]
    dsimp only
    rw [hheader, magic_journal_header, version_journal_header, if_neg (by simp)]
    refine ⟨rfl, .inr ⟨_, rfl, Nat.zero_le _, rfl, le_rfl, Nat.le_of_not_lt hshort, ?_⟩⟩
    rw [List.drop_eq_nil_of_le (by rw [List.length_take]; exact Nat.min_le_left _ _)]

/-! ## Whole runs -/

/-- What holds in every state: the polls have returned the first events, each once. -/
structure TailRun.Following (s : TailRun) (crc32 : List UInt8 → UInt32) (run_id : U128) (events : List OutputEvent) :
    Prop where
  file : s.file.whole = journal_bytes crc32 run_id events
  answers : ∀ answer ∈ s.answers, ∃ batch, answer = .ok batch
  delivered : s.delivered = events.take s.delivered.length
  tail : ∀ tail, s.tail = some tail → tail.At s.file crc32 events s.delivered.length
  fresh : s.tail = none → s.delivered = []

theorem delivered_snoc (s : TailRun) (batch : List OutputEvent) {file : GrowingFile UInt8} {tail : Option JournalTail} :
    { file := file, tail := tail, answers := s.answers ++ [.ok batch] : TailRun }.delivered = s.delivered ++ batch := by
  simp [TailRun.delivered, Except.toOption]

theorem TailRun.Following.step {s s' : TailRun} {move : TailMove} (h : s.Following crc32 run_id events)
    (hs : s.step crc32 move = some s') : s'.Following crc32 run_id events := by
  cases move with
  | grow n =>
    cases hs
    exact ⟨(s.file.whole_grow n).trans h.file, h.answers, h.delivered, fun tail htail => (h.tail tail htail).grow n, h.fresh⟩
  | «open» calls =>
    obtain ⟨n, hgrown, hopen⟩ := JournalTail.open_at h.file calls
    rw [TailRun.step] at hs
    have hwhole : (s.file.grow n).whole = journal_bytes crc32 run_id events := (s.file.whole_grow n).trans h.file
    cases hnone : s.tail with
    | some tail =>
      rw [hnone] at hs
      cases hs
    | none =>
      rw [hnone, ← Prod.mk.eta (p := JournalTail.open calls s.file), hgrown] at hs
      rcases hopen with ⟨hanswer, -⟩ | ⟨tail, hanswer, hat⟩
      · rw [hanswer] at hs
        cases hs
        exact ⟨hwhole, h.answers, h.delivered, nofun, fun _ => h.fresh hnone⟩
      · rw [hanswer] at hs
        cases hs
        refine ⟨hwhole, h.answers, h.delivered, fun other hother => ?_, nofun⟩
        cases hother
        have hdelivered : { s with file := s.file.grow n, tail := some tail }.delivered = [] := h.fresh hnone
        rw [hdelivered]
        exact hat
  | poll limit calls =>
    obtain ⟨tail, htail, rfl⟩ := Option.map_eq_some_iff.1 hs
    have hold := h.tail tail htail
    obtain ⟨n, j, -, hpoll, hat, -⟩ := hold.poll h.file limit calls
    rw [← Prod.mk.eta (p := tail.poll crc32 limit calls s.file), hpoll]
    dsimp only
    set s' : TailRun :=
      { file := s.file.grow n, tail := some (tail.poll crc32 limit calls s.file).1
        answers := s.answers ++ [.ok ((events.drop s.delivered.length).take j)] }
    have hdelivered : s'.delivered = events.take (s.delivered.length + j) := by
      rw [List.take_add, ← h.delivered]
      exact delivered_snoc s _
    have hlength : s'.delivered.length = s.delivered.length + j := by
      rw [hdelivered, List.length_take, Nat.min_eq_left hat.le]
    refine ⟨(s.file.whole_grow n).trans h.file, fun answer hanswer => ?_, by rw [hlength]; exact hdelivered,
      fun other hother => ?_, nofun⟩
    · rcases List.mem_append.1 hanswer with hanswer | hanswer
      · exact h.answers answer hanswer
      · exact ⟨_, List.mem_singleton.1 hanswer⟩
    · cases hother
      rw [hlength]
      exact hat

theorem TailRun.following {s : TailRun}
    (hs : Reach (TailRun.step crc32) (fun _ _ => True) (.start (journal_bytes crc32 run_id events)) s) :
    s.Following crc32 run_id events :=
  hs.inv (·.Following crc32 run_id events) ⟨rfl, fun _ h => absurd h List.not_mem_nil, rfl, nofun, fun _ => rfl⟩
    fun _ _ _ h _ hstep => h.step hstep

/-- However the file grows and whatever the limits are, no poll fails, and the polled events
are the first ones written, each once. When the file is complete a poll returns as many
of the others as its limit allows; if these are none, all have been returned and the offset is
the length of the file. -/
theorem tail_delivers_journal {capacity : Nat} {journal : JournalWriter}
    (hjournal : Journaled crc32 capacity run_id events journal) (hflushed : journal.sink.buffer = []) {s : TailRun}
    (hs : Reach (TailRun.step crc32) (fun _ _ => True) (.start journal.sink.sink) s) :
    (∀ answer ∈ s.answers, ∃ batch, answer = .ok batch) ∧ s.delivered <+: events ∧
    ∀ tail, s.tail = some tail → s.file.hidden = [] → ∀ limit calls, 0 < limit →
      ∃ batch, (tail.poll crc32 limit calls s.file).2.2 = .ok batch ∧
        batch = (events.drop s.delivered.length).take limit ∧
        (batch = [] → s.delivered = events ∧ (tail.poll crc32 limit calls s.file).1.offset = journal.sink.sink.length) := by
  have hbytes : journal.sink.sink = journal_bytes crc32 run_id events := by
    rw [← hjournal.written.1, BufWriter.written, hflushed, List.append_nil]
  rw [hbytes] at hs
  have h := TailRun.following hs
  refine ⟨h.answers, by rw [h.delivered]; exact List.take_prefix _ _, fun tail htail hhidden limit calls hlimit => ?_⟩
  obtain ⟨n, j, -, hpoll, hat, hall⟩ := (h.tail tail htail).poll h.file limit calls
  have hj : j = min limit (events.length - s.delivered.length) := hall (by rw [GrowingFile.grow, hhidden, List.drop_nil])
  have hbatch : (events.drop s.delivered.length).take j = (events.drop s.delivered.length).take limit := by
    rw [hj, ← List.length_drop, ← List.take_eq_take_min]
  refine ⟨_, by rw [hpoll], hbatch, fun hnil => ?_⟩
  -- With a positive limit nothing is returned only if nothing is left.
  have hle := (h.tail tail htail).le
  have hzero : j = 0 ∧ s.delivered.length = events.length := by
    have hlength := congrArg List.length hnil
    rw [List.length_take, List.length_drop, List.length_nil] at hlength
    omega
  refine ⟨by rw [h.delivered, hzero.2, List.take_length], ?_⟩
  rw [hat.offset, hzero.1, hzero.2, Nat.add_zero, boundary_length, hbytes, journal_bytes, List.length_append,
    length_journal_header]

/-- A journal of one state event, all of it flushed. -/
def smallJournal : JournalWriter :=
  ((JournalWriter.append (fun _ => 7) (JournalWriter.with_sink 16 5 24 24).1 (.State ⟨1, 1, 0, .KillSwitchEngaged⟩)
    [4, 30, 4]).1.flush 100).1

/-- The file grows into the record, which a poll holds back, and then to its end. -/
def smallTail : Option TailRun :=
  walk (TailRun.step fun _ => 7) (fun _ _ => True) (.start smallJournal.sink.sink)
    [.grow 20, .open [⟨7, 2⟩, ⟨0, 8⟩, ⟨3, 30⟩], .poll 3 [⟨2, 1⟩], .grow 100]

theorem tail_delivers_journal_small :
    ∃ s tail, smallTail = some s ∧ s.tail = some tail ∧ s.file.hidden = [] ∧ s.answers = [.ok []] ∧
      ∃ batch, (tail.poll (fun _ => 7) 3 [] s.file).2.2 = .ok batch ∧
        batch = ([.State ⟨1, 1, 0, .KillSwitchEngaged⟩].drop s.delivered.length).take 3 := by
  have hjournal : Journaled (fun _ => 7) 16 5 [.State ⟨1, 1, 0, .KillSwitchEngaged⟩] smallJournal :=
    .flush (.append (.with_sink (Prod.ext rfl (by decide +kernel))) (Prod.ext rfl (by decide +kernel)))
      (Prod.ext rfl (by decide +kernel))
  have hwalk : smallTail = some (smallTail.get (by decide +kernel)) := (Option.some_get _).symm
  have htail : (smallTail.get (by decide +kernel)).tail =
      some ((smallTail.get (by decide +kernel)).tail.get (by decide +kernel)) := (Option.some_get _).symm
  have hhidden : (smallTail.get (by decide +kernel)).file.hidden = [] := by decide +kernel
  obtain ⟨batch, hpoll, hbatch, -⟩ := (tail_delivers_journal hjournal (by decide +kernel) (reach_of_walk hwalk)).2.2 _ htail
    hhidden 3 [] (by decide)
  exact ⟨_, _, hwalk, htail, hhidden, by decide +kernel, batch, hpoll, hbatch⟩

end Tail

end TradingLab
