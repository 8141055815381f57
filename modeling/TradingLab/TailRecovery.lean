import TradingLab.JournalTail
/-!
# Two readers of a journal

`read_journal` and `JournalTail` check records the same way, and part at what is
wrong with them: the first keeps what it has, the second fails the whole batch. So
the records in front of a corrupt one are lost to a reader that asks for more than
there are.
-/
open LabLib

namespace TradingLab

section Scan
variable (crc32 : List UInt8 → UInt32)

/-- What is found at the start of some bytes of a journal. -/
inductive RecordAt where
  | none
  | incomplete
  | corrupt
  | complete (event : OutputEvent) (stop : Nat)
deriving DecidableEq

def record_at (bytes : List UInt8) : RecordAt :=
  if bytes = [] then .none
  else if bytes.length < 4 then .incomplete
  else
    let len : UInt32 := from_le_bytes (bytes.take 4)
    if len = 0 ∨ MAX_RECORD_LEN < len then .corrupt
    else
      let stop := 4 + len.toNat + 4
      if bytes.length < stop then .incomplete
      else
        let payload := (bytes.drop 4).take len.toNat
        let stored : UInt32 := from_le_bytes ((bytes.drop (4 + len.toNat)).take 4)
        if stored ≠ crc32 payload then .corrupt
        else
          match decode_output payload with
          | .ok (event, consumed) => if consumed = payload.length then .complete event stop else .corrupt
          | .error _ => .corrupt

/-- The bytes are these complete records, and `rest` behind them is not another one. -/
inductive Scanned : List UInt8 → List OutputEvent → List UInt8 → Prop
  | stop {rest : List UInt8} : (∀ event stop, record_at crc32 rest ≠ .complete event stop) → Scanned rest [] rest
  | record {bytes rest : List UInt8} {event : OutputEvent} {stop : Nat} {events : List OutputEvent} :
      record_at crc32 bytes = .complete event stop → Scanned (bytes.drop stop) events rest →
      Scanned bytes (event :: events) rest

variable {crc32}

/-- What can be found: nothing only where nothing is, and a complete record within the bytes. -/
inductive RecordAt.Found (bytes : List UInt8) : RecordAt → Prop
  | none : bytes = [] → Found bytes .none
  | incomplete : bytes ≠ [] → Found bytes .incomplete
  | corrupt : bytes ≠ [] → Found bytes .corrupt
  | complete {event : OutputEvent} {stop : Nat} : bytes ≠ [] → 0 < stop → stop ≤ bytes.length →
      Found bytes (.complete event stop)

variable (crc32) in
theorem record_at_found (bytes : List UInt8) : RecordAt.Found bytes (record_at crc32 bytes) := by
  unfold record_at
  split
  · exact .none ‹_›
  rename_i hne
  split
  · exact .incomplete hne
  dsimp only
  split
  · exact .corrupt hne
  split
  · exact .incomplete hne
  rename_i hlong
  split
  · exact .corrupt hne
  split
  · split
    · exact .complete hne (by omega) (by omega)
    · exact .corrupt hne
  · exact .corrupt hne

theorem record_at_complete {bytes : List UInt8} {event : OutputEvent} {stop : Nat}
    (h : record_at crc32 bytes = .complete event stop) : 0 < stop ∧ stop ≤ bytes.length := by
  have hfound := record_at_found crc32 bytes
  rw [h] at hfound
  cases hfound with
  | complete _ hpos hle => exact ⟨hpos, hle⟩

theorem record_at_none {bytes : List UInt8} : record_at crc32 bytes = .none ↔ bytes = [] := by
  constructor
  · intro h
    have hfound := record_at_found crc32 bytes
    rw [h] at hfound
    cases hfound with
    | none hnil => exact hnil
  · rintro rfl
    rfl

theorem exists_scanned (bytes : List UInt8) : ∃ events rest, Scanned crc32 bytes events rest := by
  induction hn : bytes.length using Nat.strongRecOn generalizing bytes with
  | ind n ih =>
    by_cases hcomplete : ∃ event stop, record_at crc32 bytes = .complete event stop
    · obtain ⟨event, stop, h⟩ := hcomplete
      obtain ⟨hpos, hle⟩ := record_at_complete h
      obtain ⟨events, rest, hscan⟩ := ih (bytes.drop stop).length (by rw [List.length_drop]; omega) _ rfl
      exact ⟨_, _, .record h hscan⟩
    · exact ⟨[], bytes, .stop fun event stop h => hcomplete ⟨event, stop, h⟩⟩

theorem Scanned.length_le {bytes rest : List UInt8} {events : List OutputEvent} (h : Scanned crc32 bytes events rest) :
    rest.length ≤ bytes.length := by
  induction h with
  | stop => exact le_rfl
  | record _ _ ih =>
    rw [List.length_drop] at ih
    omega

theorem Scanned.stopped {bytes rest : List UInt8} {events : List OutputEvent} (h : Scanned crc32 bytes events rest) :
    Scanned crc32 rest [] rest := by
  induction h with
  | stop hstop => exact .stop hstop
  | record _ _ ih => exact ih

/-! ## Recovery -/

theorem read_records_eq (fuel offset : Nat) (bytes : List UInt8) :
    read_records crc32 (fuel + 1) offset bytes =
      match record_at crc32 bytes with
      | .none => ([], none)
      | .incomplete => ([], some offset)
      | .corrupt => ([], some offset)
      | .complete event stop =>
        let (events, truncated_at) := read_records crc32 fuel (offset + stop) (bytes.drop stop)
        (event :: events, truncated_at) := by
  rw [read_records, record_at]
  split
  · rfl
  split
  · rfl
  dsimp only
  split
  · rfl
  split
  · rfl
  split
  · rfl
  cases decode_output ((bytes.drop 4).take (from_le_bytes (bytes.take 4) : UInt32).toNat) with
  | error error => rfl
  | ok x =>
    dsimp only
    split <;> rfl

/-- Recovery returns the complete records, and stops at what comes behind them, if there is anything. -/
theorem Scanned.read_records {bytes rest : List UInt8} {events : List OutputEvent} (h : Scanned crc32 bytes events rest)
    {fuel : Nat} (hfuel : bytes.length ≤ fuel) (offset : Nat) :
    read_records crc32 fuel offset bytes =
      (events, if rest = [] then none else some (offset + (bytes.length - rest.length))) := by
  induction h generalizing fuel offset with
  | @stop rest hstop =>
    cases fuel with
    | zero =>
      obtain rfl : rest = [] := List.length_eq_zero_iff.1 (by omega)
      rfl
    | succ fuel =>
      rw [read_records_eq, Nat.sub_self, Nat.add_zero]
      have hnil : record_at crc32 rest = .none ↔ rest = [] := record_at_none
      cases hat : record_at crc32 rest with
      | none => rw [if_pos (hnil.1 hat)]
      | incomplete => rw [if_neg fun hrest => by rw [hnil.2 hrest] at hat; cases hat]
      | corrupt => rw [if_neg fun hrest => by rw [hnil.2 hrest] at hat; cases hat]
      | complete event stop => exact absurd hat (hstop event stop)
  | @record bytes rest event stop events hat hrest ih =>
    obtain ⟨hpos, hle⟩ := record_at_complete hat
    have hshort := hrest.length_le
    rw [List.length_drop] at hshort
    cases fuel with
    | zero => omega
    | succ fuel =>
      rw [read_records_eq, hat]
      dsimp only
      rw [ih (by rw [List.length_drop]; omega), List.length_drop]
      have hoffset : offset + stop + (bytes.length - stop - rest.length) = offset + (bytes.length - rest.length) := by
        omega
      rw [hoffset]

/-! ## The tail -/

theorem tail_records_eq (offset limit consumed : Nat) (rest : List UInt8) :
    tail_records crc32 offset (limit + 1) consumed rest =
      match record_at crc32 rest with
      | .none => .ok ([], consumed)
      | .incomplete => .ok ([], consumed)
      | .corrupt => .error (.Corrupt (offset + consumed))
      | .complete event stop =>
        match tail_records crc32 offset limit (consumed + stop) (rest.drop stop) with
        | .ok (events, consumed) => .ok (event :: events, consumed)
        | .error e => .error e := by
  rw [tail_records, record_at]
  by_cases hnil : rest = []
  · subst hnil
    rfl
  rw [if_neg hnil]
  split
  · rfl
  dsimp only
  split
  · rfl
  split
  · rfl
  split
  · rfl
  cases decode_output ((rest.drop 4).take (from_le_bytes (rest.take 4) : UInt32).toNat) with
  | error error => rfl
  | ok x =>
    dsimp only
    split <;> rfl

section Loop
variable {bytes rest : List UInt8} {events : List OutputEvent} (offset : Nat)

/-- The loop returns as many records as it may. -/
theorem Scanned.tail_within (h : Scanned crc32 bytes events rest) {limit : Nat} (hlimit : limit ≤ events.length)
    (consumed : Nat) :
    ∃ used, tail_records crc32 offset limit consumed bytes = .ok (events.take limit, consumed + used) ∧
      used ≤ bytes.length ∧ Scanned crc32 (bytes.drop used) (events.drop limit) rest := by
  induction h generalizing limit consumed with
  | @stop rest hstop =>
    obtain rfl : limit = 0 := Nat.le_zero.1 hlimit
    exact ⟨0, rfl, Nat.zero_le _, .stop hstop⟩
  | @record bytes rest event stop events hat hrest ih =>
    obtain ⟨hpos, hle⟩ := record_at_complete hat
    cases limit with
    | zero => exact ⟨0, rfl, Nat.zero_le _, .record hat hrest⟩
    | succ limit =>
      obtain ⟨used, htail, hused, hscan⟩ := ih (Nat.le_of_succ_le_succ hlimit) (consumed + stop)
      rw [List.length_drop] at hused
      rw [List.drop_drop] at hscan
      refine ⟨stop + used, ?_, by omega, hscan⟩
      rw [tail_records_eq, hat]
      dsimp only
      rw [htail, Nat.add_assoc]
      rfl

/-- If it may return more than there are, it fails at a corrupt one behind them. -/
theorem Scanned.tail_corrupt (h : Scanned crc32 bytes events rest) {limit : Nat} (hlimit : events.length < limit)
    (hcorrupt : record_at crc32 rest = .corrupt) (consumed : Nat) :
    tail_records crc32 offset limit consumed bytes =
      .error (.Corrupt (offset + consumed + (bytes.length - rest.length))) := by
  induction h generalizing limit consumed with
  | stop hstop =>
    cases limit with
    | zero => cases hlimit
    | succ limit =>
      rw [tail_records_eq, hcorrupt, Nat.sub_self]
      rfl
  | @record bytes rest event stop events hat hrest ih =>
    obtain ⟨hpos, hle⟩ := record_at_complete hat
    have hshort := hrest.length_le
    rw [List.length_drop] at hshort
    cases limit with
    | zero => cases hlimit
    | succ limit =>
      have hoffset : offset + (consumed + stop) + (bytes.length - stop - rest.length) =
          offset + consumed + (bytes.length - rest.length) := by omega
      rw [tail_records_eq, hat]
      dsimp only
      rw [ih (Nat.lt_of_succ_lt_succ hlimit) hcorrupt, List.length_drop, hoffset]

/-- Otherwise it returns all of them. -/
theorem Scanned.tail_all (h : Scanned crc32 bytes events rest) {limit : Nat} (hlimit : events.length < limit)
    (hcorrupt : record_at crc32 rest ≠ .corrupt) (consumed : Nat) :
    ∃ used, tail_records crc32 offset limit consumed bytes = .ok (events, consumed + used) ∧ used ≤ bytes.length ∧
      bytes.drop used = rest := by
  induction h generalizing limit consumed with
  | @stop rest hstop =>
    cases limit with
    | zero => cases hlimit
    | succ limit =>
      refine ⟨0, ?_, Nat.zero_le _, rfl⟩
      rw [tail_records_eq]
      cases hat : record_at crc32 rest with
      | none => rfl
      | incomplete => rfl
      | corrupt => exact absurd hat hcorrupt
      | complete event stop => exact absurd hat (hstop event stop)
  | @record bytes rest event stop events hat hrest ih =>
    obtain ⟨hpos, hle⟩ := record_at_complete hat
    cases limit with
    | zero => cases hlimit
    | succ limit =>
      obtain ⟨used, htail, hused, hdrop⟩ := ih (Nat.lt_of_succ_lt_succ hlimit) hcorrupt (consumed + stop)
      rw [List.length_drop] at hused
      rw [List.drop_drop] at hdrop
      refine ⟨stop + used, ?_, by omega, hdrop⟩
      rw [tail_records_eq, hat]
      dsimp only
      rw [htail, Nat.add_assoc]

end Loop

/-! ## Polls of a file that does not grow -/

/-- How a reader that polls until there is nothing more comes to its end. -/
inductive TailStop where
  | empty
  | failed (error : JournalError)
deriving DecidableEq

variable (crc32) in
/-- Polls one after the other, up to the first one that is empty or fails. Each has its limit, and its calls of `read`. -/
def JournalTail.drain (tail : JournalTail) (file : GrowingFile UInt8) :
    List (Nat × List ReadCall) → List OutputEvent × Option TailStop
  | [] => ([], none)
  | (limit, calls) :: polls =>
    match tail.poll crc32 limit calls file with
    | (_, _, .error e) => ([], some (.failed e))
    | (_, _, .ok []) => ([], some .empty)
    | (tail, file, .ok (event :: batch)) =>
      let (events, stop) := tail.drain file polls
      (event :: batch ++ events, stop)

/-- What the first `k` polls may return. -/
def asked (polls : List (Nat × List ReadCall)) (k : Nat) : Nat := ((polls.take k).map Prod.fst).sum

variable {tail : JournalTail} {bytes rest : List UInt8} {events : List OutputEvent}

/-- A tail of a file with these bytes; behind its offset are the complete records `events` and then `rest`. -/
structure JournalTail.Before (tail : JournalTail) (crc32 : List UInt8 → UInt32) (bytes : List UInt8)
    (events : List OutputEvent) (rest : List UInt8) : Prop where
  offset_le : tail.offset ≤ tail.position
  position_le : tail.position ≤ bytes.length
  pending : tail.pending = (bytes.take tail.position).drop tail.offset
  scanned : Scanned crc32 (bytes.drop tail.offset) events rest

theorem JournalTail.Before.poll (h : tail.Before crc32 bytes events rest) (limit : Nat) (calls : List ReadCall) :
    tail.poll crc32 limit calls ⟨bytes, []⟩ =
      match tail_records crc32 tail.offset limit 0 (bytes.drop tail.offset) with
      | .ok (events, consumed) => (tail.advanced bytes consumed, ⟨bytes, []⟩, .ok events)
      | .error e => (tail.caught_up bytes, ⟨bytes, []⟩, .error e) := by
  obtain ⟨n, hpoll⟩ := @JournalTail.poll_reads crc32 tail ⟨bytes, []⟩ h.offset_le h.position_le h.pending limit calls
  have hgrow : GrowingFile.grow ⟨bytes, []⟩ n = ⟨bytes, []⟩ := by simp [GrowingFile.grow]
  rw [hgrow] at hpoll
  exact hpoll

/-- After a poll that returned some records the tail stands behind them. -/
theorem JournalTail.Before.moved (h : tail.Before crc32 bytes events rest) {used : Nat}
    (hused : used ≤ (bytes.drop tail.offset).length) {others : List OutputEvent}
    (hscan : Scanned crc32 ((bytes.drop tail.offset).drop used) others rest) :
    (tail.advanced bytes used).Before crc32 bytes others rest := by
  have hle := h.offset_le.trans h.position_le
  rw [List.length_drop] at hused
  rw [List.drop_drop] at hscan
  refine ⟨?_, le_rfl, ?_, hscan⟩
  · dsimp only [JournalTail.advanced, JournalTail.caught_up]
    omega
  · dsimp only [JournalTail.advanced, JournalTail.caught_up]
    rw [List.drop_drop, List.take_length]

/-- How a reader of a complete file ends: with all complete records when a poll is empty, and at the offset behind
them when one fails; then the limits decide whether it has all of them. -/
structure Drained (crc32 : List UInt8 → UInt32) (bytes : List UInt8) (events : List OutputEvent) (rest : List UInt8)
    (polls : List (Nat × List ReadCall)) (result : List OutputEvent × Option TailStop) : Prop where
  empty : result.2 = some .empty → result.1 = events ∧ record_at crc32 rest ≠ .corrupt
  failed : ∀ error, result.2 = some (.failed error) → error = .Corrupt (bytes.length - rest.length) ∧
    record_at crc32 rest = .corrupt ∧ (result.1 = events ↔ ∃ k, asked polls k = events.length)
  stops : events.length < polls.length → result.2 ≠ none

theorem asked_cons (limit : Nat) (calls : List ReadCall) (polls : List (Nat × List ReadCall)) (k : Nat) :
    asked ((limit, calls) :: polls) (k + 1) = limit + asked polls k := by
  simp [asked]

theorem JournalTail.Before.drain (h : tail.Before crc32 bytes events rest) {polls : List (Nat × List ReadCall)}
    (hpos : ∀ poll ∈ polls, 0 < poll.1) : Drained crc32 bytes events rest polls (tail.drain crc32 ⟨bytes, []⟩ polls) := by
  induction polls generalizing tail events with
  | nil => exact ⟨nofun, nofun, nofun⟩
  | cons poll polls ih =>
    obtain ⟨limit, calls⟩ := poll
    obtain ⟨hlimit, hpos'⟩ := List.forall_mem_cons.1 hpos
    dsimp only at hlimit
    have hstart := h.scanned.length_le
    have hle := h.offset_le.trans h.position_le
    rw [List.length_drop] at hstart
    rw [JournalTail.drain, h.poll]
    rcases Nat.lt_or_ge events.length limit with hmany | hfew
    · by_cases hcorrupt : record_at crc32 rest = .corrupt
      · rw [h.scanned.tail_corrupt tail.offset hmany hcorrupt]
        refine ⟨nofun, fun error he => ?_, nofun⟩
        cases he
        refine ⟨?_, hcorrupt, ?_⟩
        · rw [List.length_drop]
          congr 1
          omega
        · constructor
          · rintro rfl
            exact ⟨0, rfl⟩
          · rintro ⟨k, hk⟩
            cases k with
            | zero => exact (List.length_eq_zero_iff.1 hk.symm).symm
            | succ k =>
              rw [asked_cons] at hk
              omega
      · obtain ⟨used, htail, hused, hdrop⟩ := h.scanned.tail_all tail.offset hmany hcorrupt 0
        rw [htail, Nat.zero_add]
        cases events with
        | nil => exact ⟨fun _ => ⟨rfl, hcorrupt⟩, nofun, nofun⟩
        | cons event events =>
          have hnext := h.moved hused (by rw [hdrop]; exact h.scanned.stopped)
          have hrest := ih hnext hpos'
          dsimp only
          refine ⟨fun hempty => ?_, fun error he => ?_, fun hlong => hrest.stops ?_⟩
          · rw [(hrest.empty hempty).1, List.append_nil]
            exact ⟨rfl, hcorrupt⟩
          · exact absurd (hrest.failed error he).2.1 hcorrupt
          · rw [List.length_cons, List.length_cons] at hlong
            rw [List.length_nil]
            omega
    · obtain ⟨used, htail, hused, hscan⟩ := h.scanned.tail_within tail.offset hfew 0
      rw [htail, Nat.zero_add]
      obtain ⟨event, batch, hbatch⟩ : ∃ event batch, events.take limit = event :: batch := by
        refine List.exists_cons_of_ne_nil fun hnil => ?_
        have := congrArg List.length hnil
        rw [List.length_take, List.length_nil] at this
        omega
      have hrest := ih (h.moved hused hscan) hpos'
      have hsplit := List.take_append_drop limit events
      rw [hbatch] at hsplit ⊢
      dsimp only
      refine ⟨fun hempty => ?_, fun error he => ?_, fun hlong => hrest.stops ?_⟩
      · rw [(hrest.empty hempty).1, hsplit]
        exact ⟨rfl, (hrest.empty hempty).2⟩
      · obtain ⟨herror, hcorrupt, hall⟩ := hrest.failed error he
        refine ⟨herror, hcorrupt, ?_⟩
        have hsame : event :: batch ++ (JournalTail.drain crc32 (tail.advanced bytes used) ⟨bytes, []⟩ polls).1 = events ↔
            (JournalTail.drain crc32 (tail.advanced bytes used) ⟨bytes, []⟩ polls).1 = events.drop limit := by
          nth_rewrite 1 [← hsplit]
          exact List.append_right_inj _
        rw [hsame, hall, List.length_drop]
        constructor
        · rintro ⟨k, hk⟩
          exact ⟨k + 1, by rw [asked_cons]; omega⟩
        · rintro ⟨k, hk⟩
          cases k with
          | zero =>
            rw [asked, List.take_zero, List.map_nil, List.sum_nil] at hk
            omega
          | succ k =>
            rw [asked_cons] at hk
            exact ⟨k, by omega⟩
      · rw [List.length_cons] at hlong
        rw [List.length_drop]
        omega

/-! ## The two readers -/

/-- The header of a journal, with any run. -/
structure ValidHeader (bytes : List UInt8) : Prop where
  long : HEADER_LEN ≤ bytes.length
  magic : bytes.take 4 = MAGIC
  version : from_le_bytes ((bytes.drop 4).take 2) = VERSION

/-- Recovery of a file with a valid header. -/
theorem Scanned.read_journal (h : Scanned crc32 (bytes.drop HEADER_LEN) events rest) (hheader : ValidHeader bytes) :
    read_journal crc32 bytes = .ok {
      run_id := from_le_bytes ((bytes.drop 8).take 16)
      events := events
      truncated_at := if rest = [] then none else some (bytes.length - rest.length) } := by
  have hlong := hheader.long
  have hlength := h.length_le
  rw [List.length_drop] at hlength
  rw [TradingLab.read_journal, if_neg (by omega), if_neg (by simp [hheader.magic, hheader.version]),
    h.read_records (by rw [List.length_drop]; omega), List.length_drop]
  have hoffset : HEADER_LEN + (bytes.length - HEADER_LEN - rest.length) = bytes.length - rest.length := by omega
  rw [hoffset]

/-- A file with a valid header is opened at its first record. -/
theorem ValidHeader.opens (h : ValidHeader bytes) (calls : List ReadCall) :
    JournalTail.open calls ⟨bytes, []⟩ = (.ok ⟨HEADER_LEN, HEADER_LEN, [], 0⟩, ⟨bytes, []⟩) := by
  obtain ⟨n, hgrown, hread⟩ := @GrowingFile.read_exact_reads _ ⟨bytes, []⟩ calls HEADER_LEN
  have hgrow : GrowingFile.grow ⟨bytes, []⟩ n = ⟨bytes, []⟩ := by simp [GrowingFile.grow]
  rw [hgrow] at hgrown hread
  rw [if_neg (Nat.not_lt.2 h.long)] at hread
  rw [JournalTail.open, ← Prod.mk.eta (p := GrowingFile.read_exact HEADER_LEN calls ⟨bytes, []⟩), hgrown, hread]
  have hmagic' : (bytes.take HEADER_LEN).take 4 = MAGIC := by rw [List.take_take]; exact h.magic
  have hversion' : from_le_bytes (((bytes.take HEADER_LEN).drop 4).take 2) = VERSION := by
    rw [List.drop_take, List.take_take]
    exact h.version
  dsimp only
  rw [hmagic', hversion', if_neg (by simp)]

theorem ValidHeader.before (h : ValidHeader bytes) (hscan : Scanned crc32 (bytes.drop HEADER_LEN) events rest) :
    JournalTail.Before ⟨HEADER_LEN, HEADER_LEN, [], 0⟩ crc32 bytes events rest := by
  refine ⟨le_rfl, h.long, ?_, hscan⟩
  rw [List.drop_eq_nil_of_le (by rw [List.length_take]; exact Nat.min_le_left _ _)]

/-- Every file with a valid header is intact records with some `rest` behind them. A tail of it, polled until a poll is
empty or fails, fails only where recovery stops. It returns what recovery returns just if `rest` is nothing or the start
of a record, or some number of the polls ask for just the intact records: a poll that asks for more loses those in front
of invalid bytes. -/
theorem tail_reads_journal_iff (hheader : ValidHeader bytes) (calls : List ReadCall)
    {polls : List (Nat × List ReadCall)} (hpos : ∀ poll ∈ polls, 0 < poll.1) :
    (∃ intact rest, Scanned crc32 (bytes.drop HEADER_LEN) intact rest) ∧
    ∀ intact rest, Scanned crc32 (bytes.drop HEADER_LEN) intact rest →
      ∃ recovery tail file, read_journal crc32 bytes = .ok recovery ∧
        JournalTail.open calls ⟨bytes, []⟩ = (.ok tail, file) ∧
        (intact.length < polls.length → (tail.drain crc32 file polls).2 ≠ none) ∧
        ∀ events stop, tail.drain crc32 file polls = (events, some stop) →
          (∀ error, stop = .failed error → ∃ offset, error = .Corrupt offset ∧ recovery.truncated_at = some offset) ∧
          (events = recovery.events ↔ record_at crc32 rest ≠ .corrupt ∨ ∃ k, asked polls k = intact.length) := by
  refine ⟨exists_scanned _, fun intact rest hscan => ?_⟩
  have hdrained := (hheader.before hscan).drain hpos
  refine ⟨_, _, _, hscan.read_journal hheader, hheader.opens calls, hdrained.stops, fun events stop hdrain => ?_⟩
  rw [hdrain] at hdrained
  cases stop with
  | empty =>
    obtain ⟨hevents, hcorrupt⟩ := hdrained.empty rfl
    refine ⟨fun error herror => (by cases herror), fun _ => .inl hcorrupt, fun _ => hevents⟩
  | failed error =>
    obtain ⟨rfl, hcorrupt, hall⟩ := hdrained.failed error rfl
    refine ⟨fun error herror => ?_, fun hevents => .inr (hall.1 hevents), ?_⟩
    · cases herror
      refine ⟨_, rfl, if_neg ?_⟩
      rintro rfl
      cases hcorrupt
    · rintro (hclean | hasked)
      · exact absurd hcorrupt hclean
      · exact hall.2 hasked

/-! ## A lost record -/

section Damaged
variable (crc32)

theorem record_at_record (event : OutputEvent) (rest : List UInt8) :
    record_at crc32 (journal_record crc32 event ++ rest) = .complete event (journal_record crc32 event).length := by
  obtain ⟨hlen, hbound⟩ := payload_len event
  have h := startsWith_record crc32 event rest
  have hlength := h.length
  rw [record_at, if_neg (List.ne_nil_of_length_pos (by omega)), if_neg (by omega), h.len, if_neg hbound]
  simp only [hlen]
  rw [if_neg (by omega), h.payload, h.stored, if_neg (by simp), h.decodes]
  simp only [if_true, length_journal_record]

/-- One record, and four bytes behind it that start none. -/
def damagedJournal : List UInt8 :=
  journal_header 5 ++ (journal_record crc32 (.State ⟨1, 1, 0, .KillSwitchEngaged⟩) ++ [0, 0, 0, 0])

theorem scanned_damagedJournal :
    Scanned crc32 ((damagedJournal crc32).drop HEADER_LEN) [.State ⟨1, 1, 0, .KillSwitchEngaged⟩] [0, 0, 0, 0] := by
  rw [damagedJournal, List.drop_left' (length_journal_header 5)]
  refine .record (record_at_record crc32 _ _) ?_
  rw [List.drop_left]
  exact .stop fun event stop h => by cases h

theorem validHeader_damagedJournal : ValidHeader (damagedJournal crc32) where
  long := by
    rw [damagedJournal, List.length_append, length_journal_header]
    omega
  magic := by rw [damagedJournal, magic_journal_header]
  version := by rw [damagedJournal, version_journal_header]

end Damaged

end Scan

/-- A poll that asks for the one intact record gets it, and the next one fails. -/
theorem tail_reads_journal_small :
    ∃ recovery tail file, read_journal (fun _ => 7) (damagedJournal fun _ => 7) = .ok recovery ∧
      JournalTail.open [⟨0, 30⟩] ⟨damagedJournal fun _ => 7, []⟩ = (.ok tail, file) ∧
      ∀ events stop, tail.drain (fun _ => 7) file [(1, []), (2, [])] = (events, some stop) → events = recovery.events := by
  have hpos : ∀ poll ∈ [(1, []), (2, ([] : List ReadCall))], 0 < poll.1 := by decide
  obtain ⟨recovery, tail, file, hread, hopen, -, hall⟩ := (tail_reads_journal_iff
    (validHeader_damagedJournal fun _ => 7) [⟨0, 30⟩] hpos).2 _ _ (scanned_damagedJournal fun _ => 7)
  exact ⟨recovery, tail, file, hread, hopen, fun events stop hdrain => (hall events stop hdrain).2.2 (.inr ⟨1, rfl⟩)⟩

/-- With any checksum: recovery returns the record, and a tail asked for two of them fails without it. -/
theorem damaged_tail_fails (crc32 : List UInt8 → UInt32) :
    ∃ recovery tail file, read_journal crc32 (damagedJournal crc32) = .ok recovery ∧
      JournalTail.open [] ⟨damagedJournal crc32, []⟩ = (.ok tail, file) ∧
      tail.drain crc32 file [(2, [])] = ([], some (.failed (.Corrupt ((damagedJournal crc32).length - 4)))) ∧
      recovery.events = [.State ⟨1, 1, 0, .KillSwitchEngaged⟩] := by
  have hheader := validHeader_damagedJournal crc32
  have hscan := scanned_damagedJournal crc32
  refine ⟨_, _, _, hscan.read_journal hheader, hheader.opens [], ?_, rfl⟩
  rw [JournalTail.drain, (hheader.before hscan).poll, hscan.tail_corrupt _ (by decide) rfl]
  have hfour : ([0, 0, 0, 0] : List UInt8).length = 4 := rfl
  have hlength : 4 ≤ ((damagedJournal crc32).drop HEADER_LEN).length := hscan.length_le
  have hoffset : HEADER_LEN + 0 + (((damagedJournal crc32).drop HEADER_LEN).length - 4) =
      (damagedJournal crc32).length - 4 := by
    rw [List.length_drop] at hlength ⊢
    omega
  dsimp only
  rw [hfour, hoffset]

/-- Of 62 bytes the last four are no record: the tail fails at byte 58 and does not return the record before it. -/
theorem tail_loses_record :
    ∃ recovery tail file, read_journal (fun _ => 0) (damagedJournal fun _ => 0) = .ok recovery ∧
      JournalTail.open [] ⟨damagedJournal fun _ => 0, []⟩ = (.ok tail, file) ∧
      tail.drain (fun _ => 0) file [(2, [])] =
        ([], some (.failed (.Corrupt ((damagedJournal fun _ => 0).length - 4)))) ∧
      recovery.events = [.State ⟨1, 1, 0, .KillSwitchEngaged⟩] :=
  damaged_tail_fails fun _ => 0

end TradingLab
