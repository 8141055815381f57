import TradingLab.Recording
/-!
# What a reader of the journal sees

`JournalSync`: how far the file may lag behind what the output thread has recorded. The
thread counts the records since its last flush; everything before them is in the file,
whatever else the buffer has already given out. A group is flushed when it is full, and
when there is nothing more to take from the queue, before the thread waits.
-/
open LabLib

namespace TradingLab

section Visibility
variable {crc32 : List UInt8 → UInt32} {launch : Launch} {n m : Nat} {s s' : Pipeline n m} {run_id : U128} {sync : JournalSync}
  {thread : OutputThread} {disk : Disk}
variable {pc : OutputPc} {capacity k : Nat}

/-! ## The writer -/

theorem write_parts_sink {sink sink' : BufWriter UInt8} {parts : List (List UInt8)} {takes : List Nat} {ok : Bool}
    (h : write_parts sink parts takes = (sink', ok)) : sink.sink <+: sink'.sink := by
  induction parts generalizing sink takes with
  | nil =>
    cases h
    exact List.prefix_rfl
  | cons part parts ih =>
    rw [write_parts] at h
    split at h
    · rename_i hwrite
      exact (BufWriter.write_all_sink hwrite).trans (ih h)
    · rename_i hwrite
      cases h
      exact BufWriter.write_all_sink hwrite

theorem JournalWriter.append_sink {journal journal' : JournalWriter} {event : OutputEvent} {takes : List Nat} {ok : Bool}
    (h : journal.append crc32 event takes = (journal', ok)) : journal.sink.sink <+: journal'.sink.sink := by
  rw [JournalWriter.append] at h
  split at h <;>
  · rename_i hwrite
    cases h
    exact write_parts_sink hwrite

theorem JournalWriter.flush_empties {journal journal' : JournalWriter} {takes : Nat}
    (h : journal.flush takes = (journal', true)) : journal'.sink.buffer = [] := by
  rw [JournalWriter.flush] at h
  cases hflush : journal.sink.flush_buf takes with
  | mk sink ok =>
    rw [hflush] at h
    cases h
    exact (BufWriter.flush_buf_written hflush).2 rfl

/-- A new journal is flushed with its header. -/
theorem Journaled.empty_buffer {events : List OutputEvent} {journal : JournalWriter}
    (h : Journaled crc32 capacity run_id events journal) (hevents : events = []) : journal.sink.buffer = [] := by
  induction h with
  | with_sink h =>
    rw [JournalWriter.with_sink] at h
    split at h
    · exact JournalWriter.flush_empties h
    · cases h
  | append => exact absurd hevents (by simp)
  | flush _ h => exact JournalWriter.flush_empties h

/-! ## The lag -/

/-- How many records a thread may have appended since it last flushed. -/
def JournalSync.allows (sync : JournalSync) (pc : OutputPc) (since_flush : Nat) : Prop :=
  match sync with
  | .Buffered => True
  | .GroupCommit records =>
    match pc with
    | .group => since_flush ≤ max records 1
    | .receive _ => since_flush = 0
    | _ => since_flush < max records 1
  | .Durable =>
    match pc with
    | .group => since_flush ≤ 1
    | _ => since_flush = 0

theorem allows_of_poll (h : sync.allows .poll k) (hpc : pc = .drained ∨ ∃ event, pc = .record event) :
    sync.allows pc k := by
  rcases hpc with rfl | ⟨event, rfl⟩ <;> cases sync <;> exact h

/-- With nothing to flush a thread may go on. -/
theorem allows_of_receive {look : RecvAt} (h : sync.allows (.receive look) k) (hpc : pc ≠ .group) :
    sync.allows pc k := by
  cases sync with
  | Buffered => trivial
  | GroupCommit records =>
    have hzero : k = 0 := h
    have hpos : 0 < max records 1 := Nat.lt_of_lt_of_le Nat.zero_lt_one (Nat.le_max_right _ _)
    rw [hzero]
    cases pc <;> first | exact hpos | exact rfl | exact absurd rfl hpc
  | Durable => cases pc <;> first | exact h | exact absurd rfl hpc

theorem allows_group {records k : Nat} (h : (JournalSync.GroupCommit records).allows pc k) :
    k ≤ max records 1 := by
  cases pc with
  | group => exact h
  | receive look =>
    rw [show k = 0 from h]
    exact Nat.zero_le _
  | _ => exact Nat.le_of_lt h

theorem allows_durable (h : JournalSync.Durable.allows pc k) : k ≤ 1 ∧ (pc ≠ .group → k = 0) := by
  cases pc with
  | group => exact ⟨h, fun hne => absurd rfl hne⟩
  | _ =>
    have hzero : k = 0 := h
    exact ⟨by omega, fun _ => hzero⟩

/-- All but the records since the last flush are in the file. -/
structure Flushed (crc32 : List UInt8 → UInt32) (run_id : U128) (sync : JournalSync) (thread : OutputThread) : Prop where
  counted : thread.since_flush ≤ thread.recorder.length
  shown : ∀ writer, thread.writer = some writer →
    journal_bytes crc32 run_id (thread.recorder.take (thread.recorder.length - thread.since_flush)) <+: writer.sink.sink
  allowed : sync.allows thread.pc thread.since_flush
  opened : thread.pc = .group → ∃ writer, thread.writer = some writer

/-- Nothing is recorded, and nothing taken out of the file. -/
theorem Flushed.goto (h : Flushed crc32 run_id sync thread) (hpc : pc ≠ .group)
    (hallowed : sync.allows pc thread.since_flush) : Flushed crc32 run_id sync { thread with pc := pc } :=
  ⟨h.counted, h.shown, hallowed, fun hgroup => absurd hgroup hpc⟩

/-- The writer flushed all it had. -/
theorem flushed_all (hwrote : Wrote crc32 run_id thread) (herror : thread.journal_error = false)
    {writer writer' : JournalWriter} (hwriter : thread.writer = some writer)
    (hwritten : writer'.sink.written = writer.sink.written) (hbuffer : writer'.sink.buffer = []) (hpc : pc ≠ .group)
    (hallowed : sync.allows pc 0) :
    Flushed crc32 run_id sync { thread with writer := some writer', since_flush := 0, pc := pc } := by
  refine ⟨Nat.zero_le _, fun w hw => ?_, hallowed, fun hgroup => absurd hgroup hpc⟩
  cases hw
  rw [BufWriter.written, hbuffer, List.append_nil, (hwrote.whole herror writer hwriter).1] at hwritten
  dsimp only
  rw [Nat.sub_zero, List.take_length, hwritten]

theorem Flushed.started (h : Flushed crc32 run_id sync thread) (hwrote : Wrote crc32 run_id thread)
    (hpc : thread.pc = .start) (hheaded : Headed crc32 launch capacity run_id) {path : Bool} :
    (thread.start launch.journal path launch.run_id disk).journal_error = false →
      Flushed crc32 run_id sync (thread.start launch.journal path launch.run_id disk) := by
  obtain ⟨hrecorder, hnone⟩ := hwrote.start hpc
  have hzero : thread.since_flush = 0 := Nat.le_zero.1 (by have hcounted := h.counted; rwa [hrecorder] at hcounted)
  have hallowed : sync.allows .poll thread.since_flush := by
    have hbefore := h.allowed
    rw [hpc] at hbefore
    exact hbefore
  have hopen : ∀ {capacity : Nat} {writer : JournalWriter}, Journaled crc32 capacity run_id [] writer →
      Flushed crc32 run_id sync { thread with writer := some writer, pc := .poll } := by
    intro capacity writer hjournaled
    refine ⟨h.counted, fun w hw => ?_, hallowed, fun hgroup => (by cases hgroup)⟩
    cases hw
    have hwritten := hjournaled.written.1
    rw [BufWriter.written, hjournaled.empty_buffer rfl, List.append_nil] at hwritten
    rw [hwritten, hrecorder, List.take_nil]
  cases hjournal : launch.journal with
  | some writer => exact fun _ => hopen (hheaded.given writer hjournal)
  | none =>
    cases path with
    | false => exact fun _ => ⟨h.counted, fun w hw => (by cases hnone.symm.trans hw), hallowed, fun hgroup => (by cases hgroup)⟩
    | true =>
      unfold OutputThread.start
      dsimp only
      split
      · split
        · rename_i writer hsink
          rw [hheaded.own hjournal] at hsink
          exact fun _ => hopen (.with_sink hsink)
        · exact fun hfails => by cases hfails
      · exact fun hfails => by cases hfails

theorem Flushed.published (h : Flushed crc32 run_id sync thread) (hwrote : Wrote crc32 run_id thread)
    (herror : thread.journal_error = false) (hpc : thread.pc = .drained) :
    (thread.publish sync disk).journal_error = false → Flushed crc32 run_id sync (thread.publish sync disk) := by
  have hallowed := h.allowed
  rw [hpc] at hallowed
  unfold OutputThread.publish
  cases sync with
  | Buffered => exact fun _ => h.goto (fun hgroup => by cases hgroup) trivial
  | Durable => exact fun _ => h.goto (fun hgroup => by cases hgroup) hallowed
  | GroupCommit records =>
    dsimp only
    split
    · split
      · rename_i writer hwriter
        split
        · rename_i writer' hflush
          exact fun _ => flushed_all hwrote herror hwriter (JournalWriter.flush_written hflush).1
            (JournalWriter.flush_empties hflush) (fun hgroup => by cases hgroup) rfl
        · exact fun hfails => by cases hfails
      · rename_i hnone
        exact fun _ => ⟨Nat.zero_le _, fun w hw => (by cases hnone.symm.trans hw), rfl, fun hgroup => (by cases hgroup)⟩
    · rename_i hzero
      exact fun _ => h.goto (fun hgroup => by cases hgroup) (Nat.eq_zero_of_not_pos hzero)

theorem Flushed.recorded (h : Flushed crc32 run_id sync thread) {event : OutputEvent} (hpc : thread.pc = .record event) :
    (thread.record crc32 event disk).journal_error = false → Flushed crc32 run_id sync (thread.record crc32 event disk) := by
  have hcounted := h.counted
  have hallowed := h.allowed
  rw [hpc] at hallowed
  have hlength : (thread.recorder ++ [event]).length = thread.recorder.length + 1 := List.length_append
  unfold OutputThread.record
  dsimp only
  split
  · rename_i hnone
    refine fun _ => ⟨?_, fun w hw => (by cases hnone.symm.trans hw), ?_, fun hgroup => (by cases hgroup)⟩
    · dsimp only
      omega
    · cases sync <;> exact hallowed
  · rename_i writer hwriter
    split
    · rename_i writer' happend
      refine fun _ => ⟨?_, fun w hw => ?_, ?_, fun _ => ⟨writer', rfl⟩⟩
      · dsimp only
        omega
      · cases hw
        dsimp only
        rw [hlength, Nat.add_sub_add_right, List.take_append_of_le_length (Nat.sub_le _ _)]
        exact (h.shown writer hwriter).trans (JournalWriter.append_sink happend)
      · cases sync with
        | Buffered => trivial
        | GroupCommit records => exact hallowed
        | Durable => exact Nat.succ_le_succ (Nat.le_of_eq hallowed)
    · exact fun hfails => by cases hfails

theorem Flushed.grouped (h : Flushed crc32 run_id sync thread) (hwrote : Wrote crc32 run_id thread)
    (herror : thread.journal_error = false) (hpc : thread.pc = .group) :
    (thread.group sync disk).journal_error = false → Flushed crc32 run_id sync (thread.group sync disk) := by
  obtain ⟨writer, hwriter⟩ := h.opened hpc
  have hallowed := h.allowed
  rw [hpc] at hallowed
  have hpoll : sync.allows .poll thread.since_flush → Flushed crc32 run_id sync { thread with pc := .poll } :=
    h.goto (fun hgroup => by cases hgroup)
  unfold OutputThread.group
  rw [hwriter] at hpoll ⊢
  dsimp only
  cases sync with
  | Buffered => exact fun _ => hpoll trivial
  | GroupCommit records =>
    dsimp only
    by_cases hdue : max records 1 ≤ thread.since_flush
    · rw [if_pos hdue]
      rcases hflush : writer.flush disk.flushed with ⟨writer', ok⟩
      cases ok with
      | false => exact fun hfails => by cases hfails
      | true =>
        exact fun _ => flushed_all hwrote herror hwriter (JournalWriter.flush_written hflush).1
          (JournalWriter.flush_empties hflush) (fun hgroup => by cases hgroup) (Nat.lt_of_lt_of_le Nat.zero_lt_one (Nat.le_max_right _ _))
    · rw [if_neg hdue]
      exact fun _ => hpoll (Nat.lt_of_not_le hdue)
  | Durable =>
    dsimp only
    rcases hsync : writer.sync disk.flushed disk.synced with ⟨writer', ok⟩
    obtain ⟨hwritten, -, hbuffer⟩ := JournalWriter.sync_written hsync
    cases ok with
    | false => exact fun hfails => by cases hfails
    | true => exact fun _ => flushed_all hwrote herror hwriter hwritten (hbuffer rfl) (fun hgroup => by cases hgroup) rfl

/-- The file only grows when the writer is flushed for the last time, or dropped. -/
theorem Flushed.grows (h : Flushed crc32 run_id sync thread) {thread' : OutputThread} (hrecorder : thread'.recorder = thread.recorder)
    (hcount : thread'.since_flush = thread.since_flush)
    (hwriter : ∀ writer', thread'.writer = some writer' → ∃ writer, thread.writer = some writer ∧
      writer.sink.sink <+: writer'.sink.sink) (hpc : thread'.pc ≠ .group) (hallowed : sync.allows thread'.pc thread.since_flush) :
    Flushed crc32 run_id sync thread' where
  counted := by
    rw [hcount, hrecorder]
    exact h.counted
  shown writer' hw := by
    obtain ⟨writer, hw, hgrows⟩ := hwriter writer' hw
    rw [hcount, hrecorder]
    exact (h.shown writer hw).trans hgrows
  allowed := by
    rw [hcount]
    exact hallowed
  opened hgroup := absurd hgroup hpc

theorem Flushed.closed (h : Flushed crc32 run_id sync thread) (hpc : thread.pc = .closing) :
    Flushed crc32 run_id sync (thread.close disk) := by
  have hallowed : sync.allows .ended thread.since_flush := by
    have hbefore := h.allowed
    rw [hpc] at hbefore
    exact hbefore
  unfold OutputThread.close
  split
  · exact h.goto (fun hgroup => by cases hgroup) hallowed
  · rename_i writer hwriter
    refine h.grows rfl rfl (fun w hw => ⟨writer, hwriter, ?_⟩) (fun hgroup => by cases hgroup) hallowed
    cases hw
    exact BufWriter.flush_buf_sink rfl

theorem Flushed.dropped (h : Flushed crc32 run_id sync thread) (hpc : thread.pc = .ended) :
    Flushed crc32 run_id sync (thread.drop disk) := by
  refine h.grows rfl rfl (fun w hw => ?_) (by rw [OutputThread.drop, hpc]; exact fun hgroup => by cases hgroup) h.allowed
  obtain ⟨writer, hwriter, rfl⟩ := Option.map_eq_some_iff.1 hw
  exact ⟨writer, hwriter, BufWriter.flush_buf_sink rfl⟩

/-! ## The system -/

/-- As long as the journal has not failed. -/
def Shows (crc32 : List UInt8 → UInt32) (run_id : U128) (sync : JournalSync) (s : Pipeline n m) : Prop :=
  s.writing.journal_error = false → Flushed crc32 run_id sync s.writing

theorem Shows.output (h : Shows crc32 run_id launch.pipeline_config.journal_sync s)
    (hwrote : Wrote crc32 run_id s.writing) (hheaded : Headed crc32 launch capacity run_id)
    (hstep : s.output_step crc32 launch disk = some s') :
    Shows crc32 run_id launch.pipeline_config.journal_sync s' := by
  -- The thread goes on without an error, and allows what it allowed before.
  have hgoto : ∀ (t : Pipeline n m) {pc pc' : OutputPc}, s.writing.pc = pc → t.writing = { s.writing with pc := pc' } →
      pc' ≠ .group → (launch.pipeline_config.journal_sync.allows pc s.writing.since_flush →
        launch.pipeline_config.journal_sync.allows pc' s.writing.since_flush) →
      Shows crc32 run_id launch.pipeline_config.journal_sync t := by
    intro t pc pc' hpc ht hgroup hallows herror
    rw [ht] at herror ⊢
    have hflushed := h herror
    exact hflushed.goto hgroup (hallows (hpc ▸ hflushed.allowed))
  rw [Pipeline.output_step] at hstep
  dsimp only at hstep
  split at hstep
  · rename_i hpc
    cases hstep
    exact (h (hwrote.sound (by rw [hpc]; rfl))).started hwrote hpc hheaded
  · rename_i hpc
    split at hstep
    · cases hstep
      exact hgoto _ hpc rfl (fun hgroup => by cases hgroup) fun hallows => allows_of_poll hallows (.inr ⟨_, rfl⟩)
    · cases hstep
      exact hgoto _ hpc rfl (fun hgroup => by cases hgroup) fun hallows => allows_of_poll hallows (.inl rfl)
  · rename_i hpc
    cases hstep
    have herror := hwrote.sound (by rw [hpc]; rfl)
    exact (h herror).published hwrote herror hpc
  · rename_i look hpc
    split at hstep <;>
    · cases hstep
      exact hgoto _ hpc rfl (fun hgroup => by cases hgroup) fun hallows => allows_of_receive hallows (fun hgroup => by cases hgroup)
  · rename_i event hpc
    cases hstep
    exact (h (hwrote.sound (by rw [hpc]; rfl))).recorded hpc
  · rename_i hpc
    cases hstep
    have herror := hwrote.sound (by rw [hpc]; rfl)
    exact (h herror).grouped hwrote herror hpc
  · rename_i hpc
    cases hstep
    intro herror
    exact absurd (hwrote.failed hpc) (by rw [show s.writing.journal_error = false from herror]; exact fun hfails => by cases hfails)
  · rename_i hpc
    cases hstep
    intro herror
    exact (h ((close_ends s.writing disk).2.2 herror)).closed hpc
  · cases hstep

theorem Shows.step (h : Shows crc32 run_id launch.pipeline_config.journal_sync s)
    (hwrote : Wrote crc32 run_id s.writing) (hheaded : Headed crc32 launch capacity run_id) {move : PipelineMove}
    (hstep : s.step crc32 launch move = some s') :
    Shows crc32 run_id launch.pipeline_config.journal_sync s' := by
  have hkept : s'.writing = s.writing → Shows crc32 run_id launch.pipeline_config.journal_sync s' := fun hwriting => by
    rw [Shows, hwriting]
    exact h
  cases move with
  | feed => exact hkept (feed_step_kept hstep).2.2
  | engine => exact hkept (engine_step_moved hstep).kept.2.1
  | output disk => exact h.output hwrote hheaded hstep
  | engage_kill | release_kill | submit | request_shutdown =>
    cases hstep
    exact hkept rfl
  | drop_input_tx | drop_input_rx | drop_output_tx =>
    rw [Pipeline.step] at hstep
    split at hstep
    · cases hstep
      exact hkept rfl
    · cases hstep
  | drop_output_rx disk =>
    rw [Pipeline.step] at hstep
    split at hstep
    · rename_i hended
      cases hstep
      exact fun herror => (h herror).dropped hended
    · cases hstep

theorem shows_init (hsync : JournalSync) : Shows crc32 run_id hsync (Pipeline.init crc32 launch) := by
  refine fun _ => ⟨Nat.le_refl _, fun _ hw => (by cases hw), ?_, fun hgroup => (by cases hgroup)⟩
  cases hsync with
  | Buffered => trivial
  | GroupCommit records => exact Nat.lt_of_lt_of_le Nat.zero_lt_one (Nat.le_max_right _ _)
  | Durable => rfl

/-- A file with the records of all but the last outputs is read back up to there, at least. -/
theorem read_journal_lag {events : List OutputEvent} {bytes : List UInt8}
    (hbytes : bytes <+: journal_bytes crc32 run_id events)
    (hshown : journal_bytes crc32 run_id (events.take (events.length - k)) <+: bytes) :
    ∃ recovery lag, read_journal crc32 bytes = .ok recovery ∧ events = recovery.events ++ lag ∧ lag.length ≤ k := by
  have hlength : HEADER_LEN + boundary (journal_record crc32) events (events.length - k) ≤ bytes.length := by
    have hle := hshown.length_le
    rwa [journal_bytes, List.length_append, length_journal_header] at hle
  obtain ⟨j, -, -, hlast, hread⟩ := read_journal_take run_id events (c := bytes.length) (by omega) hbytes.length_le
  have hj := hlast (events.length - k) (Nat.sub_le _ _) hlength
  rw [← List.prefix_iff_eq_take.1 hbytes] at hread
  refine ⟨_, events.drop j, hread, (List.take_append_drop j events).symm, ?_⟩
  rw [List.length_drop]
  omega

end Visibility

/-- As long as the journal has not failed, whatever the threads do in whatever order: a reader of the file finds the
recorded outputs up to those that `journal_sync` allows to lag behind. With `GroupCommit` these are at most a group, and
none when the output thread waits for the next output; with `Durable` none but the one that is just being synced. -/
theorem journal_lag_bounded {crc32 : List UInt8 → UInt32} {launch : Launch}
    {s : Pipeline launch.engine_config.instruments.length launch.engine_config.accounts.length} {writer : JournalWriter}
    (hjournal : ∀ writer, launch.journal = some writer → ∃ capacity run_id, Journaled crc32 capacity run_id [] writer)
    (h : Reach (Pipeline.step crc32 launch) (fun _ _ => True) (Pipeline.init crc32 launch) s)
    (hwriter : s.writing.writer = some writer) (herror : s.writing.journal_error = false) :
    ∃ recovery lag, read_journal crc32 writer.sink.sink = .ok recovery ∧ s.writing.recorder = recovery.events ++ lag ∧
      (∀ records, launch.pipeline_config.journal_sync = .GroupCommit records →
        lag.length ≤ max records 1 ∧ ∀ look, s.writing.pc = .receive look → lag = []) ∧
      (launch.pipeline_config.journal_sync = .Durable → lag.length ≤ 1 ∧ (s.writing.pc ≠ .group → lag = [])) := by
  obtain ⟨capacity, run_id, hheaded⟩ := exists_headed hjournal
  obtain ⟨hrecording, hshows⟩ := h.inv (fun s => Recording crc32 run_id launch.pipeline_config.capture_inputs
      (.new launch.allocator launch.engine_config) s ∧ Shows crc32 run_id launch.pipeline_config.journal_sync s)
    ⟨recording_init, shows_init _⟩
    fun s move s' hs _ hstep => ⟨hs.1.step hheaded hstep, hs.2.step hs.1.wrote hheaded hstep⟩
  have hflushed := hshows herror
  have hwhole := (hrecording.wrote.whole herror writer hwriter).1
  have hsink : writer.sink.sink <+: journal_bytes crc32 run_id s.writing.recorder := by
    rw [← hwhole]
    exact List.prefix_append _ _
  obtain ⟨recovery, lag, hread, hevents, hlag⟩ := read_journal_lag hsink (hflushed.shown writer hwriter)
  have hallowed := hflushed.allowed
  refine ⟨recovery, lag, hread, hevents, fun records hsync => ⟨?_, fun look hpc => ?_⟩, fun hsync => ⟨?_, fun hpc => ?_⟩⟩
  · rw [hsync] at hallowed
    exact hlag.trans (allows_group hallowed)
  · rw [hsync, hpc] at hallowed
    have hzero : s.writing.since_flush = 0 := hallowed
    rw [hzero] at hlag
    exact List.length_eq_zero_iff.1 (Nat.le_zero.1 hlag)
  · rw [hsync] at hallowed
    exact hlag.trans (allows_durable hallowed).1
  · rw [hsync] at hallowed
    rw [(allows_durable hallowed).2 hpc] at hlag
    exact List.length_eq_zero_iff.1 (Nat.le_zero.1 hlag)

/-- Groups of two records. -/
def groupLaunch : Launch :=
  { orderLaunch with pipeline_config := { orderLaunch.pipeline_config with journal_sync := .GroupCommit 2 } }

/-- The run up to where the output thread waits, with three records in the file. -/
theorem journal_lag_bounded_small :
    ∃ s writer recovery, Reach (Pipeline.step (fun _ => 7) groupLaunch) (fun _ _ => True) (Pipeline.init (fun _ => 7) groupLaunch) s ∧
      s.writing.writer = some writer ∧ read_journal (fun _ => 7) writer.sink.sink = .ok recovery ∧ recovery.events.length = 3 := by
  have hwalk : ∃ s ∈ walk (Pipeline.step (fun _ => 7) groupLaunch) (fun _ _ => True) (Pipeline.init (fun _ => 7) groupLaunch)
      (wholeRun.take 50), s.writing.pc = .receive .pop ∧ s.writing.journal_error = false ∧ s.writing.recorder.length = 3 ∧
        s.writing.writer.isSome := by
    decide +kernel
  obtain ⟨s, hs, hpc, herror, hlength, hsome⟩ := hwalk
  obtain ⟨writer, hwriter⟩ := Option.isSome_iff_exists.1 hsome
  have hreach := reach_of_walk hs
  have hnone : ∀ writer, groupLaunch.journal = some writer →
      ∃ capacity run_id, Journaled (fun _ => 7) capacity run_id [] writer := fun _ hw => by cases hw
  obtain ⟨recovery, lag, hread, hevents, hgroup, -⟩ := journal_lag_bounded hnone hreach hwriter herror
  rw [(hgroup 2 rfl).2 .pop hpc, List.append_nil] at hevents
  exact ⟨s, writer, recovery, hreach, hwriter, hread, by rw [← hevents, hlength]⟩

end TradingLab
