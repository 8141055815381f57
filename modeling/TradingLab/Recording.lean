import TradingLab.EngineThread
/-!
# What a run records

An output is in one place at a time: with the engine, in the queue, with the output
thread, or recorded; the journal has the recorded ones, or the first bytes of them. So
the journal never runs ahead of the inputs the engine captured, and a run that returns
has recorded everything.
-/
open LabLib

namespace TradingLab

/-! ## Outputs on their way -/

section Flow
variable {crc32 : List UInt8 → UInt32} {launch : Launch} {n m : Nat} {c₀ : TradingCore n m} {s s' : Pipeline n m}
  {move : PipelineMove} {thread : OutputThread} {disk : Disk}
variable {capacity : Nat}

/-- The output that the output thread took and did not record yet. -/
def OutputPc.hand : OutputPc → List OutputEvent
  | .record event => [event]
  | _ => []

/-- The outputs that the engine sent. -/
def Pipeline.sent (s : Pipeline n m) : List OutputEvent := s.writing.recorder ++ s.writing.pc.hand ++ s.output.items

/-- The outputs of the last input that are yet to be sent. -/
def EnginePc.unsent : EnginePc → List OutputEvent
  | .send batch _ _ => batch
  | _ => []

/-- The engine has not given up an output. -/
def EnginePc.complete : EnginePc → Bool
  | .left output_lost | .ended output_lost => !output_lost
  | .panicked => false
  | _ => true

/-- The engine is where its inputs lead, and the outputs it sent are the first ones of these inputs; all others
are about to be sent, unless it gave up. -/
structure Flows (c₀ : TradingCore n m) (s : Pipeline n m) : Prop where
  sent : s.sent <+: brings TradingCore.apply c₀ s.engine.recorder
  replays : s.engine_pc.complete = true →
    ∃ outs, c₀.run s.engine.recorder = .ok (s.engine.core, outs) ∧ outs.flatten = s.sent ++ s.engine_pc.unsent

/-- Nothing is applied, and nothing sent. -/
theorem Flows.frame (h : Flows c₀ s) (hengine : s'.engine = s.engine) (hsent : s'.sent = s.sent)
    (hpc : s'.engine_pc.complete = true → s.engine_pc.complete = true ∧ s'.engine_pc.unsent = s.engine_pc.unsent) :
    Flows c₀ s' where
  sent := by
    rw [hengine, hsent]
    exact h.sent
  replays hcomplete := by
    obtain ⟨hbefore, hunsent⟩ := hpc hcomplete
    rw [hengine, hsent, hunsent]
    exact h.replays hbefore

theorem Flows.applies (h : Flows c₀ s) (hcomplete : s.engine_pc.complete = true) (hunsent : s.engine_pc.unsent = [])
    (event : InputEvent) (recv_time_ns : Option UInt64) (pending : Option (EngineInput × Bool)) :
    Flows c₀ (s.applies event recv_time_ns pending) := by
  obtain ⟨outs, hrun, houts⟩ := h.replays hcomplete
  rw [hunsent, List.append_nil] at houts
  rcases applies_cases s event recv_time_ns pending with ⟨core, batch, happly, heq⟩ | ⟨panic, happly, heq⟩
  · have hnext : c₀.run (s.engine.recorder ++ [s.engine.sequenced event recv_time_ns]) = .ok (core, outs ++ [batch]) :=
      (runs_snoc TradingCore.apply).2 ⟨_, outs, batch, hrun, happly, rfl⟩
    have hflat : (outs ++ [batch]).flatten = s.sent ++ batch := by rw [List.flatten_append, houts, List.flatten_singleton]
    rw [heq]
    refine ⟨?_, fun _ => ⟨outs ++ [batch], hnext, hflat⟩⟩
    rw [brings_of_runs hnext, hflat]
    exact List.prefix_append _ _
  · rw [heq]
    refine ⟨?_, nofun⟩
    rw [brings_append hrun, houts]
    exact List.prefix_append _ _

theorem Flows.engine (h : Flows c₀ s) (hstep : EngineMoved launch s s') : Flows c₀ s' := by
  cases hstep with
  | receives hbefore _ hpc =>
    refine h.frame rfl rfl fun _ => ?_
    rw [hbefore]
    rcases hpc with ⟨_, rfl⟩ | ⟨_, rfl⟩ | rfl <;> exact ⟨rfl, rfl⟩
  | goes_on hbefore hpc =>
    refine h.frame rfl rfl fun _ => ?_
    rw [hbefore]
    rcases hpc with rfl | rfl <;> exact ⟨rfl, rfl⟩
  | agrees hbefore => exact h.frame rfl rfl fun _ => by rw [hbefore]; exact ⟨rfl, rfl⟩
  | syncs hbefore =>
    have hflows : Flows c₀ { s with popped := [] } := h.frame rfl rfl fun hcomplete => ⟨hcomplete, rfl⟩
    refine hflows.applies ?_ ?_ _ _ _ <;> exact hbefore ▸ rfl
  | @commands _ _ command commands hbefore =>
    have hflows : Flows c₀ { s with control := { s.control with commands := commands }, popped := s.popped ++ [command] } :=
      h.frame rfl rfl fun hcomplete => ⟨hcomplete, rfl⟩
    refine hflows.applies ?_ ?_ _ _ _ <;> exact hbefore ▸ rfl
  | feeds hbefore => refine h.applies ?_ ?_ _ _ _ <;> exact hbefore ▸ rfl
  | @resumes _ pending due hbefore =>
    obtain ⟨published, pc, heq, -, hnext⟩ := observe_cases s launch due (.resume pending)
    rw [heq]
    refine h.frame rfl rfl fun hcomplete => ?_
    rw [hbefore]
    rcases hnext with rfl | ⟨rfl, -⟩
    · cases pending <;> exact ⟨rfl, rfl⟩
    · cases hcomplete
  | waits hbefore => exact h.frame rfl rfl fun _ => by rw [hbefore]; exact ⟨rfl, rfl⟩
  | @sends event batch _ _ hbefore =>
    obtain ⟨outs, hrun, houts⟩ := h.replays (by rw [hbefore]; rfl)
    rw [hbefore] at houts
    have hsent : outs.flatten = s.writing.recorder ++ s.writing.pc.hand ++ (s.output.items ++ [event]) ++ batch := by
      rw [houts, Pipeline.sent, EnginePc.unsent]
      simp only [List.append_assoc, List.cons_append, List.nil_append]
    refine ⟨?_, fun _ => ⟨outs, hrun, hsent⟩⟩
    rw [brings_of_runs hrun, hsent]
    exact List.prefix_append _ _
  | loses => exact h.frame rfl rfl nofun
  | @ends output_lost control due hbefore =>
    obtain ⟨published, pc, heq, -, hnext⟩ := observe_cases { s with control := control } launch due (.ended output_lost)
    rw [heq]
    refine h.frame rfl rfl fun hcomplete => ?_
    rw [hbefore]
    rcases hnext with rfl | ⟨rfl, -⟩
    · exact ⟨hcomplete, rfl⟩
    · cases hcomplete

/-! ## The output thread -/

/-- The output thread takes no more outputs. -/
def OutputPc.halts : OutputPc → Bool
  | .failed | .closing | .ended => true
  | _ => false

/-- What the journal of the output thread has: the bytes of the recorded outputs, or after an error the first of
these. -/
structure Wrote (crc32 : List UInt8 → UInt32) (run_id : U128) (thread : OutputThread) : Prop where
  start : thread.pc = .start → thread.recorder = [] ∧ thread.writer = none
  part : ∀ writer, thread.writer = some writer → writer.sink.written <+: journal_bytes crc32 run_id thread.recorder
  whole : thread.journal_error = false → ∀ writer, thread.writer = some writer →
    writer.sink.written = journal_bytes crc32 run_id thread.recorder ∧ writer.records = thread.recorder.length
  halted : thread.journal_error = true → thread.pc.halts = true
  failed : thread.pc = .failed → thread.journal_error = true
  flushed : thread.pc = .ended → thread.journal_error = false → ∀ writer, thread.writer = some writer →
    writer.sink.buffer = [] ∧ thread.journal_records = writer.records

variable {run_id : U128}

theorem no_error {P : Prop} (h : thread.journal_error = false) (herror : thread.journal_error = true) : P :=
  absurd (h.symm.trans herror) Bool.false_ne_true

theorem Wrote.sound (h : Wrote crc32 run_id thread) (hpc : thread.pc.halts = false) : thread.journal_error = false :=
  Bool.eq_false_iff.2 fun herror => Bool.false_ne_true (hpc.symm.trans (h.halted herror))

/-- Nothing is recorded, and the writer has the bytes that it had. -/
theorem Wrote.keeps {thread' : OutputThread} (h : Wrote crc32 run_id thread) (hrecorder : thread'.recorder = thread.recorder)
    (hwriter : ∀ writer', thread'.writer = some writer' → ∃ writer, thread.writer = some writer ∧
      writer'.sink.written = writer.sink.written ∧ writer'.records = writer.records)
    (hstart : thread'.pc ≠ .start) (hsound : thread'.journal_error = false → thread.journal_error = false)
    (hhalted : thread'.journal_error = true → thread'.pc.halts = true)
    (hfailed : thread'.pc = .failed → thread'.journal_error = true)
    (hflushed : thread'.pc = .ended → thread'.journal_error = false → ∀ writer, thread'.writer = some writer →
      writer.sink.buffer = [] ∧ thread'.journal_records = writer.records) : Wrote crc32 run_id thread' where
  start hpc := absurd hpc hstart
  part writer' hw := by
    obtain ⟨writer, hw, hwritten, -⟩ := hwriter writer' hw
    rw [hwritten, hrecorder]
    exact h.part writer hw
  whole herror writer' hw := by
    obtain ⟨writer, hw, hwritten, hrecords⟩ := hwriter writer' hw
    rw [hwritten, hrecords, hrecorder]
    exact h.whole (hsound herror) writer hw
  halted := hhalted
  failed := hfailed
  flushed := hflushed

/-- The thread goes on with its loop. -/
theorem Wrote.goto (h : Wrote crc32 run_id thread) (herror : thread.journal_error = false) {pc : OutputPc}
    (hpc : pc ≠ .start ∧ pc ≠ .failed ∧ pc ≠ .ended) : Wrote crc32 run_id { thread with pc := pc } := by
  exact h.keeps rfl (fun writer hw => ⟨writer, hw, rfl, rfl⟩) hpc.1 (fun herror => herror) (no_error herror)
    (fun heq => absurd heq hpc.2.1) (fun heq => absurd heq hpc.2.2)

/-- The run id in the header of the journal: of the caller's journal, or of the configuration. -/
structure Headed (crc32 : List UInt8 → UInt32) (launch : Launch) (capacity : Nat) (run_id : U128) : Prop where
  given : ∀ writer, launch.journal = some writer → Journaled crc32 capacity run_id [] writer
  own : launch.journal = none → launch.run_id = run_id

theorem exists_headed
    (hjournal : ∀ writer, launch.journal = some writer → ∃ capacity run_id, Journaled crc32 capacity run_id [] writer) :
    ∃ capacity run_id, Headed crc32 launch capacity run_id := by
  cases hlaunch : launch.journal with
  | none => exact ⟨0, launch.run_id, by simp [hlaunch], fun _ => rfl⟩
  | some writer =>
    obtain ⟨capacity, run_id, hjournaled⟩ := hjournal writer hlaunch
    exact ⟨capacity, run_id, by simpa [hlaunch] using hjournaled, by simp [hlaunch]⟩

theorem Wrote.started (h : Wrote crc32 run_id thread) (hpc : thread.pc = .start)
    (hheaded : Headed crc32 launch capacity run_id) {path : Bool} :
    Wrote crc32 run_id (thread.start launch.journal path launch.run_id disk) := by
  obtain ⟨hrecorder, hnone⟩ := h.start hpc
  have herror : thread.journal_error = false := h.sound (by rw [hpc]; rfl)
  -- A journal that is open has its header and nothing else.
  have hopen : ∀ {capacity : Nat} {writer : JournalWriter}, Journaled crc32 capacity run_id [] writer →
      Wrote crc32 run_id { thread with writer := some writer, pc := .poll } := by
    intro capacity writer hjournaled
    obtain ⟨hwritten, hrecords⟩ := hjournaled.written
    refine ⟨by simp, fun w hw => ?_, fun _ w hw => ?_, no_error herror, by simp, by simp⟩
    · cases hw
      rw [hrecorder, hwritten]
    · cases hw
      rw [hrecorder]
      exact ⟨hwritten, hrecords⟩
  cases hjournal : launch.journal with
  | some writer => exact hopen (hheaded.given writer hjournal)
  | none =>
    have hid := hheaded.own hjournal
    cases path with
    | false => exact h.goto herror (by simp)
    | true =>
      unfold OutputThread.start
      dsimp only
      split
      · split
        · rename_i writer hsink
          rw [hid] at hsink
          exact hopen (.with_sink hsink)
        · rename_i writer hsink
          refine ⟨by simp, fun w hw => ?_, by simp, fun _ => rfl, by simp, by simp⟩
          cases hw
          have hpart := JournalWriter.with_sink_torn BUFFER_LEN launch.run_id (disk.takes.headD 0) disk.flushed
          rw [hsink, hid] at hpart
          rw [hrecorder, journal_bytes, List.flatMap_nil, List.append_nil]
          exact hpart
      · refine ⟨by simp, fun w hw => ?_, by simp, fun _ => rfl, by simp, by simp⟩
        rw [hnone] at hw
        cases hw

theorem Wrote.published (h : Wrote crc32 run_id thread) (herror : thread.journal_error = false) {sync : JournalSync} :
    Wrote crc32 run_id (thread.publish sync disk) := by
  have hsame : ∀ writer, thread.writer = some writer → ∃ writer', thread.writer = some writer' ∧
      writer.sink.written = writer'.sink.written ∧ writer.records = writer'.records :=
    fun writer hw => ⟨writer, hw, rfl, rfl⟩
  unfold OutputThread.publish
  split
  · split
    · split
      · rename_i writer hwriter
        split
        · rename_i writer' hflush
          refine h.keeps rfl (fun w hw => ?_) nofun (fun herror => herror) (no_error herror) nofun nofun
          cases hw
          exact ⟨writer, hwriter, JournalWriter.flush_written hflush⟩
        · rename_i writer' hflush
          refine h.keeps rfl (fun w hw => ?_) nofun nofun (fun _ => rfl) (fun _ => rfl) nofun
          cases hw
          exact ⟨writer, hwriter, JournalWriter.flush_written hflush⟩
      · exact h.keeps rfl hsame nofun (fun herror => herror) (no_error herror) nofun nofun
    · exact h.goto herror ⟨nofun, nofun, nofun⟩
  · exact h.goto herror ⟨nofun, nofun, nofun⟩

/-- An output is recorded, and its record written or a part of it. -/
theorem Wrote.recorded (h : Wrote crc32 run_id thread) (herror : thread.journal_error = false) {event : OutputEvent} :
    Wrote crc32 run_id (thread.record crc32 event disk) := by
  have hbytes : journal_bytes crc32 run_id (thread.recorder ++ [event]) =
      journal_bytes crc32 run_id thread.recorder ++ journal_record crc32 event := by
    simp [journal_bytes]
  unfold OutputThread.record
  dsimp only
  split
  · rename_i hnone
    have hno {P : JournalWriter → Prop} : ∀ w, thread.writer = some w → P w := by
      intro w hw
      rw [hnone] at hw
      cases hw
    exact ⟨by simp, hno, fun _ => hno, no_error herror, by simp, by simp⟩
  · rename_i writer hwriter
    obtain ⟨hwritten, hrecords⟩ := h.whole herror writer hwriter
    split
    · rename_i writer' happend
      obtain ⟨hwritten', hrecords'⟩ := (JournalWriter.append_written happend).2 rfl
      have hall : writer'.sink.written = journal_bytes crc32 run_id (thread.recorder ++ [event]) := by
        rw [hwritten', hwritten, hbytes]
      refine ⟨by simp, fun w hw => ?_, fun _ w hw => ?_, (no_error herror), by simp, by simp⟩
      · cases hw
        rw [hall]
      · cases hw
        exact ⟨hall, by rw [hrecords', hrecords, List.length_append, List.length_singleton]⟩
    · rename_i writer' happend
      have hpart := (JournalWriter.append_written happend).1
      refine ⟨by simp, fun w hw => ?_, by simp, fun _ => rfl, fun _ => rfl, by simp⟩
      cases hw
      rw [hwritten, ← hbytes] at hpart
      exact hpart

/-- A call that leaves the bytes and the count of the writer alone, whether or not it succeeds. -/
theorem Wrote.called (h : Wrote crc32 run_id thread) (herror : thread.journal_error = false) {writer writer' : JournalWriter}
    (hwriter : thread.writer = some writer)
    (hsame : writer'.sink.written = writer.sink.written ∧ writer'.records = writer.records) :
    Wrote crc32 run_id { thread with writer := some writer', journal_error := true, pc := .failed } ∧
      Wrote crc32 run_id { thread with writer := some writer', since_flush := 0, pc := .poll } := by
  have hkept : ∀ w, some writer' = some w → ∃ writer, thread.writer = some writer ∧
      w.sink.written = writer.sink.written ∧ w.records = writer.records := by
    intro w hw
    cases hw
    exact ⟨writer, hwriter, hsame⟩
  constructor
  · exact h.keeps rfl hkept (by simp) (by simp) (fun _ => rfl) (fun _ => rfl) (by simp)
  · exact h.keeps rfl hkept (by simp) (fun herror => herror) (no_error herror) (by simp) (by simp)

theorem Wrote.grouped (h : Wrote crc32 run_id thread) (herror : thread.journal_error = false) {sync : JournalSync} :
    Wrote crc32 run_id (thread.group sync disk) := by
  have hpoll : Wrote crc32 run_id { thread with pc := .poll } := h.goto herror (by simp)
  unfold OutputThread.group
  cases hwriter : thread.writer with
  | none =>
    rw [hwriter] at hpoll
    exact hpoll
  | some writer =>
    rw [hwriter] at hpoll
    dsimp only
    cases sync with
    | Buffered => exact hpoll
    | GroupCommit records =>
      dsimp only
      by_cases hdue : max records 1 ≤ thread.since_flush
      · rw [if_pos hdue]
        rcases hflush : writer.flush disk.flushed with ⟨writer', ok⟩
        have hcalled := h.called herror hwriter (JournalWriter.flush_written hflush)
        cases ok with
        | false => exact hcalled.1
        | true => exact hcalled.2
      · rw [if_neg hdue]
        exact hpoll
    | Durable =>
      dsimp only
      rcases hsync : writer.sync disk.flushed disk.synced with ⟨writer', ok⟩
      obtain ⟨hwritten, hrecords, -⟩ := JournalWriter.sync_written hsync
      have hcalled := h.called herror hwriter ⟨hwritten, hrecords⟩
      cases ok with
      | false => exact hcalled.1
      | true => exact hcalled.2

theorem Wrote.closed (h : Wrote crc32 run_id thread) : Wrote crc32 run_id (thread.close disk) := by
  unfold OutputThread.close
  split
  · rename_i hnone
    exact h.keeps rfl (fun w hw => ⟨w, hw, rfl, rfl⟩) nofun (fun herror => herror) (fun _ => rfl) nofun
      fun _ _ w hw => (nomatch hnone.symm.trans hw)
  · rename_i writer hwriter
    dsimp only
    cases hsync : writer.sync disk.flushed disk.synced with
    | mk synced ok =>
      obtain ⟨hwritten, hrecords, hbuffer⟩ := JournalWriter.sync_written hsync
      refine h.keeps rfl (fun w hw => ?_) nofun (fun herror => (Bool.or_eq_false_iff.1 herror).1)
        (fun _ => rfl) nofun fun _ herror w hw => ?_
      · cases hw
        exact ⟨writer, hwriter, hwritten, hrecords⟩
      · cases hw
        exact ⟨hbuffer (by simpa using (Bool.or_eq_false_iff.1 herror).2), hrecords.symm⟩

/-- What is flushed stays flushed when the writer is dropped. -/
theorem Wrote.dropped (h : Wrote crc32 run_id thread) (hpc : thread.pc = .ended) : Wrote crc32 run_id (thread.drop disk) := by
  refine h.keeps rfl (fun w hw => ?_) (by rw [OutputThread.drop, hpc]; nofun) (fun herror => herror) h.halted h.failed
    fun _ herror w hw => ?_
  · obtain ⟨writer, hwriter, rfl⟩ := Option.map_eq_some_iff.1 hw
    exact ⟨writer, hwriter, JournalWriter.flush_written rfl⟩
  · obtain ⟨writer, hwriter, rfl⟩ := Option.map_eq_some_iff.1 hw
    obtain ⟨hbuffer, hrecords⟩ := h.flushed hpc herror writer hwriter
    refine ⟨?_, hrecords⟩
    change writer.sink.buffer.drop _ = []
    rw [hbuffer, List.drop_nil]

/-! ## The system -/

/-- Everything the engine sent is on its way to the journal, and the output thread ends without an error
only after everything arrived. -/
structure Recording (crc32 : List UInt8 → UInt32) (run_id : U128) (capture : Bool) (c₀ : TradingCore n m)
    (s : Pipeline n m) : Prop where
  flows : Flows c₀ s
  wrote : Wrote crc32 run_id s.writing
  finished : s.output.sender = false → s.engine_over = true
  last : s.writing.pc = .receive .last → s.output.sender = false
  closed : s.writing.pc = .closing ∨ s.writing.pc = .ended → s.writing.journal_error = false →
    s.output.sender = false ∧ s.output.items = []
  captured : s.engine.captured = if capture then some s.engine.recorder else none

variable {capture : Bool}

theorem Recording.around (h : Recording crc32 run_id capture c₀ s) (hkept : EngineKept s s') (houtput : s'.output = s.output)
    (hwriting : s'.writing = s.writing) : Recording crc32 run_id capture c₀ s' where
  flows := h.flows.frame hkept.engine (by rw [Pipeline.sent, Pipeline.sent, houtput, hwriting]) fun hcomplete => by
    rw [hkept.pc] at hcomplete ⊢
    exact ⟨hcomplete, rfl⟩
  wrote := hwriting ▸ h.wrote
  finished := by
    rw [houtput, Pipeline.engine_over, hkept.pc]
    exact h.finished
  last := by
    rw [houtput, hwriting]
    exact h.last
  closed := by
    rw [houtput, hwriting]
    exact h.closed
  captured := by
    rw [hkept.engine]
    exact h.captured

/-- An event that is applied is captured. -/
theorem captured_applies (h : s.engine.captured = if capture then some s.engine.recorder else none) (event : InputEvent)
    (recv_time_ns : Option UInt64) (pending : Option (EngineInput × Bool)) :
    (s.applies event recv_time_ns pending).engine.captured =
      if capture then some (s.applies event recv_time_ns pending).engine.recorder else none := by
  rcases applies_cases s event recv_time_ns pending with ⟨core, batch, -, heq⟩ | ⟨panic, -, heq⟩ <;>
    · rw [heq]
      dsimp only
      rw [h]
      cases capture <;> rfl

theorem applies_kept (s : Pipeline n m) (event : InputEvent) (recv_time_ns : Option UInt64)
    (pending : Option (EngineInput × Bool)) :
    (s.applies event recv_time_ns pending).writing = s.writing ∧ (s.applies event recv_time_ns pending).output = s.output ∧
      (s.applies event recv_time_ns pending).input = s.input := by
  rcases applies_cases s event recv_time_ns pending with ⟨core, batch, -, heq⟩ | ⟨panic, -, heq⟩ <;>
    · rw [heq]
      exact ⟨rfl, rfl, rfl⟩

theorem observe_kept (s : Pipeline n m) (due : Bool) (pc : EnginePc) :
    (s.observe launch due pc).writing = s.writing ∧ (s.observe launch due pc).output = s.output ∧
      (s.observe launch due pc).input = s.input ∧ (s.observe launch due pc).engine = s.engine := by
  obtain ⟨published, pc', heq, -⟩ := observe_cases s launch due pc
  rw [heq]
  exact ⟨rfl, rfl, rfl, rfl⟩

/-- An engine that takes a step is not over, and leaves the output thread and the size of the queues alone. -/
theorem EngineMoved.kept (h : EngineMoved launch s s') :
    s.engine_over = false ∧ s'.writing = s.writing ∧ s'.output.sender = s.output.sender ∧
      s'.input.capacity = s.input.capacity ∧ s'.output.capacity = s.output.capacity := by
  rw [Pipeline.engine_over]
  cases h with
  | syncs hpc | commands hpc | feeds hpc =>
    obtain ⟨hwriting, houtput, hinput⟩ := applies_kept _ _ _ _
    rw [hpc, hwriting, houtput, hinput]
    exact ⟨rfl, rfl, rfl, rfl, rfl⟩
  | resumes hpc | ends hpc =>
    obtain ⟨hwriting, houtput, hinput, -⟩ := observe_kept _ _ _
    rw [hpc, hwriting, houtput, hinput]
    exact ⟨rfl, rfl, rfl, rfl, rfl⟩
  | receives hpc hcapacity =>
    rw [hpc]
    exact ⟨rfl, rfl, rfl, hcapacity, rfl⟩
  | goes_on hpc | agrees hpc | waits hpc | sends hpc | loses hpc =>
    rw [hpc]
    exact ⟨rfl, rfl, rfl, rfl, rfl⟩

theorem EngineMoved.captured (h : EngineMoved launch s s')
    (hcaptured : s.engine.captured = if capture then some s.engine.recorder else none) :
    s'.engine.captured = if capture then some s'.engine.recorder else none := by
  cases h with
  | syncs | commands | feeds =>
    refine captured_applies ?_ _ _ _
    exact hcaptured
  | resumes | ends =>
    rw [(observe_kept _ _ _).2.2.2]
    exact hcaptured
  | receives | goes_on | agrees | waits | sends | loses => exact hcaptured

/-- While the engine runs its end of the queue is there, and the output thread is in its loop. -/
theorem Recording.engine (h : Recording crc32 run_id capture c₀ s) (hmoved : EngineMoved launch s s') :
    Recording crc32 run_id capture c₀ s' := by
  obtain ⟨hover, hwriting, hsender, -⟩ := hmoved.kept
  have hthere : s.output.sender ≠ false := fun hgone => Bool.false_ne_true (hover.symm.trans (h.finished hgone))
  refine ⟨h.flows.engine hmoved, hwriting ▸ h.wrote, fun hgone => ?_, fun hpc => ?_, fun hpc herror => ?_,
    hmoved.captured h.captured⟩
  · rw [hsender] at hgone
    exact absurd hgone hthere
  · rw [hwriting] at hpc
    exact absurd (h.last hpc) hthere
  · rw [hwriting] at hpc herror
    exact absurd (h.closed hpc herror).1 hthere

/-- The output thread takes a step that neither loses nor adds an output. -/
theorem Recording.writes (h : Recording crc32 run_id capture c₀ s) {output : Channel OutputEvent} {failed : Bool}
    {thread : OutputThread} (hwrote : Wrote crc32 run_id thread)
    (hsent : thread.recorder ++ thread.pc.hand ++ output.items = s.sent) (hsender : output.sender = s.output.sender)
    (hlast : thread.pc = .receive .last → s.output.sender = false)
    (hclosed : thread.pc = .closing ∨ thread.pc = .ended → thread.journal_error = false →
      s.output.sender = false ∧ output.items = []) :
    Recording crc32 run_id capture c₀ { s with output := output, output_failed := failed, writing := thread } where
  flows := h.flows.frame rfl hsent fun hcomplete => ⟨hcomplete, rfl⟩
  wrote := hwrote
  finished := by
    rw [hsender]
    exact h.finished
  last hpc := hsender.trans (hlast hpc)
  closed hpc herror := ⟨hsender.trans (hclosed hpc herror).1, (hclosed hpc herror).2⟩
  captured := h.captured

/-- The output thread has not seen the end of the outputs. -/
def OutputPc.loops : OutputPc → Bool
  | .receive .last | .closing | .ended => false
  | _ => true

theorem Recording.loops (h : Recording crc32 run_id capture c₀ s) {output : Channel OutputEvent} {failed : Bool}
    {thread : OutputThread} (hwrote : Wrote crc32 run_id thread)
    (hsent : thread.recorder ++ thread.pc.hand ++ output.items = s.sent) (hsender : output.sender = s.output.sender)
    (hloops : thread.pc.loops = true) :
    Recording crc32 run_id capture c₀ { s with output := output, output_failed := failed, writing := thread } := by
  refine h.writes hwrote hsent hsender (fun hpc => ?_) fun hpc => ?_
  · rw [hpc] at hloops
    cases hloops
  · rcases hpc with hpc | hpc <;>
      · rw [hpc] at hloops
        cases hloops

/-- A function of the thread that records nothing, and where it leads. -/
structure Idles (thread thread' : OutputThread) : Prop where
  recorder : thread'.recorder = thread.recorder
  hand : thread'.pc.hand = []
  loops : thread'.pc.loops = true

theorem start_idles (thread : OutputThread) (journal : Option JournalWriter) (path : Bool) (run_id : U128) (disk : Disk) :
    Idles thread (thread.start journal path run_id disk) ∨
      (thread.start journal path run_id disk).recorder = thread.recorder ∧
      (thread.start journal path run_id disk).pc = .ended ∧ (thread.start journal path run_id disk).journal_error = true := by
  unfold OutputThread.start
  split
  · exact .inl ⟨rfl, rfl, rfl⟩
  · split
    · split
      · exact .inl ⟨rfl, rfl, rfl⟩
      · exact .inr ⟨rfl, rfl, rfl⟩
    · exact .inr ⟨rfl, rfl, rfl⟩
  · exact .inl ⟨rfl, rfl, rfl⟩

theorem publish_idles (thread : OutputThread) (sync : JournalSync) (disk : Disk) :
    Idles thread (thread.publish sync disk) := by
  unfold OutputThread.publish
  split
  · split
    · split
      · split <;> exact ⟨rfl, rfl, rfl⟩
      · exact ⟨rfl, rfl, rfl⟩
    · exact ⟨rfl, rfl, rfl⟩
  · exact ⟨rfl, rfl, rfl⟩

theorem record_idles (thread : OutputThread) (event : OutputEvent) (disk : Disk) :
    Idles { thread with recorder := thread.recorder ++ [event] } (thread.record crc32 event disk) := by
  unfold OutputThread.record
  dsimp only
  split
  · exact ⟨rfl, rfl, rfl⟩
  · split <;> exact ⟨rfl, rfl, rfl⟩

theorem group_idles (thread : OutputThread) (sync : JournalSync) (disk : Disk) :
    Idles thread (thread.group sync disk) := by
  unfold OutputThread.group
  split
  · exact ⟨rfl, rfl, rfl⟩
  · dsimp only
    split <;> exact ⟨rfl, rfl, rfl⟩

theorem close_ends (thread : OutputThread) (disk : Disk) :
    (thread.close disk).recorder = thread.recorder ∧ (thread.close disk).pc = .ended ∧
      ((thread.close disk).journal_error = false → thread.journal_error = false) := by
  unfold OutputThread.close
  split
  · exact ⟨rfl, rfl, fun herror => herror⟩
  · exact ⟨rfl, rfl, fun herror => (Bool.or_eq_false_iff.1 herror).1⟩

theorem Recording.output (h : Recording crc32 run_id capture c₀ s)
    (hheaded : Headed crc32 launch capacity run_id) (hstep : s.output_step crc32 launch disk = some s') :
    Recording crc32 run_id capture c₀ s' := by
  have hwrote := h.wrote
  have hsent : s.sent = s.writing.recorder ++ s.writing.pc.hand ++ s.output.items := rfl
  rw [Pipeline.output_step] at hstep
  dsimp only at hstep
  cases hpc : s.writing.pc with
  | start =>
    rw [hpc] at hstep hsent
    dsimp only at hstep
    cases hstep
    have hstarted : Wrote crc32 run_id (s.writing.start launch.journal launch.pipeline_config.journal_path launch.run_id disk) :=
      hwrote.started hpc hheaded
    rcases start_idles s.writing launch.journal launch.pipeline_config.journal_path launch.run_id disk with
      hidles | ⟨hrecorder, hnext, herror⟩
    · refine h.loops hstarted ?_ rfl hidles.loops
      rw [hsent, hidles.recorder, hidles.hand]
      rfl
    · refine h.writes hstarted ?_ rfl ?_ fun _ hnone => no_error hnone herror
      · rw [hsent, hrecorder, hnext]
        rfl
      · rw [hnext]
        simp
  | poll =>
    rw [hpc] at hstep hsent
    dsimp only at hstep
    have herror := hwrote.sound (by rw [hpc]; rfl)
    split at hstep
    · rename_i output event hrecv
      cases hstep
      obtain ⟨hitems, hchannel⟩ := Channel.try_recv_some hrecv
      refine h.loops (hwrote.goto herror (by simp)) ?_ (by rw [hchannel]) rfl
      rw [hsent, hitems]
      simp [OutputPc.hand]
    · rename_i output hrecv
      cases hstep
      obtain ⟨-, rfl⟩ := Channel.try_recv_none hrecv
      exact h.loops (hwrote.goto herror (by simp)) hsent.symm rfl rfl
  | drained =>
    rw [hpc] at hstep hsent
    dsimp only at hstep
    have herror := hwrote.sound (by rw [hpc]; rfl)
    cases hstep
    have hidles := publish_idles s.writing launch.pipeline_config.journal_sync disk
    refine h.loops (hwrote.published herror) ?_ rfl hidles.loops
    rw [hsent, hidles.recorder, hidles.hand]
    rfl
  | receive look =>
    rw [hpc] at hstep hsent
    dsimp only at hstep
    have herror := hwrote.sound (by rw [hpc]; rfl)
    have hlast : look = .last → s.output.sender = false := fun hlook => h.last (by rw [hpc, hlook])
    cases hrecv : s.output.recv look with
    | mk output flow =>
      rw [hrecv] at hstep
      have hcases := Channel.recv_cases hrecv
      cases hcases with
      | @value event items hitems =>
        cases hstep
        refine h.loops (hwrote.goto herror (by simp)) ?_ rfl rfl
        rw [hsent, hitems]
        simp [OutputPc.hand]
      | closed hlook hitems =>
        cases hstep
        exact h.writes (hwrote.goto herror (by simp)) hsent.symm rfl (by simp)
          fun _ _ => ⟨hlast hlook, hitems⟩
      | @looks next hgone =>
        cases hstep
        refine h.writes (hwrote.goto herror (by simp)) hsent.symm rfl (fun heq => hgone ?_) ?_
        · cases heq
          rfl
        · rintro (heq | heq) <;> cases heq
  | record event =>
    rw [hpc] at hstep hsent
    dsimp only at hstep
    have herror := hwrote.sound (by rw [hpc]; rfl)
    cases hstep
    have hidles : Idles _ (s.writing.record crc32 event disk) := record_idles s.writing event disk
    refine h.loops (hwrote.recorded herror) ?_ rfl hidles.loops
    rw [hsent, hidles.recorder, hidles.hand]
    simp [OutputPc.hand]
  | group =>
    rw [hpc] at hstep hsent
    dsimp only at hstep
    have herror := hwrote.sound (by rw [hpc]; rfl)
    cases hstep
    have hidles := group_idles s.writing launch.pipeline_config.journal_sync disk
    refine h.loops (hwrote.grouped herror) ?_ rfl hidles.loops
    rw [hsent, hidles.recorder, hidles.hand]
    rfl
  | failed =>
    rw [hpc] at hstep hsent
    dsimp only at hstep
    cases hstep
    have herror := hwrote.failed hpc
    have hclosing : Wrote crc32 run_id { s.writing with pc := .closing } :=
      hwrote.keeps rfl (fun writer hw => ⟨writer, hw, rfl, rfl⟩) (by simp) (fun hnone => hnone) (fun _ => rfl) (by simp) (by simp)
    exact h.writes hclosing hsent.symm rfl (by simp) fun _ hnone => no_error hnone herror
  | closing =>
    rw [hpc] at hstep hsent
    dsimp only at hstep
    cases hstep
    obtain ⟨hrecorder, hnext, hbefore⟩ := close_ends s.writing disk
    refine h.writes hwrote.closed ?_ rfl ?_ fun _ hnone => h.closed (.inl hpc) (hbefore hnone)
    · rw [hsent, hrecorder, hnext]
      rfl
    · rw [hnext]
      simp
  | ended =>
    rw [hpc] at hstep
    cases hstep

theorem Recording.step (h : Recording crc32 run_id capture c₀ s)
    (hheaded : Headed crc32 launch capacity run_id) (hstep : s.step crc32 launch move = some s') :
    Recording crc32 run_id capture c₀ s' := by
  cases move with
  | feed =>
    obtain ⟨hkept, houtput, hwriting⟩ := feed_step_kept hstep
    exact h.around hkept houtput hwriting
  | engine => exact h.engine (engine_step_moved hstep)
  | output disk => exact h.output hheaded hstep
  | engage_kill | release_kill | submit | request_shutdown =>
    cases hstep
    exact h.around ⟨rfl, rfl, rfl, rfl⟩ rfl rfl
  | drop_input_tx | drop_input_rx =>
    simp only [Pipeline.step, Option.ite_none_right_eq_some] at hstep
    obtain ⟨-, hstep⟩ := hstep
    cases hstep
    exact h.around ⟨rfl, rfl, rfl, rfl⟩ rfl rfl
  | drop_output_tx =>
    simp only [Pipeline.step, Option.ite_none_right_eq_some] at hstep
    obtain ⟨hover, hstep⟩ := hstep
    cases hstep
    exact ⟨h.flows.frame rfl rfl fun hcomplete => ⟨hcomplete, rfl⟩, h.wrote, fun _ => hover, fun _ => rfl,
      fun hpc herror => ⟨rfl, (h.closed hpc herror).2⟩, h.captured⟩
  | drop_output_rx disk =>
    simp only [Pipeline.step, Option.ite_none_right_eq_some] at hstep
    obtain ⟨hpc, hstep⟩ := hstep
    cases hstep
    exact ⟨h.flows.frame rfl rfl fun hcomplete => ⟨hcomplete, rfl⟩, h.wrote.dropped hpc, h.finished, h.last, h.closed, h.captured⟩

theorem recording_init : Recording crc32 run_id launch.pipeline_config.capture_inputs
    (.new launch.allocator launch.engine_config) (Pipeline.init crc32 launch) where
  flows := ⟨List.nil_prefix, fun _ => ⟨[], rfl, rfl⟩⟩
  wrote := ⟨fun _ => ⟨rfl, rfl⟩, nofun, nofun, nofun, nofun, nofun⟩
  finished := nofun
  last := nofun
  closed := nofun
  captured := by
    cases hcapture : launch.pipeline_config.capture_inputs <;> simp [Pipeline.init, Engine.new, hcapture]

/-- What a run that returns has recorded. -/
theorem Recording.result (h : Recording crc32 run_id capture c₀ s) {summary : RunSummary n m}
    (hresult : s.result = some (.ok summary)) :
    ∃ outs, c₀.run s.engine.recorder = .ok (s.engine.core, outs) ∧ outs.flatten = s.writing.recorder ∧
      (∀ writer, s.writing.writer = some writer → writer.sink.sink = journal_bytes crc32 run_id s.writing.recorder ∧
        s.writing.journal_records = s.writing.recorder.length) ∧
      summary.captured_inputs = s.engine.captured.getD [] ∧ summary.output_stream = s.writing.recorder ∧
      summary.final_state = s.engine.core ∧ summary.inputs = s.engine.recorder.length ∧
      summary.outputs = s.writing.recorder.length ∧ summary.journal_records = s.writing.journal_records := by
  rw [Pipeline.result] at hresult
  split at hresult
  · rename_i output_lost hfeed hengine hwriting
    split at hresult
    · cases hresult
    · rename_i herror
      have herror := Bool.eq_false_iff.2 herror
      split at hresult
      · cases hresult
      · rename_i hlost
        cases hresult
        obtain ⟨outs, hrun, houts⟩ := h.flows.replays (by rw [hengine]; simpa [EnginePc.complete] using hlost)
        obtain ⟨-, hitems⟩ := h.closed (.inr hwriting) herror
        rw [Pipeline.sent, hwriting, hengine, hitems] at houts
        refine ⟨outs, hrun, by simpa [OutputPc.hand, EnginePc.unsent] using houts, fun writer hwriter => ?_, rfl, rfl, rfl, rfl,
          rfl, rfl⟩
        obtain ⟨hwritten, hrecords⟩ := h.wrote.whole herror writer hwriter
        obtain ⟨hbuffer, hcount⟩ := h.wrote.flushed hwriting herror writer hwriter
        rw [BufWriter.written, hbuffer, List.append_nil] at hwritten
        exact ⟨hwritten, hcount.trans hrecords⟩
  · cases hresult

end Flow

/-- Whatever the threads do in whatever order, and wherever the journal fails: the complete records of the journal
are the first outputs of the inputs captured so far. When a run returns a summary, the outputs it recorded, the records
of the journal and the final state are those of the captured inputs, all of them and in order. -/
theorem pipeline_replays_exactly {crc32 : List UInt8 → UInt32} {launch : Launch}
    {s : Pipeline launch.engine_config.instruments.length launch.engine_config.accounts.length}
    (hcapture : launch.pipeline_config.capture_inputs = true)
    (hjournal : ∀ writer, launch.journal = some writer → ∃ capacity run_id, Journaled crc32 capacity run_id [] writer)
    (h : Reach (Pipeline.step crc32 launch) (fun _ _ => True) (Pipeline.init crc32 launch) s) :
    ∃ inputs, s.engine.captured = some inputs ∧
      (∀ writer, s.writing.writer = some writer → ∀ c, HEADER_LEN ≤ c → c ≤ writer.sink.sink.length →
        ∃ recovery, read_journal crc32 (writer.sink.sink.take c) = .ok recovery ∧
          recovery.events <+: brings TradingCore.apply (.new launch.allocator launch.engine_config) inputs) ∧
      ∀ summary, s.result = some (.ok summary) →
        ∃ outs, TradingCore.run (.new launch.allocator launch.engine_config) summary.captured_inputs =
            .ok (summary.final_state, outs) ∧
          summary.captured_inputs.length = summary.inputs ∧
          summary.output_stream = outs.flatten ∧ summary.outputs = outs.flatten.length ∧
          ∀ writer, s.writing.writer = some writer → summary.journal_records = outs.flatten.length ∧
            ∃ recovery, read_journal crc32 writer.sink.sink = .ok recovery ∧ recovery.events = outs.flatten ∧
              recovery.truncated_at = none := by
  obtain ⟨capacity, run_id, hheaded⟩ := exists_headed hjournal
  have hrecording := h.inv (Recording crc32 run_id launch.pipeline_config.capture_inputs
    (.new launch.allocator launch.engine_config)) recording_init fun s move s' hs _ hstep => hs.step hheaded hstep
  have hcaptured : s.engine.captured = some s.engine.recorder := by
    rw [hrecording.captured, hcapture, if_pos rfl]
  refine ⟨s.engine.recorder, hcaptured, fun writer hwriter c hheader hc => ?_, fun summary hresult => ?_⟩
  · -- The sink has the first bytes of the journal of the recorded outputs.
    obtain ⟨rest, hrest⟩ := hrecording.wrote.part writer hwriter
    have hbytes : writer.sink.sink.take c = (journal_bytes crc32 run_id s.writing.recorder).take c := by
      rw [← hrest, BufWriter.written, List.append_assoc, List.take_append_of_le_length hc]
    have hlength : c ≤ (journal_bytes crc32 run_id s.writing.recorder).length := by
      rw [← hrest, BufWriter.written, List.length_append, List.length_append]
      omega
    obtain ⟨k, -, -, -, hread⟩ := read_journal_take run_id s.writing.recorder hheader hlength
    refine ⟨_, hbytes ▸ hread, (List.take_prefix k _).trans (List.IsPrefix.trans ?_ hrecording.flows.sent)⟩
    rw [Pipeline.sent, List.append_assoc]
    exact List.prefix_append _ _
  · obtain ⟨outs, hrun, houts, hjournal, hinputs, hstream, hstate, hcount, houtputs, hrecords⟩ := hrecording.result hresult
    rw [hcaptured] at hinputs
    refine ⟨outs, ?_, ?_, ?_, ?_, fun writer hwriter => ?_⟩
    · rw [hinputs, hstate]
      exact hrun
    · rw [hinputs, hcount]
      rfl
    · rw [hstream, houts]
    · rw [houtputs, houts]
    · obtain ⟨hsink, hlength⟩ := hjournal writer hwriter
      rw [houts, hrecords, hsink]
      exact ⟨hlength, _, read_journal_bytes run_id _, rfl, rfl⟩

/-- The whole run of the feed, the engine and the output thread, one after the other. -/
def wholeRun : List PipelineMove :=
  List.replicate 6 .feed ++ List.replicate 17 .engine ++ List.replicate 3 .feed ++ [.drop_input_tx] ++
    List.replicate 10 .engine ++ [.drop_output_tx] ++ List.replicate 16 (.output { takes := [24, 24, 24], flushed := 1000 })

/-- Two changes of the market and the report of an order are recorded. -/
theorem pipeline_replays_exactly_small :
    ∃ s summary, Reach (Pipeline.step (fun _ => 7) orderLaunch) (fun _ _ => True) (Pipeline.init (fun _ => 7) orderLaunch) s ∧
      s.result = some (.ok summary) ∧ summary.journal_records = 3 ∧
      ∃ outs, TradingCore.run (.new freeListAllocator orderLaunch.engine_config) summary.captured_inputs =
        .ok (summary.final_state, outs) ∧ summary.output_stream = outs.flatten := by
  have hwalk : ∃ s ∈ walk (Pipeline.step (fun _ => 7) orderLaunch) (fun _ _ => True) (Pipeline.init (fun _ => 7) orderLaunch)
      wholeRun, ∃ summary ∈ s.result.bind Except.toOption, summary.journal_records = 3 := by
    decide +kernel
  obtain ⟨s, hs, summary, hsummary, hrecords⟩ := hwalk
  have hreach := reach_of_walk hs
  obtain ⟨result, hresult, hok⟩ := Option.bind_eq_some_iff.1 hsummary
  cases result with
  | error => cases hok
  | ok value =>
    cases hok
    have hnone : ∀ writer, orderLaunch.journal = some writer →
        ∃ capacity run_id, Journaled (fun _ => 7) capacity run_id [] writer := fun _ hw => by cases hw
    obtain ⟨_, _, _, hreplays⟩ := pipeline_replays_exactly rfl hnone hreach
    obtain ⟨outs, hrun, _, hstream, _⟩ := hreplays summary hresult
    exact ⟨s, summary, hreach, hresult, hrecords, outs, hrun, hstream⟩

end TradingLab
