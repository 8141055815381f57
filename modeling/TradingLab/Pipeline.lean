import TradingLab.Core
import TradingLab.Feed
import TradingLab.Journal
import TradingLab.Lib.Channel
import TradingLab.Lib.System
import TradingLab.Telemetry
/-!
# The pipeline

`pipeline.rs`: the feed, engine and output threads, the two queues between them, and the
operators who hold the control surface. A thread's step is what it does between two
looks at something that others see; a call that waits takes a step for every look, and
`Backoff::wait` between two looks does nothing but pass time. Snapshots are taken, and what
becomes of them is left out with the statistics and the pacing of the feed: no thread
reads these.
-/
open LabLib

namespace TradingLab

/-! ## Configuration -/

/-- How often the output thread pushes journal records past its buffer. -/
inductive JournalSync where
  | Buffered
  | GroupCommit (records : Nat)
  | Durable
deriving DecidableEq, Repr

inductive WaitStrategy where
  | BusySpin
  | Adaptive (spins yields : UInt32)
  | Sleep
deriving DecidableEq, Repr

structure PipelineConfig where
  input_capacity : Nat
  output_capacity : Nat
  wait : WaitStrategy
  /-- Whether the run opens a journal of its own. -/
  journal_path : Bool
  journal_sync : JournalSync
  capture_inputs : Bool
  /-- Engine sequences between snapshots; zero disables them. -/
  snapshot_interval : UInt64
  snapshot_depth : Nat

inductive FeedSource where
  | Memory (inputs : List EngineInput)
  | Bytes (bytes : List UInt8)

/-! ## Waiting -/

/-- How long one call has been waiting. -/
structure Backoff where
  strategy : WaitStrategy
  attempt : UInt32

inductive Pause where
  | spin_loop
  | yield_now
  | sleep

def Backoff.wait (self : Backoff) : Eval (Backoff × Pause) :=
  let self := { self with attempt := .ofNat (min (self.attempt.toNat + 1) (2 ^ 32 - 1)) }
  match self.strategy with
  | .BusySpin => pure (self, .spin_loop)
  | .Adaptive spins yields =>
    if self.attempt ≤ spins then pure (self, .spin_loop)
    else do
      let limit ← expect (checked_add spins yields) "attempt to add with overflow"
      pure (self, if self.attempt ≤ limit then .yield_now else .sleep)
  | .Sleep => pure (self, .sleep)

/-! ## Control -/

structure ControlHandle where
  kill : Bool
  capacity : Nat
  commands : List ControlCommand
  shutdown : Bool

def ControlHandle.engage_kill (control : ControlHandle) : ControlHandle := { control with kill := true }

def ControlHandle.release_kill (control : ControlHandle) : ControlHandle := { control with kill := false }

/-- A command that finds the queue full is not taken. -/
def ControlHandle.submit (control : ControlHandle) (command : ControlCommand) : ControlHandle × Bool :=
  if control.commands.length < control.capacity then ({ control with commands := control.commands ++ [command] }, true)
  else (control, false)

def ControlHandle.request_shutdown (control : ControlHandle) : ControlHandle := { control with shutdown := true }

/-- What `run_with_journal` is called with, and the journal of the caller. -/
structure Launch where
  allocator : SlabAllocator
  engine_config : EngineConfig
  /-- The run of the configuration, which the engine itself never reads. -/
  run_id : U128
  pipeline_config : PipelineConfig
  source : FeedSource
  control : ControlHandle
  journal : Option JournalWriter

/-! ## Threads -/

inductive FeedPc where
  | next
  | send (input : EngineInput) (look : SendAt)
  | ended
deriving DecidableEq

structure FeedThread where
  /-- What is left of the source. -/
  source : FeedSource
  produced : Nat
  decode_errors : Nat
  pc : FeedPc

/-- `Engine`. What went into the input digest is listed. -/
structure Engine (n m : Nat) where
  core : TradingCore n m
  recorder : List EngineInput
  captured : Option (List EngineInput)

inductive EnginePc where
  | receive (look : RecvAt)
  /-- An input is pending, and `output_failed` comes next, or the latch. -/
  | pending (input : EngineInput)
  | latch (input : EngineInput)
  | drain (input : EngineInput) (requested_kill : Bool)
  /-- The outputs of an input are sent; after those of a command the queue of commands is next. -/
  | send (batch : List OutputEvent) (look : SendAt) (pending : Option (EngineInput × Bool))
  | left (output_lost : Bool)
  | ended (output_lost : Bool)
  | panicked
deriving DecidableEq

inductive OutputPc where
  | start
  | poll
  | drained
  | receive (look : RecvAt)
  | record (event : OutputEvent)
  | group
  | failed
  | closing
  | ended
deriving DecidableEq

structure OutputThread where
  /-- Also a writer that could not write its header. -/
  writer : Option JournalWriter
  /-- What went into the output digest. -/
  recorder : List OutputEvent
  since_flush : Nat
  journal_records : Nat
  journal_error : Bool
  pc : OutputPc

/-- What the file system answers during a step: whether it creates the file, how much it
takes in every write, and whether it syncs. -/
structure Disk where
  created : Bool := true
  takes : List Nat := []
  flushed : Nat := 0
  synced : Bool := true

structure Pipeline (n m : Nat) where
  control : ControlHandle
  input : Channel EngineInput
  output : Channel OutputEvent
  output_failed : Bool
  feed : FeedThread
  engine : Engine n m
  engine_pc : EnginePc
  /-- Ghost state: the commands taken from the queue since the latch was read. -/
  popped : List ControlCommand
  /-- Ghost state: the snapshots taken. -/
  published : List EngineSnapshot
  writing : OutputThread

inductive PipelineMove where
  | feed
  | engine
  | output (disk : Disk)
  | engage_kill
  | release_kill
  | submit (command : ControlCommand)
  | request_shutdown
  /-- A thread that ended drops its ends of the queues, in any order. -/
  | drop_input_tx
  | drop_input_rx
  | drop_output_tx
  | drop_output_rx (disk : Disk)

/-! ## The feed thread -/

section Feed
variable (crc32 : List UInt8 → UInt32)

def FeedThread.new : FeedSource → FeedThread
  | .Memory inputs => ⟨.Memory inputs, 0, 0, .next⟩
  | .Bytes bytes =>
    match FileHeader.decode crc32 bytes with
    | .ok (_, consumed) => ⟨.Bytes (bytes.drop consumed), 0, 0, .next⟩
    | .error _ => ⟨.Bytes [], 0, 1, .next⟩

/-- The loop of either source up to its `send`. -/
def FeedThread.next (feed : FeedThread) (shutdown : Bool) : FeedThread :=
  match feed.source with
  | .Memory [] | .Bytes [] => { feed with pc := .ended }
  | .Memory (input :: inputs) =>
    if shutdown then { feed with pc := .ended }
    else { feed with source := .Memory inputs, produced := feed.produced + 1, pc := .send input .push }
  | .Bytes bytes =>
    if shutdown then { feed with pc := .ended }
    else
      match Frame.decode crc32 bytes with
      | .ok (frame, consumed) =>
        { feed with
          source := .Bytes (bytes.drop consumed)
          produced := feed.produced + 1
          pc := .send (from_frame frame (.ofNat (feed.produced + 1))) .push }
      -- Strict replay stops at the first malformed frame.
      | .error _ => { feed with decode_errors := feed.decode_errors + 1, pc := .ended }

end Feed

/-! ## The engine thread -/

section EngineThread
variable {n m : Nat}

def Engine.new (core : TradingCore n m) (capture_inputs : Bool) : Engine n m :=
  ⟨core, [], if capture_inputs then some [] else none⟩

/-- The input an event becomes. Commands carry no arrival time and take the engine clock. -/
def Engine.sequenced (engine : Engine n m) (event : InputEvent) (recv_time_ns : Option UInt64) : EngineInput where
  ingress_seq := .ofNat (engine.recorder.length + 1)
  recv_time_ns := recv_time_ns.getD engine.core.engine_time_ns
  event := event

/-- `Engine::apply` up to the sends. -/
def Engine.apply (engine : Engine n m) (event : InputEvent) (recv_time_ns : Option UInt64) :
    Engine n m × Eval (List OutputEvent) :=
  let input := engine.sequenced event recv_time_ns
  let engine := { engine with
    recorder := engine.recorder ++ [input]
    captured := engine.captured.map (· ++ [input]) }
  match engine.core.apply input with
  | .ok (core, batch) => ({ engine with core := core }, .ok batch)
  | .error panic => (engine, .error panic)

/-- Where the loop goes on once the outputs are sent. -/
def EnginePc.resume : Option (EngineInput × Bool) → EnginePc
  | some (input, requested_kill) => .drain input requested_kill
  | none => .receive .pop

/-- An input is applied, and its outputs are sent next. -/
def Pipeline.applies (s : Pipeline n m) (event : InputEvent) (recv_time_ns : Option UInt64)
    (pending : Option (EngineInput × Bool)) : Pipeline n m :=
  match s.engine.apply event recv_time_ns with
  | (engine, .ok batch) => { s with engine := engine, engine_pc := .send batch .push pending }
  | (engine, .error _) => { s with engine := engine, engine_pc := .panicked }

/-- A snapshot is taken if one is due, and the thread goes on. -/
def Pipeline.observe (s : Pipeline n m) (launch : Launch) (due : Bool) (pc : EnginePc) : Pipeline n m :=
  if due then
    match s.engine.core.capture launch.run_id launch.pipeline_config.snapshot_depth with
    | .ok snapshot => { s with published := s.published ++ [snapshot], engine_pc := pc }
    | .error _ => { s with engine_pc := .panicked }
  else { s with engine_pc := pc }

def Pipeline.engine_step (launch : Launch) (s : Pipeline n m) : Option (Pipeline n m) :=
  let interval := launch.pipeline_config.snapshot_interval
  match s.engine_pc with
  | .receive look =>
    match s.input.recv look with
    | (input, .cont look) => some { s with input := input, engine_pc := .receive look }
    | (input, .done (some value)) => some { s with input := input, engine_pc := .pending value }
    | (input, .done none) => some { s with input := input, engine_pc := .left false }
  | .pending input =>
    if s.output_failed then some { s with engine_pc := .left true } else some { s with engine_pc := .latch input }
  | .latch input =>
    let requested_kill := s.control.kill
    let s := { s with popped := [] }
    if requested_kill ≠ s.engine.core.global_kill then
      some (s.applies (.Control (.SetGlobalKill requested_kill)) none (some (input, requested_kill)))
    else some { s with engine_pc := .drain input requested_kill }
  | .drain input requested_kill =>
    match s.control.commands with
    | command :: commands =>
      let s := { s with control := { s.control with commands := commands }, popped := s.popped ++ [command] }
      some (s.applies (.Control command) none (some (input, requested_kill)))
    | [] => some (s.applies input.event (some input.recv_time_ns) none)
  -- A snapshot can be due after an input, not after a command.
  | .send [] _ pending =>
    some (s.observe launch (pending = none ∧ 0 < interval ∧ s.engine.core.engine_seq % interval = 0) (.resume pending))
  | .send (event :: batch) look pending =>
    match s.output.send event look with
    | (output, .cont look) => some { s with output := output, engine_pc := .send (event :: batch) look pending }
    | (output, .done true) => some { s with output := output, engine_pc := .send batch .push pending }
    | (output, .done false) => some { s with output := output, engine_pc := .left true }
  | .left output_lost =>
    let s := { s with control := if output_lost then s.control.request_shutdown else s.control }
    some (s.observe launch (0 < interval) (.ended output_lost))
  | .ended _ | .panicked => none

end EngineThread

/-! ## The output thread -/

section Output
variable (crc32 : List UInt8 → UInt32)

/-- The buffer of a `BufWriter` that is made without a capacity. -/
def BUFFER_LEN : Nat := 8192

/-- The journal is opened: the caller's, or one at the configured path. -/
def OutputThread.start (journal : Option JournalWriter) (journal_path : Bool) (run_id : U128) (disk : Disk)
    (thread : OutputThread) : OutputThread :=
  match journal, journal_path with
  | some writer, _ => { thread with writer := some writer, pc := .poll }
  | none, true =>
    if disk.created then
      match JournalWriter.with_sink BUFFER_LEN run_id (disk.takes.headD 0) disk.flushed with
      | (writer, true) => { thread with writer := some writer, pc := .poll }
      | (writer, false) => { thread with writer := some writer, journal_error := true, pc := .ended }
    else { thread with journal_error := true, pc := .ended }
  | none, false => { thread with pc := .poll }

/-- The queue drained, so publish the partial group. -/
def OutputThread.publish (sync : JournalSync) (disk : Disk) (thread : OutputThread) : OutputThread :=
  match sync with
  | .GroupCommit _ =>
    if 0 < thread.since_flush then
      match thread.writer with
      | some writer =>
        match writer.flush disk.flushed with
        | (writer, true) => { thread with writer := some writer, since_flush := 0, pc := .receive .pop }
        | (writer, false) => { thread with writer := some writer, journal_error := true, pc := .failed }
      | none => { thread with since_flush := 0, pc := .receive .pop }
    else { thread with pc := .receive .pop }
  | _ => { thread with pc := .receive .pop }

def OutputThread.record (event : OutputEvent) (disk : Disk) (thread : OutputThread) : OutputThread :=
  let thread := { thread with recorder := thread.recorder ++ [event] }
  match thread.writer with
  | none => { thread with pc := .poll }
  | some writer =>
    match writer.append crc32 event disk.takes with
    | (writer, true) => { thread with writer := some writer, since_flush := thread.since_flush + 1, pc := .group }
    | (writer, false) => { thread with writer := some writer, journal_error := true, pc := .failed }

/-- After a record, `journal_sync` decides. -/
def OutputThread.group (sync : JournalSync) (disk : Disk) (thread : OutputThread) : OutputThread :=
  match thread.writer with
  | none => { thread with pc := .poll }
  | some writer =>
    let result := match sync with
      | .Buffered => none
      | .GroupCommit records => if max records 1 ≤ thread.since_flush then some (writer.flush disk.flushed) else none
      | .Durable => some (writer.sync disk.flushed disk.synced)
    match result with
    | some (writer, false) => { thread with writer := some writer, journal_error := true, pc := .failed }
    | some (writer, true) => { thread with writer := some writer, since_flush := 0, pc := .poll }
    | none => { thread with pc := .poll }

def OutputThread.close (disk : Disk) (thread : OutputThread) : OutputThread :=
  match thread.writer with
  | none => { thread with pc := .ended }
  | some writer =>
    let (synced, ok) := writer.sync disk.flushed disk.synced
    { thread with
      writer := some synced
      journal_records := writer.records
      journal_error := thread.journal_error || !ok
      pc := .ended }

/-- A writer that is dropped tries to flush what it has, and tells nobody. -/
def OutputThread.drop (disk : Disk) (thread : OutputThread) : OutputThread :=
  { thread with writer := thread.writer.map fun writer => (writer.flush disk.flushed).1 }

end Output

/-! ## The system -/

namespace Pipeline
variable (crc32 : List UInt8 → UInt32) {n m : Nat}

def output_step (launch : Launch) (disk : Disk) (s : Pipeline n m) : Option (Pipeline n m) :=
  let thread := s.writing
  let sync := launch.pipeline_config.journal_sync
  match thread.pc with
  | .start =>
    let thread := thread.start launch.journal launch.pipeline_config.journal_path launch.run_id disk
    some { s with writing := thread, output_failed := s.output_failed || thread.journal_error }
  | .poll =>
    match s.output.try_recv with
    | (output, some event) => some { s with output := output, writing := { thread with pc := .record event } }
    | (output, none) => some { s with output := output, writing := { thread with pc := .drained } }
  | .drained => some { s with writing := thread.publish sync disk }
  | .receive look =>
    match s.output.recv look with
    | (output, .cont look) => some { s with output := output, writing := { thread with pc := .receive look } }
    | (output, .done (some event)) => some { s with output := output, writing := { thread with pc := .record event } }
    | (output, .done none) => some { s with output := output, writing := { thread with pc := .closing } }
  | .record event => some { s with writing := thread.record crc32 event disk }
  | .group => some { s with writing := thread.group sync disk }
  -- Tell the engine at once instead of waiting for the queue to fill.
  | .failed => some { s with output_failed := true, writing := { thread with pc := .closing } }
  | .closing => some { s with writing := thread.close disk }
  | .ended => none

def feed_step (s : Pipeline n m) : Option (Pipeline n m) :=
  match s.feed.pc with
  | .next => some { s with feed := s.feed.next crc32 s.control.shutdown }
  | .send input look =>
    match s.input.send input look with
    | (queue, .cont look) => some { s with input := queue, feed := { s.feed with pc := .send input look } }
    | (queue, .done true) => some { s with input := queue, feed := { s.feed with pc := .next } }
    | (queue, .done false) => some { s with input := queue, feed := { s.feed with pc := .ended } }
  | .ended => none

/-- The engine thread is over, in one way or the other. -/
def engine_over (s : Pipeline n m) : Bool := s.engine_pc matches .ended _ | .panicked

def step (launch : Launch) (s : Pipeline n m) : PipelineMove → Option (Pipeline n m)
  | .feed => s.feed_step crc32
  | .engine => s.engine_step launch
  | .output disk => s.output_step crc32 launch disk
  | .engage_kill => some { s with control := s.control.engage_kill }
  | .release_kill => some { s with control := s.control.release_kill }
  | .submit command => some { s with control := (s.control.submit command).1 }
  | .request_shutdown => some { s with control := s.control.request_shutdown }
  | .drop_input_tx => if s.feed.pc matches .ended then some { s with input := { s.input with sender := false } } else none
  | .drop_input_rx => if s.engine_over then some { s with input := { s.input with receiver := false } } else none
  | .drop_output_tx => if s.engine_over then some { s with output := { s.output with sender := false } } else none
  | .drop_output_rx disk =>
    if s.writing.pc = .ended then
      some { s with output := { s.output with receiver := false }, writing := s.writing.drop disk }
    else none

def init (launch : Launch) :
    Pipeline launch.engine_config.instruments.length launch.engine_config.accounts.length where
  control := launch.control
  input := .bounded launch.pipeline_config.input_capacity
  output := .bounded launch.pipeline_config.output_capacity
  output_failed := false
  feed := .new crc32 launch.source
  engine := .new (.new launch.allocator launch.engine_config) launch.pipeline_config.capture_inputs
  engine_pc := .receive .pop
  popped := []
  published := []
  writing := ⟨none, [], 0, 0, false, .start⟩

end Pipeline

/-! ## The result -/

/-- `RunSummary`, with what the three digests are taken of in their places. -/
structure RunSummary (n m : Nat) where
  inputs : Nat
  feed_inputs : Nat
  captured_inputs : List EngineInput
  outputs : Nat
  trades : UInt64
  journal_records : Nat
  input_stream : List EngineInput
  output_stream : List OutputEvent
  final_state : TradingCore n m
  decode_errors : Nat

inductive RuntimeError where
  | Journal
  | OutputUnavailable (inputs_applied : Nat)

/-- What `run_with_journal` returns once every thread is joined; nothing if one of them panicked. -/
def Pipeline.result {n m : Nat} (s : Pipeline n m) : Option (Except RuntimeError (RunSummary n m)) :=
  match s.feed.pc, s.engine_pc, s.writing.pc with
  | .ended, .ended output_lost, .ended =>
    if s.writing.journal_error then some (.error .Journal)
    else if output_lost then some (.error (.OutputUnavailable s.engine.recorder.length))
    else some (.ok {
      inputs := s.engine.recorder.length
      feed_inputs := s.feed.produced
      captured_inputs := s.engine.captured.getD []
      outputs := s.writing.recorder.length
      trades := s.engine.core.metrics.trades
      journal_records := s.writing.journal_records
      input_stream := s.engine.recorder
      output_stream := s.writing.recorder
      final_state := s.engine.core
      decode_errors := s.feed.decode_errors })
  | _, _, _ => none

end TradingLab
