import TradingLab.Pipeline
import TradingLab.Runs
/-!
# The engine thread

What a step of the engine thread does, and that no other thread reaches into it. The
kill state of the core is the latch only as long as no command says otherwise.
-/
open LabLib

namespace TradingLab

section Runs
variable {crc32 : List UInt8 → UInt32} {launch : Launch} {n m : Nat} {s s' : Pipeline n m} {move : PipelineMove}

/-! ## What a step does -/

/-- What is left of a snapshot: it is among those published, or the thread panicked. -/
theorem observe_cases (s : Pipeline n m) (launch : Launch) (due : Bool) (pc : EnginePc) :
    ∃ published pc', s.observe launch due pc = { s with published := published, engine_pc := pc' } ∧
      (published = s.published ∨ due = true ∧ ∃ snapshot,
        s.engine.core.capture launch.run_id launch.pipeline_config.snapshot_depth = .ok snapshot ∧
        published = s.published ++ [snapshot]) ∧
      (pc' = pc ∨ pc' = .panicked ∧ due = true ∧
        ∃ panic, s.engine.core.capture launch.run_id launch.pipeline_config.snapshot_depth = .error panic) := by
  rw [Pipeline.observe]
  cases due with
  | false => exact ⟨_, pc, rfl, .inl rfl, .inl rfl⟩
  | true =>
    cases hcapture : s.engine.core.capture launch.run_id launch.pipeline_config.snapshot_depth with
    | ok snapshot => exact ⟨_, pc, rfl, .inr ⟨rfl, snapshot, rfl, rfl⟩, .inl rfl⟩
    | error panic => exact ⟨_, .panicked, rfl, .inl rfl, .inr ⟨rfl, rfl, panic, rfl⟩⟩

/-- A step of the engine thread. -/
inductive EngineMoved (launch : Launch) (s : Pipeline n m) : Pipeline n m → Prop where
  | receives {look : RecvAt} {input : Channel EngineInput} {pc : EnginePc} : s.engine_pc = .receive look →
    input.capacity = s.input.capacity →
    ((∃ look, pc = .receive look) ∨ (∃ value, pc = .pending value) ∨ pc = .left false) →
    EngineMoved launch s { s with input := input, engine_pc := pc }
  | goes_on {input : EngineInput} {pc : EnginePc} : s.engine_pc = .pending input → (pc = .left true ∨ pc = .latch input) →
    EngineMoved launch s { s with engine_pc := pc }
  | agrees {input : EngineInput} : s.engine_pc = .latch input → s.control.kill = s.engine.core.global_kill →
    EngineMoved launch s { s with popped := [], engine_pc := .drain input s.control.kill }
  | syncs {input : EngineInput} : s.engine_pc = .latch input →
    EngineMoved launch s ({ s with popped := [] }.applies (.Control (.SetGlobalKill s.control.kill)) none
      (some (input, s.control.kill)))
  | commands {input : EngineInput} {requested_kill : Bool} {command : ControlCommand} {commands : List ControlCommand} :
    s.engine_pc = .drain input requested_kill → s.control.commands = command :: commands →
    EngineMoved launch s ({ s with control := { s.control with commands := commands }, popped := s.popped ++ [command] }.applies
      (.Control command) none (some (input, requested_kill)))
  | feeds {input : EngineInput} {requested_kill : Bool} : s.engine_pc = .drain input requested_kill →
    s.control.commands = [] → EngineMoved launch s (s.applies input.event (some input.recv_time_ns) none)
  | resumes {look : SendAt} {pending : Option (EngineInput × Bool)} {due : Bool} : s.engine_pc = .send [] look pending →
    (due = true → 0 < launch.pipeline_config.snapshot_interval) →
    EngineMoved launch s (s.observe launch due (.resume pending))
  | waits {event : OutputEvent} {batch : List OutputEvent} {look look' : SendAt} {pending : Option (EngineInput × Bool)} :
    s.engine_pc = .send (event :: batch) look pending →
    EngineMoved launch s { s with engine_pc := .send (event :: batch) look' pending }
  | sends {event : OutputEvent} {batch : List OutputEvent} {look : SendAt} {pending : Option (EngineInput × Bool)} :
    s.engine_pc = .send (event :: batch) look pending →
    EngineMoved launch s { s with
      output := { s.output with items := s.output.items ++ [event] }
      engine_pc := .send batch .push pending }
  | loses {event : OutputEvent} {batch : List OutputEvent} {look : SendAt} {pending : Option (EngineInput × Bool)} :
    s.engine_pc = .send (event :: batch) look pending → EngineMoved launch s { s with engine_pc := .left true }
  | ends {output_lost : Bool} {control : ControlHandle} {due : Bool} : s.engine_pc = .left output_lost →
    (due = true → 0 < launch.pipeline_config.snapshot_interval) →
    EngineMoved launch s ({ s with control := control }.observe launch due (.ended output_lost))

theorem engine_step_moved (h : s.engine_step launch = some s') : EngineMoved launch s s' := by
  rw [Pipeline.engine_step] at h
  split at h
  · rename_i look hpc
    split at h <;> rename_i hrecv <;> cases h
    · exact .receives hpc (Channel.recv_capacity hrecv) (.inl ⟨_, rfl⟩)
    · exact .receives hpc (Channel.recv_capacity hrecv) (.inr (.inl ⟨_, rfl⟩))
    · exact .receives hpc (Channel.recv_capacity hrecv) (.inr (.inr rfl))
  · rename_i input hpc
    split at h <;> cases h
    · exact .goes_on hpc (.inl rfl)
    · exact .goes_on hpc (.inr rfl)
  · rename_i input hpc
    dsimp only at h
    split at h <;> cases h
    · exact .syncs hpc
    · rename_i hsame
      exact .agrees hpc (not_not.1 hsame)
  · rename_i input requested_kill hpc
    split at h <;> cases h
    · rename_i hcommands
      exact .commands hpc hcommands
    · rename_i hcommands
      exact .feeds hpc hcommands
  · rename_i look pending hpc
    cases h
    exact .resumes hpc fun hdue => (of_decide_eq_true hdue).2.1
  · rename_i event batch look pending hpc
    split at h <;> cases h
    · rename_i hsend
      rcases Channel.send_cases hsend with ⟨hdone, -⟩ | ⟨rfl, -⟩
      · cases hdone
      · exact .waits hpc
    · rename_i hsend
      rcases Channel.send_cases hsend with ⟨-, rfl⟩ | ⟨-, hdone | ⟨_, hdone⟩⟩
      · exact .sends hpc
      · cases hdone
      · cases hdone
    · rename_i hsend
      rcases Channel.send_cases hsend with ⟨hdone, -⟩ | ⟨rfl, -⟩
      · cases hdone
      · exact .loses hpc
  · rename_i output_lost hpc
    cases h
    exact .ends hpc of_decide_eq_true
  · cases h
  · cases h

/-- The engine thread is only changed by its own steps. -/
structure EngineKept (s s' : Pipeline n m) : Prop where
  engine : s'.engine = s.engine
  pc : s'.engine_pc = s.engine_pc
  popped : s'.popped = s.popped
  published : s'.published = s.published

theorem feed_step_kept (h : s.feed_step crc32 = some s') :
    EngineKept s s' ∧ s'.output = s.output ∧ s'.writing = s.writing := by
  rw [Pipeline.feed_step] at h
  split at h
  · cases h
    exact ⟨⟨rfl, rfl, rfl, rfl⟩, rfl, rfl⟩
  · split at h <;> cases h <;> exact ⟨⟨rfl, rfl, rfl, rfl⟩, rfl, rfl⟩
  · cases h

theorem output_step_kept {disk : Disk} (h : s.output_step crc32 launch disk = some s') : EngineKept s s' := by
  rw [Pipeline.output_step] at h
  dsimp only at h
  split at h
  case h_2 | h_4 => split at h <;> cases h <;> exact ⟨rfl, rfl, rfl, rfl⟩
  case h_9 => cases h
  all_goals
    cases h
    exact ⟨rfl, rfl, rfl, rfl⟩

theorem step_engine (h : s.step crc32 launch move = some s') : EngineMoved launch s s' ∨ EngineKept s s' := by
  cases move with
  | feed => exact .inr (feed_step_kept h).1
  | engine => exact .inl (engine_step_moved h)
  | output disk => exact .inr (output_step_kept h)
  | engage_kill | release_kill | submit | request_shutdown =>
    cases h
    exact .inr ⟨rfl, rfl, rfl, rfl⟩
  | drop_input_tx | drop_input_rx | drop_output_tx | drop_output_rx =>
    simp only [Pipeline.step, Option.ite_none_right_eq_some] at h
    obtain ⟨-, h⟩ := h
    cases h
    exact .inr ⟨rfl, rfl, rfl, rfl⟩

/-! ## The kill latch -/

/-- What a command sets the kill state to, if it does. -/
def ControlCommand.kill : ControlCommand → Option Bool
  | SetGlobalKill engaged => some engaged
  | _ => none

/-- What the last of the commands that set the kill state sets it to. -/
def lastKill (commands : List ControlCommand) : Option Bool :=
  commands.foldl (fun kill command => command.kill.or kill) none

/-- The input that waits until the commands are through, with the latch as it was read. -/
def EnginePc.held : EnginePc → Option (EngineInput × Bool)
  | .drain input requested_kill => some (input, requested_kill)
  | .send _ _ after => after
  | _ => none

/-- The kill state is the latch as it was read, or what the last command since said. -/
def Latched (s : Pipeline n m) : Prop :=
  ∀ input requested_kill, s.engine_pc.held = some (input, requested_kill) → s.engine.core.fault = none →
    s.engine.core.global_kill = (lastKill s.popped).getD requested_kill

theorem push_state_kill (c : TradingCore n m) (event : EngineStateEvent) :
    (c.push_state event).1.global_kill = c.global_kill := by
  simp only [TradingCore.push_state, TradingCore.take_output_seq]
  split <;> rfl

theorem apply_control_kill (c : TradingCore n m) (command : ControlCommand) :
    (c.apply_control command).1.global_kill = command.kill.getD c.global_kill := by
  cases command with
  | SetGlobalKill engaged =>
    simp only [TradingCore.apply_control]
    split
    · rename_i hsame
      exact hsame
    · rw [push_state_kill]
      rfl
  | SetAccountEnabled account enabled =>
    simp only [TradingCore.apply_control]
    split
    · rfl
    · split
      · rfl
      · rw [push_state_kill]
        rfl
  | SetAccountLimits account limits =>
    simp only [TradingCore.apply_control]
    split
    · rfl
    · rw [push_state_kill]
      rfl

/-- A command that leaves no fault was applied. -/
theorem apply_command_kill {c c' : TradingCore n m} {input : EngineInput} {command : ControlCommand}
    {out : List OutputEvent} (hinput : input.event = .Control command) (h : c.apply input = .ok (c', out))
    (hfault : c'.fault = none) :
    c.fault = none ∧ c'.global_kill = command.kill.getD c.global_kill := by
  rcases apply_cases h with ⟨hsome, rfl, -⟩ | ⟨-, rfl, -⟩ | ⟨seq, c₁, hnone, -, hevent, rfl⟩
  · rw [hfault] at hsome
    cases hsome
  · cases hfault
  · rw [hinput, TradingCore.apply_event] at hevent
    have hcontrol := congrArg (fun r => r.1.global_kill) (Except.ok.inj hevent)
    exact ⟨hnone, hcontrol.symm.trans (apply_control_kill _ command)⟩

theorem lastKill_snoc (commands : List ControlCommand) (command : ControlCommand) :
    lastKill (commands ++ [command]) = command.kill.or (lastKill commands) := by
  rw [lastKill, List.foldl_append]
  rfl

/-- What an applied event leaves: the outputs to send, or a panic. -/
theorem applies_cases (s : Pipeline n m) (event : InputEvent) (recv_time_ns : Option UInt64)
    (pending : Option (EngineInput × Bool)) :
    (∃ core batch, s.engine.core.apply (s.engine.sequenced event recv_time_ns) = .ok (core, batch) ∧
      s.applies event recv_time_ns pending = { s with
        engine := {
          core := core
          recorder := s.engine.recorder ++ [s.engine.sequenced event recv_time_ns]
          captured := s.engine.captured.map (· ++ [s.engine.sequenced event recv_time_ns]) }
        engine_pc := .send batch .push pending }) ∨
    ∃ panic, s.engine.core.apply (s.engine.sequenced event recv_time_ns) = .error panic ∧
      s.applies event recv_time_ns pending = { s with
        engine := {
          core := s.engine.core
          recorder := s.engine.recorder ++ [s.engine.sequenced event recv_time_ns]
          captured := s.engine.captured.map (· ++ [s.engine.sequenced event recv_time_ns]) }
        engine_pc := .panicked } := by
  rw [Pipeline.applies, Engine.apply]
  dsimp only
  cases happly : s.engine.core.apply (s.engine.sequenced event recv_time_ns) with
  | ok r => exact .inl ⟨r.1, r.2, rfl, rfl⟩
  | error panic => exact .inr ⟨panic, rfl, rfl⟩

/-- After a command the kill state is what it says, if it is one for the kill state. -/
theorem latched_applies {command : ControlCommand} {pending : EngineInput × Bool}
    (h : s.engine.core.fault = none →
      command.kill.getD s.engine.core.global_kill = (lastKill s.popped).getD pending.2) :
    Latched (s.applies (.Control command) none (some pending)) := by
  intro input requested_kill hheld hfault
  rcases applies_cases s (.Control command) none (some pending) with ⟨core, batch, happly, heq⟩ | ⟨panic, -, heq⟩
  · rw [heq] at hheld hfault ⊢
    cases hheld
    obtain ⟨hnone, hkill⟩ := apply_command_kill rfl happly hfault
    exact hkill.trans (h hnone)
  · rw [heq] at hheld
    cases hheld

theorem Latched.engine (h : Latched s) (hstep : EngineMoved launch s s') : Latched s' := by
  cases hstep with
  | receives _ _ hpc =>
    intro input requested_kill hheld
    rcases hpc with ⟨_, rfl⟩ | ⟨_, rfl⟩ | rfl <;> cases hheld
  | goes_on _ hpc =>
    intro input requested_kill hheld
    rcases hpc with rfl | rfl <;> cases hheld
  | agrees _ hsame =>
    intro input requested_kill hheld _
    cases hheld
    exact hsame.symm
  | syncs => exact latched_applies fun _ => rfl
  | @commands input requested_kill command _ hpc =>
    refine latched_applies fun hfault => ?_
    have hkill := h input requested_kill (by rw [hpc]; rfl) hfault
    change _ = (lastKill (s.popped ++ [command])).getD requested_kill
    rw [lastKill_snoc, Option.getD_or]
    exact congrArg command.kill.getD hkill
  | @feeds input _ =>
    intro _ _ hheld
    rcases applies_cases s input.event (some input.recv_time_ns) none with ⟨core, batch, -, heq⟩ | ⟨panic, -, heq⟩ <;>
      · rw [heq] at hheld
        cases hheld
  | @resumes look pending due hpc =>
    obtain ⟨published, pc, heq, -, hnext⟩ := observe_cases s launch due (.resume pending)
    rw [heq]
    intro input requested_kill hheld
    refine h input requested_kill ?_
    rw [hpc]
    rcases hnext with rfl | ⟨rfl, -⟩
    · cases pending with
      | none => cases hheld
      | some pending => exact hheld
    · cases hheld
  | waits hpc =>
    intro input requested_kill hheld
    exact h input requested_kill (by rw [hpc]; exact hheld)
  | sends hpc =>
    intro input requested_kill hheld
    exact h input requested_kill (by rw [hpc]; exact hheld)
  | loses =>
    intro _ _ hheld
    cases hheld
  | @ends output_lost control due =>
    obtain ⟨published, pc, heq, -, hnext⟩ := observe_cases { s with control := control } launch due (.ended output_lost)
    rw [heq]
    intro _ _ hheld
    rcases hnext with rfl | ⟨rfl, -⟩ <;> cases hheld

theorem Latched.step (h : Latched s) (hstep : s.step crc32 launch move = some s') : Latched s' := by
  rcases step_engine hstep with hmoved | hkept
  · exact h.engine hmoved
  · intro input requested_kill
    rw [hkept.pc, hkept.engine, hkept.popped]
    exact h input requested_kill

end Runs

/-- The input that the engine applies next meets the kill state that the latch had in this
iteration just if the last command for the kill state since then says the same. -/
theorem input_meets_latch_iff {crc32 : List UInt8 → UInt32} {launch : Launch}
    {s : Pipeline launch.engine_config.instruments.length launch.engine_config.accounts.length}
    {input : EngineInput} {requested_kill : Bool}
    (h : Reach (Pipeline.step crc32 launch) (fun _ _ => True) (Pipeline.init crc32 launch) s)
    (hpc : s.engine_pc = .drain input requested_kill) (hcommands : s.control.commands = [])
    (hfault : s.engine.core.fault = none) :
    s.engine_step launch = some (s.applies input.event (some input.recv_time_ns) none) ∧
      (s.engine.core.global_kill = requested_kill ↔ ∀ engaged, lastKill s.popped = some engaged → engaged = requested_kill) := by
  have hlatched := h.inv Latched (fun _ _ hheld => by cases hheld) fun s move s' hs _ hstep => hs.step hstep
  refine ⟨?_, ?_⟩
  · rw [Pipeline.engine_step, hpc]
    dsimp only
    rw [hcommands]
  · rw [hlatched input requested_kill (by rw [hpc]; rfl) hfault]
    cases lastKill s.popped with
    | none => simp
    | some engaged => simp

/-! A market that opens, and one order after it. -/

def orderLaunch : Launch where
  allocator := freeListAllocator
  engine_config := smallConfig smallLimits [1, 2]
  run_id := 7
  pipeline_config := {
    input_capacity := 4
    output_capacity := 4
    wait := .Adaptive 200 20
    journal_path := true
    journal_sync := .Buffered
    capture_inputs := true
    snapshot_interval := 2
    snapshot_depth := 1 }
  source := .Memory (opening ++ [placed 1 1 .Buy 99 1])
  control := ⟨false, 4, [], false⟩
  journal := none

/-- The market is open; then the latch is engaged, a command is submitted, and the engine takes the order. -/
def orderComes (command : ControlCommand) : List PipelineMove :=
  List.replicate 6 .feed ++ List.replicate 17 .engine ++ [.engage_kill, .submit command, .feed, .feed] ++
    List.replicate 8 .engine

/-- An account is disabled while the latch is engaged. -/
theorem input_meets_latch_iff_small :
    ∃ s, Reach (Pipeline.step (fun _ => 7) orderLaunch) (fun _ _ => True) (Pipeline.init (fun _ => 7) orderLaunch) s ∧
      s.popped = [.SetAccountEnabled 2 false] ∧ s.engine.core.global_kill = true := by
  have hwalk : ∃ s ∈ walk (Pipeline.step (fun _ => 7) orderLaunch) (fun _ _ => True) (Pipeline.init (fun _ => 7) orderLaunch)
      (orderComes (.SetAccountEnabled 2 false)),
      s.engine_pc = .drain (placed 1 1 .Buy 99 1) true ∧ s.control.commands = [] ∧ s.engine.core.fault = none ∧
        s.popped = [.SetAccountEnabled 2 false] := by
    decide +kernel
  obtain ⟨s, hs, hpc, hcommands, hfault, hpopped⟩ := hwalk
  have hreach := reach_of_walk hs
  have hmeets := (input_meets_latch_iff hreach hpc hcommands hfault).2
  rw [hpopped] at hmeets
  exact ⟨s, hreach, hpopped, hmeets.2 nofun⟩

/-- A command releases the kill state that the latch has just engaged: the engine has read the latch
as engaged, and takes the order with trading enabled. -/
theorem input_misses_latch :
    ∃ s ∈ walk (Pipeline.step (fun _ => 7) orderLaunch) (fun _ _ => True) (Pipeline.init (fun _ => 7) orderLaunch)
      (orderComes (.SetGlobalKill false)),
      s.engine_pc = .drain (placed 1 1 .Buy 99 1) true ∧ s.control.kill = true ∧ s.control.commands = [] ∧
      s.engine.core.fault = none ∧ s.engine.core.global_kill = false ∧
      ∃ s' ∈ s.engine_step orderLaunch, (s'.engine.core.live_orders.lookup 1).isSome = true := by
  decide +kernel

end TradingLab
