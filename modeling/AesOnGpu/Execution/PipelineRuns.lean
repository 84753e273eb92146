import AesOnGpu.Execution.Execute

/-! # Runs of the execution pipelines

The SP and SFU units of a `shader_core_ctx` with their ports, over runs in which the operand
collector delivers ready instructions to the ports.  No two instructions ever meet in a register,
and each one comes to EX_WB once, one cycle after its latency.
-/

namespace AesOnGpu.Execution

open Reservations

/-- The options of `shader_core_config`, with the latencies that its `init` sets. -/
structure Config where
  gpgpu_num_sp_units : Nat
  gpgpu_num_sfu_units : Nat
  max_sp_latency : Nat := 32
  max_sfu_latency : Nat := 512
  /-- The widths of OC_EX_SP and OC_EX_SFU. -/
  issue_width : UnitKind → Nat
  /-- The width of EX_WB. -/
  ex_wb_width : Nat
  deep : 0 < max_sp_latency ∧ 0 < max_sfu_latency := by decide

def Config.max_latency (config : Config) : UnitKind → Nat
  | .sp_unit => config.max_sp_latency
  | .sfu => config.max_sfu_latency

theorem Config.max_latency_pos (config : Config) (kind : UnitKind) :
    0 < config.max_latency kind := by
  cases kind with
  | sp_unit => exact config.deep.1
  | sfu => exact config.deep.2

structure Core where
  m_fu : List SimdUnit
  shared : Shared

/-- What happened in a cycle: the instructions that `writeback` completed, and the units' turns. -/
structure CycleLog where
  written : List WarpInst
  units : List UnitLog
  deriving DecidableEq

namespace Core

def new (config : Config) : Core where
  m_fu :=
    List.replicate config.gpgpu_num_sp_units (SimdUnit.new .sp_unit config.max_sp_latency) ++
      List.replicate config.gpgpu_num_sfu_units (SimdUnit.new .sfu config.max_sfu_latency)
  shared := {
    oc_ex := fun kind => RegisterSet.new (config.issue_width kind)
    ex_wb := RegisterSet.new config.ex_wb_width
    m_result_bus := List.replicate config.ex_wb_width 0 }

def cycle (core : Core) : Option (Core × CycleLog) := do
  let (ex_wb, written) := writeback core.shared.ex_wb
  let (shared, m_fu, units) ← execute { core.shared with ex_wb } core.m_fu
  return ({ m_fu, shared }, { written, units })

/-- An instruction comes into a port. -/
def deliver (core : Core) (kind : UnitKind) (inst : WarpInst) : Option Core := do
  let (port, _) ← (core.shared.oc_ex kind).move_in (some inst)
  return { core with shared := { core.shared with
    oc_ex := Function.update core.shared.oc_ex kind port } }

end Core

/-- The cycles of a run; the first one has the number 1. -/
abbrev RunLog := Nat → CycleLog

namespace RunLog

variable (log : RunLog)

def issued (n : Nat) : History := fun T => issuedBy (log T).units n

/-- The instruction that comes from a unit to EX_WB in a cycle. -/
def arrived (n : Nat) : History := fun T => (log T).units[n]?.bind UnitLog.arrived

/-- The instructions that come to EX_WB in a cycle. -/
def arrivals (T : Nat) : List WarpInst := (log T).units.filterMap UnitLog.arrived

def empty : RunLog := fun _ => ⟨[], []⟩

theorem issued_update (T : Nat) (entry : CycleLog) (n : Nat) :
    issued (Function.update log T entry) n =
      Function.update (log.issued n) T (issuedBy entry.units n) := by
  funext other
  by_cases same : other = T
  · subst same
    rw [issued, Function.update_self, Function.update_self]
  · rw [issued, Function.update_of_ne same, Function.update_of_ne same, issued]

theorem issued_of_ne {T other : Nat} (entry : CycleLog) (n : Nat) (differ : other ≠ T) :
    issued (Function.update log T entry) n other = log.issued n other := by
  rw [issued_update, Function.update_of_ne differ]

theorem arrived_of_ne {T other : Nat} (entry : CycleLog) (n : Nat) (differ : other ≠ T) :
    arrived (Function.update log T entry) n other = log.arrived n other := by
  rw [arrived, Function.update_of_ne differ, arrived]

theorem arrivals_of_ne {T other : Nat} (entry : CycleLog) (differ : other ≠ T) :
    arrivals (Function.update log T entry) other = log.arrivals other := by
  rw [arrivals, Function.update_of_ne differ, arrivals]

end RunLog

/-- The runs of a core.  Between two cycles any number of instructions come into free registers of
    the ports, each of them fit for the units that read the port. -/
inductive Run (config : Config) (Allowed : WarpInst → Prop) : Nat → RunLog → Core → Prop
  | start : Run config Allowed 0 RunLog.empty (Core.new config)
  | deliver {clock : Nat} {log : RunLog} {core core' : Core} {kind : UnitKind} {inst : WarpInst}
      (run : Run config Allowed clock log core) (fits : inst.Fits (config.max_latency kind))
      (allowed : Allowed inst) (delivers : core.deliver kind inst = some core') :
      Run config Allowed clock log core'
  | cycle {clock : Nat} {log : RunLog} {core core' : Core} {entry : CycleLog}
      (run : Run config Allowed clock log core) (cycles : core.cycle = some (core', entry)) :
      Run config Allowed (clock + 1) (Function.update log (clock + 1) entry) core'

def WarpInst.Reservable (inst : WarpInst) : Prop := inst.latency < MAX_ALU_LATENCY

/-- The pipelines do not collide: the next cycle fails no assertion and finds all registers that it
    needs, and each instruction comes to EX_WB exactly once, `latency + 1` cycles after its issue,
    from where it is written back in the cycle that follows. -/
structure Flows (clock : Nat) (log : RunLog) (core : Core) : Prop where
  proceeds : core.cycle.isSome
  arrives : ∀ n T inst, log.issued n T = some inst → T + inst.latency + 1 ≤ clock →
    log.arrived n (T + inst.latency + 1) = some inst.counted
  once : ∀ n c reg, log.arrived n c = some reg → ∃! T, ∃ inst, log.issued n T = some inst ∧
    T + inst.latency + 1 = c ∧ reg = inst.counted
  held : List.Perm core.shared.ex_wb.insts (log.arrivals clock)
  written : ∀ c < clock, List.Perm (log (c + 1)).written (log.arrivals c)

/-! ## The invariant -/

/-- What holds between two cycles of a run. -/
structure Core.Invariant (config : Config) (clock : Nat) (log : RunLog) (core : Core) : Prop where
  tracked : Tracked config.max_latency log.issued clock core.m_fu
  ready : Ready config.max_latency core.shared.oc_ex
  buses : core.shared.m_result_bus.length = core.shared.ex_wb.length
  balance : ∀ i, tally core.shared.m_result_bus i = tally (core.m_fu.map SimdUnit.occupied) i
  past : ∀ T, clock < T → log T = ⟨[], []⟩
  count : ∀ T, (log T).units.length ≤ core.m_fu.length
  arrived : ∀ n c reg, log.arrived n c = some reg ↔ c ≤ clock ∧ ∃ T inst,
    log.issued n T = some inst ∧ T + inst.latency + 1 = c ∧ reg = inst.counted
  held : List.Perm core.shared.ex_wb.insts (log.arrivals clock)
  written : ∀ c < clock, List.Perm (log (c + 1)).written (log.arrivals c)

section

variable {config : Config} {clock : Nat} {log : RunLog} {core core' : Core}

theorem SimdUnit.Holds.stage0_isSome {history : History} {now : Nat} {unit : SimdUnit}
    (holds : unit.Holds history now) : unit.stage0.isSome = unit.occupied.getLsbD 0 := by
  have bit := holds.reserved 0 (by decide)
  rw [Bool.eq_iff_iff, bit, Option.isSome_iff_exists]
  constructor
  · rintro ⟨reg, isReg⟩
    obtain ⟨T, inst, issued, due, -⟩ := (holds.stage0_iff reg).mp isReg
    exact ⟨T, inst, issued, due⟩
  · rintro ⟨T, inst, issued, due⟩
    exact ⟨_, (holds.stage0_iff _).mpr ⟨T, inst, issued, due, rfl⟩⟩

theorem Core.Invariant.room (invariant : core.Invariant config clock log) :
    (core.m_fu.filterMap SimdUnit.stage0).length ≤ core.shared.ex_wb.length := by
  calc (core.m_fu.filterMap SimdUnit.stage0).length
      = core.m_fu.countP fun unit => unit.stage0.isSome := List.length_filterMap_eq_countP
    _ = tally (core.m_fu.map SimdUnit.occupied) 0 := by
        rw [tally, List.countP_map]
        refine List.countP_congr fun unit inside => ?_
        obtain ⟨n, atIndex⟩ := List.mem_iff_getElem?.mp inside
        rw [(invariant.tracked n unit atIndex).1.stage0_isSome]
        rfl
    _ = tally core.shared.m_result_bus 0 := (invariant.balance 0).symm
    _ ≤ core.shared.m_result_bus.length := tally_le_length _ _
    _ = core.shared.ex_wb.length := invariant.buses

theorem SimdUnit.holds_new (kind : UnitKind) (depth : Nat) {history : History}
    (fresh : ∀ T, history T = none) : (SimdUnit.new kind depth).Holds history 0 := by
  have never : ∀ {T : Nat} {inst : WarpInst}, history T ≠ some inst := by
    intro T inst issued
    rw [fresh] at issued
    cases issued
  have notDue : ∀ moment, ¬ Due history moment := fun _ ⟨_, _, issued, _⟩ => never issued
  refine ⟨fun T inst issued => absurd issued never, fun T T' inst inst' issued =>
    absurd issued never, keeps_zero notDue, fun reg => ?_, fun s reg => ?_⟩
  · exact iff_of_false (by simp [SimdUnit.new]) fun ⟨T, inst, issued, _⟩ => never issued
  · refine iff_of_false (fun holds => ?_) fun ⟨T, inst, issued, _⟩ => never issued
    have inside := List.mem_of_getElem? holds
    cases List.eq_of_mem_replicate inside

theorem Core.invariant_new : (Core.new config).Invariant config 0 RunLog.empty := by
  have fresh : ∀ n T, RunLog.empty.issued n T = none := fun n T => by
    simp [RunLog.issued, RunLog.empty, issuedBy]
  have none : ∀ num, RegisterSet.insts (RegisterSet.new num) = [] := fun num =>
    RegisterSet.insts_eq_nil_iff.mpr (RegisterSet.get_ready_eq_none_iff.mpr
      fun reg inside => List.eq_of_mem_replicate inside)
  -- No bit is set, neither of a bus nor of a unit.
  have clear : ∀ {bits : List LatencyBits}, (∀ b ∈ bits, b = 0) → ∀ i, tally bits i = 0 := by
    intro bits zero i
    rw [tally, List.countP_eq_zero]
    intro b inside
    rw [zero b inside]
    simp
  have each : ∀ unit ∈ (Core.new config).m_fu,
      ∃ kind, unit = SimdUnit.new kind (config.max_latency kind) := by
    intro unit inside
    rcases List.mem_append.mp inside with sp | sfu
    · exact ⟨.sp_unit, List.eq_of_mem_replicate sp⟩
    · exact ⟨.sfu, List.eq_of_mem_replicate sfu⟩
  refine ⟨fun n unit atIndex => ?_, fun kind inst inside => ?_, ?_, fun i => ?_, fun T _ => rfl,
    fun T => Nat.zero_le _, fun n c reg => ?_, ?_, fun c early => absurd early (Nat.not_lt_zero c)⟩
  · obtain ⟨kind, rfl⟩ := each unit (List.mem_of_getElem? atIndex)
    exact ⟨SimdUnit.holds_new kind _ (fresh n), List.length_replicate⟩
  · rw [Core.new, none] at inside
    cases inside
  · simp [Core.new, RegisterSet.new]
  · rw [clear, clear]
    · intro b inside
      obtain ⟨unit, isUnit, rfl⟩ := List.mem_map.mp inside
      obtain ⟨kind, rfl⟩ := each unit isUnit
      rfl
    · exact fun b inside => List.eq_of_mem_replicate inside
  · refine iff_of_false (by simp [RunLog.arrived, RunLog.empty]) ?_
    rintro ⟨-, T, inst, issued, -⟩
    rw [fresh] at issued
    cases issued
  · rw [Core.new, none]
    rfl

theorem Core.Invariant.deliver (invariant : core.Invariant config clock log) {kind : UnitKind}
    {inst : WarpInst} (fits : inst.Fits (config.max_latency kind))
    (bounded : inst.latency < MAX_ALU_LATENCY) (delivers : core.deliver kind inst = some core') :
    core'.Invariant config clock log := by
  obtain ⟨⟨port, src⟩, moved, isCore⟩ := Option.bind_eq_some_iff.mp delivers
  obtain rfl := Option.some.inj isCore
  exact { invariant with ready := invariant.ready.delivered moved fits bounded }

theorem Core.Invariant.unit_of_issued (invariant : core.Invariant config clock log) {n T : Nat}
    {inst : WarpInst} (issued : log.issued n T = some inst) :
    ∃ unit, core.m_fu[n]? = some unit := by
  obtain ⟨entry, atIndex, -⟩ := Option.bind_eq_some_iff.mp issued
  have inside := (List.getElem?_eq_some_iff.mp atIndex).1
  exact ⟨_, List.getElem?_eq_getElem (Nat.lt_of_lt_of_le inside (invariant.count T))⟩

theorem Core.Invariant.leaves_iff (invariant : core.Invariant config clock log) (n : Nat)
    (reg : WarpInst) : core.m_fu[n]?.bind SimdUnit.stage0 = some reg ↔ ∃ T inst,
      log.issued n T = some inst ∧ T + inst.latency = clock ∧ reg = inst.counted := by
  rw [Option.bind_eq_some_iff]
  constructor
  · rintro ⟨unit, atIndex, stage0⟩
    exact ((invariant.tracked n unit atIndex).1.stage0_iff reg).mp stage0
  · rintro ⟨T, inst, issued, due⟩
    obtain ⟨unit, atIndex⟩ := invariant.unit_of_issued issued
    exact ⟨unit, atIndex, ((invariant.tracked n unit atIndex).1.stage0_iff reg).mpr
      ⟨T, inst, issued, due⟩⟩

theorem Core.Invariant.cycle (invariant : core.Invariant config clock log) :
    ∃ core' entry, core.cycle = some (core', entry) ∧
      core'.Invariant config (clock + 1) (Function.update log (clock + 1) entry) := by
  obtain ⟨drained, width, written⟩ := writeback_spec core.shared.ex_wb
  let before : Shared := { core.shared with
    ex_wb := (writeback core.shared.ex_wb).1
    m_result_bus := core.shared.m_result_bus.map fun bits : LatencyBits => bits >>> 1 }
  have room : (core.m_fu.filterMap SimdUnit.stage0).length + before.ex_wb.insts.length ≤
      before.ex_wb.length := by
    rw [drained, width]
    exact invariant.room
  obtain ⟨shared', m_fu', logs, executes, after⟩ : ∃ shared' m_fu' logs,
      executeUnits before core.m_fu = some (shared', m_fu', logs) ∧
        Executed config.max_latency log.issued clock before core.m_fu shared' m_fu' logs :=
    executeUnits_spec config.max_latency_pos core.m_fu invariant.tracked invariant.ready room
  have count : logs.length = core.m_fu.length := by
    simpa using congrArg List.length after.arrived
  let entry : CycleLog := ⟨(writeback core.shared.ex_wb).2, logs⟩
  have cycles : core.cycle = some (⟨m_fu', shared'⟩, entry) := by
    have executed : execute { core.shared with ex_wb := (writeback core.shared.ex_wb).1 }
        core.m_fu = some (shared', m_fu', logs) := executes
    simp [Core.cycle, executed, entry]
  refine ⟨_, entry, cycles, ?_, after.ready, ?_, fun i => ?_, fun T later => ?_, fun T => ?_,
    fun n c reg => ?_, ?_, fun c early => ?_⟩
  · rw [funext (RunLog.issued_update log (clock + 1) entry)]
    exact after.tracked
  · rw [after.buses, after.width, width, List.length_map]
    exact invariant.buses
  · have balance := after.balance i
    rw [tally_advance, invariant.balance] at balance
    dsimp only
    omega
  · rw [Function.update_of_ne (by omega)]
    exact invariant.past T (by omega)
  · by_cases this : T = clock + 1
    · subst this
      rw [Function.update_self, after.count]
      exact count.le
    · rw [Function.update_of_ne this, after.count]
      exact invariant.count T
  · -- An instruction of the history is older than a moment at which it arrives.
    have older : (∃ T inst, RunLog.issued (Function.update log (clock + 1) entry) n T = some inst ∧
        T + inst.latency + 1 = c ∧ reg = inst.counted) ∧ c ≤ clock + 1 ↔
        (∃ T inst, log.issued n T = some inst ∧ T + inst.latency + 1 = c ∧
          reg = inst.counted) ∧ c ≤ clock + 1 := by
      refine and_congr_left fun early => exists_congr fun T => exists_congr fun inst => ?_
      by_cases this : T = clock + 1
      · exact iff_of_false (fun holds => by omega) (fun holds => by omega)
      · rw [RunLog.issued_of_ne log entry n this]
    rw [and_comm, older]
    by_cases now : c = clock + 1
    · subst now
      have leaves : RunLog.arrived (Function.update log (clock + 1) entry) n (clock + 1) =
          core.m_fu[n]?.bind SimdUnit.stage0 := by
        have sameReg := congrArg (fun regs : List Reg => regs[n]?.bind id) after.arrived
        simp only [List.getElem?_map, Option.bind_map, Function.id_comp] at sameReg
        rw [RunLog.arrived, Function.update_self, sameReg]
      rw [leaves, invariant.leaves_iff]
      simp
    · rw [RunLog.arrived_of_ne log entry n now, invariant.arrived, and_comm]
      refine and_congr_right fun _ => ?_
      omega
  · have sameRegs := congrArg (List.filterMap id) after.arrived
    rw [List.filterMap_map, List.filterMap_map, Function.id_comp, Function.id_comp] at sameRegs
    rw [RunLog.arrivals, Function.update_self, sameRegs]
    simpa [before, drained] using after.held
  · by_cases last : c = clock
    · subst last
      rw [Function.update_self, RunLog.arrivals_of_ne log entry (Nat.ne_of_lt (Nat.lt_succ_self c))]
      exact written.trans invariant.held
    · rw [Function.update_of_ne (by omega), RunLog.arrivals_of_ne log entry (by omega)]
      exact invariant.written c (by omega)

/-! ## Runs -/

theorem Run.invariant (run : Run config WarpInst.Reservable clock log core) :
    core.Invariant config clock log := by
  induction run with
  | start => exact Core.invariant_new
  | deliver run fits allowed delivers ih => exact ih.deliver fits allowed delivers
  | cycle run cycles ih =>
    obtain ⟨core', entry, cycles', after⟩ := ih.cycle
    obtain ⟨rfl, rfl⟩ := Prod.mk.inj (Option.some.inj (cycles'.symm.trans cycles))
    exact after

theorem Core.Invariant.flows (invariant : core.Invariant config clock log) :
    Flows clock log core where
  proceeds := by
    obtain ⟨core', entry, cycles, -⟩ := invariant.cycle
    rw [cycles]
    rfl
  arrives := fun n T inst issued early =>
    (invariant.arrived n _ _).mpr ⟨early, T, inst, issued, rfl, rfl⟩
  once := by
    intro n c reg arrived
    obtain ⟨early, T, inst, issued, due, isReg⟩ := (invariant.arrived n c reg).mp arrived
    refine ⟨T, ⟨inst, issued, due, isReg⟩, ?_⟩
    rintro T' ⟨inst', issued', due', -⟩
    obtain ⟨unit, atIndex⟩ := invariant.unit_of_issued issued
    exact (invariant.tracked n unit atIndex).1.apart T' T inst' inst issued' issued (by omega)
  held := invariant.held
  written := invariant.written

/-- For any number of units and any widths, instructions whose latency has a bit never collide. -/
theorem pipelines_flow (run : Run config WarpInst.Reservable clock log core) :
    Flows clock log core :=
  run.invariant.flows

end

def oneUnit : Config where
  gpgpu_num_sp_units := 1
  gpgpu_num_sfu_units := 0
  issue_width := fun _ => 1
  ex_wb_width := 1

def oneWaiting (inst : WarpInst) : Core :=
  ((Core.new oneUnit).deliver .sp_unit inst).getD (Core.new oneUnit)

theorem oneWaiting_run {Allowed : WarpInst → Prop} {inst : WarpInst}
    (fits : inst.Fits (oneUnit.max_latency .sp_unit)) (allowed : Allowed inst) :
    Run oneUnit Allowed 0 RunLog.empty (oneWaiting inst) :=
  .deliver .start fits allowed rfl

/-- An addition with a latency of 2 cycles. -/
def addition : WarpInst := ⟨1, .ALU_OP, 2, 1, 1⟩

def afterCycles : Nat → Option (RunLog × Core)
  | 0 => some (RunLog.empty, oneWaiting addition)
  | clock + 1 => do
    let (log, core) ← afterCycles clock
    let (core, entry) ← core.cycle
    return (Function.update log (clock + 1) entry, core)

theorem run_afterCycles {clock : Nat} {state : RunLog × Core}
    (ran : afterCycles clock = some state) :
    Run oneUnit WarpInst.Reservable clock state.1 state.2 := by
  induction clock generalizing state with
  | zero =>
    obtain rfl := Option.some.inj ran
    exact oneWaiting_run ⟨by decide, by decide, by decide, rfl⟩
      (show addition.latency < MAX_ALU_LATENCY by decide)
  | succ clock ih =>
    obtain ⟨before, earlier, ran⟩ := Option.bind_eq_some_iff.mp ran
    obtain ⟨after, cycles, last⟩ := Option.bind_eq_some_iff.mp ran
    obtain rfl := Option.some.inj last
    exact (ih earlier).cycle cycles

theorem afterCycles_five : (afterCycles 5).isSome := by decide +kernel

/-- The addition is issued in the first cycle, comes to EX_WB in the fourth and is written back in
    the fifth. -/
theorem pipelines_flow_addition :
    ∃ log core, Flows 5 log core ∧ log.issued 0 1 = some addition ∧
      log.arrived 0 4 = some addition.counted ∧ (log 5).written = [addition.counted] := by
  have flows := pipelines_flow (run_afterCycles (Option.some_get afterCycles_five).symm)
  have issued : ((afterCycles 5).get afterCycles_five).1.issued 0 1 = some addition := by
    decide +kernel
  exact ⟨_, _, flows, issued, flows.arrives 0 1 addition issued (by decide), by decide +kernel⟩

/-- An instruction of 512 cycles that fits the pipeline of the unit. -/
def longest : WarpInst := ⟨1, .ALU_OP, 512, 481, 481⟩

/-- There is no bit for its latency. -/
theorem longest_does_not_flow : ¬ ∀ config clock log core,
    Run config (fun _ => True) clock log core → Flows clock log core := by
  intro flow
  have run : Run oneUnit (fun _ => True) 0 RunLog.empty (oneWaiting longest) :=
    oneWaiting_run ⟨by decide, by decide, by decide, rfl⟩ trivial
  have fails : (oneWaiting longest).cycle.isSome = false := by decide +kernel
  rw [(flow oneUnit 0 _ _ run).proceeds] at fails
  cases fails

end AesOnGpu.Execution
