import AesOnGpu.Execution.RegisterSet
import AesOnGpu.Lib.Reservations

/-! # Pipelined function units

`pipelined_simd_unit` with its subclasses `sp_unit` and `sfu`, of `gpgpu-sim/shader.h` and
`shader.cc`.  An instruction waits in the dispatch register for its initiation interval and then
enters the pipeline at the stage from which it reaches the result port when its latency is over.

`none` is a failed assertion, a bit or a stage that does not exist, or a NULL.
-/

namespace AesOnGpu.Execution

open Reservations

def MAX_ALU_LATENCY : Nat := 512

/-- `std::bitset<MAX_ALU_LATENCY>`, whose members throw for a position that it has not. -/
abbrev LatencyBits := BitVec MAX_ALU_LATENCY

namespace LatencyBits

def test (bits : LatencyBits) (latency : Nat) : Option Bool :=
  if latency < MAX_ALU_LATENCY then some (bits.getLsbD latency) else none

def set (bits : LatencyBits) (latency : Nat) : Option LatencyBits :=
  if latency < MAX_ALU_LATENCY then some (bits ||| BitVec.twoPow MAX_ALU_LATENCY latency) else none

end LatencyBits

inductive UnitKind where
  | sp_unit
  | sfu
  deriving DecidableEq

/-- The operations of `can_issue`. -/
def UnitKind.accepts : UnitKind → UarchOp → Bool
  | sp_unit, op => op ∉ [.SFU_OP, .LOAD_OP, .STORE_OP, .MEMORY_BARRIER_OP]
  | sfu, op => op ∈ [.SFU_OP, .ALU_SFU_OP]

/-- The number of stages is `m_pipeline_depth`. -/
structure SimdUnit where
  kind : UnitKind
  m_dispatch_reg : Reg
  m_pipeline_reg : List Reg
  occupied : LatencyBits
  deriving DecidableEq

/-- The instruction after one cycle of the countdown, and whether it goes on. -/
def WarpInst.dispatch_delay (inst : WarpInst) : WarpInst × Bool :=
  ({ inst with cycles := inst.cycles - 1 }, 0 < inst.cycles - 1)

/-- The part of `cycle` for stage 0. -/
def leave (m_result_port : RegisterSet) (stage0 : Reg) : Option (RegisterSet × Reg) :=
  if stage0.isSome then m_result_port.move_in stage0 else some (m_result_port, stage0)

def shiftStages : Reg → List Reg → Option (List Reg)
  | stage, [] => some [stage]
  | stage, next :: stages => do
    let (stage, next) ← move_warp stage next
    let stages ← shiftStages next stages
    return stage :: stages

/-- The part of `cycle` for the dispatch register. -/
def dispatch (m_dispatch_reg : Reg) (m_pipeline_reg : List Reg) : Option (Reg × List Reg) :=
  match m_dispatch_reg with
  | none => some (none, m_pipeline_reg)
  | some inst =>
    let (inst, delayed) := inst.dispatch_delay
    if delayed then some (some inst, m_pipeline_reg)
    else if inst.initiation_interval ≤ inst.latency then do
      let start_stage := inst.latency - inst.initiation_interval
      let stage ← m_pipeline_reg[start_stage]?
      let (stage, m_dispatch_reg) ← move_warp stage (some inst)
      return (m_dispatch_reg, m_pipeline_reg.set start_stage stage)
    else none

namespace SimdUnit

variable (unit : SimdUnit)

def new (kind : UnitKind) (max_latency : Nat) : SimdUnit where
  kind
  m_dispatch_reg := none
  m_pipeline_reg := List.replicate max_latency none
  occupied := 0

/-- The register of stage 0. -/
def stage0 : Reg := unit.m_pipeline_reg.head?.join

def cycle (m_result_port : RegisterSet) : Option (SimdUnit × RegisterSet) :=
  match unit.m_pipeline_reg with
  | [] => none
  | stage0 :: stages => do
    let (m_result_port, stage0) ← leave m_result_port stage0
    let m_pipeline_reg ← shiftStages stage0 stages
    let (m_dispatch_reg, m_pipeline_reg) ← dispatch unit.m_dispatch_reg m_pipeline_reg
    return ({ unit with m_dispatch_reg, m_pipeline_reg, occupied := unit.occupied >>> 1 },
      m_result_port)

def can_issue (inst : WarpInst) : Option Bool :=
  if unit.kind.accepts inst.op then
    if unit.m_dispatch_reg.isNone then (LatencyBits.test unit.occupied inst.latency).map not
    else some false
  else some false

def issue (source_reg : RegisterSet) : Option (SimdUnit × RegisterSet) := do
  let (source_reg, m_dispatch_reg) ← source_reg.move_out_to unit.m_dispatch_reg
  let occupied ← LatencyBits.set unit.occupied (← m_dispatch_reg).latency
  return ({ unit with m_dispatch_reg, occupied }, source_reg)

end SimdUnit

/-! ## What a unit holds -/

/-- An instruction that may be issued to a pipeline: the initiation interval is at least 1 and at
    most the latency, the stage to start at exists, and the countdown has not begun. -/
structure WarpInst.Fits (depth : Nat) (inst : WarpInst) : Prop where
  positive : 1 ≤ inst.initiation_interval
  interval_le : inst.initiation_interval ≤ inst.latency
  start_lt : inst.latency - inst.initiation_interval < depth
  cycles_eq : inst.cycles = inst.initiation_interval

theorem WarpInst.Fits.uncounted {depth : Nat} {inst : WarpInst} (fits : inst.Fits depth)
    (now : Nat) : { inst with cycles := now + inst.initiation_interval - now } = inst := by
  have same := fits.cycles_eq
  cases inst
  simp_all

def WarpInst.counted (inst : WarpInst) : WarpInst := { inst with cycles := 0 }

/-- The instruction that is issued to a unit in a cycle, if there is one. -/
abbrev History := Nat → Option WarpInst

/-- An instruction of the history is to leave stage 0 after the cycle. -/
def Due (history : History) (moment : Nat) : Prop :=
  ∃ T inst, history T = some inst ∧ T + inst.latency = moment

/-- The unit after a cycle holds the instructions of its history that are under way: in the
    dispatch register until the interval is over, then in the stage of the cycles that are left. -/
structure SimdUnit.Holds (history : History) (now : Nat) (unit : SimdUnit) : Prop where
  past : ∀ T inst, history T = some inst → T ≤ now ∧ inst.latency < MAX_ALU_LATENCY ∧
    inst.Fits unit.m_pipeline_reg.length
  apart : ∀ T T' inst inst', history T = some inst → history T' = some inst' →
    T + inst.latency = T' + inst'.latency → T = T'
  reserved : Keeps unit.occupied now (Due history)
  dispatch : ∀ reg, unit.m_dispatch_reg = some reg ↔ ∃ T inst, history T = some inst ∧
    now < T + inst.initiation_interval ∧
      reg = { inst with cycles := T + inst.initiation_interval - now }
  stages : ∀ s reg, unit.m_pipeline_reg[s]? = some (some reg) ↔ ∃ T inst, history T = some inst ∧
    T + inst.initiation_interval ≤ now ∧ T + inst.latency = now + s ∧ reg = inst.counted

/-! ## A cycle -/

section

variable {history : History} {now : Nat} {unit unit' : SimdUnit} {stages : List Reg}
  {port port' : RegisterSet} {inst : WarpInst}

theorem shiftStages_none (stages : List Reg) :
    shiftStages none stages = some (stages ++ [none]) := by
  induction stages with
  | nil => rfl
  | cons next stages ih =>
    rw [shiftStages, move_warp]
    simp [ih]

theorem shifted_iff (stages : List Reg) (s : Nat) (reg : WarpInst) :
    (stages ++ [none])[s]? = some (some reg) ↔ stages[s]? = some (some reg) := by
  rcases Nat.lt_trichotomy s stages.length with inside | rfl | beyond
  · rw [List.getElem?_append_left inside]
  · simp
  · rw [List.getElem?_eq_none (by rw [List.length_append, List.length_singleton]; omega),
      List.getElem?_eq_none (by omega)]

theorem SimdUnit.Holds.dispatched_unique (holds : unit.Holds history now) {T T' : Nat}
    {inst inst' : WarpInst} (issued : history T = some inst) (issued' : history T' = some inst')
    (waits : now < T + inst.initiation_interval) (waits' : now < T' + inst'.initiation_interval) :
    T = T' := by
  have here := (holds.dispatch _).mpr ⟨T, inst, issued, waits, rfl⟩
  have here' := (holds.dispatch _).mpr ⟨T', inst', issued', waits', rfl⟩
  have same := WarpInst.mk.inj (Option.some.inj (here.symm.trans here'))
  omega

theorem SimdUnit.Holds.entered (holds : unit.Holds history now)
    (front : unit.m_dispatch_reg = none) (T : Nat) (inst : WarpInst)
    (issued : history T = some inst) : T + inst.initiation_interval ≤ now := by
  by_contra waits
  have here := (holds.dispatch _).mpr ⟨T, inst, issued, not_le.mp waits, rfl⟩
  rw [front] at here
  cases here

theorem SimdUnit.Holds.stage0_iff (holds : unit.Holds history now) (reg : WarpInst) :
    unit.stage0 = some reg ↔
      ∃ T inst, history T = some inst ∧ T + inst.latency = now ∧ reg = inst.counted := by
  have first : unit.stage0 = some reg ↔ unit.m_pipeline_reg[0]? = some (some reg) := by
    rw [stage0, List.head?_eq_getElem?, Option.join_eq_some_iff]
  rw [first, holds.stages]
  constructor
  · rintro ⟨T, inst, issued, -, due, rfl⟩
    exact ⟨T, inst, issued, due, rfl⟩
  · rintro ⟨T, inst, issued, due, rfl⟩
    have interval := (holds.past T inst issued).2.2.interval_le
    exact ⟨T, inst, issued, by omega, due, rfl⟩

theorem dispatch_spec (holds : unit.Holds history now)
    (length : stages.length = unit.m_pipeline_reg.length)
    (shifted : ∀ s reg, stages[s]? = some (some reg) ↔ ∃ T inst, history T = some inst ∧
      T + inst.initiation_interval ≤ now ∧ T + inst.latency = now + 1 + s ∧
        reg = inst.counted) :
    ∃ m_dispatch_reg m_pipeline_reg,
      dispatch unit.m_dispatch_reg stages = some (m_dispatch_reg, m_pipeline_reg) ∧
      m_pipeline_reg.length = stages.length ∧
      (∀ reg, m_dispatch_reg = some reg ↔ ∃ T inst, history T = some inst ∧
        now + 1 < T + inst.initiation_interval ∧
          reg = { inst with cycles := T + inst.initiation_interval - (now + 1) }) ∧
      ∀ s reg, m_pipeline_reg[s]? = some (some reg) ↔ ∃ T inst, history T = some inst ∧
        T + inst.initiation_interval ≤ now + 1 ∧ T + inst.latency = now + 1 + s ∧
          reg = inst.counted := by
  cases front : unit.m_dispatch_reg with
  | none =>
    -- Nothing waits, so what has entered the pipeline had entered it before.
    have entered := holds.entered front
    refine ⟨none, stages, rfl, rfl, fun reg => ?_, fun s reg => (shifted s reg).trans ?_⟩
    · refine iff_of_false (by simp) fun ⟨T, inst, issued, waits, _⟩ => ?_
      have early := entered T inst issued
      omega
    · constructor
      · rintro ⟨T, inst, issued, early, due, rfl⟩
        exact ⟨T, inst, issued, by omega, due, rfl⟩
      · rintro ⟨T, inst, issued, -, due, rfl⟩
        exact ⟨T, inst, issued, entered T inst issued, due, rfl⟩
  | some reg =>
    obtain ⟨T, inst, issued, waits, rfl⟩ := (holds.dispatch reg).mp front
    have fits := (holds.past T inst issued).2.2
    have interval := fits.interval_le
    have start := fits.start_lt
    have unique : ∀ T' inst', history T' = some inst' → now < T' + inst'.initiation_interval →
        T' = T ∧ inst' = inst := by
      intro T' inst' issued' waits'
      obtain rfl := holds.dispatched_unique issued' issued waits' waits
      exact ⟨rfl, Option.some.inj (issued'.symm.trans issued)⟩
    by_cases delayed : now + 1 < T + inst.initiation_interval
    · have counting : 0 < T + inst.initiation_interval - now - 1 := by omega
      refine ⟨some { inst with cycles := T + inst.initiation_interval - now - 1 }, stages, ?_, rfl,
        fun reg => ?_, fun s reg => (shifted s reg).trans ?_⟩
      · simp [dispatch, WarpInst.dispatch_delay, counting]
      · constructor
        · intro same
          obtain rfl := Option.some.inj same
          exact ⟨T, inst, issued, delayed, rfl⟩
        · rintro ⟨T', inst', issued', waits', rfl⟩
          obtain ⟨rfl, rfl⟩ := unique T' inst' issued' (by omega)
          rfl
      · constructor
        · rintro ⟨T', inst', issued', early, due, rfl⟩
          exact ⟨T', inst', issued', by omega, due, rfl⟩
        · rintro ⟨T', inst', issued', early, due, rfl⟩
          refine ⟨T', inst', issued', ?_, due, rfl⟩
          by_contra late
          obtain ⟨rfl, rfl⟩ := unique T' inst' issued' (by omega)
          omega
    · -- The interval is over: the instruction enters the stage that is its latency's end away.
      have ended : T + inst.initiation_interval - now - 1 = 0 := by omega
      have inside : inst.latency - inst.initiation_interval < stages.length := by omega
      have empty : stages[inst.latency - inst.initiation_interval]? = some none := by
        rw [List.getElem?_eq_getElem inside, Option.some_inj]
        by_contra taken
        obtain ⟨other, holdsOther⟩ := Option.ne_none_iff_exists'.mp taken
        obtain ⟨T', inst', issued', early, due, -⟩ := (shifted _ other).mp (by
          rw [List.getElem?_eq_getElem inside, holdsOther])
        obtain rfl := holds.apart T' T inst' inst issued' issued (by omega)
        obtain rfl := Option.some.inj (issued'.symm.trans issued)
        omega
      refine ⟨none, stages.set (inst.latency - inst.initiation_interval) (some inst.counted), ?_,
        List.length_set, fun reg => ?_, fun s reg => ?_⟩
      · simp [dispatch, WarpInst.dispatch_delay, ended, interval, empty, move_warp,
          WarpInst.counted]
      · refine iff_of_false (by simp) fun ⟨T', inst', issued', waits', _⟩ => ?_
        obtain ⟨rfl, rfl⟩ := unique T' inst' issued' (by omega)
        omega
      · by_cases entry : s = inst.latency - inst.initiation_interval
        · subst entry
          rw [List.getElem?_set_self inside, Option.some_inj, Option.some_inj]
          constructor
          · rintro rfl
            exact ⟨T, inst, issued, by omega, by omega, rfl⟩
          · rintro ⟨T', inst', issued', -, due, rfl⟩
            obtain rfl := holds.apart T' T inst' inst issued' issued (by omega)
            rw [Option.some.inj (issued'.symm.trans issued)]
        · rw [List.getElem?_set_ne (Ne.symm entry), shifted]
          constructor
          · rintro ⟨T', inst', issued', early, due, rfl⟩
            exact ⟨T', inst', issued', by omega, due, rfl⟩
          · rintro ⟨T', inst', issued', early, due, rfl⟩
            refine ⟨T', inst', issued', ?_, due, rfl⟩
            by_contra late
            obtain ⟨rfl, rfl⟩ := unique T' inst' issued' (by omega)
            omega

theorem SimdUnit.Holds.cycle_spec (holds : unit.Holds history now)
    (deep : unit.m_pipeline_reg ≠ []) (room : Due history now → port.insts.length < port.length) :
    ∃ unit' port', unit.cycle port = some (unit', port') ∧ unit'.Holds history (now + 1) ∧
      unit'.kind = unit.kind ∧ unit'.m_pipeline_reg.length = unit.m_pipeline_reg.length ∧
      unit'.occupied = unit.occupied >>> 1 ∧ port'.length = port.length ∧
      List.Perm port'.insts (unit.stage0.toList ++ port.insts) := by
  obtain ⟨stage0, stages, split⟩ := List.exists_cons_of_ne_nil deep
  have head : unit.stage0 = stage0 := by rw [SimdUnit.stage0, split]; rfl
  have moved : ∃ port', leave port stage0 = some (port', none) ∧ port'.length = port.length ∧
      List.Perm port'.insts (stage0.toList ++ port.insts) := by
    cases stage : stage0 with
    | none => exact ⟨port, rfl, rfl, List.Perm.refl _⟩
    | some inst =>
      obtain ⟨T, inst', issued, due, -⟩ := (holds.stage0_iff inst).mp (head.trans stage)
      exact RegisterSet.move_in_spec inst (room ⟨T, inst', issued, due⟩)
  obtain ⟨port', accepted, portLength, contents⟩ := moved
  have shifted : ∀ s reg, (stages ++ [none])[s]? = some (some reg) ↔ ∃ T inst,
      history T = some inst ∧ T + inst.initiation_interval ≤ now ∧
        T + inst.latency = now + 1 + s ∧ reg = inst.counted := by
    intro s reg
    have behind := holds.stages (s + 1) reg
    have later : now + (s + 1) = now + 1 + s := by omega
    rw [split, List.getElem?_cons_succ, later] at behind
    rw [shifted_iff, behind]
  obtain ⟨m_dispatch_reg, m_pipeline_reg, dispatched, length, front, inside⟩ :=
    dispatch_spec holds (by rw [split, List.length_append]; rfl) shifted
  have depth : m_pipeline_reg.length = unit.m_pipeline_reg.length := by
    rw [length, split, List.length_append]
    rfl
  refine ⟨{ unit with m_dispatch_reg, m_pipeline_reg, occupied := unit.occupied >>> 1 }, port', ?_,
    ⟨?_, holds.apart, ?_, front, inside⟩, rfl, depth, rfl, portLength, by rwa [head]⟩
  · rw [SimdUnit.cycle, split]
    simp [accepted, shiftStages_none, dispatched]
  · intro T inst issued
    obtain ⟨early, bounded, fits⟩ := holds.past T inst issued
    exact ⟨by omega, bounded, by rwa [depth]⟩
  · refine holds.reserved.advance fun ⟨T, inst, issued, due⟩ => ?_
    obtain ⟨early, bounded, -⟩ := holds.past T inst issued
    omega

/-! ## Issue -/

theorem SimdUnit.can_issue_isSome (unit : SimdUnit) (bounded : inst.latency < MAX_ALU_LATENCY) :
    (unit.can_issue inst).isSome := by
  rw [SimdUnit.can_issue, LatencyBits.test, if_pos bounded]
  split
  · split <;> rfl
  · rfl

theorem SimdUnit.can_issue_spec (bounded : inst.latency < MAX_ALU_LATENCY)
    (can : unit.can_issue inst = some true) :
    unit.m_dispatch_reg = none ∧ unit.occupied.getLsbD inst.latency = false := by
  rw [SimdUnit.can_issue, LatencyBits.test, if_pos bounded] at can
  cases accepts : unit.kind.accepts inst.op <;> cases front : unit.m_dispatch_reg <;>
    simp_all

theorem issued_update_iff (unused : history now = none) {T : Nat} {other : WarpInst} :
    Function.update history now (some inst) T = some other ↔
      T = now ∧ other = inst ∨ history T = some other := by
  by_cases same : T = now
  · subst same
    rw [Function.update_self, unused, Option.some_inj]
    simp [eq_comm]
  · rw [Function.update_of_ne same]
    simp [same]

theorem SimdUnit.Holds.issue_spec (holds : unit.Holds history now) (unused : history now = none)
    (fits : inst.Fits unit.m_pipeline_reg.length) (bounded : inst.latency < MAX_ALU_LATENCY)
    (can : unit.can_issue inst = some true) {source_reg : RegisterSet} {ready : Nat}
    (isReady : source_reg.get_ready = some (ready, inst)) :
    ∃ unit', unit.issue source_reg = some (unit', source_reg.set ready none) ∧
      unit'.Holds (Function.update history now (some inst)) now ∧ unit'.kind = unit.kind ∧
      unit'.m_pipeline_reg.length = unit.m_pipeline_reg.length ∧
      unit'.occupied = unit.occupied ||| BitVec.twoPow MAX_ALU_LATENCY inst.latency := by
  obtain ⟨empty, free⟩ := SimdUnit.can_issue_spec bounded can
  have unreserved := (holds.reserved.free_iff bounded).mp free
  have entered := holds.entered empty
  have positive := fits.positive
  have interval := fits.interval_le
  obtain ⟨source, isInst⟩ : ∃ source_reg', source_reg.move_out_to unit.m_dispatch_reg =
      some (source_reg', some inst) ∧ source_reg' = source_reg.set ready none := by
    refine ⟨_, ?_, rfl⟩
    rw [RegisterSet.move_out_to, isReady, empty]
    rfl
  have updated : ∀ {T : Nat} {other : WarpInst}, Function.update history now (some inst) T =
      some other ↔ T = now ∧ other = inst ∨ history T = some other := issued_update_iff unused
  let occupied : LatencyBits := unit.occupied ||| BitVec.twoPow MAX_ALU_LATENCY inst.latency
  refine ⟨{ unit with m_dispatch_reg := some inst, occupied }, ?_,
    ⟨fun T other => ?_, fun T T' other other' => ?_, ?_, fun reg => ?_, fun s reg => ?_⟩, rfl, rfl,
    rfl⟩
  · rw [SimdUnit.issue]
    simp [isInst.1, isInst.2, LatencyBits.set, bounded, occupied]
  · rw [updated]
    rintro (⟨rfl, rfl⟩ | issued)
    · exact ⟨le_rfl, bounded, fits⟩
    · exact holds.past T other issued
  · rw [updated, updated]
    -- An older instruction that is due with the new one would have reserved the moment.
    rintro (⟨rfl, rfl⟩ | issued) (⟨rfl, rfl⟩ | issued') same
    · rfl
    · exact absurd ⟨T', other', issued', same.symm⟩ unreserved
    · exact absurd ⟨T, other, issued, same⟩ unreserved
    · exact holds.apart T T' other other' issued issued' same
  · refine (holds.reserved.reserve bounded).congr fun moment _ => ?_
    simp only [Due, updated]
    constructor
    · rintro (⟨T, other, issued, due⟩ | rfl)
      · exact ⟨T, other, .inr issued, due⟩
      · exact ⟨now, inst, .inl ⟨rfl, rfl⟩, rfl⟩
    · rintro ⟨T, other, ⟨rfl, rfl⟩ | issued, due⟩
      · exact .inr due.symm
      · exact .inl ⟨T, other, issued, due⟩
  · simp only [updated]
    constructor
    · intro same
      obtain rfl := Option.some.inj same
      exact ⟨now, inst, .inl ⟨rfl, rfl⟩, by omega, by rw [fits.uncounted]⟩
    · rintro ⟨T, other, ⟨rfl, rfl⟩ | issued, waits, rfl⟩
      · rw [fits.uncounted]
      · have early := entered T other issued
        omega
  · rw [holds.stages]
    simp only [updated]
    constructor
    · rintro ⟨T, other, issued, early, due, rfl⟩
      exact ⟨T, other, .inr issued, early, due, rfl⟩
    · rintro ⟨T, other, ⟨rfl, rfl⟩ | issued, early, due, rfl⟩
      · omega
      · exact ⟨T, other, issued, early, due, rfl⟩

end

end AesOnGpu.Execution
