import AesOnGpu.Execution.SimdUnit

/-! # The execute and write-back stages

`test_res_bus`, `execute` and `writeback` of `shader_core_ctx`, of `gpgpu-sim/shader.cc`, for the SP
and SFU units.  The load/store unit takes its instructions from a port of its own and uses neither
the result buses nor EX_WB.
-/

namespace AesOnGpu.Execution

open Reservations

structure Shared where
  oc_ex : UnitKind → RegisterSet
  ex_wb : RegisterSet
  m_result_bus : List LatencyBits

/-- What happened at a unit in a cycle: the instruction that came to EX_WB and the one issued. -/
structure UnitLog where
  arrived : Reg
  issued : Reg
  deriving DecidableEq

/-- The first bus that is free; an inner `none` is -1. -/
def test_res_bus : List LatencyBits → Nat → Option (Option Nat)
  | [], _ => some none
  | bits :: m_result_bus, latency => do
    if ← bits.test latency then
      let found ← test_res_bus m_result_bus latency
      return found.map (· + 1)
    else return some 0

/-- The part of `execute` for a unit, after its cycle. -/
def issueReady (shared : Shared) (unit : SimdUnit) : Option (Shared × SimdUnit × Reg) :=
  let issue_port := unit.kind
  let issue_inst := shared.oc_ex issue_port
  match issue_inst.get_ready with
  | none => some (shared, unit, none)
  | some (_, inst) => do
    if ← unit.can_issue inst then
      match ← test_res_bus shared.m_result_bus inst.latency with
      | none => return (shared, unit, none)
      | some resbus =>
        if inst.latency < MAX_ALU_LATENCY then
          let bits ← LatencyBits.set (← shared.m_result_bus[resbus]?) inst.latency
          let (unit, issue_inst) ← unit.issue issue_inst
          return ({ shared with
            oc_ex := Function.update shared.oc_ex issue_port issue_inst
            m_result_bus := shared.m_result_bus.set resbus bits }, unit, some inst)
        else none
    else return (shared, unit, none)

/-- A turn of the loop of `execute`. -/
def executeUnit (shared : Shared) (unit : SimdUnit) : Option (Shared × SimdUnit × UnitLog) := do
  let arrived := unit.stage0
  let (unit, ex_wb) ← unit.cycle shared.ex_wb
  let (shared, unit, issued) ← issueReady { shared with ex_wb } unit
  return (shared, unit, { arrived, issued })

def executeUnits (shared : Shared) :
    List SimdUnit → Option (Shared × List SimdUnit × List UnitLog)
  | [] => some (shared, [], [])
  | unit :: m_fu => do
    let (shared, unit, log) ← executeUnit shared unit
    let (shared, m_fu, logs) ← executeUnits shared m_fu
    return (shared, unit :: m_fu, log :: logs)

def execute (shared : Shared) (m_fu : List SimdUnit) :
    Option (Shared × List SimdUnit × List UnitLog) :=
  executeUnits { shared with
    m_result_bus := shared.m_result_bus.map fun bits : LatencyBits => bits >>> 1 } m_fu

/-- The loop of `writeback`, with the instructions that it completes. -/
def drain (regs : RegisterSet) : Nat → RegisterSet × List WarpInst
  | 0 => (regs, [])
  | fuel + 1 =>
    match regs.get_ready with
    | none => (regs, [])
    | some (ready, inst) =>
      let (regs, written) := drain (regs.set ready none) fuel
      (regs, inst :: written)

def writeback (ex_wb : RegisterSet) : RegisterSet × List WarpInst :=
  drain ex_wb ex_wb.length

/-! ## Write-back -/

theorem RegisterSet.insts_clear {regs : RegisterSet} {i : Nat} {inst : WarpInst}
    (full : regs[i]? = some (some inst)) :
    List.Perm (inst :: insts (regs.set i none)) (insts regs) := by
  obtain ⟨inside, atIndex⟩ := List.getElem?_eq_some_iff.mp full
  have empty : (regs.set i none)[i]? = some none := by rw [List.getElem?_set_self inside]
  have back : List.Perm (insts ((regs.set i none).set i (some inst))) _ := insts_set empty
  rw [List.set_set, ← atIndex, List.set_getElem_self] at back
  exact back.symm

theorem RegisterSet.insts_eq_nil_iff {regs : RegisterSet} :
    regs.insts = [] ↔ regs.get_ready = none := by
  rw [get_ready_eq_none_iff, insts, List.reduceOption, List.filterMap_eq_nil_iff]
  rfl

theorem drain_spec {regs : RegisterSet} {fuel : Nat} (enough : regs.insts.length ≤ fuel) :
    (drain regs fuel).1.insts = [] ∧ (drain regs fuel).1.length = regs.length ∧
      List.Perm (drain regs fuel).2 regs.insts := by
  induction fuel generalizing regs with
  | zero =>
    have empty := List.eq_nil_of_length_eq_zero (Nat.le_zero.mp enough)
    exact ⟨empty, rfl, by rw [empty]; rfl⟩
  | succ fuel ih =>
    rw [drain]
    cases found : regs.get_ready with
    | none =>
      have empty := RegisterSet.insts_eq_nil_iff.mpr found
      exact ⟨empty, rfl, by rw [empty]⟩
    | some ready =>
      obtain ⟨ready, inst⟩ := ready
      have taken := RegisterSet.insts_clear (RegisterSet.get_ready_spec found)
      have fewer := taken.length_eq
      rw [List.length_cons] at fewer
      obtain ⟨empty, length, written⟩ := @ih (regs.set ready none) (by omega)
      exact ⟨empty, length.trans List.length_set, (written.cons inst).trans taken⟩

theorem writeback_spec (ex_wb : RegisterSet) :
    (writeback ex_wb).1.insts = [] ∧ (writeback ex_wb).1.length = ex_wb.length ∧
      List.Perm (writeback ex_wb).2 ex_wb.insts :=
  drain_spec (List.reduceOption_length_le ex_wb)

/-! ## Issue -/

section

variable {history : History} {now : Nat} {unit : SimdUnit} {shared : Shared}
  {depth : UnitKind → Nat}

/-- The instructions in the ports may be issued to the units that read them. -/
def Ready (depth : UnitKind → Nat) (oc_ex : UnitKind → RegisterSet) : Prop :=
  ∀ kind, ∀ inst ∈ (oc_ex kind).insts,
    inst.Fits (depth kind) ∧ inst.latency < MAX_ALU_LATENCY

theorem test_res_bus_spec {latency : Nat} (bounded : latency < MAX_ALU_LATENCY)
    (m_result_bus : List LatencyBits) :
    ∃ found, test_res_bus m_result_bus latency = some found ∧ ∀ resbus, found = some resbus →
      ∃ bits, m_result_bus[resbus]? = some bits ∧ bits.getLsbD latency = false := by
  induction m_result_bus with
  | nil => exact ⟨none, rfl, fun resbus none => by cases none⟩
  | cons bits m_result_bus ih =>
    obtain ⟨found, tested, free⟩ := ih
    cases bit : bits.getLsbD latency with
    | false =>
      refine ⟨some 0, ?_, ?_⟩
      · rw [test_res_bus, LatencyBits.test, if_pos bounded, bit]
        rfl
      · rintro resbus ⟨⟩
        exact ⟨bits, rfl, bit⟩
    | true =>
      refine ⟨found.map (· + 1), ?_, ?_⟩
      · rw [test_res_bus, LatencyBits.test, if_pos bounded, bit, tested]
        rfl
      intro resbus some
      obtain ⟨later, isLater, rfl⟩ := Option.map_eq_some_iff.mp some
      exact free later isLater

/-- What an issue leaves: the unit holds its history with the new instruction, and a moment is taken
    in a bus if and only if one is taken in the unit. -/
structure Issues (history : History) (now : Nat) (depth : UnitKind → Nat) (shared : Shared)
    (unit : SimdUnit) (shared' : Shared) (unit' : SimdUnit) (issued : Reg) : Prop where
  holds : unit'.Holds (Function.update history now issued) now
  kind : unit'.kind = unit.kind
  length : unit'.m_pipeline_reg.length = unit.m_pipeline_reg.length
  ex_wb : shared'.ex_wb = shared.ex_wb
  ready : Ready depth shared'.oc_ex
  buses : shared'.m_result_bus.length = shared.m_result_bus.length
  balance : ∀ i, tally shared'.m_result_bus i + (unit.occupied.getLsbD i).toNat =
    tally shared.m_result_bus i + (unit'.occupied.getLsbD i).toNat

theorem Ready.delivered {oc_ex : UnitKind → RegisterSet} (ready : Ready depth oc_ex)
    {port : UnitKind} {inst : WarpInst} {regs : RegisterSet} {src : Reg}
    (moved : (oc_ex port).move_in (some inst) = some (regs, src)) (fits : inst.Fits (depth port))
    (bounded : inst.latency < MAX_ALU_LATENCY) : Ready depth (Function.update oc_ex port regs) := by
  intro kind other inside
  by_cases same : kind = port
  · subst same
    rw [Function.update_self] at inside
    rcases RegisterSet.mem_insts_move_in moved inside with rfl | older
    · exact ⟨fits, bounded⟩
    · exact ready kind other older
  · rw [Function.update_of_ne same] at inside
    exact ready kind other inside

theorem Ready.taken {oc_ex : UnitKind → RegisterSet} (ready : Ready depth oc_ex)
    (port : UnitKind) (register : Nat) :
    Ready depth (Function.update oc_ex port ((oc_ex port).set register none)) := by
  intro kind inst inside
  by_cases same : kind = port
  · subst same
    rw [Function.update_self] at inside
    have atRegister := List.reduceOption_mem_iff.mp inside
    rcases List.mem_or_eq_of_mem_set atRegister with kept | cleared
    · exact ready kind inst (List.reduceOption_mem_iff.mpr kept)
    · cases cleared
  · rw [Function.update_of_ne same] at inside
    exact ready kind inst inside

theorem issueReady_spec (holds : unit.Holds history now) (unused : history now = none)
    (length : unit.m_pipeline_reg.length = depth unit.kind) (ready : Ready depth shared.oc_ex) :
    ∃ shared' unit' issued, issueReady shared unit = some (shared', unit', issued) ∧
      Issues history now depth shared unit shared' unit' issued := by
  have stall : Issues history now depth shared unit shared unit none :=
    ⟨by rwa [← unused, Function.update_eq_self], rfl, rfl, rfl, ready, rfl, fun _ => rfl⟩
  cases found : (shared.oc_ex unit.kind).get_ready with
  | none => exact ⟨shared, unit, none, by simp [issueReady, found], stall⟩
  | some first =>
    obtain ⟨register, inst⟩ := first
    have held := RegisterSet.get_ready_spec found
    obtain ⟨fits, bounded⟩ := ready unit.kind inst
      (List.reduceOption_mem_iff.mpr (List.mem_of_getElem? held))
    obtain ⟨can, decided⟩ := Option.isSome_iff_exists.mp (unit.can_issue_isSome bounded)
    obtain ⟨resbus, tested, free⟩ := test_res_bus_spec bounded shared.m_result_bus
    cases can with
    | false => exact ⟨shared, unit, none, by simp [issueReady, found, decided], stall⟩
    | true =>
      cases resbus with
      | none => exact ⟨shared, unit, none, by simp [issueReady, found, decided, tested], stall⟩
      | some resbus =>
        obtain ⟨bits, isBits, bitFree⟩ := free resbus rfl
        obtain ⟨empty, unitFree⟩ := SimdUnit.can_issue_spec bounded decided
        obtain ⟨unit', issued, holds', kind, length', occupied⟩ :=
          holds.issue_spec unused (by rwa [length]) bounded decided found
        let after : Shared := { shared with
          oc_ex := Function.update shared.oc_ex unit.kind
            ((shared.oc_ex unit.kind).set register none)
          m_result_bus := shared.m_result_bus.set resbus
            (bits ||| BitVec.twoPow MAX_ALU_LATENCY inst.latency) }
        refine ⟨after, unit', some inst, ?_, holds', kind, length', rfl,
          ready.taken unit.kind register, List.length_set, fun i => ?_⟩
        · simp [issueReady, found, decided, tested, bounded, isBits, issued, LatencyBits.set,
            after]
        · rw [tally_reserve isBits bounded bitFree, occupied, reserve_toNat bounded unitFree]
          omega

/-! ## The loop of `execute` -/

def Tracked (depth : UnitKind → Nat) (histories : Nat → History) (now : Nat)
    (m_fu : List SimdUnit) : Prop :=
  ∀ n (unit : SimdUnit), m_fu[n]? = some unit →
    unit.Holds (histories n) now ∧ unit.m_pipeline_reg.length = depth unit.kind

/-- The instruction that a turn of the loop has issued. -/
def issuedBy (logs : List UnitLog) (n : Nat) : Reg := logs[n]?.bind UnitLog.issued

/-- What the loop leaves: every due instruction is in EX_WB, every unit has come to the next cycle,
    and each moment is taken in as many buses as units. -/
structure Executed (depth : UnitKind → Nat) (histories : Nat → History) (now : Nat)
    (shared : Shared) (m_fu : List SimdUnit) (shared' : Shared) (m_fu' : List SimdUnit)
    (logs : List UnitLog) : Prop where
  tracked : Tracked depth (fun n => Function.update (histories n) (now + 1) (issuedBy logs n))
    (now + 1) m_fu'
  count : m_fu'.length = m_fu.length
  arrived : logs.map UnitLog.arrived = m_fu.map SimdUnit.stage0
  width : shared'.ex_wb.length = shared.ex_wb.length
  held : List.Perm shared'.ex_wb.insts (m_fu.filterMap SimdUnit.stage0 ++ shared.ex_wb.insts)
  ready : Ready depth shared'.oc_ex
  buses : shared'.m_result_bus.length = shared.m_result_bus.length
  balance : ∀ i, tally shared'.m_result_bus i + tally (m_fu.map SimdUnit.occupied) (i + 1) =
    tally shared.m_result_bus i + tally (m_fu'.map SimdUnit.occupied) i

theorem executeUnit_spec (holds : unit.Holds history now) (deep : 0 < depth unit.kind)
    (length : unit.m_pipeline_reg.length = depth unit.kind) (ready : Ready depth shared.oc_ex)
    (room : unit.stage0.isSome → shared.ex_wb.insts.length < shared.ex_wb.length) :
    ∃ shared' unit' log, executeUnit shared unit = some (shared', unit', log) ∧
      Executed depth (fun _ => history) now shared [unit] shared' [unit'] [log] := by
  have unused : history (now + 1) = none := by
    by_contra used
    obtain ⟨inst, issued⟩ := Option.ne_none_iff_exists'.mp used
    have early := (holds.past _ inst issued).1
    omega
  have dueRoom : Due history now → shared.ex_wb.insts.length < shared.ex_wb.length :=
    fun ⟨T, inst, issued, due⟩ => room (Option.isSome_iff_exists.mpr
      ⟨_, (holds.stage0_iff _).mpr ⟨T, inst, issued, due, rfl⟩⟩)
  obtain ⟨cycled, ex_wb, cycles, holds', kind, depth', occupied, width, held⟩ :=
    holds.cycle_spec (List.ne_nil_of_length_pos (by rwa [length])) dueRoom
  obtain ⟨shared', unit', issued, issues, after⟩ :=
    @issueReady_spec _ _ _ { shared with ex_wb } depth holds' unused (by rw [depth', length, kind])
      ready
  refine ⟨shared', unit', ⟨unit.stage0, issued⟩, by simp [executeUnit, cycles, issues], ?_⟩
  refine ⟨fun n other isOther => ?_, rfl, rfl, ?_, ?_, after.ready, after.buses, fun i => ?_⟩
  · obtain ⟨rfl, rfl⟩ : n = 0 ∧ unit' = other := by
      cases n with
      | zero => exact ⟨rfl, Option.some.inj isOther⟩
      | succ n => cases isOther
    exact ⟨after.holds, by rw [after.length, after.kind, depth', kind, length]⟩
  · rw [after.ex_wb, width]
  · rw [after.ex_wb]
    cases front : unit.stage0 with
    | none => simpa [front] using held
    | some inst => simpa [front] using held
  · have balance := after.balance i
    rw [occupied, BitVec.getLsbD_ushiftRight, Nat.add_comm 1 i] at balance
    simp only [List.map_cons, List.map_nil, tally_cons, tally_nil]
    exact balance

/-- The units take their turns: the instructions that are due find room as long as there are not
    more of them than free registers. -/
theorem executeUnits_spec {histories : Nat → History} (deep : ∀ kind, 0 < depth kind)
    (m_fu : List SimdUnit) (tracked : Tracked depth histories now m_fu)
    (ready : Ready depth shared.oc_ex)
    (room : (m_fu.filterMap SimdUnit.stage0).length + shared.ex_wb.insts.length ≤
      shared.ex_wb.length) :
    ∃ shared' m_fu' logs, executeUnits shared m_fu = some (shared', m_fu', logs) ∧
      Executed depth histories now shared m_fu shared' m_fu' logs := by
  induction m_fu generalizing shared histories with
  | nil =>
    exact ⟨shared, [], [], rfl, fun n unit none => by simp at none, rfl, rfl, rfl, List.Perm.refl _,
      ready, rfl, fun _ => rfl⟩
  | cons unit m_fu ih =>
    obtain ⟨holds, length⟩ := tracked 0 unit rfl
    have roomFirst : unit.stage0.isSome → shared.ex_wb.insts.length < shared.ex_wb.length := by
      intro due
      obtain ⟨inst, isInst⟩ := Option.isSome_iff_exists.mp due
      rw [List.filterMap_cons_some isInst, List.length_cons] at room
      omega
    obtain ⟨shared₁, unit', log, turn, first⟩ :=
      executeUnit_spec holds (deep unit.kind) length ready roomFirst
    have split : (unit :: m_fu).filterMap SimdUnit.stage0 =
        [unit].filterMap SimdUnit.stage0 ++ m_fu.filterMap SimdUnit.stage0 := by
      rw [← List.filterMap_append, List.singleton_append]
    have roomRest : (m_fu.filterMap SimdUnit.stage0).length + shared₁.ex_wb.insts.length ≤
        shared₁.ex_wb.length := by
      have held := first.held.length_eq
      rw [List.length_append] at held
      rw [split, List.length_append] at room
      rw [first.width]
      omega
    obtain ⟨shared', m_fu', logs, turns, rest⟩ := ih (fun n other => tracked (n + 1) other)
      first.ready roomRest
    refine ⟨shared', unit' :: m_fu', log :: logs, by simp [executeUnits, turn, turns], ?_⟩
    refine ⟨fun n other isOther => ?_, congrArg (· + 1) rest.count, ?_,
      rest.width.trans first.width, ?_, rest.ready, rest.buses.trans first.buses, fun i => ?_⟩
    · cases n with
      | zero => exact first.tracked 0 other isOther
      | succ n => exact rest.tracked n other isOther
    · rw [List.map_cons, List.map_cons, rest.arrived, List.head_eq_of_cons_eq first.arrived]
    · refine rest.held.trans ((first.held.append_left _).trans ?_)
      rw [← List.append_assoc, split]
      exact List.perm_append_comm.append_right _
    · have atFirst := first.balance i
      have atRest := rest.balance i
      simp only [List.map_cons, List.map_nil, tally_cons, tally_nil] at atFirst ⊢
      omega

end

end AesOnGpu.Execution
