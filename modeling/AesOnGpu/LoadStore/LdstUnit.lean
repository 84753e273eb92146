import AesOnGpu.Cache.Access

/-! # The load-store unit

The loads in `ldst_unit`, from their issue to the release of their registers.  The caches and the
network hold the accesses that were sent and hand any of them back; what they, the ports and the
operand collector do in a cycle is an `Environment`.

`none` is a failed assertion; so is a count of `m_pending_writes` that would be lowered below
zero.  `issued` and `released` are not in the source: they tell which loads were issued and for
which registers of them `releaseRegister` was called.
-/

namespace AesOnGpu.LoadStore

open Cache (RequestStatus)

/-- The spaces of loads. -/
inductive Space where
  | const_space
  | param_space_kernel
  | tex_space
  | global_space
  | local_space
  | param_space_local
  | shared_space
  deriving DecidableEq

/-- The spaces of `memory_cycle`. -/
def Space.IsMemory (space : Space) : Prop :=
  space = .global_space ∨ space = .local_space ∨ space = .param_space_local

/-- A load with the active lanes and the accesses that it has when it is issued.  Accesses are
    generated for a load with an active lane only, and there for at least one in global or local
    memory; `cycles` is the delay of the bank conflicts. -/
structure Load where
  uid : Nat
  warp_id : Nat
  space : Space
  out : Fin 4 → Nat
  sources : List Nat
  active_count : Nat
  accessq_count : Nat
  cycles : Nat
  distinct : ∀ r r', out r = out r' → r = r' ∨ out r = 0
  inactive : active_count = 0 → accessq_count = 0
  active : active_count ≠ 0 → space.IsMemory → accessq_count ≠ 0
  deriving DecidableEq

/-- The registers of the loops over `out`; 0 is no register. -/
def Load.registers (inst : Load) : List Nat :=
  ((List.finRange 4).map inst.out).filter (0 < ·)

/-- Who answers an access: a cache, or the network for what bypasses the L1 data cache. -/
inductive Route where
  | L1T
  | L1C
  | L1D
  | icnt
  deriving DecidableEq

structure DispatchReg where
  inst : Load
  m_accessq : Nat
  cycles : Nat

abbrev WarpReg := Nat × Nat

structure LdstUnit where
  m_pending_writes : WarpReg → Option Nat
  /-- The scoreboard. -/
  reg_table : Finset WarpReg
  m_inst_in_pipeline : Nat → Nat
  num_inst_in_buffer : Nat → Nat
  /-- Loads on the way from the scheduler, in the operand collector for instance. -/
  collector : List Load
  m_dispatch_reg : Option DispatchReg
  m_pipeline_reg : Fin 3 → Option Load
  m_next_wb : Option Load
  m_next_global : Option Load
  m_writeback_arb : Nat
  /-- The accesses that the caches and the network hold. -/
  sent : List (Route × Load)
  issued : List Load
  released : List (Load × Nat)

/-- What happens around the unit in a cycle. -/
structure Environment where
  /-- The operand collector takes the instruction that is written back. -/
  writeback : Bool
  /-- The position of the access that is ready. -/
  ready : Route → Option Nat
  data_port_free : Bool
  status : RequestStatus
  icnt_full : Bool

-- the cache operator of a load and the configuration decide whether it bypasses the L1 data cache
variable (bypassL1D : Load → Bool)

/-! ## The scoreboard -/

/-- `reg_table` without the registers of a load that `releaseRegister` is called for. -/
def LdstUnit.releaseRegister (unit : LdstUnit) (inst : Load) (reg : Nat) : LdstUnit :=
  { unit with
    reg_table := unit.reg_table.erase (inst.warp_id, reg)
    released := unit.released ++ [(inst, reg)] }

def LdstUnit.releaseRegisters (unit : LdstUnit) (inst : Load) : LdstUnit :=
  inst.registers.foldl (fun unit reg => unit.releaseRegister inst reg) unit

def LdstUnit.checkCollision (unit : LdstUnit) (inst : Load) : Bool :=
  (inst.registers ++ inst.sources).any fun reg => (inst.warp_id, reg) ∈ unit.reg_table

/-- `none` where a register is reserved already. -/
def LdstUnit.reserveRegisters (unit : LdstUnit) (inst : Load) : Option LdstUnit :=
  inst.registers.foldlM (fun unit reg =>
    if (inst.warp_id, reg) ∈ unit.reg_table then none
    else some { unit with reg_table := insert (inst.warp_id, reg) unit.reg_table }) unit

/-! ## The counts -/

def LdstUnit.setPending (unit : LdstUnit) (key : WarpReg) (count : Option Nat) : LdstUnit :=
  { unit with m_pending_writes := Function.update unit.m_pending_writes key count }

def LdstUnit.dec_inst_in_pipeline (unit : LdstUnit) (warp_id : Nat) : Option LdstUnit :=
  if 0 < unit.m_inst_in_pipeline warp_id then
    some { unit with
      m_inst_in_pipeline := Function.update unit.m_inst_in_pipeline warp_id
        (unit.m_inst_in_pipeline warp_id - 1) }
  else none

/-! ## Issue -/

/-- `issue_warp`, after the accesses have been generated. -/
def LdstUnit.issue_warp (unit : LdstUnit) (inst : Load) : Option LdstUnit := do
  let unit ← unit.reserveRegisters inst
  return { unit with
    num_inst_in_buffer := Function.update unit.num_inst_in_buffer inst.warp_id
      (unit.num_inst_in_buffer inst.warp_id - 1)
    collector := inst :: unit.collector
    issued := inst :: unit.issued }

def LdstUnit.raisePending (unit : LdstUnit) (inst : Load) : LdstUnit :=
  inst.registers.foldl (fun unit reg =>
    unit.setPending (inst.warp_id, reg)
      (some ((unit.m_pending_writes (inst.warp_id, reg)).getD 0 + inst.accessq_count))) unit

/-- `ldst_unit::issue` of a load that the collector hands over. -/
def LdstUnit.issue (unit : LdstUnit) (inst : Load) : LdstUnit :=
  let unit := if inst.space = .shared_space then unit else unit.raisePending inst
  { unit with
    collector := unit.collector.erase inst
    m_dispatch_reg := some ⟨inst, inst.accessq_count, inst.cycles⟩ }

/-! ## Writeback -/

/-- The turn of the loop over `out` in `writeback`. -/
def LdstUnit.writebackRegister (inst : Load) (unit : LdstUnit) (reg : Nat) : Option LdstUnit :=
  if inst.space = .shared_space then some (unit.releaseRegister inst reg)
  else
    match unit.m_pending_writes (inst.warp_id, reg) with
    | some (still_pending + 1) =>
      if still_pending = 0 then
        some ((unit.setPending (inst.warp_id, reg) none).releaseRegister inst reg)
      else some (unit.setPending (inst.warp_id, reg) (some still_pending))
    | _ => none

def LdstUnit.completeWriteback (env : Environment) (unit : LdstUnit) : Option LdstUnit :=
  match unit.m_next_wb with
  | none => some unit
  | some inst =>
    if env.writeback then do
      let unit ← inst.registers.foldlM (LdstUnit.writebackRegister inst) unit
      return { unit with m_next_wb := none }
    else some unit

def LdstUnit.nextAccess (env : Environment) (unit : LdstUnit) (route : Route) :
    Option (Load × List (Route × Load)) := do
  let position ← env.ready route
  let access ← unit.sent[position]?
  if access.1 = route then some (access.2, unit.sent.eraseIdx position) else none

def LdstUnit.takeReady (env : Environment) (unit : LdstUnit) (route : Route) : LdstUnit :=
  match unit.nextAccess env route with
  | none => unit
  | some (inst, sent) => { unit with m_next_wb := some inst, sent }

/-- The cases of the switch over the writeback clients. -/
def LdstUnit.serveClient (env : Environment) (unit : LdstUnit) (next_client : Nat) :
    Option LdstUnit :=
  match next_client with
  | 0 =>
    match unit.m_pipeline_reg 0 with
    | none => some unit
    | some inst => do
      let unit ← unit.dec_inst_in_pipeline inst.warp_id
      return { unit with
        m_next_wb := some inst
        m_pipeline_reg := Function.update unit.m_pipeline_reg 0 none }
  | 1 => some (unit.takeReady env .L1T)
  | 2 => some (unit.takeReady env .L1C)
  | 3 =>
    match unit.m_next_global with
    | none => some unit
    | some inst => some { unit with m_next_wb := some inst, m_next_global := none }
  | 4 => some (unit.takeReady env .L1D)
  | _ => none

/-- A turn of the loop over the clients that starts at `arb`; the arbiter goes on behind the
    client that was serviced. -/
def LdstUnit.serveTurn (env : Environment) (arb : Nat) (unit : LdstUnit) (c : Nat) :
    Option LdstUnit :=
  if unit.m_next_wb.isSome then some unit
  else do
    let next_client := (c + arb) % 5
    let unit ← unit.serveClient env next_client
    return if unit.m_next_wb.isSome then { unit with m_writeback_arb := (next_client + 1) % 5 }
      else unit

def LdstUnit.writeback (env : Environment) (unit : LdstUnit) : Option LdstUnit := do
  let unit ← unit.completeWriteback env
  (List.range 5).foldlM (LdstUnit.serveTurn env unit.m_writeback_arb) unit

/-! ## The pipeline -/

def LdstUnit.moveStage (unit : LdstUnit) (dst src : Fin 3) : LdstUnit :=
  if unit.m_pipeline_reg dst = none then
    { unit with
      m_pipeline_reg := Function.update
        (Function.update unit.m_pipeline_reg dst (unit.m_pipeline_reg src)) src none }
  else unit

/-- A response of the network goes to `m_next_global`; the others fill their cache. -/
def LdstUnit.takeResponse (env : Environment) (unit : LdstUnit) : LdstUnit :=
  if unit.m_next_global = none then
    match unit.nextAccess env .icnt with
    | none => unit
    | some (inst, sent) => { unit with m_next_global := some inst, sent }
  else unit

/-! ## The memory stage -/

/-- The turn of the loop over `out` after a hit. -/
def LdstUnit.lowerPending (inst : Load) (unit : LdstUnit) (reg : Nat) : Option LdstUnit :=
  match unit.m_pending_writes (inst.warp_id, reg) with
  | some (count + 1) => some (unit.setPending (inst.warp_id, reg) (some count))
  | _ => none

def LdstUnit.accessqPopBack (unit : LdstUnit) (reg : DispatchReg) : LdstUnit :=
  { unit with m_dispatch_reg := some { reg with m_accessq := reg.m_accessq - 1 } }

def LdstUnit.process_cache_access (env : Environment) (unit : LdstUnit) (reg : DispatchReg)
    (cache : Route) : Option LdstUnit :=
  match env.status with
  | .HIT => reg.inst.registers.foldlM (LdstUnit.lowerPending reg.inst) (unit.accessqPopBack reg)
  | .RESERVATION_FAIL => some unit
  | .MISS | .HIT_RESERVED =>
    some { unit.accessqPopBack reg with sent := unit.sent ++ [(cache, reg.inst)] }

def LdstUnit.process_memory_access_queue (env : Environment) (unit : LdstUnit)
    (reg : DispatchReg) (cache : Route) : Option LdstUnit :=
  if reg.m_accessq = 0 then some unit
  else if !env.data_port_free then some unit
  else unit.process_cache_access env reg cache

/-- The access of a load that bypasses the L1 data cache. -/
def LdstUnit.pushAccess (env : Environment) (unit : LdstUnit) (reg : DispatchReg) :
    Option LdstUnit :=
  if env.icnt_full then some unit
  else
    if ∀ r ∈ reg.inst.registers, 0 < (unit.m_pending_writes (reg.inst.warp_id, r)).getD 0 then
      some { unit.accessqPopBack reg with sent := unit.sent ++ [(.icnt, reg.inst)] }
    else none

def LdstUnit.memory_cycle (env : Environment) (unit : LdstUnit) (reg : DispatchReg) :
    Option LdstUnit :=
  if reg.inst.active_count = 0 then some unit
  else if reg.m_accessq = 0 then none
  else if bypassL1D reg.inst then unit.pushAccess env reg
  else unit.process_memory_access_queue env reg .L1D

/-- `constant_cycle` and `texture_cycle`. -/
def LdstUnit.cache_cycle (env : Environment) (unit : LdstUnit) (reg : DispatchReg)
    (cache : Route) : Option LdstUnit :=
  if reg.inst.active_count = 0 then some unit
  else unit.process_memory_access_queue env reg cache

def LdstUnit.shared_cycle (unit : LdstUnit) (reg : DispatchReg) : LdstUnit :=
  { unit with m_dispatch_reg := some { reg with cycles := reg.cycles - 1 } }

def LdstUnit.memoryStage (env : Environment) (unit : LdstUnit) : Option LdstUnit :=
  match unit.m_dispatch_reg with
  | none => some unit
  | some reg =>
    match reg.inst.space with
    | .shared_space => some (unit.shared_cycle reg)
    | .const_space | .param_space_kernel => unit.cache_cycle env reg .L1C
    | .tex_space => unit.cache_cycle env reg .L1T
    | .global_space | .local_space | .param_space_local => unit.memory_cycle bypassL1D env reg

/-- `done`: the delay is over, or there is no access left. -/
def DispatchReg.done (reg : DispatchReg) : Bool :=
  if reg.inst.space = .shared_space then reg.cycles = 0
  else reg.inst.active_count = 0 || reg.m_accessq = 0

/-! ## Leaving the dispatch register -/

/-- `pending_requests`, with the entries that the loop erases. -/
def pendingRequests (inst : Load) :
    List Nat → (WarpReg → Option Nat) → Bool × (WarpReg → Option Nat)
  | [], m_pending_writes => (false, m_pending_writes)
  | reg :: registers, m_pending_writes =>
    match m_pending_writes (inst.warp_id, reg) with
    | none => pendingRequests inst registers m_pending_writes
    | some 0 =>
      pendingRequests inst registers (Function.update m_pending_writes (inst.warp_id, reg) none)
    | some (_ + 1) => (true, m_pending_writes)

def LdstUnit.leave (unit : LdstUnit) (inst : Load) : Option LdstUnit :=
  if inst.space = .shared_space then
    if unit.m_pipeline_reg 2 = none then
      some { unit with
        m_pipeline_reg := Function.update unit.m_pipeline_reg 2 (some inst)
        m_dispatch_reg := none }
    else some unit
  else do
    let (pending_requests, m_pending_writes) :=
      pendingRequests inst inst.registers unit.m_pending_writes
    let unit := { unit with m_pending_writes }
    let unit := if pending_requests then unit else unit.releaseRegisters inst
    let unit ← unit.dec_inst_in_pipeline inst.warp_id
    return { unit with m_dispatch_reg := none }

def LdstUnit.leaveDispatch (unit : LdstUnit) : Option LdstUnit :=
  match unit.m_dispatch_reg with
  | none => some unit
  | some reg => if reg.done then unit.leave reg.inst else some unit

def LdstUnit.cycle (env : Environment) (unit : LdstUnit) : Option LdstUnit := do
  let unit ← unit.writeback env
  let unit := (unit.moveStage 0 1).moveStage 1 2
  let unit ← (unit.takeResponse env).memoryStage bypassL1D env
  unit.leaveDispatch

/-! ## Runs -/

inductive Event where
  /-- `decode` puts an instruction of a warp into its buffer. -/
  | decode (warp_id : Nat)
  | issue_warp (inst : Load)
  | issue (inst : Load)
  | cycle (env : Environment)

def LdstUnit.decode (unit : LdstUnit) (warp_id : Nat) : LdstUnit :=
  { unit with
    m_inst_in_pipeline := Function.update unit.m_inst_in_pipeline warp_id
      (unit.m_inst_in_pipeline warp_id + 1)
    num_inst_in_buffer := Function.update unit.num_inst_in_buffer warp_id
      (unit.num_inst_in_buffer warp_id + 1) }

def LdstUnit.step (unit : LdstUnit) : Event → Option LdstUnit
  | .decode warp_id => some (unit.decode warp_id)
  | .issue_warp inst => unit.issue_warp inst
  | .issue inst => some (unit.issue inst)
  | .cycle env => unit.cycle bypassL1D env

/-- A load is issued from the buffer of its warp, with a new `uid` and when the scoreboard shows
    no collision; it goes to the unit when the dispatch register is free. -/
def LdstUnit.Possible (unit : LdstUnit) : Event → Prop
  | .decode _ => True
  | .issue_warp inst => unit.checkCollision inst = false ∧
      0 < unit.num_inst_in_buffer inst.warp_id ∧ ∀ other ∈ unit.issued, other.uid ≠ inst.uid
  | .issue inst => inst ∈ unit.collector ∧ unit.m_dispatch_reg.isNone
  | .cycle _ => True

structure LdstUnit.Idle (unit : LdstUnit) : Prop where
  no_pending : ∀ key, unit.m_pending_writes key = none
  no_reserved : unit.reg_table = ∅
  no_collector : unit.collector = []
  no_dispatch : unit.m_dispatch_reg = none
  no_pipeline : ∀ stage, unit.m_pipeline_reg stage = none
  no_wb : unit.m_next_wb = none
  no_global : unit.m_next_global = none
  no_sent : unit.sent = []
  no_issued : unit.issued = []
  no_released : unit.released = []
  counted : ∀ warp_id, unit.num_inst_in_buffer warp_id ≤ unit.m_inst_in_pipeline warp_id

inductive LdstUnit.Reachable (initial : LdstUnit) : LdstUnit → Prop where
  | initial : LdstUnit.Reachable initial initial
  | step {unit unit' : LdstUnit} (event : Event) : LdstUnit.Reachable initial unit →
      unit.Possible event → unit.step bypassL1D event = some unit' →
      LdstUnit.Reachable initial unit'

end AesOnGpu.LoadStore
