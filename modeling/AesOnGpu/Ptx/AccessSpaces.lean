import AesOnGpu.Cta.LocalMemory
import AesOnGpu.Ptx.Flags
import AesOnGpu.Ptx.MemoryOperands
import AesOnGpu.Scheduler.Scoreboard

/-! # The spaces of a warp's accesses

`execute_warp_inst_t` runs a load, a store or an atomic for the active threads of a warp, one after
the other.  Each thread finds out the space of its own address and writes it into the one field of
the warp instruction that `generate_mem_accesses` reads (`classified_iff_uniform`).

`none` is an abort or a failed assertion.  What the memories do with an access is not modelled.
-/

namespace AesOnGpu.Ptx.AccessSpaces

open MemoryOperands
open Cta (LocalMap)
open Scheduler (MemorySpaceType)

/-! ## One thread -/

inductive Opcode where
  | LD_OP
  | LDU_OP
  | ST_OP
  | ATOM_OP
  deriving DecidableEq

/-- `address` is the `dst` of a store and the `src1` of the others.  The constructor has made a
    missing space of a load or a store `generic_space`. -/
structure PtxInstruction where
  opcode : Opcode
  type : ScalarType
  m_space_spec : MemorySpaceType
  address : OperandInfo
  pred : Option (Symbol × Flags.PredMod)

structure Thread extends ThreadInfo where
  regs : Regs Symbol
  /-- What an operand that is marked with a space is dereferenced to. -/
  deref : AddrSpace → ScalarType → Addr → RegValue

/-- `m_last_memory_space`, the memory behind it, and `m_last_effective_address`. -/
structure Access where
  space : Space
  mem : Memory
  addr : Addr
  deriving DecidableEq

def Thread.get_operand_value (thread : Thread) (type : ScalarType) (op : OperandInfo) :
    Option RegValue :=
  (MemoryOperands.get_operand_value type thread.regs op).map fun
    | .value result => result
    | .read space addr _ => thread.deref space type addr

def get_symbol (op : OperandInfo) : Option Symbol :=
  match op.m_value with
  | .m_symbolic addr => some addr
  | .m_unsigned _ => none

/-- The spaces that `decode_space` has a case for; `.param` is resolved by the declaration of the
    symbol. -/
def resolve (op : OperandInfo) : MemorySpaceType → Option Space
  | .param_space_unclassified => do
    let type ← (← get_symbol op).declaration
    match type.space with
    | .param_space_kernel => some .param_space_kernel
    | .param_space_local => some .param_space_local
    | _ => none
  | .global_space => some .global_space
  | .param_space_local => some .param_space_local
  | .local_space => some .local_space
  | .tex_space => some .tex_space
  | .surf_space => some .surf_space
  | .param_space_kernel => some .param_space_kernel
  | .shared_space => some .shared_space
  | .const_space => some .const_space
  | .generic_space => some .generic_space
  | .undefined_space | .reg_space | .instruction_space => none

/-- `decode_space`, with the space that it leaves behind. -/
def decode_space (thread : ThreadInfo) (space : MemorySpaceType) (op : OperandInfo) (addr : Addr) :
    Option Access := do
  let space ← resolve op space
  let (mem, decoded) ← Ptx.decode_space thread space addr
  return ⟨if space = .generic_space then whichspace addr else space, mem, decoded⟩

/-- `atom_impl`; the callback finds the same space and address again. -/
def atom_impl (thread : ThreadInfo) (space : MemorySpaceType) (effective_address : Addr) :
    Option Access :=
  match space with
  | .undefined_space =>
    match whichspace effective_address with
    | .global_space =>
      some ⟨.global_space, .global_memory, generic_to_global effective_address⟩
    | .shared_space =>
      (generic_to_shared thread.m_hw_sid effective_address).map fun addr =>
        ⟨.shared_space, .m_shared_mem, addr⟩
    | _ => none
  | .global_space => some ⟨.global_space, .global_memory, effective_address⟩
  | .shared_space => some ⟨.shared_space, .m_shared_mem, effective_address⟩
  | _ => none

namespace PtxInstruction

variable (pI : PtxInstruction) (thread : Thread)

def skip : Bool :=
  match pI.pred with
  | none => false
  | some (pred, pred_mod) => Flags.skip pred_mod (thread.regs pred)

/-- The address before `decode_space`. -/
def addr : Option Addr := (thread.get_operand_value pI.type pI.address).map (·.setWidth 32)

def access : Option Access := do
  let addr ← pI.addr thread
  match pI.opcode with
  | .LD_OP | .LDU_OP | .ST_OP => decode_space thread.toThreadInfo pI.m_space_spec pI.address addr
  | .ATOM_OP => atom_impl thread.toThreadInfo pI.m_space_spec addr

end PtxInstruction

/-! ## The warp -/

def Space.toMemorySpaceType : Space → MemorySpaceType
  | .global_space => .global_space
  | .param_space_local => .param_space_local
  | .local_space => .local_space
  | .tex_space => .tex_space
  | .surf_space => .surf_space
  | .param_space_kernel => .param_space_kernel
  | .shared_space => .shared_space
  | .const_space => .const_space
  | .generic_space => .generic_space

def datatype2size : ScalarType → Option (BitVec 32)
  | .B8_TYPE | .S8_TYPE | .U8_TYPE => some 1
  | .B16_TYPE | .S16_TYPE | .U16_TYPE | .F16_TYPE => some 2
  | .B32_TYPE | .S32_TYPE | .U32_TYPE | .F32_TYPE => some 4
  | .B64_TYPE | .BB64_TYPE | .S64_TYPE | .U64_TYPE | .F64_TYPE | .FF64_TYPE => some 8
  | .BB128_TYPE => some 16
  | .PRED_TYPE | .TEXREF_TYPE | .SAMPLERREF_TYPE | .SURFREF_TYPE => none

/-- The fields of `warp_inst_t` that the execution of an access reads or writes. -/
structure WarpInst (warp_size : Nat) where
  space : MemorySpaceType
  data_size : BitVec 32
  m_warp_active_mask : Finset (Fin warp_size)
  m_per_scalar_thread_valid : Bool
  memreqaddr : Fin warp_size → Fin 8 → Address

variable {warp_size : Nat}

namespace WarpInst

variable (inst : WarpInst warp_size) (n : Fin warp_size)

def set_not_active : WarpInst warp_size :=
  { inst with m_warp_active_mask := inst.m_warp_active_mask.erase n }

/-- `add_callback` makes room for all threads; the callbacks themselves are not modelled. -/
def add_callback (opcode : Opcode) : WarpInst warp_size :=
  if opcode = .ATOM_OP then { inst with m_per_scalar_thread_valid := true } else inst

def set_addr (addr : Address) : WarpInst warp_size :=
  { inst with
    m_per_scalar_thread_valid := true
    memreqaddr := Function.update inst.memreqaddr n (Function.update (inst.memreqaddr n) 0 addr) }

/-- `set_addr` with an array. -/
def set_addrs (addr : List Address) : Option (WarpInst warp_size) :=
  if addr.length ≤ 8 then
    some { inst with
      m_per_scalar_thread_valid := true
      memreqaddr := Function.update inst.memreqaddr n fun i => addr.getD i (inst.memreqaddr n i) }
  else none

def get_addr : Option Address :=
  if inst.m_per_scalar_thread_valid then some (inst.memreqaddr n 0) else none

end WarpInst

def is_local (space : MemorySpaceType) : Prop := space = .local_space ∨ space = .param_space_local

instance : DecidablePred is_local := fun _ => inferInstanceAs (Decidable (_ ∨ _))

def ptx_exec_inst (pI : PtxInstruction) (thread : Thread) (inst : WarpInst warp_size)
    (lane_id : Fin warp_size) : Option (WarpInst warp_size) := do
  let insn_data_size ← datatype2size pI.type
  if pI.skip thread then return (inst.set_not_active lane_id).add_callback pI.opcode
  else
    let access ← pI.access thread
    return { (inst.add_callback pI.opcode).set_addr lane_id (access.addr.setWidth 64) with
      space := Space.toMemorySpaceType access.space
      data_size := insn_data_size }

structure Core where
  map : LocalMap
  m_sid : BitVec 32
  num_shader : BitVec 32
  warpId : BitVec 32

variable (core : Core)

def Core.tid (t : Fin warp_size) : BitVec 32 := .ofNat 32 warp_size * core.warpId + .ofNat 32 t

def Core.translate_local_memaddr (localaddr : BitVec 32) (t : Fin warp_size)
    (datasize : BitVec 32) : Option (List Address) :=
  core.map.translate_local_memaddr core.m_sid core.num_shader localaddr (core.tid t) datasize

/-- The part about local addresses.  All instructions of this module are loads or stores. -/
def checkExecutionStatusAndUpdate (inst : WarpInst warp_size) (t : Fin warp_size) :
    Option (WarpInst warp_size) :=
  if is_local inst.space then do
    let addr ← inst.get_addr t
    let localaddrs ← core.translate_local_memaddr (addr.setWidth 32) t inst.data_size
    inst.set_addrs t localaddrs
  else some inst

variable (pI : PtxInstruction) (threads : Fin warp_size → Thread)

/-- A turn of the loop.  A thread that is skipped is updated as well. -/
def executeThread (inst : WarpInst warp_size) (t : Fin warp_size) : Option (WarpInst warp_size) :=
  if t ∈ inst.m_warp_active_mask then do
    let inst ← ptx_exec_inst pI (threads t) inst t
    checkExecutionStatusAndUpdate core inst t
  else some inst

def execute_warp_inst_t (inst : WarpInst warp_size) : Option (WarpInst warp_size) :=
  (List.finRange warp_size).foldlM (executeThread core pI threads) inst

/-- The first switch of `generate_mem_accesses`; accesses to shared memory have no type. -/
def access_type (is_write : Bool) : MemorySpaceType → Option (Option MemAccessType)
  | .const_space | .param_space_kernel => some (some .CONST_ACC_R)
  | .tex_space => some (some .TEXTURE_ACC_R)
  | .global_space => some (some (if is_write then .GLOBAL_ACC_W else .GLOBAL_ACC_R))
  | .local_space | .param_space_local =>
    some (some (if is_write then .LOCAL_ACC_W else .LOCAL_ACC_R))
  | .shared_space => some none
  | _ => none

/-! ## What the timing model gets -/

/-- The addresses of a thread are those of its access, for local memory those where the core keeps
    it. -/
def Recorded (access : Access) (t : Fin warp_size) (data_size : BitVec 32)
    (memreqaddr : Fin 8 → Address) : Prop :=
  if is_local (Space.toMemorySpaceType access.space) then
    ∃ localaddrs, core.translate_local_memaddr access.addr t data_size = some localaddrs ∧
      ∀ (i : Fin 8) (inside : i.val < localaddrs.length), memreqaddr i = localaddrs[i.val]
  else memreqaddr 0 = access.addr.setWidth 64

/-- A thread in the mask has made an access, the space of the instruction is the one of this
    access, and so is the type that its addresses are given. -/
structure ClassifiedAs (inst : WarpInst warp_size) (t : Fin warp_size) (access : Access) :
    Prop where
  functional : pI.access (threads t) = some access
  recorded : Recorded core access t inst.data_size (inst.memreqaddr t)
  space : inst.space = Space.toMemorySpaceType access.space
  type : access_type (pI.opcode = .ST_OP) inst.space =
    access_type (pI.opcode = .ST_OP) (Space.toMemorySpaceType access.space)

def Classified (inst : WarpInst warp_size) : Prop :=
  ∀ t ∈ inst.m_warp_active_mask, ∃ access, ClassifiedAs core pI threads inst t access

def PtxInstruction.Generic : Prop :=
  pI.m_space_spec = if pI.opcode = .ATOM_OP then .undefined_space else .generic_space

instance : Decidable pI.Generic := inferInstanceAs (Decidable (_ = _))

def Executes (inst : WarpInst warp_size) (t : Fin warp_size) : Prop :=
  t ∈ inst.m_warp_active_mask ∧ pI.skip (threads t) = false

instance (inst : WarpInst warp_size) : DecidablePred (Executes pI threads inst) :=
  fun _ => inferInstanceAs (Decidable (_ ∧ _))

def Uniform (inst : WarpInst warp_size) : Prop :=
  pI.Generic → ∀ t t', Executes pI threads inst t → Executes pI threads inst t' →
    (pI.addr (threads t)).map whichspace = (pI.addr (threads t')).map whichspace

/-! ## The space of one thread -/

section

variable {pI : PtxInstruction} {thread : Thread} {access : Access}

theorem resolve_generic_iff (op : OperandInfo) (space : MemorySpaceType) :
    resolve op space = some .generic_space ↔ space = .generic_space := by
  cases space with
  | param_space_unclassified =>
    refine iff_of_false (fun resolved => ?_) (by decide)
    obtain ⟨symbol, -, resolved⟩ := Option.bind_eq_some_iff.mp resolved
    obtain ⟨type, -, resolved⟩ := Option.bind_eq_some_iff.mp resolved
    split at resolved <;> cases resolved
  | generic_space => exact iff_of_true rfl rfl
  | _ => simp [resolve]

theorem decode_space_space {space : MemorySpaceType} {op : OperandInfo} {addr : Addr}
    (decoded : decode_space thread.toThreadInfo space op addr = some access) :
    some access.space =
      if space = .generic_space then some (whichspace addr) else resolve op space := by
  obtain ⟨resolvedSpace, resolved, decoded⟩ := Option.bind_eq_some_iff.mp decoded
  obtain ⟨⟨mem, addr'⟩, -, decoded⟩ := Option.bind_eq_some_iff.mp decoded
  obtain rfl := Option.some.inj decoded
  by_cases generic : space = .generic_space
  · subst generic
    obtain rfl := Option.some.inj resolved
    rfl
  · have notGeneric : resolvedSpace ≠ .generic_space := by
      rintro rfl
      exact generic ((resolve_generic_iff op space).mp resolved)
    rw [if_neg generic, resolved]
    exact congrArg some (if_neg notGeneric)

theorem atom_impl_space {space : MemorySpaceType} (op : OperandInfo) {addr : Addr}
    (made : atom_impl thread.toThreadInfo space addr = some access) :
    some access.space =
      if space = .undefined_space then some (whichspace addr) else resolve op space := by
  unfold atom_impl at made
  split at made
  · rw [if_pos rfl]
    split at made
    · rename_i window
      obtain rfl := Option.some.inj made
      rw [window]
    · rename_i window
      obtain ⟨addr', -, rfl⟩ := Option.map_eq_some_iff.mp made
      rw [window]
    · cases made
  · obtain rfl := Option.some.inj made
    rfl
  · obtain rfl := Option.some.inj made
    rfl
  · cases made

theorem access_space (made : pI.access thread = some access) :
    some access.space =
      if pI.Generic then (pI.addr thread).map whichspace
      else resolve pI.address pI.m_space_spec := by
  obtain ⟨addr, evaluated, made⟩ := Option.bind_eq_some_iff.mp made
  rw [evaluated, Option.map_some]
  cases opcode : pI.opcode with
  | ATOM_OP =>
    have generic : pI.Generic ↔ pI.m_space_spec = .undefined_space := by
      rw [PtxInstruction.Generic, opcode, if_pos rfl]
    simp only [opcode] at made
    simpa only [generic] using atom_impl_space pI.address made
  | _ =>
    have generic : pI.Generic ↔ pI.m_space_spec = .generic_space := by
      rw [PtxInstruction.Generic, opcode, if_neg (by decide)]
    simp only [opcode] at made
    simpa only [generic] using decode_space_space made

theorem toMemorySpaceType_injective : Function.Injective Space.toMemorySpaceType := by
  intro space space' same
  cases space <;> cases space' <;> first | rfl | cases same

end

/-! ## A turn of the loop -/

section

variable {core : Core} {pI : PtxInstruction} {threads : Fin warp_size → Thread}
  {inst inst' : WarpInst warp_size} {t : Fin warp_size}

theorem checkExecutionStatusAndUpdate_spec
    (updated : checkExecutionStatusAndUpdate core inst t = some inst') :
    (∃ m_per_scalar_thread_valid memreqaddr,
      inst' = { inst with m_per_scalar_thread_valid, memreqaddr } ∧
        ∀ t', t' ≠ t → memreqaddr t' = inst.memreqaddr t') ∧
      if is_local inst.space then
        ∃ localaddrs, core.translate_local_memaddr ((inst.memreqaddr t 0).setWidth 32) t
            inst.data_size = some localaddrs ∧
          ∀ (i : Fin 8) (inside : i.val < localaddrs.length),
            inst'.memreqaddr t i = localaddrs[i.val]
      else inst'.memreqaddr t = inst.memreqaddr t := by
  rw [checkExecutionStatusAndUpdate] at updated
  split at updated
  next islocal =>
    obtain ⟨addr, got, rest⟩ := Option.bind_eq_some_iff.mp updated
    obtain ⟨localaddrs, translated, set⟩ := Option.bind_eq_some_iff.mp rest
    rw [WarpInst.get_addr] at got
    split at got
    · obtain rfl := Option.some.inj got
      unfold WarpInst.set_addrs at set
      split at set
      · obtain rfl := Option.some.inj set
        refine ⟨⟨_, _, rfl, fun t' other => Function.update_of_ne other _ _⟩, ?_⟩
        rw [if_pos islocal]
        refine ⟨localaddrs, translated, fun i inside => ?_⟩
        simp [inside]
      · cases set
    · cases got
  next notLocal =>
    obtain rfl := Option.some.inj updated
    exact ⟨⟨_, _, rfl, fun _ _ => rfl⟩, by rw [if_neg notLocal]⟩

theorem ptx_exec_inst_spec (executes : pI.skip (threads t) = false)
    (ran : ptx_exec_inst pI (threads t) inst t = some inst') :
    ∃ access, pI.access (threads t) = some access ∧
      inst'.space = Space.toMemorySpaceType access.space ∧
      datatype2size pI.type = some inst'.data_size ∧
      inst'.m_warp_active_mask = inst.m_warp_active_mask ∧
      inst'.memreqaddr t 0 = access.addr.setWidth 64 ∧
      ∀ t', t' ≠ t → inst'.memreqaddr t' = inst.memreqaddr t' := by
  obtain ⟨insn_data_size, size, ran⟩ := Option.bind_eq_some_iff.mp ran
  rw [if_neg (by simp [executes])] at ran
  obtain ⟨access, made, ran⟩ := Option.bind_eq_some_iff.mp ran
  obtain rfl := Option.some.inj ran
  refine ⟨access, made, rfl, size, ?_, ?_, fun t' other => ?_⟩
  · rw [WarpInst.set_addr, WarpInst.add_callback]
    split <;> rfl
  · simp [WarpInst.set_addr]
  · rw [WarpInst.set_addr, WarpInst.add_callback]
    split <;> exact Function.update_of_ne other _ _

theorem ptx_exec_inst_skip (skipped : pI.skip (threads t) = true)
    (ran : ptx_exec_inst pI (threads t) inst t = some inst') :
    ∃ m_per_scalar_thread_valid,
      inst' = { inst.set_not_active t with m_per_scalar_thread_valid } := by
  obtain ⟨insn_data_size, -, ran⟩ := Option.bind_eq_some_iff.mp ran
  rw [if_pos skipped] at ran
  obtain rfl := Option.some.inj ran
  rw [WarpInst.add_callback]
  split <;> exact ⟨_, rfl⟩

theorem executeThread_spec (ran : executeThread core pI threads inst t = some inst') :
    (∀ t', t' ∈ inst'.m_warp_active_mask ↔
        t' ∈ inst.m_warp_active_mask ∧ (t' = t → pI.skip (threads t) = false)) ∧
      (∀ t', t' ≠ t → inst'.memreqaddr t' = inst.memreqaddr t') ∧
      if Executes pI threads inst t then
        ∃ access, pI.access (threads t) = some access ∧
          inst'.space = Space.toMemorySpaceType access.space ∧
          datatype2size pI.type = some inst'.data_size ∧
          Recorded core access t inst'.data_size (inst'.memreqaddr t)
      else inst'.space = inst.space ∧ inst'.data_size = inst.data_size := by
  rw [executeThread] at ran
  split at ran
  next active =>
    obtain ⟨mid, exec, updated⟩ := Option.bind_eq_some_iff.mp ran
    obtain ⟨⟨valid, memreqaddr, rfl, others⟩, own⟩ := checkExecutionStatusAndUpdate_spec updated
    cases skip : pI.skip (threads t) with
    | true =>
      obtain ⟨valid', rfl⟩ := ptx_exec_inst_skip skip exec
      rw [if_neg (by simp [Executes, skip])]
      refine ⟨fun t' => ?_, fun t' other => others t' other, rfl, rfl⟩
      simp [WarpInst.set_not_active, and_comm]
    | false =>
      obtain ⟨access, made, space, size, mask, addr, kept⟩ := ptx_exec_inst_spec skip exec
      rw [if_pos ⟨active, skip⟩]
      refine ⟨fun t' => by simp [mask], fun t' other => (others t' other).trans (kept t' other),
        access, made, space, size, ?_⟩
      rw [Recorded, ← space]
      rw [addr] at own
      -- The space is the thread's own here, so its local address is translated, and no other is.
      split at own
      next islocal =>
        rw [if_pos islocal]
        simpa using own
      next notLocal =>
        rw [if_neg notLocal]
        exact (congrFun own 0).trans addr
  next inactive =>
    obtain rfl := Option.some.inj ran
    rw [if_neg fun executes => inactive executes.1]
    refine ⟨fun t' => ?_, fun _ _ => rfl, rfl, rfl⟩
    exact ⟨fun active => ⟨active, fun same => absurd (same ▸ active) inactive⟩, And.left⟩

structure Ran (core : Core) (pI : PtxInstruction) (threads : Fin warp_size → Thread)
    (ts : List (Fin warp_size)) (inst inst' : WarpInst warp_size) : Prop where
  mask : ∀ t, t ∈ inst'.m_warp_active_mask ↔
    t ∈ inst.m_warp_active_mask ∧ (t ∈ ts → pI.skip (threads t) = false)
  kept : ∀ t ∉ ts, inst'.memreqaddr t = inst.memreqaddr t
  recorded : ∀ t ∈ ts, Executes pI threads inst t → ∃ access, pI.access (threads t) = some access ∧
    Recorded core access t inst'.data_size (inst'.memreqaddr t)
  size : inst'.data_size = inst.data_size ∨ datatype2size pI.type = some inst'.data_size
  /-- The space is that of a thread that executes, if there is one. -/
  space : (∀ t ∈ ts, ¬ Executes pI threads inst t) ∧ inst'.space = inst.space ∨
    ∃ t ∈ ts, Executes pI threads inst t ∧ ∃ access, pI.access (threads t) = some access ∧
      inst'.space = Space.toMemorySpaceType access.space

theorem ran_of_foldlM (ts : List (Fin warp_size)) (distinct : ts.Nodup)
    (ran : ts.foldlM (executeThread core pI threads) inst = some inst') :
    Ran core pI threads ts inst inst' := by
  induction ts generalizing inst with
  | nil =>
    obtain rfl := Option.some.inj ran
    exact ⟨by simp, fun _ _ => rfl, by simp, .inl rfl, .inl ⟨by simp, rfl⟩⟩
  | cons t ts ih =>
    rw [List.nodup_cons] at distinct
    rw [List.foldlM_cons] at ran
    obtain ⟨mid, turn, rest⟩ := Option.bind_eq_some_iff.mp ran
    obtain ⟨mask, kept, own⟩ := executeThread_spec turn
    have later := ih distinct.2 rest
    -- The turn of `t` does not change whether another thread executes.
    have executes_iff : ∀ t' ∈ ts, Executes pI threads mid t' ↔ Executes pI threads inst t' := by
      intro t' inside
      have other : t' ≠ t := fun same => distinct.1 (same ▸ inside)
      simp [Executes, mask, other]
    have memreqaddr : inst'.memreqaddr t = mid.memreqaddr t := later.kept t distinct.1
    refine ⟨fun t' => ?_, fun t' outside => ?_, fun t' inside executes => ?_, ?_, ?_⟩
    · rw [later.mask, mask]
      by_cases same : t' = t
      · subst same
        simp [distinct.1]
      · simp [same]
    · rw [List.mem_cons, not_or] at outside
      exact (later.kept t' outside.2).trans (kept t' outside.1)
    · by_cases same : t' = t
      · subst same
        rw [if_pos executes] at own
        obtain ⟨access, made, -, size, recorded⟩ := own
        have size' : inst'.data_size = mid.data_size :=
          later.size.elim id fun size' => Option.some.inj (size'.symm.trans size)
        exact ⟨access, made, by rwa [size', memreqaddr]⟩
      · have inside := (List.mem_cons.mp inside).resolve_left same
        exact later.recorded t' inside ((executes_iff t' inside).mpr executes)
    · rcases later.size with same | size
      · rw [same]
        split at own
        · obtain ⟨-, -, -, size, -⟩ := own
          exact .inr size
        · exact .inl own.2
      · exact .inr size
    · rcases later.space with ⟨none, same⟩ | ⟨t', inside, executes, access, made, space⟩
      · rw [same]
        split at own
        next executes =>
          obtain ⟨access, made, space, -, -⟩ := own
          exact .inr ⟨t, List.mem_cons_self, executes, access, made, space⟩
        next skipped =>
          refine .inl ⟨fun t' inside executes => ?_, own.1⟩
          rcases List.mem_cons.mp inside with rfl | inside
          · exact skipped executes
          · exact none t' inside ((executes_iff t' inside).mpr executes)
      · exact .inr ⟨t', List.mem_cons_of_mem _ inside, (executes_iff t' inside).mp executes,
          access, made, space⟩

theorem Uniform.same_space (uniform : Uniform pI threads inst) {t t' : Fin warp_size}
    (executes : Executes pI threads inst t) (executes' : Executes pI threads inst t')
    {access access' : Access} (made : pI.access (threads t) = some access)
    (made' : pI.access (threads t') = some access') : access.space = access'.space := by
  have space := access_space made
  have space' := access_space made'
  by_cases generic : pI.Generic
  · rw [if_pos generic] at space space'
    exact Option.some.inj (by rw [space, space', uniform generic t t' executes executes'])
  · rw [if_neg generic] at space space'
    exact Option.some.inj (space.trans space'.symm)

theorem active_iff_executes (executed : execute_warp_inst_t core pI threads inst = some inst')
    (t : Fin warp_size) : t ∈ inst'.m_warp_active_mask ↔ Executes pI threads inst t := by
  rw [(ran_of_foldlM _ (List.nodup_finRange warp_size) executed).mask, Executes]
  simp

theorem Classified.uniform (classified : Classified core pI threads inst')
    (executed : execute_warp_inst_t core pI threads inst = some inst') :
    Uniform pI threads inst := by
  intro generic t t' executes executes'
  obtain ⟨access, own⟩ := classified t ((active_iff_executes executed t).mpr executes)
  obtain ⟨access', own'⟩ := classified t' ((active_iff_executes executed t').mpr executes')
  have same : access.space = access'.space :=
    toMemorySpaceType_injective (own.space.symm.trans own'.space)
  have space := access_space own.functional
  have space' := access_space own'.functional
  rw [if_pos generic] at space space'
  rw [← space, ← space', same]

theorem Uniform.classified (uniform : Uniform pI threads inst)
    (executed : execute_warp_inst_t core pI threads inst = some inst') :
    Classified core pI threads inst' := by
  have ran := ran_of_foldlM _ (List.nodup_finRange warp_size) executed
  intro t active
  have executes := (active_iff_executes executed t).mp active
  obtain ⟨access, made, recorded⟩ := ran.recorded t (List.mem_finRange t) executes
  have space : inst'.space = Space.toMemorySpaceType access.space := by
    rcases ran.space with ⟨none, -⟩ | ⟨t', -, executes', access', made', space⟩
    · exact absurd executes (none t (List.mem_finRange t))
    · rw [space, uniform.same_space executes executes' made made']
  exact ⟨access, made, recorded, space, by rw [space]⟩

/-- The space of the warp instruction is that of each thread exactly when the generic addresses of
    the threads that execute it point into one space. -/
theorem classified_iff_uniform (executed : execute_warp_inst_t core pI threads inst = some inst') :
    Classified core pI threads inst' ↔ Uniform pI threads inst :=
  ⟨fun classified => classified.uniform executed, fun uniform => uniform.classified executed⟩

end

/-! ## A warp of two threads -/

def address : Symbol :=
  ⟨"p", some ⟨"p", .reg_space, .U32_TYPE, none, none, .NON_ARRAY_IDENTIFIER⟩, 4, none⟩

/-- `ld.u32` of a generic address in a register. -/
def genericLoad : PtxInstruction :=
  ⟨.LD_OP, .U32_TYPE, .generic_space, bracketed address 0, none⟩

/-- A thread of a kernel with an address in its register. -/
def threadAt (addr : RegValue) : Thread :=
  { m_hw_sid := 0, m_hw_tid := 0, ver2 := true, m_func_info := ⟨0⟩, m_callstack := [none]
    m_local_mem_stack_pointer := 0, regs := fun _ => addr, deref := fun _ _ _ => 0 }

def smallCore : Core := ⟨⟨false, 64, 32, 2⟩, 0, 1, 0⟩

def issued : WarpInst 2 := ⟨.generic_space, 4, Finset.univ, false, fun _ _ => 0⟩

theorem classified_global_pair :
    ∃ inst', execute_warp_inst_t smallCore genericLoad
        (fun t => threadAt (0x80000000 + 4 * t.val)) issued = some inst' ∧
      (Classified smallCore genericLoad (fun t => threadAt (0x80000000 + 4 * t.val)) inst' ↔
        Uniform genericLoad (fun t => threadAt (0x80000000 + 4 * t.val)) issued) :=
  (Option.isSome_iff_exists.mp (by decide)).imp fun _ executed =>
    ⟨executed, classified_iff_uniform executed⟩

/-- The first address is in shared memory, the second in global memory. -/
def mixedPair (t : Fin 2) : Thread := threadAt (if t = 0 then 0x7FC00000 else 0x80000000)

/-- The access to shared memory is timed as one to global memory. -/
theorem mixed_pair_misclassified :
    ¬ ∀ (warp_size : Nat) (core : Core) (pI : PtxInstruction) (threads : Fin warp_size → Thread)
      (inst inst' : WarpInst warp_size), execute_warp_inst_t core pI threads inst = some inst' →
        Classified core pI threads inst' := by
  intro classified
  have runs : (execute_warp_inst_t smallCore genericLoad mixedPair issued).isSome := by decide
  obtain ⟨inst', executed⟩ := Option.isSome_iff_exists.mp runs
  have uniform := (classified _ _ _ _ _ _ executed).uniform executed
  exact absurd (uniform rfl 0 1 (by decide) (by decide)) (by decide)

end AesOnGpu.Ptx.AccessSpaces
