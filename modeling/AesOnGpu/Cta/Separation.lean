import AesOnGpu.Cta.SystemSteps
import AesOnGpu.Lib.FinLiterals

/-! # Blocks that share nothing

Two resident blocks of any kernels have memories and a `ptx_cta_info` of their own, whatever the
sizes of their kernels, and the threads of a core have local memories of their own.
-/

namespace AesOnGpu.Cta.Dispatch

variable {config : Config} {m : GpgpuSim} {issued : Nat → Nat} {sid t p sid' t' p' : Nat}

/-- Hardware thread `t` of core `sid` holds thread `p` of a block that is not done. -/
structure Resident (m : GpgpuSim) (sid t p : Nat) : Prop where
  onCore : (m.cores sid).m_thread t = some p
  active : (m.cores sid).m_active t = true

structure Separate (m : GpgpuSim) : Prop where
  blocks : ∀ {sid t p sid' t' p' : Nat}, Resident m sid t p → Resident m sid' t' p' →
    sid ≠ sid' ∨ (m.cores sid).m_cta_id t ≠ (m.cores sid').m_cta_id t' →
    (m.sim.threads p).m_shared_mem ≠ (m.sim.threads p').m_shared_mem ∧
      (m.sim.threads p).m_cta_info ≠ (m.sim.threads p').m_cta_info
  threads : ∀ {sid t p t' p' : Nat}, Resident m sid t p → Resident m sid t' p' → t ≠ t' →
    (m.sim.threads p).m_local_mem ≠ (m.sim.threads p').m_local_mem
  together : ∀ {sid t p t' p' : Nat}, Resident m sid t p → Resident m sid t' p' →
    (m.cores sid).m_cta_id t = (m.cores sid).m_cta_id t' →
    (m.sim.threads p).m_shared_mem = (m.sim.threads p').m_shared_mem ∧
      (m.sim.threads p).m_cta_info = (m.sim.threads p').m_cta_info ∧
      (m.sim.threads p).kernel = (m.sim.threads p').kernel ∧
      (m.sim.threads p).m_ctaid = (m.sim.threads p').m_ctaid

/-! ## What a resident thread was given -/

/-- Slot `slot` of the core holds the thread's block, with these memories. -/
structure Given (config : Config) (m : GpgpuSim) (sid t p uid slot shared_mem cta_info : Nat)
    (ctaid : Dim3) : Prop where
  kernel : (m.cores sid).m_kernel = some uid
  occupied : (m.cores sid).m_cta_status slot ≠ 0
  slot_eq : (m.cores sid).m_cta_id t = slot
  shared_eq : m.sim.shared_memory_lookup (config.sm_idx sid (m.kernels uid).threads_per_cta
    (config.start_thread (m.kernels uid).threads_per_cta slot)) = some shared_mem
  cta_eq : m.sim.ptx_cta_lookup (config.sm_idx sid (m.kernels uid).threads_per_cta
    (config.start_thread (m.kernels uid).threads_per_cta slot)) = some cta_info
  record : ∃ tid l, m.sim.local_memory_lookup sid t = some l ∧
    BelongsTo (m.sim.threads p) uid ctaid tid shared_mem cta_info l

theorem MemoryInv.given_of_slot (inv : MemoryInv config m issued) {uid slot : Nat}
    (hkernel : (m.cores sid).m_kernel = some uid) (occupied : (m.cores sid).m_cta_status slot ≠ 0) :
    ∃ shared_mem cta_info ctaid, ∀ t p, Resident m sid t p → (m.cores sid).m_cta_id t = slot →
      Given config m sid t p uid slot shared_mem cta_info ctaid := by
  have block := (inv.core sid).slot hkernel occupied
  obtain ⟨shared_mem, cta_info, ctaid, shared, cta, threads⟩ := block.memory
  refine ⟨shared_mem, cta_info, ctaid, fun t p resident slot_eq => ?_⟩
  obtain ⟨uid', slot', i, hkernel', occupied', inside, rfl⟩ := (inv.core sid).active_slot resident.active
  obtain rfl := Option.some.inj (hkernel.symm.trans hkernel')
  have here := ((inv.core sid).slot hkernel occupied').cta_eq i inside
  obtain rfl : slot' = slot := here.symm.trans slot_eq
  obtain ⟨p', l, onCore, local_, record⟩ := threads i inside
  obtain rfl := Option.some.inj (onCore.symm.trans resident.onCore)
  exact ⟨hkernel, occupied, slot_eq, shared, cta, _, l, local_, record⟩

theorem MemoryInv.given (inv : MemoryInv config m issued) (resident : Resident m sid t p) :
    ∃ uid slot shared_mem cta_info ctaid,
      Given config m sid t p uid slot shared_mem cta_info ctaid := by
  obtain ⟨uid, slot, i, hkernel, occupied, inside, rfl⟩ := (inv.core sid).active_slot resident.active
  obtain ⟨shared_mem, cta_info, ctaid, each⟩ := inv.given_of_slot hkernel occupied
  exact ⟨uid, slot, shared_mem, cta_info, ctaid,
    each _ p resident (((inv.core sid).slot hkernel occupied).cta_eq i inside)⟩

theorem MemoryInv.same_slot (inv : MemoryInv config m issued) {uid slot uid' slot' : Nat}
    (hkernel : (m.cores sid).m_kernel = some uid) (hkernel' : (m.cores sid').m_kernel = some uid')
    (index : config.sm_idx sid (m.kernels uid).threads_per_cta
        (config.start_thread (m.kernels uid).threads_per_cta slot) =
      config.sm_idx sid' (m.kernels uid').threads_per_cta
        (config.start_thread (m.kernels uid').threads_per_cta slot')) :
    sid = sid' ∧ slot = slot' := by
  obtain rfl := config.sm_idx_sid ((inv.core sid).sid_lt hkernel) ((inv.core sid').sid_lt hkernel') index
  obtain rfl := Option.some.inj (hkernel.symm.trans hkernel')
  exact ⟨rfl, config.sm_idx_start_thread_inj (inv.settled (inv.bound hkernel)).threads_pos index⟩

theorem MemoryInv.separate (inv : MemoryInv config m issued) : Separate m := by
  constructor
  case blocks =>
    intro sid t p sid' t' p' resident resident' apart
    obtain ⟨uid, slot, shared_mem, cta_info, ctaid, given⟩ := inv.given resident
    obtain ⟨uid', slot', shared_mem', cta_info', ctaid', given'⟩ := inv.given resident'
    obtain ⟨tid, l, -, record⟩ := given.record
    obtain ⟨tid', l', -, record'⟩ := given'.record
    have different (index : config.sm_idx sid (m.kernels uid).threads_per_cta
          (config.start_thread (m.kernels uid).threads_per_cta slot) =
        config.sm_idx sid' (m.kernels uid').threads_per_cta
          (config.start_thread (m.kernels uid').threads_per_cta slot')) : False := by
      obtain ⟨rfl, rfl⟩ := inv.same_slot given.kernel given'.kernel index
      rw [given.slot_eq, given'.slot_eq] at apart
      exact apart.elim (fun other => other rfl) (fun other => other rfl)
    have tables := inv.sound.tables
    constructor
    · intro same
      rw [record.shared_mem, record'.shared_mem] at same
      exact different (tables.shared_table.inj given.shared_eq (same ▸ given'.shared_eq))
    · intro same
      rw [record.cta_info, record'.cta_info] at same
      exact different (tables.cta_table.inj given.cta_eq (same ▸ given'.cta_eq))
  case threads =>
    intro sid t p t' p' resident resident' apart same
    obtain ⟨uid, slot, shared_mem, cta_info, ctaid, given⟩ := inv.given resident
    obtain ⟨uid', slot', shared_mem', cta_info', ctaid', given'⟩ := inv.given resident'
    obtain ⟨tid, l, found, record⟩ := given.record
    obtain ⟨tid', l', found', record'⟩ := given'.record
    rw [record.local_mem, record'.local_mem] at same
    -- a local memory belongs to one hardware thread of one core
    have key := @inv.sound.tables.local_table.inj (sid, t) (sid, t') _ found (same ▸ found')
    exact apart (Prod.mk.inj key).2
  case together =>
    intro sid t p t' p' resident resident' slots
    obtain ⟨uid, slot, i, hkernel, occupied, inside, rfl⟩ := (inv.core sid).active_slot resident.active
    have slot_eq := ((inv.core sid).slot hkernel occupied).cta_eq i inside
    obtain ⟨shared_mem, cta_info, ctaid, each⟩ := inv.given_of_slot hkernel occupied
    obtain ⟨tid, l, -, record⟩ := (each _ p resident slot_eq).record
    obtain ⟨tid', l', -, record'⟩ := (each _ p' resident' (slots.symm.trans slot_eq)).record
    exact ⟨record.shared_mem.trans record'.shared_mem.symm, record.cta_info.trans record'.cta_info.symm,
      record.kernel.trans record'.kernel.symm, record.ctaid.trans record'.ctaid.symm⟩

/-! ## Slots that are used again -/

theorem launch_error {gridDim blockDim : Dim3} {smem regs : Nat} {e : Failure}
    (fails : m.launch config gridDim blockDim smem regs = .error e) : e = .launch := by
  simp only [GpgpuSim.launch] at fails
  split at fails
  · exact (Except.error.inj fails).symm
  · split at fails
    · exact (Except.error.inj fails).symm
    · cases fails

theorem MemoryInv.step_error (inv : MemoryInv config m issued) {e : Event}
    (possible : m.Possible config e) {failure : Failure} (fails : m.step config e = .error failure) :
    failure = .launch ∨ failure = .max_cta ∨ failure = .dec_running ∨ failure = .set_kernel_done := by
  cases e with
  | launch gridDim blockDim smem regs => exact Or.inl (launch_error fails)
  | offer heap sid =>
    cases memoryKept_offers config m sid heap possible ⟨issued, inv⟩ with
    | inl done =>
      obtain ⟨taken, next, offered, -⟩ := done
      simp only [GpgpuSim.step, offered] at fails
      cases fails
    | inr aborts =>
      simp only [GpgpuSim.step, aborts.2] at fails
      exact Or.inr (Or.inl (Except.error.inj fails).symm)
  | issue_block2core heap cluster =>
    cases inv.issue_block2core heap possible with
    | inl done =>
      obtain ⟨next, issues, -⟩ := done
      cases issues.symm.trans fails
    | inr aborts => exact Or.inr (Or.inl (Except.error.inj (aborts.symm.trans fails)).symm)
  | exit sid t =>
    obtain ⟨-, -, thd, onCore, running⟩ := possible
    obtain ⟨next, exits, -⟩ := inv.exit_impl onCore running
    cases exits.symm.trans fails
  | fetch_exit sid t =>
    cases inv.fetches possible.2.1 with
    | stays _ fetch => cases fetch.symm.trans fails
    | unbinds _ _ _ _ _ fetch => cases fetch.symm.trans fails
    | finishes _ _ _ _ _ _ fetch => cases fetch.symm.trans fails
    | notRunning _ _ fetch =>
      exact Or.inr (Or.inr (Or.inl (Except.error.inj (fetch.symm.trans fails)).symm))
    | notFound _ _ fetch =>
      exact Or.inr (Or.inr (Or.inr (Except.error.inj (fetch.symm.trans fails)).symm))
  | finished_kernel => cases fails

/-- In every run resident blocks share nothing, and the check of a slot that is used again finds
    only threads that have finished. -/
theorem blocks_separate (reachable : Reachable config m) :
    Separate m ∧ ∀ e, m.Possible config e →
      m.step config e ≠ .error .check_cta_thread_status_and_reset := by
  obtain ⟨issued, inv⟩ := reachable.memoryKept
  refine ⟨inv.separate, fun e possible fails => ?_⟩
  have known := inv.step_error possible fails
  simp at known

/-! ## Two cores with a block each -/

theorem offers_keep {P : GpgpuSim → Prop} {heap : Allocator}
    (keep : ∀ m m' sid, sid < config.num_shader → P m →
      m.step config (.offer heap sid) = .ok m' → P m') :
    ∀ (sids : List Nat) {m m' : GpgpuSim}, (∀ sid ∈ sids, sid < config.num_shader) → P m →
      sids.foldlM (fun m sid => m.step config (.offer heap sid)) m = .ok m' → P m' := by
  intro sids
  induction sids with
  | nil =>
    intro m m' _ holds run
    obtain rfl : m = m' := Except.ok.inj run
    exact holds
  | cons sid rest ih =>
    intro m m' inside holds run
    rw [List.foldlM_cons] at run
    cases first : m.step config (.offer heap sid) with
    | error e =>
      rw [first] at run
      cases run
    | ok next =>
      rw [first] at run
      exact ih (fun sid' member => inside sid' (List.mem_cons_of_mem _ member))
        (keep m next sid (inside sid List.mem_cons_self) holds first) run

def twoCores : Config where
  num_shader := 2
  warp_size := 2
  shader_pos := FinLiterals.two_pos
  warp_pos := FinLiterals.two_pos
  n_simt_clusters := 1
  n_simt_cores_per_cluster := 2
  num_shader_eq := rfl
  n_thread_per_shader := 4
  gpgpu_shmem_size := 64
  gpgpu_shader_registers := 64
  max_cta_per_core := 2
  max_concurrent_kernel := 2
  kernel_pos := FinLiterals.two_pos
  gpu_max_cta_opt := 0

/-- A heap that never gives an address again while a higher one is in use. -/
def bump : Allocator where
  malloc := fun used => used.sup id + 1
  fresh := fun _ member => Nat.not_succ_le_self _ (Finset.le_sup (f := id) member)

def twoBlocks : GpgpuSim :=
  (GpgpuSim.new twoCores).withKernel (KernelInfo.new ⟨2, 1, 1⟩ ⟨2, 1, 1⟩ 0 0) 0

theorem exists_four_created : ∃ m,
    [0, 1].foldlM (fun m sid => GpgpuSim.step twoCores m (.offer bump sid)) twoBlocks = .ok m ∧
      m.sim.created.length = 4 := by
  have count : ([0, 1].foldlM (fun m sid => GpgpuSim.step twoCores m (.offer bump sid))
      twoBlocks).toOption.map (fun m => m.sim.created.length) = some 4 := by decide +kernel
  cases run : [0, 1].foldlM (fun m sid => GpgpuSim.step twoCores m (.offer bump sid)) twoBlocks with
  | error e =>
    rw [run] at count
    cases count
  | ok m =>
    rw [run] at count
    exact ⟨m, rfl, Option.some.inj count⟩

theorem blocks_separate_two : ∃ m, m.sim.created.length = 4 ∧ Separate m := by
  obtain ⟨m, run, created⟩ := exists_four_created
  have launched : Reachable twoCores twoBlocks :=
    .step (e := .launch ⟨2, 1, 1⟩ ⟨2, 1, 1⟩ 0 0) .new
      ⟨⟨by decide, by decide, by decide, by decide⟩, rfl⟩ rfl
  have reachable : Reachable twoCores m :=
    offers_keep (fun _ _ sid inside reachable step => .step (e := .offer bump sid) reachable inside step)
      [0, 1] (by decide) launched run
  exact ⟨m, created, (blocks_separate reachable).1⟩

end AesOnGpu.Cta.Dispatch
