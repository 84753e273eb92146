import AesOnGpu.Cta.PtxSim
import AesOnGpu.Cta.Reductions

/-! # Kernels, clusters and cores

Cores are offered work in turn: an idle core is bound to a running kernel that has blocks
left, and a core with room takes one block of the kernel it is bound to. A kernel is done
when the last thread of a core exits, no block is left and no other core runs it.
-/

namespace AesOnGpu.Cta.Dispatch

/-- `shader_core_config` and the options of `gpgpu_sim` that dispatch reads. -/
structure Config extends ShaderConfig where
  n_simt_clusters : Nat
  n_simt_cores_per_cluster : Nat
  num_shader_eq : num_shader = n_simt_clusters * n_simt_cores_per_cluster
  n_thread_per_shader : Nat
  gpgpu_shmem_size : Nat
  gpgpu_shader_registers : Nat
  max_cta_per_core : Nat
  max_concurrent_kernel : Nat
  kernel_pos : 0 < max_concurrent_kernel
  gpu_max_cta_opt : Nat

def Config.max_cta (config : Config) (k : KernelInfo) : Except Failure Nat :=
  let padded_cta_size := config.padded_cta_size k.threads_per_cta
  let result_thread := config.n_thread_per_shader / padded_cta_size
  let result_shmem := if 0 < k.smem then config.gpgpu_shmem_size / k.smem else 2 ^ 32 - 1
  let result_regs :=
    if 0 < k.regs then config.gpgpu_shader_registers / (padded_cta_size * ((k.regs + 3) / 4 * 4))
    else 2 ^ 32 - 1
  let limit := min (min (min result_thread result_shmem) result_regs) config.max_cta_per_core
  -- few blocks are spread over all cores
  let result :=
    if k.num_blocks < limit * config.num_shader then
      k.num_blocks / config.num_shader + if k.num_blocks % config.num_shader = 0 then 0 else 1
    else limit
  if MAX_CTA_PER_SHADER < result then .error .max_cta
  else if result < 1 then .error .max_cta
  else .ok result

/-- `shader_core_ctx`. `m_cta_id` and `m_active` are fields of `m_threadState`,
`m_warp_cta_id` is that of `m_warp`. -/
structure ShaderCore where
  m_kernel : Option Nat
  m_cta_status : Nat → Nat
  m_n_active_cta : Nat
  m_not_completed : Nat
  m_thread : Nat → Option Nat
  m_cta_id : Nat → Nat
  m_active : Nat → Bool
  m_active_threads : Finset Nat
  m_warp_cta_id : Nat → Nat

namespace ShaderCore

/-- `shader_core_ctx::shader_core_ctx` -/
def new : ShaderCore where
  m_kernel := none
  m_cta_status := fun _ => 0
  m_n_active_cta := 0
  m_not_completed := 0
  m_thread := fun _ => none
  m_cta_id := fun _ => unset
  m_active := fun _ => false
  m_active_threads := ∅
  m_warp_cta_id := fun _ => unset

variable (config : Config) (core : ShaderCore)

/-- The loop of `issue_block2core` over the hardware threads from `i` on, of which
`threads_left` are left. -/
def init_threads (heap : Allocator) (uid sid free_cta_hw_id : Nat) :
    Nat → Nat → ShaderCore → KernelInfo → PtxSim →
      Except Failure (Nat × ShaderCore × KernelInfo × PtxSim)
  | 0, _, core, k, s => .ok (0, core, k, s)
  | threads_left + 1, i, core, k, s => do
      let (started, thread_info, k', s') ← s.ptx_sim_init_thread heap config.toShaderConfig uid k
        (core.m_thread i) sid i (threads_left + 1) config.n_thread_per_shader free_cta_hw_id
        (i / config.warp_size)
      let core' : ShaderCore :=
        { core with
          m_thread := Function.update core.m_thread i thread_info
          m_cta_id := Function.update core.m_cta_id i free_cta_hw_id
          m_active := Function.update core.m_active i true }
      let (nthreads, rest) ← init_threads heap uid sid free_cta_hw_id threads_left (i + 1) core' k' s'
      return (started + nthreads, rest)

/-- The hardware threads of warp `i` below `end_thread`. -/
def warp_threads (end_thread i : Nat) : Finset Nat :=
  (Finset.Ico (i * config.warp_size) (i * config.warp_size + config.warp_size)).filter
    (· < end_thread)

/-- One warp of `init_warps`. -/
def init_warp (cta_id end_thread i : Nat) : Except Failure ShaderCore :=
  if ∃ hwtid ∈ warp_threads config end_thread i, hwtid ∈ core.m_active_threads then
    .error .init_warps
  else
    .ok { core with
      m_active_threads := core.m_active_threads ∪ warp_threads config end_thread i
      m_warp_cta_id := Function.update core.m_warp_cta_id i cta_id
      m_not_completed := core.m_not_completed + (warp_threads config end_thread i).card }

def init_warps (cta_id start_thread end_thread : Nat) : Except Failure ShaderCore :=
  let start_warp := start_thread / config.warp_size
  let end_warp := end_thread / config.warp_size + if end_thread % config.warp_size = 0 then 0 else 1
  (List.range' start_warp (end_warp - start_warp)).foldlM
    (fun core i => core.init_warp config cta_id end_thread i) core

/-- `shader_core_ctx::issue_block2core` -/
def issue_block2core (heap : Allocator) (uid sid : Nat) (k : KernelInfo) (s : PtxSim) :
    Except Failure (ShaderCore × KernelInfo × PtxSim) := do
  let kernel_max_cta_per_shader ← config.max_cta k
  match (List.range kernel_max_cta_per_shader).find? fun i => core.m_cta_status i == 0 with
  | none => .error .issue_block2core
  | some free_cta_hw_id =>
      let cta_size := k.threads_per_cta
      let start_thread := config.start_thread cta_size free_cta_hw_id
      let (nthreads_in_block, core₁, k', s') ←
        init_threads config heap uid sid free_cta_hw_id cta_size start_thread core k s
      if 0 < nthreads_in_block ∧ nthreads_in_block ≤ config.n_thread_per_shader then
        let core₂ : ShaderCore :=
          { core₁ with
            m_cta_status := Function.update core₁.m_cta_status free_cta_hw_id nthreads_in_block }
        let core₃ ← core₂.init_warps config free_cta_hw_id start_thread (start_thread + cta_size)
        return ({ core₃ with m_n_active_cta := core₃.m_n_active_cta + 1 }, k', s')
      else .error .issue_block2core

end ShaderCore

/-- `gpgpu_sim`, the kernels by their uids and the cores by their `sid`s. `done_calls` is the
history of the calls of `set_kernel_done`. -/
structure GpgpuSim where
  m_next_uid : Nat
  kernels : Nat → KernelInfo
  m_running_kernels : List (Option Nat)
  m_last_issued_kernel : Nat
  m_finished_kernel : List Nat
  gpu_tot_issued_cta : Nat
  m_total_cta_launched : Nat
  m_cta_issue_next_core : Nat → Nat
  cores : Nat → ShaderCore
  sim : PtxSim
  done_calls : List Nat

namespace GpgpuSim

variable (config : Config) (m : GpgpuSim)

/-- The simulator before the first launch; `m_next_uid` starts at 1. -/
def new : GpgpuSim where
  m_next_uid := 1
  kernels := fun _ => default
  m_running_kernels := List.replicate config.max_concurrent_kernel none
  m_last_issued_kernel := 0
  m_finished_kernel := []
  gpu_tot_issued_cta := 0
  m_total_cta_launched := 0
  m_cta_issue_next_core := fun _ => 0
  cores := fun _ => ShaderCore.new
  sim := PtxSim.new
  done_calls := []

def free_kernel_slot : Option Nat → Bool
  | none => true
  | some uid => (m.kernels uid).done

def can_start_kernel : Bool :=
  m.m_running_kernels.any m.free_kernel_slot

def launch (gridDim blockDim : Dim3) (smem regs : Nat) : Except Failure GpgpuSim :=
  let kinfo := KernelInfo.new gridDim blockDim smem regs
  if config.n_thread_per_shader < kinfo.threads_per_cta then .error .launch
  else
    match m.m_running_kernels.findIdx? m.free_kernel_slot with
    | none => .error .launch
    | some n =>
        .ok { m with
          m_next_uid := m.m_next_uid + 1
          kernels := Function.update m.kernels m.m_next_uid kinfo
          m_running_kernels := m.m_running_kernels.set n (some m.m_next_uid) }

def hit_max_cta_count : Bool :=
  config.gpu_max_cta_opt != 0 &&
    decide (config.gpu_max_cta_opt ≤ m.gpu_tot_issued_cta + m.m_total_cta_launched)

def kernel_more_cta_left : Option Nat → Bool
  | none => false
  | some uid => !m.hit_max_cta_count config && !(m.kernels uid).no_more_ctas_to_run

/-- The slot that the round of `select_kernel` stops at. -/
def select_slot : Option Nat :=
  ((List.range m.m_running_kernels.length).map fun n =>
    (n + m.m_last_issued_kernel + 1) % config.max_concurrent_kernel).find? fun idx =>
      m.kernel_more_cta_left config (m.m_running_kernels.getD idx none)

def select_kernel : Option Nat × GpgpuSim :=
  match m.select_slot config with
  | none => (none, m)
  | some idx => (m.m_running_kernels.getD idx none, { m with m_last_issued_kernel := idx })

/-- `shader_core_ctx::set_kernel` -/
def set_kernel (sid uid : Nat) : GpgpuSim :=
  { m with
    kernels := Function.update m.kernels uid (m.kernels uid).inc_running
    cores := Function.update m.cores sid { m.cores sid with m_kernel := some uid } }

/-- The first half of an offer: an idle core looks for a kernel. -/
def bind_kernel (sid : Nat) : GpgpuSim :=
  if (m.cores sid).m_not_completed = 0 ∧ (m.cores sid).m_kernel = none then
    match m.select_kernel config with
    | (some uid, m') => m'.set_kernel sid uid
    | (none, m') => m'
  else m

/-- The second half: a core with room takes a block, and says whether it did. -/
def take_block (heap : Allocator) (sid : Nat) : Except Failure (Bool × GpgpuSim) :=
  match (m.cores sid).m_kernel with
  | none => .ok (false, m)
  | some uid => do
      if m.kernel_more_cta_left config (some uid) then
        let limit ← config.max_cta (m.kernels uid)
        if (m.cores sid).m_n_active_cta < limit then
          let (core, k, s) ←
            (m.cores sid).issue_block2core config heap uid sid (m.kernels uid) m.sim
          return (true, { m with
            kernels := Function.update m.kernels uid k
            cores := Function.update m.cores sid core
            sim := s })
        else return (false, m)
      else return (false, m)

/-- One core of the loop in `simt_core_cluster::issue_block2core`. -/
def offer (heap : Allocator) (sid : Nat) : Except Failure (Bool × GpgpuSim) :=
  (m.bind_kernel config sid).take_block config heap sid

/-- The loop of `simt_core_cluster::issue_block2core`, over the cores in their turn. -/
def offer_in_turn (heap : Allocator) (cluster : Nat) :
    List Nat → GpgpuSim → Except Failure (Nat × GpgpuSim)
  | [], m => .ok (0, m)
  | core :: rest, m => do
      let (issued, m') ← m.offer config heap (cluster * config.n_simt_cores_per_cluster + core)
      if issued then
        return (1, { m' with
          m_cta_issue_next_core := Function.update m'.m_cta_issue_next_core cluster core })
      else offer_in_turn heap cluster rest m'

/-- `simt_core_cluster::issue_block2core`, with the count that `gpgpu_sim::issue_block2core`
keeps of the blocks it gave out. -/
def issue_block2core (heap : Allocator) (cluster : Nat) : Except Failure GpgpuSim := do
  let turn := (List.range config.n_simt_cores_per_cluster).map fun i =>
    (i + m.m_cta_issue_next_core cluster + 1) % config.n_simt_cores_per_cluster
  let (num, m') ← offer_in_turn config heap cluster turn m
  return { m' with m_total_cta_launched := m'.m_total_cta_launched + num }

def set_kernel_done (uid : Nat) : Except Failure GpgpuSim :=
  match m.m_running_kernels.findIdx? (· == some uid) with
  | none => .error .set_kernel_done
  | some n =>
      .ok { m with
        m_finished_kernel := m.m_finished_kernel ++ [uid]
        m_running_kernels := m.m_running_kernels.set n none
        done_calls := m.done_calls ++ [uid] }

/-- What `register_cta_thread_exit` does with the kernel of a core that has become empty. -/
def release_kernel (sid : Nat) : Except Failure GpgpuSim :=
  match (m.cores sid).m_kernel with
  | none => .error .register_cta_thread_exit
  | some uid =>
      match (m.kernels uid).dec_running with
      | none => .error .dec_running
      | some k => do
          let m₁ : GpgpuSim := { m with kernels := Function.update m.kernels uid k }
          let m₂ ←
            if !m₁.kernel_more_cta_left config (some uid) && !k.running then m₁.set_kernel_done uid
            else .ok m₁
          return { m₂ with
            cores := Function.update m₂.cores sid { m₂.cores sid with m_kernel := none } }

/-- `shader_core_ctx::register_cta_thread_exit` -/
def register_cta_thread_exit (sid cta_num : Nat) : Except Failure GpgpuSim :=
  let core := m.cores sid
  if core.m_cta_status cta_num = 0 then .error .register_cta_thread_exit
  else
    let core₁ : ShaderCore :=
      { core with
        m_cta_status := Function.update core.m_cta_status cta_num (core.m_cta_status cta_num - 1) }
    if core₁.m_cta_status cta_num = 0 then
      let core₂ : ShaderCore := { core₁ with m_n_active_cta := core₁.m_n_active_cta - 1 }
      let m' : GpgpuSim := { m with cores := Function.update m.cores sid core₂ }
      if core₂.m_n_active_cta = 0 then m'.release_kernel config sid else .ok m'
    else .ok { m with cores := Function.update m.cores sid core₁ }

/-- What `fetch` does with an active thread of a warp that has finished. -/
def fetch_exit (sid tid : Nat) : Except Failure GpgpuSim := do
  let core := m.cores sid
  let m₁ : GpgpuSim :=
    { m with
      cores := Function.update m.cores sid
        { core with m_active := Function.update core.m_active tid false } }
  let m₂ ← m₁.register_cta_thread_exit config sid (core.m_warp_cta_id (tid / config.warp_size))
  if (m₂.cores sid).m_thread tid = none then .error .fetch
  else
    return { m₂ with
      cores := Function.update m₂.cores sid
        { m₂.cores sid with
          m_not_completed := (m₂.cores sid).m_not_completed - 1
          m_active_threads := (m₂.cores sid).m_active_threads.erase tid } }

/-- `ptx_thread_info::exit_impl`, run by hardware thread `tid`. -/
def exit_impl (sid tid : Nat) : Except Failure GpgpuSim :=
  match (m.cores sid).m_thread tid with
  | none => .error .fetch
  | some thd => do
      let s ← m.sim.exit_impl thd
      return { m with sim := s }

/-- `gpgpu_sim::finished_kernel`, as the stream manager calls it. -/
def finished_kernel : GpgpuSim :=
  { m with m_finished_kernel := m.m_finished_kernel.tail }

end GpgpuSim

inductive Event where
  | launch (gridDim blockDim : Dim3) (smem regs : Nat)
  | offer (heap : Allocator) (sid : Nat)
  | issue_block2core (heap : Allocator) (cluster : Nat)
  | exit (sid tid : Nat)
  | fetch_exit (sid tid : Nat)
  | finished_kernel

def GpgpuSim.step (config : Config) (m : GpgpuSim) : Event → Except Failure GpgpuSim
  | .launch gridDim blockDim smem regs => m.launch config gridDim blockDim smem regs
  | .offer heap sid => do
      let (_, m') ← m.offer config heap sid
      return m'
  | .issue_block2core heap cluster => m.issue_block2core config heap cluster
  | .exit sid tid => m.exit_impl sid tid
  | .fetch_exit sid tid => m.fetch_exit config sid tid
  | .finished_kernel => .ok m.finished_kernel

/-- When an event can happen: a kernel is launched when `can_start_kernel` says so, a thread
exits that still runs, and `fetch` takes away a thread that has exited. -/
def GpgpuSim.Possible (config : Config) (m : GpgpuSim) : Event → Prop
  | .launch _ blockDim _ _ => blockDim.Proper ∧ m.can_start_kernel = true
  | .offer _ sid => sid < config.num_shader
  | .issue_block2core _ cluster => cluster < config.n_simt_clusters
  | .exit sid tid =>
      sid < config.num_shader ∧ (m.cores sid).m_active tid = true ∧
        ∃ thd, (m.cores sid).m_thread tid = some thd ∧ (m.sim.threads thd).m_thread_done = false
  | .fetch_exit sid tid =>
      sid < config.num_shader ∧ (m.cores sid).m_active tid = true ∧
        ∀ thd, (m.cores sid).m_thread tid = some thd → (m.sim.threads thd).m_thread_done = true
  | .finished_kernel => True

/-- The states that runs pass through. -/
inductive Reachable (config : Config) : GpgpuSim → Prop
  | new : Reachable config (GpgpuSim.new config)
  | step {m m' : GpgpuSim} {e : Event} : Reachable config m → m.Possible config e →
      m.step config e = .ok m' → Reachable config m'

end AesOnGpu.Cta.Dispatch
