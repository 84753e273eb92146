import AesOnGpu.Cta.Kernel
import AesOnGpu.Cta.Slots
import AesOnGpu.Lib.AddressTable

/-! # Thread blocks in the functional simulator

`ptx_sim_init_thread` creates the threads of a block when its first hardware thread is
started and hands them out one call after the other. The memories and the `ptx_cta_info`
of a block come from tables that are never emptied, and the objects from a heap that may
give an address again once it is freed.
-/

namespace AesOnGpu.Cta

open Lib (AddressTable)

/-- The function whose assertion or check ends the simulation. -/
inductive Failure where
  | max_cta
  | launch
  | issue_block2core
  | init_warps
  | ptx_sim_init_thread
  | ptx_cta_info
  | check_cta_thread_status_and_reset
  | register_thread_exit
  | fetch
  | register_cta_thread_exit
  | dec_running
  | set_kernel_done
deriving DecidableEq, Repr

/-- The heap picks any address that is not in use. -/
structure Allocator where
  malloc : Finset Nat → Nat
  fresh : ∀ used, malloc used ∉ used

/-- `(unsigned)-1`, the hardware numbers of a thread that no core has started. -/
def unset : Nat := 2 ^ 32 - 1

/-- `ptx_thread_info`, with the uid of its kernel. -/
structure PtxThreadInfo where
  kernel : Nat
  m_ctaid : Dim3
  m_tid : Dim3
  m_shared_mem : Nat
  m_local_mem : Nat
  m_cta_info : Nat
  m_thread_done : Bool
  m_hw_sid : Nat
  m_hw_ctaid : Nat
  m_hw_wid : Nat
  m_hw_tid : Nat
deriving DecidableEq

instance : Inhabited PtxThreadInfo :=
  ⟨⟨0, Dim3.zero, Dim3.zero, 0, 0, 0, false, unset, unset, unset, unset⟩⟩

/-- `ptx_cta_info`, its sets of thread pointers. -/
structure PtxCtaInfo where
  m_sm_idx : Nat
  m_threads_in_cta : Finset Nat
  m_threads_that_have_exited : Finset Nat
  m_dangling_pointers : Finset Nat
deriving DecidableEq

def PtxCtaInfo.new (sm_idx : Nat) : PtxCtaInfo := ⟨sm_idx, ∅, ∅, ∅⟩

/-- One `new ptx_thread_info` of the history. -/
structure Created where
  kernel : Nat
  ctaid : Dim3
  tid : Dim3
  sid : Nat
  hw_tid : Nat
deriving DecidableEq

/-- The statics of `ptx_sim_init_thread` and `ptx_cta_info`, the objects by their addresses,
and the history of thread creations. -/
structure PtxSim where
  live_threads : Finset Nat
  objects : Finset Nat
  threads : Nat → PtxThreadInfo
  cta_infos : Nat → PtxCtaInfo
  shared_memory_lookup : Nat → Option Nat
  ptx_cta_lookup : Nat → Option Nat
  local_memory_lookup : Nat → Nat → Option Nat
  g_ptx_cta_info_sm_idx_used : Finset Nat
  created : List Created

namespace PtxSim

def new : PtxSim where
  live_threads := ∅
  objects := ∅
  threads := fun _ => default
  cta_infos := fun _ => PtxCtaInfo.new 0
  shared_memory_lookup := fun _ => none
  ptx_cta_lookup := fun _ => none
  local_memory_lookup := fun _ _ => none
  g_ptx_cta_info_sm_idx_used := ∅
  created := []

variable (s : PtxSim)

def address (heap : Allocator) : Nat :=
  heap.malloc (s.live_threads ∪ s.objects)

/-- `register_deleted_thread` and `delete`. -/
def delete_thread (thd : Nat) : PtxSim :=
  let info := (s.threads thd).m_cta_info
  { s with
    live_threads := s.live_threads.erase thd
    cta_infos := Function.update s.cta_infos info
      { s.cta_infos info with
        m_dangling_pointers := insert thd (s.cta_infos info).m_dangling_pointers } }

def remove_old : Option Nat → Except Failure PtxSim
  | none => .ok s
  | some thd =>
      if (s.threads thd).m_thread_done then .ok (s.delete_thread thd)
      else .error .ptx_sim_init_thread

def check_cta_thread_status_and_reset (info : Nat) : Except Failure PtxSim :=
  let cta := s.cta_infos info
  if cta.m_threads_that_have_exited.card ≠ cta.m_threads_in_cta.card then
    .error .check_cta_thread_status_and_reset
  else if ∃ t ∈ cta.m_threads_in_cta,
      t ∉ cta.m_dangling_pointers ∧ (s.threads t).m_thread_done = false then
    .error .check_cta_thread_status_and_reset
  else
    .ok { s with cta_infos := Function.update s.cta_infos info (PtxCtaInfo.new cta.m_sm_idx) }

def new_shared_mem (heap : Allocator) (sm_idx : Nat) : PtxSim :=
  { s with
    objects := insert (s.address heap) s.objects
    shared_memory_lookup :=
      Function.update s.shared_memory_lookup sm_idx (some (s.address heap)) }

/-- `ptx_cta_info::ptx_cta_info` fails for an index that has one already. -/
def new_cta_info (heap : Allocator) (sm_idx : Nat) : Except Failure PtxSim :=
  if sm_idx ∈ s.g_ptx_cta_info_sm_idx_used then .error .ptx_cta_info
  else
    .ok { s with
      objects := insert (s.address heap) s.objects
      cta_infos := Function.update s.cta_infos (s.address heap) (PtxCtaInfo.new sm_idx)
      ptx_cta_lookup := Function.update s.ptx_cta_lookup sm_idx (some (s.address heap))
      g_ptx_cta_info_sm_idx_used := insert sm_idx s.g_ptx_cta_info_sm_idx_used }

/-- The shared memory and the `ptx_cta_info` of a new block. -/
def cta_alloc (heap : Allocator) (sm_idx : Nat) : Except Failure (Nat × Nat × PtxSim) :=
  match s.shared_memory_lookup sm_idx with
  | none => do
      let s₁ := s.new_shared_mem heap sm_idx
      let s₂ ← s₁.new_cta_info heap sm_idx
      return (s.address heap, s₁.address heap, s₂)
  | some shared_mem =>
      match s.ptx_cta_lookup sm_idx with
      | none => .error .ptx_sim_init_thread
      | some cta_info => do
          let s₁ ← s.check_cta_thread_status_and_reset cta_info
          return (shared_mem, cta_info, s₁)

/-- The local memory of hardware thread `new_tid`, a new one at its first use. -/
def local_mem (heap : Allocator) (sid new_tid : Nat) : Nat × PtxSim :=
  match s.local_memory_lookup sid new_tid with
  | some l => (l, s)
  | none =>
      (s.address heap,
        { s with
          objects := insert (s.address heap) s.objects
          local_memory_lookup := Function.update s.local_memory_lookup sid
            (Function.update (s.local_memory_lookup sid) new_tid (some (s.address heap))) })

/-- A new thread as the loop of `ptx_sim_init_thread` fills it in. -/
def fresh_thread (kernel : Nat) (ctaid tid : Dim3) (shared_mem cta_info local_mem : Nat) :
    PtxThreadInfo where
  kernel := kernel
  m_ctaid := ctaid
  m_tid := tid
  m_shared_mem := shared_mem
  m_local_mem := local_mem
  m_cta_info := cta_info
  m_thread_done := false
  m_hw_sid := unset
  m_hw_ctaid := unset
  m_hw_wid := unset
  m_hw_tid := unset

def create_thread (heap : Allocator) (uid sid tid shared_mem cta_info : Nat) (k : KernelInfo) :
    KernelInfo × PtxSim :=
  let ctaid3d := k.m_next_cta
  let new_tid := k.get_next_thread_id + tid
  let tid3d := k.m_next_tid
  let thd := s.address heap
  let s₁ := { s with live_threads := insert thd s.live_threads }
  let memory := s₁.local_mem heap sid new_tid
  let s₂ := memory.2
  let cta := s₂.cta_infos cta_info
  ({ k.increment_thread_id with m_active_threads := k.m_active_threads ++ [thd] },
    { s₂ with
      threads := Function.update s₂.threads thd
        (fresh_thread uid ctaid3d tid3d shared_mem cta_info memory.1)
      cta_infos := Function.update s₂.cta_infos cta_info
        { cta with m_threads_in_cta := insert thd cta.m_threads_in_cta }
      created := s₂.created ++ [⟨uid, ctaid3d, tid3d, sid, new_tid⟩] })

/-- The loop, `fuel` bounding its iterations. -/
def create_threads (heap : Allocator) (uid sid tid shared_mem cta_info : Nat) :
    Nat → KernelInfo → PtxSim → KernelInfo × PtxSim
  | 0, k, s => (k, s)
  | fuel + 1, k, s =>
      if k.more_threads_in_cta then
        let next := s.create_thread heap uid sid tid shared_mem cta_info k
        create_threads heap uid sid tid shared_mem cta_info fuel next.1 next.2
      else (k, s)

/-- `ptx_thread_info::init` -/
def init (thd sid hw_cta_id hw_warp_id tid : Nat) : PtxSim :=
  { s with
    threads := Function.update s.threads thd
      { s.threads thd with
        m_hw_sid := sid
        m_hw_ctaid := hw_cta_id
        m_hw_wid := hw_warp_id
        m_hw_tid := tid } }

def start_active (sid tid threads_left hw_cta_id hw_warp_id : Nat) (k : KernelInfo) :
    Except Failure (Nat × Option Nat × KernelInfo × PtxSim) :=
  match k.m_active_threads with
  | [] => .error .ptx_sim_init_thread
  | thd :: rest =>
      if (thd :: rest).length ≤ threads_left then
        .ok (1, some thd, { k with m_active_threads := rest },
          s.init thd sid hw_cta_id hw_warp_id tid)
      else .error .ptx_sim_init_thread

/-- A block is created: its memories, its threads, and the step to the next block. -/
def create_cta (heap : Allocator) (config : ShaderConfig) (uid sid tid : Nat) (k : KernelInfo) :
    Except Failure (KernelInfo × PtxSim) := do
  let (shared_mem, cta_info, s₁) ← s.cta_alloc heap (config.sm_idx sid k.threads_per_cta tid)
  let built := create_threads heap uid sid tid shared_mem cta_info (k.threads_per_cta + 1) k s₁
  return (built.1.increment_cta_id, built.2)

/-- `ptx_sim_init_thread` gives the number of threads it started, the new `*thread_info`,
the kernel and the simulator. -/
def ptx_sim_init_thread (heap : Allocator) (config : ShaderConfig) (uid : Nat) (k : KernelInfo)
    (thread_info : Option Nat) (sid tid threads_left num_threads hw_cta_id hw_warp_id : Nat) :
    Except Failure (Nat × Option Nat × KernelInfo × PtxSim) := do
  let s₁ ← s.remove_old thread_info
  if k.m_active_threads ≠ [] then
    s₁.start_active sid tid threads_left hw_cta_id hw_warp_id k
  else if k.no_more_ctas_to_run then return (0, none, k, s₁)
  else if threads_left < k.threads_per_cta then return (0, none, k, s₁)
  else if num_threads / k.threads_per_cta = 0 then .error .ptx_sim_init_thread
  else
    let (k', s₂) ← s₁.create_cta heap config uid sid tid k
    s₂.start_active sid tid threads_left hw_cta_id hw_warp_id k'

/-- `set_done` and `register_thread_exit`, as `exit` runs them. -/
def exit_impl (thd : Nat) : Except Failure PtxSim :=
  let thread := s.threads thd
  let info := thread.m_cta_info
  let cta := s.cta_infos info
  if thd ∈ cta.m_threads_that_have_exited then .error .register_thread_exit
  else
    .ok { s with
      threads := Function.update s.threads thd { thread with m_thread_done := true }
      cta_infos := Function.update s.cta_infos info
        { cta with m_threads_that_have_exited := insert thd cta.m_threads_that_have_exited } }

/-! ## What the tables and the sets of threads always satisfy -/

structure Tables (objects : Finset Nat) (shared cta : Nat → Option Nat)
    (localMem : Nat → Nat → Option Nat) (used : Finset Nat) : Prop where
  shared_table : AddressTable objects shared
  cta_table : AddressTable objects cta
  local_table : AddressTable objects (fun i : Nat × Nat => localMem i.1 i.2)
  both : ∀ i, shared i = none ↔ cta i = none
  used_iff : ∀ i, i ∈ used ↔ cta i ≠ none

/-- Each block knows its threads that still run. -/
structure Sound : Prop where
  tables : Tables s.objects s.shared_memory_lookup s.ptx_cta_lookup s.local_memory_lookup
    s.g_ptx_cta_info_sm_idx_used
  info_mem : ∀ {t}, t ∈ s.live_threads → (s.threads t).m_cta_info ∈ s.objects
  exited_subset : ∀ q,
    (s.cta_infos q).m_threads_that_have_exited ⊆ (s.cta_infos q).m_threads_in_cta
  running : ∀ {q t}, t ∈ (s.cta_infos q).m_threads_in_cta →
    t ∉ (s.cta_infos q).m_threads_that_have_exited →
      t ∈ s.live_threads ∧ (s.threads t).m_cta_info = q ∧ (s.threads t).m_thread_done = false
  kept : ∀ {q t}, t ∈ (s.cta_infos q).m_threads_in_cta →
    t ∉ (s.cta_infos q).m_dangling_pointers →
      t ∈ s.live_threads ∧ (s.threads t).m_cta_info = q ∧
        (t ∈ (s.cta_infos q).m_threads_that_have_exited → (s.threads t).m_thread_done = true)
  registered : ∀ {t}, t ∈ s.live_threads → (s.threads t).m_thread_done = false →
    t ∈ (s.cta_infos (s.threads t).m_cta_info).m_threads_in_cta ∧
      t ∉ (s.cta_infos (s.threads t).m_cta_info).m_threads_that_have_exited

theorem sound_new : new.Sound := by
  constructor
  case tables =>
    exact ⟨.empty _, .empty _, .empty _, fun _ => by simp [new], fun _ => by simp [new]⟩
  all_goals simp [new, PtxCtaInfo.new]

theorem address_not_live (heap : Allocator) : s.address heap ∉ s.live_threads :=
  fun hmem => heap.fresh _ (Finset.mem_union_left _ hmem)

theorem address_not_object (heap : Allocator) : s.address heap ∉ s.objects :=
  fun hmem => heap.fresh _ (Finset.mem_union_right _ hmem)

end PtxSim

end AesOnGpu.Cta
