import AesOnGpu.Cta.Separation

/-! # Kernels that run

The count that a kernel keeps of the cores that run it, its slot in `m_running_kernels` and the calls
of `set_kernel_done`, without a limit on the number of blocks. A kernel leaves its slot in the step
that ends its last block.
-/

namespace AesOnGpu.Cta.Dispatch

variable {config : Config} {m : GpgpuSim} {issued : Nat → Nat} {sid uid : Nat}

def GpgpuSim.runners (config : Config) (m : GpgpuSim) (uid : Nat) : Finset Nat :=
  (Finset.range config.num_shader).filter fun sid => (m.cores sid).m_kernel = some uid

structure KernelsInv (config : Config) (m : GpgpuSim) : Prop where
  length : m.m_running_kernels.length = config.max_concurrent_kernel
  running : ∀ uid, (m.kernels uid).m_num_cores_running = (m.runners config uid).card
  slot_inj : ∀ {i j uid : Nat}, m.m_running_kernels[i]? = some (some uid) →
    m.m_running_kernels[j]? = some (some uid) → i = j
  waiting : ∀ {uid}, m.Launched uid → (m.kernels uid).done = false →
    some uid ∈ m.m_running_kernels ∧ uid ∉ m.done_calls
  finished : ∀ {uid}, m.Launched uid → (m.kernels uid).done = true →
    some uid ∉ m.m_running_kernels ∧ uid ∈ m.done_calls
  done_nodup : m.done_calls.Nodup
  done_launched : ∀ uid ∈ m.done_calls, m.Launched uid
  fits : ∀ {uid}, m.Launched uid → ∃ limit, config.max_cta (m.kernels uid) = .ok limit

def GpgpuSim.Occupied (m : GpgpuSim) : Prop :=
  ∀ sid uid, (m.cores sid).m_kernel = some uid → (m.cores sid).m_n_active_cta ≠ 0

theorem kernelsInv_new (config : Config) : KernelsInv config (GpgpuSim.new config) := by
  have noneLaunched {uid : Nat} (launched : (GpgpuSim.new config).Launched uid) : False := by
    have above := launched.1
    have below : uid < 1 := launched.2
    omega
  constructor
  case length => simp [GpgpuSim.new]
  case running =>
    intro uid
    have none_ : (GpgpuSim.new config).runners config uid = ∅ :=
      Finset.filter_eq_empty_iff.mpr fun _ _ => nofun
    rw [none_]
    rfl
  case slot_inj =>
    intro i j uid found
    cases List.eq_of_mem_replicate (List.mem_of_getElem? found)
  case waiting => exact fun launched => (noneLaunched launched).elim
  case finished => exact fun launched => (noneLaunched launched).elim
  case done_nodup => exact List.nodup_nil
  case done_launched => exact fun uid member => absurd member List.not_mem_nil
  case fits => exact fun launched => (noneLaunched launched).elim

/-! ## When a kernel is done -/

theorem done_eq (k : KernelInfo) : k.done = true ↔
    k.no_more_ctas_to_run = true ∧ k.m_num_cores_running = 0 := by
  simp [KernelInfo.done, KernelInfo.running]

theorem not_done_of_more {k : KernelInfo} (more : k.no_more_ctas_to_run = false) : k.done = false := by
  rw [KernelInfo.done, more, Bool.false_and]

theorem not_done_of_running {k : KernelInfo} (running : k.m_num_cores_running ≠ 0) :
    k.done = false := by
  cases done : k.done with
  | false => rfl
  | true => exact absurd ((done_eq k).mp done).2 running

theorem KernelsInv.running_of_bound (kernels : KernelsInv config m) (inside : sid < config.num_shader)
    (bound : (m.cores sid).m_kernel = some uid) : (m.kernels uid).m_num_cores_running ≠ 0 := by
  rw [kernels.running]
  exact Finset.card_ne_zero_of_mem (Finset.mem_filter.mpr ⟨Finset.mem_range.mpr inside, bound⟩)

theorem max_cta_congr {k k' : KernelInfo} (grid : k'.m_grid_dim = k.m_grid_dim)
    (block : k'.m_block_dim = k.m_block_dim) (smem : k'.smem = k.smem) (regs : k'.regs = k.regs) :
    config.max_cta k' = config.max_cta k := by
  have threads : k'.threads_per_cta = k.threads_per_cta := congrArg Dim3.product block
  have blocks : k'.num_blocks = k.num_blocks := congrArg Dim3.product grid
  simp only [Config.max_cta, threads, blocks, smem, regs]

/-! ## Steps that leave the kernels alone -/

theorem KernelsInv.congr (kernels : KernelsInv config m) {m' : GpgpuSim}
    (next : m'.m_next_uid = m.m_next_uid) (same : m'.kernels = m.kernels)
    (cores : ∀ sid, (m'.cores sid).m_kernel = (m.cores sid).m_kernel)
    (slots : m'.m_running_kernels = m.m_running_kernels) (calls : m'.done_calls = m.done_calls) :
    KernelsInv config m' := by
  have launched : m'.Launched = m.Launched := by
    funext uid
    rw [GpgpuSim.Launched, next]
    rfl
  have runners (uid : Nat) : m'.runners config uid = m.runners config uid := by
    simp only [GpgpuSim.runners, cores]
  constructor
  case length => exact slots ▸ kernels.length
  case running =>
    intro uid
    rw [same, runners]
    exact kernels.running uid
  case slot_inj =>
    rw [slots]
    exact kernels.slot_inj
  case waiting =>
    rw [launched, same, slots, calls]
    exact kernels.waiting
  case finished =>
    rw [launched, same, slots, calls]
    exact kernels.finished
  case done_nodup => exact calls ▸ kernels.done_nodup
  case done_launched =>
    rw [launched, calls]
    exact kernels.done_launched
  case fits =>
    rw [launched, same]
    exact kernels.fits

theorem KernelsInv.leave (kernels : KernelsInv config m) (sid slot t : Nat) :
    KernelsInv config (m.leave sid slot t) := by
  refine kernels.congr rfl rfl (fun sid' => ?_) rfl rfl
  by_cases same : sid' = sid
  · subst same
    simp only [GpgpuSim.leave, Function.update_self]
    rfl
  · simp only [GpgpuSim.leave, Function.update_of_ne same]

/-! ## Steps of one kernel -/

theorem KernelsInv.update (kernels : KernelsInv config m) {m' : GpgpuSim} {k : KernelInfo}
    (next : m'.m_next_uid = m.m_next_uid) (changed : m'.kernels = Function.update m.kernels uid k)
    (slots : m'.m_running_kernels = m.m_running_kernels) (calls : m'.done_calls = m.done_calls)
    (before : (m.kernels uid).done = false) (after : k.done = false)
    (limit : config.max_cta k = config.max_cta (m.kernels uid))
    (others : ∀ uid', uid' ≠ uid → m'.runners config uid' = m.runners config uid')
    (own : k.m_num_cores_running = (m'.runners config uid).card) : KernelsInv config m' := by
  have launched : m'.Launched = m.Launched := by
    funext uid
    rw [GpgpuSim.Launched, next]
    rfl
  have same_done (uid' : Nat) : (m'.kernels uid').done = (m.kernels uid').done := by
    rw [changed]
    by_cases same : uid' = uid
    · subst same
      rw [Function.update_self, before, after]
    · rw [Function.update_of_ne same]
  constructor
  case length => exact slots ▸ kernels.length
  case running =>
    intro uid'
    rw [changed]
    by_cases same : uid' = uid
    · subst same
      rw [Function.update_self]
      exact own
    · rw [Function.update_of_ne same, others uid' same]
      exact kernels.running uid'
  case slot_inj =>
    rw [slots]
    exact kernels.slot_inj
  case waiting =>
    intro uid' isLaunched
    rw [launched] at isLaunched
    rw [same_done, slots, calls]
    exact kernels.waiting isLaunched
  case finished =>
    intro uid' isLaunched
    rw [launched] at isLaunched
    rw [same_done, slots, calls]
    exact kernels.finished isLaunched
  case done_nodup => exact calls ▸ kernels.done_nodup
  case done_launched =>
    rw [launched, calls]
    exact kernels.done_launched
  case fits =>
    intro uid' isLaunched
    rw [launched] at isLaunched
    rw [changed]
    by_cases same : uid' = uid
    · subst same
      rw [Function.update_self, limit]
      exact kernels.fits isLaunched
    · rw [Function.update_of_ne same]
      exact kernels.fits isLaunched

theorem KernelsInv.withBlock (kernels : KernelsInv config m) (inside : sid < config.num_shader)
    (bound : (m.cores sid).m_kernel = some uid) {core : ShaderCore} (same : core.m_kernel = some uid)
    (s : PtxSim) :
    KernelsInv config (m.withBlock sid uid core (m.kernels uid).increment_cta_id s) := by
  have running := kernels.running_of_bound inside bound
  have cores (sid' : Nat) : ((m.withBlock sid uid core (m.kernels uid).increment_cta_id s).cores
      sid').m_kernel = (m.cores sid').m_kernel := by
    by_cases here : sid' = sid
    · subst here
      simp only [GpgpuSim.withBlock, Function.update_self, same, bound]
    · simp only [GpgpuSim.withBlock, Function.update_of_ne here]
  have runners (uid' : Nat) : (m.withBlock sid uid core (m.kernels uid).increment_cta_id s).runners
      config uid' = m.runners config uid' := by
    simp only [GpgpuSim.runners, cores]
  refine kernels.update rfl rfl rfl rfl (not_done_of_running running) (not_done_of_running running)
    (max_cta_congr rfl rfl rfl rfl) (fun uid' _ => runners uid') ?_
  rw [runners]
  exact kernels.running uid

theorem runners_update {m' : GpgpuSim} {kernel : Option Nat} (inside : sid < config.num_shader)
    (cores : m'.cores = Function.update m.cores sid { m.cores sid with m_kernel := kernel }) (uid : Nat) :
    m'.runners config uid =
      if kernel = some uid then insert sid (m.runners config uid)
      else (m.runners config uid).erase sid := by
  ext sid'
  by_cases here : sid' = sid
  · subst here
    split
    · rename_i same
      simp [GpgpuSim.runners, cores, same, inside]
    · rename_i other
      simp [GpgpuSim.runners, cores, other]
  · split
    · simp [GpgpuSim.runners, cores, here]
    · simp [GpgpuSim.runners, cores, here]

theorem KernelsInv.binds (kernels : KernelsInv config m) (inside : sid < config.num_shader)
    {m' : GpgpuSim} (binds : Binds config m sid m') : KernelsInv config m' := by
  cases binds with
  | kept _ => exact kernels
  | @bound idx uid free slot more =>
    have left := (more_left_iff.mp more).2
    have absent (uid' : Nat) : sid ∉ m.runners config uid' := by
      intro member
      rw [(Finset.mem_filter.mp member).2] at free
      cases free
    have runners (uid' : Nat) :
        ({ m with m_last_issued_kernel := idx }.set_kernel sid uid).runners config uid' =
          if some uid = some uid' then insert sid (m.runners config uid')
          else (m.runners config uid').erase sid := runners_update inside rfl uid'
    refine kernels.update rfl rfl rfl rfl (not_done_of_more left) (not_done_of_more left)
      (max_cta_congr rfl rfl rfl rfl) (fun uid' other => ?_) ?_
    · rw [runners, if_neg fun same => other (Option.some.inj same).symm, Finset.erase_eq_of_notMem
        (absent uid')]
    · rw [runners, if_pos rfl, Finset.card_insert_of_notMem (absent uid), ← kernels.running uid]
      rfl

/-! ## Cores that lose their kernel -/

theorem dec_running_eq {k k' : KernelInfo} (decremented : k.dec_running = some k') :
    k' = { k with m_num_cores_running := k.m_num_cores_running - 1 } := by
  rw [KernelInfo.dec_running] at decremented
  split at decremented
  · exact (Option.some.inj decremented).symm
  · cases decremented

theorem completes_eq_done (unlimited : config.gpu_max_cta_opt = 0) (k : KernelInfo) :
    m.completes config k = k.done := by
  simp [GpgpuSim.completes, GpgpuSim.hit_max_cta_count, unlimited, KernelInfo.done]

section Unbind

variable {k : KernelInfo}

theorem runners_unbind (inside : sid < config.num_shader) (uid' : Nat) :
    (m.unbind sid uid k).runners config uid' = (m.runners config uid').erase sid :=
  (runners_update inside rfl uid').trans (if_neg nofun)

theorem runners_unbind_other (inside : sid < config.num_shader)
    (bound : (m.cores sid).m_kernel = some uid) {uid' : Nat} (other : uid' ≠ uid) :
    (m.unbind sid uid k).runners config uid' = m.runners config uid' := by
  rw [runners_unbind inside]
  refine Finset.erase_eq_of_notMem fun member => other ?_
  exact Option.some.inj ((Finset.mem_filter.mp member).2.symm.trans bound)

theorem KernelsInv.unbind_own (kernels : KernelsInv config m) (inside : sid < config.num_shader)
    (bound : (m.cores sid).m_kernel = some uid) (decremented : (m.kernels uid).dec_running = some k) :
    k.m_num_cores_running = ((m.unbind sid uid k).runners config uid).card := by
  have member : sid ∈ m.runners config uid :=
    Finset.mem_filter.mpr ⟨Finset.mem_range.mpr inside, bound⟩
  rw [runners_unbind inside, Finset.card_erase_of_mem member, dec_running_eq decremented,
    ← kernels.running uid]

theorem KernelsInv.unbind (kernels : KernelsInv config m) (inside : sid < config.num_shader)
    (bound : (m.cores sid).m_kernel = some uid) (decremented : (m.kernels uid).dec_running = some k)
    (notDone : k.done = false) : KernelsInv config (m.unbind sid uid k) := by
  have limit : config.max_cta k = config.max_cta (m.kernels uid) := by
    rw [dec_running_eq decremented]
    exact max_cta_congr rfl rfl rfl rfl
  exact kernels.update rfl rfl rfl rfl (not_done_of_running (kernels.running_of_bound inside bound))
    notDone limit (fun _ other => runners_unbind_other inside bound other)
    (kernels.unbind_own inside bound decremented)

theorem getElem_of_findIdx {n : Nat}
    (found : m.m_running_kernels.findIdx? (· == some uid) = some n) :
    m.m_running_kernels[n]? = some (some uid) := by
  obtain ⟨inside, same, -⟩ := List.findIdx?_eq_some_iff_getElem.mp found
  rw [List.getElem?_eq_getElem inside, eq_of_beq same]

theorem mem_set_none {slots : List (Option Nat)} {n uid' : Nat} (found : slots[n]? = some (some uid))
    (other : uid' ≠ uid) : some uid' ∈ slots.set n none ↔ some uid' ∈ slots := by
  constructor
  · intro member
    cases List.mem_or_eq_of_mem_set member with
    | inl before => exact before
    | inr gone => cases gone
  · intro member
    obtain ⟨i, slot⟩ := List.mem_iff_getElem?.mp member
    refine List.mem_of_getElem? (i := i) ?_
    rw [List.getElem?_set_ne, slot]
    rintro rfl
    exact other (Option.some.inj (Option.some.inj (slot.symm.trans found)))

theorem KernelsInv.finish (kernels : KernelsInv config m) (launched : m.Launched uid)
    (inside : sid < config.num_shader) (bound : (m.cores sid).m_kernel = some uid)
    (decremented : (m.kernels uid).dec_running = some k) (done : k.done = true) {n : Nat}
    (found : m.m_running_kernels[n]? = some (some uid)) :
    KernelsInv config ((m.unbind sid uid k).finish uid n) := by
  have before := kernels.waiting launched
    (not_done_of_running (kernels.running_of_bound inside bound))
  have other_kernel {uid' : Nat} (other : uid' ≠ uid) :
      ((m.unbind sid uid k).finish uid n).kernels uid' = m.kernels uid' :=
    Function.update_of_ne other _ _
  have own_kernel : ((m.unbind sid uid k).finish uid n).kernels uid = k := Function.update_self _ _ _
  constructor
  case length => exact (List.length_set ..).trans kernels.length
  case running =>
    intro uid'
    by_cases same : uid' = uid
    · subst same
      rw [own_kernel]
      exact kernels.unbind_own inside bound decremented
    · rw [other_kernel same]
      exact (kernels.running uid').trans
        (congrArg Finset.card (runners_unbind_other (k := k) inside bound same).symm)
  case slot_inj =>
    have kept {i uid' : Nat}
        (slot : ((m.unbind sid uid k).finish uid n).m_running_kernels[i]? = some (some uid')) :
        m.m_running_kernels[i]? = some (some uid') := by
      by_cases here : n = i
      · subst here
        simp [GpgpuSim.finish, GpgpuSim.unbind, List.getElem?_set] at slot
      · exact (List.getElem?_set_ne here).symm.trans slot
    intro i j uid' first second
    exact kernels.slot_inj (kept first) (kept second)
  case waiting =>
    intro uid' launched' notDone
    by_cases same : uid' = uid
    · subst same
      rw [own_kernel, done] at notDone
      cases notDone
    · rw [other_kernel same] at notDone
      obtain ⟨member, absent⟩ := kernels.waiting launched' notDone
      refine ⟨(mem_set_none found same).mpr member, fun called => ?_⟩
      cases List.mem_append.mp called with
      | inl earlier => exact absent earlier
      | inr now => exact same (List.mem_singleton.mp now)
  case finished =>
    intro uid' launched' isDone
    by_cases same : uid' = uid
    · subst same
      refine ⟨fun member => ?_, List.mem_append_right _ (List.mem_singleton.mpr rfl)⟩
      -- no other slot has the kernel
      obtain ⟨i, slot⟩ := List.mem_iff_getElem?.mp member
      by_cases here : n = i
      · subst here
        simp [GpgpuSim.finish, GpgpuSim.unbind, List.getElem?_set] at slot
      · exact here (kernels.slot_inj found ((List.getElem?_set_ne here).symm.trans slot))
    · rw [other_kernel same] at isDone
      obtain ⟨absent, called⟩ := kernels.finished launched' isDone
      exact ⟨fun member => absent ((mem_set_none found same).mp member),
        List.mem_append_left _ called⟩
  case done_nodup =>
    refine List.nodup_append.mpr ⟨kernels.done_nodup, List.nodup_singleton uid, ?_⟩
    intro uid' earlier uid'' now
    obtain rfl := List.mem_singleton.mp now
    rintro rfl
    exact before.2 earlier
  case done_launched =>
    intro uid' called
    cases List.mem_append.mp called with
    | inl earlier => exact kernels.done_launched uid' earlier
    | inr now => exact List.mem_singleton.mp now ▸ launched
  case fits =>
    intro uid' launched'
    by_cases same : uid' = uid
    · subst same
      obtain ⟨limit, fits⟩ := kernels.fits launched
      refine ⟨limit, ?_⟩
      rw [own_kernel, dec_running_eq decremented, ← fits]
      exact max_cta_congr rfl rfl rfl rfl
    · rw [other_kernel same]
      exact kernels.fits launched'

end Unbind

/-! ## Launches -/

theorem not_done_new {gridDim : Dim3} (grid : gridDim.Proper) {blockDim : Dim3} (block : blockDim.Proper)
    (smem regs : Nat) : (KernelInfo.new gridDim blockDim smem regs).done = false :=
  not_done_of_more ((KernelInfo.settled_new gridDim block smem regs).more_iff.mpr grid.size_pos)

theorem KernelsInv.slot_of_free (kernels : KernelsInv config m)
    (slots : ∀ {uid}, some uid ∈ m.m_running_kernels → m.Launched uid) {n : Nat}
    (found : m.m_running_kernels.findIdx? m.free_kernel_slot = some n) :
    m.m_running_kernels[n]? = some none := by
  obtain ⟨inside, free, -⟩ := List.findIdx?_eq_some_iff_getElem.mp found
  rw [List.getElem?_eq_getElem inside]
  cases slot : m.m_running_kernels[n] with
  | none => rfl
  | some uid =>
    have member : some uid ∈ m.m_running_kernels := slot ▸ List.getElem_mem inside
    rw [slot] at free
    exact absurd member (kernels.finished (slots member) free).1

theorem mem_set_new {slots : List (Option Nat)} {n new : Nat} (found : slots[n]? = some none) :
    some uid ∈ slots.set n (some new) ↔ some uid ∈ slots ∨ uid = new := by
  have inside := (List.getElem?_eq_some_iff.mp found).1
  constructor
  · intro member
    exact (List.mem_or_eq_of_mem_set member).imp id Option.some.inj
  · rintro (member | rfl)
    · obtain ⟨i, slot⟩ := List.mem_iff_getElem?.mp member
      refine List.mem_of_getElem? (i := i) ?_
      rw [List.getElem?_set_ne, slot]
      rintro rfl
      cases slot.symm.trans found
    · exact List.mem_set inside _

theorem KernelsInv.withKernel (kernels : KernelsInv config m) (inv : MemoryInv config m issued)
    {kinfo : KernelInfo} (fresh : kinfo.m_num_cores_running = 0) (notDone : kinfo.done = false)
    {limit : Nat} (fits : config.max_cta kinfo = .ok limit) {n : Nat}
    (found : m.m_running_kernels.findIdx? m.free_kernel_slot = some n) :
    KernelsInv config (m.withKernel kinfo n) := by
  have free := kernels.slot_of_free inv.slots found
  have own_kernel : (m.withKernel kinfo n).kernels m.m_next_uid = kinfo := Function.update_self _ _ _
  have unknown : ¬ m.Launched m.m_next_uid := fun launched => Nat.lt_irrefl _ launched.2
  have absent : some m.m_next_uid ∉ m.m_running_kernels := fun member => unknown (inv.slots member)
  constructor
  case length => exact (List.length_set ..).trans kernels.length
  case running =>
    intro uid
    by_cases new : uid = m.m_next_uid
    · subst new
      have none_ : (m.withKernel kinfo n).runners config m.m_next_uid = ∅ :=
        Finset.filter_eq_empty_iff.mpr fun _ _ bound => unknown (inv.bound bound)
      rw [own_kernel, none_]
      exact fresh
    · exact (congrArg _ (Function.update_of_ne new _ _)).trans (kernels.running uid)
  case slot_inj =>
    have cases_ {i uid : Nat} (slot : (m.withKernel kinfo n).m_running_kernels[i]? = some (some uid)) :
        n = i ∧ uid = m.m_next_uid ∨ m.m_running_kernels[i]? = some (some uid) := by
      by_cases here : n = i
      · subst here
        have inside := (List.getElem?_eq_some_iff.mp free).1
        have new := (List.getElem?_set_self inside).symm.trans slot
        exact Or.inl ⟨rfl, (Option.some.inj (Option.some.inj new)).symm⟩
      · exact Or.inr ((List.getElem?_set_ne here).symm.trans slot)
    intro i j uid first second
    rcases cases_ first with ⟨atFirst, rfl⟩ | oldFirst
    · rcases cases_ second with ⟨atSecond, -⟩ | oldSecond
      · exact atFirst.symm.trans atSecond
      · exact absurd (List.mem_of_getElem? oldSecond) absent
    · rcases cases_ second with ⟨-, rfl⟩ | oldSecond
      · exact absurd (List.mem_of_getElem? oldFirst) absent
      · exact kernels.slot_inj oldFirst oldSecond
  case waiting =>
    intro uid launched still
    cases (GpgpuSim.launched_withKernel inv.next_pos).mp launched with
    | inl before =>
      rw [GpgpuSim.kernels_withKernel before] at still
      exact ⟨(mem_set_new free).mpr (Or.inl (kernels.waiting before still).1),
        (kernels.waiting before still).2⟩
    | inr new =>
      subst new
      exact ⟨(mem_set_new free).mpr (Or.inr rfl),
        fun called => unknown (kernels.done_launched _ called)⟩
  case finished =>
    intro uid launched isDone
    cases (GpgpuSim.launched_withKernel inv.next_pos).mp launched with
    | inl before =>
      rw [GpgpuSim.kernels_withKernel before] at isDone
      refine ⟨fun member => ?_, (kernels.finished before isDone).2⟩
      cases (mem_set_new free).mp member with
      | inl old => exact (kernels.finished before isDone).1 old
      | inr new => exact unknown (new ▸ before)
    | inr new =>
      subst new
      rw [own_kernel, notDone] at isDone
      cases isDone
  case done_nodup => exact kernels.done_nodup
  case done_launched =>
    intro uid called
    exact (GpgpuSim.launched_withKernel inv.next_pos).mpr (Or.inl (kernels.done_launched uid called))
  case fits =>
    intro uid launched
    cases (GpgpuSim.launched_withKernel inv.next_pos).mp launched with
    | inl before =>
      rw [GpgpuSim.kernels_withKernel before]
      exact kernels.fits before
    | inr new =>
      subst new
      refine ⟨limit, ?_⟩
      rw [own_kernel]
      exact fits

end AesOnGpu.Cta.Dispatch
