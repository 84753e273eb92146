import AesOnGpu.Cta.Dispatch

/-! # Occupancy

`shader_core_config::max_cta`, the number of blocks that a core holds at a time.  It is the
least of four limits, and less when there are not enough blocks for all cores.  The number of
blocks is a product of 32 bits, and the result may not be more than `MAX_CTA_PER_SHADER`
(`occupancy_right_iff`).
-/

namespace AesOnGpu.Cta

def ShaderCoreConfig.MAX_THREAD_PER_SM : Nat := 2048

/-- `shader_core_config` with what `init` checks and the ranges of its `unsigned`s. -/
structure ShaderCoreConfig extends Dispatch.Config where
  threads_le : n_thread_per_shader ≤ ShaderCoreConfig.MAX_THREAD_PER_SM
  whole_warps : n_thread_per_shader % warp_size = 0
  num_shader_lt : num_shader < 2 ^ 32
  shmem_lt : gpgpu_shmem_size < 2 ^ 32
  registers_lt : gpgpu_shader_registers < 2 ^ 32
  cta_lt : max_cta_per_core < 2 ^ 32

/-- A division by zero is a crash. -/
def divide (a b : Nat) : Option Nat := if b = 0 then none else some (a / b)

namespace ShaderCoreConfig

variable (config : ShaderCoreConfig) (k : KernelInfo)

/-! ## The code -/

/-- `(unsigned)-1`, for a resource that the kernel does not use. -/
def unlimited : Nat := 2 ^ 32 - 1

/-- `(kernel_info->regs+3)&~3` -/
def regsRounded : Nat := (k.regs + 3) / 4 * 4

def padded : Nat := config.padded_cta_size k.threads_per_cta % 2 ^ 32

def result_thread : Option Nat := divide config.n_thread_per_shader (config.padded k)

def result_shmem : Option Nat :=
  if k.smem > 0 then divide config.gpgpu_shmem_size k.smem else some unlimited

def result_regs : Option Nat :=
  if k.regs > 0 then divide config.gpgpu_shader_registers (config.padded k * regsRounded k % 2 ^ 32)
  else some unlimited

/-- The least of the four limits. -/
def resourceLimit : Option Nat := do
  let result_thread ← config.result_thread k
  let result_shmem ← config.result_shmem k
  let result_regs ← config.result_regs k
  return min (min (min result_thread result_shmem) result_regs) config.max_cta_per_core

/-- The test whether there are too few blocks to keep all cores busy at a limit. -/
def fewBlocks (result : Nat) : Prop := k.num_blocks < result * config.num_shader % 2 ^ 32

instance (result : Nat) : Decidable (config.fewBlocks k result) :=
  inferInstanceAs (Decidable (_ < _))

def shareOfBlocks : Nat :=
  k.num_blocks / config.num_shader + if k.num_blocks % config.num_shader ≠ 0 then 1 else 0

/-- Nothing is returned when the assertion fails, after the abort and at a division by zero. -/
def max_cta : Option Nat := do
  let result ← config.resourceLimit k
  let result := if config.fewBlocks k result then config.shareOfBlocks k else result
  if result ≤ MAX_CTA_PER_SHADER then
    if result < 1 then none else some result
  else none

/-! ## What the result is for -/

/-- So many blocks fit into a core together.  Threads come in whole warps, registers in
    multiples of four for each of them. -/
structure FitTogether (n : Nat) : Prop where
  threads : n * config.padded_cta_size k.m_block_dim.size ≤ config.n_thread_per_shader
  shmem : n * k.smem ≤ config.gpgpu_shmem_size
  registers : n * (config.padded_cta_size k.m_block_dim.size * regsRounded k) ≤
    config.gpgpu_shader_registers

structure Fits : Prop where
  threads : k.m_block_dim.size ≤ config.n_thread_per_shader
  shmem : k.smem ≤ config.gpgpu_shmem_size
  registers : config.padded_cta_size k.m_block_dim.size * regsRounded k ≤
    config.gpgpu_shader_registers
  slots : 1 ≤ config.max_cta_per_core

/-- The dimensions of the grid are `unsigned`. -/
structure GridDim (grid : Dim3) : Prop where
  x_pos : 0 < grid.x
  y_pos : 0 < grid.y
  z_pos : 0 < grid.z
  x_lt : grid.x < 2 ^ 32
  y_lt : grid.y < 2 ^ 32
  z_lt : grid.z < 2 ^ 32

/-- Blocks of this number fit, and with so many on each core all blocks run at a time or each
    core is as full as its resources and slots allow. -/
structure Right (n : Nat) : Prop where
  positive : 1 ≤ n
  fit : config.FitTogether k n
  busy : ∀ m, config.FitTogether k m → m ≤ config.max_cta_per_core →
    min k.m_grid_dim.size (m * config.num_shader) ≤ n * config.num_shader

def OccupancyRight : Prop := ∃ n, config.max_cta k = some n ∧ config.Right k n

def capacity : Nat :=
  min (min (min (config.n_thread_per_shader / config.padded_cta_size k.m_block_dim.size)
    (if k.smem > 0 then config.gpgpu_shmem_size / k.smem else unlimited))
    (if k.regs > 0 then config.gpgpu_shader_registers /
      (config.padded_cta_size k.m_block_dim.size * regsRounded k) else unlimited))
    config.max_cta_per_core

/-- A block has threads.  Where the product of the grid dimensions is below what all cores
    hold, it has not been cut or is in the last round of the cores, and asks for at most
    32 blocks of a core; elsewhere a core holds at most 32 blocks. -/
def Countable : Prop :=
  0 < k.m_block_dim.size ∧
    if config.fewBlocks k (config.capacity k) then
      (k.m_grid_dim.size < 2 ^ 32 ∨ (config.capacity k - 1) * config.num_shader < k.num_blocks) ∧
        k.num_blocks ≤ MAX_CTA_PER_SHADER * config.num_shader
    else config.capacity k ≤ MAX_CTA_PER_SHADER

instance : Decidable (config.Countable k) := inferInstanceAs (Decidable (_ ∧ _))

variable {config : ShaderCoreConfig} {k : KernelInfo}

/-! ## The limits -/

/-- A multiple of the warp size that is not less than the block is not less than the padded
    block. -/
theorem padded_cta_size_le (config : ShaderCoreConfig) {cta_size n : Nat} (enough : cta_size ≤ n)
    (whole : n % config.warp_size = 0) : config.padded_cta_size cta_size ≤ n := by
  obtain ⟨warps, rfl⟩ := Nat.dvd_of_mod_eq_zero whole
  unfold ShaderConfig.padded_cta_size
  split
  next odd =>
    have split := Nat.div_add_mod cta_size config.warp_size
    have below : cta_size / config.warp_size < warps := by
      by_contra atLeast
      have product := Nat.mul_le_mul_left config.warp_size (Nat.not_lt.mp atLeast)
      omega
    rw [Nat.mul_comm config.warp_size]
    exact Nat.mul_le_mul_right _ below
  next => exact enough

theorem padded_pos (config : ShaderCoreConfig) (threads : 0 < k.m_block_dim.size) :
    0 < config.padded_cta_size k.m_block_dim.size :=
  Nat.lt_of_lt_of_le threads (config.le_padded_cta_size _)

theorem regsRounded_pos (used : 0 < k.regs) : 0 < regsRounded k := by
  unfold regsRounded
  omega

section

variable (fits : config.Fits k)

include fits

theorem threads_eq : k.threads_per_cta = k.m_block_dim.size := by
  have enough := fits.threads
  have limit := config.threads_le
  unfold MAX_THREAD_PER_SM at limit
  exact Nat.mod_eq_of_lt (by omega)

theorem padded_eq : config.padded k = config.padded_cta_size k.m_block_dim.size := by
  have enough := padded_cta_size_le config fits.threads config.whole_warps
  have limit := config.threads_le
  unfold MAX_THREAD_PER_SM at limit
  rw [padded, threads_eq fits]
  exact Nat.mod_eq_of_lt (by omega)

theorem resourceLimit_eq (threads : 0 < k.m_block_dim.size) :
    config.resourceLimit k = some (config.capacity k) := by
  have positive := padded_pos config threads
  have registers : config.padded k * regsRounded k % 2 ^ 32 =
      config.padded_cta_size k.m_block_dim.size * regsRounded k := by
    rw [padded_eq fits]
    exact Nat.mod_eq_of_lt (Nat.lt_of_le_of_lt fits.registers config.registers_lt)
  have threadLimit : config.result_thread k =
      some (config.n_thread_per_shader / config.padded_cta_size k.m_block_dim.size) := by
    rw [result_thread, padded_eq fits, divide, if_neg (Nat.ne_of_gt positive)]
  have shmemLimit : config.result_shmem k =
      some (if k.smem > 0 then config.gpgpu_shmem_size / k.smem else unlimited) := by
    rw [result_shmem]
    split
    next used => rw [divide, if_neg (Nat.ne_of_gt used)]
    next => rfl
  have registerLimit : config.result_regs k =
      some (if k.regs > 0 then config.gpgpu_shader_registers /
        (config.padded_cta_size k.m_block_dim.size * regsRounded k) else unlimited) := by
    rw [result_regs, registers]
    split
    next used =>
      have product := Nat.mul_pos positive (regsRounded_pos used)
      rw [divide, if_neg (Nat.ne_of_gt product)]
    next => rfl
  rw [resourceLimit, threadLimit, shmemLimit, registerLimit]
  rfl

end

theorem max_cta_of_no_threads (none : k.m_block_dim.size = 0) : config.max_cta k = Option.none := by
  have threads : k.threads_per_cta = 0 := by
    rw [KernelInfo.threads_per_cta, Dim3.product, none]
    rfl
  have padding : config.padded k = 0 := by
    rw [padded, threads, ShaderConfig.padded_cta_size, if_neg (by simp)]
    rfl
  have limit : config.result_thread k = Option.none := by
    rw [result_thread, padding]
    rfl
  rw [max_cta, resourceLimit, limit]
  rfl

theorem le_capacity_iff (threads : 0 < k.m_block_dim.size) {n : Nat} :
    n ≤ config.capacity k ↔ config.FitTogether k n ∧ n ≤ config.max_cta_per_core := by
  have positive := padded_pos config threads
  have slots := config.cta_lt
  have threadLimit : n ≤ config.n_thread_per_shader / config.padded_cta_size k.m_block_dim.size ↔
      n * config.padded_cta_size k.m_block_dim.size ≤ config.n_thread_per_shader :=
    Nat.le_div_iff_mul_le positive
  have shmemLimit (few : n ≤ unlimited) :
      n ≤ (if k.smem > 0 then config.gpgpu_shmem_size / k.smem else unlimited) ↔
        n * k.smem ≤ config.gpgpu_shmem_size := by
    split
    next used => exact Nat.le_div_iff_mul_le used
    next unused =>
      rw [Nat.eq_zero_of_not_pos unused, Nat.mul_zero]
      exact iff_of_true few (Nat.zero_le _)
  have registerLimit (few : n ≤ unlimited) :
      n ≤ (if k.regs > 0 then config.gpgpu_shader_registers /
          (config.padded_cta_size k.m_block_dim.size * regsRounded k) else unlimited) ↔
        n * (config.padded_cta_size k.m_block_dim.size * regsRounded k) ≤
          config.gpgpu_shader_registers := by
    split
    next used => exact Nat.le_div_iff_mul_le (Nat.mul_pos positive (regsRounded_pos used))
    next unused =>
      have rounded : regsRounded k = 0 := by
        rw [regsRounded, Nat.eq_zero_of_not_pos unused]
      rw [rounded, Nat.mul_zero, Nat.mul_zero]
      exact iff_of_true few (Nat.zero_le _)
  rw [capacity, Nat.le_min, Nat.le_min, Nat.le_min, threadLimit]
  constructor
  · rintro ⟨⟨⟨ofThreads, ofShmem⟩, ofRegisters⟩, ofSlots⟩
    have few : n ≤ unlimited := by
      unfold unlimited
      omega
    exact ⟨⟨ofThreads, (shmemLimit few).mp ofShmem, (registerLimit few).mp ofRegisters⟩, ofSlots⟩
  · rintro ⟨fit, ofSlots⟩
    have few : n ≤ unlimited := by
      unfold unlimited
      omega
    exact ⟨⟨⟨fit.threads, (shmemLimit few).mpr fit.shmem⟩, (registerLimit few).mpr fit.registers⟩,
      ofSlots⟩

theorem one_le_capacity (fits : config.Fits k) (threads : 0 < k.m_block_dim.size) :
    1 ≤ config.capacity k := by
  refine (le_capacity_iff threads).mpr ⟨⟨?_, ?_, ?_⟩, fits.slots⟩
  · rw [Nat.one_mul]
    exact padded_cta_size_le config fits.threads config.whole_warps
  · rw [Nat.one_mul]
    exact fits.shmem
  · rw [Nat.one_mul]
    exact fits.registers

/-! ## The share of a core -/

theorem shareOfBlocks_le_iff {n : Nat} :
    config.shareOfBlocks k ≤ n ↔ k.num_blocks ≤ n * config.num_shader := by
  have positive := config.shader_pos
  rw [shareOfBlocks]
  split
  next odd =>
    rw [Nat.add_one_le_iff, Nat.div_lt_iff_lt_mul positive]
    constructor
    · exact Nat.le_of_lt
    · intro atMost
      refine Nat.lt_of_le_of_ne atMost fun same => odd ?_
      rw [same, Nat.mul_mod_left]
  next even =>
    have whole := Nat.div_mul_cancel (Nat.dvd_of_mod_eq_zero (not_not.mp even))
    rw [Nat.add_zero]
    constructor
    · intro atMost
      rw [← whole]
      exact Nat.mul_le_mul_right _ atMost
    · intro atMost
      exact Nat.div_le_of_le_mul (by rwa [Nat.mul_comm])

theorem num_blocks_le_share (config : ShaderCoreConfig) (k : KernelInfo) :
    k.num_blocks ≤ config.shareOfBlocks k * config.num_shader :=
  shareOfBlocks_le_iff.mp le_rfl

theorem share_le_capacity (few : config.fewBlocks k (config.capacity k)) :
    config.shareOfBlocks k ≤ config.capacity k :=
  shareOfBlocks_le_iff.mpr (Nat.le_trans (Nat.le_of_lt few) (Nat.mod_le _ _))

/-! ## When the result is right -/

theorem fit_of_le_capacity (threads : 0 < k.m_block_dim.size) {n : Nat}
    (atMost : n ≤ config.capacity k) : config.FitTogether k n :=
  ((le_capacity_iff threads).mp atMost).1

theorem right_capacity (fits : config.Fits k) (threads : 0 < k.m_block_dim.size) :
    config.Right k (config.capacity k) where
  positive := one_le_capacity fits threads
  fit := fit_of_le_capacity threads le_rfl
  busy m fit slots := by
    have atMost := (le_capacity_iff threads).mpr ⟨fit, slots⟩
    exact Nat.le_trans (Nat.min_le_right _ _) (Nat.mul_le_mul_right _ atMost)

/-- A share of a number of blocks that was cut is too small unless it is all that a core
    holds. -/
theorem right_share_iff (grid : GridDim k.m_grid_dim) (fits : config.Fits k)
    (threads : 0 < k.m_block_dim.size) (few : config.fewBlocks k (config.capacity k)) :
    config.Right k (config.shareOfBlocks k) ↔
      k.m_grid_dim.size < 2 ^ 32 ∨
        (config.capacity k - 1) * config.num_shader < k.num_blocks := by
  have some := one_le_capacity fits threads
  have share := share_le_capacity few
  have blocks := num_blocks_le_share config k
  constructor
  · intro right
    by_contra cut
    rw [not_or, Nat.not_lt, Nat.not_lt] at cut
    have less : config.shareOfBlocks k ≤ config.capacity k - 1 := shareOfBlocks_le_iff.mpr cut.2
    have fit := (le_capacity_iff threads).mp (le_refl (config.capacity k))
    have busy := right.busy _ fit.1 fit.2
    have fewer : config.shareOfBlocks k * config.num_shader <
        config.capacity k * config.num_shader :=
      Nat.mul_lt_mul_of_pos_right (by omega) config.shader_pos
    -- the rounding adds less than the number of cores
    have near : config.shareOfBlocks k * config.num_shader < k.num_blocks + config.num_shader := by
      by_contra far
      have positive := right.positive
      have previous : k.num_blocks ≤ (config.shareOfBlocks k - 1) * config.num_shader := by
        rw [Nat.sub_mul, Nat.one_mul]
        omega
      have := shareOfBlocks_le_iff.mpr previous
      omega
    have wrapped : k.num_blocks = k.m_grid_dim.size % 2 ^ 32 := rfl
    have cores := config.num_shader_lt
    omega
  · intro enough
    cases enough with
    | inl whole =>
      have all : k.num_blocks = k.m_grid_dim.size := Nat.mod_eq_of_lt whole
      have nonempty : 0 < k.m_grid_dim.size :=
        Nat.mul_pos (Nat.mul_pos grid.x_pos grid.y_pos) grid.z_pos
      refine ⟨?_, fit_of_le_capacity threads share, fun m _ _ => ?_⟩
      · by_contra none
        have zero := shareOfBlocks_le_iff.mp (Nat.le_of_lt_succ (Nat.not_le.mp none))
        omega
      · rw [all] at blocks
        exact Nat.le_trans (Nat.min_le_left _ _) blocks
    | inr last =>
      have full : config.shareOfBlocks k = config.capacity k := by
        refine Nat.le_antisymm share ?_
        by_contra less
        have := shareOfBlocks_le_iff.mp
          (show config.shareOfBlocks k ≤ config.capacity k - 1 by omega)
        omega
      rw [full]
      exact right_capacity fits threads

theorem max_cta_eq_some_iff (fits : config.Fits k) (threads : 0 < k.m_block_dim.size) {n : Nat} :
    config.max_cta k = some n ↔
      n = (if config.fewBlocks k (config.capacity k) then config.shareOfBlocks k
        else config.capacity k) ∧ 1 ≤ n ∧ n ≤ MAX_CTA_PER_SHADER := by
  rw [max_cta, resourceLimit_eq fits threads]
  simp only [Option.bind_eq_bind, Option.bind_some]
  generalize (if config.fewBlocks k (config.capacity k) then config.shareOfBlocks k
    else config.capacity k) = result
  split
  next few =>
    split
    next none =>
      simp only [reduceCtorEq, false_iff]
      omega
    next =>
      simp only [Option.some.injEq]
      omega
  next many =>
    simp only [reduceCtorEq, false_iff]
    omega

/-- The occupancy is right and positive if and only if the block has threads and the number of
    blocks has not lost the bits that decide, and the result is a number of slots. -/
theorem occupancy_right_iff (config : ShaderCoreConfig) (k : KernelInfo)
    (grid : GridDim k.m_grid_dim) (fits : config.Fits k) :
    config.OccupancyRight k ↔ config.Countable k := by
  by_cases threads : 0 < k.m_block_dim.size
  · rw [OccupancyRight, Countable, and_iff_right threads]
    have result (n : Nat) := max_cta_eq_some_iff fits threads (n := n)
    split
    next few =>
      simp only [if_pos few] at result
      rw [← right_share_iff grid fits threads few, ← shareOfBlocks_le_iff]
      constructor
      · rintro ⟨n, returned, right⟩
        obtain ⟨rfl, -, slots⟩ := (result n).mp returned
        exact ⟨right, slots⟩
      · rintro ⟨right, slots⟩
        exact ⟨_, (result _).mpr ⟨rfl, right.positive, slots⟩, right⟩
    next enough =>
      simp only [if_neg enough] at result
      have right := right_capacity fits threads
      constructor
      · rintro ⟨n, returned, -⟩
        obtain ⟨rfl, -, slots⟩ := (result n).mp returned
        exact slots
      · intro slots
        exact ⟨_, (result _).mpr ⟨rfl, right.positive, slots⟩, right⟩
  · refine iff_of_false ?_ fun countable => threads countable.1
    rintro ⟨n, returned, -⟩
    rw [max_cta_of_no_threads (Nat.eq_zero_of_not_pos threads)] at returned
    cases returned

end ShaderCoreConfig

/-- Fifteen cores of 1536 threads with eight slots. -/
def fermi : ShaderCoreConfig where
  num_shader := 15
  warp_size := 32
  n_simt_clusters := 15
  n_simt_cores_per_cluster := 1
  num_shader_eq := rfl
  max_concurrent_kernel := 8
  kernel_pos := Nat.succ_pos _
  gpu_max_cta_opt := 0
  n_thread_per_shader := 1536
  gpgpu_shmem_size := 49152
  gpgpu_shader_registers := 32768
  max_cta_per_core := 8
  shader_pos := Nat.succ_pos _
  warp_pos := Nat.succ_pos _
  threads_le := by decide
  whole_warps := by decide
  num_shader_lt := by decide
  shmem_lt := by decide
  registers_lt := by decide
  cta_lt := by decide

open ShaderCoreConfig

theorem occupancy_right_small_grid :
    fermi.OccupancyRight (.new ⟨65535, 1, 1⟩ ⟨256, 1, 1⟩ 4096 20) :=
  (occupancy_right_iff fermi _ ⟨by decide, by decide, by decide, by decide, by decide, by decide⟩
    ⟨by decide, by decide, by decide, by decide⟩).mpr (by decide)

/-- The product of 65536 and 65536 is zero in 32 bits. -/
theorem occupancy_wraps :
    ¬ ∀ (config : ShaderCoreConfig) (k : KernelInfo), GridDim k.m_grid_dim → config.Fits k →
      config.OccupancyRight k := by
  intro right
  obtain ⟨n, returned, -⟩ := right fermi (.new ⟨65536, 65536, 1⟩ ⟨256, 1, 1⟩ 4096 20)
    ⟨by decide, by decide, by decide, by decide, by decide, by decide⟩
    ⟨by decide, by decide, by decide, by decide⟩
  have aborted : fermi.max_cta (.new ⟨65536, 65536, 1⟩ ⟨256, 1, 1⟩ 4096 20) = none := by decide
  rw [aborted] at returned
  cases returned

end AesOnGpu.Cta
