import AesOnGpu.Cta.BlockIssue

/-! # The blocks on the cores

What a core knows of its slots, and what the functional simulator knows of the threads in
them. A step of one core leaves the blocks of the others as they are.
-/

namespace AesOnGpu.Cta.Dispatch

section Definitions

variable (config : Config) (kernels : Nat → KernelInfo) (s : PtxSim) (sid : Nat)
  (core : ShaderCore)

/-- What a thread of a block is given when it is created. -/
structure BelongsTo (t : PtxThreadInfo) (uid : Nat) (ctaid tid : Dim3)
    (shared_mem cta_info l : Nat) : Prop where
  kernel : t.kernel = uid
  ctaid : t.m_ctaid = ctaid
  tid : t.m_tid = tid
  shared_mem : t.m_shared_mem = shared_mem
  cta_info : t.m_cta_info = cta_info
  local_mem : t.m_local_mem = l

/-- The block of kernel `uid` in slot `slot`. -/
structure SlotInv (uid slot : Nat) : Prop where
  status_eq : core.m_cta_status slot = ((Finset.range (kernels uid).threads_per_cta).filter
    fun i => core.m_active (config.start_thread (kernels uid).threads_per_cta slot + i) = true).card
  warp_eq : ∀ i < (kernels uid).threads_per_cta, core.m_warp_cta_id
    ((config.start_thread (kernels uid).threads_per_cta slot + i) / config.warp_size) = slot
  cta_eq : ∀ i < (kernels uid).threads_per_cta,
    core.m_cta_id (config.start_thread (kernels uid).threads_per_cta slot + i) = slot
  memory : ∃ shared_mem cta_info ctaid,
    s.shared_memory_lookup (config.sm_idx sid (kernels uid).threads_per_cta
      (config.start_thread (kernels uid).threads_per_cta slot)) = some shared_mem ∧
    s.ptx_cta_lookup (config.sm_idx sid (kernels uid).threads_per_cta
      (config.start_thread (kernels uid).threads_per_cta slot)) = some cta_info ∧
    ∀ i < (kernels uid).threads_per_cta, ∃ p l,
      core.m_thread (config.start_thread (kernels uid).threads_per_cta slot + i) = some p ∧
      s.local_memory_lookup sid (config.start_thread (kernels uid).threads_per_cta slot + i) =
        some l ∧
      BelongsTo (s.threads p) uid ctaid ((kernels uid).m_block_dim.nth i) shared_mem cta_info l

/-- A core between two events. -/
structure CoreInv : Prop where
  sid_lt : ∀ {uid}, core.m_kernel = some uid → sid < config.num_shader
  status_lt : ∀ {slot}, core.m_cta_status slot ≠ 0 → slot < MAX_CTA_PER_SHADER
  n_active_eq : core.m_n_active_cta =
    ((Finset.range MAX_CTA_PER_SHADER).filter fun slot => core.m_cta_status slot ≠ 0).card
  not_completed_eq : core.m_not_completed =
    ∑ slot ∈ Finset.range MAX_CTA_PER_SHADER, core.m_cta_status slot
  active_iff : ∀ t, t ∈ core.m_active_threads ↔ core.m_active t = true
  active_slot : ∀ {t}, core.m_active t = true → ∃ uid slot i, core.m_kernel = some uid ∧
    core.m_cta_status slot ≠ 0 ∧ i < (kernels uid).threads_per_cta ∧
      t = config.start_thread (kernels uid).threads_per_cta slot + i
  kernel_of_status : ∀ {slot}, core.m_cta_status slot ≠ 0 → ∃ uid, core.m_kernel = some uid
  slot : ∀ {uid slot}, core.m_kernel = some uid → core.m_cta_status slot ≠ 0 →
    SlotInv config kernels s sid core uid slot
  thread_live : ∀ {t p}, core.m_thread t = some p → p ∈ s.live_threads
  thread_hw : ∀ {t p}, core.m_thread t = some p →
    (s.threads p).m_hw_sid = sid ∧ (s.threads p).m_hw_tid = t
  thread_done : ∀ {t p}, core.m_thread t = some p → core.m_active t = false →
    (s.threads p).m_thread_done = true

end Definitions

variable {config : Config} {kernels kernels' : Nat → KernelInfo} {s s' : PtxSim} {sid : Nat}
  {core core' : ShaderCore}

theorem BelongsTo.congr {t t' : PtxThreadInfo} {uid : Nat} {ctaid tid : Dim3}
    {shared_mem cta_info l : Nat} (h : BelongsTo t uid ctaid tid shared_mem cta_info l)
    {done : Bool} (ht : t' = { t with m_thread_done := done }) :
    BelongsTo t' uid ctaid tid shared_mem cta_info l := by
  subst ht
  exact ⟨h.kernel, h.ctaid, h.tid, h.shared_mem, h.cta_info, h.local_mem⟩

/-- The tables have what they had. -/
structure Grown (s s' : PtxSim) : Prop where
  shared_mono : ∀ {i p}, s.shared_memory_lookup i = some p → s'.shared_memory_lookup i = some p
  cta_mono : ∀ {i p}, s.ptx_cta_lookup i = some p → s'.ptx_cta_lookup i = some p
  local_mono : ∀ {i t p}, s.local_memory_lookup i t = some p →
    s'.local_memory_lookup i t = some p

theorem Grown.refl (s : PtxSim) : Grown s s := ⟨fun h => h, fun h => h, fun h => h⟩

def Later (t t' : PtxThreadInfo) : Prop :=
  (∃ done, t' = { t with m_thread_done := done }) ∧
    (t.m_thread_done = true → t'.m_thread_done = true)

theorem Later.refl (t : PtxThreadInfo) : Later t t := ⟨⟨t.m_thread_done, rfl⟩, fun h => h⟩

theorem SlotInv.frame {uid slot : Nat} (h : SlotInv config kernels s sid core uid slot)
    (hblock : (kernels' uid).m_block_dim = (kernels uid).m_block_dim) (hgrown : Grown s s')
    (hstatus : core'.m_cta_status slot = core.m_cta_status slot)
    (hsame : ∀ i < (kernels uid).threads_per_cta,
      let t := config.start_thread (kernels uid).threads_per_cta slot + i
      core'.m_active t = core.m_active t ∧ core'.m_cta_id t = core.m_cta_id t ∧
        core'.m_thread t = core.m_thread t ∧
        core'.m_warp_cta_id (t / config.warp_size) = core.m_warp_cta_id (t / config.warp_size))
    (hlater : ∀ i < (kernels uid).threads_per_cta, ∀ p,
      core.m_thread (config.start_thread (kernels uid).threads_per_cta slot + i) = some p →
        Later (s.threads p) (s'.threads p)) :
    SlotInv config kernels' s' sid core' uid slot := by
  have hsize : (kernels' uid).threads_per_cta = (kernels uid).threads_per_cta :=
    congrArg Dim3.product hblock
  constructor
  case status_eq =>
    rw [hstatus, h.status_eq, hsize]
    congr 1
    apply Finset.filter_congr
    intro i hi
    rw [(hsame i (Finset.mem_range.mp hi)).1]
  case warp_eq =>
    intro i hi
    rw [hsize] at hi ⊢
    rw [(hsame i hi).2.2.2]
    exact h.warp_eq i hi
  case cta_eq =>
    intro i hi
    rw [hsize] at hi ⊢
    rw [(hsame i hi).2.1]
    exact h.cta_eq i hi
  case memory =>
    obtain ⟨shared_mem, cta_info, ctaid, hshared, hcta, hthreads⟩ := h.memory
    rw [hsize, hblock]
    refine ⟨shared_mem, cta_info, ctaid, hgrown.shared_mono hshared, hgrown.cta_mono hcta, ?_⟩
    intro i hi
    obtain ⟨p, l, hp, hl, hbelongs⟩ := hthreads i hi
    obtain ⟨⟨done, hrecord⟩, _⟩ := hlater i hi p hp
    exact ⟨p, l, (hsame i hi).2.2.1.trans hp, hgrown.local_mono hl, hbelongs.congr hrecord⟩

theorem CoreInv.frame (h : CoreInv config kernels s sid core)
    (hblock : ∀ {uid}, core.m_kernel = some uid →
      (kernels' uid).m_block_dim = (kernels uid).m_block_dim)
    (hgrown : Grown s s')
    (hlater : ∀ {t p}, core.m_thread t = some p →
      p ∈ s'.live_threads ∧ Later (s.threads p) (s'.threads p)) :
    CoreInv config kernels' s' sid core := by
  constructor
  case sid_lt => exact h.sid_lt
  case status_lt => exact h.status_lt
  case n_active_eq => exact h.n_active_eq
  case not_completed_eq => exact h.not_completed_eq
  case active_iff => exact h.active_iff
  case active_slot =>
    intro t ht
    obtain ⟨uid, slot, i, hkernel, hstatus, hi, heq⟩ := h.active_slot ht
    have hsize : (kernels' uid).threads_per_cta = (kernels uid).threads_per_cta :=
      congrArg Dim3.product (hblock hkernel)
    exact ⟨uid, slot, i, hkernel, hstatus, hsize ▸ hi, hsize ▸ heq⟩
  case kernel_of_status => exact h.kernel_of_status
  case slot =>
    intro uid slot hkernel hstatus
    exact (h.slot hkernel hstatus).frame (hblock hkernel) hgrown rfl
      (fun i _ => ⟨rfl, rfl, rfl, rfl⟩) (fun i _ p hp => (hlater hp).2)
  case thread_live => exact fun hp => (hlater hp).1
  case thread_hw =>
    intro t p hp
    obtain ⟨⟨done, hrecord⟩, _⟩ := (hlater hp).2
    rw [hrecord]
    exact h.thread_hw hp
  case thread_done =>
    intro t p hp hactive
    exact (hlater hp).2.2 (h.thread_done hp hactive)

theorem coreInv_new : CoreInv config kernels s sid ShaderCore.new := by
  constructor <;> simp [ShaderCore.new]

/-! ## A new block -/

theorem padded_eq_warps (config : Config) (size : Nat) :
    config.padded_cta_size size = warps_of config size * config.warp_size := by
  have hdiv := Nat.div_add_mod size config.warp_size
  unfold ShaderConfig.padded_cta_size warps_of
  by_cases hzero : size % config.warp_size = 0
  · rw [if_neg (not_not.mpr hzero), if_pos hzero, Nat.add_zero, Nat.mul_comm]
    omega
  · rw [if_pos hzero, if_neg hzero]

theorem warp_in_slot (config : Config) {size slot t : Nat} :
    (config.start_thread size slot / config.warp_size ≤ t / config.warp_size ∧
      t / config.warp_size <
        config.start_thread size slot / config.warp_size + warps_of config size) ↔
    config.start_thread size slot ≤ t ∧
      t < config.start_thread size slot + config.padded_cta_size size := by
  obtain ⟨w, hw⟩ := config.warp_size_dvd_start_thread size slot
  have hpos := config.warp_pos
  rw [hw, Nat.mul_div_cancel_left _ hpos, padded_eq_warps, Nat.le_div_iff_mul_le hpos,
    Nat.div_lt_iff_lt_mul hpos, Nat.add_mul, Nat.mul_comm w]

theorem other_slot (config : Config) (size : Nat) {slot slot' i' : Nat} (hne : slot' ≠ slot)
    (hi' : i' < size) :
    ¬ (config.start_thread size slot ≤ config.start_thread size slot' + i' ∧
      config.start_thread size slot' + i' <
        config.start_thread size slot + config.padded_cta_size size) := by
  rintro ⟨hlow, hhigh⟩
  apply hne
  have hi := hi'.trans_le (config.le_padded_cta_size size)
  have heq : config.start_thread size slot' + i' = config.start_thread size slot +
      (config.start_thread size slot' + i' - config.start_thread size slot) := by omega
  exact (config.start_thread_add_inj hi (by omega) heq).1

theorem placed_in (config : Config) (core : ShaderCore) (ps : List Nat) (place : Place) {t : Nat}
    (ht : place.start ≤ t ∧ t < place.start + place.k.threads_per_cta) :
    (placed config core ps place).m_thread t = ps[t - place.start]? ∧
      (placed config core ps place).m_active t = true ∧
      (placed config core ps place).m_cta_id t = place.slot :=
  ⟨if_pos ht, if_pos ht, if_pos ht⟩

theorem placed_out (config : Config) (core : ShaderCore) (ps : List Nat) (place : Place) {t : Nat}
    (ht : ¬ (place.start ≤ t ∧ t < place.start + place.k.threads_per_cta)) :
    (placed config core ps place).m_thread t = core.m_thread t ∧
      (placed config core ps place).m_active t = core.m_active t ∧
      (placed config core ps place).m_cta_id t = core.m_cta_id t :=
  ⟨if_neg ht, if_neg ht, if_neg ht⟩

section Placed

variable {uid slot shared_mem cta_info sm_idx : Nat} {ps : List Nat}

theorem Started.old_thread (h : CoreInv config kernels s sid core)
    (hstarted : Started (placeOf config uid sid (kernels uid) slot) config.warp_size s s'
      core.m_thread sm_idx shared_mem cta_info ps (kernels uid).threads_per_cta
      (kernels uid).threads_per_cta) {t p : Nat} (hp : core.m_thread t = some p)
    (hout : ¬ (config.start_thread (kernels uid).threads_per_cta slot ≤ t ∧
      t < config.start_thread (kernels uid).threads_per_cta slot +
        (kernels uid).threads_per_cta)) :
    p ∈ s'.live_threads ∧ s'.threads p = s.threads p := by
  have hother : ∀ i < (kernels uid).threads_per_cta,
      t ≠ config.start_thread (kernels uid).threads_per_cta slot + i := by
    rintro i hi rfl
    exact hout ⟨Nat.le_add_right _ _, Nat.add_lt_add_left hi _⟩
  refine ⟨(hstarted.live_iff p).mpr (Or.inr ⟨h.thread_live hp, ?_⟩),
    hstarted.frame p (hstarted.old_notin t p hp hother)⟩
  intro i hi hsame
  exact hother i hi ((h.thread_hw hp).2.symm.trans (h.thread_hw hsame).2)

theorem Started.thread_record
    (hstarted : Started (placeOf config uid sid (kernels uid) slot) config.warp_size s s'
      core.m_thread sm_idx shared_mem cta_info ps (kernels uid).threads_per_cta
      (kernels uid).threads_per_cta) {i : Nat} (hi : i < (kernels uid).threads_per_cta) :
    ∃ p l, ps[i]? = some p ∧ p ∈ s'.live_threads ∧
      s'.local_memory_lookup sid (config.start_thread (kernels uid).threads_per_cta slot + i) =
        some l ∧
      s'.threads p = started_thread (placeOf config uid sid (kernels uid) slot) config.warp_size i
        shared_mem cta_info l := by
  have hlt : i < ps.length := hstarted.length_eq ▸ hi
  obtain ⟨l, hl, hrecord⟩ := hstarted.record i ps[i] (List.getElem?_eq_getElem hlt)
  rw [if_pos hi] at hrecord
  exact ⟨ps[i], l, List.getElem?_eq_getElem hlt,
    (hstarted.live_iff _).mpr (Or.inl (List.getElem_mem hlt)), hl, hrecord⟩

theorem SlotInv.placed (hblock : (kernels' uid).m_block_dim = (kernels uid).m_block_dim)
    (hstarted : Started (placeOf config uid sid (kernels uid) slot) config.warp_size s s'
      core.m_thread (config.sm_idx sid (kernels uid).threads_per_cta
        (config.start_thread (kernels uid).threads_per_cta slot)) shared_mem cta_info ps
      (kernels uid).threads_per_cta (kernels uid).threads_per_cta) :
    SlotInv config kernels' s' sid
      (placed config core ps (placeOf config uid sid (kernels uid) slot)) uid slot := by
  have hsize : (kernels' uid).threads_per_cta = (kernels uid).threads_per_cta :=
    congrArg Dim3.product hblock
  have hin : ∀ i < (kernels uid).threads_per_cta,
      config.start_thread (kernels uid).threads_per_cta slot ≤
          config.start_thread (kernels uid).threads_per_cta slot + i ∧
        config.start_thread (kernels uid).threads_per_cta slot + i <
          config.start_thread (kernels uid).threads_per_cta slot +
            (kernels uid).threads_per_cta :=
    fun i hi => ⟨Nat.le_add_right _ _, Nat.add_lt_add_left hi _⟩
  have hplaced : ∀ i < (kernels uid).threads_per_cta, _ := fun i hi =>
    placed_in config core ps (placeOf config uid sid (kernels uid) slot) (hin i hi)
  constructor
  case status_eq =>
    rw [hsize, Finset.filter_true_of_mem]
    · simp [Dispatch.placed, placeOf]
    · exact fun i hi => (hplaced i (Finset.mem_range.mp hi)).2.1
  case warp_eq =>
    intro i hi
    rw [hsize] at hi ⊢
    have hpadded := config.le_padded_cta_size (kernels uid).threads_per_cta
    exact if_pos ((warp_in_slot config).mpr ⟨Nat.le_add_right _ _, by omega⟩)
  case cta_eq =>
    intro i hi
    rw [hsize] at hi ⊢
    exact (hplaced i hi).2.2
  case memory =>
    rw [hsize, hblock]
    refine ⟨shared_mem, cta_info, (kernels uid).m_next_cta, hstarted.shared_eq,
      hstarted.cta_eq, ?_⟩
    intro i hi
    obtain ⟨p, l, hp, _, hl, hrecord⟩ := hstarted.thread_record hi
    refine ⟨p, l, (hplaced i hi).1.trans ?_, hl, ?_⟩
    · simp only [placeOf, Nat.add_sub_cancel_left, hp]
    · rw [hrecord]
      exact ⟨rfl, rfl, rfl, rfl, rfl, rfl⟩

theorem card_occupied_update {status : Nat → Nat} {size : Nat} (hslot : slot < MAX_CTA_PER_SHADER)
    (hfree : status slot = 0) (hsize : size ≠ 0) :
    ((Finset.range MAX_CTA_PER_SHADER).filter fun c => Function.update status slot size c ≠ 0).card =
      ((Finset.range MAX_CTA_PER_SHADER).filter fun c => status c ≠ 0).card + 1 := by
  have hinsert : ((Finset.range MAX_CTA_PER_SHADER).filter
        fun c => Function.update status slot size c ≠ 0) =
      insert slot ((Finset.range MAX_CTA_PER_SHADER).filter fun c => status c ≠ 0) := by
    ext c
    by_cases hc : c = slot
    · simp [hc, hsize, hslot]
    · simp [hc]
  rw [hinsert, Finset.card_insert_of_notMem]
  simp [hfree]

theorem sum_status_update (status : Nat → Nat) (hslot : slot < MAX_CTA_PER_SHADER) (value : Nat) :
    ∑ c ∈ Finset.range MAX_CTA_PER_SHADER, Function.update status slot value c + status slot =
      ∑ c ∈ Finset.range MAX_CTA_PER_SHADER, status c + value := by
  have hmem := Finset.mem_range.mpr hslot
  have hold := Finset.sum_sdiff (f := status) (Finset.singleton_subset_iff.mpr hmem)
  rw [Finset.sum_singleton] at hold
  rw [Finset.sum_update_of_mem hmem]
  omega

theorem CoreInv.placed (h : CoreInv config kernels s sid core) (hkernel : core.m_kernel = some uid)
    (hslot : slot < MAX_CTA_PER_SHADER) (hfree : core.m_cta_status slot = 0)
    (hpos : 0 < (kernels uid).threads_per_cta)
    (hblock : (kernels' uid).m_block_dim = (kernels uid).m_block_dim)
    (hstarted : Started (placeOf config uid sid (kernels uid) slot) config.warp_size s s'
      core.m_thread (config.sm_idx sid (kernels uid).threads_per_cta
        (config.start_thread (kernels uid).threads_per_cta slot)) shared_mem cta_info ps
      (kernels uid).threads_per_cta (kernels uid).threads_per_cta) :
    CoreInv config kernels' s' sid
      (Dispatch.placed config core ps (placeOf config uid sid (kernels uid) slot)) := by
  have hsize : (kernels' uid).threads_per_cta = (kernels uid).threads_per_cta :=
    congrArg Dim3.product hblock
  have hpadded := config.le_padded_cta_size (kernels uid).threads_per_cta
  have hgrown : Grown s s' :=
    ⟨hstarted.shared_mono, hstarted.cta_mono, hstarted.local_mono⟩
  have hin : ∀ {t}, (config.start_thread (kernels uid).threads_per_cta slot ≤ t ∧
        t < config.start_thread (kernels uid).threads_per_cta slot +
          (kernels uid).threads_per_cta) → _ := fun {t} ht =>
    placed_in config core ps (placeOf config uid sid (kernels uid) slot) ht
  have hout : ∀ {t}, ¬ (config.start_thread (kernels uid).threads_per_cta slot ≤ t ∧
        t < config.start_thread (kernels uid).threads_per_cta slot +
          (kernels uid).threads_per_cta) → _ := fun {t} ht =>
    placed_out config core ps (placeOf config uid sid (kernels uid) slot) ht
  have hstatus : ∀ c, (Dispatch.placed config core ps
      (placeOf config uid sid (kernels uid) slot)).m_cta_status c =
        Function.update core.m_cta_status slot (kernels uid).threads_per_cta c := fun _ => rfl
  have hother : ∀ {c}, c ≠ slot → (Dispatch.placed config core ps
      (placeOf config uid sid (kernels uid) slot)).m_cta_status c = core.m_cta_status c :=
    fun hc => Function.update_of_ne hc _ _
  -- the record of a thread of the new block
  have hnew : ∀ {t p}, config.start_thread (kernels uid).threads_per_cta slot ≤ t ∧
        t < config.start_thread (kernels uid).threads_per_cta slot +
          (kernels uid).threads_per_cta →
      (Dispatch.placed config core ps (placeOf config uid sid (kernels uid) slot)).m_thread t =
        some p →
      p ∈ s'.live_threads ∧ (s'.threads p).m_hw_sid = sid ∧ (s'.threads p).m_hw_tid = t := by
    intro t p ht hp
    rw [(hin ht).1] at hp
    obtain ⟨p', l, hp', hlive, _, hrecord⟩ := hstarted.thread_record
      (i := t - config.start_thread (kernels uid).threads_per_cta slot) (by omega)
    obtain rfl : p' = p := Option.some.inj (hp'.symm.trans hp)
    rw [hrecord]
    exact ⟨hlive, rfl, by simp only [started_thread, placeOf]; omega⟩
  constructor
  case sid_lt => exact h.sid_lt
  case status_lt =>
    intro c hc
    by_cases heq : c = slot
    · exact heq ▸ hslot
    · exact h.status_lt (hother heq ▸ hc)
  case n_active_eq =>
    show core.m_n_active_cta + 1 = ((Finset.range MAX_CTA_PER_SHADER).filter fun c =>
      Function.update core.m_cta_status slot (kernels uid).threads_per_cta c ≠ 0).card
    rw [card_occupied_update hslot hfree hpos.ne', h.n_active_eq]
  case not_completed_eq =>
    show core.m_not_completed + (kernels uid).threads_per_cta =
      ∑ c ∈ Finset.range MAX_CTA_PER_SHADER,
        Function.update core.m_cta_status slot (kernels uid).threads_per_cta c
    have hsum := sum_status_update core.m_cta_status hslot
      (kernels uid).threads_per_cta
    rw [hfree, Nat.add_zero] at hsum
    rw [hsum, h.not_completed_eq]
  case active_iff =>
    intro t
    show t ∈ core.m_active_threads ∪ Finset.Ico _ _ ↔ _
    rw [Finset.mem_union, Finset.mem_Ico, h.active_iff]
    by_cases ht : config.start_thread (kernels uid).threads_per_cta slot ≤ t ∧
        t < config.start_thread (kernels uid).threads_per_cta slot + (kernels uid).threads_per_cta
    · exact ⟨fun _ => (hin ht).2.1, fun _ => Or.inr ht⟩
    · rw [(hout ht).2.1]
      exact ⟨fun hor => hor.resolve_right ht, Or.inl⟩
  case active_slot =>
    intro t hactive
    by_cases ht : config.start_thread (kernels uid).threads_per_cta slot ≤ t ∧
        t < config.start_thread (kernels uid).threads_per_cta slot + (kernels uid).threads_per_cta
    · refine ⟨uid, slot, t - config.start_thread (kernels uid).threads_per_cta slot, hkernel, ?_,
        ?_, ?_⟩
      · rw [hstatus, Function.update_self]
        exact hpos.ne'
      · rw [hsize]
        omega
      · rw [hsize]
        omega
    · rw [(hout ht).2.1] at hactive
      obtain ⟨uid', slot', i, hkernel', hstatus', hi, heq⟩ := h.active_slot hactive
      obtain rfl : uid = uid' := Option.some.inj (hkernel.symm.trans hkernel')
      have hne : slot' ≠ slot := by
        rintro rfl
        exact hstatus' hfree
      rw [← hsize] at hi heq
      exact ⟨uid, slot', i, hkernel, by rwa [hother hne], hi, heq⟩
  case kernel_of_status => exact fun _ => ⟨uid, hkernel⟩
  case slot =>
    intro uid' slot' hkernel' hstatus'
    obtain rfl : uid = uid' := Option.some.inj (hkernel.symm.trans hkernel')
    by_cases hc : slot' = slot
    · subst hc
      exact SlotInv.placed hblock hstarted
    · rw [hother hc] at hstatus'
      have hnot : ∀ i < (kernels uid).threads_per_cta, _ := fun i hi =>
        other_slot config (kernels uid).threads_per_cta hc hi
      refine (h.slot hkernel hstatus').frame hblock hgrown (hother hc) ?_ ?_
      · intro i hi
        have hrange := hout (fun ht => hnot i hi ⟨ht.1, by omega⟩)
        refine ⟨hrange.2.1, hrange.2.2, hrange.1, ?_⟩
        exact if_neg (fun hwarp => hnot i hi ((warp_in_slot config).mp hwarp))
      · intro i hi p hp
        have hold := hstarted.old_thread h hp (fun ht => hnot i hi ⟨ht.1, by omega⟩)
        rw [hold.2]
        exact Later.refl _
  case thread_live =>
    intro t p hp
    by_cases ht : config.start_thread (kernels uid).threads_per_cta slot ≤ t ∧
        t < config.start_thread (kernels uid).threads_per_cta slot + (kernels uid).threads_per_cta
    · exact (hnew ht hp).1
    · rw [(hout ht).1] at hp
      exact (hstarted.old_thread h hp ht).1
  case thread_hw =>
    intro t p hp
    by_cases ht : config.start_thread (kernels uid).threads_per_cta slot ≤ t ∧
        t < config.start_thread (kernels uid).threads_per_cta slot + (kernels uid).threads_per_cta
    · exact (hnew ht hp).2
    · rw [(hout ht).1] at hp
      rw [(hstarted.old_thread h hp ht).2]
      exact h.thread_hw hp
  case thread_done =>
    intro t p hp hactive
    by_cases ht : config.start_thread (kernels uid).threads_per_cta slot ≤ t ∧
        t < config.start_thread (kernels uid).threads_per_cta slot + (kernels uid).threads_per_cta
    · rw [(hin ht).2.1] at hactive
      cases hactive
    · rw [(hout ht).1] at hp
      rw [(hout ht).2.1] at hactive
      rw [(hstarted.old_thread h hp ht).2]
      exact h.thread_done hp hactive

end Placed

end AesOnGpu.Cta.Dispatch
