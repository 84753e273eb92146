import AesOnGpu.Cta.KernelCounts

/-! # Dispatch loses and repeats nothing

Every step that can happen goes through and keeps the counts. While a kernel is not done, there are
threads on the cores or the next core that is offered work takes a block.
-/

namespace AesOnGpu.Cta.Dispatch

variable {config : Config} {m : GpgpuSim} {issued : Nat → Nat} {sid uid : Nat}

/-- A kernel that is launched has a proper grid, and `max_cta` gives a number for it. -/
def GpgpuSim.Admissible (config : Config) (m : GpgpuSim) (e : Event) : Prop :=
  m.Possible config e ∧
    match e with
    | .launch gridDim blockDim smem regs => gridDim.Proper ∧
        ∃ limit, config.max_cta (KernelInfo.new gridDim blockDim smem regs) = .ok limit
    | _ => True

/-- The states of the runs of such kernels. -/
inductive Dispatched (config : Config) : GpgpuSim → Prop
  | new : Dispatched config (GpgpuSim.new config)
  | step {m m' : GpgpuSim} {e : Event} : Dispatched config m → m.Admissible config e →
      m.step config e = .ok m' → Dispatched config m'

def KernelsKept (config : Config) (m : GpgpuSim) : Prop :=
  ∃ issued, MemoryInv config m issued ∧ KernelsInv config m ∧ m.Occupied

theorem kernelsKept_new (config : Config) : KernelsKept config (GpgpuSim.new config) :=
  ⟨_, memoryInv_new config, kernelsInv_new config, nofun⟩

/-! ## Offers -/

theorem KernelsInv.not_aborts (kernels : KernelsInv config m) (inv : MemoryInv config m issued)
    (bound : (m.cores sid).m_kernel = some uid)
    (aborts : config.max_cta (m.kernels uid) = .error .max_cta) : False := by
  obtain ⟨limit, fits⟩ := kernels.fits (inv.bound bound)
  cases fits.symm.trans aborts

theorem kernelsKept_withBlock {core : ShaderCore} {s : PtxSim} (kernels : KernelsInv config m)
    (occupied : ∀ sid' uid', sid' ≠ sid → (m.cores sid').m_kernel = some uid' →
      (m.cores sid').m_n_active_cta ≠ 0)
    (inside : sid < config.num_shader) (bound : (m.cores sid).m_kernel = some uid)
    (same : core.m_kernel = some uid) (active : core.m_n_active_cta = (m.cores sid).m_n_active_cta + 1)
    (inv : MemoryInv config (m.withBlock sid uid core (m.kernels uid).increment_cta_id s) issued) :
    KernelsKept config (m.withBlock sid uid core (m.kernels uid).increment_cta_id s) := by
  refine ⟨issued, inv, kernels.withBlock inside bound same s, fun sid' uid' bound' => ?_⟩
  by_cases here : sid' = sid
  · subst here
    simp only [GpgpuSim.withBlock, Function.update_self, active]
    exact Nat.succ_ne_zero _
  · simp only [GpgpuSim.withBlock, Function.update_of_ne here] at bound' ⊢
    exact occupied sid' uid' here bound'

theorem KernelsKept.offer (kept : KernelsKept config m) (inside : sid < config.num_shader)
    (heap : Allocator) : ∃ taken m', m.offer config heap sid = .ok (taken, m') ∧
      KernelsKept config m' ∧
      ((m.cores sid).m_kernel = none → m.select_slot config ≠ none → taken = true) := by
  obtain ⟨issued, inv, kernels, occupied⟩ := kept
  have binds := bind_kernel_binds config m sid
  have inv₁ := inv.binds inside binds
  have kernels₁ := kernels.binds inside binds
  rw [GpgpuSim.offer]
  generalize m.bind_kernel config sid = m₁ at binds inv₁ kernels₁ ⊢
  cases binds with
  | kept unselected =>
    cases inv₁.take_block heap sid with
    | nothing run _ =>
      refine ⟨false, m, run, ⟨issued, inv, kernels, occupied⟩, fun free selected => absurd ?_ selected⟩
      have idle := (inv.core sid).idle_of_none free
      exact unselected ((inv.core sid).not_completed_of_idle idle) free
    | block bound run same active _ inv' =>
      exact ⟨true, _, run, kernelsKept_withBlock kernels (fun sid' uid' _ => occupied sid' uid') inside
        bound same active inv', fun _ _ => rfl⟩
    | aborts bound aborts _ => exact (kernels₁.not_aborts inv₁ bound aborts).elim
  | @bound idx uid free slot more =>
    have more₁ : ({ m with m_last_issued_kernel := idx }.set_kernel sid uid).kernel_more_cta_left
        config (some uid) = true := by
      rw [more_left_iff] at more ⊢
      refine ⟨more.1, ?_⟩
      simp only [GpgpuSim.set_kernel, Function.update_self]
      exact more.2
    have bound₁ : (({ m with m_last_issued_kernel := idx }.set_kernel sid uid).cores sid).m_kernel =
        some uid := by
      simp only [GpgpuSim.set_kernel, Function.update_self]
    have idle : (({ m with m_last_issued_kernel := idx }.set_kernel sid uid).cores sid).m_n_active_cta =
        0 := by
      simp only [GpgpuSim.set_kernel, Function.update_self]
      exact (inv.core sid).idle_of_none free
    cases inv₁.take_block heap sid with
    | nothing _ full =>
      -- the core is empty, and at least one block fits
      obtain ⟨limit, fits⟩ := kernels₁.fits (inv₁.bound bound₁)
      have most := full uid limit bound₁ more₁ fits
      have positive := (max_cta_bounds config fits).1
      omega
    | block bound run same active _ inv' =>
      refine ⟨true, _, run, kernelsKept_withBlock kernels₁ (fun sid' uid' other bound' => ?_) inside
        bound same active inv', fun _ _ => rfl⟩
      simp only [GpgpuSim.set_kernel, Function.update_of_ne other] at bound' ⊢
      exact occupied sid' uid' bound'
    | aborts bound aborts _ => exact (kernels₁.not_aborts inv₁ bound aborts).elim

theorem kernelsKept_offers (config : Config) : OffersKeep config (KernelsKept config) False := by
  intro m sid heap inside kept
  obtain ⟨taken, m', run, kept', -⟩ := kept.offer inside heap
  exact Or.inl ⟨taken, m', run, kept'⟩

theorem KernelsKept.congr (kept : KernelsKept config m) {m' : GpgpuSim}
    (next : m'.m_next_uid = m.m_next_uid) (sim : m'.sim = m.sim) (cores : m'.cores = m.cores)
    (same : m'.kernels = m.kernels) (slots : m'.m_running_kernels = m.m_running_kernels)
    (calls : m'.done_calls = m.done_calls) : KernelsKept config m' := by
  obtain ⟨issued, inv, kernels, occupied⟩ := kept
  refine ⟨issued, ?_, ?_, ?_⟩
  · exact inv.congr next sim cores same fun uid member => slots ▸ member
  · exact kernels.congr next same (fun sid => by rw [cores]) slots calls
  · rw [GpgpuSim.Occupied, cores]
    exact occupied

/-! ## Exits -/

section Exits

variable {t : Nat}

theorem GpgpuSim.Occupied.leave (occupied : m.Occupied) {slot : Nat}
    (others : ¬ ((m.cores sid).m_cta_status slot = 1 ∧ (m.cores sid).m_n_active_cta = 1)) :
    (m.leave sid slot t).Occupied := by
  intro sid' uid bound
  by_cases here : sid' = sid
  · subst here
    simp only [GpgpuSim.leave, Function.update_self, exited] at bound ⊢
    have before := occupied sid' uid bound
    split
    · rename_i last
      have more : (m.cores sid').m_n_active_cta ≠ 1 := fun only => others ⟨last, only⟩
      omega
    · exact before
  · simp only [GpgpuSim.leave, Function.update_of_ne here] at bound ⊢
    exact occupied sid' uid bound

theorem GpgpuSim.Occupied.unbind (occupied : m.Occupied) (slot uid : Nat) (k : KernelInfo) :
    ((m.leave sid slot t).unbind sid uid k).Occupied := by
  intro sid' uid' bound
  by_cases here : sid' = sid
  · subst here
    simp only [GpgpuSim.unbind, Function.update_self] at bound
    cases bound
  · simp only [GpgpuSim.unbind, GpgpuSim.leave, Function.update_of_ne here] at bound ⊢
    exact occupied sid' uid' bound

theorem KernelsKept.fetch_exit (unlimited : config.gpu_max_cta_opt = 0) (kept : KernelsKept config m)
    (inside : sid < config.num_shader) (active : (m.cores sid).m_active t = true)
    (ended : ∀ thd, (m.cores sid).m_thread t = some thd → (m.sim.threads thd).m_thread_done = true) :
    ∃ m', m.fetch_exit config sid t = .ok m' ∧ KernelsKept config m' := by
  obtain ⟨issued, inv, kernels, occupied⟩ := kept
  have still {slot uid : Nat} (bound : (m.cores sid).m_kernel = some uid) :
      ((m.leave sid slot t).cores sid).m_kernel = some uid := by
    simp only [GpgpuSim.leave, Function.update_self, exited, bound]
  cases inv.fetches active with
  | stays others fetch =>
    exact ⟨_, fetch, issued, inv.leave active ended, kernels.leave _ _ _, occupied.leave others⟩
  | unbinds last only bound decremented incomplete fetch =>
    rw [completes_eq_done unlimited] at incomplete
    exact ⟨_, fetch, issued, inv.unbind active ended last only decremented,
      (kernels.leave _ _ _).unbind inside (still bound) decremented incomplete,
      occupied.unbind _ _ _⟩
  | @finishes uid n k last only bound decremented complete found fetch =>
    rw [completes_eq_done unlimited] at complete
    exact ⟨_, fetch, issued, (inv.unbind active ended last only decremented).finish _ _,
      (kernels.leave _ _ _).finish (inv.bound bound) inside (still bound) decremented complete
        (getElem_of_findIdx found), occupied.unbind _ uid k⟩
  | notRunning bound stuck _ =>
    have running := kernels.running_of_bound inside bound
    simp [KernelInfo.dec_running, running] at stuck
  | notFound bound absent _ =>
    have running := kernels.running_of_bound inside bound
    have member := (kernels.waiting (inv.bound bound) (not_done_of_running running)).1
    have other := List.findIdx?_eq_none_iff.mp absent _ member
    simp at other

end Exits

/-! ## Every step goes through -/

theorem KernelsKept.step (unlimited : config.gpu_max_cta_opt = 0) (kept : KernelsKept config m)
    {e : Event} (admissible : m.Admissible config e) :
    ∃ m', m.step config e = .ok m' ∧ KernelsKept config m' := by
  obtain ⟨possible, proper⟩ := admissible
  cases e with
  | launch gridDim blockDim smem regs =>
    obtain ⟨issued, inv, kernels, occupied⟩ := kept
    obtain ⟨grid, limit, fits⟩ := proper
    obtain ⟨block, can_start⟩ := possible
    have small := threads_le_of_max_cta config fits
    cases found : m.m_running_kernels.findIdx? m.free_kernel_slot with
    | none =>
      obtain ⟨slot, member, free⟩ := List.any_eq_true.mp can_start
      have occupied := List.findIdx?_eq_none_iff.mp found slot member
      rw [free] at occupied
      cases occupied
    | some n =>
      refine ⟨m.withKernel (KernelInfo.new gridDim blockDim smem regs) n, ?_, _,
        inv.withKernel gridDim block smem regs n,
        kernels.withKernel inv rfl (not_done_new grid block smem regs) fits found, occupied⟩
      simp only [GpgpuSim.step, GpgpuSim.launch, if_neg (Nat.not_lt.mpr small), found]
      rfl
  | offer heap sid =>
    obtain ⟨taken, m', run, kept', -⟩ := kept.offer possible heap
    refine ⟨m', ?_, kept'⟩
    rw [GpgpuSim.step, run]
    rfl
  | issue_block2core heap cluster =>
    have round := (kernelsKept_offers config).issue_block2core
      (fun _ _ kept => kept.congr rfl rfl rfl rfl rfl rfl)
      (fun _ _ kept => kept.congr rfl rfl rfl rfl rfl rfl) heap possible kept
    exact round.resolve_right And.left
  | exit sid t =>
    obtain ⟨issued, inv, kernels, occupied⟩ := kept
    obtain ⟨-, -, thd, onCore, running⟩ := possible
    obtain ⟨m', run, inv', same⟩ := inv.exit_impl onCore running
    refine ⟨m', run, issued, inv', ?_, ?_⟩
    · rw [same]
      exact kernels.congr rfl rfl (fun _ => rfl) rfl rfl
    · rw [same]
      exact occupied
  | fetch_exit sid t => exact kept.fetch_exit unlimited possible.1 possible.2.1 possible.2.2
  | finished_kernel => exact ⟨_, rfl, kept.congr rfl rfl rfl rfl rfl rfl⟩

theorem Dispatched.kernelsKept (unlimited : config.gpu_max_cta_opt = 0)
    (dispatched : Dispatched config m) : KernelsKept config m := by
  induction dispatched with
  | new => exact kernelsKept_new config
  | step _ admissible run kept =>
    obtain ⟨m', run', kept'⟩ := kept.step unlimited admissible
    obtain rfl := Except.ok.inj (run'.symm.trans run)
    exact kept'

/-! ## What a run has done -/

def GpgpuSim.AllCreated (m : GpgpuSim) (uid : Nat) : Prop :=
  ∀ ctaid tid, ctaid.Within (m.kernels uid).m_grid_dim → tid.Within (m.kernels uid).m_block_dim →
    ∃ c ∈ m.sim.created, c.kernel = uid ∧ c.ctaid = ctaid ∧ c.tid = tid

def GpgpuSim.AllFinished (m : GpgpuSim) (uid : Nat) : Prop :=
  ∀ sid t p, Resident m sid t p → (m.sim.threads p).kernel ≠ uid

/-- No block and no thread is created twice, none is created in part or on two cores, and
    `set_kernel_done` is called once for each kernel that has finished and for no other. -/
structure Exact (m : GpgpuSim) : Prop where
  once : (m.sim.created.map fun c => (c.kernel, c.ctaid, c.tid)).Nodup
  inside : ∀ c ∈ m.sim.created, m.Launched c.kernel ∧
    c.ctaid.Within (m.kernels c.kernel).m_grid_dim ∧ c.tid.Within (m.kernels c.kernel).m_block_dim
  whole : ∀ c ∈ m.sim.created, ∀ tid, tid.Within (m.kernels c.kernel).m_block_dim →
    ∃ c' ∈ m.sim.created, c'.kernel = c.kernel ∧ c'.ctaid = c.ctaid ∧ c'.tid = tid
  one_core : ∀ c ∈ m.sim.created, ∀ c' ∈ m.sim.created, c.kernel = c'.kernel → c.ctaid = c'.ctaid →
    c.sid = c'.sid
  resident : ∀ p ∈ m.sim.live_threads, (m.sim.threads p).m_thread_done = false →
    ∃ sid t, Resident m sid t p
  done_once : m.done_calls.Nodup
  done_iff : ∀ uid, uid ∈ m.done_calls ↔ m.Launched uid ∧ m.AllCreated uid ∧ m.AllFinished uid

theorem MemoryInv.resident_kernel (inv : MemoryInv config m issued) {t p : Nat}
    (resident : Resident m sid t p) : sid < config.num_shader ∧
      (m.cores sid).m_kernel = some (m.sim.threads p).kernel := by
  obtain ⟨uid, slot, shared_mem, cta_info, ctaid, given⟩ := inv.given resident
  obtain ⟨tid, l, -, record⟩ := given.record
  rw [record.kernel]
  exact ⟨(inv.core sid).sid_lt given.kernel, given.kernel⟩

theorem MemoryInv.exists_resident (inv : MemoryInv config m issued)
    (bound : (m.cores sid).m_kernel = some uid) (occupied : (m.cores sid).m_n_active_cta ≠ 0) :
    ∃ t p, Resident m sid t p ∧ (m.sim.threads p).kernel = uid := by
  rw [(inv.core sid).n_active_eq] at occupied
  obtain ⟨slot, member⟩ := Finset.card_ne_zero.mp occupied
  have status := (Finset.mem_filter.mp member).2
  have block := (inv.core sid).slot bound status
  rw [block.status_eq] at status
  obtain ⟨i, member⟩ := Finset.card_ne_zero.mp status
  obtain ⟨range, active⟩ := Finset.mem_filter.mp member
  obtain ⟨shared_mem, cta_info, ctaid, -, -, threads⟩ := block.memory
  obtain ⟨p, l, onCore, -, record⟩ := threads i (Finset.mem_range.mp range)
  exact ⟨_, p, ⟨onCore, active⟩, record.kernel⟩

theorem KernelsInv.allFinished_iff (kernels : KernelsInv config m) (inv : MemoryInv config m issued)
    (occupied : m.Occupied) : m.AllFinished uid ↔ (m.kernels uid).m_num_cores_running = 0 := by
  rw [kernels.running, Finset.card_eq_zero]
  constructor
  · intro finished
    refine Finset.filter_eq_empty_iff.mpr fun sid _ bound => ?_
    obtain ⟨t, p, resident, kernel⟩ := inv.exists_resident bound (occupied sid uid bound)
    exact finished sid t p resident kernel
  · rintro none_ sid t p resident rfl
    obtain ⟨inside, bound⟩ := inv.resident_kernel resident
    exact Finset.filter_eq_empty_iff.mp none_ (Finset.mem_range.mpr inside) bound

theorem MemoryInv.allCreated_iff (inv : MemoryInv config m issued) (launched : m.Launched uid) :
    m.AllCreated uid ↔ (m.kernels uid).no_more_ctas_to_run = true := by
  have settled := inv.settled launched
  rw [settled.no_more_iff]
  constructor
  · intro all
    by_contra fewer
    have below := Nat.lt_of_le_of_ne settled.issued_le fewer
    -- the first thread of the next block has not been created
    obtain ⟨c, member, kernel, ctaid, -⟩ := all ((m.kernels uid).m_grid_dim.nth (issued uid))
      ((m.kernels uid).m_block_dim.nth 0) ((Dim3.nth_within _ _).mpr below)
      ((Dim3.nth_within _ _).mpr settled.block.size_pos)
    exact inv.history.next_fresh settled member kernel (ctaid.trans settled.next_cta.symm)
  · intro all ctaid tid within within'
    obtain ⟨n, below, position⟩ := (Dim3.within_iff _ _).mp within
    exact (inv.history.mem_iff uid ctaid tid).mpr ⟨launched, ⟨n, all ▸ below, position⟩, within'⟩

theorem KernelsKept.exact_ (kept : KernelsKept config m) : Exact m := by
  obtain ⟨issued, inv, kernels, occupied⟩ := kept
  have created {c : Created} (member : c ∈ m.sim.created) :=
    (inv.history.mem_iff c.kernel c.ctaid c.tid).mp ⟨c, member, rfl, rfl, rfl⟩
  constructor
  case once => exact inv.history.nodup
  case inside =>
    intro c member
    obtain ⟨launched, ⟨n, below, position⟩, within⟩ := created member
    refine ⟨launched, ?_, within⟩
    rw [← position]
    exact (Dim3.nth_within _ _).mpr (below.trans_le (inv.settled launched).issued_le)
  case whole =>
    intro c member tid within
    obtain ⟨launched, block, -⟩ := created member
    exact (inv.history.mem_iff c.kernel c.ctaid tid).mpr ⟨launched, block, within⟩
  case one_core => exact inv.history.one_core
  case resident =>
    intro p live running
    obtain ⟨sid, t, onCore, active⟩ := inv.resident live running
    exact ⟨sid, t, onCore, active⟩
  case done_once => exact kernels.done_nodup
  case done_iff =>
    intro uid
    rw [kernels.allFinished_iff inv occupied]
    constructor
    · intro called
      have launched := kernels.done_launched uid called
      have isDone : (m.kernels uid).done = true := by
        by_contra still
        exact (kernels.waiting launched (Bool.eq_false_iff.mpr still)).2 called
      obtain ⟨noMore, idle⟩ := (done_eq _).mp isDone
      exact ⟨launched, (inv.allCreated_iff launched).mpr noMore, idle⟩
    · rintro ⟨launched, all, idle⟩
      have isDone := (done_eq _).mpr ⟨(inv.allCreated_iff launched).mp all, idle⟩
      exact (kernels.finished launched isDone).2

/-! ## Progress -/

theorem exists_turn {length idx : Nat} (inside : idx < length) (last : Nat) :
    ∃ n < length, (n + last + 1) % length = idx := by
  have positive := Nat.zero_lt_of_lt inside
  have rest := Nat.mod_lt (last + 1) positive
  refine ⟨(idx + (length - (last + 1) % length)) % length, Nat.mod_lt _ positive, ?_⟩
  have split := Nat.div_add_mod (last + 1) length
  have sum : idx + (length - (last + 1) % length) + (last + 1) =
      idx + length * ((last + 1) / length + 1) := by
    rw [Nat.mul_succ]
    omega
  rw [Nat.add_assoc, Nat.mod_add_mod, sum, Nat.add_mul_mod_self_left, Nat.mod_eq_of_lt inside]

theorem KernelsInv.select_slot_ne_none (kernels : KernelsInv config m)
    (member : some uid ∈ m.m_running_kernels) (more : m.kernel_more_cta_left config (some uid) = true) :
    m.select_slot config ≠ none := by
  intro unselected
  obtain ⟨idx, slot⟩ := List.mem_iff_getElem?.mp member
  have inside := (List.getElem?_eq_some_iff.mp slot).1
  obtain ⟨n, below, turn⟩ := exists_turn inside m.m_last_issued_kernel
  have passed := List.find?_eq_none.mp unselected idx
    (List.mem_map.mpr ⟨n, List.mem_range.mpr below, by rw [← kernels.length]; exact turn⟩)
  rw [List.getD_eq_getElem?_getD, slot] at passed
  exact passed more

/-- While a kernel is not done, a thread is on a core or any core that is offered work takes a
    block. -/
theorem KernelsKept.progress (unlimited : config.gpu_max_cta_opt = 0) (kept : KernelsKept config m)
    (launched : m.Launched uid) (waiting : uid ∉ m.done_calls) :
    (∃ sid t p, Resident m sid t p) ∨ ∀ heap sid, sid < config.num_shader →
      ∃ m', m.offer config heap sid = .ok (true, m') := by
  by_cases busy : ∃ sid t p, Resident m sid t p
  · exact Or.inl busy
  · refine Or.inr fun heap sid inside => ?_
    obtain ⟨taken, m', run, -, takes⟩ := kept.offer inside heap
    obtain ⟨issued, inv, kernels, occupied⟩ := kept
    have free (sid : Nat) : (m.cores sid).m_kernel = none := by
      cases bound : (m.cores sid).m_kernel with
      | none => rfl
      | some uid' =>
        obtain ⟨t, p, resident, -⟩ := inv.exists_resident bound (occupied sid uid' bound)
        exact absurd ⟨sid, t, p, resident⟩ busy
    have notDone : (m.kernels uid).done = false := by
      cases isDone : (m.kernels uid).done with
      | false => rfl
      | true => exact absurd (kernels.finished launched isDone).2 waiting
    have idle : (m.kernels uid).m_num_cores_running = 0 :=
      (kernels.allFinished_iff inv occupied).mp fun sid t p resident _ => busy ⟨sid, t, p, resident⟩
    have more : m.kernel_more_cta_left config (some uid) = true := by
      refine more_left_iff.mpr ⟨by simp [GpgpuSim.hit_max_cta_count, unlimited], ?_⟩
      by_contra noMore
      rw [(done_eq _).mpr ⟨Bool.eq_true_of_not_eq_false noMore, idle⟩] at notDone
      cases notDone
    have selected := kernels.select_slot_ne_none (kernels.waiting launched notDone).1 more
    obtain rfl := takes (free sid) selected
    exact ⟨m', run⟩

/-- Dispatch without a limit on the number of blocks. No assertion fails in any order of events;
    every block is created once, and `set_kernel_done` is called when the last has finished. -/
theorem dispatch_exact (unlimited : config.gpu_max_cta_opt = 0) (dispatched : Dispatched config m) :
    Exact m ∧ (∀ e, m.Admissible config e → ∃ m', m.step config e = .ok m') ∧
      ∀ uid, m.Launched uid → uid ∉ m.done_calls → (∃ sid t p, Resident m sid t p) ∨
        ∀ heap sid, sid < config.num_shader → ∃ m', m.offer config heap sid = .ok (true, m') := by
  have kept := dispatched.kernelsKept unlimited
  refine ⟨kept.exact_, fun e admissible => ?_, fun uid launched waiting => ?_⟩
  · obtain ⟨m', run, -⟩ := kept.step unlimited admissible
    exact ⟨m', run⟩
  · exact kept.progress unlimited launched waiting

theorem dispatch_exact_two : ∃ m, m.sim.created.length = 4 ∧ Exact m := by
  obtain ⟨m, run, created⟩ := exists_four_created
  have launched : Dispatched twoCores twoBlocks :=
    .step (e := .launch ⟨2, 1, 1⟩ ⟨2, 1, 1⟩ 0 0) .new
      ⟨⟨⟨by decide, by decide, by decide, by decide⟩, rfl⟩,
        ⟨by decide, by decide, by decide, by decide⟩, 1, rfl⟩ rfl
  have dispatched : Dispatched twoCores m :=
    offers_keep (fun _ _ sid inside dispatched step =>
      .step (e := .offer bump sid) dispatched ⟨inside, trivial⟩ step) [0, 1] (by decide) launched run
  exact ⟨m, created, (dispatch_exact rfl dispatched).1⟩

end AesOnGpu.Cta.Dispatch
