import AesOnGpu.Cta.SystemMemory

/-! # Steps of a whole run

What an offer of work, a launch and the exit of a thread make of the state. An offer fails only where
`max_cta` does.
-/

namespace AesOnGpu.Cta.Dispatch

variable {config : Config} {m : GpgpuSim} {issued : Nat → Nat} {sid uid : Nat}

/-! ## Offers -/

theorem max_cta_error {k : KernelInfo} {e : Failure} (fails : config.max_cta k = .error e) :
    e = .max_cta := by
  simp only [Config.max_cta] at fails
  generalize min (min (min (config.n_thread_per_shader /
    config.padded_cta_size k.threads_per_cta) _) _) config.max_cta_per_core = most at fails
  generalize (if k.num_blocks < most * config.num_shader then
    k.num_blocks / config.num_shader + if k.num_blocks % config.num_shader = 0 then 0 else 1
    else most) = result at fails
  split at fails
  · exact (Except.error.inj fails).symm
  · split at fails
    · exact (Except.error.inj fails).symm
    · cases fails

theorem more_left_iff : m.kernel_more_cta_left config (some uid) = true ↔
    m.hit_max_cta_count config = false ∧ (m.kernels uid).no_more_ctas_to_run = false := by
  simp [GpgpuSim.kernel_more_cta_left]

/-- What the first half of an offer does. -/
inductive Binds (config : Config) (m : GpgpuSim) (sid : Nat) : GpgpuSim → Prop where
  | kept : ((m.cores sid).m_not_completed = 0 → (m.cores sid).m_kernel = none →
      m.select_slot config = none) → Binds config m sid m
  | bound {idx uid : Nat} : (m.cores sid).m_kernel = none →
      m.m_running_kernels.getD idx none = some uid → m.kernel_more_cta_left config (some uid) = true →
      Binds config m sid ({ m with m_last_issued_kernel := idx }.set_kernel sid uid)

theorem bind_kernel_binds (config : Config) (m : GpgpuSim) (sid : Nat) :
    Binds config m sid (m.bind_kernel config sid) := by
  rw [GpgpuSim.bind_kernel]
  split
  · rename_i idle
    cases selected : m.select_slot config with
    | none =>
      simp only [GpgpuSim.select_kernel, selected]
      exact .kept fun _ _ => selected
    | some idx =>
      have more := List.find?_some selected
      simp only [GpgpuSim.select_kernel, selected]
      cases kernel : m.m_running_kernels.getD idx none with
      | none =>
        rw [kernel] at more
        cases more
      | some uid =>
        rw [kernel] at more
        exact .bound idle.2 kernel more
  · rename_i busy
    exact .kept fun completed free => absurd ⟨completed, free⟩ busy

theorem mem_of_getD {slots : List (Option Nat)} {idx : Nat} (found : slots.getD idx none = some uid) :
    some uid ∈ slots := by
  rw [List.getD_eq_getElem?_getD] at found
  cases inside : slots[idx]? with
  | none =>
    rw [inside] at found
    cases found
  | some slot =>
    rw [inside] at found
    obtain rfl : slot = some uid := found
    exact List.mem_of_getElem? inside

theorem MemoryInv.binds (inv : MemoryInv config m issued) (inside : sid < config.num_shader)
    {m' : GpgpuSim} (binds : Binds config m sid m') : MemoryInv config m' issued := by
  cases binds with
  | kept _ => exact inv
  | @bound idx uid free slot _ =>
    have idle := (inv.core sid).idle_of_none free
    have launched (uid' : Nat) (same : some uid = some uid') :
        m.Launched uid' ∧ sid < config.num_shader := by
      obtain rfl := Option.some.inj same
      exact ⟨inv.slots (mem_of_getD slot), inside⟩
    refine inv.rebind idle launched rfl rfl (fun _ member => member) (fun uid' => ?_) rfl
    · by_cases same : uid' = uid
      · subst same
        exact ⟨(m.kernels uid').m_num_cores_running + 1, by
          simp [GpgpuSim.set_kernel, KernelInfo.inc_running]⟩
      · exact ⟨(m.kernels uid').m_num_cores_running, by simp [GpgpuSim.set_kernel, same]⟩

/-- What the second half of an offer does. -/
inductive Takes (config : Config) (m : GpgpuSim) (issued : Nat → Nat) (heap : Allocator) (sid : Nat) :
    Prop where
  | nothing : m.take_block config heap sid = .ok (false, m) →
      (∀ uid limit, (m.cores sid).m_kernel = some uid →
        m.kernel_more_cta_left config (some uid) = true → config.max_cta (m.kernels uid) = .ok limit →
        limit ≤ (m.cores sid).m_n_active_cta) → Takes config m issued heap sid
  | block {uid : Nat} {core : ShaderCore} {s : PtxSim} : (m.cores sid).m_kernel = some uid →
      m.take_block config heap sid =
        .ok (true, m.withBlock sid uid core (m.kernels uid).increment_cta_id s) →
      core.m_kernel = some uid → core.m_n_active_cta = (m.cores sid).m_n_active_cta + 1 →
      issued uid < (m.kernels uid).m_grid_dim.size →
      MemoryInv config (m.withBlock sid uid core (m.kernels uid).increment_cta_id s)
        (Function.update issued uid (issued uid + 1)) → Takes config m issued heap sid
  | aborts {uid : Nat} : (m.cores sid).m_kernel = some uid →
      config.max_cta (m.kernels uid) = .error .max_cta →
      m.take_block config heap sid = .error .max_cta → Takes config m issued heap sid

theorem MemoryInv.take_block (inv : MemoryInv config m issued) (heap : Allocator) (sid : Nat) :
    Takes config m issued heap sid := by
  cases hkernel : (m.cores sid).m_kernel with
  | none =>
    refine .nothing (by rw [GpgpuSim.take_block, hkernel]) fun _ _ isSome => ?_
    rw [hkernel] at isSome
    cases isSome
  | some uid =>
    cases more : m.kernel_more_cta_left config (some uid) with
    | false =>
      refine .nothing ?_ fun _ _ isSome left => ?_
      · simp only [GpgpuSim.take_block, hkernel, more]
        rfl
      · obtain rfl := Option.some.inj (hkernel.symm.trans isSome)
        exact absurd left (Bool.eq_false_iff.mp more)
    | true =>
      cases hlimit : config.max_cta (m.kernels uid) with
      | error e =>
        obtain rfl := max_cta_error hlimit
        refine .aborts hkernel hlimit ?_
        simp only [GpgpuSim.take_block, hkernel, more, if_true, hlimit]
        rfl
      | ok limit =>
        by_cases room : (m.cores sid).m_n_active_cta < limit
        · have left := (inv.settled (inv.bound hkernel)).more_iff.mp (more_left_iff.mp more).2
          obtain ⟨core, s, run, bound, active, inv'⟩ := inv.issue hkernel left hlimit room heap
          refine .block hkernel ?_ bound active left inv'
          simp only [GpgpuSim.take_block, hkernel, more, if_true, hlimit, bind, Except.bind, room, run]
          rfl
        · refine .nothing ?_ fun _ _ isSome _ fits => ?_
          · simp only [GpgpuSim.take_block, hkernel, more, if_true, hlimit, bind, Except.bind, room]
            rfl
          · obtain rfl := Option.some.inj (hkernel.symm.trans isSome)
            obtain rfl := Except.ok.inj (hlimit.symm.trans fits)
            exact Nat.not_lt.mp room

/-! ## A round of a cluster -/

section Rounds

variable {P : GpgpuSim → Prop} {aborts : Prop}

/-- An offer keeps `P`, or `max_cta` aborts where it may. -/
def OffersKeep (config : Config) (P : GpgpuSim → Prop) (aborts : Prop) : Prop :=
  ∀ m sid heap, sid < config.num_shader → P m →
    (∃ taken m', m.offer config heap sid = .ok (taken, m') ∧ P m') ∨
      aborts ∧ m.offer config heap sid = .error .max_cta

theorem OffersKeep.offer_in_turn (keep : OffersKeep config P aborts)
    (next : ∀ m next_core, P m → P { m with m_cta_issue_next_core := next_core })
    (heap : Allocator) {cluster : Nat} (inside : cluster < config.n_simt_clusters) :
    ∀ (turn : List Nat) (m : GpgpuSim), (∀ core ∈ turn, core < config.n_simt_cores_per_cluster) → P m →
      (∃ num m', GpgpuSim.offer_in_turn config heap cluster turn m = .ok (num, m') ∧ P m') ∨
        aborts ∧ GpgpuSim.offer_in_turn config heap cluster turn m = .error .max_cta := by
  intro turn
  induction turn with
  | nil => exact fun m _ holds => Or.inl ⟨0, m, rfl, holds⟩
  | cons core rest ih =>
    intro m cores holds
    have sidInside : cluster * config.n_simt_cores_per_cluster + core < config.num_shader := by
      have below := cores core List.mem_cons_self
      have next := Nat.mul_le_mul_right config.n_simt_cores_per_cluster (Nat.succ_le_of_lt inside)
      rw [config.num_shader_eq]
      rw [Nat.succ_mul] at next
      omega
    cases keep m _ heap sidInside holds with
    | inr fails =>
      refine Or.inr ⟨fails.1, ?_⟩
      rw [GpgpuSim.offer_in_turn, fails.2]
      rfl
    | inl done =>
      obtain ⟨taken, m', run, holds'⟩ := done
      cases taken with
      | true =>
        refine Or.inl ⟨1, _, ?_, next m' (Function.update m'.m_cta_issue_next_core cluster core) holds'⟩
        rw [GpgpuSim.offer_in_turn, run]
        rfl
      | false =>
        have rest' := ih m' (fun c member => cores c (List.mem_cons_of_mem _ member)) holds'
        have step : GpgpuSim.offer_in_turn config heap cluster (core :: rest) m =
            GpgpuSim.offer_in_turn config heap cluster rest m' := by
          rw [GpgpuSim.offer_in_turn, run]
          rfl
        rwa [step]

theorem OffersKeep.issue_block2core (keep : OffersKeep config P aborts)
    (next : ∀ m next_core, P m → P { m with m_cta_issue_next_core := next_core })
    (total : ∀ m n, P m → P { m with m_total_cta_launched := n })
    (heap : Allocator) {cluster : Nat} (inside : cluster < config.n_simt_clusters) (holds : P m) :
    (∃ m', m.issue_block2core config heap cluster = .ok m' ∧ P m') ∨
      aborts ∧ m.issue_block2core config heap cluster = .error .max_cta := by
  have cores : ∀ core ∈ (List.range config.n_simt_cores_per_cluster).map fun i =>
      (i + m.m_cta_issue_next_core cluster + 1) % config.n_simt_cores_per_cluster,
      core < config.n_simt_cores_per_cluster := by
    intro core member
    obtain ⟨i, range, rfl⟩ := List.mem_map.mp member
    exact Nat.mod_lt _ (Nat.zero_lt_of_lt (List.mem_range.mp range))
  cases keep.offer_in_turn next heap inside _ m cores holds with
  | inl done =>
    obtain ⟨num, m', run, holds'⟩ := done
    refine Or.inl ⟨_, ?_, total m' (m'.m_total_cta_launched + num) holds'⟩
    rw [GpgpuSim.issue_block2core, run]
    rfl
  | inr fails =>
    refine Or.inr ⟨fails.1, ?_⟩
    rw [GpgpuSim.issue_block2core, fails.2]
    rfl

end Rounds

/-! ## Exits -/

section Exits

variable {t : Nat}

/-- The core has lost its kernel, whose counters are now those of `k`. -/
def GpgpuSim.unbind (m : GpgpuSim) (sid uid : Nat) (k : KernelInfo) : GpgpuSim :=
  { m with
    kernels := Function.update m.kernels uid k
    cores := Function.update m.cores sid { m.cores sid with m_kernel := none } }

/-- The kernel in slot `n` is done. -/
def GpgpuSim.finish (m : GpgpuSim) (uid n : Nat) : GpgpuSim :=
  { m with
    m_finished_kernel := m.m_finished_kernel ++ [uid]
    m_running_kernels := m.m_running_kernels.set n none
    done_calls := m.done_calls ++ [uid] }

def GpgpuSim.completes (config : Config) (m : GpgpuSim) (k : KernelInfo) : Bool :=
  !(!m.hit_max_cta_count config && !k.no_more_ctas_to_run) && !k.running

theorem completes_eq (config : Config) (m : GpgpuSim) (uid : Nat) (k : KernelInfo) :
    (!({ m with kernels := Function.update m.kernels uid k } : GpgpuSim).kernel_more_cta_left config
      (some uid) && !k.running) = m.completes config k := by
  simp only [GpgpuSim.kernel_more_cta_left, GpgpuSim.hit_max_cta_count, Function.update_self]
  rfl

section Release

variable {k : KernelInfo} (hkernel : (m.cores sid).m_kernel = some uid)
  (decremented : (m.kernels uid).dec_running = some k)

include hkernel

theorem release_kernel_notRunning (none_ : (m.kernels uid).dec_running = none) :
    m.release_kernel config sid = .error .dec_running := by
  simp only [GpgpuSim.release_kernel, hkernel, none_]

include decremented

theorem release_kernel_unbinds (more : m.completes config k = false) :
    m.release_kernel config sid = .ok (m.unbind sid uid k) := by
  simp only [GpgpuSim.release_kernel, hkernel, decremented, completes_eq, more]
  rfl

theorem release_kernel_finishes (last : m.completes config k = true) {n : Nat}
    (found : m.m_running_kernels.findIdx? (· == some uid) = some n) :
    m.release_kernel config sid = .ok ((m.unbind sid uid k).finish uid n) := by
  simp only [GpgpuSim.release_kernel, hkernel, decremented, completes_eq, last, if_true,
    GpgpuSim.set_kernel_done, found]
  rfl

theorem release_kernel_notFound (last : m.completes config k = true)
    (absent : m.m_running_kernels.findIdx? (· == some uid) = none) :
    m.release_kernel config sid = .error .set_kernel_done := by
  simp only [GpgpuSim.release_kernel, hkernel, decremented, completes_eq, last, if_true,
    GpgpuSim.set_kernel_done, absent]
  rfl

end Release

/-- What `fetch` makes of a thread that has exited. -/
inductive Fetches (config : Config) (m : GpgpuSim) (sid t slot : Nat) : Prop where
  | stays : ¬ ((m.cores sid).m_cta_status slot = 1 ∧ (m.cores sid).m_n_active_cta = 1) →
      m.fetch_exit config sid t = .ok (m.leave sid slot t) → Fetches config m sid t slot
  | unbinds {uid : Nat} {k : KernelInfo} : (m.cores sid).m_cta_status slot = 1 →
      (m.cores sid).m_n_active_cta = 1 → (m.cores sid).m_kernel = some uid →
      (m.kernels uid).dec_running = some k → m.completes config k = false →
      m.fetch_exit config sid t = .ok ((m.leave sid slot t).unbind sid uid k) →
      Fetches config m sid t slot
  | finishes {uid n : Nat} {k : KernelInfo} : (m.cores sid).m_cta_status slot = 1 →
      (m.cores sid).m_n_active_cta = 1 → (m.cores sid).m_kernel = some uid →
      (m.kernels uid).dec_running = some k → m.completes config k = true →
      m.m_running_kernels.findIdx? (· == some uid) = some n →
      m.fetch_exit config sid t = .ok (((m.leave sid slot t).unbind sid uid k).finish uid n) →
      Fetches config m sid t slot
  | notRunning {uid : Nat} : (m.cores sid).m_kernel = some uid →
      (m.kernels uid).dec_running = none → m.fetch_exit config sid t = .error .dec_running →
      Fetches config m sid t slot
  | notFound {uid : Nat} : (m.cores sid).m_kernel = some uid →
      m.m_running_kernels.findIdx? (· == some uid) = none →
      m.fetch_exit config sid t = .error .set_kernel_done → Fetches config m sid t slot

/-- The core when its last block has ended and its kernel is not yet released. -/
def GpgpuSim.emptied (m : GpgpuSim) (sid slot t : Nat) : GpgpuSim :=
  { m with
    cores := Function.update m.cores sid
      { m.cores sid with
        m_active := Function.update (m.cores sid).m_active t false
        m_cta_status := Function.update (m.cores sid).m_cta_status slot 0
        m_n_active_cta := 0 } }

/-- What `fetch` does last. -/
def GpgpuSim.fetched (m : GpgpuSim) (sid t : Nat) : GpgpuSim :=
  { m with
    cores := Function.update m.cores sid
      { m.cores sid with
        m_not_completed := (m.cores sid).m_not_completed - 1
        m_active_threads := (m.cores sid).m_active_threads.erase t } }

theorem fetch_exit_of_empty {slot : Nat}
    (warp : (m.cores sid).m_warp_cta_id (t / config.warp_size) = slot)
    (last : (m.cores sid).m_cta_status slot = 1) (only : (m.cores sid).m_n_active_cta = 1) :
    m.fetch_exit config sid t = (m.emptied sid slot t).release_kernel config sid >>= fun m' =>
      if (m'.cores sid).m_thread t = none then .error .fetch else pure (m'.fetched sid t) := by
  simp only [GpgpuSim.fetch_exit, GpgpuSim.register_cta_thread_exit, warp, Function.update_self, last,
    only, Nat.one_ne_zero, if_false, Nat.sub_self, if_true, Function.update_idem]
  rfl

theorem fetch_exit_fetches {thd slot : Nat} (onCore : (m.cores sid).m_thread t = some thd)
    (warp : (m.cores sid).m_warp_cta_id (t / config.warp_size) = slot)
    (occupied : (m.cores sid).m_cta_status slot ≠ 0) (positive : (m.cores sid).m_n_active_cta ≠ 0)
    (hkernel : (m.cores sid).m_kernel = some uid) : Fetches config m sid t slot := by
  by_cases empties : (m.cores sid).m_cta_status slot = 1 ∧ (m.cores sid).m_n_active_cta = 1
  · obtain ⟨last, only⟩ := empties
    have fetch := fetch_exit_of_empty warp last only
    have bound : ((m.emptied sid slot t).cores sid).m_kernel = some uid := by
      simp only [GpgpuSim.emptied, Function.update_self, hkernel]
    cases decremented : (m.kernels uid).dec_running with
    | none =>
      refine .notRunning hkernel decremented ?_
      rw [fetch, release_kernel_notRunning bound decremented]
      rfl
    | some k =>
      cases completes : m.completes config k with
      | false =>
        refine .unbinds last only hkernel decremented completes ?_
        rw [fetch, release_kernel_unbinds bound decremented completes]
        simp [GpgpuSim.emptied, GpgpuSim.fetched, GpgpuSim.unbind, GpgpuSim.leave, exited, bind,
          Except.bind, pure, Except.pure, onCore, last, only]
      | true =>
        cases found : m.m_running_kernels.findIdx? (· == some uid) with
        | none =>
          refine .notFound hkernel found ?_
          rw [fetch, release_kernel_notFound bound decremented completes found]
          rfl
        | some n =>
          refine .finishes last only hkernel decremented completes found ?_
          rw [fetch, release_kernel_finishes bound decremented completes found]
          simp [GpgpuSim.emptied, GpgpuSim.fetched, GpgpuSim.unbind, GpgpuSim.finish, GpgpuSim.leave,
            exited, bind, Except.bind, pure, Except.pure, onCore, last, only]
  · refine .stays empties ?_
    by_cases last : (m.cores sid).m_cta_status slot = 1
    · have more : (m.cores sid).m_n_active_cta - 1 ≠ 0 := by
        have others : (m.cores sid).m_n_active_cta ≠ 1 := fun only => empties ⟨last, only⟩
        omega
      simp [GpgpuSim.fetch_exit, GpgpuSim.register_cta_thread_exit, bind, Except.bind, warp, last, more,
        onCore, GpgpuSim.leave, exited]
      rfl
    · have more : (m.cores sid).m_cta_status slot - 1 ≠ 0 := by omega
      simp [GpgpuSim.fetch_exit, GpgpuSim.register_cta_thread_exit, bind, Except.bind, warp, last, more,
        onCore, GpgpuSim.leave, exited, occupied]
      rfl

end Exits

/-! ## Every step keeps the blocks apart -/

section Steps

variable {t : Nat}

/-- The memory invariant, with any numbers of blocks. -/
def MemoryKept (config : Config) (m : GpgpuSim) : Prop := ∃ issued, MemoryInv config m issued

theorem memoryKept_offers (config : Config) : OffersKeep config (MemoryKept config) True := by
  intro m sid heap inside kept
  obtain ⟨issued, inv⟩ := kept
  cases (inv.binds inside (bind_kernel_binds config m sid)).take_block heap sid with
  | nothing run _ =>
    exact Or.inl ⟨false, _, run, issued, inv.binds inside (bind_kernel_binds config m sid)⟩
  | block _ run _ _ _ inv' => exact Or.inl ⟨true, _, run, _, inv'⟩
  | aborts _ _ run => exact Or.inr ⟨trivial, run⟩

theorem MemoryInv.issue_block2core (inv : MemoryInv config m issued) (heap : Allocator)
    {cluster : Nat} (inside : cluster < config.n_simt_clusters) :
    (∃ m', m.issue_block2core config heap cluster = .ok m' ∧ MemoryKept config m') ∨
      m.issue_block2core config heap cluster = .error .max_cta := by
  have round := (memoryKept_offers config).issue_block2core
    (fun _ _ kept => kept.imp fun _ inv => inv.congr rfl rfl rfl rfl fun _ member => member)
    (fun _ _ kept => kept.imp fun _ inv => inv.congr rfl rfl rfl rfl fun _ member => member)
    heap inside ⟨issued, inv⟩
  exact round.imp id And.right

theorem MemoryInv.fetches (inv : MemoryInv config m issued) (active : (m.cores sid).m_active t = true) :
    Fetches config m sid t ((m.cores sid).m_warp_cta_id (t / config.warp_size)) := by
  obtain ⟨uid, slot, hkernel, warp, occupied, i, -, -, thd, onCore⟩ := inv.slot_of_active active
  refine fetch_exit_fetches onCore rfl (warp ▸ occupied) (fun idle => ?_) hkernel
  exact occupied ((inv.core sid).status_zero idle slot)

theorem MemoryInv.unbind (inv : MemoryInv config m issued) {k : KernelInfo}
    (active : (m.cores sid).m_active t = true)
    (ended : ∀ thd, (m.cores sid).m_thread t = some thd → (m.sim.threads thd).m_thread_done = true)
    (last : (m.cores sid).m_cta_status ((m.cores sid).m_warp_cta_id (t / config.warp_size)) = 1)
    (only : (m.cores sid).m_n_active_cta = 1) (decremented : (m.kernels uid).dec_running = some k) :
    MemoryInv config ((m.leave sid ((m.cores sid).m_warp_cta_id (t / config.warp_size)) t).unbind
      sid uid k) issued := by
  have left := inv.leave active ended
  generalize slot_eq : (m.cores sid).m_warp_cta_id (t / config.warp_size) = slot at *
  have idle : ((m.leave sid slot t).cores sid).m_n_active_cta = 0 := by
    simp only [GpgpuSim.leave, Function.update_self, exited, last, only, if_true, Nat.sub_self]
  have noKernel (uid' : Nat) (same : none = some uid') :
      (m.leave sid slot t).Launched uid' ∧ sid < config.num_shader := by cases same
  refine left.rebind idle noKernel rfl rfl (fun _ member => member) (fun uid' => ?_) rfl
  rw [KernelInfo.dec_running] at decremented
  split at decremented
  · obtain rfl := Option.some.inj decremented
    by_cases same : uid' = uid
    · subst same
      exact ⟨(m.kernels uid').m_num_cores_running - 1, by simp [GpgpuSim.unbind, GpgpuSim.leave]⟩
    · exact ⟨(m.kernels uid').m_num_cores_running, by simp [GpgpuSim.unbind, GpgpuSim.leave, same]⟩
  · cases decremented

theorem MemoryInv.finish (inv : MemoryInv config m issued) (uid n : Nat) :
    MemoryInv config (m.finish uid n) issued := by
  refine inv.congr rfl rfl rfl rfl fun uid' member => ?_
  cases List.mem_or_eq_of_mem_set member with
  | inl before => exact before
  | inr gone => cases gone

theorem memoryKept_step {m' : GpgpuSim} {e : Event} (kept : MemoryKept config m)
    (possible : m.Possible config e) (run : m.step config e = .ok m') : MemoryKept config m' := by
  obtain ⟨issued, inv⟩ := kept
  cases e with
  | launch gridDim blockDim smem regs =>
    simp only [GpgpuSim.step, GpgpuSim.launch] at run
    split at run
    · cases run
    · split at run
      · cases run
      · rename_i n found
        obtain rfl := Except.ok.inj run
        exact ⟨_, inv.withKernel gridDim possible.1 smem regs n⟩
  | offer heap sid =>
    cases memoryKept_offers config m sid heap possible ⟨issued, inv⟩ with
    | inl done =>
      obtain ⟨taken, next, offered, kept⟩ := done
      simp only [GpgpuSim.step, offered] at run
      obtain rfl := Except.ok.inj run
      exact kept
    | inr fails =>
      simp only [GpgpuSim.step, fails.2] at run
      cases run
  | issue_block2core heap cluster =>
    cases inv.issue_block2core heap possible with
    | inl done =>
      obtain ⟨next, issues, kept⟩ := done
      obtain rfl := Except.ok.inj (issues.symm.trans run)
      exact kept
    | inr fails => cases fails.symm.trans run
  | exit sid t =>
    obtain ⟨-, -, thd, onCore, running⟩ := possible
    obtain ⟨next, exits, inv', -⟩ := inv.exit_impl onCore running
    obtain rfl := Except.ok.inj (exits.symm.trans run)
    exact ⟨issued, inv'⟩
  | fetch_exit sid t =>
    obtain ⟨-, active, ended⟩ := possible
    cases inv.fetches active with
    | stays _ fetch =>
      obtain rfl := Except.ok.inj (fetch.symm.trans run)
      exact ⟨issued, inv.leave active ended⟩
    | unbinds last only _ decremented _ fetch =>
      obtain rfl := Except.ok.inj (fetch.symm.trans run)
      exact ⟨issued, inv.unbind active ended last only decremented⟩
    | finishes last only _ decremented _ _ fetch =>
      obtain rfl := Except.ok.inj (fetch.symm.trans run)
      exact ⟨issued, (inv.unbind active ended last only decremented).finish _ _⟩
    | notRunning _ _ fetch => cases fetch.symm.trans run
    | notFound _ _ fetch => cases fetch.symm.trans run
  | finished_kernel =>
    obtain rfl := Except.ok.inj run
    exact ⟨issued, inv.congr rfl rfl rfl rfl fun _ member => member⟩

theorem Reachable.memoryKept (reachable : Reachable config m) : MemoryKept config m := by
  induction reachable with
  | new => exact ⟨_, memoryInv_new config⟩
  | step _ possible run kept => exact memoryKept_step kept possible run

end Steps

end AesOnGpu.Cta.Dispatch
