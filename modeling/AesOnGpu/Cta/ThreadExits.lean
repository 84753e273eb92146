import AesOnGpu.Cta.Residents

/-! # A thread leaves its core

`fetch` takes one thread of a block away. The last thread of the last block leaves a core that
can be bound to any kernel.
-/

namespace AesOnGpu.Cta.Dispatch

variable {config : Config} {kernels : Nat → KernelInfo} {s : PtxSim} {sid : Nat}
  {core : ShaderCore}

/-- The core without hardware thread `t` of the block in slot `slot`. -/
def exited (core : ShaderCore) (slot t : Nat) : ShaderCore :=
  { core with
    m_active := Function.update core.m_active t false
    m_cta_status := Function.update core.m_cta_status slot (core.m_cta_status slot - 1)
    m_n_active_cta :=
      if core.m_cta_status slot = 1 then core.m_n_active_cta - 1 else core.m_n_active_cta
    m_not_completed := core.m_not_completed - 1
    m_active_threads := core.m_active_threads.erase t }

theorem CoreInv.status_zero (h : CoreInv config kernels s sid core)
    (hidle : core.m_n_active_cta = 0) (slot : Nat) : core.m_cta_status slot = 0 := by
  by_contra hstatus
  have hempty := Finset.card_eq_zero.mp (h.n_active_eq.symm.trans hidle)
  have hmem : slot ∈ (Finset.range MAX_CTA_PER_SHADER).filter
      fun slot => core.m_cta_status slot ≠ 0 :=
    Finset.mem_filter.mpr ⟨Finset.mem_range.mpr (h.status_lt hstatus), hstatus⟩
  rw [hempty] at hmem
  exact Finset.notMem_empty _ hmem

theorem CoreInv.inactive (h : CoreInv config kernels s sid core)
    (hidle : core.m_n_active_cta = 0) (t : Nat) : core.m_active t = false := by
  cases hactive : core.m_active t with
  | false => rfl
  | true =>
      obtain ⟨_, slot, _, _, hstatus, _⟩ := h.active_slot hactive
      exact absurd (h.status_zero hidle slot) hstatus

theorem CoreInv.idle_of_none (h : CoreInv config kernels s sid core)
    (hnone : core.m_kernel = none) : core.m_n_active_cta = 0 := by
  rw [h.n_active_eq, Finset.card_eq_zero, Finset.filter_eq_empty_iff]
  intro slot _ hstatus
  obtain ⟨uid, hkernel⟩ := h.kernel_of_status hstatus
  rw [hnone] at hkernel
  cases hkernel

theorem CoreInv.not_completed_of_idle (h : CoreInv config kernels s sid core)
    (hidle : core.m_n_active_cta = 0) : core.m_not_completed = 0 := by
  rw [h.not_completed_eq]
  exact Finset.sum_eq_zero fun slot _ => h.status_zero hidle slot

theorem CoreInv.set_kernel (h : CoreInv config kernels s sid core)
    (hidle : core.m_n_active_cta = 0) {kernel : Option Nat}
    (hsid : kernel ≠ none → sid < config.num_shader) :
    CoreInv config kernels s sid { core with m_kernel := kernel } := by
  constructor
  case sid_lt =>
    intro uid hkernel
    apply hsid
    rw [show kernel = some uid from hkernel]
    exact Option.some_ne_none uid
  case status_lt => exact h.status_lt
  case n_active_eq => exact h.n_active_eq
  case not_completed_eq => exact h.not_completed_eq
  case active_iff => exact h.active_iff
  case active_slot =>
    intro t hactive
    have hnot := h.inactive hidle t
    rw [hnot] at hactive
    cases hactive
  case kernel_of_status => exact fun {slot} hstatus => absurd (h.status_zero hidle slot) hstatus
  case slot => exact fun {_ slot} _ hstatus => absurd (h.status_zero hidle slot) hstatus
  case thread_live => exact h.thread_live
  case thread_hw => exact h.thread_hw
  case thread_done => exact h.thread_done

theorem SlotInv.exited_status {uid slot i : Nat} (h : SlotInv config kernels s sid core uid slot)
    (hi : i < (kernels uid).threads_per_cta)
    (hactive : core.m_active (config.start_thread (kernels uid).threads_per_cta slot + i) = true) :
    core.m_cta_status slot - 1 = ((Finset.range (kernels uid).threads_per_cta).filter fun i' =>
      Function.update core.m_active (config.start_thread (kernels uid).threads_per_cta slot + i)
        false (config.start_thread (kernels uid).threads_per_cta slot + i') = true).card := by
  have hmem : i ∈ (Finset.range (kernels uid).threads_per_cta).filter fun i' =>
      core.m_active (config.start_thread (kernels uid).threads_per_cta slot + i') = true :=
    Finset.mem_filter.mpr ⟨Finset.mem_range.mpr hi, hactive⟩
  rw [h.status_eq, ← Finset.card_erase_of_mem hmem]
  congr 1
  ext i'
  rw [Finset.mem_erase, Finset.mem_filter, Finset.mem_filter]
  by_cases heq : i' = i
  · subst heq
    simp
  · rw [Function.update_of_ne (by omega)]
    exact ⟨fun hin => hin.2, fun hin => ⟨heq, hin⟩⟩

theorem CoreInv.exited_n_active (h : CoreInv config kernels s sid core) {slot : Nat}
    (hstatus : core.m_cta_status slot ≠ 0) :
    (if core.m_cta_status slot = 1 then core.m_n_active_cta - 1 else core.m_n_active_cta) =
      ((Finset.range MAX_CTA_PER_SHADER).filter fun c =>
        Function.update core.m_cta_status slot (core.m_cta_status slot - 1) c ≠ 0).card := by
  by_cases hlast : core.m_cta_status slot = 1
  · have hvacated : Function.update core.m_cta_status slot 0 slot = 0 := Function.update_self _ _ _
    have hcard := card_occupied_update (h.status_lt hstatus) hvacated Nat.one_ne_zero
    rw [Function.update_idem, ← hlast, Function.update_eq_self] at hcard
    rw [if_pos hlast, h.n_active_eq, hcard, hlast, Nat.add_sub_cancel]
  · rw [if_neg hlast, h.n_active_eq]
    congr 1
    apply Finset.filter_congr
    intro c _
    by_cases hc : c = slot
    · subst hc
      rw [Function.update_self]
      omega
    · rw [Function.update_of_ne hc]

theorem CoreInv.exited {uid slot i : Nat} (h : CoreInv config kernels s sid core)
    (hkernel : core.m_kernel = some uid) (hstatus : core.m_cta_status slot ≠ 0)
    (hi : i < (kernels uid).threads_per_cta)
    (hactive : core.m_active (config.start_thread (kernels uid).threads_per_cta slot + i) = true)
    (hdone : ∀ p, core.m_thread (config.start_thread (kernels uid).threads_per_cta slot + i) =
      some p → (s.threads p).m_thread_done = true) :
    CoreInv config kernels s sid
      (exited core slot (config.start_thread (kernels uid).threads_per_cta slot + i)) := by
  have hslot := h.status_lt hstatus
  have hcount := (h.slot hkernel hstatus).exited_status hi hactive
  have hother : ∀ {c}, c ≠ slot → (Dispatch.exited core slot
      (config.start_thread (kernels uid).threads_per_cta slot + i)).m_cta_status c =
        core.m_cta_status c :=
    fun hc => Function.update_of_ne hc _ _
  have hstill : ∀ {t}, (Dispatch.exited core slot
        (config.start_thread (kernels uid).threads_per_cta slot + i)).m_active t = true →
      t ≠ config.start_thread (kernels uid).threads_per_cta slot + i ∧ core.m_active t = true := by
    intro t ht
    have hne : t ≠ config.start_thread (kernels uid).threads_per_cta slot + i := by
      rintro rfl
      simp [Dispatch.exited] at ht
    exact ⟨hne, by simpa [Dispatch.exited, hne] using ht⟩
  constructor
  case sid_lt => exact h.sid_lt
  case status_lt =>
    intro c hc
    by_cases heq : c = slot
    · exact heq ▸ hslot
    · exact h.status_lt (hother heq ▸ hc)
  case n_active_eq => exact h.exited_n_active hstatus
  case not_completed_eq =>
    have hsum := sum_status_update core.m_cta_status hslot (core.m_cta_status slot - 1)
    have hold := h.not_completed_eq
    show core.m_not_completed - 1 = ∑ c ∈ Finset.range MAX_CTA_PER_SHADER,
      Function.update core.m_cta_status slot (core.m_cta_status slot - 1) c
    omega
  case active_iff =>
    intro t
    show t ∈ core.m_active_threads.erase _ ↔ Function.update core.m_active _ false t = true
    rw [Finset.mem_erase, h.active_iff]
    by_cases ht : t = config.start_thread (kernels uid).threads_per_cta slot + i
    · simp [ht]
    · simp [ht]
  case active_slot =>
    intro t ht
    obtain ⟨hne, hold⟩ := hstill ht
    obtain ⟨uid', slot', i', hkernel', hstatus', hi', heq⟩ := h.active_slot hold
    obtain rfl : uid = uid' := Option.some.inj (hkernel.symm.trans hkernel')
    refine ⟨uid, slot', i', hkernel, ?_, hi', heq⟩
    by_cases hc : slot' = slot
    · -- this thread is one of those that are left in the slot
      subst hc
      show Function.update core.m_cta_status slot' (core.m_cta_status slot' - 1) slot' ≠ 0
      rw [Function.update_self, hcount]
      apply Finset.card_ne_zero_of_mem (a := i')
      rw [Finset.mem_filter, Finset.mem_range]
      exact ⟨hi', heq ▸ ht⟩
    · rwa [hother hc]
  case kernel_of_status => exact fun _ => ⟨uid, hkernel⟩
  case slot =>
    intro uid' slot' hkernel' hstatus'
    obtain rfl : uid = uid' := Option.some.inj (hkernel.symm.trans hkernel')
    by_cases hc : slot' = slot
    · subst hc
      have hinv := h.slot hkernel hstatus
      refine ⟨?_, hinv.warp_eq, hinv.cta_eq, hinv.memory⟩
      exact (Function.update_self _ _ _).trans hcount
    · rw [hother hc] at hstatus'
      refine (h.slot hkernel hstatus').frame rfl (Grown.refl s) (hother hc) ?_
        (fun _ _ _ _ => Later.refl _)
      intro i' hi'
      refine ⟨Function.update_of_ne ?_ _ _, rfl, rfl, rfl⟩
      intro heq
      have hpadded := config.le_padded_cta_size (kernels uid).threads_per_cta
      exact hc (config.start_thread_add_inj (hi'.trans_le hpadded) (hi.trans_le hpadded) heq).1
  case thread_live => exact h.thread_live
  case thread_hw => exact h.thread_hw
  case thread_done =>
    intro t p hp ht
    by_cases heq : t = config.start_thread (kernels uid).threads_per_cta slot + i
    · subst heq
      exact hdone p hp
    · exact h.thread_done hp (by simpa [Dispatch.exited, heq] using ht)

end AesOnGpu.Cta.Dispatch
