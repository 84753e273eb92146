import AesOnGpu.Cta.BlockCreation
import AesOnGpu.Cta.Dispatch

/-! # One block on one core

`issue_block2core` calls `ptx_sim_init_thread` once for each hardware thread: the first call
creates the block, every call removes what the hardware thread had before and starts the
next thread of the block.
-/

namespace AesOnGpu.Cta.Dispatch

open PtxSim (CtaCreated Removed fresh_thread)

section Threads

/-- A block of kernel `k` on the hardware threads from `start` on. -/
structure Place where
  uid : Nat
  sid : Nat
  slot : Nat
  start : Nat
  k : KernelInfo

variable (place : Place) (warp_size : Nat)

/-- The thread that hardware thread `start + i` has started. -/
def started_thread (i shared_mem cta_info l : Nat) : PtxThreadInfo :=
  { fresh_thread place.uid place.k.m_next_cta (place.k.m_block_dim.nth i) shared_mem cta_info l with
    m_hw_sid := place.sid
    m_hw_ctaid := place.slot
    m_hw_wid := (place.start + i) / warp_size
    m_hw_tid := place.start + i }

/-- The block has been created; the first `removed` hardware threads have lost their old
threads and the first `started` have their new ones. -/
structure Started (s₀ s : PtxSim) (thread₀ : Nat → Option Nat) (sm_idx shared_mem cta_info : Nat)
    (ps : List Nat) (removed started : Nat) : Prop where
  sound : s.Sound
  length_eq : ps.length = place.k.threads_per_cta
  nodup : ps.Nodup
  live_iff : ∀ t, t ∈ s.live_threads ↔
    t ∈ ps ∨ (t ∈ s₀.live_threads ∧ ∀ i < removed, thread₀ (place.start + i) ≠ some t)
  old_notin : ∀ t p, thread₀ t = some p → (∀ i < removed, t ≠ place.start + i) → p ∉ ps
  fresh : ∀ p ∈ ps, p ∈ s₀.live_threads → thread₀ place.start = some p
  frame : ∀ t, t ∉ ps → s.threads t = s₀.threads t
  record : ∀ i p, ps[i]? = some p → ∃ l,
    s.local_memory_lookup place.sid (place.start + i) = some l ∧
      s.threads p =
        if i < started then started_thread place warp_size i shared_mem cta_info l
        else fresh_thread place.uid place.k.m_next_cta (place.k.m_block_dim.nth i) shared_mem
          cta_info l
  shared_eq : s.shared_memory_lookup sm_idx = some shared_mem
  cta_eq : s.ptx_cta_lookup sm_idx = some cta_info
  shared_mono : ∀ {i p}, s₀.shared_memory_lookup i = some p → s.shared_memory_lookup i = some p
  cta_mono : ∀ {i p}, s₀.ptx_cta_lookup i = some p → s.ptx_cta_lookup i = some p
  local_mono : ∀ {i t p}, s₀.local_memory_lookup i t = some p →
    s.local_memory_lookup i t = some p
  created_eq : s.created = s₀.created ++ (List.range place.k.threads_per_cta).map fun i =>
    ⟨place.uid, place.k.m_next_cta, place.k.m_block_dim.nth i, place.sid, place.start + i⟩

variable {place warp_size}
variable {s₀ s : PtxSim} {thread₀ : Nat → Option Nat} {sm_idx shared_mem cta_info : Nat}
  {ps : List Nat}

/-- The threads of the core before a block is placed. -/
structure Vacant (place : Place) (s₀ : PtxSim) (thread₀ : Nat → Option Nat) : Prop where
  live : ∀ {t p}, thread₀ t = some p → p ∈ s₀.live_threads
  inj : ∀ {t t' p}, thread₀ t = some p → thread₀ t' = some p → t = t'
  done : ∀ i < place.k.threads_per_cta, ∀ p, thread₀ (place.start + i) = some p →
    (s₀.threads p).m_thread_done = true

theorem Started.of_created (hvacant : Vacant place s₀ thread₀) {s₁ : PtxSim}
    (hremoved : s₀.Removed s₁ (thread₀ place.start))
    (hcreated : s₁.CtaCreated s sm_idx place.uid place.sid place.start place.k shared_mem
      cta_info ps) :
    Started place warp_size s₀ s thread₀ sm_idx shared_mem cta_info ps 1 0 := by
  constructor
  case sound => exact hcreated.sound
  case length_eq => exact hcreated.length_eq
  case nodup => exact hcreated.nodup
  case live_iff =>
    intro t
    rw [hcreated.live_eq, Finset.mem_union, hremoved.live_iff, List.mem_toFinset, or_comm]
    simp
  case old_notin =>
    intro t p hp hother hin
    apply hcreated.fresh p hin
    rw [hremoved.live_iff]
    refine ⟨hvacant.live hp, fun hfirst => ?_⟩
    exact hother 0 Nat.one_pos (hvacant.inj hp hfirst)
  case fresh =>
    intro p hin hlive
    by_contra hold
    exact hcreated.fresh p hin ((hremoved.live_iff p).mpr ⟨hlive, hold⟩)
  case frame =>
    intro t ht
    rw [hcreated.frame t ht, hremoved.threads_eq]
  case record =>
    intro i p hp
    obtain ⟨l, hlocal, hrecord⟩ := hcreated.record i p hp
    rw [Nat.add_comm] at hlocal
    exact ⟨l, hlocal, by rw [hrecord, if_neg (Nat.not_lt_zero i)]⟩
  case shared_eq => exact hcreated.shared_eq
  case cta_eq => exact hcreated.cta_eq
  case shared_mono => exact fun h => hcreated.shared_mono (by rw [hremoved.shared_eq, h])
  case cta_mono => exact fun h => hcreated.cta_mono (by rw [hremoved.cta_eq, h])
  case local_mono => exact fun h => hcreated.local_mono (by rw [hremoved.local_eq, h])
  case created_eq =>
    rw [hcreated.created_eq, hremoved.created_eq]
    simp [Nat.add_comm]

theorem Started.removed {removed started : Nat}
    (hstarted : Started place warp_size s₀ s thread₀ sm_idx shared_mem cta_info ps removed started)
    {s₁ : PtxSim} (hremoved : s.Removed s₁ (thread₀ (place.start + removed))) :
    Started place warp_size s₀ s₁ thread₀ sm_idx shared_mem cta_info ps (removed + 1) started := by
  constructor
  case sound => exact hremoved.sound
  case length_eq => exact hstarted.length_eq
  case nodup => exact hstarted.nodup
  case live_iff =>
    intro t
    rw [hremoved.live_iff, hstarted.live_iff]
    constructor
    · rintro ⟨hin | ⟨hlive, hnot⟩, hother⟩
      · exact Or.inl hin
      · refine Or.inr ⟨hlive, fun i hi => ?_⟩
        cases Nat.lt_succ_iff_lt_or_eq.mp hi with
        | inl hlt => exact hnot i hlt
        | inr heq => exact heq ▸ hother
    · rintro (hin | ⟨hlive, hnot⟩)
      · refine ⟨Or.inl hin, fun hold => ?_⟩
        exact hstarted.old_notin _ _ hold (fun i hi heq => by omega) hin
      · exact ⟨Or.inr ⟨hlive, fun i hi => hnot i (Nat.lt_succ_of_lt hi)⟩,
          hnot removed (Nat.lt_succ_self _)⟩
  case old_notin =>
    exact fun t p hp hother => hstarted.old_notin t p hp
      (fun i hi => hother i (Nat.lt_succ_of_lt hi))
  case fresh => exact hstarted.fresh
  case frame => exact fun t ht => by rw [hremoved.threads_eq, hstarted.frame t ht]
  case record =>
    intro i p hp
    rw [hremoved.threads_eq, hremoved.local_eq]
    exact hstarted.record i p hp
  case shared_eq => rw [hremoved.shared_eq, hstarted.shared_eq]
  case cta_eq => rw [hremoved.cta_eq, hstarted.cta_eq]
  case shared_mono => exact fun h => by rw [hremoved.shared_eq, hstarted.shared_mono h]
  case cta_mono => exact fun h => by rw [hremoved.cta_eq, hstarted.cta_mono h]
  case local_mono => exact fun h => by rw [hremoved.local_eq, hstarted.local_mono h]
  case created_eq => rw [hremoved.created_eq, hstarted.created_eq]

theorem Started.init {removed started : Nat}
    (hstarted : Started place warp_size s₀ s thread₀ sm_idx shared_mem cta_info ps removed started)
    {thd : Nat} (hthd : ps[started]? = some thd) :
    Started place warp_size s₀
      (s.init thd place.sid place.slot ((place.start + started) / warp_size)
        (place.start + started))
      thread₀ sm_idx shared_mem cta_info ps removed (started + 1) := by
  constructor
  case sound => exact hstarted.sound.init _ _ _ _ _
  case length_eq => exact hstarted.length_eq
  case nodup => exact hstarted.nodup
  case live_iff => exact hstarted.live_iff
  case old_notin => exact hstarted.old_notin
  case fresh => exact hstarted.fresh
  case frame =>
    intro t ht
    have hne : t ≠ thd := by
      rintro rfl
      exact ht (List.mem_of_getElem? hthd)
    simp only [PtxSim.init, Function.update_of_ne hne]
    exact hstarted.frame t ht
  case record =>
    intro i p hp
    obtain ⟨l, hlocal, hrecord⟩ := hstarted.record i p hp
    refine ⟨l, hlocal, ?_⟩
    by_cases hi : i = started
    · subst hi
      obtain rfl : thd = p := Option.some.inj (hthd.symm.trans hp)
      rw [if_neg (Nat.lt_irrefl i)] at hrecord
      simp only [PtxSim.init, Function.update_self, if_pos (Nat.lt_succ_self i), hrecord]
      rfl
    · have hne : p ≠ thd := by
        rintro rfl
        have hlt := (List.getElem?_eq_some_iff.mp hp).1
        exact hi ((List.getElem?_inj hlt hstarted.nodup).mp (hp.trans hthd.symm))
      have hiff : i < started + 1 ↔ i < started := by omega
      simp only [PtxSim.init, Function.update_of_ne hne, hiff]
      exact hrecord
  case shared_eq => exact hstarted.shared_eq
  case cta_eq => exact hstarted.cta_eq
  case shared_mono => exact hstarted.shared_mono
  case cta_mono => exact hstarted.cta_mono
  case local_mono => exact hstarted.local_mono
  case created_eq => exact hstarted.created_eq

theorem Started.start_active {removed started threads_left : Nat}
    (hstarted : Started place warp_size s₀ s thread₀ sm_idx shared_mem cta_info ps removed started)
    (hleft : started + (threads_left + 1) = place.k.threads_per_cta) (k : KernelInfo) :
    ∃ thd, ps[started]? = some thd ∧
      s.start_active place.sid (place.start + started) (threads_left + 1) place.slot
          ((place.start + started) / warp_size) { k with m_active_threads := ps.drop started } =
        .ok (1, some thd, { k with m_active_threads := ps.drop (started + 1) },
          s.init thd place.sid place.slot ((place.start + started) / warp_size)
            (place.start + started)) := by
  have hlt : started < ps.length := by
    rw [hstarted.length_eq]
    omega
  refine ⟨ps[started], List.getElem?_eq_getElem hlt, ?_⟩
  have hdrop : ps.drop started = ps[started] :: ps.drop (started + 1) :=
    List.drop_eq_getElem_cons hlt
  have hlength : (ps[started] :: ps.drop (started + 1)).length ≤ threads_left + 1 := by
    rw [← hdrop, List.length_drop, hstarted.length_eq]
    omega
  simp only [PtxSim.start_active, hdrop, if_pos hlength]

/-- The core after `started` threads of the block have been started. -/
def coreAt (core : ShaderCore) (ps : List Nat) (slot start started : Nat) : ShaderCore :=
  { core with
    m_thread := fun t => if start ≤ t ∧ t < start + started then ps[t - start]? else core.m_thread t
    m_cta_id := fun t => if start ≤ t ∧ t < start + started then slot else core.m_cta_id t
    m_active := fun t => if start ≤ t ∧ t < start + started then true else core.m_active t }

theorem coreAt_zero (core : ShaderCore) (ps : List Nat) (slot start : Nat) :
    coreAt core ps slot start 0 = core := by
  have hnone : ∀ t, ¬ (start ≤ t ∧ t < start + 0) := by
    intro t
    omega
  simp only [coreAt, if_neg (hnone _)]

theorem update_range {β : Type*} (f g : Nat → β) (start n : Nat) :
    Function.update (fun t => if start ≤ t ∧ t < start + n then g t else f t) (start + n)
        (g (start + n)) =
      fun t => if start ≤ t ∧ t < start + (n + 1) then g t else f t := by
  funext t
  by_cases ht : t = start + n
  · subst ht
    rw [Function.update_self, if_pos (by omega)]
  · have hiff : (start ≤ t ∧ t < start + (n + 1)) ↔ (start ≤ t ∧ t < start + n) := by omega
    simp only [Function.update_of_ne ht, hiff]

theorem coreAt_succ (core : ShaderCore) (slot start : Nat) {started thd : Nat}
    (hthd : ps[started]? = some thd) :
    { coreAt core ps slot start started with
        m_thread := Function.update (coreAt core ps slot start started).m_thread
          (start + started) (some thd)
        m_cta_id := Function.update (coreAt core ps slot start started).m_cta_id
          (start + started) slot
        m_active := Function.update (coreAt core ps slot start started).m_active
          (start + started) true } =
      coreAt core ps slot start (started + 1) := by
  have hlast : some thd = ps[start + started - start]? := by
    rw [Nat.add_sub_cancel_left, hthd]
  simp only [coreAt]
  rw [hlast, update_range _ (fun t => ps[t - start]?), update_range _ (fun _ => slot),
    update_range _ (fun _ => true)]

theorem ptx_sim_init_thread_waiting {old : Option Nat} {s₁ : PtxSim} {k : KernelInfo}
    (hremove : s.remove_old old = .ok s₁) (hwaiting : k.m_active_threads ≠ [])
    (heap : Allocator) (config : ShaderConfig)
    (uid sid tid threads_left num_threads hw_cta_id hw_warp_id : Nat) :
    s.ptx_sim_init_thread heap config uid k old sid tid threads_left num_threads hw_cta_id
      hw_warp_id = s₁.start_active sid tid threads_left hw_cta_id hw_warp_id k := by
  rw [PtxSim.ptx_sim_init_thread, hremove]
  exact if_pos hwaiting

theorem ptx_sim_init_thread_new {old : Option Nat} {s₁ s₂ : PtxSim} {k k' : KernelInfo}
    {heap : Allocator} {config : ShaderConfig} {uid sid tid threads_left num_threads : Nat}
    (hremove : s.remove_old old = .ok s₁) (hnone : k.m_active_threads = [])
    (hmore : k.no_more_ctas_to_run = false) (hleft : k.threads_per_cta ≤ threads_left)
    (hroom : num_threads / k.threads_per_cta ≠ 0)
    (hcreate : s₁.create_cta heap config uid sid tid k = .ok (k', s₂))
    (hw_cta_id hw_warp_id : Nat) :
    s.ptx_sim_init_thread heap config uid k old sid tid threads_left num_threads hw_cta_id
      hw_warp_id = s₂.start_active sid tid threads_left hw_cta_id hw_warp_id k' := by
  rw [PtxSim.ptx_sim_init_thread, hremove]
  simp [bind, Except.bind, hnone, hmore, Nat.not_lt.mpr hleft, hroom, hcreate]

variable (config : Config)

theorem init_threads_cons {heap : Allocator} {uid sid slot threads_left i thd : Nat}
    {core : ShaderCore} {k k' : KernelInfo} {s' : PtxSim}
    (hcall : s.ptx_sim_init_thread heap config.toShaderConfig uid k (core.m_thread i) sid i
      (threads_left + 1) config.n_thread_per_shader slot (i / config.warp_size) =
        .ok (1, some thd, k', s'))
    {core' : ShaderCore} {rest : ShaderCore × KernelInfo × PtxSim}
    (hcore : { core with
      m_thread := Function.update core.m_thread i (some thd)
      m_cta_id := Function.update core.m_cta_id i slot
      m_active := Function.update core.m_active i true } = core')
    (hloop : ShaderCore.init_threads config heap uid sid slot threads_left (i + 1) core' k' s' =
      .ok (threads_left, rest)) :
    ShaderCore.init_threads config heap uid sid slot (threads_left + 1) i core k s =
      .ok (threads_left + 1, rest) := by
  rw [ShaderCore.init_threads, hcall]
  simp only [bind, Except.bind, hcore, hloop, pure, Except.pure, Nat.add_comm]

theorem Started.init_threads {core : ShaderCore} (hvacant : Vacant place s₀ core.m_thread)
    (heap : Allocator) (k : KernelInfo) :
    ∀ (threads_left : Nat) {started : Nat} {s : PtxSim},
      Started place config.warp_size s₀ s core.m_thread sm_idx shared_mem cta_info ps started
        started →
      started + threads_left = place.k.threads_per_cta →
      ∃ s', ShaderCore.init_threads config heap place.uid place.sid place.slot threads_left
          (place.start + started) (coreAt core ps place.slot place.start started)
          { k with m_active_threads := ps.drop started } s =
            .ok (threads_left, coreAt core ps place.slot place.start place.k.threads_per_cta,
              { k with m_active_threads := [] }, s') ∧
        Started place config.warp_size s₀ s' core.m_thread sm_idx shared_mem cta_info ps
          place.k.threads_per_cta place.k.threads_per_cta := by
  intro threads_left
  induction threads_left with
  | zero =>
      intro started s hstarted hleft
      rw [Nat.add_zero] at hleft
      subst hleft
      refine ⟨s, ?_, hstarted⟩
      rw [ShaderCore.init_threads, List.drop_eq_nil_of_le (Nat.le_of_eq hstarted.length_eq)]
  | succ threads_left ih =>
      intro started s hstarted hleft
      have hbefore : (coreAt core ps place.slot place.start started).m_thread
          (place.start + started) = core.m_thread (place.start + started) :=
        if_neg (by omega)
      have hdone : ∀ thd, core.m_thread (place.start + started) = some thd →
          (s.threads thd).m_thread_done = true := by
        intro thd hthd
        rw [hstarted.frame thd (hstarted.old_notin _ _ hthd (fun i hi heq => by omega))]
        exact hvacant.done started (by omega) thd hthd
      obtain ⟨s₁, hremove, hremoved⟩ := hstarted.sound.remove_old hdone
      have hnext := hstarted.removed hremoved
      obtain ⟨thd, hthd, hstart⟩ := hnext.start_active hleft k
      have hwaiting : ps.drop started ≠ [] := by
        intro hnil
        have hlength := congrArg List.length hnil
        rw [List.length_drop, hstarted.length_eq, List.length_nil] at hlength
        omega
      obtain ⟨s', hrest, hfinal⟩ := ih (hnext.init hthd) (by omega)
      refine ⟨s', ?_, hfinal⟩
      apply init_threads_cons config ?_ (coreAt_succ core place.slot place.start hthd) hrest
      rw [hbefore, ptx_sim_init_thread_waiting hremove hwaiting, hstart]

theorem init_threads_spec {core : ShaderCore} {issued : Nat} (hsound : s₀.Sound)
    (hvacant : Vacant place s₀ core.m_thread) (hsettled : place.k.Settled issued)
    (hmore : issued < place.k.m_grid_dim.size)
    (hroom : place.k.threads_per_cta ≤ config.n_thread_per_shader)
    (hfinished : ∀ q, s₀.ptx_cta_lookup
        (config.sm_idx place.sid place.k.threads_per_cta place.start) = some q →
      (s₀.cta_infos q).m_threads_in_cta ⊆ (s₀.cta_infos q).m_threads_that_have_exited)
    (heap : Allocator) :
    ∃ shared_mem cta_info ps s',
      ShaderCore.init_threads config heap place.uid place.sid place.slot place.k.threads_per_cta
          place.start core place.k s₀ =
        .ok (place.k.threads_per_cta,
          coreAt core ps place.slot place.start place.k.threads_per_cta,
          place.k.increment_cta_id, s') ∧
      Started place config.warp_size s₀ s' core.m_thread
        (config.sm_idx place.sid place.k.threads_per_cta place.start) shared_mem cta_info ps
        place.k.threads_per_cta place.k.threads_per_cta := by
  have hdone : ∀ thd, core.m_thread place.start = some thd →
      (s₀.threads thd).m_thread_done = true :=
    fun thd hthd => hvacant.done 0 hsettled.threads_pos thd hthd
  obtain ⟨s₁, hremove, hremoved⟩ := hsound.remove_old hdone
  have hfinished₁ : ∀ q, s₁.ptx_cta_lookup
        (config.sm_idx place.sid place.k.threads_per_cta place.start) = some q →
      (s₁.cta_infos q).m_threads_in_cta ⊆ (s₁.cta_infos q).m_threads_that_have_exited := by
    intro q hq
    rw [(hremoved.sets_eq q).1, (hremoved.sets_eq q).2]
    exact hfinished q (hremoved.cta_eq ▸ hq)
  obtain ⟨shared_mem, cta_info, ps, s₂, hcreate, hcreated⟩ :=
    hremoved.sound.create_cta heap config.toShaderConfig place.uid hsettled hfinished₁
  have hbuilt : Started place config.warp_size s₀ s₂ core.m_thread _ shared_mem cta_info ps 1 0 :=
    Started.of_created hvacant hremoved hcreated
  -- the first thread is counted apart, as its call is the one that creates the block
  obtain ⟨rest, hrest⟩ : ∃ rest, place.k.threads_per_cta = rest + 1 :=
    Nat.exists_eq_succ_of_ne_zero hsettled.threads_pos.ne'
  obtain ⟨thd, hthd, hstart⟩ := hbuilt.start_active (by omega : 0 + (rest + 1) = _)
    place.k.increment_cta_id
  obtain ⟨s', hloop, hfinal⟩ := (hbuilt.init hthd).init_threads config hvacant heap
    place.k.increment_cta_id rest (by omega)
  have hlast : ({ place.k.increment_cta_id with m_active_threads := [] } : KernelInfo) =
      place.k.increment_cta_id := by
    have hactive := hsettled.no_active
    simp only [KernelInfo.increment_cta_id, hactive]
  have hdiv : config.n_thread_per_shader / place.k.threads_per_cta ≠ 0 :=
    (Nat.div_pos hroom hsettled.threads_pos).ne'
  have hcore := coreAt_succ core place.slot place.start hthd
  rw [coreAt_zero] at hcore
  refine ⟨shared_mem, cta_info, ps, s', ?_, hfinal⟩
  have hcall := (ptx_sim_init_thread_new hremove hsettled.no_active (hsettled.more_iff.mpr hmore)
    (Nat.le_of_eq hrest) hdiv hcreate place.slot (place.start / config.warp_size)).trans hstart
  rw [hlast] at hloop
  have hall := init_threads_cons config hcall hcore hloop
  rwa [← hrest] at hall

end Threads

section Warps

variable (config : Config)

/-- The warps from `start_thread` on that have been initialised, `count` of them. -/
def warpsAt (core : ShaderCore) (cta_id start_thread end_thread count : Nat) : ShaderCore :=
  { core with
    m_active_threads := core.m_active_threads ∪
      Finset.Ico start_thread (min end_thread (start_thread + count * config.warp_size))
    m_not_completed := core.m_not_completed +
      (min end_thread (start_thread + count * config.warp_size) - start_thread)
    m_warp_cta_id := fun i =>
      if start_thread / config.warp_size ≤ i ∧ i < start_thread / config.warp_size + count then
        cta_id
      else core.m_warp_cta_id i }

theorem warp_threads_eq {start_thread end_thread : Nat} (hstart : config.warp_size ∣ start_thread)
    (count : Nat) :
    ShaderCore.warp_threads config end_thread (start_thread / config.warp_size + count) =
      Finset.Ico (start_thread + count * config.warp_size)
        (min end_thread (start_thread + (count + 1) * config.warp_size)) := by
  have hfirst : (start_thread / config.warp_size + count) * config.warp_size =
      start_thread + count * config.warp_size := by
    rw [Nat.add_mul, Nat.div_mul_cancel hstart]
  ext t
  rw [ShaderCore.warp_threads, hfirst, Finset.mem_filter, Finset.mem_Ico, Finset.mem_Ico,
    Nat.succ_mul]
  omega

theorem init_warp_warpsAt (core : ShaderCore) (cta_id : Nat) {start_thread end_thread : Nat}
    (hstart : config.warp_size ∣ start_thread)
    (hfree : ∀ t, start_thread ≤ t → t < end_thread → t ∉ core.m_active_threads) {count : Nat}
    (hcount : start_thread + count * config.warp_size < end_thread) :
    (warpsAt config core cta_id start_thread end_thread count).init_warp config cta_id end_thread
        (start_thread / config.warp_size + count) =
      .ok (warpsAt config core cta_id start_thread end_thread (count + 1)) := by
  have hpos := config.warp_pos
  have hnext : (count + 1) * config.warp_size = count * config.warp_size + config.warp_size :=
    Nat.succ_mul _ _
  have hdone : min end_thread (start_thread + count * config.warp_size) =
      start_thread + count * config.warp_size := Nat.min_eq_right (Nat.le_of_lt hcount)
  have hnone : ¬ ∃ hwtid ∈ Finset.Ico (start_thread + count * config.warp_size)
        (min end_thread (start_thread + (count + 1) * config.warp_size)),
      hwtid ∈ (warpsAt config core cta_id start_thread end_thread count).m_active_threads := by
    rintro ⟨t, hin, hactive⟩
    rw [Finset.mem_Ico] at hin
    simp only [warpsAt, hdone, Finset.mem_union, Finset.mem_Ico] at hactive
    cases hactive with
    | inl hold => exact hfree t (by omega) (by omega) hold
    | inr hnew => omega
  rw [ShaderCore.init_warp, warp_threads_eq config hstart, if_neg hnone]
  have hthreads : Finset.Ico start_thread (start_thread + count * config.warp_size) ∪
      Finset.Ico (start_thread + count * config.warp_size)
        (min end_thread (start_thread + (count + 1) * config.warp_size)) =
      Finset.Ico start_thread (min end_thread (start_thread + (count + 1) * config.warp_size)) := by
    ext t
    rw [Finset.mem_union, Finset.mem_Ico, Finset.mem_Ico, Finset.mem_Ico]
    omega
  have hcard : start_thread + count * config.warp_size - start_thread +
      (min end_thread (start_thread + (count + 1) * config.warp_size) -
        (start_thread + count * config.warp_size)) =
      min end_thread (start_thread + (count + 1) * config.warp_size) - start_thread := by
    omega
  have hwarps := update_range core.m_warp_cta_id (fun _ => cta_id)
    (start_thread / config.warp_size) count
  simp only [warpsAt, hdone, Finset.union_assoc, hthreads, Nat.card_Ico, Nat.add_assoc, hcard]
  rw [hwarps]

theorem init_warps_from (core : ShaderCore) (cta_id : Nat) {start_thread end_thread : Nat}
    (hstart : config.warp_size ∣ start_thread)
    (hfree : ∀ t, start_thread ≤ t → t < end_thread → t ∉ core.m_active_threads) :
    ∀ (rest count : Nat),
      (rest = 0 ∨ start_thread + (count + rest - 1) * config.warp_size < end_thread) →
      (List.range' (start_thread / config.warp_size + count) rest).foldlM
          (fun core i => core.init_warp config cta_id end_thread i)
          (warpsAt config core cta_id start_thread end_thread count) =
        .ok (warpsAt config core cta_id start_thread end_thread (count + rest)) := by
  intro rest
  induction rest with
  | zero =>
      intro count _
      rfl
  | succ rest ih =>
      intro count hrest
      have hlast : start_thread + (count + rest) * config.warp_size < end_thread := by
        simpa using hrest
      have hcount : start_thread + count * config.warp_size < end_thread :=
        Nat.lt_of_le_of_lt (Nat.add_le_add_left
          (Nat.mul_le_mul_right _ (Nat.le_add_right _ _)) _) hlast
      rw [List.range'_succ, List.foldlM_cons,
        init_warp_warpsAt config core cta_id hstart hfree hcount]
      have hnext := ih (count + 1) (by
        cases rest with
        | zero => exact Or.inl rfl
        | succ rest =>
            have heq : count + 1 + (rest + 1) - 1 = count + (rest + 1) := by omega
            exact Or.inr (heq ▸ hlast))
      have hsum : count + 1 + rest = count + (rest + 1) := by omega
      rw [hsum] at hnext
      exact hnext

/-- The number of warps of a block of `size` threads. -/
def warps_of (size : Nat) : Nat :=
  size / config.warp_size + if size % config.warp_size = 0 then 0 else 1

theorem warps_of_bounds {size : Nat} (hsize : 0 < size) :
    0 < warps_of config size ∧ size ≤ warps_of config size * config.warp_size ∧
      (warps_of config size - 1) * config.warp_size < size := by
  have hpos := config.warp_pos
  have hdiv := Nat.div_add_mod size config.warp_size
  have hmod := Nat.mod_lt size hpos
  rw [Nat.mul_comm] at hdiv
  unfold warps_of
  by_cases hzero : size % config.warp_size = 0
  · have hquot : 0 < size / config.warp_size := by
      rw [Nat.pos_iff_ne_zero]
      intro hq
      rw [hq, hzero, Nat.zero_mul] at hdiv
      omega
    have hpred : (size / config.warp_size - 1) * config.warp_size + config.warp_size =
        size / config.warp_size * config.warp_size := by
      rw [← Nat.succ_mul, Nat.succ_eq_add_one, Nat.sub_add_cancel hquot]
    rw [if_pos hzero, Nat.add_zero]
    omega
  · have hsucc : (size / config.warp_size + 1) * config.warp_size =
        size / config.warp_size * config.warp_size + config.warp_size := Nat.succ_mul _ _
    rw [if_neg hzero, Nat.add_sub_cancel]
    exact ⟨Nat.succ_pos _, by omega, by omega⟩

theorem init_warps_spec (core : ShaderCore) (cta_id : Nat) {start_thread size : Nat}
    (hstart : config.warp_size ∣ start_thread) (hsize : 0 < size)
    (hfree : ∀ t, start_thread ≤ t → t < start_thread + size → t ∉ core.m_active_threads) :
    core.init_warps config cta_id start_thread (start_thread + size) =
      .ok { core with
        m_active_threads := core.m_active_threads ∪
          Finset.Ico start_thread (start_thread + size)
        m_not_completed := core.m_not_completed + size
        m_warp_cta_id := fun i =>
          if start_thread / config.warp_size ≤ i ∧
              i < start_thread / config.warp_size + warps_of config size then cta_id
          else core.m_warp_cta_id i } := by
  have hbounds := warps_of_bounds config hsize
  have hwarps : (start_thread + size) / config.warp_size +
      (if (start_thread + size) % config.warp_size = 0 then 0 else 1) -
        start_thread / config.warp_size = warps_of config size := by
    obtain ⟨w, rfl⟩ := hstart
    rw [Nat.mul_add_div config.warp_pos, Nat.mul_add_mod, Nat.mul_div_cancel_left _ config.warp_pos]
    rw [Nat.add_assoc, Nat.add_sub_cancel_left]
    rfl
  have hzero : warpsAt config core cta_id start_thread (start_thread + size) 0 = core := by
    have hnone : ∀ i, ¬ (start_thread / config.warp_size ≤ i ∧
        i < start_thread / config.warp_size + 0) := by
      intro i
      omega
    simp only [warpsAt, Nat.zero_mul, if_neg (hnone _)]
    simp
  have hloop := init_warps_from config core cta_id hstart hfree (warps_of config size) 0
    (Or.inr (by rw [Nat.zero_add]; omega))
  rw [hzero] at hloop
  have hend : min (start_thread + size)
      (start_thread + warps_of config size * config.warp_size) = start_thread + size := by
    omega
  simp only [Nat.add_zero, Nat.zero_add] at hloop
  rw [ShaderCore.init_warps]
  simp only [hwarps, hloop, warpsAt, hend, Nat.add_sub_cancel_left]

end Warps

section Core

variable (config : Config)

theorem max_cta_bounds {k : KernelInfo} {limit : Nat} (hlimit : config.max_cta k = .ok limit) :
    0 < limit ∧ limit ≤ MAX_CTA_PER_SHADER ∧
      limit * config.padded_cta_size k.threads_per_cta ≤ config.n_thread_per_shader := by
  simp only [Config.max_cta] at hlimit
  generalize hmin : min (min (min (config.n_thread_per_shader /
    config.padded_cta_size k.threads_per_cta) _) _) config.max_cta_per_core = most at hlimit
  have hmost : most ≤ config.n_thread_per_shader / config.padded_cta_size k.threads_per_cta := by
    rw [← hmin]
    exact (min_le_left _ _).trans ((min_le_left _ _).trans (min_le_left _ _))
  generalize hresult : (if k.num_blocks < most * config.num_shader then
    k.num_blocks / config.num_shader + if k.num_blocks % config.num_shader = 0 then 0 else 1
    else most) = result at hlimit
  have hle : result ≤ most := by
    rw [← hresult]
    split
    next hfew =>
      have hquot : k.num_blocks / config.num_shader < most :=
        (Nat.div_lt_iff_lt_mul config.shader_pos).mpr hfew
      split <;> omega
    next => exact le_rfl
  split at hlimit
  next => cases hlimit
  next hmax =>
    split at hlimit
    next => cases hlimit
    next hone =>
      obtain rfl : result = limit := Except.ok.inj hlimit
      exact ⟨by omega, by omega,
        (Nat.mul_le_mul_right _ (hle.trans hmost)).trans (Nat.div_mul_le_self _ _)⟩

theorem threads_le_of_max_cta {k : KernelInfo} {limit : Nat}
    (hlimit : config.max_cta k = .ok limit) : k.threads_per_cta ≤ config.n_thread_per_shader := by
  have hbounds := max_cta_bounds config hlimit
  calc k.threads_per_cta ≤ config.padded_cta_size k.threads_per_cta :=
        config.le_padded_cta_size _
    _ ≤ limit * config.padded_cta_size k.threads_per_cta := Nat.le_mul_of_pos_left _ hbounds.1
    _ ≤ config.n_thread_per_shader := hbounds.2.2

/-- The place of slot `slot` of a core. -/
def placeOf (uid sid : Nat) (k : KernelInfo) (slot : Nat) : Place :=
  ⟨uid, sid, slot, config.start_thread k.threads_per_cta slot, k⟩

/-- The core with the block of `place` on it. -/
def placed (core : ShaderCore) (ps : List Nat) (place : Place) : ShaderCore :=
  { coreAt core ps place.slot place.start place.k.threads_per_cta with
    m_cta_status := Function.update core.m_cta_status place.slot place.k.threads_per_cta
    m_n_active_cta := core.m_n_active_cta + 1
    m_not_completed := core.m_not_completed + place.k.threads_per_cta
    m_active_threads := core.m_active_threads ∪
      Finset.Ico place.start (place.start + place.k.threads_per_cta)
    m_warp_cta_id := fun i =>
      if place.start / config.warp_size ≤ i ∧
          i < place.start / config.warp_size + warps_of config place.k.threads_per_cta then
        place.slot
      else core.m_warp_cta_id i }

/-- A slot that can take a block of kernel `k`. -/
structure SlotVacant (place : Place) (core : ShaderCore) (s₀ : PtxSim) : Prop where
  threads : Vacant place s₀ core.m_thread
  finished : ∀ q, s₀.ptx_cta_lookup
      (config.sm_idx place.sid place.k.threads_per_cta place.start) = some q →
    (s₀.cta_infos q).m_threads_in_cta ⊆ (s₀.cta_infos q).m_threads_that_have_exited
  inactive : ∀ t, place.start ≤ t → t < place.start + place.k.threads_per_cta →
    t ∉ core.m_active_threads

theorem issue_block2core_spec {core : ShaderCore} {s₀ : PtxSim} {k : KernelInfo}
    {uid sid issued limit : Nat} (hsound : s₀.Sound) (hsettled : k.Settled issued)
    (hmore : issued < k.m_grid_dim.size) (hlimit : config.max_cta k = .ok limit)
    (hfree : ∃ slot < limit, core.m_cta_status slot = 0)
    (hvacant : ∀ slot < limit, core.m_cta_status slot = 0 →
      SlotVacant config (placeOf config uid sid k slot) core s₀)
    (heap : Allocator) :
    ∃ slot shared_mem cta_info ps s', slot < limit ∧ core.m_cta_status slot = 0 ∧
      core.issue_block2core config heap uid sid k s₀ =
        .ok (placed config core ps (placeOf config uid sid k slot), k.increment_cta_id, s') ∧
      Started (placeOf config uid sid k slot) config.warp_size s₀ s' core.m_thread
        (config.sm_idx sid k.threads_per_cta (config.start_thread k.threads_per_cta slot))
        shared_mem cta_info ps k.threads_per_cta k.threads_per_cta := by
  cases hfind : (List.range limit).find? fun i => core.m_cta_status i == 0 with
  | none =>
      obtain ⟨slot, hslot, hstatus⟩ := hfree
      have hnot := List.find?_eq_none.mp hfind slot (List.mem_range.mpr hslot)
      simp [hstatus] at hnot
  | some slot =>
      have hslot : slot < limit := List.mem_range.mp (List.mem_of_find?_eq_some hfind)
      have hstatus : core.m_cta_status slot = 0 := by simpa using List.find?_some hfind
      have hplace := hvacant slot hslot hstatus
      have hroom := threads_le_of_max_cta config hlimit
      obtain ⟨shared_mem, cta_info, ps, s', hloop, hstarted⟩ :=
        init_threads_spec config hsound hplace.threads hsettled hmore hroom hplace.finished heap
      have hwarps := init_warps_spec config
        { coreAt core ps slot (config.start_thread k.threads_per_cta slot) k.threads_per_cta with
          m_cta_status := Function.update core.m_cta_status slot k.threads_per_cta } slot
        (config.warp_size_dvd_start_thread k.threads_per_cta slot) hsettled.threads_pos
        hplace.inactive
      refine ⟨slot, shared_mem, cta_info, ps, s', hslot, hstatus, ?_, hstarted⟩
      simp only [placeOf] at hloop
      have hcount : 0 < k.threads_per_cta ∧ k.threads_per_cta ≤ config.n_thread_per_shader :=
        ⟨hsettled.threads_pos, hroom⟩
      simp only [ShaderCore.issue_block2core, bind, Except.bind, hlimit, hfind, hloop, if_pos hcount]
      have hsame : (coreAt core ps slot (config.start_thread k.threads_per_cta slot)
          k.threads_per_cta).m_cta_status = core.m_cta_status := rfl
      rw [hsame, hwarps]
      rfl

end Core

end AesOnGpu.Cta.Dispatch
