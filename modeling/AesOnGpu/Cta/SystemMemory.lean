import AesOnGpu.Cta.ThreadExits

/-! # The blocks of a whole run

What all cores, the kernels and the functional simulator satisfy together between two events. Each
thread that still runs is on a core; so when a slot is free, all threads of the last block at its
index have exited.
-/

namespace AesOnGpu.Cta.Dispatch

def GpgpuSim.Launched (m : GpgpuSim) (uid : Nat) : Prop := 0 < uid ∧ uid < m.m_next_uid

/-- The threads of the first blocks of each kernel have been created, each of them once and those of
a block on one core. -/
structure History (created : List Created) (launched : Nat → Prop) (kernels : Nat → KernelInfo)
    (issued : Nat → Nat) : Prop where
  nodup : (created.map fun c => (c.kernel, c.ctaid, c.tid)).Nodup
  mem_iff : ∀ uid ctaid tid, (∃ c ∈ created, c.kernel = uid ∧ c.ctaid = ctaid ∧ c.tid = tid) ↔
    launched uid ∧ (∃ n < issued uid, (kernels uid).m_grid_dim.nth n = ctaid) ∧
      tid.Within (kernels uid).m_block_dim
  one_core : ∀ c ∈ created, ∀ c' ∈ created, c.kernel = c'.kernel → c.ctaid = c'.ctaid →
    c.sid = c'.sid

structure MemoryInv (config : Config) (m : GpgpuSim) (issued : Nat → Nat) : Prop where
  next_pos : 0 < m.m_next_uid
  sound : m.sim.Sound
  core : ∀ sid, CoreInv config m.kernels m.sim sid (m.cores sid)
  settled : ∀ {uid}, m.Launched uid → (m.kernels uid).Settled (issued uid)
  bound : ∀ {sid uid}, (m.cores sid).m_kernel = some uid → m.Launched uid
  slots : ∀ {uid}, some uid ∈ m.m_running_kernels → m.Launched uid
  resident : ∀ {p}, p ∈ m.sim.live_threads → (m.sim.threads p).m_thread_done = false →
    ∃ sid t, (m.cores sid).m_thread t = some p ∧ (m.cores sid).m_active t = true
  history : History m.sim.created m.Launched m.kernels issued

variable {config : Config} {m : GpgpuSim} {issued : Nat → Nat}

theorem memoryInv_new (config : Config) : MemoryInv config (GpgpuSim.new config) fun _ => 0 where
  next_pos := Nat.one_pos
  sound := PtxSim.sound_new
  core := fun _ => coreInv_new
  settled := by
    intro uid launched
    have above := launched.1
    have below : uid < 1 := launched.2
    omega
  bound := nofun
  slots := by
    intro uid member
    cases List.eq_of_mem_replicate member
  resident := fun member => absurd member (Finset.notMem_empty _)
  history := by
    refine ⟨List.nodup_nil, fun uid ctaid tid => ?_, fun c member => absurd member List.not_mem_nil⟩
    constructor
    · rintro ⟨c, member, -⟩
      exact absurd member List.not_mem_nil
    · rintro ⟨-, ⟨n, below, -⟩, -⟩
      exact absurd below (Nat.not_lt_zero n)

/-! ## Free slots -/

section Vacancy

variable {sid uid slot : Nat}

theorem MemoryInv.inactive (inv : MemoryInv config m issued)
    (hkernel : (m.cores sid).m_kernel = some uid) (hfree : (m.cores sid).m_cta_status slot = 0) {i : Nat}
    (hi : i < (m.kernels uid).threads_per_cta) :
    (m.cores sid).m_active (config.start_thread (m.kernels uid).threads_per_cta slot + i) = false := by
  cases active : (m.cores sid).m_active
    (config.start_thread (m.kernels uid).threads_per_cta slot + i) with
  | false => rfl
  | true =>
    obtain ⟨uid', slot', i', hkernel', occupied, hi', same⟩ := (inv.core sid).active_slot active
    obtain rfl := Option.some.inj (hkernel.symm.trans hkernel')
    have hpadded := config.le_padded_cta_size (m.kernels uid).threads_per_cta
    obtain ⟨rfl, -⟩ := config.start_thread_add_inj (hi.trans_le hpadded) (hi'.trans_le hpadded) same
    exact absurd hfree occupied

theorem MemoryInv.occupied_of_running (inv : MemoryInv config m issued) {p q : Nat}
    (live : p ∈ m.sim.live_threads) (running : (m.sim.threads p).m_thread_done = false)
    (belongs : (m.sim.threads p).m_cta_info = q)
    (hkernel : (m.cores sid).m_kernel = some uid)
    (found : m.sim.ptx_cta_lookup (config.sm_idx sid (m.kernels uid).threads_per_cta
      (config.start_thread (m.kernels uid).threads_per_cta slot)) = some q) :
    (m.cores sid).m_cta_status slot ≠ 0 := by
  obtain ⟨sid', t, onCore, active⟩ := inv.resident live running
  obtain ⟨uid', slot', i, hkernel', occupied, hi, rfl⟩ := (inv.core sid').active_slot active
  obtain ⟨shared_mem, cta_info, ctaid, -, hcta, threads⟩ :=
    ((inv.core sid').slot hkernel' occupied).memory
  obtain ⟨p', l, onCore', -, record⟩ := threads i hi
  obtain rfl := Option.some.inj (onCore.symm.trans onCore')
  -- the index of a block names its core and its slot
  have info : cta_info = q := record.cta_info.symm.trans belongs
  have index := inv.sound.tables.cta_table.inj hcta (info ▸ found)
  obtain rfl := config.sm_idx_sid ((inv.core sid').sid_lt hkernel') ((inv.core sid).sid_lt hkernel) index
  obtain rfl := Option.some.inj (hkernel'.symm.trans hkernel)
  have size := (inv.settled (inv.bound hkernel)).threads_pos
  exact config.sm_idx_start_thread_inj size index ▸ occupied

theorem MemoryInv.slotVacant (inv : MemoryInv config m issued)
    (hkernel : (m.cores sid).m_kernel = some uid) (hfree : (m.cores sid).m_cta_status slot = 0) :
    SlotVacant config (placeOf config uid sid (m.kernels uid) slot) (m.cores sid) m.sim := by
  have core := inv.core sid
  constructor
  case threads =>
    refine ⟨core.thread_live, fun first second => ?_, fun i hi p onCore => ?_⟩
    · exact (core.thread_hw first).2.symm.trans (core.thread_hw second).2
    · exact core.thread_done onCore (inv.inactive hkernel hfree hi)
  case finished =>
    intro q found t member
    by_contra running
    obtain ⟨live, belongs, unfinished⟩ := inv.sound.running member running
    exact inv.occupied_of_running live unfinished belongs hkernel found hfree
  case inactive =>
    intro t above below member
    have active := (core.active_iff t).mp member
    obtain ⟨i, rfl⟩ := Nat.exists_eq_add_of_le above
    rw [placeOf] at active below
    rw [inv.inactive hkernel hfree (Nat.lt_of_add_lt_add_left below)] at active
    cases active

theorem CoreInv.exists_free {kernels : Nat → KernelInfo} {s : PtxSim} {core : ShaderCore} {limit : Nat}
    (h : CoreInv config kernels s sid core) (room : core.m_n_active_cta < limit)
    (limit_le : limit ≤ MAX_CTA_PER_SHADER) : ∃ slot < limit, core.m_cta_status slot = 0 := by
  by_contra full
  have all : Finset.range limit ⊆ (Finset.range MAX_CTA_PER_SHADER).filter
      fun slot => core.m_cta_status slot ≠ 0 := by
    intro slot member
    have below := Finset.mem_range.mp member
    exact Finset.mem_filter.mpr ⟨Finset.mem_range.mpr (below.trans_le limit_le),
      fun free => full ⟨slot, below, free⟩⟩
  have count := Finset.card_le_card all
  rw [Finset.card_range, ← h.n_active_eq] at count
  omega

end Vacancy

/-! ## The history of a new block -/

section Histories

variable {created : List Created} {launched : Nat → Prop} {kernels : Nat → KernelInfo} {uid : Nat}

/-- The threads of the next block of kernel `k`. -/
def newBlock (uid sid start : Nat) (k : KernelInfo) : List Created :=
  (List.range k.threads_per_cta).map fun i =>
    ⟨uid, k.m_next_cta, k.m_block_dim.nth i, sid, start + i⟩

theorem mem_newBlock {sid start : Nat} {k : KernelInfo} {c : Created}
    (member : c ∈ newBlock uid sid start k) :
    ∃ i < k.threads_per_cta, c = ⟨uid, k.m_next_cta, k.m_block_dim.nth i, sid, start + i⟩ := by
  obtain ⟨i, inside, rfl⟩ := List.mem_map.mp member
  exact ⟨i, List.mem_range.mp inside, rfl⟩

theorem History.next_fresh (history : History created launched kernels issued)
    (settled : (kernels uid).Settled (issued uid)) {c : Created} (member : c ∈ created)
    (kernel : c.kernel = uid) : c.ctaid ≠ (kernels uid).m_next_cta := by
  intro same
  obtain ⟨-, ⟨n, below, position⟩, -⟩ :=
    (history.mem_iff uid c.ctaid c.tid).mp ⟨c, member, kernel, rfl, rfl⟩
  rw [same, settled.next_cta] at position
  exact absurd (Dim3.nth_injective position) (Nat.ne_of_lt below)

theorem update_dims (kernels : Nat → KernelInfo) (uid uid' : Nat) :
    (Function.update kernels uid (kernels uid).increment_cta_id uid').m_grid_dim =
        (kernels uid').m_grid_dim ∧
      (Function.update kernels uid (kernels uid).increment_cta_id uid').m_block_dim =
        (kernels uid').m_block_dim := by
  by_cases same : uid' = uid
  · subst same
    rw [Function.update_self]
    exact ⟨rfl, rfl⟩
  · rw [Function.update_of_ne same]
    exact ⟨rfl, rfl⟩

theorem History.issue (history : History created launched kernels issued) (isLaunched : launched uid)
    (settled : (kernels uid).Settled (issued uid)) (sid start : Nat) :
    History (created ++ newBlock uid sid start (kernels uid)) launched
      (Function.update kernels uid (kernels uid).increment_cta_id)
      (Function.update issued uid (issued uid + 1)) := by
  constructor
  case nodup =>
    rw [List.map_append, List.nodup_append]
    refine ⟨history.nodup, ?_, ?_⟩
    · rw [newBlock, List.map_map]
      refine List.nodup_range.map_on fun i _ j _ same => ?_
      exact Dim3.nth_injective (Prod.mk.inj (Prod.mk.inj same).2).2
    · intro a inOld b inNew same
      obtain ⟨c, old, rfl⟩ := List.mem_map.mp inOld
      obtain ⟨c', new, rfl⟩ := List.mem_map.mp inNew
      obtain ⟨i, -, rfl⟩ := mem_newBlock new
      have fields := Prod.mk.inj same
      exact history.next_fresh settled old fields.1 (Prod.mk.inj fields.2).1
  case mem_iff =>
    intro uid' ctaid tid
    have dims := update_dims kernels uid uid'
    rw [dims.1, dims.2]
    constructor
    · rintro ⟨c, member, rfl, rfl, rfl⟩
      cases List.mem_append.mp member with
      | inl old =>
        obtain ⟨hl, ⟨n, below, position⟩, within⟩ :=
          (history.mem_iff c.kernel c.ctaid c.tid).mp ⟨c, old, rfl, rfl, rfl⟩
        refine ⟨hl, ⟨n, ?_, position⟩, within⟩
        by_cases same : c.kernel = uid
        · rw [same] at below ⊢
          rw [Function.update_self]
          exact Nat.lt_succ_of_lt below
        · rwa [Function.update_of_ne same]
      | inr new =>
        obtain ⟨i, inside, rfl⟩ := mem_newBlock new
        refine ⟨isLaunched, ⟨issued uid, ?_, settled.next_cta.symm⟩, ?_⟩
        · rw [Function.update_self]
          exact Nat.lt_succ_self _
        · exact (Dim3.nth_within _ i).mpr (settled.threads_eq ▸ inside)
    · rintro ⟨hl, ⟨n, below, position⟩, within⟩
      have old (before : n < issued uid') :
          ∃ c ∈ created ++ newBlock uid sid start (kernels uid), c.kernel = uid' ∧ c.ctaid = ctaid ∧
            c.tid = tid := by
        obtain ⟨c, member, fields⟩ := (history.mem_iff uid' ctaid tid).mpr
          ⟨hl, ⟨n, before, position⟩, within⟩
        exact ⟨c, List.mem_append_left _ member, fields⟩
      by_cases same : uid' = uid
      · subst same
        rw [Function.update_self] at below
        cases Nat.lt_succ_iff_lt_or_eq.mp below with
        | inl before => exact old before
        | inr last =>
          obtain ⟨i, inside, rfl⟩ := (Dim3.within_iff _ _).mp within
          refine ⟨_, List.mem_append_right _ (List.mem_map.mpr
            ⟨i, List.mem_range.mpr (settled.threads_eq ▸ inside), rfl⟩), rfl, ?_, rfl⟩
          rw [← position, last]
          exact settled.next_cta
      · rw [Function.update_of_ne same] at below
        exact old below
  case one_core =>
    intro c member c' member' kernel ctaid
    cases List.mem_append.mp member with
    | inl old =>
      cases List.mem_append.mp member' with
      | inl old' => exact history.one_core c old c' old' kernel ctaid
      | inr new' =>
        obtain ⟨i, -, rfl⟩ := mem_newBlock new'
        exact absurd ctaid (history.next_fresh settled old kernel)
    | inr new =>
      obtain ⟨i, -, rfl⟩ := mem_newBlock new
      cases List.mem_append.mp member' with
      | inl old' => exact absurd ctaid.symm (history.next_fresh settled old' kernel.symm)
      | inr new' =>
        obtain ⟨j, -, rfl⟩ := mem_newBlock new'
        rfl

end Histories

/-! ## A new block in the system -/

section Issue

variable {sid uid : Nat}

/-- The state after `issue_block2core` of a core. -/
def GpgpuSim.withBlock (m : GpgpuSim) (sid uid : Nat) (core : ShaderCore) (k : KernelInfo) (s : PtxSim) :
    GpgpuSim :=
  { m with
    kernels := Function.update m.kernels uid k
    cores := Function.update m.cores sid core
    sim := s }

theorem MemoryInv.elsewhere (inv : MemoryInv config m issued) {slot sm_idx shared_mem cta_info : Nat}
    {ps : List Nat} {s' : PtxSim}
    (hstarted : Started (placeOf config uid sid (m.kernels uid) slot) config.warp_size m.sim s'
      (m.cores sid).m_thread sm_idx shared_mem cta_info ps (m.kernels uid).threads_per_cta
      (m.kernels uid).threads_per_cta) {sid' t p : Nat} (other : sid' ≠ sid)
    (onCore : (m.cores sid').m_thread t = some p) :
    p ∉ ps ∧ p ∈ s'.live_threads ∧ s'.threads p = m.sim.threads p := by
  have live := (inv.core sid').thread_live onCore
  have apart {t' : Nat} (here : (m.cores sid).m_thread t' = some p) : False :=
    other (((inv.core sid').thread_hw onCore).1.symm.trans ((inv.core sid).thread_hw here).1)
  have notNew : p ∉ ps := fun member => apart (hstarted.fresh p member live)
  exact ⟨notNew, (hstarted.live_iff p).mpr (Or.inr ⟨live, fun i _ here => apart here⟩),
    hstarted.frame p notNew⟩

theorem MemoryInv.issue (inv : MemoryInv config m issued)
    (hkernel : (m.cores sid).m_kernel = some uid)
    (more : issued uid < (m.kernels uid).m_grid_dim.size) {limit : Nat}
    (hlimit : config.max_cta (m.kernels uid) = .ok limit)
    (room : (m.cores sid).m_n_active_cta < limit) (heap : Allocator) :
    ∃ core s, (m.cores sid).issue_block2core config heap uid sid (m.kernels uid) m.sim =
        .ok (core, (m.kernels uid).increment_cta_id, s) ∧
      core.m_kernel = some uid ∧ core.m_n_active_cta = (m.cores sid).m_n_active_cta + 1 ∧
      MemoryInv config (m.withBlock sid uid core (m.kernels uid).increment_cta_id s)
        (Function.update issued uid (issued uid + 1)) := by
  have launched := inv.bound hkernel
  have settled := inv.settled launched
  have size := settled.threads_pos
  have limits := max_cta_bounds config hlimit
  obtain ⟨slot, shared_mem, cta_info, ps, s', below, free, run, hstarted⟩ :=
    issue_block2core_spec config inv.sound settled more hlimit
      ((inv.core sid).exists_free room limits.2.1) (fun slot _ free => inv.slotVacant hkernel free) heap
  have dims := update_dims m.kernels uid
  refine ⟨_, s', run, hkernel, rfl, ?_⟩
  generalize hplaced : placed config (m.cores sid) ps (placeOf config uid sid (m.kernels uid) slot) =
    core at *
  have placedCore : CoreInv config (Function.update m.kernels uid (m.kernels uid).increment_cta_id) s'
      sid core := by
    rw [← hplaced]
    exact (inv.core sid).placed hkernel (below.trans_le limits.2.1) free size (dims uid).2 hstarted
  have onPlaced (t : Nat) : t < config.start_thread (m.kernels uid).threads_per_cta slot ∨
      config.start_thread (m.kernels uid).threads_per_cta slot + (m.kernels uid).threads_per_cta ≤ t →
      core.m_thread t = (m.cores sid).m_thread t ∧ core.m_active t = (m.cores sid).m_active t := by
    intro outside
    have out := placed_out config (m.cores sid) ps (placeOf config uid sid (m.kernels uid) slot)
      (t := t) (by simp only [placeOf]; omega)
    rw [hplaced] at out
    exact ⟨out.1, out.2.1⟩
  constructor
  case next_pos => exact inv.next_pos
  case sound => exact hstarted.sound
  case core =>
    intro sid'
    by_cases same : sid' = sid
    · subst same
      simp only [GpgpuSim.withBlock, Function.update_self]
      exact placedCore
    · simp only [GpgpuSim.withBlock, Function.update_of_ne same]
      refine (inv.core sid').frame (fun _ => (dims _).2)
        ⟨hstarted.shared_mono, hstarted.cta_mono, hstarted.local_mono⟩ fun onCore => ?_
      obtain ⟨-, live, record⟩ := inv.elsewhere hstarted same onCore
      exact ⟨live, record ▸ Later.refl _⟩
  case settled =>
    intro uid' launched'
    by_cases same : uid' = uid
    · subst same
      simp only [GpgpuSim.withBlock, Function.update_self]
      exact settled.increment_cta_id more
    · simp only [GpgpuSim.withBlock, Function.update_of_ne same]
      exact inv.settled launched'
  case bound =>
    intro sid' uid' bound
    by_cases same : sid' = sid
    · subst same
      simp only [GpgpuSim.withBlock, Function.update_self] at bound
      rw [← hplaced] at bound
      exact inv.bound bound
    · simp only [GpgpuSim.withBlock, Function.update_of_ne same] at bound
      exact inv.bound bound
  case slots => exact inv.slots
  case resident =>
    intro p live running
    by_cases new : p ∈ ps
    · -- a new thread is on its hardware thread
      obtain ⟨i, found⟩ := List.mem_iff_getElem?.mp new
      have inside : i < (m.kernels uid).threads_per_cta :=
        hstarted.length_eq ▸ (List.getElem?_eq_some_iff.mp found).1
      have here := placed_in config (m.cores sid) ps (placeOf config uid sid (m.kernels uid) slot)
        (t := config.start_thread (m.kernels uid).threads_per_cta slot + i)
        ⟨Nat.le_add_right _ _, Nat.add_lt_add_left inside _⟩
      rw [hplaced] at here
      refine ⟨sid, config.start_thread (m.kernels uid).threads_per_cta slot + i, ?_⟩
      simp only [GpgpuSim.withBlock, Function.update_self]
      refine ⟨here.1.trans ?_, here.2.1⟩
      simp only [placeOf, Nat.add_sub_cancel_left, found]
    · have old := ((hstarted.live_iff p).mp live).resolve_left new
      have running' : (m.sim.threads p).m_thread_done = false := hstarted.frame p new ▸ running
      obtain ⟨sid', t, onCore, active⟩ := inv.resident old.1 running'
      refine ⟨sid', t, ?_⟩
      by_cases same : sid' = sid
      · subst same
        simp only [GpgpuSim.withBlock, Function.update_self]
        have outside : t < config.start_thread (m.kernels uid).threads_per_cta slot ∨
            config.start_thread (m.kernels uid).threads_per_cta slot +
              (m.kernels uid).threads_per_cta ≤ t := by
          by_contra inside
          rw [not_or, Nat.not_lt, Nat.not_le] at inside
          obtain ⟨i, rfl⟩ := Nat.exists_eq_add_of_le inside.1
          rw [inv.inactive hkernel free (Nat.lt_of_add_lt_add_left inside.2)] at active
          cases active
        have kept := onPlaced t outside
        rw [kept.1, kept.2]
        exact ⟨onCore, active⟩
      · simp only [GpgpuSim.withBlock, Function.update_of_ne same]
        exact ⟨onCore, active⟩
  case history =>
    have created := inv.history.issue launched settled sid
      (config.start_thread (m.kernels uid).threads_per_cta slot)
    simp only [GpgpuSim.withBlock]
    rw [hstarted.created_eq]
    exact created

end Issue

/-! ## Threads that end -/

section Exits

variable {sid t thd : Nat}

theorem MemoryInv.live (inv : MemoryInv config m issued) (onCore : (m.cores sid).m_thread t = some thd) :
    thd ∈ m.sim.live_threads := (inv.core sid).thread_live onCore

theorem MemoryInv.exit_impl (inv : MemoryInv config m issued)
    (onCore : (m.cores sid).m_thread t = some thd)
    (running : (m.sim.threads thd).m_thread_done = false) :
    ∃ m', m.exit_impl sid t = .ok m' ∧ MemoryInv config m' issued ∧ m' = { m with sim := m'.sim } := by
  obtain ⟨s', run, sound, live, threads, shared, cta, local_, created⟩ :=
    inv.sound.exit_impl (inv.live onCore) running
  refine ⟨{ m with sim := s' }, ?_, ?_, rfl⟩
  · simp only [GpgpuSim.exit_impl, onCore, run]
    rfl
  have later (p : Nat) : Later (m.sim.threads p) (s'.threads p) := by
    rw [threads]
    by_cases same : p = thd
    · subst same
      rw [Function.update_self]
      exact ⟨⟨true, rfl⟩, fun _ => rfl⟩
    · rw [Function.update_of_ne same]
      exact Later.refl _
  constructor
  case next_pos => exact inv.next_pos
  case sound => exact sound
  case core =>
    intro sid'
    refine (inv.core sid').frame (fun _ => rfl) ⟨?_, ?_, ?_⟩ fun onCore' => ?_
    · intro i p
      rw [shared]
      exact id
    · intro i p
      rw [cta]
      exact id
    · intro i t p
      rw [local_]
      exact id
    · exact ⟨live ▸ inv.live onCore', later _⟩
  case settled => exact inv.settled
  case bound => exact inv.bound
  case slots => exact inv.slots
  case resident =>
    intro p isLive unfinished
    refine inv.resident (live ▸ isLive) ?_
    cases done : (m.sim.threads p).m_thread_done with
    | false => rfl
    | true =>
      rw [(later p).2 done] at unfinished
      cases unfinished
  case history =>
    show History s'.created _ _ _
    rw [created]
    exact inv.history

/-- The state without an active thread that has exited. -/
def GpgpuSim.leave (m : GpgpuSim) (sid slot t : Nat) : GpgpuSim :=
  { m with cores := Function.update m.cores sid (exited (m.cores sid) slot t) }

theorem MemoryInv.slot_of_active (inv : MemoryInv config m issued)
    (active : (m.cores sid).m_active t = true) :
    ∃ uid slot, (m.cores sid).m_kernel = some uid ∧
      (m.cores sid).m_warp_cta_id (t / config.warp_size) = slot ∧
      (m.cores sid).m_cta_status slot ≠ 0 ∧ ∃ i < (m.kernels uid).threads_per_cta,
        t = config.start_thread (m.kernels uid).threads_per_cta slot + i ∧
        ∃ thd, (m.cores sid).m_thread t = some thd := by
  obtain ⟨uid, slot, i, hkernel, occupied, inside, rfl⟩ := (inv.core sid).active_slot active
  have block := (inv.core sid).slot hkernel occupied
  obtain ⟨shared_mem, cta_info, ctaid, -, -, threads⟩ := block.memory
  obtain ⟨thd, l, onCore, -, -⟩ := threads i inside
  exact ⟨uid, slot, hkernel, block.warp_eq i inside, occupied, i, inside, rfl, thd, onCore⟩

theorem MemoryInv.leave (inv : MemoryInv config m issued)
    (active : (m.cores sid).m_active t = true)
    (ended : ∀ thd, (m.cores sid).m_thread t = some thd → (m.sim.threads thd).m_thread_done = true) :
    MemoryInv config (m.leave sid ((m.cores sid).m_warp_cta_id (t / config.warp_size)) t) issued := by
  obtain ⟨uid, slot, hkernel, warp, occupied, i, inside, rfl, -⟩ := inv.slot_of_active active
  rw [warp]
  have leaving := (inv.core sid).exited hkernel occupied inside active ended
  constructor
  case next_pos => exact inv.next_pos
  case sound => exact inv.sound
  case core =>
    intro sid'
    by_cases same : sid' = sid
    · subst same
      simp only [GpgpuSim.leave, Function.update_self]
      exact leaving
    · simp only [GpgpuSim.leave, Function.update_of_ne same]
      exact inv.core sid'
  case settled => exact inv.settled
  case bound =>
    intro sid' uid' bound
    by_cases same : sid' = sid
    · subst same
      simp only [GpgpuSim.leave, Function.update_self] at bound
      exact inv.bound bound
    · simp only [GpgpuSim.leave, Function.update_of_ne same] at bound
      exact inv.bound bound
  case slots => exact inv.slots
  case resident =>
    intro p live running
    obtain ⟨sid', t', onCore, active'⟩ := inv.resident live running
    refine ⟨sid', t', ?_⟩
    by_cases same : sid' = sid
    · subst same
      simp only [GpgpuSim.leave, Function.update_self]
      refine ⟨onCore, (Function.update_of_ne ?_ _ _).trans active'⟩
      -- the thread that leaves has exited
      rintro rfl
      exact absurd (ended p onCore) (Bool.eq_false_iff.mp running)
    · simp only [GpgpuSim.leave, Function.update_of_ne same]
      exact ⟨onCore, active'⟩
  case history => exact inv.history

end Exits

/-! ## Cores that change their kernel -/

section Kernels

variable {sid : Nat}

theorem MemoryInv.rebind (inv : MemoryInv config m issued) (idle : (m.cores sid).m_n_active_cta = 0)
    {kernel : Option Nat} (launched : ∀ uid, kernel = some uid → m.Launched uid ∧ sid < config.num_shader)
    {m' : GpgpuSim} (next : m'.m_next_uid = m.m_next_uid) (sim : m'.sim = m.sim)
    (slots : ∀ uid, some uid ∈ m'.m_running_kernels → some uid ∈ m.m_running_kernels)
    (kernels : ∀ uid, ∃ running, m'.kernels uid = { m.kernels uid with m_num_cores_running := running })
    (cores : m'.cores = Function.update m.cores sid { m.cores sid with m_kernel := kernel }) :
    MemoryInv config m' issued := by
  have dims (uid : Nat) : (m'.kernels uid).m_block_dim = (m.kernels uid).m_block_dim ∧
      (m'.kernels uid).m_grid_dim = (m.kernels uid).m_grid_dim := by
    obtain ⟨running, same⟩ := kernels uid
    rw [same]
    exact ⟨rfl, rfl⟩
  have same : m'.Launched = m.Launched := by
    funext uid
    rw [GpgpuSim.Launched, next]
    rfl
  constructor
  case next_pos => exact next ▸ inv.next_pos
  case sound => exact sim ▸ inv.sound
  case core =>
    intro sid'
    rw [sim, cores]
    by_cases here : sid' = sid
    · subst here
      rw [Function.update_self]
      have bound : kernel ≠ none → sid' < config.num_shader := by
        intro isSome
        obtain ⟨uid, isUid⟩ := Option.ne_none_iff_exists'.mp isSome
        exact (launched uid isUid).2
      exact ((inv.core sid').set_kernel idle bound).frame (fun _ => (dims _).1) (Grown.refl _)
        fun onCore => ⟨inv.live onCore, Later.refl _⟩
    · rw [Function.update_of_ne here]
      exact (inv.core sid').frame (fun _ => (dims _).1) (Grown.refl _)
        fun onCore => ⟨inv.live onCore, Later.refl _⟩
  case settled =>
    intro uid isLaunched
    obtain ⟨running, record⟩ := kernels uid
    rw [record]
    exact (inv.settled (same ▸ isLaunched)).of_running running
  case bound =>
    intro sid' uid bound
    rw [same]
    rw [cores] at bound
    by_cases here : sid' = sid
    · subst here
      rw [Function.update_self] at bound
      exact (launched uid bound).1
    · rw [Function.update_of_ne here] at bound
      exact inv.bound bound
  case slots =>
    intro uid member
    rw [same]
    exact inv.slots (slots uid member)
  case resident =>
    intro p live running
    rw [sim] at live running
    obtain ⟨sid', t, onCore, active⟩ := inv.resident live running
    refine ⟨sid', t, ?_⟩
    rw [cores]
    by_cases here : sid' = sid
    · subst here
      rw [Function.update_self]
      exact ⟨onCore, active⟩
    · rw [Function.update_of_ne here]
      exact ⟨onCore, active⟩
  case history =>
    rw [sim, same]
    refine ⟨inv.history.nodup, fun uid ctaid tid => ?_, inv.history.one_core⟩
    rw [(dims uid).1, (dims uid).2]
    exact inv.history.mem_iff uid ctaid tid

theorem MemoryInv.congr (inv : MemoryInv config m issued) {m' : GpgpuSim}
    (next : m'.m_next_uid = m.m_next_uid) (sim : m'.sim = m.sim) (cores : m'.cores = m.cores)
    (kernels : m'.kernels = m.kernels)
    (slots : ∀ uid, some uid ∈ m'.m_running_kernels → some uid ∈ m.m_running_kernels) :
    MemoryInv config m' issued := by
  have same : m'.Launched = m.Launched := by
    funext uid
    rw [GpgpuSim.Launched, next]
    rfl
  constructor
  case next_pos => exact next ▸ inv.next_pos
  case sound => exact sim ▸ inv.sound
  case core =>
    rw [sim, cores, kernels]
    exact inv.core
  case settled =>
    rw [same, kernels]
    exact inv.settled
  case bound =>
    rw [cores, same]
    exact inv.bound
  case slots =>
    intro uid member
    rw [same]
    exact inv.slots (slots uid member)
  case resident =>
    rw [sim, cores]
    exact inv.resident
  case history =>
    rw [sim, same, kernels]
    exact inv.history

/-- The state with a new kernel in slot `n`. -/
def GpgpuSim.withKernel (m : GpgpuSim) (kinfo : KernelInfo) (n : Nat) : GpgpuSim :=
  { m with
    m_next_uid := m.m_next_uid + 1
    kernels := Function.update m.kernels m.m_next_uid kinfo
    m_running_kernels := m.m_running_kernels.set n (some m.m_next_uid) }

theorem GpgpuSim.launched_withKernel {kinfo : KernelInfo} {n uid : Nat} (next_pos : 0 < m.m_next_uid) :
    (m.withKernel kinfo n).Launched uid ↔ m.Launched uid ∨ uid = m.m_next_uid := by
  simp only [GpgpuSim.Launched, GpgpuSim.withKernel]
  omega

theorem GpgpuSim.kernels_withKernel {kinfo : KernelInfo} {n uid : Nat} (launched : m.Launched uid) :
    (m.withKernel kinfo n).kernels uid = m.kernels uid :=
  Function.update_of_ne (Nat.ne_of_lt launched.2) _ _

theorem MemoryInv.withKernel (inv : MemoryInv config m issued) (gridDim : Dim3) {blockDim : Dim3}
    (block : blockDim.Proper) (smem regs n : Nat) :
    MemoryInv config (m.withKernel (KernelInfo.new gridDim blockDim smem regs) n)
      (Function.update issued m.m_next_uid 0) := by
  have old {uid : Nat} (launched : m.Launched uid) :
      (m.withKernel (KernelInfo.new gridDim blockDim smem regs) n).kernels uid = m.kernels uid ∧
        Function.update issued m.m_next_uid 0 uid = issued uid :=
    ⟨GpgpuSim.kernels_withKernel launched, Function.update_of_ne (Nat.ne_of_lt launched.2) _ _⟩
  constructor
  case next_pos => exact Nat.succ_pos _
  case sound => exact inv.sound
  case core =>
    intro sid'
    exact (inv.core sid').frame (fun bound => by rw [(old (inv.bound bound)).1]) (Grown.refl _)
      fun onCore => ⟨inv.live onCore, Later.refl _⟩
  case settled =>
    intro uid launched
    cases (GpgpuSim.launched_withKernel inv.next_pos).mp launched with
    | inl before =>
      rw [(old before).1, (old before).2]
      exact inv.settled before
    | inr new =>
      subst new
      simp only [GpgpuSim.withKernel, Function.update_self]
      exact KernelInfo.settled_new gridDim block smem regs
  case bound =>
    intro sid' uid bound
    exact (GpgpuSim.launched_withKernel inv.next_pos).mpr (Or.inl (inv.bound bound))
  case slots =>
    intro uid member
    refine (GpgpuSim.launched_withKernel inv.next_pos).mpr ?_
    cases List.mem_or_eq_of_mem_set member with
    | inl before => exact Or.inl (inv.slots before)
    | inr new => exact Or.inr (Option.some.inj new)
  case resident => exact inv.resident
  case history =>
    refine ⟨inv.history.nodup, fun uid ctaid tid => ?_, inv.history.one_core⟩
    refine (inv.history.mem_iff uid ctaid tid).trans ?_
    rw [GpgpuSim.launched_withKernel inv.next_pos]
    by_cases launched : m.Launched uid
    · rw [(old launched).1, (old launched).2]
      simp [launched]
    · by_cases new : uid = m.m_next_uid
      · subst new
        simp [launched]
      · simp [launched, new]

end Kernels

end AesOnGpu.Cta.Dispatch
