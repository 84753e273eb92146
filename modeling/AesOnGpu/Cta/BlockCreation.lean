import AesOnGpu.Cta.PtxSim

/-! # What each step of `ptx_sim_init_thread` keeps

The tables only grow, a pointer in a set of a `ptx_cta_info` that no longer names its old
thread is in the dangling set, and a block whose threads have all exited passes the check
of the next block at its index.
-/

namespace AesOnGpu.Cta

open Lib (AddressTable)

namespace PtxSim

variable {s : PtxSim}

theorem delete_thread_sets (s : PtxSim) (thd q : Nat) :
    ((s.delete_thread thd).cta_infos q).m_threads_in_cta = (s.cta_infos q).m_threads_in_cta ∧
      ((s.delete_thread thd).cta_infos q).m_threads_that_have_exited =
        (s.cta_infos q).m_threads_that_have_exited ∧
      ∀ t, t ∉ ((s.delete_thread thd).cta_infos q).m_dangling_pointers →
        t ∉ (s.cta_infos q).m_dangling_pointers ∧
          ((s.threads thd).m_cta_info = q → t ≠ thd) := by
  by_cases hq : q = (s.threads thd).m_cta_info
  · subst hq
    simp only [PtxSim.delete_thread, Function.update_self, Finset.mem_insert, not_or]
    exact ⟨trivial, trivial, fun t ht => ⟨ht.2, fun _ => ht.1⟩⟩
  · simp only [PtxSim.delete_thread, Function.update_of_ne hq]
    exact ⟨trivial, trivial, fun t ht => ⟨ht, fun heq => absurd heq.symm hq⟩⟩

theorem Sound.delete_thread (hsound : s.Sound) {thd : Nat}
    (hdone : (s.threads thd).m_thread_done = true) : (s.delete_thread thd).Sound := by
  have hinfo := s.delete_thread_sets thd
  have hlive : ∀ {t}, t ∈ s.live_threads → t ≠ thd → t ∈ (s.delete_thread thd).live_threads :=
    fun ht hne => Finset.mem_erase.mpr ⟨hne, ht⟩
  constructor
  case tables => exact hsound.tables
  case info_mem => exact fun ht => hsound.info_mem (Finset.mem_of_mem_erase ht)
  case exited_subset =>
    intro q
    rw [(hinfo q).1, (hinfo q).2.1]
    exact hsound.exited_subset q
  case running =>
    intro q t hin hout
    rw [(hinfo q).1] at hin
    rw [(hinfo q).2.1] at hout
    have hrun := hsound.running hin hout
    refine ⟨hlive hrun.1 ?_, hrun.2⟩
    rintro rfl
    simp [hdone] at hrun
  case kept =>
    intro q t hin hout
    have hdangling := (hinfo q).2.2 t hout
    rw [(hinfo q).1] at hin
    have hkept := hsound.kept hin hdangling.1
    rw [(hinfo q).2.1]
    refine ⟨hlive hkept.1 ?_, hkept.2⟩
    rintro rfl
    exact hdangling.2 hkept.2.1 rfl
  case registered =>
    intro t ht hrun
    rw [(hinfo _).1, (hinfo _).2.1]
    exact hsound.registered (Finset.mem_of_mem_erase ht) hrun

structure Removed (s s' : PtxSim) (old : Option Nat) : Prop where
  sound : s'.Sound
  live_iff : ∀ t, t ∈ s'.live_threads ↔ t ∈ s.live_threads ∧ old ≠ some t
  threads_eq : s'.threads = s.threads
  shared_eq : s'.shared_memory_lookup = s.shared_memory_lookup
  cta_eq : s'.ptx_cta_lookup = s.ptx_cta_lookup
  local_eq : s'.local_memory_lookup = s.local_memory_lookup
  created_eq : s'.created = s.created
  sets_eq : ∀ q, (s'.cta_infos q).m_threads_in_cta = (s.cta_infos q).m_threads_in_cta ∧
    (s'.cta_infos q).m_threads_that_have_exited = (s.cta_infos q).m_threads_that_have_exited

theorem Sound.remove_old (hsound : s.Sound) {old : Option Nat}
    (hdone : ∀ thd, old = some thd → (s.threads thd).m_thread_done = true) :
    ∃ s', s.remove_old old = .ok s' ∧ s.Removed s' old := by
  cases old with
  | none =>
      exact ⟨s, rfl, hsound, by simp, rfl, rfl, rfl, rfl, rfl, fun _ => ⟨rfl, rfl⟩⟩
  | some thd =>
      refine ⟨s.delete_thread thd, if_pos (hdone thd rfl), hsound.delete_thread (hdone thd rfl),
        ?_, rfl, rfl, rfl, rfl, rfl, ?_⟩
      · intro t
        simp [PtxSim.delete_thread, and_comm, eq_comm]
      · intro q
        have hsets := s.delete_thread_sets thd q
        exact ⟨hsets.1, hsets.2.1⟩

theorem Sound.init (hsound : s.Sound) (thd sid hw_cta_id hw_warp_id tid : Nat) :
    (s.init thd sid hw_cta_id hw_warp_id tid).Sound := by
  have hsame : ∀ t, ((s.init thd sid hw_cta_id hw_warp_id tid).threads t).m_cta_info =
        (s.threads t).m_cta_info ∧
      ((s.init thd sid hw_cta_id hw_warp_id tid).threads t).m_thread_done =
        (s.threads t).m_thread_done := by
    intro t
    by_cases ht : t = thd
    · subst ht
      simp [PtxSim.init]
    · simp [PtxSim.init, Function.update_of_ne ht]
  constructor
  case tables => exact hsound.tables
  case info_mem =>
    intro t ht
    rw [(hsame t).1]
    exact hsound.info_mem ht
  case exited_subset => exact hsound.exited_subset
  case running =>
    intro q t hin hout
    rw [(hsame t).1, (hsame t).2]
    exact hsound.running hin hout
  case kept =>
    intro q t hin hout
    rw [(hsame t).1, (hsame t).2]
    exact hsound.kept hin hout
  case registered =>
    intro t ht hrun
    rw [(hsame t).2] at hrun
    rw [(hsame t).1]
    exact hsound.registered ht hrun

theorem Sound.exit_impl (hsound : s.Sound) {thd : Nat} (hlive : thd ∈ s.live_threads)
    (hrun : (s.threads thd).m_thread_done = false) :
    ∃ s', s.exit_impl thd = .ok s' ∧ s'.Sound ∧ s'.live_threads = s.live_threads ∧
      s'.threads = Function.update s.threads thd
        { s.threads thd with m_thread_done := true } ∧
      s'.shared_memory_lookup = s.shared_memory_lookup ∧
      s'.ptx_cta_lookup = s.ptx_cta_lookup ∧
      s'.local_memory_lookup = s.local_memory_lookup ∧ s'.created = s.created := by
  have hregistered := hsound.registered hlive hrun
  rw [PtxSim.exit_impl]
  simp only [if_neg hregistered.2]
  refine ⟨_, rfl, ?_, rfl, rfl, rfl, rfl, rfl, rfl⟩
  generalize hs' : ({ s with
    threads := Function.update s.threads thd { s.threads thd with m_thread_done := true }
    cta_infos := Function.update s.cta_infos (s.threads thd).m_cta_info
      { s.cta_infos (s.threads thd).m_cta_info with
        m_threads_that_have_exited := insert thd
          (s.cta_infos (s.threads thd).m_cta_info).m_threads_that_have_exited } } : PtxSim) = s'
  have hthreads : ∀ t, (s'.threads t).m_cta_info = (s.threads t).m_cta_info ∧
      (t ≠ thd → (s'.threads t).m_thread_done = (s.threads t).m_thread_done) ∧
      (t = thd → (s'.threads t).m_thread_done = true) := by
    intro t
    subst hs'
    by_cases ht : t = thd
    · subst ht
      simp
    · simp [ht]
  have hinfo : ∀ q, (s'.cta_infos q).m_threads_in_cta = (s.cta_infos q).m_threads_in_cta ∧
      (s'.cta_infos q).m_dangling_pointers = (s.cta_infos q).m_dangling_pointers ∧
      ∀ t, t ∈ (s'.cta_infos q).m_threads_that_have_exited ↔
        t ∈ (s.cta_infos q).m_threads_that_have_exited ∨
          (q = (s.threads thd).m_cta_info ∧ t = thd) := by
    intro q
    subst hs'
    by_cases hq : q = (s.threads thd).m_cta_info
    · subst hq
      simp only [Function.update_self, Finset.mem_insert]
      exact ⟨trivial, trivial, fun t => by tauto⟩
    · simp [hq]
  have htables : s'.shared_memory_lookup = s.shared_memory_lookup ∧
      s'.ptx_cta_lookup = s.ptx_cta_lookup ∧
      s'.local_memory_lookup = s.local_memory_lookup ∧ s'.objects = s.objects ∧
      s'.live_threads = s.live_threads ∧
      s'.g_ptx_cta_info_sm_idx_used = s.g_ptx_cta_info_sm_idx_used := by
    subst hs'
    exact ⟨rfl, rfl, rfl, rfl, rfl, rfl⟩
  clear hs'
  obtain ⟨hshared, hcta, hlocal, hobjects, hlives, hused⟩ := htables
  constructor
  case tables =>
    rw [hobjects, hshared, hcta, hlocal, hused]
    exact hsound.tables
  case info_mem =>
    intro t ht
    rw [(hthreads t).1, hobjects]
    exact hsound.info_mem (hlives ▸ ht)
  case exited_subset =>
    intro q t ht
    rw [(hinfo q).1]
    cases ((hinfo q).2.2 t).mp ht with
    | inl hold => exact hsound.exited_subset q hold
    | inr hnew => rw [hnew.1, hnew.2]; exact hregistered.1
  case running =>
    intro q t hin hout
    rw [(hinfo q).1] at hin
    rw [(hinfo q).2.2, not_or] at hout
    have hold := hsound.running hin hout.1
    have hne : t ≠ thd := by
      rintro rfl
      exact hout.2 ⟨hold.2.1.symm, rfl⟩
    rw [hlives, (hthreads t).1, (hthreads t).2.1 hne]
    exact hold
  case kept =>
    intro q t hin hout
    rw [(hinfo q).1] at hin
    rw [(hinfo q).2.1] at hout
    have hold := hsound.kept hin hout
    rw [hlives, (hthreads t).1]
    refine ⟨hold.1, hold.2.1, fun hexited => ?_⟩
    by_cases ht : t = thd
    · exact (hthreads t).2.2 ht
    · rw [(hthreads t).2.1 ht]
      cases ((hinfo q).2.2 t).mp hexited with
      | inl hbefore => exact hold.2.2 hbefore
      | inr hnew => exact absurd hnew.2 ht
  case registered =>
    intro t ht hnot
    have hne : t ≠ thd := by
      rintro rfl
      rw [(hthreads t).2.2 rfl] at hnot
      cases hnot
    rw [(hthreads t).2.1 hne] at hnot
    have hold := hsound.registered (hlives ▸ ht) hnot
    rw [(hthreads t).1, (hinfo _).1, (hinfo _).2.2, not_or]
    exact ⟨hold.1, hold.2, fun hnew => hne hnew.2⟩

/-! ## The memories of a new block -/

theorem Tables.cta_alloc {objects used : Finset Nat} {shared cta : Nat → Option Nat}
    {localMem : Nat → Nat → Option Nat} (htables : Tables objects shared cta localMem used)
    {p q : Nat} (hp : p ∉ objects) (hq : q ∉ insert p objects) (i : Nat) :
    Tables (insert q (insert p objects)) (Function.update shared i (some p))
      (Function.update cta i (some q)) localMem (insert i used) where
  shared_table := (htables.shared_table.insert hp i).mono (Finset.subset_insert _ _)
  cta_table := (htables.cta_table.mono (Finset.subset_insert _ _)).insert hq i
  local_table := htables.local_table.mono
    ((Finset.subset_insert _ _).trans (Finset.subset_insert _ _))
  both := by
    intro j
    by_cases hj : j = i
    · simp [hj]
    · simpa [hj] using htables.both j
  used_iff := by
    intro j
    by_cases hj : j = i
    · simp [hj]
    · simpa [hj] using htables.used_iff j

theorem Sound.replace_info (hsound : s.Sound) {s' : PtxSim} {q i : Nat}
    (hidle : ∀ t ∈ s.live_threads, (s.threads t).m_thread_done = false →
      (s.threads t).m_cta_info ≠ q)
    (htables : Tables s'.objects s'.shared_memory_lookup s'.ptx_cta_lookup
      s'.local_memory_lookup s'.g_ptx_cta_info_sm_idx_used)
    (hobjects : s.objects ⊆ s'.objects) (hlive : s'.live_threads = s.live_threads)
    (hthreads : s'.threads = s.threads)
    (hinfos : s'.cta_infos = Function.update s.cta_infos q (PtxCtaInfo.new i)) : s'.Sound := by
  have hother : ∀ r t, t ∈ (s'.cta_infos r).m_threads_in_cta →
      s'.cta_infos r = s.cta_infos r := by
    intro r t ht
    by_cases hr : r = q
    · rw [hinfos, hr, Function.update_self] at ht
      exact absurd ht (Finset.notMem_empty t)
    · rw [hinfos, Function.update_of_ne hr]
  constructor
  case tables => exact htables
  case info_mem =>
    intro t ht
    rw [hthreads]
    exact hobjects (hsound.info_mem (hlive ▸ ht))
  case exited_subset =>
    intro r
    by_cases hr : r = q
    · simp [hinfos, hr, PtxCtaInfo.new]
    · rw [hinfos, Function.update_of_ne hr]
      exact hsound.exited_subset r
  case running =>
    intro r t hin hout
    have hsame := hother r t hin
    rw [hsame] at hin hout
    rw [hlive, hthreads]
    exact hsound.running hin hout
  case kept =>
    intro r t hin hout
    have hsame := hother r t hin
    rw [hsame] at hin hout
    rw [hlive, hthreads, hsame]
    exact hsound.kept hin hout
  case registered =>
    intro t ht hrun
    rw [hlive] at ht
    rw [hthreads] at hrun ⊢
    rw [hinfos, Function.update_of_ne (hidle t ht hrun)]
    exact hsound.registered ht hrun

structure CtaAlloc (s s' : PtxSim) (sm_idx shared_mem cta_info : Nat) : Prop where
  sound : s'.Sound
  shared_eq : s'.shared_memory_lookup sm_idx = some shared_mem
  cta_eq : s'.ptx_cta_lookup sm_idx = some cta_info
  shared_mono : ∀ {i p}, s.shared_memory_lookup i = some p → s'.shared_memory_lookup i = some p
  cta_mono : ∀ {i p}, s.ptx_cta_lookup i = some p → s'.ptx_cta_lookup i = some p
  local_eq : s'.local_memory_lookup = s.local_memory_lookup
  live_eq : s'.live_threads = s.live_threads
  threads_eq : s'.threads = s.threads
  created_eq : s'.created = s.created
  none_exited : (s'.cta_infos cta_info).m_threads_that_have_exited = ∅

theorem Sound.cta_alloc (hsound : s.Sound) (heap : Allocator) {sm_idx : Nat}
    (hfinished : ∀ q, s.ptx_cta_lookup sm_idx = some q →
      (s.cta_infos q).m_threads_in_cta ⊆ (s.cta_infos q).m_threads_that_have_exited) :
    ∃ shared_mem cta_info s', s.cta_alloc heap sm_idx = .ok (shared_mem, cta_info, s') ∧
      s.CtaAlloc s' sm_idx shared_mem cta_info := by
  unfold PtxSim.cta_alloc
  cases hshared : s.shared_memory_lookup sm_idx with
  | none =>
      have hcta := (hsound.tables.both sm_idx).mp hshared
      have hunused : sm_idx ∉ s.g_ptx_cta_info_sm_idx_used := by
        simp [hsound.tables.used_iff, hcta]
      have hp := s.address_not_object heap
      have hq := (s.new_shared_mem heap sm_idx).address_not_object heap
      have hnew : (s.new_shared_mem heap sm_idx).new_cta_info heap sm_idx = .ok _ :=
        if_neg hunused
      refine ⟨_, _, _, by simp only [hnew]; rfl, ?_⟩
      constructor
      case sound =>
        refine hsound.replace_info (q := (s.new_shared_mem heap sm_idx).address heap)
          (i := sm_idx) ?_ (hsound.tables.cta_alloc hp hq sm_idx)
          ((Finset.subset_insert _ _).trans (Finset.subset_insert _ _)) rfl rfl rfl
        intro t ht _ heq
        exact hq (heq ▸ Finset.mem_insert_of_mem (hsound.info_mem ht))
      case shared_eq => simp [new_shared_mem]
      case cta_eq => simp
      case shared_mono => exact fun h => AddressTable.update_of_some hshared h
      case cta_mono => exact fun h => AddressTable.update_of_some hcta h
      case local_eq => rfl
      case live_eq => rfl
      case threads_eq => rfl
      case created_eq => rfl
      case none_exited => simp [PtxCtaInfo.new]
  | some shared_mem =>
      cases hcta : s.ptx_cta_lookup sm_idx with
      | none => simp [(hsound.tables.both sm_idx).mpr hcta] at hshared
      | some cta_info =>
          have hsubset := hfinished cta_info hcta
          have hcard : (s.cta_infos cta_info).m_threads_that_have_exited.card =
              (s.cta_infos cta_info).m_threads_in_cta.card :=
            congrArg _ ((hsound.exited_subset cta_info).antisymm hsubset)
          have hdone : ¬ ∃ t ∈ (s.cta_infos cta_info).m_threads_in_cta,
              t ∉ (s.cta_infos cta_info).m_dangling_pointers ∧
                (s.threads t).m_thread_done = false := by
            rintro ⟨t, hin, hkept, hrun⟩
            simp [(hsound.kept hin hkept).2.2 (hsubset hin)] at hrun
          have hcheck : s.check_cta_thread_status_and_reset cta_info = .ok _ :=
            (if_neg (not_not.mpr hcard)).trans (if_neg hdone)
          refine ⟨_, _, _, by simp only [hcheck]; rfl, ?_⟩
          constructor
          case sound =>
            refine hsound.replace_info (q := cta_info) ?_ hsound.tables
              (Finset.Subset.refl _) rfl rfl rfl
            intro t ht hrun heq
            have hregistered := hsound.registered ht hrun
            rw [heq] at hregistered
            exact hregistered.2 (hsubset hregistered.1)
          case shared_eq => exact hshared
          case cta_eq => exact hcta
          case shared_mono => exact fun h => h
          case cta_mono => exact fun h => h
          case local_eq => rfl
          case live_eq => rfl
          case threads_eq => rfl
          case created_eq => rfl
          case none_exited => simp [PtxCtaInfo.new]

/-! ## The threads of a new block -/

structure LocalMem (s s' : PtxSim) (sid new_tid l : Nat) : Prop where
  tables : Tables s'.objects s'.shared_memory_lookup s'.ptx_cta_lookup s'.local_memory_lookup
    s'.g_ptx_cta_info_sm_idx_used
  local_eq : s'.local_memory_lookup sid new_tid = some l
  local_mono : ∀ {i t p}, s.local_memory_lookup i t = some p →
    s'.local_memory_lookup i t = some p
  objects : s.objects ⊆ s'.objects
  shared_eq : s'.shared_memory_lookup = s.shared_memory_lookup
  cta_eq : s'.ptx_cta_lookup = s.ptx_cta_lookup
  infos_eq : s'.cta_infos = s.cta_infos
  threads_eq : s'.threads = s.threads
  live_eq : s'.live_threads = s.live_threads
  created_eq : s'.created = s.created

theorem update_local (lookup : Nat → Nat → Option Nat) (sid t : Nat) (p : Option Nat) :
    (fun i : Nat × Nat => Function.update lookup sid (Function.update (lookup sid) t p) i.1 i.2) =
      Function.update (fun i : Nat × Nat => lookup i.1 i.2) (sid, t) p := by
  funext i
  by_cases hi : i.1 = sid
  · subst hi
    by_cases ht : i.2 = t
    · subst ht
      simp
    · have hne : i ≠ (i.1, t) := fun heq => ht (congrArg Prod.snd heq)
      simp [ht, hne]
  · have hne : i ≠ (sid, t) := fun heq => hi (congrArg Prod.fst heq)
    simp [hi, hne]

theorem local_mem_spec (htables : Tables s.objects s.shared_memory_lookup s.ptx_cta_lookup
      s.local_memory_lookup s.g_ptx_cta_info_sm_idx_used) (heap : Allocator)
    (sid new_tid : Nat) :
    s.LocalMem (s.local_mem heap sid new_tid).2 sid new_tid (s.local_mem heap sid new_tid).1 := by
  unfold PtxSim.local_mem
  cases hlookup : s.local_memory_lookup sid new_tid with
  | some l =>
      exact ⟨htables, hlookup, fun h => h, Finset.Subset.refl _, rfl, rfl, rfl, rfl, rfl, rfl⟩
  | none =>
      have hfresh := s.address_not_object heap
      have hsubset := Finset.subset_insert (s.address heap) s.objects
      have hupdate := update_local s.local_memory_lookup sid new_tid (some (s.address heap))
      constructor
      case tables =>
        refine ⟨htables.shared_table.mono hsubset, htables.cta_table.mono hsubset, ?_,
          htables.both, htables.used_iff⟩
        show AddressTable _ (fun i : Nat × Nat => Function.update s.local_memory_lookup sid
          (Function.update (s.local_memory_lookup sid) new_tid (some (s.address heap))) i.1 i.2)
        rw [hupdate]
        exact htables.local_table.insert hfresh (sid, new_tid)
      case local_eq => simp
      case local_mono =>
        intro i t p hold
        have hentry : Function.update (fun i : Nat × Nat => s.local_memory_lookup i.1 i.2)
            (sid, new_tid) (some (s.address heap)) (i, t) = some p :=
          AddressTable.update_of_some hlookup hold
        exact (congrFun hupdate (i, t)).trans hentry
      case objects => exact hsubset
      all_goals rfl

structure ThreadCreated (s s' : PtxSim) (uid sid new_tid shared_mem cta_info : Nat)
    (ctaid tid3d : Dim3) (thd : Nat) : Prop where
  sound : s'.Sound
  fresh : thd ∉ s.live_threads
  live_eq : s'.live_threads = insert thd s.live_threads
  record : ∃ l, s'.local_memory_lookup sid new_tid = some l ∧
    s'.threads = Function.update s.threads thd
      (fresh_thread uid ctaid tid3d shared_mem cta_info l)
  local_mono : ∀ {i t p}, s.local_memory_lookup i t = some p →
    s'.local_memory_lookup i t = some p
  shared_eq : s'.shared_memory_lookup = s.shared_memory_lookup
  cta_eq : s'.ptx_cta_lookup = s.ptx_cta_lookup
  created_eq : s'.created = s.created ++ [⟨uid, ctaid, tid3d, sid, new_tid⟩]
  none_exited : (s'.cta_infos cta_info).m_threads_that_have_exited = ∅

theorem Sound.create_thread (hsound : s.Sound) (heap : Allocator) (uid sid tid shared_mem : Nat)
    {cta_info : Nat} (k : KernelInfo) (hinfo : cta_info ∈ s.objects)
    (hnone : (s.cta_infos cta_info).m_threads_that_have_exited = ∅) :
    (s.create_thread heap uid sid tid shared_mem cta_info k).1 =
        { k.increment_thread_id with m_active_threads := k.m_active_threads ++ [s.address heap] } ∧
      s.ThreadCreated (s.create_thread heap uid sid tid shared_mem cta_info k).2 uid sid
        (k.get_next_thread_id + tid) shared_mem cta_info k.m_next_cta k.m_next_tid
        (s.address heap) := by
  refine ⟨rfl, ?_⟩
  have hfresh := s.address_not_live heap
  have hlocal := local_mem_spec
    (s := { s with live_threads := insert (s.address heap) s.live_threads }) hsound.tables heap
    sid (k.get_next_thread_id + tid)
  generalize hs' : (s.create_thread heap uid sid tid shared_mem cta_info k).2 = s'
  simp only [PtxSim.create_thread] at hs'
  generalize PtxSim.local_mem _ heap sid (k.get_next_thread_id + tid) = memory at hs' hlocal
  obtain ⟨l, s₂⟩ := memory
  obtain ⟨htables, hl, hmono, hobjects, hshared, hcta, hinfos, hthreads, hlive, hcreated⟩ := hlocal
  simp only at htables hl hmono hobjects hshared hcta hinfos hthreads hlive hcreated
  -- the sets of the block get the new pointer, those of the others stay
  have hin : ∀ q t, t ∈ (s'.cta_infos q).m_threads_in_cta ↔
      t ∈ (s.cta_infos q).m_threads_in_cta ∨ (q = cta_info ∧ t = s.address heap) := by
    intro q t
    subst hs'
    by_cases hq : q = cta_info
    · subst hq
      simp [hinfos, or_comm]
    · simp [hinfos, hq]
  have hsets : ∀ q, (s'.cta_infos q).m_threads_that_have_exited =
        (s.cta_infos q).m_threads_that_have_exited ∧
      (s'.cta_infos q).m_dangling_pointers = (s.cta_infos q).m_dangling_pointers := by
    intro q
    subst hs'
    by_cases hq : q = cta_info
    · subst hq
      simp [hinfos]
    · simp [hinfos, hq]
  have hthread : s'.threads = Function.update s.threads (s.address heap)
      (fresh_thread uid k.m_next_cta k.m_next_tid shared_mem cta_info l) := by
    subst hs'
    simp [hthreads]
  have hlive' : s'.live_threads = insert (s.address heap) s.live_threads := by
    subst hs'
    exact hlive
  have hobjects' : s.objects ⊆ s'.objects := by
    subst hs'
    exact hobjects
  have hold : ∀ {t}, t ∈ s.live_threads → s'.threads t = s.threads t := by
    intro t ht
    have hne : t ≠ s.address heap := fun heq => hfresh (heq ▸ ht)
    rw [hthread, Function.update_of_ne hne]
  have hnew : s'.threads (s.address heap) =
      fresh_thread uid k.m_next_cta k.m_next_tid shared_mem cta_info l := by
    rw [hthread, Function.update_self]
  constructor
  case sound =>
    constructor
    case tables =>
      subst hs'
      exact htables
    case info_mem =>
      intro t ht
      rw [hlive', Finset.mem_insert] at ht
      cases ht with
      | inl heq =>
          rw [heq, hnew]
          exact hobjects' hinfo
      | inr hbefore =>
          rw [hold hbefore]
          exact hobjects' (hsound.info_mem hbefore)
    case exited_subset =>
      intro q t ht
      rw [(hsets q).1] at ht
      exact (hin q t).mpr (Or.inl (hsound.exited_subset q ht))
    case running =>
      intro q t hmem hout
      rw [(hsets q).1] at hout
      rw [hlive']
      cases (hin q t).mp hmem with
      | inl hbefore =>
          have hrun := hsound.running hbefore hout
          rw [hold hrun.1]
          exact ⟨Finset.mem_insert_of_mem hrun.1, hrun.2⟩
      | inr hadded =>
          rw [hadded.1, hadded.2, hnew]
          exact ⟨Finset.mem_insert_self _ _, rfl, rfl⟩
    case kept =>
      intro q t hmem hout
      rw [(hsets q).2] at hout
      rw [(hsets q).1, hlive']
      cases (hin q t).mp hmem with
      | inl hbefore =>
          have hkept := hsound.kept hbefore hout
          rw [hold hkept.1]
          exact ⟨Finset.mem_insert_of_mem hkept.1, hkept.2⟩
      | inr hadded =>
          rw [hadded.1, hadded.2, hnew, hnone]
          exact ⟨Finset.mem_insert_self _ _, rfl, fun h => absurd h (Finset.notMem_empty _)⟩
    case registered =>
      intro t ht hrun
      rw [(hsets _).1, hin]
      rw [hlive', Finset.mem_insert] at ht
      cases ht with
      | inl heq =>
          rw [heq, hnew]
          refine ⟨Or.inr ⟨rfl, rfl⟩, ?_⟩
          show s.address heap ∉ (s.cta_infos cta_info).m_threads_that_have_exited
          rw [hnone]
          exact Finset.notMem_empty _
      | inr hbefore =>
          rw [hold hbefore] at hrun ⊢
          have hregistered := hsound.registered hbefore hrun
          exact ⟨Or.inl hregistered.1, hregistered.2⟩
  case fresh => exact hfresh
  case live_eq => exact hlive'
  case record =>
    refine ⟨l, ?_, hthread⟩
    subst hs'
    exact hl
  case local_mono =>
    subst hs'
    exact hmono
  case shared_eq =>
    subst hs'
    exact hshared
  case cta_eq =>
    subst hs'
    exact hcta
  case created_eq =>
    subst hs'
    simp [hcreated]
  case none_exited => rw [(hsets cta_info).1, hnone]

/-- The kernel after the threads of `ps` have been created. -/
def kernelAt (k : KernelInfo) (ps : List Nat) : KernelInfo :=
  { k with m_next_tid := k.m_block_dim.nth ps.length, m_active_threads := ps }

/-- The first `ps.length` threads of a block, created since `s`. -/
structure CtaThreads (s s' : PtxSim) (uid sid tid : Nat) (k : KernelInfo)
    (shared_mem cta_info : Nat) (ps : List Nat) : Prop where
  sound : s'.Sound
  fresh : ∀ p ∈ ps, p ∉ s.live_threads
  nodup : ps.Nodup
  live_eq : s'.live_threads = s.live_threads ∪ ps.toFinset
  frame : ∀ t, t ∉ ps → s'.threads t = s.threads t
  record : ∀ i p, ps[i]? = some p → ∃ l, s'.local_memory_lookup sid (i + tid) = some l ∧
    s'.threads p = fresh_thread uid k.m_next_cta (k.m_block_dim.nth i) shared_mem cta_info l
  local_mono : ∀ {i t p}, s.local_memory_lookup i t = some p →
    s'.local_memory_lookup i t = some p
  shared_eq : s'.shared_memory_lookup = s.shared_memory_lookup
  cta_eq : s'.ptx_cta_lookup = s.ptx_cta_lookup
  created_eq : s'.created = s.created ++ (List.range ps.length).map fun i =>
    ⟨uid, k.m_next_cta, k.m_block_dim.nth i, sid, i + tid⟩
  none_exited : (s'.cta_infos cta_info).m_threads_that_have_exited = ∅

theorem CtaThreads.none (hsound : s.Sound) {uid sid tid shared_mem cta_info : Nat}
    {k : KernelInfo} (hnone : (s.cta_infos cta_info).m_threads_that_have_exited = ∅) :
    s.CtaThreads s uid sid tid k shared_mem cta_info [] where
  sound := hsound
  fresh := by simp
  nodup := List.nodup_nil
  live_eq := by simp
  frame := fun _ _ => rfl
  record := by simp
  local_mono := fun h => h
  shared_eq := rfl
  cta_eq := rfl
  created_eq := by simp
  none_exited := hnone

theorem CtaThreads.create_thread {s' : PtxSim} {uid sid tid shared_mem cta_info : Nat}
    {k : KernelInfo} {ps : List Nat} {issued : Nat} (hsettled : k.Settled issued)
    (hthreads : s.CtaThreads s' uid sid tid k shared_mem cta_info ps) (heap : Allocator)
    (hinfo : cta_info ∈ s'.objects) (hmore : ps.length < k.threads_per_cta) :
    (s'.create_thread heap uid sid tid shared_mem cta_info (kernelAt k ps)).1 =
        kernelAt k (ps ++ [s'.address heap]) ∧
      s.CtaThreads (s'.create_thread heap uid sid tid shared_mem cta_info (kernelAt k ps)).2
        uid sid tid k shared_mem cta_info (ps ++ [s'.address heap]) := by
  have hstep := hthreads.sound.create_thread heap uid sid tid shared_mem (kernelAt k ps) hinfo
    hthreads.none_exited
  have hlinear : (kernelAt k ps).get_next_thread_id = ps.length := by
    have hlt : ps.length < 2 ^ 32 := hmore.trans (Nat.mod_lt _ (by norm_num))
    show (k.m_block_dim.nth ps.length).linear k.m_block_dim % 2 ^ 32 = ps.length
    rw [Dim3.linear_nth, Nat.mod_eq_of_lt hlt]
  rw [hlinear] at hstep
  obtain ⟨hkernel, hcreated⟩ := hstep
  have hnotin : s'.address heap ∉ ps := by
    intro hmem
    apply hcreated.fresh
    rw [hthreads.live_eq]
    exact Finset.mem_union_right _ (List.mem_toFinset.mpr hmem)
  constructor
  · rw [hkernel]
    show ({ k with
        m_next_tid := (k.m_block_dim.nth ps.length).increment_x_then_y_then_z k.m_block_dim
        m_active_threads := ps ++ [s'.address heap] } : KernelInfo) = _
    rw [Dim3.increment_nth (hsettled.threads_eq ▸ hmore)]
    simp [kernelAt]
  · obtain ⟨l, hlocal, hupdate⟩ := hcreated.record
    constructor
    case sound => exact hcreated.sound
    case fresh =>
      intro p hp
      cases List.mem_append.mp hp with
      | inl hbefore => exact hthreads.fresh p hbefore
      | inr hlast =>
          rw [List.mem_singleton.mp hlast]
          intro hmem
          apply hcreated.fresh
          rw [hthreads.live_eq]
          exact Finset.mem_union_left _ hmem
    case nodup =>
      rw [List.nodup_append]
      refine ⟨hthreads.nodup, List.nodup_singleton _, ?_⟩
      intro a ha b hb heq
      rw [List.mem_singleton.mp hb] at heq
      exact hnotin (heq ▸ ha)
    case live_eq =>
      rw [hcreated.live_eq, hthreads.live_eq]
      ext t
      simp
    case frame =>
      intro t ht
      rw [List.mem_append, not_or, List.mem_singleton] at ht
      rw [hupdate, Function.update_of_ne ht.2]
      exact hthreads.frame t ht.1
    case record =>
      intro i p hp
      by_cases hi : i < ps.length
      · rw [List.getElem?_append_left hi] at hp
        obtain ⟨l', hlocal', hrecord⟩ := hthreads.record i p hp
        have hne : p ≠ s'.address heap := by
          rintro rfl
          exact hnotin (List.mem_of_getElem? hp)
        refine ⟨l', hcreated.local_mono hlocal', ?_⟩
        rw [hupdate, Function.update_of_ne hne, hrecord]
      · rw [List.getElem?_append_right (Nat.le_of_not_lt hi)] at hp
        have hlast : i - ps.length = 0 := by
          have := (List.getElem?_eq_some_iff.mp hp).1
          simpa using this
        have heq : i = ps.length := by omega
        rw [hlast] at hp
        obtain rfl : s'.address heap = p := by simpa using hp
        subst heq
        refine ⟨l, hlocal, ?_⟩
        rw [hupdate, Function.update_self]
        rfl
    case local_mono => exact fun h => hcreated.local_mono (hthreads.local_mono h)
    case shared_eq => exact hcreated.shared_eq.trans hthreads.shared_eq
    case cta_eq => exact hcreated.cta_eq.trans hthreads.cta_eq
    case created_eq =>
      rw [hcreated.created_eq, hthreads.created_eq]
      simp [List.range_succ, kernelAt]
    case none_exited => exact hcreated.none_exited

theorem CtaThreads.create_threads {uid sid tid shared_mem cta_info : Nat} {k : KernelInfo}
    {issued : Nat} (hsettled : k.Settled issued) (heap : Allocator) {i : Nat}
    (hcta : s.ptx_cta_lookup i = some cta_info) :
    ∀ (fuel : Nat) {s' : PtxSim} {ps : List Nat},
      s.CtaThreads s' uid sid tid k shared_mem cta_info ps →
      ps.length + fuel = k.threads_per_cta + 1 → ps.length ≤ k.threads_per_cta →
      ∃ ps' s'', ps'.length = k.threads_per_cta ∧
        PtxSim.create_threads heap uid sid tid shared_mem cta_info fuel (kernelAt k ps) s' =
          (kernelAt k ps', s'') ∧
        s.CtaThreads s'' uid sid tid k shared_mem cta_info ps' := by
  intro fuel
  induction fuel with
  | zero =>
      intro s' ps _ hfuel hle
      omega
  | succ fuel ih =>
      intro s' ps hthreads hfuel hle
      have hmore : (kernelAt k ps).more_threads_in_cta = true ↔
          ps.length < k.threads_per_cta := by
        rw [KernelInfo.more_threads_in_cta_iff, hsettled.threads_eq]
        exact k.m_block_dim.nth_within ps.length
      by_cases hlt : ps.length < k.threads_per_cta
      · have hinfo : cta_info ∈ s'.objects :=
          hthreads.sound.tables.cta_table.mem (hthreads.cta_eq ▸ hcta)
        have hstep := hthreads.create_thread hsettled heap hinfo hlt
        rw [PtxSim.create_threads, if_pos (hmore.mpr hlt)]
        simp only [hstep.1]
        have hlength : (ps ++ [s'.address heap]).length = ps.length + 1 := by simp
        exact ih hstep.2 (by omega) (by omega)
      · refine ⟨ps, s', by omega, ?_, hthreads⟩
        rw [PtxSim.create_threads, if_neg (fun h => hlt (hmore.mp h))]

structure CtaCreated (s s' : PtxSim) (sm_idx uid sid tid : Nat) (k : KernelInfo)
    (shared_mem cta_info : Nat) (ps : List Nat) : Prop where
  sound : s'.Sound
  length_eq : ps.length = k.threads_per_cta
  fresh : ∀ p ∈ ps, p ∉ s.live_threads
  nodup : ps.Nodup
  live_eq : s'.live_threads = s.live_threads ∪ ps.toFinset
  frame : ∀ t, t ∉ ps → s'.threads t = s.threads t
  record : ∀ i p, ps[i]? = some p → ∃ l, s'.local_memory_lookup sid (i + tid) = some l ∧
    s'.threads p = fresh_thread uid k.m_next_cta (k.m_block_dim.nth i) shared_mem cta_info l
  shared_eq : s'.shared_memory_lookup sm_idx = some shared_mem
  cta_eq : s'.ptx_cta_lookup sm_idx = some cta_info
  shared_mono : ∀ {i p}, s.shared_memory_lookup i = some p → s'.shared_memory_lookup i = some p
  cta_mono : ∀ {i p}, s.ptx_cta_lookup i = some p → s'.ptx_cta_lookup i = some p
  local_mono : ∀ {i t p}, s.local_memory_lookup i t = some p →
    s'.local_memory_lookup i t = some p
  created_eq : s'.created = s.created ++ (List.range k.threads_per_cta).map fun i =>
    ⟨uid, k.m_next_cta, k.m_block_dim.nth i, sid, i + tid⟩

theorem Sound.create_cta (hsound : s.Sound) (heap : Allocator) (config : ShaderConfig)
    (uid : Nat) {sid tid issued : Nat} {k : KernelInfo} (hsettled : k.Settled issued)
    (hfinished : ∀ q, s.ptx_cta_lookup (config.sm_idx sid k.threads_per_cta tid) = some q →
      (s.cta_infos q).m_threads_in_cta ⊆ (s.cta_infos q).m_threads_that_have_exited) :
    ∃ shared_mem cta_info ps s',
      s.create_cta heap config uid sid tid k =
        .ok ({ k.increment_cta_id with m_active_threads := ps }, s') ∧
      s.CtaCreated s' (config.sm_idx sid k.threads_per_cta tid) uid sid tid k shared_mem
        cta_info ps := by
  obtain ⟨shared_mem, cta_info, s₁, halloc, hcta⟩ := hsound.cta_alloc heap hfinished
  have hstart : kernelAt k [] = k := by
    have htid := hsettled.next_tid
    have hactive := hsettled.no_active
    cases k
    simp_all [kernelAt]
  have hthreads₀ : s₁.CtaThreads s₁ uid sid tid k shared_mem cta_info [] :=
    CtaThreads.none hcta.sound hcta.none_exited
  obtain ⟨ps, s₂, hlength, hloop, hthreads⟩ :=
    CtaThreads.create_threads hsettled heap hcta.cta_eq (k.threads_per_cta + 1) hthreads₀ (by simp)
      (Nat.zero_le _)
  rw [hstart] at hloop
  refine ⟨shared_mem, cta_info, ps, s₂, ?_, ?_⟩
  · simp only [PtxSim.create_cta, halloc, bind, Except.bind, hloop]
    rfl
  · constructor
    case sound => exact hthreads.sound
    case length_eq => exact hlength
    case fresh => exact hcta.live_eq ▸ hthreads.fresh
    case nodup => exact hthreads.nodup
    case live_eq => rw [hthreads.live_eq, hcta.live_eq]
    case frame => exact fun t ht => (hthreads.frame t ht).trans (by rw [hcta.threads_eq])
    case record => exact hthreads.record
    case shared_eq => rw [hthreads.shared_eq, hcta.shared_eq]
    case cta_eq => rw [hthreads.cta_eq, hcta.cta_eq]
    case shared_mono => exact fun h => by rw [hthreads.shared_eq, hcta.shared_mono h]
    case cta_mono => exact fun h => by rw [hthreads.cta_eq, hcta.cta_mono h]
    case local_mono => exact fun h => hthreads.local_mono (by rw [hcta.local_eq, h])
    case created_eq => rw [hthreads.created_eq, hcta.created_eq, hlength]

end PtxSim

end AesOnGpu.Cta
