import AesOnGpu.Coalescing.Requests

/-! # Coalescing disabled

Each active thread of a sub-warp sends the whole segment of its request, by
itself and in the order of the threads.  Neither the number of the accesses nor
their sizes and masks depend on the addresses.

`coal_disabled_dyn` takes precedence over `coal_disabled`: where it is set, only
the instructions of line `coal_line_num` are not coalesced.  Threads beyond the
last whole sub-warp send nothing.
-/

namespace AesOnGpu.Coalescing

variable {config : CoreConfig} {inst : WarpInst config.warp_size} (is_write : Bool)
  (access_type : MemAccessType)

/-! ## What is sent -/

def threadAccesses {warpSize : Nat} (inst : WarpInst warpSize) (is_write : Bool)
    (access_type : MemAccessType) (thread : Fin warpSize) : List (MemAccess warpSize) :=
  ((transactionsOf inst).collect (inst.requests thread)).toList.map
    (wholeSegment inst is_write access_type)

theorem subwarpTurn_disabled (disabled : coalDisabledLoc config inst = true)
    (valid : inst.ValidSize) {subwarp : Nat}
    (same : ∀ thread ∈ activeThreads config inst subwarp, inst.SameSegment thread)
    (m_accessq : List (MemAccess config.warp_size)) :
    subwarpTurn config inst is_write access_type (m_accessq, true) subwarp =
      some (m_accessq ++ (activeThreads config inst subwarp).flatMap
        (threadAccesses inst is_write access_type), true) := by
  obtain ⟨map, run⟩ := threadTurns_disabled is_write access_type disabled valid
    (subwarpThreads config subwarp) same ⟨m_accessq, ∅, true⟩ rfl
  rw [subwarpTurn, run]
  rfl

theorem memoryCoalescing_disabled (disabled : coalDisabledLoc config inst = true)
    (valid : inst.ValidSize) (same : SameSegments config inst)
    (m_accessq : List (MemAccess config.warp_size)) :
    memoryCoalescingArch13 config inst is_write access_type m_accessq =
      some (m_accessq ++ (List.range config.mem_warp_parts).flatMap fun subwarp =>
        (activeThreads config inst subwarp).flatMap (threadAccesses inst is_write access_type)) := by
  have turn (subwarp : Nat) (member : subwarp ∈ List.range config.mem_warp_parts)
      (queue : List (MemAccess config.warp_size)) (loc : Bool) (isDisabled : loc = true) :
      ∃ loc', loc' = true ∧ subwarpTurn config inst is_write access_type (queue, loc) subwarp =
        some (queue ++ (activeThreads config inst subwarp).flatMap
          (threadAccesses inst is_write access_type), loc') := by
    subst isDisabled
    exact ⟨true, rfl, subwarpTurn_disabled is_write access_type disabled valid
      (same subwarp (List.mem_range.mp member)) queue⟩
  obtain ⟨loc, _, run⟩ := List.foldlM_appends _ (fun loc => loc = true) turn m_accessq rfl
  rw [memoryCoalescingArch13, run]
  rfl

/-! ## Thread order -/

theorem filter_lt_append {w a b : Nat} (ordered : a ≤ b) {list : List (Fin w)}
    (ascending : list.Pairwise (· < ·)) :
    (list.filter fun t => t.val < a) ++ (list.filter fun t => a ≤ t.val ∧ t.val < b) =
      list.filter fun t => t.val < b := by
  induction list with
  | nil => rfl
  | cons t list ih =>
    obtain ⟨first, rest⟩ := List.pairwise_cons.mp ascending
    by_cases below : t.val < a
    · have belowB : t.val < b := by omega
      simp [below, belowB, ← ih rest]
    · -- no later element is below `a` either
      have none : (t :: list).filter (fun t => t.val < a) = [] := by
        refine List.filter_eq_nil_iff.mpr fun s member => ?_
        cases List.mem_cons.mp member with
        | inl same => simpa [same] using below
        | inr later =>
          have above := first s later
          simp only [decide_eq_true_eq]
          omega
      rw [none, List.nil_append]
      refine List.filter_congr fun s member => ?_
      have above : a ≤ s.val := by
        cases List.mem_cons.mp member with
        | inl same => rw [same]; omega
        | inr later => have := first s later; omega
      simp [above]

theorem subwarpThreads_flatMap (parts : Nat) :
    (List.range parts).flatMap (subwarpThreads config) =
      (List.finRange config.warp_size).filter fun thread =>
        thread.val < config.warp_size / config.mem_warp_parts * parts := by
  induction parts with
  | zero => simp
  | succ parts ih =>
    have ordered : config.warp_size / config.mem_warp_parts * parts ≤
        config.warp_size / config.mem_warp_parts * (parts + 1) :=
      Nat.mul_le_mul_left _ (Nat.le_succ parts)
    rw [List.range_succ, List.flatMap_append, ih, List.flatMap_singleton,
      ← filter_lt_append ordered (List.pairwise_lt_finRange config.warp_size), subwarpThreads,
      Nat.mul_comm parts]

def coveredThreads (config : CoreConfig) (inst : WarpInst config.warp_size) :
    List (Fin config.warp_size) :=
  ((List.finRange config.warp_size).filter fun thread =>
      thread.val < config.warp_size / config.mem_warp_parts * config.mem_warp_parts).filter
    (· ∈ inst.m_warp_active_mask)

theorem activeThreads_flatMap :
    (List.range config.mem_warp_parts).flatMap (activeThreads config inst) =
      coveredThreads config inst := by
  rw [coveredThreads, ← subwarpThreads_flatMap, List.filter_flatMap]
  rfl

theorem coveredThreads_of_dvd (divides : config.mem_warp_parts ∣ config.warp_size) :
    coveredThreads config inst =
      (List.finRange config.warp_size).filter (· ∈ inst.m_warp_active_mask) := by
  rw [coveredThreads, Nat.div_mul_cancel divides]
  congr 1
  exact List.filter_eq_self.mpr fun thread _ => by simp

/-! ## Two runs -/

/-- What an access shows besides its address and its byte mask. -/
def MemAccess.shape {warpSize : Nat} (access : MemAccess warpSize) :
    MemAccessType × Nat × Bool × Finset (Fin warpSize) :=
  (access.m_type, access.m_req_size, access.m_write, access.m_warp_mask)

theorem requests_global (global : inst.space = .global_space) (thread : Fin config.warp_size) :
    inst.requests thread = [⟨thread, inst.memreqaddr thread 0⟩] := by
  have one : (splitAccess inst).2 = 1 := by rw [splitAccess, global]
  have first : inst.accesses = [0] := by rw [WarpInst.accesses, one]; decide
  rw [WarpInst.requests, first]
  rfl

theorem threadAccesses_shape (global : inst.space = .global_space)
    (thread : Fin config.warp_size) :
    (threadAccesses inst is_write access_type thread).map MemAccess.shape =
      [(access_type, segmentSize inst.data_size, is_write, {thread})] := by
  have count := (transactionsOf inst).length_toList_collect (inst.requests thread)
  rw [threadAccesses]
  rw [requests_global global] at count ⊢
  obtain ⟨⟨key, info⟩, only⟩ := List.length_eq_one_iff.mp (count.trans (by simp))
  have entry : (key, info) ∈ ((transactionsOf inst).collect _).toList :=
    only ▸ List.mem_singleton_self (key, info)
  obtain ⟨⟨request, member, isKey⟩, isInfo⟩ := (transactionsOf inst).mem_toList_collect.mp entry
  obtain rfl := List.mem_singleton.mp member
  have active : info.active = {thread} := by
    rw [isInfo, ← isKey]
    simp [Grouping.value, transactionsOf, TransactionInfo.empty]
  simp [only, wholeSegment, MemAccess.shape, active]

/-- The two instructions append accesses of the same shape, one for each of the
    threads by itself. -/
def HidesAddresses (config : CoreConfig) (inst inst' : WarpInst config.warp_size)
    (threads : List (Fin config.warp_size)) : Prop :=
  ∀ is_write access_type m_accessq, ∃ sent sent',
    memoryCoalescingArch13 config inst is_write access_type m_accessq = some (m_accessq ++ sent) ∧
    memoryCoalescingArch13 config inst' is_write access_type m_accessq = some (m_accessq ++ sent') ∧
    sent.map MemAccess.shape = sent'.map MemAccess.shape ∧
    sent.map MemAccess.shape = threads.map fun thread =>
      (access_type, segmentSize inst.data_size, is_write, {thread})

theorem memoryCoalescing_shape (disabled : coalDisabledLoc config inst = true)
    (valid : inst.ValidSize) (global : inst.space = .global_space)
    (same : SameSegments config inst) (m_accessq : List (MemAccess config.warp_size)) :
    ∃ sent, memoryCoalescingArch13 config inst is_write access_type m_accessq =
        some (m_accessq ++ sent) ∧
      sent.map MemAccess.shape = (coveredThreads config inst).map fun thread =>
        (access_type, segmentSize inst.data_size, is_write, {thread}) := by
  refine ⟨_, memoryCoalescing_disabled is_write access_type disabled valid same m_accessq, ?_⟩
  rw [← List.flatMap_assoc, activeThreads_flatMap, List.map_flatMap]
  simp only [threadAccesses_shape is_write access_type global]
  exact List.map_eq_flatMap.symm

/-- With coalescing disabled for an instruction to global memory, its addresses
    show only in the addresses and byte masks of the accesses. -/
theorem disabled_hides_addresses {inst inst' : WarpInst config.warp_size}
    (disabled : config.coal_disabled = true ∧ config.coal_disabled_dyn = false ∨
      config.coal_disabled_dyn = true ∧ inst.line_number = config.coal_line_num)
    (global : inst.space = .global_space) (valid : inst.ValidSize)
    (readdressed : inst' = { inst with memreqaddr := inst'.memreqaddr })
    (same : SameSegments config inst) (same' : SameSegments config inst') :
    HidesAddresses config inst inst' (coveredThreads config inst) ∧
      (config.mem_warp_parts ∣ config.warp_size →
        coveredThreads config inst =
          (List.finRange config.warp_size).filter (· ∈ inst.m_warp_active_mask) ∧
        (coveredThreads config inst).length = inst.m_warp_active_mask.card) := by
  have loc : coalDisabledLoc config inst = true := by
    cases disabled with
    | inl always => simp [coalDisabledLoc, always.1, always.2]
    | inr here => simp [coalDisabledLoc, here.1, here.2]
  rw [readdressed] at same'
  constructor
  · intro is_write access_type m_accessq
    obtain ⟨sent, run, shape⟩ :=
      memoryCoalescing_shape is_write access_type loc valid global same m_accessq
    obtain ⟨sent', run', shape'⟩ :=
      @memoryCoalescing_shape config { inst with memreqaddr := inst'.memreqaddr } is_write
        access_type loc valid global same' m_accessq
    exact ⟨sent, sent', run, readdressed ▸ run', shape.trans shape'.symm, shape⟩
  · intro divides
    have all : coveredThreads config inst =
        (List.finRange config.warp_size).filter (· ∈ inst.m_warp_active_mask) :=
      coveredThreads_of_dvd divides
    refine ⟨all, ?_⟩
    have nodup := (List.nodup_finRange config.warp_size).filter
      fun thread => decide (thread ∈ inst.m_warp_active_mask)
    rw [all, ← List.toFinset_card_of_nodup nodup]
    congr 1
    ext thread
    simp

/-- A load of 4 bytes by all threads of a warp, on line 7. -/
def loadInst {warpSize : Nat} (addresses : Fin warpSize → Address) : WarpInst warpSize :=
  ⟨4, .global_space, 7, Finset.univ, fun thread _ => addresses thread⟩

theorem disabled_hides_addresses_load :
    HidesAddresses ⟨4, 2, true, false, 0, by decide, by decide⟩
      (loadInst ![0, 4, 8, 12]) (loadInst ![0, 128, 256, 384])
      (coveredThreads ⟨4, 2, true, false, 0, by decide, by decide⟩ (loadInst ![0, 4, 8, 12])) :=
  (@disabled_hides_addresses ⟨4, 2, true, false, 0, by decide, by decide⟩ _ _
    (Or.inl ⟨rfl, rfl⟩) rfl (by simp [WarpInst.ValidSize, loadInst]) rfl
    (by unfold SameSegments WarpInst.SameSegment; decide)
    (by unfold SameSegments WarpInst.SameSegment; decide)).1

/-- `coal_disabled` alone does not hide the addresses, since `coal_disabled_dyn`
    overrides it; and the threads beyond the last whole sub-warp are left out. -/
theorem disabled_shows_addresses :
    (¬ ∀ (config : CoreConfig) (inst inst' : WarpInst config.warp_size),
      (config.coal_disabled = true ∨
        config.coal_disabled_dyn = true ∧ inst.line_number = config.coal_line_num) →
      inst.space = .global_space → inst.ValidSize →
      inst' = { inst with memreqaddr := inst'.memreqaddr } →
      SameSegments config inst → SameSegments config inst' →
      HidesAddresses config inst inst'
        ((List.finRange config.warp_size).filter (· ∈ inst.m_warp_active_mask))) ∧
    ¬ ∀ (config : CoreConfig) (inst : WarpInst config.warp_size),
      config.coal_disabled = true → config.coal_disabled_dyn = false →
      inst.space = .global_space → inst.ValidSize → SameSegments config inst →
      HidesAddresses config inst inst
        ((List.finRange config.warp_size).filter (· ∈ inst.m_warp_active_mask)) := by
  constructor
  · intro claim
    obtain ⟨sent, sent', run, run', shapes, _⟩ :=
      claim ⟨2, 1, true, true, 5, by decide, by decide⟩ (loadInst ![0, 4]) (loadInst ![0, 128])
        (Or.inl rfl) rfl (by simp [WarpInst.ValidSize, loadInst]) rfl
        (by unfold SameSegments WarpInst.SameSegment; decide)
        (by unfold SameSegments WarpInst.SameSegment; decide) false .GLOBAL_ACC_R []
    have one : (memoryCoalescingArch13 ⟨2, 1, true, true, 5, by decide, by decide⟩
        (loadInst ![0, 4]) false .GLOBAL_ACC_R []).map List.length = some 1 := by decide
    have two : (memoryCoalescingArch13 ⟨2, 1, true, true, 5, by decide, by decide⟩
        (loadInst ![0, 128]) false .GLOBAL_ACC_R []).map List.length = some 2 := by decide
    rw [run] at one
    rw [run'] at two
    have lengths := congrArg List.length shapes
    simp at one two lengths
    omega
  · intro claim
    obtain ⟨sent, _, run, _, _, shapes⟩ :=
      claim ⟨4, 3, true, false, 0, by decide, by decide⟩ (loadInst ![0, 4, 8, 12])
        rfl rfl rfl (by simp [WarpInst.ValidSize, loadInst])
        (by unfold SameSegments WarpInst.SameSegment; decide) false .GLOBAL_ACC_R []
    have three : (memoryCoalescingArch13 ⟨4, 3, true, false, 0, by decide, by decide⟩
        (loadInst ![0, 4, 8, 12]) false .GLOBAL_ACC_R []).map List.length = some 3 := by
      decide
    rw [run] at three
    have lengths := congrArg List.length shapes
    simp [loadInst] at three lengths
    omega

end AesOnGpu.Coalescing
