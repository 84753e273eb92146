import AesOnGpu.Ptx.LocalPointers

/-! # The windows of the generic address space

Below the global heap each hardware thread has a window for its local memory and
each shader a window for its shared memory.  The windows follow one another
without gaps, so that a generic address is in one window or is global.
-/

namespace AesOnGpu.Ptx

section Windows

variable {smid hwtid smid' hwtid' addr : Addr}

theorem toNat_local_start (hsmid : smid < MAX_STREAMING_MULTIPROCESSORS)
    (hhwtid : hwtid.toNat ≤ 2048) :
    (LOCAL_GENERIC_START + TOTAL_LOCAL_MEM_PER_SM * smid + LOCAL_MEM_SIZE_MAX * hwtid).toNat =
      0x3FC00000 + 16777216 * smid.toNat + 8192 * hwtid.toNat := by
  have hstart : LOCAL_GENERIC_START = 0x3FC00000#32 := by decide
  have hperSm : TOTAL_LOCAL_MEM_PER_SM = 16777216#32 := by decide
  have hsize : LOCAL_MEM_SIZE_MAX = 8192#32 := by decide
  have hlimit : MAX_STREAMING_MULTIPROCESSORS = 64#32 := rfl
  rw [hstart, hperSm, hsize]
  rw [hlimit] at hsmid
  bv_omega

theorem toNat_shared_start (hsmid : smid.toNat < 64) :
    (SHARED_GENERIC_START + smid * SHARED_MEM_SIZE_MAX).toNat =
      0x7FC00000 + 65536 * smid.toNat := by
  have hstart : SHARED_GENERIC_START = 0x7FC00000#32 := by decide
  have hsize : SHARED_MEM_SIZE_MAX = 65536#32 := by decide
  rw [hstart, hsize]
  bv_omega

theorem isspace_local_iff (hsmid : smid < MAX_STREAMING_MULTIPROCESSORS)
    (hhwtid : hwtid < MAX_THREAD_PER_SM) :
    isspace_local smid hwtid addr = true ↔
      0x3FC00000 + 16777216 * smid.toNat + 8192 * hwtid.toNat ≤ addr.toNat ∧
        addr.toNat < 0x3FC00000 + 16777216 * smid.toNat + 8192 * hwtid.toNat + 8192 := by
  have hthreads : hwtid.toNat < 2048 := hhwtid
  have hsucc : (hwtid + 1).toNat = hwtid.toNat + 1 := by bv_omega
  have hstart := toNat_local_start hsmid (show hwtid.toNat ≤ 2048 by omega)
  have hstop := toNat_local_start hsmid (show (hwtid + 1).toNat ≤ 2048 by omega)
  simp only [isspace_local, decide_eq_true_eq, not_or, ge_iff_le, BitVec.not_le, BitVec.not_lt]
  rw [BitVec.lt_def, BitVec.le_def, hstart, hstop, hsucc]
  omega

theorem isspace_shared_iff (hsmid : smid < MAX_STREAMING_MULTIPROCESSORS) :
    isspace_shared smid addr = true ↔
      0x7FC00000 + 65536 * smid.toNat ≤ addr.toNat ∧
        addr.toNat < 0x7FC00000 + 65536 * smid.toNat + 65536 := by
  have hshaders : smid.toNat < 64 := hsmid
  have hsize : SHARED_MEM_SIZE_MAX = 65536#32 := by decide
  have hstart := toNat_shared_start hshaders
  -- the window of the last shader ends where the heap starts
  have hstop : (SHARED_GENERIC_START + (smid + 1) * SHARED_MEM_SIZE_MAX).toNat =
      0x7FC00000 + 65536 * smid.toNat + 65536 := by
    have hbase : SHARED_GENERIC_START = 0x7FC00000#32 := by decide
    rw [hbase, hsize]
    bv_omega
  simp only [isspace_shared, decide_eq_true_eq, not_or, ge_iff_le, BitVec.not_le, BitVec.not_lt]
  rw [BitVec.lt_def, BitVec.le_def, hstart, hstop]
  omega

theorem whichspace_eq (addr : Addr) :
    whichspace addr =
      if 0x80000000 ≤ addr.toNat ∨ addr.toNat < 0x3FC00000 then .global_space
      else if 0x7FC00000 ≤ addr.toNat then .shared_space
      else .local_space := by
  have hheap : GLOBAL_HEAP_START.toNat = 0x80000000 := by decide
  have hlimit : STATIC_ALLOC_LIMIT.toNat = 0x3FC00000 := by decide
  have hshared : SHARED_GENERIC_START.toNat = 0x7FC00000 := by decide
  simp only [whichspace, ge_iff_le, BitVec.le_def, BitVec.lt_def, hheap, hlimit, hshared]

/-! ## There and back -/

theorem local_to_generic_spec (hsmid : smid < MAX_STREAMING_MULTIPROCESSORS)
    (hhwtid : hwtid < MAX_THREAD_PER_SM) (haddr : addr < LOCAL_MEM_SIZE_MAX) :
    ∃ generic, local_to_generic smid hwtid addr = some generic ∧
      isspace_local smid hwtid generic = true ∧ generic_to_local smid hwtid generic = some addr ∧
      whichspace generic = .local_space := by
  have hshaders : smid.toNat < 64 := hsmid
  have hthreads : hwtid.toNat < 2048 := hhwtid
  have hoffset : addr.toNat < 8192 := haddr
  have hstart := toNat_local_start hsmid (Nat.le_of_lt hthreads)
  have hgeneric : (LOCAL_GENERIC_START + TOTAL_LOCAL_MEM_PER_SM * smid +
      LOCAL_MEM_SIZE_MAX * hwtid + addr).toNat =
        0x3FC00000 + 16777216 * smid.toNat + 8192 * hwtid.toNat + addr.toNat := by
    rw [BitVec.toNat_add, hstart]
    omega
  have hinside : isspace_local smid hwtid (LOCAL_GENERIC_START + TOTAL_LOCAL_MEM_PER_SM * smid +
      LOCAL_MEM_SIZE_MAX * hwtid + addr) = true := by
    rw [isspace_local_iff hsmid hhwtid, hgeneric]
    omega
  refine ⟨_, if_pos haddr, hinside, ?_, ?_⟩
  · simp [generic_to_local, hinside]
  · rw [whichspace_eq, hgeneric, if_neg (by omega), if_neg (by omega)]

theorem shared_to_generic_spec (hsmid : smid < MAX_STREAMING_MULTIPROCESSORS)
    (haddr : addr < SHARED_MEM_SIZE_MAX) :
    ∃ generic, shared_to_generic smid addr = some generic ∧
      isspace_shared smid generic = true ∧ generic_to_shared smid generic = some addr ∧
      whichspace generic = .shared_space := by
  have hshaders : smid.toNat < 64 := hsmid
  have hoffset : addr.toNat < 65536 := haddr
  have hgeneric : (SHARED_GENERIC_START + smid * SHARED_MEM_SIZE_MAX + addr).toNat =
      0x7FC00000 + 65536 * smid.toNat + addr.toNat := by
    rw [BitVec.toNat_add, toNat_shared_start hshaders]
    omega
  have hinside : isspace_shared smid
      (SHARED_GENERIC_START + smid * SHARED_MEM_SIZE_MAX + addr) = true := by
    rw [isspace_shared_iff hsmid, hgeneric]
    omega
  refine ⟨_, if_pos haddr, hinside, ?_, ?_⟩
  · simp [generic_to_shared, hinside]
  · rw [whichspace_eq, hgeneric, if_neg (by omega), if_pos (by omega)]

theorem isspace_local_unique (hsmid : smid < MAX_STREAMING_MULTIPROCESSORS)
    (hhwtid : hwtid < MAX_THREAD_PER_SM) (hsmid' : smid' < MAX_STREAMING_MULTIPROCESSORS)
    (hhwtid' : hwtid' < MAX_THREAD_PER_SM) (hin : isspace_local smid hwtid addr = true)
    (hin' : isspace_local smid' hwtid' addr = true) : smid = smid' ∧ hwtid = hwtid' := by
  have hthreads : hwtid.toNat < 2048 := hhwtid
  have hthreads' : hwtid'.toNat < 2048 := hhwtid'
  rw [isspace_local_iff hsmid hhwtid] at hin
  rw [isspace_local_iff hsmid' hhwtid'] at hin'
  constructor
  · apply BitVec.eq_of_toNat_eq
    omega
  · apply BitVec.eq_of_toNat_eq
    omega

theorem isspace_shared_unique (hsmid : smid < MAX_STREAMING_MULTIPROCESSORS)
    (hsmid' : smid' < MAX_STREAMING_MULTIPROCESSORS) (hin : isspace_shared smid addr = true)
    (hin' : isspace_shared smid' addr = true) : smid = smid' := by
  rw [isspace_shared_iff hsmid] at hin
  rw [isspace_shared_iff hsmid'] at hin'
  apply BitVec.eq_of_toNat_eq
  omega

theorem local_space_iff (addr : Addr) :
    whichspace addr = .local_space ↔ ∃ smid hwtid, smid < MAX_STREAMING_MULTIPROCESSORS ∧
      hwtid < MAX_THREAD_PER_SM ∧ isspace_local smid hwtid addr = true := by
  constructor
  · intro hspace
    rw [whichspace_eq] at hspace
    have hrange : 0x3FC00000 ≤ addr.toNat ∧ addr.toNat < 0x7FC00000 := by
      split at hspace
      next => cases hspace
      next hnot =>
        split at hspace
        next => cases hspace
        next hbelow => omega
    have hsmid : (BitVec.ofNat 32 ((addr.toNat - 0x3FC00000) / 16777216)).toNat =
        (addr.toNat - 0x3FC00000) / 16777216 := by
      rw [BitVec.toNat_ofNat]
      omega
    have hhwtid : (BitVec.ofNat 32 ((addr.toNat - 0x3FC00000) / 8192 % 2048)).toNat =
        (addr.toNat - 0x3FC00000) / 8192 % 2048 := by
      rw [BitVec.toNat_ofNat]
      omega
    have hshader : BitVec.ofNat 32 ((addr.toNat - 0x3FC00000) / 16777216) <
        MAX_STREAMING_MULTIPROCESSORS := by
      have hlimit : MAX_STREAMING_MULTIPROCESSORS.toNat = 64 := rfl
      rw [BitVec.lt_def, hsmid, hlimit]
      omega
    have hthread : BitVec.ofNat 32 ((addr.toNat - 0x3FC00000) / 8192 % 2048) <
        MAX_THREAD_PER_SM := by
      have hlimit : MAX_THREAD_PER_SM.toNat = 2048 := rfl
      rw [BitVec.lt_def, hhwtid, hlimit]
      omega
    refine ⟨_, _, hshader, hthread, ?_⟩
    rw [isspace_local_iff hshader hthread, hsmid, hhwtid]
    omega
  · rintro ⟨smid, hwtid, hsmid, hhwtid, hin⟩
    have hshaders : smid.toNat < 64 := hsmid
    have hthreads : hwtid.toNat < 2048 := hhwtid
    rw [isspace_local_iff hsmid hhwtid] at hin
    rw [whichspace_eq, if_neg (by omega), if_neg (by omega)]

theorem shared_space_iff (addr : Addr) :
    whichspace addr = .shared_space ↔ ∃ smid, smid < MAX_STREAMING_MULTIPROCESSORS ∧
      isspace_shared smid addr = true := by
  constructor
  · intro hspace
    rw [whichspace_eq] at hspace
    have hrange : 0x7FC00000 ≤ addr.toNat ∧ addr.toNat < 0x80000000 := by
      split at hspace
      next => cases hspace
      next hnot =>
        split at hspace
        next hshared => omega
        next => cases hspace
    have hsmid : (BitVec.ofNat 32 ((addr.toNat - 0x7FC00000) / 65536)).toNat =
        (addr.toNat - 0x7FC00000) / 65536 := by
      rw [BitVec.toNat_ofNat]
      omega
    have hshader : BitVec.ofNat 32 ((addr.toNat - 0x7FC00000) / 65536) <
        MAX_STREAMING_MULTIPROCESSORS := by
      have hlimit : MAX_STREAMING_MULTIPROCESSORS.toNat = 64 := rfl
      rw [BitVec.lt_def, hsmid, hlimit]
      omega
    refine ⟨_, hshader, ?_⟩
    rw [isspace_shared_iff hshader, hsmid]
    omega
  · rintro ⟨smid, hsmid, hin⟩
    have hshaders : smid.toNat < 64 := hsmid
    rw [isspace_shared_iff hsmid] at hin
    rw [whichspace_eq, if_neg (by omega), if_pos (by omega)]

end Windows

/-- The windows are a partition of what is not global, and the conversions are the two
    directions between a window and the offsets in it. -/
theorem generic_addressing_partition :
    (∀ smid hwtid addr, smid < MAX_STREAMING_MULTIPROCESSORS → hwtid < MAX_THREAD_PER_SM →
      addr < LOCAL_MEM_SIZE_MAX → ∃ generic, local_to_generic smid hwtid addr = some generic ∧
        isspace_local smid hwtid generic = true ∧
        generic_to_local smid hwtid generic = some addr ∧ whichspace generic = .local_space) ∧
    (∀ smid addr, smid < MAX_STREAMING_MULTIPROCESSORS → addr < SHARED_MEM_SIZE_MAX →
      ∃ generic, shared_to_generic smid addr = some generic ∧
        isspace_shared smid generic = true ∧ generic_to_shared smid generic = some addr ∧
        whichspace generic = .shared_space) ∧
    (∀ addr, GLOBAL_HEAP_START ≤ addr → whichspace (global_to_generic addr) = .global_space) ∧
    (∀ smid hwtid smid' hwtid' addr, smid < MAX_STREAMING_MULTIPROCESSORS →
      hwtid < MAX_THREAD_PER_SM → smid' < MAX_STREAMING_MULTIPROCESSORS →
      hwtid' < MAX_THREAD_PER_SM → isspace_local smid hwtid addr = true →
      isspace_local smid' hwtid' addr = true → smid = smid' ∧ hwtid = hwtid') ∧
    (∀ smid smid' addr, smid < MAX_STREAMING_MULTIPROCESSORS →
      smid' < MAX_STREAMING_MULTIPROCESSORS → isspace_shared smid addr = true →
      isspace_shared smid' addr = true → smid = smid') ∧
    (∀ addr, whichspace addr = .local_space ↔ ∃ smid hwtid, smid < MAX_STREAMING_MULTIPROCESSORS ∧
      hwtid < MAX_THREAD_PER_SM ∧ isspace_local smid hwtid addr = true) ∧
    (∀ addr, whichspace addr = .shared_space ↔ ∃ smid, smid < MAX_STREAMING_MULTIPROCESSORS ∧
      isspace_shared smid addr = true) := by
  refine ⟨?_, ?_, ?_, ?_, ?_, local_space_iff, shared_space_iff⟩
  · exact fun smid hwtid addr hsmid hhwtid haddr => local_to_generic_spec hsmid hhwtid haddr
  · exact fun smid addr hsmid haddr => shared_to_generic_spec hsmid haddr
  · intro addr hheap
    exact if_pos (Or.inl hheap)
  · intro smid hwtid smid' hwtid' addr hsmid hhwtid hsmid' hhwtid' hin hin'
    exact isspace_local_unique hsmid hhwtid hsmid' hhwtid' hin hin'
  · intro smid smid' addr hsmid hsmid' hin hin'
    exact isspace_shared_unique hsmid hsmid' hin hin'

end AesOnGpu.Ptx
