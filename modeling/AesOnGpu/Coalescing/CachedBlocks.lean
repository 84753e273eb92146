import AesOnGpu.Coalescing.Requests

/-! # Constant and texture accesses

The constant and the texture case of `warp_inst_t::generate_mem_accesses`: one access for each
cache block that an active thread touches.  The threads of a block are collected in an ordered
map, the bytes of all threads in one byte mask, which every access is given.

`none` is a failed assertion or a bit set beyond the end of the byte mask.
-/

namespace AesOnGpu.Coalescing

/-- The spaces that are read through the constant or the texture cache. -/
inductive CachedSpace where
  | const_space
  | param_space_kernel
  | tex_space
  deriving DecidableEq

structure CacheLines extends CoreConfig where
  gpgpu_cache_texl1_linesize : BitVec 32
  gpgpu_cache_constl1_linesize : BitVec 32

structure CachedInst (warpSize : Nat) where
  data_size : Nat
  space : CachedSpace
  m_warp_active_mask : Finset (Fin warpSize)
  memreqaddr : Fin warpSize → Address

def CachedSpace.accessType : CachedSpace → MemAccessType
  | .const_space | .param_space_kernel => .CONST_ACC_R
  | .tex_space => .TEXTURE_ACC_R

def CachedSpace.cacheBlockSize (config : CacheLines) : CachedSpace → BitVec 32
  | .tex_space => config.gpgpu_cache_texl1_linesize
  | .const_space | .param_space_kernel => config.gpgpu_cache_constl1_linesize

variable {warpSize : Nat} (cache_block_size : BitVec 32) (inst : CachedInst warpSize)

/-- `block_address` is `unsigned`. -/
def blockAddress (addr : Address) : Address :=
  (lineSizeBasedTagFunc addr (cache_block_size.setWidth 64)).setWidth 64

/-- `idx` is `unsigned`. -/
def byteIndex (addr : Address) : BitVec 32 :=
  (addr - blockAddress cache_block_size addr).setWidth 32

def threadsByBlock : Grouping (Fin warpSize) Address (Finset (Fin warpSize)) where
  key thread := blockAddress cache_block_size (inst.memreqaddr thread)
  fresh := ∅
  add active thread := insert thread active

structure BlockAccesses (warpSize : Nat) where
  accesses : Std.TreeMap Address (Finset (Fin warpSize))
  byte_mask : Finset (Fin 128)

/-- A turn of the loop over the active threads. -/
def recordThread (state : BlockAccesses warpSize) (thread : Fin warpSize) :
    Option (BlockAccesses warpSize) := do
  let addr := inst.memreqaddr thread
  let byte_mask ← setBytes state.byte_mask (byteIndex cache_block_size addr).toNat inst.data_size
  return { accesses := (threadsByBlock cache_block_size inst).insert state.accesses thread, byte_mask }

def activeList : List (Fin warpSize) :=
  (List.finRange warpSize).filter (· ∈ inst.m_warp_active_mask)

def blockAccess (is_write : Bool) (byte_mask : Finset (Fin 128))
    (a : Address × Finset (Fin warpSize)) : MemAccess warpSize :=
  { m_type := inst.space.accessType, m_addr := a.1, m_req_size := cache_block_size.toNat,
    m_write := is_write, m_warp_mask := a.2, m_byte_mask := byte_mask }

/-- The accesses in the queue after the instruction. -/
def generateCachedAccesses (config : CacheLines) (inst : CachedInst config.warp_size)
    (is_write : Bool) (m_accessq : List (MemAccess config.warp_size)) :
    Option (List (MemAccess config.warp_size)) :=
  let cache_block_size := inst.space.cacheBlockSize config
  if inst.m_warp_active_mask = ∅ then some m_accessq  -- predicated off
  else if cache_block_size = 0 then some m_accessq
  else if m_accessq ≠ [] then none
  else do
    let state ← (activeList inst).foldlM (recordThread cache_block_size inst) ⟨∅, ∅⟩
    return m_accessq ++
      state.accesses.toList.map (blockAccess cache_block_size inst is_write state.byte_mask)

/-! ## What the accesses are to be -/

def cacheBlock (addr : Address) : Address :=
  addr &&& ~~~(cache_block_size.setWidth 64 - 1)

def blockOffset (addr : Address) : Nat :=
  (addr - cacheBlock cache_block_size addr).toNat

def blockThreads (block : Address) : Finset (Fin warpSize) :=
  {thread ∈ inst.m_warp_active_mask | cacheBlock cache_block_size (inst.memreqaddr thread) = block}

def RequestedIn (block : Address) (byte : Nat) : Prop :=
  ∃ thread ∈ blockThreads cache_block_size inst block, ∃ i < inst.data_size,
    cacheBlock cache_block_size (inst.memreqaddr thread + .ofNat 64 i) = block ∧
      (inst.memreqaddr thread + .ofNat 64 i - block).toNat = byte

structure ExactAccesses (accesses : List (MemAccess warpSize)) : Prop where
  once : (accesses.map MemAccess.m_addr).Nodup
  touched : ∀ block, block ∈ accesses.map MemAccess.m_addr ↔
    (blockThreads cache_block_size inst block).Nonempty
  threads : ∀ access ∈ accesses,
    access.m_warp_mask = blockThreads cache_block_size inst access.m_addr
  bytes : ∀ access ∈ accesses, ∀ byte, byte ∈ access.m_byte_mask.map Fin.valEmbedding ↔
    RequestedIn cache_block_size inst access.m_addr byte

/-- No address needs more than 32 bits, no request leaves its cache block or the byte mask, and
the bytes that are requested in some block are requested in every block that is touched. -/
structure SameBytes : Prop where
  low : ∀ thread ∈ inst.m_warp_active_mask, (inst.memreqaddr thread).toNat < 2 ^ 32
  fits : ∀ thread ∈ inst.m_warp_active_mask, ∀ i < inst.data_size,
    blockOffset cache_block_size (inst.memreqaddr thread) + i < 128
  inside : ∀ thread ∈ inst.m_warp_active_mask, ∀ i < inst.data_size,
    cacheBlock cache_block_size (inst.memreqaddr thread + .ofNat 64 i) =
      cacheBlock cache_block_size (inst.memreqaddr thread)
  same : ∀ thread ∈ inst.m_warp_active_mask, ∀ i < inst.data_size,
    ∀ other ∈ inst.m_warp_active_mask, ∃ sharer ∈ inst.m_warp_active_mask,
      cacheBlock cache_block_size (inst.memreqaddr sharer) =
        cacheBlock cache_block_size (inst.memreqaddr other) ∧
      ∃ j < inst.data_size, blockOffset cache_block_size (inst.memreqaddr sharer) + j =
        blockOffset cache_block_size (inst.memreqaddr thread) + i

/-! ## Blocks and offsets -/

variable {cache_block_size inst}

theorem cacheBlock_add_offset (cache_block_size : BitVec 32) (addr : Address) :
    cacheBlock cache_block_size addr + (addr &&& (cache_block_size.setWidth 64 - 1)) = addr := by
  rw [cacheBlock, BitVec.add_eq_or_of_and_eq_zero]
  · ext i inside
    simp only [BitVec.getElem_or, BitVec.getElem_and, BitVec.getElem_not]
    cases addr[i] <;> simp
  · ext i inside
    simp only [BitVec.getElem_and, BitVec.getElem_not, BitVec.getElem_zero]
    cases addr[i] <;> simp

theorem blockOffset_eq (addr : Address) :
    blockOffset cache_block_size addr =
      (addr &&& (cache_block_size.setWidth 64 - 1)).toNat := by
  have split := cacheBlock_add_offset cache_block_size addr
  rw [blockOffset]
  congr 1
  nth_rewrite 1 [← split]
  rw [BitVec.add_comm, BitVec.add_sub_cancel]

theorem blockOffset_lt (positive : cache_block_size ≠ 0) (addr : Address) :
    blockOffset cache_block_size addr < cache_block_size.toNat := by
  have nonzero : cache_block_size.toNat ≠ 0 := fun zero =>
    positive (BitVec.eq_of_toNat_eq zero)
  have small := cache_block_size.isLt
  have mask : (cache_block_size.setWidth 64 - 1).toNat = cache_block_size.toNat - 1 := by
    rw [BitVec.toNat_sub, BitVec.toNat_setWidth]
    show (2 ^ 64 - 1 + _) % _ = _
    omega
  rw [blockOffset_eq, BitVec.toNat_and, mask]
  calc addr.toNat &&& (cache_block_size.toNat - 1)
    _ ≤ cache_block_size.toNat - 1 := Nat.and_le_right
    _ < cache_block_size.toNat := by omega

theorem toNat_eq_block_add (cache_block_size : BitVec 32) (addr : Address) :
    addr.toNat = (cacheBlock cache_block_size addr).toNat + blockOffset cache_block_size addr := by
  have below : (cacheBlock cache_block_size addr).toNat ≤ addr.toNat := by
    rw [cacheBlock, BitVec.toNat_and]
    exact Nat.and_le_left
  have bound := addr.isLt
  rw [blockOffset, BitVec.toNat_sub]
  omega

theorem cacheBlock_low (positive : cache_block_size ≠ 0) {addr : Address} :
    (cacheBlock cache_block_size addr).toNat < 2 ^ 32 ↔ addr.toNat < 2 ^ 32 := by
  have split := toNat_eq_block_add cache_block_size addr
  constructor
  · intro low
    apply Nat.lt_pow_two_of_testBit
    intro i high
    have blockBit := Nat.testBit_lt_two_pow (low.trans_le (Nat.pow_le_pow_right two_pos high))
    have offsetBit := Nat.testBit_lt_two_pow
      (((blockOffset_lt positive addr).trans cache_block_size.isLt).trans_le
        (Nat.pow_le_pow_right two_pos high))
    rw [blockOffset_eq] at offsetBit
    rw [cacheBlock] at blockBit
    by_cases wide : i < 64
    · rw [← BitVec.getLsbD, BitVec.getLsbD_and] at blockBit offsetBit
      rw [BitVec.getLsbD_not, decide_eq_true wide, Bool.true_and] at blockBit
      rw [← BitVec.getLsbD]
      cases bit : addr.getLsbD i with
      | false => rfl
      | true =>
        rw [bit, Bool.true_and] at blockBit offsetBit
        rw [offsetBit] at blockBit
        exact absurd blockBit (by decide)
    · exact Nat.testBit_lt_two_pow
        (addr.isLt.trans_le (Nat.pow_le_pow_right two_pos (Nat.le_of_not_lt wide)))
  · intro low
    omega

theorem blockAddress_eq (addr : Address) :
    (blockAddress cache_block_size addr).toNat =
      (cacheBlock cache_block_size addr).toNat % 2 ^ 32 := by
  have small : (cacheBlock cache_block_size addr).toNat % 2 ^ 32 < 2 ^ 64 := by omega
  rw [blockAddress, lineSizeBasedTagFunc, BitVec.toNat_setWidth, BitVec.toNat_setWidth, ← cacheBlock,
    Nat.mod_eq_of_lt small]

theorem blockAddress_of_low {addr : Address} (low : addr.toNat < 2 ^ 32) :
    blockAddress cache_block_size addr = cacheBlock cache_block_size addr := by
  have split := toNat_eq_block_add cache_block_size addr
  apply BitVec.eq_of_toNat_eq
  rw [blockAddress_eq, Nat.mod_eq_of_lt (by omega)]

theorem byteIndex_eq (positive : cache_block_size ≠ 0) (addr : Address) :
    (byteIndex cache_block_size addr).toNat = blockOffset cache_block_size addr := by
  have split := toNat_eq_block_add cache_block_size addr
  have small := (blockOffset_lt positive addr).trans cache_block_size.isLt
  have bound := addr.isLt
  rw [byteIndex, BitVec.toNat_setWidth, BitVec.toNat_sub, blockAddress_eq]
  omega

theorem offset_in_block {addr block : Address} (isBlock : cacheBlock cache_block_size addr = block)
    {i : Nat} (fits : blockOffset cache_block_size addr + i < 128) :
    (addr + .ofNat 64 i - block).toNat = blockOffset cache_block_size addr + i := by
  have split := toNat_eq_block_add cache_block_size addr
  have bound := addr.isLt
  rw [BitVec.toNat_sub, BitVec.toNat_add, BitVec.toNat_ofNat, ← isBlock]
  omega

/-! ## The loop over the threads -/

theorem setBytes_eq_some {bytes : Finset (Fin 128)} {idx size : Nat}
    {result : Finset (Fin 128)} :
    setBytes bytes idx size = some result ↔ (∀ i < size, idx + i < 128) ∧
      result = bytes ∪ ({byte | idx ≤ byte.val ∧ byte.val < idx + size} : Finset (Fin 128)) := by
  by_cases inside : ∀ i < size, idx + i < 128
  · cases size with
    | zero =>
      have none : ({byte | idx ≤ byte.val ∧ byte.val < idx + 0} : Finset (Fin 128)) = ∅ := by
        ext byte; simp
      rw [none, Finset.union_empty]
      exact ⟨fun same => ⟨inside, (Option.some.inj same).symm⟩, fun both => by rw [both.2]; rfl⟩
    | succ size =>
      have last := inside size (Nat.lt_succ_self size)
      rw [setBytes_eq bytes (by omega)]
      exact ⟨fun same => ⟨inside, (Option.some.inj same).symm⟩, fun both => by rw [both.2]⟩
  · constructor
    · intro run
      have each := List.foldlM_each run
      refine absurd (fun i isTurn => ?_) inside
      obtain ⟨before, after, here⟩ := each i (List.mem_range.mpr isTurn)
      by_contra beyond
      rw [dif_neg beyond] at here
      cases here
    · intro both
      exact absurd both.1 inside

def requestedBytes (cache_block_size : BitVec 32) (inst : CachedInst warpSize)
    (threads : List (Fin warpSize)) : Finset (Fin 128) :=
  {byte | ∃ thread ∈ threads, ∃ i < inst.data_size,
    byte.val = blockOffset cache_block_size (inst.memreqaddr thread) + i}

theorem recordThread_eq_some (positive : cache_block_size ≠ 0) {state state' : BlockAccesses warpSize}
    {thread : Fin warpSize} :
    recordThread cache_block_size inst state thread = some state' ↔
      (∀ i < inst.data_size, blockOffset cache_block_size (inst.memreqaddr thread) + i < 128) ∧
      state' = ⟨(threadsByBlock cache_block_size inst).insert state.accesses thread,
        state.byte_mask ∪ requestedBytes cache_block_size inst [thread]⟩ := by
  have bytes : requestedBytes cache_block_size inst [thread] =
      ({byte | blockOffset cache_block_size (inst.memreqaddr thread) ≤ byte.val ∧ byte.val <
        blockOffset cache_block_size (inst.memreqaddr thread) + inst.data_size} :
          Finset (Fin 128)) := by
    ext byte
    simp only [requestedBytes, List.mem_singleton, exists_eq_left, Finset.mem_filter,
      Finset.mem_univ, true_and]
    constructor
    · rintro ⟨i, isTurn, isByte⟩
      omega
    · rintro ⟨low, high⟩
      exact ⟨byte.val - blockOffset cache_block_size (inst.memreqaddr thread), by omega, by omega⟩
  rw [recordThread, byteIndex_eq positive, bytes]
  constructor
  · intro run
    obtain ⟨byte_mask, set, result⟩ := Option.bind_eq_some_iff.mp run
    obtain rfl := Option.some.inj result
    obtain ⟨inside, rfl⟩ := setBytes_eq_some.mp set
    exact ⟨inside, rfl⟩
  · rintro ⟨inside, rfl⟩
    rw [setBytes_eq_some.mpr ⟨inside, rfl⟩]
    rfl

/-- Every request is within the byte mask. -/
def FitsMask (cache_block_size : BitVec 32) (inst : CachedInst warpSize)
    (threads : List (Fin warpSize)) : Prop :=
  ∀ thread ∈ threads, ∀ i < inst.data_size,
    blockOffset cache_block_size (inst.memreqaddr thread) + i < 128

theorem recordThreads_eq (positive : cache_block_size ≠ 0) {threads : List (Fin warpSize)}
    (fits : FitsMask cache_block_size inst threads) :
    threads.foldlM (recordThread cache_block_size inst) ⟨∅, ∅⟩ =
      some ⟨(threadsByBlock cache_block_size inst).collect threads,
        requestedBytes cache_block_size inst threads⟩ := by
  induction threads using List.reverseRecOn with
  | nil =>
    have none : requestedBytes cache_block_size inst [] = ∅ := by simp [requestedBytes]
    rw [none]
    rfl
  | append_singleton threads thread ih =>
    have before := ih fun other member =>
      fits other (List.mem_append_left [thread] member)
    have last := fits thread (List.mem_append_right threads (List.mem_singleton_self thread))
    have bytes : requestedBytes cache_block_size inst (threads ++ [thread]) =
        requestedBytes cache_block_size inst threads ∪
          requestedBytes cache_block_size inst [thread] := by
      ext byte
      simp only [requestedBytes, List.mem_append, or_and_right, exists_or, Finset.mem_filter,
        Finset.mem_univ, true_and, Finset.mem_union]
    rw [List.foldlM_append, before, Option.bind_eq_bind, Option.bind_some, List.foldlM_cons,
      (recordThread_eq_some positive).mpr ⟨last, rfl⟩, Grouping.collect_append, bytes]
    rfl

theorem fits_of_recordThreads (positive : cache_block_size ≠ 0) {threads : List (Fin warpSize)}
    {state last : BlockAccesses warpSize}
    (run : threads.foldlM (recordThread cache_block_size inst) state = some last) :
    FitsMask cache_block_size inst threads := by
  intro thread member
  obtain ⟨before, after, here⟩ := List.foldlM_each run thread member
  exact ((recordThread_eq_some positive).mp here).1

/-! ## The accesses -/

/-- The accesses where no bit is set beyond the byte mask. -/
def blockAccessList (cache_block_size : BitVec 32) (inst : CachedInst warpSize) (is_write : Bool) :
    List (MemAccess warpSize) :=
  ((threadsByBlock cache_block_size inst).collect (activeList inst)).toList.map
    (blockAccess cache_block_size inst is_write
      (requestedBytes cache_block_size inst (activeList inst)))

theorem mem_activeList {thread : Fin warpSize} :
    thread ∈ activeList inst ↔ thread ∈ inst.m_warp_active_mask := by
  simp [activeList]

theorem mem_blockAccessList {is_write : Bool} {access : MemAccess warpSize} :
    access ∈ blockAccessList cache_block_size inst is_write ↔
      ∃ thread ∈ inst.m_warp_active_mask,
        access = blockAccess cache_block_size inst is_write
          (requestedBytes cache_block_size inst (activeList inst))
          (blockAddress cache_block_size (inst.memreqaddr thread),
            {other ∈ inst.m_warp_active_mask | blockAddress cache_block_size (inst.memreqaddr other) =
              blockAddress cache_block_size (inst.memreqaddr thread)}) := by
  have collected (block : Address) :
      (threadsByBlock cache_block_size inst).value (activeList inst) block =
        ({other ∈ inst.m_warp_active_mask |
          blockAddress cache_block_size (inst.memreqaddr other) = block} : Finset _) := by
    ext other
    have member := (threadsByBlock cache_block_size inst).value_iff
      (P := fun active => other ∈ active) (Q := fun thread => other = thread)
      (Finset.notMem_empty other) (fun active thread => by
        show other ∈ insert thread active ↔ _
        rw [Finset.mem_insert, or_comm]) (activeList inst) block
    rw [member, Finset.mem_filter]
    constructor
    · rintro ⟨thread, inList, isBlock, rfl⟩
      exact ⟨mem_activeList.mp inList, isBlock⟩
    · rintro ⟨isActive, isBlock⟩
      exact ⟨other, mem_activeList.mpr isActive, isBlock, rfl⟩
  rw [blockAccessList, List.mem_map]
  constructor
  · rintro ⟨⟨block, active⟩, entry, rfl⟩
    obtain ⟨⟨thread, inList, rfl⟩, rfl⟩ := (Grouping.mem_toList_collect _).mp entry
    exact ⟨thread, mem_activeList.mp inList, by rw [collected]; rfl⟩
  · rintro ⟨thread, isActive, rfl⟩
    refine ⟨(_, _), (Grouping.mem_toList_collect _).mpr
      ⟨⟨thread, mem_activeList.mpr isActive, rfl⟩, rfl⟩, ?_⟩
    rw [collected]
    rfl

theorem generateCachedAccesses_eq_some {config : CacheLines} {inst : CachedInst config.warp_size}
    (positive : inst.space.cacheBlockSize config ≠ 0) {is_write : Bool}
    {accesses : List (MemAccess config.warp_size)} :
    generateCachedAccesses config inst is_write [] = some accesses ↔
      FitsMask (inst.space.cacheBlockSize config) inst (activeList inst) ∧
        accesses = blockAccessList (inst.space.cacheBlockSize config) inst is_write := by
  rw [generateCachedAccesses]
  by_cases off : inst.m_warp_active_mask = ∅
  · have noThread : activeList inst = [] := by
      apply List.filter_eq_nil_iff.mpr
      intro thread _
      simp [off]
    have noAccess : blockAccessList (inst.space.cacheBlockSize config) inst is_write = [] := by
      apply List.eq_nil_iff_forall_not_mem.mpr
      intro access member
      obtain ⟨thread, isActive, _⟩ := mem_blockAccessList.mp member
      exact Finset.notMem_empty thread (off ▸ isActive)
    rw [if_pos off, noAccess, noThread]
    constructor
    · intro same
      exact ⟨fun _ member => absurd member List.not_mem_nil, (Option.some.inj same).symm⟩
    · intro both
      rw [both.2]
  · simp only [if_neg off, if_neg positive, ne_eq, not_true_eq_false, if_false]
    constructor
    · intro run
      obtain ⟨state, loop, result⟩ := Option.bind_eq_some_iff.mp run
      have fits := fits_of_recordThreads positive loop
      rw [recordThreads_eq positive fits] at loop
      obtain rfl := Option.some.inj loop
      exact ⟨fits, (Option.some.inj result).symm⟩
    · rintro ⟨fits, rfl⟩
      rw [recordThreads_eq positive fits]
      rfl

theorem blockAccessList_once {is_write : Bool} :
    ((blockAccessList cache_block_size inst is_write).map MemAccess.m_addr).Nodup := by
  have addresses : (blockAccessList cache_block_size inst is_write).map MemAccess.m_addr =
      ((threadsByBlock cache_block_size inst).collect (activeList inst)).toList.map Prod.fst := by
    rw [blockAccessList, List.map_map]
    rfl
  rw [addresses]
  exact Grouping.nodup_keys_collect _ _

theorem mem_requestedBytes {byte : Fin 128} :
    byte ∈ requestedBytes cache_block_size inst (activeList inst) ↔
      ∃ thread ∈ inst.m_warp_active_mask, ∃ i < inst.data_size,
        byte.val = blockOffset cache_block_size (inst.memreqaddr thread) + i := by
  simp only [requestedBytes, mem_activeList, Finset.mem_filter, Finset.mem_univ, true_and]

/-! ## Exactness -/

theorem mem_blockThreads {block : Address} {thread : Fin warpSize} :
    thread ∈ blockThreads cache_block_size inst block ↔ thread ∈ inst.m_warp_active_mask ∧
      cacheBlock cache_block_size (inst.memreqaddr thread) = block := by
  rw [blockThreads, Finset.mem_filter]

theorem requestedIn_iff (condition : SameBytes cache_block_size inst) {other : Fin warpSize}
    (isActive : other ∈ inst.m_warp_active_mask) {byte : Nat} :
    RequestedIn cache_block_size inst (cacheBlock cache_block_size (inst.memreqaddr other)) byte ↔
      ∃ thread ∈ inst.m_warp_active_mask, ∃ i < inst.data_size,
        byte = blockOffset cache_block_size (inst.memreqaddr thread) + i := by
  constructor
  · rintro ⟨thread, inBlock, i, isTurn, _, rfl⟩
    obtain ⟨threadActive, isBlock⟩ := mem_blockThreads.mp inBlock
    exact ⟨thread, threadActive, i, isTurn,
      offset_in_block isBlock (condition.fits thread threadActive i isTurn)⟩
  · rintro ⟨thread, threadActive, i, isTurn, rfl⟩
    obtain ⟨sharer, sharerActive, isBlock, j, isTurn', sameByte⟩ :=
      condition.same thread threadActive i isTurn other isActive
    refine ⟨sharer, mem_blockThreads.mpr ⟨sharerActive, isBlock⟩, j, isTurn', ?_, ?_⟩
    · rw [condition.inside sharer sharerActive j isTurn', isBlock]
    · rw [offset_in_block isBlock (condition.fits sharer sharerActive j isTurn'), sameByte]

theorem exact_of_sameBytes (condition : SameBytes cache_block_size inst) (is_write : Bool) :
    ExactAccesses cache_block_size inst (blockAccessList cache_block_size inst is_write) := by
  have whole (thread : Fin warpSize) (isActive : thread ∈ inst.m_warp_active_mask) :
      blockAddress cache_block_size (inst.memreqaddr thread) =
        cacheBlock cache_block_size (inst.memreqaddr thread) :=
    blockAddress_of_low (condition.low thread isActive)
  constructor
  case once => exact blockAccessList_once
  case touched =>
    intro block
    rw [List.mem_map]
    constructor
    · rintro ⟨access, member, rfl⟩
      obtain ⟨thread, isActive, rfl⟩ := mem_blockAccessList.mp member
      exact ⟨thread, mem_blockThreads.mpr ⟨isActive, (whole thread isActive).symm⟩⟩
    · rintro ⟨thread, inBlock⟩
      obtain ⟨isActive, rfl⟩ := mem_blockThreads.mp inBlock
      exact ⟨_, mem_blockAccessList.mpr ⟨thread, isActive, rfl⟩, whole thread isActive⟩
  case threads =>
    intro access member
    obtain ⟨thread, isActive, rfl⟩ := mem_blockAccessList.mp member
    ext other
    rw [mem_blockThreads]
    simp only [blockAccess, Finset.mem_filter]
    apply and_congr_right
    intro otherActive
    rw [whole other otherActive]
  case bytes =>
    intro access member byte
    obtain ⟨thread, isActive, rfl⟩ := mem_blockAccessList.mp member
    simp only [blockAccess, whole thread isActive]
    rw [requestedIn_iff condition isActive, Finset.mem_map]
    constructor
    · rintro ⟨bit, inMask, rfl⟩
      exact mem_requestedBytes.mp inMask
    · rintro ⟨sharer, sharerActive, i, isTurn, rfl⟩
      exact ⟨⟨_, condition.fits sharer sharerActive i isTurn⟩,
        mem_requestedBytes.mpr ⟨sharer, sharerActive, i, isTurn, rfl⟩, rfl⟩

theorem low_of_exact (positive : cache_block_size ≠ 0) {is_write : Bool}
    (exactly : ExactAccesses cache_block_size inst
      (blockAccessList cache_block_size inst is_write)) :
    ∀ thread ∈ inst.m_warp_active_mask, (inst.memreqaddr thread).toNat < 2 ^ 32 := by
  intro thread isActive
  have isTouched := (exactly.touched _).mpr ⟨thread, mem_blockThreads.mpr ⟨isActive, rfl⟩⟩
  obtain ⟨access, member, isBlock⟩ := List.mem_map.mp isTouched
  obtain ⟨other, _, rfl⟩ := mem_blockAccessList.mp member
  have isBlock : blockAddress cache_block_size (inst.memreqaddr other) =
    cacheBlock cache_block_size (inst.memreqaddr thread) := isBlock
  rw [← cacheBlock_low positive, ← isBlock, blockAddress_eq]
  exact Nat.mod_lt _ (by decide)

theorem requested_of_exact (positive : cache_block_size ≠ 0) {is_write : Bool}
    (exactly : ExactAccesses cache_block_size inst
      (blockAccessList cache_block_size inst is_write))
    (fits : FitsMask cache_block_size inst (activeList inst))
    {thread : Fin warpSize} (isActive : thread ∈ inst.m_warp_active_mask)
    {i : Nat} (isTurn : i < inst.data_size)
    {other : Fin warpSize} (otherActive : other ∈ inst.m_warp_active_mask) :
    RequestedIn cache_block_size inst (cacheBlock cache_block_size (inst.memreqaddr other))
      (blockOffset cache_block_size (inst.memreqaddr thread) + i) := by
  rw [← blockAddress_of_low (low_of_exact positive exactly other otherActive)]
  apply (exactly.bytes _ (mem_blockAccessList.mpr ⟨other, otherActive, rfl⟩) _).mp
  exact Finset.mem_map.mpr ⟨⟨_, fits thread (mem_activeList.mpr isActive) i isTurn⟩,
    mem_requestedBytes.mpr ⟨thread, isActive, i, isTurn, rfl⟩, rfl⟩

theorem sameBytes_of_exact (positive : cache_block_size ≠ 0) {is_write : Bool}
    (fits : FitsMask cache_block_size inst (activeList inst))
    (exactly : ExactAccesses cache_block_size inst
      (blockAccessList cache_block_size inst is_write)) :
    SameBytes cache_block_size inst := by
  constructor
  case low => exact low_of_exact positive exactly
  case fits =>
    intro thread isActive
    exact fits thread (mem_activeList.mpr isActive)
  case inside =>
    intro thread isActive i isTurn
    obtain ⟨sharer, _, j, _, isInside, sameByte⟩ :=
      requested_of_exact positive exactly fits isActive isTurn isActive
    -- the byte of the sharer is the one the thread requests
    rw [← offset_in_block rfl (fits thread (mem_activeList.mpr isActive) i isTurn)] at sameByte
    have sameAddress := BitVec.eq_of_toNat_eq sameByte
    rw [BitVec.sub_left_inj] at sameAddress
    rw [← sameAddress, isInside]
  case same =>
    intro thread isActive i isTurn other otherActive
    obtain ⟨sharer, inBlock, j, isTurn', _, sameByte⟩ :=
      requested_of_exact positive exactly fits isActive isTurn otherActive
    obtain ⟨sharerActive, isBlock⟩ := mem_blockThreads.mp inBlock
    refine ⟨sharer, sharerActive, isBlock, j, isTurn', ?_⟩
    rw [← sameByte, offset_in_block isBlock (fits sharer (mem_activeList.mpr sharerActive) j isTurn')]

/-- The accesses are exact where all touched blocks are read at the same bytes. -/
theorem cached_accesses_exact_iff {config : CacheLines} {inst : CachedInst config.warp_size}
    (positive : inst.space.cacheBlockSize config ≠ 0) (is_write : Bool) :
    (∃ accesses, generateCachedAccesses config inst is_write [] = some accesses ∧
      ExactAccesses (inst.space.cacheBlockSize config) inst accesses) ↔
        SameBytes (inst.space.cacheBlockSize config) inst := by
  constructor
  · rintro ⟨accesses, run, exactly⟩
    obtain ⟨fits, rfl⟩ := (generateCachedAccesses_eq_some positive).mp run
    exact sameBytes_of_exact positive fits exactly
  · intro condition
    refine ⟨_, (generateCachedAccesses_eq_some positive).mpr ⟨?_, rfl⟩,
      exact_of_sameBytes condition is_write⟩
    intro thread member
    exact condition.fits thread (mem_activeList.mp member)

/-- Two threads that read four bytes each from constant memory, with lines of 64 bytes. -/
def twoReaders : CacheLines :=
  { warp_size := 2, mem_warp_parts := 1, coal_disabled := false, coal_disabled_dyn := false,
    coal_line_num := 0, fits := by decide, split := Nat.one_pos,
    gpgpu_cache_texl1_linesize := 64, gpgpu_cache_constl1_linesize := 64 }

def constantReads (memreqaddr : Fin 2 → Address) : CachedInst 2 :=
  { data_size := 4, space := .const_space, m_warp_active_mask := {0, 1}, memreqaddr }

theorem cached_accesses_exact_same_bytes :
    ∃ accesses, generateCachedAccesses twoReaders (constantReads ![8, 72]) false [] = some accesses ∧
      ExactAccesses 64 (constantReads ![8, 72]) accesses :=
  (@cached_accesses_exact_iff twoReaders (constantReads ![8, 72]) (by decide) false).mpr
      { low := by decide, fits := by decide, inside := by decide, same := by decide }

/-- The bytes of the second block are in the mask of the first; and a block from `2 ^ 32` on is
replaced by one below. -/
theorem shared_byte_mask_inexact :
    (¬ ∃ accesses, generateCachedAccesses twoReaders (constantReads ![0, 68]) false [] =
        some accesses ∧ ExactAccesses 64 (constantReads ![0, 68]) accesses) ∧
    ¬ ∃ accesses, generateCachedAccesses twoReaders (constantReads ![2 ^ 32, 2 ^ 32]) false [] =
        some accesses ∧ ExactAccesses 64 (constantReads ![2 ^ 32, 2 ^ 32]) accesses := by
  have positive (memreqaddr : Fin 2 → Address) :
      (constantReads memreqaddr).space.cacheBlockSize twoReaders ≠ 0 := by
    show (64 : BitVec 32) ≠ 0
    decide
  constructor
  · rintro ⟨accesses, run, exactly⟩
    obtain ⟨fits, rfl⟩ := (generateCachedAccesses_eq_some (positive _)).mp run
    have condition : SameBytes 64 (constantReads ![0, 68]) :=
      sameBytes_of_exact (positive ![0, 68]) fits exactly
    exact absurd (condition.same 0 (by decide) 0 (by decide) 1 (by decide)) (by decide)
  · rintro ⟨accesses, run, exactly⟩
    obtain ⟨fits, rfl⟩ := (generateCachedAccesses_eq_some (positive _)).mp run
    have condition : SameBytes 64 (constantReads ![2 ^ 32, 2 ^ 32]) :=
      sameBytes_of_exact (positive ![2 ^ 32, 2 ^ 32]) fits exactly
    exact absurd (condition.low 0 (by decide)) (by decide)

end AesOnGpu.Coalescing
