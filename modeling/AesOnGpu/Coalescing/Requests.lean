import AesOnGpu.Coalescing.Arch13
import AesOnGpu.Lib.Words
import AesOnGpu.Lib.Grouping

/-! # The transactions of a list of requests

A thread makes one request, or one for each 4 bytes of a longer access to local
memory.  While the assertions hold, the transactions of a sub-warp are its
requests collected by the block they fall into.
-/

namespace AesOnGpu.Coalescing

variable {warpSize : Nat}

/-! ## Addresses and blocks -/

/-- The segment sizes of the data sizes that instructions have. -/
def ProperSegment (segment_size : Nat) : Prop :=
  segment_size = 32 ∨ segment_size = 64 ∨ segment_size = 128

def WarpInst.ValidSize (inst : WarpInst warpSize) : Prop :=
  inst.data_size ∈ [1, 2, 4, 8, 16]

theorem WarpInst.ValidSize.proper {inst : WarpInst warpSize} (valid : inst.ValidSize) :
    ProperSegment (segmentSize inst.data_size) := by
  have size := valid
  simp only [WarpInst.ValidSize, List.mem_cons, List.not_mem_nil, or_false] at size
  rcases size with size | size | size | size | size <;> rw [size] <;> simp [segmentSize, ProperSegment]

theorem WarpInst.ValidSize.fits {inst : WarpInst warpSize} (valid : inst.ValidSize) :
    0 < (splitAccess inst).1 ∧ (splitAccess inst).1 ≤ 16 ∧
      (splitAccess inst).1 ≤ segmentSize inst.data_size ∧ (splitAccess inst).2 ≤ maxAccesses := by
  have size := valid
  simp only [WarpInst.ValidSize, List.mem_cons, List.not_mem_nil, or_false] at size
  rcases size with size | size | size | size | size <;> cases space : inst.space <;>
    simp [splitAccess, segmentSize, size, space, maxAccesses]

theorem lineOffset_val (addr : Address) : (lineOffset addr : Nat) = addr.toNat % 128 := by
  have field := Bits.and_mask addr.toNat 7 0
  simpa [lineOffset] using field

theorem tag_toNat {segment_size : Nat} (proper : ProperSegment segment_size) (addr : Address) :
    (lineSizeBasedTagFunc addr (.ofNat 64 segment_size)).toNat =
      addr.toNat / segment_size * segment_size % 2 ^ 32 := by
  rw [lineSizeBasedTagFunc, BitVec.toNat_setWidth, BitVec.toNat_and]
  congr 1
  rcases proper with rfl | rfl | rfl
  · exact Bits.and_high_mask (k := 59) (s := 5) addr.isLt
  · exact Bits.and_high_mask (k := 58) (s := 6) addr.isLt
  · exact Bits.and_high_mask (k := 57) (s := 7) addr.isLt

/-- The key of the transaction that a request belongs to. -/
def blockOf (inst : WarpInst warpSize) (addr : Address) : Address :=
  (lineSizeBasedTagFunc addr (.ofNat 64 (segmentSize inst.data_size))).setWidth 64

theorem blockOf_toNat {inst : WarpInst warpSize} (valid : inst.ValidSize) (addr : Address) :
    (blockOf inst addr).toNat =
      addr.toNat / segmentSize inst.data_size * segmentSize inst.data_size % 2 ^ 32 := by
  rw [blockOf, BitVec.toNat_setWidth, tag_toNat valid.proper]
  exact Nat.mod_eq_of_lt (lt_of_lt_of_le (Nat.mod_lt _ (by decide)) (by decide))

/-! ## Requests -/

/-- The assertion about the requests of a thread: the first and the last byte lie
    in the same segment. -/
def WarpInst.SameSegment (inst : WarpInst warpSize) (thread : Fin warpSize) : Prop :=
  ∀ access : Fin maxAccesses, access.val < (splitAccess inst).2 →
    lineSizeBasedTagFunc (inst.memreqaddr thread access) (.ofNat 64 (segmentSize inst.data_size)) =
      lineSizeBasedTagFunc (inst.memreqaddr thread access + .ofNat 64 (splitAccess inst).1 - 1)
        (.ofNat 64 (segmentSize inst.data_size))

structure Request (warpSize : Nat) where
  thread : Fin warpSize
  addr : Address

def WarpInst.accesses (inst : WarpInst warpSize) : List (Fin maxAccesses) :=
  (List.finRange maxAccesses).filter fun access => access.val < (splitAccess inst).2

def WarpInst.requests (inst : WarpInst warpSize) (thread : Fin warpSize) : List (Request warpSize) :=
  inst.accesses.map fun access => ⟨thread, inst.memreqaddr thread access⟩

/-- The bytes of a request within its 128 bytes. -/
def requestBytes (inst : WarpInst warpSize) (addr : Address) : Finset (Fin 128) :=
  {byte | (lineOffset addr : Nat) ≤ byte ∧ byte.val < lineOffset addr + (splitAccess inst).1}

def transactionsOf (inst : WarpInst warpSize) :
    Grouping (Request warpSize) Address (TransactionInfo warpSize) where
  key request := blockOf inst request.addr
  fresh := .empty
  add info request :=
    { chunks := insert (chunkOf request.addr) info.chunks
      bytes := info.bytes ∪ requestBytes inst request.addr
      active := insert request.thread info.active }

theorem mem_requests {inst : WarpInst warpSize} {thread : Fin warpSize} {request : Request warpSize} :
    request ∈ inst.requests thread ↔
      ∃ access : Fin maxAccesses, access.val < (splitAccess inst).2 ∧
        request = ⟨thread, inst.memreqaddr thread access⟩ := by
  simp only [WarpInst.requests, WarpInst.accesses, List.mem_map, List.mem_filter,
    List.mem_finRange, true_and, decide_eq_true_eq]
  exact exists_congr fun access => and_congr_right fun _ => eq_comm

theorem requests_thread {inst : WarpInst warpSize} {thread : Fin warpSize}
    {request : Request warpSize} (member : request ∈ inst.requests thread) :
    request.thread = thread := by
  obtain ⟨access, _, rfl⟩ := mem_requests.mp member
  rfl

/-- A request whose last byte is in the segment of its first one stays within its
    segment, also where the addresses wrap. -/
theorem segment_fits {segment_size size : Nat} (proper : ProperSegment segment_size)
    (positive : 0 < size) (small : size ≤ segment_size) {addr : Address}
    (same : lineSizeBasedTagFunc addr (.ofNat 64 segment_size) =
      lineSizeBasedTagFunc (addr + .ofNat 64 size - 1) (.ofNat 64 segment_size)) :
    addr.toNat % segment_size + size ≤ segment_size := by
  have sizes := congrArg BitVec.toNat same
  have wide : size < 2 ^ 64 := by rcases proper with rfl | rfl | rfl <;> omega
  have last : (addr + .ofNat 64 size - 1).toNat = (addr.toNat + (size - 1)) % 2 ^ 64 := by
    rw [BitVec.toNat_sub, BitVec.toNat_add, BitVec.toNat_ofNat, Nat.mod_eq_of_lt wide]
    have one : (1 : BitVec 64).toNat = 1 := rfl
    have bound := addr.isLt
    rw [one]
    omega
  rw [tag_toNat proper, tag_toNat proper, last] at sizes
  have bound := addr.isLt
  rcases proper with rfl | rfl | rfl <;> omega

theorem setBytes_eq (bytes : Finset (Fin 128)) {idx size : Nat} (inside : idx + size ≤ 128) :
    setBytes bytes idx size =
      some (bytes ∪ ({byte | idx ≤ byte.val ∧ byte.val < idx + size} : Finset (Fin 128))) := by
  induction size with
  | zero =>
    have none : ({byte | idx ≤ byte.val ∧ byte.val < idx + 0} : Finset (Fin 128)) = ∅ := by
      ext byte; simp
    rw [none, Finset.union_empty]
    rfl
  | succ size ih =>
    rw [setBytes, List.range_succ, List.foldlM_append]
    rw [setBytes] at ih
    rw [ih (by omega)]
    have last : idx + size < 128 := by omega
    simp only [List.foldlM_cons, List.foldlM_nil, Option.bind_eq_bind, Option.bind_some, dif_pos last]
    congr 1
    ext byte
    simp only [Finset.mem_insert, Finset.mem_union, Finset.mem_filter, Finset.mem_univ, true_and,
      Fin.ext_iff]
    by_cases before : byte ∈ bytes
    · simp [before]
    · simp only [before, false_or]
      omega

theorem WarpInst.SameSegment.inside {inst : WarpInst warpSize} {thread : Fin warpSize}
    (same : inst.SameSegment thread) (valid : inst.ValidSize) {access : Fin maxAccesses}
    (made : access.val < (splitAccess inst).2) :
    (inst.memreqaddr thread access).toNat % segmentSize inst.data_size + (splitAccess inst).1 ≤
      segmentSize inst.data_size :=
  segment_fits valid.proper valid.fits.1 valid.fits.2.2.1 (same access made)

theorem recordAccess_eq {inst : WarpInst warpSize} {thread : Fin warpSize}
    (same : inst.SameSegment thread) (valid : inst.ValidSize) {access : Fin maxAccesses}
    (made : access.val < (splitAccess inst).2) (map : Transactions warpSize) :
    recordAccess inst thread map access =
      some ((transactionsOf inst).insert map ⟨thread, inst.memreqaddr thread access⟩) := by
  have inside := same.inside valid made
  have fits : lineOffset (inst.memreqaddr thread access) + (splitAccess inst).1 ≤ 128 := by
    rw [lineOffset_val]
    rcases valid.proper with size | size | size <;> rw [size] at inside <;> omega
  simp only [recordAccess]
  rw [if_neg (not_not.mpr (same access made)), setBytes_eq _ fits]
  rfl

/-! ## What is sent for a transaction -/

theorem reduceAndSend_sent {is_write : Bool} {access_type : MemAccessType}
    {info : TransactionInfo warpSize} {addr : Address} {segment_size : Nat}
    {access : MemAccess warpSize}
    (sent : reduceAndSend is_write access_type info addr segment_size = some access) :
    access.m_warp_mask = info.active ∧ access.m_byte_mask = info.bytes ∧
      ∃ reduction, reduceSegment info.chunks addr segment_size = some reduction ∧
        reduceHalf reduction = some (access.m_addr, access.m_req_size) := by
  simp only [reduceAndSend] at sent
  -- its two assertions: the block is aligned, and a chunk of it is used
  split at sent
  next => cases sent
  next =>
    split at sent
    next => cases sent
    next =>
      simp only [Option.bind_eq_bind, Option.pure_def, Option.bind_eq_some_iff,
        Option.some.injEq] at sent
      obtain ⟨reduction, first, half, second, rfl⟩ := sent
      exact ⟨rfl, rfl, reduction, first, second⟩

/-! ## The requests of a thread -/

theorem accesses_made {inst : WarpInst warpSize} {access : Fin maxAccesses}
    (member : access ∈ inst.accesses) : access.val < (splitAccess inst).2 :=
  of_decide_eq_true (List.mem_filter.mp member).2

theorem recordAccesses_eq {inst : WarpInst warpSize} {thread : Fin warpSize}
    (same : inst.SameSegment thread) (valid : inst.ValidSize) (map : Transactions warpSize) :
    inst.accesses.foldlM (recordAccess inst thread) map =
      some ((inst.requests thread).foldl (transactionsOf inst).insert map) := by
  rw [WarpInst.requests, List.foldl_map]
  exact List.foldlM_eq_some
    (fun access member map => recordAccess_eq same valid (accesses_made member) map) map

def wholeSegment (inst : WarpInst warpSize) (is_write : Bool) (access_type : MemAccessType)
    (transaction : Address × TransactionInfo warpSize) : MemAccess warpSize :=
  ⟨access_type, transaction.1, segmentSize inst.data_size, is_write, transaction.2.active,
    transaction.2.bytes⟩

variable {config : CoreConfig} {inst : WarpInst config.warp_size} (is_write : Bool)
  (access_type : MemAccessType)

theorem threadTurn_inactive (coalescer : Coalescer config.warp_size)
    {thread : Fin config.warp_size} (inactive : thread ∉ inst.m_warp_active_mask) :
    threadTurn config inst is_write access_type coalescer thread = some coalescer :=
  if_pos inactive

theorem threadTurn_disabled (disabled : coalDisabledLoc config inst = true)
    (valid : inst.ValidSize) (coalescer : Coalescer config.warp_size)
    {thread : Fin config.warp_size} (active : thread ∈ inst.m_warp_active_mask)
    (same : inst.SameSegment thread) :
    threadTurn config inst is_write access_type coalescer thread =
      some ⟨coalescer.m_accessq ++ ((transactionsOf inst).collect (inst.requests thread)).toList.map
          (wholeSegment inst is_write access_type),
        (transactionsOf inst).collect (inst.requests thread), true⟩ := by
  have few : ¬ (splitAccess inst).2 > maxAccesses := Nat.not_lt.mpr valid.fits.2.2.2
  have recorded := recordAccesses_eq same valid ∅
  simp only [WarpInst.accesses] at recorded
  simp only [threadTurn, if_neg (not_not.mpr active), disabled, if_pos, if_neg few, recorded]
  rfl

theorem threadTurn_enabled (enabled : coalDisabledLoc config inst = false)
    (valid : inst.ValidSize) (coalescer : Coalescer config.warp_size)
    {thread : Fin config.warp_size} (active : thread ∈ inst.m_warp_active_mask)
    (same : inst.SameSegment thread) :
    threadTurn config inst is_write access_type coalescer thread =
      some ⟨coalescer.m_accessq,
        (inst.requests thread).foldl (transactionsOf inst).insert coalescer.subwarp_transactions,
        false⟩ := by
  have few : ¬ (splitAccess inst).2 > maxAccesses := Nat.not_lt.mpr valid.fits.2.2.2
  have recorded := recordAccesses_eq same valid coalescer.subwarp_transactions
  simp only [WarpInst.accesses] at recorded
  simp [threadTurn, active, enabled, few, recorded]

/-! ## The threads of a sub-warp -/

def activeThreads (config : CoreConfig) (inst : WarpInst config.warp_size) (subwarp : Nat) :
    List (Fin config.warp_size) :=
  (subwarpThreads config subwarp).filter (· ∈ inst.m_warp_active_mask)

def subwarpRequests (config : CoreConfig) (inst : WarpInst config.warp_size) (subwarp : Nat) :
    List (Request config.warp_size) :=
  (activeThreads config inst subwarp).flatMap inst.requests

/-- The assertions about the requests of all threads that belong to a sub-warp. -/
def SameSegments (config : CoreConfig) (inst : WarpInst config.warp_size) : Prop :=
  ∀ subwarp < config.mem_warp_parts, ∀ thread ∈ activeThreads config inst subwarp,
    inst.SameSegment thread

theorem threadTurns_active (threads : List (Fin config.warp_size))
    (coalescer : Coalescer config.warp_size) :
    threads.foldlM (threadTurn config inst is_write access_type) coalescer =
      (threads.filter (· ∈ inst.m_warp_active_mask)).foldlM
        (threadTurn config inst is_write access_type) coalescer := by
  have skip (coalescer : Coalescer config.warp_size) (thread : Fin config.warp_size) :
      thread ∉ inst.m_warp_active_mask →
        threadTurn config inst is_write access_type coalescer thread = some coalescer :=
    threadTurn_inactive is_write access_type coalescer
  exact List.foldlM_skip skip threads coalescer

theorem threadTurns_disabled (disabled : coalDisabledLoc config inst = true)
    (valid : inst.ValidSize) (threads : List (Fin config.warp_size))
    (same : ∀ thread ∈ threads.filter (· ∈ inst.m_warp_active_mask), inst.SameSegment thread)
    (coalescer : Coalescer config.warp_size) (isDisabled : coalescer.coal_disabled_loc = true) :
    ∃ map, threads.foldlM (threadTurn config inst is_write access_type) coalescer =
      some ⟨coalescer.m_accessq ++ (threads.filter (· ∈ inst.m_warp_active_mask)).flatMap fun thread =>
          ((transactionsOf inst).collect (inst.requests thread)).toList.map
            (wholeSegment inst is_write access_type), map, true⟩ := by
  have active : ∀ thread ∈ threads.filter (· ∈ inst.m_warp_active_mask),
      thread ∈ inst.m_warp_active_mask := by simp
  rw [threadTurns_active]
  generalize threads.filter (· ∈ inst.m_warp_active_mask) = threads at same active ⊢
  induction threads generalizing coalescer with
  | nil =>
    refine ⟨coalescer.subwarp_transactions, ?_⟩
    cases coalescer
    simpa using isDisabled
  | cons thread threads ih =>
    rw [List.forall_mem_cons] at same active
    obtain ⟨map, run⟩ := ih ⟨_, _, true⟩ rfl same.2 active.2
    refine ⟨map, ?_⟩
    rw [List.foldlM_cons, threadTurn_disabled is_write access_type disabled valid coalescer active.1
      same.1, Option.bind_eq_bind, Option.bind_some, run, List.flatMap_cons, List.append_assoc]

theorem threadTurns_enabled (enabled : coalDisabledLoc config inst = false)
    (valid : inst.ValidSize) (threads : List (Fin config.warp_size))
    (same : ∀ thread ∈ threads.filter (· ∈ inst.m_warp_active_mask), inst.SameSegment thread)
    (coalescer : Coalescer config.warp_size) :
    ∃ loc, threads.foldlM (threadTurn config inst is_write access_type) coalescer =
      some ⟨coalescer.m_accessq,
        ((threads.filter (· ∈ inst.m_warp_active_mask)).flatMap inst.requests).foldl
          (transactionsOf inst).insert coalescer.subwarp_transactions, loc⟩ ∧
      (loc = true → coalescer.coal_disabled_loc = true ∧
        threads.filter (· ∈ inst.m_warp_active_mask) = []) := by
  have active : ∀ thread ∈ threads.filter (· ∈ inst.m_warp_active_mask),
      thread ∈ inst.m_warp_active_mask := by simp
  rw [threadTurns_active]
  generalize threads.filter (· ∈ inst.m_warp_active_mask) = threads at same active ⊢
  induction threads generalizing coalescer with
  | nil => exact ⟨coalescer.coal_disabled_loc, rfl, fun isDisabled => ⟨isDisabled, rfl⟩⟩
  | cons thread threads ih =>
    rw [List.forall_mem_cons] at same active
    obtain ⟨loc, run, stays⟩ := ih ⟨_, _, false⟩ same.2 active.2
    refine ⟨loc, ?_, fun isDisabled => absurd (stays isDisabled).1 Bool.false_ne_true⟩
    rw [List.foldlM_cons, threadTurn_enabled is_write access_type enabled valid coalescer active.1
      same.1, Option.bind_eq_bind, Option.bind_some, run, List.flatMap_cons, List.foldl_append]

end AesOnGpu.Coalescing
