import AesOnGpu.Coalescing.Disabled

/-! # Coalescing enabled

The requests of a sub-warp are collected by segment and each transaction is
reduced to the 64 or 32 bytes that are used.  `Reduced` says what is left of a
transaction: an access within its segment that covers its chunks.
-/

namespace AesOnGpu.Coalescing

/-! ## Reducing a transaction -/

/-- The chunks `q` of the 128 bytes around `addr` lie in `[addr, addr + size)`. -/
def Covers (q : Finset (Fin 4)) (addr size : Nat) : Prop :=
  ∀ chunk ∈ q, addr % 128 ≤ 32 * chunk.val ∧ 32 * chunk.val + 32 ≤ addr % 128 + size

/-- `[addr, addr + size)` lies in the segment at `block`. -/
structure Within (block segment_size addr size : Nat) : Prop where
  start : block ≤ addr
  stop : addr + size ≤ block + segment_size
  positive : 0 < size

@[simp] theorem zero_mem_halves (lower upper : Bool) : 0 ∈ halves lower upper ↔ lower = true := by
  revert lower upper
  decide

@[simp] theorem one_mem_halves (lower upper : Bool) : 1 ∈ halves lower upper ↔ upper = true := by
  revert lower upper
  decide

/-- The halves of a 64-byte reduction are marked by its chunks. -/
structure Marked (q : Finset (Fin 4)) (reduction : Reduction) : Prop where
  place : reduction.addr.toNat % 128 = 0 ∨ reduction.addr.toNat % 128 = 64
  lower : 0 ∈ reduction.h ↔ ∃ chunk ∈ q, 32 * chunk.val = reduction.addr.toNat % 128
  upper : 1 ∈ reduction.h ↔ ∃ chunk ∈ q, 32 * chunk.val = reduction.addr.toNat % 128 + 32

theorem reduceHalf_spec {q : Finset (Fin 4)} (used : q.Nonempty) {reduction : Reduction}
    (covers : Covers q reduction.addr.toNat reduction.size) (positive : 0 < reduction.size)
    (low : reduction.addr.toNat < 2 ^ 33) (marked : reduction.size = 64 → Marked q reduction) :
    ∃ addr size, reduceHalf reduction = some (addr, size) ∧ Covers q addr.toNat size ∧
      Within reduction.addr.toNat reduction.size addr.toNat size := by
  by_cases isHalf : reduction.size = 64
  · obtain ⟨place, first, second⟩ := marked isHalf
    have either (chunk : Fin 4) (member : chunk ∈ q) :
        32 * chunk.val = reduction.addr.toNat % 128 ∨
          32 * chunk.val = reduction.addr.toNat % 128 + 32 := by
      have := covers chunk member
      omega
    by_cases lower : 0 ∈ reduction.h
    · by_cases upper : 1 ∈ reduction.h
      · exact ⟨reduction.addr, reduction.size, by simp [reduceHalf, isHalf, lower, upper], covers,
          le_rfl, le_rfl, positive⟩
      · refine ⟨reduction.addr, 32, by simp [reduceHalf, isHalf, lower, upper],
          fun chunk member => ?_, le_rfl, by omega, by decide⟩
        have low := either chunk member
        have notHigh : 32 * chunk.val ≠ reduction.addr.toNat % 128 + 32 := fun high =>
          upper (second.mpr ⟨chunk, member, high⟩)
        omega
    · have high (chunk : Fin 4) (member : chunk ∈ q) :
          32 * chunk.val = reduction.addr.toNat % 128 + 32 :=
        (either chunk member).resolve_left fun low => lower (first.mpr ⟨chunk, member, low⟩)
      have upper : 1 ∈ reduction.h := by
        obtain ⟨chunk, member⟩ := used
        exact second.mpr ⟨chunk, member, high chunk member⟩
      have moved : (reduction.addr + 32).toNat = reduction.addr.toNat + 32 := by
        have value : (32 : Address).toNat = 32 := rfl
        rw [BitVec.toNat_add, value]
        exact Nat.mod_eq_of_lt (by omega)
      refine ⟨reduction.addr + 32, 32, by simp [reduceHalf, isHalf, lower, upper],
        fun chunk member => ?_, by omega, by omega, by decide⟩
      have := high chunk member
      omega
  · exact ⟨reduction.addr, reduction.size, by simp [reduceHalf, isHalf], covers, le_rfl, le_rfl,
      positive⟩

theorem addr_mod_128 (addr : Address) (r : Nat) (small : r < 2 ^ 64) :
    addr % 128 = BitVec.ofNat 64 r ↔ addr.toNat % 128 = r := by
  have value : (128 : Address).toNat = 128 := rfl
  rw [← BitVec.toNat_inj, BitVec.toNat_umod, value, BitVec.toNat_ofNat, Nat.mod_eq_of_lt small]

theorem exists_chunk (q : Finset (Fin 4)) (i : Fin 4) :
    (∃ chunk ∈ q, 32 * chunk.val = 32 * i.val) ↔ i ∈ q := by
  constructor
  · rintro ⟨chunk, member, same⟩
    have : chunk = i := Fin.ext (by omega)
    exact this ▸ member
  · exact fun member => ⟨i, member, rfl⟩

theorem reduceSegment_spec {q : Finset (Fin 4)} (used : q.Nonempty) {addr : Address}
    {segment_size : Nat} (proper : ProperSegment segment_size)
    (aligned : addr.toNat % segment_size = 0) (low : addr.toNat < 2 ^ 32)
    (covers : Covers q addr.toNat segment_size) :
    ∃ reduction, reduceSegment q addr segment_size = some reduction ∧
      Covers q reduction.addr.toNat reduction.size ∧
      Within addr.toNat segment_size reduction.addr.toNat reduction.size ∧
      (reduction.size = 64 → Marked q reduction) := by
  rcases proper with rfl | rfl | rfl
  · exact ⟨⟨addr, 32, ∅⟩, rfl, covers, ⟨le_rfl, le_rfl, Nat.succ_pos 31⟩, fun isHalf =>
      absurd isHalf (show ¬ 32 = 64 by decide)⟩
  · have places : addr.toNat % 128 = 0 ∨ addr.toNat % 128 = 64 := by omega
    rcases places with place | place
    · have isZero : addr % 128 = 0 := (addr_mod_128 addr 0 (by decide)).mpr place
      refine ⟨⟨addr, 64, halves (0 ∈ q) (1 ∈ q)⟩, ?_, covers, ⟨le_rfl, le_rfl, Nat.succ_pos 63⟩,
        fun _ => ⟨Or.inl place, ?_, ?_⟩⟩
      · rw [reduceSegment, if_neg (by decide), if_pos rfl, if_pos isZero]
      · simp [place]
      · rw [place]
        simpa using (exists_chunk q 1).symm
    · have notZero : ¬ addr % 128 = 0 := fun isZero => by
        have := (addr_mod_128 addr 0 (by decide)).mp isZero
        omega
      have isSixtyFour : addr % 128 = 64 := (addr_mod_128 addr 64 (by decide)).mpr place
      refine ⟨⟨addr, 64, halves (2 ∈ q) (3 ∈ q)⟩, ?_, covers, ⟨le_rfl, le_rfl, Nat.succ_pos 63⟩,
        fun _ => ⟨Or.inr place, ?_, ?_⟩⟩
      · rw [reduceSegment, if_neg (by decide), if_pos rfl, if_neg notZero, if_pos isSixtyFour]
      · rw [place]
        simpa using (exists_chunk q 2).symm
      · rw [place]
        simpa using (exists_chunk q 3).symm
  · have place : addr.toNat % 128 = 0 := aligned
    by_cases lower : 0 ∈ q ∨ 1 ∈ q
    · by_cases upper : 2 ∈ q ∨ 3 ∈ q
      · exact ⟨⟨addr, 128, ∅⟩, by simp [reduceSegment, lower, upper], covers,
          ⟨le_rfl, le_rfl, Nat.succ_pos 127⟩, fun isHalf => absurd isHalf (show ¬ 128 = 64 by decide)⟩
      · refine ⟨⟨addr, 64, halves (0 ∈ q) (1 ∈ q)⟩, by simp [reduceSegment, lower, upper],
          fun chunk member => ?_, ⟨le_rfl, by simp, Nat.succ_pos 63⟩,
          fun _ => ⟨Or.inl place, ?_, ?_⟩⟩
        · have notTwo : chunk ≠ 2 := fun same => upper (Or.inl (same ▸ member))
          have notThree : chunk ≠ 3 := fun same => upper (Or.inr (same ▸ member))
          simp only [place]
          omega
        · simp [place]
        · rw [place]
          simpa using (exists_chunk q 1).symm
    · have upper : 2 ∈ q ∨ 3 ∈ q := by
        obtain ⟨chunk, member⟩ := used
        fin_cases chunk
        · exact absurd (Or.inl member) lower
        · exact absurd (Or.inr member) lower
        · exact Or.inl member
        · exact Or.inr member
      have moved : (addr + 64).toNat = addr.toNat + 64 := by
        have value : (64 : Address).toNat = 64 := rfl
        rw [BitVec.toNat_add, value]
        exact Nat.mod_eq_of_lt (by omega)
      have place' : (addr + 64).toNat % 128 = 64 := by omega
      have within : Within addr.toNat 128 (addr + 64).toNat 64 :=
        ⟨by omega, by omega, by decide⟩
      refine ⟨⟨addr + 64, 64, halves (2 ∈ q) (3 ∈ q)⟩, by simp [reduceSegment, lower, upper],
        fun chunk member => ?_, within, fun _ => ⟨Or.inr place', ?_, ?_⟩⟩
      · have notZero : chunk ≠ 0 := fun same => lower (Or.inl (same ▸ member))
        have notOne : chunk ≠ 1 := fun same => lower (Or.inr (same ▸ member))
        simp only [place']
        omega
      · rw [place']
        simpa using (exists_chunk q 2).symm
      · rw [place']
        simpa using (exists_chunk q 3).symm

theorem reduceAndSend_spec {warpSize : Nat} (is_write : Bool) (access_type : MemAccessType)
    {info : TransactionInfo warpSize} (used : info.chunks.Nonempty) {addr : Address}
    {segment_size : Nat} (proper : ProperSegment segment_size)
    (aligned : addr.toNat % segment_size = 0) (low : addr.toNat < 2 ^ 32)
    (covers : Covers info.chunks addr.toNat segment_size) :
    ∃ access, reduceAndSend is_write access_type info addr segment_size = some access ∧
      access.m_warp_mask = info.active ∧ access.m_byte_mask = info.bytes ∧
      Covers info.chunks access.m_addr.toNat access.m_req_size ∧
      Within addr.toNat segment_size access.m_addr.toNat access.m_req_size := by
  have isAligned : addr &&& (BitVec.ofNat 32 segment_size - 1).setWidth 64 = 0 := by
    rw [← BitVec.toNat_inj, BitVec.toNat_and]
    rcases proper with rfl | rfl | rfl
    · exact (Bits.and_mask addr.toNat 5 0).trans (by simpa using aligned)
    · exact (Bits.and_mask addr.toNat 6 0).trans (by simpa using aligned)
    · exact (Bits.and_mask addr.toNat 7 0).trans (by simpa using aligned)
  have someChunk : ¬ info.chunks.card < 1 := Nat.not_lt.mpr (Finset.card_pos.mpr used)
  obtain ⟨reduction, first, coversFirst, within, marked⟩ :=
    reduceSegment_spec used proper aligned low covers
  have small : segment_size ≤ 128 := by rcases proper with rfl | rfl | rfl <;> decide
  have lowFirst : reduction.addr.toNat < 2 ^ 33 := by
    have stop := within.stop
    omega
  obtain ⟨addr', size', second, coversSecond, within'⟩ :=
    reduceHalf_spec used coversFirst within.positive lowFirst marked
  refine ⟨⟨access_type, addr', size', is_write, info.active, info.bytes⟩, ?_, rfl, rfl, coversSecond,
    within.start.trans within'.start, within'.stop.trans within.stop, within'.positive⟩
  simp only [reduceAndSend]
  rw [if_neg (not_not.mpr isAligned), if_neg someChunk]
  simp [first, second]

/-! ## The transactions of a sub-warp -/

section

variable {warpSize : Nat} {inst : WarpInst warpSize} {requests : List (Request warpSize)}
  {key : Address}

theorem mem_active {thread : Fin warpSize} :
    thread ∈ ((transactionsOf inst).value requests key).active ↔
      ∃ request ∈ requests, blockOf inst request.addr = key ∧ request.thread = thread :=
  (transactionsOf inst).value_iff (P := fun info => thread ∈ info.active)
    (Q := fun request => request.thread = thread) (Finset.notMem_empty thread)
    (fun info request => by simp [transactionsOf, or_comm, eq_comm]) requests key

theorem mem_chunks {chunk : Fin 4} :
    chunk ∈ ((transactionsOf inst).value requests key).chunks ↔
      ∃ request ∈ requests, blockOf inst request.addr = key ∧ chunkOf request.addr = chunk :=
  (transactionsOf inst).value_iff (P := fun info => chunk ∈ info.chunks)
    (Q := fun request => chunkOf request.addr = chunk) (Finset.notMem_empty chunk)
    (fun info request => by simp [transactionsOf, or_comm, eq_comm]) requests key

end

/-! ## What a sub-warp sends -/

def reducedSegment {warpSize : Nat} (inst : WarpInst warpSize) (is_write : Bool)
    (access_type : MemAccessType) (transaction : Address × TransactionInfo warpSize) :
    MemAccess warpSize :=
  (reduceAndSend is_write access_type transaction.2 transaction.1
    (segmentSize inst.data_size)).getD (wholeSegment inst is_write access_type transaction)

structure Reduced {warpSize : Nat} (segment_size : Nat)
    (transaction : Address × TransactionInfo warpSize) (access : MemAccess warpSize) : Prop where
  mask : access.m_warp_mask = transaction.2.active
  covers : Covers transaction.2.chunks access.m_addr.toNat access.m_req_size
  within : Within transaction.1.toNat segment_size access.m_addr.toNat access.m_req_size

variable {config : CoreConfig} {inst : WarpInst config.warp_size} (is_write : Bool)
  (access_type : MemAccessType)

theorem blockOf_spec {warpSize : Nat} {inst : WarpInst warpSize} (valid : inst.ValidSize)
    (addr : Address) :
    (blockOf inst addr).toNat % segmentSize inst.data_size = 0 ∧
      (blockOf inst addr).toNat < 2 ^ 32 ∧
      (blockOf inst addr).toNat % 128 ≤ 32 * (chunkOf addr).val ∧
      32 * (chunkOf addr).val + 32 ≤
        (blockOf inst addr).toNat % 128 + segmentSize inst.data_size := by
  have chunk : (chunkOf addr).val = addr.toNat % 128 / 32 := by
    show (lineOffset addr : Nat) / 32 = _
    rw [lineOffset_val]
  rw [chunk, blockOf_toNat valid]
  rcases valid.proper with size | size | size <;> rw [size] <;> omega

theorem reduced {warpSize : Nat} {inst : WarpInst warpSize} (valid : inst.ValidSize)
    {requests : List (Request warpSize)} {transaction : Address × TransactionInfo warpSize}
    (member : transaction ∈ ((transactionsOf inst).collect requests).toList) :
    reduceAndSend is_write access_type transaction.2 transaction.1 (segmentSize inst.data_size) =
        some (reducedSegment inst is_write access_type transaction) ∧
      Reduced (segmentSize inst.data_size) transaction
        (reducedSegment inst is_write access_type transaction) := by
  obtain ⟨key, info⟩ := transaction
  obtain ⟨⟨request, inRequests, isKey⟩, rfl⟩ := (transactionsOf inst).mem_toList_collect.mp member
  have isBlock : blockOf inst request.addr = key := isKey
  have used : ((transactionsOf inst).value requests key).chunks.Nonempty :=
    ⟨chunkOf request.addr, mem_chunks.mpr ⟨request, inRequests, isKey, rfl⟩⟩
  have covers : Covers ((transactionsOf inst).value requests key).chunks key.toNat
      (segmentSize inst.data_size) := by
    intro chunk inChunks
    obtain ⟨other, _, otherBlock, rfl⟩ := mem_chunks.mp inChunks
    exact otherBlock ▸ (blockOf_spec valid other.addr).2.2
  have block := blockOf_spec valid request.addr
  rw [isBlock] at block
  obtain ⟨access, sent, mask, _, coversAccess, within⟩ :=
    reduceAndSend_spec is_write access_type used valid.proper block.1 block.2.1 covers
  have isSent : reducedSegment inst is_write access_type
      (key, (transactionsOf inst).value requests key) = access := by
    rw [reducedSegment, sent, Option.getD_some]
  exact ⟨isSent ▸ sent, isSent ▸ ⟨mask, coversAccess, within⟩⟩

/-- The accesses that a sub-warp sends with coalescing enabled. -/
def subwarpAccesses (config : CoreConfig) (inst : WarpInst config.warp_size) (is_write : Bool)
    (access_type : MemAccessType) (subwarp : Nat) : List (MemAccess config.warp_size) :=
  ((transactionsOf inst).collect (subwarpRequests config inst subwarp)).toList.map
    (reducedSegment inst is_write access_type)

theorem subwarpTurn_enabled (enabled : coalDisabledLoc config inst = false)
    (valid : inst.ValidSize) {subwarp : Nat}
    (same : ∀ thread ∈ activeThreads config inst subwarp, inst.SameSegment thread)
    (m_accessq : List (MemAccess config.warp_size)) (loc : Bool) :
    ∃ loc', subwarpTurn config inst is_write access_type (m_accessq, loc) subwarp =
      some (m_accessq ++ subwarpAccesses config inst is_write access_type subwarp, loc') := by
  obtain ⟨loc', run, stays⟩ := threadTurns_enabled is_write access_type enabled valid
    (subwarpThreads config subwarp) same ⟨m_accessq, ∅, loc⟩
  refine ⟨loc', ?_⟩
  cases isDisabled : loc' with
  | true =>
    -- no thread is active, so that there are no transactions
    have none : activeThreads config inst subwarp = [] := (stays isDisabled).2
    have noRequests : subwarpRequests config inst subwarp = [] := by rw [subwarpRequests, none]; rfl
    rw [isDisabled] at run
    rw [subwarpTurn, run, subwarpAccesses, noRequests]
    simp [Grouping.collect]
    rfl
  | false =>
    rw [isDisabled] at run
    have sends (queue : List (MemAccess config.warp_size))
        (transactions : List (Address × TransactionInfo config.warp_size))
        (part : transactions ⊆
          ((transactionsOf inst).collect (subwarpRequests config inst subwarp)).toList) :
        transactions.foldlM (fun m_accessq transaction => do
          return m_accessq ++ [← reduceAndSend is_write access_type transaction.2 transaction.1
            (segmentSize inst.data_size)]) queue =
          some (queue ++ transactions.map (reducedSegment inst is_write access_type)) := by
      induction transactions generalizing queue with
      | nil => simp
      | cons transaction transactions ih =>
        have sent := (reduced is_write access_type valid (part List.mem_cons_self)).1
        have rest := ih
          (queue ++ [reducedSegment inst is_write access_type transaction])
          (fun other member => part (List.mem_cons_of_mem transaction member))
        rw [List.foldlM_cons, sent]
        simpa using rest
    have all := sends m_accessq _ (List.Subset.refl _)
    rw [subwarpTurn, run]
    exact congrArg (fun sent => sent.bind fun queue => some (queue, false)) all

theorem memoryCoalescing_enabled (enabled : coalDisabledLoc config inst = false)
    (valid : inst.ValidSize) (same : SameSegments config inst)
    (m_accessq : List (MemAccess config.warp_size)) :
    memoryCoalescingArch13 config inst is_write access_type m_accessq =
      some (m_accessq ++ (List.range config.mem_warp_parts).flatMap
        (subwarpAccesses config inst is_write access_type)) := by
  have turn (subwarp : Nat) (member : subwarp ∈ List.range config.mem_warp_parts)
      (queue : List (MemAccess config.warp_size)) (loc : Bool) (_ : True) :
      ∃ loc', True ∧ subwarpTurn config inst is_write access_type (queue, loc) subwarp =
        some (queue ++ subwarpAccesses config inst is_write access_type subwarp, loc') := by
    obtain ⟨loc', run⟩ := subwarpTurn_enabled is_write access_type enabled valid
      (same subwarp (List.mem_range.mp member)) queue loc
    exact ⟨loc', trivial, run⟩
  obtain ⟨loc, _, run⟩ := List.foldlM_appends _ (fun _ => True) turn m_accessq trivial
  rw [memoryCoalescingArch13, run]
  rfl

/-! ## The result -/

def MemAccess.Contains {warpSize : Nat} (access : MemAccess warpSize) (addr : Address) : Prop :=
  access.m_addr.toNat ≤ addr.toNat ∧ addr.toNat < access.m_addr.toNat + access.m_req_size

/-- The ranges of two accesses have no byte in common. -/
def MemAccess.Apart {warpSize : Nat} (access other : MemAccess warpSize) : Prop :=
  access.m_addr.toNat + access.m_req_size ≤ other.m_addr.toNat ∨
    other.m_addr.toNat + other.m_req_size ≤ access.m_addr.toNat

variable {is_write access_type} {subwarp : Nat}

theorem subwarpAccesses_source (valid : inst.ValidSize) {access : MemAccess config.warp_size}
    (member : access ∈ subwarpAccesses config inst is_write access_type subwarp) :
    ∃ key, Reduced (segmentSize inst.data_size)
        (key, (transactionsOf inst).value (subwarpRequests config inst subwarp) key) access ∧
      key.toNat % segmentSize inst.data_size = 0 := by
  obtain ⟨⟨key, info⟩, inMap, rfl⟩ := List.mem_map.mp member
  obtain ⟨⟨request, _, isKey⟩, rfl⟩ := (transactionsOf inst).mem_toList_collect.mp inMap
  have isBlock : blockOf inst request.addr = key := isKey
  exact ⟨key, (reduced is_write access_type valid inMap).2,
    isBlock ▸ (blockOf_spec valid request.addr).1⟩

theorem subwarpAccesses_segments (valid : inst.ValidSize) :
    ((subwarpAccesses config inst is_write access_type subwarp).map fun access =>
      access.m_addr.toNat / segmentSize inst.data_size).Nodup := by
  have keys := (transactionsOf inst).nodup_keys_collect (subwarpRequests config inst subwarp)
  have segment : ∀ transaction ∈
      ((transactionsOf inst).collect (subwarpRequests config inst subwarp)).toList,
      (reducedSegment inst is_write access_type transaction).m_addr.toNat /
        segmentSize inst.data_size * segmentSize inst.data_size = transaction.1.toNat := by
    intro transaction member
    obtain ⟨⟨request, _, isKey⟩, _⟩ := (transactionsOf inst).mem_toList_collect.mp
      (show (transaction.1, transaction.2) ∈ _ from member)
    have isBlock : blockOf inst request.addr = transaction.1 := isKey
    have aligned := (blockOf_spec valid request.addr).1
    rw [isBlock] at aligned
    obtain ⟨start, stop, positive⟩ := (reduced is_write access_type valid member).2.within
    rcases valid.proper with size | size | size <;> rw [size] at aligned stop ⊢ <;> omega
  rw [subwarpAccesses, List.map_map]
  refine List.Nodup.map_on (fun first inFirst second inSecond same => ?_) (List.Nodup.of_map _ keys)
  have toNat : first.1.toNat = second.1.toNat := by
    rw [← segment first inFirst, ← segment second inSecond]
    exact congrArg (· * segmentSize inst.data_size) same
  exact List.inj_on_of_nodup_map keys inFirst inSecond (BitVec.eq_of_toNat_eq toNat)

theorem mem_subwarpRequests {request : Request config.warp_size} :
    request ∈ subwarpRequests config inst subwarp ↔
      ∃ thread ∈ activeThreads config inst subwarp, request ∈ inst.requests thread :=
  List.mem_flatMap

theorem subwarpRequests_thread {request : Request config.warp_size}
    (member : request ∈ subwarpRequests config inst subwarp) :
    request.thread ∈ activeThreads config inst subwarp ∧
      request ∈ inst.requests request.thread := by
  obtain ⟨thread, active, made⟩ := mem_subwarpRequests.mp member
  have same := requests_thread made
  exact ⟨same ▸ active, same ▸ made⟩

/-- The access for the block of a request serves it; above 2^32 the block has lost
    the upper half of the address. -/
theorem Reduced.contains {requests : List (Request config.warp_size)}
    {access : MemAccess config.warp_size} (valid : inst.ValidSize)
    {request : Request config.warp_size} (made : request ∈ requests)
    (reduced : Reduced (segmentSize inst.data_size) (blockOf inst request.addr,
      (transactionsOf inst).value requests (blockOf inst request.addr)) access)
    (low : request.addr.toNat < 2 ^ 32) : access.Contains request.addr := by
  have covered := reduced.covers (chunkOf request.addr) (mem_chunks.mpr ⟨request, made, rfl, rfl⟩)
  have chunk : (chunkOf request.addr).val = request.addr.toNat % 128 / 32 := by
    show (lineOffset request.addr : Nat) / 32 = _
    rw [lineOffset_val]
  obtain ⟨start, stop, _⟩ := reduced.within
  have block := blockOf_toNat valid request.addr
  simp only [chunk] at covered
  simp only [block] at start stop
  rw [MemAccess.Contains]
  rcases valid.proper with size | size | size <;> rw [size] at start stop <;> omega

structure Partitions (config : CoreConfig) (inst : WarpInst config.warp_size) (subwarp : Nat)
    (accesses : List (MemAccess config.warp_size)) : Prop where
  served : ∀ thread ∈ activeThreads config inst subwarp, ∀ request ∈ inst.requests thread,
    request.addr.toNat < 2 ^ 32 → ∃! access,
      access ∈ accesses ∧ thread ∈ access.m_warp_mask ∧ access.Contains request.addr
  single : (splitAccess inst).2 = 1 → ∀ thread ∈ activeThreads config inst subwarp,
    ∃! access, access ∈ accesses ∧ thread ∈ access.m_warp_mask
  onlyActive : ∀ access ∈ accesses, ∀ thread ∈ access.m_warp_mask,
    thread ∈ activeThreads config inst subwarp
  firstBytes : (∀ request ∈ subwarpRequests config inst subwarp, request.addr.toNat < 2 ^ 32) →
    ∀ access ∈ accesses, ∀ thread ∈ access.m_warp_mask,
      ∃ request ∈ inst.requests thread, access.Contains request.addr
  disjoint : accesses.Pairwise MemAccess.Apart
  positive : ∀ access ∈ accesses, 0 < access.m_req_size

theorem subwarpAccesses_apart (valid : inst.ValidSize) :
    (subwarpAccesses config inst is_write access_type subwarp).Pairwise MemAccess.Apart := by
  have segments : (subwarpAccesses config inst is_write access_type subwarp).Pairwise
      fun access other => access.m_addr.toNat / segmentSize inst.data_size ≠
        other.m_addr.toNat / segmentSize inst.data_size :=
    List.pairwise_map.mp (subwarpAccesses_segments valid)
  refine List.Pairwise.imp_of_mem (fun {first second} inFirst inSecond different => ?_) segments
  obtain ⟨key, ⟨_, _, start, stop, _⟩, aligned⟩ := subwarpAccesses_source valid inFirst
  obtain ⟨key', ⟨_, _, start', stop', _⟩, aligned'⟩ := subwarpAccesses_source valid inSecond
  rw [MemAccess.Apart]
  simp only at start stop start' stop'
  rcases valid.proper with size | size | size <;>
    rw [size] at different aligned aligned' stop stop' <;> omega

theorem subwarpAccesses_of_request (valid : inst.ValidSize) {request : Request config.warp_size}
    (made : request ∈ subwarpRequests config inst subwarp) :
    ∃ access ∈ subwarpAccesses config inst is_write access_type subwarp,
      Reduced (segmentSize inst.data_size) (blockOf inst request.addr,
        (transactionsOf inst).value (subwarpRequests config inst subwarp)
          (blockOf inst request.addr)) access := by
  have entry := (transactionsOf inst).mem_toList_collect.mpr ⟨⟨request, made, rfl⟩, rfl⟩
  exact ⟨_, List.mem_map_of_mem entry, (reduced is_write access_type valid entry).2⟩

theorem Reduced.mem_mask {requests : List (Request config.warp_size)}
    {access : MemAccess config.warp_size} {key : Address}
    (reduced : Reduced (segmentSize inst.data_size)
      (key, (transactionsOf inst).value requests key) access) {thread : Fin config.warp_size} :
    thread ∈ access.m_warp_mask ↔
      ∃ request ∈ requests, blockOf inst request.addr = key ∧ request.thread = thread := by
  rw [reduced.mask]
  exact mem_active

theorem Reduced.segment (valid : inst.ValidSize) {access : MemAccess config.warp_size}
    {key : Address} {info : TransactionInfo config.warp_size}
    (reduced : Reduced (segmentSize inst.data_size) (key, info) access)
    (aligned : key.toNat % segmentSize inst.data_size = 0) {addr : Nat}
    (start : access.m_addr.toNat ≤ addr) (stop : addr < access.m_addr.toNat + access.m_req_size) :
    addr / segmentSize inst.data_size = key.toNat / segmentSize inst.data_size := by
  obtain ⟨within, inside, _⟩ := reduced.within
  simp only at within inside
  rcases valid.proper with size | size | size <;> rw [size] at aligned inside ⊢ <;> omega

theorem subwarpAccesses_unique (valid : inst.ValidSize) {access other : MemAccess config.warp_size}
    (sent : access ∈ subwarpAccesses config inst is_write access_type subwarp)
    (otherSent : other ∈ subwarpAccesses config inst is_write access_type subwarp)
    (same : access.m_addr.toNat / segmentSize inst.data_size =
      other.m_addr.toNat / segmentSize inst.data_size) : access = other :=
  List.inj_on_of_nodup_map (subwarpAccesses_segments valid) sent otherSent same

theorem subwarpAccesses_partition (valid : inst.ValidSize) :
    Partitions config inst subwarp (subwarpAccesses config inst is_write access_type subwarp) where
  served thread active request made low := by
    have inRequests := mem_subwarpRequests.mpr ⟨thread, active, made⟩
    obtain ⟨access, sent, reduced⟩ :=
      @subwarpAccesses_of_request config inst is_write access_type subwarp valid _ inRequests
    have contains := reduced.contains valid inRequests low
    refine ⟨access, ⟨sent, reduced.mem_mask.mpr ⟨request, inRequests, rfl, requests_thread made⟩,
      contains⟩, fun other both => ?_⟩
    obtain ⟨otherSent, _, otherContains⟩ := both
    -- both accesses lie in the segment of the request
    have segment (candidate : MemAccess config.warp_size)
        (isSent : candidate ∈ subwarpAccesses config inst is_write access_type subwarp)
        (containsAddr : candidate.Contains request.addr) :
        candidate.m_addr.toNat / segmentSize inst.data_size =
          request.addr.toNat / segmentSize inst.data_size := by
      obtain ⟨key, source, aligned⟩ := subwarpAccesses_source valid isSent
      have first := source.segment valid aligned le_rfl
        (Nat.lt_add_of_pos_right source.within.positive)
      exact first.trans (source.segment valid aligned containsAddr.1 containsAddr.2).symm
    exact subwarpAccesses_unique valid otherSent sent
      ((segment other otherSent otherContains).trans (segment access sent contains).symm)
  single one thread active := by
    have first : inst.accesses = [0] := by rw [WarpInst.accesses, one]; decide
    have only : inst.requests thread = [⟨thread, inst.memreqaddr thread 0⟩] := by
      rw [WarpInst.requests, first]; rfl
    have made : ⟨thread, inst.memreqaddr thread 0⟩ ∈ inst.requests thread :=
      only ▸ List.mem_singleton_self _
    have inRequests := mem_subwarpRequests.mpr ⟨thread, active, made⟩
    obtain ⟨access, sent, reduced⟩ :=
      @subwarpAccesses_of_request config inst is_write access_type subwarp valid _ inRequests
    refine ⟨access, ⟨sent, reduced.mem_mask.mpr ⟨_, inRequests, rfl, rfl⟩⟩, fun other both => ?_⟩
    obtain ⟨otherSent, inMask⟩ := both
    obtain ⟨key, source, aligned⟩ := subwarpAccesses_source valid otherSent
    obtain ⟨request, inOther, isBlock, isThread⟩ := source.mem_mask.mp inMask
    have isOnly : request = ⟨thread, inst.memreqaddr thread 0⟩ := by
      have ofThread := (subwarpRequests_thread inOther).2
      rw [isThread, only] at ofThread
      exact List.mem_singleton.mp ofThread
    rw [isOnly] at isBlock
    subst isBlock
    have here := reduced.segment valid aligned le_rfl
      (Nat.lt_add_of_pos_right reduced.within.positive)
    have there := source.segment valid aligned le_rfl
      (Nat.lt_add_of_pos_right source.within.positive)
    exact subwarpAccesses_unique valid otherSent sent (there.trans here.symm)
  onlyActive access sent thread inMask := by
    obtain ⟨key, reduced, _⟩ := subwarpAccesses_source valid sent
    obtain ⟨request, made, _, rfl⟩ := reduced.mem_mask.mp inMask
    exact (subwarpRequests_thread made).1
  firstBytes low access sent thread inMask := by
    obtain ⟨key, reduced, _⟩ := subwarpAccesses_source valid sent
    obtain ⟨request, made, rfl, rfl⟩ := reduced.mem_mask.mp inMask
    exact ⟨request, (subwarpRequests_thread made).2, reduced.contains valid made (low request made)⟩
  disjoint := subwarpAccesses_apart valid
  positive access sent := by
    obtain ⟨key, reduced, _⟩ := subwarpAccesses_source valid sent
    exact reduced.within.positive

/-! ## Fewer accesses than without coalescing -/

theorem card_toFinset_flatMap_le {α β K : Type*} [DecidableEq K] (key : β → K) (parts : α → List β)
    (list : List α) :
    ((list.flatMap parts).map key).toFinset.card ≤
      (list.map fun a => ((parts a).map key).toFinset.card).sum := by
  induction list with
  | nil => simp
  | cons a list ih =>
    rw [List.flatMap_cons, List.map_append, List.toFinset_append, List.map_cons, List.sum_cons]
    exact (Finset.card_union_le _ _).trans (Nat.add_le_add_left ih _)

theorem subwarpAccesses_length_le :
    (subwarpAccesses config inst is_write access_type subwarp).length ≤
      ((activeThreads config inst subwarp).flatMap
        (threadAccesses inst is_write access_type)).length := by
  have each (thread : Fin config.warp_size) :
      (threadAccesses inst is_write access_type thread).length =
        ((inst.requests thread).map (transactionsOf inst).key).toFinset.card := by
    rw [threadAccesses, List.length_map, Grouping.length_toList_collect]
  rw [subwarpAccesses, List.length_map, Grouping.length_toList_collect, subwarpRequests,
    List.length_flatMap]
  simp only [each]
  exact card_toFinset_flatMap_le _ _ _

/-- With coalescing enabled, each sub-warp shares the requests of its active
    threads out among its accesses, and no more accesses are sent than without
    coalescing. -/
theorem enabled_partitions (enabled : config.coal_disabled = false ∧ config.coal_disabled_dyn = false ∨
      config.coal_disabled_dyn = true ∧ inst.line_number ≠ config.coal_line_num)
    (valid : inst.ValidSize) (same : SameSegments config inst)
    (m_accessq : List (MemAccess config.warp_size)) :
    memoryCoalescingArch13 config inst is_write access_type m_accessq =
        some (m_accessq ++ (List.range config.mem_warp_parts).flatMap
          (subwarpAccesses config inst is_write access_type)) ∧
      (∀ subwarp < config.mem_warp_parts, ∀ queue loc, ∃ loc',
        subwarpTurn config inst is_write access_type (queue, loc) subwarp =
          some (queue ++ subwarpAccesses config inst is_write access_type subwarp, loc')) ∧
      (∀ subwarp < config.mem_warp_parts,
        Partitions config inst subwarp (subwarpAccesses config inst is_write access_type subwarp)) ∧
      (config.mem_warp_parts ∣ config.warp_size → ∀ thread ∈ inst.m_warp_active_mask,
        ∃ subwarp < config.mem_warp_parts, thread ∈ activeThreads config inst subwarp) ∧
      ∀ coal_disabled coal_disabled_dyn coal_line_num,
        coalDisabledLoc { config with coal_disabled, coal_disabled_dyn, coal_line_num } inst = true →
        ∃ sent, memoryCoalescingArch13
            { config with coal_disabled, coal_disabled_dyn, coal_line_num } inst is_write access_type
            m_accessq = some (m_accessq ++ sent) ∧
          ((List.range config.mem_warp_parts).flatMap
            (subwarpAccesses config inst is_write access_type)).length ≤ sent.length := by
  have loc : coalDisabledLoc config inst = false := by
    cases enabled with
    | inl always => simp [coalDisabledLoc, always.1, always.2]
    | inr here => simp [coalDisabledLoc, here.1, here.2]
  refine ⟨memoryCoalescing_enabled is_write access_type loc valid same m_accessq,
    fun subwarp inside queue start => subwarpTurn_enabled is_write access_type loc valid
      (same subwarp inside) queue start,
    fun subwarp _ => subwarpAccesses_partition valid, fun divides thread active => ?_,
    fun coal_disabled coal_disabled_dyn coal_line_num disabled => ?_⟩
  · have covered : thread ∈ coveredThreads config inst := by
      rw [coveredThreads_of_dvd divides]
      simpa using active
    rw [← activeThreads_flatMap] at covered
    obtain ⟨subwarp, inRange, inSubwarp⟩ := List.mem_flatMap.mp covered
    exact ⟨subwarp, List.mem_range.mp inRange, inSubwarp⟩
  · refine ⟨_, @memoryCoalescing_disabled
      { config with coal_disabled, coal_disabled_dyn, coal_line_num } inst is_write access_type
      disabled valid same m_accessq, ?_⟩
    rw [List.length_flatMap, List.length_flatMap]
    exact List.sum_le_sum fun subwarp _ => subwarpAccesses_length_le

structure Coalesced (config : CoreConfig) (inst : WarpInst config.warp_size)
    (sent : List (MemAccess config.warp_size)) : Prop where
  enabled : config.coal_disabled = false ∧ config.coal_disabled_dyn = false
  valid : inst.ValidSize
  same : SameSegments config inst
  run : memoryCoalescingArch13 config inst false .GLOBAL_ACC_R [] = some sent

theorem enabled_partitions_load :
    Partitions ⟨4, 2, false, false, 0, by decide, by decide⟩ (loadInst ![0, 4, 200, 12]) 1
      (subwarpAccesses ⟨4, 2, false, false, 0, by decide, by decide⟩ (loadInst ![0, 4, 200, 12])
        false .GLOBAL_ACC_R 1) :=
  (@enabled_partitions ⟨4, 2, false, false, 0, by decide, by decide⟩ _ false .GLOBAL_ACC_R
    (Or.inl ⟨rfl, rfl⟩) (by simp [WarpInst.ValidSize, loadInst])
    (by unfold SameSegments WarpInst.SameSegment; decide) []).2.2.1 1 (by decide)

/-- A local access of 8 bytes by one thread; its two halves are far apart. -/
def splitLocalInst : WarpInst 1 :=
  ⟨8, .local_space, 7, {0}, fun _ access => if access = 0 then 0 else 4096⟩

/-- A thread with two requests can be in two accesses, one beyond the last whole
    sub-warp is in none, and above 2^32 an access misses its request. -/
theorem enabled_splits_requests :
    (¬ ∀ (config : CoreConfig) (inst : WarpInst config.warp_size) sent, Coalesced config inst sent →
      ∀ access ∈ sent, ∀ other ∈ sent, ∀ thread ∈ inst.m_warp_active_mask,
        thread ∈ access.m_warp_mask → thread ∈ other.m_warp_mask → access = other) ∧
    (¬ ∀ (config : CoreConfig) (inst : WarpInst config.warp_size) sent, Coalesced config inst sent →
      ∀ thread ∈ inst.m_warp_active_mask, ∃ access ∈ sent, thread ∈ access.m_warp_mask) ∧
    ¬ ∀ (config : CoreConfig) (inst : WarpInst config.warp_size) sent, Coalesced config inst sent →
      ∀ access ∈ sent, ∀ thread ∈ access.m_warp_mask,
        ∃ request ∈ inst.requests thread, access.Contains request.addr := by
  refine ⟨fun claim => ?_, fun claim => ?_, fun claim => ?_⟩
  · have twice : (memoryCoalescingArch13 ⟨1, 1, false, false, 0, by decide, by decide⟩
        splitLocalInst false .GLOBAL_ACC_R []).any fun sent => ∃ access ∈ sent, ∃ other ∈ sent,
          0 ∈ access.m_warp_mask ∧ 0 ∈ other.m_warp_mask ∧ access ≠ other := by decide
    obtain ⟨sent, run, found⟩ := (Option.any_eq_true _ _).mp twice
    obtain ⟨access, isSent, other, otherSent, inMask, inOther, different⟩ := of_decide_eq_true found
    exact different (claim _ _ _ ⟨⟨rfl, rfl⟩, by simp [WarpInst.ValidSize, splitLocalInst],
      by unfold SameSegments WarpInst.SameSegment; decide, run⟩ access isSent other otherSent
      0 (by decide) inMask inOther)
  · have absent : (memoryCoalescingArch13 ⟨4, 3, false, false, 0, by decide, by decide⟩
        (loadInst ![0, 4, 8, 12]) false .GLOBAL_ACC_R []).any fun sent => ∀ access ∈ sent,
          3 ∉ access.m_warp_mask := by decide
    obtain ⟨sent, run, found⟩ := (Option.any_eq_true _ _).mp absent
    obtain ⟨access, isSent, inMask⟩ := claim _ _ _ ⟨⟨rfl, rfl⟩,
      by simp [WarpInst.ValidSize, loadInst],
      by unfold SameSegments WarpInst.SameSegment; decide, run⟩ 3 (by decide)
    exact of_decide_eq_true found access isSent inMask
  · have missed : (memoryCoalescingArch13 ⟨1, 1, false, false, 0, by decide, by decide⟩
        (loadInst ![0x100000000]) false .GLOBAL_ACC_R []).any fun sent => ∃ access ∈ sent,
          0 ∈ access.m_warp_mask ∧ access.m_addr.toNat + access.m_req_size ≤ 0x100000000 := by
      decide
    obtain ⟨sent, run, found⟩ := (Option.any_eq_true _ _).mp missed
    obtain ⟨access, isSent, inMask, below⟩ := of_decide_eq_true found
    obtain ⟨request, made, _, inside⟩ := claim _ _ _ ⟨⟨rfl, rfl⟩,
      by simp [WarpInst.ValidSize, loadInst],
      by unfold SameSegments WarpInst.SameSegment; decide, run⟩ access isSent 0 inMask
    obtain ⟨_, _, rfl⟩ := mem_requests.mp made
    exact absurd below (Nat.not_le.mpr inside)

end AesOnGpu.Coalescing
