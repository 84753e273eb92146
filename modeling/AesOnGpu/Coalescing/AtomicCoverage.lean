import AesOnGpu.Coalescing.Atomic
import AesOnGpu.Coalescing.Coverage

/-! # The threads of an atomic access

A thread joins a transaction of its block only when it touches none of the bytes that are set
there, so that the threads of one access never touch a common byte. `Built` says what a
transaction has collected from its threads.
-/

namespace AesOnGpu.Coalescing

variable {warpSize : Nat} {inst : WarpInst warpSize}

/-- The bytes of a thread's request within its 128 bytes. -/
def atomicBytes (inst : WarpInst warpSize) (thread : Fin warpSize) : Finset (Fin 128) :=
  Finset.univ.filter fun byte =>
    (lineOffset (inst.atomicAddr thread) : Nat) ≤ byte ∧
      byte.val < lineOffset (inst.atomicAddr thread) + inst.data_size

@[simp] theorem mem_atomicBytes {thread : Fin warpSize} {byte : Fin 128} :
    byte ∈ atomicBytes inst thread ↔
      (lineOffset (inst.atomicAddr thread) : Nat) ≤ byte ∧
        byte.val < lineOffset (inst.atomicAddr thread) + inst.data_size := by
  simp [atomicBytes]

structure Built (inst : WarpInst warpSize) (info : TransactionInfo warpSize) : Prop where
  used : info.active.Nonempty
  chunks : ∀ chunk, chunk ∈ info.chunks ↔
    ∃ thread ∈ info.active, chunkOf (inst.atomicAddr thread) = chunk
  bytes : ∀ byte, byte ∈ info.bytes ↔ ∃ thread ∈ info.active, byte ∈ atomicBytes inst thread
  disjoint : ∀ thread ∈ info.active, ∀ other ∈ info.active, thread ≠ other →
    Disjoint (atomicBytes inst thread) (atomicBytes inst other)

/-! ## Joining -/

theorem test_bytes_free {info : TransactionInfo warpSize} {thread : Fin warpSize}
    (positive : 0 < inst.data_size)
    (free : ¬ info.test_bytes (lineOffset (inst.atomicAddr thread))
      (lineOffset (inst.atomicAddr thread) + inst.data_size - 1) = true) :
    Disjoint info.bytes (atomicBytes inst thread) := by
  rw [TransactionInfo.test_bytes, decide_eq_true_eq] at free
  rw [Finset.disjoint_left]
  intro byte isSet isOwn
  rw [mem_atomicBytes] at isOwn
  exact free ⟨byte, isSet, isOwn.1, by omega⟩

theorem Built.empty_join (thread : Fin warpSize) :
    Built inst (TransactionInfo.empty.join inst thread) where
  used := ⟨thread, by simp [TransactionInfo.join]⟩
  chunks chunk := by simp [TransactionInfo.join, TransactionInfo.empty, eq_comm]
  bytes byte := by simp [TransactionInfo.join, TransactionInfo.empty]
  disjoint first inFirst second inSecond different := by
    simp only [TransactionInfo.join, TransactionInfo.empty, insert_empty_eq,
      Finset.mem_singleton] at inFirst inSecond
    exact absurd (inFirst.trans inSecond.symm) different

theorem Built.join {info : TransactionInfo warpSize} (built : Built inst info)
    {thread : Fin warpSize} (free : Disjoint info.bytes (atomicBytes inst thread)) :
    Built inst (info.join inst thread) where
  used := ⟨thread, by simp [TransactionInfo.join]⟩
  chunks chunk := by
    simp [TransactionInfo.join, built.chunks, eq_comm]
  bytes byte := by
    simp [TransactionInfo.join, built.bytes, or_comm]
  disjoint := by
    have apart : ∀ other ∈ info.active,
        Disjoint (atomicBytes inst other) (atomicBytes inst thread) := by
      intro other member
      apply free.mono_left
      intro byte isOwn
      exact (built.bytes byte).mpr ⟨other, member, isOwn⟩
    intro first inFirst second inSecond different
    simp only [TransactionInfo.join, Finset.mem_insert] at inFirst inSecond
    cases inFirst with
    | inl isFirst =>
      cases inSecond with
      | inl isSecond => exact absurd (isFirst.trans isSecond.symm) different
      | inr inSecond => exact isFirst ▸ (apart second inSecond).symm
    | inr inFirst =>
      cases inSecond with
      | inl isSecond => exact isSecond ▸ apart first inFirst
      | inr inSecond => exact built.disjoint first inFirst second inSecond different

theorem built_joinFirst (positive : 0 < inst.data_size) (thread : Fin warpSize)
    {infos : List (TransactionInfo warpSize)} (built : ∀ info ∈ infos, Built inst info) :
    (∀ info ∈ joinFirst inst thread infos, Built inst info) ∧
      ∀ other, (∃ info ∈ joinFirst inst thread infos, other ∈ info.active) ↔
        other = thread ∨ ∃ info ∈ infos, other ∈ info.active := by
  induction infos with
  | nil =>
    constructor
    · intro info member
      rw [joinFirst, List.mem_singleton] at member
      exact member ▸ Built.empty_join thread
    · intro other
      simp [joinFirst, TransactionInfo.join, TransactionInfo.empty]
  | cons info infos ih =>
    obtain ⟨builtRest, membersRest⟩ :=
      ih fun other member => built other (List.mem_cons_of_mem info member)
    have here := built info List.mem_cons_self
    simp only [joinFirst]
    split
    next =>
      constructor
      · intro other member
        cases List.mem_cons.mp member with
        | inl isHere => exact isHere ▸ here
        | inr later => exact builtRest other later
      · intro other
        rw [List.exists_mem_cons_iff, List.exists_mem_cons_iff, membersRest]
        exact or_left_comm
    next free =>
      constructor
      · intro other member
        cases List.mem_cons.mp member with
        | inl isHere => exact isHere ▸ here.join (test_bytes_free positive free)
        | inr later => exact built other (List.mem_cons_of_mem info later)
      · intro other
        rw [List.exists_mem_cons_iff, List.exists_mem_cons_iff]
        simp only [TransactionInfo.join, Finset.mem_insert]
        exact or_assoc

theorem built_value (positive : 0 < inst.data_size) (threads : List (Fin warpSize))
    (key : Address) :
    (∀ info ∈ (atomicTransactionsOf inst).value threads key, Built inst info) ∧
      ∀ thread, (∃ info ∈ (atomicTransactionsOf inst).value threads key, thread ∈ info.active) ↔
        thread ∈ threads ∧ (atomicTransactionsOf inst).key thread = key := by
  have folded : ∀ (members : List (Fin warpSize)) (infos : List (TransactionInfo warpSize)),
      (∀ info ∈ infos, Built inst info) →
        (∀ info ∈ members.foldl (atomicTransactionsOf inst).add infos, Built inst info) ∧
          ∀ thread, (∃ info ∈ members.foldl (atomicTransactionsOf inst).add infos,
            thread ∈ info.active) ↔ thread ∈ members ∨ ∃ info ∈ infos, thread ∈ info.active := by
    intro members
    induction members with
    | nil => exact fun infos built => ⟨built, fun thread => by simp⟩
    | cons first members ih =>
      intro infos built
      obtain ⟨builtNext, membersNext⟩ := built_joinFirst positive first built
      obtain ⟨builtLast, membersLast⟩ := ih _ builtNext
      refine ⟨builtLast, fun thread => ?_⟩
      refine (membersLast thread).trans ?_
      rw [membersNext, List.mem_cons]
      tauto
  obtain ⟨built, members⟩ := folded
    (threads.filter fun thread => decide ((atomicTransactionsOf inst).key thread = key)) []
    (by simp)
  refine ⟨built, fun thread => ?_⟩
  rw [Grouping.value]
  refine (members thread).trans ?_
  simp

/-! ## The transactions that are sent -/

/-- The transactions of some threads, with their blocks, in the order in which they are sent. -/
def atomicSources (inst : WarpInst warpSize) (threads : List (Fin warpSize)) :
    List (Address × TransactionInfo warpSize) :=
  ((atomicTransactionsOf inst).collect threads).toList.flatMap fun entry =>
    entry.2.map fun info => (entry.1, info)

theorem mem_atomicSources {threads : List (Fin warpSize)} {key : Address}
    {info : TransactionInfo warpSize} :
    (key, info) ∈ atomicSources inst threads ↔
      (∃ thread ∈ threads, (atomicTransactionsOf inst).key thread = key) ∧
        info ∈ (atomicTransactionsOf inst).value threads key := by
  simp only [atomicSources, List.mem_flatMap, List.mem_map, Prod.mk.injEq]
  constructor
  · rintro ⟨⟨key', infos⟩, entry, other, member, rfl, rfl⟩
    obtain ⟨isKey, rfl⟩ := (atomicTransactionsOf inst).mem_toList_collect.mp entry
    exact ⟨isKey, member⟩
  · rintro ⟨isKey, member⟩
    exact ⟨_, (atomicTransactionsOf inst).mem_toList_collect.mpr ⟨isKey, rfl⟩, info, member, rfl, rfl⟩

structure AtomicSent (inst : WarpInst warpSize) (threads : List (Fin warpSize)) (key : Address)
    (info : TransactionInfo warpSize) (access : MemAccess warpSize) : Prop where
  built : Built inst info
  own : ∀ thread ∈ info.active,
    thread ∈ threads ∧ blockOf inst (inst.atomicAddr thread) = key
  mask : access.m_warp_mask = info.active
  bytes : access.m_byte_mask = info.bytes
  covers : Covers info.chunks access.m_addr.toNat access.m_req_size
  within : Within key.toNat (segmentSize inst.data_size) access.m_addr.toNat access.m_req_size
  aligned : key.toNat % segmentSize inst.data_size = 0

theorem WarpInst.ValidSize.positive (valid : inst.ValidSize) : 0 < inst.data_size := by
  simp only [WarpInst.ValidSize, List.mem_cons, List.not_mem_nil, or_false] at valid
  omega

theorem atomicSource_sent (is_write : Bool) (access_type : MemAccessType) (valid : inst.ValidSize)
    {threads : List (Fin warpSize)} {key : Address} {info : TransactionInfo warpSize}
    (member : (key, info) ∈ atomicSources inst threads) :
    reduceAndSend is_write access_type info key (segmentSize inst.data_size) =
        some (reducedSegment inst is_write access_type (key, info)) ∧
      AtomicSent inst threads key info (reducedSegment inst is_write access_type (key, info)) := by
  obtain ⟨built, members⟩ := built_value valid.positive threads key
  obtain ⟨_, inValue⟩ := mem_atomicSources.mp member
  have isBuilt := built info inValue
  have own : ∀ thread ∈ info.active,
      thread ∈ threads ∧ blockOf inst (inst.atomicAddr thread) = key :=
    fun thread active => (members thread).mp ⟨info, inValue, active⟩
  obtain ⟨first, inFirst⟩ := isBuilt.used
  have block := blockOf_spec valid (inst.atomicAddr first)
  rw [(own first inFirst).2] at block
  have used : info.chunks.Nonempty := ⟨_, (isBuilt.chunks _).mpr ⟨first, inFirst, rfl⟩⟩
  have covers : Covers info.chunks key.toNat (segmentSize inst.data_size) := by
    intro chunk inChunks
    obtain ⟨thread, active, rfl⟩ := (isBuilt.chunks chunk).mp inChunks
    exact (own thread active).2 ▸ (blockOf_spec valid (inst.atomicAddr thread)).2.2
  obtain ⟨access, sent, mask, bytes, coversAccess, within⟩ :=
    reduceAndSend_spec is_write access_type used valid.proper block.1 block.2.1 covers
  have isSent : reducedSegment inst is_write access_type (key, info) = access := by
    rw [reducedSegment, sent, Option.getD_some]
  rw [isSent]
  exact ⟨sent, isBuilt, own, mask, bytes, coversAccess, within, block.1⟩

theorem atomicSource_of_thread (valid : inst.ValidSize) {threads : List (Fin warpSize)}
    {thread : Fin warpSize} (member : thread ∈ threads) :
    ∃ info, (blockOf inst (inst.atomicAddr thread), info) ∈ atomicSources inst threads ∧
      thread ∈ info.active := by
  obtain ⟨info, inValue, active⟩ := ((built_value valid.positive threads
    (blockOf inst (inst.atomicAddr thread))).2 thread).mpr ⟨member, rfl⟩
  exact ⟨info, mem_atomicSources.mpr ⟨⟨thread, member, rfl⟩, inValue⟩, active⟩

section

variable {config : CoreConfig} {inst : WarpInst config.warp_size} {is_write : Bool}
  {access_type : MemAccessType}

theorem sendTransactions_eq {key : Address} {infos : List (TransactionInfo config.warp_size)}
    (sent : ∀ info ∈ infos,
      reduceAndSend is_write access_type info key (segmentSize inst.data_size) =
        some (reducedSegment inst is_write access_type (key, info)))
    (m_accessq : List (MemAccess config.warp_size)) :
    sendTransactions config inst is_write access_type m_accessq (key, infos) =
      some (m_accessq ++
        infos.map fun info => reducedSegment inst is_write access_type (key, info)) := by
  simp only [sendTransactions]
  induction infos generalizing m_accessq with
  | nil => simp
  | cons info infos ih =>
    have rest := ih (fun other member =>
      sent other (List.mem_cons_of_mem info member))
      (m_accessq ++ [reducedSegment inst is_write access_type (key, info)])
    rw [List.foldlM_cons, sent info List.mem_cons_self]
    simpa using rest

theorem foldlM_sendTransactions_eq {threads : List (Fin config.warp_size)}
    (valid : inst.ValidSize) (m_accessq : List (MemAccess config.warp_size)) :
    ((atomicTransactionsOf inst).collect threads).toList.foldlM
        (sendTransactions config inst is_write access_type) m_accessq =
      some (m_accessq ++
        (atomicSources inst threads).map (reducedSegment inst is_write access_type)) := by
  have sends : ∀ entries ⊆ ((atomicTransactionsOf inst).collect threads).toList, ∀ queue,
      entries.foldlM (sendTransactions config inst is_write access_type) queue =
        some (queue ++ (entries.flatMap fun entry => entry.2.map fun info =>
          (entry.1, info)).map (reducedSegment inst is_write access_type)) := by
    intro entries part
    induction entries with
    | nil => simp
    | cons entry entries ih =>
      intro queue
      have here : ∀ info ∈ entry.2,
          reduceAndSend is_write access_type info entry.1 (segmentSize inst.data_size) =
            some (reducedSegment inst is_write access_type (entry.1, info)) := by
        intro info member
        have source : (entry.1, info) ∈ atomicSources inst threads := List.mem_flatMap.mpr
          ⟨entry, part List.mem_cons_self, List.mem_map.mpr ⟨info, member, rfl⟩⟩
        exact (atomicSource_sent is_write access_type valid source).1
      rw [List.foldlM_cons, sendTransactions_eq here, Option.bind_eq_bind, Option.bind_some,
        ih fun other member => part (List.mem_cons_of_mem entry member)]
      simp [Function.comp_def]
  exact sends _ (List.Subset.refl _) m_accessq

theorem foldlM_atomicTurn_eq (space : inst.space = .global_space) (valid : inst.ValidSize)
    {threads : List (Fin config.warp_size)}
    (same : ∀ thread ∈ threads.filter (· ∈ inst.m_warp_active_mask), inst.SameSegment thread)
    (map : Std.TreeMap Address (List (TransactionInfo config.warp_size))) :
    threads.foldlM (atomicTurn inst) map =
      some ((threads.filter (· ∈ inst.m_warp_active_mask)).foldl
        (atomicTransactionsOf inst).insert map) := by
  have split : splitAccess inst = (inst.data_size, 1) := by simp [splitAccess, space]
  have first : (0 : Fin maxAccesses).val < (splitAccess inst).2 := by simp [split]
  have skip (map : Std.TreeMap Address (List (TransactionInfo config.warp_size)))
      (thread : Fin config.warp_size) (inactive : thread ∉ inst.m_warp_active_mask) :
      atomicTurn inst map thread = some map := by
    rw [atomicTurn, if_pos inactive]
  rw [List.foldlM_skip skip]
  refine List.foldlM_eq_some (fun thread member map => ?_) map
  have active : thread ∈ inst.m_warp_active_mask := by simpa using (List.mem_filter.mp member).2
  have tags := same thread member 0 first
  have inside := (same thread member).inside valid first
  rw [split] at tags inside
  have fits : ¬ 128 < (lineOffset (inst.atomicAddr thread) : Nat) + inst.data_size := by
    rw [lineOffset_val, WarpInst.atomicAddr]
    rcases valid.proper with size | size | size <;> rw [size] at inside <;> omega
  rw [atomicTurn, if_neg (not_not.mpr active)]
  exact if_neg (not_or.mpr ⟨not_not.mpr tags, not_or.mpr ⟨fits, chosenInfo_free _ _ _⟩⟩)

theorem memoryCoalescingArch13Atomic_eq (is_write : Bool) (access_type : MemAccessType)
    (space : inst.space = .global_space) (valid : inst.ValidSize)
    (same : SameSegments (twoParts config) inst)
    (m_accessq : List (MemAccess config.warp_size)) :
    memoryCoalescingArch13Atomic config inst is_write access_type m_accessq =
      some (m_accessq ++ (List.range 2).flatMap fun subwarp =>
        (atomicSources inst (activeThreads (twoParts config) inst subwarp)).map
          (reducedSegment inst is_write access_type)) := by
  have turn : ∀ subwarp < 2, ∀ queue,
      atomicSubwarp config inst is_write access_type queue subwarp =
        some (queue ++ (atomicSources inst (activeThreads (twoParts config) inst subwarp)).map
          (reducedSegment inst is_write access_type)) := by
    intro subwarp inside queue
    have threads := foldlM_atomicTurn_eq space valid (same subwarp inside) ∅
    rw [atomicSubwarp, threads, Option.bind_eq_bind, Option.bind_some]
    exact foldlM_sendTransactions_eq valid queue
  rw [memoryCoalescingArch13Atomic, if_neg (not_not.mpr space)]
  simp [List.range, List.range.loop, turn 0 (by omega), turn 1 (by omega)]

/-! ## The result -/

def MemAccess.segment {warpSize : Nat} (inst : WarpInst warpSize) (access : MemAccess warpSize) :
    Nat :=
  access.m_addr.toNat / segmentSize inst.data_size * segmentSize inst.data_size

structure Separates (config : CoreConfig) (inst : WarpInst config.warp_size)
    (accesses : List (MemAccess config.warp_size)) : Prop where
  once : ∀ thread, masked thread accesses =
    if thread ∈ inst.m_warp_active_mask ∧ thread.val < config.warp_size / 2 * 2 then 1 else 0
  apart : ∀ access ∈ accesses, ∀ thread ∈ access.m_warp_mask, ∀ other ∈ access.m_warp_mask,
    thread ≠ other → ∀ i < inst.data_size, ∀ j < inst.data_size,
      inst.atomicAddr thread + .ofNat 64 i ≠ inst.atomicAddr other + .ofNat 64 j
  union : ∀ (key : Address) (byte : Fin 128),
    (∃ access ∈ accesses, access.segment inst = key.toNat ∧ byte ∈ access.m_byte_mask) ↔
      ∃ thread ∈ inst.m_warp_active_mask, thread.val < config.warp_size / 2 * 2 ∧
        blockOf inst (inst.atomicAddr thread) = key ∧ byte ∈ atomicBytes inst thread
  contains : ∀ access ∈ accesses, ∀ thread ∈ access.m_warp_mask,
    (inst.atomicAddr thread).toNat < 2 ^ 32 → ¬ Crosses inst (inst.atomicAddr thread) →
      ∀ i < inst.data_size, access.Contains (inst.atomicAddr thread + .ofNat 64 i)

theorem AtomicSent.segment (valid : inst.ValidSize) {threads : List (Fin config.warp_size)}
    {key : Address} {info : TransactionInfo config.warp_size}
    {access : MemAccess config.warp_size} (sent : AtomicSent inst threads key info access) :
    access.segment inst = key.toNat := by
  have aligned := sent.aligned
  obtain ⟨start, stop, positive⟩ := sent.within
  rw [MemAccess.segment]
  rcases valid.proper with size | size | size <;> rw [size] at aligned stop ⊢ <;> omega

theorem AtomicSent.apart {threads : List (Fin config.warp_size)}
    {key : Address} {info : TransactionInfo config.warp_size}
    {access : MemAccess config.warp_size} (sent : AtomicSent inst threads key info access)
    (inside : ∀ thread ∈ threads,
      (inst.atomicAddr thread).toNat % 128 + inst.data_size ≤ 128)
    {thread other : Fin config.warp_size} (inMask : thread ∈ access.m_warp_mask)
    (otherInMask : other ∈ access.m_warp_mask) (different : thread ≠ other) {i j : Nat}
    (small : i < inst.data_size) (otherSmall : j < inst.data_size) :
    inst.atomicAddr thread + .ofNat 64 i ≠ inst.atomicAddr other + .ofNat 64 j := by
  rw [sent.mask] at inMask otherInMask
  have fits := inside thread (sent.own thread inMask).1
  have otherFits := inside other (sent.own other otherInMask).1
  have disjoint := sent.built.disjoint thread inMask other otherInMask different
  intro same
  have place : (inst.atomicAddr thread).toNat % 128 + i =
      (inst.atomicAddr other).toNat % 128 + j := by
    have sums := congrArg BitVec.toNat same
    rw [BitVec.toNat_add, BitVec.toNat_add, BitVec.toNat_ofNat, BitVec.toNat_ofNat] at sums
    omega
  rw [Finset.disjoint_left] at disjoint
  apply @disjoint ⟨(inst.atomicAddr thread).toNat % 128 + i, by omega⟩
  · simp only [mem_atomicBytes, lineOffset_val]
    omega
  · simp only [mem_atomicBytes, lineOffset_val]
    omega

theorem AtomicSent.contains (valid : inst.ValidSize) (space : inst.space = .global_space)
    {threads : List (Fin config.warp_size)} {key : Address}
    {info : TransactionInfo config.warp_size} {access : MemAccess config.warp_size}
    (sent : AtomicSent inst threads key info access) {thread : Fin config.warp_size}
    (inMask : thread ∈ access.m_warp_mask) (low : (inst.atomicAddr thread).toNat < 2 ^ 32)
    (whole : ¬ Crosses inst (inst.atomicAddr thread)) {i : Nat} (small : i < inst.data_size) :
    access.Contains (inst.atomicAddr thread + .ofNat 64 i) := by
  rw [sent.mask] at inMask
  have block := blockOf_toNat valid (inst.atomicAddr thread)
  rw [(sent.own thread inMask).2] at block
  have covered := sent.covers _ ((sent.built.chunks _).mpr ⟨thread, inMask, rfl⟩)
  rw [chunkOf_val] at covered
  have split : (splitAccess inst).1 = inst.data_size := by simp [splitAccess, space]
  rw [Crosses, lineOffset_val, split] at whole
  have few := valid.fits.2.1
  rw [split] at few
  obtain ⟨start, stop, _⟩ := sent.within
  apply (contains_add_iff low (by omega)).mpr
  rw [block] at start stop
  rcases valid.proper with size | size | size <;> rw [size] at start stop <;> omega

theorem mem_halves {thread : Fin config.warp_size} :
    thread ∈ coveredThreads (twoParts config) inst ↔
      thread ∈ inst.m_warp_active_mask ∧ thread.val < config.warp_size / 2 * 2 := by
  simp [coveredThreads]

/-- While the assertion on the segments holds, the function succeeds; each active thread of the
two halves is in one access, the threads of an access touch different bytes, the byte masks of
the accesses to a block are the bytes requested in it, and a request within one 32-byte chunk is
in the range of its access. -/
theorem atomic_separates (space : inst.space = .global_space) (valid : inst.ValidSize)
    (same : SameSegments (twoParts config) inst)
    (m_accessq : List (MemAccess config.warp_size)) :
    ∃ accesses, memoryCoalescingArch13Atomic config inst is_write access_type m_accessq =
      some (m_accessq ++ accesses) ∧ Separates config inst accesses := by
  have run := memoryCoalescingArch13Atomic_eq is_write access_type space valid same m_accessq
  have fresh := memoryCoalescingArch13Atomic_eq is_write access_type space valid same []
  have source : ∀ access ∈ (List.range 2).flatMap (fun subwarp =>
      (atomicSources inst (activeThreads (twoParts config) inst subwarp)).map
        (reducedSegment inst is_write access_type)), ∃ subwarp < 2, ∃ key info,
      (key, info) ∈ atomicSources inst (activeThreads (twoParts config) inst subwarp) ∧
        AtomicSent inst (activeThreads (twoParts config) inst subwarp) key info access := by
    intro access member
    obtain ⟨subwarp, inRange, sent⟩ := List.mem_flatMap.mp member
    obtain ⟨⟨key, info⟩, isSource, rfl⟩ := List.mem_map.mp sent
    exact ⟨subwarp, List.mem_range.mp inRange, key, info, isSource,
      (atomicSource_sent is_write access_type valid isSource).2⟩
  have active : ∀ subwarp < 2, ∀ thread ∈ activeThreads (twoParts config) inst subwarp,
      thread ∈ coveredThreads (twoParts config) inst := by
    intro subwarp inside thread member
    rw [← activeThreads_flatMap]
    exact List.mem_flatMap.mpr ⟨subwarp, List.mem_range.mpr inside, member⟩
  have split : splitAccess inst = (inst.data_size, 1) := by simp [splitAccess, space]
  have inside : ∀ subwarp < 2, ∀ thread ∈ activeThreads (twoParts config) inst subwarp,
      (inst.atomicAddr thread).toNat % 128 + inst.data_size ≤ 128 := by
    intro subwarp isHalf thread member
    have first : (0 : Fin maxAccesses).val < (splitAccess inst).2 := by simp [split]
    have inside := (same subwarp isHalf thread member).inside valid first
    rw [split] at inside
    rw [WarpInst.atomicAddr]
    rcases valid.proper with size | size | size <;> rw [size] at inside <;> omega
  refine ⟨_, run, ?_⟩
  constructor
  case once =>
    intro thread
    have count := memoryCoalescingArch13Atomic_masked fresh thread
    have distinct : (coveredThreads (twoParts config) inst).Nodup :=
      ((List.nodup_finRange _).filter _).filter _
    rw [List.nil_append] at count
    have none : masked thread ([] : List (MemAccess config.warp_size)) = 0 := rfl
    rw [count, none, Nat.zero_add, distinct.count]
    exact if_congr mem_halves rfl rfl
  case apart =>
    intro access member thread inMask other otherInMask different i small j otherSmall
    obtain ⟨subwarp, isHalf, key, info, _, sent⟩ := source access member
    exact sent.apart (inside subwarp isHalf) inMask otherInMask different small otherSmall
  case union =>
    intro key byte
    constructor
    · rintro ⟨access, member, isSegment, inMask⟩
      obtain ⟨subwarp, isHalf, key', info, _, sent⟩ := source access member
      rw [sent.bytes] at inMask
      obtain ⟨thread, inActive, isByte⟩ := (sent.built.bytes byte).mp inMask
      obtain ⟨member', isBlock⟩ := sent.own thread inActive
      obtain ⟨isActive, inHalves⟩ := mem_halves.mp (active subwarp isHalf thread member')
      refine ⟨thread, isActive, inHalves, ?_, isByte⟩
      rw [sent.segment valid] at isSegment
      exact isBlock.trans (BitVec.eq_of_toNat_eq isSegment)
    · rintro ⟨thread, isActive, inHalves, rfl, isByte⟩
      have member := mem_halves.mpr ⟨isActive, inHalves⟩
      rw [← activeThreads_flatMap] at member
      obtain ⟨subwarp, inRange, member⟩ := List.mem_flatMap.mp member
      obtain ⟨info, isSource, inActive⟩ := atomicSource_of_thread valid member
      have sent := (atomicSource_sent is_write access_type valid isSource).2
      refine ⟨_, List.mem_flatMap.mpr ⟨subwarp, inRange, List.mem_map_of_mem isSource⟩,
        sent.segment valid, ?_⟩
      rw [sent.bytes]
      exact (sent.built.bytes byte).mpr ⟨thread, inActive, isByte⟩
  case contains =>
    intro access member thread inMask low whole i small
    obtain ⟨subwarp, isHalf, key, info, _, sent⟩ := source access member
    exact sent.contains valid space inMask low whole small

end

theorem atomic_separates_conflict :
    ∃ accesses, memoryCoalescingArch13Atomic ⟨4, 2, false, false, 0, by decide, by decide⟩
        (loadInst ![0, 0, 200, 12]) false .GLOBAL_ACC_W [] = some accesses ∧
      Separates ⟨4, 2, false, false, 0, by decide, by decide⟩ (loadInst ![0, 0, 200, 12]) accesses :=
  @atomic_separates ⟨4, 2, false, false, 0, by decide, by decide⟩ _ false .GLOBAL_ACC_W rfl
    (by simp [WarpInst.ValidSize, loadInst]) (by unfold SameSegments WarpInst.SameSegment; decide) []

set_option maxRecDepth 1000 in
/-- A request may fail the assertion on its segment, the last thread of an odd warp is in no
access, and a request that goes on into the next chunk may be cut off. -/
theorem atomic_leaves_requests :
    memoryCoalescingArch13Atomic ⟨2, 2, false, false, 0, by decide, by decide⟩
        (loadInst ![126, 0]) false .GLOBAL_ACC_W [] = none ∧
    (¬ ∀ accesses : List (MemAccess 1),
      memoryCoalescingArch13Atomic ⟨1, 1, false, false, 0, by decide, by decide⟩
        (loadInst ![0]) false .GLOBAL_ACC_W [] = some accesses →
          ∃ access ∈ accesses, 0 ∈ access.m_warp_mask) ∧
    ¬ ∀ accesses : List (MemAccess 2),
      memoryCoalescingArch13Atomic ⟨2, 2, false, false, 0, by decide, by decide⟩
        (loadInst ![30, 128]) false .GLOBAL_ACC_W [] = some accesses →
          ∀ access ∈ accesses, 0 ∈ access.m_warp_mask → access.Contains 33 := by
  refine ⟨?_, fun claim => ?_, fun claim => ?_⟩
  · have fails : (memoryCoalescingArch13Atomic ⟨2, 2, false, false, 0, by decide, by decide⟩
        (loadInst ![126, 0]) false .GLOBAL_ACC_W []).isNone = true := by decide
    exact Option.isNone_iff_eq_none.mp fails
  · have absent : (memoryCoalescingArch13Atomic ⟨1, 1, false, false, 0, by decide, by decide⟩
        (loadInst ![0]) false .GLOBAL_ACC_W []).any fun sent => ∀ access ∈ sent,
          0 ∉ access.m_warp_mask := by decide
    obtain ⟨sent, run, found⟩ := (Option.any_eq_true _ _).mp absent
    obtain ⟨access, isSent, inMask⟩ := claim sent run
    exact of_decide_eq_true found access isSent inMask
  · have cut : (memoryCoalescingArch13Atomic ⟨2, 2, false, false, 0, by decide, by decide⟩
        (loadInst ![30, 128]) false .GLOBAL_ACC_W []).any fun sent => ∃ access ∈ sent,
          0 ∈ access.m_warp_mask ∧ access.m_addr.toNat + access.m_req_size ≤ 33 := by decide
    obtain ⟨sent, run, found⟩ := (Option.any_eq_true _ _).mp cut
    obtain ⟨access, isSent, inMask, ends⟩ := of_decide_eq_true found
    exact absurd (claim sent run access isSent inMask).2 (Nat.not_lt.mpr ends)

end AesOnGpu.Coalescing
