import AesOnGpu.Coalescing.Disabled

/-! # Coalescing atomics

`memory_coalescing_arch_13_atomic` gives each block address a list of transactions: a
thread goes into the first one whose bytes it does not touch.  So each active thread
of the two halves of the warp is in the mask of exactly one access.

A bit of `bytes` beyond the end is an exception, like `none`.
-/

namespace AesOnGpu.Coalescing

variable {warpSize : Nat}

def TransactionInfo.test_bytes (info : TransactionInfo warpSize) (start_bit end_bit : Nat) : Bool :=
  decide (∃ byte ∈ info.bytes, start_bit ≤ byte.val ∧ byte.val ≤ end_bit)

def WarpInst.atomicAddr (inst : WarpInst warpSize) (thread : Fin warpSize) : Address :=
  inst.memreqaddr thread 0

def TransactionInfo.join (info : TransactionInfo warpSize) (inst : WarpInst warpSize)
    (thread : Fin warpSize) : TransactionInfo warpSize :=
  let addr := inst.atomicAddr thread
  { chunks := insert (chunkOf addr) info.chunks
    bytes := info.bytes ∪ (Finset.univ.filter fun byte =>
      (lineOffset addr : Nat) ≤ byte ∧ byte.val < lineOffset addr + inst.data_size)
    active := insert thread info.active }

/-- The first transaction without a conflict, or a new one at the end. -/
def joinFirst (inst : WarpInst warpSize) (thread : Fin warpSize) :
    List (TransactionInfo warpSize) → List (TransactionInfo warpSize)
  | [] => [TransactionInfo.empty.join inst thread]
  | info :: infos =>
    let idx : Nat := lineOffset (inst.atomicAddr thread)
    if info.test_bytes idx (idx + inst.data_size - 1) then info :: joinFirst inst thread infos
    else info.join inst thread :: infos

/-- `*info`, before the thread joins it. -/
def chosenInfo (inst : WarpInst warpSize) (thread : Fin warpSize)
    (infos : List (TransactionInfo warpSize)) : TransactionInfo warpSize :=
  let idx : Nat := lineOffset (inst.atomicAddr thread)
  (infos.find? fun info => !info.test_bytes idx (idx + inst.data_size - 1)).getD .empty

/-- `subwarp_transactions`. -/
def atomicTransactionsOf (inst : WarpInst warpSize) :
    Grouping (Fin warpSize) Address (List (TransactionInfo warpSize)) where
  key thread := (lineSizeBasedTagFunc (inst.atomicAddr thread)
    (.ofNat 64 (segmentSize inst.data_size))).setWidth 64
  fresh := []
  add infos thread := joinFirst inst thread infos

def atomicTurn (inst : WarpInst warpSize)
    (subwarp_transactions : Std.TreeMap Address (List (TransactionInfo warpSize)))
    (thread : Fin warpSize) : Option (Std.TreeMap Address (List (TransactionInfo warpSize))) :=
  if thread ∉ inst.m_warp_active_mask then some subwarp_transactions
  else
    let segment_size : Address := .ofNat 64 (segmentSize inst.data_size)
    let addr := inst.atomicAddr thread
    let idx : Nat := lineOffset addr
    let info := chosenInfo inst thread
      (subwarp_transactions.getD ((atomicTransactionsOf inst).key thread) [])
    if lineSizeBasedTagFunc addr segment_size ≠
        lineSizeBasedTagFunc (addr + .ofNat 64 inst.data_size - 1) segment_size ∨
        128 < idx + inst.data_size ∨
        ∃ byte ∈ info.bytes, idx ≤ byte.val ∧ byte.val < idx + inst.data_size then none
    else some ((atomicTransactionsOf inst).insert subwarp_transactions thread)

section

variable (config : CoreConfig) (inst : WarpInst config.warp_size) (is_write : Bool)
  (access_type : MemAccessType)

abbrev twoParts : CoreConfig := { config with mem_warp_parts := 2, split := Nat.two_pos }

def sendTransactions (m_accessq : List (MemAccess config.warp_size))
    (entry : Address × List (TransactionInfo config.warp_size)) :
    Option (List (MemAccess config.warp_size)) :=
  entry.2.foldlM (fun m_accessq info =>
    (reduceAndSend is_write access_type info entry.1 (segmentSize inst.data_size)).map
      fun access => m_accessq ++ [access]) m_accessq

def atomicSubwarp (m_accessq : List (MemAccess config.warp_size)) (subwarp : Nat) :
    Option (List (MemAccess config.warp_size)) := do
  let subwarp_transactions ←
    (subwarpThreads (twoParts config) subwarp).foldlM (atomicTurn inst) ∅
  subwarp_transactions.toList.foldlM (sendTransactions config inst is_write access_type) m_accessq

/-- `memory_coalescing_arch_13_atomic`. -/
def memoryCoalescingArch13Atomic (m_accessq : List (MemAccess config.warp_size)) :
    Option (List (MemAccess config.warp_size)) :=
  if inst.space ≠ .global_space then none
  else (List.range 2).foldlM (atomicSubwarp config inst is_write access_type) m_accessq

end

theorem chosenInfo_free (inst : WarpInst warpSize) (thread : Fin warpSize)
    (infos : List (TransactionInfo warpSize)) :
    ¬ ∃ byte ∈ (chosenInfo inst thread infos).bytes,
      (lineOffset (inst.atomicAddr thread) : Nat) ≤ byte.val ∧
        byte.val < lineOffset (inst.atomicAddr thread) + inst.data_size := by
  rintro ⟨byte, isSet, low, high⟩
  rw [chosenInfo] at isSet
  cases chosen : infos.find? fun info => !info.test_bytes (lineOffset (inst.atomicAddr thread))
      (lineOffset (inst.atomicAddr thread) + inst.data_size - 1) with
  | none => simp [chosen, TransactionInfo.empty] at isSet
  | some info =>
    have free := List.find?_some chosen
    rw [chosen] at isSet
    simp only [Option.getD_some, TransactionInfo.test_bytes, Bool.not_eq_true',
      decide_eq_false_iff_not] at isSet free
    exact free ⟨byte, isSet, low, by omega⟩

/-! ## The transactions of a thread -/

def joined (thread : Fin warpSize) (infos : List (TransactionInfo warpSize)) : Nat :=
  infos.countP fun info => thread ∈ info.active

theorem joined_joinFirst (inst : WarpInst warpSize) {thread : Fin warpSize}
    {infos : List (TransactionInfo warpSize)} (new : joined thread infos = 0)
    (other : Fin warpSize) :
    joined other (joinFirst inst thread infos) =
      joined other infos + if other = thread then 1 else 0 := by
  induction infos with
  | nil =>
    by_cases same : other = thread <;>
      simp [joined, joinFirst, TransactionInfo.join, TransactionInfo.empty, same]
  | cons info infos ih =>
    have newInfo : thread ∉ info.active := by
      intro member
      simp [joined, member] at new
    have newInfos : joined thread infos = 0 := by
      simpa [joined, newInfo] using new
    simp only [joinFirst]
    split
    · have later := ih newInfos
      simp only [joined, List.countP_cons] at later ⊢
      omega
    · by_cases same : other = thread
      · subst same
        simp [joined, TransactionInfo.join, newInfo]
      · simp [joined, TransactionInfo.join, same, List.countP_cons]

theorem joined_foldl (inst : WarpInst warpSize) {threads : List (Fin warpSize)}
    (distinct : threads.Nodup) (infos : List (TransactionInfo warpSize))
    (new : ∀ thread ∈ threads, joined thread infos = 0) (other : Fin warpSize) :
    joined other (threads.foldl (fun infos thread => joinFirst inst thread infos) infos) =
      joined other infos + threads.count other := by
  induction threads generalizing infos with
  | nil => simp
  | cons thread threads ih =>
    obtain ⟨notLater, distinctLater⟩ := List.nodup_cons.mp distinct
    have here := joined_joinFirst inst (new thread List.mem_cons_self)
    have newLater : ∀ later ∈ threads, joined later (joinFirst inst thread infos) = 0 := by
      intro later member
      have different : later ≠ thread := fun same => notLater (same ▸ member)
      rw [here, new later (List.mem_cons_of_mem thread member), if_neg different]
    rw [List.foldl_cons, ih distinctLater _ newLater, here, Nat.add_assoc]
    by_cases same : other = thread
    · simp [same, Nat.add_comm]
    · have notHead : thread ≠ other := fun isSame => same isSame.symm
      simp [same, List.count_cons_of_ne notHead]

theorem joined_value (inst : WarpInst warpSize) {threads : List (Fin warpSize)}
    (distinct : threads.Nodup) (key : Address) (thread : Fin warpSize) :
    joined thread ((atomicTransactionsOf inst).value threads key) =
      if (atomicTransactionsOf inst).key thread = key then threads.count thread else 0 := by
  have folded := joined_foldl inst
    (distinct.filter fun thread => decide ((atomicTransactionsOf inst).key thread = key)) []
    (fun _ _ => rfl) thread
  rw [Grouping.value]
  refine Eq.trans folded ?_
  simp only [joined, List.countP_nil, Nat.zero_add]
  split
  next isKey => exact List.count_filter (by simpa using isKey)
  next notKey =>
    apply List.count_eq_zero_of_not_mem
    simp [notKey]

theorem joined_collect (inst : WarpInst warpSize) {threads : List (Fin warpSize)}
    (distinct : threads.Nodup) (thread : Fin warpSize) :
    joined thread (((atomicTransactionsOf inst).collect threads).toList.flatMap Prod.snd) =
      threads.count thread := by
  let grouping := atomicTransactionsOf inst
  have perEntry : ∀ entry ∈ (grouping.collect threads).toList,
      joined thread entry.2 = if entry.1 = grouping.key thread then threads.count thread else 0 := by
    rintro ⟨key, infos⟩ member
    obtain ⟨-, rfl⟩ := grouping.mem_toList_collect.mp member
    rw [joined_value inst distinct]
    simp only [eq_comm, grouping]
  have counted : ((grouping.collect threads).toList.map Prod.fst).count (grouping.key thread) *
      threads.count thread = threads.count thread := by
    by_cases member : thread ∈ threads
    · have hasKey : grouping.key thread ∈ (grouping.collect threads).toList.map Prod.fst :=
        List.mem_map.mpr ⟨(grouping.key thread, grouping.value threads (grouping.key thread)),
          grouping.mem_toList_collect.mpr ⟨⟨thread, member, rfl⟩, rfl⟩, rfl⟩
      rw [List.count_eq_one_of_mem (grouping.nodup_keys_collect threads) hasKey, Nat.one_mul]
    · rw [List.count_eq_zero_of_not_mem member, Nat.mul_zero]
  rw [← counted]
  generalize threads.count thread = count at perEntry
  show joined thread ((grouping.collect threads).toList.flatMap Prod.snd) = _
  generalize (grouping.collect threads).toList = entries at perEntry
  induction entries with
  | nil => simp [joined]
  | cons entry entries ih =>
    have later := ih fun other member =>
      perEntry other (List.mem_cons_of_mem entry member)
    have here := perEntry entry List.mem_cons_self
    simp only [joined] at here later ⊢
    rw [List.flatMap_cons, List.countP_append, later, here, List.map_cons]
    by_cases same : entry.1 = grouping.key thread
    · rw [if_pos same, same, List.count_cons_self, Nat.add_mul, Nat.one_mul, Nat.add_comm]
    · rw [if_neg same, List.count_cons_of_ne same, Nat.zero_add]

/-! ## The accesses -/

def masked (thread : Fin warpSize) (accesses : List (MemAccess warpSize)) : Nat :=
  accesses.countP fun access => thread ∈ access.m_warp_mask

section

variable {config : CoreConfig} {inst : WarpInst config.warp_size} {is_write : Bool}
  {access_type : MemAccessType}

theorem sendTransactions_masked {m_accessq m_accessq' : List (MemAccess config.warp_size)}
    {entry : Address × List (TransactionInfo config.warp_size)}
    (run : sendTransactions config inst is_write access_type m_accessq entry = some m_accessq')
    (thread : Fin config.warp_size) :
    masked thread m_accessq' = masked thread m_accessq + joined thread entry.2 := by
  obtain ⟨addr, infos⟩ := entry
  simp only [sendTransactions] at run
  induction infos generalizing m_accessq with
  | nil =>
    cases run
    simp [joined]
  | cons info infos ih =>
    rw [List.foldlM_cons, Option.bind_eq_bind, Option.bind_eq_some_iff] at run
    obtain ⟨queue, first, rest⟩ := run
    obtain ⟨access, sent, rfl⟩ := Option.map_eq_some_iff.mp first
    rw [ih rest]
    simp only [masked, joined, List.countP_append, List.countP_cons, List.countP_nil,
      (reduceAndSend_sent sent).1]
    omega

theorem foldlM_sendTransactions_masked {m_accessq m_accessq' : List (MemAccess config.warp_size)}
    {entries : List (Address × List (TransactionInfo config.warp_size))}
    (run : entries.foldlM (sendTransactions config inst is_write access_type) m_accessq =
      some m_accessq') (thread : Fin config.warp_size) :
    masked thread m_accessq' =
      masked thread m_accessq + joined thread (entries.flatMap Prod.snd) := by
  induction entries generalizing m_accessq with
  | nil =>
    cases run
    simp [joined]
  | cons entry entries ih =>
    rw [List.foldlM_cons, Option.bind_eq_bind, Option.bind_eq_some_iff] at run
    obtain ⟨queue, first, rest⟩ := run
    rw [ih rest, sendTransactions_masked first, List.flatMap_cons]
    simp only [joined, List.countP_append]
    omega

theorem foldlM_atomicTurn {threads : List (Fin config.warp_size)}
    {map map' : Std.TreeMap Address (List (TransactionInfo config.warp_size))}
    (run : threads.foldlM (atomicTurn inst) map = some map') :
    map' = (threads.filter (· ∈ inst.m_warp_active_mask)).foldl
      (atomicTransactionsOf inst).insert map := by
  induction threads generalizing map with
  | nil =>
    cases run
    rfl
  | cons thread threads ih =>
    rw [List.foldlM_cons, Option.bind_eq_bind, Option.bind_eq_some_iff] at run
    obtain ⟨next, first, rest⟩ := run
    rw [ih rest]
    simp only [atomicTurn] at first
    split at first
    next inactive =>
      cases first
      simp [inactive]
    next active =>
      split at first
      next => cases first
      next =>
        cases first
        simp [not_not.mp active]

theorem atomicSubwarp_masked {m_accessq m_accessq' : List (MemAccess config.warp_size)}
    {subwarp : Nat}
    (run : atomicSubwarp config inst is_write access_type m_accessq subwarp = some m_accessq')
    (thread : Fin config.warp_size) :
    masked thread m_accessq' =
      masked thread m_accessq + (activeThreads (twoParts config) inst subwarp).count thread := by
  simp only [atomicSubwarp, Option.bind_eq_bind, Option.bind_eq_some_iff] at run
  obtain ⟨map, threads, sends⟩ := run
  rw [foldlM_sendTransactions_masked sends, foldlM_atomicTurn threads]
  have distinct : (activeThreads (twoParts config) inst subwarp).Nodup :=
    ((List.nodup_finRange _).filter _).filter _
  exact congrArg (masked thread m_accessq + ·) (joined_collect inst distinct thread)

theorem memoryCoalescingArch13Atomic_masked
    {m_accessq m_accessq' : List (MemAccess config.warp_size)}
    (run : memoryCoalescingArch13Atomic config inst is_write access_type m_accessq =
      some m_accessq') (thread : Fin config.warp_size) :
    masked thread m_accessq' =
      masked thread m_accessq + (coveredThreads (twoParts config) inst).count thread := by
  simp only [memoryCoalescingArch13Atomic] at run
  split at run
  next => cases run
  next =>
    have parts : coveredThreads (twoParts config) inst =
        activeThreads (twoParts config) inst 0 ++ activeThreads (twoParts config) inst 1 := by
      rw [← activeThreads_flatMap]
      exact congrArg _ (List.append_nil _)
    simp only [List.range, List.range.loop, List.foldlM_cons, List.foldlM_nil, Option.bind_eq_bind,
      Option.bind_eq_some_iff, Option.pure_def, Option.some.injEq] at run
    obtain ⟨queue, first, queue', second, rfl⟩ := run
    rw [atomicSubwarp_masked second, atomicSubwarp_masked first, parts, Nat.add_assoc]
    exact congrArg (masked thread m_accessq + ·) List.count_append.symm

end

end AesOnGpu.Coalescing
