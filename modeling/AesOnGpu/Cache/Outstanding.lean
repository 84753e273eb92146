import AesOnGpu.Cache.Run

/-! # Outstanding reads

A read that has been sent and not been answered has an entry of the miss status
registers to itself: no other read is outstanding for its block and the entry is
not ready.  In turn an entry that is not ready has an outstanding read.
-/

namespace AesOnGpu.Cache

variable {config : CacheConfig} {cache : CacheClass}

def CacheState.WaitsForFill (state : CacheState config) (mf : Uid) (extra : ExtraMfFields config) :
    Prop :=
  state.m_extra_mf_fields[mf]? = some extra

structure Outstanding (state : CacheState config) (m_memport : List Uid) : Prop where
  mshrs : state.m_mshrs.Valid config
  created : ∀ mf, mf ∈ state.m_miss_queue ∨ mf ∈ m_memport → mf < state.heap.next
  underway : ∀ mf extra, state.WaitsForFill mf extra →
    mf ∈ state.m_miss_queue ∨ mf ∈ m_memport
  isBlock : ∀ mf extra, state.WaitsForFill mf extra →
    config.blockAddr extra.m_block_addr = extra.m_block_addr
  alone : ∀ mf other extra extra', state.WaitsForFill mf extra →
    state.WaitsForFill other extra' → extra.m_block_addr = extra'.m_block_addr →
    mf = other
  isEntry : ∀ mf extra, state.WaitsForFill mf extra →
    state.m_mshrs.probe extra.m_block_addr = true
  notReady : ∀ mf extra, state.WaitsForFill mf extra →
    extra.m_block_addr ∉ state.m_mshrs.m_current_response
  served : ∀ block_addr, state.m_mshrs.probe block_addr = true →
    block_addr ∈ state.m_mshrs.m_current_response ∨
      ∃ mf extra, state.WaitsForFill mf extra ∧ extra.m_block_addr = block_addr

theorem extra_insert {m : Std.TreeMap Uid (ExtraMfFields config)} {reader mf : Uid}
    {extra extra' : ExtraMfFields config} :
    (m.insert reader extra)[mf]? = some extra' ↔
      (mf = reader ∧ extra' = extra) ∨ (mf ≠ reader ∧ m[mf]? = some extra') := by
  rw [Std.TreeMap.getElem?_insert]
  by_cases same : reader = mf
  · simp [same, eq_comm]
  · simp [same, Ne.symm same]

theorem extra_erase {m : Std.TreeMap Uid (ExtraMfFields config)} {filled mf : Uid}
    {extra : ExtraMfFields config} :
    (m.erase filled)[mf]? = some extra ↔ mf ≠ filled ∧ m[mf]? = some extra := by
  rw [Std.TreeMap.getElem?_erase]
  by_cases same : filled = mf
  · simp [same]
  · simp [same, Ne.symm same]

namespace Outstanding

variable {state state' : CacheState config} {m_memport : List Uid}

theorem queued (outstanding : Outstanding state m_memport) (mshrs : state'.m_mshrs = state.m_mshrs)
    (extra : state'.m_extra_mf_fields = state.m_extra_mf_fields)
    (queue : ∀ mf ∈ state.m_miss_queue, mf ∈ state'.m_miss_queue)
    (created : ∀ mf ∈ state'.m_miss_queue, mf < state'.heap.next)
    (next : state.heap.next ≤ state'.heap.next) : Outstanding state' m_memport := by
  have waits : state'.WaitsForFill = state.WaitsForFill := by
    unfold CacheState.WaitsForFill
    rw [extra]
  constructor
  · exact mshrs ▸ outstanding.mshrs
  · intro mf isQueued
    cases isQueued with
    | inl inQueue => exact created mf inQueue
    | inr inPort => exact Nat.lt_of_lt_of_le (outstanding.created mf (Or.inr inPort)) next
  · intro mf fields found
    exact (outstanding.underway mf fields (waits ▸ found)).imp (queue mf) id
  · exact waits ▸ outstanding.isBlock
  · exact waits ▸ outstanding.alone
  · exact waits ▸ mshrs ▸ outstanding.isEntry
  · exact waits ▸ mshrs ▸ outstanding.notReady
  · exact waits ▸ mshrs ▸ outstanding.served

theorem createdBelow (outstanding : Outstanding state m_memport) {mf : Uid}
    (inQueue : mf ∈ state.m_miss_queue) : mf < state.heap.next :=
  outstanding.created mf (Or.inl inQueue)

theorem writtenBack (outstanding : Outstanding state m_memport) (evicted : Option CacheBlock) :
    Outstanding (writtenBack cache state evicted) m_memport := by
  have keep := outstanding.queued (writtenBack_m_mshrs cache state evicted)
    (writtenBack_m_extra_mf_fields cache state evicted)
  cases writtenBack_m_miss_queue cache state evicted with
  | inl nothing =>
    rw [nothing.1, nothing.2] at keep
    exact keep (fun _ => id) (fun mf => outstanding.createdBelow) (Nat.le_refl _)
  | inr pushed =>
    rw [pushed.1, pushed.2] at keep
    refine keep (fun mf => List.mem_append_left _) (fun mf inQueue => ?_) (Nat.le_succ _)
    cases List.mem_append.mp inQueue with
    | inl before => exact Nat.lt_succ_of_lt (outstanding.createdBelow before)
    | inr here => exact List.mem_singleton.mp here ▸ Nat.lt_succ_self _

theorem writeQueued (outstanding : Outstanding state m_memport) {mf : Uid}
    (isCreated : mf < state.heap.next) : Outstanding (writeQueued cache state mf) m_memport := by
  refine outstanding.queued rfl rfl (fun other => List.mem_append_left _) (fun other inQueue => ?_)
    (Nat.le_succ _)
  cases List.mem_append.mp inQueue with
  | inl before => exact Nat.lt_succ_of_lt (outstanding.createdBelow before)
  | inr here =>
    obtain rfl := List.mem_singleton.mp here
    exact Nat.lt_succ_of_lt isCreated

theorem missed (outstanding : Outstanding state m_memport) {block_addr : Address} {reader : Uid}
    {time : BitVec 32} (isBlock : config.blockAddr block_addr = block_addr)
    (isCreated : reader < state.heap.next) (notQueued : reader ∉ state.m_miss_queue)
    (notSent : reader ∉ m_memport) (missed : Missed cache state block_addr reader time state') :
    Outstanding state' m_memport := by
  cases missed with
  | @merged idx access m_mshrs _ _ isHit _ added =>
    refine writtenBack ?_ _
    obtain ⟨response, _, _, _, probes⟩ := MshrTable.add_some added
    have probe (other : Address) : m_mshrs.probe other = true ↔ state.m_mshrs.probe other = true := by
      rw [probes]
      exact or_iff_right_of_imp fun same => same ▸ isHit
    refine ⟨outstanding.mshrs.add added, outstanding.created, outstanding.underway,
      outstanding.isBlock, outstanding.alone, fun mf extra found => ?_, fun mf extra found => ?_,
      fun other isEntry => ?_⟩
    · exact (probe _).mpr (outstanding.isEntry mf extra found)
    · exact response ▸ outstanding.notReady mf extra found
    · exact response ▸ outstanding.served other ((probe _).mp isEntry)
  | @sent idx access m_mshrs _ _ isMiss _ added =>
    refine writtenBack ?_ _
    obtain ⟨response, _, _, _, probes⟩ := MshrTable.add_some added
    -- no read is outstanding for the block
    have other {mf : Uid} {extra : ExtraMfFields config}
        (found : state.WaitsForFill mf extra) : extra.m_block_addr ≠ block_addr := by
      intro same
      have isEntry := outstanding.isEntry mf extra found
      rw [same, isMiss] at isEntry
      exact Bool.false_ne_true isEntry
    refine ⟨outstanding.mshrs.add added, fun mf isQueued => ?_, fun mf extra found => ?_,
      fun mf extra found => ?_, fun mf mf' extra extra' found found' same => ?_,
      fun mf extra found => ?_, fun mf extra found => ?_, fun block isEntry => ?_⟩
    · cases isQueued with
      | inl inQueue =>
        cases List.mem_append.mp inQueue with
        | inl before => exact outstanding.createdBelow before
        | inr here => exact List.mem_singleton.mp here ▸ isCreated
      | inr inPort => exact outstanding.created mf (Or.inr inPort)
    · cases extra_insert.mp found with
      | inl new => exact Or.inl (List.mem_append_right _ (List.mem_singleton.mpr new.1))
      | inr old => exact (outstanding.underway mf extra old.2).imp (List.mem_append_left _) id
    · cases extra_insert.mp found with
      | inl new => rw [new.2, isBlock]
      | inr old => exact outstanding.isBlock mf extra old.2
    · cases extra_insert.mp found with
      | inl new =>
        cases extra_insert.mp found' with
        | inl new' => rw [new.1, new'.1]
        | inr old' =>
          rw [new.2] at same
          exact absurd same.symm (other old'.2)
      | inr old =>
        cases extra_insert.mp found' with
        | inl new' =>
          rw [new'.2] at same
          exact absurd same (other old.2)
        | inr old' => exact outstanding.alone mf mf' extra extra' old.2 old'.2 same
    · cases extra_insert.mp found with
      | inl new =>
        rw [new.2]
        exact (probes _).mpr (Or.inl rfl)
      | inr old => exact (probes _).mpr (Or.inr (outstanding.isEntry mf extra old.2))
    · change extra.m_block_addr ∉ m_mshrs.m_current_response
      rw [response]
      cases extra_insert.mp found with
      | inl new =>
        rw [new.2]
        intro isReady
        exact Bool.false_ne_true (isMiss.symm.trans (outstanding.mshrs.ready block_addr isReady))
      | inr old => exact outstanding.notReady mf extra old.2
    · change block ∈ m_mshrs.m_current_response ∨ _
      rw [response]
      cases (probes block).mp isEntry with
      | inl new => exact Or.inr ⟨reader, _, extra_insert.mpr (Or.inl ⟨rfl, rfl⟩), new.symm⟩
      | inr old =>
        refine (outstanding.served block old).imp id ?_
        rintro ⟨mf, extra, found, isAddr⟩
        refine ⟨mf, extra, extra_insert.mpr (Or.inr ⟨?_, found⟩), isAddr⟩
        intro same
        cases outstanding.underway mf extra found with
        | inl inQueue => exact notQueued (same ▸ inQueue)
        | inr inPort => exact notSent (same ▸ inPort)

theorem accessed (outstanding : Outstanding state m_memport) {effect : Effect config}
    {events : List CacheEvent} {addr : Address} {mf : Uid} {time : BitVec 32}
    {status : RequestStatus} (isCreated : mf < state.heap.next)
    (notQueued : mf ∉ state.m_miss_queue) (notSent : mf ∉ m_memport)
    (accessed : Accessed cache ⟨state, events⟩ addr mf time status effect) :
    Outstanding effect.state m_memport := by
  -- the request itself is put into the miss queue
  have pushed (mf' : Uid) (inQueue : mf' ∈ state.m_miss_queue ++ [mf]) : mf' < state.heap.next := by
    cases List.mem_append.mp inQueue with
    | inl before => exact outstanding.createdBelow before
    | inr here => exact List.mem_singleton.mp here ▸ isCreated
  cases accessed with
  | refused _ => exact outstanding
  | hit _ _ _ _ =>
    exact outstanding.queued rfl rfl (fun _ => id) (fun _ => outstanding.createdBelow) (Nat.le_refl _)
  | hitSent _ _ _ _ _ =>
    exact outstanding.queued rfl rfl (fun _ => List.mem_append_left _) pushed (Nat.le_refl _)
  | written _ _ =>
    exact outstanding.queued rfl rfl (fun _ => List.mem_append_left _) pushed (Nat.le_refl _)
  | read _ _ missed =>
    exact outstanding.missed (config.blockAddr_blockAddr addr) isCreated notQueued notSent missed
  | allocated _ _ _ missed =>
    have sent : Outstanding (Cache.writeQueued cache state mf) m_memport :=
      outstanding.writeQueued isCreated
    refine sent.missed (config.blockAddr_blockAddr addr) (Nat.lt_succ_self _) ?_ ?_ missed
    · exact fun inQueue => Nat.lt_irrefl _ (pushed _ inQueue)
    · exact fun inPort => Nat.lt_irrefl _ (outstanding.created _ (Or.inr inPort))

theorem filled (outstanding : Outstanding state m_memport) {mf : Uid}
    (filled : Filled state mf state') : Outstanding state' (m_memport.erase mf) := by
  cases filled with
  | @mk extra m_lines waits isEntry _ =>
    have before {other : Uid} {fields : ExtraMfFields config}
        (found : (state.m_extra_mf_fields.erase mf)[other]? = some fields) :
        other ≠ mf ∧ state.WaitsForFill other fields := extra_erase.mp found
    refine ⟨outstanding.mshrs.markReady isEntry (outstanding.notReady mf extra waits),
      fun other isQueued => ?_, fun other fields found => ?_, fun other fields found => ?_,
      fun one other fields fields' found found' => ?_, fun other fields found => ?_,
      fun other fields found => ?_, fun block isEntry' => ?_⟩
    · exact outstanding.created other (isQueued.imp id List.mem_of_mem_erase)
    · obtain ⟨isOther, found⟩ := before found
      exact (outstanding.underway other fields found).imp id (List.mem_erase_of_ne isOther).mpr
    · exact outstanding.isBlock other fields (before found).2
    · exact outstanding.alone one other fields fields' (before found).2 (before found').2
    · exact outstanding.isEntry other fields (before found).2
    · obtain ⟨isOther, found⟩ := before found
      intro isReady
      cases List.mem_append.mp isReady with
      | inl earlier => exact outstanding.notReady other fields found earlier
      | inr here =>
        exact isOther (outstanding.alone other mf fields extra found waits
          (List.mem_singleton.mp here))
    · cases outstanding.served block isEntry' with
      | inl isReady => exact Or.inl (List.mem_append_left _ isReady)
      | inr sent =>
        obtain ⟨other, fields, found, isAddr⟩ := sent
        by_cases same : other = mf
        · left
          rw [same] at found
          obtain rfl := Option.some.inj (found.symm.trans waits)
          exact List.mem_append_right _ (List.mem_singleton.mpr isAddr.symm)
        · exact Or.inr ⟨other, fields, extra_erase.mpr ⟨same, found⟩, isAddr⟩

theorem drained (outstanding : Outstanding state m_memport) {m_mshrs : MshrTable}
    {block_addr : Address} {result : Uid}
    (drained : state.m_mshrs.Drained block_addr result m_mshrs) :
    Outstanding { state with m_mshrs } m_memport := by
  have valid := outstanding.mshrs.drained drained
  have readers (block : Address) (isReader : m_mshrs.readers block ≠ []) :
      state.m_mshrs.readers block ≠ [] := by
    by_cases same : block = block_addr
    · rw [same, drained.isReader]
      exact List.cons_ne_nil _ _
    · rw [← (drained.others same).1]
      exact isReader
  -- the entry is ready, so that no read is outstanding for it
  have other {mf : Uid} {extra : ExtraMfFields config} (found : state.WaitsForFill mf extra) :
      extra.m_block_addr ≠ block_addr := by
    intro same
    exact outstanding.notReady mf extra found (same ▸ drained.front)
  refine ⟨valid, outstanding.created, outstanding.underway, outstanding.isBlock, outstanding.alone,
    fun mf extra found => ?_, fun mf extra found => ?_, fun block isEntry => ?_⟩
  · apply MshrTable.probe_of_readers
    rw [(drained.others (other found)).1]
    exact outstanding.mshrs.nonempty _ (outstanding.isEntry mf extra found)
  · rw [(drained.others (other found)).2]
    exact outstanding.notReady mf extra found
  · have isReader := valid.nonempty block isEntry
    by_cases same : block = block_addr
    · exact Or.inl (same ▸ drained.stays (same ▸ isReader))
    · refine (outstanding.served block (MshrTable.probe_of_readers (readers block isReader))).imp
        (drained.others same).2.mpr id

end Outstanding

/-! ## Every run -/

def System.Outstanding (system : System config) : Prop :=
  Cache.Outstanding system.cache system.m_memport

theorem System.outstanding_initial : (System.initial config).Outstanding where
  mshrs := MshrTable.valid_empty config
  created mf isQueued := by cases isQueued <;> contradiction
  underway mf extra found := absurd found (by simp [CacheState.WaitsForFill, System.initial])
  isBlock mf extra found := absurd found (by simp [CacheState.WaitsForFill, System.initial])
  alone mf other extra extra' found := absurd found (by simp [CacheState.WaitsForFill, System.initial])
  isEntry mf extra found := absurd found (by simp [CacheState.WaitsForFill, System.initial])
  notReady mf extra found := absurd found (by simp [CacheState.WaitsForFill, System.initial])
  served block isEntry := absurd isEntry (by simp [System.initial, MshrTable.empty, MshrTable.probe])

theorem Stepped.outstanding {system system' : System config} {op : Operation}
    (stepped : Stepped cache system op system') (outstanding : system.Outstanding) :
    system'.Outstanding := by
  cases stepped with
  | create =>
    exact outstanding.queued rfl rfl (fun _ => id)
      (fun mf inQueue => Nat.lt_succ_of_lt (outstanding.createdBelow inQueue)) (Nat.le_succ _)
  | access isCreated notQueued notSent accessed =>
    exact outstanding.accessed isCreated notQueued notSent (access_spec accessed)
  | idle => exact outstanding
  | @sent mf later queue =>
    -- the request moves from the queue to the port
    have moved (other : Uid) : (other ∈ later ∨ other ∈ system.m_memport ++ [mf]) ↔
        (other ∈ system.cache.m_miss_queue ∨ other ∈ system.m_memport) := by
      rw [queue]
      simp only [List.mem_append, List.mem_cons]
      tauto
    exact ⟨outstanding.mshrs, fun other isQueued => outstanding.created other ((moved other).mp isQueued),
      fun other extra found => (moved other).mpr (outstanding.underway other extra found),
      outstanding.isBlock, outstanding.alone, outstanding.isEntry, outstanding.notReady,
      outstanding.served⟩
  | fill _ filled => exact outstanding.filled filled
  | next_access drained =>
    obtain ⟨block_addr, drained⟩ := MshrTable.nextAccess_some drained
    exact outstanding.drained drained
  | flush =>
    exact outstanding.queued rfl rfl (fun _ => id) (fun _ => outstanding.createdBelow) (Nat.le_refl _)

theorem run_outstanding {ops : List Operation} {system : System config}
    (reached : run config cache ops = some system) : system.Outstanding :=
  run_keeps System.Outstanding System.outstanding_initial (fun _ _ _ stepped => stepped.outstanding) reached

end AesOnGpu.Cache
