import AesOnGpu.Cache.Outstanding

/-! # Reserved lines

In a cache that allocates on a miss, a line is reserved by the access that also
queues the read, except when the miss status registers have an entry for the
block.  As long as the read of this entry is outstanding, the block has a line
that is reserved for it.  But an entry stays until its last reader is drained,
and in the meantime the line may be replaced.  An access to the block then
reserves a line and joins the entry, and no read is sent.
-/

namespace AesOnGpu.Cache

variable {config : CacheConfig} {cache : CacheClass}

def System.FillsUnderWay (system : System config) : Prop :=
  ∀ idx, (system.cache.m_lines idx).m_status = .RESERVED →
    ∃ mf extra, system.cache.WaitsForFill mf extra ∧ extra.m_cache_index = idx ∧
      (mf ∈ system.cache.m_miss_queue ∨ mf ∈ system.m_memport)

/-- An access of the request is accepted, its block is in no line, and the miss
    status registers have an entry for it. -/
def CacheState.JoinsDrained (cache : CacheClass) (state : CacheState config) (mf : Uid) : Prop :=
  let fetch := state.heap.fetch mf
  let block_addr := config.blockAddr fetch.m_addr
  (∃ idx, probe state.m_lines block_addr = some (.MISS idx)) ∧
    state.m_mshrs.probe block_addr = true ∧
    state.m_mshrs.full config block_addr = false ∧
    missQueueFull state (requestsNeeded cache state mf) = false ∧
    (fetch.is_write = true → config.m_write_alloc_policy = .WRITE_ALLOCATE)

def System.JoinsDrained (cache : CacheClass) (system : System config) : Operation → Prop
  | .access mf _ => system.cache.JoinsDrained cache mf
  | _ => False

def CacheState.LinesReserved (state : CacheState config) : Prop :=
  ∀ mf extra, state.WaitsForFill mf extra →
    (state.m_lines extra.m_cache_index).m_status = .RESERVED ∧
      (state.m_lines extra.m_cache_index).m_tag = extra.m_block_addr

/-! ## Misses -/

/-- A miss under `ON_MISS` leaves a line reserved, and unless there is an entry
    already, a request that will fill it. -/
structure Reserves (state : CacheState config) (block_addr : Address) (reader : Uid)
    (state' : CacheState config) (idx : config.Index) (block : CacheBlock) : Prop where
  lines : state'.m_lines = Function.update state.m_lines idx block
  status : block.m_status = .RESERVED
  tag : block.m_tag = block_addr
  before : ((state.m_lines idx).m_status = .RESERVED ∧ (state.m_lines idx).m_tag = block_addr ∧
      probe state.m_lines block_addr = some (.HIT_RESERVED idx)) ∨
    ((state.m_lines idx).m_status ≠ .RESERVED ∧ probe state.m_lines block_addr = some (.MISS idx))
  fields : (state.m_mshrs.probe block_addr = true ∧
      state'.m_extra_mf_fields = state.m_extra_mf_fields) ∨
    (state.m_mshrs.probe block_addr = false ∧ ∃ size, state'.m_extra_mf_fields =
      state.m_extra_mf_fields.insert reader ⟨block_addr, idx, size⟩)

theorem tagAccess_reserves (onMiss : config.m_alloc_policy = .ON_MISS) {m_lines : Lines config}
    {block_addr : Address} {time : BitVec 32} {idx : config.Index} {access : TagAccess config}
    (isBlock : config.blockAddr block_addr = block_addr)
    (result : access.result = .HIT_RESERVED idx ∨ access.result = .MISS idx)
    (touch : tagAccess m_lines block_addr time = some access) :
    ∃ block, access.m_lines = Function.update m_lines idx block ∧ block.m_status = .RESERVED ∧
      block.m_tag = block_addr ∧
      (((m_lines idx).m_status = .RESERVED ∧ (m_lines idx).m_tag = block_addr ∧
          probe m_lines block_addr = some (.HIT_RESERVED idx)) ∨
        ((m_lines idx).m_status ≠ .RESERVED ∧ probe m_lines block_addr = some (.MISS idx))) := by
  have probed := tagAccess_result touch
  cases result with
  | inl reserved =>
    rw [reserved] at probed
    cases probe_spec probed with
    | HIT_RESERVED _ tag status =>
      have isTag := tag.trans isBlock
      exact ⟨_, (tagAccess_reserved touch reserved).1, status, isTag, Or.inl ⟨status, isTag, probed⟩⟩
  | inr miss =>
    rw [miss] at probed
    cases probe_spec probed with
    | MISS _ notReserved _ =>
      exact ⟨_, (tagAccess_miss onMiss touch miss).1, rfl, isBlock, Or.inr ⟨notReserved, probed⟩⟩

theorem Missed.reserves (onMiss : config.m_alloc_policy = .ON_MISS) {state state' : CacheState config}
    {block_addr : Address} {reader : Uid} {time : BitVec 32}
    (isBlock : config.blockAddr block_addr = block_addr)
    (missed : Missed cache state block_addr reader time state') :
    ∃ idx block, Reserves state block_addr reader state' idx block := by
  cases missed with
  | merged result touch isHit _ _ =>
    obtain ⟨block, lines, status, tag, before⟩ := tagAccess_reserves onMiss isBlock result touch
    exact ⟨_, block, by rw [writtenBack_m_lines, lines], status, tag, before,
      Or.inl ⟨isHit, by rw [writtenBack_m_extra_mf_fields]⟩⟩
  | sent result touch isMiss _ _ =>
    obtain ⟨block, lines, status, tag, before⟩ := tagAccess_reserves onMiss isBlock result touch
    exact ⟨_, block, by rw [writtenBack_m_lines, lines], status, tag, before,
      Or.inr ⟨isMiss, _, by rw [writtenBack_m_extra_mf_fields]⟩⟩

namespace Reserves

variable {state state' : CacheState config} {block_addr : Address} {reader : Uid}
  {idx : config.Index} {block : CacheBlock}

theorem waits (reserves : Reserves state block_addr reader state' idx block) {mf : Uid}
    {extra : ExtraMfFields config} (found : state'.WaitsForFill mf extra) :
    state.WaitsForFill mf extra ∨
      (extra.m_block_addr = block_addr ∧ extra.m_cache_index = idx) := by
  rw [CacheState.WaitsForFill] at found
  cases reserves.fields with
  | inl joined =>
    rw [joined.2] at found
    exact Or.inl found
  | inr sent =>
    obtain ⟨size, fields⟩ := sent.2
    rw [fields] at found
    cases extra_insert.mp found with
    | inl new =>
      rw [new.2]
      exact Or.inr ⟨rfl, rfl⟩
    | inr old => exact Or.inl old.2

theorem linesReserved (reserves : Reserves state block_addr reader state' idx block)
    (reserved : state.LinesReserved) : state'.LinesReserved := by
  intro mf extra found
  rw [reserves.lines, Function.update_apply]
  cases reserves.waits found with
  | inl old =>
    have here := reserved mf extra old
    split
    · rename_i isIdx
      rw [isIdx] at here
      cases reserves.before with
      | inl before => exact ⟨reserves.status, reserves.tag.trans (before.2.1.symm.trans here.2)⟩
      | inr before => exact absurd here.1 before.1
    · exact here
  | inr new =>
    rw [if_pos new.2, new.1]
    exact ⟨reserves.status, reserves.tag⟩

theorem stillWaits (reserves : Reserves state block_addr reader state' idx block)
    (fresh : ∀ extra, ¬ state.WaitsForFill reader extra) {mf : Uid} {extra : ExtraMfFields config}
    (found : state.WaitsForFill mf extra) : state'.WaitsForFill mf extra := by
  rw [CacheState.WaitsForFill]
  cases reserves.fields with
  | inl joined =>
    rw [joined.2]
    exact found
  | inr sent =>
    obtain ⟨size, fields⟩ := sent.2
    rw [fields]
    exact extra_insert.mpr (Or.inr ⟨fun same => fresh extra (same ▸ found), found⟩)

/-- Unless an entry is joined for a block without a line, what is reserved
    afterwards is waited for. -/
theorem covered (reserves : Reserves state block_addr reader state' idx block)
    (fresh : ∀ extra, ¬ state.WaitsForFill reader extra)
    (covered : ∀ other, (state.m_lines other).m_status = .RESERVED →
      ∃ mf extra, state.WaitsForFill mf extra ∧ extra.m_cache_index = other)
    (notDrained : probe state.m_lines block_addr = some (.MISS idx) →
      state.m_mshrs.probe block_addr = false)
    {other : config.Index} (isReserved : (state'.m_lines other).m_status = .RESERVED) :
    ∃ mf extra, state'.WaitsForFill mf extra ∧ extra.m_cache_index = other := by
  have old (status : (state.m_lines other).m_status = .RESERVED) :
      ∃ mf extra, state'.WaitsForFill mf extra ∧ extra.m_cache_index = other := by
    obtain ⟨mf, extra, found, index⟩ := covered other status
    exact ⟨mf, extra, reserves.stillWaits fresh found, index⟩
  rw [reserves.lines, Function.update_apply] at isReserved
  split at isReserved
  · rename_i isIdx
    cases reserves.before with
    | inl before => exact old (isIdx ▸ before.1)
    | inr before =>
      cases reserves.fields with
      | inl joined => exact absurd (joined.1.symm.trans (notDrained before.2)) (by decide)
      | inr sent =>
        obtain ⟨size, fields⟩ := sent.2
        refine ⟨reader, ⟨block_addr, idx, size⟩, ?_, isIdx.symm⟩
        rw [CacheState.WaitsForFill, fields]
        exact extra_insert.mpr (Or.inl ⟨rfl, rfl⟩)
  · exact old isReserved

theorem uncovered (reserves : Reserves state block_addr reader state' idx block)
    (reserved : state.LinesReserved) (missed : probe state.m_lines block_addr = some (.MISS idx))
    (isEntry : state.m_mshrs.probe block_addr = true) :
    (state'.m_lines idx).m_status = .RESERVED ∧
      ∀ mf extra, state'.WaitsForFill mf extra → extra.m_cache_index ≠ idx := by
  constructor
  · rw [reserves.lines, Function.update_self]
    exact reserves.status
  · intro mf extra found same
    cases reserves.fields with
    | inl joined =>
      rw [CacheState.WaitsForFill, joined.2] at found
      have here := (reserved mf extra found).1
      rw [same] at here
      cases probe_spec missed with
      | MISS _ notReserved _ => exact notReserved here
    | inr sent => exact absurd (isEntry.symm.trans sent.1) (by decide)

end Reserves

theorem Missed.notFull {state state' : CacheState config} {block_addr : Address} {reader : Uid}
    {time : BitVec 32} (missed : Missed cache state block_addr reader time state') :
    state.m_mshrs.full config block_addr = false := by
  cases missed with
  | merged _ _ _ notFull _ | sent _ _ _ notFull _ => exact notFull

/-! ## Accesses -/

structure KeepsReserved (state state' : CacheState config) : Prop where
  lines : ∀ idx, (state.m_lines idx).m_status = .RESERVED ∨ (state'.m_lines idx).m_status = .RESERVED →
    state'.m_lines idx = state.m_lines idx
  fields : state'.m_extra_mf_fields = state.m_extra_mf_fields

theorem KeepsReserved.update {state state' : CacheState config} {idx : config.Index}
    {block : CacheBlock} (lines : state'.m_lines = Function.update state.m_lines idx block)
    (fields : state'.m_extra_mf_fields = state.m_extra_mf_fields)
    (before : (state.m_lines idx).m_status ≠ .RESERVED) (after : block.m_status ≠ .RESERVED) :
    KeepsReserved state state' := by
  refine ⟨fun other status => ?_, fields⟩
  rw [lines, Function.update_apply] at status ⊢
  split
  · rename_i isIdx
    rw [if_pos isIdx, isIdx] at status
    cases status with
    | inl status => exact absurd status before
    | inr status => exact absurd status after
  · rfl

theorem KeepsReserved.linesReserved {state state' : CacheState config}
    (keeps : KeepsReserved state state') (reserved : state.LinesReserved) : state'.LinesReserved := by
  intro mf extra found
  rw [CacheState.WaitsForFill, keeps.fields] at found
  have here := reserved mf extra found
  rw [keeps.lines _ (Or.inl here.1)]
  exact here

structure Joins (cache : CacheClass) (state : CacheState config) (mf : Uid)
    (state' : CacheState config) : Prop where
  reserves : ∃ reader idx block, (∀ extra, ¬ state.WaitsForFill reader extra) ∧
    Reserves state (config.blockAddr (state.heap.fetch mf).m_addr) reader state' idx block
  notFull : state.m_mshrs.full config (config.blockAddr (state.heap.fetch mf).m_addr) = false
  room : missQueueFull state (requestsNeeded cache state mf) = false
  allocates : (state.heap.fetch mf).is_write = true → config.m_write_alloc_policy = .WRITE_ALLOCATE

theorem access_joins_or_keeps (onMiss : config.m_alloc_policy = .ON_MISS)
    {state : CacheState config} {m_memport : List Uid} (outstanding : Outstanding state m_memport)
    {mf : Uid} {time : BitVec 32} {status : RequestStatus} {effect : Effect config}
    (notQueued : mf ∉ state.m_miss_queue) (notSent : mf ∉ m_memport)
    (accessed : Accessed cache ⟨state, []⟩ (state.heap.fetch mf).m_addr mf time status effect) :
    Joins cache state mf effect.state ∨
      (KeepsReserved state effect.state ∧ ¬ state.JoinsDrained cache mf) := by
  have isBlock := config.blockAddr_blockAddr (state.heap.fetch mf).m_addr
  have notReserved {idx : config.Index}
      (probed : probe state.m_lines (config.blockAddr (state.heap.fetch mf).m_addr) =
        some (.HIT idx)) : (state.m_lines idx).m_status ≠ .RESERVED := by
    cases probe_spec probed with
    | HIT _ _ status => cases status <;> simp_all
  have hitNot {idx : config.Index}
      (probed : probe state.m_lines (config.blockAddr (state.heap.fetch mf).m_addr) =
        some (.HIT idx)) : ¬ state.JoinsDrained cache mf := by
    rintro ⟨⟨other, missed⟩, _⟩
    exact absurd (probed.symm.trans missed) (by simp)
  cases accessed with
  | refused busy =>
    refine Or.inr ⟨⟨fun _ _ => rfl, rfl⟩, ?_⟩
    rintro ⟨⟨idx, probed⟩, _, notFull, room, _⟩
    rcases busy with refused | isFull | isFull
    · exact absurd (probed.symm.trans refused) (by simp)
    · exact absurd (room.symm.trans isFull) (by decide)
    · exact absurd (notFull.symm.trans isFull) (by decide)
  | hit probed _ _ same =>
    have before := notReserved probed
    refine Or.inr ⟨.update rfl rfl before ?_, fun drained => hitNot probed drained⟩
    cases same with
    | inl same => exact same ▸ before
    | inr modified => exact modified ▸ (by decide)
  | hitSent _ probed _ _ same =>
    refine Or.inr ⟨.update rfl rfl (notReserved probed) ?_, fun drained => hitNot probed drained⟩
    cases same with
    | inl modified => exact modified ▸ (by decide)
    | inr invalid => exact invalid ▸ (by decide)
  | written isWrite policy =>
    refine Or.inr ⟨⟨fun _ _ => rfl, rfl⟩, fun drained => ?_⟩
    exact absurd (policy.symm.trans (drained.2.2.2.2 isWrite)) (by decide)
  | read isRead room missed =>
    obtain ⟨idx, block, reserves⟩ := missed.reserves onMiss isBlock
    refine Or.inl ⟨⟨mf, idx, block, fun extra found => ?_, reserves⟩, missed.notFull, room, ?_⟩
    · cases outstanding.underway mf extra found with
      | inl inQueue => exact notQueued inQueue
      | inr inPort => exact notSent inPort
    · exact fun isWrite => absurd (isRead.symm.trans isWrite) (by decide)
  | allocated isWrite allocates room missed =>
    obtain ⟨idx, block, reserves⟩ := missed.reserves onMiss isBlock
    refine Or.inl ⟨⟨state.heap.next, idx, block, fun extra found => ?_, reserves.lines,
      reserves.status, reserves.tag, reserves.before, reserves.fields⟩, missed.notFull, room,
      fun _ => allocates⟩
    exact Nat.lt_irrefl _ (outstanding.created _ (outstanding.underway _ extra found))

/-! ## Steps -/

section

variable {system system' : System config} {op : Operation}

theorem Stepped.linesReserved (onMiss : config.m_alloc_policy = .ON_MISS)
    (stepped : Stepped cache system op system') (noFlush : op ≠ .flush)
    (outstanding : system.Outstanding) (reserved : system.cache.LinesReserved) :
    system'.cache.LinesReserved := by
  cases stepped with
  | create | idle | sent | next_access => exact reserved
  | access _ notQueued notSent accessed =>
    cases access_joins_or_keeps onMiss outstanding notQueued notSent (access_spec accessed) with
    | inl joins =>
      obtain ⟨reader, idx, block, _, reserves⟩ := joins.reserves
      exact reserves.linesReserved reserved
    | inr keeps => exact keeps.1.linesReserved reserved
  | @fill mf _ _ _ filled =>
    cases filled with
    | @mk extra _ waits _ lines =>
      cases lines with
      | onFill onFill => exact absurd (onMiss.symm.trans onFill) (by decide)
      | onMiss _ _ _ _ _ =>
        intro other fields found
        obtain ⟨isOther, found⟩ := extra_erase.mp found
        have here := reserved other fields found
        -- another request waits for another block, and so for another line
        have notHere : fields.m_cache_index ≠ extra.m_cache_index := by
          intro same
          rw [same] at here
          exact isOther (outstanding.alone other mf fields extra found waits
            (here.2.symm.trans (reserved mf extra waits).2))
        dsimp only
        rw [Function.update_of_ne notHere]
        exact here
  | flush => exact absurd rfl noFlush

theorem Stepped.covered (onMiss : config.m_alloc_policy = .ON_MISS)
    (stepped : Stepped cache system op system') (noFlush : op ≠ .flush)
    (outstanding : system.Outstanding)
    (notDrained : ¬ system.JoinsDrained cache op)
    (covered : ∀ idx, (system.cache.m_lines idx).m_status = .RESERVED →
      ∃ mf extra, system.cache.WaitsForFill mf extra ∧ extra.m_cache_index = idx) (idx : config.Index)
    (isReserved : (system'.cache.m_lines idx).m_status = .RESERVED) :
    ∃ mf extra, system'.cache.WaitsForFill mf extra ∧ extra.m_cache_index = idx := by
  cases stepped with
  | create | idle | sent | next_access => exact covered idx isReserved
  | access _ notQueued notSent accessed =>
    cases access_joins_or_keeps onMiss outstanding notQueued notSent (access_spec accessed) with
    | inl joins =>
      obtain ⟨reader, line, block, fresh, reserves⟩ := joins.reserves
      refine reserves.covered fresh covered (fun probed => ?_) isReserved
      rw [← Bool.not_eq_true]
      exact fun isEntry => notDrained ⟨⟨line, probed⟩, isEntry, joins.notFull, joins.room,
        joins.allocates⟩
    | inr keeps =>
      rw [keeps.1.lines idx (Or.inr isReserved)] at isReserved
      obtain ⟨mf, extra, found, index⟩ := covered idx isReserved
      refine ⟨mf, extra, ?_, index⟩
      rw [CacheState.WaitsForFill, keeps.1.fields]
      exact found
  | @fill mf _ _ _ filled =>
    cases filled with
    | @mk extra _ waits _ lines =>
      cases lines with
      | onFill onFill => exact absurd (onMiss.symm.trans onFill) (by decide)
      | @onMiss block _ _ _ _ status =>
        dsimp only at isReserved
        rw [Function.update_apply] at isReserved
        split at isReserved
        · rw [isReserved] at status
          cases status <;> contradiction
        · rename_i notHere
          obtain ⟨other, fields, found, index⟩ := covered idx isReserved
          refine ⟨other, fields, extra_erase.mpr ⟨fun same => notHere ?_, found⟩, index⟩
          rw [same] at found
          obtain rfl := Option.some.inj (found.symm.trans waits)
          exact index.symm
  | flush => exact absurd rfl noFlush

theorem Stepped.uncovered (onMiss : config.m_alloc_policy = .ON_MISS)
    (stepped : Stepped cache system op system') (outstanding : system.Outstanding)
    (reserved : system.cache.LinesReserved) (drained : system.JoinsDrained cache op) :
    ¬ system'.FillsUnderWay := by
  cases stepped with
  | create | idle | sent | next_access | fill | flush => exact drained.elim
  | access _ notQueued notSent accessed =>
    cases access_joins_or_keeps onMiss outstanding notQueued notSent (access_spec accessed) with
    | inl joins =>
      obtain ⟨reader, idx, block, _, reserves⟩ := joins.reserves
      obtain ⟨⟨line, missed⟩, isEntry, _⟩ := drained
      cases reserves.before with
      | inl before => exact absurd (missed.symm.trans before.2.2) (by simp)
      | inr before =>
        obtain ⟨isReserved, unawaited⟩ := reserves.uncovered reserved before.2 isEntry
        intro underWay
        obtain ⟨other, fields, found, index, _⟩ := underWay idx isReserved
        exact unawaited other fields found index
    | inr keeps => exact absurd drained keeps.2

end

/-! ## Every run -/

theorem run_linesReserved (onMiss : config.m_alloc_policy = .ON_MISS) {ops : List Operation}
    (noFlush : .flush ∉ ops) {system : System config}
    (reached : run config cache ops = some system) : system.cache.LinesReserved := by
  induction ops using List.reverseRecOn generalizing system with
  | nil =>
    obtain rfl := Option.some.inj reached
    intro mf extra found
    simp [CacheState.WaitsForFill, System.initial] at found
  | append_singleton ops op ih =>
    obtain ⟨before, reached, step⟩ := run_concat.mp reached
    rw [List.mem_append, not_or, List.mem_singleton] at noFlush
    exact (System.step_spec step).linesReserved onMiss (Ne.symm noFlush.2) (run_outstanding reached)
      (ih noFlush.1 reached)

/-- In a run of a cache that allocates on a miss, each reserved line is waited for
    at all times exactly when no access joins the entry of a block without a line. -/
theorem fillsUnderWay_iff (onMiss : config.m_alloc_policy = .ON_MISS) {ops : List Operation}
    (noFlush : .flush ∉ ops) {system : System config}
    (reached : run config cache ops = some system) :
    (∀ before passed, before <+: ops → run config cache before = some passed →
      passed.FillsUnderWay) ↔
    ∀ before op passed, before ++ [op] <+: ops → run config cache before = some passed →
      ¬ passed.JoinsDrained cache op := by
  constructor
  · intro underWay before op passed isPrefix reachedBefore drained
    obtain ⟨next, reachedNext⟩ := run_prefix isPrefix reached
    obtain ⟨passed', reached', step⟩ := run_concat.mp reachedNext
    obtain rfl := Option.some.inj (reached'.symm.trans reachedBefore)
    have noFlush' : .flush ∉ before := fun isFlush =>
      noFlush (isPrefix.subset (List.mem_append_left _ isFlush))
    exact (System.step_spec step).uncovered onMiss (run_outstanding reachedBefore)
      (run_linesReserved onMiss noFlush' reachedBefore) drained
      (underWay _ next isPrefix reachedNext)
  · intro notDrained before
    -- the requests that wait are under way anyhow
    have covered : ∀ passed, before <+: ops → run config cache before = some passed →
        ∀ idx, (passed.cache.m_lines idx).m_status = .RESERVED →
          ∃ mf extra, passed.cache.WaitsForFill mf extra ∧ extra.m_cache_index = idx := by
      induction before using List.reverseRecOn with
      | nil =>
        intro passed _ reachedBefore idx isReserved
        obtain rfl := Option.some.inj reachedBefore
        exact absurd isReserved (show BlockState.INVALID ≠ .RESERVED by decide)
      | append_singleton before op ih =>
        intro passed isPrefix reachedBefore
        obtain ⟨previous, reachedPrevious, step⟩ := run_concat.mp reachedBefore
        have notFlush : op ≠ .flush := fun isFlush =>
          noFlush (isPrefix.subset (List.mem_append_right _ (isFlush ▸ List.mem_singleton_self _)))
        exact (System.step_spec step).covered onMiss notFlush (run_outstanding reachedPrevious)
          (notDrained before op previous isPrefix reachedPrevious)
          (ih previous ((List.prefix_append _ _).trans isPrefix) reachedPrevious)
    intro passed isPrefix reachedBefore idx isReserved
    obtain ⟨mf, extra, found, index⟩ := covered passed isPrefix reachedBefore idx isReserved
    exact ⟨mf, extra, found, index, (run_outstanding reachedBefore).underway mf extra found⟩

/-- Block 0 is fetched, replaced by block 128 and read again before the first
    reader has been handed back. -/
def replacedBeforeDrained : List Operation :=
  [.create ⟨.GLOBAL_ACC_R, 0, 32, false, false⟩, .create ⟨.GLOBAL_ACC_R, 128, 32, false, false⟩,
    .create ⟨.GLOBAL_ACC_R, 0, 32, false, false⟩, .access 0 0, .cycle false, .fill 0 1,
    .access 1 2, .cycle false, .fill 1 3, .access 2 4]

/-- One way, a miss queue with four places. -/
def directMapped : CacheConfig := .oneSet 1 .WRITE_BACK .ON_MISS .WRITE_ALLOCATE 2 4

def directMapped.line : directMapped.Index := (⟨0, by decide⟩, ⟨0, by decide⟩)

theorem directMapped_accepted : directMapped.Accepted :=
  ⟨⟨1, 128, 1, 'L', 'B', 'm', 'W', 'A', 2, 2, 4, 0⟩, fun _ => 0, by rfl⟩

theorem replacedBeforeDrained_runs :
    (run directMapped .l2_cache replacedBeforeDrained).isSome = true := by decide

def replacedSystem : System directMapped :=
  (run directMapped .l2_cache replacedBeforeDrained).get replacedBeforeDrained_runs

theorem third_read_runs :
    (run directMapped .l2_cache replacedBeforeDrained.dropLast).isSome = true := by decide

/-- The third read joins the entry that is being drained. -/
theorem fillsUnderWay_iff_replaced :
    ¬ ∀ before passed, before <+: replacedBeforeDrained →
      run directMapped .l2_cache before = some passed → passed.FillsUnderWay := by
  intro underWay
  have never := (fillsUnderWay_iff rfl (by decide)
    (Option.some_get replacedBeforeDrained_runs).symm).mp underWay
  refine never replacedBeforeDrained.dropLast (.access 2 4) _ (List.prefix_refl _)
    (Option.some_get third_read_runs).symm ⟨⟨directMapped.line, ?_⟩, ?_, ?_, ?_, fun _ => rfl⟩
  all_goals decide

/-- The line is reserved again, and no request waits any more. -/
theorem replaced_line_stays_reserved :
    ¬ ∀ config cache ops system, config.Accepted → config.m_alloc_policy = .ON_MISS →
      .flush ∉ ops → run config cache ops = some system → system.FillsUnderWay := by
  intro claim
  have underWay : replacedSystem.FillsUnderWay :=
    claim directMapped .l2_cache replacedBeforeDrained _ directMapped_accepted rfl (by decide)
      (Option.some_get _).symm
  have isReserved : (replacedSystem.cache.m_lines directMapped.line).m_status = .RESERVED := by
    decide
  have nothing : replacedSystem.cache.m_extra_mf_fields.isEmpty = true := by decide
  obtain ⟨mf, extra, found, _⟩ := underWay directMapped.line isReserved
  rw [CacheState.WaitsForFill, Std.TreeMap.getElem?_of_isEmpty nothing] at found
  exact absurd found (by simp)

end AesOnGpu.Cache
