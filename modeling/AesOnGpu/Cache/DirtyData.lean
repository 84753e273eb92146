import AesOnGpu.Cache.TagUnique

/-! # Dirty data

A modified line that stops holding its block is written to the lower level by
the same operation, with one exception: a fill of a cache that allocates on a
fill replaces the line that the probe chooses and writes nothing back.  `init`
refuses such a cache only if it is a write-back cache, but the lines of the
other write policies get modified as well.
-/

namespace AesOnGpu.Cache

variable {config : CacheConfig} {cache : CacheClass}

/-- The block of a modified line is not in this line any more. -/
def System.Drops (system system' : System config) (idx : config.Index) : Prop :=
  (system.cache.m_lines idx).m_status = .MODIFIED ∧
    ¬ system'.cache.m_lines.Holds idx (system.cache.m_lines idx).m_tag

def CacheState.Writes (state state' : CacheState config) (block_addr : Address) : Prop :=
  ∃ pushed, state'.m_miss_queue = state.m_miss_queue ++ pushed ∧ ∃ mf ∈ pushed,
    (state'.heap.fetch mf).is_write = true ∧
      config.blockAddr (state'.heap.fetch mf).m_addr = block_addr

def System.FillsOverDirty (system : System config) : Operation → Prop
  | .fill mf _ => config.m_alloc_policy = .ON_FILL ∧ ∃ extra idx,
      system.cache.m_extra_mf_fields[mf]? = some extra ∧
      probe system.cache.m_lines extra.m_block_addr = some (.MISS idx) ∧
      (system.cache.m_lines idx).m_status = .MODIFIED
  | _ => False

/-! ## Misses -/

/-- What is known about a modified line after an operation. -/
def CacheState.SavesDirty (state state' : CacheState config) : Prop :=
  ∀ idx, (state.m_lines idx).m_status = .MODIFIED →
    state'.m_lines.Holds idx (state.m_lines idx).m_tag ∨
      state.Writes state' (state.m_lines idx).m_block_addr

theorem Lines.holds_of_modified {m_lines : Lines config} {idx : config.Index}
    (modified : (m_lines idx).m_status = .MODIFIED) : m_lines.Holds idx (m_lines idx).m_tag :=
  ⟨rfl, by rw [modified]; decide⟩

theorem CacheState.savesDirty_of_lines {state state' : CacheState config}
    (lines : state'.m_lines = state.m_lines) : state.SavesDirty state' := by
  intro idx modified
  rw [lines]
  exact Or.inl (Lines.holds_of_modified modified)

theorem CacheState.savesDirty_update {state state' : CacheState config} {idx : config.Index}
    {block : CacheBlock} (lines : state'.m_lines = Function.update state.m_lines idx block)
    (saved : (state.m_lines idx).m_status = .MODIFIED →
      (block.m_tag = (state.m_lines idx).m_tag ∧ block.m_status ≠ .INVALID) ∨
        state.Writes state' (state.m_lines idx).m_block_addr) : state.SavesDirty state' := by
  intro other modified
  by_cases same : other = idx
  · subst same
    refine (saved modified).imp (fun kept => ?_) id
    rw [Lines.Holds, lines, Function.update_self]
    exact kept
  · left
    rw [Lines.Holds, lines, Function.update_of_ne same]
    exact Lines.holds_of_modified modified

theorem writtenBack_writes (notThrough : config.m_write_policy ≠ .WRITE_THROUGH)
    (state : CacheState config) {block : CacheBlock}
    (isBlock : config.blockAddr block.m_block_addr = block.m_block_addr) :
    state.Writes (writtenBack cache state (some block)) block.m_block_addr := by
  rw [writtenBack, if_pos notThrough]
  refine ⟨[state.heap.next], rfl, state.heap.next, List.mem_singleton_self _, ?_, ?_⟩
  · simp [allocWriteBack, Heap.alloc]
  · simp [allocWriteBack, Heap.alloc, isBlock]

theorem CacheState.Writes.after {state state' state'' : CacheState config} {block_addr : Address}
    (queued : List Uid) (queue : state'.m_miss_queue = state.m_miss_queue ++ queued)
    (writes : state'.Writes state'' block_addr) : state.Writes state'' block_addr := by
  obtain ⟨pushed, isPushed, mf, member, write⟩ := writes
  exact ⟨queued ++ pushed, by rw [isPushed, queue, List.append_assoc], mf,
    List.mem_append_right _ member, write⟩

theorem Missed.savesDirty (notThrough : config.m_write_policy ≠ .WRITE_THROUGH)
    {state state' : CacheState config} {block_addr : Address} {reader : Uid} {time : BitVec 32}
    (distinct : state.m_lines.Distinct)
    (missed : Missed cache state block_addr reader time state') : state.SavesDirty state' := by
  -- the line touched is reserved, or is replaced and its block written back
  have touched {idx : config.Index} {access : TagAccess config} {queued : List Uid}
      {before : CacheState config}
      (result : access.result = .HIT_RESERVED idx ∨ access.result = .MISS idx)
      (touch : tagAccess state.m_lines block_addr time = some access)
      (lines : before.m_lines = access.m_lines)
      (queue : before.m_miss_queue = state.m_miss_queue ++ queued) :
      state.SavesDirty (writtenBack cache before access.evicted) := by
    cases result with
    | inl reserved =>
      have afterwards : (writtenBack cache before access.evicted).m_lines =
          Function.update state.m_lines idx { state.m_lines idx with m_last_access_time := time } := by
        rw [writtenBack_m_lines, lines, (tagAccess_reserved touch reserved).1]
      exact CacheState.savesDirty_update afterwards fun modified =>
        Or.inl ⟨rfl, (Lines.holds_of_modified modified).2⟩
    | inr miss =>
      cases policy : config.m_alloc_policy with
      | ON_MISS =>
        obtain ⟨replaced, evicted⟩ := tagAccess_miss policy touch miss
        have afterwards : (writtenBack cache before access.evicted).m_lines =
            Function.update state.m_lines idx
              (.allocate (config.tag block_addr) (config.blockAddr block_addr) time) := by
          rw [writtenBack_m_lines, lines, replaced]
        refine CacheState.savesDirty_update afterwards fun modified => Or.inr ?_
        obtain ⟨isTag, isBlock⟩ := distinct.isBlock idx _ (Lines.holds_of_modified modified)
        rw [evicted, if_pos modified]
        exact (writtenBack_writes notThrough before (isTag.symm ▸ isBlock)).after queued queue
      | ON_FILL =>
        apply CacheState.savesDirty_of_lines
        rw [writtenBack_m_lines, lines, (tagAccess_miss_onFill policy touch miss).1]
  cases missed with
  | merged result touch _ _ _ =>
    exact touched result touch rfl (List.append_nil _).symm
  | sent result touch _ _ _ => exact touched result touch rfl rfl

/-! ## Operations -/

theorem Accessed.savesDirty (notThrough : config.m_write_policy ≠ .WRITE_THROUGH)
    {state : CacheState config} {effect : Effect config} {mf : Uid} {time : BitVec 32}
    {status : RequestStatus} (distinct : state.m_lines.Distinct)
    (accessed : Accessed cache ⟨state, []⟩ (state.heap.fetch mf).m_addr mf time status effect) :
    state.SavesDirty effect.state := by
  cases accessed with
  | refused _ => exact CacheState.savesDirty_of_lines rfl
  | hit _ sameTag _ sameStatus =>
    refine CacheState.savesDirty_update rfl fun modified => Or.inl ⟨sameTag, ?_⟩
    cases sameStatus with
    | inl same =>
      rw [same]
      exact (Lines.holds_of_modified modified).2
    | inr becomes =>
      rw [becomes]
      decide
  | @hitSent idx _ _ isWrite probed _ _ _ =>
    -- the write itself goes to the lower level
    refine CacheState.savesDirty_update rfl fun modified => Or.inr ?_
    refine ⟨[mf], rfl, mf, List.mem_singleton_self mf, isWrite, ?_⟩
    cases probe_spec probed with
    | HIT _ isTag _ =>
      rw [(distinct.isBlock idx _ (Lines.holds_of_modified modified)).1, isTag, config.tag_blockAddr]
  | written _ _ => exact CacheState.savesDirty_of_lines rfl
  | read _ _ missed => exact missed.savesDirty notThrough distinct
  | @allocated state' _ _ _ _ missed =>
    have saved : (writeQueued cache state mf).SavesDirty state' :=
      missed.savesDirty notThrough distinct
    intro idx modified
    exact (saved idx modified).imp id fun writes => writes.after [mf] rfl

section

variable {system system' : System config} {op : Operation}

theorem Stepped.savesDirty (notThrough : config.m_write_policy ≠ .WRITE_THROUGH)
    (stepped : Stepped cache system op system') (noFlush : op ≠ .flush)
    (distinct : system.cache.m_lines.Distinct) (notOver : ¬ system.FillsOverDirty op) :
    system.cache.SavesDirty system'.cache := by
  cases stepped with
  | create | idle | sent | next_access => exact CacheState.savesDirty_of_lines rfl
  | access _ _ _ accessed => exact (access_spec accessed).savesDirty notThrough distinct
  | @fill mf _ _ _ filled =>
    cases filled with
    | @mk extra _ waits _ lines =>
      cases lines with
      | onMiss _ reserved _ _ _ =>
        refine CacheState.savesDirty_update rfl fun modified => ?_
        exact absurd (reserved.symm.trans modified) (by decide)
      | @onFill idx _ onFill probed _ _ _ =>
        refine CacheState.savesDirty_update rfl fun modified => ?_
        exact absurd ⟨onFill, extra, idx, waits, probed, modified⟩ notOver
  | flush => exact absurd rfl noFlush

theorem Stepped.losesDirty (stepped : Stepped cache system op system')
    (overDirty : system.FillsOverDirty op) :
    ∃ idx, system.Drops system' idx ∧
      ¬ system.cache.Writes system'.cache (system.cache.m_lines idx).m_block_addr := by
  cases stepped with
  | create | access | idle | sent | next_access | flush => exact overDirty.elim
  | @fill mf _ _ _ filled =>
    obtain ⟨onFill, extra, idx, waits, probed, modified⟩ := overDirty
    refine ⟨idx, ⟨modified, ?_⟩, ?_⟩
    · cases filled with
      | @mk extra' _ waits' _ lines =>
        obtain rfl := Option.some.inj (waits.symm.trans waits')
        cases lines with
        | onMiss onMiss => exact absurd (onMiss.symm.trans onFill) (by decide)
        | @onFill idx' block _ probed' isTag _ _ =>
          obtain rfl : idx = idx' := by
            have same := probed.symm.trans probed'
            simpa using same
          cases probe_spec probed with
          | MISS inSet _ absent =>
            intro holds
            rw [Lines.Holds] at holds
            dsimp only at holds
            rw [Function.update_self, isTag] at holds
            exact absent idx inSet (holds.1 ▸ Lines.holds_of_modified modified)
    · rintro ⟨pushed, isPushed, other, member, _⟩
      cases filled with
      | mk _ _ _ =>
        have nothing : pushed = [] := List.self_eq_append_right.mp isPushed
        rw [nothing] at member
        exact absurd member List.not_mem_nil

end

/-! ## Every run -/

/-- In a run of a cache that is not write-through, each modified line that is
    dropped is written by the same operation exactly when no fill replaces a
    modified line. -/
theorem dirtySaved_iff (notThrough : config.m_write_policy ≠ .WRITE_THROUGH) {ops : List Operation}
    (noFlush : .flush ∉ ops) {system : System config}
    (reached : run config cache ops = some system) :
    (∀ before op passed next idx, before ++ [op] <+: ops → run config cache before = some passed →
      run config cache (before ++ [op]) = some next → passed.Drops next idx →
      passed.cache.Writes next.cache (passed.cache.m_lines idx).m_block_addr) ↔
    ∀ before op passed, before ++ [op] <+: ops → run config cache before = some passed →
      ¬ passed.FillsOverDirty op := by
  constructor
  · intro saves before op passed isPrefix reachedBefore overDirty
    obtain ⟨next, reachedNext⟩ := run_prefix isPrefix reached
    obtain ⟨passed', reached', step⟩ := run_concat.mp reachedNext
    obtain rfl := Option.some.inj (reached'.symm.trans reachedBefore)
    obtain ⟨idx, drops, lost⟩ := (System.step_spec step).losesDirty overDirty
    exact lost (saves before op passed' next idx isPrefix reachedBefore reachedNext drops)
  · intro notOver before op passed next idx isPrefix reachedBefore reachedNext drops
    obtain ⟨passed', reached', step⟩ := run_concat.mp reachedNext
    obtain rfl := Option.some.inj (reached'.symm.trans reachedBefore)
    have notFlush : op ≠ .flush := fun isFlush =>
      noFlush (isPrefix.subset (List.mem_append_right _ (isFlush ▸ List.mem_singleton_self _)))
    have saves := (System.step_spec step).savesDirty notThrough notFlush
      (run_distinct reachedBefore) (notOver before op passed' isPrefix reachedBefore)
    exact (saves idx drops.1).resolve_left drops.2

/-- A cache that `init` accepts although its lines get modified. -/
def allocatesOnFill : CacheConfig := .oneSet 1 .LOCAL_WB_GLOBAL_WT .ON_FILL .NO_WRITE_ALLOCATE 2 4

def allocatesOnFill.line : allocatesOnFill.Index := (⟨0, by decide⟩, ⟨0, by decide⟩)

theorem allocatesOnFill_accepted : allocatesOnFill.Accepted :=
  ⟨⟨1, 128, 1, 'L', 'L', 'f', 'N', 'A', 2, 2, 4, 0⟩, fun _ => 0, by rfl⟩

/-- Block 0 is fetched and written by a local access, and block 128 is requested. -/
def writtenLocally : List Operation :=
  [.create ⟨.LOCAL_ACC_R, 0, 32, false, false⟩, .create ⟨.LOCAL_ACC_W, 0, 32, true, false⟩,
    .create ⟨.LOCAL_ACC_R, 128, 32, false, false⟩, .access 0 0, .cycle false, .fill 0 1,
    .access 1 2, .access 2 3, .cycle false]

theorem writtenLocally_runs :
    (run allocatesOnFill .l1_cache (writtenLocally ++ [.fill 2 4])).isSome = true := by
  decide

theorem writtenLocally_reaches :
    (run allocatesOnFill .l1_cache writtenLocally).isSome = true := by
  decide

def dirtySystem : System allocatesOnFill :=
  (run allocatesOnFill .l1_cache writtenLocally).get writtenLocally_reaches

theorem dirtySystem_waits : (dirtySystem.cache.m_extra_mf_fields[2]?).isSome = true := by decide

/-- The last fill replaces the line that has been written. -/
theorem dirtySaved_iff_writtenLocally :
    ¬ ∀ before op passed next idx, before ++ [op] <+: writtenLocally ++ [.fill 2 4] →
      run allocatesOnFill .l1_cache before = some passed →
      run allocatesOnFill .l1_cache (before ++ [op]) = some next → passed.Drops next idx →
      passed.cache.Writes next.cache (passed.cache.m_lines idx).m_block_addr := by
  intro saved
  have never := (dirtySaved_iff (by decide) (by decide)
    (Option.some_get writtenLocally_runs).symm).mp saved
  refine never writtenLocally (.fill 2 4) dirtySystem (List.prefix_refl _)
    (Option.some_get _).symm
    ⟨rfl, _, allocatesOnFill.line, (Option.some_get dirtySystem_waits).symm, ?_, ?_⟩
  all_goals decide

def filledSystem : System allocatesOnFill :=
  (run allocatesOnFill .l1_cache (writtenLocally ++ [.fill 2 4])).get writtenLocally_runs

/-- The fill of block 128 drops the modified block 0. -/
theorem fill_loses_dirty :
    ¬ ∀ config cache ops op system system' idx, config.Accepted →
      config.m_write_policy ≠ .WRITE_THROUGH → config.m_write_policy ≠ .READ_ONLY →
      cache ≠ .read_only_cache → .flush ∉ ops ++ [op] → run config cache ops = some system →
      run config cache (ops ++ [op]) = some system' → system.Drops system' idx →
      system.cache.Writes system'.cache (system.cache.m_lines idx).m_block_addr := by
  intro claim
  have drops : dirtySystem.Drops filledSystem allocatesOnFill.line := by
    refine ⟨by decide, fun holds => absurd holds.1 (by decide)⟩
  obtain ⟨pushed, isPushed, mf, member, _⟩ := claim allocatesOnFill .l1_cache writtenLocally
    (.fill 2 4) dirtySystem filledSystem allocatesOnFill.line allocatesOnFill_accepted (by decide)
    (by decide) (by decide) (by decide) (Option.some_get _).symm (Option.some_get _).symm drops
  have before : dirtySystem.cache.m_miss_queue = [] := by decide
  have after : filledSystem.cache.m_miss_queue = [] := by decide
  rw [before, after, List.nil_append] at isPushed
  rw [← isPushed] at member
  exact absurd member List.not_mem_nil

end AesOnGpu.Cache
