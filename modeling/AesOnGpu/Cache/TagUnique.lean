import AesOnGpu.Cache.Outstanding

/-! # Tags are unique

A line gets a tag when the block is in no line of its set, and it keeps the tag
until it is replaced.  So two lines never hold the same block.
-/

namespace AesOnGpu.Cache

variable {config : CacheConfig}

/-! ## The lines -/

inductive LinesStep (m_lines : Lines config) : Lines config → Prop
  | keep : LinesStep m_lines m_lines
  | touch {idx : config.Index} {block : CacheBlock} : block.m_tag = (m_lines idx).m_tag →
      block.m_block_addr = (m_lines idx).m_block_addr →
      ((m_lines idx).m_status = .INVALID → block.m_status = .INVALID) →
      LinesStep m_lines (Function.update m_lines idx block)
  | allocate {idx : config.Index} {addr : Address} {block : CacheBlock} :
      probe m_lines addr = some (.MISS idx) → block.m_tag = addr → block.m_block_addr = addr →
      config.blockAddr addr = addr →
      LinesStep m_lines (Function.update m_lines idx block)
  | flush : LinesStep m_lines (Cache.flush m_lines)

structure Lines.Distinct (m_lines : Lines config) : Prop where
  isBlock : ∀ idx tag, m_lines.Holds idx tag →
    (m_lines idx).m_block_addr = tag ∧ config.blockAddr tag = tag
  inSet : ∀ idx tag, m_lines.Holds idx tag → idx.1 = config.set_index tag
  unique : ∀ idx other tag, m_lines.Holds idx tag → m_lines.Holds other tag → idx = other

theorem LinesStep.distinct {m_lines m_lines' : Lines config} (step : LinesStep m_lines m_lines')
    (distinct : m_lines.Distinct) : m_lines'.Distinct := by
  cases step with
  | keep => exact distinct
  | @touch idx block sameTag sameBlock stays =>
    -- whatever is held afterwards was held before
    have before {other : config.Index} {tag : Address}
        (holds : Lines.Holds (Function.update m_lines idx block) other tag) :
        m_lines.Holds other tag ∧
          (Function.update m_lines idx block other).m_block_addr = (m_lines other).m_block_addr := by
      rw [Lines.Holds, Function.update_apply] at holds
      rw [Function.update_apply]
      split at holds
      · rename_i isIdx
        rw [if_pos isIdx, isIdx]
        exact ⟨⟨sameTag ▸ holds.1, fun isInvalid => holds.2 (stays isInvalid)⟩, sameBlock⟩
      · rename_i notIdx
        rw [if_neg notIdx]
        exact ⟨holds, rfl⟩
    constructor
    · intro other tag holds
      rw [(before holds).2]
      exact distinct.isBlock other tag (before holds).1
    · exact fun other tag holds => distinct.inSet other tag (before holds).1
    · exact fun one other tag first second =>
        distinct.unique one other tag (before first).1 (before second).1
  | @allocate idx addr block probed isTag isAddr isBlock =>
    cases probe_spec probed with
    | MISS inSet _ absent =>
      rw [show config.tag addr = addr from isBlock] at absent
      have before {other : config.Index} {tag : Address}
          (holds : Lines.Holds (Function.update m_lines idx block) other tag) :
          (other = idx ∧ tag = addr) ∨ (other ≠ idx ∧ tag ≠ addr ∧ m_lines.Holds other tag) := by
        rw [Lines.Holds, Function.update_apply] at holds
        split at holds
        · rename_i isIdx
          exact Or.inl ⟨isIdx, by rw [← holds.1, isTag]⟩
        · rename_i notIdx
          refine Or.inr ⟨notIdx, fun same => ?_, holds⟩
          exact absent other (same ▸ distinct.inSet other tag holds) (same ▸ holds)
      constructor
      · intro other tag holds
        cases before holds with
        | inl new =>
          rw [new.1, new.2, Function.update_self]
          exact ⟨isAddr, isBlock⟩
        | inr old =>
          rw [Function.update_of_ne old.1]
          exact distinct.isBlock other tag old.2.2
      · intro other tag holds
        cases before holds with
        | inl new => rw [new.1, new.2, inSet]
        | inr old => exact distinct.inSet other tag old.2.2
      · intro one other tag first second
        cases before first with
        | inl new =>
          cases before second with
          | inl new' => rw [new.1, new'.1]
          | inr old' => exact absurd new.2 old'.2.1
        | inr old =>
          cases before second with
          | inl new' => exact absurd new'.2 old.2.1
          | inr old' => exact distinct.unique one other tag old.2.2 old'.2.2
  | flush =>
    exact ⟨fun _ _ holds => absurd rfl holds.2, fun _ _ holds => absurd rfl holds.2,
      fun _ _ _ holds => absurd rfl holds.2⟩

theorem Lines.distinct_initial : Lines.Distinct (System.initial config).cache.m_lines :=
  ⟨fun _ _ holds => absurd rfl holds.2, fun _ _ holds => absurd rfl holds.2,
    fun _ _ _ holds => absurd rfl holds.2⟩

/-! ## Operations -/

section

variable {cache : CacheClass}

theorem Missed.lines {state state' : CacheState config} {block_addr : Address} {reader : Uid}
    {time : BitVec 32} (missed : Missed cache state block_addr reader time state') :
    ∃ idx access, (access.result = .HIT_RESERVED idx ∨ access.result = .MISS idx) ∧
      tagAccess state.m_lines block_addr time = some access ∧
      state'.m_lines = access.m_lines := by
  cases missed with
  | merged result touch _ _ _ => exact ⟨_, _, result, touch, by rw [writtenBack_m_lines]⟩
  | sent result touch _ _ _ => exact ⟨_, _, result, touch, by rw [writtenBack_m_lines]⟩

theorem Missed.linesStep {state state' : CacheState config} {block_addr : Address} {reader : Uid}
    {time : BitVec 32} (isBlock : config.blockAddr block_addr = block_addr)
    (missed : Missed cache state block_addr reader time state') :
    LinesStep state.m_lines state'.m_lines := by
  obtain ⟨idx, access, result, touch, lines⟩ := missed.lines
  rw [lines]
  cases result with
  | inl reserved =>
    rw [(tagAccess_reserved touch reserved).1]
    exact .touch rfl rfl id
  | inr miss =>
    cases policy : config.m_alloc_policy with
    | ON_MISS =>
      rw [(tagAccess_miss policy touch miss).1]
      exact .allocate (miss ▸ tagAccess_result touch) isBlock isBlock isBlock
    | ON_FILL =>
      rw [(tagAccess_miss_onFill policy touch miss).1]
      exact .keep

theorem Accessed.linesStep {effect effect' : Effect config} {addr : Address} {mf : Uid}
    {time : BitVec 32} {status : RequestStatus}
    (accessed : Accessed cache effect addr mf time status effect') :
    LinesStep effect.state.m_lines effect'.state.m_lines := by
  -- a line that is hit is not INVALID
  have hit {idx : config.Index}
      (probed : probe effect.state.m_lines (config.blockAddr addr) = some (.HIT idx)) :
      (effect.state.m_lines idx).m_status ≠ .INVALID := by
    intro isInvalid
    cases probe_spec probed with
    | HIT _ _ status => cases status <;> simp_all
  cases accessed with
  | refused _ => exact .keep
  | hit probed sameTag sameBlock _ =>
    exact .touch sameTag sameBlock fun isInvalid => absurd isInvalid (hit probed)
  | hitSent _ probed sameTag sameBlock _ =>
    exact .touch sameTag sameBlock fun isInvalid => absurd isInvalid (hit probed)
  | written _ _ => exact .keep
  | read _ _ missed => exact missed.linesStep (config.blockAddr_blockAddr addr)
  | allocated _ _ _ missed =>
    have step := missed.linesStep (config.blockAddr_blockAddr addr)
    exact step

theorem LineFilled.linesStep {m_lines m_lines' : Lines config} {extra : ExtraMfFields config}
    (isBlock : config.blockAddr extra.m_block_addr = extra.m_block_addr)
    (filled : LineFilled m_lines extra m_lines') : LinesStep m_lines m_lines' := by
  cases filled with
  | onMiss _ reserved sameTag sameBlock _ =>
    exact .touch sameTag sameBlock fun isInvalid =>
      absurd (reserved.symm.trans isInvalid) (by decide)
  | onFill _ probed isTag isAddr _ =>
    exact .allocate probed (isTag.trans isBlock) (isAddr.trans isBlock) isBlock

theorem Stepped.linesStep {system system' : System config} {op : Operation}
    (stepped : Stepped cache system op system') (outstanding : system.Outstanding) :
    LinesStep system.cache.m_lines system'.cache.m_lines := by
  cases stepped with
  | create | idle | sent | next_access => exact .keep
  | access _ _ _ accessed => exact (access_spec accessed).linesStep
  | fill _ filled =>
    cases filled with
    | mk waits _ lines => exact lines.linesStep (outstanding.isBlock _ _ waits)
  | flush => exact .flush

/-! ## Every run -/

theorem run_distinct {ops : List Operation} {system : System config}
    (reached : run config cache ops = some system) : system.cache.m_lines.Distinct :=
  (run_keeps (fun system => system.Outstanding ∧ system.cache.m_lines.Distinct)
    ⟨System.outstanding_initial, Lines.distinct_initial⟩
    (fun _ _ _ stepped holds =>
      ⟨stepped.outstanding holds.1, (stepped.linesStep holds.1).distinct holds.2⟩) reached).2

/-- No two lines that are not INVALID have the same tag. -/
theorem tags_unique {ops : List Operation} {system : System config}
    (reached : run config cache ops = some system) (tag : Address) :
    {idx | system.cache.m_lines.Holds idx tag}.Subsingleton :=
  fun idx first other second => (run_distinct reached).unique idx other tag first second

/-- Two blocks in a cache with two ways. -/
theorem tags_unique_two_ways : {idx |
    ((run (.oneSet 2 .WRITE_BACK .ON_MISS .WRITE_ALLOCATE 2 4) .l1_cache
      [.create ⟨.GLOBAL_ACC_R, 0, 32, false, false⟩, .create ⟨.GLOBAL_ACC_W, 128, 32, true, false⟩,
        .access 0 0, .access 1 1, .cycle false, .fill 0 2]).get (by decide)
      ).cache.m_lines.Holds idx 0}.Subsingleton :=
  tags_unique (Option.some_get _).symm 0

end

end AesOnGpu.Cache
