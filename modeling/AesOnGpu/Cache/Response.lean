import AesOnGpu.Cache.Outcome

/-! # What a response can do

Inversion lemmas for `fill` and for the lines that an access changes.
-/

namespace AesOnGpu.Cache

variable {config : CacheConfig}

/-! ## Lines touched by an access -/

section

variable {m_lines : Lines config} {addr : Address} {time : BitVec 32} {idx : config.Index}
  {access : TagAccess config}

theorem tagAccess_reserved (run : tagAccess m_lines addr time = some access)
    (result : access.result = .HIT_RESERVED idx) :
    access.m_lines = Function.update m_lines idx { m_lines idx with m_last_access_time := time } ∧
      access.evicted = none := by
  have probed := tagAccess_result run
  rw [result] at probed
  simp only [tagAccess, probed, Option.bind_eq_bind, Option.bind_some, Option.pure_def,
    Option.some.injEq] at run
  subst run
  exact ⟨rfl, rfl⟩

theorem tagAccess_miss (onMiss : config.m_alloc_policy = .ON_MISS)
    (run : tagAccess m_lines addr time = some access) (result : access.result = .MISS idx) :
    access.m_lines = Function.update m_lines idx
        (.allocate (config.tag addr) (config.blockAddr addr) time) ∧
      access.evicted = if (m_lines idx).m_status = .MODIFIED then some (m_lines idx) else none := by
  have probed := tagAccess_result run
  rw [result] at probed
  simp only [tagAccess, probed, onMiss, Option.bind_eq_bind, Option.bind_some, Option.pure_def,
    if_true, Option.some.injEq] at run
  subst run
  exact ⟨rfl, rfl⟩

theorem tagAccess_miss_onFill (onFill : config.m_alloc_policy = .ON_FILL)
    (run : tagAccess m_lines addr time = some access) (result : access.result = .MISS idx) :
    access.m_lines = m_lines ∧ access.evicted = none := by
  have probed := tagAccess_result run
  rw [result] at probed
  simp only [tagAccess, probed, onFill, Option.bind_eq_bind, Option.bind_some, Option.pure_def,
    reduceCtorEq, if_false, Option.some.injEq] at run
  subst run
  exact ⟨rfl, rfl⟩

end

section

variable (cache : CacheClass) (state : CacheState config) (evicted : Option CacheBlock)

@[simp] theorem writtenBack_m_lines : (writtenBack cache state evicted).m_lines = state.m_lines := by
  cases evicted with
  | none => rfl
  | some block =>
    rw [writtenBack]
    split <;> rfl

@[simp] theorem writtenBack_m_mshrs : (writtenBack cache state evicted).m_mshrs = state.m_mshrs := by
  cases evicted with
  | none => rfl
  | some block =>
    rw [writtenBack]
    split <;> rfl

@[simp] theorem writtenBack_m_extra_mf_fields :
    (writtenBack cache state evicted).m_extra_mf_fields = state.m_extra_mf_fields := by
  cases evicted with
  | none => rfl
  | some block =>
    rw [writtenBack]
    split <;> rfl

theorem writtenBack_m_miss_queue :
    ((writtenBack cache state evicted).m_miss_queue = state.m_miss_queue ∧
      (writtenBack cache state evicted).heap = state.heap) ∨
    ((writtenBack cache state evicted).m_miss_queue = state.m_miss_queue ++ [state.heap.next] ∧
      (writtenBack cache state evicted).heap.next = state.heap.next + 1) := by
  cases evicted with
  | none => exact Or.inl ⟨rfl, rfl⟩
  | some block =>
    rw [writtenBack]
    split
    · exact Or.inr ⟨rfl, rfl⟩
    · exact Or.inl ⟨rfl, rfl⟩

end

/-! ## Fills -/

inductive LineFilled (m_lines : Lines config) (extra : ExtraMfFields config) : Lines config → Prop
  | onMiss {block : CacheBlock} : config.m_alloc_policy = .ON_MISS →
      (m_lines extra.m_cache_index).m_status = .RESERVED →
      block.m_tag = (m_lines extra.m_cache_index).m_tag →
      block.m_block_addr = (m_lines extra.m_cache_index).m_block_addr →
      block.m_status = .VALID ∨ block.m_status = .MODIFIED →
      LineFilled m_lines extra (Function.update m_lines extra.m_cache_index block)
  | onFill {idx : config.Index} {block : CacheBlock} : config.m_alloc_policy = .ON_FILL →
      probe m_lines extra.m_block_addr = some (.MISS idx) →
      block.m_tag = config.tag extra.m_block_addr →
      block.m_block_addr = config.blockAddr extra.m_block_addr →
      block.m_status = .VALID →
      LineFilled m_lines extra (Function.update m_lines idx block)

inductive Filled (state : CacheState config) (mf : Uid) : CacheState config → Prop
  | mk {extra : ExtraMfFields config} {m_lines : Lines config} :
      state.m_extra_mf_fields[mf]? = some extra →
      state.m_mshrs.probe extra.m_block_addr = true →
      LineFilled state.m_lines extra m_lines →
      Filled state mf
        { m_lines
          m_mshrs := ⟨state.m_mshrs.m_data,
            state.m_mshrs.m_current_response ++ [extra.m_block_addr]⟩
          m_miss_queue := state.m_miss_queue
          m_extra_mf_fields := state.m_extra_mf_fields.erase mf
          heap := state.heap.setDataSize mf extra.m_data_size }

theorem fillIndex_some {m_lines m_lines' : Lines config} {idx : config.Index} {time : BitVec 32}
    (run : fillIndex m_lines idx time = some m_lines') :
    config.m_alloc_policy = .ON_MISS ∧ (m_lines idx).m_status = .RESERVED ∧
      m_lines' = Function.update m_lines idx
        { m_lines idx with m_status := .VALID, m_fill_time := time } := by
  by_cases onFill : config.m_alloc_policy ≠ .ON_MISS
  · simp [fillIndex, onFill] at run
  by_cases reserved : (m_lines idx).m_status = .RESERVED
  · simp [fillIndex, onFill, CacheBlock.fill, reserved] at run
    exact ⟨not_not.mp onFill, reserved, run.symm⟩
  · simp [fillIndex, onFill, CacheBlock.fill, reserved] at run

theorem fillAddr_some {m_lines m_lines' : Lines config} {addr : Address} {time : BitVec 32}
    (run : fillAddr m_lines addr time = some m_lines') :
    config.m_alloc_policy = .ON_FILL ∧ ∃ idx, probe m_lines addr = some (.MISS idx) ∧
      m_lines' = Function.update m_lines idx { CacheBlock.allocate (config.tag addr)
        (config.blockAddr addr) time with m_status := .VALID, m_fill_time := time } := by
  by_cases onMiss : config.m_alloc_policy ≠ .ON_FILL
  · simp [fillAddr, onMiss] at run
  rw [fillAddr, if_neg onMiss] at run
  obtain ⟨probed, found, run⟩ := Option.bind_eq_some_iff.mp run
  cases probed with
  | MISS idx =>
    simp [CacheBlock.fill, CacheBlock.allocate] at run
    exact ⟨not_not.mp onMiss, idx, found, run.symm⟩
  | HIT idx | HIT_RESERVED idx | RESERVATION_FAIL => exact absurd run (by simp)

theorem fill_spec {state state' : CacheState config} {mf : Uid} {time : BitVec 32}
    (run : fill state mf time = some state') : Filled state mf state' := by
  rw [fill] at run
  obtain ⟨extra, waits, run⟩ := Option.bind_eq_some_iff.mp run
  cases policy : config.m_alloc_policy with
  | ON_MISS =>
    simp only [policy] at run
    obtain ⟨m_lines, lines, run⟩ := Option.bind_eq_some_iff.mp run
    obtain ⟨⟨m_mshrs, has_atomic⟩, ready, run⟩ := Option.bind_eq_some_iff.mp run
    obtain ⟨isEntry, rfl⟩ := MshrTable.markReady_some ready
    obtain ⟨onMiss, reserved, rfl⟩ := fillIndex_some lines
    cases has_atomic with
    | true =>
      simp only [if_true, Function.update_self, Function.update_idem] at run
      obtain rfl := Option.some.inj run
      exact .mk waits isEntry (.onMiss onMiss reserved rfl rfl (Or.inr rfl))
    | false =>
      obtain rfl := Option.some.inj run
      exact .mk waits isEntry (.onMiss onMiss reserved rfl rfl (Or.inl rfl))
  | ON_FILL =>
    simp only [policy] at run
    obtain ⟨m_lines, lines, run⟩ := Option.bind_eq_some_iff.mp run
    obtain ⟨⟨m_mshrs, has_atomic⟩, ready, run⟩ := Option.bind_eq_some_iff.mp run
    obtain ⟨isEntry, rfl⟩ := MshrTable.markReady_some ready
    obtain ⟨onFill, idx, probed, rfl⟩ := fillAddr_some lines
    cases has_atomic with
    | true => simp at run
    | false =>
      obtain rfl := Option.some.inj run
      exact .mk waits isEntry (.onFill onFill probed rfl rfl rfl)

end AesOnGpu.Cache
