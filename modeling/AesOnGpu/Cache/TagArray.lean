import AesOnGpu.Cache.Config

/-! # The tag array

`tag_array` of `gpu-cache.cc` without its statistics.  `none` is a failed
assertion or an abort.
-/

namespace AesOnGpu.Cache

inductive BlockState where
  | INVALID
  | RESERVED
  | VALID
  | MODIFIED
  deriving DecidableEq

structure CacheBlock where
  m_tag : Address
  m_block_addr : Address
  m_alloc_time : BitVec 32
  m_last_access_time : BitVec 32
  m_fill_time : BitVec 32
  m_status : BlockState
  deriving DecidableEq

/-- The default constructor. -/
def CacheBlock.fresh : CacheBlock := ⟨0, 0, 0, 0, 0, .INVALID⟩

def CacheBlock.allocate (tag block_addr : Address) (time : BitVec 32) : CacheBlock :=
  ⟨tag, block_addr, time, time, 0, .RESERVED⟩

def CacheBlock.fill (block : CacheBlock) (time : BitVec 32) : Option CacheBlock :=
  if block.m_status = .RESERVED then some { block with m_status := .VALID, m_fill_time := time }
  else none

abbrev Lines (config : CacheConfig) := config.Index → CacheBlock

/-- `cache_request_status` with the index that a probe leaves in `idx`. -/
inductive ProbeResult (config : CacheConfig) where
  | HIT (idx : config.Index)
  | HIT_RESERVED (idx : config.Index)
  | MISS (idx : config.Index)
  | RESERVATION_FAIL
  deriving DecidableEq

variable {config : CacheConfig}

/-! ## Probing -/

/-- The variables of the loop over the ways of a set. -/
structure ProbeLoop (config : CacheConfig) where
  invalid_line : Option config.Index
  valid_line : Option config.Index
  valid_timestamp : BitVec 32
  all_reserved : Bool

def probeWay (m_lines : Lines config) (tag : Address) (loop : ProbeLoop config)
    (index : config.Index) : Except (ProbeResult config) (ProbeLoop config) :=
  let line := m_lines index
  if line.m_tag = tag ∧ line.m_status = .RESERVED then throw (.HIT_RESERVED index)
  else if line.m_tag = tag ∧ (line.m_status = .VALID ∨ line.m_status = .MODIFIED) then
    throw (.HIT index)
  else if line.m_status = .RESERVED then return loop
  else if line.m_status = .INVALID then
    return { loop with all_reserved := false, invalid_line := some index }
  else
    let timestamp := match config.m_replacement_policy with
      | .LRU => line.m_last_access_time
      | .FIFO => line.m_alloc_time
    if timestamp < loop.valid_timestamp then
      return { loop with
        all_reserved := false, valid_timestamp := timestamp, valid_line := some index }
    else return { loop with all_reserved := false }

def CacheConfig.ways (config : CacheConfig) (set_index : Fin config.m_nset) : List config.Index :=
  (List.finRange config.m_assoc).map fun way => (set_index, way)

def probe (m_lines : Lines config) (addr : Address) : Option (ProbeResult config) :=
  match (config.ways (config.set_index addr)).foldlM (probeWay m_lines (config.tag addr))
      ⟨none, none, 0xFFFFFFFF#32, true⟩ with
  | .error result => some result
  | .ok loop =>
    if loop.all_reserved then
      if config.m_alloc_policy = .ON_MISS then some .RESERVATION_FAIL else none
    else match loop.invalid_line, loop.valid_line with
      | some idx, _ => some (.MISS idx)
      | none, some idx => some (.MISS idx)
      | none, none => none

/-! ## Accesses and fills -/

structure TagAccess (config : CacheConfig) where
  result : ProbeResult config
  m_lines : Lines config
  /-- The block to be written back, when `wb` has been set. -/
  evicted : Option CacheBlock

def tagAccess (m_lines : Lines config) (addr : Address) (time : BitVec 32) :
    Option (TagAccess config) := do
  let result ← probe m_lines addr
  match result with
  | .HIT_RESERVED idx | .HIT idx =>
    return ⟨result, Function.update m_lines idx { m_lines idx with m_last_access_time := time }, none⟩
  | .MISS idx =>
    if config.m_alloc_policy = .ON_MISS then
      let evicted := if (m_lines idx).m_status = .MODIFIED then some (m_lines idx) else none
      let block := CacheBlock.allocate (config.tag addr) (config.blockAddr addr) time
      return ⟨result, Function.update m_lines idx block, evicted⟩
    else return ⟨result, m_lines, none⟩
  | .RESERVATION_FAIL => return ⟨result, m_lines, none⟩

/-- The access that asserts that nothing is to be written back. -/
def tagAccessClean (m_lines : Lines config) (addr : Address) (time : BitVec 32) :
    Option (TagAccess config) := do
  let access ← tagAccess m_lines addr time
  if access.evicted.isSome then none
  return access

def fillAddr (m_lines : Lines config) (addr : Address) (time : BitVec 32) : Option (Lines config) := do
  if config.m_alloc_policy ≠ .ON_FILL then none
  match ← probe m_lines addr with
  | .MISS idx =>
    let block ← (CacheBlock.allocate (config.tag addr) (config.blockAddr addr) time).fill time
    return Function.update m_lines idx block
  | _ => none

def fillIndex (m_lines : Lines config) (index : config.Index) (time : BitVec 32) :
    Option (Lines config) := do
  if config.m_alloc_policy ≠ .ON_MISS then none
  let block ← (m_lines index).fill time
  return Function.update m_lines index block

def flush (m_lines : Lines config) : Lines config :=
  fun index => { m_lines index with m_status := .INVALID }

/-! ## What a probe finds -/

def Lines.Holds (m_lines : Lines config) (idx : config.Index) (tag : Address) : Prop :=
  (m_lines idx).m_tag = tag ∧ (m_lines idx).m_status ≠ .INVALID

inductive ProbeSpec (m_lines : Lines config) (addr : Address) : ProbeResult config → Prop where
  | HIT {idx : config.Index} : idx.1 = config.set_index addr →
      (m_lines idx).m_tag = config.tag addr →
      (m_lines idx).m_status = .VALID ∨ (m_lines idx).m_status = .MODIFIED →
      ProbeSpec m_lines addr (.HIT idx)
  | HIT_RESERVED {idx : config.Index} : idx.1 = config.set_index addr →
      (m_lines idx).m_tag = config.tag addr → (m_lines idx).m_status = .RESERVED →
      ProbeSpec m_lines addr (.HIT_RESERVED idx)
  | MISS {idx : config.Index} : idx.1 = config.set_index addr →
      (m_lines idx).m_status ≠ .RESERVED →
      (∀ other : config.Index, other.1 = config.set_index addr →
        ¬ m_lines.Holds other (config.tag addr)) →
      ProbeSpec m_lines addr (.MISS idx)
  | RESERVATION_FAIL : config.m_alloc_policy = .ON_MISS →
      (∀ other : config.Index, other.1 = config.set_index addr →
        (m_lines other).m_status = .RESERVED ∧ ¬ m_lines.Holds other (config.tag addr)) →
      ProbeSpec m_lines addr .RESERVATION_FAIL

structure ProbeLoop.Visited (m_lines : Lines config) (tag : Address) (ways : List config.Index)
    (loop : ProbeLoop config) : Prop where
  absent : ∀ idx ∈ ways, ¬ m_lines.Holds idx tag
  invalid : ∀ idx, loop.invalid_line = some idx → idx ∈ ways ∧ (m_lines idx).m_status = .INVALID
  valid : ∀ idx, loop.valid_line = some idx → idx ∈ ways ∧ (m_lines idx).m_status ≠ .RESERVED
  reserved : loop.all_reserved = true → ∀ idx ∈ ways, (m_lines idx).m_status = .RESERVED

theorem probeWay_spec {m_lines : Lines config} {tag : Address} {ways : List config.Index}
    {loop : ProbeLoop config} (visited : loop.Visited m_lines tag ways) (idx : config.Index) :
    (∃ loop', probeWay m_lines tag loop idx = .ok loop' ∧
      loop'.Visited m_lines tag (ways ++ [idx])) ∨
    (probeWay m_lines tag loop idx = .error (.HIT_RESERVED idx) ∧ (m_lines idx).m_tag = tag ∧
      (m_lines idx).m_status = .RESERVED) ∨
    (probeWay m_lines tag loop idx = .error (.HIT idx) ∧ (m_lines idx).m_tag = tag ∧
      ((m_lines idx).m_status = .VALID ∨ (m_lines idx).m_status = .MODIFIED)) := by
  by_cases isReserved : (m_lines idx).m_tag = tag ∧ (m_lines idx).m_status = .RESERVED
  · exact Or.inr (Or.inl ⟨by simp [probeWay, isReserved]; rfl, isReserved⟩)
  by_cases isHit : (m_lines idx).m_tag = tag ∧
      ((m_lines idx).m_status = .VALID ∨ (m_lines idx).m_status = .MODIFIED)
  · refine Or.inr (Or.inr ⟨?_, isHit⟩)
    rw [probeWay, if_neg isReserved, if_pos isHit]
    rfl
  -- the block is not in this way
  left
  have absent : ∀ other ∈ ways ++ [idx], ¬ m_lines.Holds other tag := by
    intro other member holds
    cases List.mem_append.mp member with
    | inl before => exact visited.absent other before holds
    | inr here =>
      obtain rfl := List.mem_singleton.mp here
      cases status : (m_lines other).m_status with
      | INVALID => exact holds.2 status
      | RESERVED => exact isReserved ⟨holds.1, status⟩
      | VALID => exact isHit ⟨holds.1, Or.inl status⟩
      | MODIFIED => exact isHit ⟨holds.1, Or.inr status⟩
  have invalid : ∀ other, loop.invalid_line = some other →
      other ∈ ways ++ [idx] ∧ (m_lines other).m_status = .INVALID := fun other found =>
    ⟨List.mem_append_left _ (visited.invalid other found).1, (visited.invalid other found).2⟩
  have valid : ∀ other, loop.valid_line = some other →
      other ∈ ways ++ [idx] ∧ (m_lines other).m_status ≠ .RESERVED := fun other found =>
    ⟨List.mem_append_left _ (visited.valid other found).1, (visited.valid other found).2⟩
  have here : idx ∈ ways ++ [idx] := List.mem_append_right _ (List.mem_singleton_self idx)
  rw [probeWay, if_neg isReserved, if_neg isHit]
  by_cases reserved : (m_lines idx).m_status = .RESERVED
  · rw [if_pos reserved]
    refine ⟨loop, rfl, absent, invalid, valid, fun all other member => ?_⟩
    cases List.mem_append.mp member with
    | inl before => exact visited.reserved all other before
    | inr isHere => exact List.mem_singleton.mp isHere ▸ reserved
  rw [if_neg reserved]
  by_cases isInvalid : (m_lines idx).m_status = .INVALID
  · rw [if_pos isInvalid]
    refine ⟨_, rfl, absent, fun other found => ?_, valid, fun all => absurd all Bool.false_ne_true⟩
    obtain rfl := Option.some.inj found
    exact ⟨here, isInvalid⟩
  rw [if_neg isInvalid]
  split
  all_goals
    dsimp only
    split
    · refine ⟨_, rfl, absent, invalid, fun other found => ?_, fun all => absurd all Bool.false_ne_true⟩
      obtain rfl := Option.some.inj found
      exact ⟨here, reserved⟩
    · exact ⟨_, rfl, absent, invalid, valid, fun all => absurd all Bool.false_ne_true⟩

theorem probeWays_spec {m_lines : Lines config} {tag : Address} (ways : List config.Index)
    {before : List config.Index} {loop : ProbeLoop config}
    (visited : loop.Visited m_lines tag before) :
    (∃ loop', ways.foldlM (probeWay m_lines tag) loop = .ok loop' ∧
      loop'.Visited m_lines tag (before ++ ways)) ∨
    (∃ idx ∈ ways, ways.foldlM (probeWay m_lines tag) loop = .error (.HIT_RESERVED idx) ∧
      (m_lines idx).m_tag = tag ∧ (m_lines idx).m_status = .RESERVED) ∨
    (∃ idx ∈ ways, ways.foldlM (probeWay m_lines tag) loop = .error (.HIT idx) ∧
      (m_lines idx).m_tag = tag ∧
      ((m_lines idx).m_status = .VALID ∨ (m_lines idx).m_status = .MODIFIED)) := by
  induction ways generalizing before loop with
  | nil => exact Or.inl ⟨loop, rfl, by simpa using visited⟩
  | cons idx ways ih =>
    rw [List.foldlM_cons]
    rcases probeWay_spec visited idx with ⟨loop', turn, visited'⟩ | ⟨turn, found⟩ | ⟨turn, found⟩
    · rw [turn]
      rcases ih visited' with ⟨loop'', run, done⟩ | ⟨other, member, run⟩ |
        ⟨other, member, run⟩
      · exact Or.inl ⟨loop'', run, by simpa using done⟩
      · exact Or.inr (Or.inl ⟨other, List.mem_cons_of_mem idx member, run⟩)
      · exact Or.inr (Or.inr ⟨other, List.mem_cons_of_mem idx member, run⟩)
    · rw [turn]
      exact Or.inr (Or.inl ⟨idx, List.mem_cons_self, rfl, found⟩)
    · rw [turn]
      exact Or.inr (Or.inr ⟨idx, List.mem_cons_self, rfl, found⟩)

theorem mem_ways {set_index : Fin config.m_nset} {idx : config.Index} :
    idx ∈ config.ways set_index ↔ idx.1 = set_index := by
  obtain ⟨set, way⟩ := idx
  simp [CacheConfig.ways, eq_comm]

theorem probe_spec {m_lines : Lines config} {addr : Address} {result : ProbeResult config}
    (run : probe m_lines addr = some result) : ProbeSpec m_lines addr result := by
  have start : (⟨none, none, 0xFFFFFFFF#32, true⟩ : ProbeLoop config).Visited m_lines
      (config.tag addr) [] :=
    ⟨by simp, by simp, by simp, by simp⟩
  rw [probe] at run
  rcases probeWays_spec (config.ways (config.set_index addr)) start with ⟨loop, turns, visited⟩ |
    ⟨idx, member, turns, found⟩ | ⟨idx, member, turns, found⟩
  · rw [turns] at run
    rw [List.nil_append] at visited
    have absent (other : config.Index) (inSet : other.1 = config.set_index addr) :=
      visited.absent other (mem_ways.mpr inSet)
    dsimp only at run
    split at run
    · rename_i all
      split at run
      · rename_i onMiss
        obtain rfl := Option.some.inj run
        exact .RESERVATION_FAIL onMiss fun other inSet =>
          ⟨visited.reserved all other (mem_ways.mpr inSet), absent other inSet⟩
      · exact absurd run (by simp)
    · split at run
      · rename_i _ _ idx found
        obtain rfl := Option.some.inj run
        obtain ⟨member, isInvalid⟩ := visited.invalid idx found
        exact .MISS (mem_ways.mp member) (by rw [isInvalid]; decide) absent
      · rename_i _ _ idx _ found
        obtain rfl := Option.some.inj run
        obtain ⟨member, notReserved⟩ := visited.valid idx found
        exact .MISS (mem_ways.mp member) notReserved absent
      · exact absurd run (by simp)
  · rw [turns] at run
    obtain rfl := Option.some.inj run
    exact .HIT_RESERVED (mem_ways.mp member) found.1 found.2
  · rw [turns] at run
    obtain rfl := Option.some.inj run
    exact .HIT (mem_ways.mp member) found.1 found.2

end AesOnGpu.Cache
