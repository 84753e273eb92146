import AesOnGpu.Cache.Config

/-! # Miss status holding registers

`mshr_table` of `gpu-cache.cc`.  The hash map is an ordered map here; its order
is not observed.  A `mem_fetch` is referred to by its `Uid`.  `Valid` is the
invariant of a table under which none of its assertions fails.
-/

namespace AesOnGpu.Cache

/-- A pointer to a `mem_fetch`. -/
abbrev Uid := Nat

structure MshrEntry where
  m_list : List Uid
  m_has_atomic : Bool

structure MshrTable where
  m_data : Std.TreeMap Address MshrEntry
  m_current_response : List Address

namespace MshrTable

def empty : MshrTable := ⟨∅, []⟩

def probe (mshrs : MshrTable) (block_addr : Address) : Bool :=
  mshrs.m_data.contains block_addr

def full (config : CacheConfig) (mshrs : MshrTable) (block_addr : Address) : Bool :=
  match mshrs.m_data[block_addr]? with
  | some entry => entry.m_list.length ≥ config.m_mshr_max_merge
  | none => mshrs.m_data.size ≥ config.m_mshr_entries

def add (config : CacheConfig) (mshrs : MshrTable) (block_addr : Address) (mf : Uid)
    (isatomic : Bool) : Option MshrTable :=
  let old := mshrs.m_data[block_addr]?.getD ⟨[], false⟩
  let entry : MshrEntry := ⟨old.m_list ++ [mf], old.m_has_atomic || isatomic⟩
  let m_data := mshrs.m_data.insert block_addr entry
  if m_data.size ≤ config.m_mshr_entries ∧ entry.m_list.length ≤ config.m_mshr_max_merge then
    some { mshrs with m_data }
  else none

def markReady (mshrs : MshrTable) (block_addr : Address) : Option (MshrTable × Bool) := do
  let entry ← mshrs.m_data[block_addr]?
  let m_current_response := mshrs.m_current_response ++ [block_addr]
  if m_current_response.length ≤ mshrs.m_data.size then
    return ({ mshrs with m_current_response }, entry.m_has_atomic)
  else none

def accessReady (mshrs : MshrTable) : Bool := !mshrs.m_current_response.isEmpty

def nextAccess (mshrs : MshrTable) : Option (MshrTable × Uid) :=
  match mshrs.m_current_response with
  | [] => none
  | block_addr :: later =>
    match mshrs.m_data[block_addr]? with
    | some ⟨result :: rest, m_has_atomic⟩ =>
      if rest.isEmpty then some (⟨mshrs.m_data.erase block_addr, later⟩, result)
      else some (⟨mshrs.m_data.insert block_addr ⟨rest, m_has_atomic⟩, block_addr :: later⟩, result)
    | _ => none

/-! ## The readers of a block -/

/-- The requests that wait for a block, in the order in which they came. -/
def readers (mshrs : MshrTable) (block_addr : Address) : List Uid :=
  match mshrs.m_data[block_addr]? with
  | some entry => entry.m_list
  | none => []

/-- Each entry has readers, the ready entries are different ones, and the limits
    are kept. -/
structure Valid (config : CacheConfig) (mshrs : MshrTable) : Prop where
  nonempty : ∀ block_addr, mshrs.probe block_addr = true → mshrs.readers block_addr ≠ []
  ready : ∀ block_addr ∈ mshrs.m_current_response, mshrs.probe block_addr = true
  distinct : mshrs.m_current_response.Nodup
  entries : mshrs.m_data.size ≤ config.m_mshr_entries
  merged : ∀ block_addr, (mshrs.readers block_addr).length ≤ config.m_mshr_max_merge

section

variable {config : CacheConfig} {mshrs mshrs' : MshrTable} {block_addr : Address} {mf : Uid}

theorem probe_eq_isSome : mshrs.probe block_addr = mshrs.m_data[block_addr]?.isSome := by
  rw [probe, Std.TreeMap.contains_eq_isSome_getElem?]

theorem probe_of_readers (isReader : mshrs.readers block_addr ≠ []) :
    mshrs.probe block_addr = true := by
  rw [probe_eq_isSome]
  rw [readers] at isReader
  split at isReader
  · rename_i found
    rw [found, Option.isSome_some]
  · exact absurd rfl isReader

theorem readers_of_not_probe (absent : mshrs.probe block_addr = false) :
    mshrs.readers block_addr = [] := by
  by_contra isReader
  exact Bool.false_ne_true (absent.symm.trans (probe_of_readers isReader))

theorem readers_insert (mshrs : MshrTable) {m_current_response : List Address} {entry : MshrEntry} :
    (⟨mshrs.m_data.insert block_addr entry, m_current_response⟩ : MshrTable).readers =
      Function.update mshrs.readers block_addr entry.m_list := by
  funext other
  rw [readers, Std.TreeMap.getElem?_insert, Function.update_apply]
  by_cases same : block_addr = other
  · rw [if_pos (Std.LawfulEqCmp.compare_eq_iff_eq.mpr same), if_pos same.symm]
  · rw [if_neg (fun eq => same (Std.LawfulEqCmp.compare_eq_iff_eq.mp eq)), if_neg (Ne.symm same)]
    rfl

theorem readers_erase (mshrs : MshrTable) {m_current_response : List Address} :
    (⟨mshrs.m_data.erase block_addr, m_current_response⟩ : MshrTable).readers =
      Function.update mshrs.readers block_addr [] := by
  funext other
  rw [readers, Std.TreeMap.getElem?_erase, Function.update_apply]
  by_cases same : block_addr = other
  · rw [if_pos (Std.LawfulEqCmp.compare_eq_iff_eq.mpr same), if_pos same.symm]
  · rw [if_neg (fun eq => same (Std.LawfulEqCmp.compare_eq_iff_eq.mp eq)), if_neg (Ne.symm same)]
    rfl

/-! ## What the operations do -/

theorem add_some {isatomic : Bool} (run : mshrs.add config block_addr mf isatomic = some mshrs') :
    mshrs'.m_current_response = mshrs.m_current_response ∧
      mshrs'.readers = Function.update mshrs.readers block_addr (mshrs.readers block_addr ++ [mf]) ∧
      mshrs'.m_data.size ≤ config.m_mshr_entries ∧
      (mshrs.readers block_addr ++ [mf]).length ≤ config.m_mshr_max_merge ∧
      ∀ other, mshrs'.probe other = true ↔ other = block_addr ∨ mshrs.probe other = true := by
  have old : (mshrs.m_data[block_addr]?.getD ⟨[], false⟩).m_list = mshrs.readers block_addr := by
    rw [readers]
    cases mshrs.m_data[block_addr]? <;> rfl
  rw [add] at run
  dsimp only at run
  split at run
  · rename_i limits
    obtain rfl := Option.some.inj run
    refine ⟨rfl, by rw [readers_insert mshrs, old], limits.1, old ▸ limits.2, fun other => ?_⟩
    rw [probe, probe, Std.TreeMap.contains_insert, Bool.or_eq_true, beq_iff_eq,
      Std.LawfulEqCmp.compare_eq_iff_eq, eq_comm]
  · exact absurd run (by simp)

theorem markReady_some {has_atomic : Bool}
    (run : mshrs.markReady block_addr = some (mshrs', has_atomic)) :
    mshrs.probe block_addr = true ∧
      mshrs' = ⟨mshrs.m_data, mshrs.m_current_response ++ [block_addr]⟩ := by
  rw [markReady] at run
  obtain ⟨entry, found, run⟩ := Option.bind_eq_some_iff.mp run
  dsimp only at run
  split at run
  · obtain ⟨rfl, rfl⟩ := Prod.mk.inj (Option.some.inj run)
    exact ⟨by rw [probe_eq_isSome, found, Option.isSome_some], rfl⟩
  · exact absurd run (by simp)

/-- The first reader of the first ready entry is handed back; the entry is
    released with its last reader. -/
inductive Drained (mshrs : MshrTable) (block_addr : Address) (result : Uid) : MshrTable → Prop
  | last {later : List Address} : mshrs.m_current_response = block_addr :: later →
      mshrs.readers block_addr = [result] →
      Drained mshrs block_addr result ⟨mshrs.m_data.erase block_addr, later⟩
  | more {later : List Address} {rest : List Uid} {m_has_atomic : Bool} :
      mshrs.m_current_response = block_addr :: later →
      mshrs.readers block_addr = result :: rest → rest ≠ [] →
      Drained mshrs block_addr result
        ⟨mshrs.m_data.insert block_addr ⟨rest, m_has_atomic⟩, block_addr :: later⟩

theorem Drained.front {result : Uid} (drained : Drained mshrs block_addr result mshrs') :
    block_addr ∈ mshrs.m_current_response := by
  cases drained with
  | last ready _ | more ready _ _ => exact ready ▸ List.mem_cons_self

theorem Drained.isReader {result : Uid} (drained : Drained mshrs block_addr result mshrs') :
    mshrs.readers block_addr = result :: mshrs'.readers block_addr := by
  cases drained with
  | last _ isLast => rw [isLast, readers_erase mshrs, Function.update_self]
  | more _ isFirst _ => rw [isFirst, readers_insert mshrs, Function.update_self]

theorem Drained.others {result : Uid} (drained : Drained mshrs block_addr result mshrs')
    {other : Address} (isOther : other ≠ block_addr) :
    mshrs'.readers other = mshrs.readers other ∧
      (other ∈ mshrs'.m_current_response ↔ other ∈ mshrs.m_current_response) := by
  cases drained with
  | last ready _ =>
    rw [readers_erase mshrs,
      Function.update_of_ne isOther, ready, List.mem_cons]
    exact ⟨rfl, (or_iff_right isOther).symm⟩
  | more ready _ _ =>
    rw [readers_insert mshrs, Function.update_of_ne isOther, ready]
    exact ⟨rfl, Iff.rfl⟩

theorem Drained.stays {result : Uid} (drained : Drained mshrs block_addr result mshrs')
    (isReader : mshrs'.readers block_addr ≠ []) : block_addr ∈ mshrs'.m_current_response := by
  cases drained with
  | last _ _ =>
    rw [readers_erase mshrs, Function.update_self] at isReader
    exact absurd rfl isReader
  | more _ _ _ => exact List.mem_cons_self

theorem nextAccess_some {result : Uid} (run : mshrs.nextAccess = some (mshrs', result)) :
    ∃ block_addr, Drained mshrs block_addr result mshrs' := by
  rw [nextAccess] at run
  split at run
  · exact absurd run (by simp)
  · rename_i block_addr later ready
    refine ⟨block_addr, ?_⟩
    split at run
    · rename_i first rest m_has_atomic found
      have isReader : mshrs.readers block_addr = first :: rest := by rw [readers, found]
      split at run
      · rename_i isLast
        obtain ⟨rfl, rfl⟩ := Prod.mk.inj (Option.some.inj run)
        exact .last ready (isReader.trans (congrArg _ (List.isEmpty_iff.mp isLast)))
      · rename_i notLast
        obtain ⟨rfl, rfl⟩ := Prod.mk.inj (Option.some.inj run)
        exact .more ready isReader fun isLast => notLast (List.isEmpty_iff.mpr isLast)
    · exact absurd run (by simp)

/-! ## The limits are kept and no assertion fails -/

theorem valid_empty (config : CacheConfig) : (empty : MshrTable).Valid config where
  nonempty block_addr isEntry := by simp [probe, empty] at isEntry
  ready block_addr member := absurd member (by simp [empty])
  distinct := List.nodup_nil
  entries := by simp [empty]
  merged block_addr := by simp [readers, empty]

theorem Valid.add (valid : mshrs.Valid config) {isatomic : Bool}
    (run : mshrs.add config block_addr mf isatomic = some mshrs') : mshrs'.Valid config := by
  obtain ⟨response, readers, entries, merged, probes⟩ := add_some run
  refine ⟨fun other isEntry => ?_, fun other member => ?_, response ▸ valid.distinct, entries,
    fun other => ?_⟩
  · rw [readers, Function.update_apply]
    split
    · exact List.append_ne_nil_of_right_ne_nil _ (List.cons_ne_nil _ _)
    · rename_i isOther
      exact valid.nonempty other (((probes other).mp isEntry).resolve_left isOther)
  · rw [response] at member
    exact (probes other).mpr (Or.inr (valid.ready other member))
  · rw [readers, Function.update_apply]
    split
    · exact merged
    · exact valid.merged other

theorem Valid.markReady (valid : mshrs.Valid config) (isEntry : mshrs.probe block_addr = true)
    (notReady : block_addr ∉ mshrs.m_current_response) :
    (⟨mshrs.m_data, mshrs.m_current_response ++ [block_addr]⟩ : MshrTable).Valid config where
  nonempty := valid.nonempty
  ready other member := by
    cases List.mem_append.mp member with
    | inl before => exact valid.ready other before
    | inr here => exact List.mem_singleton.mp here ▸ isEntry
  distinct := by
    rw [List.nodup_append_comm]
    exact List.nodup_cons.mpr ⟨notReady, valid.distinct⟩
  entries := valid.entries
  merged := valid.merged

theorem Valid.drained (valid : mshrs.Valid config) {result : Uid}
    (drained : Drained mshrs block_addr result mshrs') : mshrs'.Valid config := by
  have merged := valid.merged block_addr
  rw [drained.isReader] at merged
  have readersMerged (other : Address) :
      (mshrs'.readers other).length ≤ config.m_mshr_max_merge := by
    by_cases same : other = block_addr
    · exact same ▸ Nat.le_of_succ_le merged
    · rw [(drained.others same).1]
      exact valid.merged other
  have isEntry : mshrs.m_data.contains block_addr = true := valid.ready block_addr drained.front
  cases drained with
  | @last later ready isLast =>
    have distinct := valid.distinct
    rw [ready, List.nodup_cons] at distinct
    have probes (other : Address) :
        (⟨mshrs.m_data.erase block_addr, later⟩ : MshrTable).probe other = true ↔
          other ≠ block_addr ∧ mshrs.probe other = true := by
      rw [probe, Std.TreeMap.contains_iff_mem, Std.TreeMap.mem_erase, ne_eq,
        Std.LawfulEqCmp.compare_eq_iff_eq, eq_comm, probe, Std.TreeMap.contains_iff_mem]
    refine ⟨fun other isEntry => ?_, fun other member => ?_, distinct.2,
      Nat.le_trans Std.TreeMap.size_erase_le valid.entries, readersMerged⟩
    · obtain ⟨isOther, isEntry⟩ := (probes other).mp isEntry
      rw [readers_erase mshrs, Function.update_of_ne isOther]
      exact valid.nonempty other isEntry
    · refine (probes other).mpr ⟨fun same => distinct.1 (same ▸ member), ?_⟩
      exact valid.ready other (ready ▸ List.mem_cons_of_mem _ member)
  | @more later rest m_has_atomic ready isReader notLast =>
    have probes (other : Address) :
        (⟨mshrs.m_data.insert block_addr ⟨rest, m_has_atomic⟩, block_addr :: later⟩ :
          MshrTable).probe other = mshrs.probe other := by
      rw [probe, probe, Std.TreeMap.contains_insert]
      by_cases same : block_addr = other
      · rw [← same, isEntry, Bool.or_true]
      · rw [beq_false_of_ne (fun eq => same (Std.LawfulEqCmp.compare_eq_iff_eq.mp eq)), Bool.false_or]
    refine ⟨fun other isOther => ?_, fun other member => ?_, ready ▸ valid.distinct, ?_,
      readersMerged⟩
    · rw [readers_insert mshrs, Function.update_apply]
      split
      · exact notLast
      · exact valid.nonempty other (probes other ▸ isOther)
    · rw [probes other]
      exact valid.ready other (ready ▸ member)
    · rw [Std.TreeMap.size_insert, if_pos isEntry]
      exact valid.entries

theorem Valid.add_isSome (valid : mshrs.Valid config) (merges : 0 < config.m_mshr_max_merge)
    (notFull : mshrs.full config block_addr = false) (isatomic : Bool) :
    (mshrs.add config block_addr mf isatomic).isSome = true := by
  have limit := valid.entries
  rw [full] at notFull
  cases found : mshrs.m_data[block_addr]? with
  | some entry =>
    rw [found] at notFull
    have room : entry.m_list.length < config.m_mshr_max_merge := by simpa using notFull
    have isEntry : mshrs.m_data.contains block_addr = true := by
      rw [Std.TreeMap.contains_eq_isSome_getElem?, found, Option.isSome_some]
    simp [MshrTable.add, found, Std.TreeMap.size_insert, isEntry, limit, Nat.succ_le_of_lt room]
  | none =>
    rw [found] at notFull
    have room : mshrs.m_data.size < config.m_mshr_entries := by simpa using notFull
    have isFresh : mshrs.m_data.contains block_addr = false := by
      rw [Std.TreeMap.contains_eq_isSome_getElem?, found, Option.isSome_none]
    simp [MshrTable.add, found, Std.TreeMap.size_insert, isFresh, Nat.succ_le_of_lt room,
      Nat.succ_le_of_lt merges]

theorem Valid.markReady_isSome (valid : mshrs.Valid config)
    (isEntry : mshrs.probe block_addr = true)
    (notReady : block_addr ∉ mshrs.m_current_response) :
    (mshrs.markReady block_addr).isSome = true := by
  have marked := valid.markReady isEntry notReady
  have subset : mshrs.m_current_response ++ [block_addr] ⊆ mshrs.m_data.keys := by
    intro other member
    exact Std.TreeMap.mem_keys.mpr (marked.ready other member)
  have few : (mshrs.m_current_response ++ [block_addr]).length ≤ mshrs.m_data.size := by
    rw [← Std.TreeMap.length_keys]
    exact (List.subperm_of_subset marked.distinct subset).length_le
  rw [probe_eq_isSome, Option.isSome_iff_exists] at isEntry
  obtain ⟨entry, found⟩ := isEntry
  simp only [MshrTable.markReady, found, Option.bind_eq_bind, Option.bind_some, if_pos few]
  rfl

theorem Valid.nextAccess_isSome (valid : mshrs.Valid config)
    (ready : mshrs.accessReady = true) : mshrs.nextAccess.isSome = true := by
  rw [nextAccess]
  cases response : mshrs.m_current_response with
  | nil => simp [accessReady, response] at ready
  | cons block_addr later =>
    have isEntry := valid.ready block_addr (response ▸ List.mem_cons_self)
    have isReader := valid.nonempty block_addr isEntry
    rw [readers] at isReader
    cases found : mshrs.m_data[block_addr]? with
    | none => simp [found] at isReader
    | some entry =>
      obtain ⟨m_list, m_has_atomic⟩ := entry
      rw [found] at isReader
      cases m_list with
      | nil => exact absurd rfl isReader
      | cons result rest =>
        by_cases isLast : rest = [] <;> simp [found, isLast]

end

end MshrTable

end AesOnGpu.Cache
