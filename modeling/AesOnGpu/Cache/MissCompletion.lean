import AesOnGpu.Cache.Outstanding

/-! # Completion of misses

A log of a run records for each block which requests began to wait for it, which
were handed back, how many times a first request came, and how many responses
there were.  The requests handed back are always a beginning of those that
waited, in the same order.

Besides the requests of the core, the requests that the write-allocate handler
makes wait for their blocks and are handed back as well; the caller discards
them.
-/

namespace AesOnGpu.Cache

variable {config : CacheConfig} {cache : CacheClass}

/-! ## The log -/

inductive Event where
  | waits (block_addr : Address) (mf : Uid)
  | answered (block_addr : Address)
  | returned (block_addr : Address) (mf : Uid)

structure Log where
  accepted : Address → List Uid
  returned : Address → List Uid
  /-- How many times a request came when no other waited for the block. -/
  rounds : Address → Nat
  answered : Address → Nat

def Log.empty : Log := ⟨fun _ => [], fun _ => [], fun _ => 0, fun _ => 0⟩

def Log.record (log : Log) : Event → Log
  | .waits block_addr mf =>
    { log with
      accepted := Function.update log.accepted block_addr (log.accepted block_addr ++ [mf])
      rounds := if (log.accepted block_addr).length = (log.returned block_addr).length then
          Function.update log.rounds block_addr (log.rounds block_addr + 1)
        else log.rounds }
  | .answered block_addr =>
    { log with answered := Function.update log.answered block_addr (log.answered block_addr + 1) }
  | .returned block_addr mf =>
    { log with returned := Function.update log.returned block_addr (log.returned block_addr ++ [mf]) }

/-- A request waits when it is accepted as a read miss, and when it is made for a
    write that is accepted as a miss. -/
def System.event (cache : CacheClass) (system : System config) : Operation → Option Event
  | .access mf time =>
    let fetch := system.cache.heap.fetch mf
    match access cache ⟨system.cache, []⟩ fetch.m_addr mf time with
    | some (.MISS, _) =>
      if fetch.is_write then
        match config.m_write_alloc_policy with
        | .WRITE_ALLOCATE => some (.waits (config.blockAddr fetch.m_addr) system.cache.heap.next)
        | .NO_WRITE_ALLOCATE => none
      else some (.waits (config.blockAddr fetch.m_addr) mf)
    | _ => none
  | .fill mf _ => system.cache.m_extra_mf_fields[mf]?.map fun extra => .answered extra.m_block_addr
  | .next_access =>
    match system.cache.m_mshrs.m_current_response, system.cache.m_mshrs.nextAccess with
    | block_addr :: _, some (_, result) => some (.returned block_addr result)
    | _, _ => none
  | .create _ | .cycle _ | .flush => none

def loggedStep (cache : CacheClass) (state : System config × Log) (op : Operation) :
    Option (System config × Log) := do
  let system ← state.1.step cache op
  return (system, match state.1.event cache op with
    | some event => state.2.record event
    | none => state.2)

def loggedRun (config : CacheConfig) (cache : CacheClass) (ops : List Operation) :
    Option (System config × Log) :=
  ops.foldlM (loggedStep cache) (System.initial config, .empty)

/-! ## What the log says about the cache -/

def CacheState.ReadOutstanding (state : CacheState config) (block_addr : Address) : Prop :=
  ∃ mf extra, state.WaitsForFill mf extra ∧ extra.m_block_addr = block_addr

structure Logged (state : CacheState config) (log : Log) : Prop where
  inOrder : ∀ block_addr,
    log.accepted block_addr = log.returned block_addr ++ state.m_mshrs.readers block_addr
  outstanding : ∀ block_addr, state.ReadOutstanding block_addr →
    log.rounds block_addr = log.answered block_addr + 1
  settled : ∀ block_addr, ¬ state.ReadOutstanding block_addr →
    log.rounds block_addr = log.answered block_addr
  ready : ∀ block_addr ∈ state.m_mshrs.m_current_response, 0 < log.answered block_addr

theorem Logged.initial : Logged (System.initial config).cache .empty where
  inOrder block_addr := rfl
  outstanding block_addr reads := by
    obtain ⟨mf, extra, found, _⟩ := reads
    simp [CacheState.WaitsForFill, System.initial] at found
  settled block_addr _ := rfl
  ready block_addr isReady := absurd isReady List.not_mem_nil

theorem Logged.congr {state state' : CacheState config} {log : Log} (logged : Logged state log)
    (mshrs : state'.m_mshrs = state.m_mshrs)
    (fields : state'.m_extra_mf_fields = state.m_extra_mf_fields) : Logged state' log := by
  have reads : state'.ReadOutstanding = state.ReadOutstanding := by
    unfold CacheState.ReadOutstanding CacheState.WaitsForFill
    rw [fields]
  exact ⟨mshrs ▸ logged.inOrder, reads ▸ logged.outstanding, reads ▸ logged.settled,
    mshrs ▸ logged.ready⟩

theorem Missed.joins {state state' : CacheState config} {block_addr : Address} {reader : Uid}
    {time : BitVec 32} (missed : Missed cache state block_addr reader time state') :
    state'.m_mshrs.m_current_response = state.m_mshrs.m_current_response ∧
      state'.m_mshrs.readers = Function.update state.m_mshrs.readers block_addr
        (state.m_mshrs.readers block_addr ++ [reader]) ∧
      ((state.m_mshrs.probe block_addr = true ∧
          state'.m_extra_mf_fields = state.m_extra_mf_fields) ∨
        (state.m_mshrs.probe block_addr = false ∧ ∃ idx size, state'.m_extra_mf_fields =
          state.m_extra_mf_fields.insert reader ⟨block_addr, idx, size⟩)) := by
  cases missed with
  | merged _ _ isHit _ added =>
    obtain ⟨response, readers, _⟩ := MshrTable.add_some added
    rw [writtenBack_m_mshrs, writtenBack_m_extra_mf_fields]
    exact ⟨response, readers, Or.inl ⟨isHit, rfl⟩⟩
  | sent _ _ isMiss _ added =>
    obtain ⟨response, readers, _⟩ := MshrTable.add_some added
    rw [writtenBack_m_mshrs, writtenBack_m_extra_mf_fields]
    exact ⟨response, readers, Or.inr ⟨isMiss, _, _, rfl⟩⟩

theorem Logged.missed {state state' : CacheState config} {log : Log} (logged : Logged state log)
    {m_memport : List Uid} (outstanding : Outstanding state m_memport) {block_addr : Address}
    {reader : Uid} {time : BitVec 32} (notQueued : reader ∉ state.m_miss_queue)
    (notSent : reader ∉ m_memport)
    (missed : Missed cache state block_addr reader time state') :
    Logged state' (log.record (.waits block_addr reader)) := by
  obtain ⟨response, readers, fields⟩ := missed.joins
  have inOrder (block : Address) : (log.record (.waits block_addr reader)).accepted block =
      log.returned block ++ state'.m_mshrs.readers block := by
    simp only [Log.record]
    rw [readers]
    by_cases same : block = block_addr
    · rw [same, Function.update_self, Function.update_self, logged.inOrder, List.append_assoc]
    · rw [Function.update_of_ne same, Function.update_of_ne same, logged.inOrder]
  have counted : (log.accepted block_addr).length = (log.returned block_addr).length ↔
      state.m_mshrs.readers block_addr = [] := by
    rw [logged.inOrder, List.length_append, ← List.length_eq_zero_iff]
    omega
  cases fields with
  | inl joined =>
    -- there is an entry, so that others wait already
    have isReader := outstanding.mshrs.nonempty block_addr joined.1
    have rounds : (log.record (.waits block_addr reader)).rounds = log.rounds :=
      if_neg fun none => isReader (counted.mp none)
    have reads : state'.ReadOutstanding = state.ReadOutstanding := by
      unfold CacheState.ReadOutstanding CacheState.WaitsForFill
      rw [joined.2]
    refine ⟨inOrder, ?_, ?_, response ▸ logged.ready⟩
    · rw [reads, rounds]
      exact logged.outstanding
    · rw [reads, rounds]
      exact logged.settled
  | inr sent =>
    obtain ⟨isMiss, idx, size, fields⟩ := sent
    have isFirst := MshrTable.readers_of_not_probe isMiss
    have rounds : (log.record (.waits block_addr reader)).rounds =
        Function.update log.rounds block_addr (log.rounds block_addr + 1) :=
      if_pos (counted.mpr isFirst)
    have notYet : ¬ state.ReadOutstanding block_addr := by
      rintro ⟨mf, extra, found, same⟩
      have isEntry := outstanding.isEntry mf extra found
      rw [same, isMiss] at isEntry
      exact Bool.false_ne_true isEntry
    have waits {mf : Uid} {extra : ExtraMfFields config} : state'.WaitsForFill mf extra ↔
        (mf = reader ∧ extra = ⟨block_addr, idx, size⟩) ∨ (mf ≠ reader ∧ state.WaitsForFill mf extra) := by
      rw [CacheState.WaitsForFill, fields]
      exact extra_insert
    have reads (block : Address) : state'.ReadOutstanding block ↔
        block = block_addr ∨ state.ReadOutstanding block := by
      constructor
      · rintro ⟨mf, extra, found, same⟩
        cases waits.mp found with
        | inl new => exact Or.inl (by rw [← same, new.2])
        | inr old => exact Or.inr ⟨mf, extra, old.2, same⟩
      · intro either
        cases either with
        | inl same => exact ⟨reader, _, waits.mpr (Or.inl ⟨rfl, rfl⟩), same.symm⟩
        | inr old =>
          obtain ⟨mf, extra, found, same⟩ := old
          refine ⟨mf, extra, waits.mpr (Or.inr ⟨fun isReader => ?_, found⟩), same⟩
          cases outstanding.underway mf extra found with
          | inl inQueue => exact notQueued (isReader ▸ inQueue)
          | inr inPort => exact notSent (isReader ▸ inPort)
    refine ⟨inOrder, fun block isOutstanding => ?_, fun block notOutstanding => ?_,
      response ▸ logged.ready⟩
    · rw [rounds]
      by_cases same : block = block_addr
      · rw [same, Function.update_self, logged.settled block_addr notYet]
        rfl
      · rw [Function.update_of_ne same]
        exact logged.outstanding block (((reads block).mp isOutstanding).resolve_left same)
    · rw [reads, not_or] at notOutstanding
      rw [rounds, Function.update_of_ne notOutstanding.1]
      exact logged.settled block notOutstanding.2

theorem Logged.filled {state state' : CacheState config} {log : Log} (logged : Logged state log)
    {m_memport : List Uid} (outstanding : Outstanding state m_memport) {mf : Uid}
    {extra : ExtraMfFields config} (waits : state.WaitsForFill mf extra)
    (filled : Filled state mf state') : Logged state' (log.record (.answered extra.m_block_addr)) := by
  cases filled with
  | @mk extra' _ waits' _ _ =>
    obtain rfl := Option.some.inj (waits.symm.trans waits')
    have isOutstanding : state.ReadOutstanding extra.m_block_addr := ⟨mf, extra, waits, rfl⟩
    constructor
    · exact logged.inOrder
    · rintro block ⟨other, fields, found, same⟩
      obtain ⟨isOther, found⟩ := extra_erase.mp found
      have notHere : block ≠ extra.m_block_addr := fun here =>
        isOther (outstanding.alone other mf fields extra found waits (same.trans here))
      simp only [Log.record, Function.update_of_ne notHere]
      exact logged.outstanding block ⟨other, fields, found, same⟩
    · intro block notOutstanding
      simp only [Log.record, Function.update_apply]
      split
      · rename_i here
        rw [here]
        exact logged.outstanding _ isOutstanding
      · rename_i notHere
        refine logged.settled block ?_
        rintro ⟨other, fields, found, same⟩
        refine notOutstanding ⟨other, fields, extra_erase.mpr ⟨fun isMf => ?_, found⟩, same⟩
        rw [isMf] at found
        obtain rfl := Option.some.inj (found.symm.trans waits)
        exact notHere same.symm
    · intro block isReady
      simp only [Log.record, Function.update_apply]
      split
      · exact Nat.succ_pos _
      · rename_i notHere
        cases List.mem_append.mp isReady with
        | inl before => exact logged.ready block before
        | inr here => exact absurd (List.mem_singleton.mp here) notHere

theorem Logged.drained {state : CacheState config} {log : Log} (logged : Logged state log)
    {m_mshrs : MshrTable} {block_addr : Address} {result : Uid}
    (drained : state.m_mshrs.Drained block_addr result m_mshrs) :
    Logged { state with m_mshrs } (log.record (.returned block_addr result)) := by
  refine ⟨fun block => ?_, logged.outstanding, logged.settled, fun block isReady => ?_⟩
  · simp only [Log.record, Function.update_apply]
    rw [logged.inOrder]
    split
    · rename_i same
      rw [same, drained.isReader, List.append_assoc]
      rfl
    · rename_i isOther
      rw [(drained.others isOther).1]
  · refine logged.ready block ?_
    by_cases same : block = block_addr
    · exact same ▸ drained.front
    · exact (drained.others same).2.mp isReady

/-! ## Every run -/

theorem loggedStep_some {state state' : System config × Log} {op : Operation}
    (step : loggedStep cache state op = some state') :
    Stepped cache state.1 op state'.1 ∧ state'.2 =
      match state.1.event cache op with
      | some event => state.2.record event
      | none => state.2 := by
  obtain ⟨system, stepped, rest⟩ := Option.bind_eq_some_iff.mp step
  obtain rfl := Option.some.inj rest
  exact ⟨System.step_spec stepped, rfl⟩

theorem loggedStep_logged {state state' : System config × Log} {op : Operation}
    (step : loggedStep cache state op = some state') (outstanding : state.1.Outstanding)
    (logged : Logged state.1.cache state.2) : Logged state'.1.cache state'.2 := by
  obtain ⟨system, log⟩ := state
  obtain ⟨system', log'⟩ := state'
  obtain ⟨stepped, rfl⟩ := loggedStep_some step
  cases stepped with
  | create | idle | sent | flush => exact logged.congr rfl rfl
  | @access mf _ _ _ _ notQueued notSent accessed =>
    have outcome := access_spec accessed
    cases outcome with
    | refused _ | hit _ _ _ _ | hitSent _ _ _ _ _ =>
      simp only [System.event, accessed]
      exact logged.congr rfl rfl
    | written isWrite policy =>
      have isWrite : (system.cache.heap.fetch mf).is_write = true := isWrite
      simp only [System.event, accessed, isWrite, policy, if_true]
      exact logged.congr rfl rfl
    | read isRead _ missed =>
      have isRead : (system.cache.heap.fetch mf).is_write = false := isRead
      simp only [System.event, accessed, isRead, Bool.false_eq_true, if_false]
      exact logged.missed outstanding notQueued notSent missed
    | allocated isWrite allocates _ missed =>
      have isWrite : (system.cache.heap.fetch mf).is_write = true := isWrite
      simp only [System.event, accessed, isWrite, allocates, if_true]
      have isCreated : mf < system.cache.heap.next := by assumption
      have queued : Outstanding (writeQueued cache system.cache mf) system.m_memport :=
        outstanding.writeQueued isCreated
      have loggedQueued : Logged (writeQueued cache system.cache mf) log := logged.congr rfl rfl
      refine loggedQueued.missed queued (fun inQueue => ?_) (fun inPort => ?_) missed
      · cases List.mem_append.mp inQueue with
        | inl before => exact Nat.lt_irrefl _ (outstanding.createdBelow before)
        | inr here =>
          rw [List.mem_singleton.mp here] at isCreated
          exact Nat.lt_irrefl _ isCreated
      · exact Nat.lt_irrefl _ (outstanding.created _ (Or.inr inPort))
  | @fill mf _ _ _ filled =>
    cases filled with
    | @mk extra _ waits isEntry lines =>
      simp only [System.event, waits, Option.map_some]
      exact logged.filled outstanding waits (.mk waits isEntry lines)
  | next_access drains =>
    obtain ⟨block_addr, drained⟩ := MshrTable.nextAccess_some drains
    have ready : ∃ later, system.cache.m_mshrs.m_current_response = block_addr :: later := by
      cases drained with
      | last ready _ | more ready _ _ => exact ⟨_, ready⟩
    obtain ⟨later, ready⟩ := ready
    simp only [System.event, ready, drains]
    exact logged.drained drained

theorem loggedRun_logged {ops : List Operation} {system : System config} {log : Log}
    (reached : loggedRun config cache ops = some (system, log)) :
    system.Outstanding ∧ Logged system.cache log := by
  have keeps (state : System config × Log) (op : Operation) (state' : System config × Log)
      (step : loggedStep cache state op = some state')
      (holds : state.1.Outstanding ∧ Logged state.1.cache state.2) :
      state'.1.Outstanding ∧ Logged state'.1.cache state'.2 :=
    ⟨(loggedStep_some step).1.outstanding holds.1, loggedStep_logged step holds.1 holds.2⟩
  exact List.foldlM_keeps keeps reached ⟨System.outstanding_initial, Logged.initial⟩

/-! ## Draining -/

/-- The requests that are ready to be handed back. -/
def MshrTable.readyReaders (mshrs : MshrTable) : Nat :=
  (mshrs.m_current_response.map fun block_addr => (mshrs.readers block_addr).length).sum

theorem MshrTable.Drained.fewer {mshrs mshrs' : MshrTable} {block_addr : Address} {result : Uid}
    (distinct : mshrs.m_current_response.Nodup)
    (drained : mshrs.Drained block_addr result mshrs') :
    mshrs'.readyReaders < mshrs.readyReaders := by
  have first := drained.isReader
  have others (block : Address) (isOther : block ≠ block_addr) :
      (mshrs'.readers block).length = (mshrs.readers block).length := by
    rw [(drained.others isOther).1]
  have later {later : List Address} (ready : mshrs.m_current_response = block_addr :: later) :
      (later.map fun block => (mshrs'.readers block).length).sum =
        (later.map fun block => (mshrs.readers block).length).sum := by
    rw [ready, List.nodup_cons] at distinct
    refine congrArg List.sum (List.map_congr_left fun block member => others block ?_)
    exact fun same => distinct.1 (same ▸ member)
  unfold readyReaders
  cases drained with
  | last ready isLast =>
    rw [later ready, ready, List.map_cons, List.sum_cons, first, List.length_cons]
    omega
  | more ready _ _ =>
    rw [List.map_cons, List.sum_cons, later ready, ready, List.map_cons, List.sum_cons, first,
      List.length_cons]
    omega

theorem System.drains (cache : CacheClass) {system : System config}
    (outstanding : system.Outstanding) :
    ∃ calls system', (List.replicate calls .next_access).foldlM (System.step cache) system =
      some system' ∧ system'.cache.m_mshrs.accessReady = false := by
  induction measure : system.cache.m_mshrs.readyReaders using Nat.strong_induction_on
    generalizing system with
  | _ count ih =>
    cases ready : system.cache.m_mshrs.accessReady with
    | false => exact ⟨0, system, rfl, ready⟩
    | true =>
      obtain ⟨⟨m_mshrs, result⟩, drains⟩ :=
        Option.isSome_iff_exists.mp (outstanding.mshrs.nextAccess_isSome ready)
      have step : system.step cache .next_access =
          some { system with cache := { system.cache with m_mshrs } } := by
        rw [System.step, if_pos (show system.Allowed .next_access from ready), System.perform, nextAccess, drains]
        rfl
      obtain ⟨block_addr, drained⟩ := MshrTable.nextAccess_some drains
      obtain ⟨calls, system', run, done⟩ := ih _
        (measure ▸ drained.fewer outstanding.mshrs.distinct)
        ((System.step_spec step).outstanding outstanding) rfl
      refine ⟨calls + 1, system', ?_, done⟩
      rw [List.replicate_succ, List.foldlM_cons, step]
      exact run

/-! ## Completion -/

structure MissesComplete (cache : CacheClass) (system : System config) (log : Log) : Prop where
  inOrder : ∀ block_addr, log.accepted block_addr =
    log.returned block_addr ++ system.cache.m_mshrs.readers block_addr
  afterResponse : ∀ m_mshrs result, system.cache.m_mshrs.nextAccess = some (m_mshrs, result) →
    ∃ block_addr, (system.cache.m_mshrs.readers block_addr).head? = some result ∧
      log.rounds block_addr = log.answered block_addr ∧ 0 < log.answered block_addr
  drains : ∃ calls system', (List.replicate calls .next_access).foldlM (System.step cache) system =
    some system' ∧ system'.cache.m_mshrs.accessReady = false
  complete : (∀ mf extra, ¬ system.cache.WaitsForFill mf extra) →
    system.cache.m_mshrs.accessReady = false → log.returned = log.accepted
  entries : system.cache.m_mshrs.m_data.size ≤ config.m_mshr_entries
  merged : ∀ block_addr,
    (system.cache.m_mshrs.readers block_addr).length ≤ config.m_mshr_max_merge
  addHolds : ∀ block_addr mf isatomic, system.cache.m_mshrs.full config block_addr = false →
    (system.cache.m_mshrs.add config block_addr mf isatomic).isSome = true
  markReadyHolds : ∀ mf extra, system.cache.WaitsForFill mf extra →
    (system.cache.m_mshrs.markReady extra.m_block_addr).isSome = true
  nextAccessHolds : system.cache.m_mshrs.accessReady = true →
    system.cache.m_mshrs.nextAccess.isSome = true

theorem misses_complete (merges : 0 < config.m_mshr_max_merge) {ops : List Operation}
    {system : System config} {log : Log}
    (reached : loggedRun config cache ops = some (system, log)) :
    MissesComplete cache system log := by
  obtain ⟨outstanding, logged⟩ := loggedRun_logged reached
  have valid := outstanding.mshrs
  constructor
  · exact logged.inOrder
  · intro m_mshrs result drains
    obtain ⟨block_addr, drained⟩ := MshrTable.nextAccess_some drains
    refine ⟨block_addr, by rw [drained.isReader, List.head?_cons], logged.settled block_addr ?_,
      logged.ready block_addr drained.front⟩
    rintro ⟨mf, extra, found, same⟩
    exact outstanding.notReady mf extra found (same ▸ drained.front)
  · exact System.drains cache outstanding
  · intro nothing notReady
    funext block_addr
    have noReader : system.cache.m_mshrs.readers block_addr = [] := by
      apply MshrTable.readers_of_not_probe
      rw [← Bool.not_eq_true]
      intro isEntry
      cases outstanding.served block_addr isEntry with
      | inl isReady =>
        rw [MshrTable.accessReady, Bool.not_eq_false', List.isEmpty_iff] at notReady
        rw [notReady] at isReady
        exact absurd isReady List.not_mem_nil
      | inr sent =>
        obtain ⟨mf, extra, found, _⟩ := sent
        exact nothing mf extra found
    rw [logged.inOrder, noReader, List.append_nil]
  · exact valid.entries
  · exact valid.merged
  · exact fun _ _ isatomic notFull => valid.add_isSome merges notFull isatomic
  · exact fun mf extra found => valid.markReady_isSome (outstanding.isEntry mf extra found)
      (outstanding.notReady mf extra found)
  · exact valid.nextAccess_isSome

def writeAllocated : List Operation :=
  [.create ⟨.GLOBAL_ACC_W, 0, 32, true, false⟩, .access 0 0, .cycle false, .cycle false, .fill 1 1,
    .next_access]

/-- One way, `m_mshr_max_merge` as given. -/
abbrev merging (m_mshr_max_merge : Nat) : CacheConfig :=
  .oneSet 1 .WRITE_BACK .ON_MISS .WRITE_ALLOCATE m_mshr_max_merge 4

theorem writeAllocated_runs : (loggedRun (merging 2) .l2_cache writeAllocated).isSome = true := by
  decide

def allocatedState : System (merging 2) × Log :=
  (loggedRun (merging 2) .l2_cache writeAllocated).get writeAllocated_runs

theorem misses_complete_writeAllocated :
    MissesComplete .l2_cache allocatedState.1 allocatedState.2 :=
  misses_complete (Nat.succ_pos 1) (Option.some_get writeAllocated_runs).symm

/-- What is handed back need not have been handed to `access`, and `add` fails if
    no request may be merged. -/
theorem returns_made_request :
    (¬ ∀ config cache ops system log, config.Accepted →
      loggedRun config cache ops = some (system, log) → ∀ block_addr, ∀ mf ∈ log.returned block_addr,
        ∃ time, .access mf time ∈ ops) ∧
    ¬ ∀ config : CacheConfig, config.Accepted → ∀ block_addr mf isatomic,
      (System.initial config).cache.m_mshrs.full config block_addr = false →
        ((System.initial config).cache.m_mshrs.add config block_addr mf isatomic).isSome = true := by
  constructor
  · intro claim
    have accepted : (merging 2).Accepted :=
      ⟨⟨1, 128, 1, 'L', 'B', 'm', 'W', 'A', 2, 2, 4, 0⟩, fun _ => 0, by rfl⟩
    have returned : allocatedState.2.returned 0 = [1] := by decide
    obtain ⟨time, accessed⟩ := claim (merging 2) .l2_cache writeAllocated allocatedState.1
      allocatedState.2 accepted (Option.some_get writeAllocated_runs).symm 0 1
      (returned ▸ List.mem_singleton_self 1)
    simp [writeAllocated] at accessed
  · intro claim
    have accepted : (merging 0).Accepted :=
      ⟨⟨1, 128, 1, 'L', 'B', 'm', 'W', 'A', 2, 0, 4, 0⟩, fun _ => 0, by rfl⟩
    have added := claim (merging 0) accepted 0 0 false (by decide +kernel)
    exact absurd added (by decide +kernel)

end AesOnGpu.Cache
