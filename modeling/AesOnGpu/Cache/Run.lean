import AesOnGpu.Lib.Grouping
import AesOnGpu.Cache.Response

/-! # Runs of a cache

A cache with its surroundings: the core creates requests and hands them to
`access`, the port takes requests down, and the lower level answers the reads
among them in any order.  A request that waits in the miss queue or has been sent
down is not handed to the cache again.

`none` is an operation that the surroundings do not do, or a failed assertion.
-/

namespace AesOnGpu.Cache

structure System (config : CacheConfig) where
  cache : CacheState config
  /-- The requests that were sent down and have not been answered. -/
  m_memport : List Uid

inductive Operation where
  | create (fetch : MemFetch)
  | access (mf : Uid) (time : BitVec 32)
  | cycle (full : Bool)
  | fill (mf : Uid) (time : BitVec 32)
  | next_access
  | flush
  deriving DecidableEq

variable {config : CacheConfig}

def System.initial (config : CacheConfig) : System config where
  cache :=
    { m_lines := fun _ => .fresh
      m_mshrs := .empty
      m_miss_queue := []
      m_extra_mf_fields := ∅
      heap := ⟨0, fun _ => ⟨.GLOBAL_ACC_R, 0, 0, false, false⟩⟩ }
  m_memport := []

/-- What the surroundings may do.  A response is the answer to a read. -/
def System.Allowed (system : System config) : Operation → Prop
  | .create _ | .cycle _ | .flush => True
  | .access mf _ => mf < system.cache.heap.next ∧ mf ∉ system.cache.m_miss_queue ∧
      mf ∉ system.m_memport
  | .fill mf _ => mf ∈ system.m_memport ∧ system.cache.m_extra_mf_fields.contains mf = true
  | .next_access => system.cache.m_mshrs.accessReady = true

instance (system : System config) : (op : Operation) → Decidable (system.Allowed op)
  | .create _ | .cycle _ | .flush => .isTrue trivial
  | .access mf _ => inferInstanceAs (Decidable (mf < system.cache.heap.next ∧
      mf ∉ system.cache.m_miss_queue ∧ mf ∉ system.m_memport))
  | .fill mf _ => inferInstanceAs (Decidable (mf ∈ system.m_memport ∧
      system.cache.m_extra_mf_fields.contains mf = true))
  | .next_access => inferInstanceAs (Decidable (system.cache.m_mshrs.accessReady = true))

def System.perform (cache : CacheClass) (system : System config) : Operation → Option (System config)
  | .create fetch =>
    some { system with cache := { system.cache with heap := system.cache.heap.alloc fetch } }
  | .access mf time => do
    let (_, effect) ←
      access cache ⟨system.cache, []⟩ (system.cache.heap.fetch mf).m_addr mf time
    return { system with cache := effect.state }
  | .cycle full =>
    let (state, sent) := Cache.cycle system.cache full
    some ⟨state, system.m_memport ++ sent.toList⟩
  | .fill mf time => do
    let state ← Cache.fill system.cache mf time
    return ⟨state, system.m_memport.erase mf⟩
  | .next_access => do
    let (state, _) ← nextAccess system.cache
    return { system with cache := state }
  | .flush =>
    some { system with cache := { system.cache with m_lines := Cache.flush system.cache.m_lines } }

def System.step (cache : CacheClass) (system : System config) (op : Operation) :
    Option (System config) :=
  if system.Allowed op then system.perform cache op else none

def run (config : CacheConfig) (cache : CacheClass) (ops : List Operation) : Option (System config) :=
  ops.foldlM (System.step cache) (System.initial config)

/-- The steps of a system, with what is known about each. -/
inductive Stepped (cache : CacheClass) (system : System config) : Operation → System config → Prop
  | create {fetch : MemFetch} :
      Stepped cache system (.create fetch)
        { system with cache := { system.cache with heap := system.cache.heap.alloc fetch } }
  | access {mf : Uid} {time : BitVec 32} {status : RequestStatus} {effect : Effect config} :
      mf < system.cache.heap.next → mf ∉ system.cache.m_miss_queue → mf ∉ system.m_memport →
      access cache ⟨system.cache, []⟩ (system.cache.heap.fetch mf).m_addr mf time =
        some (status, effect) →
      Stepped cache system (.access mf time) { system with cache := effect.state }
  | idle {full : Bool} : Stepped cache system (.cycle full) system
  | sent {mf : Uid} {later : List Uid} : system.cache.m_miss_queue = mf :: later →
      Stepped cache system (.cycle false)
        ⟨{ system.cache with m_miss_queue := later }, system.m_memport ++ [mf]⟩
  | fill {mf : Uid} {time : BitVec 32} {state : CacheState config} : mf ∈ system.m_memport →
      Filled system.cache mf state →
      Stepped cache system (.fill mf time) ⟨state, system.m_memport.erase mf⟩
  | next_access {m_mshrs : MshrTable} {result : Uid} :
      system.cache.m_mshrs.nextAccess = some (m_mshrs, result) →
      Stepped cache system .next_access { system with cache := { system.cache with m_mshrs } }
  | flush : Stepped cache system .flush
      { system with cache := { system.cache with m_lines := Cache.flush system.cache.m_lines } }

theorem System.step_spec {cache : CacheClass} {system system' : System config} {op : Operation}
    (step : system.step cache op = some system') : Stepped cache system op system' := by
  rw [System.step] at step
  split at step
  case isFalse => exact absurd step (by simp)
  rename_i allowed
  cases op with
  | create fetch =>
    obtain rfl := Option.some.inj step
    exact .create
  | access mf time =>
    obtain ⟨⟨status, effect⟩, accessed, step⟩ := Option.bind_eq_some_iff.mp step
    obtain rfl := Option.some.inj step
    exact .access allowed.1 allowed.2.1 allowed.2.2 accessed
  | cycle full =>
    simp only [System.perform, Cache.cycle] at step
    cases queue : system.cache.m_miss_queue with
    | nil =>
      simp only [queue, Option.toList_none, List.append_nil] at step
      obtain rfl := Option.some.inj step
      exact .idle
    | cons mf later =>
      cases full with
      | true =>
        simp only [queue, if_true, Option.toList_none, List.append_nil] at step
        obtain rfl := Option.some.inj step
        exact .idle
      | false =>
        simp only [queue] at step
        obtain rfl := Option.some.inj step
        exact .sent queue
  | fill mf time =>
    obtain ⟨state, filled, step⟩ := Option.bind_eq_some_iff.mp step
    obtain rfl := Option.some.inj step
    exact .fill allowed.1 (fill_spec filled)
  | next_access =>
    obtain ⟨⟨state, result⟩, drained, step⟩ := Option.bind_eq_some_iff.mp step
    obtain rfl := Option.some.inj step
    obtain ⟨⟨m_mshrs, reader⟩, next, drained⟩ := Option.bind_eq_some_iff.mp drained
    obtain ⟨rfl, rfl⟩ := Prod.mk.inj (Option.some.inj drained)
    exact .next_access next
  | flush =>
    obtain rfl := Option.some.inj step
    exact .flush

theorem run_concat {cache : CacheClass} {ops : List Operation} {op : Operation}
    {system' : System config} :
    run config cache (ops ++ [op]) = some system' ↔
      ∃ system, run config cache ops = some system ∧ system.step cache op = some system' := by
  rw [run, List.foldlM_append, Option.bind_eq_bind, Option.bind_eq_some_iff]
  simp only [List.foldlM_cons, List.foldlM_nil, Option.bind_eq_bind, Option.pure_def,
    Option.bind_fun_some, run]

theorem run_prefix {cache : CacheClass} {before ops : List Operation} {system : System config}
    (isPrefix : before <+: ops) (reached : run config cache ops = some system) :
    ∃ passed, run config cache before = some passed := by
  obtain ⟨after, rfl⟩ := isPrefix
  rw [run, List.foldlM_append] at reached
  obtain ⟨passed, reached, _⟩ := Option.bind_eq_some_iff.mp reached
  exact ⟨passed, reached⟩

theorem run_keeps {cache : CacheClass} (invariant : System config → Prop)
    (start : invariant (System.initial config))
    (keeps : ∀ system op system', Stepped cache system op system' → invariant system →
      invariant system')
    {ops : List Operation} {system : System config} (reached : run config cache ops = some system) :
    invariant system :=
  List.foldlM_keeps (fun state op state' step => keeps state op state' (System.step_spec step))
    reached start

end AesOnGpu.Cache
