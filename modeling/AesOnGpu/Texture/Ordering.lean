import AesOnGpu.Texture.TexCache
import AesOnGpu.Lib.Deferred

/-! # Results leave in the order of the accesses

The fragments in the FIFO are reads and writes of data lines that are still to be performed.
The tags are those of the lines as they will be then, so a hit finds its block when it gets
to the head.
-/

namespace AesOnGpu.Texture

open AesOnGpu.Cache (Lines tagAccessClean tagAccess fillIndex probe probe_spec CacheBlock)
open Deferred (future AllFind)

variable {config : TexConfig}

/-! ## The invariant -/

def TexCache.deferred (cache : TexCache config) (e : FragmentEntry config) :
    Deferred.Op config.Index DataBlock :=
  if e.m_miss then .write e.m_cache_index ⟨true, cache.blockOf e.m_request⟩
  else .read e.m_cache_index ⟨true, cache.blockOf e.m_request⟩

def TexCache.queue (cache : TexCache config) : List (Deferred.Op config.Index DataBlock) :=
  cache.m_fragment_fifo.contents.map cache.deferred

/-- The part that does not depend on the callers. -/
structure Consistent (cache : TexCache config) : Prop where
  distinct : (cache.m_fragment_fifo.contents.map (·.m_request)).Nodup
  /-- The reorder buffer has the misses, in their order. -/
  rob : cache.m_rob.contents.map (fun r => (r.m_request, r.m_index, r.m_block_addr)) =
    (cache.m_fragment_fifo.contents.filter (·.m_miss)).map
      fun e => (e.m_request, e.m_cache_index, cache.blockOf e.m_request)
  slots : ∀ n r, cache.m_rob.contents[n]? = some r →
    cache.m_extra_mf_fields r.m_request = some (cache.m_rob.slot n)
  tags : ∀ idx, (cache.m_tags idx).m_status = .INVALID ∨ ((cache.m_tags idx).m_status = .VALID ∧
    future cache.m_cache cache.queue idx = ⟨true, (cache.m_tags idx).m_tag⟩)
  reads : AllFind cache.m_cache cache.queue

structure Inv (system : System config) : Prop where
  consistent : Consistent system.cache
  log : system.accepted = system.delivered ++ system.cache.m_result_fifo.contents ++
    system.cache.m_fragment_fifo.contents.map (·.m_request)
  /-- The entries that are not ready are those whose request is not answered. -/
  waiting : ∀ mf, mf ∈ system.cache.m_request_fifo.contents ++ system.outstanding ↔
    ∃ r ∈ system.cache.m_rob.contents, r.m_request = mf ∧ r.m_ready = false
  once : (system.cache.m_request_fifo.contents ++ system.outstanding).Nodup
  capacity : system.cache.m_result_fifo.size = config.m_result_fifo_entries

variable {cache cache' : TexCache config}

theorem queue_eq {entries : List (FragmentEntry config)}
    (fragments : cache'.m_fragment_fifo.contents = entries)
    (blocks : ∀ e ∈ entries, cache'.blockOf e.m_request = cache.blockOf e.m_request) :
    cache'.queue = entries.map cache.deferred := by
  rw [TexCache.queue, fragments]
  apply List.map_congr_left
  intro e member
  rw [TexCache.deferred, TexCache.deferred, blocks e member]

theorem Consistent.fragment_of_rob (consistent : Consistent cache) {r : RobEntry config}
    (member : r ∈ cache.m_rob.contents) : ∃ e ∈ cache.m_fragment_fifo.contents,
      e.m_request = r.m_request ∧ r.m_block_addr = cache.blockOf r.m_request := by
  have fields : (r.m_request, r.m_index, r.m_block_addr) ∈
      cache.m_rob.contents.map fun r => (r.m_request, r.m_index, r.m_block_addr) :=
    List.mem_map.mpr ⟨r, member, rfl⟩
  rw [consistent.rob] at fields
  obtain ⟨e, here, same⟩ := List.mem_map.mp fields
  obtain ⟨request, rest⟩ := Prod.mk.inj same
  obtain ⟨-, block⟩ := Prod.mk.inj rest
  exact ⟨e, List.mem_of_mem_filter here, request, by rw [← block, request]⟩

theorem Consistent.rob_distinct (consistent : Consistent cache) :
    (cache.m_rob.contents.map (·.m_request)).Nodup := by
  have requests : cache.m_rob.contents.map (·.m_request) =
      (cache.m_fragment_fifo.contents.filter (·.m_miss)).map (·.m_request) := by
    have same := congrArg (List.map Prod.fst) consistent.rob
    rwa [List.map_map, List.map_map] at same
  rw [requests]
  exact consistent.distinct.sublist (List.filter_sublist.map _)

/-! ## Accesses -/

/-- The tags of an access: a hit is on a line that will hold the block, and a miss takes a line
    for it. -/
theorem tags_spec (consistent : Consistent cache) {mf : Nat} {time : BitVec 32}
    {tags : Cache.TagAccess config.toCacheConfig}
    (run : tagAccessClean cache.m_tags (cache.blockOf mf) time = some tags) :
    (∃ idx, tags.result = .HIT idx ∧
      future cache.m_cache cache.queue idx = ⟨true, cache.blockOf mf⟩ ∧
      ∀ other, (tags.m_lines other).m_status = (cache.m_tags other).m_status ∧
        (tags.m_lines other).m_tag = (cache.m_tags other).m_tag) ∨
    (∃ idx, tags.result = .MISS idx ∧ ∃ block : CacheBlock, block.m_tag = cache.blockOf mf ∧
      block.m_status = .RESERVED ∧ tags.m_lines = Function.update cache.m_tags idx block) ∨
    tags.result = .RESERVATION_FAIL := by
  obtain ⟨access, accessed, clean⟩ := Option.bind_eq_some_iff.mp run
  obtain rfl : access = tags := by
    split at clean
    · cases clean
    · exact Option.some.inj clean
  obtain ⟨result, probed, run⟩ := Option.bind_eq_some_iff.mp accessed
  cases probe_spec probed with
  | @HIT idx inSet isTag status =>
    obtain rfl := Option.some.inj run
    refine Or.inl ⟨idx, rfl, ?_, fun other => ?_⟩
    · cases consistent.tags idx with
      | inl invalid => rcases status with status | status <;> cases invalid.symm.trans status
      | inr valid => rw [valid.2, isTag, TexCache.blockOf, Cache.CacheConfig.tag_blockAddr]
    · dsimp only
      rw [Function.update_apply]
      split
      · rename_i same
        rw [same]
        exact ⟨rfl, rfl⟩
      · exact ⟨rfl, rfl⟩
  | @HIT_RESERVED idx inSet isTag status =>
    -- a line is valid again before the access returns
    rcases consistent.tags idx with invalid | valid
    · cases invalid.symm.trans status
    · cases valid.1.symm.trans status
  | @MISS idx inSet status absent =>
    dsimp only at run
    rw [if_pos config.onMiss] at run
    obtain rfl := Option.some.inj run
    exact Or.inr (Or.inl ⟨idx, rfl, _, config.tag_blockAddr _, rfl, rfl⟩)
  | RESERVATION_FAIL onMiss absent =>
    obtain rfl := Option.some.inj run
    exact Or.inr (Or.inr rfl)

theorem Consistent.newRequest (consistent : Consistent cache) {mf : Nat} (request : MemFetch)
    (new : ∀ e ∈ cache.m_fragment_fifo.contents, e.m_request ≠ mf) :
    Consistent { cache with requests := Function.update cache.requests mf request } := by
  let renewed := { cache with requests := Function.update cache.requests mf request }
  have blocks (e : FragmentEntry config) (member : e ∈ cache.m_fragment_fifo.contents) :
      renewed.blockOf e.m_request = cache.blockOf e.m_request := by
    simp [renewed, TexCache.blockOf, Function.update_of_ne (new e member)]
  have queue : renewed.queue = cache.queue := queue_eq rfl blocks
  refine ⟨consistent.distinct, ?_, consistent.slots, ?_, ?_⟩
  · refine consistent.rob.trans (List.map_congr_left fun e member => ?_)
    rw [blocks e (List.mem_of_mem_filter member)]
  · rw [queue]
    exact consistent.tags
  · rw [queue]
    exact consistent.reads

theorem nodup_concat {entries : List (FragmentEntry config)} {e : FragmentEntry config}
    (distinct : (entries.map (·.m_request)).Nodup) (new : ∀ other ∈ entries, other.m_request ≠ e.m_request) :
    ((entries ++ [e]).map (·.m_request)).Nodup := by
  rw [List.map_append, List.map_singleton]
  refine List.nodup_append.mpr ⟨distinct, List.nodup_singleton _, ?_⟩
  intro request member other last
  obtain ⟨entry, here, rfl⟩ := List.mem_map.mp member
  rw [List.mem_singleton.mp last]
  exact new entry here

section Access

variable {mf : Nat} {idx : config.Index} {size : Nat}

theorem Consistent.hit (consistent : Consistent cache)
    (new : ∀ e ∈ cache.m_fragment_fifo.contents, e.m_request ≠ mf)
    (pushed : cache'.m_fragment_fifo.contents =
      cache.m_fragment_fifo.contents ++ [⟨mf, idx, false, size⟩])
    (found : future cache.m_cache cache.queue idx = ⟨true, cache.blockOf mf⟩)
    (tags : ∀ other, (cache'.m_tags other).m_status = (cache.m_tags other).m_status ∧
      (cache'.m_tags other).m_tag = (cache.m_tags other).m_tag)
    (rob : cache'.m_rob = cache.m_rob) (fields : cache'.m_extra_mf_fields = cache.m_extra_mf_fields)
    (lines : cache'.m_cache = cache.m_cache) (requests : cache'.requests = cache.requests) :
    Consistent cache' := by
  have blocks (mf : Nat) : cache'.blockOf mf = cache.blockOf mf := by
    rw [TexCache.blockOf, TexCache.blockOf, requests]
  have queue : cache'.queue = cache.queue ++ [.read idx ⟨true, cache.blockOf mf⟩] := by
    rw [queue_eq pushed fun e _ => blocks e.m_request, List.map_append]
    rfl
  refine ⟨?_, ?_, ?_, fun other => ?_, ?_⟩
  · rw [pushed]
    exact nodup_concat consistent.distinct new
  · rw [pushed, rob, List.filter_append]
    simpa [blocks] using consistent.rob
  · rw [rob, fields]
    exact consistent.slots
  · rw [queue, lines, Deferred.future_concat, (tags other).1, (tags other).2]
    exact consistent.tags other
  · rw [queue, lines, Deferred.allFind_concat]
    exact ⟨consistent.reads, found⟩

theorem Consistent.miss (consistent : Consistent cache)
    (new : ∀ e ∈ cache.m_fragment_fifo.contents, e.m_request ≠ mf)
    (pushed : cache'.m_fragment_fifo.contents =
      cache.m_fragment_fifo.contents ++ [⟨mf, idx, true, size⟩])
    (reserved : cache'.m_rob.contents =
      cache.m_rob.contents ++ [⟨false, 0, idx, mf, cache.blockOf mf⟩])
    (slots : ∀ n, cache'.m_rob.slot n = cache.m_rob.slot n)
    (fields : cache'.m_extra_mf_fields =
      Function.update cache.m_extra_mf_fields mf (some (cache.m_rob.slot cache.m_rob.num)))
    (valid : (cache'.m_tags idx).m_status = .VALID ∧ (cache'.m_tags idx).m_tag = cache.blockOf mf)
    (others : ∀ other, other ≠ idx → cache'.m_tags other = cache.m_tags other)
    (lines : cache'.m_cache = cache.m_cache) (blocks : ∀ mf, cache'.blockOf mf = cache.blockOf mf) :
    Consistent cache' := by
  have queue : cache'.queue = cache.queue ++ [.write idx ⟨true, cache.blockOf mf⟩] := by
    rw [queue_eq pushed fun e _ => blocks e.m_request, List.map_append]
    rfl
  refine ⟨?_, ?_, fun n r here => ?_, fun other => ?_, ?_⟩
  · rw [pushed]
    exact nodup_concat consistent.distinct new
  · rw [pushed, reserved, List.filter_append, List.map_append, consistent.rob]
    simp [blocks]
  · rw [slots, fields]
    rw [reserved] at here
    by_cases old : n < cache.m_rob.num
    · rw [List.getElem?_append_left (by simpa using old)] at here
      -- the older entries have other requests
      obtain ⟨e, member, same, -⟩ := consistent.fragment_of_rob (List.mem_of_getElem? here)
      rw [Function.update_of_ne (same ▸ new e member)]
      exact consistent.slots n r here
    · rw [List.getElem?_append_right (by simpa using Nat.le_of_not_lt old)] at here
      obtain ⟨last, entry⟩ := List.getElem?_eq_some_iff.mp here
      have number : n = cache.m_rob.num := by
        simp at last
        omega
      subst number
      simp at entry
      rw [← entry, Function.update_self]
  · rw [queue, lines, Deferred.future_concat, Deferred.Op.perform]
    by_cases here : other = idx
    · rw [here, Function.update_self, valid.2]
      exact Or.inr ⟨valid.1, rfl⟩
    · rw [Function.update_of_ne here, others other here]
      exact consistent.tags other
  · rw [queue, lines, Deferred.allFind_concat]
    exact ⟨consistent.reads, trivial⟩

/-- Either nothing happens, or the fragment joins the queue; a miss also has an entry in the
    reorder buffer and a request. -/
theorem access_spec (consistent : Consistent cache) {time : BitVec 32}
    {status : CacheRequestStatus} (new : ∀ e ∈ cache.m_fragment_fifo.contents, e.m_request ≠ mf)
    (run : cache.access mf time = some (cache', status)) :
    (status = .RESERVATION_FAIL ∧ cache' = cache) ∨
    (status ≠ .RESERVATION_FAIL ∧ Consistent cache' ∧ cache'.m_result_fifo = cache.m_result_fifo ∧
      (∃ e, e.m_request = mf ∧
        cache'.m_fragment_fifo.contents = cache.m_fragment_fifo.contents ++ [e]) ∧
      ((cache'.m_request_fifo = cache.m_request_fifo ∧ cache'.m_rob = cache.m_rob) ∨
        (cache'.m_request_fifo.contents = cache.m_request_fifo.contents ++ [mf] ∧
          ∃ r, r.m_request = mf ∧ r.m_ready = false ∧
            cache'.m_rob.contents = cache.m_rob.contents ++ [r]))) := by
  rw [TexCache.access] at run
  split at run
  · obtain ⟨rfl, rfl⟩ := Prod.mk.inj (Option.some.inj run)
    exact Or.inl ⟨rfl, rfl⟩
  · rename_i room
    simp only [Bool.or_eq_true, not_or, Bool.not_eq_true] at room
    obtain ⟨⟨fragmentRoom, requestRoom⟩, robRoom⟩ := room
    right
    split at run
    · cases run
    obtain ⟨tags, tagged, run⟩ := Option.bind_eq_some_iff.mp run
    rcases tags_spec consistent tagged with ⟨idx, isHit, found, same⟩ |
      ⟨idx, isMiss, block, isTag, isReserved, lines⟩ | fail
    · rw [isHit] at run
      obtain ⟨fragments, push, pushed, -⟩ := RingBuffer.push_spec fragmentRoom
        ⟨mf, idx, false, (cache.requests mf).m_data_size⟩
      simp only [push, Option.bind_eq_bind, Option.bind_some] at run
      obtain ⟨rfl, rfl⟩ := Prod.mk.inj (Option.some.inj run)
      refine ⟨CacheRequestStatus.noConfusion, ?_, rfl, ⟨_, rfl, pushed⟩, Or.inl ⟨rfl, rfl⟩⟩
      exact consistent.hit new pushed found same rfl rfl rfl rfl
    · rw [isMiss] at run
      obtain ⟨fragments, pushFragment, pushed, -⟩ := RingBuffer.push_spec fragmentRoom
        ⟨mf, idx, true, (cache.requests mf).m_data_size⟩
      obtain ⟨entries, pushRob, reserved, -, slots⟩ := RingBuffer.push_spec robRoom
        ⟨false, 0, idx, mf, cache.blockOf mf⟩
      obtain ⟨requests, pushRequest, requested, -⟩ := RingBuffer.push_spec requestRoom mf
      have fill : fillIndex tags.m_lines idx time = some (Function.update tags.m_lines idx
          { block with m_status := .VALID, m_fill_time := time }) := by
        simp [fillIndex, config.onMiss, lines, CacheBlock.fill, isReserved]
      simp only [pushFragment, TexCache.sendRequest, pushRob, pushRequest, fill,
        Option.bind_eq_bind, Option.bind_some] at run
      obtain ⟨rfl, rfl⟩ := Prod.mk.inj (Option.some.inj run)
      refine ⟨CacheRequestStatus.noConfusion, ?_, rfl, ⟨_, rfl, pushed⟩,
        Or.inr ⟨requested, _, rfl, rfl, reserved⟩⟩
      apply consistent.miss new pushed reserved slots rfl
      · simp [isTag]
      · intro other apart
        simp [lines, Function.update_of_ne apart]
      · rfl
      · intro other
        rw [TexCache.blockOf, TexCache.blockOf]
        by_cases here : other = mf
        · rw [here]
          simp
        · simp [Function.update_of_ne here]
    · rw [fail] at run
      cases run

end Access

/-! ## Cycles -/

theorem sendNext_spec (cache : TexCache config) (portFull : Bool) :
    ∃ m_request_fifo sent, cache.sendNext portFull = some ({ cache with m_request_fifo }, sent) ∧
      cache.m_request_fifo.contents = sent.toList ++ m_request_fifo.contents ∧
      (sent = none → portFull = false → cache.m_request_fifo.contents = []) := by
  rw [TexCache.sendNext]
  cases port : portFull with
  | true => exact ⟨cache.m_request_fifo, none, by simp, rfl, by simp⟩
  | false =>
    cases requests : cache.m_request_fifo.contents with
    | nil =>
      have empty := RingBuffer.empty_iff.mpr requests
      exact ⟨cache.m_request_fifo, none, by simp [empty], by simp [requests], by simp⟩
    | cons mf rest =>
      have nonempty : cache.m_request_fifo.empty = false := by
        rw [Bool.eq_false_iff, Ne, RingBuffer.empty_iff, requests]
        exact List.cons_ne_nil mf rest
      obtain ⟨popped, pop, contents, -⟩ := RingBuffer.pop_spec requests
      exact ⟨popped, some mf, by simp [nonempty, pop], by simp [contents], by simp⟩

theorem Consistent.next (consistent : Consistent cache) {e : FragmentEntry config}
    {rest : List (FragmentEntry config)} (head : cache.m_fragment_fifo.contents = e :: rest)
    (popped : cache'.m_fragment_fifo.contents = rest)
    (lines : cache'.m_cache = (cache.deferred e).perform cache.m_cache)
    (tags : cache'.m_tags = cache.m_tags) (requests : cache'.requests = cache.requests)
    (rob : cache'.m_rob.contents.map (fun r => (r.m_request, r.m_index, r.m_block_addr)) =
      (rest.filter (·.m_miss)).map fun e => (e.m_request, e.m_cache_index, cache.blockOf e.m_request))
    (slots : ∀ n r, cache'.m_rob.contents[n]? = some r →
      cache'.m_extra_mf_fields r.m_request = some (cache'.m_rob.slot n)) :
    Consistent cache' := by
  have blocks (mf : Nat) : cache'.blockOf mf = cache.blockOf mf := by
    rw [TexCache.blockOf, TexCache.blockOf, requests]
  have queue : cache.queue = cache.deferred e :: cache'.queue := by
    rw [queue_eq popped fun e _ => blocks e.m_request, TexCache.queue, head, List.map_cons]
  have distinct := consistent.distinct
  have reads := consistent.reads
  rw [head, List.map_cons] at distinct
  rw [queue] at reads
  refine ⟨?_, ?_, slots, fun idx => ?_, ?_⟩
  · rw [popped]
    exact (List.nodup_cons.mp distinct).2
  · simpa [popped, blocks] using rob
  · rw [tags, lines, ← Deferred.future_cons, ← queue]
    exact consistent.tags idx
  · rw [lines]
    exact reads.2

/-- What a cycle does with the fragment at the head: it has its turn, or it waits for room or for
    the answer of the memory. -/
theorem readNext_spec (consistent : Consistent cache) :
    ∃ cache', cache.readNext = some cache' ∧
      ((cache' = cache ∧ (cache.m_fragment_fifo.contents = [] ∨ cache.m_result_fifo.full = true ∨
          ∃ r ∈ cache.m_rob.contents, r.m_ready = false)) ∨
        (Consistent cache' ∧ cache'.m_request_fifo = cache.m_request_fifo ∧
          ∃ e rest, cache.m_fragment_fifo.contents = e :: rest ∧
            cache'.m_fragment_fifo.contents = rest ∧
            cache'.m_result_fifo.contents = cache.m_result_fifo.contents ++ [e.m_request] ∧
            cache'.m_result_fifo.size = cache.m_result_fifo.size ∧
            cache'.m_cache e.m_cache_index = ⟨true, cache.blockOf e.m_request⟩ ∧
            (cache'.m_rob = cache.m_rob ∨
              ∃ r, r.m_ready = true ∧ cache.m_rob.contents = r :: cache'.m_rob.contents))) := by
  rw [TexCache.readNext]
  cases fragments : cache.m_fragment_fifo.contents with
  | nil =>
    have empty := RingBuffer.empty_iff.mpr fragments
    exact ⟨cache, by simp [empty], Or.inl ⟨rfl, Or.inl rfl⟩⟩
  | cons e rest =>
    cases full : cache.m_result_fifo.full with
    | true => exact ⟨cache, by simp, Or.inl ⟨rfl, Or.inr (Or.inl rfl)⟩⟩
    | false =>
      have nonempty : cache.m_fragment_fifo.empty = false := by
        rw [Bool.eq_false_iff, Ne, RingBuffer.empty_iff, fragments]
        exact List.cons_ne_nil e rest
      obtain ⟨results, pushResult, pushed, size, -⟩ := RingBuffer.push_spec full e.m_request
      obtain ⟨left, pop, popped, -⟩ := RingBuffer.pop_spec fragments
      have moved (cache' : TexCache config) (sameResults : cache'.m_result_fifo = cache.m_result_fifo)
          (sameFragments : cache'.m_fragment_fifo = cache.m_fragment_fifo) : cache'.moveHead e =
          some { cache' with m_result_fifo := results, m_fragment_fifo := left } := by
        simp [TexCache.moveHead, sameResults, sameFragments, pushResult, pop]
      have reads := consistent.reads
      rw [TexCache.queue, fragments, List.map_cons] at reads
      simp only [nonempty, Bool.or_self, Bool.false_eq_true, if_false, RingBuffer.peek_spec fragments]
      cases miss : e.m_miss with
      | false =>
        have found : cache.m_cache e.m_cache_index = ⟨true, cache.blockOf e.m_request⟩ := by
          have finds := reads.1
          rw [TexCache.deferred, miss] at finds
          exact finds
        refine ⟨{ cache with m_result_fifo := results, m_fragment_fifo := left },
          by simp [found, moved cache rfl rfl],
          Or.inr ⟨?_, rfl, e, rest, rfl, popped, pushed, size, found, Or.inl rfl⟩⟩
        apply consistent.next fragments popped
        · simp [TexCache.deferred, miss, Deferred.Op.perform]
        · rfl
        · rfl
        · rw [consistent.rob, fragments, List.filter_cons_of_neg (by simp [miss])]
        · exact consistent.slots
      | true =>
        have rob := consistent.rob
        rw [fragments, List.filter_cons_of_pos miss, List.map_cons] at rob
        cases entries : cache.m_rob.contents with
        | nil =>
          rw [entries] at rob
          cases rob
        | cons r others =>
          -- the oldest entry is that of the fragment
          rw [entries, List.map_cons] at rob
          obtain ⟨same, robRest⟩ := List.cons.inj rob
          obtain ⟨request, indexAndBlock⟩ := Prod.mk.inj same
          obtain ⟨index, block⟩ := Prod.mk.inj indexAndBlock
          simp only [RingBuffer.peekAt_tail entries, Option.bind_eq_bind, Option.bind_some, request,
            block, index]
          cases ready : r.m_ready with
          | false =>
            exact ⟨cache, by simp, Or.inl ⟨rfl, Or.inr (Or.inr ⟨r, List.mem_cons_self, ready⟩)⟩⟩
          | true =>
            obtain ⟨robLeft, popRob, robPopped, -, shift⟩ := RingBuffer.pop_spec entries
            let filled : TexCache config := { cache with
              m_cache := Function.update cache.m_cache e.m_cache_index
                ⟨true, cache.blockOf e.m_request⟩ }
            refine ⟨{ filled with m_result_fifo := results, m_fragment_fifo := left, m_rob := robLeft },
              ?_, Or.inr ⟨?_, rfl, e, rest, rfl, popped, pushed, size, ?_, Or.inr ⟨r, ready, ?_⟩⟩⟩
            · simp [moved filled rfl rfl, filled, popRob]
            · apply consistent.next fragments popped
              · simp [TexCache.deferred, miss, Deferred.Op.perform, filled]
              · rfl
              · rfl
              · rw [← robRest, ← robPopped]
              · intro n entry here
                rw [robPopped] at here
                rw [shift]
                exact consistent.slots (n + 1) entry (by rw [entries, List.getElem?_cons_succ, here])
            · simp [filled]
            · rw [robPopped]

/-! ## Answers -/

theorem fill_spec (consistent : Consistent cache) {n : Nat} {r : RobEntry config}
    (here : cache.m_rob.contents[n]? = some r) (waits : r.m_ready = false) (time : BitVec 32) :
    ∃ m_rob, cache.fill r.m_request time = some { cache with m_rob } ∧
      m_rob.contents = cache.m_rob.contents.set n { r with m_ready := true, m_time := time } ∧
      Consistent { cache with m_rob } := by
  have below : n < cache.m_rob.num := by
    rw [← RingBuffer.length_contents]
    exact (List.getElem?_eq_some_iff.mp here).1
  have nonempty : cache.m_rob.empty = false := by
    rw [RingBuffer.empty, decide_eq_false_iff_not]
    omega
  obtain ⟨e, -, -, block⟩ := consistent.fragment_of_rob (List.mem_of_getElem? here)
  have contents := RingBuffer.modify_spec below { r with m_ready := true, m_time := time }
  refine ⟨cache.m_rob.modify (cache.m_rob.slot n) { r with m_ready := true, m_time := time }, ?_,
    contents, consistent.distinct, ?_, ?_, consistent.tags, consistent.reads⟩
  · simp [TexCache.fill, consistent.slots n r here, nonempty, RingBuffer.peekAt_slot here, waits,
      block]
  · -- the entry keeps what the fragment knows of it
    have key : (cache.m_rob.contents.map fun r => (r.m_request, r.m_index, r.m_block_addr))[n]? =
        some (r.m_request, r.m_index, r.m_block_addr) := by
      rw [List.getElem?_map, here]
      rfl
    obtain ⟨inside, entry⟩ := List.getElem?_eq_some_iff.mp key
    have unchanged : (cache.m_rob.contents.map fun r => (r.m_request, r.m_index, r.m_block_addr)).set
        n (r.m_request, r.m_index, r.m_block_addr) =
        cache.m_rob.contents.map fun r => (r.m_request, r.m_index, r.m_block_addr) := by
      rw [← entry, List.set_getElem_self]
    dsimp only
    rw [contents, List.map_set]
    exact unchanged.trans consistent.rob
  · intro m entry there
    dsimp only at there ⊢
    rw [contents, List.getElem?_set] at there
    rw [RingBuffer.slot_modify]
    split at there
    · rename_i same
      subst same
      rw [if_pos (by simpa using below)] at there
      obtain rfl := Option.some.inj there
      exact consistent.slots n r here
    · exact consistent.slots m entry there

theorem not_ready_set {entries : List (RobEntry config)} {r answered : RobEntry config} {n : Nat}
    (distinct : (entries.map (·.m_request)).Nodup) (here : entries[n]? = some r)
    (ready : answered.m_ready = true) (other : Nat) :
    (∃ entry ∈ entries.set n answered, entry.m_request = other ∧ entry.m_ready = false) ↔
      other ≠ r.m_request ∧ ∃ entry ∈ entries, entry.m_request = other ∧ entry.m_ready = false := by
  have request {m : Nat} {entry : RobEntry config} (there : entries[m]? = some entry) :
      (entries.map (·.m_request))[m]? = some entry.m_request := by
    rw [List.getElem?_map, there]
    rfl
  have only_here {m : Nat} {entry : RobEntry config} (there : entries[m]? = some entry)
      (same : entry.m_request = r.m_request) : m = n := by
    have lt := (List.getElem?_eq_some_iff.mp (request there)).1
    apply (List.getElem?_inj lt distinct).mp
    rw [request there, request here, same]
  constructor
  · rintro ⟨entry, member, isOther, waits⟩
    obtain ⟨m, there⟩ := List.mem_iff_getElem?.mp member
    rw [List.getElem?_set] at there
    split at there
    · split at there
      · rw [← Option.some.inj there, ready] at waits
        cases waits
      · cases there
    · rename_i apart
      refine ⟨fun same => ?_, entry, List.mem_of_getElem? there, isOther, waits⟩
      exact apart (only_here there (isOther.trans same)).symm
  · rintro ⟨apart, entry, member, isOther, waits⟩
    obtain ⟨m, there⟩ := List.mem_iff_getElem?.mp member
    have elsewhere : n ≠ m := by
      rintro rfl
      rw [here] at there
      exact apart (by rw [← isOther, Option.some.inj there])
    refine ⟨entry, List.mem_of_getElem? (i := m) ?_, isOther, waits⟩
    rw [List.getElem?_set_ne elsewhere, there]

/-! ## Runs -/

section Runs

variable {system system' : System config}

theorem Inv.fragment_of_waiting (inv : Inv system) {mf : Nat}
    (waits : mf ∈ system.cache.m_request_fifo.contents ++ system.outstanding) :
    ∃ e ∈ system.cache.m_fragment_fifo.contents, e.m_request = mf := by
  obtain ⟨r, member, request, -⟩ := (inv.waiting mf).mp waits
  obtain ⟨e, here, same, -⟩ := inv.consistent.fragment_of_rob member
  exact ⟨e, here, same.trans request⟩

theorem Inv.access (inv : Inv system) {mf : Nat} {request : MemFetch} {time : BitVec 32}
    (new : ∀ e ∈ system.cache.m_fragment_fifo.contents, e.m_request ≠ mf)
    (run : system.act (.access mf request time) = some system') : Inv system' := by
  obtain ⟨⟨cache, status⟩, access, run⟩ := Option.bind_eq_some_iff.mp run
  have fresh := inv.consistent.newRequest request new
  rcases access_spec fresh new access with ⟨rfl, rfl⟩ |
    ⟨accepted, consistent, results, ⟨e, isMf, fragments⟩, rest⟩
  · cases run
    exact ⟨fresh, inv.log, inv.waiting, inv.once, inv.capacity⟩
  · simp only [accepted, if_false] at run
    cases run
    refine ⟨consistent, ?_, ?_, ?_, ?_⟩
    · dsimp only
      rw [results, fragments, inv.log, List.map_append, List.map_singleton, isMf]
      simp [List.append_assoc]
    · rcases rest with ⟨requests, rob⟩ | ⟨requests, r, isRequest, waits, rob⟩
      · dsimp only
        rw [requests, rob]
        exact inv.waiting
      · intro other
        dsimp only
        rw [requests, rob]
        have before := inv.waiting other
        simp only [List.mem_append, List.mem_singleton] at before ⊢
        constructor
        · rintro ((old | rfl) | old)
          · obtain ⟨entry, member, same⟩ := before.mp (Or.inl old)
            exact ⟨entry, Or.inl member, same⟩
          · exact ⟨r, Or.inr rfl, isRequest, waits⟩
          · obtain ⟨entry, member, same⟩ := before.mp (Or.inr old)
            exact ⟨entry, Or.inl member, same⟩
        · rintro ⟨entry, member | rfl, same⟩
          · rcases before.mpr ⟨entry, member, same⟩ with old | old
            · exact Or.inl (Or.inl old)
            · exact Or.inr old
          · exact Or.inl (Or.inr (same.1.symm.trans isRequest))
    · rcases rest with ⟨requests, rob⟩ | ⟨requests, r, isRequest, waits, rob⟩
      · dsimp only
        rw [requests]
        exact inv.once
      · dsimp only
        rw [requests, List.append_assoc, List.singleton_append, List.nodup_middle]
        refine List.nodup_cons.mpr ⟨fun asked => ?_, inv.once⟩
        obtain ⟨e, member, same⟩ := inv.fragment_of_waiting asked
        exact new e member same
    · dsimp only
      rw [results]
      exact inv.capacity

theorem Inv.cycle (inv : Inv system) (portFull : Bool) :
    ∃ cache' sent, system.cache.cycle portFull = some (cache', sent) ∧
      Inv { system with cache := cache', outstanding := system.outstanding ++ sent.toList } ∧
      system.cache.m_request_fifo.contents = sent.toList ++ cache'.m_request_fifo.contents ∧
      (sent = none → portFull = false → system.cache.m_request_fifo.contents = []) ∧
      ((cache'.m_result_fifo = system.cache.m_result_fifo ∧
          cache'.m_fragment_fifo = system.cache.m_fragment_fifo ∧
          (system.cache.m_fragment_fifo.contents = [] ∨ system.cache.m_result_fifo.full = true ∨
            ∃ r ∈ system.cache.m_rob.contents, r.m_ready = false)) ∨
        ∃ e rest, system.cache.m_fragment_fifo.contents = e :: rest ∧
          cache'.m_fragment_fifo.contents = rest ∧
          cache'.m_result_fifo.contents = system.cache.m_result_fifo.contents ++ [e.m_request] ∧
          cache'.m_cache e.m_cache_index = ⟨true, system.cache.blockOf e.m_request⟩) := by
  obtain ⟨m_request_fifo, sent, send, split, none_sent⟩ := sendNext_spec system.cache portFull
  have consistent : Consistent { system.cache with m_request_fifo } :=
    ⟨inv.consistent.distinct, inv.consistent.rob, inv.consistent.slots, inv.consistent.tags,
      inv.consistent.reads⟩
  -- a request that is sent is asked for as before
  have same : (system.cache.m_request_fifo.contents ++ system.outstanding).Perm
      (m_request_fifo.contents ++ (system.outstanding ++ sent.toList)) := by
    rw [split, List.append_assoc, ← List.append_assoc m_request_fifo.contents]
    exact List.perm_append_comm
  have waiting (mf : Nat) : mf ∈ m_request_fifo.contents ++ (system.outstanding ++ sent.toList) ↔
      ∃ r ∈ system.cache.m_rob.contents, r.m_request = mf ∧ r.m_ready = false := by
    rw [← same.mem_iff]
    exact inv.waiting mf
  have once := same.nodup_iff.mp inv.once
  obtain ⟨cache', read, done⟩ := readNext_spec consistent
  refine ⟨cache', sent, by simp [TexCache.cycle, send, read], ?_⟩
  rcases done with ⟨rfl, reason⟩ |
    ⟨consistent', requests, e, rest, fragments, popped, pushed, size, line, rob⟩
  · exact ⟨⟨consistent, inv.log, waiting, once, inv.capacity⟩, split, none_sent,
      Or.inl ⟨rfl, rfl, reason⟩⟩
  · refine ⟨⟨consistent', ?_, fun mf => ?_, ?_, size.trans inv.capacity⟩, ?_, none_sent,
      Or.inr ⟨e, rest, fragments, popped, pushed, line⟩⟩
    · dsimp only at fragments pushed ⊢
      rw [inv.log, fragments, popped, pushed]
      simp
    · dsimp only
      rw [requests, waiting mf]
      cases rob with
      | inl unchanged => rw [unchanged]
      | inr taken =>
        obtain ⟨r, ready, entries⟩ := taken
        dsimp only at entries
        rw [entries, List.exists_mem_cons_iff]
        exact or_iff_right fun head => by rw [ready] at head; cases head.2
    · dsimp only
      rw [requests]
      exact once
    · rw [requests]
      exact split

theorem Inv.fill (inv : Inv system) {mf : Nat} (asked : mf ∈ system.outstanding)
    (time : BitVec 32) :
    ∃ cache', system.cache.fill mf time = some cache' ∧
      Inv { system with cache := cache', outstanding := system.outstanding.erase mf } ∧
      cache'.m_request_fifo = system.cache.m_request_fifo ∧
      cache'.m_result_fifo = system.cache.m_result_fifo ∧
      cache'.m_fragment_fifo = system.cache.m_fragment_fifo := by
  obtain ⟨r, member, isRequest, waits⟩ := (inv.waiting mf).mp (List.mem_append_right _ asked)
  obtain ⟨n, inside, here⟩ := List.mem_iff_getElem.mp member
  have entry : system.cache.m_rob.contents[n]? = some r :=
    List.getElem?_eq_some_iff.mpr ⟨inside, here⟩
  obtain ⟨m_rob, fill, contents, consistent⟩ := fill_spec inv.consistent entry waits time
  rw [isRequest] at fill
  refine ⟨_, fill, ⟨consistent, inv.log, fun other => ?_, ?_, inv.capacity⟩, rfl, rfl, rfl⟩
  · have once := List.nodup_append.mp inv.once
    have apart (sent : other ∈ system.cache.m_request_fifo.contents) : other ≠ mf :=
      once.2.2 other sent mf asked
    have others : other ∈ system.cache.m_request_fifo.contents ++ system.outstanding.erase mf ↔
        other ≠ mf ∧ other ∈ system.cache.m_request_fifo.contents ++ system.outstanding := by
      rw [List.mem_append, List.mem_append, once.2.1.mem_erase_iff]
      tauto
    dsimp only
    rw [others, inv.waiting other, contents,
      not_ready_set inv.consistent.rob_distinct entry rfl other, isRequest]
  · dsimp only
    refine List.Nodup.sublist ?_ inv.once
    exact List.Sublist.append_left List.erase_sublist _

theorem Inv.next_access (inv : Inv system) {mf : Nat} {rest : List Nat}
    (results : system.cache.m_result_fifo.contents = mf :: rest) :
    ∃ cache', system.cache.next_access = some (cache', mf) ∧
      Inv { system with cache := cache', delivered := system.delivered ++ [mf] } ∧
      cache'.m_result_fifo.contents = rest ∧
      cache'.m_request_fifo = system.cache.m_request_fifo ∧
      cache'.m_fragment_fifo = system.cache.m_fragment_fifo := by
  obtain ⟨m_result_fifo, pop, contents, size, -⟩ := RingBuffer.pop_spec results
  refine ⟨{ system.cache with m_result_fifo }, by simp [TexCache.next_access, pop],
    ⟨⟨inv.consistent.distinct, inv.consistent.rob, inv.consistent.slots, inv.consistent.tags,
      inv.consistent.reads⟩, ?_, inv.waiting, inv.once, size.trans inv.capacity⟩, contents, rfl, rfl⟩
  dsimp only
  rw [inv.log, results, contents]
  simp

theorem Inv.act (inv : Inv system) {action : Action} (allowed : system.Allowed action)
    (run : system.act action = some system') : Inv system' := by
  cases action with
  | access mf request time => exact inv.access allowed run
  | cycle portFull =>
    obtain ⟨cache', sent, cycle, inv', -⟩ := inv.cycle portFull
    simp only [System.act, cycle, Option.bind_eq_bind, Option.bind_some] at run
    exact Option.some.inj run ▸ inv'
  | fill mf time =>
    obtain ⟨cache', fill, inv', -⟩ := inv.fill allowed time
    simp only [System.act, fill, Option.bind_eq_bind, Option.bind_some] at run
    exact Option.some.inj run ▸ inv'
  | next_access =>
    cases results : system.cache.m_result_fifo.contents with
    | nil => exact absurd (RingBuffer.empty_iff.mpr results) (by simp [show _ = false from allowed])
    | cons mf rest =>
      obtain ⟨cache', next, inv', -⟩ := inv.next_access results
      simp only [System.act, next, Option.bind_eq_bind, Option.bind_some] at run
      exact Option.some.inj run ▸ inv'

theorem inv_of_reachable (reachable : Reachable system) : Inv system := by
  induction reachable with
  | new fragments entries fetches addresses requests =>
    have nothing : Consistent (.new fragments entries fetches addresses requests : TexCache config) :=
      ⟨by simp [TexCache.new], rfl, by simp [TexCache.new], fun _ => Or.inl rfl, trivial⟩
    exact ⟨nothing, rfl, by simp [TexCache.new], by simp [TexCache.new], rfl⟩
  | step action _ allowed run inv => exact inv.act allowed run

/-! ## Working off -/

/-- The accesses end; the cache works, the memory answers and the results are taken. -/
inductive WorksOff : System config → System config → Prop where
  | done (system : System config) : WorksOff system system
  | step {system system' last : System config} (action : Action) :
      (∀ mf request time, action ≠ .access mf request time) → system.Allowed action →
      system.act action = some system' → WorksOff system' last → WorksOff system last

/-- What is still to be done, counted so that each step lowers it. -/
def System.load (system : System config) : Nat :=
  4 * system.cache.m_request_fifo.contents.length + 3 * system.outstanding.length +
    2 * system.cache.m_fragment_fifo.contents.length + system.cache.m_result_fifo.contents.length

theorem Inv.progress (inv : Inv system) (room : 0 < config.m_result_fifo_entries)
    (missing : system.delivered ≠ system.accepted) :
    ∃ action system', (∀ mf request time, action ≠ .access mf request time) ∧
      system.Allowed action ∧ system.act action = some system' ∧
      system'.accepted = system.accepted ∧ system'.load < system.load := by
  cases results : system.cache.m_result_fifo.contents with
  | cons mf rest =>
    obtain ⟨cache', next, inv', results', requests', fragments'⟩ := inv.next_access results
    have nonempty : system.cache.m_result_fifo.empty = false := by
      rw [Bool.eq_false_iff, Ne, RingBuffer.empty_iff, results]
      exact List.cons_ne_nil mf rest
    have run : system.act .next_access =
        some { system with cache := cache', delivered := system.delivered ++ [mf] } := by
      rw [System.act, next]
      rfl
    refine ⟨.next_access, _, by simp, nonempty, run, rfl, ?_⟩
    simp [System.load, results, results', requests', fragments']
  | nil =>
    cases outstanding : system.outstanding with
    | cons mf rest =>
      have asked : mf ∈ system.outstanding := by
        rw [outstanding]
        exact List.mem_cons_self
      obtain ⟨cache', fill, inv', requests', results', fragments'⟩ := inv.fill asked 0
      have run : system.act (.fill mf 0) =
          some { system with cache := cache', outstanding := system.outstanding.erase mf } := by
        rw [System.act, fill]
        rfl
      refine ⟨.fill mf 0, _, by simp, asked, run, rfl, ?_⟩
      simp [System.load, results', requests', fragments', outstanding]
    | nil =>
      obtain ⟨cache', sent, cycle, inv', split, none_sent, moved⟩ := inv.cycle false
      have run : system.act (.cycle false) = some { system with
          cache := cache', outstanding := system.outstanding ++ sent.toList } := by
        rw [System.act, cycle]
        rfl
      refine ⟨.cycle false, _, by simp, trivial, run, rfl, ?_⟩
      -- either a request is sent, or the fragment at the head leaves
      have requests := congrArg List.length split
      rw [List.length_append] at requests
      cases sent with
      | some mf =>
        simp only [Option.toList_some, List.length_singleton] at requests
        rcases moved with ⟨results', fragments', -⟩ | ⟨e, rest, fragments, left, results', -⟩
        · simp [System.load, results', fragments', outstanding, requests]
          omega
        · simp [System.load, results', fragments, left, outstanding, requests]
          omega
      | none =>
        have idle := none_sent rfl rfl
        rcases moved with ⟨-, -, reason⟩ | ⟨e, rest, fragments, left, results', -⟩
        · rcases reason with drained | full | ⟨r, member, waits⟩
          · -- no fragment waits, so no result is missing
            refine absurd ?_ missing
            rw [inv.log, results, drained]
            simp
          · rw [RingBuffer.full, decide_eq_true_iff, inv.capacity, ← RingBuffer.length_contents,
              results] at full
            simp at full
            omega
          · -- every request is answered
            have asked := (inv.waiting r.m_request).mpr ⟨r, member, rfl, waits⟩
            rw [idle, outstanding] at asked
            cases asked
        · simp only [Option.toList_none, List.length_nil] at requests
          simp [System.load, results', fragments, left, outstanding, requests, results]
          omega

theorem Inv.worksOff (inv : Inv system) (room : 0 < config.m_result_fifo_entries) :
    ∃ last, WorksOff system last ∧ last.delivered = system.accepted := by
  induction load : system.load using Nat.strong_induction_on generalizing system with
  | _ n ih =>
    by_cases missing : system.delivered = system.accepted
    · exact ⟨system, .done system, missing⟩
    · obtain ⟨action, system', noAccess, allowed, run, same, less⟩ := inv.progress room missing
      obtain ⟨last, rest, all⟩ := ih system'.load (load ▸ less) (inv.act allowed run) rfl
      exact ⟨last, .step action noAccess allowed run rest, all.trans same⟩

end Runs

/-- Whatever is accessed and in whatever order the memory answers: the results that were taken,
    those that can be taken and those that wait are the accesses in their order, once each.  No
    cycle and no answer fails an assertion, and when a result is produced the line it names holds
    its block.  When the accesses end, every result can still be taken. -/
theorem results_in_order {system : System config} (reachable : Reachable system) :
    system.accepted = system.delivered ++ system.cache.m_result_fifo.contents ++
      system.cache.m_fragment_fifo.contents.map (·.m_request) ∧
    (∀ portFull, ∃ cache' sent, system.cache.cycle portFull = some (cache', sent) ∧
      ((cache'.m_result_fifo = system.cache.m_result_fifo ∧
          cache'.m_fragment_fifo = system.cache.m_fragment_fifo) ∨
        ∃ e rest, system.cache.m_fragment_fifo.contents = e :: rest ∧
          cache'.m_fragment_fifo.contents = rest ∧
          cache'.m_result_fifo.contents = system.cache.m_result_fifo.contents ++ [e.m_request] ∧
          cache'.m_cache e.m_cache_index = ⟨true, system.cache.blockOf e.m_request⟩)) ∧
    (∀ mf ∈ system.outstanding, ∀ time, ∃ cache', system.cache.fill mf time = some cache') ∧
    (0 < config.m_result_fifo_entries →
      ∃ last, WorksOff system last ∧ last.delivered = system.accepted) := by
  have inv := inv_of_reachable reachable
  refine ⟨inv.log, fun portFull => ?_, fun mf asked time => ?_, inv.worksOff⟩
  · obtain ⟨cache', sent, cycle, -, -, -, moved⟩ := inv.cycle portFull
    refine ⟨cache', sent, cycle, ?_⟩
    rcases moved with ⟨results, fragments, -⟩ | leaves
    · exact Or.inl ⟨results, fragments⟩
    · exact Or.inr leaves
  · obtain ⟨cache', fill, -⟩ := inv.fill asked time
    exact ⟨cache', fill⟩

/-- One line, and room for one access. -/
def smallest : TexConfig where
  toCacheConfig := .oneSet 1 .READ_ONLY .ON_MISS .NO_WRITE_ALLOCATE 1 1
  m_fragment_fifo_entries := 1
  m_request_fifo_entries := 1
  m_rob_entries := 1
  m_result_fifo_entries := 1
  readOnly := rfl
  onMiss := rfl

def smallestNew : System smallest :=
  let line : smallest.Index := (⟨0, Nat.one_pos⟩, ⟨0, Nat.one_pos⟩)
  ⟨.new (fun _ => ⟨0, line, false, 0⟩) (fun _ => ⟨false, 0, line, 0, 0⟩) (fun _ => 0) (fun _ => 0)
    fun _ => ⟨0, 0⟩, [], [], []⟩

/-- The first access misses. -/
theorem results_in_order_miss : ∃ system : System smallest, Reachable system ∧
    system.accepted = [7] ∧ system.cache.m_request_fifo.contents = [7] ∧
    ∃ last, WorksOff system last ∧ last.delivered = [7] := by
  have start : Reachable smallestNew := .new ..
  have run : (smallestNew.act (.access 7 ⟨0x1000, 4⟩ 0)).map (fun system =>
      (system.accepted, system.cache.m_request_fifo.contents)) = some ([7], [7]) := by
    decide
  obtain ⟨system, accessed, seen⟩ := Option.map_eq_some_iff.mp run
  obtain ⟨accepted, requested⟩ := Prod.mk.inj seen
  have missed := start.step (.access 7 ⟨0x1000, 4⟩ 0) (by intro e here; cases here) accessed
  have last := (results_in_order missed).2.2.2 (by decide)
  rw [accepted] at last
  exact ⟨system, missed, accepted, requested, last⟩

end AesOnGpu.Texture
