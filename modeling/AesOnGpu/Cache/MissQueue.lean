import AesOnGpu.Cache.MissCompletion

/-! # The bound of the miss queue

Each handler tests once for the requests that it may queue: `miss_queue_full (n)` asks for room
for `n + 1` of them.  Here every operation is allowed at any time, also those that the
surroundings of a cache do not do.
-/

namespace AesOnGpu.Cache

variable {config : CacheConfig}

def CacheState.Fits (state : CacheState config) : Prop :=
  state.m_miss_queue.length ≤ config.m_miss_queue_size

theorem room_of_notFull {state : CacheState config} {num_miss : Nat}
    (notFull : ¬ missQueueFull state num_miss = true) :
    state.m_miss_queue.length + num_miss + 1 ≤ config.m_miss_queue_size := by
  simp only [missQueueFull, ge_iff_le, decide_eq_true_eq] at notFull
  omega

theorem sendReadRequest_queue {effect : Effect config} {block_addr : Address}
    {cache_index : config.Index} {mf : Uid} {time : BitVec 32} {read_only wa : Bool}
    {request : ReadRequest config}
    (run : sendReadRequest effect block_addr cache_index mf time read_only wa = some request) :
    request.effect.state.m_miss_queue.length ≤ effect.state.m_miss_queue.length + 1 := by
  rw [sendReadRequest] at run
  split at run
  · -- merged
    obtain ⟨access, _, run⟩ := Option.bind_eq_some_iff.mp run
    obtain ⟨m_mshrs, _, run⟩ := Option.bind_eq_some_iff.mp run
    obtain rfl := Option.some.inj run
    exact Nat.le_succ _
  · split at run
    · obtain ⟨access, _, run⟩ := Option.bind_eq_some_iff.mp run
      obtain ⟨m_mshrs, _, run⟩ := Option.bind_eq_some_iff.mp run
      obtain rfl := Option.some.inj run
      exact Nat.le_of_eq (by simp)
    · obtain rfl := Option.some.inj run
      exact Nat.le_succ _

section Handlers

variable {cache : CacheClass} {effect effect' : Effect config} {addr : Address} {mf : Uid}
  {cache_index : config.Index} {time : BitVec 32} {status : RequestStatus}

theorem wrHitWb_fits (fits : effect.state.Fits)
    (run : wrHitWb effect addr cache_index time = some (status, effect')) : effect'.state.Fits := by
  obtain ⟨access, _, run⟩ := Option.bind_eq_some_iff.mp run
  obtain ⟨_, rfl⟩ := Prod.mk.inj (Option.some.inj run)
  exact fits

theorem wrHitWt_fits (fits : effect.state.Fits)
    (run : wrHitWt effect addr cache_index mf time = some (status, effect')) :
    effect'.state.Fits := by
  rw [wrHitWt] at run
  split at run
  · obtain ⟨_, rfl⟩ := Prod.mk.inj (Option.some.inj run)
    exact fits
  · rename_i notFull
    have room := room_of_notFull notFull
    obtain ⟨access, _, run⟩ := Option.bind_eq_some_iff.mp run
    obtain ⟨_, rfl⟩ := Prod.mk.inj (Option.some.inj run)
    simpa [CacheState.Fits, sendWriteRequest] using room

theorem wrHitWe_fits (fits : effect.state.Fits)
    (run : wrHitWe effect cache_index mf = some (status, effect')) : effect'.state.Fits := by
  rw [wrHitWe] at run
  split at run
  · obtain ⟨_, rfl⟩ := Prod.mk.inj (Option.some.inj run)
    exact fits
  · rename_i notFull
    have room := room_of_notFull notFull
    obtain ⟨_, rfl⟩ := Prod.mk.inj (Option.some.inj run)
    simpa [CacheState.Fits, sendWriteRequest] using room

theorem wrMissNoWa_fits (fits : effect.state.Fits)
    (run : wrMissNoWa effect mf = some (status, effect')) : effect'.state.Fits := by
  rw [wrMissNoWa] at run
  split at run
  · obtain ⟨_, rfl⟩ := Prod.mk.inj (Option.some.inj run)
    exact fits
  · rename_i notFull
    have room := room_of_notFull notFull
    obtain ⟨_, rfl⟩ := Prod.mk.inj (Option.some.inj run)
    simpa [CacheState.Fits, sendWriteRequest] using room

theorem rdHitBase_fits (fits : effect.state.Fits)
    (run : rdHitBase effect addr cache_index mf time = some (status, effect')) :
    effect'.state.Fits := by
  obtain ⟨access, _, run⟩ := Option.bind_eq_some_iff.mp run
  dsimp only at run
  split at run
  · split at run
    · obtain ⟨_, rfl⟩ := Prod.mk.inj (Option.some.inj run)
      exact fits
    · cases run
  · obtain ⟨_, rfl⟩ := Prod.mk.inj (Option.some.inj run)
    exact fits

theorem rdMissBase_fits (fits : effect.state.Fits)
    (run : rdMissBase cache effect addr cache_index mf time = some (status, effect')) :
    effect'.state.Fits := by
  rw [rdMissBase] at run
  split at run
  · obtain ⟨_, rfl⟩ := Prod.mk.inj (Option.some.inj run)
    exact fits
  · rename_i notFull
    have room := room_of_notFull notFull
    obtain ⟨request, sends, run⟩ := Option.bind_eq_some_iff.mp run
    have queued := sendReadRequest_queue sends
    have sent : request.effect.state.Fits := by
      rw [CacheState.Fits]
      omega
    split at run
    · split at run
      · split at run
        · obtain ⟨_, rfl⟩ := Prod.mk.inj (Option.some.inj run)
          simp only [CacheState.Fits, sendWriteRequest, allocWriteBack, List.length_append,
            List.length_singleton]
          omega
        · obtain ⟨_, rfl⟩ := Prod.mk.inj (Option.some.inj run)
          exact sent
      · obtain ⟨_, rfl⟩ := Prod.mk.inj (Option.some.inj run)
        exact sent
    · obtain ⟨_, rfl⟩ := Prod.mk.inj (Option.some.inj run)
      exact sent

theorem wrMissWa_fits (fits : effect.state.Fits)
    (run : wrMissWa cache effect addr cache_index mf time = some (status, effect')) :
    effect'.state.Fits := by
  rw [wrMissWa] at run
  split at run
  · obtain ⟨_, rfl⟩ := Prod.mk.inj (Option.some.inj run)
    exact fits
  · rename_i enough
    have notFull : ¬ missQueueFull effect.state 2 = true := fun isFull =>
      enough (by rw [wrMissWaLacks, isFull, Bool.true_or])
    have room := room_of_notFull notFull
    obtain ⟨request, sends, run⟩ := Option.bind_eq_some_iff.mp run
    have queued := sendReadRequest_queue sends
    simp only [sendWriteRequest, List.length_append, List.length_singleton] at queued
    have sent : request.effect.state.Fits := by
      rw [CacheState.Fits]
      omega
    split at run
    · split at run
      · split at run
        · obtain ⟨_, rfl⟩ := Prod.mk.inj (Option.some.inj run)
          simp only [CacheState.Fits, allocWriteBack, List.length_append, List.length_singleton]
          omega
        · obtain ⟨_, rfl⟩ := Prod.mk.inj (Option.some.inj run)
          exact sent
      · obtain ⟨_, rfl⟩ := Prod.mk.inj (Option.some.inj run)
        exact sent
    · obtain ⟨_, rfl⟩ := Prod.mk.inj (Option.some.inj run)
      exact sent

theorem wrHit_fits (fits : effect.state.Fits)
    (run : wrHit effect addr cache_index mf time = some (status, effect')) :
    effect'.state.Fits := by
  rw [wrHit] at run
  split at run
  · cases run
  · exact wrHitWb_fits fits run
  · exact wrHitWt_fits fits run
  · exact wrHitWe_fits fits run
  · rw [wrHitGlobalWeLocalWb] at run
    split at run
    · exact wrHitWe_fits fits run
    · exact wrHitWb_fits fits run

theorem wrMiss_fits (fits : effect.state.Fits)
    (run : wrMiss cache effect addr cache_index mf time = some (status, effect')) :
    effect'.state.Fits := by
  rw [wrMiss] at run
  split at run
  · exact wrMissWa_fits fits run
  · exact wrMissNoWa_fits fits run

theorem dataAccess_fits (fits : effect.state.Fits)
    (run : dataAccess cache effect addr mf time = some (status, effect')) :
    effect'.state.Fits := by
  obtain ⟨probed, _, run⟩ := dataAccess_some run
  have refused (run : some (RequestStatus.RESERVATION_FAIL, effect) = some (status, effect')) :
      effect'.state.Fits := by
    obtain ⟨_, rfl⟩ := Prod.mk.inj (Option.some.inj run)
    exact fits
  rw [processTagProbe.eq_def] at run
  split at run
  · cases probed with
    | HIT idx => exact wrHit_fits fits run
    | HIT_RESERVED idx | MISS idx => exact wrMiss_fits fits run
    | RESERVATION_FAIL => exact refused run
  · cases probed with
    | HIT idx => exact rdHitBase_fits fits run
    | HIT_RESERVED idx | MISS idx => exact rdMissBase_fits fits run
    | RESERVATION_FAIL => exact refused run

theorem readOnlyMiss_fits (fits : effect.state.Fits) {block_addr : Address}
    (run : (if missQueueFull effect.state 0 then return (.RESERVATION_FAIL, effect)
      else do
        let request ← sendReadRequest effect block_addr cache_index mf time true false
        return (if request.do_miss then .MISS else .RESERVATION_FAIL, request.effect)) =
      some (status, effect')) : effect'.state.Fits := by
  split at run
  · obtain ⟨_, rfl⟩ := Prod.mk.inj (Option.some.inj run)
    exact fits
  · rename_i notFull
    have room := room_of_notFull notFull
    obtain ⟨request, sends, run⟩ := Option.bind_eq_some_iff.mp run
    obtain ⟨_, rfl⟩ := Prod.mk.inj (Option.some.inj run)
    have queued := sendReadRequest_queue sends
    rw [CacheState.Fits]
    omega

theorem readOnlyAccess_fits (fits : effect.state.Fits)
    (run : readOnlyAccess effect addr mf time = some (status, effect')) :
    effect'.state.Fits := by
  obtain ⟨_, probed, _, run⟩ := readOnlyAccess_some run
  cases probed with
  | HIT idx =>
    obtain ⟨access, _, run⟩ := Option.bind_eq_some_iff.mp run
    obtain ⟨_, rfl⟩ := Prod.mk.inj (Option.some.inj run)
    exact fits
  | HIT_RESERVED idx | MISS idx => exact readOnlyMiss_fits fits run
  | RESERVATION_FAIL =>
    obtain ⟨_, rfl⟩ := Prod.mk.inj (Option.some.inj run)
    exact fits

theorem access_fits (fits : effect.state.Fits)
    (run : access cache effect addr mf time = some (status, effect')) : effect'.state.Fits := by
  cases cache with
  | read_only_cache => exact readOnlyAccess_fits fits run
  | l1_cache | l2_cache => exact dataAccess_fits fits run

end Handlers

/-! ## Runs -/

theorem cycle_fits {state : CacheState config} (fits : state.Fits) (full : Bool) :
    (Cache.cycle state full).1.Fits := by
  cases queue : state.m_miss_queue with
  | nil => simpa [Cache.cycle, queue] using fits
  | cons mf later =>
    cases full with
    | true => simpa [Cache.cycle, queue] using fits
    | false =>
      rw [CacheState.Fits, queue, List.length_cons] at fits
      simpa [Cache.cycle, queue, CacheState.Fits] using Nat.le_of_succ_le fits

theorem perform_fits (cache : CacheClass) (system : System config) (op : Operation)
    (system' : System config) (performed : system.perform cache op = some system')
    (fits : system.cache.Fits) : system'.cache.Fits := by
  cases op with
  | create fetch | flush =>
    obtain rfl := Option.some.inj performed
    exact fits
  | access mf time =>
    obtain ⟨⟨status, effect⟩, accessed, performed⟩ := Option.bind_eq_some_iff.mp performed
    obtain rfl := Option.some.inj performed
    exact access_fits fits accessed
  | cycle full =>
    obtain rfl := Option.some.inj performed
    exact cycle_fits fits full
  | fill mf time =>
    obtain ⟨state, filled, performed⟩ := Option.bind_eq_some_iff.mp performed
    obtain rfl := Option.some.inj performed
    cases fill_spec filled with
    | mk _ _ _ => exact fits
  | next_access =>
    obtain ⟨⟨state, result⟩, drained, performed⟩ := Option.bind_eq_some_iff.mp performed
    obtain rfl := Option.some.inj performed
    obtain ⟨_, _, drained⟩ := Option.bind_eq_some_iff.mp drained
    obtain ⟨rfl, rfl⟩ := Prod.mk.inj (Option.some.inj drained)
    exact fits

/-- The miss queue never holds more than `m_miss_queue_size` requests. -/
theorem miss_queue_bounded (cache : CacheClass) (ops : List Operation) {system : System config}
    (reached : ops.foldlM (System.perform cache) (System.initial config) = some system) :
    system.cache.m_miss_queue.length ≤ config.m_miss_queue_size :=
  List.foldlM_keeps (perform_fits cache) reached (Nat.zero_le _)

theorem writeAllocated_performs :
    (writeAllocated.foldlM (System.perform .l2_cache) (System.initial (merging 2))).isSome = true := by
  decide

theorem miss_queue_bounded_writeAllocated :
    ((writeAllocated.foldlM (System.perform .l2_cache) (System.initial (merging 2))).get
      writeAllocated_performs).cache.m_miss_queue.length ≤ 4 :=
  miss_queue_bounded .l2_cache writeAllocated (Option.some_get writeAllocated_performs).symm

end AesOnGpu.Cache
