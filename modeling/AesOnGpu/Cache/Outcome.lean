import AesOnGpu.Cache.Access

/-! # What an access can do

`Accessed` lists the outcomes of an access: it is refused and changes nothing,
it hits a line, it sends a write, or it misses and a reader joins the miss
status registers.  In the last case (`Missed`) either a read of the block is
under way already or one is queued, and an evicted block is written back.
`access_spec` is the inversion lemma that every invariant is derived from.
-/

namespace AesOnGpu.Cache

variable {config : CacheConfig}

def writtenBack (cache : CacheClass) (state : CacheState config) (evicted : Option CacheBlock) :
    CacheState config :=
  match evicted with
  | some block =>
    if config.m_write_policy ≠ .WRITE_THROUGH then
      { allocWriteBack cache state block with
        m_miss_queue := state.m_miss_queue ++ [state.heap.next] }
    else state
  | none => state

inductive Missed (cache : CacheClass) (state : CacheState config) (block_addr : Address)
    (reader : Uid) (time : BitVec 32) : CacheState config → Prop where
  | merged {idx : config.Index} {access : TagAccess config} {m_mshrs : MshrTable} :
      access.result = .HIT_RESERVED idx ∨ access.result = .MISS idx →
      tagAccess state.m_lines block_addr time = some access →
      state.m_mshrs.probe block_addr = true →
      state.m_mshrs.full config block_addr = false →
      state.m_mshrs.add config block_addr reader (state.heap.fetch reader).isatomic = some m_mshrs →
      Missed cache state block_addr reader time
        (writtenBack cache { state with m_lines := access.m_lines, m_mshrs } access.evicted)
  | sent {idx : config.Index} {access : TagAccess config} {m_mshrs : MshrTable} :
      access.result = .HIT_RESERVED idx ∨ access.result = .MISS idx →
      tagAccess state.m_lines block_addr time = some access →
      state.m_mshrs.probe block_addr = false →
      state.m_mshrs.full config block_addr = false →
      state.m_mshrs.add config block_addr reader (state.heap.fetch reader).isatomic = some m_mshrs →
      Missed cache state block_addr reader time
        (writtenBack cache
          { m_lines := access.m_lines
            m_mshrs
            m_miss_queue := state.m_miss_queue ++ [reader]
            m_extra_mf_fields := state.m_extra_mf_fields.insert reader
              ⟨block_addr, idx, (state.heap.fetch reader).m_data_size⟩
            heap := state.heap.setDataSize reader config.lineSize } access.evicted)

/-- The room in the miss queue that an access asks for. -/
def requestsNeeded (cache : CacheClass) (state : CacheState config) (mf : Uid) : Nat :=
  if (state.heap.fetch mf).is_write then
    match config.m_write_alloc_policy with
    | .WRITE_ALLOCATE => 2
    | .NO_WRITE_ALLOCATE => 0
  else match cache with
    | .read_only_cache => 0
    | .l1_cache | .l2_cache => 1

def Busy (cache : CacheClass) (state : CacheState config) (addr : Address) (mf : Uid) : Prop :=
  probe state.m_lines (config.blockAddr addr) = some .RESERVATION_FAIL ∨
    missQueueFull state (requestsNeeded cache state mf) = true ∨
    state.m_mshrs.full config (config.blockAddr addr) = true

def writeQueued (cache : CacheClass) (state : CacheState config) (mf : Uid) : CacheState config :=
  let fetch := state.heap.fetch mf
  let ma : MemFetch := ⟨cache.m_wr_alloc_type, fetch.m_addr, fetch.m_data_size, false, false⟩
  { state with m_miss_queue := state.m_miss_queue ++ [mf], heap := state.heap.alloc ma }

inductive Accessed (cache : CacheClass) (effect : Effect config) (addr : Address) (mf : Uid)
    (time : BitVec 32) : RequestStatus → Effect config → Prop where
  | refused : Busy cache effect.state addr mf →
      Accessed cache effect addr mf time .RESERVATION_FAIL effect
  | hit {idx : config.Index} {block : CacheBlock} {events : List CacheEvent} :
      probe effect.state.m_lines (config.blockAddr addr) = some (.HIT idx) →
      block.m_tag = (effect.state.m_lines idx).m_tag →
      block.m_block_addr = (effect.state.m_lines idx).m_block_addr →
      block.m_status = (effect.state.m_lines idx).m_status ∨ block.m_status = .MODIFIED →
      Accessed cache effect addr mf time .HIT
        ⟨{ effect.state with m_lines := Function.update effect.state.m_lines idx block }, events⟩
  | hitSent {idx : config.Index} {block : CacheBlock} {events : List CacheEvent} :
      (effect.state.heap.fetch mf).is_write = true →
      probe effect.state.m_lines (config.blockAddr addr) = some (.HIT idx) →
      block.m_tag = (effect.state.m_lines idx).m_tag →
      block.m_block_addr = (effect.state.m_lines idx).m_block_addr →
      block.m_status = .MODIFIED ∨ block.m_status = .INVALID →
      Accessed cache effect addr mf time .HIT
        ⟨{ effect.state with
            m_lines := Function.update effect.state.m_lines idx block
            m_miss_queue := effect.state.m_miss_queue ++ [mf] }, events⟩
  | written {events : List CacheEvent} :
      (effect.state.heap.fetch mf).is_write = true →
      config.m_write_alloc_policy = .NO_WRITE_ALLOCATE →
      Accessed cache effect addr mf time .MISS
        ⟨{ effect.state with m_miss_queue := effect.state.m_miss_queue ++ [mf] }, events⟩
  | read {state' : CacheState config} {events : List CacheEvent} :
      (effect.state.heap.fetch mf).is_write = false →
      missQueueFull effect.state (requestsNeeded cache effect.state mf) = false →
      Missed cache effect.state (config.blockAddr addr) mf time state' →
      Accessed cache effect addr mf time .MISS ⟨state', events⟩
  | allocated {state' : CacheState config} {events : List CacheEvent} :
      (effect.state.heap.fetch mf).is_write = true →
      config.m_write_alloc_policy = .WRITE_ALLOCATE →
      missQueueFull effect.state (requestsNeeded cache effect.state mf) = false →
      Missed cache (writeQueued cache effect.state mf) (config.blockAddr addr)
        effect.state.heap.next time state' →
      Accessed cache effect addr mf time .MISS ⟨state', events⟩

/-! ## The tag array on a known probe -/

theorem tagAccess_hit {m_lines : Lines config} {addr : Address} {idx : config.Index}
    (probed : probe m_lines addr = some (.HIT idx)) (time : BitVec 32) :
    tagAccessClean m_lines addr time = some ⟨.HIT idx,
      Function.update m_lines idx { m_lines idx with m_last_access_time := time }, none⟩ := by
  simp [tagAccessClean, tagAccess, probed]

theorem tagAccess_result {m_lines : Lines config} {addr : Address} {time : BitVec 32}
    {access : TagAccess config} (run : tagAccess m_lines addr time = some access) :
    probe m_lines addr = some access.result := by
  rw [tagAccess] at run
  cases probed : probe m_lines addr with
  | none => rw [probed] at run; exact absurd run (by simp)
  | some result =>
    rw [probed] at run
    cases result with
    | HIT idx | HIT_RESERVED idx | RESERVATION_FAIL =>
      obtain rfl := Option.some.inj run
      rfl
    | MISS idx =>
      simp only [Option.bind_eq_bind, Option.bind_some] at run
      split at run
      all_goals
        obtain rfl := Option.some.inj run
        rfl

theorem tagAccessClean_eq {m_lines : Lines config} {addr : Address} {time : BitVec 32}
    {access : TagAccess config} (run : tagAccessClean m_lines addr time = some access) :
    tagAccess m_lines addr time = some access ∧ access.evicted = none := by
  rw [tagAccessClean] at run
  cases touched : tagAccess m_lines addr time with
  | none => rw [touched] at run; exact absurd run (by simp)
  | some other =>
    rw [touched] at run
    cases evicted : other.evicted with
    | none =>
      simp [evicted] at run
      exact ⟨congrArg some run, run ▸ evicted⟩
    | some block => simp [evicted] at run

/-! ## Reads -/

/-- `send_read_request` fails without an effect, or the reader joins. -/
inductive ReadOutcome (cache : CacheClass) (effect : Effect config) (block_addr : Address)
    (reader : Uid) (time : BitVec 32) (request : ReadRequest config) : Prop where
  | fails : request.do_miss = false → request.effect = effect →
      effect.state.m_mshrs.full config block_addr = true ∨
        config.m_miss_queue_size ≤ effect.state.m_miss_queue.length →
      ReadOutcome cache effect block_addr reader time request
  | joins : request.do_miss = true →
      Missed cache effect.state block_addr reader time
        (writtenBack cache request.effect.state request.evicted) →
      ReadOutcome cache effect block_addr reader time request

theorem sendReadRequest_spec (cache : CacheClass) {effect : Effect config} {block_addr : Address}
    {cache_index idx : config.Index} {mf : Uid} {time : BitVec 32} {read_only wa : Bool}
    {request : ReadRequest config}
    (probed : probe effect.state.m_lines block_addr = some (.HIT_RESERVED idx) ∨
      probe effect.state.m_lines block_addr = some (.MISS idx))
    (run : sendReadRequest effect block_addr cache_index mf time read_only wa = some request) :
    ReadOutcome cache effect block_addr mf time request := by
  -- both ways to touch the tags give what `tagAccess` gives
  have touched {access : TagAccess config}
      (touch : (if read_only then tagAccessClean else tagAccess) effect.state.m_lines block_addr time =
        some access) :
      tagAccess effect.state.m_lines block_addr time = some access ∧
        (access.result = .HIT_RESERVED idx ∨ access.result = .MISS idx) := by
    have same : tagAccess effect.state.m_lines block_addr time = some access := by
      cases read_only with
      | true => exact (tagAccessClean_eq touch).1
      | false => exact touch
    have result := tagAccess_result same
    refine ⟨same, probed.imp (fun found => ?_) (fun found => ?_)⟩
    · exact Option.some.inj (result.symm.trans found)
    · exact Option.some.inj (result.symm.trans found)
  have index {access : TagAccess config}
      (result : access.result = .HIT_RESERVED idx ∨ access.result = .MISS idx) :
      access.result.index cache_index = idx := by
    cases result with
    | inl isReserved => rw [isReserved]; rfl
    | inr isMiss => rw [isMiss]; rfl
  rw [sendReadRequest] at run
  cases isFull : effect.state.m_mshrs.full config block_addr with
  | true =>
    simp only [isFull, Bool.not_true, Bool.and_false, Bool.false_and, Bool.false_eq_true,
      if_false] at run
    obtain rfl := Option.some.inj run
    exact .fails rfl rfl (Or.inl isFull)
  | false =>
    cases isHit : effect.state.m_mshrs.probe block_addr with
    | true =>
      simp only [isFull, isHit, Bool.not_false, Bool.and_self, if_true] at run
      obtain ⟨access, touch, run⟩ := Option.bind_eq_some_iff.mp run
      obtain ⟨m_mshrs, added, run⟩ := Option.bind_eq_some_iff.mp run
      obtain rfl := Option.some.inj run
      obtain ⟨same, result⟩ := touched touch
      exact .joins rfl (.merged result same isHit isFull added)
    | false =>
      simp only [isFull, isHit, Bool.not_false, Bool.false_eq_true, if_false,
        Bool.true_and, Bool.and_true, decide_eq_true_eq] at run
      split at run
      · obtain ⟨access, touch, run⟩ := Option.bind_eq_some_iff.mp run
        obtain ⟨m_mshrs, added, run⟩ := Option.bind_eq_some_iff.mp run
        obtain rfl := Option.some.inj run
        obtain ⟨same, result⟩ := touched touch
        rw [index result]
        exact .joins rfl (.sent result same isHit isFull added)
      · rename_i noRoom
        obtain rfl := Option.some.inj run
        exact .fails rfl rfl (Or.inr (Nat.not_lt.mp noRoom))

section

variable {cache : CacheClass} {effect : Effect config} {addr : Address} {mf : Uid}
  {time : BitVec 32} {idx : config.Index} {status : RequestStatus} {effect' : Effect config}

theorem missQueueFull_mono {state : CacheState config} {few many : Nat} (le : few ≤ many)
    (isFull : missQueueFull state few = true) : missQueueFull state many = true := by
  simp only [missQueueFull, ge_iff_le, decide_eq_true_eq] at isFull ⊢
  omega

theorem rdMissBase_spec (isData : cache ≠ .read_only_cache)
    (isRead : (effect.state.heap.fetch mf).is_write = false)
    (probed : probe effect.state.m_lines (config.blockAddr addr) = some (.HIT_RESERVED idx) ∨
      probe effect.state.m_lines (config.blockAddr addr) = some (.MISS idx))
    (run : rdMissBase cache effect addr idx mf time = some (status, effect')) :
    Accessed cache effect addr mf time status effect' := by
  have needed : requestsNeeded cache effect.state mf = 1 := by
    cases cache with
    | read_only_cache => exact absurd rfl isData
    | l1_cache | l2_cache => simp [requestsNeeded, isRead]
  rw [rdMissBase] at run
  split at run
  · rename_i isFull
    obtain ⟨rfl, rfl⟩ := Prod.mk.inj (Option.some.inj run)
    exact .refused (Or.inr (Or.inl (needed ▸ isFull)))
  · rename_i notFull
    have room : missQueueFull effect.state (requestsNeeded cache effect.state mf) = false := by
      rw [needed]
      exact Bool.not_eq_true _ ▸ notFull
    obtain ⟨request, sends, run⟩ := Option.bind_eq_some_iff.mp run
    cases sendReadRequest_spec cache probed sends with
    | fails noMiss same reason =>
      rw [if_neg (by rw [noMiss]; decide)] at run
      obtain ⟨rfl, rfl⟩ := Prod.mk.inj (Option.some.inj run)
      rw [same]
      cases reason with
      | inl isFull => exact .refused (Or.inr (Or.inr isFull))
      | inr noRoom =>
        simp only [missQueueFull, ge_iff_le, decide_eq_true_eq] at notFull
        omega
    | joins miss missed =>
      rw [if_pos miss] at run
      cases evicted : request.evicted with
      | none =>
        rw [evicted] at run missed
        obtain ⟨rfl, rfl⟩ := Prod.mk.inj (Option.some.inj run)
        exact .read isRead room missed
      | some block =>
        rw [evicted] at run missed
        simp only [writtenBack] at missed
        dsimp only at run
        split at run
        · rename_i notThrough
          rw [if_pos notThrough] at missed
          obtain ⟨rfl, rfl⟩ := Prod.mk.inj (Option.some.inj run)
          exact .read isRead room missed
        · rename_i through
          rw [if_neg through] at missed
          obtain ⟨rfl, rfl⟩ := Prod.mk.inj (Option.some.inj run)
          exact .read isRead room missed

/-- When `wr_miss_wa` has checked its resources and queued the write, the read
    is not refused. -/
theorem wrMissWa_sends {request : ReadRequest config}
    (enough : wrMissWaLacks effect (config.blockAddr addr) = false)
    (outcome : ReadOutcome cache
      ⟨writeQueued cache effect.state mf, effect.events ++ [.WRITE_REQUEST_SENT]⟩
      (config.blockAddr addr) effect.state.heap.next time request) : request.do_miss = true := by
  cases outcome with
  | fails noMiss same reason =>
    exfalso
    rw [wrMissWaLacks] at enough
    simp only [writeQueued, List.length_append, List.length_singleton] at reason
    cases isFull : missQueueFull effect.state 2 with
    | true => simp [isFull] at enough
    | false =>
      simp only [missQueueFull, ge_iff_le, decide_eq_false_iff_not] at isFull
      cases reason with
      | inl full => simp [full] at enough
      | inr noRoom => omega
  | joins miss _ => exact miss

theorem wrMissWa_spec (isWrite : (effect.state.heap.fetch mf).is_write = true)
    (allocates : config.m_write_alloc_policy = .WRITE_ALLOCATE)
    (probed : probe effect.state.m_lines (config.blockAddr addr) = some (.HIT_RESERVED idx) ∨
      probe effect.state.m_lines (config.blockAddr addr) = some (.MISS idx))
    (run : wrMissWa cache effect addr idx mf time = some (status, effect')) :
    Accessed cache effect addr mf time status effect' := by
  have needed : requestsNeeded cache effect.state mf = 2 := by
    simp [requestsNeeded, isWrite, allocates]
  rw [wrMissWa] at run
  split at run
  · rename_i lacking
    rw [wrMissWaLacks] at lacking
    obtain ⟨rfl, rfl⟩ := Prod.mk.inj (Option.some.inj run)
    refine .refused (Or.inr ?_)
    rw [needed]
    cases isFull : missQueueFull effect.state 2 with
    | true => exact Or.inl rfl
    | false =>
      -- there is room, so that the registers are full
      right
      have room : effect.state.m_miss_queue.length < config.m_miss_queue_size := by
        simp only [missQueueFull, ge_iff_le, decide_eq_false_iff_not] at isFull
        omega
      by_contra notFull
      rw [Bool.not_eq_true] at notFull
      cases isHit : effect.state.m_mshrs.probe (config.blockAddr addr) <;>
        simp [isFull, notFull, isHit, room] at lacking
  · rename_i enough
    rw [Bool.not_eq_true] at enough
    obtain ⟨request, sends, run⟩ := Option.bind_eq_some_iff.mp run
    have outcome : ReadOutcome cache
        ⟨writeQueued cache effect.state mf, effect.events ++ [.WRITE_REQUEST_SENT]⟩
        (config.blockAddr addr) effect.state.heap.next time request :=
      sendReadRequest_spec cache probed sends
    have miss := wrMissWa_sends enough outcome
    have room : missQueueFull effect.state (requestsNeeded cache effect.state mf) = false := by
      rw [needed]
      rw [wrMissWaLacks, Bool.or_eq_false_iff] at enough
      exact enough.1
    cases outcome with
    | fails noMiss same reason =>
      exact absurd (noMiss.symm.trans miss) Bool.false_ne_true
    | joins _ missed =>
      rw [if_pos miss] at run
      cases evicted : request.evicted with
      | none =>
        rw [evicted] at run missed
        obtain ⟨rfl, rfl⟩ := Prod.mk.inj (Option.some.inj run)
        exact .allocated isWrite allocates room missed
      | some block =>
        rw [evicted] at run missed
        simp only [writtenBack] at missed
        dsimp only at run
        split at run
        · rename_i notThrough
          rw [if_pos notThrough] at missed
          obtain ⟨rfl, rfl⟩ := Prod.mk.inj (Option.some.inj run)
          exact .allocated isWrite allocates room missed
        · rename_i through
          rw [if_neg through] at missed
          obtain ⟨rfl, rfl⟩ := Prod.mk.inj (Option.some.inj run)
          exact .allocated isWrite allocates room missed

theorem wrMiss_spec (isWrite : (effect.state.heap.fetch mf).is_write = true)
    (probed : probe effect.state.m_lines (config.blockAddr addr) = some (.HIT_RESERVED idx) ∨
      probe effect.state.m_lines (config.blockAddr addr) = some (.MISS idx))
    (run : wrMiss cache effect addr idx mf time = some (status, effect')) :
    Accessed cache effect addr mf time status effect' := by
  rw [wrMiss] at run
  cases allocates : config.m_write_alloc_policy with
  | WRITE_ALLOCATE =>
    rw [allocates] at run
    exact wrMissWa_spec isWrite allocates probed run
  | NO_WRITE_ALLOCATE =>
    rw [allocates] at run
    dsimp only at run
    rw [wrMissNoWa] at run
    split at run
    · rename_i isFull
      obtain ⟨rfl, rfl⟩ := Prod.mk.inj (Option.some.inj run)
      exact .refused (Or.inr (Or.inl (missQueueFull_mono (Nat.zero_le _) isFull)))
    · obtain ⟨rfl, rfl⟩ := Prod.mk.inj (Option.some.inj run)
      exact .written isWrite allocates

theorem rdHitBase_spec
    (probed : probe effect.state.m_lines (config.blockAddr addr) = some (.HIT idx))
    (run : rdHitBase effect addr idx mf time = some (status, effect')) :
    Accessed cache effect addr mf time status effect' := by
  rw [rdHitBase, tagAccess_hit probed] at run
  simp only [Option.bind_eq_bind, Option.bind_some] at run
  split at run
  · split at run
    · obtain ⟨rfl, rfl⟩ := Prod.mk.inj (Option.some.inj run)
      simp only [ProbeResult.index, Function.update_self, Function.update_idem]
      exact .hit probed rfl rfl (Or.inr rfl)
    · exact absurd run (by simp)
  · obtain ⟨rfl, rfl⟩ := Prod.mk.inj (Option.some.inj run)
    exact .hit probed rfl rfl (Or.inl rfl)

theorem wrHitWb_spec
    (probed : probe effect.state.m_lines (config.blockAddr addr) = some (.HIT idx))
    (run : wrHitWb effect addr idx time = some (status, effect')) :
    Accessed cache effect addr mf time status effect' := by
  rw [wrHitWb, tagAccess_hit probed] at run
  simp only [Option.bind_eq_bind, Option.bind_some] at run
  obtain ⟨rfl, rfl⟩ := Prod.mk.inj (Option.some.inj run)
  simp only [ProbeResult.index, Function.update_self, Function.update_idem]
  exact .hit probed rfl rfl (Or.inr rfl)

theorem wrHitWe_spec (isWrite : (effect.state.heap.fetch mf).is_write = true)
    (probed : probe effect.state.m_lines (config.blockAddr addr) = some (.HIT idx))
    (run : wrHitWe effect idx mf = some (status, effect')) :
    Accessed cache effect addr mf time status effect' := by
  rw [wrHitWe] at run
  split at run
  · rename_i isFull
    obtain ⟨rfl, rfl⟩ := Prod.mk.inj (Option.some.inj run)
    exact .refused (Or.inr (Or.inl (missQueueFull_mono (Nat.zero_le _) isFull)))
  · obtain ⟨rfl, rfl⟩ := Prod.mk.inj (Option.some.inj run)
    exact .hitSent isWrite probed rfl rfl (Or.inr rfl)

theorem wrHit_spec (isWrite : (effect.state.heap.fetch mf).is_write = true)
    (probed : probe effect.state.m_lines (config.blockAddr addr) = some (.HIT idx))
    (run : wrHit effect addr idx mf time = some (status, effect')) :
    Accessed cache effect addr mf time status effect' := by
  rw [wrHit] at run
  cases policy : config.m_write_policy with
  | READ_ONLY =>
    rw [policy] at run
    exact absurd run (by simp)
  | WRITE_BACK =>
    rw [policy] at run
    exact wrHitWb_spec probed run
  | WRITE_THROUGH =>
    rw [policy] at run
    dsimp only at run
    rw [wrHitWt] at run
    split at run
    · rename_i isFull
      obtain ⟨rfl, rfl⟩ := Prod.mk.inj (Option.some.inj run)
      exact .refused (Or.inr (Or.inl (missQueueFull_mono (Nat.zero_le _) isFull)))
    · rw [tagAccess_hit probed] at run
      simp only [Option.bind_eq_bind, Option.bind_some] at run
      obtain ⟨rfl, rfl⟩ := Prod.mk.inj (Option.some.inj run)
      simp only [ProbeResult.index, Function.update_self, Function.update_idem]
      exact .hitSent isWrite probed rfl rfl (Or.inl rfl)
  | WRITE_EVICT =>
    rw [policy] at run
    exact wrHitWe_spec isWrite probed run
  | LOCAL_WB_GLOBAL_WT =>
    rw [policy] at run
    dsimp only at run
    rw [wrHitGlobalWeLocalWb] at run
    split at run
    · exact wrHitWe_spec isWrite probed run
    · exact wrHitWb_spec probed run

/-! ## The access functions -/

theorem dataAccess_some
    (run : dataAccess cache effect addr mf time = some (status, effect')) :
    ∃ probed, probe effect.state.m_lines (config.blockAddr addr) = some probed ∧
      processTagProbe cache (effect.state.heap.fetch mf).is_write probed effect addr mf time =
        some (status, effect') := by
  by_cases readOnly : config.m_write_policy = .READ_ONLY
  · simp [dataAccess, readOnly] at run
  by_cases tooLarge : (effect.state.heap.fetch mf).m_data_size > config.lineSize
  · simp [dataAccess, tooLarge] at run
  rw [dataAccess, if_neg readOnly, if_neg tooLarge] at run
  exact Option.bind_eq_some_iff.mp run

theorem readOnlyAccess_some
    (run : readOnlyAccess effect addr mf time = some (status, effect')) :
    (effect.state.heap.fetch mf).is_write = false ∧
      ∃ probed, probe effect.state.m_lines (config.blockAddr addr) = some probed ∧
        readOnlyTagProbe probed effect (config.blockAddr addr) mf time = some (status, effect') := by
  by_cases tooLarge : (effect.state.heap.fetch mf).m_data_size > config.lineSize
  · simp [readOnlyAccess, tooLarge] at run
  by_cases writable : config.m_write_policy ≠ .READ_ONLY
  · simp [readOnlyAccess, writable] at run
  by_cases isWrite : (effect.state.heap.fetch mf).is_write = true
  · simp [readOnlyAccess, isWrite] at run
  rw [readOnlyAccess, if_neg tooLarge, if_neg writable, if_neg isWrite] at run
  exact ⟨Bool.not_eq_true _ ▸ isWrite, Option.bind_eq_some_iff.mp run⟩

theorem dataAccess_spec (isData : cache ≠ .read_only_cache)
    (run : dataAccess cache effect addr mf time = some (status, effect')) :
    Accessed cache effect addr mf time status effect' := by
  obtain ⟨probed, found, run⟩ := dataAccess_some run
  rw [processTagProbe.eq_def] at run
  split at run
  · rename_i isWrite
    cases probed with
    | HIT idx => exact wrHit_spec isWrite found run
    | HIT_RESERVED idx => exact wrMiss_spec isWrite (Or.inl found) run
    | MISS idx => exact wrMiss_spec isWrite (Or.inr found) run
    | RESERVATION_FAIL =>
      obtain ⟨rfl, rfl⟩ := Prod.mk.inj (Option.some.inj run)
      exact .refused (Or.inl found)
  · rename_i isRead
    rw [Bool.not_eq_true] at isRead
    cases probed with
    | HIT idx => exact rdHitBase_spec found run
    | HIT_RESERVED idx => exact rdMissBase_spec isData isRead (Or.inl found) run
    | MISS idx => exact rdMissBase_spec isData isRead (Or.inr found) run
    | RESERVATION_FAIL =>
      obtain ⟨rfl, rfl⟩ := Prod.mk.inj (Option.some.inj run)
      exact .refused (Or.inl found)

theorem readOnlyMiss_spec (isRead : (effect.state.heap.fetch mf).is_write = false)
    (probed : probe effect.state.m_lines (config.blockAddr addr) = some (.HIT_RESERVED idx) ∨
      probe effect.state.m_lines (config.blockAddr addr) = some (.MISS idx))
    (notFull : ¬ missQueueFull effect.state 0 = true) {request : ReadRequest config}
    (sends : sendReadRequest effect (config.blockAddr addr) idx mf time true false = some request) :
    Accessed .read_only_cache effect addr mf time
      (if request.do_miss then .MISS else .RESERVATION_FAIL) request.effect := by
  have clean : request.evicted = none := by
    rw [sendReadRequest] at sends
    split at sends
    · obtain ⟨access, touch, sends⟩ := Option.bind_eq_some_iff.mp sends
      obtain ⟨m_mshrs, _, sends⟩ := Option.bind_eq_some_iff.mp sends
      obtain rfl := Option.some.inj sends
      exact (tagAccessClean_eq touch).2
    · split at sends
      · obtain ⟨access, touch, sends⟩ := Option.bind_eq_some_iff.mp sends
        obtain ⟨m_mshrs, _, sends⟩ := Option.bind_eq_some_iff.mp sends
        obtain rfl := Option.some.inj sends
        exact (tagAccessClean_eq touch).2
      · obtain rfl := Option.some.inj sends
        rfl
  cases sendReadRequest_spec .read_only_cache probed sends with
  | fails noMiss same reason =>
    rw [if_neg (by rw [noMiss]; decide), same]
    cases reason with
    | inl isFull => exact .refused (Or.inr (Or.inr isFull))
    | inr noRoom =>
      simp only [missQueueFull, ge_iff_le, decide_eq_true_eq] at notFull
      omega
  | joins miss missed =>
    rw [if_pos miss]
    rw [clean] at missed
    have room : missQueueFull effect.state
        (requestsNeeded .read_only_cache effect.state mf) = false := by
      simpa [requestsNeeded, isRead] using notFull
    exact .read isRead room missed

theorem readOnlyAccess_spec
    (run : readOnlyAccess effect addr mf time = some (status, effect')) :
    Accessed .read_only_cache effect addr mf time status effect' := by
  obtain ⟨isRead, probed, found, run⟩ := readOnlyAccess_some run
  have needed : requestsNeeded .read_only_cache effect.state mf = 0 := by
    simp [requestsNeeded, isRead]
  cases probed with
  | HIT idx =>
    dsimp only [readOnlyTagProbe] at run
    rw [tagAccess_hit found] at run
    simp only [Option.bind_eq_bind, Option.bind_some] at run
    obtain ⟨rfl, rfl⟩ := Prod.mk.inj (Option.some.inj run)
    exact .hit found rfl rfl (Or.inl rfl)
  | HIT_RESERVED idx =>
    dsimp only [readOnlyTagProbe] at run
    split at run
    · rename_i isFull
      obtain ⟨rfl, rfl⟩ := Prod.mk.inj (Option.some.inj run)
      exact .refused (Or.inr (Or.inl (needed ▸ isFull)))
    · rename_i room
      obtain ⟨request, sends, run⟩ := Option.bind_eq_some_iff.mp run
      obtain ⟨rfl, rfl⟩ := Prod.mk.inj (Option.some.inj run)
      exact readOnlyMiss_spec isRead (Or.inl found) room sends
  | MISS idx =>
    dsimp only [readOnlyTagProbe] at run
    split at run
    · rename_i isFull
      obtain ⟨rfl, rfl⟩ := Prod.mk.inj (Option.some.inj run)
      exact .refused (Or.inr (Or.inl (needed ▸ isFull)))
    · rename_i room
      obtain ⟨request, sends, run⟩ := Option.bind_eq_some_iff.mp run
      obtain ⟨rfl, rfl⟩ := Prod.mk.inj (Option.some.inj run)
      exact readOnlyMiss_spec isRead (Or.inr found) room sends
  | RESERVATION_FAIL =>
    obtain ⟨rfl, rfl⟩ := Prod.mk.inj (Option.some.inj run)
    exact .refused (Or.inl found)

theorem access_spec (run : access cache effect addr mf time = some (status, effect')) :
    Accessed cache effect addr mf time status effect' := by
  cases cache with
  | read_only_cache => exact readOnlyAccess_spec run
  | l1_cache => exact dataAccess_spec (by decide) run
  | l2_cache => exact dataAccess_spec (by decide) run

/-! ## Refused accesses -/

/-- A refused access leaves the whole cache, the requests and the events as they
    were, and the write-allocate handler never fails once it has queued the write. -/
theorem refused_unchanged (isData : cache ≠ .read_only_cache) (effect : Effect config)
    (addr : Address) (mf : Uid) (time : BitVec 32) :
    (∀ effect', dataAccess cache effect addr mf time = some (.RESERVATION_FAIL, effect') →
      effect' = effect) ∧
    ∀ idx request,
      (probe effect.state.m_lines (config.blockAddr addr) = some (.HIT_RESERVED idx) ∨
        probe effect.state.m_lines (config.blockAddr addr) = some (.MISS idx)) →
      wrMissWaLacks effect (config.blockAddr addr) = false →
      sendReadRequest
        ⟨writeQueued cache effect.state mf, effect.events ++ [.WRITE_REQUEST_SENT]⟩
        (config.blockAddr addr) idx effect.state.heap.next time false true = some request →
      request.do_miss = true := by
  constructor
  · intro effect' run
    cases dataAccess_spec isData run with
    | refused _ => rfl
  · intro idx request probed enough sends
    exact wrMissWa_sends enough (sendReadRequest_spec cache probed sends)

end

/-- A write that needs two places in a miss queue with one place is refused. -/
theorem refused_unchanged_small_queue :
    let config := CacheConfig.oneSet 1 .WRITE_BACK .ON_MISS .WRITE_ALLOCATE 1 1
    let effect : Effect config :=
      ⟨⟨fun _ => .fresh, .empty, [], ∅, ⟨1, fun _ => ⟨.GLOBAL_ACC_W, 0, 32, true, false⟩⟩⟩, []⟩
    ∃ effect', dataAccess .l2_cache effect 0 0 0 = some (.RESERVATION_FAIL, effect') ∧
      effect' = effect :=
  have isData : CacheClass.l2_cache ≠ .read_only_cache := by decide
  ⟨_, by rfl, (refused_unchanged isData _ 0 0 0).1 _ (by rfl)⟩

end AesOnGpu.Cache
