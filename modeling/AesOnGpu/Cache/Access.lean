import AesOnGpu.Cache.Mshr
import AesOnGpu.Cache.TagArray

/-! # Accesses to a cache

`baseline_cache`, `read_only_cache` and `data_cache` of `gpu-cache.cc`.  The
objects of class `mem_fetch` are kept in a heap; the cache passes their
addresses on.  `none` is a failed assertion or an abort.

The status fields of a `mem_fetch`, the masks of its access, the statistics and
the port bandwidth play no role here and are left out.
-/

namespace AesOnGpu.Cache

structure MemFetch where
  m_type : MemAccessType
  m_addr : Address
  m_data_size : Nat
  is_write : Bool
  isatomic : Bool
  deriving DecidableEq

/-- The objects created so far are those below `next`. -/
structure Heap where
  next : Uid
  fetch : Uid → MemFetch

def Heap.alloc (heap : Heap) (fetch : MemFetch) : Heap :=
  ⟨heap.next + 1, Function.update heap.fetch heap.next fetch⟩

def Heap.setDataSize (heap : Heap) (mf : Uid) (size : Nat) : Heap :=
  { heap with fetch := Function.update heap.fetch mf { heap.fetch mf with m_data_size := size } }

inductive CacheEvent where
  | WRITE_BACK_REQUEST_SENT
  | READ_REQUEST_SENT
  | WRITE_REQUEST_SENT
  deriving DecidableEq

structure ExtraMfFields (config : CacheConfig) where
  m_block_addr : Address
  m_cache_index : config.Index
  m_data_size : Nat

/-- The member variables of a `baseline_cache` and the heap. -/
structure CacheState (config : CacheConfig) where
  m_lines : Lines config
  m_mshrs : MshrTable
  m_miss_queue : List Uid
  m_extra_mf_fields : Std.TreeMap Uid (ExtraMfFields config)
  heap : Heap

inductive RequestStatus where
  | HIT
  | HIT_RESERVED
  | MISS
  | RESERVATION_FAIL
  deriving DecidableEq

/-- The classes derived from `baseline_cache`, less the texture cache. -/
inductive CacheClass where
  | read_only_cache
  | l1_cache
  | l2_cache
  deriving DecidableEq

def CacheClass.m_wr_alloc_type : CacheClass → MemAccessType
  | .l2_cache => .L2_WR_ALLOC_R
  | _ => .L1_WR_ALLOC_R

def CacheClass.m_wrbk_type : CacheClass → MemAccessType
  | .l2_cache => .L2_WRBK_ACC
  | _ => .L1_WRBK_ACC

variable {config : CacheConfig}

/-- `m_data_size` of a request for a whole line. -/
def CacheConfig.lineSize (config : CacheConfig) : Nat := config.m_line_sz.toNat

/-! ## Requests to the lower level -/

def missQueueFull (state : CacheState config) (num_miss : Nat) : Bool :=
  state.m_miss_queue.length + num_miss ≥ config.m_miss_queue_size

/-- What a handler changes besides its result. -/
structure Effect (config : CacheConfig) where
  state : CacheState config
  events : List CacheEvent

structure ReadRequest (config : CacheConfig) where
  effect : Effect config
  do_miss : Bool
  /-- The evicted block, when `wb` has been set. -/
  evicted : Option CacheBlock

def ProbeResult.index (cache_index : config.Index) : ProbeResult config → config.Index
  | .HIT idx | .HIT_RESERVED idx | .MISS idx => idx
  | .RESERVATION_FAIL => cache_index

def ProbeResult.status : ProbeResult config → RequestStatus
  | .HIT _ => .HIT
  | .HIT_RESERVED _ => .HIT_RESERVED
  | .MISS _ => .MISS
  | .RESERVATION_FAIL => .RESERVATION_FAIL

/-- `send_read_request`. -/
def sendReadRequest (effect : Effect config) (block_addr : Address) (cache_index : config.Index)
    (mf : Uid) (time : BitVec 32) (read_only wa : Bool) : Option (ReadRequest config) := do
  let state := effect.state
  let mshr_hit := state.m_mshrs.probe block_addr
  let mshr_avail := !state.m_mshrs.full config block_addr
  let touch := if read_only then tagAccessClean else tagAccess
  if mshr_hit && mshr_avail then
    let access ← touch state.m_lines block_addr time
    let m_mshrs ← state.m_mshrs.add config block_addr mf (state.heap.fetch mf).isatomic
    return ⟨⟨{ state with m_lines := access.m_lines, m_mshrs }, effect.events⟩, true, access.evicted⟩
  else if !mshr_hit && mshr_avail && state.m_miss_queue.length < config.m_miss_queue_size then
    let access ← touch state.m_lines block_addr time
    let m_mshrs ← state.m_mshrs.add config block_addr mf (state.heap.fetch mf).isatomic
    let extra : ExtraMfFields config :=
      ⟨block_addr, access.result.index cache_index, (state.heap.fetch mf).m_data_size⟩
    return ⟨⟨{
        m_lines := access.m_lines
        m_mshrs
        m_miss_queue := state.m_miss_queue ++ [mf]
        m_extra_mf_fields := state.m_extra_mf_fields.insert mf extra
        heap := state.heap.setDataSize mf config.lineSize },
      if wa then effect.events else effect.events ++ [.READ_REQUEST_SENT]⟩, true, access.evicted⟩
  else return ⟨effect, false, none⟩

def sendWriteRequest (effect : Effect config) (mf : Uid) (request : CacheEvent) : Effect config :=
  ⟨{ effect.state with m_miss_queue := effect.state.m_miss_queue ++ [mf] },
    effect.events ++ [request]⟩

/-- `m_memfetch_creator->alloc` for the write-back of a block. -/
def allocWriteBack (cache : CacheClass) (state : CacheState config) (evicted : CacheBlock) :
    CacheState config :=
  let wb : MemFetch := ⟨cache.m_wrbk_type, evicted.m_block_addr, config.lineSize, true, false⟩
  { state with heap := state.heap.alloc wb }

/-! ## The handlers of a data cache -/

abbrev Handled (config : CacheConfig) := Option (RequestStatus × Effect config)

/-- `wr_hit_wb`: mark the block as modified. -/
def wrHitWb (effect : Effect config) (addr : Address) (cache_index : config.Index)
    (time : BitVec 32) : Handled config := do
  let access ← tagAccessClean effect.state.m_lines (config.blockAddr addr) time
  let idx := access.result.index cache_index
  let m_lines := Function.update access.m_lines idx { access.m_lines idx with m_status := .MODIFIED }
  return (.HIT, { effect with state := { effect.state with m_lines } })

/-- `wr_hit_wt`: send the request to the lower level. -/
def wrHitWt (effect : Effect config) (addr : Address) (cache_index : config.Index) (mf : Uid)
    (time : BitVec 32) : Handled config :=
  if missQueueFull effect.state 0 then return (.RESERVATION_FAIL, effect)
  else do
    let access ← tagAccessClean effect.state.m_lines (config.blockAddr addr) time
    let idx := access.result.index cache_index
    let m_lines := Function.update access.m_lines idx { access.m_lines idx with m_status := .MODIFIED }
    return (.HIT, sendWriteRequest { effect with state := { effect.state with m_lines } } mf
      .WRITE_REQUEST_SENT)

/-- `wr_hit_we`: send the request to the lower level and invalidate the block. -/
def wrHitWe (effect : Effect config) (cache_index : config.Index) (mf : Uid) : Handled config :=
  if missQueueFull effect.state 0 then return (.RESERVATION_FAIL, effect)
  else
    let sent := sendWriteRequest effect mf .WRITE_REQUEST_SENT
    let block := { effect.state.m_lines cache_index with m_status := .INVALID }
    return (.HIT, { sent with state :=
      { sent.state with m_lines := Function.update sent.state.m_lines cache_index block } })

/-- `wr_hit_global_we_local_wb`. -/
def wrHitGlobalWeLocalWb (effect : Effect config) (addr : Address) (cache_index : config.Index)
    (mf : Uid) (time : BitVec 32) : Handled config :=
  if (effect.state.heap.fetch mf).m_type = .GLOBAL_ACC_W then wrHitWe effect cache_index mf
  else wrHitWb effect addr cache_index time

/-- The check that `wr_miss_wa` makes before it sends anything. -/
def wrMissWaLacks (effect : Effect config) (block_addr : Address) : Bool :=
  let mshr_hit := effect.state.m_mshrs.probe block_addr
  let mshr_avail := !effect.state.m_mshrs.full config block_addr
  missQueueFull effect.state 2 || (!(mshr_hit && mshr_avail) &&
    !(!mshr_hit && mshr_avail && effect.state.m_miss_queue.length < config.m_miss_queue_size))

/-- `wr_miss_wa`: send the write and a read for the same block. -/
def wrMissWa (cache : CacheClass) (effect : Effect config) (addr : Address)
    (cache_index : config.Index) (mf : Uid) (time : BitVec 32) : Handled config := do
  let block_addr := config.blockAddr addr
  if wrMissWaLacks effect block_addr then
    return (.RESERVATION_FAIL, effect)
  else
    let sent := sendWriteRequest effect mf .WRITE_REQUEST_SENT
    let fetch := sent.state.heap.fetch mf
    let n_mf := sent.state.heap.next
    let ma : MemFetch := ⟨cache.m_wr_alloc_type, fetch.m_addr, fetch.m_data_size, false, false⟩
    let heap := sent.state.heap.alloc ma
    let request ← sendReadRequest { sent with state := { sent.state with heap } } block_addr
      cache_index n_mf time false true
    if request.do_miss then
      match request.evicted with
      | some evicted =>
        if config.m_write_policy ≠ .WRITE_THROUGH then
          let wb := request.effect.state.heap.next
          let state := allocWriteBack cache request.effect.state evicted
          return (.MISS, { request.effect with state :=
            { state with m_miss_queue := state.m_miss_queue ++ [wb] } })
        else return (.MISS, request.effect)
      | none => return (.MISS, request.effect)
    else return (.RESERVATION_FAIL, request.effect)

/-- `wr_miss_no_wa`: only send the write. -/
def wrMissNoWa (effect : Effect config) (mf : Uid) : Handled config :=
  if missQueueFull effect.state 0 then return (.RESERVATION_FAIL, effect)
  else return (.MISS, sendWriteRequest effect mf .WRITE_REQUEST_SENT)

/-- `rd_hit_base`: an atomic operation marks the block as modified. -/
def rdHitBase (effect : Effect config) (addr : Address) (cache_index : config.Index) (mf : Uid)
    (time : BitVec 32) : Handled config := do
  let access ← tagAccessClean effect.state.m_lines (config.blockAddr addr) time
  let fetch := effect.state.heap.fetch mf
  if fetch.isatomic then
    if fetch.m_type = .GLOBAL_ACC_R then
      let idx := access.result.index cache_index
      let m_lines :=
        Function.update access.m_lines idx { access.m_lines idx with m_status := .MODIFIED }
      return (.HIT, { effect with state := { effect.state with m_lines } })
    else none
  else return (.HIT, { effect with state := { effect.state with m_lines := access.m_lines } })

/-- `rd_miss_base`: send a read and write an evicted block back. -/
def rdMissBase (cache : CacheClass) (effect : Effect config) (addr : Address)
    (cache_index : config.Index) (mf : Uid) (time : BitVec 32) : Handled config := do
  if missQueueFull effect.state 1 then return (.RESERVATION_FAIL, effect)
  else
    let request ← sendReadRequest effect (config.blockAddr addr) cache_index mf time false false
    if request.do_miss then
      match request.evicted with
      | some evicted =>
        if config.m_write_policy ≠ .WRITE_THROUGH then
          let wb := request.effect.state.heap.next
          let state := allocWriteBack cache request.effect.state evicted
          return (.MISS, sendWriteRequest { request.effect with state } wb .WRITE_BACK_REQUEST_SENT)
        else return (.MISS, request.effect)
      | none => return (.MISS, request.effect)
    else return (.RESERVATION_FAIL, request.effect)

/-! ## Access functions -/

def wrHit (effect : Effect config) (addr : Address) (cache_index : config.Index) (mf : Uid)
    (time : BitVec 32) : Handled config :=
  match config.m_write_policy with
  | .READ_ONLY => none
  | .WRITE_BACK => wrHitWb effect addr cache_index time
  | .WRITE_THROUGH => wrHitWt effect addr cache_index mf time
  | .WRITE_EVICT => wrHitWe effect cache_index mf
  | .LOCAL_WB_GLOBAL_WT => wrHitGlobalWeLocalWb effect addr cache_index mf time

def wrMiss (cache : CacheClass) (effect : Effect config) (addr : Address)
    (cache_index : config.Index) (mf : Uid) (time : BitVec 32) : Handled config :=
  match config.m_write_alloc_policy with
  | .WRITE_ALLOCATE => wrMissWa cache effect addr cache_index mf time
  | .NO_WRITE_ALLOCATE => wrMissNoWa effect mf

def processTagProbe (cache : CacheClass) (wr : Bool) (probed : ProbeResult config)
    (effect : Effect config) (addr : Address) (mf : Uid) (time : BitVec 32) : Handled config :=
  if wr then
    match probed with
    | .HIT cache_index => wrHit effect addr cache_index mf time
    | .HIT_RESERVED cache_index | .MISS cache_index => wrMiss cache effect addr cache_index mf time
    | .RESERVATION_FAIL => return (.RESERVATION_FAIL, effect)
  else
    match probed with
    | .HIT cache_index => rdHitBase effect addr cache_index mf time
    | .HIT_RESERVED cache_index | .MISS cache_index =>
      rdMissBase cache effect addr cache_index mf time
    | .RESERVATION_FAIL => return (.RESERVATION_FAIL, effect)

/-- `data_cache::access`, which `l1_cache` and `l2_cache` call.  The constructor
    of a data cache asserts that it is writable. -/
def dataAccess (cache : CacheClass) (effect : Effect config) (addr : Address) (mf : Uid)
    (time : BitVec 32) : Handled config := do
  if config.m_write_policy = .READ_ONLY then none
  if (effect.state.heap.fetch mf).m_data_size > config.lineSize then none
  let probed ← probe effect.state.m_lines (config.blockAddr addr)
  processTagProbe cache (effect.state.heap.fetch mf).is_write probed effect addr mf time

/-- `read_only_cache::access` after its probe. -/
def readOnlyTagProbe (probed : ProbeResult config) (effect : Effect config) (block_addr : Address)
    (mf : Uid) (time : BitVec 32) : Handled config :=
  match probed with
  | .HIT _ => do
    let access ← tagAccessClean effect.state.m_lines block_addr time
    return (access.result.status,
      { effect with state := { effect.state with m_lines := access.m_lines } })
  | .HIT_RESERVED cache_index | .MISS cache_index =>
    if missQueueFull effect.state 0 then return (.RESERVATION_FAIL, effect)
    else do
      let request ← sendReadRequest effect block_addr cache_index mf time true false
      return (if request.do_miss then .MISS else .RESERVATION_FAIL, request.effect)
  | .RESERVATION_FAIL => return (.RESERVATION_FAIL, effect)

/-- `read_only_cache::access`. -/
def readOnlyAccess (effect : Effect config) (addr : Address) (mf : Uid) (time : BitVec 32) :
    Handled config := do
  if (effect.state.heap.fetch mf).m_data_size > config.lineSize then none
  if config.m_write_policy ≠ .READ_ONLY then none
  if (effect.state.heap.fetch mf).is_write then none
  let block_addr := config.blockAddr addr
  let probed ← probe effect.state.m_lines block_addr
  readOnlyTagProbe probed effect block_addr mf time

def access (cache : CacheClass) (effect : Effect config) (addr : Address) (mf : Uid)
    (time : BitVec 32) : Handled config :=
  match cache with
  | .read_only_cache => readOnlyAccess effect addr mf time
  | .l1_cache | .l2_cache => dataAccess cache effect addr mf time

/-! ## Cycles and responses -/

/-- `cycle`; `full` is the answer of the memory port, to which the request at the
    front is pushed. -/
def cycle (state : CacheState config) (full : Bool) : CacheState config × Option Uid :=
  match state.m_miss_queue with
  | [] => (state, none)
  | mf :: later => if full then (state, none) else ({ state with m_miss_queue := later }, some mf)

/-- `fill`. -/
def fill (state : CacheState config) (mf : Uid) (time : BitVec 32) : Option (CacheState config) := do
  let extra ← state.m_extra_mf_fields[mf]?
  let heap := state.heap.setDataSize mf extra.m_data_size
  let m_lines ← match config.m_alloc_policy with
    | .ON_MISS => fillIndex state.m_lines extra.m_cache_index time
    | .ON_FILL => fillAddr state.m_lines extra.m_block_addr time
  let (m_mshrs, has_atomic) ← state.m_mshrs.markReady extra.m_block_addr
  let filled : CacheState config :=
    { state with m_mshrs, heap, m_extra_mf_fields := state.m_extra_mf_fields.erase mf }
  if has_atomic then
    if config.m_alloc_policy = .ON_MISS then
      let block := { m_lines extra.m_cache_index with m_status := .MODIFIED }
      return { filled with m_lines := Function.update m_lines extra.m_cache_index block }
    else none
  else return { filled with m_lines }

/-- `next_access`. -/
def nextAccess (state : CacheState config) : Option (CacheState config × Uid) := do
  let (m_mshrs, result) ← state.m_mshrs.nextAccess
  return ({ state with m_mshrs }, result)

end AesOnGpu.Cache
