import AesOnGpu.Cache.TagArray
import AesOnGpu.Lib.RingBuffer

/-! # The texture cache

`tex_cache` of `gpu-cache.cc`.  Tags are updated when an access is accepted, and data lines
when its fragment has got to the head of the fragment FIFO.  A reorder buffer takes the
answers of the memory.

A `mem_fetch` is told by a number.  `none` as a result is a failed assertion or an abort.
-/

namespace AesOnGpu.Texture

open AesOnGpu.Cache (CacheConfig Lines tagAccessClean fillIndex)

structure TexConfig extends CacheConfig where
  m_fragment_fifo_entries : Nat
  m_request_fifo_entries : Nat
  m_rob_entries : Nat
  m_result_fifo_entries : Nat
  readOnly : m_write_policy = .READ_ONLY
  onMiss : m_alloc_policy = .ON_MISS

structure MemFetch where
  m_addr : Address
  m_data_size : Nat

variable {config : TexConfig}

structure FragmentEntry (config : TexConfig) where
  m_request : Nat
  m_cache_index : config.Index
  m_miss : Bool
  m_data_size : Nat

structure RobEntry (config : TexConfig) where
  m_ready : Bool
  m_time : BitVec 32
  m_index : config.Index
  m_request : Nat
  m_block_addr : Address

structure DataBlock where
  m_valid : Bool
  m_block_addr : Address

inductive CacheRequestStatus where
  | HIT_RESERVED
  | MISS
  | RESERVATION_FAIL
  deriving DecidableEq

structure TexCache (config : TexConfig) where
  m_tags : Lines config.toCacheConfig
  m_fragment_fifo : RingBuffer (FragmentEntry config)
  m_request_fifo : RingBuffer Nat
  m_rob : RingBuffer (RobEntry config)
  m_cache : config.Index → DataBlock
  m_result_fifo : RingBuffer Nat
  /-- `m_rob_index`, where the fields are valid. -/
  m_extra_mf_fields : Nat → Option Nat
  /-- The objects that the numbers stand for. -/
  requests : Nat → MemFetch

namespace TexCache

def new (fragments : Nat → FragmentEntry config) (entries : Nat → RobEntry config)
    (fetches : Nat → Nat) (addresses : config.Index → Address) (requests : Nat → MemFetch) :
    TexCache config where
  m_tags _ := .fresh
  m_fragment_fifo := .new config.m_fragment_fifo_entries fragments
  m_request_fifo := .new config.m_request_fifo_entries fetches
  m_rob := .new config.m_rob_entries entries
  m_cache index := ⟨false, addresses index⟩
  m_result_fifo := .new config.m_result_fifo_entries fetches
  m_extra_mf_fields _ := none
  requests

variable (cache : TexCache config)

/-- `block_addr(mf->get_addr())` -/
def blockOf (mf : Nat) : Address := config.blockAddr (cache.requests mf).m_addr

def sendRequest (mf : Nat) (cache_index : config.Index) (block_addr : Address)
    (time : BitVec 32) : Option (TexCache config) := do
  let (m_rob, rob_index) ← cache.m_rob.push ⟨false, 0, cache_index, mf, block_addr⟩
  let m_tags ← fillIndex cache.m_tags cache_index time
  let (m_request_fifo, _) ← cache.m_request_fifo.push mf
  return { cache with
    m_rob
    m_extra_mf_fields := Function.update cache.m_extra_mf_fields mf (some rob_index)
    requests := Function.update cache.requests mf
      ⟨(cache.requests mf).m_addr, config.m_line_sz.toNat⟩
    m_tags
    m_request_fifo }

/-- The callers pass the address of the `mem_fetch`. -/
def access (mf : Nat) (time : BitVec 32) : Option (TexCache config × CacheRequestStatus) := do
  if cache.m_fragment_fifo.full || cache.m_request_fifo.full || cache.m_rob.full then
    return (cache, .RESERVATION_FAIL)
  if config.m_line_sz.toNat < (cache.requests mf).m_data_size then none
  let block_addr := cache.blockOf mf
  let tags ← tagAccessClean cache.m_tags block_addr time
  let data_size := (cache.requests mf).m_data_size
  match tags.result with
  | .RESERVATION_FAIL => none
  | .HIT_RESERVED _ => none
  | .MISS cache_index =>
    let (m_fragment_fifo, _) ← cache.m_fragment_fifo.push ⟨mf, cache_index, true, data_size⟩
    let sent ← { cache with m_tags := tags.m_lines, m_fragment_fifo }.sendRequest mf cache_index
      block_addr time
    return (sent, .MISS)
  | .HIT cache_index =>
    let (m_fragment_fifo, _) ← cache.m_fragment_fifo.push ⟨mf, cache_index, false, data_size⟩
    return ({ cache with m_tags := tags.m_lines, m_fragment_fifo }, .HIT_RESERVED)

def sendNext (portFull : Bool) : Option (TexCache config × Option Nat) := do
  if cache.m_request_fifo.empty || portFull then return (cache, none)
  let (m_request_fifo, mf) ← cache.m_request_fifo.pop
  return ({ cache with m_request_fifo }, some mf)

def moveHead (e : FragmentEntry config) : Option (TexCache config) := do
  let (m_result_fifo, _) ← cache.m_result_fifo.push e.m_request
  let (m_fragment_fifo, _) ← cache.m_fragment_fifo.pop
  return { cache with m_result_fifo, m_fragment_fifo }

def readNext : Option (TexCache config) := do
  if cache.m_fragment_fifo.empty || cache.m_result_fifo.full then return cache
  let e := cache.m_fragment_fifo.peek
  if e.m_miss then
    let r ← cache.m_rob.peekAt cache.m_rob.tail
    if r.m_request ≠ e.m_request then none
    if r.m_block_addr ≠ cache.blockOf e.m_request then none
    if r.m_ready then
      if r.m_index ≠ e.m_cache_index then none
      let filled := { cache with
        m_cache := Function.update cache.m_cache r.m_index ⟨true, r.m_block_addr⟩ }
      let moved ← filled.moveHead e
      let (m_rob, _) ← moved.m_rob.pop
      return { moved with m_rob }
    else return cache
  else
    if (cache.m_cache e.m_cache_index).m_valid = false then none
    if (cache.m_cache e.m_cache_index).m_block_addr ≠ cache.blockOf e.m_request then none
    cache.moveHead e

def cycle (portFull : Bool) : Option (TexCache config × Option Nat) := do
  let (cache, sent) ← cache.sendNext portFull
  return (← cache.readNext, sent)

def fill (mf : Nat) (time : BitVec 32) : Option (TexCache config) := do
  let rob_index ← cache.m_extra_mf_fields mf
  if cache.m_rob.empty then none
  let r ← cache.m_rob.peekAt rob_index
  if r.m_ready then none
  if r.m_block_addr ≠ cache.blockOf mf then none
  return { cache with m_rob := cache.m_rob.modify rob_index { r with m_ready := true, m_time := time } }

def next_access : Option (TexCache config × Nat) := do
  let (m_result_fifo, mf) ← cache.m_result_fifo.pop
  return ({ cache with m_result_fifo }, mf)

end TexCache

/-! ## Runs -/

structure System (config : TexConfig) where
  cache : TexCache config
  /-- The accesses that were accepted. -/
  accepted : List Nat
  /-- The reads sent to the memory that are not answered. -/
  outstanding : List Nat
  /-- The results that were taken. -/
  delivered : List Nat

/-- A new `mem_fetch` is accessed, the cache works for a cycle, the memory answers a read in
    any order, or a result is taken. -/
inductive Action where
  | access (mf : Nat) (request : MemFetch) (time : BitVec 32)
  | cycle (portFull : Bool)
  | fill (mf : Nat) (time : BitVec 32)
  | next_access

namespace System

variable (system : System config)

/-- A `mem_fetch` that waits in the cache is not made again, and the memory answers what it was
    asked, once. -/
def Allowed : Action → Prop
  | .access mf _ _ => ∀ e ∈ system.cache.m_fragment_fifo.contents, e.m_request ≠ mf
  | .fill mf _ => mf ∈ system.outstanding
  | .cycle _ => True
  | .next_access => system.cache.m_result_fifo.empty = false

def act : Action → Option (System config)
  | .access mf request time => do
    let requests := Function.update system.cache.requests mf request
    let (cache, status) ← { system.cache with requests }.access mf time
    if status = .RESERVATION_FAIL then return { system with cache }
    return { system with cache, accepted := system.accepted ++ [mf] }
  | .cycle portFull => do
    let (cache, sent) ← system.cache.cycle portFull
    return { system with cache, outstanding := system.outstanding ++ sent.toList }
  | .fill mf time => do
    return { system with
      cache := ← system.cache.fill mf time
      outstanding := system.outstanding.erase mf }
  | .next_access => do
    let (cache, mf) ← system.cache.next_access
    return { system with cache, delivered := system.delivered ++ [mf] }

end System

inductive Reachable : System config → Prop where
  | new (fragments : Nat → FragmentEntry config) (entries : Nat → RobEntry config)
      (fetches : Nat → Nat) (addresses : config.Index → Address) (requests : Nat → MemFetch) :
      Reachable ⟨.new fragments entries fetches addresses requests, [], [], []⟩
  | step {system system'} (action : Action) : Reachable system → system.Allowed action →
      system.act action = some system' → Reachable system'

end AesOnGpu.Texture
