import AesOnGpu.MemAccess

/-! # Cache configurations

`cache_config` of `gpu-cache.h`.  `init` reads the tokens of a configuration
string; `none` is a parse error or a failed assertion.  The function `set_index`
is virtual: linear, hashed or by partition address.  It gets the address of a
block and returns one of the sets.

The line size has 32 bits, and so has the mask made from it, which clears the
upper half of a 64-bit address as well.
-/

namespace AesOnGpu.Cache

inductive ReplacementPolicy where
  | LRU
  | FIFO
  deriving DecidableEq

inductive WritePolicy where
  | READ_ONLY
  | WRITE_BACK
  | WRITE_THROUGH
  | WRITE_EVICT
  | LOCAL_WB_GLOBAL_WT
  deriving DecidableEq

inductive AllocationPolicy where
  | ON_MISS
  | ON_FILL
  deriving DecidableEq

inductive WriteAllocatePolicy where
  | NO_WRITE_ALLOCATE
  | WRITE_ALLOCATE
  deriving DecidableEq

structure CacheConfig where
  m_nset : Nat
  m_line_sz : BitVec 32
  m_assoc : Nat
  m_replacement_policy : ReplacementPolicy
  m_write_policy : WritePolicy
  m_alloc_policy : AllocationPolicy
  m_write_alloc_policy : WriteAllocatePolicy
  m_mshr_entries : Nat
  m_mshr_max_merge : Nat
  m_miss_queue_size : Nat
  set_index : Address → Fin m_nset

namespace CacheConfig

/-- The position of a line; in the array it is `set * m_assoc + way`. -/
abbrev Index (config : CacheConfig) := Fin config.m_nset × Fin config.m_assoc

def tag (config : CacheConfig) (addr : Address) : Address :=
  addr &&& (~~~(config.m_line_sz - 1)).setWidth 64

def blockAddr (config : CacheConfig) (addr : Address) : Address :=
  addr &&& (~~~(config.m_line_sz - 1)).setWidth 64

@[simp] theorem blockAddr_blockAddr (config : CacheConfig) (addr : Address) :
    config.blockAddr (config.blockAddr addr) = config.blockAddr addr := by
  rw [blockAddr, blockAddr, BitVec.and_assoc, BitVec.and_self]

@[simp] theorem tag_blockAddr (config : CacheConfig) (addr : Address) :
    config.tag (config.blockAddr addr) = config.blockAddr addr :=
  config.blockAddr_blockAddr addr

/-! ## Reading a configuration -/

structure Tokens where
  nset : Nat
  line_sz : BitVec 32
  assoc : Nat
  rp : Char
  wp : Char
  ap : Char
  wap : Char
  mshr_type : Char
  mshr_entries : Nat
  mshr_max_merge : Nat
  miss_queue_size : Nat
  data_port_width : BitVec 32

def readReplacementPolicy (rp : Char) : Option ReplacementPolicy :=
  match rp with
  | 'L' => some .LRU
  | 'F' => some .FIFO
  | _ => none

def readWritePolicy (wp : Char) : Option WritePolicy :=
  match wp with
  | 'R' => some .READ_ONLY
  | 'B' => some .WRITE_BACK
  | 'T' => some .WRITE_THROUGH
  | 'E' => some .WRITE_EVICT
  | 'L' => some .LOCAL_WB_GLOBAL_WT
  | _ => none

def readAllocationPolicy (ap : Char) : Option AllocationPolicy :=
  match ap with
  | 'm' => some .ON_MISS
  | 'f' => some .ON_FILL
  | _ => none

def readWriteAllocatePolicy (wap : Char) : Option WriteAllocatePolicy :=
  match wap with
  | 'W' => some .WRITE_ALLOCATE
  | 'N' => some .NO_WRITE_ALLOCATE
  | _ => none

/-- `init`, for a cache that is not a texture cache: `baseline_cache` asserts that
    its miss status registers are associative. -/
def init (tokens : Tokens) (set_index : Address → Fin tokens.nset) : Option CacheConfig := do
  let m_replacement_policy ← readReplacementPolicy tokens.rp
  let m_write_policy ← readWritePolicy tokens.wp
  let m_alloc_policy ← readAllocationPolicy tokens.ap
  if tokens.mshr_type ≠ 'A' then none
  let m_write_alloc_policy ← readWriteAllocatePolicy tokens.wap
  if m_alloc_policy = .ON_FILL ∧ m_write_policy = .WRITE_BACK then none
  let m_data_port_width := if tokens.data_port_width = 0 then tokens.line_sz else tokens.data_port_width
  if tokens.line_sz % m_data_port_width ≠ 0 then none
  return {
    m_nset := tokens.nset
    m_line_sz := tokens.line_sz
    m_assoc := tokens.assoc
    m_replacement_policy
    m_write_policy
    m_alloc_policy
    m_write_alloc_policy
    m_mshr_entries := tokens.mshr_entries
    m_mshr_max_merge := tokens.mshr_max_merge
    m_miss_queue_size := tokens.miss_queue_size
    set_index }

def Accepted (config : CacheConfig) : Prop :=
  ∃ tokens set_index, init tokens set_index = some config

/-- One set of lines of 128 bytes. -/
def oneSet (m_assoc : Nat) (m_write_policy : WritePolicy) (m_alloc_policy : AllocationPolicy)
    (m_write_alloc_policy : WriteAllocatePolicy) (m_mshr_max_merge m_miss_queue_size : Nat) :
    CacheConfig :=
  { m_nset := 1, m_line_sz := 128, m_assoc, m_replacement_policy := .LRU, m_write_policy,
    m_alloc_policy, m_write_alloc_policy, m_mshr_entries := 2, m_mshr_max_merge,
    m_miss_queue_size, set_index := fun _ => 0 }

end CacheConfig

end AesOnGpu.Cache
