import AesOnGpu.MemAccess

/-! # Coalescing the accesses of a warp

Model of `warp_inst_t::memory_coalescing_arch_13` and its `reduce_and_send` in
`abstract_hardware_model.cc`.  `none` is a failed assertion or a bit set beyond
the end of a bit set.

Addresses of requests have 64 bits; `lineSizeBasedTagFunc` returns an
`address_type`, which has 32.  `std::map` is an ordered map, so that its
transactions are visited by ascending block address.  The printed lines are left
out.
-/

namespace AesOnGpu.Coalescing

/-- The spaces whose accesses are coalesced. -/
inductive Space where
  | global_space
  | local_space
  | param_space_local
  deriving DecidableEq

/-- `core_config`, as far as coalescing reads it.  A warp is split into at least
    one part and has at most `MAX_WARP_SIZE` threads. -/
structure CoreConfig where
  warp_size : Nat
  mem_warp_parts : Nat
  coal_disabled : Bool
  coal_disabled_dyn : Bool
  coal_line_num : Nat
  fits : warp_size ≤ 32
  split : 0 < mem_warp_parts

/-- `MAX_ACCESSES_PER_INSN_PER_THREAD`. -/
abbrev maxAccesses : Nat := 8

/-- A warp instruction; `line_number` is the `ptx_line_number` of its PC. -/
structure WarpInst (warpSize : Nat) where
  data_size : Nat
  space : Space
  line_number : Nat
  m_warp_active_mask : Finset (Fin warpSize)
  memreqaddr : Fin warpSize → Fin maxAccesses → Address

structure MemAccess (warpSize : Nat) where
  m_type : MemAccessType
  m_addr : Address
  m_req_size : Nat
  m_write : Bool
  m_warp_mask : Finset (Fin warpSize)
  m_byte_mask : Finset (Fin 128)
  deriving DecidableEq

structure TransactionInfo (warpSize : Nat) where
  chunks : Finset (Fin 4)
  bytes : Finset (Fin 128)
  active : Finset (Fin warpSize)

abbrev Transactions (warpSize : Nat) := Std.TreeMap Address (TransactionInfo warpSize)

variable {warpSize : Nat}

/-! ## Requests of the threads -/

def lineSizeBasedTagFunc (address line_size : Address) : BitVec 32 :=
  (address &&& ~~~(line_size - 1)).setWidth 32

def segmentSize (data_size : Nat) : Nat :=
  match data_size with
  | 1 => 32
  | 2 => 64
  | 4 | 8 | 16 => 128
  | _ => 0

/-- `coal_disabled_loc` of an active thread. -/
def coalDisabledLoc (config : CoreConfig) (inst : WarpInst warpSize) : Bool :=
  if config.coal_disabled_dyn then inst.line_number = config.coal_line_num
  else config.coal_disabled

/-- `data_size_coales` and `num_accesses`. -/
def splitAccess (inst : WarpInst warpSize) : Nat × Nat :=
  match inst.space with
  | .local_space | .param_space_local =>
    if inst.data_size ≥ 4 then (4, inst.data_size / 4) else (inst.data_size, 1)
  | .global_space => (inst.data_size, 1)

/-- The position of an address in its 128 bytes. -/
def lineOffset (addr : Address) : Fin 128 :=
  ⟨(addr &&& 127).toNat, by
    rw [BitVec.toNat_and]
    exact Nat.lt_of_le_of_lt Nat.and_le_right (by decide)⟩

def chunkOf (addr : Address) : Fin 4 :=
  ⟨lineOffset addr / 32, by omega⟩

def setBytes (bytes : Finset (Fin 128)) (idx data_size_coales : Nat) : Option (Finset (Fin 128)) :=
  (List.range data_size_coales).foldlM
    (fun bytes i => if inside : idx + i < 128 then some (insert ⟨idx + i, inside⟩ bytes) else none)
    bytes

def TransactionInfo.empty : TransactionInfo warpSize := ⟨∅, ∅, ∅⟩

def recordAccess (inst : WarpInst warpSize) (thread : Fin warpSize)
    (subwarp_transactions : Transactions warpSize) (access : Fin maxAccesses) :
    Option (Transactions warpSize) := do
  let segment_size : Address := .ofNat 64 (segmentSize inst.data_size)
  let data_size_coales := (splitAccess inst).1
  let addr := inst.memreqaddr thread access
  let block_address := lineSizeBasedTagFunc addr segment_size
  let key : Address := block_address.setWidth 64
  let info := subwarp_transactions[key]?.getD .empty
  if block_address ≠ lineSizeBasedTagFunc (addr + .ofNat 64 data_size_coales - 1) segment_size then
    none
  let bytes ← setBytes info.bytes (lineOffset addr) data_size_coales
  return subwarp_transactions.insert key
    { chunks := insert (chunkOf addr) info.chunks, bytes, active := insert thread info.active }

/-! ## Sub-warps -/

def subwarpThreads (config : CoreConfig) (subwarp : Nat) : List (Fin config.warp_size) :=
  let subwarp_size := config.warp_size / config.mem_warp_parts
  (List.finRange config.warp_size).filter fun thread =>
    subwarp * subwarp_size ≤ thread ∧ thread < subwarp_size * (subwarp + 1)

/-- The variables of the loops. -/
structure Coalescer (warpSize : Nat) where
  m_accessq : List (MemAccess warpSize)
  subwarp_transactions : Transactions warpSize
  coal_disabled_loc : Bool

def threadTurn (config : CoreConfig) (inst : WarpInst warpSize) (is_write : Bool)
    (access_type : MemAccessType) (coalescer : Coalescer warpSize) (thread : Fin warpSize) :
    Option (Coalescer warpSize) :=
  if thread ∉ inst.m_warp_active_mask then some coalescer
  else do
    let coal_disabled_loc := coalDisabledLoc config inst
    let start := if coal_disabled_loc then ∅ else coalescer.subwarp_transactions
    let num_accesses := (splitAccess inst).2
    if num_accesses > maxAccesses then none
    let accesses := (List.finRange maxAccesses).filter fun access => access.val < num_accesses
    let subwarp_transactions ← accesses.foldlM (recordAccess inst thread) start
    let sent :=
      if coal_disabled_loc then
        subwarp_transactions.toList.map fun (addr, info) =>
          ⟨access_type, addr, segmentSize inst.data_size, is_write, info.active, info.bytes⟩
      else []
    return ⟨coalescer.m_accessq ++ sent, subwarp_transactions, coal_disabled_loc⟩

/-! ## Reducing a transaction -/

/-- The part of a transaction that is left: its address, its size and the halves
    used when it has 64 bytes. -/
structure Reduction where
  addr : Address
  size : Nat
  h : Finset (Fin 2)

/-- The bits of `h` that two chunks stand for. -/
def halves (lower upper : Bool) : Finset (Fin 2) :=
  (if lower then {0} else ∅) ∪ (if upper then {1} else ∅)

/-- From 128 bytes to 64, or the halves of 64 bytes. -/
def reduceSegment (q : Finset (Fin 4)) (addr : Address) (segment_size : Nat) : Option Reduction :=
  if segment_size = 128 then
    let lower_half_used := 0 ∈ q ∨ 1 ∈ q
    let upper_half_used := 2 ∈ q ∨ 3 ∈ q
    if lower_half_used ∧ ¬ upper_half_used then some ⟨addr, 64, halves (0 ∈ q) (1 ∈ q)⟩
    else if ¬ lower_half_used ∧ upper_half_used then some ⟨addr + 64, 64, halves (2 ∈ q) (3 ∈ q)⟩
    else if lower_half_used ∧ upper_half_used then some ⟨addr, segment_size, ∅⟩
    else none
  else if segment_size = 64 then
    if addr % 128 = 0 then some ⟨addr, segment_size, halves (0 ∈ q) (1 ∈ q)⟩
    else if addr % 128 = 64 then some ⟨addr, segment_size, halves (2 ∈ q) (3 ∈ q)⟩
    else none
  else some ⟨addr, segment_size, ∅⟩

/-- From 64 bytes to 32. -/
def reduceHalf (reduction : Reduction) : Option (Address × Nat) :=
  if reduction.size = 64 then
    let lower_half_used := 0 ∈ reduction.h
    let upper_half_used := 1 ∈ reduction.h
    if lower_half_used ∧ ¬ upper_half_used then some (reduction.addr, 32)
    else if ¬ lower_half_used ∧ upper_half_used then some (reduction.addr + 32, 32)
    else if lower_half_used ∧ upper_half_used then some (reduction.addr, reduction.size)
    else none
  else some (reduction.addr, reduction.size)

/-- `memory_coalescing_arch_13_reduce_and_send`. -/
def reduceAndSend (is_write : Bool) (access_type : MemAccessType) (info : TransactionInfo warpSize)
    (addr : Address) (segment_size : Nat) : Option (MemAccess warpSize) := do
  if addr &&& (BitVec.ofNat 32 segment_size - 1).setWidth 64 ≠ 0 then none
  if info.chunks.card < 1 then none
  let (addr, size) ← reduceHalf (← reduceSegment info.chunks addr segment_size)
  return ⟨access_type, addr, size, is_write, info.active, info.bytes⟩

/-! ## The instruction -/

def subwarpTurn (config : CoreConfig) (inst : WarpInst config.warp_size) (is_write : Bool)
    (access_type : MemAccessType) (state : List (MemAccess config.warp_size) × Bool)
    (subwarp : Nat) : Option (List (MemAccess config.warp_size) × Bool) := do
  let coalescer ← (subwarpThreads config subwarp).foldlM
    (threadTurn config inst is_write access_type) ⟨state.1, ∅, state.2⟩
  if coalescer.coal_disabled_loc then return (coalescer.m_accessq, coalescer.coal_disabled_loc)
  let m_accessq ← coalescer.subwarp_transactions.toList.foldlM
    (fun m_accessq (addr, info) => do
      return m_accessq ++
        [← reduceAndSend is_write access_type info addr (segmentSize inst.data_size)])
    coalescer.m_accessq
  return (m_accessq, coalescer.coal_disabled_loc)

/-- `memory_coalescing_arch_13`; the accesses are appended to `m_accessq`. -/
def memoryCoalescingArch13 (config : CoreConfig) (inst : WarpInst config.warp_size)
    (is_write : Bool) (access_type : MemAccessType) (m_accessq : List (MemAccess config.warp_size)) :
    Option (List (MemAccess config.warp_size)) := do
  let (m_accessq, _) ← (List.range config.mem_warp_parts).foldlM
    (subwarpTurn config inst is_write access_type) (m_accessq, true)
  return m_accessq

end AesOnGpu.Coalescing
