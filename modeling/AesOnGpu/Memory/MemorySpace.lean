import Mathlib

/-! # The simulated memory

`mem_storage` and `memory_space_impl` of `cuda-sim/memory.h` and `memory.cc`.
The memory is a map from block indices to blocks of `BSIZE` bytes, which are made
when they are first written to.  `none` is a failed assertion or the exception
that `read_single_block` throws.  Watchpoints only print and are left out.

Addresses have 32 bits.  A comparison with a `size_t` is made in 64 bits, but the
end of a block is computed in 32 bits.
-/

namespace AesOnGpu.Memory

/-- `mem_addr_t`. -/
abbrev MemAddr := BitVec 32

abbrev Byte := BitVec 8

/-- `mem_storage`. -/
abbrev MemStorage (BSIZE : BitVec 32) := Fin BSIZE.toNat → Byte

namespace MemStorage

variable {BSIZE : BitVec 32}

def calloc : MemStorage BSIZE := fun _ => 0

def write (storage : MemStorage BSIZE) (offset : BitVec 32) (data : List Byte) :
    Option (MemStorage BSIZE) :=
  if offset.toNat + data.length ≤ BSIZE.toNat then
    some fun i => if offset.toNat ≤ i then data.getD (i - offset.toNat) (storage i) else storage i
  else none

def read (storage : MemStorage BSIZE) (offset : BitVec 32) (length : Nat) : Option (List Byte) :=
  if inside : offset.toNat + length ≤ BSIZE.toNat then
    some (List.ofFn fun i : Fin length =>
      storage ⟨offset.toNat + i, Nat.lt_of_lt_of_le (Nat.add_lt_add_left i.isLt _) inside⟩)
  else none

end MemStorage

/-! ## Blocks -/

/-- One turn of the loop in the constructor. -/
def log2Turn (BSIZE : BitVec 32) (m_log2_block_size : Option Nat) (n : Nat) : Option (Option Nat) :=
  if BSIZE.getLsbD n then
    if m_log2_block_size = none then some (some n) else none
  else some m_log2_block_size

/-- The constructor's `m_log2_block_size`. -/
def log2BlockSize (BSIZE : BitVec 32) : Option Nat := do
  (← (List.range 32).foldlM (log2Turn BSIZE) none)

/-- The bits below `n` are those of the power of two found so far. -/
def Log2Found (BSIZE : BitVec 32) (n : Nat) : Option Nat → Prop
  | none => ∀ i < n, BSIZE.getLsbD i = false
  | some k => k < n ∧ ∀ i < n, BSIZE.getLsbD i = decide (i = k)

theorem log2Turn_found {BSIZE : BitVec 32} {n : Nat} {found found' : Option Nat}
    (before : Log2Found BSIZE n found) (turn : log2Turn BSIZE found n = some found') :
    Log2Found BSIZE (n + 1) found' := by
  rw [log2Turn] at turn
  split at turn
  · rename_i isSet
    split at turn
    · rename_i isFirst
      subst isFirst
      obtain rfl := Option.some.inj turn
      refine ⟨Nat.lt_succ_self n, fun i below => ?_⟩
      cases Nat.lt_succ_iff_lt_or_eq.mp below with
      | inl earlier => simp [before i earlier, Nat.ne_of_lt earlier]
      | inr here => simp [here, isSet]
    · exact absurd turn (by simp)
  · rename_i isClear
    obtain rfl := Option.some.inj turn
    cases found with
    | none =>
      intro i below
      cases Nat.lt_succ_iff_lt_or_eq.mp below with
      | inl earlier => exact before i earlier
      | inr here => simpa [here] using isClear
    | some k =>
      refine ⟨Nat.lt_succ_of_lt before.1, fun i below => ?_⟩
      cases Nat.lt_succ_iff_lt_or_eq.mp below with
      | inl earlier => exact before.2 i earlier
      | inr here => simpa [here, Nat.ne_of_gt before.1] using isClear

theorem log2Turns_found {BSIZE : BitVec 32} (n : Nat) {found : Option Nat}
    (turns : (List.range n).foldlM (log2Turn BSIZE) none = some found) :
    Log2Found BSIZE n found := by
  induction n generalizing found with
  | zero =>
    obtain rfl := Option.some.inj turns
    intro i below
    exact absurd below (Nat.not_lt_zero i)
  | succ n ih =>
    rw [List.range_succ, List.foldlM_append] at turns
    obtain ⟨before, earlier, turn⟩ := Option.bind_eq_some_iff.mp turns
    simp only [List.foldlM_cons, List.foldlM_nil, Option.bind_eq_bind, Option.pure_def,
      Option.bind_fun_some] at turn
    exact log2Turn_found (ih earlier) turn

theorem log2BlockSize_spec {BSIZE : BitVec 32} {k : Nat} (accepted : log2BlockSize BSIZE = some k) :
    BSIZE.toNat = 2 ^ k := by
  obtain ⟨found, turns, isFound⟩ := Option.bind_eq_some_iff.mp accepted
  have bits := log2Turns_found 32 turns
  rw [isFound] at bits
  have isPower : BSIZE = BitVec.twoPow 32 k := by
    apply BitVec.eq_of_getLsbD_eq
    intro i below
    rw [bits.2 i below, BitVec.getLsbD_twoPow, decide_eq_true bits.1, Bool.true_and]
    simp only [eq_comm]
  rw [isPower, BitVec.toNat_twoPow, Nat.mod_eq_of_lt (Nat.pow_lt_pow_right (by decide) bits.1)]

structure MemorySpace (BSIZE : BitVec 32) where
  m_log2_block_size : Nat
  isPower : BSIZE.toNat = 2 ^ m_log2_block_size
  m_data : Std.TreeMap MemAddr (MemStorage BSIZE)

namespace MemorySpace

variable {BSIZE : BitVec 32}

def new (BSIZE : BitVec 32) : Option (MemorySpace BSIZE) :=
  match found : log2BlockSize BSIZE with
  | some m_log2_block_size => some ⟨m_log2_block_size, log2BlockSize_spec found, ∅⟩
  | none => none

theorem new_isSome {k : Nat} (accepted : log2BlockSize BSIZE = some k) :
    (new BSIZE).isSome = true := by
  rw [new]
  split
  · rfl
  · rename_i rejected
    exact absurd (rejected.symm.trans accepted) (by simp)

/-- `m_data[index]`, which makes the block if there is none. -/
def block (memory : MemorySpace BSIZE) (index : MemAddr) : MemStorage BSIZE :=
  memory.m_data[index]?.getD .calloc

def writeBlock (memory : MemorySpace BSIZE) (index : MemAddr) (offset : BitVec 32)
    (data : List Byte) : Option (MemorySpace BSIZE) := do
  let storage ← (memory.block index).write offset data
  return { memory with m_data := memory.m_data.insert index storage }

/-! ## Accesses that cross blocks -/

/-- The variables of the loops in `write` and `read`. -/
structure Cursor where
  current_addr : MemAddr
  /-- `src_offset` or `dst_offset`. -/
  data_offset : BitVec 32
  nbytes_remain : BitVec 32

def Cursor.offset (BSIZE : BitVec 32) (cursor : Cursor) : BitVec 32 :=
  cursor.current_addr &&& (BSIZE - 1)

def Cursor.tx_bytes (BSIZE : BitVec 32) (cursor : Cursor) : BitVec 32 :=
  let access_limit := cursor.offset BSIZE + cursor.nbytes_remain
  (if access_limit > BSIZE then BSIZE else access_limit) - cursor.offset BSIZE

def Cursor.advance (cursor : Cursor) (tx_bytes : BitVec 32) : Cursor :=
  ⟨cursor.current_addr + tx_bytes, cursor.data_offset + tx_bytes, cursor.nbytes_remain - tx_bytes⟩

/-- The loop of `write`; each turn writes a byte at least, so that the number of
    bytes bounds the turns. -/
def writeLoop (data : List Byte) : Nat → Cursor → MemorySpace BSIZE → Option (MemorySpace BSIZE)
  | 0, cursor, memory => if cursor.nbytes_remain = 0 then some memory else none
  | turns + 1, cursor, memory =>
    if cursor.nbytes_remain = 0 then some memory
    else do
      let page := cursor.current_addr >>> memory.m_log2_block_size
      let tx_bytes := cursor.tx_bytes BSIZE
      let part := (data.drop cursor.data_offset.toNat).take tx_bytes.toNat
      let memory ← memory.writeBlock page (cursor.offset BSIZE) part
      writeLoop data turns (cursor.advance tx_bytes) memory

def write (memory : MemorySpace BSIZE) (addr : MemAddr) (data : List Byte) :
    Option (MemorySpace BSIZE) :=
  let index := addr >>> memory.m_log2_block_size
  if addr.toNat + data.length ≤ ((index + 1) * BSIZE).toNat then
    -- fast route for intra-block access
    memory.writeBlock index (addr &&& (BSIZE - 1)) data
  else
    -- slow route for inter-block access
    writeLoop data data.length ⟨addr, 0, BitVec.ofNat 32 data.length⟩ memory

def readSingleBlock (memory : MemorySpace BSIZE) (blk_idx addr : MemAddr) (length : Nat) :
    Option (List Byte) :=
  if addr.toNat + length > ((blk_idx + 1) * BSIZE).toNat then none
  else match memory.m_data[blk_idx]? with
    | none => some (List.replicate length 0)
    | some storage => storage.read (addr &&& (BSIZE - 1)) length

/-- The loop of `read`. -/
def readLoop (memory : MemorySpace BSIZE) : Nat → Cursor → Option (List Byte)
  | 0, cursor => if cursor.nbytes_remain = 0 then some [] else none
  | turns + 1, cursor =>
    if cursor.nbytes_remain = 0 then some []
    else do
      let page := cursor.current_addr >>> memory.m_log2_block_size
      let tx_bytes := cursor.tx_bytes BSIZE
      let part ← memory.readSingleBlock page cursor.current_addr tx_bytes.toNat
      let rest ← readLoop memory turns (cursor.advance tx_bytes)
      return part ++ rest

def read (memory : MemorySpace BSIZE) (addr : MemAddr) (length : Nat) : Option (List Byte) :=
  let index := addr >>> memory.m_log2_block_size
  if addr.toNat + length ≤ ((index + 1) * BSIZE).toNat then
    memory.readSingleBlock index addr length
  else memory.readLoop length ⟨addr, 0, BitVec.ofNat 32 length⟩

end MemorySpace

end AesOnGpu.Memory
