import AesOnGpu.Memory.PagedMemory

/-! # Device memory

The functions of `gpgpu_t` that allocate device memory and copy to and from it.
Pointers have 64 bits and the allocator counts in 64 bits, but `mem_addr_t` has
32, so that a pointer is cut to its lower half when the memory is accessed.  The
copying loops count in an `unsigned`: for 2^32 bytes or more they never end,
which is `none` here.
-/

namespace AesOnGpu.Memory

/-- A pointer to device memory. -/
abbrev DevicePtr := BitVec 64

def GLOBAL_HEAP_START : DevicePtr := 0x80000000

/-- The global memory is a `memory_space_impl<8192>`. -/
abbrev GlobalMemory := MemorySpace 8192

structure Gpgpu where
  m_dev_malloc : DevicePtr
  m_global_mem : GlobalMemory

namespace Gpgpu

def initial : Gpgpu :=
  ⟨GLOBAL_HEAP_START, (MemorySpace.new 8192).get (MemorySpace.new_isSome (k := 13) rfl)⟩

/-- Take `size` bytes and align to 256 byte boundaries. -/
def bump (m_dev_malloc : DevicePtr) (size : BitVec 64) : DevicePtr :=
  if size % 256 ≠ 0 then m_dev_malloc + size + (256 - size % 256) else m_dev_malloc + size

def gpuMalloc (gpu : Gpgpu) (size : BitVec 64) : Gpgpu × DevicePtr :=
  ({ gpu with m_dev_malloc := bump gpu.m_dev_malloc size }, gpu.m_dev_malloc)

def gpuMallocarray (gpu : Gpgpu) (size : BitVec 64) : Gpgpu × DevicePtr :=
  ({ gpu with m_dev_malloc := bump gpu.m_dev_malloc size }, gpu.m_dev_malloc)

/-- The address that byte `n` of a copy goes to. -/
def byteAddr (start : DevicePtr) (n : BitVec 32) : MemAddr := (start + n.setWidth 64).setWidth 32

def writeBytes (start : DevicePtr) : BitVec 32 → List Byte → GlobalMemory → Option GlobalMemory
  | _, [], memory => some memory
  | n, byte :: data, memory => do
    let memory ← memory.write (byteAddr start n) [byte]
    writeBytes start (n + 1) data memory

def readBytes (start : DevicePtr) (memory : GlobalMemory) : BitVec 32 → Nat → Option (List Byte)
  | _, 0 => some []
  | n, count + 1 => do
    let byte ← memory.read (byteAddr start n) 1
    let rest ← readBytes start memory (n + 1) count
    return byte ++ rest

def memcpyToGpu (gpu : Gpgpu) (dst_start_addr : DevicePtr) (src : List Byte) : Option Gpgpu :=
  if src.length < 2 ^ 32 then
    (writeBytes dst_start_addr 0 src gpu.m_global_mem).map fun m_global_mem =>
      { gpu with m_global_mem }
  else none

def memcpyFromGpu (gpu : Gpgpu) (src_start_addr : DevicePtr) (count : Nat) : Option (List Byte) :=
  if count < 2 ^ 32 then readBytes src_start_addr gpu.m_global_mem 0 count else none

def gpuMemset (gpu : Gpgpu) (dst_start_addr : DevicePtr) (c : BitVec 32) (count : Nat) :
    Option Gpgpu :=
  if count < 2 ^ 32 then
    (writeBytes dst_start_addr 0 (List.replicate count (c.setWidth 8)) gpu.m_global_mem).map
      fun m_global_mem => { gpu with m_global_mem }
  else none

/-! ## Copies -/

theorem blockSize : (8192 : BitVec 32).toNat = 8192 := rfl

theorem toNat_succ {n : BitVec 32} (small : n.toNat + 1 < 2 ^ 32) : (n + 1).toNat = n.toNat + 1 := by
  have one : (1 : BitVec 32).toNat = 1 := rfl
  rw [BitVec.toNat_add, one, Nat.mod_eq_of_lt small]

theorem toNat_byteAddr {start : DevicePtr} {n : BitVec 32}
    (inside : start.toNat + n.toNat < 2 ^ 32) :
    (byteAddr start n).toNat = start.toNat + n.toNat := by
  have narrow : n.toNat < 2 ^ 64 := by omega
  rw [byteAddr, BitVec.toNat_setWidth, BitVec.toNat_add, BitVec.toNat_setWidth,
    Nat.mod_eq_of_lt narrow]
  omega

theorem writeBytes_spec {start : DevicePtr} (data : List Byte) (n : BitVec 32)
    (memory : GlobalMemory) (inside : start.toNat + n.toNat + data.length ≤ 2 ^ 32)
    (short : n.toNat + data.length < 2 ^ 32) :
    ∃ memory', writeBytes start n data memory = some memory' ∧
      memory'.contents = memory.contents.write (start.toNat + n.toNat) data := by
  induction data generalizing n memory with
  | nil => exact ⟨memory, rfl, by rw [Flat.write_nil]⟩
  | cons byte data ih =>
    rw [List.length_cons] at inside short
    have below : start.toNat + n.toNat < 2 ^ 32 := by omega
    have addr := toNat_byteAddr below
    have inSpace : (byteAddr start n).toNat + [byte].length ≤ 2 ^ 32 := by
      rw [addr, List.length_singleton]
      exact below
    have narrow : (byteAddr start n).toNat % (8192 : BitVec 32).toNat + [byte].length < 2 ^ 32 := by
      rw [blockSize, List.length_singleton]
      omega
    obtain ⟨one, written, contents⟩ := memory.write_spec (byteAddr start n) inSpace narrow
    rw [writeBytes, written]
    cases data with
    | nil => exact ⟨one, rfl, by rw [contents, addr]⟩
    | cons other data =>
      rw [List.length_cons] at inside short
      have next := toNat_succ (n := n) (by omega)
      obtain ⟨memory', rest, contents'⟩ := ih (n + 1) one
        (by rw [next, List.length_cons]; omega) (by rw [next, List.length_cons]; omega)
      refine ⟨memory', rest, ?_⟩
      rw [contents', contents, addr, next, Flat.write_cons _ _ byte (other :: data), Nat.add_assoc]

theorem readBytes_spec {start : DevicePtr} (memory : GlobalMemory) (count : Nat) (n : BitVec 32)
    (inside : start.toNat + n.toNat + count ≤ 2 ^ 32 - 8192) :
    readBytes start memory n count =
      some (memory.contents.read (start.toNat + n.toNat) count) := by
  induction count generalizing n with
  | zero => rfl
  | succ count ih =>
    have below : start.toNat + n.toNat < 2 ^ 32 := by omega
    have addr := toNat_byteAddr below
    have next := toNat_succ (n := n) (by omega)
    have inSpace : (byteAddr start n).toNat + 1 ≤ 2 ^ 32 - (8192 : BitVec 32).toNat := by
      rw [addr, blockSize]
      omega
    rw [readBytes, memory.read_spec (byteAddr start n) inSpace]
    simp only [Option.bind_eq_bind, Option.bind_some]
    rw [ih (n + 1) (by omega), addr, next]
    simp only [Option.bind_some, Option.pure_def]
    rw [← Nat.add_assoc, ← Flat.read_add, Nat.add_comm 1 count]

theorem contents_initial : initial.m_global_mem.contents = fun _ => 0 := by
  have made : (MemorySpace.new 8192).isSome := MemorySpace.new_isSome (k := 13) rfl
  exact MemorySpace.contents_new (Option.some_get made).symm

/-! ## Copies at an offset in an allocation -/

section Offsets

variable {start : DevicePtr} {offset : Nat}

theorem toNat_add_offset (small : start.toNat + offset < 2 ^ 64) :
    (start + BitVec.ofNat 64 offset).toNat = start.toNat + offset := by
  rw [BitVec.toNat_add, BitVec.toNat_ofNat, Nat.add_mod_mod, Nat.mod_eq_of_lt small]

theorem writeBytes_offset (memory : GlobalMemory) (data : List Byte)
    (inside : 0 < data.length → start.toNat + offset + data.length ≤ 2 ^ 32)
    (short : data.length < 2 ^ 32) :
    ∃ memory', writeBytes (start + BitVec.ofNat 64 offset) 0 data memory = some memory' ∧
      memory'.contents = memory.contents.write (start.toNat + offset) data := by
  cases data with
  | nil => exact ⟨memory, rfl, by rw [Flat.write_nil]⟩
  | cons byte data =>
    have ending := inside (Nat.succ_pos _)
    have small : start.toNat + offset < 2 ^ 64 := by
      rw [List.length_cons] at ending
      omega
    have addr := toNat_add_offset small
    have zero : (0 : BitVec 32).toNat = 0 := rfl
    obtain ⟨memory', run, contents⟩ := writeBytes_spec (byte :: data) 0 memory
      (by rw [addr, zero]; exact ending) (by rw [zero]; omega)
    rw [addr, zero] at contents
    exact ⟨memory', run, contents⟩

theorem memcpyToGpu_spec (gpu : Gpgpu) (src : List Byte)
    (inside : 0 < src.length → start.toNat + offset + src.length ≤ 2 ^ 32)
    (short : src.length < 2 ^ 32) :
    ∃ m_global_mem : GlobalMemory, gpu.memcpyToGpu (start + BitVec.ofNat 64 offset) src =
        some { gpu with m_global_mem } ∧
      m_global_mem.contents = gpu.m_global_mem.contents.write (start.toNat + offset) src := by
  obtain ⟨memory, run, contents⟩ := writeBytes_offset gpu.m_global_mem src inside short
  exact ⟨memory, by rw [memcpyToGpu, if_pos short, run, Option.map_some], contents⟩

theorem gpuMemset_spec (gpu : Gpgpu) (c : BitVec 32) {count : Nat}
    (inside : 0 < count → start.toNat + offset + count ≤ 2 ^ 32) (short : count < 2 ^ 32) :
    ∃ m_global_mem : GlobalMemory, gpu.gpuMemset (start + BitVec.ofNat 64 offset) c count =
        some { gpu with m_global_mem } ∧
      m_global_mem.contents = gpu.m_global_mem.contents.write (start.toNat + offset)
        (List.replicate count (c.setWidth 8)) := by
  have length : (List.replicate count (c.setWidth 8 : Byte)).length = count :=
    List.length_replicate
  obtain ⟨memory, run, contents⟩ := writeBytes_offset gpu.m_global_mem
    (List.replicate count (c.setWidth 8)) (by rw [length]; exact inside) (by rw [length]; exact short)
  exact ⟨memory, by rw [gpuMemset, if_pos short, run, Option.map_some], contents⟩

theorem memcpyFromGpu_spec (gpu : Gpgpu) {count : Nat}
    (inside : 0 < count → start.toNat + offset + count ≤ 2 ^ 32 - 8192) :
    gpu.memcpyFromGpu (start + BitVec.ofNat 64 offset) count =
      some (gpu.m_global_mem.contents.read (start.toNat + offset) count) := by
  cases count with
  | zero => rfl
  | succ count =>
    have ending := inside (Nat.succ_pos _)
    have small : start.toNat + offset < 2 ^ 64 := by omega
    have addr := toNat_add_offset small
    have zero : (0 : BitVec 32).toNat = 0 := rfl
    have short : count + 1 < 2 ^ 32 := by omega
    rw [memcpyFromGpu, if_pos short, readBytes_spec _ _ _ (by rw [addr, zero]; exact ending), addr,
      zero, Nat.add_zero]

end Offsets

end Gpgpu

end AesOnGpu.Memory
