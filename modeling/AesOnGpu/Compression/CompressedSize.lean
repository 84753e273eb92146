import AesOnGpu.Compression.GeneralCompress
import AesOnGpu.Memory.Device

/-! # The bytes that are compressed

`dram_req_t::getCompressedSize` reads as many bytes as the request has, but from the start of
the 128-byte line that the request's address is in. `global_memory` is cast to a memory with
blocks of another size; the call is virtual and reads the global memory as it is.
-/

namespace AesOnGpu.Compression

open Memory

/-- `new_addr_type`, a request's address. -/
abbrev NewAddr := BitVec 64

/-- `address_limit`, in 64 bits. -/
def addressLimit (addr : NewAddr) (data_size : BitVec 32) : NewAddr :=
  addr + data_size.setWidth 64

/-- The address that is read, cut to the 32 bits of `mem_addr_t`. -/
def lineAddr (addr : NewAddr) : MemAddr := ((addr >>> 7) <<< 7).setWidth 32

/-- The buffer `mydata`; `none` is the exception that `read` throws. -/
def mydata (memory : GlobalMemory) (addr : NewAddr) (data_size : BitVec 32) :
    Option (List Byte) :=
  memory.read (lineAddr addr) data_size.toNat

def getCompressedSize (absMin : BitVec 32) (heap : Nat → DirectoryEntry) (numEntries : Nat)
    (memory : GlobalMemory) (addr : NewAddr) (data_size : BitVec 32) (compressAlgo : Nat) :
    Option CPackCall :=
  -- always check for out of memory bound, 4GB
  if (addressLimit addr data_size).toNat ≤ 0x100000000 then do
    let buffer ← mydata memory addr data_size
    return GeneralCompress absMin heap numEntries buffer compressAlgo
  else some ⟨some data_size.toNat, numEntries⟩

def CompressesRequested (memory : GlobalMemory) (addr : NewAddr) (data_size : BitVec 32) : Prop :=
  (addressLimit addr data_size).toNat ≤ 0x100000000 →
    mydata memory addr data_size = some (memory.contents.read addr.toNat data_size.toNat)

theorem lineAddr_toNat (addr : NewAddr) :
    (lineAddr addr).toNat = (addr.toNat - addr.toNat % 128) % 2 ^ 32 := by
  have hbound := addr.isLt
  rw [lineAddr, BitVec.toNat_setWidth, BitVec.toNat_shiftLeft, BitVec.toNat_ushiftRight,
    Nat.shiftRight_eq_div_pow, Nat.shiftLeft_eq]
  omega

theorem addressLimit_toNat (addr : NewAddr) (data_size : BitVec 32) :
    (addressLimit addr data_size).toNat = (addr.toNat + data_size.toNat) % 2 ^ 64 := by
  have hsize := data_size.isLt
  rw [addressLimit, BitVec.toNat_add, BitVec.toNat_setWidth,
    Nat.mod_eq_of_lt (show data_size.toNat < 2 ^ 64 by omega)]

theorem compresses_of_aligned (memory : GlobalMemory) {addr : NewAddr} {data_size : BitVec 32}
    (haligned : 128 ∣ addr.toNat) (hbelow : addr.toNat + data_size.toNat ≤ 2 ^ 32 - 8192) :
    CompressesRequested memory addr data_size := by
  intro _
  have hline : (lineAddr addr).toNat = addr.toNat := by
    rw [lineAddr_toNat]
    omega
  rw [mydata, memory.read_spec (lineAddr addr) (by rw [hline]; exact hbelow), hline]

theorem line_bound {memory : GlobalMemory} {addr : NewAddr} {data_size : BitVec 32}
    (hsize : 0 < data_size.toNat) (hlimit : (addressLimit addr data_size).toNat ≤ 0x100000000)
    (hreads : (mydata memory addr data_size).isSome) :
    (lineAddr addr).toNat = addr.toNat - addr.toNat % 128 ∧
      addr.toNat - addr.toNat % 128 + data_size.toNat ≤ 2 ^ 32 - 8192 ∧ addr.toNat < 2 ^ 32 := by
  have hline := lineAddr_toNat addr
  have haddr := addr.isLt
  have hnarrow := data_size.isLt
  have hbound : (lineAddr addr).toNat + data_size.toNat ≤ 2 ^ 32 - 8192 := by
    by_contra hbeyond
    rw [mydata, memory.read_beyond _ hsize hnarrow (Nat.lt_of_not_le hbeyond)] at hreads
    exact absurd hreads (by simp)
  rw [addressLimit_toNat] at hlimit
  -- the sum does not wrap: a line at the top of the 64 bits is cut to one in the last block
  have hfits : addr.toNat + data_size.toNat < 2 ^ 64 := by omega
  omega

theorem misaligned_differs {addr : NewAddr} {data_size : BitVec 32} (hsize : 0 < data_size.toNat)
    (hlimit : (addressLimit addr data_size).toNat ≤ 0x100000000)
    (hinside : ¬ 128 ∣ addr.toNat) (memory : GlobalMemory) (hzero : memory.contents = fun _ => 0) :
    ∃ memory', ¬ CompressesRequested memory' addr data_size := by
  by_cases hreads : (mydata memory addr data_size).isSome
  · obtain ⟨hline, hbound, hsmall⟩ := line_bound hsize hlimit hreads
    have hcut : (addr.setWidth 32).toNat = addr.toNat := by
      rw [BitVec.toNat_setWidth, Nat.mod_eq_of_lt hsmall]
    have hone : ([1] : List Byte).length = 1 := rfl
    obtain ⟨memory', _, hcontents⟩ := memory.write_spec (addr.setWidth 32)
      (show (addr.setWidth 32).toNat + ([1] : List Byte).length ≤ 2 ^ 32 by omega)
      (Nat.lt_of_le_of_lt (Nat.add_le_add_right (Nat.mod_le _ _) _) (by omega))
    refine ⟨memory', fun hcompresses => ?_⟩
    have hbytes := hcompresses hlimit
    rw [mydata, memory'.read_spec (lineAddr addr) (by rw [hline]; exact hbound), hline,
      Option.some.injEq] at hbytes
    have hfirst := congrArg (fun bytes : List Byte => bytes[0]?) hbytes
    have hat : memory'.contents addr.toNat = 1 := by
      rw [hcontents, hcut, ← Nat.add_zero addr.toNat]
      exact memory.contents.write_inside (show 0 < ([1] : List Byte).length by omega)
    have hbefore : memory'.contents (addr.toNat - addr.toNat % 128) = 0 := by
      rw [hcontents, hcut, memory.contents.write_below (by omega), hzero]
    simp [Flat.read, hsize, hat, hbefore] at hfirst
  · refine ⟨memory, fun hcompresses => hreads ?_⟩
    rw [hcompresses hlimit]
    rfl

theorem fresh_memory : ∃ memory : GlobalMemory, memory.contents = fun _ => 0 := by
  obtain ⟨memory, hnew⟩ := Option.isSome_iff_exists.mp
    (@MemorySpace.new_isSome 8192 13 rfl)
  exact ⟨memory, MemorySpace.contents_new hnew⟩

/-- The bytes compressed are the requested ones, whatever the memory holds, exactly for
requests at the start of a line; the last block of the address space cannot be read at all. -/
theorem compresses_requested_iff (addr : NewAddr) (data_size : BitVec 32) :
    (∀ memory : GlobalMemory, CompressesRequested memory addr data_size) ↔
      data_size = 0 ∨ 0x100000000 < (addressLimit addr data_size).toNat ∨
        128 ∣ addr.toNat ∧ addr.toNat + data_size.toNat ≤ 2 ^ 32 - 8192 := by
  constructor
  · intro hall
    by_cases hempty : data_size = 0
    · exact Or.inl hempty
    · cases Nat.lt_or_ge 0x100000000 (addressLimit addr data_size).toNat with
      | inl hbeyond => exact Or.inr (Or.inl hbeyond)
      | inr hlimit =>
          have hsize : 0 < data_size.toNat := by
            apply Nat.pos_of_ne_zero
            exact fun hzero => hempty (BitVec.eq_of_toNat_eq hzero)
          obtain ⟨memory, hzero⟩ := fresh_memory
          have haligned : 128 ∣ addr.toNat := by
            by_contra hinside
            obtain ⟨memory', hdiffers⟩ :=
              misaligned_differs hsize hlimit hinside memory hzero
            exact hdiffers (hall memory')
          obtain ⟨_, hbound, _⟩ := line_bound hsize hlimit
            (show (mydata memory addr data_size).isSome by rw [hall memory hlimit]; rfl)
          exact Or.inr (Or.inr ⟨haligned, by omega⟩)
  · rintro (rfl | hbeyond | ⟨haligned, hbelow⟩) memory
    · intro _
      exact memory.read_empty (lineAddr addr)
    · intro hlimit
      omega
    · exact compresses_of_aligned memory haligned hbelow

/-- The second 32 bytes of a line: the first 32 are compressed. -/
theorem half_line_compressed : ¬ ∀ memory : GlobalMemory, CompressesRequested memory 32 32 := by
  intro hall
  obtain ⟨memory, hzero⟩ := fresh_memory
  have hsize : 0 < (32 : BitVec 32).toNat := by decide
  have hlimit : (addressLimit 32 32).toNat ≤ 0x100000000 := by decide
  have hinside : ¬ 128 ∣ (32 : NewAddr).toNat := by decide
  obtain ⟨memory', hdiffers⟩ := misaligned_differs hsize hlimit hinside memory hzero
  exact hdiffers (hall memory')

end AesOnGpu.Compression
