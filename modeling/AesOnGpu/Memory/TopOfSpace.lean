import AesOnGpu.Memory.PagedMemory

/-! # The top of the address space

The end of the last block is zero in 32 bits.  A write goes around this by the loop
over blocks; a read goes there as well, and is refused for each block by itself.
-/

namespace AesOnGpu.Memory

namespace MemorySpace

variable {BSIZE : BitVec 32}

def ReadsBack (memory : MemorySpace BSIZE) (addr : MemAddr) (data : List Byte) : Prop :=
  ∀ memory', memory.write addr data = some memory' →
    memory'.read addr data.length = some data

/-- The range ends before the last block, or the write is not accepted: it starts inside the
    first block and takes all the rest of the space, so that the end of its first part is zero
    in 32 bits. -/
def Avoids (BSIZE : BitVec 32) (addr : MemAddr) (length : Nat) : Prop :=
  addr.toNat + length ≤ 2 ^ 32 - BSIZE.toNat ∨
    (0 < addr.toNat ∧ addr.toNat < BSIZE.toNat ∧ addr.toNat + length = 2 ^ 32)

theorem blockSize_half (memory : MemorySpace BSIZE) : 2 * BSIZE.toNat ≤ 2 ^ 32 := by
  have hlog := memory.log2_lt
  rw [memory.isPower, ← Nat.pow_succ']
  exact Nat.pow_le_pow_right Nat.two_pos hlog

variable (memory : MemorySpace BSIZE) (addr : MemAddr) {data : List Byte}

theorem write_rest_none (hpos : 0 < addr.toNat) (hfirst : addr.toNat < BSIZE.toNat)
    (hrest : addr.toNat + data.length = 2 ^ 32) : memory.write addr data = none := by
  have hhalf := memory.blockSize_half
  have hend : ((addr >>> memory.m_log2_block_size + 1) * BSIZE).toNat = BSIZE.toNat := by
    rw [memory.toNat_blockEnd, Nat.div_eq_of_lt hfirst, Nat.zero_add, Nat.one_mul]
    exact Nat.mod_eq_of_lt BSIZE.isLt
  have hoffset : addr &&& (BSIZE - 1) = addr := by
    apply BitVec.eq_of_toNat_eq
    rw [memory.toNat_offset, Nat.mod_eq_of_lt hfirst]
  have hlength : (BitVec.ofNat 32 data.length).toNat = data.length := by
    rw [BitVec.toNat_ofNat, Nat.mod_eq_of_lt]
    omega
  have hnot : ¬ BitVec.ofNat 32 data.length = 0 := by
    intro hzero
    rw [hzero] at hlength
    have hempty : data.length = 0 := hlength.symm
    omega
  obtain ⟨turns, hturns⟩ : ∃ turns, data.length = turns + 1 := by
    exact ⟨data.length - 1, by omega⟩
  -- the end of the first part is `2 ^ 32`, which is zero
  have hlimit : addr + BitVec.ofNat 32 data.length = 0 := by
    apply BitVec.eq_of_toNat_eq
    rw [BitVec.toNat_add, hlength, hrest]
    rfl
  have hpart : (Cursor.tx_bytes BSIZE ⟨addr, 0, BitVec.ofNat 32 data.length⟩).toNat =
      data.length := by
    have hsmall : ¬ (0 : BitVec 32) > BSIZE := by
      rw [gt_iff_lt, BitVec.lt_def]
      exact Nat.not_lt_zero _
    simp only [Cursor.tx_bytes, Cursor.offset, hoffset, hlimit, if_neg hsmall]
    rw [BitVec.toNat_sub]
    show (2 ^ 32 - addr.toNat + 0) % 2 ^ 32 = data.length
    omega
  have hblock : ∀ index, memory.writeBlock index addr data = none := by
    intro index
    rw [writeBlock, MemStorage.write, if_neg (by omega)]
    rfl
  have htake : data.take data.length = data := List.take_length
  rw [write, if_neg (by omega), hturns, writeLoop, ← hturns, if_neg hnot]
  simp only [hpart, Cursor.offset, hoffset]
  simp [htake, hblock]

theorem whole_space (hstart : addr.toNat = 0) (hlength : data.length = 2 ^ 32) :
    memory.write addr data = some memory ∧ memory.read addr data.length = some [] := by
  have hhalf := memory.blockSize_half
  have hend : ((addr >>> memory.m_log2_block_size + 1) * BSIZE).toNat = BSIZE.toNat := by
    rw [memory.toNat_blockEnd, hstart, Nat.zero_div, Nat.zero_add, Nat.one_mul]
    exact Nat.mod_eq_of_lt BSIZE.isLt
  have hzero : BitVec.ofNat 32 data.length = 0 := by
    rw [hlength]
    rfl
  obtain ⟨turns, hturns⟩ : ∃ turns, data.length = turns + 1 := ⟨2 ^ 32 - 1, hlength⟩
  constructor
  · rw [write, if_neg (by omega), hzero]
    exact writeLoop_done data _ rfl memory
  · rw [read, if_neg (by omega), hzero, hturns, readLoop, if_pos rfl]

end MemorySpace

open MemorySpace

theorem reads_back_of_avoids {BSIZE : BitVec 32} (memory : MemorySpace BSIZE) (addr : MemAddr)
    {data : List Byte} (havoids : data = [] ∨ Avoids BSIZE addr data.length) :
    memory.ReadsBack addr data := by
  intro memory' hwritten
  cases havoids with
  | inl hempty =>
    subst hempty
    exact memory'.read_empty addr
  | inr havoids =>
    cases havoids with
    | inl hbefore =>
      have hpos := memory.blockSize_pos
      have hmod := Nat.mod_le addr.toNat BSIZE.toNat
      obtain ⟨written, hwrite, hcontents⟩ :=
        memory.write_spec addr (show addr.toNat + data.length ≤ 2 ^ 32 by omega) (by omega)
      obtain rfl : written = memory' := Option.some.inj (hwrite.symm.trans hwritten)
      rw [written.read_spec addr hbefore, hcontents, Flat.read_write]
    | inr hrest =>
      rw [memory.write_rest_none addr hrest.1 hrest.2.1 hrest.2.2] at hwritten
      cases hwritten

/-- What has been written can be read back unless it reaches the last block. -/
theorem reads_back_iff {BSIZE : BitVec 32} (memory : MemorySpace BSIZE) (addr : MemAddr)
    {data : List Byte} (inside : addr.toNat + data.length ≤ 2 ^ 32) :
    memory.ReadsBack addr data ↔ data = [] ∨ Avoids BSIZE addr data.length := by
  constructor
  · intro hback
    by_contra hnot
    rw [not_or, Avoids, not_or] at hnot
    obtain ⟨hdata, hbeyond, hrest⟩ := hnot
    have hpos : 0 < data.length := List.length_pos_iff.mpr hdata
    have hmod := Nat.mod_le addr.toNat BSIZE.toNat
    by_cases hwhole : data.length = 2 ^ 32
    · -- nothing is written, and nothing is read
      have hspace := memory.whole_space addr (by omega) hwhole
      have hread := hback memory hspace.1
      rw [hspace.2] at hread
      exact hdata (Option.some.inj hread).symm
    · have hnarrow : addr.toNat % BSIZE.toNat + data.length < 2 ^ 32 := by
        by_contra hwide
        -- then the range starts in the first block and ends with the space
        have hsame : addr.toNat % BSIZE.toNat = addr.toNat := by omega
        have hlt := Nat.mod_lt addr.toNat memory.blockSize_pos
        exact hrest ⟨by omega, by omega, by omega⟩
      obtain ⟨memory', hwritten, _⟩ := memory.write_spec addr inside hnarrow
      have hread := hback memory' hwritten
      rw [memory'.read_beyond addr hpos (by omega) (by omega)] at hread
      cases hread
  · exact reads_back_of_avoids memory addr

/-- The first byte is in the first block, the others are in the next one. -/
theorem reads_back_iff_first_byte :
    ((MemorySpace.new 32).get (new_instantiated List.mem_cons_self)).ReadsBack 31 [7, 8, 9] :=
  (reads_back_iff _ 31 (by decide)).mpr (Or.inr (Or.inl (by decide)))

/-- The last byte of the space. -/
theorem last_byte_not_read_back :
    ¬ ∀ (BSIZE : BitVec 32) (memory : MemorySpace BSIZE) (addr : MemAddr) (data : List Byte),
      addr.toNat + data.length ≤ 2 ^ 32 → memory.ReadsBack addr data := by
  intro hall
  have hsome : (MemorySpace.new 32).isSome = true := new_instantiated List.mem_cons_self
  have hback := hall 32 ((MemorySpace.new 32).get hsome) 0xFFFFFFFF [7] (by decide)
  have hinside : (0xFFFFFFFF : MemAddr).toNat + ([7] : List Byte).length ≤ 2 ^ 32 := by decide
  obtain ⟨memory', hwritten, _⟩ :=
    ((MemorySpace.new 32).get hsome).write_spec 0xFFFFFFFF hinside (by decide)
  have hread : memory'.read 0xFFFFFFFF 1 = some [7] := hback memory' hwritten
  rw [memory'.read_beyond 0xFFFFFFFF Nat.one_pos (by decide) (by decide)] at hread
  cases hread

end AesOnGpu.Memory
