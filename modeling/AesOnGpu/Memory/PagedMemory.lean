import AesOnGpu.Lib.Flat
import AesOnGpu.Memory.MemorySpace

/-! # The simulated memory is a flat memory

`contents` forgets the blocks.  A write writes the contents at its address and a
read reads them there.  A write may reach the end of the address space; a read
may not touch the last block, because the end of this block is zero in 32 bits.
-/

namespace AesOnGpu.Memory

namespace MemorySpace

variable {BSIZE : BitVec 32}

/-! ## Blocks and offsets -/

section

variable (memory : MemorySpace BSIZE) (addr : MemAddr)

include memory

theorem blockSize_pos : 0 < BSIZE.toNat := by
  rw [memory.isPower]
  exact Nat.two_pow_pos _

theorem log2_lt : memory.m_log2_block_size < 32 := by
  have bound := BSIZE.isLt
  rw [memory.isPower] at bound
  exact (Nat.pow_lt_pow_iff_right (by decide)).mp bound

theorem blockSize_dvd : BSIZE.toNat ∣ 2 ^ 32 := by
  rw [memory.isPower]
  exact Nat.pow_dvd_pow 2 (Nat.le_of_lt memory.log2_lt)

theorem toNat_index : (addr >>> memory.m_log2_block_size).toNat = addr.toNat / BSIZE.toNat := by
  rw [BitVec.toNat_ushiftRight, Nat.shiftRight_eq_div_pow, memory.isPower]

theorem toNat_offset : (addr &&& (BSIZE - 1)).toNat = addr.toNat % BSIZE.toNat := by
  have mask : (BSIZE - 1).toNat = 2 ^ memory.m_log2_block_size - 1 := by
    have positive := memory.blockSize_pos
    have bound := BSIZE.isLt
    have one : (1 : BitVec 32).toNat = 1 := rfl
    rw [← memory.isPower, BitVec.toNat_sub, one]
    omega
  rw [BitVec.toNat_and, mask, Nat.and_two_pow_sub_one_eq_mod, memory.isPower]

theorem blockEnd_le : (addr.toNat / BSIZE.toNat + 1) * BSIZE.toNat ≤ 2 ^ 32 := by
  obtain ⟨blocks, total⟩ := memory.blockSize_dvd
  have inside : addr.toNat / BSIZE.toNat < blocks := by
    rw [Nat.div_lt_iff_lt_mul memory.blockSize_pos, Nat.mul_comm, ← total]
    exact addr.isLt
  calc (addr.toNat / BSIZE.toNat + 1) * BSIZE.toNat
      ≤ blocks * BSIZE.toNat := Nat.mul_le_mul_right _ inside
    _ = 2 ^ 32 := by rw [total, Nat.mul_comm]

theorem toNat_blockEnd : ((addr >>> memory.m_log2_block_size + 1) * BSIZE).toNat =
    (addr.toNat / BSIZE.toNat + 1) * BSIZE.toNat % 2 ^ 32 := by
  have one : (1 : BitVec 32).toNat = 1 := rfl
  rw [BitVec.toNat_mul, BitVec.toNat_add, memory.toNat_index, Nat.mod_mul_mod, one]

omit memory in
theorem blockEnd_eq (BSIZE : BitVec 32) (addr : MemAddr) : (addr.toNat / BSIZE.toNat + 1) * BSIZE.toNat =
    addr.toNat - addr.toNat % BSIZE.toNat + BSIZE.toNat := by
  have split := Nat.div_add_mod' addr.toNat BSIZE.toNat
  rw [Nat.add_mul, Nat.one_mul]
  omega

end

def contents (memory : MemorySpace BSIZE) : Flat Byte := fun a =>
  if a < 2 ^ 32 then
    memory.block (BitVec.ofNat 32 (a / BSIZE.toNat))
      ⟨a % BSIZE.toNat, Nat.mod_lt a memory.blockSize_pos⟩
  else 0

/-! ## Writes -/

theorem block_insert (memory : MemorySpace BSIZE) (page index : MemAddr)
    (storage : MemStorage BSIZE) :
    block { memory with m_data := memory.m_data.insert page storage } index =
      if index = page then storage else memory.block index := by
  rw [block, Std.TreeMap.getElem?_insert]
  by_cases same : page = index
  · rw [if_pos (Std.LawfulEqCmp.compare_eq_iff_eq.mpr same), if_pos same.symm]
    rfl
  · rw [if_neg (fun eq => same (Std.LawfulEqCmp.compare_eq_iff_eq.mp eq)), if_neg (Ne.symm same)]
    rfl

theorem writeBlock_spec (memory : MemorySpace BSIZE) (addr : MemAddr) {data : List Byte}
    (fits : addr.toNat % BSIZE.toNat + data.length ≤ BSIZE.toNat) :
    ∃ memory', memory.writeBlock (addr >>> memory.m_log2_block_size) (addr &&& (BSIZE - 1)) data =
        some memory' ∧
      memory'.contents = memory.contents.write addr.toNat data := by
  have offset := memory.toNat_offset addr
  have positive := memory.blockSize_pos
  refine ⟨_, by rw [writeBlock, MemStorage.write, offset, if_pos fits]; rfl, ?_⟩
  have split := Nat.div_add_mod' addr.toNat BSIZE.toNat
  have within := memory.blockEnd_le addr
  have ending := blockEnd_eq BSIZE addr
  funext a
  by_cases inside : a < 2 ^ 32
  · simp only [contents, if_pos inside, block_insert]
    have splitA := Nat.div_add_mod' a BSIZE.toNat
    have index : BitVec.ofNat 32 (a / BSIZE.toNat) = addr >>> memory.m_log2_block_size ↔
        a / BSIZE.toNat = addr.toNat / BSIZE.toNat := by
      have small : a / BSIZE.toNat < 2 ^ 32 := Nat.lt_of_le_of_lt (Nat.div_le_self _ _) inside
      rw [← BitVec.toNat_inj, memory.toNat_index, BitVec.toNat_ofNat, Nat.mod_eq_of_lt small]
    by_cases samePage : a / BSIZE.toNat = addr.toNat / BSIZE.toNat
    · rw [if_pos (index.mpr samePage), Flat.write]
      rw [samePage] at splitA
      have before : addr.toNat % BSIZE.toNat ≤ a % BSIZE.toNat ↔ addr.toNat ≤ a := by omega
      have distance : a % BSIZE.toNat - addr.toNat % BSIZE.toNat = a - addr.toNat := by omega
      simp only [before, distance, contents, if_pos inside, (index.mpr samePage)]
    · rw [if_neg fun same => samePage (index.mp same)]
      have elsewhere : a < addr.toNat ∨ addr.toNat + data.length ≤ a := by
        cases Nat.lt_or_gt_of_ne samePage with
        | inl before =>
          have below : (a / BSIZE.toNat + 1) * BSIZE.toNat ≤
              addr.toNat / BSIZE.toNat * BSIZE.toNat := Nat.mul_le_mul_right _ before
          rw [Nat.add_mul, Nat.one_mul] at below
          have rest := Nat.mod_lt a positive
          omega
        | inr after =>
          have above : (addr.toNat / BSIZE.toNat + 1) * BSIZE.toNat ≤
              a / BSIZE.toNat * BSIZE.toNat := Nat.mul_le_mul_right _ after
          omega
      cases elsewhere with
      | inl below => rw [Flat.write_below _ below, contents, if_pos inside]
      | inr above => rw [Flat.write_above _ above, contents, if_pos inside]
  · rw [Flat.write_above _ (by omega), contents, contents, if_neg inside, if_neg inside]

namespace Cursor

variable {cursor : Cursor}

/-- What one turn of a loop moves: up to the end of the block, or all that
    remains. -/
theorem tx_bytes_spec (memory : MemorySpace BSIZE) (positive : 0 < cursor.nbytes_remain.toNat)
    (narrow : cursor.current_addr.toNat % BSIZE.toNat + cursor.nbytes_remain.toNat < 2 ^ 32) :
    0 < (cursor.tx_bytes BSIZE).toNat ∧
      (cursor.tx_bytes BSIZE).toNat ≤ cursor.nbytes_remain.toNat ∧
      cursor.current_addr.toNat % BSIZE.toNat + (cursor.tx_bytes BSIZE).toNat ≤ BSIZE.toNat ∧
      ((cursor.tx_bytes BSIZE).toNat < cursor.nbytes_remain.toNat →
        cursor.current_addr.toNat % BSIZE.toNat + (cursor.tx_bytes BSIZE).toNat = BSIZE.toNat) := by
  have offset : (cursor.offset BSIZE).toNat = cursor.current_addr.toNat % BSIZE.toNat :=
    memory.toNat_offset cursor.current_addr
  have below := Nat.mod_lt cursor.current_addr.toNat memory.blockSize_pos
  have limit : (cursor.offset BSIZE + cursor.nbytes_remain).toNat =
      cursor.current_addr.toNat % BSIZE.toNat + cursor.nbytes_remain.toNat := by
    rw [BitVec.toNat_add, offset, Nat.mod_eq_of_lt narrow]
  have small := BSIZE.isLt
  have moved : (cursor.tx_bytes BSIZE).toNat =
      min (cursor.current_addr.toNat % BSIZE.toNat + cursor.nbytes_remain.toNat) BSIZE.toNat -
        cursor.current_addr.toNat % BSIZE.toNat := by
    rw [tx_bytes]
    split
    · rename_i crosses
      rw [gt_iff_lt, BitVec.lt_def, limit] at crosses
      rw [BitVec.toNat_sub, offset]
      omega
    · rename_i stays
      rw [gt_iff_lt, BitVec.lt_def, limit] at stays
      rw [BitVec.toNat_sub, offset, limit]
      omega
  rw [moved]
  omega

theorem advance_spec (memory : MemorySpace BSIZE)
    (inside : cursor.current_addr.toNat + cursor.nbytes_remain.toNat ≤ 2 ^ 32)
    (narrow : cursor.current_addr.toNat % BSIZE.toNat + cursor.nbytes_remain.toNat < 2 ^ 32)
    (rest : (cursor.tx_bytes BSIZE).toNat < cursor.nbytes_remain.toNat) :
    (cursor.advance (cursor.tx_bytes BSIZE)).current_addr.toNat =
        cursor.current_addr.toNat + (cursor.tx_bytes BSIZE).toNat ∧
      (cursor.advance (cursor.tx_bytes BSIZE)).nbytes_remain.toNat =
        cursor.nbytes_remain.toNat - (cursor.tx_bytes BSIZE).toNat ∧
      (cursor.advance (cursor.tx_bytes BSIZE)).current_addr.toNat % BSIZE.toNat = 0 := by
  obtain ⟨_, _, _, fills⟩ := tx_bytes_spec memory (Nat.zero_lt_of_lt rest) narrow
  have moved : (cursor.current_addr + cursor.tx_bytes BSIZE).toNat =
      cursor.current_addr.toNat + (cursor.tx_bytes BSIZE).toNat := by
    rw [BitVec.toNat_add, Nat.mod_eq_of_lt]
    omega
  refine ⟨moved, ?_, ?_⟩
  · rw [advance, BitVec.toNat_sub]
    omega
  · have whole : cursor.current_addr.toNat + (cursor.tx_bytes BSIZE).toNat =
        (cursor.current_addr.toNat / BSIZE.toNat + 1) * BSIZE.toNat := by
      have split := Nat.div_add_mod' cursor.current_addr.toNat BSIZE.toNat
      rw [Nat.add_mul, Nat.one_mul]
      have full := fills rest
      omega
    rw [advance, moved, whole, Nat.mul_mod_left]

end Cursor

theorem writeLoop_done (data : List Byte) (turns : Nat) {cursor : Cursor}
    (done : cursor.nbytes_remain = 0) (memory : MemorySpace BSIZE) :
    writeLoop data turns cursor memory = some memory := by
  cases turns with
  | zero => rw [writeLoop, if_pos done]
  | succ turns => rw [writeLoop, if_pos done]

theorem writeLoop_spec (data : List Byte) (turns : Nat) (cursor : Cursor)
    (memory : MemorySpace BSIZE) (short : data.length < 2 ^ 32)
    (enough : cursor.nbytes_remain.toNat ≤ turns)
    (remaining : cursor.data_offset.toNat + cursor.nbytes_remain.toNat = data.length)
    (inside : cursor.current_addr.toNat + cursor.nbytes_remain.toNat ≤ 2 ^ 32)
    (narrow : cursor.current_addr.toNat % BSIZE.toNat + cursor.nbytes_remain.toNat < 2 ^ 32) :
    ∃ memory', writeLoop data turns cursor memory = some memory' ∧
      memory'.contents =
        memory.contents.write cursor.current_addr.toNat (data.drop cursor.data_offset.toNat) := by
  induction turns generalizing cursor memory with
  | zero =>
    have done : cursor.nbytes_remain = 0 := by
      apply BitVec.eq_of_toNat_eq
      exact Nat.le_zero.mp enough
    have nothing : data.drop cursor.data_offset.toNat = [] := by
      apply List.drop_eq_nil_of_le
      omega
    exact ⟨memory, writeLoop_done data 0 done memory, by rw [nothing, Flat.write_nil]⟩
  | succ turns ih =>
    by_cases done : cursor.nbytes_remain = 0
    · have nothing : data.drop cursor.data_offset.toNat = [] := by
        apply List.drop_eq_nil_of_le
        rw [done] at remaining
        exact Nat.le_of_eq remaining.symm
      exact ⟨memory, writeLoop_done data _ done memory, by rw [nothing, Flat.write_nil]⟩
    · have positive : 0 < cursor.nbytes_remain.toNat := by
        apply Nat.pos_of_ne_zero
        exact fun zero => done (BitVec.eq_of_toNat_eq zero)
      obtain ⟨moves, atMost, fits, fills⟩ := Cursor.tx_bytes_spec memory positive narrow
      -- the part written by this turn
      have partLong : ((data.drop cursor.data_offset.toNat).take
          (cursor.tx_bytes BSIZE).toNat).length = (cursor.tx_bytes BSIZE).toNat := by
        rw [List.length_take, List.length_drop]
        omega
      have partFits : cursor.current_addr.toNat % BSIZE.toNat + ((data.drop
          cursor.data_offset.toNat).take (cursor.tx_bytes BSIZE).toNat).length ≤ BSIZE.toNat := by
        rw [partLong]
        exact fits
      obtain ⟨next, written, contents⟩ := memory.writeBlock_spec cursor.current_addr partFits
      rw [writeLoop, if_neg done]
      simp only [Cursor.offset, written, Option.bind_eq_bind, Option.bind_some]
      by_cases rest : (cursor.tx_bytes BSIZE).toNat < cursor.nbytes_remain.toNat
      · obtain ⟨moved, left, atStart⟩ := Cursor.advance_spec memory inside narrow rest
        have dataMoved : (cursor.advance (cursor.tx_bytes BSIZE)).data_offset.toNat =
            cursor.data_offset.toNat + (cursor.tx_bytes BSIZE).toNat := by
          rw [Cursor.advance, BitVec.toNat_add, Nat.mod_eq_of_lt]
          omega
        obtain ⟨memory', loops, contents'⟩ := ih
          (cursor.advance (cursor.tx_bytes BSIZE)) next (by omega) (by omega) (by omega) (by omega)
        refine ⟨memory', loops, ?_⟩
        have parts : data.drop cursor.data_offset.toNat =
            (data.drop cursor.data_offset.toNat).take (cursor.tx_bytes BSIZE).toNat ++
              data.drop (cursor.data_offset.toNat + (cursor.tx_bytes BSIZE).toNat) := by
          rw [← List.drop_drop, List.take_append_drop]
        rw [contents', contents, moved, dataMoved, parts, Flat.write_append, partLong, ← parts]
      · -- the last turn
        have finished : (cursor.advance (cursor.tx_bytes BSIZE)).nbytes_remain = 0 := by
          have all : cursor.tx_bytes BSIZE = cursor.nbytes_remain :=
            BitVec.eq_of_toNat_eq (Nat.le_antisymm atMost (Nat.not_lt.mp rest))
          rw [Cursor.advance, all, BitVec.sub_self]
          rfl
        refine ⟨next, writeLoop_done data turns finished next, ?_⟩
        rw [contents, List.take_of_length_le]
        rw [List.length_drop]
        omega

theorem write_spec (memory : MemorySpace BSIZE) (addr : MemAddr) {data : List Byte}
    (inside : addr.toNat + data.length ≤ 2 ^ 32)
    (narrow : addr.toNat % BSIZE.toNat + data.length < 2 ^ 32) :
    ∃ memory', memory.write addr data = some memory' ∧
      memory'.contents = memory.contents.write addr.toNat data := by
  have blockEnd := memory.toNat_blockEnd addr
  have ending := blockEnd_eq BSIZE addr
  have split := Nat.mod_le addr.toNat BSIZE.toNat
  rw [write]
  by_cases fast : addr.toNat + data.length ≤
      ((addr >>> memory.m_log2_block_size + 1) * BSIZE).toNat
  · rw [if_pos fast]
    apply memory.writeBlock_spec
    have wrapped := Nat.mod_le ((addr.toNat / BSIZE.toNat + 1) * BSIZE.toNat) (2 ^ 32)
    omega
  · rw [if_neg fast]
    have short : data.length < 2 ^ 32 := by omega
    have all : (BitVec.ofNat 32 data.length).toNat = data.length := by
      rw [BitVec.toNat_ofNat, Nat.mod_eq_of_lt short]
    have loop := writeLoop_spec data data.length ⟨addr, 0, BitVec.ofNat 32 data.length⟩ memory short
    simp only [all] at loop
    exact loop (Nat.le_refl _) (Nat.zero_add _) inside narrow

/-! ## Reads -/

theorem readSingleBlock_spec (memory : MemorySpace BSIZE) (addr : MemAddr) {length : Nat}
    (fits : addr.toNat + length ≤ ((addr >>> memory.m_log2_block_size + 1) * BSIZE).toNat) :
    memory.readSingleBlock (addr >>> memory.m_log2_block_size) addr length =
      some (memory.contents.read addr.toNat length) := by
  have offset := memory.toNat_offset addr
  have index := memory.toNat_index addr
  have positive := memory.blockSize_pos
  have within := memory.blockEnd_le addr
  have ending := blockEnd_eq BSIZE addr
  have split := Nat.div_add_mod' addr.toNat BSIZE.toNat
  have inBlock : addr.toNat % BSIZE.toNat + length ≤ BSIZE.toNat := by
    have wrapped := Nat.mod_le ((addr.toNat / BSIZE.toNat + 1) * BSIZE.toNat) (2 ^ 32)
    rw [memory.toNat_blockEnd] at fits
    have below := Nat.mod_le addr.toNat BSIZE.toNat
    omega
  -- each byte of the block is a byte of the contents
  have each (i : Nat) (inside : i < length) : memory.contents (addr.toNat + i) =
      memory.block (addr >>> memory.m_log2_block_size)
        ⟨addr.toNat % BSIZE.toNat + i, by omega⟩ := by
    have small : addr.toNat + i < 2 ^ 32 := by
      have below := Nat.mod_le addr.toNat BSIZE.toNat
      omega
    have page : (addr.toNat + i) / BSIZE.toNat = addr.toNat / BSIZE.toNat := by
      apply Nat.div_eq_of_lt_le
      · omega
      · rw [ending]
        have below := Nat.mod_le addr.toNat BSIZE.toNat
        omega
    have rest : (addr.toNat + i) % BSIZE.toNat = addr.toNat % BSIZE.toNat + i := by
      have splitI := Nat.div_add_mod' (addr.toNat + i) BSIZE.toNat
      rw [page] at splitI
      omega
    have same : BitVec.ofNat 32 ((addr.toNat + i) / BSIZE.toNat) =
        addr >>> memory.m_log2_block_size := by
      rw [← BitVec.toNat_inj, page, index, BitVec.toNat_ofNat, Nat.mod_eq_of_lt]
      exact Nat.lt_of_le_of_lt (Nat.div_le_self _ _) addr.isLt
    simp only [contents, if_pos small, same, rest]
  rw [readSingleBlock, if_neg (Nat.not_lt.mpr fits)]
  cases found : memory.m_data[addr >>> memory.m_log2_block_size]? with
  | none =>
    refine congrArg some (List.ext_getElem ?_ fun i inside _ => ?_)
    · rw [List.length_replicate, Flat.length_read]
    · rw [List.length_replicate] at inside
      rw [List.getElem_replicate, Flat.getElem_read, each i inside, block, found]
      rfl
  | some storage =>
    simp only [MemStorage.read, offset, dif_pos inBlock]
    refine congrArg some (List.ext_getElem ?_ fun i inside _ => ?_)
    · rw [List.length_ofFn, Flat.length_read]
    · rw [List.length_ofFn] at inside
      rw [List.getElem_ofFn, Flat.getElem_read, each i inside, block, found]
      rfl

theorem readLoop_spec (memory : MemorySpace BSIZE) (turns : Nat) (cursor : Cursor)
    (enough : cursor.nbytes_remain.toNat ≤ turns)
    (inside : cursor.current_addr.toNat + cursor.nbytes_remain.toNat ≤ 2 ^ 32 - BSIZE.toNat) :
    memory.readLoop turns cursor =
      some (memory.contents.read cursor.current_addr.toNat cursor.nbytes_remain.toNat) := by
  induction turns generalizing cursor with
  | zero =>
    have none : cursor.nbytes_remain.toNat = 0 := Nat.le_zero.mp enough
    rw [readLoop, if_pos (BitVec.eq_of_toNat_eq none), none, Flat.read_zero]
  | succ turns ih =>
    rw [readLoop]
    by_cases done : cursor.nbytes_remain = 0
    · rw [if_pos done, done]
      rfl
    · have positive : 0 < cursor.nbytes_remain.toNat := by
        apply Nat.pos_of_ne_zero
        exact fun zero => done (BitVec.eq_of_toNat_eq zero)
      have blockPositive := memory.blockSize_pos
      have inSpace : cursor.current_addr.toNat + cursor.nbytes_remain.toNat ≤ 2 ^ 32 := by omega
      have narrow : cursor.current_addr.toNat % BSIZE.toNat + cursor.nbytes_remain.toNat < 2 ^ 32 := by
        have below := Nat.mod_le cursor.current_addr.toNat BSIZE.toNat
        omega
      obtain ⟨moves, atMost, fits, _⟩ := Cursor.tx_bytes_spec memory positive narrow
      -- the block is not the last one, so that its end is not zero
      have blockEnd : ((cursor.current_addr >>> memory.m_log2_block_size + 1) * BSIZE).toNat =
          (cursor.current_addr.toNat / BSIZE.toNat + 1) * BSIZE.toNat := by
        rw [memory.toNat_blockEnd, Nat.mod_eq_of_lt]
        have ending := blockEnd_eq BSIZE cursor.current_addr
        have below := Nat.mod_le cursor.current_addr.toNat BSIZE.toNat
        omega
      have inBlock : cursor.current_addr.toNat + (cursor.tx_bytes BSIZE).toNat ≤
          ((cursor.current_addr >>> memory.m_log2_block_size + 1) * BSIZE).toNat := by
        rw [blockEnd, blockEnd_eq]
        have below := Nat.mod_le cursor.current_addr.toNat BSIZE.toNat
        omega
      rw [if_neg done]
      simp only [memory.readSingleBlock_spec cursor.current_addr inBlock, Option.bind_eq_bind, Option.bind_some]
      have advanced : (cursor.advance (cursor.tx_bytes BSIZE)).current_addr.toNat =
            cursor.current_addr.toNat + (cursor.tx_bytes BSIZE).toNat := by
        rw [Cursor.advance, BitVec.toNat_add, Nat.mod_eq_of_lt]
        omega
      have left : (cursor.advance (cursor.tx_bytes BSIZE)).nbytes_remain.toNat =
          cursor.nbytes_remain.toNat - (cursor.tx_bytes BSIZE).toNat := by
        rw [Cursor.advance, BitVec.toNat_sub]
        omega
      rw [ih (cursor.advance (cursor.tx_bytes BSIZE)) (by omega) (by omega),
        advanced, left]
      simp only [Option.bind_some, Option.pure_def, ← Flat.read_add]
      rw [Nat.add_sub_cancel' atMost]

theorem read_spec (memory : MemorySpace BSIZE) (addr : MemAddr) {length : Nat}
    (inside : addr.toNat + length ≤ 2 ^ 32 - BSIZE.toNat) :
    memory.read addr length = some (memory.contents.read addr.toNat length) := by
  rw [read]
  by_cases fast : addr.toNat + length ≤ ((addr >>> memory.m_log2_block_size + 1) * BSIZE).toNat
  · rw [if_pos fast]
    exact memory.readSingleBlock_spec addr fast
  · rw [if_neg fast]
    have blockPositive := memory.blockSize_pos
    have all : (BitVec.ofNat 32 length).toNat = length := by
      rw [BitVec.toNat_ofNat, Nat.mod_eq_of_lt]
      omega
    have loop := memory.readLoop_spec length ⟨addr, 0, BitVec.ofNat 32 length⟩
    simp only [all] at loop
    exact loop (Nat.le_refl _) inside

theorem read_empty (memory : MemorySpace BSIZE) (addr : MemAddr) :
    memory.read addr 0 = some [] := by
  rw [read]
  by_cases fast : addr.toNat + 0 ≤ ((addr >>> memory.m_log2_block_size + 1) * BSIZE).toNat
  · rw [if_pos fast]
    exact memory.readSingleBlock_spec addr fast
  · rw [if_neg fast]
    rfl

/-! ## The last block -/

theorem readSingleBlock_bound (memory : MemorySpace BSIZE) {addr : MemAddr} {length : Nat}
    (positive : 0 < length)
    (readable : (memory.readSingleBlock (addr >>> memory.m_log2_block_size) addr length).isSome) :
    addr.toNat + length ≤ 2 ^ 32 - BSIZE.toNat := by
  have within := memory.blockEnd_le addr
  have fits : addr.toNat + length ≤ ((addr >>> memory.m_log2_block_size + 1) * BSIZE).toNat := by
    by_contra beyond
    rw [readSingleBlock, if_pos (Nat.lt_of_not_le beyond)] at readable
    exact absurd readable (by simp)
  rw [memory.toNat_blockEnd] at fits
  cases Nat.lt_or_ge ((addr.toNat / BSIZE.toNat + 1) * BSIZE.toNat) (2 ^ 32) with
  | inl before =>
    rw [Nat.mod_eq_of_lt before] at fits
    -- a later block ends in the address space as well
    obtain ⟨blocks, total⟩ := memory.blockSize_dvd
    have more : addr.toNat / BSIZE.toNat + 1 + 1 ≤ blocks := by
      rw [total, Nat.mul_comm] at before
      exact Nat.lt_of_mul_lt_mul_left before
    have next : (addr.toNat / BSIZE.toNat + 1 + 1) * BSIZE.toNat ≤ 2 ^ 32 := by
      rw [total, Nat.mul_comm BSIZE.toNat]
      exact Nat.mul_le_mul_right _ more
    rw [Nat.succ_mul] at next
    omega
  | inr last =>
    have zero : (addr.toNat / BSIZE.toNat + 1) * BSIZE.toNat % 2 ^ 32 = 0 := by
      rw [Nat.le_antisymm within last, Nat.mod_self]
    omega

theorem readLoop_beyond (memory : MemorySpace BSIZE) (turns : Nat) (cursor : Cursor)
    (remaining : 0 < cursor.nbytes_remain.toNat)
    (beyond : 2 ^ 32 - BSIZE.toNat < cursor.current_addr.toNat + cursor.nbytes_remain.toNat) :
    memory.readLoop turns cursor = none := by
  induction turns generalizing cursor with
  | zero =>
    have unfinished : cursor.nbytes_remain ≠ 0 := fun zero => by simp [zero] at remaining
    rw [readLoop, if_neg unfinished]
  | succ turns ih =>
    have unfinished : cursor.nbytes_remain ≠ 0 := fun zero => by simp [zero] at remaining
    rw [readLoop, if_neg unfinished]
    cases part : memory.readSingleBlock (cursor.current_addr >>> memory.m_log2_block_size)
        cursor.current_addr (cursor.tx_bytes BSIZE).toNat with
    | none => simp only [part, Option.bind_eq_bind, Option.bind_none]
    | some bytes =>
      -- the part ends below the last block, so that something remains
      have bound : (cursor.tx_bytes BSIZE).toNat = 0 ∨ cursor.current_addr.toNat +
          (cursor.tx_bytes BSIZE).toNat ≤ 2 ^ 32 - BSIZE.toNat := by
        cases Nat.eq_zero_or_pos (cursor.tx_bytes BSIZE).toNat with
        | inl none => exact Or.inl none
        | inr positive =>
          exact Or.inr (memory.readSingleBlock_bound positive (by rw [part]; rfl))
      have addrBound := cursor.current_addr.isLt
      have blockPositive := memory.blockSize_pos
      have advanced : (cursor.advance (cursor.tx_bytes BSIZE)).current_addr.toNat =
          cursor.current_addr.toNat + (cursor.tx_bytes BSIZE).toNat := by
        rw [Cursor.advance, BitVec.toNat_add, Nat.mod_eq_of_lt]
        omega
      have left : (cursor.advance (cursor.tx_bytes BSIZE)).nbytes_remain.toNat =
          cursor.nbytes_remain.toNat - (cursor.tx_bytes BSIZE).toNat := by
        rw [Cursor.advance, BitVec.toNat_sub]
        omega
      have rest := ih (cursor.advance (cursor.tx_bytes BSIZE)) (by omega) (by omega)
      simp only [part, rest, Option.bind_eq_bind, Option.bind_none, Option.bind_some]

theorem read_beyond (memory : MemorySpace BSIZE) (addr : MemAddr) {length : Nat}
    (positive : 0 < length) (short : length < 2 ^ 32)
    (beyond : 2 ^ 32 - BSIZE.toNat < addr.toNat + length) : memory.read addr length = none := by
  rw [read]
  split
  · cases part : memory.readSingleBlock (addr >>> memory.m_log2_block_size) addr length with
    | none => rfl
    | some bytes =>
      have bound : addr.toNat + length ≤ 2 ^ 32 - BSIZE.toNat :=
        memory.readSingleBlock_bound positive (by rw [part]; rfl)
      omega
  · have all : (BitVec.ofNat 32 length).toNat = length := by
      rw [BitVec.toNat_ofNat, Nat.mod_eq_of_lt short]
    exact memory.readLoop_beyond length ⟨addr, 0, BitVec.ofNat 32 length⟩ (by rwa [all])
      (by rwa [all])

end MemorySpace

/-! ## Histories -/

inductive MemAccess where
  | write (addr : MemAddr) (data : List Byte)
  | read (addr : MemAddr) (length : Nat)

/-- The access ends before the last block. -/
def MemAccess.InRange (BSIZE : BitVec 32) : MemAccess → Prop
  | .write addr data => addr.toNat + data.length ≤ 2 ^ 32 - BSIZE.toNat
  | .read addr length => addr.toNat + length ≤ 2 ^ 32 - BSIZE.toNat

def MemorySpace.perform {BSIZE : BitVec 32} (memory : MemorySpace BSIZE) :
    MemAccess → Option (MemorySpace BSIZE × List Byte)
  | .write addr data => (memory.write addr data).map (·, [])
  | .read addr length => (memory.read addr length).map (memory, ·)

/-- The same on a flat array of bytes. -/
def flatPerform (flat : Flat Byte) : MemAccess → Flat Byte × List Byte
  | .write addr data => (flat.write addr.toNat data, [])
  | .read addr length => (flat, flat.read addr.toNat length)

def MemorySpace.history {BSIZE : BitVec 32} (memory : MemorySpace BSIZE) :
    List MemAccess → Option (MemorySpace BSIZE × List (List Byte))
  | [] => some (memory, [])
  | access :: accesses => do
    let (next, returned) ← memory.perform access
    let (last, others) ← history next accesses
    return (last, returned :: others)

def flatHistory (flat : Flat Byte) : List MemAccess → Flat Byte × List (List Byte)
  | [] => (flat, [])
  | access :: accesses =>
    let (next, returned) := flatPerform flat access
    let (last, others) := flatHistory next accesses
    (last, returned :: others)

theorem MemorySpace.perform_flat {BSIZE : BitVec 32} (memory : MemorySpace BSIZE)
    {access : MemAccess} (inRange : access.InRange BSIZE) :
    ∃ memory', memory.perform access =
        some (memory', (flatPerform memory.contents access).2) ∧
      memory'.contents = (flatPerform memory.contents access).1 := by
  have positive := memory.blockSize_pos
  cases access with
  | write addr data =>
    have inside : addr.toNat + data.length ≤ 2 ^ 32 - BSIZE.toNat := inRange
    have below := Nat.mod_le addr.toNat BSIZE.toNat
    have narrow : addr.toNat % BSIZE.toNat + data.length < 2 ^ 32 := by omega
    obtain ⟨memory', written, contents⟩ := memory.write_spec addr (by omega) narrow
    exact ⟨memory', by rw [perform, written]; rfl, contents⟩
  | read addr length =>
    exact ⟨memory, by rw [perform, memory.read_spec addr inRange]; rfl, rfl⟩

theorem MemorySpace.history_flat {BSIZE : BitVec 32} (memory : MemorySpace BSIZE)
    {accesses : List MemAccess} (inRange : ∀ access ∈ accesses, access.InRange BSIZE) :
    ∃ memory', memory.history accesses =
        some (memory', (flatHistory memory.contents accesses).2) ∧
      memory'.contents = (flatHistory memory.contents accesses).1 := by
  induction accesses generalizing memory with
  | nil => exact ⟨memory, rfl, rfl⟩
  | cons access accesses ih =>
    obtain ⟨next, performed, contents⟩ := memory.perform_flat (inRange access List.mem_cons_self)
    obtain ⟨last, others, contents'⟩ := ih next fun other member =>
      inRange other (List.mem_cons_of_mem access member)
    rw [contents] at others contents'
    refine ⟨last, ?_, contents'⟩
    rw [history, performed, Option.bind_eq_bind, Option.bind_some]
    simp only [others]
    rfl

theorem MemorySpace.contents_new {BSIZE : BitVec 32} {memory : MemorySpace BSIZE}
    (created : MemorySpace.new BSIZE = some memory) : memory.contents = fun _ => 0 := by
  rw [MemorySpace.new] at created
  split at created
  · obtain rfl := Option.some.inj created
    funext a
    simp [contents, block, MemStorage.calloc]
  · exact absurd created (by simp)

/-- A new memory answers each sequence of accesses as a flat array of zeros does. -/
theorem memory_refines_flat {BSIZE : BitVec 32} {memory : MemorySpace BSIZE}
    (created : MemorySpace.new BSIZE = some memory) {accesses : List MemAccess}
    (inRange : ∀ access ∈ accesses, access.InRange BSIZE) :
    ∃ memory', memory.history accesses = some (memory', (flatHistory (fun _ => 0) accesses).2) ∧
      memory'.contents = (flatHistory (fun _ => 0) accesses).1 := by
  rw [← MemorySpace.contents_new created]
  exact memory.history_flat inRange

theorem new_instantiated {BSIZE : BitVec 32} (instantiated : BSIZE ∈ [32, 64, 8192, 16 * 1024]) :
    (MemorySpace.new BSIZE).isSome = true := by
  simp only [List.mem_cons, List.not_mem_nil, or_false] at instantiated
  rcases instantiated with rfl | rfl | rfl | rfl
  · exact MemorySpace.new_isSome (k := 5) rfl
  · exact MemorySpace.new_isSome (k := 6) rfl
  · exact MemorySpace.new_isSome (k := 13) rfl
  · exact MemorySpace.new_isSome (k := 14) rfl

/-- A write over three blocks of 32 bytes, and a read over two. -/
theorem memory_refines_flat_three_blocks :
    let memory := (MemorySpace.new 32).get (new_instantiated List.mem_cons_self)
    let accesses := [.write 30 (List.replicate 40 7), .read 60 20]
    ∃ memory', memory.history accesses = some (memory', (flatHistory (fun _ => 0) accesses).2) ∧
      memory'.contents = (flatHistory (fun _ => 0) accesses).1 :=
  memory_refines_flat (Option.some_get _).symm (by simp [MemAccess.InRange])

end AesOnGpu.Memory
