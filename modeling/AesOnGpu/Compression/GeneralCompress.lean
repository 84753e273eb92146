import AesOnGpu.Compression.Cascade
import AesOnGpu.Compression.CPackHistory
import AesOnGpu.Compression.Fpc

/-! # The compressor that a request is handed to

`GeneralCompress` of `compression.cpp`. `CPack` gets its directory from `new`: here the entries
that have not been written during the call hold whatever the heap held, and what is undefined
is only an entry outside the array.
-/

namespace AesOnGpu.Compression

/-- The array of `length` entries as `new` returns it. -/
def freshDirectory (heap : Nat → DirectoryEntry) (length : Nat) : Directory :=
  (List.range length).map fun i => some (heap i)

/-- `CPack` with the entries that its array starts with. -/
def cPackFrom (directory : Directory) (numEntries : Nat) (buffer : List (BitVec 8)) :
    CPackCall where
  size := do
    let directory ← initializeDic directory numEntries
    let (compSize, zeroBlock) ← calculateCompressedSizeCPack directory (cPackWords buffer)
    return if zeroBlock then 1 else (compSize + 7) / 8
  numEntries := buffer.length / 4

/-- `CPack` on what the heap holds. -/
def cPackOn (heap : Nat → DirectoryEntry) (numEntries : Nat) (buffer : List (BitVec 8)) :
    CPackCall :=
  cPackFrom (freshDirectory heap (buffer.length / 4 * 8)) numEntries buffer

/-- `none` is `exit` or an undefined access. Only `CPack` writes `numEntries`. What `abs` gives
for the most negative value is `absMin`. -/
def GeneralCompress (absMin : BitVec 32) (heap : Nat → DirectoryEntry) (numEntries : Nat)
    (buffer : List (BitVec 8)) (compress : Nat) : CPackCall :=
  match compress with
  | 0 => ⟨some buffer.length, numEntries⟩
  | 1 => ⟨BDICompress buffer, numEntries⟩
  | 2 => ⟨some (FPCCompress absMin buffer (buffer.length / 4)), numEntries⟩
  | 3 =>
    let size := do
      let BDISize ← BDICompress buffer
      let FPCSize := FPCCompress absMin buffer (buffer.length / 4)
      return if BDISize ≤ FPCSize then BDISize else FPCSize
    ⟨size, numEntries⟩
  | 4 => cPackOn heap numEntries buffer
  | 5 =>
    let call := cPackOn heap numEntries buffer
    let size := do
      let BDISize ← BDICompress buffer
      let FPCSize := FPCCompress absMin buffer (buffer.length / 4)
      let CPackSize ← call.size
      if BDISize ≤ FPCSize ∧ BDISize ≤ CPackSize then return BDISize
      if FPCSize ≤ BDISize ∧ FPCSize ≤ CPackSize then return FPCSize
      if CPackSize ≤ BDISize ∧ CPackSize ≤ FPCSize then return CPackSize
      -- there is no `break` before the next case
      BDICompressSingle buffer
    ⟨size, call.numEntries⟩
  | 6 => ⟨BDICompressSingle buffer, numEntries⟩
  | 7 => ⟨BDICompress4BOnly buffer, numEntries⟩
  | 8 => ⟨BDICompress8BOnly buffer, numEntries⟩
  | _ => ⟨none, numEntries⟩

/-! ## The directory is searched within its bounds -/

/-- Every entry that is searched is there and has a value. -/
def Readable (directory : Directory) (numEntries : Nat) : Prop :=
  ∃ entries : List DirectoryEntry, directory = entries.map some ∧ numEntries ≤ entries.length

variable {directory : Directory} {numEntries : Nat}

theorem readable_fresh (heap : Nat → DirectoryEntry) {length : Nat} (hle : numEntries ≤ length) :
    Readable (freshDirectory heap length) numEntries :=
  ⟨(List.range length).map heap, by simp [freshDirectory], by simpa using hle⟩

theorem Readable.initializeDic {cleared : Nat} (hreadable : Readable directory numEntries)
    (hcleared : cleared ≤ directory.length) :
    ∃ directory', initializeDic directory cleared = some directory' ∧
      Readable directory' numEntries := by
  obtain ⟨entries, rfl, hle⟩ := hreadable
  rw [List.length_map] at hcleared
  refine ⟨_, ?_, List.replicate cleared .cleared ++ entries.drop cleared, rfl, ?_⟩
  · simp [Compression.initializeDic, Nat.not_lt.mpr hcleared]
  · simp only [List.length_append, List.length_replicate, List.length_drop]
    omega

theorem Readable.matchDic (hreadable : Readable directory numEntries)
    (test : BitVec 32 → Bool) : (matchDic test directory numEntries).isSome := by
  obtain ⟨entries, rfl, hle⟩ := hreadable
  induction entries generalizing numEntries with
  | nil =>
      obtain rfl : numEntries = 0 := by simpa using hle
      rfl
  | cons entry entries ih =>
      cases numEntries with
      | zero => rfl
      | succ numEntries =>
          simp only [List.map_cons, Compression.matchDic]
          split
          · rfl
          · exact ih (Nat.le_of_succ_le_succ hle)

theorem Readable.insertDic (hreadable : Readable directory numEntries) (w : BitVec 32) :
    ∃ directory', insertDic directory numEntries w = some directory' ∧
      Readable directory' numEntries := by
  obtain ⟨entries, rfl, hle⟩ := hreadable
  have hread : readEntries (entries.map some) numEntries = some (entries.take numEntries) := by
    rw [readEntries, if_neg (by simpa using hle), ← List.map_take, mapM_id_map_some]
  simp only [Compression.insertDic, hread, Option.bind_eq_bind, Option.bind_some]
  generalize (entries.take numEntries).countP (·.m_valid) = count
  split
  next i _ =>
    refine ⟨_, rfl, entries.set i ⟨true, w, count⟩, List.map_set.symm, ?_⟩
    rwa [List.length_set]
  next =>
    refine ⟨_, rfl,
      (entries.take numEntries).map (replaceOldest w count) ++ entries.drop numEntries, ?_, ?_⟩
    · simp [Function.comp_def]
    · simp only [List.length_append, List.length_map, List.length_take, List.length_drop]
      omega

theorem Readable.encodeWord (hreadable : Readable directory numEntries) (word : BitVec 64) :
    ∃ bits directory', encodeWord numEntries directory word = some (bits, directory') ∧
      Readable directory' numEntries := by
  obtain ⟨mmmm, hmmmm⟩ := Option.isSome_iff_exists.mp
    (hreadable.matchDic fun entry => entry == word.setWidth 32)
  obtain ⟨mmmx, hmmmx⟩ := Option.isSome_iff_exists.mp (hreadable.matchDic
    fun entry => entry &&& 0xFFFFFF00#32 == word.setWidth 32 &&& 0xFFFFFF00#32)
  obtain ⟨mmxx, hmmxx⟩ := Option.isSome_iff_exists.mp (hreadable.matchDic
    fun entry => entry &&& 0xFFFF0000#32 == word.setWidth 32 &&& 0xFFFF0000#32)
  obtain ⟨inserted, hinsert, hreadable'⟩ := hreadable.insertDic (word.setWidth 32)
  simp only [Compression.encodeWord, matchDicMmmm, matchDicMmmx, matchDicMmxx, hmmmm, hmmmx,
    hmmxx, hinsert, Option.bind_eq_bind, Option.bind_some, Option.pure_def]
  split_ifs
  · exact ⟨_, _, rfl, hreadable⟩
  · exact ⟨_, _, rfl, hreadable⟩
  · exact ⟨_, _, rfl, hreadable⟩
  · exact ⟨_, _, rfl, hreadable⟩
  · exact ⟨_, _, rfl, hreadable⟩
  · exact ⟨_, _, rfl, hreadable'⟩

theorem Readable.encodeWords (words : List (BitVec 64)) :
    ∀ {directory : Directory}, Readable directory numEntries → ∀ bits,
      (encodeWords numEntries (bits, directory) words).isSome := by
  induction words with
  | nil => exact fun _ _ => rfl
  | cons word words ih =>
      intro directory hreadable bits
      obtain ⟨more, directory', hstep, hreadable'⟩ := hreadable.encodeWord word
      have hrest := ih hreadable' (bits + more)
      simpa [Compression.encodeWords, List.foldlM_cons, hstep] using hrest

/-! ## Every algorithm stays within the buffer -/

theorem calculateCompressedSizeCPack_le {directory : Directory} {words : List (BitVec 64)}
    (hreadable : Readable directory words.length) :
    ∃ compSize zeroBlock, calculateCompressedSizeCPack directory words =
      some (compSize, zeroBlock) ∧ compSize ≤ words.length * 4 * 8 := by
  obtain ⟨⟨lineBits, last⟩, hloop⟩ := Option.isSome_iff_exists.mp (hreadable.encodeWords words 0)
  simp only [calculateCompressedSizeCPack, hloop, Option.bind_eq_bind, Option.bind_some,
    Option.pure_def]
  split
  · exact ⟨0, true, rfl, Nat.zero_le _⟩
  · refine ⟨_, false, rfl, ?_⟩
    split <;> omega

/-- The count that an earlier line has left does not reach beyond the array. -/
def Allocated (numEntries : Nat) (buffer : List (BitVec 8)) : Prop :=
  numEntries ≤ buffer.length / 4 * 8

instance (numEntries : Nat) (buffer : List (BitVec 8)) : Decidable (Allocated numEntries buffer) :=
  inferInstanceAs (Decidable (_ ≤ _))

theorem cPackOn_le (heap : Nat → DirectoryEntry) {numEntries : Nat} (block : LineBlock)
    (hallocated : Allocated numEntries block.bytes) :
    ∃ r, (cPackOn heap numEntries block.bytes).size = some r ∧ r ≤ block.bytes.length := by
  have height := block.eight_le
  have hwords := cPackWords_length block.bytes
  have hfresh : Readable (freshDirectory heap (block.bytes.length / 4 * 8))
      (cPackWords block.bytes).length := readable_fresh heap (by omega)
  have hcleared : numEntries ≤ (freshDirectory heap (block.bytes.length / 4 * 8)).length := by
    simpa [freshDirectory, Allocated] using hallocated
  obtain ⟨directory, hinit, hreadable⟩ := hfresh.initializeDic hcleared
  obtain ⟨compSize, zeroBlock, hsize, hle⟩ := calculateCompressedSizeCPack_le hreadable
  refine ⟨if zeroBlock then 1 else (compSize + 7) / 8, ?_, ?_⟩
  · simp [cPackOn, cPackFrom, hinit, hsize]
  · cases zeroBlock with
    | true =>
        rw [if_pos rfl]
        omega
    | false =>
        rw [if_neg Bool.false_ne_true]
        omega

theorem cPackOn_none (heap : Nat → DirectoryEntry) {numEntries : Nat} {buffer : List (BitVec 8)}
    (hbeyond : ¬ Allocated numEntries buffer) : (cPackOn heap numEntries buffer).size = none := by
  have hshort : (freshDirectory heap (buffer.length / 4 * 8)).length < numEntries := by
    simpa [freshDirectory, Allocated] using hbeyond
  simp [cPackOn, cPackFrom, Compression.initializeDic, hshort]

theorem FPCCompress_le (absMin : BitVec 32) (buffer : List (BitVec 8)) :
    FPCCompress absMin buffer (buffer.length / 4) ≤ buffer.length := by
  simp only [FPCCompress]
  split <;> omega

theorem bdiCompressWith_le {compression : List (BitVec 64) → Nat → Nat → Option Nat}
    (block : LineBlock) (htotal : Total compression) {narrower : List (Nat × List Nat)}
    (hpasses : Passes narrower) :
    ∃ r, bdiCompressWith compression narrower block.bytes = some r ∧ r ≤ block.bytes.length := by
  obtain ⟨r, hr, _, hleast⟩ := bdiCompressWith_least block htotal hpasses
  exact ⟨r, hr, hleast _ List.mem_cons_self⟩

theorem total_singleBase : Total singleBaseCompression :=
  fun hpos _ hblimit => singleBase_isSome hpos hblimit

theorem BDICompress_le (block : LineBlock) :
    ∃ r, BDICompress block.bytes = some r ∧ r ≤ block.bytes.length :=
  bdiCompressWith_le block total_multBase passes_bdi

/-- Only these two look at a directory. -/
def UsesCPack (compress : Nat) : Prop := compress = 4 ∨ compress = 5

/-- The call returns a size within the buffer, and the combined algorithms the least of the
sizes that they combine. -/
def Bounded (absMin : BitVec 32) (heap : Nat → DirectoryEntry) (numEntries : Nat)
    (buffer : List (BitVec 8)) (compress : Nat) : Prop :=
  ∃ r, (GeneralCompress absMin heap numEntries buffer compress).size = some r ∧ r ≤ buffer.length ∧
    (compress = 3 → ∃ BDISize, BDICompress buffer = some BDISize ∧
      r = min BDISize (FPCCompress absMin buffer (buffer.length / 4))) ∧
    (compress = 5 → ∃ BDISize CPackSize, BDICompress buffer = some BDISize ∧
      (cPackOn heap numEntries buffer).size = some CPackSize ∧
        r = min BDISize (min (FPCCompress absMin buffer (buffer.length / 4)) CPackSize))

variable (absMin : BitVec 32)

theorem bounded_without_cPack (heap : Nat → DirectoryEntry) (numEntries : Nat)
    (block : LineBlock) {compress : Nat} (hadmitted : compress ≤ 8)
    (hother : ¬ UsesCPack compress) : Bounded absMin heap numEntries block.bytes compress := by
  have hFPC := FPCCompress_le absMin block.bytes
  obtain ⟨BDISize, hBDI, hle⟩ := BDICompress_le block
  have hplain : ∀ {r : Nat}, (GeneralCompress absMin heap numEntries block.bytes compress).size = some r →
      r ≤ block.bytes.length → compress ≠ 3 → Bounded absMin heap numEntries block.bytes compress := by
    intro r hr hr_le hthree
    exact ⟨r, hr, hr_le, fun h => absurd h hthree, fun h => absurd (Or.inr h) hother⟩
  have hcase : compress = 0 ∨ compress = 1 ∨ compress = 2 ∨ compress = 3 ∨ compress = 6 ∨
      compress = 7 ∨ compress = 8 := by
    simp only [UsesCPack] at hother
    omega
  rcases hcase with rfl | rfl | rfl | rfl | rfl | rfl | rfl
  · exact hplain rfl le_rfl (by decide)
  · exact hplain hBDI hle (by decide)
  · exact hplain rfl hFPC (by decide)
  · refine ⟨min BDISize (FPCCompress absMin block.bytes (block.bytes.length / 4)), ?_, ?_, ?_, ?_⟩
    · simp only [GeneralCompress, hBDI, Option.bind_eq_bind, Option.bind_some, Option.pure_def,
        Option.some.injEq]
      split <;> omega
    · omega
    · exact fun _ => ⟨BDISize, hBDI, rfl⟩
    · exact fun h => absurd h (by decide)
  · obtain ⟨r, hr, hr_le⟩ := bdiCompressWith_le block total_singleBase passes_bdi
    exact hplain hr hr_le (by decide)
  · obtain ⟨r, hr, hr_le⟩ := bdiCompressWith_le block total_multBase passes_4BOnly
    exact hplain hr hr_le (by decide)
  · obtain ⟨r, hr, hr_le⟩ := bdiCompressWith_le block total_multBase passes_8BOnly
    exact hplain hr hr_le (by decide)

theorem bounded_with_cPack_iff (heap : Nat → DirectoryEntry) (numEntries : Nat)
    (block : LineBlock) {compress : Nat} (huses : UsesCPack compress) :
    Bounded absMin heap numEntries block.bytes compress ↔ Allocated numEntries block.bytes := by
  have hFPC := FPCCompress_le absMin block.bytes
  obtain ⟨BDISize, hBDI, hle⟩ := BDICompress_le block
  by_cases hallocated : Allocated numEntries block.bytes
  · obtain ⟨CPackSize, hCPack, hCPack_le⟩ := cPackOn_le heap block hallocated
    refine ⟨fun _ => hallocated, fun _ => ?_⟩
    cases huses with
    | inl hfour =>
        subst hfour
        exact ⟨CPackSize, hCPack, hCPack_le, fun h => absurd h (by decide),
          fun h => absurd h (by decide)⟩
    | inr hfive =>
        subst hfive
        refine ⟨min BDISize (min (FPCCompress absMin block.bytes (block.bytes.length / 4)) CPackSize),
          ?_, ?_, ?_, ?_⟩
        · simp only [GeneralCompress, hBDI, hCPack, Option.bind_eq_bind, Option.bind_some,
            Option.pure_def]
          -- one of the three is the least: the last case is not reached
          split_ifs
          · rw [Option.some.injEq]; omega
          · rw [Option.some.injEq]; omega
          · rw [Option.some.injEq]; omega
          · omega
        · omega
        · exact fun h => absurd h (by decide)
        · exact fun _ => ⟨BDISize, CPackSize, hBDI, hCPack, rfl⟩
  · have hnone := cPackOn_none heap hallocated
    refine ⟨fun hbounded => ?_, fun h => absurd h hallocated⟩
    obtain ⟨r, hr, _⟩ := hbounded
    cases huses with
    | inl hfour =>
        subst hfour
        simp [GeneralCompress, hnone] at hr
    | inr hfive =>
        subst hfive
        simp [GeneralCompress, hnone, hBDI] at hr

theorem bounded_iff (heap : Nat → DirectoryEntry) (numEntries : Nat) (block : LineBlock)
    {compress : Nat} (hadmitted : compress ≤ 8) :
    Bounded absMin heap numEntries block.bytes compress ↔
      (UsesCPack compress → Allocated numEntries block.bytes) := by
  by_cases huses : UsesCPack compress
  · rw [bounded_with_cPack_iff absMin heap numEntries block huses]
    exact ⟨fun h _ => h, fun h => h huses⟩
  · exact ⟨fun _ h => absurd h huses,
      fun _ => bounded_without_cPack absMin heap numEntries block hadmitted huses⟩

end AesOnGpu.Compression
