import AesOnGpu.Compression.CPackDirectory

/-! # What earlier lines do to a C-Pack call

`initialize_dic` clears as many entries as the previous line had words, the
loop then searches as many as this line has.  `cPack_size_iff` says when the
call is defined; its size then is `cPackSize`, which looks at the line alone.
-/

namespace AesOnGpu.Compression

def cPackSize (words : List (BitVec 64)) : Nat :=
  if words.all (· == 0) then 1
  else (min (dictTotal [] words) (words.length * 4 * 8) + 7) / 8

/-- An entry count for which `initialize_dic` prepares what the loop reads: it
    clears entries of the array only, and all that are searched. -/
structure Prepares (numEntries : Nat) (buffer : List (BitVec 8)) : Prop where
  allocated : numEntries ≤ buffer.length / 4 * 8
  cleared : buffer.length / 4 ≤ numEntries ∨ ∀ word ∈ cPackWords buffer, word.toNat < 256

instance (numEntries : Nat) (buffer : List (BitVec 8)) : Decidable (Prepares numEntries buffer) :=
  decidable_of_iff (numEntries ≤ buffer.length / 4 * 8 ∧
    (buffer.length / 4 ≤ numEntries ∨ ∀ word ∈ cPackWords buffer, word.toNat < 256))
    ⟨fun both => ⟨both.1, both.2⟩, fun prepares => ⟨prepares.allocated, prepares.cleared⟩⟩

@[simp] theorem cPackWords_length (buffer : List (BitVec 8)) :
    (cPackWords buffer).length = buffer.length / 4 := by
  simp [cPackWords]

theorem cPackWords_lt {buffer : List (BitVec 8)} {word : BitVec 64}
    (member : word ∈ cPackWords buffer) : word.toNat < 2 ^ 32 :=
  convertBuffer2Array_lt (by omega) member

/-! ## The array after initialisation -/

theorem initializeDic_new (total numEntries : Nat) :
    initializeDic (List.replicate total none) numEntries =
      if numEntries ≤ total then
        some (directoryOf numEntries [] (List.replicate (total - numEntries) none))
      else none := by
  simp only [initializeDic, List.length_replicate, List.drop_replicate, directoryOf, storedEntries,
    List.mapIdx_nil, List.nil_append, List.length_nil, Nat.sub_zero, List.map_replicate]
  split <;> split <;> first | rfl | omega

theorem directoryOf_split {n numEntries : Nat} (enough : n ≤ numEntries) (tail : Directory) :
    directoryOf numEntries [] tail =
      directoryOf n [] (List.replicate (numEntries - n) (some .cleared) ++ tail) := by
  obtain ⟨more, rfl⟩ := Nat.exists_eq_add_of_le enough
  simp only [directoryOf, storedEntries, List.mapIdx_nil, List.nil_append, List.length_nil,
    Nat.sub_zero, List.map_replicate]
  rw [← List.append_assoc, List.replicate_append_replicate, Nat.add_sub_cancel_left]

theorem matchDic_unprepared (test : BitVec 32 → Bool) (unwritten : Nat) {n cleared : Nat}
    (short : cleared < n) :
    matchDic test (directoryOf cleared [] (List.replicate unwritten none)) n = none := by
  induction cleared generalizing n with
  | zero =>
    obtain ⟨m, rfl⟩ := Nat.exists_eq_add_of_lt short
    cases unwritten <;> simp [directoryOf, storedEntries, matchDic, List.replicate_succ]
  | succ cleared ih =>
    obtain ⟨m, rfl⟩ : ∃ m, n = m + 1 := ⟨n - 1, by omega⟩
    have rest := ih (n := m) (by omega)
    simpa [directoryOf, storedEntries, matchDic, List.replicate_succ, DirectoryEntry.cleared]
      using rest

/-! ## The loop -/

theorem encodeWords_lowBytes {words : List (BitVec 64)} (low : ∀ word ∈ words, word.toNat < 256)
    (n bits : Nat) (directory : Directory) :
    encodeWords n (bits, directory) words = some (bits + dictTotal [] words, directory) := by
  induction words generalizing bits with
  | nil => simp [encodeWords, dictTotal]
  | cons word words ih =>
    have small := low word (by simp)
    have step : encodeWord n directory word = some (dictBits [] word, directory) := by
      simp only [encodeWord, (lowByteOnly_iff (by omega)).mpr small, dictBits_lowByte _ small]
      split_ifs <;> rfl
    have rest := ih (fun other member => low other (by simp [member]))
      (bits + dictBits [] word)
    simp only [encodeWords, List.foldlM_cons, step, Option.bind_eq_bind, Option.bind_some,
      Option.pure_def] at rest ⊢
    rw [rest, dictTotal, dictNext_lowByte _ small, Nat.add_assoc]

theorem encodeWords_unprepared {words : List (BitVec 64)} {n cleared : Nat} (short : cleared < n)
    (narrow : ∀ word ∈ words, word.toNat < 2 ^ 32) (long : ∃ word ∈ words, 256 ≤ word.toNat)
    (bits unwritten : Nat) :
    encodeWords n (bits, directoryOf cleared [] (List.replicate unwritten none)) words = none := by
  induction words generalizing bits with
  | nil => simp at long
  | cons word words ih =>
    by_cases small : word.toNat < 256
    · have step : encodeWord n (directoryOf cleared [] (List.replicate unwritten none)) word =
          some (dictBits [] word, directoryOf cleared [] (List.replicate unwritten none)) := by
        simp only [encodeWord, (lowByteOnly_iff (by omega)).mpr small, dictBits_lowByte _ small]
        split_ifs <;> rfl
      have later : ∃ other ∈ words, 256 ≤ other.toNat := by
        obtain ⟨other, member, big⟩ := long
        obtain rfl | inside := List.mem_cons.mp member
        · omega
        · exact ⟨other, inside, big⟩
      have rest := ih (fun other member => narrow other (by simp [member])) later
        (bits + dictBits [] word)
      simp only [encodeWords, List.foldlM_cons, step, Option.bind_eq_bind, Option.bind_some,
        Option.pure_def] at rest ⊢
      exact rest
    · have notLow := mt (lowByteOnly_iff (narrow word (by simp))).mp small
      have notZero : ¬ (word == 0) = true := by
        intro isZero
        rw [beq_iff_eq] at isZero
        subst isZero
        exact small (by decide)
      have stuck := matchDic_unprepared (fun entry => entry == word.setWidth 32) unwritten short
      simp only [encodeWords, List.foldlM_cons, encodeWord, notZero, notLow, matchDicMmmm, stuck,
        Bool.false_eq_true, if_false, Option.bind_eq_bind, Option.bind_none]

/-! ## One call -/

theorem calculateCompressedSizeCPack_prepared {words : List (BitVec 64)} {numEntries : Nat}
    {tail : Directory}
    (cleared : words.length ≤ numEntries ∨ ∀ word ∈ words, word.toNat < 256) :
    (calculateCompressedSizeCPack (directoryOf numEntries [] tail) words).map
      (fun (compSize, zeroBlock) => if zeroBlock then 1 else (compSize + 7) / 8) =
      some (cPackSize words) := by
  have loop : ∃ directory, encodeWords words.length (0, directoryOf numEntries [] tail) words =
      some (dictTotal [] words, directory) := by
    obtain enough | low := cleared
    · rw [directoryOf_split enough, encodeWords_directoryOf (by simp), Nat.zero_add]
      exact ⟨_, rfl⟩
    · rw [encodeWords_lowBytes low, Nat.zero_add]
      exact ⟨_, rfl⟩
  obtain ⟨directory, loop⟩ := loop
  simp only [calculateCompressedSizeCPack, cPackSize, loop, Option.bind_eq_bind, Option.bind_some,
    Option.pure_def]
  split
  · rfl
  · simp only [Option.map_some, Bool.false_eq_true, if_false]
    split <;> simp only [Option.some.injEq] <;> congr 2 <;> omega

/-- A call is defined exactly when the count it starts with prepares it, and
    then its size depends on the line alone. -/
theorem cPack_size (numEntries : Nat) (buffer : List (BitVec 8)) :
    (CPack numEntries buffer).size =
      if Prepares numEntries buffer then some (cPackSize (cPackWords buffer)) else none := by
  simp only [CPack, initializeDic_new]
  by_cases allocated : numEntries ≤ buffer.length / 4 * 8
  · rw [if_pos allocated]
    simp only [Option.bind_eq_bind, Option.bind_some]
    split
    next prepares =>
      have cleared := prepares.cleared
      rw [← cPackWords_length] at cleared
      rw [← calculateCompressedSizeCPack_prepared cleared, Option.map_eq_bind]
      rfl
    next unprepared =>
      have short : numEntries < (cPackWords buffer).length := by
        by_contra enough
        exact unprepared ⟨allocated, Or.inl (by simpa using enough)⟩
      have long : ∃ word ∈ cPackWords buffer, 256 ≤ word.toNat := by
        by_contra none
        push Not at none
        exact unprepared ⟨allocated, Or.inr none⟩
      have stuck := encodeWords_unprepared short (fun _ member => cPackWords_lt member) long 0
        (buffer.length / 4 * 8 - numEntries)
      have notZero : ¬ (cPackWords buffer).all (· == 0) = true := by
        intro allZero
        obtain ⟨word, member, big⟩ := long
        have isZero := List.all_eq_true.mp allZero word member
        rw [beq_iff_eq] at isZero
        subst isZero
        exact absurd big (by decide)
      simp only [calculateCompressedSizeCPack, notZero, stuck, Bool.false_eq_true, if_false,
        Option.bind_eq_bind, Option.bind_none]
  · rw [if_neg allocated, if_neg fun prepares => allocated prepares.allocated]
    rfl

/-! ## Two histories -/

/-- After two histories a line is compressed to the same size, without a read
    of an entry not written during the call. -/
def HistoryFree (history other : List (List (BitVec 8))) (buffer : List (BitVec 8)) : Prop :=
  ∃ size, (CPack (numEntriesAfter history) buffer).size = some size ∧
    (CPack (numEntriesAfter other) buffer).size = some size

/-- Two histories cannot be told apart exactly when the last line of each
    leaves a count that prepares this call. -/
theorem cPack_history_free_iff (history other : List (List (BitVec 8)))
    (buffer : List (BitVec 8)) :
    HistoryFree history other buffer ↔
      Prepares (numEntriesAfter history) buffer ∧ Prepares (numEntriesAfter other) buffer := by
  simp only [HistoryFree, cPack_size]
  constructor
  · rintro ⟨size, first, second⟩
    split at first <;> split at second <;> simp_all
  · rintro ⟨first, second⟩
    exact ⟨_, if_pos first, if_pos second⟩

/-- A line of 16 words leaves a count of 16; a line of 32 words that follows
    reads the 17th entry before anything is written to it. -/
theorem short_line_spoils_long_line :
    ¬ HistoryFree [] [List.replicate 64 0] (List.replicate 128 1) := by
  rintro ⟨size, -, spoiled⟩
  have count : numEntriesAfter [List.replicate 64 0] = 16 := by simp [numEntriesAfter_eq]
  have long : (0x01010101 : BitVec 64) ∈ cPackWords (List.replicate 128 1) :=
    List.mem_map.mpr ⟨0, by simp, by decide⟩
  have unprepared : ¬ Prepares 16 (List.replicate 128 1) := by
    rintro ⟨-, enough | low⟩
    · simp at enough
    · exact absurd (low _ long) (by decide)
  rw [count, cPack_size, if_neg unprepared] at spoiled
  exact Option.some_ne_none size spoiled.symm

end AesOnGpu.Compression
