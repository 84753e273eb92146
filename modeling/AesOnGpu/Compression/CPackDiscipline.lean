import AesOnGpu.Compression.CPackHistory

/-! # The directory during a line

From an initialised directory of enough entries, the entries that are valid are the words that
were handed to `insert_dic`, in their order and each once.  There is always an entry left for the
next one, and a word that is there is found by the first search.
-/

namespace AesOnGpu.Compression

/-- The words that are handed to `insert_dic`; no other turn of the loop charges 34 bits. -/
def insertedWords (numEntries : Nat) : Directory → List (BitVec 64) → Option (List (BitVec 32))
  | _, [] => some []
  | directory, word :: words => do
    let (bits, next) ← encodeWord numEntries directory word
    let rest ← insertedWords numEntries next words
    return if bits = 34 then word.setWidth 32 :: rest else rest

/-- `insert_dic` finds no entry that is not valid, and replaces the oldest. -/
def Replaces (directory : Directory) (numEntries : Nat) : Prop :=
  ∃ entries, readEntries directory numEntries = some entries ∧
    entries.findIdx? (fun entry => !entry.m_valid) = none

/-! ## The words of the directory -/

/-- What is inserted is new in its upper bytes, and these are not all zero. -/
structure Dictionary (ds : List (BitVec 32)) : Prop where
  nodup : ds.Nodup
  upper : ∀ d ∈ ds, d &&& 0xFFFFFF00#32 ≠ 0

theorem dictionary_nil : Dictionary [] :=
  ⟨List.nodup_nil, fun _ here => absurd here List.not_mem_nil⟩

variable {ds : List (BitVec 32)} {word : BitVec 64}

theorem masked_eq_zero_iff : (word &&& 0xFFFFFF00#64 == 0) = true ↔
    word.setWidth 32 &&& 0xFFFFFF00#32 = 0 := by
  have wide : 0xFFFFFF00#64 = (0xFFFFFF00#32).setWidth 64 := rfl
  rw [beq_iff_eq, wide]
  constructor
  · intro zero
    have narrow := congrArg (BitVec.setWidth 32) zero
    simpa using narrow
  · intro zero
    apply BitVec.eq_of_getLsbD_eq
    intro i inside
    have bit := congrArg (BitVec.getLsbD · i) zero
    simp only [BitVec.getLsbD_and, BitVec.getLsbD_setWidth] at bit ⊢
    -- The mask has no bit above the lower half.
    by_cases low : i < 32
    · simpa [low, inside] using bit
    · simp [BitVec.getLsbD_of_ge _ _ (Nat.not_lt.mp low)]

theorem dictBits_eq_inserted (inserted : dictBits ds word = 34) :
    word.setWidth 32 ∉ ds ∧ word.setWidth 32 &&& 0xFFFFFF00#32 ≠ 0 := by
  simp only [dictBits] at inserted
  split at inserted
  · cases inserted
  · split at inserted
    · cases inserted
    · rename_i upper
      split at inserted
      · cases inserted
      · rename_i unmatched
        refine ⟨fun here => unmatched ?_, fun zero => upper (masked_eq_zero_iff.mpr zero)⟩
        exact List.any_eq_true.mpr ⟨_, here, beq_self_eq_true _⟩

theorem Dictionary.next (dictionary : Dictionary ds) (word : BitVec 64) :
    Dictionary (dictNext ds word) := by
  rw [dictNext]
  split
  · rename_i inserted
    obtain ⟨new, upper⟩ := dictBits_eq_inserted inserted
    constructor
    · rw [List.nodup_append]
      refine ⟨dictionary.nodup, List.nodup_singleton _, fun d here d' here' same => ?_⟩
      rw [List.mem_singleton.mp here'] at same
      exact new (same ▸ here)
    · intro d here
      cases List.mem_append.mp here with
      | inl before => exact dictionary.upper d before
      | inr last => exact (List.mem_singleton.mp last).symm ▸ upper
  · exact dictionary

theorem Dictionary.after (dictionary : Dictionary ds) (words : List (BitVec 64)) :
    Dictionary (dictAfter ds words) := by
  induction words generalizing ds with
  | nil => exact dictionary
  | cons word words ih => exact ih (dictionary.next word)

theorem Dictionary.full_match (dictionary : Dictionary ds) (here : word.setWidth 32 ∈ ds) :
    dictBits ds word = 6 := by
  have upper := dictionary.upper _ here
  have notLow : ¬ (word &&& 0xFFFFFF00#64 == 0) = true := fun low =>
    upper (masked_eq_zero_iff.mp low)
  have notZero : ¬ (word == 0) = true := by
    intro zero
    rw [beq_iff_eq] at zero
    subst zero
    exact upper rfl
  have found : (ds.any fun entry => entry == word.setWidth 32) = true :=
    List.any_eq_true.mpr ⟨_, here, beq_self_eq_true _⟩
  simp only [dictBits, notZero, notLow, found, Bool.false_eq_true, if_false, if_true]

/-! ## The directory holds these words -/

theorem insertedWords_directoryOf {n : Nat} {words : List (BitVec 64)}
    (room : ds.length + words.length ≤ n) (tail : Directory) :
    ∃ inserted, insertedWords n (directoryOf n ds tail) words = some inserted ∧
      dictAfter ds words = ds ++ inserted := by
  induction words generalizing ds with
  | nil => exact ⟨[], rfl, (List.append_nil ds).symm⟩
  | cons word words ih =>
    rw [List.length_cons] at room
    have step := dictNext_length_le ds word
    have fits : (dictNext ds word).length + words.length ≤ n := by omega
    obtain ⟨inserted, rest, after⟩ := ih fits
    rw [insertedWords, encodeWord_directoryOf (by omega)]
    simp only [Option.bind_eq_bind, Option.bind_some, rest]
    have next : dictAfter ds (word :: words) = dictNext ds word ++ inserted := after
    -- Inserting is charged with 34 bits, and nothing else is.
    rw [dictNext] at next
    split at next
    · rename_i charged
      exact ⟨_, congrArg some (if_pos charged),
        by rw [next, List.append_assoc, List.singleton_append]⟩
    · rename_i free
      exact ⟨_, congrArg some (if_neg free), next⟩

theorem not_replaces {n : Nat} (room : ds.length < n) (tail : Directory) :
    ¬ Replaces (directoryOf n ds tail) n := by
  intro replaces
  obtain ⟨entries, read, full⟩ := replaces
  rw [readEntries_directoryOf (Nat.le_of_lt room)] at read
  rw [← Option.some.inj read, storedEntries_findIdx? room] at full
  cases full

theorem initializeDic_eq {array start : Directory} {numEntries : Nat}
    (initialized : initializeDic array numEntries = some start) :
    start = directoryOf numEntries [] (array.drop numEntries) := by
  rw [initializeDic] at initialized
  split at initialized
  · cases initialized
  · rw [← Option.some.inj initialized, directoryOf, storedEntries]
    simp

/-- Whatever part of a line has been compressed, the directory is the list of the words that were
    inserted, each once.  The next word finds an entry to be inserted in, or its equal. -/
theorem directory_discipline {array start : Directory} {numEntries : Nat}
    (initialized : initializeDic array numEntries = some start)
    {words before after : List (BitVec 64)} (enough : words.length ≤ numEntries)
    (split : words = before ++ after) :
    ∃ bits ds tail,
      encodeWords words.length (0, start) before =
        some (bits, directoryOf words.length ds tail) ∧
      insertedWords words.length start before = some ds ∧ ds.Nodup ∧
      ∀ word rest, after = word :: rest →
        ¬ Replaces (directoryOf words.length ds tail) words.length ∧
        (word.setWidth 32 ∈ ds →
          matchDicMmmm (directoryOf words.length ds tail) words.length (word.setWidth 32) =
            some true ∧
          encodeWord words.length (directoryOf words.length ds tail) word =
            some (6, directoryOf words.length ds tail)) := by
  have length : words.length = before.length + after.length := by
    rw [split, List.length_append]
  -- The entries that the line has no words for count as what is behind the directory.
  rw [initializeDic_eq initialized, directoryOf_split enough]
  generalize List.replicate (numEntries - words.length) (some .cleared) ++
    array.drop numEntries = tail
  have room : ([] : List (BitVec 32)).length + before.length ≤ words.length := by
    rw [List.length_nil]
    omega
  have run := encodeWords_directoryOf room tail 0
  obtain ⟨inserted, recorded, same⟩ := insertedWords_directoryOf room tail
  rw [List.nil_append] at same
  have dictionary := dictionary_nil.after before
  have short := dictAfter_length_le [] before
  rw [same] at run dictionary short
  rw [List.length_nil, Nat.zero_add] at short
  refine ⟨_, inserted, tail, run, recorded, dictionary.nodup, fun word rest more => ?_⟩
  -- The words before this one have left it an entry.
  rw [more, List.length_cons] at length
  have room : inserted.length < words.length := by omega
  refine ⟨not_replaces room tail, fun here => ?_⟩
  have matched := dictionary.full_match here
  have stays : dictNext inserted word = inserted := by
    rw [dictNext, matched]
    rfl
  constructor
  · rw [matchDicMmmm, matchDic_directoryOf _ room.le]
    exact congrArg some (List.any_eq_true.mpr ⟨_, here, beq_self_eq_true _⟩)
  · rw [encodeWord_directoryOf room, matched, stays]

/-- The second of two equal words. -/
theorem directory_discipline_equal :
    ∃ bits ds tail,
      encodeWords 2 (0, List.replicate 4 (some .cleared)) [0x12345678] =
        some (bits, directoryOf 2 ds tail) ∧
      ds = [0x12345678] ∧ matchDicMmmm (directoryOf 2 ds tail) 2 0x12345678 = some true := by
  have initialized : initializeDic (List.replicate 4 none) 4 =
      some (List.replicate 4 (some .cleared)) := rfl
  have split : [0x12345678, 0x12345678] = [(0x12345678 : BitVec 64)] ++ [0x12345678] := rfl
  obtain ⟨bits, ds, tail, run, inserted, -, next⟩ :=
    directory_discipline initialized (by decide) split
  obtain rfl : [0x12345678] = ds := Option.some.inj inserted
  exact ⟨bits, _, tail, run, rfl, ((next _ _ rfl).2 (List.mem_singleton.mpr rfl)).1⟩

end AesOnGpu.Compression
