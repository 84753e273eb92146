import AesOnGpu.Lib.Words
import AesOnGpu.Compression.CPack

/-! # The C-Pack directory as a list of words

While a line of `n` words is compressed with `n` cleared entries, the directory
is the list of the words inserted so far, in insertion order, followed by
cleared entries.  `dictBits` and `dictNext` describe one turn of the loop on
that list; `encodeWord_directoryOf` and `encodeWords_directoryOf` are the
simulation.  The insertion never reaches its replacement branch.
-/

namespace AesOnGpu.Compression

/-! ## Directories that hold a list of words -/

/-- `n` entries holding the words `ds`; the counter of an entry is its age rank. -/
def storedEntries (n : Nat) (ds : List (BitVec 32)) : List DirectoryEntry :=
  ds.mapIdx (fun i w => ⟨true, w, i⟩) ++ List.replicate (n - ds.length) .cleared

/-- A directory whose first `n` entries hold the words `ds`. -/
def directoryOf (n : Nat) (ds : List (BitVec 32)) (tail : Directory) : Directory :=
  (storedEntries n ds).map some ++ tail

theorem storedEntries_length {n : Nat} {ds : List (BitVec 32)} (fits : ds.length ≤ n) :
    (storedEntries n ds).length = n := by
  simp [storedEntries]; omega

theorem matchDic_map_some (test : BitVec 32 → Bool) (entries : List DirectoryEntry)
    (tail : Directory) :
    matchDic test (entries.map some ++ tail) entries.length =
      some (entries.any fun entry => entry.m_valid && test entry.m_entry) := by
  induction entries with
  | nil => simp [matchDic]
  | cons entry entries ih =>
    simp only [List.map_cons, List.cons_append, List.length_cons, matchDic, ih,
      List.any_cons]
    by_cases found : (entry.m_valid && test entry.m_entry) = true
    · simp [found]
    · simp [Bool.eq_false_iff.mpr found]

theorem storedEntries_any (test : BitVec 32 → Bool) (n : Nat) (ds : List (BitVec 32)) :
    ((storedEntries n ds).any fun entry => entry.m_valid && test entry.m_entry) = ds.any test := by
  have stored : ((ds.mapIdx fun i w => (⟨true, w, i⟩ : DirectoryEntry)).any
      fun entry => entry.m_valid && test entry.m_entry) = ds.any test := by
    rw [Bool.eq_iff_iff, List.any_eq_true, List.any_eq_true]
    constructor
    · rintro ⟨entry, member, passes⟩
      obtain ⟨i, inside, rfl⟩ := List.mem_mapIdx.mp member
      exact ⟨ds[i], List.getElem_mem inside, by simpa using passes⟩
    · rintro ⟨w, member, passes⟩
      obtain ⟨i, inside, rfl⟩ := List.mem_iff_getElem.mp member
      exact ⟨_, List.mem_mapIdx.mpr ⟨i, inside, rfl⟩, by simpa using passes⟩
  have cleared (k : Nat) : ((List.replicate k DirectoryEntry.cleared).any
      fun entry => entry.m_valid && test entry.m_entry) = false := by
    simp [DirectoryEntry.cleared]
  rw [storedEntries, List.any_append, stored, cleared, Bool.or_false]

theorem matchDic_directoryOf (test : BitVec 32 → Bool) {n : Nat} {ds : List (BitVec 32)}
    (fits : ds.length ≤ n) (tail : Directory) :
    matchDic test (directoryOf n ds tail) n = some (ds.any test) := by
  have searched := matchDic_map_some test (storedEntries n ds) tail
  rw [storedEntries_length fits, storedEntries_any] at searched
  exact searched

theorem mapM_id_map_some (entries : List DirectoryEntry) :
    (entries.map some).mapM id = some entries := by
  induction entries with
  | nil => rfl
  | cons entry entries ih => simp [ih]

theorem readEntries_directoryOf {n : Nat} {ds : List (BitVec 32)} (fits : ds.length ≤ n)
    (tail : Directory) : readEntries (directoryOf n ds tail) n = some (storedEntries n ds) := by
  have length := storedEntries_length fits
  have enough : ¬ (directoryOf n ds tail).length < n := by simp [directoryOf, length]
  rw [readEntries, if_neg enough, directoryOf, List.take_append_of_le_length (by simp [length]),
    List.take_of_length_le (by simp [length]), mapM_id_map_some]

theorem storedEntries_countP (n : Nat) (ds : List (BitVec 32)) :
    (storedEntries n ds).countP (·.m_valid) = ds.length := by
  have stored : (ds.mapIdx fun i w => (⟨true, w, i⟩ : DirectoryEntry)).countP (·.m_valid) =
      ds.length := by
    rw [List.countP_eq_length.mpr, List.length_mapIdx]
    intro entry member
    obtain ⟨i, inside, rfl⟩ := List.mem_mapIdx.mp member
    rfl
  rw [storedEntries, List.countP_append, stored, List.countP_replicate]
  simp [DirectoryEntry.cleared]

theorem storedEntries_findIdx? {n : Nat} {ds : List (BitVec 32)} (room : ds.length < n) :
    (storedEntries n ds).findIdx? (fun entry => !entry.m_valid) = some ds.length := by
  have stored : (ds.mapIdx fun i w => (⟨true, w, i⟩ : DirectoryEntry)).findIdx?
      (fun entry => !entry.m_valid) = none := by
    rw [List.findIdx?_eq_none_iff]
    intro entry member
    obtain ⟨i, inside, rfl⟩ := List.mem_mapIdx.mp member
    rfl
  obtain ⟨spare, more⟩ : ∃ spare, n - ds.length = spare + 1 := ⟨n - ds.length - 1, by omega⟩
  rw [storedEntries, List.findIdx?_append, stored, more, List.replicate_succ, List.findIdx?_cons]
  simp [DirectoryEntry.cleared]

theorem insertDic_directoryOf {n : Nat} {ds : List (BitVec 32)} (room : ds.length < n)
    (w : BitVec 32) (tail : Directory) :
    insertDic (directoryOf n ds tail) n w = some (directoryOf n (ds ++ [w]) tail) := by
  obtain ⟨spare, more⟩ : ∃ spare, n - ds.length = spare + 1 := ⟨n - ds.length - 1, by omega⟩
  have less : n - (ds ++ [w]).length = spare := by simp; omega
  have written : (directoryOf n ds tail).set ds.length (some ⟨true, w, ds.length⟩) =
      directoryOf n (ds ++ [w]) tail := by
    rw [directoryOf, directoryOf, storedEntries, storedEntries, more, less, List.replicate_succ,
      List.mapIdx_append]
    simp
  simp only [insertDic, readEntries_directoryOf (Nat.le_of_lt room), storedEntries_findIdx? room,
    storedEntries_countP, Option.bind_eq_bind, Option.bind_some]
  exact congrArg some written

/-! ## One turn on the list of words -/

/-- The bits charged for a word when the words `ds` are in the directory. -/
def dictBits (ds : List (BitVec 32)) (word : BitVec 64) : Nat :=
  let w := word.setWidth 32
  if word == 0 then 2
  else if word &&& 0xFFFFFF00#64 == 0 then 12
  else if ds.any fun entry => entry == w then 6
  else if ds.any fun entry => entry &&& 0xFFFFFF00#32 == w &&& 0xFFFFFF00#32 then 16
  else if ds.any fun entry => entry &&& 0xFFFF0000#32 == w &&& 0xFFFF0000#32 then 24
  else 34

/-- The directory after a word: only a word without any match is inserted. -/
def dictNext (ds : List (BitVec 32)) (word : BitVec 64) : List (BitVec 32) :=
  if dictBits ds word = 34 then ds ++ [word.setWidth 32] else ds

/-- The words inserted by a sequence of words, starting from `ds`. -/
def dictAfter (ds : List (BitVec 32)) (words : List (BitVec 64)) : List (BitVec 32) :=
  words.foldl dictNext ds

/-- The bits charged for a sequence of words, starting from `ds`. -/
def dictTotal : List (BitVec 32) → List (BitVec 64) → Nat
  | _, [] => 0
  | ds, word :: words => dictBits ds word + dictTotal (dictNext ds word) words

theorem lowByteOnly_iff {word : BitVec 64} (narrow : word.toNat < 2 ^ 32) :
    (word &&& 0xFFFFFF00#64 == 0) = true ↔ word.toNat < 256 := by
  have masked := Bits.and_high_mask (k := 24) (s := 8) narrow
  rw [beq_iff_eq, ← BitVec.toNat_inj, BitVec.toNat_and,
    show (0xFFFFFF00#64).toNat = (2 ^ 24 - 1) * 2 ^ 8 from rfl, masked]
  simp only [BitVec.ofNat_eq_ofNat, BitVec.toNat_ofNat]
  omega

theorem upperBytes_eq_iff (a b : BitVec 32) :
    (a &&& 0xFFFFFF00#32 == b &&& 0xFFFFFF00#32) = true ↔ a.toNat / 256 = b.toNat / 256 := by
  have mask : (0xFFFFFF00#32).toNat = (2 ^ 24 - 1) * 2 ^ 8 := rfl
  rw [beq_iff_eq, ← BitVec.toNat_inj, BitVec.toNat_and, BitVec.toNat_and, mask,
    Bits.and_high_mask (k := 24) a.isLt, Bits.and_high_mask (k := 24) b.isLt]
  omega

theorem upperHalf_eq_iff (a b : BitVec 32) :
    (a &&& 0xFFFF0000#32 == b &&& 0xFFFF0000#32) = true ↔ a.toNat / 65536 = b.toNat / 65536 := by
  have mask : (0xFFFF0000#32).toNat = (2 ^ 16 - 1) * 2 ^ 16 := rfl
  rw [beq_iff_eq, ← BitVec.toNat_inj, BitVec.toNat_and, BitVec.toNat_and, mask,
    Bits.and_high_mask (k := 16) a.isLt, Bits.and_high_mask (k := 16) b.isLt]
  omega

theorem dictBits_eq (ds : List (BitVec 32)) (w : BitVec 32) :
    dictBits ds (w.setWidth 64) =
      if w.toNat = 0 then 2
      else if w.toNat < 256 then 12
      else if w ∈ ds then 6
      else if ∃ d ∈ ds, d.toNat / 256 = w.toNat / 256 then 16
      else if ∃ d ∈ ds, d.toNat / 65536 = w.toNat / 65536 then 24
      else 34 := by
  have range := w.isLt
  have wide : (w.setWidth 64).toNat = w.toNat := by
    rw [BitVec.toNat_setWidth, Nat.mod_eq_of_lt (by omega)]
  have isZero : (w.setWidth 64 == (0 : BitVec 64)) = true ↔ w.toNat = 0 := by
    rw [beq_iff_eq, ← BitVec.toNat_inj, wide]; rfl
  have low := lowByteOnly_iff (show (w.setWidth 64).toNat < 2 ^ 32 by omega)
  rw [wide] at low
  have word : (w.setWidth 64).setWidth 32 = w := by simp
  have full : (ds.any fun entry => entry == w) = true ↔ w ∈ ds := by simp
  simp only [dictBits, isZero, low, word, full, List.any_eq_true, upperBytes_eq_iff,
    upperHalf_eq_iff]

theorem dictBits_lowByte (ds : List (BitVec 32)) {word : BitVec 64} (low : word.toNat < 256) :
    dictBits ds word = if word == 0 then 2 else 12 := by
  simp only [dictBits, (lowByteOnly_iff (by omega)).mpr low, if_true]

theorem dictNext_lowByte (ds : List (BitVec 32)) {word : BitVec 64} (low : word.toNat < 256) :
    dictNext ds word = ds := by
  rw [dictNext, dictBits_lowByte ds low]
  split_ifs <;> first | rfl | omega

theorem dictNext_length_le (ds : List (BitVec 32)) (word : BitVec 64) :
    (dictNext ds word).length ≤ ds.length + 1 := by
  rw [dictNext]; split <;> simp

theorem dictAfter_length_le (ds : List (BitVec 32)) (words : List (BitVec 64)) :
    (dictAfter ds words).length ≤ ds.length + words.length := by
  induction words generalizing ds with
  | nil => simp [dictAfter]
  | cons word words ih =>
    have step := dictNext_length_le ds word
    have rest := ih (dictNext ds word)
    simp only [dictAfter, List.foldl_cons, List.length_cons] at rest ⊢
    omega

theorem encodeWord_directoryOf {n : Nat} {ds : List (BitVec 32)} (room : ds.length < n)
    (tail : Directory) (word : BitVec 64) :
    encodeWord n (directoryOf n ds tail) word =
      some (dictBits ds word, directoryOf n (dictNext ds word) tail) := by
  have search (test : BitVec 32 → Bool) := matchDic_directoryOf test (Nat.le_of_lt room) tail
  simp only [encodeWord, matchDicMmmm, matchDicMmmx, matchDicMmxx, search, dictNext, dictBits,
    insertDic_directoryOf room, Option.bind_eq_bind, Option.bind_some, Option.pure_def]
  split_ifs <;> simp_all

theorem encodeWords_directoryOf {n : Nat} {ds : List (BitVec 32)} {words : List (BitVec 64)}
    (room : ds.length + words.length ≤ n) (tail : Directory) (bits : Nat) :
    encodeWords n (bits, directoryOf n ds tail) words =
      some (bits + dictTotal ds words, directoryOf n (dictAfter ds words) tail) := by
  induction words generalizing ds bits with
  | nil => simp [encodeWords, dictTotal, dictAfter]
  | cons word words ih =>
    simp only [List.length_cons] at room
    have step := dictNext_length_le ds word
    have fits : (dictNext ds word).length + words.length ≤ n := by omega
    have rest := ih fits (bits + dictBits ds word)
    simp only [encodeWords, List.foldlM_cons, encodeWord_directoryOf (by omega : ds.length < n),
      Option.bind_eq_bind, Option.bind_some, Option.pure_def] at rest ⊢
    rw [rest, dictTotal, dictAfter, dictAfter, List.foldl_cons, Nat.add_assoc]

end AesOnGpu.Compression
