import AesOnGpu.Lib.Coding
import AesOnGpu.Compression.CPackHistory

/-! # Decodability of the C-Pack sizes

The bits charged for the possible next words have a prefix code exactly when
their Kraft sum is at most one.  In every directory reached while a line is
compressed the entries have different upper halves, so the sum depends on the
number of entries alone, up to the words of one byte that a partial match would
also cover; it passes one at the 19th entry.
-/

namespace AesOnGpu.Compression

open Coding

/-! ## The directories of a line -/

/-- Entries inserted by the loop: none would be charged less than 34 bits by
    the other ones. -/
structure Separate (ds : List (BitVec 32)) : Prop where
  long : ∀ d ∈ ds, 256 ≤ d.toNat
  apart : (ds.map fun d => d.toNat / 65536).Nodup

theorem Separate.empty : Separate [] := ⟨by simp, by simp⟩

def longHalves (words : List (BitVec 64)) : Finset Nat :=
  ((words.filter fun word => 256 ≤ word.toNat).map fun word => word.toNat / 65536).toFinset

theorem dictNext_eq (ds : List (BitVec 32)) (w : BitVec 32) :
    dictNext ds (w.setWidth 64) =
      if 256 ≤ w.toNat ∧ w.toNat / 65536 ∉ ds.map fun d => d.toNat / 65536 then ds ++ [w] else ds := by
  have word : (w.setWidth 64).setWidth 32 = w := by simp
  have finer : (∃ d ∈ ds, d.toNat / 256 = w.toNat / 256) →
      ∃ d ∈ ds, d.toNat / 65536 = w.toNat / 65536 := by
    rintro ⟨d, member, equal⟩
    exact ⟨d, member, by omega⟩
  have finest : w ∈ ds → ∃ d ∈ ds, d.toNat / 65536 = w.toNat / 65536 :=
    fun member => ⟨w, member, rfl⟩
  simp only [dictNext, dictBits_eq, word, List.mem_map]
  split_ifs <;> first | rfl | omega | grind

theorem Separate.next {ds : List (BitVec 32)} (separate : Separate ds) (w : BitVec 32) :
    Separate (dictNext ds (w.setWidth 64)) := by
  rw [dictNext_eq]
  split
  next fresh =>
    refine ⟨fun d member => ?_, ?_⟩
    · obtain old | new := List.mem_append.mp member
      · exact separate.long d old
      · rw [List.mem_singleton.mp new]; exact fresh.1
    · rw [List.map_append, List.nodup_append]
      refine ⟨separate.apart, List.nodup_singleton _, fun a aMember b bMember => ?_⟩
      rw [List.mem_singleton.mp bMember]
      rintro rfl
      exact fresh.2 aMember
  next => exact separate

theorem dictNext_halves (ds : List (BitVec 32)) (w : BitVec 32) :
    ((dictNext ds (w.setWidth 64)).map fun d => d.toNat / 65536).toFinset =
      (ds.map fun d => d.toNat / 65536).toFinset ∪ longHalves [w.setWidth 64] := by
  have range := w.isLt
  have wide : (w.setWidth 64).toNat = w.toNat := by
    rw [BitVec.toNat_setWidth, Nat.mod_eq_of_lt (by omega)]
  rw [dictNext_eq, longHalves]
  by_cases long : 256 ≤ w.toNat
  · by_cases known : w.toNat / 65536 ∈ ds.map fun d => d.toNat / 65536
    · ext half
      simp [long, known, wide]
    · ext half
      simp [long, known, wide]
  · simp [long, wide]

theorem longHalves_cons (word : BitVec 64) (words : List (BitVec 64)) :
    longHalves (word :: words) = longHalves [word] ∪ longHalves words := by
  simp only [longHalves]
  by_cases long : 256 ≤ word.toNat <;> simp [long]

theorem Separate.after {ds : List (BitVec 32)} (separate : Separate ds) (words : List (BitVec 32)) :
    Separate (dictAfter ds (words.map (·.setWidth 64))) ∧
      ((dictAfter ds (words.map (·.setWidth 64))).map fun d => d.toNat / 65536).toFinset =
        (ds.map fun d => d.toNat / 65536).toFinset ∪ longHalves (words.map (·.setWidth 64)) := by
  induction words generalizing ds with
  | nil => exact ⟨separate, by simp [dictAfter, longHalves]⟩
  | cons w words ih =>
    obtain ⟨invariant, halves⟩ := ih (separate.next w)
    refine ⟨invariant, ?_⟩
    rw [List.map_cons, longHalves_cons, ← Finset.union_assoc, ← dictNext_halves]
    exact halves

theorem dictAfter_length (words : List (BitVec 32)) :
    (dictAfter [] (words.map (·.setWidth 64))).length =
      (longHalves (words.map (·.setWidth 64))).card := by
  obtain ⟨invariant, halves⟩ := Separate.empty.after words
  have count := List.toFinset_card_of_nodup invariant.apart
  rw [halves, List.length_map] at count
  simpa using count.symm

/-! ## Counting words by their upper part -/

/-- The words whose quotient by `scale` is one of `quotients`. -/
def wordsAbove (scale : Nat) (quotients : List Nat) : Finset (BitVec 32) :=
  Finset.univ.filter fun w => w.toNat / scale ∈ quotients

@[simp] theorem mem_wordsAbove {scale : Nat} {quotients : List Nat} {w : BitVec 32} :
    w ∈ wordsAbove scale quotients ↔ w.toNat / scale ∈ quotients := by
  simp [wordsAbove]

theorem wordsAbove_singleton_card (scale quotient : Nat) (positive : 0 < scale)
    (fits : (quotient + 1) * scale ≤ 2 ^ 32) :
    (wordsAbove scale [quotient]).card = scale := by
  refine (Finset.card_bij (s := Finset.range scale)
    (fun r _ => BitVec.ofNat 32 (quotient * scale + r)) ?_ ?_ ?_).symm.trans (Finset.card_range scale)
  · intro r member
    have small := Finset.mem_range.mp member
    have inside : quotient * scale + r < 2 ^ 32 := by nlinarith
    rw [mem_wordsAbove, BitVec.toNat_ofNat, Nat.mod_eq_of_lt inside, List.mem_singleton,
      Nat.mul_comm, Nat.mul_add_div positive, Nat.div_eq_of_lt small, Nat.add_zero]
  · intro a aMember b bMember equal
    have aSmall := Finset.mem_range.mp aMember
    have bSmall := Finset.mem_range.mp bMember
    have values := congrArg BitVec.toNat equal
    rw [BitVec.toNat_ofNat, BitVec.toNat_ofNat, Nat.mod_eq_of_lt (by nlinarith),
      Nat.mod_eq_of_lt (by nlinarith)] at values
    omega
  · intro w member
    have quotientOf := List.mem_singleton.mp (mem_wordsAbove.mp member)
    have split := Nat.div_add_mod w.toNat scale
    refine ⟨w.toNat % scale, Finset.mem_range.mpr (Nat.mod_lt _ positive), ?_⟩
    refine BitVec.eq_of_toNat_eq ?_
    rw [← quotientOf, Nat.mul_comm, split, BitVec.toNat_ofNat, Nat.mod_eq_of_lt w.isLt]

theorem wordsAbove_card (scale : Nat) {quotients : List Nat} (positive : 0 < scale)
    (apart : quotients.Nodup)
    (fits : ∀ q ∈ quotients, (q + 1) * scale ≤ 2 ^ 32) :
    (wordsAbove scale quotients).card = scale * quotients.length := by
  induction quotients with
  | nil => simp [wordsAbove]
  | cons q quotients ih =>
    obtain ⟨fresh, apart⟩ := List.nodup_cons.mp apart
    have rest := ih apart fun other member => fits other (by simp [member])
    have split : wordsAbove scale (q :: quotients) =
        wordsAbove scale [q] ∪ wordsAbove scale quotients := by
      ext w; simp
    have disjoint : Disjoint (wordsAbove scale [q]) (wordsAbove scale quotients) := by
      rw [Finset.disjoint_left]
      intro w first second
      rw [mem_wordsAbove, List.mem_singleton] at first
      exact fresh (first ▸ mem_wordsAbove.mp second)
    rw [split, Finset.card_union_of_disjoint disjoint, rest,
      wordsAbove_singleton_card scale q positive (fits q (by simp)), List.length_cons]
    ring

/-! ## The Kraft sum of a directory -/

def halfMatches (ds : List (BitVec 32)) : Finset (BitVec 32) :=
  wordsAbove 65536 (ds.map fun d => d.toNat / 65536) \ wordsAbove 256 [0]

/-- The words that match an entry in the upper three bytes. -/
def byteMatches (ds : List (BitVec 32)) : Finset (BitVec 32) :=
  wordsAbove 256 (ds.map fun d => d.toNat / 256)

theorem halfMatches_card {ds : List (BitVec 32)} (separate : Separate ds) :
    (halfMatches ds).card ≤ 65536 * ds.length ∧ 65536 * ds.length ≤ (halfMatches ds).card + 256 := by
  have all := wordsAbove_card 65536 (by omega) separate.apart fun q member => by
    obtain ⟨d, _, rfl⟩ := List.mem_map.mp member
    have range := d.isLt
    omega
  have lowBytes := wordsAbove_singleton_card 256 0 (by omega) (by omega)
  have atLeast := Finset.le_card_sdiff (wordsAbove 256 [0])
    (wordsAbove 65536 (ds.map fun d => d.toNat / 65536))
  have atMost := Finset.card_le_card (Finset.sdiff_subset (t := wordsAbove 256 [0])
    (s := wordsAbove 65536 (ds.map fun d => d.toNat / 65536)))
  rw [all, lowBytes, List.length_map] at atLeast
  rw [all, List.length_map] at atMost
  exact ⟨atMost, by rw [halfMatches]; omega⟩

theorem byteMatches_card {ds : List (BitVec 32)} (separate : Separate ds) :
    (byteMatches ds).card = 256 * ds.length := by
  have coarser : ((ds.map fun d => d.toNat / 256).map fun q => q / 256) =
      ds.map fun d => d.toNat / 65536 := by
    rw [List.map_map]
    exact List.map_congr_left fun d _ => by simp only [Function.comp_apply]; omega
  have apart : (ds.map fun d => d.toNat / 256).Nodup :=
    List.Nodup.of_map (fun q => q / 256) (by rw [coarser]; exact separate.apart)
  rw [byteMatches, wordsAbove_card 256 (by omega) apart, List.length_map]
  intro q member
  obtain ⟨d, _, rfl⟩ := List.mem_map.mp member
  have range := d.isLt
  omega

theorem fullMatches_card {ds : List (BitVec 32)} (separate : Separate ds) :
    ds.toFinset.card = ds.length :=
  List.toFinset_card_of_nodup (List.Nodup.of_map _ separate.apart)

/-- The words with a code shorter than 34 bits and what the shorter code adds to
    the Kraft sum, scaled by `2 ^ 34`; a finer match comes on top of a coarser one. -/
def dictShares (ds : List (BitVec 32)) : List (Finset (BitVec 32) × Nat) :=
  [(wordsAbove 256 [0], 2 ^ 22 - 1), ({0}, 2 ^ 32 - 2 ^ 22), (halfMatches ds, 2 ^ 10 - 1),
    (byteMatches ds, 2 ^ 18 - 2 ^ 10), (ds.toFinset, 2 ^ 28 - 2 ^ 18)]

theorem dictBits_share {ds : List (BitVec 32)} (separate : Separate ds) (w : BitVec 32) :
    2 ^ (34 - dictBits ds (w.setWidth 64)) =
      1 + shareSum (fun s => if w ∈ s then 1 else 0) (dictShares ds) := by
  have low : w ∈ wordsAbove 256 [0] ↔ w.toNat < 256 := by simp
  have zero : w ∈ ({0} : Finset (BitVec 32)) ↔ w.toNat = 0 := by
    rw [Finset.mem_singleton, ← BitVec.toNat_inj]; rfl
  have half : w ∈ halfMatches ds ↔
      (∃ d ∈ ds, d.toNat / 65536 = w.toNat / 65536) ∧ ¬ w.toNat < 256 := by
    rw [halfMatches, Finset.mem_sdiff, low, mem_wordsAbove, List.mem_map]
  have byte : w ∈ byteMatches ds ↔ ∃ d ∈ ds, d.toNat / 256 = w.toNat / 256 := by
    rw [byteMatches, mem_wordsAbove, List.mem_map]
  have full : w ∈ ds.toFinset ↔ w ∈ ds := List.mem_toFinset
  have byteHalf : (∃ d ∈ ds, d.toNat / 256 = w.toNat / 256) →
      ∃ d ∈ ds, d.toNat / 65536 = w.toNat / 65536 :=
    fun ⟨d, member, equal⟩ => ⟨d, member, by omega⟩
  have byteLong : (∃ d ∈ ds, d.toNat / 256 = w.toNat / 256) → ¬ w.toNat < 256 :=
    fun ⟨d, member, equal⟩ => by have long := separate.long d member; omega
  have fullByte : w ∈ ds → ∃ d ∈ ds, d.toNat / 256 = w.toNat / 256 :=
    fun member => ⟨w, member, rfl⟩
  simp only [dictShares, shareSum, low, zero, half, byte, full, dictBits_eq]
  by_cases isZero : w.toNat = 0
  · have noByte := mt byteLong (by omega)
    have noFull := mt fullByte noByte
    rw [isZero] at noByte
    simp only [isZero, if_true, Nat.zero_lt_succ, not_true, and_false, if_false, noByte, noFull]
    norm_num
  · by_cases isLow : w.toNat < 256
    · have noByte := mt byteLong (by omega)
      simp [isZero, isLow, noByte, mt fullByte noByte]
    · by_cases isFull : w ∈ ds
      · have isByte := fullByte isFull
        simp [isZero, isLow, isFull, isByte, byteHalf isByte]
      · by_cases isByte : ∃ d ∈ ds, d.toNat / 256 = w.toNat / 256
        · simp [isZero, isLow, isFull, isByte, byteHalf isByte]
        · by_cases isHalf : ∃ d ∈ ds, d.toNat / 65536 = w.toNat / 65536
          · simp [isZero, isLow, isFull, isByte, isHalf]
          · simp [isZero, isLow, isFull, isByte, isHalf]

theorem kraftSum_dictBits_iff {ds : List (BitVec 32)} (separate : Separate ds) :
    kraftSum (fun w : BitVec 32 => dictBits ds (w.setWidth 64)) ≤ 1 ↔ ds.length ≤ 18 := by
  have longest (w : BitVec 32) : dictBits ds (w.setWidth 64) ≤ 34 := by
    rw [dictBits_eq]; split_ifs <;> omega
  have lowBytes := wordsAbove_singleton_card 256 0 (by omega) (by omega)
  have words : Fintype.card (BitVec 32) = 2 ^ 32 := by
    rw [Fintype.card_congr BitVec.equivFin.toEquiv, Fintype.card_fin]
  obtain ⟨atMost, atLeast⟩ := halfMatches_card separate
  have byteMatched := byteMatches_card separate
  have fullMatched := fullMatches_card separate
  rw [kraftSum_le_one_iff longest, sum_of_shares (dictShares ds) (dictBits_share separate), words]
  rw [dictShares, shareSum, shareSum, shareSum, shareSum, shareSum, shareSum, lowBytes,
    Finset.card_singleton, byteMatched, fullMatched]
  omega

/-! ## Decodability during a line -/

/-- A line of up to 128 bytes, in whole words. -/
structure CPackLine where
  bytes : List (BitVec 8)
  whole : 4 ∣ bytes.length
  short : bytes.length ≤ 128

/-- The number of words, hence of directory entries. -/
def CPackLine.numwords (line : CPackLine) : Nat := line.bytes.length / 4

/-- The directory after the first `done` words of a line, when the call starts
    with a given entry count. -/
def directoryDuring (numEntries : Nat) (line : CPackLine) (done : Nat) : Option Directory := do
  let directory ← initializeDic (List.replicate (line.numwords * 8) none) numEntries
  let (_, directory) ← encodeWords line.numwords (0, directory) ((cPackWords line.bytes).take done)
  return directory

/-- The bits charged when `w` comes next. -/
def chargedBits (numEntries : Nat) (directory : Directory) (w : BitVec 32) : Option Nat :=
  (encodeWord numEntries directory (w.setWidth 64)).map Prod.fst

/-- Every possible next word is charged a number of bits, a prefix code has
    codewords of these lengths, and the bits beside the literal ones of a full or
    partial match can name every valid entry. -/
structure NextDecodable (numEntries : Nat) (directory : Directory) : Prop where
  code : ∃ length : BitVec 32 → Nat, (∀ w, chargedBits numEntries directory w = some (length w)) ∧
    kraftSum length ≤ 1 ∧
    ∃ code : BitVec 32 → List Bool, (∀ w, (code w).length = length w) ∧ PrefixFree code
  named : ∃ entries, readEntries directory numEntries = some entries ∧
    entries.countP (·.m_valid) ≤ 2 ^ 6 ∧ entries.countP (·.m_valid) ≤ 2 ^ (16 - 8) ∧
    entries.countP (·.m_valid) ≤ 2 ^ (24 - 16)

/-- The state after `done` words is defined and the next word decodable. -/
def DecodableDuring (numEntries : Nat) (line : CPackLine) (done : Nat) : Prop :=
  ∃ directory, directoryDuring numEntries line done = some directory ∧
    NextDecodable line.numwords directory

theorem cPackWords_take (buffer : List (BitVec 8)) (done : Nat) :
    (((cPackWords buffer).take done).map (·.setWidth 32)).map (·.setWidth 64) =
      (cPackWords buffer).take done := by
  rw [List.map_map]
  refine (List.map_congr_left fun word member => ?_).trans (List.map_id _)
  have narrow := cPackWords_lt (List.mem_of_mem_take member)
  refine BitVec.eq_of_toNat_eq ?_
  simp only [Function.comp_apply, BitVec.toNat_setWidth, id_eq]
  omega

theorem chargedBits_directoryOf {n : Nat} {ds : List (BitVec 32)} (room : ds.length < n)
    (tail : Directory) (w : BitVec 32) :
    chargedBits n (directoryOf n ds tail) w = some (dictBits ds (w.setWidth 64)) := by
  rw [chargedBits, encodeWord_directoryOf room]
  rfl

theorem nextDecodable_directoryOf {n : Nat} {ds : List (BitVec 32)} (room : ds.length < n)
    (separate : Separate ds) (tail : Directory) :
    NextDecodable n (directoryOf n ds tail) ↔ ds.length ≤ 18 := by
  constructor
  · rintro ⟨⟨length, charged, kraft, -⟩, -⟩
    have same : length = fun w => dictBits ds (w.setWidth 64) := by
      funext w
      have charge := charged w
      rw [chargedBits_directoryOf room] at charge
      exact (Option.some.inj charge).symm
    exact (kraftSum_dictBits_iff separate).mp (same ▸ kraft)
  · intro few
    have kraft := (kraftSum_dictBits_iff separate).mpr few
    refine ⟨⟨_, chargedBits_directoryOf room tail, kraft, (exists_prefixFree_iff _).mpr kraft⟩, ?_⟩
    refine ⟨_, readEntries_directoryOf (Nat.le_of_lt room) tail, ?_⟩
    rw [storedEntries_countP]
    omega

theorem directoryDuring_prepared {numEntries : Nat} {line : CPackLine}
    (enough : line.numwords ≤ numEntries) (allocated : numEntries ≤ line.numwords * 8) (done : Nat) :
    ∃ tail, directoryDuring numEntries line done =
      some (directoryOf line.numwords (dictAfter [] ((cPackWords line.bytes).take done)) tail) := by
  have fits : ([] : List (BitVec 32)).length + ((cPackWords line.bytes).take done).length ≤
      line.numwords := by
    rw [List.length_take, cPackWords_length, ← CPackLine.numwords, List.length_nil]
    omega
  simp only [directoryDuring, initializeDic_new, if_pos allocated, directoryOf_split enough,
    encodeWords_directoryOf fits, Option.bind_eq_bind, Option.bind_some]
  exact ⟨_, rfl⟩

theorem decodableDuring_prepared {numEntries : Nat} {line : CPackLine}
    (enough : line.numwords ≤ numEntries) (allocated : numEntries ≤ line.numwords * 8) {done : Nat}
    (inside : done < line.numwords) :
    DecodableDuring numEntries line done ↔
      (longHalves ((cPackWords line.bytes).take done)).card ≤ 18 := by
  obtain ⟨tail, during⟩ := directoryDuring_prepared enough allocated done
  have words := cPackWords_take line.bytes done
  have separate := (Separate.empty.after (((cPackWords line.bytes).take done).map (·.setWidth 32))).1
  have entries := dictAfter_length (((cPackWords line.bytes).take done).map (·.setWidth 32))
  rw [words] at separate entries
  have room : (dictAfter [] ((cPackWords line.bytes).take done)).length < line.numwords := by
    have grows := dictAfter_length_le [] ((cPackWords line.bytes).take done)
    have taken := List.length_take_le done (cPackWords line.bytes)
    simp only [List.length_nil, Nat.zero_add] at grows
    omega
  have next := nextDecodable_directoryOf room separate tail
  rw [entries] at next
  rw [← next, DecodableDuring, during]
  simp

theorem not_decodableDuring_short {numEntries : Nat} {line : CPackLine}
    (short : numEntries < line.numwords) (done : Nat) : ¬ DecodableDuring numEntries line done := by
  rintro ⟨directory, during, ⟨length, charged, -⟩, -⟩
  have allocated : numEntries ≤ line.numwords * 8 := by omega
  simp only [directoryDuring, initializeDic_new, if_pos allocated, Option.bind_eq_bind,
    Option.bind_some] at during
  have narrow (word : BitVec 64) (member : word ∈ (cPackWords line.bytes).take done) :
      word.toNat < 2 ^ 32 := cPackWords_lt (List.mem_of_mem_take member)
  by_cases low : ∀ word ∈ (cPackWords line.bytes).take done, word.toNat < 256
  · rw [encodeWords_lowBytes low] at during
    obtain rfl := Option.some.inj during
    have charge := charged 256
    have stuck := matchDic_unprepared (fun entry => entry == 256#32)
      (line.numwords * 8 - numEntries) short
    rw [chargedBits, encodeWord, if_neg (by decide), if_neg (by decide)] at charge
    simp [matchDicMmmm, stuck] at charge
  · push Not at low
    rw [encodeWords_unprepared short narrow low] at during
    exact absurd during (by simp)

theorem not_decodableDuring_large {numEntries : Nat} {line : CPackLine}
    (large : line.numwords * 8 < numEntries) (done : Nat) :
    ¬ DecodableDuring numEntries line done := by
  rintro ⟨directory, during, -⟩
  simp only [directoryDuring, initializeDic_new, if_neg (Nat.not_le.mpr large)] at during
  exact absurd during (by simp)

/-- The next word of a line is decodable at the bits charged exactly when the
    call cleared all the entries it searches, inside the array, and the words so
    far that are longer than one byte have at most 18 different upper halves. -/
theorem cPack_decodable_iff (line : CPackLine) (numEntries : Nat) (done : Fin line.numwords) :
    DecodableDuring numEntries line done ↔
      (line.numwords ≤ numEntries ∧ numEntries ≤ line.numwords * 8) ∧
        (longHalves ((cPackWords line.bytes).take done)).card ≤ 18 := by
  by_cases enough : line.numwords ≤ numEntries
  · by_cases allocated : numEntries ≤ line.numwords * 8
    · rw [decodableDuring_prepared enough allocated done.isLt]
      simp [enough, allocated]
    · exact iff_of_false (not_decodableDuring_large (by omega) done) fun condition =>
        allocated condition.1.2
  · exact iff_of_false (not_decodableDuring_short (by omega) done) fun condition =>
      enough condition.1.1

/-- The 32 words `0x10000`, `0x20000`, …; none matches another one. -/
def separateLine : CPackLine where
  bytes := (List.range 32).flatMap fun i => [0, 0, BitVec.ofNat 8 (i + 1), 0]
  whole := by simp
  short := by simp

/-- After 19 words of that line the directory holds 19 entries. -/
theorem nineteen_entries_undecodable : ¬ DecodableDuring 32 separateLine 19 := by
  have words : separateLine.numwords = 32 := by simp [CPackLine.numwords, separateLine]
  rw [decodableDuring_prepared (by omega) (by omega) (by omega)]
  decide +kernel

end AesOnGpu.Compression
