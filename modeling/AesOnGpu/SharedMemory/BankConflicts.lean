import AesOnGpu.Coalescing.Disabled

/-! # The bank conflicts of shared memory

The shared-memory case of `warp_inst_t::generate_mem_accesses`. The accesses of a sub-warp are
counted by bank and word in nested maps; the cycles are those of the bank with the most. With
limited broadcast every access counts, but for one word that several threads read.

`none` is a failed assertion. Words are the 32-bit addresses of memory.
-/

namespace AesOnGpu.SharedMemory

open Coalescing

/-- `core_config`, as far as shared memory reads it. -/
structure SharedConfig extends CoreConfig where
  num_shmem_bank : Nat
  shmem_limited_broadcast : Bool
  banks : 0 < num_shmem_bank

/-- A load or store to shared memory. -/
structure SharedInst (warpSize : Nat) where
  m_warp_active_mask : Finset (Fin warpSize)
  memreqaddr : Fin warpSize → Address

/-- `WORD_SIZE`. -/
abbrev WORD_SIZE : Nat := 4

def shmem_bank_func (num_shmem_bank : Nat) (addr : BitVec 32) : Nat :=
  addr.toNat / WORD_SIZE % num_shmem_bank

variable (config : SharedConfig) (inst : SharedInst config.warp_size)

def bankOf (thread : Fin config.warp_size) : Nat :=
  shmem_bank_func config.num_shmem_bank ((inst.memreqaddr thread).setWidth 32)

def wordOf {warpSize : Nat} (inst : SharedInst warpSize) (thread : Fin warpSize) : Nat :=
  (lineSizeBasedTagFunc (inst.memreqaddr thread) (.ofNat 64 WORD_SIZE)).toNat

abbrev AccessSet := Std.TreeMap Nat Nat

abbrev BankAccs := Std.TreeMap Nat AccessSet

def bankAccs : Grouping (Fin config.warp_size) Nat AccessSet where
  key := bankOf config inst
  fresh := ∅
  add := (Grouping.counting (wordOf inst)).insert

/-- The first bank with a word that is accessed more than once, and the first such word. -/
def selectBroadcast (bank_accs : BankAccs) : Option (Nat × Nat) :=
  bank_accs.toList.findSome? fun b =>
    (b.2.toList.find? fun w => w.2 > 1).map fun w => (b.1, w.1)

def mergeBroadcast (broadcast_word bank_accesses : Nat) : List (Nat × Nat) → Option Nat
  | [] => some bank_accesses
  | w :: access_set =>
    if w.1 = broadcast_word then
      if w.2 > 1 ∧ bank_accesses ≥ w.2 - 1 then some (bank_accesses - (w.2 - 1)) else none
    else mergeBroadcast broadcast_word bank_accesses access_set

def bankAccesses (broadcast : Option (Nat × Nat)) (bank : Nat) (access_set : AccessSet) :
    Option Nat :=
  let bank_accesses := (access_set.toList.map Prod.snd).sum
  match broadcast with
  | some (broadcast_bank, broadcast_word) =>
    if broadcast_bank = bank then mergeBroadcast broadcast_word bank_accesses access_set.toList
    else some bank_accesses
  | none => some bank_accesses

def maxLimited (bank_accs : BankAccs) : Option Nat :=
  bank_accs.toList.foldlM (fun max_bank_accesses b => do
    let bank_accesses ← bankAccesses (selectBroadcast bank_accs) b.1 b.2
    return if bank_accesses > max_bank_accesses then bank_accesses else max_bank_accesses) 0

def maxWords (bank_accs : BankAccs) : Nat :=
  bank_accs.toList.foldl (fun max_bank_accesses b => max max_bank_accesses b.2.size) 0

def activeThreads (subwarp : Nat) : List (Fin config.warp_size) :=
  (subwarpThreads config.toCoreConfig subwarp).filter (· ∈ inst.m_warp_active_mask)

def maxBankAccesses (subwarp : Nat) : Option Nat :=
  let bank_accs := (bankAccs config inst).collect (activeThreads config inst subwarp)
  if config.shmem_limited_broadcast then maxLimited bank_accs else some (maxWords bank_accs)

/-- `cycles` of the instruction. -/
def sharedCycles : Option Nat := do
  let total_accesses ← (List.range config.mem_warp_parts).foldlM
    (fun total_accesses subwarp => do
      return total_accesses + (← maxBankAccesses config inst subwarp)) 0
  if total_accesses > 0 ∧ total_accesses ≤ config.warp_size then some total_accesses else none

/-! ## What is counted -/

def wordsIn (threads : List (Fin config.warp_size)) (bank : Nat) : Finset Nat :=
  ((threads.filter fun thread => bankOf config inst thread = bank).map (wordOf inst)).toFinset

def accessesIn (threads : List (Fin config.warp_size)) (merged : Option Nat) (bank : Nat) : Nat :=
  match merged with
  | none => threads.countP fun thread => bankOf config inst thread = bank
  | some word =>
    (threads.countP fun thread => bankOf config inst thread = bank ∧ wordOf inst thread ≠ word) +
      if word / WORD_SIZE % config.num_shmem_bank = bank then 1 else 0

def sharers {warpSize : Nat} (inst : SharedInst warpSize) (threads : List (Fin warpSize))
    (word : Nat) : Nat :=
  threads.countP fun thread => wordOf inst thread = word

/-- The merged word is one that more than one thread accesses, in the first bank that has such
a word and the first of them in it; when there is none, no word is merged. -/
def IsMerged {warpSize : Nat} (num_shmem_bank : Nat) (inst : SharedInst warpSize)
    (threads : List (Fin warpSize)) : Option Nat → Prop
  | none => ∀ word, sharers inst threads word ≤ 1
  | some word => 1 < sharers inst threads word ∧ ∀ other, 1 < sharers inst threads other →
      word / WORD_SIZE % num_shmem_bank < other / WORD_SIZE % num_shmem_bank ∨
        word / WORD_SIZE % num_shmem_bank = other / WORD_SIZE % num_shmem_bank ∧ word ≤ other

def Charged (threads : List (Fin config.warp_size)) (cycles : Nat) : Prop :=
  if config.shmem_limited_broadcast then
    ∃ merged, IsMerged config.num_shmem_bank inst threads merged ∧
      cycles = (Finset.range config.num_shmem_bank).sup (accessesIn config inst threads merged)
  else
    cycles = (Finset.range config.num_shmem_bank).sup fun bank =>
      (wordsIn config inst threads bank).card

/-! ## Banks and words -/

variable {config inst} {threads : List (Fin config.warp_size)}

theorem wordOf_toNat {warpSize : Nat} (inst : SharedInst warpSize) (thread : Fin warpSize) :
    wordOf inst thread = (inst.memreqaddr thread).toNat / 4 * 4 % 2 ^ 32 := by
  rw [wordOf, lineSizeBasedTagFunc, BitVec.toNat_setWidth, BitVec.toNat_and]
  congr 1
  exact Bits.and_high_mask (k := 62) (s := 2) (inst.memreqaddr thread).isLt

theorem bankOf_eq (thread : Fin config.warp_size) :
    bankOf config inst thread = wordOf inst thread / WORD_SIZE % config.num_shmem_bank := by
  have inWord : (inst.memreqaddr thread).toNat % 2 ^ 32 / 4 =
      (inst.memreqaddr thread).toNat / 4 * 4 % 2 ^ 32 / 4 := by omega
  rw [bankOf, shmem_bank_func, wordOf_toNat, BitVec.toNat_setWidth, WORD_SIZE, inWord]

theorem mem_bankAccs {bank : Nat} {access_set : AccessSet} :
    (bank, access_set) ∈ ((bankAccs config inst).collect threads).toList ↔
      (∃ thread ∈ threads, bankOf config inst thread = bank) ∧
        access_set = (Grouping.counting (wordOf inst)).collect
          (threads.filter fun thread => bankOf config inst thread = bank) :=
  (bankAccs config inst).mem_toList_collect

theorem count_word (word : Nat) :
    ((threads.filter fun thread => bankOf config inst thread =
      word / WORD_SIZE % config.num_shmem_bank).map (wordOf inst)).count word =
        sharers inst threads word := by
  rw [List.count_eq_countP, List.countP_map, List.countP_filter, sharers]
  apply List.countP_congr
  intro thread _
  simp only [Function.comp_apply, Bool.and_eq_true, beq_iff_eq, decide_eq_true_eq]
  constructor
  · exact fun both => both.1
  · intro isWord
    exact ⟨isWord, by rw [bankOf_eq, isWord]⟩

theorem mem_access_set {bank word n : Nat} :
    (word, n) ∈ ((Grouping.counting (wordOf inst)).collect
        (threads.filter fun thread => bankOf config inst thread = bank)).toList ↔
      0 < n ∧ n = sharers inst threads word ∧ word / WORD_SIZE % config.num_shmem_bank = bank := by
  rw [Grouping.mem_toList_counting]
  constructor
  · rintro ⟨positive, rfl⟩
    obtain ⟨thread, member, rfl⟩ := List.mem_map.mp (List.count_pos_iff.mp positive)
    obtain ⟨_, isBank⟩ := List.mem_filter.mp member
    have isBank : bankOf config inst thread = bank := of_decide_eq_true isBank
    rw [bankOf_eq] at isBank
    exact ⟨positive, isBank ▸ count_word (wordOf inst thread), isBank⟩
  · rintro ⟨positive, rfl, rfl⟩
    exact ⟨positive, (count_word word).symm⟩

/-! ## The largest of the banks -/

theorem foldl_max_eq_sup {β : Type} {entries : List (Nat × β)} {accesses : Nat × β → Nat}
    {spec : Nat → Nat} {banks : Nat}
    (each : ∀ b ∈ entries, b.1 < banks ∧ accesses b = spec b.1)
    (rest : ∀ bank < banks, (∀ b ∈ entries, b.1 ≠ bank) → spec bank = 0) :
    entries.foldl (fun most b => max most (accesses b)) 0 = (Finset.range banks).sup spec := by
  have folded (most bound : Nat) (part : List (Nat × β)) :
      part.foldl (fun most b => max most (accesses b)) most ≤ bound ↔
        most ≤ bound ∧ ∀ b ∈ part, accesses b ≤ bound := by
    induction part generalizing most with
    | nil => simp
    | cons b part ih =>
      rw [List.foldl_cons, ih, max_le_iff, List.forall_mem_cons, and_assoc]
  apply eq_of_forall_ge_iff
  intro bound
  rw [folded, Finset.sup_le_iff]
  constructor
  · rintro ⟨_, all⟩ bank inRange
    by_cases accessed : ∃ b ∈ entries, b.1 = bank
    · obtain ⟨b, member, rfl⟩ := accessed
      exact (each b member).2 ▸ all b member
    · push Not at accessed
      rw [rest bank (Finset.mem_range.mp inRange) accessed]
      exact Nat.zero_le _
  · intro all
    refine ⟨Nat.zero_le _, fun b member => ?_⟩
    rw [(each b member).2]
    exact all b.1 (Finset.mem_range.mpr (each b member).1)

theorem bank_lt {bank : Nat} {access_set : AccessSet}
    (member : (bank, access_set) ∈ ((bankAccs config inst).collect threads).toList) :
    bank < config.num_shmem_bank := by
  obtain ⟨⟨thread, _, rfl⟩, _⟩ := mem_bankAccs.mp member
  exact Nat.mod_lt _ config.banks

theorem no_thread {bank : Nat}
    (none : ∀ b ∈ ((bankAccs config inst).collect threads).toList, b.1 ≠ bank) :
    ∀ thread ∈ threads, bankOf config inst thread ≠ bank := by
  intro thread member isBank
  exact none (bank, _) (mem_bankAccs.mpr ⟨⟨thread, member, isBank⟩, rfl⟩) rfl

theorem maxWords_eq :
    maxWords ((bankAccs config inst).collect threads) =
      (Finset.range config.num_shmem_bank).sup fun bank =>
        (wordsIn config inst threads bank).card := by
  apply foldl_max_eq_sup
  · rintro ⟨bank, access_set⟩ member
    refine ⟨bank_lt member, ?_⟩
    obtain ⟨_, rfl⟩ := mem_bankAccs.mp member
    show Std.TreeMap.size _ = _
    rw [← Std.TreeMap.length_toList, Grouping.length_toList_collect]
    rfl
  · intro bank _ none
    have empty : threads.filter (fun thread => bankOf config inst thread = bank) = [] :=
      List.filter_eq_nil_iff.mpr fun thread member => by simpa using no_thread none thread member
    simp [wordsIn, empty]

/-! ## The broadcast word -/

theorem selectBroadcast_none
    (nothing : selectBroadcast ((bankAccs config inst).collect threads) = none) :
    IsMerged config.num_shmem_bank inst threads none := by
  intro word
  by_contra several
  have shared : 1 < sharers inst threads word := Nat.lt_of_not_le several
  obtain ⟨thread, member, isWord⟩ := List.countP_pos_iff.mp (Nat.zero_lt_of_lt shared)
  have isWord : wordOf inst thread = word := of_decide_eq_true isWord
  have isBank : bankOf config inst thread = word / WORD_SIZE % config.num_shmem_bank := by
    rw [bankOf_eq, isWord]
  have entry := mem_bankAccs.mpr ⟨⟨thread, member, isBank⟩, rfl⟩
  have noWord := List.findSome?_eq_none_iff.mp nothing _ entry
  rw [Option.map_eq_none_iff, List.find?_eq_none] at noWord
  have counted := mem_access_set.mpr ⟨Nat.zero_lt_of_lt shared, rfl, rfl⟩
  exact noWord _ counted (decide_eq_true shared)

theorem selectBroadcast_some {bank word : Nat}
    (found : selectBroadcast ((bankAccs config inst).collect threads) = some (bank, word)) :
    bank = word / WORD_SIZE % config.num_shmem_bank ∧
      IsMerged config.num_shmem_bank inst threads (some word) := by
  obtain ⟨earlier, ⟨bank', access_set⟩, later, split, isFound, notEarlier⟩ :=
    List.findSome?_eq_some_iff.mp found
  simp only [Option.map_eq_some_iff, Prod.mk.injEq] at isFound
  obtain ⟨⟨word', n⟩, first, rfl, rfl⟩ := isFound
  obtain ⟨several, before, after, splitSet, notBefore⟩ := List.find?_eq_some_iff_append.mp first
  have several : 1 < n := of_decide_eq_true several
  have entry : (bank', access_set) ∈ ((bankAccs config inst).collect threads).toList := by
    rw [split]
    simp
  obtain ⟨_, rfl⟩ := mem_bankAccs.mp entry
  have counted : (word', n) ∈ ((Grouping.counting (wordOf inst)).collect
      (threads.filter fun thread => bankOf config inst thread = bank')).toList := by
    rw [splitSet]
    simp
  obtain ⟨_, rfl, isBank⟩ := mem_access_set.mp counted
  refine ⟨isBank.symm, several, fun other shared => ?_⟩
  -- the banks and the words of a bank are visited in ascending order
  have banksOrdered := ((bankAccs config inst).collect threads).ordered_keys_toList
  have wordsOrdered := ((Grouping.counting (wordOf inst)).collect
    (threads.filter fun thread => bankOf config inst thread = bank')).ordered_keys_toList
  obtain ⟨thread, member, isWord⟩ := List.countP_pos_iff.mp (Nat.zero_lt_of_lt shared)
  have isWord : wordOf inst thread = other := of_decide_eq_true isWord
  have otherBank : bankOf config inst thread = other / WORD_SIZE % config.num_shmem_bank := by
    rw [bankOf_eq, isWord]
  have otherEntry := mem_bankAccs.mpr ⟨⟨thread, member, otherBank⟩, rfl⟩
  have otherCounted := mem_access_set.mpr
    (⟨Nat.zero_lt_of_lt shared, rfl, rfl⟩ : 0 < sharers inst threads other ∧ _ ∧
      other / WORD_SIZE % config.num_shmem_bank = other / WORD_SIZE % config.num_shmem_bank)
  rw [split, List.mem_append, List.mem_cons] at otherEntry
  rcases otherEntry with isEarlier | isSame | isLater
  · have noWord := notEarlier _ isEarlier
    rw [Option.map_eq_none_iff, List.find?_eq_none] at noWord
    exact absurd (decide_eq_true shared) (noWord _ otherCounted)
  · have sameBank : other / WORD_SIZE % config.num_shmem_bank = bank' :=
      congrArg Prod.fst isSame
    refine Or.inr ⟨isBank.trans sameBank.symm, ?_⟩
    rw [sameBank, splitSet, List.mem_append, List.mem_cons] at otherCounted
    rw [splitSet] at wordsOrdered
    rcases otherCounted with isBefore | isSame | isAfter
    · have notShared := notBefore _ isBefore
      simp [shared] at notShared
    · exact (congrArg Prod.fst isSame).ge
    · have ordered := List.rel_of_pairwise_cons (List.pairwise_append.mp wordsOrdered).2.1 isAfter
      exact (Nat.compare_eq_lt.mp ordered).le
  · rw [split] at banksOrdered
    have ordered := List.rel_of_pairwise_cons (List.pairwise_append.mp banksOrdered).2.1 isLater
    rw [isBank]
    exact Or.inl (Nat.compare_eq_lt.mp ordered)

/-! ## The accesses of a bank -/

theorem mergeBroadcast_eq {word n total : Nat} {access_set : List (Nat × Nat)}
    (distinct : (access_set.map Prod.fst).Nodup) (member : (word, n) ∈ access_set)
    (several : 1 < n) (enough : n ≤ total) :
    mergeBroadcast word total access_set = some (total - (n - 1)) := by
  induction access_set with
  | nil => simp at member
  | cons w access_set ih =>
    rw [List.map_cons, List.nodup_cons] at distinct
    rw [mergeBroadcast]
    cases List.mem_cons.mp member with
    | inl here =>
      rw [← here, if_pos rfl, if_pos ⟨several, by omega⟩]
    | inr later =>
      have different : w.1 ≠ word := by
        intro same
        exact distinct.1 (same ▸ List.mem_map_of_mem later)
      rw [if_neg different]
      exact ih distinct.2 later

theorem total_accesses (bank : Nat) :
    (((Grouping.counting (wordOf inst)).collect
        (threads.filter fun thread => bankOf config inst thread = bank)).toList.map Prod.snd).sum =
      threads.countP fun thread => bankOf config inst thread = bank := by
  rw [Grouping.sum_toList_counting, List.countP_eq_length_filter]

theorem countP_bank_split (word : Nat) :
    (threads.countP fun thread => bankOf config inst thread =
        word / WORD_SIZE % config.num_shmem_bank) =
      (threads.countP fun thread => bankOf config inst thread =
        word / WORD_SIZE % config.num_shmem_bank ∧ wordOf inst thread ≠ word) +
        sharers inst threads word := by
  rw [sharers]
  induction threads with
  | nil => rfl
  | cons thread threads ih =>
    rw [List.countP_cons, List.countP_cons, List.countP_cons, ih]
    by_cases isWord : wordOf inst thread = word
    · have isBank : bankOf config inst thread = word / WORD_SIZE % config.num_shmem_bank := by
        rw [bankOf_eq, isWord]
      simp only [isWord, isBank, ne_eq, not_true_eq_false, and_false, decide_true, decide_false,
        Bool.false_eq_true, if_true, if_false]
      omega
    · simp only [isWord, ne_eq, not_false_eq_true, and_true, decide_false, Bool.false_eq_true,
        if_false]
      omega

theorem countP_other_bank {word bank : Nat}
    (other : word / WORD_SIZE % config.num_shmem_bank ≠ bank) :
    (threads.countP fun thread => bankOf config inst thread = bank ∧ wordOf inst thread ≠ word) =
      threads.countP fun thread => bankOf config inst thread = bank := by
  apply List.countP_congr
  intro thread _
  simp only [decide_eq_true_eq, and_iff_left_iff_imp]
  intro isBank isWord
  rw [bankOf_eq, isWord] at isBank
  exact other isBank

def mergedWord (bank_accs : BankAccs) : Option Nat :=
  (selectBroadcast bank_accs).map Prod.snd

theorem isMerged_mergedWord :
    IsMerged config.num_shmem_bank inst threads
      (mergedWord ((bankAccs config inst).collect threads)) := by
  cases found : selectBroadcast ((bankAccs config inst).collect threads) with
  | none =>
    rw [mergedWord, found]
    exact selectBroadcast_none found
  | some place =>
    rw [mergedWord, found]
    exact (selectBroadcast_some found).2

theorem bankAccesses_eq {bank : Nat} {access_set : AccessSet}
    (member : (bank, access_set) ∈ ((bankAccs config inst).collect threads).toList) :
    bankAccesses (selectBroadcast ((bankAccs config inst).collect threads)) bank access_set =
      some (accessesIn config inst threads
        (mergedWord ((bankAccs config inst).collect threads)) bank) := by
  obtain ⟨_, rfl⟩ := mem_bankAccs.mp member
  rw [mergedWord]
  cases found : selectBroadcast ((bankAccs config inst).collect threads) with
  | none => exact congrArg some (total_accesses bank)
  | some place =>
    obtain ⟨broadcast_bank, word⟩ := place
    obtain ⟨rfl, several, _⟩ := selectBroadcast_some found
    simp only [bankAccesses, total_accesses, accessesIn, Option.map_some]
    by_cases here : word / WORD_SIZE % config.num_shmem_bank = bank
    · subst here
      have counted := mem_access_set.mpr
        (⟨Nat.zero_lt_of_lt several, rfl, rfl⟩ : 0 < sharers inst threads word ∧ _ ∧
          word / WORD_SIZE % config.num_shmem_bank = word / WORD_SIZE % config.num_shmem_bank)
      have split := @countP_bank_split config inst threads word
      rw [if_pos rfl, if_pos rfl, mergeBroadcast_eq (Grouping.nodup_keys_collect _ _) counted
        several (by omega)]
      congr 1
      omega
    · rw [if_neg here, if_neg here, countP_other_bank here, Nat.add_zero]

/-! ## A sub-warp -/

theorem maxLimited_eq :
    maxLimited ((bankAccs config inst).collect threads) =
      some ((Finset.range config.num_shmem_bank).sup (accessesIn config inst threads
        (mergedWord ((bankAccs config inst).collect threads)))) := by
  have runs : maxLimited ((bankAccs config inst).collect threads) =
      some (((bankAccs config inst).collect threads).toList.foldl (fun most b =>
        max most (accessesIn config inst threads
          (mergedWord ((bankAccs config inst).collect threads)) b.1)) 0) := by
    apply List.foldlM_eq_some
    rintro ⟨bank, access_set⟩ member most
    rw [bankAccesses_eq member, Option.bind_eq_bind, Option.bind_some]
    show some (if _ > most then _ else most) = some (max most _)
    congr 1
    split
    · exact (max_eq_right (Nat.le_of_lt ‹_›)).symm
    · exact (max_eq_left (Nat.le_of_not_lt ‹_›)).symm
  rw [runs]
  congr 1
  apply foldl_max_eq_sup
  · rintro ⟨bank, access_set⟩ member
    exact ⟨bank_lt member, rfl⟩
  · intro bank inside none
    have noThread := no_thread none
    have noAccess : threads.countP (fun thread => bankOf config inst thread = bank) = 0 :=
      List.countP_eq_zero.mpr fun thread member => by simpa using noThread thread member
    cases merged : mergedWord ((bankAccs config inst).collect threads) with
    | none => exact noAccess
    | some word =>
      have isMerged := @isMerged_mergedWord config inst threads
      rw [merged] at isMerged
      obtain ⟨thread, member, isWord⟩ :=
        List.countP_pos_iff.mp (Nat.zero_lt_of_lt isMerged.1)
      have isWord : wordOf inst thread = word := of_decide_eq_true isWord
      have other : word / WORD_SIZE % config.num_shmem_bank ≠ bank := by
        rw [← isWord, ← bankOf_eq]
        exact noThread thread member
      rw [accessesIn, countP_other_bank other, noAccess, if_neg other]

theorem maxBankAccesses_charged (subwarp : Nat) :
    ∃ cycles, maxBankAccesses config inst subwarp = some cycles ∧
      Charged config inst (activeThreads config inst subwarp) cycles := by
  unfold maxBankAccesses Charged
  cases config.shmem_limited_broadcast with
  | true =>
    simp only [if_true, maxLimited_eq]
    exact ⟨_, rfl, _, isMerged_mergedWord, rfl⟩
  | false =>
    simp only [Bool.false_eq_true, if_false, maxWords_eq]
    exact ⟨_, rfl, rfl⟩

/-! ## Bounds -/

theorem card_wordsIn_le (bank : Nat) : (wordsIn config inst threads bank).card ≤ threads.length :=
  calc (wordsIn config inst threads bank).card
    _ ≤ ((threads.filter fun thread => bankOf config inst thread = bank).map
          (wordOf inst)).length := List.toFinset_card_le _
    _ = (threads.filter fun thread => bankOf config inst thread = bank).length :=
        List.length_map _
    _ ≤ threads.length := List.length_filter_le _ _

theorem accessesIn_le {merged : Option Nat}
    (isMerged : IsMerged config.num_shmem_bank inst threads merged) (bank : Nat) :
    accessesIn config inst threads merged bank ≤ threads.length := by
  cases merged with
  | none => exact List.countP_le_length
  | some word =>
    rw [accessesIn]
    by_cases here : word / WORD_SIZE % config.num_shmem_bank = bank
    · subst here
      have several := isMerged.1
      have split := @countP_bank_split config inst threads word
      have bound : (threads.countP fun thread => bankOf config inst thread =
        word / WORD_SIZE % config.num_shmem_bank) ≤ threads.length := List.countP_le_length
      rw [if_pos rfl]
      omega
    · rw [if_neg here, Nat.add_zero]
      exact List.countP_le_length

theorem accessesIn_pos {merged : Option Nat} {thread : Fin config.warp_size}
    (member : thread ∈ threads) :
    0 < accessesIn config inst threads merged (bankOf config inst thread) := by
  cases merged with
  | none => exact List.countP_pos_iff.mpr ⟨thread, member, decide_eq_true rfl⟩
  | some word =>
    rw [accessesIn]
    by_cases isWord : wordOf inst thread = word
    · rw [if_pos (by rw [bankOf_eq, isWord])]
      exact Nat.succ_pos _
    · exact Nat.add_pos_left
        (List.countP_pos_iff.mpr ⟨thread, member, decide_eq_true ⟨rfl, isWord⟩⟩) _

theorem wordsIn_pos {thread : Fin config.warp_size} (member : thread ∈ threads) :
    0 < (wordsIn config inst threads (bankOf config inst thread)).card := by
  rw [Finset.card_pos]
  refine ⟨wordOf inst thread, List.mem_toFinset.mpr (List.mem_map_of_mem ?_)⟩
  exact List.mem_filter.mpr ⟨member, decide_eq_true rfl⟩

theorem Charged.le {cycles : Nat} (charged : Charged config inst threads cycles) :
    cycles ≤ threads.length := by
  unfold Charged at charged
  cases limited : config.shmem_limited_broadcast with
  | true =>
    rw [limited, if_pos rfl] at charged
    obtain ⟨merged, isMerged, rfl⟩ := charged
    exact Finset.sup_le fun bank _ => accessesIn_le isMerged bank
  | false =>
    rw [limited, if_neg Bool.false_ne_true] at charged
    rw [charged]
    exact Finset.sup_le fun bank _ => card_wordsIn_le bank

theorem Charged.pos {cycles : Nat} (charged : Charged config inst threads cycles)
    {thread : Fin config.warp_size} (member : thread ∈ threads) : 0 < cycles := by
  have inRange : bankOf config inst thread ∈ Finset.range config.num_shmem_bank :=
    Finset.mem_range.mpr (Nat.mod_lt _ config.banks)
  unfold Charged at charged
  cases limited : config.shmem_limited_broadcast with
  | true =>
    rw [limited, if_pos rfl] at charged
    obtain ⟨merged, _, rfl⟩ := charged
    calc 0
      _ < accessesIn config inst threads merged (bankOf config inst thread) :=
          accessesIn_pos member
      _ ≤ _ := Finset.le_sup inRange
  | false =>
    rw [limited, if_neg Bool.false_ne_true] at charged
    rw [charged]
    calc 0
      _ < (wordsIn config inst threads (bankOf config inst thread)).card := wordsIn_pos member
      _ ≤ _ := Finset.le_sup (f := fun bank => (wordsIn config inst threads bank).card) inRange

/-! ## The instruction -/

theorem foldl_add_eq_sum (charge : Nat → Nat) (parts : Nat) :
    (List.range parts).foldl (fun total subwarp => total + charge subwarp) 0 =
      ∑ subwarp ∈ Finset.range parts, charge subwarp := by
  induction parts with
  | zero => rfl
  | succ parts ih =>
    rw [List.range_succ, List.foldl_append, ih, Finset.sum_range_succ]
    rfl

theorem activeThreads_flatMap :
    (List.range config.mem_warp_parts).flatMap (activeThreads config inst) =
      ((List.finRange config.warp_size).filter fun thread =>
        thread.val < config.warp_size / config.mem_warp_parts * config.mem_warp_parts).filter
      (· ∈ inst.m_warp_active_mask) := by
  rw [← subwarpThreads_flatMap, List.filter_flatMap]
  rfl

theorem sum_activeThreads_le :
    (∑ subwarp ∈ Finset.range config.mem_warp_parts,
      (activeThreads config inst subwarp).length) ≤ inst.m_warp_active_mask.card := by
  have count : ((List.range config.mem_warp_parts).flatMap (activeThreads config inst)).length =
      ∑ subwarp ∈ Finset.range config.mem_warp_parts,
        (activeThreads config inst subwarp).length := by
    rw [List.length_flatMap]
    exact (Multiset.sum_coe _).symm
  rw [← count, activeThreads_flatMap, ← List.toFinset_card_of_nodup
    (((List.nodup_finRange _).filter _).filter _)]
  apply Finset.card_le_card
  intro thread member
  exact of_decide_eq_true (List.mem_filter.mp (List.mem_toFinset.mp member)).2

/-- The cycles are the sum over the sub-warps of what they are to be charged. -/
theorem shared_cycles_charged
    (active : ∃ thread ∈ inst.m_warp_active_mask,
      thread.val < config.warp_size / config.mem_warp_parts * config.mem_warp_parts) :
    ∃ charge : Nat → Nat,
      (∀ subwarp < config.mem_warp_parts,
        Charged config inst (activeThreads config inst subwarp) (charge subwarp)) ∧
      sharedCycles config inst =
        some (∑ subwarp ∈ Finset.range config.mem_warp_parts, charge subwarp) ∧
      1 ≤ ∑ subwarp ∈ Finset.range config.mem_warp_parts, charge subwarp ∧
      ∑ subwarp ∈ Finset.range config.mem_warp_parts, charge subwarp ≤
        inst.m_warp_active_mask.card := by
  choose charge runs charged using @maxBankAccesses_charged config inst
  have most : ∑ subwarp ∈ Finset.range config.mem_warp_parts, charge subwarp ≤
      inst.m_warp_active_mask.card :=
    calc ∑ subwarp ∈ Finset.range config.mem_warp_parts, charge subwarp
      _ ≤ ∑ subwarp ∈ Finset.range config.mem_warp_parts,
            (activeThreads config inst subwarp).length :=
          Finset.sum_le_sum fun subwarp _ => (charged subwarp).le
      _ ≤ inst.m_warp_active_mask.card := sum_activeThreads_le
  have least : 1 ≤ ∑ subwarp ∈ Finset.range config.mem_warp_parts, charge subwarp := by
    obtain ⟨thread, isActive, inside⟩ := active
    have covered : thread ∈
        (List.range config.mem_warp_parts).flatMap (activeThreads config inst) := by
      rw [activeThreads_flatMap, List.mem_filter, List.mem_filter]
      exact ⟨⟨List.mem_finRange thread, decide_eq_true inside⟩, decide_eq_true isActive⟩
    obtain ⟨subwarp, inRange, member⟩ := List.mem_flatMap.mp covered
    calc 1
      _ ≤ charge subwarp := (charged subwarp).pos member
      _ ≤ _ := Finset.single_le_sum (f := charge) (fun _ _ => Nat.zero_le _)
          (Finset.mem_range.mpr (List.mem_range.mp inRange))
  refine ⟨charge, fun subwarp _ => charged subwarp, ?_, least, most⟩
  have total : (List.range config.mem_warp_parts).foldlM (fun total_accesses subwarp => do
      return total_accesses + (← maxBankAccesses config inst subwarp)) 0 =
        some (∑ subwarp ∈ Finset.range config.mem_warp_parts, charge subwarp) := by
    rw [← foldl_add_eq_sum]
    apply List.foldlM_eq_some
    intro subwarp _ total_accesses
    rw [runs]
    rfl
  have inWarp : inst.m_warp_active_mask.card ≤ config.warp_size :=
    (Finset.card_le_univ _).trans_eq (Fintype.card_fin _)
  rw [sharedCycles, total, Option.bind_eq_bind, Option.bind_some,
    if_pos ⟨least, most.trans inWarp⟩]

def fourThreads (mem_warp_parts : Nat) (split : 0 < mem_warp_parts) : SharedConfig :=
  { warp_size := 4, mem_warp_parts, coal_disabled := false, coal_disabled_dyn := false,
    coal_line_num := 0, fits := by decide, split, num_shmem_bank := 2,
    shmem_limited_broadcast := true, banks := Nat.two_pos }

theorem shared_cycles_charged_broadcast :
    ∃ charge : Nat → Nat,
      (∀ subwarp < 2, Charged (fourThreads 2 (by decide)) ⟨Finset.univ, ![8, 8, 0, 16]⟩
        (activeThreads (fourThreads 2 (by decide)) ⟨Finset.univ, ![8, 8, 0, 16]⟩ subwarp)
        (charge subwarp)) ∧
      sharedCycles (fourThreads 2 (by decide)) ⟨Finset.univ, ![8, 8, 0, 16]⟩ =
        some (∑ subwarp ∈ Finset.range 2, charge subwarp) ∧
      1 ≤ ∑ subwarp ∈ Finset.range 2, charge subwarp ∧
      ∑ subwarp ∈ Finset.range 2, charge subwarp ≤ (Finset.univ : Finset (Fin 4)).card :=
  @shared_cycles_charged (fourThreads 2 (by decide)) ⟨Finset.univ, ![8, 8, 0, 16]⟩
    ⟨(0 : Fin 4), Finset.mem_univ _, by decide⟩

/-- The last of four threads is in none of three sub-warps, which fails the assertion; and two
words of one bank whose addresses differ by `2 ^ 32` are charged as one. -/
theorem shared_cycles_lose_threads :
    sharedCycles (fourThreads 3 (by decide)) (⟨{3}, fun _ => 0⟩ : SharedInst 4) = none ∧
    sharedCycles (fourThreads 1 (by decide))
      (⟨{0, 1}, ![0, 2 ^ 32, 0, 0]⟩ : SharedInst 4) = some 1 ∧
    2 ^ 32 / WORD_SIZE ≠ 0 / WORD_SIZE ∧ 2 ^ 32 / WORD_SIZE % 2 = 0 / WORD_SIZE % 2 := by
  refine ⟨?_, ?_, by decide, by decide⟩
  · exact Option.isNone_iff_eq_none.mp (by decide)
  · decide

end AesOnGpu.SharedMemory
