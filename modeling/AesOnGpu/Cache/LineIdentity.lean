import AesOnGpu.Lib.MemLine
import AesOnGpu.Cache.Config
import AesOnGpu.Coalescing.CachedBlocks
import AesOnGpu.AddressDecoding.ChipField
import AesOnGpu.AddressDecoding.ChipRemainder

/-! # Lines and their tags

The tag and the block address of an address, and the set that a cache looks into.  The function
`set_index` is virtual: that of a data cache of the first level may hash, that of the second
level goes by the address in the partition.  `none` is a failed assertion or an abort.
-/

namespace AesOnGpu.Cache

open AddressDecoding

inductive SetIndexFunction where
  | FERMI_HASH_SET_FUNCTION
  | LINEAR_SET_FUNCTION
  | CUSTOM_SET_FUNCTION
  deriving DecidableEq

inductive ConfigClass where
  | cache_config (m_set_index_function : SetIndexFunction)
  | l1d_cache_config (m_set_index_function : SetIndexFunction)
  | l2_cache_config (m_address_mapping : Option Translation)

/-- The numbers that a set index is made from; both are `unsigned`. -/
structure SetGeometry where
  m_nset : BitVec 32
  m_line_sz : BitVec 32

namespace SetGeometry

variable (g : SetGeometry)

def m_line_sz_log2 : Nat := LOGB2_32 g.m_line_sz

def linearIndex (addr : Address) : BitVec 32 :=
  ((addr >>> g.m_line_sz_log2) &&& (g.m_nset - 1).setWidth 64).setWidth 32

/-- The hash, for 32 or 64 sets. -/
def hashIndex (addr : Address) : BitVec 32 :=
  let lower_xor : BitVec 32 := ((addr >>> g.m_line_sz_log2) &&& 0x1F).setWidth 32
  -- bits 13, 14, 15, 17 and 19
  let upper_xor : BitVec 32 := ((addr &&& 0xE000) >>> 13).setWidth 32 |||
    ((addr &&& 0x20000) >>> 14).setWidth 32 ||| ((addr &&& 0x80000) >>> 15).setWidth 32
  let set_index := lower_xor ^^^ upper_xor
  if g.m_nset = 64 then set_index ||| ((addr &&& 0x1000) >>> 7).setWidth 32 else set_index

/-- `set_index` of each class. -/
def set_index (addr : Address) : ConfigClass → Option (BitVec 32)
  | .cache_config .LINEAR_SET_FUNCTION => some (g.linearIndex addr)
  | .cache_config _ => none
  | .l1d_cache_config m_set_index_function => do
    let set_index ← match m_set_index_function with
      | .FERMI_HASH_SET_FUNCTION =>
        if g.m_nset = 32 ∨ g.m_nset = 64 then some (g.hashIndex addr) else none
      | .CUSTOM_SET_FUNCTION => some g.m_nset
      | .LINEAR_SET_FUNCTION => some (g.linearIndex addr)
    if set_index < g.m_nset then some set_index else none
  | .l2_cache_config none => some (g.linearIndex addr)
  | .l2_cache_config (some m_address_mapping) => do
    let part_addr ← m_address_mapping.partition_address addr
    return g.linearIndex part_addr

end SetGeometry

namespace CacheConfig

variable (config : CacheConfig)

def setGeometry : SetGeometry := ⟨.ofNat 32 config.m_nset, config.m_line_sz⟩

def SameLine (a b : Address) : Prop := MemLine.Same config.m_line_sz.toNat a.toNat b.toNat

def LineStarts (a first : Nat) : Prop := MemLine.Starts config.m_line_sz.toNat a first

structure LineIdentity (cls : ConfigClass) (a b : Address) : Prop where
  tag_iff : config.tag a = config.tag b ↔ config.SameLine a b
  block_addr : config.LineStarts a.toNat (config.blockAddr a).toNat ∧
    config.LineStarts b.toNat (config.blockAddr b).toNat
  set_index : config.SameLine a b → ∃ set, config.setGeometry.set_index a cls = some set ∧
    config.setGeometry.set_index b cls = some set
  tag_func_iff : Coalescing.lineSizeBasedTagFunc a (config.m_line_sz.setWidth 64) =
    Coalescing.lineSizeBasedTagFunc b (config.m_line_sz.setWidth 64) ↔ config.SameLine a b
  tag_func : config.LineStarts a.toNat
      (Coalescing.lineSizeBasedTagFunc a (config.m_line_sz.setWidth 64)).toNat ∧
    config.LineStarts b.toNat
      (Coalescing.lineSizeBasedTagFunc b (config.m_line_sz.setWidth 64)).toNat
  block_address_iff : Coalescing.blockAddress config.m_line_sz a =
    Coalescing.blockAddress config.m_line_sz b ↔ config.SameLine a b
  block_address : config.LineStarts a.toNat (Coalescing.blockAddress config.m_line_sz a).toNat ∧
    config.LineStarts b.toNat (Coalescing.blockAddress config.m_line_sz b).toNat

/-- The address within its partition exists. -/
def HasPartition (t : Translation) : Prop :=
  t.gap = 0 ∨ 0 ≤ t.ADDR_CHIP_S ∧ t.ADDR_CHIP_S < 31 ∧ t.m_n_channel ≠ 0

def IndexesLines : ConfigClass → Prop
  | .cache_config m_set_index_function => m_set_index_function = .LINEAR_SET_FUNCTION
  | .l1d_cache_config .LINEAR_SET_FUNCTION => config.setGeometry.m_nset ≠ 0
  | .l1d_cache_config .FERMI_HASH_SET_FUNCTION =>
    config.setGeometry.m_nset = 32 ∧ config.m_line_sz.toNat ≤ 2 ^ 13 ∨
      config.setGeometry.m_nset = 64 ∧ config.m_line_sz.toNat ≤ 2 ^ 12
  | .l1d_cache_config .CUSTOM_SET_FUNCTION => False
  | .l2_cache_config none => True
  | .l2_cache_config (some m_address_mapping) => HasPartition m_address_mapping

/-- A geometry whose tags name lines below 2^32. -/
def NamesLines (cls : ConfigClass) : Prop :=
  (∃ k, config.m_line_sz.toNat = 2 ^ k) ∧ config.IndexesLines cls

/-! ## Tags -/

section Tags

variable {config}

theorem tagFunc_toNat (a : Address) :
    (Coalescing.lineSizeBasedTagFunc a (config.m_line_sz.setWidth 64)).toNat =
      (config.blockAddr a).toNat := by
  have same : Coalescing.lineSizeBasedTagFunc a (config.m_line_sz.setWidth 64) =
      (config.blockAddr a).setWidth 32 := by
    have pred : (config.m_line_sz.setWidth 64 - 1).setWidth 32 = config.m_line_sz - 1 := by
      bv_omega
    rw [Coalescing.lineSizeBasedTagFunc, blockAddr, BitVec.setWidth_and, BitVec.setWidth_and,
      BitVec.setWidth_not (by decide), pred, BitVec.setWidth_setWidth_of_le _ (by decide),
      BitVec.setWidth_eq]
  have narrow : (config.blockAddr a).toNat < 2 ^ 32 := by
    rw [blockAddr, BitVec.toNat_and, BitVec.toNat_setWidth_of_le (by decide)]
    exact Nat.lt_of_le_of_lt Nat.and_le_right (BitVec.isLt _)
  rw [same, BitVec.toNat_setWidth, Nat.mod_eq_of_lt narrow]

theorem blockAddress_eq (a : Address) :
    Coalescing.blockAddress config.m_line_sz a = config.blockAddr a := by
  apply BitVec.eq_of_toNat_eq
  rw [Coalescing.blockAddress, BitVec.toNat_setWidth_of_le (by decide), tagFunc_toNat]

theorem lineIdentity_iff {cls : ConfigClass} {a b : Address} :
    config.LineIdentity cls a b ↔
      (config.blockAddr a = config.blockAddr b ↔ config.SameLine a b) ∧
      (config.LineStarts a.toNat (config.blockAddr a).toNat ∧
        config.LineStarts b.toNat (config.blockAddr b).toNat) ∧
      (config.SameLine a b → ∃ set, config.setGeometry.set_index a cls = some set ∧
        config.setGeometry.set_index b cls = some set) := by
  constructor
  · exact fun identity => ⟨identity.tag_iff, identity.block_addr, identity.set_index⟩
  · rintro ⟨tags, starts, sets⟩
    refine ⟨tags, starts, sets, ?_, ?_, ?_, ?_⟩
    · rw [← BitVec.toNat_inj, tagFunc_toNat, tagFunc_toNat, BitVec.toNat_inj]
      exact tags
    · rw [tagFunc_toNat, tagFunc_toNat]
      exact starts
    · rw [blockAddress_eq, blockAddress_eq]
      exact tags
    · rw [blockAddress_eq, blockAddress_eq]
      exact starts

end Tags

/-! ## Sizes -/

section Sizes

variable {config}

theorem line_sz_pos {k : Nat} (power : config.m_line_sz.toNat = 2 ^ k) :
    0 < config.m_line_sz.toNat := power ▸ Nat.two_pow_pos k

theorem line_sz_lt {k : Nat} (power : config.m_line_sz.toNat = 2 ^ k) : k < 32 :=
  (Nat.pow_lt_pow_iff_right Nat.one_lt_two).mp (power ▸ config.m_line_sz.isLt)

theorem blockAddr_toNat {k : Nat} (power : config.m_line_sz.toNat = 2 ^ k) (a : Address) :
    (config.blockAddr a).toNat = a.toNat / 2 ^ k % 2 ^ (32 - k) * 2 ^ k := by
  have narrow := line_sz_lt power
  have split : 2 ^ 32 = 2 ^ (32 - k) * 2 ^ k := by
    rw [← pow_add, Nat.sub_add_cancel (Nat.le_of_lt narrow)]
  have mask : (~~~(config.m_line_sz - 1)).toNat = (2 ^ (32 - k) - 1) * 2 ^ k := by
    have positive := line_sz_pos power
    have pred : (config.m_line_sz - 1).toNat = config.m_line_sz.toNat - 1 := by bv_omega
    rw [BitVec.toNat_not, pred, Nat.sub_mul, ← split, Nat.one_mul, ← power]
    omega
  rw [blockAddr, BitVec.toNat_and, BitVec.toNat_setWidth_of_le (by decide), mask, Bits.and_mask]

theorem lineStarts_iff {k : Nat} (power : config.m_line_sz.toNat = 2 ^ k) (a : Address) :
    config.LineStarts a.toNat (config.blockAddr a).toNat ↔ a.toNat < 2 ^ 32 := by
  have narrow := line_sz_lt power
  have split : 2 ^ 32 = 2 ^ (32 - k) * 2 ^ k := by
    rw [← pow_add, Nat.sub_add_cancel (Nat.le_of_lt narrow)]
  rw [LineStarts, MemLine.starts_iff (line_sz_pos power), blockAddr_toNat power, power,
    Nat.mul_left_inj (Nat.two_pow_pos k).ne', Nat.mod_eq_iff_lt (Nat.two_pow_pos _).ne',
    Nat.div_lt_iff_lt_mul (Nat.two_pow_pos k), ← split]

theorem blockAddr_eq_iff {k : Nat} (power : config.m_line_sz.toNat = 2 ^ k) {a b : Address}
    (low : a.toNat < 2 ^ 32) (low' : b.toNat < 2 ^ 32) :
    config.blockAddr a = config.blockAddr b ↔ config.SameLine a b := by
  have starts := (lineStarts_iff power a).mpr low
  have starts' := (lineStarts_iff power b).mpr low'
  have positive := line_sz_pos power
  rw [LineStarts, MemLine.starts_iff positive] at starts starts'
  rw [SameLine, MemLine.same_iff positive, ← BitVec.toNat_inj, starts, starts',
    Nat.mul_left_inj positive.ne']

theorem exists_not_lineStarts (noPower : ¬ ∃ k, config.m_line_sz.toNat = 2 ^ k) :
    ∃ a : Address, a.toNat < 2 ^ 32 ∧
      ¬ config.LineStarts a.toNat (config.blockAddr a).toNat := by
  by_cases zero : config.m_line_sz.toNat = 0
  · refine ⟨0, by decide, ?_⟩
    rw [LineStarts, zero]
    exact MemLine.not_starts_zero
  · have wide : (config.m_line_sz.setWidth 64).toNat = config.m_line_sz.toNat :=
      BitVec.toNat_setWidth_of_le (by decide)
    refine ⟨config.m_line_sz.setWidth 64, wide ▸ config.m_line_sz.isLt, fun starts => noPower ?_⟩
    rw [LineStarts, MemLine.starts_iff (Nat.pos_of_ne_zero zero), wide,
      Nat.div_self (Nat.pos_of_ne_zero zero), Nat.one_mul, blockAddr, BitVec.toNat_and,
      BitVec.toNat_setWidth_of_le (by decide), BitVec.toNat_setWidth_of_le (by decide),
      ← BitVec.toNat_and, BitVec.toNat_inj] at starts
    -- the mask keeps all bits of the size, so that none is left in the offset
    have disjoint : config.m_line_sz &&& (config.m_line_sz - 1) = 0 := by
      have inside := congrArg (· &&& (config.m_line_sz - 1)) starts
      simp only [BitVec.and_assoc, BitVec.not_and_self] at inside
      exact inside.symm.trans BitVec.and_zero
    have pred : (config.m_line_sz - 1).toNat = config.m_line_sz.toNat - 1 := by bv_omega
    obtain ⟨k, power⟩ := (Nat.and_sub_one_eq_zero_iff_isPowerOfTwo zero).mp
      (by rw [← pred, ← BitVec.toNat_and, disjoint]; rfl)
    exact ⟨k, power⟩

end Sizes

/-! ## Sets -/

section Sets

open MemLine

variable {config}

theorem logb2_line_sz {k : Nat} (power : config.m_line_sz.toNat = 2 ^ k) :
    config.setGeometry.m_line_sz_log2 = k := by
  have narrow := line_sz_lt power
  have size : config.m_line_sz = BitVec.twoPow 32 k := by
    apply BitVec.eq_of_toNat_eq
    rw [power, BitVec.toNat_twoPow, Nat.mod_eq_of_lt (power ▸ config.m_line_sz.isLt)]
  have logs : ∀ k : Fin 32, LOGB2_32 (BitVec.twoPow 32 k) = k := by decide
  rw [SetGeometry.m_line_sz_log2, setGeometry, size]
  exact logs ⟨k, narrow⟩

theorem sameLine_iff {k : Nat} (power : config.m_line_sz.toNat = 2 ^ k) {a b : Address} :
    config.SameLine a b ↔ AgreeAbove k a b := by
  rw [SameLine, power, agreeAbove_iff]

theorem linearIndex_same {k : Nat} (power : config.m_line_sz.toNat = 2 ^ k) {a b : Address}
    (agree : AgreeAbove k a b) :
    config.setGeometry.linearIndex a = config.setGeometry.linearIndex b := by
  rw [SetGeometry.linearIndex, SetGeometry.linearIndex, logb2_line_sz power, agree.ushiftRight]

theorem hashIndex_same {k : Nat} (power : config.m_line_sz.toNat = 2 ^ k) {a b : Address}
    (agree : AgreeAbove k a b) (high : k ≤ 13)
    (high' : config.setGeometry.m_nset = 64 → k ≤ 12) :
    config.setGeometry.hashIndex a = config.setGeometry.hashIndex b := by
  have bits13 : a &&& 0xE000 = b &&& 0xE000 := agree.and fun i isSet => by
    have all : ∀ i < 64, (0xE000 : Address).getLsbD i = true → 13 ≤ i := by decide
    exact Nat.le_trans high (all i (BitVec.lt_of_getLsbD isSet) isSet)
  have bit17 : a &&& 0x20000 = b &&& 0x20000 := agree.and fun i isSet => by
    have all : ∀ i < 64, (0x20000 : Address).getLsbD i = true → 13 ≤ i := by decide
    exact Nat.le_trans high (all i (BitVec.lt_of_getLsbD isSet) isSet)
  have bit19 : a &&& 0x80000 = b &&& 0x80000 := agree.and fun i isSet => by
    have all : ∀ i < 64, (0x80000 : Address).getLsbD i = true → 13 ≤ i := by decide
    exact Nat.le_trans high (all i (BitVec.lt_of_getLsbD isSet) isSet)
  have bit12 : config.setGeometry.m_nset = 64 → a &&& 0x1000 = b &&& 0x1000 := fun sets =>
    agree.and fun i isSet => by
      have all : ∀ i < 64, (0x1000 : Address).getLsbD i = true → 12 ≤ i := by decide
      exact Nat.le_trans (high' sets) (all i (BitVec.lt_of_getLsbD isSet) isSet)
  rw [SetGeometry.hashIndex, SetGeometry.hashIndex, logb2_line_sz power, agree.ushiftRight, bits13,
    bit17, bit19]
  split
  · rename_i sets
    rw [bit12 sets]
  · rfl

theorem linearIndex_lt (sets : config.setGeometry.m_nset ≠ 0) (a : Address) :
    config.setGeometry.linearIndex a < config.setGeometry.m_nset := by
  have positive : 0 < config.setGeometry.m_nset.toNat :=
    Nat.pos_of_ne_zero fun zero => sets (BitVec.eq_of_toNat_eq zero)
  have masked : (config.setGeometry.linearIndex a).toNat ≤
      (config.setGeometry.m_nset - 1).toNat := by
    rw [SetGeometry.linearIndex, BitVec.toNat_setWidth, BitVec.toNat_and,
      BitVec.toNat_setWidth_of_le (by decide)]
    exact Nat.le_trans (Nat.mod_le _ _) Nat.and_le_right
  have pred : (config.setGeometry.m_nset - 1).toNat = config.setGeometry.m_nset.toNat - 1 := by
    bv_omega
  rw [BitVec.lt_def]
  omega

theorem field_lt {mask : Address} {s bound : Nat} (small : mask.toNat >>> s < bound)
    (a : Address) : (((a &&& mask) >>> s).setWidth 32).toNat < bound := by
  have masked : (a &&& mask).toNat ≤ mask.toNat := by
    rw [BitVec.toNat_and]
    exact Nat.and_le_right
  rw [BitVec.toNat_setWidth, BitVec.toNat_ushiftRight]
  calc (a &&& mask).toNat >>> s % 2 ^ 32
      ≤ (a &&& mask).toNat >>> s := Nat.mod_le _ _
    _ ≤ mask.toNat >>> s := by
        rw [Nat.shiftRight_eq_div_pow, Nat.shiftRight_eq_div_pow]
        exact Nat.div_le_div_right masked
    _ < bound := small

theorem hashIndex_lt (sets : config.setGeometry.m_nset = 32 ∨ config.setGeometry.m_nset = 64)
    (a : Address) : config.setGeometry.hashIndex a < config.setGeometry.m_nset := by
  have lower : ((a >>> config.setGeometry.m_line_sz_log2 &&& 0x1F).setWidth 32).toNat < 2 ^ 5 :=
    @field_lt 0x1F 0 _ (by decide) (a >>> config.setGeometry.m_line_sz_log2)
  have bits13 : (((a &&& 0xE000) >>> 13).setWidth 32).toNat < 2 ^ 5 := field_lt (by decide) a
  have bit17 : (((a &&& 0x20000) >>> 14).setWidth 32).toNat < 2 ^ 5 := field_lt (by decide) a
  have bit19 : (((a &&& 0x80000) >>> 15).setWidth 32).toNat < 2 ^ 5 := field_lt (by decide) a
  have bit12 : (((a &&& 0x1000) >>> 7).setWidth 32).toNat < 2 ^ 6 := field_lt (by decide) a
  have upper := Nat.or_lt_two_pow (Nat.or_lt_two_pow bits13 bit17) bit19
  have hashed := Nat.xor_lt_two_pow lower upper
  rw [BitVec.lt_def, SetGeometry.hashIndex]
  cases sets with
  | inl few =>
    rw [few, if_neg (by decide), BitVec.toNat_xor, BitVec.toNat_or, BitVec.toNat_or]
    exact hashed
  | inr many =>
    rw [many, if_pos rfl, BitVec.toNat_or, BitVec.toNat_xor, BitVec.toNat_or, BitVec.toNat_or]
    exact Nat.or_lt_two_pow (Nat.lt_trans hashed (by decide)) bit12

theorem set_index_linear (sets : config.setGeometry.m_nset ≠ 0) (a : Address) :
    config.setGeometry.set_index a (.l1d_cache_config .LINEAR_SET_FUNCTION) =
      some (config.setGeometry.linearIndex a) := by
  simp only [SetGeometry.set_index, Option.bind_eq_bind, Option.bind_some]
  exact if_pos (linearIndex_lt sets a)

theorem set_index_hash
    (sets : config.setGeometry.m_nset = 32 ∨ config.setGeometry.m_nset = 64) (a : Address) :
    config.setGeometry.set_index a (.l1d_cache_config .FERMI_HASH_SET_FUNCTION) =
      some (config.setGeometry.hashIndex a) := by
  simp only [SetGeometry.set_index, if_pos sets, Option.bind_eq_bind, Option.bind_some]
  exact if_pos (hashIndex_lt sets a)

theorem partition_address_agree {t : Translation} (has : HasPartition t) {k : Nat} {a b : Address}
    (agree : AgreeAbove k a b) : ∃ part part', t.partition_address a = some part ∧
      t.partition_address b = some part' ∧ AgreeAbove k part part' := by
  by_cases noGap : t.gap = 0
  · exact ⟨_, _, Translation.partition_address_noGap noGap a,
      Translation.partition_address_noGap noGap b, Packing.pack_agree agree⟩
  · obtain ⟨start, start_lt, positive⟩ := has.resolve_left noGap
    obtain ⟨_, rest, split, _, toRest⟩ := t.splitChip_signExtend start start_lt positive a
    obtain ⟨_, rest', split', _, toRest'⟩ := t.splitChip_signExtend start start_lt positive b
    have rests : AgreeAbove k rest rest' := by
      rw [agreeAbove_iff, MemLine.same_iff (Nat.two_pow_pos k)] at agree ⊢
      rw [toRest, toRest']
      exact Interleaving.inChannel_same agree
    exact ⟨_, _, Translation.partition_address_split noGap split,
      Translation.partition_address_split noGap split', Packing.pack_agree rests⟩

theorem set_index_same {cls : ConfigClass} (names : config.NamesLines cls) {a b : Address}
    (same : config.SameLine a b) : ∃ set, config.setGeometry.set_index a cls = some set ∧
      config.setGeometry.set_index b cls = some set := by
  obtain ⟨⟨k, power⟩, indexes⟩ := names
  have agree := (sameLine_iff power).mp same
  have linear := linearIndex_same power agree
  cases cls with
  | cache_config m_set_index_function =>
    obtain rfl : m_set_index_function = .LINEAR_SET_FUNCTION := indexes
    exact ⟨_, rfl, congrArg some linear.symm⟩
  | l1d_cache_config m_set_index_function =>
    cases m_set_index_function with
    | LINEAR_SET_FUNCTION =>
      exact ⟨_, set_index_linear indexes a, linear ▸ set_index_linear indexes b⟩
    | FERMI_HASH_SET_FUNCTION =>
      have sets : config.setGeometry.m_nset = 32 ∨ config.setGeometry.m_nset = 64 :=
        indexes.imp And.left And.left
      have exponents : k ≤ 13 ∧ (config.setGeometry.m_nset = 64 → k ≤ 12) := by
        rw [IndexesLines, power, Nat.pow_le_pow_iff_right Nat.one_lt_two,
          Nat.pow_le_pow_iff_right Nat.one_lt_two] at indexes
        cases indexes with
        | inl few => exact ⟨few.2, fun many => absurd (few.1.symm.trans many) (by decide)⟩
        | inr many => exact ⟨Nat.le_succ_of_le many.2, fun _ => many.2⟩
      have hash := hashIndex_same power agree exponents.1 exponents.2
      exact ⟨_, set_index_hash sets a, hash ▸ set_index_hash sets b⟩
    | CUSTOM_SET_FUNCTION => exact indexes.elim
  | l2_cache_config m_address_mapping =>
    cases m_address_mapping with
    | none => exact ⟨_, rfl, congrArg some linear.symm⟩
    | some t =>
      obtain ⟨part, part', view, view', agree'⟩ := partition_address_agree indexes agree
      refine ⟨config.setGeometry.linearIndex part, ?_, ?_⟩
      · simp [SetGeometry.set_index, view]
      · simp [SetGeometry.set_index, view', linearIndex_same power agree']

end Sets

/-! ## Lines without a set or with two -/

section NoSet

variable {config}

theorem not_lineIdentity_of_none {cls : ConfigClass} (positive : 0 < config.m_line_sz.toNat)
    (none : config.setGeometry.set_index 0 cls = none) : ¬ config.LineIdentity cls 0 0 := by
  intro identity
  obtain ⟨set, some, _⟩ := identity.set_index ((MemLine.same_iff positive).mpr rfl)
  rw [none] at some
  nomatch some

theorem hashIndex_ne {k i : Nat} (power : config.m_line_sz.toNat = 2 ^ k) (within : i < k)
    (hashed : i = 13 ∨ i = 12 ∧ config.setGeometry.m_nset = 64) :
    config.setGeometry.hashIndex 0 ≠ config.setGeometry.hashIndex (BitVec.twoPow 64 i) := by
  have none (a : Address) (low : a.toNat < 2 ^ k) :
      a >>> config.setGeometry.m_line_sz_log2 = 0 := by
    apply BitVec.eq_of_toNat_eq
    rw [logb2_line_sz power, BitVec.toNat_ushiftRight, Nat.shiftRight_eq_div_pow,
      Nat.div_eq_of_lt low]
    rfl
  have powers : 2 ^ i < 2 ^ k := Nat.pow_lt_pow_right Nat.one_lt_two within
  have zero := none 0 (Nat.two_pow_pos k)
  cases hashed with
  | inl bit13 =>
    subst bit13
    have one := none (BitVec.twoPow 64 13) powers
    rw [SetGeometry.hashIndex, SetGeometry.hashIndex, zero, one]
    split <;> decide
  | inr bit12 =>
    obtain ⟨rfl, many⟩ := bit12
    have one := none (BitVec.twoPow 64 12) powers
    rw [SetGeometry.hashIndex, SetGeometry.hashIndex, zero, one, if_pos many, if_pos many]
    decide

theorem exists_hashed {k : Nat} (power : config.m_line_sz.toNat = 2 ^ k)
    (sets : config.setGeometry.m_nset = 32 ∨ config.setGeometry.m_nset = 64)
    (long : ¬ config.IndexesLines (.l1d_cache_config .FERMI_HASH_SET_FUNCTION)) :
    ∃ i, i < k ∧ (i = 13 ∨ i = 12 ∧ config.setGeometry.m_nset = 64) := by
  rw [IndexesLines, power, Nat.pow_le_pow_iff_right Nat.one_lt_two,
    Nat.pow_le_pow_iff_right Nat.one_lt_two] at long
  cases sets with
  | inl few =>
    have above : ¬ k ≤ 13 := fun short => long (Or.inl ⟨few, short⟩)
    exact ⟨13, by omega, Or.inl rfl⟩
  | inr many =>
    have above : ¬ k ≤ 12 := fun short => long (Or.inr ⟨many, short⟩)
    exact ⟨12, by omega, Or.inr ⟨rfl, many⟩⟩

theorem exists_not_lineIdentity {cls : ConfigClass} (names : ¬ config.NamesLines cls) :
    ∃ a b : Address, a.toNat < 2 ^ 32 ∧ b.toNat < 2 ^ 32 ∧ ¬ config.LineIdentity cls a b := by
  by_cases power : ∃ k, config.m_line_sz.toNat = 2 ^ k
  · have indexes : ¬ config.IndexesLines cls := fun indexes => names ⟨power, indexes⟩
    obtain ⟨k, power⟩ := power
    have undefined (none : config.setGeometry.set_index 0 cls = none) :=
      not_lineIdentity_of_none (line_sz_pos power) none
    cases cls with
    | cache_config m_set_index_function =>
      refine ⟨0, 0, by decide, by decide, undefined ?_⟩
      cases m_set_index_function with
      | LINEAR_SET_FUNCTION => exact absurd rfl indexes
      | FERMI_HASH_SET_FUNCTION => rfl
      | CUSTOM_SET_FUNCTION => rfl
    | l1d_cache_config m_set_index_function =>
      cases m_set_index_function with
      | LINEAR_SET_FUNCTION =>
        have noSets : config.setGeometry.m_nset = 0 := not_not.mp indexes
        exact ⟨0, 0, by decide, by decide, undefined (by simp [SetGeometry.set_index, noSets])⟩
      | CUSTOM_SET_FUNCTION =>
        exact ⟨0, 0, by decide, by decide, undefined (by simp [SetGeometry.set_index])⟩
      | FERMI_HASH_SET_FUNCTION =>
        by_cases sets : config.setGeometry.m_nset = 32 ∨ config.setGeometry.m_nset = 64
        · obtain ⟨i, within, hashed⟩ := exists_hashed power sets indexes
          have small : (BitVec.twoPow 64 i).toNat = 2 ^ i :=
            BitVec.toNat_twoPow_of_lt (Nat.lt_trans within (Nat.lt_trans (line_sz_lt power)
              (by decide)))
          refine ⟨0, BitVec.twoPow 64 i, by decide, ?_, fun identity => ?_⟩
          · rw [small]
            exact Nat.pow_lt_pow_right Nat.one_lt_two (Nat.lt_trans within (line_sz_lt power))
          · have same : config.SameLine 0 (BitVec.twoPow 64 i) := by
              rw [SameLine, power, MemLine.same_iff (Nat.two_pow_pos k), small, Nat.div_eq_of_lt
                (Nat.pow_lt_pow_right Nat.one_lt_two within)]
              exact Nat.zero_div _
            obtain ⟨set, first, second⟩ := identity.set_index same
            rw [set_index_hash sets] at first second
            exact hashIndex_ne power within hashed (Option.some.inj (first.trans second.symm))
        · refine ⟨0, 0, by decide, by decide, undefined ?_⟩
          simp only [SetGeometry.set_index, if_neg sets, Option.bind_eq_bind, Option.bind_none]
    | l2_cache_config m_address_mapping =>
      cases m_address_mapping with
      | none => exact absurd trivial indexes
      | some t =>
        obtain ⟨gaps, noSplit⟩ := not_or.mp indexes
        refine ⟨0, 0, by decide, by decide, undefined ?_⟩
        simp only [SetGeometry.set_index, Translation.partition_address, if_neg gaps,
          Translation.splitChip, if_neg noSplit, Option.bind_eq_bind, Option.bind_none]
  · obtain ⟨a, low, starts⟩ := exists_not_lineStarts power
    exact ⟨a, a, low, low, fun identity => starts identity.block_addr.1⟩

end NoSet

/-- Lines below 2^32 have their own tags, block addresses and sets exactly in a geometry that
    names lines; no address above has. -/
theorem lineIdentity_iff_namesLines (config : CacheConfig) (cls : ConfigClass) :
    ((∀ a b : Address, a.toNat < 2 ^ 32 → b.toNat < 2 ^ 32 → config.LineIdentity cls a b) ↔
      config.NamesLines cls) ∧
    (config.NamesLines cls → ∀ a b, config.LineIdentity cls a b →
      a.toNat < 2 ^ 32 ∧ b.toNat < 2 ^ 32) := by
  refine ⟨⟨fun all => ?_, fun names a b low low' => ?_⟩, fun names a b identity => ?_⟩
  · by_contra names
    obtain ⟨a, b, low, low', fails⟩ := exists_not_lineIdentity names
    exact fails (all a b low low')
  · obtain ⟨k, power⟩ := names.1
    have starts := (lineStarts_iff power a).mpr low
    have starts' := (lineStarts_iff power b).mpr low'
    exact lineIdentity_iff.mpr ⟨blockAddr_eq_iff power low low', ⟨starts, starts'⟩,
      set_index_same names⟩
  · obtain ⟨k, power⟩ := names.1
    exact ⟨(lineStarts_iff power a).mp identity.block_addr.1,
      (lineStarts_iff power b).mp identity.block_addr.2⟩

/-- The tag of 2^32 is that of 0, in a cache of 32 sets with lines of 128 bytes. -/
theorem tag_aliases_above_32_bits : ¬ ∀ tokens set_index config cls a b,
    init tokens set_index = some config → config.LineIdentity cls a b := by
  intro all
  have identity := all ⟨32, 128, 4, 'L', 'B', 'm', 'W', 'A', 32, 8, 8, 0⟩ (fun _ => 0) _
    (.l1d_cache_config .FERMI_HASH_SET_FUNCTION) 0 0x100000000 rfl
  have same := identity.tag_iff.mp (by decide)
  rw [SameLine, MemLine.same_iff (by decide)] at same
  exact absurd same (by decide)

end CacheConfig

end AesOnGpu.Cache
