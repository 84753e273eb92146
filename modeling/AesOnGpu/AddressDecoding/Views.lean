import AesOnGpu.Lib.Words
import AesOnGpu.AddressDecoding.Initialized

/-! # The views of an address

An address is seen as the fields of its place in DRAM, and as sub-partition and
partition address.  The fields are an `unsigned` each, so that a mask with more
than 32 bits loses the upper ones, and so does the product that gives the
sub-partition.  `Lossless` says that this loses nothing that an address can have.
-/

namespace AesOnGpu.AddressDecoding

open Packing

/-- The fields that name a place in DRAM. -/
def AddrDec.raw (tlx : AddrDec) : BitVec 32 × BitVec 32 × BitVec 32 × BitVec 32 × BitVec 32 :=
  (tlx.chip, tlx.bk, tlx.row, tlx.col, tlx.burst)

namespace Translation

def maskFields (t : Translation) : List Field :=
  if t.gap = 0 then [.CHIP, .BK, .ROW, .COL, .BURST] else [.BK, .ROW, .COL, .BURST]

def Decoded (t : Translation) (i : Nat) : Prop :=
  ∃ field ∈ t.maskFields, (t.addrdec_mask field).getLsbD i

/-- A bit is among the 32 bits of some mask that an `unsigned` holds. -/
def Kept (t : Translation) (i : Nat) : Prop :=
  ∃ field ∈ t.maskFields, i ∈ (positions (t.addrdec_mask field)).take 32

def InDecodedBits (t : Translation) (addr : Address) : Prop :=
  ∃ chip rest, t.chipAndRest addr = some (chip, rest) ∧ ∀ i, rest.getLsbD i → t.Decoded i

/-- The two views of an address are injective. -/
def Distinguishes (t : Translation) : Prop :=
  (∀ addr addr', t.InDecodedBits addr → t.InDecodedBits addr' → addr ≠ addr' →
    ∃ tlx tlx', t.addrdec_tlx addr = some tlx ∧ t.addrdec_tlx addr' = some tlx' ∧
      tlx.raw ≠ tlx'.raw) ∧
  ∀ addr addr', addr ≠ addr' →
    ∃ tlx tlx' part part', t.addrdec_tlx addr = some tlx ∧ t.addrdec_tlx addr' = some tlx' ∧
      t.partition_address addr = some part ∧ t.partition_address addr' = some part' ∧
      (tlx.sub_partition, part) ≠ (tlx'.sub_partition, part')

def subPartitionBits (t : Translation) : List Nat :=
  if t.m_n_sub_partition_in_channel = 0 then (positions (t.addrdec_mask .BK)).take 32
  else
    (positions (t.addrdec_mask .CHIP)).take (32 - LOGB2_32 t.m_n_sub_partition_in_channel) ++
      (positions (t.addrdec_mask .BK)).take (LOGB2_32 t.m_n_sub_partition_in_channel)

def Lossless (t : Translation) : Prop :=
  if t.gap = 0 then
    (∀ i, t.Decoded i → t.Kept i) ∧
      ∀ i, (t.addrdec_mask .CHIP).getLsbD i → i ∈ t.subPartitionBits
  else
    0 ≤ t.ADDR_CHIP_S ∧ t.ADDR_CHIP_S < 31 ∧
      t.m_n_channel ≠ 0 ∧ t.m_n_channel.toNat < 2 ^ 31 ∧
      t.m_n_sub_partition_in_channel ≠ 0 ∧
      t.m_n_channel.toNat * t.m_n_sub_partition_in_channel.toNat ≤ 2 ^ 32 ∧
      -- the address with this bit alone in its rest has to exist
      ∀ i, t.Decoded i → (t.ADDR_CHIP_S ≤ i → t.m_n_channel.toNat * 2 ^ i < 2 ^ 64) → t.Kept i

/-! ## Equal views -/

/-- What the fields other than the chip tell. -/
def RestKept (t : Translation) (i : Nat) : Prop :=
  ∃ field ∈ [Field.BK, .ROW, .COL, .BURST], i ∈ (positions (t.addrdec_mask field)).take 32

def subPartition (t : Translation) (chip : BitVec 32) (rest : Address) : BitVec 32 :=
  chip * t.m_n_sub_partition_in_channel +
    (t.unpack .BK rest &&& (t.m_n_sub_partition_in_channel - 1))

section Views

variable {t : Translation} (initialized : t.Initialized) {addr addr' : Address}
  {chip chip' : BitVec 32} {rest rest' : Address}

include initialized

theorem unpack_mod_eq_iff {k : Nat} (small : k ≤ 32) (field : Field) (rest rest' : Address) :
    (t.unpack field rest).toNat % 2 ^ k = (t.unpack field rest').toNat % 2 ^ k ↔
      ∀ i ∈ (positions (t.addrdec_mask field)).take k, rest.getLsbD i = rest'.getLsbD i := by
  have narrow : k ≤ 64 := by omega
  have divides : 2 ^ k ∣ 2 ^ 32 := Nat.pow_dvd_pow 2 small
  rw [initialized.unpack, initialized.unpack, ← pack_mod_eq_iff _ narrow, BitVec.toNat_setWidth,
    BitVec.toNat_setWidth, Nat.mod_mod_of_dvd _ divides, Nat.mod_mod_of_dvd _ divides]

theorem unpack_eq_iff (field : Field) (rest rest' : Address) :
    t.unpack field rest = t.unpack field rest' ↔
      ∀ i ∈ (positions (t.addrdec_mask field)).take 32, rest.getLsbD i = rest'.getLsbD i := by
  rw [← unpack_mod_eq_iff initialized (Nat.le_refl 32), Nat.mod_eq_of_lt (BitVec.isLt _),
    Nat.mod_eq_of_lt (BitVec.isLt _), BitVec.toNat_inj]

omit initialized in
theorem tlx_eq (parts : t.chipAndRest addr = some (chip, rest)) :
    ∃ tlx, t.addrdec_tlx addr = some tlx ∧
      tlx.raw = (chip, t.unpack .BK rest, t.unpack .ROW rest, t.unpack .COL rest,
        t.unpack .BURST rest) ∧
      tlx.sub_partition = t.subPartition chip rest := by
  rw [addrdec_tlx, parts]
  exact ⟨_, rfl, rfl, rfl⟩

theorem raw_eq_iff {tlx tlx' : AddrDec} (parts : t.chipAndRest addr = some (chip, rest))
    (parts' : t.chipAndRest addr' = some (chip', rest')) (decoded : t.addrdec_tlx addr = some tlx)
    (decoded' : t.addrdec_tlx addr' = some tlx') :
    tlx.raw = tlx'.raw ↔
      chip = chip' ∧ ∀ i, t.RestKept i → rest.getLsbD i = rest'.getLsbD i := by
  obtain ⟨_, some, raw, _⟩ := tlx_eq parts
  obtain ⟨_, some', raw', _⟩ := tlx_eq parts'
  obtain rfl := Option.some.inj (decoded.symm.trans some)
  obtain rfl := Option.some.inj (decoded'.symm.trans some')
  rw [raw, raw']
  simp only [Prod.mk.injEq, unpack_eq_iff initialized, RestKept, List.mem_cons, List.not_mem_nil,
    or_false, exists_eq_or_imp, exists_eq_left, or_imp, forall_and]

omit initialized in
theorem toNat_twoPow {k : Nat} (small : k < 31) : (BitVec.twoPow 32 k).toNat = 2 ^ k := by
  have below : 2 ^ k < 2 ^ 32 := Nat.pow_lt_pow_right Nat.one_lt_two (by omega)
  rw [BitVec.toNat_twoPow, Nat.mod_eq_of_lt below]

omit initialized in
theorem twoPow_ne_zero {k : Nat} (small : k < 31) : BitVec.twoPow 32 k ≠ 0 := by
  intro zero
  have value := toNat_twoPow small
  rw [zero] at value
  exact (Nat.two_pow_pos k).ne value

omit initialized in
theorem toNat_subPartition {k : Nat} (small : k < 31)
    (power : t.m_n_sub_partition_in_channel = BitVec.twoPow 32 k) (chip : BitVec 32)
    (rest : Address) :
    (t.subPartition chip rest).toNat =
      (chip.toNat * 2 ^ k + (t.unpack .BK rest).toNat % 2 ^ k) % 2 ^ 32 := by
  have value := toNat_twoPow small
  have pred : (BitVec.twoPow 32 k - 1).toNat = 2 ^ k - 1 := by
    rw [BitVec.toNat_sub_of_le, value]
    · rfl
    · rw [BitVec.le_def, value]
      exact Nat.one_le_two_pow
  rw [subPartition, power, BitVec.toNat_add, BitVec.toNat_mul, BitVec.toNat_and, value, pred,
    Nat.and_two_pow_sub_one_eq_mod, Nat.mod_add_mod]

theorem subPartition_eq_iff {k : Nat} (small : k < 31)
    (power : t.m_n_sub_partition_in_channel = BitVec.twoPow 32 k) :
    t.subPartition chip rest = t.subPartition chip' rest' ↔
      chip.toNat % 2 ^ (32 - k) = chip'.toNat % 2 ^ (32 - k) ∧
        ∀ i ∈ (positions (t.addrdec_mask .BK)).take k, rest.getLsbD i = rest'.getLsbD i := by
  have narrow : k ≤ 32 := by omega
  have low (val : Nat) : val % 2 ^ k < 2 ^ k := Nat.mod_lt _ (Nat.two_pow_pos k)
  rw [← BitVec.toNat_inj, toNat_subPartition small power, toNat_subPartition small power,
    Bits.mul_add_mod_inj narrow (low _) (low _), unpack_mod_eq_iff initialized narrow]

theorem subPartition_eq_iff_zero (none : t.m_n_sub_partition_in_channel = 0) :
    t.subPartition chip rest = t.subPartition chip' rest' ↔
      ∀ i ∈ (positions (t.addrdec_mask .BK)).take 32, rest.getLsbD i = rest'.getLsbD i := by
  have allOnes : (0 : BitVec 32) - 1 = BitVec.allOnes 32 := rfl
  rw [subPartition, subPartition, none, mul_zero, mul_zero, allOnes, BitVec.and_allOnes,
    BitVec.and_allOnes, zero_add, zero_add, unpack_eq_iff initialized]

omit initialized in
theorem pack_not_eq_iff (mask a b : Address) :
    pack (positions (~~~mask)) a = pack (positions (~~~mask)) b ↔
      ∀ i < 64, ¬mask.getLsbD i → a.getLsbD i = b.getLsbD i := by
  rw [pack_eq_iff (length_positions_le _)]
  simp only [mem_positions, BitVec.getLsbD_not]
  constructor
  · intro same i inside out
    exact same i (by rw [Bool.eq_false_iff.mpr out, decide_eq_true inside]; rfl)
  · intro same i member
    simp only [Bool.and_eq_true, decide_eq_true_eq, Bool.not_eq_true'] at member
    exact same i member.1 (by simp [member.2])

end Views

end Translation

end AesOnGpu.AddressDecoding
