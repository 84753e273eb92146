import AesOnGpu.Lib.Interleaving
import AesOnGpu.AddressDecoding.Views

/-! # The chip as a remainder

Without a power of two of channels the chunks of `2 ^ ADDR_CHIP_S` addresses are
dealt out to the channels in turn.
-/

namespace AesOnGpu.AddressDecoding.Translation

open Packing

variable {t : Translation} {addr addr' : Address} {chip chip' : BitVec 32} {rest rest' : Address}

/-- The chips can be counted in an `int` and the addresses be split. -/
structure Splits (t : Translation) : Prop where
  start : 0 ≤ t.ADDR_CHIP_S
  start_lt : t.ADDR_CHIP_S < 31
  positive : t.m_n_channel ≠ 0
  narrow : t.m_n_channel.toNat < 2 ^ 31

theorem Splits.channels_pos (splits : t.Splits) : 0 < t.m_n_channel.toNat :=
  Nat.pos_of_ne_zero fun zero => splits.positive (BitVec.eq_of_toNat_eq zero)

def chunk (t : Translation) : Nat := 2 ^ t.ADDR_CHIP_S.toNat

theorem chunk_pos (t : Translation) : 0 < t.chunk := Nat.two_pow_pos _

theorem toNat_lowMask {k : Nat} (small : k < 31) : (1#64 <<< k - 1).toNat = 2 ^ k - 1 := by
  have power : (1#64 <<< k).toNat = 2 ^ k := by
    rw [BitVec.toNat_shiftLeft, BitVec.toNat_ofNat, Nat.shiftLeft_eq, Nat.one_mod, Nat.one_mul]
    exact Nat.mod_eq_of_lt (Nat.pow_lt_pow_right Nat.one_lt_two (by omega))
  rw [BitVec.toNat_sub_of_le, power]
  · rfl
  · rw [BitVec.le_def, power]
    exact Nat.one_le_two_pow

theorem splitChip_signExtend (start : 0 ≤ t.ADDR_CHIP_S) (start_lt : t.ADDR_CHIP_S < 31)
    (positive : t.m_n_channel ≠ 0) (addr : Address) :
    ∃ chip rest, t.splitChip addr = some (chip, rest) ∧
      chip.toNat =
        Interleaving.channel t.chunk (t.m_n_channel.signExtend 64).toNat addr.toNat ∧
      rest.toNat =
        Interleaving.inChannel t.chunk (t.m_n_channel.signExtend 64).toNat addr.toNat := by
  have small : t.ADDR_CHIP_S.toNat < 31 := by omega
  rw [splitChip, if_pos ⟨start, start_lt, positive⟩]
  refine ⟨_, _, rfl, ?_, ?_⟩
  · rw [BitVec.toNat_umod, BitVec.toNat_ushiftRight, Nat.shiftRight_eq_div_pow]
    rfl
  · have quotient : addr.toNat / t.chunk / (t.m_n_channel.signExtend 64).toNat * t.chunk < 2 ^ 64 :=
      Nat.lt_of_le_of_lt (Nat.le_trans (Nat.mul_le_mul_right _ (Nat.div_le_self _ _))
        (Nat.div_mul_le_self _ _)) addr.isLt
    have low : addr.toNat % 2 ^ t.ADDR_CHIP_S.toNat < 2 ^ t.ADDR_CHIP_S.toNat :=
      Nat.mod_lt _ (Nat.two_pow_pos _)
    rw [BitVec.toNat_or, BitVec.toNat_and, toNat_lowMask small, Nat.and_two_pow_sub_one_eq_mod,
      BitVec.toNat_shiftLeft, BitVec.toNat_udiv, BitVec.toNat_ushiftRight,
      Nat.shiftRight_eq_div_pow, Nat.mod_eq_of_lt (Nat.shiftLeft_eq _ _ ▸ quotient),
      ← Nat.shiftLeft_add_eq_or_of_lt low, Nat.shiftLeft_eq]
    rfl

theorem splitChip_toNat (splits : t.Splits) (addr : Address) :
    ∃ chip rest, t.splitChip addr = some (chip, rest) ∧
      chip.toNat = Interleaving.channel t.chunk t.m_n_channel.toNat addr.toNat ∧
      rest.toNat = Interleaving.inChannel t.chunk t.m_n_channel.toNat addr.toNat := by
  have msb : t.m_n_channel.msb = false :=
    BitVec.msb_eq_false_iff_two_mul_lt.mpr (by have := splits.narrow; omega)
  have count : (t.m_n_channel.signExtend 64).toNat = t.m_n_channel.toNat := by
    rw [BitVec.signExtend_eq_setWidth_of_msb_false msb, BitVec.toNat_setWidth]
    exact Nat.mod_eq_of_lt (Nat.lt_trans t.m_n_channel.isLt (by decide))
  have split := splitChip_signExtend splits.start splits.start_lt splits.positive addr
  rwa [count] at split

section Gap

variable (initialized : t.Initialized) (gaps : t.gap ≠ 0)

include initialized gaps

omit initialized in
theorem chipAndRest_gap (splits : t.Splits) (addr : Address) :
    ∃ chip rest, t.chipAndRest addr = some (chip, rest) ∧
      chip.toNat = Interleaving.channel t.chunk t.m_n_channel.toNat addr.toNat ∧
      rest.toNat = Interleaving.inChannel t.chunk t.m_n_channel.toNat addr.toNat := by
  obtain ⟨chip, rest, split, toChip, toRest⟩ := t.splitChip_toNat splits addr
  refine ⟨chip.setWidth 32, rest, ?_, ?_, toRest⟩
  · rw [chipAndRest, if_neg gaps, split]
    rfl
  · have below : chip.toNat < 2 ^ 32 := by
      rw [toChip]
      exact Nat.lt_trans (Nat.mod_lt _ splits.channels_pos) t.m_n_channel.isLt
    rw [BitVec.toNat_setWidth, Nat.mod_eq_of_lt below, toChip]

omit initialized in
theorem partition_address_split {chip : Address} (split : t.splitChip addr = some (chip, rest)) :
    t.partition_address addr = some (pack (positions (~~~t.sub_partition_id_mask)) rest) := by
  rw [partition_address, if_neg gaps, split]
  simp [packbits_all]

omit initialized in
theorem partition_address_gap (parts : t.chipAndRest addr = some (chip, rest)) :
    t.partition_address addr = some (pack (positions (~~~t.sub_partition_id_mask)) rest) := by
  rw [chipAndRest, if_neg gaps] at parts
  obtain ⟨_, split, same⟩ := Option.map_eq_some_iff.mp parts
  rw [partition_address_split gaps split, (Prod.mk.inj same).2]

omit initialized in
theorem kept_gap (i : Nat) : t.Kept i ↔ t.RestKept i := by
  rw [Kept, maskFields, if_neg gaps, RestKept]

omit initialized in
theorem reachable (splits : t.Splits) (parts : t.chipAndRest addr = some (chip, rest)) {i : Nat}
    (bit : rest.getLsbD i) (above : t.ADDR_CHIP_S ≤ i) : t.m_n_channel.toNat * 2 ^ i < 2 ^ 64 := by
  obtain ⟨_, part, some, _, toRest⟩ := chipAndRest_gap gaps splits addr
  obtain ⟨rfl, rfl⟩ := Prod.mk.inj (Option.some.inj (some.symm.trans parts))
  have high : 2 ^ i ≤ part.toNat := Nat.ge_two_pow_of_testBit (by rwa [BitVec.testBit_toNat])
  have start : t.ADDR_CHIP_S.toNat ≤ i := Int.toNat_le.mpr above
  have power : 2 ^ (i - t.ADDR_CHIP_S.toNat) * t.chunk = 2 ^ i := by
    rw [chunk, ← pow_add, Nat.sub_add_cancel start]
  rw [toRest, ← power] at high
  have product := Interleaving.mul_le_of_le_inChannel t.chunk_pos high
  rw [power] at product
  exact Nat.lt_of_le_of_lt product addr.isLt

omit initialized in
theorem addr_eq_of_parts (splits : t.Splits) (parts : t.chipAndRest addr = some (chip, rest))
    (parts' : t.chipAndRest addr' = some (chip, rest)) : addr = addr' := by
  obtain ⟨_, _, some, toChip, toRest⟩ := chipAndRest_gap gaps splits addr
  obtain ⟨_, _, some', toChip', toRest'⟩ := chipAndRest_gap gaps splits addr'
  obtain ⟨rfl, rfl⟩ := Prod.mk.inj (Option.some.inj (some.symm.trans parts))
  obtain ⟨rfl, rfl⟩ := Prod.mk.inj (Option.some.inj (some'.symm.trans parts'))
  apply BitVec.eq_of_toNat_eq
  exact Interleaving.eq_of_channel_inChannel t.chunk_pos (toChip.symm.trans toChip')
    (toRest.symm.trans toRest')

omit initialized in
theorem chipAndRest_place (splits : t.Splits) {q c l : Nat} (inside : c < t.m_n_channel.toNat)
    (low : l < t.chunk) (small : Interleaving.place t.chunk t.m_n_channel.toNat q c l < 2 ^ 64) :
    t.chipAndRest (BitVec.ofNat 64 (Interleaving.place t.chunk t.m_n_channel.toNat q c l)) =
      some (BitVec.ofNat 32 c, BitVec.ofNat 64 (q * t.chunk + l)) := by
  obtain ⟨chip, rest, parts, toChip, toRest⟩ := chipAndRest_gap gaps splits
    (BitVec.ofNat 64 (Interleaving.place t.chunk t.m_n_channel.toNat q c l))
  rw [BitVec.toNat_ofNat, Nat.mod_eq_of_lt small] at toChip toRest
  rw [Interleaving.channel_place inside low] at toChip
  rw [Interleaving.inChannel_place inside low] at toRest
  rw [parts, ← toChip, ← toRest, BitVec.ofNat_toNat, BitVec.ofNat_toNat, BitVec.setWidth_eq,
    BitVec.setWidth_eq]

theorem lossless_distinguishes_gap (lossless : t.Lossless) : t.Distinguishes := by
  rw [Lossless, if_neg gaps] at lossless
  obtain ⟨start, start_lt, positive, narrow, several, product, kept⟩ := lossless
  have splits : t.Splits := ⟨start, start_lt, positive, narrow⟩
  obtain ⟨k, small, power⟩ := initialized.subPartitions.resolve_left several
  have few : t.m_n_channel.toNat ≤ 2 ^ (32 - k) := by
    rw [power, toNat_twoPow small] at product
    apply Nat.le_of_mul_le_mul_right _ (Nat.two_pow_pos k)
    rwa [← pow_add, Nat.sub_add_cancel (by omega)]
  constructor
  · rintro addr addr' ⟨chip, rest, parts, only⟩ ⟨chip', rest', parts', only'⟩ different
    obtain ⟨tlx, decoded, _⟩ := tlx_eq parts
    obtain ⟨tlx', decoded', _⟩ := tlx_eq parts'
    refine ⟨tlx, tlx', decoded, decoded', fun same => different ?_⟩
    rw [raw_eq_iff initialized parts parts' decoded decoded'] at same
    obtain ⟨rfl, same⟩ := same
    have rests : rest = rest' := by
      apply BitVec.eq_of_getLsbD_eq
      intro i inside
      by_cases told : t.Kept i
      · exact same i ((kept_gap gaps i).mp told)
      · -- no address has a bit that is lost
        have none : rest.getLsbD i = false := Bool.eq_false_iff.mpr fun bit =>
          told (kept i (only i bit) (reachable gaps splits parts bit))
        have none' : rest'.getLsbD i = false := Bool.eq_false_iff.mpr fun bit =>
          told (kept i (only' i bit) (reachable gaps splits parts' bit))
        rw [none, none']
    subst rests
    exact addr_eq_of_parts gaps splits parts parts'
  · intro addr addr' different
    obtain ⟨chip, rest, parts, toChip, _⟩ := chipAndRest_gap gaps splits addr
    obtain ⟨chip', rest', parts', toChip', _⟩ := chipAndRest_gap gaps splits addr'
    obtain ⟨tlx, decoded, _, sub⟩ := tlx_eq parts
    obtain ⟨tlx', decoded', _, sub'⟩ := tlx_eq parts'
    refine ⟨tlx, tlx', _, _, decoded, decoded', partition_address_gap gaps parts,
      partition_address_gap gaps parts', fun same => different ?_⟩
    rw [Prod.mk.injEq, sub, sub', subPartition_eq_iff initialized small power,
      pack_not_eq_iff] at same
    obtain ⟨⟨chips, banks⟩, others⟩ := same
    have below (a : Address) :
        Interleaving.channel t.chunk t.m_n_channel.toNat a.toNat < 2 ^ (32 - k) :=
      Nat.lt_of_lt_of_le (Nat.mod_lt _ splits.channels_pos) few
    rw [toChip, toChip', Nat.mod_eq_of_lt (below addr), Nat.mod_eq_of_lt (below addr'), ← toChip,
      ← toChip', BitVec.toNat_inj] at chips
    have rests : rest = rest' := by
      apply BitVec.eq_of_getLsbD_eq
      intro i inside
      by_cases masked : t.sub_partition_id_mask.getLsbD i
      · exact banks i ((initialized.idMask k small power i).mp masked)
      · exact others i inside masked
    subst chips rests
    exact addr_eq_of_parts gaps splits parts parts'

end Gap

end AesOnGpu.AddressDecoding.Translation
