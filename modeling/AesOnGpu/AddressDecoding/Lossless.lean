import AesOnGpu.AddressDecoding.ChipField
import AesOnGpu.AddressDecoding.ChipRemainder

/-! # When decoding loses nothing

A mapping that `init` accepts tells all addresses apart exactly if it is
`Lossless`.  What a mapping loses shows in two addresses of which one is 0.
-/

namespace AesOnGpu.AddressDecoding.Translation

open Packing

variable {t : Translation}

section Conflicts

variable (initialized : t.Initialized) (gaps : t.gap ≠ 0) (distinguishes : t.Distinguishes)

include gaps distinguishes

theorem splitChip_isSome_of_distinguishes :
    0 ≤ t.ADDR_CHIP_S ∧ t.ADDR_CHIP_S < 31 ∧ t.m_n_channel ≠ 0 := by
  obtain ⟨tlx, _, _, _, decoded, _⟩ := distinguishes.2 0 1 (by decide)
  by_contra unsplit
  rw [addrdec_tlx, chipAndRest, if_neg gaps, splitChip, if_neg unsplit] at decoded
  simp at decoded

/-- The same chip, up to the sub-partition, and the same rest are those of one
    address. -/
theorem addr_eq_of_subPartition {addr addr' : Address} {chip chip' : BitVec 32} {rest : Address}
    (parts : t.chipAndRest addr = some (chip, rest))
    (parts' : t.chipAndRest addr' = some (chip', rest))
    (same : t.subPartition chip rest = t.subPartition chip' rest) : addr = addr' := by
  by_contra different
  obtain ⟨tlx, tlx', part, part', decoded, decoded', view, view', apart⟩ :=
    distinguishes.2 addr addr' different
  obtain ⟨_, some, _, sub⟩ := tlx_eq parts
  obtain ⟨_, some', _, sub'⟩ := tlx_eq parts'
  obtain rfl := Option.some.inj (decoded.symm.trans some)
  obtain rfl := Option.some.inj (decoded'.symm.trans some')
  rw [partition_address_gap gaps parts] at view
  rw [partition_address_gap gaps parts'] at view'
  apply apart
  rw [sub, sub', same, ← Option.some.inj view, ← Option.some.inj view']

omit distinguishes in
theorem chipAndRest_zero (start : 0 ≤ t.ADDR_CHIP_S) (start_lt : t.ADDR_CHIP_S < 31)
    (positive : t.m_n_channel ≠ 0) : t.chipAndRest 0 = some (0, 0) := by
  rw [chipAndRest, if_neg gaps, splitChip, if_pos ⟨start, start_lt, positive⟩]
  simp

omit distinguishes in
/-- A count that is negative as an `int` is taken for a huge one: the highest bit of
    an address is lost with the upper half of the chip. -/
theorem chipAndRest_wide (start : 0 ≤ t.ADDR_CHIP_S) (start_lt : t.ADDR_CHIP_S < 31)
    (wide : 2 ^ 31 ≤ t.m_n_channel.toNat) :
    t.chipAndRest (BitVec.twoPow 64 63) = some (0, 0) := by
  have small : t.ADDR_CHIP_S.toNat < 31 := by omega
  have positive : t.m_n_channel ≠ 0 := by
    intro zero
    rw [zero] at wide
    exact absurd wide (by decide)
  have msb : t.m_n_channel.msb = true := BitVec.msb_eq_true_iff_two_mul_ge.mpr (by omega)
  have huge : 2 ^ 63 < (t.m_n_channel.signExtend 64).toNat := by
    rw [BitVec.toNat_signExtend, msb, if_pos rfl]
    omega
  have high : (BitVec.twoPow 64 63).toNat = 2 ^ 63 := rfl
  have shifted : (BitVec.twoPow 64 63 >>> t.ADDR_CHIP_S.toNat).toNat =
      2 ^ (63 - t.ADDR_CHIP_S.toNat) := by
    rw [BitVec.toNat_ushiftRight, high, Nat.shiftRight_eq_div_pow,
      Nat.pow_div (by omega) (Nat.two_pow_pos 1)]
  have below : 2 ^ (63 - t.ADDR_CHIP_S.toNat) < (t.m_n_channel.signExtend 64).toNat :=
    Nat.lt_of_le_of_lt (Nat.pow_le_pow_right (Nat.two_pow_pos 1) (Nat.sub_le _ _)) huge
  have chip : ((BitVec.twoPow 64 63 >>> t.ADDR_CHIP_S.toNat) % t.m_n_channel.signExtend 64).setWidth
      32 = 0 := by
    apply BitVec.eq_of_toNat_eq
    rw [BitVec.toNat_setWidth, BitVec.toNat_umod, shifted, Nat.mod_eq_of_lt below]
    exact Nat.mod_eq_zero_of_dvd (Nat.pow_dvd_pow 2 (by omega))
  have quotient : (BitVec.twoPow 64 63 >>> t.ADDR_CHIP_S.toNat) / t.m_n_channel.signExtend 64 = 0 := by
    apply BitVec.eq_of_toNat_eq
    rw [BitVec.toNat_udiv, shifted, Nat.div_eq_of_lt below]
    rfl
  have low : BitVec.twoPow 64 63 &&& (1#64 <<< t.ADDR_CHIP_S.toNat - 1) = 0 := by
    apply BitVec.eq_of_toNat_eq
    rw [BitVec.toNat_and, toNat_lowMask small, high, Nat.and_two_pow_sub_one_eq_mod]
    exact Nat.mod_eq_zero_of_dvd (Nat.pow_dvd_pow 2 (by omega))
  rw [chipAndRest, if_neg gaps, splitChip, if_pos ⟨start, start_lt, positive⟩, Option.map_some]
  simp only [chip, quotient, low]
  simp

theorem splits_of_distinguishes : t.Splits := by
  obtain ⟨start, start_lt, positive⟩ := splitChip_isSome_of_distinguishes gaps distinguishes
  refine ⟨start, start_lt, positive, ?_⟩
  by_contra wide
  have zero := chipAndRest_zero gaps start start_lt positive
  have highest := chipAndRest_wide gaps start start_lt (Nat.le_of_not_lt wide)
  have same := addr_eq_of_subPartition gaps distinguishes zero highest rfl
  exact absurd same (by decide)

/-- Two chips with the same sub-partition lose the address that is the first of the
    second one. -/
theorem chip_zero_of_subPartition {chip : Nat} (inside : chip < t.m_n_channel.toNat)
    (same : t.subPartition 0 0 = t.subPartition (BitVec.ofNat 32 chip) 0) : chip = 0 := by
  have splits := splits_of_distinguishes gaps distinguishes
  have bounded : t.chunk ≤ 2 ^ 31 := by
    have := splits.start_lt
    exact Nat.pow_le_pow_right (Nat.two_pow_pos 1) (by omega)
  have address : Interleaving.place t.chunk t.m_n_channel.toNat 0 chip 0 = chip * t.chunk := by
    simp [Interleaving.place]
  have small : chip * t.chunk < 2 ^ 64 := by
    have narrow : chip < 2 ^ 32 := Nat.lt_trans inside t.m_n_channel.isLt
    calc chip * t.chunk
        ≤ chip * 2 ^ 31 := Nat.mul_le_mul_left _ bounded
      _ < 2 ^ 64 := by omega
  have first : Interleaving.place t.chunk t.m_n_channel.toNat 0 0 0 = 0 := by
    simp [Interleaving.place]
  have parts := chipAndRest_place gaps splits inside t.chunk_pos (address ▸ small)
  have parts' := chipAndRest_place gaps splits splits.channels_pos t.chunk_pos
    (first ▸ Nat.two_pow_pos 64)
  rw [Nat.zero_mul] at parts parts'
  have equal := congrArg BitVec.toNat
    (addr_eq_of_subPartition gaps distinguishes parts' parts same)
  rw [BitVec.toNat_ofNat, BitVec.toNat_ofNat, first, address, Nat.mod_eq_of_lt small,
    Nat.zero_mod] at equal
  cases Nat.mul_eq_zero.mp equal.symm with
  | inl zero => exact zero
  | inr none => exact absurd none t.chunk_pos.ne'

include initialized

theorem subPartitions_ne_zero : t.m_n_sub_partition_in_channel ≠ 0 := by
  intro none
  have splits := splits_of_distinguishes gaps distinguishes
  have several : 1 < t.m_n_channel.toNat := by
    have notOne : t.m_n_channel.toNat ≠ 1 := fun one =>
      initialized.channels gaps (BitVec.eq_of_toNat_eq one)
    have positive := splits.channels_pos
    omega
  have same : t.subPartition 0 0 = t.subPartition (BitVec.ofNat 32 1) 0 :=
    (subPartition_eq_iff_zero initialized none).mpr fun _ _ => rfl
  exact absurd (chip_zero_of_subPartition gaps distinguishes several same) Nat.one_ne_zero

theorem product_le : t.m_n_channel.toNat * t.m_n_sub_partition_in_channel.toNat ≤ 2 ^ 32 := by
  have several := subPartitions_ne_zero initialized gaps distinguishes
  obtain ⟨k, small, power⟩ := initialized.subPartitions.resolve_left several
  have split : 2 ^ (32 - k) * 2 ^ k = 2 ^ 32 := by rw [← pow_add, Nat.sub_add_cancel (by omega)]
  rw [power, toNat_twoPow small]
  by_contra large
  have inside : 2 ^ (32 - k) < t.m_n_channel.toNat := by
    by_contra few
    have product := Nat.mul_le_mul_right (2 ^ k) (Nat.le_of_not_lt few)
    omega
  have same : t.subPartition 0 0 = t.subPartition (BitVec.ofNat 32 (2 ^ (32 - k))) 0 := by
    rw [subPartition_eq_iff initialized small power]
    refine ⟨?_, fun _ _ => rfl⟩
    have narrow : 2 ^ (32 - k) < 2 ^ 32 := Nat.lt_trans inside t.m_n_channel.isLt
    rw [BitVec.toNat_ofNat, Nat.mod_eq_of_lt narrow, Nat.mod_self]
    exact Nat.zero_mod _
  exact absurd (chip_zero_of_subPartition gaps distinguishes inside same)
    (Nat.two_pow_pos _).ne'

omit initialized distinguishes in
theorem exists_bit (splits : t.Splits) {i : Nat} (inside : i < 64)
    (reached : t.ADDR_CHIP_S ≤ i → t.m_n_channel.toNat * 2 ^ i < 2 ^ 64) :
    ∃ addr, t.chipAndRest addr = some (0, BitVec.twoPow 64 i) := by
  have start := splits.start
  have bit : BitVec.ofNat 64 (2 ^ i) = BitVec.twoPow 64 i := by
    apply BitVec.eq_of_toNat_eq
    rw [BitVec.toNat_ofNat, BitVec.toNat_twoPow]
  cases Nat.lt_or_ge i t.ADDR_CHIP_S.toNat with
  | inl low =>
    have below : 2 ^ i < t.chunk := Nat.pow_lt_pow_right Nat.one_lt_two low
    have address : Interleaving.place t.chunk t.m_n_channel.toNat 0 0 (2 ^ i) = 2 ^ i := by
      simp [Interleaving.place]
    have small : 2 ^ i < 2 ^ 64 := Nat.pow_lt_pow_right Nat.one_lt_two inside
    have parts := chipAndRest_place gaps splits splits.channels_pos below (address ▸ small)
    rw [Nat.zero_mul, Nat.zero_add, bit] at parts
    exact ⟨_, parts⟩
  | inr high =>
    have power : 2 ^ (i - t.ADDR_CHIP_S.toNat) * t.chunk = 2 ^ i := by
      rw [chunk, ← pow_add, Nat.sub_add_cancel high]
    have address : Interleaving.place t.chunk t.m_n_channel.toNat
        (2 ^ (i - t.ADDR_CHIP_S.toNat)) 0 0 = t.m_n_channel.toNat * 2 ^ i := by
      rw [Interleaving.place, Nat.add_zero, Nat.add_zero, ← power, Nat.mul_left_comm, Nat.mul_assoc]
    have small := reached (by omega)
    have parts := chipAndRest_place gaps splits splits.channels_pos t.chunk_pos (address ▸ small)
    rw [Nat.add_zero, power, bit] at parts
    exact ⟨_, parts⟩

omit initialized in
theorem kept_of_distinguishes (initialized : t.Initialized) {i : Nat} (decoded : t.Decoded i)
    (reached : t.ADDR_CHIP_S ≤ i → t.m_n_channel.toNat * 2 ^ i < 2 ^ 64) : t.Kept i := by
  have splits := splits_of_distinguishes gaps distinguishes
  obtain ⟨_, _, isSet⟩ := id decoded
  have inside := BitVec.lt_of_getLsbD isSet
  obtain ⟨addr, parts⟩ := exists_bit gaps splits inside reached
  have parts' := chipAndRest_zero gaps splits.start splits.start_lt splits.positive
  have only : t.InDecodedBits addr := by
    refine ⟨_, _, parts, fun j bit => ?_⟩
    simp only [BitVec.getLsbD_twoPow, Bool.and_eq_true, decide_eq_true_eq] at bit
    exact bit.2 ▸ decoded
  have only' : t.InDecodedBits 0 := ⟨_, _, parts', fun j bit => by simp at bit⟩
  by_contra lost
  have different : addr ≠ 0 := by
    rintro rfl
    have rests := congrArg (fun rest => rest.getLsbD i)
      (Prod.mk.inj (Option.some.inj (parts.symm.trans parts'))).2
    simp [inside] at rests
  obtain ⟨tlx, tlx', decoded, decoded', apart⟩ := distinguishes.1 addr 0 only only' different
  apply apart
  rw [raw_eq_iff initialized parts parts' decoded decoded']
  refine ⟨rfl, fun j told => ?_⟩
  have other : i ≠ j := fun same => lost (same ▸ (kept_gap gaps j).mpr told)
  simp [other]

end Conflicts

theorem distinguishes_iff_lossless (initialized : t.Initialized) :
    t.Distinguishes ↔ t.Lossless := by
  by_cases noGap : t.gap = 0
  · rw [Distinguishes, raw_distinct_noGap_iff initialized noGap,
      pair_distinct_noGap_iff initialized noGap, Lossless, if_pos noGap]
  · constructor
    · intro distinguishes
      have splits := splits_of_distinguishes noGap distinguishes
      rw [Lossless, if_neg noGap]
      exact ⟨splits.start, splits.start_lt, splits.positive, splits.narrow,
        subPartitions_ne_zero initialized noGap distinguishes,
        product_le initialized noGap distinguishes,
        fun i decoded => kept_of_distinguishes noGap distinguishes initialized decoded⟩
    · exact lossless_distinguishes_gap initialized noGap

/-- A mapping that is accepted loses nothing of an address exactly if it is lossless. -/
theorem decoding_injective_iff {start t : Translation}
    {n_channel n_sub_partition_in_channel : BitVec 32}
    (accepted : start.init n_channel n_sub_partition_in_channel = some t) :
    t.Distinguishes ↔ t.Lossless :=
  distinguishes_iff_lossless (initialized_of_init accepted)

/-! ## Two mappings -/

/-- Six channels, and an option that is used for them. -/
def dramid8 : Option Translation :=
  (construct (some ("dramid@8;00000000.00000000.00000000.00000000." ++
    "0000RRRR.RRRRRRRR.BBBCCCCB.CCSSSSSS").toList) 0 false).init 6 2

theorem dramid8_accepted : dramid8.isSome := by decide

theorem decoding_injective_iff_dramid8 : (dramid8.get dramid8_accepted).Distinguishes := by
  refine (decoding_injective_iff (Option.some_get dramid8_accepted).symm).mpr ?_
  have kept : ∀ i : Fin 64,
      (∃ field ∈ (dramid8.get dramid8_accepted).maskFields,
        ((dramid8.get dramid8_accepted).addrdec_mask field).getLsbD i) →
      ∃ field ∈ (dramid8.get dramid8_accepted).maskFields,
        i.val ∈ (positions ((dramid8.get dramid8_accepted).addrdec_mask field)).take 32 := by
    decide +kernel
  rw [Lossless, if_neg (by decide)]
  refine ⟨by decide, by decide, by decide, by decide, by decide, by decide, fun i decoded _ => ?_⟩
  obtain ⟨field, member, bit⟩ := decoded
  exact kept ⟨i, BitVec.lt_of_getLsbD bit⟩ ⟨field, member, bit⟩

/-- Four channels, and more than 32 bits for the row. -/
def wideRow : Option Translation :=
  (construct (some ("dramid@8;RRRRRRRR.RRRRRRRR.RRRRRRRR.RRRRRRRR." ++
    "RRRRRRRR.BBBBCCCC.CCCCCCCC.SSSSSSSS").toList) 0 false).init 4 1

theorem wideRow_accepted : wideRow.isSome := by decide

/-- The row of an address is cut to 32 bits, and its highest bits make no difference. -/
theorem wideRow_aliases :
    ¬ ∀ start t n_channel n_sub_partition_in_channel,
      init start n_channel n_sub_partition_in_channel = some t → t.Distinguishes := by
  intro distinguishes
  have accepted : wideRow = some (wideRow.get wideRow_accepted) :=
    (Option.some_get wideRow_accepted).symm
  have noGap : (wideRow.get wideRow_accepted).gap = 0 := by decide
  have row : ((wideRow.get wideRow_accepted).addrdec_mask .ROW).getLsbD 63 := by decide
  have aliased : (wideRow.get wideRow_accepted).addrdec_tlx 0 =
      (wideRow.get wideRow_accepted).addrdec_tlx (BitVec.twoPow 64 63) := by decide +kernel
  have only : (wideRow.get wideRow_accepted).InDecodedBits 0 :=
    (inDecodedBits_noGap noGap).mpr fun i bit => by simp at bit
  have only' : (wideRow.get wideRow_accepted).InDecodedBits (BitVec.twoPow 64 63) := by
    rw [inDecodedBits_noGap noGap]
    intro i bit
    simp only [BitVec.getLsbD_twoPow, Bool.and_eq_true, decide_eq_true_eq] at bit
    rw [← bit.2]
    exact ⟨.ROW, by rw [maskFields, if_pos noGap]; decide, row⟩
  obtain ⟨tlx, tlx', decoded, decoded', apart⟩ :=
    (distinguishes _ _ _ _ accepted).1 0 _ only only' (by decide)
  rw [aliased] at decoded
  exact apart (congrArg AddrDec.raw (Option.some.inj (decoded.symm.trans decoded')))

end AesOnGpu.AddressDecoding.Translation
