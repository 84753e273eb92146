import AesOnGpu.AddressDecoding.Views

/-! # The chip as a field

With a power of two of channels all fields are cut out by masks, and what a view
tells are bits of the address.
-/

namespace AesOnGpu.AddressDecoding.Translation

open Packing

section NoGap

variable {t : Translation} (initialized : t.Initialized) (noGap : t.gap = 0)
  {addr addr' : Address} {chip chip' : BitVec 32} {rest rest' : Address}

include initialized noGap

omit initialized in
theorem chipAndRest_noGap (addr : Address) :
    t.chipAndRest addr = some (t.unpack .CHIP addr, addr) := by
  rw [chipAndRest, if_pos noGap]

omit initialized in
theorem inDecodedBits_noGap : t.InDecodedBits addr ↔ ∀ i, addr.getLsbD i → t.Decoded i := by
  rw [InDecodedBits, chipAndRest_noGap noGap]
  simp

omit initialized in
theorem kept_noGap (i : Nat) :
    t.Kept i ↔ i ∈ (positions (t.addrdec_mask .CHIP)).take 32 ∨ t.RestKept i := by
  simp [Kept, maskFields, noGap, RestKept]

theorem raw_eq_iff_noGap {tlx tlx' : AddrDec} (decoded : t.addrdec_tlx addr = some tlx)
    (decoded' : t.addrdec_tlx addr' = some tlx') :
    tlx.raw = tlx'.raw ↔ ∀ i, t.Kept i → addr.getLsbD i = addr'.getLsbD i := by
  rw [raw_eq_iff initialized (chipAndRest_noGap noGap addr) (chipAndRest_noGap noGap addr') decoded
    decoded', unpack_eq_iff initialized]
  simp only [kept_noGap noGap, or_imp, forall_and]

theorem raw_distinct_noGap_iff :
    (∀ addr addr', t.InDecodedBits addr → t.InDecodedBits addr' → addr ≠ addr' →
      ∃ tlx tlx', t.addrdec_tlx addr = some tlx ∧ t.addrdec_tlx addr' = some tlx' ∧
        tlx.raw ≠ tlx'.raw) ↔ ∀ i, t.Decoded i → t.Kept i := by
  have apart := @told_apart_iff 64 t.Decoded t.Kept
  have everywhere : (∀ i < 64, t.Decoded i → t.Kept i) ↔ ∀ i, t.Decoded i → t.Kept i := by
    constructor
    · intro below i decoded
      obtain ⟨field, _, bit⟩ := id decoded
      exact below i (BitVec.lt_of_getLsbD bit) decoded
    · exact fun all i _ => all i
  rw [← everywhere, ← apart]
  constructor
  · intro distinct addr addr' only only' same
    by_contra different
    obtain ⟨tlx, tlx', decoded, decoded', apart⟩ := distinct addr addr'
      ((inDecodedBits_noGap noGap).mpr only) ((inDecodedBits_noGap noGap).mpr only') different
    exact apart ((raw_eq_iff_noGap initialized noGap decoded decoded').mpr same)
  · intro apart addr addr' only only' different
    obtain ⟨tlx, decoded, _⟩ := tlx_eq (chipAndRest_noGap noGap addr)
    obtain ⟨tlx', decoded', _⟩ := tlx_eq (chipAndRest_noGap noGap addr')
    refine ⟨tlx, tlx', decoded, decoded', fun same => different ?_⟩
    exact apart addr addr' ((inDecodedBits_noGap noGap).mp only)
      ((inDecodedBits_noGap noGap).mp only')
      ((raw_eq_iff_noGap initialized noGap decoded decoded').mp same)

omit initialized in
theorem partition_address_noGap (addr : Address) :
    t.partition_address addr =
      some (pack (positions (~~~(t.addrdec_mask .CHIP ||| t.sub_partition_id_mask))) addr) := by
  rw [partition_address, if_pos noGap, packbits_all]

omit noGap in
theorem subPartition_eq_iff_noGap :
    t.subPartition (t.unpack .CHIP addr) addr = t.subPartition (t.unpack .CHIP addr') addr' ↔
      ∀ i ∈ t.subPartitionBits, addr.getLsbD i = addr'.getLsbD i := by
  cases initialized.subPartitions with
  | inl none => rw [subPartition_eq_iff_zero initialized none, subPartitionBits, if_pos none]
  | inr several =>
    obtain ⟨k, small, power⟩ := several
    have log : LOGB2_32 (BitVec.twoPow 32 k) = k := logb2_twoPow ⟨k, small⟩
    rw [subPartition_eq_iff initialized small power, unpack_mod_eq_iff initialized (by omega),
      subPartitionBits, power, if_neg (twoPow_ne_zero small), log]
    simp only [List.mem_append, or_imp, forall_and]

omit noGap in
theorem idMask_subPartitionBits {i : Nat} (bit : t.sub_partition_id_mask.getLsbD i) :
    i ∈ t.subPartitionBits := by
  cases initialized.subPartitions with
  | inl none =>
    rw [initialized.noIdMask none] at bit
    simp at bit
  | inr several =>
    obtain ⟨k, small, power⟩ := several
    have log : LOGB2_32 (BitVec.twoPow 32 k) = k := logb2_twoPow ⟨k, small⟩
    rw [subPartitionBits, power, if_neg (twoPow_ne_zero small), log]
    exact List.mem_append_right _ ((initialized.idMask k small power i).mp bit)

def PairBits (t : Translation) (i : Nat) : Prop :=
  i ∈ t.subPartitionBits ∨
    (i < 64 ∧ ¬(t.addrdec_mask .CHIP ||| t.sub_partition_id_mask).getLsbD i)

theorem pair_eq_iff_noGap {tlx tlx' : AddrDec} {part part' : Address}
    (decoded : t.addrdec_tlx addr = some tlx) (decoded' : t.addrdec_tlx addr' = some tlx')
    (view : t.partition_address addr = some part) (view' : t.partition_address addr' = some part') :
    (tlx.sub_partition, part) = (tlx'.sub_partition, part') ↔
      ∀ i, t.PairBits i → addr.getLsbD i = addr'.getLsbD i := by
  obtain ⟨_, some, _, sub⟩ := tlx_eq (chipAndRest_noGap noGap addr)
  obtain ⟨_, some', _, sub'⟩ := tlx_eq (chipAndRest_noGap noGap addr')
  obtain rfl := Option.some.inj (decoded.symm.trans some)
  obtain rfl := Option.some.inj (decoded'.symm.trans some')
  rw [partition_address_noGap noGap] at view view'
  rw [← Option.some.inj view, ← Option.some.inj view', Prod.mk.injEq, sub, sub',
    subPartition_eq_iff_noGap initialized, pack_not_eq_iff]
  simp only [PairBits, or_imp, and_imp, forall_and]

theorem pair_distinct_noGap_iff :
    (∀ addr addr', addr ≠ addr' →
      ∃ tlx tlx' part part', t.addrdec_tlx addr = some tlx ∧ t.addrdec_tlx addr' = some tlx' ∧
        t.partition_address addr = some part ∧ t.partition_address addr' = some part' ∧
        (tlx.sub_partition, part) ≠ (tlx'.sub_partition, part')) ↔
      ∀ i, (t.addrdec_mask .CHIP).getLsbD i → i ∈ t.subPartitionBits := by
  have apart := @told_apart_iff 64 (fun _ => True) t.PairBits
  have chipOnly : (∀ i < 64, True → t.PairBits i) ↔
      ∀ i, (t.addrdec_mask .CHIP).getLsbD i → i ∈ t.subPartitionBits := by
    constructor
    · intro all i chip
      cases all i (BitVec.lt_of_getLsbD chip) trivial with
      | inl told => exact told
      | inr outside => exact absurd (by simp [chip]) outside.2
    · intro chips i inside _
      by_cases masked : (t.addrdec_mask .CHIP ||| t.sub_partition_id_mask).getLsbD i
      · rw [BitVec.getLsbD_or, Bool.or_eq_true] at masked
        cases masked with
        | inl chip => exact Or.inl (chips i chip)
        | inr id => exact Or.inl (idMask_subPartitionBits initialized id)
      · exact Or.inr ⟨inside, masked⟩
  rw [← chipOnly, ← apart]
  constructor
  · intro distinct addr addr' _ _ same
    by_contra different
    obtain ⟨tlx, tlx', part, part', decoded, decoded', view, view', apart⟩ :=
      distinct addr addr' different
    exact apart ((pair_eq_iff_noGap initialized noGap decoded decoded' view view').mpr same)
  · intro apart addr addr' different
    obtain ⟨tlx, decoded, _⟩ := tlx_eq (chipAndRest_noGap noGap addr)
    obtain ⟨tlx', decoded', _⟩ := tlx_eq (chipAndRest_noGap noGap addr')
    have view := partition_address_noGap noGap addr
    have view' := partition_address_noGap noGap addr'
    refine ⟨tlx, tlx', _, _, decoded, decoded', view, view', fun same => different ?_⟩
    exact apart addr addr' (fun _ _ => trivial) (fun _ _ => trivial)
      ((pair_eq_iff_noGap initialized noGap decoded decoded' view view').mp same)

end NoGap

end AesOnGpu.AddressDecoding.Translation
