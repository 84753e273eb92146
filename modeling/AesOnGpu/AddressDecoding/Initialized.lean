import AesOnGpu.AddressDecoding.Translation

/-! # Initialized translations

What `init` leaves behind, whatever the masks were before: the limits are those of
the masks, the number of sub-partitions is a power of two or 0, and the mask of
the sub-partition has the lowest bank bits.
-/

namespace AesOnGpu.AddressDecoding

open Packing

/-! ## The loops over the bits of a mask -/

/-- Of the bits below `n`, those set lie in the limits found so far. -/
def Limits (mask : Address) (n : Nat) : Nat × Nat × Bool → Prop
  | (high, _, false) => high = 64 ∧ ∀ i < n, mask.getLsbD i = false
  | (high, low, true) => low < n ∧ high ≤ n ∧ ∀ i < n, mask.getLsbD i → low ≤ i ∧ i < high

theorem limitTurn_limits {mask : Address} {n : Nat} {state : Nat × Nat × Bool}
    (limits : Limits mask n state) : Limits mask (n + 1) (limitTurn mask state n) := by
  obtain ⟨high, low, found⟩ := state
  cases isSet : mask.getLsbD n with
  | false =>
    rw [limitTurn, isSet, if_neg Bool.false_ne_true]
    cases found with
    | false =>
      refine ⟨limits.1, fun i below => ?_⟩
      cases Nat.lt_succ_iff_lt_or_eq.mp below with
      | inl earlier => exact limits.2 i earlier
      | inr here => rw [here, isSet]
    | true =>
      obtain ⟨low_lt, high_le, inside⟩ := limits
      refine ⟨Nat.lt_succ_of_lt low_lt, Nat.le_succ_of_le high_le, fun i below bit => ?_⟩
      cases Nat.lt_succ_iff_lt_or_eq.mp below with
      | inl earlier => exact inside i earlier bit
      | inr here => simp [here, isSet] at bit
  | true =>
    rw [limitTurn, if_pos isSet]
    cases found with
    | false =>
      refine ⟨Nat.lt_succ_self n, Nat.le_refl _, fun i below bit => ⟨?_, below⟩⟩
      cases Nat.lt_succ_iff_lt_or_eq.mp below with
      | inl earlier => simp [limits.2 i earlier] at bit
      | inr here => exact Nat.le_of_eq here.symm
    | true =>
      obtain ⟨low_lt, high_le, inside⟩ := limits
      refine ⟨Nat.lt_succ_of_lt low_lt, Nat.le_refl _, fun i below bit => ⟨?_, below⟩⟩
      cases Nat.lt_succ_iff_lt_or_eq.mp below with
      | inl earlier => exact (inside i earlier bit).1
      | inr here => exact Nat.le_trans (Nat.le_of_lt low_lt) (Nat.le_of_eq here.symm)

theorem limits_foldl (mask : Address) (n : Nat) :
    Limits mask n ((List.range n).foldl (limitTurn mask) (64, 0, false)) := by
  induction n with
  | zero => exact ⟨rfl, fun i below => absurd below (Nat.not_lt_zero i)⟩
  | succ n ih =>
    rw [List.range_succ, List.foldl_append]
    exact limitTurn_limits ih

theorem Limits.bounds {mask : Address} {state : Nat × Nat × Bool} (limits : Limits mask 64 state) :
    state.1 ≤ 64 ∧ ∀ i, mask.getLsbD i → state.2.1 ≤ i ∧ i < state.1 := by
  obtain ⟨high, low, found⟩ := state
  cases found with
  | false =>
    refine ⟨Nat.le_of_eq limits.1, fun i bit => ?_⟩
    simp [limits.2 i (BitVec.lt_of_getLsbD bit)] at bit
  | true => exact ⟨limits.2.1, fun i bit => limits.2.2 i (BitVec.lt_of_getLsbD bit) bit⟩

theorem packbits_eq {mask : Address} {high low : Nat} (inside : high ≤ 64)
    (bounds : ∀ i, mask.getLsbD i → low ≤ i ∧ i < high) (val : Address) :
    addrdec_packbits mask val high low = pack (positions mask) val := by
  rw [addrdec_packbits, ← List.foldl_filter, ← positions_eq_range' inside bounds]
  rfl

theorem packbits_all (mask val : Address) :
    addrdec_packbits mask val 64 0 = pack (positions mask) val :=
  packbits_eq (Nat.le_refl _) (fun i bit => ⟨Nat.zero_le i, BitVec.lt_of_getLsbD bit⟩) val

theorem getLsbD_or_shift {j : Nat} (inside : j < 64) (id : Address) (i : Nat) :
    (id ||| 1#64 <<< j).getLsbD i ↔ id.getLsbD i ∨ i = j := by
  rw [← BitVec.twoPow_eq, BitVec.getLsbD_or, BitVec.getLsbD_twoPow]
  simp [inside, @eq_comm Nat j i]

theorem getLsbD_idMask {mask : Address} {n : Nat} (is : List Nat) (id : Address) {pos : Nat}
    (missing : pos < n) (i : Nat) :
    (Translation.idMask mask n is id pos).getLsbD i ↔
      id.getLsbD i ∨ i ∈ (is.filter mask.getLsbD).take (n - pos) := by
  induction is generalizing id pos with
  | nil => simp [Translation.idMask]
  | cons j is ih =>
    rw [Translation.idMask]
    by_cases isSet : mask.getLsbD j
    · have rest : n - pos = (n - (pos + 1)) + 1 := by omega
      rw [if_pos isSet, List.filter_cons_of_pos isSet, rest, List.take_succ_cons, List.mem_cons,
        ← or_assoc,
        ← getLsbD_or_shift (BitVec.lt_of_getLsbD isSet)]
      split
      · rename_i last
        have none : n - (pos + 1) = 0 := by omega
        rw [none, List.take_zero]
        simp
      · exact ih _ (by omega)
    · rw [if_neg isSet, List.filter_cons_of_neg isSet]
      exact ih id missing

/-! ## The number of sub-partitions -/

theorem logb2_twoPow : ∀ k : Fin 31, LOGB2_32 (BitVec.twoPow 32 k) = k := by decide

theorem twoPow_of_and_pred {m : BitVec 32} (notMin : m ≠ BitVec.intMin 32) (notZero : m ≠ 0)
    (disjoint : m &&& (m - 1) = 0) : ∃ k < 31, m = BitVec.twoPow 32 k := by
  have positive : m.toNat ≠ 0 := fun zero => notZero (BitVec.eq_of_toNat_eq zero)
  have pred : (m - 1).toNat = m.toNat - 1 := by
    rw [BitVec.toNat_sub_of_le]
    · rfl
    · exact Nat.pos_of_ne_zero positive
  have power : m.toNat.isPowerOfTwo := by
    rw [← Nat.and_sub_one_eq_zero_iff_isPowerOfTwo positive, ← pred, ← BitVec.toNat_and, disjoint]
    rfl
  obtain ⟨k, isPower⟩ := power
  have small : k < 32 := (Nat.pow_lt_pow_iff_right (by decide)).mp (isPower ▸ m.isLt)
  have same : m = BitVec.twoPow 32 k := by
    apply BitVec.eq_of_toNat_eq
    rw [isPower, BitVec.toNat_twoPow, Nat.mod_eq_of_lt (isPower ▸ m.isLt)]
  refine ⟨k, ?_, same⟩
  have notTop : k ≠ 31 := by
    intro top
    apply notMin
    rw [same, top]
    rfl
  omega

namespace Translation

/-! ## Initialization -/

structure Initialized (t : Translation) : Prop where
  unpack : ∀ field addr,
    t.unpack field addr = (pack (positions (t.addrdec_mask field)) addr).setWidth 32
  subPartitions : t.m_n_sub_partition_in_channel = 0 ∨
    ∃ k < 31, t.m_n_sub_partition_in_channel = BitVec.twoPow 32 k
  noIdMask : t.m_n_sub_partition_in_channel = 0 → t.sub_partition_id_mask = 0
  idMask : ∀ k < 31, t.m_n_sub_partition_in_channel = BitVec.twoPow 32 k →
    ∀ i, t.sub_partition_id_mask.getLsbD i ↔ i ∈ (positions (t.addrdec_mask .BK)).take k
  channels : t.gap ≠ 0 → t.m_n_channel ≠ 1

/-- What the masks are chosen for. -/
def counts (t : Translation) : BitVec 32 × BitVec 32 × BitVec 32 :=
  (t.gap, t.m_n_channel, t.m_n_sub_partition_in_channel)

theorem counts_selectMasks (t : Translation) : t.selectMasks.counts = t.counts := by
  rw [selectMasks]
  split <;> rfl

theorem counts_parseoption {t t' : Translation} {option : List Char}
    (parsed : t.addrdec_parseoption option = some t') : t'.counts = t.counts := by
  simp only [addrdec_parseoption, Option.bind_eq_bind] at parsed
  split at parsed
  · simp at parsed
  · obtain ⟨state, _, last⟩ := Option.bind_eq_some_iff.mp parsed
    split at last
    · rw [← Option.some.inj last]
      rfl
    · simp at last

theorem counts_insertChip {t t' : Translation} {nchipbits : Nat}
    (inserted : t.insertChip nchipbits = some t') : t'.counts = t.counts := by
  rw [insertChip] at inserted
  split at inserted
  · split at inserted
    · split at inserted
      · rw [← Option.some.inj inserted]
        rfl
      · simp at inserted
    · rw [Option.some.inj inserted]
  · split at inserted
    · rw [Option.some.inj inserted]
    · simp at inserted

theorem init_finished {t t' : Translation} {n_channel n_sub_partition_in_channel : BitVec 32}
    (accepted : t.init n_channel n_sub_partition_in_channel = some t') :
    ∃ masked : Translation, t' = masked.setLimits.setIdMask ∧
      masked.counts = (n_channel - BitVec.ofNat 32 (2 ^ LOGB2_32 n_channel), n_channel,
        n_sub_partition_in_channel) ∧
      n_sub_partition_in_channel ≠ BitVec.intMin 32 ∧
      n_sub_partition_in_channel &&& (n_sub_partition_in_channel - 1) = 0 := by
  simp only [init, Option.bind_eq_bind] at accepted
  obtain ⟨parsed, parse, accepted⟩ := Option.bind_eq_some_iff.mp accepted
  obtain ⟨masked, insert, accepted⟩ := Option.bind_eq_some_iff.mp accepted
  have counts := counts_insertChip insert
  have counts' : parsed.counts = (n_channel - BitVec.ofNat 32 (2 ^ LOGB2_32 n_channel), n_channel,
      n_sub_partition_in_channel) := by
    rw [readMapping] at parse
    split at parse
    · exact (counts_parseoption parse).trans (counts_selectMasks _)
    · rw [← Option.some.inj parse]
      exact counts_selectMasks _
  split at accepted
  · rename_i power
    refine ⟨masked, ?_, counts.trans counts', power⟩
    split at accepted
    · obtain ⟨_, _, same⟩ := Option.map_eq_some_iff.mp accepted
      exact same.symm
    · exact (Option.some.inj accepted).symm
  · simp at accepted

theorem getLsbD_setIdMask (t : Translation) (inside : t.addrdec_mkhigh .BK ≤ 64)
    (bounds : ∀ i, (t.addrdec_mask .BK).getLsbD i →
      t.addrdec_mklow .BK ≤ i ∧ i < t.addrdec_mkhigh .BK)
    {k : Nat} (small : k < 31) (power : t.m_n_sub_partition_in_channel = BitVec.twoPow 32 k)
    (i : Nat) :
    t.setIdMask.sub_partition_id_mask.getLsbD i ↔
      i ∈ (positions (t.addrdec_mask .BK)).take k := by
  have log : LOGB2_32 (BitVec.twoPow 32 k) = k := logb2_twoPow ⟨k, small⟩
  rw [setIdMask, power, log]
  cases k with
  | zero =>
    have one : ¬1 < (BitVec.twoPow 32 0).toInt := by decide
    rw [if_neg one]
    simp
  | succ k =>
    have several : 1 < (BitVec.twoPow 32 (k + 1)).toInt := by
      rw [BitVec.toInt_twoPow, if_neg (by omega), if_neg (by omega)]
      exact one_lt_pow₀ one_lt_two (Nat.succ_ne_zero k)
    rw [if_pos several, getLsbD_idMask _ _ (Nat.succ_pos k), ← positions_eq_range' inside bounds]
    simp

theorem initialized_of_init {t t' : Translation}
    {n_channel n_sub_partition_in_channel : BitVec 32}
    (accepted : t.init n_channel n_sub_partition_in_channel = some t') : t'.Initialized := by
  obtain ⟨masked, rfl, counts, notMin, power⟩ := init_finished accepted
  have gap : masked.gap = _ := congrArg Prod.fst counts
  have channels : masked.m_n_channel = _ := congrArg (fun c => c.2.1) counts
  have subPartitions : masked.m_n_sub_partition_in_channel = _ := congrArg (fun c => c.2.2) counts
  simp only at gap channels subPartitions
  have bounds (field : Field) := (limits_foldl (masked.addrdec_mask field) 64).bounds
  constructor
  · intro field addr
    have packed := packbits_eq (bounds field).1 (bounds field).2 addr
    exact congrArg (BitVec.setWidth 32) packed
  · show masked.m_n_sub_partition_in_channel = 0 ∨ _
    rw [subPartitions]
    by_cases notZero : n_sub_partition_in_channel = 0
    · exact Or.inl notZero
    · obtain ⟨k, small, same⟩ := twoPow_of_and_pred notMin notZero power
      exact Or.inr ⟨k, small, subPartitions.trans same⟩
  · intro none
    show (if 1 < masked.m_n_sub_partition_in_channel.toInt then _ else _) = _
    have zero : masked.m_n_sub_partition_in_channel = 0 := none
    rw [zero]
    rfl
  · intro k small same i
    exact getLsbD_setIdMask masked.setLimits (bounds .BK).1 (bounds .BK).2 small same i
  · intro gaps one
    apply gaps
    have one' : masked.m_n_channel = 1 := one
    show masked.gap = 0
    rw [gap, ← channels, one']
    decide

end Translation

end AesOnGpu.AddressDecoding
