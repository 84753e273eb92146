import AesOnGpu.AddressDecoding.ChipField
import AesOnGpu.AddressDecoding.ChipRemainder

/-! # Chips and sub-partitions in range

Which of the accepted options give only chips below the number of channels.  The chips of a
power of two of channels have as many values as bits are in their mask, so that it comes down
to the size of the mask that an option leaves.
-/

namespace AesOnGpu.AddressDecoding.Translation

open Packing

def InRange (t : Translation) : Prop :=
  ∀ addr, ∃ tlx, t.addrdec_tlx addr = some tlx ∧ tlx.chip.toNat < t.m_n_channel.toNat ∧
    tlx.sub_partition.toNat < t.m_n_channel.toNat * t.m_n_sub_partition_in_channel.toNat

section Decoded

variable {t : Translation} (initialized : t.Initialized)

theorem subPartition_lt {k n : Nat} (small : k < 31)
    (power : t.m_n_sub_partition_in_channel = BitVec.twoPow 32 k) {chip : BitVec 32}
    (below : chip.toNat < n) (rest : Address) :
    (t.subPartition chip rest).toNat < n * t.m_n_sub_partition_in_channel.toNat := by
  have low : (t.unpack .BK rest).toNat % 2 ^ k < 2 ^ k := Nat.mod_lt _ (Nat.two_pow_pos k)
  rw [toNat_subPartition small power, power, toNat_twoPow small]
  calc (chip.toNat * 2 ^ k + (t.unpack .BK rest).toNat % 2 ^ k) % 2 ^ 32
      ≤ chip.toNat * 2 ^ k + (t.unpack .BK rest).toNat % 2 ^ k := Nat.mod_le _ _
    _ < chip.toNat * 2 ^ k + 2 ^ k := Nat.add_lt_add_left low _
    _ = (chip.toNat + 1) * 2 ^ k := (Nat.succ_mul _ _).symm
    _ ≤ n * 2 ^ k := Nat.mul_le_mul_right _ below

include initialized

theorem inRange_iff_chip : t.InRange ↔ t.m_n_sub_partition_in_channel ≠ 0 ∧
    ∀ addr, ∃ chip rest, t.chipAndRest addr = some (chip, rest) ∧
      chip.toNat < t.m_n_channel.toNat := by
  constructor
  · intro inRange
    constructor
    · intro none
      obtain ⟨tlx, _, _, sub⟩ := inRange 0
      rw [none] at sub
      exact absurd sub (Nat.not_lt_zero _)
    · intro addr
      obtain ⟨tlx, decoded, below, _⟩ := inRange addr
      obtain ⟨⟨chip, rest⟩, parts, _⟩ := Option.bind_eq_some_iff.mp decoded
      obtain ⟨_, some, raw, _⟩ := tlx_eq parts
      obtain rfl := Option.some.inj (decoded.symm.trans some)
      have same : tlx.chip = chip := (Prod.mk.inj raw).1
      exact ⟨chip, rest, parts, same ▸ below⟩
  · rintro ⟨several, chips⟩ addr
    obtain ⟨chip, rest, parts, below⟩ := chips addr
    obtain ⟨tlx, decoded, raw, sub⟩ := tlx_eq parts
    obtain ⟨k, small, power⟩ := initialized.subPartitions.resolve_left several
    have same : tlx.chip = chip := (Prod.mk.inj raw).1
    refine ⟨tlx, decoded, same ▸ below, ?_⟩
    rw [sub]
    exact subPartition_lt small power below rest

theorem inRange_iff_noGap (noGap : t.gap = 0) : t.InRange ↔
    t.m_n_sub_partition_in_channel ≠ 0 ∧
      2 ^ (positions (t.addrdec_mask .CHIP)).length ≤ t.m_n_channel.toNat := by
  have chip (addr : Address) : (t.unpack .CHIP addr).toNat =
      (pack (positions (t.addrdec_mask .CHIP)) addr).toNat % 2 ^ 32 := by
    rw [initialized.unpack, BitVec.toNat_setWidth]
  rw [inRange_iff_chip initialized]
  refine and_congr_right fun _ => ⟨fun chips => ?_, fun fits addr => ?_⟩
  · obtain ⟨_, _, parts, below⟩ := chips (BitVec.allOnes 64)
    obtain ⟨rfl, rfl⟩ := Prod.mk.inj
      (Option.some.inj ((chipAndRest_noGap noGap _).symm.trans parts))
    rw [chip, pack_allOnes] at below
    -- with 32 bits or more the largest chip is that of all ones
    have channels := t.m_n_channel.isLt
    by_cases narrow : (positions (t.addrdec_mask .CHIP)).length < 32
    · have small := Nat.pow_lt_pow_right Nat.one_lt_two narrow
      rw [Nat.mod_eq_of_lt (by omega)] at below
      omega
    · have wide : 2 ^ (positions (t.addrdec_mask .CHIP)).length =
          2 ^ 32 * 2 ^ ((positions (t.addrdec_mask .CHIP)).length - 32) := by
        rw [← pow_add, Nat.add_sub_cancel' (Nat.le_of_not_lt narrow)]
      have positive := Nat.two_pow_pos ((positions (t.addrdec_mask .CHIP)).length - 32)
      omega
  · refine ⟨_, _, chipAndRest_noGap noGap addr, ?_⟩
    rw [chip]
    exact Nat.lt_of_le_of_lt (Nat.mod_le _ _) (Nat.lt_of_lt_of_le (pack_lt addr _) fits)

theorem inRange_iff_gap (gaps : t.gap ≠ 0) : t.InRange ↔
    t.m_n_sub_partition_in_channel ≠ 0 ∧ t.Splits := by
  rw [inRange_iff_chip initialized]
  refine and_congr_right fun _ => ⟨fun chips => ?_, fun splits addr => ?_⟩
  · obtain ⟨start, start_lt, positive⟩ :
        0 ≤ t.ADDR_CHIP_S ∧ t.ADDR_CHIP_S < 31 ∧ t.m_n_channel ≠ 0 := by
      obtain ⟨chip, rest, parts, _⟩ := chips 0
      by_contra unsplit
      rw [chipAndRest, if_neg gaps, splitChip, if_neg unsplit] at parts
      simp at parts
    refine ⟨start, start_lt, positive, ?_⟩
    by_contra wide
    -- the number is taken for a huge one, so that the chip of this address is all ones
    obtain ⟨chip, rest, parts, below⟩ :=
      chips ((BitVec.allOnes 32).setWidth 64 <<< t.ADDR_CHIP_S.toNat)
    have small : t.ADDR_CHIP_S.toNat < 31 := by omega
    have msb : t.m_n_channel.msb = true := BitVec.msb_eq_true_iff_two_mul_ge.mpr (by omega)
    have huge : 2 ^ 63 < (t.m_n_channel.signExtend 64).toNat := by
      rw [BitVec.toNat_signExtend, msb, if_pos rfl]
      omega
    have shifted : (((BitVec.allOnes 32).setWidth 64 <<< t.ADDR_CHIP_S.toNat) >>>
        t.ADDR_CHIP_S.toNat).toNat = 2 ^ 32 - 1 := by
      have ones : ((BitVec.allOnes 32).setWidth 64).toNat = 2 ^ 32 - 1 := by decide
      have bound : (2 ^ 32 - 1) * 2 ^ t.ADDR_CHIP_S.toNat < 2 ^ 64 := by
        have power : 2 ^ t.ADDR_CHIP_S.toNat ≤ 2 ^ 30 :=
          Nat.pow_le_pow_right (Nat.two_pow_pos 1) (by omega)
        omega
      rw [BitVec.toNat_ushiftRight, BitVec.toNat_shiftLeft, ones, Nat.shiftLeft_eq,
        Nat.mod_eq_of_lt bound, Nat.shiftRight_eq_div_pow,
        Nat.mul_div_cancel _ (Nat.two_pow_pos _)]
    rw [chipAndRest, if_neg gaps, splitChip, if_pos ⟨start, start_lt, positive⟩, Option.map_some]
      at parts
    obtain ⟨rfl, _⟩ := Prod.mk.inj (Option.some.inj parts)
    have channels := t.m_n_channel.isLt
    have ones : 2 ^ 32 - 1 < (t.m_n_channel.signExtend 64).toNat := by omega
    rw [BitVec.toNat_setWidth, BitVec.toNat_umod, shifted, Nat.mod_eq_of_lt ones,
      Nat.mod_eq_of_lt (by decide)] at below
    omega
  · obtain ⟨chip, rest, parts, toChip, _⟩ := chipAndRest_gap gaps splits addr
    exact ⟨chip, rest, parts, toChip ▸ Nat.mod_lt _ splits.channels_pos⟩

end Decoded

/-! ## What the options leave in the mask -/

def namesChip (c : Char) : Bool := c = 'D' ∨ c = 'd'

theorem mappingTurn_chip {dramid_parsed : Bool} {masks masks' : Masks} {ofs ofs' : Int} {c : Char}
    (turned : mappingTurn dramid_parsed (masks, ofs) c = some (masks', ofs')) :
    (namesChip c = true ∧ dramid_parsed = false ∧ 0 ≤ ofs ∧ ofs' = ofs - 1 ∧
      masks' .CHIP = masks .CHIP ||| 1#64 <<< ofs.toNat) ∨
    (namesChip c = false ∧ ofs' ≤ ofs ∧ masks' .CHIP = masks .CHIP) := by
  have select {fields : List Field}
      (selected : mappingTurn.select (masks, ofs) fields = some (masks', ofs')) :
      0 ≤ ofs ∧ ofs' = ofs - 1 ∧ masks' .CHIP =
        if Field.CHIP ∈ fields then masks .CHIP ||| 1#64 <<< ofs.toNat else masks .CHIP := by
    rw [mappingTurn.select] at selected
    split at selected
    · rename_i inside
      obtain ⟨rfl, rfl⟩ := Prod.mk.inj (Option.some.inj selected)
      exact ⟨inside, rfl, rfl⟩
    · cases selected
  rw [mappingTurn.eq_def] at turned
  split at turned
  case h_1 | h_2 =>
    split at turned
    · cases turned
    · rename_i unparsed
      obtain ⟨inside, next, chip⟩ := select turned
      exact Or.inl ⟨by decide, Bool.eq_false_iff.mpr unparsed, inside, next, chip⟩
  case h_11 =>
    obtain ⟨rfl, rfl⟩ := Prod.mk.inj (Option.some.inj turned)
    exact Or.inr ⟨by decide, by omega, rfl⟩
  case h_12 =>
    rename_i upper lower _ _ _ _ _ _ _ _ _
    obtain ⟨rfl, rfl⟩ := Prod.mk.inj (Option.some.inj turned)
    refine Or.inr ⟨?_, le_refl _, rfl⟩
    rw [namesChip, decide_eq_false_iff_not]
    exact fun named => named.elim upper lower
  all_goals
    obtain ⟨inside, next, chip⟩ := select turned
    exact Or.inr ⟨by decide, by omega, chip⟩

theorem mapping_chip {dramid_parsed : Bool} {mapping : List Char} {masks masks' : Masks}
    {ofs ofs' : Int} (narrow : ofs < 64) (above : ∀ i, (masks .CHIP).getLsbD i → ofs < i)
    (mapped : mapping.foldlM (mappingTurn dramid_parsed) (masks, ofs) = some (masks', ofs')) :
    (positions (masks' .CHIP)).length =
        (positions (masks .CHIP)).length + mapping.countP namesChip ∧
      (dramid_parsed = true → masks' .CHIP = masks .CHIP) := by
  induction mapping generalizing masks ofs with
  | nil =>
    obtain ⟨rfl, rfl⟩ := Prod.mk.inj (Option.some.inj mapped)
    exact ⟨rfl, fun _ => rfl⟩
  | cons c mapping ih =>
    rw [List.foldlM_cons] at mapped
    obtain ⟨⟨next, ofs''⟩, turned, mapped⟩ := Option.bind_eq_some_iff.mp mapped
    cases mappingTurn_chip turned with
    | inl named =>
      obtain ⟨isChip, unparsed, inside, lower, chip⟩ := named
      have below : ofs.toNat < 64 := by omega
      have missing : (masks .CHIP).getLsbD ofs.toNat = false := Bool.eq_false_iff.mpr fun bit => by
        have := above _ bit
        omega
      have bits (i : Nat) : (next .CHIP).getLsbD i ↔ (masks .CHIP).getLsbD i ∨ i = ofs.toNat := by
        rw [chip]
        exact getLsbD_or_shift below _ i
      obtain ⟨counted, _⟩ := ih (by omega) (fun i bit => by
        cases (bits i).mp bit with
        | inl old =>
          have := above i old
          omega
        | inr new => omega) mapped
      refine ⟨?_, fun parsed => by rw [parsed] at unparsed; cases unparsed⟩
      rw [counted, length_positions_insert below missing bits, List.countP_cons, isChip, if_pos rfl]
      omega
    | inr other =>
      obtain ⟨notChip, lower, chip⟩ := other
      obtain ⟨counted, same⟩ := ih (by omega) (fun i bit => by
        rw [chip] at bit
        have := above i bit
        omega) mapped
      refine ⟨?_, fun parsed => (same parsed).trans chip⟩
      rw [counted, chip, List.countP_cons, notChip]
      rfl

theorem parseoption_chip {t parsed : Translation} {option : List Char}
    (parse : t.addrdec_parseoption option = some parsed) :
    parsed.ADDR_CHIP_S = (scanDramid option).getD (-1) ∧
      (positions (parsed.addrdec_mask .CHIP)).length = (cmapping option).countP namesChip ∧
      ((scanDramid option).isSome = true → parsed.addrdec_mask .CHIP = 0) := by
  simp only [addrdec_parseoption, Option.bind_eq_bind] at parse
  split at parse
  · cases parse
  · obtain ⟨⟨masks, ofs⟩, mapped, last⟩ := Option.bind_eq_some_iff.mp parse
    split at last
    · obtain rfl := Option.some.inj last
      have none (i : Nat) (bit : (0 : Address).getLsbD i) : (63 : Int) < i := by simp at bit
      obtain ⟨counted, same⟩ := mapping_chip (by decide) none mapped
      have empty : (positions (0 : Address)).length = 0 := by decide
      exact ⟨rfl, by rw [counted, empty, Nat.zero_add], same⟩
    · cases last

def knownMasks : List Int := [0, 1, 2, 3, 14, 15, 16, 6, 5, 100, 103, 106, 160]

theorem selectMasks_chip (t : Translation) :
    (t.gpgpu_mem_address_mask ∈ knownMasks ∧ t.selectMasks.addrdec_mask .CHIP = 0 ∧
      0 ≤ t.selectMasks.ADDR_CHIP_S ∧ t.selectMasks.ADDR_CHIP_S < 31) ∨
    (t.gpgpu_mem_address_mask ∉ knownMasks ∧ t.selectMasks = t) := by
  rw [selectMasks]
  split
  case h_14 =>
    refine Or.inr ⟨?_, rfl⟩
    simp_all [knownMasks]
  all_goals
    rename_i number
    exact Or.inl ⟨number ▸ by decide, rfl, by simp [selectMasks.known], by simp [selectMasks.known]⟩

theorem getLsbD_foldl_shift {is : List Nat} (inside : ∀ j ∈ is, j < 64) (chip : Address) (i : Nat) :
    (is.foldl (fun chip j => chip ||| 1#64 <<< j) chip).getLsbD i ↔ chip.getLsbD i ∨ i ∈ is := by
  induction is generalizing chip with
  | nil => simp
  | cons j is ih =>
    rw [List.foldl_cons, ih (fun k member => inside k (List.mem_cons_of_mem j member)),
      getLsbD_or_shift (inside j List.mem_cons_self), List.mem_cons, or_assoc]

theorem insertChip_chip {t masked : Translation} {nchipbits : Nat}
    (insert : t.insertChip nchipbits = some masked) :
    masked.ADDR_CHIP_S = t.ADDR_CHIP_S ∧
      (t.ADDR_CHIP_S = -1 → masked.addrdec_mask .CHIP = t.addrdec_mask .CHIP ∧
        t.m_n_channel &&& (t.m_n_channel - 1) = 0) ∧
      (t.ADDR_CHIP_S ≠ -1 → t.gap = 0 → t.ADDR_CHIP_S.toNat + nchipbits ≤ 64 ∧
        ∀ i, (masked.addrdec_mask .CHIP).getLsbD i ↔ (t.addrdec_mask .CHIP).getLsbD i ∨
          t.ADDR_CHIP_S.toNat ≤ i ∧ i < t.ADDR_CHIP_S.toNat + nchipbits) := by
  rw [insertChip] at insert
  split at insert
  · rename_i start
    refine (and_iff_right ?_).mpr ⟨fun none => absurd none start, fun _ noGap => ?_⟩
    · split at insert
      · split at insert
        · rw [← Option.some.inj insert]
        · cases insert
      · rw [Option.some.inj insert]
    · rw [if_pos noGap] at insert
      split at insert
      · rename_i inside
        obtain rfl := Option.some.inj insert
        refine ⟨by omega, fun i => ?_⟩
        rw [← List.mem_range'_1]
        apply getLsbD_foldl_shift
        intro j member
        have := List.mem_range'_1.mp member
        omega
      · cases insert
  · rename_i none
    rw [not_not] at none
    split at insert
    · rename_i power
      obtain rfl := Option.some.inj insert
      exact ⟨rfl, fun _ => ⟨rfl, power⟩, fun start => absurd none start⟩
    · cases insert

/-! ## Accepted options -/

theorem toNat_of_log {n : BitVec 32} (log : n = BitVec.ofNat 32 (2 ^ LOGB2_32 n)) :
    n.toNat = 2 ^ LOGB2_32 n := by
  have narrow : LOGB2_32 n < 32 := by
    by_contra wide
    have zero : n = 0 := by
      rw [log]
      apply BitVec.eq_of_toNat_eq
      rw [BitVec.toNat_ofNat]
      exact Nat.mod_eq_zero_of_dvd (Nat.pow_dvd_pow 2 (Nat.le_of_not_lt wide))
    rw [zero] at wide
    exact wide (by decide)
  have value := congrArg BitVec.toNat log
  rwa [BitVec.toNat_ofNat, Nat.mod_eq_of_lt (Nat.pow_lt_pow_right Nat.one_lt_two narrow)] at value

/-- What the options say about the chip, and what `init` makes of it. -/
structure Parsed (start : Translation) (n_channel : BitVec 32) (parsed t : Translation) : Prop where
  gap_eq : t.gap = n_channel - BitVec.ofNat 32 (2 ^ LOGB2_32 n_channel)
  channels_eq : t.m_n_channel = n_channel
  start_eq : t.ADDR_CHIP_S = parsed.ADDR_CHIP_S
  unparsed : start.addrdec_option = none →
    (start.gpgpu_mem_address_mask ∈ knownMasks ∧ parsed.addrdec_mask .CHIP = 0 ∧
      0 ≤ parsed.ADDR_CHIP_S ∧ parsed.ADDR_CHIP_S < 31) ∨
    (start.gpgpu_mem_address_mask ∉ knownMasks ∧ parsed.ADDR_CHIP_S = start.ADDR_CHIP_S ∧
      parsed.addrdec_mask .CHIP = start.addrdec_mask .CHIP)
  mapped : ∀ option, start.addrdec_option = some option →
    parsed.ADDR_CHIP_S = (scanDramid option).getD (-1) ∧
      (positions (parsed.addrdec_mask .CHIP)).length = (cmapping option).countP namesChip ∧
      ((scanDramid option).isSome = true → parsed.addrdec_mask .CHIP = 0)
  explicit : parsed.ADDR_CHIP_S = -1 → t.addrdec_mask .CHIP = parsed.addrdec_mask .CHIP ∧
    n_channel &&& (n_channel - 1) = 0
  inserted : parsed.ADDR_CHIP_S ≠ -1 → t.gap = 0 →
    parsed.ADDR_CHIP_S.toNat + LOGB2_32 n_channel ≤ 64 ∧
    ∀ i, (t.addrdec_mask .CHIP).getLsbD i ↔ (parsed.addrdec_mask .CHIP).getLsbD i ∨
      parsed.ADDR_CHIP_S.toNat ≤ i ∧ i < parsed.ADDR_CHIP_S.toNat + LOGB2_32 n_channel

/-- The counts are set before the masks are chosen. -/
def counted (t : Translation) (n_channel n_sub_partition_in_channel : BitVec 32) : Translation :=
  { t with
    m_n_channel := n_channel
    m_n_sub_partition_in_channel := n_sub_partition_in_channel
    gap := n_channel - BitVec.ofNat 32 (2 ^ LOGB2_32 n_channel) }

theorem addrdec_option_selectMasks (t : Translation) :
    t.selectMasks.addrdec_option = t.addrdec_option := by
  rw [selectMasks]
  split <;> rfl

theorem parsed_of_init {start t : Translation} {n_channel n_sub_partition_in_channel : BitVec 32}
    (accepted : start.init n_channel n_sub_partition_in_channel = some t) :
    ∃ parsed, Parsed start n_channel parsed t := by
  simp only [init, Option.bind_eq_bind] at accepted
  obtain ⟨parsed, parse, accepted⟩ := Option.bind_eq_some_iff.mp accepted
  obtain ⟨masked, insert, accepted⟩ := Option.bind_eq_some_iff.mp accepted
  have same : masked.setLimits.setIdMask = t := by
    split at accepted
    · split at accepted
      · obtain ⟨_, _, same⟩ := Option.map_eq_some_iff.mp accepted
        exact same
      · exact Option.some.inj accepted
    · cases accepted
  subst same
  obtain ⟨start_eq, explicit, inserted⟩ := insertChip_chip insert
  change (start.counted n_channel n_sub_partition_in_channel).selectMasks.readMapping = _ at parse
  have options : (start.counted n_channel n_sub_partition_in_channel).selectMasks.addrdec_option =
      start.addrdec_option := addrdec_option_selectMasks _
  rw [readMapping, options] at parse
  have kept : parsed.counts = (n_channel - BitVec.ofNat 32 (2 ^ LOGB2_32 n_channel), n_channel,
      n_sub_partition_in_channel) := by
    split at parse
    · exact (counts_parseoption parse).trans (counts_selectMasks _)
    · rw [← Option.some.inj parse]
      exact counts_selectMasks _
  have counts := (counts_insertChip insert).trans kept
  refine ⟨parsed, congrArg (fun c => c.1) counts, congrArg (fun c => c.2.1) counts, start_eq,
    fun none => ?_, fun option some => ?_, fun minus => ?_, fun chip noGap => ?_⟩
  · rw [none] at parse
    obtain rfl := Option.some.inj parse
    cases selectMasks_chip (start.counted n_channel n_sub_partition_in_channel) with
    | inl known => exact Or.inl known
    | inr unknown =>
      obtain ⟨number, same⟩ := unknown
      rw [same]
      exact Or.inr ⟨number, rfl, rfl⟩
  · rw [some] at parse
    exact parseoption_chip parse
  · obtain ⟨chip, power⟩ := explicit minus
    have channels : parsed.m_n_channel = n_channel := congrArg (fun c => c.2.1) kept
    exact ⟨chip, channels ▸ power⟩
  · have gap : masked.gap = n_channel - BitVec.ofNat 32 (2 ^ LOGB2_32 n_channel) :=
      congrArg (fun c => c.1) counts
    have gap' : parsed.gap = n_channel - BitVec.ofNat 32 (2 ^ LOGB2_32 n_channel) :=
      congrArg (fun c => c.1) kept
    have zero : n_channel - BitVec.ofNat 32 (2 ^ LOGB2_32 n_channel) = 0 := gap.symm.trans noGap
    obtain ⟨fits, bits⟩ := inserted chip (gap'.trans zero)
    rw [if_pos zero] at fits bits
    exact ⟨fits, bits⟩

/-- The options leave as many bits for the chip as the channels need, or a place to split
addresses at when the number of channels is no power of two. -/
def ChipsFit (addrdec_option : Option (List Char)) (gpgpu_mem_address_mask : Int)
    (n_channel : BitVec 32) : Prop :=
  if n_channel = BitVec.ofNat 32 (2 ^ LOGB2_32 n_channel) then
    match addrdec_option with
    | some option => (scanDramid option).isSome = true ∨
        2 ^ (cmapping option).countP namesChip ≤ n_channel.toNat
    | none => gpgpu_mem_address_mask ∈ knownMasks ∨ 8 ≤ n_channel.toNat
  else n_channel ≠ 0 ∧ n_channel.toNat < 2 ^ 31 ∧
    match addrdec_option with
    | some option => ∃ start ∈ scanDramid option, 0 ≤ start ∧ start < 31
    | none => True

section Accepted

variable {addrdec_option : Option (List Char)} {gpgpu_mem_address_mask : Int} {run_test : Bool}
  {n_channel : BitVec 32} {parsed t : Translation}
  (options : Parsed (construct addrdec_option gpgpu_mem_address_mask run_test) n_channel parsed t)

include options

theorem Parsed.length_inserted (noGap : t.gap = 0) (chip : parsed.ADDR_CHIP_S ≠ -1)
    (empty : parsed.addrdec_mask .CHIP = 0) :
    (positions (t.addrdec_mask .CHIP)).length = LOGB2_32 n_channel := by
  obtain ⟨fits, bits⟩ := options.inserted chip noGap
  apply length_positions_interval fits
  intro i
  simp [bits, empty]

theorem Parsed.length_default (noGap : t.gap = 0) (chip : parsed.ADDR_CHIP_S = 10)
    (default : parsed.addrdec_mask .CHIP = 0x1C00) :
    (positions (t.addrdec_mask .CHIP)).length = max 3 (LOGB2_32 n_channel) := by
  obtain ⟨fits, bits⟩ := options.inserted (by omega) noGap
  rw [chip] at fits bits
  have three : ∀ i, (0x1C00 : Address).getLsbD i ↔ 10 ≤ i ∧ i < 13 := by
    intro i
    by_cases inside : i < 64
    · have all : ∀ i < 64, (0x1C00 : Address).getLsbD i ↔ 10 ≤ i ∧ i < 13 := by decide
      exact all i inside
    · rw [BitVec.getLsbD_of_ge _ _ (Nat.le_of_not_lt inside)]
      simp only [Bool.false_eq_true, false_iff]
      omega
  have width : (10 : Int).toNat = 10 := rfl
  apply @length_positions_interval _ _ 10
  · omega
  · intro i
    rw [bits, default, three, width]
    omega

theorem Parsed.chipsFit_noGap (noGap : t.gap = 0) :
    2 ^ (positions (t.addrdec_mask .CHIP)).length ≤ n_channel.toNat ↔
      ChipsFit addrdec_option gpgpu_mem_address_mask n_channel := by
  have log : n_channel = BitVec.ofNat 32 (2 ^ LOGB2_32 n_channel) :=
    sub_eq_zero.mp (options.gap_eq.symm.trans noGap)
  have value := toNat_of_log log
  rw [ChipsFit.eq_def, if_pos log]
  cases given : addrdec_option with
  | some option =>
    obtain ⟨start, counted, empty⟩ := options.mapped option given
    cases dramid : scanDramid option with
    | none =>
      rw [dramid] at start
      rw [(options.explicit start).1, counted]
      simp [dramid]
    | some number =>
      rw [dramid] at start empty
      have zero := empty rfl
      by_cases minus : parsed.ADDR_CHIP_S = -1
      · have none : (positions (0 : Address)).length = 0 := by decide
        rw [(options.explicit minus).1, zero, none, value]
        exact iff_of_true (Nat.pow_le_pow_right (Nat.two_pow_pos 1) (Nat.zero_le _))
          (Or.inl (dramid ▸ rfl))
      · rw [options.length_inserted noGap minus zero, value]
        exact iff_of_true (Nat.le_refl _) (Or.inl (dramid ▸ rfl))
  | none =>
    cases options.unparsed given with
    | inl known =>
      obtain ⟨number, zero, start, _⟩ := known
      rw [options.length_inserted noGap (by omega) zero, value]
      exact iff_of_true (Nat.le_refl _) (Or.inl number)
    | inr unknown =>
      obtain ⟨number, start, default⟩ := unknown
      have eight : 8 ≤ n_channel.toNat ↔ 3 ≤ LOGB2_32 n_channel := by
        rw [value]
        exact Nat.pow_le_pow_iff_right (n := 3) Nat.one_lt_two
      have other : gpgpu_mem_address_mask ∉ knownMasks := number
      dsimp only
      rw [options.length_default noGap start default, or_iff_right other, eight, value,
        Nat.pow_le_pow_iff_right Nat.one_lt_two]
      omega

theorem Parsed.chipsFit_gap (gaps : t.gap ≠ 0) :
    t.Splits ↔ ChipsFit addrdec_option gpgpu_mem_address_mask n_channel := by
  have noLog : n_channel ≠ BitVec.ofNat 32 (2 ^ LOGB2_32 n_channel) := fun log => gaps
    (options.gap_eq.trans (sub_eq_zero.mpr log))
  have splits : t.Splits ↔ n_channel ≠ 0 ∧ n_channel.toNat < 2 ^ 31 ∧
      0 ≤ parsed.ADDR_CHIP_S ∧ parsed.ADDR_CHIP_S < 31 := by
    rw [← options.start_eq, ← options.channels_eq]
    exact ⟨fun s => ⟨s.positive, s.narrow, s.start, s.start_lt⟩,
      fun s => ⟨s.2.2.1, s.2.2.2, s.1, s.2.1⟩⟩
  rw [splits, ChipsFit.eq_def, if_neg noLog]
  refine and_congr_right fun _ => and_congr_right fun _ => ?_
  cases given : addrdec_option with
  | some option =>
    obtain ⟨start, _⟩ := options.mapped option given
    rw [start]
    cases dramid : scanDramid option with
    | none => simp [dramid]
    | some number => simp [dramid]
  | none =>
    refine iff_of_true ?_ trivial
    cases options.unparsed given with
    | inl known => exact known.2.2
    | inr unknown =>
      have ten : parsed.ADDR_CHIP_S = 10 := unknown.2.1
      omega

end Accepted

/-- Decoded chips and sub-partitions are in range for the options that leave room for the
chips, when a channel has sub-partitions. -/
theorem indices_in_range_iff {addrdec_option : Option (List Char)} {gpgpu_mem_address_mask : Int}
    {run_test : Bool} {n_channel n_sub_partition_in_channel : BitVec 32} {t : Translation}
    (accepted : (construct addrdec_option gpgpu_mem_address_mask run_test).init n_channel
      n_sub_partition_in_channel = some t) :
    (∀ addr, ∃ tlx, t.addrdec_tlx addr = some tlx ∧ tlx.chip.toNat < n_channel.toNat ∧
      tlx.sub_partition.toNat < n_channel.toNat * n_sub_partition_in_channel.toNat) ↔
    n_sub_partition_in_channel ≠ 0 ∧
      ChipsFit addrdec_option gpgpu_mem_address_mask n_channel := by
  have initialized := initialized_of_init accepted
  obtain ⟨parsed, options⟩ := parsed_of_init accepted
  obtain ⟨masked, same, counts, _⟩ := init_finished accepted
  have several : t.m_n_sub_partition_in_channel = n_sub_partition_in_channel := by
    rw [same]
    exact congrArg (fun c => c.2.2) counts
  have inRange : t.InRange ↔ n_sub_partition_in_channel ≠ 0 ∧
      ChipsFit addrdec_option gpgpu_mem_address_mask n_channel := by
    by_cases noGap : t.gap = 0
    · rw [inRange_iff_noGap initialized noGap, several, options.channels_eq,
        options.chipsFit_noGap noGap]
    · rw [inRange_iff_gap initialized noGap, several, options.chipsFit_gap noGap]
  rw [← inRange, InRange, options.channels_eq, several]

/-- A mapping with eight chips. -/
def threeChipBits (n_channel : BitVec 32) : Option Translation :=
  (construct (some ("00000000.00000000.00000000.00000000." ++
    "0000RRRR.RRRRRRRR.DDDBBCCC.CCSSSSSS").toList) 0 false).init n_channel 1

theorem threeChipBits_accepted : (threeChipBits 4).isSome ∧ (threeChipBits 8).isSome := by decide

theorem indices_in_range_iff_threeChipBits :
    ∃ t, threeChipBits 8 = some t ∧ ∀ addr, ∃ tlx, t.addrdec_tlx addr = some tlx ∧
      tlx.chip.toNat < 8 ∧ tlx.sub_partition.toNat < 8 * 1 := by
  have accepted := (Option.some_get threeChipBits_accepted.2).symm
  exact ⟨_, accepted, (@indices_in_range_iff _ _ false _ _ _ accepted).mpr
    ⟨by decide, by rw [ChipsFit]; decide⟩⟩

/-- The chip of address 0xE000 is 7. -/
theorem chip_out_of_range :
    ¬ ∀ (addrdec_option : Option (List Char)) (gpgpu_mem_address_mask : Int) (run_test : Bool)
      (n_channel n_sub_partition_in_channel : BitVec 32) (t : Translation),
      (construct addrdec_option gpgpu_mem_address_mask run_test).init n_channel
        n_sub_partition_in_channel = some t →
      ∀ addr, ∃ tlx, t.addrdec_tlx addr = some tlx ∧ tlx.chip.toNat < n_channel.toNat ∧
        tlx.sub_partition.toNat < n_channel.toNat * n_sub_partition_in_channel.toNat := by
  intro inRange
  obtain ⟨tlx, decoded, below, _⟩ := inRange _ 0 false 4 1
    ((threeChipBits 4).get threeChipBits_accepted.1) (Option.some_get threeChipBits_accepted.1).symm
    0xE000
  have seven : (((threeChipBits 4).get threeChipBits_accepted.1).addrdec_tlx 0xE000).map AddrDec.chip =
      some 7 := by decide +kernel
  rw [decoded] at seven
  rw [Option.some.inj seven] at below
  exact absurd below (by decide)

end AesOnGpu.AddressDecoding.Translation
