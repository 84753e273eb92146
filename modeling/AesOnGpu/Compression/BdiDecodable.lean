import AesOnGpu.Lib.Coding
import AesOnGpu.Compression.Bdi

/-! # When base-delta-immediate sizes are decodable

A covered element is charged `blimit` bytes, so a base can stand for at most
`256 ^ blimit` element values.  The test of `covers` is two-sided: a base
accepts the deltas from `-limit` to `limit`.  Only at the two ends of the
element range does the range itself cut one side off, and 8-byte elements have
no ends because the difference wraps.
-/

namespace AesOnGpu.Compression

open Coding

/-- The two schemes, with the bases they charge for and the bases they use. -/
inductive BaseScheme where
  | multBase
  | singleBase

namespace BaseScheme

def BASES : BaseScheme → Nat
  | multBase => 2
  | singleBase => 1

def mbases (scheme : BaseScheme) (limit : BitVec 64) (values : List (BitVec 64)) :
    List (BitVec 64) :=
  match scheme, values with
  | _, [] => []
  | multBase, first :: rest => collectBases limit 2 (first :: rest) [first]
  | singleBase, first :: _ => [first]

/-- The first element and, for two bases, the first element far from it. -/
def chargedBases (scheme : BaseScheme) (limit : BitVec 64) (values : List (BitVec 64)) :
    List (BitVec 64) :=
  match scheme with
  | multBase => values.take 1 ++
      (values.find? fun value => !covers limit (values.getD 0 0) value).toList
  | singleBase => values.take 1

theorem mbases_eq_chargedBases (scheme : BaseScheme) (limit : BitVec 64)
    (values : List (BitVec 64)) : scheme.mbases limit values = scheme.chargedBases limit values := by
  cases values with
  | nil => cases scheme <;> rfl
  | cons first rest =>
    cases scheme with
    | multBase => simp [mbases, chargedBases, collectBases_eq]
    | singleBase => rfl

theorem mbases_length_le (scheme : BaseScheme) (limit : BitVec 64) (values : List (BitVec 64)) :
    (scheme.mbases limit values).length ≤ scheme.BASES := by
  rw [mbases_eq_chargedBases]
  cases scheme with
  | multBase =>
    have one : (values.take 1).length ≤ 1 := by simp
    simp only [chargedBases, List.length_append, BASES]
    cases values.find? _ <;> simp
  | singleBase => simp [chargedBases, BASES]

end BaseScheme

/-! ## Values accepted by one base -/

/-- The element values of `bsize` bytes that the cover test accepts for `base`. -/
def accepted (limit : BitVec 64) (bsize : Nat) (base : BitVec 64) : Finset (BitVec 64) :=
  Finset.univ.filter fun value => value.toNat < 256 ^ bsize ∧ covers limit base value = true

@[simp] theorem mem_accepted {limit base value : BitVec 64} {bsize : Nat} :
    value ∈ accepted limit bsize base ↔
      value.toNat < 256 ^ bsize ∧ covers limit base value = true := by
  simp [accepted]

theorem covers_iff {limit base value : BitVec 64} (small : limit.toNat < 2 ^ 63) :
    covers limit base value = true ↔
      (base - value).toNat ≤ limit.toNat ∨ (value - base).toNat ≤ limit.toNat := by
  have reversed : value - base = -(base - value) := (neg_sub base value).symm
  rw [covers, llabs, BitVec.ule_eq_decide, decide_eq_true_eq, reversed]
  generalize base - value = difference
  have bound := difference.isLt
  have negated : (-difference).toNat = (2 ^ 64 - difference.toNat) % 2 ^ 64 := BitVec.toNat_neg _
  have sign : difference.slt 0 = true ↔ 2 ^ 63 ≤ difference.toNat := by
    rw [show difference.slt 0 = difference.msb from BitVec.slt_zero_eq_msb, BitVec.msb_eq_decide]
    simp
  split
  next negative => have := sign.mp negative; omega
  next positive => have := mt sign.mpr positive; omega

theorem covers_iff_distance {limit base value : BitVec 64} (small : limit.toNat < 2 ^ 63)
    (baseNarrow : base.toNat < 2 ^ 32) (valueNarrow : value.toNat < 2 ^ 32) :
    covers limit base value = true ↔
      base.toNat ≤ value.toNat + limit.toNat ∧ value.toNat ≤ base.toNat + limit.toNat := by
  rw [covers_iff small, BitVec.toNat_sub, BitVec.toNat_sub]
  omega

/-- 8-byte elements: one delta below the base is accepted beside the `limit + 1`
    deltas above it, whatever the base. -/
theorem accepted_wide (limit : BitVec 64) (small : limit.toNat < 2 ^ 63) (proper : 1 ≤ limit.toNat)
    (base : BitVec 64) : limit.toNat + 2 ≤ (accepted limit 8 base).card := by
  refine le_card_of_family (fun k => base - 1#64 + BitVec.ofNat 64 k) (fun k inRange => ?_) ?_
  · have offset : base - 1#64 + BitVec.ofNat 64 k - base = BitVec.ofNat 64 k - 1#64 := by ring
    have back : base - (base - 1#64 + BitVec.ofNat 64 k) = 1#64 - BitVec.ofNat 64 k := by ring
    rw [mem_accepted, covers_iff small, offset, back, BitVec.toNat_sub, BitVec.toNat_sub]
    refine ⟨by have := (base - 1#64 + BitVec.ofNat 64 k).isLt; norm_num at this ⊢; omega, ?_⟩
    simp only [BitVec.toNat_ofNat]
    omega
  · intro a aRange b bRange equal
    simp only [Set.mem_Iio] at aRange bRange
    have cancelled := congrArg BitVec.toNat (add_left_cancel equal)
    simp only [BitVec.toNat_ofNat] at cancelled
    omega

theorem accepted_inner {limit : BitVec 64} {bsize : Nat} (base : BitVec 64)
    (narrow : 256 ^ bsize ≤ 2 ^ 32)
    (proper : 1 ≤ limit.toNat) (inside : limit.toNat + 1 < 256 ^ bsize) (above : 0 < base.toNat)
    (below : base.toNat + 1 < 256 ^ bsize) : limit.toNat + 2 ≤ (accepted limit bsize base).card := by
  refine le_card_of_family
    (fun k => BitVec.ofNat 64 (base.toNat - limit.toNat + k)) (fun k inRange => ?_) ?_
  · have exact : (BitVec.ofNat 64 (base.toNat - limit.toNat + k)).toNat =
        base.toNat - limit.toNat + k := by
      rw [BitVec.toNat_ofNat]; omega
    rw [mem_accepted, covers_iff_distance (by omega) (by omega) (by omega), exact]
    omega
  · intro a aRange b bRange equal
    simp only [Set.mem_Iio] at aRange bRange
    have values := congrArg BitVec.toNat equal
    simp only [BitVec.toNat_ofNat] at values
    omega

theorem accepted_end {limit base : BitVec 64} {bsize : Nat} (narrow : 256 ^ bsize ≤ 2 ^ 32)
    (inside : limit.toNat + 1 < 256 ^ bsize)
    (atEnd : base.toNat = 0 ∨ base.toNat + 1 = 256 ^ bsize) :
    (accepted limit bsize base).card ≤ limit.toNat + 1 := by
  refine card_le_of_encoder
    (fun value => if base.toNat = 0 then value.toNat else base.toNat - value.toNat) ?_ ?_
  · intro value member
    rw [mem_accepted] at member
    obtain ⟨inRange, near⟩ := member
    rw [covers_iff_distance (by omega) (by omega) (by omega)] at near
    split <;> omega
  · intro a aMember b bMember equal
    simp only [Finset.mem_coe, mem_accepted] at aMember bMember
    apply BitVec.eq_of_toNat_eq
    dsimp only at equal
    split at equal <;> omega

/-- One base stands for at most `256 ^ blimit` values exactly when the elements
    are narrow and the base is at an end of their range. -/
theorem accepted_recoverable_iff {bsize blimit : Nat} {limit base : BitVec 64}
    (tried : (bsize, blimit) ∈ deltaPairs) (known : deltaLimit blimit = some limit)
    (element : base.toNat < 256 ^ bsize) :
    Recoverable (accepted limit bsize base) (256 ^ blimit) ↔
      bsize < 8 ∧ (base.toNat = 0 ∨ base.toNat + 1 = 256 ^ bsize) := by
  have shape : limit.toNat + 1 = 256 ^ blimit ∧ 1 ≤ limit.toNat ∧ limit.toNat < 2 ^ 63 ∧
      (bsize = 8 ∨ (bsize < 8 ∧ 256 ^ bsize ≤ 2 ^ 32 ∧ limit.toNat + 1 < 256 ^ bsize)) := by
    simp only [deltaPairs, List.mem_cons, Prod.mk.injEq, List.not_mem_nil, or_false] at tried
    obtain ⟨rfl, rfl⟩ | ⟨rfl, rfl⟩ | ⟨rfl, rfl⟩ | ⟨rfl, rfl⟩ | ⟨rfl, rfl⟩ | ⟨rfl, rfl⟩ := tried <;>
      (cases known; decide)
  obtain ⟨payloads, proper, small, rfl | ⟨narrow, range, inside⟩⟩ := shape
  · rw [recoverable_iff_card_le, ← payloads]
    have many := accepted_wide limit small proper base
    omega
  · rw [recoverable_iff_card_le, ← payloads]
    constructor
    · intro few
      refine ⟨narrow, ?_⟩
      by_contra inner
      have many := accepted_inner base range proper inside (by omega) (by omega)
      omega
    · exact fun atEnd => accepted_end range inside atEnd.2

/-! ## Decodability of one pass over a line -/

/-- The elements of a line, `bsize` bytes each. -/
def LineBlock.elements (block : LineBlock) (bsize : Nat) : List (BitVec 64) :=
  convertBuffer2Array block.bytes block.bytes.length bsize

/-- Every element counted as covered comes from a base that is charged for, by
    one of `256 ^ blimit` deltas that a decoder can undo, and no more bases are
    used than charged. -/
structure BaseScheme.Decodable (scheme : BaseScheme) (limit : BitVec 64) (bsize blimit : Nat)
    (values : List (BitVec 64)) : Prop where
  covered : ∀ value ∈ values,
    ((scheme.mbases limit values).any fun base => covers limit base value) = true →
      ∃ base ∈ scheme.mbases limit values, value ∈ accepted limit bsize base
  fewValues : ∀ base ∈ scheme.mbases limit values,
    (accepted limit bsize base).card ≤ 256 ^ blimit
  decoder : ∀ base ∈ scheme.mbases limit values,
    Recoverable (accepted limit bsize base) (256 ^ blimit)
  basesCharged : (scheme.mbases limit values).length ≤ scheme.BASES

theorem BaseScheme.mem_of_mem_mbases {scheme : BaseScheme} {limit base : BitVec 64}
    {values : List (BitVec 64)} (member : base ∈ scheme.mbases limit values) : base ∈ values := by
  rw [mbases_eq_chargedBases] at member
  cases scheme with
  | multBase =>
    simp only [chargedBases, List.mem_append, Option.mem_toList] at member
    obtain first | far := member
    · exact List.mem_of_mem_take first
    · exact List.mem_of_find?_eq_some far
  | singleBase => exact List.mem_of_mem_take member

/-- The sizes of a pass are decodable exactly when its elements are narrower
    than 8 bytes and every base charged for, the first element and the first
    element far from it, is all zeros or all ones. -/
theorem base_delta_decodable_iff (block : LineBlock) (scheme : BaseScheme) {bsize blimit : Nat}
    {limit : BitVec 64} (tried : (bsize, blimit) ∈ deltaPairs)
    (known : deltaLimit blimit = some limit) :
    scheme.Decodable limit bsize blimit (block.elements bsize) ↔
      ∀ base ∈ scheme.chargedBases limit (block.elements bsize),
        bsize < 8 ∧ (base.toNat = 0 ∨ base.toNat + 1 = 256 ^ bsize) := by
  have elementSize : bsize ≤ 8 := by
    simp only [deltaPairs, List.mem_cons, Prod.mk.injEq, List.not_mem_nil, or_false] at tried
    omega
  have narrow : ∀ value ∈ block.elements bsize, value.toNat < 256 ^ bsize :=
    fun value member => convertBuffer2Array_lt elementSize member
  rw [← BaseScheme.mbases_eq_chargedBases]
  constructor
  · intro decodable base member
    exact (accepted_recoverable_iff tried known
      (narrow base (BaseScheme.mem_of_mem_mbases member))).mp (decodable.decoder base member)
  · intro ends
    have decoder : ∀ base ∈ scheme.mbases limit (block.elements bsize),
        Recoverable (accepted limit bsize base) (256 ^ blimit) := fun base member =>
      (accepted_recoverable_iff tried known
        (narrow base (BaseScheme.mem_of_mem_mbases member))).mpr (ends base member)
    refine ⟨?_, fun base member => (decoder base member).card_le, decoder,
      scheme.mbases_length_le limit _⟩
    intro value member counted
    obtain ⟨base, baseMember, near⟩ := List.any_eq_true.mp counted
    exact ⟨base, baseMember, mem_accepted.mpr ⟨narrow value member, near⟩⟩

def zeroLine : LineBlock where
  bytes := List.replicate 8 0
  positive := by decide
  whole := by decide

theorem zeroLine_chargedBases :
    BaseScheme.multBase.chargedBases 0xFF (zeroLine.elements 2) = [0] := by decide

theorem base_delta_decodable_zeroLine :
    BaseScheme.multBase.Decodable 0xFF 2 1 (zeroLine.elements 2) :=
  (base_delta_decodable_iff zeroLine .multBase (by decide) rfl).mpr
    (by rw [zeroLine_chargedBases]; simp)

/-- With 8-byte elements the base zero already accepts more than 256 values. -/
theorem base_delta_zeroLine_undecodable :
    ¬ BaseScheme.multBase.Decodable 0xFF 8 1 (zeroLine.elements 8) := by
  intro decodable
  have base : (0 : BitVec 64) ∈ BaseScheme.multBase.mbases 0xFF (zeroLine.elements 8) := by
    rw [BaseScheme.mbases_eq_chargedBases]; decide
  have few := decodable.fewValues 0 base
  have many := accepted_wide 0xFF (by decide) (by decide) 0
  have limit : (0xFF : BitVec 64).toNat = 255 := by decide
  omega

end AesOnGpu.Compression
