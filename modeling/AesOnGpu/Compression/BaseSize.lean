import AesOnGpu.Compression.Cascade
import AesOnGpu.Compression.BdiDecodable

/-! # The base size that `BDICompressSpecial` reports

It repeats the cascade of `BDICompress` and sets `baseSize` on the way: a delta candidate
only when it is better than the best so far, but a repeated value whenever there is one.
-/

namespace AesOnGpu.Compression

/-- The running variables of `BDICompressSpecial`. -/
structure SpecialSizes where
  sizes : Sizes
  baseSize : Nat

namespace SpecialSizes

/-- The repeated-value test sets the base, whether or not it is the best candidate. -/
def sameValue (values : List (BitVec 64)) (bsize : Nat) (s : SpecialSizes) : SpecialSizes where
  sizes := s.sizes.sameValue values bsize
  baseSize := if isSameValuePackable values then bsize else s.baseSize

/-- A candidate of a known size: `if(bestCSize > currCSize) baseSize = bsize`. -/
def candidate (bsize currCSize : Nat) (s : SpecialSizes) : SpecialSizes where
  sizes := { s.sizes with currCSize := currCSize }.keep
  baseSize := if s.sizes.bestCSize > currCSize then bsize else s.baseSize

def tryDelta (compression : List (BitVec 64) → Nat → Nat → Option Nat)
    (values : List (BitVec 64)) (bsize : Nat) (s : SpecialSizes) (blimit : Nat) :
    Option SpecialSizes := do
  let currCSize ← compression values blimit bsize
  return s.candidate bsize currCSize

def tryDeltas (compression : List (BitVec 64) → Nat → Nat → Option Nat)
    (values : List (BitVec 64)) (bsize : Nat) (blimits : List Nat) (s : SpecialSizes) :
    Option SpecialSizes :=
  blimits.foldlM (tryDelta compression values bsize) s

end SpecialSizes

def SpecialSizes.start (buffer : List (BitVec 8)) : SpecialSizes :=
  if isZeroPackable (convertBuffer2Array buffer buffer.length 8) then ⟨⟨1, buffer.length⟩, 0⟩
  else ⟨⟨buffer.length, buffer.length⟩, 8⟩

def BDICompressSpecial (buffer : List (BitVec 8)) : Option (Nat × Nat) := do
  let size := buffer.length
  let values := convertBuffer2Array buffer size 8
  let s ← ((SpecialSizes.start buffer).sameValue values 8).tryDeltas multBaseCompression values 8 [1, 2, 4]
  let values₄ := convertBuffer2Array buffer size 4
  let s ← (s.sameValue values₄ 4).tryDeltas multBaseCompression values₄ 4 [1, 2]
  let values₂ := convertBuffer2Array buffer size 2
  let s ← s.tryDeltas multBaseCompression values₂ 2 [1]
  let s ← s.tryDeltas doubleExponentCompression values 8 [2, 1]
  return (s.sizes.bestCSize, s.baseSize)

theorem Sizes.tryDeltas_total {compression : List (BitVec 64) → Nat → Nat → Option Nat}
    {values : List (BitVec 64)} {bsize : Nat} {blimits : List Nat}
    (htotal : ∀ blimit ∈ blimits, (compression values blimit bsize).isSome) :
    ∀ s : Sizes, ∃ s', s.tryDeltas compression values bsize blimits = some s' := by
  induction blimits with
  | nil => exact fun s => ⟨s, rfl⟩
  | cons blimit blimits ih =>
      intro s
      obtain ⟨currCSize, hcurr⟩ := Option.isSome_iff_exists.mp (htotal blimit List.mem_cons_self)
      obtain ⟨s', hrest⟩ := ih (fun b hb => htotal b (List.mem_cons_of_mem _ hb))
        ({ s with currCSize := currCSize } : Sizes).keep
      refine ⟨s', ?_⟩
      simp only [Sizes.tryDeltas, List.foldlM_cons, Sizes.tryDelta, hcurr]
      exact hrest

namespace SpecialSizes

variable {compression : List (BitVec 64) → Nat → Nat → Option Nat} {values : List (BitVec 64)}
  {bsize : Nat} {s s' : SpecialSizes}

theorem tryDeltas_sizes {blimits : List Nat} {sizes' : Sizes} :
    ∀ {s : SpecialSizes}, s.sizes.tryDeltas compression values bsize blimits = some sizes' →
      ∃ s', s.tryDeltas compression values bsize blimits = some s' ∧ s'.sizes = sizes' := by
  induction blimits with
  | nil => exact fun {s} hrun => ⟨s, rfl, Option.some.inj hrun⟩
  | cons blimit blimits ih =>
      intro s hrun
      cases hcurr : compression values blimit bsize with
      | none => simp [Sizes.tryDeltas, List.foldlM_cons, Sizes.tryDelta, hcurr] at hrun
      | some currCSize =>
          simp only [Sizes.tryDeltas, List.foldlM_cons, Sizes.tryDelta, hcurr] at hrun
          obtain ⟨s', hrest, hsame⟩ := ih (s := s.candidate bsize currCSize) hrun
          refine ⟨s', ?_, hsame⟩
          simp only [tryDeltas, List.foldlM_cons, tryDelta, hcurr]
          exact hrest

theorem tryDeltas_induct {P : SpecialSizes → Prop} {blimits : List Nat}
    (hstep : ∀ s blimit currCSize, blimit ∈ blimits →
      compression values blimit bsize = some currCSize → P s → P (s.candidate bsize currCSize)) :
    ∀ {s : SpecialSizes}, P s → s.tryDeltas compression values bsize blimits = some s' → P s' := by
  induction blimits with
  | nil => exact fun {s} hs hrun => Option.some.inj hrun ▸ hs
  | cons blimit blimits ih =>
      intro s hs hrun
      cases hcurr : compression values blimit bsize with
      | none => simp [tryDeltas, List.foldlM_cons, tryDelta, hcurr] at hrun
      | some currCSize =>
          simp only [tryDeltas, List.foldlM_cons, tryDelta, hcurr] at hrun
          exact ih (fun s b c hb => hstep s b c (List.mem_cons_of_mem _ hb))
            (hstep s blimit currCSize List.mem_cons_self hcurr hs) hrun

end SpecialSizes

/-! ## A block that is not all zeros -/

variable {buffer : List (BitVec 8)}

/-- The base is that of an encoding with the best size, or nothing has been better than the
block itself. -/
structure SpecialSizes.Tracks (s : SpecialSizes) (buffer : List (BitVec 8)) : Prop where
  four_le : 4 ≤ s.sizes.bestCSize
  stale : s.sizes.bestCSize ≤ s.sizes.currCSize
  winner : (s.sizes.bestCSize = buffer.length ∧ s.baseSize = 8) ∨
    ∃ encoding ∈ bdiEncodings, encoding.size multBaseCompression buffer = some s.sizes.bestCSize ∧
      s.baseSize = encoding.elementSize

theorem SpecialSizes.Tracks.sameValue {s : SpecialSizes} (htracks : s.Tracks buffer) {bsize : Nat}
    (hbsize : 4 ≤ bsize) (hlarge : bsize ≤ s.sizes.bestCSize)
    (htried : Encoding.repeated bsize ∈ bdiEncodings) :
    (s.sameValue (convertBuffer2Array buffer buffer.length bsize) bsize).Tracks buffer := by
  by_cases hsame : isSameValuePackable (convertBuffer2Array buffer buffer.length bsize) = true
  · have hbest : (s.sameValue (convertBuffer2Array buffer buffer.length bsize)
        bsize).sizes.bestCSize = bsize := by
      simp [SpecialSizes.sameValue, Sizes.sameValue, hsame, hlarge]
    have hcurr : (s.sameValue (convertBuffer2Array buffer buffer.length bsize)
        bsize).sizes.currCSize = bsize := by
      simp [SpecialSizes.sameValue, Sizes.sameValue, hsame, Sizes.keep]
    constructor
    case four_le => rw [hbest]; exact hbsize
    case stale => rw [hbest, hcurr]
    case winner =>
      refine Or.inr ⟨.repeated bsize, htried, ?_, ?_⟩
      · rw [hbest]
        simp [Encoding.size, hsame]
      · simp [SpecialSizes.sameValue, hsame, Encoding.elementSize]
  · have hsizes : (s.sameValue (convertBuffer2Array buffer buffer.length bsize)
        bsize).sizes.bestCSize = s.sizes.bestCSize := by
      simp [SpecialSizes.sameValue, Sizes.sameValue, hsame, htracks.stale]
    have hcurr : (s.sameValue (convertBuffer2Array buffer buffer.length bsize)
        bsize).sizes.currCSize = s.sizes.currCSize := by
      simp [SpecialSizes.sameValue, Sizes.sameValue, hsame, Sizes.keep]
    have hbase : (s.sameValue (convertBuffer2Array buffer buffer.length bsize) bsize).baseSize =
        s.baseSize := by
      simp [SpecialSizes.sameValue, hsame]
    constructor
    case four_le => rw [hsizes]; exact htracks.four_le
    case stale => rw [hsizes, hcurr]; exact htracks.stale
    case winner => rw [hsizes, hbase]; exact htracks.winner

theorem SpecialSizes.Tracks.candidate {s : SpecialSizes} (htracks : s.Tracks buffer)
    {encoding : Encoding} (htried : encoding ∈ bdiEncodings) {currCSize : Nat}
    (hsize : encoding.size multBaseCompression buffer = some currCSize) (hfour : 4 ≤ currCSize) :
    (s.candidate encoding.elementSize currCSize).Tracks buffer := by
  constructor
  case four_le =>
    simp only [SpecialSizes.candidate, Sizes.keep_bestCSize]
    exact Nat.le_min.mpr ⟨htracks.four_le, hfour⟩
  case stale =>
    simp only [SpecialSizes.candidate, Sizes.keep_bestCSize]
    exact Nat.min_le_right _ _
  case winner =>
    simp only [SpecialSizes.candidate, Sizes.keep_bestCSize]
    by_cases hbetter : s.sizes.bestCSize > currCSize
    · rw [if_pos hbetter, Nat.min_eq_right (Nat.le_of_lt hbetter)]
      exact Or.inr ⟨encoding, htried, hsize, rfl⟩
    · rw [if_neg hbetter, Nat.min_eq_left (Nat.le_of_not_gt hbetter)]
      exact htracks.winner

theorem SpecialSizes.Tracks.tryBases (block : LineBlock) {s s' : SpecialSizes} {bsize : Nat}
    {blimits : List Nat} (htracks : s.Tracks block.bytes)
    (htried : ∀ blimit ∈ blimits, Encoding.base bsize blimit ∈ bdiEncodings)
    (hrun : s.tryDeltas multBaseCompression
      (convertBuffer2Array block.bytes block.bytes.length bsize) bsize blimits = some s') :
    s'.Tracks block.bytes := by
  apply SpecialSizes.tryDeltas_induct (P := fun s => s.Tracks block.bytes) ?_ htracks hrun
  intro s blimit currCSize hblimit hcurr hs
  have hbounds := Encoding.size_bounds block (by simp) (htried blimit hblimit) hcurr
  have hfour : 4 ≤ currCSize := by
    by_contra hlt
    exact Encoding.noConfusion (hbounds.2 (by omega))
  exact hs.candidate (htried blimit hblimit) hcurr hfour

theorem SpecialSizes.Tracks.tryExponents (block : LineBlock) {s s' : SpecialSizes}
    (htracks : s.Tracks block.bytes)
    (hrun : s.tryDeltas doubleExponentCompression
      (convertBuffer2Array block.bytes block.bytes.length 8) 8 [2, 1] = some s') :
    s'.Tracks block.bytes := by
  apply SpecialSizes.tryDeltas_induct (P := fun s => s.Tracks block.bytes) ?_ htracks hrun
  intro s blimit currCSize hblimit hcurr hs
  have htwo : blimit = 2 ∨ blimit = 1 := by simpa using hblimit
  have hbounds := exponent_bounds htwo.symm hcurr
  have htried : Encoding.exponent blimit ∈ bdiEncodings := by
    simp [bdiEncodings, Encoding.tried, htwo]
  exact hs.candidate htried hcurr (by omega)

/-! ## A block of zeros -/

theorem SpecialSizes.candidate_zero {s : SpecialSizes} (hone : s.sizes.bestCSize = 1)
    (bsize : Nat) {currCSize : Nat} (hpos : 1 ≤ currCSize) :
    (s.candidate bsize currCSize).sizes.bestCSize = 1 ∧
      (s.candidate bsize currCSize).baseSize = s.baseSize := by
  simp only [SpecialSizes.candidate, Sizes.keep_bestCSize, hone]
  exact ⟨Nat.min_eq_left hpos, if_neg (by omega)⟩

theorem SpecialSizes.tryDeltas_zero {compression : List (BitVec 64) → Nat → Nat → Option Nat}
    {values : List (BitVec 64)} {bsize base : Nat} {blimits : List Nat} {s s' : SpecialSizes}
    (hpos : ∀ blimit ∈ blimits, ∀ r, compression values blimit bsize = some r → 1 ≤ r)
    (hone : s.sizes.bestCSize = 1 ∧ s.baseSize = base)
    (hrun : s.tryDeltas compression values bsize blimits = some s') :
    s'.sizes.bestCSize = 1 ∧ s'.baseSize = base := by
  apply SpecialSizes.tryDeltas_induct
    (P := fun s => s.sizes.bestCSize = 1 ∧ s.baseSize = base) ?_ hone hrun
  intro s blimit currCSize hblimit hcurr hs
  have hzero := s.candidate_zero hs.1 bsize (hpos blimit hblimit currCSize hcurr)
  exact ⟨hzero.1, hzero.2.trans hs.2⟩

theorem SpecialSizes.sameValue_zero {s : SpecialSizes} {values : List (BitVec 64)}
    (hone : s.sizes.bestCSize = 1) (hsame : isSameValuePackable values = true) {bsize : Nat}
    (hpos : 1 ≤ bsize) :
    (s.sameValue values bsize).sizes.bestCSize = 1 ∧ (s.sameValue values bsize).baseSize = bsize := by
  simp [SpecialSizes.sameValue, Sizes.sameValue, hsame, hone, hpos]

theorem isSameValuePackable_zero {buffer : List (BitVec 8)} (hzero : ∀ byte ∈ buffer, byte = 0)
    {bsize : Nat} (hle : bsize ≤ 8) :
    isSameValuePackable (convertBuffer2Array buffer buffer.length bsize) = true := by
  have hbyte : ∀ n, buffer.getD n 0 = 0 := by
    intro n
    rw [List.getD_eq_getElem?_getD]
    cases hn : buffer[n]? with
    | none => rfl
    | some byte => exact hzero byte (List.mem_of_getElem? hn)
  have hvalue : ∀ value ∈ convertBuffer2Array buffer buffer.length bsize, value = 0 := by
    intro value hin
    obtain ⟨i, _, rfl⟩ := List.mem_map.mp hin
    exact (readElement_eq_zero_iff buffer _ hle).mpr (fun j _ => hbyte _)
  rw [isSameValuePackable, List.all_eq_true]
  intro value hin
  rw [beq_iff_eq, hvalue value hin, List.getD_eq_getElem?_getD]
  cases hfirst : (convertBuffer2Array buffer buffer.length bsize)[0]? with
  | none => rfl
  | some first => exact (hvalue first (List.mem_of_getElem? hfirst)).symm

/-! ## The two functions compared -/

theorem special_run (block : LineBlock) :
    ∃ s₁ s₂ s₃ s₄ : SpecialSizes,
      let values := convertBuffer2Array block.bytes block.bytes.length
      ((SpecialSizes.start block.bytes).sameValue (values 8) 8).tryDeltas multBaseCompression (values 8) 8 [1, 2, 4] = some s₁ ∧
      (s₁.sameValue (values 4) 4).tryDeltas multBaseCompression (values 4) 4 [1, 2] = some s₂ ∧
      s₂.tryDeltas multBaseCompression (values 2) 2 [1] = some s₃ ∧
      s₃.tryDeltas doubleExponentCompression (values 8) 8 [2, 1] = some s₄ ∧
      BDICompressSpecial block.bytes = some (s₄.sizes.bestCSize, s₄.baseSize) ∧
      BDICompress block.bytes = some s₄.sizes.bestCSize := by
  have hpass : ∀ (bsize : Nat) (blimits : List Nat) (s : SpecialSizes), 0 < bsize → bsize ≤ 8 →
      (∀ blimit ∈ blimits, blimit = 1 ∨ blimit = 2 ∨ blimit = 4) →
      ∃ s', s.tryDeltas multBaseCompression
          (convertBuffer2Array block.bytes block.bytes.length bsize) bsize blimits = some s' ∧
        s.sizes.tryDeltas multBaseCompression
          (convertBuffer2Array block.bytes block.bytes.length bsize) bsize blimits =
            some s'.sizes := by
    intro bsize blimits s hpos hle hblimits
    have hsome : ∀ blimit ∈ blimits, (multBaseCompression
        (convertBuffer2Array block.bytes block.bytes.length bsize) blimit bsize).isSome :=
      fun blimit hb => multBase_isSome (block.convert_pos hpos hle) (hblimits blimit hb) bsize
    obtain ⟨sizes', hsizes⟩ := Sizes.tryDeltas_total hsome s.sizes
    obtain ⟨s', hrun, hsame⟩ := SpecialSizes.tryDeltas_sizes hsizes
    exact ⟨s', hrun, hsame ▸ hsizes⟩
  obtain ⟨s₁, hrun₁, hsizes₁⟩ := hpass 8 [1, 2, 4]
    ((SpecialSizes.start block.bytes).sameValue
      (convertBuffer2Array block.bytes block.bytes.length 8) 8) (by omega) (by omega) (by simp)
  obtain ⟨s₂, hrun₂, hsizes₂⟩ := hpass 4 [1, 2]
    (s₁.sameValue (convertBuffer2Array block.bytes block.bytes.length 4) 4) (by omega) (by omega)
    (by simp)
  obtain ⟨s₃, hrun₃, hsizes₃⟩ := hpass 2 [1] s₂ (by omega) (by omega)
    (by simp)
  have hexponents : ∀ blimit ∈ [2, 1], (doubleExponentCompression
      (convertBuffer2Array block.bytes block.bytes.length 8) blimit 8).isSome := fun blimit hb =>
    exponent_isSome (block.convert_pos (by omega) (by omega)) (by simpa [or_comm] using hb) 8
  obtain ⟨sizes₄, hexponent⟩ := Sizes.tryDeltas_total hexponents s₃.sizes
  obtain ⟨s₄, hrun₄, hsizes₄⟩ := SpecialSizes.tryDeltas_sizes hexponent
  refine ⟨s₁, s₂, s₃, s₄, hrun₁, hrun₂, hrun₃, hrun₄, ?_, ?_⟩
  · simp only [BDICompressSpecial, bind, Option.bind, hrun₁, hrun₂, hrun₃, hrun₄]
    rfl
  · have hstart : (⟨if isZeroPackable (convertBuffer2Array block.bytes block.bytes.length 8) then 1
        else block.bytes.length, block.bytes.length⟩ : Sizes) =
        (SpecialSizes.start block.bytes).sizes := by
      rw [SpecialSizes.start]
      split <;> rfl
    have hfour : s₁.sizes.tryNarrower multBaseCompression block.bytes (4, [1, 2]) =
        some s₂.sizes := hsizes₂
    have htwo : s₂.sizes.tryNarrower multBaseCompression block.bytes (2, [1]) =
        some s₃.sizes := hsizes₃
    have hwide : ((SpecialSizes.start block.bytes).sizes.sameValue
        (convertBuffer2Array block.bytes block.bytes.length 8) 8).tryDeltas multBaseCompression
          (convertBuffer2Array block.bytes block.bytes.length 8) 8 [1, 2, 4] = some s₁.sizes :=
      hsizes₁
    simp only [BDICompress, bdiCompressWith, bind, Option.bind, hstart, hwide, List.foldlM_cons,
      List.foldlM_nil, hfour, htwo, Option.pure_def, hexponent, hsizes₄]

/-- The base reported is the element size of an encoding with the reported size, 0 for the zero
block and for no other compressible block. -/
def BaseReported (block : LineBlock) : Prop :=
  ∃ r baseSize, BDICompressSpecial block.bytes = some (r, baseSize) ∧
    (∃ encoding ∈ bdiEncodings, encoding.size multBaseCompression block.bytes = some r ∧
      baseSize = encoding.elementSize) ∧
    ((∀ byte ∈ block.bytes, byte = 0) → baseSize = 0) ∧
    (r < block.bytes.length → ¬ (∀ byte ∈ block.bytes, byte = 0) → baseSize ≠ 0)

theorem special_zero (block : LineBlock) (hzero : ∀ byte ∈ block.bytes, byte = 0) :
    BDICompressSpecial block.bytes = some (1, 4) := by
  obtain ⟨s₁, s₂, s₃, s₄, hrun₁, hrun₂, hrun₃, hrun₄, hspecial, _⟩ := special_run block
  rw [SpecialSizes.start, if_pos (block.isZeroPackable_iff.mpr hzero)] at hrun₁
  have hbase : ∀ {bsize blimit r : Nat}, 2 ≤ bsize → multBaseCompression
      (convertBuffer2Array block.bytes block.bytes.length bsize) blimit bsize = some r → 1 ≤ r := by
    intro bsize blimit r hwide hr
    have hbounds := (multBase_bounds hr).1
    omega
  have h₁ := SpecialSizes.tryDeltas_zero (fun _ _ r hr => hbase (by omega) hr)
    (SpecialSizes.sameValue_zero rfl (isSameValuePackable_zero hzero (le_refl 8)) (by omega)) hrun₁
  have h₂ := SpecialSizes.tryDeltas_zero (fun _ _ r hr => hbase (by omega) hr)
    (SpecialSizes.sameValue_zero h₁.1 (isSameValuePackable_zero hzero (by omega)) (by omega)) hrun₂
  have h₃ := SpecialSizes.tryDeltas_zero (fun _ _ r hr => hbase (by omega) hr) h₂ hrun₃
  have h₄ := SpecialSizes.tryDeltas_zero (fun blimit hb r hr => by
    have hbounds := exponent_bounds (by simpa [or_comm] using hb) hr
    omega) h₃ hrun₄
  rw [hspecial, h₄.1, h₄.2]

theorem special_tracks (block : LineBlock) {byte : BitVec 8} (hbyte : byte ∈ block.bytes)
    (hne : byte ≠ 0) : ∃ s : SpecialSizes, s.Tracks block.bytes ∧
      BDICompressSpecial block.bytes = some (s.sizes.bestCSize, s.baseSize) ∧
      BDICompress block.bytes = some s.sizes.bestCSize := by
  obtain ⟨s₁, s₂, s₃, s₄, hrun₁, hrun₂, hrun₃, hrun₄, hspecial, hbdi⟩ := special_run block
  have hnonzero : ¬ isZeroPackable (convertBuffer2Array block.bytes block.bytes.length 8) = true :=
    fun hzero => hne (block.isZeroPackable_iff.mp hzero byte hbyte)
  rw [SpecialSizes.start, if_neg hnonzero] at hrun₁
  have hlength := block.eight_le
  have h₀ : (⟨⟨block.bytes.length, block.bytes.length⟩, 8⟩ : SpecialSizes).Tracks block.bytes :=
    ⟨show 4 ≤ block.bytes.length by omega, le_rfl, Or.inl ⟨rfl, rfl⟩⟩
  have h₁ := (h₀.sameValue (show 4 ≤ 8 by omega) hlength
    (by simp [bdiEncodings, Encoding.tried])).tryBases block
      (by simp [bdiEncodings, Encoding.tried]) hrun₁
  have h₂ := (h₁.sameValue le_rfl h₁.four_le
    (by simp [bdiEncodings, Encoding.tried, Encoding.ofPass])).tryBases block
      (by simp [bdiEncodings, Encoding.tried, Encoding.ofPass]) hrun₂
  have h₃ := h₂.tryBases block (by simp [bdiEncodings, Encoding.tried, Encoding.ofPass]) hrun₃
  exact ⟨s₄, h₃.tryExponents block hrun₄, hspecial, hbdi⟩

theorem bdiEncodings_elementSize :
    ∀ encoding ∈ bdiEncodings, encoding ≠ .zero → encoding.elementSize ≠ 0 := by
  decide

/-- The sizes always agree; the base is right except for the zero block. -/
theorem special_agrees_iff (block : LineBlock) :
    (∃ r baseSize, BDICompressSpecial block.bytes = some (r, baseSize) ∧
      BDICompress block.bytes = some r) ∧
    (BaseReported block ↔ ∃ byte ∈ block.bytes, byte ≠ 0) := by
  constructor
  · obtain ⟨_, _, _, s₄, _, _, _, _, hspecial, hbdi⟩ := special_run block
    exact ⟨_, _, hspecial, hbdi⟩
  constructor
  · rintro ⟨r, baseSize, hspecial, _, hzero, _⟩
    by_contra hnone
    have hall : ∀ byte ∈ block.bytes, byte = 0 := by
      intro byte hbyte
      by_contra hne
      exact hnone ⟨byte, hbyte, hne⟩
    have hpair := Option.some.inj (hspecial.symm.trans (special_zero block hall))
    have hbase := hzero hall
    rw [(Prod.mk.inj hpair).2] at hbase
    omega
  · rintro ⟨byte, hbyte, hne⟩
    obtain ⟨s, htracks, hspecial, hbdi⟩ := special_tracks block hbyte hne
    refine ⟨_, _, hspecial, ?_, fun hall => absurd (hall byte hbyte) hne, fun hsmall _ => ?_⟩
    · cases htracks.winner with
      | inr hwinner => exact hwinner
      | inl hwhole =>
          -- the exponent passes have a size that is at most that of the block
          obtain ⟨_, hr, _, hleast⟩ := bdiCompressWith_least block total_multBase passes_bdi
          obtain rfl := Option.some.inj (hbdi.symm.trans hr)
          have height := block.convert_pos (show 0 < 8 by omega) le_rfl
          have hexponent : (doubleExponentCompression
              (convertBuffer2Array block.bytes block.bytes.length 8) 2 8).isSome :=
            exponent_isSome height (Or.inr rfl) 8
          obtain ⟨c, hc⟩ := Option.isSome_iff_exists.mp hexponent
          have htried : Encoding.exponent 2 ∈ bdiEncodings := by simp [bdiEncodings, Encoding.tried]
          have hlower := hleast c
            ((mem_bdiSizes_iff block c).mpr (Or.inr ⟨.exponent 2, htried, hc⟩))
          have hupper := (exponent_bounds (Or.inr rfl) hc).2
          rw [convertBuffer2Array_length, Nat.div_mul_cancel block.whole] at hupper
          have hsame : c = s.sizes.bestCSize := by omega
          exact ⟨.exponent 2, htried, hsame ▸ hc, hwhole.2⟩
    · cases htracks.winner with
      | inl hwhole => omega
      | inr hwinner =>
          obtain ⟨encoding, htried, hsize, hbase⟩ := hwinner
          rw [hbase]
          apply bdiEncodings_elementSize encoding htried
          rintro rfl
          simp only [Encoding.size, Option.ite_none_right_eq_some] at hsize
          exact hne (block.isZeroPackable_iff.mp hsize.1 byte hbyte)

theorem zeroLine_base_unreported : ¬ BaseReported zeroLine := by
  have hzero : ∀ byte ∈ zeroLine.bytes, byte = 0 := by decide
  rintro ⟨r, baseSize, hspecial, _, hbase, _⟩
  have hpair := Option.some.inj (hspecial.symm.trans (special_zero zeroLine hzero))
  have hfour := hbase hzero
  rw [(Prod.mk.inj hpair).2] at hfour
  omega

end AesOnGpu.Compression
