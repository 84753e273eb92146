import AesOnGpu.Compression.Bdi

/-! # The cascade of candidate encodings

The `BDICompress` functions carry the best size so far and the size of the last candidate
through one variable each. The size of the last candidate is never below the best one, so
that a stale value changes nothing and the result is the least size of all candidates.
-/

namespace AesOnGpu.Compression

/-- The candidates of the `BDICompress` functions. -/
inductive Encoding where
  | zero
  | repeated (bsize : Nat)
  | base (bsize blimit : Nat)
  | exponent (blimit : Nat)
  deriving DecidableEq, Repr

namespace Encoding

variable (compression : List (BitVec 64) → Nat → Nat → Option Nat)

def size (buffer : List (BitVec 8)) : Encoding → Option Nat
  | zero => if isZeroPackable (convertBuffer2Array buffer buffer.length 8) then some 1 else none
  | repeated bsize =>
      if isSameValuePackable (convertBuffer2Array buffer buffer.length bsize) then some bsize
      else none
  | base bsize blimit =>
      compression (convertBuffer2Array buffer buffer.length bsize) blimit bsize
  | exponent blimit =>
      doubleExponentCompression (convertBuffer2Array buffer buffer.length 8) blimit 8

def elementSize : Encoding → Nat
  | zero => 0
  | repeated bsize => bsize
  | base bsize _ => bsize
  | exponent _ => 8

def ofPass (pass : Nat × List Nat) : List Encoding :=
  (if pass.1 = 4 then [repeated 4] else []) ++ pass.2.map (base pass.1)

def tried (narrower : List (Nat × List Nat)) : List Encoding :=
  [zero, repeated 8] ++ [1, 2, 4].map (base 8) ++ narrower.flatMap ofPass ++ [2, 1].map exponent

end Encoding

/-! ## The running variables -/

/-- `bestCSize` is the least of the sizes seen, and no stale `currCSize` is below it. -/
structure Sizes.Least (s : Sizes) (seen : List Nat) : Prop where
  mem : s.bestCSize ∈ seen
  le : ∀ c ∈ seen, s.bestCSize ≤ c
  stale : s.bestCSize ≤ s.currCSize

variable {compression : List (BitVec 64) → Nat → Nat → Option Nat} {s : Sizes} {seen : List Nat}
  {buffer : List (BitVec 8)}

@[simp] theorem Sizes.keep_bestCSize (s : Sizes) :
    s.keep.bestCSize = min s.bestCSize s.currCSize := by
  simp only [Sizes.keep]
  split <;> omega

theorem Sizes.Least.keep (hleast : s.Least seen) (currCSize : Nat) :
    ({ s with currCSize := currCSize } : Sizes).keep.Least (seen ++ [currCSize]) := by
  constructor
  case mem =>
    rw [Sizes.keep_bestCSize, List.mem_append, List.mem_singleton]
    cases Nat.le_total s.bestCSize currCSize with
    | inl hle => exact Or.inl (by simpa [Nat.min_eq_left hle] using hleast.mem)
    | inr hge => exact Or.inr (Nat.min_eq_right hge)
  case le =>
    intro c hc
    rw [Sizes.keep_bestCSize]
    cases List.mem_append.mp hc with
    | inl hold => exact (Nat.min_le_left _ _).trans (hleast.le c hold)
    | inr hnew =>
        rw [List.mem_singleton.mp hnew]
        exact Nat.min_le_right _ _
  case stale =>
    rw [Sizes.keep_bestCSize]
    exact Nat.min_le_right _ _

theorem Sizes.Least.sameValue (hleast : s.Least seen)
    (compression : List (BitVec 64) → Nat → Nat → Option Nat) (buffer : List (BitVec 8))
    (bsize : Nat) :
    (s.sameValue (convertBuffer2Array buffer buffer.length bsize) bsize).Least
      (seen ++ ((Encoding.repeated bsize).size compression buffer).toList) := by
  unfold Sizes.sameValue
  by_cases hsame : isSameValuePackable (convertBuffer2Array buffer buffer.length bsize) = true
  · simp only [Encoding.size, hsame, if_true, Option.toList_some]
    exact hleast.keep bsize
  · -- the size of the last candidate is kept once more
    simp only [Encoding.size, hsame, Bool.false_eq_true, if_false, Option.toList_none,
      List.append_nil]
    have hbest : s.keep.bestCSize = s.bestCSize := by
      rw [Sizes.keep_bestCSize, Nat.min_eq_left hleast.stale]
    exact ⟨hbest ▸ hleast.mem, hbest ▸ hleast.le, hbest ▸ hleast.stale⟩

def sizesOf (compression : List (BitVec 64) → Nat → Nat → Option Nat) (buffer : List (BitVec 8))
    (encodings : List Encoding) : List Nat :=
  encodings.filterMap (Encoding.size compression buffer)

theorem sizesOf_append (encodings encodings' : List Encoding) :
    sizesOf compression buffer (encodings ++ encodings') =
      sizesOf compression buffer encodings ++ sizesOf compression buffer encodings' :=
  List.filterMap_append

theorem sizesOf_singleton (encoding : Encoding) :
    sizesOf compression buffer [encoding] = (encoding.size compression buffer).toList := by
  cases hsize : encoding.size compression buffer <;> simp [sizesOf, hsize]

theorem Sizes.Least.tryDeltas {attempt : List (BitVec 64) → Nat → Nat → Option Nat}
    {values : List (BitVec 64)} {bsize : Nat} (encoding : Nat → Encoding)
    (hsize : ∀ blimit, attempt values blimit bsize = (encoding blimit).size compression buffer)
    {blimits : List Nat} (htried : ∀ blimit ∈ blimits, (attempt values blimit bsize).isSome) :
    ∀ {s : Sizes} {seen : List Nat}, s.Least seen →
      ∃ s', s.tryDeltas attempt values bsize blimits = some s' ∧
        s'.Least (seen ++ sizesOf compression buffer (blimits.map encoding)) := by
  induction blimits with
  | nil =>
      intro s seen hleast
      exact ⟨s, rfl, by simpa [sizesOf] using hleast⟩
  | cons blimit blimits ih =>
      intro s seen hleast
      obtain ⟨currCSize, hcurr⟩ := Option.isSome_iff_exists.mp (htried blimit List.mem_cons_self)
      obtain ⟨s', hrest, hleast'⟩ :=
        ih (fun b hb => htried b (List.mem_cons_of_mem _ hb)) (hleast.keep currCSize)
      refine ⟨s', ?_, ?_⟩
      · simp only [Sizes.tryDeltas, List.foldlM_cons, Sizes.tryDelta, hcurr]
        exact hrest
      · rw [hsize] at hcurr
        simpa [sizesOf, hcurr] using hleast'

theorem Sizes.Least.tryNarrower (hleast : s.Least seen) (pass : Nat × List Nat)
    (htried : ∀ blimit ∈ pass.2,
      (compression (convertBuffer2Array buffer buffer.length pass.1) blimit pass.1).isSome) :
    ∃ s', s.tryNarrower compression buffer pass = some s' ∧
      s'.Least (seen ++ sizesOf compression buffer (Encoding.ofPass pass)) := by
  obtain ⟨bsize, blimits⟩ := pass
  simp only [Sizes.tryNarrower, Encoding.ofPass]
  by_cases hfour : bsize = 4
  · subst hfour
    have hsame : (s.sameValue (convertBuffer2Array buffer buffer.length 4) 4).Least
        (seen ++ ((Encoding.repeated 4).size compression buffer).toList) := hleast.sameValue compression buffer 4
    obtain ⟨s', hpass, hleast'⟩ := hsame.tryDeltas (Encoding.base 4) (fun _ => rfl) htried
    refine ⟨s', by simpa using hpass, ?_⟩
    rw [if_pos rfl, sizesOf_append, sizesOf_singleton, ← List.append_assoc]
    exact hleast'
  · obtain ⟨s', hpass, hleast'⟩ := hleast.tryDeltas (Encoding.base bsize)
      (fun _ => rfl) htried
    exact ⟨s', by simpa [hfour] using hpass, by simpa [hfour] using hleast'⟩

theorem Sizes.Least.tryNarrowers {narrower : List (Nat × List Nat)}
    (htried : ∀ pass ∈ narrower, ∀ blimit ∈ pass.2,
      (compression (convertBuffer2Array buffer buffer.length pass.1) blimit pass.1).isSome) :
    ∀ {s : Sizes} {seen : List Nat}, s.Least seen →
      ∃ s', narrower.foldlM (Sizes.tryNarrower compression buffer) s = some s' ∧
        s'.Least (seen ++ sizesOf compression buffer (narrower.flatMap Encoding.ofPass)) := by
  induction narrower with
  | nil =>
      intro s seen hleast
      exact ⟨s, rfl, by simpa [sizesOf] using hleast⟩
  | cons pass narrower ih =>
      intro s seen hleast
      obtain ⟨s₁, hpass, hleast₁⟩ :=
        hleast.tryNarrower pass (htried pass List.mem_cons_self)
      obtain ⟨s₂, hrest, hleast₂⟩ :=
        ih (fun p hp => htried p (List.mem_cons_of_mem _ hp)) hleast₁
      refine ⟨s₂, ?_, ?_⟩
      · simp only [List.foldlM_cons, hpass]
        exact hrest
      · rw [List.flatMap_cons, sizesOf_append, ← List.append_assoc]
        exact hleast₂

/-! ## Lines -/

namespace LineBlock

variable (block : LineBlock)

theorem eight_le : 8 ≤ block.bytes.length :=
  Nat.le_of_dvd block.positive block.whole

theorem convert_pos {bsize : Nat} (hpos : 0 < bsize) (hle : bsize ≤ 8) :
    0 < (convertBuffer2Array block.bytes block.bytes.length bsize).length := by
  rw [convertBuffer2Array_length]
  exact Nat.div_pos (hle.trans block.eight_le) hpos

end LineBlock

theorem doubleExponent_eq (first : BitVec 64) (values : List (BitVec 64)) {blimit : Nat}
    (hblimit : blimit = 1 ∨ blimit = 2) (bsize : Nat) :
    doubleExponentCompression (first :: values) blimit bsize =
      some (if ∀ value ∈ values, first >>> (64 - 8 * blimit) = value >>> (64 - 8 * blimit) then
          (first :: values).length * bsize - values.length * blimit
        else (first :: values).length * bsize) := by
  have hcount (shift : Nat) (hall : ∀ value ∈ values, first >>> shift = value >>> shift) :
      values.countP (fun value : BitVec 64 => first >>> shift == value >>> shift) =
        values.length := by
    rw [List.countP_eq_length]
    simpa using hall
  cases hblimit with
  | inl hone =>
      subst hone
      by_cases hall : ∀ value ∈ values, first >>> 56 = value >>> 56
      · simp [doubleExponentCompression, hcount 56 hall, if_pos hall]
      · simp [doubleExponentCompression, if_neg hall]
  | inr htwo =>
      subst htwo
      by_cases hall : ∀ value ∈ values, first >>> 48 = value >>> 48
      · simp [doubleExponentCompression, hcount 48 hall, if_pos hall]
      · simp [doubleExponentCompression, if_neg hall]

theorem exponent_isSome {values : List (BitVec 64)} (hpos : 0 < values.length) {blimit : Nat}
    (hblimit : blimit = 1 ∨ blimit = 2) (bsize : Nat) :
    (doubleExponentCompression values blimit bsize).isSome := by
  cases values with
  | nil => simp at hpos
  | cons first values => rw [doubleExponent_eq first values hblimit bsize, Option.isSome_some]

theorem deltaLimit_isSome {blimit : Nat} (hblimit : blimit = 1 ∨ blimit = 2 ∨ blimit = 4) :
    (deltaLimit blimit).isSome := by
  rcases hblimit with rfl | rfl | rfl <;> rfl

theorem multBase_isSome {values : List (BitVec 64)} (hpos : 0 < values.length) {blimit : Nat}
    (hblimit : blimit = 1 ∨ blimit = 2 ∨ blimit = 4) (bsize : Nat) :
    (multBaseCompression values blimit bsize).isSome := by
  obtain ⟨limit, hlimit⟩ := Option.isSome_iff_exists.mp (deltaLimit_isSome hblimit)
  simp [multBaseCompression, hlimit, List.getElem?_eq_getElem hpos]

theorem singleBase_isSome {values : List (BitVec 64)} (hpos : 0 < values.length) {blimit : Nat}
    (hblimit : blimit = 1 ∨ blimit = 2 ∨ blimit = 4) (bsize : Nat) :
    (singleBaseCompression values blimit bsize).isSome := by
  obtain ⟨limit, hlimit⟩ := Option.isSome_iff_exists.mp (deltaLimit_isSome hblimit)
  simp only [singleBaseCompression, hlimit, List.getElem?_eq_getElem hpos]
  dsimp only [bind, Option.bind]
  split <;> rfl

/-- A compression that has a size for every element and delta size of the cascade. -/
def Total (compression : List (BitVec 64) → Nat → Nat → Option Nat) : Prop :=
  ∀ {values : List (BitVec 64)}, 0 < values.length →
    ∀ {blimit : Nat}, blimit = 1 ∨ blimit = 2 ∨ blimit = 4 →
      ∀ bsize, (compression values blimit bsize).isSome

theorem total_multBase : Total multBaseCompression :=
  fun hpos _ hblimit => multBase_isSome hpos hblimit

structure Passes (narrower : List (Nat × List Nat)) : Prop where
  bsize : ∀ pass ∈ narrower, 0 < pass.1 ∧ pass.1 ≤ 8
  blimit : ∀ pass ∈ narrower, ∀ blimit ∈ pass.2, blimit = 1 ∨ blimit = 2 ∨ blimit = 4

theorem passes_bdi : Passes [(4, [1, 2]), (2, [1])] := by
  constructor <;> simp

theorem passes_4BOnly : Passes [(4, [1, 2])] := by
  constructor <;> simp

theorem passes_8BOnly : Passes [] := by
  constructor <;> simp

theorem bdiCompressWith_least (block : LineBlock) (htotal : Total compression)
    {narrower : List (Nat × List Nat)} (hpasses : Passes narrower) :
    ∃ r, bdiCompressWith compression narrower block.bytes = some r ∧
      r ∈ block.bytes.length :: sizesOf compression block.bytes (Encoding.tried narrower) ∧
      ∀ c ∈ block.bytes.length :: sizesOf compression block.bytes (Encoding.tried narrower),
        r ≤ c := by
  have height := block.convert_pos (show 0 < 8 by omega) le_rfl
  have hfirst : (⟨if isZeroPackable (convertBuffer2Array block.bytes block.bytes.length 8) then 1
      else block.bytes.length, block.bytes.length⟩ : Sizes).Least
      (block.bytes.length :: sizesOf compression block.bytes [.zero]) := by
    have hle := block.eight_le
    by_cases hzero : isZeroPackable
        (convertBuffer2Array block.bytes block.bytes.length 8) = true
    · simp only [sizesOf_singleton, Encoding.size, hzero, if_true]
      constructor <;> simp <;> omega
    · simp only [sizesOf_singleton, Encoding.size, hzero]
      constructor <;> simp
  have hwide_total : ∀ blimit ∈ [1, 2, 4], (compression
      (convertBuffer2Array block.bytes block.bytes.length 8) blimit 8).isSome :=
    fun blimit hb => htotal height (by simpa using hb) 8
  have hexponent_total : ∀ blimit ∈ [2, 1], (doubleExponentCompression
      (convertBuffer2Array block.bytes block.bytes.length 8) blimit 8).isSome :=
    fun blimit hb => exponent_isSome height (by simpa [or_comm] using hb) 8
  obtain ⟨s₁, hwide, hleast₁⟩ := (hfirst.sameValue compression block.bytes 8).tryDeltas (Encoding.base 8)
    (fun _ => rfl) hwide_total
  obtain ⟨s₂, hnarrow, hleast₂⟩ := hleast₁.tryNarrowers
    (fun pass hpass blimit hb => htotal
      (block.convert_pos (hpasses.bsize pass hpass).1 (hpasses.bsize pass hpass).2)
      (hpasses.blimit pass hpass blimit hb) pass.1)
  obtain ⟨s₃, hexponent, hleast₃⟩ := hleast₂.tryDeltas Encoding.exponent (fun _ => rfl)
    hexponent_total
  refine ⟨s₃.bestCSize, ?_, ?_⟩
  · simp only [bdiCompressWith, bind, Option.bind, hwide, hnarrow, hexponent]
    rfl
  · have hseen : block.bytes.length :: sizesOf compression block.bytes (Encoding.tried narrower) =
        (block.bytes.length :: sizesOf compression block.bytes [.zero]) ++
          ((Encoding.repeated 8).size compression block.bytes).toList ++
          sizesOf compression block.bytes ([1, 2, 4].map (Encoding.base 8)) ++
          sizesOf compression block.bytes (narrower.flatMap Encoding.ofPass) ++
          sizesOf compression block.bytes ([2, 1].map Encoding.exponent) := by
      rw [← sizesOf_singleton]
      simp only [Encoding.tried, List.cons_append, ← sizesOf_append, List.append_assoc,
        List.nil_append]
    rw [hseen]
    exact ⟨hleast₃.mem, hleast₃.le⟩

/-! ## How small a candidate can be -/

theorem multBase_bounds {values : List (BitVec 64)} {blimit bsize r : Nat}
    (hr : multBaseCompression values blimit bsize = some r) :
    2 * bsize ≤ r ∧ (blimit ≤ bsize → r ≤ values.length * bsize + 2 * bsize) := by
  unfold multBaseCompression at hr
  cases hlimit : deltaLimit blimit with
  | none => simp [hlimit] at hr
  | some limit =>
      cases hfirst : values[0]? with
      | none => simp [hlimit, hfirst] at hr
      | some first =>
          simp only [hlimit, hfirst, Option.bind_eq_bind, Option.bind_some, Option.pure_def,
            Option.some.injEq] at hr
          generalize hcount : compCount limit (collectBases limit 2 values [first]) values = count
            at hr
          have hle : count ≤ values.length := hcount ▸ List.countP_le_length
          subst hr
          refine ⟨by omega, fun hnarrow => ?_⟩
          have hcovered : blimit * count ≤ bsize * count := Nat.mul_le_mul_right _ hnarrow
          have hall : bsize * count + (values.length - count) * bsize = values.length * bsize := by
            rw [Nat.mul_comm bsize, ← Nat.add_mul, Nat.add_sub_cancel' hle]
          omega

theorem exponent_bounds {values : List (BitVec 64)} {blimit r : Nat}
    (hblimit : blimit = 1 ∨ blimit = 2)
    (hr : doubleExponentCompression values blimit 8 = some r) :
    8 ≤ r ∧ r ≤ values.length * 8 := by
  cases values with
  | nil =>
      rcases hblimit with rfl | rfl <;> simp [doubleExponentCompression] at hr
  | cons first values =>
      rw [doubleExponent_eq first values hblimit, Option.some.injEq] at hr
      rw [List.length_cons] at hr ⊢
      have hsaved : values.length * blimit ≤ values.length * 8 :=
        Nat.mul_le_mul_left _ (by omega)
      subst hr
      split <;> omega

namespace LineBlock

variable (block : LineBlock)

theorem isZeroPackable_iff :
    isZeroPackable (convertBuffer2Array block.bytes block.bytes.length 8) = true ↔
      ∀ byte ∈ block.bytes, byte = 0 := by
  have hwhole := Nat.div_mul_cancel block.whole
  have helement (i : Nat) : readElement block.bytes (i * 8) 8 = 0 ↔
      ∀ j < 8, block.bytes.getD (i * 8 + j) 0 = 0 :=
    readElement_eq_zero_iff block.bytes (i * 8) (le_refl 8)
  simp only [isZeroPackable, convertBuffer2Array, List.all_eq_true, List.mem_map, List.mem_range,
    beq_iff_eq, forall_exists_index, and_imp, forall_apply_eq_imp_iff₂, helement]
  constructor
  · intro hzero byte hbyte
    obtain ⟨n, hn, rfl⟩ := List.mem_iff_getElem.mp hbyte
    have hat := hzero (n / 8) (by omega) (n % 8) (Nat.mod_lt _ (by omega))
    have hpos : n / 8 * 8 + n % 8 = n := by omega
    rw [hpos, List.getD_eq_getElem _ _ hn] at hat
    exact hat
  · intro hzero i hi j hj
    have hlt : i * 8 + j < block.bytes.length := by omega
    rw [List.getD_eq_getElem _ _ hlt]
    exact hzero _ (List.getElem_mem hlt)

end LineBlock

theorem Encoding.size_bounds (block : LineBlock) {narrower : List (Nat × List Nat)}
    (hpasses : ∀ pass ∈ narrower, 2 ≤ pass.1) {encoding : Encoding}
    (htried : encoding ∈ Encoding.tried narrower) {r : Nat}
    (hr : encoding.size multBaseCompression block.bytes = some r) :
    1 ≤ r ∧ (r < 4 → encoding = .zero) := by
  have hbase : ∀ {bsize blimit}, 2 ≤ bsize →
      (Encoding.base bsize blimit).size multBaseCompression block.bytes = some r → 4 ≤ r := by
    intro bsize blimit hwide hsize
    have hbounds := multBase_bounds hsize
    omega
  have hrepeated : ∀ {bsize}, 4 ≤ bsize →
      (Encoding.repeated bsize).size multBaseCompression block.bytes = some r → 4 ≤ r := by
    intro bsize hwide hsize
    simp only [Encoding.size, Option.ite_none_right_eq_some, Option.some.injEq] at hsize
    omega
  have hexponent : ∀ {blimit}, blimit = 1 ∨ blimit = 2 →
      (Encoding.exponent blimit).size multBaseCompression block.bytes = some r → 4 ≤ r := by
    intro blimit hblimit hsize
    have hbounds := exponent_bounds hblimit hsize
    omega
  simp only [Encoding.tried, Encoding.ofPass, List.mem_append, List.mem_cons, List.mem_map,
    List.mem_flatMap, List.not_mem_nil, or_false, exists_eq_or_imp, exists_eq_left] at htried
  rcases htried with (((rfl | rfl) | rfl | rfl | rfl) | ⟨pass, hpass, hin⟩) | rfl | rfl
  · simp only [Encoding.size, Option.ite_none_right_eq_some, Option.some.injEq] at hr
    exact ⟨by omega, fun _ => rfl⟩
  · have := hrepeated (by omega) hr
    omega
  · have := hbase (by omega) hr
    omega
  · have := hbase (by omega) hr
    omega
  · have := hbase (by omega) hr
    omega
  · rcases hin with hfour | ⟨blimit, _, rfl⟩
    · split at hfour
      next =>
        obtain rfl := List.mem_singleton.mp hfour
        have := hrepeated (by omega) hr
        omega
      next => simp at hfour
    · have := hbase (hpasses pass hpass) hr
      omega
  · have := hexponent (by omega) hr
    omega
  · have := hexponent (by omega) hr
    omega

/-! ## The variants compared -/

theorem Encoding.tried_mono {narrower narrower' : List (Nat × List Nat)}
    (hsubset : narrower ⊆ narrower') : Encoding.tried narrower ⊆ Encoding.tried narrower' := by
  have hpasses : narrower.flatMap Encoding.ofPass ⊆ narrower'.flatMap Encoding.ofPass := by
    intro encoding hin
    rw [List.mem_flatMap] at hin ⊢
    obtain ⟨pass, hpass, hof⟩ := hin
    exact ⟨pass, hsubset hpass, hof⟩
  intro encoding hin
  simp only [Encoding.tried, List.mem_append] at hin ⊢
  rcases hin with (hwide | hpass) | hexponent
  · exact Or.inl (Or.inl hwide)
  · exact Or.inl (Or.inr (hpasses hpass))
  · exact Or.inr hexponent

theorem bdiCompressWith_anti {block : LineBlock} (htotal : Total compression)
    {narrower narrower' : List (Nat × List Nat)} (hpasses : Passes narrower)
    (hpasses' : Passes narrower') (hsubset : narrower ⊆ narrower') {r r' : Nat}
    (hr : bdiCompressWith compression narrower block.bytes = some r)
    (hr' : bdiCompressWith compression narrower' block.bytes = some r') : r' ≤ r := by
  obtain ⟨least, hleast, hmem, _⟩ := bdiCompressWith_least block htotal hpasses
  obtain ⟨least', hleast', _, hle'⟩ := bdiCompressWith_least block htotal hpasses'
  obtain rfl : least = r := Option.some.inj (hleast.symm.trans hr)
  obtain rfl : least' = r' := Option.some.inj (hleast'.symm.trans hr')
  apply hle'
  cases List.mem_cons.mp hmem with
  | inl hwhole => exact List.mem_cons.mpr (Or.inl hwhole)
  | inr hsome =>
      obtain ⟨encoding, htried, hsize⟩ := List.mem_filterMap.mp hsome
      exact List.mem_cons_of_mem _
        (List.mem_filterMap.mpr ⟨encoding, Encoding.tried_mono hsubset htried, hsize⟩)

theorem foldl_min_eq {sizes : List Nat} {start r : Nat} (hmem : r ∈ start :: sizes)
    (hle : ∀ c ∈ start :: sizes, r ≤ c) : sizes.foldl min start = r := by
  induction sizes generalizing start with
  | nil => exact (List.mem_singleton.mp hmem).symm
  | cons c sizes ih =>
      rw [List.foldl_cons]
      apply ih
      · cases Nat.le_total start c with
        | inl hstart =>
            rw [Nat.min_eq_left hstart]
            cases List.mem_cons.mp hmem with
            | inl heq => exact heq ▸ List.mem_cons_self
            | inr hrest =>
                cases List.mem_cons.mp hrest with
                | inl heq =>
                    have hsame : r = start :=
                      Nat.le_antisymm (hle start List.mem_cons_self) (heq ▸ hstart)
                    exact hsame ▸ List.mem_cons_self
                | inr hlater => exact List.mem_cons_of_mem _ hlater
        | inr hc =>
            rw [Nat.min_eq_right hc]
            cases List.mem_cons.mp hmem with
            | inl heq =>
                have hsame : r = c := Nat.le_antisymm
                  (hle c (List.mem_cons_of_mem _ List.mem_cons_self)) (heq ▸ hc)
                exact hsame ▸ List.mem_cons_self
            | inr hrest => exact hrest
      · intro d hd
        cases List.mem_cons.mp hd with
        | inl heq =>
            rw [heq]
            exact Nat.le_min.mpr ⟨hle start List.mem_cons_self,
              hle c (List.mem_cons_of_mem _ List.mem_cons_self)⟩
        | inr hlater => exact hle d (List.mem_cons_of_mem _ (List.mem_cons_of_mem _ hlater))

/-- The encodings of `BDICompress`. -/
abbrev bdiEncodings : List Encoding := Encoding.tried [(4, [1, 2]), (2, [1])]

theorem mem_bdiSizes_iff (block : LineBlock) (c : Nat) :
    c ∈ block.bytes.length :: sizesOf multBaseCompression block.bytes bdiEncodings ↔
      c = block.bytes.length ∨ ∃ encoding ∈ bdiEncodings,
        encoding.size multBaseCompression block.bytes = some c := by
  rw [List.mem_cons, sizesOf, List.mem_filterMap]

/-- `BDICompress` is the least size of its candidates in whatever order they are tried, 1 only
for the zero block, and the variants with fewer candidates are never better. -/
theorem bdi_least_size (block : LineBlock) :
    ∃ r r₄ r₈, BDICompress block.bytes = some r ∧ BDICompress4BOnly block.bytes = some r₄ ∧
      BDICompress8BOnly block.bytes = some r₈ ∧
      IsLeast {c | c = block.bytes.length ∨ ∃ encoding ∈ bdiEncodings,
        encoding.size multBaseCompression block.bytes = some c} r ∧
      (∀ order : List Encoding, order.Perm bdiEncodings →
        (sizesOf multBaseCompression block.bytes order).foldl min block.bytes.length = r) ∧
      1 ≤ r ∧ r ≤ block.bytes.length ∧ (r = 1 ↔ ∀ byte ∈ block.bytes, byte = 0) ∧
      r ≤ r₄ ∧ r₄ ≤ r₈ := by
  have htotal : Total multBaseCompression := total_multBase
  obtain ⟨r, hr, hmem, hle⟩ := bdiCompressWith_least block htotal passes_bdi
  obtain ⟨r₄, hr₄, _⟩ := bdiCompressWith_least block htotal passes_4BOnly
  obtain ⟨r₈, hr₈, _⟩ := bdiCompressWith_least block htotal passes_8BOnly
  have hcandidate := mem_bdiSizes_iff block
  have hbounds : ∀ {encoding : Encoding} {c : Nat}, encoding ∈ bdiEncodings →
      encoding.size multBaseCompression block.bytes = some c →
        1 ≤ c ∧ (c < 4 → encoding = .zero) := by
    intro encoding c hin hsize
    exact Encoding.size_bounds block (by simp) hin hsize
  have hlength := block.eight_le
  refine ⟨r, r₄, r₈, hr, hr₄, hr₈, ⟨(hcandidate r).mp hmem, ?_⟩, ?_, ?_,
    hle _ List.mem_cons_self, ?_, ?_, ?_⟩
  · exact fun c hc => hle c ((hcandidate c).mpr hc)
  · intro order horder
    have hperm : (block.bytes.length :: sizesOf multBaseCompression block.bytes order).Perm
        (block.bytes.length :: sizesOf multBaseCompression block.bytes bdiEncodings) :=
      (horder.filterMap _).cons _
    exact foldl_min_eq (hperm.mem_iff.mpr hmem) (fun c hc => hle c (hperm.mem_iff.mp hc))
  · cases (hcandidate r).mp hmem with
    | inl hwhole => omega
    | inr hsome =>
        obtain ⟨encoding, hin, hsize⟩ := hsome
        exact (hbounds hin hsize).1
  · rw [← block.isZeroPackable_iff]
    constructor
    · intro hone
      cases (hcandidate r).mp hmem with
      | inl hwhole => omega
      | inr hsome =>
          obtain ⟨encoding, hin, hsize⟩ := hsome
          obtain rfl := (hbounds hin hsize).2 (by omega)
          simp only [Encoding.size, Option.ite_none_right_eq_some] at hsize
          exact hsize.1
    · intro hzero
      have hone : Encoding.zero.size multBaseCompression block.bytes = some 1 := by
        simp only [Encoding.size, hzero, if_true]
      have hupper := hle 1 ((hcandidate 1).mpr
        (Or.inr ⟨.zero, by simp [bdiEncodings, Encoding.tried], hone⟩))
      cases (hcandidate r).mp hmem with
      | inl hwhole => omega
      | inr hsome =>
          obtain ⟨encoding, hin, hsize⟩ := hsome
          have hlower := (hbounds hin hsize).1
          omega
  · exact bdiCompressWith_anti htotal passes_4BOnly passes_bdi (by simp) hr₄ hr
  · exact bdiCompressWith_anti htotal passes_8BOnly passes_4BOnly (by simp) hr₈ hr₄

theorem candidate_sizes_fit (block : LineBlock) (hsize : block.bytes.length + 16 < 2 ^ 32)
    {encoding : Encoding} (htried : encoding ∈ bdiEncodings) {c : Nat}
    (hc : encoding.size multBaseCompression block.bytes = some c) : c < 2 ^ 32 := by
  have hbase : ∀ {bsize blimit}, bsize ≤ 8 → blimit ≤ bsize →
      (Encoding.base bsize blimit).size multBaseCompression block.bytes = some c → c < 2 ^ 32 := by
    intro bsize blimit hle hnarrow hr
    have hbounds := (multBase_bounds hr).2 hnarrow
    rw [convertBuffer2Array_length] at hbounds
    have hdiv := Nat.div_mul_le_self block.bytes.length bsize
    omega
  have hexponent : ∀ {blimit}, blimit = 1 ∨ blimit = 2 →
      (Encoding.exponent blimit).size multBaseCompression block.bytes = some c → c < 2 ^ 32 := by
    intro blimit hblimit hr
    have hbounds := (exponent_bounds hblimit hr).2
    rw [convertBuffer2Array_length] at hbounds
    have hdiv := Nat.div_mul_le_self block.bytes.length 8
    omega
  simp only [bdiEncodings, Encoding.tried, Encoding.ofPass, List.mem_append, List.mem_cons,
    List.mem_map, List.mem_flatMap, List.not_mem_nil, or_false, exists_eq_or_imp,
    exists_eq_left] at htried
  simp at htried
  rcases htried with
    ((((rfl | rfl) | rfl | rfl | rfl) | (rfl | rfl | rfl) | rfl) | rfl | rfl)
  all_goals
    first
    | exact hbase (by omega) (by omega) hc
    | exact hexponent (by omega) hc
    | (simp only [Encoding.size, Option.ite_none_right_eq_some, Option.some.injEq] at hc; omega)

end AesOnGpu.Compression
