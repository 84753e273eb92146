import AesOnGpu.Ptx.Register

/-! # Integer conversions

`cvt_impl` of `instructions.cc` for the integer types: a table of functions that is
indexed by the formats of the source and the destination.  None of the functions looks
at the saturation mode, and an empty place of the table leaves the register as it is.
-/

namespace AesOnGpu.Ptx

open RegValue

/-! ## The functions of the table -/

def chop (x : RegValue) (to_width : Nat) : Option RegValue :=
  match to_width with
  | 8 => some (x &&& 0xFF)
  | 16 => some (x &&& 0xFFFF)
  | 32 => some (x &&& 0xFFFFFFFF)
  | 64 => some x
  | _ => none

/-- The switch of `sext` and `sexd`, over different widths. -/
def extendSign (x : RegValue) (width : Nat) : Option RegValue :=
  match width with
  | 8 => some (if x.getLsbD 7 then x ||| 0xFFFFFFFFFFFFFF00 else x)
  | 16 => some (if x.getLsbD 15 then x ||| 0xFFFFFFFFFFFF0000 else x)
  | 32 => some (if x.getLsbD 31 then x ||| 0xFFFFFFFF00000000 else x)
  | 64 => some x
  | _ => none

inductive CvtFunction where
  | chop
  | sext
  | sexd
  | zext
  deriving DecidableEq

def CvtFunction.apply (function : CvtFunction) (x : RegValue) (from_width to_width : Nat) :
    Option RegValue :=
  match function with
  | chop => Ptx.chop x to_width
  | sext => do extendSign (← Ptx.chop x from_width) from_width
  | sexd => do extendSign (← Ptx.chop x from_width) to_width
  | zext => Ptx.chop x from_width

/-! ## The instruction -/

/-- The formats of `type_decode`; the untyped ones lie outside the table. -/
def IntegerType.format : IntegerType → Nat
  | S8_TYPE => 0 | S16_TYPE => 1 | S32_TYPE => 2 | S64_TYPE => 3
  | U8_TYPE => 4 | U16_TYPE => 5 | U32_TYPE => 6 | U64_TYPE => 7
  | B8_TYPE => 12 | B16_TYPE => 13 | B32_TYPE => 14 | B64_TYPE => 15

/-- The rows and columns of the integer formats. -/
def g_cvt_fn : List (List (Option CvtFunction)) :=
  let chop := some CvtFunction.chop
  let sext := some CvtFunction.sext
  let sexd := some CvtFunction.sexd
  let zext := some CvtFunction.zext
  [[none, sext, sext, sext, none, sext, sext, sext],
   [chop, none, sext, sext, chop, none, sext, sext],
   [chop, sexd, none, sext, chop, chop, none, sext],
   [chop, chop, chop, none, chop, chop, chop, none],
   [none, zext, zext, zext, none, zext, zext, zext],
   [chop, none, zext, zext, chop, none, zext, zext],
   [chop, chop, none, zext, chop, chop, none, zext],
   [chop, chop, chop, none, chop, chop, chop, none]]

/-- The place of the table, when there is one. -/
def cvtFunction (fromType toType : IntegerType) : Option (Option CvtFunction) := do
  (← g_cvt_fn[fromType.format]?)[toType.format]?

def negated (fromType : IntegerType) (x : RegValue) : RegValue :=
  x.store (-(x.setWidth fromType.width))

def cvt_impl (is_neg _saturation_mode : Bool) (fromType toType : IntegerType) (x : RegValue) :
    Option RegValue := do
  let data := if is_neg then negated fromType x else x
  match ← cvtFunction fromType toType with
  | some function => function.apply data fromType.width toType.width
  | none => some data

/-! ## Conversions of values -/

namespace IntegerType

/-- The signed and unsigned types. -/
def isInteger : IntegerType → Bool
  | B8_TYPE | B16_TYPE | B32_TYPE | B64_TYPE => false
  | _ => true

/-- The value of a type that is the same modulo `2 ^ width`. -/
def wrap (type : IntegerType) (v : Int) : Int := type.value (BitVec.ofInt 64 v)

def clamp (type : IntegerType) (v : Int) : Int :=
  max type.least (min v (type.least + 2 ^ type.width - 1))

end IntegerType

/-- What a conversion of `v` is to give. -/
def converted (sat : Bool) (toType : IntegerType) (v : Int) : Int :=
  if sat then toType.clamp v else toType.wrap v

/-- A register of `bits` bits holds `v`, with its sign or zeros above it. -/
def Holds (bits : Nat) (d : RegValue) (v : Int) : Prop := d.setWidth bits = BitVec.ofInt bits v

def ConvertsTo (bits : Nat) (sat : Bool) (fromType toType : IntegerType) (x : RegValue) : Prop :=
  ∃ d, cvt_impl false sat fromType toType x = some d ∧
    Holds bits d (converted sat toType (fromType.value x))

/-- The bits above the type are what they should be in a register that has some. -/
def UpperBitsExact (bits : Nat) (fromType toType : IntegerType) (x : RegValue) : Prop :=
  bits = toType.width ∨
    if fromType.width < toType.width then toType.signed = false → 0 ≤ fromType.value x
    else if fromType.width = toType.width then Holds bits x (toType.value x)
    else if fromType = .S32_TYPE ∧ toType = .S16_TYPE then
      toType.value x < 0 ∨ x.toNat % 2 ^ min bits 32 < 2 ^ 16
    else 0 ≤ toType.value x

section

variable {bits : Nat} {type fromType toType : IntegerType} {x d : RegValue} {v u : Int}

theorem holds_iff (narrow : bits ≤ 64) : Holds bits d v ↔ d.toInt ≡ v [ZMOD 2 ^ bits] := by
  rw [Holds, Words.setWidth_eq_ofInt narrow, Words.ofInt_inj]

theorem toInt_modEq_toNat (narrow : bits ≤ 64) (d : RegValue) :
    d.toInt ≡ d.toNat [ZMOD 2 ^ bits] := by
  have whole := Words.setWidth_toInt_modEq d 64
  rw [BitVec.setWidth_eq] at whole
  exact whole.of_dvd (pow_dvd_pow 2 narrow)

theorem holds_iff_toNat (narrow : bits ≤ 64) : Holds bits d v ↔ (d.toNat : Int) ≡ v [ZMOD 2 ^ bits] := by
  rw [holds_iff narrow]
  exact ⟨(toInt_modEq_toNat narrow d).symm.trans, (toInt_modEq_toNat narrow d).trans⟩

namespace IntegerType

theorem wrap_modEq (type : IntegerType) (v : Int) : type.wrap v ≡ v [ZMOD 2 ^ type.width] := by
  have whole : ((BitVec.ofInt 64 v).toNat : Int) ≡ v [ZMOD 2 ^ type.width] := by
    rw [← holds_iff_toNat type.width_le, Holds, Words.setWidth_eq_ofInt type.width_le, Words.ofInt_inj,
      BitVec.toInt_ofInt]
    have reduced : v.bmod (2 ^ 64) ≡ v [ZMOD 2 ^ 64] := Int.bmod_emod
    exact reduced.of_dvd (pow_dvd_pow 2 type.width_le)
  exact (type.value_modEq _).trans whole

theorem wrap_eq_of_modEq (same : v ≡ u [ZMOD 2 ^ type.width])
    (atLeast : type.least ≤ u) (below : u < type.least + 2 ^ type.width) : type.wrap v = u :=
  type.value_eq_of_modEq ((type.wrap_modEq v).trans same) atLeast below

theorem wrap_value (narrow : toType.width ≤ fromType.width) (x : RegValue) :
    toType.wrap (fromType.value x) = toType.value x := by
  have bounds := toType.value_bounds x
  have same := ((fromType.value_modEq x).of_dvd (pow_dvd_pow 2 narrow)).trans
    (toType.value_modEq x).symm
  exact wrap_eq_of_modEq same bounds.1 bounds.2

theorem clamp_bounds (type : IntegerType) (v : Int) :
    type.least ≤ type.clamp v ∧ type.clamp v < type.least + 2 ^ type.width := by
  have positive : (0 : Int) < 2 ^ type.width := by positivity
  rw [clamp]
  omega

end IntegerType

/-! ## What the functions give -/

theorem and_ones (x : RegValue) {w : Nat} (narrow : w ≤ 32) :
    x &&& BitVec.ofNat 64 (2 ^ w - 1) = fresh (x.setWidth w) := by
  rw [← BitVec.toNat_inj, and_mask_toNat x w narrow, fresh, BitVec.toNat_setWidth_of_le (by omega),
    BitVec.toNat_setWidth]

theorem chop_width (type : IntegerType) (x : RegValue) :
    chop x type.width = some (fresh (x.setWidth type.width)) := by
  cases type with
  | S8_TYPE | U8_TYPE | B8_TYPE => exact congrArg some (and_ones x (w := 8) (by omega))
  | S16_TYPE | U16_TYPE | B16_TYPE => exact congrArg some (and_ones x (w := 16) (by omega))
  | S32_TYPE | U32_TYPE | B32_TYPE => exact congrArg some (and_ones x (w := 32) (by omega))
  | S64_TYPE | U64_TYPE | B64_TYPE => exact congrArg some (BitVec.setWidth_eq x).symm

theorem or_ones {w : Nat} (small : w < 64) (y : BitVec w) (d : RegValue)
    (low : d.setWidth w = y) (negative : y.msb = true) :
    d ||| (BitVec.allOnes 64 <<< w) = y.signExtend 64 := by
  subst low
  apply BitVec.eq_of_getLsbD_eq
  intro i below
  rw [BitVec.getLsbD_or, BitVec.getLsbD_shiftLeft, BitVec.getLsbD_signExtend,
    BitVec.getLsbD_allOnes]
  have inWord : i - w < 64 := by omega
  by_cases inside : i < w
  · simp [inside, below]
  · simp [inside, below, negative, inWord]

theorem getLsbD_sign {w : Nat} (d : RegValue) (y : BitVec (w + 1)) (low : d.setWidth (w + 1) = y) :
    d.getLsbD w = y.msb := by
  subst low
  simp [BitVec.msb_eq_getLsbD_last]

theorem or_ones_if {w : Nat} (small : w + 1 < 64) (d : RegValue) (y : BitVec (w + 1))
    (low : d.setWidth (w + 1) = y) :
    (if d.getLsbD w then d ||| (BitVec.allOnes 64 <<< (w + 1)) else d) =
      if y.msb then y.signExtend 64 else d := by
  rw [getLsbD_sign d y low]
  split
  case isTrue negative => exact or_ones small y d low negative
  case isFalse => rfl

theorem extendSign_width (type : IntegerType) (d : RegValue) (y : BitVec type.width)
    (low : d.setWidth type.width = y) :
    extendSign d type.width = some (if y.msb then y.signExtend 64 else d) := by
  cases type with
  | S8_TYPE | U8_TYPE | B8_TYPE => exact congrArg some (or_ones_if (w := 7) (by omega) d y low)
  | S16_TYPE | U16_TYPE | B16_TYPE => exact congrArg some (or_ones_if (w := 15) (by omega) d y low)
  | S32_TYPE | U32_TYPE | B32_TYPE => exact congrArg some (or_ones_if (w := 31) (by omega) d y low)
  | S64_TYPE | U64_TYPE | B64_TYPE =>
    have same : y = d := low.symm.trans (BitVec.setWidth_eq d)
    have whole : BitVec.signExtend 64 y = d := (BitVec.signExtend_eq y).trans same
    rw [whole, ite_self]
    rfl

theorem sext_apply (fromType : IntegerType) (x : RegValue) (to_width : Nat) :
    CvtFunction.sext.apply x fromType.width to_width =
      some ((x.setWidth fromType.width).signExtend 64) := by
  have low : (fresh (x.setWidth fromType.width)).setWidth fromType.width =
    x.setWidth fromType.width := by rw [setWidth_fresh _ fromType.width_le, BitVec.setWidth_eq]
  simp only [CvtFunction.apply, chop_width, Option.bind_eq_bind, Option.bind_some,
    extendSign_width fromType _ _ low]
  split
  case isTrue => rfl
  case isFalse nonneg =>
    rw [BitVec.signExtend_eq_setWidth_of_msb_false (by simpa using nonneg)]
    rfl

/-! ## The table -/

theorem cvtFunction_eq (fromInteger : fromType.isInteger = true)
    (toInteger : toType.isInteger = true) : cvtFunction fromType toType = some
      (if fromType.width < toType.width then
        if fromType.signed then some .sext else some .zext
      else if fromType.width = toType.width then none
      else if fromType = .S32_TYPE ∧ toType = .S16_TYPE then some .sexd
      else some .chop) := by
  cases fromType <;> cases toType <;>
    first | rfl | exact absurd fromInteger (by decide) | exact absurd toInteger (by decide)

/-- What the code gives, with or without saturation. -/
structure Written (fromType toType : IntegerType) (x d : RegValue) : Prop where
  low : Holds toType.width d (fromType.value x)
  exact : ∀ bits, toType.width ≤ bits → bits ≤ 64 →
    (Holds bits d (toType.wrap (fromType.value x)) ↔ UpperBitsExact bits fromType toType x)

theorem written_zeros (low : d = fresh (x.setWidth toType.width)) (wide : toType.width ≤ bits)
    (narrow : bits ≤ 64) : Holds bits d (toType.value x) ↔ bits = toType.width ∨ 0 ≤ toType.value x := by
  have whole : (d.toNat : Int) = (x.setWidth toType.width).toNat := by
    rw [low, fresh, BitVec.toNat_setWidth_of_le toType.width_le]
  have below := (x.setWidth toType.width).isLt
  rw [holds_iff_toNat narrow, whole]
  cases signed : toType.signed with
  | false =>
    rw [IntegerType.value_of_unsigned signed]
    exact iff_of_true rfl (.inr (Int.natCast_nonneg _))
  | true =>
    rw [IntegerType.value_of_signed signed, Int.modEq_comm]
    have near := BitVec.toInt_eq_toNat_cond (x.setWidth toType.width)
    have power : ((2 ^ toType.width : Nat) : Int) = 2 ^ toType.width := by norm_cast
    rw [power] at near
    refine (Words.modEq_iff_of_near wide ?_).trans (or_congr_right ?_)
    · split at near <;> omega
    · have zero := Int.natCast_nonneg (x.setWidth toType.width).toNat
      split at near <;> omega

theorem half_range (wider : fromType.width < toType.width) (x : RegValue) :
    -2 ^ (toType.width - 1) ≤ fromType.value x ∧ fromType.value x < 2 ^ (toType.width - 1) := by
  have within := fromType.value_within x
  have grows : (2 : Int) ^ fromType.width ≤ 2 ^ (toType.width - 1) :=
    pow_le_pow_right₀ (by norm_num) (by omega)
  omega

theorem least_half (type : IntegerType) :
    type.signed = true ∧ type.least = -2 ^ (type.width - 1) ∧
        type.least + 2 ^ type.width = 2 ^ (type.width - 1) ∨
      type.signed = false ∧ type.least = 0 ∧ (2 : Int) ^ (type.width - 1) ≤ 2 ^ type.width := by
  cases type <;> decide

theorem wrap_of_wider (wider : fromType.width < toType.width)
    (fits : toType.signed = false → 0 ≤ fromType.value x) :
    toType.wrap (fromType.value x) = fromType.value x := by
  have half := half_range wider x
  have least := least_half toType
  refine IntegerType.wrap_eq_of_modEq rfl ?_ ?_
  · rcases least with ⟨-, least, -⟩ | ⟨unsigned, least, -⟩
    · omega
    · have := fits unsigned
      omega
  · rcases least with ⟨-, -, most⟩ | ⟨-, least, most⟩ <;> omega

theorem wrap_of_negative (wider : fromType.width < toType.width)
    (unsigned : toType.signed = false) (negative : fromType.value x < 0) :
    toType.wrap (fromType.value x) = fromType.value x + 2 ^ toType.width := by
  have half := half_range wider x
  rcases least_half toType with ⟨signed, -⟩ | ⟨-, least, most⟩
  · exact absurd (unsigned.symm.trans signed) (by decide)
  · exact IntegerType.wrap_eq_of_modEq (by simp) (by omega) (by omega)

theorem written_sext (wider : fromType.width < toType.width) (signed : fromType.signed = true) :
    Written fromType toType x ((x.setWidth fromType.width).signExtend 64) := by
  have whole : ((x.setWidth fromType.width).signExtend 64).toInt = fromType.value x := by
    rw [BitVec.toInt_signExtend_of_le fromType.width_le, IntegerType.value_of_signed signed]
  constructor
  · rw [holds_iff toType.width_le, whole]
  · intro bits wide narrow
    rw [holds_iff narrow, whole, UpperBitsExact, if_pos wider]
    by_cases fits : toType.signed = false → 0 ≤ fromType.value x
    · rw [wrap_of_wider wider fits]
      exact iff_of_true rfl (.inr fits)
    · obtain ⟨unsigned, negative⟩ := Classical.not_imp.mp fits
      have near := wrap_of_negative wider unsigned (Int.lt_of_not_ge negative)
      refine (Words.modEq_iff_of_near wide (.inr near)).trans (or_congr_right ?_)
      have positive : (0 : Int) < 2 ^ toType.width := by positivity
      refine iff_of_false (by omega) fun nonneg => ?_
      exact negative (nonneg unsigned)

theorem written_zext (wider : fromType.width < toType.width) (unsigned : fromType.signed = false) :
    Written fromType toType x (fresh (x.setWidth fromType.width)) := by
  have whole : ((fresh (x.setWidth fromType.width)).toNat : Int) = fromType.value x := by
    rw [fresh, BitVec.toNat_setWidth_of_le fromType.width_le,
      IntegerType.value_of_unsigned unsigned]
  have nonneg : 0 ≤ fromType.value x := whole ▸ Int.natCast_nonneg _
  constructor
  · rw [holds_iff_toNat toType.width_le, whole]
  · intro bits wide narrow
    rw [holds_iff_toNat narrow, whole, UpperBitsExact, if_pos wider,
      wrap_of_wider wider fun _ => nonneg]
    exact iff_of_true rfl (.inr fun _ => nonneg)

theorem written_same (same : fromType.width = toType.width) : Written fromType toType x x := by
  constructor
  · rw [holds_iff_toNat toType.width_le, ← same]
    exact (fromType.value_modEq x).symm
  · intro bits wide narrow
    rw [IntegerType.wrap_value same.ge, UpperBitsExact, if_neg same.not_lt, if_pos same]
    refine ⟨.inr, ?_⟩
    rintro (rfl | holds)
    · rw [holds_iff_toNat narrow]
      exact (toType.value_modEq x).symm
    · exact holds

theorem written_chop (narrower : toType.width < fromType.width)
    (plain : ¬ (fromType = .S32_TYPE ∧ toType = .S16_TYPE)) :
    Written fromType toType x (fresh (x.setWidth toType.width)) := by
  constructor
  · rw [holds_iff_toNat toType.width_le, fresh, BitVec.toNat_setWidth_of_le toType.width_le]
    exact (Words.setWidth_toNat_modEq x toType.width).trans
      ((fromType.value_modEq x).of_dvd (pow_dvd_pow 2 narrower.le)).symm
  · intro bits wide narrow
    rw [IntegerType.wrap_value narrower.le, written_zeros rfl wide narrow, UpperBitsExact,
      if_neg narrower.not_gt, if_neg narrower.ne', if_neg plain]

theorem mod_words_iff {n : Nat} (wide : 16 ≤ bits) :
    ((n % 2 ^ 32 : Nat) : Int) ≡ (n % 2 ^ 16 : Nat) [ZMOD 2 ^ bits] ↔
      n % 2 ^ min bits 32 < 2 ^ 16 := by
  have reduced : n % 2 ^ 32 % 2 ^ bits = n % 2 ^ min bits 32 := by
    rcases Nat.le_total bits 32 with few | many
    · rw [min_eq_left few, Nat.mod_mod_of_dvd _ (Nat.pow_dvd_pow 2 few)]
    · have below : n % 2 ^ 32 < 2 ^ bits :=
        (Nat.mod_lt _ (by positivity)).trans_le (Nat.pow_le_pow_right (by omega) many)
      rw [min_eq_right many, Nat.mod_eq_of_lt below]
  have kept : n % 2 ^ 16 % 2 ^ bits = n % 2 ^ 16 :=
    Nat.mod_eq_of_lt ((Nat.mod_lt _ (by positivity)).trans_le
      (Nat.pow_le_pow_right (by omega) wide))
  have twice : n % 2 ^ min bits 32 % 2 ^ 16 = n % 2 ^ 16 :=
    Nat.mod_mod_of_dvd _ (Nat.pow_dvd_pow 2 (by omega))
  have natural : ((n % 2 ^ 32 : Nat) : Int) ≡ (n % 2 ^ 16 : Nat) [ZMOD 2 ^ bits] ↔
      n % 2 ^ 32 ≡ n % 2 ^ 16 [MOD 2 ^ bits] := by
    exact_mod_cast Int.natCast_modEq_iff (n := 2 ^ bits)
  rw [natural, Nat.ModEq, reduced, kept]
  constructor
  · intro same
    omega
  · intro small
    rw [← twice, Nat.mod_eq_of_lt small]

theorem sexd_apply (x : RegValue) : CvtFunction.sexd.apply x 32 16 =
    some (if (x.setWidth 16).msb then (x.setWidth 16).signExtend 64 else fresh (x.setWidth 32)) := by
  have low : (fresh (x.setWidth 32)).setWidth 16 = x.setWidth 16 := by
    rw [setWidth_fresh _ (by omega), BitVec.setWidth_setWidth_of_le _ (by omega)]
  have chopped : chop x 32 = some (fresh (x.setWidth 32)) := chop_width .S32_TYPE x
  have extended := extendSign_width .S16_TYPE _ _ low
  simp only [CvtFunction.apply, chopped, Option.bind_eq_bind, Option.bind_some]
  exact extended

theorem written_sexd : Written .S32_TYPE .S16_TYPE x
    (if (x.setWidth 16).msb then (x.setWidth 16).signExtend 64 else fresh (x.setWidth 32)) := by
  have value : IntegerType.S16_TYPE.value x = (x.setWidth 16).toInt := rfl
  have low : (x.setWidth 16).toInt ≡ IntegerType.S32_TYPE.value x [ZMOD 2 ^ 16] :=
    (Words.setWidth_toInt_modEq x 16).trans
      ((Words.setWidth_toInt_modEq x 32).of_mul_right (n := 2 ^ 16) (2 ^ 16)).symm
  have upper (bits : Nat) : UpperBitsExact bits .S32_TYPE .S16_TYPE x ↔ bits = 16 ∨
    (x.setWidth 16).toInt < 0 ∨ x.toNat % 2 ^ min bits 32 < 2 ^ 16 := Iff.rfl
  split
  case isTrue negative =>
    have whole : ((x.setWidth 16).signExtend 64).toInt = (x.setWidth 16).toInt :=
      BitVec.toInt_signExtend_of_le (by omega)
    constructor
    · rw [holds_iff (by decide), whole]
      exact low
    · intro bits wide narrow
      rw [holds_iff narrow, whole, IntegerType.wrap_value (by decide), value, upper]
      exact iff_of_true rfl (.inr (.inl (BitVec.toInt_neg_of_msb_true negative)))
  case isFalse nonneg =>
    have whole : ((fresh (x.setWidth 32)).toNat : Int) = (x.toNat % 2 ^ 32 : Nat) := by
      rw [fresh, BitVec.toNat_setWidth_of_le (by omega), BitVec.toNat_setWidth]
    have plain : (x.setWidth 16).toInt = (x.toNat % 2 ^ 16 : Nat) := by
      rw [BitVec.toInt_eq_toNat_of_msb (by simpa using nonneg), BitVec.toNat_setWidth]
    constructor
    · rw [holds_iff_toNat (by decide), whole]
      refine Int.ModEq.trans ?_ low
      rw [plain]
      exact Int.natCast_modEq_iff.mpr (by
        change x.toNat % 2 ^ 32 % 2 ^ 16 = x.toNat % 2 ^ 16 % 2 ^ 16
        omega)
    · intro bits wide narrow
      change 16 ≤ bits at wide
      rw [holds_iff_toNat narrow, whole, IntegerType.wrap_value (by decide), value, plain, upper,
        plain, mod_words_iff wide]
      constructor
      · exact fun small => .inr (.inr small)
      · rintro (rfl | negative | small)
        · exact Nat.mod_lt _ (by positivity)
        · omega
        · exact small

/-! ## The result -/

theorem cvt_impl_spec (fromInteger : fromType.isInteger = true)
    (toInteger : toType.isInteger = true) (sat : Bool) (x : RegValue) :
    ∃ d, cvt_impl false sat fromType toType x = some d ∧ Written fromType toType x d := by
  simp only [cvt_impl, cvtFunction_eq fromInteger toInteger, Option.bind_eq_bind, Option.bind_some]
  by_cases wider : fromType.width < toType.width
  · cases signed : fromType.signed with
    | true => exact ⟨_, by simp [wider, sext_apply], written_sext wider signed⟩
    | false => exact ⟨_, by simp [wider, CvtFunction.apply, chop_width], written_zext wider signed⟩
  · by_cases same : fromType.width = toType.width
    · exact ⟨_, by simp [same], written_same same⟩
    · by_cases exception : fromType = .S32_TYPE ∧ toType = .S16_TYPE
      · obtain ⟨rfl, rfl⟩ := exception
        exact ⟨_, sexd_apply x, written_sexd⟩
      · exact ⟨_, by simp [wider, same, exception, CvtFunction.apply, chop_width],
          written_chop (by omega) exception⟩

/-- A conversion is right where the saturation that it leaves out changes nothing and the
    upper bits are. -/
theorem convertsTo_iff (fromInteger : fromType.isInteger = true)
    (toInteger : toType.isInteger = true) (wide : toType.width ≤ bits) (narrow : bits ≤ 64)
    (sat : Bool) (x : RegValue) : ConvertsTo bits sat fromType toType x ↔
      (sat = true → fromType.value x ≡ toType.clamp (fromType.value x) [ZMOD 2 ^ toType.width]) ∧
        UpperBitsExact bits fromType toType x := by
  obtain ⟨d, written, low, exact⟩ := cvt_impl_spec fromInteger toInteger sat x
  have result : ConvertsTo bits sat fromType toType x ↔
      Holds bits d (converted sat toType (fromType.value x)) := by
    rw [ConvertsTo, written]
    simp
  have clamped := toType.clamp_bounds (fromType.value x)
  rw [result, ← exact bits wide narrow]
  cases sat with
  | false => simp [converted]
  | true =>
    rw [forall_prop_of_true rfl, converted, if_pos rfl]
    constructor
    · intro holds
      rw [holds_iff narrow] at holds
      rw [holds_iff toType.width_le] at low
      have same := low.symm.trans (holds.of_dvd (pow_dvd_pow 2 wide))
      rw [IntegerType.wrap_eq_of_modEq same clamped.1 clamped.2]
      exact ⟨same, (holds_iff narrow).mpr holds⟩
    · rintro ⟨same, holds⟩
      rwa [IntegerType.wrap_eq_of_modEq same clamped.1 clamped.2] at holds

/-- 300 is not saturated to 255, and -1 chopped to eight bits loses its sign. -/
theorem not_convertsTo : ¬ ConvertsTo 8 true .S32_TYPE .U8_TYPE 300 ∧
    ¬ ConvertsTo 32 false .S32_TYPE .S8_TYPE 0xFFFFFFFF := by
  constructor
  · rintro ⟨d, written, holds⟩
    obtain rfl := Option.some.inj written
    exact absurd holds (by unfold Holds; decide)
  · rintro ⟨d, written, holds⟩
    obtain rfl := Option.some.inj written
    exact absurd holds (by unfold Holds; decide)

theorem convertsTo_byte : ConvertsTo 64 true .S8_TYPE .S64_TYPE 0x80 :=
  (convertsTo_iff rfl rfl (by decide) (by decide) true 0x80).mpr
    ⟨fun _ => by decide, .inl rfl⟩

end

end AesOnGpu.Ptx
