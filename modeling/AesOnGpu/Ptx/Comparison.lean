import AesOnGpu.Ptx.Register

/-! # Comparisons

`CmpOp` of `instructions.cc` for the integer and the untyped types, and the
instructions `setp` and `set` that report its result.  The cases of 8 bits compare 16
bits, and the cases of the smaller untyped types run into the one of 64 bits.
-/

namespace AesOnGpu.Ptx

open RegValue

inductive CmpOption where
  | EQ_OPTION | NE_OPTION
  | LT_OPTION | LE_OPTION | GT_OPTION | GE_OPTION
  | LO_OPTION | LS_OPTION | HI_OPTION | HS_OPTION
  | EQU_OPTION | NEU_OPTION | LTU_OPTION | LEU_OPTION | GTU_OPTION | GEU_OPTION
  | NUM_OPTION | NAN_OPTION
  deriving DecidableEq

/-! ## The instructions -/

/-- The switch over the operators for one pair of members; the default asserts. -/
def bitsCase {w : Nat} (a b : BitVec w) : CmpOption → Option Bool
  | .EQ_OPTION => some (a = b)
  | .NE_OPTION => some (a ≠ b)
  | _ => none

def signedCase {w : Nat} (a b : BitVec w) : CmpOption → Option Bool
  | .EQ_OPTION => some (a = b)
  | .NE_OPTION => some (a ≠ b)
  | .LT_OPTION => some (a.slt b)
  | .LE_OPTION => some (a.sle b)
  | .GT_OPTION => some (b.slt a)
  | .GE_OPTION => some (b.sle a)
  | _ => none

def unsignedCase {w : Nat} (a b : BitVec w) : CmpOption → Option Bool
  | .EQ_OPTION => some (a = b)
  | .NE_OPTION => some (a ≠ b)
  | .LT_OPTION | .LO_OPTION => some (a.ult b)
  | .LE_OPTION | .LS_OPTION => some (a.ule b)
  | .GT_OPTION | .HI_OPTION => some (b.ult a)
  | .GE_OPTION | .HS_OPTION => some (b.ule a)
  | _ => none

/-- No `break` follows the switches of `B16_TYPE` and `B32_TYPE`. -/
def CmpOp (type : IntegerType) (a b : RegValue) (cmpop : CmpOption) : Option Bool :=
  match type with
  | .B16_TYPE => do
    let _ ← bitsCase a.u16 b.u16 cmpop
    let _ ← bitsCase a.u32 b.u32 cmpop
    bitsCase a b cmpop
  | .B32_TYPE => do
    let _ ← bitsCase a.u32 b.u32 cmpop
    bitsCase a b cmpop
  | .B64_TYPE => bitsCase a b cmpop
  | .S8_TYPE | .S16_TYPE => signedCase a.u16 b.u16 cmpop
  | .S32_TYPE => signedCase a.u32 b.u32 cmpop
  | .S64_TYPE => signedCase a b cmpop
  | .U8_TYPE | .U16_TYPE => unsignedCase a.u16 b.u16 cmpop
  | .U32_TYPE => unsignedCase a.u32 b.u32 cmpop
  | .U64_TYPE => unsignedCase a b cmpop
  | .B8_TYPE => none

/-- A set predicate stands for false. -/
def setp_impl (type : IntegerType) (cmpop : CmpOption) (a b : RegValue) : Option RegValue :=
  (CmpOp type a b cmpop).map fun t => if t then 0 else 1

/-- `my_abs` of a member; the default asserts. -/
def absOf (src_type : IntegerType) (a : RegValue) : Option RegValue :=
  match src_type with
  | .S16_TYPE => some (if a.u16.msb then a.store (-a.u16) else a)
  | .S32_TYPE => some (if a.u32.msb then a.store (-a.u32) else a)
  | .S64_TYPE => some (if a.msb then -a else a)
  | .U16_TYPE | .U32_TYPE | .U64_TYPE => some a
  | _ => none

/-- What `set` writes, to a destination of a floating type or another one. -/
def setData (isFloat : Bool) (t : Bool) : RegValue :=
  if t then (if isFloat then 0x3F800000 else 0xFFFFFFFF) else 0

def set_impl (is_abs isFloat : Bool) (src_type : IntegerType) (cmpop : CmpOption)
    (a b : RegValue) : Option RegValue := do
  let a ← if is_abs then absOf src_type a else some a
  let t ← CmpOp src_type a b cmpop
  some (setData isFloat t)

/-! ## Comparisons of values -/

namespace CmpOption

/-- The comparison that an operator stands for; the ones of floating types have none
    here. -/
def holds (cmpop : CmpOption) (x y : Int) : Bool :=
  match cmpop with
  | EQ_OPTION => x = y
  | NE_OPTION => x ≠ y
  | LT_OPTION | LO_OPTION => x < y
  | LE_OPTION | LS_OPTION => x ≤ y
  | GT_OPTION | HI_OPTION => y < x
  | GE_OPTION | HS_OPTION => y ≤ x
  | _ => false

def isEquality (cmpop : CmpOption) : Prop := cmpop = EQ_OPTION ∨ cmpop = NE_OPTION

def isOrder (cmpop : CmpOption) : Prop :=
  cmpop = LT_OPTION ∨ cmpop = LE_OPTION ∨ cmpop = GT_OPTION ∨ cmpop = GE_OPTION

def isUnsignedOrder (cmpop : CmpOption) : Prop :=
  cmpop = LO_OPTION ∨ cmpop = LS_OPTION ∨ cmpop = HI_OPTION ∨ cmpop = HS_OPTION

def Allowed (type : IntegerType) (cmpop : CmpOption) : Prop :=
  match type with
  | .B8_TYPE | .B16_TYPE | .B32_TYPE | .B64_TYPE => cmpop.isEquality
  | .S8_TYPE | .S16_TYPE | .S32_TYPE | .S64_TYPE => cmpop.isEquality ∨ cmpop.isOrder
  | .U8_TYPE | .U16_TYPE | .U32_TYPE | .U64_TYPE =>
    cmpop.isEquality ∨ cmpop.isOrder ∨ cmpop.isUnsignedOrder

end CmpOption

structure ComparesValues (type : IntegerType) (cmpop : CmpOption) (a b : RegValue) : Prop where
  cmpOp : CmpOp type a b cmpop = some (cmpop.holds (type.value a) (type.value b))
  setp : setp_impl type cmpop a b =
    some (if cmpop.holds (type.value a) (type.value b) then 0 else 1)
  set : ∀ isFloat, set_impl false isFloat type cmpop a b =
    some (setData isFloat (cmpop.holds (type.value a) (type.value b)))

/-- Bits 8 to 15 do not change a comparison of 8 bits.  They are what is compared first,
    and after them the lower bits without their sign. -/
def UpperByteHarmless (type : IntegerType) (cmpop : CmpOption) (a b : RegValue) : Prop :=
  if type.value (a >>> 8) = type.value (b >>> 8) then
    type.signed → cmpop.isEquality ∨ a.getLsbD 7 = b.getLsbD 7
  else cmpop.holds (type.value (a >>> 8)) (type.value (b >>> 8)) =
    cmpop.holds (type.value a) (type.value b)

/-- Nothing but the value decides. -/
def OnlyValuesCount (type : IntegerType) (cmpop : CmpOption) (a b : RegValue) : Prop :=
  match type with
  | .B8_TYPE => False
  | .B16_TYPE => a.u16 = b.u16 → a = b
  | .B32_TYPE => a.u32 = b.u32 → a = b
  | .S8_TYPE | .U8_TYPE => UpperByteHarmless type cmpop a b
  | _ => True

section

variable {type : IntegerType} {cmpop : CmpOption} {a b : RegValue} {w : Nat}

theorem comparesValues_iff : ComparesValues type cmpop a b ↔
    CmpOp type a b cmpop = some (cmpop.holds (type.value a) (type.value b)) := by
  constructor
  · exact fun compares => compares.cmpOp
  · intro cmpOp
    constructor
    · exact cmpOp
    · rw [setp_impl, cmpOp]
      rfl
    · intro isFloat
      simp [set_impl, cmpOp]

theorem bitsCase_spec {x y : BitVec w} (allowed : cmpop.isEquality) :
    bitsCase x y cmpop = some (cmpop.holds x.toNat y.toNat) := by
  rcases allowed with rfl | rfl <;> simp [bitsCase, CmpOption.holds, ← BitVec.toNat_inj]

theorem signedCase_spec {x y : BitVec w} (allowed : cmpop.isEquality ∨ cmpop.isOrder) :
    signedCase x y cmpop = some (cmpop.holds x.toInt y.toInt) := by
  rcases allowed with (rfl | rfl) | rfl | rfl | rfl | rfl <;>
    simp [signedCase, CmpOption.holds, BitVec.slt, BitVec.sle, ← BitVec.toInt_inj]

theorem unsignedCase_spec {x y : BitVec w}
    (allowed : cmpop.isEquality ∨ cmpop.isOrder ∨ cmpop.isUnsignedOrder) :
    unsignedCase x y cmpop = some (cmpop.holds x.toNat y.toNat) := by
  rcases allowed with (rfl | rfl) | (rfl | rfl | rfl | rfl) | rfl | rfl | rfl | rfl <;>
    simp [unsignedCase, CmpOption.holds, BitVec.ult, BitVec.ule, ← BitVec.toNat_inj]

theorem holds_of_equality {x y : BitVec w} (allowed : cmpop.isEquality) :
    cmpop.holds a.toNat b.toNat = cmpop.holds x.toNat y.toNat ↔ (x = y ↔ a = b) := by
  rcases allowed with rfl | rfl <;>
    simp [CmpOption.holds, BitVec.toNat_inj, decide_eq_decide, iff_comm]

/-! ## Two bytes -/

theorem holds_split (cmpop : CmpOption) {upperA upperB lowerA lowerB : Int}
    (boundsA : 0 ≤ lowerA ∧ lowerA < 256) (boundsB : 0 ≤ lowerB ∧ lowerB < 256) :
    cmpop.holds (256 * upperA + lowerA) (256 * upperB + lowerB) =
      if upperA = upperB then cmpop.holds lowerA lowerB else cmpop.holds upperA upperB := by
  split <;> cases cmpop <;> simp only [CmpOption.holds, decide_eq_decide] <;> omega

theorem unsigned_bytes (x : RegValue) : (x.u16.toNat : Int) =
    (256 : Int) * IntegerType.U8_TYPE.value (x >>> 8) + IntegerType.U8_TYPE.value x := by
  change ((x.setWidth 16).toNat : Int) = 256 * ((x >>> 8).setWidth 8).toNat + (x.setWidth 8).toNat
  simp only [BitVec.toNat_setWidth, BitVec.toNat_ushiftRight, Nat.shiftRight_eq_div_pow]
  omega

theorem signed_bytes (x : RegValue) : x.u16.toInt =
    (256 : Int) * IntegerType.S8_TYPE.value (x >>> 8) + IntegerType.U8_TYPE.value x := by
  change (x.setWidth 16).toInt = 256 * ((x >>> 8).setWidth 8).toInt + (x.setWidth 8).toNat
  simp only [BitVec.toInt_eq_toNat_cond, BitVec.toNat_setWidth, BitVec.toNat_ushiftRight,
    Nat.shiftRight_eq_div_pow]
  omega

theorem signed_byte (x : RegValue) : IntegerType.S8_TYPE.value x =
    IntegerType.U8_TYPE.value x - if x.getLsbD 7 then 256 else 0 := by
  change (x.setWidth 8).toInt = (x.setWidth 8).toNat - _
  simp only [BitVec.toInt_eq_toNat_cond, BitVec.toNat_setWidth, BitVec.getLsbD,
    Nat.testBit_eq_decide_div_mod_eq, decide_eq_true_eq]
  split <;> split <;> omega

theorem byte_bounds (x : RegValue) :
    0 ≤ IntegerType.U8_TYPE.value x ∧ IntegerType.U8_TYPE.value x < 256 :=
  IntegerType.U8_TYPE.value_bounds x

theorem holds_without_sign (allowed : cmpop.isEquality ∨ cmpop.isOrder) :
    cmpop.holds (IntegerType.U8_TYPE.value a) (IntegerType.U8_TYPE.value b) =
        cmpop.holds (IntegerType.S8_TYPE.value a) (IntegerType.S8_TYPE.value b) ↔
      cmpop.isEquality ∨ a.getLsbD 7 = b.getLsbD 7 := by
  have boundsA := byte_bounds a
  have boundsB := byte_bounds b
  have signA := IntegerType.S8_TYPE.value_bounds a
  have signB := IntegerType.S8_TYPE.value_bounds b
  change -128 ≤ _ ∧ _ < (128 : Int) at signA signB
  rw [signed_byte] at signA signB
  rw [signed_byte a, signed_byte b]
  cases bitA : a.getLsbD 7 <;> cases bitB : b.getLsbD 7 <;>
    simp only [bitA, bitB, Bool.false_eq_true, if_true, if_false] at signA signB ⊢ <;>
    rcases allowed with (rfl | rfl) | rfl | rfl | rfl | rfl <;>
    simp [CmpOption.isEquality, CmpOption.holds] <;> omega

/-! ## The result -/

theorem cmpOp_signed8 (allowed : cmpop.isEquality ∨ cmpop.isOrder) :
    CmpOp .S8_TYPE a b cmpop =
        some (cmpop.holds (IntegerType.S8_TYPE.value a) (IntegerType.S8_TYPE.value b)) ↔
      UpperByteHarmless .S8_TYPE cmpop a b := by
  rw [CmpOp, signedCase_spec allowed, signed_bytes, signed_bytes,
    holds_split cmpop (byte_bounds a) (byte_bounds b), Option.some_inj, UpperByteHarmless]
  split
  · exact (holds_without_sign allowed).trans ⟨fun harmless _ => harmless, fun harmless => harmless rfl⟩
  · exact Iff.rfl

theorem cmpOp_unsigned8
    (allowed : cmpop.isEquality ∨ cmpop.isOrder ∨ cmpop.isUnsignedOrder) :
    CmpOp .U8_TYPE a b cmpop =
        some (cmpop.holds (IntegerType.U8_TYPE.value a) (IntegerType.U8_TYPE.value b)) ↔
      UpperByteHarmless .U8_TYPE cmpop a b := by
  rw [CmpOp, unsignedCase_spec allowed, unsigned_bytes, unsigned_bytes,
    holds_split cmpop (byte_bounds a) (byte_bounds b), Option.some_inj, UpperByteHarmless]
  split
  · exact iff_of_true rfl fun signed => absurd signed (by decide)
  · exact Iff.rfl

theorem cmpOp_bits16 (allowed : cmpop.isEquality) : CmpOp .B16_TYPE a b cmpop =
      some (cmpop.holds (IntegerType.B16_TYPE.value a) (IntegerType.B16_TYPE.value b)) ↔
    (a.u16 = b.u16 → a = b) := by
  rw [CmpOp, bitsCase_spec allowed, bitsCase_spec allowed, bitsCase_spec allowed]
  refine (Option.some_inj.trans (holds_of_equality (x := a.u16) (y := b.u16) allowed)).trans ?_
  exact ⟨fun same => same.mp, fun same => ⟨same, congrArg u16⟩⟩

theorem cmpOp_bits32 (allowed : cmpop.isEquality) : CmpOp .B32_TYPE a b cmpop =
      some (cmpop.holds (IntegerType.B32_TYPE.value a) (IntegerType.B32_TYPE.value b)) ↔
    (a.u32 = b.u32 → a = b) := by
  rw [CmpOp, bitsCase_spec allowed, bitsCase_spec allowed]
  refine (Option.some_inj.trans (holds_of_equality (x := a.u32) (y := b.u32) allowed)).trans ?_
  exact ⟨fun same => same.mp, fun same => ⟨same, congrArg u32⟩⟩

/-- A comparison is the one of the values unless bits above them count. -/
theorem comparesValues_iff_onlyValuesCount (allowed : cmpop.Allowed type) :
    ComparesValues type cmpop a b ↔ OnlyValuesCount type cmpop a b := by
  rw [comparesValues_iff]
  cases type with
  | B8_TYPE => exact iff_of_false (by simp [CmpOp]) id
  | B16_TYPE => exact cmpOp_bits16 allowed
  | B32_TYPE => exact cmpOp_bits32 allowed
  | B64_TYPE => exact iff_of_true (bitsCase_spec allowed) trivial
  | S8_TYPE => exact cmpOp_signed8 allowed
  | U8_TYPE => exact cmpOp_unsigned8 allowed
  | S16_TYPE | S32_TYPE | S64_TYPE => exact iff_of_true (signedCase_spec allowed) trivial
  | U16_TYPE | U32_TYPE | U64_TYPE => exact iff_of_true (unsignedCase_spec allowed) trivial

/-- The same byte in registers that differ above it. -/
theorem not_comparesValues : ¬ ComparesValues .U8_TYPE .EQ_OPTION 0x105 0x005 := by
  intro compares
  exact absurd compares.cmpOp (by decide)

theorem comparesValues_minus_one : ComparesValues .S32_TYPE .LT_OPTION 0xFFFFFFFF 1 := by
  have allowed : CmpOption.LT_OPTION.Allowed .S32_TYPE := Or.inr (Or.inl rfl)
  exact (comparesValues_iff_onlyValuesCount allowed).mpr trivial

end

end AesOnGpu.Ptx
