import AesOnGpu.Ptx.Register

/-! # Division and remainder

`div_impl` of `instructions.cc` divides the members of the registers that belong to
the type.  `rem_impl` takes the remainder of the unsigned images of 64 bits at every
type.
-/

namespace AesOnGpu.Ptx

open RegValue

/-! ## The instructions -/

/-- Division of two members; a division by zero has no result. -/
def signedQuotient {w : Nat} (x y : BitVec w) : Option RegValue :=
  if y = 0 then none else some (fresh (x.sdiv y))

def unsignedQuotient {w : Nat} (x y : BitVec w) : Option RegValue :=
  if y = 0 then none else some (fresh (x / y))

def div_impl (type : IntegerType) (src1 src2 : RegValue) : Option RegValue :=
  match type with
  | .S8_TYPE => signedQuotient src1.u8 src2.u8
  | .S16_TYPE => signedQuotient src1.u16 src2.u16
  | .S32_TYPE => signedQuotient src1.u32 src2.u32
  | .S64_TYPE => signedQuotient src1 src2
  | .U8_TYPE => unsignedQuotient src1.u8 src2.u8
  | .U16_TYPE => unsignedQuotient src1.u16 src2.u16
  | .U32_TYPE => unsignedQuotient src1.u32 src2.u32
  | .U64_TYPE => unsignedQuotient src1 src2
  | .B8_TYPE => unsignedQuotient src1.u8 src2.u8
  | .B16_TYPE => unsignedQuotient src1.u16 src2.u16
  | .B32_TYPE => unsignedQuotient src1.u32 src2.u32
  | .B64_TYPE => unsignedQuotient src1 src2

def rem_impl (src1 src2 : RegValue) : Option RegValue :=
  if src2 = 0 then none else some (src1 % src2)

/-! ## What belongs together -/

/-- The most negative value divided by -1. -/
def QuotientOverflows (type : IntegerType) (a b : RegValue) : Prop :=
  type.signed ∧ type.value a = type.least ∧ type.value b = -1

/-- A quotient and a remainder of `a` and `b`. -/
structure QuotientRemainder (type : IntegerType) (a b q r : RegValue) : Prop where
  sum : type.value a ≡ type.value q * type.value b + type.value r [ZMOD 2 ^ type.width]
  small : |type.value r| < |type.value b|
  sign : type.value r = 0 ∨ (type.value r).sign = (type.value a).sign

def DivRemAgree (type : IntegerType) (a b : RegValue) : Prop :=
  ∃ q r, div_impl type a b = some q ∧ rem_impl a b = some r ∧ QuotientRemainder type a b q r

/-- The quotient of the whole registers leaves the same remainder as the one of the
    values, as far as the type can see. -/
def WholeQuotientFits (type : IntegerType) (a b : RegValue) : Prop :=
  2 ^ type.width ∣
    ((a.toNat / b.toNat : Nat) - (type.value a).tdiv (type.value b)) * type.value b

/-! ## The quotient -/

section

variable {type : IntegerType} {a b q r : RegValue} {w : Nat}

theorem signedQuotient_spec {x y : BitVec w} (positive : 0 < w) (nonzero : y.toInt ≠ 0)
    (fits : ¬ (x.toInt = -2 ^ (w - 1) ∧ y.toInt = -1)) :
    signedQuotient x y = some (fresh (x.sdiv y)) ∧ (x.sdiv y).toInt = x.toInt.tdiv y.toInt := by
  have divisor : y ≠ 0 := by
    rintro rfl
    exact nonzero BitVec.toInt_zero
  refine ⟨if_neg divisor, BitVec.toInt_sdiv_of_ne_or_ne x y ?_⟩
  by_contra! both
  obtain ⟨rfl, rfl⟩ := both
  have allOnes : (-1#w).toInt = -1 := by
    rw [BitVec.neg_one_eq_allOnes, BitVec.toInt_allOnes, if_pos positive]
  exact fits ⟨BitVec.toInt_intMin_of_pos positive, allOnes⟩

theorem unsignedQuotient_spec {x y : BitVec w} (nonzero : (y.toNat : Int) ≠ 0) :
    unsignedQuotient x y = some (fresh (x / y)) ∧
      ((x / y).toNat : Int) = (x.toNat : Int).tdiv y.toNat := by
  have divisor : y ≠ 0 := by
    rintro rfl
    exact nonzero (by simp)
  refine ⟨if_neg divisor, ?_⟩
  rw [BitVec.toNat_udiv]
  rfl

theorem div_impl_eq (type : IntegerType) (a b : RegValue) : div_impl type a b =
    if type.signed then signedQuotient (a.setWidth type.width) (b.setWidth type.width)
    else unsignedQuotient (a.setWidth type.width) (b.setWidth type.width) := by
  cases type with
  | S64_TYPE | U64_TYPE | B64_TYPE =>
    simp [div_impl, IntegerType.signed, IntegerType.width]
  | S8_TYPE | S16_TYPE | S32_TYPE | U8_TYPE | U16_TYPE | U32_TYPE | B8_TYPE | B16_TYPE | B32_TYPE =>
    rfl

theorem div_impl_spec (nonzero : type.value b ≠ 0) (fits : ¬ QuotientOverflows type a b) :
    ∃ q, div_impl type a b = some q ∧
      type.value q = (type.value a).tdiv (type.value b) := by
  rw [div_impl_eq]
  cases signed : type.signed with
  | true =>
    rw [IntegerType.value_of_signed signed] at nonzero
    have inside : ¬ ((a.setWidth type.width).toInt = -2 ^ (type.width - 1) ∧
        (b.setWidth type.width).toInt = -1) := by
      simpa [QuotientOverflows, IntegerType.value_of_signed signed, IntegerType.least, signed]
        using fits
    obtain ⟨divided, exact⟩ := signedQuotient_spec type.width_pos nonzero inside
    refine ⟨_, divided, ?_⟩
    rw [IntegerType.value_of_signed signed, IntegerType.value_of_signed signed,
      IntegerType.value_of_signed signed, setWidth_fresh _ type.width_le, BitVec.setWidth_eq, exact]
  | false =>
    rw [IntegerType.value_of_unsigned signed] at nonzero
    obtain ⟨divided, exact⟩ := unsignedQuotient_spec (x := a.setWidth type.width) nonzero
    refine ⟨_, divided, ?_⟩
    rw [IntegerType.value_of_unsigned signed, IntegerType.value_of_unsigned signed,
      IntegerType.value_of_unsigned signed, setWidth_fresh _ type.width_le, BitVec.setWidth_eq, exact]

/-! ## The remainder -/

theorem rem_impl_spec (nonzero : type.value b ≠ 0) :
    ∃ r, rem_impl a b = some r ∧ type.value r ≡
      type.value a - (a.toNat / b.toNat : Nat) * type.value b [ZMOD 2 ^ type.width] := by
  have divisor : b ≠ 0 := by
    rintro rfl
    refine nonzero (type.value_eq_of_modEq (type.value_modEq 0) ?_ ?_)
    · cases type <;> decide
    · cases type <;> decide
  refine ⟨_, if_neg divisor, (type.value_modEq _).trans ?_⟩
  have whole : ((a % b).toNat : Int) = a.toNat - (a.toNat / b.toNat : Nat) * b.toNat := by
    rw [BitVec.toNat_umod, Nat.mod_eq_sub_div_mul, Nat.cast_sub (Nat.div_mul_le_self _ _)]
    push_cast
    ring
  rw [whole]
  exact (type.value_modEq a).symm.sub ((type.value_modEq b).symm.mul_left _)

/-! ## Together -/

theorem tmod_between (x y : Int) : min x 0 ≤ x.tmod y ∧ x.tmod y ≤ max x 0 := by
  have magnitude : (x.tmod y).natAbs ≤ x.natAbs := by
    rw [Int.natAbs_tmod]
    exact Nat.mod_le _ _
  rcases Int.le_total 0 x with nonneg | nonpos
  · have := Int.tmod_nonneg y nonneg
    omega
  · have := Int.tmod_nonneg y (Int.neg_nonneg_of_nonpos nonpos)
    rw [Int.neg_tmod] at this
    omega

theorem tmod_small {x y : Int} (nonzero : y ≠ 0) : |x.tmod y| < |y| := by
  rw [Int.abs_eq_natAbs, Int.abs_eq_natAbs, Int.natAbs_tmod]
  exact_mod_cast Nat.mod_lt _ (Int.natAbs_pos.mpr nonzero)

theorem tmod_sign (x y : Int) : x.tmod y = 0 ∨ (x.tmod y).sign = x.sign := by
  have sign := Int.sign_tmod x y
  split at sign
  · exact .inl (Int.sign_eq_zero_iff_zero.mp sign)
  · exact .inr sign

theorem value_eq_tmod
    (same : type.value r ≡ (type.value a).tmod (type.value b) [ZMOD 2 ^ type.width]) :
    type.value r = (type.value a).tmod (type.value b) := by
  have between := tmod_between (type.value a) (type.value b)
  have bounds := type.value_bounds a
  have zero : type.least ≤ 0 ∧ 0 < type.least + 2 ^ type.width := by
    cases type <;> decide
  exact type.value_eq_of_modEq same (by omega) (by omega)

/-- Division and remainder belong together exactly when the quotient of the whole
    registers does as well as the one of the values. -/
theorem divRemAgree_iff (nonzero : type.value b ≠ 0) (fits : ¬ QuotientOverflows type a b) :
    DivRemAgree type a b ↔ WholeQuotientFits type a b := by
  obtain ⟨q, divided, quotient⟩ := div_impl_spec nonzero fits
  obtain ⟨r, taken, remainder⟩ := rem_impl_spec (a := a) nonzero
  have exact := Int.tdiv_mul_add_tmod (type.value a) (type.value b)
  have gap : type.value a - (a.toNat / b.toNat : Nat) * type.value b +
      ((a.toNat / b.toNat : Nat) - (type.value a).tdiv (type.value b)) * type.value b =
        (type.value a).tmod (type.value b) := by
    linear_combination -exact
  constructor
  · rintro ⟨q', r', divided', taken', both⟩
    obtain rfl := Option.some.inj (divided.symm.trans divided')
    obtain rfl := Option.some.inj (taken.symm.trans taken')
    have sum := both.sum.trans (remainder.add_left _)
    rw [quotient] at sum
    have divides := sum.symm.dvd
    have difference : type.value a - ((type.value a).tdiv (type.value b) * type.value b +
        (type.value a - (a.toNat / b.toNat : Nat) * type.value b)) =
          ((a.toNat / b.toNat : Nat) - (type.value a).tdiv (type.value b)) * type.value b := by
      ring
    rwa [difference] at divides
  · intro whole
    have same : type.value r ≡ (type.value a).tmod (type.value b) [ZMOD 2 ^ type.width] := by
      refine remainder.trans ?_
      rw [← gap, Int.modEq_iff_dvd, add_sub_cancel_left]
      exact whole
    have value := value_eq_tmod same
    refine ⟨q, r, divided, taken, ?_, ?_, ?_⟩
    · rw [quotient, value, exact]
    · rw [value]
      exact tmod_small nonzero
    · rw [value]
      exact tmod_sign _ _

end

/-- -7 by 2: the remainder of the whole registers is 1. -/
theorem divRem_disagree : ¬ DivRemAgree .S32_TYPE 0xFFFFFFF9 2 := by
  rintro ⟨q, r, divided, taken, both⟩
  obtain rfl := Option.some.inj divided
  obtain rfl := Option.some.inj taken
  exact absurd both.sign (by decide)

theorem divRemAgree_iff_seven : DivRemAgree .U32_TYPE 7 2 ↔ WholeQuotientFits .U32_TYPE 7 2 :=
  divRemAgree_iff (by decide) fun overflows => absurd overflows.1 (by decide)

end AesOnGpu.Ptx
