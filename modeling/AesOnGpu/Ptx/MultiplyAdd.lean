import AesOnGpu.Ptx.Register

/-! # Multiplications with and without an addition

The integer types of `mul_impl`, `mul24_impl`, `mad_def` and `mad24_impl` of
`instructions.cc`.  The instructions with an addition repeat the multiplication,
in fewer bits, and two of them add before they take the upper half.

Signed arithmetic wraps around.
-/

namespace AesOnGpu.Ptx

open RegValue

/-- `is_wide`, `is_hi` and `is_lo`, of which an instruction has one. -/
inductive MulMode where
  | wide
  | hi
  | lo
  deriving DecidableEq

/-! ## The instructions -/

def mul_impl (type : IntegerType) (mode : MulMode) (a b : RegValue) : Option RegValue :=
  match type with
  | .S16_TYPE =>
    let t := a.u16.signExtend 32 * b.u16.signExtend 32
    match mode with
    | .wide => some (fresh t)
    | .hi => some (fresh ((t.sshiftRight 16).setWidth 16))
    | .lo => some (fresh (t.setWidth 16))
  | .S32_TYPE =>
    let t := a.u32.signExtend 64 * b.u32.signExtend 64
    match mode with
    | .wide => some (fresh t)
    | .hi => some (fresh ((t.sshiftRight 32).setWidth 32))
    | .lo => some (fresh (t.setWidth 32))
  | .S64_TYPE | .U64_TYPE =>
    match mode with
    | .wide | .hi => none
    | .lo => some (a * b)
  | .U16_TYPE =>
    let t := a.u16.setWidth 32 * b.u16.setWidth 32
    match mode with
    | .wide => some (fresh t)
    | .lo => some (fresh (t.setWidth 16))
    | .hi => some (fresh ((t >>> 16).setWidth 16))
  | .U32_TYPE =>
    let t := a.u32.setWidth 64 * b.u32.setWidth 64
    match mode with
    | .wide => some (fresh t)
    | .lo => some (fresh (t.setWidth 32))
    | .hi => some (fresh ((t >>> 32).setWidth 32))
  | _ => none

/-- `carry` is the carry flag of the fourth operand of `madp`; `mad` has none. -/
def carry_bit (carry : Option Bool) (w : Nat) : BitVec w :=
  (BitVec.ofBool (carry.getD false)).setWidth w

/-- The operands `a` and `b` are not extended before they are multiplied. -/
def mad_def (carry : Option Bool) (type : IntegerType) (mode : MulMode) (a b c : RegValue) :
    Option Sum :=
  match type with
  | .S16_TYPE =>
    let t := a.u16.signExtend 32 * b.u16.signExtend 32
    let d := match mode with
      | .wide => fresh (t + c.u32 + carry_bit carry 32)
      | .hi => fresh ((t.sshiftRight 16 + c.u16.signExtend 32 + carry_bit carry 32).setWidth 16)
      | .lo => fresh
        (((t.setWidth 16).signExtend 32 + c.u16.signExtend 32 + carry_bit carry 32).setWidth 16)
    let sum := (t + c.u32 + carry_bit carry 32).signExtend 64
    some { data := d, overflow := 0, carry := (sum &&& 0x100000000) >>> 32 }
  | .S32_TYPE =>
    let t := (a.u32 * b.u32).signExtend 64
    let d := match mode with
      | .wide => t + c + carry_bit carry 64
      | .hi => fresh ((t.sshiftRight 32 + c.u32.signExtend 64 + carry_bit carry 64).setWidth 32)
      | .lo => fresh (t.setWidth 32 + c.u32 + carry_bit carry 32)
    some { data := d, overflow := 0, carry := 0 }
  | .S64_TYPE | .U64_TYPE =>
    match mode, carry with
    | .lo, none => some { data := a * b + c + carry_bit carry 64, overflow := 0, carry := 0 }
    | _, _ => none
  | .U16_TYPE =>
    let t := a.u16.setWidth 32 * b.u16.setWidth 32
    let d := match mode with
      | .wide => fresh (t + c.u32 + carry_bit carry 32)
      | .hi => fresh (((t + c.u16.setWidth 32 + carry_bit carry 32) >>> 16).setWidth 16)
      | .lo => fresh
        (((t.setWidth 16).setWidth 32 + c.u16.setWidth 32 + carry_bit carry 32).setWidth 16)
    let sum := t.setWidth 64 + c.u32.setWidth 64 + carry_bit carry 64
    some { data := d, overflow := 0, carry := (sum &&& 0x100000000) >>> 32 }
  | .U32_TYPE =>
    let t := (a.u32 * b.u32).setWidth 64
    let d := match mode with
      | .wide => t + c + carry_bit carry 64
      | .hi => fresh (((t + c.u32.setWidth 64 + carry_bit carry 64) >>> 32).setWidth 32)
      | .lo => fresh (t.setWidth 32 + c.u32 + carry_bit carry 32)
    some { data := d, overflow := 0, carry := 0 }
  | _ => none

def mad_impl := mad_def none

def madp_impl (flag : Bool) := mad_def (some flag)

/-- The lower 24 bits; a signed operand gets its sign from bit 23. -/
def operand24 (type : IntegerType) (x : RegValue) : RegValue :=
  let masked := x &&& 0x00FFFFFF
  if type = .S32_TYPE ∧ masked.getLsbD 23 then masked ||| 0xFFFFFFFFFF000000 else masked

def mul24_impl (type : IntegerType) (mode : MulMode) (a b : RegValue) : Option RegValue :=
  match type with
  | .S32_TYPE | .U32_TYPE =>
    let data := operand24 type a * operand24 type b
    match mode with
    | .hi => some ((data >>> 16) &&& 0xFFFFFFFF)
    | .lo => some (data &&& 0xFFFFFFFF)
    | .wide => some data
  | _ => none

/-- Saturation at the bounds of 32 bits. -/
def clamp32 (d : RegValue) : RegValue :=
  if (0x7FFFFFFF#64).slt d then 0x7FFFFFFF
  else if d.slt 0xFFFFFFFF80000000 then 0xFFFFFFFF80000000 else d

def mad24_impl (sat : Bool) (type : IntegerType) (mode : MulMode) (a b c : RegValue) :
    Option RegValue :=
  match type, mode with
  | .S32_TYPE, .hi =>
    let t := (a.u32 * b.u32).signExtend 64
    let d := t.sshiftRight 16 + c.u32.signExtend 64
    some (if sat then clamp32 d else d)
  | .S32_TYPE, .lo =>
    let t := (a.u32 * b.u32).signExtend 64
    some ((t.setWidth 32 + c.u32).signExtend 64)
  | .U32_TYPE, .hi =>
    let t := (a.u32 * b.u32).setWidth 64
    some ((t >>> 16) + c.u32.setWidth 64)
  | .U32_TYPE, .lo =>
    let t := (a.u32 * b.u32).setWidth 64
    some (fresh (t.setWidth 32 + c.u32))
  | _, _ => none

/-! ## What an addition after the multiplication gives -/

/-- The number of bits of the destination. -/
def destinationWidth (type : IntegerType) : MulMode → Nat
  | .wide => 2 * type.width
  | .hi | .lo => type.width

/-- The second instruction gives what the first one gives, and `c`, in `w` bits. -/
def AddsTo (w : Nat) (c : RegValue) (product sum : Option RegValue) : Prop :=
  sum.map (BitVec.setWidth w) = product.map fun d => d.setWidth w + c.setWidth w

/-! ## When `mad` adds to `mul` -/

def product (type : IntegerType) (a b : RegValue) : Int := type.value a * type.value b

/-- Where the product is taken in too few bits, it fits into them.  Where `c` is added
    before the shift, the carry out of the lower half is what `c` would have added to
    the upper half. -/
def MadExact (type : IntegerType) (mode : MulMode) (a b c : RegValue) : Prop :=
  match type, mode with
  | .S32_TYPE, .wide | .S32_TYPE, .hi =>
    -2 ^ 31 ≤ product type a b ∧ product type a b < 2 ^ 31
  | .U32_TYPE, .wide => product type a b < 2 ^ 32
  | .U16_TYPE, .hi =>
    type.value c = (product type a b % 2 ^ 16 + type.value c) / 2 ^ 16
  | .U32_TYPE, .hi =>
    (product type a b / 2 ^ 32 + type.value c) % 2 ^ 32 =
      (product type a b % 2 ^ 32 + type.value c) / 2 ^ 32
  | _, _ => True

section

variable {x y : BitVec 32}

theorem signed_product_wide : (x.signExtend 64 * y.signExtend 64).toInt = x.toInt * y.toInt := by
  have bounds := abs_le.mp (Words.toInt_mul_bounds x y)
  rw [BitVec.toInt_mul, BitVec.toInt_signExtend_of_le (by omega),
    BitVec.toInt_signExtend_of_le (by omega)]
  exact Int.bmod_eq_of_le (by omega) (by omega)

theorem signed_product_narrow :
    ((x * y).signExtend 64).toInt = (x.toInt * y.toInt).bmod (2 ^ 32) := by
  rw [BitVec.toInt_signExtend_of_le (by omega), BitVec.toInt_mul]

theorem signed_product_eq_iff : (x * y).signExtend 64 = x.signExtend 64 * y.signExtend 64 ↔
    -2 ^ 31 ≤ x.toInt * y.toInt ∧ x.toInt * y.toInt < 2 ^ 31 := by
  rw [← BitVec.toInt_inj, signed_product_wide, signed_product_narrow]
  constructor
  · intro same
    have below := Int.bmod_lt (x := x.toInt * y.toInt) (m := 2 ^ 32) (by omega)
    have above := Int.le_bmod (x := x.toInt * y.toInt) (m := 2 ^ 32) (by omega)
    omega
  · intro fits
    exact Int.bmod_eq_of_le (by omega) (by omega)

theorem unsigned_product_wide : (x.setWidth 64 * y.setWidth 64).toNat = x.toNat * y.toNat := by
  have small : x.toNat * y.toNat < 2 ^ 32 * 2 ^ 32 := Nat.mul_lt_mul'' x.isLt y.isLt
  rw [BitVec.toNat_mul, BitVec.toNat_setWidth_of_le (by omega),
    BitVec.toNat_setWidth_of_le (by omega), Nat.mod_eq_of_lt (by omega)]

theorem unsigned_product_narrow :
    ((x * y).setWidth 64).toNat = x.toNat * y.toNat % 2 ^ 32 := by
  rw [BitVec.toNat_setWidth_of_le (by omega), BitVec.toNat_mul]

theorem unsigned_product_eq_iff : (x * y).setWidth 64 = x.setWidth 64 * y.setWidth 64 ↔
    x.toNat * y.toNat < 2 ^ 32 := by
  rw [← BitVec.toNat_inj, unsigned_product_wide, unsigned_product_narrow]
  have below := Nat.mod_lt (x.toNat * y.toNat) (Nat.two_pow_pos 32)
  constructor
  · intro same
    omega
  · intro fits
    exact Nat.mod_eq_of_lt fits

end

section

variable {w : Nat} {a b c d sum : RegValue}

@[simp]
theorem carry_bit_none (w : Nat) : carry_bit none w = 0 := by
  simp [carry_bit]

theorem addsTo_some : AddsTo w c (some d) (some sum) ↔
    sum.setWidth w = d.setWidth w + c.setWidth w := by
  simp [AddsTo]

theorem setWidth_add_signExtend {m n : Nat} (narrow : m ≤ n) (x : BitVec n) (y : BitVec m) :
    (x + y.signExtend n).setWidth m = x.setWidth m + y := by
  rw [BitVec.setWidth_add _ _ narrow, Words.setWidth_signExtend narrow]

theorem setWidth_add_setWidth {m n : Nat} (narrow : m ≤ n) (x : BitVec n) (y : BitVec m) :
    (x + y.setWidth n).setWidth m = x.setWidth m + y := by
  rw [BitVec.setWidth_add _ _ narrow, BitVec.setWidth_setWidth_of_le _ narrow, BitVec.setWidth_eq]

theorem mad_signed16 (mode : MulMode) :
    AddsTo (destinationWidth .S16_TYPE mode) c (mul_impl .S16_TYPE mode a b)
      ((mad_impl .S16_TYPE mode a b c).map Sum.data) := by
  cases mode with
  | wide => simp [mul_impl, mad_impl, mad_def, addsTo_some, destinationWidth, IntegerType.width, u32]
  | hi =>
    simp [mul_impl, mad_impl, mad_def, addsTo_some, destinationWidth, IntegerType.width, u16,
      setWidth_add_signExtend]
  | lo =>
    simp [mul_impl, mad_impl, mad_def, addsTo_some, destinationWidth, IntegerType.width, u16,
      setWidth_add_signExtend, Words.setWidth_signExtend]

theorem mad_signed32 (mode : MulMode) :
    AddsTo (destinationWidth .S32_TYPE mode) c (mul_impl .S32_TYPE mode a b)
      ((mad_impl .S32_TYPE mode a b c).map Sum.data) ↔ MadExact .S32_TYPE mode a b c := by
  have low : ((a.u32 * b.u32).signExtend 64).toInt ≡
      (a.u32.signExtend 64 * b.u32.signExtend 64).toInt [ZMOD 2 ^ 32] := by
    rw [signed_product_narrow, signed_product_wide]
    exact Int.bmod_emod
  cases mode with
  | wide =>
    refine Iff.trans ?_ (signed_product_eq_iff (x := a.u32) (y := b.u32))
    simp [mul_impl, mad_impl, mad_def, addsTo_some, destinationWidth, IntegerType.width]
  | hi =>
    refine Iff.trans ?_ (signed_product_eq_iff (x := a.u32) (y := b.u32))
    have all := Words.setWidth_sshiftRight_inj (n := 32) (by omega) low
    rw [← Words.ofInt_inj, BitVec.ofInt_toInt, BitVec.ofInt_toInt] at all
    rw [← all]
    have narrow : c.u32 = c.setWidth 32 := rfl
    simp [mul_impl, mad_impl, mad_def, addsTo_some, destinationWidth, IntegerType.width,
      setWidth_add_signExtend, narrow]
  | lo =>
    simp [mul_impl, mad_impl, mad_def, addsTo_some, destinationWidth, IntegerType.width, u32, MadExact,
      Words.setWidth_signExtend, BitVec.setWidth_mul]

theorem mad_unsigned16 (mode : MulMode) :
    AddsTo (destinationWidth .U16_TYPE mode) c (mul_impl .U16_TYPE mode a b)
      ((mad_impl .U16_TYPE mode a b c).map Sum.data) ↔ MadExact .U16_TYPE mode a b c := by
  cases mode with
  | wide =>
    simp [mul_impl, mad_impl, mad_def, addsTo_some, destinationWidth, IntegerType.width, u32, MadExact]
  | hi =>
    have inWord : (AddsTo (destinationWidth .U16_TYPE .hi) c (mul_impl .U16_TYPE .hi a b)
          ((mad_impl .U16_TYPE .hi a b c).map Sum.data)) ↔
        ((a.u16.setWidth 32 * b.u16.setWidth 32 + c.u16.setWidth 32) >>> 16).setWidth 16 =
          ((a.u16.setWidth 32 * b.u16.setWidth 32) >>> 16).setWidth 16 + c.u16 := by
      have narrow : c.u16 = c.setWidth 16 := rfl
      simp [mul_impl, mad_impl, mad_def, addsTo_some, destinationWidth, IntegerType.width, narrow]
    have small : a.u16.toNat * b.u16.toNat ≤ (2 ^ 16 - 1) * (2 ^ 16 - 1) :=
      Nat.mul_le_mul (Nat.le_sub_one_of_lt a.u16.isLt) (Nat.le_sub_one_of_lt b.u16.isLt)
    have exact : MadExact .U16_TYPE .hi a b c ↔
        c.u16.toNat = (a.u16.toNat * b.u16.toNat % 2 ^ 16 + c.u16.toNat) / 2 ^ 16 := by
      change (c.u16.toNat : Int) =
        ((a.u16.toNat : Int) * b.u16.toNat % 2 ^ 16 + c.u16.toNat) / 2 ^ 16 ↔ _
      exact_mod_cast Iff.rfl
    have below := c.u16.isLt
    rw [inWord, exact, ← BitVec.toNat_inj]
    simp only [BitVec.toNat_setWidth, BitVec.toNat_ushiftRight, BitVec.toNat_add, BitVec.toNat_mul,
      Nat.shiftRight_eq_div_pow, Nat.mod_eq_of_lt (Nat.lt_trans a.u16.isLt (by omega : _ < 2 ^ 32)),
      Nat.mod_eq_of_lt (Nat.lt_trans b.u16.isLt (by omega : _ < 2 ^ 32))]
    omega
  | lo =>
    simp [mul_impl, mad_impl, mad_def, addsTo_some, destinationWidth, IntegerType.width, u16, MadExact,
      setWidth_add_setWidth]

theorem mad_unsigned32 (mode : MulMode) :
    AddsTo (destinationWidth .U32_TYPE mode) c (mul_impl .U32_TYPE mode a b)
      ((mad_impl .U32_TYPE mode a b c).map Sum.data) ↔ MadExact .U32_TYPE mode a b c := by
  cases mode with
  | wide =>
    have exact : MadExact .U32_TYPE .wide a b c ↔ a.u32.toNat * b.u32.toNat < 2 ^ 32 := by
      change (a.u32.toNat : Int) * b.u32.toNat < 2 ^ 32 ↔ _
      exact_mod_cast Iff.rfl
    rw [exact, ← unsigned_product_eq_iff]
    simp [mul_impl, mad_impl, mad_def, addsTo_some, destinationWidth, IntegerType.width]
  | hi =>
    have inWord : (AddsTo (destinationWidth .U32_TYPE .hi) c (mul_impl .U32_TYPE .hi a b)
          ((mad_impl .U32_TYPE .hi a b c).map Sum.data)) ↔
        (((a.u32 * b.u32).setWidth 64 + c.u32.setWidth 64) >>> 32).setWidth 32 =
          ((a.u32.setWidth 64 * b.u32.setWidth 64) >>> 32).setWidth 32 + c.u32 := by
      have narrow : c.u32 = c.setWidth 32 := rfl
      simp [mul_impl, mad_impl, mad_def, addsTo_some, destinationWidth, IntegerType.width, narrow]
    have exact : MadExact .U32_TYPE .hi a b c ↔
        (a.u32.toNat * b.u32.toNat / 2 ^ 32 + c.u32.toNat) % 2 ^ 32 =
          (a.u32.toNat * b.u32.toNat % 2 ^ 32 + c.u32.toNat) / 2 ^ 32 := by
      change ((a.u32.toNat : Int) * b.u32.toNat / 2 ^ 32 + c.u32.toNat) % 2 ^ 32 =
        ((a.u32.toNat : Int) * b.u32.toNat % 2 ^ 32 + c.u32.toNat) / 2 ^ 32 ↔ _
      exact_mod_cast Iff.rfl
    have below := c.u32.isLt
    have extended : (c.u32.setWidth 64).toNat = c.u32.toNat :=
      BitVec.toNat_setWidth_of_le (by omega)
    rw [inWord, exact, ← BitVec.toNat_inj]
    simp only [BitVec.toNat_setWidth 32, BitVec.toNat_ushiftRight, BitVec.toNat_add,
      Nat.shiftRight_eq_div_pow, unsigned_product_wide, unsigned_product_narrow, extended]
    omega
  | lo =>
    simp [mul_impl, mad_impl, mad_def, addsTo_some, destinationWidth, IntegerType.width, u32, MadExact,
      BitVec.setWidth_mul]

theorem mad_adds_iff (type : IntegerType) (mode : MulMode) (a b c : RegValue) :
    AddsTo (destinationWidth type mode) c (mul_impl type mode a b)
      ((mad_impl type mode a b c).map Sum.data) ↔ MadExact type mode a b c := by
  cases type with
  | S16_TYPE => exact iff_of_true (mad_signed16 mode) trivial
  | S32_TYPE => exact mad_signed32 mode
  | U16_TYPE => exact mad_unsigned16 mode
  | U32_TYPE => exact mad_unsigned32 mode
  | S64_TYPE | U64_TYPE =>
    refine iff_of_true ?_ trivial
    cases mode with
    | wide => rfl
    | hi => rfl
    | lo =>
      have sum : a * b + c + carry_bit none 64 = a * b + c := by
        rw [carry_bit_none]
        exact BitVec.add_zero _
      refine addsTo_some.mpr ?_
      rw [sum]
      exact BitVec.setWidth_add _ _ (by decide)
  | S8_TYPE | U8_TYPE | B8_TYPE | B16_TYPE | B32_TYPE | B64_TYPE => exact iff_of_true rfl trivial

end

/-! ## When `mad24` adds to `mul24` -/

/-- The value of the 24 bits that `mul24` multiplies. -/
def low24 (type : IntegerType) (x : RegValue) : Int :=
  if type.signed then (x.setWidth 24).toInt else (x.setWidth 24).toNat

/-- What an operand holds above them. -/
def above24 (type : IntegerType) (x : RegValue) : Int := (type.value x - low24 type x) / 2 ^ 24

/-- The product of the lower 24 bits fits into the type. -/
def Fits24 (type : IntegerType) (a b : RegValue) : Prop :=
  if type.signed then -2 ^ 31 ≤ low24 type a * low24 type b ∧ low24 type a * low24 type b < 2 ^ 31
  else low24 type a * low24 type b < 2 ^ 32

/-- Bits above the lower 24 ones do not change the product modulo `2 ^ 32`, and for the
    upper half this product is one of 32 bits. -/
def Mad24Exact (type : IntegerType) (mode : MulMode) (a b : RegValue) : Prop :=
  type = .S32_TYPE ∨ type = .U32_TYPE →
    2 ^ 8 ∣ above24 type a * low24 type b + above24 type b * low24 type a ∧
      (mode = .hi → Fits24 type a b)

section

variable {a b c : RegValue}

theorem masked24_toNat (x : RegValue) : (x &&& 0x00FFFFFF).toNat = (x.setWidth 24).toNat := by
  rw [BitVec.toNat_setWidth]
  exact and_mask_toNat x 24 (by omega)

theorem operand24_signed (x : RegValue) :
    (operand24 .S32_TYPE x).toInt = (x.setWidth 24).toInt := by
  have masked := masked24_toNat x
  have narrow := (x.setWidth 24).isLt
  have sign : (x &&& 0x00FFFFFF).getLsbD 23 = (x.setWidth 24).msb := by
    rw [BitVec.getLsbD, masked, BitVec.msb_eq_getLsbD_last]
    rfl
  cases negative : (x.setWidth 24).msb with
  | false =>
    have plain : operand24 .S32_TYPE x = x &&& 0x00FFFFFF := by
      simp only [operand24, sign, negative]
      rfl
    rw [plain, BitVec.toInt_eq_toNat_of_msb negative, BitVec.toInt_eq_toNat_of_lt (by omega), masked]
  | true =>
    have extended : operand24 .S32_TYPE x = (x &&& 0x00FFFFFF) ||| 0xFFFFFFFFFF000000 := by
      simp only [operand24, sign, negative]
      rfl
    have sum : (operand24 .S32_TYPE x).toNat = 2 ^ 24 * (2 ^ 40 - 1) + (x.setWidth 24).toNat := by
      rw [extended, BitVec.toNat_or, masked, Nat.or_comm]
      exact (Nat.two_pow_add_eq_or_of_lt narrow (2 ^ 40 - 1)).symm
    have wide := BitVec.toInt_eq_toNat_cond (operand24 .S32_TYPE x)
    have short := BitVec.toInt_eq_toNat_cond (x.setWidth 24)
    have above := BitVec.msb_eq_decide (x.setWidth 24)
    rw [negative, eq_comm, decide_eq_true_iff] at above
    rw [if_neg (by omega)] at wide short
    rw [wide, short, sum]
    omega

theorem operand24_unsigned (x : RegValue) :
    (operand24 .U32_TYPE x).toNat = (x.setWidth 24).toNat := masked24_toNat x

theorem low24_modEq {type : IntegerType} (narrow : type = .S32_TYPE ∨ type = .U32_TYPE)
    (x : RegValue) : low24 type x ≡ type.value x [ZMOD 2 ^ 24] := by
  rcases narrow with rfl | rfl
  · exact (Words.setWidth_toInt_modEq x 24).trans
      ((Words.setWidth_toInt_modEq x 32).of_mul_right (n := 2 ^ 24) (2 ^ 8)).symm
  · exact (Words.setWidth_toNat_modEq x 24).trans
      ((Words.setWidth_toNat_modEq x 32).of_mul_right (n := 2 ^ 24) (2 ^ 8)).symm

theorem value_eq_low24 {type : IntegerType} (narrow : type = .S32_TYPE ∨ type = .U32_TYPE)
    (x : RegValue) : type.value x = low24 type x + 2 ^ 24 * above24 type x := by
  rw [above24, Int.mul_ediv_cancel' (low24_modEq narrow x).dvd]
  ring

theorem product_modEq_low {type : IntegerType} (narrow : type = .S32_TYPE ∨ type = .U32_TYPE)
    (a b : RegValue) : product type a b ≡ low24 type a * low24 type b [ZMOD 2 ^ 24] :=
  ((low24_modEq narrow a).mul (low24_modEq narrow b)).symm

theorem product_modEq_iff {type : IntegerType} (narrow : type = .S32_TYPE ∨ type = .U32_TYPE) :
    product type a b ≡ low24 type a * low24 type b [ZMOD 2 ^ 32] ↔
      2 ^ 8 ∣ above24 type a * low24 type b + above24 type b * low24 type a := by
  have apart : product type a b - low24 type a * low24 type b = 2 ^ 24 *
      (above24 type a * low24 type b + above24 type b * low24 type a +
        2 ^ 8 * (2 ^ 16 * (above24 type a * above24 type b))) := by
    rw [product, value_eq_low24 narrow a, value_eq_low24 narrow b]
    ring
  have split : (2 ^ 32 : Int) = 2 ^ 24 * 2 ^ 8 := by norm_num
  rw [Int.modEq_comm, Int.modEq_iff_dvd, apart, split, mul_dvd_mul_iff_left (by positivity)]
  exact dvd_add_left (dvd_mul_right _ _)

theorem signed_low24_bounds (a b : RegValue) :
    -2 ^ 46 ≤ low24 .S32_TYPE a * low24 .S32_TYPE b ∧
      low24 .S32_TYPE a * low24 .S32_TYPE b ≤ 2 ^ 46 :=
  abs_le.mp (Words.toInt_mul_bounds (n := 23) (a.setWidth 24) (b.setWidth 24))

theorem unsigned_low24_bounds (a b : RegValue) :
    0 ≤ low24 .U32_TYPE a * low24 .U32_TYPE b ∧
      low24 .U32_TYPE a * low24 .U32_TYPE b < 2 ^ 48 := by
  have small : (a.setWidth 24).toNat * (b.setWidth 24).toNat < 2 ^ 24 * 2 ^ 24 :=
    Nat.mul_lt_mul'' (a.setWidth 24).isLt (b.setWidth 24).isLt
  have below : ((a.setWidth 24).toNat : Int) * (b.setWidth 24).toNat < 2 ^ 48 := by
    exact_mod_cast small
  exact ⟨Int.mul_nonneg (Int.natCast_nonneg _) (Int.natCast_nonneg _), below⟩

theorem signed_product24 : (operand24 .S32_TYPE a * operand24 .S32_TYPE b).toInt =
    low24 .S32_TYPE a * low24 .S32_TYPE b := by
  have bounds : -2 ^ 46 ≤ (a.setWidth 24).toInt * (b.setWidth 24).toInt ∧
      (a.setWidth 24).toInt * (b.setWidth 24).toInt ≤ 2 ^ 46 := signed_low24_bounds a b
  rw [BitVec.toInt_mul, operand24_signed, operand24_signed]
  exact Int.bmod_eq_of_le (by omega) (by omega)

theorem unsigned_product24 : ((operand24 .U32_TYPE a * operand24 .U32_TYPE b).toNat : Int) =
    low24 .U32_TYPE a * low24 .U32_TYPE b := by
  have bounds := unsigned_low24_bounds a b
  rw [BitVec.toNat_mul, operand24_unsigned, operand24_unsigned]
  change (((a.setWidth 24).toNat * (b.setWidth 24).toNat % 2 ^ 64 : Nat) : Int) =
    (a.setWidth 24).toNat * (b.setWidth 24).toNat
  have below : ((a.setWidth 24).toNat : Int) * (b.setWidth 24).toNat < 2 ^ 48 := bounds.2
  have small : (a.setWidth 24).toNat * (b.setWidth 24).toNat < 2 ^ 48 := by exact_mod_cast below
  rw [Nat.mod_eq_of_lt (by omega), Nat.cast_mul]

theorem and_word (x : BitVec 32) : x &&& 0xFFFFFFFF#32 = x := BitVec.and_allOnes

theorem setWidth_shift (x : RegValue) :
    (x >>> 16).setWidth 32 = (x.sshiftRight 16).setWidth 32 := by
  apply BitVec.eq_of_getLsbD_eq
  intro i below
  have inside : 16 + i < 64 := by omega
  simp [BitVec.getLsbD_sshiftRight, below, inside, show ¬ 64 ≤ i by omega]

theorem signed_low_iff :
    a.u32 * b.u32 = (operand24 .S32_TYPE a * operand24 .S32_TYPE b).setWidth 32 ↔
      product .S32_TYPE a b ≡ low24 .S32_TYPE a * low24 .S32_TYPE b [ZMOD 2 ^ 32] := by
  rw [Words.setWidth_eq_ofInt (by omega), signed_product24, ← Words.ofInt_inj, product,
    BitVec.ofInt_mul _ (IntegerType.S32_TYPE.value b)]
  exact Eq.congr_left (congrArg₂ _ BitVec.ofInt_toInt BitVec.ofInt_toInt).symm

theorem unsigned_low_iff :
    a.u32 * b.u32 = (operand24 .U32_TYPE a * operand24 .U32_TYPE b).setWidth 32 ↔
      product .U32_TYPE a b ≡ low24 .U32_TYPE a * low24 .U32_TYPE b [ZMOD 2 ^ 32] := by
  have all : product .U32_TYPE a b = (a.u32.toNat * b.u32.toNat : Nat) := by
    rw [Nat.cast_mul]
    rfl
  rw [← unsigned_product24, all, ← BitVec.toNat_inj, BitVec.toNat_mul, BitVec.toNat_setWidth]
  exact_mod_cast (Int.natCast_modEq_iff (n := 2 ^ 32)).symm

theorem mad24_signed (mode : MulMode) (half : mode ≠ .wide) :
    AddsTo 32 c (mul24_impl .S32_TYPE mode a b) (mad24_impl false .S32_TYPE mode a b c) ↔
      product .S32_TYPE a b ≡ low24 .S32_TYPE a * low24 .S32_TYPE b [ZMOD 2 ^ 32] ∧
        (mode = .hi → Fits24 .S32_TYPE a b) := by
  have narrow : c.u32 = c.setWidth 32 := rfl
  cases mode with
  | wide => exact absurd rfl half
  | lo =>
    rw [← signed_low_iff]
    simp [mul24_impl, mad24_impl, addsTo_some, and_word, Words.setWidth_signExtend, narrow]
  | hi =>
    have upper : AddsTo 32 c (mul24_impl .S32_TYPE .hi a b) (mad24_impl false .S32_TYPE .hi a b c) ↔
        (((a.u32 * b.u32).signExtend 64).sshiftRight 16).setWidth 32 =
          ((operand24 .S32_TYPE a * operand24 .S32_TYPE b).sshiftRight 16).setWidth 32 := by
      simp [mul24_impl, mad24_impl, addsTo_some, and_word, setWidth_add_signExtend, setWidth_shift,
        narrow]
    have all : ((a.u32 * b.u32).signExtend 64).toInt = (product .S32_TYPE a b).bmod (2 ^ 32) :=
      signed_product_narrow
    have reduced : (product .S32_TYPE a b).bmod (2 ^ 32) ≡ product .S32_TYPE a b [ZMOD 2 ^ 32] :=
      Int.bmod_emod
    -- both products have the same 16 low bits, so the bits above them decide
    have low : ((a.u32 * b.u32).signExtend 64).toInt ≡
        (operand24 .S32_TYPE a * operand24 .S32_TYPE b).toInt [ZMOD 2 ^ 16] := by
      rw [all, signed_product24]
      exact (reduced.of_mul_right (n := 2 ^ 16) (2 ^ 16)).trans
        ((product_modEq_low (.inl rfl) a b).of_mul_right (n := 2 ^ 16) (2 ^ 8))
    have bounds := signed_low24_bounds a b
    have atLeast := Int.le_bmod (x := product .S32_TYPE a b) (m := 2 ^ 32) (by omega)
    have below := Int.bmod_lt (x := product .S32_TYPE a b) (m := 2 ^ 32) (by omega)
    rw [upper, Words.setWidth_sshiftRight_inj (by omega) low, all, signed_product24]
    constructor
    · intro same
      have equal := Words.eq_of_modEq same (by omega) (by omega)
      have fits : Fits24 .S32_TYPE a b := by
        change -2 ^ 31 ≤ _ ∧ _ < 2 ^ 31
        omega
      exact ⟨equal ▸ reduced.symm, fun _ => fits⟩
    · rintro ⟨same, fits⟩
      have range : -2 ^ 31 ≤ low24 .S32_TYPE a * low24 .S32_TYPE b ∧
        low24 .S32_TYPE a * low24 .S32_TYPE b < 2 ^ 31 := fits rfl
      have equal := Words.eq_of_modEq (reduced.trans same) (by omega) (by omega)
      rw [equal]

theorem mad24_unsigned (mode : MulMode) (half : mode ≠ .wide) :
    AddsTo 32 c (mul24_impl .U32_TYPE mode a b) (mad24_impl false .U32_TYPE mode a b c) ↔
      product .U32_TYPE a b ≡ low24 .U32_TYPE a * low24 .U32_TYPE b [ZMOD 2 ^ 32] ∧
        (mode = .hi → Fits24 .U32_TYPE a b) := by
  have narrow : c.u32 = c.setWidth 32 := rfl
  cases mode with
  | wide => exact absurd rfl half
  | lo =>
    rw [← unsigned_low_iff]
    simp [mul24_impl, mad24_impl, addsTo_some, and_word, narrow]
  | hi =>
    have upper : AddsTo 32 c (mul24_impl .U32_TYPE .hi a b) (mad24_impl false .U32_TYPE .hi a b c) ↔
        (((a.u32 * b.u32).setWidth 64) >>> 16).setWidth 32 =
          ((operand24 .U32_TYPE a * operand24 .U32_TYPE b) >>> 16).setWidth 32 := by
      simp [mul24_impl, mad24_impl, addsTo_some, and_word, setWidth_add_setWidth, narrow]
    have all : (((a.u32 * b.u32).setWidth 64).toNat : Int) = product .U32_TYPE a b % 2 ^ 32 := by
      rw [unsigned_product_narrow]
      push_cast
      rfl
    have reduced : product .U32_TYPE a b % 2 ^ 32 ≡ product .U32_TYPE a b [ZMOD 2 ^ 32] :=
      Int.mod_modEq _ _
    -- both products have the same 16 low bits, so the bits above them decide
    have low : (((a.u32 * b.u32).setWidth 64).toNat : Int) ≡
        (operand24 .U32_TYPE a * operand24 .U32_TYPE b).toNat [ZMOD 2 ^ 16] := by
      rw [all, unsigned_product24]
      exact (reduced.of_mul_right (n := 2 ^ 16) (2 ^ 16)).trans
        ((product_modEq_low (.inr rfl) a b).of_mul_right (n := 2 ^ 16) (2 ^ 8))
    have bounds := unsigned_low24_bounds a b
    rw [upper, Words.setWidth_ushiftRight_inj low, all, unsigned_product24]
    constructor
    · intro same
      have equal := Words.eq_of_modEq same (by omega) (by omega)
      have fits : Fits24 .U32_TYPE a b := by
        change _ < 2 ^ 32
        omega
      exact ⟨equal ▸ reduced.symm, fun _ => fits⟩
    · rintro ⟨same, fits⟩
      have range : low24 .U32_TYPE a * low24 .U32_TYPE b < 2 ^ 32 := fits rfl
      have equal := Words.eq_of_modEq (reduced.trans same) (by omega) (by omega)
      rw [equal]

theorem mad24_adds_iff (type : IntegerType) (mode : MulMode) (half : mode ≠ .wide)
    (a b c : RegValue) :
    AddsTo (destinationWidth type mode) c (mul24_impl type mode a b)
      (mad24_impl false type mode a b c) ↔ Mad24Exact type mode a b := by
  have width : destinationWidth type mode = type.width := by
    cases mode with
    | wide => exact absurd rfl half
    | hi | lo => rfl
  rw [width, Mad24Exact]
  cases type with
  | S32_TYPE =>
    rw [forall_prop_of_true (.inl rfl), ← product_modEq_iff (.inl rfl)]
    exact mad24_signed mode half
  | U32_TYPE =>
    rw [forall_prop_of_true (.inr rfl), ← product_modEq_iff (.inr rfl)]
    exact mad24_unsigned mode half
  | S8_TYPE | S16_TYPE | S64_TYPE | U8_TYPE | U16_TYPE | U64_TYPE | B8_TYPE | B16_TYPE | B32_TYPE
  | B64_TYPE => exact iff_of_true rfl (by simp)

end

/-! ## Both instructions -/

/-- An addition that follows the multiplication is the one that is part of the
    instruction, exactly as long as the operands are small enough. -/
theorem multiply_add_iff (a b c : RegValue) :
    (∀ type mode, AddsTo (destinationWidth type mode) c (mul_impl type mode a b)
        ((mad_impl type mode a b c).map Sum.data) ↔ MadExact type mode a b c) ∧
      ∀ type mode, mode ≠ .wide → (AddsTo (destinationWidth type mode) c
        (mul24_impl type mode a b) (mad24_impl false type mode a b c) ↔ Mad24Exact type mode a b) :=
  ⟨fun type mode => mad_adds_iff type mode a b c,
    fun type mode half => mad24_adds_iff type mode half a b c⟩

/-- The product of 65536 by itself is lost, and so is bit 24 of an operand kept. -/
theorem multiply_add_wrong :
    ¬ AddsTo 64 0 (mul_impl .S32_TYPE .wide 0x10000 0x10000)
        ((mad_impl .S32_TYPE .wide 0x10000 0x10000 0).map Sum.data) ∧
      ¬ AddsTo 32 0 (mul24_impl .U32_TYPE .lo 0x1000000 1)
        (mad24_impl false .U32_TYPE .lo 0x1000000 1 0) := by
  constructor <;> unfold AddsTo <;> decide

end AesOnGpu.Ptx
