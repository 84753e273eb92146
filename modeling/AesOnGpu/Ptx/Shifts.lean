import AesOnGpu.Ptx.Register

/-! # Shifts

`shl_impl` and `shr_impl` of `instructions.cc`.  Most cases test one member of the
amount and shift by another one.

The language gives a shift of 64 bits by 64 places or more no result.
-/

namespace AesOnGpu.Ptx

open RegValue

/-! ## The instructions -/

/-- `a.u64 << b.u64`. -/
def shiftLeft64 (a b : RegValue) : Option RegValue :=
  if b.toNat < 64 then some (a <<< b.toNat) else none

/-- `a.u64 >> b.u64`. -/
def shiftRight64 (a b : RegValue) : Option RegValue :=
  if b.toNat < 64 then some (a >>> b.toNat) else none

def shl_impl (type : IntegerType) (a b : RegValue) : Option RegValue :=
  match type with
  | .B16_TYPE | .U16_TYPE =>
    if b.u16.toNat ≥ 16 then some 0 else some (fresh (a.u16 <<< b.u16.toNat))
  | .B32_TYPE | .U32_TYPE =>
    if b.u32.toNat ≥ 32 then some 0 else some (fresh (a.u32 <<< b.u32.toNat))
  | .B64_TYPE | .U64_TYPE =>
    if b.u32.toNat ≥ 64 then some 0 else shiftLeft64 a b
  | _ => none

/-- The signed cases write all 64 bits. -/
def shr_impl (type : IntegerType) (a b : RegValue) : Option RegValue :=
  match type with
  | .U16_TYPE | .B16_TYPE =>
    if b.u16.toNat < 16 then some (fresh (a.u16 >>> b.u16.toNat)) else some 0
  | .U32_TYPE | .B32_TYPE =>
    if b.u32.toNat < 32 then some (fresh (a.u32 >>> b.u32.toNat)) else some 0
  | .U64_TYPE | .B64_TYPE =>
    if b.u32.toNat < 64 then shiftRight64 a b else some 0
  | .S16_TYPE =>
    if b.u16.toNat < 16 then some ((a.u16.signExtend 64).sshiftRight b.u16.toNat)
    else if a.u16.toInt < 0 then some (-1) else some 0
  | .S32_TYPE =>
    if b.u32.toNat < 32 then some ((a.u32.signExtend 64).sshiftRight b.u32.toNat)
    else if a.u32.toInt < 0 then some (-1) else some 0
  | .S64_TYPE =>
    if b.toNat < 64 then some (BitVec.sshiftRight a b.toNat)
    else if a.toInt < 0 then
      -- a negative member `s32` of the amount clears the lower half
      if b.u32.toInt < 0 then some (store (-1) 0#32) else some (-1)
    else some 0
  | _ => none

/-! ## Clamped shifts -/

def shlTypes : List IntegerType := [.B16_TYPE, .U16_TYPE, .B32_TYPE, .U32_TYPE, .B64_TYPE, .U64_TYPE]

def shrTypes : List IntegerType := shlTypes ++ [.S16_TYPE, .S32_TYPE, .S64_TYPE]

/-- The amount is the lower half of its register, and no more than the width. -/
def places (type : IntegerType) (b : RegValue) : Nat := min b.u32.toNat type.width

/-- Zeros come in from below, and the bits above the width are gone. -/
def ShiftsLeft (type : IntegerType) (a b : RegValue) : Prop :=
  ∃ d, shl_impl type a b = some d ∧
    type.value d = type.value a * 2 ^ places type b % 2 ^ type.width

/-- Rounding down lets zeros or copies of the sign come in from above. -/
def ShiftsRight (type : IntegerType) (a b : RegValue) : Prop :=
  ∃ d, shr_impl type a b = some d ∧ type.value d = type.value a / 2 ^ places type b

/-- Only the lower 16 bits of the amount count for 16 bits, and all 64 bits for 64
    bits. -/
def ShlExact (type : IntegerType) (a b : RegValue) : Prop :=
  match type with
  | .B16_TYPE | .U16_TYPE =>
    b.u32.toNat < 2 ^ 16 ∨ 16 ≤ b.u16.toNat ∨ 2 ^ 16 ∣ type.value a * 2 ^ b.u16.toNat
  | .B64_TYPE | .U64_TYPE => 64 ≤ b.u32.toNat ∨ b.toNat < 64
  | _ => True

def ShiftedOut (type : IntegerType) (a : RegValue) (n : Nat) : Prop :=
  -2 ^ n ≤ type.value a ∧ type.value a < 2 ^ n

def ShrExact (type : IntegerType) (a b : RegValue) : Prop :=
  match type with
  | .B16_TYPE | .U16_TYPE | .S16_TYPE =>
    b.u32.toNat < 2 ^ 16 ∨ 16 ≤ b.u16.toNat ∨ ShiftedOut type a b.u16.toNat
  | .B64_TYPE | .U64_TYPE => 64 ≤ b.u32.toNat ∨ b.toNat < 64
  | .S64_TYPE =>
    b.toNat < 64 ∨ (64 ≤ b.u32.toNat ∧ (0 ≤ type.value a ∨ 0 ≤ b.u32.toInt)) ∨
      (b.u32.toNat < 64 ∧ ShiftedOut type a b.u32.toNat)
  | _ => True

/-! ## Shifts to the left -/

section

variable {type : IntegerType} {a b d : RegValue}

theorem shiftsLeft_of (written : shl_impl type a b = some d) : ShiftsLeft type a b ↔
    type.value d = type.value a * 2 ^ places type b % 2 ^ type.width := by
  rw [ShiftsLeft, written]
  simp

theorem shiftsRight_of (written : shr_impl type a b = some d) : ShiftsRight type a b ↔
    type.value d = type.value a / 2 ^ places type b := by
  rw [ShiftsRight, written]
  simp

theorem value_zero (type : IntegerType) : type.value 0 = 0 := by
  cases type <;> decide

theorem value_shiftLeft (unsigned : type.signed = false) (n : Nat) :
    type.value (fresh ((a.setWidth type.width) <<< n)) =
      type.value a * 2 ^ n % 2 ^ type.width := by
  rw [IntegerType.value_of_unsigned unsigned, IntegerType.value_of_unsigned unsigned,
    setWidth_fresh _ type.width_le, BitVec.setWidth_eq, BitVec.toNat_shiftLeft, Nat.shiftLeft_eq]
  push_cast
  rfl

theorem mul_two_pow_emod (v : Int) {n w : Nat} (all : w ≤ n) : v * 2 ^ n % 2 ^ w = 0 :=
  Int.emod_eq_zero_of_dvd (dvd_mul_of_dvd_right (pow_dvd_pow 2 all) v)

theorem u16_toNat (b : RegValue) : b.u16.toNat = b.u32.toNat % 2 ^ 16 := by
  simp only [u16, u32, BitVec.toNat_setWidth]
  omega

theorem shl_impl_16 : ShiftsLeft .U16_TYPE a b ↔ ShlExact .U16_TYPE a b := by
  have amount := u16_toNat b
  have exact : ShlExact .U16_TYPE a b ↔ b.u32.toNat < 2 ^ 16 ∨ 16 ≤ b.u16.toNat ∨
    2 ^ 16 ∣ IntegerType.U16_TYPE.value a * 2 ^ b.u16.toNat := Iff.rfl
  rw [exact]
  by_cases all : 16 ≤ b.u16.toNat
  · have written : shl_impl .U16_TYPE a b = some 0 := if_pos all
    have clamped : places .U16_TYPE b = 16 := min_eq_right (a := b.u32.toNat) (b := 16) (by omega)
    refine iff_of_true ((shiftsLeft_of written).mpr ?_) (.inr (.inl all))
    rw [value_zero, clamped]
    exact (mul_two_pow_emod _ le_rfl).symm
  · have written : shl_impl .U16_TYPE a b = some (fresh (a.u16 <<< b.u16.toNat)) := if_neg all
    have value : IntegerType.U16_TYPE.value (fresh (a.u16 <<< b.u16.toNat)) =
      IntegerType.U16_TYPE.value a * 2 ^ b.u16.toNat % 2 ^ 16 := value_shiftLeft rfl b.u16.toNat
    rw [shiftsLeft_of written, value]
    by_cases low : b.u32.toNat < 2 ^ 16
    · have unclamped : places .U16_TYPE b = b.u16.toNat := by
        rw [places, min_eq_left (by change _ ≤ 16; omega)]
        omega
      rw [unclamped]
      exact iff_of_true rfl (.inl low)
    · have clamped : places .U16_TYPE b = 16 :=
        min_eq_right (a := b.u32.toNat) (b := 16) (by omega)
      have nothing : IntegerType.U16_TYPE.value a * 2 ^ 16 % 2 ^ IntegerType.U16_TYPE.width = 0 :=
        mul_two_pow_emod _ le_rfl
      rw [clamped, nothing, ← Int.dvd_iff_emod_eq_zero]
      simp only [low, all, false_or]

theorem shl_impl_32 : ShiftsLeft .U32_TYPE a b := by
  by_cases all : 32 ≤ b.u32.toNat
  · have written : shl_impl .U32_TYPE a b = some 0 := if_pos all
    have clamped : places .U32_TYPE b = 32 := min_eq_right all
    rw [shiftsLeft_of written, value_zero, clamped]
    exact (mul_two_pow_emod _ le_rfl).symm
  · have written : shl_impl .U32_TYPE a b = some (fresh (a.u32 <<< b.u32.toNat)) := if_neg all
    have unclamped : places .U32_TYPE b = b.u32.toNat := min_eq_left (Nat.le_of_not_le all)
    rw [shiftsLeft_of written, unclamped]
    exact value_shiftLeft rfl b.u32.toNat

theorem shl_impl_64 : ShiftsLeft .U64_TYPE a b ↔ ShlExact .U64_TYPE a b := by
  have exact : ShlExact .U64_TYPE a b ↔ 64 ≤ b.u32.toNat ∨ b.toNat < 64 := Iff.rfl
  rw [exact]
  by_cases all : 64 ≤ b.u32.toNat
  · have written : shl_impl .U64_TYPE a b = some 0 := if_pos all
    have clamped : places .U64_TYPE b = 64 := min_eq_right all
    refine iff_of_true ((shiftsLeft_of written).mpr ?_) (.inl all)
    rw [value_zero, clamped]
    exact (mul_two_pow_emod _ le_rfl).symm
  · have inner : shl_impl .U64_TYPE a b = shiftLeft64 a b := if_neg all
    by_cases clean : b.toNat < 64
    · have written : shl_impl .U64_TYPE a b = some (fresh (a.setWidth 64 <<< b.toNat)) := by
        rw [inner, shiftLeft64, if_pos clean, fresh_self, BitVec.setWidth_eq]
      have unclamped : places .U64_TYPE b = b.toNat := by
        have lower : b.u32.toNat = b.toNat := by
          rw [u32, BitVec.toNat_setWidth]
          omega
        exact (min_eq_left (Nat.le_of_not_le all)).trans lower
      refine iff_of_true ((shiftsLeft_of written).mpr ?_) (.inr clean)
      rw [unclamped]
      exact value_shiftLeft rfl b.toNat
    · have nothing : shl_impl .U64_TYPE a b = none := by
        rw [inner, shiftLeft64, if_neg clean]
      refine iff_of_false ?_ (by simp [all, clean])
      rintro ⟨d, written, -⟩
      exact absurd (nothing.symm.trans written) (by simp)

theorem shl_impl_iff (accepted : type ∈ shlTypes) : ShiftsLeft type a b ↔ ShlExact type a b := by
  simp only [shlTypes, List.mem_cons, List.not_mem_nil, or_false] at accepted
  rcases accepted with rfl | rfl | rfl | rfl | rfl | rfl
  · exact shl_impl_16
  · exact shl_impl_16
  · exact iff_of_true shl_impl_32 trivial
  · exact iff_of_true shl_impl_32 trivial
  · exact shl_impl_64
  · exact shl_impl_64

/-! ## Shifts to the right -/

/-- What a shift leaves that shifts out all bits. -/
def fill (type : IntegerType) (a : RegValue) : Int := if type.value a < 0 then -1 else 0

theorem value_ediv_eq_fill {n : Nat} :
    type.value a / 2 ^ n = fill type a ↔ ShiftedOut type a n := Words.ediv_two_pow_iff

theorem value_ediv_places : type.value a / 2 ^ places type b = type.value a / 2 ^ b.u32.toNat :=
  Words.ediv_two_pow_min (type.value_within a).1 (type.value_within a).2

theorem value_ediv_of_all {n : Nat} (all : type.width ≤ n) :
    type.value a / 2 ^ n = fill type a := by
  have grows : (2 : Int) ^ type.width ≤ 2 ^ n := pow_le_pow_right₀ (by norm_num) all
  have within := type.value_within a
  exact value_ediv_eq_fill.mpr ⟨by omega, by omega⟩

theorem fill_of_unsigned (unsigned : type.signed = false) : fill type a = 0 := by
  rw [fill, IntegerType.value_of_unsigned unsigned, if_neg (by omega)]

theorem value_shiftRight (unsigned : type.signed = false) (n : Nat) :
    type.value (fresh ((a.setWidth type.width) >>> n)) = type.value a / 2 ^ n := by
  rw [IntegerType.value_of_unsigned unsigned, IntegerType.value_of_unsigned unsigned,
    setWidth_fresh _ type.width_le, BitVec.setWidth_eq, BitVec.toNat_ushiftRight,
    Nat.shiftRight_eq_div_pow]
  push_cast
  rfl

theorem value_neg_one (signed : type.signed = true) : type.value (-1) = -1 := by
  cases type <;> first | decide | exact absurd signed (by decide)

theorem value_of_toInt {v : Int} (signed : type.signed = true) (whole : d.toInt = v)
    (atLeast : type.least ≤ v) (below : v < type.least + 2 ^ type.width) : type.value d = v := by
  refine type.value_eq_of_modEq ?_ atLeast below
  rw [IntegerType.value_of_signed signed, ← whole, Words.setWidth_eq_ofInt type.width_le,
    BitVec.toInt_ofInt]
  exact_mod_cast Int.bmod_emod

theorem value_sshiftRight (signed : type.signed = true) {n : Nat}
    (whole : d.toInt = type.value a / 2 ^ n) : type.value d = type.value a / 2 ^ n := by
  have between := Words.ediv_two_pow_between (type.value a) n
  have bounds := type.value_bounds a
  have zero : type.least ≤ 0 ∧ 0 < type.least + 2 ^ type.width := by
    cases type <;> decide
  exact value_of_toInt signed whole (by omega) (by omega)

theorem shiftsRight_16 (width : type.width = 16) (written : shr_impl type a b = some d)
    (value : type.value d =
      if b.u16.toNat < 16 then type.value a / 2 ^ b.u16.toNat else fill type a) :
    ShiftsRight type a b ↔
      b.u32.toNat < 2 ^ 16 ∨ 16 ≤ b.u16.toNat ∨ ShiftedOut type a b.u16.toNat := by
  have amount := u16_toNat b
  rw [shiftsRight_of written, value, value_ediv_places]
  split
  case isTrue few =>
    by_cases low : b.u32.toNat < 2 ^ 16
    · have same : b.u16.toNat = b.u32.toNat := by omega
      rw [same]
      exact iff_of_true rfl (.inl low)
    · have notAll : ¬ 16 ≤ b.u16.toNat := by omega
      rw [value_ediv_of_all (n := b.u32.toNat) (by omega), value_ediv_eq_fill]
      simp only [low, notAll, false_or]
  case isFalse all =>
    refine iff_of_true ?_ (.inr (.inl (by omega)))
    rw [value_ediv_of_all (n := b.u32.toNat) (by omega)]

theorem shiftsRight_32 (width : type.width = 32) (written : shr_impl type a b = some d)
    (value : type.value d =
      if b.u32.toNat < 32 then type.value a / 2 ^ b.u32.toNat else fill type a) :
    ShiftsRight type a b := by
  rw [shiftsRight_of written, value, value_ediv_places]
  split
  case isTrue few => rfl
  case isFalse all => rw [value_ediv_of_all (n := b.u32.toNat) (by omega)]

theorem shr_impl_unsigned16 : ShiftsRight .U16_TYPE a b ↔ ShrExact .U16_TYPE a b := by
  by_cases few : b.u16.toNat < 16
  · refine shiftsRight_16 rfl (if_pos few) ?_
    rw [if_pos few]
    exact value_shiftRight rfl b.u16.toNat
  · refine shiftsRight_16 rfl (if_neg few) ?_
    rw [if_neg few, value_zero, fill_of_unsigned rfl]

theorem shr_impl_unsigned32 : ShiftsRight .U32_TYPE a b := by
  by_cases few : b.u32.toNat < 32
  · refine shiftsRight_32 rfl (if_pos few) ?_
    rw [if_pos few]
    exact value_shiftRight rfl b.u32.toNat
  · refine shiftsRight_32 rfl (if_neg few) ?_
    rw [if_neg few, value_zero, fill_of_unsigned rfl]

theorem toInt_shift {w : Nat} (narrow : w ≤ 64) (x : BitVec w) (n : Nat) :
    ((x.signExtend 64).sshiftRight n).toInt = x.toInt / 2 ^ n := by
  rw [BitVec.toInt_sshiftRight, BitVec.toInt_signExtend_of_le narrow, Int.shiftRight_eq_div_pow]
  norm_cast

theorem shr_impl_signed16 : ShiftsRight .S16_TYPE a b ↔ ShrExact .S16_TYPE a b := by
  by_cases few : b.u16.toNat < 16
  · refine shiftsRight_16 rfl (if_pos few) ?_
    rw [if_pos few]
    exact value_sshiftRight rfl (toInt_shift (by omega) a.u16 b.u16.toNat)
  · by_cases negative : a.u16.toInt < 0
    · refine shiftsRight_16 (d := -1) rfl ((if_neg few).trans (if_pos negative)) ?_
      rw [if_neg few, value_neg_one rfl]
      exact (if_pos negative).symm
    · refine shiftsRight_16 (d := 0) rfl ((if_neg few).trans (if_neg negative)) ?_
      rw [if_neg few, value_zero]
      exact (if_neg negative).symm

theorem shr_impl_signed32 : ShiftsRight .S32_TYPE a b := by
  by_cases few : b.u32.toNat < 32
  · refine shiftsRight_32 rfl (if_pos few) ?_
    rw [if_pos few]
    exact value_sshiftRight rfl (toInt_shift (by omega) a.u32 b.u32.toNat)
  · by_cases negative : a.u32.toInt < 0
    · refine shiftsRight_32 (d := -1) rfl ((if_neg few).trans (if_pos negative)) ?_
      rw [if_neg few, value_neg_one rfl]
      exact (if_pos negative).symm
    · refine shiftsRight_32 (d := 0) rfl ((if_neg few).trans (if_neg negative)) ?_
      rw [if_neg few, value_zero]
      exact (if_neg negative).symm

theorem shr_impl_unsigned64 : ShiftsRight .U64_TYPE a b ↔ ShrExact .U64_TYPE a b := by
  have exact : ShrExact .U64_TYPE a b ↔ 64 ≤ b.u32.toNat ∨ b.toNat < 64 := Iff.rfl
  rw [exact]
  by_cases few : b.u32.toNat < 64
  · have inner : shr_impl .U64_TYPE a b = shiftRight64 a b := if_pos few
    by_cases clean : b.toNat < 64
    · have written : shr_impl .U64_TYPE a b = some (fresh (a.setWidth 64 >>> b.toNat)) := by
        rw [inner, shiftRight64, if_pos clean, fresh_self, BitVec.setWidth_eq]
      have lower : b.u32.toNat = b.toNat := by
        rw [u32, BitVec.toNat_setWidth]
        omega
      refine iff_of_true ((shiftsRight_of written).mpr ?_) (.inr clean)
      rw [value_ediv_places, lower]
      exact value_shiftRight rfl b.toNat
    · have nothing : shr_impl .U64_TYPE a b = none := by
        rw [inner, shiftRight64, if_neg clean]
      refine iff_of_false ?_ (by omega)
      rintro ⟨d, written, -⟩
      exact absurd (nothing.symm.trans written) (by simp)
  · have written : shr_impl .U64_TYPE a b = some 0 := if_neg few
    have all : IntegerType.U64_TYPE.width ≤ b.u32.toNat := Nat.le_of_not_lt few
    refine iff_of_true ((shiftsRight_of written).mpr ?_) (.inl all)
    rw [value_zero, value_ediv_places, value_ediv_of_all all, fill_of_unsigned rfl]

theorem shrExact_signed64 : ShrExact .S64_TYPE a b ↔ b.toNat < 64 ∨
    (64 ≤ b.u32.toNat ∧ (0 ≤ IntegerType.S64_TYPE.value a ∨ 0 ≤ b.u32.toInt)) ∨
      (b.u32.toNat < 64 ∧ ShiftedOut .S64_TYPE a b.u32.toNat) := Iff.rfl

theorem shiftsRight_fill (written : shr_impl .S64_TYPE a b = some d)
    (value : IntegerType.S64_TYPE.value d = fill .S64_TYPE a) (stale : ¬ b.toNat < 64)
    (signs : 0 ≤ IntegerType.S64_TYPE.value a ∨ 0 ≤ b.u32.toInt) :
    ShiftsRight .S64_TYPE a b ↔ ShrExact .S64_TYPE a b := by
  rw [shiftsRight_of written, value, value_ediv_places, eq_comm, shrExact_signed64]
  by_cases all : 64 ≤ b.u32.toNat
  · exact iff_of_true (value_ediv_of_all all) (.inr (.inl ⟨all, signs⟩))
  · have few : b.u32.toNat < 64 := Nat.lt_of_not_le all
    rw [value_ediv_eq_fill]
    simp only [stale, all, few, false_and, true_and, false_or]

theorem shr_impl_signed64 : ShiftsRight .S64_TYPE a b ↔ ShrExact .S64_TYPE a b := by
  have whole : IntegerType.S64_TYPE.value a = a.toInt :=
    congrArg BitVec.toInt (BitVec.setWidth_eq a)
  by_cases clean : b.toNat < 64
  · have written : shr_impl .S64_TYPE a b = some (BitVec.sshiftRight a b.toNat) := if_pos clean
    have lower : b.u32.toNat = b.toNat := by
      rw [u32, BitVec.toNat_setWidth]
      omega
    refine iff_of_true ((shiftsRight_of written).mpr ?_) (.inl clean)
    rw [value_ediv_places, lower]
    refine value_sshiftRight rfl ?_
    rw [whole, BitVec.toInt_sshiftRight, Int.shiftRight_eq_div_pow]
    norm_cast
  · have amount := BitVec.toInt_eq_toNat_cond b.u32
    by_cases negative : a.toInt < 0
    · by_cases amountNegative : b.u32.toInt < 0
      · -- the lower half of -1 is cleared, and all 64 bits should be ones
        have written : shr_impl .S64_TYPE a b = some (store (-1) 0#32) :=
          (if_neg clean).trans ((if_pos negative).trans (if_pos amountNegative))
        have large : 2 ^ 31 ≤ b.u32.toNat := by
          split at amount <;> omega
        refine iff_of_false ?_ (by rw [shrExact_signed64]; omega)
        rw [shiftsRight_of written, value_ediv_places, value_ediv_of_all (n := b.u32.toNat) (by
          change 64 ≤ _
          omega), fill, whole, if_pos negative]
        decide
      · have written : shr_impl .S64_TYPE a b = some (-1) :=
          (if_neg clean).trans ((if_pos negative).trans (if_neg amountNegative))
        refine shiftsRight_fill written ?_ clean (.inr (by omega))
        rw [value_neg_one rfl, fill, whole, if_pos negative]
    · have written : shr_impl .S64_TYPE a b = some 0 := (if_neg clean).trans (if_neg negative)
      refine shiftsRight_fill written ?_ clean (.inl (by omega))
      rw [value_zero, fill, whole, if_neg negative]

theorem shr_impl_iff (accepted : type ∈ shrTypes) : ShiftsRight type a b ↔ ShrExact type a b := by
  simp only [shrTypes, shlTypes, List.cons_append, List.nil_append, List.mem_cons,
    List.not_mem_nil, or_false] at accepted
  rcases accepted with rfl | rfl | rfl | rfl | rfl | rfl | rfl | rfl | rfl
  · exact shr_impl_unsigned16
  · exact shr_impl_unsigned16
  · exact iff_of_true shr_impl_unsigned32 trivial
  · exact iff_of_true shr_impl_unsigned32 trivial
  · exact shr_impl_unsigned64
  · exact shr_impl_unsigned64
  · exact shr_impl_signed16
  · exact iff_of_true shr_impl_signed32 trivial
  · exact shr_impl_signed64

end

/-! ## Both directions -/

/-- A shift is clamped unless the members of the amount differ and it matters. -/
theorem shifts_clamp_iff (a b : RegValue) :
    (∀ type ∈ shlTypes, ShiftsLeft type a b ↔ ShlExact type a b) ∧
      ∀ type ∈ shrTypes, ShiftsRight type a b ↔ ShrExact type a b :=
  ⟨fun _ accepted => shl_impl_iff accepted, fun _ accepted => shr_impl_iff accepted⟩

/-- 1 shifted by 65536 places in 16 bits, and -1 by `2 ^ 31` places in 64 bits. -/
theorem shifts_not_clamped :
    ¬ ShiftsLeft .U16_TYPE 1 0x10000 ∧ ¬ ShiftsRight .S64_TYPE (-1) 0x80000000 := by
  constructor
  · rintro ⟨d, written, value⟩
    obtain rfl := Option.some.inj written
    exact absurd value (by decide)
  · rintro ⟨d, written, value⟩
    obtain rfl := Option.some.inj written
    exact absurd value (by decide)

end AesOnGpu.Ptx
