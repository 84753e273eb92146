import AesOnGpu.Ptx.Register

/-! # Condition flags

The destination of `set_operand_value` that is a predicate and a register, for every
integer type, and the guards of `ptx_exec_inst` that test the flags of the predicate
through `pred_lookup`.

`1 << 63` is a shift of an `int` and no number in particular; `overlong` stands for what
the machine makes of it.
-/

namespace AesOnGpu.Ptx.Flags

open RegValue

/-! ## The flags -/

/-- The switch over the type: the signed cases leave the sign bit out. -/
def zeroBit (type : IntegerType) (setValue : RegValue) : RegValue :=
  match type with
  | .S8_TYPE => if setValue.u8 &&& 0x7F = 0 then 1 else 0
  | .S16_TYPE => if setValue.u16 &&& 0x7FFF = 0 then 1 else 0
  | .S32_TYPE => if setValue.u32 &&& 0x7FFFFFFF = 0 then 1 else 0
  | .S64_TYPE => if setValue &&& 0x7FFFFFFFFFFFFFFF = 0 then 1 else 0
  | .U8_TYPE | .B8_TYPE => if setValue.u8 = 0 then 1 else 0
  | .U16_TYPE | .B16_TYPE => if setValue.u16 = 0 then 1 else 0
  | .U32_TYPE | .B32_TYPE => if setValue.u32 = 0 then 1 else 0
  | .U64_TYPE | .B64_TYPE => if setValue = 0 then 1 else 0

/-- `1 << n` of an `int`. -/
def shiftedOne (overlong : Nat → BitVec 32) (n : Nat) : BitVec 32 :=
  if n < 32 then BitVec.twoPow 32 n else overlong n

def signBit (overlong : Nat → BitVec 32) (type : IntegerType) (setValue : RegValue) : RegValue :=
  if setValue.u32 &&& shiftedOne overlong (type.width - 1) ≠ 0 then 1 <<< 1 else 0

def predValue (overlong : Nat → BitVec 32) (type : IntegerType) (setValue : RegValue) : RegValue :=
  zeroBit type setValue ||| signBit overlong type setValue

/-- The part of the register that is written: all of it, or one of its lower halves. `~(0xFFFF)`
    is an `int` and keeps the upper word, `~(0xFFFF0000)` an `unsigned` and clears it. -/
def written (lohi : Nat) (old data : RegValue) : RegValue :=
  match lohi with
  | 1 => (old &&& ~~~0xFFFF#64) + (data &&& 0xFFFF)
  | 2 => (old &&& (~~~0xFFFF0000#32).setWidth 64) + ((data <<< 16) &&& 0xFFFF0000)
  | _ => data

section

variable {Symbol : Type} [DecidableEq Symbol]

def set_operand_value (overlong : Nat → BitVec 32) (regs : Regs Symbol) (predName regName : Symbol)
    (lohi : Nat) (type : IntegerType) (data : RegValue) : Regs Symbol :=
  let setValue := written lohi (regs regName) data
  set_reg (set_reg regs predName (predValue overlong type data)) regName setValue

end

/-! ## Guards -/

/-- The rows are the conditions, the columns the four flags. -/
def pred_table : List (List Nat) :=
  [[0, 0, 0, 0, 0, 0, 0, 0, 0, 0, 0, 0, 0, 0, 0, 0],
   [0, 0, 1, 0, 0, 0, 1, 0, 1, 1, 0, 1, 1, 1, 0, 1],
   [0, 1, 0, 0, 0, 1, 0, 0, 0, 1, 0, 0, 0, 1, 0, 0],
   [0, 1, 1, 0, 0, 1, 1, 0, 1, 1, 0, 0, 1, 1, 0, 0],
   [1, 0, 0, 0, 1, 0, 0, 0, 0, 0, 1, 0, 0, 0, 1, 0],
   [1, 0, 1, 0, 1, 0, 1, 0, 1, 0, 1, 0, 1, 0, 1, 0],
   [1, 1, 0, 0, 1, 1, 0, 0, 0, 0, 1, 1, 0, 0, 1, 1],
   [1, 1, 1, 0, 1, 1, 1, 0, 1, 1, 1, 0, 1, 1, 1, 0],
   [0, 0, 0, 1, 0, 0, 0, 1, 0, 0, 0, 1, 0, 0, 0, 1],
   [0, 0, 1, 1, 0, 0, 1, 1, 1, 1, 0, 0, 1, 1, 0, 0],
   [0, 1, 0, 1, 0, 1, 0, 1, 0, 1, 0, 1, 0, 1, 0, 1],
   [0, 1, 1, 1, 0, 1, 1, 1, 1, 1, 0, 1, 1, 1, 0, 1],
   [1, 0, 0, 1, 1, 0, 0, 1, 0, 0, 1, 1, 0, 0, 1, 1],
   [1, 0, 1, 1, 1, 0, 1, 1, 1, 0, 1, 1, 1, 0, 1, 1],
   [1, 1, 0, 1, 1, 1, 0, 1, 0, 0, 1, 0, 0, 0, 1, 0],
   [1, 1, 1, 1, 1, 1, 1, 1, 1, 1, 1, 1, 1, 1, 1, 1],
   [0, 0, 0, 0, 0, 0, 0, 0, 1, 1, 1, 1, 1, 1, 1, 1],
   [0, 0, 0, 0, 1, 1, 1, 1, 0, 0, 0, 0, 1, 1, 1, 1],
   [0, 0, 0, 0, 1, 0, 1, 0, 0, 0, 0, 0, 1, 0, 1, 0],
   [0, 0, 1, 1, 0, 0, 1, 1, 0, 0, 1, 1, 0, 0, 1, 1],
   [0, 0, 0, 0, 0, 0, 0, 0, 0, 0, 0, 0, 0, 0, 0, 0],
   [0, 0, 0, 0, 0, 0, 0, 0, 0, 0, 0, 0, 0, 0, 0, 0],
   [0, 0, 0, 0, 0, 0, 0, 0, 0, 0, 0, 0, 0, 0, 0, 0],
   [0, 0, 0, 0, 0, 0, 0, 0, 0, 0, 0, 0, 0, 0, 0, 0],
   [0, 0, 0, 0, 0, 0, 0, 0, 0, 0, 0, 0, 0, 0, 0, 0],
   [0, 0, 0, 0, 0, 0, 0, 0, 0, 0, 0, 0, 0, 0, 0, 0],
   [0, 0, 0, 0, 0, 0, 0, 0, 0, 0, 0, 0, 0, 0, 0, 0],
   [0, 0, 0, 0, 0, 0, 0, 0, 0, 0, 0, 0, 0, 0, 0, 0],
   [1, 1, 0, 0, 1, 1, 0, 0, 1, 1, 0, 0, 1, 1, 0, 0],
   [1, 1, 1, 1, 0, 1, 0, 1, 1, 1, 1, 1, 0, 1, 0, 1],
   [1, 1, 1, 1, 0, 0, 0, 0, 1, 1, 1, 1, 0, 0, 0, 0],
   [1, 1, 1, 1, 1, 1, 1, 1, 0, 0, 0, 0, 0, 0, 0, 0]]

def pred_lookup (condition flags : Nat) : Bool := (pred_table.getD condition []).getD flags 0 ≠ 0

/-- The modes of `pred_spec`; a mode comes without a negation. -/
inductive PredMod where
  | plain (pred_neg : Bool)
  | lt | eq | le | ne | ge | equ | gtu | neu | cf | sf | nsf
  deriving DecidableEq

def PredMod.condition : PredMod → Nat
  | plain _ => 0
  | lt => 1 | eq => 2 | le => 3 | ne => 5 | ge => 6 | equ => 10 | gtu => 12 | neu => 13
  | cf => 17 | sf => 19 | nsf => 28

/-- The zero flag is inverted: a plain guard holds when it is clear. -/
def skip (pred_mod : PredMod) (pred_value : RegValue) : Bool :=
  match pred_mod with
  | .plain pred_neg => xor (pred_value.getLsbD 0) pred_neg
  | mode => !pred_lookup mode.condition (pred_value &&& 0x000F).toNat

/-! ## What flags and guards say -/

def topBit (type : IntegerType) (data : RegValue) : Bool := data.getLsbD (type.width - 1)

structure FlagsDescribe (type : IntegerType) (data pred : RegValue) : Prop where
  zero : pred.getLsbD 0 = decide (type.value data = 0)
  sign : pred.getLsbD 1 = topBit type data

/-- A guard that tests equality or the sign executes the instruction as the value
    says. -/
structure GuardsDecide (type : IntegerType) (data pred : RegValue) : Prop where
  plain : ∀ pred_neg, skip (.plain pred_neg) pred = xor (decide (type.value data = 0)) pred_neg
  equal : ∀ mode ∈ [PredMod.eq, .equ], skip mode pred = !decide (type.value data = 0)
  unequal : ∀ mode ∈ [PredMod.ne, .neu], skip mode pred = decide (type.value data = 0)
  negative : skip .sf pred = !topBit type data
  nonnegative : skip .nsf pred = topBit type data

/-- The most negative values of the signed types have their zero flag set, and bit 63 is looked
    for in the lower half. -/
def FlagsExact (overlong : Nat → BitVec 32) (type : IntegerType) (data : RegValue) : Prop :=
  match type with
  | .S8_TYPE | .S16_TYPE | .S32_TYPE => type.value data ≠ type.least
  | .S64_TYPE => type.value data ≠ type.least ∧
    (data.u32 &&& overlong 63 ≠ 0 ↔ type.value data < 0)
  | .U64_TYPE | .B64_TYPE => data.u32 &&& overlong 63 ≠ 0 ↔ data.getLsbD 63 = true
  | _ => True

/-! ## The zero flag -/

section

variable {overlong : Nat → BitVec 32} {type : IntegerType} {data pred : RegValue}

theorem and_mask_eq_zero_iff {w : Nat} (y : BitVec (w + 1)) :
    y &&& BitVec.ofNat (w + 1) (2 ^ w - 1) = 0 ↔ y.toInt = 0 ∨ y.toInt = -2 ^ w := by
  have small : 2 ^ w - 1 < 2 ^ (w + 1) := by
    have := Nat.two_pow_pos w
    omega
  have below := y.isLt
  rw [← BitVec.toNat_inj, BitVec.toNat_and, BitVec.toNat_ofNat, Nat.mod_eq_of_lt small,
    Nat.and_two_pow_sub_one_eq_mod, BitVec.toInt_eq_toNat_cond]
  have half : 2 ^ (w + 1) = 2 * 2 ^ w := pow_succ' 2 w
  have cast : ((2 ^ w : Nat) : Int) = 2 ^ w := by norm_cast
  rw [half] at below ⊢
  have divided := Nat.div_add_mod y.toNat (2 ^ w)
  have quotient : y.toNat / 2 ^ w < 2 := by
    rw [Nat.div_lt_iff_lt_mul (Nat.two_pow_pos w)]
    exact below
  have rest := Nat.mod_lt y.toNat (Nat.two_pow_pos w)
  change y.toNat % 2 ^ w = 0 ↔ _
  push_cast
  interval_cases y.toNat / 2 ^ w <;> split <;> omega

def ZeroFlagSet (type : IntegerType) (data : RegValue) : Prop :=
  match type with
  | .S8_TYPE | .S16_TYPE | .S32_TYPE | .S64_TYPE =>
    type.value data = 0 ∨ type.value data = type.least
  | _ => type.value data = 0

theorem flag_cases {tested said : Prop} [Decidable tested] {bit : RegValue} (same : tested ↔ said) :
    (if tested then bit else 0) = bit ∧ said ∨ (if tested then bit else 0) = 0 ∧ ¬ said := by
  by_cases holds : tested
  · exact .inl ⟨if_pos holds, same.mp holds⟩
  · exact .inr ⟨if_neg holds, fun said => holds (same.mpr said)⟩

theorem eq_zero_iff {w : Nat} (y : BitVec w) : y = 0 ↔ (y.toNat : Int) = 0 := by
  rw [← BitVec.toNat_inj, Int.natCast_eq_zero]
  simp

theorem zeroBit_cases (type : IntegerType) (data : RegValue) :
    zeroBit type data = 1 ∧ ZeroFlagSet type data ∨
      zeroBit type data = 0 ∧ ¬ ZeroFlagSet type data := by
  cases type with
  | S8_TYPE => exact flag_cases (and_mask_eq_zero_iff data.u8)
  | S16_TYPE => exact flag_cases (and_mask_eq_zero_iff data.u16)
  | S32_TYPE => exact flag_cases (and_mask_eq_zero_iff data.u32)
  | S64_TYPE =>
    have whole : IntegerType.S64_TYPE.value data = data.toInt :=
      congrArg BitVec.toInt (BitVec.setWidth_eq data)
    rw [ZeroFlagSet, whole]
    exact flag_cases (and_mask_eq_zero_iff (w := 63) data)
  | U8_TYPE | B8_TYPE => exact flag_cases (eq_zero_iff data.u8)
  | U16_TYPE | B16_TYPE => exact flag_cases (eq_zero_iff data.u16)
  | U32_TYPE | B32_TYPE => exact flag_cases (eq_zero_iff data.u32)
  | U64_TYPE | B64_TYPE =>
    have whole : data.setWidth 64 = data := BitVec.setWidth_eq data
    refine flag_cases ?_
    change data = 0 ↔ ((data.setWidth 64).toNat : Int) = 0
    rw [whole]
    exact eq_zero_iff data

/-! ## The sign flag -/

def SignFlagSet (overlong : Nat → BitVec 32) (type : IntegerType) (data : RegValue) : Prop :=
  if type.width = 64 then data.u32 &&& overlong 63 ≠ 0 else topBit type data = true

theorem signBit_cases (overlong : Nat → BitVec 32) (type : IntegerType) (data : RegValue) :
    signBit overlong type data = 2 ∧ SignFlagSet overlong type data ∨
      signBit overlong type data = 0 ∧ ¬ SignFlagSet overlong type data := by
  refine flag_cases ?_
  rw [SignFlagSet, shiftedOne, topBit]
  have positive := type.width_pos
  by_cases long : type.width = 64
  · rw [if_pos long, if_neg (by omega), long]
  · have short : type.width - 1 < 32 := by
      cases type <;> first | decide | exact absurd rfl long
    have inside : data.u32.getLsbD (type.width - 1) = data.getLsbD (type.width - 1) := by
      rw [u32, BitVec.getLsbD_setWidth]
      simp [short]
    rw [if_neg long, if_pos short, BitVec.and_twoPow, inside]
    split
    case isTrue set =>
      refine iff_of_true (fun zero => ?_) set
      have bit := congrArg (BitVec.getLsbD · (type.width - 1)) zero
      simp [short] at bit
    case isFalse clear => exact iff_of_false (fun nonzero => nonzero rfl) clear

/-! ## Both flags -/

theorem predValue_zero : (predValue overlong type data).getLsbD 0 = true ↔ ZeroFlagSet type data := by
  rw [predValue]
  rcases zeroBit_cases type data with ⟨zero, said⟩ | ⟨zero, said⟩ <;>
    rcases signBit_cases overlong type data with ⟨sign, -⟩ | ⟨sign, -⟩ <;>
    simp [zero, sign, said]

theorem predValue_sign :
    (predValue overlong type data).getLsbD 1 = true ↔ SignFlagSet overlong type data := by
  rw [predValue]
  rcases zeroBit_cases type data with ⟨zero, -⟩ | ⟨zero, -⟩ <;>
    rcases signBit_cases overlong type data with ⟨sign, said⟩ | ⟨sign, said⟩ <;>
    simp [zero, sign, said]

theorem pred_lookup_eq : ∀ flags < 16,
    pred_lookup 2 flags = (flags.testBit 0 && !flags.testBit 1) ∧
    pred_lookup 10 flags = flags.testBit 0 ∧
    pred_lookup 5 flags = !flags.testBit 0 ∧
    pred_lookup 13 flags = !(flags.testBit 0 && !flags.testBit 1) ∧
    pred_lookup 19 flags = flags.testBit 1 ∧
    pred_lookup 28 flags = !flags.testBit 1 := by
  decide

theorem flags_lt (pred : RegValue) : (pred &&& 0x000F).toNat < 16 := by
  have masked := and_mask_toNat pred 4 (by omega)
  have below := Nat.mod_lt pred.toNat (Nat.two_pow_pos 4)
  exact masked.trans_lt below

theorem flags_testBit {i : Nat} (flag : i < 4) :
    (pred &&& 0x000F).toNat.testBit i = pred.getLsbD i := by
  have masked : (pred &&& 0x000F).toNat = pred.toNat % 2 ^ 4 := and_mask_toNat pred 4 (by omega)
  rw [masked, Nat.testBit_mod_two_pow, BitVec.getLsbD]
  simp [flag]

theorem topBit_of_zero (zero : type.value data = 0) : topBit type data = false := by
  have positive := type.width_pos
  have nothing : data.setWidth type.width = 0 := by
    cases signed : type.signed with
    | true =>
      rw [IntegerType.value_of_signed signed] at zero
      exact BitVec.toInt_inj.mp (zero.trans BitVec.toInt_zero.symm)
    | false =>
      rw [IntegerType.value_of_unsigned signed] at zero
      exact (eq_zero_iff _).mpr zero
  have bit := congrArg (BitVec.getLsbD · (type.width - 1)) nothing
  have inside : type.width - 1 < type.width := by omega
  simpa [topBit, BitVec.getLsbD_setWidth, inside] using bit

theorem guardsDecide_of_flags (describe : FlagsDescribe type data pred) :
    GuardsDecide type data pred := by
  obtain ⟨eq, equ, ne, neu, sf, nsf⟩ := pred_lookup_eq _ (flags_lt pred)
  have zeroBit := @flags_testBit pred 0 (by omega)
  have signBit := @flags_testBit pred 1 (by omega)
  rw [describe.zero] at zeroBit
  rw [describe.sign] at signBit
  simp only [zeroBit, signBit] at eq equ ne neu sf nsf
  have both : (decide (type.value data = 0) && !topBit type data) =
      decide (type.value data = 0) := by
    by_cases zero : type.value data = 0
    · simp [zero, topBit_of_zero zero]
    · simp [zero]
  rw [both] at eq neu
  constructor
  · intro pred_neg
    rw [skip, describe.zero]
  · intro mode member
    rcases List.mem_pair.mp member with rfl | rfl
    · exact congrArg (!·) eq
    · exact congrArg (!·) equ
  · intro mode member
    rcases List.mem_pair.mp member with rfl | rfl
    · exact (congrArg (!·) ne).trans (Bool.not_not _)
    · exact (congrArg (!·) neu).trans (Bool.not_not _)
  · exact congrArg (!·) sf
  · exact (congrArg (!·) nsf).trans (Bool.not_not _)

/-! ## The result -/

theorem topBit_iff_negative (signed : type.signed = true) :
    topBit type data = true ↔ type.value data < 0 := by
  have top : topBit type data = (data.setWidth type.width).msb := by
    have positive := type.width_pos
    have inside : type.width - 1 < type.width := by omega
    rw [topBit, BitVec.msb_eq_getLsbD_last, BitVec.getLsbD_setWidth]
    simp [inside]
  rw [top, IntegerType.value_of_signed signed, BitVec.msb_eq_toInt, decide_eq_true_iff]

theorem flagsDescribe_iff : FlagsDescribe type data (predValue overlong type data) ↔
    (ZeroFlagSet type data ↔ type.value data = 0) ∧
      (SignFlagSet overlong type data ↔ topBit type data = true) := by
  rw [← @predValue_zero overlong, ← predValue_sign]
  constructor
  · intro describe
    rw [describe.zero, describe.sign]
    simp
  · rintro ⟨zero, sign⟩
    refine ⟨?_, Bool.eq_iff_iff.mpr sign⟩
    rw [Bool.eq_iff_iff, zero, decide_eq_true_iff]

theorem zero_or_least_iff {v least : Int} (apart : least ≠ 0) :
    (v = 0 ∨ v = least ↔ v = 0) ↔ v ≠ least := by
  constructor
  · rintro same rfl
    exact apart (same.mp (.inr rfl))
  · intro other
    simp [other]

theorem flagsExact_iff : FlagsDescribe type data (predValue overlong type data) ↔
    FlagsExact overlong type data := by
  rw [flagsDescribe_iff]
  cases type with
  | S8_TYPE | S16_TYPE | S32_TYPE =>
    exact (and_iff_left Iff.rfl).trans (zero_or_least_iff (by decide))
  | S64_TYPE =>
    exact and_congr (zero_or_least_iff (by decide))
      (iff_congr Iff.rfl (topBit_iff_negative rfl))
  | U8_TYPE | U16_TYPE | U32_TYPE | B8_TYPE | B16_TYPE | B32_TYPE =>
    exact iff_of_true ⟨Iff.rfl, Iff.rfl⟩ trivial
  | U64_TYPE | B64_TYPE => exact and_iff_right Iff.rfl

variable {Symbol : Type} [DecidableEq Symbol] {predName regName : Symbol}

/-- The flags describe what is written, and guards on them decide by it, except for the most
    negative values and signs of 64 bits. -/
theorem flags_and_guards_iff (overlong : Nat → BitVec 32) (regs : Regs Symbol) (lohi : Nat)
    (type : IntegerType) (data : RegValue) (apart : predName ≠ regName) :
    FlagsDescribe type data
          (set_operand_value overlong regs predName regName lohi type data predName) ∧
        GuardsDecide type data
          (set_operand_value overlong regs predName regName lohi type data predName) ↔
      FlagsExact overlong type data := by
  have after : set_operand_value overlong regs predName regName lohi type data predName =
      predValue overlong type data := by
    simp [set_operand_value, set_reg, apart]
  rw [after, and_iff_left_of_imp guardsDecide_of_flags, flagsExact_iff]

end

/-- The most negative value of 32 bits has its zero flag set, and the sign of a value of 64 bits
    is missed. -/
theorem flags_wrong :
    ¬ FlagsDescribe .S32_TYPE 0x80000000 (set_operand_value (fun _ => 0x80000000#32) (fun _ => 0)
        0 1 0 .S32_TYPE 0x80000000 0) ∧
      ¬ FlagsDescribe .U64_TYPE (1 <<< 63) (set_operand_value (fun _ => 0x80000000#32)
        (fun _ => 0) 0 1 0 .U64_TYPE (1 <<< 63) 0) :=
  ⟨fun describe => absurd describe.zero (by decide),
    fun describe => absurd describe.sign (by decide)⟩

theorem flags_and_guards_minus_one :
    FlagsDescribe .S32_TYPE 0xFFFFFFFF (set_operand_value (fun _ => 0x80000000#32) (fun _ => 0)
        0 1 0 .S32_TYPE 0xFFFFFFFF 0) ∧
      GuardsDecide .S32_TYPE 0xFFFFFFFF (set_operand_value (fun _ => 0x80000000#32) (fun _ => 0)
        0 1 0 .S32_TYPE 0xFFFFFFFF 0) :=
  (flags_and_guards_iff _ _ 0 .S32_TYPE 0xFFFFFFFF (show 0 ≠ 1 by decide)).mpr
    (show IntegerType.value _ _ ≠ _ by decide)

end AesOnGpu.Ptx.Flags
