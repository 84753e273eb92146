import Mathlib

/-! # Carry chains

`add_impl` and `addp_impl` of `instructions.cc` for the integer types that have a
carry flag, and the double destination of `set_operand_value`, a predicate and a
register.  The predicate holds the zero, sign, carry and overflow flags.

A chain adds two numbers of several words, the lowest word first.  `addp` weighs
the carry flag as the bit of the predicate that holds it, so a chain is right
when no word but the last one carries (`addChain_exact_iff`).
-/

namespace AesOnGpu.Ptx

/-- The low 64 bits of a `ptx_reg_t`; these instructions use no other ones. -/
abbrev RegValue := BitVec 64

inductive IntType where
  | S8_TYPE
  | S16_TYPE
  | S32_TYPE
  | U8_TYPE
  | U16_TYPE
  | U32_TYPE
  deriving DecidableEq

def IntType.size : IntType → Nat
  | .S8_TYPE => 8
  | .S16_TYPE => 16
  | .S32_TYPE => 32
  | .U8_TYPE => 8
  | .U16_TYPE => 16
  | .U32_TYPE => 32

/-! ## The instructions -/

/-- The variables of the switch over the type. -/
structure Sum where
  data : RegValue
  overflow : RegValue
  carry : RegValue

def signedSum (mask signBit carryBit : RegValue) (shift : Nat) (src1 src2 extra : RegValue) : Sum :=
  let data := (src1 &&& mask) + (src2 &&& mask) + extra
  { data
    overflow :=
      if (src1 &&& signBit) - (src2 &&& signBit) = 0 then
        if (src1 &&& signBit) - (data &&& signBit) = 0 then 0 else 1
      else 0
    carry := (data &&& carryBit) >>> shift }

def unsignedSum (mask carryBit : RegValue) (shift : Nat) (src1 src2 extra : RegValue) : Sum :=
  let data := (src1 &&& mask) + (src2 &&& mask) + extra
  { data, overflow := 0, carry := (data &&& carryBit) >>> shift }

/-- The switch of both instructions; `extra` is what `addp` adds. -/
def sumOf : IntType → RegValue → RegValue → RegValue → Sum
  | .S8_TYPE => signedSum 0xFF 0x80 0x100 8
  | .S16_TYPE => signedSum 0xFFFF 0x8000 0x10000 16
  | .S32_TYPE => signedSum 0xFFFFFFFF 0x80000000 0x100000000 32
  | .U8_TYPE => unsignedSum 0xFF 0x100 8
  | .U16_TYPE => unsignedSum 0xFFFF 0x10000 16
  | .U32_TYPE => unsignedSum 0xFFFFFFFF 0x100000000 32

def add_sum (type : IntType) (src1 src2 : RegValue) : Sum := sumOf type src1 src2 0

/-- `src3_data.pred & 0x4` is the carry flag. -/
def addp_sum (type : IntType) (src1 src2 src3 : RegValue) : Sum := sumOf type src1 src2 (src3 &&& 0x4)

/-! ## The double destination -/

section

variable {Symbol : Type} [DecidableEq Symbol]

/-- The registers of the current frame, `m_regs.back()`. -/
abbrev Regs (Symbol : Type) := Symbol → RegValue

def set_reg (regs : Regs Symbol) (reg : Symbol) (value : RegValue) : Regs Symbol :=
  Function.update regs reg value

def zeroMask : IntType → RegValue
  | .S8_TYPE => 0x7F
  | .S16_TYPE => 0x7FFF
  | .S32_TYPE => 0x7FFFFFFF
  | .U8_TYPE => 0xFF
  | .U16_TYPE => 0xFFFF
  | .U32_TYPE => 0xFFFFFFFF

def predValue (type : IntType) (setValue : RegValue) : RegValue :=
  (if setValue &&& zeroMask type = 0 then 1 else 0) |||
    (if setValue &&& (1 <<< (type.size - 1)) ≠ 0 then 1 <<< 1 else 0)

def set_operand_value (regs : Regs Symbol) (pred reg : Symbol) (type : IntType) (data : RegValue) :
    Regs Symbol :=
  set_reg (set_reg regs pred (predValue type data)) reg data

def set_operand_value_flags (regs : Regs Symbol) (pred reg : Symbol) (type : IntType) (sum : Sum) :
    Regs Symbol :=
  let regs := set_operand_value regs pred reg type sum.data
  set_reg regs pred
    ((regs pred &&& ~~~0x0C#64) ||| ((sum.overflow &&& 0x01) <<< 3) ||| ((sum.carry &&& 0x01) <<< 2))

/-! ## Chains -/

/-- The operands of one instruction of a chain. -/
structure Step (Symbol : Type) where
  src1 : Symbol
  src2 : Symbol
  pred : Symbol
  dst : Symbol

def add_impl (type : IntType) (step : Step Symbol) (regs : Regs Symbol) : Regs Symbol :=
  set_operand_value_flags regs step.pred step.dst type
    (add_sum type (regs step.src1) (regs step.src2))

def addp_impl (type : IntType) (src3 : Symbol) (step : Step Symbol) (regs : Regs Symbol) :
    Regs Symbol :=
  set_operand_value_flags regs step.pred step.dst type
    (addp_sum type (regs step.src1) (regs step.src2) (regs src3))

/-- Every instruction after the first one takes the carry flag from the predicate
    of the one before it. -/
def addpChain (type : IntType) : Symbol → List (Step Symbol) → Regs Symbol → Regs Symbol
  | _, [], regs => regs
  | src3, step :: steps, regs => addpChain type step.pred steps (addp_impl type src3 step regs)

def addChain (type : IntType) : List (Step Symbol) → Regs Symbol → Regs Symbol
  | [], regs => regs
  | step :: steps, regs => addpChain type step.pred steps (add_impl type step regs)

/-- What one instruction writes is not a source or the destination of a later one. -/
structure Step.Before (earlier later : Step Symbol) : Prop where
  src1 : later.src1 ≠ earlier.pred ∧ later.src1 ≠ earlier.dst
  src2 : later.src2 ≠ earlier.pred ∧ later.src2 ≠ earlier.dst
  dst : later.dst ≠ earlier.dst
  pred : later.pred ≠ earlier.dst

structure Chain (steps : List (Step Symbol)) : Prop where
  apart : ∀ step ∈ steps, step.dst ≠ step.pred
  ordered : steps.Pairwise Step.Before

end

/-! ## One instruction -/

namespace IntType

variable (type : IntType)

theorem size_le : type.size ≤ 32 := by
  cases type <;> decide

theorem four_lt : 4 < 2 ^ type.size := by
  cases type <;> decide

end IntType

section

variable {type : IntType} {src1 src2 extra : RegValue}

theorem and_mask_toNat (value : RegValue) (size : Nat) (narrow : size ≤ 32) :
    (value &&& BitVec.ofNat 64 (2 ^ size - 1)).toNat = value.toNat % 2 ^ size := by
  have fits : 2 ^ size - 1 < 2 ^ 64 := by
    have := Nat.pow_le_pow_right (n := 2) (by omega) narrow
    omega
  rw [BitVec.toNat_and, BitVec.toNat_ofNat, Nat.mod_eq_of_lt fits, Nat.and_two_pow_sub_one_eq_mod]

theorem sumOf_data : (sumOf type src1 src2 extra).data =
    (src1 &&& BitVec.ofNat 64 (2 ^ type.size - 1)) +
      (src2 &&& BitVec.ofNat 64 (2 ^ type.size - 1)) + extra := by
  cases type <;> rfl

theorem sumOf_carry : (sumOf type src1 src2 extra).carry =
    ((sumOf type src1 src2 extra).data &&& BitVec.twoPow 64 type.size) >>> type.size := by
  cases type <;> rfl

theorem sumOf_data_toNat (small : extra.toNat ≤ 4) : (sumOf type src1 src2 extra).data.toNat =
    src1.toNat % 2 ^ type.size + src2.toNat % 2 ^ type.size + extra.toNat := by
  have size := Nat.pow_le_pow_right (n := 2) (by omega) type.size_le
  have below1 := Nat.mod_lt src1.toNat (Nat.two_pow_pos type.size)
  have below2 := Nat.mod_lt src2.toNat (Nat.two_pow_pos type.size)
  rw [sumOf_data, BitVec.toNat_add, BitVec.toNat_add, and_mask_toNat _ _ type.size_le,
    and_mask_toNat _ _ type.size_le]
  omega

theorem sumOf_carry_eq : (sumOf type src1 src2 extra).carry =
    if (sumOf type src1 src2 extra).data.getLsbD type.size then 1 else 0 := by
  have small : type.size < 64 := by have := type.size_le; omega
  rw [sumOf_carry]
  apply BitVec.eq_of_getLsbD_eq
  intro i below
  generalize (sumOf type src1 src2 extra).data = data
  by_cases first : i = 0
  · subst first
    cases bit : data.getLsbD type.size with
    | false => simpa [small] using bit
    | true => simpa [small] using bit
  · split <;> simp [first, below]

end

def carryFlag (pred : RegValue) : Bool := pred.getLsbD 2

theorem and_carryFlag (pred : RegValue) :
    pred &&& 0x4 = if carryFlag pred then 4 else 0 := by
  have mask : (0x4 : RegValue) = BitVec.twoPow 64 2 := by decide
  rw [mask, BitVec.and_twoPow, carryFlag]
  split <;> rfl

theorem carryFlag_flags (old overflow carry : RegValue) :
    carryFlag ((old &&& ~~~0x0C#64) ||| ((overflow &&& 0x01) <<< 3) |||
      ((carry &&& 0x01) <<< 2)) = carry.getLsbD 0 := by
  simp [carryFlag]

section

variable {Symbol : Type} [DecidableEq Symbol] {type : IntType} {regs : Regs Symbol}
  {step x y : Step Symbol} {steps : List (Step Symbol)} {src3 s : Symbol} {sum : Sum}

theorem flags_dst (apart : step.dst ≠ step.pred) :
    set_operand_value_flags regs step.pred step.dst type sum step.dst = sum.data := by
  simp [set_operand_value_flags, set_operand_value, set_reg, apart]

theorem flags_pred : carryFlag (set_operand_value_flags regs step.pred step.dst type sum step.pred) =
    sum.carry.getLsbD 0 := by
  simp only [set_operand_value_flags, set_reg, Function.update_self]
  exact carryFlag_flags _ _ _

theorem flags_other (notPred : s ≠ step.pred) (notDst : s ≠ step.dst) :
    set_operand_value_flags regs step.pred step.dst type sum s = regs s := by
  simp [set_operand_value_flags, set_operand_value, set_reg, notPred, notDst]

theorem addp_impl_of_clear (clear : carryFlag (regs src3) = false) :
    addp_impl type src3 step regs = add_impl type step regs := by
  rw [addp_impl, add_impl, addp_sum, add_sum, and_carryFlag, clear]
  rfl

theorem addpChain_of_clear (clear : carryFlag (regs src3) = false) :
    addpChain type src3 steps regs = addChain type steps regs := by
  cases steps with
  | nil => rfl
  | cons step steps => rw [addpChain, addChain, addp_impl_of_clear clear]

theorem addpChain_other (notWritten : ∀ step ∈ steps, s ≠ step.pred ∧ s ≠ step.dst) :
    addpChain type src3 steps regs s = regs s := by
  induction steps generalizing src3 regs with
  | nil => rfl
  | cons step steps ih =>
    obtain ⟨notPred, notDst⟩ := notWritten step List.mem_cons_self
    rw [addpChain, ih fun later member =>
      notWritten later (List.mem_cons_of_mem step member), addp_impl, flags_other notPred notDst]

/-! ## Words -/

def word (type : IntType) (regs : Regs Symbol) (reg : Symbol) : Nat :=
  (regs reg).toNat % 2 ^ type.size

/-- The numbers of which the chain adds the words. -/
def augend (type : IntType) (steps : List (Step Symbol)) (regs : Regs Symbol) : Nat :=
  Nat.ofDigits (2 ^ type.size) (steps.map fun step => word type regs step.src1)

def addend (type : IntType) (steps : List (Step Symbol)) (regs : Regs Symbol) : Nat :=
  Nat.ofDigits (2 ^ type.size) (steps.map fun step => word type regs step.src2)

/-- The destinations hold the words of the sum, and the carry flag of the last
    predicate what is left of it. -/
structure Exact (type : IntType) (steps : List (Step Symbol)) (regs : Regs Symbol) (sum : Nat) :
    Prop where
  words : ∀ i step, steps[i]? = some step →
    word type regs step.dst = sum / (2 ^ type.size) ^ i % 2 ^ type.size
  carry : ∀ step ∈ steps.getLast?,
    (carryFlag (regs step.pred)).toNat = sum / (2 ^ type.size) ^ steps.length

theorem sumOf_spec {extra : RegValue} {carry : Bool} (small : extra.toNat = 4 * carry.toNat)
    (apart : step.dst ≠ step.pred) :
    let after := set_operand_value_flags regs step.pred step.dst type
      (sumOf type (regs step.src1) (regs step.src2) extra)
    let total := word type regs step.src1 + word type regs step.src2 + 4 * carry.toNat
    word type after step.dst = total % 2 ^ type.size ∧
      carryFlag (after step.pred) = total.testBit type.size := by
  intro after total
  have atMost := Bool.toNat_le carry
  have data : (sumOf type (regs step.src1) (regs step.src2) extra).data.toNat = total := by
    rw [sumOf_data_toNat (by omega), small]
    rfl
  have dst : after step.dst = (sumOf type (regs step.src1) (regs step.src2) extra).data :=
    flags_dst apart
  have pred : carryFlag (after step.pred) = _ := flags_pred
  constructor
  · rw [word, dst, data]
  · rw [pred, sumOf_carry_eq, BitVec.getLsbD, BitVec.getLsbD, data]
    cases total.testBit type.size <;> rfl

theorem add_impl_spec (apart : step.dst ≠ step.pred) :
    let total := word type regs step.src1 + word type regs step.src2
    word type (add_impl type step regs) step.dst = total % 2 ^ type.size ∧
      carryFlag (add_impl type step regs step.pred) = total.testBit type.size :=
  sumOf_spec (show (0 : RegValue).toNat = 4 * false.toNat from rfl) apart

theorem addp_impl_spec (apart : step.dst ≠ step.pred) :
    let total := word type regs step.src1 + word type regs step.src2 +
      4 * (carryFlag (regs src3)).toNat
    word type (addp_impl type src3 step regs) step.dst = total % 2 ^ type.size ∧
      carryFlag (addp_impl type src3 step regs step.pred) = total.testBit type.size := by
  have extra : (regs src3 &&& 0x4).toNat = 4 * (carryFlag (regs src3)).toNat := by
    rw [and_carryFlag]
    cases carryFlag (regs src3) <;> rfl
  exact sumOf_spec extra apart

theorem word_other (notPred : s ≠ step.pred) (notDst : s ≠ step.dst) :
    word type (add_impl type step regs) s = word type regs s := by
  rw [word, add_impl, flags_other notPred notDst]
  rfl

omit [DecidableEq Symbol] in
theorem carry_of_words (a b : Symbol) :
    (word type regs a + word type regs b).testBit type.size =
      decide (2 ^ type.size ≤ word type regs a + word type regs b) := by
  have belowA : word type regs a < 2 ^ type.size := Nat.mod_lt _ (Nat.two_pow_pos _)
  have belowB : word type regs b < 2 ^ type.size := Nat.mod_lt _ (Nat.two_pow_pos _)
  rw [Nat.testBit_eq_decide_div_mod_eq]
  by_cases carries : 2 ^ type.size ≤ word type regs a + word type regs b
  · have quotient : (word type regs a + word type regs b) / 2 ^ type.size = 1 := by
      rw [Nat.div_eq_iff (Nat.two_pow_pos _)]
      omega
    simp [quotient, carries]
  · have quotient : (word type regs a + word type regs b) / 2 ^ type.size = 0 :=
      Nat.div_eq_of_lt (by omega)
    simp [quotient, carries]

/-! ## The result -/

theorem total_tail (chain : Chain (x :: steps)) :
    augend type (x :: steps) regs + addend type (x :: steps) regs =
      word type regs x.src1 + word type regs x.src2 + 2 ^ type.size *
        (augend type steps (add_impl type x regs) + addend type steps (add_impl type x regs)) := by
  have before := (List.pairwise_cons.mp chain.ordered).1
  have first : steps.map (fun step => word type (add_impl type x regs) step.src1) =
      steps.map fun step => word type regs step.src1 :=
    List.map_congr_left fun step member =>
      word_other (before step member).src1.1 (before step member).src1.2
  have second : steps.map (fun step => word type (add_impl type x regs) step.src2) =
      steps.map fun step => word type regs step.src2 :=
    List.map_congr_left fun step member =>
      word_other (before step member).src2.1 (before step member).src2.2
  rw [augend, augend, addend, addend, first, second, List.map_cons, List.map_cons,
    Nat.ofDigits_cons, Nat.ofDigits_cons]
  ring

theorem addChain_head (chain : Chain (x :: steps)) :
    addChain type (x :: steps) regs x.dst = add_impl type x regs x.dst := by
  have before := (List.pairwise_cons.mp chain.ordered).1
  rw [addChain]
  exact addpChain_other fun step member =>
    ⟨(before step member).pred.symm, (before step member).dst.symm⟩

omit [DecidableEq Symbol] in
theorem Chain.tail (chain : Chain (x :: steps)) : Chain steps where
  apart step member := chain.apart step (List.mem_cons_of_mem x member)
  ordered := (List.pairwise_cons.mp chain.ordered).2

def sumOfChain (type : IntType) (steps : List (Step Symbol)) (regs : Regs Symbol) : Nat :=
  augend type steps regs + addend type steps regs

theorem exact_cons_iff (chain : Chain (x :: y :: steps))
    (noCarry : word type regs x.src1 + word type regs x.src2 < 2 ^ type.size) :
    Exact type (x :: y :: steps) (addChain type (x :: y :: steps) regs)
        (sumOfChain type (x :: y :: steps) regs) ↔
      Exact type (y :: steps) (addChain type (y :: steps) (add_impl type x regs))
        (sumOfChain type (y :: steps) (add_impl type x regs)) := by
  have apart := chain.apart x List.mem_cons_self
  obtain ⟨first, flag⟩ := @add_impl_spec _ _ type regs _ apart
  have clear : carryFlag (add_impl type x regs x.pred) = false := by
    rw [flag, carry_of_words]
    simpa using noCarry
  have run : addChain type (x :: y :: steps) regs =
      addChain type (y :: steps) (add_impl type x regs) := addpChain_of_clear clear
  have total : sumOfChain type (x :: y :: steps) regs = word type regs x.src1 +
      word type regs x.src2 + 2 ^ type.size * sumOfChain type (y :: steps) (add_impl type x regs) :=
    total_tail chain
  have shifted (i : Nat) : sumOfChain type (x :: y :: steps) regs / (2 ^ type.size) ^ (i + 1) =
      sumOfChain type (y :: steps) (add_impl type x regs) / (2 ^ type.size) ^ i := by
    rw [total, pow_succ', ← Nat.div_div_eq_div_mul, Nat.add_mul_div_left _ _ (Nat.two_pow_pos _),
      Nat.div_eq_of_lt noCarry, Nat.zero_add]
  constructor
  · intro exact
    refine ⟨fun i step found => ?_, fun step last => ?_⟩
    · rw [← run, exact.words (i + 1) step found, shifted]
    · rw [← run, exact.carry step (by simpa using last), List.length_cons, shifted]
  · intro exact
    refine ⟨fun i step found => ?_, fun step last => ?_⟩
    · cases i with
      | zero =>
        obtain rfl := Option.some.inj found
        rw [word, addChain_head chain, ← word, first, total, pow_zero, Nat.div_one,
          Nat.add_mul_mod_self_left]
      | succ i => rw [run, exact.words i step found, shifted]
    · rw [run, exact.carry step (by simpa using last), List.length_cons (a := x), shifted]

theorem not_exact_of_carry (chain : Chain (x :: y :: steps))
    (carries : 2 ^ type.size ≤ word type regs x.src1 + word type regs x.src2) :
    ¬ Exact type (x :: y :: steps) (addChain type (x :: y :: steps) regs)
        (sumOfChain type (x :: y :: steps) regs) := by
  intro exact
  have before := (List.pairwise_cons.mp chain.tail.ordered).1
  obtain ⟨_, flag⟩ := @add_impl_spec _ _ type regs _ (chain.apart x List.mem_cons_self)
  have isSet : carryFlag (add_impl type x regs x.pred) = true := by
    rw [flag, carry_of_words]
    simpa using carries
  -- the second destination holds the second words and four
  have kept : addChain type (x :: y :: steps) regs y.dst =
      addp_impl type x.pred y (add_impl type x regs) y.dst :=
    addpChain_other fun step member => ⟨(before step member).pred.symm, (before step member).dst.symm⟩
  have written := (@addp_impl_spec _ _ type (add_impl type x regs) y x.pred
    (chain.tail.apart y List.mem_cons_self)).1
  rw [isSet, word, ← kept, ← word] at written
  have wanted := exact.words 1 y rfl
  -- the sum has the second words and one there
  have quotient : (word type regs x.src1 + word type regs x.src2) / 2 ^ type.size = 1 := by
    have belowA : word type regs x.src1 < 2 ^ type.size := Nat.mod_lt _ (Nat.two_pow_pos _)
    have belowB : word type regs x.src2 < 2 ^ type.size := Nat.mod_lt _ (Nat.two_pow_pos _)
    rw [Nat.div_eq_iff (Nat.two_pow_pos _)]
    omega
  rw [sumOfChain, total_tail chain, total_tail chain.tail, pow_one,
    Nat.add_mul_div_left _ _ (Nat.two_pow_pos _), quotient, written, ← Nat.add_assoc,
    Nat.add_mul_mod_self_left, Nat.add_comm 1] at wanted
  have congruent : 4 ≡ 1 [MOD 2 ^ type.size] := Nat.ModEq.add_left_cancel' _ wanted
  have divides : 2 ^ type.size ∣ 4 - 1 := (Nat.modEq_iff_dvd' (by omega)).mp congruent.symm
  have := Nat.le_of_dvd (by omega) divides
  have := type.four_lt
  omega

/-- A chain of additions is exact when no word but the last one carries. -/
theorem addChain_exact_iff (type : IntType) {steps : List (Step Symbol)} (chain : Chain steps)
    (regs : Regs Symbol) :
    Exact type steps (addChain type steps regs) (augend type steps regs + addend type steps regs) ↔
      ∀ step ∈ steps.dropLast,
        word type regs step.src1 + word type regs step.src2 < 2 ^ type.size := by
  change Exact type steps (addChain type steps regs) (sumOfChain type steps regs) ↔ _
  induction steps generalizing regs with
  | nil => exact iff_of_true ⟨by simp, by simp⟩ (by simp)
  | cons x steps ih =>
    cases steps with
    | nil =>
      obtain ⟨first, flag⟩ := @add_impl_spec _ _ type regs _ (chain.apart x List.mem_cons_self)
      have total : sumOfChain type [x] regs = word type regs x.src1 + word type regs x.src2 := by
        simp [sumOfChain, augend, addend]
      refine iff_of_true ⟨fun i step found => ?_, fun step last => ?_⟩ (by simp)
      · cases i with
        | zero =>
          obtain rfl := Option.some.inj found
          rw [total, pow_zero, Nat.div_one]
          exact first
        | succ i => simp at found
      · obtain rfl : x = step := by simpa using last
        have run : addChain type [x] regs = add_impl type x regs := rfl
        rw [run, flag, total, List.length_singleton, pow_one]
        have belowA : word type regs x.src1 < 2 ^ type.size := Nat.mod_lt _ (Nat.two_pow_pos _)
        have belowB : word type regs x.src2 < 2 ^ type.size := Nat.mod_lt _ (Nat.two_pow_pos _)
        rw [Nat.testBit_eq_decide_div_mod_eq]
        have atMost : (word type regs x.src1 + word type regs x.src2) / 2 ^ type.size < 2 := by
          rw [Nat.div_lt_iff_lt_mul (Nat.two_pow_pos _)]
          omega
        interval_cases (word type regs x.src1 + word type regs x.src2) / 2 ^ type.size <;> rfl
    | cons y steps =>
      rw [List.dropLast_cons_cons, List.forall_mem_cons]
      by_cases noCarry : word type regs x.src1 + word type regs x.src2 < 2 ^ type.size
      · rw [exact_cons_iff chain noCarry, ih chain.tail, and_iff_right noCarry]
        have before := (List.pairwise_cons.mp chain.ordered).1
        refine forall₂_congr fun step member => ?_
        have later := before step (List.mem_of_mem_dropLast member)
        rw [word_other later.src1.1 later.src1.2, word_other later.src2.1 later.src2.2]
      · exact iff_of_false (not_exact_of_carry chain (by omega)) fun both => noCarry both.1

end

/-! ## A chain with a carry -/

/-- Two words of eight bits. -/
def byteChain : List (Step Nat) := [⟨0, 1, 10, 4⟩, ⟨2, 3, 10, 5⟩]

theorem byteChain_chain : Chain byteChain where
  apart := by simp [byteChain]
  ordered := List.pairwise_pair.mpr ⟨by decide, by decide, by decide, by decide⟩

/-- 255 + 1. -/
def byteRegs : Regs Nat := fun reg => if reg = 0 then 255 else if reg = 1 then 1 else 0

/-- 255 + 1 is 1024 in two words of eight bits. -/
theorem byteChain_wrong : ¬ Exact .U8_TYPE byteChain (addChain .U8_TYPE byteChain byteRegs)
    (augend .U8_TYPE byteChain byteRegs + addend .U8_TYPE byteChain byteRegs) := by
  intro exact
  exact absurd (exact.words 1 _ rfl) (by decide)

theorem addChain_exact_byte : Exact .U8_TYPE byteChain
    (addChain .U8_TYPE byteChain fun _ => 100)
    (augend .U8_TYPE byteChain (fun _ => 100) + addend .U8_TYPE byteChain fun _ => 100) :=
  (addChain_exact_iff .U8_TYPE byteChain_chain _).mpr (by decide)

end AesOnGpu.Ptx
