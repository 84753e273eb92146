import AesOnGpu.Lib.FinLiterals

/-! # The AES of FIPS 197

Bytes are elements of GF(2⁸).  A state has a byte for each row and column, and a word
has four bytes, the first of them byte 0.  The key has `nk` words.
-/

namespace Fips197

abbrev Byte := BitVec 8

abbrev Word := Fin 4 → Byte

/-- The byte in a row and a column. -/
abbrev State := Fin 4 → Fin 4 → Byte

/-! ## Bytes -/

/-- Multiplication by {02}. -/
def xtime (b : Byte) : Byte := (b <<< 1) ^^^ (if b.msb then 0x1b else 0)

/-- The sum of the products of `b` with the powers of {02} that `a` has, from the given
    one on. -/
def mulFrom (a b : Byte) : Nat → Byte
  | 0 => 0
  | n + 1 => (if a.getLsbD (7 - n) then b else 0) ^^^ mulFrom a (xtime b) n

/-- The product modulo x⁸ + x⁴ + x³ + x + 1. -/
def mul (a b : Byte) : Byte := mulFrom a b 8

/-- The inverse of a byte that is not zero, and zero of zero: the 254th power. -/
def inverse (b : Byte) : Byte :=
  let b2 := mul b b
  let b4 := mul b2 b2
  let b8 := mul b4 b4
  let b16 := mul b8 b8
  let b32 := mul b16 b16
  let b64 := mul b32 b32
  let b128 := mul b64 b64
  mul b2 (mul b4 (mul b8 (mul b16 (mul b32 (mul b64 b128)))))

def affine (x : Byte) : Byte :=
  x ^^^ x.rotateLeft 1 ^^^ x.rotateLeft 2 ^^^ x.rotateLeft 3 ^^^ x.rotateLeft 4 ^^^ 0x63

/-- The inverse, then the affine map. -/
def sBox (b : Byte) : Byte := affine (inverse b)

/-! ### Products of numbers

A product of bytes is computed faster on the numbers that they stand for.
-/

def xtimeNat (b : Nat) : Nat := bif Nat.ble 128 b then (2 * b) ^^^ 0x11b else 2 * b

def mulFromNat (a b : Nat) : Nat → Nat
  | 0 => 0
  | n + 1 => (bif Nat.beq (a % 2) 1 then b else 0) ^^^ mulFromNat (a / 2) (xtimeNat b) n

def mulNat (a b : Nat) : Nat := mulFromNat a b 8

def inverseNat (b : Nat) : Nat :=
  let b2 := mulNat b b
  let b4 := mulNat b2 b2
  let b8 := mulNat b4 b4
  let b16 := mulNat b8 b8
  let b32 := mulNat b16 b16
  let b64 := mulNat b32 b32
  let b128 := mulNat b64 b64
  mulNat b2 (mulNat b4 (mulNat b8 (mulNat b16 (mulNat b32 (mulNat b64 b128)))))

theorem xtime_toNat (b : Byte) : (xtime b).toNat = xtimeNat b.toNat := by
  revert b
  decide

theorem mulFrom_toNat {n : Nat} (a b : Byte) (below : n ≤ 8) :
    (mulFrom a b n).toNat = mulFromNat (a.toNat / 2 ^ (8 - n)) b.toNat n := by
  induction n generalizing b with
  | zero => rfl
  | succ n ih =>
    have shift : 8 - (n + 1) = 7 - n := by omega
    have bit : a.getLsbD (7 - n) = Nat.beq (a.toNat / 2 ^ (7 - n) % 2) 1 := by
      rw [BitVec.getLsbD, Nat.testBit_eq_decide_div_mod_eq, Bool.eq_iff_iff]
      simp
    have rest : a.toNat / 2 ^ (7 - n) / 2 = a.toNat / 2 ^ (8 - n) := by
      rw [Nat.div_div_eq_div_mul, ← Nat.pow_succ, show (7 - n).succ = 8 - n by omega]
    rw [mulFrom, mulFromNat, BitVec.toNat_xor, ih _ (by omega), xtime_toNat, shift, rest, ← bit]
    cases a.getLsbD (7 - n) <;> simp

theorem mul_toNat (a b : Byte) : (mul a b).toNat = mulNat a.toNat b.toNat := by
  rw [mul, mulFrom_toNat a b (Nat.le_refl 8)]
  simp [mulNat]

theorem mul_eq (a b : Byte) : mul a b = BitVec.ofNat 8 (mulNat a.toNat b.toNat) := by
  rw [← mul_toNat, BitVec.ofNat_toNat, BitVec.setWidth_eq]

theorem inverse_toNat (b : Byte) : (inverse b).toNat = inverseNat b.toNat := by
  simp only [inverse, inverseNat, mul_toNat]

theorem sBox_eq (b : Byte) : sBox b = affine (BitVec.ofNat 8 (inverseNat b.toNat)) := by
  rw [sBox, ← inverse_toNat, BitVec.ofNat_toNat, BitVec.setWidth_eq]

/-! ## The cipher -/

def subBytes (s : State) : State := fun r c => sBox (s r c)

/-- Row `r` moves `r` columns to the left. -/
def shiftRows (s : State) : State := fun r c => s r (c + r)

def mixColumns (s : State) : State := fun r c =>
  mul 0x02 (s r c) ^^^ mul 0x03 (s (r + 1) c) ^^^ s (r + 2) c ^^^ s (r + 3) c

/-- Adds the four words of the schedule `w` from word `first` on to the columns. -/
def addRoundKey (w : Nat → Word) (first : Nat) (s : State) : State :=
  fun r c => s r c ^^^ w (first + c) r

def round (w : Nat → Word) (n : Nat) (s : State) : State :=
  addRoundKey w (4 * n) (mixColumns (shiftRows (subBytes s)))

/-- The state after the first addition and `n` rounds. -/
def stateAfter (w : Nat → Word) (s : State) : Nat → State
  | 0 => addRoundKey w 0 s
  | n + 1 => round w (n + 1) (stateAfter w s n)

/-- The last round does not mix the columns. -/
def finalRound (w : Nat → Word) (nr : Nat) (s : State) : State :=
  addRoundKey w (4 * nr) (shiftRows (subBytes s))

def cipher (w : Nat → Word) (nr : Nat) (s : State) : State :=
  finalRound w nr (stateAfter w s (nr - 1))

/-! ## Mixing keeps columns apart

Multiplication by {02} is linear.  A column that is mixed to zero has equal bytes at a distance of
two, then all its bytes are equal, and then they are zero.
-/

theorem xtime_xor (a b : Byte) : xtime (a ^^^ b) = xtime a ^^^ xtime b := by
  simp only [xtime, BitVec.shiftLeft_xor_distrib, BitVec.msb_xor]
  ext i
  cases a.msb with
  | true => cases b.msb <;> simp only [BitVec.getElem_xor] <;> grind
  | false => cases b.msb <;> simp only [BitVec.getElem_xor] <;> grind

theorem xtime_zero : xtime 0 = 0 := by decide

theorem mul_two (b : Byte) : mul 0x02 b = xtime b := by
  revert b
  decide

theorem mul_three (b : Byte) : mul 0x03 b = xtime b ^^^ b := by
  revert b
  decide

section Column

variable {d0 d1 d2 d3 : Byte}

theorem sum_of_mixed_zero
    (zero0 : xtime d0 ^^^ (xtime d1 ^^^ d1) ^^^ d2 ^^^ d3 = 0)
    (zero1 : xtime d1 ^^^ (xtime d2 ^^^ d2) ^^^ d3 ^^^ d0 = 0)
    (zero2 : xtime d2 ^^^ (xtime d3 ^^^ d3) ^^^ d0 ^^^ d1 = 0)
    (zero3 : xtime d3 ^^^ (xtime d0 ^^^ d0) ^^^ d1 ^^^ d2 = 0) :
    d0 ^^^ d1 ^^^ d2 ^^^ d3 = 0 := by
  ext i inside
  replace zero0 := congrArg (·[i]) zero0
  replace zero1 := congrArg (·[i]) zero1
  replace zero2 := congrArg (·[i]) zero2
  replace zero3 := congrArg (·[i]) zero3
  simp only [BitVec.getElem_xor] at *
  grind

theorem opposite_of_mixed_zero (sum : d0 ^^^ d1 ^^^ d2 ^^^ d3 = 0)
    (zero0 : xtime d0 ^^^ (xtime d1 ^^^ d1) ^^^ d2 ^^^ d3 = 0)
    (zero2 : xtime d2 ^^^ (xtime d3 ^^^ d3) ^^^ d0 ^^^ d1 = 0) : d0 = d2 := by
  have products : xtime d0 ^^^ xtime d1 ^^^ xtime d2 ^^^ xtime d3 = 0 := by
    rw [← xtime_xor, ← xtime_xor, ← xtime_xor, sum, xtime_zero]
  ext i inside
  replace zero0 := congrArg (·[i]) zero0
  replace zero2 := congrArg (·[i]) zero2
  replace products := congrArg (·[i]) products
  simp only [BitVec.getElem_xor] at *
  grind

theorem zero_of_mixed_zero
    (zero0 : xtime d0 ^^^ (xtime d1 ^^^ d1) ^^^ d2 ^^^ d3 = 0)
    (zero1 : xtime d1 ^^^ (xtime d2 ^^^ d2) ^^^ d3 ^^^ d0 = 0)
    (zero2 : xtime d2 ^^^ (xtime d3 ^^^ d3) ^^^ d0 ^^^ d1 = 0)
    (zero3 : xtime d3 ^^^ (xtime d0 ^^^ d0) ^^^ d1 ^^^ d2 = 0) : d0 = 0 := by
  have sum := sum_of_mixed_zero zero0 zero1 zero2 zero3
  obtain rfl := opposite_of_mixed_zero sum zero0 zero2
  have sum' : d1 ^^^ d0 ^^^ d3 ^^^ d0 = 0 := by
    rw [← sum]
    ac_rfl
  obtain rfl := opposite_of_mixed_zero sum' zero1 zero3
  -- two bytes are left, and both are the product of their sum
  have same : d0 = d1 := by
    ext i inside
    replace zero0 := congrArg (·[i]) zero0
    replace zero1 := congrArg (·[i]) zero1
    simp only [BitVec.getElem_xor] at *
    grind
  subst same
  simpa using zero0

end Column

theorem mixColumns_injective : Function.Injective mixColumns := by
  intro s t same
  have mixed (r c : Fin 4) : xtime (s r c ^^^ t r c) ^^^
      (xtime (s (r + 1) c ^^^ t (r + 1) c) ^^^ (s (r + 1) c ^^^ t (r + 1) c)) ^^^
        (s (r + 2) c ^^^ t (r + 2) c) ^^^ (s (r + 3) c ^^^ t (r + 3) c) = 0 := by
    have entry := congrFun (congrFun same r) c
    simp only [mixColumns, mul_two, mul_three] at entry
    rw [← BitVec.xor_eq_zero_iff] at entry
    refine Eq.trans ?_ entry
    simp only [xtime_xor]
    ac_rfl
  funext r c
  apply BitVec.xor_eq_zero_iff.mp
  match r with
  | 0 => exact zero_of_mixed_zero (mixed 0 c) (mixed 1 c) (mixed 2 c) (mixed 3 c)
  | 1 => exact zero_of_mixed_zero (mixed 1 c) (mixed 2 c) (mixed 3 c) (mixed 0 c)
  | 2 => exact zero_of_mixed_zero (mixed 2 c) (mixed 3 c) (mixed 0 c) (mixed 1 c)
  | 3 => exact zero_of_mixed_zero (mixed 3 c) (mixed 0 c) (mixed 1 c) (mixed 2 c)

/-! ## The key schedule -/

def subWord (w : Word) : Word := fun i => sBox (w i)

def rotWord (w : Word) : Word := fun i => w (i + 1)

/-- `{02}` to the power of `n`. -/
def xPower : Nat → Byte
  | 0 => 1
  | n + 1 => xtime (xPower n)

/-- The `n`-th round constant; they are counted from 1. -/
def rcon (n : Nat) : Word := fun i => if i = 0 then xPower (n - 1) else 0

/-- What word `i` of the schedule takes from the word before it. -/
def temp (nk i : Nat) (before : Word) : Word :=
  if i % nk = 0 then fun j => subWord (rotWord before) j ^^^ rcon (i / nk) j
  else if 6 < nk ∧ i % nk = 4 then subWord before
  else before

/-- Word `i` of the schedule of a key of `nk` words. -/
def keyExpansion (nk : Nat) (key : Nat → Word) (i : Nat) : Word :=
  if i < nk ∨ nk = 0 then key i
  else fun j => keyExpansion nk key (i - nk) j ^^^ temp nk i (keyExpansion nk key (i - 1)) j
termination_by i

def rounds (nk : Nat) : Nat := nk + 6

/-- Byte `4c + r` is in row `r` and column `c`. -/
def ofBytes (bytes : Nat → Byte) : State := fun r c => bytes (r + 4 * c)

def words (key : Nat → Byte) (i : Nat) : Word := fun j => key (4 * i + j)

/-- The encryption of a block under a key of `nk` words. -/
def encrypt (nk : Nat) (key block : Nat → Byte) : State :=
  cipher (keyExpansion nk (words key)) (rounds nk) (ofBytes block)

/-! ## The schedule word by word -/

section Schedule

variable {nk i : Nat} {key : Nat → Word}

theorem keyExpansion_key (below : i < nk) : keyExpansion nk key i = key i := by
  rw [keyExpansion, if_pos (Or.inl below)]

theorem keyExpansion_next (positive : 0 < nk) (above : nk ≤ i) : keyExpansion nk key i =
    fun j => keyExpansion nk key (i - nk) j ^^^ temp nk i (keyExpansion nk key (i - 1)) j := by
  rw [keyExpansion, if_neg (by omega)]

end Schedule

/-! ## The inverse cipher

The equivalent inverse cipher has the steps of the cipher in the same order.
-/

theorem mulFrom_xor (a b c : Byte) (n : Nat) :
    mulFrom a (b ^^^ c) n = mulFrom a b n ^^^ mulFrom a c n := by
  induction n generalizing b c with
  | zero => exact (BitVec.xor_self (x := 0)).symm
  | succ n ih =>
    rw [mulFrom, mulFrom, mulFrom, xtime_xor, ih]
    cases a.getLsbD (7 - n)
    · simp
    · simp only [if_true]
      ac_rfl

theorem mul_xor (a b c : Byte) : mul a (b ^^^ c) = mul a b ^^^ mul a c := mulFrom_xor a b c 8

def invAffine (x : Byte) : Byte :=
  x.rotateLeft 1 ^^^ x.rotateLeft 3 ^^^ x.rotateLeft 6 ^^^ 0x05

def invSBox (b : Byte) : Byte := inverse (invAffine b)

theorem invAffine_affine (x : Byte) : invAffine (affine x) = x := by
  revert x
  decide +kernel

theorem inverse_inverse (x : Byte) : inverse (inverse x) = x := by
  have numbers : ∀ n < 256, inverseNat (inverseNat n) = n := by decide +kernel
  apply BitVec.eq_of_toNat_eq
  rw [inverse_toNat, inverse_toNat]
  exact numbers _ x.isLt

theorem invSBox_sBox (b : Byte) : invSBox (sBox b) = b := by
  rw [invSBox, sBox, invAffine_affine, inverse_inverse]

def invSubBytes (s : State) : State := fun r c => invSBox (s r c)

/-- Row `r` moves `r` columns to the right. -/
def invShiftRows (s : State) : State := fun r c => s r (c - r)

def invMixWord (w : Word) : Word := fun r =>
  mul 0x0e (w r) ^^^ mul 0x0b (w (r + 1)) ^^^ mul 0x0d (w (r + 2)) ^^^ mul 0x09 (w (r + 3))

def invMixColumns (s : State) : State := fun r c => invMixWord (fun r => s r c) r

/-- What is left of a byte of a column that is mixed and unmixed, in each of the four rows. -/
theorem unmixed (b : Byte) :
    mul 0x0e (mul 0x02 b) ^^^ mul 0x0b b ^^^ mul 0x0d b ^^^ mul 0x09 (mul 0x03 b) = b ∧
    mul 0x0e (mul 0x03 b) ^^^ mul 0x0b (mul 0x02 b) ^^^ mul 0x0d b ^^^ mul 0x09 b = 0 ∧
    mul 0x0e b ^^^ mul 0x0b (mul 0x03 b) ^^^ mul 0x0d (mul 0x02 b) ^^^ mul 0x09 b = 0 ∧
    mul 0x0e b ^^^ mul 0x0b b ^^^ mul 0x0d (mul 0x03 b) ^^^ mul 0x09 (mul 0x02 b) = 0 := by
  have numbers : ∀ n < 256,
      mulNat 14 (mulNat 2 n) ^^^ mulNat 11 n ^^^ mulNat 13 n ^^^ mulNat 9 (mulNat 3 n) = n ∧
      mulNat 14 (mulNat 3 n) ^^^ mulNat 11 (mulNat 2 n) ^^^ mulNat 13 n ^^^ mulNat 9 n = 0 ∧
      mulNat 14 n ^^^ mulNat 11 (mulNat 3 n) ^^^ mulNat 13 (mulNat 2 n) ^^^ mulNat 9 n = 0 ∧
      mulNat 14 n ^^^ mulNat 11 n ^^^ mulNat 13 (mulNat 3 n) ^^^ mulNat 9 (mulNat 2 n) = 0 := by
    decide +kernel
  obtain ⟨own, second, third, fourth⟩ := numbers b.toNat b.isLt
  refine ⟨?_, ?_, ?_, ?_⟩ <;> apply BitVec.eq_of_toNat_eq <;>
    simp only [BitVec.toNat_xor, mul_toNat]
  · exact own
  · exact second
  · exact third
  · exact fourth

theorem unmixed_column (a b c d : Byte) :
    mul 0x0e (mul 0x02 a ^^^ mul 0x03 b ^^^ c ^^^ d) ^^^
      mul 0x0b (mul 0x02 b ^^^ mul 0x03 c ^^^ d ^^^ a) ^^^
        mul 0x0d (mul 0x02 c ^^^ mul 0x03 d ^^^ a ^^^ b) ^^^
          mul 0x09 (mul 0x02 d ^^^ mul 0x03 a ^^^ b ^^^ c) = a := by
  obtain ⟨own, -, -, -⟩ := unmixed a
  obtain ⟨-, second, -, -⟩ := unmixed b
  obtain ⟨-, -, third, -⟩ := unmixed c
  obtain ⟨-, -, -, fourth⟩ := unmixed d
  calc
    _ = (mul 0x0e (mul 0x02 a) ^^^ mul 0x0b a ^^^ mul 0x0d a ^^^ mul 0x09 (mul 0x03 a)) ^^^
        (mul 0x0e (mul 0x03 b) ^^^ mul 0x0b (mul 0x02 b) ^^^ mul 0x0d b ^^^ mul 0x09 b) ^^^
        (mul 0x0e c ^^^ mul 0x0b (mul 0x03 c) ^^^ mul 0x0d (mul 0x02 c) ^^^ mul 0x09 c) ^^^
        (mul 0x0e d ^^^ mul 0x0b d ^^^ mul 0x0d (mul 0x03 d) ^^^ mul 0x09 (mul 0x02 d)) := by
      simp only [mul_xor]
      ac_rfl
    _ = a ^^^ 0 ^^^ 0 ^^^ 0 := by rw [own, second, third, fourth]
    _ = a := by simp

theorem invMixColumns_mixColumns (s : State) : invMixColumns (mixColumns s) = s := by
  funext r c
  match r with
  | 0 => exact unmixed_column (s 0 c) (s 1 c) (s 2 c) (s 3 c)
  | 1 => exact unmixed_column (s 1 c) (s 2 c) (s 3 c) (s 0 c)
  | 2 => exact unmixed_column (s 2 c) (s 3 c) (s 0 c) (s 1 c)
  | 3 => exact unmixed_column (s 3 c) (s 0 c) (s 1 c) (s 2 c)

theorem invMixWord_xor (v w : Word) (r : Fin 4) :
    invMixWord (fun r => v r ^^^ w r) r = invMixWord v r ^^^ invMixWord w r := by
  simp only [invMixWord, mul_xor]
  ac_rfl

/-- Bytes are substituted back before or after their rows are. -/
theorem invShiftRows_invSubBytes (s : State) :
    invShiftRows (invSubBytes (shiftRows (subBytes s))) = s := by
  funext r c
  rw [invShiftRows, invSubBytes, shiftRows, subBytes, invSBox_sBox, sub_add_cancel]

/-- The schedule of the equivalent inverse cipher: the round keys in the other order, those in
    between with their columns unmixed. -/
def inverseSchedule (w : Nat → Word) (nr i : Nat) : Word :=
  if i / 4 = 0 ∨ i / 4 = nr then w (4 * (nr - i / 4) + i % 4)
  else invMixWord (w (4 * (nr - i / 4) + i % 4))

def invRound (dw : Nat → Word) (n : Nat) (s : State) : State :=
  addRoundKey dw (4 * n) (invMixColumns (invShiftRows (invSubBytes s)))

def invStateAfter (dw : Nat → Word) (s : State) : Nat → State
  | 0 => addRoundKey dw 0 s
  | n + 1 => invRound dw (n + 1) (invStateAfter dw s n)

def invFinalRound (dw : Nat → Word) (nr : Nat) (s : State) : State :=
  addRoundKey dw (4 * nr) (invShiftRows (invSubBytes s))

def eqInvCipher (dw : Nat → Word) (nr : Nat) (s : State) : State :=
  invFinalRound dw nr (invStateAfter dw s (nr - 1))

section Inverse

variable {w : Nat → Word} {nr : Nat}

/-- The round key `n` from the end. -/
theorem inverseSchedule_outer {n : Nat} (outer : n = 0 ∨ n = nr) (c : Fin 4) :
    inverseSchedule w nr (4 * n + c) = w (4 * (nr - n) + c) := by
  have round : (4 * n + c.val) / 4 = n := by omega
  have column : (4 * n + c.val) % 4 = c := by omega
  rw [inverseSchedule, round, column, if_pos outer]

theorem inverseSchedule_inner {n : Nat} (first : n ≠ 0) (last : n ≠ nr) (c : Fin 4) :
    inverseSchedule w nr (4 * n + c) = invMixWord (w (4 * (nr - n) + c)) := by
  have round : (4 * n + c.val) / 4 = n := by omega
  have column : (4 * n + c.val) % 4 = c := by omega
  rw [inverseSchedule, round, column, if_neg (by omega)]

theorem invMixColumns_addRoundKey (first : Nat) (s : State) (r c : Fin 4) :
    invMixColumns (addRoundKey w first s) r c =
      invMixColumns s r c ^^^ invMixWord (w (first + c)) r :=
  invMixWord_xor (fun r => s r c) (w (first + c)) r

/-- `n` rounds of the inverse cipher take as many rounds of the cipher back. -/
theorem invStateAfter_cipher (s : State) {n : Nat} (below : n < nr) :
    invStateAfter (inverseSchedule w nr) (cipher w nr s) n =
      shiftRows (subBytes (stateAfter w s (nr - 1 - n))) := by
  induction n with
  | zero =>
    funext r c
    have key : inverseSchedule w nr (0 + c) = w (4 * nr + c) := inverseSchedule_outer (.inl rfl) c
    rw [invStateAfter, addRoundKey, key, cipher, finalRound, addRoundKey, BitVec.xor_assoc,
      BitVec.xor_self, BitVec.xor_zero]
    rfl
  | succ n ih =>
    funext r c
    obtain ⟨m, rest⟩ : ∃ m, nr - 1 - n = m + 1 := ⟨nr - 2 - n, by omega⟩
    have key : inverseSchedule w nr (4 * (n + 1) + c) = invMixWord (w (4 * (m + 1) + c)) := by
      rw [inverseSchedule_inner (by omega) (by omega), show nr - (n + 1) = m + 1 by omega]
    rw [invStateAfter, invRound, addRoundKey, key, ih (by omega),
      invShiftRows_invSubBytes, rest, stateAfter, round, invMixColumns_addRoundKey,
      invMixColumns_mixColumns, BitVec.xor_assoc, BitVec.xor_self, BitVec.xor_zero,
      show nr - 1 - (n + 1) = m by omega]

theorem eqInvCipher_cipher (positive : 0 < nr) (s : State) :
    eqInvCipher (inverseSchedule w nr) nr (cipher w nr s) = s := by
  funext r c
  have key : inverseSchedule w nr (4 * nr + c) = w (0 + c) := by
    rw [inverseSchedule_outer (.inr rfl), Nat.sub_self, Nat.mul_zero]
  rw [eqInvCipher, invStateAfter_cipher s (by omega), Nat.sub_self, invFinalRound,
    invShiftRows_invSubBytes, addRoundKey, key, stateAfter, addRoundKey, BitVec.xor_assoc,
    BitVec.xor_self, BitVec.xor_zero]

theorem cipher_eqInvCipher (positive : 0 < nr) (s : State) :
    cipher w nr (eqInvCipher (inverseSchedule w nr) nr s) = s := by
  have left : Function.LeftInverse (eqInvCipher (inverseSchedule w nr) nr) (cipher w nr) :=
    eqInvCipher_cipher positive
  have : Finite Byte := Finite.of_injective BitVec.toFin fun _ _ same => BitVec.toFin_inj.mp same
  exact left.rightInverse_of_surjective (Finite.surjective_of_injective left.injective) s

end Inverse

end Fips197
