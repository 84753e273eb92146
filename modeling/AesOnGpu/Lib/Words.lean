import Mathlib

/-! # Words, digits and masks

A word of `n` bits is an integer modulo `2 ^ n`.  What a computation on words gives
is the integer that it gives on the values, as long as that integer fits.
-/

namespace Words

theorem ofInt_inj {n : Nat} {x y : Int} :
    BitVec.ofInt n x = BitVec.ofInt n y ↔ x ≡ y [ZMOD 2 ^ n] := by
  rw [← BitVec.toInt_inj, BitVec.toInt_ofInt, BitVec.toInt_ofInt]
  constructor
  · intro same
    have reduced : _ % ((2 ^ n : Nat) : Int) = _ % _ := congrArg (· % ((2 ^ n : Nat) : Int)) same
    rw [Int.bmod_emod, Int.bmod_emod] at reduced
    exact_mod_cast reduced
  · intro same
    rw [Int.bmod_eq_bmod_iff_bmod_sub_eq_zero, ← Int.dvd_iff_bmod_eq_zero]
    simpa using same.symm.dvd

theorem setWidth_eq_ofInt {m n : Nat} (narrow : m ≤ n) (x : BitVec n) :
    x.setWidth m = BitVec.ofInt m x.toInt := by
  apply BitVec.eq_of_toInt_eq
  rw [BitVec.toInt_setWidth, BitVec.toInt_ofInt, BitVec.toInt_eq_toNat_bmod,
    Int.bmod_bmod_of_dvd (by exact_mod_cast Nat.pow_dvd_pow 2 narrow)]

theorem setWidth_signExtend {m n : Nat} (wide : m ≤ n) (x : BitVec m) :
    (x.signExtend n).setWidth m = x := by
  rw [setWidth_eq_ofInt wide, BitVec.toInt_signExtend_of_le wide, BitVec.ofInt_toInt]

theorem setWidth_toInt_modEq {w : Nat} (x : BitVec w) (n : Nat) :
    (x.setWidth n).toInt ≡ x.toNat [ZMOD 2 ^ n] := by
  rw [BitVec.toInt_setWidth]
  exact_mod_cast Int.bmod_emod

theorem setWidth_toNat_modEq {w : Nat} (x : BitVec w) (n : Nat) :
    ((x.setWidth n).toNat : Int) ≡ x.toNat [ZMOD 2 ^ n] := by
  rw [BitVec.toNat_setWidth]
  exact_mod_cast Nat.mod_modEq _ _

/-- Above a common lower part, the upper parts decide. -/
theorem div_modEq_div_iff {s n : Nat} {x y : Int} (low : x ≡ y [ZMOD 2 ^ s]) :
    x / 2 ^ s ≡ y / 2 ^ s [ZMOD 2 ^ n] ↔ x ≡ y [ZMOD 2 ^ (s + n)] := by
  obtain ⟨k, apart⟩ := low.dvd
  have shifted : y = x + 2 ^ s * k := by omega
  have quotient : y / 2 ^ s = x / 2 ^ s + k := by
    rw [shifted, Int.add_mul_ediv_left _ _ (by positivity)]
  rw [quotient, shifted, Int.modEq_iff_dvd, Int.modEq_iff_dvd, pow_add]
  simp only [add_sub_cancel_left]
  exact (mul_dvd_mul_iff_left (by positivity)).symm

/-- The upper parts of two words that agree below them. -/
theorem setWidth_sshiftRight_inj {s n w : Nat} (narrow : n ≤ w) {x y : BitVec w}
    (low : x.toInt ≡ y.toInt [ZMOD 2 ^ s]) :
    (x.sshiftRight s).setWidth n = (y.sshiftRight s).setWidth n ↔
      x.toInt ≡ y.toInt [ZMOD 2 ^ (s + n)] := by
  rw [setWidth_eq_ofInt narrow, setWidth_eq_ofInt narrow, ofInt_inj, BitVec.toInt_sshiftRight,
    BitVec.toInt_sshiftRight, Int.shiftRight_eq_div_pow, Int.shiftRight_eq_div_pow]
  exact_mod_cast div_modEq_div_iff low

theorem setWidth_ushiftRight_inj {s n w : Nat} {x y : BitVec w}
    (low : (x.toNat : Int) ≡ y.toNat [ZMOD 2 ^ s]) :
    (x >>> s).setWidth n = (y >>> s).setWidth n ↔
      (x.toNat : Int) ≡ y.toNat [ZMOD 2 ^ (s + n)] := by
  rw [← div_modEq_div_iff low, ← BitVec.toNat_inj, BitVec.toNat_setWidth, BitVec.toNat_setWidth,
    BitVec.toNat_ushiftRight, BitVec.toNat_ushiftRight, Nat.shiftRight_eq_div_pow,
    Nat.shiftRight_eq_div_pow]
  exact_mod_cast (Int.natCast_modEq_iff (n := 2 ^ n)).symm

/-- Two readings of a word of `w` bits are congruent in more bits only if they are the
    same. -/
theorem modEq_iff_of_near {x y : Int} {w n : Nat} (wide : w ≤ n) (near : y = x ∨ y = x + 2 ^ w) :
    x ≡ y [ZMOD 2 ^ n] ↔ n = w ∨ y = x := by
  rcases near with rfl | rfl
  · exact iff_of_true rfl (.inr rfl)
  · have apart : ¬ x + 2 ^ w = x := by
      have : (0 : Int) < 2 ^ w := by positivity
      omega
    have divides : (2 : Int) ^ n ∣ 2 ^ w ↔ n ≤ w := by
      exact_mod_cast Nat.pow_dvd_pow_iff_le_right (x := 2) (by omega)
    rw [Int.modEq_iff_dvd, add_sub_cancel_left, divides]
    simp only [apart, or_false]
    omega

/-- Shifting out all bits of an integer leaves copies of its sign. -/
theorem ediv_two_pow_iff {x : Int} {n : Nat} :
    x / 2 ^ n = (if x < 0 then -1 else 0) ↔ -2 ^ n ≤ x ∧ x < 2 ^ n := by
  have positive : (0 : Int) < 2 ^ n := by positivity
  rw [Int.ediv_eq_iff_of_pos positive]
  split <;> constructor <;> intro bounds <;> constructor <;> linarith [bounds.1, bounds.2]

/-- More places than the integer has shift out no more. -/
theorem ediv_two_pow_min {x : Int} {n w : Nat} (atLeast : -2 ^ w ≤ x) (below : x < 2 ^ w) :
    x / 2 ^ min n w = x / 2 ^ n := by
  rcases Nat.le_total n w with fewer | more
  · rw [min_eq_left fewer]
  · have grows : (2 : Int) ^ w ≤ 2 ^ n := pow_le_pow_right₀ (by norm_num) more
    rw [min_eq_right more, ediv_two_pow_iff.mpr ⟨atLeast, below⟩,
      ediv_two_pow_iff.mpr ⟨by linarith, by linarith⟩]

theorem ediv_two_pow_between (x : Int) (n : Nat) : min x 0 ≤ x / 2 ^ n ∧ x / 2 ^ n ≤ max x 0 := by
  have positive : (0 : Int) < 2 ^ n := by positivity
  have one : (1 : Int) ≤ 2 ^ n := positive
  rcases Int.le_total 0 x with nonneg | nonpos
  · have := Int.ediv_nonneg nonneg positive.le
    have := Int.ediv_le_self (2 ^ n) nonneg
    omega
  · have : x ≤ x / 2 ^ n := Int.le_ediv_of_mul_le positive (by nlinarith)
    have := Int.ediv_nonpos_of_nonpos_of_neg nonpos positive
    omega

/-- Congruent integers that lie closer together than the modulus are the same. -/
theorem eq_of_modEq {x y m : Int} (same : x ≡ y [ZMOD m]) (above : y < x + m) (below : x < y + m) :
    x = y := by
  have small : |y - x| < m := abs_sub_lt_iff.mpr ⟨by omega, by omega⟩
  have := Int.eq_zero_of_abs_lt_dvd same.dvd small
  omega

/-- The product of two signed words of `n + 1` bits. -/
theorem toInt_mul_bounds {n : Nat} (x y : BitVec (n + 1)) :
    |x.toInt * y.toInt| ≤ 2 ^ n * 2 ^ n := by
  have bound (z : BitVec (n + 1)) : |z.toInt| ≤ 2 ^ n := by
    have below := BitVec.two_mul_toInt_lt (x := z)
    have above := BitVec.le_two_mul_toInt (x := z)
    rw [pow_succ] at below above
    rw [abs_le]
    omega
  rw [abs_mul]
  exact mul_le_mul (bound x) (bound y) (abs_nonneg _) (by positivity)

end Words

/-! # Remainders and digits

Two digits are told apart by the number that they form.  A remainder is kept by a loss of
multiples of a larger modulus when these are multiples of the smaller one.
-/

namespace Digits

theorem emod_emod_iff {a m M : Int} : a % M % m = a % m ↔ m ∣ M * (a / M) := by
  have split : a % M - a = -(M * (a / M)) := by
    have := Int.emod_add_mul_ediv a M
    omega
  rw [Int.emod_eq_emod_iff_emod_sub_eq_zero, ← Int.dvd_iff_emod_eq_zero, split, dvd_neg]

/-- A number that is out of range by less than the modulus. -/
theorem dvd_mul_ediv_iff {a m M : Int} (above : -M ≤ a) (below : a < 2 * M) :
    m ∣ M * (a / M) ↔ 0 ≤ a ∧ a < M ∨ m ∣ M := by
  have positive : 0 < M := by omega
  have turns : a / M = -1 ∨ a / M = 0 ∨ a / M = 1 := by
    have lower : -1 ≤ a / M := (Int.le_ediv_iff_mul_le positive).mpr (by omega)
    have upper : a / M < 2 := (Int.ediv_lt_iff_lt_mul positive).mpr below
    omega
  have inside : a / M = 0 ↔ 0 ≤ a ∧ a < M := by
    rw [Int.ediv_eq_iff_of_pos positive]
    omega
  rw [← inside]
  rcases turns with turns | turns | turns <;> simp [turns]

theorem emod_emod_near_iff {a m M : Int} (above : -M ≤ a) (below : a < 2 * M) :
    a % M % m = a % m ↔ 0 ≤ a ∧ a < M ∨ m ∣ M :=
  emod_emod_iff.trans (dvd_mul_ediv_iff above below)

/-- The remainder of a number of two digits. -/
theorem add_mul_emod {e w a : Int} (b : Int) (positive : 0 < w) (low : 0 ≤ a) (high : a < e) :
    (a + e * b) % (e * w) = a + e * (b % w) := by
  have same : a + e * b = a + e * (b % w) + e * w * (b / w) := by
    have := Int.emod_add_mul_ediv b w
    calc a + e * b = a + e * (b % w + w * (b / w)) := by rw [this]
      _ = a + e * (b % w) + e * w * (b / w) := by ring
  have below := Int.emod_lt_of_pos b positive
  have nonneg := Int.emod_nonneg b positive.ne'
  have unit : 0 < e := by omega
  rw [same, Int.add_mul_emod_self_left, Int.emod_eq_of_lt]
  · positivity
  · nlinarith

/-- A sum with the unsigned image of an integer. -/
theorem add_mod_natCast {m n M : Nat} {u : Int} (unsigned : (n : Int) = u % M) :
    (((m + n) % M : Nat) : Int) = (m + u) % M := by
  rw [Int.natCast_mod, Nat.cast_add, unsigned, Int.add_emod_emod]

section

variable {n k a b a' b' : Nat}

theorem pair_inj (low : a < n) (low' : a' < n) :
    a + n * b = a' + n * b' ↔ a = a' ∧ b = b' := by
  constructor
  · intro same
    have digit : a = a' := by
      have := congrArg (· % n) same
      simpa [Nat.mod_eq_of_lt low, Nat.mod_eq_of_lt low'] using this
    subst digit
    have high : n * b = n * b' := Nat.add_left_cancel same
    exact ⟨rfl, Nat.eq_of_mul_eq_mul_left (Nat.zero_lt_of_lt low) high⟩
  · rintro ⟨rfl, rfl⟩
    rfl

theorem pair_lt (low : a < n) (high : b < k) : a + n * b < n * k := by
  calc a + n * b < n + n * b := Nat.add_lt_add_right low _
    _ = n * (b + 1) := by ring
    _ ≤ n * k := Nat.mul_le_mul_left n high

end

/-- The unsigned image of a word. -/
theorem toNat_eq_toInt_emod {w : Nat} (x : BitVec w) : (x.toNat : Int) = x.toInt % 2 ^ w := by
  rw [BitVec.toInt_eq_toNat_bmod, show (2 : Int) ^ w = ((2 ^ w : Nat) : Int) by norm_cast,
    Int.bmod_emod]
  exact (Int.emod_eq_of_lt (Int.natCast_nonneg _) (by exact_mod_cast x.isLt)).symm

end Digits

/-! # Masks as arithmetic

The C code selects parts of machine words with masks; these lemmas read such a
selection as division and remainder.
-/

namespace Bits

/-- A mask of `k` ones above `s` zeros keeps the field it covers. -/
theorem and_mask (x k s : Nat) : x &&& ((2 ^ k - 1) * 2 ^ s) = x / 2 ^ s % 2 ^ k * 2 ^ s := by
  refine Nat.eq_of_testBit_eq fun i => ?_
  rw [Nat.testBit_and, Nat.testBit_mul_two_pow, Nat.testBit_mul_two_pow, Nat.testBit_mod_two_pow,
    Nat.testBit_div_two_pow, Nat.testBit_two_pow_sub_one]
  by_cases above : s ≤ i
  · simp [above, Bool.and_comm]
  · simp [above]

/-- The mask that reaches the top of a `k + s`-bit word clears the `s` bits
    below. -/
theorem and_high_mask {x k s : Nat} (narrow : x < 2 ^ (k + s)) :
    x &&& ((2 ^ k - 1) * 2 ^ s) = x / 2 ^ s * 2 ^ s := by
  have high : x / 2 ^ s < 2 ^ k := by
    rw [Nat.div_lt_iff_lt_mul (by positivity), ← pow_add]; exact narrow
  rw [and_mask, Nat.mod_eq_of_lt high]

/-- A multiple of `2 ^ k` and a remainder share a word of `w` bits: the remainder is
    kept, the factor loses its upper `k` bits. -/
theorem mul_add_mod {k w x y : Nat} (narrow : k ≤ w) (low : y < 2 ^ k) :
    (x * 2 ^ k + y) % 2 ^ w = x % 2 ^ (w - k) * 2 ^ k + y := by
  have split : 2 ^ w = 2 ^ k * 2 ^ (w - k) := by rw [← pow_add, Nat.add_sub_cancel' narrow]
  have rest : (x * 2 ^ k + y) % 2 ^ k = y := by
    rw [Nat.mul_add_mod_of_lt low]
  have factor : (x * 2 ^ k + y) / 2 ^ k = x := by
    rw [Nat.mul_comm, Nat.mul_add_div (by positivity), Nat.div_eq_of_lt low, Nat.add_zero]
  rw [split, Nat.mod_mul, rest, factor, Nat.add_comm, Nat.mul_comm]

theorem mul_add_mod_inj {k w x y x' y' : Nat} (narrow : k ≤ w) (low : y < 2 ^ k)
    (low' : y' < 2 ^ k) :
    (x * 2 ^ k + y) % 2 ^ w = (x' * 2 ^ k + y') % 2 ^ w ↔
      x % 2 ^ (w - k) = x' % 2 ^ (w - k) ∧ y = y' := by
  rw [mul_add_mod narrow low, mul_add_mod narrow low']
  constructor
  · intro same
    have factors := congrArg (· / 2 ^ k) same
    have rests := congrArg (· % 2 ^ k) same
    simp only [Nat.mul_comm _ (2 ^ k), Nat.mul_add_div (Nat.two_pow_pos k),
      Nat.div_eq_of_lt low, Nat.div_eq_of_lt low', Nat.add_zero, Nat.mul_add_mod,
      Nat.mod_eq_of_lt low, Nat.mod_eq_of_lt low'] at factors rests
    exact ⟨factors, rests⟩
  · rintro ⟨factors, rests⟩
    rw [factors, rests]

end Bits
