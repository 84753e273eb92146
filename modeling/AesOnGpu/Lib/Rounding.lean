import Mathlib

/-! # Rounding to a significand

Round to nearest, ties to even, for a binary format of any precision whose exponent is not
bounded. Rounding keeps the order of the numbers, and so does everything that is computed
with rounded sums, products and quotients.
-/

namespace Rounding

/-- The nearest integer, the even one of two. -/
def roundHalfEven (q : ℚ) : ℤ :=
  let below := ⌊q⌋
  let rest := q - below
  if rest < 1 / 2 then below
  else if 1 / 2 < rest then below + 1
  else if Even below then below else below + 1

/-- A number of at least zero with a significand of `precision` bits. -/
def toSignificand (precision : ℕ) (q : ℚ) : ℚ :=
  if q = 0 then 0
  else
    let unit := (2 : ℚ) ^ (Int.log 2 q + 1 - precision)
    roundHalfEven (q / unit) * unit

theorem floor_le_roundHalfEven (q : ℚ) : ⌊q⌋ ≤ roundHalfEven q := by
  simp only [roundHalfEven]
  split_ifs <;> omega

theorem roundHalfEven_le_floor_succ (q : ℚ) : roundHalfEven q ≤ ⌊q⌋ + 1 := by
  simp only [roundHalfEven]
  split_ifs <;> omega

@[simp] theorem roundHalfEven_intCast (n : ℤ) : roundHalfEven n = n := by
  simp [roundHalfEven]

theorem roundHalfEven_mono : Monotone roundHalfEven := by
  intro q q' hle
  cases (Int.floor_mono hle).lt_or_eq with
  | inl hlt =>
      calc roundHalfEven q ≤ ⌊q⌋ + 1 := roundHalfEven_le_floor_succ q
        _ ≤ ⌊q'⌋ := hlt
        _ ≤ roundHalfEven q' := floor_le_roundHalfEven q'
  | inr heq =>
      -- the same two neighbours: the rests decide
      have hrest : q - ⌊q⌋ ≤ q' - ⌊q'⌋ := by
        rw [heq]
        exact sub_le_sub_right hle _
      simp only [roundHalfEven, ← heq] at hrest ⊢
      split_ifs <;> first | omega | linarith

/-! ## Significands -/

variable {precision : ℕ} {q q' : ℚ}

@[simp] theorem toSignificand_zero : toSignificand precision 0 = 0 := if_pos rfl

theorem toSignificand_of_pos (hpos : 0 < q) :
    toSignificand precision q =
      roundHalfEven (q / 2 ^ (Int.log 2 q + 1 - precision)) * 2 ^ (Int.log 2 q + 1 - precision) :=
  if_neg hpos.ne'

theorem toSignificand_nonneg (hq : 0 ≤ q) : 0 ≤ toSignificand precision q := by
  cases hq.eq_or_lt with
  | inl hzero => rw [← hzero, toSignificand_zero]
  | inr hpos =>
      rw [toSignificand_of_pos hpos]
      have hround : 0 ≤ roundHalfEven (q / 2 ^ (Int.log 2 q + 1 - precision)) :=
        (Int.floor_nonneg.mpr (by positivity)).trans (floor_le_roundHalfEven _)
      have hcast : (0 : ℚ) ≤ roundHalfEven (q / 2 ^ (Int.log 2 q + 1 - precision)) := by
        exact_mod_cast hround
      positivity

/-- A number is rounded to the power of two above it at most. -/
theorem toSignificand_le_pow (hpos : 0 < q) :
    toSignificand precision q ≤ 2 ^ (Int.log 2 q + 1) := by
  have hbelow : q / 2 ^ (Int.log 2 q + 1 - precision) ≤ ((2 ^ precision : ℤ) : ℚ) := by
    rw [div_le_iff₀ (by positivity)]
    push_cast
    rw [← zpow_natCast, ← zpow_add₀ two_ne_zero, add_sub_cancel]
    exact_mod_cast (Int.lt_zpow_succ_log_self (by norm_num) q).le
  have hround := roundHalfEven_mono hbelow
  rw [roundHalfEven_intCast] at hround
  have hcast : (roundHalfEven (q / 2 ^ (Int.log 2 q + 1 - precision)) : ℚ) ≤ 2 ^ precision := by
    exact_mod_cast hround
  calc toSignificand precision q
      = roundHalfEven (q / 2 ^ (Int.log 2 q + 1 - precision)) *
          2 ^ (Int.log 2 q + 1 - precision) := toSignificand_of_pos hpos
    _ ≤ 2 ^ precision * 2 ^ (Int.log 2 q + 1 - precision) := by gcongr
    _ = 2 ^ (Int.log 2 q + 1) := by
        rw [← zpow_natCast, ← zpow_add₀ two_ne_zero, add_sub_cancel]

/-- And to the power of two below it at least. -/
theorem pow_le_toSignificand (hprecision : 0 < precision) (hpos : 0 < q) :
    2 ^ Int.log 2 q ≤ toSignificand precision q := by
  have hexponent : ((precision - 1 : ℕ) : ℤ) + (Int.log 2 q + 1 - precision) = Int.log 2 q := by
    omega
  have habove : ((2 ^ (precision - 1) : ℤ) : ℚ) ≤ q / 2 ^ (Int.log 2 q + 1 - precision) := by
    rw [le_div_iff₀ (by positivity)]
    push_cast
    rw [← zpow_natCast, ← zpow_add₀ two_ne_zero, hexponent]
    exact_mod_cast Int.zpow_log_le_self (by norm_num) hpos
  have hround := roundHalfEven_mono habove
  rw [roundHalfEven_intCast] at hround
  have hcast : 2 ^ (precision - 1) ≤
      (roundHalfEven (q / 2 ^ (Int.log 2 q + 1 - precision)) : ℚ) := by
    exact_mod_cast hround
  calc (2 : ℚ) ^ Int.log 2 q
      = 2 ^ (precision - 1) * 2 ^ (Int.log 2 q + 1 - precision) := by
        rw [← zpow_natCast, ← zpow_add₀ two_ne_zero, hexponent]
    _ ≤ roundHalfEven (q / 2 ^ (Int.log 2 q + 1 - precision)) *
          2 ^ (Int.log 2 q + 1 - precision) := by gcongr
    _ = toSignificand precision q := (toSignificand_of_pos hpos).symm

theorem toSignificand_mono (hprecision : 0 < precision) (hq : 0 ≤ q) (hle : q ≤ q') :
    toSignificand precision q ≤ toSignificand precision q' := by
  cases hq.eq_or_lt with
  | inl hzero =>
      rw [← hzero, toSignificand_zero]
      exact toSignificand_nonneg (hq.trans hle)
  | inr hpos =>
      have hpos' : 0 < q' := hpos.trans_le hle
      cases (Int.log_mono_right (b := 2) hpos hle).lt_or_eq with
      | inl hlt =>
          -- a power of two lies between the two
          calc toSignificand precision q ≤ 2 ^ (Int.log 2 q + 1) := toSignificand_le_pow hpos
            _ ≤ 2 ^ Int.log 2 q' := zpow_le_zpow_right₀ one_le_two hlt
            _ ≤ toSignificand precision q' := pow_le_toSignificand hprecision hpos'
      | inr heq =>
          rw [toSignificand_of_pos hpos, toSignificand_of_pos hpos', ← heq]
          have hquotient : q / 2 ^ (Int.log 2 q + 1 - precision) ≤
              q' / 2 ^ (Int.log 2 q + 1 - precision) := by gcongr
          have hround : (roundHalfEven (q / 2 ^ (Int.log 2 q + 1 - precision)) : ℚ) ≤
              roundHalfEven (q' / 2 ^ (Int.log 2 q + 1 - precision)) := by
            exact_mod_cast roundHalfEven_mono hquotient
          gcongr

/-- What has few enough digits is not rounded. -/
theorem toSignificand_exact {n k : ℕ} (hfits : n < 2 ^ precision) :
    toSignificand precision (n / 2 ^ k) = (n / 2 ^ k : ℚ) := by
  cases n.eq_zero_or_pos with
  | inl hzero => simp [hzero]
  | inr hpos =>
      have hq : (0 : ℚ) < n / 2 ^ k := by positivity
      have hbelow : (n / 2 ^ k : ℚ) < 2 ^ ((precision : ℤ) - k) := by
        rw [zpow_sub₀ two_ne_zero, zpow_natCast, zpow_natCast]
        have hcast : (n : ℚ) < 2 ^ precision := by exact_mod_cast hfits
        gcongr
      have hlog : Int.log 2 (n / 2 ^ k : ℚ) < (precision : ℤ) - k :=
        (Int.lt_zpow_iff_log_lt (by norm_num) hq).mp (by exact_mod_cast hbelow)
      obtain ⟨j, hj⟩ : ∃ j : ℕ, Int.log 2 (n / 2 ^ k : ℚ) + 1 - precision = -(k : ℤ) - j :=
        ⟨(-(k : ℤ) - (Int.log 2 (n / 2 ^ k : ℚ) + 1 - precision)).toNat, by omega⟩
      have hinteger : (n / 2 ^ k : ℚ) / 2 ^ (-(k : ℤ) - j) = ((n * 2 ^ j : ℕ) : ℤ) := by
        rw [zpow_sub₀ two_ne_zero, zpow_neg, zpow_natCast, zpow_natCast]
        push_cast
        field_simp
      rw [toSignificand_of_pos hq, hj, hinteger, roundHalfEven_intCast, ← hinteger]
      field_simp

theorem toSignificand_natCast {n : ℕ} (hfits : n < 2 ^ precision) :
    toSignificand precision n = n := by
  simpa using @toSignificand_exact precision n 0 hfits

end Rounding
