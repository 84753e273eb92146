import Mathlib

/-! # Lines of memory

Numbers fall into lines of one size: line `n` goes from `n * size` up to `(n + 1) * size`.  Words
that differ in their low bits only are those of one line, when the size is a power of two.
-/

namespace MemLine

/-- A number lies in line `n`. -/
def Inside (size n a : Nat) : Prop := n * size ≤ a ∧ a < (n + 1) * size

def Same (size a b : Nat) : Prop := ∃ n, Inside size n a ∧ Inside size n b

/-- The line of `a` starts with `first`. -/
def Starts (size a first : Nat) : Prop := ∃ n, Inside size n a ∧ first = n * size

section

variable {size n a b first : Nat}

theorem inside_iff (positive : 0 < size) : Inside size n a ↔ a / size = n := by
  rw [Inside, ← Nat.le_div_iff_mul_le positive, ← Nat.div_lt_iff_lt_mul positive]
  omega

theorem same_iff (positive : 0 < size) : Same size a b ↔ a / size = b / size := by
  simp [Same, inside_iff positive, eq_comm]

theorem starts_iff (positive : 0 < size) : Starts size a first ↔ first = a / size * size := by
  simp [Starts, inside_iff positive]

/-- There is nothing in a line of size 0. -/
theorem not_starts_zero : ¬ Starts 0 a first := by
  rintro ⟨n, inside, _⟩
  exact Nat.not_lt_zero a (by simpa using inside.2)

end

/-! ## Words -/

section

variable {w k : Nat} {a b : BitVec w}

/-- The words have the same bits from `k` on. -/
def AgreeAbove (k : Nat) (a b : BitVec w) : Prop := ∀ i, k ≤ i → a.getLsbD i = b.getLsbD i

theorem agreeAbove_iff : AgreeAbove k a b ↔ Same (2 ^ k) a.toNat b.toNat := by
  rw [same_iff (Nat.two_pow_pos k)]
  constructor
  · intro agree
    apply Nat.eq_of_testBit_eq
    intro i
    rw [Nat.testBit_div_two_pow, Nat.testBit_div_two_pow]
    exact agree _ (Nat.le_add_left k i)
  · intro same i above
    have bits := congrArg (Nat.testBit · (i - k)) same
    rw [Nat.testBit_div_two_pow, Nat.testBit_div_two_pow, Nat.sub_add_cancel above] at bits
    exact bits

theorem AgreeAbove.ushiftRight (agree : AgreeAbove k a b) : a >>> k = b >>> k := by
  apply BitVec.eq_of_getLsbD_eq
  intro i _
  rw [BitVec.getLsbD_ushiftRight, BitVec.getLsbD_ushiftRight]
  exact agree _ (Nat.le_add_right k i)

/-- A mask that has no low bits selects the same bits. -/
theorem AgreeAbove.and {mask : BitVec w} (agree : AgreeAbove k a b)
    (high : ∀ i, mask.getLsbD i = true → k ≤ i) : a &&& mask = b &&& mask := by
  apply BitVec.eq_of_getLsbD_eq
  intro i _
  rw [BitVec.getLsbD_and, BitVec.getLsbD_and]
  cases isSet : mask.getLsbD i with
  | false => simp
  | true => rw [agree i (high i isSet)]

end

end MemLine
