import Mathlib

/-! # Sizes that are written out

A literal of `Fin n` needs that `n` is not zero, and a size often has to be positive.  The numbers
that are written out have these facts under a name, so that a value is the same term wherever it
stands.
-/

namespace FinLiterals

instance neZero_one : NeZero 1 := ⟨Nat.one_ne_zero⟩

instance neZero_two : NeZero 2 := ⟨Nat.succ_ne_zero 1⟩

instance neZero_three : NeZero 3 := ⟨Nat.succ_ne_zero 2⟩

instance neZero_four : NeZero 4 := ⟨Nat.succ_ne_zero 3⟩

instance neZero_eight : NeZero 8 := ⟨Nat.succ_ne_zero 7⟩

theorem two_pos : 0 < 2 := Nat.succ_pos 1

theorem eight_pos : 0 < 8 := Nat.succ_pos 7

theorem thirtyTwo_pos : 0 < 32 := Nat.succ_pos 31

end FinLiterals
