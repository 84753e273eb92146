import Mathlib

/-! # Reservations in a shift register

A register of bits keeps the moments that are taken: bit `i` stands for the moment `i` ahead.  It
is shifted down by one place when a moment has passed.
-/

namespace Reservations

variable {w : Nat}

/-- The bits are those of the taken moments from `now` on. -/
def Keeps (bits : BitVec w) (now : Nat) (taken : Nat → Prop) : Prop :=
  ∀ i < w, bits.getLsbD i = true ↔ taken (now + i)

variable {bits : BitVec w} {now i : Nat} {taken taken' : Nat → Prop}

theorem keeps_zero (free : ∀ moment, ¬ taken moment) : Keeps (0 : BitVec w) now taken :=
  fun i _ => iff_of_false (by simp) (free _)

theorem Keeps.congr (keeps : Keeps bits now taken)
    (same : ∀ moment, now ≤ moment → (taken moment ↔ taken' moment)) : Keeps bits now taken' :=
  fun i inside => (keeps i inside).trans (same _ (Nat.le_add_right _ _))

theorem Keeps.free_iff (keeps : Keeps bits now taken) (inside : i < w) :
    bits.getLsbD i = false ↔ ¬ taken (now + i) := by
  rw [← keeps i inside, Bool.not_eq_true]

/-- A moment passes.  The one that comes into view at the far end is not taken yet. -/
theorem Keeps.advance (keeps : Keeps bits now taken) (free : ¬ taken (now + w)) :
    Keeps (bits >>> 1) (now + 1) taken := by
  intro i inside
  rw [BitVec.getLsbD_ushiftRight, Nat.add_assoc now]
  by_cases last : 1 + i < w
  · exact keeps (1 + i) last
  · have atEnd : 1 + i = w := by omega
    rw [atEnd]
    exact iff_of_false (by simp) free

/-- A moment is taken. -/
theorem Keeps.reserve (keeps : Keeps bits now taken) (inside : i < w) :
    Keeps (bits ||| BitVec.twoPow w i) now fun moment => taken moment ∨ moment = now + i := by
  intro j below
  rw [BitVec.getLsbD_or, BitVec.getLsbD_twoPow, Bool.or_eq_true, keeps j below]
  simp [inside, eq_comm]

/-! ## Several registers -/

/-- How many of the registers have a moment taken. -/
def tally (registers : List (BitVec w)) (i : Nat) : Nat :=
  registers.countP (·.getLsbD i)

variable {registers : List (BitVec w)}

theorem tally_nil (i : Nat) : tally ([] : List (BitVec w)) i = 0 := rfl

theorem tally_cons (bits : BitVec w) (registers : List (BitVec w)) (i : Nat) :
    tally (bits :: registers) i = (bits.getLsbD i).toNat + tally registers i := by
  rw [tally, List.countP_cons, Nat.add_comm]
  cases bits.getLsbD i <;> rfl

theorem tally_le_length (registers : List (BitVec w)) (i : Nat) :
    tally registers i ≤ registers.length :=
  List.countP_le_length

theorem tally_advance (registers : List (BitVec w)) (i : Nat) :
    tally (registers.map fun bits : BitVec w => (bits >>> 1 : BitVec w)) i =
      tally registers (i + 1) := by
  rw [tally, List.countP_map]
  refine List.countP_congr fun bits _ => ?_
  rw [Function.comp_apply, BitVec.getLsbD_ushiftRight, Nat.add_comm]

theorem reserve_toNat {bits : BitVec w} {i : Nat} (inside : i < w)
    (free : bits.getLsbD i = false) (j : Nat) :
    ((bits ||| BitVec.twoPow w i).getLsbD j).toNat =
      (bits.getLsbD j).toNat + if j = i then 1 else 0 := by
  rw [BitVec.getLsbD_or, BitVec.getLsbD_twoPow]
  by_cases same : j = i
  · subst same
    rw [free]
    simp [inside]
  · simp [same, Ne.symm same]

/-- A moment is taken in one register, where it was free. -/
theorem tally_reserve {bits : BitVec w} {b : Nat} (atIndex : registers[b]? = some bits)
    (inside : i < w) (free : bits.getLsbD i = false) (j : Nat) :
    tally (registers.set b (bits ||| BitVec.twoPow w i)) j =
      tally registers j + if j = i then 1 else 0 := by
  induction registers generalizing b with
  | nil => cases atIndex
  | cons head registers ih =>
    cases b with
    | zero =>
      obtain rfl := Option.some.inj atIndex
      rw [List.set_cons_zero, tally_cons, tally_cons, reserve_toNat inside free]
      omega
    | succ b =>
      rw [List.set_cons_succ, tally_cons, tally_cons, ih atIndex]
      omega

end Reservations
