import Mathlib

/-! # Flat memories

A memory without structure: one cell for each address.  Lists of cells are
written and read at consecutive addresses.
-/

/-- One cell for each address. -/
def Flat (α : Type*) := Nat → α

namespace Flat

variable {α : Type*} (flat : Flat α)

def write (addr : Nat) (data : List α) : Flat α :=
  fun a => if addr ≤ a then data.getD (a - addr) (flat a) else flat a

def read (addr length : Nat) : List α := (List.range length).map fun i => flat (addr + i)

variable {addr : Nat} {data : List α} {a : Nat}

theorem write_below (below : a < addr) : flat.write addr data a = flat a :=
  if_neg (Nat.not_le.mpr below)

theorem write_above (above : addr + data.length ≤ a) : flat.write addr data a = flat a := by
  rw [write, if_pos (Nat.le_trans (Nat.le_add_right _ _) above), List.getD_eq_default]
  omega

theorem write_inside {i : Nat} (inside : i < data.length) :
    flat.write addr data (addr + i) = data[i] := by
  rw [write, if_pos (Nat.le_add_right _ _), Nat.add_sub_cancel_left, List.getD_eq_getElem _ _ inside]

@[simp] theorem write_nil (addr : Nat) : flat.write addr [] = flat := by
  funext a
  cases Nat.lt_or_ge a addr with
  | inl below => exact flat.write_below below
  | inr above => exact flat.write_above above

/-- A list can be written in two parts. -/
theorem write_append (addr : Nat) (first second : List α) :
    flat.write addr (first ++ second) =
      (flat.write addr first).write (addr + first.length) second := by
  funext a
  by_cases below : a < addr
  · rw [write_below _ below, write_below _ (by omega), write_below _ below]
  · obtain ⟨i, rfl⟩ := Nat.exists_eq_add_of_le (Nat.not_lt.mp below)
    by_cases inFirst : i < first.length
    · have inBoth : i < (first ++ second).length := by
        rw [List.length_append]
        omega
      rw [write_inside _ inBoth, write_below _ (by omega), write_inside _ inFirst,
        List.getElem_append_left inFirst]
    · obtain ⟨j, rfl⟩ := Nat.exists_eq_add_of_le (Nat.not_lt.mp inFirst)
      by_cases inSecond : j < second.length
      · have inBoth : first.length + j < (first ++ second).length := by
          rw [List.length_append]
          omega
        rw [write_inside _ inBoth, ← Nat.add_assoc, write_inside _ inSecond,
          List.getElem_append_right (Nat.le_add_right _ _)]
        simp only [Nat.add_sub_cancel_left]
      · rw [write_above _ (by rw [List.length_append]; omega), write_above _ (by omega),
          write_above _ (by omega)]

theorem write_cons (addr : Nat) (first : α) (rest : List α) :
    flat.write addr (first :: rest) = (flat.write addr [first]).write (addr + 1) rest :=
  flat.write_append addr [first] rest

@[simp] theorem length_read (addr length : Nat) : (flat.read addr length).length = length := by
  simp [read]

@[simp] theorem read_zero (addr : Nat) : flat.read addr 0 = [] := rfl

theorem getElem_read {length i : Nat} (inside : i < (flat.read addr length).length) :
    (flat.read addr length)[i] = flat (addr + i) := by
  simp [read]

theorem read_congr {other : Flat α} {addr addr' length : Nat}
    (same : ∀ i < length, flat (addr + i) = other (addr' + i)) :
    flat.read addr length = other.read addr' length :=
  List.map_congr_left fun i inside => same i (List.mem_range.mp inside)

/-- A list can be read in two parts. -/
theorem read_add (addr first second : Nat) :
    flat.read addr (first + second) = flat.read addr first ++ flat.read (addr + first) second := by
  rw [read, List.range_add, List.map_append, List.map_map]
  simp only [read, Function.comp_def, Nat.add_assoc]

/-- What has been written is read. -/
theorem read_write (addr : Nat) (data : List α) :
    (flat.write addr data).read addr data.length = data := by
  apply List.ext_getElem
  · rw [length_read]
  · intro i _ inside
    rw [getElem_read, write_inside _ inside]

/-- What has been written elsewhere does not matter. -/
theorem read_write_of_disjoint {other length : Nat}
    (disjoint : addr + data.length ≤ other ∨ other + length ≤ addr) :
    (flat.write addr data).read other length = flat.read other length := by
  apply List.ext_getElem
  · rw [length_read, length_read]
  · intro i inside _
    rw [length_read] at inside
    rw [getElem_read, getElem_read]
    cases disjoint with
    | inl before => exact write_above _ (by omega)
    | inr after => exact write_below _ (by omega)

end Flat
