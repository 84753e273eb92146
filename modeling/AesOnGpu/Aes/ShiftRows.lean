import AesOnGpu.Aes.AesOp
import AesOnGpu.Lib.Grouping

/-! # The row shifts of the attack

`shift_rows`, `shift_rows_full` and `inv_shift_rows` of `aes-op.cpp`.  Byte `4 * row + col` of a
text is in row `row` and column `col` of the state.
-/

namespace AesOnGpu.Aes.Op

open Fips197 (Byte)

def shift_rows (old_row old_col : Int) : Int × Int :=
  let new_col := old_col - old_row
  (old_row, if new_col < 0 then new_col + 4 else new_col)

def inv_shift_rows (old_row old_col : Int) : Int × Int :=
  let new_col := old_col + old_row
  (old_row, if new_col < 0 then new_col + 4 else new_col)

/-- An index for which `at` does not throw. -/
def index (i : Int) : Option (Fin 16) :=
  if h : 0 ≤ i ∧ i < 16 then some ⟨i.toNat, by omega⟩ else none

/-- A turn of the loop of `shift_rows_full`, which reads what the turns before have written. -/
def shiftTurn (text : Row) (i : Fin 16) : Option Row := do
  let (new_row, new_col) := shift_rows (i / 4 : Nat) (i % 4 : Nat)
  let new_index ← index (new_row * 4 + new_col)
  return Function.update text new_index (text i)

def shift_rows_full (text : Row) : Option Row := (List.finRange 16).foldlM shiftTurn text

/-! ## What the loop does -/

/-- Where a turn writes. -/
def target (i : Fin 16) : Fin 16 := entry ⟨i / 4, by omega⟩ ⟨(i % 4 + 4 - i / 4) % 4, by omega⟩

theorem shiftTurn_eq (text : Row) (i : Fin 16) :
    shiftTurn text i = some (Function.update text (target i) (text i)) := by
  have inside : index ((shift_rows (i / 4 : Nat) (i % 4 : Nat)).1 * 4 +
      (shift_rows (i / 4 : Nat) (i % 4 : Nat)).2) = some (target i) := by
    revert i
    decide
  rw [shiftTurn]
  dsimp only
  rw [inside]
  rfl

theorem shift_rows_full_eq (text : Row) :
    ∃ shifted : Row, shift_rows_full text = some shifted ∧
      wordOf shifted 0 = ![text 0, text 1, text 2, text 3] ∧
      wordOf shifted 1 = ![text 5, text 6, text 4, text 4] ∧
      wordOf shifted 2 = ![text 8, text 9, text 8, text 9] ∧
      wordOf shifted 3 = ![text 12, text 12, text 12, text 12] := by
  refine ⟨(List.finRange 16).foldl (fun text i => Function.update text (target i) (text i)) text,
    List.foldlM_eq_some (fun i _ text => shiftTurn_eq text i) text, ?_, ?_, ?_, ?_⟩
  all_goals
    funext k
    rw [wordOf]
    fin_cases k <;> rfl

/-! ## The state -/

def stateOf (text : Row) : Fips197.State := fun row col => text (entry row col)

def ShiftsRows (text : Row) : Prop :=
  ∃ shifted, shift_rows_full text = some shifted ∧
    stateOf shifted = Fips197.shiftRows (stateOf text)

/-- A byte position, as the index maps give it. -/
def place (row col : Fin 4) : Int × Int := ((row : Nat), (col : Nat))

/-- `inv_shift_rows` gives the place from which `shift_rows` moves a byte here. -/
def InvertsAt (row col : Fin 4) : Prop :=
  ∃ old_col : Fin 4, inv_shift_rows (row : Nat) (col : Nat) = place row old_col ∧
    shift_rows (row : Nat) (old_col : Nat) = place row col

/-- The bytes that are overwritten before they are moved are those that overwrite them. -/
def Survives (text : Row) : Prop :=
  text 7 = text 4 ∧ text 10 = text 8 ∧ text 11 = text 9 ∧
    text 13 = text 12 ∧ text 14 = text 12 ∧ text 15 = text 12

theorem shiftsRows_iff (text : Row) : ShiftsRows text ↔ Survives text := by
  obtain ⟨shifted, run, row0, row1, row2, row3⟩ := shift_rows_full_eq text
  have shiftsRows : ShiftsRows text ↔ stateOf shifted = Fips197.shiftRows (stateOf text) := by
    rw [ShiftsRows, run]
    simp
  rw [shiftsRows]
  constructor
  · intro same
    have at_ (row col : Fin 4) : wordOf shifted row col = text (entry row (col + row)) :=
      congrFun (congrFun same row) col
    have byte7 := at_ 1 2
    have byte10 := at_ 2 0
    have byte11 := at_ 2 1
    have byte13 := at_ 3 2
    have byte14 := at_ 3 3
    have byte15 := at_ 3 0
    rw [row1] at byte7
    rw [row2] at byte10 byte11
    rw [row3] at byte13 byte14 byte15
    exact ⟨byte7.symm, byte10.symm, byte11.symm, byte13.symm, byte14.symm, byte15.symm⟩
  · intro survives
    obtain ⟨byte7, byte10, byte11, byte13, byte14, byte15⟩ := survives
    funext row col
    change wordOf shifted row col = text (entry row (col + row))
    match row with
    | 0 =>
      rw [row0]
      fin_cases col <;> rfl
    | 1 =>
      rw [row1]
      match col with
      | 0 | 1 | 3 => rfl
      | 2 => exact byte7.symm
    | 2 =>
      rw [row2]
      match col with
      | 0 => exact byte10.symm
      | 1 => exact byte11.symm
      | 2 | 3 => rfl
    | 3 =>
      rw [row3]
      match col with
      | 0 => exact byte15.symm
      | 1 => rfl
      | 2 => exact byte13.symm
      | 3 => exact byte14.symm

theorem invertsAt_iff (row col : Fin 4) : InvertsAt row col ↔ row.val + col.val < 4 := by
  revert row col
  simp only [InvertsAt]
  decide

/-- A text's rows are shifted and a position's shift is inverted exactly when no byte of the text
    is lost and the inverse does not have to wrap. -/
theorem row_shifts_iff (text : Row) (row col : Fin 4) :
    (ShiftsRows text ∧ InvertsAt row col) ↔ Survives text ∧ row.val + col.val < 4 := by
  rw [shiftsRows_iff, invertsAt_iff]

/-- Byte 7 of the text 0, 1, …, 15 is lost. -/
theorem shift_loses_a_byte : ¬ ∀ (text : Row) (row col : Fin 4),
    ShiftsRows text ∧ InvertsAt row col := by
  intro always
  obtain ⟨shifts, -⟩ := always (fun i => i.val) 0 0
  have lost := ((shiftsRows_iff _).mp shifts).1
  revert lost
  decide

end AesOnGpu.Aes.Op
