import AesOnGpu.Aes.Words

/-! # The AES operations of the attack

The key schedule of `aes-op.cpp` and its inverse.  An index of a `Fin` type is in range, so
that `at` does not throw.
-/

namespace AesOnGpu.Aes.Op

open Fips197 (Byte)

/-- A vector of 16 bytes. -/
abbrev Row := Fin 16 → Byte

abbrev KeyTab := Fin 11 → Row

def sub_bytes (value : Byte) : Byte := sbox.getD value.toNat 0

/-- Index `j * 4 + k`. -/
def entry (j k : Fin 4) : Fin 16 := ⟨j * 4 + k, by omega⟩

/-- The array `t`, from the last four bytes of a row. -/
def rotated (last : Fin 4 → Byte) (i : Nat) : Fin 4 → Byte :=
  let t : Fin 4 → Byte := fun j => if j ≠ 3 then sub_bytes (last (j + 1)) else sub_bytes (last 0)
  Function.update t 0 (t 0 ^^^ rcon.getD i 0)

/-- `for (int k = 0; k < 4; k++) row.at(j * 4 + k) = value(k)`; a value may depend on the bytes
    written before. -/
def writeWord (j : Fin 4) (value : Row → Fin 4 → Byte) (row : Row) : Row :=
  (List.finRange 4).foldl (fun row k => Function.update row (entry j k) (value row k)) row

/-- A turn of the loop of `key_expand`: row `i` from the row before. -/
def expandRow (i : Nat) (before row : Row) : Row :=
  let t := rotated (fun j => before (entry 3 j)) i
  let row := writeWord 0 (fun _ k => t k ^^^ before (entry 0 k)) row
  (List.finRange 3).foldl (fun row j =>
    writeWord j.succ (fun row k => row (entry j.castSucc k) ^^^ before (entry j.succ k)) row) row

/-- The first `n` turns. -/
def expandRows (key_out : KeyTab) : (n : Nat) → n < 11 → KeyTab
  | 0, _ => key_out
  | n + 1, bound =>
    let before : Fin 11 := ⟨n, by omega⟩
    let key_out := expandRows key_out n (by omega)
    Function.update key_out ⟨n + 1, bound⟩
      (expandRow (n + 1) (key_out before) (key_out ⟨n + 1, bound⟩))

/-- What `key_out` holds at first does not matter. -/
def key_expand (key_in : Row) (key_out : KeyTab) : KeyTab :=
  expandRows (Function.update key_out 0 key_in) 10 (by omega)

/-- A turn of the loop of `inv_key_expand`: row `i` from the row after. -/
def invExpandRow (i : Nat) (after row : Row) : Row :=
  let row := (List.finRange 3).foldl (fun row j =>
    writeWord j.succ (fun _ k => after (entry j.castSucc k) ^^^ after (entry j.succ k)) row) row
  let t := rotated (fun j => row (entry 3 j)) (i + 1)
  writeWord 0 (fun _ k => t k ^^^ after (entry 0 k)) row

/-- The turns for row 9 down to row `i`, which are `n`. -/
def invExpandRows (key_tab : KeyTab) : (n i : Nat) → n + i = 10 → KeyTab
  | 0, _, _ => key_tab
  | n + 1, i, total =>
    let key_tab := invExpandRows key_tab n (i + 1) (by omega)
    Function.update key_tab ⟨i, by omega⟩
      (invExpandRow i (key_tab ⟨i + 1, by omega⟩) (key_tab ⟨i, by omega⟩))

/-- Returns `key_in`. -/
def inv_key_expand (key_out : Row) : Row :=
  let key_tab : KeyTab := Function.update (fun _ _ => 0) 10 key_out
  invExpandRows key_tab 10 0 (by omega) 0

/-! ## What a turn computes

A row has four words, and a turn computes each from words of the other row and words it has
computed before. -/

theorem sub_bytes_eq (value : Byte) : sub_bytes value = Fips197.sBox value := by
  rw [sub_bytes, List.getD_eq_getElem?_getD, sbox_getElem?]
  rfl

theorem entry_inj {j j' k k' : Fin 4} : entry j k = entry j' k' ↔ j = j' ∧ k = k' := by
  simp only [entry, Fin.ext_iff]
  omega

theorem exists_entry (p : Fin 16) : ∃ j k, p = entry j k :=
  ⟨⟨p / 4, by omega⟩, ⟨p % 4, by omega⟩, Fin.ext (by simp only [entry]; omega)⟩

def wordOf (row : Row) (j : Fin 4) : Fips197.Word := fun k => row (entry j k)

theorem wordOf_inj {row row' : Row} (same : ∀ j, wordOf row j = wordOf row' j) : row = row' := by
  funext p
  obtain ⟨j, k, rfl⟩ := exists_entry p
  exact congrFun (same j) k

section WriteWord

variable {j : Fin 4} {value : Row → Fin 4 → Byte} {row : Row}

/-- The values do not depend on the word that is written. -/
def Apart (j : Fin 4) (value : Row → Fin 4 → Byte) : Prop :=
  ∀ row k b, value (Function.update row (entry j k) b) = value row

theorem writeWord_same (apart : Apart j value) : wordOf (writeWord j value row) j = value row := by
  funext k
  rw [wordOf, writeWord]
  simp only [List.finRange_succ, List.finRange_zero, List.map_nil, List.map_cons, List.foldl_cons,
    List.foldl_nil, apart _ _ _]
  match k with
  | 0 => simp [entry_inj]
  | 1 => simp [entry_inj]
  | 2 => simp [entry_inj]
  | 3 => simp

theorem writeWord_other {j' : Fin 4} (other : j' ≠ j) :
    wordOf (writeWord j value row) j' = wordOf row j' := by
  funext k
  rw [wordOf, wordOf, writeWord]
  simp [List.finRange_succ, entry_inj, other]

end WriteWord

/-- A turn of `key_expand`: each word but the first is the sum of the word before it and of the
    word above it. -/
theorem expandRow_spec (i : Nat) (before row : Row) :
    (wordOf (expandRow i before row) 0 =
      fun k => rotated (wordOf before 3) i k ^^^ wordOf before 0 k) ∧
    ∀ j : Fin 3, wordOf (expandRow i before row) j.succ =
      fun k => wordOf (expandRow i before row) j.castSucc k ^^^ wordOf before j.succ k := by
  -- a turn reads the word before the one it writes
  have apart (j : Fin 3) : Apart j.succ fun row k =>
      row (entry j.castSucc k) ^^^ before (entry j.succ k) := by
    intro row k b
    funext k'
    have neighbours : j.castSucc ≠ j.succ := Fin.castSucc_lt_succ.ne
    simp [entry_inj, neighbours]
  have apart0 : Apart 0 fun _ k =>
      rotated (fun j => before (entry 3 j)) i k ^^^ before (entry 0 k) := fun _ _ _ => rfl
  let t := rotated (fun j => before (entry 3 j)) i
  let row0 := writeWord 0 (fun _ k => t k ^^^ before (entry 0 k)) row
  let row1 := writeWord 1 (fun row k => row (entry 0 k) ^^^ before (entry 1 k)) row0
  let row2 := writeWord 2 (fun row k => row (entry 1 k) ^^^ before (entry 2 k)) row1
  let row3 := writeWord 3 (fun row k => row (entry 2 k) ^^^ before (entry 3 k)) row2
  have unrolled : expandRow i before row = row3 := rfl
  have word0 : wordOf row3 0 = wordOf row0 0 := by
    rw [writeWord_other (by decide), writeWord_other (by decide), writeWord_other (by decide)]
  have word1 : wordOf row3 1 = wordOf row1 1 := by
    rw [writeWord_other (by decide), writeWord_other (by decide)]
  have word2 : wordOf row3 2 = wordOf row2 2 := writeWord_other (by decide)
  rw [unrolled]
  refine ⟨word0.trans (writeWord_same apart0), fun j => ?_⟩
  match j with
  | 0 =>
    refine (word1.trans (writeWord_same (apart 0))).trans ?_
    rw [Fin.castSucc_zero, word0]
    rfl
  | 1 =>
    refine (word2.trans (writeWord_same (apart 1))).trans ?_
    have before1 : wordOf row3 (Fin.castSucc 1) = wordOf row1 1 := word1
    rw [before1]
    rfl
  | 2 =>
    refine (writeWord_same (apart 2)).trans ?_
    have before2 : wordOf row3 (Fin.castSucc 2) = wordOf row2 2 := word2
    rw [before2]
    rfl

theorem invExpandRow_spec (i : Nat) (after row : Row) :
    (∀ j : Fin 3, wordOf (invExpandRow i after row) j.succ =
      fun k => wordOf after j.castSucc k ^^^ wordOf after j.succ k) ∧
    wordOf (invExpandRow i after row) 0 =
      fun k => rotated (wordOf (invExpandRow i after row) 3) (i + 1) k ^^^ wordOf after 0 k := by
  have apart (j : Fin 3) : Apart j.succ fun _ k =>
      after (entry j.castSucc k) ^^^ after (entry j.succ k) := fun _ _ _ => rfl
  let row1 := writeWord 1 (fun _ k => after (entry 0 k) ^^^ after (entry 1 k)) row
  let row2 := writeWord 2 (fun _ k => after (entry 1 k) ^^^ after (entry 2 k)) row1
  let row3 := writeWord 3 (fun _ k => after (entry 2 k) ^^^ after (entry 3 k)) row2
  let t := rotated (wordOf row3 3) (i + 1)
  let row0 := writeWord 0 (fun _ k => t k ^^^ after (entry 0 k)) row3
  have apart0 : Apart 0 fun _ k => t k ^^^ after (entry 0 k) := fun _ _ _ => rfl
  have unrolled : invExpandRow i after row = row0 := rfl
  have word3 : wordOf row0 3 = wordOf row3 3 := writeWord_other (by decide)
  rw [unrolled]
  refine ⟨fun j => ?_, ?_⟩
  · match j with
    | 0 =>
      have word1 : wordOf row0 1 = wordOf row1 1 := by
        rw [writeWord_other (by decide), writeWord_other (by decide), writeWord_other (by decide)]
      exact word1.trans (writeWord_same (apart 0))
    | 1 =>
      have word2 : wordOf row0 2 = wordOf row2 2 := by
        rw [writeWord_other (by decide), writeWord_other (by decide)]
      exact word2.trans (writeWord_same (apart 1))
    | 2 => exact word3.trans (writeWord_same (apart 2))
  · rw [word3]
    exact writeWord_same apart0

end AesOnGpu.Aes.Op
