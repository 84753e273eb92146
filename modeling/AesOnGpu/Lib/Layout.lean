import Mathlib

/-! # Items of various sizes in a row

Items lie one after the other in an array of cells. The first cell of an item names it and its
other cells are empty; an item of size 0 takes no cell. Cells behind the last item are unset.
-/

namespace Layout

/-- An array of cells: unset, empty, or with an item. -/
abbrev Cells := Nat → Option (Option Nat)

/-- Put item `k` into the cells from `n` on. -/
def place (cells : Cells) (n k size : Nat) : Cells := fun a =>
  if n ≤ a ∧ a < n + size then some (if a = n then some k else none) else cells a

/-- Where the item at a place of the row starts. -/
def start (sizes : List Nat) (k : Nat) : Nat := (sizes.take k).sum

variable {sizes : List Nat} {cells : Cells} {n k size a : Nat}

/-! ## Starts -/

@[simp] theorem start_zero : start sizes 0 = 0 := by simp [start]

theorem start_succ (item : sizes[k]? = some size) : start sizes (k + 1) = start sizes k + size := by
  simp [start, List.take_add_one, item]

/-- Items behind do not move those before. -/
theorem start_append (before : k ≤ sizes.length) (behind : List Nat) :
    start (sizes ++ behind) k = start sizes k := by
  rw [start, start, List.take_append_of_le_length before]

theorem start_length (sizes : List Nat) : start sizes sizes.length = sizes.sum := by
  rw [start, List.take_length]

/-- Items of size 0 start where the next item starts. -/
theorem start_eq_of_zeros {j : Nat} (before : k ≤ j)
    (zeros : ∀ i, k ≤ i → i < j → sizes[i]? = some 0) : start sizes k = start sizes j := by
  induction j, before using Nat.le_induction with
  | base => rfl
  | succ j before ih =>
    rw [ih fun i above below => zeros i above (Nat.lt_succ_of_lt below),
      start_succ (zeros j before (Nat.lt_succ_self j)), Nat.add_zero]

theorem start_mono (sizes : List Nat) : Monotone (start sizes) :=
  monotone_nat_of_le_succ fun k => by simp [start, List.take_add_one]

theorem start_le_length (sizes : List Nat) (k : Nat) : start sizes k ≤ start sizes sizes.length := by
  rw [start_length, start]
  exact (List.take_sublist k sizes).sum_le_sum fun _ _ => Nat.zero_le _

/-! ## Cells -/

/-- The cells hold the items. -/
structure Laid (sizes : List Nat) (cells : Cells) : Prop where
  item : ∀ k size, sizes[k]? = some size → 0 < size → cells (start sizes k) = some (some k)
  empty : ∀ k size i, sizes[k]? = some size → 0 < i → i < size →
    cells (start sizes k + i) = some none
  unset : ∀ a, start sizes sizes.length ≤ a → cells a = none

theorem Laid.nil : Laid [] fun _ => none where
  item _ _ item := by simp at item
  empty _ _ _ item := by simp at item
  unset _ _ := rfl

/-- An item of a longer row is an old one or the last. -/
theorem getElem?_append_singleton {α : Type*} {items : List α} {last item : α} :
    (items ++ [last])[k]? = some item ↔
      items[k]? = some item ∨ k = items.length ∧ last = item := by
  cases Nat.lt_or_ge k items.length with
  | inl before =>
    have other : k ≠ items.length := Nat.ne_of_lt before
    rw [List.getElem?_append_left before]
    simp [other]
  | inr behind =>
    rw [List.getElem?_append_right behind, List.getElem?_singleton,
      List.getElem?_eq_none behind]
    split
    · simp
      omega
    · simp
      omega

@[simp] theorem place_zero (cells : Cells) (n k : Nat) : place cells n k 0 = cells := by
  funext a
  exact if_neg (by omega)

/-- One more item. -/
theorem Laid.append (laid : Laid sizes cells) (size : Nat) :
    Laid (sizes ++ [size]) (place cells (start sizes sizes.length) sizes.length size) := by
  have whole : start (sizes ++ [size]) (sizes ++ [size]).length =
      start sizes sizes.length + size := by
    rw [start_length, start_length, List.sum_append, List.sum_singleton]
  -- an item that was there before lies below the new one
  have older {k size' i : Nat} (item : sizes[k]? = some size') (inside : i < size') :
      place cells (start sizes sizes.length) sizes.length size (start sizes k + i) =
        cells (start sizes k + i) := by
    have below := start_le_length sizes (k + 1)
    rw [start_succ item] at below
    exact if_neg (by omega)
  have at_end : start (sizes ++ [size]) sizes.length = start sizes sizes.length :=
    start_append (Nat.le_refl _) _
  constructor
  case item =>
    intro k size' item positive
    cases getElem?_append_singleton.mp item with
    | inl old =>
      have before := (List.getElem?_eq_some_iff.mp old).1
      rw [start_append (Nat.le_of_lt before)]
      exact (older old positive).trans (laid.item k size' old positive)
    | inr last =>
      obtain ⟨rfl, rfl⟩ := last
      rw [at_end, place, if_pos ⟨Nat.le_refl _, Nat.lt_add_of_pos_right positive⟩, if_pos rfl]
  case empty =>
    intro k size' i item positive inside
    cases getElem?_append_singleton.mp item with
    | inl old =>
      have before := (List.getElem?_eq_some_iff.mp old).1
      rw [start_append (Nat.le_of_lt before), older old inside]
      exact laid.empty k size' i old positive inside
    | inr last =>
      obtain ⟨rfl, rfl⟩ := last
      rw [at_end, place, if_pos (by omega), if_neg (by omega)]
  case unset =>
    intro a beyond
    rw [whole] at beyond
    rw [place, if_neg (by omega)]
    exact laid.unset a (by omega)

end Layout
