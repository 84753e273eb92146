import Mathlib

/-! # Sorting by a strict weak order

What is known of the result of a sort that need not be stable: it is the same elements in
some order that the comparison does not contradict.  Where an element comes is not known any
better than that: it may come after everything that does not have to come after it.
-/

namespace WeakOrder

variable {α : Type*}

/-- A comparison that a sort can be given. -/
structure StrictWeak (less : α → α → Bool) : Prop where
  asymm : ∀ {a b}, less a b → less b a = false
  split : ∀ {a c} (b), less a c → less a b ∨ less b c

/-- A sort that is right for each comparison that it can be given. -/
structure Sorting (α : Type*) where
  sort : (α → α → Bool) → List α → List α
  perm : ∀ less items, (sort less items).Perm items
  ordered : ∀ {less : α → α → Bool}, StrictWeak less → ∀ items,
    (sort less items).Pairwise fun a b => less b a = false

variable {less : α → α → Bool}

theorem StrictWeak.trans (weak : StrictWeak less) {a b c : α} (ab : less a b) (bc : less b c) :
    less a c := by
  cases weak.split c ab with
  | inl ac => exact ac
  | inr cb =>
    rw [weak.asymm bc] at cb
    cases cb

/-- The elements before one of them do not have to come after it. -/
theorem Sorting.before_subset (sorting : Sorting α) (weak : StrictWeak less) {items : List α}
    (distinct : items.Nodup) {before after : List α} {pivot : α}
    (split : sorting.sort less items = before ++ pivot :: after) :
    before.Nodup ∧ ∀ a ∈ before, a ∈ items ∧ a ≠ pivot ∧ less pivot a = false := by
  have ordered := sorting.ordered weak items
  have nodup := (sorting.perm less items).nodup_iff.mpr distinct
  rw [split] at ordered nodup
  refine ⟨nodup.of_append_left, fun a here => ⟨?_, ?_, ?_⟩⟩
  · apply (sorting.perm less items).subset
    rw [split]
    exact List.mem_append_left _ here
  · rintro rfl
    exact List.disjoint_of_nodup_append nodup here List.mem_cons_self
  · exact (List.pairwise_append.mp ordered).2.2 a here pivot List.mem_cons_self

/-! ## A sort that puts one element as late as it can -/

section

variable [DecidableEq α]

/-- The elements that may come before the pivot, and then those that must not. -/
def lateSort (pivot : α) (less : α → α → Bool) (items : List α) : List α :=
  let sorted := (items.erase pivot).insertionSort fun a b => less b a = false
  sorted.filter (fun a => less pivot a = false) ++
    (if pivot ∈ items then [pivot] else []) ++ sorted.filter fun a => less pivot a

theorem lateSort_perm (pivot : α) (less : α → α → Bool) (items : List α) :
    (lateSort pivot less items).Perm items := by
  have halves := List.filter_append_perm (fun a => decide (less pivot a = false))
    ((items.erase pivot).insertionSort fun a b => less b a = false)
  have others := halves.trans (List.perm_insertionSort _ (items.erase pivot))
  rw [lateSort]
  by_cases here : pivot ∈ items
  · simp only [if_pos here]
    refine .trans ?_ (List.perm_cons_erase here).symm
    refine .trans ?_ (others.cons pivot)
    simp [List.perm_middle]
  · simp only [if_neg here, List.append_nil]
    rw [List.erase_of_not_mem here] at others ⊢
    simpa using others

theorem lateSort_ordered (pivot : α) (weak : StrictWeak less) (items : List α) :
    (lateSort pivot less items).Pairwise fun a b => less b a = false := by
  have total : Std.Total fun a b => less b a = false := by
    constructor
    intro a b
    cases ba : less b a with
    | false => exact Or.inl rfl
    | true => exact Or.inr (weak.asymm ba)
  have trans : IsTrans α fun a b => less b a = false := by
    constructor
    intro a b c ba cb
    by_contra ca
    cases weak.split b (Bool.eq_true_of_not_eq_false ca) with
    | inl cb' => simp [cb] at cb'
    | inr ba' => simp [ba] at ba'
  have sorted := List.pairwise_insertionSort (fun a b => less b a = false) (items.erase pivot)
  have same : less pivot pivot = false := by
    by_contra self
    exact self (weak.asymm (Bool.eq_true_of_not_eq_false self))
  rw [lateSort]
  simp only [List.append_assoc]
  refine List.pairwise_append.mpr ⟨sorted.filter _, List.pairwise_append.mpr ⟨?_, sorted.filter _, ?_⟩, ?_⟩
  · split <;> simp
  · intro a here b after
    split at here
    · simp only [List.mem_singleton] at here
      simp only [List.mem_filter] at after
      exact here ▸ weak.asymm after.2
    · cases here
  · intro a here b after
    simp only [List.mem_filter, decide_eq_true_eq] at here
    simp only [List.mem_append, List.mem_filter] at after
    cases after with
    | inl atPivot =>
      split at atPivot
      · simp only [List.mem_singleton] at atPivot
        exact atPivot ▸ here.2
      · cases atPivot
    | inr after =>
      -- `b` is after the pivot, and so is what `b` is before
      by_contra ba
      have := weak.trans after.2 (Bool.eq_true_of_not_eq_false ba)
      simp [here.2] at this

def Sorting.late (pivot : α) : Sorting α where
  sort := lateSort pivot
  perm := lateSort_perm pivot
  ordered := lateSort_ordered pivot

/-- The late sort has all that may come before the pivot before it. -/
theorem lateSort_take {pivot : α} {items : List α} {num : Nat}
    (distinct : items.Nodup)
    (many : num ≤ (items.filter fun a => a ≠ pivot ∧ less pivot a = false).length) :
    pivot ∉ (lateSort pivot less items).take num := by
  have erased := distinct.erase pivot
  have sorted := List.perm_insertionSort (fun a b => less b a = false) (items.erase pivot)
  have lengths : (((items.erase pivot).insertionSort fun a b => less b a = false).filter
      fun a => less pivot a = false).length =
        (items.filter fun a => a ≠ pivot ∧ less pivot a = false).length := by
    rw [(sorted.filter _).length_eq, distinct.erase_eq_filter, List.filter_filter]
    congr 2
    funext a
    by_cases same : a = pivot <;> simp [same]
  rw [lateSort, List.append_assoc, List.take_append_of_le_length (lengths ▸ many)]
  intro here
  have inSorted := (List.mem_filter.mp (List.mem_of_mem_take here)).1
  exact distinct.not_mem_erase (sorted.mem_iff.mp inSorted)

end

end WeakOrder
