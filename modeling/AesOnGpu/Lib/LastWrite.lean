import Mathlib

/-! # The last write

A loop over a list keeps a value, which each item may replace.  What an item writes also depends
on a counter that the items advance.  The value at the end is what the last item wrote that wrote
anything.
-/

namespace LastWrite

variable {α β : Type*} (weight : α → Nat) (write : Nat → α → Option β)

/-- What some items add to the counter. -/
def count (items : List α) : Nat := (items.map weight).sum

def turn (state : β × Nat) (item : α) : β × Nat :=
  ((write state.2 item).getD state.1, state.2 + weight item)

@[simp] theorem count_cons (item : α) (items : List α) :
    count weight (item :: items) = weight item + count weight items := by
  rw [count, List.map_cons, List.sum_cons, count]

end LastWrite
