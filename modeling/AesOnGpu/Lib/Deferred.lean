import Mathlib

/-! # Deferred reads and writes

A queue of reads and writes that are still to be performed on a store.  A read that is put
in the queue when the store of the future holds a value finds this value at its turn,
whatever the writes that are queued behind it.
-/

universe u v

namespace Deferred

inductive Op (ι : Type u) (β : Type v) where
  | write (i : ι) (value : β)
  | read (i : ι) (value : β)

variable {ι : Type u} {β : Type v} [DecidableEq ι]

def Op.perform (store : ι → β) : Op ι β → ι → β
  | .write i value => Function.update store i value
  | .read _ _ => store

/-- The store when all of the queue is performed. -/
def future (store : ι → β) (queue : List (Op ι β)) : ι → β := queue.foldl Op.perform store

/-- What the operation expects of the store at its turn. -/
def Op.Finds (store : ι → β) : Op ι β → Prop
  | .write _ _ => True
  | .read i value => store i = value

/-- Each read of the queue finds its value at its turn. -/
def AllFind : (ι → β) → List (Op ι β) → Prop
  | _, [] => True
  | store, op :: queue => op.Finds store ∧ AllFind (op.perform store) queue

variable {store : ι → β} {queue : List (Op ι β)} {op : Op ι β}

@[simp] theorem future_cons : future store (op :: queue) = future (op.perform store) queue := rfl

@[simp] theorem future_concat : future store (queue ++ [op]) = op.perform (future store queue) := by
  rw [future, List.foldl_append]
  rfl

/-- An operation joins the queue. -/
theorem allFind_concat :
    AllFind store (queue ++ [op]) ↔ AllFind store queue ∧ op.Finds (future store queue) := by
  induction queue generalizing store with
  | nil => simp [AllFind, future]
  | cons first queue ih =>
    rw [List.cons_append, AllFind, AllFind, ih, and_assoc]
    rfl

end Deferred
