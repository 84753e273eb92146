import Mathlib

/-! # Counting down what a task waits for

A task has keys of its own and waits for a number of events.  While it runs, a table holds this
number under each of its keys; the number is set when the task starts, lowered with every event,
and the entries are erased when the task is over.
-/

namespace AesOnGpu.Countdown

variable {T K : Type*} [DecidableEq K]

/-- Some entries of a table are replaced. -/
def setAll (keys : List K) (entry : Option Nat) (table : K → Option Nat) : K → Option Nat :=
  fun k => if k ∈ keys then entry else table k

theorem setAll_nil (entry : Option Nat) (table : K → Option Nat) : setAll [] entry table = table := by
  funext k
  simp [setAll]

theorem setAll_cons (key : K) (keys : List K) (entry : Option Nat) (table : K → Option Nat) :
    setAll keys entry (Function.update table key entry) = setAll (key :: keys) entry table := by
  funext k
  by_cases here : k = key
  · simp [setAll, here]
  · simp [setAll, here]

theorem setAll_of_mem {keys : List K} {k : K} (member : k ∈ keys) (entry : Option Nat)
    (table : K → Option Nat) : setAll keys entry table k = entry :=
  if_pos member

theorem setAll_of_notMem {keys : List K} {k : K} (other : k ∉ keys) (entry : Option Nat)
    (table : K → Option Nat) : setAll keys entry table k = table k :=
  if_neg other

/-- Entries that are there already. -/
theorem setAll_eq_self {keys : List K} {entry : Option Nat} {table : K → Option Nat}
    (same : ∀ k ∈ keys, table k = entry) : setAll keys entry table = table := by
  funext k
  by_cases member : k ∈ keys
  · rw [setAll_of_mem member, same k member]
  · exact setAll_of_notMem member entry table

/-- The entries of a table are the numbers that the running tasks wait for. -/
structure Counted (keys : T → List K) (table : K → Option Nat) (running : T → Prop)
    (waiting : T → Nat) : Prop where
  count : ∀ t, running t → ∀ k ∈ keys t, table k = some (waiting t)
  owner : ∀ k n, table k = some n → ∃ t, running t ∧ k ∈ keys t

/-- No two tasks have a key in common. -/
def Apart (keys : T → List K) (running : T → Prop) : Prop :=
  ∀ t, running t → ∀ u, running u → ∀ k, k ∈ keys t → k ∈ keys u → t = u

variable {keys : T → List K} {table : K → Option Nat} {running running' : T → Prop}
  {waiting waiting' : T → Nat} {task : T}

/-- A task starts, or another number is set for it. -/
theorem Counted.set (counted : Counted keys table running waiting)
    (apart : Apart keys running') (runs : ∀ t, running' t ↔ running t ∨ t = task)
    (others : ∀ t, t ≠ task → waiting' t = waiting t) {n : Nat} (own : waiting' task = n) :
    Counted keys (setAll (keys task) (some n) table) running' waiting' := by
  subst own
  constructor
  · intro t isRunning k isKey
    by_cases mine : k ∈ keys task
    · have same := apart t isRunning task ((runs task).mpr (Or.inr rfl)) k isKey mine
      rw [setAll_of_mem mine, same]
    · have other : t ≠ task := fun same => mine (same ▸ isKey)
      rw [setAll_of_notMem mine, others t other]
      exact counted.count t (((runs t).mp isRunning).resolve_right other) k isKey
  · intro k n entry
    by_cases mine : k ∈ keys task
    · exact ⟨task, (runs task).mpr (Or.inr rfl), mine⟩
    · rw [setAll_of_notMem mine] at entry
      obtain ⟨t, isRunning, isKey⟩ := counted.owner k n entry
      exact ⟨t, (runs t).mpr (Or.inl isRunning), isKey⟩

/-- A task is over. -/
theorem Counted.erase (counted : Counted keys table running waiting)
    (apart : Apart keys running) (runs : ∀ t, running' t ↔ running t ∧ t ≠ task)
    (wasRunning : running task) (others : ∀ t, t ≠ task → waiting' t = waiting t) :
    Counted keys (setAll (keys task) none table) running' waiting' := by
  constructor
  · intro t isRunning k isKey
    obtain ⟨wasRunning', other⟩ := (runs t).mp isRunning
    have notMine : k ∉ keys task := fun mine =>
      other (apart t wasRunning' task wasRunning k isKey mine)
    rw [setAll_of_notMem notMine, others t other]
    exact counted.count t wasRunning' k isKey
  · intro k n entry
    by_cases mine : k ∈ keys task
    · rw [setAll_of_mem mine] at entry
      cases entry
    · rw [setAll_of_notMem mine] at entry
      obtain ⟨t, isRunning, isKey⟩ := counted.owner k n entry
      exact ⟨t, (runs t).mpr ⟨isRunning, fun same => mine (same ▸ isKey)⟩, isKey⟩

omit [DecidableEq K] in
/-- Nothing changes for the tasks that have keys. -/
theorem Counted.congr (counted : Counted keys table running waiting)
    (runs : ∀ t, keys t ≠ [] → (running' t ↔ running t))
    (same : ∀ t, keys t ≠ [] → running t → waiting' t = waiting t) :
    Counted keys table running' waiting' := by
  constructor
  · intro t isRunning k isKey
    have hasKey := List.ne_nil_of_mem isKey
    have wasRunning := (runs t hasKey).mp isRunning
    rw [same t hasKey wasRunning]
    exact counted.count t wasRunning k isKey
  · intro k n entry
    obtain ⟨t, isRunning, isKey⟩ := counted.owner k n entry
    exact ⟨t, (runs t (List.ne_nil_of_mem isKey)).mpr isRunning, isKey⟩

end AesOnGpu.Countdown
