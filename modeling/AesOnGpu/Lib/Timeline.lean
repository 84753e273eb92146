import Mathlib

/-! # Timelines

A timeline lists what happens at each moment, `none` where nothing does.  Its marks
are the moments at which something happens, with what happens.
-/

namespace Timeline

variable {α : Type}

/-- The marks of a timeline that begins at moment `start`. -/
def marksFrom : Nat → List (Option α) → List (Nat × α)
  | _, [] => []
  | start, none :: rest => marksFrom (start + 1) rest
  | start, some a :: rest => (start, a) :: marksFrom (start + 1) rest

def marks (line : List (Option α)) : List (Nat × α) := marksFrom 0 line

theorem marksFrom_append (start : Nat) (first second : List (Option α)) :
    marksFrom start (first ++ second) =
      marksFrom start first ++ marksFrom (start + first.length) second := by
  induction first generalizing start with
  | nil => rfl
  | cons entry rest ih =>
    have shift : start + (rest.length + 1) = start + 1 + rest.length := by omega
    cases entry <;> simp [marksFrom, ih, shift]

theorem marksFrom_none (start k : Nat) :
    marksFrom start (List.replicate k (none : Option α)) = [] := by
  induction k generalizing start with
  | zero => rfl
  | succ k ih => simp [List.replicate_succ, marksFrom, ih]

/-- Empty moments at the end do not show. -/
theorem marks_append_none (line : List (Option α)) (k : Nat) :
    marks (line ++ List.replicate k none) = marks line := by
  rw [marks, marksFrom_append, marksFrom_none, List.append_nil, marks]

theorem marks_append_some (line : List (Option α)) (a : α) :
    marks (line ++ [some a]) = marks line ++ [(line.length, a)] := by
  rw [marks, marksFrom_append, Nat.zero_add]
  rfl

theorem marks_prefix (first second : List (Option α)) :
    marks first <+: marks (first ++ second) := by
  rw [marks, marks, marksFrom_append]
  exact List.prefix_append _ _

theorem marksFrom_map_snd (start : Nat) (line : List (Option α)) :
    (marksFrom start line).map Prod.snd = line.filterMap id := by
  induction line generalizing start with
  | nil => rfl
  | cons entry rest ih =>
    cases entry with
    | none => exact ih (start + 1)
    | some a => exact congrArg (a :: ·) (ih (start + 1))

/-- What happens, without the moments. -/
theorem marks_map_snd (line : List (Option α)) :
    (marks line).map Prod.snd = line.filterMap id := marksFrom_map_snd 0 line

end Timeline
