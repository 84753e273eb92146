import Mathlib

/-! # Commands kept apart by timers

In each cycle at most one command is issued.  A command starts timers, which run down
to zero by at most one a cycle, and it waits until the timers it needs have run down.
So a command that needs a timer is at least the timer's delay behind each command that
has started it.
-/

namespace CommandTimers

variable {κ τ : Type}

structure Rules (κ τ : Type) where
  delay : τ → Nat
  starts : κ → τ → Prop
  needs : κ → τ → Prop

variable {rules : Rules κ τ}

/-- A cycle that takes the timers from `before` to `after`. -/
structure Cycle (rules : Rules κ τ) (command : Option κ) (before after : τ → Nat) : Prop where
  expired : ∀ issued ∈ command, ∀ timer, rules.needs issued timer → before timer = 0
  started : ∀ issued ∈ command, ∀ timer, rules.starts issued timer →
    rules.delay timer ≤ after timer + 1
  running : ∀ timer, before timer ≤ after timer + 1 ∨ ∃ issued ∈ command, rules.starts issued timer

/-- Commands that a timer separates are its delay apart. -/
def Spaced (rules : Rules κ τ) (history : List (Option κ)) : Prop :=
  ∀ i j first second timer, i < j → history[i]? = some (some first) →
    history[j]? = some (some second) → rules.starts first timer → rules.needs second timer →
    i + rules.delay timer ≤ j

/-- The commands of the cycles so far, and the timers after them. -/
structure Timed (rules : Rules κ τ) (history : List (Option κ)) (timers : τ → Nat) : Prop where
  spaced : Spaced rules history
  pending : ∀ i command timer, history[i]? = some (some command) → rules.starts command timer →
    i + rules.delay timer ≤ history.length + timers timer

theorem timed_nil (timers : τ → Nat) : Timed rules [] timers where
  spaced i _ _ _ _ _ here := by cases here
  pending i _ _ here := by cases here

theorem getElem?_snoc {history : List (Option κ)} {command : Option κ} {i : Nat} {found : κ}
    (here : (history ++ [command])[i]? = some (some found)) :
    history[i]? = some (some found) ∧ i < history.length ∨
      i = history.length ∧ command = some found := by
  rcases Nat.lt_trichotomy i history.length with before | rfl | after
  · rw [List.getElem?_append_left before] at here
    exact Or.inl ⟨here, before⟩
  · rw [List.getElem?_concat_length] at here
    exact Or.inr ⟨rfl, Option.some.inj here⟩
  · rw [List.getElem?_eq_none (by simp; omega)] at here
    cases here

/-- One more cycle. -/
theorem Timed.cycle {history : List (Option κ)} {command : Option κ} {before after : τ → Nat}
    (timed : Timed rules history before) (cycle : Cycle rules command before after) :
    Timed rules (history ++ [command]) after where
  spaced i j first second timer order here there starts needs := by
    cases getElem?_snoc there with
    | inl old =>
      cases getElem?_snoc here with
      | inl older => exact timed.spaced i j first second timer order older.1 old.1 starts needs
      | inr last => exact absurd old.2 (by omega)
    | inr last =>
      obtain ⟨rfl, now⟩ := last
      cases getElem?_snoc here with
      | inl older =>
        have due := timed.pending i first timer older.1 starts
        rw [cycle.expired second now timer needs] at due
        exact due
      | inr same => exact absurd order (by omega)
  pending i first timer here starts := by
    rw [List.length_append, List.length_singleton]
    cases getElem?_snoc here with
    | inl older =>
      have due := timed.pending i first timer older.1 starts
      cases cycle.running timer with
      | inl ran => omega
      | inr again =>
        obtain ⟨issued, now, starts'⟩ := again
        have restarted := cycle.started issued now timer starts'
        omega
    | inr last =>
      obtain ⟨rfl, now⟩ := last
      have started := cycle.started first now timer starts
      omega

end CommandTimers
