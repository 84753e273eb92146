import Mathlib

/-! # Round robin

An arbiter looks for a port from an offset on and around the circle, and moves the offset behind the
port it has found.  A port that is passed over comes nearer, so that a rank that begins with its
distance falls until it is served (`served_of_falls`).
-/

namespace RoundRobin

/-! ## The circle -/

/-- How far `p` is ahead of `offset` on a circle of `n`. -/
def ahead (n offset p : Nat) : Nat := if offset ≤ p then p - offset else p + n - offset

variable {n offset p q : Nat}

theorem ahead_lt (start : offset < n) (port : p < n) : ahead n offset p < n := by
  rw [ahead]
  split <;> omega

theorem ahead_inj (start : offset < n) (hp : p < n) (hq : q < n)
    (same : ahead n offset p = ahead n offset q) : p = q := by
  rw [ahead, ahead] at same
  split at same <;> split at same <;> omega

/-- The offset moves behind a port that is nearer. -/
theorem ahead_next (start : offset < n) (hp : p < n) (hq : q < n)
    (nearer : ahead n offset q < ahead n offset p) :
    ahead n ((q + 1) % n) p + ahead n offset q + 1 = ahead n offset p := by
  have wrapped : (q + 1) % n = if q + 1 = n then 0 else q + 1 := by
    split
    next last => rw [last, Nat.mod_self]
    next inner => exact Nat.mod_eq_of_lt (by omega)
  rw [wrapped]
  rw [ahead, ahead] at nearer
  rw [ahead, ahead, ahead]
  split_ifs at nearer ⊢ <;> omega

/-! ## The search -/

/-- The loop of an arbiter over its ports in order: from the first that is not below the offset to
    the end, then from the first of all while they are below the offset. -/
def search {n : Nat} (offset : Nat) (pred : Fin n → Bool) (ports : List (Fin n)) :
    Option (Fin n) :=
  match (ports.dropWhile fun p => p.val < offset).find? pred with
  | some p => some p
  | none =>
    match ports with
    | [] => none
    | p :: ports => if pred p then some p else (ports.takeWhile fun p => p.val < offset).find? pred

section Search

variable {n offset : Nat} {pred : Fin n → Bool} {ports : List (Fin n)} {p q : Fin n}

/-- The ports in the order in which the loop comes to them. -/
def rotated (offset : Nat) (ports : List (Fin n)) : List (Fin n) :=
  (ports.dropWhile fun p => p.val < offset) ++ ports.takeWhile fun p => p.val < offset

theorem search_eq : search offset pred ports = (rotated offset ports).find? pred := by
  unfold search
  rw [rotated, List.find?_append]
  cases first : (ports.dropWhile fun p => p.val < offset).find? pred with
  | some p => rfl
  | none =>
    rw [Option.none_or]
    cases ports with
    | nil => rfl
    | cons p ports =>
      simp only
      by_cases low : p.val < offset
      · rw [List.takeWhile_cons_of_pos (by simpa using low), List.find?_cons]
        cases pred p <;> rfl
      · -- the first port is looked at once more
        rw [List.dropWhile_cons_of_neg (by simpa using low)] at first
        rw [List.takeWhile_cons_of_neg (by simpa using low)]
        rw [List.find?_eq_none] at first
        rw [if_neg (first p List.mem_cons_self), List.find?_nil, List.find?_eq_none]
        exact fun q inside => first q (List.mem_cons_of_mem p
          ((List.takeWhile_sublist _).subset inside))

theorem mem_rotated : q ∈ rotated offset ports ↔ q ∈ ports := by
  rw [rotated, List.mem_append, or_comm, ← List.mem_append, List.takeWhile_append_dropWhile]

theorem search_some (found : search offset pred ports = some p) : p ∈ ports ∧ pred p = true := by
  rw [search_eq] at found
  exact ⟨mem_rotated.mp (List.mem_of_find?_eq_some found), List.find?_some found⟩

theorem search_finds (inside : q ∈ ports) (wanted : pred q = true) :
    ∃ p, search offset pred ports = some p := by
  rw [search_eq, ← Option.isSome_iff_exists, List.find?_isSome]
  exact ⟨q, mem_rotated.mpr inside, wanted⟩

theorem le_of_mem_dropWhile (sorted : ports.Pairwise (· < ·))
    (inside : q ∈ ports.dropWhile fun p => p.val < offset) : offset ≤ q.val := by
  induction ports with
  | nil => cases inside
  | cons p ports ih =>
    rw [List.pairwise_cons] at sorted
    by_cases low : p.val < offset
    · rw [List.dropWhile_cons_of_pos (by simpa using low)] at inside
      exact ih sorted.2 inside
    · rw [List.dropWhile_cons_of_neg (by simpa using low)] at inside
      rcases List.mem_cons.mp inside with rfl | later
      · omega
      · have above : p.val < q.val := sorted.1 q later
        omega

/-- The loop comes to the ports in the order of their distances. -/
theorem rotated_pairwise (start : offset < n) (sorted : ports.Pairwise (· < ·)) :
    (rotated offset ports).Pairwise fun p q : Fin n =>
      ahead n offset p.val < ahead n offset q.val := by
  rw [rotated, List.pairwise_append]
  refine ⟨?_, ?_, fun p high q low => ?_⟩
  · refine (sorted.sublist (List.dropWhile_sublist _)).imp_of_mem fun {p q} hp hq less => ?_
    have above := le_of_mem_dropWhile sorted hp
    have above' := le_of_mem_dropWhile sorted hq
    have less : p.val < q.val := less
    rw [ahead, ahead, if_pos above, if_pos above']
    omega
  · refine (sorted.sublist (List.takeWhile_sublist _)).imp_of_mem fun {p q} hp hq less => ?_
    have below : p.val < offset := by simpa using List.mem_takeWhile_imp hp
    have below' : q.val < offset := by simpa using List.mem_takeWhile_imp hq
    have less : p.val < q.val := less
    rw [ahead, ahead, if_neg (by omega), if_neg (by omega)]
    omega
  · have above := le_of_mem_dropWhile sorted high
    have below : q.val < offset := by simpa using List.mem_takeWhile_imp low
    rw [ahead, ahead, if_pos above, if_neg (by omega)]
    omega

theorem search_nearest (start : offset < n) (sorted : ports.Pairwise (· < ·))
    (found : search offset pred ports = some p) (inside : q ∈ ports) (wanted : pred q = true) :
    ahead n offset p ≤ ahead n offset q := by
  rw [search_eq, List.find?_eq_some_iff_append] at found
  obtain ⟨-, before, after, split, none⟩ := found
  have ordered := rotated_pairwise start sorted
  have inside := (@mem_rotated n offset ports q).mpr inside
  rw [split] at ordered inside
  rcases List.mem_append.mp inside with early | later
  · have refused := none q early
    rw [wanted] at refused
    cases refused
  · rcases List.mem_cons.mp later with rfl | later
    · exact Nat.le_refl _
    · exact Nat.le_of_lt ((List.pairwise_cons.mp (List.pairwise_append.mp ordered).2.1).1 q later)

end Search

/-! ## Waiting -/

/-- What a rank that falls counts is over when it can fall no more. -/
theorem served_of_falls {served : Nat → Prop} {rank : Nat → Nat} {t bound : Nat}
    (small : rank t < bound)
    (falls : ∀ k, t ≤ k → (∀ m, t ≤ m → m ≤ k → ¬ served m) → rank (k + 1) < rank k) :
    ∃ k < bound, served (t + k) := by
  by_contra never
  simp only [not_exists, not_and] at never
  -- each cycle without service has taken one off the rank
  have fallen : ∀ k ≤ bound, rank (t + k) + k < bound := by
    intro k inside
    induction k with
    | zero => exact small
    | succ k ih =>
      have before := ih (by omega)
      have step := falls (t + k) (Nat.le_add_right t k) fun m later sooner => by
        obtain ⟨j, rfl⟩ := Nat.exists_eq_add_of_le later
        exact never j (by omega)
      show rank (t + k + 1) + (k + 1) < bound
      omega
  have last := fallen bound (Nat.le_refl bound)
  omega

end RoundRobin
