import Mathlib

/-! # Greedy matchings

Rows and columns are matched by going through a list of pairs: a pair that is requested is
taken when its row and its column are free.  Rows may be taken beforehand.  What is taken in
the end is a matching of the requests, and it is maximal among the pairs of the list.
-/

namespace AesOnGpu

/-- Who a row, and who a column, has been matched with. -/
structure Matching (I J : Type*) where
  row : I → Option J
  column : J → Option I

namespace Matching

variable {I J : Type*} [DecidableEq I] [DecidableEq J]

def grant (m : Matching I J) (pair : I × J) : Matching I J :=
  ⟨Function.update m.row pair.1 (some pair.2), Function.update m.column pair.2 (some pair.1)⟩

def turn (request : I → J → Bool) (m : Matching I J) (pair : I × J) : Matching I J :=
  if m.row pair.1 = none ∧ m.column pair.2 = none ∧ request pair.1 pair.2 then m.grant pair else m

/-- What has been matched stays, and what is new is requested and was free. -/
structure Extends (request : I → J → Bool) (m m' : Matching I J) : Prop where
  row_mono : ∀ {i j}, m.row i = some j → m'.row i = some j
  column_mono : ∀ {i j}, m.column j = some i → m'.column j = some i
  granted : ∀ {i j}, m.row i = none → m'.row i = some j →
    request i j = true ∧ m.column j = none ∧ m'.column j = some i
  matched : ∀ {i j}, m.column j = none → m'.column j = some i →
    m.row i = none ∧ m'.row i = some j

variable {request : I → J → Bool} {m m' m'' : Matching I J}

omit [DecidableEq I] [DecidableEq J] in
theorem Extends.refl (m : Matching I J) : Extends request m m where
  row_mono := id
  column_mono := id
  granted := fun hnone hsome => by rw [hnone] at hsome; cases hsome
  matched := fun hnone hsome => by rw [hnone] at hsome; cases hsome

omit [DecidableEq I] [DecidableEq J] in
theorem Extends.trans (first : Extends request m m') (second : Extends request m' m'') :
    Extends request m m'' where
  row_mono := fun h => second.row_mono (first.row_mono h)
  column_mono := fun h => second.column_mono (first.column_mono h)
  granted := by
    intro i j hnone hsome
    cases hmid : m'.row i with
    | none =>
        obtain ⟨hrequest, hfree, hcolumn⟩ := second.granted hmid hsome
        refine ⟨hrequest, ?_, hcolumn⟩
        cases hold : m.column j with
        | none => rfl
        | some k => rw [first.column_mono hold] at hfree; cases hfree
    | some k =>
        obtain rfl : k = j := Option.some.inj ((second.row_mono hmid).symm.trans hsome)
        obtain ⟨hrequest, hfree, hcolumn⟩ := first.granted hnone hmid
        exact ⟨hrequest, hfree, second.column_mono hcolumn⟩
  matched := by
    intro i j hnone hsome
    cases hmid : m'.column j with
    | none =>
        obtain ⟨hfree, hrow⟩ := second.matched hmid hsome
        refine ⟨?_, hrow⟩
        cases hold : m.row i with
        | none => rfl
        | some k => rw [first.row_mono hold] at hfree; cases hfree
    | some k =>
        obtain rfl : k = i := Option.some.inj ((second.column_mono hmid).symm.trans hsome)
        obtain ⟨hfree, hrow⟩ := first.matched hnone hmid
        exact ⟨hfree, second.row_mono hrow⟩

theorem extends_grant {pair : I × J} (hrow : m.row pair.1 = none) (hcolumn : m.column pair.2 = none)
    (hrequest : request pair.1 pair.2 = true) : Extends request m (m.grant pair) where
  row_mono := by
    intro i j h
    have hne : i ≠ pair.1 := by
      rintro rfl
      rw [hrow] at h
      cases h
    simpa [grant, hne] using h
  column_mono := by
    intro i j h
    have hne : j ≠ pair.2 := by
      rintro rfl
      rw [hcolumn] at h
      cases h
    simpa [grant, hne] using h
  granted := by
    intro i j hnone hsome
    by_cases hi : i = pair.1
    · subst hi
      obtain rfl : pair.2 = j := by simpa [grant] using hsome
      exact ⟨hrequest, hcolumn, by simp [grant]⟩
    · simp [grant, hi, hnone] at hsome
  matched := by
    intro i j hnone hsome
    by_cases hj : j = pair.2
    · subst hj
      obtain rfl : pair.1 = i := by simpa [grant] using hsome
      exact ⟨hrow, by simp [grant]⟩
    · simp [grant, hj, hnone] at hsome

theorem extends_turn (pair : I × J) : Extends request m (m.turn request pair) := by
  rw [turn]
  split
  next h => exact extends_grant h.1 h.2.1 h.2.2
  next => exact .refl m

/-- After its turn a requested pair cannot be added any more. -/
theorem turn_blocked {pair : I × J} (hrequest : request pair.1 pair.2 = true) :
    (m.turn request pair).row pair.1 ≠ none ∨ (m.turn request pair).column pair.2 ≠ none := by
  rw [turn]
  split
  next => exact Or.inl (by simp [grant])
  next h =>
    by_contra hfree
    rw [not_or, not_not, not_not] at hfree
    exact h ⟨hfree.1, hfree.2, hrequest⟩

theorem extends_foldl (pairs : List (I × J)) : Extends request m (pairs.foldl (turn request) m) := by
  induction pairs generalizing m with
  | nil => exact .refl m
  | cons pair pairs ih => exact (extends_turn pair).trans ih

theorem foldl_maximal {pairs : List (I × J)} {pair : I × J} (hmem : pair ∈ pairs)
    (hrequest : request pair.1 pair.2 = true) :
    (pairs.foldl (turn request) m).row pair.1 ≠ none ∨
      (pairs.foldl (turn request) m).column pair.2 ≠ none := by
  induction pairs generalizing m with
  | nil => cases hmem
  | cons first pairs ih =>
      cases List.mem_cons.mp hmem with
      | inl hfirst =>
          subst hfirst
          have hrest : Extends request (m.turn request pair) _ := extends_foldl pairs
          cases turn_blocked (m := m) hrequest with
          | inl hrow =>
              obtain ⟨j, hj⟩ := Option.ne_none_iff_exists'.mp hrow
              exact Or.inl (by rw [List.foldl_cons, hrest.row_mono hj]; exact Option.some_ne_none j)
          | inr hcolumn =>
              obtain ⟨i, hi⟩ := Option.ne_none_iff_exists'.mp hcolumn
              exact Or.inr
                (by rw [List.foldl_cons, hrest.column_mono hi]; exact Option.some_ne_none i)
      | inr hlater => exact ih hlater

/-- A requested pair is taken when no other of the first pairs has its row or its column. -/
theorem foldl_grants {first rest : List (I × J)} {pair : I × J} (hmem : pair ∈ first)
    (hrow : m.row pair.1 = none) (hcolumn : m.column pair.2 = none)
    (hrequest : request pair.1 pair.2 = true)
    (hothers : ∀ other ∈ first, other ≠ pair → other.1 ≠ pair.1 ∧ other.2 ≠ pair.2) :
    ((first ++ rest).foldl (turn request) m).row pair.1 = some pair.2 := by
  induction first generalizing m with
  | nil => cases hmem
  | cons other first ih =>
      by_cases hfirst : other = pair
      · subst hfirst
        have hturn : (m.turn request other).row other.1 = some other.2 := by
          rw [turn, if_pos ⟨hrow, hcolumn, hrequest⟩]
          simp [grant]
        exact (extends_foldl (first ++ rest)).row_mono hturn
      · obtain ⟨hi, hj⟩ := hothers other List.mem_cons_self hfirst
        refine ih ((List.mem_cons.mp hmem).resolve_left (Ne.symm hfirst)) ?_ ?_
          fun later hlater => hothers later (List.mem_cons_of_mem other hlater)
        · rw [turn]
          split
          next => simpa [grant, Ne.symm hi] using hrow
          next => exact hrow
        · rw [turn]
          split
          next => simpa [grant, Ne.symm hj] using hcolumn
          next => exact hcolumn

/-- Only the pairs of the list are matched. -/
theorem mem_of_foldl_column {pairs : List (I × J)} {i : I} {j : J} (hfree : m.column j = none)
    (hsome : (pairs.foldl (turn request) m).column j = some i) : (i, j) ∈ pairs := by
  induction pairs generalizing m with
  | nil =>
      rw [List.foldl_nil, hfree] at hsome
      cases hsome
  | cons first pairs ih =>
      cases hturn : (m.turn request first).column j with
      | none => exact List.mem_cons_of_mem _ (ih hturn hsome)
      | some k =>
          have hrest : Extends request (m.turn request first) _ := extends_foldl pairs
          obtain rfl : k = i := Option.some.inj ((hrest.column_mono hturn).symm.trans hsome)
          rw [turn] at hturn
          split at hturn
          next h =>
            have hj : j = first.2 := by
              by_contra hne
              simp [grant, hne, hfree] at hturn
            subst hj
            obtain rfl : first.1 = k := by simpa [grant] using hturn
            exact List.mem_cons_self
          next =>
            rw [hfree] at hturn
            cases hturn

end Matching

end AesOnGpu
