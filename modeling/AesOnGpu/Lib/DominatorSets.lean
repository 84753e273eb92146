import AesOnGpu.Lib.Postdominance

/-! # Postdominators by shrinking sets

Each vertex has a set, that of the exit with the exit alone and the others full.  The set of a vertex
is recomputed from the sets of its successors, in any order, until nothing changes.  Every
postdominator stays in the sets, and a set that is recomputed never grows; the sets that no
recomputation changes are the postdominators.

Among the strict postdominators of a vertex the immediate one is the one that is left when every
one that postdominates another is removed.
-/

namespace FlowGraph

variable {V : Type*} {edge : V → V → Prop} {exit : V}

/-! ## Sets -/

/-- `T` is what the sets of the successors make the set of `v`. -/
def Recomputes (edge : V → V → Prop) (sets : V → Finset V) (v : V) (T : Finset V) : Prop :=
  ∀ d, d ∈ T ↔ d = v ∨ ∀ w, edge v w → d ∈ sets w

/-- The sets are between the postdominators and what one more recomputation would make of them. -/
structure Narrowing (edge : V → V → Prop) (exit : V) (sets : V → Finset V) : Prop where
  sound : ∀ v d, Postdominates edge exit d v → d ∈ sets v
  exitOnly : sets exit = {exit}
  shrinking : ∀ v, v ≠ exit → ∀ d, (d = v ∨ ∀ w, edge v w → d ∈ sets w) → d ∈ sets v

section Narrowing

variable {sets : V → Finset V}

theorem Narrowing.full [Fintype V] (atExit : sets exit = {exit})
    (elsewhere : ∀ v, v ≠ exit → sets v = Finset.univ) : Narrowing edge exit sets where
  sound v d dominates := by
    by_cases isExit : v = exit
    · subst isExit
      rw [postdominates_exit dominates, atExit]
      exact Finset.mem_singleton_self v
    · rw [elsewhere v isExit]
      exact Finset.mem_univ d
  exitOnly := atExit
  shrinking v notExit d _ := by
    rw [elsewhere v notExit]
    exact Finset.mem_univ d

theorem Narrowing.subset {v : V} {T : Finset V} (narrowing : Narrowing edge exit sets)
    (notExit : v ≠ exit) (recomputes : Recomputes edge sets v T) : T ⊆ sets v :=
  fun d member => narrowing.shrinking v notExit d ((recomputes d).mp member)

theorem Narrowing.update_subset [DecidableEq V] {v : V} {T : Finset V}
    (narrowing : Narrowing edge exit sets) (notExit : v ≠ exit)
    (recomputes : Recomputes edge sets v T) (w : V) : Function.update sets v T w ⊆ sets w := by
  by_cases same : w = v
  · subst same
    rw [Function.update_self]
    exact narrowing.subset notExit recomputes
  · rw [Function.update_of_ne same]

theorem Narrowing.update [DecidableEq V] {v : V} {T : Finset V}
    (narrowing : Narrowing edge exit sets) (notExit : v ≠ exit)
    (recomputes : Recomputes edge sets v T) : Narrowing edge exit (Function.update sets v T) where
  sound w d dominates := by
    by_cases same : w = v
    · subst same
      rw [Function.update_self, recomputes]
      exact ((postdominates_iff notExit).mp dominates).imp_right fun each x forward =>
        narrowing.sound x d (each x forward)
    · rw [Function.update_of_ne same]
      exact narrowing.sound w d dominates
  exitOnly := by
    rw [Function.update_of_ne notExit.symm, narrowing.exitOnly]
  shrinking w wNotExit d recomputed := by
    -- smaller sets of the successors make a smaller recomputed set
    have before : d = w ∨ ∀ x, edge w x → d ∈ sets x := recomputed.imp_right fun each x forward =>
      narrowing.update_subset notExit recomputes x (each x forward)
    by_cases same : w = v
    · subst same
      rw [Function.update_self]
      exact (recomputes d).mpr before
    · rw [Function.update_of_ne same]
      exact narrowing.shrinking w wNotExit d before

/-- Sets that no recomputation changes contain nothing but postdominators, by induction on a
    path to the exit. -/
theorem Narrowing.complete (narrowing : Narrowing edge exit sets)
    (stable : ∀ v, v ≠ exit → Recomputes edge sets v (sets v)) {v d : V} (member : d ∈ sets v) :
    Postdominates edge exit d v := by
  intro path walk
  induction walk with
  | stop =>
    rw [narrowing.exitOnly] at member
    exact List.mem_singleton.mpr (Finset.mem_singleton.mp member)
  | @step v w path forward walk ih =>
    by_cases isExit : v = exit
    · subst isExit
      rw [narrowing.exitOnly] at member
      rw [Finset.mem_singleton.mp member]
      exact List.mem_cons_self
    · cases (stable v isExit d).mp member with
      | inl same => exact same ▸ List.mem_cons_self
      | inr each => exact List.mem_cons_of_mem v (ih (each w forward))

end Narrowing

/-! ## Sweeps -/

/-- The size of all sets together. -/
def totalSize [Fintype V] (sets : V → Finset V) : Nat := ∑ v, (sets v).card

theorem totalSize_le [Fintype V] (sets : V → Finset V) :
    totalSize sets ≤ Fintype.card V * Fintype.card V := by
  calc totalSize sets ≤ ∑ _v : V, Fintype.card V := Finset.sum_le_sum fun v _ => Finset.card_le_univ _
    _ = Fintype.card V * Fintype.card V := by simp

theorem Narrowing.totalSize_lt [Fintype V] [DecidableEq V] {sets : V → Finset V} {v : V}
    {T : Finset V} (narrowing : Narrowing edge exit sets) (notExit : v ≠ exit)
    (recomputes : Recomputes edge sets v T) (changes : T ≠ sets v) :
    totalSize (Function.update sets v T) < totalSize sets := by
  refine Finset.sum_lt_sum
    (fun w _ => Finset.card_le_card (narrowing.update_subset notExit recomputes w))
    ⟨v, Finset.mem_univ v, Finset.card_lt_card ?_⟩
  rw [Function.update_self]
  exact Finset.ssubset_iff_subset_ne.mpr ⟨narrowing.subset notExit recomputes, changes⟩

/-- A loop that ends with the first sweep that changes nothing. -/
def untilStable {σ : Type*} (sweep : σ → Option (σ × Bool)) : Nat → σ → Option σ
  | 0, _ => none
  | fuel + 1, s => do
    let (s, change) ← sweep s
    if change then untilStable sweep fuel s else return s

/-- More turns do not change the result. -/
theorem untilStable_mono {σ : Type*} {sweep : σ → Option (σ × Bool)} {fuel more : Nat} {s after : σ}
    (run : untilStable sweep fuel s = some after) (enough : fuel ≤ more) :
    untilStable sweep more s = some after := by
  induction fuel generalizing more s with
  | zero => cases run
  | succ fuel ih =>
    cases more with
    | zero => omega
    | succ more =>
      rw [untilStable] at run ⊢
      obtain ⟨⟨next, change⟩, swept, run⟩ := Option.bind_eq_some_iff.mp run
      rw [swept, Option.bind_eq_bind, Option.bind_some]
      cases change with
      | true => exact ih run (by omega)
      | false => exact run

/-- What each sweep keeps. -/
theorem untilStable_keeps {σ : Type*} {sweep : σ → Option (σ × Bool)} {invariant : σ → Prop}
    (keeps : ∀ s after change, sweep s = some (after, change) → invariant s → invariant after)
    {fuel : Nat} {s after : σ} (run : untilStable sweep fuel s = some after) (holds : invariant s) :
    invariant after := by
  induction fuel generalizing s with
  | zero => cases run
  | succ fuel ih =>
    rw [untilStable] at run
    obtain ⟨⟨next, change⟩, swept, run⟩ := Option.bind_eq_some_iff.mp run
    have holds' := keeps s next change swept holds
    cases change with
    | true => exact ih run holds'
    | false =>
      obtain rfl := Option.some.inj run
      exact holds'

section Sweeps

variable [Fintype V] [DecidableEq V] {σ : Type*} {sets : σ → V → Finset V} {Holds : σ → Prop}
  {turn : σ × Bool → V → Option (σ × Bool)}

/-- A turn finds the set of its vertex up to date or recomputes it. -/
def Updates (edge : V → V → Prop) (exit : V) (sets : σ → V → Finset V) (Holds : σ → Prop)
    (turn : σ × Bool → V → Option (σ × Bool)) : Prop :=
  ∀ s change v, Holds s → v ≠ exit →
    (turn (s, change) v = some (s, change) ∧ Recomputes edge (sets s) v (sets s v)) ∨
    ∃ s' T, turn (s, change) v = some (s', true) ∧ Holds s' ∧ Recomputes edge (sets s) v T ∧
      T ≠ sets s v ∧ sets s' = Function.update (sets s) v T

theorem Updates.turns (updates : Updates edge exit sets Holds turn) {s : σ} (holds : Holds s)
    (narrowing : Narrowing edge exit (sets s)) (change : Bool) {visited : List V}
    (inside : ∀ v ∈ visited, v ≠ exit) :
    ∃ after, Holds after ∧ Narrowing edge exit (sets after) ∧
      totalSize (sets after) ≤ totalSize (sets s) ∧
      ((visited.foldlM turn (s, change) = some (after, change) ∧ after = s ∧
          ∀ v ∈ visited, Recomputes edge (sets s) v (sets s v)) ∨
        (visited.foldlM turn (s, change) = some (after, true) ∧
          totalSize (sets after) < totalSize (sets s))) := by
  induction visited generalizing s change with
  | nil => exact ⟨s, holds, narrowing, le_rfl, Or.inl ⟨rfl, rfl, by simp⟩⟩
  | cons v visited ih =>
    have notExit := inside v List.mem_cons_self
    have rest : ∀ w ∈ visited, w ≠ exit := fun w member => inside w (List.mem_cons_of_mem v member)
    cases updates s change v holds notExit with
    | inl unchanged =>
      obtain ⟨step, upToDate⟩ := unchanged
      obtain ⟨after, afterHolds, afterNarrowing, fewer, outcome⟩ := ih holds narrowing change rest
      refine ⟨after, afterHolds, afterNarrowing, fewer, ?_⟩
      simp only [List.foldlM_cons, step, Option.bind_eq_bind, Option.bind_some, List.forall_mem_cons]
      exact outcome.imp_left fun same => ⟨same.1, same.2.1, upToDate, same.2.2⟩
    | inr changed =>
      obtain ⟨s', T, step, holds', recomputes, differs, eq⟩ := changed
      have less := narrowing.totalSize_lt notExit recomputes differs
      rw [← eq] at less
      obtain ⟨after, afterHolds, afterNarrowing, fewer, outcome⟩ :=
        ih holds' (eq ▸ narrowing.update notExit recomputes) true rest
      refine ⟨after, afterHolds, afterNarrowing, fewer.trans less.le,
        Or.inr ⟨?_, fewer.trans_lt less⟩⟩
      simp only [List.foldlM_cons, step, Option.bind_eq_bind, Option.bind_some]
      cases outcome with
      | inl same => exact same.1
      | inr shrunk => exact shrunk.1

/-- The loop ends, since every sweep but the last removes something. -/
theorem Updates.loop (updates : Updates edge exit sets Holds turn) {order : List V}
    (visits : ∀ v, v ∈ order ↔ v ≠ exit) {s : σ} (holds : Holds s)
    (narrowing : Narrowing edge exit (sets s)) :
    ∃ after, Holds after ∧ Narrowing edge exit (sets after) ∧
      (∀ v, v ≠ exit → Recomputes edge (sets after) v (sets after v)) ∧
      ∀ fuel, totalSize (sets s) < fuel →
        untilStable (fun s => order.foldlM turn (s, false)) fuel s = some after := by
  induction size : totalSize (sets s) using Nat.strong_induction_on generalizing s with
  | _ size' ih =>
    obtain ⟨after, afterHolds, afterNarrowing, -, outcome⟩ :=
      updates.turns holds narrowing false fun v member => (visits v).mp member
    cases outcome with
    | inl same =>
      obtain ⟨sweep, rfl, upToDate⟩ := same
      refine ⟨after, afterHolds, afterNarrowing,
        fun v notExit => upToDate v ((visits v).mpr notExit), fun fuel enough => ?_⟩
      cases fuel with
      | zero => omega
      | succ fuel => simp [untilStable, sweep]
    | inr shrunk =>
      obtain ⟨sweep, less⟩ := shrunk
      obtain ⟨final, finalHolds, finalNarrowing, stable, finishes⟩ :=
        ih _ (size ▸ less) afterHolds afterNarrowing rfl
      refine ⟨final, finalHolds, finalNarrowing, stable, fun fuel enough => ?_⟩
      cases fuel with
      | zero => omega
      | succ fuel =>
        have rest := finishes fuel (by omega)
        simp [untilStable, sweep, rest]

end Sweeps

/-! ## The closest one -/

section Closest

variable [DecidableEq V] {step : Finset V → V → Finset V}

/-- The turn of `s`, if it is still there, removes what postdominates it, except itself. -/
def Removes (edge : V → V → Prop) (exit : V) (step : Finset V → V → Finset V) : Prop :=
  ∀ Tmp s t, t ∈ step Tmp s ↔ t ∈ Tmp ∧ (s ∈ Tmp → s = t ∨ ¬ Postdominates edge exit t s)

/-- The immediate postdominator is never removed, and its own turn removes all the others. -/
theorem Removes.closest (removes : Removes edge exit step)
    (reaches : ∀ v, Reaches edge exit v) {v d : V} {Tmp : Finset V}
    (immediate : ImmediatePostdominator edge exit d v)
    (strict : ∀ e ∈ Tmp, Postdominates edge exit e v ∧ e ≠ v) (kept : d ∈ Tmp) {order : List V}
    (visits : d ∈ order ∨ Tmp = {d}) : order.foldl step Tmp = {d} := by
  induction order generalizing Tmp with
  | nil => exact visits.resolve_left List.not_mem_nil
  | cons s order ih =>
    have stays : d ∈ step Tmp s := by
      refine (removes Tmp s d).mpr ⟨kept, fun visited => ?_⟩
      by_cases same : s = d
      · exact Or.inl same
      · refine Or.inr fun dominates => same ?_
        obtain ⟨sDominates, sStrict⟩ := strict s visited
        exact (immediate.closest s sDominates sStrict).antisymm dominates (reaches s)
    have strict' : ∀ e ∈ step Tmp s, Postdominates edge exit e v ∧ e ≠ v :=
      fun e member => strict e ((removes Tmp s e).mp member).1
    refine ih strict' stays ?_
    by_cases itsTurn : s = d
    · subst itsTurn
      refine Or.inr (Finset.eq_singleton_iff_unique_mem.mpr ⟨stays, fun e member => ?_⟩)
      obtain ⟨eDominates, eStrict⟩ := strict' e member
      cases ((removes Tmp s e).mp member).2 kept with
      | inl same => exact same.symm
      | inr free => exact absurd (immediate.closest e eDominates eStrict) free
    · cases visits with
      | inl visit => exact Or.inl ((List.mem_cons.mp visit).resolve_left (Ne.symm itsTurn))
      | inr alone =>
        subst alone
        have same : step {d} s = {d} :=
          Finset.eq_singleton_iff_unique_mem.mpr ⟨stays, fun e member =>
            Finset.mem_singleton.mp ((removes _ s e).mp member).1⟩
        exact Or.inr same

/-- Whatever is removed postdominates something that is left. -/
theorem Removes.covers (removes : Removes edge exit step) {order : List V} {Tmp : Finset V} {t : V}
    (member : t ∈ Tmp) : ∃ s ∈ order.foldl step Tmp, Postdominates edge exit t s := by
  induction order generalizing Tmp t with
  | nil => exact ⟨t, member, Postdominates.refl t⟩
  | cons s order ih =>
    rw [List.foldl_cons]
    by_cases stays : t ∈ step Tmp s
    · exact ih stays
    · rw [removes] at stays
      push Not at stays
      obtain ⟨visited, -, dominates⟩ := stays member
      -- the element whose turn it is stays
      obtain ⟨s', left, dominates'⟩ := ih ((removes Tmp s s).mpr ⟨visited, fun _ => Or.inl rfl⟩)
      exact ⟨s', left, dominates.trans dominates'⟩

omit [DecidableEq V] in
theorem Removes.subset (removes : Removes edge exit step) {order : List V} {Tmp : Finset V} :
    order.foldl step Tmp ⊆ Tmp := by
  induction order generalizing Tmp with
  | nil => exact Finset.Subset.refl Tmp
  | cons s order ih => exact ih.trans fun t member => ((removes Tmp s t).mp member).1

/-- When one strict postdominator is left, it is an immediate one. -/
theorem Removes.immediate (removes : Removes edge exit step) {order : List V} {Tmp : Finset V}
    {v d : V} (strict : ∀ e, e ∈ Tmp ↔ Postdominates edge exit e v ∧ e ≠ v)
    (single : order.foldl step Tmp = {d}) : ImmediatePostdominator edge exit d v := by
  have member : d ∈ Tmp := removes.subset (single ▸ Finset.mem_singleton_self d)
  refine ⟨((strict d).mp member).1, ((strict d).mp member).2, fun e dominates different => ?_⟩
  obtain ⟨s, left, dominates⟩ := removes.covers ((strict e).mpr ⟨dominates, different⟩)
  rw [single] at left
  exact Finset.mem_singleton.mp left ▸ dominates

end Closest

end FlowGraph
