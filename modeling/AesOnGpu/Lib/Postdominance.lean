import Mathlib

/-! # Postdominance in a flow graph

Vertices are connected by an arbitrary relation `edge`; `exit` is the vertex
where paths end.  A vertex postdominates another one when it lies on every walk
from there to the exit.  Among vertices that reach the exit this is a partial
order in which the postdominators of a vertex form a chain, so each vertex but
the exit has one immediate postdominator.

Dominance is postdominance along the reversed edges, with the entry as `exit`.
-/

namespace FlowGraph

variable {V : Type*} {edge : V → V → Prop} {exit : V}

/-! ## Walks to the exit -/

/-- `Walk edge exit v path`: following the edges, `path` leads from `v` to the exit. -/
inductive Walk (edge : V → V → Prop) (exit : V) : V → List V → Prop where
  | stop : Walk edge exit exit [exit]
  | step {v w : V} {path : List V} : edge v w → Walk edge exit w path →
      Walk edge exit v (v :: path)

def Reaches (edge : V → V → Prop) (exit v : V) : Prop :=
  ∃ path, Walk edge exit v path

def Postdominates (edge : V → V → Prop) (exit d v : V) : Prop :=
  ∀ path, Walk edge exit v path → d ∈ path

/-- The closest of the postdominators other than the vertex itself. -/
structure ImmediatePostdominator (edge : V → V → Prop) (exit d v : V) : Prop where
  postdominates : Postdominates edge exit d v
  strict : d ≠ v
  closest : ∀ e, Postdominates edge exit e v → e ≠ v → Postdominates edge exit e d

theorem Walk.head {v : V} {path : List V} (walk : Walk edge exit v path) : path.head? = some v := by
  cases walk with
  | stop => rfl
  | step _ _ => rfl

theorem Walk.start_mem {v : V} {path : List V} (walk : Walk edge exit v path) : v ∈ path :=
  List.mem_of_head? walk.head

theorem Walk.exit_mem {v : V} {path : List V} (walk : Walk edge exit v path) : exit ∈ path := by
  induction walk with
  | stop => exact List.mem_singleton_self exit
  | step _ _ ih => exact List.mem_cons_of_mem _ ih

/-- The rest of a walk from one of its vertices on. -/
theorem Walk.suffix {v w : V} {path : List V} (walk : Walk edge exit v path) (member : w ∈ path) :
    ∃ rest, Walk edge exit w rest ∧ rest <:+ path := by
  induction walk with
  | stop =>
    obtain rfl := List.mem_singleton.mp member
    exact ⟨_, Walk.stop, List.suffix_rfl⟩
  | @step v next path forward walk ih =>
    cases List.mem_cons.mp member with
    | inl same =>
      subst same
      exact ⟨_, Walk.step forward walk, List.suffix_rfl⟩
    | inr later =>
      obtain ⟨rest, restWalk, shorter⟩ := ih later
      exact ⟨rest, restWalk, shorter.trans (List.suffix_cons v path)⟩

/-- A walk leads up to the first vertex with a property; before it the walk can
    be continued differently from that vertex on. -/
theorem Walk.first {v w : V} {path : List V} (walk : Walk edge exit v path) (goal : V → Prop)
    (member : w ∈ path) (isGoal : goal w) :
    ∃ x, x ∈ path ∧ goal x ∧ ∀ rest, Walk edge exit x rest →
      ∃ before, Walk edge exit v (before ++ rest) ∧ ∀ y ∈ before, ¬ goal y := by
  induction walk with
  | stop =>
    obtain rfl := List.mem_singleton.mp member
    exact ⟨w, member, isGoal, fun rest walk => ⟨[], walk, by simp⟩⟩
  | @step v next path forward walk ih =>
    by_cases here : goal v
    · exact ⟨v, List.mem_cons_self, here, fun rest restWalk => ⟨[], restWalk, by simp⟩⟩
    · have later : w ∈ path := by
        cases List.mem_cons.mp member with
        | inl same => exact absurd (same ▸ isGoal) here
        | inr later => exact later
      obtain ⟨x, inPath, reached, continues⟩ := ih later
      refine ⟨x, List.mem_cons_of_mem v inPath, reached, fun rest restWalk => ?_⟩
      obtain ⟨before, detour, avoids⟩ := continues rest restWalk
      refine ⟨v :: before, Walk.step forward detour, fun y yMember => ?_⟩
      cases List.mem_cons.mp yMember with
      | inl same => exact same ▸ here
      | inr inside => exact avoids y inside

/-- A walk to the exit is a list of vertices that the edges connect. -/
theorem walk_iff {v : V} {path : List V} :
    Walk edge exit v path ↔ path.head? = some v ∧ path.getLast? = some exit ∧ path.IsChain edge := by
  constructor
  · intro walk
    induction walk with
    | stop => exact ⟨rfl, rfl, List.isChain_singleton exit⟩
    | @step v w path forward walk ih =>
      obtain ⟨first, last, chain⟩ := ih
      refine ⟨rfl, ?_, List.isChain_cons.mpr ⟨fun y member => ?_, chain⟩⟩
      · rw [List.getLast?_cons, last]
        rfl
      · rw [first] at member
        cases member
        exact forward
  · intro listed
    obtain ⟨first, last, chain⟩ := listed
    induction path generalizing v with
    | nil => cases first
    | cons x path ih =>
      cases first
      cases path with
      | nil =>
        cases last
        exact Walk.stop
      | cons y path =>
        obtain ⟨forward, chain⟩ := List.isChain_cons_cons.mp chain
        exact Walk.step forward (ih rfl (List.getLast?_cons_cons ▸ last) chain)

/-! ## Postdominance is an order -/

theorem Postdominates.refl (v : V) : Postdominates edge exit v v :=
  fun _ walk => walk.start_mem

theorem exit_postdominates (v : V) : Postdominates edge exit exit v :=
  fun _ walk => walk.exit_mem

theorem postdominates_exit {d : V} (dominates : Postdominates edge exit d exit) : d = exit :=
  List.mem_singleton.mp (dominates [exit] Walk.stop)

theorem Postdominates.trans {d e v : V} (outer : Postdominates edge exit d e)
    (inner : Postdominates edge exit e v) : Postdominates edge exit d v := by
  intro path walk
  obtain ⟨rest, restWalk, shorter⟩ := walk.suffix (inner path walk)
  exact shorter.subset (outer rest restWalk)

theorem Postdominates.reaches {d v : V} (dominates : Postdominates edge exit d v)
    (reaches : Reaches edge exit v) : Reaches edge exit d := by
  obtain ⟨path, walk⟩ := reaches
  obtain ⟨rest, restWalk, _⟩ := walk.suffix (dominates path walk)
  exact ⟨rest, restWalk⟩

/-- Two vertices that postdominate each other are the same: otherwise every
    walk would contain a shorter one. -/
theorem Postdominates.antisymm {d e : V} (outer : Postdominates edge exit d e)
    (inner : Postdominates edge exit e d) (reaches : Reaches edge exit d) : d = e := by
  by_contra different
  have endless : ∀ length, ∀ path, Walk edge exit d path → path.length ≠ length := by
    intro length
    induction length using Nat.strong_induction_on with
    | _ length ih =>
      intro path walk isLength
      obtain ⟨rest, restWalk, restShorter⟩ := walk.suffix (inner path walk)
      obtain ⟨again, againWalk, againShorter⟩ := restWalk.suffix (outer rest restWalk)
      -- the second visit of `d` comes after `e`, hence after the first one
      have smaller : again.length < path.length := by
        cases againShorter.length_le.lt_or_eq with
        | inl strict => exact lt_of_lt_of_le strict restShorter.length_le
        | inr equal =>
          have same := againShorter.eq_of_length equal
          subst same
          have heads := againWalk.head.symm.trans restWalk.head
          exact absurd (Option.some.inj heads) different
      exact ih again.length (isLength ▸ smaller) again againWalk rfl
  obtain ⟨path, walk⟩ := reaches
  exact endless path.length path walk rfl

/-- The vertex reached first is postdominated by every other goal that is always met. -/
theorem exists_first_postdominator {v w : V} (reaches : Reaches edge exit v) (goal : V → Prop)
    (dominates : Postdominates edge exit w v) (isGoal : goal w) :
    ∃ x, goal x ∧ ∀ e, goal e → Postdominates edge exit e v → Postdominates edge exit e x := by
  obtain ⟨path, walk⟩ := reaches
  obtain ⟨x, _, reached, continues⟩ := walk.first goal (dominates path walk) isGoal
  refine ⟨x, reached, fun e eGoal eDominates rest restWalk => ?_⟩
  obtain ⟨before, detour, avoids⟩ := continues rest restWalk
  cases List.mem_append.mp (eDominates _ detour) with
  | inl early => exact absurd eGoal (avoids e early)
  | inr late => exact late

/-! ## Along an edge -/

theorem Postdominates.successor {d v w : V} (dominates : Postdominates edge exit d v)
    (strict : d ≠ v) (forward : edge v w) : Postdominates edge exit d w := by
  intro path walk
  cases List.mem_cons.mp (dominates (v :: path) (Walk.step forward walk)) with
  | inl same => exact absurd same strict
  | inr later => exact later

theorem postdominates_of_successors {d v : V} (notExit : v ≠ exit)
    (each : ∀ w, edge v w → Postdominates edge exit d w) : Postdominates edge exit d v := by
  intro path walk
  cases walk with
  | stop => exact absurd rfl notExit
  | step forward walk => exact List.mem_cons_of_mem v (each _ forward _ walk)

/-- The postdominators of a vertex other than the exit are the vertex itself
    and what postdominates all its successors. -/
theorem postdominates_iff {d v : V} (notExit : v ≠ exit) :
    Postdominates edge exit d v ↔ d = v ∨ ∀ w, edge v w → Postdominates edge exit d w := by
  constructor
  · intro dominates
    by_cases same : d = v
    · exact Or.inl same
    · exact Or.inr fun w forward => dominates.successor same forward
  · intro cases
    cases cases with
    | inl same => exact same ▸ Postdominates.refl d
    | inr each => exact postdominates_of_successors notExit each

/-! ## Immediate postdominators -/

theorem ImmediatePostdominator.unique {d e v : V} (first : ImmediatePostdominator edge exit d v)
    (second : ImmediatePostdominator edge exit e v) (reaches : Reaches edge exit v) : d = e :=
  Postdominates.antisymm (second.closest d first.postdominates first.strict)
    (first.closest e second.postdominates second.strict) (first.postdominates.reaches reaches)

theorem exists_immediatePostdominator {v : V} (notExit : v ≠ exit)
    (reaches : Reaches edge exit v) : ∃ d, ImmediatePostdominator edge exit d v := by
  obtain ⟨x, ⟨dominates, strict⟩, closest⟩ := exists_first_postdominator reaches
    (fun d => Postdominates edge exit d v ∧ d ≠ v) (exit_postdominates v)
    ⟨exit_postdominates v, notExit.symm⟩
  exact ⟨x, dominates, strict, fun e eDominates eStrict =>
    closest e ⟨eDominates, eStrict⟩ eDominates⟩

/-- Every vertex but the exit has exactly one. -/
theorem existsUnique_immediatePostdominator {v : V} (notExit : v ≠ exit)
    (reaches : Reaches edge exit v) : ∃! d, ImmediatePostdominator edge exit d v := by
  obtain ⟨d, immediate⟩ := exists_immediatePostdominator notExit reaches
  exact ⟨d, immediate, fun e other => other.unique immediate reaches⟩

/-- The immediate postdominator of `v` postdominates whatever lies strictly
    between, in particular a successor of `v` other than itself. -/
theorem ImmediatePostdominator.successor {d v w : V}
    (immediate : ImmediatePostdominator edge exit d v) (forward : edge v w) :
    Postdominates edge exit d w :=
  immediate.postdominates.successor immediate.strict forward

end FlowGraph
