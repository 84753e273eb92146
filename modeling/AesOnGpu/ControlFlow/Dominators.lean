import AesOnGpu.ControlFlow.BasicBlock
import AesOnGpu.Lib.DominatorSets

/-! # `find_dominators`

The dominators of a block are its postdominators along the reversed edges, with the entry block in
the place of the exit.  The function runs before each attempt to connect the targets of breaks, so
that the blocks may have sets from an earlier run.
-/

namespace AesOnGpu.ControlFlow

variable {n : Nat}

structure DominatorBlock (n : Nat) extends BasicBlock n where
  dominator_ids : Finset (Fin n)
  immediatedominator_id : Int
  deriving DecidableEq

abbrev DominatorBlocks (n : Nat) := Fin n → DominatorBlock n

/-! ## The function -/

/-- The set `T` computed for block `h` from the sets of its predecessors. -/
def recomputedDominators (blocks : DominatorBlocks n) (h : Fin n) : Finset (Fin n) :=
  insert h ((ascending (blocks h).predecessor_ids).foldl
    (fun T s => intersect T (blocks s).dominator_ids) Finset.univ)

/-- The body of the `for` loop; `none` when its assertion fails. -/
def dominatorTurn (state : DominatorBlocks n × Bool) (h : Fin n) :
    Option (DominatorBlocks n × Bool) :=
  let (blocks, change) := state
  if (blocks h).bb_id ≠ h then none
  else
    let T := recomputedDominators blocks h
    if !isEqual T (blocks h).dominator_ids then
      some (Function.update blocks h { blocks h with dominator_ids := T }, true)
    else some (blocks, change)

/-- From the block after the entry up to the last. -/
def allButEntry (n : Nat) : List (Fin n) :=
  (List.finRange n).filter fun h => h.val ≠ 0

def dominatorSweep (blocks : DominatorBlocks n) : Option (DominatorBlocks n × Bool) :=
  (allButEntry n).foldlM dominatorTurn (blocks, false)

/-- The `while (change)` loop. -/
def dominatorLoop : Nat → DominatorBlocks n → Option (DominatorBlocks n) :=
  FlowGraph.untilStable dominatorSweep

def initialDominators (blocks : DominatorBlocks n) : DominatorBlocks n := fun i =>
  { blocks i with
    dominator_ids := if i.val = 0 then insert i (blocks i).dominator_ids else Finset.univ }

def clearWithoutPredecessors (blocks : DominatorBlocks n) : DominatorBlocks n := fun i =>
  { blocks i with
    dominator_ids :=
      if i.val ≠ 0 ∧ (blocks i).predecessor_ids = ∅ then ∅ else (blocks i).dominator_ids }

def findDominators (fuel : Nat) (blocks : DominatorBlocks n) : Option (DominatorBlocks n) := do
  if n < 2 then none
  let blocks ← dominatorLoop fuel (initialDominators blocks)
  return clearWithoutPredecessors blocks

theorem mem_allButEntry {h : Fin n} : h ∈ allButEntry n ↔ h.val ≠ 0 := by
  simp [allButEntry]

theorem mem_recomputedDominators {blocks : DominatorBlocks n} {h d : Fin n} :
    d ∈ recomputedDominators blocks h ↔
      d = h ∨ ∀ s ∈ (blocks h).predecessor_ids, d ∈ (blocks s).dominator_ids := by
  rw [recomputedDominators, Finset.mem_insert,
    mem_foldl_intersect fun s => (blocks s).dominator_ids]
  simp

/-! ## Graphs with an entry -/

/-- The blocks of a function when the analysis starts, for the first time or again: numbered by
    their position, and each of them reached from the entry block.  The edges may lead back to the
    entry block. -/
structure EntryGraph (n : Nat) where
  blocks : DominatorBlocks n
  twoBlocks : 2 ≤ n
  numbered : ∀ i, (blocks i).bb_id = i
  consistent : ∀ i j, j ∈ (blocks i).successor_ids ↔ i ∈ (blocks j).predecessor_ids
  notStale : (blocks ⟨0, by omega⟩).dominator_ids ⊆ {⟨0, by omega⟩}
  reached : ∀ i, ∃ path : List (Fin n), path.head? = some ⟨0, by omega⟩ ∧ path.getLast? = some i ∧
    path.IsChain fun i j => j ∈ (blocks i).successor_ids

namespace EntryGraph

variable (graph : EntryGraph n)

def entryBlock : Fin n := ⟨0, by have := graph.twoBlocks; omega⟩

/-- `path` leads from the entry block to `i`. -/
structure Path (path : List (Fin n)) (i : Fin n) : Prop where
  start : path.head? = some graph.entryBlock
  finish : path.getLast? = some i
  edges : path.IsChain fun i j => j ∈ (graph.blocks i).successor_ids

/-- `d` is on every path from the entry block to `i`. -/
def Dominates (d i : Fin n) : Prop := ∀ path, graph.Path path i → d ∈ path

structure ImmediateDominator (d i : Fin n) : Prop where
  dominates : graph.Dominates d i
  strict : d ≠ i
  closest : ∀ e, graph.Dominates e i → e ≠ i → graph.Dominates e d

def Backwards (i j : Fin n) : Prop := j ∈ (graph.blocks i).predecessor_ids

theorem eq_entryBlock_iff (i : Fin n) : i = graph.entryBlock ↔ i.val = 0 :=
  Fin.ext_iff

theorem path_iff {path : List (Fin n)} {i : Fin n} :
    graph.Path path i ↔ FlowGraph.Walk graph.Backwards graph.entryBlock i path.reverse := by
  rw [FlowGraph.walk_iff, List.head?_reverse, List.getLast?_reverse, List.isChain_reverse]
  simp only [Backwards, ← graph.consistent]
  constructor
  · intro path
    exact ⟨path.finish, path.start, path.edges⟩
  · intro walk
    exact ⟨walk.2.1, walk.1, walk.2.2⟩

theorem dominates_iff {d i : Fin n} :
    graph.Dominates d i ↔ FlowGraph.Postdominates graph.Backwards graph.entryBlock d i := by
  constructor
  · intro dominates path walk
    have path' : graph.Path path.reverse i := graph.path_iff.mpr (by rwa [List.reverse_reverse])
    exact List.mem_reverse.mp (dominates _ path')
  · intro dominates path isPath
    exact List.mem_reverse.mp (dominates _ (graph.path_iff.mp isPath))

theorem immediateDominator_iff {d i : Fin n} : graph.ImmediateDominator d i ↔
    FlowGraph.ImmediatePostdominator graph.Backwards graph.entryBlock d i := by
  constructor
  · intro immediate
    refine ⟨graph.dominates_iff.mp immediate.dominates, immediate.strict, fun e dominates strict => ?_⟩
    exact graph.dominates_iff.mp (immediate.closest e (graph.dominates_iff.mpr dominates) strict)
  · intro immediate
    refine ⟨graph.dominates_iff.mpr immediate.postdominates, immediate.strict,
      fun e dominates strict => ?_⟩
    exact graph.dominates_iff.mpr (immediate.closest e (graph.dominates_iff.mp dominates) strict)

theorem reaches (i : Fin n) : FlowGraph.Reaches graph.Backwards graph.entryBlock i := by
  obtain ⟨path, start, finish, edges⟩ := graph.reached i
  exact ⟨path.reverse, graph.path_iff.mp ⟨start, finish, edges⟩⟩

theorem has_predecessor {i : Fin n} (notEntry : i ≠ graph.entryBlock) :
    (graph.blocks i).predecessor_ids ≠ ∅ := by
  obtain ⟨path, walk⟩ := graph.reaches i
  cases walk with
  | stop => exact absurd rfl notEntry
  | step back _ => exact Finset.ne_empty_of_mem back

end EntryGraph

/-! ## The sets -/

def dominatorSets (blocks : DominatorBlocks n) (i : Fin n) : Finset (Fin n) :=
  (blocks i).dominator_ids

/-- What the loop does not change. -/
def SameBlocks (graph : EntryGraph n) (blocks : DominatorBlocks n) : Prop :=
  ∀ i, (blocks i).toBasicBlock = (graph.blocks i).toBasicBlock

theorem dominators_recomputes {graph : EntryGraph n} {blocks : DominatorBlocks n}
    (same : SameBlocks graph blocks) (h : Fin n) :
    FlowGraph.Recomputes graph.Backwards (dominatorSets blocks) h
      (recomputedDominators blocks h) := by
  intro d
  rw [mem_recomputedDominators, same]
  rfl

theorem dominatorTurn_updates (graph : EntryGraph n) :
    FlowGraph.Updates graph.Backwards graph.entryBlock dominatorSets (SameBlocks graph)
      dominatorTurn := by
  intro blocks change h same _
  have numbered : (blocks h).bb_id = h := by rw [same, graph.numbered]
  have recomputes := dominators_recomputes same h
  by_cases upToDate : recomputedDominators blocks h = (blocks h).dominator_ids
  · refine Or.inl ⟨?_, by rwa [upToDate] at recomputes⟩
    simp [dominatorTurn, numbered, isEqual_iff.mpr upToDate]
  · have differs : isEqual (recomputedDominators blocks h) (blocks h).dominator_ids = false :=
      Bool.eq_false_iff.mpr (mt isEqual_iff.mp upToDate)
    refine Or.inr ⟨Function.update blocks h
      { blocks h with dominator_ids := recomputedDominators blocks h }, _, ?_, fun i => ?_,
      recomputes, upToDate, ?_⟩
    · simp [dominatorTurn, numbered, differs]
    · by_cases here : i = h
      · subst here
        rw [Function.update_self]
        exact same i
      · rw [Function.update_of_ne here]
        exact same i
    · funext i
      by_cases here : i = h
      · subst here; simp [dominatorSets]
      · simp [dominatorSets, here]

theorem initial_narrowing (graph : EntryGraph n) :
    FlowGraph.Narrowing graph.Backwards graph.entryBlock
      (dominatorSets (initialDominators graph.blocks)) := by
  refine FlowGraph.Narrowing.full ?_ fun i notEntry => ?_
  · rw [dominatorSets, initialDominators, if_pos ((graph.eq_entryBlock_iff _).mp rfl)]
    apply Finset.Subset.antisymm
    · exact Finset.insert_subset (Finset.mem_singleton_self _) graph.notStale
    · exact Finset.singleton_subset_iff.mpr (Finset.mem_insert_self _ _)
  · rw [dominatorSets, initialDominators, if_neg (mt (graph.eq_entryBlock_iff i).mpr notEntry)]

theorem findDominators_spec (graph : EntryGraph n) :
    ∃ after, (∀ fuel, n * n < fuel → findDominators fuel graph.blocks = some after) ∧
      SameBlocks graph after ∧ ∀ i d, d ∈ (after i).dominator_ids ↔ graph.Dominates d i := by
  have visits (i : Fin n) : i ∈ allButEntry n ↔ i ≠ graph.entryBlock :=
    mem_allButEntry.trans (not_congr (graph.eq_entryBlock_iff i)).symm
  obtain ⟨after, same, narrowing, stable, finishes⟩ := (dominatorTurn_updates graph).loop visits
    (s := initialDominators graph.blocks) (fun _ => rfl) (initial_narrowing graph)
  -- every block has its sets left
  have uncleared : clearWithoutPredecessors after = after := by
    funext i
    have kept : ¬(i.val ≠ 0 ∧ (after i).predecessor_ids = ∅) := by
      intro both
      rw [same] at both
      exact graph.has_predecessor (mt (graph.eq_entryBlock_iff i).mp both.1) both.2
    rw [clearWithoutPredecessors, if_neg kept]
  refine ⟨after, fun fuel enough => ?_, same, fun i d => ?_⟩
  · have twoBlocks := graph.twoBlocks
    have bound := FlowGraph.totalSize_le (dominatorSets (initialDominators graph.blocks))
    rw [Fintype.card_fin] at bound
    have run : dominatorLoop fuel (initialDominators graph.blocks) = some after :=
      finishes fuel (bound.trans_lt enough)
    rw [findDominators, if_neg (Nat.not_lt.mpr twoBlocks), run]
    exact congrArg some uncleared
  · rw [graph.dominates_iff]
    exact ⟨narrowing.complete stable, narrowing.sound i d⟩

end AesOnGpu.ControlFlow
