import AesOnGpu.ControlFlow.BasicBlock
import AesOnGpu.Lib.DominatorSets

/-! # `find_postdominators`

The sets start full and shrink sweep by sweep.  Two facts hold throughout:
every postdominator of a block stays in its set (`sound`), and recomputing a set
never adds to it (`shrinking`).  The second bounds the number of sweeps, the
first together with the last, changeless sweep makes the sets exact.
-/

namespace AesOnGpu.ControlFlow

variable {n : Nat}

/-! ## The function -/

/-- The set computed for block `h` from the sets of its successors. -/
def recomputed (blocks : BasicBlocks n) (h : Fin n) : Finset (Fin n) :=
  insert h ((ascending (blocks h).successor_ids).foldl
    (fun T s => intersect T (blocks s).postdominator_ids) Finset.univ)

/-- The body of the `for` loop; `none` when its assertion fails. -/
def postdominatorTurn (state : BasicBlocks n × Bool) (h : Fin n) :
    Option (BasicBlocks n × Bool) :=
  let (blocks, change) := state
  if (blocks h).bb_id ≠ h then none
  else
    let T := recomputed blocks h
    if !isEqual T (blocks h).postdominator_ids then
      some (Function.update blocks h { blocks h with postdominator_ids := T }, true)
    else some (blocks, change)

/-- From the block before the exit down to the first. -/
def allButExit (n : Nat) : List (Fin n) :=
  (List.finRange n).reverse.filter fun h => h.val + 1 ≠ n

def postdominatorSweep (blocks : BasicBlocks n) : Option (BasicBlocks n × Bool) :=
  (allButExit n).foldlM postdominatorTurn (blocks, false)

/-- The `while (change)` loop. -/
def postdominatorLoop : Nat → BasicBlocks n → Option (BasicBlocks n)
  | 0, _ => none
  | fuel + 1, blocks => do
    let (blocks, change) ← postdominatorSweep blocks
    if change then postdominatorLoop fuel blocks else return blocks

def initialPostdominators (blocks : BasicBlocks n) : BasicBlocks n := fun i =>
  { blocks i with
    postdominator_ids :=
      if i.val + 1 = n then insert i (blocks i).postdominator_ids else Finset.univ }

def findPostdominators (fuel : Nat) (blocks : BasicBlocks n) : Option (BasicBlocks n) :=
  if n < 2 then none else postdominatorLoop fuel (initialPostdominators blocks)

theorem mem_allButExit {h : Fin n} : h ∈ allButExit n ↔ h.val + 1 ≠ n := by
  simp [allButExit]

theorem mem_recomputed {blocks : BasicBlocks n} {h d : Fin n} :
    d ∈ recomputed blocks h ↔
      d = h ∨ ∀ s ∈ (blocks h).successor_ids, d ∈ (blocks s).postdominator_ids := by
  rw [recomputed, Finset.mem_insert,
    mem_foldl_intersect fun s => (blocks s).postdominator_ids]
  simp

/-! ## What holds between the turns -/

/-- The sets are between the exact ones and what one more turn would make of them. -/
structure Approximates (graph : ControlFlowGraph n) (blocks : BasicBlocks n) : Prop where
  numbered : ∀ i, (blocks i).bb_id = i
  successors : ∀ i, (blocks i).successor_ids = (graph.blocks i).successor_ids
  sound : ∀ i d, graph.Postdominates d i → d ∈ (blocks i).postdominator_ids
  exitOnly : (blocks graph.exitBlock).postdominator_ids = {graph.exitBlock}
  shrinking : ∀ i, i ≠ graph.exitBlock → recomputed blocks i ⊆ (blocks i).postdominator_ids

/-- The number of ids in all sets together. -/
def totalIds (blocks : BasicBlocks n) : Nat := ∑ i, (blocks i).postdominator_ids.card

def postdominatorSets (blocks : BasicBlocks n) (i : Fin n) : Finset (Fin n) :=
  (blocks i).postdominator_ids

theorem recomputed_recomputes {start blocks : BasicBlocks n}
    (successors : ∀ i, (blocks i).successor_ids = (start i).successor_ids) (h : Fin n) :
    FlowGraph.Recomputes start.Edge (postdominatorSets blocks) h (recomputed blocks h) := by
  intro d
  rw [mem_recomputed, successors]
  rfl

theorem approximates_iff {graph : ControlFlowGraph n} {blocks : BasicBlocks n} :
    Approximates graph blocks ↔
      ((∀ i, (blocks i).bb_id = i) ∧
        ∀ i, (blocks i).successor_ids = (graph.blocks i).successor_ids) ∧
      FlowGraph.Narrowing graph.Edge graph.exitBlock (postdominatorSets blocks) := by
  constructor
  · intro invariant
    refine ⟨⟨invariant.numbered, invariant.successors⟩, invariant.sound, invariant.exitOnly, ?_⟩
    intro i notExit d member
    exact invariant.shrinking i notExit ((recomputed_recomputes invariant.successors i d).mpr member)
  · intro both
    obtain ⟨⟨numbered, successors⟩, narrowing⟩ := both
    refine ⟨numbered, successors, narrowing.sound, narrowing.exitOnly, ?_⟩
    intro i notExit
    exact narrowing.subset notExit (recomputed_recomputes successors i)

theorem initial_approximates (graph : ControlFlowGraph n) :
    Approximates graph (initialPostdominators graph.blocks) := by
  refine approximates_iff.mpr ⟨⟨graph.numbered, fun _ => rfl⟩, FlowGraph.Narrowing.full ?_ ?_⟩
  · have atExit := (graph.eq_exitBlock_iff graph.exitBlock).mp rfl
    simp [postdominatorSets, initialPostdominators, atExit, graph.fresh]
  · intro i notExit
    have inside := mt (graph.eq_exitBlock_iff i).mpr notExit
    simp [postdominatorSets, initialPostdominators, inside]

/-- Replacing the set of `h` by the recomputed one, which is what a turn does. -/
def replaced (blocks : BasicBlocks n) (h : Fin n) : BasicBlocks n :=
  Function.update blocks h { blocks h with postdominator_ids := recomputed blocks h }

@[simp] theorem replaced_bb_id (blocks : BasicBlocks n) (h i : Fin n) :
    (replaced blocks h i).bb_id = (blocks i).bb_id := by
  by_cases same : i = h
  · subst same; simp [replaced]
  · simp [replaced, same]

@[simp] theorem replaced_successor_ids (blocks : BasicBlocks n) (h i : Fin n) :
    (replaced blocks h i).successor_ids = (blocks i).successor_ids := by
  by_cases same : i = h
  · subst same; simp [replaced]
  · simp [replaced, same]

theorem replaced_sets (blocks : BasicBlocks n) (h : Fin n) :
    postdominatorSets (replaced blocks h) =
      Function.update (postdominatorSets blocks) h (recomputed blocks h) := by
  funext i
  by_cases same : i = h
  · subst same; simp [postdominatorSets, replaced]
  · simp [postdominatorSets, replaced, same]

/-! ## Turns, sweeps and the loop -/

theorem postdominatorTurn_updates (start : BasicBlocks n) (exit : Fin n) :
    FlowGraph.Updates start.Edge exit postdominatorSets
      (fun blocks => (∀ i, (blocks i).bb_id = i) ∧
        ∀ i, (blocks i).successor_ids = (start i).successor_ids)
      postdominatorTurn := by
  intro blocks change h holds _
  obtain ⟨numbered, successors⟩ := holds
  have recomputes := recomputed_recomputes successors h
  by_cases same : recomputed blocks h = (blocks h).postdominator_ids
  · refine Or.inl ⟨?_, by rwa [same] at recomputes⟩
    simp [postdominatorTurn, numbered h, isEqual_iff.mpr same]
  · have differs : isEqual (recomputed blocks h) (blocks h).postdominator_ids = false :=
      Bool.eq_false_iff.mpr (mt isEqual_iff.mp same)
    refine Or.inr ⟨replaced blocks h, _, ?_, ⟨fun i => ?_, fun i => ?_⟩, recomputes, same,
      replaced_sets blocks h⟩
    · simp [postdominatorTurn, numbered h, differs, ControlFlow.replaced]
    · rw [replaced_bb_id, numbered]
    · rw [replaced_successor_ids, successors]

/-- The sets that a sweep leaves unchanged. -/
def UpToDate (graph : ControlFlowGraph n) (blocks : BasicBlocks n) : Prop :=
  ∀ h, h ≠ graph.exitBlock → recomputed blocks h = (blocks h).postdominator_ids

theorem postdominatorLoop_eq (fuel : Nat) (blocks : BasicBlocks n) :
    postdominatorLoop fuel blocks = FlowGraph.untilStable postdominatorSweep fuel blocks := by
  induction fuel generalizing blocks with
  | zero => rfl
  | succ fuel ih => simp only [postdominatorLoop, FlowGraph.untilStable, ih]

theorem postdominatorLoop_spec {graph : ControlFlowGraph n} {blocks : BasicBlocks n}
    (invariant : Approximates graph blocks) :
    ∃ after, Approximates graph after ∧ UpToDate graph after ∧
      ∀ fuel, totalIds blocks < fuel → postdominatorLoop fuel blocks = some after := by
  obtain ⟨holds, narrowing⟩ := approximates_iff.mp invariant
  have visits (i : Fin n) : i ∈ allButExit n ↔ i ≠ graph.exitBlock :=
    mem_allButExit.trans (not_congr (graph.eq_exitBlock_iff i)).symm
  obtain ⟨after, holds', narrowing', stable, finishes⟩ :=
    (postdominatorTurn_updates graph.blocks graph.exitBlock).loop visits holds narrowing
  refine ⟨after, approximates_iff.mpr ⟨holds', narrowing'⟩, fun h notExit => ?_, fun fuel enough => ?_⟩
  · ext d
    exact (recomputed_recomputes holds'.2 h d).trans (stable h notExit d).symm
  · rw [postdominatorLoop_eq]
    exact finishes fuel enough

theorem UpToDate.complete {graph : ControlFlowGraph n} {blocks : BasicBlocks n}
    (upToDate : UpToDate graph blocks) (invariant : Approximates graph blocks) {h d : Fin n}
    (member : d ∈ (blocks h).postdominator_ids) : graph.Postdominates d h := by
  refine (approximates_iff.mp invariant).2.complete (fun i notExit => ?_) member
  rw [postdominatorSets, ← upToDate i notExit]
  exact recomputed_recomputes invariant.successors i

theorem totalIds_le (blocks : BasicBlocks n) : totalIds blocks ≤ n * n := by
  have bound := FlowGraph.totalSize_le (postdominatorSets blocks)
  rwa [Fintype.card_fin] at bound

theorem findPostdominators_spec (graph : ControlFlowGraph n) :
    ∃ after, (∀ fuel, n * n < fuel → findPostdominators fuel graph.blocks = some after) ∧
      (∀ i, (after i).bb_id = i) ∧
      ∀ i d, d ∈ (after i).postdominator_ids ↔ graph.Postdominates d i := by
  obtain ⟨after, invariant, upToDate, finishes⟩ :=
    postdominatorLoop_spec (initial_approximates graph)
  refine ⟨after, fun fuel enough => ?_, invariant.numbered, fun i d => ?_⟩
  · have twoBlocks := graph.twoBlocks
    rw [findPostdominators, if_neg (by omega)]
    exact finishes fuel ((totalIds_le _).trans_lt enough)
  · exact ⟨upToDate.complete invariant, invariant.sound i d⟩

/-- Nothing of this needs that every block reaches the exit: from a block that does not, there is no
    path that a block could miss. -/
theorem findPostdominators_sets {start : BasicBlocks n} {exit : Fin n} (last : exit.val + 1 = n)
    (twoBlocks : 2 ≤ n) (numbered : ∀ i, (start i).bb_id = i)
    (fresh : ∀ i, (start i).postdominator_ids = ∅) {fuel : Nat} {after : BasicBlocks n}
    (run : findPostdominators fuel start = some after) : (∀ i, (after i).bb_id = i) ∧
      (∀ i, (after i).successor_ids = (start i).successor_ids) ∧
      ∀ i d, d ∈ (after i).postdominator_ids ↔ FlowGraph.Postdominates start.Edge exit d i := by
  have atExit (i : Fin n) : i = exit ↔ i.val + 1 = n := by
    rw [Fin.ext_iff]
    omega
  have narrowing : FlowGraph.Narrowing start.Edge exit
      (postdominatorSets (initialPostdominators start)) := by
    refine FlowGraph.Narrowing.full ?_ fun i notExit => ?_
    · simp [postdominatorSets, initialPostdominators, last, fresh]
    · simp [postdominatorSets, initialPostdominators, mt (atExit i).mpr notExit]
  obtain ⟨found, holds, narrowing', stable, finishes⟩ :=
    (postdominatorTurn_updates start exit).loop
      (fun i => mem_allButExit.trans (not_congr (atExit i)).symm)
      (s := initialPostdominators start) ⟨numbered, fun _ => rfl⟩ narrowing
  rw [findPostdominators, if_neg (Nat.not_lt.mpr twoBlocks), postdominatorLoop_eq] at run
  have same := (FlowGraph.untilStable_mono run (Nat.le_max_left fuel _)).symm.trans
    (finishes _ (Nat.lt_of_succ_le (Nat.le_max_right fuel _)))
  obtain rfl := Option.some.inj same
  exact ⟨holds.1, holds.2, fun i d => ⟨narrowing'.complete stable, narrowing'.sound i d⟩⟩

end AesOnGpu.ControlFlow
