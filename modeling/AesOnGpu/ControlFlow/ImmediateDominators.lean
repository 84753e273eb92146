import AesOnGpu.Lib.FinLiterals
import AesOnGpu.ControlFlow.Dominators

/-! # `find_idominators`

The double loop erases from `Tmp_ids` every strict dominator that dominates another one.  The last
loop counts the blocks that have one left, and apart from them the ones that have none and no
predecessor either; the assertion takes the entry block for one of these.
-/

namespace AesOnGpu.ControlFlow

variable {n : Nat}

/-! ## The function -/

def initialDominatorTmp (blocks : DominatorBlocks n) : Option (DominatorBlocks n) :=
  if ∀ i, (blocks i).bb_id = i then
    some fun i => { blocks i with Tmp_ids := (blocks i).dominator_ids.erase i }
  else none

/-- The loop over `t` for one `s`; the iterator is advanced before `t` is erased. -/
def eraseDominatorsFor (blocks : DominatorBlocks n) (s : Fin n) (Tmp : Finset (Fin n)) :
    Finset (Fin n) :=
  (ascending Tmp).foldl
    (fun Tmp t => if s == t || !decide (t ∈ (blocks s).dominator_ids) then Tmp else Tmp.erase t) Tmp

/-- The loop over `s`; an element that an earlier turn erased is not visited. -/
def eraseDominators (blocks : DominatorBlocks n) (Tmp : Finset (Fin n)) : Finset (Fin n) :=
  (List.finRange n).foldl (fun Tmp s => if s ∈ Tmp then eraseDominatorsFor blocks s Tmp else Tmp) Tmp

def erasedDominatorTmp (blocks : DominatorBlocks n) : DominatorBlocks n :=
  (List.finRange n).foldl (fun blocks i => Function.update blocks i
    { blocks i with Tmp_ids := eraseDominators blocks (blocks i).Tmp_ids }) blocks

structure Counts where
  num_idoms : Nat
  num_nopred : Nat

/-- The body of the last loop. -/
def assignDominatorTurn (state : DominatorBlocks n × Counts) (i : Fin n) :
    DominatorBlocks n × Counts :=
  let (blocks, counts) := state
  match (ascending (blocks i).Tmp_ids).head? with
  | some d => (Function.update blocks i { blocks i with immediatedominator_id := d },
      { counts with num_idoms := counts.num_idoms + 1 })
  | none =>
    if (blocks i).predecessor_ids = ∅ then
      (blocks, { counts with num_nopred := counts.num_nopred + 1 })
    else (blocks, counts)

/-- `none` when an assertion fails. -/
def findIdominators (blocks : DominatorBlocks n) : Option (DominatorBlocks n) := do
  if n < 2 then none
  let blocks ← initialDominatorTmp blocks
  let (blocks, counts) :=
    (List.finRange n).foldl assignDominatorTurn (erasedDominatorTmp blocks, ⟨0, 0⟩)
  if counts.num_idoms = n - counts.num_nopred then return blocks else none

/-- Both functions one after the other. -/
def dominatorAnalysis (fuel : Nat) (blocks : DominatorBlocks n) : Option (DominatorBlocks n) := do
  findIdominators (← findDominators fuel blocks)

/-! ## The double loop -/

theorem mem_eraseDominatorsFor {blocks : DominatorBlocks n} {s t : Fin n} {Tmp : Finset (Fin n)} :
    t ∈ eraseDominatorsFor blocks s Tmp ↔ t ∈ Tmp ∧ (s = t ∨ t ∉ (blocks s).dominator_ids) := by
  rw [eraseDominatorsFor, foldl_erase (fun t => s == t || !decide (t ∈ (blocks s).dominator_ids)),
    Finset.mem_filter]
  refine and_congr_right fun member => ?_
  simp [member]

theorem eraseDominators_eq {graph : EntryGraph n} {blocks : DominatorBlocks n}
    (exact_sets : ∀ i d, d ∈ (blocks i).dominator_ids ↔ graph.Dominates d i)
    {i d : Fin n} {Tmp : Finset (Fin n)} (immediate : graph.ImmediateDominator d i)
    (strict : ∀ e ∈ Tmp, graph.Dominates e i ∧ e ≠ i) (kept : d ∈ Tmp) :
    eraseDominators blocks Tmp = {d} := by
  have removes : FlowGraph.Removes graph.Backwards graph.entryBlock
      fun Tmp s => if s ∈ Tmp then eraseDominatorsFor blocks s Tmp else Tmp := by
    intro Tmp s t
    dsimp only
    rw [← graph.dominates_iff]
    by_cases visited : s ∈ Tmp
    · rw [if_pos visited, mem_eraseDominatorsFor, exact_sets]
      simp only [visited, true_imp_iff]
    · rw [if_neg visited]
      simp [visited]
  refine removes.closest graph.reaches (graph.immediateDominator_iff.mp immediate) ?_ kept
    (Or.inl (List.mem_finRange d))
  intro e member
  obtain ⟨dominates, different⟩ := strict e member
  exact ⟨graph.dominates_iff.mp dominates, different⟩

theorem erasedDominatorTmp_eq (blocks : DominatorBlocks n) (i : Fin n) :
    erasedDominatorTmp blocks i =
      { blocks i with Tmp_ids := eraseDominators blocks (blocks i).Tmp_ids } := by
  have looks (left right : DominatorBlocks n)
      (same : ∀ j, (left j).dominator_ids = (right j).dominator_ids) :
      (fun b : DominatorBlock n => { b with Tmp_ids := eraseDominators left b.Tmp_ids }) =
        fun b => { b with Tmp_ids := eraseDominators right b.Tmp_ids } := by
    simp only [eraseDominators, eraseDominatorsFor, same]
  rw [erasedDominatorTmp, foldl_update looks (fun _ _ => rfl) (List.nodup_finRange n),
    if_pos (List.mem_finRange i)]

/-! ## The counts -/

def assigned (b : DominatorBlock n) : DominatorBlock n :=
  match (ascending b.Tmp_ids).head? with
  | some d => { b with immediatedominator_id := d }
  | none => b

theorem head_ascending_eq_none {A : Finset (Fin n)} : (ascending A).head? = none ↔ A = ∅ := by
  rw [List.head?_eq_none_iff, List.eq_nil_iff_forall_not_mem, Finset.eq_empty_iff_forall_notMem]
  simp only [mem_ascending]

theorem assignDominatorTurn_eq (blocks : DominatorBlocks n) (counts : Counts) (i : Fin n) :
    assignDominatorTurn (blocks, counts) i = (Function.update blocks i (assigned (blocks i)),
      ⟨counts.num_idoms + if (blocks i).Tmp_ids ≠ ∅ then 1 else 0,
        counts.num_nopred +
          if (blocks i).Tmp_ids = ∅ ∧ (blocks i).predecessor_ids = ∅ then 1 else 0⟩) := by
  cases shape : (ascending (blocks i).Tmp_ids).head? with
  | some d =>
    have nonempty : (blocks i).Tmp_ids ≠ ∅ := fun empty => by
      rw [head_ascending_eq_none.mpr empty] at shape
      cases shape
    simp [assignDominatorTurn, assigned, shape, nonempty]
  | none =>
    have empty := head_ascending_eq_none.mp shape
    simp only [assignDominatorTurn, assigned, shape, Function.update_eq_self]
    by_cases noPred : (blocks i).predecessor_ids = ∅
    · simp [empty, noPred]
    · simp [empty, noPred]

theorem assignDominatorTurns_spec {visited : List (Fin n)} (distinct : visited.Nodup)
    (blocks : DominatorBlocks n) (counts : Counts) :
    visited.foldl assignDominatorTurn (blocks, counts) =
      (fun i => if i ∈ visited then assigned (blocks i) else blocks i,
        ⟨counts.num_idoms + visited.countP fun i => (blocks i).Tmp_ids ≠ ∅,
          counts.num_nopred +
            visited.countP fun i => (blocks i).Tmp_ids = ∅ ∧ (blocks i).predecessor_ids = ∅⟩) := by
  induction visited generalizing blocks counts with
  | nil => simp
  | cons j visited ih =>
    obtain ⟨fresh, distinct⟩ := List.nodup_cons.mp distinct
    have others (i : Fin n) (member : i ∈ visited) :
        Function.update blocks j (assigned (blocks j)) i = blocks i := by
      refine Function.update_of_ne (fun same => ?_) _ _
      subst same
      exact fresh member
    rw [List.foldl_cons, assignDominatorTurn_eq, ih distinct]
    refine Prod.ext (funext fun i => ?_) ?_
    · by_cases here : i = j
      · subst here
        simp [fresh]
      · simp [here]
    · rw [List.countP_cons, List.countP_cons]
      have idoms : visited.countP (fun i => decide
          ((Function.update blocks j (assigned (blocks j)) i).Tmp_ids ≠ ∅)) =
          visited.countP fun i => (blocks i).Tmp_ids ≠ ∅ :=
        List.countP_congr fun i member => by rw [others i member]
      have nopred : visited.countP (fun i => decide
          ((Function.update blocks j (assigned (blocks j)) i).Tmp_ids = ∅ ∧
            (Function.update blocks j (assigned (blocks j)) i).predecessor_ids = ∅)) =
          visited.countP fun i => (blocks i).Tmp_ids = ∅ ∧ (blocks i).predecessor_ids = ∅ :=
        List.countP_congr fun i member => by rw [others i member]
      simp only [idoms, nopred, decide_eq_true_eq, Nat.add_assoc, Nat.add_comm (List.countP _ _)]

/-! ## The analysis -/

/-- The analysis ends with all assertions holding, and the dominators and immediate dominators are
    those of the graph. -/
def EntryGraph.AnalysisExact (graph : EntryGraph n) : Prop :=
  ∃ after, (∀ fuel, n * n < fuel → dominatorAnalysis fuel graph.blocks = some after) ∧
    (∀ i d, d ∈ (after i).dominator_ids ↔ graph.Dominates d i) ∧
    ∀ i, i ≠ graph.entryBlock →
      (∃! d, graph.ImmediateDominator d i) ∧
      ∃ d, graph.ImmediateDominator d i ∧ (after i).immediatedominator_id = d

theorem EntryGraph.existsUnique_immediateDominator (graph : EntryGraph n) {i : Fin n}
    (notEntry : i ≠ graph.entryBlock) : ∃! d, graph.ImmediateDominator d i := by
  simp only [graph.immediateDominator_iff]
  exact FlowGraph.existsUnique_immediatePostdominator notEntry (graph.reaches i)

theorem assigned_dominator_ids (b : DominatorBlock n) :
    (assigned b).dominator_ids = b.dominator_ids := by
  rw [assigned]
  split <;> rfl

theorem assigned_singleton {b : DominatorBlock n} {d : Fin n} (single : b.Tmp_ids = {d}) :
    (assigned b).immediatedominator_id = d := by
  simp only [assigned, single, head_ascending_singleton]

theorem erased_single {graph : EntryGraph n} {found : DominatorBlocks n}
    (exact_sets : ∀ i d, d ∈ (found i).dominator_ids ↔ graph.Dominates d i) {idom : Fin n → Fin n}
    (immediate : ∀ i, i ≠ graph.entryBlock → graph.ImmediateDominator (idom i) i) (i : Fin n) :
    eraseDominators (fun i => { found i with Tmp_ids := (found i).dominator_ids.erase i })
      ((found i).dominator_ids.erase i) = if i = graph.entryBlock then ∅ else {idom i} := by
  by_cases atEntry : i = graph.entryBlock
  · have alone : (found i).dominator_ids.erase i = ∅ := by
      refine Finset.eq_empty_of_forall_notMem fun d member => ?_
      obtain ⟨strict, dominates⟩ := Finset.mem_erase.mp member
      rw [exact_sets, graph.dominates_iff, atEntry] at dominates
      exact strict ((FlowGraph.postdominates_exit dominates).trans atEntry.symm)
    have nothing (visited : List (Fin n)) (blocks : DominatorBlocks n) :
        visited.foldl (fun Tmp s => if s ∈ Tmp then eraseDominatorsFor blocks s Tmp else Tmp) ∅ =
          ∅ := by
      induction visited with
      | nil => rfl
      | cons s visited ih => rw [List.foldl_cons, if_neg (Finset.notMem_empty s), ih]
    rw [if_pos atEntry, alone]
    exact nothing _ _
  · rw [if_neg atEntry]
    refine eraseDominators_eq exact_sets (immediate i atEntry) (fun e member => ?_) ?_
    · obtain ⟨strict, dominates⟩ := Finset.mem_erase.mp member
      exact ⟨(exact_sets i e).mp dominates, strict⟩
    · exact Finset.mem_erase.mpr ⟨(immediate i atEntry).strict,
        (exact_sets i _).mpr (immediate i atEntry).dominates⟩

theorem counted {graph : EntryGraph n} {blocks : DominatorBlocks n} {idom : Fin n → Fin n}
    (single : ∀ i, (blocks i).Tmp_ids = if i = graph.entryBlock then ∅ else {idom i})
    (predecessors : ∀ i, (blocks i).predecessor_ids = (graph.blocks i).predecessor_ids) :
    (List.finRange n).foldl assignDominatorTurn (blocks, ⟨0, 0⟩) =
      (fun i => assigned (blocks i),
        ⟨n - 1, if (graph.blocks graph.entryBlock).predecessor_ids = ∅ then 1 else 0⟩) := by
  have idoms_iff (i : Fin n) : (blocks i).Tmp_ids ≠ ∅ ↔ i ≠ graph.entryBlock := by
    rw [single]
    by_cases atEntry : i = graph.entryBlock
    · simp [atEntry]
    · simp [atEntry]
  have nopred_iff (i : Fin n) : ((blocks i).Tmp_ids = ∅ ∧ (blocks i).predecessor_ids = ∅) ↔
      i = graph.entryBlock ∧ (graph.blocks graph.entryBlock).predecessor_ids = ∅ := by
    rw [not_iff_not.mp (idoms_iff i), predecessors]
    refine and_congr_right fun atEntry => ?_
    rw [atEntry]
  have nopred : ((List.finRange n).countP fun i =>
      (blocks i).Tmp_ids = ∅ ∧ (blocks i).predecessor_ids = ∅) =
      if (graph.blocks graph.entryBlock).predecessor_ids = ∅ then 1 else 0 := by
    simp only [nopred_iff]
    by_cases noBackEdge : (graph.blocks graph.entryBlock).predecessor_ids = ∅
    · simp only [noBackEdge, and_true, if_true, countP_eq]
    · simp [noBackEdge]
  simp only [assignDominatorTurns_spec (List.nodup_finRange n), List.mem_finRange, if_true,
    Nat.zero_add, nopred, idoms_iff, countP_ne]

theorem dominatorAnalysis_spec (graph : EntryGraph n) :
    ∃ after : DominatorBlocks n,
      (∀ i d, d ∈ (after i).dominator_ids ↔ graph.Dominates d i) ∧
      (∀ i, i ≠ graph.entryBlock →
        ∃ d, graph.ImmediateDominator d i ∧ (after i).immediatedominator_id = d) ∧
      ∀ fuel, n * n < fuel → dominatorAnalysis fuel graph.blocks =
        if (graph.blocks graph.entryBlock).predecessor_ids = ∅ then some after else none := by
  obtain ⟨found, finishes, same, exact_sets⟩ := findDominators_spec graph
  have choose (i : Fin n) : ∃ d, i ≠ graph.entryBlock → graph.ImmediateDominator d i := by
    by_cases atEntry : i = graph.entryBlock
    · exact ⟨i, fun notEntry => absurd atEntry notEntry⟩
    · obtain ⟨d, immediate, -⟩ := graph.existsUnique_immediateDominator atEntry
      exact ⟨d, fun _ => immediate⟩
  obtain ⟨idom, immediate⟩ := Classical.axiomOfChoice choose
  let started : DominatorBlocks n := fun i =>
    { found i with Tmp_ids := (found i).dominator_ids.erase i }
  have single (i : Fin n) : (erasedDominatorTmp started i).Tmp_ids =
      if i = graph.entryBlock then ∅ else {idom i} := by
    rw [erasedDominatorTmp_eq]
    exact erased_single exact_sets immediate i
  have unchanged (i : Fin n) : (erasedDominatorTmp started i).dominator_ids = (found i).dominator_ids ∧
      (erasedDominatorTmp started i).predecessor_ids = (graph.blocks i).predecessor_ids := by
    have predecessors := congrArg BasicBlock.predecessor_ids (same i)
    rw [erasedDominatorTmp_eq]
    exact ⟨rfl, predecessors⟩
  refine ⟨fun i => assigned (erasedDominatorTmp started i), fun i d => ?_, fun i notEntry => ?_,
    fun fuel enough => ?_⟩
  · rw [assigned_dominator_ids, (unchanged i).1, exact_sets]
  · exact ⟨idom i, immediate i notEntry, assigned_singleton (by rw [single, if_neg notEntry])⟩
  · have begun : initialDominatorTmp found = some started :=
      if_pos fun i => (congrArg BasicBlock.bb_id (same i)).trans (graph.numbered i)
    have twoBlocks := graph.twoBlocks
    rw [dominatorAnalysis, finishes fuel enough, Option.bind_eq_bind, Option.bind_some,
      findIdominators, if_neg (Nat.not_lt.mpr twoBlocks), begun]
    simp only [Option.bind_eq_bind, Option.bind_some, counted single fun i => (unchanged i).2]
    by_cases noBackEdge : (graph.blocks graph.entryBlock).predecessor_ids = ∅
    · simp [noBackEdge]
    · have short : n - 1 ≠ n := by omega
      simp [noBackEdge, short]

/-- The analysis is exact exactly if no edge leads back to the entry block: with one the entry is
    not among the blocks without predecessors, and the count of the last assertion is one short. -/
theorem analysisExact_iff (graph : EntryGraph n) :
    graph.AnalysisExact ↔ (graph.blocks graph.entryBlock).predecessor_ids = ∅ := by
  obtain ⟨after, exact_sets, ids, run⟩ := dominatorAnalysis_spec graph
  constructor
  · intro analysis
    obtain ⟨result, finishes, -⟩ := analysis
    by_contra backEdge
    have aborts := (run (n * n + 1) (Nat.lt_succ_self _)).trans (if_neg backEdge)
    rw [finishes (n * n + 1) (Nat.lt_succ_self _)] at aborts
    cases aborts
  · intro noBackEdge
    refine ⟨after, fun fuel enough => ?_, exact_sets, fun i notEntry => ?_⟩
    · rw [run fuel enough, if_pos noBackEdge]
    · exact ⟨graph.existsUnique_immediateDominator notEntry, ids i notEntry⟩

/-- A block that may branch back to itself before it falls through to the exit. -/
def loopAtEntry : EntryGraph 2 where
  blocks i :=
    { bb_id := i
      predecessor_ids := {0}
      successor_ids := if i = 0 then {0, 1} else ∅
      postdominator_ids := ∅
      Tmp_ids := ∅
      immediatepostdominator_id := -1
      dominator_ids := ∅
      immediatedominator_id := -1 }
  twoBlocks := le_rfl
  numbered _ := rfl
  consistent := by decide
  notStale := by decide
  reached i := by
    have step : (1 : Fin 2) ∈ ({0, 1} : Finset (Fin 2)) := Finset.mem_insert_of_mem
      (Finset.mem_singleton_self 1)
    fin_cases i
    · exact ⟨[0], rfl, rfl, List.isChain_singleton 0⟩
    · exact ⟨[0, 1], rfl, rfl, List.isChain_cons_cons.mpr ⟨step, List.isChain_singleton 1⟩⟩

theorem loop_at_entry_aborts : ¬ ∀ (n : Nat) (graph : EntryGraph n), graph.AnalysisExact := by
  intro analysis
  obtain ⟨result, finishes, -⟩ := analysis 2 loopAtEntry
  obtain ⟨after, -, -, run⟩ := dominatorAnalysis_spec loopAtEntry
  have backEdge : (loopAtEntry.blocks loopAtEntry.entryBlock).predecessor_ids ≠ ∅ :=
    Finset.singleton_ne_empty 0
  have aborts := (run 5 (by decide)).trans (if_neg backEdge)
  rw [finishes 5 (by decide)] at aborts
  cases aborts

end AesOnGpu.ControlFlow
