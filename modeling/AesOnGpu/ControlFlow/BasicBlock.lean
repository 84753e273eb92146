import AesOnGpu.Lib.Postdominance

/-! # Basic blocks of a function

`function_info` keeps its basic blocks in a vector and refers to a block by its
index in it.  Block ids are `Fin n` here, so that an edge never leaves the
vector.  The sets of ids are `std::set<int>`: ascending, without duplicates.

The instructions of a block, its dominators and its entry and exit flags play
no role in the postdominator analysis and are left out.
-/

namespace AesOnGpu.ControlFlow

structure BasicBlock (n : Nat) where
  bb_id : Nat
  predecessor_ids : Finset (Fin n)
  successor_ids : Finset (Fin n)
  postdominator_ids : Finset (Fin n)
  Tmp_ids : Finset (Fin n)
  immediatepostdominator_id : Int
  deriving DecidableEq

abbrev BasicBlocks (n : Nat) := Fin n → BasicBlock n

/-! ## Sets of block ids -/

/-- The order in which a set iterator visits a set. -/
def ascending {n : Nat} (A : Finset (Fin n)) : List (Fin n) :=
  (List.finRange n).filter (· ∈ A)

@[simp] theorem mem_ascending {n : Nat} {A : Finset (Fin n)} {i : Fin n} :
    i ∈ ascending A ↔ i ∈ A := by
  simp [ascending]

def intersect {n : Nat} (A B : Finset (Fin n)) : Finset (Fin n) :=
  (ascending A).foldl (fun A a => if a ∈ B then A else A.erase a) A

def isEqual {n : Nat} (A B : Finset (Fin n)) : Bool :=
  A.card == B.card && (ascending B).all (· ∈ A)

theorem foldl_erase {n : Nat} (keeps : Fin n → Bool) (visited : List (Fin n)) (A : Finset (Fin n)) :
    visited.foldl (fun A a => if keeps a then A else A.erase a) A =
      A.filter fun a => a ∈ visited → keeps a := by
  induction visited generalizing A with
  | nil => simp
  | cons a visited ih =>
    rw [List.foldl_cons, ih]
    ext b
    cases same : decide (b = a) with
    | true =>
      obtain rfl := of_decide_eq_true same
      cases kept : keeps b <;> simp [kept]
    | false =>
      have different := of_decide_eq_false same
      cases kept : keeps a <;> simp [different]

@[simp] theorem mem_intersect {n : Nat} {A B : Finset (Fin n)} {i : Fin n} :
    i ∈ intersect A B ↔ i ∈ A ∧ i ∈ B := by
  have kept := foldl_erase (fun a => decide (a ∈ B)) (ascending A) A
  simp only [decide_eq_true_eq] at kept
  rw [intersect, kept, Finset.mem_filter, mem_ascending]
  exact and_congr_right fun member => by simp [member]

theorem mem_foldl_intersect {n : Nat} (sets : Fin n → Finset (Fin n)) (visited : List (Fin n))
    (T : Finset (Fin n)) (d : Fin n) :
    d ∈ visited.foldl (fun T s => intersect T (sets s)) T ↔ d ∈ T ∧ ∀ s ∈ visited, d ∈ sets s := by
  induction visited generalizing T with
  | nil => simp
  | cons s visited ih =>
    rw [List.foldl_cons, ih, mem_intersect, List.forall_mem_cons, and_assoc]

theorem isEqual_iff {n : Nat} {A B : Finset (Fin n)} : isEqual A B = true ↔ A = B := by
  rw [isEqual, Bool.and_eq_true, beq_iff_eq, List.all_eq_true]
  constructor
  · intro both
    have covered : B ⊆ A := fun b member =>
      of_decide_eq_true (both.2 b (mem_ascending.mpr member))
    exact (Finset.eq_of_subset_of_card_le covered both.1.le).symm
  · intro same
    subst same
    exact ⟨rfl, fun b member => decide_eq_true (mem_ascending.mp member)⟩

theorem head_ascending_singleton {n : Nat} (d : Fin n) :
    (ascending ({d} : Finset (Fin n))).head? = some d := by
  cases shape : ascending ({d} : Finset (Fin n)) with
  | nil =>
    have member : d ∈ ascending ({d} : Finset (Fin n)) := by simp
    rw [shape] at member
    exact absurd member List.not_mem_nil
  | cons first rest =>
    have member : first ∈ ascending ({d} : Finset (Fin n)) := by simp [shape]
    rw [mem_ascending, Finset.mem_singleton] at member
    rw [member, List.head?_cons]

/-- A loop over different blocks whose turns change a block each and leave what `kept` shows, which
    is all that a turn looks at in the other blocks. -/
theorem foldl_update {I B K : Type*} [DecidableEq I] {kept : B → K} {change : (I → B) → B → B}
    (looks : ∀ s s' : I → B, (∀ j, kept (s j) = kept (s' j)) → change s = change s')
    (keeps : ∀ s b, kept (change s b) = kept b) {visited : List I} (distinct : visited.Nodup)
    (s : I → B) (i : I) :
    visited.foldl (fun s j => Function.update s j (change s (s j))) s i =
      if i ∈ visited then change s (s i) else s i := by
  induction visited generalizing s with
  | nil => simp
  | cons j visited ih =>
    obtain ⟨fresh, distinct⟩ := List.nodup_cons.mp distinct
    have same : change (Function.update s j (change s (s j))) = change s := by
      refine looks _ _ fun k => ?_
      by_cases here : k = j
      · rw [here, Function.update_self, keeps]
      · rw [Function.update_of_ne here]
    rw [List.foldl_cons, ih distinct, same]
    by_cases here : i = j
    · subst here
      rw [if_neg fresh, Function.update_self, if_pos List.mem_cons_self]
    · simp only [Function.update_of_ne here, List.mem_cons, here, false_or]

theorem countP_eq {n : Nat} (i : Fin n) : ((List.finRange n).countP fun j => j = i) = 1 := by
  have one := List.count_eq_one_of_mem (List.nodup_finRange n) (List.mem_finRange i)
  rw [List.count] at one
  exact one

theorem countP_ne {n : Nat} (i : Fin n) : ((List.finRange n).countP fun j => j ≠ i) = n - 1 := by
  have split := List.length_eq_countP_add_countP (fun j => decide (j = i)) (l := List.finRange n)
  have others : (List.finRange n).countP (fun j => decide (j ≠ i)) =
      (List.finRange n).countP (fun j => decide ¬decide (j = i) = true) :=
    List.countP_congr fun j _ => by simp
  rw [List.length_finRange, countP_eq] at split
  omega

theorem eq_of_countP_eq_one {I : Type*} {counts : I → Bool} {visited : List I}
    (one : visited.countP counts = 1) {i j : I} (iVisited : i ∈ visited) (iCounts : counts i = true)
    (jVisited : j ∈ visited) (jCounts : counts j = true) : i = j := by
  rw [List.countP_eq_length_filter] at one
  obtain ⟨only, alone⟩ := List.length_eq_one_iff.mp one
  have each (k : I) (visited' : k ∈ visited) (counts' : counts k = true) : k = only := by
    rw [← List.mem_singleton, ← alone]
    exact List.mem_filter.mpr ⟨visited', counts'⟩
  rw [each i iVisited iCounts, each j jVisited jCounts]

/-! ## Control-flow graphs -/

def BasicBlocks.Edge {n : Nat} (blocks : BasicBlocks n) (i j : Fin n) : Prop :=
  j ∈ (blocks i).successor_ids

instance {n : Nat} (blocks : BasicBlocks n) (i j : Fin n) : Decidable (blocks.Edge i j) :=
  inferInstanceAs (Decidable (j ∈ (blocks i).successor_ids))

/-- The blocks of a function before the analysis: numbered by their position,
    with an exit block at the end that every block reaches. -/
structure ControlFlowGraph (n : Nat) where
  blocks : BasicBlocks n
  twoBlocks : 2 ≤ n
  numbered : ∀ i, (blocks i).bb_id = i
  consistent : ∀ i j, j ∈ (blocks i).successor_ids ↔ i ∈ (blocks j).predecessor_ids
  fresh : ∀ i, (blocks i).postdominator_ids = ∅
  reachesExit : ∀ i, FlowGraph.Reaches blocks.Edge ⟨n - 1, by omega⟩ i

namespace ControlFlowGraph

variable {n : Nat} (graph : ControlFlowGraph n)

def exitBlock : Fin n := ⟨n - 1, by have := graph.twoBlocks; omega⟩

def Edge : Fin n → Fin n → Prop := graph.blocks.Edge

instance (i j : Fin n) : Decidable (graph.Edge i j) :=
  inferInstanceAs (Decidable (graph.blocks.Edge i j))

/-- `d` is on every path from `i` to the exit block. -/
def Postdominates (d i : Fin n) : Prop :=
  FlowGraph.Postdominates graph.Edge graph.exitBlock d i

def ImmediatePostdominator (d i : Fin n) : Prop :=
  FlowGraph.ImmediatePostdominator graph.Edge graph.exitBlock d i

theorem reaches (i : Fin n) : FlowGraph.Reaches graph.Edge graph.exitBlock i :=
  graph.reachesExit i

theorem eq_exitBlock_iff (i : Fin n) : i = graph.exitBlock ↔ i.val + 1 = n := by
  have inside := i.isLt
  have position : (graph.exitBlock : Nat) = n - 1 := rfl
  rw [Fin.ext_iff, position]
  omega

end ControlFlowGraph

end AesOnGpu.ControlFlow
