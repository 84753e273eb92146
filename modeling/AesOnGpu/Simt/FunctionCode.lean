import AesOnGpu.ControlFlow.BasicBlock
import AesOnGpu.Simt.Stack

/-! # The instructions of a function

A control-flow graph whose blocks are lists of program counters.  Control goes
from an instruction to the next one of its block, and from the last one to the
start of a successor block; the exit block has no instructions.

`target` is the PC at which a block is met: its first instruction, or one fixed
value for the exit block.  Postdominance of blocks becomes a statement about
PCs in `FunctionCode.Next.advance` and `FunctionCode.Next.meets`.
-/

namespace AesOnGpu.Simt

open ControlFlow

structure FunctionCode where
  n : Nat
  graph : ControlFlowGraph n
  pcs : Fin n → List Pc
  exitEmpty : pcs graph.exitBlock = []
  inhabited : ∀ b, b ≠ graph.exitBlock → pcs b ≠ []
  distinct : ((List.finRange n).flatMap pcs).Nodup
  proper : ∀ b, nullPc ∉ pcs b
  twoWay : ∀ b, ((graph.blocks b).successor_ids.erase graph.exitBlock).card ≤ 2

namespace FunctionCode

variable {code : FunctionCode}

def Instruction (code : FunctionCode) (p : Pc) : Prop :=
  ∃ b, p ∈ code.pcs b

instance (code : FunctionCode) (p : Pc) : Decidable (code.Instruction p) :=
  inferInstanceAs (Decidable (∃ b, p ∈ code.pcs b))

/-- `q` is the PC of an instruction that can follow the one at `p`. -/
inductive Next (code : FunctionCode) : Pc → Pc → Prop where
  | within {b : Fin code.n} {p q : Pc} {before after : List Pc} :
      code.pcs b = before ++ p :: q :: after → Next code p q
  | across {b c : Fin code.n} {p q : Pc} {before after : List Pc} :
      code.pcs b = before ++ [p] → code.graph.Edge b c → code.pcs c = q :: after → Next code p q

/-- The start of a block; `exitPc` stands for the exit block. -/
def target (code : FunctionCode) (exitPc : Pc) (b : Fin code.n) : Pc :=
  ((code.pcs b).head?).getD exitPc

theorem Instruction.ne_null {p : Pc} (instruction : code.Instruction p) : p ≠ nullPc := by
  obtain ⟨b, member⟩ := instruction
  exact fun isNull => code.proper b (isNull ▸ member)

theorem nodup_pcs (code : FunctionCode) (b : Fin code.n) : (code.pcs b).Nodup :=
  (List.nodup_flatMap.mp code.distinct).1 b (List.mem_finRange b)

theorem block_unique {b c : Fin code.n} {p : Pc} (inB : p ∈ code.pcs b) (inC : p ∈ code.pcs c) :
    b = c := by
  by_contra different
  have disjoint := (List.nodup_flatMap.mp code.distinct).2
  have symmetric : Std.Symm (Function.onFun List.Disjoint code.pcs) :=
    ⟨fun _ _ apart => List.Disjoint.symm apart⟩
  exact disjoint.forall (List.mem_finRange b) (List.mem_finRange c) different inB inC

theorem notExit_of_mem {b : Fin code.n} {p : Pc} (member : p ∈ code.pcs b) :
    b ≠ code.graph.exitBlock := by
  intro isExit
  rw [isExit, code.exitEmpty] at member
  exact List.not_mem_nil member

theorem target_mem {b : Fin code.n} (notExit : b ≠ code.graph.exitBlock) (exitPc : Pc) :
    code.target exitPc b ∈ code.pcs b := by
  cases shape : code.pcs b with
  | nil => exact absurd shape (code.inhabited b notExit)
  | cons p rest => simp [target, shape]

theorem target_congr {b : Fin code.n} (notExit : b ≠ code.graph.exitBlock) (exitPc exitPc' : Pc) :
    code.target exitPc b = code.target exitPc' b := by
  cases shape : code.pcs b with
  | nil => exact absurd shape (code.inhabited b notExit)
  | cons p rest => simp [target, shape]

theorem target_exit (exitPc : Pc) : code.target exitPc code.graph.exitBlock = exitPc := by
  simp [target, code.exitEmpty]

theorem target_of_head {b : Fin code.n} {p : Pc} {rest : List Pc} (shape : code.pcs b = p :: rest)
    (exitPc : Pc) : code.target exitPc b = p := by
  simp [target, shape]

theorem target_injective {exitPc : Pc} (notCode : ¬ code.Instruction exitPc) {b c : Fin code.n}
    (same : code.target exitPc b = code.target exitPc c) : b = c := by
  by_cases bExit : b = code.graph.exitBlock
  · by_cases cExit : c = code.graph.exitBlock
    · exact bExit.trans cExit.symm
    · have member := target_mem cExit exitPc
      rw [← same, bExit, target_exit] at member
      exact absurd ⟨c, member⟩ notCode
  · have inB := target_mem bExit exitPc
    by_cases cExit : c = code.graph.exitBlock
    · rw [same, cExit, target_exit] at inB
      exact absurd ⟨b, inB⟩ notCode
    · exact block_unique inB (same ▸ target_mem cExit exitPc)

theorem target_eq_of_mem {exitPc : Pc} (notCode : ¬ code.Instruction exitPc) {b c : Fin code.n}
    (member : code.target exitPc c ∈ code.pcs b) : c = b := by
  by_cases cExit : c = code.graph.exitBlock
  · rw [cExit, target_exit] at member
    exact absurd ⟨b, member⟩ notCode
  · exact block_unique (target_mem cExit exitPc) member

/-! ## Following an instruction -/

theorem after_unique {p : Pc} {list before before' after after' : List Pc} (nodup : list.Nodup)
    (split : list = before ++ p :: after) (split' : list = before' ++ p :: after') :
    after = after' := by
  have nodup' := split ▸ nodup
  obtain ⟨_, later, apart⟩ := List.nodup_append.mp nodup'
  have notBefore : p ∉ before := fun member => apart p member p List.mem_cons_self rfl
  exact ((List.append_cons_inj_of_notMem notBefore (List.nodup_cons.mp later).1).mp
    (split.symm.trans split')).2.2

/-- The two ways to follow an instruction, seen from its block: inside the
    block no start of a block is reached. -/
theorem Next.cases_block {p q : Pc} (next : code.Next p q) {exitPc : Pc}
    (notCode : ¬ code.Instruction exitPc) {b : Fin code.n} (inB : p ∈ code.pcs b) :
    (q ∈ code.pcs b ∧ ∀ c, code.target exitPc c ≠ q) ∨
      ∃ c, code.graph.Edge b c ∧ q ∈ code.pcs c ∧ code.target exitPc c = q := by
  cases next with
  | @within b' _ _ before after shape =>
    have member : p ∈ code.pcs b' := by rw [shape]; simp
    obtain rfl := block_unique inB member
    have qMember : q ∈ code.pcs b := by rw [shape]; simp
    refine Or.inl ⟨qMember, fun c isStart => ?_⟩
    obtain rfl := target_eq_of_mem notCode (isStart ▸ qMember)
    -- `q` comes after `p`, so it is not the first of the block as well
    have nodup := code.nodup_pcs c
    cases before with
    | nil =>
      have start := target_of_head shape exitPc
      rw [shape] at nodup
      simp_all
    | cons r before =>
      have start := target_of_head shape exitPc
      rw [shape] at nodup
      simp_all
  | @across b' c _ _ before after shape edge start =>
    have member : p ∈ code.pcs b' := by rw [shape]; simp
    obtain rfl := block_unique inB member
    exact Or.inr ⟨c, edge, by rw [start]; simp, target_of_head start exitPc⟩

theorem Next.instruction {p q : Pc} (next : code.Next p q) : code.Instruction q := by
  cases next with
  | @within b _ _ _ _ shape => exact ⟨b, by rw [shape]; simp⟩
  | @across _ c _ _ _ _ _ _ start => exact ⟨c, by rw [start]; simp⟩

theorem Next.across_of_ne {p q r : Pc} (toQ : code.Next p q) (toR : code.Next p r)
    (different : q ≠ r) {b : Fin code.n} (inB : p ∈ code.pcs b) (exitPc : Pc) :
    ∃ c, code.graph.Edge b c ∧ q ∈ code.pcs c ∧ code.target exitPc c = q := by
  cases toQ with
  | @within b' _ _ before after shape =>
    cases toR with
    | @within b'' _ _ before' after' shape' =>
      have same : b' = b'' := block_unique (p := p) (by rw [shape]; simp) (by rw [shape']; simp)
      subst same
      have rest := after_unique (code.nodup_pcs b') shape shape'
      exact absurd (List.cons.inj rest).1 different
    | @across b'' c _ _ before' after' shape' edge start =>
      have same : b' = b'' := block_unique (p := p) (by rw [shape]; simp) (by rw [shape']; simp)
      subst same
      exact absurd (after_unique (code.nodup_pcs b') shape shape') (List.cons_ne_nil q after)
  | @across b' c _ _ before after shape edge start =>
    have member : p ∈ code.pcs b' := by rw [shape]; simp
    obtain rfl := block_unique inB member
    exact ⟨c, edge, by rw [start]; simp, target_of_head start exitPc⟩

theorem Next.advance {p q : Pc} (next : code.Next p q) {exitPc : Pc}
    (notCode : ¬ code.Instruction exitPc) {b R : Fin code.n} (inB : p ∈ code.pcs b)
    (dominates : code.graph.Postdominates R b) (strict : R ≠ b) :
    q = code.target exitPc R ∨
      ∃ c, q ∈ code.pcs c ∧ code.graph.Postdominates R c ∧ R ≠ c := by
  cases next.cases_block notCode inB with
  | inl inside => exact Or.inr ⟨b, inside.1, dominates, strict⟩
  | inr outside =>
    obtain ⟨c, edge, inC, start⟩ := outside
    by_cases same : R = c
    · exact Or.inl (same ▸ start.symm)
    · exact Or.inr ⟨c, inC, dominates.successor strict edge, same⟩

theorem Next.meets {p q r : Pc} (toQ : code.Next p q) (toR : code.Next p r) (different : q ≠ r)
    {exitPc : Pc} (notCode : ¬ code.Instruction exitPc) {b R X : Fin code.n}
    (inB : p ∈ code.pcs b) (dominates : code.graph.Postdominates R b) (strict : R ≠ b)
    (immediate : code.graph.ImmediatePostdominator X b) (arrives : q = code.target exitPc R) :
    X = R := by
  obtain ⟨c, edge, _, start⟩ := toQ.across_of_ne toR different inB exitPc
  have isR : c = R := target_injective notCode (start.trans arrives)
  subst isR
  exact FlowGraph.Postdominates.antisymm (immediate.successor edge)
    (immediate.closest c dominates strict) (code.graph.reaches X)

theorem next_le_two {p : Pc} {b : Fin code.n} (inB : p ∈ code.pcs b) {nexts : List Pc}
    (nodup : nexts.Nodup) (each : ∀ q ∈ nexts, code.Next p q) : nexts.length ≤ 2 := by
  by_contra many
  have two : ∀ q ∈ nexts, ∃ r ∈ nexts, q ≠ r := by
    intro q member
    match nexts, many, nodup, member with
    | [x], many, _, _ => exact absurd (by simp) many
    | x :: y :: rest, _, nodup, _ =>
      have xy : x ≠ y := fun same => (List.nodup_cons.mp nodup).1 (same ▸ List.mem_cons_self)
      by_cases same : q = x
      · exact ⟨y, by simp, same ▸ xy⟩
      · exact ⟨x, by simp, same⟩
  -- every one of them starts a successor block other than the exit
  have block : ∀ q ∈ nexts, ∃ c ∈ (code.graph.blocks b).successor_ids.erase code.graph.exitBlock,
      code.target nullPc c = q := by
    intro q member
    obtain ⟨r, rMember, different⟩ := two q member
    obtain ⟨c, edge, inC, start⟩ :=
      (each q member).across_of_ne (each r rMember) different inB nullPc
    exact ⟨c, Finset.mem_erase.mpr ⟨notExit_of_mem inC, edge⟩, start⟩
  have covered : nexts.toFinset ⊆ ((code.graph.blocks b).successor_ids.erase
      code.graph.exitBlock).image (code.target nullPc) := by
    intro q member
    obtain ⟨c, cMember, start⟩ := block q (List.mem_toFinset.mp member)
    exact Finset.mem_image.mpr ⟨c, cMember, start⟩
  have count := (Finset.card_le_card covered).trans Finset.card_image_le
  rw [List.toFinset_card_of_nodup nodup] at count
  exact many (count.trans (code.twoWay b))

end FunctionCode

end AesOnGpu.Simt
