import AesOnGpu.ControlFlow.BlockBegins
import AesOnGpu.ControlFlow.Edges
import AesOnGpu.ControlFlow.ImmediateDominators
import AesOnGpu.ControlFlow.ImmediatePostdominators

/-! # Break targets

A `break` goes to the target of the last `breakaddr` that is found up the dominator tree.  Its block
is linked there by `connect_break_targets`, which changes the dominators, so that `ptx_assemble`
repeats the dominator analysis until no link changes; the postdominators follow at last.
-/

namespace AesOnGpu.ControlFlow

variable (m_instructions : List Statement)

def m_basic_blocks (blocks : Blocks) (links : Links) : DominatorBlocks (blocks.ptx_end.length + 1) :=
  fun i =>
    { bb_id := i
      predecessor_ids := Finset.univ.filter fun j => j.val ∈ links.predecessor_ids i
      successor_ids := Finset.univ.filter fun j => j.val ∈ links.successor_ids i
      postdominator_ids := ∅
      Tmp_ids := ∅
      immediatepostdominator_id := -1
      dominator_ids := ∅
      immediatedominator_id := -1 }

/-- The last `breakaddr` between two addresses.  Empty slots are passed over. -/
def searchBreakaddr (first last : Nat) : Option String :=
  (List.range' first (last + 1 - first)).reverse.findSome? fun insn_addr =>
    match (assembler m_instructions).m_instr_mem insn_addr with
    | some (some p) =>
      match m_instructions[p]? with
      | some (.instruction pI) => if pI.opcode = .BREAKADDR_OP then some pI.dst else none
      | _ => none
    | _ => none

/-- The first and last instructions of the blocks but the exit block. -/
structure Extents where
  ptx_begin : List Nat
  ptx_end : List Nat
  get_bb : Nat → Nat

section

variable {n : Nat} (extents : Extents)

def address (instruction : Option Nat) : Option Nat :=
  instruction.bind (assembler m_instructions).m_instr_mem_index

/-- `none` is the assertion behind the loop, or a loop that does not end. The entry block has no
    immediate dominator, and is not searched. -/
def find_break_target (blocks : DominatorBlocks n) : Nat → Fin n → Option String
  | 0, _ => none
  | fuel + 1, p_bb =>
    if (blocks p_bb).immediatedominator_id = -1 then none
    else do
      let first ← address m_instructions extents.ptx_begin[p_bb.val]?
      let last ← address m_instructions extents.ptx_end[p_bb.val]?
      match searchBreakaddr m_instructions first last with
      | some target => return target
      | none =>
        let id := (blocks p_bb).immediatedominator_id.toNat
        if inside : id < n then find_break_target blocks fuel ⟨id, inside⟩ else none

def blockAt (addr : Nat) : Option (Fin n) :=
  match (assembler m_instructions).m_instr_mem addr with
  | some (some p) => if inside : extents.get_bb p < n then some ⟨extents.get_bb p, inside⟩ else none
  | _ => none

def unlink (blocks : DominatorBlocks n) (p_bb : Fin n) : DominatorBlocks n := fun j =>
  { blocks j with
    predecessor_ids :=
      if j ∈ (blocks p_bb).successor_ids then (blocks j).predecessor_ids.erase p_bb
      else (blocks j).predecessor_ids
    successor_ids := if j = p_bb then ∅ else (blocks j).successor_ids }

def link (blocks : DominatorBlocks n) (p_bb target_bb : Fin n) : DominatorBlocks n := fun j =>
  { blocks j with
    predecessor_ids :=
      if j = target_bb then insert p_bb (blocks j).predecessor_ids else (blocks j).predecessor_ids
    successor_ids :=
      if j = p_bb then insert target_bb (blocks j).successor_ids else (blocks j).successor_ids }

/-- The links of a block that ends with a `break`. -/
def relink (fuel : Nat) (blocks : DominatorBlocks n) (p_bb : Fin n) (p : Nat) (pI : PtxInstruction) :
    Option (DominatorBlocks n) := do
  let blocks := unlink blocks p_bb
  let target ← find_break_target m_instructions extents blocks fuel p_bb
  let target_bb ← blockAt m_instructions extents (((assembler m_instructions).labels target).getD 0)
  let blocks := link blocks p_bb target_bb
  if pI.has_pred then
    let index ← (assembler m_instructions).m_instr_mem_index p
    let next_bb ← blockAt m_instructions extents (index + pI.inst_size)
    return link blocks p_bb next_bb
  else return blocks

/-- The body of the loop over the blocks. -/
def breakTurn (fuel : Nat) (state : DominatorBlocks n × Bool) (p_bb : Fin n) :
    Option (DominatorBlocks n × Bool) :=
  let (blocks, modified) := state
  if p_bb.val + 1 = n then some (blocks, modified)
  else
    match extents.ptx_end[p_bb.val]? with
    | none => none
    | some p =>
      match m_instructions[p]? with
      | some (.instruction pI) =>
        if pI.opcode = .BREAK_OP then do
          let linked ← relink m_instructions extents fuel blocks p_bb p pI
          return (linked, modified ||
            !isEqual (blocks p_bb).successor_ids (linked p_bb).successor_ids)
        else some (blocks, modified)
      | _ => none

def connect_break_targets (fuel : Nat) (blocks : DominatorBlocks n) :
    Option (DominatorBlocks n × Bool) :=
  (List.finRange n).foldlM (breakTurn m_instructions extents fuel) (blocks, false)

/-- The `do`-`while` loop of `ptx_assemble`. -/
def connectBreaks (fuel : Nat) (blocks : DominatorBlocks n) : Option (DominatorBlocks n) :=
  FlowGraph.untilStable (fun blocks => do
    connect_break_targets m_instructions extents fuel (← dominatorAnalysis fuel blocks)) fuel blocks

end

/-- The blocks of a function after `ptx_assemble`. -/
structure AnalysedBlocks where
  blocks : Blocks
  ptx_begin : List Nat
  m_basic_blocks : BasicBlocks (blocks.ptx_end.length + 1)

/-- The first loops of `ptx_assemble` and the analysis; `none` is an assertion that fails, a slot
    that is read but was never set, or a loop that does not end. -/
def analysed (fuel : Nat) : Option AnalysedBlocks := do
  let (blocks, links) ← ptx_assemble m_instructions
  let begins ← ptx_begin m_instructions
  let connected ← connectBreaks m_instructions ⟨begins, blocks.ptx_end, blocks.get_bb⟩ fuel
    (m_basic_blocks blocks links)
  let found ← postdominatorAnalysis fuel fun i => (connected i).toBasicBlock
  return ⟨blocks, begins, found⟩

/-! ## What is left for the postdominators -/

section Fresh

variable {n : Nat}

def DominatorBlocks.Fresh (blocks : DominatorBlocks n) : Prop :=
  ∀ i, (blocks i).bb_id = i ∧ (blocks i).postdominator_ids = ∅

variable {blocks after : DominatorBlocks n} {fuel : Nat}

theorem DominatorBlocks.Fresh.update (fresh : blocks.Fresh) {i : Fin n} {b : DominatorBlock n}
    (bb_id : b.bb_id = (blocks i).bb_id)
    (postdominator_ids : b.postdominator_ids = (blocks i).postdominator_ids) :
    DominatorBlocks.Fresh (Function.update blocks i b) := by
  intro j
  by_cases here : j = i
  · subst here
    rw [Function.update_self, bb_id, postdominator_ids]
    exact fresh j
  · rw [Function.update_of_ne here]
    exact fresh j

theorem dominatorSweep_fresh {change : Bool} (run : dominatorSweep blocks = some (after, change))
    (fresh : blocks.Fresh) : after.Fresh := by
  have turns (state : DominatorBlocks n × Bool) (h : Fin n) (state' : DominatorBlocks n × Bool)
      (turn : dominatorTurn state h = some state') (fresh : state.1.Fresh) : state'.1.Fresh := by
    simp only [dominatorTurn] at turn
    split at turn
    · cases turn
    split at turn
    · obtain rfl := Option.some.inj turn
      exact fresh.update rfl rfl
    · obtain rfl := Option.some.inj turn
      exact fresh
  exact List.foldlM_keeps turns run fresh

theorem findDominators_fresh (run : findDominators fuel blocks = some after) (fresh : blocks.Fresh) :
    after.Fresh := by
  rw [findDominators] at run
  split at run
  · cases run
  obtain ⟨found, loop, cleared⟩ := Option.bind_eq_some_iff.mp run
  obtain rfl := Option.some.inj cleared
  have found_ : found.Fresh := FlowGraph.untilStable_keeps
    (fun _ _ _ swept => dominatorSweep_fresh swept) loop fun i => fresh i
  exact fun i => found_ i

theorem findIdominators_fresh (run : findIdominators blocks = some after) (fresh : blocks.Fresh) :
    after.Fresh := by
  rw [findIdominators] at run
  split at run
  · cases run
  obtain ⟨started, begun, run⟩ := Option.bind_eq_some_iff.mp run
  rw [initialDominatorTmp] at begun
  split at begun
  swap
  · cases begun
  obtain rfl := Option.some.inj begun
  simp only [assignDominatorTurns_spec (List.nodup_finRange n), List.mem_finRange, if_true] at run
  split at run
  swap
  · cases run
  obtain rfl := Option.some.inj run
  intro i
  dsimp only
  rw [erasedDominatorTmp_eq, assigned]
  split <;> exact fresh i

theorem unlink_fresh (fresh : blocks.Fresh) (p_bb : Fin n) : (unlink blocks p_bb).Fresh :=
  fun i => fresh i

theorem link_fresh (fresh : blocks.Fresh) (p_bb target_bb : Fin n) :
    (link blocks p_bb target_bb).Fresh :=
  fun i => fresh i

variable {m_instructions} {extents : Extents}

theorem relink_fresh {p_bb : Fin n} {p : Nat} {pI : PtxInstruction}
    (run : relink m_instructions extents fuel blocks p_bb p pI = some after)
    (fresh : blocks.Fresh) : after.Fresh := by
  obtain ⟨target, -, run⟩ := Option.bind_eq_some_iff.mp run
  obtain ⟨target_bb, -, run⟩ := Option.bind_eq_some_iff.mp run
  have linked := link_fresh (unlink_fresh fresh p_bb) p_bb target_bb
  split at run
  · obtain ⟨index, -, run⟩ := Option.bind_eq_some_iff.mp run
    obtain ⟨next_bb, -, run⟩ := Option.bind_eq_some_iff.mp run
    obtain rfl := Option.some.inj run
    exact link_fresh linked p_bb next_bb
  · obtain rfl := Option.some.inj run
    exact linked

theorem connect_break_targets_fresh {modified : Bool}
    (run : connect_break_targets m_instructions extents fuel blocks = some (after, modified))
    (fresh : blocks.Fresh) : after.Fresh := by
  have turns (state : DominatorBlocks n × Bool) (p_bb : Fin n) (state' : DominatorBlocks n × Bool)
      (turn : breakTurn m_instructions extents fuel state p_bb = some state')
      (fresh : state.1.Fresh) : state'.1.Fresh := by
    simp only [breakTurn] at turn
    split at turn
    · obtain rfl := Option.some.inj turn
      exact fresh
    split at turn
    · cases turn
    split at turn
    · split at turn
      · obtain ⟨linked, relinked, turn⟩ := Option.bind_eq_some_iff.mp turn
        obtain rfl := Option.some.inj turn
        exact relink_fresh relinked fresh
      · obtain rfl := Option.some.inj turn
        exact fresh
    · cases turn
  exact List.foldlM_keeps turns run fresh

theorem connectBreaks_fresh (run : connectBreaks m_instructions extents fuel blocks = some after)
    (fresh : blocks.Fresh) : after.Fresh := by
  refine FlowGraph.untilStable_keeps (fun before next modified turn fresh => ?_) run fresh
  obtain ⟨dominated, analysis, connected⟩ := Option.bind_eq_some_iff.mp turn
  obtain ⟨found, sets, immediate⟩ := Option.bind_eq_some_iff.mp analysis
  exact connect_break_targets_fresh connected
    (findIdominators_fresh immediate (findDominators_fresh sets fresh))

end Fresh

/-! ## What has been assembled -/

/-- The blocks have their extents, and the immediate postdominators are those of the graph that
    the links form at last. -/
structure AnalysedBlocks.Exact (m_instructions : List Statement) (analysed : AnalysedBlocks) : Prop where
  assembled : ∃ links, ptx_assemble m_instructions = some (analysed.blocks, links)
  length : analysed.ptx_begin.length = analysed.blocks.ptx_end.length
  begins : ∀ b s, analysed.ptx_begin[b]? = some s → Real m_instructions s ∧
    analysed.blocks.get_bb s = b ∧
      ∀ r, Real m_instructions r → analysed.blocks.get_bb r = b → s ≤ r
  immediate : ∀ i, i ≠ Fin.last _ → ∃ d,
    FlowGraph.ImmediatePostdominator analysed.m_basic_blocks.Edge (Fin.last _) d i ∧
      (analysed.m_basic_blocks i).immediatepostdominator_id = d.val

theorem AnalysedBlocks.Exact.created {m_instructions : List Statement} {analysed : AnalysedBlocks}
    (exact_ : analysed.Exact m_instructions) :
    create_basic_blocks m_instructions = some analysed.blocks := by
  obtain ⟨links, assembled⟩ := exact_.assembled
  exact (ptx_assemble_eq_some assembled).2.1

theorem analysed_exact {m_instructions : List Statement} {fuel : Nat} {after : AnalysedBlocks}
    (run : analysed m_instructions fuel = some after) : after.Exact m_instructions := by
  obtain ⟨⟨blocks, links⟩, assembled, run⟩ := Option.bind_eq_some_iff.mp run
  obtain ⟨begins, begun, run⟩ := Option.bind_eq_some_iff.mp run
  obtain ⟨connected, breaks, run⟩ := Option.bind_eq_some_iff.mp run
  obtain ⟨found, analysis, run⟩ := Option.bind_eq_some_iff.mp run
  obtain ⟨sets, dominators, immediates⟩ := Option.bind_eq_some_iff.mp analysis
  obtain rfl := Option.some.inj run
  have created := (ptx_assemble_eq_some assembled).2.1
  obtain ⟨begins', begun', length, each⟩ := exists_ptx_begin created
  obtain rfl := Option.some.inj (begun'.symm.trans begun)
  have fresh := connectBreaks_fresh breaks fun i => ⟨rfl, rfl⟩
  have twoBlocks : 2 ≤ blocks.ptx_end.length + 1 := by
    by_contra few
    rw [findPostdominators, if_pos (by omega)] at dominators
    cases dominators
  obtain ⟨-, successors, exact_sets⟩ := findPostdominators_sets
    (show (Fin.last blocks.ptx_end.length).val + 1 = _ from rfl) twoBlocks (fun i => (fresh i).1) (fun i => (fresh i).2) dominators
  obtain ⟨successors', immediate⟩ := findIpostdominators_immediate rfl exact_sets immediates
  refine ⟨⟨links, assembled⟩, length, each, fun i notExit => ?_⟩
  have same : found.Edge = BasicBlocks.Edge fun i => (connected i).toBasicBlock := by
    funext i j
    rw [BasicBlocks.Edge, successors', successors]
    rfl
  obtain ⟨d, isImmediate, id⟩ := immediate i notExit
  exact ⟨d, same ▸ isImmediate, id⟩

end AesOnGpu.ControlFlow
