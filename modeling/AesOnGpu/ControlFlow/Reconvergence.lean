import AesOnGpu.ControlFlow.BreakTargets

/-! # Reconvergence points

Functions are assembled one after the other, and each instruction gets a PC of its own. The points at
which a function reconverges are those of the blocks that end with a branch: the first instruction of
the immediate postdominator, or a marker when that is the exit block. They are looked up by PC.
-/

namespace AesOnGpu.ControlFlow

def RECONVERGE_RETURN_PC : Nat := 2 ^ 32 - 2

def NO_BRANCH_DIVERGENCE : Nat := 2 ^ 32 - 1

/-- `function_info`, as it is parsed. -/
structure Function where
  m_entry_point : Bool
  m_instructions : List Statement

/-- `function_info`, after `ptx_assemble`. -/
structure FunctionInfo extends Function where
  m_start_PC : Nat
  analysis : AnalysedBlocks

/-- `gpgpu_recon_t` -/
structure ReconPoint where
  source_pc : Nat
  target_pc : Nat

namespace FunctionInfo

variable (f : FunctionInfo)

def get_PC (p : Nat) : Option Nat :=
  ((assembler f.m_instructions).m_instr_mem_index p).map fun n => f.m_start_PC + n

def targetPC (i : Nat) : Option Nat :=
  if inside : i < f.analysis.blocks.ptx_end.length + 1 then
    let id := (f.analysis.m_basic_blocks ⟨i, inside⟩).immediatepostdominator_id
    if 0 ≤ id ∧ id.toNat < f.analysis.blocks.ptx_end.length + 1 then
      match f.analysis.ptx_begin[id.toNat]? with
      | some ptx_begin => f.get_PC ptx_begin
      | none => some RECONVERGE_RETURN_PC
    else none
  else none

def is_branch (p : Nat) : Bool :=
  match f.m_instructions[p]? with
  | some (.instruction pI) => pI.opcode = .BRA_OP
  | _ => false

/-- The blocks from `i` on, by their last instructions. -/
def pairsFrom (i : Nat) : List Nat → Option (List ReconPoint)
  | [] => some []
  | ptx_end :: rest =>
    if f.is_branch ptx_end then do
      let source_pc ← f.get_PC ptx_end
      let target_pc ← f.targetPC i
      let others ← pairsFrom (i + 1) rest
      return ⟨source_pc, target_pc⟩ :: others
    else pairsFrom (i + 1) rest

def get_reconvergence_pairs : Option (List ReconPoint) := f.pairsFrom 0 f.analysis.blocks.ptx_end

def get_num_reconvergence_pairs : Nat := f.analysis.blocks.ptx_end.countP f.is_branch

/-- The points are kept when they have been found once; the blocks do not change any more. -/
def find_reconvergence_points : Option (List ReconPoint) :=
  f.get_reconvergence_pairs.map fun pairs => pairs.take f.get_num_reconvergence_pairs

end FunctionInfo

structure Loader where
  g_assemble_code_next_pc : Nat
  g_pc_to_finfo : Nat → Option Nat
  functions : List FunctionInfo

namespace Loader

def new : Loader := ⟨0, fun _ => none, []⟩

/-- The map and the PC in the loop of `ptx_assemble`. A PC has 32 bits and is the index of the
    instruction in the vector of all instructions; behind the last PC the assertion that it is found
    there fails. -/
def loadTurn (this : Nat) (state : (Nat → Option Nat) × Nat) (statement : Statement) :
    Option ((Nat → Option Nat) × Nat) :=
  match statement with
  | .label _ => some state
  | .instruction pI =>
    if state.2 < 2 ^ 32 then
      some (Function.update state.1 state.2 (some this), state.2 + pI.inst_size)
    else none

def ptx_assemble (fuel : Nat) (loader : Loader) (f : Function) : Option Loader := do
  let start := loader.g_assemble_code_next_pc + loader.g_assemble_code_next_pc % MAX_INST_SIZE
  let (g_pc_to_finfo, PC) ← f.m_instructions.foldlM (loadTurn loader.functions.length)
    (loader.g_pc_to_finfo, start)
  let analysis ← analysed f.m_instructions fuel
  return ⟨PC, g_pc_to_finfo, loader.functions ++ [⟨f, start, analysis⟩]⟩

def get_converge_point (loader : Loader) (pc : Nat) : Option Nat := do
  let finfo ← loader.g_pc_to_finfo pc
  let f ← loader.functions[finfo]?
  let points ← f.find_reconvergence_points
  match points.find? fun point => point.source_pc = pc with
  | some point =>
    if point.target_pc = 2 ^ 32 - 2 then return RECONVERGE_RETURN_PC else return point.target_pc
  | none => return NO_BRANCH_DIVERGENCE

inductive Reachable : Loader → Prop
  | new : Reachable new
  | assemble {loader loader' : Loader} {fuel : Nat} {f : Function} : Reachable loader →
      ptx_assemble fuel loader f = some loader' → Reachable loader'

end Loader

/-! ## The purpose -/

/-- The opcodes that set the next PC. A kernel does not return. -/
def Function.Jumps (f : Function) (pI : PtxInstruction) : Prop :=
  pI.opcode = .BRA_OP ∨ pI.opcode = .BRX_OP ∨ pI.opcode = .BREAK_OP ∨
    pI.opcode = .CALL_OP ∨ pI.opcode = .CALLP_OP ∨
    (pI.opcode = .RET_OP ∨ pI.opcode = .RETP_OP) ∧ f.m_entry_point = false

/-- The threads of a warp can go on at different places: at the target or behind it, or, at a `brx`
    through a register, at different targets. -/
def Function.Diverges (f : Function) (pI : PtxInstruction) : Prop :=
  pI.has_pred = true ∧ f.Jumps pI ∨
    pI.opcode = .BRX_OP ∧ Statement.label pI.dst ∉ f.m_instructions

namespace FunctionInfo

def exitBlock (f : FunctionInfo) : Fin (f.analysis.blocks.ptx_end.length + 1) := Fin.last _

variable (f : FunctionInfo)

def StartPC (b : Nat) (pc : Nat) : Prop :=
  ∃ s, f.get_PC s = some pc ∧ Real f.m_instructions s ∧ f.analysis.blocks.get_bb s = b ∧
    ∀ r, Real f.m_instructions r → f.analysis.blocks.get_bb r = b → s ≤ r

/-- A point for block `i`. -/
def Reconverges (i : Fin (f.analysis.blocks.ptx_end.length + 1)) (target_pc : Nat) : Prop :=
  ∃ d, FlowGraph.ImmediatePostdominator f.analysis.m_basic_blocks.Edge f.exitBlock d i ∧
    if d = f.exitBlock then target_pc = RECONVERGE_RETURN_PC else f.StartPC d target_pc

def HasPoint (loader : Loader) (p : Nat) : Prop :=
  ∃ points point i, f.find_reconvergence_points = some points ∧ point ∈ points ∧
    f.get_PC p = some point.source_pc ∧ i.val = f.analysis.blocks.get_bb p ∧
    f.Reconverges i point.target_pc ∧
    loader.get_converge_point point.source_pc = some point.target_pc

def TableComplete (loader : Loader) : Prop :=
  ∀ p pI, f.m_instructions[p]? = some (.instruction pI) → f.Diverges pI → f.HasPoint loader p

/-- It is a branch, but not one that is the first statement of the function with another instruction
    right behind it. -/
def IsRecorded (p : Nat) (pI : PtxInstruction) : Prop :=
  pI.opcode = .BRA_OP ∧ ¬(p = 0 ∧ ∃ pI', f.m_instructions[1]? = some (.instruction pI'))

def BranchesOnly : Prop :=
  ∀ p pI, f.m_instructions[p]? = some (.instruction pI) → f.Diverges pI → f.IsRecorded p pI

/-! ## The table of a function -/

variable {f} {p : Nat} {pI : PtxInstruction}

theorem is_branch_iff : f.is_branch p = true ↔
    ∃ pI, f.m_instructions[p]? = some (.instruction pI) ∧ pI.opcode = .BRA_OP := by
  rw [is_branch]
  split
  · rename_i pI here
    simp [here]
  · rename_i other
    constructor
    · nofun
    · intro branch
      obtain ⟨pI, here, -⟩ := branch
      exact absurd here (other pI)

theorem get_PC_eq (here : f.m_instructions[p]? = some (.instruction pI)) :
    f.get_PC p = some (f.m_start_PC + addressOf f.m_instructions p) := by
  rw [get_PC, (assembled f.m_instructions).index p pI here, Option.map_some]

theorem get_PC_inj {q : Nat} {pI' : PtxInstruction}
    (here : f.m_instructions[p]? = some (.instruction pI))
    (here' : f.m_instructions[q]? = some (.instruction pI')) (same : f.get_PC p = f.get_PC q) :
    p = q := by
  rw [get_PC_eq here, get_PC_eq here'] at same
  have address : addressOf f.m_instructions p = addressOf f.m_instructions q :=
    Nat.add_left_cancel (Option.some.inj same)
  cases Nat.lt_trichotomy p q with
  | inl before =>
    have less := addressOf_lt here before
    omega
  | inr rest =>
    cases rest with
    | inl same => exact same
    | inr behind =>
      have less := addressOf_lt here' behind
      omega

theorem targetPC_reconverges (exact_ : f.analysis.Exact f.m_instructions)
    {i : Fin (f.analysis.blocks.ptx_end.length + 1)} (notExit : i ≠ f.exitBlock) :
    ∃ target_pc, f.targetPC i = some target_pc ∧ f.Reconverges i target_pc := by
  obtain ⟨d, immediate, id⟩ := exact_.immediate i notExit
  have toNat : (f.analysis.m_basic_blocks i).immediatepostdominator_id.toNat = d.val := by
    rw [id, Int.toNat_natCast]
  rw [targetPC, dif_pos i.isLt]
  dsimp only
  rw [if_pos ⟨by rw [id]; exact Int.natCast_nonneg _, by rw [toNat]; exact d.isLt⟩, toNat]
  by_cases atExit : d = f.exitBlock
  · subst atExit
    have behind : f.analysis.ptx_begin[(f.exitBlock : Nat)]? = none :=
      List.getElem?_eq_none exact_.length.le
    rw [behind]
    exact ⟨_, rfl, _, immediate, by rw [if_pos rfl]⟩
  · have inside : d.val < f.analysis.ptx_begin.length := by
      have other : d.val ≠ f.analysis.blocks.ptx_end.length := fun same => atExit (Fin.ext same)
      have bound := d.isLt
      have length := exact_.length
      omega
    obtain ⟨⟨pI, here⟩, block, least⟩ := exact_.begins _ _ (List.getElem?_eq_getElem inside)
    rw [List.getElem?_eq_getElem inside]
    dsimp only
    refine ⟨_, get_PC_eq here, d, immediate, ?_⟩
    rw [if_neg atExit]
    exact ⟨_, get_PC_eq here, ⟨pI, here⟩, block, least⟩

theorem pairsFrom_spec (exact_ : f.analysis.Exact f.m_instructions) {ends : List Nat} {i : Nat}
    (suffix : ∀ k e, ends[k]? = some e → f.analysis.blocks.ptx_end[i + k]? = some e) :
    ∃ pairs, f.pairsFrom i ends = some pairs ∧ pairs.length = ends.countP f.is_branch ∧
      ∀ point, point ∈ pairs ↔ ∃ k e, ends[k]? = some e ∧ f.is_branch e = true ∧
        f.get_PC e = some point.source_pc ∧ f.targetPC (i + k) = some point.target_pc := by
  induction ends generalizing i with
  | nil => exact ⟨[], rfl, rfl, by simp⟩
  | cons e rest ih =>
    have later (k : Nat) (e' : Nat) (found : rest[k]? = some e') :
        f.analysis.blocks.ptx_end[i + 1 + k]? = some e' := by
      rw [Nat.add_assoc, Nat.add_comm 1 k]
      exact suffix (k + 1) e' found
    obtain ⟨pairs, run, length, members⟩ := ih later
    have split (P : Nat → Nat → Prop) : (∃ k e', (e :: rest)[k]? = some e' ∧ P (i + k) e') ↔
        P i e ∨ ∃ k e', rest[k]? = some e' ∧ P (i + 1 + k) e' := by
      constructor
      · intro found
        obtain ⟨k, e', found, holds⟩ := found
        cases k with
        | zero =>
          obtain rfl := Option.some.inj found
          exact Or.inl holds
        | succ k => exact Or.inr ⟨k, e', found, by rwa [Nat.add_assoc, Nat.add_comm 1 k]⟩
      · intro found
        cases found with
        | inl first => exact ⟨0, e, rfl, first⟩
        | inr found =>
          obtain ⟨k, e', found, holds⟩ := found
          exact ⟨k + 1, e', found, by rwa [Nat.add_assoc, Nat.add_comm 1 k] at holds⟩
    cases branch : f.is_branch e with
    | false =>
      refine ⟨pairs, ?_, ?_, fun point => ?_⟩
      · rw [pairsFrom, branch]
        exact run
      · rw [length, List.countP_cons_of_neg (by simp [branch])]
      · rw [members, split fun j e => f.is_branch e = true ∧ f.get_PC e = some point.source_pc ∧
          f.targetPC j = some point.target_pc]
        simp [branch]
    | true =>
      have inside := (List.getElem?_eq_some_iff.mp (suffix 0 e rfl)).1
      obtain ⟨pI, here, -⟩ := is_branch_iff.mp branch
      obtain ⟨target_pc, target, -⟩ := targetPC_reconverges exact_
        (i := ⟨i, Nat.lt_succ_of_lt inside⟩) fun same => Nat.ne_of_lt inside (Fin.ext_iff.mp same)
      refine ⟨⟨f.m_start_PC + addressOf f.m_instructions e, target_pc⟩ :: pairs, ?_, ?_,
        fun point => ?_⟩
      · rw [pairsFrom, branch, get_PC_eq here, target, run]
        rfl
      · rw [List.length_cons, length, List.countP_cons_of_pos branch]
      · rw [List.mem_cons, members, split fun j e => f.is_branch e = true ∧
          f.get_PC e = some point.source_pc ∧ f.targetPC j = some point.target_pc]
        refine or_congr_left ?_
        rw [get_PC_eq here, target]
        cases point
        simp [branch, eq_comm]

theorem exists_points (exact_ : f.analysis.Exact f.m_instructions) :
    ∃ points, f.find_reconvergence_points = some points ∧
      ∀ point, point ∈ points ↔ ∃ b e, f.analysis.blocks.ptx_end[b]? = some e ∧
        f.is_branch e = true ∧ f.get_PC e = some point.source_pc ∧
        f.targetPC b = some point.target_pc := by
  have all (k e : Nat) (found : f.analysis.blocks.ptx_end[k]? = some e) :
      f.analysis.blocks.ptx_end[0 + k]? = some e := by rwa [Nat.zero_add]
  obtain ⟨points, run, length, members⟩ := pairsFrom_spec exact_ all
  refine ⟨points, ?_, fun point => ?_⟩
  · rw [find_reconvergence_points, get_reconvergence_pairs, run, Option.map_some,
      get_num_reconvergence_pairs, ← length, List.take_length]
  · simp only [members, Nat.zero_add]

theorem block_of_end (exact_ : f.analysis.Exact f.m_instructions) {b b' e : Nat}
    (found : f.analysis.blocks.ptx_end[b]? = some e)
    (found' : f.analysis.blocks.ptx_end[b']? = some e) : b = b' := by
  have partition := create_basic_blocks_partition exact_.created
  exact (partition.last b e found).2.1.symm.trans (partition.last b' e found').2.1

theorem find_point (exact_ : f.analysis.Exact f.m_instructions) {points : List ReconPoint}
    (run : f.find_reconvergence_points = some points) {point : ReconPoint} (member : point ∈ points) :
    points.find? (fun other => other.source_pc = point.source_pc) = some point := by
  obtain ⟨points', run', members⟩ := exists_points exact_
  obtain rfl := Option.some.inj (run'.symm.trans run)
  cases found : points'.find? fun other => other.source_pc = point.source_pc with
  | none =>
    have absent := List.find?_eq_none.mp found point member
    exact absurd (decide_eq_true rfl) absent
  | some other =>
    have same := List.find?_some found
    have otherMember := List.mem_of_find?_eq_some found
    obtain ⟨b, e, isEnd, branch, source, target⟩ := (members point).mp member
    obtain ⟨b', e', isEnd', branch', source', target'⟩ := (members other).mp otherMember
    obtain ⟨pI, here, -⟩ := is_branch_iff.mp branch
    obtain ⟨pI', here', -⟩ := is_branch_iff.mp branch'
    rw [decide_eq_true_eq] at same
    rw [same, ← source] at source'
    obtain rfl := get_PC_inj here' here source'
    obtain rfl := block_of_end exact_ isEnd isEnd'
    rw [target] at target'
    cases point
    cases other
    simp_all

end FunctionInfo

/-! ## The PCs of all functions -/

namespace Loader

theorem loadTurns_spec {this : Nat} {statements : List Statement} {map map' : Nat → Option Nat}
    {PC PC' : Nat} (run : statements.foldlM (loadTurn this) (map, PC) = some (map', PC')) :
    (∀ pc < PC, map' pc = map pc) ∧ PC' = PC + (statements.map Statement.bytes).sum ∧
      ∀ p pI, statements[p]? = some (.instruction pI) →
        map' (PC + addressOf statements p) = some this ∧ PC + addressOf statements p < PC' ∧
          PC + addressOf statements p < 2 ^ 32 := by
  induction statements generalizing map PC with
  | nil =>
    obtain ⟨rfl, rfl⟩ := Prod.mk.inj (Option.some.inj run)
    exact ⟨fun _ _ => rfl, rfl, nofun⟩
  | cons statement rest ih =>
    rw [List.foldlM_cons] at run
    obtain ⟨⟨next, PC₁⟩, turn, run⟩ := Option.bind_eq_some_iff.mp run
    obtain ⟨below, order, each⟩ := ih run
    have address (p : Nat) : addressOf (statement :: rest) (p + 1) =
        statement.bytes + addressOf rest p := by
      simp [addressOf, Layout.start]
    rw [List.map_cons, List.sum_cons]
    cases statement with
    | label name =>
      obtain ⟨rfl, rfl⟩ := Prod.mk.inj (Option.some.inj turn)
      rw [Statement.bytes, Nat.zero_add]
      refine ⟨below, order, fun p pI here => ?_⟩
      cases p with
      | zero => cases here
      | succ p =>
        rw [address, Statement.bytes, Nat.zero_add]
        exact each p pI here
    | instruction pI =>
      rw [loadTurn] at turn
      split at turn
      swap
      · cases turn
      rename_i bound
      obtain ⟨rfl, rfl⟩ := Prod.mk.inj (Option.some.inj turn)
      have size := pI.size_pos
      rw [Statement.bytes]
      refine ⟨fun pc before => ?_, by omega, fun p pI' here => ?_⟩
      · rw [below pc (by omega), Function.update_of_ne (Nat.ne_of_lt before)]
      · cases p with
        | zero =>
          have start : addressOf (.instruction pI :: rest) 0 = 0 := Layout.start_zero
          rw [start, Nat.add_zero, below PC (by omega), Function.update_self]
          exact ⟨rfl, by omega, bound⟩
        | succ p =>
          rw [address, Statement.bytes, ← Nat.add_assoc]
          exact each p pI' here

structure Loaded (loader : Loader) : Prop where
  exact_ : ∀ f ∈ loader.functions, f.analysis.Exact f.m_instructions
  found : ∀ k f p pI, loader.functions[k]? = some f → f.m_instructions[p]? = some (.instruction pI) →
    loader.g_pc_to_finfo (f.m_start_PC + addressOf f.m_instructions p) = some k ∧
      f.m_start_PC + addressOf f.m_instructions p < loader.g_assemble_code_next_pc ∧
      f.m_start_PC + addressOf f.m_instructions p < 2 ^ 32
  unused : loader.functions = [] → loader.g_assemble_code_next_pc = 0
  first : ∀ f, loader.functions[0]? = some f → f.m_start_PC = 0

theorem ptx_assemble_loaded {loader loader' : Loader} {fuel : Nat} {f : Function}
    (run : ptx_assemble fuel loader f = some loader') (loaded : loader.Loaded) : loader'.Loaded := by
  obtain ⟨⟨map, PC⟩, loads, run⟩ := Option.bind_eq_some_iff.mp run
  obtain ⟨analysis, isAnalysed, run⟩ := Option.bind_eq_some_iff.mp run
  obtain rfl := Option.some.inj run
  obtain ⟨below, order, each⟩ := loadTurns_spec loads
  constructor
  case exact_ =>
    intro g member
    cases List.mem_append.mp member with
    | inl before => exact loaded.exact_ g before
    | inr last =>
      obtain rfl := List.mem_singleton.mp last
      exact analysed_exact isAnalysed
  case found =>
    intro k g p pI member here
    cases Layout.getElem?_append_singleton.mp member with
    | inl before =>
      -- the PCs of earlier functions are below the new ones
      obtain ⟨known, bound, small⟩ := loaded.found k g p pI before here
      dsimp only
      rw [below _ (by omega)]
      exact ⟨known, by omega, small⟩
    | inr last =>
      obtain ⟨rfl, rfl⟩ := last
      exact each p pI here
  case unused => simp
  case first =>
    intro g member
    cases Layout.getElem?_append_singleton.mp member with
    | inl before => exact loaded.first g before
    | inr last =>
      obtain ⟨none_, rfl⟩ := last
      have next := loaded.unused (List.length_eq_zero_iff.mp none_.symm)
      simp [next]

theorem Reachable.loaded {loader : Loader} (reachable : loader.Reachable) : loader.Loaded := by
  induction reachable with
  | new => exact ⟨nofun, nofun, fun _ => rfl, nofun⟩
  | assemble _ run loaded => exact ptx_assemble_loaded run loaded

theorem Loaded.get_converge_point {loader : Loader} (loaded : loader.Loaded) {k : Nat}
    {f : FunctionInfo} (member : loader.functions[k]? = some f) {points : List ReconPoint}
    (run : f.find_reconvergence_points = some points) {point : ReconPoint} (listed : point ∈ points) :
    loader.get_converge_point point.source_pc = some point.target_pc := by
  have exact_ := loaded.exact_ f (List.mem_of_getElem? member)
  obtain ⟨points', run', members⟩ := FunctionInfo.exists_points exact_
  obtain rfl := Option.some.inj (run'.symm.trans run)
  obtain ⟨b, e, -, branch, source, -⟩ := (members point).mp listed
  obtain ⟨pI, here, -⟩ := FunctionInfo.is_branch_iff.mp branch
  rw [FunctionInfo.get_PC_eq here] at source
  have finfo := (loaded.found k f e pI member here).1
  rw [Option.some.inj source] at finfo
  simp only [Loader.get_converge_point, finfo, member, run, Option.bind_eq_bind, Option.bind_some,
    FunctionInfo.find_point exact_ run listed]
  split
  · rename_i marker
    rw [marker]
    rfl
  · rfl

end Loader

/-! ## Completeness -/

section Complete

variable {f : FunctionInfo} {loader : Loader}

theorem branch_ends {m_instructions : List Statement} {blocks : Blocks} {p : Nat}
    {pI : PtxInstruction} (created : create_basic_blocks m_instructions = some blocks)
    (here : m_instructions[p]? = some (.instruction pI)) (branch : pI.opcode = .BRA_OP)
    (apart : ¬(p = 0 ∧ ∃ pI', m_instructions[1]? = some (.instruction pI'))) :
    blocks.ptx_end[blocks.get_bb p]? = some p := by
  have partition := create_basic_blocks_partition created
  have inside := partition.inside p ⟨pI, here⟩
  obtain ⟨real, same, last⟩ := partition.last _ _ (List.getElem?_eq_getElem inside)
  have above := last p ⟨pI, here⟩ rfl
  rw [List.getElem?_eq_getElem inside]
  cases Nat.eq_or_lt_of_le above with
  | inl atEnd => rw [← atEnd]
  | inr before =>
    refine absurd same (Nat.ne_of_gt ?_)
    cases p with
    | succ p =>
      have ends : pI.endsBlock = true := by simp [PtxInstruction.endsBlock, branch]
      exact partition.split _ _ pI (Nat.succ_pos p) here ends before real
    | zero =>
      -- only a label ends the block of a branch that starts the function
      cases m_instructions with
      | nil => cases here
      | cons first rest =>
        obtain rfl := Option.some.inj here
        cases rest with
        | nil =>
          have short := real.lt_length
          rw [List.length_singleton] at short
          omega
        | cons second rest =>
          cases second with
          | instruction pI' => exact absurd ⟨rfl, pI', rfl⟩ apart
          | label name => exact second_label created before real

theorem first_ends_not {m_instructions : List Statement} {blocks : Blocks} {pI pI' : PtxInstruction}
    (created : create_basic_blocks m_instructions = some blocks)
    (first : m_instructions[0]? = some (.instruction pI))
    (second : m_instructions[1]? = some (.instruction pI')) (b : Nat) :
    blocks.ptx_end[b]? ≠ some 0 := by
  intro isEnd
  obtain ⟨-, block, last⟩ := (create_basic_blocks_partition created).last b 0 isEnd
  have together : blocks.get_bb 1 = blocks.get_bb 0 := by
    cases m_instructions with
    | nil => cases first
    | cons statement rest =>
      obtain rfl := Option.some.inj first
      cases rest with
      | nil => cases second
      | cons statement rest =>
        obtain rfl := Option.some.inj second
        exact second_instruction created
  exact absurd (last 1 ⟨pI', second⟩ (together.trans block)) (Nat.not_succ_le_zero 0)

theorem isRecorded_of_hasPoint (loaded : loader.Loaded) {k p : Nat} {pI : PtxInstruction}
    (member : loader.functions[k]? = some f) (here : f.m_instructions[p]? = some (.instruction pI))
    (has : f.HasPoint loader p) : f.IsRecorded p pI := by
  have exact_ := loaded.exact_ f (List.mem_of_getElem? member)
  obtain ⟨points, point, i, run, listed, source, -⟩ := has
  obtain ⟨points', run', members⟩ := FunctionInfo.exists_points exact_
  obtain rfl := Option.some.inj (run'.symm.trans run)
  obtain ⟨b, e, isEnd, branch, source', -⟩ := (members point).mp listed
  obtain ⟨pI', here', opcode⟩ := FunctionInfo.is_branch_iff.mp branch
  obtain rfl := FunctionInfo.get_PC_inj here here' (source.trans source'.symm)
  obtain rfl := Statement.instruction.inj (Option.some.inj (here.symm.trans here'))
  refine ⟨opcode, fun first => ?_⟩
  obtain ⟨rfl, pI', second⟩ := first
  exact first_ends_not exact_.created here second b isEnd

theorem exists_point_of_branch (loaded : loader.Loaded) {k p : Nat} {pI : PtxInstruction}
    (member : loader.functions[k]? = some f) (here : f.m_instructions[p]? = some (.instruction pI))
    (recorded : f.IsRecorded p pI) : f.HasPoint loader p := by
  obtain ⟨branch, apart⟩ := recorded
  have exact_ := loaded.exact_ f (List.mem_of_getElem? member)
  have isEnd := branch_ends exact_.created here branch apart
  have inside := (List.getElem?_eq_some_iff.mp isEnd).1
  obtain ⟨points, run, members⟩ := FunctionInfo.exists_points exact_
  obtain ⟨target_pc, target, reconverges⟩ := FunctionInfo.targetPC_reconverges exact_
    (i := ⟨f.analysis.blocks.get_bb p, Nat.lt_succ_of_lt inside⟩)
    fun same => Nat.ne_of_lt inside (Fin.ext_iff.mp same)
  have listed : ⟨f.m_start_PC + addressOf f.m_instructions p, target_pc⟩ ∈ points :=
    (members _).mpr ⟨_, p, isEnd, FunctionInfo.is_branch_iff.mpr ⟨pI, here, branch⟩,
      FunctionInfo.get_PC_eq here, target⟩
  exact ⟨points, _, _, run, listed, FunctionInfo.get_PC_eq here, rfl, reconverges,
    loaded.get_converge_point member run listed⟩

/-- Of the instructions of an assembled function exactly the branches that end their blocks have a
    point, so its table is complete exactly if its threads diverge at such branches only: blocks that
    end with a predicated `break` or return have edges to both sides but no point. -/
theorem tableComplete_iff (reachable : loader.Reachable) {k : Nat}
    (member : loader.functions[k]? = some f) :
    (∀ p pI, f.m_instructions[p]? = some (.instruction pI) →
      (f.HasPoint loader p ↔ f.IsRecorded p pI)) ∧
    (f.TableComplete loader ↔ f.BranchesOnly) := by
  have each : ∀ p pI, f.m_instructions[p]? = some (.instruction pI) →
      (f.HasPoint loader p ↔ f.IsRecorded p pI) := fun p pI here =>
    ⟨isRecorded_of_hasPoint reachable.loaded member here,
      exists_point_of_branch reachable.loaded member here⟩
  refine ⟨each, ?_⟩
  constructor
  · intro complete p pI here diverges
    exact (each p pI here).mp (complete p pI here diverges)
  · intro only p pI here diverges
    exact (each p pI here).mpr (only p pI here diverges)

end Complete

theorem exists_first {fuel : Nat} {f : Function}
    (assembles : (Loader.ptx_assemble fuel .new f).isSome = true) :
    ∃ (loader : Loader) (info : FunctionInfo), loader.Reachable ∧
      loader.functions[0]? = some info ∧ info.toFunction = f := by
  obtain ⟨loader, run⟩ := Option.isSome_iff_exists.mp assembles
  have reachable := Loader.Reachable.assemble .new run
  obtain ⟨⟨map, PC⟩, -, run⟩ := Option.bind_eq_some_iff.mp run
  obtain ⟨analysis, -, run⟩ := Option.bind_eq_some_iff.mp run
  obtain rfl := Option.some.inj run
  exact ⟨_, _, reachable, rfl, rfl⟩

def loopKernel : Function where
  m_entry_point := true
  m_instructions :=
    [.instruction plain, .label "L", .instruction plain,
      .instruction ⟨.BRA_OP, true, false, "L", 8, FinLiterals.eight_pos, Nat.le_refl MAX_INST_SIZE⟩, .instruction (ret false)]

theorem tableComplete_iff_loop : ∃ (loader : Loader) (f : FunctionInfo), f.toFunction = loopKernel ∧
    f.TableComplete loader := by
  obtain ⟨loader, f, reachable, member, same⟩ := @exists_first 30 loopKernel rfl
  refine ⟨loader, f, same, (tableComplete_iff reachable member).2.mpr fun p pI here diverges => ?_⟩
  rw [same] at here
  match p with
  | 0 | 2 | 4 =>
    obtain rfl := Statement.instruction.inj (Option.some.inj here)
    cases diverges with
    | inl predicated => cases predicated.1
    | inr indirect => cases indirect.1
  | 1 | p + 5 => cases here
  | 3 =>
    obtain rfl := Statement.instruction.inj (Option.some.inj here)
    exact ⟨rfl, fun first => absurd first.1 (by omega)⟩

def earlyReturnFunction : Function := ⟨false, earlyReturn⟩

/-- The early return has no point. -/
theorem early_return_unrecorded : ¬ ∀ (loader : Loader) (f : FunctionInfo), loader.Reachable →
    f ∈ loader.functions → f.TableComplete loader := by
  intro all
  obtain ⟨loader, f, reachable, member, same⟩ := @exists_first 30 earlyReturnFunction rfl
  have complete := all loader f reachable (List.mem_of_getElem? member)
  have here : f.m_instructions[1]? = some (.instruction (ret true)) := by rw [same]; rfl
  have diverges : f.Diverges (ret true) := by
    rw [same]
    exact .inl ⟨rfl, .inr (.inr (.inr (.inr (.inr ⟨.inl rfl, rfl⟩))))⟩
  have has := complete 1 _ here diverges
  have opcode := (isRecorded_of_hasPoint reachable.loaded member here has).1
  cases opcode

end AesOnGpu.ControlFlow
