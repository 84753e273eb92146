import AesOnGpu.ControlFlow.Leaders

/-! # Edges between blocks

`function_info::connect_basic_blocks` links each block to those that its last instruction leads to.
The next instruction of a block that goes on is looked up behind its last one; only for a return or
an exit it is looked up one byte on, where an instruction of several bytes has an empty slot.
-/

namespace AesOnGpu.ControlFlow

/-- `RETP_OP`, `RET_OP` or `EXIT_OP` -/
def PtxInstruction.leaves (pI : PtxInstruction) : Bool :=
  pI.opcode = .RETP_OP ∨ pI.opcode = .RET_OP ∨ pI.opcode = .EXIT_OP

structure Links where
  successor_ids : Nat → Finset Nat
  predecessor_ids : Nat → Finset Nat

namespace Links

def new : Links := ⟨fun _ => ∅, fun _ => ∅⟩

def insert (links : Links) (bb_id target : Nat) : Links where
  successor_ids := Function.update links.successor_ids bb_id
    (Insert.insert target (links.successor_ids bb_id))
  predecessor_ids := Function.update links.predecessor_ids target
    (Insert.insert bb_id (links.predecessor_ids target))

end Links

variable (m_instructions : List Statement) (blocks : Blocks)

def Blocks.exit_bb : Nat := blocks.ptx_end.length

def m_instr_mem_size : Nat := MAX_INST_SIZE * (m_instructions.length + 1)

/-- The block of the instruction at an address; `none` is a slot that is empty or was never set. -/
def bbAt (addr : Nat) : Option Nat :=
  match (assembler m_instructions).m_instr_mem addr with
  | some (some q) => some (blocks.get_bb q)
  | _ => none

def linkReturn (m_instr_mem_index : Nat) (pI : PtxInstruction) : Option (List Nat) :=
  if pI.has_pred then
    let next_addr := m_instr_mem_index + 1
    if next_addr < m_instr_mem_size m_instructions then
      match (assembler m_instructions).m_instr_mem next_addr with
      | none => none
      | some none => some [blocks.exit_bb]
      | some (some q) => some [blocks.exit_bb, blocks.get_bb q]
    else some [blocks.exit_bb]
  else some [blocks.exit_bb]

def linkTarget (pI : PtxInstruction) : Option (List Nat) :=
  if pI.opcode = .BRA_OP then
    (bbAt m_instructions blocks (((assembler m_instructions).labels pI.dst).getD 0)).map ([·])
  else some []

def linkNext (m_instr_mem_index : Nat) (pI : PtxInstruction) : Option (List Nat) :=
  if ¬(pI.opcode = .BRA_OP ∧ ¬pI.has_pred) then
    (bbAt m_instructions blocks (m_instr_mem_index + pI.inst_size)).map ([·])
  else some []

def linked (ptx_end : Nat) (pI : PtxInstruction) : Option (List Nat) := do
  let m_instr_mem_index ← (assembler m_instructions).m_instr_mem_index ptx_end
  if pI.leaves then linkReturn m_instructions blocks m_instr_mem_index pI
  else
    let target ← linkTarget m_instructions blocks pI
    let next ← linkNext m_instructions blocks m_instr_mem_index pI
    return target ++ next

def connectTurn (links : Links) (block : Nat × Nat) : Option Links := do
  match m_instructions[block.1]? with
  | some (.instruction pI) =>
    let targets ← linked m_instructions blocks block.1 pI
    return targets.foldl (fun links target => links.insert block.2 target) links
  | _ => none

def connect_basic_blocks : Option Links :=
  blocks.ptx_end.zipIdx.foldlM (connectTurn m_instructions blocks) .new

/-- Up to the blocks and the links between them; `none` is a label that does not resolve, or a slot
    that is read but was never set. -/
def ptx_assemble : Option (Blocks × Links) := do
  if labelsResolve m_instructions then
    let blocks ← create_basic_blocks m_instructions
    let links ← connect_basic_blocks m_instructions blocks
    return (blocks, links)
  else none

/-! ## The purpose -/

/-- The next instruction can be executed next: the instruction is skipped, or stays in the function
    and does not jump. A call comes back. -/
def PtxInstruction.goesOn (pI : PtxInstruction) : Prop :=
  pI.has_pred = true ∨ pI.opcode ≠ .BRA_OP ∧ pI.opcode ≠ .BRX_OP ∧ pI.opcode ≠ .BREAK_OP ∧
    pI.leaves = false ∧ pI.is_exit = false

/-- Where a `brx` can jump to: to its label, or, through a register, to any instruction. -/
def IndirectTarget (pI : PtxInstruction) (q : Nat) : Prop :=
  Target m_instructions pI.dst q ∨
    Statement.label pI.dst ∉ m_instructions ∧ Real m_instructions q

/-- Each block has an edge to every block that can execute next, and to the exit block if a thread
    can end in it. The target of a `break` is linked later, by `connect_break_targets`. -/
structure Links.Complete (links : Links) : Prop where
  indirect : ∀ p pI q, m_instructions[p]? = some (.instruction pI) → pI.opcode = .BRX_OP →
    IndirectTarget m_instructions pI q →
      blocks.get_bb q ∈ links.successor_ids (blocks.get_bb p)
  branch : ∀ p pI q, m_instructions[p]? = some (.instruction pI) → pI.opcode = .BRA_OP →
    Target m_instructions pI.dst q → blocks.get_bb q ∈ links.successor_ids (blocks.get_bb p)
  next : ∀ p pI q, m_instructions[p]? = some (.instruction pI) → pI.goesOn →
    find_next_real_instruction m_instructions (p + 1) = some q →
      blocks.get_bb q = blocks.get_bb p ∨ blocks.get_bb q ∈ links.successor_ids (blocks.get_bb p)
  exit : ∀ p pI, m_instructions[p]? = some (.instruction pI) →
    (pI.leaves = true ∨ pI.is_exit = true) → blocks.exit_bb ∈ links.successor_ids (blocks.get_bb p)

/-- The last instruction of a block leads to another, when it is looked up where it is. -/
def LeadsTo (e : Nat) (pI : PtxInstruction) (q : Nat) : Prop :=
  if pI.leaves then
    pI.has_pred = true ∧ pI.inst_size = 1 ∧ find_next_real_instruction m_instructions (e + 1) = some q
  else
    pI.opcode = .BRA_OP ∧ Target m_instructions pI.dst q ∨
      ¬(pI.opcode = .BRA_OP ∧ ¬pI.has_pred) ∧
        find_next_real_instruction m_instructions (e + 1) = some q

/-- Where the links are complete. -/
structure Blocks.Linkable : Prop where
  /-- The block of a `brx` leads wherever that can jump to. -/
  indirect : ∀ p pI q (e : Nat) pE, m_instructions[p]? = some (.instruction pI) →
    pI.opcode = .BRX_OP → IndirectTarget m_instructions pI q →
    blocks.ptx_end[blocks.get_bb p]? = some e → m_instructions[e]? = some (.instruction pE) →
    ∃ q', LeadsTo m_instructions e pE q' ∧ blocks.get_bb q' = blocks.get_bb q
  /-- A predicated return or exit at the end of a block takes one byte, or nothing follows. -/
  returns : ∀ (b e : Nat) pI q, blocks.ptx_end[b]? = some e → m_instructions[e]? = some (.instruction pI) →
    pI.leaves = true → pI.has_pred = true →
    find_next_real_instruction m_instructions (e + 1) = some q → pI.inst_size = 1
  /-- A block in which a thread can end has a return or an exit at its end. -/
  exits : ∀ (p : Nat) pI (e : Nat) pE, m_instructions[p]? = some (.instruction pI) →
    (pI.leaves = true ∨ pI.is_exit = true) → blocks.ptx_end[blocks.get_bb p]? = some e →
    m_instructions[e]? = some (.instruction pE) → pE.leaves = true
  /-- A branch that starts the function ends the first block, or that block leads to its target. -/
  first : ∀ pI q (e : Nat) pE, m_instructions[0]? = some (.instruction pI) → pI.opcode = .BRA_OP →
    Target m_instructions pI.dst q → blocks.ptx_end[blocks.get_bb 0]? = some e → e ≠ 0 →
    m_instructions[e]? = some (.instruction pE) →
    ∃ q', LeadsTo m_instructions e pE q' ∧ blocks.get_bb q' = blocks.get_bb q

/-! ## The links of a block -/

section Targets

variable {m_instructions} {blocks} {e : Nat} {pI : PtxInstruction}

theorem bbAt_some {addr q : Nat}
    (here : (assembler m_instructions).m_instr_mem addr = some (some q)) :
    bbAt m_instructions blocks addr = some (blocks.get_bb q) := by
  simp only [bbAt, here]

theorem bbAt_next (real : m_instructions[e]? = some (.instruction pI)) :
    bbAt m_instructions blocks (addressOf m_instructions e + pI.inst_size) =
      (find_next_real_instruction m_instructions (e + 1)).map blocks.get_bb := by
  cases next : find_next_real_instruction m_instructions (e + 1) with
  | some q =>
    apply bbAt_some
    rw [m_instr_mem_next real, next]
    rfl
  | none => simp only [bbAt, m_instr_mem_next real, next, Option.map_none]

theorem resolves_target (resolved : labelsResolve m_instructions = true)
    (real : m_instructions[e]? = some (.instruction pI)) (branch : pI.opcode = .BRA_OP) :
    ∃ q, Target m_instructions pI.dst q := by
  apply resolves_iff.mp
  have each := List.all_eq_true.mp resolved _ (List.mem_of_getElem? real)
  simpa [branch] using each

theorem addressOf_le (p : Nat) : addressOf m_instructions p ≤ MAX_INST_SIZE * m_instructions.length := by
  have each : ∀ size ∈ (m_instructions.map Statement.bytes).take p, size ≤ MAX_INST_SIZE := by
    intro size member
    obtain ⟨statement, _, rfl⟩ := List.mem_map.mp (List.mem_of_mem_take member)
    cases statement with
    | label name => exact Nat.zero_le _
    | instruction pI => exact pI.size_le
  have count : ((m_instructions.map Statement.bytes).take p).length ≤ m_instructions.length := by
    rw [List.length_take, List.length_map]
    exact Nat.min_le_right _ _
  calc addressOf m_instructions p
      ≤ ((m_instructions.map Statement.bytes).take p).length • MAX_INST_SIZE :=
        List.sum_le_card_nsmul _ _ each
    _ ≤ m_instructions.length * MAX_INST_SIZE := Nat.mul_le_mul_right _ count
    _ = MAX_INST_SIZE * m_instructions.length := Nat.mul_comm _ _

theorem linkReturn_eq (real : m_instructions[e]? = some (.instruction pI)) {targets : List Nat}
    (run : linkReturn m_instructions blocks (addressOf m_instructions e) pI = some targets) :
    targets = [blocks.exit_bb] ∧ ¬(pI.has_pred = true ∧ pI.inst_size = 1) ∨
      pI.has_pred = true ∧ pI.inst_size = 1 ∧
        ∃ q, find_next_real_instruction m_instructions (e + 1) = some q ∧
          targets = [blocks.exit_bb, blocks.get_bb q] := by
  rw [linkReturn] at run
  cases predicated : pI.has_pred with
  | false =>
    rw [predicated, if_neg Bool.false_ne_true] at run
    exact Or.inl ⟨(Option.some.inj run).symm, fun both => Bool.false_ne_true both.1⟩
  | true =>
    have inside : addressOf m_instructions e + 1 < m_instr_mem_size m_instructions := by
      have bound := @addressOf_le m_instructions e
      rw [m_instr_mem_size, MAX_INST_SIZE] at *
      omega
    rw [predicated, if_pos rfl, if_pos inside] at run
    by_cases one : pI.inst_size = 1
    · have behind := m_instr_mem_next real
      rw [one] at behind
      cases next : find_next_real_instruction m_instructions (e + 1) with
      | none => simp [behind, next] at run
      | some q =>
        rw [behind, next] at run
        exact Or.inr ⟨rfl, one, q, rfl, (Option.some.inj run).symm⟩
    · rw [m_instr_mem_second real one] at run
      exact Or.inl ⟨(Option.some.inj run).symm, fun both => one both.2⟩

theorem mem_linkTarget (resolved : labelsResolve m_instructions = true)
    (real : m_instructions[e]? = some (.instruction pI)) {targets : List Nat}
    (run : linkTarget m_instructions blocks pI = some targets) (b : Nat) :
    b ∈ targets ↔ ∃ q, (pI.opcode = .BRA_OP ∧ Target m_instructions pI.dst q) ∧
      b = blocks.get_bb q := by
  rw [linkTarget] at run
  split at run
  · rename_i branch
    obtain ⟨q, target⟩ := resolves_target resolved real branch
    obtain ⟨addr, label, here⟩ := m_instr_mem_label target
    rw [label, Option.getD_some, bbAt_some here] at run
    obtain rfl := Option.some.inj run
    rw [List.mem_singleton]
    constructor
    · exact fun same => ⟨q, ⟨branch, target⟩, same⟩
    · rintro ⟨q', ⟨_, target'⟩, same⟩
      rw [same, target.unique target']
  · rename_i other
    obtain rfl := Option.some.inj run
    simp [other]

theorem mem_linkNext (real : m_instructions[e]? = some (.instruction pI)) {targets : List Nat}
    (run : linkNext m_instructions blocks (addressOf m_instructions e) pI = some targets) (b : Nat) :
    b ∈ targets ↔ ∃ q, (¬(pI.opcode = .BRA_OP ∧ ¬pI.has_pred) ∧
      find_next_real_instruction m_instructions (e + 1) = some q) ∧ b = blocks.get_bb q := by
  rw [linkNext, bbAt_next real] at run
  split at run
  · rename_i goes
    cases next : find_next_real_instruction m_instructions (e + 1) with
    | none => simp [next] at run
    | some q =>
      rw [next] at run
      obtain rfl := Option.some.inj run
      rw [List.mem_singleton]
      constructor
      · exact fun same => ⟨q, ⟨goes, rfl⟩, same⟩
      · rintro ⟨q', ⟨_, found⟩, same⟩
        rw [same, Option.some.inj found]
  · rename_i jumps
    obtain rfl := Option.some.inj run
    constructor
    · nofun
    · rintro ⟨q, ⟨goes, _⟩, _⟩
      exact absurd goes jumps

theorem mem_linked (resolved : labelsResolve m_instructions = true)
    (real : m_instructions[e]? = some (.instruction pI)) {targets : List Nat}
    (run : linked m_instructions blocks e pI = some targets) (b : Nat) :
    b ∈ targets ↔ pI.leaves = true ∧ b = blocks.exit_bb ∨
      ∃ q, LeadsTo m_instructions e pI q ∧ b = blocks.get_bb q := by
  rw [linked, (assembled m_instructions).index e pI real, Option.bind_eq_bind, Option.bind_some] at run
  cases leaves : pI.leaves with
  | true =>
    rw [leaves, if_pos rfl] at run
    simp only [LeadsTo, leaves, if_true, true_and]
    cases linkReturn_eq real run with
    | inl only =>
      obtain ⟨rfl, long⟩ := only
      rw [List.mem_singleton]
      constructor
      · exact Or.inl
      · rintro (same | ⟨q, ⟨predicated, one, _⟩, _⟩)
        · exact same
        · exact absurd ⟨predicated, one⟩ long
    | inr both =>
      obtain ⟨predicated, one, q, next, rfl⟩ := both
      simp [predicated, one, next]
  | false =>
    rw [leaves, if_neg Bool.false_ne_true] at run
    obtain ⟨taken, takenRun, run⟩ := Option.bind_eq_some_iff.mp run
    obtain ⟨next, nextRun, run⟩ := Option.bind_eq_some_iff.mp run
    obtain rfl := Option.some.inj run
    rw [List.mem_append, mem_linkTarget resolved real takenRun, mem_linkNext real nextRun,
      ← exists_or]
    simp only [LeadsTo, leaves, Bool.false_eq_true, if_false, false_and, false_or, or_and_right]

end Targets

/-! ## The links of all blocks -/

section Connect

variable {m_instructions} {blocks} {links : Links} {b e : Nat} {pI : PtxInstruction}

theorem Links.mem_insert_successor (bb_id target i j : Nat) :
    j ∈ (links.insert bb_id target).successor_ids i ↔
      j ∈ links.successor_ids i ∨ i = bb_id ∧ j = target := by
  simp only [Links.insert, Function.update_apply]
  split
  · rename_i here
    simp [here, or_comm]
  · rename_i other
    simp [other]

theorem mem_insert_targets (targets : List Nat) (i j : Nat) :
    j ∈ (targets.foldl (fun links target => links.insert b target) links).successor_ids i ↔
      j ∈ links.successor_ids i ∨ i = b ∧ j ∈ targets := by
  induction targets generalizing links with
  | nil => simp
  | cons target targets ih =>
    rw [List.foldl_cons, ih, Links.mem_insert_successor, List.mem_cons, or_assoc,
      and_or_left]

theorem connectTurn_eq {links' : Links}
    (run : connectTurn m_instructions blocks links (e, b) = some links') :
    ∃ pI targets, m_instructions[e]? = some (.instruction pI) ∧
      linked m_instructions blocks e pI = some targets ∧
      links' = targets.foldl (fun links target => links.insert b target) links := by
  rw [connectTurn] at run
  split at run
  · rename_i pI real
    obtain ⟨targets, found, rest⟩ := Option.bind_eq_some_iff.mp run
    exact ⟨pI, targets, real, found, (Option.some.inj rest).symm⟩
  · nomatch run

theorem mem_successor_ids (connected : connect_basic_blocks m_instructions blocks = some links)
    (found : blocks.ptx_end[b]? = some e) (real : m_instructions[e]? = some (.instruction pI)) :
    ∃ targets, linked m_instructions blocks e pI = some targets ∧
      ∀ j, j ∈ links.successor_ids b ↔ j ∈ targets := by
  have each := @List.foldlM_zipIdx_keeps _ _ _ (fun k links =>
    (∀ b < k, ∀ e pI, blocks.ptx_end[b]? = some e → m_instructions[e]? = some (.instruction pI) →
      ∃ targets, linked m_instructions blocks e pI = some targets ∧
        ∀ j, j ∈ links.successor_ids b ↔ j ∈ targets) ∧
    ∀ b, k ≤ b → links.successor_ids b = ∅) _ 0 ?_ _ _ connected ⟨by simp, fun _ _ => rfl⟩
  · have before := (List.getElem?_eq_some_iff.mp found).1
    exact each.1 b (by rwa [Nat.zero_add]) e pI found real
  · intro k e links links' here run holds
    rw [Nat.zero_add] at run holds ⊢
    obtain ⟨earlier, later⟩ := holds
    obtain ⟨pI, targets, real, found, rfl⟩ := connectTurn_eq run
    refine ⟨fun b below e' pI' found' real' => ?_, fun b above => ?_⟩
    · cases Nat.eq_or_lt_of_le (Nat.le_of_lt_succ below) with
      | inl last =>
        subst last
        obtain rfl := Option.some.inj (here.symm.trans found')
        obtain rfl := Statement.instruction.inj (Option.some.inj (real.symm.trans real'))
        refine ⟨targets, found, fun j => ?_⟩
        rw [mem_insert_targets, later b (Nat.le_refl b)]
        simp
      | inr before =>
        obtain ⟨targets', found'', members⟩ := earlier b before e' pI' found' real'
        refine ⟨targets', found'', fun j => ?_⟩
        rw [mem_insert_targets, members]
        simp [Nat.ne_of_lt before]
    · ext j
      rw [mem_insert_targets, later b (Nat.le_of_succ_le above)]
      have other : b ≠ k := Nat.ne_of_gt above
      simp [other]

end Connect

/-! ## Completeness -/

section Complete

variable {m_instructions} {blocks} {links : Links}

structure Built (m_instructions : List Statement) (blocks : Blocks) (links : Links) : Prop where
  partition : blocks.Partition m_instructions
  successors : ∀ b e pI, blocks.ptx_end[b]? = some e →
    m_instructions[e]? = some (.instruction pI) → ∀ j, j ∈ links.successor_ids b ↔
      pI.leaves = true ∧ j = blocks.exit_bb ∨
        ∃ q, LeadsTo m_instructions e pI q ∧ j = blocks.get_bb q

theorem ptx_assemble_eq_some (assembled : ptx_assemble m_instructions = some (blocks, links)) :
    labelsResolve m_instructions = true ∧ create_basic_blocks m_instructions = some blocks ∧
      connect_basic_blocks m_instructions blocks = some links := by
  rw [ptx_assemble] at assembled
  split at assembled
  · rename_i resolved
    obtain ⟨blocks', created, rest⟩ := Option.bind_eq_some_iff.mp assembled
    obtain ⟨links', connected, rest⟩ := Option.bind_eq_some_iff.mp rest
    obtain ⟨rfl, rfl⟩ := Prod.mk.inj (Option.some.inj rest)
    exact ⟨resolved, created, connected⟩
  · nomatch assembled

theorem ptx_assemble_built (assembled : ptx_assemble m_instructions = some (blocks, links)) :
    Built m_instructions blocks links := by
  obtain ⟨resolved, created, connected⟩ := ptx_assemble_eq_some assembled
  refine ⟨create_basic_blocks_partition created, fun b e pI found real j => ?_⟩
  obtain ⟨targets, run, members⟩ := mem_successor_ids connected found real
  rw [members, mem_linked resolved real run]

theorem LeadsTo.real {e q : Nat} {pI : PtxInstruction} (leads : LeadsTo m_instructions e pI q) :
    Real m_instructions q := by
  rw [LeadsTo] at leads
  split at leads
  · exact (next_eq_some.mp leads.2.2).2.1
  · cases leads with
    | inl branch =>
      obtain ⟨_, _, _, found⟩ := branch
      exact (next_eq_some.mp found).2.1
    | inr next => exact (next_eq_some.mp next.2).2.1

theorem IndirectTarget.real {q : Nat} {pI : PtxInstruction}
    (target : IndirectTarget m_instructions pI q) : Real m_instructions q := by
  cases target with
  | inl labelled =>
    obtain ⟨_, _, found⟩ := labelled
    exact (next_eq_some.mp found).2.1
  | inr anywhere => exact anywhere.2

namespace Built

variable (built : Built m_instructions blocks links)

include built

theorem exists_end {p : Nat} (real : Real m_instructions p) :
    ∃ e pE, blocks.ptx_end[blocks.get_bb p]? = some e ∧
      m_instructions[e]? = some (.instruction pE) ∧ blocks.get_bb e = blocks.get_bb p ∧ p ≤ e := by
  have inside := built.partition.inside p real
  obtain ⟨⟨pE, here⟩, same, last⟩ := built.partition.last _ _ (List.getElem?_eq_getElem inside)
  exact ⟨_, pE, List.getElem?_eq_getElem inside, here, same, last p real rfl⟩

theorem get_bb_ne_exit_bb {p : Nat} (real : Real m_instructions p) :
    blocks.get_bb p ≠ blocks.exit_bb :=
  Nat.ne_of_lt (built.partition.inside p real)

theorem mem_successors {p q e : Nat} {pE : PtxInstruction} (real : Real m_instructions q)
    (found : blocks.ptx_end[blocks.get_bb p]? = some e)
    (here : m_instructions[e]? = some (.instruction pE)) :
    blocks.get_bb q ∈ links.successor_ids (blocks.get_bb p) ↔
      ∃ q', LeadsTo m_instructions e pE q' ∧ blocks.get_bb q' = blocks.get_bb q := by
  rw [built.successors _ _ _ found here]
  constructor
  · rintro (⟨_, same⟩ | ⟨q', leads, same⟩)
    · exact absurd same (built.get_bb_ne_exit_bb real)
    · exact ⟨q', leads, same.symm⟩
  · rintro ⟨q', leads, same⟩
    exact Or.inr ⟨q', leads, same.symm⟩

theorem exit_mem_successors {p e : Nat} {pE : PtxInstruction}
    (found : blocks.ptx_end[blocks.get_bb p]? = some e)
    (here : m_instructions[e]? = some (.instruction pE)) :
    blocks.exit_bb ∈ links.successor_ids (blocks.get_bb p) ↔ pE.leaves = true := by
  rw [built.successors _ _ _ found here]
  constructor
  · rintro (⟨leaves, _⟩ | ⟨q, leads, same⟩)
    · exact leaves
    · exact absurd same.symm (built.get_bb_ne_exit_bb leads.real)
  · exact fun leaves => Or.inl ⟨leaves, rfl⟩

theorem linkable_of_complete (complete : links.Complete m_instructions blocks) :
    blocks.Linkable m_instructions := by
  constructor
  case indirect =>
    intro p pI q e pE real indirect target found here
    exact (built.mem_successors target.real found here).mp
      (complete.indirect p pI q real indirect target)
  case returns =>
    intro b e pI q found here leaves predicated next
    obtain ⟨_, rfl, last⟩ := built.partition.last b e found
    obtain ⟨behind, real, _⟩ := next_eq_some.mp next
    cases complete.next e pI q here (Or.inl predicated) next with
    | inl same =>
      have before := last q real same
      omega
    | inr linked =>
      obtain ⟨q', leads, _⟩ := (built.mem_successors real found here).mp linked
      rw [LeadsTo, leaves, if_pos rfl] at leads
      exact leads.2.1
  case exits =>
    intro p pI e pE real leaves found here
    exact (built.exit_mem_successors found here).mp (complete.exit p pI real leaves)
  case first =>
    intro pI q e pE real branch target found _ here
    obtain ⟨l, labelAt, next⟩ := target
    obtain ⟨_, real', _⟩ := next_eq_some.mp next
    exact (built.mem_successors real' found here).mp
      (complete.branch 0 pI q real branch ⟨l, labelAt, next⟩)

theorem complete_of_linkable (linkable : blocks.Linkable m_instructions) :
    links.Complete m_instructions blocks := by
  constructor
  case indirect =>
    intro p pI q real indirect target
    obtain ⟨e, pE, found, here, _, _⟩ := built.exists_end ⟨pI, real⟩
    exact (built.mem_successors target.real found here).mpr
      (linkable.indirect p pI q e pE real indirect target found here)
  case branch =>
    intro p pI q real branch target
    obtain ⟨l, labelAt, next⟩ := id target
    obtain ⟨_, real', _⟩ := next_eq_some.mp next
    obtain ⟨e, pE, found, here, same, above⟩ := built.exists_end ⟨pI, real⟩
    apply (built.mem_successors real' found here).mpr
    cases Nat.eq_or_lt_of_le above with
    | inl last =>
      subst last
      obtain rfl := Statement.instruction.inj (Option.some.inj (real.symm.trans here))
      have stays : pI.leaves = false := by simp [PtxInstruction.leaves, branch]
      refine ⟨q, ?_, rfl⟩
      rw [LeadsTo, stays]
      exact Or.inl ⟨branch, target⟩
    | inr before =>
      -- a branch ends its block, unless it starts the function
      cases Nat.eq_zero_or_pos p with
      | inl first =>
        subst first
        exact linkable.first pI q e pE real branch target found (Nat.ne_of_gt before) here
      | inr positive =>
        have ends : pI.endsBlock = true := by simp [PtxInstruction.endsBlock, branch]
        have apart := built.partition.split p e pI positive real ends before ⟨pE, here⟩
        rw [same] at apart
        exact absurd apart (Nat.lt_irrefl _)
  case next =>
    intro p pI q real goes next
    obtain ⟨behind, real', labels⟩ := next_eq_some.mp next
    obtain ⟨e, pE, found, here, same, above⟩ := built.exists_end ⟨pI, real⟩
    cases Nat.eq_or_lt_of_le above with
    | inl last =>
      subst last
      obtain rfl := Statement.instruction.inj (Option.some.inj (real.symm.trans here))
      apply Or.inr
      apply (built.mem_successors real' found here).mpr
      refine ⟨q, ?_, rfl⟩
      rw [LeadsTo]
      cases leaves : pI.leaves with
      | true =>
        have predicated : pI.has_pred = true := by
          cases goes with
          | inl predicated => exact predicated
          | inr stays => exact absurd (leaves.symm.trans stays.2.2.2.1) Bool.true_eq_false.mp
        have one := linkable.returns _ p pI q found real leaves predicated next
        exact ⟨predicated, one, next⟩
      | false =>
        refine Or.inr ⟨fun jumps => ?_, next⟩
        cases goes with
        | inl predicated => exact jumps.2 predicated
        | inr stays => exact stays.1 jumps.1
    | inr before =>
      -- the next instruction is not behind the last of the block
      have inside : q ≤ e := by
        by_contra beyond
        obtain ⟨name, label⟩ := labels e before (by omega)
        rw [here] at label
        nomatch label
      have low := built.partition.mono p q (by omega) (Real.lt_length real')
      have high := built.partition.mono q e inside (Real.lt_length ⟨pE, here⟩)
      exact Or.inl (Nat.le_antisymm (same ▸ high) low)
  case exit =>
    intro p pI real leaves
    obtain ⟨e, pE, found, here, _, _⟩ := built.exists_end ⟨pI, real⟩
    exact (built.exit_mem_successors found here).mpr (linkable.exits p pI e pE real leaves found here)

end Built

/-- The links of an assembled function are complete exactly if each predicated return at the end of
    a block that is followed by an instruction takes one byte, threads end in blocks that end so,
    no first branch is lost within its block, and each `brx` jumps to where its block leads. -/
theorem links_complete_iff (assembled : ptx_assemble m_instructions = some (blocks, links)) :
    links.Complete m_instructions blocks ↔ blocks.Linkable m_instructions :=
  ⟨(ptx_assemble_built assembled).linkable_of_complete,
    (ptx_assemble_built assembled).complete_of_linkable⟩

end Complete

def plain : PtxInstruction :=
  ⟨.OTHER_OP, false, false, "", 8, FinLiterals.eight_pos, Nat.le_refl MAX_INST_SIZE⟩

def ret (has_pred : Bool) : PtxInstruction :=
  ⟨.RET_OP, has_pred, false, "", 8, FinLiterals.eight_pos, Nat.le_refl MAX_INST_SIZE⟩

def earlyReturn : List Statement :=
  [.instruction plain, .instruction (ret true), .instruction plain, .instruction (ret false)]

theorem links_complete_iff_earlyReturn : ∃ blocks links,
    ptx_assemble earlyReturn = some (blocks, links) ∧
      (links.Complete earlyReturn blocks ↔ blocks.Linkable earlyReturn) :=
  ⟨_, _, rfl, links_complete_iff rfl⟩

/-- Its first block has an edge to the exit block only. -/
theorem early_return_falls_nowhere : ¬ ∀ m_instructions blocks links,
    ptx_assemble m_instructions = some (blocks, links) → links.Complete m_instructions blocks := by
  intro all
  have complete := all earlyReturn _ _ rfl
  cases complete.next 1 (ret true) 2 rfl (Or.inl rfl) rfl with
  | inl same => exact absurd same (by decide)
  | inr linked => exact absurd linked (by decide)

end AesOnGpu.ControlFlow
