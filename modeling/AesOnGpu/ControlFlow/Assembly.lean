import AesOnGpu.Lib.FinLiterals
import AesOnGpu.Lib.Layout

/-! # Instruction memory

`function_info::ptx_assemble` puts the instructions of a function into an array that is indexed by
address, with empty slots behind an instruction of several bytes. A label takes no address; it
stands for the address of what follows. Statements are named by their place in `m_instructions`.
-/

namespace AesOnGpu.ControlFlow

inductive Opcode where
  | BRA_OP
  | BRX_OP
  | RET_OP
  | RETP_OP
  | EXIT_OP
  | BREAK_OP
  | BREAKADDR_OP
  | CALL_OP
  | CALLP_OP
  | OTHER_OP
  deriving DecidableEq

def MAX_INST_SIZE : Nat := 8

/-- `ptx_instruction`, when it is no label. `dst` is the name of the first operand; an instruction
    with the option `.exit` ends its thread when it is done. -/
structure PtxInstruction where
  opcode : Opcode
  has_pred : Bool
  is_exit : Bool
  dst : String
  inst_size : Nat
  size_pos : 0 < inst_size
  size_le : inst_size ≤ MAX_INST_SIZE
  deriving DecidableEq

inductive Statement where
  | label (name : String)
  | instruction (pI : PtxInstruction)
  deriving DecidableEq

namespace Statement

def is_label : Statement → Bool
  | label _ => true
  | instruction _ => false

def bytes : Statement → Nat
  | label _ => 0
  | instruction pI => pI.inst_size

end Statement

variable (m_instructions : List Statement)

def find_next_real_instruction (i : Nat) : Option Nat :=
  ((m_instructions.drop i).findIdx? fun pI => !pI.is_label).map fun k => i + k

/-- Where the loop of `ptx_assemble` stands. -/
structure Assembler where
  m_instr_mem : Layout.Cells
  labels : String → Option Nat
  m_instr_mem_index : Nat → Option Nat
  n : Nat

namespace Assembler

def new : Assembler := ⟨fun _ => none, fun _ => none, fun _ => none, 0⟩

def turn (state : Assembler) (item : Statement × Nat) : Assembler :=
  match item.1 with
  | .label name => { state with labels := Function.update state.labels name (some state.n) }
  | .instruction pI =>
    { state with
      m_instr_mem := Layout.place state.m_instr_mem state.n item.2 pI.inst_size
      m_instr_mem_index := Function.update state.m_instr_mem_index item.2 (some state.n)
      n := state.n + pI.inst_size }

def resolves (state : Assembler) (name : String) : Bool :=
  match state.labels name with
  | none => false
  | some index =>
    match state.m_instr_mem index with
    | some (some _) => true
    | _ => false

end Assembler

def assembler : Assembler := m_instructions.zipIdx.foldl Assembler.turn .new

/-- The second loop, over all instructions, aborts when a label is missing; the address of a label
    behind the last instruction has nothing that has a PC. -/
def labelsResolve : Bool :=
  m_instructions.all fun statement =>
    match statement with
    | .label _ => true
    | .instruction pI =>
      if pI.opcode = .BRA_OP ∨ pI.opcode = .BREAKADDR_OP ∨ pI.opcode = .CALLP_OP then
        (assembler m_instructions).resolves pI.dst
      else true

/-! ## Statements -/

section Statements

variable {m_instructions} {p q i : Nat} {pI : PtxInstruction}

theorem next_eq_some : find_next_real_instruction m_instructions i = some q ↔
    i ≤ q ∧ (∃ pI, m_instructions[q]? = some (.instruction pI)) ∧
      ∀ r, i ≤ r → r < q → ∃ name, m_instructions[r]? = some (.label name) := by
  rw [find_next_real_instruction, Option.map_eq_some_iff]
  constructor
  · rintro ⟨k, found, rfl⟩
    obtain ⟨inside, real, labels⟩ := List.findIdx?_eq_some_iff_getElem.mp found
    rw [List.length_drop] at inside
    rw [List.getElem_drop] at real
    refine ⟨Nat.le_add_right i k, ?_, fun r above below => ?_⟩
    · cases statement : m_instructions[i + k] with
      | label name => simp [statement, Statement.is_label] at real
      | instruction pI => exact ⟨pI, List.getElem?_eq_some_iff.mpr ⟨by omega, statement⟩⟩
    · obtain ⟨j, rfl⟩ := Nat.exists_eq_add_of_le above
      have isLabel := labels j (by omega)
      rw [List.getElem_drop] at isLabel
      cases statement : m_instructions[i + j] with
      | label name => exact ⟨name, List.getElem?_eq_some_iff.mpr ⟨by omega, statement⟩⟩
      | instruction pI => simp [statement, Statement.is_label] at isLabel
  · rintro ⟨above, ⟨pI, real⟩, labels⟩
    obtain ⟨k, rfl⟩ := Nat.exists_eq_add_of_le above
    obtain ⟨inside, statement⟩ := List.getElem?_eq_some_iff.mp real
    refine ⟨k, List.findIdx?_eq_some_iff_getElem.mpr ⟨?_, ?_, fun j below => ?_⟩, rfl⟩
    · rw [List.length_drop]
      omega
    · rw [List.getElem_drop, statement]
      rfl
    · obtain ⟨name, label⟩ := labels (i + j) (by omega) (by omega)
      obtain ⟨_, statement'⟩ := List.getElem?_eq_some_iff.mp label
      rw [List.getElem_drop, statement']
      exact Bool.false_ne_true

theorem next_eq_none : find_next_real_instruction m_instructions i = none ↔
    ∀ r pI, i ≤ r → m_instructions[r]? ≠ some (.instruction pI) := by
  rw [find_next_real_instruction, Option.map_eq_none_iff, List.findIdx?_eq_none_iff]
  constructor
  · intro labels r pI above real
    have member : Statement.instruction pI ∈ m_instructions.drop i := by
      apply List.mem_of_getElem? (i := r - i)
      rw [List.getElem?_drop, Nat.add_sub_cancel' above, real]
    have isLabel := labels _ member
    simp [Statement.is_label] at isLabel
  · intro noReal statement member
    obtain ⟨j, at_j⟩ := List.mem_iff_getElem?.mp member
    rw [List.getElem?_drop] at at_j
    cases statement with
    | label name => rfl
    | instruction pI => exact absurd at_j (noReal _ pI (Nat.le_add_right i j))

theorem next_self (real : m_instructions[p]? = some (.instruction pI)) :
    find_next_real_instruction m_instructions p = some p :=
  next_eq_some.mpr ⟨Nat.le_refl p, ⟨pI, real⟩, fun _ above below => by omega⟩

theorem next_succ {name : String} (label : m_instructions[i]? = some (.label name)) :
    find_next_real_instruction m_instructions (i + 1) =
      find_next_real_instruction m_instructions i := by
  cases found : find_next_real_instruction m_instructions (i + 1) with
  | some q =>
    obtain ⟨above, real, labels⟩ := next_eq_some.mp found
    refine (next_eq_some.mpr ⟨by omega, real, fun r above' below => ?_⟩).symm
    cases Nat.eq_or_lt_of_le above' with
    | inl here => exact ⟨name, here ▸ label⟩
    | inr later => exact labels r later below
  | none =>
    refine (next_eq_none.mpr fun r pI above real => ?_).symm
    cases Nat.eq_or_lt_of_le above with
    | inl here =>
      rw [here, real] at label
      nomatch label
    | inr later => exact next_eq_none.mp found r pI later real

end Statements

/-! ## Addresses -/

section Addresses

variable {m_instructions}

/-- The label is defined here for the last time. -/
def LabelAt (m_instructions : List Statement) (name : String) (l : Nat) : Prop :=
  m_instructions[l]? = some (.label name) ∧ ∀ l' > l, m_instructions[l']? ≠ some (.label name)

def Target (m_instructions : List Statement) (name : String) (q : Nat) : Prop :=
  ∃ l, LabelAt m_instructions name l ∧ find_next_real_instruction m_instructions l = some q

def addressOf (m_instructions : List Statement) (p : Nat) : Nat :=
  Layout.start (m_instructions.map Statement.bytes) p

/-- What the loop has made of the statements. -/
structure Assembled (m_instructions : List Statement) (state : Assembler) : Prop where
  laid : Layout.Laid (m_instructions.map Statement.bytes) state.m_instr_mem
  n : state.n = addressOf m_instructions m_instructions.length
  index : ∀ p pI, m_instructions[p]? = some (.instruction pI) →
    state.m_instr_mem_index p = some (addressOf m_instructions p)
  label : ∀ name addr, state.labels name = some addr ↔
    ∃ l, LabelAt m_instructions name l ∧ addressOf m_instructions l = addr

theorem addressOf_succ {p : Nat} {statement : Statement}
    (here : m_instructions[p]? = some statement) :
    addressOf m_instructions (p + 1) = addressOf m_instructions p + statement.bytes :=
  Layout.start_succ (by rw [List.getElem?_map, here]; rfl)

theorem addressOf_lt {p q : Nat} {pI : PtxInstruction}
    (here : m_instructions[p]? = some (.instruction pI)) (before : p < q) :
    addressOf m_instructions p < addressOf m_instructions q := by
  calc addressOf m_instructions p < addressOf m_instructions p + pI.inst_size :=
        Nat.lt_add_of_pos_right pI.size_pos
    _ = addressOf m_instructions (p + 1) := (addressOf_succ here).symm
    _ ≤ addressOf m_instructions q := Layout.start_mono _ before

theorem addressOf_append {p : Nat} (before : p ≤ m_instructions.length) (statement : Statement) :
    addressOf (m_instructions ++ [statement]) p = addressOf m_instructions p := by
  rw [addressOf, addressOf, List.map_append]
  exact Layout.start_append (by rwa [List.length_map]) _

theorem four_dvd_addressOf
    (sizes : ∀ (p : Nat) (pI : PtxInstruction), m_instructions[p]? = some (.instruction pI) →
      pI.inst_size = 4 ∨ pI.inst_size = 8) (p : Nat) : 4 ∣ addressOf m_instructions p := by
  refine List.dvd_sum fun bytes member => ?_
  obtain ⟨statement, inside, rfl⟩ := List.mem_map.mp (List.mem_of_mem_take member)
  cases statement with
  | label name => exact dvd_zero 4
  | instruction pI =>
    obtain ⟨q, here⟩ := List.mem_iff_getElem?.mp inside
    rw [Statement.bytes]
    cases sizes q pI here with
    | inl four => rw [four]
    | inr eight =>
      rw [eight]
      decide

theorem labelAt_append_label {name name' : String} {l : Nat} :
    LabelAt (m_instructions ++ [.label name]) name' l ↔
      if name' = name then l = m_instructions.length else LabelAt m_instructions name' l := by
  split
  · rename_i same
    subst same
    constructor
    · rintro ⟨here, later⟩
      cases Layout.getElem?_append_singleton.mp here with
      | inl old =>
        have before := (List.getElem?_eq_some_iff.mp old).1
        exact absurd List.getElem?_concat_length (later _ before)
      | inr last => exact last.1
    · rintro rfl
      refine ⟨List.getElem?_concat_length, fun l' later => ?_⟩
      rw [List.getElem?_eq_none (by rw [List.length_append, List.length_singleton]; omega)]
      nofun
  · rename_i other
    simp [LabelAt, Layout.getElem?_append_singleton, Ne.symm other]

theorem labelAt_append_instruction {pI : PtxInstruction} {name : String} {l : Nat} :
    LabelAt (m_instructions ++ [.instruction pI]) name l ↔ LabelAt m_instructions name l := by
  simp [LabelAt, Layout.getElem?_append_singleton]

theorem LabelAt.le_length {name : String} {l : Nat} (labelAt : LabelAt m_instructions name l) :
    l ≤ m_instructions.length :=
  Nat.le_of_lt (List.getElem?_eq_some_iff.mp labelAt.1).1

theorem labels_append {name : String} {addr : Nat} (statement : Statement) :
    (∃ l, LabelAt m_instructions name l ∧ addressOf m_instructions l = addr) ↔
      ∃ l, LabelAt m_instructions name l ∧
        addressOf (m_instructions ++ [statement]) l = addr := by
  apply exists_congr
  intro l
  apply and_congr_right
  intro labelAt
  rw [addressOf_append labelAt.le_length]

theorem Assembled.keep_label {state : Assembler} (before : Assembled m_instructions state)
    {name : String} {addr : Nat} {found : Option Nat} (kept : found = state.labels name) :
    found = some addr ↔
      ∃ l, LabelAt m_instructions name l ∧ addressOf m_instructions l = addr := by
  rw [kept]
  exact before.label name addr

theorem assembled (m_instructions : List Statement) :
    Assembled m_instructions (assembler m_instructions) := by
  induction m_instructions using List.reverseRecOn with
  | nil => exact ⟨Layout.Laid.nil, rfl, by simp, by simp [assembler, Assembler.new, LabelAt]⟩
  | append_singleton statements statement ih =>
    have run : assembler (statements ++ [statement]) =
        (assembler statements).turn (statement, statements.length) := by
      rw [assembler, assembler, List.zipIdx_append, List.foldl_append]
      simp
    have last : addressOf (statements ++ [statement]) (statements ++ [statement]).length =
        addressOf statements statements.length + statement.bytes := by
      rw [List.length_append, List.length_singleton, addressOf_succ List.getElem?_concat_length,
        addressOf_append (Nat.le_refl _)]
    have laid := ih.laid.append statement.bytes
    rw [List.length_map, ← addressOf, ← ih.n] at laid
    rw [run]
    cases statement with
    | label name =>
      constructor
      case laid => simpa [Assembler.turn, Statement.bytes] using laid
      case n => exact ih.n.trans last.symm
      case index =>
        intro p pI real
        have old : statements[p]? = some (.instruction pI) := by
          simpa [Layout.getElem?_append_singleton] using real
        have before := (List.getElem?_eq_some_iff.mp old).1
        rw [addressOf_append (Nat.le_of_lt before)]
        exact ih.index p pI old
      case label =>
        intro name' addr
        simp only [labelAt_append_label]
        by_cases same : name' = name
        · simp [Assembler.turn, same, addressOf_append, ih.n]
        · simp only [if_neg same]
          exact (ih.keep_label (Function.update_of_ne same _ _)).trans
            (labels_append _)
    | instruction pI =>
      constructor
      case laid => simpa [Assembler.turn, Statement.bytes] using laid
      case n =>
        rw [last, ← ih.n]
        rfl
      case index =>
        intro p pI' real
        cases Layout.getElem?_append_singleton.mp real with
        | inl old =>
          have before := (List.getElem?_eq_some_iff.mp old).1
          rw [addressOf_append (Nat.le_of_lt before)]
          exact (Function.update_of_ne (Nat.ne_of_lt before) _ _).trans
            (ih.index p pI' old)
        | inr here =>
          rw [here.1, addressOf_append (Nat.le_refl _), ← ih.n]
          exact Function.update_self _ _ _
      case label =>
        intro name addr
        simp only [labelAt_append_instruction]
        exact (ih.keep_label rfl).trans (labels_append _)

/-! ## What is at an address -/

theorem addressOf_next {p q : Nat} (next : find_next_real_instruction m_instructions p = some q) :
    addressOf m_instructions p = addressOf m_instructions q := by
  obtain ⟨above, -, labels⟩ := next_eq_some.mp next
  apply Layout.start_eq_of_zeros above
  intro r above' below
  obtain ⟨name, label⟩ := labels r above' below
  rw [List.getElem?_map, label]
  rfl

theorem m_instr_mem_addressOf {p : Nat} (inside : p ≤ m_instructions.length) :
    (assembler m_instructions).m_instr_mem (addressOf m_instructions p) =
      (find_next_real_instruction m_instructions p).map some := by
  have laid := (assembled m_instructions).laid
  cases found : find_next_real_instruction m_instructions p with
  | some q =>
    obtain ⟨-, ⟨pI, real⟩, -⟩ := next_eq_some.mp found
    rw [addressOf_next found]
    exact laid.item q pI.inst_size (by rw [List.getElem?_map, real]; rfl) pI.size_pos
  | none =>
    have same : addressOf m_instructions p = addressOf m_instructions m_instructions.length := by
      apply Layout.start_eq_of_zeros inside
      intro r above below
      rw [List.getElem?_map, List.getElem?_eq_getElem below]
      cases statement : m_instructions[r] with
      | label name => rfl
      | instruction pI =>
        exact absurd (List.getElem?_eq_some_iff.mpr ⟨below, statement⟩)
          (next_eq_none.mp found r pI above)
    apply laid.unset
    rw [same, List.length_map]
    rfl

section Instruction

variable {p : Nat} {pI : PtxInstruction} (real : m_instructions[p]? = some (.instruction pI))

include real

theorem m_instr_mem_next :
    (assembler m_instructions).m_instr_mem (addressOf m_instructions p + pI.inst_size) =
      (find_next_real_instruction m_instructions (p + 1)).map some := by
  have inside := (List.getElem?_eq_some_iff.mp real).1
  rw [← m_instr_mem_addressOf (Nat.succ_le_of_lt inside), addressOf_succ real]
  rfl

theorem m_instr_mem_second (several : pI.inst_size ≠ 1) :
    (assembler m_instructions).m_instr_mem (addressOf m_instructions p + 1) = some none := by
  have positive := pI.size_pos
  exact (assembled m_instructions).laid.empty p pI.inst_size 1
    (by rw [List.getElem?_map, real]; rfl) Nat.one_pos (by omega)

end Instruction

theorem m_instr_mem_label {name : String} {q : Nat} (target : Target m_instructions name q) :
    ∃ addr, (assembler m_instructions).labels name = some addr ∧
      (assembler m_instructions).m_instr_mem addr = some (some q) := by
  obtain ⟨l, labelAt, found⟩ := target
  refine ⟨_, ((assembled m_instructions).label name _).mpr ⟨l, labelAt, rfl⟩, ?_⟩
  rw [m_instr_mem_addressOf labelAt.le_length, found]
  rfl

theorem Target.unique {name : String} {q q' : Nat} (target : Target m_instructions name q)
    (target' : Target m_instructions name q') : q = q' := by
  obtain ⟨l, ⟨here, last⟩, found⟩ := target
  obtain ⟨l', ⟨here', last'⟩, found'⟩ := target'
  obtain rfl : l = l' := by
    by_contra different
    cases Nat.lt_or_gt_of_ne different with
    | inl before => exact last l' before here'
    | inr behind => exact last' l behind here
  exact Option.some.inj (found.symm.trans found')

theorem resolves_iff {name : String} :
    (assembler m_instructions).resolves name = true ↔ ∃ q, Target m_instructions name q := by
  have label := (assembled m_instructions).label name
  rw [Assembler.resolves]
  constructor
  · intro resolves
    cases found : (assembler m_instructions).labels name with
    | none => simp [found] at resolves
    | some index =>
      obtain ⟨l, labelAt, rfl⟩ := (label index).mp found
      cases next : find_next_real_instruction m_instructions l with
      | none => simp [found, m_instr_mem_addressOf labelAt.le_length, next] at resolves
      | some q => exact ⟨q, l, labelAt, next⟩
  · rintro ⟨q, target⟩
    obtain ⟨addr, found, here⟩ := m_instr_mem_label target
    simp only [found, here]

end Addresses

end AesOnGpu.ControlFlow
