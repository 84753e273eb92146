import AesOnGpu.Lib.Grouping
import AesOnGpu.ControlFlow.Assembly

/-! # Leaders and blocks

`function_info::create_basic_blocks` marks the statements that start a block and then cuts the
function there. A block goes from one leader to the next; only its last instruction and the blocks
of the statements are used when blocks are connected. The opcode of the first statement is never
looked at.
-/

namespace AesOnGpu.ControlFlow

/-- The next statement is a leader. -/
def PtxInstruction.endsBlock (pI : PtxInstruction) : Bool :=
  match pI.opcode with
  | .BRA_OP | .RET_OP | .EXIT_OP | .RETP_OP | .BREAK_OP => true
  | .CALL_OP | .CALLP_OP => pI.has_pred
  | _ => false

/-- The loop that finds leaders, from place `i` on. Behind a leader `find_next_real_instruction`
    passes over labels. -/
def leadersFrom (passing : Bool) (i : Nat) : List Statement → List Nat
  | [] => []
  | .label _ :: rest =>
    if passing then leadersFrom true (i + 1) rest else i :: leadersFrom true (i + 1) rest
  | .instruction pI :: rest =>
    if pI.endsBlock then
      if rest = [] then [] else (i + 1) :: leadersFrom true (i + 1) rest
    else leadersFrom false (i + 1) rest

/-- Where the loop that cuts the function stands. `ends` are the `ptx_end`s of all blocks but the
    last, `l` the leaders to come. -/
structure Cutter where
  ends : List Nat
  l : List Nat
  last_real_inst : Nat
  get_bb : Nat → Nat

variable (m_instructions : List Statement)

/-- A leader closes the last block and opens another, unless it is a bogus trailing label. `none`
    is a block that ends with a label, which has no `m_instr_mem_index`. -/
def Cutter.lead (state : Cutter) (i : Nat) : Option Cutter :=
  if state.l.head? = some i then
    match find_next_real_instruction m_instructions i with
    | none => some { state with l := state.l.tail }
    | some first =>
      match m_instructions[state.last_real_inst]? with
      | some (.instruction _) => some { state with
          ends := state.ends ++ [state.last_real_inst]
          l := state.l.tail
          last_real_inst := first }
      | _ => none
  else some state

def Cutter.assign_bb (state : Cutter) (i : Nat) (pI : Statement) : Cutter :=
  { state with
    get_bb := Function.update state.get_bb i state.ends.length
    last_real_inst := if pI.is_label then state.last_real_inst else i }

def Cutter.turn (state : Cutter) (item : Statement × Nat) : Option Cutter := do
  let state ← state.lead m_instructions item.2
  return state.assign_bb item.2 item.1

structure Blocks where
  ptx_end : List Nat
  get_bb : Nat → Nat

def create_basic_blocks : Option Blocks := do
  -- the first block needs an instruction
  let _ ← find_next_real_instruction m_instructions 0
  let state ← m_instructions.zipIdx.foldlM (Cutter.turn m_instructions)
    ⟨[], leadersFrom false 1 m_instructions.tail, 0, fun _ => 0⟩
  return ⟨state.ends ++ [state.last_real_inst], state.get_bb⟩

/-! ## What holds between the turns -/

def Real (r : Nat) : Prop := ∃ pI, m_instructions[r]? = some (.instruction pI)

/-- The statements before `k` are in blocks, one after the other, and each closed block has its
    last instruction. -/
structure Cut (k : Nat) (state : Cutter) : Prop where
  le : ∀ r < k, state.get_bb r ≤ state.ends.length
  mono : ∀ r r', r ≤ r' → r' < k → state.get_bb r ≤ state.get_bb r'
  closed : ∀ b e, state.ends[b]? = some e → e < k ∧ Real m_instructions e ∧ state.get_bb e = b ∧
    ∀ r < k, Real m_instructions r → state.get_bb r = b → r ≤ e
  split : ∀ r r' pI, 0 < r → m_instructions[r]? = some (.instruction pI) → pI.endsBlock = true →
    r < r' → r' < k → Real m_instructions r' → state.get_bb r < state.get_bb r'

structure Open (k : Nat) (state : Cutter) : Prop where
  before : state.last_real_inst < k
  real : Real m_instructions state.last_real_inst
  inside : state.get_bb state.last_real_inst = state.ends.length
  last : ∀ r < k, Real m_instructions r → state.get_bb r = state.ends.length →
    r ≤ state.last_real_inst

/-- The last block has none yet. -/
structure Fresh (k : Nat) (state : Cutter) : Prop where
  begins : find_next_real_instruction m_instructions k = some state.last_real_inst
  before : ∀ r < k, Real m_instructions r → state.get_bb r < state.ends.length

def Unsplit (k : Nat) (state : Cutter) : Prop :=
  ∀ r pI, 0 < r → r < k → m_instructions[r]? = some (.instruction pI) → pI.endsBlock = true →
    state.get_bb r < state.ends.length

inductive Mode (k : Nat) (state : Cutter) : Prop where
  | start (first : k = 0 ∨ k = 1 ∧ ¬ Real m_instructions 0) (label : state.last_real_inst = 0)
      (leaders : state.l = leadersFrom false 1 (m_instructions.drop 1))
  | scanning (isOpen : Open m_instructions k state) (unsplit : Unsplit m_instructions k state)
      (leaders : state.l = leadersFrom false k (m_instructions.drop k))
  | leader (isOpen : Open m_instructions k state)
      (leaders : state.l = k :: leadersFrom true k (m_instructions.drop k))
  | passing (block : Fresh m_instructions k state ∨ Open m_instructions k state ∧
        find_next_real_instruction m_instructions k = none)
      (leaders : state.l = leadersFrom true k (m_instructions.drop k))

section Turns

variable {m_instructions} {k : Nat} {state state' : Cutter} {pI : PtxInstruction} {name : String}

theorem le_of_mem_leadersFrom {passing : Bool} {i j : Nat} {statements : List Statement}
    (member : j ∈ leadersFrom passing i statements) : i ≤ j := by
  induction statements generalizing passing i with
  | nil => simp [leadersFrom] at member
  | cons statement rest ih =>
    have later {passing : Bool} (member : j ∈ leadersFrom passing (i + 1) rest) : i ≤ j :=
      Nat.le_of_succ_le (ih member)
    cases statement with
    | label name =>
      rw [leadersFrom] at member
      split at member
      · exact later member
      · cases List.mem_cons.mp member with
        | inl here => exact Nat.le_of_eq here.symm
        | inr tail => exact later tail
    | instruction pI =>
      rw [leadersFrom] at member
      split at member
      · split at member
        · simp at member
        · cases List.mem_cons.mp member with
          | inl next => exact Nat.le_of_succ_le (Nat.le_of_eq next.symm)
          | inr tail => exact later tail
      · exact later member

theorem get_bb_assign (statement : Statement) (r : Nat) :
    (state.assign_bb k statement).get_bb r =
      if r = k then state.ends.length else state.get_bb r := Function.update_apply _ _ _ _

theorem Cut.assign (cut : Cut m_instructions k state)
    (unsplit : Real m_instructions k → Unsplit m_instructions k state) (statement : Statement) :
    Cut m_instructions (k + 1) (state.assign_bb k statement) := by
  constructor
  case le =>
    intro r below
    rw [get_bb_assign]
    split
    · exact Nat.le_refl _
    · exact cut.le r (by omega)
  case mono =>
    intro r r' order below
    rw [get_bb_assign, get_bb_assign]
    split
    · rw [if_pos (by omega)]
    · split
      · exact cut.le r (by omega)
      · exact cut.mono r r' order (by omega)
  case closed =>
    intro b e found
    obtain ⟨before, real, inside, last⟩ := cut.closed b e found
    have index := (List.getElem?_eq_some_iff.mp found).1
    refine ⟨Nat.lt_succ_of_lt before, real, ?_, fun r below real' inside' => ?_⟩
    · rw [get_bb_assign, if_neg (Nat.ne_of_lt before)]
      exact inside
    · rw [get_bb_assign] at inside'
      split at inside'
      · exact absurd inside' (Nat.ne_of_gt index)
      · exact last r (by omega) real' inside'
  case split =>
    intro r r' pI positive real ends order below real'
    rw [get_bb_assign, get_bb_assign, if_neg (by omega)]
    split
    · rename_i here
      exact unsplit (here ▸ real') r pI positive (by omega) real ends
    · exact cut.split r r' pI positive real ends order (by omega) real'

theorem Open.assign_label (isOpen : Open m_instructions k state)
    (label : m_instructions[k]? = some (.label name)) :
    Open m_instructions (k + 1) (state.assign_bb k (.label name)) := by
  constructor
  case before => exact Nat.lt_succ_of_lt isOpen.before
  case real => exact isOpen.real
  case inside =>
    have other : state.last_real_inst ≠ k := Nat.ne_of_lt isOpen.before
    rw [get_bb_assign]
    exact (if_neg other).trans isOpen.inside
  case last =>
    intro r below real inside
    rw [get_bb_assign] at inside
    split at inside
    · rename_i here
      obtain ⟨pI, real⟩ := real
      rw [here, label] at real
      nomatch real
    · exact isOpen.last r (by omega) real inside

theorem Fresh.assign_label (fresh : Fresh m_instructions k state)
    (label : m_instructions[k]? = some (.label name)) :
    Fresh m_instructions (k + 1) (state.assign_bb k (.label name)) := by
  constructor
  case begins => exact (next_succ label).trans fresh.begins
  case before =>
    intro r below real
    rw [get_bb_assign]
    split
    · rename_i here
      obtain ⟨pI, real⟩ := real
      rw [here, label] at real
      nomatch real
    · exact fresh.before r (by omega) real

theorem open_instruction (here : m_instructions[k]? = some (.instruction pI)) :
    Open m_instructions (k + 1) (state.assign_bb k (.instruction pI)) where
  before := Nat.lt_succ_self k
  real := ⟨pI, here⟩
  inside := by
    rw [get_bb_assign]
    exact if_pos rfl
  last r below _ _ := Nat.le_of_lt_succ below

theorem instruction_mode (unsplit : Unsplit m_instructions k state)
    (here : m_instructions[k]? = some (.instruction pI)) {passing : Bool}
    (leaders : state.l = leadersFrom passing k (m_instructions.drop k)) :
    Mode m_instructions (k + 1) (state.assign_bb k (.instruction pI)) := by
  have isOpen := @open_instruction m_instructions k state pI here
  have inside := (List.getElem?_eq_some_iff.mp here).1
  have suffix : m_instructions.drop k = .instruction pI :: m_instructions.drop (k + 1) := by
    rw [List.drop_eq_getElem_cons inside, (List.getElem?_eq_some_iff.mp here).2]
  rw [suffix, leadersFrom] at leaders
  split at leaders
  · split at leaders
    · rename_i none
      apply Mode.passing
      · refine Or.inr ⟨isOpen, next_eq_none.mpr fun r pI' above real => ?_⟩
        have short := List.drop_eq_nil_iff.mp none
        have below := (List.getElem?_eq_some_iff.mp real).1
        omega
      · rw [none]
        exact leaders
    · exact Mode.leader isOpen leaders
  · rename_i joins
    apply Mode.scanning isOpen _ leaders
    intro r pI' positive below real ends
    rw [get_bb_assign]
    split
    · rename_i last
      rw [last, here] at real
      obtain rfl := Statement.instruction.inj (Option.some.inj real)
      exact absurd ends joins
    · exact unsplit r pI' positive (by omega) real ends

theorem Fresh.unsplit (fresh : Fresh m_instructions k state) : Unsplit m_instructions k state :=
  fun r pI _ below real _ => fresh.before r below ⟨pI, real⟩

theorem lt_of_mem_leadersFrom {passing : Bool} {j : Nat} {rest : List Statement}
    (member : j ∈ leadersFrom passing k (.instruction pI :: rest)) : k < j := by
  rw [leadersFrom] at member
  split at member
  · split at member
    · simp at member
    · cases List.mem_cons.mp member with
      | inl next => exact Nat.le_of_eq next.symm
      | inr tail => exact le_of_mem_leadersFrom tail
  · exact le_of_mem_leadersFrom member

theorem lead_none (other : ∀ j ∈ state.l, k < j) : state.lead m_instructions k = some state := by
  apply if_neg
  intro head
  exact Nat.lt_irrefl k (other k (List.mem_of_head? head))

theorem Open.lead {later : List Nat} (isOpen : Open m_instructions k state)
    (cut : Cut m_instructions k state) (leaders : state.l = k :: later)
    (run : state.lead m_instructions k = some state') :
    Cut m_instructions k state' ∧ state'.l = later ∧
      (Fresh m_instructions k state' ∨ Open m_instructions k state' ∧
        find_next_real_instruction m_instructions k = none) := by
  rw [Cutter.lead, leaders, List.head?_cons, if_pos rfl] at run
  cases next : find_next_real_instruction m_instructions k with
  | none =>
    simp only [next, List.tail_cons, Option.some.injEq] at run
    subst run
    exact ⟨⟨cut.le, cut.mono, cut.closed, cut.split⟩, rfl,
      Or.inr ⟨⟨isOpen.before, isOpen.real, isOpen.inside, isOpen.last⟩, rfl⟩⟩
  | some first =>
    obtain ⟨pI, real⟩ := isOpen.real
    simp only [next, real, List.tail_cons, Option.some.injEq] at run
    subst run
    refine ⟨⟨fun r below => ?_, cut.mono, fun b e found => ?_, cut.split⟩, rfl,
      Or.inl ⟨next, fun r below _ => ?_⟩⟩
    · rw [List.length_append]
      exact Nat.le_succ_of_le (cut.le r below)
    · cases Layout.getElem?_append_singleton.mp found with
      | inl old => exact cut.closed b e old
      | inr new =>
        obtain ⟨rfl, rfl⟩ := new
        exact ⟨isOpen.before, isOpen.real, isOpen.inside, isOpen.last⟩
    · rw [List.length_append]
      exact Nat.lt_succ_of_le (cut.le r below)

theorem passing_label
    (block : Fresh m_instructions k state ∨ Open m_instructions k state ∧
      find_next_real_instruction m_instructions k = none)
    (label : m_instructions[k]? = some (.label name))
    (leaders : state.l = leadersFrom true (k + 1) (m_instructions.drop (k + 1))) :
    Mode m_instructions (k + 1) (state.assign_bb k (.label name)) := by
  refine @Mode.passing _ _ (state.assign_bb k (.label name)) ?_ leaders
  cases block with
  | inl fresh => exact Or.inl (fresh.assign_label label)
  | inr ended => exact Or.inr ⟨ended.1.assign_label label, (next_succ label).trans ended.2⟩

theorem lead_label {led : Cutter} {first : Nat}
    (begins : find_next_real_instruction m_instructions 0 = some first)
    (here : m_instructions[k]? = some (.label name))
    (lead : state.lead m_instructions k = some led)
    (cut : Cut m_instructions k state) (mode : Mode m_instructions k state) :
    Cut m_instructions k led ∧
      (k = 0 ∧ led = state ∧ state.last_real_inst = 0 ∧
          state.l = leadersFrom false 1 (m_instructions.drop 1) ∨
        (Fresh m_instructions k led ∨ Open m_instructions k led ∧
            find_next_real_instruction m_instructions k = none) ∧
          led.l = leadersFrom true (k + 1) (m_instructions.drop (k + 1))) := by
  have inside := (List.getElem?_eq_some_iff.mp here).1
  have suffix : m_instructions.drop k = .label name :: m_instructions.drop (k + 1) := by
    rw [List.drop_eq_getElem_cons inside, (List.getElem?_eq_some_iff.mp here).2]
  cases mode with
  | start position label leaders =>
    cases position with
    | inl atFirst =>
      subst atFirst
      have unled : state.lead m_instructions 0 = some state := by
        apply lead_none
        rw [leaders]
        exact fun j member => le_of_mem_leadersFrom member
      obtain rfl := Option.some.inj (unled.symm.trans lead)
      exact ⟨cut, Or.inl ⟨rfl, rfl, label, leaders⟩⟩
    | inr atSecond =>
      -- the first block would end with the label that starts the function
      obtain ⟨rfl, noInstruction⟩ := atSecond
      obtain ⟨name', label'⟩ : ∃ name, m_instructions[0]? = some (.label name) := by
        rw [List.getElem?_eq_getElem (Nat.lt_trans Nat.one_pos inside)]
        cases zeroth : m_instructions[0] with
        | label name => exact ⟨name, rfl⟩
        | instruction pI =>
          exact absurd ⟨pI, List.getElem?_eq_some_iff.mpr ⟨_, zeroth⟩⟩ noInstruction
      rw [suffix, leadersFrom, if_neg Bool.false_ne_true] at leaders
      simp [Cutter.lead, leaders, next_succ label', begins, label, label'] at lead
  | scanning isOpen unsplit leaders =>
    rw [suffix, leadersFrom, if_neg Bool.false_ne_true] at leaders
    obtain ⟨cut', leaders', block⟩ := isOpen.lead cut leaders lead
    exact ⟨cut', Or.inr ⟨block, leaders'⟩⟩
  | leader isOpen leaders =>
    rw [suffix, leadersFrom, if_pos rfl] at leaders
    obtain ⟨cut', leaders', block⟩ := isOpen.lead cut leaders lead
    exact ⟨cut', Or.inr ⟨block, leaders'⟩⟩
  | passing block leaders =>
    rw [suffix, leadersFrom, if_pos rfl] at leaders
    have unled : state.lead m_instructions k = some state := by
      apply lead_none
      rw [leaders]
      exact fun j member => le_of_mem_leadersFrom member
    obtain rfl := Option.some.inj (unled.symm.trans lead)
    exact ⟨cut, Or.inr ⟨block, leaders⟩⟩

theorem lead_instruction {led : Cutter} (here : m_instructions[k]? = some (.instruction pI))
    (lead : state.lead m_instructions k = some led)
    (cut : Cut m_instructions k state) (mode : Mode m_instructions k state) :
    Cut m_instructions k led ∧ Unsplit m_instructions k led ∧
      (k = 0 ∧ led.l = leadersFrom false 1 (m_instructions.drop 1) ∨
        ∃ passing, led.l = leadersFrom passing k (m_instructions.drop k)) := by
  have inside := (List.getElem?_eq_some_iff.mp here).1
  have suffix : m_instructions.drop k = .instruction pI :: m_instructions.drop (k + 1) := by
    rw [List.drop_eq_getElem_cons inside, (List.getElem?_eq_some_iff.mp here).2]
  have unled {passing : Bool} (leaders : state.l =
      leadersFrom passing k (.instruction pI :: m_instructions.drop (k + 1))) :
      state = led := by
    have unled : state.lead m_instructions k = some state := by
      apply lead_none
      rw [leaders]
      exact fun j member => lt_of_mem_leadersFrom member
    exact Option.some.inj (unled.symm.trans lead)
  have fresh {state : Cutter} (block : Fresh m_instructions k state ∨
      Open m_instructions k state ∧ find_next_real_instruction m_instructions k = none) :
      Unsplit m_instructions k state := by
    cases block with
    | inl fresh => exact fresh.unsplit
    | inr ended => exact absurd ((next_self here).symm.trans ended.2) (Option.some_ne_none k)
  cases mode with
  | start position label leaders =>
    cases position with
    | inl atFirst =>
      subst atFirst
      have unled : state.lead m_instructions 0 = some state := by
        apply lead_none
        rw [leaders]
        exact fun j member => le_of_mem_leadersFrom member
      obtain rfl := Option.some.inj (unled.symm.trans lead)
      exact ⟨cut, fun r _ _ below => by omega, Or.inl ⟨rfl, leaders⟩⟩
    | inr atSecond =>
      obtain ⟨rfl, _⟩ := atSecond
      obtain rfl := unled (suffix ▸ leaders)
      exact ⟨cut, fun r _ positive below => by omega, Or.inr ⟨false, leaders⟩⟩
  | scanning isOpen unsplit leaders =>
    obtain rfl := unled (suffix ▸ leaders)
    exact ⟨cut, unsplit, Or.inr ⟨false, leaders⟩⟩
  | leader isOpen leaders =>
    obtain ⟨cut', leaders', block⟩ := isOpen.lead cut leaders lead
    exact ⟨cut', fresh block, Or.inr ⟨true, leaders'⟩⟩
  | passing block leaders =>
    obtain rfl := unled (suffix ▸ leaders)
    exact ⟨cut, fresh block, Or.inr ⟨true, leaders⟩⟩

theorem turn_keeps {statement : Statement} {first : Nat}
    (begins : find_next_real_instruction m_instructions 0 = some first)
    (here : m_instructions[k]? = some statement)
    (run : state.turn m_instructions (statement, k) = some state')
    (cut : Cut m_instructions k state) (mode : Mode m_instructions k state) :
    Cut m_instructions (k + 1) state' ∧ Mode m_instructions (k + 1) state' := by
  obtain ⟨led, lead, assigned⟩ := Option.bind_eq_some_iff.mp run
  obtain rfl := Option.some.inj assigned
  cases statement with
  | label name =>
    have noLabel : ¬ Real m_instructions k := by
      rintro ⟨pI, real⟩
      rw [here] at real
      nomatch real
    obtain ⟨cut', found⟩ := lead_label begins here lead cut mode
    refine ⟨cut'.assign (fun real => absurd real noLabel) _, ?_⟩
    cases found with
    | inl atFirst =>
      obtain ⟨rfl, rfl, label, leaders⟩ := atFirst
      exact Mode.start (Or.inr ⟨rfl, noLabel⟩) label leaders
    | inr later => exact passing_label later.1 here later.2
  | instruction pI =>
    obtain ⟨cut', unsplit, found⟩ := lead_instruction here lead cut mode
    refine ⟨cut'.assign (fun _ => unsplit) _, ?_⟩
    cases found with
    | inl atFirst =>
      obtain ⟨rfl, leaders⟩ := atFirst
      exact Mode.scanning (open_instruction here) (fun r _ positive below => by omega) leaders
    | inr later =>
      obtain ⟨passing, leaders⟩ := later
      exact instruction_mode unsplit here leaders

end Turns

/-! ## The blocks -/

/-- The instructions are in blocks, one after the other, with their last instructions. Behind the
    first statement an instruction that ends a block is the last of its block. -/
structure Blocks.Partition (blocks : Blocks) : Prop where
  mono : ∀ r r', r ≤ r' → r' < m_instructions.length → blocks.get_bb r ≤ blocks.get_bb r'
  inside : ∀ r, Real m_instructions r → blocks.get_bb r < blocks.ptx_end.length
  last : ∀ b e, blocks.ptx_end[b]? = some e → Real m_instructions e ∧ blocks.get_bb e = b ∧
    ∀ r, Real m_instructions r → blocks.get_bb r = b → r ≤ e
  split : ∀ r r' pI, 0 < r → m_instructions[r]? = some (.instruction pI) → pI.endsBlock = true →
    r < r' → Real m_instructions r' → blocks.get_bb r < blocks.get_bb r'

variable {m_instructions} {blocks : Blocks}

theorem Real.lt_length {r : Nat} (real : Real m_instructions r) : r < m_instructions.length := by
  obtain ⟨pI, here⟩ := real
  exact (List.getElem?_eq_some_iff.mp here).1

theorem create_basic_blocks_partition (created : create_basic_blocks m_instructions = some blocks) :
    blocks.Partition m_instructions := by
  obtain ⟨first, begins, created⟩ := Option.bind_eq_some_iff.mp created
  obtain ⟨state, run, finished⟩ := Option.bind_eq_some_iff.mp created
  obtain rfl := Option.some.inj finished
  have initial : Cut m_instructions 0 ⟨[], leadersFrom false 1 m_instructions.tail, 0, fun _ => 0⟩ ∧
      Mode m_instructions 0 ⟨[], leadersFrom false 1 m_instructions.tail, 0, fun _ => 0⟩ := by
    refine ⟨⟨by simp, by simp, by simp, by simp⟩, Mode.start (Or.inl rfl) rfl ?_⟩
    rw [List.drop_one]
  have final := @List.foldlM_zipIdx_keeps _ _ _
    (fun k state => Cut m_instructions k state ∧ Mode m_instructions k state) _ 0
    (fun k statement state state' here run holds =>
      turn_keeps begins (by rwa [Nat.zero_add]) run holds.1 holds.2) _ _ run initial
  rw [Nat.zero_add] at final
  obtain ⟨cut, mode⟩ := final
  obtain ⟨_, real, _⟩ := next_eq_some.mp begins
  have isOpen : Open m_instructions m_instructions.length state := by
    cases mode with
    | start position label leaders =>
      have inside := Real.lt_length real
      cases position with
      | inl empty => omega
      | inr one =>
        obtain rfl : first = 0 := by omega
        exact absurd real one.2
    | scanning isOpen unsplit leaders => exact isOpen
    | leader isOpen leaders => exact isOpen
    | passing block leaders =>
      cases block with
      | inl fresh =>
        obtain ⟨behind, real', _⟩ := next_eq_some.mp fresh.begins
        exact absurd (Real.lt_length real') (Nat.not_lt.mpr behind)
      | inr ended => exact ended.1
  constructor
  case mono => exact cut.mono
  case inside =>
    intro r real
    rw [List.length_append]
    exact Nat.lt_succ_of_le (cut.le r real.lt_length)
  case last =>
    intro b e found
    cases Layout.getElem?_append_singleton.mp found with
    | inl closed =>
      obtain ⟨_, real, inside, last⟩ := cut.closed b e closed
      exact ⟨real, inside, fun r real' => last r real'.lt_length real'⟩
    | inr final =>
      obtain ⟨rfl, rfl⟩ := final
      exact ⟨isOpen.real, isOpen.inside, fun r real' => isOpen.last r real'.lt_length real'⟩
  case split =>
    intro r r' pI positive real ends order real'
    exact cut.split r r' pI positive real ends order real'.lt_length real'

end AesOnGpu.ControlFlow
