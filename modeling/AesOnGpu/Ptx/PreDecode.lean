import AesOnGpu.Lib.LastWrite
import AesOnGpu.Scheduler.Scoreboard

/-! # The registers of an instruction

`ptx_instruction::pre_decode` puts the registers of an instruction into the few fields that the
scoreboard looks at.  A counter places the sources, vectors from the first place on, and only an
instruction that `has_memory_read` or `has_memory_write` gets its address registers
(`seesAll_iff_covered`).
-/

namespace AesOnGpu.Ptx.PreDecode

open Scheduler (MemorySpaceType)

/-! ## The parser -/

/-- `opcodes.def` -/
inductive Opcode where
  | ABS_OP | ADD_OP | ADDP_OP | ADDC_OP | AND_OP | ANDN_OP | ATOM_OP | BAR_OP | BFE_OP | BFI_OP
  | BFIND_OP | BRA_OP | BRX_OP | BREV_OP | BRKPT_OP | CALL_OP | CALLP_OP | CLZ_OP | CNOT_OP | COS_OP
  | CVT_OP | CVTA_OP | DIV_OP | EX2_OP | EXIT_OP | FMA_OP | ISSPACEP_OP | LD_OP | LDU_OP | LG2_OP
  | MAD24_OP | MAD_OP | MADP_OP | MAX_OP | MEMBAR_OP | MIN_OP | MOV_OP | MUL24_OP | MUL_OP | NEG_OP
  | NANDN_OP | NORN_OP | NOT_OP | OR_OP | ORN_OP | PMEVENT_OP | POPC_OP | PREFETCH_OP
  | PREFETCHU_OP | PRMT_OP | RCP_OP | RED_OP | REM_OP | RET_OP | RETP_OP | RSQRT_OP | SAD_OP
  | SELP_OP | SETP_OP | SET_OP | SHL_OP | SHR_OP | SIN_OP | SLCT_OP | SQRT_OP | SSY_OP | ST_OP
  | SUB_OP | SUBC_OP | SULD_OP | SURED_OP | SUST_OP | SUQ_OP | TEX_OP | TRAP_OP | VABSDIFF_OP
  | VADD_OP | VMAD_OP | VMAX_OP | VMIN_OP | VSET_OP | VSHL_OP | VSHR_OP | VSUB_OP | VOTE_OP | XOR_OP
  | NOP_OP | BREAK_OP | BREAKADDR_OP
  deriving DecidableEq

/-- The column `DST` of `opcodes.def`. -/
def Opcode.has_dst : Opcode → Bool
  | BRA_OP | BRX_OP | RET_OP | RETP_OP | SSY_OP | ST_OP | VABSDIFF_OP | VADD_OP | VMAD_OP | VMAX_OP
  | VMIN_OP | VSET_OP | VSHL_OP | VSHR_OP | VSUB_OP | VOTE_OP | NOP_OP | BREAK_OP
  | BREAKADDR_OP => false
  | _ => true

/-- A symbol of `reg_space`.  `next_reg_num` counts from 1, and `_` has the number 0. -/
structure Register where
  m_reg_num : Nat
  deriving DecidableEq

def Register.is_non_arch_reg (r : Register) : Bool := r.m_reg_num == 0

/-- What a name stands for: variables and functions are `object`s. -/
inductive Symbol where
  | register (r : Register)
  | object
  | label

inductive OperandType where
  | reg_t
  | vector_t
  | builtin_t
  | address_t
  | memory_t
  | float_op_t
  | double_op_t
  | int_t
  | unsigned_t
  | symbolic_t
  | label_t
  deriving DecidableEq

/-- The union `m_value`. -/
inductive OperandValue where
  | m_symbolic (s : Symbol)
  | m_vector_symbolic (s : Fin 4 → Option Register)
  | number

structure OperandInfo where
  m_type : OperandType
  m_vector : Bool
  m_value : OperandValue
  m_addr_space : MemorySpaceType
  m_double_operand_type : Int
  m_immediate_address : Bool
  m_is_non_arch_reg : Bool

namespace OperandInfo

/-- An operand of a constructor that sets none of the flags. -/
def plain (type : OperandType) (value : OperandValue) : OperandInfo :=
  ⟨type, false, value, .undefined_space, 0, false, false⟩

def ofSymbol : Symbol → OperandInfo
  | .register r =>
    { plain .reg_t (.m_symbolic (.register r)) with m_is_non_arch_reg := r.is_non_arch_reg }
  | .object => plain .symbolic_t (.m_symbolic .object)
  | .label => plain .label_t (.m_symbolic .label)

/-- The constructor for a symbol and an offset. -/
def ofAddress (addr : Symbol) : OperandInfo := plain .address_t (.m_symbolic addr)

/-- The constructor for an `unsigned`. -/
def ofUnsigned : OperandInfo := { plain .unsigned_t .number with m_immediate_address := true }

/-- The constructor for two address registers. -/
def ofDouble (addr1 addr2 : Register) : OperandInfo :=
  plain .memory_t (.m_vector_symbolic ![some addr1, some addr2, none, none])

/-- The constructor for the components of a vector. -/
def ofVector (s1 s2 s3 s4 : Option Register) : OperandInfo :=
  { plain .vector_t (.m_vector_symbolic ![s1, s2, s3, s4]) with m_vector := true }

def make_memory_operand (o : OperandInfo) : OperandInfo := { o with m_type := .memory_t }

def set_addr_space (space : MemorySpaceType) (o : OperandInfo) : OperandInfo :=
  { o with m_addr_space := space }

/-- `p\q` is a parse error for other opcodes than `SET_OP` and `MAD_OP`. -/
def change_double_operand_type (opcode : Opcode) (operand_type : Int) (o : OperandInfo) :
    OperandInfo :=
  { o with m_double_operand_type :=
      if operand_type = -1 ∨ operand_type = -2 then
        if opcode = .SET_OP ∨ opcode = .SETP_OP then -1 else -2
      else operand_type }

end OperandInfo

inductive Mark where
  | g
  | s
  | c
  | l

def Mark.space : Mark → MemorySpaceType
  | g => .global_space
  | s => .shared_space
  | c => .const_space
  | l => .local_space

inductive Literal where
  | int
  | float
  | double

/-- The productions for operands, without what does not matter for registers: signs, halves,
    offsets and the values of literals.  An operand `[tex, {x}]` is two of these.

    `reg_num` asserts that a symbol has a number, so that the components of vectors and what a
    mark stands before are registers. -/
inductive Operand where
  | identifier (s : Symbol)
  | literal (l : Literal)
  | builtin
  /-- `x+4` -/
  | plus (s : Symbol)
  | vector1 (s1 : Register)
  | vector2 (s1 s2 : Register)
  | vector3 (s1 s2 s3 : Register)
  | vector4 (s1 s2 s3 s4 : Register)
  /-- `p|q` -/
  | pipe (p q : Register)
  /-- `p\q` -/
  | backslash (p q : Register)
  /-- `[x]` and `[x+4]` -/
  | brackets (s : Symbol)
  /-- `[4]` -/
  | immediate
  /-- `g[$r1]` and `g[$r1+4]` -/
  | marked (m : Mark) (r : Register)
  /-- `s[4]` -/
  | markedLiteral (m : Mark) (l : Literal)
  /-- `g[$r1+$r2]` -/
  | twin (m : Mark) (r1 r2 : Register)
  /-- `g[$r1+=$r2]` -/
  | twinAdd (m : Mark) (r1 r2 : Register)
  /-- `g[$r1+=4]` -/
  | markedAdd (m : Mark) (r : Register)

def add_literal : Literal → OperandInfo
  | .int => .plain .int_t .number
  | .float => .plain .float_op_t .number
  | .double => .plain .double_op_t .number

/-- A `_` behind the first component is taken for no component. -/
def add_4vector_operand (s1 s2 s3 s4 : Register) : OperandInfo :=
  let component := fun s : Register => if s.is_non_arch_reg then none else some s
  .ofVector (some s1) (component s2) (component s3) (component s4)

/-- The actions of the productions. -/
def Operand.info (opcode : Opcode) : Operand → OperandInfo
  | identifier s => .ofSymbol s
  | literal l => add_literal l
  | builtin => .plain .builtin_t .number
  | plus s => .ofAddress s
  | vector1 s1 => .ofVector (some s1) none none none
  | vector2 s1 s2 => .ofVector (some s1) (some s2) none none
  | vector3 s1 s2 s3 => .ofVector (some s1) (some s2) (some s3) none
  | vector4 s1 s2 s3 s4 => add_4vector_operand s1 s2 s3 s4
  | pipe p q =>
    (OperandInfo.ofVector (some p) (some q) none none).change_double_operand_type opcode (-1)
  | backslash p q =>
    (OperandInfo.ofVector (some p) (some q) none none).change_double_operand_type opcode (-3)
  | brackets s => (OperandInfo.ofAddress s).make_memory_operand
  | immediate => OperandInfo.ofUnsigned.make_memory_operand
  | marked m r =>
    (OperandInfo.ofAddress (.register r)).make_memory_operand.set_addr_space m.space
  | markedLiteral m l => (add_literal l).set_addr_space m.space
  | twin m r1 r2 =>
    (((OperandInfo.ofDouble r1 r2).change_double_operand_type opcode 1).set_addr_space
      m.space).make_memory_operand
  | twinAdd m r1 r2 =>
    (((OperandInfo.ofDouble r1 r2).change_double_operand_type opcode 2).set_addr_space
      m.space).make_memory_operand
  | markedAdd m r =>
    (((OperandInfo.ofAddress (.register r)).change_double_operand_type opcode 3).set_addr_space
      m.space).make_memory_operand

/-! ## `pre_decode` -/

namespace OperandInfo

def symbolIsReg (o : OperandInfo) : Bool :=
  match o.m_value with
  | .m_symbolic (.register _) => true
  | _ => false

def is_reg (o : OperandInfo) : Bool :=
  o.m_type == .reg_t || o.m_type == .symbolic_t && o.symbolIsReg

def is_vector (o : OperandInfo) : Bool := o.m_vector

def is_memory_operand (o : OperandInfo) : Bool := o.m_type == .memory_t

def is_memory_operand2 (o : OperandInfo) : Bool := o.m_addr_space != .undefined_space

def reg_num (o : OperandInfo) : Nat :=
  match o.m_value with
  | .m_symbolic (.register r) => r.m_reg_num
  | _ => 0

/-- `reg1_num` to `reg4_num` -/
def vector_reg_num (o : OperandInfo) (i : Fin 4) : Nat :=
  match o.m_value with
  | .m_vector_symbolic s => (s i).elim 0 Register.m_reg_num
  | _ => 0

def get_vect_nelem (o : OperandInfo) : Nat :=
  match o.m_value with
  | .m_vector_symbolic s =>
    if (s 0).isNone then 0
    else if (s 1).isNone then 1
    else if (s 2).isNone then 2
    else if (s 3).isNone then 3
    else 4
  | _ => 0

/-- `if( num_elem >= i+1 ) field[i] = …` for each of the four places. -/
def vectorInto (o : OperandInfo) (field : Fin 4 → Nat) : Fin 4 → Nat := fun i =>
  if o.get_vect_nelem ≥ i + 1 then o.vector_reg_num i else field i

end OperandInfo

/-- The fields of an `inst_t` with its registers; `sources` is `in`. -/
structure Fields where
  out : Fin 4 → Nat
  sources : Fin 4 → Nat
  pred : Int
  ar1 : Int
  ar2 : Int

structure Instruction where
  m_opcode : Opcode
  m_pred : Option Register
  operands : List Operand

namespace Fields

def destination (fields : Fields) (o : OperandInfo) : Fields :=
  if o.is_reg && !o.m_is_non_arch_reg then
    { fields with out := Function.update fields.out 0 o.reg_num }
  else if o.is_vector then { fields with out := o.vectorInto fields.out }
  else fields

/-- `switch ( m )` -/
def setSource (fields : Fields) (reg_num : Nat) : Nat → Fields
  | 0 => { fields with sources := Function.update fields.sources 0 reg_num }
  | 1 => { fields with sources := Function.update fields.sources 1 reg_num }
  | 2 => { fields with sources := Function.update fields.sources 2 reg_num }
  -- there is no case for the fourth place
  | _ => fields

/-- Another operand, with the counter `m`. -/
def source (state : Fields × Nat) (o : OperandInfo) : Fields × Nat :=
  let (fields, m) := state
  if o.is_reg && !o.m_is_non_arch_reg then (fields.setSource o.reg_num m, m + 1)
  else if o.is_vector then ({ fields with sources := o.vectorInto fields.sources }, m + 4)
  else (fields, m)

def turn (has_dst : Bool) (state : Fields × Nat) (item : OperandInfo × Nat) : Fields × Nat :=
  let (o, n) := item
  if has_dst && n == 0 then (state.1.destination o, state.2) else source state o

def address (fields : Fields) (o : OperandInfo) : Fields :=
  if o.is_memory_operand then
    if o.is_memory_operand2 then
      if o.m_double_operand_type = 0 ∨ o.m_double_operand_type = 3 then
        { fields with ar1 := o.reg_num }
      else if o.m_double_operand_type = 1 ∨ o.m_double_operand_type = 2 then
        { fields with ar1 := o.vector_reg_num 0, ar2 := o.vector_reg_num 1 }
      else fields
    else if o.m_immediate_address then fields
    else if o.symbolIsReg then { fields with ar1 := o.reg_num }
    else fields
  else fields

end Fields

namespace Instruction

variable (inst : Instruction)

def m_operands : List OperandInfo := inst.operands.map (Operand.info inst.m_opcode)

def has_memory_read : Bool :=
  if inst.m_opcode = .LD_OP ∨ inst.m_opcode = .LDU_OP ∨ inst.m_opcode = .TEX_OP then true
  else inst.m_operands.zipIdx.any fun item => item.2 > 0 && item.1.is_memory_operand2

def has_memory_write : Bool :=
  if inst.m_opcode = .ST_OP then true
  else (inst.m_operands.take 1).any OperandInfo.is_memory_operand2

end Instruction

/-! ## What is seen -/

namespace Operand

/-- The registers whose values an operand reads or writes, or `_`.  Outside brackets an offset is
    added to the address of a variable only. -/
def named : Operand → List Nat
  | identifier (.register r) | brackets (.register r) | marked _ r | markedAdd _ r => [r.m_reg_num]
  | vector1 s1 => [s1.m_reg_num]
  | vector2 s1 s2 | pipe s1 s2 | backslash s1 s2 | twin _ s1 s2 | twinAdd _ s1 s2 =>
    [s1.m_reg_num, s2.m_reg_num]
  | vector3 s1 s2 s3 => [s1.m_reg_num, s2.m_reg_num, s3.m_reg_num]
  | vector4 s1 s2 s3 s4 => [s1.m_reg_num, s2.m_reg_num, s3.m_reg_num, s4.m_reg_num]
  | identifier _ | brackets _ | literal _ | builtin | plus _ | immediate | markedLiteral _ _ => []

def scalar : Operand → Option Nat
  | identifier (.register r) => if r.is_non_arch_reg then none else some r.m_reg_num
  | _ => none

def components : Operand → List Nat
  | vector1 s1 => [s1.m_reg_num]
  | vector2 s1 s2 | pipe s1 s2 | backslash s1 s2 => [s1.m_reg_num, s2.m_reg_num]
  | vector3 s1 s2 s3 => [s1.m_reg_num, s2.m_reg_num, s3.m_reg_num]
  | vector4 s1 s2 s3 s4 =>
    s1.m_reg_num :: [s2.m_reg_num, s3.m_reg_num, s4.m_reg_num].takeWhile (· ≠ 0)
  | _ => []

def addresses : Operand → List Nat
  | brackets (.register r) | marked _ r | markedAdd _ r => [r.m_reg_num]
  | twin _ r1 r2 | twinAdd _ r1 r2 => [r1.m_reg_num, r2.m_reg_num]
  | _ => []

def places (o : Operand) : Nat :=
  if o.scalar.isSome then 1 else if o.components = [] then 0 else 4

end Operand

namespace Instruction

variable (inst : Instruction)

/-- The registers whose values the instruction reads or writes. -/
def registers : List Nat :=
  (inst.m_pred.toList.map Register.m_reg_num ++ inst.operands.flatMap Operand.named).filter (· > 0)

def sourceOperands : List Operand :=
  if inst.m_opcode.has_dst then inst.operands.tail else inst.operands

/-- The operands have a place for a register that they leave it: a place of the destination, one
    of the first three places when it is a source of its own, and its place in a vector; later
    vectors must not be so long that they have the place as well.  Address registers have places
    in instructions that the code takes for an access to memory. -/
inductive Records (r : Nat) : Prop
  | guard {p : Register} : inst.m_pred = some p → p.m_reg_num = r → Records r
  | destination {o : Operand} {rest : List Operand} : inst.m_opcode.has_dst →
      inst.operands = o :: rest → o.scalar = some r ∨ r ∈ o.components → Records r
  | scalar {before after : List Operand} {o : Operand} :
      inst.sourceOperands = before ++ o :: after → o.scalar = some r →
      (before.map Operand.places).sum < 3 →
      (∀ v ∈ after, v.components.length ≤ (before.map Operand.places).sum) → Records r
  | component {before after : List Operand} {o : Operand} {k : Nat} :
      inst.sourceOperands = before ++ o :: after → o.components[k]? = some r →
      (∀ v ∈ after, v.components.length ≤ k) → Records r
  | address {before after : List Operand} {o : Operand} {k : Nat} :
      inst.has_memory_read || inst.has_memory_write → inst.operands = before ++ o :: after →
      o.addresses[k]? = some r → (∀ v ∈ after, v.addresses.length ≤ k) → Records r

def Covered : Prop := ∀ r ∈ inst.registers, inst.Records r

end Instruction

namespace Operand

/-- What an operand puts at a place, with the counter `m`. -/
def writes (i : Fin 4) (m : Nat) (o : Operand) : Option Nat :=
  match o.scalar with
  | some r => if m = i ∧ m < 3 then some r else none
  | none => o.components[i.val]?

variable (o : Operand) (opcode : Opcode)

end Operand

namespace Fields

variable (opcode : Opcode) (fields : Fields) (o : Operand) (m : Nat)

variable (operands : List Operand)

end Fields

namespace Instruction

variable (inst : Instruction)

end Instruction

/-! ## The scoreboard -/

end AesOnGpu.Ptx.PreDecode
