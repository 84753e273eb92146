import AesOnGpu.Ptx.Declarations
import AesOnGpu.Ptx.Register

/-! # Memory operands

The parser keeps the offset of `[x+4]` in the operand, and `get_operand_value` adds it in a
branch for each space.  The branch for global variables does not
(`reaches_iff_covered`).
-/

namespace AesOnGpu.Ptx.MemoryOperands

/-! ## The parser -/

/-- The spaces that an operand may be marked with. -/
inductive AddrSpace where
  | undefined_space
  | global_space
  | shared_space
  | const_space
  | local_space
  deriving DecidableEq

inductive OperandType where
  | address_t
  | memory_t
  | unsigned_t
  deriving DecidableEq

/-- The union `m_value`. -/
inductive OperandValue where
  | m_symbolic (addr : Symbol)
  | m_unsigned (x : BitVec 32)

/-- `operand_info`.  The operands of this module leave `m_double_operand_type` at 0. -/
structure OperandInfo where
  m_type : OperandType
  m_immediate_address : Bool
  m_addr_space : AddrSpace
  m_operand_lohi : Nat
  m_const_mem_offset : BitVec 32
  m_value : OperandValue
  m_addr_offset : BitVec 32

def OperandInfo.ofAddress (addr : Symbol) (offset : BitVec 32) : OperandInfo :=
  ⟨.address_t, false, .undefined_space, 0, 0, .m_symbolic addr, offset⟩

/-- The constructor for an `unsigned`. -/
def OperandInfo.ofUnsigned (x : BitVec 32) : OperandInfo :=
  ⟨.unsigned_t, true, .undefined_space, 0, 0, .m_unsigned x, x⟩

inductive AddressExpression where
  | identifier (name : String)
  | lo (name : String)
  | hi (name : String)
  | plus (name : String) (offset : BitVec 32)
  | int (x : BitVec 32)

inductive Operand where
  | plus (name : String) (offset : BitVec 32)
  | brackets (address : AddressExpression)
  | marked (space : String) (address : AddressExpression)

section

variable (lookup : String → Option Symbol)

/-- An identifier without a declaration is a parse error. -/
def add_address_operand (name : String) (offset : BitVec 32) : Option OperandInfo :=
  (lookup name).map fun s => .ofAddress s offset

def add_address_operand2 (offset : BitVec 32) : OperandInfo := .ofUnsigned offset

def add_memory_operand (op : OperandInfo) : OperandInfo := { op with m_type := .memory_t }

def change_operand_lohi (op : OperandInfo) (lohi : Nat) : OperandInfo :=
  { op with m_operand_lohi := lohi }

/-- A name that is not recognized fails an assertion. -/
def change_memory_addr_space (identifier : String) (op : OperandInfo) : Option OperandInfo :=
  if identifier = "g" then some { op with m_addr_space := .global_space }
  else if identifier = "s" then some { op with m_addr_space := .shared_space }
  else if identifier.toList.head? = some 'c' then do
    let bank ← lookup identifier
    let address ← bank.m_address
    return { op with m_addr_space := .const_space, m_const_mem_offset := address }
  else if identifier.toList.head? = some 'l' then some { op with m_addr_space := .local_space }
  else none

def parseAddress : AddressExpression → Option OperandInfo
  | .identifier name => add_address_operand lookup name 0
  | .lo name => (add_address_operand lookup name 0).map (change_operand_lohi · 1)
  | .hi name => (add_address_operand lookup name 0).map (change_operand_lohi · 2)
  | .plus name offset => add_address_operand lookup name offset
  | .int x => some (add_address_operand2 x)

def parseOperand : Operand → Option OperandInfo
  | .plus name offset => add_address_operand lookup name offset
  | .brackets address => (parseAddress lookup address).map add_memory_operand
  | .marked space address => do
    let op ← parseAddress lookup address
    change_memory_addr_space lookup space (add_memory_operand op)

end

/-! ## The value of an operand -/

/-- The types of which a value is put together from several registers. -/
def OfRegisters (opType : ScalarType) : Prop :=
  opType = .BB128_TYPE ∨ opType = .BB64_TYPE ∨ opType = .FF64_TYPE

instance : DecidablePred OfRegisters :=
  fun _ => inferInstanceAs (Decidable (_ ∨ _ ∨ _))

/-- The cascade over the predicates of the symbol's type.  A symbol without a type is not
    handled, nor is a variable without an address. -/
def memoryValue (regs : Regs Symbol) (sym : Symbol) (offset : BitVec 32) : Option RegValue := do
  let type ← sym.declaration
  match type.space with
  | .reg_space => return regs sym + offset.signExtend 64
  -- the sums with an address are unsigned ones of 32 bits
  | .param_space_kernel => return ((← sym.m_address) + offset).setWidth 64
  | .param_space_local => return ((← sym.m_address) + offset).setWidth 64
  | .global_space => return (← sym.m_address).setWidth 64
  | .local_space => return ((← sym.m_address) + offset).setWidth 64
  | .const_space => return ((← sym.m_address) + offset).setWidth 64
  | .shared_space => return ((← sym.m_address) + offset).setWidth 64
  | .tex_space | .surf_space => none

/-- The branches behind the one for memory operands, which do not look at the offset. -/
def symbolValue (sym : Symbol) : Option RegValue := do
  let type ← sym.declaration
  match type.space with
  | .shared_space | .const_space | .global_space | .local_space =>
    return (← sym.m_address).setWidth 64
  | .reg_space | .param_space_kernel | .param_space_local | .tex_space | .surf_space => none

/-- The `result` of the first part. -/
def operandResult (opType : ScalarType) (regs : Regs Symbol) (op : OperandInfo) :
    Option RegValue := do
  -- the components of a vector, which an address has not
  if OfRegisters opType ∧ op.m_addr_space = .undefined_space then none
  else
    let result ←
      if op.m_immediate_address then some (op.m_addr_offset.signExtend 64)
      else match op.m_type, op.m_value with
        | .memory_t, .m_symbolic sym => memoryValue regs sym op.m_addr_offset
        | .address_t, .m_symbolic sym => symbolValue sym
        | _, _ => none
    return if op.m_operand_lohi = 1 then result &&& 0xFFFF
      else if op.m_operand_lohi = 2 then (result >>> 16) &&& 0xFFFF
      else result

/-- What an operand is evaluated to: the `result` itself, or the contents of a memory. -/
inductive Evaluated where
  | value (result : RegValue)
  | read (space : AddrSpace) (addr m_last_effective_address : BitVec 32)

/-- With `derefFlag` set. -/
def get_operand_value (opType : ScalarType) (regs : Regs Symbol) (op : OperandInfo) :
    Option Evaluated := do
  let result ← operandResult opType regs op
  let addr : BitVec 32 := result.setWidth 32
  return match op.m_addr_space with
    | .undefined_space => .value result
    | .const_space => .read .const_space (addr + op.m_const_mem_offset) addr
    | space => .read space addr addr

/-! ## What an operand is for -/

structure Variable where
  symbol : Symbol
  declaration : Declaration
  address : BitVec 32
  declared : symbol.declaration = some declaration
  addressable : declaration.space ≠ .tex_space ∧ declaration.space ≠ .surf_space
  located : declaration.space ≠ .reg_space → symbol.m_address = some address

def Variable.effective (v : Variable) (regs : Regs Symbol) (offset : BitVec 32) : RegValue :=
  if v.declaration.space = .reg_space then regs v.symbol + offset.signExtend 64
  else (v.address + offset).setWidth 64

/-- The evaluation is for an address; what a memory was read for is known in 32 bits. -/
def Evaluated.Reaches (target : RegValue) : Evaluated → Prop
  | value result => result = target
  | read _ _ m_last_effective_address => m_last_effective_address = target.setWidth 32

/-- The forms of a memory operand with a symbol; a marked one has the name of a space before
    the brackets. -/
inductive Form where
  | brackets
  | marked (space : String)

def Form.operand : Form → AddressExpression → Operand
  | brackets, address => .brackets address
  | marked space, address => .marked space address

def Form.Recognized (lookup : String → Option Symbol) : Form → Prop
  | brackets => True
  | marked space => ∀ op, (change_memory_addr_space lookup space op).isSome

/-- `[x+offset]` is evaluated to the address of `x` plus the offset. -/
def Reaches (lookup : String → Option Symbol) (opType : ScalarType) (regs : Regs Symbol)
    (form : Form) (name : String) (v : Variable) (offset : BitVec 32) : Prop :=
  ∃ op ev, parseOperand lookup (form.operand (.plus name offset)) = some op ∧
    get_operand_value opType regs op = some ev ∧ ev.Reaches (v.effective regs offset)

/-- A global variable has no offset, and the type is not one of those that are put together from
    registers where the operand is not marked. -/
def Covered (opType : ScalarType) (form : Form) (v : Variable) (offset : BitVec 32) : Prop :=
  (v.declaration.space = .global_space → offset = 0) ∧ (form = .brackets → ¬ OfRegisters opType)

/-! ## Evaluation -/

section

variable {lookup : String → Option Symbol} {opType : ScalarType} {regs : Regs Symbol}
  {form : Form} {name : String} {v : Variable} {offset : BitVec 32}

theorem memoryValue_eq (v : Variable) (regs : Regs Symbol) (offset : BitVec 32) :
    memoryValue regs v.symbol offset =
      some (v.effective regs (if v.declaration.space = .global_space then 0 else offset)) := by
  rw [memoryValue, v.declared]
  have located := v.located
  have addressable := v.addressable
  rw [Variable.effective]
  cases space : v.declaration.space with
  | reg_space => simp [space]
  | tex_space => exact absurd space addressable.1
  | surf_space => exact absurd space addressable.2
  | _ => simp [space, located (by simp [space])]

theorem effective_of_variable (noRegister : v.declaration.space ≠ .reg_space) :
    v.effective regs offset = (v.address + offset).setWidth 64 := if_neg noRegister

theorem narrow_effective_iff (global : v.declaration.space = .global_space) :
    (v.effective regs 0).setWidth 32 = (v.effective regs offset).setWidth 32 ↔ offset = 0 := by
  have noRegister : v.declaration.space ≠ .reg_space := by simp [global]
  rw [effective_of_variable noRegister, effective_of_variable noRegister,
    BitVec.setWidth_setWidth_of_le _ (by decide), BitVec.setWidth_setWidth_of_le _ (by decide),
    BitVec.setWidth_eq, BitVec.setWidth_eq, add_right_inj, eq_comm]

theorem effective_iff (global : v.declaration.space = .global_space) :
    v.effective regs 0 = v.effective regs offset ↔ offset = 0 := by
  constructor
  · exact fun same => (narrow_effective_iff global).mp (congrArg (BitVec.setWidth 32) same)
  · rintro rfl
    rfl

theorem effective_added_iff (v : Variable) (regs : Regs Symbol) (offset : BitVec 32) :
    (v.effective regs (if v.declaration.space = .global_space then 0 else offset) =
        v.effective regs offset ↔ (v.declaration.space = .global_space → offset = 0)) ∧
      ((v.effective regs (if v.declaration.space = .global_space then 0 else offset)).setWidth 32 =
        (v.effective regs offset).setWidth 32 ↔
          (v.declaration.space = .global_space → offset = 0)) := by
  by_cases global : v.declaration.space = .global_space
  · rw [if_pos global, effective_iff global, narrow_effective_iff global]
    simp [global]
  · rw [if_neg global]
    simp [global]

theorem marked_spec {space : String} {op op' : OperandInfo}
    (marked : change_memory_addr_space lookup space op = some op') :
    ∃ addr_space bank, addr_space ≠ .undefined_space ∧
      op' = { op with m_addr_space := addr_space, m_const_mem_offset := bank } := by
  rw [change_memory_addr_space] at marked
  split at marked
  · exact ⟨.global_space, _, by decide, (Option.some.inj marked).symm⟩
  split at marked
  · exact ⟨.shared_space, _, by decide, (Option.some.inj marked).symm⟩
  split at marked
  · obtain ⟨symbol, -, rest⟩ := Option.bind_eq_some_iff.mp marked
    obtain ⟨address, -, rest⟩ := Option.bind_eq_some_iff.mp rest
    exact ⟨.const_space, address, by decide, (Option.some.inj rest).symm⟩
  split at marked
  · exact ⟨.local_space, _, by decide, (Option.some.inj marked).symm⟩
  · cases marked

/-- The operand before a mark. -/
def bracketed (s : Symbol) (offset : BitVec 32) : OperandInfo :=
  add_memory_operand (.ofAddress s offset)

variable (opType regs v offset) in
theorem operandResult_bracketed (addr_space : AddrSpace) (bank : BitVec 32) :
    operandResult opType regs { bracketed v.symbol offset with
        m_addr_space := addr_space, m_const_mem_offset := bank } =
      if OfRegisters opType ∧ addr_space = .undefined_space then none
      else some (v.effective regs (if v.declaration.space = .global_space then 0 else offset)) := by
  rw [operandResult]
  split
  · rfl
  · simp [bracketed, add_memory_operand, OperandInfo.ofAddress, memoryValue_eq]

theorem get_operand_value_brackets :
    get_operand_value opType regs (bracketed v.symbol offset) =
      if OfRegisters opType then none
      else some (.value
        (v.effective regs (if v.declaration.space = .global_space then 0 else offset))) := by
  have result := operandResult_bracketed opType regs v offset .undefined_space 0
  have same : ({ bracketed v.symbol offset with
      m_addr_space := .undefined_space, m_const_mem_offset := 0 } : OperandInfo) =
        bracketed v.symbol offset := rfl
  rw [same] at result
  rw [get_operand_value, result]
  split <;> simp_all [bracketed, add_memory_operand, OperandInfo.ofAddress]

variable (opType regs v offset) in
theorem get_operand_value_marked {addr_space : AddrSpace} (bank : BitVec 32)
    (marked : addr_space ≠ .undefined_space) :
    ∃ addr, get_operand_value opType regs { bracketed v.symbol offset with
        m_addr_space := addr_space, m_const_mem_offset := bank } =
      some (.read addr_space addr ((v.effective regs
        (if v.declaration.space = .global_space then 0 else offset)).setWidth 32)) := by
  rw [get_operand_value, operandResult_bracketed, if_neg (by simp [marked])]
  cases addr_space with
  | undefined_space => exact absurd rfl marked
  | const_space => exact ⟨_, rfl⟩
  | global_space => exact ⟨_, rfl⟩
  | shared_space => exact ⟨_, rfl⟩
  | local_space => exact ⟨_, rfl⟩

theorem parseAddress_plus (v : Variable) (found : lookup name = some v.symbol) :
    parseAddress lookup (.plus name offset) = some (.ofAddress v.symbol offset) := by
  rw [parseAddress, add_address_operand, found]
  rfl

theorem reaches_brackets_iff (v : Variable) (found : lookup name = some v.symbol) :
    Reaches lookup opType regs .brackets name v offset ↔ Covered opType .brackets v offset := by
  have parsed : parseOperand lookup (.brackets (.plus name offset)) =
      some (bracketed v.symbol offset) := by
    rw [parseOperand, parseAddress_plus v found]
    rfl
  rw [Covered, ← (effective_added_iff v regs offset).1]
  constructor
  · rintro ⟨op, ev, operand, value, reaches⟩
    obtain rfl := Option.some.inj (parsed.symm.trans operand)
    rw [get_operand_value_brackets] at value
    split at value
    · cases value
    · rename_i single
      obtain rfl := Option.some.inj value
      exact ⟨reaches, fun _ => single⟩
  · rintro ⟨same, single⟩
    refine ⟨_, .value _, parsed, ?_, same⟩
    rw [get_operand_value_brackets, if_neg (single rfl)]

theorem reaches_marked_iff {space : String} (v : Variable) (found : lookup name = some v.symbol)
    (recognized : (Form.marked space).Recognized lookup) :
    Reaches lookup opType regs (.marked space) name v offset ↔
      Covered opType (.marked space) v offset := by
  obtain ⟨op', marked⟩ := Option.isSome_iff_exists.mp (recognized (bracketed v.symbol offset))
  have parsed : parseOperand lookup (.marked space (.plus name offset)) = some op' := by
    rw [parseOperand, parseAddress_plus v found]
    exact marked
  obtain ⟨addr_space, bank, defined, rfl⟩ := marked_spec marked
  obtain ⟨addr, value⟩ := get_operand_value_marked opType regs v offset bank defined
  rw [Covered, ← (effective_added_iff v regs offset).2]
  constructor
  · rintro ⟨op, ev, operand, value', reaches⟩
    obtain rfl := Option.some.inj (parsed.symm.trans operand)
    obtain rfl := Option.some.inj (value.symm.trans value')
    exact ⟨reaches, fun brackets => by cases brackets⟩
  · rintro ⟨same, -⟩
    exact ⟨_, _, parsed, value, same⟩

/-- A memory operand reaches the address of its symbol plus the offset exactly when the operand is
    covered. -/
theorem reaches_iff_covered (v : Variable) (found : lookup name = some v.symbol)
    (recognized : form.Recognized lookup) :
    Reaches lookup opType regs form name v offset ↔ Covered opType form v offset := by
  cases form with
  | brackets => exact reaches_brackets_iff v found
  | marked space => exact reaches_marked_iff v found recognized

end

/-- The variable `a` of one word at the address 256, declared in a space. -/
def word (space : DeclSpace) (addressable : space ≠ .tex_space ∧ space ≠ .surf_space) :
    Variable where
  symbol := ⟨"a", some ⟨"a", space, .U32_TYPE, none, none, .NON_ARRAY_IDENTIFIER⟩, 4, some 0x100⟩
  declaration := ⟨"a", space, .U32_TYPE, none, none, .NON_ARRAY_IDENTIFIER⟩
  address := 0x100
  declared := rfl
  addressable := addressable
  located := fun _ => rfl

theorem reaches_shared_word :
    Reaches (fun _ => some (word .shared_space (by decide)).symbol) .U32_TYPE (fun _ => 0) .brackets
        "a" (word .shared_space (by decide)) 4 ↔
      Covered .U32_TYPE .brackets (word .shared_space (by decide)) 4 :=
  reaches_iff_covered (word .shared_space (by decide)) rfl trivial

/-- `[a+4]` of a global variable is the address of `a`. -/
theorem global_offset_not_reached :
    ¬ ∀ (lookup : String → Option Symbol) (opType : ScalarType) (regs : Regs Symbol) (form : Form)
      (name : String) (v : Variable) (offset : BitVec 32), lookup name = some v.symbol →
        form.Recognized lookup → Reaches lookup opType regs form name v offset := by
  intro reaches
  have reached := reaches (fun _ => some (word .global_space (by decide)).symbol) .U32_TYPE
    (fun _ => 0) .brackets "a" (word .global_space (by decide)) 4 rfl trivial
  have covered := (reaches_brackets_iff (word .global_space (by decide)) rfl).mp reached
  exact absurd (covered.1 rfl) (by decide)

end AesOnGpu.Ptx.MemoryOperands
