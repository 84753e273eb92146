import AesOnGpu.Lib.FinLiterals

/-! # Declarations of variables

What `add_identifier` of `cuda-sim/ptx_parser.cc` does with the symbol tables.  A table is its
index in the order of creation; the first file's is table 0, which is also the parent of the tables
of the other files.

Registers and the parameters of kernels have no address here.  The size of a function's stack frame
is left out, and a declaration of a return variable comes after the name of its function.
-/

namespace AesOnGpu.Ptx

inductive ScalarType where
  | S8_TYPE | S16_TYPE | S32_TYPE | S64_TYPE
  | U8_TYPE | U16_TYPE | U32_TYPE | U64_TYPE
  | F16_TYPE | F32_TYPE | F64_TYPE | FF64_TYPE
  | B8_TYPE | B16_TYPE | B32_TYPE | B64_TYPE | BB64_TYPE | BB128_TYPE
  | PRED_TYPE
  | TEXREF_TYPE | SAMPLERREF_TYPE | SURFREF_TYPE
  deriving DecidableEq

/-- The `size` of `type_decode`, in bits. -/
def ScalarType.type_decode : ScalarType → Nat
  | S8_TYPE | U8_TYPE | B8_TYPE => 8
  | S16_TYPE | U16_TYPE | F16_TYPE | B16_TYPE => 16
  | S32_TYPE | U32_TYPE | F32_TYPE | B32_TYPE => 32
  | S64_TYPE | U64_TYPE | F64_TYPE | FF64_TYPE | B64_TYPE | BB64_TYPE => 64
  | BB128_TYPE => 128
  | PRED_TYPE => 1
  | TEXREF_TYPE | SAMPLERREF_TYPE | SURFREF_TYPE => 32

inductive VectorType where
  | V2_TYPE | V3_TYPE | V4_TYPE
  deriving DecidableEq

inductive DeclSpace where
  | reg_space | shared_space | const_space | global_space | local_space
  | tex_space | surf_space | param_space_local | param_space_kernel
  deriving DecidableEq

/-- The dimension is an `int`. -/
inductive ArrayIdentifier where
  | NON_ARRAY_IDENTIFIER
  | ARRAY_IDENTIFIER (array_dim : Fin (2 ^ 31))
  | ARRAY_IDENTIFIER_NO_DIM
  deriving DecidableEq

/-- A declaration of one identifier.  A vector type only goes to the list of options; the
    alignment is kept with the type. -/
structure Declaration where
  identifier : String
  space : DeclSpace
  scalar_type : ScalarType
  vector : Option VectorType
  alignment : Option Nat
  array : ArrayIdentifier
  deriving DecidableEq

/-- `num_bits` of `add_identifier`. -/
def Declaration.num_bits (d : Declaration) : Nat :=
  match d.array with
  | .NON_ARRAY_IDENTIFIER => d.scalar_type.type_decode
  | .ARRAY_IDENTIFIER array_dim => array_dim * d.scalar_type.type_decode
  | .ARRAY_IDENTIFIER_NO_DIM => 0

structure Symbol where
  name : String
  declaration : Option Declaration
  m_size : BitVec 32
  m_address : Option (BitVec 32)
  deriving DecidableEq

structure SymbolTable where
  m_shared_next : BitVec 32
  m_global_next : BitVec 32
  m_local_next : BitVec 32
  /-- The parent, its parent and so on. -/
  m_parents : List Nat
  m_symbols : List Symbol
  m_function_symtab_lookup : List (String × Nat)

def SymbolTable.new (parent : Option (Nat × SymbolTable)) : SymbolTable where
  m_shared_next := match parent with | some (_, table) => table.m_shared_next | none => 0
  m_global_next := match parent with | some (_, table) => table.m_global_next | none => 0x100
  m_local_next := 0
  m_parents := match parent with | some (i, table) => i :: table.m_parents | none => []
  m_symbols := []
  m_function_symtab_lookup := []

structure Parser where
  tables : Nat → SymbolTable
  count : Nat
  g_global_symbol_table : Nat
  g_current_symbol_table : Nat

namespace Parser

/-- After `init_parser` for the first file. -/
def initial : Parser := ⟨fun _ => .new none, 1, 0, 0⟩

/-- The tables in which `lookup` of a table searches. -/
def scopes (p : Parser) (i : Nat) : List Nat := i :: (p.tables i).m_parents

def lookup (p : Parser) (identifier : String) : Bool :=
  (p.scopes p.g_current_symbol_table).any fun i =>
    (p.tables i).m_symbols.any fun s => s.name = identifier

def setTable (p : Parser) (i : Nat) (table : SymbolTable) : Parser :=
  { p with tables := Function.update p.tables i table }

@[simp] theorem setTable_self (p : Parser) (i : Nat) (table : SymbolTable) :
    (p.setTable i table).tables i = table := by
  simp [setTable]

theorem setTable_of_ne (p : Parser) {i j : Nat} (table : SymbolTable) (other : j ≠ i) :
    (p.setTable i table).tables j = p.tables j := by
  simp [setTable, other]

/-- `init_parser` for a further file: its table. -/
def initParser (p : Parser) : Parser where
  tables := Function.update p.tables p.count (.new (some (0, p.tables 0)))
  count := p.count + 1
  g_global_symbol_table := p.count
  g_current_symbol_table := p.count

/-- The table of a new function, with the register `_`. -/
def functionTable (p : Parser) : SymbolTable :=
  { SymbolTable.new (some (p.g_global_symbol_table, p.tables p.g_global_symbol_table)) with
    m_symbols := [⟨"_", none, 0, none⟩] }

def add_function_decl (p : Parser) (name : String) : Parser :=
  let file := p.tables p.g_global_symbol_table
  match file.m_function_symtab_lookup.lookup name with
  | some i => { p with g_current_symbol_table := i }
  | none =>
    let p' := p.setTable p.g_global_symbol_table { file with
      m_function_symtab_lookup := (name, p.count) :: file.m_function_symtab_lookup }
    { p'.setTable p.count p.functionTable with
      count := p.count + 1
      g_current_symbol_table := p.count }

def addName (p : Parser) (i : Nat) (name : String) : Parser :=
  let table := p.tables i
  if table.m_symbols.any fun s => s.name = name then p
  else p.setTable i { table with m_symbols := table.m_symbols ++ [⟨name, none, 0, none⟩] }

def add_function_name (p : Parser) (name : String) : Parser :=
  (p.add_function_decl name).addName p.g_global_symbol_table name

/-- At the end of a function or of its declaration. -/
def reset_symtab (p : Parser) : Parser :=
  { p with g_current_symbol_table := p.g_global_symbol_table }

def add_label (p : Parser) (identifier : String) : Parser :=
  if p.lookup identifier then p else p.addName p.g_current_symbol_table identifier

end Parser

/-- The alignment of `pad_address`. -/
def alignto (size maxalign : Nat) : Nat :=
  if size < maxalign ∧ size &&& (size - 1) = 0 then size else maxalign

def pad_address (address size maxalign : Nat) : Nat :=
  if alignto size maxalign = 0 then 0
  else (alignto size maxalign - address % alignto size maxalign) % alignto size maxalign

/-- The address and the counter after it; `none` when the assertion fails. -/
def allocate (next : BitVec 32) (num_bits : Nat) : Option (BitVec 32 × BitVec 32) :=
  let addr_pad := pad_address next.toNat (num_bits / 8 % 2 ^ 32) 128
  if num_bits % 8 = 0 then
    some (next + BitVec.ofNat 32 addr_pad, next + BitVec.ofNat 32 (num_bits / 8 + addr_pad))
  else none

/-- The declared variable goes to the current table; `none` is an abort. -/
def Parser.add_identifier (p : Parser) (d : Declaration) : Option Parser :=
  let i := p.g_current_symbol_table
  let table := p.tables i
  let added (m_address : Option (BitVec 32)) : List Symbol :=
    table.m_symbols ++ [⟨d.identifier, some d, BitVec.ofNat 32 (d.num_bits / 8), m_address⟩]
  if p.lookup d.identifier then some p
  else match d.space with
    | .reg_space | .tex_space | .param_space_kernel =>
      some (p.setTable i { table with m_symbols := added none })
    | .shared_space => do
      let (address, next) ← allocate table.m_shared_next d.num_bits
      return p.setTable i { table with m_symbols := added (some address), m_shared_next := next }
    | .const_space =>
      if d.array = .ARRAY_IDENTIFIER_NO_DIM then
        some (p.setTable i { table with m_symbols := added none })
      else do
        let (address, next) ← allocate table.m_global_next d.num_bits
        return p.setTable i { table with m_symbols := added (some address), m_global_next := next }
    | .global_space => do
      let (address, next) ← allocate table.m_global_next d.num_bits
      return p.setTable i { table with m_symbols := added (some address), m_global_next := next }
    | .local_space => do
      let (address, next) ← allocate table.m_local_next d.num_bits
      return p.setTable i { table with m_symbols := added (some address), m_local_next := next }
    | .param_space_local =>
      if d.num_bits % 8 = 0 then
        some (p.setTable i { table with
          m_symbols := added (some table.m_local_next)
          m_local_next := table.m_local_next + BitVec.ofNat 32 (d.num_bits / 8) })
      else none
    | .surf_space => none

inductive ParserEvent where
  | initParser
  | add_function_name (name : String)
  | reset_symtab
  | add_label (identifier : String)
  | add_identifier (d : Declaration)

def Parser.step (p : Parser) : ParserEvent → Option Parser
  | .initParser => some p.initParser
  | .add_function_name name => some (p.add_function_name name)
  | .reset_symtab => some p.reset_symtab
  | .add_label identifier => some (p.add_label identifier)
  | .add_identifier d => p.add_identifier d

def Parser.run (events : List ParserEvent) : Option Parser := events.foldlM step initial

end AesOnGpu.Ptx
