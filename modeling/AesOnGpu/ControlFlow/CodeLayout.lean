import AesOnGpu.ControlFlow.Assembly

/-! # Code layout

The part of `function_info::ptx_assemble` that gives instructions their PCs, for functions that are
assembled one after the other. The PC has 32 bits, `s_g_pc_to_insn` is a vector that grows as long
as there is memory, and the array of a function is allocated for its number of statements in 32
bits. An instruction is named by its function and its place there. `none` is an assertion that
fails, a write behind the array, or the loader error for a label that is missing.
-/

namespace AesOnGpu.ControlFlow.Code

abbrev InsnId := Nat × Nat

/-- The second loop looks the label up. -/
def IsBranch (pI : PtxInstruction) : Prop :=
  pI.opcode = .BRA_OP ∨ pI.opcode = .BREAKADDR_OP ∨ pI.opcode = .CALLP_OP

instance : DecidablePred IsBranch := fun _ => inferInstanceAs (Decidable (_ ∨ _))

/-- The variables that all functions share, and what is stored with each of them. -/
structure Globals where
  g_assemble_code_next_pc : BitVec 32
  s_g_pc_to_insn : List (Option InsnId)
  g_pc_to_finfo : BitVec 32 → Option Nat
  get_PC : InsnId → Option (BitVec 32)
  m_start_PC : Nat → Option (BitVec 32)
  label_address : Nat → String → Option (BitVec 32)

def Globals.initial : Globals where
  g_assemble_code_next_pc := 0
  s_g_pc_to_insn := []
  g_pc_to_finfo := fun _ => none
  get_PC := fun _ => none
  m_start_PC := fun _ => none
  label_address := fun _ _ => none

/-- The entry of the function's symbol table. -/
def Globals.set_label_address (globals : Globals) (f : Nat) (name : String) (pc : BitVec 32) :
    Globals :=
  { globals with
    label_address := Function.update globals.label_address f
      (Function.update (globals.label_address f) name (some pc)) }

def pc_to_instruction (globals : Globals) (pc : BitVec 32) : Option InsnId :=
  (globals.s_g_pc_to_insn[pc.toNat]?).join

/-- `MAX_INST_SIZE*(num_inst+1)` of an `unsigned`. -/
def instrMemSize (m_instructions : List Statement) : Nat :=
  MAX_INST_SIZE * (m_instructions.length + 1) % 2 ^ 32

structure Loop where
  globals : Globals
  assembler : Assembler
  PC : BitVec 32

def Loop.finish (loop : Loop) : Globals := { loop.globals with g_assemble_code_next_pc := loop.PC }

section

variable (f : Nat) (m_instructions : List Statement)

def start (globals : Globals) : Loop :=
  let PC := globals.g_assemble_code_next_pc
  let padding := PC.toNat % MAX_INST_SIZE
  let aligned := PC + BitVec.ofNat 32 padding
  { globals :=
      { globals with
        s_g_pc_to_insn := globals.s_g_pc_to_insn ++ List.replicate padding none
        m_start_PC := Function.update globals.m_start_PC f (some aligned) }
    assembler := .new
    PC := aligned }

def turn (loop : Loop) (item : Statement × Nat) : Option Loop :=
  match item.1 with
  | .label _ => some { loop with assembler := loop.assembler.turn item }
  | .instruction pI =>
    let id := (f, item.2)
    let pushed := loop.globals.s_g_pc_to_insn ++ [some id]
    if loop.assembler.n + pI.inst_size ≤ instrMemSize m_instructions ∧
        pushed[loop.PC.toNat]? = some (some id) then
      some
        { globals :=
            { loop.globals with
              s_g_pc_to_insn := pushed ++ List.replicate (pI.inst_size - 1) none
              g_pc_to_finfo := Function.update loop.globals.g_pc_to_finfo loop.PC (some f)
              get_PC := Function.update loop.globals.get_PC id (some loop.PC) }
          assembler := loop.assembler.turn item
          PC := loop.PC + BitVec.ofNat 32 pI.inst_size }
    else none

def resolve (assembler : Assembler) (globals : Globals) : Statement → Option Globals
  | .label _ => some globals
  | .instruction pI =>
    if IsBranch pI then do
      let index ← assembler.labels pI.dst
      let q ← (assembler.m_instr_mem index).join
      let PC ← globals.get_PC (f, q)
      return globals.set_label_address f pI.dst PC
    else some globals

def ptx_assemble (globals : Globals) : Option Globals := do
  let loop ← m_instructions.zipIdx.foldlM (turn f m_instructions) (start f globals)
  m_instructions.foldlM (resolve f loop.assembler) loop.finish

end

def assemble (functions : List (List Statement)) : Option Globals :=
  functions.zipIdx.foldlM (fun globals (m_instructions, f) => ptx_assemble f m_instructions globals)
    .initial

/-! ## What a layout is -/

def InsnAt (functions : List (List Statement)) (id : InsnId) (pI : PtxInstruction) : Prop :=
  ∃ m_instructions, functions[id.1]? = some m_instructions ∧
    m_instructions[id.2]? = some (.instruction pI)

structure Consistent (functions : List (List Statement)) (globals : Globals) : Prop where
  aligned : ∀ f < functions.length, ∃ pc, globals.m_start_PC f = some pc ∧ MAX_INST_SIZE ∣ pc.toNat
  found : ∀ id pI, InsnAt functions id pI → ∃ pc, globals.get_PC id = some pc ∧
    pc_to_instruction globals pc = some id ∧ globals.g_pc_to_finfo pc = some id.1
  disjoint : ∀ id pI pc id' pI' pc', InsnAt functions id pI → globals.get_PC id = some pc →
    InsnAt functions id' pI' → globals.get_PC id' = some pc' → id ≠ id' →
    pc.toNat + pI.inst_size ≤ pc'.toNat ∨ pc'.toNat + pI'.inst_size ≤ pc.toNat
  branches : ∀ f p pI m_instructions q, InsnAt functions (f, p) pI → IsBranch pI →
    functions[f]? = some m_instructions → Target m_instructions pI.dst q →
    ∃ pc, globals.get_PC (f, q) = some pc ∧ globals.label_address f pI.dst = some pc

/-- Instructions have four or eight bytes, labels are followed by an instruction, and branches
    go to labels of their function. -/
structure WellFormed (m_instructions : List Statement) : Prop where
  sizes : ∀ (p : Nat) (pI : PtxInstruction), m_instructions[p]? = some (.instruction pI) →
    pI.inst_size = 4 ∨ pI.inst_size = 8
  labels : ∀ (l : Nat) (name : String), m_instructions[l]? = some (.label name) →
    (find_next_real_instruction m_instructions l).isSome
  branches : ∀ (p : Nat) (pI : PtxInstruction), m_instructions[p]? = some (.instruction pI) → IsBranch pI →
    ∃ l, LabelAt m_instructions pI.dst l

/-! ## Where code lies -/

/-- The next multiple of eight behind a multiple of four. -/
def alignUp (n : Nat) : Nat := n + n % MAX_INST_SIZE

/-- The bytes of a function. -/
def size (m_instructions : List Statement) : Nat := addressOf m_instructions m_instructions.length

def codeEnd (functions : List (List Statement)) : Nat :=
  functions.foldl (fun n m_instructions => alignUp n + size m_instructions) 0

def startOf (functions : List (List Statement)) (f : Nat) : Nat := alignUp (codeEnd (functions.take f))

/-- All instructions of a function start below `2 ^ 32` and fit into an array. -/
def FitsAt (base room : Nat) (m_instructions : List Statement) : Prop :=
  ∀ (p : Nat) (pI : PtxInstruction), m_instructions[p]? = some (.instruction pI) →
    base + addressOf m_instructions p < 2 ^ 32 ∧ addressOf m_instructions p + pI.inst_size ≤ room

/-- The functions lie below `2 ^ 32`, in arrays that hold them. -/
def Fits (functions : List (List Statement)) : Prop :=
  ∀ (f : Nat) (m_instructions : List Statement), functions[f]? = some m_instructions →
    FitsAt (startOf functions f) (instrMemSize m_instructions) m_instructions

/-! ## The vector of instructions -/

def cell (f : Nat) (item : Statement × Nat) : List (Option InsnId) :=
  match item.1 with
  | .label _ => []
  | .instruction pI => some (f, item.2) :: List.replicate (pI.inst_size - 1) none

def cells (f : Nat) (m_instructions : List Statement) : List (Option InsnId) :=
  m_instructions.zipIdx.flatMap (cell f)

section Cells

variable {f p : Nat} {m_instructions : List Statement} {statement : Statement} {pI : PtxInstruction}

theorem cells_snoc (f : Nat) (m_instructions : List Statement) (statement : Statement) :
    cells f (m_instructions ++ [statement]) =
      cells f m_instructions ++ cell f (statement, m_instructions.length) := by
  rw [cells, List.zipIdx_append, List.flatMap_append]
  simp [cells]

theorem length_cell (item : Statement × Nat) : (cell f item).length = item.1.bytes := by
  obtain ⟨statement, p⟩ := item
  cases statement with
  | label name => rfl
  | instruction pI =>
    have positive := pI.size_pos
    simp only [cell, List.length_cons, List.length_replicate, Statement.bytes]
    omega

theorem size_snoc (m_instructions : List Statement) (statement : Statement) :
    size (m_instructions ++ [statement]) = size m_instructions + statement.bytes := by
  rw [size, List.length_append, List.length_singleton, addressOf_succ List.getElem?_concat_length,
    addressOf_append (Nat.le_refl _), size]

theorem length_cells (f : Nat) (m_instructions : List Statement) :
    (cells f m_instructions).length = size m_instructions := by
  induction m_instructions using List.reverseRecOn with
  | nil => rfl
  | append_singleton statements statement ih =>
    rw [cells_snoc, List.length_append, ih, length_cell, size_snoc]

theorem address_lt_size (here : m_instructions[p]? = some (.instruction pI)) :
    addressOf m_instructions p + pI.inst_size ≤ size m_instructions := by
  have inside := (List.getElem?_eq_some_iff.mp here).1
  have behind : addressOf m_instructions (p + 1) = addressOf m_instructions p + pI.inst_size :=
    addressOf_succ here
  rw [← behind]
  exact Layout.start_mono _ inside

theorem getElem?_cells (f : Nat) : ∀ {p : Nat} {pI : PtxInstruction},
    m_instructions[p]? = some (.instruction pI) →
      (cells f m_instructions)[addressOf m_instructions p]? = some (some (f, p)) := by
  induction m_instructions using List.reverseRecOn with
  | nil => intro p pI here; cases here
  | append_singleton statements statement ih =>
    intro p pI here
    rw [cells_snoc]
    rcases Layout.getElem?_append_singleton.mp here with old | ⟨rfl, rfl⟩
    · have before := (List.getElem?_eq_some_iff.mp old).1
      have inside := address_lt_size old
      have positive := pI.size_pos
      rw [addressOf_append (Nat.le_of_lt before),
        List.getElem?_append_left (by rw [length_cells]; omega)]
      exact ih old
    · rw [addressOf_append (Nat.le_refl _), ← size, ← length_cells f,
        List.getElem?_append_right (Nat.le_refl _), Nat.sub_self]
      rfl

end Cells

/-! ## The first loop -/

structure Sound (known : InsnId → Prop) (globals : Globals) : Prop where
  placed : ∀ (i : Nat) (id : InsnId), globals.s_g_pc_to_insn[i]? = some (some id) →
    i < 2 ^ 32 ∧ globals.get_PC id = some (BitVec.ofNat 32 i) ∧
      globals.g_pc_to_finfo (BitVec.ofNat 32 i) = some id.1
  known : ∀ (i : Nat) (id : InsnId), globals.s_g_pc_to_insn[i]? = some (some id) → known id

structure Reached (f : Nat) (before : Globals) (done : List Statement) (loop : Loop) : Prop where
  sound : Sound (fun id => id.1 < f ∨ id.1 = f ∧ id.2 < done.length) loop.globals
  pushed : loop.globals.s_g_pc_to_insn = before.s_g_pc_to_insn ++ cells f done
  PC : loop.PC = BitVec.ofNat 32 loop.globals.s_g_pc_to_insn.length
  assembler : loop.assembler = ControlFlow.assembler done
  start : loop.globals.m_start_PC = before.m_start_PC
  labels : loop.globals.label_address = before.label_address

section Turns

variable {f : Nat} {m_instructions done : List Statement} {before : Globals} {loop loop' : Loop}
  {statement : Statement} {pI : PtxInstruction} {name : String}

theorem assembler_snoc (done : List Statement) (statement : Statement) :
    ControlFlow.assembler (done ++ [statement]) =
      (ControlFlow.assembler done).turn (statement, done.length) := by
  rw [ControlFlow.assembler, ControlFlow.assembler, List.zipIdx_append, List.foldl_append]
  simp

theorem Reached.n (reached : Reached f before done loop) : loop.assembler.n = size done := by
  rw [reached.assembler]
  exact (assembled done).n

theorem Reached.length (reached : Reached f before done loop) :
    loop.globals.s_g_pc_to_insn.length = before.s_g_pc_to_insn.length + size done := by
  rw [reached.pushed, List.length_append, length_cells]

theorem Reached.label (reached : Reached f before done loop) (m_instructions : List Statement)
    (name : String) :
    ∃ next, turn f m_instructions loop (.label name, done.length) = some next ∧
      Reached f before (done ++ [.label name]) next := by
  refine ⟨_, rfl, ⟨reached.sound.placed, fun i id found => ?_⟩, ?_, reached.PC, ?_, reached.start,
    reached.labels⟩
  · have known := reached.sound.known i id found
    rw [List.length_append, List.length_singleton]
    omega
  · simpa [cells_snoc, cell] using reached.pushed
  · rw [assembler_snoc, ← reached.assembler]

theorem getElem?_append_none {list : List (Option InsnId)} {k i : Nat} {id : InsnId} :
    (list ++ List.replicate k none)[i]? = some (some id) ↔ list[i]? = some (some id) := by
  cases Nat.lt_or_ge i list.length with
  | inl before => rw [List.getElem?_append_left before]
  | inr behind =>
    rw [List.getElem?_append_right behind, List.getElem?_eq_none behind, List.getElem?_replicate]
    split <;> simp

theorem Sound.push {known : InsnId → Prop} {globals : Globals} (sound : Sound known globals)
    (id : InsnId) (fresh : ¬ known id) (inside : globals.s_g_pc_to_insn.length < 2 ^ 32) (k : Nat) :
    Sound (fun other => known other ∨ other = id)
      { globals with
        s_g_pc_to_insn := globals.s_g_pc_to_insn ++ [some id] ++ List.replicate k none
        g_pc_to_finfo := Function.update globals.g_pc_to_finfo
          (BitVec.ofNat 32 globals.s_g_pc_to_insn.length) (some id.1)
        get_PC := Function.update globals.get_PC id
          (some (BitVec.ofNat 32 globals.s_g_pc_to_insn.length)) } := by
  constructor
  · intro i other found
    rcases Layout.getElem?_append_singleton.mp (getElem?_append_none.mp found) with old | ⟨rfl, same⟩
    · obtain ⟨below, pc, function⟩ := sound.placed i other old
      have earlier := (List.getElem?_eq_some_iff.mp old).1
      have apart : other ≠ id := fun same => fresh (same ▸ sound.known i other old)
      have elsewhere : BitVec.ofNat 32 i ≠ BitVec.ofNat 32 globals.s_g_pc_to_insn.length := by
        intro same
        have values := congrArg BitVec.toNat same
        rw [BitVec.toNat_ofNat, BitVec.toNat_ofNat, Nat.mod_eq_of_lt below,
          Nat.mod_eq_of_lt inside] at values
        omega
      exact ⟨below, (Function.update_of_ne apart _ _).trans pc,
        (Function.update_of_ne elsewhere _ _).trans function⟩
    · obtain rfl := Option.some.inj same
      exact ⟨inside, Function.update_self _ _ _, Function.update_self _ _ _⟩
  · intro i other found
    rcases Layout.getElem?_append_singleton.mp (getElem?_append_none.mp found) with old | ⟨-, same⟩
    · exact .inl (sound.known i other old)
    · exact .inr (Option.some.inj same).symm

theorem Sound.mono {known : InsnId → Prop} {globals : Globals} (sound : Sound known globals)
    (known' : InsnId → Prop) (weaker : ∀ id, known id → known' id) : Sound known' globals :=
  ⟨sound.placed, fun i id found => weaker id (sound.known i id found)⟩

theorem Reached.instruction (reached : Reached f before done loop)
    (inside : before.s_g_pc_to_insn.length + size done < 2 ^ 32)
    (room : size done + pI.inst_size ≤ instrMemSize m_instructions) :
    ∃ next, turn f m_instructions loop (.instruction pI, done.length) = some next ∧
      Reached f before (done ++ [.instruction pI]) next := by
  have length := reached.length
  have here : loop.PC.toNat = loop.globals.s_g_pc_to_insn.length := by
    rw [reached.PC, BitVec.toNat_ofNat, Nat.mod_eq_of_lt (by omega)]
  have asserted : (loop.globals.s_g_pc_to_insn ++ [some (f, done.length)])[loop.PC.toNat]? =
      some (some (f, done.length)) := by
    rw [here, List.getElem?_concat_length]
  refine ⟨_, if_pos ⟨by rw [reached.n]; exact room, asserted⟩, ?_⟩
  have pushed := reached.sound.push (f, done.length) (by omega) (by omega)
    (pI.inst_size - 1)
  have positive := pI.size_pos
  constructor
  · rw [← reached.PC] at pushed
    refine pushed.mono _ fun id known => ?_
    rw [List.length_append, List.length_singleton]
    rcases known with old | rfl
    · omega
    · exact .inr ⟨rfl, Nat.lt_succ_self _⟩
  · rw [cells_snoc, ← List.append_assoc, ← reached.pushed]
    exact List.append_assoc _ _ _
  · simp only [reached.PC, List.length_append, List.length_singleton, List.length_replicate]
    rw [← BitVec.ofNat_add]
    congr 1
    omega
  · rw [assembler_snoc, ← reached.assembler]
  · exact reached.start
  · exact reached.labels

theorem Reached.fits (reached : Reached f before done loop)
    (run : turn f m_instructions loop (.instruction pI, done.length) = some loop') :
    before.s_g_pc_to_insn.length + size done < 2 ^ 32 ∧
      size done + pI.inst_size ≤ instrMemSize m_instructions := by
  have length := reached.length
  obtain ⟨room, asserted⟩ : loop.assembler.n + pI.inst_size ≤ instrMemSize m_instructions ∧
      (loop.globals.s_g_pc_to_insn ++ [some (f, done.length)])[loop.PC.toNat]? =
        some (some (f, done.length)) := by
    by_contra fails
    have stopped : turn f m_instructions loop (.instruction pI, done.length) = none := if_neg fails
    rw [stopped] at run
    cases run
  rw [reached.n] at room
  refine ⟨?_, room⟩
  -- a PC that has wrapped names an instruction that was there before
  rcases Layout.getElem?_append_singleton.mp asserted with old | ⟨here, -⟩
  · have known := reached.sound.known _ _ old
    omega
  · have below := loop.PC.isLt
    omega

theorem fitsAt_snoc {base room : Nat} : FitsAt base room (done ++ [statement]) ↔
    FitsAt base room done ∧ ∀ pI, statement = .instruction pI →
      base + size done < 2 ^ 32 ∧ size done + pI.inst_size ≤ room := by
  constructor
  · intro fits
    refine ⟨fun p pI here => ?_, fun pI same => ?_⟩
    · have before := (List.getElem?_eq_some_iff.mp here).1
      have both := fits p pI (Layout.getElem?_append_singleton.mpr (.inl here))
      rwa [addressOf_append (Nat.le_of_lt before)] at both
    · have both := fits done.length pI (by rw [List.getElem?_concat_length, same])
      rwa [addressOf_append (Nat.le_refl _), ← size] at both
  · rintro ⟨fits, last⟩ p pI here
    rcases Layout.getElem?_append_singleton.mp here with old | ⟨rfl, same⟩
    · have before := (List.getElem?_eq_some_iff.mp old).1
      rw [addressOf_append (Nat.le_of_lt before)]
      exact fits p pI old
    · rw [addressOf_append (Nat.le_refl _), ← size]
      exact last pI same

theorem turns_spec {first : Loop} (start : Reached f before [] first) (done : List Statement) :
    (FitsAt before.s_g_pc_to_insn.length (instrMemSize m_instructions) done →
        ∃ loop, done.zipIdx.foldlM (turn f m_instructions) first = some loop) ∧
      ∀ loop, done.zipIdx.foldlM (turn f m_instructions) first = some loop →
        Reached f before done loop ∧
          FitsAt before.s_g_pc_to_insn.length (instrMemSize m_instructions) done := by
  induction done using List.reverseRecOn with
  | nil =>
    refine ⟨fun _ => ⟨first, rfl⟩, fun loop run => ?_⟩
    obtain rfl := Option.some.inj run
    exact ⟨start, fun p pI here => by cases here⟩
  | append_singleton done statement ih =>
    obtain ⟨exists_, spec⟩ := ih
    have split : (done ++ [statement]).zipIdx.foldlM (turn f m_instructions) first =
        (done.zipIdx.foldlM (turn f m_instructions) first).bind fun loop =>
          turn f m_instructions loop (statement, done.length) := by
      rw [List.zipIdx_append, List.foldlM_append]
      simp
    rw [split, fitsAt_snoc]
    constructor
    · rintro ⟨fits, last⟩
      obtain ⟨loop, run⟩ := exists_ fits
      obtain ⟨reached, -⟩ := spec loop run
      rw [run, Option.bind_some]
      cases statement with
      | label name =>
        obtain ⟨next, turned, -⟩ := reached.label m_instructions name
        exact ⟨next, turned⟩
      | instruction pI =>
        obtain ⟨inside, room⟩ := last pI rfl
        obtain ⟨next, turned, -⟩ := reached.instruction inside room
        exact ⟨next, turned⟩
    · intro loop run
      obtain ⟨earlier, run, turned⟩ := Option.bind_eq_some_iff.mp run
      obtain ⟨reached, fits⟩ := spec earlier run
      cases statement with
      | label name =>
        obtain ⟨next, turned', reached'⟩ := reached.label m_instructions name
        obtain rfl := Option.some.inj (turned'.symm.trans turned)
        exact ⟨reached', fits, fun pI same => by cases same⟩
      | instruction pI =>
        obtain ⟨inside, room⟩ := reached.fits turned
        obtain ⟨next, turned', reached'⟩ := reached.instruction inside room
        obtain rfl := Option.some.inj (turned'.symm.trans turned)
        refine ⟨reached', fits, fun pI' same => ?_⟩
        obtain rfl := Statement.instruction.inj same
        exact ⟨inside, room⟩

end Turns

/-! ## The second loop -/

section Resolve

variable {f : Nat} {m_instructions : List Statement} {pc : Nat → BitVec 32}

theorem resolve_branch {globals : Globals} {pI : PtxInstruction} {q : Nat} (branch : IsBranch pI)
    (target : Target m_instructions pI.dst q) (placed : globals.get_PC (f, q) = some (pc q)) :
    resolve f (ControlFlow.assembler m_instructions) globals (.instruction pI) =
      some (globals.set_label_address f pI.dst (pc q)) := by
  obtain ⟨addr, label, here⟩ := m_instr_mem_label target
  simp [resolve, branch, label, here, placed]

structure Addressed (f : Nat) (m_instructions : List Statement) (pc : Nat → BitVec 32)
    (statements : List Statement) (before after : Nat → String → Option (BitVec 32)) : Prop where
  others : ∀ g, g ≠ f → after g = before g
  names : ∀ name, after f name = before f name ∨
    ∃ q, Target m_instructions name q ∧ after f name = some (pc q)
  members : ∀ pI, .instruction pI ∈ statements → IsBranch pI → ∀ q, Target m_instructions pI.dst q →
    after f pI.dst = some (pc q)

section Addressed

variable {statements : List Statement} {after : Nat → String → Option (BitVec 32)}

theorem Addressed.cons_branch {globals : Globals} {pI : PtxInstruction} {q : Nat}
    (target : Target m_instructions pI.dst q)
    (rest : Addressed f m_instructions pc statements
      (globals.set_label_address f pI.dst (pc q)).label_address after) :
    Addressed f m_instructions pc (.instruction pI :: statements) globals.label_address after := by
  have own : (globals.set_label_address f pI.dst (pc q)).label_address f =
      Function.update (globals.label_address f) pI.dst (some (pc q)) := Function.update_self _ _ _
  have names := rest.names
  rw [own] at names
  constructor
  case others =>
    intro g other
    rw [rest.others g other]
    exact Function.update_of_ne other _ _
  case names =>
    intro name
    cases names name with
    | inr set => exact .inr set
    | inl kept =>
      by_cases same : name = pI.dst
      · subst same
        exact .inr ⟨q, target, kept.trans (Function.update_self _ _ _)⟩
      · exact .inl (kept.trans (Function.update_of_ne same _ _))
  case members =>
    intro other member branch q' target'
    cases List.mem_cons.mp member with
    | inr later => exact rest.members other later branch q' target'
    | inl same =>
      obtain rfl := Statement.instruction.inj same
      obtain rfl := target.unique target'
      -- a later branch to the same label sets the same address
      rcases names other.dst with kept | ⟨q', target', set⟩
      · exact kept.trans (Function.update_self _ _ _)
      · rw [target.unique target']
        exact set

theorem Addressed.cons_other {statement : Statement} {before : Nat → String → Option (BitVec 32)}
    (plain : ∀ pI, statement = .instruction pI → ¬ IsBranch pI)
    (rest : Addressed f m_instructions pc statements before after) :
    Addressed f m_instructions pc (statement :: statements) before after := by
  refine ⟨rest.others, rest.names, fun pI member branch q target => ?_⟩
  cases List.mem_cons.mp member with
  | inl same => exact absurd branch (plain pI same.symm)
  | inr later => exact rest.members pI later branch q target

end Addressed

theorem resolve_spec (statements : List Statement)
    (targets : ∀ pI, .instruction pI ∈ statements → IsBranch pI →
      ∃ q, Target m_instructions pI.dst q) :
    ∀ globals : Globals,
      (∀ name q, Target m_instructions name q → globals.get_PC (f, q) = some (pc q)) →
      ∃ label_address,
        statements.foldlM (resolve f (ControlFlow.assembler m_instructions)) globals =
          some { globals with label_address } ∧
        Addressed f m_instructions pc statements globals.label_address label_address := by
  induction statements with
  | nil =>
    intro globals _
    exact ⟨globals.label_address, rfl, fun _ _ => rfl, fun _ => .inl rfl, fun _ member => by cases member⟩
  | cons statement statements ih =>
    intro globals placed
    have rest := ih fun pI member => targets pI (List.mem_cons_of_mem _ member)
    by_cases branches : ∃ pI, statement = .instruction pI ∧ IsBranch pI
    · obtain ⟨pI, rfl, branch⟩ := branches
      obtain ⟨q, target⟩ := targets pI List.mem_cons_self branch
      obtain ⟨addresses, run, addressed⟩ :=
        rest (globals.set_label_address f pI.dst (pc q)) placed
      refine ⟨addresses, ?_, addressed.cons_branch target⟩
      rw [List.foldlM_cons, resolve_branch branch target (placed pI.dst q target)]
      exact run
    · have kept : resolve f (ControlFlow.assembler m_instructions) globals statement = some globals := by
        cases statement with
        | label name => rfl
        | instruction pI => exact if_neg fun branch => branches ⟨pI, rfl, branch⟩
      obtain ⟨addresses, run, addressed⟩ := rest globals placed
      refine ⟨addresses, ?_, addressed.cons_other fun pI same branch => branches ⟨pI, same, branch⟩⟩
      rw [List.foldlM_cons, kept]
      exact run

end Resolve

/-! ## Functions -/

section Functions

variable {functions : List (List Statement)} {m_instructions : List Statement} {f : Nat}
  {globals globals' : Globals}

theorem codeEnd_snoc (functions : List (List Statement)) (m_instructions : List Statement) :
    codeEnd (functions ++ [m_instructions]) = alignUp (codeEnd functions) + size m_instructions := by
  rw [codeEnd, List.foldl_append]
  rfl

theorem startOf_append (before : f < functions.length) (m_instructions : List Statement) :
    startOf (functions ++ [m_instructions]) f = startOf functions f := by
  rw [startOf, startOf, List.take_append_of_le_length (Nat.le_of_lt before)]

theorem startOf_length (functions : List (List Statement)) (m_instructions : List Statement) :
    startOf (functions ++ [m_instructions]) functions.length = alignUp (codeEnd functions) := by
  rw [startOf, List.take_left]

theorem fits_snoc : Fits (functions ++ [m_instructions]) ↔ Fits functions ∧
    FitsAt (alignUp (codeEnd functions)) (instrMemSize m_instructions) m_instructions := by
  constructor
  · intro fits
    refine ⟨fun f other here => ?_, ?_⟩
    · have before := (List.getElem?_eq_some_iff.mp here).1
      rw [← startOf_append before m_instructions]
      exact fits f other (Layout.getElem?_append_singleton.mpr (.inl here))
    · rw [← startOf_length functions m_instructions]
      exact fits functions.length m_instructions List.getElem?_concat_length
  · rintro ⟨fits, last⟩ f other here
    rcases Layout.getElem?_append_singleton.mp here with old | ⟨rfl, rfl⟩
    · rw [startOf_append (List.getElem?_eq_some_iff.mp old).1]
      exact fits f other old
    · rw [startOf_length]
      exact last

structure LaidOut (functions : List (List Statement)) (globals : Globals) : Prop where
  sound : Sound (fun id => id.1 < functions.length) globals
  next : globals.g_assemble_code_next_pc = BitVec.ofNat 32 globals.s_g_pc_to_insn.length
  length : globals.s_g_pc_to_insn.length = codeEnd functions
  insn : ∀ (id : InsnId) m_instructions pI, functions[id.1]? = some m_instructions →
    m_instructions[id.2]? = some (.instruction pI) →
    globals.s_g_pc_to_insn[startOf functions id.1 + addressOf m_instructions id.2]? = some (some id)
  starts : ∀ f < functions.length,
    globals.m_start_PC f = some (BitVec.ofNat 32 (startOf functions f))
  branches : ∀ (f : Nat) m_instructions (p : Nat) pI q, functions[f]? = some m_instructions →
    m_instructions[p]? = some (.instruction pI) → IsBranch pI → Target m_instructions pI.dst q →
    globals.label_address f pI.dst =
      some (BitVec.ofNat 32 (startOf functions f + addressOf m_instructions q))

theorem WellFormed.target (wellFormed : WellFormed m_instructions) {pI : PtxInstruction}
    (member : .instruction pI ∈ m_instructions) (branch : IsBranch pI) :
    ∃ q, Target m_instructions pI.dst q := by
  obtain ⟨p, here⟩ := List.mem_iff_getElem?.mp member
  obtain ⟨l, label⟩ := wellFormed.branches p pI here branch
  obtain ⟨q, next⟩ := Option.isSome_iff_exists.mp (wellFormed.labels l pI.dst label.1)
  exact ⟨q, l, label, next⟩

theorem padding_eq (laid : LaidOut functions globals) :
    globals.g_assemble_code_next_pc.toNat % MAX_INST_SIZE = codeEnd functions % MAX_INST_SIZE := by
  rw [laid.next, laid.length, BitVec.toNat_ofNat, MAX_INST_SIZE]
  omega

theorem start_length (laid : LaidOut functions globals) :
    (start f globals).globals.s_g_pc_to_insn.length = alignUp (codeEnd functions) := by
  rw [start, List.length_append, List.length_replicate, padding_eq laid, laid.length]
  rfl

theorem start_reached (laid : LaidOut functions globals) :
    Reached functions.length (start functions.length globals).globals []
      (start functions.length globals) := by
  have length := start_length (f := functions.length) laid
  refine ⟨⟨fun i id found => ?_, fun i id found => .inl ?_⟩, ?_, ?_, rfl, rfl, rfl⟩
  · exact laid.sound.placed i id (getElem?_append_none.mp found)
  · exact laid.sound.known i id (getElem?_append_none.mp found)
  · exact (List.append_nil _).symm
  · have padding := padding_eq laid
    rw [laid.next, laid.length] at padding
    rw [length]
    simp only [start, laid.next, laid.length, padding]
    rw [← BitVec.ofNat_add]
    rfl

theorem Reached.get_PC {before : Globals} {loop : Loop} {base p : Nat} {pI : PtxInstruction}
    (reached : Reached f before m_instructions loop) (length : before.s_g_pc_to_insn.length = base)
    (here : m_instructions[p]? = some (.instruction pI)) :
    loop.globals.s_g_pc_to_insn[base + addressOf m_instructions p]? = some (some (f, p)) ∧
      loop.globals.get_PC (f, p) = some (BitVec.ofNat 32 (base + addressOf m_instructions p)) := by
  have pushed : loop.globals.s_g_pc_to_insn[base + addressOf m_instructions p]? =
      some (some (f, p)) := by
    rw [reached.pushed, List.getElem?_append_right (by omega), length, Nat.add_sub_cancel_left]
    exact getElem?_cells f here
  exact ⟨pushed, (reached.sound.placed _ _ pushed).2.1⟩

theorem resolve_finished {loop : Loop} (laid : LaidOut functions globals)
    (wellFormed : WellFormed m_instructions)
    (reached : Reached functions.length (start functions.length globals).globals m_instructions loop) :
    ∃ label_address,
      m_instructions.foldlM (resolve functions.length loop.assembler) loop.finish =
        some { loop.finish with label_address } ∧
      (∀ g, g ≠ functions.length → label_address g = globals.label_address g) ∧
      ∀ pI, .instruction pI ∈ m_instructions → IsBranch pI → ∀ q, Target m_instructions pI.dst q →
        label_address functions.length pI.dst = some (BitVec.ofNat 32
          (alignUp (codeEnd functions) + addressOf m_instructions q)) := by
  have placed (name : String) (q : Nat) (target : Target m_instructions name q) :
      loop.finish.get_PC (functions.length, q) = some (BitVec.ofNat 32
        (alignUp (codeEnd functions) + addressOf m_instructions q)) := by
    obtain ⟨l, -, next⟩ := target
    obtain ⟨-, ⟨pI, here⟩, -⟩ := next_eq_some.mp next
    exact (reached.get_PC (start_length laid) here).2
  obtain ⟨addresses, resolved, others, -, members⟩ := resolve_spec m_instructions
    (fun pI => wellFormed.target) loop.finish placed
  rw [reached.assembler]
  refine ⟨addresses, resolved, fun g other => (others g other).trans ?_, members⟩
  exact congrFun reached.labels g

theorem LaidOut.snoc {loop : Loop} {label_address : Nat → String → Option (BitVec 32)}
    (laid : LaidOut functions globals)
    (reached : Reached functions.length (start functions.length globals).globals m_instructions loop)
    (others : ∀ g, g ≠ functions.length → label_address g = globals.label_address g)
    (members : ∀ pI, .instruction pI ∈ m_instructions → IsBranch pI →
      ∀ q, Target m_instructions pI.dst q → label_address functions.length pI.dst =
        some (BitVec.ofNat 32 (alignUp (codeEnd functions) + addressOf m_instructions q))) :
    LaidOut (functions ++ [m_instructions]) { loop.finish with label_address } := by
  have first := start_length (f := functions.length) laid
  constructor
  case sound =>
    have known := reached.sound.mono (fun id => id.1 < (functions ++ [m_instructions]).length)
      fun id known => by
        rw [List.length_append, List.length_singleton]
        omega
    exact ⟨known.placed, known.known⟩
  case next => exact reached.PC
  case length => exact reached.length.trans (by rw [first, codeEnd_snoc])
  case insn =>
    intro id other pI function here
    rcases Layout.getElem?_append_singleton.mp function with old | ⟨last, rfl⟩
    · have before := (List.getElem?_eq_some_iff.mp old).1
      have found := laid.insn id other pI old here
      have inside := (List.getElem?_eq_some_iff.mp found).1
      rw [startOf_append before]
      refine (congrArg (·[startOf functions id.1 + addressOf other id.2]?) reached.pushed).trans ?_
      rw [List.getElem?_append_left (by rw [first, alignUp, ← laid.length]; omega), start]
      exact (List.getElem?_append_left inside).trans found
    · have found := (reached.get_PC first here).1
      rw [last, startOf_length]
      exact found.trans (congrArg (some ∘ some) (Prod.ext last.symm rfl))
  case starts =>
    intro f before
    rw [List.length_append, List.length_singleton] at before
    refine (congrFun reached.start f).trans ?_
    by_cases last : f = functions.length
    · subst last
      have padding := padding_eq laid
      rw [laid.next, laid.length] at padding
      rw [startOf_length]
      simp only [start, laid.next, laid.length, padding, Function.update_self]
      rw [← BitVec.ofNat_add]
      rfl
    · rw [startOf_append (by omega), ← laid.starts f (by omega)]
      exact Function.update_of_ne last _ _
  case branches =>
    intro f other p pI q function here branch target
    rcases Layout.getElem?_append_singleton.mp function with old | ⟨rfl, rfl⟩
    · have before := (List.getElem?_eq_some_iff.mp old).1
      rw [startOf_append before, ← laid.branches f other p pI q old here branch target]
      exact congrFun (others f (Nat.ne_of_lt before)) pI.dst
    · rw [startOf_length]
      exact members pI (List.mem_of_getElem? here) branch q target

theorem ptx_assemble_spec (laid : LaidOut functions globals)
    (wellFormed : WellFormed m_instructions) :
    (FitsAt (alignUp (codeEnd functions)) (instrMemSize m_instructions) m_instructions →
        ∃ globals', ptx_assemble functions.length m_instructions globals = some globals') ∧
      ∀ globals', ptx_assemble functions.length m_instructions globals = some globals' →
        LaidOut (functions ++ [m_instructions]) globals' ∧
          FitsAt (alignUp (codeEnd functions)) (instrMemSize m_instructions) m_instructions := by
  obtain ⟨loops, spec⟩ := turns_spec (start_reached laid) m_instructions
  rw [start_length laid] at loops spec
  constructor
  · intro fits
    obtain ⟨loop, run⟩ := loops fits
    obtain ⟨addresses, resolved, -⟩ := resolve_finished laid wellFormed (spec loop run).1
    refine ⟨{ loop.finish with label_address := addresses }, ?_⟩
    rw [ptx_assemble, run, Option.bind_eq_bind, Option.bind_some]
    exact resolved
  · intro globals' assembled
    obtain ⟨loop, run, resolves⟩ := Option.bind_eq_some_iff.mp assembled
    obtain ⟨reached, fits⟩ := spec loop run
    obtain ⟨addresses, resolved, others, members⟩ := resolve_finished laid wellFormed reached
    obtain rfl := Option.some.inj (resolved.symm.trans resolves)
    exact ⟨laid.snoc reached others members, fits⟩

theorem laidOut_initial : LaidOut [] Globals.initial where
  sound := ⟨fun _ _ found => (by cases found), fun _ _ found => (by cases found)⟩
  next := rfl
  length := rfl
  insn _ _ _ function := by cases function
  starts _ before := absurd before (Nat.not_lt_zero _)
  branches _ _ _ _ _ function := by cases function

theorem assemble_spec (functions : List (List Statement)) :
    (∀ m_instructions ∈ functions, WellFormed m_instructions) →
      (Fits functions → ∃ globals, assemble functions = some globals) ∧
        ∀ globals, assemble functions = some globals → LaidOut functions globals ∧ Fits functions := by
  induction functions using List.reverseRecOn with
  | nil =>
    intro _
    refine ⟨fun _ => ⟨.initial, rfl⟩, fun globals assembled => ?_⟩
    obtain rfl := Option.some.inj assembled
    exact ⟨laidOut_initial, fun f _ function => by cases function⟩
  | append_singleton functions m_instructions ih =>
    intro wellFormed
    obtain ⟨succeeds, spec⟩ := ih fun other member =>
      wellFormed other (List.mem_append_left _ member)
    have last := wellFormed m_instructions (by simp)
    have split : assemble (functions ++ [m_instructions]) =
        (assemble functions).bind (ptx_assemble functions.length m_instructions) := by
      rw [assemble, List.zipIdx_append, List.foldlM_append]
      simp [assemble]
    rw [split, fits_snoc]
    constructor
    · rintro ⟨fits, fit⟩
      obtain ⟨globals, assembled⟩ := succeeds fits
      rw [assembled, Option.bind_some]
      exact (ptx_assemble_spec (spec globals assembled).1 last).1 fit
    · intro globals' assembled
      obtain ⟨globals, assembled, more⟩ := Option.bind_eq_some_iff.mp assembled
      obtain ⟨laid, fits⟩ := spec globals assembled
      obtain ⟨laid', fit⟩ := (ptx_assemble_spec laid last).2 globals' more
      exact ⟨laid', fits, fit⟩

/-! ## Places in the code -/

theorem codeEnd_take_succ (here : functions[f]? = some m_instructions) :
    codeEnd (functions.take (f + 1)) = startOf functions f + size m_instructions := by
  rw [List.take_add_one, here, Option.toList_some, codeEnd_snoc]
  rfl

theorem codeEnd_mono (functions : List (List Statement)) :
    Monotone fun f => codeEnd (functions.take f) := by
  refine monotone_nat_of_le_succ fun f => ?_
  cases here : functions[f]? with
  | none =>
    have beyond := List.getElem?_eq_none_iff.mp here
    rw [List.take_of_length_le beyond, List.take_of_length_le (by omega)]
  | some m_instructions =>
    rw [codeEnd_take_succ here, startOf, alignUp]
    omega

theorem four_dvd_size (wellFormed : WellFormed m_instructions) : 4 ∣ size m_instructions :=
  four_dvd_addressOf wellFormed.sizes _

theorem eight_dvd_alignUp {n : Nat} (four : 4 ∣ n) : MAX_INST_SIZE ∣ alignUp n := by
  rw [MAX_INST_SIZE, alignUp, MAX_INST_SIZE]
  omega

theorem four_dvd_codeEnd (functions : List (List Statement)) :
    (∀ m_instructions ∈ functions, WellFormed m_instructions) → 4 ∣ codeEnd functions := by
  induction functions using List.reverseRecOn with
  | nil => exact fun _ => dvd_zero 4
  | append_singleton functions m_instructions ih =>
    intro wellFormed
    have before := ih fun other member => wellFormed other (List.mem_append_left _ member)
    have aligned : 4 ∣ alignUp (codeEnd functions) :=
      Dvd.dvd.trans (by decide) (eight_dvd_alignUp before)
    rw [codeEnd_snoc]
    exact dvd_add aligned (four_dvd_size (wellFormed m_instructions (by simp)))

theorem ends_before {other : List Statement} {id id' : InsnId} {pI : PtxInstruction}
    (function : functions[id.1]? = some m_instructions)
    (here : m_instructions[id.2]? = some (.instruction pI))
    (function' : functions[id'.1]? = some other)
    (earlier : id.1 < id'.1 ∨ id.1 = id'.1 ∧ id.2 < id'.2) :
    startOf functions id.1 + addressOf m_instructions id.2 + pI.inst_size ≤
      startOf functions id'.1 + addressOf other id'.2 := by
  rcases earlier with before | ⟨same, before⟩
  · have inside := address_lt_size here
    have ending := codeEnd_take_succ function
    have later : codeEnd (functions.take (id.1 + 1)) ≤ codeEnd (functions.take id'.1) :=
      codeEnd_mono functions before
    have aligned : codeEnd (functions.take id'.1) ≤ startOf functions id'.1 := Nat.le_add_right _ _
    omega
  · rw [same, function', Option.some.injEq] at function
    subst function
    have behind : addressOf other (id.2 + 1) = addressOf other id.2 + pI.inst_size :=
      addressOf_succ here
    have later : addressOf other (id.2 + 1) ≤ addressOf other id'.2 := Layout.start_mono _ before
    rw [same]
    omega

theorem LaidOut.get_PC (laid : LaidOut functions globals) (id : InsnId) {pI : PtxInstruction}
    (function : functions[id.1]? = some m_instructions)
    (here : m_instructions[id.2]? = some (.instruction pI)) :
    ∃ pc, globals.get_PC id = some pc ∧
      pc.toNat = startOf functions id.1 + addressOf m_instructions id.2 ∧
      pc = BitVec.ofNat 32 (startOf functions id.1 + addressOf m_instructions id.2) ∧
      pc_to_instruction globals pc = some id ∧ globals.g_pc_to_finfo pc = some id.1 := by
  have found := laid.insn id m_instructions pI function here
  obtain ⟨below, pc, finfo⟩ := laid.sound.placed _ _ found
  have value : (BitVec.ofNat 32 (startOf functions id.1 + addressOf m_instructions id.2)).toNat =
      startOf functions id.1 + addressOf m_instructions id.2 := by
    rw [BitVec.toNat_ofNat, Nat.mod_eq_of_lt below]
  refine ⟨_, pc, value, rfl, ?_, finfo⟩
  rw [pc_to_instruction, value, found]
  rfl

theorem LaidOut.consistent (laid : LaidOut functions globals)
    (wellFormed : ∀ m_instructions ∈ functions, WellFormed m_instructions) :
    Consistent functions globals := by
  constructor
  case aligned =>
    intro f inside
    refine ⟨_, laid.starts f inside, ?_⟩
    have four := four_dvd_codeEnd (functions.take f) fun other member =>
      wellFormed other (List.mem_of_mem_take member)
    have eight : MAX_INST_SIZE ∣ startOf functions f := eight_dvd_alignUp four
    rw [BitVec.toNat_ofNat]
    exact (Nat.dvd_mod_iff (by decide)).mpr eight
  case found =>
    rintro id pI ⟨m_instructions, function, here⟩
    obtain ⟨pc, gets, -, -, insn, finfo⟩ := laid.get_PC id function here
    exact ⟨pc, gets, insn, finfo⟩
  case disjoint =>
    rintro id pI pc id' pI' pc' ⟨m_instructions, function, here⟩ gets ⟨other, function', here'⟩ gets' apart
    obtain ⟨place, gets₁, value, -⟩ := laid.get_PC id function here
    obtain ⟨place', gets₂, value', -⟩ := laid.get_PC id' function' here'
    obtain rfl := Option.some.inj (gets₁.symm.trans gets)
    obtain rfl := Option.some.inj (gets₂.symm.trans gets')
    rw [value, value']
    have order : (id.1 < id'.1 ∨ id.1 = id'.1 ∧ id.2 < id'.2) ∨
        (id'.1 < id.1 ∨ id'.1 = id.1 ∧ id'.2 < id.2) := by
      by_contra neither
      exact apart (Prod.ext (by omega) (by omega))
    rcases order with before | behind
    · exact .inl (ends_before function here function' before)
    · exact .inr (ends_before function' here' function behind)
  case branches =>
    rintro f p pI m_instructions q ⟨other, function, here⟩ branch function' target
    obtain rfl := Option.some.inj (function.symm.trans function')
    have address := laid.branches f other p pI q function here branch target
    obtain ⟨l, -, next⟩ := target
    obtain ⟨-, ⟨pI', there⟩, -⟩ := next_eq_some.mp next
    obtain ⟨pc, gets, -, same, -⟩ := laid.get_PC (f, q) function there
    exact ⟨pc, gets, same ▸ address⟩

/-- Well-formed functions are laid out consistently exactly if their code fits. -/
theorem layout_consistent_iff (functions : List (List Statement))
    (wellFormed : ∀ m_instructions ∈ functions, WellFormed m_instructions) :
    (∃ globals, assemble functions = some globals ∧ Consistent functions globals) ↔
      Fits functions := by
  obtain ⟨succeeds, spec⟩ := assemble_spec functions wellFormed
  constructor
  · rintro ⟨globals, assembled, -⟩
    exact (spec globals assembled).2
  · intro fits
    obtain ⟨globals, assembled⟩ := succeeds fits
    exact ⟨globals, assembled, (spec globals assembled).1.consistent wellFormed⟩

end Functions

/-! ## Long and short code -/

def wide : PtxInstruction :=
  ⟨.OTHER_OP, false, false, "", 8, FinLiterals.eight_pos, Nat.le_refl MAX_INST_SIZE⟩

def loopBranch : PtxInstruction := ⟨.BRA_OP, true, false, "L", 4, by decide, by decide⟩

theorem replicate_wellFormed (n : Nat) : WellFormed (List.replicate n (.instruction wide)) where
  sizes p pI here := by
    rw [List.getElem?_replicate] at here
    split at here
    · obtain rfl := Statement.instruction.inj (Option.some.inj here)
      exact .inr rfl
    · cases here
  labels l name here := by
    rw [List.getElem?_replicate] at here
    split at here <;> cases here
  branches p pI here branch := by
    rw [List.getElem?_replicate] at here
    split at here
    · obtain rfl := Statement.instruction.inj (Option.some.inj here)
      exact absurd branch (by decide)
    · cases here

theorem size_replicate (n : Nat) : size (List.replicate n (.instruction wide)) = n * 8 := by
  rw [size, addressOf, Layout.start, List.map_replicate, List.length_replicate, List.take_replicate,
    Nat.min_self, List.sum_replicate]
  rfl

/-- Two functions of `n` instructions and a third one behind them. -/
def longCode (n : Nat) : List (List Statement) :=
  [List.replicate n (.instruction wide), List.replicate n (.instruction wide), [.instruction wide]]

theorem longCode_wellFormed (n : Nat) : ∀ m_instructions ∈ longCode n, WellFormed m_instructions := by
  intro m_instructions member
  simp only [longCode, List.mem_cons, List.not_mem_nil, or_false] at member
  rcases member with rfl | rfl | rfl
  · exact replicate_wellFormed n
  · exact replicate_wellFormed n
  · exact replicate_wellFormed 1

theorem startOf_longCode (n : Nat) : n * 16 ≤ startOf (longCode n) 2 := by
  have two : codeEnd ((longCode n).take 2) = alignUp (alignUp 0 + n * 8) + n * 8 := by
    simp only [longCode, List.take_succ_cons, List.take_zero, codeEnd, List.foldl_cons,
      List.foldl_nil, size_replicate]
  rw [startOf, two]
  simp only [alignUp]
  omega

/-- Behind two functions of 2 GiB a third one starts at a PC that has wrapped. -/
theorem long_code_not_laid_out :
    ¬ ∃ globals, assemble (longCode (2 ^ 28)) = some globals ∧
      Consistent (longCode (2 ^ 28)) globals := by
  generalize many : 2 ^ 28 = n
  rintro ⟨globals, assembled, -⟩
  have fits := ((assemble_spec (longCode n) (longCode_wellFormed n)).2 globals assembled).2
  have third := (fits 2 [.instruction wide] rfl 0 wide rfl).1
  have start := startOf_longCode n
  omega

/-- A loop and another function. -/
def shortCode : List (List Statement) :=
  [[.label "L", .instruction loopBranch, .instruction loopBranch, .instruction loopBranch],
    [.instruction wide]]

theorem short_code_laid_out :
    ∃ globals, assemble shortCode = some globals ∧ Consistent shortCode globals := by
  refine (layout_consistent_iff shortCode fun m_instructions member => ?_).mpr ?_
  · rcases List.mem_pair.mp member with rfl | rfl
    · refine ⟨fun p pI here => ?_, fun l name here => ?_, fun p pI here _ => ⟨0, ?_⟩⟩
      · rcases p with _ | _ | _ | _ | p <;> simp at here <;> subst here <;> exact .inl rfl
      · rcases l with _ | _ | _ | _ | l <;> simp at here
        rfl
      · rcases p with _ | _ | _ | _ | p <;> simp at here <;> subst here <;>
          refine ⟨rfl, fun l later => ?_⟩ <;> rcases l with _ | _ | _ | _ | l <;>
          simp at later ⊢
    · exact replicate_wellFormed 1
  · intro f m_instructions function p pI here
    rcases f with _ | _ | f <;> simp [shortCode] at function <;> subst function
    · rcases p with _ | _ | _ | _ | p <;> simp at here <;> subst here <;> decide
    · rcases p with _ | p <;> simp at here
      subst here
      decide

end AesOnGpu.ControlFlow.Code
