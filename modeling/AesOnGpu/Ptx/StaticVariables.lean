import AesOnGpu.Ptx.Declarations

/-! # Static variables

A symbol table starts with its parent's counters for shared and global memory, and from then on
each table counts by itself.  The addresses keep apart as long as no table gives out what another
one has.
-/

namespace AesOnGpu.Ptx

/-- The memories whose variables get their addresses here; constants are in global memory. -/
inductive StaticMemory where
  | global
  | shared
  | local
  deriving DecidableEq

def DeclSpace.memory : DeclSpace → Option StaticMemory
  | const_space | global_space => some .global
  | shared_space => some .shared
  | local_space => some .local
  | reg_space | tex_space | surf_space | param_space_local | param_space_kernel => none

namespace Symbol

def memory (s : Symbol) : Option StaticMemory := s.declaration.bind fun d => d.space.memory

end Symbol

def SymbolTable.next (table : SymbolTable) : StaticMemory → BitVec 32
  | .global => table.m_global_next
  | .shared => table.m_shared_next
  | .local => table.m_local_next

def VectorType.lanes : VectorType → Nat
  | V2_TYPE => 2
  | V3_TYPE => 3
  | V4_TYPE => 4

def Declaration.size (d : Declaration) : Nat :=
  d.num_bits * (d.vector.elim 1 VectorType.lanes) / 8

/-- The ranges of two variables do not overlap. -/
def Apart (s s' : Symbol) : Prop :=
  ∀ a a', s.m_address = some a → s'.m_address = some a' →
    a.toNat + s.m_size.toNat ≤ a'.toNat ∨ a'.toNat + s'.m_size.toNat ≤ a.toNat

def Whole (d : Declaration) (s : Symbol) : Prop :=
  ∀ a, s.m_address = some a →
    s.m_size.toNat = d.size ∧ ∀ alignment, d.alignment = some alignment → alignment ∣ a.toNat

namespace Parser

variable {p p' : Parser} {d : Declaration}

/-- The variables of two tables may meet: in global memory any, and in the others those of the
    scopes of one table. -/
def Together (p : Parser) (memory : StaticMemory) (i j : Nat) : Prop :=
  memory = .global ∨ ∃ scope, i ∈ p.scopes scope ∧ j ∈ p.scopes scope

/-- Static variables do not overlap. -/
structure Separate (p : Parser) : Prop where
  apart : ∀ memory i j, p.Together memory i j →
    ∀ s ∈ (p.tables i).m_symbols, ∀ s' ∈ (p.tables j).m_symbols,
      s.memory = some memory → s'.memory = some memory → (i, s.name) ≠ (j, s'.name) → Apart s s'
  whole : ∀ i, ∀ s ∈ (p.tables i).m_symbols, ∀ d, s.declaration = some d →
    d.space.memory.isSome → Whole d s

/-- A declaration does not reach what is wrong: it has no vector type, and no alignment that its
    size does not have anyway; there is room; and no table has counted further that has variables
    which the new one may meet. -/
structure Keeps (p : Parser) (memory : StaticMemory) (d : Declaration) : Prop where
  scalar : d.vector = none
  aligned : ∀ alignment, d.alignment = some alignment → alignment ∣ max 1 (alignto d.size 128)
  room : ((p.tables p.g_current_symbol_table).next memory).toNat +
    pad_address ((p.tables p.g_current_symbol_table).next memory).toNat d.size 128 + d.size < 2 ^ 32
  newest : ∀ j, p.Together memory p.g_current_symbol_table j →
    (∃ s ∈ (p.tables j).m_symbols, s.memory = some memory) →
      ((p.tables j).next memory).toNat ≤
        ((p.tables p.g_current_symbol_table).next memory).toNat

/-- A declaration that is made gives no address to a static variable, or keeps them apart; the
    parameters of a function have room in its frame. -/
def Allowed (p : Parser) : ParserEvent → Prop
  | .add_identifier d => p.lookup d.identifier = false →
    (d.space = .param_space_local →
      (p.tables p.g_current_symbol_table).m_local_next.toNat + d.num_bits / 8 < 2 ^ 32) ∧
    ((d.space = .const_space → d.array ≠ .ARRAY_IDENTIFIER_NO_DIM) →
      ∀ memory, d.space.memory = some memory → p.Keeps memory d)
  | _ => True

/-! ## Padding -/

theorem dvd_pad_address (address size : Nat) :
    max 1 (alignto size 128) ∣ address + pad_address address size 128 := by
  rw [pad_address]
  split
  · rename_i zero
    simp [zero]
  · rename_i nonzero
    have positive : 1 ≤ alignto size 128 := Nat.one_le_iff_ne_zero.mpr nonzero
    generalize alignto size 128 = n at positive
    rw [max_eq_right positive]
    have below := Nat.mod_lt address positive
    have whole := Nat.div_add_mod address n
    by_cases exact : address % n = 0
    · rw [exact, Nat.sub_zero, Nat.mod_self, Nat.add_zero]
      exact Nat.dvd_of_mod_eq_zero exact
    · rw [Nat.mod_eq_of_lt (by omega)]
      refine ⟨address / n + 1, ?_⟩
      rw [Nat.mul_add, Nat.mul_one]
      omega

theorem allocate_spec {next address next' : BitVec 32} (scalar : d.vector = none)
    (room : next.toNat + pad_address next.toNat d.size 128 + d.size < 2 ^ 32)
    (run : allocate next d.num_bits = some (address, next')) :
    address.toNat = next.toNat + pad_address next.toNat d.size 128 ∧
      (BitVec.ofNat 32 (d.num_bits / 8)).toNat = d.size ∧
      next'.toNat = address.toNat + d.size := by
  have size : d.num_bits / 8 = d.size := by simp [Declaration.size, scalar]
  rw [allocate, size, Nat.mod_eq_of_lt (show d.size < 2 ^ 32 by omega)] at run
  split at run
  · obtain ⟨rfl, rfl⟩ := Prod.mk.inj (Option.some.inj run)
    rw [size]
    simp only [BitVec.toNat_add, BitVec.toNat_ofNat]
    omega
  · cases run

/-! ## The invariant -/

/-- Static variables do not overlap, and each table's lie before its counters. -/
structure Kept (p : Parser) : Prop extends Separate p where
  below : ∀ i memory, ∀ s ∈ (p.tables i).m_symbols, s.memory = some memory →
    ∀ a, s.m_address = some a → a.toNat + s.m_size.toNat ≤ ((p.tables i).next memory).toNat

theorem kept_initial : Kept initial where
  apart _ _ _ _ s here := by cases here
  whole _ s here := by cases here
  below _ _ s here := by cases here

/-- A step that adds no static variable. -/
structure Refines (p p' : Parser) : Prop where
  symbols : ∀ i, ∀ s ∈ (p'.tables i).m_symbols, s.memory ≠ none → s ∈ (p.tables i).m_symbols
  scopes : ∀ scope, ∃ scope', ∀ i ∈ p'.scopes scope,
    (∃ s ∈ (p'.tables i).m_symbols, s.memory ≠ none) → i ∈ p.scopes scope'
  next : ∀ i memory, (∃ s ∈ (p'.tables i).m_symbols, s.memory = some memory) →
    ((p.tables i).next memory).toNat ≤ ((p'.tables i).next memory).toNat

theorem Refines.together (refines : Refines p p') {memory : StaticMemory} {i j : Nat}
    (together : p'.Together memory i j) (here : ∃ s ∈ (p'.tables i).m_symbols, s.memory ≠ none)
    (there : ∃ s ∈ (p'.tables j).m_symbols, s.memory ≠ none) : p.Together memory i j := by
  cases together with
  | inl global => exact Or.inl global
  | inr visible =>
    obtain ⟨scope, iVisible, jVisible⟩ := visible
    obtain ⟨scope', same⟩ := refines.scopes scope
    exact Or.inr ⟨scope', same i iVisible here, same j jVisible there⟩

theorem Kept.refines (kept : Kept p) (refines : Refines p p') : Kept p' where
  apart memory i j together s here s' there isStatic isStatic' distinct := by
    have static : s.memory ≠ none := by simp [isStatic]
    have static' : s'.memory ≠ none := by simp [isStatic']
    exact kept.apart memory i j (refines.together together ⟨s, here, static⟩ ⟨s', there, static'⟩)
      s (refines.symbols i s here static) s' (refines.symbols j s' there static') isStatic isStatic'
      distinct
  whole i s here d declared isStatic := by
    have static : s.memory ≠ none := by
      rw [Symbol.memory, declared, Option.bind_some]
      exact Option.isSome_iff_ne_none.mp isStatic
    exact kept.whole i s (refines.symbols i s here static) d declared isStatic
  below i memory s here isStatic a address := by
    have static : s.memory ≠ none := by simp [isStatic]
    exact (kept.below i memory s (refines.symbols i s here static) isStatic a address).trans
      (refines.next i memory ⟨s, here, isStatic⟩)

theorem refines_new {parent : Nat} {table : SymbolTable} (i : Nat)
    (parents : table.m_parents = parent :: (p.tables parent).m_parents)
    (none_ : ∀ s ∈ table.m_symbols, s.memory = none) : Refines p (p.setTable i table) where
  symbols j s here static := by
    by_cases same : j = i
    · subst same
      rw [setTable_self] at here
      exact absurd (none_ s here) static
    · rwa [setTable_of_ne _ _ same] at here
  scopes scope := by
    by_cases same : scope = i
    · subst same
      refine ⟨parent, fun j visible static => ?_⟩
      rw [Parser.scopes, setTable_self, parents] at visible
      cases visible with
      | head =>
        obtain ⟨s, here, static⟩ := static
        rw [setTable_self] at here
        exact absurd (none_ s here) static
      | tail _ visible => exact visible
    · refine ⟨scope, fun j visible _ => ?_⟩
      rwa [Parser.scopes, setTable_of_ne _ _ same] at visible
  next j memory static := by
    obtain ⟨s, here, isStatic⟩ := static
    by_cases same : j = i
    · subst same
      rw [setTable_self] at here
      simp [none_ s here] at isStatic
    · rw [setTable_of_ne _ _ same]

theorem refines_table {i : Nat} {table : SymbolTable}
    (parents : table.m_parents = (p.tables i).m_parents)
    (symbols : ∀ s ∈ table.m_symbols, s.memory ≠ none → s ∈ (p.tables i).m_symbols)
    (next : ∀ memory, ((p.tables i).next memory).toNat ≤ (table.next memory).toNat) :
    Refines p (p.setTable i table) where
  symbols j s here static := by
    by_cases same : j = i
    · subst same
      rw [setTable_self] at here
      exact symbols s here static
    · rwa [setTable_of_ne _ _ same] at here
  scopes scope := by
    refine ⟨scope, fun j visible _ => ?_⟩
    by_cases same : scope = i
    · subst same
      rwa [Parser.scopes, setTable_self, parents] at visible
    · rwa [Parser.scopes, setTable_of_ne _ _ same] at visible
  next j memory _ := by
    by_cases same : j = i
    · subst same
      rw [setTable_self]
      exact next memory
    · rw [setTable_of_ne _ _ same]

theorem scopes_setTable {i : Nat} {table : SymbolTable}
    (parents : table.m_parents = (p.tables i).m_parents) (scope : Nat) :
    (p.setTable i table).scopes scope = p.scopes scope := by
  by_cases same : scope = i
  · subst same
    rw [Parser.scopes, setTable_self, parents, Parser.scopes]
  · rw [Parser.scopes, setTable_of_ne _ _ same, Parser.scopes]

/-- A symbol is added.  If it is a static variable with an address, this is behind the counter,
    which is behind all that the variable may meet. -/
theorem Kept.add (kept : Kept p) {i : Nat} {table : SymbolTable} {new : Symbol}
    (parents : table.m_parents = (p.tables i).m_parents)
    (symbols : table.m_symbols = (p.tables i).m_symbols ++ [new])
    (next : ∀ memory, ((p.tables i).next memory).toNat ≤ (table.next memory).toNat)
    (whole : ∀ d, new.declaration = some d → d.space.memory.isSome → Whole d new)
    (placed : ∀ memory a, new.memory = some memory → new.m_address = some a →
      ((p.tables i).next memory).toNat ≤ a.toNat ∧
      a.toNat + new.m_size.toNat ≤ (table.next memory).toNat ∧
      ∀ j, p.Together memory i j → (∃ s ∈ (p.tables j).m_symbols, s.memory = some memory) →
        ((p.tables j).next memory).toNat ≤ ((p.tables i).next memory).toNat) :
    Kept (p.setTable i table) := by
  have mem_iff (j : Nat) (s : Symbol) : s ∈ ((p.setTable i table).tables j).m_symbols ↔
      s ∈ (p.tables j).m_symbols ∨ j = i ∧ s = new := by
    by_cases same : j = i
    · subst same
      simp [symbols]
    · simp [setTable_of_ne _ _ same, same]
  have together (memory : StaticMemory) (j k : Nat) :
      (p.setTable i table).Together memory j k ↔ p.Together memory j k := by
    simp only [Together, scopes_setTable parents]
  have behind (memory : StaticMemory) (a : BitVec 32) (isStatic : new.memory = some memory)
      (address : new.m_address = some a) (j : Nat) (meets : p.Together memory i j) (s : Symbol)
      (here : s ∈ (p.tables j).m_symbols) (static : s.memory = some memory) (b : BitVec 32)
      (given : s.m_address = some b) : b.toNat + s.m_size.toNat ≤ a.toNat := by
    obtain ⟨start, -, newest⟩ := placed memory a isStatic address
    exact (kept.below j memory s here static b given).trans
      ((newest j meets ⟨s, here, static⟩).trans start)
  refine ⟨⟨fun memory j k meets s here s' there static static' distinct => ?_,
    fun j s here d declared static => ?_⟩, fun j memory s here static b given => ?_⟩
  · rw [together] at meets
    rw [mem_iff] at here there
    cases here with
    | inl here =>
      cases there with
      | inl there => exact kept.apart memory j k meets s here s' there static static' distinct
      | inr there =>
        obtain ⟨rfl, rfl⟩ := there
        intro b b' given given'
        exact Or.inl (behind memory b' static' given' j
          (meets.imp_right fun ⟨scope, both⟩ => ⟨scope, both.symm⟩) s here static b given)
    | inr here =>
      obtain ⟨rfl, rfl⟩ := here
      cases there with
      | inl there =>
        intro b b' given given'
        exact Or.inr (behind memory b static given k meets s' there static' b' given')
      | inr there =>
        obtain ⟨rfl, rfl⟩ := there
        exact absurd rfl distinct
  · rw [mem_iff] at here
    cases here with
    | inl here => exact kept.whole j s here d declared static
    | inr here =>
      obtain ⟨-, rfl⟩ := here
      exact whole d declared static
  · rw [mem_iff] at here
    cases here with
    | inl here =>
      have before := kept.below j memory s here static b given
      by_cases same : j = i
      · subst same
        rw [setTable_self]
        exact before.trans (next memory)
      · rwa [setTable_of_ne _ _ same]
    | inr here =>
      obtain ⟨rfl, rfl⟩ := here
      rw [setTable_self]
      exact (placed memory b static given).2.1

/-! ## Steps -/

theorem Kept.of_tables (kept : Kept p) (same : p'.tables = p.tables) : Kept p' := by
  have scopes : p'.scopes = p.scopes := by
    funext scope
    rw [Parser.scopes, same, Parser.scopes]
  refine kept.refines ⟨fun i s here _ => ?_, fun scope => ⟨scope, fun i visible _ => ?_⟩,
    fun i memory _ => ?_⟩
  · rwa [same] at here
  · rwa [scopes] at visible
  · rw [same]

theorem Kept.addName (kept : Kept p) (i : Nat) (name : String) : Kept (p.addName i name) := by
  rw [Parser.addName]
  split
  · exact kept
  · refine kept.refines (refines_table rfl (fun s here static => ?_) fun memory => ?_)
    · cases List.mem_append.mp here with
      | inl before => exact before
      | inr new =>
        obtain rfl := List.mem_singleton.mp new
        exact absurd rfl static
    · cases memory <;> exact le_rfl

theorem Kept.initParser (kept : Kept p) : Kept p.initParser :=
  (kept.refines (refines_new p.count rfl fun s here => by cases here)).of_tables rfl

theorem Kept.add_function_decl (kept : Kept p) (name : String) : Kept (p.add_function_decl name) := by
  rw [Parser.add_function_decl]
  dsimp only
  split
  · exact kept.of_tables rfl
  · have listed := kept.refines (@refines_table p p.g_global_symbol_table
      { p.tables p.g_global_symbol_table with
        m_function_symtab_lookup := (name, p.count) ::
          (p.tables p.g_global_symbol_table).m_function_symtab_lookup }
      rfl (fun _ here _ => here) fun memory => by cases memory <;> exact le_rfl)
    refine (listed.refines (@refines_new _ p.g_global_symbol_table p.functionTable p.count
      ?_ fun s here => ?_)).of_tables rfl
    · rw [setTable_self]
      rfl
    · obtain rfl := List.mem_singleton.mp here
      rfl

theorem add_identifier_static {memory : StaticMemory} (static : d.space.memory = some memory)
    (sized : d.space = .const_space → d.array ≠ .ARRAY_IDENTIFIER_NO_DIM)
    (fresh : p.lookup d.identifier = false) (run : p.add_identifier d = some p') :
    ∃ address next table,
      allocate ((p.tables p.g_current_symbol_table).next memory) d.num_bits = some (address, next) ∧
      p' = p.setTable p.g_current_symbol_table table ∧
      table.m_parents = (p.tables p.g_current_symbol_table).m_parents ∧
      table.m_symbols = (p.tables p.g_current_symbol_table).m_symbols ++
        [⟨d.identifier, some d, BitVec.ofNat 32 (d.num_bits / 8), some address⟩] ∧
      ∀ other, table.next other =
        if other = memory then next else (p.tables p.g_current_symbol_table).next other := by
  rw [add_identifier] at run
  simp only [fresh, Bool.false_eq_true, if_false] at run
  cases space : d.space with
  | reg_space | tex_space | surf_space | param_space_local | param_space_kernel =>
    rw [space] at static
    cases static
  | shared_space | global_space | local_space =>
    rw [space] at static run
    obtain rfl := Option.some.inj static
    obtain ⟨⟨address, next⟩, allocated, made⟩ := Option.bind_eq_some_iff.mp run
    obtain rfl := Option.some.inj made
    refine ⟨address, next, _, allocated, rfl, rfl, rfl, fun other => ?_⟩
    cases other <;> rfl
  | const_space =>
    rw [space] at static run
    obtain rfl := Option.some.inj static
    simp only [sized space, if_false] at run
    obtain ⟨⟨address, next⟩, allocated, made⟩ := Option.bind_eq_some_iff.mp run
    obtain rfl := Option.some.inj made
    refine ⟨address, next, _, allocated, rfl, rfl, rfl, fun other => ?_⟩
    cases other <;> rfl

theorem Kept.addOther (kept : Kept p) {i : Nat} {table : SymbolTable} {new : Symbol}
    (parents : table.m_parents = (p.tables i).m_parents)
    (symbols : table.m_symbols = (p.tables i).m_symbols ++ [new])
    (next : ∀ memory, ((p.tables i).next memory).toNat ≤ (table.next memory).toNat)
    (other : new.m_address = none ∨ new.memory = none) : Kept (p.setTable i table) := by
  refine kept.add parents symbols next (fun d declared static a given => ?_)
    fun memory a static given => ?_
  · cases other with
    | inl none_ => simp [none_] at given
    | inr none_ =>
      rw [Symbol.memory, declared, Option.bind_some] at none_
      simp [none_] at static
  · cases other with
    | inl none_ => simp [none_] at given
    | inr none_ => simp [none_] at static

theorem add_identifier_other (other : d.space.memory = none ∨
      d.space = .const_space ∧ d.array = .ARRAY_IDENTIFIER_NO_DIM)
    (fresh : p.lookup d.identifier = false) (run : p.add_identifier d = some p')
    (room : d.space = .param_space_local →
      (p.tables p.g_current_symbol_table).m_local_next.toNat + d.num_bits / 8 < 2 ^ 32)
    (kept : Kept p) : Kept p' := by
  rw [add_identifier] at run
  simp only [fresh, Bool.false_eq_true, if_false] at run
  cases space : d.space with
  | reg_space | tex_space | param_space_kernel =>
    rw [space] at run
    obtain rfl := Option.some.inj run
    exact kept.addOther rfl rfl (fun memory => by cases memory <;> exact le_rfl) (Or.inl rfl)
  | surf_space =>
    rw [space] at run
    cases run
  | param_space_local =>
    have room := room space
    rw [space] at run
    dsimp only at run
    split at run
    · obtain rfl := Option.some.inj run
      refine kept.addOther rfl rfl (fun memory => ?_) (Or.inr ?_)
      · cases memory with
        | «global» => exact le_rfl
        | shared => exact le_rfl
        | «local» =>
          simp only [SymbolTable.next, BitVec.toNat_add, BitVec.toNat_ofNat]
          omega
      · simp [Symbol.memory, space, DeclSpace.memory]
    · cases run
  | shared_space | global_space | local_space =>
    rw [space] at other
    rcases other with static | ⟨notConst, -⟩
    · cases static
    · cases notConst
  | const_space =>
    have noDim : d.array = .ARRAY_IDENTIFIER_NO_DIM := by
      rw [space] at other
      cases other with
      | inl static => cases static
      | inr const => exact const.2
    rw [space] at run
    simp only [noDim, if_true] at run
    obtain rfl := Option.some.inj run
    exact kept.addOther rfl rfl (fun memory => by cases memory <;> exact le_rfl) (Or.inl rfl)

theorem Kept.step (kept : Kept p) {event : ParserEvent} (allowed : p.Allowed event)
    (run : p.step event = some p') : Kept p' := by
  cases event with
  | initParser =>
    obtain rfl := Option.some.inj run
    exact kept.initParser
  | add_function_name name =>
    obtain rfl := Option.some.inj run
    exact (kept.add_function_decl name).addName _ name
  | reset_symtab =>
    obtain rfl := Option.some.inj run
    exact kept.of_tables rfl
  | add_label identifier =>
    obtain rfl := Option.some.inj run
    rw [add_label]
    split
    · exact kept
    · exact kept.addName _ identifier
  | add_identifier d =>
    cases fresh : p.lookup d.identifier with
    | true =>
      have same : p.add_identifier d = some p := by simp [add_identifier, fresh]
      obtain rfl := Option.some.inj (same.symm.trans run)
      exact kept
    | false =>
      obtain ⟨room, keeps⟩ := allowed fresh
      by_cases sized : d.space = .const_space → d.array ≠ .ARRAY_IDENTIFIER_NO_DIM
      · cases static : d.space.memory with
        | none => exact add_identifier_other (Or.inl static) fresh run room kept
        | some memory =>
          obtain ⟨scalar, aligned, room, newest⟩ := keeps sized memory static
          obtain ⟨address, next, table, allocated, rfl, parents, symbols, nexts⟩ :=
            add_identifier_static static sized fresh run
          obtain ⟨start, size, finish⟩ := allocate_spec scalar room allocated
          refine kept.add parents symbols (fun other => ?_) (fun d' declared _ a given => ?_)
            fun memory' a static' given => ?_
          · rw [nexts]
            split
            · rename_i same
              rw [same]
              omega
            · exact le_rfl
          · cases declared
            cases given
            refine ⟨size, fun alignment spec => (aligned alignment spec).trans ?_⟩
            rw [start]
            exact dvd_pad_address _ _
          · cases given
            obtain rfl : memory = memory' := Option.some.inj (static.symm.trans static')
            refine ⟨by omega, ?_, newest⟩
            rw [nexts, if_pos rfl]
            dsimp only
            omega
      · rw [Classical.not_imp, not_not] at sized
        exact add_identifier_other (Or.inr sized) fresh run room kept

/-! ## Runs -/

def AlwaysAllowed : Parser → List ParserEvent → Prop
  | _, [] => True
  | p, event :: events =>
    p.Allowed event ∧ ∀ p', p.step event = some p' → AlwaysAllowed p' events

theorem Kept.run (kept : Kept p) {events : List ParserEvent} (allowed : AlwaysAllowed p events)
    (ran : events.foldlM Parser.step p = some p') : Kept p' := by
  induction events generalizing p with
  | nil =>
    obtain rfl := Option.some.inj ran
    exact kept
  | cons event events ih =>
    rw [List.foldlM_cons] at ran
    obtain ⟨next, first, rest⟩ := Option.bind_eq_some_iff.mp ran
    exact ih (kept.step allowed.1 first) (allowed.2 next first) rest

/-- In every run whose declarations are allowed the static variables keep apart. -/
theorem separate_of_allowed {events : List ParserEvent} (allowed : AlwaysAllowed initial events)
    (ran : run events = some p) : Separate p :=
  (kept_initial.run allowed ran).toSeparate

/-- `.global .align 8 .b64 x[3]` in a file by itself. -/
theorem separate_of_allowed_array : ∃ p,
    run [.add_identifier ⟨"x", .global_space, .B64_TYPE, none, some 8, .ARRAY_IDENTIFIER 3⟩] =
      some p ∧ Separate p := by
  have allowed : AlwaysAllowed initial
      [.add_identifier ⟨"x", .global_space, .B64_TYPE, none, some 8, .ARRAY_IDENTIFIER 3⟩] := by
    refine ⟨fun _ => ⟨fun other => ?_, fun _ memory static => ?_⟩, fun _ _ => trivial⟩
    · cases other
    · obtain rfl := Option.some.inj static
      refine ⟨rfl, fun alignment spec => ?_, by decide, fun j _ static => ?_⟩
      · obtain rfl := Option.some.inj spec
        decide
      · obtain ⟨s, here, -⟩ := static
        cases here
  exact ⟨_, rfl, separate_of_allowed allowed rfl⟩

/-- A `.global .b32 a` in a function and a `.global .b32 b` after it: both are at 0x100. -/
theorem function_scope_overlaps : ¬ ∀ events p, run events = some p → Separate p := by
  intro separate
  let a : Declaration := ⟨"a", .global_space, .B32_TYPE, none, none, .NON_ARRAY_IDENTIFIER⟩
  let b : Declaration := ⟨"b", .global_space, .B32_TYPE, none, none, .NON_ARRAY_IDENTIFIER⟩
  let events : List ParserEvent :=
    [.add_function_name "f", .add_identifier a, .reset_symtab, .add_identifier b]
  have ran : run events = some ((run events).get (by decide)) := (Option.some_get _).symm
  have apart := (separate events _ ran).apart .global 1 0 (Or.inl rfl)
    ⟨"a", some a, 4, some 0x100⟩ (by decide) ⟨"b", some b, 4, some 0x100⟩ (by decide) rfl rfl
    (by decide)
  cases apart 0x100 0x100 rfl rfl with
  | inl before => exact absurd before (by decide)
  | inr before => exact absurd before (by decide)

end Parser
end AesOnGpu.Ptx
