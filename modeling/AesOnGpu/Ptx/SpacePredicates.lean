import AesOnGpu.Ptx.Flags
import AesOnGpu.Ptx.GenericWindows

/-! # Predicates on the space of an address

`isspacep_impl` of `instructions.cc`.  Its tests of the windows are right, but no case
of its switch has a `break`, so that each case runs into the abort of the last one
(`isspacep_never_tests`).  The value that would go into the predicate is not what a guard
takes for true either.
-/

namespace AesOnGpu.Ptx.SpacePredicates

/-! ## The code -/

def isspace_global (addr : Addr) : Bool := addr ≥ GLOBAL_HEAP_START ∨ addr < STATIC_ALLOC_LIMIT

/-- The spaces that the instruction has a case for. -/
inductive WindowSpace where
  | shared_space
  | local_space
  | global_space
  deriving DecidableEq

/-- A labelled statement of a switch.  It gives the new value of `t`, or nothing when it
    aborts. -/
structure SwitchCase where
  /-- The default case has none. -/
  label : Option WindowSpace
  body : Option Bool

def switchCases (smid hwtid addr : Addr) : List SwitchCase :=
  [⟨some .shared_space, some (isspace_shared smid addr)⟩,
   ⟨some .local_space, some (isspace_local smid hwtid addr)⟩,
   ⟨some .global_space, some (isspace_global addr)⟩,
   ⟨none, none⟩]

/-- A switch starts at the case of its label and runs through all that follow: there is no
    `break`. -/
def runSwitch (space : WindowSpace) (cases : List SwitchCase) (t : Bool) : Option Bool :=
  (cases.dropWhile fun c => c.label ≠ some space ∧ c.label ≠ none).foldlM
    (fun _ c => c.body) t

/-- `p.pred = t ? 1 : 0` of a cleared register. -/
def predicateOf (t : Bool) : RegValue := if t then 1 else 0

section

variable {Symbol : Type} [DecidableEq Symbol]

def isspacep_impl (smid hwtid : Addr) (space : WindowSpace) (dst src1 : Symbol)
    (regs : Regs Symbol) : Option (Regs Symbol) := do
  let addr := (regs src1).setWidth 32
  let t ← runSwitch space (switchCases smid hwtid addr) false
  return set_reg regs dst (predicateOf t)

/-! ## What the instruction is for -/

def InWindow (smid hwtid : Addr) : WindowSpace → Addr → Prop
  | .shared_space, addr => ∃ offset, shared_to_generic smid offset = some addr
  | .local_space, addr => ∃ offset, local_to_generic smid hwtid offset = some addr
  | .global_space, addr => whichspace addr = .global_space

/-- A guard with this predicate executes its instruction. -/
def HoldsAsGuard (p : RegValue) : Prop := Flags.skip (.plain false) p = false

instance (p : RegValue) : Decidable (HoldsAsGuard p) := inferInstanceAs (Decidable (_ = _))

/-- The instruction ends, and a guard that follows holds exactly when the address is in the
    window. -/
def TestsWindow (smid hwtid : Addr) (space : WindowSpace) (dst src1 : Symbol)
    (regs : Regs Symbol) : Prop :=
  ∃ regs', isspacep_impl smid hwtid space dst src1 regs = some regs' ∧
    (HoldsAsGuard (regs' dst) ↔ InWindow smid hwtid space ((regs src1).setWidth 32))

end

/-! ## The instruction -/

theorem runSwitch_none (smid hwtid addr : Addr) (space : WindowSpace) (t : Bool) :
    runSwitch space (switchCases smid hwtid addr) t = none := by
  cases space <;> rfl

section

variable {Symbol : Type} [DecidableEq Symbol] (smid hwtid : Addr) (space : WindowSpace)
  (dst src1 : Symbol) (regs : Regs Symbol)

theorem isspacep_aborts : isspacep_impl smid hwtid space dst src1 regs = none := by
  rw [isspacep_impl, runSwitch_none]
  rfl

/-- There is no shader, thread, address or space for which the instruction tests the
    window. -/
theorem isspacep_never_tests : ¬ TestsWindow smid hwtid space dst src1 regs := by
  rintro ⟨regs', ended, -⟩
  rw [isspacep_aborts] at ended
  cases ended

end

/-- The first address of the shared memory of shader 0. -/
theorem isspacep_shared_aborts :
    ¬ ∀ (smid hwtid : Addr) (space : WindowSpace) (dst src1 : Bool) (regs : Regs Bool),
      TestsWindow smid hwtid space dst src1 regs := by
  intro tests
  obtain ⟨regs', ended, -⟩ := tests 0 0 .shared_space true false fun _ => 0x7FC00000
  have aborted := isspacep_aborts 0 0 .shared_space true false fun _ => 0x7FC00000
  rw [ended] at aborted
  cases aborted

end AesOnGpu.Ptx.SpacePredicates
