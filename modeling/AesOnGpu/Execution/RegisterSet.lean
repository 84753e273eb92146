import Mathlib

/-! # Pipeline registers

`register_set` of `abstract_hardware_model.h` and `move_warp` of `abstract_hardware_model.cc`.  A
register that is empty is `none`; an outer `none` is a failed assertion or a dereferenced NULL.
-/

namespace AesOnGpu.Execution

/-- `uarch_op_t`. -/
inductive UarchOp where
  | NO_OP
  | ALU_OP
  | SFU_OP
  | ALU_SFU_OP
  | LOAD_OP
  | STORE_OP
  | BRANCH_OP
  | BARRIER_OP
  | MEMORY_BARRIER_OP
  | CALL_OPS
  | RET_OPS
  deriving DecidableEq

/-- What the pipelines read of a `warp_inst_t`.  `cycles` is the countdown in the dispatch
    register. -/
structure WarpInst where
  m_uid : Nat
  op : UarchOp
  latency : Nat
  initiation_interval : Nat
  cycles : Nat
  deriving DecidableEq

abbrev Reg := Option WarpInst

/-- The destination and the source, after a move that needs an empty destination. -/
def move_warp (dst src : Reg) : Option (Reg × Reg) :=
  match dst with
  | none => some (src, none)
  | some _ => none

abbrev RegisterSet := List Reg

namespace RegisterSet

variable (regs : RegisterSet)

def new (num : Nat) : RegisterSet := List.replicate num none

def has_free : Bool := regs.any Option.isNone

def has_ready : Bool := regs.any Option.isSome

/-- The first empty register. -/
def get_free : Option Nat := regs.findIdx? Option.isNone

/-- A turn of the loop of `get_ready`: the register stays the ready one if it is the older. -/
def olderReady (ready : Option (Nat × WarpInst)) (i : Nat) (reg : Reg) : Option (Nat × WarpInst) :=
  match reg, ready with
  | none, ready => ready
  | some inst, none => some (i, inst)
  | some inst, some oldest => if oldest.2.m_uid < inst.m_uid then some oldest else some (i, inst)

/-- The oldest instruction, with its register. -/
def get_ready : Option (Nat × WarpInst) :=
  regs.zipIdx.foldl (fun ready (reg, i) => olderReady ready i reg) none

def move_in (src : Reg) : Option (RegisterSet × Reg) := do
  let free ← regs.get_free
  let (dst, src) ← move_warp (regs.getD free none) src
  return (regs.set free dst, src)

def move_out_to (dest : Reg) : Option (RegisterSet × Reg) := do
  let (ready, inst) ← regs.get_ready
  let (dest, src) ← move_warp dest (some inst)
  return (regs.set ready src, dest)

/-- The instructions in the registers. -/
def insts : List WarpInst := regs.reduceOption

/-! ## Moves -/

variable {regs}

theorem insts_set {i : Nat} {inst : WarpInst} (empty : regs[i]? = some none) :
    List.Perm (insts (regs.set i (some inst))) (inst :: insts regs) := by
  induction regs generalizing i with
  | nil => simp at empty
  | cons reg regs ih =>
    cases i with
    | zero =>
      obtain rfl : reg = none := by simpa using empty
      exact List.Perm.refl _
    | succ i =>
      have rest := ih (by simpa using empty)
      cases reg with
      | none => exact rest
      | some other => exact (rest.cons other).trans (List.Perm.swap inst other _)

theorem get_free_isSome (free : regs.insts.length < regs.length) : regs.get_free.isSome := by
  rw [get_free, List.findIdx?_isSome, List.any_eq_true]
  by_contra full
  have every : regs.insts.length = regs.length := List.reduceOption_length_eq_iff.mpr
    fun reg inside => Option.isSome_iff_ne_none.mpr fun none => full ⟨reg, inside, by simp [none]⟩
  omega

theorem move_in_spec (inst : WarpInst) (free : regs.insts.length < regs.length) :
    ∃ regs', regs.move_in (some inst) = some (regs', none) ∧ regs'.length = regs.length ∧
      List.Perm regs'.insts (inst :: regs.insts) := by
  obtain ⟨i, found⟩ := Option.isSome_iff_exists.mp (get_free_isSome free)
  obtain ⟨inside, empty, -⟩ := List.findIdx?_eq_some_iff_getElem.mp found
  have atIndex : regs[i]? = some none := by
    rw [List.getElem?_eq_getElem inside, Option.isNone_iff_eq_none.mp empty]
  refine ⟨regs.set i (some inst), ?_, List.length_set, insts_set atIndex⟩
  rw [move_in, found]
  simp [List.getD_eq_getElem?_getD, atIndex, move_warp]

theorem move_in_of_has_free (inst : WarpInst) (free : regs.has_free = true) :
    ∃ regs', regs.move_in (some inst) = some (regs', none) ∧
      List.Perm regs'.insts (inst :: regs.insts) := by
  have fewer : regs.insts.length < regs.length := by
    refine lt_of_le_of_ne (List.reduceOption_length_le regs) fun every => ?_
    obtain ⟨reg, inside, empty⟩ := List.any_eq_true.mp free
    have filled := List.reduceOption_length_eq_iff.mp every reg inside
    rw [Option.isNone_iff_eq_none.mp empty] at filled
    cases filled
  obtain ⟨regs', moved, _, perm⟩ := move_in_spec inst fewer
  exact ⟨regs', moved, perm⟩

theorem mem_insts_move_in {regs' : RegisterSet} {src : Reg} {inst other : WarpInst}
    (moved : regs.move_in (some inst) = some (regs', src)) (inside : other ∈ regs'.insts) :
    other = inst ∨ other ∈ regs.insts := by
  obtain ⟨free, -, moved⟩ := Option.bind_eq_some_iff.mp moved
  obtain ⟨⟨dst, rest⟩, swapped, result⟩ := Option.bind_eq_some_iff.mp moved
  obtain ⟨rfl, -⟩ := Prod.mk.inj (Option.some.inj result)
  have new : dst = some inst := by
    cases empty : regs.getD free none with
    | none =>
      rw [empty] at swapped
      exact (Prod.mk.inj (Option.some.inj swapped)).1.symm
    | some taken =>
      rw [empty] at swapped
      cases swapped
  rcases List.mem_or_eq_of_mem_set (List.reduceOption_mem_iff.mp inside) with older | entered
  · exact .inr (List.reduceOption_mem_iff.mpr older)
  · exact .inl (Option.some.inj (entered.trans new))

theorem foldl_olderReady (found : List (Reg × Nat)) (ready : Option (Nat × WarpInst)) :
    (∀ i inst, found.foldl (fun ready (reg, i) => olderReady ready i reg) ready = some (i, inst) →
      ready = some (i, inst) ∨ (some inst, i) ∈ found) ∧
    (found.foldl (fun ready (reg, i) => olderReady ready i reg) ready = none ↔
      ready = none ∧ ∀ p ∈ found, p.1 = none) := by
  induction found generalizing ready with
  | nil => simp
  | cons p found ih =>
    obtain ⟨reg, i⟩ := p
    rw [List.foldl_cons]
    obtain ⟨ihSome, ihNone⟩ := ih (olderReady ready i reg)
    constructor
    · intro j inst result
      rcases ihSome j inst result with earlier | later
      · cases reg with
        | none => exact .inl earlier
        | some new =>
          cases ready with
          | none =>
            obtain ⟨rfl, rfl⟩ := Prod.mk.inj (Option.some.inj earlier)
            exact .inr List.mem_cons_self
          | some oldest =>
            simp only [olderReady] at earlier
            split at earlier
            · exact .inl earlier
            · obtain ⟨rfl, rfl⟩ := Prod.mk.inj (Option.some.inj earlier)
              exact .inr List.mem_cons_self
      · exact .inr (List.mem_cons_of_mem _ later)
    · rw [ihNone]
      cases reg with
      | none => simp [olderReady]
      | some new =>
        refine iff_of_false (fun none => ?_) (by simp)
        cases ready with
        | none => cases none.1
        | some oldest =>
          have chosen := none.1
          simp only [olderReady] at chosen
          split at chosen <;> cases chosen

theorem get_ready_spec {ready : Nat} {inst : WarpInst}
    (found : regs.get_ready = some (ready, inst)) : regs[ready]? = some (some inst) := by
  rcases (foldl_olderReady regs.zipIdx none).1 ready inst found with none | inside
  · cases none
  · exact List.mk_mem_zipIdx_iff_getElem?.mp inside

theorem get_ready_eq_none_iff : regs.get_ready = none ↔ ∀ reg ∈ regs, reg = none := by
  rw [get_ready, (foldl_olderReady regs.zipIdx none).2]
  simp only [true_and]
  constructor
  · intro empty reg inside
    obtain ⟨i, atIndex⟩ := List.mem_iff_getElem?.mp inside
    exact empty (reg, i) (List.mk_mem_zipIdx_iff_getElem?.mpr atIndex)
  · rintro empty ⟨reg, i⟩ inside
    exact empty reg (List.mem_of_getElem? (List.mk_mem_zipIdx_iff_getElem?.mp inside))

theorem move_out_of_has_ready (ready : regs.has_ready = true) :
    ∃ i inst regs', regs.get_ready = some (i, inst) ∧
      regs.move_out_to none = some (regs', some inst) ∧
      List.Perm regs.insts (inst :: regs'.insts) := by
  cases found : regs.get_ready with
  | none =>
    obtain ⟨reg, inside, filled⟩ := List.any_eq_true.mp ready
    rw [get_ready_eq_none_iff.mp found reg inside] at filled
    cases filled
  | some oldest =>
    obtain ⟨i, inst⟩ := oldest
    have atIndex := get_ready_spec found
    refine ⟨i, inst, regs.set i none, rfl, ?_, ?_⟩
    · rw [move_out_to, found]
      rfl
    · obtain ⟨inside, filled⟩ := List.getElem?_eq_some_iff.mp atIndex
      have emptied : (regs.set i none)[i]? = some none := by
        rw [List.getElem?_set_self inside]
      have perm : List.Perm (insts ((regs.set i none).set i (some inst)))
          (inst :: insts (regs.set i none)) := insts_set emptied
      rwa [List.set_set, ← filled, List.set_getElem_self inside] at perm

end RegisterSet

end AesOnGpu.Execution
