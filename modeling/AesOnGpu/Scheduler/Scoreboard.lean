import AesOnGpu.Lib.FinLiterals

/-! # The scoreboard

`Scoreboard` of `gpgpu-sim/scoreboard.cc`, and the runs in which an instruction is issued when it
has no collision and its registers are released when it is done.

`none` is the `abort` for a register that is reserved already.
-/

namespace AesOnGpu.Scheduler

/-- The memory spaces, `_memory_space_t`. -/
inductive MemorySpaceType where
  | undefined_space
  | reg_space
  | local_space
  | shared_space
  | param_space_unclassified
  | param_space_kernel
  | param_space_local
  | const_space
  | tex_space
  | surf_space
  | global_space
  | generic_space
  | instruction_space
  deriving DecidableEq

/-- What the scoreboard reads of a `warp_inst_t`; the registers that it reads are in `sources`,
    which is `in`. -/
structure WarpInst (n_warps : Nat) where
  warp_id : Fin n_warps
  out : Fin 4 → Nat
  sources : Fin 4 → Nat
  pred : Int
  ar1 : Int
  ar2 : Int
  is_load : Bool
  space : MemorySpaceType

structure Scoreboard (n_warps : Nat) where
  reg_table : Fin n_warps → Finset Nat
  longopregs : Fin n_warps → Finset Nat

namespace Scoreboard

variable {n_warps : Nat}

def new (n_warps : Nat) : Scoreboard n_warps := ⟨fun _ => ∅, fun _ => ∅⟩

def setTable (s : Scoreboard n_warps) (wid : Fin n_warps) (regs : Finset Nat) :
    Scoreboard n_warps :=
  { s with reg_table := Function.update s.reg_table wid regs }

def setLongops (s : Scoreboard n_warps) (wid : Fin n_warps) (regs : Finset Nat) :
    Scoreboard n_warps :=
  { s with longopregs := Function.update s.longopregs wid regs }

@[simp] theorem setTable_self (s : Scoreboard n_warps) (wid : Fin n_warps) (regs : Finset Nat) :
    (s.setTable wid regs).reg_table wid = regs :=
  Function.update_self _ _ _

@[simp] theorem setTable_of_ne (s : Scoreboard n_warps) {wid w : Fin n_warps} (regs : Finset Nat)
    (other : w ≠ wid) : (s.setTable wid regs).reg_table w = s.reg_table w :=
  Function.update_of_ne other _ _

def reserveRegister (wid : Fin n_warps) (s : Scoreboard n_warps) (regnum : Nat) :
    Option (Scoreboard n_warps) :=
  if regnum ∈ s.reg_table wid then none
  else some (s.setTable wid (insert regnum (s.reg_table wid)))

def releaseRegister (wid : Fin n_warps) (s : Scoreboard n_warps) (regnum : Nat) :
    Scoreboard n_warps :=
  if regnum ∉ s.reg_table wid then s
  else s.setTable wid ((s.reg_table wid).erase regnum)

def islongop (s : Scoreboard n_warps) (warp_id : Fin n_warps) (regnum : Nat) : Bool :=
  regnum ∈ s.longopregs warp_id

/-- The spaces whose loads are long operations. -/
def isLongSpace (space : MemorySpaceType) : Bool :=
  space = .global_space ∨ space = .local_space ∨ space = .param_space_kernel ∨
    space = .param_space_local ∨ space = .param_space_unclassified ∨ space = .tex_space

def markLongop (inst : WarpInst n_warps) (s : Scoreboard n_warps) (r : Fin 4) :
    Scoreboard n_warps :=
  if inst.out r > 0 then
    s.setLongops inst.warp_id (insert (inst.out r) (s.longopregs inst.warp_id))
  else s

def reserveRegisters (s : Scoreboard n_warps) (inst : WarpInst n_warps) :
    Option (Scoreboard n_warps) := do
  let s ← (List.finRange 4).foldlM (fun s r =>
    if inst.out r > 0 then s.reserveRegister inst.warp_id (inst.out r) else some s) s
  if inst.is_load && isLongSpace inst.space then
    return (List.finRange 4).foldl (markLongop inst) s
  else return s

/-- A turn of the loop of `releaseRegisters`. -/
def releaseTurn (wid : Fin n_warps) (s : Scoreboard n_warps) (regnum : Nat) :
    Scoreboard n_warps :=
  let s := s.releaseRegister wid regnum
  s.setLongops wid ((s.longopregs wid).erase regnum)

def releaseRegisters (s : Scoreboard n_warps) (inst : WarpInst n_warps) : Scoreboard n_warps :=
  (List.finRange 4).foldl (fun s r =>
    if inst.out r > 0 then s.releaseTurn inst.warp_id (inst.out r) else s) s

def checkCollision (s : Scoreboard n_warps) (wid : Fin n_warps) (inst : WarpInst n_warps) : Bool :=
  let inst_regs : Finset Nat := ((List.finRange 4).map inst.out ++
    (List.finRange 4).map inst.sources ++
      [inst.pred.toNat, inst.ar1.toNat, inst.ar2.toNat]).toFinset.filter (· > 0)
  (inst_regs ∩ s.reg_table wid).Nonempty

def pendingWrites (s : Scoreboard n_warps) (wid : Fin n_warps) : Bool :=
  s.reg_table wid ≠ ∅

/-! ## Runs -/

/-- An instruction that is in flight, with those of its destination registers that have not been
    released. -/
structure Flight (n_warps : Nat) where
  inst : WarpInst n_warps
  held : Finset Nat

end Scoreboard

/-- The registers of the loops over `out`; 0 is no register. -/
def WarpInst.registers {n_warps : Nat} (inst : WarpInst n_warps) : List Nat :=
  ((List.finRange 4).map inst.out).filter (· > 0)

/-- No destination register is named twice. -/
def WarpInst.DistinctOut {n_warps : Nat} (inst : WarpInst n_warps) : Prop :=
  ∀ r r', inst.out r > 0 → inst.out r = inst.out r' → r = r'

instance {n_warps : Nat} (inst : WarpInst n_warps) : Decidable inst.DistinctOut :=
  inferInstanceAs (Decidable (∀ _ _, _ → _ → _))

namespace Scoreboard

variable {n_warps : Nat}

/-- Runs in which an instruction is issued only without a collision.  Its registers are released
    together, or one after the other by a unit that knows which are left. -/
inductive Reaches : Scoreboard n_warps → Multiset (Flight n_warps) → Prop
  | new : Reaches (new n_warps) 0
  | issue {s s' flights} (inst : WarpInst n_warps) : Reaches s flights →
      s.checkCollision inst.warp_id inst = false → s.reserveRegisters inst = some s' →
      Reaches s' (⟨inst, inst.registers.toFinset⟩ ::ₘ flights)
  | complete {s flights} {inst : WarpInst n_warps} :
      Reaches s (⟨inst, inst.registers.toFinset⟩ ::ₘ flights) →
      Reaches (s.releaseRegisters inst) flights
  | release {s flights} {inst : WarpInst n_warps} {held : Finset Nat} {regnum : Nat} :
      Reaches s (⟨inst, held⟩ ::ₘ flights) → regnum ∈ held →
      Reaches (s.releaseRegister inst.warp_id regnum) (⟨inst, held.erase regnum⟩ ::ₘ flights)
  | finish {s flights} {inst : WarpInst n_warps} :
      Reaches s (⟨inst, ∅⟩ ::ₘ flights) → Reaches s flights

/-! ## What an instruction does to the table -/

theorem foldl_registers {σ : Type} (out : Fin 4 → Nat) (next : σ → Nat → σ) (rs : List (Fin 4))
    (state : σ) :
    rs.foldl (fun state r => if out r > 0 then next state (out r) else state) state =
      ((rs.map out).filter (· > 0)).foldl next state := by
  induction rs generalizing state with
  | nil => rfl
  | cons r rs ih =>
    rw [List.foldl_cons, ih]
    by_cases positive : out r > 0 <;> simp [positive]

theorem foldlM_registers {σ : Type} (out : Fin 4 → Nat) (next : σ → Nat → Option σ)
    (rs : List (Fin 4)) (state : σ) :
    rs.foldlM (fun state r => if out r > 0 then next state (out r) else some state) state =
      ((rs.map out).filter (· > 0)).foldlM next state := by
  induction rs generalizing state with
  | nil => rfl
  | cons r rs ih =>
    rw [List.foldlM_cons]
    by_cases positive : out r > 0
    · simp only [positive, if_true, List.map_cons, decide_true, List.filter_cons_of_pos,
        List.foldlM_cons]
      exact bind_congr fun state => ih state
    · simp [positive, ih]

variable {s s' : Scoreboard n_warps} {wid : Fin n_warps} {inst : WarpInst n_warps}

theorem reserve_list_isSome (regs : List Nat) :
    (regs.foldlM (reserveRegister wid) s).isSome ↔
      regs.Nodup ∧ ∀ regnum ∈ regs, regnum ∉ s.reg_table wid := by
  induction regs generalizing s with
  | nil => simp
  | cons regnum regs ih =>
    rw [List.foldlM_cons, reserveRegister]
    by_cases reserved : regnum ∈ s.reg_table wid
    · simp [reserved]
    · simp only [reserved, if_false, Option.bind_eq_bind, Option.bind_some, ih,
        setTable_self, Finset.mem_insert, not_or, List.nodup_cons, List.mem_cons,
        forall_eq_or_imp, not_false_eq_true, true_and]
      constructor
      · intro ok
        exact ⟨⟨fun here => (ok.2 regnum here).1 rfl, ok.1⟩, fun r here => (ok.2 r here).2⟩
      · intro ok
        exact ⟨ok.1.2, fun r here => ⟨fun same => ok.1.1 (same ▸ here), ok.2 r here⟩⟩

theorem reserve_list_table {regs : List Nat} (run : regs.foldlM (reserveRegister wid) s = some s')
    (w : Fin n_warps) (r : Nat) :
    r ∈ s'.reg_table w ↔ r ∈ s.reg_table w ∨ w = wid ∧ r ∈ regs := by
  induction regs generalizing s with
  | nil =>
    obtain rfl := Option.some.inj run
    simp
  | cons regnum regs ih =>
    rw [List.foldlM_cons, reserveRegister] at run
    by_cases reserved : regnum ∈ s.reg_table wid
    · simp [reserved] at run
    · simp only [reserved, if_false, Option.bind_eq_bind, Option.bind_some] at run
      rw [ih run]
      by_cases here : w = wid
      · subst here
        simp only [setTable_self, Finset.mem_insert, List.mem_cons, true_and]
        tauto
      · simp [here]

theorem markLongop_table (rs : List (Fin 4)) :
    (rs.foldl (markLongop inst) s).reg_table = s.reg_table := by
  induction rs generalizing s with
  | nil => rfl
  | cons r rs ih =>
    rw [List.foldl_cons, ih, markLongop]
    split <;> rfl

theorem reserveRegisters_eq :
    ∃ mark : Scoreboard n_warps → Scoreboard n_warps,
      (∀ s, (mark s).reg_table = s.reg_table) ∧
      s.reserveRegisters inst = (inst.registers.foldlM (reserveRegister inst.warp_id) s).map mark := by
  refine ⟨fun s => if inst.is_load && isLongSpace inst.space then
    (List.finRange 4).foldl (markLongop inst) s else s, fun s => ?_, ?_⟩
  · dsimp only
    split
    · exact markLongop_table _
    · rfl
  · rw [reserveRegisters, foldlM_registers inst.out (reserveRegister inst.warp_id),
      WarpInst.registers]
    cases (((List.finRange 4).map inst.out).filter (· > 0)).foldlM
        (reserveRegister inst.warp_id) s with
    | none => rfl
    | some reserved =>
      simp only [Option.bind_eq_bind, Option.bind_some, Option.map_some]
      split <;> rfl

theorem mem_registers {r : Nat} : r ∈ inst.registers ↔ r > 0 ∧ ∃ i, inst.out i = r := by
  simp [WarpInst.registers, and_comm]

theorem nodup_registers_iff : inst.registers.Nodup ↔ inst.DistinctOut := by
  rw [WarpInst.registers, List.filter_map]
  constructor
  · intro nodup r r' positive same
    have inside : ∀ i, inst.out i > 0 →
        i ∈ (List.finRange 4).filter ((fun x => decide (x > 0)) ∘ inst.out) := by
      intro i positive
      simpa using positive
    exact List.inj_on_of_nodup_map nodup (inside r positive) (inside r' (same ▸ positive)) same
  · intro distinct
    refine List.Nodup.map_on (fun r here r' _ same => ?_) ((List.nodup_finRange 4).filter _)
    exact distinct r r' (by simpa using here) same

theorem mem_releaseRegister (regnum : Nat) (w : Fin n_warps) (r : Nat) :
    r ∈ (s.releaseRegister wid regnum).reg_table w ↔
      r ∈ s.reg_table w ∧ ¬(w = wid ∧ r = regnum) := by
  rw [releaseRegister]
  by_cases here : w = wid
  · subst here
    by_cases reserved : regnum ∈ s.reg_table w
    · simp [reserved, and_comm]
    · simp only [reserved, not_false_eq_true, if_true, true_and]
      exact ⟨fun inside => ⟨inside, fun same => reserved (same ▸ inside)⟩, And.left⟩
  · by_cases reserved : regnum ∈ s.reg_table wid <;> simp [reserved, here]

theorem release_list_table (regs : List Nat) (w : Fin n_warps) (r : Nat) :
    r ∈ (regs.foldl (releaseTurn wid) s).reg_table w ↔
      r ∈ s.reg_table w ∧ ¬(w = wid ∧ r ∈ regs) := by
  induction regs generalizing s with
  | nil => simp
  | cons regnum regs ih =>
    rw [List.foldl_cons, ih]
    have first : r ∈ (s.releaseTurn wid regnum).reg_table w ↔ _ := mem_releaseRegister regnum w r
    rw [first, List.mem_cons]
    tauto

theorem mem_releaseRegisters (w : Fin n_warps) (r : Nat) :
    r ∈ (s.releaseRegisters inst).reg_table w ↔
      r ∈ s.reg_table w ∧ ¬(w = inst.warp_id ∧ r ∈ inst.registers) := by
  rw [releaseRegisters, foldl_registers inst.out (releaseTurn inst.warp_id)]
  exact release_list_table _ w r

theorem mem_reserveRegisters (run : s.reserveRegisters inst = some s') (w : Fin n_warps) (r : Nat) :
    r ∈ s'.reg_table w ↔ r ∈ s.reg_table w ∨ w = inst.warp_id ∧ r ∈ inst.registers := by
  obtain ⟨mark, unchanged, eq⟩ := @reserveRegisters_eq n_warps s inst
  rw [eq] at run
  obtain ⟨reserved, each, rfl⟩ := Option.map_eq_some_iff.mp run
  rw [unchanged]
  exact reserve_list_table each w r

theorem free_of_checkCollision (clear : s.checkCollision inst.warp_id inst = false) :
    ∀ regnum ∈ inst.registers, regnum ∉ s.reg_table inst.warp_id := by
  intro regnum here reserved
  rw [mem_registers] at here
  obtain ⟨positive, i, rfl⟩ := here
  rw [checkCollision, decide_eq_false_iff_not, Finset.not_nonempty_iff_eq_empty] at clear
  have outside := Finset.eq_empty_iff_forall_notMem.mp clear (inst.out i)
  simp [reserved, positive] at outside

theorem reserveRegisters_isSome (clear : s.checkCollision inst.warp_id inst = false) :
    (s.reserveRegisters inst).isSome ↔ inst.DistinctOut := by
  obtain ⟨mark, -, eq⟩ := @reserveRegisters_eq n_warps s inst
  rw [eq, Option.isSome_map, reserve_list_isSome, nodup_registers_iff]
  exact and_iff_left (free_of_checkCollision clear)

/-! ## The invariant -/

def Flight.Holds (w : Fin n_warps) (r : Nat) (flight : Flight n_warps) : Prop :=
  flight.inst.warp_id = w ∧ r ∈ flight.held

instance (w : Fin n_warps) (r : Nat) : DecidablePred (Flight.Holds w r) :=
  fun _ => inferInstanceAs (Decidable (_ ∧ _))

/-- A register is held by one flight when it is reserved, and by none when it is not. -/
def Exact (s : Scoreboard n_warps) (flights : Multiset (Flight n_warps)) : Prop :=
  ∀ w r, flights.countP (Flight.Holds w r) = if r ∈ s.reg_table w then 1 else 0

variable {flights : Multiset (Flight n_warps)}

theorem Exact.issue (exact : Exact s flights)
    (clear : s.checkCollision inst.warp_id inst = false) (run : s.reserveRegisters inst = some s') :
    Exact s' (⟨inst, inst.registers.toFinset⟩ ::ₘ flights) := by
  intro w r
  have before := exact w r
  have after := mem_reserveRegisters run w r
  have free := free_of_checkCollision clear
  rw [Multiset.countP_cons, before]
  by_cases here : inst.warp_id = w ∧ r ∈ inst.registers
  · obtain ⟨rfl, inside⟩ := here
    simp [Flight.Holds, inside, after, free r inside]
  · have elsewhere : ¬(w = inst.warp_id ∧ r ∈ inst.registers) := fun h => here ⟨h.1.symm, h.2⟩
    simp [Flight.Holds, here, elsewhere, after]

theorem Exact.giveBack {held kept : Finset Nat} {back : Nat → Prop}
    (exact : Exact s (⟨inst, held⟩ ::ₘ flights)) (all : ∀ r, r ∈ held ↔ r ∈ kept ∨ back r)
    (apart : ∀ r, r ∈ kept → ¬ back r)
    (after : ∀ w r, r ∈ s'.reg_table w ↔ r ∈ s.reg_table w ∧ ¬(w = inst.warp_id ∧ back r)) :
    Exact s' (⟨inst, kept⟩ ::ₘ flights) := by
  intro w r
  have before := exact w r
  rw [Multiset.countP_cons] at before ⊢
  by_cases here : inst.warp_id = w ∧ back r
  · obtain ⟨rfl, given⟩ := here
    have notKept : r ∉ kept := fun inside => apart r inside given
    have wasHeld : r ∈ held := (all r).mpr (Or.inr given)
    rw [if_pos (show Flight.Holds inst.warp_id r ⟨inst, held⟩ from ⟨rfl, wasHeld⟩)] at before
    have alone : flights.countP (Flight.Holds inst.warp_id r) = 0 := by
      split at before <;> omega
    simp [Flight.Holds, notKept, after, given, alone]
  · have elsewhere : ¬(w = inst.warp_id ∧ back r) := fun h => here ⟨h.1.symm, h.2⟩
    have same : r ∈ s'.reg_table w ↔ r ∈ s.reg_table w := by simp [after, elsewhere]
    have sameHeld : Flight.Holds w r ⟨inst, held⟩ ↔ Flight.Holds w r ⟨inst, kept⟩ := by
      simp only [Flight.Holds, all]
      tauto
    simpa only [same, sameHeld] using before

theorem exact_drop (empty : Exact s (⟨inst, ∅⟩ ::ₘ flights)) : Exact s flights := by
  intro w r
  have before := empty w r
  rw [Multiset.countP_cons] at before
  simpa [Flight.Holds] using before

theorem exact_of_reaches (reaches : Reaches s flights) : Exact s flights := by
  induction reaches with
  | new =>
    intro w r
    simp [new]
  | issue inst _ clear run exact => exact exact.issue clear run
  | complete _ exact =>
    refine exact_drop (exact.giveBack (fun r => ?_) (fun r inside => ?_) mem_releaseRegisters)
    · simp
    · cases inside
  | @release _ _ _ _ regnum _ here exact =>
    refine exact.giveBack (fun r => ?_) (fun r inside => ?_) (mem_releaseRegister _)
    · by_cases same : r = regnum
      · simp [same, here]
      · simp [same]
    · exact (Finset.mem_erase.mp inside).1
  | finish _ exact => exact exact_drop exact

/-- The registers reserved for a warp are those that its instructions in flight hold; none is
    when none of them is in flight; and an instruction without a collision is reserved without an
    abort exactly when it does not name a destination twice. -/
theorem scoreboard_exact (reaches : Reaches s flights) :
    (∀ w r, r ∈ s.reg_table w ↔ ∃ flight ∈ flights, flight.inst.warp_id = w ∧ r ∈ flight.held) ∧
      (∀ w, (∀ flight ∈ flights, flight.inst.warp_id ≠ w) → s.reg_table w = ∅) ∧
      ∀ inst, s.checkCollision inst.warp_id inst = false →
        ((s.reserveRegisters inst).isSome ↔ inst.DistinctOut) := by
  have exact := exact_of_reaches reaches
  have reserved : ∀ w r, r ∈ s.reg_table w ↔
      ∃ flight ∈ flights, flight.inst.warp_id = w ∧ r ∈ flight.held := by
    intro w r
    have counted := @Multiset.countP_pos _ (Flight.Holds w r) _ flights
    rw [exact w r] at counted
    refine Iff.trans ?_ counted
    split <;> simp_all
  refine ⟨reserved, fun w none => ?_, fun inst => reserveRegisters_isSome⟩
  apply Finset.eq_empty_iff_forall_notMem.mpr
  intro r inside
  obtain ⟨flight, here, same, -⟩ := (reserved w r).mp inside
  exact none flight here same

/-- A load of register 5 that is on its way. -/
theorem scoreboard_exact_load :
    let inst : WarpInst 1 := ⟨0, ![5, 0, 0, 0], ![6, 0, 0, 0], 0, 0, 0, true, .global_space⟩
    ∃ s, (new 1).reserveRegisters inst = some s ∧ ∀ w r, r ∈ s.reg_table w ↔
      ∃ flight ∈ ({⟨inst, inst.registers.toFinset⟩} : Multiset (Flight 1)),
        flight.inst.warp_id = w ∧ r ∈ flight.held := by
  intro inst
  have clear : (new 1).checkCollision inst.warp_id inst = false := by decide
  obtain ⟨s, run⟩ := Option.isSome_iff_exists.mp
    ((reserveRegisters_isSome clear).mpr (by decide))
  exact ⟨s, run, (scoreboard_exact (.issue inst .new clear run)).1⟩

/-- A vector load that names its destination twice: the first reservation makes the second one
    abort. -/
theorem double_destination_aborts : ¬ ∀ (n_warps : Nat) (s : Scoreboard n_warps)
    (flights : Multiset (Flight n_warps)), Reaches s flights → ∀ inst : WarpInst n_warps,
      s.checkCollision inst.warp_id inst = false → (s.reserveRegisters inst).isSome := by
  intro never
  have reserved := never 1 (new 1) 0 .new
    ⟨0, ![5, 5, 0, 0], ![6, 0, 0, 0], 0, 0, 0, true, .global_space⟩ (by decide)
  cases reserved

end Scoreboard
end AesOnGpu.Scheduler
