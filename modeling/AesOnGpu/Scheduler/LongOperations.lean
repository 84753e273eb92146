import AesOnGpu.Scheduler.Scoreboard
import AesOnGpu.Scheduler.TwoLevel

/-! # Marks of long operations

`Scoreboard::reserveRegisters` puts the destinations of a long-latency load into `longopregs` as
well.  Three callers release registers: the write-back of the SP and SFU pipes and a load that is
done at dispatch through `releaseRegisters`, which clears both sets; the write-back of the
load/store unit through `releaseRegister`, which leaves the mark.
-/

namespace AesOnGpu.Scheduler

variable {n_warps : Nat}

/-- The loads that `reserveRegisters` marks. -/
def WarpInst.IsLongLoad (inst : WarpInst n_warps) : Prop :=
  (inst.is_load && Scoreboard.isLongSpace inst.space) = true

instance (inst : WarpInst n_warps) : Decidable inst.IsLongLoad :=
  inferInstanceAs (Decidable (_ = true))

namespace Scoreboard

variable {s s' : Scoreboard n_warps} {inst : WarpInst n_warps}

/-! ## What the marks are -/

theorem markLongop_list (rs : List (Fin 4)) (w : Fin n_warps) (r : Nat) :
    r ∈ (rs.foldl (markLongop inst) s).longopregs w ↔
      r ∈ s.longopregs w ∨ w = inst.warp_id ∧ r > 0 ∧ ∃ i ∈ rs, inst.out i = r := by
  induction rs generalizing s with
  | nil => simp
  | cons i rs ih =>
    rw [List.foldl_cons, ih, markLongop]
    by_cases positive : inst.out i > 0
    · by_cases here : w = inst.warp_id
      · subst here
        simp only [positive, if_true, setLongops, Function.update_self, Finset.mem_insert,
          List.exists_mem_cons_iff, true_and]
        constructor
        · intro marked
          obtain (rfl | before) | later := marked
          · exact Or.inr ⟨positive, Or.inl rfl⟩
          · exact Or.inl before
          · exact Or.inr ⟨later.1, Or.inr later.2⟩
        · intro marked
          obtain before | ⟨isReg, rfl | later⟩ := marked
          · exact Or.inl (Or.inr before)
          · exact Or.inl (Or.inl rfl)
          · exact Or.inr ⟨isReg, later⟩
      · simp [positive, setLongops, here]
    · rw [if_neg positive]
      -- A place that is empty names no register.
      have none : ¬ (r > 0 ∧ inst.out i = r) := fun both => positive (both.2 ▸ both.1)
      simp only [List.exists_mem_cons_iff]
      tauto

theorem reserveRegister_longopregs {wid : Fin n_warps} {regnum : Nat}
    (run : s.reserveRegister wid regnum = some s') : s'.longopregs = s.longopregs := by
  rw [reserveRegister] at run
  split at run
  · cases run
  · obtain rfl := Option.some.inj run
    rfl

theorem reserve_list_longopregs {wid : Fin n_warps} {regs : List Nat}
    (run : regs.foldlM (reserveRegister wid) s = some s') : s'.longopregs = s.longopregs := by
  induction regs generalizing s with
  | nil =>
    obtain rfl := Option.some.inj run
    rfl
  | cons regnum regs ih =>
    rw [List.foldlM_cons] at run
    obtain ⟨between, first, rest⟩ := Option.bind_eq_some_iff.mp run
    rw [ih rest, reserveRegister_longopregs first]

theorem mem_longopregs_reserve (run : s.reserveRegisters inst = some s') (w : Fin n_warps)
    (r : Nat) : r ∈ s'.longopregs w ↔
      r ∈ s.longopregs w ∨ inst.IsLongLoad ∧ w = inst.warp_id ∧ r ∈ inst.registers := by
  rw [reserveRegisters, foldlM_registers inst.out (reserveRegister inst.warp_id)] at run
  obtain ⟨reserved, each, marked⟩ := Option.bind_eq_some_iff.mp run
  have same := reserve_list_longopregs each
  have registers : (r > 0 ∧ ∃ i ∈ List.finRange 4, inst.out i = r) ↔ r ∈ inst.registers := by
    rw [mem_registers]
    simp
  rw [WarpInst.IsLongLoad]
  split at marked
  · rename_i long
    obtain rfl := Option.some.inj marked
    rw [markLongop_list, same, registers]
    simp only [long, true_and]
  · rename_i short
    obtain rfl := Option.some.inj marked
    simp only [same, short, Bool.false_eq_true, false_and, or_false]

theorem releaseRegister_longopregs (wid : Fin n_warps) (regnum : Nat) :
    (s.releaseRegister wid regnum).longopregs = s.longopregs := by
  rw [releaseRegister]
  split <;> rfl

theorem release_list_longopregs (wid : Fin n_warps) (regs : List Nat) (w : Fin n_warps) (r : Nat) :
    r ∈ (regs.foldl (releaseTurn wid) s).longopregs w ↔
      r ∈ s.longopregs w ∧ ¬(w = wid ∧ r ∈ regs) := by
  induction regs generalizing s with
  | nil => simp
  | cons regnum regs ih =>
    have first : r ∈ (s.releaseTurn wid regnum).longopregs w ↔
        r ∈ s.longopregs w ∧ ¬(w = wid ∧ r = regnum) := by
      rw [releaseTurn]
      by_cases here : w = wid
      · subst here
        simp [setLongops, releaseRegister_longopregs, and_comm]
      · simp [setLongops, releaseRegister_longopregs, here]
    rw [List.foldl_cons, ih, first, List.mem_cons]
    tauto

theorem mem_longopregs_release (w : Fin n_warps) (r : Nat) :
    r ∈ (s.releaseRegisters inst).longopregs w ↔
      r ∈ s.longopregs w ∧ ¬(w = inst.warp_id ∧ r ∈ inst.registers) := by
  rw [releaseRegisters, foldl_registers inst.out (releaseTurn inst.warp_id)]
  exact release_list_longopregs _ _ w r

theorem Exact.apart {flight other : Flight n_warps} {flights : Multiset (Flight n_warps)}
    (exact : Exact s (flight ::ₘ flights)) {w : Fin n_warps} {r : Nat}
    (holds : Flight.Holds w r flight) (present : other ∈ flights) : ¬ Flight.Holds w r other := by
  intro holds'
  have counted := exact w r
  have again : 0 < flights.countP (Flight.Holds w r) :=
    Multiset.countP_pos.mpr ⟨other, present, holds'⟩
  rw [Multiset.countP_cons, if_pos holds] at counted
  split at counted <;> omega

end Scoreboard

/-! ## Runs of a core -/

open Scoreboard (Flight Reaches Exact)

structure Core (n_warps : Nat) where
  scoreboard : Scoreboard n_warps
  flights : Multiset (Flight n_warps)

namespace Core

def new (n_warps : Nat) : Core n_warps := ⟨.new n_warps, 0⟩

inductive Event (n_warps : Nat) where
  | issue_warp (inst : WarpInst n_warps)
  /-- `shader_core_ctx::writeback` of what leaves an SP or SFU pipe. -/
  | writeback (inst : WarpInst n_warps)
  /-- `ldst_unit::cycle` of a load without a pending request. -/
  | dispatched (inst : WarpInst n_warps)
  /-- A turn of the loop of `ldst_unit::writeback` in which no access is left. -/
  | ldst_writeback (inst : WarpInst n_warps) (regnum : Nat)
  | finish (inst : WarpInst n_warps)

inductive Step : Core n_warps → Event n_warps → Core n_warps → Prop
  | issue_warp {s s' flights} (inst : WarpInst n_warps) :
      s.checkCollision inst.warp_id inst = false → s.reserveRegisters inst = some s' →
      Step ⟨s, flights⟩ (.issue_warp inst) ⟨s', ⟨inst, inst.registers.toFinset⟩ ::ₘ flights⟩
  | writeback {s flights} (inst : WarpInst n_warps) :
      Step ⟨s, ⟨inst, inst.registers.toFinset⟩ ::ₘ flights⟩ (.writeback inst)
        ⟨s.releaseRegisters inst, flights⟩
  | dispatched {s flights} (inst : WarpInst n_warps) :
      Step ⟨s, ⟨inst, inst.registers.toFinset⟩ ::ₘ flights⟩ (.dispatched inst)
        ⟨s.releaseRegisters inst, flights⟩
  | ldst_writeback {s flights held regnum} (inst : WarpInst n_warps) : regnum ∈ held →
      Step ⟨s, ⟨inst, held⟩ ::ₘ flights⟩ (.ldst_writeback inst regnum)
        ⟨s.releaseRegister inst.warp_id regnum, ⟨inst, held.erase regnum⟩ ::ₘ flights⟩
  | finish {s flights} (inst : WarpInst n_warps) :
      Step ⟨s, ⟨inst, ∅⟩ ::ₘ flights⟩ (.finish inst) ⟨s, flights⟩

inductive Run : Core n_warps → List (Event n_warps × Core n_warps) → Prop
  | nil (core : Core n_warps) : Run core []
  | cons {core core' e rest} : Step core e core' → Run core' rest → Run core ((e, core') :: rest)

/-- The load/store unit writes a long-latency load back. -/
def Event.LeavesMark : Event n_warps → Prop
  | ldst_writeback inst _ => inst.IsLongLoad
  | _ => False

def Waits (core : Core n_warps) (w : Fin n_warps) (r : Nat) : Prop :=
  ∃ flight ∈ core.flights, flight.inst.IsLongLoad ∧ Flight.Holds w r flight

def Sees (core : Core n_warps) (now : Cycle) : Prop :=
  ∀ (w : Fin n_warps) r, now.islongop w r = core.scoreboard.islongop w r

/-- The marks are the registers that long-latency loads have yet to write, so that a warp that is
    not waiting is demoted for a source that is one of these. -/
structure MarksRight (core : Core n_warps) : Prop where
  marks : ∀ w r, core.scoreboard.islongop w r = true ↔ core.Waits w r
  demotes : ∀ now, core.Sees now → ∀ w : Fin n_warps, TwoLevel.stalled now w = true →
    now.waiting w = false →
      ∃ source, now.ibuffer_next_inst w = some source ∧ ∃ i, source i > 0 ∧ core.Waits w (source i)

/-! ## The marks in a run -/

variable {core core' : Core n_warps} {e : Event n_warps}

theorem Step.reaches (step : Step core e core') (reaches : Reaches core.scoreboard core.flights) :
    Reaches core'.scoreboard core'.flights := by
  cases step with
  | issue_warp inst clear run => exact .issue inst reaches clear run
  | writeback inst => exact .complete reaches
  | dispatched inst => exact .complete reaches
  | ldst_writeback inst here => exact .release reaches here
  | finish inst => exact .finish reaches

def Marked (core : Core n_warps) : Prop :=
  ∀ w r, r ∈ core.scoreboard.longopregs w ↔ core.Waits w r

theorem waits_cons {s : Scoreboard n_warps} {flight : Flight n_warps}
    {flights : Multiset (Flight n_warps)} {w : Fin n_warps} {r : Nat} :
    Waits ⟨s, flight ::ₘ flights⟩ w r ↔
      flight.inst.IsLongLoad ∧ Flight.Holds w r flight ∨ Waits ⟨s, flights⟩ w r := by
  simp only [Waits, Multiset.mem_cons, exists_eq_or_imp]

theorem marked_complete {s : Scoreboard n_warps} {inst : WarpInst n_warps}
    {flights : Multiset (Flight n_warps)}
    (exact : Exact s (⟨inst, inst.registers.toFinset⟩ ::ₘ flights))
    (marked : Marked ⟨s, ⟨inst, inst.registers.toFinset⟩ ::ₘ flights⟩) :
    Marked ⟨s.releaseRegisters inst, flights⟩ := by
  intro w r
  have before := marked w r
  rw [waits_cons] at before
  show r ∈ (s.releaseRegisters inst).longopregs w ↔ Waits ⟨s, flights⟩ w r
  rw [Scoreboard.mem_longopregs_release, before]
  by_cases own : w = inst.warp_id ∧ r ∈ inst.registers
  · have holds : Flight.Holds w r ⟨inst, inst.registers.toFinset⟩ :=
      ⟨own.1.symm, List.mem_toFinset.mpr own.2⟩
    -- The register was reserved once, so that no other load waits for it.
    refine iff_of_false (fun both => both.2 own) fun waits => ?_
    obtain ⟨other, present, -, holds'⟩ := waits
    exact exact.apart holds present holds'
  · have free : ¬ Flight.Holds w r ⟨inst, inst.registers.toFinset⟩ := fun holds =>
      own ⟨holds.1.symm, List.mem_toFinset.mp holds.2⟩
    simp only [own, free, and_false, false_or, not_false_eq_true, and_true]

theorem Step.marked (step : Step core e core') (clears : ¬ e.LeavesMark)
    (reaches : Reaches core.scoreboard core.flights) (marked : core.Marked) : core'.Marked := by
  have exact := Scoreboard.exact_of_reaches reaches
  cases step with
  | issue_warp inst clear run =>
    intro w r
    rw [waits_cons, or_comm]
    refine (Scoreboard.mem_longopregs_reserve run w r).trans (or_congr (marked w r) ?_)
    simp only [Flight.Holds, List.mem_toFinset, eq_comm]
  | writeback inst => exact marked_complete exact marked
  | dispatched inst => exact marked_complete exact marked
  | ldst_writeback inst here =>
    intro w r
    have before := marked w r
    -- It neither has marks nor is it waited for.
    have short : ¬ inst.IsLongLoad := clears
    simp only [waits_cons, short, false_and, false_or] at before ⊢
    rw [Scoreboard.releaseRegister_longopregs]
    exact before
  | finish inst =>
    intro w r
    have before := marked w r
    have none : ¬ Flight.Holds w r ⟨inst, ∅⟩ := fun holds => Finset.notMem_empty r holds.2
    simp only [waits_cons, none, and_false, false_or] at before
    exact before

theorem Step.not_marked (step : Step core e core') (leaves : e.LeavesMark)
    (reaches : Reaches core.scoreboard core.flights) (marked : core.Marked) : ¬ core'.Marked := by
  have exact := Scoreboard.exact_of_reaches reaches
  cases step with
  | issue_warp inst | writeback inst | dispatched inst | finish inst => exact leaves.elim
  | @ldst_writeback s flights held regnum inst here =>
    intro after
    have holds : Flight.Holds inst.warp_id regnum ⟨inst, held⟩ := ⟨rfl, here⟩
    have stays := (marked inst.warp_id regnum).mpr (waits_cons.mpr (Or.inl ⟨leaves, holds⟩))
    rw [← Scoreboard.releaseRegister_longopregs inst.warp_id regnum] at stays
    obtain released | waits := waits_cons.mp ((after inst.warp_id regnum).mp stays)
    · exact Finset.notMem_erase regnum held released.2.2
    · obtain ⟨other, present, -, holds'⟩ := waits
      exact exact.apart holds present holds'

theorem stalled_elim {now : Cycle} {warp_id : Nat} (stalled : TwoLevel.stalled now warp_id = true)
    (active : now.waiting warp_id = false) :
    ∃ source, now.ibuffer_next_inst warp_id = some source ∧
      ∃ i, source i > 0 ∧ now.islongop warp_id (source i) = true := by
  rw [TwoLevel.stalled, active] at stalled
  cases next : now.ibuffer_next_inst warp_id with
  | none => simp [next] at stalled
  | some source =>
    refine ⟨source, rfl, ?_⟩
    by_contra none
    push Not at none
    simp only [next] at stalled
    -- Without such a source no turn of the loop sets `waiting`.
    have same : ∀ rs : List (Fin 4), rs.foldl (fun waiting i =>
        if source i > 0 ∧ now.islongop warp_id (source i) then true else waiting) false =
          false := by
      intro rs
      induction rs with
      | nil => rfl
      | cons i rs ih =>
        rw [List.foldl_cons, if_neg fun both => none i both.1 both.2]
        exact ih
    rw [same] at stalled
    cases stalled

theorem marksRight_iff : core.MarksRight ↔ core.Marked := by
  constructor
  · intro right w r
    have marks := right.marks w r
    rwa [Scoreboard.islongop, decide_eq_true_eq] at marks
  · intro marked
    have marks : ∀ w r, core.scoreboard.islongop w r = true ↔ core.Waits w r := by
      intro w r
      rw [Scoreboard.islongop, decide_eq_true_eq]
      exact marked w r
    refine ⟨marks, fun now sees w stalled active => ?_⟩
    obtain ⟨source, next, i, positive, long⟩ := stalled_elim stalled active
    rw [sees w (source i)] at long
    exact ⟨source, next, i, positive, (marks w _).mp long⟩

theorem run_marked_iff {trace : List (Event n_warps × Core n_warps)} (run : Run core trace)
    (reaches : Reaches core.scoreboard core.flights) (marked : core.Marked) :
    (∀ step ∈ trace, step.2.Marked) ↔ ∀ step ∈ trace, ¬ step.1.LeavesMark := by
  induction run with
  | nil core => simp
  | @cons core core' e rest step _ ih =>
    rw [List.forall_mem_cons, List.forall_mem_cons]
    constructor
    · intro all
      -- The marks are right before the step, so that the step itself is to blame.
      have clears : ¬ e.LeavesMark := fun leaves => step.not_marked leaves reaches marked all.1
      exact ⟨clears, (ih (step.reaches reaches) all.1).mp all.2⟩
    · intro clears
      have after := step.marked clears.1 reaches marked
      exact ⟨after, (ih (step.reaches reaches) after).mpr clears.2⟩

theorem marked_new (n_warps : Nat) : (new n_warps).Marked := by
  intro w r
  refine iff_of_false (Finset.notMem_empty r) fun waits => ?_
  obtain ⟨flight, present, -⟩ := waits
  exact Multiset.notMem_zero flight present

/-- The marks are right all along a run exactly when the load/store unit writes no long-latency
    load back in it. -/
theorem marks_right_iff {trace : List (Event n_warps × Core n_warps)}
    (run : Run (new n_warps) trace) :
    (∀ step ∈ trace, step.2.MarksRight) ↔ ∀ step ∈ trace, ¬ step.1.LeavesMark := by
  simp only [marksRight_iff]
  exact run_marked_iff run .new (marked_new n_warps)

/-- `ld.global.u32 %r5, [%r6]` -/
def globalLoad : WarpInst 1 :=
  ⟨0, ![5, 0, 0, 0], ![0, 0, 0, 0], 0, 6, 0, true, .global_space⟩

theorem issue_globalLoad : ∃ s, Step (new 1) (.issue_warp globalLoad)
    ⟨s, ⟨globalLoad, globalLoad.registers.toFinset⟩ ::ₘ 0⟩ := by
  have clear : (Scoreboard.new 1).checkCollision globalLoad.warp_id globalLoad = false := by decide
  obtain ⟨s, run⟩ := Option.isSome_iff_exists.mp
    ((Scoreboard.reserveRegisters_isSome clear).mpr (by decide))
  exact ⟨s, .issue_warp globalLoad clear run⟩

/-- A load that is done at dispatch. -/
theorem marks_right_hit : ∃ issued done, Run (new 1)
    [(.issue_warp globalLoad, issued), (.dispatched globalLoad, done)] ∧
      issued.MarksRight ∧ done.MarksRight := by
  obtain ⟨s, step⟩ := issue_globalLoad
  have run := Run.cons step (.cons (.dispatched globalLoad) (.nil _))
  have right := (marks_right_iff run).mpr (by
    intro step inTrace
    rw [List.mem_cons, List.mem_singleton] at inTrace
    obtain rfl | rfl := inTrace <;> exact id)
  rw [List.forall_mem_cons, List.forall_mem_singleton] at right
  exact ⟨_, _, run, right⟩

/-- A load that misses: its register is still marked after it was written back. -/
theorem mark_stays : ¬ ∀ (n_warps : Nat) (trace : List (Event n_warps × Core n_warps)),
    Run (new n_warps) trace → ∀ step ∈ trace, step.2.MarksRight := by
  intro always
  obtain ⟨s, step⟩ := issue_globalLoad
  have written : Step ⟨s, ⟨globalLoad, globalLoad.registers.toFinset⟩ ::ₘ 0⟩
      (.ldst_writeback globalLoad 5) _ :=
    .ldst_writeback globalLoad (show 5 ∈ globalLoad.registers.toFinset by decide)
  have right := always 1 _ (.cons step (.cons written (.nil _)))
  rw [List.forall_mem_cons, List.forall_mem_singleton] at right
  exact written.not_marked (show globalLoad.IsLongLoad by decide) (step.reaches .new)
    (marksRight_iff.mp right.1) (marksRight_iff.mp right.2)

end Core

end AesOnGpu.Scheduler
