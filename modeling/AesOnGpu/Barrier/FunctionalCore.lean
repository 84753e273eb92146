import AesOnGpu.Lib.FinLiterals

/-! # Barriers of the functional mode

`functionalCoreSim::execute` runs the warps of a block in turn, one instruction of
each, and passes over those that are marked as waiting.  All marks are cleared when
every live warp has one.  A barrier and a memory fence set the same mark.

What an instruction does is a parameter, `exec`: for a warp and the registers,
memories and stacks, the operation that the warp executes, how many of its threads are
done after it, and what it leaves; or `none` when an assertion fails.
-/

namespace AesOnGpu.Barrier

/-- The operations that `executeWarp` tells apart. -/
inductive OpType where
  | BARRIER_OP
  | MEMORY_BARRIER_OP
  | other
  deriving DecidableEq

structure Execution (σ : Type) where
  op : OpType
  done : Nat
  machine : σ

structure FunctionalCoreSim (W : Nat) (σ : Type) where
  machine : σ
  m_warpAtBarrier : Fin W → Bool
  m_liveThreadCount : Fin W → Nat
  /-- What each warp has executed, the latest first. -/
  executed : Fin W → List OpType

variable {W : Nat} {σ : Type}

namespace FunctionalCoreSim

/-- `initializeCTA` with the calls of `createWarp`: a warp has the threads of its
    range that are in the block. -/
def initializeCTA (threads_per_cta m_warp_size : Nat) (machine : σ) : FunctionalCoreSim W σ where
  machine
  m_warpAtBarrier _ := false
  m_liveThreadCount warpId :=
    ((List.range m_warp_size).filter fun t => warpId * m_warp_size + t < threads_per_cta).length
  executed _ := []

def Executes (core : FunctionalCoreSim W σ) (i : Fin W) : Prop :=
  core.m_warpAtBarrier i = false ∧ 0 < core.m_liveThreadCount i

instance (core : FunctionalCoreSim W σ) (i : Fin W) : Decidable (core.Executes i) :=
  inferInstanceAs (Decidable (_ ∧ _))

def execute_warp_inst_t (core : FunctionalCoreSim W σ) (i : Fin W) (inst : Execution σ) :
    FunctionalCoreSim W σ where
  machine := inst.machine
  m_warpAtBarrier :=
    if inst.op = .BARRIER_OP ∨ inst.op = .MEMORY_BARRIER_OP then
      Function.update core.m_warpAtBarrier i true
    else core.m_warpAtBarrier
  m_liveThreadCount :=
    Function.update core.m_liveThreadCount i (core.m_liveThreadCount i - inst.done)
  executed := Function.update core.executed i (inst.op :: core.executed i)

def turn (exec : Fin W → σ → Option (Execution σ)) (core : FunctionalCoreSim W σ) (i : Fin W) :
    Option (FunctionalCoreSim W σ) :=
  if core.Executes i then (exec i core.machine).map (core.execute_warp_inst_t i) else some core

def executeWarp (exec : Fin W → σ → Option (Execution σ)) (core : FunctionalCoreSim W σ)
    (i : Fin W) (allAtBarrier someOneLive : Bool) :
    Option (FunctionalCoreSim W σ × Bool × Bool) :=
  (core.turn exec i).map fun core =>
    (core, if core.Executes i then false else allAtBarrier,
      if core.m_liveThreadCount i > 0 then true else someOneLive)

def clearMarks (core : FunctionalCoreSim W σ) : FunctionalCoreSim W σ :=
  { core with m_warpAtBarrier := fun _ => false }

/-- The states of `execute` before the turn of each warp, and after the turn of the
    last one, in runs that clear the marks only in the states of `allowed`. -/
inductive Run (exec : Fin W → σ → Option (Execution σ)) (allowed : FunctionalCoreSim W σ → Prop)
    (first : FunctionalCoreSim W σ) : FunctionalCoreSim W σ → Nat → Bool → Bool → Prop where
  | first : Run exec allowed first first 0 true false
  | turn {core core' : FunctionalCoreSim W σ} {i : Fin W} {all live all' live' : Bool} :
      Run exec allowed first core i all live →
      core.executeWarp exec i all live = some (core', all', live') →
      Run exec allowed first core' (i + 1) all' live'
  | round {core : FunctionalCoreSim W σ} {all : Bool} :
      Run exec allowed first core W all true → (all = true → allowed core) →
      Run exec allowed first (if all then core.clearMarks else core) 0 true false

/-! ## The law -/

def barriers (core : FunctionalCoreSim W σ) (i : Fin W) : Nat :=
  (core.executed i).count .BARRIER_OP

/-- Every live warp has executed the barriers that warp `i` has executed. -/
def InOrder (core : FunctionalCoreSim W σ) (i : Fin W) : Prop :=
  ∀ j, 0 < core.m_liveThreadCount j → core.barriers i ≤ core.barriers j

/-- The live warps have all come to the same kind of instruction: they wait at a
    barrier, or they wait at a fence. -/
def OneKind (core : FunctionalCoreSim W σ) : Prop :=
  ∀ i j, 0 < core.m_liveThreadCount i → 0 < core.m_liveThreadCount j →
    (core.executed i).head? = (core.executed j).head?

/-- The barriers of the live warps, when the marks were cleared at `released` barriers. -/
structure Counted (released : Nat) (core : FunctionalCoreSim W σ) : Prop where
  marked : ∀ i, 0 < core.m_liveThreadCount i → core.m_warpAtBarrier i = true →
    (core.executed i).head? = some .BARRIER_OP ∨ (core.executed i).head? = some .MEMORY_BARRIER_OP
  counts : ∀ i, 0 < core.m_liveThreadCount i → core.barriers i = released +
    if core.m_warpAtBarrier i = true ∧ (core.executed i).head? = some .BARRIER_OP then 1 else 0

theorem Counted.inOrder {released : Nat} {core : FunctionalCoreSim W σ}
    (h : Counted released core) {i : Fin W} (hi : core.Executes i) : core.InOrder i := by
  obtain ⟨hmark, hlive⟩ := hi
  intro j hj
  have hcount : core.barriers i = released := by simp [h.counts i hlive, hmark]
  rw [hcount, h.counts j hj]
  exact Nat.le_add_right _ _

theorem initializeCTA_counted (threads_per_cta m_warp_size : Nat) (machine : σ) :
    Counted 0 (initializeCTA threads_per_cta m_warp_size machine : FunctionalCoreSim W σ) where
  marked i _ hmark := by simp [initializeCTA] at hmark
  counts i _ := by simp [initializeCTA, barriers]

/-! ## One instruction -/

theorem execute_warp_inst_t_other (core : FunctionalCoreSim W σ) {i j : Fin W}
    (inst : Execution σ) (hj : j ≠ i) :
    (core.execute_warp_inst_t i inst).m_warpAtBarrier j = core.m_warpAtBarrier j ∧
      (core.execute_warp_inst_t i inst).m_liveThreadCount j = core.m_liveThreadCount j ∧
      (core.execute_warp_inst_t i inst).executed j = core.executed j := by
  refine ⟨?_, by simp [execute_warp_inst_t, hj], by simp [execute_warp_inst_t, hj]⟩
  simp only [execute_warp_inst_t]
  split <;> simp [hj]

theorem execute_warp_inst_t_executed (core : FunctionalCoreSim W σ) (i : Fin W)
    (inst : Execution σ) :
    (core.execute_warp_inst_t i inst).executed i = inst.op :: core.executed i := by
  simp [execute_warp_inst_t]

theorem execute_warp_inst_t_mark {core : FunctionalCoreSim W σ} {i : Fin W} (inst : Execution σ)
    (hi : core.Executes i) :
    (core.execute_warp_inst_t i inst).m_warpAtBarrier i = true ↔
      inst.op = .BARRIER_OP ∨ inst.op = .MEMORY_BARRIER_OP := by
  simp only [execute_warp_inst_t]
  split
  next h => simp [h]
  next h => simp [h, hi.1]

theorem Counted.execute {released : Nat} {core : FunctionalCoreSim W σ}
    (h : Counted released core) {i : Fin W} (hi : core.Executes i) (inst : Execution σ) :
    Counted released (core.execute_warp_inst_t i inst) where
  marked j hlive hmark := by
    by_cases hj : j = i
    · subst hj
      rw [execute_warp_inst_t_mark inst hi] at hmark
      simpa [execute_warp_inst_t_executed] using hmark
    · obtain ⟨hmarks, hlives, hexecuted⟩ := core.execute_warp_inst_t_other inst hj
      rw [hexecuted]
      exact h.marked j (hlives ▸ hlive) (hmarks ▸ hmark)
  counts j hlive := by
    by_cases hj : j = i
    · subst hj
      have hbefore : core.barriers j = released := by simp [h.counts j hi.2, hi.1]
      simp only [barriers, execute_warp_inst_t_mark inst hi, execute_warp_inst_t_executed,
        List.head?_cons] at hbefore ⊢
      cases inst.op with
      | BARRIER_OP => simp [hbefore]
      | MEMORY_BARRIER_OP => simp [hbefore]
      | other => simp [hbefore]
    · obtain ⟨hmarks, hlives, hexecuted⟩ := core.execute_warp_inst_t_other inst hj
      have hbefore := h.counts j (hlives ▸ hlive)
      simp only [barriers, hexecuted, hmarks] at hbefore ⊢
      exact hbefore

/-- When all live warps wait at one kind of instruction, clearing the marks releases a
    barrier or none. -/
theorem Counted.clearMarks {released : Nat} {core : FunctionalCoreSim W σ}
    (h : Counted released core) (hkind : core.OneKind)
    (hall : ∀ i, 0 < core.m_liveThreadCount i → core.m_warpAtBarrier i = true) :
    ∃ released', Counted released' core.clearMarks := by
  have hunmarked (released' : Nat)
      (hcounts : ∀ i, 0 < core.m_liveThreadCount i → core.barriers i = released') :
      Counted released' core.clearMarks :=
    { marked := fun i _ hmark => by simp [FunctionalCoreSim.clearMarks] at hmark
      counts := fun i hlive => by
        have hcount := hcounts i hlive
        simp only [FunctionalCoreSim.clearMarks, barriers] at hcount ⊢
        simp [hcount] }
  by_cases hsome : ∃ i, 0 < core.m_liveThreadCount i
  · obtain ⟨i, hlive⟩ := hsome
    cases h.marked i hlive (hall i hlive) with
    | inl hbarrier =>
      exact ⟨released + 1, hunmarked _ fun j hj => by
        simp [h.counts j hj, hall j hj, (hkind j i hj hlive).trans hbarrier]⟩
    | inr hfence =>
      exact ⟨released, hunmarked _ fun j hj => by
        simp [h.counts j hj, hall j hj, (hkind j i hj hlive).trans hfence]⟩
  · exact ⟨0, hunmarked _ fun j hj => absurd ⟨j, hj⟩ hsome⟩

/-! ## Runs -/

/-- `allAtBarrier` speaks of the warps that have had their turn. -/
def AllAtBarrier (core : FunctionalCoreSim W σ) (i : Nat) (all : Bool) : Prop :=
  all = true → ∀ j : Fin W, j < i → 0 < core.m_liveThreadCount j → core.m_warpAtBarrier j = true

theorem executeWarp_spec {exec : Fin W → σ → Option (Execution σ)}
    {core core' : FunctionalCoreSim W σ} {i : Fin W} {all live all' live' : Bool}
    (h : core.executeWarp exec i all live = some (core', all', live')) :
    ((¬ core.Executes i ∧ core' = core) ∨
      core.Executes i ∧ ∃ inst, core' = core.execute_warp_inst_t i inst) ∧
    (all' = true → all = true ∧
      (0 < core'.m_liveThreadCount i → core'.m_warpAtBarrier i = true)) := by
  obtain ⟨after, hafter, heq⟩ := Option.map_eq_some_iff.mp h
  cases heq
  constructor
  · unfold turn at hafter
    split at hafter
    next hi =>
      obtain ⟨inst, -, rfl⟩ := Option.map_eq_some_iff.mp hafter
      exact .inr ⟨hi, inst, rfl⟩
    next hi =>
      cases hafter
      exact .inl ⟨hi, rfl⟩
  · intro hall
    split at hall
    next => cases hall
    next hpassed =>
      exact ⟨hall, fun hlive => by simpa [Executes, hlive] using hpassed⟩

theorem Run.counted {exec : Fin W → σ → Option (Execution σ)} {first core : FunctionalCoreSim W σ}
    {i : Nat} {all live : Bool} (hfirst : Counted 0 first)
    (run : Run exec OneKind first core i all live) :
    (∃ released, Counted released core) ∧ AllAtBarrier core i all := by
  induction run with
  | first => exact ⟨⟨0, hfirst⟩, fun _ j hj => absurd hj (Nat.not_lt_zero _)⟩
  | @turn core core' i all live all' live' _ hturn ih =>
    obtain ⟨⟨released, hcounted⟩, hall⟩ := ih
    obtain ⟨hcore, hall'⟩ := executeWarp_spec hturn
    constructor
    · cases hcore with
      | inl hskipped => exact ⟨released, hskipped.2 ▸ hcounted⟩
      | inr hexecuted =>
        obtain ⟨hi, inst, rfl⟩ := hexecuted
        exact ⟨released, hcounted.execute hi inst⟩
    · intro htrue j hj hlive
      by_cases hji : j = i
      · exact hji ▸ (hall' htrue).2 (hji ▸ hlive)
      · -- The turn of `i` leaves the warps before it as they are.
        have hbefore : j.val < i.val := by
          have hne := Fin.val_ne_iff.mpr hji
          omega
        cases hcore with
        | inl hskipped =>
          rw [hskipped.2] at hlive ⊢
          exact hall (hall' htrue).1 j hbefore hlive
        | inr hexecuted =>
          obtain ⟨-, inst, rfl⟩ := hexecuted
          obtain ⟨hmarks, hlives, -⟩ := core.execute_warp_inst_t_other inst hji
          rw [hmarks]
          exact hall (hall' htrue).1 j hbefore (hlives ▸ hlive)
  | @round core all _ hallowed ih =>
    obtain ⟨⟨released, hcounted⟩, hall⟩ := ih
    constructor
    · cases all with
      | true => exact hcounted.clearMarks (hallowed rfl) fun i => hall rfl i i.isLt
      | false => exact ⟨released, hcounted⟩
    · exact fun _ j hj => absurd hj (Nat.not_lt_zero _)

/-- In a run that never clears the marks of warps at a barrier together with those of
    warps at a fence, a warp executes an instruction only when all live warps have
    executed its barriers. -/
theorem barriers_in_order {exec : Fin W → σ → Option (Execution σ)}
    {threads_per_cta m_warp_size : Nat} {machine : σ} {core : FunctionalCoreSim W σ} {i : Fin W}
    {all live : Bool}
    (run : Run exec OneKind (initializeCTA threads_per_cta m_warp_size machine) core i all live)
    (hi : core.Executes i) : core.InOrder i := by
  obtain ⟨⟨released, hcounted⟩, -⟩ := run.counted (initializeCTA_counted _ _ _)
  exact hcounted.inOrder hi

/-- Warps of one thread each, with the instructions they still have to execute. -/
def straightLine (i : Fin W) (program : Fin W → List OpType) :
    Option (Execution (Fin W → List OpType)) :=
  match program i with
  | [] => none
  | op :: rest => some ⟨op, if rest = [] then 1 else 0, Function.update program i rest⟩

def twoBarriers : FunctionalCoreSim 2 (Fin 2 → List OpType) :=
  initializeCTA 2 1 fun _ => [.BARRIER_OP, .other]

theorem barriers_in_order_two :
    ∃ core, Run straightLine OneKind twoBarriers core 0 true false ∧ core.barriers 0 = 1 ∧
      core.InOrder 0 := by
  have run : Run straightLine OneKind twoBarriers _ 0 true false :=
    .round (.turn (i := 1) (.turn (i := 0) .first rfl) rfl) fun _ => by
      unfold OneKind
      decide
  exact ⟨_, run, by decide, barriers_in_order (i := 0) run (by decide)⟩

def barrierAndFence : FunctionalCoreSim 2 (Fin 2 → List OpType) :=
  initializeCTA 2 1 ![[.BARRIER_OP, .other], [.MEMORY_BARRIER_OP, .BARRIER_OP, .other]]

theorem fence_releases_barrier :
    ∃ core, Run straightLine (fun _ => True) barrierAndFence core 0 true false ∧
      core.Executes 0 ∧ ¬ core.InOrder 0 := by
  have run : Run straightLine (fun _ => True) barrierAndFence _ 0 true false :=
    .round (.turn (i := 1) (.turn (i := 0) .first rfl) rfl) fun _ => trivial
  refine ⟨_, run, by decide, ?_⟩
  unfold InOrder
  decide

end FunctionalCoreSim

end AesOnGpu.Barrier
