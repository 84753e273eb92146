import AesOnGpu.ControlFlow.ExitPoints
import AesOnGpu.Simt.Program

/-! # Reconvergence behind a return

Where the paths of a branch meet at the exit of their function only, the reconvergence PC is a mark.
`updateSIMTStack` replaces it by the return PC of the lowest thread that has not exited, whether this
thread is active or not. At the bottom of a call stack is the default entry, with PC 0.
-/

namespace AesOnGpu.Simt

open AesOnGpu.ControlFlow (Loader FunctionInfo PtxInstruction RECONVERGE_RETURN_PC NO_BRANCH_DIVERGENCE)

variable {warpSize : Nat}

/-! ## Threads at a branch -/

def Thread.InCall (thread : Thread) : Prop := 1 < thread.callstack.length

instance (thread : Thread) : Decidable thread.InCall :=
  inferInstanceAs (Decidable (1 < thread.callstack.length))

/-- `call_impl` and `callp_impl` push the PC behind the call. -/
def ReturnPc (loader : Loader) (r : Pc) : Prop :=
  ∃ pc pI, loader.At pc pI ∧ (pI.opcode = .CALL_OP ∨ pI.opcode = .CALLP_OP) ∧
    r = BitVec.ofNat 32 (pc + pI.inst_size)

/-- Some of the threads that have not exited are active at `pc`. The others can be anywhere. -/
structure AtBranch (loader : Loader) (pc : Nat) (active_mask : Mask warpSize)
    (threads : Threads warpSize) : Prop where
  active : ∃ t ∈ active_mask, (threads t).done = false
  together : ∀ t ∈ active_mask, (threads t).done = false → (threads t).pc.toNat = pc
  frames : ∀ t, (threads t).done = false → ∃ returns, (threads t).callstack = returns ++ [bottomPc] ∧
    ∀ r ∈ returns, ReturnPc loader r

def Threads.branch (threads : Threads warpSize) (active_mask : Mask warpSize)
    (next_pc : Fin warpSize → Pc) : Threads warpSize := fun t =>
  if t ∈ active_mask ∧ (threads t).done = false then { threads t with pc := next_pc t }
  else threads t

/-- What `updateSIMTStack` passes on for the instruction at `pc`. -/
def Threads.recvg_pc (threads : Threads warpSize) (loader : Loader) (pc : Nat) : Option Pc :=
  (loader.get_converge_point pc).map fun reconvergence_pc =>
    threads.resolveRecvg (BitVec.ofNat 32 reconvergence_pc)

/-! ## The purpose -/

/-- The paths meet where the callers of the active threads go on, and nowhere in the kernel's own
    body. -/
structure MeetsBehindReturn (loader : Loader) (active_mask : Mask warpSize)
    (threads : Threads warpSize) (recvg_pc : Pc) : Prop where
  called : ∀ t ∈ active_mask, (threads t).done = false → (threads t).InCall →
    recvg_pc = (threads t).get_return_PC
  body : ∀ t ∈ active_mask, (threads t).done = false → ¬ (threads t).InCall →
    ¬ loader.IsPC recvg_pc.toNat

structure Threads.Lowest (threads : Threads warpSize) (s : Fin warpSize) : Prop where
  live : (threads s).done = false
  before : ∀ t < s, (threads t).done = true

/-- Thread `s` can speak for the active threads. -/
structure SpeaksFor (loader : Loader) (active_mask : Mask warpSize) (threads : Threads warpSize)
    (s : Fin warpSize) : Prop where
  called : ∀ t ∈ active_mask, (threads t).done = false → (threads t).InCall →
    (threads t).get_return_PC = (threads s).get_return_PC
  body : ∀ t ∈ active_mask, (threads t).done = false → ¬ (threads t).InCall →
    (threads s).InCall ∧ ¬ loader.IsPC (threads s).get_return_PC.toNat

section Resolve

variable {loader : Loader} {threads : Threads warpSize} {active_mask : Mask warpSize}
  {next_pc : Fin warpSize → Pc} {pc : Nat} {r : Pc} {s t : Fin warpSize}

@[simp] theorem Threads.branch_done :
    (threads.branch active_mask next_pc t).done = (threads t).done := by
  rw [Threads.branch]
  split <;> rfl

@[simp] theorem Threads.branch_return :
    (threads.branch active_mask next_pc t).get_return_PC = (threads t).get_return_PC := by
  rw [Threads.branch]
  split <;> rfl

@[simp] theorem Threads.branch_resolveRecvg (mark : Pc) :
    (threads.branch active_mask next_pc).resolveRecvg mark = threads.resolveRecvg mark := by
  simp only [Threads.resolveRecvg, Threads.branch_done, Threads.branch_return]

theorem Threads.exists_lowest (live : (threads t).done = false) : ∃ s, threads.Lowest s := by
  obtain ⟨s, member, least⟩ := Finset.exists_min_image
    (Finset.univ.filter fun t => (threads t).done = false) id ⟨t, by simp [live]⟩
  refine ⟨s, (Finset.mem_filter.mp member).2, fun t below => ?_⟩
  cases done : (threads t).done with
  | true => rfl
  | false =>
    have above := least t (by simp [done])
    exact absurd below (not_lt.mpr above)

theorem Threads.Lowest.unique (first : threads.Lowest s) (second : threads.Lowest t) : s = t := by
  cases lt_trichotomy s t with
  | inl before => exact absurd (second.before s before) (by simp [first.live])
  | inr rest =>
    cases rest with
    | inl same => exact same
    | inr behind => exact absurd (first.before t behind) (by simp [second.live])

theorem Threads.Lowest.resolveRecvg (lowest : threads.Lowest s)
    (unmarked : (threads s).get_return_PC ≠ reconvergeReturnPc) :
    threads.resolveRecvg reconvergeReturnPc = (threads s).get_return_PC := by
  obtain ⟨below, above, lanes⟩ := List.append_of_mem (List.mem_finRange s)
  have sorted := List.pairwise_lt_finRange warpSize
  rw [lanes, List.pairwise_append] at sorted
  have kept : below.foldl (fun recvg t =>
      if (threads t).done then recvg
      else if recvg = reconvergeReturnPc then (threads t).get_return_PC else recvg)
      reconvergeReturnPc = reconvergeReturnPc := by
    refine List.foldlRecOn (motive := (· = reconvergeReturnPc)) below _ rfl fun recvg isMark t member => ?_
    rw [lowest.before t (sorted.2.2 t member s List.mem_cons_self), if_pos rfl]
    exact isMark
  rw [Threads.resolveRecvg, lanes, List.foldl_append, kept, List.foldl_cons, lowest.live,
    if_neg Bool.false_ne_true, if_pos rfl]
  -- no thread above replaces it
  refine List.foldlRecOn (motive := (· = (threads s).get_return_PC)) above _ rfl fun recvg same t member => ?_
  rw [same, if_neg unmarked, ite_self]

/-! ## Return PCs -/

theorem ReturnPc.aligned (isReturn : ReturnPc loader r) (reachable : loader.Reachable)
    (sizes : loader.WordSized) : 4 ∣ r.toNat := by
  obtain ⟨pc, pI, at_, -, rfl⟩ := isReturn
  have start := at_.aligned reachable sizes
  have size := at_.size sizes
  rw [BitVec.toNat_ofNat]
  omega

theorem AtBranch.return_aligned (atBranch : AtBranch loader pc active_mask threads)
    (reachable : loader.Reachable) (sizes : loader.WordSized) (live : (threads t).done = false) :
    4 ∣ (threads t).get_return_PC.toNat := by
  obtain ⟨returns, callstack, each⟩ := atBranch.frames t live
  rw [Thread.get_return_PC, callstack]
  cases returns with
  | nil => exact dvd_zero 4
  | cons r returns => exact (each r List.mem_cons_self).aligned reachable sizes

theorem AtBranch.return_ne (atBranch : AtBranch loader pc active_mask threads)
    (reachable : loader.Reachable) (sizes : loader.WordSized) (live : (threads t).done = false) :
    (threads t).get_return_PC ≠ reconvergeReturnPc ∧ (threads t).get_return_PC ≠ nullPc := by
  have aligned := atBranch.return_aligned reachable sizes live
  constructor
  · intro same
    rw [same] at aligned
    exact absurd aligned (by decide)
  · intro same
    rw [same] at aligned
    exact absurd aligned (by decide)

theorem AtBranch.return_bottom (atBranch : AtBranch loader pc active_mask threads)
    (live : (threads t).done = false) (inBody : ¬ (threads t).InCall) :
    (threads t).get_return_PC = bottomPc := by
  obtain ⟨returns, callstack, -⟩ := atBranch.frames t live
  rw [Thread.InCall, callstack, List.length_append, List.length_singleton] at inBody
  have none_ : returns = [] := List.length_eq_zero_iff.mp (by omega)
  rw [Thread.get_return_PC, callstack, none_]
  rfl

end Resolve

/-! ## When the paths meet there -/

section Meets

variable {loader : Loader} {threads : Threads warpSize} {active_mask : Mask warpSize} {pc : Nat}
  {s : Fin warpSize}

theorem AtBranch.meets_iff_speaks (atBranch : AtBranch loader pc active_mask threads)
    (isPc : loader.IsPC 0) (live : (threads s).done = false) :
    MeetsBehindReturn loader active_mask threads (threads s).get_return_PC ↔
      SpeaksFor loader active_mask threads s := by
  constructor
  · intro meets
    refine ⟨fun t active live inCall => (meets.called t active live inCall).symm,
      fun t active live' inBody => ?_⟩
    have apart := meets.body t active live' inBody
    refine ⟨?_, apart⟩
    -- the default is the PC of an instruction
    by_contra bottom
    rw [atBranch.return_bottom live bottom] at apart
    exact apart isPc
  · intro speaks
    exact ⟨fun t active live inCall => (speaks.called t active live inCall).symm,
      fun t active live inBody => (speaks.body t active live inBody).2⟩

theorem AtBranch.meets_null_iff (atBranch : AtBranch loader pc active_mask threads)
    (reachable : loader.Reachable) (sizes : loader.WordSized) :
    MeetsBehindReturn loader active_mask threads nullPc ↔
      ∀ t ∈ active_mask, (threads t).done = false → ¬ (threads t).InCall := by
  constructor
  · intro meets t active live inCall
    exact (atBranch.return_ne reachable sizes live).2 (meets.called t active live inCall).symm
  · intro inBody
    refine ⟨fun t active live inCall => absurd inCall (inBody t active live),
      fun t active live _ isPc => ?_⟩
    obtain ⟨pI, at_⟩ := isPc
    exact absurd (at_.aligned reachable sizes) (by decide)

end Meets

/-- At a branch whose paths meet at the exit of its function, the reconvergence PC is right exactly
    if the lowest thread that has not exited returns where the active threads do; from the kernel's
    own body no thread returns, so there it must be in a call whose return PC is no instruction's. A
    branch that starts its function with another instruction behind it has no point: there the
    active threads must be in the kernel's own body. -/
theorem recvg_pc_right_iff {loader : Loader} {f : FunctionInfo} {p pc : Nat} {pI : PtxInstruction}
    {active_mask : Mask warpSize} {threads : Threads warpSize} (next_pc : Fin warpSize → Pc)
    (reachable : loader.Reachable) (sizes : loader.WordSized) (member : f ∈ loader.functions)
    (here : f.m_instructions[p]? = some (.instruction pI)) (branch : pI.opcode = .BRA_OP)
    (isPc : f.get_PC p = some pc) (exits : f.MeetsAtExit p)
    (atBranch : AtBranch loader pc active_mask threads) :
    (∃ recvg_pc, (threads.branch active_mask next_pc).recvg_pc loader pc = some recvg_pc ∧
      MeetsBehindReturn loader active_mask threads recvg_pc) ↔
    (f.StartsBlockOfTwo p → ∀ t ∈ active_mask, (threads t).done = false → ¬ (threads t).InCall) ∧
      (¬ f.StartsBlockOfTwo p → ∃ s, threads.Lowest s ∧ SpeaksFor loader active_mask threads s) := by
  obtain ⟨k, inside⟩ := List.mem_iff_getElem?.mp member
  have loaded := reachable.loaded
  by_cases first : f.StartsBlockOfTwo p
  · have found := loaded.converge_unrecorded inside here first isPc
    have passed : (threads.branch active_mask next_pc).recvg_pc loader pc = some nullPc := by
      rw [Threads.recvg_pc, found, Option.map_some]
      exact congrArg some (Threads.resolveRecvg_of_ne (by decide))
    simp [passed, first, atBranch.meets_null_iff reachable sizes]
  · obtain ⟨t, -, live⟩ := atBranch.active
    obtain ⟨s, lowest⟩ := Threads.exists_lowest live
    have found := loaded.converge_at_exit inside here branch first exits isPc
    have passed : (threads.branch active_mask next_pc).recvg_pc loader pc =
        some (threads s).get_return_PC := by
      rw [Threads.recvg_pc, found, Option.map_some, Threads.branch_resolveRecvg]
      exact congrArg some
        (lowest.resolveRecvg (atBranch.return_ne reachable sizes lowest.live).1)
    have zero : loader.IsPC 0 := Loader.At.isPC_zero ⟨f, member, p, here, isPc⟩ reachable
    rw [passed]
    simp only [Option.some.injEq, exists_eq_left', atBranch.meets_iff_speaks zero lowest.live,
      first, false_implies, true_and, not_false_eq_true, true_implies]
    constructor
    · intro speaks
      exact ⟨s, lowest, speaks⟩
    · intro found
      obtain ⟨s', lowest', speaks⟩ := found
      exact lowest.unique lowest' ▸ speaks

/-! ## Examples -/

section Examples

open AesOnGpu.ControlFlow (Function plain ret MAX_INST_SIZE)

def branchTo (label : String) : PtxInstruction :=
  ⟨.BRA_OP, true, false, label, 8, FinLiterals.eight_pos, Nat.le_refl MAX_INST_SIZE⟩

def call : PtxInstruction :=
  ⟨.CALL_OP, false, false, "", 8, FinLiterals.eight_pos, Nat.le_refl MAX_INST_SIZE⟩

/-- Both sides of the branch return. -/
def forkFunction (m_entry_point : Bool) : Function where
  m_entry_point := m_entry_point
  m_instructions :=
    [.instruction plain, .instruction (branchTo "L"), .instruction (ret false), .label "L",
      .instruction (ret false)]

def callKernel : Function := ⟨true, [.instruction call, .instruction (ret false)]⟩

def assembled (functions : List Function) : Option Loader :=
  functions.foldlM (Loader.ptx_assemble 30) .new

theorem assemble_all {functions : List Function} {start loader : Loader} (reachable : start.Reachable)
    (run : functions.foldlM (Loader.ptx_assemble 30) start = some loader) :
    loader.Reachable ∧
      loader.functions.map (·.toFunction) = start.functions.map (·.toFunction) ++ functions := by
  induction functions generalizing start with
  | nil =>
    obtain rfl := Option.some.inj run
    exact ⟨reachable, (List.append_nil _).symm⟩
  | cons f functions ih =>
    rw [List.foldlM_cons] at run
    obtain ⟨next, first, run⟩ := Option.bind_eq_some_iff.mp run
    obtain ⟨reachable', each⟩ := ih (Loader.Reachable.assemble reachable first) run
    refine ⟨reachable', each.trans ?_⟩
    obtain ⟨⟨map, PC⟩, -, first⟩ := Option.bind_eq_some_iff.mp first
    obtain ⟨analysis, -, first⟩ := Option.bind_eq_some_iff.mp first
    obtain rfl := Option.some.inj first
    simp

theorem exists_assembled {functions : List Function} {f : Function} {k pc : Nat}
    (sizes : ∀ f ∈ functions, ∀ statement ∈ f.m_instructions, statement.bytes ∈ [0, 4, 8])
    (shown : ((assembled functions).bind fun loader => loader.functions[k]?).map
      (fun info => (info.toFunction, info.get_PC 1, decide (info.MeetsAtExit 1))) =
        some (f, some pc, true)) :
    ∃ loader : Loader, loader.Reachable ∧ loader.WordSized ∧
      loader.functions.map (·.toFunction) = functions ∧ ∃ info ∈ loader.functions,
        info.toFunction = f ∧ info.get_PC 1 = some pc ∧ info.MeetsAtExit 1 := by
  obtain ⟨info, found, same⟩ := Option.map_eq_some_iff.mp shown
  obtain ⟨loader, run, found⟩ := Option.bind_eq_some_iff.mp found
  obtain ⟨reachable, each⟩ := assemble_all .new run
  have all : loader.functions.map (·.toFunction) = functions := each
  simp only [Prod.mk.injEq, decide_eq_true_eq] at same
  refine ⟨loader, reachable, fun g member pI here => ?_, all, info, List.mem_of_getElem? found, same⟩
  have size := sizes g.toFunction (all ▸ List.mem_map_of_mem member) _ here
  have positive := pI.size_pos
  simp only [ControlFlow.Statement.bytes, List.mem_cons, List.not_mem_nil, or_false] at size
  omega

def waiting (pc : Pc) (returns : List Pc) : Threads 2 := fun _ => ⟨false, pc, returns ++ [bottomPc]⟩

/-- In a called function both threads go back to the caller, and their paths meet there. -/
theorem recvg_pc_right_called : ∃ (loader : Loader) (recvg_pc : Pc),
    (Threads.branch (waiting 24 [8]) Finset.univ fun _ => 32).recvg_pc loader 24 = some recvg_pc ∧
      MeetsBehindReturn loader Finset.univ (waiting 24 [8]) recvg_pc := by
  obtain ⟨loader, reachable, sizes, all, info, member, same, isPc, exits⟩ :=
    @exists_assembled [callKernel, forkFunction false] (forkFunction false) 1 24 (by decide) rfl
  have called : ReturnPc loader 8 := by
    obtain ⟨kernel, first, isKernel⟩ : ∃ kernel, loader.functions[0]? = some kernel ∧
        kernel.toFunction = callKernel := by
      rw [← Option.map_eq_some_iff, ← List.getElem?_map, all]
      rfl
    have here : kernel.m_instructions[0]? = some (.instruction call) := by rw [isKernel]; rfl
    refine ⟨0, call, ⟨kernel, List.mem_of_getElem? first, 0, here, ?_⟩, Or.inl rfl, rfl⟩
    rw [FunctionInfo.get_PC_eq here, reachable.loaded.first kernel first]
    rfl
  have atBranch : AtBranch loader 24 Finset.univ (waiting 24 [8]) := by
    refine ⟨⟨0, Finset.mem_univ 0, rfl⟩, fun _ _ _ => rfl, fun _ _ => ⟨[8], rfl, ?_⟩⟩
    intro r listed
    obtain rfl := List.mem_singleton.mp listed
    exact called
  have here : info.m_instructions[1]? = some (.instruction (branchTo "L")) := by rw [same]; rfl
  refine ⟨loader, (recvg_pc_right_iff (fun _ => 32) reachable sizes member here rfl isPc exits
    atBranch).mpr ⟨fun first => absurd first.1 (by decide), fun _ =>
      ⟨0, ⟨rfl, by simp⟩, fun _ _ _ _ => rfl, fun t _ _ inBody => absurd (by revert t; decide) inBody⟩⟩⟩

/-- In the kernel's own body the paths would meet at its first instruction. -/
theorem kernel_meets_at_start : ¬ ∀ (warpSize : Nat) (loader : Loader) (f : FunctionInfo) (p pc : Nat)
    (pI : PtxInstruction) (active_mask : Mask warpSize) (threads : Threads warpSize)
    (next_pc : Fin warpSize → Pc), loader.Reachable → loader.WordSized → f ∈ loader.functions →
    f.m_instructions[p]? = some (.instruction pI) → pI.opcode = .BRA_OP → f.get_PC p = some pc →
    f.MeetsAtExit p → AtBranch loader pc active_mask threads →
    ∃ recvg_pc, (threads.branch active_mask next_pc).recvg_pc loader pc = some recvg_pc ∧
      MeetsBehindReturn loader active_mask threads recvg_pc := by
  intro all
  obtain ⟨loader, reachable, sizes, -, info, member, same, isPc, exits⟩ :=
    @exists_assembled [forkFunction true] (forkFunction true) 0 8 (by decide) rfl
  have here : info.m_instructions[1]? = some (.instruction (branchTo "L")) := by rw [same]; rfl
  have atBranch : AtBranch loader 8 Finset.univ (waiting 8 []) :=
    ⟨⟨0, Finset.mem_univ 0, rfl⟩, fun _ _ _ => rfl, fun _ _ => ⟨[], rfl, by simp⟩⟩
  obtain ⟨recvg_pc, passed, meets⟩ := all 2 loader info 1 8 (branchTo "L") Finset.univ (waiting 8 [])
    (fun _ => 16) reachable sizes member here rfl isPc exits atBranch
  obtain ⟨k, inside⟩ := List.mem_iff_getElem?.mp member
  have found := reachable.loaded.converge_at_exit inside here rfl (fun first => absurd first.1 (by decide))
    exits isPc
  rw [Threads.recvg_pc, found] at passed
  obtain rfl := Option.some.inj passed
  have zero : loader.IsPC 0 := Loader.At.isPC_zero ⟨info, member, 1, here, isPc⟩ reachable
  exact meets.body 0 (Finset.mem_univ 0) rfl (by decide) zero

end Examples

end AesOnGpu.Simt
