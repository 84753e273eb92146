import AesOnGpu.Simt.Frame

/-! # Reconvergence in one function

A warp runs the code of one function without calls.  In every step the live
lanes of the top entry execute its instruction, each in its own way, and
`updateSIMTStack` hands what they report to `update`.  An entry whose lanes have
all exited is popped by a step in which no lane moves.

`Kernel.reconvergence` is the result: no assertion fails, a lane of the top
entry is always at the PC of that entry, and no live lane is lost.
-/

namespace AesOnGpu.Simt

open ControlFlow

/-- A function together with what its instructions carry.  `exitPc` is passed as
    the reconvergence PC where the paths meet at the exit of the function only. -/
structure Kernel where
  code : FunctionCode
  exitPc : Pc
  exitFree : ¬ code.Instruction exitPc
  start_pc : Pc
  startInCode : code.Instruction start_pc
  op : Pc → OpType
  noCalls : ∀ p, op p ≠ .CALL_OPS
  isize : Pc → BitVec 32
  reconvergence_pc : Pc → Pc
  reconverges : ∀ p b X, p ∈ code.pcs b → code.graph.ImmediatePostdominator X b →
    (∃ q r, q ≠ r ∧ code.Next p q ∧ code.Next p r) → reconvergence_pc p = code.target exitPc X

structure WarpState (warpSize : Nat) where
  m_stack : SimtStack warpSize
  threads : Lanes warpSize

variable {warpSize : Nat}

namespace Kernel

variable (kernel : Kernel)

/-- A warp whose launched lanes are about to execute the first instruction; the
    lanes that are not launched count as done. -/
def launched (mask : Mask warpSize) : WarpState warpSize where
  m_stack := launch kernel.start_pc mask
  threads :=
    { thread_done := fun t => t ∉ mask
      next_pc := fun t => if t ∈ mask then kernel.start_pc else nullPc }

/-- The instruction at `p`, as it is passed to `update`. -/
def executed (p : Pc) : Executed :=
  ⟨kernel.reconvergence_pc p, kernel.op p, kernel.isize p, p⟩

/-- The live lanes of a mask execute the instruction at `p`: each exits or goes
    on to one of the next instructions.  A lane that is done reports `nullPc`. -/
structure Execute (p : Pc) (mask : Mask warpSize) (threads threads' : Lanes warpSize) : Prop where
  others : ∀ t, t ∉ mask ∨ threads.thread_done t = true →
    threads'.thread_done t = threads.thread_done t ∧ threads'.next_pc t = threads.next_pc t
  moved : ∀ t ∈ mask, threads.thread_done t = false →
    threads'.thread_done t = true ∧ threads'.next_pc t = nullPc ∨
      threads'.thread_done t = false ∧ kernel.code.Next p (threads'.next_pc t)

/-- What a warp with a live lane can do next: the new threads and the call of
    `update`.  Without a live lane in the top entry any instruction is fetched. -/
inductive Issue (state : WarpState warpSize) : Lanes warpSize → Executed → Prop where
  | live {top : StackEntry warpSize} {rest : SimtStack warpSize} {threads' : Lanes warpSize} :
      state.m_stack = top :: rest →
      (∃ t ∈ top.m_active_mask, state.threads.thread_done t = false) →
      kernel.Execute top.m_pc top.m_active_mask state.threads threads' →
      Issue state threads' (kernel.executed top.m_pc)
  | dead {top : StackEntry warpSize} {rest : SimtStack warpSize} {executed : Executed} :
      state.m_stack = top :: rest →
      (∀ t ∈ top.m_active_mask, state.threads.thread_done t = true) →
      (∃ t, state.threads.thread_done t = false) →
      executed.next_inst_pc = top.m_pc →
      Issue state state.threads executed

/-- The states of the warp after any number of steps. -/
inductive Reachable (mask : Mask warpSize) : WarpState warpSize → Prop where
  | launched : Reachable mask (kernel.launched mask)
  | step {state : WarpState warpSize} {threads' : Lanes warpSize} {executed : Executed}
      {stack' : SimtStack warpSize} : Reachable mask state → kernel.Issue state threads' executed →
      update state.m_stack threads' executed = some stack' → Reachable mask ⟨stack', threads'⟩

/-! ## The invariant -/

variable {kernel} {mask : Mask warpSize}

structure Inv (kernel : Kernel) (mask : Mask warpSize) (state : WarpState warpSize) : Prop where
  frame : FrameInv kernel.code kernel.exitPc mask ∅ state.threads state.m_stack
  normal : ∀ entry ∈ state.m_stack, entry.m_type = .normal
  launched : ∀ t, state.threads.thread_done t = false → t ∈ mask

theorem Execute.laneMove {p : Pc} {active : Mask warpSize} {threads threads' : Lanes warpSize}
    (execute : kernel.Execute p active threads threads') :
    LaneMove kernel.code p active threads threads' := by
  have alive (t : Fin warpSize) (live : threads'.thread_done t = false) :
      threads.thread_done t = false := by
    by_contra dead
    have isDone := Bool.not_eq_false _ ▸ dead
    rw [(execute.others t (Or.inr isDone)).1, isDone] at live
    exact absurd live (by decide)
  refine ⟨alive, fun t _ outside => (execute.others t (Or.inl outside)).2, fun t inside live => ?_⟩
  cases execute.moved t inside (alive t live) with
  | inl exits => rw [exits.1] at live; exact absurd live (by decide)
  | inr goesOn => exact goesOn.2

theorem Inv.launched_state (nonempty : mask ≠ ∅) : Inv kernel mask (kernel.launched mask) where
  frame :=
    { waits := fun t member _ _ => by simp [Kernel.launched, launch, waitsAt, member]
      chained := ⟨fun t _ _ => Or.inr ⟨rfl, rfl⟩, trivial⟩
      bounded := fun entry member => Or.inl (by rw [List.mem_singleton.mp member]; rfl)
      active := fun entry member => by rw [List.mem_singleton.mp member]; exact nonempty
      inside := fun entry member => by rw [List.mem_singleton.mp member] }
  normal entry member := by rw [List.mem_singleton.mp member]; rfl
  launched t live := by simpa [Kernel.launched] using live

theorem Inv.atTop {state : WarpState warpSize} (invariant : Inv kernel mask state)
    {top : StackEntry warpSize} {rest : SimtStack warpSize} (shape : state.m_stack = top :: rest)
    {t : Fin warpSize} (inside : t ∈ top.m_active_mask)
    (live : state.threads.thread_done t = false) : state.threads.next_pc t = top.m_pc := by
  have waits := invariant.frame.waits t (invariant.launched t live) live (Finset.notMem_empty t)
  rw [shape, waitsAt_cons_of_mem inside] at waits
  exact (Option.some.inj waits).symm

theorem Outcome.normal {top : StackEntry warpSize} {rest stack' : SimtStack warpSize}
    {lanes : Lanes warpSize} {recvg_pc : Pc} (outcome : Outcome top rest lanes recvg_pc stack')
    (normal : ∀ entry ∈ top :: rest, entry.m_type = .normal) :
    ∀ entry ∈ stack', entry.m_type = .normal := by
  have topNormal := normal top List.mem_cons_self
  have restNormal : ∀ entry ∈ rest, entry.m_type = .normal :=
    fun entry member => normal entry (List.mem_cons_of_mem top member)
  cases outcome with
  | finished _ => exact restNormal
  | reconverged _ _ _ _ => exact restNormal
  | moved q _ _ => exact List.forall_mem_cons.mpr ⟨topNormal, restNormal⟩
  | diverged p q _ _ =>
    have under : ∀ entry ∈ meetingStack top rest recvg_pc, entry.m_type = .normal := by
      rw [meetingStack]
      split
      · exact restNormal
      · exact List.forall_mem_cons.mpr ⟨topNormal, restNormal⟩
    simp only [placeAll, List.foldl_cons, List.foldl_nil]
    split <;> split <;> simp_all

theorem Inv.step {state : WarpState warpSize} (invariant : Inv kernel mask state)
    {threads' : Lanes warpSize} {executed : Executed}
    (issue : kernel.Issue state threads' executed) :
    ∃ stack', update state.m_stack threads' executed = some stack' ∧
      Inv kernel mask ⟨stack', threads'⟩ := by
  cases issue with
  | @live top rest threads' shape someLive execute =>
    have move := execute.laneMove
    have frame := invariant.frame
    have normal := invariant.normal
    rw [shape] at frame normal
    have topNormal := normal top List.mem_cons_self
    have recvg : RecvgAt kernel.code kernel.exitPc top threads' (kernel.reconvergence_pc top.m_pc) := by
      rintro ⟨q, r, different, ⟨t, toQ⟩, ⟨s, toR⟩⟩ b X inB immediate
      obtain ⟨tInside, tLive, atQ⟩ := Lanes.mem_group.mp toQ
      obtain ⟨sInside, sLive, atR⟩ := Lanes.mem_group.mp toR
      exact kernel.reconverges top.m_pc b X inB immediate
        ⟨q, r, different, atQ ▸ move.moved t tInside tLive, atR ▸ move.moved s sInside sLive⟩
    have atTop : AtTop top threads' (kernel.executed top.m_pc) :=
      ⟨rfl, frame.active top List.mem_cons_self,
        fun t inside live => (move.moved t inside live).instruction.ne_null⟩
    have mayDiverge := frame.mayDiverge kernel.exitFree move recvg fun call _ => by
      rw [topNormal] at call; exact absurd call (by decide)
    obtain ⟨stack', run, outcome⟩ :=
      update_spec atTop rest (kernel.noCalls top.m_pc) (fun _ => topNormal) mayDiverge
    refine ⟨stack', by rw [shape]; exact run, frame.step kernel.exitFree move recvg outcome,
      Outcome.normal outcome normal, fun t live => ?_⟩
    exact invariant.launched t (move.alive t live)
  | @dead top rest executed shape allDone _ atPc =>
    have frame := invariant.frame
    have normal := invariant.normal
    rw [shape] at frame normal
    have none (q : Pc) : state.threads.group top.m_active_mask q = ∅ := by
      refine Finset.eq_empty_of_forall_notMem fun t member => ?_
      obtain ⟨inside, live, _⟩ := Lanes.mem_group.mp member
      rw [allDone t inside] at live
      exact absurd live (by decide)
    have atTop : AtTop top state.threads executed :=
      ⟨atPc.symm, frame.active top List.mem_cons_self, fun t inside live => by
        rw [allDone t inside] at live; exact absurd live (by decide)⟩
    have move : LaneMove kernel.code top.m_pc top.m_active_mask state.threads state.threads :=
      ⟨fun _ live => live, fun _ _ _ => rfl, fun t inside live => by
        rw [allDone t inside] at live; exact absurd live (by decide)⟩
    refine ⟨rest, by rw [shape]; exact update_finished atTop rest none, ?_,
      fun entry member => normal entry (List.mem_cons_of_mem top member), invariant.launched⟩
    exact (frame.pop move).settle fun t inside live => by
      rw [allDone t inside] at live; exact absurd live (by decide)

theorem Reachable.inv {state : WarpState warpSize} (reachable : kernel.Reachable mask state)
    (nonempty : mask ≠ ∅) : Inv kernel mask state := by
  induction reachable with
  | launched => exact Inv.launched_state nonempty
  | step _ issue run ih =>
    obtain ⟨stack', succeeds, invariant⟩ := ih.step issue
    rw [run] at succeeds
    exact Option.some.inj succeeds ▸ invariant

theorem Reachable.of_empty {state : WarpState warpSize} (reachable : kernel.Reachable ∅ state) :
    state = kernel.launched ∅ := by
  induction reachable with
  | launched => rfl
  | step _ issue _ ih =>
    subst ih
    cases issue with
    | live _ someLive _ =>
      obtain ⟨t, _, live⟩ := someLive
      exact absurd live (by simp [Kernel.launched])
    | dead _ _ someLive _ =>
      obtain ⟨t, live⟩ := someLive
      exact absurd live (by simp [Kernel.launched])

/-! ## The result -/

/-- In every reachable state `update` accepts whatever the warp does next, every
    live lane of the top entry is at the PC of that entry, and every live lane
    is a launched one in the mask of some entry. -/
theorem reconvergence {state : WarpState warpSize} (reachable : kernel.Reachable mask state) :
    (∀ threads' executed, kernel.Issue state threads' executed →
      (update state.m_stack threads' executed).isSome) ∧
    (∀ top rest, state.m_stack = top :: rest → ∀ t ∈ top.m_active_mask,
      state.threads.thread_done t = false → state.threads.next_pc t = top.m_pc) ∧
    ∀ t, state.threads.thread_done t = false →
      t ∈ mask ∧ ∃ entry ∈ state.m_stack, t ∈ entry.m_active_mask := by
  by_cases empty : mask = ∅
  · subst empty
    have noneLive (t : Fin warpSize) : state.threads.thread_done t = true := by
      rw [reachable.of_empty]; simp [Kernel.launched]
    refine ⟨fun threads' executed issue => ?_, fun top rest _ t _ live => ?_, fun t live => ?_⟩
    · cases issue with
      | live _ someLive _ =>
        obtain ⟨t, _, live⟩ := someLive
        rw [noneLive t] at live; exact absurd live (by decide)
      | dead _ _ someLive _ =>
        obtain ⟨t, live⟩ := someLive
        rw [noneLive t] at live; exact absurd live (by decide)
    · rw [noneLive t] at live; exact absurd live (by decide)
    · rw [noneLive t] at live; exact absurd live (by decide)
  · have invariant := reachable.inv empty
    refine ⟨fun threads' executed issue => ?_, fun top rest shape t inside live => ?_,
      fun t live => ?_⟩
    · obtain ⟨stack', run, _⟩ := invariant.step issue
      rw [run]; rfl
    · exact invariant.atTop shape inside live
    · have member := invariant.launched t live
      have waits := invariant.frame.waits t member live (Finset.notMem_empty t)
      refine ⟨member, ?_⟩
      cases found : state.m_stack.find? (fun entry => t ∈ entry.m_active_mask) with
      | none => simp [waitsAt, found] at waits
      | some entry =>
        exact ⟨entry, List.mem_of_find?_eq_some found, by simpa using List.find?_some found⟩

end Kernel

/-! ## A function with one branch -/

def forkBlocks : BasicBlocks 4 := ![
  ⟨0, ∅, {1, 2}, ∅, ∅, -1⟩,
  ⟨1, {0}, {3}, ∅, ∅, -1⟩,
  ⟨2, {0}, {3}, ∅, ∅, -1⟩,
  ⟨3, {1, 2}, ∅, ∅, ∅, -1⟩]

theorem fork_walk (i : Fin 4) (notStart : i ≠ 0) :
    FlowGraph.Walk forkBlocks.Edge 3 i (if i = 3 then [3] else [i, 3]) := by
  fin_cases i
  · exact absurd rfl notStart
  · exact .step (w := 3) (by decide) .stop
  · exact .step (w := 3) (by decide) .stop
  · exact .stop

def forkGraph : ControlFlowGraph 4 where
  blocks := forkBlocks
  twoBlocks := by decide
  numbered := by decide
  consistent := by decide
  fresh := by decide
  reachesExit i := by
    by_cases start : i = 0
    · exact ⟨_, .step (w := 1) (start ▸ by decide) (fork_walk 1 (by decide))⟩
    · exact ⟨_, fork_walk i start⟩

theorem fork_meets {X b : Fin 4} (notExit : b ≠ 3)
    (immediate : forkGraph.ImmediatePostdominator X b) : X = 3 := by
  have strict := immediate.strict
  by_cases start : b = 0
  · subst start
    have left := immediate.postdominates _ (.step (w := 1) (by decide) (fork_walk 1 (by decide)))
    have right := immediate.postdominates _ (.step (w := 2) (by decide) (fork_walk 2 (by decide)))
    simp at left right
    omega
  · have direct := immediate.postdominates _ (fork_walk b start)
    rw [if_neg notExit] at direct
    simp at direct
    exact direct.resolve_left strict

def forkCode : FunctionCode where
  n := 4
  graph := forkGraph
  pcs := ![[16], [24], [32], []]
  exitEmpty := rfl
  inhabited := by decide
  distinct := by decide
  proper := by decide
  twoWay := by decide

theorem forkCode_instruction {p : Pc} (instruction : forkCode.Instruction p) :
    p = 16 ∨ p = 24 ∨ p = 32 := by
  obtain ⟨b, member⟩ := instruction
  revert b
  show ∀ b : Fin 4, _
  intro b member
  fin_cases b
  · exact Or.inl (List.mem_singleton.mp member)
  · exact Or.inr (Or.inl (List.mem_singleton.mp member))
  · exact Or.inr (Or.inr (List.mem_singleton.mp member))
  · exact absurd member List.not_mem_nil

theorem forkCode_left : forkCode.Next 16 24 :=
  have edge : forkGraph.Edge 0 1 := by decide
  @FunctionCode.Next.across forkCode (0 : Fin 4) (1 : Fin 4) 16 24 [] [] rfl edge rfl

theorem forkCode_right : forkCode.Next 16 32 :=
  have edge : forkGraph.Edge 0 2 := by decide
  @FunctionCode.Next.across forkCode (0 : Fin 4) (2 : Fin 4) 16 32 [] [] rfl edge rfl

/-- A kernel that consists of the branch. -/
def Kernel.fork : Kernel where
  code := forkCode
  exitPc := 0x1000
  exitFree instruction := by have := forkCode_instruction instruction; revert this; decide
  start_pc := 16
  startInCode := ⟨(0 : Fin 4), List.mem_singleton_self _⟩
  op _ := .other
  noCalls _ := by decide
  isize _ := 8
  reconvergence_pc _ := 0x1000
  reconverges p b X inB immediate _ := by
    have notExit : b ≠ forkGraph.exitBlock := FunctionCode.notExit_of_mem inB
    rw [fork_meets notExit immediate]
    rfl

/-- The two lanes of a warp take different sides. -/
def forked : WarpState 2 where
  m_stack :=
    [⟨32, 0, {1}, 0x1000, .normal⟩, ⟨24, 0, {0}, 0x1000, .normal⟩,
      ⟨0x1000, 1, Finset.univ, nullPc, .normal⟩]
  threads := ⟨fun _ => false, ![24, 32]⟩

theorem forked_reachable : Kernel.fork.Reachable Finset.univ forked := by
  refine .step .launched (.live rfl ⟨0, by decide, by decide⟩ ⟨?_, ?_⟩) (by decide)
  · rintro t (outside | done)
    · exact absurd (Finset.mem_univ t) outside
    · exact absurd done (by revert t; decide)
  · intro t _ _
    refine Or.inr ⟨rfl, ?_⟩
    fin_cases t
    · exact forkCode_left
    · exact forkCode_right

theorem Kernel.reconvergence_fork :
    Kernel.fork.Reachable Finset.univ forked ∧
      ∃ entry ∈ forked.m_stack, 1 ∈ entry.m_active_mask :=
  ⟨forked_reachable, ((Kernel.reconvergence forked_reachable).2.2 1 rfl).2⟩

end AesOnGpu.Simt
