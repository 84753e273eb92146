import AesOnGpu.Simt.Calls

/-! # Reconvergence across calls

`calls_reconverge` follows from the steps of the frames by induction over the
run.  A branch whose paths meet at the end of the callee only is outside of it:
its threads meet at the return PC in the entry of the call, and no return pops
this entry (`callFork_not_restored`).
-/

namespace AesOnGpu.Simt

namespace Program

variable {warpSize : Nat} {program : Program} {frame : CallFrame program warpSize}
  {below : List (CallFrame program warpSize)} {threads' : Threads warpSize}
  {entry : StackEntry warpSize} {rest : SimtStack warpSize} {t : Fin warpSize} {mask : Mask warpSize}

/-! ## Runs -/

theorem Issue.someLive {state : CallState warpSize} {executed : Executed}
    (issue : program.Issue state threads' executed) : ∃ t, (state.threads t).done = false := by
  cases issue with
  | live _ someLive _ =>
    obtain ⟨t, _, live⟩ := someLive
    exact ⟨t, live⟩
  | dead _ _ someLive _ => exact someLive

theorem Reachable.of_empty {allowed : CallState warpSize → Threads warpSize → Prop}
    {state : CallState warpSize} (reachable : program.Reachable allowed ∅ state) :
    state = program.launched ∅ := by
  induction reachable with
  | launched => rfl
  | step _ step _ ih =>
    obtain ⟨executed, issue, _⟩ := step
    obtain ⟨t, live⟩ := issue.someLive
    rw [ih] at live
    simp [Program.launched] at live

theorem Reachable.inFrames {state : CallState warpSize}
    (reachable : program.Reachable program.MeetsInFunction mask state) (nonempty : mask ≠ ∅) :
    ∃ frames : List (CallFrame program warpSize),
      state.m_stack = stackOf frames ∧ FramesInv frames state.threads := by
  induction reachable with
  | launched =>
    let frame : CallFrame program warpSize :=
      ⟨program.kernel, mask, launch (program.start_pc program.kernel) mask⟩
    have started {t : Fin warpSize} (member : t ∈ mask) : (program.launched mask).threads t =
        ⟨false, program.start_pc program.kernel, [bottomPc]⟩ := if_pos member
    have launchedIn (t : Fin warpSize)
        (live : ((program.launched mask).threads t).done = false) : t ∈ mask := by
      by_contra outside
      simp [Program.launched, outside] at live
    have holds : FrameHolds [] frame (program.launched mask).threads :=
      { inv :=
          { waits := fun t member live _ => by
              rw [Threads.lanes_pc live, started member]
              exact waitsAt_cons_of_mem (by exact member) []
            chained := ⟨fun t _ _ => Or.inr ⟨rfl, rfl⟩, trivial⟩
            bounded := fun entry member => Or.inl (by rw [List.mem_singleton.mp member]; rfl)
            active := fun entry member => by rw [List.mem_singleton.mp member]; exact nonempty
            inside := fun entry member => by rw [List.mem_singleton.mp member] }
        located := fun t member _ => by
          rw [started member]
          exact program.startInCode program.kernel
        shaped := .inl (.base rfl rfl) }
    refine ⟨[frame], rfl, .kernel holds fun t live => ?_⟩
    have member := launchedIn t live
    exact ⟨member, by rw [started member]⟩
  | step _ step allowed ih =>
    obtain ⟨frames, stack, invariant⟩ := ih
    obtain ⟨executed, issue, run⟩ := step
    obtain ⟨frames', succeeds, invariant', _⟩ := invariant.step stack issue allowed
    rw [run] at succeeds
    exact ⟨frames', Option.some.inj succeeds, invariant'⟩

theorem FramesInv.callStep {state : CallState warpSize}
    (invariant : FramesInv (frame :: below) state.threads)
    (stack : state.m_stack = entry :: (rest ++ stackOf below)) (shape : frame.entries = entry :: rest)
    (isCall : program.op entry.m_pc = .CALL_OPS)
    (someLive : ∃ t ∈ entry.m_active_mask, (state.threads t).done = false) {executed : Executed}
    (issue : program.Issue state threads' executed)
    (meets : program.MeetsInFunction state threads') :
    ∃ callee : CallFrame program warpSize,
      update state.m_stack threads'.lanes executed = some (stackOf (callee :: frame :: below)) ∧
      FramesInv (callee :: frame :: below) threads' := by
  cases issue with
  | live same _ execute =>
    obtain ⟨rfl, rfl⟩ := List.cons.inj (stack.symm.trans same)
    obtain ⟨callee, run, next⟩ :=
      invariant.call shape isCall execute someLive
        (fun t member live => (meets entry _ stack t member live).1 isCall) (rest ++ stackOf below)
    refine ⟨callee, ?_, next⟩
    rw [stack, run]
    simp [stackOf, shape]
  | dead same allDone _ _ =>
    obtain ⟨rfl, rfl⟩ := List.cons.inj (stack.symm.trans same)
    obtain ⟨t, member, live⟩ := someLive
    simp [allDone t member] at live

theorem Issue.alive {state : CallState warpSize} {executed : Executed}
    (issue : program.Issue state threads' executed) (live : (threads' t).done = false) :
    (state.threads t).done = false := by
  cases issue with
  | live _ _ execute => exact execute.alive live
  | dead _ _ _ _ => exact live

theorem CallRun.alive {allowed : CallState warpSize → Threads warpSize → Prop}
    {call state : CallState warpSize} (run : program.CallRun allowed mask call state)
    (live : (state.threads t).done = false) : (call.threads t).done = false := by
  induction run with
  | call step _ =>
    obtain ⟨_, issue, _⟩ := step
    exact issue.alive live
  | step _ _ step _ ih =>
    obtain ⟨_, issue, _⟩ := step
    exact ih (issue.alive live)

/-- The run from a call on: the frames are still above the caller's, or the
    caller's entry has been restored, or the threads of the caller have all ended. -/
theorem CallRun.inFrames {call state : CallState warpSize}
    (stack : call.m_stack = stackOf (frame :: below))
    (invariant : FramesInv (frame :: below) call.threads) (shape : frame.entries = entry :: rest)
    (isCall : program.op entry.m_pc = .CALL_OPS)
    (someLive : ∃ t ∈ entry.m_active_mask, (call.threads t).done = false)
    (run : program.CallRun program.MeetsInFunction entry.m_active_mask call state) :
    (∃ upper : List (CallFrame program warpSize), upper ≠ [] ∧
      state.m_stack = stackOf (upper ++ frame :: below) ∧
      FramesInv (upper ++ frame :: below) state.threads) ∨
    (state.m_stack = restored entry (rest ++ stackOf below) (entry.m_pc + program.isize entry.m_pc) ∧
      ¬ InCallee entry.m_active_mask call state ∧
      ∀ t ∈ entry.m_active_mask, (state.threads t).done = false →
        (state.threads t).pc = entry.m_pc + program.isize entry.m_pc) ∨
    ∀ t ∈ entry.m_active_mask, (state.threads t).done = true := by
  have isStack : call.m_stack = entry :: (rest ++ stackOf below) := by
    rw [stack, stackOf, List.flatMap_cons, shape]
    rfl
  induction run with
  | @call state step allowed =>
    obtain ⟨executed, issue, run⟩ := step
    obtain ⟨callee, pushed, next⟩ := invariant.callStep isStack shape isCall someLive issue allowed
    rw [run] at pushed
    exact Or.inl ⟨[callee], by simp, Option.some.inj pushed, next⟩
  | @step state state' before inCallee step allowed ih =>
    obtain ⟨executed, issue, run⟩ := step
    obtain running | returned | ended := ih
    · obtain ⟨upper, above, same, current⟩ := running
      obtain ⟨frames', succeeds, next, frameStep⟩ := current.step same issue allowed
      rw [run] at succeeds
      rw [Option.some.inj succeeds]
      cases upper with
      | nil => exact absurd rfl above
      | cons first more =>
        cases more with
        | nil =>
          -- the callee itself is the innermost frame
          cases frameStep with
          | within => exact Or.inl ⟨[_], by simp, rfl, next⟩
          | call => exact Or.inl ⟨[_, first], by simp, rfl, next⟩
          | ret shape' arrived =>
            obtain ⟨rfl, rfl⟩ := List.cons.inj (shape.symm.trans shape')
            refine Or.inr (Or.inl ⟨?_, ?_, arrived⟩)
            · rw [restored_append]
              rfl
            · rintro ⟨t, member, live, deeper⟩
              have inside : t ∈ frame.members :=
                invariant.innermost.inv.inside entry (by simp [shape]) member
              have depth := invariant.depth frame below rfl t inside (before.alive (issue.alive live))
              rw [next.depth _ below rfl t inside live, depth] at deeper
              exact absurd deeper (lt_irrefl _)
          | drop shape' ended =>
            obtain ⟨rfl, rfl⟩ := List.cons.inj (shape.symm.trans shape')
            exact Or.inr (Or.inr ended)
        | cons second more =>
          cases frameStep with
          | within => exact Or.inl ⟨_ :: second :: more, by simp, rfl, next⟩
          | call => exact Or.inl ⟨_ :: first :: second :: more, by simp, rfl, next⟩
          | ret _ _ => exact Or.inl ⟨_ :: more, by simp, rfl, next⟩
          | drop _ _ => exact Or.inl ⟨second :: more, by simp, rfl, next⟩
    · exact absurd inCallee returned.2.1
    · obtain ⟨t, member, live, _⟩ := inCallee
      simp [ended t member] at live

/-! ## The result -/

/-- When threads take calls and the returns of a callee together, and paths meet inside their
    functions where the table says, calls do not disturb reconvergence. -/
theorem calls_reconverge (program : Program) (mask : Mask warpSize) :
    program.CallsReconverge program.MeetsInFunction mask := by
  by_cases empty : mask = ∅
  · subst empty
    have noneLive {state : CallState warpSize}
        (reachable : program.Reachable program.MeetsInFunction ∅ state) (t : Fin warpSize) :
        (state.threads t).done ≠ false := by
      rw [reachable.of_empty]
      simp [launched]
    exact
      { defined := fun state reachable threads' executed issue _ => by
          obtain ⟨t, live⟩ := issue.someLive
          exact absurd live (noneLive reachable t)
        restores := fun caller reachable _ _ _ _ someLive => by
          obtain ⟨t, _, live⟩ := someLive
          exact absurd live (noneLive reachable t)
        merges := fun state reachable _ _ _ _ t _ live => absurd live (noneLive reachable t)
        unmerged := fun state reachable entry rest shape _ => by
          rw [reachable.of_empty] at shape
          exact Or.inr (List.cons.inj shape).2.symm }
  · exact
      { defined := fun state reachable threads' executed issue meets => by
          obtain ⟨frames, stack, invariant⟩ := reachable.inFrames empty
          obtain ⟨frames', run, _⟩ := invariant.step stack issue meets
          rw [run]
          rfl
        restores := fun caller reachable entry stackRest shape isCall someLive state run returned
            stillLive => by
          obtain ⟨frames, stack, invariant⟩ := reachable.inFrames empty
          obtain ⟨frame, below, rest, rfl, entries, rfl⟩ := invariant.topEntry (stack ▸ shape)
          obtain running | restored | ended := run.inFrames stack invariant entries isCall someLive
          · obtain ⟨upper, above, _, current⟩ := running
            obtain ⟨t, member, live⟩ := stillLive
            -- the thread is still in the callee
            refine absurd ⟨t, member, live, ?_⟩ returned
            have inside : t ∈ frame.members :=
              invariant.innermost.inv.inside entry (by simp [entries]) member
            rw [invariant.depth frame below rfl t inside (run.alive live)]
            exact current.deeper above entries member live
          · exact ⟨restored.1, restored.2.2⟩
          · obtain ⟨t, member, live⟩ := stillLive
            simp [ended t member] at live
        merges := fun state reachable entry stackRest shape hasRecvg t member live => by
          obtain ⟨frames, stack, invariant⟩ := reachable.inFrames empty
          obtain ⟨frame, below, rest, rfl, entries, rfl⟩ := invariant.topEntry (stack ▸ shape)
          have chained := invariant.innermost.inv.chained
          rw [entries] at chained
          cases chained.1 t member live with
          | inl waits => exact waitsAt_append waits (stackOf below)
          | inr nowhere => exact absurd nowhere.2 hasRecvg
        unmerged := fun state reachable entry stackRest shape noRecvg => by
          obtain ⟨frames, stack, invariant⟩ := reachable.inFrames empty
          obtain ⟨frame, below, rest, rfl, entries, rfl⟩ := invariant.topEntry (stack ▸ shape)
          cases invariant.innermost.based entries with
          | inner _ hasRecvg _ => exact absurd noRecvg hasRecvg
          | base isType _ =>
            cases below with
            | nil => exact Or.inr rfl
            | cons caller below => exact Or.inl isType }

end Program

/-! ## A callee with one branch -/

def callerBlocks : ControlFlow.BasicBlocks 2 := ![
  ⟨0, ∅, {1}, ∅, ∅, -1⟩,
  ⟨1, {0}, ∅, ∅, ∅, -1⟩]

def callerGraph : ControlFlow.ControlFlowGraph 2 where
  blocks := callerBlocks
  twoBlocks := by decide
  numbered := by decide
  consistent := by decide
  fresh := by decide
  reachesExit i := by
    by_cases start : i = 0
    · exact ⟨_, .step (w := 1) (start ▸ by decide) .stop⟩
    · obtain rfl : i = 1 := by omega
      exact ⟨_, .stop⟩

def callerCode : FunctionCode where
  n := 2
  graph := callerGraph
  pcs := ![[48, 56], []]
  exitEmpty := rfl
  inhabited := by decide
  distinct := by decide
  proper := by decide
  twoWay := by decide

theorem callerCode_instruction {p : Pc} (instruction : callerCode.Instruction p) :
    p = 48 ∨ p = 56 := by
  obtain ⟨b, member⟩ := instruction
  revert b
  show ∀ b : Fin 2, _
  intro b member
  fin_cases b
  · simpa [callerCode] using member
  · simp [callerCode] at member

theorem callerCode_next : callerCode.Next 48 56 :=
  @FunctionCode.Next.within callerCode (0 : Fin 2) 48 56 [] [] rfl

def callForkCode : Fin 2 → FunctionCode
  | 0 => callerCode
  | 1 => forkCode

def callForkPcs : Fin 2 → List Pc
  | 0 => [48, 56]
  | 1 => [16, 24, 32]

theorem callForkCode_instruction {f : Fin 2} {p : Pc}
    (instruction : (callForkCode f).Instruction p) : p ∈ callForkPcs f := by
  match f with
  | 0 => simpa [callForkPcs] using callerCode_instruction instruction
  | 1 => simpa [callForkPcs] using forkCode_instruction instruction

theorem callForkPcs_apart (f g : Fin 2) (p : Pc) (inF : p ∈ callForkPcs f)
    (inG : p ∈ callForkPcs g) : f = g := by
  have disjoint : List.Disjoint (callForkPcs 0) (callForkPcs 1) := by simp [callForkPcs]
  match f, g with
  | 0, 0 => rfl
  | 1, 1 => rfl
  | 0, 1 => exact absurd inG (disjoint inF)
  | 1, 0 => exact absurd inF (disjoint inG)

theorem callForkPcs_free (f : Fin 2) : reconvergeReturnPc ∉ callForkPcs f := by
  fin_cases f
  · simp [callForkPcs, reconvergeReturnPc]
  · simp [callForkPcs, reconvergeReturnPc]

theorem fork_returns (b : Fin 4) {p : Pc} (member : p ∈ forkCode.pcs b) (isReturn : p = 24 ∨ p = 32) :
    forkGraph.Edge b 3 := by
  fin_cases b
  · obtain rfl : p = 16 := List.mem_singleton.mp member
    simp at isReturn
  · decide
  · decide
  · exact absurd member List.not_mem_nil

def callFork : Program where
  functions := 2
  code := callForkCode
  kernel := 0
  start_pc f := if f = 0 then 48 else 16
  startInCode f := match f with
    | 0 => ⟨(0 : Fin 2), List.mem_cons_self⟩
    | 1 => ⟨(0 : Fin 4), List.mem_cons_self⟩
  apart f g p inF inG :=
    callForkPcs_apart f g p (callForkCode_instruction inF) (callForkCode_instruction inG)
  returnMarkFree f instruction := callForkPcs_free f (callForkCode_instruction instruction)
  op p := if p = 48 then .CALL_OPS else if p = 24 ∨ p = 32 then .RET_OPS else .other
  isize _ := 8
  callee _ := 1
  callNext f p instruction isCall := by
    have atCall : p = 48 := by
      by_contra other
      rw [if_neg other] at isCall
      split at isCall <;> simp at isCall
    subst atCall
    match f with
    | 0 => exact callerCode_next
    | 1 => have := forkCode_instruction instruction; simp at this
  returnToExit f b p member isReturn := by
    have atReturn : p = 24 ∨ p = 32 := by
      by_contra other
      rw [if_neg other] at isReturn
      split at isReturn <;> simp at isReturn
    match f with
    | 0 =>
      have := callerCode_instruction ⟨b, member⟩
      rcases atReturn with rfl | rfl <;> simp at this
    | 1 => exact fork_returns b member atReturn
  reconvergence_pc _ := reconvergeReturnPc

namespace Program

/-- The threads of the warp after the call, the branch, and the two returns. -/
def callForkThreads : Nat → Threads 2
  | 0 => fun _ => ⟨false, 48, [0]⟩
  | 1 => fun _ => ⟨false, 16, [56, 0]⟩
  | 2 => ![⟨false, 24, [56, 0]⟩, ⟨false, 32, [56, 0]⟩]
  | 3 => ![⟨false, 24, [56, 0]⟩, ⟨false, 56, [0]⟩]
  | _ => fun _ => ⟨false, 56, [0]⟩

def callForkStack : Nat → SimtStack 2
  | 0 => launch 48 Finset.univ
  | 1 => ⟨16, 0, Finset.univ, nullPc, .call⟩ :: launch 48 Finset.univ
  | 2 => ⟨32, 0, {1}, 56, .normal⟩ :: ⟨24, 0, {0}, 56, .normal⟩ ::
      ⟨56, 0, Finset.univ, nullPc, .call⟩ :: launch 48 Finset.univ
  | 3 => ⟨24, 0, {0}, 56, .normal⟩ :: ⟨56, 0, Finset.univ, nullPc, .call⟩ ::
      launch 48 Finset.univ
  | _ => ⟨56, 0, Finset.univ, nullPc, .call⟩ :: launch 48 Finset.univ

def callForkState (n : Nat) : CallState 2 := ⟨callForkStack n, callForkThreads n⟩

theorem callFork_launched : callFork.launched Finset.univ = callForkState 0 := by
  simp [launched, callForkState, callForkStack, callForkThreads, callFork, bottomPc]

theorem callFork_step {n m : Nat} {top : StackEntry 2} {rest : SimtStack 2} {s : Fin 2}
    (shape : callForkStack n = top :: rest) (member : s ∈ top.m_active_mask)
    (live : ∀ t, (callForkThreads n t).done = false)
    (others : ∀ t, t ∉ top.m_active_mask → callForkThreads m t = callForkThreads n t)
    (moved : ∀ t ∈ top.m_active_mask, ∃ f : Fin 2, (callForkCode f).Instruction top.m_pc ∧
      callFork.ThreadStep f top.m_pc (callForkThreads n t) (callForkThreads m t))
    (run : update (callForkStack n) (callForkThreads m).lanes
      (callFork.executed (callForkThreads m) top.m_pc) = some (callForkStack m)) :
    callFork.Step (callForkState n) (callForkState m) := by
  refine ⟨_, .live shape ⟨s, member, live s⟩ ⟨?_, ?_⟩, run⟩
  · rintro t (outside | done)
    · exact others t outside
    · exact absurd done (by simp [callForkState, live t])
  · intro t inside _
    exact moved t inside

theorem callFork_called : callFork.Step (callForkState 0) (callForkState 1) :=
  callFork_step rfl (Finset.mem_univ 0) (fun _ => rfl)
    (fun t outside => absurd (Finset.mem_univ t) outside)
    (fun _ _ => ⟨(0 : Fin 2), ⟨(0 : Fin 2), by decide⟩, .call rfl⟩) (by decide)

theorem callFork_branched : callFork.Step (callForkState 1) (callForkState 2) := by
  refine callFork_step rfl (Finset.mem_univ 0) (fun _ => rfl)
    (fun t outside => absurd (Finset.mem_univ t) outside) (fun t _ => ?_) (by decide)
  refine ⟨(1 : Fin 2), ⟨(0 : Fin 4), by decide⟩, ?_⟩
  fin_cases t
  · exact .next (by decide) forkCode_left
  · exact .next (by decide) forkCode_right

theorem callFork_right_returned : callFork.Step (callForkState 2) (callForkState 3) := by
  refine callFork_step rfl (Finset.mem_singleton_self 1) (fun t => ?_) (fun t outside => ?_)
    (fun t member => ?_) (by decide)
  · fin_cases t <;> rfl
  · fin_cases t
    · rfl
    · simp at outside
  · obtain rfl := Finset.mem_singleton.mp member
    exact ⟨(1 : Fin 2), ⟨(2 : Fin 4), by decide⟩, .ret rfl⟩

theorem callFork_left_returned : callFork.Step (callForkState 3) (callForkState 4) := by
  refine callFork_step rfl (Finset.mem_singleton_self 0) (fun t => ?_) (fun t outside => ?_)
    (fun t member => ?_) (by decide)
  · fin_cases t <;> rfl
  · fin_cases t
    · simp at outside
    · rfl
  · obtain rfl := Finset.mem_singleton.mp member
    exact ⟨(1 : Fin 2), ⟨(1 : Fin 4), by decide⟩, .ret rfl⟩

theorem callFork_inCallee {n : Nat} (deep : ((callForkThreads n) 0).callstack.length = 2)
    (live : ((callForkThreads n) 0).done = false) :
    InCallee Finset.univ (callForkState 0) (callForkState n) :=
  ⟨0, Finset.mem_univ 0, live, by
    change 1 < ((callForkThreads n) 0).callstack.length
    omega⟩

/-- After both sides of the branch have returned, the entry of the call is still
    there and goes on in the code of the caller. -/
theorem callFork_not_restored :
    ¬ callFork.CallsReconverge (fun _ _ => True) (Finset.univ : Mask 2) := by
  intro claim
  have run : callFork.CallRun (fun _ _ => True) Finset.univ (callForkState 0) (callForkState 4) :=
    .step (.step (.step (.call callFork_called trivial) (callFork_inCallee rfl rfl)
      callFork_branched trivial) (callFork_inCallee rfl rfl) callFork_right_returned trivial)
      (callFork_inCallee rfl rfl) callFork_left_returned trivial
  have back : ¬ InCallee Finset.univ (callForkState 0) (callForkState 4) := by
    rintro ⟨t, _, _, deeper⟩
    exact absurd deeper (lt_irrefl _)
  have reachable : callFork.Reachable (fun _ _ => True) Finset.univ (callForkState 0) :=
    callFork_launched ▸ .launched
  have restored := (claim.restores _ reachable _ _ rfl rfl ⟨0, Finset.mem_univ 0, rfl⟩ _ run back
    ⟨0, Finset.mem_univ 0, rfl⟩).1
  revert restored
  decide

end Program

end AesOnGpu.Simt
