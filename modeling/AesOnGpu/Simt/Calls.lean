import AesOnGpu.Simt.CallFrames
import AesOnGpu.Simt.Kernel

/-! # Calls and returns

What each instruction does to the frames: a call pushes one, a return taken by
all threads of the callee pops it, and any other instruction changes the
innermost frame only (`FramesInv.step`).
-/

namespace AesOnGpu.Simt

namespace Program

variable {warpSize : Nat} {program : Program} {frame caller : CallFrame program warpSize}
  {below frames : List (CallFrame program warpSize)} {threads threads' : Threads warpSize}
  {entry top : StackEntry warpSize} {rest entries' : SimtStack warpSize} {t : Fin warpSize}
  {f : Fin program.functions} {p : Pc} {mask : Mask warpSize} {thread thread' : Thread}

/-! ## One thread -/

theorem Execute.alive (execute : program.Execute p mask threads threads')
    (live : (threads' t).done = false) : (threads t).done = false := by
  cases done : (threads t).done with
  | false => rfl
  | true => rw [execute.others t (Or.inr done), done] at live; exact live

theorem Execute.laneMove (execute : program.Execute p mask threads threads')
    (next : ∀ t ∈ mask, (threads' t).done = false → (program.code f).Next p (threads' t).pc) :
    LaneMove (program.code f) p mask threads.lanes threads'.lanes where
  alive _ live := execute.alive live
  others t live outside := by
    rw [Threads.lanes_pc live, Threads.lanes_pc (execute.alive live),
      execute.others t (Or.inl outside)]
  moved t member live := by
    rw [Threads.lanes_pc live]
    exact next t member live

theorem ThreadStep.calls (step : program.ThreadStep f p thread thread')
    (call : program.op p = .CALL_OPS)
    (deeper : thread.callstack.length < thread'.callstack.length) :
    thread' = ⟨false, program.start_pc (program.callee p),
      (p + program.isize p) :: thread.callstack⟩ := by
  cases step with
  | call _ => rfl
  | skip _ => exact absurd deeper (lt_irrefl _)
  | ret isRet => simp [call] at isRet
  | retExit isRet _ => simp [call] at isRet
  | next notCall _ => exact absurd call notCall
  | exit other _ => simp [call] at other

theorem ThreadStep.returns (step : program.ThreadStep f p thread thread')
    (isReturn : program.op p = .RET_OPS) (deep : 1 < thread.callstack.length)
    (shorter : thread'.callstack.length < thread.callstack.length) {r : Pc}
    (head : thread.callstack.head? = some r) : thread' = ⟨false, r, thread.callstack.tail⟩ := by
  cases step with
  | call isCall => simp [isReturn] at isCall
  | skip isCall => simp [isReturn] at isCall
  | ret _ =>
    obtain rfl := Option.some.inj head
    rfl
  | retExit _ single => simp [single] at deep
  | next _ _ => exact absurd shorter (lt_irrefl _)
  | exit other _ => simp [isReturn] at other

theorem ThreadStep.goesOn (step : program.ThreadStep f p thread thread')
    (notCall : program.op p ≠ .CALL_OPS)
    (notReturn : program.op p = .RET_OPS → thread.callstack.length ≤ 1)
    (live : thread'.done = false) :
    (program.code f).Next p thread'.pc ∧ thread'.callstack = thread.callstack := by
  cases step with
  | call isCall => exact absurd isCall notCall
  | skip isCall => exact absurd isCall notCall
  | ret isReturn => have := notReturn isReturn; simp at this
  | retExit _ _ => simp at live
  | next _ next => exact ⟨next, rfl⟩
  | exit _ done => simp [done] at live

/-! ## The innermost frame -/

theorem FrameHolds.nonempty (holds : FrameHolds (caller :: below) frame threads) :
    frame.entries ≠ [] := by
  intro empty
  cases holds.shaped with
  | inl based =>
    rw [empty] at based
    cases based
  | inr none => cases none.1

theorem FrameHolds.moved (holds : FrameHolds below frame threads)
    (shape : frame.entries = top :: rest)
    (execute : program.Execute top.m_pc top.m_active_mask threads threads')
    (member : t ∈ top.m_active_mask) (live : (threads t).done = false) :
    program.ThreadStep frame.function top.m_pc (threads t) (threads' t) := by
  have inside : t ∈ frame.members := holds.inv.inside top (by simp [shape]) member
  obtain ⟨f, instruction, step⟩ := execute.moved t member live
  have located := holds.located t inside live
  rw [holds.atTop shape member live] at located
  exact program.apart f frame.function top.m_pc instruction located ▸ step

/-- What becomes of the entries of the innermost frame: they keep what holds of
    them, or the threads of a callee have all ended. -/
def Proceeds (below : List (CallFrame program warpSize)) (frame : CallFrame program warpSize)
    (entries' : SimtStack warpSize) (threads' : Threads warpSize) : Prop :=
  FrameHolds below { frame with entries := entries' } threads' ∨
    below ≠ [] ∧ entries' = [] ∧ ∀ t ∈ frame.members, (threads' t).done = true

theorem FrameHolds.outcome (holds : FrameHolds below frame threads)
    (shape : frame.entries = top :: rest)
    (move : LaneMove (program.code frame.function) top.m_pc top.m_active_mask threads.lanes
      threads'.lanes) {recvg_pc : Pc}
    (recvg : RecvgAt (program.code frame.function) (program.framesExit frame.function below) top threads'.lanes
      recvg_pc)
    (proper : TwoWays top threads'.lanes → recvg_pc ≠ nullPc)
    (outcome : Outcome top rest threads'.lanes recvg_pc entries') :
    Proceeds below frame entries' threads' := by
  have before := holds.inv
  rw [shape] at before
  have inv := before.step (framesExit_free below frame.function) move recvg outcome
  have located : ∀ t ∈ frame.members, (threads' t).done = false →
      (program.code frame.function).Instruction (threads' t).pc := by
    intro t member live
    have wasLive : (threads t).done = false := move.alive t live
    by_cases inTop : t ∈ top.m_active_mask
    · have next := move.moved t inTop live
      rw [Threads.lanes_pc live] at next
      exact next.instruction
    · have same := move.others t live inTop
      rw [Threads.lanes_pc live, Threads.lanes_pc wasLive] at same
      rw [same]
      exact holds.located t member wasLive
  have arrives (q : Pc) (some : (threads'.lanes.group top.m_active_mask q).Nonempty) :
      q ≠ nullPc := by
    obtain ⟨t, inGroup⟩ := some
    obtain ⟨inTop, live, rfl⟩ := Lanes.mem_group.mp inGroup
    exact (move.moved t inTop live).instruction.ne_null
  cases (holds.based shape).outcome outcome arrives proper with
  | inr kept => exact Or.inl ⟨inv, located, Or.inl kept⟩
  | inl empty =>
    cases below with
    | nil => exact Or.inl ⟨inv, located, Or.inr ⟨rfl, empty⟩⟩
    | cons caller below =>
      refine Or.inr ⟨by simp, empty, fun t member => ?_⟩
      -- a live thread would have to wait at some entry
      by_contra live
      have waits := inv.waits t member (by simpa using live) (Finset.notMem_empty t)
      simp [empty] at waits

theorem FrameHolds.ordinary (holds : FrameHolds below frame threads)
    (shape : frame.entries = top :: rest)
    (move : LaneMove (program.code frame.function) top.m_pc top.m_active_mask threads.lanes
      threads'.lanes)
    (notCall : program.op top.m_pc ≠ .CALL_OPS)
    (notReturn : program.op top.m_pc = .RET_OPS → top.m_type = .normal)
    (recvg : RecvgAt (program.code frame.function) (program.framesExit frame.function below) top threads'.lanes
      (program.executed threads' top.m_pc).recvg_pc)
    (proper : TwoWays top threads'.lanes →
      (program.executed threads' top.m_pc).recvg_pc ≠ nullPc) (lower : SimtStack warpSize) :
    ∃ entries', update (top :: (rest ++ lower)) threads'.lanes
        (program.executed threads' top.m_pc) = some (entries' ++ lower) ∧
      Proceeds below frame entries' threads' := by
  have before := holds.inv
  rw [shape] at before
  have atTop : AtTop top threads'.lanes (program.executed threads' top.m_pc) :=
    ⟨rfl, before.active top List.mem_cons_self,
      fun t inside live => (move.moved t inside live).instruction.ne_null⟩
  have inCallee : top.m_type = .call → TwoWays top threads'.lanes →
      (program.executed threads' top.m_pc).recvg_pc ≠ top.m_recvg_pc := by
    intro call twoWays
    cases holds.based shape with
    | base _ noRecvg => rw [noRecvg]; exact proper twoWays
    | inner normal _ _ => simp [normal] at call
  have mayDiverge := before.mayDiverge (framesExit_free below frame.function) move recvg inCallee
  obtain ⟨stack', run, outcome⟩ :=
    update_spec atTop (rest ++ lower) notCall notReturn mayDiverge
  obtain ⟨entries', same, inner⟩ := outcome.split
  exact ⟨entries', same ▸ run, holds.outcome shape move recvg proper inner⟩

theorem FrameHolds.dead (holds : FrameHolds below frame threads)
    (shape : frame.entries = top :: rest)
    (allDone : ∀ t ∈ top.m_active_mask, (threads t).done = true) {executed : Executed}
    (atPc : executed.next_inst_pc = top.m_pc) (lower : SimtStack warpSize) :
    update (top :: (rest ++ lower)) threads.lanes executed = some (rest ++ lower) ∧
      Proceeds below frame rest threads := by
  have none (q : Pc) : threads.lanes.group top.m_active_mask q = ∅ := by
    apply Finset.eq_empty_of_forall_notMem
    intro t member
    obtain ⟨inside, live, _⟩ := Lanes.mem_group.mp member
    simp [allDone t inside] at live
  have notLive (t : Fin warpSize) (inside : t ∈ top.m_active_mask) :
      threads.lanes.thread_done t ≠ false := by simp [allDone t inside]
  have atTop : AtTop top threads.lanes executed :=
    ⟨atPc.symm, holds.inv.active top (by simp [shape]),
      fun t inside live => absurd live (notLive t inside)⟩
  have move : LaneMove (program.code frame.function) top.m_pc top.m_active_mask threads.lanes
      threads.lanes :=
    ⟨fun _ live => live, fun _ _ _ => rfl, fun t inside live => absurd live (notLive t inside)⟩
  have together : ¬ TwoWays top threads.lanes := by
    rintro ⟨q, _, _, some, _⟩
    exact some.ne_empty (none q)
  have recvg : RecvgAt (program.code frame.function) (program.framesExit frame.function below) top threads.lanes
      nullPc := fun twoWays => absurd twoWays together
  exact ⟨update_finished atTop (rest ++ lower) none,
    holds.outcome shape move recvg (fun twoWays => absurd twoWays together) (.finished none)⟩

theorem FramesInv.topEntry (invariant : FramesInv frames threads) {stackRest : SimtStack warpSize}
    (shape : stackOf frames = top :: stackRest) :
    ∃ frame below rest, frames = frame :: below ∧ frame.entries = top :: rest ∧
      stackRest = rest ++ stackOf below := by
  cases frames with
  | nil => simp [stackOf] at shape
  | cons frame below =>
    rw [stackOf, List.flatMap_cons] at shape
    cases entries : frame.entries with
    | nil =>
      cases below with
      | nil => simp [entries] at shape
      | cons caller below => exact absurd entries invariant.innermost.nonempty
    | cons first rest =>
      rw [entries] at shape
      obtain ⟨rfl, rfl⟩ := List.cons.inj shape
      exact ⟨frame, below, rest, rfl, entries, rfl⟩

/-! ## One step of the frames -/

inductive FrameStep (threads' : Threads warpSize) :
    List (CallFrame program warpSize) → List (CallFrame program warpSize) → Prop where
  | within {frame : CallFrame program warpSize} {below : List (CallFrame program warpSize)}
      {entries' : SimtStack warpSize} :
      FrameStep threads' (frame :: below) ({ frame with entries := entries' } :: below)
  | call {frame : CallFrame program warpSize} {frames : List (CallFrame program warpSize)} :
      FrameStep threads' frames (frame :: frames)
  | ret {frame caller : CallFrame program warpSize} {below : List (CallFrame program warpSize)}
      {entry : StackEntry warpSize} {rest : SimtStack warpSize} :
      caller.entries = entry :: rest →
      (∀ t ∈ entry.m_active_mask, (threads' t).done = false →
        (threads' t).pc = entry.m_pc + program.isize entry.m_pc) →
      FrameStep threads' (frame :: caller :: below)
        ({ caller with
          entries := restored entry rest (entry.m_pc + program.isize entry.m_pc) } :: below)
  | drop {frame caller : CallFrame program warpSize} {below : List (CallFrame program warpSize)}
      {entry : StackEntry warpSize} {rest : SimtStack warpSize} :
      caller.entries = entry :: rest →
      (∀ t ∈ entry.m_active_mask, (threads' t).done = true) →
      FrameStep threads' (frame :: caller :: below) (caller :: below)

theorem FramesInv.proceed (invariant : FramesInv (frame :: below) threads)
    (others : ∀ t, t ∉ frame.members → threads' t = threads t)
    (kept : ∀ t ∈ frame.members, (threads' t).done = false →
      (threads t).done = false ∧ (threads' t).callstack = (threads t).callstack)
    (proceeds : Proceeds below frame entries' threads') :
    ∃ frames', stackOf frames' = entries' ++ stackOf below ∧ FramesInv frames' threads' ∧
      FrameStep threads' (frame :: below) frames' := by
  cases proceeds with
  | inl holds => exact ⟨_, rfl, invariant.replace holds others kept, .within⟩
  | inr ended =>
    obtain ⟨inCallee, empty, allDone⟩ := ended
    cases below with
    | nil => exact absurd rfl inCallee
    | cons caller below =>
      refine ⟨caller :: below, by rw [empty]; rfl, invariant.drop others allDone, ?_⟩
      cases invariant with
      | @callee _ _ _ _ entry rest holds shape call part whole returns lower =>
        refine .drop shape fun t member => ?_
        by_contra live
        have live' : (threads' t).done = false := by simpa using live
        by_cases inside : t ∈ frame.members
        · exact live (allDone t inside)
        · have same := others t inside
          exact inside (whole t member (same ▸ live'))

theorem FramesInv.call (invariant : FramesInv (frame :: below) threads)
    (shape : frame.entries = top :: rest) (isCall : program.op top.m_pc = .CALL_OPS)
    (execute : program.Execute top.m_pc top.m_active_mask threads threads')
    (someLive : ∃ t ∈ top.m_active_mask, (threads t).done = false)
    (allCall : ∀ t ∈ top.m_active_mask, (threads t).done = false →
      (threads t).callstack.length < (threads' t).callstack.length) (lower : SimtStack warpSize) :
    ∃ callee : CallFrame program warpSize,
      update (top :: lower) threads'.lanes (program.executed threads' top.m_pc) =
        some (callee.entries ++ top :: lower) ∧
      FramesInv (callee :: frame :: below) threads' := by
  have holds := invariant.innermost
  have called (t : Fin warpSize) (member : t ∈ top.m_active_mask)
      (live : (threads t).done = false) : threads' t =
        ⟨false, program.start_pc (program.callee top.m_pc),
          (top.m_pc + program.isize top.m_pc) :: (threads t).callstack⟩ :=
    (holds.moved shape execute member live).calls isCall (allCall t member live)
  let start := program.start_pc (program.callee top.m_pc)
  have startInCode := program.startInCode (program.callee top.m_pc)
  have atStart {t : Fin warpSize} (member : t ∈ top.m_active_mask)
      (live : (threads' t).done = false) : threads'.lanes.next_pc t = start := by
    rw [Threads.lanes_pc live, called t member (execute.alive live)]
  let group := threads'.lanes.group top.m_active_mask start
  have inGroup {t : Fin warpSize} (member : t ∈ top.m_active_mask)
      (live : (threads' t).done = false) : t ∈ group :=
    Lanes.mem_group.mpr ⟨member, live, atStart member live⟩
  have only (q : Pc) : (threads'.lanes.group top.m_active_mask q).Nonempty ↔ q = start := by
    constructor
    · rintro ⟨t, inside⟩
      obtain ⟨member, live, atQ⟩ := Lanes.mem_group.mp inside
      exact atQ.symm.trans (atStart member live)
    · rintro rfl
      obtain ⟨t, member, live⟩ := someLive
      exact ⟨t, inGroup member (by rw [called t member live])⟩
  have nonempty : group.Nonempty := (only start).mpr rfl
  have atTop : AtTop top threads'.lanes (program.executed threads' top.m_pc) :=
    ⟨rfl, holds.inv.active top (by simp [shape]), fun t member live => by
      rw [atStart member live]; exact startInCode.ne_null⟩
  let pushed : StackEntry warpSize := ⟨start, 0, group, nullPc, .call⟩
  have calleeHolds : FrameHolds (frame :: below) ⟨program.callee top.m_pc, group, [pushed]⟩
      threads' :=
    { inv :=
        { waits := fun t member live _ => by
            rw [waitsAt_cons_of_mem (by exact member), atStart (Lanes.mem_group.mp member).1 live]
          chained := ⟨fun t _ _ => Or.inr ⟨rfl, rfl⟩, trivial⟩
          bounded := fun entry member => Or.inl (by rw [List.mem_singleton.mp member])
          active := fun entry member => by
            rw [List.mem_singleton.mp member]; exact nonempty.ne_empty
          inside := fun entry member => by rw [List.mem_singleton.mp member] }
      located := fun t member live => by
        have inTop := (Lanes.mem_group.mp member).1
        rw [called t inTop (execute.alive live)]
        exact startInCode
      shaped := .inl (.base rfl rfl) }
  refine ⟨⟨program.callee top.m_pc, group, [pushed]⟩, update_call atTop lower isCall only, ?_⟩
  refine .callee calleeHolds shape isCall (fun t member => (Lanes.mem_group.mp member).1)
    (fun t member live => inGroup member live) (fun t member live => ?_) ?_
  · rw [called t (Lanes.mem_group.mp member).1 (execute.alive live)]
    rfl
  · -- taken back to the call the threads are where they were
    refine invariant.ends fun t live => ?_
    rw [Threads.suspend_done] at live
    by_cases member : t ∈ group
    · have inTop := (Lanes.mem_group.mp member).1
      have wasLive := execute.alive live
      rw [Threads.suspend_of_mem member, called t inTop wasLive, List.tail_cons,
        ← holds.atTop shape inTop wasLive, ← wasLive]
    · rw [Threads.suspend_of_notMem member]
      exact execute.others t (Or.inl fun inTop => member (inGroup inTop live))

theorem FrameHolds.returnsAtBase (holds : FrameHolds (caller :: below) frame threads)
    (shape : frame.entries = top :: rest) (isReturn : program.op top.m_pc = .RET_OPS) : rest = [] ∧ top.m_type = .call := by
  have bounded := holds.inv.bounded top (by simp [shape])
  cases holds.based shape with
  | base inCall _ => exact ⟨rfl, inCall⟩
  | inner normal hasRecvg _ =>
    exfalso
    cases bounded with
    | inl noRecvg => exact hasRecvg noRecvg
    | inr bounded =>
      obtain ⟨b, R, inB, isTarget, dominates, strict, _⟩ := bounded
      have toExit := program.returnToExit frame.function b top.m_pc inB isReturn
      have isExit := FlowGraph.postdominates_exit (dominates.successor strict toExit)
      rw [isExit, FunctionCode.target_exit] at isTarget
      exact hasRecvg isTarget

/-- The caller's entry goes on where the threads have returned, or is popped
    where it reconverges. -/
theorem FrameHolds.restore (holds : FrameHolds below frame threads)
    (shape : frame.entries = entry :: rest)
    (move : LaneMove (program.code frame.function) entry.m_pc entry.m_active_mask threads.lanes
      threads'.lanes) {returnPc : Pc}
    (next : (program.code frame.function).Next entry.m_pc returnPc)
    (arrived : ∀ t ∈ entry.m_active_mask, (threads' t).done = false → (threads' t).pc = returnPc)
    (someLive : ∃ t ∈ entry.m_active_mask, (threads' t).done = false) :
    FrameHolds below { frame with entries := restored entry rest returnPc } threads' := by
  have atReturn (t : Fin warpSize) (member : t ∈ entry.m_active_mask)
      (live : threads'.lanes.thread_done t = false) : threads'.lanes.next_pc t = returnPc := by
    rw [Threads.lanes_pc live]
    exact arrived t member live
  have only (q : Pc) : (threads'.lanes.group entry.m_active_mask q).Nonempty ↔ q = returnPc := by
    constructor
    · rintro ⟨t, inside⟩
      obtain ⟨member, live, atQ⟩ := Lanes.mem_group.mp inside
      exact atQ.symm.trans (atReturn t member live)
    · rintro rfl
      obtain ⟨t, member, live⟩ := someLive
      exact ⟨t, Lanes.mem_group.mpr ⟨member, live, atReturn t member live⟩⟩
  have together : ¬ TwoWays entry threads'.lanes := by
    rintro ⟨q, r, different, toQ, toR⟩
    exact different (((only q).mp toQ).trans ((only r).mp toR).symm)
  have recvg : RecvgAt (program.code frame.function) (program.framesExit frame.function below) entry
      threads'.lanes nullPc := fun twoWays => absurd twoWays together
  have proceeds (entries' : SimtStack warpSize)
      (outcome : Outcome entry rest threads'.lanes nullPc entries') :
      FrameHolds below { frame with entries := entries' } threads' := by
    cases holds.outcome shape move recvg (fun twoWays => absurd twoWays together) outcome with
    | inl kept => exact kept
    | inr ended =>
      obtain ⟨t, member, live⟩ := someLive
      have inside : t ∈ frame.members := holds.inv.inside entry (by simp [shape]) member
      simp [ended.2.2 t inside] at live
  by_cases popped : returnPc = entry.m_recvg_pc ∧ entry.m_type = .normal
  · rw [restored, if_pos popped]
    exact proceeds rest (.reconverged returnPc only popped.1 popped.2)
  · rw [restored, if_neg popped]
    have apart : returnPc ≠ entry.m_recvg_pc ∨ entry.m_type = .call := by
      cases type : entry.m_type with
      | call => exact Or.inr rfl
      | normal => exact Or.inl fun same => popped ⟨same, type⟩
    have moved := proceeds _ (.moved returnPc only apart)
    have before := holds.inv
    rw [shape] at before
    exact
      { inv := before.resume (framesExit_free below frame.function) move next atReturn apart
        located := moved.located
        -- the mask does not matter to the shape of the entries
        shaped := by
          cases holds.based shape with
          | base isType noRecvg => exact .inl (.base isType noRecvg)
          | inner normal hasRecvg under => exact .inl (.inner normal hasRecvg under) }

theorem FramesInv.ret (invariant : FramesInv (frame :: caller :: below) threads)
    (shape : frame.entries = top :: rest) (isReturn : program.op top.m_pc = .RET_OPS)
    (execute : program.Execute top.m_pc top.m_active_mask threads threads')
    (someLive : ∃ t ∈ top.m_active_mask, (threads t).done = false)
    (allReturn : ∀ t ∈ top.m_active_mask, (threads t).done = false →
      (threads' t).callstack.length < (threads t).callstack.length) :
    ∃ frames', update (stackOf (frame :: caller :: below)) threads'.lanes
        (program.executed threads' top.m_pc) = some (stackOf frames') ∧
      FramesInv frames' threads' ∧ FrameStep threads' (frame :: caller :: below) frames' := by
  have depth := invariant.depth frame (caller :: below) rfl
  cases invariant with
  | @callee _ _ _ _ entry callerRest holds callerShape isCall part whole returns lower =>
    obtain ⟨s, sInTop, sLive⟩ := someLive
    have inside {t : Fin warpSize} (member : t ∈ top.m_active_mask) : t ∈ frame.members :=
      holds.inv.inside top (by simp [shape]) member
    obtain ⟨rfl, inCall⟩ := holds.returnsAtBase shape isReturn
    let returnPc := entry.m_pc + program.isize entry.m_pc
    have returned (t : Fin warpSize) (member : t ∈ top.m_active_mask)
        (live : (threads t).done = false) :
        threads' t = ⟨false, returnPc, (threads t).callstack.tail⟩ := by
      have deep : 1 < (threads t).callstack.length := by
        rw [depth t (inside member) live]
        simp
      exact (holds.moved shape execute member live).returns isReturn deep (allReturn t member live)
        (returns t (inside member) live)
    -- the entry of the call holds all live threads of the callee
    have inTop (t : Fin warpSize) (member : t ∈ frame.members) (live : (threads t).done = false) :
        t ∈ top.m_active_mask := by
      have waits := holds.inv.waits t member live (Finset.notMem_empty t)
      by_contra outside
      rw [shape, waitsAt_cons_of_notMem outside] at waits
      simp at waits
    have back (t : Fin warpSize) (member : t ∈ entry.m_active_mask)
        (live : (threads' t).done = false) :
        threads' t = ⟨false, returnPc, (threads t).callstack.tail⟩ := by
      have wasLive := execute.alive live
      exact returned t (inTop t (whole t member wasLive) wasLive) wasLive
    have others (t : Fin warpSize) (outside : t ∉ frame.members) : threads' t = threads t :=
      execute.others t (Or.inl fun member => outside (inside member))
    have sBack : (threads' s).done = false := by rw [returned s sInTop sLive]
    have sInEntry : s ∈ entry.m_active_mask := part (inside sInTop)
    have only (q : Pc) : (threads'.lanes.group top.m_active_mask q).Nonempty ↔ q = returnPc := by
      constructor
      · rintro ⟨t, member⟩
        obtain ⟨tInTop, live, atQ⟩ := Lanes.mem_group.mp member
        rw [Threads.lanes_pc live, returned t tInTop (execute.alive live)] at atQ
        exact atQ.symm
      · rintro rfl
        refine ⟨s, Lanes.mem_group.mpr ⟨sInTop, sBack, ?_⟩⟩
        rw [Threads.lanes_pc sBack, returned s sInTop sLive]
    have callerHolds := lower.innermost
    have next : (program.code caller.function).Next entry.m_pc returnPc := by
      have sInCaller : s ∈ caller.members :=
        callerHolds.inv.inside entry (by simp [callerShape]) sInEntry
      have located := callerHolds.located s sInCaller (by simpa using sLive)
      rw [Threads.suspend_of_mem (inside sInTop)] at located
      exact program.callNext caller.function entry.m_pc located isCall
    have move : LaneMove (program.code caller.function) entry.m_pc entry.m_active_mask
        (threads.suspend frame.members entry.m_pc).lanes threads'.lanes :=
      { alive := fun t live => by
          rw [Threads.lanes_done, Threads.suspend_done]
          exact execute.alive live
        others := fun t live outside => by
          have notMember : t ∉ frame.members := fun member => outside (part member)
          have wasLive := execute.alive live
          rw [Threads.lanes_pc live, Threads.lanes_pc (by simpa using wasLive), others t notMember,
            Threads.suspend_of_notMem notMember]
        moved := fun t member live => by
          rw [Threads.lanes_pc live, back t member live]
          exact next }
    have atTop : AtTop top threads'.lanes (program.executed threads' top.m_pc) :=
      ⟨rfl, holds.inv.active top (by simp [shape]), fun t member live => by
        rw [Threads.lanes_pc live, returned t member (execute.alive live)]
        exact next.instruction.ne_null⟩
    have restoredHolds := callerHolds.restore callerShape move next
      (fun t member live => by rw [back t member live]) ⟨s, sInEntry, sBack⟩
    refine ⟨_, ?_, lower.replace restoredHolds (fun t outside => ?_) (fun t member live => ?_),
      .ret callerShape fun t member live => by rw [back t member live]⟩
    · have run := update_return atTop entry (callerRest ++ stackOf below) isReturn inCall only
      have split := @restored_append warpSize callerRest (stackOf below) entry returnPc
      simp only [stackOf, List.flatMap_cons, shape, callerShape, List.cons_append, List.nil_append]
        at run split ⊢
      rw [← split]
      exact run
    · have notMember : t ∉ frame.members := fun member =>
        outside (callerHolds.inv.inside entry (by simp [callerShape]) (part member))
      rw [others t notMember, Threads.suspend_of_notMem notMember]
    · have wasLive := execute.alive live
      refine ⟨by simpa using wasLive, ?_⟩
      by_cases inFrame : t ∈ frame.members
      · rw [back t (part inFrame) live, Threads.suspend_of_mem inFrame]
      · rw [others t inFrame, Threads.suspend_of_notMem inFrame]

/-! ## The reconvergence PC -/

theorem executed_recvg (recorded : program.Recorded p) {b X : Fin (program.code f).n}
    (inB : p ∈ (program.code f).pcs b)
    (immediate : (program.code f).graph.ImmediatePostdominator X b)
    (inside : X ≠ (program.code f).graph.exitBlock) (exitPc : Pc) :
    (program.executed threads' p).recvg_pc = (program.code f).target exitPc X := by
  have recorded := recorded f b X inB immediate
  have member := FunctionCode.target_mem inside reconvergeReturnPc
  have unmarked : program.reconvergence_pc p ≠ reconvergeReturnPc := by
    intro marked
    rw [recorded] at marked
    exact program.returnMarkFree f ⟨X, marked ▸ member⟩
  rw [executed, Threads.resolveRecvg_of_ne unmarked, recorded]
  exact FunctionCode.target_congr inside _ _

theorem executed_recvg_kernel (recorded : program.Recorded p) {b X : Fin (program.code f).n}
    (inB : p ∈ (program.code f).pcs b)
    (immediate : (program.code f).graph.ImmediatePostdominator X b)
    (atExit : X = (program.code f).graph.exitBlock)
    (inKernel : ∀ t, (threads' t).done = false → (threads' t).callstack = [bottomPc])
    (someLive : ∃ t, (threads' t).done = false) :
    (program.executed threads' p).recvg_pc = (program.code f).target bottomPc X := by
  have recorded := recorded f b X inB immediate
  rw [atExit, FunctionCode.target_exit] at recorded
  rw [executed, recorded, atExit, FunctionCode.target_exit]
  exact Threads.resolveRecvg_mark
    (fun t live => by rw [Thread.get_return_PC, inKernel t live]; rfl) someLive

/-! ## Steps of the warp -/

theorem FramesInv.ordinary {state : CallState warpSize}
    (invariant : FramesInv (frame :: below) state.threads) (shape : frame.entries = top :: rest)
    (stack : state.m_stack = top :: (rest ++ stackOf below))
    (execute : program.Execute top.m_pc top.m_active_mask state.threads threads')
    (someLive : ∃ t ∈ top.m_active_mask, (state.threads t).done = false)
    (notCall : program.op top.m_pc ≠ .CALL_OPS)
    (notReturn : program.op top.m_pc = .RET_OPS → below = [])
    (meets : program.MeetsInFunction state threads') :
    ∃ frames', update state.m_stack threads'.lanes (program.executed threads' top.m_pc) =
        some (stackOf frames') ∧
      FramesInv frames' threads' ∧ FrameStep threads' (frame :: below) frames' := by
  have holds := invariant.innermost
  have depth := invariant.depth frame below rfl
  have inside {t : Fin warpSize} (member : t ∈ top.m_active_mask) : t ∈ frame.members :=
    holds.inv.inside top (by simp [shape]) member
  have goesOn (t : Fin warpSize) (member : t ∈ top.m_active_mask) (live : (threads' t).done = false) :
      (program.code frame.function).Next top.m_pc (threads' t).pc ∧
        (threads' t).callstack = (state.threads t).callstack := by
    have wasLive := execute.alive live
    refine (holds.moved shape execute member wasLive).goesOn notCall (fun isReturn => ?_) live
    rw [depth t (inside member) wasLive, notReturn isReturn]
    simp
  have move := execute.laneMove fun t member live => (goesOn t member live).1
  have others (t : Fin warpSize) (outside : t ∉ frame.members) : threads' t = state.threads t :=
    execute.others t (Or.inl fun member => outside (inside member))
  -- the other threads of the frame do not move
  have kept (t : Fin warpSize) (_ : t ∈ frame.members) (live : (threads' t).done = false) :
      (state.threads t).done = false ∧ (threads' t).callstack = (state.threads t).callstack := by
    refine ⟨execute.alive live, ?_⟩
    by_cases inTop : t ∈ top.m_active_mask
    · exact (goesOn t inTop live).2
    · rw [execute.others t (Or.inl inTop)]
  obtain ⟨s, sMember, sLive⟩ := someLive
  have parts := (meets top _ stack s sMember sLive).2.2
  -- in a callee the paths meet before its end
  have meetsInside (inCallee : below ≠ []) (twoWays : TwoWays top threads'.lanes)
      (b X : Fin (program.code frame.function).n)
      (inB : top.m_pc ∈ (program.code frame.function).pcs b)
      (immediate : (program.code frame.function).graph.ImmediatePostdominator X b) :
      X ≠ (program.code frame.function).graph.exitBlock := by
    rintro rfl
    have deep : 1 < (state.threads s).callstack.length := by
      rw [depth s (inside sMember) sLive]
      have := List.length_pos_of_ne_nil inCallee
      omega
    have single := ((parts twoWays).2 frame.function b inB immediate).1
    omega
  -- what `updateSIMTStack` passes is where the paths meet
  have recvg : RecvgAt (program.code frame.function) (program.framesExit frame.function below) top threads'.lanes
      (program.executed threads' top.m_pc).recvg_pc := by
    intro twoWays b X inB immediate
    by_cases atExit : X = (program.code frame.function).graph.exitBlock
    · cases below with
      | cons caller below => exact absurd atExit (meetsInside (by simp) twoWays b X inB immediate)
      | nil =>
        have elsewhere := ((parts twoWays).2 frame.function b inB (atExit ▸ immediate)).2
        rw [framesExit, if_neg elsewhere]
        obtain ⟨q, _, _, ⟨r, toQ⟩, _⟩ := id twoWays
        refine executed_recvg_kernel (parts twoWays).1 inB immediate atExit (fun t live => ?_)
          ⟨r, (Lanes.mem_group.mp toQ).2.1⟩
        cases invariant with
        | kernel _ launched =>
          have wasLive := execute.alive live
          have member := (launched t wasLive).1
          rw [(kept t member live).2]
          exact (launched t wasLive).2
    · exact executed_recvg (parts twoWays).1 inB immediate atExit _
  -- where the paths meet, there is an instruction
  have proper (twoWays : TwoWays top threads'.lanes) :
      (program.executed threads' top.m_pc).recvg_pc ≠ nullPc := by
    obtain ⟨q, _, _, ⟨r, toQ⟩, _⟩ := id twoWays
    obtain ⟨rInTop, rLive, _⟩ := Lanes.mem_group.mp toQ
    obtain ⟨b, inB⟩ := block_of_next (goesOn r rInTop rLive).1
    obtain ⟨X, immediate⟩ := FlowGraph.exists_immediatePostdominator
      (FunctionCode.notExit_of_mem inB) ((program.code frame.function).graph.reaches b)
    rw [recvg twoWays b X inB immediate]
    by_cases atExit : X = (program.code frame.function).graph.exitBlock
    · cases below with
      | cons caller below => exact absurd atExit (meetsInside (by simp) twoWays b X inB immediate)
      | nil =>
        have elsewhere := ((parts twoWays).2 frame.function b inB (atExit ▸ immediate)).2
        rw [atExit, FunctionCode.target_exit, framesExit, if_neg elsewhere]
        decide
    · exact FunctionCode.Instruction.ne_null ⟨X, FunctionCode.target_mem atExit _⟩
  have normal (isReturn : program.op top.m_pc = .RET_OPS) : top.m_type = .normal := by
    have based := holds.based shape
    rw [notReturn isReturn] at based
    cases based with
    | base isType _ => exact isType
    | inner normal _ _ => exact normal
  obtain ⟨entries', run, proceeds⟩ :=
    holds.ordinary shape move notCall normal recvg proper (stackOf below)
  obtain ⟨frames', same, invariant', frameStep⟩ := invariant.proceed others kept proceeds
  exact ⟨frames', by rw [stack, run, same], invariant', frameStep⟩

theorem FramesInv.step {state : CallState warpSize} (invariant : FramesInv frames state.threads)
    (stack : state.m_stack = stackOf frames) {executed : Executed}
    (issue : program.Issue state threads' executed)
    (meets : program.MeetsInFunction state threads') :
    ∃ frames', update state.m_stack threads'.lanes executed = some (stackOf frames') ∧
      FramesInv frames' threads' ∧ FrameStep threads' frames frames' := by
  obtain ⟨top, stackRest, shape⟩ : ∃ top stackRest, state.m_stack = top :: stackRest := by
    cases issue with
    | live shape _ _ => exact ⟨_, _, shape⟩
    | dead shape _ _ _ => exact ⟨_, _, shape⟩
  obtain ⟨frame, below, rest, rfl, entries, rfl⟩ := invariant.topEntry (stack ▸ shape)
  have holds := invariant.innermost
  cases issue with
  | dead same allDone _ atPc =>
    obtain ⟨rfl, rfl⟩ := List.cons.inj (shape.symm.trans same)
    obtain ⟨run, proceeds⟩ := holds.dead entries allDone atPc (stackOf below)
    obtain ⟨frames', same', invariant', frameStep⟩ :=
      invariant.proceed (fun _ _ => rfl) (fun _ _ live => ⟨live, rfl⟩) proceeds
    exact ⟨frames', by rw [shape, run, same'], invariant', frameStep⟩
  | live same someLive execute =>
    obtain ⟨rfl, rfl⟩ := List.cons.inj (shape.symm.trans same)
    -- a call, a return of a callee, or neither
    by_cases isCall : program.op top.m_pc = .CALL_OPS
    · obtain ⟨callee, run, invariant'⟩ :=
        invariant.call entries isCall execute someLive
          (fun t member live => (meets top _ shape t member live).1 isCall) (rest ++ stackOf below)
      refine ⟨callee :: frame :: below, ?_, invariant', .call⟩
      rw [shape, run]
      simp [stackOf, entries]
    · by_cases isReturn : program.op top.m_pc = .RET_OPS ∧ below ≠ []
      · cases below with
        | nil => exact absurd rfl isReturn.2
        | cons caller below =>
          rw [stack]
          refine invariant.ret entries isReturn.1 execute someLive fun t member live => ?_
          have inside := holds.inv.inside top (by simp [entries]) member
          have depth := invariant.depth frame (caller :: below) rfl t inside live
          refine (meets top _ shape t member live).2.1 ?_ isReturn.1
          rw [depth]
          simp
      · exact invariant.ordinary entries shape execute someLive isCall
          (fun ret => by by_contra inCallee; exact isReturn ⟨ret, inCallee⟩) meets

end Program

end AesOnGpu.Simt
