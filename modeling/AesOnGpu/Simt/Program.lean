import AesOnGpu.Simt.Frame

/-! # Programs with calls

Functions that call each other, threads with call stacks and the warp that runs
them.  A call pushes the PC behind it, a return pops it, and a return from the
kernel itself ends the thread.  `resolveRecvg` is the part of `updateSIMTStack`
that replaces the mark for "reconverge after the return" by the return PC of the
first live thread.
-/

namespace AesOnGpu.Simt

/-- `RECONVERGE_RETURN_PC`, `(address_type)-2`. -/
def reconvergeReturnPc : Pc := 0xFFFFFFFE#32

/-- The PC of the default entry at the bottom of a call stack, `m_PC=0`. -/
def bottomPc : Pc := 0

structure Program where
  functions : Nat
  code : Fin functions → FunctionCode
  kernel : Fin functions
  start_pc : Fin functions → Pc
  startInCode : ∀ f, (code f).Instruction (start_pc f)
  apart : ∀ f g p, (code f).Instruction p → (code g).Instruction p → f = g
  returnMarkFree : ∀ f, ¬ (code f).Instruction reconvergeReturnPc
  op : Pc → OpType
  isize : Pc → BitVec 32
  callee : Pc → Fin functions
  callNext : ∀ f p, (code f).Instruction p → op p = .CALL_OPS → (code f).Next p (p + isize p)
  returnToExit : ∀ f b p, p ∈ (code f).pcs b → op p = .RET_OPS →
    (code f).graph.Edge b (code f).graph.exitBlock
  /-- What `get_converge_point` gives, be it right or not. -/
  reconvergence_pc : Pc → Pc

structure Thread where
  done : Bool
  pc : Pc
  callstack : List Pc

abbrev Threads (warpSize : Nat) := Fin warpSize → Thread

structure CallState (warpSize : Nat) where
  m_stack : SimtStack warpSize
  threads : Threads warpSize

def Thread.get_return_PC (thread : Thread) : Pc := thread.callstack.headD nullPc

variable {warpSize : Nat}

/-! ## `updateSIMTStack` -/

def Threads.lanes (threads : Threads warpSize) : Lanes warpSize where
  thread_done t := (threads t).done
  next_pc t := if (threads t).done then nullPc else (threads t).pc

def Threads.resolveRecvg (threads : Threads warpSize) (reconvergence_pc : Pc) : Pc :=
  (List.finRange warpSize).foldl
    (fun recvg t =>
      if (threads t).done then recvg
      else if recvg = reconvergeReturnPc then (threads t).get_return_PC else recvg)
    reconvergence_pc

@[simp] theorem Threads.lanes_done (threads : Threads warpSize) (t : Fin warpSize) :
    threads.lanes.thread_done t = (threads t).done := rfl

theorem Threads.lanes_pc {threads : Threads warpSize} {t : Fin warpSize}
    (live : (threads t).done = false) : threads.lanes.next_pc t = (threads t).pc := by
  simp [Threads.lanes, live]

theorem Threads.resolveRecvg_of_ne {threads : Threads warpSize} {recvg_pc : Pc}
    (unmarked : recvg_pc ≠ reconvergeReturnPc) : threads.resolveRecvg recvg_pc = recvg_pc := by
  rw [resolveRecvg]
  induction List.finRange warpSize with
  | nil => rfl
  | cons t lanes ih => simpa [unmarked] using ih

theorem Threads.resolveRecvg_mark {threads : Threads warpSize} {returnPc : Pc}
    (same : ∀ t, (threads t).done = false → (threads t).get_return_PC = returnPc)
    (someLive : ∃ t, (threads t).done = false) :
    threads.resolveRecvg reconvergeReturnPc = returnPc := by
  obtain ⟨t, live⟩ := someLive
  have visited := List.mem_finRange t
  rw [resolveRecvg]
  -- before `t` the mark is kept or already replaced, after `t` nothing changes
  have settled (lanes : List (Fin warpSize)) : lanes.foldl (fun recvg t =>
      if (threads t).done then recvg
      else if recvg = reconvergeReturnPc then (threads t).get_return_PC else recvg) returnPc =
        returnPc := by
    induction lanes with
    | nil => rfl
    | cons s lanes ih =>
      rw [List.foldl_cons]
      cases done : (threads s).done with
      | true => simpa using ih
      | false => simpa [same s done] using ih
  generalize List.finRange warpSize = lanes at visited ⊢
  induction lanes with
  | nil => simp at visited
  | cons s lanes ih =>
    rw [List.foldl_cons]
    cases done : (threads s).done with
    | true =>
      have later : t ∈ lanes := by
        cases List.mem_cons.mp visited with
        | inl isFirst => simp [← isFirst, live] at done
        | inr later => exact later
      simpa using ih later
    | false => simpa [same s done] using settled lanes

namespace Program

variable (program : Program)

/-! ## Steps -/

/-- How one thread executes the instruction at `p` of function `f`, or skips it. -/
inductive ThreadStep (f : Fin program.functions) (p : Pc) : Thread → Thread → Prop where
  | call {thread : Thread} : program.op p = .CALL_OPS →
      ThreadStep f p thread
        ⟨false, program.start_pc (program.callee p), (p + program.isize p) :: thread.callstack⟩
  | skip {thread : Thread} : program.op p = .CALL_OPS →
      ThreadStep f p thread ⟨false, p + program.isize p, thread.callstack⟩
  | ret {done : Bool} {pc r r' : Pc} {callstack : List Pc} : program.op p = .RET_OPS →
      ThreadStep f p ⟨done, pc, r :: r' :: callstack⟩ ⟨false, r, r' :: callstack⟩
  | retExit {thread : Thread} {pc r : Pc} : program.op p = .RET_OPS → thread.callstack = [r] →
      ThreadStep f p thread ⟨true, pc, []⟩
  | next {thread : Thread} {q : Pc} : program.op p ≠ .CALL_OPS → (program.code f).Next p q →
      ThreadStep f p thread ⟨false, q, thread.callstack⟩
  | exit {thread thread' : Thread} : program.op p = .other → thread'.done = true →
      ThreadStep f p thread thread'

/-- The live threads of a mask execute the instruction at `p`. -/
structure Execute (p : Pc) (mask : Mask warpSize) (threads threads' : Threads warpSize) : Prop where
  others : ∀ t, t ∉ mask ∨ (threads t).done = true → threads' t = threads t
  moved : ∀ t ∈ mask, (threads t).done = false →
    ∃ f, (program.code f).Instruction p ∧ program.ThreadStep f p (threads t) (threads' t)

/-- The instruction at `p`, as `updateSIMTStack` passes it on. -/
def executed (threads' : Threads warpSize) (p : Pc) : Executed :=
  ⟨threads'.resolveRecvg (program.reconvergence_pc p), program.op p, program.isize p, p⟩

inductive Issue (state : CallState warpSize) : Threads warpSize → Executed → Prop where
  | live {top : StackEntry warpSize} {rest : SimtStack warpSize} {threads' : Threads warpSize} :
      state.m_stack = top :: rest →
      (∃ t ∈ top.m_active_mask, (state.threads t).done = false) →
      program.Execute top.m_pc top.m_active_mask state.threads threads' →
      Issue state threads' (program.executed threads' top.m_pc)
  | dead {top : StackEntry warpSize} {rest : SimtStack warpSize} {executed : Executed} :
      state.m_stack = top :: rest →
      (∀ t ∈ top.m_active_mask, (state.threads t).done = true) →
      (∃ t, (state.threads t).done = false) →
      executed.next_inst_pc = top.m_pc →
      Issue state state.threads executed

def Step (state state' : CallState warpSize) : Prop :=
  ∃ executed, program.Issue state state'.threads executed ∧
    update state.m_stack state'.threads.lanes executed = some state'.m_stack

def launched (mask : Mask warpSize) : CallState warpSize where
  m_stack := launch (program.start_pc program.kernel) mask
  threads t :=
    if t ∈ mask then ⟨false, program.start_pc program.kernel, [bottomPc]⟩
    else ⟨true, nullPc, []⟩

inductive Reachable (allowed : CallState warpSize → Threads warpSize → Prop)
    (mask : Mask warpSize) : CallState warpSize → Prop where
  | launched : Reachable allowed mask (program.launched mask)
  | step {state state' : CallState warpSize} : Reachable allowed mask state →
      program.Step state state' → allowed state state'.threads → Reachable allowed mask state'

/-! ## Calls -/

/-- A thread of the mask is deeper in its call stack than it was in `caller`. -/
def InCallee (mask : Mask warpSize) (caller state : CallState warpSize) : Prop :=
  ∃ t ∈ mask, (state.threads t).done = false ∧
    (caller.threads t).callstack.length < (state.threads t).callstack.length

/-- The run from the step at `caller`, which is a call by the threads of `mask`,
    until all of them have returned. -/
inductive CallRun (allowed : CallState warpSize → Threads warpSize → Prop) (mask : Mask warpSize)
    (caller : CallState warpSize) : CallState warpSize → Prop where
  | call {state : CallState warpSize} : program.Step caller state → allowed caller state.threads →
      CallRun allowed mask caller state
  | step {state state' : CallState warpSize} : CallRun allowed mask caller state →
      InCallee mask caller state → program.Step state state' → allowed state state'.threads →
      CallRun allowed mask caller state'

/-- The stack after a call has returned: the caller's entry goes on at the
    return PC with its mask and its reconvergence PC, or is popped as well when
    this is where it reconverges. -/
def restored (entry : StackEntry warpSize) (rest : SimtStack warpSize) (returnPc : Pc) :
    SimtStack warpSize :=
  if returnPc = entry.m_recvg_pc ∧ entry.m_type = .normal then rest
  else { entry with m_pc := returnPc } :: rest

structure CallsReconverge (allowed : CallState warpSize → Threads warpSize → Prop)
    (mask : Mask warpSize) : Prop where
  /-- No assertion fails. -/
  defined : ∀ state, program.Reachable allowed mask state → ∀ threads' executed,
    program.Issue state threads' executed → allowed state threads' →
    (update state.m_stack threads'.lanes executed).isSome
  /-- Once all threads that made a call are back, the stack is restored. -/
  restores : ∀ caller, program.Reachable allowed mask caller → ∀ entry rest,
    caller.m_stack = entry :: rest → program.op entry.m_pc = .CALL_OPS →
    (∃ t ∈ entry.m_active_mask, (caller.threads t).done = false) →
    ∀ state, program.CallRun allowed entry.m_active_mask caller state →
    ¬ InCallee entry.m_active_mask caller state →
    (∃ t ∈ entry.m_active_mask, (state.threads t).done = false) →
    state.m_stack = restored entry rest (entry.m_pc + program.isize entry.m_pc) ∧
      ∀ t ∈ entry.m_active_mask, (state.threads t).done = false →
        (state.threads t).pc = entry.m_pc + program.isize entry.m_pc
  /-- Below an entry with a reconvergence PC its threads wait at that PC. -/
  merges : ∀ state, program.Reachable allowed mask state → ∀ entry rest,
    state.m_stack = entry :: rest → entry.m_recvg_pc ≠ nullPc →
    ∀ t ∈ entry.m_active_mask, (state.threads t).done = false →
      waitsAt rest t = some entry.m_recvg_pc
  /-- Only what a call or the launch has pushed has no reconvergence PC. -/
  unmerged : ∀ state, program.Reachable allowed mask state → ∀ entry rest,
    state.m_stack = entry :: rest → entry.m_recvg_pc = nullPc → entry.m_type = .call ∨ rest = []

/-- The point that is recorded for an instruction is where its block's immediate postdominator
    starts, or the mark when that is the exit block. -/
def Recorded (p : Pc) : Prop :=
  ∀ f b X, p ∈ (program.code f).pcs b → (program.code f).graph.ImmediatePostdominator X b →
    program.reconvergence_pc p = (program.code f).target reconvergeReturnPc X

/-- All threads of the entry take a call together, and in a callee a return.  Threads that part
    do so where the right point is recorded, and meet again before the end of their function;
    in the kernel they may also meet at its end, when PC 0 is in another function. -/
def MeetsInFunction (state : CallState warpSize) (threads' : Threads warpSize) : Prop :=
  ∀ top rest, state.m_stack = top :: rest → ∀ t ∈ top.m_active_mask,
    (state.threads t).done = false →
    (program.op top.m_pc = .CALL_OPS →
      (state.threads t).callstack.length < (threads' t).callstack.length) ∧
    (1 < (state.threads t).callstack.length → program.op top.m_pc = .RET_OPS →
      (threads' t).callstack.length < (state.threads t).callstack.length) ∧
    (TwoWays top threads'.lanes → program.Recorded top.m_pc ∧
      ∀ f b, top.m_pc ∈ (program.code f).pcs b →
        (program.code f).graph.ImmediatePostdominator (program.code f).graph.exitBlock b →
        (state.threads t).callstack.length = 1 ∧ ¬ (program.code f).Instruction bottomPc)

end Program

end AesOnGpu.Simt
