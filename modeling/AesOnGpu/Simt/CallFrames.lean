import AesOnGpu.Simt.Program

/-! # The frames of a call stack

The stack of a warp falls into frames, the innermost one first: one for each
function that is being executed.  While the threads of a frame are in a callee
they wait at the call; `suspend` takes them back there, and what is left of the
threads is what the frames below see.
-/

namespace AesOnGpu.Simt

variable {warpSize : Nat}

/-! ## Entries of a function -/

/-- The entry that was pushed for the function, by a call or at the launch, and above it
    entries that reconverge inside the function. -/
inductive BasedEntries (type : StackEntryType) : SimtStack warpSize → Prop where
  | base {entry : StackEntry warpSize} : entry.m_type = type → entry.m_recvg_pc = nullPc →
      BasedEntries type [entry]
  | inner {entry : StackEntry warpSize} {entries : SimtStack warpSize} :
      entry.m_type = .normal → entry.m_recvg_pc ≠ nullPc → BasedEntries type entries →
      BasedEntries type (entry :: entries)

section

variable {top : StackEntry warpSize} {rest lower stack' entries' : SimtStack warpSize}
  {lanes : Lanes warpSize} {recvg_pc : Pc} {type : StackEntryType}

theorem BasedEntries.placeAll {under : SimtStack warpSize} (based : BasedEntries type under)
    (proper : recvg_pc ≠ nullPc) (mask : Mask warpSize) (order : List Pc) :
    BasedEntries type (placeAll lanes mask recvg_pc order under) := by
  induction order generalizing under with
  | nil => exact based
  | cons q order ih =>
    rw [Simt.placeAll, List.foldl_cons]
    split
    · exact ih based
    · exact ih (.inner rfl proper based)

theorem BasedEntries.outcome (based : BasedEntries type (top :: rest))
    (outcome : Outcome top rest lanes recvg_pc entries')
    (arrives : ∀ q, (lanes.group top.m_active_mask q).Nonempty → q ≠ nullPc)
    (proper : TwoWays top lanes → recvg_pc ≠ nullPc) :
    entries' = [] ∨ BasedEntries type entries' := by
  cases based with
  | base isType noRecvg =>
    cases outcome with
    | finished none => exact Or.inl rfl
    | reconverged q only meets normal =>
      exact absurd (meets.trans noRecvg) (arrives q ((only q).mpr rfl))
    | moved q only apart => exact Or.inr (.base isType noRecvg)
    | diverged p q different only =>
      have notNull := proper ⟨p, q, different, (only p).mpr (Or.inl rfl), (only q).mpr (Or.inr rfl)⟩
      have meeting : meetingStack top [] recvg_pc = [{ top with m_pc := recvg_pc }] := by
        simp [meetingStack, noRecvg, notNull]
      rw [meeting]
      have under : BasedEntries type [{ top with m_pc := recvg_pc }] := .base isType noRecvg
      exact Or.inr (under.placeAll notNull _ _)
  | inner normal hasRecvg below =>
    cases outcome with
    | finished none => exact Or.inr below
    | reconverged q only meets _ => exact Or.inr below
    | moved q only apart => exact Or.inr (.inner normal hasRecvg below)
    | diverged p q different only =>
      have notNull := proper ⟨p, q, different, (only p).mpr (Or.inl rfl), (only q).mpr (Or.inr rfl)⟩
      have under : BasedEntries type (meetingStack top rest recvg_pc) := by
        rw [meetingStack]
        split
        · exact below
        · exact .inner normal hasRecvg below
      exact Or.inr (under.placeAll notNull _ _)

/-! ## The entries below a frame -/

theorem waitsAt_append {t : Fin warpSize} {pc : Pc} (waits : waitsAt rest t = some pc)
    (lower : SimtStack warpSize) : waitsAt (rest ++ lower) t = some pc := by
  obtain ⟨entry, found, atPc⟩ := Option.map_eq_some_iff.mp waits
  rw [waitsAt, List.find?_append, found]
  exact congrArg some atPc

theorem placeAll_append (mask : Mask warpSize) (order : List Pc) (under : SimtStack warpSize) :
    placeAll lanes mask recvg_pc order (under ++ lower) =
      placeAll lanes mask recvg_pc order under ++ lower := by
  induction order generalizing under with
  | nil => rfl
  | cons q order ih =>
    rw [placeAll, placeAll, List.foldl_cons, List.foldl_cons]
    split
    · exact ih under
    · exact ih (_ :: under)

theorem Outcome.split (outcome : Outcome top (rest ++ lower) lanes recvg_pc stack') :
    ∃ entries, stack' = entries ++ lower ∧ Outcome top rest lanes recvg_pc entries := by
  cases outcome with
  | finished none => exact ⟨rest, rfl, .finished none⟩
  | reconverged q only meets normal => exact ⟨rest, rfl, .reconverged q only meets normal⟩
  | moved q only apart => exact ⟨_ :: rest, rfl, .moved q only apart⟩
  | diverged p q different only =>
    have meeting : meetingStack top (rest ++ lower) recvg_pc =
        meetingStack top rest recvg_pc ++ lower := by
      simp only [meetingStack]
      split <;> rfl
    rw [meeting, placeAll_append]
    exact ⟨_, rfl, .diverged p q different only⟩

theorem restored_append (entry : StackEntry warpSize) (returnPc : Pc) :
    Program.restored entry (rest ++ lower) returnPc =
      Program.restored entry rest returnPc ++ lower := by
  simp only [Program.restored]
  split <;> rfl

end

/-! ## Threads -/

/-- The threads of the mask are taken back to the call at `callPc`. -/
def Threads.suspend (threads : Threads warpSize) (mask : Mask warpSize) (callPc : Pc) :
    Threads warpSize := fun t =>
  if t ∈ mask then ⟨(threads t).done, callPc, (threads t).callstack.tail⟩ else threads t

section

variable {threads threads' : Threads warpSize} {mask : Mask warpSize} {callPc : Pc} {t : Fin warpSize}

@[simp] theorem Threads.suspend_done : (threads.suspend mask callPc t).done = (threads t).done := by
  rw [Threads.suspend]
  split <;> rfl

theorem Threads.suspend_of_mem (member : t ∈ mask) : threads.suspend mask callPc t =
    ⟨(threads t).done, callPc, (threads t).callstack.tail⟩ := by
  simp [Threads.suspend, member]

theorem Threads.suspend_of_notMem (outside : t ∉ mask) :
    threads.suspend mask callPc t = threads t := by
  simp [Threads.suspend, outside]

def Threads.Ends (threads threads' : Threads warpSize) : Prop :=
  ∀ t, (threads' t).done = false → threads' t = threads t

theorem Threads.Ends.suspend (ends : threads.Ends threads') :
    (threads.suspend mask callPc).Ends (threads'.suspend mask callPc) := by
  intro t live
  rw [suspend_done] at live
  simp only [Threads.suspend, ends t live]

theorem Threads.Ends.lanes (ends : threads.Ends threads') (live : (threads' t).done = false) :
    (threads t).done = false ∧ threads'.lanes.next_pc t = threads.lanes.next_pc t := by
  have same := ends t live
  have before : (threads t).done = false := same ▸ live
  exact ⟨before, by rw [lanes_pc live, lanes_pc before, same]⟩

end

/-! ## Frames -/

structure CallFrame (program : Program) (warpSize : Nat) where
  function : Fin program.functions
  members : Mask warpSize
  entries : SimtStack warpSize

namespace Program

variable {program : Program}

/-- The PC at which the paths of a frame of function `f` end: only branches of the
    kernel may meet at the exit. -/
def framesExit (program : Program) (f : Fin program.functions) :
    List (CallFrame program warpSize) → Pc
  | [] => if (program.code f).Instruction bottomPc then nullPc else bottomPc
  | _ :: _ => nullPc

theorem framesExit_free (below : List (CallFrame program warpSize)) (f : Fin program.functions) :
    ¬ (program.code f).Instruction (program.framesExit f below) := by
  cases below with
  | nil =>
    rw [framesExit]
    split
    · exact fun instruction => instruction.ne_null rfl
    · assumption
  | cons frame below => exact fun instruction => instruction.ne_null rfl

def baseType : List (CallFrame program warpSize) → StackEntryType
  | [] => .normal
  | _ :: _ => .call

/-- A kernel whose threads have all ended has no entries. -/
def Shaped (below : List (CallFrame program warpSize)) (entries : SimtStack warpSize) : Prop :=
  BasedEntries (baseType below) entries ∨ below = [] ∧ entries = []

structure FrameHolds (below : List (CallFrame program warpSize)) (frame : CallFrame program warpSize)
    (threads : Threads warpSize) : Prop where
  inv : FrameInv (program.code frame.function) (program.framesExit frame.function below) frame.members ∅
    threads.lanes frame.entries
  located : ∀ t ∈ frame.members, (threads t).done = false →
    (program.code frame.function).Instruction (threads t).pc
  shaped : Shaped below frame.entries

/-- A frame above others was pushed by the call at which the top entry of the
    next frame waits. -/
inductive FramesInv : List (CallFrame program warpSize) → Threads warpSize → Prop where
  | kernel {frame : CallFrame program warpSize} {threads : Threads warpSize} :
      FrameHolds [] frame threads →
      (∀ t, (threads t).done = false →
        t ∈ frame.members ∧ (threads t).callstack = [bottomPc]) →
      FramesInv [frame] threads
  | callee {frame caller : CallFrame program warpSize} {below : List (CallFrame program warpSize)}
      {threads : Threads warpSize} {entry : StackEntry warpSize} {rest : SimtStack warpSize} :
      FrameHolds (caller :: below) frame threads →
      caller.entries = entry :: rest → program.op entry.m_pc = .CALL_OPS →
      frame.members ⊆ entry.m_active_mask →
      (∀ t ∈ entry.m_active_mask, (threads t).done = false → t ∈ frame.members) →
      (∀ t ∈ frame.members, (threads t).done = false →
        (threads t).callstack.head? = some (entry.m_pc + program.isize entry.m_pc)) →
      FramesInv (caller :: below) (threads.suspend frame.members entry.m_pc) →
      FramesInv (frame :: caller :: below) threads

def stackOf (frames : List (CallFrame program warpSize)) : SimtStack warpSize :=
  frames.flatMap (·.entries)

section

variable {frame caller : CallFrame program warpSize}
  {below frames upper : List (CallFrame program warpSize)} {threads threads' : Threads warpSize}
  {entry top : StackEntry warpSize} {rest entries' : SimtStack warpSize} {t : Fin warpSize}

theorem FrameHolds.ends (holds : FrameHolds below frame threads) (ends : threads.Ends threads') :
    FrameHolds below frame threads' where
  inv := holds.inv.mono fun _ live => ends.lanes live
  located t member live := by
    rw [ends t live]
    exact holds.located t member (ends t live ▸ live)
  shaped := holds.shaped

theorem FrameHolds.based (holds : FrameHolds below frame threads)
    (shape : frame.entries = top :: rest) : BasedEntries (baseType below) (top :: rest) := by
  cases holds.shaped with
  | inl based => exact shape ▸ based
  | inr none => cases shape.symm.trans none.2

theorem FramesInv.innermost (invariant : FramesInv (frame :: below) threads) :
    FrameHolds below frame threads := by
  cases invariant with
  | kernel holds _ => exact holds
  | callee holds _ _ _ _ _ _ => exact holds

theorem FramesInv.ends (invariant : FramesInv frames threads) (ends : threads.Ends threads') :
    FramesInv frames threads' := by
  induction invariant generalizing threads' with
  | kernel holds launched =>
    refine .kernel (holds.ends ends) fun t live => ?_
    rw [ends t live]
    exact launched t (ends t live ▸ live)
  | callee holds shape call part whole returns _ ih =>
    refine .callee (holds.ends ends) shape call part (fun t member live => ?_)
      (fun t member live => ?_) (ih ends.suspend)
    · exact whole t member (ends t live ▸ live)
    · rw [ends t live]
      exact returns t member (ends t live ▸ live)

theorem FramesInv.depth (invariant : FramesInv frames threads) :
    ∀ frame below, frames = frame :: below → ∀ t ∈ frame.members, (threads t).done = false →
      (threads t).callstack.length = below.length + 1 := by
  induction invariant with
  | kernel holds launched =>
    intro frame below same t _ live
    obtain ⟨rfl, rfl⟩ := List.cons.inj same
    simp [(launched t live).2]
  | @callee frame caller below threads entry rest holds shape call part whole returns lower
      ih =>
    intro frame' below' same t member live
    obtain ⟨rfl, rfl⟩ := List.cons.inj same
    have inCaller : t ∈ caller.members :=
      lower.innermost.inv.inside entry (by simp [shape]) (part member)
    have suspended := ih caller below rfl t inCaller (by simpa using live)
    have head := returns t member live
    rw [Threads.suspend_of_mem member] at suspended
    cases callstack : (threads t).callstack with
    | nil => simp [callstack] at head
    | cons r tail =>
      rw [callstack, List.tail_cons] at suspended
      simp [suspended]

theorem FramesInv.deeper (invariant : FramesInv (upper ++ frame :: below) threads)
    (inCallee : upper ≠ []) (shape : frame.entries = entry :: rest)
    (member : t ∈ entry.m_active_mask) (live : (threads t).done = false) :
    below.length + 1 < (threads t).callstack.length := by
  induction upper generalizing threads with
  | nil => exact absurd rfl inCallee
  | cons first upper ih =>
    cases upper with
    | nil =>
      cases invariant with
      | callee holds shape' call part whole returns lower =>
        obtain ⟨rfl, rfl⟩ := List.cons.inj (shape.symm.trans shape')
        have depth := (FramesInv.callee holds shape' call part whole returns lower).depth _ _ rfl t
          (whole t member live) live
        simp only [List.length_cons] at depth
        omega
    | cons second upper =>
      cases invariant with
      | callee holds shape' call part whole returns lower =>
        have suspended := ih lower (by simp) (by simpa using live)
        rw [Threads.suspend] at suspended
        split at suspended
        · simp only [List.length_tail] at suspended
          omega
        · exact suspended

theorem FrameHolds.atTop (holds : FrameHolds below frame threads)
    (shape : frame.entries = top :: rest) (member : t ∈ top.m_active_mask)
    (live : (threads t).done = false) : (threads t).pc = top.m_pc := by
  have inside : t ∈ frame.members := holds.inv.inside top (by simp [shape]) member
  have waits := holds.inv.waits t inside live (Finset.notMem_empty t)
  rw [shape, waitsAt_cons_of_mem member, Threads.lanes_pc live] at waits
  exact (Option.some.inj waits).symm

theorem FramesInv.replace (invariant : FramesInv (frame :: below) threads)
    (holds : FrameHolds below { frame with entries := entries' } threads')
    (others : ∀ t, t ∉ frame.members → threads' t = threads t)
    (kept : ∀ t ∈ frame.members, (threads' t).done = false →
      (threads t).done = false ∧ (threads' t).callstack = (threads t).callstack) :
    FramesInv ({ frame with entries := entries' } :: below) threads' := by
  cases invariant with
  | kernel _ launched =>
    refine .kernel holds fun t live => ?_
    have member : t ∈ frame.members := by
      by_contra outside
      rw [others t outside] at live
      exact outside (launched t live).1
    refine ⟨member, ?_⟩
    rw [(kept t member live).2]
    exact (launched t (kept t member live).1).2
  | @callee _ caller below _ entry rest _ shape call part whole returns lower =>
    refine .callee holds shape call part (fun t member live => ?_) (fun t member live => ?_) ?_
    · by_contra outside
      have outside' : t ∉ frame.members := outside
      rw [others t outside'] at live
      exact outside' (whole t member live)
    · rw [(kept t member live).2]
      exact returns t member (kept t member live).1
    · refine lower.ends fun t live => ?_
      rw [Threads.suspend_done] at live
      by_cases member : t ∈ frame.members
      · rw [Threads.suspend_of_mem (by exact member), Threads.suspend_of_mem member,
          (kept t member live).2, live, (kept t member live).1]
      · rw [Threads.suspend_of_notMem (by exact member), Threads.suspend_of_notMem member,
          others t member]

theorem FramesInv.drop (invariant : FramesInv (frame :: caller :: below) threads)
    (others : ∀ t, t ∉ frame.members → threads' t = threads t)
    (ended : ∀ t ∈ frame.members, (threads' t).done = true) :
    FramesInv (caller :: below) threads' := by
  cases invariant with
  | callee _ _ _ _ _ _ lower =>
    refine lower.ends fun t live => ?_
    have outside : t ∉ frame.members := fun member => by simp [ended t member] at live
    rw [Threads.suspend_of_notMem outside, others t outside]

end

end Program

end AesOnGpu.Simt
