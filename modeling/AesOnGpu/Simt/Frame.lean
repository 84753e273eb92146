import AesOnGpu.Simt.FunctionCode
import AesOnGpu.Simt.Update

/-! # The stack entries of one function

`FrameInv` relates a stretch of the stack to the threads that execute one
function.  A thread waits at the PC of the topmost entry whose mask contains it
(`waits`); below any entry it waits where that entry reconverges (`chained`);
and the block in which an entry executes is strictly postdominated by the block
where it reconverges (`bounded`).  `FrameInv.step` is the step lemma: every
outcome of `update` keeps the invariant.

While the groups of the top entry are put back one by one, the lanes not yet
placed are `pending`.
-/

namespace AesOnGpu.Simt

variable {warpSize : Nat}

/-! ## Where a thread waits -/

/-- The PC of the topmost entry that contains lane `t`. -/
def waitsAt (stack : SimtStack warpSize) (t : Fin warpSize) : Option Pc :=
  (stack.find? fun entry => t ∈ entry.m_active_mask).map (·.m_pc)

@[simp] theorem waitsAt_nil (t : Fin warpSize) : waitsAt [] t = none := rfl

theorem waitsAt_cons_of_mem {entry : StackEntry warpSize} {t : Fin warpSize}
    (member : t ∈ entry.m_active_mask) (stack : SimtStack warpSize) :
    waitsAt (entry :: stack) t = some entry.m_pc := by
  simp [waitsAt, member]

theorem waitsAt_cons_of_notMem {entry : StackEntry warpSize} {t : Fin warpSize}
    (outside : t ∉ entry.m_active_mask) (stack : SimtStack warpSize) :
    waitsAt (entry :: stack) t = waitsAt stack t := by
  simp [waitsAt, outside]

/-- Lane `t` waits for `recvg_pc`, or nowhere when there is no such PC. -/
def Awaits (stack : SimtStack warpSize) (t : Fin warpSize) (recvg_pc : Pc) : Prop :=
  waitsAt stack t = some recvg_pc ∨ waitsAt stack t = none ∧ recvg_pc = nullPc

def Chained (lanes : Lanes warpSize) : SimtStack warpSize → Prop
  | [] => True
  | entry :: stack =>
    (∀ t ∈ entry.m_active_mask, lanes.thread_done t = false → Awaits stack t entry.m_recvg_pc) ∧
      Chained lanes stack

/-- The entry executes in a block that its reconvergence block strictly
    postdominates, or has no reconvergence PC. -/
def Bounded (code : FunctionCode) (exitPc : Pc) (entry : StackEntry warpSize) : Prop :=
  entry.m_recvg_pc = nullPc ∨
    ∃ b R, entry.m_pc ∈ code.pcs b ∧ entry.m_recvg_pc = code.target exitPc R ∧
      code.graph.Postdominates R b ∧ R ≠ b ∧ entry.m_type = .normal

/-! ## The invariant -/

structure FrameInv (code : FunctionCode) (exitPc : Pc) (members pending : Mask warpSize)
    (lanes : Lanes warpSize) (stack : SimtStack warpSize) : Prop where
  waits : ∀ t ∈ members, lanes.thread_done t = false → t ∉ pending →
    waitsAt stack t = some (lanes.next_pc t)
  chained : Chained lanes stack
  bounded : ∀ entry ∈ stack, Bounded code exitPc entry
  active : ∀ entry ∈ stack, entry.m_active_mask ≠ ∅
  inside : ∀ entry ∈ stack, entry.m_active_mask ⊆ members

/-- The lanes of a mask execute the instruction at `p` of the function: each goes
    on to a next instruction or exits, the other ones stay where they are. -/
structure LaneMove (code : FunctionCode) (p : Pc) (mask : Mask warpSize)
    (lanes lanes' : Lanes warpSize) : Prop where
  alive : ∀ t, lanes'.thread_done t = false → lanes.thread_done t = false
  others : ∀ t, lanes'.thread_done t = false → t ∉ mask → lanes'.next_pc t = lanes.next_pc t
  moved : ∀ t ∈ mask, lanes'.thread_done t = false → code.Next p (lanes'.next_pc t)

theorem Chained.mono {lanes lanes' : Lanes warpSize} {stack : SimtStack warpSize}
    (chained : Chained lanes stack)
    (alive : ∀ t, lanes'.thread_done t = false → lanes.thread_done t = false) :
    Chained lanes' stack := by
  induction stack with
  | nil => trivial
  | cons entry stack ih =>
    exact ⟨fun t member live => chained.1 t member (alive t live),
      ih chained.2⟩

section

variable {code : FunctionCode} {exitPc : Pc} {members pending : Mask warpSize}
  {lanes lanes' : Lanes warpSize} {stack : SimtStack warpSize}

theorem FrameInv.settle (invariant : FrameInv code exitPc members pending lanes stack)
    {left : Mask warpSize}
    (placed : ∀ t ∈ pending, lanes.thread_done t = false → t ∈ left) :
    FrameInv code exitPc members left lanes stack :=
  { invariant with
    waits := fun t member live notLeft =>
      invariant.waits t member live fun isPending => notLeft (placed t isPending live) }

theorem FrameInv.place (invariant : FrameInv code exitPc members pending lanes stack)
    (entry : StackEntry warpSize)
    (group : ∀ t ∈ entry.m_active_mask, t ∈ pending ∧ lanes.next_pc t = entry.m_pc)
    (awaited : ∀ t ∈ pending, lanes.thread_done t = false → Awaits stack t entry.m_recvg_pc)
    (bounded : Bounded code exitPc entry) (nonempty : entry.m_active_mask.Nonempty)
    (inside : entry.m_active_mask ⊆ members) :
    FrameInv code exitPc members (pending \ entry.m_active_mask) lanes (entry :: stack) where
  waits t member live notPending := by
    by_cases inEntry : t ∈ entry.m_active_mask
    · rw [waitsAt_cons_of_mem inEntry, (group t inEntry).2]
    · rw [waitsAt_cons_of_notMem inEntry]
      exact invariant.waits t member live fun isPending =>
        notPending (Finset.mem_sdiff.mpr ⟨isPending, inEntry⟩)
  chained := ⟨fun t inEntry live => awaited t (group t inEntry).1 live, invariant.chained⟩
  bounded := List.forall_mem_cons.mpr ⟨bounded, invariant.bounded⟩
  active := List.forall_mem_cons.mpr ⟨nonempty.ne_empty, invariant.active⟩
  inside := List.forall_mem_cons.mpr ⟨inside, invariant.inside⟩

theorem FrameInv.arrive (invariant : FrameInv code exitPc members pending lanes stack)
    (group : Mask warpSize) {recvg_pc : Pc} (notNull : recvg_pc ≠ nullPc)
    (arrived : ∀ t ∈ group, lanes.next_pc t = recvg_pc)
    (awaited : ∀ t ∈ pending, lanes.thread_done t = false → Awaits stack t recvg_pc) :
    FrameInv code exitPc members (pending \ group) lanes stack :=
  { invariant with
    waits := fun t member live notPending => by
      by_cases isPending : t ∈ pending
      · have inGroup : t ∈ group := by
          by_contra outside
          exact notPending (Finset.mem_sdiff.mpr ⟨isPending, outside⟩)
        cases awaited t isPending live with
        | inl waiting => rw [waiting, arrived t inGroup]
        | inr nowhere => exact absurd nowhere.2 notNull
      · exact invariant.waits t member live isPending }

theorem FrameInv.mono (invariant : FrameInv code exitPc members pending lanes stack)
    (same : ∀ t, lanes'.thread_done t = false →
      lanes.thread_done t = false ∧ lanes'.next_pc t = lanes.next_pc t) :
    FrameInv code exitPc members pending lanes' stack :=
  { invariant with
    waits := fun t member live notPending => by
      rw [(same t live).2]
      exact invariant.waits t member (same t live).1 notPending
    chained := invariant.chained.mono fun t live => (same t live).1 }

end

/-! ## The step lemma -/

section

variable {code : FunctionCode} {exitPc : Pc} {members : Mask warpSize}
  {lanes lanes' : Lanes warpSize} {top : StackEntry warpSize} {rest : SimtStack warpSize}

theorem FrameInv.pop (invariant : FrameInv code exitPc members ∅ lanes (top :: rest))
    (move : LaneMove code top.m_pc top.m_active_mask lanes lanes') :
    FrameInv code exitPc members top.m_active_mask lanes' rest where
  waits t member live notTop := by
    rw [move.others t live notTop, ← waitsAt_cons_of_notMem notTop]
    exact invariant.waits t member (move.alive t live) (Finset.notMem_empty t)
  chained := invariant.chained.2.mono move.alive
  bounded entry member := invariant.bounded entry (List.mem_cons_of_mem top member)
  active entry member := invariant.active entry (List.mem_cons_of_mem top member)
  inside entry member := invariant.inside entry (List.mem_cons_of_mem top member)

theorem FrameInv.meet (invariant : FrameInv code exitPc members ∅ lanes (top :: rest))
    (move : LaneMove code top.m_pc top.m_active_mask lanes lanes') {recvg_pc : Pc}
    (bounded : Bounded code exitPc { top with m_pc := recvg_pc }) :
    FrameInv code exitPc members top.m_active_mask lanes'
      ({ top with m_pc := recvg_pc } :: rest) where
  waits t member live notTop := by
    have below := (invariant.pop move).waits t member live notTop
    rw [waitsAt_cons_of_notMem (by exact notTop)]
    exact below
  chained := invariant.chained.mono move.alive
  bounded := List.forall_mem_cons.mpr
    ⟨bounded, fun entry member => invariant.bounded entry (List.mem_cons_of_mem top member)⟩
  active := List.forall_mem_cons.mpr
    ⟨invariant.active top List.mem_cons_self,
      fun entry member => invariant.active entry (List.mem_cons_of_mem top member)⟩
  inside := List.forall_mem_cons.mpr
    ⟨invariant.inside top List.mem_cons_self,
      fun entry member => invariant.inside entry (List.mem_cons_of_mem top member)⟩

def TwoWays (top : StackEntry warpSize) (lanes : Lanes warpSize) : Prop :=
  ∃ q r, q ≠ r ∧ (lanes.group top.m_active_mask q).Nonempty ∧
    (lanes.group top.m_active_mask r).Nonempty

/-- The reconvergence PC passed with an instruction that sends lanes two ways is
    the start of the immediate postdominator of its block. -/
def RecvgAt (code : FunctionCode) (exitPc : Pc) (top : StackEntry warpSize)
    (lanes : Lanes warpSize) (recvg_pc : Pc) : Prop :=
  TwoWays top lanes → ∀ b X, top.m_pc ∈ code.pcs b →
    code.graph.ImmediatePostdominator X b → recvg_pc = code.target exitPc X

theorem bounded_next {p q recvg_pc : Pc} (next : code.Next p q)
    (notCode : ¬ code.Instruction exitPc) {b R : Fin code.n} (inB : p ∈ code.pcs b)
    (dominates : code.graph.Postdominates R b) (strict : R ≠ b)
    (isTarget : recvg_pc = code.target exitPc R) (apart : q ≠ recvg_pc)
    {entry : StackEntry warpSize} (atQ : entry.m_pc = q) (reconverges : entry.m_recvg_pc = recvg_pc)
    (normal : entry.m_type = .normal) : Bounded code exitPc entry := by
  cases next.advance notCode inB dominates strict with
  | inl arrives => exact absurd (arrives.trans isTarget.symm) apart
  | inr inside =>
    obtain ⟨c, inC, dominatesC, strictC⟩ := inside
    exact Or.inr ⟨c, R, atQ ▸ inC, reconverges.trans isTarget, dominatesC, strictC, normal⟩

theorem block_of_next {p q : Pc} (next : code.Next p q) : ∃ b, p ∈ code.pcs b := by
  cases next with
  | @within b _ _ _ _ shape => exact ⟨b, by rw [shape]; simp⟩
  | @across b _ _ _ _ _ shape _ _ => exact ⟨b, by rw [shape]; simp⟩

theorem FrameInv.placeGroup {pending : Mask warpSize} {stack : SimtStack warpSize}
    (invariant : FrameInv code exitPc members pending lanes stack) {mask : Mask warpSize}
    (part : mask ⊆ members) {recvg_pc q : Pc} (nonempty : (lanes.group mask q).Nonempty)
    (notPlaced : lanes.group mask q ⊆ pending)
    (awaited : ∀ t ∈ pending, lanes.thread_done t = false → Awaits stack t recvg_pc)
    (proper : q ≠ nullPc)
    (bounded : q ≠ recvg_pc → Bounded code exitPc
      (⟨q, 0, lanes.group mask q, recvg_pc, .normal⟩ : StackEntry warpSize)) :
    let placed := if q = recvg_pc then stack
      else ⟨q, 0, lanes.group mask q, recvg_pc, .normal⟩ :: stack
    FrameInv code exitPc members (pending \ lanes.group mask q) lanes placed ∧
      ∀ t ∈ pending \ lanes.group mask q, lanes.thread_done t = false →
        Awaits placed t recvg_pc := by
  intro placed
  by_cases arrives : q = recvg_pc
  · have isPlaced : placed = stack := if_pos arrives
    rw [isPlaced]
    refine ⟨invariant.arrive _ (arrives ▸ proper) (fun t member => ?_) awaited, fun t member live => ?_⟩
    · exact (Lanes.mem_group.mp member).2.2.trans arrives
    · exact awaited t (Finset.mem_sdiff.mp member).1 live
  · have isPlaced : placed = ⟨q, 0, lanes.group mask q, recvg_pc, .normal⟩ :: stack :=
      if_neg arrives
    rw [isPlaced]
    refine ⟨invariant.place _ (fun t member => ?_) awaited (bounded arrives) nonempty
      (fun t member => part (Lanes.mem_group.mp member).1), fun t member live => ?_⟩
    · exact ⟨notPlaced member, (Lanes.mem_group.mp member).2.2⟩
    · rw [Awaits, waitsAt_cons_of_notMem (Finset.mem_sdiff.mp member).2]
      exact awaited t (Finset.mem_sdiff.mp member).1 live

/-- Whatever the lanes of the top entry do, the entries of the function keep
    the invariant. -/
theorem FrameInv.step (invariant : FrameInv code exitPc members ∅ lanes (top :: rest))
    (notCode : ¬ code.Instruction exitPc)
    (move : LaneMove code top.m_pc top.m_active_mask lanes lanes') {recvg_pc : Pc}
    (recvg : RecvgAt code exitPc top lanes' recvg_pc) {stack' : SimtStack warpSize}
    (outcome : Outcome top rest lanes' recvg_pc stack') :
    FrameInv code exitPc members ∅ lanes' stack' := by
  have popped := invariant.pop move
  have awaited (t : Fin warpSize) (member : t ∈ top.m_active_mask)
      (live : lanes'.thread_done t = false) : Awaits rest t top.m_recvg_pc :=
    invariant.chained.1 t member (move.alive t live)
  have part : top.m_active_mask ⊆ members := invariant.inside top List.mem_cons_self
  have bound := invariant.bounded top List.mem_cons_self
  have groupNext {q : Pc} (nonempty : (lanes'.group top.m_active_mask q).Nonempty) :
      code.Next top.m_pc q := by
    obtain ⟨t, member⟩ := nonempty
    obtain ⟨inTop, live, atQ⟩ := Lanes.mem_group.mp member
    exact atQ ▸ move.moved t inTop live
  have subset (q : Pc) : lanes'.group top.m_active_mask q ⊆ top.m_active_mask :=
    fun t member => (Lanes.mem_group.mp member).1
  cases outcome with
  | finished none =>
    refine popped.settle fun t member live => ?_
    have inGroup : t ∈ lanes'.group top.m_active_mask (lanes'.next_pc t) :=
      Lanes.mem_group.mpr ⟨member, live, rfl⟩
    rw [none] at inGroup
    exact absurd inGroup (Finset.notMem_empty t)
  | reconverged q only meets normal =>
    have proper := (groupNext ((only q).mpr rfl)).instruction.ne_null
    have arrived := popped.arrive (lanes'.group top.m_active_mask q) (meets ▸ proper)
      (fun t member => (Lanes.mem_group.mp member).2.2.trans meets) awaited
    refine arrived.settle fun t member live => ?_
    obtain ⟨inTop, outside⟩ := Finset.mem_sdiff.mp member
    have isQ := (only (lanes'.next_pc t)).mp ⟨t, Lanes.mem_group.mpr ⟨inTop, live, rfl⟩⟩
    exact absurd (Lanes.mem_group.mpr ⟨inTop, live, isQ⟩) outside
  | moved q only apart =>
    have nonempty := (only q).mpr rfl
    have next := groupNext nonempty
    let entry : StackEntry warpSize :=
      { top with m_pc := q, m_active_mask := lanes'.group top.m_active_mask q }
    have entryBounded : Bounded code exitPc entry := by
      cases bound with
      | inl unbounded => exact Or.inl unbounded
      | inr bounded =>
        obtain ⟨b, R, inB, isTarget, dominates, strict, normal⟩ := bounded
        have notThere : q ≠ top.m_recvg_pc := apart.resolve_right (by simp [normal])
        exact bounded_next next notCode inB dominates strict isTarget notThere rfl rfl normal
    have placed := popped.place entry (fun t member =>
      ⟨subset q member, (Lanes.mem_group.mp member).2.2⟩) awaited entryBounded nonempty
      ((subset q).trans part)
    refine placed.settle fun t member live => ?_
    obtain ⟨inTop, outside⟩ := Finset.mem_sdiff.mp member
    have isQ := (only (lanes'.next_pc t)).mp ⟨t, Lanes.mem_group.mpr ⟨inTop, live, rfl⟩⟩
    exact absurd (Lanes.mem_group.mpr ⟨inTop, live, isQ⟩) outside
  | diverged p q different only =>
    have toP := groupNext ((only p).mpr (Or.inl rfl))
    have toQ := groupNext ((only q).mpr (Or.inr rfl))
    obtain ⟨b, inB⟩ := block_of_next toP
    obtain ⟨X, immediate⟩ := FlowGraph.exists_immediatePostdominator
      (FunctionCode.notExit_of_mem inB) (code.graph.reaches b)
    have isTarget : recvg_pc = code.target exitPc X :=
      recvg ⟨p, q, different, (only p).mpr (Or.inl rfl), (only q).mpr (Or.inr rfl)⟩ b X inB immediate
    -- the stack above which the two groups are placed
    have under : FrameInv code exitPc members top.m_active_mask lanes'
        (meetingStack top rest recvg_pc) ∧ ∀ t ∈ top.m_active_mask,
          lanes'.thread_done t = false → Awaits (meetingStack top rest recvg_pc) t recvg_pc := by
      by_cases same : recvg_pc = top.m_recvg_pc
      · rw [meetingStack, if_pos same]
        exact ⟨popped, same ▸ awaited⟩
      · rw [meetingStack, if_neg same]
        refine ⟨invariant.meet move ?_, fun t member _ => Or.inl (waitsAt_cons_of_mem (by exact member) rest)⟩
        cases bound with
        | inl unbounded => exact Or.inl unbounded
        | inr bounded =>
          obtain ⟨c, R, inC, topTarget, dominates, strict, normal⟩ := bounded
          obtain rfl := FunctionCode.block_unique inB inC
          have outer := immediate.closest R dominates strict
          have apart : R ≠ X := fun equal => same (isTarget.trans (equal ▸ topTarget.symm))
          have notExit : X ≠ code.graph.exitBlock := fun isExit => by
            subst isExit
            exact apart (FlowGraph.postdominates_exit outer)
          exact Or.inr ⟨X, R, isTarget ▸ FunctionCode.target_mem notExit exitPc, topTarget, outer,
            apart, normal⟩
    have groupBounded {r : Pc} (next : code.Next top.m_pc r) (apart : r ≠ recvg_pc) :
        Bounded code exitPc
          (⟨r, 0, lanes'.group top.m_active_mask r, recvg_pc, .normal⟩ : StackEntry warpSize) :=
      bounded_next next notCode inB immediate.postdominates immediate.strict isTarget apart rfl rfl
        rfl
    obtain ⟨first, firstAwaited⟩ := under.1.placeGroup part ((only p).mpr (Or.inl rfl)) (subset p)
      under.2 toP.instruction.ne_null (groupBounded toP)
    have qLeft : lanes'.group top.m_active_mask q ⊆
        top.m_active_mask \ lanes'.group top.m_active_mask p := fun t member =>
      Finset.mem_sdiff.mpr ⟨subset q member, fun inP => different
        ((Lanes.mem_group.mp inP).2.2.symm.trans (Lanes.mem_group.mp member).2.2)⟩
    obtain ⟨second, _⟩ := first.placeGroup part ((only q).mpr (Or.inr rfl)) qLeft
      firstAwaited toQ.instruction.ne_null (groupBounded toQ)
    refine FrameInv.settle second fun t member live => ?_
    obtain ⟨inRest, notQ⟩ := Finset.mem_sdiff.mp member
    obtain ⟨inTop, notP⟩ := Finset.mem_sdiff.mp inRest
    cases (only (lanes'.next_pc t)).mp ⟨t, Lanes.mem_group.mpr ⟨inTop, live, rfl⟩⟩ with
    | inl isP => exact absurd (Lanes.mem_group.mpr ⟨inTop, live, isP⟩) notP
    | inr isQ => exact absurd (Lanes.mem_group.mpr ⟨inTop, live, isQ⟩) notQ

theorem FrameInv.resume (invariant : FrameInv code exitPc members ∅ lanes (top :: rest))
    (notCode : ¬ code.Instruction exitPc)
    (move : LaneMove code top.m_pc top.m_active_mask lanes lanes') {q : Pc}
    (next : code.Next top.m_pc q)
    (arrived : ∀ t ∈ top.m_active_mask, lanes'.thread_done t = false → lanes'.next_pc t = q)
    (apart : q ≠ top.m_recvg_pc ∨ top.m_type = .call) :
    FrameInv code exitPc members ∅ lanes' ({ top with m_pc := q } :: rest) := by
  have bounded : Bounded code exitPc { top with m_pc := q } := by
    cases invariant.bounded top List.mem_cons_self with
    | inl unbounded => exact Or.inl unbounded
    | inr bounded =>
      obtain ⟨b, R, inB, isTarget, dominates, strict, normal⟩ := bounded
      have notThere : q ≠ top.m_recvg_pc := apart.resolve_right (by simp [normal])
      exact bounded_next next notCode inB dominates strict isTarget notThere rfl rfl normal
  have meeting := invariant.meet move bounded
  have placed := meeting.arrive (lanes'.group top.m_active_mask q) next.instruction.ne_null
    (fun t member => (Lanes.mem_group.mp member).2.2)
    (fun t member _ => Or.inl (waitsAt_cons_of_mem (by exact member) rest))
  apply placed.settle
  intro t member live
  obtain ⟨inTop, outside⟩ := Finset.mem_sdiff.mp member
  exact absurd (Lanes.mem_group.mpr ⟨inTop, live, arrived t inTop live⟩) outside

theorem FrameInv.mayDiverge (invariant : FrameInv code exitPc members ∅ lanes (top :: rest))
    (notCode : ¬ code.Instruction exitPc)
    (move : LaneMove code top.m_pc top.m_active_mask lanes lanes') {recvg_pc : Pc}
    (recvg : RecvgAt code exitPc top lanes' recvg_pc)
    (inCallee : top.m_type = .call → TwoWays top lanes' → recvg_pc ≠ top.m_recvg_pc) :
    MayDiverge top lanes' recvg_pc := by
  intro pcs nodup nonempty
  have next (q : Pc) (member : q ∈ pcs) : code.Next top.m_pc q := by
    obtain ⟨t, inGroup⟩ := nonempty q member
    obtain ⟨inTop, live, atQ⟩ := Lanes.mem_group.mp inGroup
    exact atQ ▸ move.moved t inTop live
  match pcs with
  | [] => exact Or.inl (by simp)
  | [_] => exact Or.inl (by simp)
  | p :: q :: more =>
    have toP := next p List.mem_cons_self
    have toQ := next q (by simp)
    have different : p ≠ q := fun same =>
      (List.nodup_cons.mp nodup).1 (same ▸ List.mem_cons_self)
    have twoWays : TwoWays top lanes' :=
      ⟨p, q, different, nonempty p List.mem_cons_self, nonempty q (by simp)⟩
    obtain ⟨b, inB⟩ := block_of_next toP
    have few := FunctionCode.next_le_two inB nodup next
    obtain ⟨X, immediate⟩ := FlowGraph.exists_immediatePostdominator
      (FunctionCode.notExit_of_mem inB) (code.graph.reaches b)
    refine Or.inr ⟨by simp only [List.length_cons] at few ⊢; omega, ?_, fun call =>
      inCallee call twoWays⟩
    intro _ arrived
    obtain ⟨t, inGroup⟩ := arrived
    obtain ⟨inTop, live, atEnd⟩ := Lanes.mem_group.mp inGroup
    have toEnd : code.Next top.m_pc top.m_recvg_pc := atEnd ▸ move.moved t inTop live
    cases invariant.bounded top List.mem_cons_self with
    | inl unbounded => exact absurd unbounded toEnd.instruction.ne_null
    | inr bounded =>
      obtain ⟨c, R, inC, isTarget, dominates, strict, _⟩ := bounded
      obtain rfl := FunctionCode.block_unique inB inC
      have meets {r : Pc} (toR : code.Next top.m_pc r) (apart : top.m_recvg_pc ≠ r) : X = R :=
        toEnd.meets toR apart notCode inB dominates strict immediate isTarget
      have same : X = R := by
        by_cases atP : top.m_recvg_pc = p
        · exact meets toQ fun atQ => different (atP.symm.trans atQ)
        · exact meets toP atP
      rw [isTarget, ← same]
      exact recvg twoWays b X inB immediate

end

end AesOnGpu.Simt
