import AesOnGpu.Simt.Stack

/-! # What `update` does to the stack

The lanes of the top entry fall into groups by their next PC
(`collectPaths_spec`).  `update_spec` says what becomes of the stack when the
instruction is neither a call nor a return from one: nothing is left of an entry
without live lanes, one group moves on or reconverges, and two groups are put
above the entry at which they meet again.  `update_call` and `update_return` are
the two special cases.
-/

namespace AesOnGpu.Simt

variable {warpSize : Nat}

/-! ## Groups -/

/-- The live lanes of a mask whose next PC is `q`. -/
def Lanes.group (lanes : Lanes warpSize) (mask : Mask warpSize) (q : Pc) : Mask warpSize :=
  mask.filter fun i => lanes.thread_done i = false ∧ lanes.next_pc i = q

@[simp] theorem Lanes.mem_group {lanes : Lanes warpSize} {mask : Mask warpSize} {q : Pc}
    {i : Fin warpSize} :
    i ∈ lanes.group mask q ↔ i ∈ mask ∧ lanes.thread_done i = false ∧ lanes.next_pc i = q := by
  simp [Lanes.group]

def Lanes.Valid (lanes : Lanes warpSize) (mask : Mask warpSize) : Prop :=
  ∀ i ∈ mask, lanes.thread_done i = false → lanes.next_pc i ≠ nullPc

theorem extractTurns_started (lanes : Lanes warpSize) {q : Pc} (started : q ≠ nullPc)
    (visited : List (Fin warpSize)) (taken mask : Mask warpSize) :
    visited.foldl (extractTurn lanes) ⟨q, taken, mask⟩ =
      ⟨q, taken ∪ (lanes.group mask q).filter (· ∈ visited),
        mask.filter fun i => i ∉ visited ∨ lanes.thread_done i = false ∧ lanes.next_pc i ≠ q⟩ := by
  induction visited generalizing taken mask with
  | nil => simp
  | cons j visited ih =>
    rw [List.foldl_cons, extractTurn]
    by_cases inMask : j ∈ mask
    · by_cases done : lanes.thread_done j = true
      · simp only [inMask, done, if_true, ih]
        congr 1
        · ext i; by_cases same : i = j <;> simp_all
        · ext i; by_cases same : i = j <;> simp_all
      · by_cases joins : q = lanes.next_pc j
        · simp only [inMask, done, started, joins.symm, if_true, if_false, ih,
            Bool.false_eq_true]
          congr 1
          · ext i; by_cases same : i = j <;> simp_all
          · ext i; by_cases same : i = j <;> simp_all
        · simp only [inMask, done, started, joins, if_true, if_false, ih,
            Bool.false_eq_true]
          have differs : lanes.next_pc j ≠ q := fun same => joins same.symm
          congr 1
          · ext i; by_cases same : i = j <;> simp_all
          · ext i; by_cases same : i = j <;> simp_all
    · simp only [inMask, if_false, ih]
      congr 1
      · ext i; by_cases same : i = j <;> simp_all
      · ext i; by_cases same : i = j <;> simp_all

theorem extractTurns_spec {lanes : Lanes warpSize} (visited : List (Fin warpSize))
    (mask : Mask warpSize) (valid : lanes.Valid mask) :
    ((∀ i ∈ mask, i ∈ visited → lanes.thread_done i = true) ∧
        visited.foldl (extractTurn lanes) ⟨nullPc, ∅, mask⟩ =
          ⟨nullPc, ∅, mask.filter (· ∉ visited)⟩) ∨
      ∃ i ∈ mask, lanes.thread_done i = false ∧
        visited.foldl (extractTurn lanes) ⟨nullPc, ∅, mask⟩ =
          ⟨lanes.next_pc i, (lanes.group mask (lanes.next_pc i)).filter (· ∈ visited),
            mask.filter fun j => j ∉ visited ∨
              lanes.thread_done j = false ∧ lanes.next_pc j ≠ lanes.next_pc i⟩ := by
  induction visited generalizing mask with
  | nil => exact Or.inl ⟨by simp, by simp⟩
  | cons j visited ih =>
    by_cases inMask : j ∈ mask
    · by_cases done : lanes.thread_done j = true
      · have turn : extractTurn lanes ⟨nullPc, ∅, mask⟩ j = ⟨nullPc, ∅, mask.erase j⟩ := by
          simp [extractTurn, inMask, done]
        have restValid : lanes.Valid (mask.erase j) :=
          fun i member => valid i (Finset.mem_of_mem_erase member)
        rw [List.foldl_cons, turn]
        cases ih (mask.erase j) restValid with
        | inl none =>
          obtain ⟨allDone, run⟩ := none
          refine Or.inl ⟨fun i member visit => ?_, ?_⟩
          · by_cases same : i = j
            · exact same ▸ done
            · exact allDone i (Finset.mem_erase.mpr ⟨same, member⟩)
                ((List.mem_cons.mp visit).resolve_left same)
          · rw [run]; congr 1; ext i; by_cases same : i = j <;> simp_all
        | inr some =>
          obtain ⟨i, member, live, run⟩ := some
          refine Or.inr ⟨i, Finset.mem_of_mem_erase member, live, ?_⟩
          rw [run]
          congr 1
          · ext k; by_cases same : k = j <;> simp_all
          · ext k; by_cases same : k = j <;> simp_all
      · have live : lanes.thread_done j = false := Bool.eq_false_iff.mpr done
        have turn : extractTurn lanes ⟨nullPc, ∅, mask⟩ j =
            ⟨lanes.next_pc j, {j}, mask.erase j⟩ := by
          simp [extractTurn, inMask, live]
        refine Or.inr ⟨j, inMask, live, ?_⟩
        rw [List.foldl_cons, turn, extractTurns_started lanes (valid j inMask live)]
        congr 1
        · ext k; by_cases same : k = j <;> simp_all
        · ext k; by_cases same : k = j <;> simp_all
    · have turn : extractTurn lanes ⟨nullPc, ∅, mask⟩ j = ⟨nullPc, ∅, mask⟩ := by
        simp [extractTurn, inMask]
      rw [List.foldl_cons, turn]
      cases ih mask valid with
      | inl none =>
        obtain ⟨allDone, run⟩ := none
        refine Or.inl ⟨fun i member visit => ?_, ?_⟩
        · have different : i ≠ j := fun same => inMask (same ▸ member)
          exact allDone i member ((List.mem_cons.mp visit).resolve_left different)
        · rw [run]; congr 1; ext i; by_cases same : i = j <;> simp_all
      | inr some =>
        obtain ⟨i, member, live, run⟩ := some
        refine Or.inr ⟨i, member, live, ?_⟩
        rw [run]
        congr 1
        · ext k; by_cases same : k = j <;> simp_all
        · ext k; by_cases same : k = j <;> simp_all

theorem extractGroup_spec {lanes : Lanes warpSize} {mask : Mask warpSize}
    (valid : lanes.Valid mask) :
    ((∀ i ∈ mask, lanes.thread_done i = true) ∧ extractGroup lanes mask = ⟨nullPc, ∅, ∅⟩) ∨
      ∃ i ∈ mask, lanes.thread_done i = false ∧ extractGroup lanes mask =
        ⟨lanes.next_pc i, lanes.group mask (lanes.next_pc i),
          mask.filter fun j => lanes.thread_done j = false ∧ lanes.next_pc j ≠ lanes.next_pc i⟩ := by
  have spec := extractTurns_spec (List.finRange warpSize).reverse mask valid
  simpa [extractGroup] using spec

theorem collectPaths_spec {lanes : Lanes warpSize} {fuel : Nat} {mask : Mask warpSize}
    (enough : mask.card ≤ fuel) (valid : lanes.Valid mask) (paths : Paths warpSize) (num : Nat)
    (fresh : ∀ path ∈ paths, lanes.group mask path.1 = ∅) :
    ∃ pcs : List Pc, pcs.Nodup ∧ (∀ q, q ∈ pcs ↔ (lanes.group mask q).Nonempty) ∧
      collectPaths lanes fuel mask (paths, num) =
        some ((pcs.map fun q => (q, lanes.group mask q)) ++ paths, num + pcs.length) := by
  induction fuel generalizing mask paths num with
  | zero =>
    obtain rfl := Finset.card_eq_zero.mp (Nat.le_zero.mp enough)
    exact ⟨[], List.nodup_nil, by simp [Lanes.group], by simp [collectPaths]⟩
  | succ fuel ih =>
    by_cases empty : mask = ∅
    · subst empty
      exact ⟨[], List.nodup_nil, by simp [Lanes.group], by simp [collectPaths]⟩
    · cases extractGroup_spec valid with
      | inl none =>
        obtain ⟨allDone, extracted⟩ := none
        refine ⟨[], List.nodup_nil, fun q => ?_, ?_⟩
        · simp only [List.not_mem_nil, false_iff, Finset.not_nonempty_iff_eq_empty]
          refine Finset.eq_empty_of_forall_notMem fun i member => ?_
          obtain ⟨inMask, live, _⟩ := Lanes.mem_group.mp member
          rw [allDone i inMask] at live
          exact absurd live (by decide)
        · rw [collectPaths, if_neg empty]
          simp only [extracted]
          rw [if_pos trivial, if_neg (by simp)]
          cases fuel <;> simp [collectPaths]
      | inr some =>
        obtain ⟨i, inMask, live, extracted⟩ := some
        have started := valid i inMask live
        let q := lanes.next_pc i
        let rest := mask.filter fun j => lanes.thread_done j = false ∧ lanes.next_pc j ≠ q
        have restGroup (p : Pc) (other : p ≠ q) : lanes.group rest p = lanes.group mask p := by
          ext j; simp only [rest, Lanes.mem_group, Finset.mem_filter]; grind
        have noneLeft : lanes.group rest q = ∅ := by
          refine Finset.eq_empty_of_forall_notMem fun j member => ?_
          obtain ⟨inRest, _, same⟩ := Lanes.mem_group.mp member
          exact (Finset.mem_filter.mp inRest).2.2 same
        have inGroup : i ∈ lanes.group mask q := Lanes.mem_group.mpr ⟨inMask, live, rfl⟩
        have smaller : rest.card ≤ fuel := by
          have less : rest.card < mask.card := Finset.card_lt_card
            (Finset.filter_ssubset.mpr ⟨i, inMask, fun both => both.2 rfl⟩)
          omega
        have notYet (path : Pc × Mask warpSize) (member : path ∈ paths) : path.1 ≠ q := by
          intro same
          have none := fresh path member
          rw [same] at none
          rw [none] at inGroup
          exact absurd inGroup (Finset.notMem_empty i)
        have assigned : paths.assign q (lanes.group mask q) = (q, lanes.group mask q) :: paths := by
          rw [Paths.assign, List.filter_eq_self.mpr fun path member => by
            simpa using notYet path member]
        obtain ⟨pcs, nodup, members, run⟩ := ih smaller
          (fun j member => valid j (Finset.mem_filter.mp member).1)
          ((q, lanes.group mask q) :: paths) (num + 1) (fun path member => by
            cases List.mem_cons.mp member with
            | inl same => exact same ▸ noneLeft
            | inr old => rw [restGroup path.1 (notYet path old)]; exact fresh path old)
        have notIn : q ∉ pcs := fun member =>
          Finset.not_nonempty_iff_eq_empty.mpr noneLeft ((members q).mp member)
        refine ⟨pcs ++ [q], ?_, fun p => ?_, ?_⟩
        · exact List.nodup_append.mpr ⟨nodup, List.nodup_singleton q, fun a aMember b bMember same =>
            notIn (List.mem_singleton.mp bMember ▸ same ▸ aMember)⟩
        · rw [List.mem_append, List.mem_singleton, members]
          by_cases same : p = q
          · subst same
            exact iff_of_true (Or.inr rfl) ⟨i, inGroup⟩
          · simp [same, restGroup p same]
        · rw [collectPaths, if_neg empty]
          simp only [extracted]
          rw [if_neg started]
          refine (congrArg (fun paths => collectPaths lanes fuel rest (paths, num + 1))
            assigned).trans (run.trans ?_)
          rw [List.map_append, List.append_assoc, List.length_append, List.length_singleton,
            Nat.add_right_comm, Nat.add_assoc]
          congr 3
          exact List.map_congr_left fun p member => by
            rw [restGroup p fun same => notIn (same ▸ member)]

/-! ## Rounds of the loop over the paths -/

theorem pickPath_single (not_taken_pc : Pc) {i : Nat} (path : Pc × Mask warpSize)
    (allowed : i = 0 ∨ path.1 ≠ not_taken_pc) :
    pickPath not_taken_pc i [path] = some (path, []) := by
  by_cases notTaken : path.1 = not_taken_pc
  · have first := allowed.resolve_right fun other => other notTaken
    simp [pickPath, notTaken, first]
  · simp [pickPath, notTaken]

theorem pickPath_pair (not_taken_pc : Pc) {p q : Pc × Mask warpSize} (different : p.1 ≠ q.1) :
    (pickPath not_taken_pc 0 [p, q] = some (p, [q]) ∧ q.1 ≠ not_taken_pc) ∨
      (pickPath not_taken_pc 0 [p, q] = some (q, [p]) ∧ p.1 ≠ not_taken_pc) := by
  have others := different.symm
  by_cases pNotTaken : p.1 = not_taken_pc
  · refine Or.inl ⟨?_, fun same => different (pNotTaken.trans same.symm)⟩
    simp [pickPath, pNotTaken, show q.1 ≠ not_taken_pc from fun same => others (same.trans pNotTaken.symm)]
  · by_cases qNotTaken : q.1 = not_taken_pc
    · refine Or.inr ⟨?_, pNotTaken⟩
      simp [pickPath, pNotTaken, qNotTaken]
    · cases smallest : [p, q].argmin fun path => path.1.toNat with
      | none => exact absurd (List.argmin_eq_none.mp smallest) (List.cons_ne_nil p [q])
      | some least =>
        have member := List.argmin_mem (Option.mem_def.mpr smallest)
        cases List.mem_cons.mp member with
        | inl isP =>
          subst isP
          refine Or.inl ⟨?_, qNotTaken⟩
          simp [pickPath, pNotTaken, qNotTaken, smallest, others]
        | inr isQ =>
          obtain rfl := List.mem_singleton.mp isQ
          refine Or.inr ⟨?_, pNotTaken⟩
          simp [pickPath, pNotTaken, qNotTaken, smallest, different]

/-! ## The new stack -/

/-- The diverging groups of a warp, above the entry where they meet again. -/
def placeAll (lanes : Lanes warpSize) (mask : Mask warpSize) (recvg_pc : Pc) (order : List Pc)
    (under : SimtStack warpSize) : SimtStack warpSize :=
  order.foldl (fun stack q =>
    if q = recvg_pc then stack else ⟨q, 0, lanes.group mask q, recvg_pc, .normal⟩ :: stack) under

/-- The entry that two groups above it are to reach; none is made when they
    reach the one where the top entry itself was to end. -/
def meetingStack (top : StackEntry warpSize) (below : SimtStack warpSize) (recvg_pc : Pc) :
    SimtStack warpSize :=
  if recvg_pc = top.m_recvg_pc then below else { top with m_pc := recvg_pc } :: below

/-- What an instruction that is neither a call nor a return from one makes of
    the stack. -/
inductive Outcome (top : StackEntry warpSize) (below : SimtStack warpSize) (lanes : Lanes warpSize)
    (recvg_pc : Pc) : SimtStack warpSize → Prop where
  | finished (none : ∀ q, lanes.group top.m_active_mask q = ∅) :
      Outcome top below lanes recvg_pc below
  | reconverged (q : Pc) (only : ∀ p, (lanes.group top.m_active_mask p).Nonempty ↔ p = q)
      (meets : q = top.m_recvg_pc) (normal : top.m_type = .normal) :
      Outcome top below lanes recvg_pc below
  | moved (q : Pc) (only : ∀ p, (lanes.group top.m_active_mask p).Nonempty ↔ p = q)
      (apart : q ≠ top.m_recvg_pc ∨ top.m_type = .call) :
      Outcome top below lanes recvg_pc
        ({ top with m_pc := q, m_active_mask := lanes.group top.m_active_mask q } :: below)
  | diverged (p q : Pc) (different : p ≠ q)
      (only : ∀ r, (lanes.group top.m_active_mask r).Nonempty ↔ r = p ∨ r = q) :
      Outcome top below lanes recvg_pc
        (placeAll lanes top.m_active_mask recvg_pc [p, q] (meetingStack top below recvg_pc))

/-- The reconvergence PC passed with an instruction at which the lanes of `top`
    diverge: a group that is already where `top` ends means that they all meet there. -/
structure MeetsBy (top : StackEntry warpSize) (lanes : Lanes warpSize) (recvg_pc : Pc) : Prop where
  notPassing : top.m_type = .normal → (lanes.group top.m_active_mask top.m_recvg_pc).Nonempty →
    recvg_pc = top.m_recvg_pc
  inCallee : top.m_type = .call → recvg_pc ≠ top.m_recvg_pc

/-- At most two groups, which meet at `recvg_pc`. -/
def MayDiverge (top : StackEntry warpSize) (lanes : Lanes warpSize) (recvg_pc : Pc) : Prop :=
  ∀ pcs : List Pc, pcs.Nodup → (∀ q ∈ pcs, (lanes.group top.m_active_mask q).Nonempty) →
    pcs.length ≤ 1 ∨ pcs.length = 2 ∧ MeetsBy top lanes recvg_pc

theorem placePath_pair {top : StackEntry warpSize} (below : SimtStack warpSize)
    (lanes : Lanes warpSize) {recvg_pc : Pc} (op : OpType) (not_taken_pc : Pc) {p q : Pc}
    (different : p ≠ q)
    (pNotPassing : p = top.m_recvg_pc → top.m_type = .normal → recvg_pc = top.m_recvg_pc)
    (qNotPassing : q = top.m_recvg_pc → top.m_type = .normal → recvg_pc = top.m_recvg_pc)
    (inCallee : top.m_type = .call → recvg_pc ≠ top.m_recvg_pc) :
    let context : UpdateContext := ⟨2, top.m_recvg_pc, top.m_type, recvg_pc, op, not_taken_pc⟩
    let start : UpdateState warpSize := ⟨top, below, false, nullPc⟩
    (placePath context q (lanes.group top.m_active_mask q)
      (placePath context p (lanes.group top.m_active_mask p) start)).below =
      placeAll lanes top.m_active_mask recvg_pc [p, q] (meetingStack top below recvg_pc) := by
  intro context start
  cases type : top.m_type with
  | call =>
    have apart := inCallee type
    simp only [context, start, placePath, type, placeAll, meetingStack, List.foldl_cons,
      List.foldl_nil, StackEntry.fresh]
    by_cases pMeets : p = recvg_pc <;> by_cases qMeets : q = recvg_pc <;> simp_all
  | normal =>
    by_cases meets : recvg_pc = top.m_recvg_pc
    · simp only [context, start, placePath, type, placeAll, meetingStack, List.foldl_cons,
        List.foldl_nil, StackEntry.fresh, meets]
      by_cases pMeets : p = top.m_recvg_pc <;> by_cases qMeets : q = top.m_recvg_pc <;> simp_all
    · have pApart : p ≠ top.m_recvg_pc := fun same => meets (pNotPassing same type)
      have qApart : q ≠ top.m_recvg_pc := fun same => meets (qNotPassing same type)
      simp only [context, start, placePath, type, placeAll, meetingStack, List.foldl_cons,
        List.foldl_nil, StackEntry.fresh]
      by_cases pMeets : p = recvg_pc <;> by_cases qMeets : q = recvg_pc <;> simp_all

/-! ## The whole function -/

/-- The variables of `update` before the loop over the paths. -/
def updateContext (top : StackEntry warpSize) (executed : Executed) (num : Nat) : UpdateContext :=
  ⟨num, top.m_recvg_pc, top.m_type, executed.recvg_pc, executed.next_inst_op,
    executed.next_inst_pc + executed.next_inst_size⟩

/-- What holds when `update` is called after the instruction of the top entry. -/
structure AtTop (top : StackEntry warpSize) (lanes : Lanes warpSize) (executed : Executed) :
    Prop where
  atPc : top.m_pc = executed.next_inst_pc
  active : top.m_active_mask ≠ ∅
  valid : lanes.Valid top.m_active_mask

theorem update_eq {top : StackEntry warpSize} {lanes : Lanes warpSize} {executed : Executed}
    (atTop : AtTop top lanes executed) (below : SimtStack warpSize) :
    ∃ pcs : List Pc, pcs.Nodup ∧
      (∀ q, q ∈ pcs ↔ (lanes.group top.m_active_mask q).Nonempty) ∧
      update (top :: below) lanes executed =
        if pcs.length > 2 then none
        else placePaths (updateContext top executed pcs.length) pcs.length 0
          (pcs.map fun q => (q, lanes.group top.m_active_mask q)) ⟨top, below, false, nullPc⟩ := by
  have fits : top.m_active_mask.card ≤ warpSize := by
    simpa using Finset.card_le_univ top.m_active_mask
  obtain ⟨pcs, nodup, members, collected⟩ :=
    collectPaths_spec fits atTop.valid [] 0 (by simp)
  refine ⟨pcs, nodup, members, ?_⟩
  rw [List.append_nil, Nat.zero_add] at collected
  simp only [update, atTop.atPc, atTop.active, collected, updateContext]
  by_cases many : pcs.length > 2
  · simp [many]
  · simp [many]

theorem update_finished {top : StackEntry warpSize} {lanes : Lanes warpSize} {executed : Executed}
    (atTop : AtTop top lanes executed) (below : SimtStack warpSize)
    (none : ∀ q, lanes.group top.m_active_mask q = ∅) :
    update (top :: below) lanes executed = some below := by
  obtain ⟨pcs, _, members, run⟩ := update_eq atTop below
  have empty : pcs = [] := List.eq_nil_iff_forall_not_mem.mpr fun q member =>
    ((members q).mp member).ne_empty (none q)
  rw [run, empty]
  rfl

theorem update_single {top : StackEntry warpSize} {lanes : Lanes warpSize} {executed : Executed}
    (atTop : AtTop top lanes executed) (below : SimtStack warpSize) {q : Pc}
    (only : ∀ p, (lanes.group top.m_active_mask p).Nonempty ↔ p = q) :
    update (top :: below) lanes executed =
      (pathRound (updateContext top executed 1) q (lanes.group top.m_active_mask q)
        ⟨top, below, false, nullPc⟩).map fun round => match round with
          | .done stack => stack
          | .next state => state.below := by
  obtain ⟨pcs, nodup, members, run⟩ := update_eq atTop below
  have single : pcs = [q] := by
    have perm : pcs.Perm [q] := (List.perm_ext_iff_of_nodup nodup (List.nodup_singleton q)).mpr
      fun p => by rw [members, only, List.mem_singleton]
    exact List.perm_singleton.mp perm
  rw [run, single]
  simp only [List.length_singleton, List.map_cons, List.map_nil, placePaths,
    pickPath_single _ (q, lanes.group top.m_active_mask q) (Or.inl rfl), Option.bind_eq_bind,
    Option.bind_some]
  cases pathRound (updateContext top executed 1) q (lanes.group top.m_active_mask q)
      ⟨top, below, false, nullPc⟩ with
  | none => rfl
  | some round => cases round <;> rfl

theorem update_spec {top : StackEntry warpSize} {lanes : Lanes warpSize} {executed : Executed}
    (atTop : AtTop top lanes executed) (below : SimtStack warpSize)
    (notCall : executed.next_inst_op ≠ .CALL_OPS)
    (notReturn : executed.next_inst_op = .RET_OPS → top.m_type = .normal)
    (mayDiverge : MayDiverge top lanes executed.recvg_pc) :
    ∃ stack, update (top :: below) lanes executed = some stack ∧
      Outcome top below lanes executed.recvg_pc stack := by
  obtain ⟨pcs, nodup, members, run⟩ := update_eq atTop below
  have ordinary : ¬ (executed.next_inst_op = .RET_OPS ∧ top.m_type = .call) := fun both => by
    rw [notReturn both.1] at both
    exact absurd both.2 (by decide)
  have round (num : Nat) (q : Pc) (state : UpdateState warpSize) :
      pathRound (updateContext top executed num) q (lanes.group top.m_active_mask q) state =
        some (.next (placePath (updateContext top executed num) q
          (lanes.group top.m_active_mask q) state)) := by
    rw [pathRound]
    exact (if_neg notCall).trans (if_neg ordinary)
  have few := mayDiverge pcs nodup fun q member => (members q).mp member
  match pcs with
  | [] =>
    have none (q : Pc) : lanes.group top.m_active_mask q = ∅ :=
      Finset.not_nonempty_iff_eq_empty.mp fun some =>
        List.not_mem_nil ((members q).mpr some)
    exact ⟨below, update_finished atTop below none, .finished none⟩
  | [q] =>
    have only (p : Pc) : (lanes.group top.m_active_mask p).Nonempty ↔ p = q := by
      rw [← members, List.mem_singleton]
    have single := update_single atTop below only
    rw [round] at single
    by_cases meets : q = top.m_recvg_pc ∧ top.m_type = .normal
    · refine ⟨below, ?_, .reconverged q only meets.1 meets.2⟩
      rw [single]
      simp [placePath, updateContext, meets.1, meets.2]
    · refine ⟨_, ?_, .moved q only ?_⟩
      · rw [single]
        have apart : ¬ (q = top.m_recvg_pc ∧ top.m_type ≠ .call) := by
          cases type : top.m_type with
          | normal => exact fun both => meets ⟨both.1, type⟩
          | call => simp
        simp [placePath, updateContext, apart]
      · cases type : top.m_type with
        | normal => exact Or.inl fun same => meets ⟨same, type⟩
        | call => exact Or.inr rfl
  | [p, q] =>
    have meets := (few.resolve_left (by simp)).2
    have different : p ≠ q := by
      simpa using (List.nodup_cons.mp nodup).1
    have only (r : Pc) : (lanes.group top.m_active_mask r).Nonempty ↔ r = p ∨ r = q := by
      rw [← members]; simp
    have passing (r : Pc) (isGroup : r = p ∨ r = q) (atEnd : r = top.m_recvg_pc)
        (normal : top.m_type = .normal) : executed.recvg_pc = top.m_recvg_pc :=
      meets.notPassing normal (atEnd ▸ (only r).mpr isGroup)
    have both (r s : Pc) (rs : r ≠ s) (rGroup : r = p ∨ r = q) (sGroup : s = p ∨ s = q)
        (pick : pickPath (executed.next_inst_pc + executed.next_inst_size) 0
          [(p, lanes.group top.m_active_mask p), (q, lanes.group top.m_active_mask q)] =
            some ((r, lanes.group top.m_active_mask r), [(s, lanes.group top.m_active_mask s)]))
        (last : s ≠ executed.next_inst_pc + executed.next_inst_size) :
        update (top :: below) lanes executed =
          some (placeAll lanes top.m_active_mask executed.recvg_pc [r, s]
            (meetingStack top below executed.recvg_pc)) := by
      have placed := placePath_pair below lanes executed.next_inst_op
        (executed.next_inst_pc + executed.next_inst_size) rs (passing r rGroup) (passing s sGroup)
        meets.inCallee
      have notTaken : (updateContext top executed 2).not_taken_pc =
          executed.next_inst_pc + executed.next_inst_size := rfl
      have rounds : [p, q].length = 2 := rfl
      rw [run, rounds, if_neg (by omega), ← placed]
      simp only [List.map_cons, List.map_nil, placePaths, notTaken, pick, round,
        pickPath_single _ (s, lanes.group top.m_active_mask s) (Or.inr last), Option.bind_eq_bind,
        Option.bind_some]
      rfl
    cases pickPath_pair (executed.next_inst_pc + executed.next_inst_size)
        (p := (p, lanes.group top.m_active_mask p)) (q := (q, lanes.group top.m_active_mask q))
        different with
    | inl first =>
      exact ⟨_, both p q different (Or.inl rfl) (Or.inr rfl) first.1 first.2,
        .diverged p q different only⟩
    | inr second =>
      exact ⟨_, both q p different.symm (Or.inr rfl) (Or.inl rfl) second.1 second.2,
        .diverged q p different.symm fun r => by rw [only, or_comm]⟩
  | _ :: _ :: _ :: _ =>
    simp at few

theorem update_call {top : StackEntry warpSize} {lanes : Lanes warpSize} {executed : Executed}
    (atTop : AtTop top lanes executed) (below : SimtStack warpSize)
    (call : executed.next_inst_op = .CALL_OPS) {q : Pc}
    (only : ∀ p, (lanes.group top.m_active_mask p).Nonempty ↔ p = q) :
    update (top :: below) lanes executed =
      some (⟨q, 0, lanes.group top.m_active_mask q, nullPc, .call⟩ :: top :: below) := by
  rw [update_single atTop below only]
  simp [pathRound, call, updateContext, StackEntry.fresh]

theorem update_return {top : StackEntry warpSize} {lanes : Lanes warpSize} {executed : Executed}
    (atTop : AtTop top lanes executed) (caller : StackEntry warpSize) (below : SimtStack warpSize)
    (isReturn : executed.next_inst_op = .RET_OPS) (inCall : top.m_type = .call) {q : Pc}
    (only : ∀ p, (lanes.group top.m_active_mask p).Nonempty ↔ p = q) :
    update (top :: caller :: below) lanes executed =
      some (if q = caller.m_recvg_pc ∧ caller.m_type = .normal then below
        else { caller with m_pc := q } :: below) := by
  have normal : caller.m_type ≠ .call ↔ caller.m_type = .normal := by
    cases caller.m_type <;> simp
  rw [update_single atTop (caller :: below) only]
  simp only [pathRound, isReturn, inCall, updateContext, normal]
  split_ifs <;> simp_all

end AesOnGpu.Simt
