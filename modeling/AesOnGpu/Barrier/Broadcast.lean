import AesOnGpu.Barrier.BarrierSet

/-! # Reduction barriers

Where barriers meet the warps of a core.  `issue_warp` copies an instruction into a free register
of the pipeline and runs it there; for a barrier the warp keeps a pointer to the register, and
`broadcast_barrier_reduction` calls the callbacks of what the registers of the released warps hold
by then.  Write-back leaves a register as it is but marks it empty, so that the next instruction,
of whatever warp, can be issued into it while the warp still waits.  The registers move along the
pipeline by exchange of pointers and keep their identity.

`issues` and `reached` are not in the source: the number of instructions that have been issued, and
the barrier instruction that each warp has executed last.
-/

namespace AesOnGpu.Barrier

variable {W : Nat} {R : Type} [DecidableEq R]

structure BarrierInst where
  bar_type : BarrierType
  bar_id : Nat
  bar_count : BitVec 32
  deriving DecidableEq

inductive Inst where
  | barrier (inst : BarrierInst)
  | atomic
  | other
  deriving DecidableEq

def Inst.hasCallback : Inst → Bool
  | .barrier inst => inst.bar_type = .RED
  | .atomic => true
  | .other => false

/-- `warp_inst_t`, an instruction as a warp has issued it. -/
structure WarpInst (W : Nat) where
  number : Nat
  m_warp_id : Fin W
  inst : Inst
  deriving DecidableEq

/-- Of `shader_core_ctx`, with `m_inst_at_barrier` of its warps and the registers `R`. -/
structure BarrierCore (W : Nat) (R : Type) where
  m_barriers : BarrierSet W
  m_inst_at_barrier : Fin W → Option R
  registers : R → Option (WarpInst W)
  m_empty : R → Bool
  issues : Nat
  reached : Fin W → Option (WarpInst W)

inductive CoreCall (W : Nat) (R : Type) where
  | allocate_barrier (cta_id : Nat) (warps : WarpSet W)
  | deallocate_barrier (cta_id : Nat)
  | reset (warp_id : Fin W)
  | issue_warp (cta_id : Nat) (warp_id : Fin W) (pipe_reg : R) (inst : Inst)
  | clear (pipe_reg : R)
  | warp_exit (warp_id : Fin W)

namespace BarrierCore

/-- `warp_inst_t::issue`, once the instruction is copied. -/
def issue (core : BarrierCore W R) (warp_id : Fin W) (pipe_reg : R) (inst : Inst) :
    BarrierCore W R :=
  { core with
    registers := Function.update core.registers pipe_reg (some ⟨core.issues, warp_id, inst⟩)
    m_empty := Function.update core.m_empty pipe_reg false
    issues := core.issues + 1 }

def store_info_of_last_inst_at_barrier (core : BarrierCore W R) (warp_id : Fin W) (pipe_reg : R) :
    BarrierCore W R :=
  { core with
    m_inst_at_barrier := Function.update core.m_inst_at_barrier warp_id (some pipe_reg)
    reached := Function.update core.reached warp_id (core.registers pipe_reg) }

/-- The instructions whose callbacks are called; `none` is a null pointer. -/
def broadcast_barrier_reduction (core : BarrierCore W R) (warps : WarpSet W) :
    Option (List (WarpInst W)) :=
  if ∀ i ∈ warps, core.m_inst_at_barrier i ≠ none then
    some (((List.finRange W).filter (· ∈ warps)).filterMap fun i =>
      ((core.m_inst_at_barrier i).bind core.registers).filter (·.inst.hasCallback))
  else none

def warp_reaches_barrier (core : BarrierCore W R) (cta_id : Nat) (warp_id : Fin W) (pipe_reg : R)
    (inst : BarrierInst) : Option (BarrierCore W R × List (WarpInst W)) := do
  let core := core.store_info_of_last_inst_at_barrier warp_id pipe_reg
  let (m_barriers, broadcast) ←
    core.m_barriers.warp_reaches_barrier cta_id warp_id inst.bar_type inst.bar_id inst.bar_count
  let delivered ←
    broadcast.elim (some []) fun reduction => core.broadcast_barrier_reduction reduction.2.2
  return ({ core with m_barriers }, delivered)

def call (core : BarrierCore W R) : CoreCall W R → Option (BarrierCore W R × List (WarpInst W))
  | .allocate_barrier cta_id warps => do
    let m_barriers ← core.m_barriers.allocate_barrier cta_id warps
    return ({ core with m_barriers }, [])
  | .deallocate_barrier cta_id => do
    let m_barriers ← core.m_barriers.deallocate_barrier cta_id
    return ({ core with m_barriers }, [])
  | .reset warp_id =>
    some ({ core with
      m_inst_at_barrier := Function.update core.m_inst_at_barrier warp_id none }, [])
  | .issue_warp cta_id warp_id pipe_reg inst =>
    -- `get_free` has found the register, or its assertion has failed.
    if core.m_empty pipe_reg then
      match inst with
      | .barrier bar =>
        (core.issue warp_id pipe_reg inst).warp_reaches_barrier cta_id warp_id pipe_reg bar
      | _ => some (core.issue warp_id pipe_reg inst, [])
    else none
  | .clear pipe_reg => some ({ core with m_empty := Function.update core.m_empty pipe_reg true }, [])
  | .warp_exit warp_id => do
    let m_barriers ← core.m_barriers.warp_exit warp_id
    return ({ core with m_barriers }, [])

/-! ## What a reduction is for -/

def Awaits (core : BarrierCore W R) (w : Fin W) (bar_id : Nat) (issued : WarpInst W) : Prop :=
  core.reached w = some issued ∧ (∃ count, issued.inst = .barrier ⟨.RED, bar_id, count⟩) ∧
    w ∈ core.m_barriers.m_bar_id_to_warps bar_id

def Intact (core : BarrierCore W R) (w : Fin W) (issued : WarpInst W) : Prop :=
  ∃ reg, core.m_inst_at_barrier w = some reg ∧ core.registers reg = some issued

def arrived (core : BarrierCore W R) : CoreCall W R → BarrierCore W R
  | .issue_warp _ warp_id pipe_reg (.barrier inst) =>
    let core := (core.issue warp_id pipe_reg (.barrier inst)).store_info_of_last_inst_at_barrier
      warp_id pipe_reg
    { core with m_barriers := core.m_barriers.reach inst.bar_type inst.bar_id warp_id }
  | _ => core

/-- A call delivers the result to every warp that it releases from a reduction.  Blocks come when
their warps are not there yet, and go when they are there no longer. -/
def Delivers (core : BarrierCore W R) (op : CoreCall W R) (next : BarrierCore W R)
    (delivered : List (WarpInst W)) : Prop :=
  match op with
  | .allocate_barrier _ _ | .deallocate_barrier _ => True
  | _ => ∀ w bar_id issued, (core.arrived op).Awaits w bar_id issued →
    w ∉ next.m_barriers.m_bar_id_to_warps bar_id → issued ∈ delivered

def Delivering (core : BarrierCore W R) : List (CoreCall W R) → Prop
  | [] => True
  | op :: ops => ∀ next delivered, core.call op = some (next, delivered) →
    core.Delivers op next delivered ∧ next.Delivering ops

/-- A barrier at which a warp awaits a reduction is not completed by an exit, nor by an arrival
for something else; and when it is completed the instruction of the warp is still in its
register. -/
def Harmless (core : BarrierCore W R) (op : CoreCall W R) : Prop :=
  match op with
  | .issue_warp cta_id _ _ (.barrier inst) =>
    ∀ warps ∈ core.m_barriers.m_cta_to_warps cta_id,
      (core.arrived op).m_barriers.released warps inst.bar_id inst.bar_count = true →
        ∀ w ∈ warps, ∀ issued, (core.arrived op).Awaits w inst.bar_id issued →
          inst.bar_type = .RED ∧ (core.arrived op).Intact w issued
  | .warp_exit warp_id =>
    ∀ warps ∈ (core.m_barriers.deactivate warp_id).ctaOf warp_id,
      ∀ i < core.m_barriers.m_max_barriers_per_cta,
        warps ∩ core.m_barriers.m_bar_id_to_warps i =
            warps ∩ core.m_barriers.m_warp_active.erase warp_id →
          ∀ w ∈ warps, ∀ issued, ¬ core.Awaits w i issued
  | _ => True

def AlongHarmless (core : BarrierCore W R) : List (CoreCall W R) → Prop
  | [] => True
  | op :: ops => ∀ next delivered, core.call op = some (next, delivered) →
    core.Harmless op ∧ next.AlongHarmless ops

/-! ## Registers -/

/-- Each issue has its number, and the last barrier instruction of a warp is in no other register
than the one that the warp points to. -/
structure Located (core : BarrierCore W R) : Prop where
  numbered : ∀ reg issued, core.registers reg = some issued → issued.number < core.issues
  single : ∀ reg reg' issued, core.registers reg = some issued →
    core.registers reg' = some issued → reg = reg'
  earlier : ∀ w issued, core.reached w = some issued → issued.number < core.issues
  pointed : ∀ w issued, core.reached w = some issued → ∀ reg reg',
    core.m_inst_at_barrier w = some reg → core.registers reg' = some issued → reg' = reg

section

variable {core next : BarrierCore W R} {delivered : List (WarpInst W)} {warps : WarpSet W}

theorem Located.issue (located : core.Located) (warp_id : Fin W) (pipe_reg : R) (inst : Inst) :
    (core.issue warp_id pipe_reg inst).Located := by
  -- What was issued before has a smaller number, so it is in no register that changes.
  have kept (reg : R) (issued : WarpInst W) (old : issued.number < core.issues)
      (held : (core.issue warp_id pipe_reg inst).registers reg = some issued) :
      core.registers reg = some issued := by
    by_cases same : reg = pipe_reg
    · subst same
      simp only [BarrierCore.issue, Function.update_self, Option.some.injEq] at held
      exact absurd old (held ▸ Nat.lt_irrefl _)
    · simpa [BarrierCore.issue, same] using held
  have new (reg : R) (issued : WarpInst W)
      (held : (core.issue warp_id pipe_reg inst).registers reg = some issued) :
      issued.number < core.issues ∨ issued.number = core.issues ∧ reg = pipe_reg := by
    by_cases same : reg = pipe_reg
    · subst same
      simp only [BarrierCore.issue, Function.update_self, Option.some.injEq] at held
      exact Or.inr ⟨held ▸ rfl, rfl⟩
    · exact Or.inl (located.numbered reg issued (by simpa [BarrierCore.issue, same] using held))
  refine ⟨fun reg issued held => ?_, fun reg reg' issued held held' => ?_,
    fun w issued last => Nat.lt_succ_of_lt (located.earlier w issued last),
    fun w issued last reg reg' points held => ?_⟩
  · rcases new reg issued held with old | ⟨number, -⟩
    · exact Nat.lt_succ_of_lt old
    · exact number ▸ Nat.lt_succ_self _
  · rcases new reg issued held with old | ⟨number, here⟩
    · exact located.single reg reg' issued (kept reg issued old held) (kept reg' issued old held')
    · rcases new reg' issued held' with old | ⟨-, here'⟩
      · exact absurd old (number ▸ Nat.lt_irrefl _)
      · exact here.trans here'.symm
  · exact located.pointed w issued last reg reg' points
      (kept reg' issued (located.earlier w issued last) held)

omit [DecidableEq R] in
theorem Located.store_info_of_last_inst_at_barrier (located : core.Located) (warp_id : Fin W)
    (pipe_reg : R) : (core.store_info_of_last_inst_at_barrier warp_id pipe_reg).Located := by
  refine ⟨located.numbered, located.single, fun w issued last => ?_,
    fun w issued last reg reg' points held => ?_⟩
  · by_cases same : w = warp_id
    · subst same
      exact located.numbered pipe_reg issued
        (by simpa [BarrierCore.store_info_of_last_inst_at_barrier] using last)
    · exact located.earlier w issued
        (by simpa [BarrierCore.store_info_of_last_inst_at_barrier, same] using last)
  · by_cases same : w = warp_id
    · subst same
      simp only [BarrierCore.store_info_of_last_inst_at_barrier, Function.update_self,
        Option.some.injEq] at last points
      exact located.single reg' reg issued held (points ▸ last)
    · exact located.pointed w issued
        (by simpa [BarrierCore.store_info_of_last_inst_at_barrier, same] using last) reg reg'
        (by simpa [BarrierCore.store_info_of_last_inst_at_barrier, same] using points) held

theorem Located.arrived (located : core.Located) (op : CoreCall W R) :
    (core.arrived op).Located := by
  unfold BarrierCore.arrived
  split
  · rename_i warp_id pipe_reg inst
    have stored := (located.issue warp_id pipe_reg
      (.barrier inst)).store_info_of_last_inst_at_barrier warp_id pipe_reg
    exact ⟨stored.numbered, stored.single, stored.earlier, stored.pointed⟩
  · exact located

/-! ## Arrivals -/

omit [DecidableEq R] in
theorem mem_broadcast {issued : WarpInst W}
    (broadcast : core.broadcast_barrier_reduction warps = some delivered) :
    issued ∈ delivered ↔ issued.inst.hasCallback = true ∧ ∃ i ∈ warps, core.Intact i issued := by
  unfold broadcast_barrier_reduction at broadcast
  split at broadcast
  · cases broadcast
    simp only [List.mem_filterMap, List.mem_filter, List.mem_finRange, true_and, decide_eq_true_eq,
      Option.filter_eq_some_iff, Option.bind_eq_some_iff, Intact]
    constructor
    · rintro ⟨i, inside, held, called⟩
      exact ⟨called, i, inside, held⟩
    · rintro ⟨called, i, inside, held⟩
      exact ⟨i, inside, held, called⟩
  · cases broadcast

theorem call_issue {cta_id : Nat} {warp_id : Fin W} {pipe_reg : R} {inst : BarrierInst}
    (called : core.call (.issue_warp cta_id warp_id pipe_reg (.barrier inst)) =
      some (next, delivered)) :
    ∃ warps ∈ core.m_barriers.m_cta_to_warps cta_id,
      let before := core.arrived (.issue_warp cta_id warp_id pipe_reg (.barrier inst))
      let at_barrier := warps ∩ before.m_barriers.m_bar_id_to_warps inst.bar_id
      next = { before with m_barriers := next.m_barriers } ∧
        if before.m_barriers.released warps inst.bar_id inst.bar_count = true then
          next.m_barriers = before.m_barriers.release inst.bar_id at_barrier ∧
            if inst.bar_type = .RED then
              before.broadcast_barrier_reduction at_barrier = some delivered
            else delivered = []
        else next.m_barriers = before.m_barriers := by
  rw [call] at called
  split at called
  · obtain ⟨⟨m_barriers, broadcast⟩, reached, called⟩ := Option.bind_eq_some_iff.mp called
    obtain ⟨results, answered, called⟩ := Option.bind_eq_some_iff.mp called
    obtain ⟨rfl, rfl⟩ := Prod.mk.inj (Option.some.inj called)
    change core.m_barriers.warp_reaches_barrier cta_id warp_id inst.bar_type inst.bar_id
      inst.bar_count = some (m_barriers, broadcast) at reached
    rw [BarrierSet.warp_reaches_barrier] at reached
    cases found : core.m_barriers.m_cta_to_warps cta_id with
    | none => simp [found] at reached
    | some warps =>
      refine ⟨warps, rfl, rfl, ?_⟩
      simp only [found] at reached
      split at reached
      · by_cases released : (core.m_barriers.reach inst.bar_type inst.bar_id warp_id).released warps
            inst.bar_id inst.bar_count = true
        · rw [if_pos released] at reached
          obtain ⟨rfl, rfl⟩ := Prod.mk.inj (Option.some.inj reached)
          refine if_pos released ▸ ⟨rfl, ?_⟩
          -- the test of `bar_type` is the one of the last arrival
          by_cases isRed : inst.bar_type = .RED
          · rw [if_pos isRed] at answered ⊢
            exact answered
          · rw [if_neg isRed] at answered ⊢
            exact (Option.some.inj answered).symm
        -- the barrier is not complete, and all wait on
        · rw [if_neg released] at reached
          obtain ⟨rfl, rfl⟩ := Prod.mk.inj (Option.some.inj reached)
          exact if_neg released ▸ rfl
      · cases reached
  · cases called

theorem call_other {cta_id : Nat} {warp_id : Fin W} {pipe_reg : R} {inst : Inst}
    (noBarrier : ∀ bar, inst ≠ .barrier bar)
    (called : core.call (.issue_warp cta_id warp_id pipe_reg inst) = some (next, delivered)) :
    next = core.issue warp_id pipe_reg inst := by
  simp only [call] at called
  split at called
  · cases inst with
    | barrier bar => exact absurd rfl (noBarrier bar)
    | atomic | other => exact (Prod.mk.inj (Option.some.inj called)).1.symm
  · cases called

theorem release_bars (s : BarrierSet W) (bar_id : Nat) :
    (s.release bar_id warps).m_bar_id_to_warps =
      Function.update s.m_bar_id_to_warps bar_id (s.m_bar_id_to_warps bar_id \ warps) := rfl

theorem mem_release {s : BarrierSet W} {bar_id i : Nat} {w : Fin W} :
    w ∈ (s.release bar_id warps).m_bar_id_to_warps i ↔
      w ∈ s.m_bar_id_to_warps i ∧ ¬(i = bar_id ∧ w ∈ warps) := by
  by_cases same : i = bar_id
  · subst same
    simp [BarrierSet.release]
  · simp [BarrierSet.release, same]

omit [DecidableEq R] in
theorem Awaits.hasCallback {w : Fin W} {bar_id : Nat} {issued : WarpInst W}
    (awaits : core.Awaits w bar_id issued) : issued.inst.hasCallback = true := by
  obtain ⟨-, ⟨count, isRed⟩, -⟩ := awaits
  rw [isRed]
  rfl

theorem issue_delivers_iff (located : core.Located) {cta_id : Nat} {warp_id : Fin W} {pipe_reg : R}
    {inst : BarrierInst}
    (called : core.call (.issue_warp cta_id warp_id pipe_reg (.barrier inst)) =
      some (next, delivered)) :
    core.Delivers (.issue_warp cta_id warp_id pipe_reg (.barrier inst)) next delivered ↔
      core.Harmless (.issue_warp cta_id warp_id pipe_reg (.barrier inst)) := by
  obtain ⟨warps, found, -, outcome⟩ := call_issue called
  have before := located.arrived (.issue_warp cta_id warp_id pipe_reg (.barrier inst))
  split at outcome
  · rename_i released
    obtain ⟨after, results⟩ := outcome
    constructor
    · intro delivers warps' found' _ w inside issued awaits
      obtain rfl := Option.some.inj (Option.mem_def.mp found ▸ found')
      -- all that are counted there leave
      have left : w ∉ next.m_barriers.m_bar_id_to_warps inst.bar_id := by
        rw [after, mem_release, not_and_not_right]
        exact fun counted => ⟨rfl, Finset.mem_inter.mpr ⟨inside, counted⟩⟩
      have result := delivers w inst.bar_id issued awaits left
      by_cases isRed : inst.bar_type = .RED
      · rw [if_pos isRed] at results
        obtain ⟨-, i, -, reg', points', held'⟩ := (mem_broadcast results).mp result
        refine ⟨isRed, ?_⟩
        have counted := Finset.mem_inter.mpr ⟨inside, awaits.2.2⟩
        unfold broadcast_barrier_reduction at results
        split at results
        · rename_i pointing
          obtain ⟨reg, points⟩ := Option.ne_none_iff_exists'.mp (pointing w counted)
          -- the instruction is in one register only, the one that the warp points to
          exact ⟨reg, points, before.pointed w issued awaits.1 reg reg' points held' ▸ held'⟩
        · cases results
      · rw [if_neg isRed] at results
        rw [results] at result
        cases result
    · intro harmless w bar_id issued awaits left
      rw [after, mem_release, not_and_not_right] at left
      obtain ⟨rfl, inside⟩ := left awaits.2.2
      obtain ⟨isRed, intact⟩ :=
        harmless warps found released w (Finset.mem_inter.mp inside).1 issued awaits
      rw [if_pos isRed] at results
      exact (mem_broadcast results).mpr ⟨awaits.hasCallback, w, inside, intact⟩
  · rename_i unreleased
    refine iff_of_true (fun w bar_id issued awaits left => ?_) fun warps' found' released => ?_
    · exact absurd (outcome ▸ awaits.2.2) left
    · obtain rfl := Option.some.inj (Option.mem_def.mp found ▸ found')
      exact absurd released unreleased

/-! ## Exits -/

theorem exit_bars (s : BarrierSet W) (warps active : WarpSet W) (n i : Nat) :
    ((List.range n).foldl (BarrierSet.exitTurn warps active) s).m_bar_id_to_warps i =
      if i < n ∧ warps ∩ s.m_bar_id_to_warps i = active then s.m_bar_id_to_warps i \ warps
      else s.m_bar_id_to_warps i := by
  induction n generalizing i with
  | zero => simp
  | succ n ih =>
    have unchanged := ih n
    rw [if_neg fun both => Nat.lt_irrefl n both.1] at unchanged
    rw [List.range_succ, List.foldl_append, List.foldl_cons, List.foldl_nil, BarrierSet.exitTurn]
    by_cases here : i = n
    · subst here
      by_cases complete : warps ∩ s.m_bar_id_to_warps i = active
      · rw [if_pos (unchanged ▸ complete), if_pos ⟨Nat.lt_succ_self i, complete⟩, release_bars,
          Function.update_self, unchanged, Finset.inter_comm, Finset.sdiff_inter_self_left]
      · rw [if_neg (unchanged ▸ complete), if_neg fun both => complete both.2, unchanged]
    · have before : i < n + 1 ↔ i < n := by omega
      simp only [before]
      rw [← ih i]
      split
      · rw [release_bars, Function.update_of_ne here]
      · rfl

theorem call_exit_bars {warp_id : Fin W}
    (called : core.call (.warp_exit warp_id) = some (next, delivered)) :
    delivered = [] ∧ next = { core with m_barriers := next.m_barriers } ∧
      ∃ warps ∈ (core.m_barriers.deactivate warp_id).ctaOf warp_id, ∀ i,
        next.m_barriers.m_bar_id_to_warps i =
          if i < core.m_barriers.m_max_barriers_per_cta ∧
              warps ∩ core.m_barriers.m_bar_id_to_warps i =
                warps ∩ core.m_barriers.m_warp_active.erase warp_id then
            core.m_barriers.m_bar_id_to_warps i \ warps
          else core.m_barriers.m_bar_id_to_warps i := by
  obtain ⟨m_barriers, exited, called⟩ := Option.bind_eq_some_iff.mp called
  obtain ⟨rfl, rfl⟩ := Prod.mk.inj (Option.some.inj called)
  refine ⟨rfl, rfl, ?_⟩
  rw [BarrierSet.warp_exit] at exited
  cases found : (core.m_barriers.deactivate warp_id).ctaOf warp_id with
  | none => simp [found] at exited
  | some warps =>
    simp only [found, Option.some.injEq] at exited
    subst exited
    exact ⟨warps, rfl, fun i => exit_bars (core.m_barriers.deactivate warp_id) warps _ _ i⟩

theorem exit_delivers_iff {warp_id : Fin W}
    (called : core.call (.warp_exit warp_id) = some (next, delivered)) :
    core.Delivers (.warp_exit warp_id) next delivered ↔ core.Harmless (.warp_exit warp_id) := by
  obtain ⟨rfl, -, warps, found, bars⟩ := call_exit_bars called
  constructor
  · intro delivers warps' found' i below complete w inside issued awaits
    obtain rfl := Option.some.inj (Option.mem_def.mp found ▸ found')
    have left : w ∉ next.m_barriers.m_bar_id_to_warps i := by
      rw [bars, if_pos ⟨below, complete⟩, Finset.mem_sdiff]
      exact fun both => both.2 inside
    -- an exit calls no callback
    cases delivers w i issued awaits left
  · intro harmless w bar_id issued awaits left
    rw [bars] at left
    split at left
    · rename_i complete
      rw [Finset.mem_sdiff, not_and_not_right] at left
      exact absurd awaits
        (harmless warps found _ complete.1 complete.2 w (left awaits.2.2) issued)
    · exact absurd awaits.2.2 left

/-! ## Runs -/

theorem delivers_iff (located : core.Located) {op : CoreCall W R}
    (called : core.call op = some (next, delivered)) :
    core.Delivers op next delivered ↔ core.Harmless op := by
  cases op with
  | allocate_barrier cta_id warps | deallocate_barrier cta_id => exact Iff.rfl
  | reset warp_id | clear pipe_reg =>
    obtain ⟨rfl, rfl⟩ := Prod.mk.inj (Option.some.inj called)
    exact iff_of_true (fun w bar_id issued awaits left => absurd awaits.2.2 left) trivial
  | issue_warp cta_id warp_id pipe_reg inst =>
    cases inst with
    | barrier inst => exact issue_delivers_iff located called
    | atomic | other =>
      obtain rfl := call_other (by simp) called
      exact iff_of_true (fun w bar_id issued awaits left => absurd awaits.2.2 left) trivial
  | warp_exit warp_id => exact exit_delivers_iff called

theorem Located.call (located : core.Located) {op : CoreCall W R}
    (called : core.call op = some (next, delivered)) : next.Located := by
  cases op with
  | allocate_barrier cta_id warps | deallocate_barrier cta_id =>
    obtain ⟨m_barriers, -, called⟩ := Option.bind_eq_some_iff.mp called
    obtain ⟨rfl, -⟩ := Prod.mk.inj (Option.some.inj called)
    exact ⟨located.numbered, located.single, located.earlier, located.pointed⟩
  | reset warp_id =>
    obtain ⟨rfl, -⟩ := Prod.mk.inj (Option.some.inj called)
    refine ⟨located.numbered, located.single, located.earlier,
      fun w issued last reg reg' points held => ?_⟩
    by_cases same : w = warp_id
    · subst same
      simp at points
    · exact located.pointed w issued last reg reg' (by simpa [same] using points) held
  | clear pipe_reg =>
    obtain ⟨rfl, -⟩ := Prod.mk.inj (Option.some.inj called)
    exact ⟨located.numbered, located.single, located.earlier, located.pointed⟩
  | issue_warp cta_id warp_id pipe_reg inst =>
    cases inst with
    | barrier inst =>
      obtain ⟨-, -, after, -⟩ := call_issue called
      have before := located.arrived (.issue_warp cta_id warp_id pipe_reg (.barrier inst))
      rw [after]
      exact ⟨before.numbered, before.single, before.earlier, before.pointed⟩
    | atomic | other =>
      obtain rfl := call_other (by simp) called
      exact located.issue warp_id pipe_reg _
  | warp_exit warp_id =>
    obtain ⟨-, after, -⟩ := call_exit_bars called
    rw [after]
    exact ⟨located.numbered, located.single, located.earlier, located.pointed⟩

end

def initial (W : Nat) (R : Type) (max_cta_per_core max_barriers_per_cta warp_size : Nat) :
    BarrierCore W R where
  m_barriers := .new W max_cta_per_core max_barriers_per_cta warp_size
  m_inst_at_barrier _ := none
  registers _ := none
  m_empty _ := true
  issues := 0
  reached _ := none

theorem delivering_iff_harmless (ops : List (CoreCall W R)) (core : BarrierCore W R)
    (located : core.Located) : core.Delivering ops ↔ core.AlongHarmless ops := by
  induction ops generalizing core with
  | nil => exact Iff.rfl
  | cons op ops ih =>
    constructor
    · intro delivering next delivered called
      obtain ⟨here, rest⟩ := delivering next delivered called
      exact ⟨(delivers_iff located called).mp here,
        (ih next (located.call called)).mp rest⟩
    · intro harmless next delivered called
      obtain ⟨here, rest⟩ := harmless next delivered called
      exact ⟨(delivers_iff located called).mpr here,
        (ih next (located.call called)).mpr rest⟩

omit [DecidableEq R] in
theorem initial_located (max_cta_per_core max_barriers_per_cta warp_size : Nat) :
    (initial W R max_cta_per_core max_barriers_per_cta warp_size).Located where
  numbered _ _ held := by cases held
  single _ _ _ held := by cases held
  earlier _ _ last := by cases last
  pointed _ _ last := by cases last

/-- In a run every completed reduction is delivered exactly if no exit completes one, nor the
arrival of a warp that does not reduce, and each is complete before the register of a warp that
awaits it is issued into again. -/
theorem reductions_delivered_iff (max_cta_per_core max_barriers_per_cta warp_size : Nat)
    (ops : List (CoreCall W R)) :
    (initial W R max_cta_per_core max_barriers_per_cta warp_size).Delivering ops ↔
      (initial W R max_cta_per_core max_barriers_per_cta warp_size).AlongHarmless ops :=
  delivering_iff_harmless ops _ (initial_located ..)

/-- Warp 0 of two awaits a reduction when warp 1 exits. -/
def exitCompletes : List (CoreCall 2 Bool) :=
  [.allocate_barrier 0 {0, 1}, .issue_warp 0 0 false (.barrier ⟨.RED, 0, -1⟩), .warp_exit 1]

/-- Warp 0 of two awaits a reduction; the register of its instruction is free again, and warp 1
has its next instruction and its own reduction issued into it. -/
def registerTaken : List (CoreCall 2 Bool) :=
  [.allocate_barrier 0 {0, 1}, .issue_warp 0 0 false (.barrier ⟨.RED, 0, -1⟩), .clear false,
    .issue_warp 0 1 false .other, .issue_warp 0 1 true (.barrier ⟨.RED, 0, -1⟩)]

/-- Neither run delivers the result to warp 0. -/
theorem exit_delivers_nothing :
    ¬ (initial 2 Bool 8 16 32).Delivering exitCompletes ∧
      ¬ (initial 2 Bool 8 16 32).Delivering registerTaken := by
  constructor
  · intro run
    obtain ⟨_, run⟩ := run _ _ rfl
    obtain ⟨_, run⟩ := run _ _ rfl
    obtain ⟨delivers, _⟩ := run _ _ rfl
    have awaits := delivers 0 0 _ ⟨rfl, ⟨-1, rfl⟩, by decide⟩ (by decide +kernel)
    cases awaits
  · intro run
    obtain ⟨_, run⟩ := run _ _ rfl
    obtain ⟨_, run⟩ := run _ _ rfl
    obtain ⟨_, run⟩ := run _ _ rfl
    obtain ⟨_, run⟩ := run _ _ rfl
    obtain ⟨delivers, _⟩ := run _ _ rfl
    have awaits := delivers 0 0 ⟨0, 0, .barrier ⟨.RED, 0, -1⟩⟩ ⟨rfl, ⟨-1, rfl⟩, by decide +kernel⟩
      (by decide +kernel)
    revert awaits
    decide +kernel

end BarrierCore

end AesOnGpu.Barrier
