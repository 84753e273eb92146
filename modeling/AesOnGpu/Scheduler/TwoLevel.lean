import AesOnGpu.Scheduler.Ordering

/-! # The two-level scheduler

`two_level_active_scheduler` of `gpgpu-sim/shader.cc` and `shader.h`, under `scheduler_unit::cycle`.
A warp is the index of its `shd_warp_t`.  What the rest of the core says in a cycle is a `Cycle`:
the state of the warps, the scoreboard, and how many instructions a warp would issue.
-/

namespace AesOnGpu.Scheduler

open SchedulerPrioritizationType

/-- Why a scheduler stops. -/
inductive Fault where
  /-- `front` or `pop_front` of an empty deque. -/
  | emptyPending
  /-- `abort` for a prioritization that is not implemented. -/
  | unimplemented
  /-- A failed assertion, or an iterator that is dereferenced at the end. -/
  | assertion
  deriving DecidableEq

structure Cycle where
  waiting : Nat → Bool
  done_exit : Nat → Bool
  /-- The registers `in` of the next instruction, if there is one. -/
  ibuffer_next_inst : Nat → Option (Fin 4 → Nat)
  islongop : Nat → Nat → Bool
  /-- The instructions that the warp issues when it is tested. -/
  issued : Nat → Nat

structure TwoLevelConfig where
  m_max_active_warps : Nat
  m_inner_level_prioritization : SchedulerPrioritizationType
  m_outer_level_prioritization : SchedulerPrioritizationType

structure TwoLevel where
  m_next_cycle_prioritized_warps : List Nat
  m_pending_warps : List Nat
  deriving DecidableEq

namespace TwoLevel

def add_supervised_warp_id (config : TwoLevelConfig) (m : TwoLevel) (i : Nat) : TwoLevel :=
  if m.m_next_cycle_prioritized_warps.length < config.m_max_active_warps then
    { m with m_next_cycle_prioritized_warps := m.m_next_cycle_prioritized_warps ++ [i] }
  else { m with m_pending_warps := m.m_pending_warps ++ [i] }

def new (config : TwoLevelConfig) (warps : List Nat) : TwoLevel :=
  warps.foldl (add_supervised_warp_id config) ⟨[], []⟩

def stalled (now : Cycle) (warp_id : Nat) : Bool :=
  (List.finRange 4).foldl (fun waiting i =>
    match now.ibuffer_next_inst warp_id with
    | some source =>
      if source i > 0 ∧ now.islongop warp_id (source i) then true else waiting
    | none => waiting) (now.waiting warp_id)

/-- The first loop of `order_warps`: what it leaves active, the pending warps after it and
    `num_demoted`. -/
def demote (now : Cycle) : List Nat → List Nat → List Nat × List Nat × Nat
  | [], pending => ([], pending, 0)
  | warp_id :: active, pending =>
    if stalled now warp_id then
      let (kept, pending, num_demoted) := demote now active (pending ++ [warp_id])
      (kept, pending, num_demoted + 1)
    else
      let (kept, pending, num_demoted) := demote now active pending
      (warp_id :: kept, pending, num_demoted)

/-- The `while` loop of `order_warps`. -/
def promote (m_max_active_warps : Nat) :
    List Nat → List Nat → Nat → Except Fault (List Nat × List Nat × Nat)
  | active, [], num_promoted =>
    if active.length < m_max_active_warps then .error .emptyPending
    else .ok (active, [], num_promoted)
  | active, front :: pending, num_promoted =>
    if active.length < m_max_active_warps then
      promote m_max_active_warps (active ++ [front]) pending (num_promoted + 1)
    else .ok (active, front :: pending, num_promoted)

def order_warps (config : TwoLevelConfig) (now : Cycle) (m : TwoLevel) : Except Fault TwoLevel :=
  let (active, pending, num_demoted) :=
    demote now m.m_next_cycle_prioritized_warps m.m_pending_warps
  if config.m_outer_level_prioritization = SCHEDULER_PRIORITIZATION_SRR then do
    let (active, pending, num_promoted) ← promote config.m_max_active_warps active pending 0
    if num_promoted = num_demoted then return ⟨active, pending⟩ else .error .assertion
  else .error .unimplemented

/-- The new order is assigned to the list that `cycle` goes through; it is as long, so that the
    iterator stays at its index. -/
def do_on_warp_issued (config : TwoLevelConfig) (prioritized_iter : Nat) (m : TwoLevel) :
    Except Fault TwoLevel :=
  if config.m_inner_level_prioritization = SCHEDULER_PRIORITIZATION_LRR then
    match order_lrr m.m_next_cycle_prioritized_warps prioritized_iter
        m.m_next_cycle_prioritized_warps.length with
    | some new_active => .ok { m with m_next_cycle_prioritized_warps := new_active }
    | none => .error .assertion
  else .error .unimplemented

def issue (config : TwoLevelConfig) (iter : Nat) : Nat → TwoLevel → Except Fault TwoLevel
  | 0, m => .ok m
  | issued + 1, m => do
    let m ← do_on_warp_issued config iter m
    issue config iter issued m

/-- The loop of `cycle`, at `iter` with the warps that are left. -/
def test (config : TwoLevelConfig) (now : Cycle) (m : TwoLevel) :
    Nat → List Nat → Except Fault TwoLevel
  | _, [] => .ok m
  | iter, warp_id :: rest =>
    if now.done_exit warp_id then test config now m (iter + 1) rest
    else if now.issued warp_id = 0 then test config now m (iter + 1) rest
    else issue config iter (now.issued warp_id) m

def cycle (config : TwoLevelConfig) (m : TwoLevel) (now : Cycle) : Except Fault TwoLevel := do
  let m ← order_warps config now m
  test config now m 0 m.m_next_cycle_prioritized_warps

def run (config : TwoLevelConfig) (warps : List Nat) (cycles : List Cycle) :
    Except Fault TwoLevel :=
  cycles.foldlM (cycle config) (new config warps)

/-! ## The invariant -/

structure Keeps (config : TwoLevelConfig) (warps : List Nat) (m : TwoLevel) : Prop where
  all : (m.m_next_cycle_prioritized_warps ++ m.m_pending_warps).Perm warps
  bounded : m.m_next_cycle_prioritized_warps.length ≤ config.m_max_active_warps

def Filled (config : TwoLevelConfig) (m : TwoLevel) : Prop :=
  m.m_next_cycle_prioritized_warps.length < config.m_max_active_warps → m.m_pending_warps = []

variable {config : TwoLevelConfig} {now : Cycle} {warps active pending : List Nat} {m m' : TwoLevel}

theorem keeps_add (keeps : Keeps config warps m) (filled : m.Filled config) (i : Nat) :
    Keeps config (warps ++ [i]) (m.add_supervised_warp_id config i) ∧
      (m.add_supervised_warp_id config i).Filled config := by
  rw [add_supervised_warp_id]
  split
  · rename_i room
    refine ⟨⟨?_, ?_⟩, fun _ => filled room⟩
    · have all := keeps.all
      rw [filled room, List.append_nil] at all
      simpa [filled room] using all.append_right [i]
    · simpa using room
  · rename_i full
    refine ⟨⟨?_, keeps.bounded⟩, fun room => absurd room full⟩
    rw [← List.append_assoc]
    exact keeps.all.append_right [i]

theorem keeps_new (config : TwoLevelConfig) (warps : List Nat) :
    Keeps config warps (new config warps) ∧ (new config warps).Filled config := by
  induction warps using List.reverseRecOn with
  | nil => exact ⟨⟨.refl _, Nat.zero_le _⟩, fun _ => rfl⟩
  | append_singleton warps i ih =>
    rw [new, List.foldl_append]
    exact keeps_add ih.1 ih.2 i

theorem demote_eq (now : Cycle) (active pending : List Nat) :
    demote now active pending =
      (active.filter fun warp_id => !stalled now warp_id,
        pending ++ active.filter (stalled now), active.countP (stalled now)) := by
  induction active generalizing pending with
  | nil => simp [demote]
  | cons warp_id active ih =>
    rw [demote]
    cases stall : stalled now warp_id with
    | true => simp [ih, stall]
    | false => simp [ih, stall]

theorem promote_eq (max : Nat) (active pending : List Nat) (num_promoted : Nat)
    (room : active.length ≤ max) :
    promote max active pending num_promoted =
      if max ≤ active.length + pending.length then
        .ok (active ++ pending.take (max - active.length), pending.drop (max - active.length),
          num_promoted + (max - active.length))
      else .error .emptyPending := by
  induction pending generalizing active num_promoted with
  | nil =>
    rw [promote]
    by_cases short : active.length < max
    · rw [if_pos short, if_neg (by simp; omega)]
    · have same : max - active.length = 0 := by omega
      rw [if_neg short, if_pos (by simp; omega), same]
      simp
  | cons front pending ih =>
    rw [promote]
    by_cases short : active.length < max
    · have more : max - active.length = max - (active.length + 1) + 1 := by omega
      rw [if_pos short, ih _ _ (by simp; omega)]
      simp only [List.length_append, List.length_cons, List.length_nil, zero_add, more,
        List.take_succ_cons, List.drop_succ_cons, List.append_assoc, List.singleton_append]
      congr 1
      · exact propext ⟨fun _ => by omega, fun _ => by omega⟩
      · congr 3
        omega
    · have same : max - active.length = 0 := by omega
      rw [if_neg short, if_pos (by simp; omega), same]
      simp

/-! ## Runs with enough warps -/

structure Full (config : TwoLevelConfig) (warps : List Nat) (m : TwoLevel) : Prop extends
    Keeps config warps m where
  full : m.m_next_cycle_prioritized_warps.length = config.m_max_active_warps

/-- What a part of a run may come to. -/
def Fine (config : TwoLevelConfig) (warps : List Nat) (result : Except Fault TwoLevel) : Prop :=
  result = .error .unimplemented ∨ ∃ m, result = .ok m ∧ Full config warps m

theorem Fine.bind {result : Except Fault TwoLevel} {next : TwoLevel → Except Fault TwoLevel}
    (fine : Fine config warps result) (after : ∀ m, Full config warps m → Fine config warps (next m)) :
    Fine config warps (result >>= next) := by
  cases fine with
  | inl stopped => exact Or.inl (by rw [stopped]; rfl)
  | inr went =>
    obtain ⟨m, eq, full⟩ := went
    rw [eq]
    exact after m full

theorem keeps_length (keeps : Keeps config warps m) :
    m.m_next_cycle_prioritized_warps.length + m.m_pending_warps.length = warps.length := by
  rw [← List.length_append, keeps.all.length_eq]

theorem full_new (enough : config.m_max_active_warps ≤ warps.length) :
    Full config warps (new config warps) := by
  obtain ⟨keeps, filled⟩ := keeps_new config warps
  have bounded := keeps.bounded
  have length := keeps_length keeps
  refine ⟨keeps, ?_⟩
  by_contra short
  rw [filled (by omega), List.length_nil] at length
  omega

theorem demoted_length (now : Cycle) (active : List Nat) :
    (active.filter fun warp_id => !stalled now warp_id).length + active.countP (stalled now) =
      active.length := by
  rw [List.countP_eq_length_filter, ← List.length_append]
  exact (List.perm_append_comm.trans (List.filter_append_perm (stalled now) active)).length_eq

theorem demoted_perm (keeps : Keeps config warps m) (now : Cycle) :
    (m.m_next_cycle_prioritized_warps.filter (fun warp_id => !stalled now warp_id) ++
      (m.m_pending_warps ++ m.m_next_cycle_prioritized_warps.filter (stalled now))).Perm warps := by
  have halves := List.filter_append_perm (stalled now) m.m_next_cycle_prioritized_warps
  refine .trans ?_ keeps.all
  rw [← List.append_assoc]
  refine List.perm_append_comm.trans ?_
  rw [← List.append_assoc]
  exact halves.append_right _

theorem order_warps_full (full : Full config warps m) :
    Fine config warps (order_warps config now m) := by
  have total := keeps_length full.toKeeps
  have parts := demoted_length now m.m_next_cycle_prioritized_warps
  have all := demoted_perm full.toKeeps now
  have length := full.full
  rw [order_warps, demote_eq]
  dsimp only
  split
  · generalize (m.m_next_cycle_prioritized_warps.filter fun warp_id => !stalled now warp_id) = kept
      at parts all
    generalize m.m_pending_warps ++ m.m_next_cycle_prioritized_warps.filter (stalled now) = pending
      at all
    have together := all.length_eq
    rw [List.length_append] at together
    rw [promote_eq _ _ _ _ (by omega), if_pos (by omega)]
    -- as many are promoted as have been demoted
    have same : 0 + (config.m_max_active_warps - kept.length) =
        m.m_next_cycle_prioritized_warps.countP (stalled now) := by omega
    refine Or.inr ⟨_, if_pos same, ⟨?_, ?_⟩, ?_⟩
    · rw [List.append_assoc, List.take_append_drop]
      exact all
    · simp; omega
    · simp; omega
  · exact Or.inl rfl

theorem do_on_warp_issued_full (full : Full config warps m) {iter : Nat}
    (inside : iter ≤ m.m_next_cycle_prioritized_warps.length) :
    Fine config warps (do_on_warp_issued config iter m) := by
  rw [do_on_warp_issued]
  split
  · obtain ⟨shift, eq⟩ := order_lrr_eq m.m_next_cycle_prioritized_warps inside
    rw [eq]
    refine Or.inr ⟨_, rfl, ⟨?_, ?_⟩, ?_⟩
    · exact ((List.rotate_perm _ shift).append_right _).trans full.all
    · simpa using full.bounded
    · simpa using full.full
  · exact Or.inl rfl

theorem issue_full (full : Full config warps m) {iter : Nat}
    (inside : iter ≤ config.m_max_active_warps) (issued : Nat) :
    Fine config warps (issue config iter issued m) := by
  induction issued generalizing m with
  | zero => exact Or.inr ⟨m, rfl, full⟩
  | succ issued ih =>
    rw [issue]
    exact (do_on_warp_issued_full full (full.full ▸ inside)).bind fun m full => ih full

theorem test_full (full : Full config warps m) (now : Cycle) {iter : Nat} {rest : List Nat}
    (inside : iter + rest.length ≤ config.m_max_active_warps) :
    Fine config warps (test config now m iter rest) := by
  induction rest generalizing iter with
  | nil => exact Or.inr ⟨m, rfl, full⟩
  | cons warp_id rest ih =>
    rw [List.length_cons] at inside
    rw [test]
    split
    · exact ih (by omega)
    · split
      · exact ih (by omega)
      · exact issue_full full (by omega) _

theorem cycle_full (full : Full config warps m) (now : Cycle) :
    Fine config warps (cycle config m now) := by
  rw [cycle]
  refine (order_warps_full full).bind fun m full => test_full full now ?_
  rw [Nat.zero_add, full.full]

theorem run_full (full : Full config warps m) (cycles : List Cycle) :
    Fine config warps (cycles.foldlM (cycle config) m) := by
  induction cycles generalizing m with
  | nil => exact Or.inr ⟨m, rfl, full⟩
  | cons now cycles ih =>
    rw [List.foldlM_cons]
    exact (cycle_full full now).bind fun m full => ih full

/-! ## Runs with too few warps -/

theorem cycle_few (keeps : Keeps config warps m)
    (srr : config.m_outer_level_prioritization = SCHEDULER_PRIORITIZATION_SRR)
    (few : warps.length < config.m_max_active_warps) (now : Cycle) :
    cycle config m now = .error .emptyPending := by
  have all := (demoted_perm keeps now).length_eq
  rw [List.length_append] at all
  rw [cycle, order_warps, demote_eq]
  dsimp only
  rw [if_pos srr, promote_eq _ _ _ _ (by omega), if_neg (by omega)]
  rfl

theorem cycle_unimplemented
    (other : config.m_outer_level_prioritization ≠ SCHEDULER_PRIORITIZATION_SRR) (now : Cycle) :
    cycle config m now = .error .unimplemented := by
  rw [cycle, order_warps]
  dsimp only
  rw [if_neg other]
  rfl

def NeverDrops (config : TwoLevelConfig) (warps : List Nat) (cycles : List Cycle) : Prop :=
  match run config warps cycles with
  | .ok m => Keeps config warps m
  | .error fault => fault = .unimplemented

theorem neverDrops_of_fine {cycles : List Cycle} (fine : Fine config warps (run config warps cycles)) :
    NeverDrops config warps cycles := by
  rw [NeverDrops]
  cases fine with
  | inl stopped => rw [stopped]
  | inr went =>
    obtain ⟨m, eq, full⟩ := went
    rw [eq]
    exact full.toKeeps

/-- The scheduler keeps its warps in every run exactly when it has at least as many as may be
    active. -/
theorem never_drops_iff (config : TwoLevelConfig) (warps : List Nat) :
    (∀ cycles, NeverDrops config warps cycles) ↔
      config.m_outer_level_prioritization ≠ SCHEDULER_PRIORITIZATION_SRR ∨
        config.m_max_active_warps ≤ warps.length := by
  have keeps := (keeps_new config warps).1
  constructor
  · intro always
    by_contra neither
    obtain ⟨srr, few⟩ := not_or.mp neither
    let now : Cycle := ⟨fun _ => false, fun _ => false, fun _ => none, fun _ _ => false, fun _ => 0⟩
    have dropped := always [now]
    rw [NeverDrops, run, List.foldlM_cons, cycle_few keeps (not_not.mp srr) (Nat.not_le.mp few)]
      at dropped
    cases dropped
  · intro either cycles
    cases either with
    | inl other =>
      rw [NeverDrops, run]
      cases cycles with
      | nil => exact keeps
      | cons now cycles =>
        rw [List.foldlM_cons, cycle_unimplemented other now]
        rfl
    | inr enough => exact neverDrops_of_fine (run_full (full_new enough) cycles)

/-- Four warps where six may be active, and none is stalled: the first cycle takes two more. -/
theorem few_warps_take_from_empty : ¬ ∀ (config : TwoLevelConfig) (warps : List Nat)
    (cycles : List Cycle), NeverDrops config warps cycles := by
  intro always
  have dropped := always
    ⟨6, SCHEDULER_PRIORITIZATION_LRR, SCHEDULER_PRIORITIZATION_SRR⟩ [0, 1, 2, 3]
    [⟨fun _ => false, fun _ => false, fun _ => none, fun _ _ => false, fun _ => 0⟩]
  cases dropped

end TwoLevel
end AesOnGpu.Scheduler
