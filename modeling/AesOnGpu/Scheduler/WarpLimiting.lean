import AesOnGpu.Scheduler.Ordering

/-! # The warp-limiting scheduler

`swl_scheduler` of `gpgpu-sim/shader.cc`.  A warp is the index of its `shd_warp_t`; a supervised
warp is the address of one, so that the comparison with NULL has no case here.
-/

namespace AesOnGpu.Scheduler

open WeakOrder (Sorting StrictWeak)
open SchedulerPrioritizationType

/-- What the priority function reads of a `shd_warp_t`. -/
structure WarpState where
  done_exit : Bool
  waiting : Bool
  dynamic_warp_id : BitVec 32

def sort_warps_by_oldest_dynamic_id (warp : Nat → WarpState) (lhs rhs : Nat) : Bool :=
  if (warp lhs).done_exit || (warp lhs).waiting then false
  else if (warp rhs).done_exit || (warp rhs).waiting then true
  else (warp lhs).dynamic_warp_id < (warp rhs).dynamic_warp_id

theorem sort_warps_iff (warp : Nat → WarpState) (lhs rhs : Nat) :
    sort_warps_by_oldest_dynamic_id warp lhs rhs ↔
      ((warp lhs).done_exit || (warp lhs).waiting) = false ∧
        (((warp rhs).done_exit || (warp rhs).waiting) = true ∨
          (warp lhs).dynamic_warp_id.toNat < (warp rhs).dynamic_warp_id.toNat) := by
  rw [sort_warps_by_oldest_dynamic_id]
  cases (warp lhs).done_exit || (warp lhs).waiting with
  | true => simp
  | false => cases (warp rhs).done_exit || (warp rhs).waiting with
    | true => simp
    | false => simp [BitVec.lt_def]

theorem sort_warps_weak (warp : Nat → WarpState) :
    StrictWeak (sort_warps_by_oldest_dynamic_id warp) where
  asymm := by
    intro lhs rhs before
    rw [sort_warps_iff] at before
    apply Bool.eq_false_of_not_eq_true
    rw [sort_warps_iff]
    rintro ⟨active, either⟩
    rw [active] at before
    rw [before.1] at either
    simp only [Bool.false_eq_true, false_or] at before either
    omega
  split := by
    intro lhs rhs other before
    rw [sort_warps_iff] at before
    rw [sort_warps_iff, sort_warps_iff]
    obtain ⟨active, either⟩ := before
    cases (warp other).done_exit || (warp other).waiting with
    | true => exact Or.inl ⟨active, Or.inl rfl⟩
    | false =>
      simp only [active, Bool.false_eq_true, false_or, true_and] at either ⊢
      cases either with
      | inl idle => exact Or.inr (Or.inl idle)
      | inr older =>
        by_cases first : (warp lhs).dynamic_warp_id.toNat < (warp other).dynamic_warp_id.toNat
        · exact Or.inl first
        · exact Or.inr (Or.inr (by omega))

structure SwlScheduler where
  m_supervised_warps : List Nat
  /-- The index of an iterator. -/
  m_last_supervised_issued : Nat
  m_prioritization : SchedulerPrioritizationType
  m_num_warps_to_limit : Nat
  distinct : m_supervised_warps.Nodup
  implemented : m_prioritization = SCHEDULER_PRIORITIZATION_GTO

namespace SwlScheduler

def order_warps (sorting : Sorting Nat) (warp : Nat → WarpState) (m : SwlScheduler) :
    Option (List Nat) :=
  if m.m_prioritization = SCHEDULER_PRIORITIZATION_GTO then
    order_by_priority sorting m.m_supervised_warps m.m_last_supervised_issued
      (min m.m_num_warps_to_limit m.m_supervised_warps.length) .ORDERING_GREEDY_THEN_PRIORITY_FUNC
      (sort_warps_by_oldest_dynamic_id warp)
  else none

/-- The list offered has no duplicates, and not more warps than configured. -/
def WithinLimit (sorting : Sorting Nat) (warp : Nat → WarpState) (m : SwlScheduler) : Prop :=
  ∃ offered, m.order_warps sorting warp = some offered ∧ offered.Nodup ∧
    offered.length ≤ m.m_num_warps_to_limit

def rivals (warp : Nat → WarpState) (m : SwlScheduler) (greedy_value : Nat) : List Nat :=
  m.m_supervised_warps.filter fun warp_id =>
    warp_id ≠ greedy_value ∧ sort_warps_by_oldest_dynamic_id warp greedy_value warp_id = false

variable {sorting : Sorting Nat} {warp : Nat → WarpState} {m : SwlScheduler} {greedy_value : Nat}

theorem order_warps_none (outside : m.m_supervised_warps[m.m_last_supervised_issued]? = none) :
    m.order_warps sorting warp = none := by
  rw [order_warps, if_pos m.implemented, order_by_priority, if_pos (min_le_right _ _)]
  simp [outside]

theorem order_warps_some
    (here : m.m_supervised_warps[m.m_last_supervised_issued]? = some greedy_value) :
    m.order_warps sorting warp = some (greedy_value ::
      ((sorting.sort (sort_warps_by_oldest_dynamic_id warp) m.m_supervised_warps).take
        (min m.m_num_warps_to_limit m.m_supervised_warps.length)).filter
          fun item => item ≠ greedy_value) := by
  rw [order_warps, if_pos m.implemented]
  exact order_greedy sorting (min_le_right _ _) here

theorem withinLimit_iff
    (here : m.m_supervised_warps[m.m_last_supervised_issued]? = some greedy_value) :
    m.WithinLimit sorting warp ↔
      greedy_value ∈ (sorting.sort (sort_warps_by_oldest_dynamic_id warp) m.m_supervised_warps).take
        m.m_num_warps_to_limit := by
  have perm := sorting.perm (sort_warps_by_oldest_dynamic_id warp) m.m_supervised_warps
  have inSorted := perm.mem_iff.mpr (List.mem_of_getElem? here)
  have nodup := @order_greedy_nodup _ _ sorting _
    (min m.m_num_warps_to_limit m.m_supervised_warps.length)
    (sort_warps_by_oldest_dynamic_id warp) greedy_value m.distinct
  have length := @order_greedy_length _ _ sorting _ _ (sort_warps_by_oldest_dynamic_id warp)
    greedy_value m.distinct (min_le_right m.m_num_warps_to_limit m.m_supervised_warps.length)
  have same : (sorting.sort (sort_warps_by_oldest_dynamic_id warp) m.m_supervised_warps).take
      (min m.m_num_warps_to_limit m.m_supervised_warps.length) =
        (sorting.sort (sort_warps_by_oldest_dynamic_id warp) m.m_supervised_warps).take
          m.m_num_warps_to_limit := by
    rw [← perm.length_eq, ← List.take_eq_take_min]
  rw [same] at nodup length
  rw [WithinLimit, order_warps_some here, same]
  simp only [Option.some.injEq, exists_eq_left']
  rw [length, and_iff_right nodup]
  split
  · rename_i first
    simp [first]
  · rename_i late
    simp only [late, iff_false, Nat.not_le]
    -- a limit above the number of warps leaves no warp out
    by_contra above
    have whole : m.m_supervised_warps.length ≤ m.m_num_warps_to_limit := by omega
    rw [List.take_of_length_le (perm.length_eq ▸ whole)] at late
    exact late inSorted

/-- With any sort, the limit holds exactly when fewer warps than the limit may come before the
    warp that issued last. -/
theorem within_limit_iff (warp : Nat → WarpState) (m : SwlScheduler) :
    (∀ sorting, m.WithinLimit sorting warp) ↔
      ∃ greedy_value, m.m_supervised_warps[m.m_last_supervised_issued]? = some greedy_value ∧
        (m.rivals warp greedy_value).length < m.m_num_warps_to_limit := by
  cases here : m.m_supervised_warps[m.m_last_supervised_issued]? with
  | none =>
    constructor
    · intro always
      obtain ⟨offered, eq, -⟩ := always (.late 0)
      rw [order_warps_none here] at eq
      cases eq
    · intro found
      obtain ⟨_, eq, -⟩ := found
      cases eq
  | some greedy_value =>
    simp only [withinLimit_iff here, Option.some.injEq, exists_eq_left']
    exact greedy_among_first_iff (sort_warps_weak warp) m.distinct (List.mem_of_getElem? here)

/-- The limit is one, and the second warp issued last: the older first warp comes as well. -/
theorem greedy_warp_exceeds_limit : ¬ ∀ (sorting : Sorting Nat) (warp : Nat → WarpState)
    (m : SwlScheduler), m.m_last_supervised_issued < m.m_supervised_warps.length →
      m.WithinLimit sorting warp := by
  intro always
  let m : SwlScheduler :=
    ⟨[0, 1], 1, SCHEDULER_PRIORITIZATION_GTO, 1, by decide, rfl⟩
  obtain ⟨offered, eq, -, few⟩ := always (.late 1) (fun i => ⟨false, false, i⟩) m (by decide)
  have two : m.order_warps (.late 1) (fun i => ⟨false, false, i⟩) = some [1, 0] := by decide
  obtain rfl := Option.some.inj (two.symm.trans eq)
  cases few with
  | step few => cases few

end SwlScheduler
end AesOnGpu.Scheduler
