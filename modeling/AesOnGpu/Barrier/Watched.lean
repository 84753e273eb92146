import AesOnGpu.Barrier.BarrierSet

/-! # Watching the barriers

What the barriers are for: a warp that synchronizes at a barrier waits there until
all warps of its block that have not exited have reached it.  `waits` records this
beside the code, which keeps only the set of the warps that wait somewhere.
-/

namespace AesOnGpu.Barrier

variable {W : Nat}

def BarrierSet.Complete (s : BarrierSet W) (warps : WarpSet W) (bar_id : Nat) : Prop :=
  warps ∩ s.m_warp_active ⊆ s.m_bar_id_to_warps bar_id

instance (s : BarrierSet W) (warps : WarpSet W) (bar_id : Nat) :
    Decidable (s.Complete warps bar_id) :=
  inferInstanceAs (Decidable (warps ∩ s.m_warp_active ⊆ s.m_bar_id_to_warps bar_id))

structure Watched (W : Nat) where
  barriers : BarrierSet W
  waits : Fin W → Option Nat

def goOn (waits : Fin W → Option Nat) (s : BarrierSet W) (warps : WarpSet W) :
    Fin W → Option Nat :=
  fun w => (waits w).filter fun bar_id => ¬(w ∈ warps ∧ s.Complete warps bar_id)

namespace Watched

def watch (x : Watched W) : BarrierCall W → Fin W → Option Nat
  | .allocate_barrier _ warps => fun w => if w ∈ warps then none else x.waits w
  | .deallocate_barrier _ => x.waits
  | .warp_reaches_barrier cta_id warp_id bar_type bar_id _ =>
    match x.barriers.m_cta_to_warps cta_id with
    | none => x.waits
    | some warps =>
      goOn (if bar_type = .ARRIVE then x.waits else Function.update x.waits warp_id (some bar_id))
        (x.barriers.reach bar_type bar_id warp_id) warps
  | .warp_exit warp_id =>
    match x.barriers.ctaOf warp_id with
    | none => x.waits
    | some warps => goOn x.waits (x.barriers.deactivate warp_id) warps

def call (x : Watched W) (op : BarrierCall W) : Option (Watched W) :=
  (x.barriers.call op).map fun barriers => ⟨barriers, x.watch op⟩

/-- What the callers see to: a new block gets free warps, and only a warp that has
    not exited and does not wait issues an instruction.  Here it reaches barriers
    without a count, and not for a reduction. -/
def Driven (x : Watched W) : BarrierCall W → Prop
  | .allocate_barrier _ warps => ∀ cta_id < x.barriers.m_max_cta_per_core,
    ∀ others ∈ x.barriers.m_cta_to_warps cta_id, Disjoint others warps
  | .deallocate_barrier _ => True
  | .warp_reaches_barrier _ warp_id bar_type _ bar_count =>
    warp_id ∈ x.barriers.m_warp_active ∧ warp_id ∉ x.barriers.m_warp_at_barrier ∧
      bar_type ≠ .RED ∧ bar_count = -1
  | .warp_exit warp_id => warp_id ∉ x.barriers.m_warp_at_barrier

/-- The code's sets agree with who waits, and no complete barrier is left. -/
structure Sound (x : Watched W) : Prop where
  agrees : ∀ w, w ∈ x.barriers.m_warp_at_barrier ↔ ∃ bar_id, x.waits w = some bar_id
  counted : ∀ w bar_id, x.waits w = some bar_id → w ∈ x.barriers.m_bar_id_to_warps bar_id
  proper : ∀ cta_id warps bar_id, x.barriers.m_cta_to_warps cta_id = some warps →
    warps ∩ x.barriers.m_bar_id_to_warps bar_id = ∅ ∨
      warps ∩ x.barriers.m_bar_id_to_warps bar_id ⊂ warps ∩ x.barriers.m_warp_active

/-- A warp that waits is released only when every warp of its block that has not
    exited has reached the barrier, before the call or by it. -/
def ReleasesReached (x : Watched W) (op : BarrierCall W) (next : Watched W) : Prop :=
  ∀ w ∈ x.barriers.m_warp_at_barrier, w ∉ next.barriers.m_warp_at_barrier →
    ∀ bar_id, x.waits w = some bar_id →
    ∀ cta_id warps, next.barriers.m_cta_to_warps cta_id = some warps → w ∈ warps →
    ∀ v ∈ warps ∩ next.barriers.m_warp_active, v ∈ x.barriers.m_bar_id_to_warps bar_id ∨
      ∃ bar_type bar_count, op = .warp_reaches_barrier cta_id v bar_type bar_id bar_count

def Holds (x : Watched W) : List (BarrierCall W) → Prop
  | [] => x.Sound
  | op :: ops => x.Sound ∧ ∀ next, x.call op = some next → x.ReleasesReached op next ∧ next.Holds ops

/-- All calls of a run meet a condition, up to a failed one. -/
def Along (P : Watched W → BarrierCall W → Prop) (x : Watched W) : List (BarrierCall W) → Prop
  | [] => True
  | op :: ops => ∀ next, x.call op = some next → P x op ∧ Along P next ops

/-- A warp that exits is counted at no barrier, and a barrier that gets complete
    is one that the code looks at and counts no warp that waits at an incomplete
    barrier. -/
def Harmless (x : Watched W) : BarrierCall W → Prop
  | .allocate_barrier _ _ | .deallocate_barrier _ => True
  | .warp_reaches_barrier cta_id warp_id _ bar_id _ =>
    ∀ warps ∈ x.barriers.m_cta_to_warps cta_id,
      warps ∩ x.barriers.m_warp_active =
          warps ∩ insert warp_id (x.barriers.m_bar_id_to_warps bar_id) →
        ∀ w ∈ warps ∩ x.barriers.m_bar_id_to_warps bar_id, ∀ other ∈ x.waits w, other = bar_id
  | .warp_exit warp_id =>
    (∀ bar_id, warp_id ∉ x.barriers.m_bar_id_to_warps bar_id) ∧
      ∀ warps ∈ x.barriers.ctaOf warp_id, ∀ bar_id,
        warps ∩ x.barriers.m_bar_id_to_warps bar_id =
            warps ∩ x.barriers.m_warp_active.erase warp_id →
          (warps ∩ x.barriers.m_bar_id_to_warps bar_id ≠ ∅ →
            bar_id < x.barriers.m_max_barriers_per_cta) ∧
          ∀ w ∈ warps ∩ x.barriers.m_bar_id_to_warps bar_id, ∀ other ∈ x.waits w,
            warps ∩ x.barriers.m_bar_id_to_warps other =
              warps ∩ x.barriers.m_warp_active.erase warp_id

end Watched

end AesOnGpu.Barrier
