import AesOnGpu.Lib.FinLiterals

/-! # Barriers of thread blocks

`barrier_set_t` of `gpgpu-sim/shader.h` and `shader.cc`: which warps of a core are
running, and which have reached which barrier.  A barrier without a count is
complete when all warps of the block that have not exited have reached it.  This is
looked at when a warp reaches it, and for all barriers when a warp exits.

`none` is a failed assertion, an `abort`, or the use of an iterator at the end.
The maps are functions; a barrier that is not in its map has been reached by no
warp.  A block's number is below `m_max_cta_per_core`, so that the assertion about
the size of `m_cta_to_warps` cannot fail.
-/

namespace AesOnGpu.Barrier

/-- `warp_set_t`. -/
abbrev WarpSet (W : Nat) := Finset (Fin W)

/-- `barrier_type`. -/
inductive BarrierType where
  | SYNC
  | ARRIVE
  | RED
  deriving DecidableEq

structure BarrierSet (W : Nat) where
  m_max_cta_per_core : Nat
  m_max_barriers_per_cta : Nat
  m_warp_size : Nat
  m_cta_to_warps : Nat → Option (WarpSet W)
  m_bar_id_to_warps : Nat → WarpSet W
  m_warp_active : WarpSet W
  m_warp_at_barrier : WarpSet W

/-- An argument of `broadcast_barrier_reduction`. -/
abbrev Broadcast (W : Nat) := Nat × Nat × WarpSet W

variable {W : Nat}

namespace BarrierSet

def new (W max_cta_per_core max_barriers_per_cta warp_size : Nat) : BarrierSet W where
  m_max_cta_per_core := max_cta_per_core
  m_max_barriers_per_cta := max_barriers_per_cta
  m_warp_size := warp_size
  m_cta_to_warps _ := none
  m_bar_id_to_warps _ := ∅
  m_warp_active := ∅
  m_warp_at_barrier := ∅

def allocate_barrier (s : BarrierSet W) (cta_id : Nat) (warps : WarpSet W) :
    Option (BarrierSet W) :=
  if cta_id < s.m_max_cta_per_core ∧ s.m_cta_to_warps cta_id = none then
    some { s with
      m_cta_to_warps := Function.update s.m_cta_to_warps cta_id (some warps)
      m_warp_active := s.m_warp_active ∪ warps
      m_warp_at_barrier := s.m_warp_at_barrier \ warps
      m_bar_id_to_warps := fun i =>
        if i < s.m_max_barriers_per_cta then s.m_bar_id_to_warps i \ warps
        else s.m_bar_id_to_warps i }
  else none

def deallocate_barrier (s : BarrierSet W) (cta_id : Nat) : Option (BarrierSet W) :=
  match s.m_cta_to_warps cta_id with
  | none => some s
  | some warps =>
    if warps ∩ s.m_warp_at_barrier = ∅ ∧ warps ∩ s.m_warp_active = ∅ ∧
        ∀ i < s.m_max_barriers_per_cta, warps ∩ s.m_bar_id_to_warps i = ∅ then
      some { s with
        m_cta_to_warps := Function.update s.m_cta_to_warps cta_id none
        m_warp_active := s.m_warp_active \ warps
        m_warp_at_barrier := s.m_warp_at_barrier \ warps
        m_bar_id_to_warps := fun i =>
          if i < s.m_max_barriers_per_cta then s.m_bar_id_to_warps i \ warps
          else s.m_bar_id_to_warps i }
    else none

def reach (s : BarrierSet W) (bar_type : BarrierType) (bar_id : Nat) (warp_id : Fin W) :
    BarrierSet W :=
  { s with
    m_bar_id_to_warps := Function.update s.m_bar_id_to_warps bar_id
      (insert warp_id (s.m_bar_id_to_warps bar_id))
    m_warp_at_barrier :=
      if bar_type = .SYNC ∨ bar_type = .RED then insert warp_id s.m_warp_at_barrier
      else s.m_warp_at_barrier }

def release (s : BarrierSet W) (bar_id : Nat) (at_barrier : WarpSet W) : BarrierSet W :=
  { s with
    m_bar_id_to_warps := Function.update s.m_bar_id_to_warps bar_id
      (s.m_bar_id_to_warps bar_id \ at_barrier)
    m_warp_at_barrier := s.m_warp_at_barrier \ at_barrier }

/-- The test for release, without a count (`-1`) or with one. -/
def released (s : BarrierSet W) (warps_in_cta : WarpSet W) (bar_id : Nat) (bar_count : BitVec 32) :
    Bool :=
  let at_barrier := warps_in_cta ∩ s.m_bar_id_to_warps bar_id
  if bar_count = -1 then at_barrier = warps_in_cta ∩ s.m_warp_active
  else at_barrier.card * s.m_warp_size = bar_count.toNat

def warp_reaches_barrier (s : BarrierSet W) (cta_id : Nat) (warp_id : Fin W)
    (bar_type : BarrierType) (bar_id : Nat) (bar_count : BitVec 32) :
    Option (BarrierSet W × Option (Broadcast W)) :=
  match s.m_cta_to_warps cta_id with
  | none => none
  | some warps_in_cta =>
    if bar_id ≠ 2 ^ 32 - 1 ∧ warp_id ∈ warps_in_cta then
      let s := s.reach bar_type bar_id warp_id
      let at_barrier := warps_in_cta ∩ s.m_bar_id_to_warps bar_id
      if s.released warps_in_cta bar_id bar_count then
        some (s.release bar_id at_barrier,
          if bar_type = .RED then some (cta_id, bar_id, at_barrier) else none)
      else some (s, none)
    else none

/-- The first block that has a warp. -/
def ctaOf (s : BarrierSet W) (warp_id : Fin W) : Option (WarpSet W) :=
  (List.range s.m_max_cta_per_core).findSome? fun cta_id =>
    (s.m_cta_to_warps cta_id).filter fun warps => warp_id ∈ warps

def deactivate (s : BarrierSet W) (warp_id : Fin W) : BarrierSet W :=
  { s with m_warp_active := s.m_warp_active.erase warp_id }

def exitTurn (warps_in_cta active : WarpSet W) (s : BarrierSet W) (i : Nat) : BarrierSet W :=
  let at_a_specific_barrier := warps_in_cta ∩ s.m_bar_id_to_warps i
  if at_a_specific_barrier = active then s.release i at_a_specific_barrier else s

def warp_exit (s : BarrierSet W) (warp_id : Fin W) : Option (BarrierSet W) :=
  let s := s.deactivate warp_id
  match s.ctaOf warp_id with
  | none => none
  | some warps_in_cta =>
    some ((List.range s.m_max_barriers_per_cta).foldl
      (exitTurn warps_in_cta (warps_in_cta ∩ s.m_warp_active)) s)

end BarrierSet

/-! ## The calls -/

inductive BarrierCall (W : Nat) where
  | allocate_barrier (cta_id : Nat) (warps : WarpSet W)
  | deallocate_barrier (cta_id : Nat)
  | warp_reaches_barrier (cta_id : Nat) (warp_id : Fin W) (bar_type : BarrierType) (bar_id : Nat)
      (bar_count : BitVec 32)
  | warp_exit (warp_id : Fin W)

def BarrierSet.call (s : BarrierSet W) : BarrierCall W → Option (BarrierSet W)
  | .allocate_barrier cta_id warps => s.allocate_barrier cta_id warps
  | .deallocate_barrier cta_id => s.deallocate_barrier cta_id
  | .warp_reaches_barrier cta_id warp_id bar_type bar_id bar_count =>
    (s.warp_reaches_barrier cta_id warp_id bar_type bar_id bar_count).map Prod.fst
  | .warp_exit warp_id => s.warp_exit warp_id

end AesOnGpu.Barrier
