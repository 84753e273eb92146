import AesOnGpu.Barrier.Watched

/-! # Releasing complete barriers

After a warp has reached a barrier or exited, the code releases some barriers of
the block.  Whether the result is sound depends on which: `settle_sound_iff`.
-/

namespace AesOnGpu.Barrier

variable {W : Nat}

def BarrierSet.reached (s : BarrierSet W) (warps : WarpSet W) (bar_id : Nat) : WarpSet W :=
  warps ∩ s.m_bar_id_to_warps bar_id

def BarrierSet.running (s : BarrierSet W) (warps : WarpSet W) : WarpSet W :=
  warps ∩ s.m_warp_active

/-- Before the release: the sets agree, and the other blocks are fine. -/
structure Marked (s : BarrierSet W) (waits : Fin W → Option Nat) (cta_id : Nat)
    (warps : WarpSet W) : Prop where
  found : s.m_cta_to_warps cta_id = some warps
  agrees : ∀ w, w ∈ s.m_warp_at_barrier ↔ ∃ bar_id, waits w = some bar_id
  counted : ∀ w bar_id, waits w = some bar_id → w ∈ s.m_bar_id_to_warps bar_id
  others : ∀ other warps' bar_id, other ≠ cta_id → s.m_cta_to_warps other = some warps' →
    s.reached warps' bar_id = ∅ ∨ s.reached warps' bar_id ⊂ s.running warps'
  apart : ∀ other warps', other ≠ cta_id → s.m_cta_to_warps other = some warps' →
    Disjoint warps' warps

/-- The barriers in `R`, which are complete, have been released. -/
structure Settled (R : Nat → Prop) (s : BarrierSet W) (warps : WarpSet W)
    (next : BarrierSet W) : Prop where
  complete : ∀ bar_id, R bar_id → s.reached warps bar_id = s.running warps
  limit : next.m_max_cta_per_core = s.m_max_cta_per_core
  ctas : next.m_cta_to_warps = s.m_cta_to_warps
  active : next.m_warp_active = s.m_warp_active
  released : ∀ bar_id, R bar_id →
    next.m_bar_id_to_warps bar_id = s.m_bar_id_to_warps bar_id \ warps
  kept : ∀ bar_id, ¬R bar_id → next.m_bar_id_to_warps bar_id = s.m_bar_id_to_warps bar_id
  waiting : ∀ w, w ∈ next.m_warp_at_barrier ↔
    w ∈ s.m_warp_at_barrier ∧ ¬∃ bar_id, R bar_id ∧ w ∈ s.reached warps bar_id

section Settle

variable {s next : BarrierSet W} {waits : Fin W → Option Nat} {cta_id : Nat} {warps : WarpSet W}
  {R : Nat → Prop}

theorem mem_reached {w : Fin W} {bar_id : Nat} :
    w ∈ s.reached warps bar_id ↔ w ∈ warps ∧ w ∈ s.m_bar_id_to_warps bar_id := Finset.mem_inter

theorem goOn_eq_some_iff {w : Fin W} {bar_id : Nat} :
    goOn waits s warps w = some bar_id ↔
      waits w = some bar_id ∧ ¬(w ∈ warps ∧ s.Complete warps bar_id) := by
  rw [goOn, Option.filter_eq_some_iff, decide_eq_true_eq]

theorem complete_iff {bar_id : Nat} (only : s.reached warps bar_id ⊆ s.running warps) :
    s.Complete warps bar_id ↔ s.reached warps bar_id = s.running warps := by
  constructor
  · intro complete
    apply Finset.Subset.antisymm only
    intro w running
    exact mem_reached.mpr ⟨(Finset.mem_inter.mp running).1, complete running⟩
  · intro same w running
    have counted : w ∈ s.reached warps bar_id := same ▸ running
    exact (mem_reached.mp counted).2

theorem Settled.sound (settled : Settled R s warps next) (marked : Marked s waits cta_id warps)
    (only : ∀ bar_id, s.reached warps bar_id ⊆ s.running warps)
    (all : ∀ bar_id, s.reached warps bar_id = s.running warps → s.reached warps bar_id ≠ ∅ → R bar_id)
    (right : ∀ bar_id, R bar_id → ∀ w ∈ s.reached warps bar_id, ∀ other ∈ waits w,
      s.reached warps other = s.running warps) :
    Watched.Sound ⟨next, goOn waits s warps⟩ := by
  constructor
  · intro w
    show w ∈ next.m_warp_at_barrier ↔ ∃ bar_id, goOn waits s warps w = some bar_id
    simp only [goOn_eq_some_iff]
    rw [settled.waiting, marked.agrees]
    constructor
    · rintro ⟨⟨bar_id, waiting⟩, unreleased⟩
      refine ⟨bar_id, waiting, fun ⟨inside, complete⟩ => unreleased ?_⟩
      have here := mem_reached.mpr ⟨inside, marked.counted w bar_id waiting⟩
      exact ⟨bar_id, all bar_id ((complete_iff (only bar_id)).mp complete)
        (Finset.ne_empty_of_mem here), here⟩
    · rintro ⟨bar_id, waiting, incomplete⟩
      refine ⟨⟨bar_id, waiting⟩, fun ⟨other, isReleased, here⟩ => incomplete ?_⟩
      exact ⟨(mem_reached.mp here).1, (complete_iff (only bar_id)).mpr
        (right other isReleased w here bar_id waiting)⟩
  · intro w bar_id waiting
    obtain ⟨waiting, incomplete⟩ := goOn_eq_some_iff.mp waiting
    have here := marked.counted w bar_id waiting
    by_cases isReleased : R bar_id
    · show w ∈ next.m_bar_id_to_warps bar_id
      rw [settled.released bar_id isReleased, Finset.mem_sdiff]
      exact ⟨here, fun inside => incomplete
        ⟨inside, (complete_iff (only bar_id)).mpr (settled.complete bar_id isReleased)⟩⟩
    · show w ∈ next.m_bar_id_to_warps bar_id
      rw [settled.kept bar_id isReleased]
      exact here
  · intro other warps' bar_id found
    have found' : s.m_cta_to_warps other = some warps' := settled.ctas ▸ found
    show warps' ∩ next.m_bar_id_to_warps bar_id = ∅ ∨
      warps' ∩ next.m_bar_id_to_warps bar_id ⊂ warps' ∩ next.m_warp_active
    rw [settled.active]
    by_cases same : other = cta_id
    · subst same
      obtain rfl := Option.some.inj (found'.symm.trans marked.found)
      by_cases isReleased : R bar_id
      · rw [settled.released bar_id isReleased]
        exact Or.inl (Finset.inter_sdiff_self _ _)
      · rw [settled.kept bar_id isReleased]
        by_cases empty : s.reached warps' bar_id = ∅
        · exact Or.inl empty
        · exact Or.inr (Finset.ssubset_iff_subset_ne.mpr
            ⟨only bar_id, fun full => isReleased (all bar_id full empty)⟩)
    · have fine := marked.others other warps' bar_id same found'
      by_cases isReleased : R bar_id
      · have disjoint := marked.apart other warps' same found'
        have unchanged : warps' ∩ (s.m_bar_id_to_warps bar_id \ warps) =
            warps' ∩ s.m_bar_id_to_warps bar_id := by
          rw [← Finset.inter_sdiff_assoc, Finset.sdiff_eq_self_iff_disjoint]
          exact Finset.disjoint_of_subset_left Finset.inter_subset_left disjoint
        rw [settled.released bar_id isReleased, unchanged]
        exact fine
      · rw [settled.kept bar_id isReleased]
        exact fine

theorem Settled.bars_subset (settled : Settled R s warps next) (bar_id : Nat) :
    next.m_bar_id_to_warps bar_id ⊆ s.m_bar_id_to_warps bar_id := by
  by_cases isReleased : R bar_id
  · rw [settled.released bar_id isReleased]
    exact Finset.sdiff_subset
  · rw [settled.kept bar_id isReleased]

theorem complete_of_released (sound : Watched.Sound ⟨next, goOn waits s warps⟩) {w : Fin W}
    {bar_id : Nat} (waiting : waits w = some bar_id) (isReleased : w ∉ next.m_warp_at_barrier) :
    w ∈ warps ∧ s.Complete warps bar_id := by
  by_contra incomplete
  exact isReleased ((sound.agrees w).mpr ⟨bar_id, goOn_eq_some_iff.mpr ⟨waiting, incomplete⟩⟩)

section Converse

variable (settled : Settled R s warps next) (marked : Marked s waits cta_id warps)
  (sound : Watched.Sound ⟨next, goOn waits s warps⟩)

include settled marked sound

theorem Settled.proper {bar_id : Nat} (unreleased : ¬R bar_id) :
    s.reached warps bar_id = ∅ ∨ s.reached warps bar_id ⊂ s.running warps := by
  have found : next.m_cta_to_warps cta_id = some warps := settled.ctas ▸ marked.found
  have proper := sound.proper cta_id warps bar_id found
  simp only [settled.kept bar_id unreleased, settled.active] at proper
  exact proper

theorem Settled.only (bar_id : Nat) : s.reached warps bar_id ⊆ s.running warps := by
  by_cases isReleased : R bar_id
  · exact Finset.subset_of_eq (settled.complete bar_id isReleased)
  · cases settled.proper marked sound isReleased with
    | inl empty =>
      rw [empty]
      exact Finset.empty_subset _
    | inr strict => exact strict.subset

theorem Settled.all (bar_id : Nat) (full : s.reached warps bar_id = s.running warps)
    (nonempty : s.reached warps bar_id ≠ ∅) : R bar_id := by
  by_contra unreleased
  cases settled.proper marked sound unreleased with
  | inl empty => exact nonempty empty
  | inr strict => exact strict.ne full

theorem Settled.right (bar_id : Nat) (isReleased : R bar_id) (w : Fin W)
    (here : w ∈ s.reached warps bar_id) (other : Nat) (waiting : waits w = some other) :
    s.reached warps other = s.running warps := by
  have only := settled.only marked sound other
  by_contra incomplete
  have waits' : goOn waits s warps w = some other :=
    goOn_eq_some_iff.mpr ⟨waiting, fun both => incomplete ((complete_iff only).mp both.2)⟩
  have flagged := (sound.agrees w).mpr ⟨other, waits'⟩
  exact ((settled.waiting w).mp flagged).2 ⟨bar_id, isReleased, here⟩

end Converse

theorem settle_sound_iff (settled : Settled R s warps next)
    (marked : Marked s waits cta_id warps) :
    Watched.Sound ⟨next, goOn waits s warps⟩ ↔
      (∀ bar_id, s.reached warps bar_id ⊆ s.running warps) ∧
      (∀ bar_id, s.reached warps bar_id = s.running warps → s.reached warps bar_id ≠ ∅ →
        R bar_id) ∧
      ∀ bar_id, R bar_id → ∀ w ∈ s.reached warps bar_id, ∀ other ∈ waits w,
        s.reached warps other = s.running warps :=
  ⟨fun sound => ⟨settled.only marked sound, settled.all marked sound,
    fun bar_id isReleased w here other waiting =>
      settled.right marked sound bar_id isReleased w here other waiting⟩,
    fun ⟨only, all, right⟩ => settled.sound marked only all right⟩

end Settle

end AesOnGpu.Barrier
