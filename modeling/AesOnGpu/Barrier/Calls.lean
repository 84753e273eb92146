import AesOnGpu.Barrier.Settled

/-! # Sound calls

Each call of a driven run leads from a sound state to a sound state exactly if it
is harmless.
-/

namespace AesOnGpu.Barrier

variable {W : Nat}

structure Placed (s : BarrierSet W) : Prop where
  below : ∀ cta_id warps, s.m_cta_to_warps cta_id = some warps → cta_id < s.m_max_cta_per_core
  apart : ∀ cta_id other warps warps', cta_id ≠ other → s.m_cta_to_warps cta_id = some warps →
    s.m_cta_to_warps other = some warps' → Disjoint warps warps'
  inside : ∀ bar_id, ∀ w ∈ s.m_bar_id_to_warps bar_id,
    ∃ cta_id warps, s.m_cta_to_warps cta_id = some warps ∧ w ∈ warps

namespace BarrierSet

variable {s next : BarrierSet W}

/-! ## Releases -/

theorem sdiff_reached (warps counted : WarpSet W) : counted \ (warps ∩ counted) = counted \ warps := by
  ext w
  simp only [Finset.mem_sdiff, Finset.mem_inter]
  tauto

theorem settled_none {warps : WarpSet W} : Settled (fun _ => False) s warps s where
  complete _ := False.elim
  limit := rfl
  ctas := rfl
  active := rfl
  released _ := False.elim
  kept _ _ := rfl
  waiting w := by simp

theorem settled_release {R : Nat → Prop} {warps : WarpSet W} {bar_id : Nat}
    (settled : Settled R s warps next) (fresh : ¬R bar_id)
    (complete : s.reached warps bar_id = s.running warps) :
    Settled (fun i => R i ∨ i = bar_id) s warps
      (next.release bar_id (warps ∩ next.m_bar_id_to_warps bar_id)) where
  complete i isReleased := by
    cases isReleased with
    | inl earlier => exact settled.complete i earlier
    | inr here => rw [here, complete]
  limit := settled.limit
  ctas := settled.ctas
  active := settled.active
  released i isReleased := by
    show Function.update _ _ _ i = _
    by_cases here : i = bar_id
    · rw [here, Function.update_self, sdiff_reached, settled.kept bar_id fresh]
    · rw [Function.update_of_ne here]
      exact settled.released i (isReleased.resolve_right here)
  kept i unreleased := by
    show Function.update _ _ _ i = _
    rw [Function.update_of_ne fun here => unreleased (Or.inr here)]
    exact settled.kept i fun earlier => unreleased (Or.inl earlier)
  waiting w := by
    show w ∈ next.m_warp_at_barrier \ (warps ∩ next.m_bar_id_to_warps bar_id) ↔ _
    rw [settled.kept bar_id fresh, Finset.mem_sdiff, settled.waiting, and_assoc, ← not_or]
    simp only [or_and_right, exists_or, exists_eq_left]
    rfl

theorem settled_congr {R R' : Nat → Prop} {warps : WarpSet W} (settled : Settled R s warps next)
    (same : ∀ i, R i ↔ R' i) : Settled R' s warps next := by
  have equal : R = R' := funext fun i => propext (same i)
  exact equal ▸ settled

theorem settled_exit (s : BarrierSet W) (warps : WarpSet W) (n : Nat) :
    Settled (fun i => i < n ∧ s.reached warps i = s.running warps) s warps
      ((List.range n).foldl (exitTurn warps (warps ∩ s.m_warp_active)) s) := by
  induction n with
  | zero => exact settled_congr settled_none fun i => by simp
  | succ n ih =>
    rw [List.range_succ, List.foldl_append]
    have fresh : ¬(n < n ∧ s.reached warps n = s.running warps) := fun both => Nat.lt_irrefl n both.1
    have kept := ih.kept n fresh
    rw [List.foldl_cons, List.foldl_nil, exitTurn]
    by_cases complete : s.reached warps n = s.running warps
    · have same : warps ∩ ((List.range n).foldl (exitTurn warps (warps ∩ s.m_warp_active))
          s).m_bar_id_to_warps n = warps ∩ s.m_warp_active := by
        rw [kept]
        exact complete
      rw [if_pos same]
      apply settled_congr (settled_release ih fresh complete)
      intro i
      rw [Nat.lt_succ_iff_lt_or_eq, or_and_right]
      constructor
      · exact Or.imp_right fun here => ⟨here, here ▸ complete⟩
      · exact Or.imp_right And.left
    · have different : ¬warps ∩ ((List.range n).foldl (exitTurn warps (warps ∩ s.m_warp_active))
          s).m_bar_id_to_warps n = warps ∩ s.m_warp_active := by
        rw [kept]
        exact complete
      rw [if_neg different]
      apply settled_congr ih
      intro i
      rw [Nat.lt_succ_iff_lt_or_eq, or_and_right]
      constructor
      · exact Or.inl
      · exact fun either => either.resolve_right fun here => complete (here.1 ▸ here.2)

end BarrierSet

namespace Watched

variable {x next : Watched W}

/-! ## A warp reaches a barrier -/

section Reach

variable (sound : x.Sound) (placed : Placed x.barriers) {cta_id : Nat} {warps : WarpSet W}
  (found : x.barriers.m_cta_to_warps cta_id = some warps) {warp_id : Fin W}
  (inside : warp_id ∈ warps) (running : warp_id ∈ x.barriers.m_warp_active)
  (free : warp_id ∉ x.barriers.m_warp_at_barrier) {bar_type : BarrierType}
  (plain : bar_type ≠ .RED) (bar_id : Nat)

def waitsReach (x : Watched W) (bar_type : BarrierType) (bar_id : Nat) (warp_id : Fin W) :
    Fin W → Option Nat :=
  if bar_type = .ARRIVE then x.waits else Function.update x.waits warp_id (some bar_id)

include sound free in
theorem waits_free : x.waits warp_id = none := by
  cases waiting : x.waits warp_id with
  | none => rfl
  | some other => exact absurd ((sound.agrees warp_id).mpr ⟨other, waiting⟩) free

theorem waitsReach_other {w : Fin W} (other : w ≠ warp_id) :
    x.waitsReach bar_type bar_id warp_id w = x.waits w := by
  rw [waitsReach]
  split
  · rfl
  · exact Function.update_of_ne other _ _

include sound free in
theorem waitsReach_self {other : Nat}
    (waiting : x.waitsReach bar_type bar_id warp_id warp_id = some other) : other = bar_id := by
  rw [waitsReach] at waiting
  split at waiting
  · rw [waits_free sound free] at waiting
    exact absurd waiting (by simp)
  · rw [Function.update_self] at waiting
    exact (Option.some.inj waiting).symm

theorem mem_reach {w : Fin W} {i : Nat} :
    w ∈ (x.barriers.reach bar_type bar_id warp_id).m_bar_id_to_warps i ↔
      w ∈ x.barriers.m_bar_id_to_warps i ∨ (i = bar_id ∧ w = warp_id) := by
  show w ∈ Function.update x.barriers.m_bar_id_to_warps bar_id
    (insert warp_id (x.barriers.m_bar_id_to_warps bar_id)) i ↔ _
  by_cases here : i = bar_id
  · subst here
    rw [Function.update_self, Finset.mem_insert]
    tauto
  · rw [Function.update_of_ne here]
    tauto

include sound placed found inside free plain in
theorem marked_reach :
    Marked (x.barriers.reach bar_type bar_id warp_id) (x.waitsReach bar_type bar_id warp_id) cta_id
      warps where
  found := found
  agrees w := by
    by_cases same : w = warp_id
    · subst same
      cases bar_type with
      | SYNC => simp [BarrierSet.reach, waitsReach]
      | ARRIVE =>
        have none := waits_free sound free
        simp [BarrierSet.reach, waitsReach, none, free]
      | RED => exact absurd rfl plain
    · rw [waitsReach_other bar_id same, ← sound.agrees w]
      cases bar_type with
      | SYNC => simp [BarrierSet.reach, same]
      | ARRIVE => simp [BarrierSet.reach]
      | RED => exact absurd rfl plain
  counted w i waiting := by
    rw [mem_reach]
    by_cases same : w = warp_id
    · subst same
      exact Or.inr ⟨waitsReach_self sound free bar_id waiting, rfl⟩
    · rw [waitsReach_other bar_id same] at waiting
      exact Or.inl (sound.counted w i waiting)
  others other warps' i different found' := by
    have outside : warp_id ∉ warps' := fun both =>
      Finset.disjoint_left.mp (placed.apart other cta_id warps' warps different found' found) both
        inside
    have same : (x.barriers.reach bar_type bar_id warp_id).reached warps' i =
        x.barriers.reached warps' i := by
      ext w
      rw [mem_reached, mem_reached, mem_reach]
      constructor
      · rintro ⟨mine, counted | ⟨_, rfl⟩⟩
        · exact ⟨mine, counted⟩
        · exact absurd mine outside
      · exact fun ⟨mine, counted⟩ => ⟨mine, Or.inl counted⟩
    rw [same]
    exact sound.proper other warps' i found'
  apart other warps' different found' :=
    placed.apart other cta_id warps' warps different found' found

omit inside in
include sound found running in
theorem only_reach (inside : warp_id ∈ warps) (i : Nat) :
    (x.barriers.reach bar_type bar_id warp_id).reached warps i ⊆ x.barriers.running warps := by
  intro w here
  rw [mem_reached, mem_reach] at here
  obtain ⟨mine, counted | ⟨_, rfl⟩⟩ := here
  · have reached := mem_reached.mpr ⟨mine, counted⟩
    cases sound.proper cta_id warps i found with
    | inl empty =>
      rw [BarrierSet.reached, empty] at reached
      exact absurd reached (Finset.notMem_empty w)
    | inr strict => exact strict.subset reached
  · exact Finset.mem_inter.mpr ⟨mine, running⟩

include sound found inside running in
theorem full_reach {i : Nat}
    (full : (x.barriers.reach bar_type bar_id warp_id).reached warps i =
      x.barriers.running warps) : i = bar_id := by
  by_contra different
  have same : (x.barriers.reach bar_type bar_id warp_id).reached warps i =
      x.barriers.reached warps i := by
    ext w
    rw [mem_reached, mem_reached, mem_reach]
    simp [different]
  have here : warp_id ∈ x.barriers.running warps := Finset.mem_inter.mpr ⟨inside, running⟩
  rw [same] at full
  cases sound.proper cta_id warps i found with
  | inl empty =>
    rw [← full, BarrierSet.reached, empty] at here
    exact absurd here (Finset.notMem_empty warp_id)
  | inr strict => exact strict.ne full

include found in
theorem call_reach {bar_count : BitVec 32} (count : bar_count = -1)
    (called : x.call (.warp_reaches_barrier cta_id warp_id bar_type bar_id bar_count) =
      some next) :
    warp_id ∈ warps ∧ ∃ after,
      next = ⟨after, goOn (x.waitsReach bar_type bar_id warp_id)
        (x.barriers.reach bar_type bar_id warp_id) warps⟩ ∧
      (((x.barriers.reach bar_type bar_id warp_id).reached warps bar_id =
          x.barriers.running warps ∧
        after = (x.barriers.reach bar_type bar_id warp_id).release bar_id
          (warps ∩ (x.barriers.reach bar_type bar_id warp_id).m_bar_id_to_warps bar_id)) ∨
      ((x.barriers.reach bar_type bar_id warp_id).reached warps bar_id ≠
          x.barriers.running warps ∧
        after = x.barriers.reach bar_type bar_id warp_id)) := by
  obtain ⟨after, performed, same⟩ := Option.map_eq_some_iff.mp called
  obtain ⟨result, code, rfl⟩ := Option.map_eq_some_iff.mp performed
  simp only [BarrierSet.warp_reaches_barrier, found] at code
  split at code
  · rename_i allowed
    refine ⟨allowed.2, result.1, ?_, ?_⟩
    · rw [← same, watch, found]
      rfl
    · rw [BarrierSet.released, if_pos count] at code
      split at code
      · rename_i full
        rw [← Option.some.inj code]
        exact Or.inl ⟨of_decide_eq_true full, rfl⟩
      · rename_i notFull
        rw [← Option.some.inj code]
        exact Or.inr ⟨fun full => notFull (decide_eq_true full), rfl⟩
  · exact absurd code (by simp)

include sound placed found running free plain in
theorem reach_sound_iff {bar_count : BitVec 32} (count : bar_count = -1)
    (called : x.call (.warp_reaches_barrier cta_id warp_id bar_type bar_id bar_count) =
      some next) :
    next.Sound ↔ x.Harmless (.warp_reaches_barrier cta_id warp_id bar_type bar_id bar_count) := by
  obtain ⟨inside, after, rfl, code⟩ := call_reach found bar_id count called
  have marked := marked_reach sound placed found inside free plain bar_id
  have only (i : Nat) : (x.barriers.reach bar_type bar_id warp_id).reached warps i ⊆
      x.barriers.running warps := only_reach sound found running bar_id inside i
  have insert_iff : warps ∩ x.barriers.m_warp_active =
        warps ∩ insert warp_id (x.barriers.m_bar_id_to_warps bar_id) ↔
      (x.barriers.reach bar_type bar_id warp_id).reached warps bar_id =
        x.barriers.running warps := by
    show _ ↔ warps ∩ Function.update x.barriers.m_bar_id_to_warps bar_id _ bar_id = _
    rw [Function.update_self]
    exact eq_comm
  cases code with
  | inl code =>
    obtain ⟨complete, rfl⟩ := code
    have settled := BarrierSet.settled_release BarrierSet.settled_none not_false complete
    rw [settle_sound_iff settled marked]
    constructor
    · rintro ⟨_, _, right⟩ warps' found' _ w here other waiting
      obtain rfl := Option.some.inj (found.symm.trans found')
      have different : w ≠ warp_id := by
        rintro rfl
        rw [waits_free sound free] at waiting
        exact absurd waiting (by simp)
      have here' : w ∈ (x.barriers.reach bar_type bar_id warp_id).reached warps bar_id :=
        mem_reached.mpr ⟨(Finset.mem_inter.mp here).1,
          (mem_reach bar_id).mpr (Or.inl (Finset.mem_inter.mp here).2)⟩
      have full := right bar_id (Or.inr rfl) w here' other
        ((waitsReach_other bar_id different).trans waiting)
      exact full_reach sound found inside running bar_id full
    · intro harmless
      refine ⟨only, fun i full _ => Or.inr (full_reach sound found inside running bar_id full), ?_⟩
      rintro i (none | rfl) w here other waiting
      · exact none.elim
      · have same : other = i := by
          by_cases self : w = warp_id
          · subst self
            exact waitsReach_self sound free i waiting
          · rw [waitsReach_other i self] at waiting
            have counted := mem_reached.mp here
            rw [mem_reach] at counted
            have here' : w ∈ warps ∩ x.barriers.m_bar_id_to_warps i :=
              Finset.mem_inter.mpr ⟨counted.1, counted.2.resolve_right fun both => self both.2⟩
            exact harmless warps found (insert_iff.mpr complete) w here' other waiting
        rw [same]
        exact complete
  | inr code =>
    obtain ⟨incomplete, rfl⟩ := code
    rw [settle_sound_iff BarrierSet.settled_none marked]
    constructor
    · rintro _ warps' found' full
      obtain rfl := Option.some.inj (found.symm.trans found')
      exact absurd (insert_iff.mp full) incomplete
    · intro _
      refine ⟨only, fun i full _ => ?_, fun _ none => none.elim⟩
      obtain rfl := full_reach sound found inside running bar_id full
      exact incomplete full

end Reach

/-! ## A warp exits -/

section Exit

variable (sound : x.Sound) (placed : Placed x.barriers) {warp_id : Fin W}

theorem found_of_ctaOf {warps : WarpSet W} (found : x.barriers.ctaOf warp_id = some warps) :
    ∃ cta_id, x.barriers.m_cta_to_warps cta_id = some warps ∧ warp_id ∈ warps := by
  obtain ⟨cta_id, _, filtered⟩ := List.exists_of_findSome?_eq_some found
  obtain ⟨allocated, inside⟩ := Option.filter_eq_some_iff.mp filtered
  exact ⟨cta_id, allocated, of_decide_eq_true inside⟩

include sound placed in
theorem marked_exit {cta_id : Nat} {warps : WarpSet W}
    (found : x.barriers.m_cta_to_warps cta_id = some warps) (inside : warp_id ∈ warps) :
    Marked (x.barriers.deactivate warp_id) x.waits cta_id warps where
  found := found
  agrees := sound.agrees
  counted := sound.counted
  others other warps' i different found' := by
    have outside : warp_id ∉ warps' := fun both =>
      Finset.disjoint_left.mp (placed.apart other cta_id warps' warps different found' found) both
        inside
    have same : (x.barriers.deactivate warp_id).running warps' = x.barriers.running warps' := by
      show warps' ∩ x.barriers.m_warp_active.erase warp_id = warps' ∩ x.barriers.m_warp_active
      rw [Finset.inter_erase, Finset.erase_eq_of_notMem]
      exact fun both => outside (Finset.mem_inter.mp both).1
    rw [same]
    exact sound.proper other warps' i found'
  apart other warps' different found' :=
    placed.apart other cta_id warps' warps different found' found

theorem call_exit (called : x.call (.warp_exit warp_id) = some next) :
    ∃ warps, x.barriers.ctaOf warp_id = some warps ∧
      next = ⟨(List.range x.barriers.m_max_barriers_per_cta).foldl
          (BarrierSet.exitTurn warps (warps ∩ (x.barriers.deactivate warp_id).m_warp_active))
          (x.barriers.deactivate warp_id),
        goOn x.waits (x.barriers.deactivate warp_id) warps⟩ := by
  obtain ⟨after, code, same⟩ := Option.map_eq_some_iff.mp called
  have code : x.barriers.warp_exit warp_id = some after := code
  have lookup : (x.barriers.deactivate warp_id).ctaOf warp_id = x.barriers.ctaOf warp_id := rfl
  cases found : x.barriers.ctaOf warp_id with
  | none =>
    simp only [BarrierSet.warp_exit, lookup, found] at code
    exact absurd code (by simp)
  | some warps =>
    simp only [BarrierSet.warp_exit, lookup, found] at code
    refine ⟨warps, rfl, ?_⟩
    rw [← same, ← Option.some.inj code, watch, found]
    rfl

include sound placed in
theorem exit_sound_iff (called : x.call (.warp_exit warp_id) = some next) :
    next.Sound ↔ x.Harmless (.warp_exit warp_id) := by
  obtain ⟨warps, found, rfl⟩ := call_exit called
  obtain ⟨cta_id, allocated, inside⟩ := found_of_ctaOf found
  have marked := marked_exit sound placed allocated inside
  have settled := BarrierSet.settled_exit (x.barriers.deactivate warp_id) warps
    x.barriers.m_max_barriers_per_cta
  rw [settle_sound_iff settled marked]
  have stopped : warp_id ∉ (x.barriers.deactivate warp_id).running warps := fun both =>
    Finset.notMem_erase warp_id _ (Finset.mem_inter.mp both).2
  constructor
  · rintro ⟨only, all, right⟩
    refine ⟨fun i counted => stopped (only i (mem_reached.mpr ⟨inside, counted⟩)), ?_⟩
    intro warps' found' i full
    obtain rfl := Option.some.inj (found.symm.trans found')
    refine ⟨fun nonempty => (all i full nonempty).1, fun w here other waiting => ?_⟩
    exact right i (all i full (Finset.ne_empty_of_mem here)) w here other waiting
  · rintro ⟨uncounted, harmless⟩
    refine ⟨fun i w here => ?_, fun i full nonempty => ?_, fun i full w here other waiting => ?_⟩
    · have running : w ∈ x.barriers.running warps := by
        cases sound.proper cta_id warps i allocated with
        | inl empty =>
          have none : w ∈ (∅ : WarpSet W) := empty ▸ here
          exact absurd none (Finset.notMem_empty w)
        | inr strict => exact strict.subset here
      have different : w ≠ warp_id := by
        rintro rfl
        exact uncounted i (mem_reached.mp here).2
      exact Finset.mem_inter.mpr ⟨(Finset.mem_inter.mp running).1,
        Finset.mem_erase.mpr ⟨different, (Finset.mem_inter.mp running).2⟩⟩
    · exact ⟨(harmless warps found i full).1 nonempty, full⟩
    · exact (harmless warps found i full.2).2 w here other waiting

end Exit

/-! ## Blocks come and go -/

section Blocks

variable (sound : x.Sound) (placed : Placed x.barriers) {cta_id : Nat} {warps : WarpSet W}

include placed in
theorem fresh_allocate (driven : x.Driven (.allocate_barrier cta_id warps)) {other : Nat}
    {warps' : WarpSet W} (found : x.barriers.m_cta_to_warps other = some warps') :
    Disjoint warps' warps :=
  driven other (placed.below other warps' found) warps' found

include placed in
theorem uncounted_allocate (driven : x.Driven (.allocate_barrier cta_id warps)) (i : Nat) :
    Disjoint (x.barriers.m_bar_id_to_warps i) warps := by
  rw [Finset.disjoint_left]
  intro w counted new
  obtain ⟨other, warps', found, inside⟩ := placed.inside i w counted
  exact Finset.disjoint_left.mp (fresh_allocate placed driven found) inside new

include sound in
theorem disjoint_waiting (uncounted : ∀ i, Disjoint (x.barriers.m_bar_id_to_warps i) warps) :
    Disjoint x.barriers.m_warp_at_barrier warps := by
  rw [Finset.disjoint_left]
  intro w waiting inside
  obtain ⟨i, waits⟩ := (sound.agrees w).mp waiting
  exact Finset.disjoint_left.mp (uncounted i) (sound.counted w i waits) inside

theorem sdiff_bars (uncounted : ∀ i, Disjoint (x.barriers.m_bar_id_to_warps i) warps) :
    (fun i => if i < x.barriers.m_max_barriers_per_cta then
        x.barriers.m_bar_id_to_warps i \ warps else x.barriers.m_bar_id_to_warps i) =
      x.barriers.m_bar_id_to_warps := by
  funext i
  rw [Finset.sdiff_eq_self_of_disjoint (uncounted i), ite_self]

include sound placed in
theorem call_allocate (driven : x.Driven (.allocate_barrier cta_id warps))
    (called : x.call (.allocate_barrier cta_id warps) = some next) :
    cta_id < x.barriers.m_max_cta_per_core ∧ x.barriers.m_cta_to_warps cta_id = none ∧
      next = ⟨{ x.barriers with
          m_cta_to_warps := Function.update x.barriers.m_cta_to_warps cta_id (some warps)
          m_warp_active := x.barriers.m_warp_active ∪ warps }, x.waits⟩ := by
  have uncounted := uncounted_allocate placed driven
  have waiting := disjoint_waiting sound uncounted
  obtain ⟨after, code, same⟩ := Option.map_eq_some_iff.mp called
  have code : x.barriers.allocate_barrier cta_id warps = some after := code
  have waits : x.watch (.allocate_barrier cta_id warps) = x.waits := by
    funext w
    show (if w ∈ warps then none else x.waits w) = x.waits w
    split
    · rename_i new
      cases waits : x.waits w with
      | none => rfl
      | some i =>
        exact absurd new (Finset.disjoint_left.mp waiting ((sound.agrees w).mpr ⟨i, waits⟩))
    · rfl
  rw [BarrierSet.allocate_barrier] at code
  split at code
  · rename_i allowed
    refine ⟨allowed.1, allowed.2, ?_⟩
    rw [← same, ← Option.some.inj code, waits, sdiff_bars uncounted,
      Finset.sdiff_eq_self_of_disjoint waiting]
  · exact absurd code (by simp)

include sound placed in
theorem allocate_sound (driven : x.Driven (.allocate_barrier cta_id warps))
    (called : x.call (.allocate_barrier cta_id warps) = some next) : next.Sound := by
  obtain ⟨_, _, rfl⟩ := call_allocate sound placed driven called
  refine ⟨sound.agrees, sound.counted, fun other warps' i found => ?_⟩
  show warps' ∩ x.barriers.m_bar_id_to_warps i = ∅ ∨
    warps' ∩ x.barriers.m_bar_id_to_warps i ⊂ warps' ∩ (x.barriers.m_warp_active ∪ warps)
  have found : Function.update x.barriers.m_cta_to_warps cta_id (some warps) other = some warps' :=
    found
  by_cases same : other = cta_id
  · rw [same, Function.update_self] at found
    rw [← Option.some.inj found]
    exact Or.inl (Finset.disjoint_iff_inter_eq_empty.mp (uncounted_allocate placed driven i).symm)
  · rw [Function.update_of_ne same] at found
    have disjoint := Finset.disjoint_iff_inter_eq_empty.mp (fresh_allocate placed driven found)
    rw [Finset.inter_union_distrib_left, disjoint, Finset.union_empty]
    exact sound.proper other warps' i found

include sound in
theorem call_deallocate (called : x.call (.deallocate_barrier cta_id) = some next) :
    next = ⟨{ x.barriers with
        m_cta_to_warps := Function.update x.barriers.m_cta_to_warps cta_id none }, x.waits⟩ ∧
      ∀ warps, x.barriers.m_cta_to_warps cta_id = some warps →
        ∀ i, Disjoint (x.barriers.m_bar_id_to_warps i) warps := by
  obtain ⟨after, code, same⟩ := Option.map_eq_some_iff.mp called
  have code : x.barriers.deallocate_barrier cta_id = some after := code
  cases found : x.barriers.m_cta_to_warps cta_id with
  | none =>
    simp only [BarrierSet.deallocate_barrier, found] at code
    refine ⟨?_, fun warps none => by simp at none⟩
    rw [← same, ← Option.some.inj code, ← found, Function.update_eq_self]
    rfl
  | some warps =>
    simp only [BarrierSet.deallocate_barrier, found] at code
    split at code
    · rename_i allowed
      obtain ⟨waiting, active, counted⟩ := allowed
      have uncounted (i : Nat) : Disjoint (x.barriers.m_bar_id_to_warps i) warps := by
        apply Disjoint.symm
        rw [Finset.disjoint_iff_inter_eq_empty]
        cases sound.proper cta_id warps i found with
        | inl empty => exact empty
        | inr strict =>
          rw [active] at strict
          exact absurd strict (Finset.not_ssubset_empty _)
      refine ⟨?_, fun warps' found' => Option.some.inj found' ▸ uncounted⟩
      have free : Disjoint x.barriers.m_warp_at_barrier warps := disjoint_waiting sound uncounted
      have stopped : Disjoint x.barriers.m_warp_active warps :=
        (Finset.disjoint_iff_inter_eq_empty.mpr active).symm
      rw [← same, ← Option.some.inj code, sdiff_bars uncounted,
        Finset.sdiff_eq_self_of_disjoint free, Finset.sdiff_eq_self_of_disjoint stopped]
      rfl
    · exact absurd code (by simp)

include sound in
theorem deallocate_sound (called : x.call (.deallocate_barrier cta_id) = some next) :
    next.Sound := by
  obtain ⟨rfl, _⟩ := call_deallocate sound called
  refine ⟨sound.agrees, sound.counted, fun other warps' i found => ?_⟩
  have found : Function.update x.barriers.m_cta_to_warps cta_id none other = some warps' := found
  by_cases same : other = cta_id
  · rw [same, Function.update_self] at found
    exact absurd found (by simp)
  · rw [Function.update_of_ne same] at found
    exact sound.proper other warps' i found

end Blocks

end Watched

end AesOnGpu.Barrier
