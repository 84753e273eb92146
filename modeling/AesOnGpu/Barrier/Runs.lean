import AesOnGpu.Barrier.Calls

/-! # Sound runs

A driven run is sound throughout, and releases warps only when it may, exactly if
all its calls are harmless.
-/

namespace AesOnGpu.Barrier

variable {W : Nat}

/-! ## Blocks -/

namespace Placed

theorem settled {s after : BarrierSet W} {R : Nat → Prop} {warps : WarpSet W}
    (placed : Placed s) (settled : Settled R s warps after) : Placed after where
  below cta_id warps found := by
    rw [settled.limit]
    exact placed.below cta_id warps (settled.ctas ▸ found)
  apart cta_id other warps warps' different found found' :=
    placed.apart cta_id other warps warps' different (settled.ctas ▸ found) (settled.ctas ▸ found')
  inside bar_id w counted := by
    rw [settled.ctas]
    exact placed.inside bar_id w (settled.bars_subset bar_id counted)

theorem reach {s : BarrierSet W} (placed : Placed s) {cta_id : Nat} {warps : WarpSet W}
    (found : s.m_cta_to_warps cta_id = some warps) {warp_id : Fin W} (inside : warp_id ∈ warps)
    (bar_type : BarrierType) (bar_id : Nat) : Placed (s.reach bar_type bar_id warp_id) where
  below := placed.below
  apart := placed.apart
  inside i w counted := by
    cases (@Watched.mem_reach W ⟨s, fun _ => none⟩ _ _ bar_id _ _).mp counted with
    | inl old => exact placed.inside i w old
    | inr new => exact ⟨cta_id, warps, found, new.2 ▸ inside⟩

theorem allocate {s : BarrierSet W} (placed : Placed s) {cta_id : Nat} {warps : WarpSet W}
    (below : cta_id < s.m_max_cta_per_core) (free : s.m_cta_to_warps cta_id = none)
    (fresh : ∀ other warps', s.m_cta_to_warps other = some warps' → Disjoint warps' warps) :
    Placed { s with
      m_cta_to_warps := Function.update s.m_cta_to_warps cta_id (some warps)
      m_warp_active := s.m_warp_active ∪ warps } where
  below other warps' found := by
    by_cases same : other = cta_id
    · exact same ▸ below
    · exact placed.below other warps' ((Function.update_of_ne same _ _).symm.trans found)
  apart one other warps₁ warps₂ different found₁ found₂ := by
    have found₁ : Function.update s.m_cta_to_warps cta_id (some warps) one = some warps₁ := found₁
    have found₂ : Function.update s.m_cta_to_warps cta_id (some warps) other = some warps₂ := found₂
    by_cases first : one = cta_id
    · rw [first, Function.update_self] at found₁
      rw [Function.update_of_ne fun second => different (first.trans second.symm)] at found₂
      exact Option.some.inj found₁ ▸ (fresh other warps₂ found₂).symm
    · rw [Function.update_of_ne first] at found₁
      by_cases second : other = cta_id
      · rw [second, Function.update_self] at found₂
        exact Option.some.inj found₂ ▸ fresh one warps₁ found₁
      · rw [Function.update_of_ne second] at found₂
        exact placed.apart one other warps₁ warps₂ different found₁ found₂
  inside i w counted := by
    obtain ⟨other, warps', found, inside⟩ := placed.inside i w counted
    have different : other ≠ cta_id := by
      rintro rfl
      rw [free] at found
      exact absurd found (by simp)
    exact ⟨other, warps', (Function.update_of_ne different _ _).trans found, inside⟩

theorem deallocate {s : BarrierSet W} (placed : Placed s) {cta_id : Nat}
    (uncounted : ∀ warps, s.m_cta_to_warps cta_id = some warps →
      ∀ i, Disjoint (s.m_bar_id_to_warps i) warps) :
    Placed { s with m_cta_to_warps := Function.update s.m_cta_to_warps cta_id none } := by
  have old {other : Nat} {warps : WarpSet W}
      (found : Function.update s.m_cta_to_warps cta_id none other = some warps) :
      s.m_cta_to_warps other = some warps := by
    by_cases same : other = cta_id
    · rw [same, Function.update_self] at found
      exact absurd found (by simp)
    · rwa [Function.update_of_ne same] at found
  refine ⟨fun other warps found => placed.below other warps (old found),
    fun one other warps₁ warps₂ different found₁ found₂ =>
      placed.apart one other warps₁ warps₂ different (old found₁) (old found₂),
    fun i w counted => ?_⟩
  obtain ⟨other, warps, found, inside⟩ := placed.inside i w counted
  have different : other ≠ cta_id := by
    rintro rfl
    exact Finset.disjoint_left.mp (uncounted warps found i) counted inside
  exact ⟨other, warps, (Function.update_of_ne different _ _).trans found, inside⟩

theorem block_unique {s : BarrierSet W} (placed : Placed s) {cta_id other : Nat}
    {warps warps' : WarpSet W} (found : s.m_cta_to_warps cta_id = some warps)
    (found' : s.m_cta_to_warps other = some warps') {w : Fin W} (inside : w ∈ warps)
    (inside' : w ∈ warps') : cta_id = other ∧ warps = warps' := by
  by_cases same : cta_id = other
  · exact ⟨same, Option.some.inj (found.symm.trans (same ▸ found'))⟩
  · have disjoint := placed.apart cta_id other warps warps' same found found'
    exact absurd inside' (Finset.disjoint_left.mp disjoint inside)

end Placed

namespace Watched

variable {x next : Watched W}

/-! ## What a call keeps -/

theorem settled_of_reach {cta_id : Nat} {warps : WarpSet W}
    (found : x.barriers.m_cta_to_warps cta_id = some warps) {warp_id : Fin W}
    {bar_type : BarrierType} {bar_id : Nat} {bar_count : BitVec 32} (count : bar_count = -1)
    (called : x.call (.warp_reaches_barrier cta_id warp_id bar_type bar_id bar_count) =
      some next) :
    ∃ R, Settled R (x.barriers.reach bar_type bar_id warp_id) warps next.barriers := by
  obtain ⟨_, after, rfl, code⟩ := call_reach found bar_id count called
  cases code with
  | inl code =>
    obtain ⟨complete, rfl⟩ := code
    exact ⟨_, BarrierSet.settled_release BarrierSet.settled_none not_false complete⟩
  | inr code =>
    obtain ⟨_, rfl⟩ := code
    exact ⟨_, BarrierSet.settled_none⟩

theorem found_of_reach {cta_id : Nat} {warp_id : Fin W} {bar_type : BarrierType} {bar_id : Nat}
    {bar_count : BitVec 32}
    (called : x.call (.warp_reaches_barrier cta_id warp_id bar_type bar_id bar_count) =
      some next) : ∃ warps, x.barriers.m_cta_to_warps cta_id = some warps := by
  obtain ⟨after, performed, _⟩ := Option.map_eq_some_iff.mp called
  obtain ⟨result, code, _⟩ := Option.map_eq_some_iff.mp performed
  cases found : x.barriers.m_cta_to_warps cta_id with
  | none =>
    simp only [BarrierSet.warp_reaches_barrier, found] at code
    exact absurd code (by simp)
  | some warps => exact ⟨warps, rfl⟩

theorem placed_next (sound : x.Sound) (placed : Placed x.barriers) {op : BarrierCall W}
    (driven : x.Driven op) (called : x.call op = some next) : Placed next.barriers := by
  cases op with
  | allocate_barrier cta_id warps =>
    obtain ⟨below, free, rfl⟩ := call_allocate sound placed driven called
    exact placed.allocate below free fun _ _ => fresh_allocate placed driven
  | deallocate_barrier cta_id =>
    obtain ⟨rfl, uncounted⟩ := call_deallocate sound called
    exact placed.deallocate uncounted
  | warp_reaches_barrier cta_id warp_id bar_type bar_id bar_count =>
    obtain ⟨warps, found⟩ := found_of_reach called
    obtain ⟨inside, _⟩ := call_reach found bar_id driven.2.2.2 called
    obtain ⟨_, settled⟩ := settled_of_reach found driven.2.2.2 called
    exact (placed.reach found inside bar_type bar_id).settled settled
  | warp_exit warp_id =>
    obtain ⟨warps, found, rfl⟩ := call_exit called
    have stopped : Placed (x.barriers.deactivate warp_id) := ⟨placed.below, placed.apart, placed.inside⟩
    exact stopped.settled (BarrierSet.settled_exit _ warps _)

/-! ## Releases -/

theorem releasesReached (sound : x.Sound) (placed : Placed x.barriers) {op : BarrierCall W}
    (driven : x.Driven op) (called : x.call op = some next) (sound' : next.Sound) :
    x.ReleasesReached op next := by
  intro w flagged isReleased bar_id waiting cta_id warps found inside v running
  cases op with
  | allocate_barrier cta_id warps =>
    obtain ⟨_, _, rfl⟩ := call_allocate sound placed driven called
    exact absurd flagged isReleased
  | deallocate_barrier cta_id =>
    obtain ⟨rfl, _⟩ := call_deallocate sound called
    exact absurd flagged isReleased
  | warp_reaches_barrier own warp_id bar_type bar bar_count =>
    obtain ⟨_, free, plain, count⟩ := driven
    obtain ⟨block, allocated⟩ := found_of_reach called
    obtain ⟨_, settled⟩ := settled_of_reach allocated count called
    obtain ⟨_, after, rfl, _⟩ := call_reach allocated bar count called
    have different : w ≠ warp_id := fun same => free (same ▸ flagged)
    have waiting' : x.waitsReach bar_type bar warp_id w = some bar_id :=
      (waitsReach_other bar different).trans waiting
    obtain ⟨mine, complete⟩ := complete_of_released sound' waiting' isReleased
    obtain ⟨rfl, rfl⟩ := placed.block_unique (settled.ctas ▸ found) allocated inside mine
    have counted := complete (settled.active ▸ running)
    cases (mem_reach bar).mp counted with
    | inl earlier => exact Or.inl earlier
    | inr now =>
      obtain ⟨rfl, rfl⟩ := now
      exact Or.inr ⟨bar_type, bar_count, rfl⟩
  | warp_exit warp_id =>
    obtain ⟨block, lookup, rfl⟩ := call_exit called
    obtain ⟨own, allocated, _⟩ := found_of_ctaOf lookup
    have settled := BarrierSet.settled_exit (x.barriers.deactivate warp_id) block
      x.barriers.m_max_barriers_per_cta
    obtain ⟨mine, complete⟩ := complete_of_released sound' waiting isReleased
    obtain ⟨rfl, rfl⟩ := placed.block_unique (settled.ctas ▸ found) allocated inside mine
    exact Or.inl (complete (settled.active ▸ running))

/-! ## Runs -/

theorem sound_next_iff (sound : x.Sound) (placed : Placed x.barriers) {op : BarrierCall W}
    (driven : x.Driven op) (called : x.call op = some next) : next.Sound ↔ x.Harmless op := by
  cases op with
  | allocate_barrier cta_id warps =>
    exact iff_of_true (allocate_sound sound placed driven called) trivial
  | deallocate_barrier cta_id => exact iff_of_true (deallocate_sound sound called) trivial
  | warp_reaches_barrier cta_id warp_id bar_type bar_id bar_count =>
    obtain ⟨running, free, plain, count⟩ := driven
    obtain ⟨warps, found⟩ := found_of_reach called
    exact reach_sound_iff sound placed found running free plain bar_id count called
  | warp_exit warp_id => exact exit_sound_iff sound placed called

theorem Holds.sound {ops : List (BarrierCall W)} (holds : x.Holds ops) : x.Sound := by
  cases ops with
  | nil => exact holds
  | cons op ops => exact holds.1

theorem holds_iff (ops : List (BarrierCall W)) {x : Watched W} (sound : x.Sound)
    (placed : Placed x.barriers) (driven : Along Driven x ops) :
    x.Holds ops ↔ Along Harmless x ops := by
  induction ops generalizing x with
  | nil => exact iff_of_true sound trivial
  | cons op ops ih =>
    constructor
    · rintro ⟨_, holds⟩ next called
      obtain ⟨allowed, driven⟩ := driven next called
      have placed' := placed_next sound placed allowed called
      obtain ⟨_, holds⟩ := holds next called
      have sound' : next.Sound := holds.sound
      exact ⟨(sound_next_iff sound placed allowed called).mp sound',
        (ih sound' placed' driven).mp holds⟩
    · intro harmless
      refine ⟨sound, fun next called => ?_⟩
      obtain ⟨allowed, driven⟩ := driven next called
      obtain ⟨first, harmless⟩ := harmless next called
      have sound' := (sound_next_iff sound placed allowed called).mpr first
      have placed' := placed_next sound placed allowed called
      exact ⟨releasesReached sound placed allowed called sound',
        (ih sound' placed' driven).mpr harmless⟩

/-- Without a block all is well. -/
def initial (W max_cta_per_core max_barriers_per_cta warp_size : Nat) : Watched W :=
  ⟨.new W max_cta_per_core max_barriers_per_cta warp_size, fun _ => none⟩

theorem initial_sound (W max_cta_per_core max_barriers_per_cta warp_size : Nat) :
    (initial W max_cta_per_core max_barriers_per_cta warp_size).Sound where
  agrees w := by simp [initial, BarrierSet.new]
  counted w bar_id waiting := absurd waiting (by simp [initial])
  proper cta_id warps bar_id found := absurd found (by simp [initial, BarrierSet.new])

theorem initial_placed (W max_cta_per_core max_barriers_per_cta warp_size : Nat) :
    Placed (initial W max_cta_per_core max_barriers_per_cta warp_size).barriers where
  below cta_id warps found := absurd found (by simp [initial, BarrierSet.new])
  apart cta_id other warps warps' _ found := absurd found (by simp [initial, BarrierSet.new])
  inside bar_id w counted := absurd counted (by simp [initial, BarrierSet.new])

variable {max_cta_per_core max_barriers_per_cta warp_size : Nat}

/-- Barriers work in a driven run exactly if all its calls are harmless. -/
theorem barriers_hold_iff (ops : List (BarrierCall W))
    (driven : Along Driven (initial W max_cta_per_core max_barriers_per_cta warp_size) ops) :
    (initial W max_cta_per_core max_barriers_per_cta warp_size).Holds ops ↔
      Along Harmless (initial W max_cta_per_core max_barriers_per_cta warp_size) ops :=
  holds_iff ops (initial_sound _ _ _ _) (initial_placed _ _ _ _) driven

/-! ## A run that goes wrong -/

instance decidableDriven (x : Watched W) (op : BarrierCall W) : Decidable (x.Driven op) :=
  match op with
  | .allocate_barrier _ warps => inferInstanceAs (Decidable (∀ cta_id < _, ∀ others ∈ _, Disjoint others warps))
  | .deallocate_barrier _ => isTrue trivial
  | .warp_reaches_barrier _ _ _ _ _ => inferInstanceAs (Decidable (_ ∧ _ ∧ _ ∧ _))
  | .warp_exit _ => inferInstanceAs (Decidable (_ ∉ _))

instance decidableAlong {P : Watched W → BarrierCall W → Prop} [∀ x op, Decidable (P x op)] :
    ∀ x ops, Decidable (Along P x ops)
  | _, [] => isTrue trivial
  | x, op :: ops =>
    match called : x.call op with
    | none => isTrue fun next some => absurd (called.symm.trans some) (by simp)
    | some next =>
      haveI := decidableAlong (P := P) next ops
      decidable_of_iff (P x op ∧ Along P next ops) (by simp [Along, called])

/-- A block of three warps; warp 0 arrives at barrier 0 and waits at barrier 1, the
    others meet at barrier 0. -/
def crossedCalls : List (BarrierCall 3) :=
  [.allocate_barrier 0 {0, 1, 2}, .warp_reaches_barrier 0 0 .ARRIVE 0 (-1),
    .warp_reaches_barrier 0 0 .SYNC 1 (-1), .warp_reaches_barrier 0 1 .SYNC 0 (-1),
    .warp_reaches_barrier 0 2 .SYNC 0 (-1)]

theorem crossedCalls_driven : Along Driven (initial 3 8 16 32) crossedCalls := by decide

/-- The last warp to run is released by the exit of the other one. -/
theorem barriers_hold_iff_exit :
    let ops := [.allocate_barrier 0 {0, 1}, .warp_reaches_barrier 0 0 .SYNC 3 (-1), .warp_exit 1,
      .warp_exit 0, .deallocate_barrier 0]
    (initial 3 8 16 32).Holds ops ↔ Along Harmless (initial 3 8 16 32) ops :=
  barriers_hold_iff _ (by decide +kernel)

def run (x : Watched W) (ops : List (BarrierCall W)) : Option (Watched W) := ops.foldlM call x

theorem Holds.run {x last : Watched W} (ops : List (BarrierCall W)) (holds : x.Holds ops)
    (ended : x.run ops = some last) : last.Sound := by
  induction ops generalizing x with
  | nil => exact Option.some.inj ended ▸ holds
  | cons op ops ih =>
    obtain ⟨next, called, ended⟩ := Option.bind_eq_some_iff.mp ended
    exact ih (holds.2 next called).2 ended

theorem crossedCalls_run : ((initial 3 8 16 32).run crossedCalls).isSome := by decide

/-- Warp 0 is released from barrier 1, which no other warp has reached. -/
theorem crossedCalls_release_early :
    ¬ ∀ (W max_cta_per_core max_barriers_per_cta warp_size : Nat) (ops : List (BarrierCall W)),
      Along Driven (initial W max_cta_per_core max_barriers_per_cta warp_size) ops →
      (initial W max_cta_per_core max_barriers_per_cta warp_size).Holds ops := by
  intro holds
  have sound := (holds 3 8 16 32 crossedCalls crossedCalls_driven).run _ (Option.some_get crossedCalls_run).symm
  have waiting : (((initial 3 8 16 32).run crossedCalls).get crossedCalls_run).waits 0 = some 1 := by
    decide
  have isReleased : 0 ∉ (((initial 3 8 16 32).run crossedCalls).get
      crossedCalls_run).barriers.m_warp_at_barrier := by decide
  exact isReleased ((sound.agrees 0).mpr ⟨1, waiting⟩)

end Watched

end AesOnGpu.Barrier
