import AesOnGpu.MemoryPartition.Arbitration

/-! # The limit of the shared credits

The limit is a difference that may come out as zero, and zero stands for no limit.
-/

namespace AesOnGpu.MemoryPartition

open ArbitrationMetadata

variable {config : Config} {m m' : ArbitrationMetadata} {outstanding : List Request}

/-! ## Limits above zero -/

/-- The limit is what the constructor has computed, and it holds unless it is zero. -/
structure Limited (config : Config) (m : ArbitrationMetadata) : Prop where
  limit : m.m_shared_credit_limit = sharedLimit config
  nonneg : 0 ≤ sharedLimit config
  within : sharedLimit config ≠ 0 → m.m_shared_credit ≤ sharedLimit config

theorem limited_new (created : ArbitrationMetadata.new config = some m) : Limited config m := by
  rw [ArbitrationMetadata.new] at created
  split at created
  · rename_i nonneg
    obtain rfl := Option.some.inj created
    exact ⟨rfl, nonneg, fun _ => nonneg⟩
  · cases created

theorem Limited.borrow (limited : Limited config m) {spid : Nat}
    (run : m.borrow_credit config spid = some m') : Limited config m' := by
  rw [borrow_credit] at run
  split at run
  on_goal 2 => cases run
  split at run
  · obtain rfl := Option.some.inj run
    exact ⟨limited.limit, limited.nonneg, limited.within⟩
  · split at run
    on_goal 2 => cases run
    rename_i free
    obtain rfl := Option.some.inj run
    rw [limited.limit] at free
    refine ⟨limited.limit, limited.nonneg, fun nonzero => ?_⟩
    -- one more, where the limit had not been reached
    exact free.resolve_left nonzero

theorem Limited.giveBack (limited : Limited config m) {spid : Nat}
    (run : m.return_credit config spid = some m') : Limited config m' := by
  rw [return_credit] at run
  split at run
  on_goal 2 => cases run
  by_cases own : m.m_private_credit spid > 0
  · simp only [own, if_true] at run
    split at run
    on_goal 2 => cases run
    obtain rfl := Option.some.inj run
    exact ⟨limited.limit, limited.nonneg, limited.within⟩
  · simp only [own, if_false] at run
    split at run
    on_goal 2 => cases run
    obtain rfl := Option.some.inj run
    refine ⟨limited.limit, limited.nonneg, fun nonzero => ?_⟩
    have within := limited.within nonzero
    dsimp only
    omega

theorem limited_of_reaches (reaches : Reaches config m outstanding) : Limited config m := by
  induction reaches with
  | new created => exact limited_new created
  | borrow _ _ run limited => exact limited.borrow run
  | giveBack _ _ run limited => exact limited.giveBack run

/-! ## A limit of zero -/

theorem sharedLimit_eq_zero_iff (sched : config.gpgpu_frfcfs_dram_sched_queue_size ≠ 0)
    (returns : config.gpgpu_dram_return_queue_size ≠ 0) :
    sharedLimit config = 0 ↔
      config.gpgpu_frfcfs_dram_sched_queue_size + config.gpgpu_dram_return_queue_size =
        config.m_n_sub_partition_per_memory_channel - 1 := by
  have zero : ((0 : BitVec 32)).toInt = 0 := rfl
  rw [sharedLimit, if_neg (not_or.mpr ⟨sched, returns⟩), ← zero, BitVec.toInt_inj]
  exact sub_eq_zero

theorem exceeds_zero (zero : sharedLimit config = 0) (some_ : 0 < config.n) :
    ∃ m outstanding, Reaches config m outstanding ∧ m.m_shared_credit = 1 := by
  have created : ∃ m, ArbitrationMetadata.new config = some m ∧ m.m_shared_credit_limit = 0 ∧
      m.m_private_credit_limit = 1 ∧ m.m_private_credit 0 = 0 ∧ m.m_shared_credit = 0 := by
    rw [ArbitrationMetadata.new, if_pos zero.ge]
    exact ⟨_, rfl, zero, rfl, rfl, rfl⟩
  obtain ⟨m, run, limit, one, unused, none_⟩ := created
  have first : m.borrow_credit config 0 =
      some { m with m_private_credit := m.addPrivate 0 1, m_last_borrower := 0 } := by
    rw [borrow_credit, if_pos some_, if_pos (by rw [unused, one]; decide)]
    rfl
  have used : m.addPrivate 0 1 0 = 1 := by simp [addPrivate_apply, unused]
  have second : borrow_credit config
      { m with m_private_credit := m.addPrivate 0 1, m_last_borrower := 0 } 0 =
        some { m with
          m_private_credit := m.addPrivate 0 1
          m_last_borrower := 0
          m_shared_credit := m.m_shared_credit + 1 } := by
    rw [borrow_credit, if_pos some_]
    simp [used, one, limit]
  have once := @Reaches.borrow config _ _ _ 0 0 (.new run) (by simp [has_credits, limit]) first
  have twice := @Reaches.borrow config _ _ _ 1 0 once (by simp [has_credits, limit]) second
  exact ⟨_, _, twice, by simp [none_]⟩

/-- With bounded queues, the shared credits that are out stay within the limit in every run
    exactly when the limit does not come out as zero. -/
theorem shared_within_limit_iff (sched : config.gpgpu_frfcfs_dram_sched_queue_size ≠ 0)
    (returns : config.gpgpu_dram_return_queue_size ≠ 0) :
    (∀ m outstanding, Reaches config m outstanding → m.m_shared_credit ≤ sharedLimit config) ↔
      config.m_n_sub_partition_per_memory_channel = 0 ∨
        config.gpgpu_frfcfs_dram_sched_queue_size + config.gpgpu_dram_return_queue_size ≠
          config.m_n_sub_partition_per_memory_channel - 1 := by
  rw [← (sharedLimit_eq_zero_iff sched returns).ne]
  constructor
  · intro always
    by_contra neither
    obtain ⟨some_, zero⟩ := not_or.mp neither
    have positive : 0 < config.n :=
      Nat.pos_of_ne_zero fun none_ => some_ (BitVec.eq_of_toNat_eq none_)
    obtain ⟨m, outstanding, reaches, one⟩ := exceeds_zero (not_not.mp zero) positive
    have within := always m outstanding reaches
    omega
  · intro either m outstanding reaches
    cases either with
    | inl none_ =>
      -- without a sub-partition no credit is borrowed
      have balanced := balanced_of_reaches reaches
      have zero : config.n = 0 := by rw [Config.n, none_]; rfl
      rw [balanced.shared, zero, Finset.range_zero, Finset.sum_empty]
      exact (limited_of_reaches reaches).nonneg
    | inr nonzero => exact (limited_of_reaches reaches).within nonzero

/-- Four sub-partitions and queues of two and three entries: the limit is two. -/
theorem shared_within_limit_two :
    ¬ ∃ m outstanding, Reaches ⟨4, 2, 3⟩ m outstanding ∧ 2 < m.m_shared_credit := by
  intro exceeded
  obtain ⟨m, outstanding, reaches, above⟩ := exceeded
  have within : m.m_shared_credit ≤ sharedLimit ⟨4, 2, 3⟩ :=
    (@shared_within_limit_iff ⟨4, 2, 3⟩ (by decide) (by decide)).mpr (Or.inr (by decide))
      m outstanding reaches
  exact absurd within (not_le_of_gt above)

/-- Four sub-partitions, a power of two as `linear_to_raw_address_translation::init` demands, and
    queues of one and of two entries: the limit is zero, and none. -/
theorem zero_limit_exceeded : ¬ ∀ config : Config,
    config.m_n_sub_partition_per_memory_channel &&&
      (config.m_n_sub_partition_per_memory_channel - 1) = 0 →
    config.gpgpu_frfcfs_dram_sched_queue_size ≠ 0 → config.gpgpu_dram_return_queue_size ≠ 0 →
      ∀ m outstanding, Reaches config m outstanding → m.m_shared_credit ≤ sharedLimit config := by
  intro always
  have zero : sharedLimit ⟨4, 1, 2⟩ = 0 := by decide
  obtain ⟨m, outstanding, reaches, one⟩ := exceeds_zero zero (by decide)
  have within := always ⟨4, 1, 2⟩ (by decide) (by decide) (by decide) m outstanding reaches
  omega

end AesOnGpu.MemoryPartition
