import AesOnGpu.Lib.Rounding

/-! # The launch of the encryption

The geometry that `AES_CUDA` of `collector.cu` chooses and the places that a thread of `cudaRunner`
accesses.  The division and `ceil` are in single precision.
-/

namespace AesOnGpu.Aes.Launch

/-- The nearest `float`. -/
def single (q : ℚ) : ℚ := Rounding.toSignificand 24 q

def blockSize (count : Nat) : Nat := if count > 32 then 32 else count

/-- `ceil(count/(float)blockSize)`. -/
def dimGrid (count : Nat) : Nat := ⌈single (single count / single (blockSize count))⌉₊

/-- `char dummy[1*1024*1024]`. -/
def dummySize : Nat := 1 * 1024 * 1024

structure Thread (count : Nat) where
  blockIdx : Nat
  threadIdx : Nat
  inGrid : blockIdx < dimGrid count
  inBlock : threadIdx < blockSize count

/-- `blockDim.x * blockIdx.x + threadIdx.x`, as an `int`. -/
def Thread.localid {count : Nat} (thread : Thread count) : Int :=
  (BitVec.ofNat 32 (blockSize count * thread.blockIdx + thread.threadIdx)).toInt

def Covers (count : Nat) : Prop :=
  ∀ block : Nat, block < count → ∃! thread : Thread count, thread.localid = block

/-- The 16 bytes from `in + localid*16` are in the state, and `localid` is in `dummy`. -/
def Inside (count : Nat) : Prop :=
  ∀ thread : Thread count, (0 ≤ thread.localid * 16 ∧ thread.localid * 16 + 16 ≤ count * 16) ∧
    0 ≤ thread.localid ∧ thread.localid < dummySize

variable {count : Nat}

/-! ## The grid -/

theorem blockSize_pos (positive : 1 ≤ count) : 0 < blockSize count := by
  rw [blockSize]
  split <;> omega

theorem single_natCast (fits : count < 2 ^ 24) : single count = count :=
  Rounding.toSignificand_natCast fits

theorem single_mono {q q' : ℚ} (nonneg : 0 ≤ q) (less : q ≤ q') : single q ≤ single q' :=
  Rounding.toSignificand_mono (by norm_num) nonneg less

theorem single_thirtyTwo : single 32 = 32 := by
  exact_mod_cast @single_natCast 32 (by norm_num)

theorem dimGrid_small (positive : 1 ≤ count) (small : count ≤ 32) : dimGrid count = 1 := by
  have one : single 1 = 1 := by exact_mod_cast @single_natCast 1 (by norm_num)
  have nonzero : (count : ℚ) ≠ 0 := by positivity
  rw [dimGrid, blockSize, if_neg (Nat.not_lt.mpr small), single_natCast (by omega),
    div_self nonzero, one]
  exact Nat.ceil_one

theorem single_div (fits : count < 2 ^ 24) :
    single (single count / single 32) = (count / 32 : ℚ) := by
  have quotient := @Rounding.toSignificand_exact 24 count 5 fits
  norm_num at quotient
  rw [single_natCast fits, single_thirtyTwo]
  exact quotient

theorem dimGrid_large (large : 32 < count) (fits : count < 2 ^ 24) :
    dimGrid count = (count + 31) / 32 := by
  rw [dimGrid, blockSize, if_pos large]
  push_cast
  rw [single_div fits]
  apply le_antisymm
  · rw [Nat.ceil_le, div_le_iff₀ (by norm_num)]
    have enough : count ≤ (count + 31) / 32 * 32 := by omega
    exact_mod_cast enough
  · have above := Nat.le_ceil (count / 32 : ℚ)
    rw [div_le_iff₀ (by norm_num)] at above
    have above : count ≤ ⌈(count / 32 : ℚ)⌉₊ * 32 := by exact_mod_cast above
    omega

theorem dimGrid_mono {count' : Nat} (large : 32 < count) (more : count ≤ count') :
    dimGrid count ≤ dimGrid count' := by
  rw [dimGrid, dimGrid, blockSize, blockSize, if_pos large, if_pos (large.trans_le more)]
  push_cast
  rw [single_thirtyTwo]
  have counts : single count ≤ single count' := single_mono (by positivity) (by exact_mod_cast more)
  have nonneg : 0 ≤ single count := Rounding.toSignificand_nonneg (by positivity)
  apply Nat.ceil_mono
  apply single_mono (by positivity)
  gcongr

/-! ## The threads -/

theorem localid_eq (thread : Thread count)
    (few : blockSize count * thread.blockIdx + thread.threadIdx < 2 ^ 31) :
    thread.localid = (blockSize count * thread.blockIdx + thread.threadIdx : Nat) := by
  rw [Thread.localid, BitVec.toInt_eq_toNat_of_lt, BitVec.toNat_ofNat, Nat.mod_eq_of_lt (by omega)]
  rw [BitVec.toNat_ofNat, Nat.mod_eq_of_lt (by omega)]
  omega

def Fits (count : Nat) : Prop := blockSize count * dimGrid count = count ∧ count ≤ dummySize

theorem Fits.below (fits : Fits count) (thread : Thread count) :
    blockSize count * thread.blockIdx + thread.threadIdx < count := by
  have inBlock := thread.inBlock
  have inGrid := Nat.mul_le_mul_left (blockSize count) thread.inGrid
  rw [Nat.mul_succ, fits.1] at inGrid
  omega

theorem Fits.localid (fits : Fits count) (thread : Thread count) :
    thread.localid = (blockSize count * thread.blockIdx + thread.threadIdx : Nat) := by
  have below := fits.below thread
  have few : dummySize < 2 ^ 31 := by decide
  exact localid_eq thread (below.trans_le (fits.2.trans few.le))

theorem Fits.inside (fits : Fits count) : Inside count := by
  intro thread
  have below := fits.below thread
  have most := fits.2
  rw [fits.localid thread]
  omega

theorem Fits.covers (fits : Fits count) (positive : 1 ≤ count) : Covers count := by
  intro block below
  have size := blockSize_pos positive
  have inGrid : block / blockSize count < dimGrid count := by
    rw [Nat.div_lt_iff_lt_mul size, Nat.mul_comm, fits.1]
    exact below
  refine ⟨⟨block / blockSize count, block % blockSize count, inGrid, Nat.mod_lt _ size⟩, ?_, ?_⟩
  · dsimp only
    rw [fits.localid]
    exact_mod_cast Nat.div_add_mod _ _
  · intro thread here
    obtain ⟨blockIdx, threadIdx, inGrid', inBlock⟩ := thread
    rw [fits.localid] at here
    have here : blockSize count * blockIdx + threadIdx = block := by exact_mod_cast here
    subst here
    simp [Nat.mul_add_div size, Nat.div_eq_of_lt inBlock, Nat.mod_eq_of_lt inBlock]

theorem outside_of_thread {bound : Nat} (blocks : bound / 32 < dimGrid count) (large : 32 < count)
    (small : bound < 2 ^ 31) (end_ : bound = count ∨ bound = dummySize) : ¬ Inside count := by
  intro inside
  have size : blockSize count = 32 := if_pos large
  obtain ⟨state, dummy⟩ := inside ⟨bound / 32, bound % 32, blocks, by rw [size]; omega⟩
  have number : blockSize count * (bound / 32) + bound % 32 = bound := by
    rw [size, Nat.div_add_mod]
  rw [localid_eq _ (by dsimp only; omega)] at state dummy
  dsimp only at state dummy
  rw [number] at state dummy
  cases end_ with
  | inl atCount => omega
  | inr atDummy => omega

/-- The launch covers the blocks and stays inside exactly for up to 32 blocks and for multiples of
    32 blocks that `dummy` has room for. -/
theorem geometry_iff (positive : 1 ≤ count) :
    Covers count ∧ Inside count ↔ count ≤ 32 ∨ count % 32 = 0 ∧ count ≤ dummySize := by
  constructor
  · intro both
    by_contra neither
    obtain ⟨large, notFull⟩ := not_or.mp neither
    have large : 32 < count := Nat.not_le.mp large
    by_cases much : dummySize < count
    · have grid : dimGrid (dummySize + 1) = (dummySize + 1 + 31) / 32 :=
        dimGrid_large (by decide) (by decide)
      have more := @dimGrid_mono (dummySize + 1) count (by decide) much
      refine @outside_of_thread count dummySize ?_ large (by decide) (Or.inr rfl) both.2
      rw [grid] at more
      exact Nat.lt_of_lt_of_le (by decide) more
    · have some_ : count % 32 ≠ 0 := fun none_ => notFull ⟨none_, Nat.not_lt.mp much⟩
      have few : dummySize < 2 ^ 24 := by decide
      refine @outside_of_thread count count ?_ large (by omega) (Or.inl rfl) both.2
      rw [dimGrid_large large (by omega)]
      omega
  · intro either
    have fits : Fits count := by
      cases either with
      | inl small =>
        have limit : 32 ≤ dummySize := by decide
        refine ⟨?_, small.trans limit⟩
        rw [dimGrid_small positive small, blockSize, if_neg (Nat.not_lt.mpr small), Nat.mul_one]
      | inr full =>
        refine ⟨?_, full.2⟩
        by_cases small : count ≤ 32
        · rw [dimGrid_small positive small, blockSize, if_neg (Nat.not_lt.mpr small), Nat.mul_one]
        · have few : dummySize < 2 ^ 24 := by decide
          have large := Nat.not_le.mp small
          rw [dimGrid_large large (full.2.trans_lt few), blockSize, if_pos large]
          omega
    exact ⟨fits.covers positive, fits.inside⟩

/-- 64 blocks are two blocks of threads. -/
theorem geometry_two_blocks : Covers 64 ∧ Inside 64 :=
  (@geometry_iff 64 (by decide)).mpr (Or.inr (by decide))

/-- 33 blocks: 31 threads of the second block have no block of the plaintext. -/
theorem threads_beyond_the_state : ¬ ∀ count, 1 ≤ count → Covers count ∧ Inside count := by
  intro always
  have inside := (always 33 (by decide)).2
  have grid : dimGrid 33 = 2 := dimGrid_large (by decide) (by decide)
  exact @outside_of_thread 33 33 (by rw [grid]; decide) (by decide) (by decide)
    (Or.inl rfl) inside

end AesOnGpu.Aes.Launch
