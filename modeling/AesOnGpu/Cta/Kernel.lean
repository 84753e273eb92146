import Mathlib

/-! # Kernels and their odometers

`kernel_info_t` hands out the next thread block and, inside a block, the next thread by
counting one `dim3` up to another. A position is reached from zero by one number of steps
only, so that the counters are described by this number.
-/

namespace AesOnGpu.Cta

/-- `dim3` -/
structure Dim3 where
  x : Nat
  y : Nat
  z : Nat
deriving DecidableEq, Repr

namespace Dim3

def zero : Dim3 := ⟨0, 0, 0⟩

def size (bound : Dim3) : Nat :=
  bound.x * bound.y * bound.z

/-- The product that `num_blocks` and `threads_per_cta` compute, of `unsigned`s. -/
def product (bound : Dim3) : Nat :=
  bound.size % 2 ^ 32

def increment_x_then_y_then_z (i bound : Dim3) : Dim3 :=
  if bound.x ≤ i.x + 1 then
    if bound.y ≤ i.y + 1 then
      ⟨0, 0, if i.z < bound.z then i.z + 1 else i.z⟩
    else ⟨0, i.y + 1, i.z⟩
  else ⟨i.x + 1, i.y, i.z⟩

def Within (i bound : Dim3) : Prop :=
  i.x < bound.x ∧ i.y < bound.y ∧ i.z < bound.z

instance (i bound : Dim3) : Decidable (i.Within bound) :=
  inferInstanceAs (Decidable (_ ∧ _ ∧ _))

/-- Dimensions that are all at least 1, with a product of 32 bits. -/
structure Proper (bound : Dim3) : Prop where
  x_pos : 0 < bound.x
  y_pos : 0 < bound.y
  z_pos : 0 < bound.z
  fits : bound.size < 2 ^ 32

/-- The number of a position, `x` first. -/
def linear (i bound : Dim3) : Nat :=
  i.x + bound.x * i.y + bound.x * bound.y * i.z

/-- The position after `n` steps. -/
def nth (bound : Dim3) (n : Nat) : Dim3 :=
  ⟨n % bound.x, n / bound.x % bound.y, n / bound.x / bound.y⟩

@[simp] theorem nth_zero (bound : Dim3) : bound.nth 0 = zero := by
  simp [nth, zero]

theorem size_pos_iff (bound : Dim3) :
    0 < bound.size ↔ 0 < bound.x ∧ 0 < bound.y ∧ 0 < bound.z := by
  simp only [size, Nat.pos_iff_ne_zero, ne_eq, Nat.mul_eq_zero, not_or, and_assoc]

theorem Proper.product_eq {bound : Dim3} (hproper : bound.Proper) : bound.product = bound.size :=
  Nat.mod_eq_of_lt hproper.fits

theorem Proper.size_pos {bound : Dim3} (hproper : bound.Proper) : 0 < bound.size :=
  bound.size_pos_iff.mpr ⟨hproper.x_pos, hproper.y_pos, hproper.z_pos⟩

theorem nth_within (bound : Dim3) (n : Nat) : (bound.nth n).Within bound ↔ n < bound.size := by
  have hz (hx : 0 < bound.x) (hy : 0 < bound.y) : (bound.nth n).z < bound.z ↔ n < bound.size := by
    show n / bound.x / bound.y < bound.z ↔ n < bound.x * bound.y * bound.z
    rw [Nat.div_div_eq_div_mul, Nat.div_lt_iff_lt_mul (Nat.mul_pos hx hy), Nat.mul_comm bound.z]
  constructor
  · intro hwithin
    exact (hz (Nat.zero_lt_of_lt hwithin.1) (Nat.zero_lt_of_lt hwithin.2.1)).mp hwithin.2.2
  · intro hn
    obtain ⟨hx, hy, _⟩ := bound.size_pos_iff.mp (Nat.zero_lt_of_lt hn)
    exact ⟨Nat.mod_lt _ hx, Nat.mod_lt _ hy, (hz hx hy).mpr hn⟩

/-- One digit of a counter: a step either moves it up or starts it again. -/
private theorem digit_step {bound n : Nat} (hbound : 0 < bound) :
    (n % bound + 1 < bound ∧ (n + 1) % bound = n % bound + 1 ∧ (n + 1) / bound = n / bound) ∨
      (bound ≤ n % bound + 1 ∧ (n + 1) % bound = 0 ∧ (n + 1) / bound = n / bound + 1) := by
  have hlt := Nat.mod_lt n hbound
  have hdiv := Nat.div_add_mod n bound
  by_cases hcarry : n % bound + 1 < bound
  · have hsplit : n + 1 = n % bound + 1 + bound * (n / bound) := by omega
    refine Or.inl ⟨hcarry, ?_, ?_⟩
    · rw [hsplit, Nat.add_mul_mod_self_left, Nat.mod_eq_of_lt hcarry]
    · rw [hsplit, Nat.add_mul_div_left _ _ hbound, Nat.div_eq_of_lt hcarry, Nat.zero_add]
  · have hsplit : n + 1 = bound * (n / bound + 1) := by
      rw [Nat.mul_succ]
      omega
    refine Or.inr ⟨by omega, ?_, ?_⟩
    · rw [hsplit, Nat.mul_mod_right]
    · rw [hsplit, Nat.mul_div_cancel_left _ hbound]

theorem increment_of_x_lt {i bound : Dim3} (hx : i.x + 1 < bound.x) :
    i.increment_x_then_y_then_z bound = ⟨i.x + 1, i.y, i.z⟩ :=
  if_neg (Nat.not_le.mpr hx)

theorem increment_of_y_lt {i bound : Dim3} (hx : bound.x ≤ i.x + 1) (hy : i.y + 1 < bound.y) :
    i.increment_x_then_y_then_z bound = ⟨0, i.y + 1, i.z⟩ := by
  rw [increment_x_then_y_then_z, if_pos hx, if_neg (Nat.not_le.mpr hy)]

theorem increment_of_z_lt {i bound : Dim3} (hx : bound.x ≤ i.x + 1) (hy : bound.y ≤ i.y + 1)
    (hz : i.z < bound.z) : i.increment_x_then_y_then_z bound = ⟨0, 0, i.z + 1⟩ := by
  rw [increment_x_then_y_then_z, if_pos hx, if_pos hy, if_pos hz]

theorem increment_nth {bound : Dim3} {n : Nat} (hn : n < bound.size) :
    (bound.nth n).increment_x_then_y_then_z bound = bound.nth (n + 1) := by
  obtain ⟨hx, hy, _⟩ := bound.size_pos_iff.mp (Nat.zero_lt_of_lt hn)
  have hz : (bound.nth n).z < bound.z := ((bound.nth_within n).mpr hn).2.2
  cases digit_step (n := n) hx with
  | inl hstay =>
      rw [increment_of_x_lt hstay.1]
      simp only [nth, hstay.2.1, hstay.2.2]
  | inr hcarry =>
      -- the carry makes one step of the counter of the upper two digits
      cases digit_step (n := n / bound.x) hy with
      | inl hstay =>
          rw [increment_of_y_lt hcarry.1 hstay.1]
          simp only [nth, hcarry.2.1, hcarry.2.2, hstay.2.1, hstay.2.2]
      | inr hcarry' =>
          rw [increment_of_z_lt hcarry.1 hcarry'.1 hz]
          simp only [nth, hcarry.2.1, hcarry.2.2, hcarry'.2.1, hcarry'.2.2]

theorem linear_nth (bound : Dim3) (n : Nat) : (bound.nth n).linear bound = n := by
  simp only [linear, nth]
  rw [Nat.mul_assoc, Nat.add_assoc, ← Nat.mul_add, Nat.mod_add_div, Nat.mod_add_div]

theorem linear_lt {i bound : Dim3} (hwithin : i.Within bound) :
    i.linear bound < bound.size := by
  obtain ⟨hx, hy, hz⟩ := hwithin
  have hlow : i.x + bound.x * i.y < bound.x * bound.y := by
    calc i.x + bound.x * i.y < bound.x + bound.x * i.y := Nat.add_lt_add_right hx _
      _ = bound.x * (i.y + 1) := by rw [Nat.mul_succ, Nat.add_comm]
      _ ≤ bound.x * bound.y := Nat.mul_le_mul_left _ hy
  calc i.linear bound < bound.x * bound.y + bound.x * bound.y * i.z :=
        Nat.add_lt_add_right hlow _
    _ = bound.x * bound.y * (i.z + 1) := by rw [Nat.mul_succ, Nat.add_comm]
    _ ≤ bound.x * bound.y * bound.z := Nat.mul_le_mul_left _ hz

theorem nth_linear {i bound : Dim3} (hwithin : i.Within bound) :
    bound.nth (i.linear bound) = i := by
  obtain ⟨hx, hy, _⟩ := hwithin
  have hx' : 0 < bound.x := Nat.zero_lt_of_lt hx
  have hlinear : i.linear bound = i.x + bound.x * (i.y + bound.y * i.z) := by
    rw [linear, Nat.mul_add, Nat.mul_assoc, Nat.add_assoc]
  have hupper : i.linear bound / bound.x = i.y + bound.y * i.z := by
    rw [hlinear, Nat.add_mul_div_left _ _ hx', Nat.div_eq_of_lt hx, Nat.zero_add]
  simp only [nth, hupper]
  rw [hlinear, Nat.add_mul_mod_self_left, Nat.mod_eq_of_lt hx, Nat.add_mul_mod_self_left,
    Nat.mod_eq_of_lt hy, Nat.add_mul_div_left _ _ (Nat.zero_lt_of_lt hy),
    Nat.div_eq_of_lt hy, Nat.zero_add]

theorem nth_injective {bound : Dim3} {n n' : Nat} (heq : bound.nth n = bound.nth n') :
    n = n' := by
  rw [← linear_nth bound n, heq, linear_nth]

theorem within_iff (i bound : Dim3) : i.Within bound ↔ ∃ n < bound.size, bound.nth n = i := by
  constructor
  · exact fun hwithin => ⟨i.linear bound, linear_lt hwithin, nth_linear hwithin⟩
  · rintro ⟨n, hn, rfl⟩
    exact (bound.nth_within n).mpr hn

end Dim3

/-- `kernel_info_t`. `smem` and `regs` are what `ptx_sim_kernel_info` gives of its entry. -/
structure KernelInfo where
  m_grid_dim : Dim3
  m_block_dim : Dim3
  smem : Nat
  regs : Nat
  m_next_cta : Dim3
  m_next_tid : Dim3
  m_num_cores_running : Nat
  m_active_threads : List Nat
deriving DecidableEq

namespace KernelInfo

/-- `kernel_info_t::kernel_info_t` -/
def new (gridDim blockDim : Dim3) (smem regs : Nat) : KernelInfo where
  m_grid_dim := gridDim
  m_block_dim := blockDim
  smem := smem
  regs := regs
  m_next_cta := Dim3.zero
  m_next_tid := Dim3.zero
  m_num_cores_running := 0
  m_active_threads := []

instance : Inhabited KernelInfo :=
  ⟨new Dim3.zero Dim3.zero 0 0⟩

variable (k : KernelInfo)

def num_blocks : Nat := k.m_grid_dim.product

def threads_per_cta : Nat := k.m_block_dim.product

def inc_running : KernelInfo :=
  { k with m_num_cores_running := k.m_num_cores_running + 1 }

/-- Fails when its assertion does. -/
def dec_running : Option KernelInfo :=
  if 0 < k.m_num_cores_running then
    some { k with m_num_cores_running := k.m_num_cores_running - 1 }
  else none

def running : Bool := decide (0 < k.m_num_cores_running)

def no_more_ctas_to_run : Bool :=
  decide (k.m_grid_dim.x ≤ k.m_next_cta.x ∨ k.m_grid_dim.y ≤ k.m_next_cta.y ∨
    k.m_grid_dim.z ≤ k.m_next_cta.z)

def done : Bool := k.no_more_ctas_to_run && !k.running

def increment_cta_id : KernelInfo :=
  { k with
    m_next_cta := k.m_next_cta.increment_x_then_y_then_z k.m_grid_dim
    m_next_tid := Dim3.zero }

def increment_thread_id : KernelInfo :=
  { k with m_next_tid := k.m_next_tid.increment_x_then_y_then_z k.m_block_dim }

def get_next_thread_id : Nat := k.m_next_tid.linear k.m_block_dim % 2 ^ 32

def more_threads_in_cta : Bool :=
  decide (k.m_next_tid.z < k.m_block_dim.z ∧ k.m_next_tid.y < k.m_block_dim.y ∧
    k.m_next_tid.x < k.m_block_dim.x)

/-- A kernel between two calls of `issue_block2core`, with its first `issued` blocks handed
out. -/
structure Settled (issued : Nat) : Prop where
  block : k.m_block_dim.Proper
  issued_le : issued ≤ k.m_grid_dim.size
  next_cta : k.m_next_cta = k.m_grid_dim.nth issued
  next_tid : k.m_next_tid = Dim3.zero
  no_active : k.m_active_threads = []

theorem no_more_ctas_to_run_iff :
    k.no_more_ctas_to_run = true ↔ ¬ k.m_next_cta.Within k.m_grid_dim := by
  simp only [no_more_ctas_to_run, Dim3.Within, decide_eq_true_eq]
  omega

theorem more_threads_in_cta_iff :
    k.more_threads_in_cta = true ↔ k.m_next_tid.Within k.m_block_dim := by
  simp only [more_threads_in_cta, Dim3.Within, decide_eq_true_eq]
  tauto

variable {k}

theorem Settled.no_more_iff {issued : Nat} (hsettled : k.Settled issued) :
    k.no_more_ctas_to_run = true ↔ issued = k.m_grid_dim.size := by
  have hle := hsettled.issued_le
  rw [no_more_ctas_to_run_iff, hsettled.next_cta, Dim3.nth_within]
  omega

theorem Settled.more_iff {issued : Nat} (hsettled : k.Settled issued) :
    k.no_more_ctas_to_run = false ↔ issued < k.m_grid_dim.size := by
  have hle := hsettled.issued_le
  rw [← Bool.not_eq_true, hsettled.no_more_iff]
  omega

theorem Settled.threads_eq {issued : Nat} (hsettled : k.Settled issued) :
    k.threads_per_cta = k.m_block_dim.size :=
  hsettled.block.product_eq

theorem Settled.threads_pos {issued : Nat} (hsettled : k.Settled issued) :
    0 < k.threads_per_cta :=
  hsettled.threads_eq ▸ hsettled.block.size_pos

theorem settled_new (gridDim : Dim3) {blockDim : Dim3} (hblock : blockDim.Proper)
    (smem regs : Nat) : (new gridDim blockDim smem regs).Settled 0 where
  block := hblock
  issued_le := Nat.zero_le _
  next_cta := by simp [new]
  next_tid := rfl
  no_active := rfl

theorem Settled.increment_cta_id {issued : Nat} (hsettled : k.Settled issued)
    (hmore : issued < k.m_grid_dim.size) : k.increment_cta_id.Settled (issued + 1) where
  block := hsettled.block
  issued_le := hmore
  next_cta := by
    show k.m_next_cta.increment_x_then_y_then_z k.m_grid_dim = k.m_grid_dim.nth (issued + 1)
    rw [hsettled.next_cta, Dim3.increment_nth hmore]
  next_tid := rfl
  no_active := hsettled.no_active

theorem Settled.of_running {issued : Nat} (hsettled : k.Settled issued) (running : Nat) :
    { k with m_num_cores_running := running }.Settled issued :=
  ⟨hsettled.block, hsettled.issued_le, hsettled.next_cta, hsettled.next_tid, hsettled.no_active⟩

end KernelInfo

end AesOnGpu.Cta
