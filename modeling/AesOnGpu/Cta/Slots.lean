import Mathlib

/-! # Slots for thread blocks

A core gives the block in slot `hw_cta_id` the hardware threads from
`hw_cta_id * padded_cta_size` on, and `ptx_sim_init_thread` names the block by an index
that it computes from the first of these threads and the size without padding.
-/

namespace AesOnGpu.Cta

/-- `num_shader` is `gpgpu_param_num_shaders` as well. -/
structure ShaderConfig where
  num_shader : Nat
  warp_size : Nat
  shader_pos : 0 < num_shader
  warp_pos : 0 < warp_size

namespace ShaderConfig

variable (config : ShaderConfig)

def padded_cta_size (cta_size : Nat) : Nat :=
  if cta_size % config.warp_size ≠ 0 then
    (cta_size / config.warp_size + 1) * config.warp_size
  else cta_size

def start_thread (cta_size hw_cta_id : Nat) : Nat :=
  hw_cta_id * config.padded_cta_size cta_size

/-- `sm_idx`, for a block whose first hardware thread is `tid`. -/
def sm_idx (sid cta_size tid : Nat) : Nat :=
  tid / cta_size * config.num_shader + sid

theorem le_padded_cta_size (cta_size : Nat) : cta_size ≤ config.padded_cta_size cta_size := by
  unfold padded_cta_size
  split
  next =>
    have hdiv := Nat.div_add_mod cta_size config.warp_size
    have hmod := Nat.mod_lt cta_size config.warp_pos
    rw [Nat.add_mul, one_mul, Nat.mul_comm]
    omega
  next => exact le_rfl

theorem warp_size_dvd_padded_cta_size (cta_size : Nat) :
    config.warp_size ∣ config.padded_cta_size cta_size := by
  unfold padded_cta_size
  split
  next => exact Nat.dvd_mul_left _ _
  next haligned => exact Nat.dvd_of_mod_eq_zero (not_not.mp haligned)

theorem warp_size_dvd_start_thread (cta_size hw_cta_id : Nat) :
    config.warp_size ∣ config.start_thread cta_size hw_cta_id :=
  (config.warp_size_dvd_padded_cta_size cta_size).mul_left _

theorem start_thread_div_lt {cta_size slot slot' : Nat} (hsize : 0 < cta_size)
    (hlt : slot < slot') :
    config.start_thread cta_size slot / cta_size <
      config.start_thread cta_size slot' / cta_size := by
  have hpadded := config.le_padded_cta_size cta_size
  have hnext : config.start_thread cta_size slot + cta_size ≤
      config.start_thread cta_size slot' := by
    calc config.start_thread cta_size slot + cta_size
        ≤ slot * config.padded_cta_size cta_size + config.padded_cta_size cta_size :=
          Nat.add_le_add_left hpadded _
      _ = (slot + 1) * config.padded_cta_size cta_size := by rw [Nat.succ_mul]
      _ ≤ config.start_thread cta_size slot' := Nat.mul_le_mul_right _ hlt
  calc config.start_thread cta_size slot / cta_size
      < config.start_thread cta_size slot / cta_size + 1 := Nat.lt_succ_self _
    _ = (config.start_thread cta_size slot + cta_size) / cta_size :=
      (Nat.add_div_right _ hsize).symm
    _ ≤ config.start_thread cta_size slot' / cta_size := Nat.div_le_div_right hnext

theorem start_thread_add_inj {cta_size slot slot' i i' : Nat}
    (hi : i < config.padded_cta_size cta_size) (hi' : i' < config.padded_cta_size cta_size)
    (heq : config.start_thread cta_size slot + i = config.start_thread cta_size slot' + i') :
    slot = slot' ∧ i = i' := by
  have hpos : 0 < config.padded_cta_size cta_size := Nat.zero_lt_of_lt hi
  have hslot : ∀ c j, j < config.padded_cta_size cta_size →
      (config.start_thread cta_size c + j) / config.padded_cta_size cta_size = c := by
    intro c j hj
    rw [start_thread, Nat.mul_comm, Nat.mul_add_div hpos, Nat.div_eq_of_lt hj, Nat.add_zero]
  have hsame : slot = slot' := by rw [← hslot slot i hi, heq, hslot slot' i' hi']
  subst hsame
  exact ⟨rfl, Nat.add_left_cancel heq⟩

theorem sm_idx_start_thread_inj {sid cta_size slot slot' : Nat} (hsize : 0 < cta_size)
    (heq : config.sm_idx sid cta_size (config.start_thread cta_size slot) =
      config.sm_idx sid cta_size (config.start_thread cta_size slot')) : slot = slot' := by
  have hdiv := Nat.eq_of_mul_eq_mul_right config.shader_pos (Nat.add_right_cancel heq)
  cases lt_trichotomy slot slot' with
  | inl hlt => exact absurd hdiv (config.start_thread_div_lt hsize hlt).ne
  | inr hrest =>
    cases hrest with
    | inl hsame => exact hsame
    | inr hgt => exact absurd hdiv.symm (config.start_thread_div_lt hsize hgt).ne

theorem sm_idx_sid {sid sid' cta_size cta_size' tid tid' : Nat} (hsid : sid < config.num_shader)
    (hsid' : sid' < config.num_shader)
    (heq : config.sm_idx sid cta_size tid = config.sm_idx sid' cta_size' tid') : sid = sid' := by
  have hmod := congrArg (· % config.num_shader) heq
  simpa [sm_idx, Nat.mod_eq_of_lt hsid, Nat.mod_eq_of_lt hsid'] using hmod

end ShaderConfig

end AesOnGpu.Cta
