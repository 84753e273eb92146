import AesOnGpu.Aes.Words

/-! # The victim's key schedule

For each key size `AES_set_encrypt_key` writes the words of the key expansion, one
after the other.
-/

namespace AesOnGpu.Aes

open Fips197 (Byte Word sBox keyExpansion subWord rotWord xPower)

def packWord (w : Word) : U32 := packU32 (w 0) (w 1) (w 2) (w 3)

theorem packWord_xor (v w : Word) : packWord (fun j => v j ^^^ w j) = packWord v ^^^ packWord w := by
  rw [packWord, packWord, packWord, packU32_xor]

def scheduleWord (nk : Nat) (key : Nat → Word) (n : Nat) : U32 := packWord (keyExpansion nk key n)

/-! ## The recurrence -/

section Recurrence

variable {nk n : Nat} {key : Nat → Word}

theorem scheduleWord_next (positive : 0 < nk) (above : nk ≤ n) : scheduleWord nk key n =
    scheduleWord nk key (n - nk) ^^^ packWord (Fips197.temp nk n (keyExpansion nk key (n - 1))) := by
  rw [scheduleWord, Fips197.keyExpansion_next positive above, packWord_xor]
  rfl

theorem scheduleWord_xor (positive : 0 < nk) (above : nk ≤ n) (inner : n % nk ≠ 0)
    (unsubstituted : nk ≤ 6 ∨ n % nk ≠ 4) :
    scheduleWord nk key n = scheduleWord nk key (n - nk) ^^^ scheduleWord nk key (n - 1) := by
  rw [scheduleWord_next positive above, Fips197.temp, if_neg inner, if_neg (by omega)]
  rfl

theorem scheduleWord_rotated (positive : 0 < nk) (above : nk ≤ n) (first : n % nk = 0) :
    scheduleWord nk key n = scheduleWord nk key (n - nk) ^^^
      packWord (subWord (rotWord (keyExpansion nk key (n - 1)))) ^^^
        packU32 (xPower (n / nk - 1)) 0#8 0#8 0#8 := by
  rw [scheduleWord_next positive above, Fips197.temp, if_pos first, packWord_xor, BitVec.xor_assoc]
  rfl

theorem scheduleWord_substituted (above : 8 ≤ n) (fifth : n % 8 = 4) :
    scheduleWord 8 key n = scheduleWord 8 key (n - 8) ^^^
      packWord (subWord (keyExpansion 8 key (n - 1))) := by
  rw [scheduleWord_next (by omega) above, Fips197.temp, if_neg (by omega), if_pos ⟨by omega, fifth⟩]

end Recurrence

/-! ## Writing the words -/

/-- The first `n` words are written. -/
def Written (rk : RdKey) (word : Nat → U32) (n : Nat) : Prop := ∀ i < n, rk[i]? = some (word i)

section Writing

variable {rk : RdKey} {word : Nat → U32} {n : Nat}

theorem put_spec (written : Written rk word n) (room : n < 60) :
    ∃ rk', rk.put n (word n) = some rk' ∧ Written rk' word (n + 1) := by
  refine ⟨_, dif_pos room, ?_⟩
  intro i below
  rw [Vector.getElem?_set room]
  split
  · rename_i same
    rw [same]
  · exact written i (by omega)

theorem xorInto_spec (written : Written rk word n) (room : n < 60) {a b : Nat} (ha : a < n)
    (hb : b < n) (eq : word n = word a ^^^ word b) :
    ∃ rk', xorInto rk n a b = some rk' ∧ Written rk' word (n + 1) := by
  obtain ⟨rk', put, written'⟩ := put_spec written room
  refine ⟨rk', ?_, written'⟩
  rw [xorInto, written a ha, written b hb, ← put, eq]
  rfl

theorem rotatedInto_spec (written : Written rk word n) (room : n < 60) {a last i : Nat} {w : Word}
    (ha : a < n) (before : last < n) (temp : word last = packWord w) (turn : i < 10)
    (eq : word n = word a ^^^ packWord (subWord (rotWord w)) ^^^ packU32 (xPower i) 0#8 0#8 0#8) :
    ∃ rk', rotatedInto rk n a last i = some rk' ∧ Written rk' word (n + 1) := by
  obtain ⟨rk', put, written'⟩ := put_spec written room
  refine ⟨rk', ?_, written'⟩
  rw [rotatedInto, written a ha, written last before, temp, packWord, rcon_spec turn, ← put, eq]
  simp [te4Bytes_spec, packWord, subWord, rotWord]

theorem substitutedInto_spec (written : Written rk word n) (room : n < 60) {a last : Nat} {w : Word}
    (ha : a < n) (before : last < n) (temp : word last = packWord w)
    (eq : word n = word a ^^^ packWord (subWord w)) :
    ∃ rk', substitutedInto rk n a last = some rk' ∧ Written rk' word (n + 1) := by
  obtain ⟨rk', put, written'⟩ := put_spec written room
  refine ⟨rk', ?_, written'⟩
  rw [substitutedInto, written a ha, written last before, temp, packWord, ← put, eq]
  simp [te4Bytes_spec, packWord, subWord]

end Writing

/-! ## The loops

A turn of the loop for `nk` words starts `base` words into the schedule. -/

section Loops

variable {rk : RdKey} {key : Nat → Word}

theorem turn_xor {nk base target : Nat} (written : Written rk (scheduleWord nk key) (base + target))
    (aligned : base % nk = 0) (above : nk < target) (below : target < 2 * nk)
    (unsubstituted : nk ≤ 6 ∨ target ≠ nk + 4) (room : base + target < 60) :
    ∃ rk', xorInto rk (base + target) (base + (target - nk)) (base + (target - 1)) = some rk' ∧
      Written rk' (scheduleWord nk key) (base + target + 1) := by
  have place : (base + target) % nk = target - nk := by
    rw [Nat.add_mod, aligned, Nat.zero_add, Nat.mod_mod, Nat.mod_eq_sub_mod (by omega),
      Nat.mod_eq_of_lt (by omega)]
  apply xorInto_spec written room (by omega) (by omega)
  rw [scheduleWord_xor (by omega) (by omega) (by omega) (by omega)]
  congr 2 <;> omega

theorem turn_rotated {nk i : Nat} (positive : 0 < nk)
    (written : Written rk (scheduleWord nk key) (nk * i + nk)) (turn : i < 10)
    (room : nk * i + nk < 60) :
    ∃ rk', rotatedInto rk (nk * i + nk) (nk * i) (nk * i + (nk - 1)) i = some rk' ∧
      Written rk' (scheduleWord nk key) (nk * i + nk + 1) := by
  apply rotatedInto_spec written room (by omega) (by omega) rfl turn
  have number : (nk * i + nk) / nk - 1 = i := by
    rw [← Nat.mul_succ, Nat.mul_div_cancel_left _ positive]
    rfl
  have aligned : (nk * i + nk) % nk = 0 := by
    rw [← Nat.mul_succ, Nat.mul_mod_right]
  rw [scheduleWord_rotated positive (by omega) aligned, number, Nat.add_sub_cancel,
    Nat.add_sub_assoc (by omega)]

theorem expand128_spec {fuel i : Nat} (turns : i + fuel = 10) (more : 0 < fuel)
    (written : Written rk (scheduleWord 4 key) (4 * i + 4)) :
    ∃ rk', expand128 fuel i (4 * i) rk = some rk' ∧ Written rk' (scheduleWord 4 key) 44 := by
  induction fuel generalizing i rk with
  | zero => exact absurd more (Nat.lt_irrefl 0)
  | succ fuel ih =>
    have aligned : 4 * i % 4 = 0 := Nat.mul_mod_right 4 i
    obtain ⟨rk4, eq4, written⟩ := turn_rotated (by omega) written (by omega) (by omega)
    obtain ⟨rk5, eq5, written⟩ := @turn_xor _ _ _ _ 5 written aligned (by omega) (by omega)
      (by omega) (by omega)
    obtain ⟨rk6, eq6, written⟩ := @turn_xor _ _ _ _ 6 written aligned (by omega) (by omega)
      (by omega) (by omega)
    obtain ⟨rk7, eq7, written⟩ := @turn_xor _ _ _ _ 7 written aligned (by omega) (by omega)
      (by omega) (by omega)
    simp only [expand128, Option.bind_eq_bind, eq4, eq5, eq6, eq7, Option.bind_some]
    split
    · rename_i last
      obtain rfl : i = 9 := by omega
      exact ⟨rk7, rfl, written⟩
    · exact ih (by omega) (by omega) written

theorem expand192_spec {fuel i : Nat} (turns : i + fuel = 8) (more : 0 < fuel)
    (written : Written rk (scheduleWord 6 key) (6 * i + 6)) :
    ∃ rk', expand192 fuel i (6 * i) rk = some rk' ∧ Written rk' (scheduleWord 6 key) 52 := by
  induction fuel generalizing i rk with
  | zero => exact absurd more (Nat.lt_irrefl 0)
  | succ fuel ih =>
    have aligned : 6 * i % 6 = 0 := Nat.mul_mod_right 6 i
    obtain ⟨rk6, eq6, written⟩ := turn_rotated (by omega) written (by omega) (by omega)
    obtain ⟨rk7, eq7, written⟩ := @turn_xor _ _ _ _ 7 written aligned (by omega) (by omega)
      (by omega) (by omega)
    obtain ⟨rk8, eq8, written⟩ := @turn_xor _ _ _ _ 8 written aligned (by omega) (by omega)
      (by omega) (by omega)
    obtain ⟨rk9, eq9, written⟩ := @turn_xor _ _ _ _ 9 written aligned (by omega) (by omega)
      (by omega) (by omega)
    simp only [expand192, Option.bind_eq_bind, eq6, eq7, eq8, eq9, Option.bind_some]
    split
    · rename_i last
      obtain rfl : i = 7 := by omega
      exact ⟨rk9, rfl, written⟩
    · obtain ⟨rk10, eq10, written⟩ := @turn_xor _ _ _ _ 10 written aligned (by omega) (by omega)
        (by omega) (by omega)
      obtain ⟨rk11, eq11, written⟩ := @turn_xor _ _ _ _ 11 written aligned (by omega) (by omega)
        (by omega) (by omega)
      simp only [eq10, eq11, Option.bind_some]
      exact ih (by omega) (by omega) written

theorem turn_substituted {base : Nat} (written : Written rk (scheduleWord 8 key) (base + 12))
    (aligned : base % 8 = 0) (room : base + 12 < 60) :
    ∃ rk', substitutedInto rk (base + 12) (base + 4) (base + 11) = some rk' ∧
      Written rk' (scheduleWord 8 key) (base + 13) := by
  apply substitutedInto_spec written room (by omega) (by omega) rfl
  rw [scheduleWord_substituted (by omega) (by omega)]
  rfl

theorem expand256_spec {fuel i : Nat} (turns : i + fuel = 7) (more : 0 < fuel)
    (written : Written rk (scheduleWord 8 key) (8 * i + 8)) :
    ∃ rk', expand256 fuel i (8 * i) rk = some rk' ∧ Written rk' (scheduleWord 8 key) 60 := by
  induction fuel generalizing i rk with
  | zero => exact absurd more (Nat.lt_irrefl 0)
  | succ fuel ih =>
    have aligned : 8 * i % 8 = 0 := Nat.mul_mod_right 8 i
    obtain ⟨rk8, eq8, written⟩ := turn_rotated (by omega) written (by omega) (by omega)
    obtain ⟨rk9, eq9, written⟩ := @turn_xor _ _ _ _ 9 written aligned (by omega) (by omega)
      (by omega) (by omega)
    obtain ⟨rk10, eq10, written⟩ := @turn_xor _ _ _ _ 10 written aligned (by omega) (by omega)
      (by omega) (by omega)
    obtain ⟨rk11, eq11, written⟩ := @turn_xor _ _ _ _ 11 written aligned (by omega) (by omega)
      (by omega) (by omega)
    simp only [expand256, Option.bind_eq_bind, eq8, eq9, eq10, eq11, Option.bind_some]
    split
    · rename_i last
      obtain rfl : i = 6 := by omega
      exact ⟨rk11, rfl, written⟩
    · obtain ⟨rk12, eq12, written⟩ := turn_substituted written aligned (by omega)
      obtain ⟨rk13, eq13, written⟩ := @turn_xor _ _ _ _ 13 written aligned (by omega) (by omega)
        (by omega) (by omega)
      obtain ⟨rk14, eq14, written⟩ := @turn_xor _ _ _ _ 14 written aligned (by omega) (by omega)
        (by omega) (by omega)
      obtain ⟨rk15, eq15, written⟩ := @turn_xor _ _ _ _ 15 written aligned (by omega) (by omega)
        (by omega) (by omega)
      simp only [eq12, eq13, eq14, eq15, Option.bind_some]
      exact ih (by omega) (by omega) written

end Loops

/-! ## The key -/

theorem GETU32_spec {buffer : Buffer} {pt : Nat} (room : pt + 4 ≤ buffer.size) :
    GETU32 buffer pt = some (packU32 (buffer.bytes pt) (buffer.bytes (pt + 1))
      (buffer.bytes (pt + 2)) (buffer.bytes (pt + 3))) := by
  have load (i : Nat) (inside : i < buffer.size) : buffer.load i = some (buffer.bytes i) :=
    if_pos inside
  rw [GETU32, load pt (by omega), load (pt + 1) (by omega), load (pt + 2) (by omega),
    load (pt + 3) (by omega)]
  rfl

theorem loadWord_spec {nk i : Nat} {userKey : Buffer} {rk : RdKey}
    (written : Written rk (scheduleWord nk (Fips197.words userKey.bytes)) i)
    (size : 4 * nk ≤ userKey.size) (below : i < nk) (small : nk ≤ 8) :
    ∃ rk', loadWord userKey rk i = some rk' ∧
      Written rk' (scheduleWord nk (Fips197.words userKey.bytes)) (i + 1) := by
  obtain ⟨rk', put, written'⟩ := put_spec written (by omega)
  refine ⟨rk', ?_, written'⟩
  rw [loadWord, GETU32_spec (by omega), ← put, scheduleWord, Fips197.keyExpansion_key below]
  rfl

/-- For each key size that is accepted: the key gets the number of rounds and the words of the
    key expansion, whatever it held before. -/
theorem AES_set_encrypt_key_spec {nk : Nat} (accepted : nk = 4 ∨ nk = 6 ∨ nk = 8)
    {userKey : Buffer} (size : 4 * nk ≤ userKey.size) (key : AesKey) :
    ∃ ek, AES_set_encrypt_key (some userKey) (32 * nk) (some key) = some (0, some ek) ∧
      ek.rounds = Fips197.rounds nk ∧
      Written ek.rd_key (scheduleWord nk (Fips197.words userKey.bytes)) (4 * (ek.rounds + 1)) := by
  have nothing : Written key.rd_key (scheduleWord nk (Fips197.words userKey.bytes)) 0 :=
    fun i below => absurd below (Nat.not_lt_zero i)
  obtain ⟨rk0, eq0, written⟩ := loadWord_spec nothing size (by omega) (by omega)
  obtain ⟨rk1, eq1, written⟩ := loadWord_spec written size (by omega) (by omega)
  obtain ⟨rk2, eq2, written⟩ := loadWord_spec written size (by omega) (by omega)
  obtain ⟨rk3, eq3, written⟩ := loadWord_spec written size (by omega) (by omega)
  rcases accepted with rfl | rfl | rfl
  · obtain ⟨rk, eq, written⟩ := @expand128_spec _ _ 10 0 rfl (by omega) written
    refine ⟨⟨rk, 10⟩, ?_, rfl, written⟩
    simp [AES_set_encrypt_key, eq0, eq1, eq2, eq3, eq]
  · obtain ⟨rk4, eq4, written⟩ := loadWord_spec written size (by omega) (by omega)
    obtain ⟨rk5, eq5, written⟩ := loadWord_spec written size (by omega) (by omega)
    obtain ⟨rk, eq, written⟩ := @expand192_spec _ _ 8 0 rfl (by omega) written
    refine ⟨⟨rk, 12⟩, ?_, rfl, written⟩
    simp [AES_set_encrypt_key, eq0, eq1, eq2, eq3, eq4, eq5, eq]
  · obtain ⟨rk4, eq4, written⟩ := loadWord_spec written size (by omega) (by omega)
    obtain ⟨rk5, eq5, written⟩ := loadWord_spec written size (by omega) (by omega)
    obtain ⟨rk6, eq6, written⟩ := loadWord_spec written size (by omega) (by omega)
    obtain ⟨rk7, eq7, written⟩ := loadWord_spec written size (by omega) (by omega)
    obtain ⟨rk, eq, written⟩ := @expand256_spec _ _ 7 0 rfl (by omega) written
    refine ⟨⟨rk, 14⟩, ?_, rfl, written⟩
    simp [AES_set_encrypt_key, eq0, eq1, eq2, eq3, eq4, eq5, eq6, eq7, eq]

end AesOnGpu.Aes
