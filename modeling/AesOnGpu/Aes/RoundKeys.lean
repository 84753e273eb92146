import AesOnGpu.Aes.AesOp
import AesOnGpu.Aes.KeySchedule

/-! # The round keys of the attack

Each round key determines the others, and `key_expand` computes the key schedule of the
victim.
-/

namespace AesOnGpu.Aes.Op

open Fips197 (Byte Word)

/-! ## A turn and its inverse -/

section Turns

variable {i : Nat} {row other other' : Row}

theorem wordOf_cases {row row' : Row} (first : wordOf row 0 = wordOf row' 0)
    (next : ∀ j : Fin 3, wordOf row j.succ = wordOf row' j.succ) : row = row' :=
  wordOf_inj fun j => Fin.cases first next j

theorem invExpandRow_expandRow :
    invExpandRow i (expandRow (i + 1) row other) other' = row := by
  obtain ⟨first, next⟩ := expandRow_spec (i + 1) row other
  obtain ⟨invNext, invFirst⟩ := invExpandRow_spec i (expandRow (i + 1) row other) other'
  have same (j : Fin 3) :
      wordOf (invExpandRow i (expandRow (i + 1) row other) other') j.succ = wordOf row j.succ := by
    rw [invNext, next]
    simp
  apply wordOf_cases _ same
  have last : wordOf (invExpandRow i (expandRow (i + 1) row other) other') 3 = wordOf row 3 :=
    same 2
  rw [invFirst, last, first]
  simp

theorem expandRow_invExpandRow :
    expandRow (i + 1) (invExpandRow i row other) other' = row := by
  obtain ⟨invNext, invFirst⟩ := invExpandRow_spec i row other
  obtain ⟨first, next⟩ := expandRow_spec (i + 1) (invExpandRow i row other) other'
  have start : wordOf (expandRow (i + 1) (invExpandRow i row other) other') 0 = wordOf row 0 := by
    rw [first, invFirst]
    simp
  apply wordOf_inj
  intro j
  -- each word from the one before it
  induction j using Fin.induction with
  | zero => exact start
  | succ j ih =>
    rw [next, ih, invNext]
    simp

end Turns

/-! ## All rows -/

theorem expandRows_spec (key_out : KeyTab) {n : Nat} (bound : n < 11) :
    expandRows key_out n bound 0 = key_out 0 ∧
    ∀ m, (below : m < n) → ∃ row, expandRows key_out n bound ⟨m + 1, by omega⟩ =
      expandRow (m + 1) (expandRows key_out n bound ⟨m, by omega⟩) row := by
  induction n with
  | zero => exact ⟨rfl, fun m below => absurd below (Nat.not_lt_zero m)⟩
  | succ n ih =>
    obtain ⟨first, chain⟩ := ih (by omega)
    have earlier (p : Fin 11) (le : p.val ≤ n) :
        expandRows key_out (n + 1) bound p = expandRows key_out n (by omega) p := by
      rw [expandRows, Function.update_of_ne]
      intro same
      rw [same] at le
      simp only at le
      omega
    refine ⟨(earlier 0 (by simp)).trans first, fun m below => ?_⟩
    rw [earlier ⟨m, by omega⟩ (by simp only; omega)]
    cases Nat.lt_succ_iff_lt_or_eq.mp below with
    | inl inner =>
      rw [earlier ⟨m + 1, by omega⟩ (by simp only; omega)]
      exact chain m inner
    | inr last =>
      subst last
      exact ⟨_, Function.update_self ..⟩

theorem invExpandRows_spec (key_tab : KeyTab) {n i : Nat} (total : n + i = 10) :
    invExpandRows key_tab n i total 10 = key_tab 10 ∧
    ∀ m, i ≤ m → (below : m < 10) → ∃ row, invExpandRows key_tab n i total ⟨m, by omega⟩ =
      invExpandRow m (invExpandRows key_tab n i total ⟨m + 1, by omega⟩) row := by
  induction n generalizing i with
  | zero => exact ⟨rfl, fun m above below => by omega⟩
  | succ n ih =>
    obtain ⟨last, chain⟩ := @ih (i + 1) (by omega)
    have later (p : Fin 11) (lt : i < p.val) :
        invExpandRows key_tab (n + 1) i total p = invExpandRows key_tab n (i + 1) (by omega) p := by
      rw [invExpandRows, Function.update_of_ne]
      intro same
      rw [same] at lt
      simp only at lt
      omega
    refine ⟨(later 10 (by simp; omega)).trans last, fun m above below => ?_⟩
    rw [later ⟨m + 1, by omega⟩ (by simp only; omega)]
    cases Nat.lt_or_eq_of_le above with
    | inl inner =>
      rw [later ⟨m, by omega⟩ inner]
      exact chain m inner below
    | inr here =>
      subst here
      exact ⟨_, Function.update_self ..⟩

/-! ## The last round key -/

theorem invExpandRows_back {key_out key_tab : KeyTab}
    (chain : ∀ m, (below : m < 10) → ∃ row, key_out ⟨m + 1, by omega⟩ =
      expandRow (m + 1) (key_out ⟨m, by omega⟩) row)
    (last : key_tab 10 = key_out 10) {n i : Nat} (total : n + i = 10) :
    invExpandRows key_tab n i total ⟨i, by omega⟩ = key_out ⟨i, by omega⟩ := by
  induction n generalizing i with
  | zero =>
    obtain rfl : i = 10 := by omega
    exact last
  | succ n ih =>
    obtain ⟨row, next⟩ := chain i (by omega)
    rw [invExpandRows, Function.update_self, ih (by omega), next, invExpandRow_expandRow]

theorem expandRows_forth {key_out key_tab : KeyTab}
    (chain : ∀ m, (below : m < 10) → ∃ row, key_tab ⟨m, by omega⟩ =
      invExpandRow m (key_tab ⟨m + 1, by omega⟩) row)
    (first : key_out 0 = key_tab 0) {n : Nat} (bound : n < 11) :
    expandRows key_out n bound ⟨n, bound⟩ = key_tab ⟨n, bound⟩ := by
  induction n with
  | zero => exact first
  | succ n ih =>
    obtain ⟨row, before⟩ := chain n (by omega)
    rw [expandRows, Function.update_self, ih (by omega), before, expandRow_invExpandRow]

/-- The last round key determines the key, and each row is the last round key of one. -/
theorem last_round_key (key_out : KeyTab) :
    (∀ key, inv_key_expand (key_expand key key_out 10) = key) ∧
    ∀ last, key_expand (inv_key_expand last) key_out 10 = last := by
  refine ⟨fun key => ?_, fun last => ?_⟩
  · obtain ⟨first, chain⟩ := expandRows_spec (Function.update key_out 0 key) (show 10 < 11 by omega)
    rw [Function.update_self] at first
    have back := invExpandRows_back chain
      (Function.update_self 10 (key_expand key key_out 10) fun _ _ => 0) (show 10 + 0 = 10 by omega)
    exact back.trans first
  · let key_tab : KeyTab := Function.update (fun _ _ => 0) 10 last
    obtain ⟨ten, chain⟩ := invExpandRows_spec key_tab (show 10 + 0 = 10 by omega)
    have forth := expandRows_forth (fun m below => chain m (Nat.zero_le m) below)
      (Function.update_self 0 (inv_key_expand last) key_out) (show 10 < 11 by omega)
    exact (forth.trans ten).trans (Function.update_self ..)

/-! ## The victim's schedule -/

theorem rcon_getD {i : Nat} (below : i < 10) : rcon.getD (i + 1) 0 = Fips197.xPower i := by
  have all : ∀ i < 10, rcon.getD (i + 1) 0 = Fips197.xPower i := by decide
  exact all i below

theorem rotated_spec {i : Nat} (below : i < 10) (last : Word) :
    rotated last (i + 1) = Fips197.temp 4 (4 * (i + 1)) last := by
  rw [Fips197.temp, if_pos (Nat.mul_mod_right 4 (i + 1)), Nat.mul_div_cancel_left _ (by omega)]
  funext k
  -- Only the first byte has the round constant.
  fin_cases k
  · rw [rotated, rcon_getD below]
    simp [sub_bytes_eq, Fips197.subWord, Fips197.rotWord, Fips197.rcon]
  · simp [rotated, sub_bytes_eq, Fips197.subWord, Fips197.rotWord, Fips197.rcon]
  · simp [rotated, sub_bytes_eq, Fips197.subWord, Fips197.rotWord, Fips197.rcon]
  · simp [rotated, sub_bytes_eq, Fips197.subWord, Fips197.rotWord, Fips197.rcon]

section Schedule

variable {key : Nat → Word} (i : Nat)

theorem keyExpansion_first : Fips197.keyExpansion 4 key (4 * (i + 1)) =
    fun k => Fips197.temp 4 (4 * (i + 1)) (Fips197.keyExpansion 4 key (4 * i + 3)) k ^^^
      Fips197.keyExpansion 4 key (4 * i) k := by
  rw [Fips197.keyExpansion_next (by omega) (by omega)]
  funext k
  exact BitVec.xor_comm _ _

theorem keyExpansion_inner (j : Fin 3) : Fips197.keyExpansion 4 key (4 * (i + 1) + (j + 1)) =
    fun k => Fips197.keyExpansion 4 key (4 * (i + 1) + j) k ^^^
      Fips197.keyExpansion 4 key (4 * i + (j + 1)) k := by
  have above : 4 * (i + 1) + (j.val + 1) - 4 = 4 * i + (j + 1) := by omega
  rw [Fips197.keyExpansion_next (by omega) (by omega), above, Fips197.temp, if_neg (by omega),
    if_neg (by omega)]
  funext k
  exact BitVec.xor_comm _ _

end Schedule

theorem key_expand_spec (key : Nat → Byte) (key_out : KeyTab) {i : Nat} (bound : i < 11)
    (j : Fin 4) : wordOf (key_expand (fun p => key p) key_out ⟨i, bound⟩) j =
      Fips197.keyExpansion 4 (Fips197.words key) (4 * i + j) := by
  let table := key_expand (fun p => key p) key_out
  obtain ⟨first, chain⟩ :
      table 0 = (fun p : Fin 16 => key p) ∧ ∀ m, (below : m < 10) → ∃ row,
        table ⟨m + 1, by omega⟩ = expandRow (m + 1) (table ⟨m, by omega⟩) row := by
    have rows := expandRows_spec (Function.update key_out 0 fun p => key p) (show 10 < 11 by omega)
    exact ⟨rows.1.trans (Function.update_self ..), rows.2⟩
  suffices all : ∀ i (bound : i < 11) (j : Fin 4), wordOf (table ⟨i, bound⟩) j =
      Fips197.keyExpansion 4 (Fips197.words key) (4 * i + j) from all i bound j
  intro i
  induction i with
  | zero =>
    intro bound j
    rw [Fips197.keyExpansion_key (by omega), show table ⟨0, bound⟩ = _ from first]
    funext k
    simp [wordOf, entry, Fips197.words, Nat.mul_comm]
  | succ i ih =>
    intro bound j
    obtain ⟨row, turn⟩ := chain i (by omega)
    obtain ⟨word0, next⟩ := expandRow_spec (i + 1) (table ⟨i, by omega⟩) row
    rw [turn]
    -- each word of the row from the one before it
    induction j using Fin.induction with
    | zero =>
      rw [word0, ih (by omega) 3, ih (by omega) 0, rotated_spec (by omega)]
      exact (keyExpansion_first i).symm
    | succ j before =>
      rw [next, before, ih (by omega) j.succ]
      exact (keyExpansion_inner i j).symm

/-- For the victim's key of 128 bits, its 44 words are those of the attack. -/
theorem key_schedules_agree {userKey : Buffer} (size : 16 ≤ userKey.size) (key : AesKey)
    (key_out : KeyTab) :
    ∃ ek, AES_set_encrypt_key (some userKey) 128 (some key) = some (0, some ek) ∧
      ∀ (i : Fin 11) (j : Fin 4), ek.rd_key[4 * i.val + j.val]? =
        some (let row := key_expand (fun p => userKey.bytes p) key_out i
          packU32 (row (entry j 0)) (row (entry j 1)) (row (entry j 2)) (row (entry j 3))) := by
  obtain ⟨ek, expanded, rounds, written⟩ := AES_set_encrypt_key_spec (Or.inl rfl) size key
  have ten : ek.rounds = 10 := rounds
  refine ⟨ek, expanded, fun i j => ?_⟩
  rw [written _ (by omega), scheduleWord, ← key_expand_spec userKey.bytes key_out i.isLt j]
  rfl

/-- A key of zeros. -/
theorem key_schedules_agree_zeros : ∃ ek,
    AES_set_encrypt_key (some ⟨16, fun _ => 0⟩) 128 (some ⟨Vector.replicate 60 0, 0⟩) =
      some (0, some ek) ∧
    ek.rd_key[43]? = some (let row := key_expand (fun _ => 0) (fun _ _ => 0) 10
      packU32 (row 12) (row 13) (row 14) (row 15)) := by
  obtain ⟨ek, expanded, agree⟩ :=
    @key_schedules_agree ⟨16, fun _ => 0⟩ (by simp) ⟨Vector.replicate 60 0, 0⟩ fun _ _ => 0
  exact ⟨ek, expanded, agree 10 3⟩

end AesOnGpu.Aes.Op
