import Mathlib

/-! # Interleaved channels

Numbers are dealt out to `n` channels in chunks of `chunk`.  Each number has a
channel and a number within its channel, and these tell it.
-/

namespace Interleaving

variable (chunk n : Nat)

def channel (a : Nat) : Nat := a / chunk % n

/-- The chunks of the other channels are left out. -/
def inChannel (a : Nat) : Nat := a / chunk / n * chunk + a % chunk

/-- Where chunk `q` of channel `c` has its number `l`. -/
def place (q c l : Nat) : Nat := (q * n + c) * chunk + l

variable {chunk n} {q c l : Nat}

theorem place_div (low : l < chunk) : place chunk n q c l / chunk = q * n + c := by
  have positive : 0 < chunk := Nat.zero_lt_of_lt low
  rw [place, Nat.mul_comm, Nat.mul_add_div positive, Nat.div_eq_of_lt low, Nat.add_zero]

theorem channel_place (inside : c < n) (low : l < chunk) :
    channel chunk n (place chunk n q c l) = c := by
  rw [channel, place_div low, Nat.mul_add_mod_of_lt inside]

theorem inChannel_place (inside : c < n) (low : l < chunk) :
    inChannel chunk n (place chunk n q c l) = q * chunk + l := by
  have positive : 0 < n := Nat.zero_lt_of_lt inside
  have quotient : (q * n + c) / n = q := by
    rw [Nat.mul_comm, Nat.mul_add_div positive, Nat.div_eq_of_lt inside, Nat.add_zero]
  rw [inChannel, place_div low, quotient, place, Nat.mul_add_mod_of_lt low]

theorem place_channel_inChannel (positive : 0 < chunk) (a : Nat) :
    place chunk n (inChannel chunk n a / chunk) (channel chunk n a) (inChannel chunk n a % chunk) =
      a := by
  have low : a % chunk < chunk := Nat.mod_lt a positive
  have quotient : inChannel chunk n a / chunk = a / chunk / n := by
    rw [inChannel, Nat.mul_comm, Nat.mul_add_div positive, Nat.div_eq_of_lt low, Nat.add_zero]
  have rest : inChannel chunk n a % chunk = a % chunk := by
    rw [inChannel, Nat.mul_add_mod_of_lt low]
  rw [place, quotient, rest, channel, Nat.div_add_mod', Nat.div_add_mod']

theorem eq_of_channel_inChannel (positive : 0 < chunk) {a b : Nat}
    (sameChannel : channel chunk n a = channel chunk n b)
    (sameInside : inChannel chunk n a = inChannel chunk n b) : a = b := by
  rw [← place_channel_inChannel positive a, ← @place_channel_inChannel chunk n positive b,
    sameChannel, sameInside]

/-- From the second chunk on, a number is `n` times what it is in its channel. -/
theorem mul_le_of_le_inChannel (positive : 0 < chunk) {a x : Nat}
    (above : x * chunk ≤ inChannel chunk n a) : n * (x * chunk) ≤ a := by
  have quotient : x ≤ inChannel chunk n a / chunk := (Nat.le_div_iff_mul_le positive).mpr above
  calc n * (x * chunk)
      = x * n * chunk := by rw [Nat.mul_left_comm, Nat.mul_assoc]
    _ ≤ (inChannel chunk n a / chunk * n + channel chunk n a) * chunk :=
        Nat.mul_le_mul_right _ (Nat.le_trans (Nat.mul_le_mul_right _ quotient) (Nat.le_add_right _ _))
    _ ≤ place chunk n (inChannel chunk n a / chunk) (channel chunk n a)
          (inChannel chunk n a % chunk) := Nat.le_add_right _ _
    _ = a := place_channel_inChannel positive a

/-- Blocks of a power of two are kept together, be they smaller than the chunks or larger. -/
theorem inChannel_same {k s a b : Nat} (same : a / 2 ^ k = b / 2 ^ k) :
    inChannel (2 ^ s) n a / 2 ^ k = inChannel (2 ^ s) n b / 2 ^ k := by
  cases Nat.le_total k s with
  | inl smaller =>
    obtain ⟨d, rfl⟩ := Nat.exists_eq_add_of_le smaller
    have block (x : Nat) : inChannel (2 ^ (k + d)) n x / 2 ^ k =
        2 ^ d * (x / 2 ^ k / 2 ^ d / n) + x / 2 ^ k % 2 ^ d := by
      rw [inChannel, pow_add, Nat.mul_comm _ (2 ^ k * 2 ^ d), Nat.mul_assoc,
        Nat.mul_add_div (Nat.two_pow_pos k), Nat.mod_mul_right_div_self,
        ← Nat.div_div_eq_div_mul x (2 ^ k) (2 ^ d)]
    rw [block, block, same]
  | inr larger =>
    obtain ⟨d, rfl⟩ := Nat.exists_eq_add_of_le larger
    have block (x : Nat) : inChannel (2 ^ s) n x / 2 ^ (s + d) = x / 2 ^ (s + d) / n := by
      have low : x % 2 ^ s < 2 ^ s := Nat.mod_lt x (Nat.two_pow_pos s)
      rw [inChannel, pow_add, ← Nat.div_div_eq_div_mul, ← Nat.div_div_eq_div_mul,
        Nat.mul_comm _ (2 ^ s), Nat.mul_add_div (Nat.two_pow_pos s), Nat.div_eq_of_lt low,
        Nat.add_zero, Nat.div_div_eq_div_mul, Nat.div_div_eq_div_mul _ _ n, Nat.mul_comm n]
    rw [block, block, same]

/-- The numbers of an initial segment, chunk by chunk. -/
theorem map_range_mul {α : Type*} (f : Nat → α) (chunk chunks : Nat) :
    (List.range (chunks * chunk)).map f =
      (List.range chunks).flatMap fun q => (List.range chunk).map fun l => f (q * chunk + l) := by
  induction chunks with
  | zero => simp
  | succ chunks ih =>
    rw [Nat.succ_mul, List.range_add, List.map_append, ih, List.range_succ,
      List.flatMap_append]
    simp

/-! ## The numbers of a channel -/

/-- The number that is `a` within channel `c`. -/
def nth (chunk n c a : Nat) : Nat := place chunk n (a / chunk) c (a % chunk)

theorem channel_nth (positive : 0 < chunk) (inside : c < n) (a : Nat) :
    channel chunk n (nth chunk n c a) = c :=
  channel_place inside (Nat.mod_lt a positive)

theorem inChannel_nth (positive : 0 < chunk) (inside : c < n) (a : Nat) :
    inChannel chunk n (nth chunk n c a) = a := by
  rw [nth, inChannel_place inside (Nat.mod_lt a positive), Nat.div_add_mod']

theorem nth_inj (positive : 0 < chunk) {c' a a' : Nat} (inside : c < n) (inside' : c' < n)
    (same : nth chunk n c a = nth chunk n c' a') : c = c' ∧ a = a' := by
  constructor
  · rw [← channel_nth positive inside a, same, channel_nth positive inside']
  · rw [← inChannel_nth positive inside a, same, inChannel_nth positive inside']

/-- Within a chunk the numbers follow one another. -/
theorem nth_add {a j : Nat} (within : a % chunk + j < chunk) :
    nth chunk n c (a + j) = nth chunk n c a + j := by
  have quotient : (a + j) / chunk = a / chunk := by
    conv_lhs => rw [← Nat.div_add_mod' a chunk, Nat.add_assoc]
    rw [Nat.mul_comm, Nat.mul_add_div (Nat.zero_lt_of_lt within), Nat.div_eq_of_lt within,
      Nat.add_zero]
  have rest : (a + j) % chunk = a % chunk + j := by
    rw [← Nat.mod_add_mod, Nat.mod_eq_of_lt within]
  rw [nth, nth, quotient, rest, place, place, Nat.add_assoc]

/-- As many chunks of each channel fill an initial segment. -/
theorem nth_lt {chunks a : Nat} (inside : c < n) (low : a < chunks * chunk) :
    nth chunk n c a < chunks * n * chunk := by
  have positive : 0 < chunk := Nat.pos_of_mul_pos_left (Nat.zero_lt_of_lt low)
  have quotient : a / chunk < chunks := (Nat.div_lt_iff_lt_mul positive).mpr low
  calc nth chunk n c a
      < (a / chunk * n + c) * chunk + chunk := Nat.add_lt_add_left (Nat.mod_lt a positive) _
    _ = (a / chunk * n + c + 1) * chunk := (Nat.succ_mul _ _).symm
    _ ≤ ((a / chunk + 1) * n) * chunk := by
        apply Nat.mul_le_mul_right
        rw [Nat.succ_mul]
        omega
    _ ≤ chunks * n * chunk := Nat.mul_le_mul_right _ (Nat.mul_le_mul_right _ quotient)

theorem nth_mul_add (low : l < chunk) : nth chunk n c (q * chunk + l) = place chunk n q c l := by
  have positive : 0 < chunk := Nat.zero_lt_of_lt low
  rw [nth, Nat.mul_add_mod_of_lt low, Nat.mul_comm q, Nat.mul_add_div positive,
    Nat.div_eq_of_lt low, Nat.add_zero]

/-- The last number of the last channel is the last of the segment. -/
theorem nth_last {chunks : Nat} (positive : 0 < chunk) (channels : 0 < n) (nonempty : 0 < chunks) :
    nth chunk n (n - 1) (chunks * chunk - 1) = chunks * n * chunk - 1 := by
  have last : chunks * chunk - 1 = (chunks - 1) * chunk + (chunk - 1) := by
    have all : chunks * chunk = (chunks - 1) * chunk + chunk := by
      rw [← Nat.succ_mul, Nat.succ_eq_add_one, Nat.sub_add_cancel nonempty]
    omega
  have count : (chunks - 1) * n + (n - 1) + 1 = chunks * n := by
    have all : chunks * n = (chunks - 1) * n + n := by
      rw [← Nat.succ_mul, Nat.succ_eq_add_one, Nat.sub_add_cancel nonempty]
    omega
  rw [last, nth_mul_add (Nat.sub_lt positive Nat.one_pos), place, ← count, Nat.succ_mul]
  omega

end Interleaving
