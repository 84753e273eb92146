import Mathlib

/-! # Packing selected bits

The bits of a word at given positions, packed from the low end: the first
position gives bit 0 and so on.  What the lowest bits of the result say about the
word is which bits it has at the first positions.
-/

namespace Packing

variable {w : Nat}

/-- The positions that a mask selects, from the low end. -/
def positions (mask : BitVec w) : List Nat := (List.range w).filter mask.getLsbD

/-- Put bit `i` above the bits packed so far, and count it. -/
def turn (val : BitVec w) (state : BitVec w × Nat) (i : Nat) : BitVec w × Nat :=
  (state.1 ||| ((val &&& (1#w <<< i)) >>> i) <<< state.2, state.2 + 1)

def pack (ps : List Nat) (val : BitVec w) : BitVec w := (ps.foldl (turn val) (0#w, 0)).1

section Positions

variable {mask : BitVec w} {i : Nat}

@[simp] theorem mem_positions : i ∈ positions mask ↔ mask.getLsbD i := by
  rw [positions, List.mem_filter, List.mem_range]
  exact ⟨fun both => both.2, fun isSet => ⟨BitVec.lt_of_getLsbD isSet, isSet⟩⟩

theorem length_positions_le (mask : BitVec w) : (positions mask).length ≤ w := by
  have filtered := List.length_filter_le mask.getLsbD (List.range w)
  rwa [List.length_range] at filtered

/-- Positions outside of an interval that holds all set bits need not be looked at. -/
theorem positions_eq_range' {low high : Nat} (inside : high ≤ w)
    (bounds : ∀ i, mask.getLsbD i → low ≤ i ∧ i < high) :
    positions mask = (List.range' low (high - low)).filter mask.getLsbD := by
  have beyond (start length : Nat) (out : ∀ i, start ≤ i → i < start + length →
      ¬(low ≤ i ∧ i < high)) : (List.range' start length).filter mask.getLsbD = [] := by
    apply List.filter_eq_nil_iff.mpr
    intro i member isSet
    obtain ⟨above, below⟩ := List.mem_range'_1.mp member
    exact out i above below (bounds i isSet)
  cases Nat.lt_or_ge low high with
  | inl nonempty =>
    have parts : List.range w =
        List.range' 0 low ++ List.range' low (high - low) ++ List.range' high (w - high) := by
      have lower := @List.range'_append_1 0 low (high - low)
      have upper := @List.range'_append_1 0 high (w - high)
      rw [Nat.zero_add, Nat.add_sub_cancel' (Nat.le_of_lt nonempty)] at lower
      rw [Nat.zero_add, Nat.add_sub_cancel' inside] at upper
      rw [List.range_eq_range', lower, upper]
    rw [positions, parts, List.filter_append, List.filter_append,
      beyond 0 low (by omega), beyond high (w - high) (by omega), List.nil_append, List.append_nil]
  | inr empty =>
    rw [positions, List.range_eq_range', beyond 0 w (by omega), Nat.sub_eq_zero_of_le empty]
    rfl

/-- In an increasing list of numbers from `n` on, the one at place `p` is at least `n + p`. -/
theorem add_le_of_getElem? {ps : List Nat} {n p : Nat} (increasing : ps.Pairwise (· < ·))
    (above : ∀ j ∈ ps, n ≤ j) (found : ps[p]? = some i) : n + p ≤ i := by
  induction ps generalizing n p with
  | nil => simp at found
  | cons j ps ih =>
    cases p with
    | zero =>
      obtain rfl : j = i := by simpa using found
      exact above j List.mem_cons_self
    | succ p =>
      obtain ⟨first, rest⟩ := List.pairwise_cons.mp increasing
      have later : ∀ m ∈ ps, n + 1 ≤ m := fun m member =>
        Nat.lt_of_le_of_lt (above j List.mem_cons_self) (first m member)
      have := ih rest later (by simpa using found)
      omega

/-- No bit is packed to a higher place. -/
theorem le_of_getElem?_positions {p : Nat} (found : (positions mask)[p]? = some i) : p ≤ i := by
  have increasing : (positions mask).Pairwise (· < ·) := List.pairwise_lt_range.filter _
  have := add_le_of_getElem? increasing (fun j _ => Nat.zero_le j) found
  omega

theorem length_positions_eq_card (mask : BitVec w) :
    (positions mask).length = ((Finset.range w).filter fun i => mask.getLsbD i = true).card := by
  have nodup : (positions mask).Nodup := List.nodup_range.filter _
  rw [← List.toFinset_card_of_nodup nodup]
  congr 1
  ext i
  rw [List.mem_toFinset, mem_positions, Finset.mem_filter, Finset.mem_range]
  exact ⟨fun isSet => ⟨BitVec.lt_of_getLsbD isSet, isSet⟩, fun both => both.2⟩

/-- One more bit is one more position. -/
theorem length_positions_insert {mask' : BitVec w} {j : Nat} (inside : j < w)
    (missing : mask.getLsbD j = false) (bits : ∀ i, mask'.getLsbD i ↔ mask.getLsbD i ∨ i = j) :
    (positions mask').length = (positions mask).length + 1 := by
  rw [length_positions_eq_card, length_positions_eq_card]
  have insert : ((Finset.range w).filter fun i => mask'.getLsbD i = true) =
      insert j ((Finset.range w).filter fun i => mask.getLsbD i = true) := by
    ext i
    simp only [Finset.mem_filter, Finset.mem_range, Finset.mem_insert, bits]
    constructor
    · rintro ⟨below, old | new⟩
      · exact Or.inr ⟨below, old⟩
      · exact Or.inl new
    · rintro (rfl | ⟨below, old⟩)
      · exact ⟨inside, Or.inr rfl⟩
      · exact ⟨below, Or.inl old⟩
  rw [insert, Finset.card_insert_of_notMem]
  simp [missing]

theorem length_positions_interval {start n : Nat} (inside : start + n ≤ w)
    (bits : ∀ i, mask.getLsbD i ↔ start ≤ i ∧ i < start + n) : (positions mask).length = n := by
  rw [length_positions_eq_card]
  have interval : ((Finset.range w).filter fun i => mask.getLsbD i = true) =
      Finset.Ico start (start + n) := by
    ext i
    simp only [Finset.mem_filter, Finset.mem_range, Finset.mem_Ico, bits]
    omega
  rw [interval, Nat.card_Ico, Nat.add_sub_cancel_left]

end Positions

section Pack

variable (val : BitVec w)

theorem getLsbD_moved (i n p : Nat) :
    (((val &&& (1#w <<< i)) >>> i) <<< n).getLsbD p =
      (decide (p < w) && decide (p = n) && val.getLsbD i) := by
  rw [← BitVec.twoPow_eq]
  simp only [BitVec.getLsbD_shiftLeft, BitVec.getLsbD_ushiftRight, BitVec.getLsbD_and,
    BitVec.getLsbD_twoPow]
  by_cases here : p = n
  · subst here
    cases isSet : val.getLsbD i with
    | false => simp [isSet]
    | true => simp [isSet, BitVec.lt_of_getLsbD isSet]
  · by_cases above : n ≤ p
    · have other : p - n ≠ 0 := by omega
      simp [here, other]
    · simp [here, Nat.lt_of_not_le above]

theorem getLsbD_foldl (ps : List Nat) (packed : BitVec w) (n p : Nat) :
    (ps.foldl (turn val) (packed, n)).1.getLsbD p =
      (packed.getLsbD p || (decide (p < w) && decide (n ≤ p) && ps[p - n]?.any val.getLsbD)) := by
  induction ps generalizing packed n with
  | nil => simp
  | cons i ps ih =>
    rw [List.foldl_cons, turn, ih, BitVec.getLsbD_or, getLsbD_moved]
    by_cases here : p = n
    · simp [here]
    · by_cases above : n ≤ p
      · have next : p - n = p - (n + 1) + 1 := by omega
        have above' : n + 1 ≤ p := by omega
        simp [here, above, above', next]
      · have above' : ¬n + 1 ≤ p := by omega
        simp [here, above, above']

theorem getLsbD_pack (ps : List Nat) (p : Nat) :
    (pack ps val).getLsbD p = (decide (p < w) && ps[p]?.any val.getLsbD) := by
  rw [pack, getLsbD_foldl]
  simp

theorem pack_lt (ps : List Nat) : (pack ps val).toNat < 2 ^ ps.length := by
  apply Nat.lt_pow_two_of_testBit
  intro p beyond
  rw [BitVec.testBit_toNat, getLsbD_pack, List.getElem?_eq_none beyond]
  simp

/-- The word of ones has the largest of all values at any positions. -/
theorem pack_allOnes (mask : BitVec w) :
    (pack (positions mask) (BitVec.allOnes w)).toNat = 2 ^ (positions mask).length - 1 := by
  apply Nat.eq_of_testBit_eq
  intro p
  rw [BitVec.testBit_toNat, getLsbD_pack, Nat.testBit_two_pow_sub_one]
  cases found : (positions mask)[p]? with
  | none => simp [List.getElem?_eq_none_iff.mp found]
  | some i =>
    obtain ⟨below, at_p⟩ := List.getElem?_eq_some_iff.mp found
    have isSet : i ∈ positions mask := at_p ▸ List.getElem_mem below
    have narrow := length_positions_le mask
    simp [below, Nat.lt_of_lt_of_le below narrow, BitVec.lt_of_getLsbD (mem_positions.mp isSet)]

/-- Words with the same bits from `k` on are packed to such words. -/
theorem pack_agree {mask a b : BitVec w} {k : Nat}
    (agree : ∀ i, k ≤ i → a.getLsbD i = b.getLsbD i) (p : Nat) (above : k ≤ p) :
    (pack (positions mask) a).getLsbD p = (pack (positions mask) b).getLsbD p := by
  rw [getLsbD_pack, getLsbD_pack]
  cases found : (positions mask)[p]? with
  | none => rfl
  | some i =>
    rw [Option.any_some, Option.any_some,
      agree i (Nat.le_trans above (le_of_getElem?_positions found))]

/-- The lowest `v` bits tell the bits at the first `v` positions. -/
theorem pack_mod_eq_iff (ps : List Nat) {v : Nat} (narrow : v ≤ w) (a b : BitVec w) :
    (pack ps a).toNat % 2 ^ v = (pack ps b).toNat % 2 ^ v ↔
      ∀ i ∈ ps.take v, a.getLsbD i = b.getLsbD i := by
  constructor
  · intro same i member
    obtain ⟨p, inside, at_p⟩ := List.mem_take_iff_getElem.mp member
    have below : p < v := Nat.lt_of_lt_of_le inside (Nat.min_le_left _ _)
    have found : ps[p]? = some i := by
      rw [← at_p]
      exact List.getElem?_eq_getElem _
    have bits := congrArg (Nat.testBit · p) same
    simp only [Nat.testBit_mod_two_pow, BitVec.testBit_toNat, getLsbD_pack, found, below,
      Nat.lt_of_lt_of_le below narrow, decide_true, Bool.true_and, Option.any_some] at bits
    exact bits
  · intro same
    apply Nat.eq_of_testBit_eq
    intro p
    rw [Nat.testBit_mod_two_pow, Nat.testBit_mod_two_pow, BitVec.testBit_toNat,
      BitVec.testBit_toNat, getLsbD_pack, getLsbD_pack]
    by_cases below : p < v
    · cases found : ps[p]? with
      | none => rfl
      | some i =>
        have member : i ∈ ps.take v := by
          apply List.mem_of_getElem? (i := p)
          rw [List.getElem?_take_of_lt below, found]
        rw [Option.any_some, Option.any_some, same i member]
    · simp [below]

/-- All bits tell all the bits selected. -/
theorem pack_eq_iff {ps : List Nat} (short : ps.length ≤ w) (a b : BitVec w) :
    pack ps a = pack ps b ↔ ∀ i ∈ ps, a.getLsbD i = b.getLsbD i := by
  have all := pack_mod_eq_iff ps (Nat.le_refl w) a b
  rw [List.take_of_length_le short, Nat.mod_eq_of_lt (BitVec.isLt _),
    Nat.mod_eq_of_lt (BitVec.isLt _)] at all
  rw [← all]
  exact BitVec.toNat_inj.symm

end Pack

section Words

/-- Words with bits at certain positions only are told apart by the bits at other
    positions exactly if these are among them. -/
theorem told_apart_iff {present told : Nat → Prop} :
    (∀ a b : BitVec w, (∀ i, a.getLsbD i → present i) → (∀ i, b.getLsbD i → present i) →
      (∀ i, told i → a.getLsbD i = b.getLsbD i) → a = b) ↔ ∀ i < w, present i → told i := by
  constructor
  · intro apart i inside here
    by_contra untold
    -- nothing tells this bit alone from no bit
    have same := apart 0#w (BitVec.twoPow w i) (by simp) (by
      intro j bit
      simp only [BitVec.getLsbD_twoPow, Bool.and_eq_true, decide_eq_true_eq] at bit
      exact bit.2 ▸ here) (by
      intro j isTold
      have other : i ≠ j := fun same => untold (same ▸ isTold)
      simp [other])
    have bit := congrArg (fun word => word.getLsbD i) same
    simp [inside] at bit
  · intro all a b onlyA onlyB same
    apply BitVec.eq_of_getLsbD_eq
    intro i inside
    by_cases here : present i
    · exact same i (all i inside here)
    · have noneA : a.getLsbD i = false := Bool.eq_false_iff.mpr fun bit => here (onlyA i bit)
      have noneB : b.getLsbD i = false := Bool.eq_false_iff.mpr fun bit => here (onlyB i bit)
      rw [noneA, noneB]

end Words

end Packing
