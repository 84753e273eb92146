import Mathlib

/-! # Counting arguments for reported code sizes

A compressor that reports only a size is honest when some decoder exists for
the size it reports.  Two criteria are collected here.

* `Recoverable s n`: the values of `s` can be told apart by one of `n`
  payloads.  By counting, this is `s.card ≤ n` (`recoverable_iff_card_le`).
* `kraftSum length`: the Kraft sum of a table of binary code lengths, the
  integer form `kraftSum_le_one_iff` in which it is computed, and the theorem
  `exists_prefixFree_iff` that the sum decides whether a prefix-free code exists.
-/

namespace Coding

variable {α β : Type*}

/-! ## Fixed-size payloads -/

/-- Some decoder from `n` payloads reaches every value of `s`. -/
def Recoverable (s : Finset α) (n : Nat) : Prop :=
  ∃ decode : Fin n → Option α, ∀ a ∈ s, ∃ payload, decode payload = some a

theorem recoverable_of_card_le {s : Finset α} {n : Nat} (small : s.card ≤ n) :
    Recoverable s n := by
  refine ⟨fun payload => if inside : payload.1 < s.card
    then some (s.equivFin.symm ⟨payload.1, inside⟩).1 else none, ?_⟩
  intro a member
  have bound := (s.equivFin ⟨a, member⟩).2
  refine ⟨⟨s.equivFin ⟨a, member⟩, by omega⟩, ?_⟩
  simp [bound]

theorem Recoverable.card_le {s : Finset α} {n : Nat} (recoverable : Recoverable s n) :
    s.card ≤ n := by
  classical
  obtain ⟨decode, reaches⟩ := recoverable
  have covered : s.image some ⊆ Finset.univ.image decode := by
    intro value member
    obtain ⟨a, inside, rfl⟩ := Finset.mem_image.mp member
    obtain ⟨payload, decoded⟩ := reaches a inside
    exact Finset.mem_image.mpr ⟨payload, Finset.mem_univ _, decoded⟩
  calc s.card = (s.image some).card := (Finset.card_image_of_injective s (Option.some_injective α)).symm
    _ ≤ (Finset.univ.image decode).card := Finset.card_le_card covered
    _ ≤ n := by simpa using Finset.card_image_le (s := Finset.univ) (f := decode)

/-- A decoder exists exactly when there are enough payloads. -/
theorem recoverable_iff_card_le {s : Finset α} {n : Nat} :
    Recoverable s n ↔ s.card ≤ n :=
  ⟨Recoverable.card_le, recoverable_of_card_le⟩

/-- An encoder that keeps the values of `s` apart bounds their number. -/
theorem card_le_of_encoder {s : Finset α} {n : Nat} (encode : α → Nat)
    (bounded : ∀ a ∈ s, encode a < n) (separates : Set.InjOn encode s) : s.card ≤ n := by
  simpa using Finset.card_le_card_of_injOn encode
    (t := Finset.range n) (fun a member => by simpa using bounded a member) separates

/-- A family of `n` different values of `s` is a lower bound for their number. -/
theorem le_card_of_family {s : Finset α} {n : Nat} (family : Nat → α)
    (inside : ∀ k < n, family k ∈ s) (distinct : Set.InjOn family (Set.Iio n)) : n ≤ s.card := by
  have mapped := Finset.card_le_card_of_injOn (s := Finset.range n) (t := s) family
    (fun k member => inside k (by simpa using member))
    (fun a aMember b bMember => distinct (by simpa using aMember) (by simpa using bMember))
  simpa using mapped

/-! ## Variable-length codes -/

/-- The Kraft sum of a table of binary code lengths. -/
def kraftSum [Fintype α] (length : α → Nat) : ℚ :=
  ∑ a, (1 / 2 : ℚ) ^ length a

/-- Scaled by the largest length the Kraft sum is a sum of natural numbers. -/
theorem kraftSum_le_one_iff [Fintype α] {length : α → Nat} {longest : Nat}
    (bounded : ∀ a, length a ≤ longest) :
    kraftSum length ≤ 1 ↔ ∑ a, 2 ^ (longest - length a) ≤ 2 ^ longest := by
  have scaled : kraftSum length * 2 ^ longest = ((∑ a, 2 ^ (longest - length a) : Nat) : ℚ) := by
    rw [kraftSum, Finset.sum_mul]
    push_cast
    refine Finset.sum_congr rfl fun a _ => ?_
    rw [pow_sub₀ _ two_ne_zero (bounded a), one_div, inv_pow, mul_comm]
  have positive : (0 : ℚ) < 2 ^ longest := by positivity
  rw [← mul_le_mul_iff_of_pos_right positive, scaled, one_mul]
  exact_mod_cast Iff.rfl

/-- The sum of the shares of some sets, each taken as often as `count` says. -/
def shareSum (count : Finset α → Nat) : List (Finset α × Nat) → Nat
  | [] => 0
  | (s, share) :: shares => count s * share + shareSum count shares

/-- A weight made of a base and of the shares of the sets around a point sums
    up to their cardinalities. -/
theorem sum_of_shares [Fintype α] [DecidableEq α] {weight : α → Nat} {base : Nat}
    (shares : List (Finset α × Nat))
    (each : ∀ a, weight a = base + shareSum (fun s => if a ∈ s then 1 else 0) shares) :
    ∑ a, weight a = Fintype.card α * base + shareSum Finset.card shares := by
  have total : ∑ a, shareSum (fun s => if a ∈ s then 1 else 0) shares =
      shareSum Finset.card shares := by
    clear each
    induction shares with
    | nil => simp [shareSum]
    | cons entry shares ih =>
      obtain ⟨s, share⟩ := entry
      simp only [shareSum, Finset.sum_add_distrib, ih, ← Finset.sum_mul,
        Finset.sum_ite_mem, Finset.univ_inter, Finset.sum_const, smul_eq_mul, mul_one]
  rw [Finset.sum_congr rfl fun a _ => each a, Finset.sum_add_distrib, total, Finset.sum_const,
    Finset.card_univ, smul_eq_mul]

/-! ## Prefix-free codes -/

/-- No codeword begins another one. -/
def PrefixFree (code : α → List Bool) : Prop :=
  ∀ a b, code a <+: code b → a = b

/-- The words of `total` bits that begin with a given word. -/
def extensions (word : List Bool) (total : Nat) : Finset (List.Vector Bool total) :=
  Finset.univ.filter fun longer => word <+: longer.toList

@[simp] theorem mem_extensions {word : List Bool} {total : Nat} {longer : List.Vector Bool total} :
    longer ∈ extensions word total ↔ word <+: longer.toList := by
  simp [extensions]

theorem extensions_card {word : List Bool} {total : Nat} (fits : word.length ≤ total) :
    (extensions word total).card = 2 ^ (total - word.length) := by
  have count : Fintype.card (List.Vector Bool (total - word.length)) = 2 ^ (total - word.length) := by
    simp
  rw [← count, ← Finset.card_univ]
  refine (Finset.card_bij (fun rest _ => ⟨word ++ rest.toList, by simp; omega⟩) ?_ ?_ ?_).symm
  · intro rest _
    exact mem_extensions.mpr ⟨rest.toList, rfl⟩
  · intro a _ b _ equal
    exact List.Vector.eq _ _ (List.append_cancel_left (congrArg List.Vector.toList equal))
  · intro longer member
    obtain ⟨rest, appended⟩ := mem_extensions.mp member
    refine ⟨⟨rest, ?_⟩, Finset.mem_univ _, List.Vector.eq _ _ appended⟩
    have length := congrArg List.length appended
    simp only [List.length_append, List.Vector.toList_length] at length
    omega

/-- The next codeword of a code under construction: among the words of `total`
    bits one is left that begins with none of the shorter codewords. -/
theorem exists_fresh_word (s : Finset α) (code : α → List Bool) {total : Nat}
    (shorter : ∀ a ∈ s, (code a).length ≤ total)
    (room : ∑ a ∈ s, 2 ^ (total - (code a).length) < 2 ^ total) :
    ∃ word : List Bool, word.length = total ∧ ∀ a ∈ s, ¬ code a <+: word := by
  have used : (s.biUnion fun a => extensions (code a) total).card < 2 ^ total :=
    calc (s.biUnion fun a => extensions (code a) total).card
        ≤ ∑ a ∈ s, (extensions (code a) total).card := Finset.card_biUnion_le
      _ = ∑ a ∈ s, 2 ^ (total - (code a).length) :=
          Finset.sum_congr rfl fun a member => extensions_card (shorter a member)
      _ < 2 ^ total := room
  have free : ∃ word : List.Vector Bool total, word ∉ s.biUnion fun a => extensions (code a) total := by
    by_contra none
    push Not at none
    have all := Finset.eq_univ_of_forall none
    rw [all, Finset.card_univ, card_vector, Fintype.card_bool] at used
    omega
  obtain ⟨word, fresh⟩ := free
  refine ⟨word.toList, word.toList_length, fun a member isPrefix => fresh ?_⟩
  exact Finset.mem_biUnion.mpr ⟨a, member, mem_extensions.mpr isPrefix⟩

/-- Codewords can be chosen in the order of their lengths. -/
theorem exists_code_on (length : α → Nat) (s : Finset α)
    (kraft : ∑ a ∈ s, (1 / 2 : ℚ) ^ length a ≤ 1) :
    ∃ code : α → List Bool, (∀ a ∈ s, (code a).length = length a) ∧
      ∀ a ∈ s, ∀ b ∈ s, code a <+: code b → a = b := by
  classical
  induction s using Finset.induction_on_max_value length with
  | empty => exact ⟨fun _ => [], by simp, by simp⟩
  | insert a s fresh longest ih =>
    rw [Finset.sum_insert fresh] at kraft
    have positive : (0 : ℚ) < (1 / 2) ^ length a := by positivity
    obtain ⟨code, lengths, separate⟩ := ih (by linarith)
    have room : ∑ b ∈ s, 2 ^ (length a - (code b).length) < 2 ^ length a := by
      have scaled : ((∑ b ∈ s, 2 ^ (length a - (code b).length) : Nat) : ℚ) =
          (∑ b ∈ s, (1 / 2 : ℚ) ^ length b) * 2 ^ length a := by
        push_cast
        rw [Finset.sum_mul]
        refine Finset.sum_congr rfl fun b member => ?_
        rw [lengths b member, pow_sub₀ _ two_ne_zero (longest b member), one_div, inv_pow, mul_comm]
      have cancels : (1 / 2 : ℚ) ^ length a * 2 ^ length a = 1 := by
        rw [← mul_pow]; norm_num
      have power : (0 : ℚ) < 2 ^ length a := by positivity
      have less : ((∑ b ∈ s, 2 ^ (length a - (code b).length) : Nat) : ℚ) < 2 ^ length a := by
        rw [scaled]; nlinarith
      exact_mod_cast less
    obtain ⟨word, wordLength, notBegun⟩ := exists_fresh_word s code
      (fun b member => by rw [lengths b member]; exact longest b member) room
    have other : ∀ b ∈ s, b ≠ a := fun b member equal => fresh (equal ▸ member)
    refine ⟨Function.update code a word, ?_, ?_⟩
    · intro b member
      obtain rfl | old := Finset.mem_insert.mp member
      · rw [Function.update_self, wordLength]
      · rw [Function.update_of_ne (other b old), lengths b old]
    · intro b bMember c cMember isPrefix
      obtain rfl | bOld := Finset.mem_insert.mp bMember <;>
        obtain cNew | cOld := Finset.mem_insert.mp cMember
      · exact cNew.symm
      · rw [Function.update_self, Function.update_of_ne (other c cOld)] at isPrefix
        have long : (code c).length ≤ word.length := by
          rw [lengths c cOld, wordLength]; exact longest c cOld
        have same : word = code c := isPrefix.eq_of_length_le long
        exact absurd (same ▸ List.prefix_rfl) (notBegun c cOld)
      · subst cNew
        rw [Function.update_self, Function.update_of_ne (other b bOld)] at isPrefix
        exact absurd isPrefix (notBegun b bOld)
      · rw [Function.update_of_ne (other b bOld), Function.update_of_ne (other c cOld)] at isPrefix
        exact separate b bOld c cOld isPrefix

/-- A prefix-free code with given lengths exists exactly when they satisfy the
    Kraft inequality. -/
theorem exists_prefixFree_iff [Fintype α] (length : α → Nat) :
    (∃ code : α → List Bool, (∀ a, (code a).length = length a) ∧ PrefixFree code) ↔
      kraftSum length ≤ 1 := by
  classical
  constructor
  · rintro ⟨code, lengths, prefixFree⟩
    let longest := Finset.univ.sup length
    have bounded : ∀ a, length a ≤ longest := fun a => Finset.le_sup (Finset.mem_univ a)
    rw [kraftSum_le_one_iff bounded]
    have disjoint : ∀ a ∈ Finset.univ, ∀ b ∈ Finset.univ, a ≠ b →
        Disjoint (extensions (code a) longest) (extensions (code b) longest) := by
      intro a _ b _ different
      rw [Finset.disjoint_left]
      intro longer aPrefix bPrefix
      rw [mem_extensions] at aPrefix bPrefix
      obtain isPrefix | isPrefix := List.prefix_or_prefix_of_prefix aPrefix bPrefix
      · exact different (prefixFree a b isPrefix)
      · exact different (prefixFree b a isPrefix).symm
    calc ∑ a, 2 ^ (longest - length a)
        = ∑ a, (extensions (code a) longest).card := by
          refine Finset.sum_congr rfl fun a _ => ?_
          rw [extensions_card (by rw [lengths a]; exact bounded a), lengths a]
      _ = (Finset.univ.biUnion fun a => extensions (code a) longest).card :=
          (Finset.card_biUnion disjoint).symm
      _ ≤ Fintype.card (List.Vector Bool longest) := Finset.card_le_univ _
      _ = 2 ^ longest := by rw [card_vector, Fintype.card_bool]
  · intro kraft
    obtain ⟨code, lengths, separate⟩ := exists_code_on length Finset.univ kraft
    exact ⟨code, fun a => lengths a (Finset.mem_univ a),
      fun a b => separate a (Finset.mem_univ a) b (Finset.mem_univ b)⟩

end Coding
