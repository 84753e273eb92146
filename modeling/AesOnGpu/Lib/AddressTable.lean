import Mathlib

/-! # Tables of objects

A table gives some of its keys the address of an object. When each entry is filled with an
address that is not in use, no two keys ever have the same object.
-/

namespace AesOnGpu.Lib

variable {ι : Type*} {objects objects' : Finset Nat} {lookup : ι → Option Nat}

structure AddressTable (objects : Finset Nat) (lookup : ι → Option Nat) : Prop where
  mem : ∀ {i p}, lookup i = some p → p ∈ objects
  inj : ∀ {i i' p}, lookup i = some p → lookup i' = some p → i = i'

namespace AddressTable

theorem empty (objects : Finset Nat) : AddressTable objects (fun _ : ι => none) :=
  ⟨fun h => (Option.some_ne_none _ h.symm).elim, fun h => (Option.some_ne_none _ h.symm).elim⟩

theorem mono (htable : AddressTable objects lookup) (hsubset : objects ⊆ objects') :
    AddressTable objects' lookup :=
  ⟨fun h => hsubset (htable.mem h), htable.inj⟩

variable [DecidableEq ι]

theorem insert (htable : AddressTable objects lookup) {p : Nat} (hfresh : p ∉ objects) (i : ι) :
    AddressTable (insert p objects) (Function.update lookup i (some p)) where
  mem := by
    intro j q hq
    by_cases hj : j = i
    · subst hj
      rw [Function.update_self, Option.some.injEq] at hq
      exact hq ▸ Finset.mem_insert_self _ _
    · rw [Function.update_of_ne hj] at hq
      exact Finset.mem_insert_of_mem (htable.mem hq)
  inj := by
    intro j j' q hj hj'
    -- an old entry is an address in use, so that it is not the new one
    have hold : ∀ k, Function.update lookup i (some p) k = some q →
        (k = i ∧ q = p) ∨ (lookup k = some q ∧ q ≠ p) := by
      intro k hk
      by_cases hki : k = i
      · subst hki
        rw [Function.update_self, Option.some.injEq] at hk
        exact Or.inl ⟨rfl, hk.symm⟩
      · rw [Function.update_of_ne hki] at hk
        exact Or.inr ⟨hk, fun heq => hfresh (heq ▸ htable.mem hk)⟩
    cases hold j hj with
    | inl hnew =>
        cases hold j' hj' with
        | inl hnew' => exact hnew.1.trans hnew'.1.symm
        | inr hold' => exact absurd hnew.2 hold'.2
    | inr hold₁ =>
        cases hold j' hj' with
        | inl hnew' => exact absurd hnew'.2 hold₁.2
        | inr hold' => exact htable.inj hold₁.1 hold'.1

/-- An entry that is there stays when an empty one is filled. -/
theorem update_of_some {i j : ι} {p q : Nat} (hempty : lookup i = none) (hj : lookup j = some q) :
    Function.update lookup i (some p) j = some q := by
  have hne : j ≠ i := by
    rintro rfl
    simp [hempty] at hj
  rw [Function.update_of_ne hne, hj]

end AddressTable

end AesOnGpu.Lib
