import Mathlib

/-! # Collecting values by key

A list is worked off from the front; each element is added to an accumulator
that is found in an ordered map under the key of the element, or is fresh when
there is none.  In the end the map has one entry for each key, which has
accumulated the elements with this key in their order.
-/

/-- A monadic fold whose steps all succeed. -/
theorem List.foldlM_eq_some {α σ : Type*} {step : σ → α → Option σ} {next : σ → α → σ}
    {list : List α} (each : ∀ a ∈ list, ∀ state, step state a = some (next state a)) (state : σ) :
    list.foldlM step state = some (list.foldl next state) := by
  induction list generalizing state with
  | nil => rfl
  | cons a list ih =>
    rw [List.foldlM_cons, each a List.mem_cons_self]
    exact ih (fun b member => each b (List.mem_cons_of_mem a member)) (next state a)

/-- The steps of a monadic fold that do nothing can be left out. -/
theorem List.foldlM_skip {α σ : Type*} {p : α → Prop} [DecidablePred p] {step : σ → α → Option σ}
    (skip : ∀ state a, ¬ p a → step state a = some state) (list : List α) (state : σ) :
    list.foldlM step state = (list.filter p).foldlM step state := by
  induction list generalizing state with
  | nil => rfl
  | cons a list ih =>
    by_cases kept : p a
    · rw [List.filter_cons_of_pos (by simpa using kept), List.foldlM_cons, List.foldlM_cons]
      exact bind_congr fun next => ih next
    · rw [List.filter_cons_of_neg (by simpa using kept), List.foldlM_cons, skip state a kept]
      exact ih state

/-- The steps of a monadic fold that succeeds have all succeeded. -/
theorem List.foldlM_each {α σ : Type*} {step : σ → α → Option σ} {list : List α} {state last : σ}
    (run : list.foldlM step state = some last) :
    ∀ a ∈ list, ∃ before after, step before a = some after := by
  induction list generalizing state with
  | nil => simp
  | cons a list ih =>
    rw [List.foldlM_cons] at run
    obtain ⟨next, here, rest⟩ := Option.bind_eq_some_iff.mp run
    rw [List.forall_mem_cons]
    exact ⟨⟨state, next, here⟩, ih rest⟩

/-- A monadic fold whose steps succeed and keep an invariant. -/
theorem List.foldlM_invariant {α σ : Type*} {step : σ → α → Option σ} {invariant : σ → Prop}
    {list : List α} (each : ∀ a ∈ list, ∀ state, invariant state →
      ∃ state', step state a = some state' ∧ invariant state') {state : σ}
    (holds : invariant state) :
    ∃ last, list.foldlM step state = some last ∧ invariant last := by
  induction list generalizing state with
  | nil => exact ⟨state, rfl, holds⟩
  | cons a list ih =>
    obtain ⟨next, here, nextHolds⟩ := each a List.mem_cons_self state holds
    rw [List.foldlM_cons, here]
    exact ih (fun b member => each b (List.mem_cons_of_mem a member)) nextHolds

/-- What every step of a monadic fold keeps, the fold keeps. -/
theorem List.foldlM_keeps {α σ : Type*} {step : σ → α → Option σ} {invariant : σ → Prop}
    (keeps : ∀ state a state', step state a = some state' → invariant state → invariant state')
    {list : List α} {state state' : σ} (run : list.foldlM step state = some state')
    (holds : invariant state) : invariant state' := by
  induction list generalizing state with
  | nil =>
    obtain rfl := Option.some.inj run
    exact holds
  | cons a list ih =>
    rw [List.foldlM_cons] at run
    obtain ⟨next, here, rest⟩ := Option.bind_eq_some_iff.mp run
    exact ih rest (keeps state a next here holds)

/-- What every step of a monadic fold over a list with its places keeps, the fold keeps. -/
theorem List.foldlM_zipIdx_keeps {α σ : Type*} {step : σ → α × Nat → Option σ}
    {invariant : Nat → σ → Prop} {list : List α} {start : Nat}
    (keeps : ∀ i a state state', list[i]? = some a → step state (a, start + i) = some state' →
      invariant (start + i) state → invariant (start + i + 1) state') {state state' : σ}
    (run : (list.zipIdx start).foldlM step state = some state') (holds : invariant start state) :
    invariant (start + list.length) state' := by
  induction list generalizing start state with
  | nil =>
    obtain rfl := Option.some.inj run
    exact holds
  | cons a list ih =>
    rw [List.zipIdx_cons, List.foldlM_cons] at run
    obtain ⟨next, here, rest⟩ := Option.bind_eq_some_iff.mp run
    have holds' := keeps 0 a state next rfl here holds
    rw [List.length_cons, Nat.add_comm list.length, ← Nat.add_assoc]
    refine ih (fun i b state state' at_i => ?_) rest holds'
    rw [Nat.add_right_comm start 1, Nat.add_assoc start i 1]
    exact keeps (i + 1) b state state' at_i

/-- A monadic fold whose steps append to an output that they do not read, next to
    a state with an invariant. -/
theorem List.foldlM_appends {α β σ : Type*} {step : List β × σ → α → Option (List β × σ)}
    (out : α → List β) (invariant : σ → Prop) {list : List α}
    (each : ∀ a ∈ list, ∀ queue state, invariant state →
      ∃ state', invariant state' ∧ step (queue, state) a = some (queue ++ out a, state'))
    (queue : List β) {state : σ} (holds : invariant state) :
    ∃ state', invariant state' ∧
      list.foldlM step (queue, state) = some (queue ++ list.flatMap out, state') := by
  induction list generalizing queue state with
  | nil => exact ⟨state, holds, by simp⟩
  | cons a list ih =>
    obtain ⟨next, nextHolds, here⟩ := each a List.mem_cons_self queue state holds
    obtain ⟨state', holds', run⟩ := ih
      (fun b member => each b (List.mem_cons_of_mem a member)) (queue ++ out a) nextHolds
    refine ⟨state', holds', ?_⟩
    rw [List.foldlM_cons, here, Option.bind_eq_bind, Option.bind_some, run, List.flatMap_cons,
      List.append_assoc]

structure Grouping (α K V : Type*) where
  key : α → K
  fresh : V
  add : V → α → V

namespace Grouping

variable {α K V : Type*} (grouping : Grouping α K V)

/-! ## The accumulators -/

section

variable [DecidableEq K]

/-- What the accumulator of a key has become. -/
def value (list : List α) (k : K) : V :=
  (list.filter fun a => grouping.key a = k).foldl grouping.add grouping.fresh

theorem value_append (list : List α) (a : α) :
    grouping.value (list ++ [a]) (grouping.key a) =
      grouping.add (grouping.value list (grouping.key a)) a := by
  simp [value]

theorem value_append_of_ne (list : List α) {a : α} {k : K} (different : grouping.key a ≠ k) :
    grouping.value (list ++ [a]) k = grouping.value list k := by
  simp [value, different]

theorem value_of_forall_ne {list : List α} {k : K} (none : ∀ a ∈ list, grouping.key a ≠ k) :
    grouping.value list k = grouping.fresh := by
  have empty : list.filter (fun a => grouping.key a = k) = [] :=
    List.filter_eq_nil_iff.mpr fun a member => by simpa using none a member
  simp [value, empty]

/-- What holds of an accumulator as soon as it holds of one of the elements. -/
theorem value_iff {P : V → Prop} {Q : α → Prop} (fresh : ¬ P grouping.fresh)
    (add : ∀ v a, P (grouping.add v a) ↔ P v ∨ Q a) (list : List α) (k : K) :
    P (grouping.value list k) ↔ ∃ a ∈ list, grouping.key a = k ∧ Q a := by
  have folded (v : V) (members : List α) :
      P (members.foldl grouping.add v) ↔ P v ∨ ∃ a ∈ members, Q a := by
    induction members generalizing v with
    | nil => simp
    | cons a members ih =>
      rw [List.foldl_cons, ih, add, or_assoc]
      simp
  rw [value, folded]
  simp [fresh, and_assoc]

/-- Counts the elements of each key. -/
def counting (key : α → K) : Grouping α K Nat where
  key := key
  fresh := 0
  add n _ := n + 1

theorem value_counting (key : α → K) (list : List α) (k : K) :
    (counting key).value list k = (list.map key).count k := by
  have folded (n : Nat) (members : List α) :
      members.foldl (counting key).add n = n + members.length := by
    induction members generalizing n with
    | nil => rfl
    | cons a members ih =>
      rw [List.foldl_cons, ih, List.length_cons]
      show n + 1 + members.length = n + (members.length + 1)
      omega
  rw [value, folded, List.count_eq_countP, List.countP_map, ← List.countP_eq_length_filter]
  show 0 + _ = _
  rw [Nat.zero_add]
  apply List.countP_congr
  intro a _
  rw [decide_eq_true_eq, Function.comp_apply, beq_iff_eq]
  rfl

end

/-! ## The map -/

section

variable [Ord K]

/-- Add one element to the accumulator of its key. -/
def insert (map : Std.TreeMap K V) (a : α) : Std.TreeMap K V :=
  map.insert (grouping.key a) (grouping.add (map[grouping.key a]?.getD grouping.fresh) a)

def collect (list : List α) : Std.TreeMap K V :=
  list.foldl grouping.insert ∅

theorem collect_append (list : List α) (a : α) :
    grouping.collect (list ++ [a]) = grouping.insert (grouping.collect list) a := by
  simp [collect]

theorem nodup_keys_collect [Std.TransOrd K] (list : List α) :
    ((grouping.collect list).toList.map Prod.fst).Nodup := by
  rw [Std.TreeMap.map_fst_toList_eq_keys]
  exact Std.TreeMap.nodup_keys

end

variable [Ord K] [Std.TransOrd K] [Std.LawfulEqOrd K] [DecidableEq K]

theorem getElem?_collect (list : List α) (k : K) :
    (grouping.collect list)[k]? =
      if ∃ a ∈ list, grouping.key a = k then some (grouping.value list k) else none := by
  induction list using List.reverseRecOn with
  | nil => simp [collect]
  | append_singleton list a ih =>
    rw [collect_append, insert, Std.TreeMap.getElem?_insert]
    by_cases same : grouping.key a = k
    · subst same
      have found : (grouping.collect list)[grouping.key a]?.getD grouping.fresh =
          grouping.value list (grouping.key a) := by
        rw [ih]
        split
        · rfl
        · rename_i none
          exact (grouping.value_of_forall_ne fun b member isKey => none ⟨b, member, isKey⟩).symm
      rw [found, ← value_append, if_pos (Std.ReflOrd.compare_self), if_pos ⟨a, by simp, rfl⟩]
    · have apart : compare (grouping.key a) k ≠ .eq := fun isEq =>
        same (Std.LawfulEqOrd.eq_of_compare isEq)
      rw [if_neg apart, ih, value_append_of_ne grouping list same]
      have members : (∃ b ∈ list ++ [a], grouping.key b = k) ↔ ∃ b ∈ list, grouping.key b = k := by
        constructor
        · rintro ⟨b, member, isKey⟩
          cases List.mem_append.mp member with
          | inl inList => exact ⟨b, inList, isKey⟩
          | inr isLast => exact absurd (List.mem_singleton.mp isLast ▸ isKey) same
        · rintro ⟨b, member, isKey⟩
          exact ⟨b, List.mem_append_left [a] member, isKey⟩
      simp only [members]

/-- The entries of the map. -/
theorem mem_toList_collect {list : List α} {k : K} {v : V} :
    (k, v) ∈ (grouping.collect list).toList ↔
      (∃ a ∈ list, grouping.key a = k) ∧ v = grouping.value list k := by
  rw [Std.TreeMap.mem_toList_iff_getElem?_eq_some, getElem?_collect]
  split
  · rename_i found
    exact ⟨fun same => ⟨found, (Option.some.inj same).symm⟩, fun both => by rw [both.2]⟩
  · rename_i none
    exact ⟨fun same => absurd same (by simp), fun both => absurd both.1 none⟩

/-- One entry for each key. -/
theorem length_toList_collect (list : List α) :
    (grouping.collect list).toList.length = (list.map grouping.key).toFinset.card := by
  have keys : ((grouping.collect list).toList.map Prod.fst).toFinset =
      (list.map grouping.key).toFinset := by
    ext k
    rw [List.mem_toFinset, List.mem_toFinset, List.mem_map, List.mem_map]
    constructor
    · rintro ⟨⟨k', v⟩, member, rfl⟩
      exact (grouping.mem_toList_collect.mp member).1
    · rintro ⟨a, member, rfl⟩
      exact ⟨(_, grouping.value list _), grouping.mem_toList_collect.mpr ⟨⟨a, member, rfl⟩, rfl⟩, rfl⟩
  rw [← keys, List.toFinset_card_of_nodup (grouping.nodup_keys_collect list), List.length_map]

/-! ## Counting -/

variable (key : α → K) (list : List α)

/-- An entry has the number of elements of its key, which is not zero. -/
theorem mem_toList_counting {k : K} {n : Nat} :
    (k, n) ∈ ((counting key).collect list).toList ↔ 0 < n ∧ n = (list.map key).count k := by
  rw [mem_toList_collect, value_counting]
  have isKey : (∃ a ∈ list, (counting key).key a = k) ↔ k ∈ list.map key := by
    simp [counting]
  rw [isKey, ← List.count_pos_iff]
  constructor
  · rintro ⟨positive, rfl⟩
    exact ⟨positive, rfl⟩
  · rintro ⟨positive, rfl⟩
    exact ⟨positive, rfl⟩

theorem sum_toList_counting :
    (((counting key).collect list).toList.map Prod.snd).sum = list.length := by
  have counts : ((counting key).collect list).toList.map Prod.snd =
      (((counting key).collect list).toList.map Prod.fst).map fun k => (list.map key).count k := by
    rw [List.map_map]
    apply List.map_congr_left
    rintro ⟨k, n⟩ member
    exact ((mem_toList_counting key list).mp member).2
  have keys : (((counting key).collect list).toList.map Prod.fst).Perm (list.map key).dedup := by
    apply (List.perm_ext_iff_of_nodup ((counting key).nodup_keys_collect list)
      (List.nodup_dedup _)).mpr
    intro k
    rw [List.mem_dedup, List.mem_map]
    constructor
    · rintro ⟨⟨k', n⟩, member, rfl⟩
      obtain ⟨positive, isCount⟩ := (mem_toList_counting key list).mp member
      exact List.count_pos_iff.mp (isCount ▸ positive)
    · intro member
      exact ⟨(k, _), (mem_toList_counting key list).mpr ⟨List.count_pos_iff.mpr member, rfl⟩, rfl⟩
  rw [counts, (keys.map _).sum_eq, List.sum_map_count_dedup_eq_length, List.length_map]

end Grouping
