import AesOnGpu.Lib.WeakOrder

/-! # The orderings of `scheduler_unit`

`order_lrr` and `order_by_priority` of `gpgpu-sim/shader.cc`.  An iterator is an index, and the
length is `end()`; `none` is a failed assertion, `abort` or an iterator that is dereferenced at
the end.
-/

namespace AesOnGpu.Scheduler

open WeakOrder (Sorting StrictWeak)

/-- `scheduler_prioritization_type`. -/
inductive SchedulerPrioritizationType where
  | SCHEDULER_PRIORITIZATION_LRR
  | SCHEDULER_PRIORITIZATION_SRR
  | SCHEDULER_PRIORITIZATION_GTO
  | SCHEDULER_PRIORITIZATION_GTLRR
  | SCHEDULER_PRIORITIZATION_GTY
  | SCHEDULER_PRIORITIZATION_OLDEST
  | SCHEDULER_PRIORITIZATION_YOUNGEST
  deriving DecidableEq

inductive OrderingType where
  | ORDERING_GREEDY_THEN_PRIORITY_FUNC
  | ORDERED_PRIORITY_FUNC_ONLY
  | NUM_ORDERING
  deriving DecidableEq

variable {T : Type}

/-! ## Loose round robin -/

/-- The loop of `order_lrr`, with as many turns left. -/
def lrrLoop (input_list : List T) : Nat → Nat → List T → Option (List T)
  | 0, _, result_list => some result_list
  | count + 1, iter, result_list => do
    let iter := if iter = input_list.length then 0 else iter
    let item ← input_list[iter]?
    lrrLoop input_list count (iter + 1) (result_list ++ [item])

def order_lrr (input_list : List T) (last_issued_from_input num_warps_to_add : Nat) :
    Option (List T) :=
  if num_warps_to_add ≤ input_list.length then
    lrrLoop input_list num_warps_to_add
      (if last_issued_from_input = input_list.length then 0 else last_issued_from_input + 1) []
  else none

theorem lrrLoop_eq (input_list : List T) {count iter : Nat} (result_list : List T)
    (enough : count ≤ input_list.length) (inside : iter ≤ input_list.length) :
    lrrLoop input_list count iter result_list =
      some (result_list ++ (input_list.rotate iter).take count) := by
  induction count generalizing iter result_list with
  | zero => simp [lrrLoop]
  | succ count ih =>
    have wrapped : (if iter = input_list.length then 0 else iter) < input_list.length := by
      split <;> omega
    have same : input_list.rotate iter =
        input_list.rotate (if iter = input_list.length then 0 else iter) := by
      split
      · rename_i atEnd
        rw [atEnd, List.rotate_length, List.rotate_zero]
      · rfl
    rw [same, lrrLoop]
    generalize (if iter = input_list.length then 0 else iter) = start at wrapped
    rw [List.getElem?_eq_getElem wrapped]
    simp only [Option.bind_eq_bind, Option.bind_some]
    rw [ih _ (by omega) (by omega)]
    -- a turn more rotates the first element to the end, out of what is taken
    cases rotated : input_list.rotate start with
    | nil =>
      have := congrArg List.length rotated
      simp at this
      simp [this] at wrapped
    | cons head tail =>
      have first : input_list[start] = head := by
        have entry := List.getElem_rotate input_list start 0 (by simp; omega)
        simp only [rotated, List.getElem_cons_zero, Nat.zero_add, Nat.mod_eq_of_lt wrapped] at entry
        exact entry.symm
      have rest : input_list.rotate (start + 1) = tail ++ [head] := by
        rw [← List.rotate_rotate, rotated, List.rotate_cons_succ, List.rotate_zero]
      have lengths := congrArg List.length rotated
      simp at lengths
      rw [first, rest, List.take_append_of_le_length (by omega)]
      simp

theorem order_lrr_eq (input_list : List T) {last_issued_from_input : Nat}
    (inside : last_issued_from_input ≤ input_list.length) :
    ∃ shift, order_lrr input_list last_issued_from_input input_list.length =
      some (input_list.rotate shift) := by
  have start : (if last_issued_from_input = input_list.length then 0
      else last_issued_from_input + 1) ≤ input_list.length := by
    split <;> omega
  rw [order_lrr, if_pos le_rfl, lrrLoop_eq input_list [] le_rfl start]
  generalize (if last_issued_from_input = input_list.length then 0
    else last_issued_from_input + 1) = shift
  have all : (input_list.rotate shift).take input_list.length = input_list.rotate shift :=
    List.take_of_length_le (List.length_rotate input_list shift).le
  exact ⟨shift, by rw [all, List.nil_append]⟩

/-- `num` warps in cyclic order from a position on; a warp comes no more often than it is in the
    list. -/
structure Rotation (input_list : List T) (start num : Nat) (result_list : List T) : Prop where
  length : result_list.length = num
  cyclic : ∀ k, k < num → result_list[k]? = input_list[(start + k) % input_list.length]?
  once : result_list.Subperm input_list
  nodup : input_list.Nodup → result_list.Nodup

theorem rotation_take (input_list : List T) (start : Nat) {num : Nat}
    (enough : num ≤ input_list.length) :
    Rotation input_list start num ((input_list.rotate start).take num) where
  length := by
    rw [List.length_take, List.length_rotate]
    exact Nat.min_eq_left enough
  cyclic := by
    intro k inside
    rw [List.getElem?_take_of_lt inside, List.getElem?_rotate (by omega), Nat.add_comm]
  once := (List.take_sublist num _).subperm.trans (List.rotate_perm input_list start).subperm
  nodup := fun distinct => (List.nodup_rotate.mpr distinct).sublist (List.take_sublist num _)

theorem Rotation.perm {input_list result_list : List T} {start : Nat}
    (rotation : Rotation input_list start input_list.length result_list) :
    result_list.Perm input_list :=
  rotation.once.perm_of_length_le rotation.length.ge

theorem Rotation.getLast? {input_list result_list : List T} {last : Nat}
    (inside : last < input_list.length)
    (rotation : Rotation input_list (last + 1) input_list.length result_list) :
    result_list.getLast? = input_list[last]? := by
  have final := rotation.cyclic (input_list.length - 1) (by omega)
  have wraps : last + 1 + (input_list.length - 1) = last + input_list.length := by omega
  rw [wraps, Nat.add_mod_right, Nat.mod_eq_of_lt inside] at final
  rw [List.getLast?_eq_getElem?, rotation.length, final]

/-- `order_lrr` offers as many warps as it is asked for, from behind the last that issued, or from
    the start when this one is `end()`.  If it offers all, the last that issued comes last. -/
theorem order_lrr_rotates (input_list : List T) {last_issued_from_input num_warps_to_add : Nat}
    (inside : last_issued_from_input ≤ input_list.length)
    (enough : num_warps_to_add ≤ input_list.length) :
    ∃ result_list,
      order_lrr input_list last_issued_from_input num_warps_to_add = some result_list ∧
      Rotation input_list
        (if last_issued_from_input = input_list.length then 0 else last_issued_from_input + 1)
        num_warps_to_add result_list ∧
      (num_warps_to_add = input_list.length → result_list.Perm input_list ∧
        (last_issued_from_input < input_list.length →
          result_list.getLast? = input_list[last_issued_from_input]?)) := by
  have start : (if last_issued_from_input = input_list.length then 0
      else last_issued_from_input + 1) ≤ input_list.length := by
    split <;> omega
  have rotation := rotation_take input_list
    (if last_issued_from_input = input_list.length then 0 else last_issued_from_input + 1) enough
  refine ⟨_, ?_, rotation, ?_⟩
  · rw [order_lrr, if_pos enough, lrrLoop_eq input_list [] enough start, List.nil_append]
  · rintro rfl
    refine ⟨rotation.perm, fun issued => ?_⟩
    rw [if_neg issued.ne] at rotation ⊢
    exact rotation.getLast? issued

/-- The third of four warps issued last. -/
theorem order_lrr_rotates_four : order_lrr [10, 11, 12, 13] 2 3 = some [13, 10, 11] ∧
    ∃ result_list, order_lrr [10, 11, 12, 13] 2 3 = some result_list ∧
      Rotation [10, 11, 12, 13] 3 3 result_list := by
  obtain ⟨result_list, run, rotation, -⟩ :=
    order_lrr_rotates [10, 11, 12, 13] (show 2 ≤ 4 by omega) (show 3 ≤ 4 by omega)
  exact ⟨rfl, result_list, run, rotation⟩

/-! ## Priority functions -/

section

variable [DecidableEq T]

/-- `sorting` is `std::sort`. -/
def order_by_priority (sorting : Sorting T) (input_list : List T)
    (last_issued_from_input num_warps_to_add : Nat) (ordering : OrderingType)
    (priority_func : T → T → Bool) : Option (List T) :=
  if num_warps_to_add ≤ input_list.length then
    match ordering with
    | .ORDERING_GREEDY_THEN_PRIORITY_FUNC => do
      let greedy_value ← input_list[last_issued_from_input]?
      let temp := sorting.sort priority_func input_list
      return (temp.take num_warps_to_add).foldl
        (fun result_list item => if item ≠ greedy_value then result_list ++ [item] else result_list)
        [greedy_value]
    | .ORDERED_PRIORITY_FUNC_ONLY =>
      let temp := sorting.sort priority_func input_list
      some ((temp.take num_warps_to_add).foldl
        (fun result_list item => result_list ++ [item]) [])
    | .NUM_ORDERING => none
  else none

theorem foldl_others (greedy_value : T) (items result_list : List T) :
    items.foldl
        (fun result_list item => if item ≠ greedy_value then result_list ++ [item] else result_list)
        result_list =
      result_list ++ items.filter fun item => item ≠ greedy_value := by
  induction items generalizing result_list with
  | nil => simp
  | cons item items ih =>
    rw [List.foldl_cons, ih]
    by_cases same : item = greedy_value <;> simp [same]

variable (sorting : Sorting T) {input_list : List T} {last num : Nat} {priority_func : T → T → Bool}

theorem order_greedy {greedy_value : T} (enough : num ≤ input_list.length)
    (here : input_list[last]? = some greedy_value) :
    order_by_priority sorting input_list last num .ORDERING_GREEDY_THEN_PRIORITY_FUNC
        priority_func =
      some (greedy_value :: ((sorting.sort priority_func input_list).take num).filter
        fun item => item ≠ greedy_value) := by
  simp only [order_by_priority, if_pos enough, here, foldl_others]
  rfl

theorem order_greedy_nodup {greedy_value : T} (distinct : input_list.Nodup) :
    (greedy_value :: ((sorting.sort priority_func input_list).take num).filter
      fun item => item ≠ greedy_value).Nodup := by
  have sorted := (sorting.perm priority_func input_list).nodup_iff.mpr distinct
  rw [List.nodup_cons]
  exact ⟨by simp, (sorted.sublist (List.take_sublist num _)).filter _⟩

/-- One more than the number asked for are offered when the greedy value is not among the
    first ones. -/
theorem order_greedy_length {greedy_value : T} (distinct : input_list.Nodup)
    (enough : num ≤ input_list.length) :
    (greedy_value :: ((sorting.sort priority_func input_list).take num).filter
        fun item => item ≠ greedy_value).length =
      if greedy_value ∈ (sorting.sort priority_func input_list).take num then num else num + 1 := by
  have perm := sorting.perm priority_func input_list
  have sorted := (perm.nodup_iff.mpr distinct).sublist (List.take_sublist num _)
  have length : ((sorting.sort priority_func input_list).take num).length = num := by
    rw [List.length_take, perm.length_eq]
    omega
  generalize (sorting.sort priority_func input_list).take num = front at sorted length
  have erased : front.filter (fun item => item ≠ greedy_value) = front.erase greedy_value := by
    rw [sorted.erase_eq_filter]
    exact List.filter_congr fun item _ => by by_cases same : item = greedy_value <;> simp [same]
  rw [List.length_cons, erased]
  split
  · rename_i here
    have := List.length_erase_of_mem here
    have := List.length_pos_of_mem here
    omega
  · rename_i notHere
    rw [List.erase_of_not_mem notHere, length]

end

/-- With any sort, the greedy value is among the first ones exactly when few enough others may
    come before it. -/
theorem greedy_among_first_iff [DecidableEq T] {input_list : List T} {num : Nat}
    {priority_func : T → T → Bool} {greedy_value : T} (weak : StrictWeak priority_func)
    (distinct : input_list.Nodup) (here : greedy_value ∈ input_list) :
    (∀ sorting : Sorting T, greedy_value ∈ (sorting.sort priority_func input_list).take num) ↔
      (input_list.filter fun item =>
        item ≠ greedy_value ∧ priority_func greedy_value item = false).length < num := by
  constructor
  · intro always
    by_contra many
    exact WeakOrder.lateSort_take distinct (Nat.not_lt.mp many) (always (.late greedy_value))
  · intro few sorting
    have inSorted := (sorting.perm priority_func input_list).mem_iff.mpr here
    obtain ⟨before, after, split⟩ := List.append_of_mem inSorted
    obtain ⟨nodup, mayPrecede⟩ := sorting.before_subset weak distinct split
    have fewer : before.length ≤ (input_list.filter fun item =>
        item ≠ greedy_value ∧ priority_func greedy_value item = false).length := by
      apply (nodup.subperm fun item inBefore => ?_).length_le
      simpa using mayPrecede item inBefore
    rw [split, List.mem_take_iff_getElem]
    exact ⟨before.length, by simp; omega, by simp⟩

end AesOnGpu.Scheduler
