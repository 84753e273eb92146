import Mathlib

/-! # Serial updates

Threads update a memory one after the other.  Each reads its cells, keeps what it saw, and writes
back a function of it.  Two functions for the new values leave the same memory and have the threads
see the same only if they agree on what every thread sees (`serial_eq_iff`): a difference in memory
stays there, or the next thread that reads it sees it.  Only the order of threads that have a cell
in common matters (`serial_eq_of_perm`).
-/

namespace SerialUpdates

variable {ι κ A α : Type*}

@[ext]
structure State (ι κ A α : Type*) where
  memory : A → α
  seen : ι → Option (κ → α)

variable [DecidableEq ι] (cells : ι → κ → A) (update update' : ι → (κ → α) → κ → α)

/-- What a thread sees. -/
def looked (s : State ι κ A α) (t : ι) : κ → α := fun k => s.memory (cells t k)

noncomputable def turn (s : State ι κ A α) (t : ι) : State ι κ A α where
  memory := Function.extend (cells t) (update t (looked cells s t)) s.memory
  seen := Function.update s.seen t (some (looked cells s t))

noncomputable def serial (order : List ι) (s : State ι κ A α) : State ι κ A α :=
  order.foldl (turn cells update) s

/-! ## Turns -/

section

variable {cells update update'} {s s' : State ι κ A α} {t : ι} {order : List ι}

@[simp]
theorem serial_cons :
    serial cells update (t :: order) s = serial cells update order (turn cells update s t) := rfl

theorem turn_inside (distinct : Function.Injective (cells t)) (k : κ) :
    (turn cells update s t).memory (cells t k) = update t (looked cells s t) k :=
  distinct.extend_apply _ _ _

theorem turn_outside {a : A} (outside : ∀ k, cells t k ≠ a) :
    (turn cells update s t).memory a = s.memory a :=
  Function.extend_apply' _ _ _ fun ⟨k, same⟩ => outside k same

theorem turn_seen : (turn cells update s t).seen t = some (looked cells s t) :=
  Function.update_self _ _ _

/-- A thread that has had its turn keeps what it saw. -/
theorem serial_seen (absent : t ∉ order) : (serial cells update order s).seen t = s.seen t := by
  induction order generalizing s with
  | nil => rfl
  | cons t' order ih =>
    rw [List.mem_cons, not_or] at absent
    rw [serial_cons, ih absent.2]
    exact Function.update_of_ne absent.1 _ _

/-- Every thread that has a turn sees something. -/
theorem serial_seen_isSome (once : order.Nodup) (inside : t ∈ order) :
    ((serial cells update order s).seen t).isSome := by
  induction order generalizing s with
  | nil => cases inside
  | cons t' order ih =>
    rw [List.nodup_cons] at once
    rw [serial_cons]
    rcases List.mem_cons.mp inside with rfl | later
    · rw [serial_seen once.1, turn_seen]
      rfl
    · exact ih once.2 later

/-! ## Differences -/

/-- A difference in memory does not go unnoticed. -/
theorem serial_ne_of_memory_ne (once : order.Nodup) (differ : s.memory ≠ s'.memory) :
    serial cells update order s ≠ serial cells update' order s' := by
  induction order generalizing s s' with
  | nil => exact fun same => differ (congrArg State.memory same)
  | cons t order ih =>
    rw [List.nodup_cons] at once
    obtain ⟨a, differ⟩ := Function.ne_iff.mp differ
    rw [serial_cons, serial_cons]
    by_cases inside : ∃ k, cells t k = a
    · -- The thread reads the cell, and sees different values from here on.
      obtain ⟨k, rfl⟩ := inside
      intro same
      have seen : (serial cells update order (turn cells update s t)).seen t =
          (serial cells update' order (turn cells update' s' t)).seen t := by rw [same]
      rw [serial_seen once.1, serial_seen once.1, turn_seen, turn_seen] at seen
      exact differ (congrFun (Option.some.inj seen) k)
    · have outside : ∀ k, cells t k ≠ a := fun k same => inside ⟨k, same⟩
      refine ih once.2 (Function.ne_iff.mpr ⟨a, ?_⟩)
      rwa [turn_outside outside, turn_outside outside]

/-- The functions agree on what each thread sees when its turn comes. -/
def AgreeInTurn (cells : ι → κ → A) (update update' : ι → (κ → α) → κ → α) (order : List ι)
    (s : State ι κ A α) : Prop :=
  ∀ before t after, order = before ++ t :: after →
    update t (looked cells (serial cells update' before s) t) =
      update' t (looked cells (serial cells update' before s) t)

theorem agreeInTurn_cons :
    AgreeInTurn cells update update' (t :: order) s ↔
      update t (looked cells s t) = update' t (looked cells s t) ∧
        AgreeInTurn cells update update' order (turn cells update' s t) := by
  constructor
  · intro agree
    exact ⟨agree [] t order rfl, fun before t' after split =>
      agree (t :: before) t' after (by rw [split]; rfl)⟩
  · rintro ⟨first, rest⟩ before t' after split
    cases before with
    | nil =>
      obtain ⟨rfl, rfl⟩ := List.cons.inj split
      exact first
    | cons t'' before =>
      obtain ⟨rfl, rfl⟩ := List.cons.inj split
      exact rest before t' after rfl

theorem serial_eq_iff (distinct : ∀ t, Function.Injective (cells t)) (once : order.Nodup) :
    serial cells update order s = serial cells update' order s ↔
      AgreeInTurn cells update update' order s := by
  induction order generalizing s with
  | nil => exact iff_of_true rfl fun before t after split => by cases before <;> cases split
  | cons t order ih =>
    rw [List.nodup_cons] at once
    rw [agreeInTurn_cons, serial_cons, serial_cons]
    by_cases agree : update t (looked cells s t) = update' t (looked cells s t)
    · have same : turn cells update s t = turn cells update' s t := by
        rw [turn, turn, agree]
      rw [same, ih once.2]
      exact ⟨fun rest => ⟨agree, rest⟩, And.right⟩
    · obtain ⟨k, differ⟩ := Function.ne_iff.mp agree
      refine iff_of_false (serial_ne_of_memory_ne once.2 ?_) fun both => agree both.1
      refine Function.ne_iff.mpr ⟨cells t k, ?_⟩
      rwa [turn_inside (distinct t), turn_inside (distinct t)]

/-! ## Orders -/

/-- The threads have a cell in common. -/
def Overlap (cells : ι → κ → A) (t t' : ι) : Prop := ∃ k k', cells t k = cells t' k'

omit [DecidableEq ι] in
theorem Overlap.symm {t' : ι} : Overlap cells t t' → Overlap cells t' t :=
  fun ⟨k, k', same⟩ => ⟨k', k, same.symm⟩

theorem looked_turn {t' : ι} (apart : ¬ Overlap cells t t') :
    looked cells (turn cells update s t) t' = looked cells s t' :=
  funext fun k' => turn_outside fun k same => apart ⟨k, k', same⟩

/-- What a thread writes depends on what it sees. -/
theorem turn_own {a : A} (own : ∃ k, cells t k = a) (same : looked cells s t = looked cells s' t) :
    (turn cells update s t).memory a = (turn cells update s' t).memory a := by
  simp only [turn, Function.extend, dif_pos own, same]

theorem turn_comm {t' : ι} (different : t ≠ t') (apart : ¬ Overlap cells t t') :
    turn cells update (turn cells update s t) t' =
      turn cells update (turn cells update s t') t := by
  have apart' : ¬ Overlap cells t' t := fun overlap => apart overlap.symm
  refine State.ext (funext fun a => ?_) ?_
  · by_cases own : ∃ k, cells t k = a
    · have others : ∀ k', cells t' k' ≠ a := by
        rintro k' rfl
        obtain ⟨k, same⟩ := own
        exact apart ⟨k, k', same⟩
      rw [turn_outside others]
      exact turn_own own (looked_turn apart').symm
    · have outside : ∀ k, cells t k ≠ a := fun k same => own ⟨k, same⟩
      rw [turn_outside (s := turn cells update s t') outside]
      by_cases own' : ∃ k', cells t' k' = a
      · exact turn_own own' (looked_turn apart)
      · have outside' : ∀ k', cells t' k' ≠ a := fun k' same => own' ⟨k', same⟩
        rw [turn_outside outside', turn_outside outside', turn_outside outside]
  · change Function.update (Function.update _ _ _) _ _ = Function.update (Function.update _ _ _) _ _
    rw [looked_turn apart, looked_turn apart']
    exact Function.update_comm different _ _ _

/-- A thread goes before others that it has no cell in common with. -/
theorem serial_advance {before after : List ι} (absent : t ∉ before)
    (apart : ∀ t' ∈ before, ¬ Overlap cells t' t) :
    serial cells update (before ++ t :: after) s =
      serial cells update (t :: (before ++ after)) s := by
  induction before generalizing s with
  | nil => rfl
  | cons t' before ih =>
    rw [List.mem_cons, not_or] at absent
    have first := apart t' List.mem_cons_self
    rw [List.cons_append, serial_cons,
      ih absent.2 fun t'' member => apart t'' (List.mem_cons_of_mem _ member), serial_cons,
      turn_comm (Ne.symm absent.1) first]
    rfl

/-- Two orders have the same effect if threads with a common cell are in the same order in both. -/
theorem serial_eq_of_perm {order' : List ι} (earlier : ι → ι → Prop)
    (asymmetric : ∀ {t t'}, earlier t t' → ¬ earlier t' t) (once : order.Nodup)
    (perm : order.Perm order')
    (sorted : order.Pairwise fun t t' => Overlap cells t t' → earlier t t')
    (sorted' : order'.Pairwise fun t t' => Overlap cells t t' → earlier t t') :
    serial cells update order s = serial cells update order' s := by
  induction order generalizing s order' with
  | nil => rw [List.nil_perm.mp perm]
  | cons t order ih =>
    rw [List.nodup_cons] at once
    obtain ⟨first, sorted⟩ := List.pairwise_cons.mp sorted
    obtain ⟨before, after, rfl⟩ := List.append_of_mem (perm.mem_iff.mp List.mem_cons_self)
    have rest : order.Perm (before ++ after) := (perm.trans List.perm_middle).cons_inv
    obtain ⟨sortedBefore, sortedAfter, across⟩ := List.pairwise_append.mp sorted'
    have inRest : ∀ t' ∈ before, t' ∈ order :=
      fun t' member => rest.mem_iff.mpr (List.mem_append_left _ member)
    have apart : ∀ t' ∈ before, ¬ Overlap cells t' t := fun t' member overlap =>
      asymmetric (first t' (inRest t' member) overlap.symm)
        (across t' member t List.mem_cons_self overlap)
    rw [serial_advance (fun member => once.1 (inRest t member)) apart, serial_cons, serial_cons]
    refine ih once.2 rest sorted (List.pairwise_append.mpr
      ⟨sortedBefore, (List.pairwise_cons.mp sortedAfter).2, fun t' member t'' later => ?_⟩)
    exact across t' member t'' (List.mem_cons_of_mem _ later)

/-- Nobody changes anything. -/
theorem serial_unchanged (order : List ι) :
    (serial cells (fun _ old => old) order s).memory = s.memory ∧
      ∀ t, (serial cells (fun _ old => old) order s).seen t =
        if t ∈ order then some (looked cells s t) else s.seen t := by
  induction order generalizing s with
  | nil => simp [serial]
  | cons t order ih =>
    have kept : (turn cells (fun _ old => old) s t).memory = s.memory := by
      funext a
      by_cases own : ∃ k, cells t k = a
      · simp only [turn, Function.extend, dif_pos own]
        exact congrArg s.memory own.choose_spec
      · exact turn_outside fun k same => own ⟨k, same⟩
    have same : ∀ t', looked cells (turn cells (fun _ old => old) s t) t' = looked cells s t' :=
      fun t' => funext fun k => congrFun kept _
    obtain ⟨memory, seen⟩ := @ih (turn cells (fun _ old => old) s t)
    refine ⟨memory.trans kept, fun t' => ?_⟩
    rw [serial_cons, seen, same]
    by_cases own : t' = t
    · subst own
      simp [turn]
    · simp [turn, own]

theorem serial_unchanged_perm {order' : List ι} (perm : order.Perm order') :
    serial cells (fun _ old => old) order s = serial cells (fun _ old => old) order' s := by
  obtain ⟨memory, seen⟩ := @serial_unchanged _ _ _ _ _ cells s order
  obtain ⟨memory', seen'⟩ := @serial_unchanged _ _ _ _ _ cells s order'
  refine State.ext (memory.trans memory'.symm) (funext fun t => ?_)
  rw [seen, seen', if_congr perm.mem_iff rfl rfl]

/-- Nobody changes anything if nobody changes what was there before. -/
theorem serial_eq_unchanged_iff (distinct : ∀ t, Function.Injective (cells t))
    (once : order.Nodup) :
    serial cells update order s = serial cells (fun _ old => old) order s ↔
      ∀ t ∈ order, update t (looked cells s t) = looked cells s t := by
  have unchanged : ∀ before t,
      looked cells (serial cells (fun _ old => old) before s) t = looked cells s t :=
    fun before t => funext fun k => congrFun (serial_unchanged before).1 _
  rw [serial_eq_iff distinct once]
  constructor
  · intro agree t member
    obtain ⟨before, after, split⟩ := List.append_of_mem member
    simpa only [unchanged] using agree before t after split
  · rintro kept before t after rfl
    rw [unchanged]
    exact kept t (by simp)

end

end SerialUpdates
