import AesOnGpu.ControlFlow.Postdominators

/-! # `find_ipostdominators`

`Tmp_ids` of a block starts as its strict postdominators.  The double loop
erases, while it iterates, every one that postdominates another one still in
the set.  The immediate postdominator is never erased, and its own turn erases all
the others.
-/

namespace AesOnGpu.ControlFlow

variable {n : Nat}

/-! ## The function -/

def initialTmp (blocks : BasicBlocks n) : Option (BasicBlocks n) :=
  if ∀ i, (blocks i).bb_id = i then
    some fun i => { blocks i with Tmp_ids := (blocks i).postdominator_ids.erase i }
  else none

/-- The loop over `t` for one `s`; the iterator is advanced before `t` is erased. -/
def eraseFor (blocks : BasicBlocks n) (s : Fin n) (Tmp : Finset (Fin n)) : Finset (Fin n) :=
  (ascending Tmp).foldl
    (fun Tmp t => if s == t || !decide (t ∈ (blocks s).postdominator_ids) then Tmp else Tmp.erase t)
    Tmp

/-- The loop over `s`; an element that an earlier turn erased is not visited. -/
def eraseAll (blocks : BasicBlocks n) (Tmp : Finset (Fin n)) : Finset (Fin n) :=
  (List.finRange n).foldl (fun Tmp s => if s ∈ Tmp then eraseFor blocks s Tmp else Tmp) Tmp

def erasedTmp (blocks : BasicBlocks n) : BasicBlocks n :=
  (allButExit n).foldl (fun blocks i =>
    Function.update blocks i { blocks i with Tmp_ids := eraseAll blocks (blocks i).Tmp_ids }) blocks

/-- The body of the last loop, with the count of immediate postdominators. -/
def assignTurn (state : BasicBlocks n × Nat) (i : Fin n) : Option (BasicBlocks n × Nat) :=
  let (blocks, num_ipdoms) := state
  if (blocks i).Tmp_ids.card > 1 then none
  else match (ascending (blocks i).Tmp_ids).head? with
    | some d => some
        (Function.update blocks i { blocks i with immediatepostdominator_id := d }, num_ipdoms + 1)
    | none => some (blocks, num_ipdoms)

/-- `none` when an assertion fails. -/
def findIpostdominators (blocks : BasicBlocks n) : Option (BasicBlocks n) := do
  if n < 2 then none
  let blocks ← initialTmp blocks
  let (blocks, num_ipdoms) ← (List.finRange n).reverse.foldlM assignTurn (erasedTmp blocks, 0)
  if num_ipdoms = n - 1 then return blocks else none

/-! ## The double loop -/

theorem mem_eraseFor {blocks : BasicBlocks n} {s t : Fin n} {Tmp : Finset (Fin n)} :
    t ∈ eraseFor blocks s Tmp ↔ t ∈ Tmp ∧ (s = t ∨ t ∉ (blocks s).postdominator_ids) := by
  rw [eraseFor, foldl_erase (fun t => s == t || !decide (t ∈ (blocks s).postdominator_ids)),
    Finset.mem_filter]
  refine and_congr_right fun member => ?_
  simp [member]

theorem eraseFor_removes {edge : Fin n → Fin n → Prop} {exit : Fin n} {blocks : BasicBlocks n}
    (exact_sets : ∀ i d, d ∈ (blocks i).postdominator_ids ↔ FlowGraph.Postdominates edge exit d i) :
    FlowGraph.Removes edge exit fun Tmp s => if s ∈ Tmp then eraseFor blocks s Tmp else Tmp := by
  intro Tmp s t
  dsimp only
  by_cases visited : s ∈ Tmp
  · rw [if_pos visited, mem_eraseFor, exact_sets]
    simp only [visited, true_imp_iff]
  · rw [if_neg visited]
    simp [visited]

theorem eraseAll_eq {graph : ControlFlowGraph n} {blocks : BasicBlocks n}
    (exact_sets : ∀ i d, d ∈ (blocks i).postdominator_ids ↔ graph.Postdominates d i)
    {i d : Fin n} {Tmp : Finset (Fin n)} (immediate : graph.ImmediatePostdominator d i)
    (strict : ∀ e ∈ Tmp, graph.Postdominates e i ∧ e ≠ i) (kept : d ∈ Tmp) :
    eraseAll blocks Tmp = {d} :=
  (eraseFor_removes exact_sets).closest graph.reaches immediate strict kept
    (Or.inl (List.mem_finRange d))

theorem erasedTmp_eq (blocks : BasicBlocks n) (i : Fin n) :
    erasedTmp blocks i =
      if i.val + 1 = n then blocks i
      else { blocks i with Tmp_ids := eraseAll blocks (blocks i).Tmp_ids } := by
  have looks (left right : BasicBlocks n)
      (same : ∀ j, (left j).postdominator_ids = (right j).postdominator_ids) :
      (fun b : BasicBlock n => { b with Tmp_ids := eraseAll left b.Tmp_ids }) =
        fun b => { b with Tmp_ids := eraseAll right b.Tmp_ids } := by
    simp only [eraseAll, eraseFor, same]
  have distinct : (allButExit n).Nodup := (List.nodup_reverse.mpr (List.nodup_finRange n)).filter _
  rw [erasedTmp, foldl_update looks (fun _ _ => rfl) distinct]
  by_cases atExit : i.val + 1 = n
  · rw [if_pos atExit, if_neg fun member => mem_allButExit.mp member atExit]
  · rw [if_neg atExit, if_pos (mem_allButExit.mpr atExit)]

/-! ## The assertions -/

/-- When `Tmp_ids` of every block but the exit is a single id, the last loop
    stores it and counts one per block. -/
theorem assignTurns_spec {blocks : BasicBlocks n} {ipdom : Fin n → Fin n}
    (single : ∀ i, (blocks i).Tmp_ids = if i.val + 1 = n then ∅ else {ipdom i})
    {visited : List (Fin n)} (distinct : visited.Nodup) (current : BasicBlocks n) (num : Nat)
    (untouched : ∀ i ∈ visited, current i = blocks i) :
    ∃ after, visited.foldlM assignTurn (current, num) =
        some (after, num + visited.countP fun i => i.val + 1 ≠ n) ∧
      (∀ i, (after i).postdominator_ids = (current i).postdominator_ids) ∧
      (∀ i, i ∉ visited → after i = current i) ∧
      ∀ i ∈ visited, i.val + 1 ≠ n → (after i).immediatepostdominator_id = ipdom i := by
  induction visited generalizing current num with
  | nil => exact ⟨current, by simp [List.foldlM], fun _ => rfl, fun _ _ => rfl, by simp⟩
  | cons j visited ih =>
    obtain ⟨fresh, distinct⟩ := List.nodup_cons.mp distinct
    have here := untouched j List.mem_cons_self
    have tmp := single j
    rw [← here] at tmp
    by_cases atExit : j.val + 1 = n
    · rw [if_pos atExit] at tmp
      obtain ⟨after, run, sets, others, ids⟩ := ih distinct current num
        fun i member => untouched i (List.mem_cons_of_mem j member)
      have turn : assignTurn (current, num) j = some (current, num) := by
        simp [assignTurn, tmp, ascending]
      refine ⟨after, ?_, sets, fun i outside => others i (mt (List.mem_cons_of_mem j) outside), ?_⟩
      · rw [List.foldlM_cons, turn, List.countP_cons_of_neg (by simpa using atExit)]
        exact run
      · intro i member inner
        cases List.mem_cons.mp member with
        | inl same => exact absurd (same ▸ atExit) inner
        | inr later => exact ids i later inner
    · rw [if_neg atExit] at tmp
      have visit := head_ascending_singleton (ipdom j)
      let updated := Function.update current j
        { current j with immediatepostdominator_id := (ipdom j : Int) }
      have unchanged (i : Fin n) (different : i ≠ j) : updated i = current i :=
        Function.update_of_ne different _ _
      have turn : assignTurn (current, num) j = some (updated, num + 1) := by
        simp [assignTurn, tmp, visit, updated]
      obtain ⟨after, run, sets, others, ids⟩ := ih distinct updated (num + 1)
        fun i member => by
          have different : i ≠ j := fun same => fresh (same ▸ member)
          rw [unchanged i different]
          exact untouched i (List.mem_cons_of_mem j member)
      refine ⟨after, ?_, fun i => ?_, fun i outside => ?_, ?_⟩
      · rw [List.foldlM_cons, turn, List.countP_cons_of_pos (by simpa using atExit),
          ← Nat.add_assoc, Nat.add_right_comm]
        exact run
      · rw [sets]
        by_cases same : i = j
        · subst same; simp [updated]
        · simp [updated, same]
      · have different : i ≠ j := fun same => outside (same ▸ List.mem_cons_self)
        rw [others i (mt (List.mem_cons_of_mem j) outside), unchanged i different]
      · intro i member inner
        cases List.mem_cons.mp member with
        | inl same => rw [same, others j fresh]; simp [updated]
        | inr later => exact ids i later inner

theorem countP_allButExit (twoBlocks : 2 ≤ n) :
    ((List.finRange n).reverse.countP fun i => i.val + 1 ≠ n) = n - 1 := by
  let last : Fin n := ⟨n - 1, by omega⟩
  have isLast (i : Fin n) : i.val + 1 = n ↔ i = last := by
    have position : (last : Nat) = n - 1 := rfl
    rw [Fin.ext_iff, position]
    omega
  have same : (List.finRange n).countP (fun i => decide (i.val + 1 ≠ n)) =
      (List.finRange n).countP (fun i => decide (i ≠ last)) :=
    List.countP_congr fun i _ => by simp only [ne_eq, isLast]
  rw [List.countP_reverse, same, countP_ne]

theorem assignTurns_run {visited : List (Fin n)} (distinct : visited.Nodup)
    {current after : BasicBlocks n} {num num' : Nat}
    (run : visited.foldlM assignTurn (current, num) = some (after, num')) :
    num' = num + visited.countP (fun i => (current i).Tmp_ids ≠ ∅) ∧
      (∀ i, i ∉ visited → after i = current i) ∧
      (∀ i, (after i).successor_ids = (current i).successor_ids) ∧
      ∀ i ∈ visited, (current i).Tmp_ids = ∅ ∨ ∃ d, (current i).Tmp_ids = {d} ∧
        (after i).immediatepostdominator_id = d := by
  induction visited generalizing current num with
  | nil =>
    obtain ⟨rfl, rfl⟩ := Prod.mk.inj (Option.some.inj run)
    exact ⟨by simp, fun _ _ => rfl, fun _ => rfl, by simp⟩
  | cons j visited ih =>
    obtain ⟨fresh, distinct⟩ := List.nodup_cons.mp distinct
    rw [List.foldlM_cons] at run
    obtain ⟨⟨next, counted⟩, turn, run⟩ := Option.bind_eq_some_iff.mp run
    obtain ⟨total, others, successors, found⟩ := ih distinct run
    rw [assignTurn] at turn
    split at turn
    · cases turn
    rename_i few
    cases Nat.le_one_iff_eq_zero_or_eq_one.mp (Nat.not_lt.mp few) with
    | inl zero =>
      have empty := Finset.card_eq_zero.mp zero
      have none_ : (ascending (current j).Tmp_ids).head? = none := by
        simp [ascending, empty]
      simp only [none_, Option.some.injEq, Prod.mk.injEq] at turn
      obtain ⟨rfl, rfl⟩ := turn
      refine ⟨?_, fun i outside => others i (mt (List.mem_cons_of_mem j) outside), successors, ?_⟩
      · rw [total, List.countP_cons_of_neg (by simpa using empty)]
      · rw [List.forall_mem_cons]
        exact ⟨Or.inl empty, found⟩
    | inr one =>
      obtain ⟨d, single⟩ := Finset.card_eq_one.mp one
      have first : (ascending (current j).Tmp_ids).head? = some d := by
        rw [single, head_ascending_singleton]
      simp only [first, Option.some.injEq, Prod.mk.injEq] at turn
      obtain ⟨rfl, rfl⟩ := turn
      have kept (i : Fin n) (different : i ≠ j) : Function.update current j
          { current j with immediatepostdominator_id := (d : Int) } i = current i :=
        Function.update_of_ne different _ _
      have same (i : Fin n) (member : i ∈ visited) : i ≠ j := fun here => fresh (here ▸ member)
      refine ⟨?_, fun i outside => ?_, fun i => ?_, ?_⟩
      · have counts : visited.countP (fun i => decide ((Function.update current j
            { current j with immediatepostdominator_id := (d : Int) } i).Tmp_ids ≠ ∅)) =
            visited.countP fun i => decide ((current i).Tmp_ids ≠ ∅) :=
          List.countP_congr fun i member => by rw [kept i (same i member)]
        rw [total, counts, List.countP_cons_of_pos (by simp [single])]
        omega
      · rw [others i (mt (List.mem_cons_of_mem j) outside),
          kept i fun here => outside (here ▸ List.mem_cons_self)]
      · rw [successors]
        by_cases here : i = j
        · subst here; simp
        · rw [kept i here]
      · rw [List.forall_mem_cons]
        refine ⟨Or.inr ⟨d, single, ?_⟩, fun i member => ?_⟩
        · rw [others j fresh, Function.update_self]
        · rw [← kept i (same i member)]
          exact found i member

/-! ## The analysis -/

/-- Both functions one after the other. -/
def postdominatorAnalysis (fuel : Nat) (blocks : BasicBlocks n) : Option (BasicBlocks n) := do
  findIpostdominators (← findPostdominators fuel blocks)

/-- The analysis ends without a failed assertion; the postdominator sets and
    the immediate postdominators are those of the graph. -/
theorem postdominatorAnalysis_exact (graph : ControlFlowGraph n) :
    ∃ after, (∀ fuel, n * n < fuel → postdominatorAnalysis fuel graph.blocks = some after) ∧
      (∀ i d, d ∈ (after i).postdominator_ids ↔ graph.Postdominates d i) ∧
      ∀ i, i ≠ graph.exitBlock →
        (∃! d, graph.ImmediatePostdominator d i) ∧
        ∃ d, graph.ImmediatePostdominator d i ∧ (after i).immediatepostdominator_id = d := by
  obtain ⟨found, finishes, numbered, exact_sets⟩ := findPostdominators_spec graph
  have unique (i : Fin n) (notExit : i ≠ graph.exitBlock) :
      ∃! d, graph.ImmediatePostdominator d i :=
    FlowGraph.existsUnique_immediatePostdominator notExit (graph.reaches i)
  have choose (i : Fin n) : ∃ d, i ≠ graph.exitBlock → graph.ImmediatePostdominator d i := by
    by_cases atExit : i = graph.exitBlock
    · exact ⟨i, fun notExit => absurd atExit notExit⟩
    · obtain ⟨d, immediate, _⟩ := unique i atExit
      exact ⟨d, fun _ => immediate⟩
  obtain ⟨ipdom, immediate⟩ := Classical.axiomOfChoice choose
  let started : BasicBlocks n := fun i =>
    { found i with Tmp_ids := (found i).postdominator_ids.erase i }
  have single (i : Fin n) :
      (erasedTmp started i).Tmp_ids = if i.val + 1 = n then ∅ else {ipdom i} := by
    rw [erasedTmp_eq]
    by_cases atExit : i.val + 1 = n
    · rw [if_pos atExit, if_pos atExit]
      have isExit := (graph.eq_exitBlock_iff i).mpr atExit
      refine Finset.eq_empty_of_forall_notMem fun d member => ?_
      obtain ⟨strict, dominates⟩ := Finset.mem_erase.mp member
      subst isExit
      exact strict (FlowGraph.postdominates_exit ((exact_sets _ d).mp dominates))
    · rw [if_neg atExit, if_neg atExit]
      have notExit := mt (graph.eq_exitBlock_iff i).mp atExit
      refine eraseAll_eq exact_sets (immediate i notExit) (fun e member => ?_) ?_
      · obtain ⟨strict, dominates⟩ := Finset.mem_erase.mp member
        exact ⟨(exact_sets i e).mp dominates, strict⟩
      · exact Finset.mem_erase.mpr ⟨(immediate i notExit).strict,
          (exact_sets i _).mpr (immediate i notExit).postdominates⟩
  obtain ⟨after, run, sets, _, ids⟩ := assignTurns_spec single
    (List.nodup_reverse.mpr (List.nodup_finRange n)) (erasedTmp started) 0 fun _ _ => rfl
  refine ⟨after, fun fuel enough => ?_, fun i d => ?_, fun i notExit => ⟨unique i notExit, ?_⟩⟩
  · have twoBlocks := graph.twoBlocks
    rw [countP_allButExit twoBlocks, Nat.zero_add] at run
    rw [postdominatorAnalysis, finishes fuel enough]
    have begun : initialTmp found = some started := if_pos numbered
    simp only [findIpostdominators, Nat.not_lt.mpr twoBlocks, begun, run, Option.bind_eq_bind,
      Option.bind_some, if_false]
    simp
  · have sameSets : (after i).postdominator_ids = (found i).postdominator_ids := by
      rw [sets, erasedTmp_eq]
      split <;> rfl
    rw [sameSets, exact_sets]
  · refine ⟨ipdom i, immediate i notExit, ids i (by simp) ?_⟩
    exact mt (graph.eq_exitBlock_iff i).mpr notExit

/-- When no assertion fails, each block but the exit has got an immediate postdominator, also if not
    every block reaches the exit. -/
theorem findIpostdominators_immediate {start found after : BasicBlocks n} {exit : Fin n}
    (last : exit.val + 1 = n)
    (exact_sets : ∀ i d, d ∈ (found i).postdominator_ids ↔
      FlowGraph.Postdominates start.Edge exit d i)
    (run : findIpostdominators found = some after) :
    (∀ i, (after i).successor_ids = (found i).successor_ids) ∧
      ∀ i, i ≠ exit → ∃ d, FlowGraph.ImmediatePostdominator start.Edge exit d i ∧
        (after i).immediatepostdominator_id = d := by
  rw [findIpostdominators] at run
  split at run
  · cases run
  obtain ⟨started, begun, run⟩ := Option.bind_eq_some_iff.mp run
  obtain ⟨⟨assigned, num⟩, assigns, run⟩ := Option.bind_eq_some_iff.mp run
  dsimp only at run
  split at run
  swap
  · cases run
  rename_i all
  obtain rfl := Option.some.inj run
  rw [initialTmp] at begun
  split at begun
  swap
  · cases begun
  obtain rfl := Option.some.inj begun
  obtain ⟨erased, isErased⟩ : ∃ erased, erased = erasedTmp fun i =>
    { found i with Tmp_ids := (found i).postdominator_ids.erase i } := ⟨_, rfl⟩
  rw [← isErased] at assigns
  obtain ⟨total, -, successors, each⟩ := assignTurns_run (List.nodup_reverse.mpr (List.nodup_finRange n)) assigns
  rw [Nat.zero_add, all, List.countP_reverse] at total
  refine ⟨fun i => ?_, fun i notExit => ?_⟩
  · rw [successors, isErased, erasedTmp_eq]
    split <;> rfl
  -- the exit is the only block that has none left
  have atExit : (erased exit).Tmp_ids = ∅ := by
    rw [isErased, erasedTmp_eq, if_pos last]
    refine Finset.eq_empty_of_forall_notMem fun d member => ?_
    obtain ⟨strict, dominates⟩ := Finset.mem_erase.mp member
    exact strict (FlowGraph.postdominates_exit ((exact_sets exit d).mp dominates))
  have notEmpty : (erased i).Tmp_ids ≠ ∅ := by
    intro empty
    have split := List.length_eq_countP_add_countP (fun i => decide ((erased i).Tmp_ids ≠ ∅))
      (l := List.finRange n)
    have inside := i.isLt
    have one : (List.finRange n).countP
        (fun i => decide ¬decide ((erased i).Tmp_ids ≠ ∅) = true) = 1 := by
      rw [List.length_finRange, ← total] at split
      omega
    exact notExit (eq_of_countP_eq_one one (List.mem_finRange i) (by simp [empty])
      (List.mem_finRange exit) (by simp [atExit]))
  cases each i (by simp) with
  | inl empty => exact absurd empty notEmpty
  | inr single =>
    obtain ⟨d, single, id⟩ := single
    refine ⟨d, ?_, id⟩
    rw [isErased, erasedTmp_eq, if_neg fun here => notExit (Fin.ext (by omega))] at single
    refine (eraseFor_removes exact_sets).immediate (fun e => ?_) single
    rw [Finset.mem_erase, exact_sets, and_comm]

end AesOnGpu.ControlFlow
