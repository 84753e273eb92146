import AesOnGpu.ControlFlow.Leaders

/-! # The first instructions of blocks

`create_basic_blocks` gives a new block the next instruction as its `ptx_begin`, and may find
labels between the leader and that instruction. The first statement is a leader in any case, but
what is behind it never becomes one on its account.
-/

namespace AesOnGpu.ControlFlow

variable (m_instructions : List Statement)

/-- A turn, with the `ptx_begin`s of all blocks so far. -/
def beginTurn (state : Cutter × List Nat) (item : Statement × Nat) : Option (Cutter × List Nat) := do
  let begins :=
    if state.1.l.head? = some item.2 then
      state.2 ++ (find_next_real_instruction m_instructions item.2).toList
    else state.2
  let cutter ← state.1.turn m_instructions item
  return (cutter, begins)

def ptx_begin : Option (List Nat) := do
  let first ← find_next_real_instruction m_instructions 0
  let state ← m_instructions.zipIdx.foldlM (beginTurn m_instructions)
    (⟨[], leadersFrom false 1 m_instructions.tail, 0, fun _ => 0⟩, [first])
  return state.2

/-! ## What holds between the turns -/

/-- Each block has its first instruction, which for the last block may be still to come. -/
structure Begun (k : Nat) (state : Cutter) (begins : List Nat) : Prop where
  length : begins.length = state.ends.length + 1
  each : ∀ b s, begins[b]? = some s → Real m_instructions s ∧
    (s < k ∧ state.get_bb s = b ∨
      find_next_real_instruction m_instructions k = some s ∧ b = state.ends.length) ∧
    ∀ r < k, Real m_instructions r → state.get_bb r = b → s ≤ r

section Turns

variable {m_instructions} {k : Nat} {state state' : Cutter} {begins : List Nat}

theorem Begun.assign {statement : Statement} (begun : Begun m_instructions k state begins)
    (here : m_instructions[k]? = some statement) :
    Begun m_instructions (k + 1) (state.assign_bb k statement) begins := by
  refine ⟨begun.length, fun b s found => ?_⟩
  obtain ⟨real, place, first⟩ := begun.each b s found
  refine ⟨real, ?_, fun r below real' inside => ?_⟩
  · cases place with
    | inl before =>
      rw [get_bb_assign, if_neg (Nat.ne_of_lt before.1)]
      exact Or.inl ⟨Nat.lt_succ_of_lt before.1, before.2⟩
    | inr toCome =>
      cases statement with
      | label name => exact Or.inr ⟨(next_succ here).trans toCome.1, toCome.2⟩
      | instruction pI =>
        obtain rfl := Option.some.inj ((next_self here).symm.trans toCome.1)
        rw [get_bb_assign, if_pos rfl]
        exact Or.inl ⟨Nat.lt_succ_self k, toCome.2.symm⟩
  · rw [get_bb_assign] at inside
    split at inside
    · rename_i last
      subst last
      cases place with
      | inl before => exact Nat.le_of_lt before.1
      | inr toCome =>
        obtain ⟨pI, real'⟩ := real'
        exact Nat.le_of_eq (Option.some.inj (toCome.1.symm.trans (next_self real')))
    · exact first r (by omega) real' inside

theorem Begun.lead (begun : Begun m_instructions k state begins) (cut : Cut m_instructions k state)
    (isOpen : Open m_instructions k state) (leads : state.l.head? = some k)
    (run : state.lead m_instructions k = some state') :
    Begun m_instructions k state'
      (begins ++ (find_next_real_instruction m_instructions k).toList) := by
  rw [Cutter.lead, if_pos leads] at run
  cases next : find_next_real_instruction m_instructions k with
  | none =>
    simp only [next, Option.some.injEq] at run
    subst run
    rw [Option.toList_none, List.append_nil]
    exact ⟨begun.length, begun.each⟩
  | some first =>
    obtain ⟨pI, real⟩ := isOpen.real
    simp only [next, real, Option.some.injEq] at run
    subst run
    obtain ⟨behind, real', -⟩ := next_eq_some.mp next
    refine ⟨by simp [begun.length], fun b s found => ?_⟩
    cases Layout.getElem?_append_singleton.mp found with
    | inl old =>
      obtain ⟨real, place, least⟩ := begun.each b s old
      refine ⟨real, Or.inl ?_, least⟩
      cases place with
      | inl before => exact before
      | inr toCome =>
        -- the block that is closed has an instruction
        obtain ⟨above, -, -⟩ := next_eq_some.mp toCome.1
        have below := least _ isOpen.before isOpen.real (isOpen.inside.trans toCome.2.symm)
        have before := isOpen.before
        omega
    | inr new =>
      obtain ⟨rfl, rfl⟩ := new
      refine ⟨real', Or.inr ⟨next, ?_⟩, fun r below _ inside => ?_⟩
      · rw [begun.length, List.length_append, List.length_singleton]
      · have before := cut.le r below
        have inside' : state.get_bb r = begins.length := inside
        have length := begun.length
        omega

/-- At a leader the last block has an instruction, unless it is the second of two labels that start
    the function. -/
theorem Mode.open_or_labels {statement : Statement} (here : m_instructions[k]? = some statement)
    (mode : Mode m_instructions k state) (leads : state.l.head? = some k) :
    Open m_instructions k state ∨ k = 1 ∧ state.last_real_inst = 0 ∧
      ∃ name name', m_instructions[0]? = some (.label name) ∧
        m_instructions[1]? = some (.label name') := by
  have listed := List.mem_of_head? leads
  have inside := (List.getElem?_eq_some_iff.mp here).1
  have suffix : m_instructions.drop k = statement :: m_instructions.drop (k + 1) := by
    rw [List.drop_eq_getElem_cons inside, (List.getElem?_eq_some_iff.mp here).2]
  cases mode with
  | scanning isOpen unsplit leaders => exact Or.inl isOpen
  | leader isOpen leaders => exact Or.inl isOpen
  | start position label leaders =>
    rw [leaders] at listed
    have above := le_of_mem_leadersFrom listed
    cases position with
    | inl atFirst => omega
    | inr atSecond =>
      obtain ⟨rfl, noInstruction⟩ := atSecond
      cases statement with
      | instruction pI =>
        rw [suffix] at listed
        exact absurd (lt_of_mem_leadersFrom listed) (Nat.lt_irrefl 1)
      | label name =>
        cases zeroth : m_instructions[0]? with
        | none =>
          have empty := List.getElem?_eq_none_iff.mp zeroth
          omega
        | some statement =>
          cases statement with
          | instruction pI => exact absurd ⟨pI, zeroth⟩ noInstruction
          | label name' => exact Or.inr ⟨rfl, label, name', name, rfl, here⟩
  | passing block leaders =>
    rw [leaders, suffix] at listed
    cases statement with
    | label name =>
      rw [leadersFrom, if_pos rfl] at listed
      exact absurd (le_of_mem_leadersFrom listed) (Nat.not_succ_le_self k)
    | instruction pI => exact absurd (lt_of_mem_leadersFrom listed) (Nat.lt_irrefl k)

theorem Mode.open_of_leads {statement : Statement} {first : Nat}
    (begins : find_next_real_instruction m_instructions 0 = some first)
    (here : m_instructions[k]? = some statement) (mode : Mode m_instructions k state)
    (leads : state.l.head? = some k) (run : state.lead m_instructions k = some state') :
    Open m_instructions k state := by
  cases mode.open_or_labels here leads with
  | inl isOpen => exact isOpen
  | inr labels =>
    -- the first block would end with the label that starts the function
    obtain ⟨rfl, last, name, name', zeroth, -⟩ := labels
    rw [Cutter.lead, if_pos leads] at run
    simp [next_succ zeroth, begins, last, zeroth] at run

theorem beginTurn_keeps {statement : Statement} {first : Nat} {begins' : List Nat}
    (isFirst : find_next_real_instruction m_instructions 0 = some first)
    (here : m_instructions[k]? = some statement)
    (run : beginTurn m_instructions (state, begins) (statement, k) = some (state', begins'))
    (cut : Cut m_instructions k state) (mode : Mode m_instructions k state)
    (begun : Begun m_instructions k state begins) :
    Cut m_instructions (k + 1) state' ∧ Mode m_instructions (k + 1) state' ∧
      Begun m_instructions (k + 1) state' begins' := by
  obtain ⟨cutter, turned, same⟩ := Option.bind_eq_some_iff.mp run
  obtain ⟨rfl, rfl⟩ := Prod.mk.inj (Option.some.inj same)
  obtain ⟨cut', mode'⟩ := turn_keeps isFirst here turned cut mode
  refine ⟨cut', mode', ?_⟩
  obtain ⟨led, lead, assigned⟩ := Option.bind_eq_some_iff.mp turned
  obtain rfl := Option.some.inj assigned
  dsimp only
  by_cases leads : state.l.head? = some k
  · rw [if_pos leads]
    have isOpen := mode.open_of_leads isFirst here leads lead
    exact (begun.lead cut isOpen leads lead).assign here
  · rw [if_neg leads]
    rw [Cutter.lead, if_neg leads] at lead
    obtain rfl := Option.some.inj lead
    exact begun.assign here

end Turns

/-! ## The blocks -/

variable {m_instructions} {blocks : Blocks}

theorem beginTurns_run {items : List (Statement × Nat)} {state state' : Cutter}
    (run : items.foldlM (Cutter.turn m_instructions) state = some state') (begins : List Nat) :
    ∃ begins', items.foldlM (beginTurn m_instructions) (state, begins) = some (state', begins') := by
  induction items generalizing state begins with
  | nil =>
    obtain rfl := Option.some.inj run
    exact ⟨begins, rfl⟩
  | cons item items ih =>
    rw [List.foldlM_cons] at run
    obtain ⟨next, turned, run⟩ := Option.bind_eq_some_iff.mp run
    obtain ⟨begins', run'⟩ := ih run (if state.l.head? = some item.2 then
      begins ++ (find_next_real_instruction m_instructions item.2).toList else begins)
    refine ⟨begins', ?_⟩
    rw [List.foldlM_cons, beginTurn, turned]
    exact run'

theorem exists_ptx_begin (created : create_basic_blocks m_instructions = some blocks) :
    ∃ begins, ptx_begin m_instructions = some begins ∧
      begins.length = blocks.ptx_end.length ∧
      ∀ b s, begins[b]? = some s → Real m_instructions s ∧ blocks.get_bb s = b ∧
        ∀ r, Real m_instructions r → blocks.get_bb r = b → s ≤ r := by
  obtain ⟨first, isFirst, created⟩ := Option.bind_eq_some_iff.mp created
  obtain ⟨state, run, finished⟩ := Option.bind_eq_some_iff.mp created
  obtain rfl := Option.some.inj finished
  obtain ⟨begins, run⟩ := beginTurns_run run [first]
  have initial : Cut m_instructions 0 ⟨[], leadersFrom false 1 m_instructions.tail, 0, fun _ => 0⟩ ∧
      Mode m_instructions 0 ⟨[], leadersFrom false 1 m_instructions.tail, 0, fun _ => 0⟩ ∧
      Begun m_instructions 0 ⟨[], leadersFrom false 1 m_instructions.tail, 0, fun _ => 0⟩ [first] := by
    refine ⟨⟨by simp, by simp, by simp, by simp⟩, Mode.start (Or.inl rfl) rfl ?_, rfl,
      fun b s found => ?_⟩
    · rw [List.drop_one]
    · obtain ⟨rfl, rfl⟩ : b = 0 ∧ first = s := by
        cases b with
        | zero => exact ⟨rfl, Option.some.inj found⟩
        | succ b => cases found
      exact ⟨(next_eq_some.mp isFirst).2.1, Or.inr ⟨isFirst, rfl⟩, fun r below => by omega⟩
  have final := @List.foldlM_zipIdx_keeps _ _ _
    (fun k state => Cut m_instructions k state.1 ∧ Mode m_instructions k state.1 ∧
      Begun m_instructions k state.1 state.2) _ 0
    (fun k statement state state' here turned holds =>
      beginTurn_keeps isFirst (by rwa [Nat.zero_add]) turned holds.1 holds.2.1 holds.2.2) _ _ run
    initial
  rw [Nat.zero_add] at final
  obtain ⟨-, -, begun⟩ := final
  refine ⟨begins, ?_, ?_, fun b s found => ?_⟩
  · rw [ptx_begin, isFirst, Option.bind_eq_bind, Option.bind_some, run]
    rfl
  · rw [begun.length, List.length_append, List.length_singleton]
  · obtain ⟨real, place, least⟩ := begun.each b s found
    refine ⟨real, ?_, fun r real' inside => least r real'.lt_length real' inside⟩
    cases place with
    | inl before => exact before.2
    | inr toCome =>
      obtain ⟨above, -, -⟩ := next_eq_some.mp toCome.1
      exact absurd real.lt_length (Nat.not_lt.mpr above)

/-! ## The first statement -/

theorem lead_get_bb {k : Nat} {state state' : Cutter}
    (run : state.lead m_instructions k = some state') : state'.get_bb = state.get_bb := by
  rw [Cutter.lead] at run
  split at run
  · split at run
    · obtain rfl := Option.some.inj run
      rfl
    · split at run
      · obtain rfl := Option.some.inj run
        rfl
      · cases run
  · obtain rfl := Option.some.inj run
    rfl

theorem turns_get_bb {rest : List Statement} {k : Nat} {state state' : Cutter}
    (run : (rest.zipIdx k).foldlM (Cutter.turn m_instructions) state = some state') {r : Nat}
    (before : r < k) : state'.get_bb r = state.get_bb r := by
  refine @List.foldlM_zipIdx_keeps _ _ _ (fun _ later => later.get_bb r = state.get_bb r) rest k
    (fun i statement current next _ turned same => ?_) _ _ run rfl
  obtain ⟨led, lead, assigned⟩ := Option.bind_eq_some_iff.mp turned
  obtain rfl := Option.some.inj assigned
  rw [get_bb_assign, if_neg (by omega), lead_get_bb lead, same]

section First

variable {pI : PtxInstruction} {statement : Statement} {rest : List Statement}

theorem first_turns (created : create_basic_blocks (.instruction pI :: statement :: rest) = some blocks) :
    ∃ led, Cutter.lead (.instruction pI :: statement :: rest)
        ⟨[], leadersFrom false 1 (statement :: rest), 0, Function.update (fun _ => 0) 0 0⟩ 1 = some led ∧
      blocks.get_bb 0 = 0 ∧ blocks.get_bb 1 = led.ends.length := by
  obtain ⟨state, run, finished⟩ := Option.bind_eq_some_iff.mp created
  obtain rfl := Option.some.inj finished
  rw [List.zipIdx_cons, List.zipIdx_cons, List.foldlM_cons] at run
  obtain ⟨once, turned, run⟩ := Option.bind_eq_some_iff.mp run
  rw [List.foldlM_cons] at run
  obtain ⟨twice, turned', run⟩ := Option.bind_eq_some_iff.mp run
  obtain ⟨unled, lead, assigned⟩ := Option.bind_eq_some_iff.mp turned
  rw [lead_none fun j member => le_of_mem_leadersFrom member] at lead
  obtain rfl := Option.some.inj lead
  obtain rfl := Option.some.inj assigned
  obtain ⟨led, lead, assigned⟩ := Option.bind_eq_some_iff.mp turned'
  obtain rfl := Option.some.inj assigned
  refine ⟨led, lead, ?_, ?_⟩
  · refine (turns_get_bb run (Nat.lt_succ_of_lt (Nat.lt_succ_self 0))).trans ?_
    rw [get_bb_assign, if_neg (Nat.succ_ne_zero 0).symm, lead_get_bb lead]
    rfl
  · refine (turns_get_bb run (Nat.lt_succ_self 1)).trans ?_
    rw [get_bb_assign, if_pos rfl]

theorem second_instruction {pI' : PtxInstruction}
    (created : create_basic_blocks (.instruction pI :: .instruction pI' :: rest) = some blocks) :
    blocks.get_bb 1 = blocks.get_bb 0 := by
  obtain ⟨led, lead, first, second⟩ := first_turns created
  have later (j : Nat) (member : j ∈ leadersFrom false 1 (.instruction pI' :: rest)) : 1 < j :=
    lt_of_mem_leadersFrom member
  rw [lead_none later] at lead
  obtain rfl := Option.some.inj lead
  rw [first, second]
  rfl

theorem second_label {name : String}
    (created : create_basic_blocks (.instruction pI :: .label name :: rest) = some blocks) {r : Nat}
    (later : 0 < r) (real : Real (.instruction pI :: .label name :: rest) r) :
    blocks.get_bb 0 < blocks.get_bb r := by
  obtain ⟨led, lead, first, second⟩ := first_turns created
  have mono := (create_basic_blocks_partition created).mono 1 r later real.lt_length
  have one : led.ends.length = 1 := by
    have leads : (leadersFrom false 1 (.label name :: rest)).head? = some 1 := by
      rw [leadersFrom, if_neg Bool.false_ne_true, List.head?_cons]
    rw [Cutter.lead, if_pos leads] at lead
    cases next : find_next_real_instruction (.instruction pI :: .label name :: rest) 1 with
    | none =>
      obtain ⟨pI', here⟩ := real
      exact absurd here (next_eq_none.mp next r pI' later)
    | some q =>
      simp only [next, List.getElem?_cons_zero, Option.some.injEq] at lead
      subst lead
      rfl
  rw [second, one] at mono
  omega

end First

end AesOnGpu.ControlFlow
