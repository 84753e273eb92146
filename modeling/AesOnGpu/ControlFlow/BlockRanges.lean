import AesOnGpu.ControlFlow.BlockBegins

/-! # Ranges of blocks

`create_basic_blocks` with the first and the last statement of each block as the code stores
them, whatever they are: the last one of a block that two labels open is a label. Where that does not
happen, the ranges are those of the blocks that are connected later.
-/

namespace AesOnGpu.ControlFlow

variable (m_instructions : List Statement)

/-- A turn of the loop that cuts the function, with the `ptx_begin`s of all blocks so far. -/
def cutTurn (state : Cutter × List Nat) (item : Statement × Nat) : Cutter × List Nat :=
  let led :=
    if state.1.l.head? = some item.2 then
      match find_next_real_instruction m_instructions item.2 with
      | none => ({ state.1 with l := state.1.l.tail }, state.2)
      | some first =>
        ({ state.1 with
            ends := state.1.ends ++ [state.1.last_real_inst]
            l := state.1.l.tail
            last_real_inst := first }, state.2 ++ [first])
    else state
  (led.1.assign_bb item.2 item.1, led.2)

/-- `ptx_begin` and `ptx_end` of all blocks but the exit block. A function without an instruction
    has nothing that the first block can begin with. -/
def basic_blocks : Option (List (Nat × Nat)) := do
  let first ← find_next_real_instruction m_instructions 0
  let state := m_instructions.zipIdx.foldl (cutTurn m_instructions)
    (⟨[], leadersFrom false 1 m_instructions.tail, 0, fun _ => 0⟩, [first])
  return state.2.zip (state.1.ends ++ [state.1.last_real_inst])

/-! ## What blocks are -/

/-- The statement transfers control: what the switch of `create_basic_blocks` names, an instruction
    with the option `.exit`, or `BRX_OP`. A call that is not predicated comes back to the next
    instruction. -/
def Transfers (p : Nat) : Prop :=
  ∃ pI, m_instructions[p]? = some (.instruction pI) ∧
    (pI.endsBlock = true ∨ pI.is_exit = true ∨ pI.opcode = .BRX_OP)

structure Partitioned (ranges : List (Nat × Nat)) : Prop where
  real : ∀ range ∈ ranges, range.1 ≤ range.2 ∧
    ∀ r, range.1 ≤ r → r ≤ range.2 → Real m_instructions r
  ordered : ranges.Pairwise fun range later => range.2 < later.1
  covered : ∀ r, Real m_instructions r → ∃ range ∈ ranges, range.1 ≤ r ∧ r ≤ range.2
  transfers : ∀ range ∈ ranges, ∀ p, Transfers m_instructions p → range.1 ≤ p → p ≤ range.2 →
    p = range.2
  targets : ∀ q name t, m_instructions[q]? = some (.label name) →
    find_next_real_instruction m_instructions q = some t → ∃ range ∈ ranges, range.1 = t

def StartsWithLabels : Prop :=
  ∃ name name', m_instructions[0]? = some (.label name) ∧ m_instructions[1]? = some (.label name')

/-- There is an instruction, at most one label before it, and what follows a transfer is no
    instruction unless the transfer is behind the first statement and named by the switch. -/
structure Cuttable : Prop where
  instruction : ∃ r, Real m_instructions r
  labels : ¬ StartsWithLabels m_instructions
  transfers : ∀ p pI, m_instructions[p]? = some (.instruction pI) →
    Transfers m_instructions p → Real m_instructions (p + 1) → 0 < p ∧ pI.endsBlock = true

/-! ## Labels -/

/-- Labels separate the instructions before them from those behind them. -/
def LabelsSplit (k : Nat) (state : Cutter) : Prop :=
  ∀ q name, q < k → m_instructions[q]? = some (.label name) →
    (find_next_real_instruction m_instructions q).isSome →
    ∀ r < q, Real m_instructions r → state.get_bb r < state.get_bb q

section Turns

variable {m_instructions} {k : Nat} {state state' : Cutter} {statement : Statement} {first : Nat}

theorem turn_labelsSplit (begins : find_next_real_instruction m_instructions 0 = some first)
    (here : m_instructions[k]? = some statement)
    (run : state.turn m_instructions (statement, k) = some state')
    (cut : Cut m_instructions k state) (mode : Mode m_instructions k state)
    (split : LabelsSplit m_instructions k state) : LabelsSplit m_instructions (k + 1) state' := by
  obtain ⟨led, lead, assigned⟩ := Option.bind_eq_some_iff.mp run
  obtain rfl := Option.some.inj assigned
  intro q name before label some r earlier real
  rw [get_bb_assign, get_bb_assign, if_neg (by omega)]
  split
  case isFalse other =>
    rw [lead_get_bb lead]
    exact split q name (by omega) label some r earlier real
  case isTrue same =>
    subst same
    obtain rfl := Option.some.inj (here.symm.trans label)
    obtain ⟨-, found⟩ := lead_label begins here lead cut mode
    rcases found with ⟨rfl, -⟩ | ⟨fresh | ended, -⟩
    · omega
    · exact fresh.before r earlier real
    · rw [ended.2] at some
      cases some

theorem turn_isSome (apart : ¬ StartsWithLabels m_instructions)
    (here : m_instructions[k]? = some statement) (mode : Mode m_instructions k state) :
    ∃ state', state.turn m_instructions (statement, k) = some state' := by
  suffices led : ∃ led, state.lead m_instructions k = some led by
    obtain ⟨led, lead⟩ := led
    exact ⟨led.assign_bb k statement, by rw [Cutter.turn, lead]; rfl⟩
  rw [Cutter.lead]
  by_cases leads : state.l.head? = some k
  · rw [if_pos leads]
    rcases mode.open_or_labels here leads with isOpen | ⟨-, -, labels⟩
    · obtain ⟨pI, real⟩ := isOpen.real
      cases find_next_real_instruction m_instructions k with
      | none => exact ⟨_, rfl⟩
      | some first => simp [real]
    · exact absurd labels apart
  · rw [if_neg leads]
    exact ⟨state, rfl⟩

theorem cutTurn_of_beginTurn {state state' : Cutter × List Nat} {item : Statement × Nat}
    (run : beginTurn m_instructions state item = some state') :
    cutTurn m_instructions state item = state' := by
  obtain ⟨cutter, turned, same⟩ := Option.bind_eq_some_iff.mp run
  obtain rfl := Option.some.inj same
  obtain ⟨led, lead, assigned⟩ := Option.bind_eq_some_iff.mp turned
  obtain rfl := Option.some.inj assigned
  rw [cutTurn]
  rw [Cutter.lead] at lead
  by_cases leads : state.1.l.head? = some item.2
  · simp only [if_pos leads] at lead ⊢
    cases next : find_next_real_instruction m_instructions item.2 with
    | none =>
      simp only [next, Option.some.injEq] at lead
      subst lead
      simp
    | some first =>
      simp only [next] at lead
      split at lead
      · obtain rfl := Option.some.inj lead
        simp
      · cases lead
  · simp only [if_neg leads, Option.some.injEq] at lead ⊢
    subst lead
    rfl

theorem cutTurns_of_beginTurns {items : List (Statement × Nat)} {state state' : Cutter × List Nat}
    (run : items.foldlM (beginTurn m_instructions) state = some state') :
    items.foldl (cutTurn m_instructions) state = state' := by
  induction items generalizing state with
  | nil => exact Option.some.inj run
  | cons item items ih =>
    rw [List.foldlM_cons] at run
    obtain ⟨next, turned, run⟩ := Option.bind_eq_some_iff.mp run
    rw [List.foldl_cons, cutTurn_of_beginTurn turned]
    exact ih run

theorem turns_isSome (begins : find_next_real_instruction m_instructions 0 = some first)
    (apart : ¬ StartsWithLabels m_instructions) (rest : List Statement) :
    ∀ (k : Nat) (state : Cutter), m_instructions.drop k = rest → Cut m_instructions k state →
      Mode m_instructions k state →
      ∃ state', (rest.zipIdx k).foldlM (Cutter.turn m_instructions) state = some state' := by
  induction rest with
  | nil => exact fun k state _ _ _ => ⟨state, rfl⟩
  | cons statement rest ih =>
    intro k state suffix cut mode
    have here : m_instructions[k]? = some statement := by
      rw [← List.head?_drop, suffix, List.head?_cons]
    obtain ⟨next, turned⟩ := turn_isSome apart here mode
    obtain ⟨cut', mode'⟩ := turn_keeps begins here turned cut mode
    have suffix' : m_instructions.drop (k + 1) = rest := by
      rw [← List.tail_drop, suffix, List.tail_cons]
    obtain ⟨final, run⟩ := ih (k + 1) next suffix' cut' mode'
    refine ⟨final, ?_⟩
    rw [List.zipIdx_cons, List.foldlM_cons, turned]
    exact run

theorem initial_turns : Cut m_instructions 0 ⟨[], leadersFrom false 1 m_instructions.tail, 0, fun _ => 0⟩ ∧
    Mode m_instructions 0 ⟨[], leadersFrom false 1 m_instructions.tail, 0, fun _ => 0⟩ := by
  refine ⟨⟨by simp, by simp, by simp, by simp⟩, Mode.start (Or.inl rfl) rfl ?_⟩
  rw [List.drop_one]

end Turns

section Blocks

variable {m_instructions} {blocks : Blocks}

theorem exists_blocks (instruction : ∃ r, Real m_instructions r)
    (apart : ¬ StartsWithLabels m_instructions) :
    ∃ blocks, create_basic_blocks m_instructions = some blocks := by
  cases begins : find_next_real_instruction m_instructions 0 with
  | none =>
    obtain ⟨r, pI, real⟩ := instruction
    exact absurd real (next_eq_none.mp begins r pI (Nat.zero_le r))
  | some first =>
    obtain ⟨cut, mode⟩ := @initial_turns m_instructions
    obtain ⟨state, run⟩ := turns_isSome begins apart m_instructions 0 _ List.drop_zero cut mode
    refine ⟨⟨state.ends ++ [state.last_real_inst], state.get_bb⟩, ?_⟩
    rw [create_basic_blocks, begins, Option.bind_eq_bind, Option.bind_some, run]
    rfl

theorem basic_blocks_eq (created : create_basic_blocks m_instructions = some blocks) :
    ∃ begins, ptx_begin m_instructions = some begins ∧
      basic_blocks m_instructions = some (begins.zip blocks.ptx_end) := by
  obtain ⟨first, isFirst, created⟩ := Option.bind_eq_some_iff.mp created
  obtain ⟨state, run, finished⟩ := Option.bind_eq_some_iff.mp created
  obtain rfl := Option.some.inj finished
  obtain ⟨begins, run'⟩ := beginTurns_run run [first]
  refine ⟨begins, ?_, ?_⟩
  · rw [ptx_begin, isFirst, Option.bind_eq_bind, Option.bind_some, run']
    rfl
  · rw [basic_blocks, isFirst, Option.bind_eq_bind, Option.bind_some, cutTurns_of_beginTurns run']
    rfl

theorem label_splits (created : create_basic_blocks m_instructions = some blocks) {q t r : Nat}
    {name : String} (label : m_instructions[q]? = some (.label name))
    (target : find_next_real_instruction m_instructions q = some t) (earlier : r < q)
    (real : Real m_instructions r) : blocks.get_bb r < blocks.get_bb t := by
  have partition := create_basic_blocks_partition created
  obtain ⟨first, isFirst, created⟩ := Option.bind_eq_some_iff.mp created
  obtain ⟨state, run, finished⟩ := Option.bind_eq_some_iff.mp created
  obtain rfl := Option.some.inj finished
  obtain ⟨cut, mode⟩ := @initial_turns m_instructions
  have final := @List.foldlM_zipIdx_keeps _ _ _
    (fun k state => Cut m_instructions k state ∧ Mode m_instructions k state ∧
      LabelsSplit m_instructions k state) _ 0
    (fun k statement state state' here turned holds => by
      rw [Nat.zero_add] at holds turned ⊢
      obtain ⟨cut', mode'⟩ := turn_keeps isFirst here turned holds.1 holds.2.1
      exact ⟨cut', mode', turn_labelsSplit isFirst here turned holds.1 holds.2.1 holds.2.2⟩) _ _ run
    ⟨cut, mode, fun q _ below => absurd below (Nat.not_lt_zero q)⟩
  rw [Nat.zero_add] at final
  obtain ⟨behind, there, -⟩ := next_eq_some.mp target
  have inside := (List.getElem?_eq_some_iff.mp label).1
  have split := final.2.2 q name inside label (by rw [target]; rfl) r earlier real
  exact Nat.lt_of_lt_of_le split (partition.mono q t behind (Real.lt_length there))

theorem leaders_behind {p j : Nat} {pI : PtxInstruction} {passing : Bool}
    (here : m_instructions[p]? = some (.instruction pI)) (plain : pI.endsBlock = false)
    (real : Real m_instructions (p + 1))
    (member : j ∈ leadersFrom passing p (m_instructions.drop p)) : p + 1 < j := by
  obtain ⟨pI', next⟩ := real
  have inside := (List.getElem?_eq_some_iff.mp here).1
  have inside' := (List.getElem?_eq_some_iff.mp next).1
  rw [List.drop_eq_getElem_cons inside, (List.getElem?_eq_some_iff.mp here).2,
    List.drop_eq_getElem_cons inside', (List.getElem?_eq_some_iff.mp next).2, leadersFrom,
    if_neg (by simp [plain])] at member
  exact lt_of_mem_leadersFrom member

theorem get_bb_next (created : create_basic_blocks m_instructions = some blocks) {p : Nat}
    {pI : PtxInstruction} (here : m_instructions[p]? = some (.instruction pI)) (positive : 0 < p)
    (plain : pI.endsBlock = false) (real : Real m_instructions (p + 1)) :
    blocks.get_bb p = blocks.get_bb (p + 1) := by
  obtain ⟨first, isFirst, created⟩ := Option.bind_eq_some_iff.mp created
  obtain ⟨state, run, finished⟩ := Option.bind_eq_some_iff.mp created
  obtain rfl := Option.some.inj finished
  obtain ⟨cut, mode⟩ := @initial_turns m_instructions
  have final := @List.foldlM_zipIdx_keeps _ _ _
    (fun k state => Cut m_instructions k state ∧ Mode m_instructions k state ∧
      (k = p + 1 → state.get_bb p = state.ends.length ∧ ∀ j ∈ state.l, p + 1 < j) ∧
      (p + 1 < k → state.get_bb p = state.get_bb (p + 1))) _ 0
    (fun k statement state state' at_k turned holds => by
      rw [Nat.zero_add] at holds turned ⊢
      obtain ⟨cut, mode, joining, joined⟩ := holds
      obtain ⟨cut', mode'⟩ := turn_keeps isFirst at_k turned cut mode
      obtain ⟨led, lead, assigned⟩ := Option.bind_eq_some_iff.mp turned
      obtain rfl := Option.some.inj assigned
      refine ⟨cut', mode', fun at_p => ?_, fun beyond => ?_⟩
      · obtain rfl : k = p := Nat.succ_injective at_p
        obtain rfl := Option.some.inj (here.symm.trans at_k)
        rw [get_bb_assign, if_pos rfl]
        refine ⟨rfl, fun j member => ?_⟩
        obtain ⟨-, -, zero | ⟨passing, leaders⟩⟩ := lead_instruction at_k lead cut mode
        · omega
        · exact leaders_behind at_k plain real (leaders ▸ member)
      · rw [get_bb_assign, get_bb_assign, lead_get_bb lead, if_neg (by omega)]
        by_cases next : p + 1 = k
        · obtain ⟨last, later⟩ := joining next.symm
          rw [lead_none (next ▸ later)] at lead
          obtain rfl := Option.some.inj lead
          rw [if_pos next, last]
        · rw [if_neg next]
          exact joined (by omega)) _ _ run
    ⟨cut, mode, fun other => by omega, fun below => by omega⟩
  rw [Nat.zero_add] at final
  have inside := real.lt_length
  exact final.2.2.2 inside

/-! ## Partition -/

variable {ranges : List (Nat × Nat)}

theorem mem_ranges (created : create_basic_blocks m_instructions = some blocks)
    (cuts : basic_blocks m_instructions = some ranges) :
    ranges.length = blocks.ptx_end.length ∧ ∀ b range, ranges[b]? = some range →
      Real m_instructions range.1 ∧ blocks.get_bb range.1 = b ∧
      Real m_instructions range.2 ∧ blocks.get_bb range.2 = b ∧
      ∀ r, Real m_instructions r → blocks.get_bb r = b → range.1 ≤ r ∧ r ≤ range.2 := by
  have partition := create_basic_blocks_partition created
  obtain ⟨begins, isBegin, length, firsts⟩ := exists_ptx_begin created
  obtain ⟨begins', isBegin', same⟩ := basic_blocks_eq created
  obtain rfl : begins = begins' := Option.some.inj (isBegin.symm.trans isBegin')
  obtain rfl : begins.zip blocks.ptx_end = ranges := Option.some.inj (same.symm.trans cuts)
  refine ⟨by simp [length], fun b range found => ?_⟩
  obtain ⟨first, last⟩ := List.getElem?_zip_eq_some.mp found
  obtain ⟨realFirst, inFirst, least⟩ := firsts b range.1 first
  obtain ⟨realLast, inLast, greatest⟩ := partition.last b range.2 last
  exact ⟨realFirst, inFirst, realLast, inLast, fun r real inside =>
    ⟨least r real inside, greatest r real inside⟩⟩

theorem between_real (created : create_basic_blocks m_instructions = some blocks) {a c r : Nat}
    (real : Real m_instructions a) (real' : Real m_instructions c)
    (same : blocks.get_bb a = blocks.get_bb c) (above : a ≤ r) (below : r ≤ c) :
    Real m_instructions r := by
  have partition := create_basic_blocks_partition created
  have inside : r < m_instructions.length := Nat.lt_of_le_of_lt below real'.lt_length
  cases here : m_instructions[r]? with
  | none =>
    have beyond := List.getElem?_eq_none_iff.mp here
    omega
  | some statement =>
    cases statement with
    | instruction pI => exact ⟨pI, here⟩
    | label name =>
      have before : a < r := by
        refine Nat.lt_of_le_of_ne above fun equal => ?_
        obtain ⟨pI, there⟩ := real
        rw [equal, here] at there
        nomatch there
      cases target : find_next_real_instruction m_instructions r with
      | none =>
        obtain ⟨pI, there⟩ := real'
        exact absurd there (next_eq_none.mp target c pI below)
      | some t =>
        have split := label_splits created here target before real
        obtain ⟨-, -, labels⟩ := next_eq_some.mp target
        have reached : t ≤ c := by
          by_contra beyond
          obtain ⟨pI, there⟩ := real'
          obtain ⟨name', label⟩ := labels c below (by omega)
          rw [there] at label
          nomatch label
        have mono := partition.mono t c reached real'.lt_length
        omega

theorem partitioned_of_created (created : create_basic_blocks m_instructions = some blocks)
    (cuts : basic_blocks m_instructions = some ranges) (cuttable : Cuttable m_instructions) :
    Partitioned m_instructions ranges := by
  have partition := create_basic_blocks_partition created
  obtain ⟨length, each⟩ := mem_ranges created cuts
  have found {r : Nat} (real : Real m_instructions r) :
      ∃ range, ranges[blocks.get_bb r]? = some range := by
    have inside := partition.inside r real
    exact ⟨_, List.getElem?_eq_getElem (length ▸ inside)⟩
  constructor
  case real =>
    intro range member
    obtain ⟨b, at_b⟩ := List.mem_iff_getElem?.mp member
    obtain ⟨realFirst, inFirst, realLast, inLast, within⟩ := each b range at_b
    exact ⟨(within _ realFirst inFirst).2, fun r above below =>
      between_real created realFirst realLast (inFirst.trans inLast.symm) above below⟩
  case ordered =>
    rw [List.pairwise_iff_getElem]
    intro i j iInside jInside before
    obtain ⟨-, -, realLast, inLast, -⟩ := each i ranges[i] (List.getElem?_eq_getElem iInside)
    obtain ⟨-, inFirst, -, -, -⟩ := each j ranges[j] (List.getElem?_eq_getElem jInside)
    by_contra beyond
    have mono := partition.mono ranges[j].1 ranges[i].2 (Nat.not_lt.mp beyond) realLast.lt_length
    omega
  case covered =>
    intro r real
    obtain ⟨range, at_b⟩ := found real
    obtain ⟨-, -, -, -, within⟩ := each _ range at_b
    exact ⟨range, List.mem_of_getElem? at_b, within r real rfl⟩
  case transfers =>
    intro range member p transfer above below
    obtain ⟨b, at_b⟩ := List.mem_iff_getElem?.mp member
    obtain ⟨realFirst, inFirst, realLast, inLast, -⟩ := each b range at_b
    by_contra other
    have same := inFirst.trans inLast.symm
    have real' := between_real created realFirst realLast same (r := p + 1) (by omega) (by omega)
    obtain ⟨pI, here, -⟩ := id transfer
    obtain ⟨positive, ends⟩ := cuttable.transfers p pI here transfer real'
    -- what follows the transfer is in a later block, but within the range
    have split := partition.split p (p + 1) pI positive here ends (Nat.lt_succ_self p) real'
    have low := partition.mono range.1 p above (Real.lt_length ⟨pI, here⟩)
    have high := partition.mono (p + 1) range.2 (by omega) realLast.lt_length
    omega
  case targets =>
    intro q name t label target
    obtain ⟨behind, there, labels⟩ := next_eq_some.mp target
    obtain ⟨range, at_b⟩ := found there
    obtain ⟨realFirst, inFirst, -, -, within⟩ := each _ range at_b
    refine ⟨range, List.mem_of_getElem? at_b, Nat.le_antisymm (within t there rfl).1 ?_⟩
    by_contra before
    -- the label would have split the block of its target
    have earlier : range.1 < q := by
      by_contra later
      obtain ⟨pI, real⟩ := realFirst
      obtain ⟨name', label'⟩ := labels range.1 (by omega) (by omega)
      rw [real] at label'
      nomatch label'
    have split := label_splits created label target earlier realFirst
    omega

theorem cuttable_of_partitioned (created : create_basic_blocks m_instructions = some blocks)
    (cuts : basic_blocks m_instructions = some ranges)
    (partitioned : Partitioned m_instructions ranges) (apart : ¬ StartsWithLabels m_instructions)
    (instruction : ∃ r, Real m_instructions r) : Cuttable m_instructions := by
  have partition := create_basic_blocks_partition created
  obtain ⟨length, each⟩ := mem_ranges created cuts
  refine ⟨instruction, apart, fun p pI here transfer real => ?_⟩
  by_contra neither
  -- the two instructions are in one block, of which the first is not the last
  have same : blocks.get_bb p = blocks.get_bb (p + 1) := by
    cases p with
    | zero =>
      obtain ⟨pI', next⟩ := real
      cases m_instructions with
      | nil => cases here
      | cons statement rest =>
        cases rest with
        | nil => cases next
        | cons statement' rest =>
          obtain rfl := Option.some.inj here
          obtain rfl := Option.some.inj next
          exact (second_instruction created).symm
    | succ p =>
      have plain : pI.endsBlock = false :=
        eq_false_of_ne_true fun ends => neither ⟨Nat.succ_pos p, ends⟩
      exact get_bb_next created here (Nat.succ_pos p) plain real
  have inside := partition.inside p ⟨pI, here⟩
  have at_b := List.getElem?_eq_getElem (length ▸ inside)
  obtain ⟨-, -, -, -, within⟩ := each _ _ at_b
  have low := within p ⟨pI, here⟩ rfl
  have high := within (p + 1) real same.symm
  have last := partitioned.transfers _ (List.mem_of_getElem? at_b) p transfer low.1 low.2
  omega

end Blocks

/-! ## Two labels -/

section Labels

variable {m_instructions}

theorem cutTurns_first {items : List (Statement × Nat)} {state : Cutter × List Nat} {s e : Nat}
    (first : state.2[0]? = some s) (last : state.1.ends[0]? = some e) :
    (items.foldl (cutTurn m_instructions) state).2[0]? = some s ∧
      (items.foldl (cutTurn m_instructions) state).1.ends[0]? = some e := by
  induction items generalizing state with
  | nil => exact ⟨first, last⟩
  | cons item items ih =>
    rw [List.foldl_cons]
    refine ih ?_ ?_ <;> rw [cutTurn] <;> split
    · split
      · exact first
      · exact Layout.getElem?_append_singleton.mpr (Or.inl first)
    · exact first
    · split
      · exact last
      · exact Layout.getElem?_append_singleton.mpr (Or.inl last)
    · exact last

theorem ranges_of_labels {ranges : List (Nat × Nat)} (labels : StartsWithLabels m_instructions)
    (cuts : basic_blocks m_instructions = some ranges) : ∃ s, 0 < s ∧ (s, 0) ∈ ranges := by
  obtain ⟨name, name', zeroth, next⟩ := labels
  obtain ⟨first, isFirst, cuts⟩ := Option.bind_eq_some_iff.mp cuts
  obtain rfl := Option.some.inj cuts
  obtain ⟨-, ⟨pI, real⟩, -⟩ := next_eq_some.mp isFirst
  have positive : 0 < first := by
    refine Nat.pos_of_ne_zero fun zero => ?_
    rw [zero, zeroth] at real
    nomatch real
  have isNext : find_next_real_instruction m_instructions 1 = some first :=
    (next_succ zeroth).trans isFirst
  refine ⟨first, positive, List.mem_of_getElem? (i := 0) ?_⟩
  cases m_instructions with
  | nil => cases zeroth
  | cons statement rest =>
    cases rest with
    | nil => cases next
    | cons statement' rest =>
      obtain rfl := Option.some.inj zeroth
      obtain rfl := Option.some.inj next
      have turns : ((Statement.label name :: .label name' :: rest).zipIdx.foldl
          (cutTurn (.label name :: .label name' :: rest))
          (⟨[], leadersFrom false 1 (.label name' :: rest), 0, fun _ => 0⟩, [first])) =
          (rest.zipIdx 2).foldl (cutTurn (.label name :: .label name' :: rest))
            (⟨[0], leadersFrom true 2 rest, first,
              Function.update (Function.update (fun _ => 0) 0 0) 1 1⟩, [first, first]) := by
        rw [List.zipIdx_cons, List.zipIdx_cons, List.foldl_cons, List.foldl_cons]
        simp [cutTurn, leadersFrom, isNext, Cutter.assign_bb, Statement.is_label]
      obtain ⟨begin, ending⟩ := @cutTurns_first (.label name :: .label name' :: rest)
        (rest.zipIdx 2) (⟨[0], leadersFrom true 2 rest, first,
          Function.update (Function.update (fun _ => 0) 0 0) 1 1⟩, [first, first]) first 0 rfl rfl
      refine List.getElem?_zip_eq_some.mpr ⟨?_, ?_⟩
      · rw [List.tail_cons, turns]
        exact begin
      · rw [List.tail_cons, turns]
        exact Layout.getElem?_append_singleton.mpr (Or.inl ending)

end Labels

/-! ## The result -/

/-- The blocks partition the instructions exactly if the function has an instruction, does not
    start with two labels, and has no transfer before an instruction that the switch misses or
    that is the first statement. -/
theorem basic_blocks_partition_iff (m_instructions : List Statement) :
    (∃ ranges, basic_blocks m_instructions = some ranges ∧
        Partitioned m_instructions ranges) ↔ Cuttable m_instructions := by
  constructor
  · rintro ⟨ranges, cuts, partitioned⟩
    have apart : ¬ StartsWithLabels m_instructions := by
      intro labels
      obtain ⟨s, positive, member⟩ := ranges_of_labels labels cuts
      have order := (partitioned.real (s, 0) member).1
      exact absurd positive (Nat.not_lt.mpr order)
    have instruction : ∃ r, Real m_instructions r := by
      obtain ⟨first, isFirst, -⟩ := Option.bind_eq_some_iff.mp cuts
      exact ⟨first, (next_eq_some.mp isFirst).2.1⟩
    obtain ⟨blocks, created⟩ := exists_blocks instruction apart
    exact cuttable_of_partitioned created cuts partitioned apart instruction
  · intro cuttable
    obtain ⟨blocks, created⟩ := exists_blocks cuttable.instruction cuttable.labels
    obtain ⟨begins, -, cuts⟩ := basic_blocks_eq created
    exact ⟨_, cuts, partitioned_of_created created cuts cuttable⟩

def bra : PtxInstruction :=
  ⟨.BRA_OP, true, false, "L", 8, FinLiterals.eight_pos, Nat.le_refl MAX_INST_SIZE⟩

def nop : PtxInstruction :=
  ⟨.OTHER_OP, false, false, "", 8, FinLiterals.eight_pos, Nat.le_refl MAX_INST_SIZE⟩

/-- The block that two labels open ends with a label, and a branch that starts the function is in
    the block of what follows it. -/
theorem blocks_not_partition :
    ¬ (∃ ranges, basic_blocks [.label "K", .label "L", .instruction nop] = some ranges ∧
        Partitioned [.label "K", .label "L", .instruction nop] ranges) ∧
      ¬ ∃ ranges, basic_blocks [.instruction bra, .instruction nop, .label "L", .instruction nop] =
          some ranges ∧
        Partitioned [.instruction bra, .instruction nop, .label "L", .instruction nop]
          ranges := by
  constructor
  · rintro ⟨ranges, cuts, partitioned⟩
    obtain rfl : [(2, 0), (2, 2)] = ranges := Option.some.inj cuts
    exact absurd (partitioned.real (2, 0) (by decide)).1 (by decide)
  · rintro ⟨ranges, cuts, partitioned⟩
    obtain rfl : [(0, 1), (3, 3)] = ranges := Option.some.inj cuts
    have last := partitioned.transfers (0, 1) (by decide) 0 ⟨bra, rfl, Or.inl rfl⟩ (by decide)
      (by decide)
    exact absurd last (by decide)

end AesOnGpu.ControlFlow
