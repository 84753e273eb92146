import AesOnGpu.FifoPipeline

/-! # The occupancy count of a latency pipe

The operations of `fifo_pipeline` again, with `m_n_element`.  Each does to the nodes what it does
in a pipe without the count; what it adds to the count is compared with what it adds to the
elements.
-/

namespace AesOnGpu

structure CountedPipeline (α : Type) extends FifoPipeline α where
  m_n_element : BitVec 32
  deriving DecidableEq

namespace CountedPipeline

variable {α : Type}

def get_n_element (pipe : CountedPipeline α) : BitVec 32 := pipe.m_n_element

def push (pipe : CountedPipeline α) (data : Option α) : Option (CountedPipeline α) :=
  if pipe.nodes.length < pipe.m_max_len then
    match pipe.nodes.getLast? with
    | some m_tail =>
      if m_tail.isSome || pipe.nodes.length < pipe.m_min_len then
        some { pipe with nodes := pipe.nodes ++ [data], m_n_element := pipe.m_n_element + 1 }
      else some { pipe with nodes := pipe.nodes.dropLast ++ [data] }
    | none => some { pipe with nodes := [data], m_n_element := pipe.m_n_element + 1 }
  else none

/-- `push(NULL)` and then `m_n_element--`. -/
def pushDelay (pipe : CountedPipeline α) : Option (CountedPipeline α) :=
  (pipe.push none).map fun pipe => { pipe with m_n_element := pipe.m_n_element - 1 }

/-- The `while` loop of `set_min_length`. -/
def fill : Nat → CountedPipeline α → Option (CountedPipeline α)
  | 0, pipe => some pipe
  | fuel + 1, pipe =>
    if pipe.nodes.length < pipe.m_min_len then pipe.pushDelay.bind (fill fuel) else some pipe

/-- The loop of the constructor, which does not take its nodes out of the count. -/
def pad : Nat → CountedPipeline α → Option (CountedPipeline α)
  | 0, pipe => some pipe
  | rounds + 1, pipe => (pipe.push none).bind (pad rounds)

def new (minlen maxlen : BitVec 32) : Option (CountedPipeline α) :=
  if maxlen ≠ 0 then pad minlen.toNat ⟨⟨minlen.toNat, maxlen.toNat, []⟩, 0⟩ else none

def pop (pipe : CountedPipeline α) : Option (CountedPipeline α × Option α) :=
  match pipe.nodes with
  | [] => some (pipe, none)
  | data :: next =>
    let popped : CountedPipeline α :=
      { pipe with nodes := next, m_n_element := pipe.m_n_element - 1 }
    if pipe.m_min_len ≠ 0 ∧ next.length < pipe.m_min_len then popped.pushDelay.map (·, data)
    else some (popped, data)

def trim : Nat → CountedPipeline α → Option (CountedPipeline α)
  | 0, pipe => some pipe
  | fuel + 1, pipe =>
    if pipe.nodes.length > pipe.m_min_len ∧ pipe.emptyTail then
      match pipe.nodes with
      | [_] => pipe.pop.bind fun popped => trim fuel popped.1
      | _ => trim fuel { pipe with nodes := pipe.nodes.dropLast }
    else some pipe

def set_min_length (pipe : CountedPipeline α) (new_min_len : Nat) : Option (CountedPipeline α) :=
  if new_min_len = pipe.m_min_len then some pipe
  else if new_min_len > pipe.m_min_len then
    fill new_min_len { pipe with m_min_len := new_min_len }
  else if pipe.nodes ≠ [] then
    trim pipe.nodes.length { pipe with m_min_len := new_min_len }
  else none

/-- A call; NULL is `none`. -/
inductive Call (α : Type) where
  | push (data : Option α)
  | pop
  | set_min_length (new_min_len : Nat)

def step (pipe : CountedPipeline α) : Call α → Option (CountedPipeline α)
  | .push data => pipe.push data
  | .pop => pipe.pop.map Prod.fst
  | .set_min_length new_min_len => pipe.set_min_length new_min_len

/-! ## The same pipe without the count -/

variable {pipe pipe' : CountedPipeline α}

theorem push_eq (pipe : CountedPipeline α) (data : Option α) :
    pipe.push data = (pipe.toFifoPipeline.push data).map fun fifo =>
      ⟨fifo, pipe.m_n_element + if pipe.emptyTail ∧ pipe.m_min_len ≤ pipe.nodes.length
        then 0 else 1⟩ := by
  rw [push, FifoPipeline.push, FifoPipeline.emptyTail]
  split
  · cases pipe.nodes.getLast? with
    | none => simp
    | some m_tail =>
      cases m_tail with
      | some data => simp
      | none =>
        by_cases short : pipe.nodes.length < pipe.m_min_len
        · simp [short, Nat.not_le.mpr short]
        · simp [short, Nat.not_lt.mp short]
  · rfl

theorem pushDelay_short (short : pipe.nodes.length < pipe.m_min_len) :
    pipe.pushDelay = (pipe.toFifoPipeline.push none).map fun fifo => ⟨fifo, pipe.m_n_element⟩ := by
  rw [pushDelay, push_eq, if_neg fun tail => Nat.not_le.mpr short tail.2, Option.map_map]
  congr 1
  funext fifo
  simp

theorem fill_eq (fuel : Nat) (pipe : CountedPipeline α) :
    pipe.fill fuel = (pipe.toFifoPipeline.fill fuel).map fun fifo => ⟨fifo, pipe.m_n_element⟩ := by
  induction fuel generalizing pipe with
  | zero => rfl
  | succ fuel ih =>
    rw [fill, FifoPipeline.fill]
    split
    · rename_i short
      rw [pushDelay_short short]
      cases pipe.toFifoPipeline.push none with
      | none => rfl
      | some fifo => exact ih ⟨fifo, pipe.m_n_element⟩
    · rfl

theorem pop_eq (pipe : CountedPipeline α) :
    pipe.pop = pipe.toFifoPipeline.pop.map fun popped =>
      (⟨popped.1, pipe.m_n_element - if pipe.nodes = [] then 0 else 1⟩, popped.2) := by
  rw [pop, FifoPipeline.pop]
  cases content : pipe.nodes with
  | nil => simp
  | cons data next =>
    dsimp only
    split
    · rename_i short
      rw [pushDelay_short short.2, Option.map_map, Option.map_map]
      simp [Function.comp_def]
    · simp

theorem pad_eq (rounds : Nat) (pipe : CountedPipeline α)
    (short : pipe.nodes.length + rounds = pipe.m_min_len) :
    pipe.pad rounds = (pipe.toFifoPipeline.fill rounds).map fun fifo =>
      ⟨fifo, pipe.m_n_element + BitVec.ofNat 32 rounds⟩ := by
  induction rounds generalizing pipe with
  | zero => simp [pad, FifoPipeline.fill]
  | succ rounds ih =>
    have less : pipe.nodes.length < pipe.m_min_len := by omega
    rw [pad, FifoPipeline.fill, if_pos less, push_eq, if_neg fun tail => by omega]
    by_cases room : pipe.nodes.length < pipe.m_max_len
    · rw [FifoPipeline.push_short none room less]
      simp only [Option.map_some, Option.bind_some]
      rw [ih _ (by simp; omega)]
      congr 1
      funext fifo
      rw [BitVec.add_assoc, BitVec.add_comm 1, BitVec.ofNat_add]
      rfl
    · rw [FifoPipeline.push_full none (Nat.not_lt.mp room)]
      rfl

theorem new_eq (minlen maxlen : BitVec 32) :
    (new minlen maxlen : Option (CountedPipeline α)) =
      (FifoPipeline.new minlen.toNat maxlen.toNat).map fun fifo => ⟨fifo, minlen⟩ := by
  rw [new, FifoPipeline.new]
  by_cases zero : maxlen = 0
  · simp [zero]
  · have positive : maxlen.toNat ≠ 0 := fun same => zero (BitVec.eq_of_toNat_eq same)
    rw [if_pos zero, if_pos positive, pad_eq _ _ (by simp)]
    simp

def onlyDelay (nodes : List (Option α)) : Bool := !nodes.isEmpty && nodes.all Option.isNone

theorem trim_eq {fuel : Nat} (pipe : CountedPipeline α) (all : pipe.nodes.length = fuel) :
    pipe.trim fuel = (pipe.toFifoPipeline.trim fuel).map fun fifo =>
      ⟨fifo, pipe.m_n_element -
        if pipe.m_min_len = 0 ∧ onlyDelay pipe.nodes then 1 else 0⟩ := by
  induction fuel generalizing pipe with
  | zero => simp [trim, FifoPipeline.trim, List.length_eq_zero_iff.mp all, onlyDelay]
  | succ fuel ih =>
    obtain ⟨⟨least, most, nodes⟩, count⟩ := pipe
    rw [trim, FifoPipeline.trim]
    by_cases long : nodes.length > least ∧ FifoPipeline.emptyTail ⟨least, most, nodes⟩
    · rw [if_pos long, if_pos long]
      have split : nodes.dropLast ++ [none] = nodes := FifoPipeline.dropLast_of_emptyTail long.2
      cases shape : nodes.dropLast with
      | nil =>
        -- the last node goes with `pop`, and only if the minimum allows for an empty pipe
        rw [shape] at split
        subst split
        have noMinimum : least = 0 := by simpa using long.1
        have none_left : fuel = 0 := by simpa using all.symm
        simp [noMinimum, none_left, pop, FifoPipeline.pop, trim, FifoPipeline.trim, onlyDelay]
      | cons data others =>
        have shorter : (data :: others).length = fuel := by
          rw [← shape, List.length_dropLast]
          exact Nat.sub_eq_of_eq_add all
        have more := ih ⟨⟨least, most, data :: others⟩, count⟩ shorter
        have same : onlyDelay nodes = onlyDelay (data :: others) := by
          rw [← split, shape]
          simp [onlyDelay]
        dsimp only at more ⊢
        rw [same]
        -- two nodes at least, so that the tail is not the head
        cases nodes with
        | nil => cases shape
        | cons first rest =>
          cases rest with
          | nil => cases shape
          | cons second rest => exact more
    · rw [if_neg long, if_neg long]
      have kept : ¬(least = 0 ∧ onlyDelay nodes) := by
        rintro ⟨rfl, delay⟩
        apply long
        rw [FifoPipeline.emptyTail]
        cases nodes using List.reverseRecOn with
        | nil => cases delay
        | append_singleton front last =>
          simp only [onlyDelay, Bool.and_eq_true, List.all_append, List.all_cons] at delay
          simp [Option.isNone_iff_eq_none.mp delay.2.2.1]
      rw [if_neg kept]
      simp

theorem set_min_length_eq (pipe : CountedPipeline α) (new_min_len : Nat) :
    pipe.set_min_length new_min_len =
      (pipe.toFifoPipeline.set_min_length new_min_len).map fun fifo =>
        ⟨fifo, pipe.m_n_element -
          if new_min_len = 0 ∧ 0 < pipe.m_min_len ∧ onlyDelay pipe.nodes then 1 else 0⟩ := by
  rw [set_min_length, FifoPipeline.set_min_length]
  split
  · rename_i same
    have notBoth : ¬(new_min_len = 0 ∧ 0 < pipe.m_min_len ∧ onlyDelay pipe.nodes) := by omega
    simp [notBoth]
  · split
    · have notBoth : ¬(new_min_len = 0 ∧ 0 < pipe.m_min_len ∧ onlyDelay pipe.nodes) := by omega
      rw [fill_eq, if_neg notBoth]
      simp
    · split
      · have lower : 0 < pipe.m_min_len := by omega
        have trimmed := trim_eq
          (⟨⟨new_min_len, pipe.m_max_len, pipe.nodes⟩, pipe.m_n_element⟩ : CountedPipeline α) rfl
        simp only [lower, true_and]
        exact trimmed
      · rfl

/-! ## The elements -/

def elements (nodes : List (Option α)) : Nat := nodes.countP Option.isSome

def Right (pipe : CountedPipeline α) : Prop :=
  pipe.get_n_element.toNat = elements pipe.nodes

/-- A call changes the count by what it changes the elements: an element or NULL that is pushed
    makes a new node exactly if it is an element, no empty node is popped, and the minimum is not
    lowered to zero in a pipe that has only empty nodes. -/
def Counts (pipe : FifoPipeline α) : Call α → Prop
  | .push data => data.isSome ↔ ¬(pipe.emptyTail ∧ pipe.m_min_len ≤ pipe.nodes.length)
  | .pop => pipe.nodes.head? ≠ some none
  | .set_min_length new_min_len =>
    ¬(new_min_len = 0 ∧ 0 < pipe.m_min_len ∧ onlyDelay pipe.nodes)

variable {fifo fifo' : FifoPipeline α}

theorem elements_append_none (nodes : List (Option α)) (k : Nat) :
    elements (nodes ++ List.replicate k none) = elements nodes := by
  simp [elements, List.countP_replicate]

theorem elements_push {data : Option α} (run : fifo.push data = some fifo') :
    elements fifo'.nodes = elements fifo.nodes + if data.isSome then 1 else 0 := by
  by_cases room : fifo.nodes.length < fifo.m_max_len
  · rw [FifoPipeline.push_eq data room] at run
    obtain rfl := Option.some.inj run
    dsimp only
    split
    · rename_i tail
      have split := FifoPipeline.dropLast_of_emptyTail tail.1
      rw [← split]
      simp [elements]
    · simp [elements]
  · rw [FifoPipeline.push_full data (Nat.not_lt.mp room)] at run
    cases run

theorem ofNat_add_inj (e : Nat) (change : BitVec 32) (more : Nat) :
    BitVec.ofNat 32 e + change = BitVec.ofNat 32 (e + more) ↔ change = BitVec.ofNat 32 more := by
  rw [BitVec.ofNat_add, add_right_inj]

theorem counts_iff (valid : pipe.toFifoPipeline.Valid) {call : Call α}
    (exact : pipe.m_n_element = BitVec.ofNat 32 (elements pipe.nodes))
    (run : pipe.step call = some pipe') :
    pipe'.m_n_element = BitVec.ofNat 32 (elements pipe'.nodes) ↔
      Counts pipe.toFifoPipeline call := by
  cases call with
  | push data =>
    rw [step, push_eq] at run
    obtain ⟨fifo, went, rfl⟩ := Option.map_eq_some_iff.mp run
    rw [elements_push went, exact, ofNat_add_inj, Counts]
    by_cases tail : pipe.emptyTail ∧ pipe.m_min_len ≤ pipe.nodes.length
    · cases data <;> simp [tail]
    · cases data <;> simp [tail]
  | pop =>
    obtain ⟨k, went, -, -⟩ := FifoPipeline.pop_eq valid
    rw [step, pop_eq, went] at run
    obtain rfl := Option.some.inj run
    simp only [elements_append_none, Counts]
    rw [exact]
    cases pipe.nodes with
    | nil => simp
    | cons data next =>
      cases data with
      | none => simp [elements]
      | some data => simp [elements, BitVec.ofNat_add]
  | set_min_length new_min_len =>
    rw [step, set_min_length_eq] at run
    obtain ⟨fifo, went, rfl⟩ := Option.map_eq_some_iff.mp run
    have same : elements fifo.nodes = elements pipe.nodes := by
      by_cases fits : new_min_len ≤ pipe.m_max_len
      · obtain ⟨nodes, k, eq, -, -, content⟩ := FifoPipeline.set_min_length_eq valid fits
        obtain rfl := Option.some.inj (went.symm.trans eq)
        cases content with
        | inl longer => rw [longer, elements_append_none]
        | inr shorter => rw [shorter, elements_append_none]
      · rw [FifoPipeline.set_min_length_overlong valid (Nat.not_le.mp fits)] at went
        cases went
    rw [same, exact, Counts]
    by_cases emptied : new_min_len = 0 ∧ 0 < pipe.m_min_len ∧ onlyDelay pipe.nodes
    · simp [emptied]
    · simp only [emptied, not_false_eq_true, iff_true, if_false]
      exact sub_zero _

/-! ## Runs -/

/-- The pipe has its length between its limits, and the upper one is an `unsigned`. -/
structure Bounded (pipe : CountedPipeline α) : Prop where
  valid : pipe.toFifoPipeline.Valid
  most : pipe.m_max_len < 2 ^ 32

theorem Bounded.right_iff (bounded : pipe.Bounded) :
    pipe.Right ↔ pipe.m_n_element = BitVec.ofNat 32 (elements pipe.nodes) := by
  have few : elements pipe.nodes < 2 ^ 32 :=
    calc elements pipe.nodes ≤ pipe.nodes.length := List.countP_le_length
      _ ≤ pipe.m_max_len := bounded.valid.high
      _ < 2 ^ 32 := bounded.most
  rw [Right, get_n_element, ← BitVec.toNat_inj, BitVec.toNat_ofNat, Nat.mod_eq_of_lt few]

theorem bounded_new {minlen maxlen : BitVec 32} (created : new minlen maxlen = some pipe) :
    pipe.Bounded ∧ pipe.m_n_element = minlen ∧ elements pipe.nodes = 0 := by
  rw [new_eq] at created
  obtain ⟨fifo, went, rfl⟩ := Option.map_eq_some_iff.mp created
  have positive : 0 < maxlen.toNat := by
    by_contra zero
    rw [FifoPipeline.new, if_neg (by omega)] at went
    cases went
  by_cases fits : minlen.toNat ≤ maxlen.toNat
  · rw [FifoPipeline.new_eq positive fits] at went
    obtain rfl := Option.some.inj went
    refine ⟨⟨⟨?_, ?_⟩, maxlen.isLt⟩, rfl, ?_⟩
    · simp
    · simpa using fits
    · simp [elements, List.countP_replicate]
  · rw [FifoPipeline.new, if_pos positive.ne', FifoPipeline.fill_overlong (Nat.le_add_left _ _)
      (Nat.zero_le _) (Nat.not_le.mp fits)] at went
    cases went

theorem Bounded.step (bounded : pipe.Bounded) {call : Call α}
    (run : pipe.step call = some pipe') : pipe'.Bounded := by
  have valid := bounded.valid
  have most := bounded.most
  cases call with
  | push data =>
    rw [CountedPipeline.step, push_eq] at run
    obtain ⟨fifo, went, rfl⟩ := Option.map_eq_some_iff.mp run
    obtain ⟨valid', -, same, -⟩ := FifoPipeline.valid_of_push valid went
    exact ⟨valid', same ▸ most⟩
  | pop =>
    obtain ⟨k, went, low, high⟩ := FifoPipeline.pop_eq valid
    rw [CountedPipeline.step, pop_eq, went] at run
    obtain rfl := Option.some.inj run
    exact ⟨⟨low, high⟩, most⟩
  | set_min_length new_min_len =>
    rw [CountedPipeline.step, set_min_length_eq] at run
    obtain ⟨fifo, went, rfl⟩ := Option.map_eq_some_iff.mp run
    by_cases fits : new_min_len ≤ pipe.m_max_len
    · obtain ⟨nodes, k, eq, low, high, -⟩ := FifoPipeline.set_min_length_eq valid fits
      obtain rfl := Option.some.inj (went.symm.trans eq)
      exact ⟨⟨low, high.trans (max_le valid.high fits)⟩, most⟩
    · rw [FifoPipeline.set_min_length_overlong valid (Nat.not_le.mp fits)] at went
      cases went

/-- The count is right in each state of a run, which ends early at a failed assertion. -/
def AlwaysRight : CountedPipeline α → List (Call α) → Prop
  | pipe, [] => pipe.Right
  | pipe, call :: calls =>
    pipe.Right ∧ ∀ pipe', pipe.step call = some pipe' → AlwaysRight pipe' calls

/-- Each call of a run changes the count by what it changes the elements. -/
def AlwaysCounts : CountedPipeline α → List (Call α) → Prop
  | _, [] => True
  | pipe, call :: calls => ∀ pipe', pipe.step call = some pipe' →
    Counts pipe.toFifoPipeline call ∧ AlwaysCounts pipe' calls

theorem alwaysRight_iff (bounded : pipe.Bounded) (calls : List (Call α)) :
    AlwaysRight pipe calls ↔ pipe.Right ∧ AlwaysCounts pipe calls := by
  induction calls generalizing pipe with
  | nil => simp [AlwaysRight, AlwaysCounts]
  | cons call calls ih =>
    rw [AlwaysRight, AlwaysCounts]
    refine and_congr_right fun right => forall_congr' fun pipe' => imp_congr_right fun run => ?_
    have bounded' := bounded.step run
    rw [ih bounded', bounded'.right_iff]
    rw [counts_iff bounded.valid (bounded.right_iff.mp right) run]

/-- The count is right throughout exactly when the pipe is created without a minimum and each
    call counts as it should. -/
theorem count_right_iff (minlen maxlen : BitVec 32) (calls : List (Call α)) :
    (∀ pipe, new minlen maxlen = some pipe → AlwaysRight pipe calls) ↔
      ∀ pipe, new minlen maxlen = some pipe → minlen = 0 ∧ AlwaysCounts pipe calls := by
  refine forall_congr' fun pipe => imp_congr_right fun created => ?_
  obtain ⟨bounded, count, none⟩ := bounded_new created
  rw [alwaysRight_iff bounded, bounded.right_iff, count, none]
  exact Iff.rfl

/-- A minimum of one and a pop: the empty node lowers the count below zero. -/
theorem count_wraps : ¬ ∀ (minlen maxlen : BitVec 32) (calls : List (Call Nat)) pipe,
    new minlen maxlen = some pipe → AlwaysRight pipe calls := by
  intro always
  obtain ⟨-, raised⟩ := always 0 2 [.set_min_length 1, .pop] ⟨⟨0, 2, []⟩, 0⟩ rfl
  obtain ⟨-, popped⟩ := raised ⟨⟨1, 2, [none]⟩, 0⟩ rfl
  have right := popped ⟨⟨1, 2, [none]⟩, 0xffffffff⟩ rfl
  rw [AlwaysRight, Right] at right
  cases right

end CountedPipeline
end AesOnGpu
