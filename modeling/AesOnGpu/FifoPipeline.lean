import AesOnGpu.Lib.Timeline

/-! # Latency pipes

`fifo_pipeline` of `gpgpu-sim/delayqueue.h`: a queue that is filled up with empty
nodes, so that an element needs at least `m_min_len` pops to get through.

The nodes are a list with the head first; `m_length` is its length, and `none` is a
node whose `m_data` is NULL.  An outer `none` is a failed assertion.  `m_n_element`,
which none of the operations reads, is left out here.
-/

namespace AesOnGpu

structure FifoPipeline (α : Type) where
  m_min_len : Nat
  m_max_len : Nat
  nodes : List (Option α)
  deriving DecidableEq, Repr

namespace FifoPipeline

variable {α : Type}

def full (pipe : FifoPipeline α) : Bool :=
  pipe.m_max_len ≠ 0 && pipe.nodes.length ≥ pipe.m_max_len

def empty (pipe : FifoPipeline α) : Bool := pipe.nodes.isEmpty

def get_length (pipe : FifoPipeline α) : Nat := pipe.nodes.length

/-- `push(NULL)` is `push none`. -/
def push (pipe : FifoPipeline α) (data : Option α) : Option (FifoPipeline α) :=
  if pipe.nodes.length < pipe.m_max_len then
    match pipe.nodes.getLast? with
    | some m_tail =>
      if m_tail.isSome || pipe.nodes.length < pipe.m_min_len then
        some { pipe with nodes := pipe.nodes ++ [data] }
      else
        -- the empty node at the tail is filled
        some { pipe with nodes := pipe.nodes.dropLast ++ [data] }
    | none => some { pipe with nodes := [data] }
  else none

/-- `while (m_length < m_min_len) push(NULL)`, in at most `fuel` rounds. -/
def fill : Nat → FifoPipeline α → Option (FifoPipeline α)
  | 0, pipe => some pipe
  | fuel + 1, pipe =>
    if pipe.nodes.length < pipe.m_min_len then (pipe.push none).bind (fill fuel) else some pipe

/-- The constructor.  Its loop makes `m_min_len` rounds, and so does this one. -/
def new (minlen maxlen : Nat) : Option (FifoPipeline α) :=
  if maxlen ≠ 0 then fill minlen ⟨minlen, maxlen, []⟩ else none

def pop (pipe : FifoPipeline α) : Option (FifoPipeline α × Option α) :=
  match pipe.nodes with
  | [] => some (pipe, none)
  | data :: next =>
    if pipe.m_min_len ≠ 0 ∧ next.length < pipe.m_min_len then
      (push { pipe with nodes := next } none).map (·, data)
    else some ({ pipe with nodes := next }, data)

def top (pipe : FifoPipeline α) : Option α := pipe.nodes.head?.join

/-- `m_tail->m_data == 0`. -/
def emptyTail (pipe : FifoPipeline α) : Bool :=
  match pipe.nodes.getLast? with
  | some none => true
  | _ => false

/-- The loop of `set_min_length` that takes empty nodes off the tail. -/
def trim : Nat → FifoPipeline α → Option (FifoPipeline α)
  | 0, pipe => some pipe
  | fuel + 1, pipe =>
    if pipe.nodes.length > pipe.m_min_len ∧ pipe.emptyTail then
      match pipe.nodes with
      | [_] => pipe.pop.bind fun popped => trim fuel popped.1
      | _ => trim fuel { pipe with nodes := pipe.nodes.dropLast }
    else some pipe

def set_min_length (pipe : FifoPipeline α) (new_min_len : Nat) : Option (FifoPipeline α) :=
  if new_min_len = pipe.m_min_len then some pipe
  else if new_min_len > pipe.m_min_len then
    fill new_min_len { pipe with m_min_len := new_min_len }
  else if pipe.nodes ≠ [] then
    trim pipe.nodes.length { pipe with m_min_len := new_min_len }
  else none

/-! ## What the operations do -/

structure Valid (pipe : FifoPipeline α) : Prop where
  low : pipe.m_min_len ≤ pipe.nodes.length
  high : pipe.nodes.length ≤ pipe.m_max_len

variable {pipe pipe' : FifoPipeline α}

theorem dropLast_of_emptyTail (tail : pipe.emptyTail = true) :
    pipe.nodes.dropLast ++ [none] = pipe.nodes := by
  rw [emptyTail] at tail
  split at tail
  · rename_i last
    exact List.dropLast_append_getLast? none last
  · cases tail

theorem not_full_iff (positive : pipe.m_max_len ≠ 0) :
    pipe.full = false ↔ pipe.nodes.length < pipe.m_max_len := by
  simp [full, positive]

/-- The element goes to the tail, in the place of an empty node there if the pipe is
    long enough without a new one. -/
theorem push_eq (data : Option α) (room : pipe.nodes.length < pipe.m_max_len) :
    pipe.push data = some { pipe with
      nodes := (if pipe.emptyTail ∧ pipe.m_min_len ≤ pipe.nodes.length then
        pipe.nodes.dropLast else pipe.nodes) ++ [data] } := by
  rw [push, if_pos room, emptyTail]
  cases tail : pipe.nodes.getLast? with
  | none => simp [List.getLast?_eq_none_iff.mp tail]
  | some m_tail =>
    cases m_tail with
    | some _ => simp
    | none =>
      by_cases short : pipe.nodes.length < pipe.m_min_len
      · simp [short, Nat.not_le.mpr short]
      · simp [short, Nat.not_lt.mp short]

theorem push_short (data : Option α) (room : pipe.nodes.length < pipe.m_max_len)
    (short : pipe.nodes.length < pipe.m_min_len) :
    pipe.push data = some { pipe with nodes := pipe.nodes ++ [data] } := by
  rw [push_eq data room, if_neg (fun tail => Nat.not_le.mpr short tail.2)]

theorem push_full (data : Option α) (noRoom : pipe.m_max_len ≤ pipe.nodes.length) :
    pipe.push data = none := if_neg (Nat.not_lt.mpr noRoom)

section

variable {least most : Nat} {nodes : List (Option α)}

theorem fill_eq {fuel : Nat} (enough : least ≤ nodes.length + fuel) (fits : least ≤ most) :
    fill fuel ⟨least, most, nodes⟩ =
      some ⟨least, most, nodes ++ List.replicate (least - nodes.length) none⟩ := by
  induction fuel generalizing nodes with
  | zero =>
    have done : least - nodes.length = 0 := Nat.sub_eq_zero_of_le enough
    simp [fill, done]
  | succ fuel ih =>
    rw [fill]
    by_cases short : nodes.length < least
    · have rest : least - nodes.length = least - (nodes ++ [none]).length + 1 := by
        rw [List.length_append, List.length_singleton]
        omega
      have enough' : least ≤ (nodes ++ [none]).length + fuel := by
        rw [List.length_append, List.length_singleton]
        omega
      rw [if_pos short, push_short none (Nat.lt_of_lt_of_le short fits) short, Option.bind_some,
        ih enough', rest, List.replicate_succ, List.append_assoc]
      rfl
    · have done : least - nodes.length = 0 := Nat.sub_eq_zero_of_le (Nat.not_lt.mp short)
      simp [short, done]

theorem fill_overlong {fuel : Nat} (enough : least ≤ nodes.length + fuel)
    (high : nodes.length ≤ most) (overlong : most < least) :
    fill fuel ⟨least, most, nodes⟩ = none := by
  induction fuel generalizing nodes with
  | zero => omega
  | succ fuel ih =>
    rw [fill, if_pos (Nat.lt_of_le_of_lt high overlong)]
    by_cases room : nodes.length < most
    · rw [push_short none room (room.trans overlong), Option.bind_some]
      apply ih
      · simp only [List.length_append, List.length_singleton]
        omega
      · simp only [List.length_append, List.length_singleton]
        omega
    · rw [push_full none (Nat.not_lt.mp room), Option.bind_none]

theorem trim_eq (fuel : Nat) (low : least ≤ nodes.length) :
    ∃ kept k, trim fuel ⟨least, most, nodes⟩ = some ⟨least, most, kept⟩ ∧
      nodes = kept ++ List.replicate k none ∧ least ≤ kept.length := by
  induction fuel generalizing nodes with
  | zero => exact ⟨nodes, 0, rfl, by simp, low⟩
  | succ fuel ih =>
    rw [trim]
    by_cases long : nodes.length > least ∧ emptyTail ⟨least, most, nodes⟩
    · rw [if_pos long]
      have split : nodes.dropLast ++ [none] = nodes := dropLast_of_emptyTail long.2
      have shorter : least ≤ nodes.dropLast.length := by
        rw [List.length_dropLast]
        omega
      obtain ⟨kept, k, run, content, low'⟩ := ih shorter
      refine ⟨kept, k + 1, ?_, ?_, low'⟩
      · rw [← run]
        dsimp only
        split
        · -- the only node: `pop` takes it off, and the minimum is 0
          have noMinimum : least = 0 := by
            simp at shorter
            exact shorter
          simp [pop, noMinimum]
        · rfl
      · rw [← split, content, List.replicate_succ', List.append_assoc]
    · rw [if_neg long]
      exact ⟨nodes, 0, rfl, by simp, low⟩

theorem new_eq (positive : 0 < most) (fits : least ≤ most) :
    new least most = some (⟨least, most, List.replicate least none⟩ : FifoPipeline α) := by
  rw [new, if_pos (Nat.pos_iff_ne_zero.mp positive), fill_eq (Nat.le_add_left _ _) fits]
  simp

end

theorem valid_of_push {data : Option α} (valid : pipe.Valid) (run : pipe.push data = some pipe') :
    pipe'.Valid ∧ pipe'.m_min_len = pipe.m_min_len ∧ pipe'.m_max_len = pipe.m_max_len ∧
      (pipe'.nodes = pipe.nodes ++ [data] ∨
        ∃ nodes, pipe.nodes = nodes ++ [none] ∧ pipe'.nodes = nodes ++ [data]) := by
  by_cases room : pipe.nodes.length < pipe.m_max_len
  · rw [push_eq data room] at run
    obtain rfl := Option.some.inj run
    split
    · rename_i tail
      have split := dropLast_of_emptyTail tail.1
      have length := congrArg List.length split
      have low := valid.low
      rw [List.length_append, List.length_singleton] at length
      refine ⟨⟨?_, ?_⟩, rfl, rfl, Or.inr ⟨_, split.symm, rfl⟩⟩ <;>
        simp only [List.length_append, List.length_singleton] <;> omega
    · have low := valid.low
      refine ⟨⟨?_, ?_⟩, rfl, rfl, Or.inl rfl⟩ <;>
        simp only [List.length_append, List.length_singleton] <;> omega
  · rw [push_full data (Nat.not_lt.mp room)] at run
    cases run

theorem pop_eq (valid : pipe.Valid) :
    ∃ k, pipe.pop = some ({ pipe with nodes := pipe.nodes.tail ++ List.replicate k none },
        pipe.top) ∧
      pipe.m_min_len ≤ (pipe.nodes.tail ++ List.replicate k (none : Option α)).length ∧
      (pipe.nodes.tail ++ List.replicate k (none : Option α)).length ≤ pipe.m_max_len := by
  have low := valid.low
  have high := valid.high
  rw [pop, top]
  cases content : pipe.nodes with
  | nil =>
    rw [content] at low
    exact ⟨0, by cases pipe; cases content; rfl, low, Nat.zero_le _⟩
  | cons data next =>
    rw [content, List.length_cons] at low high
    by_cases short : pipe.m_min_len ≠ 0 ∧ next.length < pipe.m_min_len
    · have room : next.length < pipe.m_max_len := by omega
      refine ⟨1, ?_, by simp; omega, by simp; omega⟩
      simp only [short, if_true, ne_eq, not_false_eq_true, and_self]
      rw [@push_short α { pipe with nodes := next } none room short.2]
      simp
    · refine ⟨0, ?_, by simp; omega, by simp; omega⟩
      simp only [short, if_false]
      simp

theorem pop_plain (plain : pipe.m_min_len = 0) :
    pipe.pop = some ({ pipe with nodes := pipe.nodes.tail }, pipe.top) := by
  rw [pop, top]
  cases content : pipe.nodes with
  | nil =>
    cases pipe
    cases content
    rfl
  | cons data next => simp [plain]

theorem pop_room (valid : pipe.Valid) (fits : pipe.m_min_len < pipe.m_max_len) {data : Option α}
    (run : pipe.pop = some (pipe', data)) : pipe'.nodes.length < pipe.m_max_len := by
  have high := valid.high
  rw [pop] at run
  cases content : pipe.nodes with
  | nil =>
    simp only [content] at run
    cases run
    rw [content]
    exact Nat.zero_lt_of_lt fits
  | cons head next =>
    simp only [content] at run
    rw [content, List.length_cons] at high
    split at run
    · rename_i short
      rw [@push_short α { pipe with nodes := next } none (short.2.trans fits) short.2] at run
      cases run
      simp
      omega
    · cases run
      exact high

theorem valid_of_pop (valid : pipe.Valid) {data : Option α}
    (run : pipe.pop = some (pipe', data)) : pipe'.Valid := by
  obtain ⟨k, eq, low, high⟩ := pop_eq valid
  obtain ⟨rfl, -⟩ := Prod.mk.inj (Option.some.inj (run.symm.trans eq))
  exact ⟨low, high⟩

theorem set_min_length_eq (valid : pipe.Valid) {new_min_len : Nat}
    (fits : new_min_len ≤ pipe.m_max_len) :
    ∃ nodes k, pipe.set_min_length new_min_len =
        some { pipe with m_min_len := new_min_len, nodes } ∧
      new_min_len ≤ nodes.length ∧ nodes.length ≤ max pipe.nodes.length new_min_len ∧
      (nodes = pipe.nodes ++ List.replicate k none ∨
        pipe.nodes = nodes ++ List.replicate k none) := by
  have low := valid.low
  have high := valid.high
  rw [set_min_length]
  split
  · rename_i same
    exact ⟨pipe.nodes, 0, by rw [same], same ▸ low, Nat.le_max_left _ _, Or.inl (by simp)⟩
  · split
    · rename_i longer
      refine ⟨_, _, fill_eq (Nat.le_add_left _ _) fits, ?_, ?_, Or.inl rfl⟩
      · simp; omega
      · simp; omega
    · rename_i different notLonger
      have nodes : pipe.nodes ≠ [] := by
        intro nil
        rw [nil, List.length_nil] at low
        omega
      rw [if_pos nodes]
      obtain ⟨nodes, k, run, content, low'⟩ :=
        @trim_eq α new_min_len pipe.m_max_len pipe.nodes pipe.nodes.length (by omega)
      have length := congrArg List.length content
      rw [List.length_append] at length
      exact ⟨nodes, k, run, low', by omega, Or.inr content⟩

theorem set_min_length_overlong (valid : pipe.Valid) {new_min_len : Nat}
    (overlong : pipe.m_max_len < new_min_len) : pipe.set_min_length new_min_len = none := by
  have low := valid.low
  have high := valid.high
  rw [set_min_length, if_neg (by omega), if_pos (by omega)]
  exact fill_overlong (Nat.le_add_left _ _) high overlong

/-! ## How often an element is in a pipe -/

section

variable [DecidableEq α] (element : α)

theorem count_push (valid : pipe.Valid) {data : α} (run : pipe.push (some data) = some pipe') :
    pipe'.nodes.count (some element) =
      pipe.nodes.count (some element) + if data = element then 1 else 0 := by
  obtain ⟨-, -, -, atEnd⟩ := valid_of_push valid run
  cases atEnd with
  | inl added => simp [added, List.count_append, List.count_cons]
  | inr filled =>
    obtain ⟨nodes, before, after⟩ := filled
    simp [before, after, List.count_append, List.count_cons]

theorem count_replicate_none (k : Nat) :
    (List.replicate k (none : Option α)).count (some element) = 0 := by
  simp [List.count_replicate]

theorem count_pop (valid : pipe.Valid) {data : Option α} (run : pipe.pop = some (pipe', data)) :
    pipe.nodes.count (some element) =
      pipe'.nodes.count (some element) + if data = some element then 1 else 0 := by
  obtain ⟨k, eq, -, -⟩ := pop_eq valid
  obtain ⟨rfl, rfl⟩ := Prod.mk.inj (Option.some.inj (run.symm.trans eq))
  rw [List.count_append, count_replicate_none, top]
  cases pipe.nodes with
  | nil => simp
  | cons head next => by_cases same : head = some element <;> simp [same]

theorem count_set_min_length (valid : pipe.Valid) {new_min_len : Nat}
    (run : pipe.set_min_length new_min_len = some pipe') :
    pipe'.Valid ∧ pipe'.nodes.count (some element) = pipe.nodes.count (some element) := by
  by_cases fits : new_min_len ≤ pipe.m_max_len
  · obtain ⟨nodes, k, eq, low, high, content⟩ := set_min_length_eq valid fits
    obtain rfl := Option.some.inj (run.symm.trans eq)
    refine ⟨⟨low, high.trans (max_le valid.high fits)⟩, ?_⟩
    cases content with
    | inl longer => rw [longer, List.count_append, count_replicate_none, Nat.add_zero]
    | inr shorter => rw [shorter, List.count_append, count_replicate_none, Nat.add_zero]
  · rw [set_min_length_overlong valid (Nat.not_le.mp fits)] at run
    cases run

end

/-! ## Histories -/

inductive Op (α : Type) where
  | push (data : α)
  | pop
  | set_min_length (new_min_len : Nat)

structure Pushed (α : Type) where
  element : α
  minimum : Nat
  popsBefore : Nat

/-- What was pushed, and what each pop returned; the oldest first. -/
structure History (α : Type) where
  pushed : List (Pushed α)
  popped : List (Option α)

def step (state : FifoPipeline α × History α) : Op α → Option (FifoPipeline α × History α)
  | .push data => (state.1.push (some data)).map fun pipe => (pipe, { state.2 with
      pushed := state.2.pushed ++ [⟨data, state.1.m_min_len, state.2.popped.length⟩] })
  | .pop => state.1.pop.map fun result => (result.1, { state.2 with
      popped := state.2.popped ++ [result.2] })
  | .set_min_length new_min_len =>
    (state.1.set_min_length new_min_len).map fun pipe => (pipe, state.2)

def run (minlen maxlen : Nat) (ops : List (Op α)) : Option (FifoPipeline α × History α) :=
  (new minlen maxlen).bind fun pipe => ops.foldlM step (pipe, ⟨[], []⟩)

/-- An element at moment `mark.1` of a pipe's timeline was not pushed too late for it. -/
def InTime (mark : Nat × α) (pushed : Pushed α) : Prop :=
  mark.2 = pushed.element ∧ pushed.popsBefore + pushed.minimum ≤ mark.1 + 1

/-- What has been popped and what is still in the pipe make one timeline, and its
    marks are what was pushed. -/
structure Sound (maxlen : Nat) (pipe : FifoPipeline α) (history : History α) : Prop where
  valid : pipe.Valid
  most : pipe.m_max_len = maxlen
  marks : List.Forall₂ InTime (Timeline.marks (history.popped ++ pipe.nodes)) history.pushed

variable {history : History α} {maxlen : Nat}

theorem Sound.push (sound : Sound maxlen pipe history) {data : α}
    (run : pipe.push (some data) = some pipe') :
    Sound maxlen pipe' { history with
      pushed := history.pushed ++ [⟨data, pipe.m_min_len, history.popped.length⟩] } := by
  have low := sound.valid.low
  obtain ⟨valid, least, most, atEnd⟩ := valid_of_push sound.valid run
  refine ⟨valid, most.trans sound.most, ?_⟩
  dsimp only
  cases atEnd with
  | inl added =>
    rw [added, ← List.append_assoc, Timeline.marks_append_some]
    refine List.rel_append sound.marks (.cons ⟨rfl, ?_⟩ .nil)
    show history.popped.length + pipe.m_min_len ≤ (history.popped ++ pipe.nodes).length + 1
    rw [List.length_append]
    omega
  | inr filled =>
    obtain ⟨nodes, before, after⟩ := filled
    have marks := sound.marks
    have emptied := Timeline.marks_append_none (history.popped ++ nodes) 1
    rw [List.replicate_one, List.append_assoc, ← before] at emptied
    rw [emptied] at marks
    rw [before, List.length_append, List.length_singleton] at low
    rw [after, ← List.append_assoc, Timeline.marks_append_some]
    refine List.rel_append marks (.cons ⟨rfl, ?_⟩ .nil)
    show history.popped.length + pipe.m_min_len ≤ (history.popped ++ nodes).length + 1
    rw [List.length_append]
    omega

theorem Sound.pop (sound : Sound maxlen pipe history) {data : Option α}
    (run : pipe.pop = some (pipe', data)) :
    Sound maxlen pipe' { history with popped := history.popped ++ [data] } := by
  obtain ⟨k, eq, low, high⟩ := pop_eq sound.valid
  obtain ⟨rfl, rfl⟩ := Prod.mk.inj (Option.some.inj (run.symm.trans eq))
  refine ⟨⟨low, high⟩, sound.most, ?_⟩
  have marks := sound.marks
  rw [top]
  dsimp only
  cases content : pipe.nodes with
  | nil =>
    -- nothing but empty moments is added
    rw [content, List.append_nil] at marks
    have padding : history.popped ++ [none] ++ (([] : List (Option α)).tail ++
        List.replicate k none) = history.popped ++ List.replicate (k + 1) none := by
      simp [List.replicate_succ]
    simp only [List.head?_nil, Option.join_none]
    rw [padding, Timeline.marks_append_none]
    exact marks
  | cons data next =>
    rw [content] at marks
    have shifted : history.popped ++ [data] ++ (next ++ List.replicate k none) =
        history.popped ++ data :: next ++ List.replicate k none := by simp
    simp only [List.head?_cons, Option.join_some, List.tail_cons]
    rw [shifted, Timeline.marks_append_none]
    exact marks

theorem Sound.set_min_length (sound : Sound maxlen pipe history) {new_min_len : Nat}
    (run : pipe.set_min_length new_min_len = some pipe') : Sound maxlen pipe' history := by
  by_cases fits : new_min_len ≤ pipe.m_max_len
  · obtain ⟨nodes, k, eq, low, high, content⟩ := set_min_length_eq sound.valid fits
    obtain rfl := Option.some.inj (run.symm.trans eq)
    refine ⟨⟨low, high.trans (max_le sound.valid.high fits)⟩, sound.most, ?_⟩
    have marks := sound.marks
    cases content with
    | inl longer =>
      dsimp only
      rw [longer, ← List.append_assoc, Timeline.marks_append_none]
      exact marks
    | inr shorter =>
      rw [shorter, ← List.append_assoc, Timeline.marks_append_none] at marks
      exact marks
  · rw [set_min_length_overlong sound.valid (Nat.not_le.mp fits)] at run
    cases run

theorem Sound.step {state state' : FifoPipeline α × History α} {op : Op α}
    (sound : Sound maxlen state.1 state.2) (run : step state op = some state') :
    Sound maxlen state'.1 state'.2 := by
  cases op with
  | push data =>
    obtain ⟨pipe, eq, rfl⟩ := Option.map_eq_some_iff.mp run
    exact sound.push eq
  | pop =>
    obtain ⟨result, eq, rfl⟩ := Option.map_eq_some_iff.mp run
    exact sound.pop eq
  | set_min_length new_min_len =>
    obtain ⟨pipe, eq, rfl⟩ := Option.map_eq_some_iff.mp run
    exact sound.set_min_length eq

theorem Sound.ops {ops : List (Op α)} {state state' : FifoPipeline α × History α}
    (sound : Sound maxlen state.1 state.2) (run : ops.foldlM FifoPipeline.step state = some state') :
    Sound maxlen state'.1 state'.2 := by
  induction ops generalizing state with
  | nil => cases run; exact sound
  | cons op ops ih =>
    rw [List.foldlM_cons] at run
    obtain ⟨between, first, rest⟩ := Option.bind_eq_some_iff.mp run
    exact ih (sound.step first) rest

theorem sound_run {minlen : Nat} (fits : minlen ≤ maxlen) {ops : List (Op α)}
    (result : run minlen maxlen ops = some (pipe, history)) : Sound maxlen pipe history := by
  obtain ⟨start, created, rest⟩ := Option.bind_eq_some_iff.mp result
  have positive : 0 < maxlen := by
    by_contra zero
    rw [new, if_neg (by omega)] at created
    cases created
  rw [new_eq positive fits] at created
  obtain rfl := Option.some.inj created
  refine Sound.ops ⟨⟨?_, ?_⟩, rfl, ?_⟩ rest
  · simp
  · simpa using fits
  · have noMarks := Timeline.marks_append_none ([] : List (Option α)) minlen
    rw [noMarks]
    exact .nil

/-- What a caller may do without failing an assertion. -/
def Accepts (pipe : FifoPipeline α) : Op α → Prop
  | .push _ => pipe.full = false
  | .pop => True
  | .set_min_length new_min_len => new_min_len ≤ pipe.m_max_len

theorem Sound.step_isSome_iff (positive : 0 < maxlen) (sound : Sound maxlen pipe history)
    (op : Op α) : (FifoPipeline.step (pipe, history) op).isSome ↔ pipe.Accepts op := by
  cases op with
  | push data =>
    rw [FifoPipeline.step, Option.isSome_map, Accepts, not_full_iff (sound.most ▸ positive.ne')]
    constructor
    · intro accepted
      by_contra noRoom
      rw [push_full _ (Nat.not_lt.mp noRoom)] at accepted
      cases accepted
    · intro room
      rw [push_eq _ room]
      rfl
  | pop =>
    obtain ⟨k, eq, -⟩ := pop_eq sound.valid
    rw [FifoPipeline.step, Option.isSome_map, eq]
    exact ⟨fun _ => trivial, fun _ => rfl⟩
  | set_min_length new_min_len =>
    rw [FifoPipeline.step, Option.isSome_map, Accepts]
    constructor
    · intro accepted
      by_contra overlong
      rw [set_min_length_overlong sound.valid (Nat.not_le.mp overlong)] at accepted
      cases accepted
    · intro fits
      obtain ⟨nodes, k, eq, -⟩ := set_min_length_eq sound.valid fits
      rw [eq]
      rfl

/-- A pipe is a FIFO with a delay: what has been popped is a prefix of what was pushed,
    each element took at least as many pops as the minimum in force when it was pushed,
    the length stays between its limits, and no assertion fails as long as no element
    is pushed into a full pipe and no minimum above the maximum is asked for. -/
theorem delayed_fifo {minlen : Nat} (positive : 0 < maxlen) (fits : minlen ≤ maxlen)
    (ops : List (Op α)) (result : run minlen maxlen ops = some (pipe, history)) :
    history.popped.filterMap id <+: history.pushed.map Pushed.element ∧
      (∀ (k moment : Nat) (data : α), (Timeline.marks history.popped)[k]? = some (moment, data) →
        ∃ pushed : Pushed α, history.pushed[k]? = some pushed ∧ pushed.element = data ∧
          pushed.popsBefore + pushed.minimum ≤ moment + 1) ∧
      pipe.m_min_len ≤ pipe.get_length ∧ pipe.get_length ≤ maxlen ∧
      ∀ op, (step (pipe, history) op).isSome ↔ pipe.Accepts op := by
  have sound := sound_run fits result
  have marks := sound.marks
  have early := Timeline.marks_prefix history.popped pipe.nodes
  refine ⟨?_, ?_, sound.valid.low, sound.most ▸ sound.valid.high,
    sound.step_isSome_iff positive⟩
  · have same : (Timeline.marks (history.popped ++ pipe.nodes)).map Prod.snd =
        history.pushed.map Pushed.element := by
      rw [← List.forall₂_eq_eq_eq, List.forall₂_map_left_iff, List.forall₂_map_right_iff]
      exact marks.imp fun mark pushed inTime => inTime.1
    rw [← same, ← Timeline.marks_map_snd]
    exact early.map Prod.snd
  · intro k moment data here
    obtain ⟨later, split⟩ := early
    have found : (Timeline.marks (history.popped ++ pipe.nodes))[k]? = some (moment, data) := by
      rw [← split, List.getElem?_append_left (List.getElem?_eq_some_iff.mp here).1, here]
    obtain ⟨inside, value⟩ := List.getElem?_eq_some_iff.mp found
    have inTime := List.forall₂_iff_get.mp marks
    have pushedInside := inTime.1 ▸ inside
    have late := inTime.2 k inside pushedInside
    refine ⟨_, List.getElem?_eq_getElem pushedInside, ?_⟩
    rw [List.get_eq_getElem, List.get_eq_getElem, value] at late
    exact ⟨late.1.symm, late.2⟩

/-- An element that waits for two pops; the minimum is lowered behind it. -/
theorem delayed_fifo_lowered :
    let ops : List (Op Nat) := [.push 7, .set_min_length 1, .pop, .pop]
    ∃ pipe history, run 2 3 ops = some (pipe, history) ∧
      history.popped.filterMap id <+: history.pushed.map Pushed.element := by
  have result : @run Nat 2 3 [.push 7, .set_min_length 1, .pop, .pop] =
      some (⟨1, 3, [none]⟩, ⟨[⟨7, 2, 0⟩], [none, some 7]⟩) := rfl
  exact ⟨_, _, result, (delayed_fifo (by decide) (by decide) _ result).1⟩

/-- A minimum above the maximum fails the assertion of `push`. -/
theorem set_min_length_aborts : ¬ ∀ new_min_len : Nat, ∃ pipe history,
    run 0 2 [Op.set_min_length new_min_len] = some (pipe, (history : History Nat)) ∧
      pipe.m_min_len ≤ pipe.get_length ∧ pipe.get_length ≤ 2 := by
  intro always
  obtain ⟨pipe, history, result, -⟩ := always 3
  cases result

end FifoPipeline
end AesOnGpu
