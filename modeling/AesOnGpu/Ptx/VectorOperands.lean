import AesOnGpu.Ptx.Declarations
import AesOnGpu.Ptx.Register

/-! # Vector operands

A component of a vector may be the placeholder `_`.  In an operand of four components the parser
puts a null pointer in its place, which the readers take for the end of the vector
(`keeps_iff_covered`).
-/

namespace AesOnGpu.Ptx.VectorOperands

/-! ## The parser -/

structure Scope where
  lookup : String → Option Symbol
  named : ∀ name s, lookup name = some s → s.name = name

/-- A vector operand in braces. -/
inductive VectorSyntax where
  | two (d1 d2 : String)
  | three (d1 d2 d3 : String)
  | four (d1 d2 d3 d4 : String)

def VectorSyntax.names : VectorSyntax → List String
  | two d1 d2 => [d1, d2]
  | three d1 d2 d3 => [d1, d2, d3]
  | four d1 d2 d3 d4 => [d1, d2, d3, d4]

/-- `operand_info` of a vector: the four places of `m_vector_symbolic`. -/
structure OperandInfo where
  m_vector_symbolic : List (Option Symbol)

/-- The constructor for four symbols. -/
def OperandInfo.ofSymbols (s1 s2 s3 s4 : Option Symbol) : OperandInfo := ⟨[s1, s2, s3, s4]⟩

def add_2vector_operand (scope : Scope) (d1 d2 : String) : Option OperandInfo := do
  let s1 ← scope.lookup d1
  let s2 ← scope.lookup d2
  return .ofSymbols s1 s2 none none

def add_3vector_operand (scope : Scope) (d1 d2 d3 : String) : Option OperandInfo := do
  let s1 ← scope.lookup d1
  let s2 ← scope.lookup d2
  let s3 ← scope.lookup d3
  return .ofSymbols s1 s2 s3 none

def add_4vector_operand (scope : Scope) (d1 d2 d3 d4 : String) : Option OperandInfo := do
  let s1 ← scope.lookup d1
  let s2 ← scope.lookup d2
  let s3 ← scope.lookup d3
  let s4 ← scope.lookup d4
  let null_op := scope.lookup "_"
  -- the first component keeps the placeholder
  return .ofSymbols s1 (if some s2 = null_op then none else some s2)
    (if some s3 = null_op then none else some s3) (if some s4 = null_op then none else some s4)

def VectorSyntax.parse (scope : Scope) : VectorSyntax → Option OperandInfo
  | two d1 d2 => add_2vector_operand scope d1 d2
  | three d1 d2 d3 => add_3vector_operand scope d1 d2 d3
  | four d1 d2 d3 d4 => add_4vector_operand scope d1 d2 d3 d4

/-! ## Registers -/

/-- `m_regs.back()`: the registers that have been written in this frame. -/
abbrev RegMap := Symbol → Option RegValue

def set_reg (regs : RegMap) (reg : Symbol) (value : RegValue) : RegMap :=
  if reg.name = "_" then regs else Function.update regs reg (some value)

namespace OperandInfo

variable (op : OperandInfo)

/-- A null pointer fails the assertion. -/
def vec_symbol (idx : Nat) : Option Symbol := (op.m_vector_symbolic[idx]?).join

def get_vect_nelem : Nat :=
  if op.vec_symbol 0 = none then 0
  else if op.vec_symbol 1 = none then 1
  else if op.vec_symbol 2 = none then 2
  else if op.vec_symbol 3 = none then 3
  else 4

end OperandInfo

/-- The loop from the last component down.  A register that has never been written fails an
    assertion. -/
def getLoop (regs : RegMap) (op : OperandInfo) :
    Nat → (Nat → RegValue) → Option (Nat → RegValue)
  | 0, ptx_regs => some ptx_regs
  | idx + 1, ptx_regs => do
    let sym ← op.vec_symbol idx
    if sym.name = "_" then getLoop regs op idx ptx_regs
    else do
      let value ← regs sym
      getLoop regs op idx (Function.update ptx_regs idx value)

def get_vector_operand_values (regs : RegMap) (op : OperandInfo) (ptx_regs : Nat → RegValue)
    (num_elements : Nat) : Option (Nat → RegValue) :=
  if num_elements ≤ 4 then getLoop regs op num_elements ptx_regs else none

def set_vector_operand_values (regs : RegMap) (dst : OperandInfo)
    (data1 data2 data3 data4 : RegValue) : Option RegMap := do
  let num_elements := dst.get_vect_nelem
  if num_elements > 0 then
    let regs := set_reg regs (← dst.vec_symbol 0) data1
    if num_elements > 1 then
      let regs := set_reg regs (← dst.vec_symbol 1) data2
      if num_elements > 2 then
        let regs := set_reg regs (← dst.vec_symbol 2) data3
        if num_elements > 3 then
          let regs := set_reg regs (← dst.vec_symbol 3) data4
          return regs
        else return regs
      else return regs
    else return regs
  else return regs

/-! ## What the components are for -/

/-- Writing each component with its own element; a placeholder is not written. -/
def writeEach (regs : RegMap) (components : List (Symbol × RegValue)) : RegMap :=
  components.foldl (fun regs c => set_reg regs c.1 c.2) regs

inductive Use where
  /-- A store reads as many components as its vector has. -/
  | store
  /-- A move or a texture fetch reads as many components as the operand counts. -/
  | counted
  | destination

def Use.num_elements (op : OperandInfo) (components : List Symbol) : Use → Nat
  | store => components.length
  | _ => op.get_vect_nelem

/-- Each register among the components is found in its place. -/
def Reads (regs : RegMap) (op : OperandInfo) (components : List Symbol) (num_elements : Nat) :
    Prop :=
  ∀ ptx_regs, ∃ ptx_regs',
    get_vector_operand_values regs op ptx_regs num_elements = some ptx_regs' ∧
      ∀ i s, components[i]? = some s → s.name ≠ "_" → regs s = some (ptx_regs' i)

/-- The registers change as if each component had been written, and no other. -/
def Writes (regs : RegMap) (op : OperandInfo) (components : List Symbol) : Prop :=
  ∀ data1 data2 data3 data4,
    set_vector_operand_values regs op data1 data2 data3 data4 =
      some (writeEach regs (components.zip [data1, data2, data3, data4]))

def Keeps (scope : Scope) (v : VectorSyntax) (components : List Symbol) (use : Use)
    (regs : RegMap) : Prop :=
  ∃ op, v.parse scope = some op ∧
    match use with
    | .destination => Writes regs op components
    | use => Reads regs op components (use.num_elements op components)

/-- A null pointer stands for the component. -/
def Erased (components : List Symbol) (i : Nat) (s : Symbol) : Prop :=
  components.length = 4 ∧ 1 ≤ i ∧ s.name = "_"

def HolesLast (components : List Symbol) : Prop :=
  ∀ i j s s', i < j → components[i]? = some s → components[j]? = some s' →
    Erased components i s → s'.name = "_"

/-- A store meets no erased component, the other uses no register behind one; and what is read
    has been written. -/
def Covered (components : List Symbol) (use : Use) (regs : RegMap) : Prop :=
  match use with
  | .store => (∀ i s, components[i]? = some s → ¬ Erased components i s) ∧
      ∀ s ∈ components, s.name ≠ "_" → (regs s).isSome
  | .counted => HolesLast components ∧ ∀ s ∈ components, s.name ≠ "_" → (regs s).isSome
  | .destination => HolesLast components

/-! ## What the parser makes of the components -/

theorem hole_iff (scope : Scope) {d : String} {s : Symbol} (found : scope.lookup d = some s) :
    some s = scope.lookup "_" ↔ s.name = "_" := by
  constructor
  · exact fun same => scope.named _ _ same.symm
  · intro hole
    rw [← hole, scope.named _ _ found, found]

structure Holds (op : OperandInfo) (components : List Symbol) : Prop where
  short : components.length ≤ 4
  vec_symbol : ∀ i s, op.vec_symbol i = some s ↔ components[i]? = some s ∧ ¬ Erased components i s

theorem holds_parsed (scope : Scope) {v : VectorSyntax} {components : List Symbol}
    (declared : v.names.map scope.lookup = components.map some) :
    ∃ op, v.parse scope = some op ∧ Holds op components := by
  cases v with
  | two d1 d2 =>
    rcases components with _ | ⟨c1, _ | ⟨c2, _ | ⟨_, _⟩⟩⟩ <;>
      simp [VectorSyntax.names] at declared
    refine ⟨.ofSymbols c1 c2 none none, ?_, by simp, fun i s => ?_⟩
    · simp [VectorSyntax.parse, add_2vector_operand, declared]
    · rcases i with _ | _ | _ | _ | i <;>
        simp [OperandInfo.ofSymbols, OperandInfo.vec_symbol, Erased]
  | three d1 d2 d3 =>
    rcases components with _ | ⟨c1, _ | ⟨c2, _ | ⟨c3, _ | ⟨_, _⟩⟩⟩⟩ <;>
      simp [VectorSyntax.names] at declared
    refine ⟨.ofSymbols c1 c2 c3 none, ?_, by simp, fun i s => ?_⟩
    · simp [VectorSyntax.parse, add_3vector_operand, declared]
    · rcases i with _ | _ | _ | _ | i <;>
        simp [OperandInfo.ofSymbols, OperandInfo.vec_symbol, Erased]
  | four d1 d2 d3 d4 =>
    rcases components with _ | ⟨c1, _ | ⟨c2, _ | ⟨c3, _ | ⟨c4, _ | ⟨_, _⟩⟩⟩⟩⟩ <;>
      simp [VectorSyntax.names] at declared
    obtain ⟨first, second, third, fourth⟩ := declared
    let erase (c : Symbol) : Option Symbol := if c.name = "_" then none else some c
    refine ⟨.ofSymbols c1 (erase c2) (erase c3) (erase c4), ?_, by simp, fun i s => ?_⟩
    · simp [VectorSyntax.parse, add_4vector_operand, first, second, third, fourth, erase,
        hole_iff scope second, hole_iff scope third, hole_iff scope fourth]
    · have kept (c : Symbol) : erase c = some s ↔ c = s ∧ ¬ s.name = "_" := by
        simp only [erase]
        constructor
        · intro kept
          split at kept
          · cases kept
          · obtain rfl := Option.some.inj kept
            exact ⟨rfl, by assumption⟩
        · rintro ⟨rfl, real⟩
          exact if_neg real
      rcases i with _ | _ | _ | _ | i <;>
        simp [OperandInfo.ofSymbols, OperandInfo.vec_symbol, Erased, kept]

theorem nelem_spec (op : OperandInfo) :
    (∀ i < op.get_vect_nelem, (op.vec_symbol i).isSome) ∧ op.get_vect_nelem ≤ 4 ∧
      (op.get_vect_nelem < 4 → op.vec_symbol op.get_vect_nelem = none) := by
  have counted (k : Nat) (present : ∀ i < k, op.vec_symbol i ≠ none) :
      ∀ i < k, (op.vec_symbol i).isSome :=
    fun i below => Option.isSome_iff_ne_none.mpr (present i below)
  rw [OperandInfo.get_vect_nelem]
  split
  · exact ⟨counted 0 (by omega), by decide, fun _ => by assumption⟩
  split
  · exact ⟨counted 1 (by intro i below; interval_cases i; assumption), by decide,
      fun _ => by assumption⟩
  split
  · exact ⟨counted 2 (by intro i below; interval_cases i <;> assumption), by decide,
      fun _ => by assumption⟩
  split
  · exact ⟨counted 3 (by intro i below; interval_cases i <;> assumption), by decide,
      fun _ => by assumption⟩
  · exact ⟨counted 4 (by intro i below; interval_cases i <;> assumption), by decide,
      fun short => absurd short (by decide)⟩

/-! ## Reading -/

section

variable {regs : RegMap} {op : OperandInfo} {components : List Symbol}

def Passes (regs : RegMap) (op : OperandInfo) (i : Nat) : Prop :=
  ∃ s, op.vec_symbol i = some s ∧ (s.name ≠ "_" → (regs s).isSome)

theorem getLoop_spec (n : Nat) (passes : ∀ i < n, Passes regs op i) (ptx_regs : Nat → RegValue) :
    ∃ ptx_regs', getLoop regs op n ptx_regs = some ptx_regs' ∧
      (∀ i s, i < n → op.vec_symbol i = some s → s.name ≠ "_" → regs s = some (ptx_regs' i)) ∧
      ∀ i, n ≤ i → ptx_regs' i = ptx_regs i := by
  induction n generalizing ptx_regs with
  | zero => exact ⟨ptx_regs, rfl, fun i s below => absurd below (Nat.not_lt_zero i), fun _ _ => rfl⟩
  | succ n ih =>
    obtain ⟨sym, present, written⟩ := passes n (Nat.lt_succ_self n)
    have before (i : Nat) (below : i < n) : Passes regs op i := passes i (Nat.lt_succ_of_lt below)
    by_cases hole : sym.name = "_"
    · obtain ⟨ptx_regs', run, found, kept⟩ := ih before ptx_regs
      refine ⟨ptx_regs', by simp [getLoop, present, hole, run], fun i s below symbol real => ?_,
        fun i above => kept i (by omega)⟩
      rcases Nat.lt_succ_iff_lt_or_eq.mp below with earlier | rfl
      · exact found i s earlier symbol real
      · obtain rfl := Option.some.inj (present.symm.trans symbol)
        exact absurd hole real
    · obtain ⟨value, register⟩ := Option.isSome_iff_exists.mp (written hole)
      obtain ⟨ptx_regs', run, found, kept⟩ := ih before (Function.update ptx_regs n value)
      refine ⟨ptx_regs', by simp [getLoop, present, hole, register, run],
        fun i s below symbol real => ?_, fun i above => ?_⟩
      · rcases Nat.lt_succ_iff_lt_or_eq.mp below with earlier | rfl
        · exact found i s earlier symbol real
        · obtain rfl := Option.some.inj (present.symm.trans symbol)
          rw [kept i le_rfl, Function.update_self, register]
      · rw [kept i (by omega), Function.update_of_ne (by omega)]

theorem getLoop_inv {n : Nat} {ptx_regs ptx_regs' : Nat → RegValue}
    (run : getLoop regs op n ptx_regs = some ptx_regs') :
    (∀ i < n, Passes regs op i) ∧ ∀ i, n ≤ i → ptx_regs' i = ptx_regs i := by
  induction n generalizing ptx_regs with
  | zero =>
    obtain rfl := Option.some.inj run
    exact ⟨fun i below => absurd below (Nat.not_lt_zero i), fun _ _ => rfl⟩
  | succ n ih =>
    obtain ⟨sym, present, rest⟩ := Option.bind_eq_some_iff.mp run
    have last (written : sym.name ≠ "_" → (regs sym).isSome) (before : ∀ i < n, Passes regs op i) :
        ∀ i < n + 1, Passes regs op i := by
      intro i below
      rcases Nat.lt_succ_iff_lt_or_eq.mp below with earlier | rfl
      · exact before i earlier
      · exact ⟨sym, present, written⟩
    split at rest
    · rename_i hole
      obtain ⟨before, kept⟩ := ih rest
      exact ⟨last (fun real => absurd hole real) before, fun i above => kept i (by omega)⟩
    · obtain ⟨value, register, rest⟩ := Option.bind_eq_some_iff.mp rest
      obtain ⟨before, kept⟩ := ih rest
      refine ⟨last (fun _ => by rw [register]; rfl) before, fun i above => ?_⟩
      rw [kept i (by omega), Function.update_of_ne (by omega)]

theorem reads_iff (holds : Holds op components) {n : Nat} (few : n ≤ 4) :
    Reads regs op components n ↔
      (∀ i < n, Passes regs op i) ∧ ∀ i s, components[i]? = some s → s.name ≠ "_" → i < n := by
  constructor
  · intro reads
    obtain ⟨out, run, -⟩ := reads fun _ => 0
    rw [get_vector_operand_values, if_pos few] at run
    refine ⟨(getLoop_inv run).1, fun i s component real => ?_⟩
    by_contra beyond
    -- what lies behind the loop would have to be two values at once
    have stays (v : RegValue) : regs s = some v := by
      obtain ⟨out, run, found⟩ := reads fun _ => v
      rw [get_vector_operand_values, if_pos few] at run
      rw [found i s component real, (getLoop_inv run).2 i (by omega)]
    exact absurd (Option.some.inj ((stays 0).symm.trans (stays 1))) (by decide)
  · rintro ⟨passes, met⟩ ptx_regs
    obtain ⟨out, run, found, -⟩ := getLoop_spec n passes ptx_regs
    refine ⟨out, by rw [get_vector_operand_values, if_pos few, run], fun i s component real => ?_⟩
    have below := met i s component real
    obtain ⟨s', present, -⟩ := passes i below
    obtain ⟨component', -⟩ := (holds.vec_symbol i s').mp present
    obtain rfl := Option.some.inj (component.symm.trans component')
    exact found i s below present real

/-- The operand counts all its registers exactly when none of them comes after an erased
    component. -/
theorem holesLast_iff (holds : Holds op components) :
    HolesLast components ↔
      ∀ i s, components[i]? = some s → s.name ≠ "_" → i < op.get_vect_nelem := by
  obtain ⟨present, -, absent⟩ := nelem_spec op
  have short := holds.short
  constructor
  · intro holes i s component real
    by_contra beyond
    have inside : i < components.length := (List.getElem?_eq_some_iff.mp component).1
    obtain ⟨first, component'⟩ : ∃ first, components[op.get_vect_nelem]? = some first :=
      ⟨_, List.getElem?_eq_getElem (by omega)⟩
    have erased : Erased components op.get_vect_nelem first := by
      by_contra kept
      rw [(holds.vec_symbol _ first).mpr ⟨component', kept⟩] at absent
      exact absurd (absent (by omega)) (by simp)
    rcases Nat.lt_or_eq_of_le (Nat.le_of_not_lt beyond) with later | same
    · exact real (holes _ _ _ _ later component' component erased)
    · rw [same] at component'
      obtain rfl := Option.some.inj (component.symm.trans component')
      exact real erased.2.2
  · intro met i j s s' before component component' erased
    by_contra real
    obtain ⟨found, symbol⟩ := Option.isSome_iff_exists.mp
      (present i (lt_trans before (met j s' component' real)))
    obtain ⟨component'', kept⟩ := (holds.vec_symbol i found).mp symbol
    obtain rfl := Option.some.inj (component.symm.trans component'')
    exact kept erased

theorem store_iff (holds : Holds op components) :
    Reads regs op components components.length ↔ Covered components .store regs := by
  rw [reads_iff holds holds.short]
  constructor
  · rintro ⟨passes, -⟩
    constructor
    · intro i s component erased
      obtain ⟨s', present, -⟩ := passes i (List.getElem?_eq_some_iff.mp component).1
      obtain ⟨component', kept⟩ := (holds.vec_symbol i s').mp present
      obtain rfl := Option.some.inj (component.symm.trans component')
      exact kept erased
    · intro s member real
      obtain ⟨i, inside, rfl⟩ := List.mem_iff_getElem.mp member
      obtain ⟨s', present, written⟩ := passes i inside
      obtain ⟨component, -⟩ := (holds.vec_symbol i s').mp present
      obtain rfl := Option.some.inj ((List.getElem?_eq_getElem inside).symm.trans component)
      exact written real
  · rintro ⟨whole, written⟩
    refine ⟨fun i below => ⟨components[i], ?_, written _ (List.getElem_mem below)⟩,
      fun i s component _ => (List.getElem?_eq_some_iff.mp component).1⟩
    have component := List.getElem?_eq_getElem below
    exact (holds.vec_symbol i _).mpr ⟨component, whole i _ component⟩

theorem counted_iff (holds : Holds op components) :
    Reads regs op components op.get_vect_nelem ↔ Covered components .counted regs := by
  obtain ⟨present, few, -⟩ := nelem_spec op
  rw [reads_iff holds few, Covered, holesLast_iff holds]
  constructor
  · rintro ⟨passes, met⟩
    refine ⟨met, fun s member real => ?_⟩
    obtain ⟨i, inside, rfl⟩ := List.mem_iff_getElem.mp member
    have component := List.getElem?_eq_getElem inside
    obtain ⟨s', symbol, written⟩ := passes i (met i _ component real)
    obtain ⟨component', -⟩ := (holds.vec_symbol i s').mp symbol
    obtain rfl := Option.some.inj (component.symm.trans component')
    exact written real
  · rintro ⟨met, written⟩
    refine ⟨fun i below => ?_, met⟩
    obtain ⟨s, symbol⟩ := Option.isSome_iff_exists.mp (present i below)
    obtain ⟨component, -⟩ := (holds.vec_symbol i s).mp symbol
    exact ⟨s, symbol, written s (List.mem_of_getElem? component)⟩

end

/-! ## Writing -/

section

variable {regs : RegMap} {op : OperandInfo} {components : List Symbol}

theorem writeEach_append (regs : RegMap) (l l' : List (Symbol × RegValue)) :
    writeEach regs (l ++ l') = writeEach (writeEach regs l) l' := List.foldl_append

theorem writeEach_holes (regs : RegMap) {l : List (Symbol × RegValue)}
    (holes : ∀ c ∈ l, c.1.name = "_") : writeEach regs l = regs := by
  induction l generalizing regs with
  | nil => rfl
  | cons c l ih =>
    have skipped : set_reg regs c.1 c.2 = regs := if_pos (holes c List.mem_cons_self)
    rw [writeEach, List.foldl_cons, skipped]
    exact ih regs fun c' member => holes c' (List.mem_cons_of_mem _ member)

theorem writeEach_value (regs : RegMap) {l : List (Symbol × RegValue)} {v : RegValue}
    (values : ∀ c ∈ l, c.2 = v) (s : Symbol) :
    (writeEach regs l s = regs s ∨ writeEach regs l s = some v) ∧
      (s.name ≠ "_" → (s, v) ∈ l → writeEach regs l s = some v) := by
  induction l generalizing regs with
  | nil => exact ⟨.inl rfl, fun _ member => by cases member⟩
  | cons c l ih =>
    have same : c.2 = v := values c List.mem_cons_self
    obtain ⟨outcome, written⟩ := ih (set_reg regs c.1 c.2)
      fun c' member => values c' (List.mem_cons_of_mem _ member)
    have one : set_reg regs c.1 c.2 s = regs s ∨ set_reg regs c.1 c.2 s = some v := by
      rw [set_reg, same]
      split
      · exact .inl rfl
      · by_cases register : s = c.1
        · exact .inr (by rw [register, Function.update_self])
        · exact .inl (Function.update_of_ne register _ _)
    rw [writeEach, List.foldl_cons]
    change (writeEach (set_reg regs c.1 c.2) l s = _ ∨ writeEach (set_reg regs c.1 c.2) l s = _) ∧
      (_ → _ → writeEach (set_reg regs c.1 c.2) l s = _)
    refine ⟨?_, fun real member => ?_⟩
    · rcases outcome with kept | value
      · rw [kept]
        exact one
      · exact .inr value
    · rcases List.mem_cons.mp member with here | later
      · rcases outcome with kept | value
        · rw [kept, ← here, set_reg, if_neg real, Function.update_self]
        · exact value
      · exact written real later

theorem set_spec (holds : Holds op components) (data1 data2 data3 data4 : RegValue) :
    set_vector_operand_values regs op data1 data2 data3 data4 = some (writeEach regs
      ((components.zip [data1, data2, data3, data4]).take op.get_vect_nelem)) := by
  obtain ⟨present, few, -⟩ := nelem_spec op
  have component (i : Nat) (below : i < op.get_vect_nelem) :
      ∃ s, op.vec_symbol i = some s ∧ components[i]? = some s := by
    obtain ⟨s, symbol⟩ := Option.isSome_iff_exists.mp (present i below)
    exact ⟨s, symbol, ((holds.vec_symbol i s).mp symbol).1⟩
  rw [set_vector_operand_values]
  generalize op.get_vect_nelem = n at component few
  interval_cases n
  · rfl
  · obtain ⟨s1, symbol1, component1⟩ := component 0 (by decide)
    rcases components with _ | ⟨c1, components⟩ <;> simp at component1
    simp [symbol1, writeEach, component1]
  · obtain ⟨s1, symbol1, component1⟩ := component 0 (by decide)
    obtain ⟨s2, symbol2, component2⟩ := component 1 (by decide)
    rcases components with _ | ⟨c1, _ | ⟨c2, components⟩⟩ <;> simp at component1 component2
    simp [symbol1, symbol2, writeEach, component1, component2]
  · obtain ⟨s1, symbol1, component1⟩ := component 0 (by decide)
    obtain ⟨s2, symbol2, component2⟩ := component 1 (by decide)
    obtain ⟨s3, symbol3, component3⟩ := component 2 (by decide)
    rcases components with _ | ⟨c1, _ | ⟨c2, _ | ⟨c3, components⟩⟩⟩ <;>
      simp at component1 component2 component3
    simp [symbol1, symbol2, symbol3, writeEach, component1, component2, component3]
  · obtain ⟨s1, symbol1, component1⟩ := component 0 (by decide)
    obtain ⟨s2, symbol2, component2⟩ := component 1 (by decide)
    obtain ⟨s3, symbol3, component3⟩ := component 2 (by decide)
    obtain ⟨s4, symbol4, component4⟩ := component 3 (by decide)
    rcases components with _ | ⟨c1, _ | ⟨c2, _ | ⟨c3, _ | ⟨c4, components⟩⟩⟩⟩ <;>
      simp at component1 component2 component3 component4
    simp [symbol1, symbol2, symbol3, symbol4, writeEach, component1, component2, component3,
      component4]

theorem destination_iff (holds : Holds op components) :
    Writes regs op components ↔ Covered components .destination regs := by
  have few := (nelem_spec op).2.1
  rw [Covered, holesLast_iff holds]
  have pieces (data : List RegValue) : components.zip data =
      (components.zip data).take op.get_vect_nelem ++
        (components.zip data).drop op.get_vect_nelem := (List.take_append_drop _ _).symm
  constructor
  · intro writes i s component real
    by_contra beyond
    -- a value that the register does not hold is written behind the null pointer only
    obtain ⟨u, v, other, fresh⟩ : ∃ u v : RegValue, u ≠ v ∧ regs s ≠ some v := by
      by_cases one : regs s = some 1
      · exact ⟨0, 2, by decide, by rw [one]; decide⟩
      · exact ⟨0, 1, by decide, one⟩
    let element (k : Nat) : RegValue := if k < op.get_vect_nelem then u else v
    have data : [element 0, element 1, element 2, element 3] = (List.range 4).map element := rfl
    have code : set_vector_operand_values regs op (element 0) (element 1) (element 2)
      (element 3) = _ := set_spec holds _ _ _ _
    have written := code.symm.trans
      (writes (element 0) (element 1) (element 2) (element 3))
    rw [data] at written
    have before : ∀ c ∈ (components.zip ((List.range 4).map element)).take op.get_vect_nelem,
        c.2 = u := by
      intro c member
      obtain ⟨k, below, rfl⟩ := List.mem_iff_getElem.mp member
      have counted : k < op.get_vect_nelem := by
        rw [List.length_take] at below
        omega
      simp [element, counted]
    have behind : ∀ c ∈ (components.zip ((List.range 4).map element)).drop op.get_vect_nelem,
        c.2 = v := by
      intro c member
      obtain ⟨k, below, rfl⟩ := List.mem_iff_getElem.mp member
      simp [element]
    have member : (s, v) ∈
        (components.zip ((List.range 4).map element)).drop op.get_vect_nelem := by
      obtain ⟨inside, rfl⟩ := List.getElem?_eq_some_iff.mp component
      have short := holds.short
      rw [List.mem_drop_iff_getElem]
      refine ⟨i - op.get_vect_nelem, by simp; omega, ?_⟩
      have place : op.get_vect_nelem + (i - op.get_vect_nelem) = i := by omega
      simp [place, element, beyond]
    have same := congrFun (Option.some.inj written) s
    conv at same => rhs; rw [pieces, writeEach_append]
    rw [(writeEach_value _ behind s).2 real member] at same
    rcases (writeEach_value regs before s).1 with kept | value
    · exact fresh (kept.symm.trans same)
    · exact other (Option.some.inj (value.symm.trans same))
  · intro met data1 data2 data3 data4
    conv => rhs; rw [pieces, writeEach_append]
    rw [set_spec holds, writeEach_holes (writeEach _ _)]
    intro c member
    by_contra real
    obtain ⟨k, below, rfl⟩ := List.mem_iff_getElem.mp member
    have inside : op.get_vect_nelem + k < components.length := by
      rw [List.length_drop, List.length_zip] at below
      omega
    have counted := met (op.get_vect_nelem + k) _ (List.getElem?_eq_getElem inside) (by
      simpa using real)
    omega

end

theorem exists_parsed_iff {scope : Scope} {v : VectorSyntax} {op : OperandInfo}
    (parsed : v.parse scope = some op) {P : OperandInfo → Prop} :
    (∃ op', v.parse scope = some op' ∧ P op') ↔ P op := by
  constructor
  · rintro ⟨op', parsed', property⟩
    obtain rfl := Option.some.inj (parsed.symm.trans parsed')
    exact property
  · exact fun property => ⟨op, parsed, property⟩

/-- All components are kept exactly when the erased ones do not matter to the use of the operand,
    and what is read has been written. -/
theorem keeps_iff_covered {scope : Scope} {v : VectorSyntax} {components : List Symbol}
    (declared : v.names.map scope.lookup = components.map some) (use : Use) (regs : RegMap) :
    Keeps scope v components use regs ↔ Covered components use regs := by
  obtain ⟨op, parsed, holds⟩ := holds_parsed scope declared
  rw [Keeps, exists_parsed_iff parsed]
  cases use with
  | store => exact store_iff holds
  | counted => exact counted_iff holds
  | destination => exact destination_iff holds

def register (name : String) : Symbol := ⟨name, none, 4, none⟩

def allNames : Scope where
  lookup name := some (register name)
  named name s found := by
    obtain rfl := Option.some.inj found
    rfl

theorem keeps_two_with_hole :
    Keeps allNames (.two "_" "a") [register "_", register "a"] .destination fun _ => none :=
  (keeps_iff_covered rfl .destination fun _ => none).mpr
    fun _ _ _ _ _ _ _ erased => absurd erased.1 (by decide)

/-- The third component of `{a, _, c, d}` is not written. -/
theorem behind_hole_not_kept :
    ¬ ∀ (scope : Scope) (v : VectorSyntax) (components : List Symbol) (use : Use) (regs : RegMap),
      v.names.map scope.lookup = components.map some → Keeps scope v components use regs := by
  intro keeps
  have declared : (VectorSyntax.four "a" "_" "c" "d").names.map allNames.lookup =
      (["a", "_", "c", "d"].map register).map some := rfl
  obtain ⟨op, parsed, holds⟩ := holds_parsed allNames declared
  have writes : Writes (fun _ => none) op _ :=
    (exists_parsed_iff parsed).mp (keeps _ _ _ .destination _ declared)
  have covered := (destination_iff holds).mp writes
  have third := covered 1 2 (register "_") (register "c") (by decide) rfl rfl
    ⟨rfl, le_rfl, rfl⟩
  exact absurd third (by decide)

end AesOnGpu.Ptx.VectorOperands
