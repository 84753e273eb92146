import AesOnGpu.Lib.FinLiterals
import AesOnGpu.Lib.GreedyMatching
import AesOnGpu.Lib.Grouping

/-! # Arbitration for the register banks

`opndcoll_rfu_t::arbiter_t`: each register bank has a queue of reads and serves one of them in
a cycle, and each collector unit takes one operand in a cycle.  `allocate_reads` goes along the
diagonals of the matrix of requests.

`none` is a failed assertion, or the front of an empty queue.
-/

namespace AesOnGpu.OperandCollector

/-- `alloc_t`. -/
inductive Alloc where
  | NO_ALLOC
  | READ_ALLOC
  | WRITE_ALLOC
  deriving DecidableEq

/-- `op_t` of a read, with the id of its collector unit. -/
structure Op where
  oc_id : Nat
  m_operand : Nat
  m_register : Nat
  m_bank : Nat
  deriving DecidableEq

/-- `arbiter_t` after `init`, which numbers the collector units from 0. -/
structure Arbiter where
  m_num_banks : Nat
  m_num_collectors : Nat
  m_queue : Nat → List Op
  m_allocated_bank : Nat → Alloc
  m_last_cu : Nat
  banks_pos : 0 < m_num_banks
  collectors_pos : 0 < m_num_collectors
  oc_id_lt : ∀ i, ∀ op ∈ m_queue i, op.oc_id < m_num_collectors
  last_cu_lt : m_last_cu < max m_num_banks m_num_collectors

namespace Arbiter

variable (a : Arbiter)

def square : Nat := max a.m_num_banks a.m_num_collectors

/-- `_request`. -/
def request (i j : Nat) : Bool := (a.m_queue i).head?.map Op.oc_id == some j

def requests_in_range : Bool :=
  (List.range a.m_num_banks).all fun i => (a.m_queue i).head?.all (·.oc_id < a.m_num_collectors)

/-- `_inmatch` and `_outmatch` before the first diagonal; a write gets priority. -/
def cleared : Matching Nat Nat where
  row i := if a.m_allocated_bank i = .WRITE_ALLOC then some 0 else none
  column _ := none

def diagonalTurn (state : Matching Nat Nat × Nat) (input : Nat) : Option (Matching Nat Nat × Nat) :=
  let output := state.2
  if output < a.m_num_collectors then
    some (state.1.turn a.request (input, output), (output + 1) % a.square)
  else none

def diagonal (m : Matching Nat Nat) (p : Nat) : Option (Matching Nat Nat) := do
  let (m, _) ← (List.range a.m_num_banks).foldlM a.diagonalTurn (m, (a.m_last_cu + p) % a.square)
  return m

/-- The loop through the diagonals of the request matrix. -/
def wavefront : Option (Matching Nat Nat) :=
  (List.range a.square).foldlM a.diagonal a.cleared

def granted (m : Matching Nat Nat) (i : Nat) : Bool :=
  (m.row i).isSome && a.m_allocated_bank i != .WRITE_ALLOC

def popped (m : Matching Nat Nat) : Arbiter where
  m_num_banks := a.m_num_banks
  m_num_collectors := a.m_num_collectors
  m_queue i :=
    if i < a.m_num_banks ∧ a.granted m i = true then (a.m_queue i).tail else a.m_queue i
  m_allocated_bank := a.m_allocated_bank
  m_last_cu := (a.m_last_cu + 1) % a.square
  banks_pos := a.banks_pos
  collectors_pos := a.collectors_pos
  oc_id_lt := by
    intro i op hop
    split at hop
    next => exact a.oc_id_lt i op (List.mem_of_mem_tail hop)
    next => exact a.oc_id_lt i op hop
  last_cu_lt := Nat.mod_lt _ (lt_max_of_lt_left a.banks_pos)

@[simp] theorem popped_queue (m : Matching Nat Nat) (i : Nat) : (a.popped m).m_queue i =
    if i < a.m_num_banks ∧ a.granted m i = true then (a.m_queue i).tail else a.m_queue i := rfl

def allocate_reads : Option (List Op × Arbiter) := do
  if a.requests_in_range then
    let m ← a.wavefront
    let result ← ((List.range a.m_num_banks).filter (a.granted m)).mapM fun i =>
      (a.m_queue i).head?
    return (result, a.popped m)
  else none

/-! ## What arbitration is for -/

/-- The reads at the head of the banks in `banks` are served. -/
structure Serves (banks : Finset Nat) (result : List Op) (a' : Arbiter) : Prop where
  in_range : ∀ i ∈ banks, i < a.m_num_banks
  result_eq : (((List.range a.m_num_banks).filter (· ∈ banks)).map fun i => (a.m_queue i).head?) =
    result.map some
  heads : ∀ i ∈ banks, ∃ op, a.m_queue i = op :: a'.m_queue i
  others : ∀ i ∉ banks, a'.m_queue i = a.m_queue i
  sizes_eq : a'.m_num_banks = a.m_num_banks ∧ a'.m_num_collectors = a.m_num_collectors
  allocated_eq : a'.m_allocated_bank = a.m_allocated_bank

/-- No bank that is written to is served, no collector unit is served twice, and no further
bank could be served. -/
structure MaximalSafe (banks : Finset Nat) : Prop where
  not_write : ∀ i ∈ banks, a.m_allocated_bank i ≠ .WRITE_ALLOC
  one_per_collector : ∀ i ∈ banks, ∀ i' ∈ banks,
    (a.m_queue i).head?.map Op.oc_id = (a.m_queue i').head?.map Op.oc_id → i = i'
  maximal : ∀ i < a.m_num_banks, a.m_allocated_bank i ≠ .WRITE_ALLOC → i ∉ banks →
    ∀ op, (a.m_queue i).head? = some op →
      ∃ i' ∈ banks, (a.m_queue i').head?.map Op.oc_id = some op.oc_id

/-! ## The diagonals -/

theorem square_pos : 0 < a.square := lt_max_of_lt_left a.banks_pos

theorem exists_shift {n : Nat} (start : Nat) {j : Nat} (hj : j < n) :
    ∃ i < n, (start + i) % n = j := by
  have hpos : 0 < n := Nat.zero_lt_of_lt hj
  refine ⟨(j + (n - start % n)) % n, Nat.mod_lt _ hpos, ?_⟩
  have hmod := Nat.mod_lt start hpos
  have hsplit : start + (j + (n - start % n)) = n * (start / n + 1) + j := by
    have hdiv := Nat.div_add_mod start n
    rw [Nat.mul_succ]
    omega
  rw [Nat.add_mod_mod, hsplit, Nat.mul_add_mod, Nat.mod_eq_of_lt hj]

theorem diagonalTurns (start : Nat) (m : Matching Nat Nat) {n : Nat}
    (hinside : ∀ i < n, (start + i) % a.square < a.m_num_collectors) :
    (List.range n).foldlM a.diagonalTurn (m, start % a.square) =
      some (((List.range n).map fun i => (i, (start + i) % a.square)).foldl
        (Matching.turn a.request) m, (start + n) % a.square) := by
  induction n with
  | zero => rfl
  | succ n ih =>
      have hlast := hinside n (Nat.lt_succ_self n)
      have hbefore := ih fun i hi => hinside i (Nat.lt_succ_of_lt hi)
      rw [List.range_succ, List.foldlM_append, hbefore]
      simp only [Option.bind_eq_bind, Option.bind_some, List.foldlM_cons, List.foldlM_nil,
        diagonalTurn, if_pos hlast, List.map_append, List.foldl_append, List.map_cons, List.map_nil,
        List.foldl_cons, List.foldl_nil, Option.pure_def, Nat.mod_add_mod, Nat.add_assoc]

theorem diagonalTurns_inside {start : Nat} {m : Matching Nat Nat} {n : Nat}
    {last : Matching Nat Nat × Nat}
    (hrun : (List.range n).foldlM a.diagonalTurn (m, start % a.square) = some last) :
    last.2 = (start + n) % a.square ∧
      ∀ i < n, (start + i) % a.square < a.m_num_collectors := by
  induction n generalizing last with
  | zero =>
      obtain rfl := Option.some.inj hrun
      exact ⟨rfl, fun i hi => absurd hi (Nat.not_lt_zero i)⟩
  | succ n ih =>
      rw [List.range_succ, List.foldlM_append] at hrun
      obtain ⟨before, hbefore, hturn⟩ := Option.bind_eq_some_iff.mp hrun
      obtain ⟨houtput, hinside⟩ := ih hbefore
      simp only [List.foldlM_cons, List.foldlM_nil, Option.bind_eq_bind, Option.pure_def,
        Option.bind_fun_some, diagonalTurn] at hturn
      split at hturn
      next hlt =>
        obtain rfl := Option.some.inj hturn
        rw [houtput] at hlt
        refine ⟨?_, fun i hi => ?_⟩
        · rw [houtput, Nat.mod_add_mod, Nat.add_assoc]
        · cases Nat.lt_succ_iff_lt_or_eq.mp hi with
          | inl hearlier => exact hinside i hearlier
          | inr hhere => exact hhere ▸ hlt
      next => cases hturn

/-- The pairs in the order in which the diagonals are gone through. -/
def pairs : List (Nat × Nat) :=
  (List.range a.square).flatMap fun p =>
    (List.range a.m_num_banks).map fun i => (i, (a.m_last_cu + p + i) % a.square)

theorem mem_pairs {i j : Nat} (hi : i < a.m_num_banks) (hj : j < a.square) : (i, j) ∈ a.pairs := by
  obtain ⟨p, hp, houtput⟩ := exists_shift (a.m_last_cu + i) hj
  rw [pairs, List.mem_flatMap]
  refine ⟨p, List.mem_range.mpr hp, List.mem_map.mpr ⟨i, List.mem_range.mpr hi, ?_⟩⟩
  rw [← houtput, Nat.add_right_comm]

variable {a}

theorem wavefront_eq (hsizes : a.m_num_banks ≤ a.m_num_collectors) :
    a.wavefront = some (a.pairs.foldl (Matching.turn a.request) a.cleared) := by
  have hsquare : a.square = a.m_num_collectors := max_eq_right hsizes
  have hdiagonal : ∀ m p, a.diagonal m p = some (((List.range a.m_num_banks).map fun i =>
      (i, (a.m_last_cu + p + i) % a.square)).foldl (Matching.turn a.request) m) := by
    intro m p
    have hturns := a.diagonalTurns (a.m_last_cu + p) (n := a.m_num_banks) m
      (fun i _ => hsquare ▸ Nat.mod_lt _ a.square_pos)
    rw [diagonal, hturns]
    rfl
  rw [wavefront, List.foldlM_eq_some fun p _ m => hdiagonal m p, pairs, List.foldl_flatMap]

theorem wavefront_none (hsizes : a.m_num_collectors < a.m_num_banks) : a.wavefront = none := by
  cases hrun : a.wavefront with
  | none => rfl
  | some last =>
      have hsquare : a.square = a.m_num_banks := max_eq_left (Nat.le_of_lt hsizes)
      obtain ⟨m, m', hfirst⟩ := List.foldlM_each hrun 0 (List.mem_range.mpr a.square_pos)
      obtain ⟨state, hturns, _⟩ := Option.bind_eq_some_iff.mp hfirst
      obtain ⟨_, hinside⟩ := a.diagonalTurns_inside hturns
      obtain ⟨i, hi, houtput⟩ := exists_shift (n := a.m_num_banks) (a.m_last_cu + 0) hsizes
      have hlt := hinside i hi
      rw [hsquare, houtput] at hlt
      exact absurd hlt (Nat.lt_irrefl _)

/-! ## The matching -/

theorem requests_in_range_eq (a : Arbiter) : a.requests_in_range = true := by
  rw [requests_in_range, List.all_eq_true]
  intro i _
  cases hhead : (a.m_queue i).head? with
  | none => rfl
  | some op => simpa using a.oc_id_lt i op (List.mem_of_mem_head? hhead)

def matched (a : Arbiter) : Matching Nat Nat :=
  a.pairs.foldl (Matching.turn a.request) a.cleared

theorem matched_extends (a : Arbiter) : Matching.Extends a.request a.cleared a.matched :=
  Matching.extends_foldl a.pairs

theorem granted_spec {i : Nat} (hgranted : a.granted a.matched i = true) :
    a.m_allocated_bank i ≠ .WRITE_ALLOC ∧
      ∃ op, (a.m_queue i).head? = some op ∧ a.matched.column op.oc_id = some i := by
  rw [granted, Bool.and_eq_true, Option.isSome_iff_exists] at hgranted
  obtain ⟨⟨j, hj⟩, hwrite⟩ := hgranted
  have hnot : a.m_allocated_bank i ≠ .WRITE_ALLOC := by simpa using hwrite
  obtain ⟨hrequest, _, hcolumn⟩ := a.matched_extends.granted (i := i) (if_neg hnot) hj
  rw [request, beq_iff_eq, Option.map_eq_some_iff] at hrequest
  obtain ⟨op, hop, rfl⟩ := hrequest
  exact ⟨hnot, op, hop, hcolumn⟩

theorem granted_of_column {i j : Nat} (hcolumn : a.matched.column j = some i) :
    a.granted a.matched i = true ∧ a.request i j = true := by
  obtain ⟨hfree, hrow⟩ := a.matched_extends.matched (i := i) (j := j) rfl hcolumn
  have hnot : a.m_allocated_bank i ≠ .WRITE_ALLOC := by
    intro hwrite
    simp [cleared, hwrite] at hfree
  refine ⟨?_, (a.matched_extends.granted hfree hrow).1⟩
  rw [granted, hrow]
  simpa using hnot

def served (a : Arbiter) : Finset Nat :=
  (Finset.range a.m_num_banks).filter fun i => a.granted a.matched i = true

theorem mem_served {i : Nat} :
    i ∈ a.served ↔ i < a.m_num_banks ∧ a.granted a.matched i = true := by
  rw [served, Finset.mem_filter, Finset.mem_range]

theorem first_diagonal_served {i : Nat} {op : Op}
    (hi : i < a.m_num_banks) (hop : (a.m_queue i).head? = some op)
    (hnot : a.m_allocated_bank i ≠ .WRITE_ALLOC)
    (hdiagonal : (a.m_last_cu + i) % a.square = op.oc_id) : i ∈ a.served := by
  have hle : a.m_num_banks ≤ a.square := le_max_left _ _
  obtain ⟨last, hlast⟩ := Nat.exists_eq_succ_of_ne_zero a.square_pos.ne'
  have hpairs : a.pairs = ((List.range a.m_num_banks).map fun k =>
      (k, (a.m_last_cu + k) % a.square)) ++ ((List.range last).map Nat.succ).flatMap fun p =>
        (List.range a.m_num_banks).map fun k => (k, (a.m_last_cu + p + k) % a.square) := by
    rw [pairs, hlast, List.range_succ_eq_map, List.flatMap_cons, Nat.add_zero]
  have hrow : a.matched.row i = some op.oc_id := by
    rw [matched, hpairs]
    show Matching.row _ (i, op.oc_id).1 = some (i, op.oc_id).2
    refine Matching.foldl_grants ?_ (if_neg hnot) rfl ?_ ?_
    · exact List.mem_map.mpr ⟨i, List.mem_range.mpr hi, by rw [hdiagonal]⟩
    · simp [request, hop]
    · rintro other hother hne
      obtain ⟨k, hk, rfl⟩ := List.mem_map.mp hother
      rw [List.mem_range] at hk
      have hki : k ≠ i := by
        rintro rfl
        exact hne (by rw [hdiagonal])
      refine ⟨hki, fun hsame => hki ?_⟩
      have hmod : (a.m_last_cu + k) % a.square = (a.m_last_cu + i) % a.square :=
        hsame.trans hdiagonal.symm
      have hkmod : k ≡ i [MOD a.square] := Nat.ModEq.add_left_cancel' a.m_last_cu hmod
      exact hkmod.eq_of_lt_of_lt (hk.trans_le hle) (hi.trans_le hle)
  rw [mem_served]
  exact ⟨hi, by simp [granted, hrow, hnot]⟩

theorem row_lt {i j : Nat} (hcolumn : a.matched.column j = some i) : i < a.m_num_banks := by
  have hmem := Matching.mem_of_foldl_column (m := a.cleared) rfl hcolumn
  rw [pairs, List.mem_flatMap] at hmem
  obtain ⟨p, _, hdiagonal⟩ := hmem
  obtain ⟨_, hi, hpair⟩ := List.mem_map.mp hdiagonal
  cases hpair
  exact List.mem_range.mp hi

theorem maximalSafe_served (hsizes : a.m_num_banks ≤ a.m_num_collectors) : a.MaximalSafe a.served := by
  have hsquare : a.square = a.m_num_collectors := max_eq_right hsizes
  constructor
  case not_write => exact fun i hi => (granted_spec (mem_served.mp hi).2).1
  case one_per_collector =>
    intro i hi i' hi' hsame
    obtain ⟨_, op, hop, hcolumn⟩ := granted_spec (mem_served.mp hi).2
    obtain ⟨_, op', hop', hcolumn'⟩ := granted_spec (mem_served.mp hi').2
    have hid : op.oc_id = op'.oc_id := by
      rw [hop, hop'] at hsame
      exact Option.some.inj hsame
    rw [hid, hcolumn'] at hcolumn
    exact (Option.some.inj hcolumn).symm
  case maximal =>
    intro i hi hwrite hnot op hop
    have hlt : op.oc_id < a.square := by
      rw [hsquare]
      exact a.oc_id_lt i op (List.mem_of_mem_head? hop)
    have hrequest : a.request i op.oc_id = true := by
      simp [request, hop]
    cases Matching.foldl_maximal (m := a.cleared) (a.mem_pairs hi hlt) hrequest with
    | inl hrow =>
        have hgranted : a.granted a.matched i = true := by
          have hmatched : (a.matched.row i).isSome := Option.isSome_iff_ne_none.mpr hrow
          simpa [granted, hmatched] using hwrite
        exact absurd (mem_served.mpr ⟨hi, hgranted⟩) hnot
    | inr hcolumn =>
        obtain ⟨i', hi'⟩ := Option.ne_none_iff_exists'.mp hcolumn
        obtain ⟨hgranted, hsame⟩ := granted_of_column hi'
        exact ⟨i', mem_served.mpr ⟨row_lt hi', hgranted⟩, beq_iff_eq.mp hsame⟩

theorem mapM_heads {l : List Nat} (hheads : ∀ i ∈ l, ∃ op, (a.m_queue i).head? = some op) :
    ∃ result, (l.mapM fun i => (a.m_queue i).head?) = some result ∧
      (l.map fun i => (a.m_queue i).head?) = result.map some := by
  induction l with
  | nil => exact ⟨[], rfl, rfl⟩
  | cons i l ih =>
      obtain ⟨op, hop⟩ := hheads i List.mem_cons_self
      obtain ⟨result, hmapM, hmap⟩ := ih fun k hk => hheads k (List.mem_cons_of_mem i hk)
      exact ⟨op :: result, by simp [List.mapM_cons, hop, hmapM], by simp [hop, hmap]⟩

theorem filter_granted_eq (a : Arbiter) :
    (List.range a.m_num_banks).filter (a.granted a.matched) =
      (List.range a.m_num_banks).filter (· ∈ a.served) := by
  apply List.filter_congr
  intro i hi
  simp [mem_served, List.mem_range.mp hi]

theorem allocate_reads_eq (hsizes : a.m_num_banks ≤ a.m_num_collectors) :
    ∃ result, a.allocate_reads = some (result, a.popped a.matched) ∧
      a.Serves a.served result (a.popped a.matched) := by
  have hheads : ∀ i ∈ (List.range a.m_num_banks).filter (a.granted a.matched),
      ∃ op, (a.m_queue i).head? = some op := by
    intro i hi
    obtain ⟨_, op, hop, _⟩ := granted_spec (List.mem_filter.mp hi).2
    exact ⟨op, hop⟩
  obtain ⟨result, hmapM, hmap⟩ := mapM_heads hheads
  refine ⟨result, ?_, ?_⟩
  · have hwave : a.wavefront = some a.matched := wavefront_eq hsizes
    simp [allocate_reads, a.requests_in_range_eq, hwave, hmapM]
  · constructor
    case in_range => exact fun i hi => (mem_served.mp hi).1
    case result_eq => rw [← filter_granted_eq, hmap]
    case heads =>
      intro i hi
      obtain ⟨_, op, hop, _⟩ := granted_spec (mem_served.mp hi).2
      refine ⟨op, ?_⟩
      rw [popped_queue, if_pos (mem_served.mp hi)]
      exact (List.cons_head?_tail hop).symm
    case others =>
      intro i hi
      rw [popped_queue, if_neg fun hgranted => hi (mem_served.mpr hgranted)]
    case sizes_eq => exact ⟨rfl, rfl⟩
    case allocated_eq => rfl

/-- Arbitration serves a maximal safe set of reads, unless there are more banks than collector
units: then it fails its assertion about the output. -/
theorem allocate_reads_maximal_safe_iff (a : Arbiter) :
    (∃ banks result a', a.allocate_reads = some (result, a') ∧ a.Serves banks result a' ∧
      a.MaximalSafe banks) ↔ a.m_num_banks ≤ a.m_num_collectors := by
  constructor
  · rintro ⟨_, _, _, hrun, _, _⟩
    by_contra hsizes
    rw [allocate_reads, wavefront_none (Nat.lt_of_not_le hsizes)] at hrun
    simp at hrun
  · intro hsizes
    obtain ⟨result, hrun, hserves⟩ := allocate_reads_eq hsizes
    exact ⟨a.served, result, _, hrun, hserves, maximalSafe_served hsizes⟩

def twoBanksOneCollector : Arbiter where
  m_num_banks := 2
  m_num_collectors := 1
  m_queue _ := []
  m_allocated_bank _ := .NO_ALLOC
  m_last_cu := 0
  banks_pos := Nat.two_pos
  collectors_pos := Nat.one_pos
  oc_id_lt := by simp
  last_cu_lt := by decide

theorem more_banks_than_collectors :
    ¬ ∃ banks result a', twoBanksOneCollector.allocate_reads = some (result, a') ∧
      twoBanksOneCollector.Serves banks result a' ∧ twoBanksOneCollector.MaximalSafe banks := by
  rintro ⟨_, _, _, hrun, _, _⟩
  have hnone : twoBanksOneCollector.allocate_reads = none := by decide +kernel
  rw [hnone] at hrun
  cases hrun

end Arbiter

end AesOnGpu.OperandCollector
