import AesOnGpu.Execution.RegisterSet
import AesOnGpu.OperandCollector.Writeback

/-! # Operand collectors

`opndcoll_rfu_t::step`: an instruction waits in a collector unit until all of its source operands
have been read from the register banks, and then goes on to the pipeline.  `Inv` says which reads
are in the queues of the banks; dispatching an instruction and reading operands keep it.

`none` is a failed assertion.
-/

namespace AesOnGpu.OperandCollector

open Execution (RegisterSet)

/-- The fields of a `warp_inst_t` that a collector unit reads; a source below 0 is none. -/
structure Operands where
  warp_id : Nat
  src : Nat → Int

structure CollectorUnit where
  m_free : Bool
  m_warp_id : Nat
  m_warp : Execution.Reg
  m_output_register : Option Nat
  m_src_op : Nat → Option Op
  m_not_ready : Finset Nat

/-- The constructor. -/
def CollectorUnit.new : CollectorUnit := ⟨true, 2 ^ 32 - 1, none, none, fun _ => none, ∅⟩

/-- `dispatch_unit_t` of a set of collector units, with their number when it was made. -/
structure DispatchUnit where
  cu_set : Nat
  m_num_collectors : Nat
  m_last_cu : Nat

/-- The collector units after `m_last_cu`, around to it. -/
def DispatchUnit.candidates (du : DispatchUnit) : List Nat :=
  (List.range du.m_num_collectors).map fun n => (du.m_last_cu + n + 1) % du.m_num_collectors

def DispatchUnit.find_ready (du : DispatchUnit) (ready : Nat → Bool) : Option Nat :=
  du.candidates.find? ready

/-- `input_port_t`, whose constructor asserts that each of `m_in` has one of `m_out`. -/
structure InputPort where
  registers : List (Nat × Nat)
  m_cu_sets : List Nat

/-- What `add_cu_set`, `add_port` and `init` set up.  Register sets are numbered by their stage, and
    `m_cu` has the collector units of all sets. -/
structure Layout where
  m_cus : Nat → List Nat
  m_cu_size : Nat
  m_dispatch_units : List DispatchUnit
  m_in_ports : List InputPort
  m_bank_warp_shift : Nat
  cuid_lt : ∀ set, ∀ c ∈ m_cus set, c < m_cu_size
  collectors_le : ∀ du ∈ m_dispatch_units, du.m_num_collectors ≤ (m_cus du.cu_set).length

def Layout.empty (bank_warp_shift : Nat) : Layout :=
  ⟨fun _ => [], 0, [], [], bank_warp_shift, by simp, by simp⟩

def Layout.add_cu_set (layout : Layout) (set_id num_cu num_dispatch : Nat) : Layout where
  m_cus := Function.update layout.m_cus set_id
    (layout.m_cus set_id ++ List.range' layout.m_cu_size num_cu)
  m_cu_size := layout.m_cu_size + num_cu
  m_dispatch_units := layout.m_dispatch_units ++
    List.replicate num_dispatch ⟨set_id, (layout.m_cus set_id).length + num_cu, 0⟩
  m_in_ports := layout.m_in_ports
  m_bank_warp_shift := layout.m_bank_warp_shift
  cuid_lt := by
    intro set c inside
    by_cases own : set = set_id
    · subst own
      rw [Function.update_self, List.mem_append, List.mem_range'_1] at inside
      rcases inside with older | new
      · exact Nat.lt_add_right num_cu (layout.cuid_lt set c older)
      · exact new.2
    · rw [Function.update_of_ne own] at inside
      exact Nat.lt_add_right num_cu (layout.cuid_lt set c inside)
  collectors_le := by
    intro du inside
    rcases List.mem_append.mp inside with older | new
    · have before := layout.collectors_le du older
      by_cases own : du.cu_set = set_id
      · rw [own, Function.update_self, List.length_append]
        rw [own] at before
        omega
      · rwa [Function.update_of_ne own]
    · obtain rfl := List.eq_of_mem_replicate new
      simp

def Layout.add_port (layout : Layout) (registers : List (Nat × Nat)) (cu_sets : List Nat) :
    Layout :=
  { layout with m_in_ports := layout.m_in_ports ++ [⟨registers, cu_sets⟩] }

structure Read where
  operand : Nat
  reg : Nat
  wid : Nat
  deriving DecidableEq

/-- An instruction with the register set that it goes to. -/
abbrev Bound := Execution.WarpInst × Nat

/-- `opndcoll_rfu_t` with the pipeline registers at its ports.  The last four fields tell what has
    been done: what came in and from where, what left after which reads, what has been read for the
    instruction in a collector unit, and what a bank has been read for. -/
structure OpndcollRfu where
  m_cu : Nat → CollectorUnit
  m_arbiter : Arbiter
  m_dispatch_units : List DispatchUnit
  m_pipeline_reg : Nat → RegisterSet
  entered : List (Nat × Bound)
  left : List (Bound × List Read)
  reads : Nat → List Read
  readFrom : Nat → List Op

namespace Arbiter

variable (a : Arbiter)

/-- A turn of `add_read_requests`. -/
def queueRead (op : Op) : Option Arbiter :=
  if inside : op.oc_id < a.m_num_collectors then
    some { a with
      m_queue := Function.update a.m_queue op.m_bank (a.m_queue op.m_bank ++ [op])
      oc_id_lt := by
        intro i other queued
        by_cases own : i = op.m_bank
        · subst own
          rw [Function.update_self, List.mem_append, List.mem_singleton] at queued
          rcases queued with older | rfl
          · exact a.oc_id_lt _ other older
          · exact inside
        · rw [Function.update_of_ne own] at queued
          exact a.oc_id_lt i other queued }
  else none

def allocate_for_read (bank : Nat) : Option Arbiter :=
  if bank < a.m_num_banks ∧ a.bank_idle bank = true then
    some { a with m_allocated_bank := Function.update a.m_allocated_bank bank .READ_ALLOC }
  else none

def reset_alloction : Arbiter :=
  { a with m_allocated_bank := fun b =>
      if b < a.m_num_banks then .NO_ALLOC else a.m_allocated_bank b }

end Arbiter

namespace OpndcollRfu

variable (layout : Layout) (operands : Execution.WarpInst → Operands)

/-! ## Dispatching -/

/-- `collector_unit_t::ready` -/
def ready (rfu : OpndcollRfu) (c : Nat) : Bool :=
  let cu := rfu.m_cu c
  !cu.m_free && cu.m_not_ready = ∅ &&
    cu.m_output_register.any fun out => (rfu.m_pipeline_reg out).has_free

/-- `collector_unit_t::dispatch` -/
def dispatch (rfu : OpndcollRfu) (c : Nat) : Option OpndcollRfu :=
  let cu := rfu.m_cu c
  if cu.m_not_ready ≠ ∅ then none
  else do
    let out ← cu.m_output_register
    let (regs, warp) ← (rfu.m_pipeline_reg out).move_in cu.m_warp
    return { rfu with
      m_pipeline_reg := Function.update rfu.m_pipeline_reg out regs
      m_cu := Function.update rfu.m_cu c { cu with
        m_free := true
        m_warp := warp
        m_output_register := none
        m_src_op := fun i => if i < MAX_REG_OPERANDS * 2 then none else cu.m_src_op i }
      left := rfu.left ++ cu.m_warp.toList.map fun inst => ((inst, out), rfu.reads c) }

def dispatchTurn (rfu : OpndcollRfu) (p : Nat) : Option OpndcollRfu := do
  let du ← rfu.m_dispatch_units[p]?
  let cus := layout.m_cus du.cu_set
  match du.find_ready fun c => cus[c]?.any rfu.ready with
  | none => some rfu
  | some c => do
    let cu ← cus[c]?
    dispatch { rfu with m_dispatch_units := rfu.m_dispatch_units.set p { du with m_last_cu := c } }
      cu

def dispatch_ready_cu (rfu : OpndcollRfu) : Option OpndcollRfu :=
  (List.range rfu.m_dispatch_units.length).foldlM (dispatchTurn layout) rfu

/-! ## Reading -/

def allocTurn (m_cu : Nat → CollectorUnit) (state : Arbiter × (Nat → Option Op)) (rr : Op) :
    Option (Arbiter × (Nat → Option Op)) := do
  let bank := register_bank rr.m_register (m_cu rr.oc_id).m_warp_id state.1.m_num_banks
    layout.m_bank_warp_shift
  let a ← state.1.allocate_for_read bank
  return (a, Function.update state.2 bank (some rr))

/-- `collect_operand` for the read of a bank. -/
def collect (rfu : OpndcollRfu) (op : Op) : OpndcollRfu :=
  let cu := rfu.m_cu op.oc_id
  { rfu with
    m_cu := Function.update rfu.m_cu op.oc_id
      { cu with m_not_ready := cu.m_not_ready.erase op.m_operand }
    reads := Function.update rfu.reads op.oc_id
      (rfu.reads op.oc_id ++ [⟨op.m_operand, op.m_register, cu.m_warp_id⟩])
    readFrom := Function.update rfu.readFrom op.m_bank (rfu.readFrom op.m_bank ++ [op]) }

/-- `read_ops` is gone through in the order of the banks. -/
def allocate_reads (rfu : OpndcollRfu) : Option OpndcollRfu := do
  let (allocated, a) ← rfu.m_arbiter.allocate_reads
  let (a, read_ops) ← allocated.foldlM (allocTurn layout rfu.m_cu) (a, fun _ => none)
  return ((List.range a.m_num_banks).filterMap read_ops).foldl collect { rfu with m_arbiter := a }

/-! ## Filling the collector units -/

/-- The operand `i` of an instruction in the collector unit `c`. -/
def srcOp (num_banks : Nat) (c : Nat) (inst : Execution.WarpInst) (i : Nat) : Option Op :=
  if i < MAX_REG_OPERANDS ∧ 0 ≤ (operands inst).src i then
    let reg := ((operands inst).src i).toNat
    some ⟨c, i, reg,
      register_bank reg (operands inst).warp_id num_banks layout.m_bank_warp_shift⟩
  else none

/-- `collector_unit_t::allocate` from the register set `input`. -/
def allocate (rfu : OpndcollRfu) (c input output : Nat) : Option (Bool × OpndcollRfu) :=
  let cu := rfu.m_cu c
  if cu.m_free = false ∨ cu.m_not_ready ≠ ∅ then none
  else
    let cu := { cu with m_free := false, m_output_register := some output }
    match (rfu.m_pipeline_reg input).get_ready with
    | none => some (false, { rfu with m_cu := Function.update rfu.m_cu c cu })
    | some (_, inst) => do
      let srcOps := srcOp layout operands rfu.m_arbiter.m_num_banks c inst
      let (regs, warp) ← (rfu.m_pipeline_reg input).move_out_to cu.m_warp
      return (true, { rfu with
        m_pipeline_reg := Function.update rfu.m_pipeline_reg input regs
        m_cu := Function.update rfu.m_cu c { cu with
          m_warp_id := (operands inst).warp_id
          m_warp := warp
          m_src_op := fun i => if i < MAX_REG_OPERANDS then srcOps i else cu.m_src_op i
          m_not_ready := cu.m_not_ready ∪
            (Finset.range MAX_REG_OPERANDS).filter fun i => (srcOps i).isSome }
        entered := rfu.entered ++ [(input, inst, output)]
        reads := Function.update rfu.reads c [] })

/-- `arbiter_t::add_read_requests` -/
def add_read_requests (a : Arbiter) (cu : CollectorUnit) : Option Arbiter :=
  ((List.range (MAX_REG_OPERANDS * 2)).filterMap cu.m_src_op).foldlM Arbiter.queueRead a

/-- The loop through the sets of a port, to the first collector unit that is free. -/
def findFree (rfu : OpndcollRfu) (input output : Nat) : List Nat → Option OpndcollRfu
  | [] => some rfu
  | set :: sets =>
    match (layout.m_cus set).find? fun c => (rfu.m_cu c).m_free with
    | none => findFree rfu input output sets
    | some c => do
      let (allocated, rfu) ← allocate layout operands rfu c input output
      let a ← add_read_requests rfu.m_arbiter (rfu.m_cu c)
      if allocated then return { rfu with m_arbiter := a }
      else findFree { rfu with m_arbiter := a } input output sets

def allocate_cu (rfu : OpndcollRfu) (inp : InputPort) : Option OpndcollRfu :=
  match inp.registers.find? fun (input, _) => (rfu.m_pipeline_reg input).has_ready with
  | none => some rfu
  | some (input, output) => findFree layout operands rfu input output inp.m_cu_sets

def process_banks (rfu : OpndcollRfu) : OpndcollRfu :=
  { rfu with m_arbiter := rfu.m_arbiter.reset_alloction }

def step (rfu : OpndcollRfu) : Option OpndcollRfu := do
  let rfu ← dispatch_ready_cu layout rfu
  let rfu ← allocate_reads layout rfu
  let rfu ← layout.m_in_ports.foldlM (allocate_cu layout operands) rfu
  return process_banks rfu

/-! ## Runs -/

/-- After `init`, which asserts that there are collector units and banks. -/
def init (layout : Layout) (num_banks : Nat) (banks : 0 < num_banks)
    (collectors : 0 < layout.m_cu_size) : OpndcollRfu where
  m_cu _ := .new
  m_arbiter :=
    { m_num_banks := num_banks
      m_num_collectors := layout.m_cu_size
      m_queue := fun _ => []
      m_allocated_bank := fun _ => .NO_ALLOC
      m_last_cu := 0
      banks_pos := banks
      collectors_pos := collectors
      oc_id_lt := by simp
      last_cu_lt := lt_max_of_lt_left banks }
  m_dispatch_units := layout.m_dispatch_units
  m_pipeline_reg _ := []
  entered := []
  left := []
  reads _ := []
  readFrom _ := []

/-- What the other stages leave behind before a step: the instructions in the pipeline registers,
    and the banks that are taken for writes. -/
structure Between where
  m_pipeline_reg : Nat → RegisterSet
  m_allocated_bank : Nat → Alloc
  no_read : ∀ b, m_allocated_bank b ≠ .READ_ALLOC

def between (rfu : OpndcollRfu) (others : Between) : OpndcollRfu :=
  { rfu with
    m_pipeline_reg := others.m_pipeline_reg
    m_arbiter := { rfu.m_arbiter with m_allocated_bank := others.m_allocated_bank } }

def cycle (rfu : OpndcollRfu) (others : Between) : Option OpndcollRfu :=
  step layout operands (rfu.between others)

/-! ## The invariant -/

def sources (inst : Execution.WarpInst) : List Read :=
  (List.range MAX_REG_OPERANDS).filterMap fun i =>
    if 0 ≤ (operands inst).src i then
      some ⟨i, ((operands inst).src i).toNat, (operands inst).warp_id⟩
    else none

structure UnitInv (num_banks c : Nat) (cu : CollectorUnit) (reads : List Read) : Prop where
  free : cu.m_free = true → cu.m_not_ready = ∅ ∧ cu.m_warp = none ∧ ∀ i, cu.m_src_op i = none
  busy : cu.m_free = false → ∃ inst out, cu.m_warp = some inst ∧
    cu.m_output_register = some out ∧ cu.m_warp_id = (operands inst).warp_id ∧
    cu.m_src_op = srcOp layout operands num_banks c inst ∧
    (∀ i ∈ cu.m_not_ready, (srcOp layout operands num_banks c inst i).isSome) ∧
    reads.Perm ((sources operands inst).filter (·.operand ∉ cu.m_not_ready))

def holding (rfu : OpndcollRfu) (c : Nat) : Option Bound :=
  match (rfu.m_cu c).m_warp, (rfu.m_cu c).m_output_register with
  | some inst, some out => some (inst, out)
  | _, _ => none

def inUnits (rfu : OpndcollRfu) : List Bound := (List.range layout.m_cu_size).filterMap rfu.holding

def Pending (rfu : OpndcollRfu) (op : Op) : Prop :=
  op.m_operand ∈ (rfu.m_cu op.oc_id).m_not_ready ∧
    (rfu.m_cu op.oc_id).m_src_op op.m_operand = some op

/-- The reads in `inHand` are in no queue: they have just left one, or are about to enter one. -/
structure Inv (num_banks : Nat) (inHand : List Op) (rfu : OpndcollRfu) : Prop where
  units : ∀ c, UnitInv layout operands num_banks c (rfu.m_cu c) (rfu.reads c)
  in_range : ∀ c, (rfu.m_cu c).m_free = false → c < layout.m_cu_size
  banks : rfu.m_arbiter.m_num_banks = num_banks
  collectors : rfu.m_arbiter.m_num_collectors = layout.m_cu_size
  dispatch_units : ∀ du ∈ rfu.m_dispatch_units,
    du.m_num_collectors ≤ (layout.m_cus du.cu_set).length
  pending : ∀ op, Pending rfu op ↔ op ∈ rfu.m_arbiter.m_queue op.m_bank ∨ op ∈ inHand
  bank : ∀ b, ∀ op ∈ rfu.m_arbiter.m_queue b, op.m_bank = b
  nodup : ∀ b, (rfu.m_arbiter.m_queue b).Nodup
  inHand_nodup : inHand.Nodup
  apart : ∀ op ∈ inHand, op ∉ rfu.m_arbiter.m_queue op.m_bank
  conserved : (rfu.entered.map Prod.snd).Perm (rfu.left.map Prod.fst ++ inUnits layout rfu)
  complete : ∀ left ∈ rfu.left, left.2.Perm (sources operands left.1.1)

def Moves (rfu rfu' : OpndcollRfu) : Prop :=
  ∃ entered left, rfu'.entered = rfu.entered ++ entered ∧ rfu'.left = rfu.left ++ left ∧
    ∀ stage, ((rfu'.m_pipeline_reg stage).insts ++
        (entered.filter (·.1 = stage)).map (·.2.1)).Perm
      ((rfu.m_pipeline_reg stage).insts ++ (left.filter (·.1.2 = stage)).map (·.1.1))

variable {layout operands} {rfu rfu' rfu'' : OpndcollRfu} {num_banks : Nat} {inHand : List Op}

theorem Moves.refl (rfu : OpndcollRfu) : Moves rfu rfu :=
  ⟨[], [], by simp, by simp, fun _ => .refl _⟩

theorem Moves.trans (first : Moves rfu rfu') (second : Moves rfu' rfu'') : Moves rfu rfu'' := by
  obtain ⟨entered₁, left₁, hentered₁, hleft₁, moved₁⟩ := first
  obtain ⟨entered₂, left₂, hentered₂, hleft₂, moved₂⟩ := second
  refine ⟨entered₁ ++ entered₂, left₁ ++ left₂, ?_, ?_, fun stage => ?_⟩
  · rw [hentered₂, hentered₁, List.append_assoc]
  · rw [hleft₂, hleft₁, List.append_assoc]
  · have out₁ := Multiset.coe_eq_coe.mpr (moved₁ stage)
    have out₂ := Multiset.coe_eq_coe.mpr (moved₂ stage)
    refine Multiset.coe_eq_coe.mp ?_
    simp only [List.filter_append, List.map_append, ← Multiset.coe_add] at out₁ out₂ ⊢
    rw [add_comm (Multiset.ofList ((entered₁.filter _).map _)), ← add_assoc, out₂, add_right_comm,
      out₁, add_assoc]

theorem filterMap_perm_cons {α : Type*} {f g : Nat → Option α} {c n : Nat} {x : α} (lt : c < n)
    (here : f c = some x) (none : g c = none) (others : ∀ i ≠ c, f i = g i) :
    ((List.range n).filterMap f).Perm (x :: (List.range n).filterMap g) := by
  induction n with
  | zero => exact absurd lt (Nat.not_lt_zero c)
  | succ n ih =>
    rw [List.range_succ, List.filterMap_append, List.filterMap_append]
    rcases Nat.lt_succ_iff_lt_or_eq.mp lt with below | rfl
    · have last : f n = g n := others n (Nat.ne_of_gt below)
      simp only [List.filterMap_cons, last]
      exact (ih below).append_right _
    · have before : (List.range c).filterMap f = (List.range c).filterMap g :=
        List.filterMap_congr fun i inside => others i (Nat.ne_of_lt (List.mem_range.mp inside))
      simp only [List.filterMap_cons, List.filterMap_nil, here, none, before, List.append_nil]
      exact List.perm_append_singleton x _

theorem inUnits_perm (rfu rfu' : OpndcollRfu) {c : Nat} (bound : Bound)
    (lt : c < layout.m_cu_size)
    (here : rfu.holding c = some bound) (none : rfu'.holding c = none)
    (others : ∀ i ≠ c, rfu'.m_cu i = rfu.m_cu i) :
    (inUnits layout rfu).Perm (bound :: inUnits layout rfu') :=
  filterMap_perm_cons lt here none fun i other => by rw [holding, holding, others i other]

theorem srcOp_of_le {c i : Nat} {inst : Execution.WarpInst} (le : MAX_REG_OPERANDS ≤ i) :
    srcOp layout operands num_banks c inst i = none := if_neg fun inside => by omega

/-! ## Dispatching keeps it -/

theorem Inv.dispatch (inv : Inv layout operands num_banks inHand rfu) {c : Nat}
    (ready : rfu.ready c = true) (lt : c < layout.m_cu_size) :
    ∃ rfu', rfu.dispatch c = some rfu' ∧ Inv layout operands num_banks inHand rfu' ∧
      Moves rfu rfu' ∧ rfu'.m_arbiter = rfu.m_arbiter ∧ rfu'.readFrom = rfu.readFrom ∧
      rfu'.m_dispatch_units = rfu.m_dispatch_units := by
  simp only [OpndcollRfu.ready, Bool.and_eq_true, Bool.not_eq_true', decide_eq_true_eq] at ready
  obtain ⟨⟨busy, collected⟩, free⟩ := ready
  obtain ⟨inst, out, warp, output, wid, srcOps, _, reads⟩ := (inv.units c).busy busy
  rw [output, Option.any_some] at free
  obtain ⟨regs, moved, perm⟩ := RegisterSet.move_in_of_has_free inst free
  have dispatched : rfu.dispatch c = some { rfu with
      m_pipeline_reg := Function.update rfu.m_pipeline_reg out regs
      m_cu := Function.update rfu.m_cu c { rfu.m_cu c with
        m_free := true
        m_warp := none
        m_output_register := none
        m_src_op := fun i =>
          if i < MAX_REG_OPERANDS * 2 then none else (rfu.m_cu c).m_src_op i }
      left := rfu.left ++ [((inst, out), rfu.reads c)] } := by
    rw [OpndcollRfu.dispatch, if_neg (not_not_intro collected), output, warp]
    simp only [Option.bind_eq_bind, Option.bind_some, moved]
    rfl
  have all : (rfu.reads c).Perm (sources operands inst) := by simpa [collected] using reads
  refine ⟨_, dispatched, ?_, ?_, rfl, rfl, rfl⟩
  · refine ⟨fun i => ?_, fun i busy' => ?_, inv.banks, inv.collectors, inv.dispatch_units,
      fun op => ?_, inv.bank, inv.nodup, inv.inHand_nodup, inv.apart, ?_, ?_⟩
    · by_cases own : i = c
      · subst own
        simp only [Function.update_self]
        refine ⟨fun _ => ⟨collected, rfl, fun j => ?_⟩, nofun⟩
        simp only [srcOps]
        split
        · rfl
        · exact srcOp_of_le (by omega)
      · simp only [Function.update_of_ne own]
        exact inv.units i
    · by_cases own : i = c
      · exact own ▸ lt
      · simp only [Function.update_of_ne own] at busy'
        exact inv.in_range i busy'
    · refine Iff.trans ?_ (inv.pending op)
      by_cases own : op.oc_id = c
      · simp [Pending, own, collected]
      · simp only [Pending, Function.update_of_ne own]
    · have holds : rfu.holding c = some (inst, out) := by simp only [holding, warp, output]
      have units := inUnits_perm rfu { rfu with
        m_cu := Function.update rfu.m_cu c { rfu.m_cu c with
          m_free := true
          m_warp := none
          m_output_register := none
          m_src_op := fun i =>
            if i < MAX_REG_OPERANDS * 2 then none else (rfu.m_cu c).m_src_op i } } (inst, out) lt
        holds (by simp [holding]) fun i other => Function.update_of_ne other _ _
      refine inv.conserved.trans ?_
      simp only [List.map_append, List.map_cons, List.map_nil, List.append_assoc,
        List.singleton_append]
      exact units.append_left _
    · intro entry inside
      rcases List.mem_append.mp inside with older | new
      · exact inv.complete entry older
      · obtain rfl := List.mem_singleton.mp new
        exact all
  · refine ⟨[], _, (List.append_nil _).symm, rfl, fun stage => ?_⟩
    by_cases own : stage = out
    · subst own
      simpa using perm.trans (List.perm_append_singleton inst _).symm
    · simp [Function.update_of_ne own, Ne.symm own]

theorem Inv.dispatchTurn (inv : Inv layout operands num_banks inHand rfu) {p : Nat}
    (lt : p < rfu.m_dispatch_units.length) :
    ∃ rfu', rfu.dispatchTurn layout p = some rfu' ∧
      Inv layout operands num_banks inHand rfu' ∧ Moves rfu rfu' ∧
      rfu'.m_arbiter = rfu.m_arbiter ∧ rfu'.readFrom = rfu.readFrom ∧
      rfu'.m_dispatch_units.length = rfu.m_dispatch_units.length := by
  have here := List.getElem?_eq_getElem lt
  have bound := inv.dispatch_units _ (List.getElem_mem lt)
  rw [OpndcollRfu.dispatchTurn, here]
  simp only [Option.bind_eq_bind, Option.bind_some]
  generalize rfu.m_dispatch_units[p] = du at here bound
  cases found : du.find_ready fun c => (layout.m_cus du.cu_set)[c]?.any rfu.ready with
  | none => exact ⟨rfu, rfl, inv, .refl rfu, rfl, rfl, rfl⟩
  | some c =>
    have ready := List.find?_some found
    obtain ⟨n, counted, candidate⟩ := List.mem_map.mp (List.mem_of_find?_eq_some found)
    have few : c < du.m_num_collectors :=
      candidate ▸ Nat.mod_lt _ (Nat.zero_lt_of_lt (List.mem_range.mp counted))
    have inside : c < (layout.m_cus du.cu_set).length := few.trans_le bound
    rw [List.getElem?_eq_getElem inside, Option.any_some] at ready
    have inv' : Inv layout operands num_banks inHand { rfu with
        m_dispatch_units := rfu.m_dispatch_units.set p { du with m_last_cu := c } } := by
      refine ⟨inv.units, inv.in_range, inv.banks, inv.collectors, fun du' inside' => ?_,
        inv.pending, inv.bank, inv.nodup, inv.inHand_nodup, inv.apart, inv.conserved, inv.complete⟩
      rcases List.mem_or_eq_of_mem_set inside' with older | rfl
      · exact inv.dispatch_units du' older
      · exact bound
    obtain ⟨rfu', dispatched, inv'', moves, arbiter, readFrom, units⟩ := inv'.dispatch ready
      (layout.cuid_lt du.cu_set _ (List.getElem_mem inside))
    refine ⟨rfu', ?_, inv'', moves, arbiter, readFrom, ?_⟩
    · simp only [List.getElem?_eq_getElem inside, Option.bind_some]
      exact dispatched
    · rw [units, List.length_set]

theorem Inv.dispatch_ready_cu (inv : Inv layout operands num_banks inHand rfu) :
    ∃ rfu', rfu.dispatch_ready_cu layout = some rfu' ∧
      Inv layout operands num_banks inHand rfu' ∧ Moves rfu rfu' ∧
      rfu'.m_arbiter = rfu.m_arbiter ∧ rfu'.readFrom = rfu.readFrom := by
  have kept : ∃ rfu', rfu.dispatch_ready_cu layout = some rfu' ∧
      (Inv layout operands num_banks inHand rfu' ∧ Moves rfu rfu' ∧
        rfu'.m_arbiter = rfu.m_arbiter ∧ rfu'.readFrom = rfu.readFrom ∧
        rfu'.m_dispatch_units.length = rfu.m_dispatch_units.length) := by
    refine List.foldlM_invariant (fun p inside before holds => ?_) ⟨inv, .refl rfu, rfl, rfl, rfl⟩
    obtain ⟨inv, moves, arbiter, readFrom, length⟩ := holds
    obtain ⟨after, turned, inv', moves', arbiter', readFrom', length'⟩ :=
      inv.dispatchTurn (length ▸ List.mem_range.mp inside)
    exact ⟨after, turned, inv', moves.trans moves', arbiter'.trans arbiter,
      readFrom'.trans readFrom, length'.trans length⟩
  obtain ⟨rfu', run, inv', moves, arbiter, readFrom, _⟩ := kept
  exact ⟨rfu', run, inv', moves, arbiter, readFrom⟩

/-! ## Reading keeps it -/

theorem srcOp_eq_some {c i : Nat} {inst : Execution.WarpInst} {op : Op}
    (here : srcOp layout operands num_banks c inst i = some op) :
    i < MAX_REG_OPERANDS ∧ op.oc_id = c ∧ op.m_operand = i ∧
      op.m_bank = register_bank op.m_register (operands inst).warp_id num_banks
        layout.m_bank_warp_shift ∧
      (⟨i, op.m_register, (operands inst).warp_id⟩ : Read) ∈ sources operands inst := by
  rw [srcOp] at here
  split at here
  · rename_i valid
    obtain rfl := Option.some.inj here
    refine ⟨valid.1, rfl, rfl, rfl, ?_⟩
    rw [sources, List.mem_filterMap]
    exact ⟨i, List.mem_range.mpr valid.1, if_pos valid.2⟩
  · cases here

theorem Inv.of_pending (inv : Inv layout operands num_banks inHand rfu) {op : Op}
    (pending : Pending rfu op) :
    (rfu.m_cu op.oc_id).m_free = false ∧ op.m_operand < MAX_REG_OPERANDS ∧
      op.m_bank = register_bank op.m_register (rfu.m_cu op.oc_id).m_warp_id num_banks
        layout.m_bank_warp_shift := by
  cases busy : (rfu.m_cu op.oc_id).m_free with
  | true =>
    have none := ((inv.units op.oc_id).free busy).2.2 op.m_operand
    rw [pending.2] at none
    cases none
  | false =>
    obtain ⟨inst, out, _, _, wid, srcOps, _, _⟩ := (inv.units op.oc_id).busy busy
    have here := pending.2
    rw [srcOps] at here
    obtain ⟨lt, _, _, bank, _⟩ := srcOp_eq_some here
    exact ⟨rfl, lt, wid ▸ bank⟩

theorem nodup_sources (inst : Execution.WarpInst) : (sources operands inst).Nodup := by
  refine List.Nodup.filterMap (fun i j read first second => ?_) List.nodup_range
  simp only [Option.mem_def] at first second
  split at first
  · split at second
    · obtain rfl := Option.some.inj first
      exact (congrArg Read.operand (Option.some.inj second)).symm
    · cases second
  · cases first

theorem operand_inj {inst : Execution.WarpInst} {read read' : Read}
    (inside : read ∈ sources operands inst) (inside' : read' ∈ sources operands inst)
    (same : read.operand = read'.operand) : read = read' := by
  obtain ⟨i, _, here⟩ := List.mem_filterMap.mp inside
  obtain ⟨j, _, here'⟩ := List.mem_filterMap.mp inside'
  split at here
  · split at here'
    · obtain rfl := Option.some.inj here
      obtain rfl := Option.some.inj here'
      obtain rfl : i = j := same
      rfl
    · cases here'
  · cases here

theorem Inv.collect {op : Op} (inv : Inv layout operands num_banks (op :: inHand) rfu) :
    Inv layout operands num_banks inHand (rfu.collect op) := by
  have pending : Pending rfu op := (inv.pending op).mpr (.inr List.mem_cons_self)
  obtain ⟨busy, _, _⟩ := inv.of_pending pending
  obtain ⟨fresh, nodup⟩ := List.nodup_cons.mp inv.inHand_nodup
  have unitInv := inv.units op.oc_id
  refine ⟨fun c => ?_, fun c busy' => ?_, inv.banks, inv.collectors, inv.dispatch_units,
    fun other => ?_, inv.bank, inv.nodup, nodup,
    fun other inside => inv.apart other (List.mem_cons_of_mem op inside), ?_, inv.complete⟩
  · by_cases own : c = op.oc_id
    · subst own
      simp only [OpndcollRfu.collect, Function.update_self]
      refine ⟨fun free => absurd free (by simp [busy]), fun _ => ?_⟩
      obtain ⟨inst, out, warp, output, wid, srcOps, valid, reads⟩ := unitInv.busy busy
      refine ⟨inst, out, warp, output, wid, srcOps,
        fun i inside => valid i (Finset.mem_of_mem_erase inside), ?_⟩
      have here := pending.2
      rw [srcOps] at here
      obtain ⟨_, _, _, _, source⟩ := srcOp_eq_some here
      rw [wid]
      have waiting : op.m_operand ∈ (rfu.m_cu op.oc_id).m_not_ready := pending.1
      refine (reads.append_right _).trans ((List.perm_ext_iff_of_nodup ?_ ?_).mpr fun read => ?_)
      · refine List.nodup_append.mpr
          ⟨(nodup_sources inst).filter _, List.nodup_singleton _, fun read inside new hnew => ?_⟩
        obtain rfl := List.mem_singleton.mp hnew
        rintro rfl
        simp [waiting] at inside
      · exact (nodup_sources inst).filter _
      · simp only [List.mem_append, List.mem_filter, decide_eq_true_eq, List.mem_singleton,
          Finset.mem_erase, not_and]
        constructor
        · rintro (⟨inside, collected⟩ | rfl)
          · exact ⟨inside, fun _ => collected⟩
          · exact ⟨source, fun different => absurd rfl different⟩
        · rintro ⟨inside, collected⟩
          by_cases same : read.operand = op.m_operand
          · exact .inr (operand_inj inside source same)
          · exact .inl ⟨inside, collected same⟩
    · simp only [OpndcollRfu.collect, Function.update_of_ne own]
      exact inv.units c
  · by_cases own : c = op.oc_id
    · exact own ▸ inv.in_range op.oc_id busy
    · simp only [OpndcollRfu.collect, Function.update_of_ne own] at busy'
      exact inv.in_range c busy'
  · have split : Pending (rfu.collect op) other ↔ Pending rfu other ∧ other ≠ op := by
      by_cases own : other.oc_id = op.oc_id
      · simp only [Pending, OpndcollRfu.collect, own, Function.update_self, Finset.mem_erase]
        constructor
        · rintro ⟨⟨different, waiting⟩, here⟩
          exact ⟨⟨waiting, here⟩, fun same => different (congrArg Op.m_operand same)⟩
        · rintro ⟨⟨waiting, here⟩, different⟩
          refine ⟨⟨fun same => different ?_, waiting⟩, here⟩
          rw [same, pending.2] at here
          exact (Option.some.inj here).symm
      · simp only [Pending, OpndcollRfu.collect, Function.update_of_ne own]
        exact ⟨fun here => ⟨here, fun same => own (congrArg Op.oc_id same)⟩, And.left⟩
    rw [split, inv.pending other, List.mem_cons]
    have notQueued := inv.apart op List.mem_cons_self
    constructor
    · rintro ⟨queued | rfl | inside, different⟩
      · exact .inl queued
      · exact absurd rfl different
      · exact .inr inside
    · rintro (queued | inside)
      · exact ⟨.inl queued, fun same => notQueued (same ▸ queued)⟩
      · exact ⟨.inr (.inr inside), fun same => fresh (same ▸ inside)⟩
  · refine inv.conserved.trans (.of_eq ?_)
    have units : inUnits layout (rfu.collect op) = inUnits layout rfu := by
      refine List.filterMap_congr fun c _ => ?_
      by_cases own : c = op.oc_id
      · subst own
        simp only [holding, OpndcollRfu.collect, Function.update_self]
      · simp only [holding, OpndcollRfu.collect, Function.update_of_ne own]
    rw [units]
    rfl

theorem Inv.collects {ops : List Op} (inv : Inv layout operands num_banks ops rfu) :
    Inv layout operands num_banks [] (ops.foldl OpndcollRfu.collect rfu) ∧
      (ops.foldl OpndcollRfu.collect rfu).m_arbiter = rfu.m_arbiter ∧
      Moves rfu (ops.foldl OpndcollRfu.collect rfu) ∧
      ∀ b, (ops.foldl OpndcollRfu.collect rfu).readFrom b =
        rfu.readFrom b ++ ops.filter (·.m_bank = b) := by
  induction ops generalizing rfu with
  | nil => exact ⟨inv, rfl, .refl rfu, by simp⟩
  | cons op ops ih =>
    obtain ⟨inv', arbiter, moves, readFrom⟩ := ih inv.collect
    have same : Moves rfu (rfu.collect op) := Moves.refl rfu
    refine ⟨inv', arbiter, same.trans moves, fun b => ?_⟩
    rw [List.foldl_cons, readFrom b]
    by_cases own : b = op.m_bank
    · subst own
      simp [OpndcollRfu.collect]
    · simp [OpndcollRfu.collect, own, Ne.symm own]

theorem foldlM_allocTurn {banks : List Nat} (nodup : banks.Nodup) {head : Nat → Option Op}
    {m_cu : Nat → CollectorUnit} (a : Arbiter) (read_ops : Nat → Option Op)
    (heads : ∀ b ∈ banks, ∃ op, head b = some op ∧ register_bank op.m_register
      (m_cu op.oc_id).m_warp_id a.m_num_banks layout.m_bank_warp_shift = b)
    (free : ∀ b ∈ banks, b < a.m_num_banks ∧ a.bank_idle b = true) :
    (banks.filterMap head).foldlM (allocTurn layout m_cu) (a, read_ops) =
      some ({ a with m_allocated_bank := fun b =>
          if b ∈ banks then .READ_ALLOC else a.m_allocated_bank b },
        fun b => if b ∈ banks then head b else read_ops b) := by
  induction banks generalizing a read_ops with
  | nil => simp
  | cons bank banks ih =>
    obtain ⟨fresh, nodup⟩ := List.nodup_cons.mp nodup
    obtain ⟨op, first, again⟩ := heads bank List.mem_cons_self
    -- the bank is in range and idle, and by `fresh` no later turn takes it
    have turned : allocTurn layout m_cu (a, read_ops) op = some ({ a with
          m_allocated_bank := Function.update a.m_allocated_bank bank .READ_ALLOC },
        Function.update read_ops bank (some op)) := by
      simp only [allocTurn, again, Arbiter.allocate_for_read, if_pos (free bank List.mem_cons_self)]
      rfl
    have rest := ih nodup
      { a with m_allocated_bank := Function.update a.m_allocated_bank bank .READ_ALLOC }
      (Function.update read_ops bank (some op))
      (fun b inside => heads b (List.mem_cons_of_mem bank inside)) (fun b inside => by
        have other : b ≠ bank := fun same => fresh (same ▸ inside)
        simpa [Arbiter.bank_idle, Function.update_of_ne other] using
          free b (List.mem_cons_of_mem bank inside))
    rw [List.filterMap_cons_some first, List.foldlM_cons, turned, Option.bind_eq_bind,
      Option.bind_some, rest]
    simp only [Option.some.injEq, Prod.mk.injEq, Arbiter.mk.injEq, true_and, and_true]
    constructor
    · funext b
      by_cases own : b = bank
      · simp [own]
      · simp [own]
    · funext b
      by_cases own : b = bank
      · simp [own, fresh, first]
      · simp [own]

theorem filter_filterMap_head {banks : List Nat} (nodup : banks.Nodup) {head : Nat → Option Op}
    (bank : ∀ b op, head b = some op → op.m_bank = b) (b : Nat) :
    (banks.filterMap head).filter (·.m_bank = b) = if b ∈ banks then (head b).toList else [] := by
  induction banks with
  | nil => rfl
  | cons first banks ih =>
    obtain ⟨fresh, nodup⟩ := List.nodup_cons.mp nodup
    have rest := ih nodup
    cases here : head first with
    | none =>
      rw [List.filterMap_cons_none here, rest]
      by_cases own : b = first
      · subst own
        simp [fresh, here]
      · simp [own]
    | some op =>
      have atFirst := bank first op here
      rw [List.filterMap_cons_some here]
      by_cases own : b = first
      · subst own
        simp only [List.filter_cons, atFirst, decide_true, if_true, rest, fresh, if_false, here,
          List.mem_cons_self, Option.toList_some]
      · simp only [List.filter_cons, atFirst, Ne.symm own, decide_false, Bool.false_eq_true,
          if_false, rest, List.mem_cons, own, false_or]

theorem Inv.popped (inv : Inv layout operands num_banks [] rfu) {a' : Arbiter} {result : List Op}
    {banks : Finset Nat} (serves : rfu.m_arbiter.Serves banks result a')
    (result_eq : result = ((List.range rfu.m_arbiter.m_num_banks).filter (· ∈ banks)).filterMap
      fun b => (rfu.m_arbiter.m_queue b).head?) :
    Inv layout operands num_banks result { rfu with m_arbiter := a' } := by
  have bank : ∀ b op, (rfu.m_arbiter.m_queue b).head? = some op → op.m_bank = b :=
    fun b op here => inv.bank b op (List.mem_of_mem_head? here)
  have mem_result : ∀ op, op ∈ result ↔
      op.m_bank ∈ banks ∧ (rfu.m_arbiter.m_queue op.m_bank).head? = some op := by
    intro op
    rw [result_eq, List.mem_filterMap]
    constructor
    · rintro ⟨b, inside, here⟩
      obtain rfl := bank b op here
      exact ⟨by simpa using (List.mem_filter.mp inside).2, here⟩
    · rintro ⟨inside, here⟩
      exact ⟨op.m_bank, List.mem_filter.mpr
        ⟨List.mem_range.mpr (serves.in_range _ inside), by simpa using inside⟩, here⟩
  have sub : ∀ b, (a'.m_queue b).Sublist (rfu.m_arbiter.m_queue b) := by
    intro b
    by_cases inside : b ∈ banks
    · obtain ⟨op, first⟩ := serves.heads b inside
      rw [first]
      exact List.sublist_cons_self op _
    · rw [serves.others b inside]
  refine ⟨inv.units, inv.in_range, serves.sizes_eq.1.trans inv.banks,
    serves.sizes_eq.2.trans inv.collectors, inv.dispatch_units, fun op => ?_,
    fun b op queued => inv.bank b op ((sub b).subset queued),
    fun b => (inv.nodup b).sublist (sub b), ?_, fun op inside queued => ?_, inv.conserved,
    inv.complete⟩
  · refine (inv.pending op).trans ?_
    simp only [List.not_mem_nil, or_false, mem_result]
    by_cases inside : op.m_bank ∈ banks
    · obtain ⟨first, split⟩ := serves.heads _ inside
      rw [split, List.mem_cons]
      simp [inside, or_comm, eq_comm]
    · simp [inside, serves.others _ inside]
  · rw [result_eq]
    refine List.Nodup.filterMap (fun i j op first second => ?_) (List.nodup_range.filter _)
    exact (bank i op first).symm.trans (bank j op second)
  · obtain ⟨served, here⟩ := (mem_result op).mp inside
    obtain ⟨first, split⟩ := serves.heads _ served
    have nodup := inv.nodup op.m_bank
    rw [split] at here nodup
    obtain rfl := Option.some.inj here
    exact (List.nodup_cons.mp nodup).1 queued

theorem Inv.allocate_reads (inv : Inv layout operands num_banks [] rfu)
    (sizes : num_banks ≤ layout.m_cu_size)
    (no_read : ∀ b, rfu.m_arbiter.m_allocated_bank b ≠ .READ_ALLOC) :
    ∃ rfu', rfu.allocate_reads layout = some rfu' ∧ Inv layout operands num_banks [] rfu' ∧
      Moves rfu rfu' ∧
      rfu'.m_arbiter.m_last_cu = (rfu.m_arbiter.m_last_cu + 1) % layout.m_cu_size ∧
      ∀ b, ∃ popped, rfu'.readFrom b = rfu.readFrom b ++ popped ∧
        rfu.m_arbiter.m_queue b = popped ++ rfu'.m_arbiter.m_queue b ∧
        (b ∈ rfu.m_arbiter.served → popped ≠ []) := by
  have sizes' : rfu.m_arbiter.m_num_banks ≤ rfu.m_arbiter.m_num_collectors := by
    rw [inv.banks, inv.collectors]
    exact sizes
  obtain ⟨result, run, serves⟩ := Arbiter.allocate_reads_eq sizes'
  have safe := Arbiter.maximalSafe_served sizes'
  have square : rfu.m_arbiter.square = layout.m_cu_size := by
    rw [Arbiter.square, max_eq_right sizes', inv.collectors]
  set a := rfu.m_arbiter with ha
  set banks := (List.range a.m_num_banks).filter (· ∈ a.served) with hbanks
  have nodup : banks.Nodup := List.nodup_range.filter _
  have mem_banks : ∀ b, b ∈ banks ↔ b ∈ a.served := fun b => by
    rw [hbanks, List.mem_filter, List.mem_range, decide_eq_true_eq]
    exact ⟨And.right, fun inside => ⟨serves.in_range b inside, inside⟩⟩
  have result_eq : result = banks.filterMap fun b => (a.m_queue b).head? := by
    have heads := congrArg List.reduceOption serves.result_eq
    simpa [List.reduceOption, List.filterMap_map] using heads.symm
  have heads : ∀ b ∈ banks, ∃ op, (a.m_queue b).head? = some op ∧
      register_bank op.m_register (rfu.m_cu op.oc_id).m_warp_id (a.popped a.matched).m_num_banks
        layout.m_bank_warp_shift = b := by
    intro b inside
    obtain ⟨op, first⟩ := serves.heads b ((mem_banks b).mp inside)
    have queued : op ∈ a.m_queue b := first ▸ List.mem_cons_self
    have atBank := inv.bank b op queued
    have pending := (inv.pending op).mpr (.inl (by rw [atBank]; exact queued))
    refine ⟨op, by rw [first]; rfl, ?_⟩
    rw [serves.sizes_eq.1, inv.banks, ← (inv.of_pending pending).2.2, atBank]
  have free : ∀ b ∈ banks, b < (a.popped a.matched).m_num_banks ∧
      (a.popped a.matched).bank_idle b = true := by
    intro b inside
    have served := (mem_banks b).mp inside
    refine ⟨serves.in_range b served, ?_⟩
    rw [Arbiter.bank_idle, serves.allocated_eq, beq_iff_eq]
    cases allocated : a.m_allocated_bank b with
    | NO_ALLOC => rfl
    | READ_ALLOC => exact absurd allocated (no_read b)
    | WRITE_ALLOC => exact absurd allocated (safe.not_write b served)
  have turned := foldlM_allocTurn nodup (a.popped a.matched) (fun _ => none) heads free
  rw [← result_eq] at turned
  have again : ((List.range a.m_num_banks).filterMap fun b =>
      if b ∈ banks then (a.m_queue b).head? else none) = result := by
    rw [result_eq, hbanks, List.filterMap_filter]
    refine List.filterMap_congr fun b inside => ?_
    simp [List.mem_range.mp inside]
  have inv' : Inv layout operands num_banks result { rfu with
      m_arbiter := { a.popped a.matched with m_allocated_bank := fun b =>
        if b ∈ banks then .READ_ALLOC else (a.popped a.matched).m_allocated_bank b } } := by
    have popped := inv.popped serves result_eq
    exact ⟨popped.units, popped.in_range, popped.banks, popped.collectors, popped.dispatch_units,
      popped.pending, popped.bank, popped.nodup, popped.inHand_nodup, popped.apart,
      popped.conserved, popped.complete⟩
  obtain ⟨inv'', arbiter, moves, readFrom⟩ := inv'.collects
  refine ⟨_, ?_, inv'', moves, ?_, fun b => ⟨result.filter (·.m_bank = b), readFrom b, ?_⟩⟩
  · rw [OpndcollRfu.allocate_reads, ← ha, run]
    simp only [Option.bind_eq_bind, Option.bind_some, turned]
    rw [← again]
    rfl
  · rw [arbiter, ← square]
    rfl
  · have bank : ∀ b op, (a.m_queue b).head? = some op → op.m_bank = b :=
      fun b op here => inv.bank b op (List.mem_of_mem_head? here)
    rw [arbiter, result_eq, filter_filterMap_head nodup bank]
    by_cases served : b ∈ a.served
    · obtain ⟨op, first⟩ := serves.heads b served
      have here : (a.m_queue b).head? = some op := by rw [first]; rfl
      rw [if_pos ((mem_banks b).mpr served), here]
      exact ⟨first, fun _ => by simp⟩
    · rw [if_neg fun inside => served ((mem_banks b).mp inside)]
      exact ⟨(serves.others b served).symm, fun inside => absurd inside served⟩

end OpndcollRfu

end AesOnGpu.OperandCollector
