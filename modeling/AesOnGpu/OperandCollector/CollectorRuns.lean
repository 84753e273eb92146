import AesOnGpu.OperandCollector.Collector

/-! # Runs of the operand collectors

Whatever the rest of the core does between two steps, no step fails an assertion
(`step_never_fails`), what comes in leaves once and after each of its operands has been read once
(`collected_once`), and a read waits a bounded time unless its bank is written to (`read_in_time`).
-/

namespace AesOnGpu.OperandCollector

open Execution (RegisterSet)

namespace OpndcollRfu

variable {layout : Layout} {operands : Execution.WarpInst → Operands}
  {rfu rfu' rfu'' : OpndcollRfu} {num_banks : Nat} {inHand : List Op}

/-! ## Filling the collector units keeps it -/

/-- Reads are only added at the ends of the queues. -/
structure Grows (rfu rfu' : OpndcollRfu) : Prop where
  readFrom : rfu'.readFrom = rfu.readFrom
  last_cu : rfu'.m_arbiter.m_last_cu = rfu.m_arbiter.m_last_cu
  queue : ∀ b, ∃ new, rfu'.m_arbiter.m_queue b = rfu.m_arbiter.m_queue b ++ new

theorem Grows.refl (rfu : OpndcollRfu) : Grows rfu rfu :=
  ⟨rfl, rfl, fun _ => ⟨[], (List.append_nil _).symm⟩⟩

theorem Grows.trans (first : Grows rfu rfu') (second : Grows rfu' rfu'') : Grows rfu rfu'' where
  readFrom := second.readFrom.trans first.readFrom
  last_cu := second.last_cu.trans first.last_cu
  queue := fun b => by
    obtain ⟨new₁, queue₁⟩ := first.queue b
    obtain ⟨new₂, queue₂⟩ := second.queue b
    exact ⟨new₁ ++ new₂, by rw [queue₂, queue₁, List.append_assoc]⟩

def unitReads (cu : CollectorUnit) : List Op :=
  (List.range (MAX_REG_OPERANDS * 2)).filterMap cu.m_src_op

theorem Inv.allocate (inv : Inv layout operands num_banks [] rfu) {c input : Nat}
    (free : (rfu.m_cu c).m_free = true) (lt : c < layout.m_cu_size)
    (ready : (rfu.m_pipeline_reg input).has_ready = true) (output : Nat) :
    ∃ rfu', rfu.allocate layout operands c input output = some (true, rfu') ∧
      Inv layout operands num_banks (unitReads (rfu'.m_cu c)) rfu' ∧ Moves rfu rfu' ∧
      rfu'.m_arbiter = rfu.m_arbiter ∧ rfu'.readFrom = rfu.readFrom := by
  obtain ⟨collected, warp, srcOps⟩ := (inv.units c).free free
  obtain ⟨i, inst, regs, oldest, moved, perm⟩ := RegisterSet.move_out_of_has_ready ready
  have own : (fun i => if i < MAX_REG_OPERANDS then srcOp layout operands num_banks c inst i
      else (rfu.m_cu c).m_src_op i) = srcOp layout operands num_banks c inst := by
    funext i
    split
    · rfl
    · rw [srcOps, srcOp_of_le (by omega)]
  have allocated : rfu.allocate layout operands c input output = some (true, { rfu with
      m_pipeline_reg := Function.update rfu.m_pipeline_reg input regs
      m_cu := Function.update rfu.m_cu c
        { m_free := false
          m_warp_id := (operands inst).warp_id
          m_warp := some inst
          m_output_register := some output
          m_src_op := srcOp layout operands num_banks c inst
          m_not_ready := (Finset.range MAX_REG_OPERANDS).filter fun i =>
            (srcOp layout operands num_banks c inst i).isSome }
      entered := rfu.entered ++ [(input, inst, output)]
      reads := Function.update rfu.reads c [] }) := by
    rw [OpndcollRfu.allocate, if_neg (by simp [free, collected]), oldest]
    simp only [warp, moved, inv.banks, own, collected, Finset.empty_union, Option.bind_eq_bind,
      Option.bind_some]
    rfl
  have mem_reads : ∀ op, op ∈ (List.range (MAX_REG_OPERANDS * 2)).filterMap
      (srcOp layout operands num_banks c inst) ↔
        op.oc_id = c ∧ srcOp layout operands num_banks c inst op.m_operand = some op := by
    intro op
    rw [List.mem_filterMap]
    constructor
    · rintro ⟨i, _, here⟩
      obtain ⟨_, unit, rfl, _, _⟩ := srcOp_eq_some here
      exact ⟨unit, here⟩
    · rintro ⟨_, here⟩
      have few := (srcOp_eq_some here).1
      exact ⟨op.m_operand, List.mem_range.mpr (by omega), here⟩
  have notQueued : ∀ op, op.oc_id = c → op ∉ rfu.m_arbiter.m_queue op.m_bank := by
    rintro op rfl queued
    have waiting := ((inv.pending op).mpr (.inl queued)).1
    rw [collected] at waiting
    exact Finset.notMem_empty _ waiting
  refine ⟨_, allocated, ?_, ?_, rfl, rfl⟩
  · simp only [unitReads, Function.update_self]
    refine ⟨fun i => ?_, fun i busy => ?_, inv.banks, inv.collectors, inv.dispatch_units,
      fun op => ?_, inv.bank, inv.nodup, ?_,
      fun op inside => notQueued op ((mem_reads op).mp inside).1, ?_, inv.complete⟩
    · by_cases here : i = c
      · subst here
        simp only [Function.update_self]
        refine ⟨nofun, fun _ => ⟨inst, output, rfl, rfl, rfl, rfl,
          fun j inside => (Finset.mem_filter.mp inside).2, .of_eq (Eq.symm ?_)⟩⟩
        rw [List.filter_eq_nil_iff]
        intro read source
        obtain ⟨j, below, here⟩ := List.mem_filterMap.mp source
        split at here
        · rename_i valid
          obtain rfl := Option.some.inj here
          simpa [srcOp, valid] using below
        · cases here
      · simp only [Function.update_of_ne here]
        exact inv.units i
    · by_cases here : i = c
      · exact here ▸ lt
      · simp only [Function.update_of_ne here] at busy
        exact inv.in_range i busy
    · rw [mem_reads]
      by_cases here : op.oc_id = c
      · simp only [Pending, here, Function.update_self, notQueued op here, false_or, true_and,
          Finset.mem_filter, Finset.mem_range, and_iff_right_iff_imp]
        intro some
        exact ⟨(srcOp_eq_some some).1, by rw [some]; rfl⟩
      · simp only [here, false_and, or_false]
        refine Iff.trans ?_ ((inv.pending op).trans (by simp))
        simp only [Pending, Function.update_of_ne here]
    · refine List.Nodup.filterMap (fun i j op first second => ?_) List.nodup_range
      obtain ⟨_, _, rfl, _, _⟩ := srcOp_eq_some first
      obtain ⟨_, _, same, _, _⟩ := srcOp_eq_some second
      exact same
    · have units := inUnits_perm { rfu with
          m_cu := Function.update rfu.m_cu c
            { m_free := false
              m_warp_id := (operands inst).warp_id
              m_warp := some inst
              m_output_register := some output
              m_src_op := srcOp layout operands num_banks c inst
              m_not_ready := (Finset.range MAX_REG_OPERANDS).filter fun i =>
                (srcOp layout operands num_banks c inst i).isSome } } rfu (inst, output) lt
        (by simp [holding]) (by simp [holding, warp])
        fun i other => (Function.update_of_ne other _ _).symm
      rw [List.map_append, List.map_singleton]
      refine (inv.conserved.append_right _).trans ?_
      rw [List.append_assoc]
      refine List.Perm.append_left _ ?_
      exact (List.perm_append_singleton _ _).trans units.symm
  · refine ⟨[(input, inst, output)], [], rfl, (List.append_nil _).symm, fun stage => ?_⟩
    by_cases here : stage = input
    · subst here
      simpa using (List.perm_append_singleton inst _).trans perm.symm
    · simp [Function.update_of_ne here, Ne.symm here]

theorem Inv.queueRead {op : Op} (inv : Inv layout operands num_banks (op :: inHand) rfu) :
    ∃ a, rfu.m_arbiter.queueRead op = some a ∧
      Inv layout operands num_banks inHand { rfu with m_arbiter := a } ∧
      Grows rfu { rfu with m_arbiter := a } := by
  have pending : Pending rfu op := (inv.pending op).mpr (.inr List.mem_cons_self)
  have inside : op.oc_id < rfu.m_arbiter.m_num_collectors := by
    rw [inv.collectors]
    exact inv.in_range op.oc_id (inv.of_pending pending).1
  obtain ⟨fresh, nodup⟩ := List.nodup_cons.mp inv.inHand_nodup
  have notQueued := inv.apart op List.mem_cons_self
  refine ⟨_, dif_pos inside, ⟨inv.units, inv.in_range, inv.banks, inv.collectors,
    inv.dispatch_units, fun other => ?_, fun b other queued => ?_, fun b => ?_, nodup,
    fun other later queued => ?_, inv.conserved, inv.complete⟩, rfl, rfl, fun b => ?_⟩
  · refine (inv.pending other).trans ?_
    by_cases own : other.m_bank = op.m_bank
    · simp only [own, Function.update_self, List.mem_append, List.mem_cons, List.not_mem_nil,
        or_false, or_assoc]
    · have different : other ≠ op := fun same => own (congrArg Op.m_bank same)
      simp only [Function.update_of_ne own, List.mem_cons, different, false_or]
  · by_cases own : b = op.m_bank
    · subst own
      simp only [Function.update_self, List.mem_append, List.mem_singleton] at queued
      rcases queued with older | rfl
      · exact inv.bank _ other older
      · rfl
    · simp only [Function.update_of_ne own] at queued
      exact inv.bank b other queued
  · by_cases own : b = op.m_bank
    · subst own
      simp only [Function.update_self]
      refine List.nodup_append.mpr ⟨inv.nodup _, List.nodup_singleton _, ?_⟩
      rintro other queued last here rfl
      exact notQueued (List.mem_singleton.mp here ▸ queued)
    · simp only [Function.update_of_ne own]
      exact inv.nodup b
  · have apart := inv.apart other (List.mem_cons_of_mem op later)
    by_cases own : other.m_bank = op.m_bank
    · simp only [own, Function.update_self, List.mem_append, List.mem_singleton] at queued apart
      rcases queued with older | rfl
      · exact apart older
      · exact fresh later
    · simp only [Function.update_of_ne own] at queued
      exact apart queued
  · by_cases own : b = op.m_bank
    · subst own
      exact ⟨[op], by simp⟩
    · exact ⟨[], by simp [own]⟩

theorem Inv.queueReads {ops : List Op} (inv : Inv layout operands num_banks ops rfu) :
    ∃ a, ops.foldlM Arbiter.queueRead rfu.m_arbiter = some a ∧
      Inv layout operands num_banks [] { rfu with m_arbiter := a } ∧
      Grows rfu { rfu with m_arbiter := a } := by
  induction ops generalizing rfu with
  | nil => exact ⟨rfu.m_arbiter, rfl, inv, .refl rfu⟩
  | cons op ops ih =>
    obtain ⟨a, queued, inv', grows⟩ := inv.queueRead
    obtain ⟨a', rest, inv'', grows'⟩ := ih inv'
    refine ⟨a', ?_, inv'', grows.trans grows'⟩
    rw [List.foldlM_cons, queued]
    exact rest

theorem Inv.findFree (inv : Inv layout operands num_banks [] rfu) {input : Nat}
    (ready : (rfu.m_pipeline_reg input).has_ready = true) (output : Nat) (sets : List Nat) :
    ∃ rfu', findFree layout operands rfu input output sets = some rfu' ∧
      Inv layout operands num_banks [] rfu' ∧ Moves rfu rfu' ∧ Grows rfu rfu' := by
  induction sets with
  | nil => exact ⟨rfu, rfl, inv, .refl rfu, .refl rfu⟩
  | cons set sets ih =>
    rw [OpndcollRfu.findFree]
    cases found : (layout.m_cus set).find? fun c => (rfu.m_cu c).m_free with
    | none => exact ih
    | some c =>
      have lt := layout.cuid_lt set c (List.mem_of_find?_eq_some found)
      have free : (rfu.m_cu c).m_free = true := by simpa using List.find?_some found
      obtain ⟨rfu₁, allocated, inv₁, moves, arbiter, readFrom⟩ :=
        inv.allocate free lt ready output
      obtain ⟨a, queued, inv₂, grows⟩ := inv₁.queueReads
      refine ⟨{ rfu₁ with m_arbiter := a }, ?_, inv₂, moves, ?_⟩
      · simp only [allocated, Option.bind_eq_bind, Option.bind_some, add_read_requests]
        rw [unitReads] at queued
        rw [queued]
        rfl
      · exact ⟨grows.readFrom.trans readFrom, grows.last_cu.trans (by rw [arbiter]),
          fun b => arbiter ▸ grows.queue b⟩

theorem Inv.allocate_cu (inv : Inv layout operands num_banks [] rfu) (inp : InputPort) :
    ∃ rfu', rfu.allocate_cu layout operands inp = some rfu' ∧
      Inv layout operands num_banks [] rfu' ∧ Moves rfu rfu' ∧ Grows rfu rfu' := by
  rw [OpndcollRfu.allocate_cu]
  split
  next => exact ⟨rfu, rfl, inv, .refl rfu, .refl rfu⟩
  next input output found =>
    have ready : (rfu.m_pipeline_reg input).has_ready = true := by
      simpa using List.find?_some found
    exact inv.findFree ready output inp.m_cu_sets

theorem Inv.allocate_cus (inv : Inv layout operands num_banks [] rfu) :
    ∃ rfu', layout.m_in_ports.foldlM (OpndcollRfu.allocate_cu layout operands) rfu = some rfu' ∧
      (Inv layout operands num_banks [] rfu' ∧ Moves rfu rfu' ∧ Grows rfu rfu') := by
  refine List.foldlM_invariant (fun inp _ before holds => ?_) ⟨inv, .refl rfu, .refl rfu⟩
  obtain ⟨inv, moves, grows⟩ := holds
  obtain ⟨after, turned, inv', moves', grows'⟩ := inv.allocate_cu inp
  exact ⟨after, turned, inv', moves.trans moves', grows.trans grows'⟩

/-! ## A step -/

structure QueueStep (b : Nat) (rfu rfu' : OpndcollRfu) (popped rest new : List Op) : Prop where
  before : rfu.m_arbiter.m_queue b = popped ++ rest
  after : rfu'.m_arbiter.m_queue b = rest ++ new
  readFrom : rfu'.readFrom b = rfu.readFrom b ++ popped
  granted : b ∈ rfu.m_arbiter.served → popped ≠ []

theorem Inv.step (inv : Inv layout operands num_banks [] rfu) (sizes : num_banks ≤ layout.m_cu_size)
    (no_read : ∀ b, rfu.m_arbiter.m_allocated_bank b ≠ .READ_ALLOC) :
    ∃ rfu', rfu.step layout operands = some rfu' ∧ Inv layout operands num_banks [] rfu' ∧
      Moves rfu rfu' ∧
      rfu'.m_arbiter.m_last_cu = (rfu.m_arbiter.m_last_cu + 1) % layout.m_cu_size ∧
      ∀ b, ∃ popped rest new, QueueStep b rfu rfu' popped rest new := by
  obtain ⟨rfu₁, dispatched, inv₁, moves₁, arbiter, readFrom⟩ := inv.dispatch_ready_cu
  obtain ⟨rfu₂, collected, inv₂, moves₂, last_cu, served⟩ :=
    inv₁.allocate_reads sizes (by rwa [arbiter])
  obtain ⟨rfu₃, filled, inv₃, moves₃, grows⟩ := inv₂.allocate_cus
  refine ⟨rfu₃.process_banks, ?_, ?_, ?_, ?_, fun b => ?_⟩
  · rw [OpndcollRfu.step, dispatched]
    simp only [Option.bind_eq_bind, Option.bind_some, collected, filled]
    rfl
  · exact ⟨inv₃.units, inv₃.in_range, inv₃.banks, inv₃.collectors, inv₃.dispatch_units,
      inv₃.pending, inv₃.bank, inv₃.nodup, inv₃.inHand_nodup, inv₃.apart, inv₃.conserved,
      inv₃.complete⟩
  · exact (moves₁.trans moves₂).trans moves₃
  · exact (grows.last_cu.trans last_cu).trans (by rw [arbiter])
  · obtain ⟨popped, read, split, granted⟩ := served b
    obtain ⟨new, queue⟩ := grows.queue b
    refine ⟨popped, rfu₂.m_arbiter.m_queue b, new, ?_, queue, ?_, ?_⟩
    · rw [← arbiter]
      exact split
    · rw [← readFrom, ← read, ← grows.readFrom]
      rfl
    · rw [← arbiter]
      exact granted

/-! ## Runs -/

theorem inv_init (layout : Layout) (operands : Execution.WarpInst → Operands) (num_banks : Nat)
    (banks : 0 < num_banks) (collectors : 0 < layout.m_cu_size) :
    Inv layout operands num_banks [] (init layout num_banks banks collectors) := by
  refine ⟨fun c => ⟨fun _ => ⟨rfl, rfl, fun _ => rfl⟩, nofun⟩, nofun, rfl, rfl,
    layout.collectors_le, fun op => ?_, by simp [init], fun b => List.nodup_nil, List.nodup_nil,
    by simp, ?_, by simp [init]⟩
  · simp [Pending, init, CollectorUnit.new]
  · simp [init, inUnits, holding, CollectorUnit.new]

theorem Inv.between (inv : Inv layout operands num_banks [] rfu) (others : Between) :
    Inv layout operands num_banks [] (rfu.between others) :=
  ⟨inv.units, inv.in_range, inv.banks, inv.collectors, inv.dispatch_units, inv.pending, inv.bank,
    inv.nodup, inv.inHand_nodup, inv.apart, inv.conserved, inv.complete⟩

variable (layout operands) in
/-- The cycles of a run, with what the other stages do before each of them. -/
def run (rfu : OpndcollRfu) (others : List Between) : Option OpndcollRfu :=
  others.foldlM (cycle layout operands) rfu

theorem Inv.run (inv : Inv layout operands num_banks [] rfu) (sizes : num_banks ≤ layout.m_cu_size)
    (others : List Between) :
    ∃ rfu', rfu.run layout operands others = some rfu' ∧
      (Inv layout operands num_banks [] rfu' ∧
        ∀ b, ∃ new, rfu'.readFrom b = rfu.readFrom b ++ new) := by
  refine List.foldlM_invariant (fun other _ before holds => ?_)
    ⟨inv, fun b => ⟨[], (List.append_nil _).symm⟩⟩
  obtain ⟨inv, readFrom⟩ := holds
  obtain ⟨after, stepped, inv', _, _, queues⟩ := (inv.between other).step sizes other.no_read
  refine ⟨after, stepped, inv', fun b => ?_⟩
  obtain ⟨new, here⟩ := readFrom b
  obtain ⟨popped, _, _, queue⟩ := queues b
  refine ⟨new ++ popped, queue.readFrom.trans ?_⟩
  rw [← List.append_assoc, ← here]
  rfl

/-- One set of two collector units between the register sets 0 and 1. -/
def twoUnits : Layout := ((Layout.empty 5).add_cu_set 0 2 1).add_port [(0, 1)] [0]

/-- Each instruction reads the registers 0 and 1 for warp 3. -/
def twoOperands (_inst : Execution.WarpInst) : Operands := ⟨3, fun i => if i < 2 then i else -1⟩

/-- Something has been issued, and the register set behind is empty. -/
def issued : Between where
  m_pipeline_reg stage := if stage = 0 then [some ⟨1, .ALU_OP, 1, 1, 0⟩] else [none]
  m_allocated_bank _ := .NO_ALLOC
  no_read := nofun

variable (layout operands) in
/-- No run fails an assertion, when there are at least as many collector units as banks. -/
theorem step_never_fails {num_banks : Nat} (banks : 0 < num_banks)
    (sizes : num_banks ≤ layout.m_cu_size) (others : List Between) :
    ((init layout num_banks banks (banks.trans_le sizes)).run layout operands others).isSome := by
  obtain ⟨rfu, run, _⟩ := (inv_init layout operands num_banks banks _).run sizes others
  rw [run]
  rfl

theorem step_never_fails_issued :
    ((init twoUnits 2 Nat.two_pos Nat.two_pos).run twoUnits twoOperands [issued]).isSome :=
  step_never_fails twoUnits twoOperands Nat.two_pos (Nat.le_refl 2) [issued]

/-- What has come in from a register set has left for the register set of its port, or is in a
    collector unit, what has left has had each of its operands read once, and a cycle accounts for
    what is in the registers before and after it. -/
theorem collected_once {num_banks : Nat} (banks : 0 < num_banks)
    (sizes : num_banks ≤ layout.m_cu_size) {others : List Between}
    (run : (init layout num_banks banks (banks.trans_le sizes)).run layout operands others =
      some rfu) :
    (rfu.entered.map Prod.snd).Perm (rfu.left.map Prod.fst ++ inUnits layout rfu) ∧
      (∀ left ∈ rfu.left, left.2.Perm (sources operands left.1.1)) ∧
      ∀ other rfu', rfu.cycle layout operands other = some rfu' →
        Moves (rfu.between other) rfu' := by
  obtain ⟨rfu', run', inv, _⟩ := (inv_init layout operands num_banks banks _).run sizes others
  obtain rfl := Option.some.inj (run.symm.trans run')
  refine ⟨inv.conserved, inv.complete, fun other after stepped => ?_⟩
  obtain ⟨after', stepped', _, moves, _⟩ := (inv.between other).step sizes other.no_read
  exact Option.some.inj (stepped.symm.trans stepped') ▸ moves

theorem collected_once_issued : ∃ rfu : OpndcollRfu,
    rfu.left.map Prod.snd = [[⟨0, 0, 3⟩, ⟨1, 1, 3⟩]] ∧
      (rfu.entered.map Prod.snd).Perm (rfu.left.map Prod.fst ++ inUnits twoUnits rfu) ∧
      (∀ left ∈ rfu.left, left.2.Perm (sources twoOperands left.1.1)) ∧
      ∀ other rfu', rfu.cycle twoUnits twoOperands other = some rfu' →
        Moves (rfu.between other) rfu' := by
  have left : ((init twoUnits 2 Nat.two_pos Nat.two_pos).run twoUnits twoOperands
      [issued, issued, issued, issued]).map (fun rfu => rfu.left.map Prod.snd) =
        some [[⟨0, 0, 3⟩, ⟨1, 1, 3⟩]] := by
    decide +kernel
  obtain ⟨rfu, run, left⟩ := Option.map_eq_some_iff.mp left
  exact ⟨rfu, left, collected_once Nat.two_pos (Nat.le_refl 2) run⟩

/-! ## Waiting -/

variable (layout) in
/-- The cycles that the head of a bank's queue waits at most, when nothing writes to the bank. -/
def Distance (rfu : OpndcollRfu) (b : Nat) (op : Op) (d : Nat) : Prop :=
  d < layout.m_cu_size ∧ (rfu.m_arbiter.m_last_cu + d + b) % layout.m_cu_size = op.oc_id

theorem exists_distance (rfu : OpndcollRfu) (b : Nat) {op : Op}
    (lt : op.oc_id < layout.m_cu_size) : ∃ d, Distance layout rfu b op d := by
  obtain ⟨d, below, here⟩ := Arbiter.exists_shift (rfu.m_arbiter.m_last_cu + b) lt
  exact ⟨d, below, by rw [Nat.add_right_comm]; exact here⟩

theorem Inv.first_distance (inv : Inv layout operands num_banks [] rfu) {b : Nat} {op : Op}
    {before after : List Op} (queued : rfu.m_arbiter.m_queue b = before ++ op :: after) :
    ∃ d < layout.m_cu_size, ∀ first ∈ (before ++ [op]).head?, Distance layout rfu b first d := by
  obtain ⟨first, head, inside⟩ : ∃ first, (before ++ [op]).head? = some first ∧
      first ∈ rfu.m_arbiter.m_queue b := by
    rw [queued]
    cases before with
    | nil => exact ⟨op, rfl, List.mem_cons_self⟩
    | cons first before => exact ⟨first, rfl, List.mem_cons_self⟩
  have pending := (inv.pending first).mpr (.inl (by rw [inv.bank b first inside]; exact inside))
  obtain ⟨d, distance⟩ := exists_distance rfu b (inv.in_range _ (inv.of_pending pending).1)
  refine ⟨d, distance.1, fun other here => ?_⟩
  obtain rfl : other = first := Option.some.inj (here.symm.trans head)
  exact distance

/-- In a cycle without a write to the bank its queue gets shorter, or the priority gets closer to
    the head of the queue. -/
theorem Inv.closer (inv : Inv layout operands num_banks [] rfu)
    (sizes : num_banks ≤ layout.m_cu_size) (other : Between) {b d : Nat} {first : Op}
    {queue : List Op} (lt : b < num_banks)
    (write : other.m_allocated_bank b ≠ .WRITE_ALLOC)
    (queued : rfu.m_arbiter.m_queue b = first :: queue) (distance : Distance layout rfu b first d) :
    ∃ rfu' popped rest new, rfu.cycle layout operands other = some rfu' ∧
      Inv layout operands num_banks [] rfu' ∧ first :: queue = popped ++ rest ∧
      rfu'.m_arbiter.m_queue b = rest ++ new ∧ rfu'.readFrom b = rfu.readFrom b ++ popped ∧
      (popped = [] → 0 < d ∧ Distance layout rfu' b first (d - 1)) := by
  obtain ⟨rfu', stepped, inv', _, last_cu, queues⟩ := (inv.between other).step sizes other.no_read
  obtain ⟨popped, rest, new, before, after, readFrom, granted⟩ := queues b
  refine ⟨rfu', popped, rest, new, stepped, inv', queued ▸ before, after, readFrom, fun none => ?_⟩
  have square : (rfu.between other).m_arbiter.square = layout.m_cu_size := by
    rw [Arbiter.square, (inv.between other).banks, (inv.between other).collectors,
      max_eq_right sizes]
  have positive : 0 < d := by
    by_contra zero
    obtain rfl : d = 0 := by omega
    have head : ((rfu.between other).m_arbiter.m_queue b).head? = some first := by
      show (rfu.m_arbiter.m_queue b).head? = some first
      rw [queued]
      rfl
    refine granted (Arbiter.first_diagonal_served ?_ head write ?_) none
    · rw [(inv.between other).banks]
      exact lt
    · rw [square]
      exact distance.2
  refine ⟨positive, by have := distance.1; omega, ?_⟩
  have here := distance.2
  rw [last_cu]
  show ((rfu.m_arbiter.m_last_cu + 1) % layout.m_cu_size + (d - 1) + b) % layout.m_cu_size = _
  rw [Nat.add_assoc, Nat.mod_add_mod, ← here]
  congr 1
  omega

theorem Inv.readInTime (inv : Inv layout operands num_banks [] rfu)
    (sizes : num_banks ≤ layout.m_cu_size) {others : List Between} {b d : Nat} {op : Op}
    {before after : List Op} (lt : b < num_banks)
    (writes : ∀ other ∈ others, other.m_allocated_bank b ≠ .WRITE_ALLOC)
    (queued : rfu.m_arbiter.m_queue b = before ++ op :: after)
    (distance : ∀ first ∈ (before ++ [op]).head?, Distance layout rfu b first d)
    (enough : before.length * layout.m_cu_size + d < others.length) :
    ∃ rfu' new, rfu.run layout operands others = some rfu' ∧
      rfu'.readFrom b = rfu.readFrom b ++ new ∧ op ∈ new := by
  induction others generalizing rfu before d after with
  | nil => exact absurd enough (Nat.not_lt_zero _)
  | cons other others ih =>
    obtain ⟨first, queue, split, here⟩ : ∃ first queue,
        before ++ op :: after = first :: queue ∧ first ∈ (before ++ [op]).head? := by
      cases before with
      | nil => exact ⟨op, after, rfl, rfl⟩
      | cons first before => exact ⟨first, before ++ op :: after, rfl, rfl⟩
    obtain ⟨rfu₁, popped, rest, new, stepped, inv₁, parts, after₁, readFrom, stays⟩ :=
      inv.closer sizes other lt (writes other List.mem_cons_self) (queued.trans split)
        (distance first here)
    have run₁ : ∀ rfu', rfu₁.run layout operands others = some rfu' →
        rfu.run layout operands (other :: others) = some rfu' := fun rfu' run => by
      rw [OpndcollRfu.run, List.foldlM_cons, stepped]
      exact run
    have later : ∀ other ∈ others, other.m_allocated_bank b ≠ .WRITE_ALLOC :=
      fun other inside => writes other (List.mem_cons_of_mem _ inside)
    rw [List.length_cons] at enough
    by_cases read : op ∈ popped
    · -- The read is done, and the rest of the run keeps it.
      obtain ⟨rfu', run, _, more⟩ := inv₁.run sizes others
      obtain ⟨new', readFrom'⟩ := more b
      refine ⟨rfu', popped ++ new', run₁ rfu' run, ?_, List.mem_append_left _ read⟩
      rw [readFrom', readFrom, List.append_assoc]
    · obtain ⟨before', prefix', rest_eq⟩ : ∃ before', before = popped ++ before' ∧
          rest = before' ++ op :: after := by
        rw [← split, List.append_eq_append_iff] at parts
        rcases parts with ⟨more, rfl, tail⟩ | ⟨before', rfl, tail⟩
        · cases more with
          | nil => exact ⟨[], by simp, tail.symm⟩
          | cons next more =>
            obtain ⟨rfl, _⟩ := List.cons.inj tail
            exact absurd (List.mem_append_right before List.mem_cons_self) read
        · exact ⟨before', rfl, tail⟩
      have queued₁ : rfu₁.m_arbiter.m_queue b = before' ++ op :: (after ++ new) := by
        rw [after₁, rest_eq, List.append_assoc, List.cons_append]
      obtain ⟨d', distance', enough'⟩ : ∃ d',
          (∀ first ∈ (before' ++ [op]).head?, Distance layout rfu₁ b first d') ∧
            before'.length * layout.m_cu_size + d' < others.length := by
        cases popped with
        | nil =>
          obtain ⟨positive, closer⟩ := stays rfl
          rw [List.nil_append] at prefix'
          subst prefix'
          refine ⟨d - 1, fun first' here' => ?_, by omega⟩
          obtain rfl : first' = first := Option.some.inj (here'.symm.trans here)
          exact closer
        | cons next popped =>
          obtain ⟨d', below, distance'⟩ := inv₁.first_distance queued₁
          have shorter : (before'.length + 1) * layout.m_cu_size ≤
              before.length * layout.m_cu_size := by
            refine Nat.mul_le_mul_right _ ?_
            rw [prefix', List.length_append, List.length_cons]
            omega
          rw [Nat.succ_mul] at shorter
          exact ⟨d', distance', by omega⟩
      obtain ⟨rfu', new', run, readFrom', inside⟩ :=
        ih inv₁ later queued₁ distance' enough'
      refine ⟨rfu', popped ++ new', run₁ rfu' run, ?_, List.mem_append_right popped inside⟩
      rw [readFrom', readFrom, List.append_assoc]

theorem Inv.queue_length (inv : Inv layout operands num_banks [] rfu) (b : Nat) :
    (rfu.m_arbiter.m_queue b).length ≤ layout.m_cu_size * MAX_REG_OPERANDS := by
  have pending : ∀ op ∈ rfu.m_arbiter.m_queue b, Pending rfu op := fun op queued =>
    (inv.pending op).mpr (.inl (by rw [inv.bank b op queued]; exact queued))
  have distinct : ((rfu.m_arbiter.m_queue b).map fun op => (op.oc_id, op.m_operand)).Nodup := by
    refine (inv.nodup b).map_on fun op first op' second same => ?_
    obtain ⟨unit, operand⟩ := Prod.mk.inj same
    have here := (pending op first).2
    rw [unit, operand, (pending op' second).2] at here
    exact (Option.some.inj here).symm
  calc (rfu.m_arbiter.m_queue b).length
      = ((rfu.m_arbiter.m_queue b).map fun op => (op.oc_id, op.m_operand)).toFinset.card := by
        rw [List.toFinset_card_of_nodup distinct, List.length_map]
    _ ≤ (Finset.range layout.m_cu_size ×ˢ Finset.range MAX_REG_OPERANDS).card := by
        refine Finset.card_le_card fun place inside => ?_
        obtain ⟨op, queued, rfl⟩ := List.mem_map.mp (List.mem_toFinset.mp inside)
        obtain ⟨busy, few, _⟩ := inv.of_pending (pending op queued)
        exact Finset.mem_product.mpr
          ⟨Finset.mem_range.mpr (inv.in_range _ busy), Finset.mem_range.mpr few⟩
    _ = layout.m_cu_size * MAX_REG_OPERANDS := by simp

/-- An operand that is waited for has been read after so many cycles without a write to its
    bank. -/
theorem read_in_time {num_banks : Nat} (banks : 0 < num_banks)
    (sizes : num_banks ≤ layout.m_cu_size) {before : List Between}
    (reached : (init layout num_banks banks (banks.trans_le sizes)).run layout operands before =
      some rfu) {op : Op} (pending : Pending rfu op) {others : List Between}
    (writes : ∀ other ∈ others, other.m_allocated_bank op.m_bank ≠ .WRITE_ALLOC)
    (enough : layout.m_cu_size * MAX_REG_OPERANDS * layout.m_cu_size ≤ others.length) :
    ∃ rfu' new, rfu.run layout operands others = some rfu' ∧
      rfu'.readFrom op.m_bank = rfu.readFrom op.m_bank ++ new ∧ op ∈ new := by
  obtain ⟨rfu', run', inv, _⟩ := (inv_init layout operands num_banks banks _).run sizes before
  obtain rfl := Option.some.inj (reached.symm.trans run')
  have queued : op ∈ rfu.m_arbiter.m_queue op.m_bank := by simpa using (inv.pending op).mp pending
  obtain ⟨earlier, after, split⟩ := List.append_of_mem queued
  have lt : op.m_bank < num_banks := by
    rw [(inv.of_pending pending).2.2]
    exact Nat.mod_lt _ banks
  obtain ⟨d, below, distance⟩ := inv.first_distance split
  have length : earlier.length + 1 ≤ layout.m_cu_size * MAX_REG_OPERANDS := by
    have length := inv.queue_length op.m_bank
    rw [split, List.length_append, List.length_cons] at length
    omega
  have most := Nat.mul_le_mul_right layout.m_cu_size length
  rw [Nat.succ_mul] at most
  exact inv.readInTime sizes lt writes split distance (by omega)

theorem read_in_time_issued : ∃ rfu rfu' : OpndcollRfu, ∃ new,
    Pending rfu ⟨0, 0, 0, 1⟩ ∧
      rfu.run twoUnits twoOperands (List.replicate 32 issued) = some rfu' ∧
      rfu'.readFrom 1 = rfu.readFrom 1 ++ new ∧ ⟨0, 0, 0, 1⟩ ∈ new := by
  have waiting : ((init twoUnits 2 Nat.two_pos Nat.two_pos).run twoUnits twoOperands
      [issued]).map (fun rfu => (decide (0 ∈ (rfu.m_cu 0).m_not_ready), (rfu.m_cu 0).m_src_op 0)) =
        some (true, some ⟨0, 0, 0, 1⟩) := by
    decide +kernel
  obtain ⟨rfu, reached, waiting⟩ := Option.map_eq_some_iff.mp waiting
  obtain ⟨not_ready, src_op⟩ := Prod.mk.inj waiting
  have pending : Pending rfu ⟨0, 0, 0, 1⟩ := ⟨of_decide_eq_true not_ready, src_op⟩
  have read : ∃ rfu' new, rfu.run twoUnits twoOperands (List.replicate 32 issued) = some rfu' ∧
      rfu'.readFrom 1 = rfu.readFrom 1 ++ new ∧ ⟨0, 0, 0, 1⟩ ∈ new := by
    refine read_in_time Nat.two_pos (Nat.le_refl 2) reached pending (fun other inside => ?_) ?_
    · rw [List.eq_of_mem_replicate inside]
      nofun
    · rw [List.length_replicate]
      decide
  obtain ⟨rfu', new, run, readFrom, inside⟩ := read
  exact ⟨rfu, rfu', new, pending, run, readFrom, inside⟩

end OpndcollRfu

end AesOnGpu.OperandCollector
