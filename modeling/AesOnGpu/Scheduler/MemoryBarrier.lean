import AesOnGpu.Scheduler.Scoreboard

/-! # Memory barriers

`warp_waiting_at_mem_barrier` lets a warp go on when the scoreboard has no pending write of it.  A
load has its destinations there until all of its accesses are back.  A store has none: its
accesses are counted in `m_stores_outstanding`, which `hardware_done` looks at and the barrier does
not.
-/

namespace AesOnGpu.Scheduler.MemoryBarrier

variable {n_warps : Nat}

inductive OpType where
  | LOAD_OP
  | STORE_OP
  | MEMORY_BARRIER_OP
  /-- Any other. -/
  | ALU_OP
  deriving DecidableEq

/-- A `warp_inst_t`.  Atomics are loads, and `pre_decode` finds no destination in a store. -/
structure Inst (n_warps : Nat) extends WarpInst n_warps where
  op : OpType
  isatomic : Bool
  store_out : op = .STORE_OP → toWarpInst.registers = []

structure Warp where
  m_membar : Bool
  m_n_atomic : Nat
  m_stores_outstanding : Nat
  m_dynamic_warp_id : Nat

namespace Warp

/-- The constructor of `shd_warp_t`. -/
def new : Warp := ⟨false, 0, 0, 2 ^ 32 - 1⟩

def set_membar (warp : Warp) : Warp := { warp with m_membar := true }

def clear_membar (warp : Warp) : Warp := { warp with m_membar := false }

/-- `inc_n_atomic` for each lane. -/
def inc_n_atomic (lanes : Nat) (warp : Warp) : Warp :=
  { warp with m_n_atomic := warp.m_n_atomic + lanes }

def dec_n_atomic (n : Nat) (warp : Warp) : Warp := { warp with m_n_atomic := warp.m_n_atomic - n }

def inc_store_req (warp : Warp) : Warp :=
  { warp with m_stores_outstanding := warp.m_stores_outstanding + 1 }

def dec_store_req (warp : Warp) : Warp :=
  { warp with m_stores_outstanding := warp.m_stores_outstanding - 1 }

/-- `reset` and `init` for another warp of threads. -/
def init (dynamic_warp_id : Nat) (warp : Warp) : Warp :=
  ⟨false, 0, warp.m_stores_outstanding, dynamic_warp_id⟩

end Warp

/-- An instruction in flight: its number, the destinations that have not been released, and how
    many of its accesses are in `m_accessq` and how many have been sent and not answered. -/
structure InFlight (n_warps : Nat) where
  inst : Inst n_warps
  dynamic_warp_id : Nat
  number : Nat
  held : Finset Nat
  queued : Nat
  sent : Nat

namespace InFlight

def send (flight : InFlight n_warps) : InFlight n_warps :=
  { flight with queued := flight.queued - 1, sent := flight.sent + 1 }

def absorb (flight : InFlight n_warps) : InFlight n_warps :=
  { flight with queued := flight.queued - 1 }

def answer (flight : InFlight n_warps) : InFlight n_warps := { flight with sent := flight.sent - 1 }

def release (r : Nat) (flight : InFlight n_warps) : InFlight n_warps :=
  { flight with held := flight.held.erase r }

def flight (flight : InFlight n_warps) : Scoreboard.Flight n_warps :=
  ⟨flight.inst.toWarpInst, flight.held⟩

end InFlight

/-- A core, with the number of instructions it has issued and, for each warp, the number of its
    last `membar`. -/
structure Core (n_warps : Nat) where
  m_warp : Fin n_warps → Warp
  m_scoreboard : Scoreboard n_warps
  flights : Multiset (InFlight n_warps)
  issued : Nat
  membarAt : Fin n_warps → Option Nat

namespace Core

def new (n_warps : Nat) : Core n_warps :=
  ⟨fun _ => .new, .new n_warps, 0, 0, fun _ => none⟩

def modifyWarp (core : Core n_warps) (w : Fin n_warps) (f : Warp → Warp) : Core n_warps :=
  { core with m_warp := Function.update core.m_warp w (f (core.m_warp w)) }

def warp_waiting_at_mem_barrier (core : Core n_warps) (w : Fin n_warps) : Bool × Core n_warps :=
  if !(core.m_warp w).m_membar then (false, core)
  else if !core.m_scoreboard.pendingWrites w then (false, core.modifyWarp w Warp.clear_membar)
  else (true, core)

/-- `shd_warp_t::waiting`.  Threads and CTA barriers are elsewhere. -/
def waiting (core : Core n_warps) (w : Fin n_warps) (functional_done at_barrier : Bool) :
    Bool × Core n_warps :=
  if functional_done then (true, core)
  else if at_barrier then (true, core)
  else
    let (mem_barrier, core) := core.warp_waiting_at_mem_barrier w
    if mem_barrier then (true, core)
    else if (core.m_warp w).m_n_atomic > 0 then (true, core)
    else (false, core)

/-- What the functional execution changes. -/
def func_exec_inst (core : Core n_warps) (inst : Inst n_warps) (lanes : Nat) : Core n_warps :=
  if inst.isatomic then core.modifyWarp inst.warp_id (Warp.inc_n_atomic lanes) else core

/-- The branch of `issue_warp` for `MEMORY_BARRIER_OP`. -/
def memory_barrier (core : Core n_warps) (inst : Inst n_warps) : Core n_warps :=
  if inst.op = .MEMORY_BARRIER_OP then
    { core.modifyWarp inst.warp_id Warp.set_membar with
      membarAt := Function.update core.membarAt inst.warp_id (some core.issued) }
  else core

/-- `accesses` is what `generate_mem_accesses` makes of the addresses of a load or store. -/
def issue_warp (core : Core n_warps) (inst : Inst n_warps) (accesses lanes : Nat) :
    Option (Core n_warps) := do
  let queued := if inst.op = .LOAD_OP ∨ inst.op = .STORE_OP then accesses else 0
  let core := (core.func_exec_inst inst lanes).memory_barrier inst
  let scoreboard ← core.m_scoreboard.reserveRegisters inst.toWarpInst
  let flight : InFlight n_warps := ⟨inst, (core.m_warp inst.warp_id).m_dynamic_warp_id,
    core.issued, inst.registers.toFinset, queued, 0⟩
  return { core with
    m_scoreboard := scoreboard, flights := flight ::ₘ core.flights, issued := core.issued + 1 }

def countStore (core : Core n_warps) (flight : InFlight n_warps) (f : Warp → Warp) :
    Core n_warps :=
  if flight.inst.op = .STORE_OP then core.modifyWarp flight.inst.warp_id f else core

/-- An access leaves the load/store unit. -/
def send (core : Core n_warps) (flight : InFlight n_warps) (rest : Multiset (InFlight n_warps)) :
    Core n_warps :=
  { core.countStore flight Warp.inc_store_req with flights := flight.send ::ₘ rest }

/-- An answer comes back, which for a store is `store_ack`. -/
def answer (core : Core n_warps) (flight : InFlight n_warps) (rest : Multiset (InFlight n_warps)) :
    Core n_warps :=
  { core.countStore flight Warp.dec_store_req with flights := flight.answer ::ₘ rest }

end Core

inductive Event (n_warps : Nat) where
  | waiting (w : Fin n_warps) (functional_done at_barrier : Bool)
  | issue_warp (inst : Inst n_warps) (accesses lanes : Nat)
  | send (flight : InFlight n_warps)
  | absorb (flight : InFlight n_warps)
  | answer (flight : InFlight n_warps)
  | releaseRegister (flight : InFlight n_warps) (r : Nat)
  | releaseRegisters (flight : InFlight n_warps)
  | finish (flight : InFlight n_warps)
  | decrement_atomic_count (w : Fin n_warps) (n : Nat)
  | init (w : Fin n_warps) (dynamic_warp_id : Nat)

inductive Step : Core n_warps → Event n_warps → Core n_warps → Prop
  /-- A scheduler asks, in `order_warps` or in its own loop. -/
  | waiting {core} (w : Fin n_warps) (functional_done at_barrier : Bool) :
      Step core (.waiting w functional_done at_barrier)
        (core.waiting w functional_done at_barrier).2
  /-- `scheduler_unit::cycle` asks before each instruction that it issues. -/
  | issue_warp {core asked core'} (inst : Inst n_warps) (accesses lanes : Nat) :
      core.waiting inst.warp_id false false = (false, asked) →
      asked.m_scoreboard.checkCollision inst.warp_id inst.toWarpInst = false →
      asked.issue_warp inst accesses lanes = some core' →
      Step core (.issue_warp inst accesses lanes) core'
  | send {core flight rest} : core.flights = flight ::ₘ rest → 0 < flight.queued →
      Step core (.send flight) (core.send flight rest)
  /-- A hit, which is answered at once. -/
  | absorb {core flight rest} : core.flights = flight ::ₘ rest → 0 < flight.queued →
      Step core (.absorb flight) { core with flights := flight.absorb ::ₘ rest }
  | answer {core flight rest} : core.flights = flight ::ₘ rest → 0 < flight.sent →
      Step core (.answer flight) (core.answer flight rest)
  /-- `m_pending_writes` reaches 0 with the last access. -/
  | releaseRegister {core flight rest} (r : Nat) : core.flights = flight ::ₘ rest →
      flight.queued = 0 → flight.sent = 0 → r ∈ flight.held →
      Step core (.releaseRegister flight r) { core with
        m_scoreboard := core.m_scoreboard.releaseRegister flight.inst.warp_id r
        flights := flight.release r ::ₘ rest }
  | releaseRegisters {core flight rest} : core.flights = flight ::ₘ rest →
      flight.queued = 0 → flight.sent = 0 → flight.held = flight.inst.registers.toFinset →
      Step core (.releaseRegisters flight) { core with
        m_scoreboard := core.m_scoreboard.releaseRegisters flight.inst.toWarpInst
        flights := rest }
  | finish {core flight rest} : core.flights = flight ::ₘ rest →
      flight.queued = 0 → flight.sent = 0 → flight.held = ∅ →
      Step core (.finish flight) { core with flights := rest }
  | decrement_atomic_count {core} (w : Fin n_warps) (n : Nat) : n ≤ (core.m_warp w).m_n_atomic →
      Step core (.decrement_atomic_count w n) (core.modifyWarp w (Warp.dec_n_atomic n))
  /-- A warp that is `hardware_done` and has no pending write gives its place to another one. -/
  | init {core} (w : Fin n_warps) (dynamic_warp_id : Nat) :
      (core.m_warp w).m_stores_outstanding = 0 → core.m_scoreboard.pendingWrites w = false →
      (∀ flight ∈ core.flights, flight.inst.warp_id = w → flight.queued = 0) →
      Step core (.init w dynamic_warp_id) { core.modifyWarp w (Warp.init dynamic_warp_id) with
        membarAt := Function.update core.membarAt w none }

inductive Run : Core n_warps → List (Core n_warps × Event n_warps) → Prop
  | nil (core : Core n_warps) : Run core []
  | cons {core core' e rest} : Step core e core' → Run core' rest → Run core ((core, e) :: rest)

/-! ## What a barrier is for -/

namespace Core

/-- The warp has issued the instruction before its last `membar`. -/
def Before (core : Core n_warps) (w : Fin n_warps) (flight : InFlight n_warps) : Prop :=
  flight.inst.warp_id = w ∧ flight.dynamic_warp_id = (core.m_warp w).m_dynamic_warp_id ∧
    ∃ number, core.membarAt w = some number ∧ flight.number < number

/-- The loads before the last `membar` of a warp have written back, and the accesses of the stores
    before it have left and are acknowledged. -/
structure Waited (core : Core n_warps) (w : Fin n_warps) : Prop where
  loads : ∀ flight ∈ core.flights, core.Before w flight → flight.inst.op = .LOAD_OP →
    flight.queued = 0 ∧ flight.sent = 0 ∧ flight.held = ∅
  stores : ∀ flight ∈ core.flights, core.Before w flight → flight.inst.op = .STORE_OP →
    flight.queued = 0 ∧ flight.sent = 0

/-- A test of the barrier would open it. -/
def Opens (core : Core n_warps) (w : Fin n_warps) : Prop :=
  (core.m_warp w).m_membar = true ∧ core.m_scoreboard.pendingWrites w = false

end Core

/-- It has accesses that are not done and no destination register to show it. -/
def InFlight.Unseen (flight : InFlight n_warps) : Prop :=
  0 < flight.queued + flight.sent ∧ flight.inst.registers = []

def Event.Tests : Event n_warps → Fin n_warps → Prop
  | waiting w functional_done at_barrier, w' =>
    w' = w ∧ functional_done = false ∧ at_barrier = false
  | issue_warp inst _ _, w' => w' = inst.warp_id
  | _, _ => False

/-- The event opens the barrier of a warp before the accesses are done of a store, or of a load
    without a destination, that stands before the barrier. -/
def Event.OpensEarly (core : Core n_warps) (e : Event n_warps) : Prop :=
  ∃ w, e.Tests w ∧ core.Opens w ∧ ∃ flight ∈ core.flights, core.Before w flight ∧ flight.Unseen

/-! ## What a step does -/

structure InFlight.Progress (flight flight' : InFlight n_warps) : Prop where
  inst : flight'.inst = flight.inst
  dynamic_warp_id : flight'.dynamic_warp_id = flight.dynamic_warp_id
  number : flight'.number = flight.number
  accesses : flight'.queued + flight'.sent ≤ flight.queued + flight.sent
  held : flight'.held = flight.held ∨
    flight'.held ⊆ flight.held ∧ flight'.queued + flight'.sent = 0

namespace InFlight

variable {flight : InFlight n_warps}

theorem Progress.refl (flight : InFlight n_warps) : flight.Progress flight :=
  ⟨rfl, rfl, rfl, le_rfl, Or.inl rfl⟩

theorem progress_send (queued : 0 < flight.queued) : flight.Progress flight.send := by
  refine ⟨rfl, rfl, rfl, ?_, Or.inl rfl⟩
  show flight.queued - 1 + (flight.sent + 1) ≤ _
  omega

theorem progress_absorb : flight.Progress flight.absorb :=
  ⟨rfl, rfl, rfl, Nat.add_le_add_right (Nat.sub_le _ _) _, Or.inl rfl⟩

theorem progress_answer : flight.Progress flight.answer :=
  ⟨rfl, rfl, rfl, Nat.add_le_add_left (Nat.sub_le _ _) _, Or.inl rfl⟩

theorem progress_release {r : Nat} (queued : flight.queued = 0) (sent : flight.sent = 0) :
    flight.Progress (flight.release r) := by
  refine ⟨rfl, rfl, rfl, le_rfl, Or.inr ⟨Finset.erase_subset r flight.held, ?_⟩⟩
  show flight.queued + flight.sent = 0
  rw [queued, sent]

end InFlight

namespace Core

variable {core core' : Core n_warps}

theorem modifyWarp_self (w : Fin n_warps) (f : Warp → Warp) :
    (core.modifyWarp w f).m_warp w = f (core.m_warp w) :=
  Function.update_self _ _ _

theorem modifyWarp_of_ne {w w' : Fin n_warps} (f : Warp → Warp) (other : w' ≠ w) :
    (core.modifyWarp w f).m_warp w' = core.m_warp w' :=
  Function.update_of_ne other _ _

theorem modifyWarp_field {α : Type} (field : Warp → α) (f : Warp → Warp)
    (keeps : ∀ warp, field (f warp) = field warp) (w w' : Fin n_warps) :
    field ((core.modifyWarp w f).m_warp w') = field (core.m_warp w') := by
  by_cases own : w' = w
  · rw [own, modifyWarp_self, keeps]
  · rw [modifyWarp_of_ne f own]

/-- No instruction is issued and no barrier opens. -/
structure Moves (core core' : Core n_warps) : Prop where
  m_membar : ∀ w, (core'.m_warp w).m_membar = (core.m_warp w).m_membar
  m_dynamic_warp_id : ∀ w,
    (core'.m_warp w).m_dynamic_warp_id = (core.m_warp w).m_dynamic_warp_id
  membarAt : core'.membarAt = core.membarAt
  issued : core'.issued = core.issued
  flights : ∀ flight' ∈ core'.flights, ∃ flight ∈ core.flights, flight.Progress flight'

theorem Moves.refl (core : Core n_warps) : core.Moves core :=
  ⟨fun _ => rfl, fun _ => rfl, rfl, rfl, fun flight here => ⟨flight, here, .refl flight⟩⟩

variable {flight flight' : InFlight n_warps} {rest : Multiset (InFlight n_warps)}

theorem flights_progress (split : core.flights = flight ::ₘ rest)
    (progress : flight.Progress flight') :
    ∀ other ∈ flight' ::ₘ rest, ∃ before ∈ core.flights, before.Progress other := by
  intro other here
  rw [split]
  obtain rfl | here := Multiset.mem_cons.mp here
  · exact ⟨flight, Multiset.mem_cons_self _ _, progress⟩
  · exact ⟨other, Multiset.mem_cons_of_mem here, .refl other⟩

theorem flights_leave (split : core.flights = flight ::ₘ rest) :
    ∀ other ∈ rest, ∃ before ∈ core.flights, before.Progress other := by
  intro other here
  rw [split]
  exact ⟨other, Multiset.mem_cons_of_mem here, .refl other⟩

theorem countStore_field {α : Type} (field : Warp → α) (f : Warp → Warp)
    (keeps : ∀ warp, field (f warp) = field warp) (w : Fin n_warps) :
    field ((core.countStore flight f).m_warp w) = field (core.m_warp w) := by
  rw [countStore]
  split
  · exact modifyWarp_field field f keeps _ w
  · rfl

theorem countStore_rest (f : Warp → Warp) :
    core.countStore flight f = { core with m_warp := (core.countStore flight f).m_warp } := by
  rw [countStore]
  split <;> rfl

theorem moves_countStore {f : Warp → Warp} (split : core.flights = flight ::ₘ rest)
    (progress : flight.Progress flight')
    (m_membar : ∀ warp, (f warp).m_membar = warp.m_membar)
    (m_dynamic_warp_id : ∀ warp, (f warp).m_dynamic_warp_id = warp.m_dynamic_warp_id) :
    core.Moves { core.countStore flight f with flights := flight' ::ₘ rest } := by
  have same := @countStore_rest n_warps core flight f
  refine ⟨countStore_field Warp.m_membar f m_membar,
    countStore_field Warp.m_dynamic_warp_id f m_dynamic_warp_id, ?_, ?_,
    flights_progress split progress⟩
  · rw [same]
  · rw [same]

theorem moves_send (split : core.flights = flight ::ₘ rest) (queued : 0 < flight.queued) :
    core.Moves (core.send flight rest) :=
  moves_countStore split (InFlight.progress_send queued) (fun _ => rfl) fun _ => rfl

theorem moves_answer (split : core.flights = flight ::ₘ rest) :
    core.Moves (core.answer flight rest) :=
  moves_countStore split InFlight.progress_answer (fun _ => rfl) fun _ => rfl

theorem barrier_cases (w : Fin n_warps) :
    core.warp_waiting_at_mem_barrier w = (true, core) ∨
      core.warp_waiting_at_mem_barrier w = (false, core) ∧ (core.m_warp w).m_membar = false ∨
      core.warp_waiting_at_mem_barrier w = (false, core.modifyWarp w Warp.clear_membar) ∧
        core.Opens w := by
  rw [warp_waiting_at_mem_barrier]
  cases membar : (core.m_warp w).m_membar with
  | false => exact Or.inr (Or.inl ⟨rfl, rfl⟩)
  | true =>
    cases pending : core.m_scoreboard.pendingWrites w with
    | true => exact Or.inl rfl
    | false => exact Or.inr (Or.inr ⟨rfl, membar, pending⟩)

theorem waiting_snd (w : Fin n_warps) :
    (core.waiting w false false).2 = (core.warp_waiting_at_mem_barrier w).2 := by
  simp only [waiting, Bool.false_eq_true, if_false]
  split
  · rfl
  · split <;> rfl

theorem waiting_cases (w : Fin n_warps) (functional_done at_barrier : Bool) :
    (core.waiting w functional_done at_barrier).2 = core ∨
      functional_done = false ∧ at_barrier = false ∧ core.Opens w ∧
        (core.waiting w functional_done at_barrier).2 = core.modifyWarp w Warp.clear_membar := by
  cases functional_done with
  | true => exact Or.inl rfl
  | false =>
    cases at_barrier with
    | true => exact Or.inl rfl
    | false =>
      rw [waiting_snd]
      obtain holds | ⟨unset, -⟩ | ⟨clears, opens⟩ := core.barrier_cases w
      · exact Or.inl (by rw [holds])
      · exact Or.inl (by rw [unset])
      · exact Or.inr ⟨rfl, rfl, opens, by rw [clears]⟩

theorem open_of_waiting {w : Fin n_warps} {asked : Core n_warps}
    (asks : core.waiting w false false = (false, asked)) : (asked.m_warp w).m_membar = false := by
  have same := core.waiting_snd w
  rw [asks] at same
  dsimp only at same
  rw [same]
  obtain holds | ⟨unset, noBarrier⟩ | ⟨clears, -⟩ := core.barrier_cases w
  · simp only [waiting, holds, Bool.false_eq_true, if_false, if_true] at asks
    cases asks
  · rw [unset]
    exact noBarrier
  · rw [clears, modifyWarp_self]
    rfl

/-- What `issue_warp` does. -/
structure Issued (core : Core n_warps) (inst : Inst n_warps) (core' : Core n_warps) : Prop where
  scoreboard : core.m_scoreboard.reserveRegisters inst.toWarpInst = some core'.m_scoreboard
  flights : ∃ queued, core'.flights = ⟨inst, (core.m_warp inst.warp_id).m_dynamic_warp_id,
    core.issued, inst.registers.toFinset, queued, 0⟩ ::ₘ core.flights
  issued : core'.issued = core.issued + 1
  membarAt : core'.membarAt = if inst.op = .MEMORY_BARRIER_OP then
    Function.update core.membarAt inst.warp_id (some core.issued) else core.membarAt
  m_membar : ∀ w, (core'.m_warp w).m_membar = true ↔
    (core.m_warp w).m_membar = true ∨ inst.op = .MEMORY_BARRIER_OP ∧ w = inst.warp_id
  m_dynamic_warp_id : ∀ w,
    (core'.m_warp w).m_dynamic_warp_id = (core.m_warp w).m_dynamic_warp_id
  m_stores_outstanding : ∀ w,
    (core'.m_warp w).m_stores_outstanding = (core.m_warp w).m_stores_outstanding

theorem func_exec_inst_field {α : Type} (field : Warp → α) (inst : Inst n_warps) (lanes : Nat)
    (keeps : ∀ warp, field (Warp.inc_n_atomic lanes warp) = field warp) (w : Fin n_warps) :
    field ((core.func_exec_inst inst lanes).m_warp w) = field (core.m_warp w) := by
  rw [func_exec_inst]
  split
  · exact modifyWarp_field field _ keeps _ w
  · rfl

theorem memory_barrier_field {α : Type} (field : Warp → α) (inst : Inst n_warps)
    (keeps : ∀ warp, field (Warp.set_membar warp) = field warp) (w : Fin n_warps) :
    field ((core.memory_barrier inst).m_warp w) = field (core.m_warp w) := by
  rw [memory_barrier]
  split
  · exact modifyWarp_field field _ keeps _ w
  · rfl

theorem memory_barrier_m_membar (inst : Inst n_warps) (w : Fin n_warps) :
    ((core.memory_barrier inst).m_warp w).m_membar = true ↔
      (core.m_warp w).m_membar = true ∨ inst.op = .MEMORY_BARRIER_OP ∧ w = inst.warp_id := by
  rw [memory_barrier]
  split
  · rename_i barrier
    by_cases own : w = inst.warp_id
    · rw [own]
      exact iff_of_true (congrArg Warp.m_membar (core.modifyWarp_self _ _))
        (Or.inr ⟨barrier, rfl⟩)
    · have same := congrArg Warp.m_membar (core.modifyWarp_of_ne Warp.set_membar own)
      simp only [own, and_false, or_false]
      rw [same]
  · rename_i other
    simp only [other, false_and, or_false]

theorem memory_barrier_rest (inst : Inst n_warps) (lanes : Nat) :
    (core.func_exec_inst inst lanes).memory_barrier inst =
      { core with
        m_warp := ((core.func_exec_inst inst lanes).memory_barrier inst).m_warp
        membarAt := if inst.op = .MEMORY_BARRIER_OP then
          Function.update core.membarAt inst.warp_id (some core.issued) else core.membarAt } := by
  rw [func_exec_inst, memory_barrier]
  split <;> split <;> rfl

theorem issued_of_issue_warp {inst : Inst n_warps} {accesses lanes : Nat}
    (run : core.issue_warp inst accesses lanes = some core') : core.Issued inst core' := by
  rw [issue_warp] at run
  obtain ⟨scoreboard, reserved, built⟩ := Option.bind_eq_some_iff.mp run
  obtain rfl := Option.some.inj built
  have rest := core.memory_barrier_rest inst lanes
  have dynamic : ∀ w, (((core.func_exec_inst inst lanes).memory_barrier inst).m_warp
      w).m_dynamic_warp_id = (core.m_warp w).m_dynamic_warp_id := by
    intro w
    rw [memory_barrier_field Warp.m_dynamic_warp_id inst (fun _ => rfl),
      func_exec_inst_field Warp.m_dynamic_warp_id inst lanes (fun _ => rfl)]
  refine ⟨?_, ?_, ?_, ?_, fun w => ?_, dynamic, fun w => ?_⟩
  · rw [rest] at reserved
    exact reserved
  · refine ⟨if inst.op = .LOAD_OP ∨ inst.op = .STORE_OP then accesses else 0, ?_⟩
    dsimp only
    rw [dynamic inst.warp_id, rest]
  · dsimp only
    rw [rest]
  · dsimp only
    rw [rest]
  · dsimp only
    rw [memory_barrier_m_membar, func_exec_inst_field Warp.m_membar inst lanes (fun _ => rfl)]
  · dsimp only
    rw [memory_barrier_field Warp.m_stores_outstanding inst (fun _ => rfl),
      func_exec_inst_field Warp.m_stores_outstanding inst lanes (fun _ => rfl)]

end Core

theorem Step.cases {core core' : Core n_warps} {e : Event n_warps} (step : Step core e core') :
    core.Moves core' ∨
      (∃ w, e.Tests w ∧ core.Opens w ∧ core' = core.modifyWarp w Warp.clear_membar) ∨
      (∃ inst accesses lanes asked, e = .issue_warp inst accesses lanes ∧
        (asked = core ∨
          core.Opens inst.warp_id ∧ asked = core.modifyWarp inst.warp_id Warp.clear_membar) ∧
        (asked.m_warp inst.warp_id).m_membar = false ∧ asked.Issued inst core') ∨
      ∃ w dynamic_warp_id, core' = { core.modifyWarp w (Warp.init dynamic_warp_id) with
        membarAt := Function.update core.membarAt w none } := by
  cases step with
  | waiting w functional_done at_barrier =>
    obtain same | ⟨functional, barrier, opens, clears⟩ :=
      core.waiting_cases w functional_done at_barrier
    · rw [same]
      exact Or.inl (.refl core)
    · exact Or.inr (Or.inl ⟨w, ⟨rfl, functional, barrier⟩, opens, clears⟩)
  | issue_warp inst accesses lanes asks clear run =>
    -- The scheduler has asked in the same step, and this may have opened the barrier.
    rename_i asked
    have noBarrier := Core.open_of_waiting asks
    have cases := core.waiting_cases inst.warp_id false false
    rw [asks] at cases
    refine Or.inr (Or.inr (Or.inl ⟨inst, accesses, lanes, asked, rfl, ?_, noBarrier,
      Core.issued_of_issue_warp run⟩))
    exact cases.imp_right fun opened => ⟨opened.2.2.1, opened.2.2.2⟩
  | send split queued => exact Or.inl (Core.moves_send split queued)
  | absorb split queued =>
    exact Or.inl ⟨fun _ => rfl, fun _ => rfl, rfl, rfl,
      Core.flights_progress split InFlight.progress_absorb⟩
  | answer split sent => exact Or.inl (Core.moves_answer split)
  | releaseRegister r split queued sent here =>
    exact Or.inl ⟨fun _ => rfl, fun _ => rfl, rfl, rfl,
      Core.flights_progress split (InFlight.progress_release queued sent)⟩
  | releaseRegisters split queued sent whole =>
    exact Or.inl ⟨fun _ => rfl, fun _ => rfl, rfl, rfl, Core.flights_leave split⟩
  | finish split queued sent empty =>
    exact Or.inl ⟨fun _ => rfl, fun _ => rfl, rfl, rfl, Core.flights_leave split⟩
  | decrement_atomic_count w n enough =>
    exact Or.inl ⟨Core.modifyWarp_field Warp.m_membar (Warp.dec_n_atomic n) (fun _ => rfl) w,
      Core.modifyWarp_field Warp.m_dynamic_warp_id (Warp.dec_n_atomic n) (fun _ => rfl) w, rfl, rfl,
      fun flight here => ⟨flight, here, .refl flight⟩⟩
  | init w dynamic_warp_id stores pending queued =>
    exact Or.inr (Or.inr (Or.inr ⟨w, dynamic_warp_id, rfl⟩))

/-! ## The invariant -/

/-- The accesses of stores of a warp that have left and are not acknowledged. -/
def Core.outstanding (core : Core n_warps) (w : Fin n_warps) : Nat :=
  (core.flights.map fun flight =>
    if flight.inst.warp_id = w ∧ flight.inst.op = .STORE_OP then flight.sent else 0).sum

/-- The scoreboard has what the flights hold; a flight with accesses holds all of its registers;
    and `m_stores_outstanding` counts the accesses of stores. -/
structure Inv (core : Core n_warps) : Prop where
  reaches : Scoreboard.Reaches core.m_scoreboard (core.flights.map InFlight.flight)
  whole : ∀ flight ∈ core.flights, 0 < flight.queued + flight.sent →
    flight.held = flight.inst.registers.toFinset
  earlier : ∀ w number, core.membarAt w = some number → number < core.issued
  stores : ∀ w, (core.m_warp w).m_stores_outstanding = core.outstanding w

/-- While a warp has no barrier, the flights from before its last one are `Good`. -/
def Guarded (Good : InFlight n_warps → Prop) (core : Core n_warps) : Prop :=
  ∀ w, (core.m_warp w).m_membar = false → ∀ flight ∈ core.flights, core.Before w flight →
    Good flight

variable {core core' : Core n_warps} {e : Event n_warps}

theorem inv_new (n_warps : Nat) : Inv (Core.new n_warps) where
  reaches := .new
  whole flight here := (Multiset.notMem_zero flight here).elim
  earlier w number here := by cases here
  stores w := rfl

theorem InFlight.Progress.whole {flight flight' : InFlight n_warps}
    (progress : flight.Progress flight')
    (whole : 0 < flight.queued + flight.sent → flight.held = flight.inst.registers.toFinset)
    (left : 0 < flight'.queued + flight'.sent) :
    flight'.held = flight'.inst.registers.toFinset := by
  have accesses := progress.accesses
  obtain same | ⟨-, none⟩ := progress.held
  · rw [same, progress.inst]
    exact whole (by omega)
  · omega

structure Core.Alike (core core' : Core n_warps) : Prop where
  scoreboard : core'.m_scoreboard = core.m_scoreboard
  flights : core'.flights = core.flights
  membarAt : core'.membarAt = core.membarAt
  issued : core'.issued = core.issued
  stores : ∀ w, (core'.m_warp w).m_stores_outstanding = (core.m_warp w).m_stores_outstanding

theorem Core.alike_clear (core : Core n_warps) (w : Fin n_warps) :
    core.Alike (core.modifyWarp w Warp.clear_membar) :=
  ⟨rfl, rfl, rfl, rfl,
    Core.modifyWarp_field Warp.m_stores_outstanding Warp.clear_membar (fun _ => rfl) w⟩

theorem Core.alike_waiting (core : Core n_warps) (w : Fin n_warps)
    (functional_done at_barrier : Bool) :
    core.Alike (core.waiting w functional_done at_barrier).2 := by
  obtain same | ⟨-, -, -, clears⟩ := core.waiting_cases w functional_done at_barrier
  · rw [same]
    exact ⟨rfl, rfl, rfl, rfl, fun _ => rfl⟩
  · rw [clears]
    exact core.alike_clear w

theorem Inv.alike (inv : Inv core) (alike : core.Alike core') : Inv core' where
  reaches := by
    rw [alike.scoreboard, alike.flights]
    exact inv.reaches
  whole := by
    rw [alike.flights]
    exact inv.whole
  earlier := by
    rw [alike.membarAt, alike.issued]
    exact inv.earlier
  stores w := by
    rw [alike.stores, Core.outstanding, alike.flights]
    exact inv.stores w

/-- What a flight counts for `m_stores_outstanding` of a warp. -/
def InFlight.counts (w : Fin n_warps) (flight : InFlight n_warps) : Nat :=
  if flight.inst.warp_id = w ∧ flight.inst.op = .STORE_OP then flight.sent else 0

theorem Core.outstanding_cons {flight : InFlight n_warps} {rest : Multiset (InFlight n_warps)}
    (split : core.flights = flight ::ₘ rest) (w : Fin n_warps) :
    core.outstanding w = flight.counts w + (rest.map (InFlight.counts w)).sum := by
  rw [outstanding, split, Multiset.map_cons, Multiset.sum_cons]
  rfl

theorem Inv.issued {inst : Inst n_warps} (inv : Inv core) (issued : core.Issued inst core')
    (clear : core.m_scoreboard.checkCollision inst.warp_id inst.toWarpInst = false) :
    Inv core' := by
  obtain ⟨queued, flights⟩ := issued.flights
  constructor
  · rw [flights, Multiset.map_cons]
    exact .issue inst.toWarpInst inv.reaches clear issued.scoreboard
  · intro flight here left
    rw [flights] at here
    obtain rfl | here := Multiset.mem_cons.mp here
    · rfl
    · exact inv.whole flight here left
  · intro w number here
    rw [issued.issued]
    rw [issued.membarAt] at here
    split at here
    · rw [Function.update_apply] at here
      split at here
      · -- A new barrier has the number of this instruction.
        rw [← Option.some.inj here]
        exact Nat.lt_succ_self _
      · exact (inv.earlier w number here).trans (Nat.lt_succ_self _)
    · exact (inv.earlier w number here).trans (Nat.lt_succ_self _)
  · intro w
    rw [issued.m_stores_outstanding, inv.stores, Core.outstanding_cons flights, InFlight.counts,
      ite_self, Nat.zero_add]
    rfl

theorem Inv.moves (inv : Inv core) (moves : core.Moves core')
    (reaches : Scoreboard.Reaches core'.m_scoreboard (core'.flights.map InFlight.flight))
    (stores : ∀ w, (core'.m_warp w).m_stores_outstanding = core'.outstanding w) : Inv core' where
  reaches := reaches
  whole flight' here left := by
    obtain ⟨flight, before, progress⟩ := moves.flights flight' here
    exact progress.whole (inv.whole flight before) left
  earlier := by
    rw [moves.membarAt, moves.issued]
    exact inv.earlier
  stores := stores

namespace Core

variable {flight flight' : InFlight n_warps} {rest : Multiset (InFlight n_warps)}

theorem map_flight (split : core.flights = flight ::ₘ rest)
    (same : flight'.flight = flight.flight) :
    (flight' ::ₘ rest).map InFlight.flight = core.flights.map InFlight.flight := by
  rw [split, Multiset.map_cons, Multiset.map_cons, same]

theorem countStore_stores (f : Warp → Warp) (w : Fin n_warps) :
    ((core.countStore flight f).m_warp w).m_stores_outstanding =
      if flight.inst.warp_id = w ∧ flight.inst.op = .STORE_OP then
        (f (core.m_warp w)).m_stores_outstanding
      else (core.m_warp w).m_stores_outstanding := by
  rw [countStore]
  by_cases store : flight.inst.op = .STORE_OP
  · simp only [store, if_true, and_true]
    by_cases own : flight.inst.warp_id = w
    · rw [← own, modifyWarp_self, if_pos rfl]
    · rw [modifyWarp_of_ne _ (Ne.symm own), if_neg own]
  · simp only [store, if_false, and_false]

theorem stores_cons (inv : Inv core) (split : core.flights = flight ::ₘ rest) (w : Fin n_warps) :
    (core.m_warp w).m_stores_outstanding =
      flight.counts w + (rest.map (InFlight.counts w)).sum :=
  (inv.stores w).trans (outstanding_cons split w)

theorem outstanding_count (inv : Inv core) (split : core.flights = flight ::ₘ rest)
    (changed : InFlight n_warps) (inst : changed.inst = flight.inst) (f : Warp → Warp)
    (together : ∀ (warp : Warp) others, warp.m_stores_outstanding = flight.sent + others →
      (f warp).m_stores_outstanding = changed.sent + others) (w : Fin n_warps) :
    ((core.countStore flight f).m_warp w).m_stores_outstanding =
      changed.counts w + (rest.map (InFlight.counts w)).sum := by
  have before := stores_cons inv split w
  rw [countStore_stores, InFlight.counts, inst]
  rw [InFlight.counts] at before
  by_cases own : flight.inst.warp_id = w ∧ flight.inst.op = .STORE_OP
  · rw [if_pos own] at before ⊢
    rw [if_pos own]
    exact together _ _ before
  · rw [if_neg own] at before ⊢
    rw [if_neg own]
    exact before

theorem outstanding_same (inv : Inv core) (split : core.flights = flight ::ₘ rest)
    (changed : InFlight n_warps) (w : Fin n_warps) (same : changed.counts w = flight.counts w) :
    (core.m_warp w).m_stores_outstanding =
      ((changed ::ₘ rest).map (InFlight.counts w)).sum := by
  rw [stores_cons inv split, Multiset.map_cons, Multiset.sum_cons, same]

theorem outstanding_leave (inv : Inv core) (split : core.flights = flight ::ₘ rest)
    (sent : flight.sent = 0) (w : Fin n_warps) :
    (core.m_warp w).m_stores_outstanding = (rest.map (InFlight.counts w)).sum := by
  rw [stores_cons inv split, InFlight.counts, sent, ite_self, Nat.zero_add]

end Core

theorem Step.inv (step : Step core e core') (inv : Inv core) : Inv core' := by
  cases step with
  | waiting w functional_done at_barrier =>
    exact inv.alike (core.alike_waiting w functional_done at_barrier)
  | issue_warp inst accesses lanes asks clear run =>
    have alike := core.alike_waiting inst.warp_id false false
    rw [asks] at alike
    exact (inv.alike alike).issued (Core.issued_of_issue_warp run) clear
  | @send flight rest split queued =>
    refine inv.moves (Core.moves_send split queued) ?_ fun w => ?_
    · rw [Core.send, Core.countStore_rest]
      dsimp only
      rw [Core.map_flight split (show flight.send.flight = flight.flight from rfl)]
      exact inv.reaches
    · -- `inc_store_req` counts the access that `send` moves out of the queue.
      have after : (core.send flight rest).flights = flight.send ::ₘ rest := rfl
      rw [Core.outstanding_cons after]
      refine Core.outstanding_count inv split flight.send rfl _ (fun warp others count => ?_) w
      show warp.m_stores_outstanding + 1 = flight.sent + 1 + others
      omega
  | @absorb flight rest split queued =>
    refine inv.moves ⟨fun _ => rfl, fun _ => rfl, rfl, rfl,
      Core.flights_progress split InFlight.progress_absorb⟩ ?_ fun w => ?_
    · dsimp only
      rw [Core.map_flight split (show flight.absorb.flight = flight.flight from rfl)]
      exact inv.reaches
    · exact Core.outstanding_same inv split flight.absorb w rfl
  | @answer flight rest split sent =>
    refine inv.moves (Core.moves_answer split) ?_ fun w => ?_
    · rw [Core.answer, Core.countStore_rest]
      dsimp only
      rw [Core.map_flight split (show flight.answer.flight = flight.flight from rfl)]
      exact inv.reaches
    · -- The access was counted, so that `dec_store_req` has something to take off.
      have after : (core.answer flight rest).flights = flight.answer ::ₘ rest := rfl
      rw [Core.outstanding_cons after]
      refine Core.outstanding_count inv split flight.answer rfl _ (fun warp others count => ?_) w
      show warp.m_stores_outstanding - 1 = flight.sent - 1 + others
      omega
  | @releaseRegister flight rest r split queued sent here =>
    refine inv.moves ⟨fun _ => rfl, fun _ => rfl, rfl, rfl,
      Core.flights_progress split (InFlight.progress_release queued sent)⟩ ?_ fun w => ?_
    · have reaches := inv.reaches
      rw [split, Multiset.map_cons] at reaches
      dsimp only
      rw [Multiset.map_cons]
      exact .release reaches here
    · exact Core.outstanding_same inv split (flight.release r) w rfl
  | @releaseRegisters flight rest split queued sent whole =>
    refine inv.moves ⟨fun _ => rfl, fun _ => rfl, rfl, rfl, Core.flights_leave split⟩ ?_
      fun w => Core.outstanding_leave inv split sent w
    have reaches := inv.reaches
    rw [split, Multiset.map_cons, InFlight.flight, whole] at reaches
    exact .complete reaches
  | @finish flight rest split queued sent empty =>
    refine inv.moves ⟨fun _ => rfl, fun _ => rfl, rfl, rfl, Core.flights_leave split⟩ ?_
      fun w => Core.outstanding_leave inv split sent w
    have reaches := inv.reaches
    rw [split, Multiset.map_cons, InFlight.flight, empty] at reaches
    exact .finish reaches
  | decrement_atomic_count w n enough =>
    exact inv.alike ⟨rfl, rfl, rfl, rfl,
      Core.modifyWarp_field Warp.m_stores_outstanding (Warp.dec_n_atomic n) (fun _ => rfl) w⟩
  | init w dynamic_warp_id stores pending queued =>
    -- `reset` asserts that no store is outstanding, and leaves the count as it is.
    refine ⟨inv.reaches, inv.whole, fun w' number here => ?_, fun w' => ?_⟩
    · dsimp only at here
      rw [Function.update_apply] at here
      split at here
      · cases here
      · exact inv.earlier w' number here
    · have same : ((core.modifyWarp w (Warp.init dynamic_warp_id)).m_warp w').m_stores_outstanding =
          (core.m_warp w').m_stores_outstanding :=
        Core.modifyWarp_field Warp.m_stores_outstanding (Warp.init dynamic_warp_id)
          (fun _ => rfl) w w'
      exact same.trans (inv.stores w')

/-! ## The flights before a barrier -/

/-- A flight stays `Good` on its way. -/
def Stable (Good : InFlight n_warps → Prop) : Prop :=
  ∀ flight flight', flight.Progress flight' → Good flight → Good flight'

/-- When the barrier of the warp opens, the flights from before it are `Good`. -/
def Core.GoodBefore (core : Core n_warps) (Good : InFlight n_warps → Prop) (w : Fin n_warps) :
    Prop :=
  ∀ flight ∈ core.flights, core.Before w flight → Good flight

variable {Good : InFlight n_warps → Prop}

theorem guarded_new (Good : InFlight n_warps → Prop) : Guarded Good (Core.new n_warps) := by
  intro w _ flight here
  exact (Multiset.notMem_zero flight here).elim

theorem before_congr {w : Fin n_warps} {flight flight' : InFlight n_warps}
    (inst : flight'.inst = flight.inst)
    (dynamic : flight'.dynamic_warp_id = flight.dynamic_warp_id)
    (number : flight'.number = flight.number)
    (m_dynamic_warp_id : (core'.m_warp w).m_dynamic_warp_id = (core.m_warp w).m_dynamic_warp_id)
    (membarAt : core'.membarAt w = core.membarAt w) :
    core'.Before w flight' ↔ core.Before w flight := by
  rw [Core.Before, Core.Before, inst, dynamic, number, m_dynamic_warp_id, membarAt]

theorem Guarded.moves (guarded : Guarded Good core) (stable : Stable Good)
    (moves : core.Moves core') : Guarded Good core' := by
  intro w noBarrier flight' here before
  rw [moves.m_membar] at noBarrier
  obtain ⟨flight, wasHere, progress⟩ := moves.flights flight' here
  have wasBefore : core.Before w flight :=
    (before_congr progress.inst progress.dynamic_warp_id progress.number
      (moves.m_dynamic_warp_id w) (congrFun moves.membarAt w)).mp before
  exact stable flight flight' progress (guarded w noBarrier flight wasHere wasBefore)

theorem before_clear {w w' : Fin n_warps} {flight : InFlight n_warps} :
    (core.modifyWarp w Warp.clear_membar).Before w' flight ↔ core.Before w' flight :=
  before_congr rfl rfl rfl
    (Core.modifyWarp_field Warp.m_dynamic_warp_id Warp.clear_membar (fun _ => rfl) w w') rfl

theorem Guarded.opens {w : Fin n_warps} (guarded : Guarded Good core)
    (good : core.GoodBefore Good w) : Guarded Good (core.modifyWarp w Warp.clear_membar) := by
  intro w' noBarrier flight here before
  rw [before_clear] at before
  by_cases own : w' = w
  · exact good flight here (own ▸ before)
  · rw [Core.modifyWarp_of_ne _ own] at noBarrier
    exact guarded w' noBarrier flight here before

theorem Guarded.issued {inst : Inst n_warps} (guarded : Guarded Good core) (inv : Inv core)
    (issued : core.Issued inst core') : Guarded Good core' := by
  intro w noBarrier flight here before
  have held : ¬ (core'.m_warp w).m_membar = true := by simp [noBarrier]
  rw [issued.m_membar, not_or] at held
  have membarAt : core'.membarAt w = core.membarAt w := by
    rw [issued.membarAt]
    split
    · rename_i barrier
      exact Function.update_of_ne (fun own => held.2 ⟨barrier, own⟩) _ _
    · rfl
  have wasBefore := (before_congr rfl rfl rfl (issued.m_dynamic_warp_id w) membarAt).mp before
  obtain ⟨queued, flights⟩ := issued.flights
  rw [flights] at here
  obtain rfl | wasHere := Multiset.mem_cons.mp here
  · -- Its number is above that of every barrier so far.
    obtain ⟨-, -, number, last, early⟩ := wasBefore
    exact absurd early (inv.earlier w number last).asymm
  · exact guarded w (Bool.eq_false_iff.mpr held.1) flight wasHere wasBefore

theorem Guarded.init {w : Fin n_warps} {dynamic_warp_id : Nat} (guarded : Guarded Good core) :
    Guarded Good { core.modifyWarp w (Warp.init dynamic_warp_id) with
      membarAt := Function.update core.membarAt w none } := by
  intro w' noBarrier flight here before
  by_cases own : w' = w
  · -- The threads that are new on this warp have not issued a barrier.
    obtain ⟨-, -, number, last, -⟩ := before
    dsimp only at last
    rw [own, Function.update_self] at last
    cases last
  · have same := core.modifyWarp_of_ne (Warp.init dynamic_warp_id) own
    dsimp only at noBarrier here
    rw [same] at noBarrier
    rw [Core.Before] at before
    dsimp only at before
    rw [same, Function.update_of_ne own] at before
    exact guarded w' noBarrier flight here before

theorem Step.guarded (step : Step core e core') (inv : Inv core) (stable : Stable Good)
    (guarded : Guarded Good core)
    (good : ∀ w, e.Tests w → core.Opens w → core.GoodBefore Good w) : Guarded Good core' := by
  obtain moves | ⟨w, tests, opens, rfl⟩ |
    ⟨inst, accesses, lanes, asked, rfl, asks, -, issued⟩ | ⟨w, dynamic_warp_id, rfl⟩ := step.cases
  · exact guarded.moves stable moves
  · exact guarded.opens (good w tests opens)
  · obtain rfl | ⟨opens, rfl⟩ := asks
    · exact guarded.issued inv issued
    · have clears := guarded.opens (good inst.warp_id rfl opens)
      exact clears.issued (inv.alike (core.alike_clear inst.warp_id)) issued
  · exact guarded.init

theorem Step.goodBefore {inst : Inst n_warps} {accesses lanes : Nat}
    (step : Step core (.issue_warp inst accesses lanes) core') (guarded : Guarded Good core)
    (good : core.Opens inst.warp_id → core.GoodBefore Good inst.warp_id) :
    core.GoodBefore Good inst.warp_id := by
  cases step with
  | issue_warp _ _ _ asks clear run =>
    have noBarrier := Core.open_of_waiting asks
    have cases := core.waiting_cases inst.warp_id false false
    rw [asks] at cases
    obtain same | ⟨-, -, opens, -⟩ := cases
    · dsimp only at same
      rw [same] at noBarrier
      exact guarded inst.warp_id noBarrier
    · exact good opens

/-! ## Runs -/

/-- In a run in which the barriers open only when the flights before them are `Good`, an
    instruction is issued only when these are. -/
theorem Run.goodBefore {trace : List (Core n_warps × Event n_warps)} (run : Run core trace)
    (stable : Stable Good) (inv : Inv core) (guarded : Guarded Good core)
    (good : ∀ step ∈ trace, Inv step.1 → ∀ w, step.2.Tests w → step.1.Opens w →
      step.1.GoodBefore Good w) :
    ∀ step ∈ trace, ∀ inst accesses lanes, step.2 = .issue_warp inst accesses lanes →
      Inv step.1 ∧ step.1.GoodBefore Good inst.warp_id := by
  induction run with
  | nil core =>
    intro step here
    cases here
  | @cons core core' e rest step _ ih =>
    rw [List.forall_mem_cons] at good
    have goodHere := good.1 inv
    rw [List.forall_mem_cons]
    constructor
    · intro inst accesses lanes isIssue
      dsimp only at isIssue goodHere
      subst isIssue
      exact ⟨inv, step.goodBefore guarded (goodHere inst.warp_id rfl)⟩
    · exact ih (step.inv inv) (step.guarded inv stable guarded goodHere) good.2

theorem released_of_opens {w : Fin n_warps} (inv : Inv core) (opens : core.Opens w) :
    core.GoodBefore (fun flight => flight.held = ∅) w := by
  intro flight here before
  have empty : core.m_scoreboard.reg_table w = ∅ := by
    by_contra pending
    have pends : core.m_scoreboard.pendingWrites w = true := decide_eq_true pending
    rw [opens.2] at pends
    cases pends
  -- A register that a flight holds is in the table.
  have reserved := (Scoreboard.scoreboard_exact inv.reaches).1
  apply Finset.eq_empty_iff_forall_notMem.mpr
  intro r holds
  have inTable := (reserved w r).mpr
    ⟨flight.flight, Multiset.mem_map_of_mem InFlight.flight here, before.1, holds⟩
  rw [empty] at inTable
  exact Finset.notMem_empty r inTable

theorem stable_released : Stable fun flight : InFlight n_warps => flight.held = ∅ := by
  intro flight flight' progress released
  obtain same | ⟨inside, -⟩ := progress.held
  · exact same.trans released
  · exact Finset.subset_empty.mp (released ▸ inside)

theorem stable_seen :
    Stable fun flight : InFlight n_warps => flight.held = ∅ ∧ ¬ flight.Unseen := by
  intro flight flight' progress good
  refine ⟨stable_released flight flight' progress good.1, fun unseen => good.2 ?_⟩
  refine ⟨unseen.1.trans_le progress.accesses, ?_⟩
  rw [← progress.inst]
  exact unseen.2

theorem done_of_released {flight : InFlight n_warps} (inv : Inv core)
    (here : flight ∈ core.flights) (released : flight.held = ∅) (seen : ¬ flight.Unseen) :
    flight.queued = 0 ∧ flight.sent = 0 := by
  have none : ¬ 0 < flight.queued + flight.sent := by
    intro left
    -- It would still hold all of its registers, so that it has none.
    have whole := inv.whole flight here left
    rw [released, eq_comm, List.toFinset_eq_empty_iff] at whole
    exact seen ⟨left, whole⟩
  omega

/-- In a run in which no barrier opens early, a warp issues an instruction behind a barrier only
    when its loads and stores before the barrier are done. -/
theorem barrier_waits {trace : List (Core n_warps × Event n_warps)}
    (run : Run (Core.new n_warps) trace)
    (timely : ∀ step ∈ trace, ¬ step.2.OpensEarly step.1) :
    ∀ step ∈ trace, ∀ inst accesses lanes, step.2 = .issue_warp inst accesses lanes →
      step.1.Waited inst.warp_id := by
  intro step inTrace inst accesses lanes isIssue
  have good : ∀ step ∈ trace, Inv step.1 → ∀ w, step.2.Tests w → step.1.Opens w →
      step.1.GoodBefore (fun flight => flight.held = ∅ ∧ ¬ flight.Unseen) w := by
    intro step inTrace inv w tests opens flight here before
    exact ⟨released_of_opens inv opens flight here before,
      fun unseen => timely step inTrace ⟨w, tests, opens, flight, here, before, unseen⟩⟩
  obtain ⟨inv, seen⟩ := run.goodBefore stable_seen (inv_new n_warps) (guarded_new _) good step
    inTrace inst accesses lanes isIssue
  constructor
  · intro flight here before _
    obtain ⟨released, notUnseen⟩ := seen flight here before
    obtain ⟨queued, sent⟩ := done_of_released inv here released notUnseen
    exact ⟨queued, sent, released⟩
  · intro flight here before _
    obtain ⟨released, notUnseen⟩ := seen flight here before
    exact done_of_released inv here released notUnseen

/-- `st.global.u32 [%r4], %r3` -/
def globalStore : Inst 1 where
  warp_id := 0
  out := fun _ => 0
  sources := ![3, 0, 0, 0]
  pred := 0
  ar1 := 4
  ar2 := 0
  is_load := false
  space := .global_space
  op := .STORE_OP
  isatomic := false
  store_out _ := rfl

/-- `membar.gl` -/
def membar : Inst 1 where
  warp_id := 0
  out := fun _ => 0
  sources := fun _ => 0
  pred := 0
  ar1 := 0
  ar2 := 0
  is_load := false
  space := .undefined_space
  op := .MEMORY_BARRIER_OP
  isatomic := false
  store_out store := by cases store

def storeFlight : InFlight 1 := ⟨globalStore, 2 ^ 32 - 1, 0, ∅, 1, 0⟩

def membarFlight : InFlight 1 := ⟨membar, 2 ^ 32 - 1, 1, ∅, 0, 0⟩

def stored : Core 1 := ⟨fun _ => .new, .new 1, {storeFlight}, 1, fun _ => none⟩

/-- Its access has left and is counted in `m_stores_outstanding`. -/
def sent : Core 1 := stored.send storeFlight 0

def acknowledged : Core 1 := sent.answer storeFlight.send 0

/-- `core` has issued the barrier behind the store. -/
def fenced (core : Core 1) : Core 1 :=
  { core.modifyWarp 0 Warp.set_membar with
    flights := membarFlight ::ₘ core.flights
    issued := 2
    membarAt := Function.update core.membarAt 0 (some 1) }

theorem step_stored : Step (Core.new 1) (.issue_warp globalStore 1 0) stored :=
  .issue_warp globalStore 1 0 rfl (by decide) rfl

theorem step_sent : Step stored (.send storeFlight) sent :=
  .send (Multiset.cons_zero storeFlight).symm Nat.one_pos

theorem step_acknowledged : Step sent (.answer storeFlight.send) acknowledged :=
  .answer rfl Nat.one_pos

/-- `st`, `membar`, `st`, with an acknowledgement in time. -/
theorem barrier_waits_store : (fenced acknowledged).Waited 0 := by
  have fences : Step acknowledged (.issue_warp membar 0 0) (fenced acknowledged) :=
    .issue_warp membar 0 0 rfl (by decide) rfl
  obtain ⟨last, again⟩ : ∃ last, Step (fenced acknowledged) (.issue_warp globalStore 1 0) last :=
    ⟨_, .issue_warp globalStore 1 0 rfl (by decide) rfl⟩
  have run : Run (Core.new 1) _ := .cons step_stored
    (.cons step_sent (.cons step_acknowledged (.cons fences (.cons again (.nil _)))))
  refine barrier_waits run ?_ (fenced acknowledged, .issue_warp globalStore 1 0) (by simp)
    globalStore 1 0 rfl
  simp only [List.forall_mem_cons, List.not_mem_nil, false_imp_iff, implies_true, and_true]
  refine ⟨?_, ?_, ?_, ?_, ?_⟩
  · rintro ⟨w, -, opens, -⟩
    cases opens.1
  · rintro ⟨w, tests, -⟩
    exact tests
  · rintro ⟨w, tests, -⟩
    exact tests
  · rintro ⟨w, rfl, opens, -⟩
    cases opens.1
  · rintro ⟨w, -, -, flight, here, -, unseen⟩
    have both : flight ∈ membarFlight ::ₘ storeFlight.send.answer ::ₘ 0 := here
    obtain rfl | rfl | none : flight = membarFlight ∨ flight = storeFlight.send.answer ∨
        flight ∈ (0 : Multiset (InFlight 1)) := by simpa using both
    · exact absurd unseen.1 (by decide)
    · exact absurd unseen.1 (by decide)
    · exact Multiset.notMem_zero _ none

/-- `st`, `membar`, `st`: the barrier opens for the second store while the first one is on its
    way. -/
theorem store_not_waited : ¬ ∀ (n_warps : Nat) (trace : List (Core n_warps × Event n_warps)),
    Run (Core.new n_warps) trace → ∀ step ∈ trace, ∀ inst accesses lanes,
      step.2 = .issue_warp inst accesses lanes → step.1.Waited inst.warp_id := by
  intro always
  have fences : Step sent (.issue_warp membar 0 0) (fenced sent) :=
    .issue_warp membar 0 0 rfl (by decide) rfl
  obtain ⟨last, again⟩ : ∃ last, Step (fenced sent) (.issue_warp globalStore 1 0) last :=
    ⟨_, .issue_warp globalStore 1 0 rfl (by decide) rfl⟩
  have run : Run (Core.new 1) _ :=
    .cons step_stored (.cons step_sent (.cons fences (.cons again (.nil _))))
  have waited := always 1 _ run (fenced sent, .issue_warp globalStore 1 0) (by simp) globalStore
    1 0 rfl
  have here : storeFlight.send ∈ membarFlight ::ₘ storeFlight.send ::ₘ 0 :=
    Multiset.mem_cons_of_mem (Multiset.mem_cons_self _ _)
  have before : (fenced sent).Before 0 storeFlight.send := ⟨rfl, rfl, 1, rfl, Nat.one_pos⟩
  have answered := (waited.stores _ here before rfl).2
  cases answered

/-! ## Loads -/

/-- The barrier always waits for the loads that have a destination register. -/
theorem barrier_waits_for_loads {trace : List (Core n_warps × Event n_warps)}
    (run : Run (Core.new n_warps) trace) {step : Core n_warps × Event n_warps}
    (inTrace : step ∈ trace) {inst : Inst n_warps} {accesses lanes : Nat}
    (isIssue : step.2 = .issue_warp inst accesses lanes) {flight : InFlight n_warps}
    (here : flight ∈ step.1.flights) (before : step.1.Before inst.warp_id flight)
    (destination : flight.inst.registers ≠ []) :
    flight.queued = 0 ∧ flight.sent = 0 ∧ flight.held = ∅ := by
  obtain ⟨inv, good⟩ := run.goodBefore stable_released (inv_new n_warps) (guarded_new _)
    (fun step _ inv w _ opens => released_of_opens inv opens) step inTrace inst accesses lanes
    isIssue
  have released := good flight here before
  obtain ⟨queued, sent⟩ := done_of_released inv here released fun unseen => destination unseen.2
  exact ⟨queued, sent, released⟩

/-- `ld.global.u32 %r3, [%r4]` -/
def globalLoad : Inst 1 where
  warp_id := 0
  out := ![3, 0, 0, 0]
  sources := fun _ => 0
  pred := 0
  ar1 := 4
  ar2 := 0
  is_load := true
  space := .global_space
  op := .LOAD_OP
  isatomic := false
  store_out store := by cases store

def loadFlight : InFlight 1 := ⟨globalLoad, 2 ^ 32 - 1, 0, globalLoad.registers.toFinset, 1, 0⟩

def loaded : Core 1 := ((Core.new 1).issue_warp globalLoad 1 0).get rfl

def answered : Core 1 := (loaded.send loadFlight 0).answer loadFlight.send 0

def returned : Core 1 :=
  { answered with
    m_scoreboard := answered.m_scoreboard.releaseRegister 0 3
    flights := {loadFlight.send.answer.release 3} }

/-- `ld`, `membar`, `st`: with the register released the store is issued, and with the register
    still held nothing is. -/
theorem barrier_waits_for_a_load :
    (loadFlight.send.answer.release 3).held = ∅ ∧
      Step answered (.issue_warp membar 0 0) (fenced answered) ∧
      ∀ trace, Run (Core.new 1) trace → ∀ inst accesses lanes,
        (fenced answered, .issue_warp inst accesses lanes) ∉ trace := by
  have load : Step (Core.new 1) (.issue_warp globalLoad 1 0) loaded :=
    .issue_warp globalLoad 1 0 rfl (by decide) rfl
  have sends : Step loaded (.send loadFlight) (loaded.send loadFlight 0) := .send rfl Nat.one_pos
  have answers : Step (loaded.send loadFlight 0) (.answer loadFlight.send) answered :=
    .answer rfl Nat.one_pos
  have releases : Step answered (.releaseRegister loadFlight.send.answer 3) returned :=
    .releaseRegister 3 rfl rfl rfl (by decide)
  have fences : Step returned (.issue_warp membar 0 0) (fenced returned) :=
    .issue_warp membar 0 0 rfl (by decide) rfl
  obtain ⟨last, again⟩ : ∃ last, Step (fenced returned) (.issue_warp globalStore 1 0) last :=
    ⟨_, .issue_warp globalStore 1 0 rfl (by decide) rfl⟩
  have run : Run (Core.new 1) _ :=
    .cons load (.cons sends (.cons answers (.cons releases (.cons fences (.cons again (.nil _))))))
  refine ⟨?_, .issue_warp membar 0 0 rfl (by decide) rfl,
    fun trace run' inst accesses lanes issued => ?_⟩
  · have here : loadFlight.send.answer.release 3 ∈
        membarFlight ::ₘ loadFlight.send.answer.release 3 ::ₘ 0 :=
      Multiset.mem_cons_of_mem (Multiset.mem_cons_self _ _)
    exact (barrier_waits_for_loads run
      (show (fenced returned, .issue_warp globalStore 1 0) ∈ _ by simp) rfl here
      ⟨rfl, rfl, 1, rfl, Nat.one_pos⟩ (by decide)).2.2
  · have here : loadFlight.send.answer ∈ membarFlight ::ₘ loadFlight.send.answer ::ₘ 0 :=
      Multiset.mem_cons_of_mem (Multiset.mem_cons_self _ _)
    have first : inst.warp_id = 0 := Fin.eq_zero _
    have before : (fenced answered).Before inst.warp_id loadFlight.send.answer := by
      rw [first]
      exact ⟨rfl, rfl, 1, rfl, Nat.one_pos⟩
    have released := (barrier_waits_for_loads run' issued rfl here before (by decide)).2.2
    exact absurd released (by decide)

end AesOnGpu.Scheduler.MemoryBarrier
