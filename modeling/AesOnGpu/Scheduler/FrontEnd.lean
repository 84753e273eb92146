import AesOnGpu.Lib.FinLiterals

/-! # Fetch, decode and issue

A warp has room for two decoded instructions, which `fetch` and `decode` bring from where they guess
that it goes on, and which are thrown away when the SIMT stack says something else.  Whatever the
instruction cache, the scoreboard and the pipelines do, no assertion about the counters and slots
fails (`front_end_never_fails`), the instructions that are issued are those that the warps execute
when there is no pipeline at all (`issued_in_order`), and a warp that is given back has left nothing
behind (`nothing_left_behind`).

`none` is a failed assertion.
-/

namespace AesOnGpu.Scheduler.FrontEnd

/-- The instructions by their addresses, as `pc_to_instruction` has them. -/
structure Program (ι : Type) where
  pc : ι → Nat
  isize : ι → Nat
  ptx_fetch_inst : Nat → Option ι
  pc_of_fetch : ∀ {a i}, ptx_fetch_inst a = some i → pc i = a

/-- The threads of a warp with their SIMT stack: where it goes on, what executing an instruction
    does to it and to memory, what an atomic operation does when memory gets to it, and which
    threads are not done.  A thread that is done stays so, and there is none before the first
    block. -/
structure Functional (warp_size : Nat) (ι σ μ : Type) where
  top_pc : σ → Nat
  exec : ι → σ → μ → σ × μ
  do_atomic : σ → μ → σ × μ
  live : σ → Finset (Fin warp_size)
  idle : σ
  live_exec : ∀ i s m, live (exec i s m).1 ⊆ live s
  live_do_atomic : ∀ s m, live (do_atomic s m).1 = live s
  live_idle : live idle = ∅

/-- What happens to the threads of warps and to memory: `write` is by another core or the host. -/
inductive Act (σ μ : Type) where
  | launch (w : Nat) (s : σ)
  | execute (w : Nat)
  | do_atomic (w : Nat)
  | write (m : μ)

namespace Functional

variable {warp_size : Nat} {ι σ μ : Type} (threads : Functional warp_size ι σ μ)
  (program : Program ι)

/-- The threads that an instruction finishes. -/
def exits (s s' : σ) : List (Fin warp_size) :=
  (List.finRange warp_size).filter fun t => t ∈ threads.live s \ threads.live s'

/-- There is no pipeline here: `execute` is for the instruction that the warp is at. -/
def act : (Nat → σ) × μ → Act σ μ → Option ((Nat → σ) × μ)
  | (t, m), .launch w s => some (Function.update t w s, m)
  | (t, m), .execute w => do
    let i ← program.ptx_fetch_inst (threads.top_pc (t w))
    let (s, m) := threads.exec i (t w) m
    return (Function.update t w s, m)
  | (t, m), .do_atomic w =>
    let (s, m) := threads.do_atomic (t w) m
    some (Function.update t w s, m)
  | (t, _), .write m => some (t, m)

end Functional

structure IbufferEntry (ι : Type) where
  m_inst : Option ι
  m_valid : Bool

/-- What fetch, decode and issue use of a `shd_warp_t`, with `IBUFFER_SIZE` 2. -/
structure ShdWarp (warp_size : Nat) (ι : Type) where
  m_next_pc : Nat
  n_completed : Nat
  m_active_threads : Finset (Fin warp_size)
  m_imiss_pending : Bool
  m_ibuffer : Fin 2 → IbufferEntry ι
  m_next : Fin 2
  m_done_exit : Bool
  m_stores_outstanding : Nat
  m_inst_in_pipeline : Nat

namespace ShdWarp

variable {warp_size : Nat} {ι : Type} (warp : ShdWarp warp_size ι)

def new : ShdWarp warp_size ι :=
  ⟨0, warp_size, ∅, false, fun _ => ⟨none, false⟩, 0, true, 0, 0⟩

/-- Its assertions are that no store and no instruction is left. -/
def reset : Option (ShdWarp warp_size ι) :=
  if warp.m_stores_outstanding = 0 ∧ warp.m_inst_in_pipeline = 0 then
    some { warp with
      m_imiss_pending := false
      n_completed := warp_size
      m_done_exit := true
      m_next := 0 }
  else none

def init (start_pc : Nat) (active : Finset (Fin warp_size)) : Option (ShdWarp warp_size ι) :=
  if warp.n_completed ≥ active.card ∧ warp.n_completed ≤ warp_size then
    some { warp with
      m_next_pc := start_pc
      n_completed := warp.n_completed - active.card
      m_active_threads := active
      m_done_exit := false }
  else none

/-- `reinit` leaves out the last warp of a block when it is not full. -/
def reinit (active : Finset (Fin warp_size)) : Option (ShdWarp warp_size ι) :=
  if active = Finset.univ then warp.reset else some warp

def functional_done : Bool := warp.n_completed == warp_size

def hardware_done : Bool :=
  warp.functional_done && warp.m_stores_outstanding == 0 && warp.m_inst_in_pipeline == 0

def inc_inst_in_pipeline : ShdWarp warp_size ι :=
  { warp with m_inst_in_pipeline := warp.m_inst_in_pipeline + 1 }

def dec_inst_in_pipeline : Option (ShdWarp warp_size ι) :=
  if warp.m_inst_in_pipeline > 0 then
    some { warp with m_inst_in_pipeline := warp.m_inst_in_pipeline - 1 }
  else none

def ibuffer_fill (slot : Fin 2) (pI : Option ι) : ShdWarp warp_size ι :=
  { warp with m_ibuffer := Function.update warp.m_ibuffer slot ⟨pI, true⟩, m_next := 0 }

def ibuffer_empty : Bool := !(warp.m_ibuffer 0).m_valid && !(warp.m_ibuffer 1).m_valid

def ibuffer_free : ShdWarp warp_size ι :=
  { warp with m_ibuffer := Function.update warp.m_ibuffer warp.m_next ⟨none, false⟩ }

def ibuffer_step : ShdWarp warp_size ι := { warp with m_next := warp.m_next + 1 }

def flushTurn (warp : ShdWarp warp_size ι) (slot : Fin 2) : Option (ShdWarp warp_size ι) := do
  let warp ← if (warp.m_ibuffer slot).m_valid then warp.dec_inst_in_pipeline else some warp
  return { warp with m_ibuffer := Function.update warp.m_ibuffer slot ⟨none, false⟩ }

def ibuffer_flush : Option (ShdWarp warp_size ι) := [0, 1].foldlM flushTurn warp

def set_completed (lane : Fin warp_size) : Option (ShdWarp warp_size ι) :=
  if lane ∈ warp.m_active_threads then
    some { warp with
      m_active_threads := warp.m_active_threads.erase lane
      n_completed := warp.n_completed + 1 }
  else none

/-- `checkExecutionStatusAndUpdate` for a thread that is done. -/
def exitTurn (warp : ShdWarp warp_size ι) (lane : Fin warp_size) :
    Option (ShdWarp warp_size ι) := do
  let warp ← warp.set_completed lane
  warp.ibuffer_flush

end ShdWarp

/-- The core without what follows the issue of an instruction.  `m_inst_fetch_buffer` has its
    `m_pc` and `m_warp_id` while it is valid, `m_L1I` the addresses and warps of the misses that
    have not been answered, and `m_active` the threads of a warp whose exit has not been
    registered.  `in_pipeline` counts the instructions of a warp that are issued and not complete,
    and `acts` are in the order in which they happened. -/
structure Core (warp_size : Nat) (ι σ μ : Type) where
  m_warp : Nat → ShdWarp warp_size ι
  threads : Nat → σ
  m_inst_fetch_buffer : Option (Nat × Nat)
  m_L1I : List (Nat × Nat)
  m_last_warp_fetched : Nat
  m_active : Nat → Finset (Fin warp_size)
  in_pipeline : Nat → Nat
  memory : μ
  acts : List (Act σ μ)

inductive AccessStatus where
  | HIT
  | MISS
  | RESERVATION_FAIL

/-- What `scheduler_unit::cycle` learns from others about the next instruction of a warp: whether
    the warp waits, whether the scoreboard has a collision, and whether there is room in a pipeline
    for the instruction. -/
structure Look where
  waiting : Bool
  checkCollision : Bool
  has_free : Bool

inductive Event (warp_size : Nat) (σ μ : Type) where
  /-- `reinit` and `init_warps` for a warp of which the threads in `active` exist. -/
  | init (w : Nat) (active : Finset (Fin warp_size)) (s : σ)
  /-- `ready` is the miss that has been answered, and `pendingWrites` the scoreboard's. -/
  | fetch (ready : Option Nat) (status : AccessStatus) (pendingWrites : Nat → Bool)
  | decode
  | schedule (w : Nat) (looks : Nat → Look)
  /-- `writeback` of an instruction. -/
  | complete (w : Nat)
  | store (w : Nat)
  | ack (w : Nat)
  | do_atomic (w : Nat)
  | write (m : μ)

namespace Core

variable {warp_size : Nat} {ι σ μ : Type} (program : Program ι)
  (threads : Functional warp_size ι σ μ) (max_warps max_issue : Nat)

def setWarp (core : Core warp_size ι σ μ) (w : Nat) (warp : ShdWarp warp_size ι) :
    Core warp_size ι σ μ :=
  { core with m_warp := Function.update core.m_warp w warp }

/-- `pI2` is looked for behind `pI1`, if there is one. -/
def decodeWarp (pc : Nat) (warp : ShdWarp warp_size ι) : ShdWarp warp_size ι :=
  let pI1 := program.ptx_fetch_inst pc
  let warp := (warp.ibuffer_fill 0 pI1).inc_inst_in_pipeline
  match pI1 with
  | none => warp
  | some i =>
    match program.ptx_fetch_inst (pc + program.isize i) with
    | none => warp
    | some pI2 => (warp.ibuffer_fill 1 (some pI2)).inc_inst_in_pipeline

def decode (core : Core warp_size ι σ μ) : Core warp_size ι σ μ :=
  match core.m_inst_fetch_buffer with
  | none => core
  | some (pc, w) =>
    { core.setWarp w (decodeWarp program pc (core.m_warp w)) with m_inst_fetch_buffer := none }

/-- A warp that has finished is given back when the first exit of its threads is registered. -/
def reclaim (pendingWrites : Nat → Bool) (core : Core warp_size ι σ μ) (w : Nat) :
    Core warp_size ι σ μ :=
  let warp := core.m_warp w
  if warp.hardware_done && !pendingWrites w && !warp.m_done_exit then
    if core.m_active w ≠ ∅ then
      { core.setWarp w { warp with m_done_exit := true } with
        m_active := Function.update core.m_active w ∅ }
    else core
  else core

def fetchable (core : Core warp_size ι σ μ) (w : Nat) : Bool :=
  !(core.m_warp w).functional_done && !(core.m_warp w).m_imiss_pending &&
    (core.m_warp w).ibuffer_empty

def access (status : AccessStatus) (core : Core warp_size ι σ μ) (w : Nat) :
    Core warp_size ι σ μ :=
  let warp := core.m_warp w
  let core := { core with m_last_warp_fetched := w }
  match status with
  | .MISS => { core.setWarp w { warp with m_imiss_pending := true } with
      m_L1I := core.m_L1I ++ [(warp.m_next_pc, w)] }
  | .HIT => { core with m_inst_fetch_buffer := some (warp.m_next_pc, w) }
  | .RESERVATION_FAIL => core

def scan (status : AccessStatus) (pendingWrites : Nat → Bool) :
    List Nat → Core warp_size ι σ μ → Core warp_size ι σ μ
  | [], core => core
  | w :: ws, core =>
    let core := core.reclaim pendingWrites w
    if core.fetchable w then core.access status w else scan status pendingWrites ws core

def fetch (ready : Option Nat) (status : AccessStatus) (pendingWrites : Nat → Bool)
    (core : Core warp_size ι σ μ) : Option (Core warp_size ι σ μ) :=
  if core.m_inst_fetch_buffer.isSome then some core
  else
    match ready with
    | some n => do
      let (pc, w) ← core.m_L1I[n]?
      let warp := core.m_warp w
      if warp.m_next_pc = pc then
        return { core.setWarp w { warp with m_imiss_pending := false } with
          m_inst_fetch_buffer := some (warp.m_next_pc, w)
          m_L1I := core.m_L1I.eraseIdx n }
      else none
    | none => some (scan status pendingWrites ((List.range max_warps).map fun i =>
        (core.m_last_warp_fetched + 1 + i) % max_warps) core)

def issue_warp (core : Core warp_size ι σ μ) (w : Nat) (next_inst : ι) :
    Option (Core warp_size ι σ μ) := do
  let s := core.threads w
  let (s', memory) := threads.exec next_inst s core.memory
  let warp ← (threads.exits s s').foldlM ShdWarp.exitTurn
    (core.m_warp w).ibuffer_free
  return { core.setWarp w
      { warp with m_next_pc := program.pc next_inst + program.isize next_inst } with
    threads := Function.update core.threads w s'
    in_pipeline := Function.update core.in_pipeline w (core.in_pipeline w + 1)
    memory := memory
    acts := core.acts ++ [.execute w] }

/-- A turn of the loop through the instructions of a warp, and whether it issues. -/
def issueTurn (core : Core warp_size ι σ μ) (w : Nat) (look : Look) :
    Option (Bool × Core warp_size ι σ μ) :=
  let warp := core.m_warp w
  let next := warp.m_ibuffer warp.m_next
  let pc := threads.top_pc (core.threads w)
  match next.m_inst with
  | some pI =>
    if next.m_valid = false then none
    else if pc ≠ program.pc pI then do
      let warp ← { warp with m_next_pc := pc }.ibuffer_flush
      return (false, core.setWarp w warp)
    else if look.checkCollision then some (false, core)
    else if warp.m_inst_in_pipeline = 0 then none
    else if look.has_free then do
      let core ← issue_warp program threads core w pI
      return (true, core.setWarp w (core.m_warp w).ibuffer_step)
    else some (false, core)
  | none =>
    if next.m_valid then do
      let warp ← { warp with m_next_pc := pc }.ibuffer_flush
      return (false, core.setWarp w warp)
    else some (false, core)

/-- `checked` and `issued` of the loop, with as many turns as it may take. -/
def issueLoop (w : Nat) (looks : Nat → Look) :
    Nat → Nat → Nat → Core warp_size ι σ μ → Option (Core warp_size ι σ μ)
  | 0, _, _, core => some core
  | turns + 1, checked, issued, core =>
    if !((core.m_warp w).functional_done || (looks checked).waiting) &&
        !(core.m_warp w).ibuffer_empty && checked < max_issue && checked ≤ issued &&
        issued < max_issue then do
      let (warp_inst_issued, core) ← issueTurn program threads core w (looks checked)
      issueLoop w looks turns (checked + 1) (if warp_inst_issued then issued + 1 else issued) core
    else some core

def initWarp (core : Core warp_size ι σ μ) (w : Nat) (active : Finset (Fin warp_size)) (s : σ) :
    Option (Core warp_size ι σ μ) := do
  let warp ← (core.m_warp w).reinit active
  let warp ← warp.init (threads.top_pc s) active
  return { core.setWarp w warp with
    threads := Function.update core.threads w s
    m_active := Function.update core.m_active w active
    acts := core.acts ++ [.launch w s] }

def apply (core : Core warp_size ι σ μ) : Event warp_size σ μ → Option (Core warp_size ι σ μ)
  | .init w active s => core.initWarp threads w active s
  | .fetch ready status pendingWrites => core.fetch max_warps ready status pendingWrites
  | .decode => some (core.decode program)
  | .schedule w looks => issueLoop program threads max_issue w looks max_issue 0 0 core
  | .complete w => do
    let warp ← (core.m_warp w).dec_inst_in_pipeline
    return { core.setWarp w warp with
      in_pipeline := Function.update core.in_pipeline w (core.in_pipeline w - 1) }
  | .store w =>
    let warp := core.m_warp w
    some (core.setWarp w { warp with m_stores_outstanding := warp.m_stores_outstanding + 1 })
  | .ack w =>
    let warp := core.m_warp w
    if warp.m_stores_outstanding > 0 then
      some (core.setWarp w { warp with m_stores_outstanding := warp.m_stores_outstanding - 1 })
    else none
  | .do_atomic w =>
    let (s, memory) := threads.do_atomic (core.threads w) core.memory
    some { core with
      threads := Function.update core.threads w s
      memory := memory
      acts := core.acts ++ [.do_atomic w] }
  | .write m => some { core with
      memory := m
      acts := core.acts ++ [.write m] }

/-- What the rest of the core sees to.  Stores are sent by an instruction that is in the pipeline,
    and a warp gets new threads when the old ones have exited. -/
def Enabled (core : Core warp_size ι σ μ) : Event warp_size σ μ → Prop
  | .init w active s => (core.m_warp w).m_done_exit = true ∧ active ≠ ∅ ∧ threads.live s = active
  | .fetch ready _ _ => ∀ n ∈ ready, n < core.m_L1I.length
  | .decode | .write _ => True
  | .schedule w _ => (core.m_warp w).m_done_exit = false
  | .complete w | .store w | .do_atomic w => 0 < core.in_pipeline w
  | .ack w => 0 < (core.m_warp w).m_stores_outstanding

def new (memory : μ) : Core warp_size ι σ μ :=
  ⟨fun _ => .new, fun _ => threads.idle, none, [], 0, fun _ => ∅, fun _ => 0, memory, []⟩

inductive Reachable (memory : μ) : Core warp_size ι σ μ → Prop
  | new : Reachable memory (new threads memory)
  | step {core core' : Core warp_size ι σ μ} {e : Event warp_size σ μ} : Reachable memory core →
      core.Enabled threads e → core.apply program threads max_warps max_issue e = some core' →
      Reachable memory core'

end Core

/-! ## One warp -/

theorem Functional.exits_nodup {warp_size : Nat} {ι σ μ : Type}
    (threads : Functional warp_size ι σ μ) (s s' : σ) : (threads.exits s s').Nodup :=
  (List.nodup_finRange warp_size).filter _

theorem Functional.exits_toFinset {warp_size : Nat} {ι σ μ : Type}
    (threads : Functional warp_size ι σ μ) (s s' : σ) :
    (threads.exits s s').toFinset = threads.live s \ threads.live s' := by
  ext t
  simp [Functional.exits]

namespace ShdWarp

variable {warp_size : Nat} {ι : Type} {warp warp' : ShdWarp warp_size ι} {n : Nat}

/-- `num_inst_in_buffer` -/
def num_inst_in_buffer (warp : ShdWarp warp_size ι) : Nat :=
  (warp.m_ibuffer 0).m_valid.toNat + (warp.m_ibuffer 1).m_valid.toNat

theorem ibuffer_empty_iff :
    warp.ibuffer_empty = true ↔ ∀ slot, (warp.m_ibuffer slot).m_valid = false := by
  rw [ibuffer_empty, Fin.forall_fin_two, Bool.and_eq_true, Bool.not_eq_true', Bool.not_eq_true']

theorem ibuffer_flush_spec (counted : warp.m_inst_in_pipeline = warp.num_inst_in_buffer + n) :
    warp.ibuffer_flush = some { warp with
      m_ibuffer := fun _ => ⟨none, false⟩
      m_inst_in_pipeline := n } := by
  have cleared : Function.update (Function.update warp.m_ibuffer 0 ⟨none, false⟩) 1 ⟨none, false⟩ =
      fun _ => ⟨none, false⟩ := by
    funext slot
    fin_cases slot <;> simp
  rw [num_inst_in_buffer] at counted
  cases first : (warp.m_ibuffer 0).m_valid <;> cases second : (warp.m_ibuffer 1).m_valid <;>
    simp [ibuffer_flush, flushTurn, dec_inst_in_pipeline, first, second, cleared, counted] at *

theorem exitTurns_spec (warp : ShdWarp warp_size ι) {lanes : List (Fin warp_size)}
    (distinct : lanes.Nodup)
    (live : ∀ lane ∈ lanes, lane ∈ warp.m_active_threads)
    (counted : warp.m_inst_in_pipeline = warp.num_inst_in_buffer + n) :
    ∃ buffer pipeline, lanes.foldlM exitTurn warp = some { warp with
        m_active_threads := warp.m_active_threads \ lanes.toFinset
        n_completed := warp.n_completed + lanes.length
        m_ibuffer := buffer
        m_inst_in_pipeline := pipeline } ∧
      pipeline = ((buffer 0).m_valid.toNat + (buffer 1).m_valid.toNat) + n ∧
      (buffer = warp.m_ibuffer ∨ buffer = fun _ => ⟨none, false⟩) := by
  induction lanes generalizing warp with
  | nil => exact ⟨warp.m_ibuffer, warp.m_inst_in_pipeline, by simp, counted, .inl rfl⟩
  | cons lane lanes ih =>
    obtain ⟨fresh, distinct⟩ := List.nodup_cons.mp distinct
    have turned : warp.exitTurn lane = some { warp with
        m_active_threads := warp.m_active_threads.erase lane
        n_completed := warp.n_completed + 1
        m_ibuffer := fun _ => ⟨none, false⟩
        m_inst_in_pipeline := n } := by
      rw [exitTurn, set_completed, if_pos (live lane List.mem_cons_self)]
      exact ibuffer_flush_spec counted
    obtain ⟨buffer, pipeline, rest, counted', same⟩ := ih
      { warp with
        m_active_threads := warp.m_active_threads.erase lane
        n_completed := warp.n_completed + 1
        m_ibuffer := fun _ => ⟨none, false⟩
        m_inst_in_pipeline := n } distinct
      (fun other inside => Finset.mem_erase.mpr
        ⟨fun same => fresh (same ▸ inside), live other (List.mem_cons_of_mem lane inside)⟩)
      (by simp [num_inst_in_buffer])
    refine ⟨buffer, pipeline, ?_, counted', .inr (same.elim id id)⟩
    rw [List.foldlM_cons, turned, Option.bind_eq_bind, Option.bind_some, rest]
    simp only [List.toFinset_cons, List.length_cons, Finset.sdiff_insert, Finset.erase_sdiff_comm,
      Option.some.injEq, ShdWarp.mk.injEq, true_and, and_true]
    omega

end ShdWarp

namespace Core

variable {warp_size : Nat} {ι σ μ : Type} (program : Program ι)
  (threads : Functional warp_size ι σ μ) (max_warps max_issue : Nat)

/-- The counters of a warp.  When its buffer has an instruction, `m_next` is at the first. -/
structure WarpInv (warp : ShdWarp warp_size ι) (s : σ) (in_pipeline : Nat)
    (active : Finset (Fin warp_size)) : Prop where
  counted : warp.m_inst_in_pipeline = warp.num_inst_in_buffer + in_pipeline
  next : warp.ibuffer_empty = false → (warp.m_ibuffer warp.m_next).m_valid = true
  first : (warp.m_ibuffer 0).m_valid = true → warp.m_next = 0
  insts : ∀ slot i, (warp.m_ibuffer slot).m_inst = some i →
    (warp.m_ibuffer slot).m_valid = true ∧ program.ptx_fetch_inst (program.pc i) = some i
  lanes : warp.m_active_threads = threads.live s
  completed : warp.n_completed + (threads.live s).card = warp_size
  done : warp.m_done_exit = true → threads.live s = ∅ ∧ warp.m_stores_outstanding = 0 ∧
    warp.m_inst_in_pipeline = 0 ∧ warp.m_imiss_pending = false ∧ active = ∅
  running : warp.m_done_exit = false → active ≠ ∅

/-- A warp for which an instruction is on its way. -/
structure Waits (warp : ShdWarp warp_size ι) (pc : Nat) (missed : Bool) : Prop where
  next_pc : warp.m_next_pc = pc
  imiss : warp.m_imiss_pending = missed
  empty : warp.ibuffer_empty = true
  running : warp.functional_done = false

structure Inv (memory : μ) (core : Core warp_size ι σ μ) : Prop where
  warps : ∀ w, WarpInv program threads (core.m_warp w) (core.threads w) (core.in_pipeline w)
    (core.m_active w)
  acts : core.acts.foldlM (threads.act program) (fun _ => threads.idle, memory) =
    some (core.threads, core.memory)
  buffer : ∀ p ∈ core.m_inst_fetch_buffer, Waits (core.m_warp p.2) p.1 false
  misses : ∀ p ∈ core.m_L1I, Waits (core.m_warp p.2) p.1 true
  distinct : (core.m_L1I.map Prod.snd).Nodup
  imiss : ∀ w, (core.m_warp w).m_imiss_pending = true → w ∈ core.m_L1I.map Prod.snd

variable {program threads max_warps max_issue} {memory : μ}
  {core core' : Core warp_size ι σ μ} {w : Nat}

theorem WarpInv.functional_done_iff {warp : ShdWarp warp_size ι} {s : σ} {in_pipeline : Nat}
    {active : Finset (Fin warp_size)} (inv : WarpInv program threads warp s in_pipeline active) :
    warp.functional_done = true ↔ threads.live s = ∅ := by
  have completed := inv.completed
  rw [ShdWarp.functional_done, beq_iff_eq, ← Finset.card_eq_zero]
  omega

theorem Inv.quiet (inv : Inv program threads memory core)
    (busy : ∀ pc missed, ¬ Waits (core.m_warp w) pc missed) :
    (∀ p ∈ core.m_inst_fetch_buffer, p.2 ≠ w) ∧ ∀ p ∈ core.m_L1I, p.2 ≠ w :=
  ⟨fun p inside same => busy _ _ (same ▸ inv.buffer p inside),
    fun p inside same => busy _ _ (same ▸ inv.misses p inside)⟩

structure Local (w : Nat) (core core' : Core warp_size ι σ μ) : Prop where
  buffer : core'.m_inst_fetch_buffer = core.m_inst_fetch_buffer
  misses : core'.m_L1I = core.m_L1I
  warps : ∀ v ≠ w, core'.m_warp v = core.m_warp v
  threads : ∀ v ≠ w, core'.threads v = core.threads v
  in_pipeline : ∀ v ≠ w, core'.in_pipeline v = core.in_pipeline v
  active : ∀ v ≠ w, core'.m_active v = core.m_active v

theorem Inv.of_local (inv : Inv program threads memory core) (same : Local w core core')
    (warp : WarpInv program threads (core'.m_warp w) (core'.threads w) (core'.in_pipeline w)
      (core'.m_active w))
    (acts : core'.acts.foldlM (threads.act program) (fun _ => threads.idle, memory) =
      some (core'.threads, core'.memory))
    (imiss : (core'.m_warp w).m_imiss_pending = (core.m_warp w).m_imiss_pending)
    (waits : ∀ pc missed, (pc, w) ∈ core.m_inst_fetch_buffer ∨ (pc, w) ∈ core.m_L1I →
      Waits (core.m_warp w) pc missed → Waits (core'.m_warp w) pc missed) :
    Inv program threads memory core' := by
  have pending : ∀ v pc missed, (pc, v) ∈ core.m_inst_fetch_buffer ∨ (pc, v) ∈ core.m_L1I →
      Waits (core.m_warp v) pc missed → Waits (core'.m_warp v) pc missed := by
    intro v pc missed coming before
    by_cases own : v = w
    · subst own
      exact waits pc missed coming before
    · rwa [same.warps v own]
  refine ⟨fun v => ?_, acts, fun p inside => ?_, fun p inside => ?_, ?_, fun v missed => ?_⟩
  · by_cases own : v = w
    · exact own ▸ warp
    · rw [same.warps v own, same.threads v own, same.in_pipeline v own, same.active v own]
      exact inv.warps v
  · rw [same.buffer] at inside
    exact pending _ _ _ (.inl inside) (inv.buffer p inside)
  · rw [same.misses] at inside
    exact pending _ _ _ (.inr inside) (inv.misses p inside)
  · rw [same.misses]
    exact inv.distinct
  · rw [same.misses]
    refine inv.imiss v ?_
    by_cases own : v = w
    · subst own
      rwa [← imiss]
    · rwa [← same.warps v own]

/-! ## Events of one warp -/

theorem Inv.complete (inv : Inv program threads memory core) (issued : 0 < core.in_pipeline w) :
    ∃ core', core.apply program threads max_warps max_issue (.complete w) = some core' ∧
      Inv program threads memory core' := by
  have warp := inv.warps w
  have counted := warp.counted
  have positive : (core.m_warp w).m_inst_in_pipeline > 0 := by omega
  refine ⟨{ core.setWarp w { core.m_warp w with
      m_inst_in_pipeline := (core.m_warp w).m_inst_in_pipeline - 1 } with
    in_pipeline := Function.update core.in_pipeline w (core.in_pipeline w - 1) }, ?_, ?_⟩
  · rw [apply, ShdWarp.dec_inst_in_pipeline, if_pos positive]
    rfl
  · refine inv.of_local (w := w) ?_ ?_ inv.acts ?_ ?_
    · constructor <;> intros <;> simp_all [setWarp]
    · simp only [setWarp, Function.update_self]
      refine ⟨?_, warp.next, warp.first, warp.insts, warp.lanes, warp.completed, fun done => ?_,
        warp.running⟩
      · show (core.m_warp w).m_inst_in_pipeline - 1 = (core.m_warp w).num_inst_in_buffer + _
        omega
      · have zero := (warp.done done).2.2.1
        omega
    · simp only [setWarp, Function.update_self]
    · intro pc missed _ before
      simp only [setWarp, Function.update_self]
      exact ⟨before.next_pc, before.imiss, before.empty, before.running⟩

theorem Inv.stores (inv : Inv program threads memory core)
    (running : (core.m_warp w).m_done_exit = false) (n : Nat) :
    Inv program threads memory
      (core.setWarp w { core.m_warp w with m_stores_outstanding := n }) := by
  have warp := inv.warps w
  refine inv.of_local (w := w) ?_ ?_ inv.acts ?_ ?_
  · constructor <;> intros <;> simp_all [setWarp]
  · simp only [setWarp, Function.update_self]
    exact ⟨warp.counted, warp.next, warp.first, warp.insts, warp.lanes, warp.completed,
      fun done => absurd done (by simp [running]), warp.running⟩
  · simp only [setWarp, Function.update_self]
  · intro pc missed _ before
    simp only [setWarp, Function.update_self]
    exact ⟨before.next_pc, before.imiss, before.empty, before.running⟩

theorem Inv.running_of_in_pipeline (inv : Inv program threads memory core)
    (issued : 0 < core.in_pipeline w) : (core.m_warp w).m_done_exit = false := by
  by_contra done
  have zero := ((inv.warps w).done (by simpa using done)).2.2.1
  have counted := (inv.warps w).counted
  omega

theorem Inv.running_of_store (inv : Inv program threads memory core)
    (sent : 0 < (core.m_warp w).m_stores_outstanding) : (core.m_warp w).m_done_exit = false := by
  by_contra done
  have zero := ((inv.warps w).done (by simpa using done)).2.1
  omega

theorem Inv.init (inv : Inv program threads memory core) {active : Finset (Fin warp_size)} {s : σ}
    (done : (core.m_warp w).m_done_exit = true) (nonempty : active ≠ ∅)
    (live : threads.live s = active) :
    ∃ core', core.apply program threads max_warps max_issue (.init w active s) = some core' ∧
      Inv program threads memory core' := by
  have warp := inv.warps w
  obtain ⟨dead, stores, pipeline, imiss, _⟩ := warp.done done
  have completed := warp.completed
  rw [dead, Finset.card_empty] at completed
  have few : active.card ≤ warp_size := by simpa using Finset.card_le_univ active
  have counted := warp.counted
  have invalid : ∀ slot, ((core.m_warp w).m_ibuffer slot).m_valid = false := by
    rw [ShdWarp.num_inst_in_buffer] at counted
    rw [Fin.forall_fin_two]
    constructor <;> rw [← Bool.not_eq_true, ← Bool.toNat_eq_one] <;> omega
  obtain ⟨next, resets⟩ : ∃ next, (core.m_warp w).reinit active =
      some { core.m_warp w with m_next := next } := by
    rw [ShdWarp.reinit]
    split
    · refine ⟨0, ?_⟩
      rw [ShdWarp.reset, if_pos ⟨stores, pipeline⟩]
      congr 2
      · omega
      · exact imiss.symm
      · exact done.symm
    · exact ⟨_, rfl⟩
  refine ⟨{ core.setWarp w { core.m_warp w with
        m_next := next
        m_next_pc := threads.top_pc s
        n_completed := (core.m_warp w).n_completed - active.card
        m_active_threads := active
        m_done_exit := false } with
      threads := Function.update core.threads w s
      m_active := Function.update core.m_active w active
      acts := core.acts ++ [.launch w s] }, ?_, ?_⟩
  · rw [apply, initWarp, resets, Option.bind_eq_bind, Option.bind_some, ShdWarp.init,
      if_pos ⟨by simp only; omega, by simp only; omega⟩]
    rfl
  · refine inv.of_local (w := w) ?_ ?_ ?_ ?_ fun pc missed _ before => ?_
    · constructor <;> intros <;> simp_all [setWarp]
    · simp only [setWarp, Function.update_self]
      refine ⟨counted, fun filled => ?_, fun valid => ?_, warp.insts, live.symm, ?_, nofun,
        fun _ => nonempty⟩
      · have empty := ShdWarp.ibuffer_empty_iff.mpr invalid
        exact absurd (empty.symm.trans filled) (by simp)
      · exact absurd valid (by simp [invalid])
      · show (core.m_warp w).n_completed - active.card + (threads.live s).card = warp_size
        rw [live]
        omega
    · rw [List.foldlM_append, inv.acts]
      rfl
    · simp only [setWarp, Function.update_self]
    · have dead := warp.functional_done_iff.mpr dead
      exact absurd (before.running.symm.trans dead) (by simp)

/-! ## Decoding -/

theorem WarpInv.decodeWarp {warp : ShdWarp warp_size ι} {s : σ} {n pc : Nat} {missed : Bool}
    {active : Finset (Fin warp_size)} (inv : WarpInv program threads warp s n active)
    (waits : Waits warp pc missed) :
    WarpInv program threads (decodeWarp program pc warp) s n active := by
  have invalid := ShdWarp.ibuffer_empty_iff.mp waits.empty
  have counted : warp.m_inst_in_pipeline = n := by
    simpa [ShdWarp.num_inst_in_buffer, invalid] using inv.counted
  have bare : ∀ slot i, (warp.m_ibuffer slot).m_inst ≠ some i := fun slot i inst => by
    have valid := (inv.insts slot i inst).1
    rw [invalid] at valid
    cases valid
  have fetched : ∀ a i, program.ptx_fetch_inst a = some i →
      program.ptx_fetch_inst (program.pc i) = some i :=
    fun a i found => by rw [program.pc_of_fetch found, found]
  have alive : ¬ threads.live s = ∅ := fun dead => by
    have done := inv.functional_done_iff.mpr dead
    rw [waits.running] at done
    cases done
  rw [Core.decodeWarp]
  cases first : program.ptx_fetch_inst pc with
  | none =>
    refine ⟨?_, fun _ => ?_, fun _ => rfl, fun slot i inst => ?_, inv.lanes, inv.completed,
      fun done => absurd (inv.done done).1 alive, inv.running⟩
    · simp [ShdWarp.inc_inst_in_pipeline, ShdWarp.ibuffer_fill, ShdWarp.num_inst_in_buffer,
        invalid, counted, Nat.add_comm]
    · simp [ShdWarp.inc_inst_in_pipeline, ShdWarp.ibuffer_fill]
    · fin_cases slot
      · simp [ShdWarp.inc_inst_in_pipeline, ShdWarp.ibuffer_fill] at inst
      · simp [ShdWarp.inc_inst_in_pipeline, ShdWarp.ibuffer_fill, bare] at inst
  | some i =>
    simp only
    cases second : program.ptx_fetch_inst (pc + program.isize i) with
    | none =>
      refine ⟨?_, fun _ => ?_, fun _ => rfl, fun slot j inst => ?_, inv.lanes, inv.completed,
        fun done => absurd (inv.done done).1 alive, inv.running⟩
      · simp [ShdWarp.inc_inst_in_pipeline, ShdWarp.ibuffer_fill, ShdWarp.num_inst_in_buffer,
          invalid, counted, Nat.add_comm]
      · simp [ShdWarp.inc_inst_in_pipeline, ShdWarp.ibuffer_fill]
      · fin_cases slot
        · simp [ShdWarp.inc_inst_in_pipeline, ShdWarp.ibuffer_fill] at inst ⊢
          exact inst ▸ fetched pc i first
        · simp [ShdWarp.inc_inst_in_pipeline, ShdWarp.ibuffer_fill, bare] at inst
    | some i' =>
      refine ⟨?_, fun _ => ?_, fun _ => rfl, fun slot j inst => ?_, inv.lanes, inv.completed,
        fun done => absurd (inv.done done).1 alive, inv.running⟩
      · simp [ShdWarp.inc_inst_in_pipeline, ShdWarp.ibuffer_fill, ShdWarp.num_inst_in_buffer,
          counted]
        omega
      · simp [ShdWarp.inc_inst_in_pipeline, ShdWarp.ibuffer_fill]
      · fin_cases slot
        · simp [ShdWarp.inc_inst_in_pipeline, ShdWarp.ibuffer_fill] at inst ⊢
          exact inst ▸ fetched pc i first
        · simp [ShdWarp.inc_inst_in_pipeline, ShdWarp.ibuffer_fill] at inst ⊢
          exact inst ▸ fetched _ i' second

theorem Inv.decode (inv : Inv program threads memory core) :
    Inv program threads memory (core.decode program) := by
  rw [Core.decode]
  cases buffered : core.m_inst_fetch_buffer with
  | none => exact inv
  | some p =>
    obtain ⟨pc, w⟩ := p
    have waits := inv.buffer (pc, w) buffered
    have alone : ∀ p ∈ core.m_L1I, p.2 ≠ w := fun p inside same => by
      have missed := (inv.misses p inside).imiss
      rw [same, waits.imiss] at missed
      cases missed
    have emptied : Inv program threads memory { core with m_inst_fetch_buffer := none } :=
      ⟨inv.warps, inv.acts, nofun, inv.misses, inv.distinct, inv.imiss⟩
    refine emptied.of_local (w := w) ?_ ?_ inv.acts ?_ fun pc' missed coming _ => ?_
    · constructor <;> intros <;> simp_all [setWarp]
    · simp only [setWarp, Function.update_self]
      exact (inv.warps w).decodeWarp waits
    · simp only [setWarp, Function.update_self, Core.decodeWarp]
      split
      · rfl
      · split <;> rfl
    · rcases coming with buffer | miss
      · cases buffer
      · exact absurd rfl (alone _ miss)

/-! ## Fetching -/

theorem Inv.reclaim (inv : Inv program threads memory core) (pendingWrites : Nat → Bool) (w : Nat) :
    Inv program threads memory (core.reclaim pendingWrites w) := by
  rw [Core.reclaim]
  simp only
  split
  next finished =>
    simp only [ShdWarp.hardware_done, Bool.and_eq_true, Bool.not_eq_true', beq_iff_eq] at finished
    obtain ⟨⟨⟨⟨functional, stores⟩, pipeline⟩, _⟩, _⟩ := finished
    split
    next registered =>
      have warp := inv.warps w
      have answered : (core.m_warp w).m_imiss_pending = false := by
        by_contra missed
        obtain ⟨p, inside, rfl⟩ := List.mem_map.mp (inv.imiss w (by simpa using missed))
        have running := (inv.misses p inside).running
        rw [functional] at running
        cases running
      refine inv.of_local (w := w) ?_ ?_ inv.acts ?_ fun pc missed _ before => ?_
      · constructor <;> intros <;> simp_all [setWarp]
      · simp only [setWarp, Function.update_self]
        exact ⟨warp.counted, warp.next, warp.first, warp.insts, warp.lanes, warp.completed,
          fun _ => ⟨warp.functional_done_iff.mp functional, stores, pipeline, answered, rfl⟩, nofun⟩
      · simp only [setWarp, Function.update_self]
      · exact absurd (before.running.symm.trans functional) (by simp)
    next => exact inv
  next => exact inv

theorem reclaim_buffer (core : Core warp_size ι σ μ) (pendingWrites : Nat → Bool) (w : Nat) :
    (core.reclaim pendingWrites w).m_inst_fetch_buffer = core.m_inst_fetch_buffer := by
  rw [reclaim]
  simp only
  split
  · split <;> rfl
  · rfl

theorem Inv.access (inv : Inv program threads memory core) (free : core.m_inst_fetch_buffer = none)
    (fetchable : core.fetchable w = true) (status : AccessStatus) :
    Inv program threads memory (core.access status w) := by
  simp only [Core.fetchable, Bool.and_eq_true, Bool.not_eq_true'] at fetchable
  obtain ⟨⟨running, answered⟩, empty⟩ := fetchable
  have warp := inv.warps w
  cases status with
  | RESERVATION_FAIL =>
    exact ⟨inv.warps, inv.acts, inv.buffer, inv.misses, inv.distinct, inv.imiss⟩
  | HIT =>
    refine ⟨inv.warps, inv.acts, fun p same => ?_, inv.misses, inv.distinct, inv.imiss⟩
    obtain rfl := Option.some.inj same
    exact ⟨rfl, answered, empty, running⟩
  | MISS =>
    have others : ∀ p ∈ core.m_L1I, p.2 ≠ w := fun p inside same => by
      have missed := (inv.misses p inside).imiss
      rw [same, answered] at missed
      cases missed
    refine ⟨fun v => ?_, inv.acts, fun p same => ?_, fun p inside => ?_, ?_, fun v missed => ?_⟩
    · by_cases own : v = w
      · subst own
        simp only [Core.access, setWarp, Function.update_self]
        refine ⟨warp.counted, warp.next, warp.first, warp.insts, warp.lanes, warp.completed,
          fun done => ?_, warp.running⟩
        have finished := warp.functional_done_iff.mpr (warp.done done).1
        exact absurd (running.symm.trans finished) (by simp)
      · simpa only [Core.access, setWarp, Function.update_of_ne own] using inv.warps v
    · exact absurd (free.symm.trans same) (by simp)
    · rcases List.mem_append.mp inside with old | new
      · simpa only [Core.access, setWarp, Function.update_of_ne (others p old)] using
          inv.misses p old
      · obtain rfl := List.mem_singleton.mp new
        simp only [Core.access, setWarp, Function.update_self]
        exact ⟨rfl, rfl, empty, running⟩
    · rw [Core.access, List.map_append, List.nodup_append]
      refine ⟨inv.distinct, List.nodup_singleton w, fun v old w' new same => ?_⟩
      obtain ⟨p, inside, rfl⟩ := List.mem_map.mp old
      exact others p inside (same.trans (List.mem_singleton.mp new))
    · rw [Core.access, List.map_append, List.mem_append]
      by_cases own : v = w
      · exact .inr (List.mem_singleton.mpr own)
      · refine .inl (inv.imiss v ?_)
        simpa only [Core.access, setWarp, Function.update_of_ne own] using missed

theorem Inv.scan (status : AccessStatus) (pendingWrites : Nat → Bool) (ws : List Nat)
    (inv : Inv program threads memory core) (free : core.m_inst_fetch_buffer = none) :
    Inv program threads memory (core.scan status pendingWrites ws) := by
  induction ws generalizing core with
  | nil => exact inv
  | cons w ws ih =>
    -- a warp that is passed over may have been given back before
    have reclaimed := inv.reclaim pendingWrites w
    have free := (core.reclaim_buffer pendingWrites w).trans free
    rw [Core.scan]
    split
    next fetchable => exact reclaimed.access free fetchable status
    next => exact ih reclaimed free

theorem Inv.response (inv : Inv program threads memory core) {n pc : Nat}
    (ready : core.m_L1I[n]? = some (pc, w)) :
    (core.m_warp w).m_next_pc = pc ∧
      Inv program threads memory {
        core.setWarp w { core.m_warp w with m_imiss_pending := false } with
        m_inst_fetch_buffer := some ((core.m_warp w).m_next_pc, w)
        m_L1I := core.m_L1I.eraseIdx n } := by
  obtain ⟨bound, entry⟩ := List.getElem?_eq_some_iff.mp ready
  have removed : ((pc, w) :: core.m_L1I.eraseIdx n).Perm core.m_L1I :=
    entry ▸ List.getElem_cons_eraseIdx_perm bound
  have waits := inv.misses (pc, w) (removed.mem_iff.mp List.mem_cons_self)
  have distinct := (removed.map Prod.snd).nodup_iff.mpr inv.distinct
  rw [List.map_cons, List.nodup_cons] at distinct
  have others : ∀ p ∈ core.m_L1I.eraseIdx n, p.2 ≠ w := fun p inside same =>
    distinct.1 (List.mem_map.mpr ⟨p, inside, same⟩)
  have warp := inv.warps w
  refine ⟨waits.next_pc, fun v => ?_, inv.acts, fun p same => ?_, fun p inside => ?_,
    distinct.2, fun v missed => ?_⟩
  · by_cases own : v = w
    · subst own
      simp only [setWarp, Function.update_self]
      exact ⟨warp.counted, warp.next, warp.first, warp.insts, warp.lanes, warp.completed,
        fun done => ⟨(warp.done done).1, (warp.done done).2.1, (warp.done done).2.2.1, rfl,
          (warp.done done).2.2.2.2⟩, warp.running⟩
    · simpa only [setWarp, Function.update_of_ne own] using inv.warps v
  · obtain rfl := Option.some.inj same
    simp only [setWarp, Function.update_self]
    exact ⟨rfl, rfl, waits.empty, waits.running⟩
  · simpa only [setWarp, Function.update_of_ne (others p inside)] using
      inv.misses p (removed.mem_iff.mp (List.mem_cons_of_mem _ inside))
  · by_cases own : v = w
    · subst own
      simp [setWarp] at missed
    · have before := inv.imiss v (by simpa [setWarp, own] using missed)
      have after := (removed.map Prod.snd).mem_iff.mpr before
      rw [List.map_cons] at after
      exact (List.mem_cons.mp after).resolve_left own

theorem Inv.fetch (inv : Inv program threads memory core) {ready : Option Nat}
    {status : AccessStatus} {pendingWrites : Nat → Bool}
    (listed : ∀ n ∈ ready, n < core.m_L1I.length) :
    ∃ core', core.fetch max_warps ready status pendingWrites = some core' ∧
      Inv program threads memory core' := by
  unfold Core.fetch
  cases buffered : core.m_inst_fetch_buffer with
  | some p => exact ⟨core, rfl, inv⟩
  | none =>
    cases ready with
    | none => exact ⟨_, rfl, inv.scan status pendingWrites _ buffered⟩
    | some n =>
      have bound := listed n rfl
      have found := List.getElem?_eq_getElem bound
      obtain ⟨expected, answered⟩ := inv.response (w := core.m_L1I[n].2) found
      refine ⟨_, ?_, answered⟩
      simp [found, expected]

/-! ## Issuing -/

theorem Inv.flush (inv : Inv program threads memory core)
    (running : (core.m_warp w).m_done_exit = false)
    (filled : (core.m_warp w).ibuffer_empty = false) (pc : Nat) :
    ∃ warp, { core.m_warp w with m_next_pc := pc }.ibuffer_flush = some warp ∧
      Inv program threads memory (core.setWarp w warp) ∧
      ((core.setWarp w warp).m_warp w).m_done_exit = false := by
  have warp := inv.warps w
  refine ⟨_, ShdWarp.ibuffer_flush_spec (n := core.in_pipeline w) warp.counted, ?_, ?_⟩
  · refine inv.of_local (w := w) ?_ ?_ inv.acts ?_ fun pc missed _ before => ?_
    · constructor <;> intros <;> simp_all [setWarp]
    · simp only [setWarp, Function.update_self]
      refine ⟨?_, ?_, nofun, nofun, warp.lanes, warp.completed,
        fun done => absurd done (by simp [running]), warp.running⟩
      · simp [ShdWarp.num_inst_in_buffer]
      · simp [ShdWarp.ibuffer_empty]
    · simp only [setWarp, Function.update_self]
    · exact absurd (before.empty.symm.trans filled) (by simp)
  · simp only [setWarp, Function.update_self]
    exact running

theorem counted_free {warp : ShdWarp warp_size ι} {n : Nat}
    (counted : warp.m_inst_in_pipeline = warp.num_inst_in_buffer + n)
    (valid : (warp.m_ibuffer warp.m_next).m_valid = true) :
    warp.ibuffer_free.m_inst_in_pipeline = warp.ibuffer_free.num_inst_in_buffer + (n + 1) := by
  have freed : warp.num_inst_in_buffer = warp.ibuffer_free.num_inst_in_buffer + 1 := by
    rw [ShdWarp.num_inst_in_buffer, ShdWarp.num_inst_in_buffer, ShdWarp.ibuffer_free]
    generalize warp.m_next = next at valid ⊢
    fin_cases next
    · simp only [Fin.zero_eta] at valid ⊢
      simp [valid, Nat.add_comm]
    · simp only [Fin.mk_one] at valid ⊢
      simp [valid]
  show warp.m_inst_in_pipeline = _
  omega

theorem WarpInv.issue {warp : ShdWarp warp_size ι} {s s' : σ} {n : Nat}
    {active : Finset (Fin warp_size)} (inv : WarpInv program threads warp s n active)
    (running : warp.m_done_exit = false) (finished : threads.live s' ⊆ threads.live s)
    {buffer : Fin 2 → IbufferEntry ι} {pipeline : Nat}
    (counted : pipeline = ((buffer 0).m_valid.toNat + (buffer 1).m_valid.toNat) + (n + 1))
    (buffered : buffer = warp.ibuffer_free.m_ibuffer ∨ buffer = fun _ => ⟨none, false⟩)
    (pc : Nat) :
    WarpInv program threads { warp with
        m_active_threads := warp.m_active_threads \ (threads.exits s s').toFinset
        n_completed := warp.n_completed + (threads.exits s s').length
        m_ibuffer := buffer
        m_inst_in_pipeline := pipeline
        m_next_pc := pc
        m_next := warp.m_next + 1 } s' (n + 1) active := by
  have old : ∀ slot, (buffer slot).m_valid = true →
      slot ≠ warp.m_next ∧ buffer slot = warp.m_ibuffer slot := by
    intro slot valid
    rcases buffered with rfl | rfl
    · by_cases own : slot = warp.m_next
      · subst own
        simp [ShdWarp.ibuffer_free] at valid
      · exact ⟨own, by simp [ShdWarp.ibuffer_free, own]⟩
    · cases valid
  have other : ∀ slot, slot ≠ warp.m_next → slot = warp.m_next + 1 := by
    intro slot own
    omega
  refine ⟨counted, fun filled => ?_, fun first => ?_, fun slot i inst => ?_, ?_, ?_,
    fun done => absurd done (by simp [running]), inv.running⟩
  · have ⟨slot, valid⟩ : ∃ slot, (buffer slot).m_valid = true := by
      by_contra none
      simp only [not_exists, Bool.not_eq_true] at none
      have empty := filled.symm.trans (ShdWarp.ibuffer_empty_iff.mpr none)
      cases empty
    show (buffer (warp.m_next + 1)).m_valid = true
    exact other slot (old slot valid).1 ▸ valid
  · obtain ⟨own, same⟩ := old 0 first
    exact absurd (inv.first (same ▸ first)).symm own
  · have kept : (buffer slot).m_valid = true := by
      rcases buffered with rfl | rfl
      · by_cases own : slot = warp.m_next
        · subst own
          simp [ShdWarp.ibuffer_free] at inst
        · simp only [ShdWarp.ibuffer_free, Function.update_of_ne own] at inst ⊢
          exact (inv.insts slot i inst).1
      · cases inst
    have same := (old slot kept).2
    exact ⟨kept, (inv.insts slot i (same ▸ inst)).2⟩
  · show warp.m_active_threads \ (threads.exits s s').toFinset = _
    rw [threads.exits_toFinset, inv.lanes, Finset.sdiff_sdiff_eq_self finished]
  · show warp.n_completed + (threads.exits s s').length + _ = _
    have completed := inv.completed
    have split := Finset.card_sdiff_add_card_eq_card finished
    rw [← List.toFinset_card_of_nodup (threads.exits_nodup s s'), threads.exits_toFinset]
    omega

theorem Inv.issue_warp (inv : Inv program threads memory core)
    (running : (core.m_warp w).m_done_exit = false) {pI : ι}
    (inst : ((core.m_warp w).m_ibuffer (core.m_warp w).m_next).m_inst = some pI)
    (same_pc : threads.top_pc (core.threads w) = program.pc pI) :
    ∃ core', core.issue_warp program threads w pI = some core' ∧
      Inv program threads memory (core'.setWarp w (core'.m_warp w).ibuffer_step) ∧
      ((core'.setWarp w (core'.m_warp w).ibuffer_step).m_warp w).m_done_exit = false := by
  have warp := inv.warps w
  obtain ⟨valid, fetched⟩ := warp.insts _ _ inst
  obtain ⟨s', memory', executed⟩ : ∃ s' memory',
      threads.exec pI (core.threads w) core.memory = (s', memory') := ⟨_, _, rfl⟩
  have finished : threads.live s' ⊆ threads.live (core.threads w) := by
    simpa [executed] using threads.live_exec pI (core.threads w) core.memory
  have members : ∀ lane ∈ threads.exits (core.threads w) s',
      lane ∈ (core.m_warp w).ibuffer_free.m_active_threads := by
    intro lane inside
    rw [← List.mem_toFinset, threads.exits_toFinset, Finset.mem_sdiff] at inside
    exact warp.lanes ▸ inside.1
  obtain ⟨buffer, pipeline, exits, counted, buffered⟩ := ShdWarp.exitTurns_spec
    (core.m_warp w).ibuffer_free (threads.exits_nodup _ _) members
    (counted_free warp.counted valid)
  refine ⟨_, by simp only [Core.issue_warp, executed, exits]; rfl, ?_, ?_⟩
  · refine inv.of_local (w := w) ?_ ?_ ?_ ?_ fun pc missed _ before => ?_
    · constructor <;> intros <;> simp_all [setWarp]
    · simp only [setWarp, Function.update_self]
      exact warp.issue running finished counted buffered _
    · show (core.acts ++ [Act.execute w]).foldlM (threads.act program) _ = _
      rw [List.foldlM_append, inv.acts]
      simp [Functional.act, same_pc, fetched, executed, setWarp]
    · simp only [setWarp, Function.update_self]
      rfl
    · have invalid := ShdWarp.ibuffer_empty_iff.mp before.empty (core.m_warp w).m_next
      exact absurd (invalid.symm.trans valid) (by simp)
  · simp only [setWarp, Function.update_self]
    exact running

theorem Inv.issueTurn (inv : Inv program threads memory core)
    (running : (core.m_warp w).m_done_exit = false)
    (filled : (core.m_warp w).ibuffer_empty = false) (look : Look) :
    ∃ issued core', core.issueTurn program threads w look = some (issued, core') ∧
      Inv program threads memory core' ∧ (core'.m_warp w).m_done_exit = false := by
  have valid := (inv.warps w).next filled
  obtain ⟨flushed, flush, afterFlush⟩ :=
    inv.flush running filled (threads.top_pc (core.threads w))
  unfold Core.issueTurn
  simp only [valid]
  cases inst : ((core.m_warp w).m_ibuffer (core.m_warp w).m_next).m_inst with
  | none =>
    refine ⟨false, core.setWarp w flushed, ?_, afterFlush⟩
    simp only [flush]
    rfl
  | some pI =>
    have counted := counted_free (inv.warps w).counted valid
    have positive : ¬ (core.m_warp w).m_inst_in_pipeline = 0 := by
      rw [ShdWarp.ibuffer_free] at counted
      simp only at counted
      omega
    by_cases same_pc : threads.top_pc (core.threads w) = program.pc pI
    · by_cases collision : look.checkCollision = true
      · exact ⟨false, core, by simp [same_pc, collision], inv, running⟩
      · by_cases free : look.has_free = true
        · obtain ⟨core', issued, afterIssue⟩ := inv.issue_warp running inst same_pc
          refine ⟨true, _, ?_, afterIssue⟩
          simp [same_pc, collision, positive, free, issued]
        · exact ⟨false, core, by simp [same_pc, collision, positive, free], inv, running⟩
    · refine ⟨false, core.setWarp w flushed, ?_, afterFlush⟩
      simp only [flush]
      simp [same_pc]

theorem Inv.issueLoop (looks : Nat → Look) (turns checked issued : Nat)
    (inv : Inv program threads memory core) (running : (core.m_warp w).m_done_exit = false) :
    ∃ core', core.issueLoop program threads max_issue w looks turns checked issued = some core' ∧
      Inv program threads memory core' := by
  induction turns generalizing core checked issued with
  | zero => exact ⟨core, rfl, inv⟩
  | succ turns ih =>
    rw [Core.issueLoop]
    split
    next continues =>
      simp only [Bool.and_eq_true, Bool.not_eq_true'] at continues
      obtain ⟨warp_inst_issued, core', turn, inv, running⟩ :=
        inv.issueTurn running continues.1.1.1.2 (looks checked)
      rw [turn, Option.bind_eq_bind, Option.bind_some]
      exact ih _ _ inv running
    next => exact ⟨core, rfl, inv⟩

/-! ## Memory -/

theorem Inv.do_atomic (inv : Inv program threads memory core) (w : Nat) :
    ∃ core', core.apply program threads max_warps max_issue (.do_atomic w) = some core' ∧
      Inv program threads memory core' := by
  obtain ⟨s, memory', executed⟩ : ∃ s memory',
      threads.do_atomic (core.threads w) core.memory = (s, memory') := ⟨_, _, rfl⟩
  have live : threads.live s = threads.live (core.threads w) := by
    simpa [executed] using threads.live_do_atomic (core.threads w) core.memory
  have warp := inv.warps w
  refine ⟨_, by simp only [apply, executed]; rfl, ?_⟩
  refine inv.of_local (w := w) ?_ ?_ ?_ rfl fun pc missed _ before => before
  · constructor <;> intros <;> simp_all
  · simp only [Function.update_self]
    exact ⟨warp.counted, warp.next, warp.first, warp.insts, live ▸ warp.lanes,
      live ▸ warp.completed, fun done => live ▸ warp.done done, warp.running⟩
  · show (core.acts ++ [Act.do_atomic w]).foldlM (threads.act program) _ = _
    rw [List.foldlM_append, inv.acts]
    simp [Functional.act, executed]

theorem Inv.write (inv : Inv program threads memory core) (m : μ) :
    ∃ core', core.apply program threads max_warps max_issue (.write m) = some core' ∧
      Inv program threads memory core' := by
  refine ⟨_, rfl, inv.warps, ?_, inv.buffer, inv.misses, inv.distinct, inv.imiss⟩
  show (core.acts ++ [Act.write m]).foldlM (threads.act program) _ = _
  rw [List.foldlM_append, inv.acts]
  rfl

/-! ## Runs -/

theorem Inv.new : Inv program threads memory (Core.new threads memory) := by
  refine ⟨fun w => ?_, rfl, nofun, nofun, List.nodup_nil, fun w missed => ?_⟩
  · refine ⟨rfl, nofun, nofun, nofun, threads.live_idle.symm, ?_, fun _ =>
      ⟨threads.live_idle, rfl, rfl, rfl, rfl⟩, nofun⟩
    show warp_size + (threads.live threads.idle).card = warp_size
    rw [threads.live_idle, Finset.card_empty, Nat.add_zero]
  · cases missed

theorem Inv.step (inv : Inv program threads memory core) {e : Event warp_size σ μ}
    (enabled : core.Enabled threads e) :
    ∃ core', core.apply program threads max_warps max_issue e = some core' ∧
      Inv program threads memory core' := by
  cases e with
  | init w active s => exact inv.init enabled.1 enabled.2.1 enabled.2.2
  | fetch ready status pendingWrites => exact inv.fetch enabled
  | decode => exact ⟨_, rfl, inv.decode⟩
  | schedule w looks => exact inv.issueLoop looks max_issue 0 0 enabled
  | complete w => exact inv.complete enabled
  | store w => exact ⟨_, rfl, inv.stores (inv.running_of_in_pipeline enabled) _⟩
  | ack w =>
    refine ⟨_, ?_, inv.stores (inv.running_of_store enabled)
      ((core.m_warp w).m_stores_outstanding - 1)⟩
    exact if_pos enabled
  | do_atomic w => exact inv.do_atomic w
  | write m => exact inv.write m

theorem Reachable.inv (reachable : Reachable program threads max_warps max_issue memory core) :
    Inv program threads memory core := by
  induction reachable with
  | new => exact Inv.new
  | step _ enabled applied ih =>
    obtain ⟨core', stepped, inv⟩ := ih.step enabled
    exact Option.some.inj (applied.symm.trans stepped) ▸ inv

/-- Whatever the rest of the core does, no assertion fails. -/
theorem front_end_never_fails
    (reachable : Reachable program threads max_warps max_issue memory core)
    {e : Event warp_size σ μ} (enabled : core.Enabled threads e) :
    core.apply program threads max_warps max_issue e ≠ none := by
  have ⟨core', (stepped : core.apply program threads max_warps max_issue e = some core'), _⟩ :=
    reachable.inv.step enabled
  rw [stepped]
  exact Option.some_ne_none core'

/-- The acts of a core are acts without a pipeline: each instruction is issued where its warp is,
    and none is lost or issued twice. -/
theorem issued_in_order (reachable : Reachable program threads max_warps max_issue memory core) :
    core.acts.foldlM (threads.act program) (fun _ => threads.idle, memory) =
      some (core.threads, core.memory) :=
  reachable.inv.acts

/-- A warp can get new threads only when nothing of the old ones is left. -/
theorem nothing_left_behind
    (reachable : Reachable program threads max_warps max_issue memory core)
    (done : (core.m_warp w).m_done_exit = true) :
    threads.live (core.threads w) = ∅ ∧ core.in_pipeline w = 0 ∧
      (core.m_warp w).m_stores_outstanding = 0 ∧ (core.m_warp w).ibuffer_empty = true ∧
      (∀ p ∈ core.m_inst_fetch_buffer, p.2 ≠ w) ∧ ∀ p ∈ core.m_L1I, p.2 ≠ w := by
  have inv := reachable.inv
  have warp := inv.warps w
  obtain ⟨dead, stores, pipeline, _⟩ := warp.done done
  have functional := warp.functional_done_iff.mpr dead
  have counted := warp.counted
  rw [pipeline] at counted
  have empty : (core.m_warp w).num_inst_in_buffer = 0 := by omega
  refine ⟨dead, by omega, stores, ?_, inv.quiet fun pc missed waits => ?_⟩
  · rw [ShdWarp.num_inst_in_buffer, Nat.add_eq_zero_iff] at empty
    rw [ShdWarp.ibuffer_empty_iff, Fin.forall_fin_two]
    exact ⟨Bool.toNat_eq_zero.mp empty.1, Bool.toNat_eq_zero.mp empty.2⟩
  · exact absurd (waits.running.symm.trans functional) (by simp)

end Core

/-! ## An instruction that is not issued -/

/-- The instruction at `0` jumps over the one at `8`, and the one at `16` is the last. -/
def jump : Program Nat where
  pc := id
  isize _ := 8
  ptx_fetch_inst a := if a ∈ [0, 8, 16] then some a else none
  pc_of_fetch found := by
    split at found
    · exact (Option.some.inj found).symm
    · cases found

/-- The threads of one warp, of which memory holds the last instruction. -/
def jumping : Functional 1 Nat Nat Nat where
  top_pc := id
  exec i s _ := (if s = 0 then 16 else 24, i)
  do_atomic s m := (s, m)
  live s := if s < 24 then Finset.univ else ∅
  idle := 24
  live_exec i s m := by
    by_cases start : s = 0
    · simp [start]
    · simp [start]
  live_do_atomic s m := rfl
  live_idle := rfl

namespace Core

theorem jump_finished : ∃ core, Reachable jump jumping 1 1 0 core ∧
    core.acts = [.launch 0 0, .execute 0, .execute 0] ∧ (core.m_warp 0).m_done_exit = true := by
  have launched : Reachable jump jumping 1 1 0 _ :=
    .step (e := .init 0 Finset.univ 0) .new ⟨rfl, by decide, rfl⟩ rfl
  have fetched : Reachable jump jumping 1 1 0 _ :=
    .step (e := .fetch none .HIT fun _ => false) launched nofun rfl
  have decoded : Reachable jump jumping 1 1 0 _ := .step (e := .decode) fetched trivial rfl
  have issued : Reachable jump jumping 1 1 0 _ :=
    .step (e := .schedule 0 fun _ => ⟨false, false, true⟩) decoded rfl rfl
  -- the instruction at `8` is there, and is thrown away
  have flushed : Reachable jump jumping 1 1 0 _ :=
    .step (e := .schedule 0 fun _ => ⟨false, false, true⟩) issued rfl rfl
  have missed : Reachable jump jumping 1 1 0 _ :=
    .step (e := .fetch none .MISS fun _ => false) flushed nofun rfl
  have answered : Reachable jump jumping 1 1 0 _ :=
    .step (e := .fetch (some 0) .HIT fun _ => false) missed
      (fun | _, rfl => Nat.zero_lt_one) rfl
  have decoded : Reachable jump jumping 1 1 0 _ := .step (e := .decode) answered trivial rfl
  have issued : Reachable jump jumping 1 1 0 _ :=
    .step (e := .schedule 0 fun _ => ⟨false, false, true⟩) decoded rfl rfl
  have first : Reachable jump jumping 1 1 0 _ :=
    .step (e := .complete 0) issued (Nat.zero_lt_succ 1) rfl
  have second : Reachable jump jumping 1 1 0 _ :=
    .step (e := .complete 0) first (Nat.zero_lt_succ 0) rfl
  have reclaimed : Reachable jump jumping 1 1 0 _ :=
    .step (e := .fetch none .HIT fun _ => false) second nofun rfl
  exact ⟨_, reclaimed, rfl, rfl⟩

theorem front_end_never_fails_jump : ∃ core, Reachable jump jumping 1 1 0 core ∧
    core.apply jump jumping 1 1 (.init 0 Finset.univ 0) ≠ none := by
  obtain ⟨core, reachable, _, done⟩ := jump_finished
  exact ⟨core, reachable, front_end_never_fails reachable ⟨done, by decide, rfl⟩⟩

theorem issued_in_order_jump : ∃ core, Reachable jump jumping 1 1 0 core ∧
    core.acts = [.launch 0 0, .execute 0, .execute 0] ∧
      core.acts.foldlM (jumping.act jump) (fun _ => jumping.idle, 0) =
        some (core.threads, core.memory) := by
  obtain ⟨core, reachable, acts, _⟩ := jump_finished
  exact ⟨core, reachable, acts, issued_in_order reachable⟩

theorem nothing_left_behind_jump : ∃ core, Reachable jump jumping 1 1 0 core ∧
    core.acts = [.launch 0 0, .execute 0, .execute 0] ∧ jumping.live (core.threads 0) = ∅ ∧
      core.in_pipeline 0 = 0 := by
  obtain ⟨core, reachable, acts, done⟩ := jump_finished
  have nothing := nothing_left_behind reachable done
  exact ⟨core, reachable, acts, nothing.1, nothing.2.1⟩

end Core

end AesOnGpu.Scheduler.FrontEnd
