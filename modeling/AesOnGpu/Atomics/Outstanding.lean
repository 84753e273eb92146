import AesOnGpu.Coalescing.Atomic

/-! # Outstanding atomics

A warp counts the atomics of its threads that have not come back.  The count goes up in
`checkExecutionStatusAndUpdate`, once for each lane that was active when the loop came
to it, also when the guard predicate took the lane out of the mask there.  It goes down
by the threads of a request that is written back, or of the whole instruction when it is
in shared memory.  `none` is a failed assertion.

`waiting`, `executed` and `applied` are not in the source: they tell which threads have
executed an atomic whose response has not been written back, which have executed one at
all, and how often each was applied to memory.  A thread is named with the number of
its instruction.
-/

namespace AesOnGpu.Atomics

open Coalescing

inductive AtomSpace where
  | global_space
  | shared_space
  deriving DecidableEq

/-- An atomic that a warp issues: the mask on top of its stack, and what its threads make
    of the guard predicate and of the address. -/
structure Atom (W : Nat) where
  warp_id : Nat
  space : AtomSpace
  data_size : Nat
  line_number : Nat
  active_mask : Finset (Fin W)
  skip : Fin W → Bool
  last_eaddr : Fin W → Address

/-! ## Execution of the lanes -/

/-- The fields of the instruction that change, and the count of its warp. -/
structure Executing (W : Nat) where
  m_warp_active_mask : Finset (Fin W)
  m_isatomic : Bool
  m_per_scalar_thread_valid : Bool
  /-- The lanes whose `callback.thread` is set. -/
  callbacks : Finset (Fin W)
  m_n_atomic : Nat

variable {W : Nat}

def Executing.add_callback (inst : Executing W) (lane : Fin W) : Executing W :=
  { inst with
    m_isatomic := if inst.m_per_scalar_thread_valid then inst.m_isatomic else true
    m_per_scalar_thread_valid := true
    callbacks := insert lane inst.callbacks }

/-- `ptx_exec_inst`; the callback is added also for a lane that is skipped. -/
def Executing.ptx_exec_inst (inst : Executing W) (atom : Atom W) (lane : Fin W) : Executing W :=
  if atom.skip lane then
    { inst with m_warp_active_mask := inst.m_warp_active_mask.erase lane }.add_callback lane
  else inst.add_callback lane

def Executing.checkExecutionStatusAndUpdate (inst : Executing W) : Executing W :=
  if inst.m_isatomic then { inst with m_n_atomic := inst.m_n_atomic + 1 } else inst

def Executing.lane (atom : Atom W) (inst : Executing W) (t : Fin W) : Executing W :=
  if t ∈ inst.m_warp_active_mask then (inst.ptx_exec_inst atom t).checkExecutionStatusAndUpdate
  else inst

def execute_warp_inst_t (atom : Atom W) (m_n_atomic : Nat) : Executing W :=
  (List.finRange W).foldl (Executing.lane atom) ⟨atom.active_mask, false, false, ∅, m_n_atomic⟩

/-! ## The core -/

/-- A request, or an instruction in the pipeline of the shared memory with its mask. -/
structure Pending (W : Nat) where
  inst : Nat
  warp_id : Nat
  space : AtomSpace
  m_isatomic : Bool
  callbacks : Finset (Fin W)
  mask : Finset (Fin W)
  answered : Bool

structure AtomicCore (W : Nat) where
  m_n_atomic : Nat → Nat
  pending : List (Pending W)
  instructions : Nat
  waiting : Nat → Finset (Nat × Fin W)
  executed : Finset (Nat × Fin W)
  applied : Nat → Fin W → Nat

def AtomicCore.new : AtomicCore W where
  m_n_atomic _ := 0
  pending := []
  instructions := 0
  waiting _ := ∅
  executed := ∅
  applied _ _ := 0

/-- A thread with the number of its instruction. -/
def named (inst : Nat) (mask : Finset (Fin W)) : Finset (Nat × Fin W) :=
  mask.map ⟨fun t => (inst, t), fun _ _ h => (Prod.mk.inj h).2⟩

inductive Event (W : Nat) where
  | issue (atom : Atom W)
  | answer (k : Nat)
  | writeback (k : Nat)
  | shared_writeback (k : Nat)

section

variable (config : CoreConfig)

/-- `generate_mem_accesses`: the masks of the requests. -/
def generate_mem_accesses (atom : Atom config.warp_size)
    (m_warp_active_mask : Finset (Fin config.warp_size)) :
    Option (List (Finset (Fin config.warp_size))) :=
  if m_warp_active_mask.card = 0 then some []
  else
    let inst : WarpInst config.warp_size :=
      { data_size := atom.data_size
        space := .global_space
        line_number := atom.line_number
        m_warp_active_mask
        memreqaddr := fun t access => if access = 0 then atom.last_eaddr t else 0 }
    (memoryCoalescingArch13Atomic config inst false .GLOBAL_ACC_R []).map fun m_accessq =>
      m_accessq.map MemAccess.m_warp_mask

/-- What the load-store unit gets for an atomic. -/
def requests (atom : Atom config.warp_size) (inst : Nat) (executing : Executing config.warp_size) :
    Option (List (Pending config.warp_size)) :=
  let pending (mask : Finset (Fin config.warp_size)) : Pending config.warp_size :=
    ⟨inst, atom.warp_id, atom.space, executing.m_isatomic, executing.callbacks, mask, false⟩
  match atom.space with
  | .global_space =>
    (generate_mem_accesses config atom executing.m_warp_active_mask).map (·.map pending)
  | .shared_space => some [pending executing.m_warp_active_mask]

def AtomicCore.issue_warp (core : AtomicCore config.warp_size) (atom : Atom config.warp_size) :
    Option (AtomicCore config.warp_size) :=
  let executing := execute_warp_inst_t atom (core.m_n_atomic atom.warp_id)
  let threads := named core.instructions executing.m_warp_active_mask
  (requests config atom core.instructions executing).map fun pending =>
    { core with
      m_n_atomic := Function.update core.m_n_atomic atom.warp_id executing.m_n_atomic
      pending := core.pending ++ pending
      instructions := core.instructions + 1
      waiting := Function.update core.waiting atom.warp_id (core.waiting atom.warp_id ∪ threads)
      executed := core.executed ∪ threads }

end

/-- `do_atomic` for the threads of a mask. -/
def AtomicCore.do_atomic (core : AtomicCore W) (request : Pending W) : Option (AtomicCore W) :=
  if request.m_isatomic then
    some { core with
      applied := fun inst t =>
        if inst = request.inst ∧ t ∈ request.mask ∩ request.callbacks then core.applied inst t + 1
        else core.applied inst t }
  else none

def AtomicCore.decrement_atomic_count (core : AtomicCore W) (request : Pending W) :
    Option (AtomicCore W) :=
  if core.m_n_atomic request.warp_id ≥ request.mask.card then
    some { core with
      m_n_atomic := Function.update core.m_n_atomic request.warp_id
        (core.m_n_atomic request.warp_id - request.mask.card)
      waiting := Function.update core.waiting request.warp_id
        (core.waiting request.warp_id \ named request.inst request.mask) }
  else none

def AtomicCore.answer (core : AtomicCore W) (k : Nat) (request : Pending W) :
    Option (AtomicCore W) :=
  if request.m_isatomic then
    { core with pending := core.pending.set k { request with answered := true } }.do_atomic request
  else some { core with pending := core.pending.set k { request with answered := true } }

/-- The client `global/local` of `writeback`. -/
def AtomicCore.writeback (core : AtomicCore W) (k : Nat) (request : Pending W) :
    Option (AtomicCore W) :=
  if request.m_isatomic then
    { core with pending := core.pending.eraseIdx k }.decrement_atomic_count request
  else some { core with pending := core.pending.eraseIdx k }

/-- The client `shared memory` of `writeback`. -/
def AtomicCore.shared_writeback (core : AtomicCore W) (k : Nat) (request : Pending W) :
    Option (AtomicCore W) :=
  if request.m_isatomic then do
    let core ← { core with pending := core.pending.eraseIdx k }.do_atomic request
    core.decrement_atomic_count request
  else some { core with pending := core.pending.eraseIdx k }

inductive Step (config : CoreConfig) (core : AtomicCore config.warp_size) :
    Event config.warp_size → Option (AtomicCore config.warp_size) → Prop where
  | issue {atom : Atom config.warp_size} {core' : AtomicCore config.warp_size} :
      core.issue_warp config atom = some core' → Step config core (.issue atom) (some core')
  | answer {k : Nat} {request : Pending config.warp_size} : core.pending[k]? = some request →
      request.space = .global_space → request.answered = false →
      Step config core (.answer k) (core.answer k request)
  | writeback {k : Nat} {request : Pending config.warp_size} : core.pending[k]? = some request →
      request.space = .global_space → request.answered = true →
      Step config core (.writeback k) (core.writeback k request)
  | shared_writeback {k : Nat} {request : Pending config.warp_size} :
      core.pending[k]? = some request → request.space = .shared_space →
      Step config core (.shared_writeback k) (core.shared_writeback k request)

inductive Run (config : CoreConfig) (allowed : Event config.warp_size → Prop) :
    AtomicCore config.warp_size → Prop where
  | new : Run config allowed AtomicCore.new
  | step {core core' : AtomicCore config.warp_size} {event : Event config.warp_size} :
      Run config allowed core → Step config core event (some core') → allowed event →
      Run config allowed core'

/-! ## The law -/

structure Balanced (config : CoreConfig) (core : AtomicCore config.warp_size) : Prop where
  /-- The count of a warp is the number of its threads that wait for their atomic. -/
  counted : ∀ warp_id, core.m_n_atomic warp_id = (core.waiting warp_id).card
  /-- No assertion fails. -/
  asserts : ∀ event, ¬ Step config core event none
  /-- No atomic is applied twice, or without having been executed. -/
  atMostOnce : ∀ inst t, core.applied inst t ≤ 1 ∧
    (core.applied inst t = 1 → (inst, t) ∈ core.executed)
  /-- An executed atomic has been applied, or a request for it is not answered yet. -/
  applied : ∀ inst t, (inst, t) ∈ core.executed → core.applied inst t = 1 ∨
    ∃ request ∈ core.pending, request.inst = inst ∧ t ∈ request.mask ∧ request.answered = false
  /-- A warp without an atomic in flight is not held. -/
  free : ∀ warp_id, (∀ request ∈ core.pending, request.warp_id ≠ warp_id) →
    core.m_n_atomic warp_id = 0

/-- No lane of an atomic is skipped, and in global memory all lanes are in one of the two
    halves of the warp. -/
def Unskipped (config : CoreConfig) : Event config.warp_size → Prop
  | .issue atom => ∀ t ∈ atom.active_mask, atom.skip t = false ∧
    (atom.space = .global_space → t.val < config.warp_size / 2 * 2)
  | _ => True

/-! ## What the lanes leave -/

theorem lane_active {atom : Atom W} {inst : Executing W} {t : Fin W}
    (hvalid : inst.m_per_scalar_thread_valid = true → inst.m_isatomic = true)
    (ht : t ∈ inst.m_warp_active_mask) :
    Executing.lane atom inst t =
      ⟨if atom.skip t then inst.m_warp_active_mask.erase t else inst.m_warp_active_mask, true, true,
        insert t inst.callbacks, inst.m_n_atomic + 1⟩ := by
  have hatomic : (if inst.m_per_scalar_thread_valid then inst.m_isatomic else true) = true := by
    split
    next hset => exact hvalid hset
    next => rfl
  cases hskip : atom.skip t with
  | true =>
    simp [Executing.lane, ht, Executing.ptx_exec_inst, hskip, Executing.add_callback, hatomic,
      Executing.checkExecutionStatusAndUpdate]
  | false =>
    simp [Executing.lane, ht, Executing.ptx_exec_inst, hskip, Executing.add_callback, hatomic,
      Executing.checkExecutionStatusAndUpdate]

theorem foldl_lane (atom : Atom W) {lanes : List (Fin W)} (hnodup : lanes.Nodup)
    (inst : Executing W)
    (hvalid : inst.m_per_scalar_thread_valid = true → inst.m_isatomic = true) :
    (∀ t, t ∈ (lanes.foldl (Executing.lane atom) inst).m_warp_active_mask ↔
      t ∈ inst.m_warp_active_mask ∧ ¬ (t ∈ lanes ∧ atom.skip t = true)) ∧
    (∀ t, t ∈ (lanes.foldl (Executing.lane atom) inst).callbacks ↔
      t ∈ inst.callbacks ∨ t ∈ lanes ∧ t ∈ inst.m_warp_active_mask) ∧
    (lanes.foldl (Executing.lane atom) inst).m_n_atomic =
      inst.m_n_atomic + (lanes.filter (· ∈ inst.m_warp_active_mask)).length ∧
    ((lanes.foldl (Executing.lane atom) inst).m_isatomic = true ↔
      inst.m_isatomic = true ∨ ∃ t ∈ lanes, t ∈ inst.m_warp_active_mask) := by
  induction lanes generalizing inst with
  | nil => simp
  | cons t lanes ih =>
    obtain ⟨hnew, hrest⟩ := List.nodup_cons.mp hnodup
    rw [List.foldl_cons]
    by_cases ht : t ∈ inst.m_warp_active_mask
    · rw [lane_active hvalid ht]
      obtain ⟨hmask, hcallbacks, hcount, hatomic⟩ := ih hrest
        ⟨if atom.skip t then inst.m_warp_active_mask.erase t else inst.m_warp_active_mask, true,
          true, insert t inst.callbacks, inst.m_n_atomic + 1⟩ fun _ => rfl
      -- The lanes after `t` find the mask as it was for them.
      have hsame (s : Fin W) (hs : s ∈ lanes) :
          s ∈ (if atom.skip t then inst.m_warp_active_mask.erase t else inst.m_warp_active_mask) ↔
            s ∈ inst.m_warp_active_mask := by
        have hne : s ≠ t := fun heq => hnew (heq ▸ hs)
        split <;> simp [hne]
      refine ⟨fun s => ?_, fun s => ?_, ?_, ?_⟩
      · rw [hmask s]
        by_cases hst : s = t
        · subst hst
          cases atom.skip s <;> simp [ht, hnew]
        · cases atom.skip t <;> simp [hst]
      · rw [hcallbacks s]
        by_cases hst : s = t
        · subst hst
          simp [ht]
        · constructor
          · rintro (hin | ⟨hs, hactive⟩)
            · exact .inl (by simpa [hst] using hin)
            · exact .inr ⟨List.mem_cons_of_mem t hs, (hsame s hs).mp hactive⟩
          · rintro (hin | ⟨hs, hactive⟩)
            · exact .inl (Finset.mem_insert_of_mem hin)
            · have hlater : s ∈ lanes := by simpa [hst] using hs
              exact .inr ⟨hlater, (hsame s hlater).mpr hactive⟩
      · have hfilter : lanes.filter (· ∈ if atom.skip t then inst.m_warp_active_mask.erase t
            else inst.m_warp_active_mask) = lanes.filter (· ∈ inst.m_warp_active_mask) :=
          List.filter_congr fun s hs => decide_eq_decide.mpr (hsame s hs)
        rw [hcount, List.filter_cons_of_pos (by simpa using ht), List.length_cons]
        change inst.m_n_atomic + 1 + (lanes.filter _).length = _
        rw [hfilter]
        omega
      · rw [hatomic]
        simp [ht]
    · have hlane : Executing.lane atom inst t = inst := if_neg ht
      rw [hlane]
      obtain ⟨hmask, hcallbacks, hcount, hatomic⟩ := ih hrest inst hvalid
      refine ⟨fun s => ?_, fun s => ?_, ?_, ?_⟩
      · rw [hmask s]
        by_cases hst : s = t
        · simp [hst, ht]
        · simp [hst]
      · rw [hcallbacks s]
        by_cases hst : s = t
        · simp [hst, ht]
        · simp [hst]
      · rw [hcount, List.filter_cons_of_neg (by simpa using ht)]
      · rw [hatomic]
        simp [ht]

theorem filter_finRange_length (mask : Finset (Fin W)) :
    ((List.finRange W).filter (· ∈ mask)).length = mask.card := by
  have hnodup : ((List.finRange W).filter (· ∈ mask)).Nodup := (List.nodup_finRange W).filter _
  rw [← List.toFinset_card_of_nodup hnodup]
  congr 1
  ext t
  simp

theorem execute_warp_inst_t_spec (atom : Atom W) (m_n_atomic : Nat) :
    (execute_warp_inst_t atom m_n_atomic).m_warp_active_mask =
      atom.active_mask.filter (atom.skip · = false) ∧
    (execute_warp_inst_t atom m_n_atomic).callbacks = atom.active_mask ∧
    (execute_warp_inst_t atom m_n_atomic).m_n_atomic = m_n_atomic + atom.active_mask.card ∧
    ((execute_warp_inst_t atom m_n_atomic).m_isatomic = true ↔ atom.active_mask.Nonempty) := by
  obtain ⟨hmask, hcallbacks, hcount, hatomic⟩ := foldl_lane atom (List.nodup_finRange W)
    ⟨atom.active_mask, false, false, ∅, m_n_atomic⟩ fun h => h
  refine ⟨?_, ?_, ?_, ?_⟩
  · ext t
    simpa [execute_warp_inst_t] using hmask t
  · ext t
    simpa [execute_warp_inst_t] using hcallbacks t
  · rw [execute_warp_inst_t, hcount, filter_finRange_length]
  · rw [execute_warp_inst_t, hatomic]
    simp [Finset.Nonempty]

end AesOnGpu.Atomics
