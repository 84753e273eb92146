import Mathlib

/-! # Pointers to local memory

The generic address space gives each hardware thread a window for its local
memory.  `cvta` adds the local stack pointer of the thread to an address on the way
into the window, and takes nothing away on the way back, so a local pointer
survives when the callers have no local frames (`survives_iff`).
-/

namespace AesOnGpu.Ptx

/-- `addr_t`. -/
abbrev Addr := BitVec 32

def GLOBAL_HEAP_START : Addr := 0x80000000
def SHARED_MEM_SIZE_MAX : Addr := 64 * 1024
def LOCAL_MEM_SIZE_MAX : Addr := 8 * 1024
def MAX_STREAMING_MULTIPROCESSORS : Addr := 64
def MAX_THREAD_PER_SM : Addr := 2048
def TOTAL_LOCAL_MEM_PER_SM : Addr := MAX_THREAD_PER_SM * LOCAL_MEM_SIZE_MAX
def TOTAL_SHARED_MEM : Addr := MAX_STREAMING_MULTIPROCESSORS * SHARED_MEM_SIZE_MAX
def TOTAL_LOCAL_MEM : Addr := MAX_STREAMING_MULTIPROCESSORS * MAX_THREAD_PER_SM * LOCAL_MEM_SIZE_MAX
def SHARED_GENERIC_START : Addr := GLOBAL_HEAP_START - TOTAL_SHARED_MEM
def LOCAL_GENERIC_START : Addr := SHARED_GENERIC_START - TOTAL_LOCAL_MEM
def STATIC_ALLOC_LIMIT : Addr := GLOBAL_HEAP_START - (TOTAL_LOCAL_MEM + TOTAL_SHARED_MEM)

inductive Space where
  | global_space
  | param_space_local
  | local_space
  | tex_space
  | surf_space
  | param_space_kernel
  | shared_space
  | const_space
  | generic_space
  deriving DecidableEq

inductive Memory where
  | global_memory
  | m_local_mem
  | tex_memory
  | surf_memory
  | param_memory
  | m_shared_mem
  deriving DecidableEq

/-! ## Generic addresses -/

def global_to_generic (addr : Addr) : Addr := addr

def generic_to_global (addr : Addr) : Addr := addr

def shared_to_generic (smid addr : Addr) : Option Addr :=
  if addr < SHARED_MEM_SIZE_MAX then
    some (SHARED_GENERIC_START + smid * SHARED_MEM_SIZE_MAX + addr)
  else none

def isspace_shared (smid addr : Addr) : Bool :=
  let start := SHARED_GENERIC_START + smid * SHARED_MEM_SIZE_MAX
  let stop := SHARED_GENERIC_START + (smid + 1) * SHARED_MEM_SIZE_MAX
  ¬ (addr ≥ stop ∨ addr < start)

def generic_to_shared (smid addr : Addr) : Option Addr :=
  if isspace_shared smid addr then some (addr - (SHARED_GENERIC_START + smid * SHARED_MEM_SIZE_MAX))
  else none

def local_to_generic (smid hwtid addr : Addr) : Option Addr :=
  if addr < LOCAL_MEM_SIZE_MAX then
    some (LOCAL_GENERIC_START + TOTAL_LOCAL_MEM_PER_SM * smid + LOCAL_MEM_SIZE_MAX * hwtid + addr)
  else none

def isspace_local (smid hwtid addr : Addr) : Bool :=
  let start := LOCAL_GENERIC_START + TOTAL_LOCAL_MEM_PER_SM * smid + LOCAL_MEM_SIZE_MAX * hwtid
  let stop := LOCAL_GENERIC_START + TOTAL_LOCAL_MEM_PER_SM * smid + LOCAL_MEM_SIZE_MAX * (hwtid + 1)
  ¬ (addr ≥ stop ∨ addr < start)

def generic_to_local (smid hwtid addr : Addr) : Option Addr :=
  if isspace_local smid hwtid addr then
    some (addr -
      (LOCAL_GENERIC_START + TOTAL_LOCAL_MEM_PER_SM * smid + LOCAL_MEM_SIZE_MAX * hwtid))
  else none

def whichspace (addr : Addr) : Space :=
  if addr ≥ GLOBAL_HEAP_START ∨ addr < STATIC_ALLOC_LIMIT then .global_space
  else if addr ≥ SHARED_GENERIC_START then .shared_space
  else .local_space

/-! ## Threads -/

structure FunctionInfo where
  local_mem_framesize : Addr

structure ThreadInfo where
  m_hw_sid : Addr
  m_hw_tid : Addr
  /-- The version of the PTX file is at least 2.0. -/
  ver2 : Bool
  m_func_info : FunctionInfo
  m_callstack : List (Option FunctionInfo)
  m_local_mem_stack_pointer : Addr

/-- `callstack_push`, and the jump into the callee. -/
def ThreadInfo.callstack_push (thread : ThreadInfo) (target_func : FunctionInfo) : ThreadInfo :=
  { thread with
    m_callstack := some thread.m_func_info :: thread.m_callstack
    m_local_mem_stack_pointer :=
      thread.m_local_mem_stack_pointer + thread.m_func_info.local_mem_framesize
    m_func_info := target_func }

/-- A thread that returns from its kernel ends and is in no function any more. -/
def ThreadInfo.callstack_pop (thread : ThreadInfo) : Option ThreadInfo :=
  match thread.m_callstack with
  | some m_func_info :: m_callstack =>
    if thread.m_local_mem_stack_pointer ≥ m_func_info.local_mem_framesize then
      some { thread with
        m_callstack
        m_local_mem_stack_pointer :=
          thread.m_local_mem_stack_pointer - m_func_info.local_mem_framesize
        m_func_info }
    else none
  | _ => none

inductive ThreadInfo.Run (start : ThreadInfo) : ThreadInfo → Prop where
  | start : Run start start
  | call {thread : ThreadInfo} (target_func : FunctionInfo) : Run start thread →
      Run start (thread.callstack_push target_func)
  | ret {thread thread' : ThreadInfo} : Run start thread → thread.callstack_pop = some thread' →
      Run start thread'

def ThreadInfo.Starts (thread : ThreadInfo) : Prop :=
  thread.m_callstack = [none] ∧ thread.m_local_mem_stack_pointer = 0

/-! ## Instructions -/

def cvta_impl (thread : ThreadInfo) (space : Space) (to_non_generic : Bool)
    (from_addr : BitVec 64) : Option (BitVec 64) :=
  let from_addr_hw := from_addr.setWidth 32
  let smid := thread.m_hw_sid
  let hwtid := thread.m_hw_tid
  let to_addr_hw :=
    if to_non_generic then
      match space with
      | .shared_space => generic_to_shared smid from_addr_hw
      | .local_space => generic_to_local smid hwtid from_addr_hw
      | .global_space => some (generic_to_global from_addr_hw)
      | _ => none
    else
      match space with
      | .shared_space => shared_to_generic smid from_addr_hw
      | .local_space =>
        (local_to_generic smid hwtid from_addr_hw).map (· + thread.m_local_mem_stack_pointer)
      | .global_space => some (global_to_generic from_addr_hw)
      | _ => none
  to_addr_hw.map (·.setWidth 64)

def decode_space (thread : ThreadInfo) (space : Space) (addr : Addr) : Option (Memory × Addr) :=
  match space with
  | .global_space => some (.global_memory, addr)
  | .param_space_local => some (.m_local_mem, addr + thread.m_local_mem_stack_pointer)
  | .local_space => some (.m_local_mem, addr + thread.m_local_mem_stack_pointer)
  | .tex_space => some (.tex_memory, addr)
  | .surf_space => some (.surf_memory, addr)
  | .param_space_kernel => some (.param_memory, addr)
  | .shared_space => some (.m_shared_mem, addr)
  | .const_space => some (.global_memory, addr)
  | .generic_space =>
    if thread.ver2 then
      match whichspace addr with
      | .global_space => some (.global_memory, generic_to_global addr)
      | .local_space =>
        (generic_to_local thread.m_hw_sid thread.m_hw_tid addr).map fun addr => (.m_local_mem, addr)
      | .shared_space =>
        (generic_to_shared thread.m_hw_sid addr).map fun addr => (.m_shared_mem, addr)
      | _ => none
    else none

/-- The bytes that a load or a store of `elements` values of `size` bytes each
    accesses; its address is in a register. -/
def accessed (thread : ThreadInfo) (space : Space) (elements size : Nat) (reg : BitVec 64) :
    Option (Memory × List Addr) :=
  (decode_space thread space (reg.setWidth 32)).map fun (mem, addr) =>
    (mem, (List.range (elements * size)).map fun byte => addr + BitVec.ofNat 32 byte)

def ThreadInfo.callerFrames (thread : ThreadInfo) : Addr :=
  ((thread.m_callstack.filterMap id).map FunctionInfo.local_mem_framesize).sum

def ThreadInfo.window (thread : ThreadInfo) : Addr :=
  LOCAL_GENERIC_START + TOTAL_LOCAL_MEM_PER_SM * thread.m_hw_sid +
    LOCAL_MEM_SIZE_MAX * thread.m_hw_tid

/-- The address comes back from the conversion to a generic address, and the generic
    address reaches its bytes, then and after any calls and returns. -/
def ThreadInfo.Survives (thread : ThreadInfo) (x : Addr) : Prop :=
  (cvta_impl thread .local_space false (x.setWidth 64)).bind
      (cvta_impl thread .local_space true) = some (x.setWidth 64) ∧
  ∀ later, thread.Run later → ∀ elements size,
    (cvta_impl thread .local_space false (x.setWidth 64)).bind
        (accessed later .generic_space elements size) =
      accessed thread .local_space elements size (x.setWidth 64)

/-! ## The local stack pointer -/

theorem ThreadInfo.Run.stack_pointer {start thread : ThreadInfo} (hs : start.Starts)
    (hr : start.Run thread) : thread.m_local_mem_stack_pointer = thread.callerFrames := by
  induction hr with
  | start =>
    obtain ⟨hstack, hpointer⟩ := hs
    simp [callerFrames, hstack, hpointer]
  | call target_func _ ih =>
    simp only [callstack_push, callerFrames, ih, List.filterMap_cons, id, List.map_cons,
      List.sum_cons]
    exact BitVec.add_comm _ _
  | @ret thread thread' _ hpop ih =>
    unfold callstack_pop at hpop
    split at hpop
    next caller rest hstack =>
      split at hpop
      · cases hpop
        -- The frame on top is the one that the stack pointer gives back.
        have hsum : thread.callerFrames = caller.local_mem_framesize +
            ((rest.filterMap id).map FunctionInfo.local_mem_framesize).sum := by
          simp [callerFrames, hstack]
        simp only [ih, hsum]
        rw [BitVec.add_comm, BitVec.add_sub_cancel, callerFrames]
      · cases hpop
    · cases hpop

theorem ThreadInfo.Run.same_slot {start thread : ThreadInfo} (hr : start.Run thread) :
    thread.m_hw_sid = start.m_hw_sid ∧ thread.m_hw_tid = start.m_hw_tid ∧
      thread.ver2 = start.ver2 := by
  induction hr with
  | start => exact ⟨rfl, rfl, rfl⟩
  | call target_func _ ih => exact ih
  | ret _ hpop ih =>
    unfold callstack_pop at hpop
    split at hpop
    · split at hpop
      · cases hpop
        exact ih
      · cases hpop
    · cases hpop

/-! ## The window of a thread -/

theorem ThreadInfo.window_aligned (thread : ThreadInfo) : thread.window.toNat % 8192 = 0 := by
  simp [window, LOCAL_GENERIC_START, SHARED_GENERIC_START, GLOBAL_HEAP_START, TOTAL_SHARED_MEM,
    TOTAL_LOCAL_MEM, TOTAL_LOCAL_MEM_PER_SM, MAX_STREAMING_MULTIPROCESSORS, MAX_THREAD_PER_SM,
    SHARED_MEM_SIZE_MAX, LOCAL_MEM_SIZE_MAX, BitVec.toNat_add, BitVec.toNat_mul]
  omega

theorem whichspace_eq_local_iff (addr : Addr) :
    whichspace addr = .local_space ↔ 0x3FC00000 ≤ addr.toNat ∧ addr.toNat < 0x7FC00000 := by
  have hlimit : STATIC_ALLOC_LIMIT = 0x3FC00000#32 := by decide
  have hshared : SHARED_GENERIC_START = 0x7FC00000#32 := by decide
  have hheap : GLOBAL_HEAP_START = 0x80000000#32 := rfl
  simp only [whichspace, hheap, hlimit, hshared, ge_iff_le, BitVec.le_def,
    BitVec.lt_def, BitVec.toNat_ofNat]
  split
  next h =>
    simp only [reduceCtorEq, false_iff]
    omega
  next h =>
    split
    next h' =>
      simp only [reduceCtorEq, false_iff]
      omega
    next h' =>
      simp only [true_iff]
      omega

theorem lt_local_mem_size_max (x : Addr) : x < LOCAL_MEM_SIZE_MAX ↔ x.toNat < 8192 := by
  simp [LOCAL_MEM_SIZE_MAX, BitVec.lt_def]

theorem ThreadInfo.whichspace_window (thread : ThreadInfo) {x : Addr}
    (hx : x < LOCAL_MEM_SIZE_MAX) : whichspace (thread.window + x) = .local_space ↔
      whichspace thread.window = .local_space := by
  have halign := thread.window_aligned
  rw [lt_local_mem_size_max] at hx
  simp only [whichspace_eq_local_iff, BitVec.toNat_add]
  have hlt := thread.window.isLt
  omega

theorem ThreadInfo.isspace_local_iff (thread : ThreadInfo) (addr : Addr) :
    isspace_local thread.m_hw_sid thread.m_hw_tid addr = true ↔
      thread.window ≤ addr ∧ addr < thread.window + LOCAL_MEM_SIZE_MAX := by
  have hstop : LOCAL_GENERIC_START + TOTAL_LOCAL_MEM_PER_SM * thread.m_hw_sid +
      LOCAL_MEM_SIZE_MAX * (thread.m_hw_tid + 1) = thread.window + LOCAL_MEM_SIZE_MAX := by
    rw [BitVec.mul_add, mul_one, ← BitVec.add_assoc, window]
  simp only [isspace_local, hstop, decide_eq_true_eq, not_or, ge_iff_le, BitVec.not_le,
    BitVec.not_lt]
  exact and_comm

theorem ThreadInfo.isspace_local_window (thread : ThreadInfo) {x : Addr}
    (hx : x < LOCAL_MEM_SIZE_MAX) (hspace : whichspace thread.window = .local_space) :
    isspace_local thread.m_hw_sid thread.m_hw_tid (thread.window + x) = true := by
  rw [isspace_local_iff]
  rw [whichspace_eq_local_iff] at hspace
  rw [lt_local_mem_size_max] at hx
  have hmax : LOCAL_MEM_SIZE_MAX.toNat = 8192 := rfl
  have halign := thread.window_aligned
  simp only [BitVec.le_def, BitVec.lt_def, BitVec.toNat_add, hmax]
  omega

theorem ThreadInfo.window_local (thread : ThreadInfo)
    (hsid : thread.m_hw_sid < MAX_STREAMING_MULTIPROCESSORS)
    (htid : thread.m_hw_tid < MAX_THREAD_PER_SM) : whichspace thread.window = .local_space := by
  simp only [MAX_STREAMING_MULTIPROCESSORS, MAX_THREAD_PER_SM, BitVec.lt_def] at hsid htid
  rw [whichspace_eq_local_iff]
  simp [window, LOCAL_GENERIC_START, SHARED_GENERIC_START, GLOBAL_HEAP_START, TOTAL_SHARED_MEM,
    TOTAL_LOCAL_MEM, TOTAL_LOCAL_MEM_PER_SM, MAX_STREAMING_MULTIPROCESSORS, MAX_THREAD_PER_SM,
    SHARED_MEM_SIZE_MAX, LOCAL_MEM_SIZE_MAX, BitVec.toNat_add, BitVec.toNat_mul] at hsid htid ⊢
  omega

/-! ## Conversions -/

theorem cvta_local (thread : ThreadInfo) (x : Addr) :
    cvta_impl thread .local_space false (x.setWidth 64) =
      if x < LOCAL_MEM_SIZE_MAX then
        some ((thread.window + x + thread.m_local_mem_stack_pointer).setWidth 64)
      else none := by
  simp only [cvta_impl, local_to_generic, ThreadInfo.window]
  split <;> simp_all

theorem cvta_to_local (thread : ThreadInfo) (addr : Addr) :
    cvta_impl thread .local_space true (addr.setWidth 64) =
      if isspace_local thread.m_hw_sid thread.m_hw_tid addr then
        some ((addr - thread.window).setWidth 64)
      else none := by
  simp only [cvta_impl, generic_to_local, ThreadInfo.window]
  split <;> simp_all

theorem setWidth_64_inj {x y : Addr} (h : x.setWidth 64 = y.setWidth 64) : x = y := by
  have h32 := congrArg (BitVec.setWidth 32) h
  simpa using h32

theorem ThreadInfo.pointer_of_roundtrip {thread : ThreadInfo} {x : Addr}
    (h : (cvta_impl thread .local_space false (x.setWidth 64)).bind
      (cvta_impl thread .local_space true) = some (x.setWidth 64)) :
    x < LOCAL_MEM_SIZE_MAX ∧ thread.m_local_mem_stack_pointer = 0 := by
  rw [cvta_local] at h
  split at h
  next hx =>
    rw [Option.bind_some, cvta_to_local] at h
    split at h
    next =>
      have hback := setWidth_64_inj (Option.some.inj h)
      rw [BitVec.add_assoc, BitVec.add_comm, BitVec.add_sub_cancel] at hback
      exact ⟨hx, by simpa using hback⟩
    next => cases h
  next => cases h

theorem accessed_generic {thread later : ThreadInfo} {x : Addr}
    (hsid : later.m_hw_sid = thread.m_hw_sid) (htid : later.m_hw_tid = thread.m_hw_tid) (hver : later.ver2 = true)
    (hx : x < LOCAL_MEM_SIZE_MAX) (hspace : whichspace thread.window = .local_space)
    (elements size : Nat) :
    accessed later .generic_space elements size ((thread.window + x).setWidth 64) =
      some (.m_local_mem, (List.range (elements * size)).map fun byte =>
        x + BitVec.ofNat 32 byte) := by
  have hwindow : generic_to_local later.m_hw_sid later.m_hw_tid (thread.window + x) = some x := by
    rw [generic_to_local, hsid, htid, if_pos (thread.isspace_local_window hx hspace)]
    change some (thread.window + x - thread.window) = some x
    rw [BitVec.add_comm, BitVec.add_sub_cancel]
  simp [accessed, decode_space, hver, (thread.whichspace_window hx).mpr hspace, hwindow]

theorem accessed_local (thread : ThreadInfo) (x : Addr) (elements size : Nat) :
    accessed thread .local_space elements size (x.setWidth 64) =
      some (.m_local_mem, (List.range (elements * size)).map fun byte =>
        x + thread.m_local_mem_stack_pointer + BitVec.ofNat 32 byte) := by
  simp [accessed, decode_space]

theorem generic_of_accessed_local {thread : ThreadInfo} {elements size : Nat} {addr : Addr}
    {bytes : List Addr}
    (h : accessed thread .generic_space elements size (addr.setWidth 64) =
      some (.m_local_mem, bytes)) :
    thread.ver2 = true ∧ whichspace addr = .local_space := by
  cases hver : thread.ver2 with
  | false => simp [accessed, decode_space, hver] at h
  | true =>
    cases hspace : whichspace addr with
    | local_space => exact ⟨rfl, rfl⟩
    | global_space | shared_space => simp [accessed, decode_space, hver, hspace] at h
    | _ => simp [accessed, decode_space, hver, hspace] at h

/-! ## Local pointers -/

theorem generic_access_at_depth {thread later : ThreadInfo} {x : Addr}
    (hr : thread.Run later) (hver : thread.ver2 = true) (hx : x < LOCAL_MEM_SIZE_MAX)
    (hframe : x + thread.m_local_mem_stack_pointer < LOCAL_MEM_SIZE_MAX)
    (hspace : whichspace thread.window = .local_space) (elements size : Nat) :
    (cvta_impl thread .local_space false (x.setWidth 64)).bind
        (accessed later .generic_space elements size) =
      accessed thread .local_space elements size (x.setWidth 64) := by
  obtain ⟨hsid, htid, hver'⟩ := hr.same_slot
  rw [cvta_local, if_pos hx, Option.bind_some, accessed_local, BitVec.add_assoc]
  exact accessed_generic hsid htid (hver'.trans hver) hframe hspace elements size

/-- A local pointer survives exactly when the local frames of the callers add up to
    nothing, in the kernel's own body for one. -/
theorem survives_iff {start thread : ThreadInfo} (hs : start.Starts) (hr : start.Run thread)
    (x : Addr) :
    thread.Survives x ↔ thread.callerFrames = 0 ∧ x < LOCAL_MEM_SIZE_MAX ∧ thread.ver2 = true ∧
      whichspace thread.window = .local_space := by
  have hpointer := hr.stack_pointer hs
  constructor
  · rintro ⟨hround, hreach⟩
    obtain ⟨hx, hzero⟩ := ThreadInfo.pointer_of_roundtrip hround
    -- The thread itself is enough to see the space of the pointer.
    have hhere := hreach thread .start 0 0
    rw [cvta_local, if_pos hx, Option.bind_some, hzero, add_zero, accessed_local] at hhere
    obtain ⟨hver, hspace⟩ := generic_of_accessed_local hhere
    exact ⟨hpointer ▸ hzero, hx, hver, (thread.whichspace_window hx).mp hspace⟩
  · rintro ⟨hframes, hx, hver, hspace⟩
    have hzero : thread.m_local_mem_stack_pointer = 0 := hpointer.trans hframes
    constructor
    · rw [cvta_local, if_pos hx, Option.bind_some, cvta_to_local, hzero, add_zero,
        if_pos (thread.isspace_local_window hx hspace), BitVec.add_comm, BitVec.add_sub_cancel]
    · intro later hlater elements size
      have hframe : x + thread.m_local_mem_stack_pointer < LOCAL_MEM_SIZE_MAX := by
        rwa [hzero, add_zero]
      exact generic_access_at_depth hlater hver hx hframe hspace elements size

/-- A kernel thread on core 1 whose function has a frame of 8 bytes. -/
def kernelThread : ThreadInfo where
  m_hw_sid := 1
  m_hw_tid := 3
  ver2 := true
  m_func_info := ⟨8⟩
  m_callstack := [none]
  m_local_mem_stack_pointer := 0

theorem survives_iff_kernelThread : kernelThread.Survives 4 :=
  (survives_iff ⟨rfl, rfl⟩ .start 4).mpr ⟨by decide, by decide, rfl, by decide⟩

/-- In a function that the thread calls, a local address comes back 8 higher. -/
theorem callee_pointer_lost :
    ∃ thread : ThreadInfo, kernelThread.Starts ∧ kernelThread.Run thread ∧
      (cvta_impl thread .local_space false 4).bind (cvta_impl thread .local_space true) =
        some 12 ∧
      ¬ thread.Survives 4 := by
  refine ⟨kernelThread.callstack_push ⟨0⟩, ⟨rfl, rfl⟩, .call ⟨0⟩ .start, by decide, ?_⟩
  rintro ⟨hround, -⟩
  revert hround
  decide

end AesOnGpu.Ptx
