import Mathlib

/-! # CUDA streams

`stream_manager`, `CUstream_st` and `stream_operation` of `stream_manager.cc`, with the
kernel slots of `gpgpu_sim`.  The host thread pushes operations, and the simulation
thread starts and performs them; each of their steps holds the manager's lock.

A stream is a number, and `m_stream_zero` is stream 0; the operand NULL is `none`.
`none` as a result is a failed assertion, an `abort`, or the use of a NULL or dangling
pointer.  What happened is recorded in `history`.
-/

namespace AesOnGpu.Streams

/-- `kernel_info_t`. -/
structure KernelInfo where
  uid : Nat
  threads_per_cta : Nat
  deriving DecidableEq

inductive MemcpyKind where
  | host_to_device
  | device_to_host
  | device_to_device
  | to_symbol
  | from_symbol
  deriving DecidableEq

/-- `stream_operation_type` with what an operation of the type carries.  The operands
    of a copy and the event are told by a number. -/
inductive OperationType where
  | no_op
  | memcpy (kind : MemcpyKind) (operands : Nat)
  | kernel_launch (m_kernel : KernelInfo) (m_sim_mode : Bool)
  | event (m_event : Nat)
  deriving DecidableEq

structure StreamOperation where
  m_type : OperationType
  m_stream : Option Nat
  deriving DecidableEq

/-- The default constructor. -/
def StreamOperation.noop : StreamOperation := ⟨.no_op, none⟩

def StreamOperation.get_kernel (op : StreamOperation) : Option KernelInfo :=
  match op.m_type with
  | .kernel_launch m_kernel _ => some m_kernel
  | _ => none

structure CUstream where
  m_operations : List StreamOperation
  m_pending : Bool

namespace CUstream

def empty (stream : CUstream) : Bool := stream.m_operations.isEmpty

def busy (stream : CUstream) : Bool := stream.m_pending

def push (stream : CUstream) (op : StreamOperation) : CUstream :=
  { stream with m_operations := stream.m_operations ++ [op] }

def record_next_done (stream : CUstream) : Option (CUstream × StreamOperation) :=
  match stream.m_operations with
  | [] => none
  | op :: rest => if stream.m_pending then some (⟨rest, false⟩, op) else none

def next (stream : CUstream) : Option (CUstream × StreamOperation) :=
  stream.m_operations.head?.map fun op => ({ stream with m_pending := true }, op)

end CUstream

/-- The kernel slots of `gpgpu_sim`. -/
structure Gpu where
  n_thread_per_shader : Nat
  m_running_kernels : List (Option KernelInfo)
  m_finished_kernel : List Nat

namespace Gpu

/-- NULL or a kernel that is done; `done` says which kernels have finished. -/
def isFree (done : KernelInfo → Bool) : Option KernelInfo → Bool
  | none => true
  | some kernel => done kernel

def can_start_kernel (gpu : Gpu) (done : KernelInfo → Bool) : Bool :=
  gpu.m_running_kernels.any (isFree done)

def launch (gpu : Gpu) (done : KernelInfo → Bool) (kinfo : KernelInfo) : Option Gpu :=
  if kinfo.threads_per_cta > gpu.n_thread_per_shader then none
  else
    match gpu.m_running_kernels.findIdx? (isFree done) with
    | none => none
    | some n => some { gpu with m_running_kernels := gpu.m_running_kernels.set n (some kinfo) }

/-- 0 is no kernel. -/
def finished_kernel (gpu : Gpu) : Gpu × Nat :=
  match gpu.m_finished_kernel with
  | [] => (gpu, 0)
  | result :: rest => ({ gpu with m_finished_kernel := rest }, result)

def set_kernel_done (gpu : Gpu) (kernel : KernelInfo) : Option Gpu :=
  match gpu.m_running_kernels.findIdx? (· = some kernel) with
  | none => none
  | some k => some { gpu with
      m_finished_kernel := gpu.m_finished_kernel ++ [kernel.uid]
      m_running_kernels := gpu.m_running_kernels.set k none }

def stop_all_running_kernels (gpu : Gpu) : Gpu := { gpu with
  m_finished_kernel := gpu.m_finished_kernel ++
    gpu.m_running_kernels.filterMap fun slot => slot.map KernelInfo.uid
  m_running_kernels := gpu.m_running_kernels.map fun _ => none }

end Gpu

inductive Event where
  | pushed (stream : Nat) (op : StreamOperation)
  | started (stream : Nat) (op : StreamOperation)
  | performed (stream : Nat) (op : StreamOperation)
  | finished (stream : Nat) (op : StreamOperation)
  deriving DecidableEq

structure StreamManager where
  m_cuda_launch_blocking : Bool
  m_gpu : Gpu
  m_streams : List Nat
  streams : Nat → CUstream
  m_grid_id_to_stream : Nat → Option Nat
  m_service_stream_zero : Bool
  history : List Event

namespace StreamManager

def new (m_gpu : Gpu) (m_cuda_launch_blocking : Bool) : StreamManager where
  m_cuda_launch_blocking
  m_gpu
  m_streams := []
  streams _ := ⟨[], false⟩
  m_grid_id_to_stream _ := none
  m_service_stream_zero := false
  history := []

variable (m : StreamManager)

def setStream (stream : Nat) (content : CUstream) : Nat → CUstream :=
  Function.update m.streams stream content

def concurrent_streams_empty : Bool := m.m_streams.all fun stream => (m.streams stream).empty

/-! ## The host thread -/

/-- The operation is skipped if a maximum count is hit.  Waiting for the other streams,
    before and after, does not change the state; another push can come in between. -/
def push (cycle_insn_cta_max_hit : Bool) (op : StreamOperation) : Option StreamManager :=
  if cycle_insn_cta_max_hit then some m
  else
    match op.m_stream, m.m_cuda_launch_blocking with
    | some stream, false =>
      if stream ∈ m.m_streams then
        some { m with
          streams := m.setStream stream ((m.streams stream).push op)
          history := m.history ++ [.pushed stream op] }
      else none
    | _, _ =>
      let op := { op with m_stream := some 0 }
      some { m with
        streams := m.setStream 0 ((m.streams 0).push op)
        history := m.history ++ [.pushed 0 op] }

def add_stream (stream : Nat) : Option StreamManager :=
  if stream = 0 ∨ stream ∈ m.m_streams ∨ (m.streams stream).empty = false then none
  else some { m with m_streams := m.m_streams ++ [stream] }

def destroy_stream (stream : Nat) : Option StreamManager :=
  if stream ∈ m.m_streams ∧ (m.streams stream).empty then
    some { m with m_streams := m.m_streams.erase stream }
  else none

/-! ## The simulation thread -/

/-- `record_next_done` of a stream of the manager. -/
def recordNextDone (stream : Nat) : Option StreamManager :=
  (m.streams stream).record_next_done.map fun result => { m with
    streams := m.setStream stream result.1
    history := m.history ++ [.finished stream result.2] }

def register_finished_kernel (grid_uid : Nat) : Option (StreamManager × Bool) :=
  if grid_uid > 0 then
    match m.m_grid_id_to_stream grid_uid with
    | none => none
    | some stream =>
      match (m.streams stream).m_operations.head?.bind StreamOperation.get_kernel with
      | none => none
      | some kernel =>
        if grid_uid = kernel.uid then
          (m.recordNextDone stream).map fun done => ({ done with
            m_grid_id_to_stream := Function.update done.m_grid_id_to_stream grid_uid none }, true)
        else none
  else some (m, false)

def check_finished_kernel : Option (StreamManager × Bool) :=
  let result := m.m_gpu.finished_kernel
  { m with m_gpu := result.1 }.register_finished_kernel result.2

def readyStream : Option Nat :=
  m.m_streams.find? fun stream => !(m.streams stream).busy && !(m.streams stream).empty

/-- `next` of a stream, as `front` uses it. -/
def take (stream : Nat) : Option (StreamManager × StreamOperation) :=
  (m.streams stream).next.map fun result => ({ m with
    streams := m.setStream stream result.1
    m_grid_id_to_stream :=
      match result.2.get_kernel with
      | some kernel => Function.update m.m_grid_id_to_stream kernel.uid (some stream)
      | none => m.m_grid_id_to_stream
    history := m.history ++ [.started stream result.2] }, result.2)

/-- The flag as `front` begins. -/
def service : StreamManager :=
  if m.concurrent_streams_empty then { m with m_service_stream_zero := true } else m

def front : Option (StreamManager × StreamOperation) :=
  if m.service.m_service_stream_zero then
    if (m.streams 0).empty then
      some ({ m.service with m_service_stream_zero := false }, .noop)
    else if (m.streams 0).busy then some (m.service, .noop)
    else m.service.take 0
  else
    match m.readyStream with
    | some stream => m.service.take stream
    | none => some (m.service, .noop)

def perform (op : StreamOperation) : Option StreamManager :=
  match op.m_stream with
  | none => none
  | some stream =>
    recordNextDone { m with history := m.history ++ [.performed stream op] } stream

/-- `do_operation`.  A functional simulation registers the kernel as finished itself. -/
def do_operation (done : KernelInfo → Bool) (op : StreamOperation) : Option StreamManager :=
  match op.m_type with
  | .no_op => some m
  | .memcpy _ _ => m.perform op
  | .event _ => m.perform op
  | .kernel_launch m_kernel m_sim_mode =>
    match op.m_stream with
    | none => none
    | some stream =>
      if m.m_gpu.can_start_kernel done then
        let performed : StreamManager :=
          { m with history := m.history ++ [.performed stream op] }
        if m_sim_mode then
          (performed.register_finished_kernel m_kernel.uid).map Prod.fst
        else
          (m.m_gpu.launch done m_kernel).map fun m_gpu => { performed with m_gpu }
      else some m

def operation (done : KernelInfo → Bool) : Option StreamManager :=
  match m.check_finished_kernel with
  | none => none
  | some (checked, _) =>
    match checked.front with
    | none => none
    | some (taken, op) => taken.do_operation done op

/-- `while(check_finished_kernel())`, in at most `fuel` rounds. -/
def checkAll : Nat → StreamManager → Option StreamManager
  | 0, m => some m
  | fuel + 1, m =>
    match m.check_finished_kernel with
    | none => none
    | some (checked, true) => checkAll fuel checked
    | some (checked, false) => some checked

def stop_all_running_kernels : Option StreamManager :=
  let m_gpu := m.m_gpu.stop_all_running_kernels
  checkAll (m_gpu.m_finished_kernel.length + 1) { m with m_gpu }

end StreamManager

/-! ## Runs -/

/-- A step of the host thread, of the simulation thread or of the GPU. -/
inductive Action where
  | push (cycle_insn_cta_max_hit : Bool) (op : StreamOperation)
  | add_stream (stream : Nat)
  | destroy_stream (stream : Nat)
  | operation (done : KernelInfo → Bool)
  | stop_all_running_kernels
  | set_kernel_done (kernel : KernelInfo)

/-- Only `front` makes an operation with the default constructor. -/
def Action.Allowed : Action → Prop
  | .push _ op => op.m_type ≠ .no_op
  | _ => True

def StreamManager.act (m : StreamManager) : Action → Option StreamManager
  | .push hit op => m.push hit op
  | .add_stream stream => m.add_stream stream
  | .destroy_stream stream => m.destroy_stream stream
  | .operation done => m.operation done
  | .stop_all_running_kernels => m.stop_all_running_kernels
  | .set_kernel_done kernel =>
    (m.m_gpu.set_kernel_done kernel).map fun m_gpu => { m with m_gpu }

/-- The states passed, each with the step taken there, and the state reached.  At first
    there is no stream but stream zero, and all kernel slots are free. -/
inductive Runs : List (StreamManager × Action) → StreamManager → Prop
  | new (slots n_thread_per_shader : Nat) (blocking : Bool) :
      Runs [] (.new ⟨n_thread_per_shader, List.replicate slots none, []⟩ blocking)
  | step {passed m m'} (action : Action) : Runs passed m → action.Allowed →
      m.act action = some m' → Runs (passed ++ [(m, action)]) m'

end AesOnGpu.Streams
