import AesOnGpu.Streams.Exclusion

/-! # No operation is lost

An operation that `front` takes from its stream is marked as pending there, and
`do_operation` is to perform it.  For a kernel it does so only if a kernel slot is
free; otherwise the operation stays pending and is never tried again.
-/

namespace AesOnGpu.Streams

/-! ## The property -/

def pushedTo (stream : Nat) : Event → Option StreamOperation
  | .pushed stream' op => if stream' = stream then some op else none
  | _ => none

def performedFor (stream : Nat) : Event → Option StreamOperation
  | .performed stream' op => if stream' = stream then some op else none
  | _ => none

def CUstream.waiting (stream : CUstream) : List StreamOperation :=
  if stream.m_pending then stream.m_operations.tail else stream.m_operations

/-- Of each stream, the operations pushed are those performed, once each and in this
    order, and those that wait to be started. -/
def Lossless (m : StreamManager) : Prop :=
  ∀ stream, m.history.filterMap (pushedTo stream) =
    m.history.filterMap (performedFor stream) ++ (m.streams stream).waiting

/-! ## The condition -/

def StreamManager.dueStream (m : StreamManager) : Option Nat :=
  if m.service.m_service_stream_zero then
    if (m.streams 0).empty || (m.streams 0).busy then none else some 0
  else m.readyStream

def StreamManager.dueOperation (m : StreamManager) : Option StreamOperation :=
  m.dueStream.bind fun stream => (m.streams stream).m_operations.head?

def KernelFits (done : KernelInfo → Bool) (m : StreamManager) : Prop :=
  ∀ op kernel, m.dueOperation = some op → op.get_kernel = some kernel →
    m.m_gpu.can_start_kernel done = true

/-- A kernel slot is free for the kernel that is due in a step of the simulation thread,
    once the kernel that has finished is registered. -/
def Fits (m : StreamManager) : Action → Prop
  | .operation done => ∀ checked found, m.check_finished_kernel = some (checked, found) →
      KernelFits done checked
  | _ => True

/-! ## What the invariant needs -/

def Proper (m : StreamManager) : Prop :=
  ∀ stream, ∀ op ∈ (m.streams stream).m_operations, op.m_stream = some stream ∧ op.m_type ≠ .no_op

/-- As `Lossless`, but for operations of a stream that are taken and not yet performed. -/
def Owes (m : StreamManager) (owner : Nat) (taken : List StreamOperation) : Prop :=
  ∀ stream, m.history.filterMap (pushedTo stream) =
    m.history.filterMap (performedFor stream) ++
      ((if stream = owner then taken else []) ++ (m.streams stream).waiting)

variable {m m' : StreamManager}

theorem owes_nil (owner : Nat) : Owes m owner [] ↔ Lossless m := by
  simp [Owes, Lossless]

theorem history_other {event : Event} (history : List Event) (stream : Nat)
    (notPushed : pushedTo stream event = none) (notPerformed : performedFor stream event = none) :
    (history ++ [event]).filterMap (pushedTo stream) = history.filterMap (pushedTo stream) ∧
      (history ++ [event]).filterMap (performedFor stream) =
        history.filterMap (performedFor stream) := by
  simp [List.filterMap_append, notPushed, notPerformed]

theorem Owes.same {owner : Nat} {taken : List StreamOperation} (owes : Owes m owner taken)
    (streams : m'.streams = m.streams) (history : m'.history = m.history) :
    Owes m' owner taken := by
  intro stream
  rw [streams, history]
  exact owes stream

theorem Proper.same (proper : Proper m) (streams : m'.streams = m.streams) : Proper m' := by
  intro stream op here
  rw [streams] at here
  exact proper stream op here

/-! ## The host thread -/

theorem waiting_push {stream : CUstream} (nonempty : stream.m_pending = true → stream.empty = false)
    (op : StreamOperation) : (stream.push op).waiting = stream.waiting ++ [op] := by
  rw [CUstream.push, CUstream.waiting, CUstream.waiting]
  cases pending : stream.m_pending with
  | false => rfl
  | true =>
    cases content : stream.m_operations with
    | nil =>
      have empty := nonempty pending
      rw [CUstream.empty, content] at empty
      cases empty
    | cons head rest => rfl

theorem pushOp_spec (exclusive : Exclusive m) (proper : Proper m) (lossless : Lossless m)
    (stream : Nat) {op : StreamOperation} (own : op.m_stream = some stream)
    (real : op.m_type ≠ .no_op) :
    let pushed := { m with
      streams := m.setStream stream ((m.streams stream).push op)
      history := m.history ++ [.pushed stream op] }
    Proper pushed ∧ Lossless pushed := by
  refine ⟨fun other op' here => ?_, fun other => ?_⟩
  · dsimp only at here
    rw [setStream_apply] at here
    split at here
    · rename_i same
      cases List.mem_append.mp here with
      | inl old => exact same ▸ proper stream op' old
      | inr last =>
        obtain rfl := List.mem_singleton.mp last
        exact same ▸ ⟨own, real⟩
    · exact proper other op' here
  · dsimp only
    rw [setStream_apply, List.filterMap_append, List.filterMap_append, lossless other]
    by_cases here : other = stream
    · subst here
      rw [if_pos rfl, waiting_push (exclusive.nonempty other)]
      simp [pushedTo, performedFor]
    · rw [if_neg here]
      simp [pushedTo, performedFor, Ne.symm here]

theorem push_spec (exclusive : Exclusive m) (proper : Proper m) (lossless : Lossless m)
    {hit : Bool} {op : StreamOperation} (real : op.m_type ≠ .no_op)
    (run : m.push hit op = some m') : Proper m' ∧ Lossless m' := by
  rw [StreamManager.push] at run
  split at run
  · cases run
    exact ⟨proper, lossless⟩
  · split at run
    · rename_i own _
      split at run
      · cases run
        exact pushOp_spec exclusive proper lossless _ own real
      · cases run
    · cases run
      exact pushOp_spec exclusive proper lossless 0 rfl real

/-! ## The simulation thread -/

theorem recordNextDone_spec {stream owner : Nat} {taken : List StreamOperation} (proper : Proper m)
    (owes : Owes m owner taken) (run : m.recordNextDone stream = some m') :
    Proper m' ∧ Owes m' owner taken := by
  rw [StreamManager.recordNextDone] at run
  obtain ⟨result, record, rfl⟩ := Option.map_eq_some_iff.mp run
  rw [CUstream.record_next_done] at record
  split at record
  · cases record
  · rename_i op rest content
    split at record
    on_goal 2 => cases record
    rename_i pending
    cases record
    refine ⟨fun other op' here => ?_, fun other => ?_⟩
    · dsimp only at here
      rw [setStream_apply] at here
      split at here
      · rename_i same
        exact same ▸ proper stream op' (content ▸ List.mem_cons_of_mem op here)
      · exact proper other op' here
    · obtain ⟨pushed, performed⟩ := @history_other (.finished stream op) m.history other rfl rfl
      have waits : ((m.setStream stream ⟨rest, false⟩) other).waiting =
          (m.streams other).waiting := by
        rw [setStream_apply]
        split
        · rename_i same
          rw [same, CUstream.waiting, CUstream.waiting, if_pos pending, content]
          rfl
        · rfl
      dsimp only
      rw [pushed, performed, waits]
      exact owes other

theorem register_spec {grid_uid owner : Nat} {taken : List StreamOperation} {result : Bool}
    (proper : Proper m) (owes : Owes m owner taken)
    (run : m.register_finished_kernel grid_uid = some (m', result)) :
    Proper m' ∧ Owes m' owner taken := by
  rw [StreamManager.register_finished_kernel] at run
  split at run
  · split at run
    · cases run
    · split at run
      · cases run
      · split at run
        · obtain ⟨done, record, eq⟩ := Option.map_eq_some_iff.mp run
          cases eq
          obtain ⟨proper', owes'⟩ := recordNextDone_spec proper owes record
          exact ⟨proper'.same rfl, owes'.same rfl rfl⟩
        · cases run
  · cases run
    exact ⟨proper, owes⟩

theorem check_spec {result : Bool} (proper : Proper m) (lossless : Lossless m)
    (run : m.check_finished_kernel = some (m', result)) : Proper m' ∧ Lossless m' := by
  rw [StreamManager.check_finished_kernel] at run
  have asked : Proper { m with m_gpu := m.m_gpu.finished_kernel.1 } := proper.same rfl
  have owes : Owes { m with m_gpu := m.m_gpu.finished_kernel.1 } 0 [] :=
    ((owes_nil 0).mpr lossless).same rfl rfl
  obtain ⟨proper', owes'⟩ := register_spec asked owes run
  exact ⟨proper', (owes_nil 0).mp owes'⟩

theorem checkAll_spec {fuel : Nat} (proper : Proper m) (lossless : Lossless m)
    (run : StreamManager.checkAll fuel m = some m') : Proper m' ∧ Lossless m' := by
  induction fuel generalizing m with
  | zero =>
    cases run
    exact ⟨proper, lossless⟩
  | succ fuel ih =>
    rw [StreamManager.checkAll] at run
    split at run
    · cases run
    · rename_i checked check
      obtain ⟨proper', lossless'⟩ := check_spec proper lossless check
      exact ih proper' lossless' run
    · rename_i checked check
      cases run
      exact check_spec proper lossless check

theorem front_cases {op : StreamOperation} (run : m.front = some (m', op)) :
    (m.dueOperation = none ∧ op = .noop ∧ m'.streams = m.streams ∧ m'.history = m.history) ∨
    ∃ stream, m.dueOperation = some op ∧ (m.streams stream).m_pending = false ∧
      m.service.take stream = some (m', op) := by
  have taking : ∀ stream, m.dueStream = some stream → (m.streams stream).m_pending = false →
      m.service.take stream = some (m', op) →
      ∃ stream, m.dueOperation = some op ∧ (m.streams stream).m_pending = false ∧
        m.service.take stream = some (m', op) := by
    intro stream due idle take
    refine ⟨stream, ?_, idle, take⟩
    rw [StreamManager.take, service_same.1] at take
    obtain ⟨result, next, eq⟩ := Option.map_eq_some_iff.mp take
    cases eq
    rw [CUstream.next] at next
    obtain ⟨head, content, rfl⟩ := Option.map_eq_some_iff.mp next
    rw [StreamManager.dueOperation, due]
    exact content
  rw [StreamManager.front] at run
  split at run
  · rename_i flag
    split at run
    · rename_i empty
      cases run
      exact Or.inl ⟨by simp [StreamManager.dueOperation, StreamManager.dueStream, flag, empty],
        rfl, service_same.1, service_same.2.2⟩
    · rename_i nonempty
      split at run
      · rename_i busy
        cases run
        exact Or.inl ⟨by simp [StreamManager.dueOperation, StreamManager.dueStream, flag, busy],
          rfl, service_same.1, service_same.2.2⟩
      · rename_i notBusy
        refine Or.inr (taking 0 ?_ (Bool.eq_false_of_not_eq_true notBusy) run)
        simp [StreamManager.dueStream, flag, nonempty, notBusy]
  · rename_i flag
    split at run
    · rename_i stream ready
      have found := List.find?_some ready
      rw [Bool.and_eq_true] at found
      refine Or.inr (taking stream ?_ (by simpa [CUstream.busy] using found.1) run)
      rw [StreamManager.dueStream, if_neg flag]
      exact ready
    · rename_i notReady
      cases run
      exact Or.inl ⟨by simp [StreamManager.dueOperation, StreamManager.dueStream, flag, notReady],
        rfl, service_same.1, service_same.2.2⟩

theorem take_spec {stream : Nat} {op : StreamOperation} (proper : Proper m)
    (lossless : Lossless m) (idle : (m.streams stream).m_pending = false)
    (run : m.take stream = some (m', op)) :
    Proper m' ∧ Owes m' stream [op] ∧ op.m_stream = some stream ∧ op.m_type ≠ .no_op := by
  rw [StreamManager.take] at run
  obtain ⟨result, next, eq⟩ := Option.map_eq_some_iff.mp run
  cases eq
  rw [CUstream.next] at next
  obtain ⟨head, content, rfl⟩ := Option.map_eq_some_iff.mp next
  have split : (m.streams stream).m_operations = head :: (m.streams stream).m_operations.tail :=
    (List.head?_eq_some_iff.mp content).elim fun rest eq => by rw [eq]; rfl
  refine ⟨fun other op' here => ?_, fun other => ?_,
    proper stream head (split ▸ List.mem_cons_self)⟩
  · dsimp only at here
    rw [setStream_apply] at here
    split at here
    · rename_i same
      exact same ▸ proper stream op' here
    · exact proper other op' here
  · obtain ⟨pushed, performed⟩ := @history_other (.started stream head) m.history other rfl rfl
    dsimp only
    rw [pushed, performed, lossless other, setStream_apply]
    split
    · rename_i same
      rw [same, CUstream.waiting, CUstream.waiting, idle]
      simp only [Bool.false_eq_true, if_false, if_true]
      rw [List.singleton_append, ← split]
    · rfl

theorem performed_spec {stream : Nat} {op : StreamOperation} (owes : Owes m stream [op]) :
    Owes { m with history := m.history ++ [.performed stream op] } stream [] := by
  intro other
  have before := owes other
  dsimp only
  rw [List.filterMap_append, List.filterMap_append, before]
  by_cases here : other = stream
  · subst here
    simp [pushedTo, performedFor]
  · simp [pushedTo, performedFor, here, Ne.symm here]

theorem perform_spec {stream : Nat} {op : StreamOperation} (proper : Proper m)
    (owes : Owes m stream [op]) (own : op.m_stream = some stream)
    (run : m.perform op = some m') : Proper m' ∧ Lossless m' := by
  rw [StreamManager.perform, own] at run
  dsimp only at run
  have same : Proper { m with history := m.history ++ [.performed stream op] } := proper.same rfl
  obtain ⟨proper', owes'⟩ := recordNextDone_spec same (performed_spec owes) run
  exact ⟨proper', (owes_nil stream).mp owes'⟩

theorem do_operation_spec {stream : Nat} {op : StreamOperation} {done : KernelInfo → Bool}
    (proper : Proper m) (owes : Owes m stream [op]) (own : op.m_stream = some stream)
    (real : op.m_type ≠ .no_op) (run : m.do_operation done op = some m') :
    Proper m' ∧ (Lossless m' ↔
      ∀ kernel, op.get_kernel = some kernel → m.m_gpu.can_start_kernel done = true) := by
  rw [StreamManager.do_operation] at run
  split at run
  · rename_i noop
    exact absurd noop real
  · rename_i copy
    obtain ⟨proper', lossless⟩ := perform_spec proper owes own run
    have noKernel : op.get_kernel = none := by rw [StreamOperation.get_kernel, copy]
    exact ⟨proper', by simp [noKernel, lossless]⟩
  · rename_i event
    obtain ⟨proper', lossless⟩ := perform_spec proper owes own run
    have noKernel : op.get_kernel = none := by rw [StreamOperation.get_kernel, event]
    exact ⟨proper', by simp [noKernel, lossless]⟩
  · rename_i kernel simMode launch
    have isKernel : op.get_kernel = some kernel := by rw [StreamOperation.get_kernel, launch]
    rw [own] at run
    dsimp only at run
    split at run
    · rename_i free
      have same : Proper { m with history := m.history ++ [.performed stream op] } :=
        proper.same rfl
      have nowDone := performed_spec owes
      split at run
      · obtain ⟨result, register, rfl⟩ := Option.map_eq_some_iff.mp run
        obtain ⟨proper', owes'⟩ := register_spec same nowDone register
        exact ⟨proper', fun _ _ _ => free, fun _ => (owes_nil stream).mp owes'⟩
      · obtain ⟨m_gpu, -, rfl⟩ := Option.map_eq_some_iff.mp run
        exact ⟨proper.same rfl, fun _ _ _ => free,
          fun _ => (owes_nil stream).mp (nowDone.same rfl rfl)⟩
    · rename_i full
      cases run
      refine ⟨proper, fun lossless => ?_, fun fits => absurd (fits kernel isKernel) full⟩
      -- the operation is neither performed nor waiting
      have lost := owes stream
      rw [lossless stream, if_pos rfl] at lost
      have length := congrArg List.length lost
      simp only [List.length_append, List.length_singleton] at length
      omega

theorem operation_spec {done : KernelInfo → Bool} (proper : Proper m) (lossless : Lossless m)
    (run : m.operation done = some m') :
    Proper m' ∧ (Lossless m' ↔ Fits m (.operation done)) := by
  rw [StreamManager.operation] at run
  split at run
  · cases run
  · rename_i checked found check
    obtain ⟨proper', lossless'⟩ := check_spec proper lossless check
    have fits_iff : Fits m (.operation done) ↔ KernelFits done checked := by
      refine ⟨fun fits => fits checked found check, fun fits other found' check' => ?_⟩
      cases check.symm.trans check'
      exact fits
    rw [fits_iff]
    split at run
    · cases run
    · rename_i taken op front
      cases front_cases front with
      | inl idle =>
        obtain ⟨noneDue, rfl, streams, history⟩ := idle
        cases run
        refine ⟨proper'.same streams, fun _ op kernel due => ?_, fun _ => ?_⟩
        · rw [noneDue] at due
          cases due
        · exact (owes_nil 0).mp (((owes_nil 0).mpr lossless').same streams history)
      | inr busy =>
        obtain ⟨stream, due, idle, take⟩ := busy
        have service : Proper checked.service ∧ Lossless checked.service := by
          refine ⟨proper'.same service_same.1, ?_⟩
          exact (owes_nil 0).mp (((owes_nil 0).mpr lossless').same service_same.1 service_same.2.2)
        have stillIdle : (checked.service.streams stream).m_pending = false := by
          rw [service_same.1]
          exact idle
        obtain ⟨proper'', owes, own, real⟩ := take_spec service.1 service.2 stillIdle take
        obtain ⟨performed, lost_iff⟩ := do_operation_spec proper'' owes own real run
        have sameGpu : taken.m_gpu = checked.m_gpu := by
          rw [StreamManager.take] at take
          obtain ⟨result, -, eq⟩ := Option.map_eq_some_iff.mp take
          cases eq
          rw [StreamManager.service]
          split <;> rfl
        refine ⟨performed, lost_iff.trans ?_⟩
        rw [sameGpu]
        constructor
        · intro fits op' kernel due' isKernel
          cases due.symm.trans due'
          exact fits kernel isKernel
        · intro fits kernel isKernel
          exact fits op kernel due isKernel

/-! ## Runs -/

theorem act_spec (exclusive : Exclusive m) (proper : Proper m) (lossless : Lossless m)
    {action : Action} (allowed : action.Allowed) (run : m.act action = some m') :
    Proper m' ∧ (Lossless m' ↔ Fits m action) := by
  cases action with
  | push hit op =>
    obtain ⟨proper', lossless'⟩ := push_spec exclusive proper lossless allowed run
    exact ⟨proper', fun _ => trivial, fun _ => lossless'⟩
  | add_stream stream =>
    rw [StreamManager.act, StreamManager.add_stream] at run
    split at run
    · cases run
    · cases run
      exact ⟨proper, fun _ => trivial, fun _ => lossless⟩
  | destroy_stream stream =>
    rw [StreamManager.act, StreamManager.destroy_stream] at run
    split at run
    · cases run
      exact ⟨proper, fun _ => trivial, fun _ => lossless⟩
    · cases run
  | operation done => exact operation_spec proper lossless run
  | stop_all_running_kernels =>
    have same : Proper { m with m_gpu := m.m_gpu.stop_all_running_kernels } := proper.same rfl
    obtain ⟨proper', lossless'⟩ := checkAll_spec same lossless run
    exact ⟨proper', fun _ => trivial, fun _ => lossless'⟩
  | set_kernel_done kernel =>
    obtain ⟨m_gpu, -, rfl⟩ := Option.map_eq_some_iff.mp run
    exact ⟨proper.same rfl, fun _ => trivial, fun _ => lossless⟩

/-- A run loses no operation, in any state it passes, exactly if a kernel slot is free
    whenever a kernel is due. -/
theorem lossless_iff {passed : List (StreamManager × Action)} (runs : Runs passed m) :
    ((∀ before ∈ passed, Lossless before.1) ∧ Lossless m) ↔
      ∀ before ∈ passed, Fits before.1 before.2 := by
  suffices known : ((∀ before ∈ passed, Lossless before.1) ∧ Lossless m ↔
      ∀ before ∈ passed, Fits before.1 before.2) ∧
      ((∀ before ∈ passed, Lossless before.1) ∧ Lossless m → Proper m) from known.1
  induction runs with
  | new slots threads blocking =>
    refine ⟨⟨fun _ => by simp, fun _ => ⟨by simp, fun _ => rfl⟩⟩, fun _ _ _ here => ?_⟩
    cases here
  | @step passed m m' action runs allowed run ih =>
    obtain ⟨ih_iff, proper⟩ := ih
    have exclusive := exclusive_of_runs runs
    have forall_snoc : ∀ P : StreamManager × Action → Prop,
        (∀ before ∈ passed ++ [(m, action)], P before) ↔
          (∀ before ∈ passed, P before) ∧ P (m, action) := by
      intro P
      simp only [List.forall_mem_append, List.forall_mem_singleton]
    rw [forall_snoc, forall_snoc, ← ih_iff]
    refine ⟨⟨?_, ?_⟩, ?_⟩
    · rintro ⟨before, after⟩
      exact ⟨before, (act_spec exclusive (proper before) before.2 allowed run).2.mp after⟩
    · rintro ⟨before, fits⟩
      exact ⟨before, (act_spec exclusive (proper before) before.2 allowed run).2.mpr fits⟩
    · rintro ⟨before, -⟩
      exact (act_spec exclusive (proper before) before.2 allowed run).1

/-- A kernel is launched on one of two slots. -/
theorem lossless_iff_launched :
    let op : StreamOperation := ⟨.kernel_launch ⟨1, 32⟩ false, some 0⟩
    ∃ passed m, Runs passed m ∧ Lossless m ∧
      m.history = [.pushed 0 op, .started 0 op, .performed 0 op] := by
  intro op
  have start := Runs.new 2 32 false
  have pushed := start.step (.push false ⟨.kernel_launch ⟨1, 32⟩ false, none⟩)
    OperationType.noConfusion rfl
  have launched := pushed.step (.operation fun _ => false) trivial rfl
  refine ⟨_, _, launched, ((lossless_iff launched).mpr fun before here => ?_).2, rfl⟩
  simp only [List.nil_append, List.cons_append, List.mem_cons, List.not_mem_nil,
    or_false] at here
  cases here with
  | inl first =>
    subst first
    trivial
  | inr second =>
    subst second
    intro checked found check op' kernel due isKernel
    cases check
    rfl

/-- Two kernels and one slot: the second operation is taken from its stream while the slot
    is busy.  It is not performed, and it does not wait. -/
theorem second_kernel_lost : ¬ ∀ passed m, Runs passed m → Lossless m := by
  intro lossless
  have first := (Runs.new 1 32 false).step (.add_stream 1) trivial rfl
  have second := first.step (.add_stream 2) trivial rfl
  have push₁ := second.step (.push false ⟨.kernel_launch ⟨1, 32⟩ false, some 1⟩)
    OperationType.noConfusion rfl
  have push₂ := push₁.step (.push false ⟨.kernel_launch ⟨2, 32⟩ false, some 2⟩)
    OperationType.noConfusion rfl
  have launched := push₂.step (.operation fun _ => false) trivial rfl
  have lost := launched.step (.operation fun _ => false) trivial rfl
  cases lossless _ _ lost 2

end AesOnGpu.Streams
