import AesOnGpu.Streams.StreamManager

/-! # What runs at the same time

An operation of stream zero is in progress only while none of another stream is, and a
stream has at most one operation in progress.
-/

namespace AesOnGpu.Streams

/-! ## What the history says -/

def isStarted (stream : Nat) : Event → Bool
  | .started stream' _ => stream' = stream
  | _ => false

def isFinished (stream : Nat) : Event → Bool
  | .finished stream' _ => stream' = stream
  | _ => false

def inProgress (history : List Event) (stream : Nat) : Int :=
  history.countP (isStarted stream) - history.countP (isFinished stream)

def ZeroAlone (history : List Event) : Prop :=
  ∀ before after op, history = before ++ .started 0 op :: after →
    ∀ stream, stream ≠ 0 → inProgress before stream = 0

theorem inProgress_snoc (history : List Event) (event : Event) (stream : Nat) :
    inProgress (history ++ [event]) stream = inProgress history stream +
      (if isStarted stream event then 1 else 0) - if isFinished stream event then 1 else 0 := by
  simp only [inProgress, List.countP_append, List.countP_singleton]
  split <;> split <;> push_cast <;> omega

theorem ZeroAlone.snoc {history : List Event} {event : Event} (before : ZeroAlone history)
    (now : ∀ op, event = .started 0 op → ∀ stream, stream ≠ 0 → inProgress history stream = 0) :
    ZeroAlone (history ++ [event]) := by
  intro first after op split stream other
  cases after using List.reverseRecOn with
  | nil =>
    obtain ⟨rfl, eq⟩ := List.append_inj' split rfl
    exact now op (List.head_eq_of_cons_eq eq) stream other
  | append_singleton rest last =>
    have regroup : first ++ .started 0 op :: (rest ++ [last]) =
        first ++ .started 0 op :: rest ++ [last] := by simp
    rw [regroup] at split
    obtain ⟨same, -⟩ := List.append_inj' split rfl
    exact before first rest op same stream other

/-! ## The invariant -/

/-- The flag tells whose operations may be in progress, and `m_pending` counts them. -/
structure Exclusive (m : StreamManager) : Prop where
  progress : ∀ stream, inProgress m.history stream = (m.streams stream).m_pending.toNat
  nonempty : ∀ stream, (m.streams stream).m_pending = true → (m.streams stream).empty = false
  known : ∀ stream, (m.streams stream).m_pending = true → stream = 0 ∨ stream ∈ m.m_streams
  zero : m.m_service_stream_zero = false → (m.streams 0).m_pending = false
  others : m.m_service_stream_zero = true →
    ∀ stream, stream ≠ 0 → (m.streams stream).m_pending = false
  alone : ZeroAlone m.history
  list : 0 ∉ m.m_streams

variable {m m' : StreamManager}

theorem exclusive_new (m_gpu : Gpu) (blocking : Bool) : Exclusive (.new m_gpu blocking) where
  progress _ := rfl
  nonempty _ pending := by cases pending
  known _ pending := by cases pending
  zero _ := rfl
  others _ _ _ := rfl
  alone before after op split := by simp [StreamManager.new] at split
  list := List.not_mem_nil

theorem Exclusive.same (exclusive : Exclusive m) (streams : m'.streams = m.streams)
    (list : m'.m_streams = m.m_streams) (flag : m'.m_service_stream_zero = m.m_service_stream_zero)
    (history : m'.history = m.history) : Exclusive m' := by
  obtain ⟨progress, nonempty, known, zero, others, alone, noZero⟩ := exclusive
  constructor
  · rwa [streams, history]
  · rwa [streams]
  · rwa [streams, list]
  · rwa [streams, flag]
  · rwa [streams, flag]
  · rwa [history]
  · rwa [list]

theorem Exclusive.quiet (exclusive : Exclusive m) {event : Event}
    (noStart : ∀ stream, isStarted stream event = false)
    (noFinish : ∀ stream, isFinished stream event = false) :
    Exclusive { m with history := m.history ++ [event] } where
  progress stream := by
    rw [inProgress_snoc, noStart, noFinish, exclusive.progress]
    simp
  nonempty := exclusive.nonempty
  known := exclusive.known
  zero := exclusive.zero
  others := exclusive.others
  alone := exclusive.alone.snoc fun op eq => by
    have start := noStart 0
    rw [eq] at start
    simp [isStarted] at start
  list := exclusive.list

theorem setStream_apply (stream : Nat) (content : CUstream) (other : Nat) :
    m.setStream stream content other = if other = stream then content else m.streams other := by
  rw [StreamManager.setStream, Function.update_apply]

/-! ## The host thread -/

theorem Exclusive.pushOp (exclusive : Exclusive m) (stream : Nat) (op : StreamOperation) :
    Exclusive { m with
      streams := m.setStream stream ((m.streams stream).push op)
      history := m.history ++ [.pushed stream op] } := by
  have pending : ∀ other, (m.setStream stream ((m.streams stream).push op) other).m_pending =
      (m.streams other).m_pending := by
    intro other
    rw [setStream_apply]
    split
    · rename_i here
      rw [here]
      rfl
    · rfl
  have quiet := @Exclusive.quiet m exclusive (.pushed stream op) (fun _ => rfl) fun _ => rfl
  constructor
  · intro other
    rw [pending]
    exact quiet.progress other
  · intro other busy
    rw [pending] at busy
    have before := exclusive.nonempty other busy
    dsimp only
    rw [setStream_apply]
    split
    · simp [CUstream.push, CUstream.empty]
    · exact before
  · intro other busy
    rw [pending] at busy
    exact exclusive.known other busy
  · intro flag
    rw [pending]
    exact exclusive.zero flag
  · intro flag other different
    rw [pending]
    exact exclusive.others flag other different
  · exact quiet.alone
  · exact exclusive.list

theorem Exclusive.push (exclusive : Exclusive m) {hit : Bool} {op : StreamOperation}
    (run : m.push hit op = some m') : Exclusive m' := by
  rw [StreamManager.push] at run
  split at run
  · cases run
    exact exclusive
  · split at run
    · split at run
      · cases run
        exact exclusive.pushOp _ op
      · cases run
    · cases run
      exact exclusive.pushOp 0 _

theorem Exclusive.add_stream (exclusive : Exclusive m) {stream : Nat}
    (run : m.add_stream stream = some m') : Exclusive m' := by
  rw [StreamManager.add_stream] at run
  split at run
  · cases run
  · rename_i new
    cases run
    refine ⟨exclusive.progress, exclusive.nonempty, fun other busy => ?_, exclusive.zero,
      exclusive.others, exclusive.alone, fun listed => ?_⟩
    · cases exclusive.known other busy with
      | inl zero => exact Or.inl zero
      | inr known => exact Or.inr (List.mem_append_left _ known)
    · cases List.mem_append.mp listed with
      | inl old => exact exclusive.list old
      | inr last => exact new (Or.inl (List.mem_singleton.mp last).symm)

theorem Exclusive.destroy_stream (exclusive : Exclusive m) {stream : Nat}
    (run : m.destroy_stream stream = some m') : Exclusive m' := by
  rw [StreamManager.destroy_stream] at run
  split at run
  · rename_i can
    cases run
    refine ⟨exclusive.progress, exclusive.nonempty, fun other busy => ?_, exclusive.zero,
      exclusive.others, exclusive.alone, fun listed => exclusive.list (List.mem_of_mem_erase listed)⟩
    cases exclusive.known other busy with
    | inl zero => exact Or.inl zero
    | inr known =>
      -- an empty stream has nothing in progress
      have different : other ≠ stream := by
        rintro rfl
        have nonempty := exclusive.nonempty other busy
        rw [can.2] at nonempty
        cases nonempty
      exact Or.inr ((List.mem_erase_of_ne different).mpr known)
  · cases run

/-! ## The simulation thread -/

theorem Exclusive.recordNextDone (exclusive : Exclusive m) {stream : Nat}
    (run : m.recordNextDone stream = some m') : Exclusive m' := by
  rw [StreamManager.recordNextDone] at run
  obtain ⟨result, record, rfl⟩ := Option.map_eq_some_iff.mp run
  rw [CUstream.record_next_done] at record
  split at record
  · cases record
  · rename_i op rest content
    split at record
    on_goal 2 => cases record
    rename_i pending
    cases record
    have idle : ∀ other, (m.streams other).m_pending = false →
        (m.setStream stream ⟨rest, false⟩ other).m_pending = false := by
      intro other notBusy
      rw [setStream_apply]
      split
      · rfl
      · exact notBusy
    have busyBefore : ∀ other, (m.setStream stream ⟨rest, false⟩ other).m_pending = true →
        other ≠ stream ∧ (m.streams other).m_pending = true := by
      intro other busy
      rw [setStream_apply] at busy
      split at busy
      · cases busy
      · rename_i different
        exact ⟨different, busy⟩
    constructor
    · intro other
      dsimp only
      rw [inProgress_snoc, exclusive.progress, setStream_apply]
      by_cases here : other = stream
      · subst here
        simp [isStarted, isFinished, pending]
      · simp [isStarted, isFinished, here, Ne.symm here]
    · intro other busy
      obtain ⟨different, before⟩ := busyBefore other busy
      dsimp only
      rw [setStream_apply, if_neg different]
      exact exclusive.nonempty other before
    · intro other busy
      exact exclusive.known other (busyBefore other busy).2
    · exact fun flag => idle 0 (exclusive.zero flag)
    · exact fun flag other different => idle other (exclusive.others flag other different)
    · exact exclusive.alone.snoc fun op eq => (by cases eq)
    · exact exclusive.list

theorem Exclusive.register (exclusive : Exclusive m) {grid_uid : Nat} {result : Bool}
    (run : m.register_finished_kernel grid_uid = some (m', result)) : Exclusive m' := by
  rw [StreamManager.register_finished_kernel] at run
  split at run
  · split at run
    · cases run
    · split at run
      · cases run
      · split at run
        · obtain ⟨done, record, eq⟩ := Option.map_eq_some_iff.mp run
          cases eq
          exact (exclusive.recordNextDone record).same rfl rfl rfl rfl
        · cases run
  · cases run
    exact exclusive

theorem Exclusive.check (exclusive : Exclusive m) {result : Bool}
    (run : m.check_finished_kernel = some (m', result)) : Exclusive m' := by
  rw [StreamManager.check_finished_kernel] at run
  have asked : Exclusive { m with m_gpu := m.m_gpu.finished_kernel.1 } :=
    exclusive.same rfl rfl rfl rfl
  exact asked.register run

theorem Exclusive.checkAll {fuel : Nat} (exclusive : Exclusive m)
    (run : StreamManager.checkAll fuel m = some m') : Exclusive m' := by
  induction fuel generalizing m with
  | zero =>
    cases run
    exact exclusive
  | succ fuel ih =>
    rw [StreamManager.checkAll] at run
    split at run
    · cases run
    · rename_i checked check
      exact ih (exclusive.check check) run
    · rename_i checked check
      cases run
      exact exclusive.check check

theorem service_same : m.service.streams = m.streams ∧ m.service.m_streams = m.m_streams ∧
    m.service.history = m.history := by
  rw [StreamManager.service]
  split <;> exact ⟨rfl, rfl, rfl⟩

theorem Exclusive.service (exclusive : Exclusive m) : Exclusive m.service := by
  rw [StreamManager.service]
  split
  · rename_i empty
    refine ⟨exclusive.progress, exclusive.nonempty, exclusive.known, fun flag => (by cases flag),
      fun _ stream other => ?_, exclusive.alone, exclusive.list⟩
    by_contra busy
    have pending := Bool.eq_true_of_not_eq_false busy
    have nonempty := exclusive.nonempty stream pending
    cases exclusive.known stream pending with
    | inl zero => exact other zero
    | inr known =>
      rw [List.all_eq_true.mp empty stream known] at nonempty
      cases nonempty
  · exact exclusive

theorem Exclusive.take (exclusive : Exclusive m) {stream : Nat} {op : StreamOperation}
    (idle : (m.streams stream).m_pending = false)
    (allowed : if stream = 0 then m.m_service_stream_zero = true
      else m.m_service_stream_zero = false ∧ stream ∈ m.m_streams)
    (run : m.take stream = some (m', op)) : Exclusive m' := by
  rw [StreamManager.take] at run
  obtain ⟨result, next, eq⟩ := Option.map_eq_some_iff.mp run
  cases eq
  rw [CUstream.next] at next
  obtain ⟨head, content, rfl⟩ := Option.map_eq_some_iff.mp next
  have nonempty : (m.streams stream).empty = false := by
    cases operations : (m.streams stream).m_operations with
    | nil =>
      rw [operations] at content
      cases content
    | cons _ _ => simp [CUstream.empty, operations]
  have other_pending : ∀ other, other ≠ stream →
      (m.setStream stream { m.streams stream with m_pending := true } other) = m.streams other :=
    fun other different => by rw [setStream_apply, if_neg different]
  constructor
  · intro other
    dsimp only
    rw [inProgress_snoc, exclusive.progress, setStream_apply]
    by_cases here : other = stream
    · subst here
      simp [isStarted, isFinished, idle]
    · simp [isStarted, isFinished, here, Ne.symm here]
  · intro other busy
    dsimp only at busy ⊢
    rw [setStream_apply] at busy ⊢
    split
    · exact nonempty
    · rename_i different
      rw [if_neg different] at busy
      exact exclusive.nonempty other busy
  · intro other busy
    dsimp only at busy
    by_cases here : other = stream
    · by_cases zero : stream = 0
      · exact Or.inl (here.trans zero)
      · rw [if_neg zero] at allowed
        exact Or.inr (here ▸ allowed.2)
    · rw [other_pending other here] at busy
      exact exclusive.known other busy
  · intro flag
    dsimp only at flag ⊢
    by_cases zero : stream = 0
    · rw [if_pos zero, flag] at allowed
      cases allowed
    · rw [other_pending 0 (Ne.symm zero)]
      exact exclusive.zero flag
  · intro flag other different
    dsimp only at flag ⊢
    by_cases zero : stream = 0
    · rw [other_pending other (by rw [zero]; exact different)]
      exact exclusive.others flag other different
    · rw [if_neg zero, flag] at allowed
      cases allowed.1
  · refine exclusive.alone.snoc fun started eq other different => ?_
    obtain ⟨rfl, -⟩ := Event.started.inj eq
    rw [if_pos rfl] at allowed
    rw [exclusive.progress, exclusive.others allowed other different]
    rfl
  · exact exclusive.list

theorem Exclusive.front (exclusive : Exclusive m) {op : StreamOperation}
    (run : m.front = some (m', op)) : Exclusive m' := by
  have serviced := exclusive.service
  rw [StreamManager.front] at run
  split at run
  · rename_i flag
    split at run
    · -- stream zero is done
      rename_i empty
      cases run
      have idle : (m.streams 0).m_pending = false := by
        by_contra busy
        have nonempty := exclusive.nonempty 0 (Bool.eq_true_of_not_eq_false busy)
        rw [empty] at nonempty
        cases nonempty
      refine ⟨serviced.progress, serviced.nonempty, serviced.known, fun _ => ?_,
        fun up => (by cases up), serviced.alone, serviced.list⟩
      dsimp only
      rw [service_same.1]
      exact idle
    · split at run
      · cases run
        exact serviced
      · rename_i notBusy
        refine serviced.take ?_ ?_ run
        · rw [service_same.1]
          exact Bool.eq_false_of_not_eq_true notBusy
        · rw [if_pos rfl]
          exact flag
  · rename_i flag
    split at run
    · rename_i stream ready
      have found := List.find?_some ready
      have known := List.mem_of_find?_eq_some ready
      rw [Bool.and_eq_true] at found
      have notBusy : (m.streams stream).m_pending = false := by simpa [CUstream.busy] using found.1
      have notEmpty : (m.streams stream).empty = false := by simpa using found.2
      refine serviced.take ?_ ?_ run
      · rw [service_same.1]
        exact notBusy
      · split
        · rename_i zero
          exact absurd (zero ▸ known) exclusive.list
        · rw [service_same.2.1]
          exact ⟨Bool.eq_false_of_not_eq_true flag, known⟩
    · cases run
      exact serviced

theorem Exclusive.perform (exclusive : Exclusive m) {op : StreamOperation}
    (run : m.perform op = some m') : Exclusive m' := by
  rw [StreamManager.perform] at run
  split at run
  · cases run
  · rename_i stream _
    have quiet := @Exclusive.quiet m exclusive (.performed stream op) (fun _ => rfl) fun _ => rfl
    exact quiet.recordNextDone run

theorem Exclusive.do_operation (exclusive : Exclusive m) {done : KernelInfo → Bool}
    {op : StreamOperation} (run : m.do_operation done op = some m') : Exclusive m' := by
  rw [StreamManager.do_operation] at run
  split at run
  · cases run
    exact exclusive
  · exact exclusive.perform run
  · exact exclusive.perform run
  · split at run
    · cases run
    · rename_i stream _
      have quiet := @Exclusive.quiet m exclusive (.performed stream op) (fun _ => rfl) fun _ => rfl
      split at run
      · dsimp only at run
        split at run
        · obtain ⟨result, register, rfl⟩ := Option.map_eq_some_iff.mp run
          exact quiet.register register
        · obtain ⟨m_gpu, -, rfl⟩ := Option.map_eq_some_iff.mp run
          exact quiet.same rfl rfl rfl rfl
      · cases run
        exact exclusive

theorem Exclusive.operation (exclusive : Exclusive m) {done : KernelInfo → Bool}
    (run : m.operation done = some m') : Exclusive m' := by
  rw [StreamManager.operation] at run
  split at run
  · cases run
  · rename_i checked _ check
    split at run
    · cases run
    · rename_i taken op front
      exact ((exclusive.check check).front front).do_operation run

theorem Exclusive.act (exclusive : Exclusive m) {action : Action}
    (run : m.act action = some m') : Exclusive m' := by
  cases action with
  | push hit op => exact exclusive.push run
  | add_stream stream => exact exclusive.add_stream run
  | destroy_stream stream => exact exclusive.destroy_stream run
  | operation done => exact exclusive.operation run
  | stop_all_running_kernels =>
    have stopped : Exclusive { m with m_gpu := m.m_gpu.stop_all_running_kernels } :=
      exclusive.same rfl rfl rfl rfl
    exact stopped.checkAll run
  | set_kernel_done kernel =>
    obtain ⟨m_gpu, -, rfl⟩ := Option.map_eq_some_iff.mp run
    exact exclusive.same rfl rfl rfl rfl

theorem exclusive_of_runs {passed : List (StreamManager × Action)} (runs : Runs passed m) :
    Exclusive m := by
  induction runs with
  | new slots threads blocking => exact exclusive_new _ blocking
  | step _ _ _ run exclusive => exact exclusive.act run

/-- Whatever both threads and the GPU do: a stream has at most one operation in progress,
    one of stream zero never together with one of another stream, and it was started when
    no other was in progress. -/
theorem stream_zero_alone {passed : List (StreamManager × Action)} (runs : Runs passed m) :
    (∀ stream, inProgress m.history stream = 0 ∨ inProgress m.history stream = 1) ∧
    (∀ stream, stream ≠ 0 → inProgress m.history 0 = 1 → inProgress m.history stream = 0) ∧
    ∀ before after op, m.history = before ++ .started 0 op :: after →
      ∀ stream, stream ≠ 0 → inProgress before stream = 0 := by
  have exclusive := exclusive_of_runs runs
  refine ⟨fun stream => ?_, fun stream other running => ?_, exclusive.alone⟩
  · rw [exclusive.progress]
    cases (m.streams stream).m_pending with
    | false => exact Or.inl rfl
    | true => exact Or.inr rfl
  · rw [exclusive.progress] at running ⊢
    have busy : (m.streams 0).m_pending = true := by
      by_contra idle
      rw [Bool.eq_false_of_not_eq_true idle] at running
      cases running
    have flag : m.m_service_stream_zero = true := by
      by_contra down
      rw [exclusive.zero (Bool.eq_false_of_not_eq_true down)] at busy
      cases busy
    rw [exclusive.others flag stream other]
    rfl

/-- A copy is pushed to stream zero and performed. -/
theorem stream_zero_alone_copy :
    let op : StreamOperation := ⟨.memcpy .host_to_device 0, some 0⟩
    ∃ passed m, Runs passed m ∧ m.history = [.pushed 0 op, .started 0 op, .performed 0 op, .finished 0 op] ∧
      inProgress [.pushed 0 op] 1 = 0 := by
  intro op
  have start := Runs.new 1 32 false
  have pushed := start.step (.push false ⟨.memcpy .host_to_device 0, none⟩)
    OperationType.noConfusion rfl
  have performed := pushed.step (.operation fun _ => false) trivial rfl
  exact ⟨_, _, performed, rfl,
    (stream_zero_alone performed).2.2 [.pushed 0 op] _ op rfl 1 (by decide)⟩

end AesOnGpu.Streams
