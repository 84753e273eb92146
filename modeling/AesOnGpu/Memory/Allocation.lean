import AesOnGpu.Memory.Device

/-! # Allocations do not interfere

What the host does with device memory: it allocates, and copies to, sets and
copies from parts of its allocations.  As it means it, each allocation is a
memory of its own (`separateStep`).  This is how the device memory behaves as long
as nothing lies beyond the addresses that it can tell apart.
-/

namespace AesOnGpu.Memory

/-- What `gpu_malloc` has returned, and for which size. -/
structure Allocation where
  start : DevicePtr
  size : BitVec 64

structure Host where
  gpu : Gpgpu
  allocations : List Allocation

/-- The operations of the host; copies name an allocation and an offset in it. -/
inductive DeviceOp where
  | gpu_malloc (size : BitVec 64)
  | gpu_mallocarray (size : BitVec 64)
  | memcpy_to_gpu (i offset : Nat) (src : List Byte)
  | gpu_memset (i offset : Nat) (c : BitVec 32) (count : Nat)
  | memcpy_from_gpu (i offset count : Nat)

def DeviceOp.range : DeviceOp → Option (Nat × Nat × Nat)
  | .gpu_malloc _ | .gpu_mallocarray _ => none
  | .memcpy_to_gpu i offset src => some (i, offset, src.length)
  | .gpu_memset i offset _ count => some (i, offset, count)
  | .memcpy_from_gpu i offset count => some (i, offset, count)

/-! ## Each allocation by itself -/

/-- An operation on allocations that are memories of their own. -/
def separateStep (contents : Nat → Flat Byte) : DeviceOp → (Nat → Flat Byte) × List Byte
  | .gpu_malloc _ | .gpu_mallocarray _ => (contents, [])
  | .memcpy_to_gpu i offset src =>
    (Function.update contents i ((contents i).write offset src), [])
  | .gpu_memset i offset c count =>
    (Function.update contents i ((contents i).write offset (List.replicate count (c.setWidth 8))), [])
  | .memcpy_from_gpu i offset count => (contents, (contents i).read offset count)

def separateOutputs (contents : Nat → Flat Byte) : List DeviceOp → List (List Byte)
  | [] => []
  | op :: ops => (separateStep contents op).2 :: separateOutputs (separateStep contents op).1 ops

/-! ## The device -/

namespace Host

def initial : Host := ⟨.initial, []⟩

def pointer (host : Host) (i offset : Nat) : Option DevicePtr :=
  host.allocations[i]?.map fun allocation => allocation.start + BitVec.ofNat 64 offset

def perform (host : Host) : DeviceOp → Option (Host × List Byte)
  | .gpu_malloc size =>
    let (gpu, start) := host.gpu.gpuMalloc size
    some (⟨gpu, host.allocations ++ [⟨start, size⟩]⟩, [])
  | .gpu_mallocarray size =>
    let (gpu, start) := host.gpu.gpuMallocarray size
    some (⟨gpu, host.allocations ++ [⟨start, size⟩]⟩, [])
  | .memcpy_to_gpu i offset src => do
    let gpu ← host.gpu.memcpyToGpu (← host.pointer i offset) src
    return ({ host with gpu }, [])
  | .gpu_memset i offset c count => do
    let gpu ← host.gpu.gpuMemset (← host.pointer i offset) c count
    return ({ host with gpu }, [])
  | .memcpy_from_gpu i offset count => do
    let returned ← host.gpu.memcpyFromGpu (← host.pointer i offset) count
    return (host, returned)

def Allowed (host : Host) (op : DeviceOp) : Prop :=
  match op.range with
  | none => True
  | some (i, offset, count) =>
    match host.allocations[i]? with
    | some allocation => offset + count ≤ allocation.size.toNat
    | none => False

/-- The allocator does not wrap, and bytes are copied below 2^32, or below the last
    block when they are read. -/
def InSpace (host : Host) (op : DeviceOp) : Prop :=
  match op with
  | .gpu_malloc size | .gpu_mallocarray size =>
    host.gpu.m_dev_malloc.toNat + size.toNat ≤ (Gpgpu.bump host.gpu.m_dev_malloc size).toNat
  | .memcpy_to_gpu i offset src => 0 < src.length → ∀ allocation ∈ host.allocations[i]?,
    allocation.start.toNat + offset + src.length ≤ 2 ^ 32
  | .gpu_memset i offset _ count => 0 < count → ∀ allocation ∈ host.allocations[i]?,
    allocation.start.toNat + offset + count ≤ 2 ^ 32
  | .memcpy_from_gpu i offset count => 0 < count → ∀ allocation ∈ host.allocations[i]?,
    allocation.start.toNat + offset + count ≤ 2 ^ 32 - 8192

/-- All operations of a run meet a condition. -/
def Along (P : Host → DeviceOp → Prop) : Host → List DeviceOp → Prop
  | _, [] => True
  | host, op :: ops => P host op ∧
    match host.perform op with
    | some (next, _) => Along P next ops
    | none => True

instance decidableAllowed (host : Host) (op : DeviceOp) : Decidable (host.Allowed op) :=
  match range : op.range with
  | none => isTrue (by simp [Allowed, range])
  | some (i, offset, count) =>
    match found : host.allocations[i]? with
    | some allocation =>
      decidable_of_iff (offset + count ≤ allocation.size.toNat) (by simp [Allowed, range, found])
    | none => isFalse (by simp [Allowed, range, found])

instance decidableInSpace (host : Host) (op : DeviceOp) : Decidable (host.InSpace op) :=
  match op with
  | .gpu_malloc _ | .gpu_mallocarray _ => inferInstanceAs (Decidable (_ ≤ _))
  | .memcpy_to_gpu _ _ _ | .gpu_memset _ _ _ _ | .memcpy_from_gpu _ _ _ =>
    inferInstanceAs (Decidable (0 < _ → ∀ allocation ∈ _, _ ≤ _))

instance decidableAlong {P : Host → DeviceOp → Prop} [∀ host op, Decidable (P host op)] :
    ∀ host ops, Decidable (Along P host ops)
  | _, [] => isTrue trivial
  | host, op :: ops =>
    match run : host.perform op with
    | some (next, _) =>
      haveI := decidableAlong (P := P) next ops
      decidable_of_iff (P host op ∧ Along P next ops) (by simp [Along, run])
    | none => decidable_of_iff (P host op) (by simp [Along, run])

/-- Nothing changes but bytes of the allocation that the operation is about. -/
def OnlyChanges (host : Host) (op : DeviceOp) (next : Host) : Prop :=
  ∀ x, (∀ i offset count, op.range = some (i, offset, count) →
      ∀ allocation ∈ host.allocations[i]?, x < allocation.start.toNat ∨
        allocation.start.toNat + allocation.size.toNat ≤ x) →
    next.gpu.m_global_mem.contents x = host.gpu.m_global_mem.contents x

/-- In a run from here, each operation is done, changes nothing outside of its
    allocation and returns what allocations by themselves return. -/
def Separate (contents : Nat → Flat Byte) : Host → List DeviceOp → Prop
  | _, [] => True
  | host, op :: ops => ∃ next, host.perform op = some (next, (separateStep contents op).2) ∧
    host.OnlyChanges op next ∧ Separate (separateStep contents op).1 next ops

/-! ## The simulation -/

structure Simulates (host : Host) (contents : Nat → Flat Byte) : Prop where
  high : 2 ^ 31 ≤ host.gpu.m_dev_malloc.toNat
  below : ∀ (i : Nat) (allocation : Allocation), host.allocations[i]? = some allocation →
    2 ^ 31 ≤ allocation.start.toNat ∧
      allocation.start.toNat + allocation.size.toNat ≤ host.gpu.m_dev_malloc.toNat
  apart : ∀ (i j : Nat) (allocation other : Allocation), i < j → host.allocations[i]? = some allocation →
    host.allocations[j]? = some other →
    allocation.start.toNat + allocation.size.toNat ≤ other.start.toNat
  unused : ∀ x, host.gpu.m_dev_malloc.toNat ≤ x → host.gpu.m_global_mem.contents x = 0
  fresh : ∀ i, host.allocations.length ≤ i → contents i = fun _ => 0
  same : ∀ (i : Nat) (allocation : Allocation) (offset : Nat),
    host.allocations[i]? = some allocation → offset < allocation.size.toNat →
    allocation.start.toNat + offset < 2 ^ 32 →
    host.gpu.m_global_mem.contents (allocation.start.toNat + offset) = contents i offset

variable {host : Host} {contents : Nat → Flat Byte}

theorem simulates_initial : initial.Simulates fun _ _ => 0 where
  high := Nat.le_refl _
  below i allocation found := by simp [initial] at found
  apart i j allocation other _ found := by simp [initial] at found
  unused x _ := congrFun Gpgpu.contents_initial x
  fresh i _ := rfl
  same i allocation offset found := by simp [initial] at found

theorem Simulates.malloc (simulates : host.Simulates contents) {size : BitVec 64}
    (noWrap : host.gpu.m_dev_malloc.toNat + size.toNat ≤
      (Gpgpu.bump host.gpu.m_dev_malloc size).toNat) :
    Simulates ⟨{ host.gpu with m_dev_malloc := Gpgpu.bump host.gpu.m_dev_malloc size },
      host.allocations ++ [⟨host.gpu.m_dev_malloc, size⟩]⟩ contents := by
  have cases {i : Nat} {allocation : Allocation}
      (found : (host.allocations ++ [⟨host.gpu.m_dev_malloc, size⟩])[i]? = some allocation) :
      host.allocations[i]? = some allocation ∨
        (i = host.allocations.length ∧ allocation = ⟨host.gpu.m_dev_malloc, size⟩) := by
    rw [List.getElem?_append] at found
    split at found
    · exact Or.inl found
    · rename_i notOld
      rw [List.getElem?_singleton] at found
      split at found
      · exact Or.inr ⟨by omega, (Option.some.inj found).symm⟩
      · exact absurd found (by simp)
  have high := simulates.high
  constructor
  · exact Nat.le_trans simulates.high (Nat.le_trans (Nat.le_add_right _ _) noWrap)
  · intro i allocation found
    cases cases found with
    | inl old =>
      obtain ⟨start, ending⟩ := simulates.below i allocation old
      exact ⟨start, Nat.le_trans ending (Nat.le_trans (Nat.le_add_right _ _) noWrap)⟩
    | inr new =>
      rw [new.2]
      exact ⟨high, noWrap⟩
  · intro i j allocation other before found found'
    cases cases found with
    | inl old =>
      cases cases found' with
      | inl old' => exact simulates.apart i j allocation other before old old'
      | inr new' =>
        rw [new'.2]
        exact (simulates.below i allocation old).2
    | inr new =>
      cases cases found' with
      | inl old' =>
        have inside := (List.getElem?_eq_some_iff.mp old').1
        omega
      | inr new' => omega
  · intro x above
    exact simulates.unused x (Nat.le_trans (Nat.le_trans (Nat.le_add_right _ _) noWrap) above)
  · intro i beyond
    apply simulates.fresh
    rw [List.length_append] at beyond
    exact Nat.le_trans (Nat.le_add_right _ _) beyond
  · intro i allocation offset found inside small
    cases cases found with
    | inl old => exact simulates.same i allocation offset old inside small
    | inr new =>
      rw [simulates.fresh i (Nat.le_of_eq new.1.symm), new.2]
      exact simulates.unused _ (Nat.le_add_right _ _)

theorem Simulates.written (simulates : host.Simulates contents) {i offset : Nat}
    {allocation : Allocation} {data : List Byte} (found : host.allocations[i]? = some allocation)
    (inside : offset + data.length ≤ allocation.size.toNat) {m_global_mem : GlobalMemory}
    (memory : m_global_mem.contents =
      host.gpu.m_global_mem.contents.write (allocation.start.toNat + offset) data) :
    Simulates { host with gpu := { host.gpu with m_global_mem } }
      (Function.update contents i ((contents i).write offset data)) := by
  refine ⟨simulates.high, simulates.below, simulates.apart, fun x above => ?_,
    fun j beyond => ?_, fun j other offset' found' inside' small => ?_⟩
  · have ending := (simulates.below i allocation found).2
    rw [memory, Flat.write_above _ (Nat.le_trans (by omega) (Nat.le_trans ending above))]
    exact simulates.unused x above
  · have present := (List.getElem?_eq_some_iff.mp found).1
    have other : j ≠ i := Nat.ne_of_gt (Nat.lt_of_lt_of_le present beyond)
    rw [Function.update_of_ne other]
    exact simulates.fresh j beyond
  · show m_global_mem.contents _ = _
    rw [memory]
    by_cases here : j = i
    · subst here
      obtain rfl := Option.some.inj (found.symm.trans found')
      have old := simulates.same j allocation offset' found inside' small
      rw [Function.update_self, Flat.write, Flat.write, old]
      simp only [Nat.add_le_add_iff_left, Nat.add_sub_add_left]
    · rw [Function.update_of_ne here, ← simulates.same j other offset' found' inside' small]
      cases Nat.lt_or_gt_of_ne here with
      | inl before =>
        have disjoint := simulates.apart j i other allocation before found' found
        exact Flat.write_below _ (by omega)
      | inr after =>
        have disjoint := simulates.apart i j allocation other after found found'
        exact Flat.write_above _ (by omega)

/-! ## One operation -/

theorem Allowed.found {op : DeviceOp} (allowed : host.Allowed op) {i offset count : Nat}
    (range : op.range = some (i, offset, count)) :
    ∃ allocation, host.allocations[i]? = some allocation ∧
      offset + count ≤ allocation.size.toNat := by
  rw [Allowed, range] at allowed
  simp only at allowed
  split at allowed
  · exact ⟨_, by assumption, allowed⟩
  · exact allowed.elim

theorem OnlyChanges.refl (op : DeviceOp) {next : Host}
    (same : next.gpu.m_global_mem = host.gpu.m_global_mem) : host.OnlyChanges op next :=
  fun x _ => by rw [same]

theorem OnlyChanges.written {op : DeviceOp} {i offset : Nat} {data : List Byte}
    (range : op.range = some (i, offset, data.length)) {allocation : Allocation}
    (found : host.allocations[i]? = some allocation)
    (inside : offset + data.length ≤ allocation.size.toNat) {next : Host}
    (memory : next.gpu.m_global_mem.contents =
      host.gpu.m_global_mem.contents.write (allocation.start.toNat + offset) data) :
    host.OnlyChanges op next := by
  intro x outside
  rw [memory]
  cases outside i offset data.length range allocation found with
  | inl before => exact Flat.write_below _ (by omega)
  | inr after => exact Flat.write_above _ (by omega)

theorem Simulates.short (simulates : host.Simulates contents) {i offset count : Nat}
    {allocation : Allocation} (found : host.allocations[i]? = some allocation)
    (inSpace : 0 < count → allocation.start.toNat + offset + count ≤ 2 ^ 32) : count < 2 ^ 32 := by
  have high := (simulates.below i allocation found).1
  omega

theorem perform_spec (simulates : host.Simulates contents) {op : DeviceOp}
    (allowed : host.Allowed op) (inSpace : host.InSpace op) :
    ∃ next, host.perform op = some (next, (separateStep contents op).2) ∧
      host.OnlyChanges op next ∧ next.Simulates (separateStep contents op).1 := by
  cases op with
  | gpu_malloc size => exact ⟨_, rfl, OnlyChanges.refl _ rfl, simulates.malloc inSpace⟩
  | gpu_mallocarray size => exact ⟨_, rfl, OnlyChanges.refl _ rfl, simulates.malloc inSpace⟩
  | memcpy_to_gpu i offset src =>
    obtain ⟨allocation, found, inside⟩ := allowed.found rfl
    have ending := fun some => inSpace some allocation found
    obtain ⟨memory, run, written⟩ :=
      host.gpu.memcpyToGpu_spec src ending (simulates.short found ending)
    refine ⟨_, ?_, OnlyChanges.written rfl found inside written,
      simulates.written found inside written⟩
    simp only [perform, pointer, found, run, separateStep, Option.map_some, Option.bind_eq_bind,
      Option.bind_some, Option.pure_def]
  | gpu_memset i offset c count =>
    obtain ⟨allocation, found, inside⟩ := allowed.found rfl
    have ending := fun some => inSpace some allocation found
    have length : (List.replicate count (c.setWidth 8 : Byte)).length = count :=
      List.length_replicate
    obtain ⟨memory, run, written⟩ :=
      host.gpu.gpuMemset_spec c ending (simulates.short found ending)
    refine ⟨_, ?_, OnlyChanges.written (by rw [length]; rfl) found (by rw [length]; exact inside)
      written, simulates.written found (by rw [length]; exact inside) written⟩
    simp only [perform, pointer, found, run, separateStep, Option.map_some, Option.bind_eq_bind,
      Option.bind_some, Option.pure_def]
  | memcpy_from_gpu i offset count =>
    obtain ⟨allocation, found, inside⟩ := allowed.found rfl
    have ending := fun some => inSpace some allocation found
    have returned := host.gpu.memcpyFromGpu_spec ending
    have same : host.gpu.m_global_mem.contents.read (allocation.start.toNat + offset) count =
        (contents i).read offset count := by
      apply Flat.read_congr
      intro j below
      have small := ending (Nat.zero_lt_of_lt below)
      rw [Nat.add_assoc]
      exact simulates.same i allocation (offset + j) found (by omega) (by omega)
    refine ⟨host, ?_, OnlyChanges.refl _ rfl, simulates⟩
    simp only [perform, pointer, found, returned, same, separateStep, Option.map_some,
      Option.bind_eq_bind, Option.bind_some, Option.pure_def]

/-! ## Runs -/

theorem Simulates.separate (ops : List DeviceOp) {host : Host} {contents : Nat → Flat Byte}
    (simulates : host.Simulates contents)
    (along : host.Along (fun host op => host.Allowed op ∧ host.InSpace op) ops) :
    host.Separate contents ops := by
  induction ops generalizing host contents with
  | nil => exact trivial
  | cons op ops ih =>
    obtain ⟨⟨allowed, inSpace⟩, rest⟩ := along
    obtain ⟨next, run, only, simulates'⟩ := perform_spec simulates allowed inSpace
    rw [run] at rest
    exact ⟨next, run, only, ih simulates' rest⟩

/-- In every run that stays below the limits, allocations do not interfere. -/
theorem allocations_separate (ops : List DeviceOp)
    (along : initial.Along (fun host op => host.Allowed op ∧ host.InSpace op) ops) :
    initial.Separate (fun _ _ => 0) ops :=
  simulates_initial.separate ops along

theorem allocations_separate_two :
    let ops := [.gpu_malloc 0, .gpu_malloc 257, .gpu_mallocarray 1, .memcpy_to_gpu 1 255 [7, 8],
      .gpu_memset 2 0 5 1, .memcpy_from_gpu 1 250 7, .memcpy_from_gpu 0 0 0]
    initial.Separate (fun _ _ => 0) ops :=
  allocations_separate _ (by decide)

def outputs : Host → List DeviceOp → Option (List (List Byte))
  | _, [] => some []
  | host, op :: ops => do
    let (next, returned) ← host.perform op
    return returned :: (← outputs next ops)

theorem Separate.outputs (ops : List DeviceOp) {host : Host} {contents : Nat → Flat Byte}
    (separate : host.Separate contents ops) :
    host.outputs ops = some (separateOutputs contents ops) := by
  induction ops generalizing host contents with
  | nil => rfl
  | cons op ops ih =>
    obtain ⟨next, run, _, rest⟩ := separate
    rw [Host.outputs, run]
    simp [ih rest, separateOutputs]

/-- Past 4 gigabytes pointers lose their upper half, and two allocations share bytes. -/
theorem allocations_alias : ¬ ∀ ops, initial.Along Allowed ops →
    initial.Separate (fun _ _ => 0) ops := by
  intro separate
  have outputs := (separate [.gpu_malloc (2 ^ 32), .gpu_malloc 1, .gpu_memset 0 0 1 1,
    .memcpy_from_gpu 1 0 1] (by decide)).outputs
  revert outputs
  decide

end Host

end AesOnGpu.Memory
