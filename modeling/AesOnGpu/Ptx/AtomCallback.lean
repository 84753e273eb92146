import AesOnGpu.Coalescing.AtomicCoverage
import AesOnGpu.Lib.SerialUpdates
import AesOnGpu.Ptx.AccessSpaces
import AesOnGpu.Ptx.LoadStore

/-! # Atomic operations

`atom_callback` of `instructions.cc`, and `do_atomic`, which calls it for one thread after the
other.  The callback reads the third operand of a `cas` after it has written the old value to the
destination, and threads that address the same word of global memory are in several requests, of
which the last is sent first (`applied_iff_covered`).

A warp with atomics in flight is `waiting()`, so the callbacks find the registers as they were
before the instruction.  `fadd` stands for the addition of two `float`s.
-/

namespace AesOnGpu.Ptx.AtomCallback

open AesOnGpu.Memory AccessSpaces Ptx.LoadStore RegValue
open Scheduler (MemorySpaceType)

/-! ## The operators -/

inductive AtomicSpec where
  | ATOMIC_AND
  | ATOMIC_OR
  | ATOMIC_XOR
  | ATOMIC_CAS
  | ATOMIC_EXCH
  | ATOMIC_ADD
  | ATOMIC_INC
  | ATOMIC_DEC
  | ATOMIC_MIN
  | ATOMIC_MAX
  deriving DecidableEq

section

variable {w : Nat} (a b c : BitVec w)

def MY_INC_I : BitVec w := if a ≥ b then 0 else a + 1
def MY_DEC_I : BitVec w := if a = 0 ∨ a > b then b else a - 1
def MY_CAS_I : BitVec w := if a = b then c else a
def MY_EXCH : BitVec w := b

end

/-- The switch over the operator and the type.  `none` is a failed assertion; where the code takes
    `s32`, only the comparisons look at the sign. -/
def operate (fadd : BitVec 32 → BitVec 32 → BitVec 32) (m_atomic_spec : AtomicSpec)
    (to_type : ScalarType) (data src2_data src3_data : RegValue) : Option RegValue :=
  match m_atomic_spec with
  | .ATOMIC_AND => match to_type with
    | .B32_TYPE | .U32_TYPE => some (fresh (data.u32 &&& src2_data.u32))
    | .S32_TYPE => some (fresh (data.u32 &&& src2_data.u32))
    | _ => none
  | .ATOMIC_OR => match to_type with
    | .B32_TYPE | .U32_TYPE => some (fresh (data.u32 ||| src2_data.u32))
    | .S32_TYPE => some (fresh (data.u32 ||| src2_data.u32))
    | _ => none
  | .ATOMIC_XOR => match to_type with
    | .B32_TYPE | .U32_TYPE => some (fresh (data.u32 ^^^ src2_data.u32))
    | .S32_TYPE => some (fresh (data.u32 ^^^ src2_data.u32))
    | _ => none
  | .ATOMIC_CAS => match to_type with
    | .B32_TYPE | .U32_TYPE => some (fresh (MY_CAS_I data.u32 src2_data.u32 src3_data.u32))
    | .B64_TYPE | .U64_TYPE => some (MY_CAS_I data src2_data src3_data)
    | .S32_TYPE => some (fresh (MY_CAS_I data.u32 src2_data.u32 src3_data.u32))
    | _ => none
  | .ATOMIC_EXCH => match to_type with
    | .B32_TYPE | .U32_TYPE => some (fresh (MY_EXCH src2_data.u32))
    | .B64_TYPE | .U64_TYPE => some (MY_EXCH src2_data)
    | .S32_TYPE => some (fresh (MY_EXCH src2_data.u32))
    | _ => none
  | .ATOMIC_ADD => match to_type with
    | .U32_TYPE => some (fresh (data.u32 + src2_data.u32))
    | .S32_TYPE => some (fresh (data.u32 + src2_data.u32))
    | .U64_TYPE => some (data + src2_data)
    | .F32_TYPE => some (fresh (fadd data.u32 src2_data.u32))
    | _ => none
  | .ATOMIC_INC => match to_type with
    | .U32_TYPE => some (fresh (MY_INC_I data.u32 src2_data.u32))
    | _ => none
  | .ATOMIC_DEC => match to_type with
    | .U32_TYPE => some (fresh (MY_DEC_I data.u32 src2_data.u32))
    | _ => none
  | .ATOMIC_MIN => match to_type with
    | .U32_TYPE => some (fresh (if data.u32 < src2_data.u32 then data.u32 else src2_data.u32))
    | .S32_TYPE => some (fresh (if data.u32.slt src2_data.u32 then data.u32 else src2_data.u32))
    | _ => none
  | .ATOMIC_MAX => match to_type with
    | .U32_TYPE => some (fresh (if data.u32 > src2_data.u32 then data.u32 else src2_data.u32))
    | .S32_TYPE => some (fresh (if src2_data.u32.slt data.u32 then data.u32 else src2_data.u32))
    | _ => none

/-- The types that the switch has a case for. -/
def Accepts : AtomicSpec → ScalarType → Prop
  | .ATOMIC_AND, type | .ATOMIC_OR, type | .ATOMIC_XOR, type =>
    type ∈ [.B32_TYPE, .U32_TYPE, .S32_TYPE]
  | .ATOMIC_CAS, type | .ATOMIC_EXCH, type =>
    type ∈ [.B32_TYPE, .U32_TYPE, .B64_TYPE, .U64_TYPE, .S32_TYPE]
  | .ATOMIC_ADD, type => type ∈ [.U32_TYPE, .S32_TYPE, .U64_TYPE, .F32_TYPE]
  | .ATOMIC_INC, type | .ATOMIC_DEC, type => type = .U32_TYPE
  | .ATOMIC_MIN, type | .ATOMIC_MAX, type => type ∈ [.U32_TYPE, .S32_TYPE]

/-! ## The callback -/

/-- An operand that is read: a register, which is not the placeholder `_`, or a literal. -/
inductive Source where
  | reg (r : Symbol) (named : r.name ≠ "_")
  | literal (value : RegValue)

def Source.get_operand_value (regs : Regs Symbol) : Source → RegValue
  | reg r _ => regs r
  | literal value => value

/-- An instruction that the switch has a case for.  The address stands in brackets that are not
    marked with a space. -/
structure AtomInstruction where
  m_atomic_spec : AtomicSpec
  to_type : ScalarType
  accepted : Accepts m_atomic_spec to_type
  m_space_spec : MemorySpaceType
  dst : Symbol
  src1 : MemoryOperands.OperandInfo
  unmarked : src1.m_addr_space = .undefined_space
  src2 : Source
  src3 : Source

/-- The memories of the threads of a block that atomics may access. -/
structure Memories where
  global_memory : MemorySpace 8192
  m_shared_mem : MemorySpace (16 * 1024)

def Memories.read (mem : Memories) : Memory → MemAddr → Nat → Option (List Byte)
  | .global_memory, addr, length => mem.global_memory.read addr length
  | .m_shared_mem, addr, length => mem.m_shared_mem.read addr length
  | _, _, _ => none

def Memories.write (mem : Memories) : Memory → MemAddr → List Byte → Option Memories
  | .global_memory, addr, data =>
    (mem.global_memory.write addr data).map fun global_memory => { mem with global_memory }
  | .m_shared_mem, addr, data =>
    (mem.m_shared_mem.write addr data).map fun m_shared_mem => { mem with m_shared_mem }
  | _, _, _ => none

/-- `set_reg` does nothing for `_`. -/
def set_operand_value (regs : Regs Symbol) (dst : Symbol) (data : RegValue) : Regs Symbol :=
  if dst.name = "_" then regs else set_reg regs dst data

namespace AtomInstruction

variable (fadd : BitVec 32 → BitVec 32 → BitVec 32) (pI : AtomInstruction)

/-- The bytes of the word. -/
def length : Nat := pI.to_type.type_decode / 8

/-- The space and the address in it, which `atom_impl` finds as well. -/
def effective_address (thread : ThreadInfo) (regs : Regs Symbol) : Option Access := do
  let src1_data ← MemoryOperands.operandResult pI.to_type regs pI.src1
  atom_impl thread pI.m_space_spec (src1_data.setWidth 32)

def writeOld (regs : Regs Symbol) (data : RegValue) : Regs Symbol :=
  if pI.dst.declaration.isSome then set_operand_value regs pI.dst data else regs

def atom_callback (thread : ThreadInfo) (regs : Regs Symbol) (mem : Memories) :
    Option (Regs Symbol × Memories) := do
  let src2_data := pI.src2.get_operand_value regs
  let access ← pI.effective_address thread regs
  let bytes ← mem.read access.mem access.addr pI.length
  let data := ofBytes bytes
  let regs := pI.writeOld regs data
  -- The third operand is read in the case of `cas`, with the registers as they are there.
  let src3_data := pI.src3.get_operand_value regs
  let op_result ← operate fadd pI.m_atomic_spec pI.to_type data src2_data src3_data
  let mem ← mem.write access.mem access.addr (bytesOf op_result pI.length)
  return (regs, mem)

end AtomInstruction

/-! ## The threads of a warp -/

structure Execution (warp_size : Nat) where
  regs : Fin warp_size → Regs Symbol
  mem : Memories

variable {warp_size : Nat}

section

variable (fadd : BitVec 32 → BitVec 32 → BitVec 32) (pI : AtomInstruction)
  (threads : Fin warp_size → ThreadInfo)

def callback (s : Execution warp_size) (i : Fin warp_size) : Option (Execution warp_size) := do
  let (regs, mem) ← pI.atom_callback fadd (threads i) (s.regs i) s.mem
  return { regs := Function.update s.regs i regs, mem }

def do_atomic (s : Execution warp_size) (access_mask : Finset (Fin warp_size)) :
    Option (Execution warp_size) :=
  (List.finRange warp_size).foldlM
    (fun s i => if i ∈ access_mask then callback fadd pI threads s i else some s) s

end

/-- The masks for which `do_atomic` is called for an instruction, in the order of the calls: the
    one of its active threads in shared memory and in functional simulation, and one for each
    request to global memory otherwise. -/
structure Calls (warp_size : Nat) where
  masks : List (Finset (Fin warp_size))
  disjoint : masks.Pairwise Disjoint

namespace Calls

def whole (m_warp_active_mask : Finset (Fin warp_size)) : Calls warp_size :=
  ⟨[m_warp_active_mask], List.pairwise_singleton _ _⟩

/-- A call for each request, when they are answered in the order in which they are sent:
    `memory_cycle` takes them from the back of `m_accessq`. -/
def sent (m_accessq : List (Coalescing.MemAccess warp_size))
    (disjoint : (m_accessq.map (·.m_warp_mask)).Pairwise Disjoint) : Calls warp_size where
  masks := (m_accessq.map (·.m_warp_mask)).reverse
  disjoint := List.pairwise_reverse.mpr (disjoint.imp fun apart => apart.symm)

def lanes (mask : Finset (Fin warp_size)) : List (Fin warp_size) :=
  (List.finRange warp_size).filter (· ∈ mask)

def order (calls : Calls warp_size) : List (Fin warp_size) := calls.masks.flatMap lanes

def laneOrder (calls : Calls warp_size) : List (Fin warp_size) :=
  (List.finRange warp_size).filter fun t => ∃ mask ∈ calls.masks, t ∈ mask

def run (calls : Calls warp_size) (fadd : BitVec 32 → BitVec 32 → BitVec 32)
    (pI : AtomInstruction) (threads : Fin warp_size → ThreadInfo) (s : Execution warp_size) :
    Option (Execution warp_size) :=
  calls.masks.foldlM (do_atomic fadd pI threads) s

end Calls

/-! ## Atomic operations on words -/

/-- The operator as a function of words. -/
def op (fadd : BitVec 32 → BitVec 32 → BitVec 32) :
    AtomicSpec → (type : ScalarType) → BitVec type.type_decode → BitVec type.type_decode →
      BitVec type.type_decode → BitVec type.type_decode
  | .ATOMIC_AND, _, old, b, _ => old &&& b
  | .ATOMIC_OR, _, old, b, _ => old ||| b
  | .ATOMIC_XOR, _, old, b, _ => old ^^^ b
  | .ATOMIC_CAS, _, old, b, c => if old = b then c else old
  | .ATOMIC_EXCH, _, _, b, _ => b
  | .ATOMIC_ADD, .F32_TYPE, old, b, _ => fadd old b
  | .ATOMIC_ADD, _, old, b, _ => old + b
  | .ATOMIC_INC, _, old, b, _ => if old.toNat < b.toNat then old + 1 else 0
  | .ATOMIC_DEC, _, old, b, _ => if 0 < old.toNat ∧ old.toNat ≤ b.toNat then old - 1 else b
  | .ATOMIC_MIN, .S32_TYPE, old, b, _ => if old.toInt ≤ b.toInt then old else b
  | .ATOMIC_MIN, _, old, b, _ => if old.toNat ≤ b.toNat then old else b
  | .ATOMIC_MAX, .S32_TYPE, old, b, _ => if b.toInt ≤ old.toInt then old else b
  | .ATOMIC_MAX, _, old, b, _ => if b.toNat ≤ old.toNat then old else b

/-! ## What atomics are for -/

namespace AtomInstruction

variable (fadd : BitVec 32 → BitVec 32 → BitVec 32) (pI : AtomInstruction)

def word (old : Fin pI.length → Byte) : RegValue := ofBytes (List.ofFn old)

/-- `op(old, b, c)`; the third operand has registers of its own. -/
def newWord (regs regs3 : Regs Symbol) (old : RegValue) : BitVec pI.to_type.type_decode :=
  op fadd pI.m_atomic_spec pI.to_type (old.setWidth _)
    ((pI.src2.get_operand_value regs).setWidth _) ((pI.src3.get_operand_value regs3).setWidth _)

def newBytes (regs regs3 : Regs Symbol) (old : Fin pI.length → Byte) (i : Fin pI.length) : Byte :=
  (fresh (pI.newWord fadd regs regs3 (pI.word old))).extractLsb' (8 * i) 8

/-- The registers of a thread that has seen a word, which it keeps in the destination. -/
def registersAfter (regs : Regs Symbol) : Option (Fin pI.length → Byte) → Regs Symbol
  | none => regs
  | some old => pI.writeOld regs (pI.word old)

def cells (targets : Fin warp_size → Access) (t : Fin warp_size) (i : Fin pI.length) :
    Memory × Nat :=
  ((targets t).mem, (targets t).addr.toNat + i)

end AtomInstruction

def Memories.contents (mem : Memories) : Memory × Nat → Byte
  | (.global_memory, addr) => mem.global_memory.contents addr
  | (.m_shared_mem, addr) => mem.m_shared_mem.contents addr
  | _ => 0

section

variable (fadd : BitVec 32 → BitVec 32 → BitVec 32) (pI : AtomInstruction)
  (threads : Fin warp_size → ThreadInfo) (s : Execution warp_size) (calls : Calls warp_size)

/-- The threads one after the other, each with the operands in its registers before the
    instruction. -/
noncomputable def oneByOne (targets : Fin warp_size → Access) (order : List (Fin warp_size)) :
    SerialUpdates.State (Fin warp_size) (Fin pI.length) (Memory × Nat) Byte :=
  SerialUpdates.serial (pI.cells targets) (fun t => pI.newBytes fadd (s.regs t) (s.regs t)) order
    ⟨s.mem.contents, fun _ => none⟩

/-- The word that a thread finds in the memory before the instruction. -/
def oldWord (targets : Fin warp_size → Access) (t : Fin warp_size) : RegValue :=
  pI.word fun i => s.mem.contents (pI.cells targets t i)

def Applied : Prop :=
  ∃ targets s',
    (∀ t ∈ calls.order, pI.effective_address (threads t) (s.regs t) = some (targets t)) ∧
    calls.run fadd pI threads s = some s' ∧
    s'.mem.contents = (oneByOne fadd pI s targets calls.laneOrder).memory ∧
    ∀ t, s'.regs t =
      pI.registersAfter (s.regs t) ((oneByOne fadd pI s targets calls.laneOrder).seen t)

def blockSize : Memory → Nat
  | .global_memory => 8192
  | .m_shared_mem => 16 * 1024
  | _ => 2 ^ 32

/-- The word does not reach into the last block of its memory, which cannot be read. -/
def Inside (access : Access) : Prop :=
  access.addr.toNat + pI.length ≤ 2 ^ 32 - blockSize access.mem

/-- A `cas` whose third operand is the register that the old value is written to. -/
def Aliased : Prop :=
  pI.m_atomic_spec = .ATOMIC_CAS ∧ pI.dst.declaration.isSome = true ∧
    ∃ named, pI.src3 = .reg pI.dst named

/-- Such a `cas` compares equal and is to write another value. -/
def Overwritten (regs : Regs Symbol) (old : RegValue) : Prop :=
  Aliased pI ∧
    old.setWidth pI.to_type.type_decode =
      (pI.src2.get_operand_value regs).setWidth pI.to_type.type_decode ∧
    old.setWidth pI.to_type.type_decode ≠ (regs pI.dst).setWidth pI.to_type.type_decode

/-- No two threads whose words overlap are called against the order of their lanes. -/
def InLaneOrder (targets : Fin warp_size → Access) : Prop :=
  calls.order.Pairwise fun t t' => SerialUpdates.Overlap (pI.cells targets) t t' → t < t'

/-- The operations are such that their order makes no difference. -/
def OrderImmaterial (targets : Fin warp_size → Access) : Prop :=
  (oneByOne fadd pI s targets calls.order).memory =
      (oneByOne fadd pI s targets calls.laneOrder).memory ∧
    ∀ t, pI.registersAfter (s.regs t) ((oneByOne fadd pI s targets calls.order).seen t) =
      pI.registersAfter (s.regs t) ((oneByOne fadd pI s targets calls.laneOrder).seen t)

/-- The words can be accessed, no `cas` needs the operand that it has overwritten, and other
    operations on one word are called in lane order, unless that makes no difference. -/
def Covered : Prop :=
  ∃ targets, (∀ t ∈ calls.order,
      pI.effective_address (threads t) (s.regs t) = some (targets t) ∧ Inside pI (targets t)) ∧
    (Aliased pI → ∀ t ∈ calls.order, ¬ Overwritten pI (s.regs t) (oldWord pI s targets t)) ∧
    (¬ Aliased pI → InLaneOrder pI calls targets ∨ OrderImmaterial fadd pI s calls targets)

end

/-! ## The switch -/

section

variable {w : Nat} (a b : BitVec w)

theorem MY_INC_I_eq : MY_INC_I a b = if a.toNat < b.toNat then a + 1 else 0 := by
  simp only [MY_INC_I, ge_iff_le, BitVec.le_def]
  split <;> split <;> first | rfl | omega

theorem MY_DEC_I_eq :
    MY_DEC_I a b = if 0 < a.toNat ∧ a.toNat ≤ b.toNat then a - 1 else b := by
  have zero : a = 0 ↔ a.toNat = 0 := by
    rw [← BitVec.toNat_inj]
    simp
  simp only [MY_DEC_I, gt_iff_lt, BitVec.lt_def, zero]
  split <;> split <;> first | rfl | omega

theorem min_of_value {β : Type} [LinearOrder β] {value : BitVec w → β}
    (injective : Function.Injective value) :
    (if value a < value b then a else b) = if value a ≤ value b then a else b := by
  split
  next less => rw [if_pos less.le]
  next notLess =>
    split
    next atMost => exact (injective (le_antisymm atMost (not_lt.mp notLess))).symm
    next => rfl

theorem max_of_value {β : Type} [LinearOrder β] {value : BitVec w → β}
    (injective : Function.Injective value) :
    (if value b < value a then a else b) = if value b ≤ value a then a else b := by
  split
  next less => rw [if_pos less.le]
  next notLess =>
    split
    next atMost => exact injective (le_antisymm atMost (not_lt.mp notLess))
    next => rfl

end

theorem operate_eq {fadd : BitVec 32 → BitVec 32 → BitVec 32} {spec : AtomicSpec}
    {type : ScalarType} (accepted : Accepts spec type) (data b c : RegValue) :
    operate fadd spec type data b c =
      some (fresh (op fadd spec type (data.setWidth _) (b.setWidth _) (c.setWidth _))) := by
  cases spec with
  | ATOMIC_AND | ATOMIC_OR | ATOMIC_XOR =>
    simp only [Accepts, List.mem_cons, List.not_mem_nil, or_false] at accepted
    rcases accepted with rfl | rfl | rfl <;> rfl
  | ATOMIC_CAS | ATOMIC_EXCH =>
    simp only [Accepts, List.mem_cons, List.not_mem_nil, or_false] at accepted
    rcases accepted with rfl | rfl | rfl | rfl | rfl
    · rfl
    · rfl
    · simp [operate, op, ScalarType.type_decode, MY_CAS_I, MY_EXCH]
    · simp [operate, op, ScalarType.type_decode, MY_CAS_I, MY_EXCH]
    · rfl
  | ATOMIC_ADD =>
    simp only [Accepts, List.mem_cons, List.not_mem_nil, or_false] at accepted
    rcases accepted with rfl | rfl | rfl | rfl
    · rfl
    · rfl
    · simp only [operate, op, ScalarType.type_decode, BitVec.setWidth_eq]
      exact congrArg some (fresh_self _).symm
    · rfl
  | ATOMIC_INC =>
    subst accepted
    exact congrArg (some ∘ fresh) (MY_INC_I_eq data.u32 b.u32)
  | ATOMIC_DEC =>
    subst accepted
    exact congrArg (some ∘ fresh) (MY_DEC_I_eq data.u32 b.u32)
  | ATOMIC_MIN =>
    simp only [Accepts, List.mem_cons, List.not_mem_nil, or_false] at accepted
    rcases accepted with rfl | rfl
    · exact congrArg (some ∘ fresh) (min_of_value data.u32 b.u32 fun _ _ => BitVec.eq_of_toNat_eq)
    · simp only [operate, op, BitVec.slt, decide_eq_true_eq]
      exact congrArg (some ∘ fresh) (min_of_value data.u32 b.u32 fun _ _ => BitVec.eq_of_toInt_eq)
  | ATOMIC_MAX =>
    simp only [Accepts, List.mem_cons, List.not_mem_nil, or_false] at accepted
    rcases accepted with rfl | rfl
    · exact congrArg (some ∘ fresh) (max_of_value data.u32 b.u32 fun _ _ => BitVec.eq_of_toNat_eq)
    · simp only [operate, op, BitVec.slt, decide_eq_true_eq]
      exact congrArg (some ∘ fresh) (max_of_value data.u32 b.u32 fun _ _ => BitVec.eq_of_toInt_eq)

/-! ## Words and bytes -/

section

variable {pI : AtomInstruction} {regs : Regs Symbol} {old : Fin pI.length → Byte}

theorem width_of_accepted (pI : AtomInstruction) :
    pI.to_type.type_decode = 8 * pI.length ∧ 0 < pI.length ∧ pI.length ≤ 8 := by
  have wide : pI.to_type.type_decode = 32 ∨ pI.to_type.type_decode = 64 := by
    have accepted := pI.accepted
    cases spec : pI.m_atomic_spec <;>
      simp only [spec, Accepts, List.mem_cons, List.not_mem_nil, or_false] at accepted <;>
      grind [ScalarType.type_decode]
  rw [AtomInstruction.length]
  omega

theorem ofBytes_injective {bytes bytes' : List Byte} (same : bytes.length = bytes'.length)
    (short : bytes.length ≤ 8) (equal : ofBytes bytes = ofBytes bytes') : bytes = bytes' := by
  refine List.ext_getElem same fun i inside inside' => BitVec.eq_of_getLsbD_eq fun j small => ?_
  have bit := congrArg (BitVec.getLsbD · (8 * i + j)) equal
  have position : (8 * i + j) / 8 = i ∧ (8 * i + j) % 8 = j := by omega
  simp only [ofBytes_bit _ (8 * i + j) (by omega), position,
    List.getD_eq_getElem _ _ inside, List.getD_eq_getElem _ _ inside'] at bit
  exact bit

theorem word_injective (pI : AtomInstruction) : Function.Injective pI.word := by
  intro old old' same
  have short : (List.ofFn old).length ≤ 8 := by
    rw [List.length_ofFn]
    exact (width_of_accepted pI).2.2
  exact List.ofFn_injective (ofBytes_injective (by simp) short same)

theorem extract_injective {w length : Nat} (width : w = 8 * length) (narrow : w ≤ 64)
    {x y : BitVec w} (same : ∀ i : Fin length,
      (fresh x).extractLsb' (8 * i) 8 = (fresh y).extractLsb' (8 * i) 8) : x = y := by
  refine BitVec.eq_of_getLsbD_eq fun j inside => ?_
  have bit := congrArg (BitVec.getLsbD · (j % 8)) (same ⟨j / 8, by omega⟩)
  have position : 8 * (j / 8) + j % 8 = j := Nat.div_add_mod j 8
  have small : j % 8 < 8 := Nat.mod_lt _ (by decide)
  have below : j < 64 := by omega
  simpa [BitVec.getLsbD_extractLsb', position, small, fresh, below] using bit

theorem bytesOf_eq_ofFn (data : RegValue) (length : Nat) :
    bytesOf data length = List.ofFn fun i : Fin length => data.extractLsb' (8 * i) 8 := by
  refine List.ext_getElem (by simp [bytesOf]) fun i _ _ => ?_
  simp [bytesOf]

theorem op_third {spec : AtomicSpec} (other : spec ≠ .ATOMIC_CAS)
    (fadd : BitVec 32 → BitVec 32 → BitVec 32) (type : ScalarType)
    (a b c c' : BitVec type.type_decode) : op fadd spec type a b c = op fadd spec type a b c' := by
  cases spec with
  | ATOMIC_CAS => exact absurd rfl other
  | ATOMIC_ADD | ATOMIC_MIN | ATOMIC_MAX => cases type <;> rfl
  | _ => rfl

theorem writeOld_apply (pI : AtomInstruction) (regs : Regs Symbol) (data : RegValue) {r : Symbol}
    (named : r.name ≠ "_") :
    pI.writeOld regs data r =
      if r = pI.dst ∧ pI.dst.declaration.isSome = true then data else regs r := by
  rw [AtomInstruction.writeOld]
  by_cases declared : pI.dst.declaration.isSome = true
  · rw [if_pos declared, set_operand_value]
    by_cases same : r = pI.dst
    · subst same
      simp [named, declared, set_reg]
    · rw [if_neg (not_and_of_not_left _ same)]
      split
      · rfl
      · exact Function.update_of_ne same _ _
  · rw [if_neg declared, if_neg fun both => declared both.2]

/-- The third operand is another one after the old value has been written if it is a register that
    is the destination. -/
theorem newWord_writeOld_iff (fadd : BitVec 32 → BitVec 32 → BitVec 32) (pI : AtomInstruction)
    (regs : Regs Symbol) (old : RegValue) :
    pI.newWord fadd regs (pI.writeOld regs old) old = pI.newWord fadd regs regs old ↔
      ¬ Overwritten pI regs old := by
  rw [AtomInstruction.newWord, AtomInstruction.newWord]
  by_cases cas : pI.m_atomic_spec = .ATOMIC_CAS
  · cases third : pI.src3 with
    | literal value =>
      refine iff_of_true rfl fun overwritten => ?_
      obtain ⟨⟨-, -, _, register⟩, -⟩ := overwritten
      rw [third] at register
      cases register
    | reg r named =>
      have read := writeOld_apply pI regs old named
      by_cases destination : r = pI.dst ∧ pI.dst.declaration.isSome = true
      · obtain ⟨rfl, declared⟩ := destination
        rw [if_pos ⟨rfl, declared⟩] at read
        have overwritten_iff : Overwritten pI regs old ↔
            old.setWidth pI.to_type.type_decode =
                (pI.src2.get_operand_value regs).setWidth pI.to_type.type_decode ∧
              old.setWidth pI.to_type.type_decode ≠
                (regs pI.dst).setWidth pI.to_type.type_decode :=
          ⟨And.right, fun differ => ⟨⟨cas, declared, named, third⟩, differ⟩⟩
        rw [overwritten_iff, not_and_not_right]
        simp only [Source.get_operand_value.eq_1, read, cas, op]
        constructor
        · intro same equal
          simpa only [equal, if_true] using same
        · intro kept
          split
          next equal => exact kept equal
          next => rfl
      · rw [if_neg destination] at read
        refine iff_of_true (by rw [Source.get_operand_value, Source.get_operand_value, read])
          fun overwritten => ?_
        obtain ⟨⟨-, declared, _, register⟩, -⟩ := overwritten
        rw [third] at register
        cases register
        exact destination ⟨rfl, declared⟩
  · exact iff_of_true (op_third cas fadd _ _ _ _ _) fun overwritten => cas overwritten.1.1

theorem newBytes_writeOld_iff (fadd : BitVec 32 → BitVec 32 → BitVec 32) :
    pI.newBytes fadd regs (pI.writeOld regs (pI.word old)) old = pI.newBytes fadd regs regs old ↔
      ¬ Overwritten pI regs (pI.word old) := by
  obtain ⟨width, -, short⟩ := width_of_accepted pI
  rw [← newWord_writeOld_iff fadd]
  constructor
  · exact fun same => extract_injective width (by omega) (congrFun same)
  · intro same
    funext i
    rw [AtomInstruction.newBytes, same, AtomInstruction.newBytes]

theorem newBytes_aliased (fadd : BitVec 32 → BitVec 32 → BitVec 32) (aliased : Aliased pI) :
    pI.newBytes fadd regs (pI.writeOld regs (pI.word old)) old = old := by
  obtain ⟨width, -, short⟩ := width_of_accepted pI
  obtain ⟨cas, declared, named, third⟩ := aliased
  have kept : pI.newWord fadd regs (pI.writeOld regs (pI.word old)) (pI.word old) =
      (pI.word old).setWidth _ := by
    rw [AtomInstruction.newWord, third, Source.get_operand_value.eq_1,
      writeOld_apply pI regs _ named, if_pos ⟨rfl, declared⟩, cas, op]
    exact ite_self _
  funext i
  refine BitVec.eq_of_getLsbD_eq fun j small => ?_
  have inside : 8 * i.val + j < pI.to_type.type_decode := by omega
  have below : 8 * i.val + j < 64 := by omega
  have position : (8 * i.val + j) / 8 = i ∧ (8 * i.val + j) % 8 = j := by omega
  have bit := ofBytes_bit (List.ofFn old) (8 * i + j) below
  rw [position.1, position.2, List.getD_eq_getElem _ _ (by simp), List.getElem_ofFn] at bit
  rw [AtomInstruction.newBytes, kept, BitVec.getLsbD_extractLsb']
  simpa [fresh, AtomInstruction.word, small, inside, below] using bit

end

/-! ## The memories -/

section

variable {mem mem' : Memories} {access : Access}

theorem ofFn_read {length : Nat} (flat : Flat Byte) (addr : Nat) :
    flat.read addr length = List.ofFn fun i : Fin length => flat (addr + i) := by
  refine List.ext_getElem (by simp) fun i _ _ => ?_
  rw [Flat.getElem_read, List.getElem_ofFn]

theorem extend_write {length : Nat} (flat : Flat Byte) (addr : Nat) (values : Fin length → Byte)
    (a : Nat) :
    flat.write addr (List.ofFn values) a =
      Function.extend (fun i : Fin length => addr + i.val) values flat a := by
  have distinct : Function.Injective fun i : Fin length => addr + i.val :=
    fun i j same => Fin.ext (Nat.add_left_cancel same)
  by_cases inside : addr ≤ a ∧ a < addr + length
  · obtain ⟨i, rfl⟩ := Nat.exists_eq_add_of_le inside.1
    have small : i < length := by omega
    have written : i < (List.ofFn values).length := by rwa [List.length_ofFn]
    rw [Flat.write_inside flat written, List.getElem_ofFn]
    exact (distinct.extend_apply values flat ⟨i, small⟩).symm
  · refine Eq.trans ?_
      (Function.extend_apply' values flat a fun ⟨i, same⟩ => inside (by omega)).symm
    rcases Nat.lt_or_ge a addr with below | above
    · exact Flat.write_below flat below
    · exact Flat.write_above flat (by rw [List.length_ofFn]; omega)

theorem extend_pair {length : Nat} (memory : Memory) (addr : Nat) (values : Fin length → Byte)
    (contents : Memory × Nat → Byte) (m : Memory) (a : Nat) :
    Function.extend (fun i : Fin length => (memory, addr + i.val)) values contents (m, a) =
      if m = memory then
        Function.extend (fun i : Fin length => addr + i.val) values (fun a => contents (m, a)) a
      else contents (m, a) := by
  have distinct : Function.Injective fun i : Fin length => addr + i.val :=
    fun i j same => Fin.ext (Nat.add_left_cancel same)
  have distinct' : Function.Injective fun i : Fin length => (memory, addr + i.val) :=
    fun i j same => distinct (Prod.mk.inj same).2
  split
  next same =>
    subst same
    by_cases inside : ∃ i : Fin length, addr + i.val = a
    · obtain ⟨i, rfl⟩ := inside
      exact (distinct'.extend_apply values contents i).trans
        (distinct.extend_apply values _ i).symm
    · rw [Function.extend_apply' _ _ _ inside,
        Function.extend_apply' _ _ _ fun ⟨i, same⟩ => inside ⟨i, (Prod.mk.inj same).2⟩]
  next other =>
    exact Function.extend_apply' _ _ _ fun ⟨i, same⟩ => other (Prod.mk.inj same).1.symm

theorem read_spec (pI : AtomInstruction) (mem : Memories) (inside : Inside pI access) :
    mem.read access.mem access.addr pI.length =
      some (List.ofFn fun i : Fin pI.length =>
        mem.contents (access.mem, access.addr.toNat + i)) := by
  obtain ⟨-, positive, -⟩ := width_of_accepted pI
  rw [Inside] at inside
  cases memory : access.mem with
  | global_memory =>
    rw [memory] at inside
    exact (mem.global_memory.read_spec access.addr inside).trans (congrArg some (ofFn_read _ _))
  | m_shared_mem =>
    rw [memory] at inside
    exact (mem.m_shared_mem.read_spec access.addr inside).trans (congrArg some (ofFn_read _ _))
  | _ =>
    rw [memory] at inside
    simp only [blockSize] at inside
    omega

theorem inside_of_read {bytes : List Byte} (pI : AtomInstruction)
    (read : mem.read access.mem access.addr pI.length = some bytes) : Inside pI access := by
  obtain ⟨-, positive, short⟩ := width_of_accepted pI
  rw [Inside]
  by_contra beyond
  rw [not_le] at beyond
  cases memory : access.mem with
  | global_memory =>
    rw [memory] at read beyond
    have none := mem.global_memory.read_beyond access.addr positive (by omega) beyond
    rw [Memories.read, none] at read
    cases read
  | m_shared_mem =>
    rw [memory] at read beyond
    have none := mem.m_shared_mem.read_beyond access.addr positive (by omega) beyond
    rw [Memories.read, none] at read
    cases read
  | _ =>
    rw [memory] at read
    cases read

theorem space_write {BSIZE : BitVec 32} {length : Nat} (memory : MemorySpace BSIZE) (addr : MemAddr)
    (values : Fin length → Byte) (inside : addr.toNat + length ≤ 2 ^ 32 - BSIZE.toNat) :
    ∃ memory', memory.write addr (List.ofFn values) = some memory' ∧
      ∀ a, memory'.contents a =
        Function.extend (fun i : Fin length => addr.toNat + i.val) values memory.contents a := by
  have positive := memory.blockSize_pos
  have modulus := Nat.mod_lt addr.toNat positive
  have size : (List.ofFn values).length = length := List.length_ofFn
  have fits : addr.toNat + (List.ofFn values).length ≤ 2 ^ 32 := by omega
  have narrow : addr.toNat % BSIZE.toNat + (List.ofFn values).length < 2 ^ 32 := by
    have part := Nat.mod_le addr.toNat BSIZE.toNat
    omega
  obtain ⟨memory', written, contents⟩ := memory.write_spec addr fits narrow
  exact ⟨memory', written, fun a => (congrFun contents a).trans (extend_write _ _ values a)⟩

theorem write_spec (pI : AtomInstruction) (mem : Memories) (inside : Inside pI access)
    (values : Fin pI.length → Byte) :
    ∃ mem', mem.write access.mem access.addr (List.ofFn values) = some mem' ∧
      mem'.contents =
        Function.extend (fun i : Fin pI.length => (access.mem, access.addr.toNat + i.val)) values
          mem.contents := by
  obtain ⟨-, positive, -⟩ := width_of_accepted pI
  rw [Inside] at inside
  cases memory : access.mem with
  | global_memory =>
    rw [memory] at inside
    obtain ⟨global_memory, written, contents⟩ :=
      space_write mem.global_memory access.addr values inside
    refine ⟨{ mem with global_memory }, by rw [Memories.write, written]; rfl, ?_⟩
    funext ⟨m, a⟩
    rw [extend_pair]
    cases m with
    | global_memory => exact contents a
    | _ => rfl
  | m_shared_mem =>
    rw [memory] at inside
    obtain ⟨m_shared_mem, written, contents⟩ :=
      space_write mem.m_shared_mem access.addr values inside
    refine ⟨{ mem with m_shared_mem }, by rw [Memories.write, written]; rfl, ?_⟩
    funext ⟨m, a⟩
    rw [extend_pair]
    cases m with
    | m_shared_mem => exact contents a
    | _ => rfl
  | _ =>
    rw [memory] at inside
    simp only [blockSize] at inside
    omega

end

/-! ## The callbacks one after the other -/

section

variable {fadd : BitVec 32 → BitVec 32 → BitVec 32} {pI : AtomInstruction}
  {threads : Fin warp_size → ThreadInfo} {regs : Fin warp_size → Regs Symbol}
  {targets : Fin warp_size → Access} {s s' : Execution warp_size} {t : Fin warp_size}
  {σ : SerialUpdates.State (Fin warp_size) (Fin pI.length) (Memory × Nat) Byte}
  {order : List (Fin warp_size)}

open SerialUpdates

/-- What a callback writes to the word it sees, with the registers as they were before. -/
def codeUpdate (fadd : BitVec 32 → BitVec 32 → BitVec 32) (pI : AtomInstruction)
    (regs : Fin warp_size → Regs Symbol) (t : Fin warp_size) (old : Fin pI.length → Byte) :
    Fin pI.length → Byte :=
  pI.newBytes fadd (regs t) (pI.writeOld (regs t) (pI.word old)) old

structure Matches (pI : AtomInstruction) (regs : Fin warp_size → Regs Symbol)
    (s : Execution warp_size)
    (σ : SerialUpdates.State (Fin warp_size) (Fin pI.length) (Memory × Nat) Byte) : Prop where
  memory : s.mem.contents = σ.memory
  registers : ∀ t, s.regs t = pI.registersAfter (regs t) (σ.seen t)

theorem cells_injective (pI : AtomInstruction) (targets : Fin warp_size → Access)
    (t : Fin warp_size) : Function.Injective (pI.cells targets t) :=
  fun _ _ same => Fin.ext (Nat.add_left_cancel (Prod.mk.inj same).2)

theorem resolved_of_callback (before : s.regs t = regs t)
    (called : callback fadd pI threads s t = some s') :
    ∃ access, pI.effective_address (threads t) (regs t) = some access ∧ Inside pI access := by
  obtain ⟨⟨regs', mem'⟩, called, -⟩ := Option.bind_eq_some_iff.mp called
  rw [before] at called
  obtain ⟨access, resolved, rest⟩ := Option.bind_eq_some_iff.mp called
  obtain ⟨bytes, read, -⟩ := Option.bind_eq_some_iff.mp rest
  exact ⟨access, resolved, inside_of_read pI read⟩

variable (fadd) in
theorem callback_spec (same : Matches pI regs s σ) (waits : σ.seen t = none)
    (resolved : pI.effective_address (threads t) (regs t) = some (targets t))
    (inside : Inside pI (targets t)) :
    ∃ s', callback fadd pI threads s t = some s' ∧
      Matches pI regs s' (turn (pI.cells targets) (codeUpdate fadd pI regs) σ t) := by
  have before : s.regs t = regs t := by rw [same.registers, waits]; rfl
  -- the callback reads the word as the thread one by one looks at it
  have old : (fun i : Fin pI.length =>
      s.mem.contents ((targets t).mem, (targets t).addr.toNat + i.val)) =
        looked (pI.cells targets) σ t := by
    rw [same.memory]
    rfl
  obtain ⟨mem', written, contents⟩ := write_spec pI s.mem inside
    (codeUpdate fadd pI regs t (looked (pI.cells targets) σ t))
  have read := read_spec pI s.mem inside
  rw [old] at read
  refine ⟨⟨Function.update s.regs t
    (pI.writeOld (regs t) (pI.word (looked (pI.cells targets) σ t))), mem'⟩, ?_, ?_, fun t' => ?_⟩
  · rw [callback, AtomInstruction.atom_callback, before, resolved]
    simp only [Option.bind_eq_bind, Option.bind_some, read, operate_eq pI.accepted,
      bytesOf_eq_ofFn]
    exact congrArg (Option.bind · _) (congrArg (Option.bind · _) written)
  · rw [contents, same.memory]
    rfl
  · by_cases own : t' = t
    · subst own
      simp only [turn, Function.update_self]
      rfl
    · simp only [turn, Function.update_of_ne own]
      exact same.registers t'

variable (fadd) in
theorem callbacks_match (once : order.Nodup) (same : Matches pI regs s σ)
    (waits : ∀ t ∈ order, σ.seen t = none)
    (found : ∀ t ∈ order, pI.effective_address (threads t) (regs t) = some (targets t) ∧
      Inside pI (targets t)) :
    ∃ s', order.foldlM (callback fadd pI threads) s = some s' ∧
      Matches pI regs s' (serial (pI.cells targets) (codeUpdate fadd pI regs) order σ) := by
  induction order generalizing s σ with
  | nil => exact ⟨s, rfl, same⟩
  | cons t order ih =>
    rw [List.nodup_cons] at once
    obtain ⟨resolved, inside⟩ := found t List.mem_cons_self
    obtain ⟨mid, called, midSame⟩ :=
      callback_spec fadd same (waits t List.mem_cons_self) resolved inside
    -- a thread is called once, so the later ones still have their registers
    have midWaits : ∀ t' ∈ order,
        (turn (pI.cells targets) (codeUpdate fadd pI regs) σ t).seen t' = none := by
      intro t' later
      have other : t' ≠ t := fun equal => once.1 (equal ▸ later)
      exact (Function.update_of_ne other _ _).trans (waits t' (List.mem_cons_of_mem _ later))
    obtain ⟨s', rest, restSame⟩ := ih once.2 midSame midWaits fun t' later =>
      found t' (List.mem_cons_of_mem _ later)
    exact ⟨s', by rw [List.foldlM_cons, called]; exact rest, restSame⟩

theorem callback_registers (called : callback fadd pI threads s t = some s') {t' : Fin warp_size}
    (other : t' ≠ t) : s'.regs t' = s.regs t' := by
  obtain ⟨⟨regs', mem'⟩, -, rest⟩ := Option.bind_eq_some_iff.mp called
  obtain rfl := Option.some.inj rest
  exact Function.update_of_ne other _ _

theorem found_of_callbacks (once : order.Nodup) (before : ∀ t ∈ order, s.regs t = regs t)
    (ran : order.foldlM (callback fadd pI threads) s = some s') :
    ∀ t ∈ order, ∃ access, pI.effective_address (threads t) (regs t) = some access ∧
      Inside pI access := by
  induction order generalizing s with
  | nil => simp
  | cons t order ih =>
    rw [List.nodup_cons] at once
    rw [List.foldlM_cons] at ran
    obtain ⟨mid, called, rest⟩ := Option.bind_eq_some_iff.mp ran
    intro t' member
    rcases List.mem_cons.mp member with rfl | later
    · exact resolved_of_callback (before _ List.mem_cons_self) called
    · refine ih once.2 (fun t'' later => ?_) rest t' later
      -- the registers of the threads that follow are as before
      have other : t'' ≠ t := fun equal => once.1 (equal ▸ later)
      rw [callback_registers called other, before _ (List.mem_cons_of_mem _ later)]

end

/-! ## The calls for an instruction -/

section

variable {fadd : BitVec 32 → BitVec 32 → BitVec 32} {pI : AtomInstruction}
  {threads : Fin warp_size → ThreadInfo} {s : Execution warp_size} {calls : Calls warp_size}

namespace Calls

theorem mem_lanes {mask : Finset (Fin warp_size)} {t : Fin warp_size} :
    t ∈ lanes mask ↔ t ∈ mask := by
  simp [lanes]

theorem mem_order {calls : Calls warp_size} {t : Fin warp_size} :
    t ∈ calls.order ↔ ∃ mask ∈ calls.masks, t ∈ mask := by
  simp [order, mem_lanes]

theorem laneOrder_sorted (calls : Calls warp_size) : calls.laneOrder.Pairwise (· < ·) :=
  (List.pairwise_lt_finRange warp_size).filter _

theorem order_nodup (calls : Calls warp_size) : calls.order.Nodup := by
  refine List.nodup_flatMap.mpr ⟨fun mask _ => (List.nodup_finRange _).filter _, ?_⟩
  refine calls.disjoint.imp fun {mask mask'} apart t inside inside' => ?_
  exact Finset.disjoint_left.mp apart (mem_lanes.mp inside) (mem_lanes.mp inside')

theorem order_perm (calls : Calls warp_size) : calls.order.Perm calls.laneOrder := by
  refine (List.perm_ext_iff_of_nodup calls.order_nodup
    (calls.laneOrder_sorted.imp fun less => less.ne)).mpr fun t => ?_
  rw [mem_order, laneOrder, List.mem_filter]
  simp

theorem do_atomic_eq (s : Execution warp_size) (mask : Finset (Fin warp_size)) :
    do_atomic fadd pI threads s mask = (lanes mask).foldlM (callback fadd pI threads) s := by
  rw [lanes, List.foldlM_filter, do_atomic]
  simp only [decide_eq_true_eq]
  rfl

theorem run_eq (calls : Calls warp_size) (s : Execution warp_size) :
    calls.run fadd pI threads s = calls.order.foldlM (callback fadd pI threads) s := by
  rw [run, order]
  induction calls.masks generalizing s with
  | nil => rfl
  | cons mask masks ih =>
    rw [List.foldlM_cons, List.flatMap_cons, List.foldlM_append, do_atomic_eq]
    exact congrArg (Option.bind _) (funext ih)

end Calls

theorem seen_of_registers (aliased : Aliased pI) {regs : Regs Symbol}
    {seen seen' : Option (Fin pI.length → Byte)} (both : seen.isSome ↔ seen'.isSome)
    (same : pI.registersAfter regs seen = pI.registersAfter regs seen') : seen = seen' := by
  obtain ⟨-, declared, named, -⟩ := aliased
  cases seen with
  | none =>
    cases seen' with
    | none => rfl
    | some old' => exact absurd (both.mpr rfl) (by simp)
  | some old =>
    cases seen' with
    | none => exact absurd (both.mp rfl) (by simp)
    | some old' =>
      -- `d` is written with the old word, so it tells the word
      have written := congrFun same pI.dst
      simp only [AtomInstruction.registersAfter, writeOld_apply pI _ _ named, declared,
        and_self, if_true] at written
      rw [word_injective pI written]

theorem matches_start (pI : AtomInstruction) (s : Execution warp_size) :
    Matches pI s.regs s ⟨s.mem.contents, fun _ => none⟩ :=
  ⟨rfl, fun _ => rfl⟩

theorem run_spec (fadd : BitVec 32 → BitVec 32 → BitVec 32) {targets : Fin warp_size → Access}
    (found : ∀ t ∈ calls.order,
      pI.effective_address (threads t) (s.regs t) = some (targets t) ∧ Inside pI (targets t)) :
    ∃ s', calls.run fadd pI threads s = some s' ∧
      Matches pI s.regs s' (SerialUpdates.serial (pI.cells targets) (codeUpdate fadd pI s.regs)
        calls.order ⟨s.mem.contents, fun _ => none⟩) := by
  rw [Calls.run_eq]
  exact callbacks_match fadd calls.order_nodup (matches_start pI s) (fun _ _ => rfl) found

theorem codeUpdate_unaliased (other : ¬ Aliased pI) (regs : Fin warp_size → Regs Symbol) :
    codeUpdate fadd pI regs = fun t => pI.newBytes fadd (regs t) (regs t) :=
  funext fun _ => funext fun _ =>
    (newBytes_writeOld_iff fadd).mpr fun overwritten => other overwritten.1

theorem codeUpdate_aliased (aliased : Aliased pI) (regs : Fin warp_size → Regs Symbol) :
    codeUpdate fadd pI regs = fun _ old => old :=
  funext fun _ => funext fun _ => newBytes_aliased fadd aliased

theorem whole_inLaneOrder (mask : Finset (Fin warp_size)) (targets : Fin warp_size → Access) :
    InLaneOrder pI (Calls.whole mask) targets := by
  rw [InLaneOrder, Calls.order, Calls.whole, List.flatMap_singleton]
  refine ((List.pairwise_lt_finRange warp_size).filter _).imp ?_
  exact fun less _ => less

theorem InLaneOrder.immaterial {targets : Fin warp_size → Access}
    (sorted : InLaneOrder pI calls targets) : OrderImmaterial fadd pI s calls targets := by
  have laneSorted : calls.laneOrder.Pairwise fun t t' =>
      SerialUpdates.Overlap (pI.cells targets) t t' → t < t' := by
    refine calls.laneOrder_sorted.imp ?_
    exact fun less _ => less
  have same : oneByOne fadd pI s targets calls.order = oneByOne fadd pI s targets calls.laneOrder :=
    SerialUpdates.serial_eq_of_perm (· < ·) (fun less => less.asymm) calls.order_nodup
      calls.order_perm sorted laneSorted
  exact ⟨congrArg _ same, fun t => by rw [same]⟩

variable (fadd) in
/-- Threads that change nothing and see the words as they were are what is asked for if no word
    is to change. -/
theorem unchanged_iff (aliased : Aliased pI) (targets : Fin warp_size → Access) :
    ((SerialUpdates.serial (pI.cells targets) (fun _ old => old) calls.order
          ⟨s.mem.contents, fun _ => none⟩).memory =
        (oneByOne fadd pI s targets calls.laneOrder).memory ∧
      ∀ t, pI.registersAfter (s.regs t) ((SerialUpdates.serial (pI.cells targets)
          (fun _ old => old) calls.order ⟨s.mem.contents, fun _ => none⟩).seen t) =
        pI.registersAfter (s.regs t) ((oneByOne fadd pI s targets calls.laneOrder).seen t)) ↔
      ∀ t ∈ calls.order, ¬ Overwritten pI (s.regs t) (oldWord pI s targets t) := by
  have once : calls.laneOrder.Nodup := calls.order_perm.nodup_iff.mp calls.order_nodup
  let start : SerialUpdates.State (Fin warp_size) (Fin pI.length) (Memory × Nat) Byte :=
    ⟨s.mem.contents, fun _ => none⟩
  -- threads that change nothing can be taken in any order
  have reordered : SerialUpdates.serial (pI.cells targets) (fun _ old => old) calls.order start =
      SerialUpdates.serial (pI.cells targets) (fun _ old => old) calls.laneOrder start :=
    SerialUpdates.serial_unchanged_perm calls.order_perm
  have clean : oneByOne fadd pI s targets calls.laneOrder =
        SerialUpdates.serial (pI.cells targets) (fun _ old => old) calls.laneOrder start ↔
      ∀ t ∈ calls.order, ¬ Overwritten pI (s.regs t) (oldWord pI s targets t) := by
    refine (SerialUpdates.serial_eq_unchanged_iff (cells_injective pI targets) once).trans
      (forall_congr' fun t => imp_congr calls.order_perm.mem_iff.symm ?_)
    rw [oldWord, ← newBytes_writeOld_iff fadd, newBytes_aliased fadd aliased]
    exact eq_comm
  rw [reordered, ← clean]
  constructor
  · rintro ⟨memory, registers⟩
    refine SerialUpdates.State.ext memory.symm (funext fun t => ?_)
    refine (seen_of_registers aliased ?_ (registers t)).symm
    by_cases member : t ∈ calls.laneOrder
    · exact iff_of_true (SerialUpdates.serial_seen_isSome once member)
        (SerialUpdates.serial_seen_isSome once member)
    · rw [oneByOne, SerialUpdates.serial_seen member, SerialUpdates.serial_seen member]
  · intro same
    rw [same]
    exact ⟨rfl, fun _ => rfl⟩

theorem Applied.covered (applied : Applied fadd pI threads s calls) :
    Covered fadd pI threads s calls := by
  obtain ⟨targets, s', resolved, ran, memory, registers⟩ := applied
  have found : ∀ t ∈ calls.order,
      pI.effective_address (threads t) (s.regs t) = some (targets t) ∧ Inside pI (targets t) := by
    intro t member
    obtain ⟨access, address, inside⟩ := found_of_callbacks calls.order_nodup (fun _ _ => rfl)
      (ran.symm.trans (Calls.run_eq calls s)).symm t member
    obtain rfl := Option.some.inj ((resolved t member).symm.trans address)
    exact ⟨address, inside⟩
  -- what the calls leave is the result of the updates of `codeUpdate`
  obtain ⟨s'', ran', same⟩ := run_spec fadd found
  obtain rfl := Option.some.inj (ran.symm.trans ran')
  refine ⟨targets, found, fun aliased => ?_, fun other => Or.inr ?_⟩
  · rw [codeUpdate_aliased aliased] at same
    exact (unchanged_iff fadd aliased targets).mp
      ⟨same.memory.symm.trans memory, fun t => (same.registers t).symm.trans (registers t)⟩
  · rw [codeUpdate_unaliased other] at same
    exact ⟨same.memory.symm.trans memory, fun t => (same.registers t).symm.trans (registers t)⟩

theorem Covered.applied (covered : Covered fadd pI threads s calls) :
    Applied fadd pI threads s calls := by
  obtain ⟨targets, found, clean, ordered⟩ := covered
  obtain ⟨s', ran, same⟩ := run_spec fadd found
  refine ⟨targets, s', fun t member => (found t member).1, ran, ?_⟩
  by_cases aliased : Aliased pI
  · obtain ⟨memory, registers⟩ :=
      (unchanged_iff fadd aliased targets).mpr (clean aliased)
    rw [codeUpdate_aliased aliased] at same
    exact ⟨same.memory.trans memory, fun t => (same.registers t).trans (registers t)⟩
  · obtain ⟨memory, registers⟩ := (ordered aliased).elim InLaneOrder.immaterial id
    rw [codeUpdate_unaliased aliased] at same
    exact ⟨same.memory.trans memory, fun t => (same.registers t).trans (registers t)⟩

end

/-! ## A lock -/

def register (name : String) : Symbol :=
  ⟨name, some ⟨name, .reg_space, .U32_TYPE, none, none, .NON_ARRAY_IDENTIFIER⟩, 4, none⟩

theorem global_memory_new : (MemorySpace.new 8192).isSome = true := new_instantiated (by decide)

theorem shared_mem_new : (MemorySpace.new (16 * 1024)).isSome = true :=
  new_instantiated (by decide)

def cleared : Memories where
  global_memory := (MemorySpace.new 8192).get global_memory_new
  m_shared_mem := (MemorySpace.new (16 * 1024)).get shared_mem_new

def target : Access := ⟨.global_space, .global_memory, 0x80000000⟩

def request (t : Fin 2) : Coalescing.MemAccess 2 :=
  ⟨.GLOBAL_ACC_R, 0x80000000, 32, false, {t}, Finset.univ.filter (·.val < 4)⟩

end AesOnGpu.Ptx.AtomCallback
