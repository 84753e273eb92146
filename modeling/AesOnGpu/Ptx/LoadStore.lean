import AesOnGpu.Lib.FinLiterals
import AesOnGpu.Memory.Device
import AesOnGpu.Ptx.Register

/-! # Loads and stores

`ld_exec` and `st_impl` of `instructions.cc` for the integer types, on the memory that
`decode_space` resolves the address to.  A scalar load extends the sign for two of the
types; a vector load never does (`load_store_iff`).
-/

namespace AesOnGpu.Ptx.LoadStore

open AesOnGpu.Memory RegValue

/-! ## The code -/

inductive VectorSpec where
  | V2_TYPE
  | V3_TYPE
  | V4_TYPE
  deriving DecidableEq

/-- The number of elements; a scalar has one. -/
def nelem : Option VectorSpec → Nat
  | none => 1
  | some .V2_TYPE => 2
  | some .V3_TYPE => 3
  | some .V4_TYPE => 4

/-- The types that a register can be declared with. -/
inductive RegisterType where
  | integer (type : IntegerType)
  | F16_TYPE
  | F32_TYPE
  | F64_TYPE
  | PRED_TYPE

def get_operand_nbits : RegisterType → Nat
  | .PRED_TYPE => 1
  | .integer type => type.width
  | .F16_TYPE => 16
  | .F32_TYPE => 32
  | .F64_TYPE => 64

def sign_extend (data : RegValue) (src_size dst_size : Nat) : RegValue :=
  if src_size ≥ dst_size then data
  else if BitVec.twoPow 64 (src_size - 1) &&& data = 0 then data
  else data ||| ((BitVec.twoPow 64 (dst_size - src_size) - 1) <<< src_size)

/-- The first bytes of a register image, the lowest one first. -/
def bytesOf (data : RegValue) (length : Nat) : List Byte :=
  (List.range length).map fun i => data.extractLsb' (8 * i) 8

/-- A cleared register image whose first bytes were read. -/
def ofBytes : List Byte → RegValue
  | [] => 0
  | byte :: bytes => ofBytes bytes <<< 8 ||| byte.setWidth 64

/-- The offset is a `size_t`, and the address that the memory takes is not. -/
def elementAddr (addr : MemAddr) (size k : Nat) : MemAddr :=
  BitVec.ofNat 32 (addr.toNat + k * size / 8)

section

variable {BSIZE : BitVec 32}

def storeElements (addr : MemAddr) (size : Nat) (elements : List RegValue)
    (mem : MemorySpace BSIZE) : Option (MemorySpace BSIZE) :=
  elements.zipIdx.foldlM
    (fun mem (data, k) => mem.write (elementAddr addr size k) (bytesOf data (size / 8))) mem

def loadElement (mem : MemorySpace BSIZE) (addr : MemAddr) (size k : Nat) : Option RegValue :=
  (mem.read (elementAddr addr size k) (size / 8)).map ofBytes

variable {Symbol : Type} [DecidableEq Symbol]

def set_vector_operand_values (regs : Regs Symbol) (dst : List Symbol) (data : List RegValue) :
    Regs Symbol :=
  (dst.zip data).foldl (fun regs (reg, data) => set_reg regs reg data) regs

omit [DecidableEq Symbol] in
def st_impl (type : IntegerType) (vector_spec : Option VectorSpec)
    (src1 : Fin (nelem vector_spec) → Symbol) (addr : MemAddr) (regs : Regs Symbol)
    (mem : MemorySpace BSIZE) : Option (MemorySpace BSIZE) :=
  storeElements addr type.width (List.ofFn fun k => regs (src1 k)) mem

/-- `declared` gives the types of the registers. -/
def ld_exec (declared : Symbol → RegisterType) (type : IntegerType) :
    (vector_spec : Option VectorSpec) → (Fin (nelem vector_spec) → Symbol) → MemAddr →
      MemorySpace BSIZE → Regs Symbol → Option (Regs Symbol)
  | none, dst, addr, mem, regs => do
    let dst : Fin 1 → Symbol := dst
    let data ← loadElement mem addr type.width 0
    let data :=
      if type = .S16_TYPE ∨ type = .S32_TYPE then
        sign_extend data type.width (get_operand_nbits (declared (dst 0)))
      else data
    return set_reg regs (dst 0) data
  | some vector_spec, dst, addr, mem, regs => do
    let data ← (List.range (nelem (some vector_spec))).mapM (loadElement mem addr type.width)
    return set_vector_operand_values regs (List.ofFn dst) data

/-! ## What a load returns -/

/-- The register, as wide as it is declared, holds the value that was stored.  A register
    that the destination names twice holds the last one. -/
def Returns (declared : Symbol → RegisterType) (type : IntegerType) {n : Nat}
    (src1 dst : Fin n → Symbol) (stored loaded : Regs Symbol) : Prop :=
  ∀ k, (∀ j, k < j → dst j ≠ dst k) →
    (loaded (dst k)).setWidth (get_operand_nbits (declared (dst k))) =
      BitVec.ofInt _ (type.value (stored (src1 k)))

def LoadUndoesStore (declared : Symbol → RegisterType) (type : IntegerType)
    (vector_spec : Option VectorSpec) (src1 dst : Fin (nelem vector_spec) → Symbol) (addr : MemAddr)
    (mem : MemorySpace BSIZE) (stored regs : Regs Symbol) : Prop :=
  ∃ mem' loaded, st_impl type vector_spec src1 addr stored mem = some mem' ∧
    ld_exec declared type vector_spec dst addr mem' regs = some loaded ∧
    Returns declared type src1 dst stored loaded

/-- The elements end before the last block of the memory. -/
def Readable (BSIZE : BitVec 32) (type : IntegerType) (vector_spec : Option VectorSpec)
    (addr : MemAddr) : Prop :=
  addr.toNat + nelem vector_spec * (type.width / 8) ≤ 2 ^ 32 - BSIZE.toNat

instance (BSIZE : BitVec 32) (type : IntegerType) (vector_spec : Option VectorSpec)
    (addr : MemAddr) : Decidable (Readable BSIZE type vector_spec addr) :=
  inferInstanceAs (Decidable (_ ≤ _))

/-- There is no sign to extend, or the load extends it. -/
def SignKept (declared : Symbol → RegisterType) (type : IntegerType)
    (vector_spec : Option VectorSpec) (src1 dst : Fin (nelem vector_spec) → Symbol)
    (stored : Regs Symbol) : Prop :=
  ∀ k, (∀ j, k < j → dst j ≠ dst k) → type.signed = true →
    get_operand_nbits (declared (dst k)) = type.width ∨ 0 ≤ type.value (stored (src1 k)) ∨
      vector_spec = none ∧ (type = .S16_TYPE ∨ type = .S32_TYPE)

end

/-! ## Bytes -/

theorem ofBytes_bit (bytes : List Byte) : ∀ i < 64,
    (ofBytes bytes).getLsbD i = (bytes.getD (i / 8) 0).getLsbD (i % 8) := by
  induction bytes with
  | nil => intro i _; simp [ofBytes]
  | cons byte bytes ih =>
    intro i inside
    rw [ofBytes, BitVec.getLsbD_or, BitVec.getLsbD_shiftLeft, BitVec.getLsbD_setWidth]
    by_cases first : i < 8
    · simp [first, inside, Nat.div_eq_of_lt first, Nat.mod_eq_of_lt first]
    · have rest := ih (i - 8) (by omega)
      have above : byte.getLsbD i = false := BitVec.getLsbD_of_ge byte i (by omega)
      have quotient : i / 8 = (i - 8) / 8 + 1 := by omega
      have remainder : i % 8 = (i - 8) % 8 := by omega
      rw [quotient, remainder]
      simp [first, inside, above, rest]

theorem length_bytesOf (data : RegValue) (length : Nat) : (bytesOf data length).length = length := by
  simp [bytesOf]

theorem ofBytes_bytesOf (data : RegValue) {length w : Nat} (width : w = 8 * length) :
    ofBytes (bytesOf data length) = fresh (data.setWidth w) := by
  refine BitVec.eq_of_getLsbD_eq fun i inside => ?_
  rw [ofBytes_bit _ i inside, fresh, BitVec.getLsbD_setWidth, BitVec.getLsbD_setWidth]
  by_cases stored : i / 8 < length
  · have within : i < w := by omega
    have position : 8 * (i / 8) + i % 8 = i := Nat.div_add_mod i 8
    have short := Nat.mod_lt i (show 0 < 8 by decide)
    have byte : (bytesOf data length).getD (i / 8) 0 = data.extractLsb' (8 * (i / 8)) 8 := by
      simp [bytesOf, List.getD_eq_getElem?_getD, stored]
    rw [byte, BitVec.getLsbD_extractLsb', position]
    simp [within, inside, short]
  · have beyond : ¬ i < w := by omega
    have nothing : (bytesOf data length).getD (i / 8) 0 = 0 :=
      List.getD_eq_default _ _ (by rw [length_bytesOf]; omega)
    rw [nothing]
    simp [beyond]

/-! ## Elements in memory -/

section

variable {BSIZE : BitVec 32} {addr : MemAddr} {size length : Nat}

theorem read_part (flat : Flat Byte) {f : RegValue → List Byte}
    (sized : ∀ data, (f data).length = length) (elements : List RegValue) (addr : Nat) {k : Nat}
    (inside : k < elements.length) :
    (flat.write addr (elements.flatMap f)).read (addr + k * length) length = f elements[k] := by
  induction elements generalizing flat addr k with
  | nil => simp at inside
  | cons first rest ih =>
    rw [List.flatMap_cons, Flat.write_append, sized]
    cases k with
    | zero =>
      rw [Flat.read_write_of_disjoint _ (.inr (by omega)), ← sized first]
      simpa using flat.read_write addr (f first)
    | succ k =>
      have shifted : addr + (k + 1) * length = addr + length + k * length := by ring
      rw [shifted]
      exact ih _ _ (by simpa using inside)

theorem toNat_elementAddr (addr : MemAddr) (width : size = 8 * length) {k : Nat}
    (inside : addr.toNat + k * length < 2 ^ 32) :
    (elementAddr addr size k).toNat = addr.toNat + k * length := by
  have offset : k * size / 8 = k * length := by
    rw [width, Nat.mul_left_comm, Nat.mul_div_cancel_left _ (by decide)]
  rw [elementAddr, offset, BitVec.toNat_ofNat, Nat.mod_eq_of_lt inside]

theorem storeElements_spec (mem : MemorySpace BSIZE) (width : size = 8 * length)
    (elements : List RegValue)
    (inside : addr.toNat + elements.length * length ≤ 2 ^ 32 - BSIZE.toNat) :
    ∃ mem', storeElements addr size elements mem = some mem' ∧
      mem'.contents = mem.contents.write addr.toNat (elements.flatMap (bytesOf · length)) := by
  have blocks := mem.blockSize_pos
  have quotient : size / 8 = length := by omega
  induction elements using List.reverseRecOn with
  | nil => exact ⟨mem, rfl, by simp⟩
  | append_singleton elements data ih =>
    rw [List.length_append, List.length_singleton, Nat.succ_mul] at inside
    obtain ⟨before, stored, contents⟩ := ih (by omega)
    have start := toNat_elementAddr addr width (k := elements.length) (by omega)
    have modulus := Nat.mod_le (elementAddr addr size elements.length).toNat BSIZE.toNat
    have sized := length_bytesOf data length
    have atEnd : (elementAddr addr size elements.length).toNat + (bytesOf data length).length ≤
        2 ^ 32 := by omega
    obtain ⟨after, written, next⟩ := before.write_spec _ atEnd (by omega)
    refine ⟨after, ?_, ?_⟩
    · rw [storeElements] at stored
      rw [storeElements, List.zipIdx_append, List.foldlM_append, stored]
      simpa [quotient] using written
    · have total : (elements.flatMap (bytesOf · length)).length = elements.length * length := by
        simp [List.length_flatMap, length_bytesOf]
      rw [next, contents, start, List.flatMap_append, Flat.write_append, total]
      simp

theorem loadElement_spec (mem : MemorySpace BSIZE) (width : size = 8 * length)
    {elements : List RegValue} {flat : Flat Byte}
    (contents : mem.contents = flat.write addr.toNat (elements.flatMap (bytesOf · length)))
    (inside : addr.toNat + elements.length * length ≤ 2 ^ 32 - BSIZE.toNat) {k : Nat}
    (element : k < elements.length) :
    loadElement mem addr size k = some (fresh (elements[k].setWidth size)) := by
  have blocks := mem.blockSize_pos
  have quotient : size / 8 = length := by omega
  have reached : k * length + length ≤ elements.length * length := by
    rw [← Nat.succ_mul]
    exact Nat.mul_le_mul_right length element
  have start := toNat_elementAddr addr width (k := k) (by
    have := BSIZE.isLt
    rcases Nat.eq_zero_or_pos length with none | some
    · subst none
      simpa using addr.isLt
    · omega)
  rw [loadElement, quotient, mem.read_spec _ (by omega), contents, start,
    read_part flat (fun data => length_bytesOf data length) elements addr.toNat element,
    Option.map_some, ofBytes_bytesOf _ width]

theorem loadElement_beyond (mem : MemorySpace BSIZE) (addr : MemAddr) (width : size = 8 * length)
    (positive : 0 < length) (short : length < 2 ^ 32) {n : Nat}
    (beyond : 2 ^ 32 - BSIZE.toNat < addr.toNat + (n + 1) * length) :
    ∃ k < n + 1, loadElement mem addr size k = none := by
  have blocks := mem.blockSize_pos
  have quotient : size / 8 = length := by omega
  -- the first element whose end lies beyond
  obtain ⟨k, inside, before, after⟩ : ∃ k < n + 1, addr.toNat + k * length < 2 ^ 32 ∧
      2 ^ 32 - BSIZE.toNat < addr.toNat + (k + 1) * length := by
    induction n with
    | zero => exact ⟨0, by omega, by simpa using addr.isLt, beyond⟩
    | succ n ih =>
      by_cases earlier : 2 ^ 32 - BSIZE.toNat < addr.toNat + (n + 1) * length
      · obtain ⟨k, inside, between⟩ := ih earlier
        exact ⟨k, by omega, between⟩
      · exact ⟨n + 1, by omega, by omega, beyond⟩
  refine ⟨k, inside, ?_⟩
  have ending : 2 ^ 32 - BSIZE.toNat < (elementAddr addr size k).toNat + length := by
    rw [toNat_elementAddr addr width before, Nat.add_assoc, ← Nat.succ_mul]
    exact after
  rw [loadElement, quotient, mem.read_beyond _ positive short ending]
  rfl

end

/-! ## Extension -/

theorem setWidth_eq_ofInt_toNat {w : Nat} (x : BitVec w) (d : Nat) :
    x.setWidth d = BitVec.ofInt d (x.toNat : Int) := by
  apply BitVec.eq_of_toNat_eq
  simp

theorem setWidth_fresh_eq_ofInt_iff {w d : Nat} (x : BitVec w) (wide : w ≤ d) (inside : d ≤ 64) :
    (fresh x).setWidth d = BitVec.ofInt d x.toInt ↔ d = w ∨ 0 ≤ x.toInt := by
  have image : (fresh x).setWidth d = BitVec.ofInt d (x.toNat : Int) :=
    (setWidth_fresh x inside).trans (setWidth_eq_ofInt_toNat x d)
  have halves := BitVec.toInt_eq_toNat_cond x
  have below := x.isLt
  have near : (x.toNat : Int) = x.toInt ∨ (x.toNat : Int) = x.toInt + 2 ^ w := by
    split at halves
    · exact .inl halves.symm
    · exact .inr (by rw [halves]; simp)
  have nonnegative : (x.toNat : Int) = x.toInt ↔ 0 ≤ x.toInt := by
    split at halves <;> omega
  rw [image, Words.ofInt_inj, Int.modEq_comm, Words.modEq_iff_of_near wide near, nonnegative]

theorem getLsbD_ones {n : Nat} (inside : n < 64) (i : Nat) :
    (BitVec.twoPow 64 n - 1).getLsbD i = decide (i < n) := by
  have one : 1 ≤ 2 ^ n := Nat.one_le_two_pow
  have value : (BitVec.twoPow 64 n - 1).toNat = 2 ^ n - 1 := by
    have power := BitVec.toNat_twoPow_of_lt inside
    rw [BitVec.toNat_sub_of_le (by rw [BitVec.le_def, power]; exact one), power]
    rfl
  rw [BitVec.getLsbD, value, Nat.testBit_two_pow_sub_one]

theorem setWidth_sign_extend {w d : Nat} (x : BitVec w) (positive : 0 < w) (wide : w ≤ d)
    (inside : d ≤ 64) : (sign_extend (fresh x) w d).setWidth d = BitVec.ofInt d x.toInt := by
  have extended : BitVec.ofInt d x.toInt = x.signExtend d := by
    rw [← BitVec.toInt_signExtend_of_le wide, BitVec.ofInt_toInt]
  have top : x.msb = x.getLsbD (w - 1) := BitVec.msb_eq_getLsbD_last x
  rw [sign_extend]
  by_cases same : w ≥ d
  · rw [if_pos same]
    exact (setWidth_fresh_eq_ofInt_iff x wide inside).mpr (.inl (by omega))
  rw [if_neg same]
  have tested : BitVec.twoPow 64 (w - 1) &&& fresh x = 0 ↔ x.msb = false := by
    have within : w - 1 < 64 := by omega
    have bit : (fresh x).getLsbD (w - 1) = x.msb := by
      simp [fresh, top, within]
    rw [BitVec.and_comm, BitVec.and_twoPow, bit]
    cases x.msb with
    | false => simp
    | true =>
      refine iff_of_false (fun zero => ?_) (by decide)
      have one := congrArg (BitVec.getLsbD · (w - 1)) zero
      simp [within] at one
  by_cases clear : x.msb = false
  · rw [if_pos (tested.mpr clear)]
    refine (setWidth_fresh_eq_ofInt_iff x wide inside).mpr (.inr ?_)
    have negative := BitVec.msb_eq_toInt (x := x)
    rw [clear] at negative
    simpa using negative
  · rw [if_neg fun zero => clear (tested.mp zero), extended]
    refine BitVec.eq_of_getLsbD_eq fun i below => ?_
    rw [Bool.not_eq_false] at clear
    rw [BitVec.getLsbD_setWidth, BitVec.getLsbD_or, BitVec.getLsbD_shiftLeft,
      getLsbD_ones (by omega), fresh, BitVec.getLsbD_setWidth, BitVec.getLsbD_signExtend, clear]
    by_cases low : i < w
    · simp [below, low, show i < 64 by omega]
    · have apart : i - w < d - w := by omega
      simp [below, low, apart, show i < 64 by omega]

/-! ## Loads after stores -/

theorem mapM_some {α β : Type} {f : α → Option β} {g : α → β} (list : List α)
    (each : ∀ a ∈ list, f a = some (g a)) : list.mapM f = some (list.map g) := by
  induction list with
  | nil => rfl
  | cons a list ih =>
    have rest := ih fun b member => each b (List.mem_cons_of_mem a member)
    rw [List.mapM_cons, each a List.mem_cons_self, rest]
    rfl

theorem mapM_none {α β : Type} {f : α → Option β} {list : List α} {a : α} (member : a ∈ list)
    (fails : f a = none) : list.mapM f = none := by
  induction list with
  | nil => cases member
  | cons b list ih =>
    rw [List.mapM_cons]
    rcases List.mem_cons.mp member with rfl | later
    · rw [fails]
      rfl
    · rw [ih later]
      cases f b <;> rfl

section

variable {Symbol : Type} [DecidableEq Symbol]

theorem set_vector_other (dst : List Symbol) {reg : Symbol} : ∀ (regs : Regs Symbol)
    (data : List RegValue), reg ∉ dst → set_vector_operand_values regs dst data reg = regs reg := by
  induction dst with
  | nil => exact fun _ _ _ => rfl
  | cons first dst ih =>
    intro regs data absent
    rw [List.mem_cons, not_or] at absent
    cases data with
    | nil => rfl
    | cons value data =>
      have rest := ih (set_reg regs first value) data absent.2
      rw [set_reg, Function.update_of_ne absent.1] at rest
      exact rest

theorem set_vector_last {n : Nat} (dst : Fin n → Symbol) (data : Fin n → RegValue) :
    ∀ (regs : Regs Symbol) (k : Fin n), (∀ j, k < j → dst j ≠ dst k) →
      set_vector_operand_values regs (List.ofFn dst) (List.ofFn data) (dst k) = data k := by
  induction n with
  | zero => exact fun _ k => k.elim0
  | succ n ih =>
    intro regs k last
    rw [List.ofFn_succ, List.ofFn_succ]
    cases k using Fin.cases with
    | zero =>
      have absent : dst 0 ∉ List.ofFn fun i : Fin n => dst i.succ := by
        rw [List.mem_ofFn]
        rintro ⟨j, same⟩
        exact last j.succ (Fin.succ_pos j) same
      have kept := set_vector_other _ (set_reg regs (dst 0) (data 0))
        (List.ofFn fun i : Fin n => data i.succ) absent
      rw [set_reg, Function.update_self] at kept
      exact kept
    | succ k =>
      exact ih (fun i => dst i.succ) (fun i => data i.succ) _ k fun j later =>
        last j.succ (Fin.succ_lt_succ_iff.mpr later)

variable {BSIZE : BitVec 32} {declared : Symbol → RegisterType} {type : IntegerType}
  {vector_spec : Option VectorSpec} {src1 dst : Fin (nelem vector_spec) → Symbol} {addr : MemAddr}
  {stored regs : Regs Symbol}

omit [DecidableEq Symbol] in
theorem nelem_pos (vector_spec : Option VectorSpec) : 0 < nelem vector_spec := by
  cases vector_spec with
  | none => decide
  | some spec => cases spec <;> decide

theorem width_eq_bytes (type : IntegerType) :
    type.width = 8 * (type.width / 8) ∧ 0 < type.width / 8 ∧ type.width / 8 < 2 ^ 32 := by
  cases type <;> decide

theorem nbits_le (type : RegisterType) : get_operand_nbits type ≤ 64 := by
  cases type with
  | integer type => exact type.width_le
  | _ => decide

def loadedImage (declared : Symbol → RegisterType) (type : IntegerType)
    (vector_spec : Option VectorSpec) (reg : Symbol) (stored : RegValue) : RegValue :=
  let data := fresh (stored.setWidth type.width)
  if vector_spec = none ∧ (type = .S16_TYPE ∨ type = .S32_TYPE) then
    sign_extend data type.width (get_operand_nbits (declared reg))
  else data

theorem ld_exec_spec (declared : Symbol → RegisterType) (dst : Fin (nelem vector_spec) → Symbol)
    (regs : Regs Symbol) {mem : MemorySpace BSIZE} {flat : Flat Byte}
    (contents : mem.contents = flat.write addr.toNat
      ((List.ofFn fun k => stored (src1 k)).flatMap (bytesOf · (type.width / 8))))
    (readable : Readable BSIZE type vector_spec addr) :
    ∃ loaded, ld_exec declared type vector_spec dst addr mem regs = some loaded ∧
      ∀ k, (∀ j, k < j → dst j ≠ dst k) →
        loaded (dst k) = loadedImage declared type vector_spec (dst k) (stored (src1 k)) := by
  obtain ⟨width, -, -⟩ := width_eq_bytes type
  have inside : addr.toNat + (List.ofFn fun k => stored (src1 k)).length * (type.width / 8) ≤
      2 ^ 32 - BSIZE.toNat := by
    rw [List.length_ofFn]
    exact readable
  have element (k : Fin (nelem vector_spec)) : loadElement mem addr type.width k =
      some (fresh ((stored (src1 k)).setWidth type.width)) := by
    have loaded := loadElement_spec mem width contents inside (k := k) (by simp)
    rwa [List.getElem_ofFn] at loaded
  cases vector_spec with
  | none =>
    have first := element ⟨0, nelem_pos none⟩
    refine ⟨set_reg regs (dst ⟨0, nelem_pos none⟩) (loadedImage declared type none
      (dst ⟨0, nelem_pos none⟩) (stored (src1 ⟨0, nelem_pos none⟩))), ?_, ?_⟩
    · rw [ld_exec, first, loadedImage]
      simp
      rfl
    · intro k _
      have only : k = ⟨0, nelem_pos none⟩ := Fin.ext (Nat.lt_one_iff.mp k.isLt)
      rw [only, set_reg, Function.update_self]
  | some spec =>
    have all : (List.range (nelem (some spec))).mapM (loadElement mem addr type.width) =
        some (List.ofFn fun k => fresh ((stored (src1 k)).setWidth type.width)) := by
      have each := mapM_some (f := loadElement mem addr type.width)
        (g := fun k => if inside : k < nelem (some spec)
          then fresh ((stored (src1 ⟨k, inside⟩)).setWidth type.width) else 0)
        (List.range (nelem (some spec))) fun k member => by
          have inside := List.mem_range.mp member
          rw [dif_pos inside]
          exact element ⟨k, inside⟩
      rw [each]
      refine congrArg some (List.ext_getElem (by simp) fun k inside _ => ?_)
      have inside : k < nelem (some spec) := by simpa using inside
      simp [inside]
    refine ⟨_, by rw [ld_exec, all]; rfl, fun k last => ?_⟩
    rw [set_vector_last dst _ regs k last, loadedImage, if_neg (by simp)]

theorem ld_exec_beyond {mem : MemorySpace BSIZE} (unreadable : ¬ Readable BSIZE type vector_spec addr) :
    ld_exec declared type vector_spec dst addr mem regs = none := by
  obtain ⟨width, positive, short⟩ := width_eq_bytes type
  have some := nelem_pos vector_spec
  have count : nelem vector_spec - 1 + 1 = nelem vector_spec := Nat.sub_add_cancel some
  obtain ⟨k, inside, fails⟩ := loadElement_beyond mem addr width positive short
    (n := nelem vector_spec - 1) (by rw [count]; exact Nat.lt_of_not_le unreadable)
  rw [count] at inside
  cases vector_spec with
  | none =>
    have zero : k = 0 := Nat.lt_one_iff.mp inside
    rw [ld_exec, ← zero, fails]
    rfl
  | some spec =>
    rw [ld_exec, mapM_none (List.mem_range.mpr inside) fails]
    rfl

omit [DecidableEq Symbol] in
theorem loadedImage_iff (reg : Symbol) (data : RegValue)
    (wide : type.width ≤ get_operand_nbits (declared reg)) :
    (loadedImage declared type vector_spec reg data).setWidth (get_operand_nbits (declared reg)) =
        BitVec.ofInt _ (type.value data) ↔
      (type.signed = true → get_operand_nbits (declared reg) = type.width ∨ 0 ≤ type.value data ∨
        vector_spec = none ∧ (type = .S16_TYPE ∨ type = .S32_TYPE)) := by
  have inside := nbits_le (declared reg)
  cases signed : type.signed with
  | false =>
    have typed : ¬ (vector_spec = none ∧ (type = .S16_TYPE ∨ type = .S32_TYPE)) := by
      rintro ⟨-, rfl | rfl⟩ <;> cases signed
    refine iff_of_true ?_ (fun wrong => by cases wrong)
    rw [loadedImage, if_neg typed, IntegerType.value_of_unsigned signed, setWidth_fresh _ inside]
    exact setWidth_eq_ofInt_toNat _ _
  | true =>
    rw [IntegerType.value_of_signed signed, imp_iff_right rfl]
    by_cases typed : vector_spec = none ∧ (type = .S16_TYPE ∨ type = .S32_TYPE)
    · refine iff_of_true ?_ (.inr (.inr typed))
      rw [loadedImage, if_pos typed]
      exact setWidth_sign_extend _ type.width_pos wide inside
    · rw [loadedImage, if_neg typed, or_iff_left typed]
      exact setWidth_fresh_eq_ofInt_iff _ wide inside

theorem undoes_iff_of_readable (wide : ∀ k, type.width ≤ get_operand_nbits (declared (dst k)))
    (mem : MemorySpace BSIZE) (readable : Readable BSIZE type vector_spec addr) :
    LoadUndoesStore declared type vector_spec src1 dst addr mem stored regs ↔
      SignKept declared type vector_spec src1 dst stored := by
  obtain ⟨width, -, -⟩ := width_eq_bytes type
  obtain ⟨mem', written, contents⟩ := storeElements_spec mem width
    (List.ofFn fun k => stored (src1 k)) (by rw [List.length_ofFn]; exact readable)
  obtain ⟨loaded, executed, images⟩ := ld_exec_spec declared dst regs contents readable
  have returns : Returns declared type src1 dst stored loaded ↔
      SignKept declared type vector_spec src1 dst stored := by
    refine forall_congr' fun k => forall_congr' fun last => ?_
    rw [images k last]
    exact loadedImage_iff (dst k) (stored (src1 k)) (wide k)
  rw [← returns]
  constructor
  · rintro ⟨other, after, stores, loads, result⟩
    obtain rfl : mem' = other := Option.some.inj (written.symm.trans stores)
    obtain rfl : loaded = after := Option.some.inj (executed.symm.trans loads)
    exact result
  · exact fun result => ⟨mem', loaded, written, executed, result⟩

theorem not_undoes_of_unreadable {mem : MemorySpace BSIZE}
    (unreadable : ¬ Readable BSIZE type vector_spec addr) :
    ¬ LoadUndoesStore declared type vector_spec src1 dst addr mem stored regs := by
  rintro ⟨mem', loaded, -, loads, -⟩
  rw [ld_exec_beyond unreadable] at loads
  cases loads

/-- A load undoes a store if and only if its elements end before the last block and every
    negative value of a signed type that is narrower than its register is a scalar of one
    of the two types that are extended. -/
theorem load_store_iff (declared : Symbol → RegisterType) (type : IntegerType)
    (vector_spec : Option VectorSpec) (src1 dst : Fin (nelem vector_spec) → Symbol)
    (wide : ∀ k, type.width ≤ get_operand_nbits (declared (dst k))) (addr : MemAddr)
    (mem : MemorySpace BSIZE) (stored regs : Regs Symbol) :
    LoadUndoesStore declared type vector_spec src1 dst addr mem stored regs ↔
      Readable BSIZE type vector_spec addr ∧
        SignKept declared type vector_spec src1 dst stored := by
  by_cases readable : Readable BSIZE type vector_spec addr
  · rw [and_iff_right readable, undoes_iff_of_readable wide mem readable]
  · exact iff_of_false (not_undoes_of_unreadable readable) fun kept => readable kept.1

end

/-- A scalar of 8 bits and a vector that hold -1 lose their signs in registers of 32 bits,
    and the last block cannot be read. -/
theorem load_store_wrong :
    ¬ LoadUndoesStore (fun _ : Nat => .integer .S32_TYPE) .S8_TYPE none (fun _ => 0) (fun _ => 1) 0
        Gpgpu.initial.m_global_mem (fun _ => 0xFF) (fun _ => 0) ∧
      ¬ LoadUndoesStore (fun _ : Nat => .integer .S32_TYPE) .S16_TYPE (some .V2_TYPE) (fun _ => 0)
        (fun k => k + 1) 0 Gpgpu.initial.m_global_mem (fun _ => 0xFFFF) (fun _ => 0) ∧
      ¬ LoadUndoesStore (fun _ : Nat => .integer .U32_TYPE) .U32_TYPE none (fun _ => 0) (fun _ => 1)
        0xFFFFFFF0 Gpgpu.initial.m_global_mem (fun _ => 7) (fun _ => 0) := by
  refine ⟨fun undoes => ?_, fun undoes => ?_, not_undoes_of_unreadable (by decide)⟩
  · have kept := (undoes_iff_of_readable (fun _ => by decide) _ (by decide)).mp undoes
    exact absurd (kept ⟨0, by decide⟩ (fun j later => absurd later (by decide +revert)) rfl) (by decide)
  · have kept := (undoes_iff_of_readable (fun _ => by decide) _ (by decide)).mp undoes
    exact absurd (kept ⟨1, by decide⟩ (fun j later => absurd later (by decide +revert)) rfl) (by decide)

theorem load_store_scalar :
    LoadUndoesStore (fun _ : Nat => .integer .S32_TYPE) .S16_TYPE none (fun _ => 0) (fun _ => 1) 0
      Gpgpu.initial.m_global_mem (fun _ => 0xFFFF) (fun _ => 0) :=
  (load_store_iff _ .S16_TYPE none _ _ (fun _ => by decide) 0 _ _ _).mpr
    ⟨by decide, fun _ _ _ => .inr (.inr ⟨rfl, .inl rfl⟩)⟩

end AesOnGpu.Ptx.LoadStore
