import AesOnGpu.Memory.Device

/-! # Kernel parameters

`function_info::finalize` copies the parameters of a kernel into its parameter memory, one
behind the other.  It copies whole words, so that a copy runs into the place of the next
parameter, which is copied later.  It passes over pointers to shared memory: their symbols
keep the addresses in shared memory that `add_param_data` has given them.  The others arrive
when they end before the last block of the memory (`arrive_iff`).
-/

namespace AesOnGpu.Ptx.KernelParameters

open AesOnGpu.Memory

/-! ## The code -/

/-- `param_t`.  The pointer is read behind the end of the parameter, too. -/
structure ParamT where
  pdata : Nat → Byte
  size : Nat

/-- `param_info`, with its value set; that of a pointer to shared memory is not read.  The declared
    size is in bits.  The assertion on the types compares what the parser has stored twice. -/
structure ParamInfo where
  m_name : String
  m_size : Nat
  m_value : ParamT
  is_ptr_shared : Bool

/-- The bytes that are copied: the smaller one of the actual and the declared size. -/
def ParamInfo.size (p : ParamInfo) : Nat :=
  if p.m_value.size ≠ p.m_size / 8 then
    if p.m_value.size < p.m_size / 8 then p.m_value.size else p.m_size / 8
  else p.m_value.size

/-- `m_ptx_kernel_param_info` in the order of its keys.  The parser skips a name that is
    declared already. -/
structure ParamTable where
  params : List ParamInfo
  distinct : (params.map ParamInfo.m_name).Nodup

/-- The parameter memory is a `memory_space_impl<8192>`. -/
abbrev ParamMemory := MemorySpace 8192

structure Copy where
  param_mem : ParamMemory
  param_address : MemAddr
  get_address : String → Option MemAddr

def word_size : Nat := 4

def ParamT.word (value : ParamT) (idx : Nat) : List Byte :=
  (List.range word_size).map fun i => value.pdata (idx + i)

/-- The loop over the words; its index is a `size_t`. -/
def copyWords (p : ParamInfo) (param_address : MemAddr) (param_mem : ParamMemory) :
    Option ParamMemory :=
  (List.range ((p.size + (word_size - 1)) / word_size)).foldlM
    (fun mem n => mem.write (BitVec.ofNat 32 (param_address.toNat + n * word_size))
      (p.m_value.word (n * word_size))) param_mem

/-- One turn of the loop over the parameters. -/
def copyParam (c : Copy) (p : ParamInfo) : Option Copy :=
  if p.is_ptr_shared then some c
  else do
    let param_mem ← copyWords p c.param_address c.param_mem
    return { param_mem
             param_address := c.param_address + BitVec.ofNat 32 p.size
             get_address := Function.update c.get_address p.m_name (some c.param_address) }

def finalize (table : ParamTable) (param_mem : ParamMemory)
    (get_address : String → Option MemAddr) : Option Copy :=
  table.params.foldlM copyParam ⟨param_mem, 0, get_address⟩

/-! ## What the copy is for -/

def Found (c : Copy) (p : ParamInfo) : Prop :=
  ∃ address, c.get_address p.m_name = some address ∧
    ∀ j < p.size, c.param_mem.read (address + BitVec.ofNat 32 j) 1 = some [p.m_value.pdata j]

/-- The ranges of two parameters. -/
def Disjoint (c : Copy) (p q : ParamInfo) : Prop :=
  ∀ a b, c.get_address p.m_name = some a → c.get_address q.m_name = some b →
    a.toNat + p.size ≤ b.toNat ∨ b.toNat + q.size ≤ a.toNat

def ParamTable.copied (table : ParamTable) : List ParamInfo :=
  table.params.filter fun p => !p.is_ptr_shared

/-- The parameters are where their symbols say, apart from each other; for pointers to shared
    memory nothing is recorded. -/
def Arrive (table : ParamTable) (param_mem : ParamMemory)
    (get_address : String → Option MemAddr) : Prop :=
  ∃ c, finalize table param_mem get_address = some c ∧
    (∀ p ∈ table.params,
      if p.is_ptr_shared then c.get_address p.m_name = get_address p.m_name else Found c p) ∧
    table.copied.Pairwise (Disjoint c)

def ParamTable.total (table : ParamTable) : Nat := (table.copied.map ParamInfo.size).sum

/-! ## Places -/

/-- The parameters with the numbers of bytes before them. -/
def places : Nat → List ParamInfo → List (ParamInfo × Nat)
  | _, [] => []
  | a, p :: ps => (p, a) :: places (a + p.size) ps

theorem map_fst_places (ps : List ParamInfo) : ∀ a, (places a ps).map Prod.fst = ps := by
  induction ps with
  | nil => exact fun _ => rfl
  | cons p ps ih => exact fun a => congrArg (p :: ·) (ih _)

theorem place_bounds {ps : List ParamInfo} {p : ParamInfo} {n : Nat} :
    ∀ {a}, (p, n) ∈ places a ps → a ≤ n ∧ n + p.size ≤ a + (ps.map ParamInfo.size).sum := by
  induction ps with
  | nil => exact fun member => by cases member
  | cons q ps ih =>
    intro a member
    rw [List.map_cons, List.sum_cons]
    rcases List.mem_cons.mp member with same | later
    · obtain ⟨rfl, rfl⟩ := Prod.mk.inj same
      omega
    · have bounds := ih later
      omega

theorem pairwise_places (ps : List ParamInfo) :
    ∀ a, (places a ps).Pairwise fun x y => x.2 + x.1.size ≤ y.2 := by
  induction ps with
  | nil => exact fun _ => List.Pairwise.nil
  | cons p ps ih =>
    intro a
    refine List.Pairwise.cons (fun y member => ?_) (ih _)
    exact (place_bounds (p := y.1) (n := y.2) member).1

theorem exists_crossing {ps : List ParamInfo} {limit : Nat} :
    ∀ {a}, a ≤ limit → limit < a + (ps.map ParamInfo.size).sum →
      ∃ x ∈ places a ps, x.2 ≤ limit ∧ limit < x.2 + x.1.size := by
  induction ps with
  | nil =>
    intro a above below
    simp only [List.map_nil, List.sum_nil] at below
    omega
  | cons p ps ih =>
    intro a above below
    rw [List.map_cons, List.sum_cons] at below
    by_cases here : limit < a + p.size
    · exact ⟨(p, a), List.mem_cons_self, above, here⟩
    · obtain ⟨x, member, crossing⟩ := ih (a := a + p.size) (by omega) (by omega)
      exact ⟨x, List.mem_cons_of_mem _ member, crossing⟩

/-! ## Addresses -/

theorem finalize_eq_copied (table : ParamTable) (param_mem : ParamMemory)
    (get_address : String → Option MemAddr) :
    finalize table param_mem get_address =
      table.copied.foldlM copyParam ⟨param_mem, 0, get_address⟩ := by
  rw [finalize, ParamTable.copied]
  generalize (⟨param_mem, 0, get_address⟩ : Copy) = c
  induction table.params generalizing c with
  | nil => rfl
  | cons p ps ih =>
    cases shared : p.is_ptr_shared with
    | true =>
      have skipped : copyParam c p = some c := if_pos shared
      rw [List.foldlM_cons, skipped, List.filter_cons_of_neg (by simp [shared])]
      exact ih c
    | false =>
      rw [List.filter_cons_of_pos (by simp [shared]), List.foldlM_cons, List.foldlM_cons]
      exact bind_congr fun next => ih next

theorem copyParam_inv {c c' : Copy} {p : ParamInfo} (value : p.is_ptr_shared = false)
    (copied : copyParam c p = some c') :
    copyWords p c.param_address c.param_mem = some c'.param_mem ∧
      c'.param_address = c.param_address + BitVec.ofNat 32 p.size ∧
      c'.get_address = Function.update c.get_address p.m_name (some c.param_address) := by
  rw [copyParam, if_neg (by simp [value])] at copied
  obtain ⟨mem, words, rest⟩ := Option.bind_eq_some_iff.mp copied
  obtain rfl := Option.some.inj rest
  exact ⟨words, rfl, rfl⟩

theorem get_address_places {ps : List ParamInfo} (values : ∀ p ∈ ps, p.is_ptr_shared = false)
    (distinct : (ps.map ParamInfo.m_name).Nodup) :
    ∀ {c c' : Copy} {a : Nat}, c.param_address = BitVec.ofNat 32 a →
      ps.foldlM copyParam c = some c' →
      (∀ name ∉ ps.map ParamInfo.m_name, c'.get_address name = c.get_address name) ∧
        ∀ x ∈ places a ps, c'.get_address x.1.m_name = some (BitVec.ofNat 32 x.2) := by
  induction ps with
  | nil =>
    intro c c' a _ run
    obtain rfl : c = c' := Option.some.inj run
    exact ⟨fun _ _ => rfl, fun x member => by cases member⟩
  | cons p ps ih =>
    intro c c' a start run
    rw [List.map_cons, List.nodup_cons] at distinct
    rw [List.foldlM_cons] at run
    obtain ⟨next, copied, rest⟩ := Option.bind_eq_some_iff.mp run
    obtain ⟨-, address, symbols⟩ := copyParam_inv (values p List.mem_cons_self) copied
    have shifted : next.param_address = BitVec.ofNat 32 (a + p.size) := by
      rw [address, start, BitVec.ofNat_add]
    obtain ⟨others, placed⟩ := ih (fun q member => values q (List.mem_cons_of_mem _ member))
      distinct.2 shifted rest
    refine ⟨fun name absent => ?_, fun x member => ?_⟩
    · rw [List.map_cons, List.mem_cons, not_or] at absent
      rw [others name absent.2, symbols, Function.update_of_ne absent.1]
    · rcases List.mem_cons.mp member with rfl | later
      · rw [others _ distinct.1, symbols, Function.update_self, start]
      · exact placed x later

/-! ## Contents -/

theorem length_word (value : ParamT) (idx : Nat) : (value.word idx).length = word_size := by
  simp [ParamT.word]

theorem copyWords_spec (p : ParamInfo) (param_address : MemAddr) (param_mem : ParamMemory)
    (inside : param_address.toNat + p.size ≤ 2 ^ 32 - 8192) :
    ∃ mem, copyWords p param_address param_mem = some mem ∧ ∃ length, p.size ≤ length ∧
      mem.contents = param_mem.contents.write param_address.toNat
        ((List.range length).map p.m_value.pdata) := by
  have words (count : Nat) (few : count ≤ (p.size + (word_size - 1)) / word_size) :
      ∃ mem, (List.range count).foldlM (fun (mem : ParamMemory) n =>
          mem.write (BitVec.ofNat 32 (param_address.toNat + n * word_size))
            (p.m_value.word (n * word_size))) param_mem = some mem ∧
        mem.contents = param_mem.contents.write param_address.toNat
          ((List.range (count * word_size)).map p.m_value.pdata) := by
    induction count with
    | zero => exact ⟨param_mem, rfl, by simp⟩
    | succ count ih =>
      obtain ⟨before, run, contents⟩ := ih (by omega)
      have reached : param_address.toNat + count * word_size + word_size ≤ 2 ^ 32 - 8192 + 3 := by
        unfold word_size at few ⊢
        omega
      have place : (BitVec.ofNat 32 (param_address.toNat + count * word_size)).toNat =
          param_address.toNat + count * word_size := by
        rw [BitVec.toNat_ofNat, Nat.mod_eq_of_lt]
        omega
      have word := length_word p.m_value (count * word_size)
      have short : word_size = 4 := rfl
      have blocks : (8192 : BitVec 32).toNat = 8192 := rfl
      have modulus := Nat.mod_le (param_address.toNat + count * word_size) 8192
      obtain ⟨after, written, next⟩ := before.write_spec
        (BitVec.ofNat 32 (param_address.toNat + count * word_size))
        (show _ + (p.m_value.word (count * word_size)).length ≤ 2 ^ 32 by omega)
        (by rw [place, blocks]; omega)
      refine ⟨after, ?_, ?_⟩
      · rw [List.range_succ, List.foldlM_append, run]
        simpa using written
      · have bytes : (List.range ((count + 1) * word_size)).map p.m_value.pdata =
            (List.range (count * word_size)).map p.m_value.pdata ++
              p.m_value.word (count * word_size) := by
          rw [Nat.succ_mul, List.range_add, List.map_append, List.map_map]
          rfl
        rw [next, contents, place, bytes, Flat.write_append, List.length_map, List.length_range]
  obtain ⟨mem, run, contents⟩ := words _ le_rfl
  refine ⟨mem, run, _, ?_, contents⟩
  unfold word_size
  omega

theorem copied_contents {ps : List ParamInfo} (values : ∀ p ∈ ps, p.is_ptr_shared = false) :
    ∀ {c : Copy} {a : Nat}, c.param_address = BitVec.ofNat 32 a →
      a + (ps.map ParamInfo.size).sum ≤ 2 ^ 32 - 8192 →
      ∃ c', ps.foldlM copyParam c = some c' ∧
        (∀ cell < a, c'.param_mem.contents cell = c.param_mem.contents cell) ∧
        ∀ x ∈ places a ps, ∀ j < x.1.size,
          c'.param_mem.contents (x.2 + j) = x.1.m_value.pdata j := by
  induction ps with
  | nil => exact fun _ _ => ⟨_, rfl, fun _ _ => rfl, fun x member => by cases member⟩
  | cons p ps ih =>
    intro c a start inside
    rw [List.map_cons, List.sum_cons] at inside
    have address : c.param_address.toNat = a := by
      rw [start, BitVec.toNat_ofNat, Nat.mod_eq_of_lt]
      omega
    obtain ⟨mem, words, length, enough, contents⟩ :=
      copyWords_spec p c.param_address c.param_mem (by omega)
    rw [address] at contents
    have copied : copyParam c p = some ⟨mem, c.param_address + BitVec.ofNat 32 p.size,
        Function.update c.get_address p.m_name (some c.param_address)⟩ := by
      rw [copyParam, if_neg (by simp [values p List.mem_cons_self]), words]
      rfl
    obtain ⟨c', run, below, placed⟩ := ih (fun q member => values q (List.mem_cons_of_mem _ member))
      (c := ⟨mem, c.param_address + BitVec.ofNat 32 p.size,
        Function.update c.get_address p.m_name (some c.param_address)⟩) (a := a + p.size)
      (by rw [start, BitVec.ofNat_add]) (by omega)
    refine ⟨c', by rw [List.foldlM_cons, copied]; exact run, fun cell before => ?_,
      fun x member => ?_⟩
    · rw [below cell (by omega)]
      exact (congrFun contents cell).trans (Flat.write_below _ before)
    · rcases List.mem_cons.mp member with rfl | later
      · intro j within
        have place : j < ((List.range length).map p.m_value.pdata).length := by
          simpa using Nat.lt_of_lt_of_le within enough
        have byte := @Flat.write_inside _ c.param_mem.contents a _ _ place
        rw [below _ (Nat.add_lt_add_left within a), show mem.contents (a + j) = _ from
          congrFun contents (a + j), byte]
        simp
      · exact placed x later

/-! ## Arrival -/

section

variable {table : ParamTable} {param_mem : ParamMemory} {get_address : String → Option MemAddr}
  {c : Copy}

theorem mem_copied {p : ParamInfo} :
    p ∈ table.copied ↔ p ∈ table.params ∧ p.is_ptr_shared = false := by
  simp [ParamTable.copied]

theorem distinct_copied (table : ParamTable) : (table.copied.map ParamInfo.m_name).Nodup :=
  table.distinct.sublist (List.filter_sublist.map _)

theorem addresses_finalize (run : finalize table param_mem get_address = some c) :
    (∀ name ∉ table.copied.map ParamInfo.m_name, c.get_address name = get_address name) ∧
      ∀ x ∈ places 0 table.copied, c.get_address x.1.m_name = some (BitVec.ofNat 32 x.2) := by
  rw [finalize_eq_copied] at run
  exact get_address_places (fun p member => (mem_copied.mp member).2) (distinct_copied table) rfl run

theorem get_address_shared (run : finalize table param_mem get_address = some c) {p : ParamInfo}
    (member : p ∈ table.params) (pointer : p.is_ptr_shared = true) :
    c.get_address p.m_name = get_address p.m_name := by
  refine (addresses_finalize run).1 _ fun inside => ?_
  obtain ⟨q, copied, same⟩ := List.mem_map.mp inside
  obtain ⟨member', value⟩ := mem_copied.mp copied
  -- names are distinct, so no value has the name of the pointer
  obtain rfl := List.inj_on_of_nodup_map table.distinct member' member same
  exact absurd (value.symm.trans pointer) (by decide)

theorem exists_place {ps : List ParamInfo} {p : ParamInfo} (member : p ∈ ps) (a : Nat) :
    ∃ n, (p, n) ∈ places a ps := by
  rw [← map_fst_places ps a, List.mem_map] at member
  obtain ⟨⟨q, n⟩, placed, rfl⟩ := member
  exact ⟨n, placed⟩

theorem not_found_crossing (run : finalize table param_mem get_address = some c)
    {x : ParamInfo × Nat} (placed : x ∈ places 0 table.copied) (start : x.2 ≤ 2 ^ 32 - 8192)
    (stop : 2 ^ 32 - 8192 < x.2 + x.1.size) : ¬ Found c x.1 := by
  rintro ⟨address, symbol, found⟩
  obtain rfl := Option.some.inj (((addresses_finalize run).2 x placed).symm.trans symbol)
  -- its first byte in the last block cannot be read
  have byte := found (2 ^ 32 - 8192 - x.2) (by omega)
  have reached : BitVec.ofNat 32 x.2 + BitVec.ofNat 32 (2 ^ 32 - 8192 - x.2) =
      BitVec.ofNat 32 (2 ^ 32 - 8192) := by
    rw [← BitVec.ofNat_add, Nat.add_sub_cancel' start]
  rw [reached, c.param_mem.read_beyond _ Nat.one_pos (by decide) (by decide)] at byte
  cases byte

theorem found_of_contents (run : finalize table param_mem get_address = some c)
    (inside : table.total ≤ 2 ^ 32 - 8192) {x : ParamInfo × Nat}
    (placed : x ∈ places 0 table.copied)
    (contents : ∀ j < x.1.size, c.param_mem.contents (x.2 + j) = x.1.m_value.pdata j) :
    Found c x.1 := by
  refine ⟨_, (addresses_finalize run).2 x placed, fun j within => ?_⟩
  have bounds := place_bounds (p := x.1) (n := x.2) placed
  rw [ParamTable.total] at inside
  -- addresses do not wrap
  have reached : (BitVec.ofNat 32 x.2 + BitVec.ofNat 32 j).toNat = x.2 + j := by
    rw [← BitVec.ofNat_add, BitVec.toNat_ofNat, Nat.mod_eq_of_lt]
    omega
  have blocks : (8192 : BitVec 32).toNat = 8192 := rfl
  rw [c.param_mem.read_spec _ (by rw [reached, blocks]; omega), reached, ← contents j within]
  simp [Flat.read]

theorem disjoint_places (run : finalize table param_mem get_address = some c)
    (inside : table.total ≤ 2 ^ 32 - 8192) : table.copied.Pairwise (Disjoint c) := by
  rw [← map_fst_places table.copied 0, List.pairwise_map]
  refine (pairwise_places table.copied 0).imp_of_mem fun {x y} placed placed' before => ?_
  intro a b first second
  obtain rfl := Option.some.inj (((addresses_finalize run).2 x placed).symm.trans first)
  obtain rfl := Option.some.inj (((addresses_finalize run).2 y placed').symm.trans second)
  have bounds := place_bounds (p := x.1) (n := x.2) placed
  have bounds' := place_bounds (p := y.1) (n := y.2) placed'
  rw [ParamTable.total] at inside
  left
  rw [BitVec.toNat_ofNat, BitVec.toNat_ofNat, Nat.mod_eq_of_lt (by omega),
    Nat.mod_eq_of_lt (by omega)]
  exact before

theorem Arrive.total_le (arrive : Arrive table param_mem get_address) :
    table.total ≤ 2 ^ 32 - 8192 := by
  obtain ⟨c, run, found, -⟩ := arrive
  by_contra beyond
  have beyond' : 2 ^ 32 - 8192 < 0 + (table.copied.map ParamInfo.size).sum := by
    rw [ParamTable.total] at beyond
    omega
  -- one of the parameters reaches into the last block
  obtain ⟨x, placed, start, stop⟩ := exists_crossing (Nat.zero_le _) beyond'
  have copied : x.1 ∈ table.copied := by
    rw [← map_fst_places table.copied 0]
    exact List.mem_map_of_mem placed
  obtain ⟨member, value⟩ := mem_copied.mp copied
  have here := found x.1 member
  rw [if_neg (by simp [value])] at here
  exact not_found_crossing run placed start stop here

theorem arrive_of_total_le (param_mem : ParamMemory) (get_address : String → Option MemAddr)
    (inside : table.total ≤ 2 ^ 32 - 8192) : Arrive table param_mem get_address := by
  have values : ∀ p ∈ table.copied, p.is_ptr_shared = false :=
    fun p member => (mem_copied.mp member).2
  obtain ⟨c, run, -, contents⟩ := copied_contents values
    (c := ⟨param_mem, 0, get_address⟩) (a := 0) rfl
    (by rw [ParamTable.total] at inside; omega)
  rw [← finalize_eq_copied] at run
  refine ⟨c, run, fun p member => ?_, disjoint_places run inside⟩
  split
  next pointer => exact get_address_shared run member pointer
  next value =>
    obtain ⟨n, placed⟩ := exists_place (mem_copied.mpr ⟨member, by simpa using value⟩) 0
    exact found_of_contents run inside placed (contents (p, n) placed)

end

/-- The parameters arrive exactly when all of them lie before the last block of the memory. -/
theorem arrive_iff (table : ParamTable) (param_mem : ParamMemory)
    (get_address : String → Option MemAddr) :
    Arrive table param_mem get_address ↔ table.total ≤ 2 ^ 32 - 8192 :=
  ⟨Arrive.total_le, arrive_of_total_le param_mem get_address⟩

/-- A pointer to shared memory at the address 0x100. -/
def sharedPointer : ParamTable where
  params := [⟨"pointer", 64, ⟨fun j => if j = 1 then 1 else 0, 8⟩, true⟩]
  distinct := List.nodup_singleton _

/-- The parameter memory does not get the pointer. -/
theorem not_arrive_shared_pointer : ¬ ∀ (table : ParamTable) (param_mem : ParamMemory)
    (get_address : String → Option MemAddr),
    ∃ c, finalize table param_mem get_address = some c ∧ (∀ p ∈ table.params, Found c p) ∧
      table.params.Pairwise (Disjoint c) := by
  intro arrive
  have new : (MemorySpace.new 8192).isSome = true := new_instantiated (by decide)
  obtain ⟨c, run, found, -⟩ :=
    arrive sharedPointer ((MemorySpace.new 8192).get new) fun _ => some 0x100
  obtain rfl := Option.some.inj run
  obtain ⟨address, symbol, bytes⟩ := found _ List.mem_cons_self
  obtain rfl := Option.some.inj symbol
  have byte := bytes 1 (by decide)
  rw [((MemorySpace.new 8192).get new).read_spec _ (by decide),
    MemorySpace.contents_new (Option.some_get new).symm] at byte
  revert byte
  decide

end AesOnGpu.Ptx.KernelParameters
