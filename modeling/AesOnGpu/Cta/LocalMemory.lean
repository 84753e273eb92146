import AesOnGpu.Lib.Interleaving
import AesOnGpu.MemAccess
import AesOnGpu.Ptx.GenericWindows
import AesOnGpu.Cta.BlockIssue

/-! # Local memory

Each thread has its own local memory, whose words `translate_local_memaddr` deals out over one
window of the address space: the same word of all threads that a kernel can have at a time, then
the next word. All arithmetic is on `unsigned`.
-/

namespace AesOnGpu.Cta

open Ptx

def WARP_PER_CTA_MAX : Nat := 48

/-- What `shader_core_config::init` and the constructor of `barrier_set_t` accept. The number of
    shaders is not checked against `MAX_STREAMING_MULTIPROCESSORS`. -/
structure LocalConfig extends Dispatch.Config where
  gpgpu_local_mem_map : Bool
  threads_le : n_thread_per_shader ≤ MAX_THREAD_PER_SM.toNat
  whole_warps : n_thread_per_shader % warp_size = 0
  warps_le : n_thread_per_shader / warp_size ≤ WARP_PER_CTA_MAX
  shader_lt : num_shader < 2 ^ 32

structure LocalMap where
  gpgpu_local_mem_map : Bool
  n_thread_per_shader : BitVec 32
  kernel_padded_threads_per_cta : BitVec 32
  kernel_max_cta_per_shader : BitVec 32
  deriving DecidableEq

/-- `shader_core_ctx::set_max_cta` -/
def LocalConfig.set_max_cta (config : LocalConfig) (kernel : KernelInfo) :
    Except Failure LocalMap := do
  let kernel_max_cta_per_shader ← config.max_cta kernel
  return {
    gpgpu_local_mem_map := config.gpgpu_local_mem_map
    n_thread_per_shader := .ofNat 32 config.n_thread_per_shader
    kernel_padded_threads_per_cta := .ofNat 32 (config.padded_cta_size kernel.threads_per_cta)
    kernel_max_cta_per_shader := .ofNat 32 kernel_max_cta_per_shader }

def MAX_ACCESSES_PER_INSN_PER_THREAD : BitVec 32 := 8

namespace LocalMap

variable (m : LocalMap) (m_sid num_shader : BitVec 32)

def thread_base (tid : BitVec 32) : BitVec 32 :=
  if m.gpgpu_local_mem_map then
    4 * (m.kernel_padded_threads_per_cta *
      (m_sid + num_shader * (tid / m.kernel_padded_threads_per_cta)) +
      tid % m.kernel_padded_threads_per_cta)
  else 4 * (m.n_thread_per_shader * m_sid + tid)

def max_concurrent_threads : BitVec 32 :=
  if m.gpgpu_local_mem_map then
    m.kernel_padded_threads_per_cta * m.kernel_max_cta_per_shader * num_shader
  else num_shader * m.n_thread_per_shader

/-- `translate_local_memaddr`; `none` is a failed assertion. -/
def translate_local_memaddr (localaddr tid datasize : BitVec 32) : Option (List Address) :=
  let thread_base := m.thread_base m_sid num_shader tid
  let max_concurrent_threads := m.max_concurrent_threads num_shader
  if thread_base < 4 * max_concurrent_threads then
    if 4 ≤ datasize then
      let num_accesses := datasize / 4
      if datasize % 4 = 0 ∧ num_accesses ≤ MAX_ACCESSES_PER_INSN_PER_THREAD ∧
          localaddr % 4 = 0 then
        some ((List.range num_accesses.toNat).map fun i =>
          let local_word := localaddr / 4 + .ofNat 32 i
          (local_word * max_concurrent_threads * 4 + thread_base + LOCAL_GENERIC_START).setWidth 64)
      else none
    else if 0 < datasize then
      let local_word := localaddr / 4
      let local_word_offset := localaddr % 4
      if (localaddr + datasize - 1) / 4 = local_word then
        some [(local_word * max_concurrent_threads * 4 + local_word_offset + thread_base +
          LOCAL_GENERIC_START).setWidth 64]
      else none
    else none
  else none

/-! ## The purpose -/

def chunk : Nat :=
  if m.gpgpu_local_mem_map then m.kernel_padded_threads_per_cta.toNat
  else m.n_thread_per_shader.toNat

def chunks : Nat := if m.gpgpu_local_mem_map then m.kernel_max_cta_per_shader.toNat else 1

def threads : Nat := m.chunks * num_shader.toNat * m.chunk

/-- A hardware thread of a core that the kernel can have. -/
def Hosts (tid : BitVec 32) : Prop := tid.toNat < m.chunks * m.chunk

instance (tid : BitVec 32) : Decidable (m.Hosts tid) :=
  inferInstanceAs (Decidable (tid.toNat < m.chunks * m.chunk))

/-- The number of a thread among all, and the place of one of its bytes in the window. -/
def threadIndex (tid : BitVec 32) : Nat :=
  Interleaving.nth m.chunk num_shader.toNat m_sid.toNat tid.toNat

def offset (tid byte : BitVec 32) : Nat :=
  Interleaving.nth 4 (m.threads num_shader) (m.threadIndex m_sid num_shader tid) byte.toNat

def byteAddr (tid byte : BitVec 32) : Option Address :=
  (m.translate_local_memaddr m_sid num_shader byte tid 1).bind List.head?

/-- Accesses of whole words, or within one word. -/
def Aligned (localaddr datasize : BitVec 32) : Prop :=
  (4 ≤ datasize.toNat ∧ datasize.toNat % 4 = 0 ∧ datasize.toNat / 4 ≤ 8 ∧ localaddr.toNat % 4 = 0) ∨
  (0 < datasize.toNat ∧ datasize.toNat < 4 ∧
    (localaddr.toNat + datasize.toNat - 1) / 4 = localaddr.toNat / 4)

def chunkBytes (datasize : BitVec 32) (translated_addrs : List Address) : List Address :=
  translated_addrs.flatMap fun addr =>
    (List.range (min datasize.toNat 4)).map fun i => addr + .ofNat 64 i

/-- Local memories of `size` bytes are kept apart within the window. -/
structure Separate (size : BitVec 32) : Prop where
  byte : ∀ m_sid tid byte, m_sid < num_shader → m.Hosts tid → byte < size →
    ∃ addr, m.byteAddr m_sid num_shader tid byte = some addr ∧
      addr.toNat = LOCAL_GENERIC_START.toNat + m.offset m_sid num_shader tid byte ∧
      addr.toNat < LOCAL_GENERIC_START.toNat + TOTAL_LOCAL_MEM.toNat
  apart : ∀ m_sid m_sid' tid tid' byte byte', m_sid < num_shader → m_sid' < num_shader →
    m.Hosts tid → m.Hosts tid' → byte < size → byte' < size →
    m.byteAddr m_sid num_shader tid byte = m.byteAddr m_sid' num_shader tid' byte' →
    m_sid = m_sid' ∧ tid = tid' ∧ byte = byte'
  access : ∀ m_sid tid localaddr datasize, m_sid < num_shader → m.Hosts tid →
    Aligned localaddr datasize → localaddr.toNat + datasize.toNat ≤ size.toNat →
    ∃ translated_addrs,
      m.translate_local_memaddr m_sid num_shader localaddr tid datasize = some translated_addrs ∧
      (List.range datasize.toNat).map
          (fun i => m.byteAddr m_sid num_shader tid (localaddr + .ofNat 32 i)) =
        (chunkBytes datasize translated_addrs).map some

/-! ## Addresses -/

section Addresses

variable {m m_sid num_shader} {tid : BitVec 32}

theorem threadIndex_lt (shader : m_sid < num_shader) (hosts : m.Hosts tid) :
    m.threadIndex m_sid num_shader tid < m.threads num_shader :=
  Interleaving.nth_lt shader hosts

theorem thread_base_toNat (shader : m_sid < num_shader) (hosts : m.Hosts tid)
    (fits : 4 * m.threads num_shader < 2 ^ 32) :
    (m.thread_base m_sid num_shader tid).toNat = 4 * m.threadIndex m_sid num_shader tid := by
  have index := threadIndex_lt shader hosts
  have narrow : 4 * m.threadIndex m_sid num_shader tid < 2 ^ 32 := by omega
  have four : (4 : BitVec 32).toNat = 4 := rfl
  rw [← Nat.mod_eq_of_lt narrow, threadIndex, Interleaving.nth, Interleaving.place, thread_base,
    chunk]
  rw [Hosts, chunks, chunk] at hosts
  cases mapping : m.gpgpu_local_mem_map with
  | true =>
    simp only [if_true, BitVec.toNat_mul, BitVec.toNat_add, BitVec.toNat_udiv, BitVec.toNat_umod,
      Nat.mul_mod_mod, Nat.add_mod_mod, Nat.mod_add_mod, four]
    congr 1
    ring
  | false =>
    rw [mapping] at hosts
    simp only [Bool.false_eq_true, if_false, Nat.one_mul] at hosts ⊢
    simp only [BitVec.toNat_mul, BitVec.toNat_add, Nat.mul_mod_mod, Nat.mod_add_mod, four,
      Nat.div_eq_of_lt hosts, Nat.mod_eq_of_lt hosts]
    congr 1
    ring

theorem max_concurrent_threads_toNat (fits : 4 * m.threads num_shader < 2 ^ 32) :
    (m.max_concurrent_threads num_shader).toNat = m.threads num_shader := by
  have narrow : m.threads num_shader < 2 ^ 32 := by omega
  rw [← Nat.mod_eq_of_lt narrow, threads, max_concurrent_threads, chunk, chunks]
  cases m.gpgpu_local_mem_map with
  | true =>
    simp only [if_true, BitVec.toNat_mul, Nat.mod_mul_mod]
    congr 1
    ring
  | false =>
    simp only [Bool.false_eq_true, if_false, BitVec.toNat_mul, Nat.one_mul]

theorem thread_base_lt (shader : m_sid < num_shader) (hosts : m.Hosts tid)
    (fits : 4 * m.threads num_shader < 2 ^ 32) :
    m.thread_base m_sid num_shader tid < 4 * m.max_concurrent_threads num_shader := by
  have index := threadIndex_lt shader hosts
  have four : (4 : BitVec 32).toNat = 4 := rfl
  rw [BitVec.lt_def, thread_base_toNat shader hosts fits, BitVec.toNat_mul, four,
    max_concurrent_threads_toNat fits, Nat.mod_eq_of_lt fits]
  omega

variable {size byte : BitVec 32}

def Fits (m : LocalMap) (num_shader size : BitVec 32) : Prop :=
  (size.toNat + 3) / 4 * m.threads num_shader * 4 ≤ TOTAL_LOCAL_MEM.toNat

theorem offset_lt (shader : m_sid < num_shader) (hosts : m.Hosts tid) (inside : byte < size)
    (fits : m.Fits num_shader size) : m.offset m_sid num_shader tid byte < TOTAL_LOCAL_MEM.toNat := by
  have words : byte.toNat < (size.toNat + 3) / 4 * 4 := by
    rw [BitVec.lt_def] at inside
    omega
  exact Nat.lt_of_lt_of_le (Interleaving.nth_lt (threadIndex_lt shader hosts) words) fits

theorem Fits.threads (fits : m.Fits num_shader size) (inside : byte < size) :
    4 * m.threads num_shader < 2 ^ 32 := by
  have words : 1 ≤ (size.toNat + 3) / 4 := by
    rw [BitVec.lt_def] at inside
    omega
  have window : TOTAL_LOCAL_MEM.toNat = 2 ^ 30 := by decide
  have one : 1 * m.threads num_shader ≤ (size.toNat + 3) / 4 * m.threads num_shader :=
    Nat.mul_le_mul_right _ words
  rw [Fits, window] at fits
  omega

theorem linear_address_toNat (shader : m_sid < num_shader) (hosts : m.Hosts tid)
    (inside : byte < size) (fits : m.Fits num_shader size) {local_word local_word_offset : BitVec 32}
    (word : local_word.toNat = byte.toNat / 4) (rest : local_word_offset.toNat = byte.toNat % 4) :
    (local_word * m.max_concurrent_threads num_shader * 4 + local_word_offset +
      m.thread_base m_sid num_shader tid + LOCAL_GENERIC_START).toNat =
        LOCAL_GENERIC_START.toNat + m.offset m_sid num_shader tid byte := by
  have below := offset_lt shader hosts inside fits
  have small := fits.threads inside
  have four : (4 : BitVec 32).toNat = 4 := rfl
  have window : TOTAL_LOCAL_MEM.toNat = 2 ^ 30 := by decide
  have start : LOCAL_GENERIC_START.toNat = 0x3FC00000 := by decide
  have narrow : LOCAL_GENERIC_START.toNat + m.offset m_sid num_shader tid byte < 2 ^ 32 := by
    omega
  generalize LOCAL_GENERIC_START = base at narrow ⊢
  have total : byte.toNat / 4 * m.threads num_shader * 4 + byte.toNat % 4 +
      (4 * m.threadIndex m_sid num_shader tid + base.toNat) =
        base.toNat + m.offset m_sid num_shader tid byte := by
    rw [offset, Interleaving.nth, Interleaving.place]
    ring
  rw [BitVec.toNat_add, BitVec.toNat_add, BitVec.toNat_add, BitVec.toNat_mul, BitVec.toNat_mul,
    word, rest, four, max_concurrent_threads_toNat small, thread_base_toNat shader hosts small,
    Nat.mod_mul_mod, Nat.mod_add_mod, Nat.mod_add_mod, Nat.add_assoc, Nat.mod_add_mod, total,
    Nat.mod_eq_of_lt narrow]

theorem translate_within (shader : m_sid < num_shader) (hosts : m.Hosts tid) (inside : byte < size)
    (fits : m.Fits num_shader size) {datasize : BitVec 32} (positive : 0 < datasize.toNat)
    (small : datasize.toNat < 4) (within : (byte.toNat + datasize.toNat - 1) / 4 = byte.toNat / 4)
    (below : byte.toNat + datasize.toNat ≤ size.toNat) :
    ∃ addr, m.translate_local_memaddr m_sid num_shader byte tid datasize = some [addr] ∧
      addr.toNat = LOCAL_GENERIC_START.toNat + m.offset m_sid num_shader tid byte := by
  have base := thread_base_lt shader hosts (fits.threads inside)
  have four : (4 : BitVec 32).toNat = 4 := rfl
  have word : (byte / 4).toNat = byte.toNat / 4 := by rw [BitVec.toNat_udiv, four]
  have rest : (byte % 4).toNat = byte.toNat % 4 := by rw [BitVec.toNat_umod, four]
  have few : ¬ 4 ≤ datasize := by
    rw [BitVec.le_def, four]
    omega
  have nonempty : 0 < datasize := by
    rw [BitVec.lt_def]
    exact positive
  have last : (byte + datasize - 1) / 4 = byte / 4 := by
    have sum : (byte + datasize - 1).toNat = byte.toNat + datasize.toNat - 1 := by bv_omega
    apply BitVec.eq_of_toNat_eq
    rw [BitVec.toNat_udiv, sum, word, four, within]
  refine ⟨(byte / 4 * m.max_concurrent_threads num_shader * 4 + byte % 4 +
    m.thread_base m_sid num_shader tid + LOCAL_GENERIC_START).setWidth 64, ?_, ?_⟩
  · rw [translate_local_memaddr, if_pos base, if_neg few, if_pos nonempty]
    exact if_pos last
  · rw [BitVec.toNat_setWidth_of_le (by decide)]
    exact linear_address_toNat shader hosts inside fits word rest

theorem byteAddr_eq (shader : m_sid < num_shader) (hosts : m.Hosts tid) (inside : byte < size)
    (fits : m.Fits num_shader size) : ∃ addr, m.byteAddr m_sid num_shader tid byte = some addr ∧
      addr.toNat = LOCAL_GENERIC_START.toNat + m.offset m_sid num_shader tid byte := by
  have one : (1 : BitVec 32).toNat = 1 := rfl
  have below : byte.toNat + (1 : BitVec 32).toNat ≤ size.toNat := by
    rw [one]
    exact BitVec.lt_def.mp inside
  have within : (byte.toNat + (1 : BitVec 32).toNat - 1) / 4 = byte.toNat / 4 := by
    rw [one, Nat.add_sub_cancel]
  obtain ⟨addr, translated, place⟩ := @translate_within m m_sid num_shader tid size byte shader hosts
    inside fits 1 (by decide) (by decide) within below
  refine ⟨addr, ?_, place⟩
  rw [byteAddr, translated]
  rfl

theorem byteAddr_add {addr : Address} {i : Nat} (shader : m_sid < num_shader) (hosts : m.Hosts tid)
    (fits : m.Fits num_shader size) (inside : byte.toNat + i < size.toNat)
    (within : byte.toNat % 4 + i < 4)
    (place : addr.toNat = LOCAL_GENERIC_START.toNat + m.offset m_sid num_shader tid byte) :
    m.byteAddr m_sid num_shader tid (byte + .ofNat 32 i) = some (addr + .ofNat 64 i) := by
  have sum : (byte + .ofNat 32 i).toNat = byte.toNat + i := by bv_omega
  have inside' : byte + .ofNat 32 i < size := by
    rw [BitVec.lt_def, sum]
    exact inside
  obtain ⟨addr', found, place'⟩ := byteAddr_eq shader hosts inside' fits
  have next : m.offset m_sid num_shader tid (byte + .ofNat 32 i) =
      m.offset m_sid num_shader tid byte + i := by
    rw [offset, offset, sum]
    exact Interleaving.nth_add within
  have window : TOTAL_LOCAL_MEM.toNat = 2 ^ 30 := by decide
  have start : LOCAL_GENERIC_START.toNat = 0x3FC00000 := by decide
  have below := offset_lt shader hosts inside' fits
  rw [found]
  congr 1
  apply BitVec.eq_of_toNat_eq
  rw [BitVec.toNat_add, BitVec.toNat_ofNat, place, place', next]
  omega

theorem translate_words (shader : m_sid < num_shader) (hosts : m.Hosts tid)
    (fits : m.Fits num_shader size) {datasize : BitVec 32} {words : Nat} (positive : 0 < words)
    (few : words ≤ 8) (total : datasize.toNat = words * 4) (aligned : byte.toNat % 4 = 0)
    (below : byte.toNat + datasize.toNat ≤ size.toNat) :
    ∃ addr : Nat → Address,
      m.translate_local_memaddr m_sid num_shader byte tid datasize =
        some ((List.range words).map addr) ∧
      ∀ i < words, (addr i).toNat = LOCAL_GENERIC_START.toNat +
        m.offset m_sid num_shader tid (byte + .ofNat 32 (i * 4)) := by
  have inside : byte < size := by
    rw [BitVec.lt_def]
    omega
  have base := thread_base_lt shader hosts (fits.threads inside)
  have four : (4 : BitVec 32).toNat = 4 := rfl
  have large : 4 ≤ datasize := by
    rw [BitVec.le_def, four]
    omega
  have count : (datasize / 4).toNat = words := by
    rw [BitVec.toNat_udiv, four, total, Nat.mul_div_cancel _ (by decide)]
  have accepted : datasize % 4 = 0 ∧ datasize / 4 ≤ MAX_ACCESSES_PER_INSN_PER_THREAD ∧
      byte % 4 = 0 := by
    refine ⟨BitVec.eq_of_toNat_eq ?_, ?_, BitVec.eq_of_toNat_eq ?_⟩
    · rw [BitVec.toNat_umod, four, total, Nat.mul_mod_left]
      rfl
    · rw [BitVec.le_def, count]
      exact few
    · rw [BitVec.toNat_umod, four, aligned]
      rfl
  refine ⟨fun i => ((byte / 4 + .ofNat 32 i) * m.max_concurrent_threads num_shader * 4 +
    m.thread_base m_sid num_shader tid + LOCAL_GENERIC_START).setWidth 64, ?_, fun i below_i => ?_⟩
  · rw [translate_local_memaddr, if_pos base, if_pos large, ← count]
    exact if_pos accepted
  · have narrow := size.isLt
    have at_i : (byte + .ofNat 32 (i * 4)).toNat = byte.toNat + i * 4 := by
      rw [BitVec.toNat_add, BitVec.toNat_ofNat, Nat.add_mod_mod]
      exact Nat.mod_eq_of_lt (by omega)
    have inside_i : byte + .ofNat 32 (i * 4) < size := by
      rw [BitVec.lt_def, at_i]
      omega
    have word : (byte / 4 + .ofNat 32 i).toNat = (byte + .ofNat 32 (i * 4)).toNat / 4 := by
      rw [BitVec.toNat_add, BitVec.toNat_udiv, BitVec.toNat_ofNat, Nat.add_mod_mod, four, at_i,
        Nat.add_mul_div_right _ _ (by decide)]
      exact Nat.mod_eq_of_lt (by omega)
    have rest : (0#32).toNat = (byte + .ofNat 32 (i * 4)).toNat % 4 := by
      rw [at_i, Nat.add_mul_mod_self_right, aligned]
      rfl
    have place := linear_address_toNat shader hosts inside_i fits word rest
    rw [BitVec.add_zero] at place
    exact (BitVec.toNat_setWidth_of_le (by decide)).trans place

/-! ## Separation -/

theorem access_of_fits (shader : m_sid < num_shader) (hosts : m.Hosts tid)
    (fits : m.Fits num_shader size) {localaddr datasize : BitVec 32}
    (aligned : Aligned localaddr datasize)
    (below : localaddr.toNat + datasize.toNat ≤ size.toNat) :
    ∃ translated_addrs,
      m.translate_local_memaddr m_sid num_shader localaddr tid datasize = some translated_addrs ∧
      (List.range datasize.toNat).map
          (fun i => m.byteAddr m_sid num_shader tid (localaddr + .ofNat 32 i)) =
        (chunkBytes datasize translated_addrs).map some := by
  cases aligned with
  | inl whole =>
    obtain ⟨large, multiple, few, start⟩ := whole
    have total : datasize.toNat = datasize.toNat / 4 * 4 := by omega
    obtain ⟨addr, translated, place⟩ := translate_words shader hosts fits (by omega) few total start
      below
    refine ⟨_, translated, ?_⟩
    have full : min datasize.toNat 4 = 4 := Nat.min_eq_right large
    conv_lhs => rw [total]
    rw [Interleaving.map_range_mul, chunkBytes, full, List.flatMap_map, List.map_flatMap]
    apply List.flatMap_congr
    intro i member
    rw [List.map_map]
    apply List.map_congr_left
    intro j member'
    rw [List.mem_range] at member member'
    have narrow := size.isLt
    have at_i : (localaddr + .ofNat 32 (i * 4)).toNat = localaddr.toNat + i * 4 := by
      rw [BitVec.toNat_add, BitVec.toNat_ofNat, Nat.add_mod_mod]
      exact Nat.mod_eq_of_lt (by omega)
    have sum : localaddr + .ofNat 32 (i * 4 + j) =
        localaddr + .ofNat 32 (i * 4) + .ofNat 32 j := by
      rw [BitVec.ofNat_add, BitVec.add_assoc]
    rw [sum]
    exact byteAddr_add shader hosts fits (by omega) (by omega) (place i member)
  | inr part =>
    obtain ⟨positive, small, within⟩ := part
    have inside : localaddr < size := by
      rw [BitVec.lt_def]
      omega
    obtain ⟨addr, translated, place⟩ := translate_within shader hosts inside fits positive small
      within below
    refine ⟨_, translated, ?_⟩
    have short : min datasize.toNat 4 = datasize.toNat := Nat.min_eq_left (Nat.le_of_lt small)
    rw [chunkBytes, List.flatMap_cons, List.flatMap_nil, List.append_nil, short, List.map_map]
    apply List.map_congr_left
    intro i member
    rw [List.mem_range] at member
    exact byteAddr_add shader hosts fits (by omega) (by omega) place

theorem separate_of_fits (fits : m.Fits num_shader size) : m.Separate num_shader size := by
  constructor
  case byte =>
    intro m_sid tid byte shader hosts inside
    obtain ⟨addr, found, place⟩ := byteAddr_eq shader hosts inside fits
    exact ⟨addr, found, place,
      place ▸ Nat.add_lt_add_left (offset_lt shader hosts inside fits) _⟩
  case apart =>
    intro m_sid m_sid' tid tid' byte byte' shader shader' hosts hosts' inside inside' same
    obtain ⟨addr, found, place⟩ := byteAddr_eq shader hosts inside fits
    obtain ⟨addr', found', place'⟩ := byteAddr_eq shader' hosts' inside' fits
    obtain rfl : addr = addr' := Option.some.inj (found.symm.trans (same.trans found'))
    have offsets : m.offset m_sid num_shader tid byte = m.offset m_sid' num_shader tid' byte' :=
      Nat.add_left_cancel (place.symm.trans place')
    have positive : 0 < m.chunk := Nat.pos_of_mul_pos_left (Nat.zero_lt_of_lt hosts)
    obtain ⟨threads, bytes⟩ := Interleaving.nth_inj (by decide) (threadIndex_lt shader hosts)
      (threadIndex_lt shader' hosts') offsets
    obtain ⟨shaders, tids⟩ := Interleaving.nth_inj positive shader shader' threads
    exact ⟨BitVec.eq_of_toNat_eq shaders, BitVec.eq_of_toNat_eq tids, BitVec.eq_of_toNat_eq bytes⟩
  case access =>
    intro m_sid tid localaddr datasize shader hosts aligned below
    exact access_of_fits shader hosts fits aligned below

theorem fits_of_separate (narrow : m.chunks * m.chunk < 2 ^ 32)
    (separate : m.Separate num_shader size) : m.Fits num_shader size := by
  by_cases none : size.toNat = 0 ∨ m.threads num_shader = 0
  · rw [Fits]
    cases none with
    | inl noBytes => simp [noBytes]
    | inr noThreads => simp [noThreads]
  · obtain ⟨bytes, several⟩ := not_or.mp none
    have all : m.chunks * num_shader.toNat * m.chunk = m.threads num_shader := rfl
    rw [← all, Nat.mul_eq_zero, Nat.mul_eq_zero, not_or, not_or] at several
    obtain ⟨⟨chunks, shaders⟩, chunk⟩ := several
    have hosted : 0 < m.chunks * m.chunk :=
      Nat.mul_pos (Nat.pos_of_ne_zero chunks) (Nat.pos_of_ne_zero chunk)
    have one : (1 : BitVec 32).toNat = 1 := rfl
    have lastShader : (num_shader - 1).toNat = num_shader.toNat - 1 :=
      BitVec.toNat_sub_of_le (by rw [BitVec.le_def, one]; omega)
    have lastByte : (size - 1).toNat = size.toNat - 1 :=
      BitVec.toNat_sub_of_le (by rw [BitVec.le_def, one]; omega)
    have lastThread : (BitVec.ofNat 32 (m.chunks * m.chunk - 1)).toNat = m.chunks * m.chunk - 1 := by
      rw [BitVec.toNat_ofNat]
      exact Nat.mod_eq_of_lt (by omega)
    obtain ⟨addr, _, place, below⟩ := separate.byte (num_shader - 1)
      (.ofNat 32 (m.chunks * m.chunk - 1)) (size - 1)
      (by rw [BitVec.lt_def, lastShader]; omega) (by rw [Hosts, lastThread]; omega)
      (by rw [BitVec.lt_def, lastByte]; omega)
    have last := Interleaving.nth_last (Nat.pos_of_ne_zero chunk) (Nat.pos_of_ne_zero shaders)
      (Nat.pos_of_ne_zero chunks)
    rw [place, offset, threadIndex, lastShader, lastThread, lastByte, last, all,
      Interleaving.nth, Interleaving.place] at below
    have inWindow := Nat.lt_of_add_lt_add_left below
    have words : (size.toNat + 3) / 4 = (size.toNat - 1) / 4 + 1 := by omega
    have positive : 0 < m.threads num_shader :=
      Nat.mul_pos (Nat.mul_pos (Nat.pos_of_ne_zero chunks) (Nat.pos_of_ne_zero shaders))
        (Nat.pos_of_ne_zero chunk)
    have window : TOTAL_LOCAL_MEM.toNat = 2 ^ 30 := by decide
    rw [window] at inWindow
    rw [Fits, window, words, Nat.succ_mul]
    omega

end Addresses

end LocalMap

namespace LocalConfig

variable (config : LocalConfig) {kernel : KernelInfo} {m : LocalMap}

theorem chunks_mul_chunk_le (accepted : config.set_max_cta kernel = .ok m) :
    m.chunks * m.chunk ≤ MAX_THREAD_PER_SM.toNat := by
  apply Nat.le_trans _ config.threads_le
  rw [set_max_cta] at accepted
  cases limited : config.max_cta kernel with
  | error failure =>
    rw [limited] at accepted
    nomatch accepted
  | ok kernel_max_cta_per_shader =>
    obtain ⟨_, _, bound⟩ := Dispatch.max_cta_bounds config.toConfig limited
    rw [limited] at accepted
    obtain rfl := Except.ok.inj accepted
    rw [LocalMap.chunks, LocalMap.chunk]
    cases config.gpgpu_local_mem_map with
    | true =>
      simp only [if_true, BitVec.toNat_ofNat]
      exact Nat.le_trans (Nat.mul_le_mul (Nat.mod_le _ _) (Nat.mod_le _ _)) bound
    | false =>
      simp only [Bool.false_eq_true, if_false, BitVec.toNat_ofNat, Nat.one_mul]
      exact Nat.mod_le _ _

/-- Local memory is kept apart exactly as long as that of all threads that can run at a time fits
    in its window. -/
theorem local_memory_separate_iff (accepted : config.set_max_cta kernel = .ok m)
    (size : BitVec 32) :
    m.Separate (.ofNat 32 config.num_shader) size ↔ m.Fits (.ofNat 32 config.num_shader) size := by
  have threads : m.chunks * m.chunk < 2 ^ 32 :=
    Nat.lt_of_le_of_lt (config.chunks_mul_chunk_le accepted) (by decide)
  exact ⟨LocalMap.fits_of_separate threads, LocalMap.separate_of_fits⟩

/-- 86 cores of 48 warps each, which is the most that a core can have. -/
def eightySixShaders : LocalConfig where
  num_shader := 86
  warp_size := 32
  shader_pos := Nat.succ_pos _
  warp_pos := FinLiterals.thirtyTwo_pos
  n_simt_clusters := 86
  n_simt_cores_per_cluster := 1
  num_shader_eq := rfl
  n_thread_per_shader := 1536
  gpgpu_shmem_size := 16384
  gpgpu_shader_registers := 8192
  max_cta_per_core := 8
  max_concurrent_kernel := 1
  kernel_pos := Nat.one_pos
  gpu_max_cta_opt := 0
  gpgpu_local_mem_map := true
  threads_le := by decide
  whole_warps := rfl
  warps_le := by decide
  shader_lt := by decide

/-- As many blocks of 768 threads as can run at a time. -/
def fullBlocks : KernelInfo := .new ⟨172, 1, 1⟩ ⟨768, 1, 1⟩ 0 0

theorem eightySixShaders_accepts :
    eightySixShaders.set_max_cta fullBlocks = .ok ⟨true, 1536, 768, 2⟩ := by rfl

/-- Their threads can have four bytes of local memory each, but not as many as the code allows. -/
theorem local_memory_separate_iff_fourBytes :
    (⟨true, 1536, 768, 2⟩ : LocalMap).Separate (.ofNat 32 eightySixShaders.num_shader) 4 ∧
      ¬ (⟨true, 1536, 768, 2⟩ : LocalMap).Separate (.ofNat 32 eightySixShaders.num_shader)
        LOCAL_MEM_SIZE_MAX := by
  have exact_ := local_memory_separate_iff eightySixShaders eightySixShaders_accepts
  constructor
  · exact (exact_ 4).mpr (by rw [LocalMap.Fits]; decide)
  · intro separate
    have fits := (exact_ LOCAL_MEM_SIZE_MAX).mp separate
    rw [LocalMap.Fits] at fits
    exact absurd fits (by decide)

/-- The local memory of the last shader reaches into the global heap. -/
theorem last_shader_beyond_window : ¬ ∀ (config : LocalConfig) kernel m,
    config.set_max_cta kernel = .ok m →
      m.Separate (.ofNat 32 config.num_shader) LOCAL_MEM_SIZE_MAX := by
  intro all
  have separate := all eightySixShaders fullBlocks _ eightySixShaders_accepts
  obtain ⟨addr, found, _, below⟩ := separate.byte 85 1535 8191 (by decide) (by decide) (by decide)
  have last : (⟨true, 1536, 768, 2⟩ : LocalMap).byteAddr 85
      (.ofNat 32 eightySixShaders.num_shader) 1535 8191 = some 0x803FFFFF := by decide
  obtain rfl := Option.some.inj (last.symm.trans found)
  exact absurd below (by decide)

end LocalConfig

end AesOnGpu.Cta
