import AesOnGpu.Compression.CompressedSize
import AesOnGpu.Lib.Rounding

/-! # The byte counters of the DRAM channels

`dram_t::push` counts the bytes that are transferred with and without compression, and asserts
that the first are no more than the second. The sums are computed in floating point. The
directory size `numEntries` is one variable for all channels.
-/

namespace AesOnGpu.Compression

open Memory Rounding

/-- A burst transfers something: without that the quotient is not a number. -/
structure PushConfig where
  dram_atom_size : Nat
  positive : 0 < dram_atom_size
  compress : Bool
  compressAlgo : Nat

/-- A request as `push` sees it, with the memory and the heap at that time, and with what `abs`
makes of the most negative value. -/
structure PushedRequest where
  chip : Nat
  addr : NewAddr
  data_size : BitVec 32
  memory : GlobalMemory
  heap : Nat → DirectoryEntry
  absMin : BitVec 32

structure ByteCounters where
  nbytes_uncomp : Nat
  nbytes_comp : Nat

/-- All channels, and the variable of `c-pack.c` that they share. -/
structure Channels where
  numEntries : Nat
  counters : Nat → ByteCounters

inductive PushFailure where
  | exception
  | undefined
  | assertion
  deriving DecidableEq

/-- `nbytes += ceil((float)bytes/(float)dram_atom_size)*dram_atom_size`. The quotient is a
`float`; `precision` is that of the type that `ceil` returns. -/
def addBytes (precision dram_atom_size nbytes bytes : Nat) : Nat :=
  let atoms := ⌈toSignificand 24 (toSignificand 24 bytes / toSignificand 24 dram_atom_size)⌉
  let transferred := toSignificand precision (atoms * toSignificand precision dram_atom_size)
  ⌊toSignificand precision (toSignificand precision nbytes + transferred)⌋.toNat

/-- `dram_req_t::nbytes`, and the count that is left in `numEntries`. -/
def requestBytes (config : PushConfig) (numEntries : Nat) (data : PushedRequest) :
    Except PushFailure (Nat × Nat) :=
  if config.compress then
    match getCompressedSize data.absMin data.heap numEntries data.memory data.addr
        data.data_size config.compressAlgo with
    | none => .error .exception
    | some ⟨none, _⟩ => .error .undefined
    | some ⟨some nbytes, numEntries⟩ => .ok (nbytes, numEntries)
  else .ok (data.data_size.toNat, numEntries)

def push (precision : Nat) (config : PushConfig) (s : Channels) (data : PushedRequest) :
    Except PushFailure Channels := do
  let (nbytes, numEntries) ← requestBytes config s.numEntries data
  let counters := s.counters data.chip
  let nbytes_uncomp :=
    addBytes precision config.dram_atom_size counters.nbytes_uncomp data.data_size.toNat
  let nbytes_comp := addBytes precision config.dram_atom_size counters.nbytes_comp nbytes
  if nbytes_uncomp < nbytes_comp then throw .assertion
  return ⟨numEntries, Function.update s.counters data.chip ⟨nbytes_uncomp, nbytes_comp⟩⟩

def Channels.new : Channels := ⟨initialNumEntries, fun _ => ⟨0, 0⟩⟩

/-! ## The sums keep the order -/

theorem addBytes_mono {precision : Nat} (hprecision : 0 < precision)
    (dram_atom_size : Nat) {nbytes nbytes' bytes bytes' : Nat} (hle : nbytes ≤ nbytes')
    (hbytes : bytes ≤ bytes') :
    addBytes precision dram_atom_size nbytes bytes ≤
      addBytes precision dram_atom_size nbytes' bytes' := by
  have hnonneg : ∀ n p : Nat, 0 ≤ toSignificand p (n : ℚ) :=
    fun n p => toSignificand_nonneg (Nat.cast_nonneg n)
  have hquotient : toSignificand 24 (bytes : ℚ) / toSignificand 24 (dram_atom_size : ℚ) ≤
      toSignificand 24 (bytes' : ℚ) / toSignificand 24 (dram_atom_size : ℚ) := by
    have hcast : (bytes : ℚ) ≤ bytes' := by exact_mod_cast hbytes
    exact div_le_div_of_nonneg_right
      (toSignificand_mono (by norm_num) (Nat.cast_nonneg bytes) hcast) (hnonneg _ _)
  have hpositive : 0 ≤ toSignificand 24 (bytes : ℚ) / toSignificand 24 (dram_atom_size : ℚ) :=
    div_nonneg (hnonneg _ _) (hnonneg _ _)
  have hatoms := Int.ceil_mono (toSignificand_mono (show 0 < 24 by norm_num) hpositive hquotient)
  have hrounded : 0 ≤ toSignificand 24 (toSignificand 24 (bytes : ℚ) /
      toSignificand 24 (dram_atom_size : ℚ)) := toSignificand_nonneg hpositive
  have hatoms_nonneg := Int.ceil_nonneg hrounded
  simp only [addBytes]
  generalize ⌈toSignificand 24 (toSignificand 24 (bytes : ℚ) /
    toSignificand 24 (dram_atom_size : ℚ))⌉ = atoms at hatoms hatoms_nonneg ⊢
  generalize ⌈toSignificand 24 (toSignificand 24 (bytes' : ℚ) /
    toSignificand 24 (dram_atom_size : ℚ))⌉ = atoms' at hatoms ⊢
  have hcast : (0 : ℚ) ≤ atoms := by exact_mod_cast hatoms_nonneg
  have hcast' : (atoms : ℚ) ≤ atoms' := by exact_mod_cast hatoms
  have hproduct : (0 : ℚ) ≤ atoms * toSignificand precision (dram_atom_size : ℚ) :=
    mul_nonneg hcast (hnonneg _ _)
  have htransferred := toSignificand_mono hprecision hproduct
    (mul_le_mul_of_nonneg_right hcast' (hnonneg dram_atom_size precision))
  have hcounter : (nbytes : ℚ) ≤ nbytes' := by exact_mod_cast hle
  have hsum := add_le_add
    (toSignificand_mono hprecision (Nat.cast_nonneg nbytes) hcounter) htransferred
  have htransferred_nonneg : 0 ≤ toSignificand precision
      (atoms * toSignificand precision (dram_atom_size : ℚ)) := toSignificand_nonneg hproduct
  have hsum_nonneg := add_nonneg (hnonneg nbytes precision) htransferred_nonneg
  exact Int.toNat_le_toNat (Int.floor_mono (toSignificand_mono hprecision hsum_nonneg hsum))

/-! ## One push -/

theorem addressed_length {memory : GlobalMemory} {addr : NewAddr} {data_size : BitVec 32}
    {buffer : List Byte} (hpos : 0 < data_size.toNat)
    (hread : mydata memory addr data_size = some buffer) : buffer.length = data_size.toNat := by
  rw [mydata] at hread
  cases Nat.lt_or_ge (2 ^ 32 - 8192) ((lineAddr addr).toNat + data_size.toNat) with
  | inl hbeyond =>
      rw [memory.read_beyond _ hpos data_size.isLt hbeyond] at hread
      cases hread
  | inr hbelow =>
      rw [memory.read_spec _ hbelow, Option.some.injEq] at hread
      rw [← hread, Flat.length_read]

structure PushedRequest.Whole (data : PushedRequest) : Prop where
  positive : 0 < data.data_size.toNat
  whole : 8 ∣ data.data_size.toNat

/-- With C-Pack, the directory of a request that is compressed holds the entries that are left
from the last line. -/
def MeetsAllocation (config : PushConfig) (s : Channels) (data : PushedRequest) : Prop :=
  config.compress = true → (addressLimit data.addr data.data_size).toNat ≤ 0x100000000 →
    UsesCPack config.compressAlgo → s.numEntries ≤ data.data_size.toNat / 4 * 8

theorem requestBytes_le {config : PushConfig} {s : Channels} {data : PushedRequest}
    (hadmitted : config.compressAlgo ≤ 8) (hwhole : data.Whole)
    (hmeets : MeetsAllocation config s data) :
    requestBytes config s.numEntries data = .error .exception ∨
      ∃ nbytes numEntries, requestBytes config s.numEntries data = .ok (nbytes, numEntries) ∧
        nbytes ≤ data.data_size.toNat := by
  simp only [requestBytes]
  cases hcompress : config.compress with
  | false => exact Or.inr ⟨_, _, rfl, le_rfl⟩
  | true =>
      simp only [if_true, getCompressedSize]
      by_cases hlimit : (addressLimit data.addr data.data_size).toNat ≤ 0x100000000
      · rw [if_pos hlimit]
        cases hread : mydata data.memory data.addr data.data_size with
        | none => exact Or.inl rfl
        | some buffer =>
            have hlength := addressed_length hwhole.positive hread
            let block : LineBlock :=
              ⟨buffer, by rw [hlength]; exact hwhole.positive, by rw [hlength]; exact hwhole.whole⟩
            have hallocated : UsesCPack config.compressAlgo →
                Allocated s.numEntries block.bytes := by
              intro huses
              have hmeets := hmeets hcompress hlimit huses
              rwa [← hlength] at hmeets
            obtain ⟨r, hr, hle, _⟩ :=
              (bounded_iff data.absMin data.heap s.numEntries block hadmitted).mpr hallocated
            cases hcall : GeneralCompress data.absMin data.heap s.numEntries buffer
                config.compressAlgo with
            | mk size numEntries =>
                obtain rfl : size = some r := by rw [← hr, hcall]
                simp only [Option.bind_eq_bind, Option.bind_some, Option.pure_def, hcall]
                exact Or.inr ⟨r, numEntries, rfl, hlength ▸ hle⟩
      · rw [if_neg hlimit]
        exact Or.inr ⟨_, _, rfl, le_rfl⟩

def Channels.Ordered (s : Channels) : Prop :=
  ∀ chip, (s.counters chip).nbytes_comp ≤ (s.counters chip).nbytes_uncomp

theorem Channels.Ordered.push {precision : Nat} (hprecision : 0 < precision)
    {config : PushConfig} {s : Channels} {data : PushedRequest} (hordered : s.Ordered)
    (hadmitted : config.compressAlgo ≤ 8) (hwhole : data.Whole)
    (hmeets : MeetsAllocation config s data) :
    push precision config s data = .error .exception ∨
      ∃ s', push precision config s data = .ok s' ∧ s'.Ordered := by
  cases requestBytes_le hadmitted hwhole hmeets with
  | inl hexception =>
      refine Or.inl ?_
      simp only [Compression.push, hexception]
      rfl
  | inr hbytes =>
      obtain ⟨nbytes, numEntries, hbytes, hle⟩ := hbytes
      have hmono := addBytes_mono hprecision config.dram_atom_size (hordered data.chip) hle
      let counted : ByteCounters :=
        ⟨addBytes precision config.dram_atom_size (s.counters data.chip).nbytes_uncomp
            data.data_size.toNat,
          addBytes precision config.dram_atom_size (s.counters data.chip).nbytes_comp nbytes⟩
      refine Or.inr ⟨⟨numEntries, Function.update s.counters data.chip counted⟩, ?_, ?_⟩
      · simp only [Compression.push, hbytes, bind, Except.bind, Nat.not_lt.mpr hmono, if_false]
        rfl
      · intro chip
        by_cases hchip : chip = data.chip
        · subst hchip
          simpa using hmono
        · simpa [Function.update_of_ne hchip] using hordered chip

/-! ## Runs -/

inductive Pushed (precision : Nat) (config : PushConfig) : Channels → Prop where
  | new : Pushed precision config .new
  | push {s s' : Channels} {data : PushedRequest} (hs : Pushed precision config s)
      (hwhole : data.Whole) (hmeets : MeetsAllocation config s data)
      (hpush : push precision config s data = .ok s') : Pushed precision config s'

theorem Pushed.ordered {precision : Nat} (hprecision : 0 < precision) {config : PushConfig}
    (hadmitted : config.compressAlgo ≤ 8) {s : Channels} (hs : Pushed precision config s) :
    s.Ordered := by
  induction hs with
  | new => exact fun _ => le_rfl
  | push _ hwhole hmeets hpush ih =>
      cases ih.push hprecision hadmitted hwhole hmeets with
      | inl hexception =>
          rw [hexception] at hpush
          cases hpush
      | inr hok =>
          obtain ⟨next, hok, hordered⟩ := hok
          rw [hok] at hpush
          cases hpush
          exact hordered

/-- A size is within the buffer, and that of a combined algorithm the least of those it
combines, exactly when C-Pack, if it is used, has room for the entries left from the last line;
in a run of requests that have, the assertion on the byte counters never fails. -/
theorem compression_never_expands {compress : Nat} (hadmitted : compress ≤ 8) :
    (∀ (absMin : BitVec 32) (heap : Nat → DirectoryEntry) (numEntries : Nat) (block : LineBlock),
        Bounded absMin heap numEntries block.bytes compress ↔
          (UsesCPack compress → Allocated numEntries block.bytes)) ∧
    ∀ (precision : Nat) (config : PushConfig) (s : Channels), 0 < precision →
      config.compressAlgo = compress → Pushed precision config s →
        ∀ data : PushedRequest, data.Whole → MeetsAllocation config s data →
          push precision config s data = .error .exception ∨
            ∃ s', push precision config s data = .ok s' := by
  constructor
  · intro absMin heap numEntries block
    exact bounded_iff absMin heap numEntries block hadmitted
  · intro precision config s hprecision hcompress hs data hwhole hmeets
    have hadmitted : config.compressAlgo ≤ 8 := hcompress.trans_le hadmitted
    have hordered := hs.ordered hprecision hadmitted
    cases hordered.push hprecision hadmitted hwhole hmeets with
    | inl hexception => exact Or.inl hexception
    | inr hok =>
      obtain ⟨s', hok, _⟩ := hok
      exact Or.inr ⟨s', hok⟩

theorem compression_never_expands_cpack :
    Bounded 0 (fun _ => ⟨false, 0, 0⟩) 16 (List.replicate 8 0) 4 := by
  have hcpack := (compression_never_expands (by decide : 4 ≤ 8)).1 0 (fun _ => ⟨false, 0, 0⟩) 16
    ⟨List.replicate 8 0, by decide, by decide⟩
  exact hcpack.mpr fun _ => by decide

/-- The first line that C-Pack is handed, of 8 bytes: the directory has 16 entries, of which
32 are cleared. -/
theorem first_short_line_overflows :
    ¬ ∃ absMin heap, Bounded absMin heap initialNumEntries (List.replicate 8 0) 4 := by
  rintro ⟨absMin, heap, r, hr, _⟩
  have hnone : (cPackOn heap initialNumEntries (List.replicate 8 0)).size = none :=
    cPackOn_none heap (by decide)
  have hcall : (cPackOn heap initialNumEntries (List.replicate 8 0)).size = some r := hr
  rw [hnone] at hcall
  cases hcall

end AesOnGpu.Compression
