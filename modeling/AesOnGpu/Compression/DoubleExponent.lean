import AesOnGpu.Compression.Cascade

/-! # What double-exponent compression pays for

The shift of the comparison is that of 64-bit elements: the elements share their upper
`blimit` bytes, the first one keeps them, and the reported size charges the other bytes of
every element.
-/

namespace AesOnGpu.Compression

/-! ## The conversion and its inverse -/

/-- The bytes of an element of `step` bytes, the least first. -/
def storeElement (value : BitVec 64) (step : Nat) : List (BitVec 8) :=
  (List.range step).map fun j => (value >>> (8 * j)).setWidth 8

def convertArray2Buffer (values : List (BitVec 64)) (step : Nat) : List (BitVec 8) :=
  values.flatMap fun value => storeElement value step

theorem readElement_byte (buffer : List (BitVec 8)) (offset : Nat) {step j : Nat}
    (narrow : step ≤ 8) (hj : j < step) :
    (readElement buffer offset step >>> (8 * j)).setWidth 8 = buffer.getD (offset + j) 0 := by
  induction step with
  | zero => omega
  | succ step ih =>
      have hbytes := ofDigits_bytes_lt buffer offset step
      have hnat := readElement_toNat buffer offset narrow
      have hnat' := readElement_toNat buffer offset (Nat.le_of_succ_le narrow)
      rw [List.range_succ, List.map_append, Nat.ofDigits_append, ← hnat'] at hnat
      rw [← hnat'] at hbytes
      simp only [List.map_cons, List.map_nil, Nat.ofDigits_singleton, List.length_map,
        List.length_range] at hnat
      have hpow : ∀ n, (2 : Nat) ^ (8 * n) = 256 ^ n := by
        intro n
        rw [pow_mul]
        norm_num
      apply BitVec.eq_of_toNat_eq
      rw [BitVec.toNat_setWidth, BitVec.toNat_ushiftRight, Nat.shiftRight_eq_div_pow, hpow, hnat]
      cases Nat.lt_succ_iff_lt_or_eq.mp hj with
      | inr hlast =>
          subst hlast
          rw [Nat.add_mul_div_left _ _ (by positivity), Nat.div_eq_of_lt hbytes, Nat.zero_add]
          exact Nat.mod_eq_of_lt (buffer.getD (offset + j) 0).isLt
      | inl hbefore =>
          -- the new byte is above byte `j`
          have hsplit : (256 : Nat) ^ step = 256 ^ j * (256 * 256 ^ (step - j - 1)) := by
            rw [← mul_assoc, ← pow_succ, ← pow_add]
            congr 1
            omega
          have hlower := ih (Nat.le_of_succ_le narrow) hbefore
          have hlower' := congrArg BitVec.toNat hlower
          rw [BitVec.toNat_setWidth, BitVec.toNat_ushiftRight, Nat.shiftRight_eq_div_pow,
            hpow] at hlower'
          rw [hsplit, mul_assoc, Nat.add_mul_div_left _ _ (by positivity), mul_assoc]
          rw [← hlower']
          exact Nat.add_mul_mod_self_left _ _ _

theorem storeElement_readElement (buffer : List (BitVec 8)) (offset : Nat) {step : Nat}
    (narrow : step ≤ 8) :
    storeElement (readElement buffer offset step) step =
      (List.range step).map fun j => buffer.getD (offset + j) 0 := by
  apply List.map_congr_left
  intro j hj
  exact readElement_byte buffer offset narrow (List.mem_range.mp hj)

theorem convertArray2Buffer_convertBuffer2Array {buffer : List (BitVec 8)} {step : Nat}
    (hpos : 0 < step) (narrow : step ≤ 8) (hwhole : step ∣ buffer.length) :
    convertArray2Buffer (convertBuffer2Array buffer buffer.length step) step = buffer := by
  obtain ⟨count, hcount⟩ := hwhole
  have hdiv : buffer.length / step = count := by
    rw [hcount, Nat.mul_div_cancel_left _ hpos]
  have helements : convertArray2Buffer (convertBuffer2Array buffer buffer.length step) step =
      (List.range count).flatMap fun i =>
        (List.range step).map fun j => buffer.getD (i * step + j) 0 := by
    rw [convertArray2Buffer, convertBuffer2Array, List.flatMap_map, hdiv]
    congr 1
    funext i
    exact storeElement_readElement buffer (i * step) narrow
  have hprefix : ∀ n, (List.range n).flatMap (fun i =>
      (List.range step).map fun j => buffer.getD (i * step + j) 0) =
        (List.range (n * step)).map fun b => buffer.getD b 0 := by
    intro n
    induction n with
    | zero => simp
    | succ n ih =>
        rw [List.range_succ, List.flatMap_append, ih, Nat.succ_mul, List.range_add,
          List.map_append, List.map_map]
        simp [Function.comp_def]
  rw [helements, hprefix, Nat.mul_comm, ← hcount]
  apply List.ext_getElem
  · simp
  · intro n hn hn'
    simp [List.getD_eq_getElem?_getD, List.getElem?_eq_getElem hn']

/-! ## The elements from the shared part and the paid bytes -/

/-- The part that the shift compares, taken from the first element. -/
def sharedPart (values : List (BitVec 64)) (blimit : Nat) : BitVec 64 :=
  values.getD 0 0 >>> (64 - 8 * blimit)

/-- The low `bsize - blimit` bytes of an element. -/
def paidBytes (value : BitVec 64) (bsize blimit : Nat) : List (BitVec 8) :=
  storeElement value (bsize - blimit)

def restoreLine (shared : BitVec 64) (paid : List (List (BitVec 8))) (bsize blimit : Nat) :
    List (BitVec 64) :=
  paid.map fun bytes =>
    shared <<< (8 * (bsize - blimit)) ||| readElement bytes 0 (bsize - blimit)

/-- Some decoder gives every line of elements of `bsize` bytes that is reported as compressed
back, from its shared part and its paid bytes. -/
def Lossless (bsize : Nat) : Prop :=
  ∃ decode : Nat → BitVec 64 → List (List (BitVec 8)) → List (BitVec 64),
    ∀ (values : List (BitVec 64)) (blimit r : Nat), (∀ value ∈ values, value.toNat < 256 ^ bsize) →
      doubleExponentCompression values blimit bsize = some r → r < values.length * bsize →
        decode blimit (sharedPart values blimit)
          (values.map fun value => paidBytes value bsize blimit) = values

theorem exponent_reported {values : List (BitVec 64)} {blimit r : Nat}
    (hr : doubleExponentCompression values blimit 8 = some r) (hless : r < values.length * 8) :
    (blimit = 1 ∨ blimit = 2) ∧ r = blimit + values.length * (8 - blimit) ∧
      ∀ value ∈ values, value >>> (64 - 8 * blimit) = sharedPart values blimit := by
  have hblimit : blimit = 1 ∨ blimit = 2 := by
    unfold doubleExponentCompression at hr
    split at hr
    · exact Or.inl rfl
    · exact Or.inr rfl
    · cases hr
  refine ⟨hblimit, ?_⟩
  cases values with
  | nil => simp at hless
  | cons first values =>
      rw [doubleExponent_eq first values hblimit, Option.some.injEq] at hr
      split at hr
      next hall =>
        constructor
        · rw [← hr, List.length_cons]
          rcases hblimit with rfl | rfl <;> omega
        · intro value hin
          cases List.mem_cons.mp hin with
          | inl heq => rw [heq]; rfl
          | inr hrest => exact (hall value hrest).symm
      next => omega

theorem readElement_storeElement (value : BitVec 64) {step : Nat} (narrow : step ≤ 8) :
    (readElement (storeElement value step) 0 step).toNat = value.toNat % 256 ^ step := by
  have hbytes : ∀ n ≤ step, Nat.ofDigits 256 ((List.range n).map fun j =>
      ((storeElement value step).getD (0 + j) 0).toNat) = value.toNat % 256 ^ n := by
    intro n
    induction n with
    | zero => simp [Nat.mod_one]
    | succ n ih =>
        intro hn
        have hbyte : ((storeElement value step).getD (0 + n) 0).toNat =
            value.toNat / 256 ^ n % 256 := by
          have hpow : (2 : Nat) ^ (8 * n) = 256 ^ n := by
            rw [pow_mul]
            norm_num
          simp [storeElement, List.getD_eq_getElem?_getD, Nat.lt_of_succ_le hn,
            Nat.shiftRight_eq_div_pow, hpow]
        rw [List.range_succ, List.map_append, Nat.ofDigits_append, ih (Nat.le_of_succ_le hn),
          List.map_singleton, Nat.ofDigits_singleton, hbyte, List.length_map, List.length_range,
          Nat.mod_pow_succ]
  rw [readElement_toNat _ 0 narrow]
  exact hbytes step le_rfl

theorem restore_element (value : BitVec 64) (blimit : Nat) :
    (value >>> (64 - 8 * blimit)) <<< (8 * (8 - blimit)) |||
      readElement (paidBytes value 8 blimit) 0 (8 - blimit) = value := by
  have hlow := readElement_storeElement value (show 8 - blimit ≤ 8 by omega)
  have hpow : (256 : Nat) ^ (8 - blimit) = 2 ^ (8 * (8 - blimit)) := by
    rw [pow_mul]
    norm_num
  rw [hpow] at hlow
  have hshift : 64 - 8 * blimit = 8 * (8 - blimit) := by omega
  apply BitVec.eq_of_toNat_eq
  rw [BitVec.toNat_or, BitVec.toNat_shiftLeft, BitVec.toNat_ushiftRight, hshift, paidBytes, hlow,
    Nat.shiftLeft_eq, Nat.shiftRight_eq_div_pow]
  have hsmall : value.toNat / 2 ^ (8 * (8 - blimit)) * 2 ^ (8 * (8 - blimit)) < 2 ^ 64 :=
    (Nat.div_mul_le_self _ _).trans_lt value.isLt
  rw [Nat.mod_eq_of_lt hsmall, ← Nat.shiftLeft_eq,
    ← Nat.shiftLeft_add_eq_or_of_lt (Nat.mod_lt _ (by positivity)), Nat.shiftLeft_eq]
  exact Nat.div_add_mod' _ _

theorem restoreLine_reported {values : List (BitVec 64)} {blimit r : Nat}
    (hr : doubleExponentCompression values blimit 8 = some r) (hless : r < values.length * 8) :
    restoreLine (sharedPart values blimit)
      (values.map fun value => paidBytes value 8 blimit) 8 blimit = values := by
  obtain ⟨_, _, hupper⟩ := exponent_reported hr hless
  rw [restoreLine, List.map_map]
  apply (List.map_congr_left _).trans (List.map_id values)
  intro value hin
  simp only [Function.comp_apply, id_eq]
  rw [← hupper value hin]
  exact restore_element value blimit

theorem convertBuffer2Array_getElem (block : LineBlock) {step i : Nat} (hpos : 0 < step)
    (narrow : step ≤ 8) (hi : i < block.bytes.length / step) :
    (convertBuffer2Array block.bytes block.bytes.length step)[i]?.map BitVec.toNat =
      some (Nat.ofDigits 256 (((block.bytes.drop (i * step)).take step).map BitVec.toNat)) := by
  have hin : (i + 1) * step ≤ block.bytes.length :=
    (Nat.le_div_iff_mul_le hpos).mp hi
  have hbytes : ((block.bytes.drop (i * step)).take step).map BitVec.toNat =
      (List.range step).map fun j => (block.bytes.getD (i * step + j) 0).toNat := by
    have hlength : step ≤ block.bytes.length - i * step := by
      rw [Nat.succ_mul] at hin
      omega
    apply List.ext_getElem
    · simp [hlength]
    · intro j hj hj'
      have hj : j < step := by simpa using hj'
      have hbyte : i * step + j < block.bytes.length := by omega
      simp [List.getD_eq_getElem?_getD, List.getElem?_eq_getElem hbyte]
  simp [convertBuffer2Array, hi, readElement_toNat block.bytes (i * step) narrow, hbytes]

/-- For 8-byte elements, the step at which it is called, a line that is reported as compressed
is recovered from the shared part and the bytes it is charged for; and the conversion is the
little-endian one at every step. -/
theorem double_exponent_lossless :
    (∀ (values : List (BitVec 64)) (blimit r : Nat),
      doubleExponentCompression values blimit 8 = some r → r < values.length * 8 →
        r = blimit + values.length * (8 - blimit) ∧
        restoreLine (sharedPart values blimit)
          (values.map fun value => paidBytes value 8 blimit) 8 blimit = values) ∧
    ∀ (block : LineBlock) (step : Nat), step = 2 ∨ step = 4 ∨ step = 8 →
      convertArray2Buffer (convertBuffer2Array block.bytes block.bytes.length step) step =
        block.bytes ∧
      ∀ i < block.bytes.length / step,
        (convertBuffer2Array block.bytes block.bytes.length step)[i]?.map BitVec.toNat =
          some (Nat.ofDigits 256 (((block.bytes.drop (i * step)).take step).map BitVec.toNat)) := by
  constructor
  · intro values blimit r hr hless
    exact ⟨(exponent_reported hr hless).2.1, restoreLine_reported hr hless⟩
  · intro block step hstep
    have hpos : 0 < step := by omega
    have narrow : step ≤ 8 := by omega
    have hdvd : step ∣ 8 := by
      rcases hstep with rfl | rfl | rfl <;> decide
    constructor
    · exact convertArray2Buffer_convertBuffer2Array hpos narrow (hdvd.trans block.whole)
    · intro i hi
      exact convertBuffer2Array_getElem block hpos narrow hi

/-- At 4-byte elements the shift leaves nothing of an element to compare: two lines that differ
in an upper byte have the same shared part and the same paid bytes. -/
theorem narrow_exponent_ambiguous : ¬ ∀ step, Lossless step := by
  intro hall
  obtain ⟨decode, hdecode⟩ := hall 4
  have hzero := hdecode [0, 0] 1 7 (by simp) (by decide) (by decide)
  have hupper := hdecode [0, 0x1000000] 1 7 (by simp) (by decide) (by decide)
  have hsame : sharedPart [0, 0x1000000] 1 = sharedPart [0, 0] 1 ∧
      [0, 0x1000000].map (fun value => paidBytes value 4 1) =
        [0, 0].map (fun value => paidBytes value 4 1) := by decide
  rw [hsame.1, hsame.2, hzero] at hupper
  exact absurd hupper (by decide)

end AesOnGpu.Compression
