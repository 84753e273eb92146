import Mathlib

/-! # Line buffers of the compression study

`compression.cpp` reads a cache line as an array of little-endian elements of
`step` bytes, each kept in an `unsigned long long`.
-/

namespace AesOnGpu.Compression

/-- A line handed to the compressors: whole 8-byte elements, at least one. -/
structure LineBlock where
  bytes : List (BitVec 8)
  positive : 0 < bytes.length
  whole : 8 ∣ bytes.length

/-- One little-endian element of `step` bytes starting at `offset`. -/
def readElement (buffer : List (BitVec 8)) (offset step : Nat) : BitVec 64 :=
  (List.range step).foldl
    (fun value j => value + (buffer.getD (offset + j) 0).setWidth 64 <<< (8 * j)) 0

def convertBuffer2Array (buffer : List (BitVec 8)) (size step : Nat) : List (BitVec 64) :=
  (List.range (size / step)).map fun i => readElement buffer (i * step) step

@[simp] theorem convertBuffer2Array_length (buffer : List (BitVec 8)) (size step : Nat) :
    (convertBuffer2Array buffer size step).length = size / step := by
  simp [convertBuffer2Array]

theorem byte_shift_toNat (byte : BitVec 8) {j : Nat} (small : j < 8) :
    (byte.setWidth 64 <<< (8 * j)).toNat = byte.toNat * 256 ^ j := by
  have bound : byte.toNat * 256 ^ j < 2 ^ 64 := by
    calc byte.toNat * 256 ^ j < 2 ^ 8 * 256 ^ j :=
          Nat.mul_lt_mul_of_pos_right byte.isLt (by positivity)
      _ ≤ 2 ^ 8 * 256 ^ 7 := by gcongr <;> omega
      _ = 2 ^ 64 := by norm_num
  have power : (2 : Nat) ^ (8 * j) = 256 ^ j := by rw [pow_mul]; norm_num
  rw [BitVec.toNat_shiftLeft, BitVec.toNat_setWidth, Nat.shiftLeft_eq, power,
    Nat.mod_eq_of_lt (a := byte.toNat) (by have := byte.isLt; omega), Nat.mod_eq_of_lt bound]

theorem readElement_succ (buffer : List (BitVec 8)) (offset step : Nat) :
    readElement buffer offset (step + 1) =
      readElement buffer offset step +
        (buffer.getD (offset + step) 0).setWidth 64 <<< (8 * step) := by
  simp [readElement, List.range_succ]

theorem ofDigits_bytes_lt (buffer : List (BitVec 8)) (offset step : Nat) :
    Nat.ofDigits 256 ((List.range step).map fun j => (buffer.getD (offset + j) 0).toNat) <
      256 ^ step := by
  have bound := @Nat.ofDigits_lt_base_pow_length 256
    ((List.range step).map fun j => (buffer.getD (offset + j) 0).toNat) (by norm_num)
    (by
      intro digit member
      obtain ⟨j, _, rfl⟩ := List.mem_map.mp member
      exact (buffer.getD (offset + j) 0).isLt)
  simpa using bound

theorem readElement_toNat (buffer : List (BitVec 8)) (offset : Nat) {step : Nat}
    (narrow : step ≤ 8) :
    (readElement buffer offset step).toNat =
      Nat.ofDigits 256 ((List.range step).map fun j => (buffer.getD (offset + j) 0).toNat) := by
  induction step with
  | zero => simp [readElement]
  | succ step ih =>
    have lower := ih (by omega)
    have small := ofDigits_bytes_lt buffer offset step
    have byteBound := (buffer.getD (offset + step) 0).isLt
    have fits : (readElement buffer offset step).toNat +
        (buffer.getD (offset + step) 0).toNat * 256 ^ step < 2 ^ 64 := by
      calc (readElement buffer offset step).toNat +
            (buffer.getD (offset + step) 0).toNat * 256 ^ step
          < 256 ^ step + 255 * 256 ^ step :=
            Nat.add_lt_add_of_lt_of_le (lower ▸ small) (Nat.mul_le_mul_right _ (by omega))
        _ = 256 ^ (step + 1) := by ring
        _ ≤ 256 ^ 8 := Nat.pow_le_pow_right (by norm_num) narrow
        _ = 2 ^ 64 := by norm_num
    rw [readElement_succ, BitVec.toNat_add, byte_shift_toNat _ (by omega), Nat.mod_eq_of_lt fits,
      lower, List.range_succ, List.map_append, Nat.ofDigits_append]
    simp [Nat.mul_comm]

theorem readElement_lt (buffer : List (BitVec 8)) (offset : Nat) {step : Nat} (narrow : step ≤ 8) :
    (readElement buffer offset step).toNat < 256 ^ step := by
  rw [readElement_toNat buffer offset narrow]
  exact ofDigits_bytes_lt buffer offset step

theorem readElement_eq_zero_iff (buffer : List (BitVec 8)) (offset : Nat) {step : Nat}
    (narrow : step ≤ 8) :
    readElement buffer offset step = 0 ↔ ∀ j < step, buffer.getD (offset + j) 0 = 0 := by
  have toNat : readElement buffer offset step = 0 ↔ (readElement buffer offset step).toNat = 0 :=
    BitVec.toNat_inj.symm
  rw [toNat, readElement_toNat buffer offset narrow]
  clear toNat narrow
  induction step with
  | zero => simp
  | succ step ih =>
    rw [List.range_succ, List.map_append, Nat.ofDigits_append, Nat.add_eq_zero_iff]
    simp only [ih, List.map_cons, List.map_nil, Nat.ofDigits_singleton, List.length_map,
      List.length_range, Nat.mul_eq_zero]
    constructor
    · rintro ⟨before, impossible | last⟩
      · exact absurd impossible (by positivity)
      · intro j inside
        cases Nat.lt_succ_iff_lt_or_eq.mp inside with
        | inl earlier => exact before j earlier
        | inr here => exact here ▸ BitVec.toNat_inj.mp (by simpa using last)
    · intro all
      refine ⟨fun j inside => all j (by omega), Or.inr ?_⟩
      rw [all step (by omega)]
      rfl

theorem convertBuffer2Array_lt {buffer : List (BitVec 8)} {size step : Nat} (narrow : step ≤ 8)
    {value : BitVec 64} (member : value ∈ convertBuffer2Array buffer size step) :
    value.toNat < 256 ^ step := by
  obtain ⟨i, _, rfl⟩ := List.mem_map.mp member
  exact readElement_lt buffer _ narrow

end AesOnGpu.Compression
