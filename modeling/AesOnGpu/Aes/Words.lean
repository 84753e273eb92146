import AesOnGpu.Aes.Collector

/-! # Words of four bytes

The victim packs four bytes into the low half of a 64-bit word.  Shifts, masks and sums
of such words are such words again, so that an index never leaves its table.
-/

namespace AesOnGpu.Aes

open Fips197 (Byte Word sBox mul)

variable {a b c d a' b' c' d' : Byte}

/-! ## Packed bytes -/

theorem getLsbD_packU32 (i : Nat) : (packU32 a b c d).getLsbD i =
    if i < 8 then d.getLsbD i else if i < 16 then c.getLsbD (i - 8)
    else if i < 24 then b.getLsbD (i - 16) else if i < 32 then a.getLsbD (i - 24) else false := by
  have outside (x : Byte) (j : Nat) (big : 8 ≤ j) : x.getLsbD j = false :=
    BitVec.getLsbD_of_ge x j big
  simp only [packU32, BitVec.getLsbD_xor, BitVec.getLsbD_shiftLeft, BitVec.getLsbD_setWidth]
  -- one case for each byte, and one for the bits above
  split_ifs with h0 h1 h2 h3
  · simp [show i < 64 by omega, show i < 24 by omega, show i < 16 by omega, h0]
  · simp [show i < 64 by omega, show i < 24 by omega, h0, h1, outside d i (by omega)]
    omega
  · simp [show i < 64 by omega, h0, h1, h2, outside d i (by omega),
      outside c (i - 8) (by omega)]
    omega
  · simp [show i < 64 by omega, h0, h1, h2, outside d i (by omega),
      outside c (i - 8) (by omega), outside b (i - 16) (by omega)]
    omega
  · simp [outside d i (by omega), outside c (i - 8) (by omega), outside b (i - 16) (by omega),
      outside a (i - 24) (by omega)]

@[simp] theorem packU32_xor : packU32 a b c d ^^^ packU32 a' b' c' d' =
    packU32 (a ^^^ a') (b ^^^ b') (c ^^^ c') (d ^^^ d') := by
  apply BitVec.eq_of_getLsbD_eq
  intro i _
  simp only [BitVec.getLsbD_xor, getLsbD_packU32]
  split_ifs <;> rfl

@[simp] theorem packU32_and : packU32 a b c d &&& packU32 a' b' c' d' =
    packU32 (a &&& a') (b &&& b') (c &&& c') (d &&& d') := by
  apply BitVec.eq_of_getLsbD_eq
  intro i _
  simp only [BitVec.getLsbD_and, getLsbD_packU32]
  split_ifs <;> simp

theorem getLsbD_shift_packU32 (n i : Nat) :
    (packU32 a b c d >>> n).getLsbD i = (packU32 a b c d).getLsbD (n + i) :=
  BitVec.getLsbD_ushiftRight _ n i

@[simp] theorem packU32_shift8 : packU32 a b c d >>> 8 = packU32 0#8 a b c := by
  apply BitVec.eq_of_getLsbD_eq
  intro i _
  rw [getLsbD_shift_packU32, getLsbD_packU32, getLsbD_packU32]
  grind

@[simp] theorem packU32_shift16 : packU32 a b c d >>> 16 = packU32 0#8 0#8 a b := by
  apply BitVec.eq_of_getLsbD_eq
  intro i _
  rw [getLsbD_shift_packU32, getLsbD_packU32, getLsbD_packU32]
  grind

@[simp] theorem packU32_shift24 : packU32 a b c d >>> 24 = packU32 0#8 0#8 0#8 a := by
  apply BitVec.eq_of_getLsbD_eq
  intro i _
  rw [getLsbD_shift_packU32, getLsbD_packU32, getLsbD_packU32]
  grind

@[simp] theorem packU32_setWidth : (packU32 a b c d).setWidth 8 = d := by
  apply BitVec.eq_of_getLsbD_eq
  intro i below
  rw [BitVec.getLsbD_setWidth, getLsbD_packU32, if_pos below]
  simp [below]

/-! ## Masks -/

theorem and_ones (x : Byte) : x &&& 0xff#8 = x := BitVec.and_allOnes

@[simp] theorem packU32_mask0 : packU32 a b c d &&& 0xff000000#64 = packU32 a 0#8 0#8 0#8 := by
  rw [show 0xff000000#64 = packU32 0xff#8 0#8 0#8 0#8 by decide, packU32_and]
  simp [and_ones]

@[simp] theorem packU32_mask1 : packU32 a b c d &&& 0x00ff0000#64 = packU32 0#8 b 0#8 0#8 := by
  rw [show 0x00ff0000#64 = packU32 0#8 0xff#8 0#8 0#8 by decide, packU32_and]
  simp [and_ones]

@[simp] theorem packU32_mask2 : packU32 a b c d &&& 0x0000ff00#64 = packU32 0#8 0#8 c 0#8 := by
  rw [show 0x0000ff00#64 = packU32 0#8 0#8 0xff#8 0#8 by decide, packU32_and]
  simp [and_ones]

@[simp] theorem packU32_mask3 : packU32 a b c d &&& 0x000000ff#64 = packU32 0#8 0#8 0#8 d := by
  rw [show 0x000000ff#64 = packU32 0#8 0#8 0#8 0xff#8 by decide, packU32_and]
  simp [and_ones]

/-! ## The tables -/

theorem sbox_eq : Op.sbox = (List.range 256).map fun n => sBox (BitVec.ofNat 8 n) := by
  -- the kernel computes the inverses on numbers
  have numbers : Op.sbox =
      (List.range 256).map fun n => Fips197.affine (BitVec.ofNat 8 (Fips197.inverseNat n)) := by
    decide +kernel
  rw [numbers]
  apply List.map_congr_left
  intro n inside
  have below : n < 256 := List.mem_range.mp inside
  rw [Fips197.sBox_eq, BitVec.toNat_ofNat, Nat.mod_eq_of_lt below]

theorem te_eq :
    (Te0_h = Op.sbox.map fun s => packU32 (mul 2 s) s s (mul 3 s)) ∧
    (Te1_h = Op.sbox.map fun s => packU32 (mul 3 s) (mul 2 s) s s) ∧
    (Te2_h = Op.sbox.map fun s => packU32 s (mul 3 s) (mul 2 s) s) ∧
    (Te3_h = Op.sbox.map fun s => packU32 s s (mul 3 s) (mul 2 s)) ∧
    (Te4_h = Op.sbox.map fun s => packU32 s s s s) := by
  simp only [Fips197.mul_eq]
  decide +kernel

theorem sbox_getElem? (x : Byte) : Op.sbox[x.toNat]? = some (sBox x) := by
  have below : x.toNat < 256 := x.isLt
  rw [sbox_eq]
  simp [below]

theorem inv_sbox_eq : (Op.sbox.map fun s => Op.inv_sbox[s.toNat]?) =
    (List.range 256).map fun n => some (BitVec.ofNat 8 n) := by
  decide +kernel

theorem inv_sbox_spec (x : Byte) : Op.inv_sbox[(sBox x).toNat]? = some x := by
  have below : x.toNat < 256 := x.isLt
  have entries := congrArg (fun table => table[x.toNat]?) inv_sbox_eq
  simpa [sbox_getElem?, below] using entries

theorem sBox_injective : Function.Injective sBox := by
  intro x y same
  have inverted := inv_sbox_spec x
  rw [same, inv_sbox_spec y] at inverted
  exact (Option.some.inj inverted).symm

theorem lookup_spec {table : List U32} {entry : Byte → U32} (eq : table = Op.sbox.map entry)
    (x : Byte) : lookup table (packU32 0#8 0#8 0#8 x) = some (entry (sBox x)) := by
  have index : (packU32 0#8 0#8 0#8 x).toNat = x.toNat := by
    rw [show packU32 0#8 0#8 0#8 x = x.setWidth 64 by simp [packU32]]
    exact BitVec.toNat_setWidth_of_le (by omega)
  rw [lookup, index, eq, List.getElem?_map, sbox_getElem?]
  rfl

theorem rcon_spec {i : Nat} (below : i < 10) :
    rcon[i]? = some (packU32 (Fips197.xPower i) 0#8 0#8 0#8) := by
  have all : ∀ i < 10, rcon[i]? = some (packU32 (Fips197.xPower i) 0#8 0#8 0#8) := by decide
  exact all i below

theorem te4Bytes_spec (x0 x1 x2 x3 : Byte) :
    te4Bytes (packU32 0#8 0#8 0#8 x0) (packU32 0#8 0#8 0#8 x1) (packU32 0#8 0#8 0#8 x2) (packU32 0#8 0#8 0#8 x3) =
      some (packU32 (sBox x0) (sBox x1) (sBox x2) (sBox x3)) := by
  obtain ⟨-, -, -, -, te4_eq⟩ := te_eq
  simp [te4Bytes, lookup_spec te4_eq]

theorem teWord_spec (x0 x1 x2 x3 : Byte) :
    teWord (packU32 0#8 0#8 0#8 x0) (packU32 0#8 0#8 0#8 x1) (packU32 0#8 0#8 0#8 x2) (packU32 0#8 0#8 0#8 x3) =
      some (packU32
        (mul 2 (sBox x0) ^^^ mul 3 (sBox x1) ^^^ sBox x2 ^^^ sBox x3)
        (sBox x0 ^^^ mul 2 (sBox x1) ^^^ mul 3 (sBox x2) ^^^ sBox x3)
        (sBox x0 ^^^ sBox x1 ^^^ mul 2 (sBox x2) ^^^ mul 3 (sBox x3))
        (mul 3 (sBox x0) ^^^ sBox x1 ^^^ sBox x2 ^^^ mul 2 (sBox x3))) := by
  obtain ⟨te0_eq, te1_eq, te2_eq, te3_eq, -⟩ := te_eq
  simp [teWord, lookup_spec te0_eq, lookup_spec te1_eq, lookup_spec te2_eq, lookup_spec te3_eq]

end AesOnGpu.Aes
