import AesOnGpu.Lib.Words

/-! # Texture coordinates

`tex_impl` brings the coordinates of a texel into the array, with code of its own for one
and for two dimensions.  For bilinear sampling the helpers `wrap` and `clamp` do so with the
byte coordinates of the four texels around a point.
-/

namespace AesOnGpu.Texture

open Digits

abbrev MemAddr := BitVec 32

/-- `cudaChannelFormatDesc`: the bits of the components, of which the sum is an `int`. -/
structure ChannelFormatDesc where
  x : Nat
  y : Nat
  z : Nat
  w : Nat
  bits_lt : w + x + y + z < 2 ^ 31

/-- The expression for the bytes of a texel in `tex_impl`. -/
def ChannelFormatDesc.texel_size (desc : ChannelFormatDesc) : Nat :=
  (desc.w + desc.x + desc.y + desc.z) / 8

/-- `cudaArray`.  The width and the height are `int`s, the number of bytes is computed as an
    `unsigned`. -/
structure CudaArray where
  devPtr32 : MemAddr
  desc : ChannelFormatDesc
  width : Nat
  height : Nat
  texel_pos : 0 < desc.texel_size
  width_pos : 0 < width
  height_pos : 0 < height
  width_lt : width < 2 ^ 31
  height_lt : height < 2 ^ 31
  size_lt : desc.texel_size * width * height < 2 ^ 32

inductive TextureAddressMode where
  | cudaAddressModeWrap
  | cudaAddressModeClamp
  deriving DecidableEq

/-! ## The code -/

/-- The boundaries in one dimension. -/
def coordinate1D (addressMode : TextureAddressMode) (width x : BitVec 32) : BitVec 32 :=
  match addressMode with
  | .cudaAddressModeClamp =>
    -- `width` is unsigned, and so is the comparison
    let x := if width - 1 < x then width - 1 else x
    if x.slt 0 then 0 else x
  | .cudaAddressModeWrap => x % width

/-- The boundaries in each of two dimensions. -/
def coordinate2D (addressMode : TextureAddressMode) (width x : BitVec 32) : BitVec 32 :=
  match addressMode with
  | .cudaAddressModeClamp =>
    let x := if x.slt 0 then 0 else x
    if width.sle x then width - 1 else x
  | .cudaAddressModeWrap =>
    -- the remainder is unsigned, so that it is never negative
    let x := x % width
    if x.slt 0 then x * -1 else x

def wrap (x y mx my _elem_size : BitVec 32) : Option (BitVec 32) :=
  let nx := (mx + x) % mx
  let ny := (my + y) % my
  some (nx + mx * ny)

/-- The loop of `clamp`; a turn that does not wrap makes `nx` smaller. -/
def clampLoop (mx elem_size : BitVec 32) : Nat → BitVec 32 → Option (BitVec 32)
  | 0, _ => none
  | turns + 1, nx => if mx ≤ nx then clampLoop mx elem_size turns (nx - elem_size) else some nx

def clamp (x y mx my elem_size : BitVec 32) : Option (BitVec 32) := do
  let nx ← clampLoop mx elem_size (x.toNat + 1) x
  let ny := if my ≤ y then my - 1 else y
  return nx + mx * ny

namespace CudaArray

variable (array : CudaArray)

def texel_size : BitVec 32 := BitVec.ofNat 32 array.desc.texel_size

/-- `tex_array_index` of a point fetch in one dimension.  The coordinate is the register of an
    `.s32` or the `int` of an `.f32`. -/
def tex1D (addressMode : TextureAddressMode) (x : BitVec 32) : MemAddr :=
  let width := BitVec.ofNat 32 array.width
  let x := coordinate1D addressMode width x
  let x := x * array.texel_size
  array.devPtr32 + x

/-- `tex_array_index` of a point fetch in two dimensions. -/
def tex2D (addressMode0 addressMode1 : TextureAddressMode) (x y : BitVec 32) : MemAddr :=
  let width := BitVec.ofNat 32 array.width
  let height := BitVec.ofNat 32 array.height
  let x := coordinate2D addressMode0 width x
  let y := coordinate2D addressMode1 height y
  let width := width * array.texel_size
  let x := x * array.texel_size
  array.devPtr32 + (x + width * y)

/-- One of the four reads of `tex_linf_sampling`, with the arguments that `tex_impl` passes. -/
def tex_linf_sampling (addressMode0 : TextureAddressMode) (x y : BitVec 32) (right below : Bool) :
    Option MemAddr := do
  let b_lim := if addressMode0 = .cudaAddressModeClamp then clamp else wrap
  let width := BitVec.ofNat 32 array.width * array.texel_size
  let height := BitVec.ofNat 32 array.height
  let limited ← b_lim (if right then x + array.texel_size else x) (if below then y + 1 else y)
    width height array.texel_size
  return array.devPtr32 + limited

end CudaArray

/-! ## What it is for -/

/-- The texel at a coordinate, outside of the array as well. -/
def TextureAddressMode.select (addressMode : TextureAddressMode) (x : Int) (width : Nat) : Int :=
  match addressMode with
  | .cudaAddressModeClamp => min (max x 0) (width - 1)
  | .cudaAddressModeWrap => x % width

def CudaArray.texel (array : CudaArray) (x y : Int) (byte : Nat) : MemAddr :=
  array.devPtr32 + BitVec.ofInt 32 (byte + array.desc.texel_size * (x + array.width * y))

inductive Fetch where
  | oneD (addressMode : TextureAddressMode) (x : BitVec 32)
  | twoD (addressMode0 addressMode1 : TextureAddressMode) (x y : BitVec 32)
  | bilinear (addressMode0 : TextureAddressMode) (x y : BitVec 32) (right below : Bool)

namespace Fetch

variable (array : CudaArray)

def address : Fetch → Option MemAddr
  | oneD addressMode x => some (array.tex1D addressMode x)
  | twoD addressMode0 addressMode1 x y => some (array.tex2D addressMode0 addressMode1 x y)
  | bilinear addressMode0 x y right below =>
    array.tex_linf_sampling addressMode0 x y right below

def column : Fetch → Int
  | oneD _ x => x.toInt
  | twoD _ _ x _ => x.toInt
  | bilinear _ x _ right _ => x.toInt / array.desc.texel_size + right.toNat

def row : Fetch → Int
  | oneD _ _ => 0
  | twoD _ _ _ y => y.toInt
  | bilinear _ _ y _ below => y.toInt + below.toNat

def byte : Fetch → Nat
  | bilinear _ x _ _ _ => (x.toInt % array.desc.texel_size).toNat
  | _ => 0

def modeX : Fetch → TextureAddressMode
  | oneD addressMode _ => addressMode
  | twoD addressMode0 _ _ _ => addressMode0
  | bilinear addressMode0 _ _ _ _ => addressMode0

def modeY : Fetch → TextureAddressMode
  | oneD addressMode _ => addressMode
  | twoD _ addressMode1 _ _ => addressMode1
  | bilinear addressMode0 _ _ _ _ => addressMode0

def Right (fetch : Fetch) : Prop :=
  fetch.address array = some (array.texel (fetch.modeX.select (fetch.column array) array.width)
    (fetch.modeY.select fetch.row array.height) (fetch.byte array))

/-- The condition on one dimension of a fetch that is not bilinear.  `clamps` tells whether the
    code compares signed numbers. -/
def Point (clamps : Bool) (addressMode : TextureAddressMode) (x : Int) (width : Nat) : Prop :=
  match addressMode with
  | .cudaAddressModeClamp => clamps ∨ 0 ≤ x ∨ width = 1
  | .cudaAddressModeWrap => 0 ≤ x ∨ width ∣ 2 ^ 32

/-- The coordinates at which the unsigned arithmetic does what the signed one would do. -/
def Covered (fetch : Fetch) : Prop :=
  match fetch with
  | oneD addressMode x => Point false addressMode x.toInt array.width
  | twoD addressMode0 addressMode1 x y =>
    Point true addressMode0 x.toInt array.width ∧ Point true addressMode1 y.toInt array.height
  | bilinear .cudaAddressModeClamp _ _ _ _ =>
    (0 ≤ fetch.column array ∨ array.width = 1 ∧ array.desc.texel_size ∣ 2 ^ 32) ∧
      (0 ≤ fetch.row ∨ array.height = 1)
  | bilinear .cudaAddressModeWrap _ _ _ _ =>
    (-array.width ≤ fetch.column array ∧
        fetch.byte array + array.desc.texel_size * (array.width + fetch.column array) < 2 ^ 32 ∨
      array.desc.texel_size * array.width ∣ 2 ^ 32) ∧
      (-array.height ≤ fetch.row ∨ array.height ∣ 2 ^ 32)

end Fetch

/-! ## Coordinates of point fetches -/

section

variable {width : Nat} (positive : 0 < width) (narrow : width < 2 ^ 31) (x : BitVec 32)

include narrow in
theorem toNat_width : (BitVec.ofNat 32 width).toNat = width :=
  Nat.mod_eq_of_lt (by omega)

include positive narrow in
theorem toNat_width_sub_one : (BitVec.ofNat 32 width - 1).toNat = width - 1 := by
  rw [BitVec.toNat_sub_of_le (by rw [BitVec.le_def, toNat_width narrow]; exact positive),
    toNat_width narrow]
  rfl

theorem toInt_cases (x : BitVec 32) :
    x.toNat < 2 ^ 31 ∧ x.toInt = x.toNat ∨ 2 ^ 31 ≤ x.toNat ∧ x.toInt = x.toNat - 2 ^ 32 := by
  have sign := BitVec.toInt_eq_toNat_cond x
  split at sign <;> omega

theorem slt_zero_iff (x : BitVec 32) : x.slt 0 = true ↔ x.toInt < 0 := BitVec.slt_iff_toInt_lt

include positive narrow in
theorem toNat_coordinate1D_clamp :
    (coordinate1D .cudaAddressModeClamp (BitVec.ofNat 32 width) x).toNat =
      if x.toInt < 0 then width - 1 else min x.toNat (width - 1) := by
  have last := toNat_width_sub_one positive narrow
  have nonneg : ¬ (BitVec.ofNat 32 width - 1).slt 0 = true := by
    rw [slt_zero_iff]
    have := toInt_cases (BitVec.ofNat 32 width - 1)
    omega
  have sign := toInt_cases x
  simp only [coordinate1D, BitVec.lt_def, last]
  by_cases large : width - 1 < x.toNat
  · rw [if_pos large, if_neg nonneg, last]
    split <;> omega
  · have small : ¬ x.toInt < 0 := by omega
    have small' : ¬ x.slt 0 = true := by rwa [slt_zero_iff]
    rw [if_neg large, if_neg small', if_neg small]
    omega

include positive narrow in
theorem toNat_coordinate2D_clamp :
    ((coordinate2D .cudaAddressModeClamp (BitVec.ofNat 32 width) x).toNat : Int) =
      min (max x.toInt 0) (width - 1) := by
  have last := toNat_width_sub_one positive narrow
  have whole := toNat_width narrow
  have bound : (BitVec.ofNat 32 width).toInt = width := by
    have := toInt_cases (BitVec.ofNat 32 width)
    omega
  have sign := toInt_cases x
  simp only [coordinate2D]
  generalize first : (if x.slt 0 = true then 0 else x) = x'
  simp only [BitVec.sle_iff_toInt_le, bound]
  by_cases negative : x.toInt < 0
  · have origin : (0 : BitVec 32).toInt = 0 := rfl
    have origin' : (0 : BitVec 32).toNat = 0 := rfl
    rw [if_pos ((slt_zero_iff x).mpr negative)] at first
    subst first
    rw [if_neg (by omega)]
    omega
  · have negative' : ¬ x.slt 0 = true := by rwa [slt_zero_iff]
    rw [if_neg negative'] at first
    subst first
    split <;> omega

include narrow in
theorem toNat_umod_width :
    ((x % BitVec.ofNat 32 width).toNat : Int) = x.toInt % 2 ^ 32 % width := by
  rw [BitVec.toNat_umod, toNat_width narrow, ← toNat_eq_toInt_emod]
  rfl

include narrow in
theorem coordinate2D_wrap (positive : 0 < width) :
    coordinate2D .cudaAddressModeWrap (BitVec.ofNat 32 width) x = x % BitVec.ofNat 32 width := by
  have small : (x % BitVec.ofNat 32 width).toNat < width := by
    rw [BitVec.toNat_umod, toNat_width narrow]
    exact Nat.mod_lt _ positive
  have sign := toInt_cases (x % BitVec.ofNat 32 width)
  rw [coordinate2D, if_neg]
  rw [slt_zero_iff]
  omega

end

theorem select_mem {width : Nat} (positive : 0 < width) (addressMode : TextureAddressMode)
    (x : Int) : 0 ≤ addressMode.select x width ∧ addressMode.select x width < width := by
  cases addressMode with
  | cudaAddressModeClamp =>
    simp only [TextureAddressMode.select]
    omega
  | cudaAddressModeWrap =>
    exact ⟨Int.emod_nonneg _ (by omega), Int.emod_lt_of_pos _ (by omega)⟩

theorem wrap_iff {width : Nat} (narrow : width < 2 ^ 31) (x : BitVec 32) :
    ((x % BitVec.ofNat 32 width).toNat : Int) = x.toInt % width ↔ 0 ≤ x.toInt ∨ width ∣ 2 ^ 32 := by
  have sign := toInt_cases x
  rw [toNat_umod_width narrow, emod_emod_near_iff (by omega) (by omega)]
  refine or_congr (by omega) ?_
  exact_mod_cast Iff.rfl

theorem coordinate1D_lt {width : Nat} (positive : 0 < width) (narrow : width < 2 ^ 31)
    (addressMode : TextureAddressMode) (x : BitVec 32) :
    (coordinate1D addressMode (BitVec.ofNat 32 width) x).toNat < width := by
  cases addressMode with
  | cudaAddressModeClamp =>
    rw [toNat_coordinate1D_clamp positive narrow]
    split <;> omega
  | cudaAddressModeWrap =>
    rw [coordinate1D, BitVec.toNat_umod, toNat_width narrow]
    exact Nat.mod_lt _ positive

theorem coordinate1D_iff {width : Nat} (positive : 0 < width) (narrow : width < 2 ^ 31)
    (addressMode : TextureAddressMode) (x : BitVec 32) :
    ((coordinate1D addressMode (BitVec.ofNat 32 width) x).toNat : Int) =
      addressMode.select x.toInt width ↔ Fetch.Point false addressMode x.toInt width := by
  cases addressMode with
  | cudaAddressModeClamp =>
    have sign := toInt_cases x
    rw [toNat_coordinate1D_clamp positive narrow]
    simp only [TextureAddressMode.select, Fetch.Point, Bool.false_eq_true, false_or]
    by_cases negative : x.toInt < 0
    · rw [if_pos negative]
      omega
    · rw [if_neg negative]
      omega
  | cudaAddressModeWrap => exact wrap_iff narrow x

theorem coordinate2D_lt {width : Nat} (positive : 0 < width) (narrow : width < 2 ^ 31)
    (addressMode : TextureAddressMode) (x : BitVec 32) :
    (coordinate2D addressMode (BitVec.ofNat 32 width) x).toNat < width := by
  cases addressMode with
  | cudaAddressModeClamp =>
    have := toNat_coordinate2D_clamp positive narrow x
    omega
  | cudaAddressModeWrap =>
    rw [coordinate2D_wrap narrow x positive, BitVec.toNat_umod, toNat_width narrow]
    exact Nat.mod_lt _ positive

theorem coordinate2D_iff {width : Nat} (positive : 0 < width) (narrow : width < 2 ^ 31)
    (addressMode : TextureAddressMode) (x : BitVec 32) :
    ((coordinate2D addressMode (BitVec.ofNat 32 width) x).toNat : Int) =
      addressMode.select x.toInt width ↔ Fetch.Point true addressMode x.toInt width := by
  cases addressMode with
  | cudaAddressModeClamp =>
    exact iff_of_true (toNat_coordinate2D_clamp positive narrow x) (.inl rfl)
  | cudaAddressModeWrap =>
    rw [coordinate2D_wrap narrow x positive]
    exact wrap_iff narrow x

/-! ## The helpers of the bilinear sampling -/

theorem clampLoop_spec {texel width : Nat} (positive : 0 < texel) (columns : 0 < width)
    (narrow : texel * width < 2 ^ 32) (turns : Nat) (nx : BitVec 32) (enough : nx.toNat < turns) :
    ∃ last, clampLoop (BitVec.ofNat 32 (texel * width)) (BitVec.ofNat 32 texel) turns nx =
        some last ∧
      last.toNat = if nx.toNat < texel * width then nx.toNat
        else texel * (width - 1) + nx.toNat % texel := by
  have row : (BitVec.ofNat 32 (texel * width)).toNat = texel * width := Nat.mod_eq_of_lt narrow
  have columns' : texel * width = texel * (width - 1) + texel := by
    rw [← Nat.mul_succ, Nat.succ_eq_add_one, Nat.sub_add_cancel columns]
  have step : (BitVec.ofNat 32 texel).toNat = texel := Nat.mod_eq_of_lt (by omega)
  induction turns generalizing nx with
  | zero => omega
  | succ turns ih =>
    rw [clampLoop]
    by_cases beyond : texel * width ≤ nx.toNat
    · have back : (nx - BitVec.ofNat 32 texel).toNat = nx.toNat - texel := by
        rw [BitVec.toNat_sub_of_le (by rw [BitVec.le_def, step]; omega), step]
      obtain ⟨last, run, value⟩ := ih (nx - BitVec.ofNat 32 texel) (by omega)
      have remainder : nx.toNat % texel = (nx.toNat - texel) % texel :=
        Nat.mod_eq_sub_mod (by omega)
      refine ⟨last, by rw [if_pos (by rwa [BitVec.le_def, row]), run], ?_⟩
      rw [value, back, if_neg (by omega : ¬ nx.toNat < texel * width), remainder]
      split
      · -- the first turn that ends in the row ends in its last texel
        have short : nx.toNat - texel - texel * (width - 1) < texel := by omega
        have split : nx.toNat - texel =
            nx.toNat - texel - texel * (width - 1) + texel * (width - 1) := by omega
        rw [split, Nat.add_mul_mod_self_left, Nat.mod_eq_of_lt short]
        omega
      · rfl
    · exact ⟨nx, by rw [if_neg (by rwa [BitVec.le_def, row])], (if_pos (by omega)).symm⟩

theorem toNat_moved (x : BitVec 32) (n : Nat) (moved : Bool) :
    ((if moved then x + BitVec.ofNat 32 n else x).toNat : Int) =
      (x.toInt + n * moved.toNat) % 2 ^ 32 := by
  cases moved with
  | false => simp [toNat_eq_toInt_emod]
  | true =>
    have unsigned := toNat_eq_toInt_emod x
    rw [if_pos rfl, BitVec.toNat_add, BitVec.toNat_ofNat]
    push_cast
    rw [unsigned]
    simp

section

variable {texel width height : Nat} (positive : 0 < texel) (columns : 0 < width)
  (rows : 0 < height) (narrow : texel * width < 2 ^ 32) (low : height < 2 ^ 31)

include positive columns narrow rows low in
theorem clamp_spec (x y : BitVec 32) :
    ∃ nx ny : Nat, clamp x y (BitVec.ofNat 32 (texel * width)) (BitVec.ofNat 32 height)
        (BitVec.ofNat 32 texel) = some (BitVec.ofNat 32 (nx + texel * width * ny)) ∧
      nx < texel * width ∧ ny < height ∧
      nx = (if x.toNat < texel * width then x.toNat
        else texel * (width - 1) + x.toNat % texel) ∧
      ny = if height ≤ y.toNat then height - 1 else y.toNat := by
  obtain ⟨last, run, value⟩ := clampLoop_spec positive columns narrow _ x (Nat.lt_succ_self _)
  have bound := toNat_width low
  refine ⟨last.toNat, _, ?_, ?_, ?_, value, rfl⟩
  · have ny : (if BitVec.ofNat 32 height ≤ y then BitVec.ofNat 32 height - 1 else y) =
        BitVec.ofNat 32 (if height ≤ y.toNat then height - 1 else y.toNat) := by
      simp only [BitVec.le_def, bound]
      split
      · rw [← toNat_width_sub_one rows low, BitVec.ofNat_toNat, BitVec.setWidth_eq]
      · rw [BitVec.ofNat_toNat, BitVec.setWidth_eq]
    simp only [clamp, run, ny, Option.bind_eq_bind, Option.bind_some]
    rw [BitVec.ofNat_add, BitVec.ofNat_toNat, BitVec.setWidth_eq, ← BitVec.ofNat_mul]
    rfl
  · rw [value]
    split
    · assumption
    · have columns' : texel * width = texel * (width - 1) + texel := by
        rw [← Nat.mul_succ, Nat.succ_eq_add_one, Nat.sub_add_cancel columns]
      rw [columns']
      exact Nat.add_lt_add_left (Nat.mod_lt _ positive) _
  · split <;> omega

include positive columns rows narrow low in
theorem wrap_spec (x y : BitVec 32) :
    ∃ nx ny : Nat, wrap x y (BitVec.ofNat 32 (texel * width)) (BitVec.ofNat 32 height)
        (BitVec.ofNat 32 texel) = some (BitVec.ofNat 32 (nx + texel * width * ny)) ∧
      nx < texel * width ∧ ny < height ∧
      nx = (texel * width + x.toNat) % 2 ^ 32 % (texel * width) ∧
      ny = (height + y.toNat) % 2 ^ 32 % height := by
  refine ⟨_, _, congrArg some ?_, Nat.mod_lt _ (Nat.mul_pos positive columns), Nat.mod_lt _ rows,
    rfl, rfl⟩
  apply BitVec.eq_of_toNat_eq
  simp only [BitVec.toNat_add, BitVec.toNat_mul, BitVec.toNat_umod, BitVec.toNat_ofNat]
  rw [Nat.mod_eq_of_lt narrow, Nat.mod_eq_of_lt (by omega : height < 2 ^ 32)]
  simp [Nat.add_mod]

end

namespace CudaArray

variable (array : CudaArray)

theorem row_lt : array.desc.texel_size * array.width < 2 ^ 32 :=
  lt_of_le_of_lt (Nat.le_mul_of_pos_right _ array.height_pos) array.size_lt

theorem texel_size_lt : array.desc.texel_size < 2 ^ 28 :=
  Nat.div_lt_of_lt_mul array.desc.bits_lt

theorem address_eq_texel_iff {nx ny byte : Nat} {x y : Int}
    (inside : nx < array.desc.texel_size * array.width) (inside' : ny < array.height)
    (column : 0 ≤ x ∧ x < array.width) (row : 0 ≤ y ∧ y < array.height)
    (within : byte < array.desc.texel_size) :
    array.devPtr32 + BitVec.ofNat 32 (nx + array.desc.texel_size * array.width * ny) =
        array.texel x y byte ↔
      (nx : Int) = byte + array.desc.texel_size * x ∧ (ny : Int) = y := by
  obtain ⟨c, rfl⟩ := Int.eq_ofNat_of_zero_le column.1
  obtain ⟨r, rfl⟩ := Int.eq_ofNat_of_zero_le row.1
  have column' : c < array.width := by omega
  have row' : r < array.height := by omega
  have digits : byte + array.desc.texel_size * c < array.desc.texel_size * array.width :=
    pair_lt within column'
  have texel : array.texel c r byte = array.devPtr32 + BitVec.ofNat 32
      (byte + array.desc.texel_size * c + array.desc.texel_size * array.width * r) := by
    rw [CudaArray.texel, ← BitVec.ofInt_natCast]
    congr 2
    push_cast
    ring
  have small (n : Nat) (bound : n < array.desc.texel_size * array.width * array.height) :
      n < 2 ^ 32 := lt_trans bound array.size_lt
  rw [texel, add_right_inj, ← BitVec.toNat_inj, BitVec.toNat_ofNat, BitVec.toNat_ofNat,
    Nat.mod_eq_of_lt (small _ (pair_lt inside inside')),
    Nat.mod_eq_of_lt (small _ (pair_lt digits row')), pair_inj inside digits]
  norm_cast

end CudaArray

section

variable {texel width height byte n : Nat} {x y : Int} (columns : 0 < width) (rows : 0 < height)
  (low : height < 2 ^ 31) (narrow : texel * width < 2 ^ 32)

include columns in
/-- A column on the left of the array is clamped to the last one, and its bytes are moved where
    the bytes of a texel do not divide the address space. -/
theorem clamp_column_iff (small : texel < 2 ^ 28) (within : byte < texel)
    (above : -2 ^ 31 ≤ byte + texel * x) (below : byte + texel * x < 2 ^ 32)
    (unsigned : (n : Int) = (byte + texel * x) % 2 ^ 32) :
    ((if n < texel * width then n else texel * (width - 1) + n % texel : Nat) : Int) =
        byte + texel * TextureAddressMode.cudaAddressModeClamp.select x width ↔
      0 ≤ x ∨ width = 1 ∧ texel ∣ 2 ^ 32 := by
  by_cases nonneg : 0 ≤ x
  · obtain ⟨c, rfl⟩ := Int.eq_ofNat_of_zero_le nonneg
    refine iff_of_true ?_ (.inl nonneg)
    have number : n = byte + texel * c := by
      rw [Int.emod_eq_of_lt (by positivity) below] at unsigned
      exact_mod_cast unsigned
    by_cases inside : c < width
    · have selected : TextureAddressMode.cudaAddressModeClamp.select c width = c := by
        simp only [TextureAddressMode.select]
        omega
      rw [if_pos (number ▸ pair_lt within inside), selected, number]
      push_cast
      rfl
    · have selected :
          TextureAddressMode.cudaAddressModeClamp.select c width = (width - 1 : Nat) := by
        simp only [TextureAddressMode.select]
        omega
      have beyond : texel * width ≤ texel * c := Nat.mul_le_mul_left _ (by omega)
      rw [if_neg (by omega), selected, number, Nat.add_mul_mod_self_left, Nat.mod_eq_of_lt within]
      push_cast
      ring
  · have negative : (texel : Int) * x ≤ -texel := by nlinarith
    have number : (n : Int) = byte + texel * x + 2 ^ 32 := by
      rw [unsigned, ← Int.add_emod_right, Int.emod_eq_of_lt] <;> omega
    have selected : TextureAddressMode.cudaAddressModeClamp.select x width = 0 := by
      simp only [TextureAddressMode.select]
      omega
    have remainder : n % texel = byte ↔ texel ∣ 2 ^ 32 := by
      have congruent : (n : Int) % texel = byte ↔ (texel : Int) ∣ 2 ^ 32 := by
        have kept : (byte : Int) % texel = byte := Int.emod_eq_of_lt (by omega) (by omega)
        have moved : (byte : Int) + texel * x + 2 ^ 32 - byte = 2 ^ 32 + texel * x := by ring
        rw [← kept, Int.emod_eq_emod_iff_emod_sub_eq_zero, number, moved,
          Int.add_mul_emod_self_left, Int.dvd_iff_emod_eq_zero]
      exact_mod_cast congruent
    simp only [selected, nonneg, false_or, mul_zero, add_zero, Nat.cast_inj]
    rw [← remainder]
    rcases Nat.lt_or_ge 1 width with several | single
    · -- the last column is not the first one
      have last : texel * 1 ≤ texel * (width - 1) := Nat.mul_le_mul_left _ (by omega)
      refine iff_of_false ?_ (by omega)
      split <;> omega
    · obtain rfl : width = 1 := by omega
      rw [if_neg (by omega)]
      simp

include rows low in
theorem clamp_row_iff (above : -2 ^ 31 ≤ y) (below : y ≤ 2 ^ 31)
    (unsigned : (n : Int) = y % 2 ^ 32) :
    ((if height ≤ n then height - 1 else n : Nat) : Int) =
        TextureAddressMode.cudaAddressModeClamp.select y height ↔ 0 ≤ y ∨ height = 1 := by
  simp only [TextureAddressMode.select]
  by_cases nonneg : 0 ≤ y
  · rw [Int.emod_eq_of_lt nonneg (by omega)] at unsigned
    split <;> omega
  · rw [← Int.add_emod_right, Int.emod_eq_of_lt (by omega) (by omega)] at unsigned
    rw [if_pos (by omega)]
    omega

include columns narrow in
theorem wrap_column_iff (small : texel < 2 ^ 28) (within : byte < texel)
    (above : -2 ^ 31 ≤ byte + texel * x) (below : byte + texel * x < 2 ^ 32)
    (unsigned : (n : Int) = (byte + texel * x) % 2 ^ 32) :
    (((texel * width + n) % 2 ^ 32 % (texel * width) : Nat) : Int) =
        byte + texel * TextureAddressMode.cudaAddressModeWrap.select x width ↔
      -width ≤ x ∧ byte + texel * (width + x) < 2 ^ 32 ∨ texel * width ∣ 2 ^ 32 := by
  have narrow' : (texel : Int) * width < 2 ^ 32 := by exact_mod_cast narrow
  have sum : (byte : Int) + texel * (width + x) = texel * width + (byte + texel * x) := by ring
  have row : (byte : Int) + texel * (width + x) = byte + texel * x + texel * width * 1 := by ring
  have code : (((texel * width + n) % 2 ^ 32 % (texel * width) : Nat) : Int) =
      (byte + texel * (width + x)) % 2 ^ 32 % (texel * width) := by
    rw [sum, Int.natCast_mod, add_mod_natCast (by exact_mod_cast unsigned)]
    norm_num
  have selected : (byte : Int) + texel * TextureAddressMode.cudaAddressModeWrap.select x width =
      (byte + texel * (width + x)) % (texel * width) := by
    rw [row, Int.add_mul_emod_self_left, add_mul_emod _ (by omega) (by omega) (by omega)]
    rfl
  rw [code, selected, emod_emod_near_iff (by nlinarith) (by omega)]
  refine or_congr (and_congr_left' ?_) ?_
  · -- the byte does not change the column
    constructor
    · intro nonneg
      by_contra left
      have : (texel : Int) * (width + x) ≤ -texel := by nlinarith
      omega
    · intro column
      have : 0 ≤ (texel : Int) * (width + x) := by nlinarith
      omega
  · exact_mod_cast Iff.rfl

include low in
theorem wrap_row_iff (above : -2 ^ 31 ≤ y) (below : y ≤ 2 ^ 31)
    (unsigned : (n : Int) = y % 2 ^ 32) :
    (((height + n) % 2 ^ 32 % height : Nat) : Int) =
        TextureAddressMode.cudaAddressModeWrap.select y height ↔
      -height ≤ y ∨ height ∣ 2 ^ 32 := by
  have code : (((height + n) % 2 ^ 32 % height : Nat) : Int) = (height + y) % 2 ^ 32 % height := by
    rw [Int.natCast_mod, add_mod_natCast (by exact_mod_cast unsigned)]
    norm_num
  have selected : TextureAddressMode.cudaAddressModeWrap.select y height = (height + y) % height :=
    (Int.add_emod_left _ _).symm
  rw [code, selected, emod_emod_near_iff (by omega) (by omega)]
  refine or_congr (by omega) ?_
  exact_mod_cast Iff.rfl

end

/-! ## Fetches -/

namespace CudaArray

variable (array : CudaArray)

theorem tex1D_eq (addressMode : TextureAddressMode) (x : BitVec 32) :
    array.tex1D addressMode x = array.devPtr32 + BitVec.ofNat 32
      (array.desc.texel_size *
          (coordinate1D addressMode (BitVec.ofNat 32 array.width) x).toNat +
        array.desc.texel_size * array.width * 0) := by
  simp only [tex1D, CudaArray.texel_size, mul_zero, add_zero, BitVec.ofNat_mul, BitVec.ofNat_toNat,
    BitVec.setWidth_eq]
  rw [BitVec.mul_comm]

theorem tex2D_eq (addressMode0 addressMode1 : TextureAddressMode) (x y : BitVec 32) :
    array.tex2D addressMode0 addressMode1 x y = array.devPtr32 + BitVec.ofNat 32
      (array.desc.texel_size *
          (coordinate2D addressMode0 (BitVec.ofNat 32 array.width) x).toNat +
        array.desc.texel_size * array.width *
          (coordinate2D addressMode1 (BitVec.ofNat 32 array.height) y).toNat) := by
  simp only [tex2D, CudaArray.texel_size, BitVec.ofNat_add, BitVec.ofNat_mul, BitVec.ofNat_toNat,
    BitVec.setWidth_eq]
  rw [BitVec.mul_comm _ (BitVec.ofNat 32 array.desc.texel_size),
    BitVec.mul_comm (BitVec.ofNat 32 array.width)]

theorem tex_linf_sampling_eq (addressMode0 : TextureAddressMode) {x y limited : BitVec 32}
    {right below : Bool}
    (run : (if addressMode0 = .cudaAddressModeClamp then clamp else wrap)
      (if right then x + array.texel_size else x) (if below then y + 1 else y)
      (BitVec.ofNat 32 (array.desc.texel_size * array.width)) (BitVec.ofNat 32 array.height)
      array.texel_size = some limited) :
    array.tex_linf_sampling addressMode0 x y right below = some (array.devPtr32 + limited) := by
  have width : BitVec.ofNat 32 array.width * array.texel_size =
      BitVec.ofNat 32 (array.desc.texel_size * array.width) := by
    rw [BitVec.ofNat_mul, BitVec.mul_comm]
    rfl
  rw [tex_linf_sampling, width, run]
  rfl

end CudaArray

namespace Fetch

variable (array : CudaArray)

variable {array} in
theorem right_iff {fetch : Fetch} {nx ny : Nat}
    (found : fetch.address array = some (array.devPtr32 +
      BitVec.ofNat 32 (nx + array.desc.texel_size * array.width * ny)))
    (inside : nx < array.desc.texel_size * array.width) (inside' : ny < array.height)
    (within : fetch.byte array < array.desc.texel_size) :
    fetch.Right array ↔
      (nx : Int) = fetch.byte array +
          array.desc.texel_size * fetch.modeX.select (fetch.column array) array.width ∧
        (ny : Int) = fetch.modeY.select fetch.row array.height := by
  rw [Right, found, Option.some_inj]
  exact array.address_eq_texel_iff inside inside' (select_mem array.width_pos _ _)
    (select_mem array.height_pos _ _) within

theorem texel_eq_iff {c : Nat} {x : Int} :
    ((array.desc.texel_size * c : Nat) : Int) = (0 : Nat) + array.desc.texel_size * x ↔
      (c : Int) = x := by
  have unit : (array.desc.texel_size : Int) ≠ 0 := by exact_mod_cast array.texel_pos.ne'
  rw [Nat.cast_mul, Nat.cast_zero, zero_add]
  exact mul_right_inj' unit

theorem oneD_right_iff (addressMode : TextureAddressMode) (x : BitVec 32) :
    (oneD addressMode x).Right array ↔ (oneD addressMode x).Covered array := by
  have inside := coordinate1D_lt array.width_pos array.width_lt addressMode x
  have row : ((0 : Nat) : Int) = addressMode.select 0 array.height := by
    have := array.height_pos
    cases addressMode with
    | cudaAddressModeClamp =>
      simp only [TextureAddressMode.select]
      omega
    | cudaAddressModeWrap => exact (Int.zero_emod _).symm
  have found : (oneD addressMode x).address array = _ :=
    congrArg some (array.tex1D_eq addressMode x)
  rw [right_iff found (Nat.mul_lt_mul_of_pos_left inside array.texel_pos) array.height_pos
    array.texel_pos]
  exact (and_iff_left row).trans ((texel_eq_iff array).trans
    (coordinate1D_iff array.width_pos array.width_lt addressMode x))

theorem twoD_right_iff (addressMode0 addressMode1 : TextureAddressMode) (x y : BitVec 32) :
    (twoD addressMode0 addressMode1 x y).Right array ↔
      (twoD addressMode0 addressMode1 x y).Covered array := by
  have inside := coordinate2D_lt array.width_pos array.width_lt addressMode0 x
  have inside' := coordinate2D_lt array.height_pos array.height_lt addressMode1 y
  have found : (twoD addressMode0 addressMode1 x y).address array = _ :=
    congrArg some (array.tex2D_eq addressMode0 addressMode1 x y)
  rw [right_iff found (Nat.mul_lt_mul_of_pos_left inside array.texel_pos) inside' array.texel_pos]
  exact and_congr
    ((texel_eq_iff array).trans (coordinate2D_iff array.width_pos array.width_lt addressMode0 x))
    (coordinate2D_iff array.height_pos array.height_lt addressMode1 y)

theorem byte_add_column (addressMode0 : TextureAddressMode) (x y : BitVec 32) (right below : Bool) :
    let fetch := bilinear addressMode0 x y right below
    (fetch.byte array : Int) + array.desc.texel_size * fetch.column array =
      x.toInt + array.desc.texel_size * right.toNat := by
  have unit : (array.desc.texel_size : Int) ≠ 0 := by exact_mod_cast array.texel_pos.ne'
  simp only [byte, column, Int.toNat_of_nonneg (Int.emod_nonneg _ unit)]
  have := Int.emod_add_mul_ediv x.toInt array.desc.texel_size
  calc _ = x.toInt % array.desc.texel_size +
        array.desc.texel_size * (x.toInt / array.desc.texel_size) +
        array.desc.texel_size * right.toNat := by ring
    _ = _ := by rw [this]

theorem byte_lt (addressMode0 : TextureAddressMode) (x y : BitVec 32) (right below : Bool) :
    (bilinear addressMode0 x y right below).byte array < array.desc.texel_size := by
  have positive : (0 : Int) < array.desc.texel_size := by exact_mod_cast array.texel_pos
  have := Int.emod_lt_of_pos x.toInt positive
  have := Int.emod_nonneg x.toInt positive.ne'
  simp only [byte]
  omega

theorem bilinear_right_iff (addressMode0 : TextureAddressMode) (x y : BitVec 32)
    (right below : Bool) :
    (bilinear addressMode0 x y right below).Right array ↔
      (bilinear addressMode0 x y right below).Covered array := by
  have byteColumn := byte_add_column array addressMode0 x y right below
  have within := byte_lt array addressMode0 x y right below
  have unsigned := toNat_moved x array.desc.texel_size right
  have unsigned' := toNat_moved y 1 below
  have small := array.texel_size_lt
  have narrow := array.row_lt
  have low := array.height_lt
  have columns := array.width_pos
  have rows := array.height_pos
  have near : right.toNat ≤ 1 := right.toNat_le
  have near' : below.toNat ≤ 1 := below.toNat_le
  have bounds : -2 ^ 31 ≤ x.toInt + array.desc.texel_size * right.toNat ∧
      x.toInt + array.desc.texel_size * right.toNat < 2 ^ 32 := by
    have sign := toInt_cases x
    have shift : array.desc.texel_size * right.toNat ≤ array.desc.texel_size :=
      (Nat.mul_le_mul_left _ near).trans_eq (Nat.mul_one _)
    have shift' : (array.desc.texel_size : Int) * right.toNat =
      (array.desc.texel_size * right.toNat : Nat) := (Nat.cast_mul _ _).symm
    omega
  have bounds' : -2 ^ 31 ≤ y.toInt + below.toNat ∧ y.toInt + below.toNat ≤ 2 ^ 31 := by
    have sign := toInt_cases y
    omega
  rw [← byteColumn] at unsigned bounds
  rw [Nat.cast_one, one_mul] at unsigned'
  cases addressMode0 with
  | cudaAddressModeClamp =>
    obtain ⟨nx, ny, run, inside, inside', rfl, rfl⟩ := clamp_spec array.texel_pos columns rows
      narrow low (if right then x + array.texel_size else x) (if below then y + 1 else y)
    have found : (bilinear .cudaAddressModeClamp x y right below).address array = _ :=
      array.tex_linf_sampling_eq .cudaAddressModeClamp run
    rw [right_iff found inside inside' within]
    exact and_congr (clamp_column_iff columns small within bounds.1 bounds.2 unsigned)
      (clamp_row_iff rows low bounds'.1 bounds'.2 unsigned')
  | cudaAddressModeWrap =>
    obtain ⟨nx, ny, run, inside, inside', rfl, rfl⟩ := wrap_spec array.texel_pos columns rows
      narrow low (if right then x + array.texel_size else x) (if below then y + 1 else y)
    have found : (bilinear .cudaAddressModeWrap x y right below).address array = _ :=
      array.tex_linf_sampling_eq .cudaAddressModeWrap run
    rw [right_iff found inside inside' within]
    exact and_congr (wrap_column_iff columns narrow small within bounds.1 bounds.2 unsigned)
      (wrap_row_iff low bounds'.1 bounds'.2 unsigned')

/-- A fetch reads the texel that the addressing modes select exactly when its coordinates are
    covered. -/
theorem right_iff_covered (fetch : Fetch) : fetch.Right array ↔ fetch.Covered array := by
  cases fetch with
  | oneD addressMode x => exact oneD_right_iff array addressMode x
  | twoD addressMode0 addressMode1 x y => exact twoD_right_iff array addressMode0 addressMode1 x y
  | bilinear addressMode0 x y right below =>
    exact bilinear_right_iff array addressMode0 x y right below

end Fetch

/-- Texels of four bytes. -/
def oneChannel : ChannelFormatDesc := ⟨32, 0, 0, 0, by decide⟩

theorem oneChannel_pos : 0 < oneChannel.texel_size := by decide

def twoTexels : CudaArray where
  devPtr32 := 0x80000000
  desc := oneChannel
  width := 2
  height := 1
  texel_pos := oneChannel_pos
  width_pos := Nat.two_pos
  height_pos := Nat.one_pos
  width_lt := by decide
  height_lt := by decide
  size_lt := by decide

/-- The texel on the left of the array is clamped to the one on the right. -/
theorem left_of_array_not_right :
    ¬ ∀ (array : CudaArray) (fetch : Fetch), fetch.Right array := by
  intro right
  have covered := (Fetch.oneD_right_iff twoTexels .cudaAddressModeClamp (-1)).mp
    (right twoTexels _)
  rcases covered with signed | nonneg | single
  · exact Bool.false_ne_true signed
  · revert nonneg
    decide
  · revert single
    decide

end AesOnGpu.Texture
