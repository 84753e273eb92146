import AesOnGpu.Texture.Coordinates

/-! # Tiled textures

`gpgpu_ptx_sim_bindTextureToArray` derives tiles from the line size of the texture cache, and
`tex_impl` gives the timing model addresses at which a tile has 64 bytes for itself.  Rows of
tiles are counted by the width of the array over the width of a tile, not rounded up.
-/

namespace AesOnGpu.Texture

open Digits

/-! ## The code -/

def intLOGB2 (v : BitVec 32) : BitVec 32 :=
  let r : BitVec 32 := 0
  let shift : BitVec 32 := (if v &&& 0xFFFF0000 ≠ 0 then 1 else 0) <<< 4
  let v := v >>> shift
  let r := r ||| shift
  let shift : BitVec 32 := (if v &&& 0xFF00 ≠ 0 then 1 else 0) <<< 3
  let v := v >>> shift
  let r := r ||| shift
  let shift : BitVec 32 := (if v &&& 0xF0 ≠ 0 then 1 else 0) <<< 2
  let v := v >>> shift
  let r := r ||| shift
  let shift : BitVec 32 := (if v &&& 0xC ≠ 0 then 1 else 0) <<< 1
  let v := v >>> shift
  let r := r ||| shift
  let shift : BitVec 32 := (if v &&& 0x2 ≠ 0 then 1 else 0) <<< 0
  r ||| shift

/-- `textureInfo`; the numbers are small. -/
structure TextureInfo where
  Tx : Nat
  Ty : Nat
  Tx_numbits : Nat
  Ty_numbits : Nat
  texel_size : Nat
  texel_size_numbits : Nat

/-- The base size for a line size; another line size fails an assertion. -/
def baseTx : Nat → Option Nat
  | 16 => some 4
  | 32 => some 8
  | 64 => some 8
  | 128 => some 16
  | 256 => some 16
  | _ => none

/-- The loop that takes the size of each texel into account. -/
def modifyTx (Tx r : Nat) : Nat := if r = 0 then Tx else modifyTx (Tx >>> 1) (r >>> 2)
termination_by r
decreasing_by
  rw [Nat.shiftRight_eq_div_pow]
  omega

def numbits (n : Nat) : Nat := (intLOGB2 (BitVec.ofNat 32 n)).toNat

def gpgpu_ptx_sim_bindTextureToArray (linesize : Nat) (array : CudaArray) :
    Option TextureInfo := do
  let texel_size := array.desc.texel_size
  let base ← baseTx linesize
  let Tx := modifyTx base (texel_size >>> 2)
  -- a division by zero
  if Tx * texel_size = 0 then none
  else
    let Ty := linesize / (Tx * texel_size)
    return { Tx, Ty, Tx_numbits := numbits Tx, Ty_numbits := numbits Ty, texel_size
             texel_size_numbits := numbits texel_size }

/-- The timing address of a fetch in two dimensions, `m_last_effective_address`.  `x` is in
    bytes, `x` and `y` are `int`s. -/
def tex_impl (array : CudaArray) (texInfo : TextureInfo) (x y : BitVec 32) : Option MemAddr :=
  -- a division by zero
  if texInfo.Tx = 0 ∨ texInfo.Ty = 0 then none
  else
    let x_block_coord := x.sshiftRight (texInfo.Tx_numbits + texInfo.texel_size_numbits)
    let y_block_coord := y.sshiftRight texInfo.Ty_numbits
    -- the tile sizes are unsigned, and so are the quotient and the remainders
    let memreqindex := (y_block_coord * BitVec.ofNat 32 array.width / BitVec.ofNat 32 texInfo.Tx +
      x_block_coord) <<< 6
    let blockoffset := x % BitVec.ofNat 32 (texInfo.Tx * texInfo.texel_size) +
      (y % BitVec.ofNat 32 texInfo.Ty) <<< (texInfo.Tx_numbits + texInfo.texel_size_numbits)
    some (array.devPtr32 + (memreqindex + blockoffset))

/-! ## What it is for -/

@[ext]
structure Texel (array : CudaArray) where
  x : Nat
  y : Nat
  x_lt : x < array.width
  y_lt : y < array.height

namespace Texel

variable {array : CudaArray}

/-- The address for a texel; its byte coordinate is the one that the functional part uses. -/
def timingAddress (texInfo : TextureInfo) (texel : Texel array) : Option MemAddr :=
  tex_impl array texInfo (BitVec.ofNat 32 (array.desc.texel_size * texel.x))
    (BitVec.ofNat 32 texel.y)

def SameTile (texInfo : TextureInfo) (p q : Texel array) : Prop :=
  p.x / texInfo.Tx = q.x / texInfo.Tx ∧ p.y / texInfo.Ty = q.y / texInfo.Ty

end Texel

def SameLine (linesize : Nat) (a b : MemAddr) : Prop := a.toNat / linesize = b.toNat / linesize

/-- Texels have addresses of their own, and the lines of the cache are the tiles. -/
def BoundRight (linesize : Nat) (array : CudaArray) (texInfo : TextureInfo) : Prop :=
  ∀ p q : Texel array, ∃ a b,
    p.timingAddress texInfo = some a ∧ q.timingAddress texInfo = some b ∧
      (a = b → p = q) ∧ (SameLine linesize a b ↔ p.SameTile texInfo q)

def TilesRight (linesize : Nat) (array : CudaArray) : Prop :=
  ∃ texInfo, gpgpu_ptx_sim_bindTextureToArray linesize array = some texInfo ∧
    BoundRight linesize array texInfo

/-- The tiles that cover a number of texels. -/
def tilesFor (n T : Nat) : Nat := (n + (T - 1)) / T

/-- There is one tile only; or no line is longer than the 64 bytes for a tile, the rows of tiles
    are whole or there is only one row, and the tiles fit into the address space. -/
def Tileable (linesize : Nat) (array : CudaArray) : Prop :=
  ∃ texInfo, gpgpu_ptx_sim_bindTextureToArray linesize array = some texInfo ∧ 0 < texInfo.Ty ∧
    (array.width ≤ texInfo.Tx ∧ array.height ≤ texInfo.Ty ∨
      linesize ≤ 64 ∧ (texInfo.Tx ∣ array.width ∨ array.height ≤ texInfo.Ty) ∧
        tilesFor array.width texInfo.Tx * tilesFor array.height texInfo.Ty ≤ 2 ^ 26)

/-! ## The shape of a tile -/

theorem modifyTx_two_pow (Tx t : Nat) : modifyTx Tx (2 ^ t >>> 2) = Tx >>> (t / 2) := by
  induction t using Nat.strong_induction_on generalizing Tx with
  | _ t ih =>
    rw [Nat.shiftRight_eq_div_pow]
    rcases Nat.lt_or_ge t 2 with small | large
    · have : t = 0 ∨ t = 1 := by omega
      rcases this with rfl | rfl <;> simp [modifyTx]
    · obtain ⟨s, rfl⟩ := Nat.exists_eq_add_of_le' large
      have turn : 2 ^ (s + 2) / 2 ^ 2 = 2 ^ s := by
        rw [pow_add, Nat.mul_div_cancel _ (by positivity)]
      have turns : (s + 2) / 2 = 1 + s / 2 := by omega
      rw [turn, modifyTx, if_neg (by positivity), ih s (by omega), turns, Nat.shiftRight_add]

theorem numbits_two_pow {k : Nat} (small : k < 32) : numbits (2 ^ k) = k := by
  have table : ∀ k : Fin 32, (intLOGB2 (BitVec.ofNat 32 (2 ^ k.val))).toNat = k := by decide
  exact table ⟨k, small⟩

theorem baseTx_spec {linesize base : Nat} (accepted : baseTx linesize = some base) :
    ∃ l k, l ≤ 8 ∧ k ≤ l ∧ linesize = 2 ^ l ∧ base = 2 ^ k := by
  rw [baseTx.eq_def] at accepted
  split at accepted
  · exact ⟨4, 2, by decide, by decide, rfl, (Option.some.inj accepted).symm⟩
  · exact ⟨5, 3, by decide, by decide, rfl, (Option.some.inj accepted).symm⟩
  · exact ⟨6, 3, by decide, by decide, rfl, (Option.some.inj accepted).symm⟩
  · exact ⟨7, 4, by decide, by decide, rfl, (Option.some.inj accepted).symm⟩
  · exact ⟨8, 4, by decide, by decide, rfl, (Option.some.inj accepted).symm⟩
  · cases accepted

/-- The three sizes are powers of two of which the product is the line size. -/
structure Shape (linesize : Nat) (texInfo : TextureInfo) (a b t : Nat) : Prop where
  Tx : texInfo.Tx = 2 ^ a
  Ty : texInfo.Ty = 2 ^ b
  texel_size : texInfo.texel_size = 2 ^ t
  Tx_numbits : texInfo.Tx_numbits = a
  Ty_numbits : texInfo.Ty_numbits = b
  texel_size_numbits : texInfo.texel_size_numbits = t
  line : linesize = 2 ^ (a + t + b)
  small : a + t + b ≤ 8

theorem exists_shape {linesize t : Nat} {array : CudaArray} {texInfo : TextureInfo}
    (power : array.desc.texel_size = 2 ^ t)
    (bound : gpgpu_ptx_sim_bindTextureToArray linesize array = some texInfo)
    (positive : 0 < texInfo.Ty) : ∃ a b, Shape linesize texInfo a b t := by
  obtain ⟨base, accepted, rest⟩ := Option.bind_eq_some_iff.mp bound
  obtain ⟨l, k, bits, below, rfl, rfl⟩ := baseTx_spec accepted
  rw [power, modifyTx_two_pow] at rest
  dsimp only at rest
  split at rest
  · cases rest
  · rename_i nonzero
    obtain rfl := Option.some.inj rest
    dsimp only at positive
    have turns : t / 2 ≤ k := by
      by_contra more
      have gone : 2 ^ k >>> (t / 2) = 0 := by
        rw [Nat.shiftRight_eq_div_pow]
        exact Nat.div_eq_of_lt (Nat.pow_lt_pow_right (by decide) (by omega))
      exact nonzero (by rw [gone, Nat.zero_mul])
    have Tx : 2 ^ k >>> (t / 2) = 2 ^ (k - t / 2) := by
      rw [Nat.shiftRight_eq_div_pow, Nat.pow_div turns (by decide)]
    rw [Tx, ← pow_add] at positive ⊢
    have fits : k - t / 2 + t ≤ l := by
      by_contra more
      rw [Nat.div_eq_of_lt (Nat.pow_lt_pow_right (by decide) (by omega))] at positive
      exact absurd positive (lt_irrefl 0)
    have Ty : 2 ^ l / 2 ^ (k - t / 2 + t) = 2 ^ (l - (k - t / 2 + t)) :=
      Nat.pow_div fits (by decide)
    rw [Ty]
    exact ⟨k - t / 2, l - (k - t / 2 + t), rfl, rfl, rfl, numbits_two_pow (by omega),
      numbits_two_pow (by omega), numbits_two_pow (by omega), by congr 1; omega, by omega⟩

/-! ## Addresses as numbers -/

/-- The number of a tile, before it is cut to the address space. -/
def tile (array : CudaArray) (texInfo : TextureInfo) (x y : Nat) : Nat :=
  y / texInfo.Ty * array.width / texInfo.Tx + x / texInfo.Tx

def blockOffset (texInfo : TextureInfo) (x y : Nat) : Nat :=
  texInfo.texel_size * (x % texInfo.Tx) + texInfo.texel_size * texInfo.Tx * (y % texInfo.Ty)

theorem add_sshiftRight_shiftLeft {n : Nat} (A : Nat) (x : BitVec 32)
    (signs : n ≤ 6 ∨ x.toNat < 2 ^ 31) :
    (BitVec.ofNat 32 A + x.sshiftRight n) <<< 6 = BitVec.ofNat 32 (64 * (A + x.toNat / 2 ^ n)) := by
  have shifted : x.sshiftRight n = BitVec.ofInt 32 (x.toInt / 2 ^ n) := by
    have value := BitVec.toInt_sshiftRight (x := x) (n := n)
    rw [Int.shiftRight_eq_div_pow] at value
    rw [← BitVec.ofInt_toInt (x := x.sshiftRight n), value]
    norm_cast
  have scaled : BitVec.twoPow 32 6 = BitVec.ofInt 32 64 := by decide
  rw [shifted, BitVec.shiftLeft_eq_mul_twoPow, scaled, ← BitVec.ofInt_natCast 32 A,
    ← BitVec.ofInt_add, ← BitVec.ofInt_mul, ← BitVec.ofInt_natCast 32 (64 * _), Words.ofInt_inj]
  rcases toInt_cases x with ⟨small, signed⟩ | ⟨large, signed⟩
  · rw [signed]
    push_cast
    rw [mul_comm]
  · have fewer : n ≤ 6 := by omega
    have word : (2 : Int) ^ 32 = 2 ^ n * 2 ^ (32 - n) := by
      rw [← pow_add]
      congr 1
      omega
    have quotient : x.toInt / 2 ^ n = x.toNat / 2 ^ n - 2 ^ (32 - n) := by
      rw [signed, word, Int.sub_mul_ediv_left _ _ (by positivity)]
    have lost : (64 : Int) * 2 ^ (32 - n) = 2 ^ 32 * 2 ^ (6 - n) := by
      rw [show (64 : Int) = 2 ^ 6 by norm_num, ← pow_add, ← pow_add]
      congr 1
      omega
    refine Int.modEq_iff_dvd.mpr ⟨2 ^ (6 - n), ?_⟩
    rw [quotient, ← lost]
    push_cast
    ring

section

variable {linesize t a b : Nat} {array : CudaArray} {texInfo : TextureInfo}
  (power : array.desc.texel_size = 2 ^ t) (shape : Shape linesize texInfo a b t)

include power shape in
theorem texel_size_eq : texInfo.texel_size = array.desc.texel_size :=
  shape.texel_size.trans power.symm

theorem row_word (y : Nat) (small : y < 2 ^ 31) :
    (BitVec.ofNat 32 y).sshiftRight b = BitVec.ofNat 32 (y / 2 ^ b) := by
  have y' : (BitVec.ofNat 32 y).toNat = y := Nat.mod_eq_of_lt (by omega)
  have nonneg : (BitVec.ofNat 32 y).msb = false := by
    rw [BitVec.msb_eq_false_iff_two_mul_lt, y']
    omega
  have less := Nat.div_le_self y (2 ^ b)
  rw [BitVec.sshiftRight_eq_of_msb_false nonneg]
  apply BitVec.eq_of_toNat_eq
  rw [BitVec.toNat_ushiftRight, y', Nat.shiftRight_eq_div_pow, BitVec.toNat_ofNat,
    Nat.mod_eq_of_lt (by omega)]

theorem tiles_word {r T : Nat} (inside : r < array.height) (small : T < 2 ^ 32) :
    BitVec.ofNat 32 r * BitVec.ofNat 32 array.width / BitVec.ofNat 32 T =
      BitVec.ofNat 32 (r * array.width / T) := by
  have product : r * array.width < 2 ^ 32 :=
    calc r * array.width ≤ array.height * array.width := Nat.mul_le_mul_right _ inside.le
      _ = array.width * array.height := Nat.mul_comm _ _
      _ ≤ array.desc.texel_size * (array.width * array.height) :=
          Nat.le_mul_of_pos_left _ array.texel_pos
      _ < 2 ^ 32 := by rw [← Nat.mul_assoc]; exact array.size_lt
  have quotient := Nat.div_le_self (r * array.width) T
  apply BitVec.eq_of_toNat_eq
  rw [← BitVec.ofNat_mul, BitVec.toNat_udiv, BitVec.toNat_ofNat, BitVec.toNat_ofNat,
    BitVec.toNat_ofNat, Nat.mod_eq_of_lt product, Nat.mod_eq_of_lt small,
    Nat.mod_eq_of_lt (by omega)]

include shape in
theorem tile_bytes : texInfo.texel_size * texInfo.Tx = 2 ^ (a + t) := by
  rw [shape.texel_size, shape.Tx, pow_add, mul_comm]

include power shape in
theorem block_word {x y : Nat} (xWord : array.desc.texel_size * x < 2 ^ 32) (yWord : y < 2 ^ 32) :
    BitVec.ofNat 32 (array.desc.texel_size * x) %
        BitVec.ofNat 32 (texInfo.Tx * texInfo.texel_size) +
      (BitVec.ofNat 32 y % BitVec.ofNat 32 texInfo.Ty) <<< (a + t) =
        BitVec.ofNat 32 (blockOffset texInfo x y) := by
  have size := texel_size_eq power shape
  have bytes := tile_bytes shape
  have small := shape.small
  have tileWord : array.desc.texel_size * texInfo.Tx < 2 ^ 32 := by
    rw [← size, bytes]
    exact Nat.pow_lt_pow_right (by decide) (by omega)
  have rowsWord : texInfo.Ty < 2 ^ 32 := by
    rw [shape.Ty]
    exact Nat.pow_lt_pow_right (by decide) (by omega)
  have less : array.desc.texel_size * (x % texInfo.Tx) ≤ array.desc.texel_size * x :=
    Nat.mul_le_mul_left _ (Nat.mod_le _ _)
  rw [blockOffset, BitVec.ofNat_add]
  congr 1
  · apply BitVec.eq_of_toNat_eq
    rw [BitVec.toNat_umod, BitVec.toNat_ofNat, BitVec.toNat_ofNat, BitVec.toNat_ofNat,
      mul_comm texInfo.Tx, size, Nat.mod_eq_of_lt xWord, Nat.mod_eq_of_lt tileWord,
      Nat.mul_mod_mul_left, Nat.mod_eq_of_lt (lt_of_le_of_lt less xWord)]
  · apply BitVec.eq_of_toNat_eq
    rw [BitVec.toNat_shiftLeft, BitVec.toNat_umod, BitVec.toNat_ofNat, BitVec.toNat_ofNat,
      Nat.mod_eq_of_lt yWord, Nat.mod_eq_of_lt rowsWord, Nat.shiftLeft_eq, BitVec.toNat_ofNat,
      bytes, mul_comm]

include power shape in
/-- The address of a texel, unless its byte coordinate is negative as an `int` and a tile wider
    than 64 bytes. -/
theorem timingAddress_eq (texel : Texel array)
    (signs : a + t ≤ 6 ∨ array.desc.texel_size * texel.x < 2 ^ 31) :
    texel.timingAddress texInfo = some (array.devPtr32 + BitVec.ofNat 32
      (64 * tile array texInfo texel.x texel.y + blockOffset texInfo texel.x texel.y)) := by
  have y_lt := texel.y_lt
  have height_lt := array.height_lt
  have xWord : array.desc.texel_size * texel.x < 2 ^ 32 :=
    lt_trans (Nat.mul_lt_mul_of_pos_left texel.x_lt array.texel_pos) array.row_lt
  have x' : (BitVec.ofNat 32 (array.desc.texel_size * texel.x)).toNat =
      array.desc.texel_size * texel.x := Nat.mod_eq_of_lt xWord
  have nonzero : ¬ (texInfo.Tx = 0 ∨ texInfo.Ty = 0) := by
    rw [shape.Tx, shape.Ty]
    simp
  have column : array.desc.texel_size * texel.x / 2 ^ (a + t) = texel.x / texInfo.Tx := by
    rw [power, shape.Tx, pow_add, mul_comm (2 ^ a)]
    exact Nat.mul_div_mul_left _ _ (by positivity)
  have small : texInfo.Tx < 2 ^ 32 := by
    have := shape.small
    rw [shape.Tx]
    exact Nat.pow_lt_pow_right (by decide) (by omega)
  have inside : texel.y / texInfo.Ty < array.height := lt_of_le_of_lt (Nat.div_le_self _ _) y_lt
  have signs' : a + t ≤ 6 ∨
      (BitVec.ofNat 32 (array.desc.texel_size * texel.x)).toNat < 2 ^ 31 := by rwa [x']
  rw [Texel.timingAddress, tex_impl, if_neg nonzero]
  simp only [shape.Tx_numbits, shape.Ty_numbits, shape.texel_size_numbits]
  rw [row_word _ (by omega), ← shape.Ty, tiles_word inside small,
    add_sshiftRight_shiftLeft _ _ signs', x', column, block_word power shape xWord (by omega),
    ← BitVec.ofNat_add]
  rfl

end

/-! ## Tiles by their numbers -/

section

variable {n T c : Nat}

theorem lt_tilesFor (positive : 0 < T) : c < tilesFor n T ↔ c * T < n := by
  rw [tilesFor, Nat.lt_iff_add_one_le, Nat.le_div_iff_mul_le positive, Nat.succ_mul]
  omega

theorem div_lt_tilesFor (positive : 0 < T) (inside : c < n) : c / T < tilesFor n T :=
  (lt_tilesFor positive).mpr (lt_of_le_of_lt (Nat.div_mul_le_self c T) inside)

theorem tilesFor_of_dvd (positive : 0 < T) (whole : T ∣ n) : n = T * tilesFor n T := by
  obtain ⟨k, rfl⟩ := whole
  have count : tilesFor (T * k) T = k := by
    rw [tilesFor, Nat.mul_add_div positive, Nat.div_eq_of_lt (by omega), Nat.add_zero]
  rw [count]

theorem tilesFor_of_le (positive : 0 < n) (single : n ≤ T) : tilesFor n T = 1 := by
  rw [tilesFor, Nat.div_eq_of_lt_le] <;> omega

end

section

variable {w h Tx Ty M : Nat} (columns : 0 < Tx) (rows : 0 < Ty)

include columns in
theorem tile_digits (whole : Tx ∣ w ∨ h ≤ Ty) {c y : Nat} (inside : y < h) :
    y / Ty * w / Tx + c = c + tilesFor w Tx * (y / Ty) := by
  rcases whole with divides | single
  · have width := tilesFor_of_dvd columns divides
    calc y / Ty * w / Tx + c = Tx * (tilesFor w Tx * (y / Ty)) / Tx + c := by
          rw [← Nat.mul_assoc, ← width, Nat.mul_comm w]
      _ = c + tilesFor w Tx * (y / Ty) := by rw [Nat.mul_div_cancel_left _ columns, Nat.add_comm]
  · rw [Nat.div_eq_of_lt (lt_of_lt_of_le inside single)]
    simp

include columns rows in
theorem tile_injective_iff (positive : 0 < w) (positive' : 0 < h) (space : 0 < M) :
    (∀ x < w, ∀ y < h, ∀ x' < w, ∀ y' < h,
        y / Ty * w / Tx + x / Tx ≡ y' / Ty * w / Tx + x' / Tx [MOD M] →
          x / Tx = x' / Tx ∧ y / Ty = y' / Ty) ↔
      (Tx ∣ w ∨ h ≤ Ty) ∧ tilesFor w Tx * tilesFor h Ty ≤ M := by
  constructor
  · intro injective
    have whole : Tx ∣ w ∨ h ≤ Ty := by
      by_contra! cut
      -- the last tile of the first row has the number of the first one of the second row
      have last : w / Tx * Tx < w := by
        have := Nat.div_mul_le_self w Tx
        rcases Nat.lt_or_eq_of_le this with less | whole
        · exact less
        · exact absurd (Dvd.intro_left _ whole) cut.1
      have rows := (injective (w / Tx * Tx) last 0 positive' 0 positive Ty cut.2
        (by simp [Nat.div_self rows, Nat.mul_div_cancel _ columns, Nat.ModEq])).2
      rw [Nat.zero_div, Nat.div_self ‹0 < Ty›] at rows
      omega
    refine ⟨whole, ?_⟩
    by_contra! many
    -- the tile with the number `M` is taken for the first one
    have row : M / tilesFor w Tx < tilesFor h Ty := Nat.div_lt_of_lt_mul many
    have column : M % tilesFor w Tx < tilesFor w Tx := Nat.mod_lt _ <| by
      rw [lt_tilesFor columns]
      omega
    have same := injective 0 positive 0 positive' (M % tilesFor w Tx * Tx)
      ((lt_tilesFor columns).mp column) (M / tilesFor w Tx * Ty) ((lt_tilesFor rows).mp row) (by
        rw [tile_digits columns whole ((lt_tilesFor rows).mp row),
          Nat.mul_div_cancel _ columns, Nat.mul_div_cancel _ rows, Nat.mod_add_div]
        simp [Nat.ModEq])
    rw [Nat.zero_div, Nat.zero_div, Nat.mul_div_cancel _ columns, Nat.mul_div_cancel _ rows] at same
    have := Nat.mod_add_div M (tilesFor w Tx)
    rw [← same.1, ← same.2] at this
    omega
  · rintro ⟨whole, few⟩ x xInside y yInside x' xInside' y' yInside' same
    rw [tile_digits columns whole yInside, tile_digits columns whole yInside'] at same
    have below {x y : Nat} (xInside : x < w) (yInside : y < h) :
        x / Tx + tilesFor w Tx * (y / Ty) < M :=
      lt_of_lt_of_le (pair_lt (div_lt_tilesFor columns xInside) (div_lt_tilesFor rows yInside)) few
    have digits := Nat.ModEq.eq_of_lt_of_lt same (below xInside yInside) (below xInside' yInside')
    exact (pair_inj (div_lt_tilesFor columns xInside) (div_lt_tilesFor columns xInside')).mp digits

end

/-! ## Lines -/

section

variable {base : MemAddr} {n n' l : Nat}

theorem offset_eq_iff :
    base + BitVec.ofNat 32 n = base + BitVec.ofNat 32 n' ↔ n ≡ n' [MOD 2 ^ 32] := by
  rw [add_right_inj, ← BitVec.toNat_inj, BitVec.toNat_ofNat, BitVec.toNat_ofNat]
  exact Iff.rfl

theorem line_of_offset (aligned : 2 ^ l ∣ base.toNat) (short : l ≤ 32) :
    (base + BitVec.ofNat 32 n).toNat / 2 ^ l =
      (base.toNat / 2 ^ l + n / 2 ^ l) % 2 ^ (32 - l) := by
  have word : 2 ^ 32 = 2 ^ l * 2 ^ (32 - l) := by
    rw [← pow_add]
    congr 1
    omega
  obtain ⟨q, quotient⟩ := aligned
  rw [BitVec.toNat_add, BitVec.toNat_ofNat, Nat.add_mod_mod, word, Nat.mod_mul_right_div_self,
    quotient, Nat.mul_add_div (by positivity), Nat.mul_div_cancel_left _ (by positivity)]

theorem sameLine_iff (aligned : 2 ^ l ∣ base.toNat) (short : l ≤ 32) :
    SameLine (2 ^ l) (base + BitVec.ofNat 32 n) (base + BitVec.ofNat 32 n') ↔
      n / 2 ^ l ≡ n' / 2 ^ l [MOD 2 ^ (32 - l)] := by
  rw [SameLine, line_of_offset aligned short, line_of_offset aligned short]
  exact Nat.ModEq.add_iff_left rfl

end

/-! ## Tiles and lines -/

section

variable {linesize t a b : Nat} {array : CudaArray} {texInfo : TextureInfo}
  (power : array.desc.texel_size = 2 ^ t) (shape : Shape linesize texInfo a b t)
  (aligned : 256 ∣ array.devPtr32.toNat)

include shape in
theorem tile_pos : 0 < texInfo.Tx ∧ 0 < texInfo.Ty ∧ 0 < texInfo.texel_size := by
  rw [shape.Tx, shape.Ty, shape.texel_size]
  exact ⟨by positivity, by positivity, by positivity⟩

include shape in
theorem blockOffset_lt (x y : Nat) : blockOffset texInfo x y < 2 ^ (a + t + b) := by
  obtain ⟨Tx, Ty, texel⟩ := tile_pos shape
  rw [pow_add, ← tile_bytes shape, ← shape.Ty]
  exact pair_lt (Nat.mul_lt_mul_of_pos_left (Nat.mod_lt _ Tx) texel) (Nat.mod_lt _ Ty)

include shape in
theorem eq_of_blockOffset {p q : Texel array} (same : p.SameTile texInfo q)
    (block : blockOffset texInfo p.x p.y = blockOffset texInfo q.x q.y) : p = q := by
  obtain ⟨Tx, Ty, texel⟩ := tile_pos shape
  obtain ⟨column, row⟩ := (pair_inj (Nat.mul_lt_mul_of_pos_left (Nat.mod_lt _ Tx) texel)
    (Nat.mul_lt_mul_of_pos_left (Nat.mod_lt _ Tx) texel)).mp block
  have column' := Nat.eq_of_mul_eq_mul_left texel column
  ext
  · rw [← Nat.div_add_mod p.x texInfo.Tx, same.1, column', Nat.div_add_mod]
  · rw [← Nat.div_add_mod p.y texInfo.Ty, same.2, row, Nat.div_add_mod]

theorem SameTile.tile_eq {p q : Texel array} (same : p.SameTile texInfo q) :
    tile array texInfo p.x p.y = tile array texInfo q.x q.y := by
  rw [tile, tile, same.1, same.2]

include shape aligned in
theorem line_dvd : 2 ^ (a + t + b) ∣ array.devPtr32.toNat :=
  (Nat.pow_dvd_pow 2 shape.small).trans aligned

include power shape aligned in
/-- A line of up to 64 bytes is a piece of the 64 bytes for a tile, which the tile's number cut
    to 26 bits tells. -/
theorem boundRight_iff_of_short (short : a + t + b ≤ 6) :
    BoundRight linesize array texInfo ↔ ∀ p q : Texel array,
      tile array texInfo p.x p.y ≡ tile array texInfo q.x q.y [MOD 2 ^ 26] →
        p.SameTile texInfo q := by
  have address (p : Texel array) := timingAddress_eq power shape p (.inl (by omega))
  have block (p : Texel array) := blockOffset_lt shape p.x p.y
  have slot : 64 = 2 ^ (a + t + b) * 2 ^ (6 - (a + t + b)) := by
    rw [← pow_add, Nat.add_sub_cancel' short]
    rfl
  have within (p : Texel array) : blockOffset texInfo p.x p.y < 64 :=
    lt_of_lt_of_le (block p) (by rw [slot]; exact Nat.le_mul_of_pos_right _ (by positivity))
  have line (p q : Texel array) :
      SameLine linesize
          (array.devPtr32 + BitVec.ofNat 32 (64 * tile array texInfo p.x p.y +
            blockOffset texInfo p.x p.y))
          (array.devPtr32 + BitVec.ofNat 32 (64 * tile array texInfo q.x q.y +
            blockOffset texInfo q.x q.y)) ↔
        tile array texInfo p.x p.y ≡ tile array texInfo q.x q.y [MOD 2 ^ 26] := by
    have number (p : Texel array) : (64 * tile array texInfo p.x p.y +
        blockOffset texInfo p.x p.y) / 2 ^ (a + t + b) =
          2 ^ (6 - (a + t + b)) * tile array texInfo p.x p.y := by
      rw [slot, Nat.mul_assoc, Nat.mul_add_div (by positivity), Nat.div_eq_of_lt (block p),
        Nat.add_zero]
    have lines : 2 ^ (32 - (a + t + b)) = 2 ^ (6 - (a + t + b)) * 2 ^ 26 := by
      rw [← pow_add]
      congr 1
      omega
    rw [shape.line, sameLine_iff (line_dvd shape aligned) (by omega), number, number, lines]
    exact Nat.ModEq.mul_left_cancel_iff' (by positivity)
  constructor
  · intro right p q same
    obtain ⟨_, _, first, second, -, lines⟩ := right p q
    obtain rfl := Option.some.inj ((address p).symm.trans first)
    obtain rfl := Option.some.inj ((address q).symm.trans second)
    exact lines.mp ((line p q).mpr same)
  · intro injective p q
    refine ⟨_, _, address p, address q, fun same => ?_, ?_⟩
    · -- the place in the 64 bytes is a digit of its own
      have digits := offset_eq_iff.mp same
      have block : blockOffset texInfo p.x p.y = blockOffset texInfo q.x q.y := by
        have := digits.of_dvd (show 64 ∣ 2 ^ 32 by decide)
        simpa [Nat.ModEq, Nat.mul_add_mod, Nat.mod_eq_of_lt (within p),
          Nat.mod_eq_of_lt (within q)] using this
      have tiles := (line p q).mp (by rw [same]; exact rfl)
      exact eq_of_blockOffset shape (injective p q tiles) block
    · rw [line p q]
      exact ⟨injective p q, fun same => by rw [SameTile.tile_eq same]⟩

include shape power aligned in
theorem boundRight_of_single (width : array.width ≤ texInfo.Tx)
    (height : array.height ≤ texInfo.Ty) :
    BoundRight linesize array texInfo := by
  have column (p : Texel array) : p.x / texInfo.Tx = 0 :=
    Nat.div_eq_of_lt (lt_of_lt_of_le p.x_lt width)
  have row (p : Texel array) : p.y / texInfo.Ty = 0 :=
    Nat.div_eq_of_lt (lt_of_lt_of_le p.y_lt height)
  have all (p q : Texel array) : p.SameTile texInfo q := by
    rw [Texel.SameTile, column, column, row, row]
    exact ⟨rfl, rfl⟩
  have only (p : Texel array) : tile array texInfo p.x p.y = 0 := by
    rw [tile, column, row]
    simp
  have bytes : array.desc.texel_size * array.width ≤ 2 ^ (a + t) := by
    rw [← tile_bytes shape, texel_size_eq power shape]
    exact Nat.mul_le_mul_left _ width
  have small := shape.small
  have high : 2 ^ (a + t) ≤ 2 ^ 8 := Nat.pow_le_pow_right (by decide) (by omega)
  have address (p : Texel array) :
      p.timingAddress texInfo =
        some (array.devPtr32 + BitVec.ofNat 32 (blockOffset texInfo p.x p.y)) := by
    have less : array.desc.texel_size * p.x ≤ array.desc.texel_size * array.width :=
      Nat.mul_le_mul_left _ p.x_lt.le
    rw [timingAddress_eq power shape p (.inr (by omega)), only, Nat.mul_zero, Nat.zero_add]
  have block (p : Texel array) := blockOffset_lt shape p.x p.y
  have short : 2 ^ (a + t + b) ≤ 2 ^ 32 := Nat.pow_le_pow_right (by decide) (by omega)
  intro p q
  refine ⟨_, _, address p, address q, fun same => ?_, iff_of_true ?_ (all p q)⟩
  · have digits := offset_eq_iff.mp same
    exact eq_of_blockOffset shape (all p q) (Nat.ModEq.eq_of_lt_of_lt digits
      (lt_of_lt_of_le (block p) short) (lt_of_lt_of_le (block q) short))
  · rw [shape.line, sameLine_iff (line_dvd shape aligned) (by omega), Nat.div_eq_of_lt (block p),
      Nat.div_eq_of_lt (block q)]

include shape power aligned in
theorem single_of_boundRight (long : 6 < a + t + b) (right : BoundRight linesize array texInfo) :
    array.width ≤ texInfo.Tx ∧ array.height ≤ texInfo.Ty := by
  obtain ⟨Tx, Ty, texel⟩ := tile_pos shape
  have small := shape.small
  have bytes : array.desc.texel_size * texInfo.Tx < 2 ^ 31 := by
    rw [← texel_size_eq power shape, tile_bytes shape]
    exact Nat.pow_lt_pow_right (by decide) (by omega)
  have line : 64 < 2 ^ (a + t + b) :=
    lt_of_lt_of_le (by decide) (Nat.pow_le_pow_right (by decide) long : 2 ^ 7 ≤ _)
  -- the first texels of two tiles of which the numbers are not more than one apart
  have near {p q : Texel array} (px : array.desc.texel_size * p.x < 2 ^ 31)
      (qx : array.desc.texel_size * q.x < 2 ^ 31) (pBlock : blockOffset texInfo p.x p.y = 0)
      (qBlock : blockOffset texInfo q.x q.y = 0) (pTile : tile array texInfo p.x p.y ≤ 1)
      (qTile : tile array texInfo q.x q.y ≤ 1) : p.SameTile texInfo q := by
    obtain ⟨_, _, first, second, -, lines⟩ := right p q
    obtain rfl := Option.some.inj ((timingAddress_eq power shape p (.inr px)).symm.trans first)
    obtain rfl := Option.some.inj ((timingAddress_eq power shape q (.inr qx)).symm.trans second)
    refine lines.mp ?_
    rw [shape.line, sameLine_iff (line_dvd shape aligned) (by omega), pBlock, qBlock,
      Nat.div_eq_of_lt (by omega), Nat.div_eq_of_lt (by omega)]
  let origin : Texel array := ⟨0, 0, array.width_pos, array.height_pos⟩
  have originBlock : blockOffset texInfo origin.x origin.y = 0 := by simp [blockOffset, origin]
  have originTile : tile array texInfo origin.x origin.y ≤ 1 := by simp [tile, origin]
  have originBytes : array.desc.texel_size * origin.x < 2 ^ 31 := by simp [origin]
  have width : array.width ≤ texInfo.Tx := by
    by_contra! wide
    let next : Texel array := ⟨texInfo.Tx, 0, wide, array.height_pos⟩
    have same := (near (p := origin) (q := next) originBytes bytes originBlock
      (by simp [blockOffset, next]) originTile (by simp [tile, next, Nat.div_self Tx])).1
    simp [origin, next, Nat.div_self Tx] at same
  refine ⟨width, ?_⟩
  by_contra! high
  let next : Texel array := ⟨0, texInfo.Ty, array.width_pos, high⟩
  have number : array.width / texInfo.Tx ≤ 1 :=
    (Nat.div_le_div_right width).trans (Nat.div_self Tx).le
  have same := (near (p := origin) (q := next) originBytes originBytes originBlock
    (by simp [blockOffset, next]) originTile
    (by simpa [tile, next, Nat.div_self Ty] using number)).2
  simp [origin, next, Nat.div_self Ty] at same

end

theorem injective_texels_iff {array : CudaArray} {texInfo : TextureInfo} {M : Nat} :
    (∀ p q : Texel array, tile array texInfo p.x p.y ≡ tile array texInfo q.x q.y [MOD M] →
        p.SameTile texInfo q) ↔
      ∀ x < array.width, ∀ y < array.height, ∀ x' < array.width, ∀ y' < array.height,
        y / texInfo.Ty * array.width / texInfo.Tx + x / texInfo.Tx ≡
            y' / texInfo.Ty * array.width / texInfo.Tx + x' / texInfo.Tx [MOD M] →
          x / texInfo.Tx = x' / texInfo.Tx ∧ y / texInfo.Ty = y' / texInfo.Ty :=
  ⟨fun injective x xInside y yInside x' xInside' y' yInside' =>
    injective ⟨x, y, xInside, yInside⟩ ⟨x', y', xInside', yInside'⟩,
  fun injective p q => injective p.x p.x_lt p.y p.y_lt q.x q.x_lt q.y q.y_lt⟩

theorem boundRight_iff {linesize t : Nat} {array : CudaArray} {texInfo : TextureInfo}
    (power : array.desc.texel_size = 2 ^ t) (aligned : 256 ∣ array.devPtr32.toNat)
    (bound : gpgpu_ptx_sim_bindTextureToArray linesize array = some texInfo) :
    BoundRight linesize array texInfo ↔ 0 < texInfo.Ty ∧
      (array.width ≤ texInfo.Tx ∧ array.height ≤ texInfo.Ty ∨
        linesize ≤ 64 ∧ (texInfo.Tx ∣ array.width ∨ array.height ≤ texInfo.Ty) ∧
          tilesFor array.width texInfo.Tx * tilesFor array.height texInfo.Ty ≤ 2 ^ 26) := by
  rcases Nat.eq_zero_or_pos texInfo.Ty with zero | positive
  · -- the first fetch divides by zero
    refine iff_of_false (fun right => ?_) (by omega)
    obtain ⟨_, _, first, -⟩ := right ⟨0, 0, array.width_pos, array.height_pos⟩
      ⟨0, 0, array.width_pos, array.height_pos⟩
    rw [Texel.timingAddress, tex_impl, if_pos (.inr zero)] at first
    cases first
  · obtain ⟨a, b, shape⟩ := exists_shape power bound positive
    obtain ⟨Tx, Ty, -⟩ := tile_pos shape
    rcases Nat.lt_or_ge 6 (a + t + b) with long | short
    · have line : 64 < linesize := by
        rw [shape.line]
        exact lt_of_lt_of_le (by decide) (Nat.pow_le_pow_right (by decide) long : 2 ^ 7 ≤ _)
      constructor
      · exact fun right => ⟨positive, .inl (single_of_boundRight power shape aligned long right)⟩
      · rintro ⟨-, single | ⟨short, -⟩⟩
        · exact boundRight_of_single power shape aligned single.1 single.2
        · omega
    · have line : linesize ≤ 64 := by
        rw [shape.line]
        exact Nat.pow_le_pow_right (by decide) short
      refine (boundRight_iff_of_short power shape aligned short).trans ?_
      rw [injective_texels_iff, tile_injective_iff Tx Ty array.width_pos array.height_pos
        (by positivity)]
      constructor
      · exact fun tiles => ⟨positive, .inr ⟨line, tiles⟩⟩
      · rintro ⟨-, single | ⟨-, tiles⟩⟩
        · refine ⟨.inr single.2, ?_⟩
          rw [tilesFor_of_le array.width_pos single.1, tilesFor_of_le array.height_pos single.2]
          decide
        · exact tiles

/-- The lines of the texture cache are the tiles exactly when the array is tileable. -/
theorem tilesRight_iff {linesize t : Nat} {array : CudaArray}
    (power : array.desc.texel_size = 2 ^ t) (aligned : 256 ∣ array.devPtr32.toNat) :
    TilesRight linesize array ↔ Tileable linesize array :=
  exists_congr fun _ => and_congr_right (boundRight_iff power aligned)

def square (n : Nat) (positive : 0 < n) (small : n < 2 ^ 14) : CudaArray where
  devPtr32 := 0x80000000
  desc := oneChannel
  width := n
  height := n
  texel_pos := oneChannel_pos
  width_pos := positive
  height_pos := positive
  width_lt := by omega
  height_lt := by omega
  size_lt := by
    have : n * n < 2 ^ 14 * 2 ^ 14 := Nat.mul_lt_mul'' small small
    have size : (32 + 0 + 0 + 0) / 8 * n * n = 4 * (n * n) := by ring
    have size' : oneChannel.texel_size * n * n = 4 * (n * n) := by
      rw [← size]
      rfl
    omega

theorem square_tile {n : Nat} (positive : 0 < n) (small : n < 2 ^ 14) :
    ∃ texInfo, gpgpu_ptx_sim_bindTextureToArray 128 (square n positive small) = some texInfo ∧
      texInfo.Tx = 8 ∧ texInfo.Ty = 4 := by
  have size : (square n positive small).desc.texel_size = 4 := by
    simp [square, oneChannel, ChannelFormatDesc.texel_size]
  rw [gpgpu_ptx_sim_bindTextureToArray, size]
  simp [baseTx, modifyTx]

theorem tilesRight_square_four : TilesRight 128 (square 4 (by decide) (by decide)) := by
  obtain ⟨texInfo, bound, Tx, Ty⟩ := square_tile (n := 4) (by decide) (by decide)
  exact (tilesRight_iff (t := 2) rfl (by decide)).mpr
    ⟨texInfo, bound, by omega, Or.inl ⟨show 4 ≤ _ by omega, show 4 ≤ _ by omega⟩⟩

/-- Two tiles of an array of sixteen by sixteen texels lie in a line of 128 bytes. -/
theorem square_sixteen_not_tilesRight :
    ¬ ∀ (linesize t : Nat) (array : CudaArray), (baseTx linesize).isSome →
      array.desc.texel_size = 2 ^ t → 256 ∣ array.devPtr32.toNat → TilesRight linesize array := by
  intro right
  have aligned : 256 ∣ (0x80000000 : BitVec 32).toNat := by decide
  obtain ⟨texInfo, bound, boundRight⟩ :=
    right 128 2 (square 16 (by decide) (by decide)) rfl rfl aligned
  obtain ⟨-, single | short⟩ := (boundRight_iff (t := 2) rfl aligned bound).mp boundRight
  · obtain ⟨other, bound', Tx, -⟩ := square_tile (n := 16) (by decide) (by decide)
    obtain rfl := Option.some.inj (bound.symm.trans bound')
    have wide : 16 ≤ texInfo.Tx := single.1
    omega
  · exact absurd short.1 (by decide)

end AesOnGpu.Texture
