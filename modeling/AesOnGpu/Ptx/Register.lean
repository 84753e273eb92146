import AesOnGpu.Lib.Words
import AesOnGpu.Ptx.CarryChain

/-! # Register images

A `ptx_reg_t` is a union.  Its members are views of the same bits, and its
constructor clears all of them.
-/

namespace AesOnGpu.Ptx

/-- The integer types and the untyped ones that fit into 64 bits. -/
inductive IntegerType where
  | S8_TYPE | S16_TYPE | S32_TYPE | S64_TYPE
  | U8_TYPE | U16_TYPE | U32_TYPE | U64_TYPE
  | B8_TYPE | B16_TYPE | B32_TYPE | B64_TYPE
  deriving DecidableEq

namespace IntegerType

def width : IntegerType → Nat
  | S8_TYPE | U8_TYPE | B8_TYPE => 8
  | S16_TYPE | U16_TYPE | B16_TYPE => 16
  | S32_TYPE | U32_TYPE | B32_TYPE => 32
  | S64_TYPE | U64_TYPE | B64_TYPE => 64

def signed : IntegerType → Bool
  | S8_TYPE | S16_TYPE | S32_TYPE | S64_TYPE => true
  | _ => false

def value (type : IntegerType) (x : RegValue) : Int :=
  if type.signed then (x.setWidth type.width).toInt else (x.setWidth type.width).toNat

def least (type : IntegerType) : Int := if type.signed then -2 ^ (type.width - 1) else 0

theorem width_pos (type : IntegerType) : 0 < type.width := by
  cases type <;> decide

theorem width_le (type : IntegerType) : type.width ≤ 64 := by
  cases type <;> decide

variable {type : IntegerType} {x : RegValue}

theorem value_of_signed (signed : type.signed = true) :
    type.value x = (x.setWidth type.width).toInt := if_pos signed

theorem value_of_unsigned (unsigned : type.signed = false) :
    type.value x = (x.setWidth type.width).toNat := if_neg (by simp [unsigned])

theorem value_modEq (type : IntegerType) (x : RegValue) :
    type.value x ≡ x.toNat [ZMOD 2 ^ type.width] := by
  rw [value]
  split
  · exact Words.setWidth_toInt_modEq x type.width
  · exact Words.setWidth_toNat_modEq x type.width

theorem value_bounds (type : IntegerType) (x : RegValue) :
    type.least ≤ type.value x ∧ type.value x < type.least + 2 ^ type.width := by
  have positive := type.width_pos
  rw [least, value]
  split
  · have half : (2 : Int) ^ type.width = 2 * 2 ^ (type.width - 1) := by
      rw [← pow_succ', Nat.sub_add_cancel positive]
    have atLeast := BitVec.le_toInt (x.setWidth type.width)
    have below := BitVec.toInt_lt (x := x.setWidth type.width)
    omega
  · have below := (x.setWidth type.width).isLt
    exact ⟨Int.natCast_nonneg _, by rw [zero_add]; exact_mod_cast below⟩

theorem value_within (type : IntegerType) (x : RegValue) :
    -2 ^ type.width ≤ type.value x ∧ type.value x < 2 ^ type.width := by
  have bounds := type.value_bounds x
  have least : -2 ^ type.width ≤ type.least ∧ type.least ≤ 0 := by
    cases type <;> decide
  omega

theorem value_eq_of_modEq {v : Int} (same : type.value x ≡ v [ZMOD 2 ^ type.width])
    (atLeast : type.least ≤ v) (below : v < type.least + 2 ^ type.width) : type.value x = v := by
  have bounds := type.value_bounds x
  exact Words.eq_of_modEq same (by omega) (by omega)

end IntegerType

namespace RegValue

/-- The members `u8` and `s8`; where the code takes `s8`, the use says that the sign
    counts. -/
def u8 (x : RegValue) : BitVec 8 := x.setWidth 8

def u16 (x : RegValue) : BitVec 16 := x.setWidth 16

def u32 (x : RegValue) : BitVec 32 := x.setWidth 32

/-- A cleared register after one of its members was written. -/
def fresh {w : Nat} (x : BitVec w) : RegValue := x.setWidth 64

/-- Writes a member; the bits above it stay. -/
def store {w : Nat} (x : RegValue) (y : BitVec w) : RegValue := (x >>> w <<< w) ||| y.setWidth 64

@[simp]
theorem setWidth_fresh {v w : Nat} (x : BitVec w) (narrow : v ≤ 64) :
    (fresh x).setWidth v = x.setWidth v := by
  rw [fresh, BitVec.setWidth_setWidth_of_le _ narrow]

@[simp]
theorem fresh_self (x : BitVec 64) : fresh x = x := BitVec.setWidth_eq x

end RegValue

end AesOnGpu.Ptx
