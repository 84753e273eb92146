import AesOnGpu.Lib.FinLiterals

/-! # Addresses and kinds of memory accesses -/

namespace AesOnGpu

/-- `new_addr_type`. -/
abbrev Address := BitVec 64

inductive MemAccessType where
  | GLOBAL_ACC_R
  | LOCAL_ACC_R
  | CONST_ACC_R
  | TEXTURE_ACC_R
  | GLOBAL_ACC_W
  | LOCAL_ACC_W
  | L1_WRBK_ACC
  | L2_WRBK_ACC
  | INST_ACC_R
  | L1_WR_ALLOC_R
  | L2_WR_ALLOC_R
  deriving DecidableEq

end AesOnGpu
