import AesOnGpu.MemAccess

/-! # The DRAM's configuration and its requests

`memory_config` of `gpgpu-sim/gpu-sim.h` and `dram_req_t` of `gpgpu-sim/dram.h`, as far
as the DRAM reads them.  What only statistics and printouts read is left out.
-/

namespace AesOnGpu.Dram

/-- The value of an expression over `unsigned int`. -/
def u32 (value : Int) : Nat := (value % 2 ^ 32).toNat

/-- `dram_ctrl_t`. -/
inductive DramCtrl where
  | DRAM_FIFO
  | DRAM_FRFCFS
  deriving DecidableEq

/-- The parameters that are read from the options. -/
structure MemoryConfig where
  nbk : Nat
  nbkgrp : Nat
  tCCD : Nat
  tCCDL : Nat
  tRRD : Nat
  tRCD : Nat
  tRAS : Nat
  tRP : Nat
  tRC : Nat
  tCDLR : Nat
  tWR : Nat
  tRTPL : Nat
  CL : Nat
  WL : Nat
  BL : Nat
  busW : Nat
  data_command_freq_ratio : Nat
  gpu_n_mem_per_ctrlr : Nat
  scheduler_type : DramCtrl
  gpgpu_frfcfs_dram_sched_queue_size : Nat
  gpgpu_dram_return_queue_size : Nat
  compress : Bool

namespace MemoryConfig

variable (config : MemoryConfig)

/-! ## What `init` computes -/

def burst : Nat := config.BL / config.data_command_freq_ratio

/-- The number of bits of the quotient, which is an `int`. -/
def bk_tag_length : Nat :=
  let nbkt := config.nbk / config.nbkgrp
  if nbkt < 2 ^ 31 then nbkt.size else 0

def tRCDWR : Nat := u32 (config.tRCD - (config.WL + 1))

def tRTW : Nat := u32 (config.CL + config.burst + 2 - config.WL)

def tWTR : Nat := u32 (config.WL + config.burst + config.tCDLR)

def tWTP : Nat := u32 (config.WL + config.burst + config.tWR)

def dram_atom_size : Nat := u32 (config.BL * config.busW * config.gpu_n_mem_per_ctrlr)

/-- The divisors of `init` and of the constructor of `dram_t`, and the assertion of
    `init` about `nbkgrp`. -/
def Accepted : Prop :=
  config.nbkgrp ≠ 0 ∧ config.data_command_freq_ratio ≠ 0 ∧ config.nbk / config.nbkgrp ≠ 0

instance : Decidable config.Accepted := inferInstanceAs (Decidable (_ ∧ _))

end MemoryConfig

/-- `mem_fetch`: its decoded address, its size and its access. -/
structure MemFetch where
  request_uid : Nat
  chip : Nat
  bk : Nat
  row : Nat
  data_size : Nat
  is_write : Bool
  access_type : MemAccessType
  deriving DecidableEq

/-- Of the L1 or the L2; such a write needs no answer. -/
def MemFetch.isWriteback (data : MemFetch) : Bool :=
  data.access_type = .L1_WRBK_ACC ∨ data.access_type = .L2_WRBK_ACC

/-- `READ` and `WRITE`. -/
inductive Direction where
  | READ
  | WRITE
  deriving DecidableEq

/-- `dram_req_t`, which request it is and what does not change in it.  Its counters
    `txbytes` and `dqbytes` are in the state of the DRAM. -/
structure DramReq where
  id : Nat
  bk : Nat
  row : Nat
  nbytes : Nat
  rw : Direction
  data : MemFetch
  deriving DecidableEq

/-- The constructor, with the result of `getCompressedSize`. -/
def DramReq.new (config : MemoryConfig) (id : Nat) (mf : MemFetch) (compressedSize : Nat) :
    DramReq where
  id
  bk := mf.bk
  row := mf.row
  nbytes := if config.compress then compressedSize else mf.data_size
  rw := if mf.is_write then .WRITE else .READ
  data := mf

/-- The counters of a request. -/
structure Progress where
  txbytes : Nat
  dqbytes : Nat

/-- How a request leaves: into `returnq`, or through `set_done`. -/
inductive Outcome where
  | answered
  | done
  deriving DecidableEq

end AesOnGpu.Dram
