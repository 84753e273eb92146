import AesOnGpu.FifoPipeline
import AesOnGpu.Dram.FrfcfsScheduler

/-! # The DRAM

`dram_t` of `gpgpu-sim/dram.cc` with `scheduler_frfcfs` of `dram_sched.cc`.  `none` is a
failed assertion, an index out of bounds, or the use of a NULL pointer or of a request
that has been deleted.  A command is what `DRAM_VERIFY` prints.
-/

namespace AesOnGpu.Dram

inductive BankState where
  | BANK_IDLE
  | BANK_ACTIVE
  deriving DecidableEq

/-- `bank_t`. -/
structure Bank where
  RCDc : Nat
  RCDWRc : Nat
  RASc : Nat
  RPc : Nat
  RCc : Nat
  WTPc : Nat
  RTPc : Nat
  state : BankState
  curr_row : Nat
  mrq : Option DramReq

/-- `bankgrp_t`. -/
structure BankGroup where
  CCDLc : Nat
  RTPLc : Nat

structure DramT where
  id : Nat
  bk : Nat → Bank
  bkgrp : Nat → BankGroup
  prio : Nat
  RRDc : Nat
  CCDc : Nat
  RTWc : Nat
  WTRc : Nat
  rw : Direction
  rwq : FifoPipeline DramReq
  mrqq : FifoPipeline DramReq
  returnq : FifoPipeline MemFetch
  m_frfcfs_scheduler : FrfcfsScheduler
  /-- The requests that have been made and not deleted. -/
  requests : Nat → Option Progress
  /-- The number of the next request. -/
  fresh : Nat

inductive Command where
  | RD (bank : Nat) (mrq : DramReq)
  | WR (bank : Nat) (mrq : DramReq)
  | ACT (bank row : Nat)
  | PRE (bank : Nat)
  deriving DecidableEq

structure CycleLog where
  popped : Option DramReq
  left : Option (DramReq × Outcome)
  command : Option Command

namespace DramT

def new (config : MemoryConfig) (id : Nat) : Option DramT :=
  if config.Accepted then do
    let rwq ← FifoPipeline.new config.CL (config.CL + 1)
    let mrqq ← FifoPipeline.new 0 2
    let returnq ← FifoPipeline.new 0
      (if config.gpgpu_dram_return_queue_size = 0 then 1024
        else config.gpgpu_dram_return_queue_size)
    some {
      id, rwq, mrqq, returnq
      bk _ := ⟨0, 0, 0, 0, 0, 0, 0, .BANK_IDLE, 0, none⟩
      bkgrp _ := ⟨0, 0⟩
      prio := 0, RRDc := 0, CCDc := 0, RTWc := 0, WTRc := 0
      rw := .READ
      m_frfcfs_scheduler := .new config.nbk
      requests _ := none
      fresh := 0 }
  else none

/-- `compressedSize` is the result of `getCompressedSize`. -/
def push (s : DramT) (config : MemoryConfig) (data : MemFetch) (compressedSize : Nat) :
    Option (DramT × DramReq) :=
  if s.id = data.chip then
    let mrq := DramReq.new config s.fresh data compressedSize
    (s.mrqq.push (some mrq)).map fun mrqq => ({ s with
      mrqq
      requests := Function.update s.requests s.fresh (some ⟨0, 0⟩)
      fresh := s.fresh + 1 }, mrq)
  else none

def return_queue_pop (s : DramT) : Option (DramT × Option MemFetch) :=
  s.returnq.pop.map fun popped => ({ s with returnq := popped.1 }, popped.2)

/-! ## The returning side -/

/-- A burst of `cmd` has come out of `rwq`. -/
def finish (s : DramT) (config : MemoryConfig) (cmd : DramReq) :
    Option (DramT × Option (DramReq × Outcome)) :=
  match s.requests cmd.id with
  | none => none
  | some progress =>
    let dqbytes := u32 (progress.dqbytes + config.dram_atom_size)
    if dqbytes ≥ cmd.nbytes then
      let requests := Function.update s.requests cmd.id none
      if cmd.data.isWriteback then some ({ s with requests }, some (cmd, .done))
      else (s.returnq.push (some cmd.data)).map fun returnq =>
        ({ s with requests, returnq }, some (cmd, .answered))
    else
      some ({ s with requests :=
        Function.update s.requests cmd.id (some { progress with dqbytes }) }, none)

def drain (s : DramT) (config : MemoryConfig) :
    Option (DramT × Option DramReq × Option (DramReq × Outcome)) :=
  if s.returnq.full then some (s, none, none)
  else
    match s.rwq.pop with
    | none => none
    | some (rwq, none) => some ({ s with rwq }, none, none)
    | some (rwq, some cmd) =>
      (finish { s with rwq } config cmd).map fun finished => (finished.1, some cmd, finished.2)

/-! ## Scheduling -/

def setMrq (s : DramT) (bank : Nat) (mrq : Option DramReq) : Nat → Bank :=
  Function.update s.bk bank { s.bk bank with mrq }

def scheduler_fifo (s : DramT) (config : MemoryConfig) : Option DramT :=
  if s.mrqq.empty then some s
  else
    match s.mrqq.top with
    | none => none
    | some head_mrqq =>
      if head_mrqq.bk < config.nbk then
        if (s.bk head_mrqq.bk).mrq = none then
          s.mrqq.pop.map fun popped =>
            { s with mrqq := popped.1, bk := s.setMrq head_mrqq.bk popped.2 }
        else some s
      else none

/-- The loop that hands the requests to the scheduler; `mrqq` gets shorter each round. -/
def handOver (config : MemoryConfig) : Nat → DramT → Option DramT
  | 0, s => some s
  | fuel + 1, s =>
    let limit := config.gpgpu_frfcfs_dram_sched_queue_size
    if s.mrqq.empty = false ∧ (limit = 0 ∨ s.m_frfcfs_scheduler.m_num_pending < limit) then
      match s.mrqq.pop with
      | none => none
      | some (_, none) => none
      | some (mrqq, some req) =>
        match s.m_frfcfs_scheduler.add_req req with
        | none => none
        | some m_frfcfs_scheduler => handOver config fuel { s with mrqq, m_frfcfs_scheduler }
    else some s

/-- The loop over the banks: the first free one for which `schedule` has a request. -/
def serveBank (config : MemoryConfig) : List Nat → DramT → Option DramT
  | [], s => some s
  | i :: rest, s =>
    let b := (i + s.prio) % config.nbk
    if (s.bk b).mrq = none then
      match s.m_frfcfs_scheduler.schedule b (s.bk b).curr_row with
      | none => none
      | some (m_frfcfs_scheduler, none) => serveBank config rest { s with m_frfcfs_scheduler }
      | some (m_frfcfs_scheduler, some node) =>
        some { s with
          m_frfcfs_scheduler
          prio := (s.prio + 1) % config.nbk
          bk := s.setMrq b (some node.req) }
    else serveBank config rest s

def scheduler_frfcfs (s : DramT) (config : MemoryConfig) : Option DramT :=
  (handOver config s.mrqq.get_length s).bind (serveBank config (List.range config.nbk))

def scheduler (s : DramT) (config : MemoryConfig) : Option DramT :=
  match config.scheduler_type with
  | .DRAM_FIFO => s.scheduler_fifo config
  | .DRAM_FRFCFS => s.scheduler_frfcfs config

/-! ## Commands -/

section

variable (config : MemoryConfig) (s : DramT) (j : Nat) (mrq : DramReq)

/-- The group of a bank. -/
def grp : Nat := j >>> config.bk_tag_length

def canRead : Prop :=
  s.CCDc = 0 ∧ (s.bk j).RCDc = 0 ∧ (s.bkgrp (grp config j)).CCDLc = 0 ∧
    (s.bk j).curr_row = mrq.row ∧ mrq.rw = .READ ∧ s.WTRc = 0 ∧
    (s.bk j).state = .BANK_ACTIVE ∧ s.rwq.full = false

def canWrite : Prop :=
  s.CCDc = 0 ∧ (s.bk j).RCDWRc = 0 ∧ (s.bkgrp (grp config j)).CCDLc = 0 ∧
    (s.bk j).curr_row = mrq.row ∧ mrq.rw = .WRITE ∧ s.RTWc = 0 ∧
    (s.bk j).state = .BANK_ACTIVE ∧ s.rwq.full = false

def canActivate : Prop :=
  s.RRDc = 0 ∧ (s.bk j).state = .BANK_IDLE ∧ (s.bk j).RPc = 0 ∧ (s.bk j).RCc = 0

def canPrecharge : Prop :=
  (s.bk j).curr_row ≠ mrq.row ∧ (s.bk j).state = .BANK_ACTIVE ∧
    (s.bk j).RASc = 0 ∧ (s.bk j).WTPc = 0 ∧ (s.bk j).RTPc = 0 ∧
    (s.bkgrp (grp config j)).RTPLc = 0

instance : Decidable (s.canRead config j mrq) := inferInstanceAs (Decidable (_ ∧ _))

instance : Decidable (s.canWrite config j mrq) := inferInstanceAs (Decidable (_ ∧ _))

instance : Decidable (s.canActivate j) := inferInstanceAs (Decidable (_ ∧ _))

instance : Decidable (s.canPrecharge config j mrq) := inferInstanceAs (Decidable (_ ∧ _))

/-- What a read and a write have in common: a turn of `rw` with the new latency, a
    burst pushed into `rwq` and counted, and the bank set free after the last one. -/
def transfer (direction : Direction) (latency : Nat) : Option DramT :=
  match if s.rw = direction then some s.rwq else s.rwq.set_min_length latency with
  | none => none
  | some turned =>
    match turned.push (some mrq), s.requests mrq.id with
    | some rwq, some progress =>
      let txbytes := u32 (progress.txbytes + config.dram_atom_size)
      some { s with
        rwq
        rw := direction
        requests := Function.update s.requests mrq.id (some { progress with txbytes })
        bk := if txbytes < mrq.nbytes then s.bk else s.setMrq j none }
    | _, _ => none

def startRead : DramT := { s with
  CCDc := config.tCCD
  RTWc := config.tRTW
  bkgrp := Function.update s.bkgrp (grp config j) ⟨config.tCCDL, config.tRTPL⟩
  bk := Function.update s.bk j { s.bk j with RTPc := config.burst } }

def startWrite : DramT := { s with
  CCDc := config.tCCD
  WTRc := config.tWTR
  bkgrp := Function.update s.bkgrp (grp config j)
    { s.bkgrp (grp config j) with CCDLc := config.tCCDL }
  bk := Function.update s.bk j { s.bk j with WTPc := config.tWTP } }

def activate : DramT := { s with
  RRDc := config.tRRD
  prio := (j + 1) % config.nbk
  bk := Function.update s.bk j { s.bk j with
    curr_row := mrq.row
    state := .BANK_ACTIVE
    RCDc := config.tRCD
    RCDWRc := config.tRCDWR
    RASc := config.tRAS
    RCc := config.tRC } }

def precharge : DramT := { s with
  prio := (j + 1) % config.nbk
  bk := Function.update s.bk j { s.bk j with state := .BANK_IDLE, RPc := config.tRP } }

/-- The body of the loop over the banks, for a bank `j` and as long as nothing has been
    issued. -/
def issueBank : Option (DramT × Option Command) :=
  match (s.bk j).mrq with
  | none => some (s, none)
  | some mrq =>
    if s.canRead config j mrq then
      (s.transfer config j mrq .READ config.CL).map fun s =>
        (s.startRead config j, some (.RD j mrq))
    else if s.canWrite config j mrq then
      (s.transfer config j mrq .WRITE config.WL).map fun s =>
        (s.startWrite config j, some (.WR j mrq))
    else if s.canActivate j then some (s.activate config j mrq, some (.ACT j mrq.row))
    else if s.canPrecharge config j mrq then some (s.precharge config j, some (.PRE j))
    else some (s, none)

end

/-- The rounds `i` of the loop; once a command is issued the others do nothing. -/
def issue (config : MemoryConfig) : List Nat → DramT → Option (DramT × Option Command)
  | [], s => some (s, none)
  | i :: rest, s =>
    match s.issueBank config ((i + s.prio) % config.nbk) with
    | none => none
    | some (s', some command) => some (s', some command)
    | some (s', none) => issue config rest s'

/-- The counters go down by one, but not below zero. -/
def decrement (s : DramT) (config : MemoryConfig) : DramT := { s with
  RRDc := s.RRDc - 1
  CCDc := s.CCDc - 1
  RTWc := s.RTWc - 1
  WTRc := s.WTRc - 1
  bk j := if j < config.nbk then { s.bk j with
      RCDc := (s.bk j).RCDc - 1
      RASc := (s.bk j).RASc - 1
      RCc := (s.bk j).RCc - 1
      RPc := (s.bk j).RPc - 1
      RCDWRc := (s.bk j).RCDWRc - 1
      WTPc := (s.bk j).WTPc - 1
      RTPc := (s.bk j).RTPc - 1 } else s.bk j
  bkgrp j := if j < config.nbkgrp then ⟨(s.bkgrp j).CCDLc - 1, (s.bkgrp j).RTPLc - 1⟩
    else s.bkgrp j }

def cycle (s : DramT) (config : MemoryConfig) : Option (DramT × CycleLog) :=
  match s.drain config with
  | none => none
  | some (drained, popped, left) =>
    match drained.scheduler config with
    | none => none
    | some scheduled =>
      match issue config (List.range config.nbk) scheduled with
      | none => none
      | some (issued, command) => some (issued.decrement config, ⟨popped, left, command⟩)

end DramT
end AesOnGpu.Dram
