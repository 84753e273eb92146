import AesOnGpu.Dram.Config

/-! # The first-ready first-come first-served scheduler

`frfcfs_scheduler` of `gpgpu-sim/dram_sched.cc`.  The requests of a bank are in one
list with the newest in front, and a second time, by row, in the bins of the bank.
A bin holds iterators into the list; here a list node has a number, and an iterator
is the number of its node.  `m_last_row` points to a bin; here it is the bin's row.

`none` is an index out of bounds, a failed assertion, or the use of an iterator whose
node has been erased.  The statistics of `data_collection` are left out.
-/

namespace AesOnGpu.Dram

structure ListNode where
  iterator : Nat
  req : DramReq
  deriving DecidableEq

structure FrfcfsScheduler where
  nbk : Nat
  m_num_pending : Nat
  m_queue : Nat → List ListNode
  m_bins : Nat → Nat → Option (List Nat)
  m_last_row : Nat → Option Nat
  /-- The number of the next list node. -/
  fresh : Nat

namespace FrfcfsScheduler

def new (nbk : Nat) : FrfcfsScheduler where
  nbk
  m_num_pending := 0
  m_queue _ := []
  m_bins _ _ := none
  m_last_row _ := none
  fresh := 0

def setBin (s : FrfcfsScheduler) (bank row : Nat) (bin : Option (List Nat)) :
    Nat → Nat → Option (List Nat) :=
  Function.update s.m_bins bank (Function.update (s.m_bins bank) row bin)

def add_req (s : FrfcfsScheduler) (req : DramReq) : Option FrfcfsScheduler :=
  if req.bk < s.nbk then
    some { s with
      m_num_pending := s.m_num_pending + 1
      m_queue := Function.update s.m_queue req.bk (⟨s.fresh, req⟩ :: s.m_queue req.bk)
      -- `operator[]` makes the bin if there is none
      m_bins := s.setBin req.bk req.row
        (some (s.fresh :: (s.m_bins req.bk req.row).getD []))
      fresh := s.fresh + 1 }
  else none

def deref (s : FrfcfsScheduler) (bank iterator : Nat) : Option ListNode :=
  (s.m_queue bank).find? (·.iterator = iterator)

/-- The second half of `schedule`, for the bin `m_last_row` points to. -/
def serve (s : FrfcfsScheduler) (bank row : Nat) : Option (FrfcfsScheduler × ListNode) :=
  match s.m_bins bank row with
  | none => none
  | some bin =>
    match bin.getLast? with
    | none => none
    | some next =>
      match s.deref bank next with
      | none => none
      | some node =>
        let popped := { s with
          m_bins := s.setBin bank row (some bin.dropLast)
          m_queue := Function.update s.m_queue bank
            ((s.m_queue bank).filter (·.iterator ≠ next))
          m_last_row := Function.update s.m_last_row bank (some row)
          m_num_pending := s.m_num_pending - 1 }
        if s.m_num_pending = 0 then none
        else if bin.dropLast = [] then
          some ({ popped with
            m_bins := popped.setBin bank node.req.row none
            m_last_row := Function.update s.m_last_row bank none }, node)
        else some (popped, node)

/-- Returns the request with its list node; NULL is `none`. -/
def schedule (s : FrfcfsScheduler) (bank curr_row : Nat) :
    Option (FrfcfsScheduler × Option ListNode) :=
  if bank < s.nbk then
    match s.m_last_row bank with
    | some row => (s.serve bank row).map fun served => (served.1, some served.2)
    | none =>
      match (s.m_queue bank).getLast? with
      | none => some (s, none)
      | some back =>
        let row := if (s.m_bins bank curr_row).isSome then curr_row else back.req.row
        (s.serve bank row).map fun served => (served.1, some served.2)
  else none

end FrfcfsScheduler
end AesOnGpu.Dram
