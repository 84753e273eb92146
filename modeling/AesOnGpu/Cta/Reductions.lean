import AesOnGpu.Cta.Slots

/-! # Reductions at barriers

`bar.red` adds the predicate of each thread to a cell of `reduction_storage`, and the
threads read the cell when the barrier is complete.  The table is cleared when the core
is built and never again, so a reduction starts from what the cell holds.  `bar_impl`
reads the predicates inverted, as all instructions do, but `bar_callback` writes the 0 or
1 of the cell into a predicate as it is.

`CoreT.rounds` is not in the source: for each slot and barrier it has what has been
given to the barrier since it was last complete, and what the cell held then.
-/

namespace AesOnGpu.Cta

def MAX_CTA_PER_SHADER : Nat := 32
def MAX_BARRIERS_PER_CTA : Nat := 16

inductive RedOp where
  | ATOMIC_AND
  | ATOMIC_OR
  | ATOMIC_POPC
  deriving DecidableEq

/-- What a `bar.red` is written with: its operator, and whether its predicate is `!c`. -/
structure BarRed where
  red_op : RedOp
  is_neg_pred : Bool
  deriving DecidableEq

/-- A `bool` as an `unsigned`. -/
def toUnsigned (value : Bool) : BitVec 32 := if value then 1 else 0

def holds (pred : BitVec 32) : Bool := !pred.getLsbD 0

/-- A reduction that a thread has executed, and what it has read in its register. -/
structure Gift where
  code : BarRed
  value : Bool

def Gift.predicate (gift : Gift) : Bool := xor gift.code.is_neg_pred gift.value

structure Round where
  before : BitVec 32
  given : List Gift

/-- The part of a core and of its instructions (`bar_id`) that reductions use. -/
structure CoreT (I : Type) where
  cta_size : Nat
  resident : Nat → Bool
  reduction_storage : Nat → Nat → BitVec 32
  bar_id : I → Nat
  rounds : Nat → Nat → Round

variable {I : Type}

namespace CoreT

def new (bar_id : I → Nat) : CoreT I where
  cta_size := 1
  resident _ := false
  reduction_storage _ _ := 0
  bar_id
  rounds _ _ := ⟨0, []⟩

def stored (core : CoreT I) (ctaid barid : Nat) (value : BitVec 32) : CoreT I :=
  { core with
    reduction_storage := fun c b =>
      if c = ctaid ∧ b = barid then value else core.reduction_storage c b }

def and_reduction (core : CoreT I) (ctaid barid : Nat) (value : Bool) : CoreT I :=
  core.stored ctaid barid (core.reduction_storage ctaid barid &&& toUnsigned value)

def or_reduction (core : CoreT I) (ctaid barid : Nat) (value : Bool) : CoreT I :=
  core.stored ctaid barid (core.reduction_storage ctaid barid ||| toUnsigned value)

def popc_reduction (core : CoreT I) (ctaid barid : Nat) (value : Bool) : CoreT I :=
  core.stored ctaid barid (core.reduction_storage ctaid barid + toUnsigned value)

def get_reduction_value (core : CoreT I) (ctaid barid : Nat) : BitVec 32 :=
  core.reduction_storage ctaid barid

end CoreT

/-! ## Events -/

/-- What a core does: it takes a kernel, a block comes into a slot or leaves it, a thread
    of the block executes a reduction, or the barrier is complete and the threads that
    waited there for these instructions are called back. -/
inductive Event (I : Type) where
  | kernel (cta_size : Nat)
  | issue (slot : Nat)
  | leave (slot : Nat)
  | bar_red (slot : Nat) (pI : I) (barid : Nat) (pred : BitVec 32)
  | complete (slot barid : Nat) (waiting : List I)

section Core

variable (config : ShaderConfig) (sid : Nat) (code : I → BarRed)

/-- `get_cta_uid` of the threads in a slot. -/
def CoreT.cta_uid (core : CoreT I) (slot : Nat) : Nat :=
  config.sm_idx sid core.cta_size (config.start_thread core.cta_size slot)

/-- `bar_impl` for a reduction; the barrier's number goes into the instruction.  The `!`
    of the operand is not looked at. -/
def CoreT.bar_impl (core : CoreT I) [DecidableEq I] (pI : I) (ctaid barid : Nat)
    (pred : BitVec 32) : CoreT I :=
  let value := holds pred
  let core := { core with bar_id := Function.update core.bar_id pI barid }
  match (code pI).red_op with
  | .ATOMIC_POPC => core.popc_reduction ctaid barid value
  | .ATOMIC_AND => core.and_reduction ctaid barid value
  | .ATOMIC_OR => core.or_reduction ctaid barid value

/-- The value that is written into the destination of a thread of the block. -/
def CoreT.bar_callback (core : CoreT I) (slot : Nat) (pI : I) : BitVec 32 :=
  core.get_reduction_value (core.cta_uid config sid slot) (core.bar_id pI)

/-- A round is over; the next one finds what is in the cell. -/
def CoreT.newRound (core : CoreT I) (slot barid : Nat) : Round :=
  ⟨core.reduction_storage (core.cta_uid config sid slot) barid, []⟩

def CoreT.step [DecidableEq I] (core : CoreT I) : Event I → CoreT I
  | .kernel cta_size => { core with cta_size }
  | .issue slot =>
    { core with
      resident := Function.update core.resident slot true
      rounds := Function.update core.rounds slot (core.newRound config sid slot) }
  | .leave slot => { core with resident := Function.update core.resident slot false }
  | .bar_red slot pI barid pred =>
    let round := core.rounds slot barid
    { core.bar_impl code pI (core.cta_uid config sid slot) barid pred with
      rounds := Function.update core.rounds slot
        (Function.update (core.rounds slot) barid
          { round with given := round.given ++ [⟨code pI, holds pred⟩] }) }
  | .complete slot barid _ =>
    { core with
      rounds := Function.update core.rounds slot
        (Function.update (core.rounds slot) barid (core.newRound config sid slot barid)) }

def CoreT.Possible (core : CoreT I) : Event I → Prop
  | .kernel cta_size => 0 < cta_size ∧ ∀ slot, core.resident slot = false
  | .issue slot => core.resident slot = false
  | .leave slot => core.resident slot = true
  | .bar_red slot _ _ _ => core.resident slot = true
  | .complete slot _ _ => core.resident slot = true

/-! ## The law -/

/-- What a thread finds in its destination. -/
inductive Result where
  | predicate (value : Bool)
  | register (value : BitVec 32)
  deriving DecidableEq

/-- `bar.red.and` and `bar.red.or` have a predicate as destination, `bar.red.popc` a
    register. -/
def RedOp.destination : RedOp → BitVec 32 → Result
  | .ATOMIC_POPC, value => .register value
  | .ATOMIC_AND, value => .predicate (holds value)
  | .ATOMIC_OR, value => .predicate (holds value)

def reduce : RedOp → List Bool → Result
  | .ATOMIC_AND, values => .predicate (values.all id)
  | .ATOMIC_OR, values => .predicate (values.any id)
  | .ATOMIC_POPC, values => .register (BitVec.ofNat 32 (values.count true))

/-- The cells that the event uses are in the table, and it delivers the reduction of
    what was given to the barrier. -/
def CoreT.Right (core : CoreT I) : Event I → Prop
  | .bar_red slot _ barid _ =>
    core.cta_uid config sid slot < MAX_CTA_PER_SHADER ∧ barid < MAX_BARRIERS_PER_CTA
  | .complete slot barid waiting => ∀ pI ∈ waiting,
    (core.cta_uid config sid slot < MAX_CTA_PER_SHADER ∧ core.bar_id pI < MAX_BARRIERS_PER_CTA) ∧
      (code pI).red_op.destination (core.bar_callback config sid slot pI) =
        reduce (code pI).red_op ((core.rounds slot barid).given.map Gift.predicate)
  | _ => True

/-- What a cell must hold before a reduction of these predicates.  The predicate that is
    read back is the opposite of the cell's lowest bit. -/
def Ready (op : RedOp) (before : BitVec 32) (values : List Bool) : Prop :=
  match op with
  | .ATOMIC_AND => before.getLsbD 0 = false ∧ false ∉ values
  | .ATOMIC_OR => before.getLsbD 0 = true ∧ true ∉ values
  | .ATOMIC_POPC => before = 0

inductive CoreT.Run [DecidableEq I] (allowed : CoreT I → Event I → Prop) (bar_id : I → Nat) :
    CoreT I → Prop where
  | new : Run allowed bar_id (CoreT.new bar_id)
  | step {core : CoreT I} {event : Event I} : Run allowed bar_id core → core.Possible event →
      allowed core event → Run allowed bar_id (core.step config sid code event)

end Core

/-! ## One cell -/

def accumulate (cell : BitVec 32) (op : RedOp) (value : Bool) : BitVec 32 :=
  match op with
  | .ATOMIC_AND => cell &&& toUnsigned value
  | .ATOMIC_OR => cell ||| toUnsigned value
  | .ATOMIC_POPC => cell + toUnsigned value

def Gift.apply (cell : BitVec 32) (gift : Gift) : BitVec 32 :=
  accumulate cell gift.code.red_op gift.value

section Core

variable {config : ShaderConfig} {sid : Nat} {code : I → BarRed}

theorem CoreT.cta_uid_ne {core : CoreT I} (hsize : 0 < core.cta_size) {slot slot' : Nat}
    (hne : slot' ≠ slot) : core.cta_uid config sid slot' ≠ core.cta_uid config sid slot :=
  fun heq => hne (config.sm_idx_start_thread_inj hsize heq)

structure CoreT.Accumulated (config : ShaderConfig) (sid : Nat) (core : CoreT I) : Prop where
  size_pos : 0 < core.cta_size
  cells : ∀ slot, core.resident slot = true → ∀ barid,
    core.reduction_storage (core.cta_uid config sid slot) barid =
      (core.rounds slot barid).given.foldl Gift.apply (core.rounds slot barid).before

variable [DecidableEq I]

theorem CoreT.bar_impl_storage (core : CoreT I) (pI : I) (ctaid barid : Nat)
    (pred : BitVec 32) (c b : Nat) :
    (core.bar_impl code pI ctaid barid pred).reduction_storage c b =
      if c = ctaid ∧ b = barid then
        Gift.apply (core.reduction_storage ctaid barid) ⟨code pI, holds pred⟩
      else core.reduction_storage c b := by
  unfold bar_impl Gift.apply
  cases (code pI).red_op <;> rfl

theorem CoreT.bar_impl_frame (core : CoreT I) (code : I → BarRed) (pI : I) (ctaid barid : Nat)
    (pred : BitVec 32) :
    (core.bar_impl code pI ctaid barid pred).cta_size = core.cta_size ∧
      (core.bar_impl code pI ctaid barid pred).resident = core.resident := by
  unfold bar_impl
  cases (code pI).red_op <;> exact ⟨rfl, rfl⟩

theorem CoreT.Accumulated.bar_red {core : CoreT I} (h : core.Accumulated config sid) (slot : Nat)
    (pI : I) (barid : Nat) (pred : BitVec 32) :
    (core.step config sid code (.bar_red slot pI barid pred)).Accumulated config sid := by
  obtain ⟨hsize, hresident⟩ := core.bar_impl_frame code pI
    (core.cta_uid config sid slot) barid pred
  constructor
  · exact hsize ▸ h.size_pos
  intro slot' hslot' barid'
  have hcell := h.cells slot' (hresident ▸ hslot') barid'
  have huid : (core.step config sid code (.bar_red slot pI barid pred)).cta_uid config sid slot' =
      core.cta_uid config sid slot' := by
    have hstep : (core.step config sid code (.bar_red slot pI barid pred)).cta_size =
      core.cta_size := hsize
    rw [cta_uid, hstep, cta_uid]
  rw [huid]
  simp only [step, bar_impl_storage]
  by_cases hsame : slot' = slot
  · subst hsame
    by_cases hbar : barid' = barid
    · subst hbar
      simp [hcell]
    · simp [hbar, hcell]
  · -- Another slot has another index, so its cells are not touched.
    have hindex : core.cta_uid config sid slot' ≠ core.cta_uid config sid slot :=
      CoreT.cta_uid_ne h.size_pos hsame
    simp [hsame, hindex, hcell]

theorem CoreT.Accumulated.step {core : CoreT I} (h : core.Accumulated config sid)
    {event : Event I} (hpossible : core.Possible event) :
    (core.step config sid code event).Accumulated config sid := by
  cases event with
  | kernel cta_size =>
    refine ⟨hpossible.1, fun slot hslot => ?_⟩
    have hnone := hpossible.2 slot
    simp only [CoreT.step] at hslot
    rw [hnone] at hslot
    cases hslot
  | issue slot =>
    refine ⟨h.size_pos, fun slot' hslot' barid => ?_⟩
    by_cases hsame : slot' = slot
    · subst hsame
      simp [CoreT.step, newRound, cta_uid]
    · have hbefore : core.resident slot' = true := by simpa [CoreT.step, hsame] using hslot'
      simpa [CoreT.step, hsame, cta_uid] using h.cells slot' hbefore barid
  | leave slot =>
    refine ⟨h.size_pos, fun slot' hslot' barid => ?_⟩
    by_cases hsame : slot' = slot
    · simp [CoreT.step, hsame] at hslot'
    · have hbefore : core.resident slot' = true := by simpa [CoreT.step, hsame] using hslot'
      exact h.cells slot' hbefore barid
  | bar_red slot pI barid pred => exact h.bar_red slot pI barid pred
  | complete slot barid waiting =>
    refine ⟨h.size_pos, fun slot' hslot' barid' => ?_⟩
    have hcell := h.cells slot' hslot' barid'
    by_cases hsame : slot' = slot
    · subst hsame
      by_cases hbar : barid' = barid
      · subst hbar
        simp [CoreT.step, newRound, cta_uid]
      · simpa [CoreT.step, hbar, cta_uid] using hcell
    · simpa [CoreT.step, hsame, cta_uid] using hcell

end Core

end AesOnGpu.Cta
