import AesOnGpu.Lib.FinLiterals

/-! # The reconvergence stack

Model of `simt_stack` in `abstract_hardware_model.cc`.  The stack is a list with
the top entry first.  A mask holds the lanes of one warp.  `none` is a failed
assertion.

The warp id and `m_branch_div_cycle` are only printed; they and the divergence
statistics are left out.
-/

namespace AesOnGpu.Simt

abbrev Pc := BitVec 32

abbrev Mask (warpSize : Nat) := Finset (Fin warpSize)

/-- `(address_type)-1`, the source's mark for "no PC". -/
def nullPc : Pc := 0xFFFFFFFF#32

inductive StackEntryType where
  | normal
  | call
  deriving DecidableEq

/-- The operation classes that `update` distinguishes. -/
inductive OpType where
  | CALL_OPS
  | RET_OPS
  | other
  deriving DecidableEq

structure StackEntry (warpSize : Nat) where
  m_pc : Pc
  m_calldepth : Nat
  m_active_mask : Mask warpSize
  m_recvg_pc : Pc
  m_type : StackEntryType
  deriving DecidableEq

abbrev SimtStack (warpSize : Nat) := List (StackEntry warpSize)

variable {warpSize : Nat}

/-- The default constructor. -/
def StackEntry.fresh : StackEntry warpSize := ⟨nullPc, 0, ∅, nullPc, .normal⟩

def launch (start_pc : Pc) (active_mask : Mask warpSize) : SimtStack warpSize :=
  [{ (StackEntry.fresh : StackEntry warpSize) with
    m_pc := start_pc, m_calldepth := 1, m_active_mask := active_mask }]

/-! ## Grouping the lanes by their next PC -/

structure Group (warpSize : Nat) where
  tmp_next_pc : Pc
  tmp_active_mask : Mask warpSize
  top_active_mask : Mask warpSize

structure Lanes (warpSize : Nat) where
  thread_done : Fin warpSize → Bool
  next_pc : Fin warpSize → Pc

def extractTurn (lanes : Lanes warpSize) (group : Group warpSize) (i : Fin warpSize) :
    Group warpSize :=
  if i ∈ group.top_active_mask then
    if lanes.thread_done i then
      { group with top_active_mask := group.top_active_mask.erase i }
    else if group.tmp_next_pc = nullPc then
      ⟨lanes.next_pc i, insert i group.tmp_active_mask, group.top_active_mask.erase i⟩
    else if group.tmp_next_pc = lanes.next_pc i then
      { group with
        tmp_active_mask := insert i group.tmp_active_mask
        top_active_mask := group.top_active_mask.erase i }
    else group
  else group

/-- The `for` loop, from the highest lane down. -/
def extractGroup (lanes : Lanes warpSize) (top_active_mask : Mask warpSize) : Group warpSize :=
  (List.finRange warpSize).reverse.foldl (extractTurn lanes) ⟨nullPc, ∅, top_active_mask⟩

/-- The entries of `divergent_paths`; the keys are pairwise different. -/
abbrev Paths (warpSize : Nat) := List (Pc × Mask warpSize)

def Paths.assign (paths : Paths warpSize) (pc : Pc) (mask : Mask warpSize) : Paths warpSize :=
  (pc, mask) :: paths.filter fun path => path.1 ≠ pc

/-- The `while` loop, which also counts the groups.  Each round takes a lane out
    of the mask, so `warpSize` rounds are enough. -/
def collectPaths (lanes : Lanes warpSize) :
    Nat → Mask warpSize → Paths warpSize × Nat → Option (Paths warpSize × Nat)
  | fuel, top_active_mask, (divergent_paths, num_divergent_paths) =>
    if top_active_mask = ∅ then some (divergent_paths, num_divergent_paths)
    else match fuel with
      | 0 => none
      | fuel + 1 =>
        let group := extractGroup lanes top_active_mask
        if group.tmp_next_pc = nullPc then
          if group.top_active_mask ≠ ∅ then none
          else collectPaths lanes fuel group.top_active_mask (divergent_paths, num_divergent_paths)
        else collectPaths lanes fuel group.top_active_mask
          (divergent_paths.assign group.tmp_next_pc group.tmp_active_mask, num_divergent_paths + 1)

/-! ## Rewriting the stack -/

/-- The path taken next: the one not taken by the branch, else the first of the
    map; and the paths left.  The first choice is asserted to be possible in the
    first round only. -/
def pickPath (not_taken_pc : Pc) (i : Nat) (paths : Paths warpSize) :
    Option ((Pc × Mask warpSize) × Paths warpSize) :=
  match paths.find? fun path => path.1 = not_taken_pc with
  | some path => if i = 0 then some (path, paths.filter fun other => other.1 ≠ path.1) else none
  | none => match paths.argmin fun path => path.1.toNat with
    | some path => some (path, paths.filter fun other => other.1 ≠ path.1)
    | none => none

/-- The values `update` reads before it rewrites the stack. -/
structure UpdateContext where
  num_divergent_paths : Nat
  top_recvg_pc : Pc
  top_type : StackEntryType
  recvg_pc : Pc
  next_inst_op : OpType
  not_taken_pc : Pc

/-- The variables of the loop over the paths; the stack is never empty there, and
    its back is the entry being filled. -/
structure UpdateState (warpSize : Nat) where
  back : StackEntry warpSize
  below : SimtStack warpSize
  warp_diverged : Bool
  new_recvg_pc : Pc

inductive Round (warpSize : Nat) where
  | done (stack : SimtStack warpSize)
  | next (state : UpdateState warpSize)

/-- The body of a round for a path that is neither a call nor a return. -/
def placePath (context : UpdateContext) (tmp_next_pc : Pc) (tmp_active_mask : Mask warpSize)
    (state : UpdateState warpSize) : UpdateState warpSize :=
  if tmp_next_pc = context.top_recvg_pc ∧ context.top_type ≠ .call then state
  else
    let state :=
      if context.num_divergent_paths > 1 ∧ ¬ state.warp_diverged then
        if context.recvg_pc ≠ context.top_recvg_pc then
          { back := .fresh
            below := { state.back with m_pc := context.recvg_pc } :: state.below
            warp_diverged := true
            new_recvg_pc := context.recvg_pc }
        else { state with warp_diverged := true, new_recvg_pc := context.recvg_pc }
      else state
    if state.warp_diverged ∧ tmp_next_pc = state.new_recvg_pc then state
    else
      let filled := { state.back with m_pc := tmp_next_pc, m_active_mask := tmp_active_mask }
      let filled :=
        if state.warp_diverged then
          { filled with m_calldepth := 0, m_recvg_pc := state.new_recvg_pc }
        else { filled with m_recvg_pc := context.top_recvg_pc }
      { state with back := .fresh, below := filled :: state.below }

def pathRound (context : UpdateContext) (tmp_next_pc : Pc) (tmp_active_mask : Mask warpSize)
    (state : UpdateState warpSize) : Option (Round warpSize) :=
  if context.next_inst_op = .CALL_OPS then
    if context.num_divergent_paths = 1 then
      let new_stack_entry := { (StackEntry.fresh : StackEntry warpSize) with
        m_pc := tmp_next_pc, m_active_mask := tmp_active_mask, m_type := .call }
      some (.done (new_stack_entry :: state.back :: state.below))
    else none
  else if context.next_inst_op = .RET_OPS ∧ context.top_type = .call then
    if context.num_divergent_paths = 1 then
      match state.below with
      | [] => none
      | caller :: rest =>
        let caller := { caller with m_pc := tmp_next_pc }
        if tmp_next_pc = caller.m_recvg_pc ∧ caller.m_type ≠ .call then some (.done rest)
        else some (.done (caller :: rest))
    else none
  else some (.next (placePath context tmp_next_pc tmp_active_mask state))

/-- The loop over the paths and the final `pop_back`. -/
def placePaths (context : UpdateContext) :
    Nat → Nat → Paths warpSize → UpdateState warpSize → Option (SimtStack warpSize)
  | 0, _, _, state => some state.below
  | rounds + 1, i, paths, state => do
    let ((tmp_next_pc, tmp_active_mask), paths) ← pickPath context.not_taken_pc i paths
    match ← pathRound context tmp_next_pc tmp_active_mask state with
    | .done stack => return stack
    | .next state => placePaths context rounds (i + 1) paths state

/-- The instruction just executed, as `update` sees it. -/
structure Executed where
  recvg_pc : Pc
  next_inst_op : OpType
  next_inst_size : BitVec 32
  next_inst_pc : Pc

def update (m_stack : SimtStack warpSize) (lanes : Lanes warpSize) (executed : Executed) :
    Option (SimtStack warpSize) :=
  match m_stack with
  | [] => none
  | top :: below => do
    if top.m_pc ≠ executed.next_inst_pc then none
    if top.m_active_mask = ∅ then none
    let (divergent_paths, num_divergent_paths) ←
      collectPaths lanes warpSize top.m_active_mask ([], 0)
    if num_divergent_paths > 2 then none
    let context : UpdateContext :=
      { num_divergent_paths
        top_recvg_pc := top.m_recvg_pc
        top_type := top.m_type
        recvg_pc := executed.recvg_pc
        next_inst_op := executed.next_inst_op
        not_taken_pc := executed.next_inst_pc + executed.next_inst_size }
    placePaths context num_divergent_paths 0 divergent_paths
      { back := top, below, warp_diverged := false, new_recvg_pc := nullPc }

end AesOnGpu.Simt
