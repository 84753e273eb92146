import AesOnGpu.Dram.Account
import AesOnGpu.Dram.FrfcfsOrder
import AesOnGpu.Dram.Timing

/-! # No request is lost

Each request that is pushed is held in one place until its last burst is issued; its
bursts are in the pipeline until they come back; and with the last of them it leaves.
-/

namespace AesOnGpu.Dram

/-! ## Where a request is -/

section

variable (config : MemoryConfig) (req : DramReq)

def inScheduler (scheduler : FrfcfsScheduler) : Nat :=
  ∑ b ∈ Finset.range config.nbk, ((scheduler.m_queue b).map ListNode.req).count req

def inBanks (bk : Nat → Bank) : Nat :=
  ∑ j ∈ Finset.range config.nbk, if (bk j).mrq = some req then 1 else 0

/-- The places before the pipeline that refer to the request. -/
def held (s : DramT) : Nat :=
  s.mrqq.nodes.count (some req) + inScheduler config req s.m_frfcfs_scheduler +
    inBanks config req s.bk

/-- The entries in the pipeline that refer to it. -/
def piped (s : DramT) : Nat := s.rwq.nodes.count (some req)

end

/-! ## What has happened to it -/

def Command.mrq : Command → Option DramReq
  | .RD _ mrq => some mrq
  | .WR _ mrq => some mrq
  | _ => none

def CycleLog.issued (log : CycleLog) : Option DramReq := log.command.bind Command.mrq

/-- What the events say about cycles. -/
def logged {α : Type} (events : List Event) (read : CycleLog → Option α) : List α :=
  events.filterMap fun
    | .pushed _ => none
    | .cycle log => read log

def pushed (events : List Event) : List DramReq :=
  events.filterMap fun
    | .pushed mrq => some mrq
    | .cycle _ => none

/-- The bursts that were pushed into the pipeline. -/
def issues (events : List Event) (req : DramReq) : Nat :=
  (logged events CycleLog.issued).count req

def pops (events : List Event) (req : DramReq) : Nat :=
  (logged events CycleLog.popped).count req

def outcomes (req : DramReq) (left : List (DramReq × Outcome)) : List Outcome :=
  (left.filter (·.1 = req)).map Prod.snd

/-- The times a request has left. -/
def leaves (events : List Event) (req : DramReq) : List Outcome :=
  outcomes req (logged events CycleLog.left)

structure Conserved (config : MemoryConfig) (s : DramT) (pushed : List DramReq)
    (issues pops : DramReq → Nat) (leaves : DramReq → List Outcome) : Prop where
  rwq : s.rwq.Valid
  mrqq : s.mrqq.Valid
  scheduler : ∃ calls, FrfcfsScheduler.Reaches config.nbk s.m_frfcfs_scheduler calls
  fresh : ∀ req ∈ pushed, req.id < s.fresh
  ids : (pushed.map DramReq.id).Nodup
  account : ∀ req ∈ pushed, Account config req (held config req s) (piped req s)
    (s.requests req.id) (issues req) (pops req) (leaves req)
  absent : ∀ req, req ∉ pushed → held config req s = 0 ∧ piped req s = 0 ∧ issues req = 0 ∧
    pops req = 0 ∧ leaves req = []

section

variable {config : MemoryConfig} {s s' : DramT} {all : List DramReq}
  {issues pops : DramReq → Nat} {leaves : DramReq → List Outcome}

theorem Conserved.eq_of_id (conserved : Conserved config s all issues pops leaves)
    {req other : DramReq} (here : req ∈ all) (there : other ∈ all) (same : other.id = req.id) :
    other = req :=
  List.inj_on_of_nodup_map conserved.ids there here same

theorem Conserved.pushed_of_held (conserved : Conserved config s all issues pops leaves)
    {req : DramReq} (holds : 0 < held config req s + piped req s) : req ∈ all := by
  by_contra absent
  obtain ⟨noneHeld, nonePiped, -⟩ := conserved.absent req absent
  omega

/-- Everything the accounts speak of is the same. -/
structure SameRequests (config : MemoryConfig) (s s' : DramT) : Prop where
  rwq : s'.rwq = s.rwq
  mrqq : s'.mrqq.Valid
  scheduler : ∃ calls, FrfcfsScheduler.Reaches config.nbk s'.m_frfcfs_scheduler calls
  fresh : s'.fresh = s.fresh
  requests : s'.requests = s.requests
  held : ∀ req, held config req s' = held config req s

theorem Conserved.same (conserved : Conserved config s all issues pops leaves)
    (same : SameRequests config s s') : Conserved config s' all issues pops leaves where
  rwq := same.rwq ▸ conserved.rwq
  mrqq := same.mrqq
  scheduler := same.scheduler
  fresh := same.fresh ▸ conserved.fresh
  ids := conserved.ids
  account req inside := by
    rw [same.held, piped, same.rwq, same.requests]
    exact conserved.account req inside
  absent req outside := by
    rw [same.held, piped, same.rwq]
    exact conserved.absent req outside

theorem SameRequests.trans {s'' : DramT} (first : SameRequests config s s')
    (second : SameRequests config s' s'') : SameRequests config s s'' where
  rwq := second.rwq.trans first.rwq
  mrqq := second.mrqq
  scheduler := second.scheduler
  fresh := second.fresh.trans first.fresh
  requests := second.requests.trans first.requests
  held req := (second.held req).trans (first.held req)

/-! ## The sums -/

theorem inBanks_congr {bk bk' : Nat → Bank} (same : ∀ j, (bk' j).mrq = (bk j).mrq)
    (req : DramReq) : inBanks config req bk' = inBanks config req bk := by
  refine Finset.sum_congr rfl fun j _ => ?_
  rw [same j]

theorem inBanks_setMrq {j : Nat} (inside : j < config.nbk) (mrq : Option DramReq) (req : DramReq) :
    inBanks config req (s.setMrq j mrq) + (if (s.bk j).mrq = some req then 1 else 0) =
      inBanks config req s.bk + if mrq = some req then 1 else 0 := by
  have here := Finset.mem_range.mpr inside
  rw [inBanks, inBanks, ← Finset.add_sum_erase _ _ here, ← Finset.add_sum_erase _ _ here]
  have others : ∑ i ∈ (Finset.range config.nbk).erase j,
      (if (s.setMrq j mrq i).mrq = some req then 1 else 0) =
      ∑ i ∈ (Finset.range config.nbk).erase j, if (s.bk i).mrq = some req then 1 else 0 := by
    refine Finset.sum_congr rfl fun i there => ?_
    rw [DramT.setMrq, Function.update_of_ne (Finset.ne_of_mem_erase there)]
  have now : (s.setMrq j mrq j).mrq = mrq := by rw [DramT.setMrq, Function.update_self]
  rw [others, now]
  omega

theorem inScheduler_add {scheduler scheduler' : FrfcfsScheduler} {new : DramReq}
    (banks : scheduler.nbk = config.nbk) (run : scheduler.add_req new = some scheduler')
    (req : DramReq) : inScheduler config req scheduler' =
      inScheduler config req scheduler + if new = req then 1 else 0 := by
  rw [FrfcfsScheduler.add_req] at run
  split at run
  on_goal 2 => cases run
  rename_i inside
  cases run
  have here := Finset.mem_range.mpr (banks ▸ inside)
  rw [inScheduler, inScheduler, ← Finset.add_sum_erase _ _ here, ← Finset.add_sum_erase _ _ here]
  have others : ∑ b ∈ (Finset.range config.nbk).erase new.bk,
      ((Function.update scheduler.m_queue new.bk
        (⟨scheduler.fresh, new⟩ :: scheduler.m_queue new.bk) b).map ListNode.req).count req =
      ∑ b ∈ (Finset.range config.nbk).erase new.bk,
        ((scheduler.m_queue b).map ListNode.req).count req := by
    refine Finset.sum_congr rfl fun b there => ?_
    rw [Function.update_of_ne (Finset.ne_of_mem_erase there)]
  dsimp only
  rw [others, Function.update_self, List.map_cons, List.count_cons]
  have same : (if (new == req) = true then 1 else 0) = if new = req then 1 else 0 := by
    simp only [beq_iff_eq]
  dsimp only
  rw [same]
  omega

theorem inScheduler_without {scheduler : FrfcfsScheduler} {calls : List FrfcfsScheduler.Event}
    (sound : FrfcfsScheduler.Sound config.nbk scheduler calls) {b : Nat} {node : ListNode}
    (waits : node ∈ FrfcfsScheduler.pending calls b) (req : DramReq) :
    inScheduler config req scheduler =
      inScheduler config req (scheduler.without b node) + if node.req = req then 1 else 0 := by
  have here := Finset.mem_range.mpr (sound.bank b node waits).2
  rw [inScheduler, inScheduler, ← Finset.add_sum_erase _ _ here, ← Finset.add_sum_erase _ _ here,
    FrfcfsScheduler.without]
  dsimp only
  have others : ∑ i ∈ (Finset.range config.nbk).erase b,
      ((Function.update scheduler.m_queue b
        ((scheduler.m_queue b).filter (·.iterator ≠ node.iterator)) i).map ListNode.req).count req =
      ∑ i ∈ (Finset.range config.nbk).erase b,
        ((scheduler.m_queue i).map ListNode.req).count req := by
    refine Finset.sum_congr rfl fun i there => ?_
    rw [Function.update_of_ne (Finset.ne_of_mem_erase there)]
  have removed : (((FrfcfsScheduler.pending calls b)).map ListNode.req).count req =
      (((FrfcfsScheduler.pending calls b).filter
        (·.iterator ≠ node.iterator)).map ListNode.req).count req +
        if node.req = req then 1 else 0 := by
    have perm := (List.perm_cons_erase waits).map ListNode.req
    rw [FrfcfsScheduler.without_eq_erase (sound.distinct b) waits, perm.count_eq, List.map_cons,
      List.count_cons]
    simp only [beq_iff_eq]
  rw [others, Function.update_self, sound.queue, removed]
  omega

/-! ## Scheduling -/

def Schedules (config : MemoryConfig) (s : DramT) : Prop :=
  s.mrqq.Valid ∧ ∃ calls, FrfcfsScheduler.Reaches config.nbk s.m_frfcfs_scheduler calls

theorem SameRequests.refl (ready : Schedules config s) : SameRequests config s s :=
  ⟨rfl, ready.1, ready.2, rfl, rfl, fun _ => rfl⟩

theorem SameRequests.ready (same : SameRequests config s s') : Schedules config s' :=
  ⟨same.mrqq, same.scheduler⟩

theorem fifo_same (ready : Schedules config s) (run : s.scheduler_fifo config = some s') :
    SameRequests config s s' := by
  rw [DramT.scheduler_fifo] at run
  split at run
  · cases run
    exact .refl ready
  · split at run
    · cases run
    · rename_i head _
      split at run
      · rename_i inside
        split at run
        · rename_i free
          obtain ⟨popped, pop, eq⟩ := Option.map_eq_some_iff.mp run
          cases eq
          have valid := FifoPipeline.valid_of_pop ready.1 pop
          refine ⟨rfl, valid, ready.2, rfl, rfl, fun req => ?_⟩
          have fewer := FifoPipeline.count_pop req ready.1 pop
          have more := inBanks_setMrq (s := s) inside popped.2 req
          rw [free] at more
          simp only [held] at *
          simp at more
          omega
        · cases run
          exact .refl ready
      · cases run

theorem handOver_same {fuel : Nat} (ready : Schedules config s)
    (run : s.handOver config fuel = some s') : SameRequests config s s' := by
  induction fuel generalizing s with
  | zero =>
    cases run
    exact .refl ready
  | succ fuel ih =>
    rw [DramT.handOver] at run
    split at run
    · split at run
      · cases run
      · cases run
      · rename_i mrqq new pop
        split at run
        · cases run
        · rename_i scheduler add
          obtain ⟨valid, calls, reaches⟩ := ready
          have banks := (FrfcfsScheduler.sound_of_reaches reaches).banks
          have moved : SameRequests config s
              { s with mrqq, m_frfcfs_scheduler := scheduler } := by
            refine ⟨rfl, FifoPipeline.valid_of_pop valid pop, ⟨_, .add reaches add⟩, rfl, rfl,
              fun req => ?_⟩
            have fewer := FifoPipeline.count_pop req valid pop
            have more := inScheduler_add banks add req
            simp only [Option.some.injEq] at fewer
            simp only [held]
            omega
          exact moved.trans (ih moved.ready run)
    · cases run
      exact .refl ready

theorem serveBank_same {rounds : List Nat} (ready : Schedules config s)
    (run : s.serveBank config rounds = some s') : SameRequests config s s' := by
  induction rounds generalizing s with
  | nil =>
    cases run
    exact .refl ready
  | cons i rest ih =>
    rw [DramT.serveBank] at run
    obtain ⟨calls, reaches⟩ := ready.2
    have sound := FrfcfsScheduler.sound_of_reaches reaches
    split at run
    · rename_i free
      split at run
      · cases run
      · rename_i scheduler idle
        obtain rfl := sound.schedule_none idle
        exact ih ready run
      · rename_i scheduler node next
        cases run
        obtain ⟨due, eq⟩ := sound.schedule_some next
        have waits := (FrfcfsScheduler.mem_of_oldest due.oldest).1
        refine ⟨rfl, ready.1, ⟨_, .schedule reaches next⟩, rfl, rfl, fun req => ?_⟩
        have fewer := inScheduler_without sound waits req
        have more := inBanks_setMrq (s := s) (sound.bank _ node waits).2 (some node.req) req
        rw [free] at more
        simp only [Option.some.injEq] at more
        simp only [held, eq]
        simp at more
        omega
    · exact ih ready run

theorem scheduler_same (ready : Schedules config s) (run : s.scheduler config = some s') :
    SameRequests config s s' := by
  rw [DramT.scheduler] at run
  split at run
  · exact fifo_same ready run
  · obtain ⟨between, first, second⟩ := Option.bind_eq_some_iff.mp run
    have handed := handOver_same ready first
    exact handed.trans (serveBank_same handed.ready second)

/-! ## The returning side -/

theorem finish_spec {cmd : DramReq} {left : Option (DramReq × Outcome)}
    (run : s.finish config cmd = some (s', left)) :
    ∃ counts, s.requests cmd.id = some counts ∧
      (s'.rwq = s.rwq ∧ s'.mrqq = s.mrqq ∧ s'.m_frfcfs_scheduler = s.m_frfcfs_scheduler ∧
        s'.bk = s.bk ∧ s'.fresh = s.fresh) ∧
      (¬ u32 (counts.dqbytes + config.dram_atom_size) ≥ cmd.nbytes ∧ left = none ∧
          s'.requests = Function.update s.requests cmd.id
            (some { counts with dqbytes := u32 (counts.dqbytes + config.dram_atom_size) }) ∨
        u32 (counts.dqbytes + config.dram_atom_size) ≥ cmd.nbytes ∧
          left = some (cmd, cmd.outcome) ∧ s'.requests = Function.update s.requests cmd.id none) := by
  rw [DramT.finish] at run
  split at run
  · cases run
  · rename_i counts alive
    refine ⟨counts, alive, ?_⟩
    dsimp only at run
    split at run
    · rename_i enough
      split at run
      · rename_i writeback
        cases run
        exact ⟨⟨rfl, rfl, rfl, rfl, rfl⟩, Or.inr ⟨enough, by rw [DramReq.outcome, if_pos writeback], rfl⟩⟩
      · rename_i answered
        obtain ⟨returnq, -, eq⟩ := Option.map_eq_some_iff.mp run
        cases eq
        exact ⟨⟨rfl, rfl, rfl, rfl, rfl⟩, Or.inr ⟨enough, by rw [DramReq.outcome, if_neg answered], rfl⟩⟩
    · rename_i more
      cases run
      exact ⟨⟨rfl, rfl, rfl, rfl, rfl⟩, Or.inl ⟨more, rfl, rfl⟩⟩

theorem outcomes_self (req : DramReq) (outcome : Outcome) :
    outcomes req [(req, outcome)] = [outcome] := by simp [outcomes]

theorem outcomes_other {req other : DramReq} (different : other ≠ req) (outcome : Outcome) :
    outcomes req [(other, outcome)] = [] := by simp [outcomes, different]

theorem Conserved.drain {popped : Option DramReq} {left : Option (DramReq × Outcome)}
    (conserved : Conserved config s all issues pops leaves)
    (run : s.drain config = some (s', popped, left)) :
    Conserved config s' all issues (fun req => pops req + if popped = some req then 1 else 0)
      (fun req => leaves req ++ outcomes req left.toList) := by
  rw [DramT.drain] at run
  split at run
  · cases run
    simpa [outcomes] using conserved
  · split at run
    · cases run
    · -- an empty node comes out
      rename_i rwq pop
      cases run
      have count := fun req => FifoPipeline.count_pop req conserved.rwq pop
      have piped_eq : ∀ req, piped req { s with rwq } = piped req s := by
        intro req
        have := count req
        simp at this
        exact this.symm
      have sameHeld : ∀ req, held config req { s with rwq } = held config req s := fun _ => rfl
      constructor
      · exact FifoPipeline.valid_of_pop conserved.rwq pop
      · exact conserved.mrqq
      · exact conserved.scheduler
      · exact conserved.fresh
      · exact conserved.ids
      · intro req inside
        rw [piped_eq, sameHeld]
        simpa [outcomes] using conserved.account req inside
      · intro req outside
        rw [piped_eq, sameHeld]
        simpa [outcomes] using conserved.absent req outside
    · rename_i rwq cmd pop
      -- the last pop of a request deletes it, an earlier one counts its bytes
      obtain ⟨finished, finish, eq⟩ := Option.map_eq_some_iff.mp run
      cases eq
      obtain ⟨counts, alive, ⟨sameRwq, sameMrqq, sameScheduler, sameBanks, sameFresh⟩, ending⟩ :=
        finish_spec finish
      have valid := FifoPipeline.valid_of_pop conserved.rwq pop
      have count : ∀ req, piped req s = piped req finished.1 + if cmd = req then 1 else 0 := by
        intro req
        have := FifoPipeline.count_pop req conserved.rwq pop
        rw [piped, piped, sameRwq, this]
        simp only [Option.some.injEq]
      have sameHeld : ∀ req, held config req finished.1 = held config req s := by
        intro req
        rw [held, held, sameMrqq, sameScheduler, sameBanks]
      have counted := count cmd
      rw [if_pos rfl] at counted
      have here : cmd ∈ all := conserved.pushed_of_held (by omega)
      constructor
      · exact sameRwq ▸ valid
      · exact sameMrqq ▸ conserved.mrqq
      · exact sameScheduler ▸ conserved.scheduler
      · exact sameFresh ▸ conserved.fresh
      · exact conserved.ids
      · intro req inside
        rw [sameHeld]
        by_cases same : cmd = req
        · subst same
          have account := conserved.account cmd inside
          rw [counted, alive] at account
          rw [if_pos rfl]
          cases ending with
          | inl more =>
            rw [more.2.1, more.2.2, Function.update_self]
            simpa [outcomes] using account.pop more.1
          | inr last =>
            rw [last.2.1, last.2.2, Function.update_self, Option.toList_some, outcomes_self]
            exact account.leave last.1
        · have otherId : req.id ≠ cmd.id := fun sameId =>
            same (conserved.eq_of_id here inside sameId).symm
          have account := conserved.account req inside
          rw [count req, if_neg same, Nat.add_zero] at account
          have pops_eq : (if some cmd = some req then 1 else 0) = 0 := by simp [same]
          rw [pops_eq, Nat.add_zero]
          cases ending with
          | inl more =>
            rw [more.2.1, more.2.2, Function.update_of_ne otherId]
            simpa [outcomes] using account
          | inr last =>
            rw [last.2.1, last.2.2, Function.update_of_ne otherId, Option.toList_some,
              outcomes_other same, List.append_nil]
            exact account
      · intro req outside
        have different : cmd ≠ req := fun same => outside (same ▸ here)
        obtain ⟨noneHeld, nonePiped, noIssue, noPop, noLeave⟩ := conserved.absent req outside
        rw [count req, if_neg different, Nat.add_zero] at nonePiped
        refine ⟨(sameHeld req).trans noneHeld, nonePiped, noIssue, by simp [noPop, different], ?_⟩
        rw [noLeave, List.nil_append]
        cases ending with
        | inl more => rw [more.2.1]; rfl
        | inr last => rw [last.2.1, Option.toList_some, outcomes_other different]

/-! ## The issuing side -/

theorem sameRequests_of_bk (conserved : Conserved config s all issues pops leaves)
    (queues : s'.rwq = s.rwq ∧ s'.mrqq = s.mrqq ∧ s'.m_frfcfs_scheduler = s.m_frfcfs_scheduler)
    (sameFresh : s'.fresh = s.fresh) (requests : s'.requests = s.requests)
    (banks : ∀ j, (s'.bk j).mrq = (s.bk j).mrq) : SameRequests config s s' where
  rwq := queues.1
  mrqq := queues.2.1 ▸ conserved.mrqq
  scheduler := queues.2.2 ▸ conserved.scheduler
  fresh := sameFresh
  requests := requests
  held req := by rw [held, held, queues.2.1, queues.2.2, inBanks_congr banks]

theorem update_mrq {bk : Nat → Bank} {j : Nat} {bank : Bank} (same : bank.mrq = (bk j).mrq)
    (other : Nat) : (Function.update bk j bank other).mrq = (bk other).mrq := by
  rw [Function.update_apply]
  split
  · rename_i here
    rw [here, same]
  · rfl

theorem transfer_spec {j : Nat} {mrq : DramReq} {direction : Direction} {latency : Nat}
    (valid : s.rwq.Valid) (run : s.transfer config j mrq direction latency = some s') :
    ∃ counts, s.requests mrq.id = some counts ∧
      s'.requests = Function.update s.requests mrq.id
        (some { counts with txbytes := u32 (counts.txbytes + config.dram_atom_size) }) ∧
      s'.bk = (if u32 (counts.txbytes + config.dram_atom_size) < mrq.nbytes then s.bk
        else s.setMrq j none) ∧
      s'.rwq.Valid ∧ (∀ req, piped req s' = piped req s + if mrq = req then 1 else 0) ∧
      s'.mrqq = s.mrqq ∧ s'.m_frfcfs_scheduler = s.m_frfcfs_scheduler ∧ s'.fresh = s.fresh := by
  rw [DramT.transfer] at run
  split at run
  · cases run
  · rename_i turned turn
    have turnedSpec : turned.Valid ∧
        ∀ req, turned.nodes.count (some req) = s.rwq.nodes.count (some req) := by
      split at turn
      · cases turn
        exact ⟨valid, fun _ => rfl⟩
      · exact ⟨(FifoPipeline.count_set_min_length mrq valid turn).1,
          fun req => (FifoPipeline.count_set_min_length req valid turn).2⟩
    split at run
    · rename_i rwq counts push alive
      dsimp only at run
      cases run
      refine ⟨counts, alive, rfl, rfl, (FifoPipeline.valid_of_push turnedSpec.1 push).1,
        fun req => ?_, rfl, rfl, rfl⟩
      have count := FifoPipeline.count_push req turnedSpec.1 push
      rw [turnedSpec.2] at count
      exact count
    · cases run

theorem Conserved.transfer {j : Nat} {mrq : DramReq} {direction : Direction} {latency : Nat}
    (conserved : Conserved config s all issues pops leaves) (inside : j < config.nbk)
    (holds : (s.bk j).mrq = some mrq)
    (run : s.transfer config j mrq direction latency = some s') :
    Conserved config s' all (fun req => issues req + if mrq = req then 1 else 0) pops leaves := by
  obtain ⟨counts, alive, requests, banks, valid, count, sameMrqq, sameScheduler, sameFresh⟩ :=
    transfer_spec conserved.rwq run
  have cleared := fun req => inBanks_setMrq (s := s) inside none req
  have inBank : 0 < inBanks config mrq s.bk := by
    have := cleared mrq
    rw [holds, if_pos rfl, if_neg (by simp)] at this
    omega
  have isHeld : 0 < held config mrq s := by
    rw [held]
    omega
  have here : mrq ∈ all := conserved.pushed_of_held (by omega)
  have heldSelf : held config mrq s' =
      if u32 (counts.txbytes + config.dram_atom_size) < mrq.nbytes then held config mrq s
      else held config mrq s - 1 := by
    have now := cleared mrq
    rw [holds, if_pos rfl, if_neg (by simp)] at now
    rw [held, held, sameMrqq, sameScheduler, banks]
    split
    · rfl
    · omega
  have heldOther : ∀ req, mrq ≠ req → held config req s' = held config req s := by
    intro req different
    have now := cleared req
    rw [holds, if_neg (by simp [different]), if_neg (by simp)] at now
    rw [held, held, sameMrqq, sameScheduler, banks]
    split
    · rfl
    · omega
  constructor
  · exact valid
  · exact sameMrqq ▸ conserved.mrqq
  · exact sameScheduler ▸ conserved.scheduler
  · exact sameFresh ▸ conserved.fresh
  · exact conserved.ids
  · intro req pushed
    rw [count, requests]
    by_cases same : mrq = req
    · subst same
      rw [if_pos rfl, Function.update_self, heldSelf]
      have account := conserved.account mrq pushed
      rw [alive] at account
      exact account.issue isHeld
    · have otherId : req.id ≠ mrq.id := fun sameId =>
        same (conserved.eq_of_id here pushed sameId).symm
      rw [if_neg same, Function.update_of_ne otherId, heldOther req same]
      exact conserved.account req pushed
  · intro req outside
    have different : mrq ≠ req := fun same => outside (same ▸ here)
    obtain ⟨noneHeld, nonePiped, noIssue, rest⟩ := conserved.absent req outside
    rw [heldOther req different, count, if_neg different]
    exact ⟨noneHeld, nonePiped, noIssue, rest⟩

theorem Conserved.issued {command : Command}
    (conserved : Conserved config s all issues pops leaves)
    (issued : DramT.Issued config s s' command) :
    Conserved config s' all (fun req => issues req + if command.mrq = some req then 1 else 0)
      pops leaves := by
  cases issued with
  | RD inside holds _ run =>
    have moved := conserved.transfer inside holds run
    simp only [Command.mrq, Option.some.injEq]
    exact moved.same (sameRequests_of_bk moved ⟨rfl, rfl, rfl⟩ rfl rfl (update_mrq rfl))
  | WR inside holds _ run =>
    have moved := conserved.transfer inside holds run
    simp only [Command.mrq, Option.some.injEq]
    exact moved.same (sameRequests_of_bk moved ⟨rfl, rfl, rfl⟩ rfl rfl (update_mrq rfl))
  | ACT _ _ _ =>
    exact conserved.same (sameRequests_of_bk conserved ⟨rfl, rfl, rfl⟩ rfl rfl (update_mrq rfl))
  | PRE _ _ _ =>
    exact conserved.same (sameRequests_of_bk conserved ⟨rfl, rfl, rfl⟩ rfl rfl (update_mrq rfl))

theorem Conserved.cycle {log : CycleLog} (conserved : Conserved config s all issues pops leaves)
    (run : s.cycle config = some (s', log)) :
    Conserved config s' all (fun req => issues req + if log.issued = some req then 1 else 0)
      (fun req => pops req + if log.popped = some req then 1 else 0)
      (fun req => leaves req ++ outcomes req log.left.toList) := by
  obtain ⟨drained, scheduled, issued, drainRun, scheduleRun, issueRun, rfl⟩ :=
    DramT.cycle_parts run
  have afterDrain := conserved.drain drainRun
  have afterSchedule := afterDrain.same
    (scheduler_same ⟨afterDrain.mrqq, afterDrain.scheduler⟩ scheduleRun)
  have afterIssue : Conserved config issued all
      (fun req => issues req + if log.issued = some req then 1 else 0)
      (fun req => pops req + if log.popped = some req then 1 else 0)
      (fun req => leaves req ++ outcomes req log.left.toList) := by
    rw [CycleLog.issued]
    cases DramT.issue_range issueRun with
    | inl idle =>
      rw [idle.1, idle.2]
      exact afterSchedule
    | inr busy =>
      obtain ⟨command, eq, byBranch⟩ := busy
      rw [eq]
      exact afterSchedule.issued byBranch
  refine afterIssue.same (sameRequests_of_bk afterIssue ⟨rfl, rfl, rfl⟩ rfl rfl fun j => ?_)
  rw [DramT.decrement]
  dsimp only
  split <;> rfl

/-! ## Runs -/

theorem conserved_new {id : Nat} (created : DramT.new config id = some s) :
    Conserved config s [] (fun _ => 0) (fun _ => 0) (fun _ => []) := by
  rw [DramT.new] at created
  split at created
  on_goal 2 => cases created
  obtain ⟨rwq, rwqRun, rest⟩ := Option.bind_eq_some_iff.mp created
  obtain ⟨mrqq, mrqqRun, rest'⟩ := Option.bind_eq_some_iff.mp rest
  obtain ⟨returnq, -, eq⟩ := Option.bind_eq_some_iff.mp rest'
  rw [FifoPipeline.new_eq (Nat.succ_pos _) (Nat.le_succ _)] at rwqRun
  rw [FifoPipeline.new_eq (by omega) (by omega)] at mrqqRun
  cases rwqRun
  cases mrqqRun
  cases eq
  constructor
  · exact ⟨by simp, by simp⟩
  · exact ⟨by simp, by simp⟩
  · exact ⟨[], .new⟩
  · intro req inside
    cases inside
  · exact .nil
  · intro req inside
    cases inside
  · intro req _
    refine ⟨?_, FifoPipeline.count_replicate_none req _, rfl, rfl, rfl⟩
    simp [held, inScheduler, inBanks, FrfcfsScheduler.new]

theorem Conserved.push {data : MemFetch} {compressedSize : Nat} {mrq : DramReq}
    (conserved : Conserved config s all issues pops leaves)
    (run : s.push config data compressedSize = some (s', mrq)) :
    Conserved config s' (all ++ [mrq]) issues pops leaves := by
  rw [DramT.push] at run
  split at run
  on_goal 2 => cases run
  obtain ⟨mrqq, push, eq⟩ := Option.map_eq_some_iff.mp run
  cases eq
  generalize newEq : DramReq.new config s.fresh data compressedSize = mrq at push
  have newId : mrq.id = s.fresh := newEq ▸ rfl
  have new : mrq ∉ all := fun old => Nat.lt_irrefl _ (newId ▸ conserved.fresh mrq old)
  have count := fun req => FifoPipeline.count_push req conserved.mrqq push
  have heldEq : ∀ req, held config req { s with
      mrqq, requests := Function.update s.requests s.fresh (some ⟨0, 0⟩), fresh := s.fresh + 1 } =
      held config req s + if mrq = req then 1 else 0 := by
    intro req
    rw [held, held]
    dsimp only
    rw [count req]
    omega
  constructor
  · exact conserved.rwq
  · exact (FifoPipeline.valid_of_push conserved.mrqq push).1
  · exact conserved.scheduler
  · intro req inside
    cases List.mem_append.mp inside with
    | inl old => exact Nat.lt_succ_of_lt (conserved.fresh req old)
    | inr last =>
      obtain rfl := List.mem_singleton.mp last
      exact newId ▸ Nat.lt_succ_self _
  · rw [List.map_append]
    refine conserved.ids.append (List.nodup_singleton _) fun id old last => ?_
    obtain ⟨req, inside, rfl⟩ := List.mem_map.mp old
    have low := conserved.fresh req inside
    rw [List.mem_singleton.mp last, newId] at low
    exact Nat.lt_irrefl _ low
  · intro req inside
    rw [heldEq]
    cases List.mem_append.mp inside with
    | inl old =>
      have different : mrq ≠ req := fun same => new (same ▸ old)
      have otherId : req.id ≠ s.fresh := Nat.ne_of_lt (conserved.fresh req old)
      rw [if_neg different]
      dsimp only
      rw [Function.update_of_ne otherId]
      exact conserved.account req old
    | inr last =>
      obtain rfl := List.mem_singleton.mp last
      obtain ⟨noneHeld, nonePiped, noIssue, noPop, noLeave⟩ := conserved.absent req new
      have nonePiped' : piped req { s with
          mrqq, requests := Function.update s.requests s.fresh (some ⟨0, 0⟩),
          fresh := s.fresh + 1 } = 0 := nonePiped
      rw [if_pos rfl, noneHeld, nonePiped', noIssue, noPop, noLeave, newId]
      dsimp only
      rw [Function.update_self]
      exact account_new
  · intro req outside
    have different : mrq ≠ req :=
      fun same => outside (List.mem_append_right _ (List.mem_singleton.mpr same.symm))
    rw [heldEq, if_neg different]
    exact conserved.absent req fun old => outside (List.mem_append_left _ old)

theorem logged_pushed {α : Type} (events : List Event) (mrq : DramReq)
    (read : CycleLog → Option α) : logged (events ++ [.pushed mrq]) read = logged events read := by
  simp [logged]

theorem logged_cycle {α : Type} (events : List Event) (log : CycleLog)
    (read : CycleLog → Option α) :
    logged (events ++ [.cycle log]) read = logged events read ++ (read log).toList := by
  rw [logged, List.filterMap_append, logged]
  cases eq : read log <;> simp [eq]

theorem count_toList {α : Type} [DecidableEq α] (found : Option α) (a : α) :
    found.toList.count a = if found = some a then 1 else 0 := by
  cases found with
  | none => rfl
  | some b => by_cases same : b = a <;> simp [same]

end

section

variable {config : MemoryConfig} {id : Nat} {s : DramT} {events : List Event}

theorem conserved_of_reaches (reaches : Reaches config id s events) :
    Conserved config s (pushed events) (issues events) (pops events) (leaves events) := by
  induction reaches with
  | new created => exact conserved_new created
  | @push s s' events data compressedSize mrq _ run conserved =>
    have all : pushed (events ++ [.pushed mrq]) = pushed events ++ [mrq] := by simp [pushed]
    have sameIssues : issues (events ++ [.pushed mrq]) = issues events := by
      funext req
      rw [issues, logged_pushed, issues]
    have samePops : pops (events ++ [.pushed mrq]) = pops events := by
      funext req
      rw [pops, logged_pushed, pops]
    have sameLeaves : leaves (events ++ [.pushed mrq]) = leaves events := by
      funext req
      rw [leaves, logged_pushed, leaves]
    rw [all, sameIssues, samePops, sameLeaves]
    exact conserved.push run
  | @cycle s s' events log _ run conserved =>
    have all : pushed (events ++ [.cycle log]) = pushed events := by simp [pushed]
    have moreIssues : issues (events ++ [.cycle log]) =
        fun req => issues events req + if log.issued = some req then 1 else 0 := by
      funext req
      rw [issues, logged_cycle, List.count_append, count_toList, issues]
    have morePops : pops (events ++ [.cycle log]) =
        fun req => pops events req + if log.popped = some req then 1 else 0 := by
      funext req
      rw [pops, logged_cycle, List.count_append, count_toList, pops]
    have moreLeaves : leaves (events ++ [.cycle log]) =
        fun req => leaves events req ++ outcomes req log.left.toList := by
      funext req
      rw [leaves, logged_cycle, outcomes, List.filter_append, List.map_append, leaves, outcomes,
        outcomes]
    rw [all, moreIssues, morePops, moreLeaves]
    exact conserved.cycle run
  | return_queue_pop _ run conserved =>
    rw [DramT.return_queue_pop] at run
    obtain ⟨popped, -, eq⟩ := Option.map_eq_some_iff.mp run
    cases eq
    exact conserved.same (sameRequests_of_bk conserved ⟨rfl, rfl, rfl⟩ rfl rfl fun _ => rfl)

end

end AesOnGpu.Dram
