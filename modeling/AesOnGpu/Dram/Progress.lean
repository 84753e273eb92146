import AesOnGpu.Dram.Conservation

/-! # Every request leaves

When nothing is pushed any more, rounds in which an answer is taken and a cycle goes by empty the
DRAM.  A round lowers the first of these that it changes: the bursts that are still to be issued,
the requests in front of the banks, the activations and precharges that the banks still need, and
the way that the entries in the pipeline have to go.  If it changes none of them, a timer holds
back the next command, and the timers run down.
-/

namespace AesOnGpu.Dram

/-- A DRAM with bank groups for its banks, a write latency that fits into the pipeline, and bursts
    that transfer something. -/
structure MemoryConfig.Usable (config : MemoryConfig) : Prop where
  banks : config.nbk < 2 ^ 31
  latency : config.WL ≤ config.CL
  atom : 0 < config.dram_atom_size

structure DramReq.Fits (config : MemoryConfig) (req : DramReq) : Prop where
  bank : req.bk < config.nbk
  size : req.nbytes + config.dram_atom_size < 2 ^ 32

theorem exists_last {config : MemoryConfig} {req : DramReq} (usable : config.Usable)
    (fits : req.Fits config) : ∃ k, Last config req k := by
  have enough : ∃ k, 0 < k ∧ req.nbytes ≤ counted config k := by
    refine ⟨req.nbytes / config.dram_atom_size + 1, Nat.succ_pos _, ?_⟩
    have low : req.nbytes < (req.nbytes / config.dram_atom_size + 1) * config.dram_atom_size :=
      (Nat.div_lt_iff_lt_mul usable.atom).mp (Nat.lt_succ_self _)
    have high := Nat.div_mul_le_self req.nbytes config.dram_atom_size
    have size := fits.size
    rw [counted, u32_natCast, Nat.mod_eq_of_lt (by rw [Nat.succ_mul]; omega)]
    exact low.le
  -- the least number of bursts that is enough
  have found := Nat.find_spec enough
  refine ⟨Nat.find enough, found.1, found.2, fun fewer positive below => ?_⟩
  by_contra reached
  exact Nat.find_min enough below ⟨positive, Nat.not_lt.mp reached⟩

/-! ## Timers -/

namespace DramT

variable {config : MemoryConfig} {s s' : DramT}

def timers (config : MemoryConfig) (s : DramT) : List Nat :=
  [s.RRDc, s.CCDc, s.RTWc, s.WTRc] ++
    (List.range config.nbk).flatMap (fun j => [(s.bk j).RCDc, (s.bk j).RASc, (s.bk j).RCc,
      (s.bk j).RPc, (s.bk j).RCDWRc, (s.bk j).WTPc, (s.bk j).RTPc]) ++
    (List.range config.nbkgrp).flatMap fun g => [(s.bkgrp g).CCDLc, (s.bkgrp g).RTPLc]

theorem timers_decrement :
    (s.decrement config).timers config = (s.timers config).map (· - 1) := by
  simp only [timers, decrement, List.map_append, List.map_flatMap, List.map_cons, List.map_nil]
  congr 1
  · congr 1
    refine List.flatMap_congr fun j inside => ?_
    rw [if_pos (List.mem_range.mp inside)]
  · refine List.flatMap_congr fun g inside => ?_
    rw [if_pos (List.mem_range.mp inside)]

theorem sum_decrement {timer : Nat} (runs : timer ∈ s.timers config) (positive : 0 < timer) :
    ((s.decrement config).timers config).sum < (s.timers config).sum := by
  rw [timers_decrement]
  have lower := List.sum_lt_sum (l := s.timers config) (· - 1) (fun timer => timer)
    (fun timer _ => Nat.sub_le timer 1) ⟨timer, runs, Nat.sub_lt positive Nat.one_pos⟩
  rwa [List.map_id'] at lower

theorem bankTimer_mem {j timer : Nat} (inside : j < config.nbk)
    (runs : timer ∈ [(s.bk j).RCDc, (s.bk j).RASc, (s.bk j).RCc, (s.bk j).RPc, (s.bk j).RCDWRc,
      (s.bk j).WTPc, (s.bk j).RTPc]) : timer ∈ s.timers config :=
  List.mem_append_left _ (List.mem_append_right _
    (List.mem_flatMap.mpr ⟨j, List.mem_range.mpr inside, runs⟩))

theorem grp_lt {j : Nat} (usable : config.Usable) (accepted : config.Accepted)
    (inside : j < config.nbk) : grp config j < config.nbkgrp := by
  have banks := usable.banks
  obtain ⟨groups, -, -⟩ := accepted
  have positive : 0 < config.nbkgrp := Nat.pos_of_ne_zero groups
  have small : config.nbk / config.nbkgrp < 2 ^ 31 := (Nat.div_le_self _ _).trans_lt banks
  rw [grp, MemoryConfig.bk_tag_length, if_pos small, Nat.shiftRight_eq_div_pow, Nat.div_lt_iff_lt_mul (Nat.two_pow_pos _)]
  refine inside.trans ?_
  rw [Nat.mul_comm, ← Nat.div_lt_iff_lt_mul positive]
  exact Nat.lt_size_self _

theorem groupTimer_mem {g timer : Nat} (inside : g < config.nbkgrp)
    (runs : timer ∈ [(s.bkgrp g).CCDLc, (s.bkgrp g).RTPLc]) : timer ∈ s.timers config :=
  List.mem_append_right _ (List.mem_flatMap.mpr ⟨g, List.mem_range.mpr inside, runs⟩)

theorem blocked (usable : config.Usable) (accepted : config.Accepted) {j : Nat} {mrq : DramReq}
    (inside : j < config.nbk) (room : s.rwq.full = false) (noRead : ¬ s.canRead config j mrq)
    (noWrite : ¬ s.canWrite config j mrq) (noActivate : ¬ s.canActivate j)
    (noPrecharge : ¬ s.canPrecharge config j mrq) : ∃ timer ∈ s.timers config, 0 < timer := by
  by_contra expired
  have zero (timer : Nat) (runs : timer ∈ s.timers config) : timer = 0 :=
    Nat.eq_zero_of_not_pos fun positive => expired ⟨timer, runs, positive⟩
  have group := grp_lt usable accepted inside
  have RRDc : s.RRDc = 0 := zero _ (by simp [timers])
  have CCDc : s.CCDc = 0 := zero _ (by simp [timers])
  have RTWc : s.RTWc = 0 := zero _ (by simp [timers])
  have WTRc : s.WTRc = 0 := zero _ (by simp [timers])
  have RCDc : (s.bk j).RCDc = 0 := zero _ (bankTimer_mem inside (by simp))
  have RASc : (s.bk j).RASc = 0 := zero _ (bankTimer_mem inside (by simp))
  have RCc : (s.bk j).RCc = 0 := zero _ (bankTimer_mem inside (by simp))
  have RPc : (s.bk j).RPc = 0 := zero _ (bankTimer_mem inside (by simp))
  have RCDWRc : (s.bk j).RCDWRc = 0 := zero _ (bankTimer_mem inside (by simp))
  have WTPc : (s.bk j).WTPc = 0 := zero _ (bankTimer_mem inside (by simp))
  have RTPc : (s.bk j).RTPc = 0 := zero _ (bankTimer_mem inside (by simp))
  have CCDLc : (s.bkgrp (grp config j)).CCDLc = 0 := zero _ (groupTimer_mem group (by simp))
  have RTPLc : (s.bkgrp (grp config j)).RTPLc = 0 := zero _ (groupTimer_mem group (by simp))
  -- with all timers run out the state of the bank and its row let one command through
  cases state : (s.bk j).state with
  | BANK_IDLE => exact noActivate ⟨RRDc, state, RPc, RCc⟩
  | BANK_ACTIVE =>
    by_cases open_ : (s.bk j).curr_row = mrq.row
    · cases direction : mrq.rw with
      | READ => exact noRead ⟨CCDc, RCDc, CCDLc, open_, direction, WTRc, state, room⟩
      | WRITE => exact noWrite ⟨CCDc, RCDWRc, CCDLc, open_, direction, RTWc, state, room⟩
    · exact noPrecharge ⟨open_, state, RASc, WTPc, RTPc, RTPLc⟩

end DramT

/-! ## The pipeline -/

/-- The pops until the last entry comes out. -/
def wayLeft : List (Option DramReq) → Nat
  | [] => 0
  | data :: rest => if wayLeft rest = 0 ∧ data = none then 0 else wayLeft rest + 1

theorem wayLeft_append_none (nodes : List (Option DramReq)) (k : Nat) :
    wayLeft (nodes ++ List.replicate k none) = wayLeft nodes := by
  induction nodes with
  | nil =>
    induction k with
    | zero => rfl
    | succ k ih => rw [List.replicate_succ, List.nil_append] at *; simp [wayLeft, ih]
  | cons data rest ih => rw [List.cons_append, wayLeft, ih, wayLeft]

theorem wayLeft_tail (nodes : List (Option DramReq)) : wayLeft nodes.tail = wayLeft nodes - 1 := by
  cases nodes with
  | nil => rfl
  | cons data rest =>
    rw [List.tail_cons, wayLeft]
    split
    · rename_i empty
      exact empty.1
    · rfl

theorem not_mem_of_wayLeft {nodes : List (Option DramReq)} (empty : wayLeft nodes = 0)
    (req : DramReq) : some req ∉ nodes := by
  induction nodes with
  | nil => exact List.not_mem_nil
  | cons data rest ih =>
    rw [wayLeft] at empty
    split at empty
    · rename_i both
      rw [List.mem_cons, both.2]
      rintro (same | inside)
      · cases same
      · exact ih both.1 inside
    · cases empty

/-- What a DRAM's queues are like between events: the pipeline leaves room for one more entry
    than its minimum, and the other two are plain queues. -/
structure Shaped (config : MemoryConfig) (s : DramT) : Prop where
  least : s.rwq.m_min_len ≤ config.CL
  most : s.rwq.m_max_len = config.CL + 1
  mrqq : s.mrqq.m_min_len = 0
  filled : none ∉ s.mrqq.nodes
  returnq : s.returnq.Valid
  plain : s.returnq.m_min_len = 0
  positive : s.returnq.m_max_len ≠ 0
  unused : config.scheduler_type = .DRAM_FIFO → s.m_frfcfs_scheduler.m_num_pending = 0

section

variable {config : MemoryConfig} {s s' : DramT} {all : List DramReq}
  {issues pops : DramReq → Nat} {leaves : DramReq → List Outcome}

def DramT.taken (s : DramT) : DramT :=
  { s with returnq := { s.returnq with nodes := s.returnq.nodes.tail } }

theorem Shaped.taken (shaped : Shaped config s) :
    s.return_queue_pop = some (s.taken, s.returnq.top) ∧ Shaped config s.taken ∧
      s.taken.returnq.full = false := by
  have high := shaped.returnq.high
  have positive := shaped.positive
  have length := s.returnq.nodes.length_tail
  refine ⟨?_, { shaped with returnq := ⟨?_, ?_⟩ }, ?_⟩
  · rw [DramT.return_queue_pop, FifoPipeline.pop_plain shaped.plain]
    rfl
  · exact shaped.plain.trans_le (Nat.zero_le _)
  · simp only [DramT.taken]
    omega
  · rw [FifoPipeline.not_full_iff (by exact positive)]
    simp only [DramT.taken]
    omega

/-- What a cycle has done once its first part is over. -/
structure Drained (config : MemoryConfig) (s s' : DramT) : Prop where
  shaped : Shaped config s'
  room : s.returnq.full = false → s'.rwq.full = false
  way : s.returnq.full = false → wayLeft s'.rwq.nodes = wayLeft s.rwq.nodes - 1
  mrqq : s'.mrqq = s.mrqq
  scheduler : s'.m_frfcfs_scheduler = s.m_frfcfs_scheduler
  banks : s'.bk = s.bk
  timers : s'.timers config = s.timers config

theorem drain_spec (conserved : Conserved config s all issues pops leaves)
    (shaped : Shaped config s) :
    ∃ s' popped left, s.drain config = some (s', popped, left) ∧ Drained config s s' := by
  -- a full `returnq` stops the pipeline, and nothing else changes
  cases notFull : s.returnq.full with
  | true =>
    rw [DramT.drain, if_pos notFull]
    have full : s.returnq.full ≠ false := by simp [notFull]
    exact ⟨s, none, none, rfl, shaped, fun room => absurd room full, fun room => absurd room full,
      rfl, rfl, rfl, rfl⟩
  | false =>
    obtain ⟨k, pop, low, high⟩ := FifoPipeline.pop_eq conserved.rwq
    have fits : s.rwq.m_min_len < s.rwq.m_max_len :=
      shaped.most ▸ Nat.lt_succ_of_le shaped.least
    have short := FifoPipeline.pop_room conserved.rwq fits pop
    have room : FifoPipeline.full ⟨s.rwq.m_min_len, s.rwq.m_max_len,
        s.rwq.nodes.tail ++ List.replicate k none⟩ = false := by
      have nonzero := Nat.ne_of_gt (Nat.zero_lt_of_lt short)
      rw [FifoPipeline.not_full_iff (by exact nonzero)]
      exact short
    have way := (wayLeft_append_none s.rwq.nodes.tail k).trans (wayLeft_tail s.rwq.nodes)
    rw [DramT.drain, if_neg (by simp [notFull]), pop]
    cases head : s.rwq.top with
    | none => exact ⟨_, _, _, rfl, { shaped with }, fun _ => room, fun _ => way, rfl, rfl, rfl, rfl⟩
    | some cmd =>
      have inside : some cmd ∈ s.rwq.nodes := by
        rw [FifoPipeline.top, Option.join_eq_some_iff] at head
        exact List.mem_of_head? head
      have isPiped : 0 < piped cmd s := List.count_pos_iff.mpr inside
      have here : cmd ∈ all := conserved.pushed_of_held (by omega)
      -- what comes out is in the pipeline, so its request is not deleted
      obtain ⟨counts, alive⟩ : ∃ counts, s.requests cmd.id = some counts := by
        cases progress : s.requests cmd.id with
        | none => exact absurd ((conserved.account cmd here).deleted progress).2.2 (by omega)
        | some counts => exact ⟨counts, rfl⟩
      have answer := FifoPipeline.push_eq (some cmd.data)
        ((FifoPipeline.not_full_iff shaped.positive).mp notFull)
      have valid := FifoPipeline.valid_of_push shaped.returnq answer
      simp only [DramT.finish, alive, answer, Option.map_some]
      split
      · split
        · exact ⟨_, _, _, rfl, { shaped with }, fun _ => room, fun _ => way, rfl, rfl, rfl, rfl⟩
        · exact ⟨_, _, _, rfl, { shaped with returnq := valid.1 }, fun _ => room, fun _ => way,
            rfl, rfl, rfl, rfl⟩
      · exact ⟨_, _, _, rfl, { shaped with }, fun _ => room, fun _ => way, rfl, rfl, rfl, rfl⟩

/-! ## Scheduling -/

/-- The requests in front of the banks, and twice those in front of the scheduler. -/
def queued (s : DramT) : Nat := 2 * s.mrqq.nodes.length + s.m_frfcfs_scheduler.m_num_pending

/-- A part of the scheduling, after which nothing is queued more. -/
structure Moved (config : MemoryConfig) (s s' : DramT) : Prop where
  shaped : Shaped config s'
  rwq : s'.rwq = s.rwq
  fewer : queued s' < queued s ∨ s' = s

theorem Moved.refl (shaped : Shaped config s) : Moved config s s := ⟨shaped, rfl, Or.inr rfl⟩

theorem Moved.trans {s'' : DramT} (first : Moved config s s') (second : Moved config s' s'') :
    Moved config s s'' := by
  refine ⟨second.shaped, second.rwq.trans first.rwq, ?_⟩
  rcases first.fewer with fewer | rfl
  · rcases second.fewer with less | rfl
    · exact Or.inl (less.trans fewer)
    · exact Or.inl fewer
  · exact second.fewer

theorem Shaped.head (shaped : Shaped config s) (some_ : s.mrqq.empty = false) :
    ∃ req rest, s.mrqq.nodes = some req :: rest := by
  cases content : s.mrqq.nodes with
  | nil => simp [FifoPipeline.empty, content] at some_
  | cons data rest =>
    cases data with
    | none => exact absurd (content ▸ List.mem_cons_self) shaped.filled
    | some req => exact ⟨req, rest, rfl⟩

theorem pop_mrqq (shaped : Shaped config s) {req : DramReq} {rest : List (Option DramReq)}
    (content : s.mrqq.nodes = some req :: rest) :
    s.mrqq.pop = some ({ s.mrqq with nodes := rest }, some req) := by
  rw [FifoPipeline.pop_plain shaped.mrqq, FifoPipeline.top, content]
  rfl

theorem fifo_spec (shaped : Shaped config s) (fifo : config.scheduler_type = .DRAM_FIFO)
    (banks : ∀ req, some req ∈ s.mrqq.nodes → req.bk < config.nbk) :
    ∃ s', s.scheduler_fifo config = some s' ∧ Moved config s s' ∧
      (s' = s → queued s ≠ 0 → ∃ j < config.nbk, (s.bk j).mrq ≠ none) := by
  have idle := shaped.unused fifo
  rw [DramT.scheduler_fifo]
  cases isEmpty : s.mrqq.empty with
  | true =>
    refine ⟨s, rfl, .refl shaped, fun _ waiting => ?_⟩
    have none_ : s.mrqq.nodes = [] := List.isEmpty_iff.mp isEmpty
    exact absurd (by rw [queued, none_, idle]; rfl) waiting
  | false =>
    obtain ⟨req, rest, content⟩ := shaped.head isEmpty
    have inside : req.bk < config.nbk := banks req (content ▸ List.mem_cons_self)
    have top : s.mrqq.top = some req := by rw [FifoPipeline.top, content]; rfl
    simp only [top, inside, if_true, Bool.false_eq_true, if_false, pop_mrqq shaped content,
      Option.map_some]
    split
    · refine ⟨_, rfl, ⟨{ shaped with filled := ?_ }, rfl, Or.inl ?_⟩, ?_⟩
      · exact fun absent => shaped.filled (content ▸ List.mem_cons_of_mem _ absent)
      · simp only [queued, content, List.length_cons]
        omega
      · intro same
        have length := congrArg (fun s : DramT => s.mrqq.nodes.length) same
        simp [content] at length
    · rename_i busy
      exact ⟨s, rfl, .refl shaped, fun _ _ => ⟨req.bk, inside, busy⟩⟩

def Ordered (config : MemoryConfig) (s : DramT) : Prop :=
  ∃ calls, FrfcfsScheduler.Reaches config.nbk s.m_frfcfs_scheduler calls

theorem handOver_spec (frfcfs : config.scheduler_type = .DRAM_FRFCFS) (fuel : Nat)
    (shaped : Shaped config s) (ordered : Ordered config s)
    (banks : ∀ req, some req ∈ s.mrqq.nodes → req.bk < config.nbk) :
    ∃ s', s.handOver config fuel = some s' ∧ Moved config s s' ∧ Ordered config s' ∧
      (s' = s → s.mrqq.nodes = [] ∨ fuel = 0 ∨ s.m_frfcfs_scheduler.m_num_pending ≠ 0) := by
  induction fuel generalizing s with
  | zero => exact ⟨s, rfl, .refl shaped, ordered, fun _ => Or.inr (Or.inl rfl)⟩
  | succ fuel ih =>
    rw [DramT.handOver]
    split
    · rename_i more
      obtain ⟨req, rest, content⟩ := shaped.head more.1
      obtain ⟨calls, reaches⟩ := ordered
      have inside : req.bk < config.nbk := banks req (content ▸ List.mem_cons_self)
      -- `add_req` asserts that the bank exists
      obtain ⟨scheduler, add, one⟩ : ∃ scheduler, s.m_frfcfs_scheduler.add_req req =
          some scheduler ∧ scheduler.m_num_pending = s.m_frfcfs_scheduler.m_num_pending + 1 := by
        rw [FrfcfsScheduler.add_req,
          if_pos ((FrfcfsScheduler.sound_of_reaches reaches).banks ▸ inside)]
        exact ⟨_, rfl, rfl⟩
      have moved : Moved config s
          { s with mrqq := { s.mrqq with nodes := rest }, m_frfcfs_scheduler := scheduler } := by
        refine ⟨{ shaped with filled := fun absent => ?_, unused := fun fifo => ?_ }, rfl,
          Or.inl ?_⟩
        · exact shaped.filled (content ▸ List.mem_cons_of_mem _ absent)
        · exact absurd (frfcfs.symm.trans fifo) (by simp)
        · simp only [queued, content, List.length_cons, one]
          omega
      obtain ⟨s', run, further, ordered', -⟩ := ih moved.shaped ⟨_, .add reaches add⟩
        fun other waits => banks other (content ▸ List.mem_cons_of_mem _ waits)
      simp only [pop_mrqq shaped content, add]
      have both := moved.trans further
      refine ⟨s', run, both, ordered', fun same => ?_⟩
      -- this step has moved a request, whatever the later ones do
      have less : queued s' < queued s := by
        rcases moved.fewer with fewer | equal
        · rcases further.fewer with less | equal
          · exact less.trans fewer
          · exact equal ▸ fewer
        · have length := congrArg (fun s : DramT => s.mrqq.nodes.length) equal
          simp [content] at length
      exact absurd (same ▸ less) (Nat.lt_irrefl _)
    · rename_i full
      refine ⟨s, rfl, .refl shaped, ordered, fun _ => ?_⟩
      cases isEmpty : s.mrqq.empty with
      | true => exact Or.inl (List.isEmpty_iff.mp isEmpty)
      | false =>
        rw [not_and_or, not_or, not_lt] at full
        rcases full with absurd_ | ⟨limited, reached⟩
        · exact absurd isEmpty absurd_
        · exact Or.inr (Or.inr (by omega))

theorem serveBank_spec (frfcfs : config.scheduler_type = .DRAM_FRFCFS) (positive : 0 < config.nbk)
    (rounds : List Nat) (shaped : Shaped config s) (ordered : Ordered config s) :
    ∃ s', s.serveBank config rounds = some s' ∧ Moved config s s' ∧
      (s' = s → ∀ i ∈ rounds, s.m_frfcfs_scheduler.m_queue ((i + s.prio) % config.nbk) ≠ [] →
        (s.bk ((i + s.prio) % config.nbk)).mrq ≠ none) := by
  induction rounds with
  | nil => exact ⟨s, rfl, .refl shaped, fun _ i inside => absurd inside List.not_mem_nil⟩
  | cons i rest ih =>
    obtain ⟨calls, reaches⟩ := ordered
    have sound := FrfcfsScheduler.sound_of_reaches reaches
    have inside := Nat.mod_lt (i + s.prio) positive
    obtain ⟨s', run, moved, others⟩ := ih
    rw [DramT.serveBank]
    by_cases free : (s.bk ((i + s.prio) % config.nbk)).mrq = none
    · simp only [free, if_true]
      -- a free bank takes a request, if one waits for it
      by_cases nil : FrfcfsScheduler.pending calls ((i + s.prio) % config.nbk) = []
      · rw [sound.schedule_empty inside _ nil]
        refine ⟨s', run, moved, fun same j here waits => ?_⟩
        rcases List.mem_cons.mp here with rfl | later
        · exact absurd (sound.queue ▸ nil) waits
        · exact others same j later waits
      · obtain ⟨node, due, next⟩ := sound.schedule_next inside
          (s.bk ((i + s.prio) % config.nbk)).curr_row nil
        have waits := (FrfcfsScheduler.mem_of_oldest due.oldest).1
        have some_ := sound.num_pos waits
        rw [next]
        have less : (s.m_frfcfs_scheduler.without ((i + s.prio) % config.nbk) node).m_num_pending <
            s.m_frfcfs_scheduler.m_num_pending :=
          Nat.sub_lt (Nat.pos_of_ne_zero some_) Nat.one_pos
        refine ⟨_, rfl, ⟨{ shaped with unused := fun fifo => ?_ }, rfl, Or.inl ?_⟩, fun same => ?_⟩
        · exact absurd (frfcfs.symm.trans fifo) (by simp)
        · simp only [queued]
          omega
        · have fewer := congrArg (fun s : DramT => s.m_frfcfs_scheduler.m_num_pending) same
          simp only at fewer
          omega
    · simp only [free, if_false]
      refine ⟨s', run, moved, fun same j here waits => ?_⟩
      rcases List.mem_cons.mp here with rfl | later
      · exact free
      · exact others same j later waits

theorem round_exists {n : Nat} (prio : Nat) {j : Nat} (inside : j < n) :
    ∃ i ∈ List.range n, (i + prio) % n = j := by
  have positive := Nat.zero_lt_of_lt inside
  refine ⟨(j + (n - prio % n)) % n, List.mem_range.mpr (Nat.mod_lt _ positive), ?_⟩
  have start := Nat.mod_lt prio positive
  rw [Nat.mod_add_mod, ← Nat.add_mod_mod]
  have sum : j + (n - prio % n) + prio % n = j + n := by omega
  rw [sum, Nat.add_mod_right, Nat.mod_eq_of_lt inside]

theorem scheduler_spec (positive : 0 < config.nbk) (shaped : Shaped config s)
    (ordered : Ordered config s) (banks : ∀ req, some req ∈ s.mrqq.nodes → req.bk < config.nbk) :
    ∃ s', s.scheduler config = some s' ∧ Moved config s s' ∧
      (s' = s → queued s ≠ 0 → ∃ j < config.nbk, (s.bk j).mrq ≠ none) := by
  rw [DramT.scheduler]
  cases kind : config.scheduler_type with
  | DRAM_FIFO => exact fifo_spec shaped kind banks
  | DRAM_FRFCFS =>
    obtain ⟨handed, first, moved, ordered', left⟩ :=
      handOver_spec kind s.mrqq.get_length shaped ordered banks
    obtain ⟨s', second, moved', busy⟩ :=
      serveBank_spec kind positive (List.range config.nbk) moved.shaped ordered'
    refine ⟨s', Option.bind_eq_some_iff.mpr ⟨handed, first, second⟩, moved.trans moved',
      fun same waiting => ?_⟩
    -- neither part has moved anything
    have unmoved : handed = s := by
      rcases moved.fewer with fewer | same'
      · rcases moved'.fewer with less | same'
        · exact absurd (same ▸ less.trans fewer) (Nat.lt_irrefl _)
        · exact absurd (same ▸ same' ▸ fewer) (Nat.lt_irrefl _)
      · exact same'
    subst unmoved
    obtain ⟨calls, reaches⟩ := ordered
    have sound := FrfcfsScheduler.sound_of_reaches reaches
    have some_ : handed.m_frfcfs_scheduler.m_num_pending ≠ 0 := by
      rcases left rfl with none_ | none_ | some_
      · rw [queued, none_] at waiting
        simpa using waiting
      · have none_ : handed.mrqq.nodes = [] := List.eq_nil_of_length_eq_zero none_
        rw [queued, none_] at waiting
        simpa using waiting
      · exact some_
    -- the scheduler has a request, so its bank is not free
    obtain ⟨j, inside, waits⟩ := Finset.exists_ne_zero_of_sum_ne_zero (sound.num ▸ some_)
    obtain ⟨i, round, here⟩ := round_exists handed.prio (Finset.mem_range.mp inside)
    refine ⟨j, Finset.mem_range.mp inside, ?_⟩
    have found := busy same i round
    rw [here, sound.queue] at found
    exact found fun nil => waits (by rw [nil]; rfl)

/-! ## Issuing -/

theorem Conserved.alive (conserved : Conserved config s all issues pops leaves) {j : Nat}
    {mrq : DramReq} (inside : j < config.nbk) (holds : (s.bk j).mrq = some mrq) :
    ∃ counts, s.requests mrq.id = some counts := by
  have inBank := inBanks_setMrq (s := s) inside none mrq
  rw [holds, if_pos rfl, if_neg (by simp)] at inBank
  have isHeld : 0 < held config mrq s := by
    rw [held]
    omega
  have here : mrq ∈ all := conserved.pushed_of_held (by omega)
  exact ((conserved.account mrq here).alive isHeld).2.2

theorem transfer_total (conserved : Conserved config s all issues pops leaves)
    (shaped : Shaped config s) {j : Nat} {mrq : DramReq} (inside : j < config.nbk)
    (holds : (s.bk j).mrq = some mrq) (room : s.rwq.full = false) {latency : Nat}
    (short : latency ≤ config.CL) (direction : Direction) :
    ∃ s', s.transfer config j mrq direction latency = some s' ∧ Shaped config s' := by
  obtain ⟨counts, alive⟩ := conserved.alive inside holds
  have most := shaped.most
  have room' : s.rwq.nodes.length < s.rwq.m_max_len := by
    rwa [FifoPipeline.not_full_iff (by omega)] at room
  -- a change of direction sets the minimal length of the pipeline, which has room for it
  obtain ⟨turned, turn, least, most', length⟩ : ∃ turned,
      (if s.rw = direction then some s.rwq else s.rwq.set_min_length latency) = some turned ∧
        turned.m_min_len ≤ config.CL ∧ turned.m_max_len = config.CL + 1 ∧
          turned.nodes.length < turned.m_max_len := by
    split
    · exact ⟨_, rfl, shaped.least, most, room'⟩
    · obtain ⟨nodes, k, eq, -, bound, -⟩ := FifoPipeline.set_min_length_eq conserved.rwq
        (show latency ≤ s.rwq.m_max_len by omega)
      exact ⟨_, eq, short, most, by simp only; omega⟩
  rw [DramT.transfer, turn]
  simp only [FifoPipeline.push_eq (some mrq) length, alive]
  exact ⟨_, rfl, { shaped with least := least, most := most' }⟩

/-- No command is due for a bank. -/
def Quiet (config : MemoryConfig) (s : DramT) (j : Nat) : Prop :=
  ∀ mrq, (s.bk j).mrq = some mrq → ¬ s.canRead config j mrq ∧ ¬ s.canWrite config j mrq ∧
    ¬ s.canActivate j ∧ ¬ s.canPrecharge config j mrq

theorem issueBank_spec (usable : config.Usable)
    (conserved : Conserved config s all issues pops leaves) (shaped : Shaped config s) {j : Nat}
    (inside : j < config.nbk) :
    ∃ s' command, s.issueBank config j = some (s', command) ∧ Shaped config s' ∧
      (command = none → Quiet config s j) := by
  -- the branches are in the order of the source: read, write, activate, precharge
  rw [DramT.issueBank]
  cases holds : (s.bk j).mrq with
  | none => exact ⟨s, none, rfl, shaped, fun _ mrq busy => by cases holds ▸ busy⟩
  | some mrq =>
    dsimp only
    split
    · rename_i can
      obtain ⟨s', run, shaped'⟩ := transfer_total conserved shaped inside holds
        can.2.2.2.2.2.2.2 (Nat.le_refl _) .READ
      rw [run]
      exact ⟨_, _, rfl, { shaped' with }, fun idle => by cases idle⟩
    · rename_i noRead
      split
      · rename_i can
        obtain ⟨s', run, shaped'⟩ := transfer_total conserved shaped inside holds
          can.2.2.2.2.2.2.2 usable.latency .WRITE
        rw [run]
        exact ⟨_, _, rfl, { shaped' with }, fun idle => by cases idle⟩
      · rename_i noWrite
        split
        · exact ⟨_, _, rfl, { shaped with }, fun idle => by cases idle⟩
        · rename_i noActivate
          split
          · exact ⟨_, _, rfl, { shaped with }, fun idle => by cases idle⟩
          · rename_i noPrecharge
            refine ⟨_, _, rfl, shaped, fun _ other busy => ?_⟩
            obtain rfl := Option.some.inj (holds.symm.trans busy)
            exact ⟨noRead, noWrite, noActivate, noPrecharge⟩

theorem issue_spec (usable : config.Usable)
    (conserved : Conserved config s all issues pops leaves) (shaped : Shaped config s)
    (positive : 0 < config.nbk) (rounds : List Nat) :
    ∃ s' command, DramT.issue config rounds s = some (s', command) ∧ Shaped config s' ∧
      (command = none → ∀ i ∈ rounds, Quiet config s ((i + s.prio) % config.nbk)) := by
  induction rounds with
  | nil => exact ⟨s, none, rfl, shaped, fun _ i inside => absurd inside List.not_mem_nil⟩
  | cons i rest ih =>
    obtain ⟨next, command, run, shaped', quiet⟩ :=
      issueBank_spec usable conserved shaped (Nat.mod_lt (i + s.prio) positive)
    rw [DramT.issue, run]
    cases command with
    | some command => exact ⟨next, some command, rfl, shaped', fun idle => by cases idle⟩
    | none =>
      obtain rfl := DramT.issueBank_none run
      obtain ⟨s', command, run', shaped'', quiet'⟩ := ih
      refine ⟨s', command, run', shaped'', fun idle j here => ?_⟩
      rcases List.mem_cons.mp here with rfl | later
      · exact quiet rfl
      · exact quiet' idle j later

def Bank.needs (bank : Bank) : Nat :=
  match bank.mrq, bank.state with
  | none, _ => 0
  | some _, .BANK_IDLE => 1
  | some mrq, .BANK_ACTIVE => if bank.curr_row = mrq.row then 0 else 2

def needed (config : MemoryConfig) (bk : Nat → Bank) : Nat :=
  ∑ j ∈ Finset.range config.nbk, (bk j).needs

theorem needed_update {bk : Nat → Bank} {j : Nat} {bank : Bank} (inside : j < config.nbk)
    (fewer : bank.needs < (bk j).needs) :
    needed config (Function.update bk j bank) < needed config bk := by
  refine Finset.sum_lt_sum (fun i _ => ?_) ⟨j, Finset.mem_range.mpr inside, ?_⟩
  · by_cases same : i = j
    · subst same
      rw [Function.update_self]
      exact fewer.le
    · rw [Function.update_of_ne same]
  · rwa [Function.update_self]

theorem needed_issued {command : Command} (issued : DramT.Issued config s s' command)
    (noBurst : command.mrq = none) :
    needed config s'.bk < needed config s.bk ∧ s'.rwq = s.rwq ∧ queued s' = queued s := by
  cases issued with
  | RD _ _ _ _ => cases noBurst
  | WR _ _ _ _ => cases noBurst
  | ACT inside holds can =>
    refine ⟨needed_update inside ?_, rfl, rfl⟩
    simp [Bank.needs, holds, can.2.1]
  | PRE inside holds can =>
    refine ⟨needed_update inside ?_, rfl, rfl⟩
    simp [Bank.needs, holds, can.1, can.2.1]

theorem needed_decrement (s : DramT) :
    needed config (s.decrement config).bk = needed config s.bk := by
  refine Finset.sum_congr rfl fun j _ => ?_
  simp only [DramT.decrement]
  split <;> rfl

/-! ## A cycle -/

def remaining (config : MemoryConfig) (s : DramT) : Nat ×ₗ Nat ×ₗ Nat ×ₗ Nat :=
  toLex (queued s, toLex (needed config s.bk,
    toLex (wayLeft s.rwq.nodes, (s.timers config).sum)))

theorem Ordered.empty (ordered : Ordered config s) (none_ : s.m_frfcfs_scheduler.m_num_pending = 0)
    (req : DramReq) : inScheduler config req s.m_frfcfs_scheduler = 0 := by
  obtain ⟨calls, reaches⟩ := ordered
  have sound := FrfcfsScheduler.sound_of_reaches reaches
  have lengths := sound.num.symm.trans none_
  refine Finset.sum_eq_zero fun bank inside => ?_
  rw [sound.queue, List.eq_nil_of_length_eq_zero (Finset.sum_eq_zero_iff.mp lengths bank inside)]
  rfl

theorem nothing_left (ordered : Ordered config s) (none_ : queued s = 0)
    (free : ∀ j < config.nbk, (s.bk j).mrq = none) (empty : wayLeft s.rwq.nodes = 0)
    (req : DramReq) : held config req s + piped req s = 0 := by
  rw [queued] at none_
  have banks : inBanks config req s.bk = 0 := by
    refine Finset.sum_eq_zero fun j inside => ?_
    rw [free j (Finset.mem_range.mp inside), if_neg (by simp)]
  have waiting : s.mrqq.nodes = [] := List.eq_nil_of_length_eq_zero (by omega)
  have pipe : piped req s = 0 := List.count_eq_zero_of_not_mem (not_mem_of_wayLeft empty req)
  rw [held, banks, waiting, ordered.empty (by omega) req, pipe]
  rfl

/-- A cycle fails no assertion.  If an answer can be taken up it issues a burst or leaves less to
    be done, unless the DRAM is empty. -/
theorem cycle_spec (usable : config.Usable) (accepted : config.Accepted)
    (conserved : Conserved config s all issues pops leaves) (shaped : Shaped config s)
    (fits : ∀ req ∈ all, req.Fits config) :
    ∃ s' log, s.cycle config = some (s', log) ∧ Shaped config s' ∧
      (s.returnq.full = false → log.issued ≠ none ∨ remaining config s' < remaining config s ∨
        ∀ req, held config req s + piped req s = 0) := by
  have positive : 0 < config.nbk := by
    by_contra none_
    exact accepted.2.2 (by rw [Nat.eq_zero_of_not_pos none_, Nat.zero_div])
  obtain ⟨drained, popped, left, drainRun, after⟩ := drain_spec conserved shaped
  have afterDrain := conserved.drain drainRun
  have banks (req : DramReq) (waits : some req ∈ drained.mrqq.nodes) : req.bk < config.nbk := by
    have isHeld : 0 < drained.mrqq.nodes.count (some req) := List.count_pos_iff.mpr waits
    exact (fits req (afterDrain.pushed_of_held (by rw [held]; omega))).bank
  obtain ⟨scheduled, scheduleRun, moved, busy⟩ :=
    scheduler_spec positive after.shaped afterDrain.scheduler banks
  have afterSchedule := afterDrain.same
    (scheduler_same ⟨afterDrain.mrqq, afterDrain.scheduler⟩ scheduleRun)
  obtain ⟨issued, command, issueRun, shaped', quiet⟩ :=
    issue_spec usable afterSchedule moved.shaped positive (List.range config.nbk)
  refine ⟨issued.decrement config, ⟨popped, left, command⟩, ?_, { shaped' with },
    fun notFull => ?_⟩
  · rw [DramT.cycle, drainRun]
    dsimp only
    rw [scheduleRun]
    dsimp only
    rw [issueRun]
  have queuedSame : queued drained = queued s := by rw [queued, queued, after.mrqq, after.scheduler]
  have neededSame : needed config drained.bk = needed config s.bk := by rw [after.banks]
  rw [CycleLog.issued]
  simp only [remaining, Prod.Lex.toLex_lt_toLex, needed_decrement]
  rcases DramT.issue_range issueRun with ⟨rfl, rfl⟩ | ⟨command, rfl, byBranch⟩
  · rcases moved.fewer with fewer | rfl
    · exact Or.inr (Or.inl (Or.inl (queuedSame ▸ fewer)))
    -- nothing was scheduled and no command issued
    have way := after.way notFull
    by_cases onTheWay : wayLeft s.rwq.nodes = 0
    · by_cases some_ : ∃ j < config.nbk, (issued.bk j).mrq ≠ none
      · obtain ⟨j, inside, holds⟩ := some_
        obtain ⟨mrq, holds⟩ := Option.ne_none_iff_exists'.mp holds
        obtain ⟨i, round, rfl⟩ := round_exists issued.prio inside
        obtain ⟨noRead, noWrite, noActivate, noPrecharge⟩ := quiet rfl i round mrq holds
        -- a bank has a request and no command is due: a timer is running
        obtain ⟨timer, runs, counts⟩ := DramT.blocked usable accepted inside
          (after.room notFull) noRead noWrite noActivate noPrecharge
        have time := DramT.sum_decrement runs counts
        rw [after.timers] at time
        refine Or.inr (Or.inl (Or.inr ⟨queuedSame, Or.inr ⟨neededSame, Or.inr ⟨?_, time⟩⟩⟩))
        exact way.trans (by omega)
      · refine Or.inr (Or.inr (nothing_left conserved.scheduler ?_ (fun j inside => ?_) onTheWay))
        · by_contra waiting
          exact some_ (busy rfl (queuedSame ▸ waiting))
        · by_contra holds
          exact some_ ⟨j, inside, after.banks ▸ holds⟩
    · refine Or.inr (Or.inl (Or.inr ⟨queuedSame, Or.inr ⟨neededSame, Or.inl ?_⟩⟩))
      -- the entries of the pipeline have come nearer
      exact way.trans_lt (by omega)
  · cases burst : command.mrq with
    -- a burst lowers what is left before everything else, which the round counts
    | some mrq => exact Or.inl (by simp [burst])
    | none =>
      obtain ⟨fewer, -, same⟩ := needed_issued byBranch burst
      rcases moved.fewer with less | rfl
      · exact Or.inr (Or.inl (Or.inl (same.trans_lt (queuedSame ▸ less))))
      · refine Or.inr (Or.inl (Or.inr ⟨same.trans queuedSame, Or.inl (neededSame ▸ fewer)⟩))

end

/-! ## Runs -/

section

variable {config : MemoryConfig} {id : Nat} {s : DramT} {events : List Event}

theorem accepted_of_reaches (reaches : Reaches config id s events) : config.Accepted := by
  induction reaches with
  | new created =>
    rw [DramT.new] at created
    split at created
    · rename_i accepted
      exact accepted
    · cases created
  | push _ _ accepted => exact accepted
  | cycle _ _ accepted => exact accepted
  | return_queue_pop _ _ accepted => exact accepted

theorem shaped_new (created : DramT.new config id = some s) : Shaped config s := by
  rw [DramT.new] at created
  split at created
  on_goal 2 => cases created
  obtain ⟨rwq, rwqRun, rest⟩ := Option.bind_eq_some_iff.mp created
  obtain ⟨mrqq, mrqqRun, rest'⟩ := Option.bind_eq_some_iff.mp rest
  obtain ⟨returnq, returnqRun, eq⟩ := Option.bind_eq_some_iff.mp rest'
  have some_ : 0 < if config.gpgpu_dram_return_queue_size = 0 then 1024
      else config.gpgpu_dram_return_queue_size := by
    split <;> omega
  rw [FifoPipeline.new_eq (Nat.succ_pos _) (Nat.le_succ _)] at rwqRun
  rw [FifoPipeline.new_eq (by omega) (by omega)] at mrqqRun
  rw [FifoPipeline.new_eq some_ (by omega)] at returnqRun
  cases rwqRun
  cases mrqqRun
  cases returnqRun
  cases eq
  exact ⟨Nat.le_refl _, rfl, rfl, List.not_mem_nil, ⟨Nat.le_refl _, Nat.zero_le _⟩, rfl,
    Nat.ne_of_gt some_, fun _ => rfl⟩

theorem Shaped.push {s' : DramT} {data : MemFetch} {compressedSize : Nat} {mrq : DramReq}
    (shaped : Shaped config s) (valid : s.mrqq.Valid)
    (run : s.push config data compressedSize = some (s', mrq)) : Shaped config s' := by
  rw [DramT.push] at run
  split at run
  on_goal 2 => cases run
  obtain ⟨mrqq, push, eq⟩ := Option.map_eq_some_iff.mp run
  cases eq
  obtain ⟨-, least, -, atEnd⟩ := FifoPipeline.valid_of_push valid push
  refine { shaped with mrqq := least.trans shaped.mrqq, filled := fun absent => ?_ }
  rcases atEnd with added | ⟨nodes, before, after⟩
  · exact shaped.filled (by simpa [added] using absent)
  · exact shaped.filled (by rw [before]; exact List.mem_append_right _ List.mem_cons_self)

theorem shaped_of_reaches (usable : config.Usable) (reaches : Reaches config id s events)
    (fits : ∀ req ∈ pushed events, req.Fits config) : Shaped config s := by
  induction reaches with
  | new created => exact shaped_new created
  | @push s s' events data compressedSize mrq before run ih =>
    have all : pushed (events ++ [.pushed mrq]) = pushed events ++ [mrq] := by simp [pushed]
    rw [all] at fits
    exact (ih fun req inside => fits req (List.mem_append_left _ inside)).push
      (conserved_of_reaches before).mrqq run
  | @cycle s s' events log before run ih =>
    have all : pushed (events ++ [.cycle log]) = pushed events := by simp [pushed]
    rw [all] at fits
    obtain ⟨next, log', run', shaped, -⟩ := cycle_spec usable (accepted_of_reaches before)
      (conserved_of_reaches before) (ih fits) fits
    obtain ⟨rfl, -⟩ := Prod.mk.inj (Option.some.inj (run'.symm.trans run))
    exact shaped
  | return_queue_pop _ run ih =>
    obtain ⟨pop, shaped, -⟩ := (ih fits).taken
    obtain ⟨rfl, -⟩ := Prod.mk.inj (Option.some.inj (pop.symm.trans run))
    exact shaped

/-- The bursts that are still to be issued, when each request has `total` of them. -/
def burstsLeft (total : DramReq → Nat) (events : List Event) : Nat :=
  ((pushed events).map fun req => total req - issues events req).sum

theorem issues_cycle (events : List Event) (log : CycleLog) (req : DramReq) :
    issues (events ++ [.cycle log]) req =
      issues events req + if log.issued = some req then 1 else 0 := by
  rw [issues, logged_cycle, List.count_append, count_toList, issues]

theorem pushed_cycle (events : List Event) (log : CycleLog) :
    pushed (events ++ [.cycle log]) = pushed events := by
  simp [pushed]

theorem burstsLeft_cycle {total : DramReq → Nat} {log : CycleLog}
    (last : ∀ req ∈ pushed events, Last config req (total req))
    (reaches : Reaches config id s (events ++ [.cycle log])) :
    log.issued = none ∧ burstsLeft total (events ++ [.cycle log]) = burstsLeft total events ∨
      burstsLeft total (events ++ [.cycle log]) < burstsLeft total events := by
  rw [burstsLeft, burstsLeft, pushed_cycle]
  cases burst : log.issued with
  | none => simp [issues_cycle, burst]
  | some mrq =>
    right
    have conserved := conserved_of_reaches reaches
    rw [pushed_cycle] at conserved
    have more := issues_cycle events log mrq
    rw [burst, if_pos rfl] at more
    have inside : mrq ∈ pushed events := by
      by_contra outside
      have none_ := (conserved.absent mrq outside).2.2.1
      omega
    -- not more bursts than the request has, so that the difference falls
    have few : issues (events ++ [.cycle log]) mrq ≤ total mrq := by
      rcases (conserved.account mrq inside).phase with early | finished
      · exact (early.2.lt_last (last mrq inside)).le
      · exact (finished.2.eq (last mrq inside)).le
    refine List.sum_lt_sum _ _ (fun req _ => ?_) ⟨mrq, inside, by omega⟩
    rw [issues_cycle]
    omega

theorem Conserved.known {all : List DramReq} {issues pops : DramReq → Nat}
    {leaves : DramReq → List Outcome} (conserved : Conserved config s all issues pops leaves)
    {req : DramReq} (inside : req ∈ all) :
    s.requests req.id = none ∧ leaves req = [req.outcome] ∧ held config req s = 0 ∧
        piped req s = 0 ∨
      s.requests req.id ≠ none ∧ leaves req = [] ∧ 0 < held config req s + piped req s := by
  have account := conserved.account req inside
  cases progress : s.requests req.id with
  | none =>
    obtain ⟨left, noneHeld, nonePiped⟩ := account.deleted progress
    exact Or.inl ⟨rfl, left, noneHeld, nonePiped⟩
  | some counts =>
    obtain ⟨left, short, -⟩ := account.live counts progress
    refine Or.inr ⟨by simp, left, ?_⟩
    cases account.phase with
    | inl early => omega
    | inr finished =>
      -- all bursts are issued, and not all have come back
      have fewer := short.lt_last finished.2
      have pipe := account.pipe
      omega

def rounds (n : Nat) : List Input := (List.replicate n [.return_queue_pop, .cycle]).flatten

theorem round_spec (usable : config.Usable) (reaches : Reaches config id s events)
    (fits : ∀ req ∈ pushed events, req.Fits config) {total : DramReq → Nat}
    (last : ∀ req ∈ pushed events, Last config req (total req)) :
    (∀ req, held config req s + piped req s = 0) ∨
      ∃ s' log, [Input.return_queue_pop, .cycle].foldlM (step config) (s, events) =
          some (s', events ++ [.cycle log]) ∧
        toLex (burstsLeft total (events ++ [.cycle log]), remaining config s') <
          toLex (burstsLeft total events, remaining config s) := by
  obtain ⟨pop, shaped, notFull⟩ := (shaped_of_reaches usable reaches fits).taken
  have taken := Reaches.return_queue_pop reaches pop
  obtain ⟨s', log, run, -, lower⟩ := cycle_spec usable (accepted_of_reaches reaches)
    (conserved_of_reaches taken) shaped fits
  have less := burstsLeft_cycle last (.cycle taken run)
  have ran : [Input.return_queue_pop, .cycle].foldlM (step config) (s, events) =
      some (s', events ++ [.cycle log]) := by
    simp [step, pop, run]
  rcases less with ⟨noBurst, same⟩ | fewer
  · rcases lower notFull with burst | less | empty
    · exact absurd noBurst burst
    · exact Or.inr ⟨s', log, ran, Prod.Lex.toLex_lt_toLex.mpr (Or.inr ⟨same, less⟩)⟩
    · exact Or.inl empty
  · exact Or.inr ⟨s', log, ran, Prod.Lex.toLex_lt_toLex.mpr (Or.inl fewer)⟩

theorem drains (usable : config.Usable) (reaches : Reaches config id s events)
    (fits : ∀ req ∈ pushed events, req.Fits config) {total : DramReq → Nat}
    (last : ∀ req ∈ pushed events, Last config req (total req)) :
    ∃ n state, (rounds n).foldlM (step config) (s, events) = some state ∧
      pushed state.2 = pushed events ∧
      ∀ req, held config req state.1 + piped req state.1 = 0 := by
  -- induction on the bursts and the rest that are left, in this order
  generalize measure : toLex (burstsLeft total events, remaining config s) = left
  induction left using WellFoundedLT.induction generalizing s events with
  | ind left ih =>
    rcases round_spec usable reaches fits last with empty | ⟨s', log, ran, less⟩
    · exact ⟨0, (s, events), rfl, rfl, empty⟩
    · have reaches' := reaches_steps (by exact reaches) ran
      have all := pushed_cycle events log
      obtain ⟨n, state, run, same, empty⟩ :=
        ih _ (measure ▸ less) reaches' (all ▸ fits) (all ▸ last) rfl
      refine ⟨n + 1, state, ?_, same.trans all, empty⟩
      rw [rounds, List.replicate_succ, List.flatten_cons, List.foldlM_append, ran]
      exact run

/-- Each request that was pushed is in the DRAM, or it has left once, and where it
    belongs.  It leaves with its last burst: no place and no entry of the pipeline refers
    to it then, and what was issued has come back.  What is referred to is not deleted.  In a
    usable DRAM no assertion of a cycle fails, and rounds of taking an answer and a cycle make
    all requests leave. -/
theorem conservation (reaches : Reaches config id s events) :
    (pushed events).Nodup ∧
    (∀ req ∈ pushed events,
      (leaves events req = [] ∧ 0 < held config req s + piped req s ∨
        leaves events req = [req.outcome] ∧ held config req s = 0 ∧ piped req s = 0 ∧
          issues events req = pops events req ∧ Last config req (pops events req)) ∧
      (s.requests req.id = none ↔ leaves events req = [req.outcome]) ∧
      issues events req = pops events req + piped req s) ∧
    (∀ req, 0 < held config req s + piped req s →
      req ∈ pushed events ∧ s.requests req.id ≠ none) ∧
    (config.Usable → (∀ req ∈ pushed events, req.Fits config) →
      (s.cycle config).isSome ∧
      ∃ n state, (rounds n).foldlM (step config) (s, events) = some state ∧
        pushed state.2 = pushed events ∧
        ∀ req ∈ pushed events, leaves state.2 req = [req.outcome]) := by
  have conserved := conserved_of_reaches reaches
  refine ⟨conserved.ids.of_map _, fun req inside => ?_, fun req holds => ?_,
    fun usable fits => ⟨?_, ?_⟩⟩
  · have account := conserved.account req inside
    refine ⟨?_, ?_, account.pipe⟩
    · cases conserved.known inside with
      | inl gone =>
        obtain ⟨-, left, noneHeld, nonePiped⟩ := gone
        have pipe := account.pipe
        rw [nonePiped, Nat.add_zero] at pipe
        refine Or.inr ⟨left, noneHeld, nonePiped, pipe, ?_⟩
        cases account.phase with
        | inl early => omega
        | inr finished => exact pipe ▸ finished.2
      | inr alive => exact Or.inl alive.2
    · cases conserved.known inside with
      | inl gone => exact ⟨fun _ => gone.2.1, fun _ => gone.1⟩
      | inr alive =>
        refine ⟨fun deleted => absurd deleted alive.1, fun left => ?_⟩
        rw [alive.2.1] at left
        cases left
  · have inside := conserved.pushed_of_held holds
    refine ⟨inside, fun deleted => ?_⟩
    cases conserved.known inside with
    | inl gone => omega
    | inr alive => exact alive.1 deleted
  · obtain ⟨s', log, run, -⟩ := cycle_spec usable (accepted_of_reaches reaches) conserved
      (shaped_of_reaches usable reaches fits) fits
    rw [run]
    rfl
  · choose! total last using fun (req : DramReq) (fits : req.Fits config) => exists_last usable fits
    obtain ⟨n, state, run, same, empty⟩ :=
      drains usable reaches fits fun req inside => last req (fits req inside)
    refine ⟨n, state, run, same, fun req inside => ?_⟩
    have conserved' := conserved_of_reaches (reaches_steps (by exact reaches) run)
    cases conserved'.known (same ▸ inside) with
    | inl gone => exact gone.2.1
    | inr alive => exact absurd (empty req) (Nat.ne_of_gt alive.2.2)

/-- Two reads of different rows of a bank, in the order of the row scheduler: the first has left
    after its two bursts, the other leaves some rounds later. -/
theorem conservation_rows :
    let config : MemoryConfig :=
      ⟨2, 1, 2, 0, 1, 3, 1, 1, 1, 1, 1, 0, 2, 1, 4, 4, 2, 1, .DRAM_FRFCFS, 0, 0, false⟩
    let data (row : Nat) : MemFetch := ⟨0, 0, 1, row, 32, false, .GLOBAL_ACC_R⟩
    let mrq (id row : Nat) : DramReq := ⟨id, 1, row, 32, .READ, data row⟩
    ∃ s events, Reaches config 0 s events ∧ pushed events = [mrq 0 7, mrq 1 3] ∧
      leaves events (mrq 0 7) = [.answered] ∧ issues events (mrq 0 7) = 2 ∧
      s.requests 0 = none ∧ leaves events (mrq 1 3) = [] ∧
      ∃ n state, (rounds n).foldlM (step config) (s, events) = some state ∧
        leaves state.2 (mrq 1 3) = [.answered] := by
  intro config data mrq
  have ran : ((run config 0 (.push (data 7) 0 :: .push (data 3) 0 ::
      List.replicate 9 .cycle)).map fun result => (pushed result.2, leaves result.2 (mrq 0 7),
        issues result.2 (mrq 0 7), leaves result.2 (mrq 1 3))) =
      some ([mrq 0 7, mrq 1 3], [.answered], 2, []) := by decide +kernel
  obtain ⟨result, eq, known⟩ := Option.map_eq_some_iff.mp ran
  obtain ⟨all, rest⟩ := Prod.mk.inj known
  obtain ⟨left, rest⟩ := Prod.mk.inj rest
  obtain ⟨bursts, waits⟩ := Prod.mk.inj rest
  have reaches := reaches_run eq
  have inside (req : DramReq) (one : req = mrq 0 7 ∨ req = mrq 1 3) : req ∈ pushed result.2 := by
    rw [all]
    simpa using one
  obtain ⟨-, accounts, -, progress⟩ := conservation reaches
  have usable : config.Usable := ⟨by decide, by decide, by decide⟩
  obtain ⟨-, n, state, rest, -, leave⟩ := progress usable fun req pushed => by
    rw [all] at pushed
    rcases List.mem_cons.mp pushed with rfl | pushed
    · exact ⟨by decide, by decide⟩
    · obtain rfl := List.mem_singleton.mp pushed
      exact ⟨by decide, by decide⟩
  exact ⟨_, _, reaches, all, left, bursts,
    ((accounts (mrq 0 7) (inside _ (Or.inl rfl))).2.1).mpr left, waits, n, state, rest,
    leave (mrq 1 3) (inside _ (Or.inr rfl))⟩

end

end AesOnGpu.Dram
