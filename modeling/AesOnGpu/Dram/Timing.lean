import AesOnGpu.Dram.Commands
import AesOnGpu.Lib.CommandTimers

/-! # Timing of the commands

The counters of the chip, the bank groups and the banks are timers that the commands
start and need.  What a bank has open follows from the commands as well.
-/

namespace AesOnGpu.Dram

/-! ## The constraints -/

section

variable (config : MemoryConfig)

def Command.column : Command → Option Nat
  | .RD bank _ => some bank
  | .WR bank _ => some bank
  | _ => none

/-- How many cycles the second command must be behind the first one.  `burst` is the
    time from a read to a precharge of its bank. -/
inductive Constraint : Command → Command → Nat → Prop
  | tRRD {i j row row'} : Constraint (.ACT i row) (.ACT j row') config.tRRD
  | tRC {j row row'} : Constraint (.ACT j row) (.ACT j row') config.tRC
  | tRCD {j row mrq} : Constraint (.ACT j row) (.RD j mrq) config.tRCD
  | tRCDWR {j row mrq} : Constraint (.ACT j row) (.WR j mrq) config.tRCDWR
  | tRAS {j row} : Constraint (.ACT j row) (.PRE j) config.tRAS
  | tRP {j row} : Constraint (.PRE j) (.ACT j row) config.tRP
  | tCCD {first second i j} : first.column = some i → second.column = some j →
      Constraint first second config.tCCD
  | tCCDL {first second i j} : first.column = some i → second.column = some j →
      DramT.grp config i = DramT.grp config j → Constraint first second config.tCCDL
  | tRTW {i j mrq mrq'} : Constraint (.RD i mrq) (.WR j mrq') config.tRTW
  | tWTR {i j mrq mrq'} : Constraint (.WR i mrq) (.RD j mrq') config.tWTR
  | tWTP {j mrq} : Constraint (.WR j mrq) (.PRE j) config.tWTP
  | burst {j mrq} : Constraint (.RD j mrq) (.PRE j) config.burst
  | tRTPL {i j mrq} : DramT.grp config i = DramT.grp config j →
      Constraint (.RD i mrq) (.PRE j) config.tRTPL

end

def opened (bank : Nat) (open_ : Option Nat) : Option Command → Option Nat
  | some (.ACT j row) => if j = bank then some row else open_
  | some (.PRE j) => if j = bank then none else open_
  | _ => open_

def openRow (commands : List (Option Command)) (bank : Nat) : Option Nat :=
  commands.foldl (opened bank) none

def commands (events : List Event) : List (Option Command) :=
  events.filterMap fun
    | .pushed _ => none
    | .cycle log => some log.command

/-! ## The timers -/

inductive Timer where
  | RRD
  | CCD
  | RTW
  | WTR
  | CCDL (grp : Nat)
  | RTPL (grp : Nat)
  | RCD (bank : Nat)
  | RCDWR (bank : Nat)
  | RAS (bank : Nat)
  | RP (bank : Nat)
  | RC (bank : Nat)
  | WTP (bank : Nat)
  | RTP (bank : Nat)
  deriving DecidableEq

section

variable (config : MemoryConfig)

def Timer.delay : Timer → Nat
  | .RRD => config.tRRD
  | .CCD => config.tCCD
  | .RTW => config.tRTW
  | .WTR => config.tWTR
  | .CCDL _ => config.tCCDL
  | .RTPL _ => config.tRTPL
  | .RCD _ => config.tRCD
  | .RCDWR _ => config.tRCDWR
  | .RAS _ => config.tRAS
  | .RP _ => config.tRP
  | .RC _ => config.tRC
  | .WTP _ => config.tWTP
  | .RTP _ => config.burst

def Command.starts : Command → List Timer
  | .RD j _ => [.CCD, .CCDL (DramT.grp config j), .RTW, .RTP j, .RTPL (DramT.grp config j)]
  | .WR j _ => [.CCD, .CCDL (DramT.grp config j), .WTR, .WTP j]
  | .ACT j _ => [.RRD, .RCD j, .RCDWR j, .RAS j, .RC j]
  | .PRE j => [.RP j]

def Command.needs : Command → List Timer
  | .RD j _ => [.CCD, .RCD j, .CCDL (DramT.grp config j), .WTR]
  | .WR j _ => [.CCD, .RCDWR j, .CCDL (DramT.grp config j), .RTW]
  | .ACT j _ => [.RRD, .RP j, .RC j]
  | .PRE j => [.RAS j, .WTP j, .RTP j, .RTPL (DramT.grp config j)]

def rules : CommandTimers.Rules Command Timer where
  delay := Timer.delay config
  starts command timer := timer ∈ command.starts config
  needs command timer := timer ∈ command.needs config

end

def DramT.counter (s : DramT) : Timer → Nat
  | .RRD => s.RRDc
  | .CCD => s.CCDc
  | .RTW => s.RTWc
  | .WTR => s.WTRc
  | .CCDL g => (s.bkgrp g).CCDLc
  | .RTPL g => (s.bkgrp g).RTPLc
  | .RCD j => (s.bk j).RCDc
  | .RCDWR j => (s.bk j).RCDWRc
  | .RAS j => (s.bk j).RASc
  | .RP j => (s.bk j).RPc
  | .RC j => (s.bk j).RCc
  | .WTP j => (s.bk j).WTPc
  | .RTP j => (s.bk j).RTPc

def Bank.row (bank : Bank) : Option Nat :=
  match bank.state with
  | .BANK_ACTIVE => some bank.curr_row
  | .BANK_IDLE => none

theorem Constraint.timer {config : MemoryConfig} {first second : Command} {distance : Nat}
    (constraint : Constraint config first second distance) :
    ∃ timer ∈ first.starts config, timer ∈ second.needs config ∧
      timer.delay config = distance := by
  cases constraint with
  | tRRD => exact ⟨.RRD, by simp [Command.starts], by simp [Command.needs], rfl⟩
  | @tRC j => exact ⟨.RC j, by simp [Command.starts], by simp [Command.needs], rfl⟩
  | @tRCD j => exact ⟨.RCD j, by simp [Command.starts], by simp [Command.needs], rfl⟩
  | @tRCDWR j => exact ⟨.RCDWR j, by simp [Command.starts], by simp [Command.needs], rfl⟩
  | @tRAS j => exact ⟨.RAS j, by simp [Command.starts], by simp [Command.needs], rfl⟩
  | @tRP j => exact ⟨.RP j, by simp [Command.starts], by simp [Command.needs], rfl⟩
  | tCCD here there =>
    refine ⟨.CCD, ?_, ?_, rfl⟩
    · cases first <;> simp [Command.column, Command.starts] at here ⊢
    · cases second <;> simp [Command.column, Command.needs] at there ⊢
  | @tCCDL first second i j here there same =>
    refine ⟨.CCDL (DramT.grp config i), ?_, ?_, rfl⟩
    · cases first <;> simp [Command.column, Command.starts] at here ⊢ <;> simp [here]
    · cases second <;> simp [Command.column, Command.needs] at there ⊢ <;> simp [same, there]
  | tRTW => exact ⟨.RTW, by simp [Command.starts], by simp [Command.needs], rfl⟩
  | tWTR => exact ⟨.WTR, by simp [Command.starts], by simp [Command.needs], rfl⟩
  | @tWTP j => exact ⟨.WTP j, by simp [Command.starts], by simp [Command.needs], rfl⟩
  | @burst j => exact ⟨.RTP j, by simp [Command.starts], by simp [Command.needs], rfl⟩
  | @tRTPL i j _ same =>
    exact ⟨.RTPL (DramT.grp config i), by simp [Command.starts], by simp [Command.needs, same], rfl⟩

/-! ## What leaves the timers alone -/

structure SameTiming (s s' : DramT) : Prop where
  counter : s'.counter = s.counter
  row : ∀ j, (s'.bk j).row = (s.bk j).row

namespace SameTiming

variable {s s' s'' : DramT}

theorem refl (s : DramT) : SameTiming s s := ⟨rfl, fun _ => rfl⟩

theorem trans (first : SameTiming s s') (second : SameTiming s' s'') : SameTiming s s'' :=
  ⟨second.counter.trans first.counter, fun j => (second.row j).trans (first.row j)⟩

end SameTiming

namespace DramT

variable {config : MemoryConfig} {s s' : DramT}

theorem setMrq_timing (j : Nat) (mrq : Option DramReq) {bk : Nat → Bank}
    (bank : bk = s.setMrq j mrq) (other : Nat) : bk other = { s.bk other with mrq := (bk other).mrq } := by
  rw [bank, setMrq, Function.update_apply]
  split
  · rename_i here
    rw [here]
  · rfl

theorem sameTiming_of_bk (chip : s'.RRDc = s.RRDc ∧ s'.CCDc = s.CCDc ∧ s'.RTWc = s.RTWc ∧
    s'.WTRc = s.WTRc) (groups : s'.bkgrp = s.bkgrp)
    (banks : ∀ j, s'.bk j = { s.bk j with mrq := (s'.bk j).mrq }) : SameTiming s s' where
  counter := by
    funext timer
    cases timer with
    | RRD => exact chip.1
    | CCD => exact chip.2.1
    | RTW => exact chip.2.2.1
    | WTR => exact chip.2.2.2
    | CCDL g => rw [counter, counter, groups]
    | RTPL g => rw [counter, counter, groups]
    | _ j => rw [counter, counter, banks j]
  row j := by
    rw [banks j]
    rfl

theorem finish_timing {cmd : DramReq} {left : Option (DramReq × Outcome)}
    (run : s.finish config cmd = some (s', left)) : SameTiming s s' := by
  rw [finish] at run
  split at run
  · cases run
  · dsimp only at run
    split at run
    · split at run
      · cases run
        exact ⟨rfl, fun _ => rfl⟩
      · obtain ⟨_, _, eq⟩ := Option.map_eq_some_iff.mp run
        cases eq
        exact ⟨rfl, fun _ => rfl⟩
    · cases run
      exact ⟨rfl, fun _ => rfl⟩

theorem drain_timing {popped : Option DramReq} {left : Option (DramReq × Outcome)}
    (run : s.drain config = some (s', popped, left)) : SameTiming s s' := by
  rw [drain] at run
  split at run
  · cases run
    exact SameTiming.refl _
  · split at run
    · cases run
    · cases run
      exact ⟨rfl, fun _ => rfl⟩
    · obtain ⟨_, finished, eq⟩ := Option.map_eq_some_iff.mp run
      cases eq
      have same := finish_timing finished
      exact ⟨same.counter, same.row⟩

theorem fifo_timing (run : s.scheduler_fifo config = some s') : SameTiming s s' := by
  rw [scheduler_fifo] at run
  split at run
  · cases run
    exact SameTiming.refl _
  · split at run
    · cases run
    · split at run
      · split at run
        · obtain ⟨popped, _, eq⟩ := Option.map_eq_some_iff.mp run
          cases eq
          exact sameTiming_of_bk ⟨rfl, rfl, rfl, rfl⟩ rfl (setMrq_timing _ popped.2 rfl)
        · cases run
          exact SameTiming.refl _
      · cases run

theorem handOver_timing {fuel : Nat} (run : handOver config fuel s = some s') :
    SameTiming s s' := by
  induction fuel generalizing s with
  | zero =>
    cases run
    exact SameTiming.refl _
  | succ fuel ih =>
    rw [handOver] at run
    split at run
    · split at run
      · cases run
      · cases run
      · split at run
        · cases run
        · have same := ih run
          exact ⟨same.counter, same.row⟩
    · cases run
      exact SameTiming.refl _

theorem serveBank_timing {rounds : List Nat} (run : serveBank config rounds s = some s') :
    SameTiming s s' := by
  induction rounds generalizing s with
  | nil =>
    cases run
    exact SameTiming.refl _
  | cons i rest ih =>
    rw [serveBank] at run
    split at run
    · split at run
      · cases run
      · have same := ih run
        exact ⟨same.counter, same.row⟩
      · cases run
        exact sameTiming_of_bk ⟨rfl, rfl, rfl, rfl⟩ rfl (setMrq_timing _ _ rfl)
    · exact ih run

theorem scheduler_timing (run : s.scheduler config = some s') : SameTiming s s' := by
  rw [scheduler] at run
  split at run
  · exact fifo_timing run
  · obtain ⟨between, first, second⟩ := Option.bind_eq_some_iff.mp run
    exact (handOver_timing first).trans (serveBank_timing second)

theorem transfer_timing {j : Nat} {mrq : DramReq} {direction : Direction} {latency : Nat}
    (run : s.transfer config j mrq direction latency = some s') : SameTiming s s' := by
  rw [transfer] at run
  split at run
  · cases run
  · split at run
    · dsimp only at run
      cases run
      split
      · exact ⟨rfl, fun _ => rfl⟩
      · exact sameTiming_of_bk ⟨rfl, rfl, rfl, rfl⟩ rfl (setMrq_timing j none rfl)
    · cases run

/-! ## What a command does to the timers -/

theorem Issued.timers {command : Command} (issued : Issued config s s' command) :
    (∀ timer ∈ command.needs config, s.counter timer = 0) ∧
      ∀ timer, s'.counter timer =
        if timer ∈ command.starts config then timer.delay config else s.counter timer := by
  cases issued with
  | @RD j mrq between _ _ can transferred =>
    obtain ⟨ccd, rcd, ccdl, -, -, wtr, -⟩ := can
    refine ⟨by simp [Command.needs, counter, ccd, rcd, ccdl, wtr], fun timer => ?_⟩
    rw [← (transfer_timing transferred).counter]
    cases timer <;> simp only [Command.starts, counter, startRead, Timer.delay,
      Function.update_apply, List.mem_cons, List.not_mem_nil, reduceCtorEq, or_false, false_or,
      Timer.CCDL.injEq, Timer.RTPL.injEq, Timer.RTP.injEq, if_true, if_false] <;> split <;>
      simp_all
  | @WR j mrq between _ _ can transferred =>
    obtain ⟨ccd, rcdwr, ccdl, -, -, rtw, -⟩ := can
    refine ⟨by simp [Command.needs, counter, ccd, rcdwr, ccdl, rtw], fun timer => ?_⟩
    rw [← (transfer_timing transferred).counter]
    cases timer <;> simp only [Command.starts, counter, startWrite, Timer.delay,
      Function.update_apply, List.mem_cons, List.not_mem_nil, reduceCtorEq, or_false, false_or,
      Timer.CCDL.injEq, Timer.WTP.injEq, if_true, if_false] <;> split <;>
      simp_all
  | @ACT j mrq _ _ can =>
    obtain ⟨rrd, -, rp, rc⟩ := can
    refine ⟨by simp [Command.needs, counter, rrd, rp, rc], fun timer => ?_⟩
    cases timer <;> simp only [Command.starts, counter, activate, Timer.delay,
      Function.update_apply, List.mem_cons, List.not_mem_nil, reduceCtorEq, or_false, false_or,
      Timer.RCD.injEq, Timer.RCDWR.injEq, Timer.RAS.injEq, Timer.RC.injEq, if_true, if_false] <;>
      split <;> simp_all
  | @PRE j mrq _ _ can =>
    obtain ⟨-, -, ras, wtp, rtp, rtpl⟩ := can
    refine ⟨by simp [Command.needs, counter, ras, wtp, rtp, rtpl], fun timer => ?_⟩
    cases timer <;> simp only [Command.starts, counter, precharge, Timer.delay,
      Function.update_apply, List.mem_cons, List.not_mem_nil, reduceCtorEq, or_false,
      Timer.RP.injEq, if_false] <;> split <;> simp_all

theorem Issued.row {command : Command} (issued : Issued config s s' command) (bank : Nat) :
    (s'.bk bank).row = opened bank (s.bk bank).row (some command) := by
  cases issued with
  | @RD j mrq between _ _ _ transferred =>
    show ((between.startRead config j).bk bank).row = (s.bk bank).row
    rw [← (transfer_timing transferred).row, startRead]
    dsimp only
    rw [Function.update_apply]
    split
    · rename_i here
      rw [here]
      rfl
    · rfl
  | @WR j mrq between _ _ _ transferred =>
    show ((between.startWrite config j).bk bank).row = (s.bk bank).row
    rw [← (transfer_timing transferred).row, startWrite]
    dsimp only
    rw [Function.update_apply]
    split
    · rename_i here
      rw [here]
      rfl
    · rfl
  | @ACT j mrq _ _ _ =>
    rw [opened, activate]
    dsimp only
    rw [Function.update_apply]
    split
    · rename_i here
      rw [if_pos here.symm]
      rfl
    · rename_i there
      rw [if_neg (Ne.symm there)]
  | @PRE j mrq _ _ _ =>
    rw [opened, precharge]
    dsimp only
    rw [Function.update_apply]
    split
    · rename_i here
      rw [if_pos here.symm]
      rfl
    · rename_i there
      rw [if_neg (Ne.symm there)]

theorem Issued.open_ {command : Command} (issued : Issued config s s' command) {bank : Nat}
    {mrq : DramReq} (column : command = .RD bank mrq ∨ command = .WR bank mrq) :
    (s.bk bank).row = some mrq.row := by
  cases issued with
  | RD _ _ can _ =>
    obtain ⟨rfl, rfl⟩ : _ = bank ∧ _ = mrq := by simpa using column
    obtain ⟨-, -, -, row, -, -, active, -⟩ := can
    rw [Bank.row, active, row]
  | WR _ _ can _ =>
    obtain ⟨rfl, rfl⟩ : _ = bank ∧ _ = mrq := by simpa using column
    obtain ⟨-, -, -, row, -, -, active, -⟩ := can
    rw [Bank.row, active, row]
  | ACT _ _ _ => simp at column
  | PRE _ _ _ => simp at column

theorem decrement_counter (timer : Timer) :
    s.counter timer ≤ (s.decrement config).counter timer + 1 := by
  cases timer <;> simp only [counter, decrement] <;> try split
  all_goals first | omega | (dsimp only; omega)

theorem decrement_row (bank : Nat) : ((s.decrement config).bk bank).row = (s.bk bank).row := by
  rw [decrement]
  dsimp only
  split <;> rfl

theorem cycle_timers {log : CycleLog} (run : s.cycle config = some (s', log)) :
    CommandTimers.Cycle (rules config) log.command s.counter s'.counter := by
  obtain ⟨drained, scheduled, issued, drainRun, scheduleRun, issueRun, rfl⟩ := cycle_parts run
  rw [← ((drain_timing drainRun).trans (scheduler_timing scheduleRun)).counter]
  have decremented := fun timer => @decrement_counter config issued timer
  cases issue_range issueRun with
  | inl idle =>
    obtain ⟨noCommand, rfl⟩ := idle
    rw [noCommand]
    constructor
    · intro command eq
      cases eq
    · intro command eq
      cases eq
    · exact fun timer => Or.inl (decremented timer)
  | inr busy =>
    obtain ⟨command, eq, byBranch⟩ := busy
    obtain ⟨expired, set⟩ := byBranch.timers
    rw [eq]
    constructor
    · rintro _ ⟨rfl⟩ timer needs
      exact expired timer needs
    · rintro _ ⟨rfl⟩ timer starts
      have started : timer ∈ command.starts config := starts
      have after := decremented timer
      rw [set timer, if_pos started] at after
      exact after
    · intro timer
      by_cases starts : timer ∈ command.starts config
      · exact Or.inr ⟨command, rfl, starts⟩
      · have after := decremented timer
        rw [set timer, if_neg starts] at after
        exact Or.inl after

theorem cycle_row {log : CycleLog} (run : s.cycle config = some (s', log)) (bank : Nat) :
    (s'.bk bank).row = opened bank (s.bk bank).row log.command := by
  obtain ⟨drained, scheduled, issued, drainRun, scheduleRun, issueRun, rfl⟩ := cycle_parts run
  rw [decrement_row, ← ((drain_timing drainRun).trans (scheduler_timing scheduleRun)).row]
  cases issue_range issueRun with
  | inl idle =>
    obtain ⟨noCommand, rfl⟩ := idle
    rw [noCommand]
    rfl
  | inr busy =>
    obtain ⟨command, eq, byBranch⟩ := busy
    rw [byBranch.row, eq]

theorem cycle_open {log : CycleLog} (run : s.cycle config = some (s', log)) {bank : Nat}
    {mrq : DramReq} (column : log.command = some (.RD bank mrq) ∨ log.command = some (.WR bank mrq)) :
    (s.bk bank).row = some mrq.row := by
  obtain ⟨drained, scheduled, issued, drainRun, scheduleRun, issueRun, rfl⟩ := cycle_parts run
  rw [← ((drain_timing drainRun).trans (scheduler_timing scheduleRun)).row]
  cases issue_range issueRun with
  | inl idle =>
    rw [idle.1] at column
    simp at column
  | inr busy =>
    obtain ⟨command, eq, byBranch⟩ := busy
    rw [eq, Option.some.injEq, Option.some.injEq] at column
    exact byBranch.open_ column

end DramT

/-! ## Runs -/

def RowsOpen (commands : List (Option Command)) : Prop :=
  ∀ (i bank : Nat) (mrq : DramReq), commands[i]? = some (some (.RD bank mrq)) ∨
    commands[i]? = some (some (.WR bank mrq)) → openRow (commands.take i) bank = some mrq.row

theorem RowsOpen.snoc {commands : List (Option Command)} {command : Option Command}
    (before : RowsOpen commands)
    (now : ∀ bank mrq, command = some (.RD bank mrq) ∨ command = some (.WR bank mrq) →
      openRow commands bank = some mrq.row) : RowsOpen (commands ++ [command]) := by
  intro i bank mrq here
  have place : i < commands.length ∨ i = commands.length := by
    have inside : i < (commands ++ [command]).length := by
      cases here with
      | inl read => exact (List.getElem?_eq_some_iff.mp read).1
      | inr write => exact (List.getElem?_eq_some_iff.mp write).1
    rw [List.length_append, List.length_singleton] at inside
    omega
  cases place with
  | inl old =>
    rw [List.getElem?_append_left old] at here
    rw [List.take_append_of_le_length (Nat.le_of_lt old)]
    exact before i bank mrq here
  | inr last =>
    subst last
    rw [List.getElem?_concat_length, Option.some.injEq, Option.some.injEq] at here
    rw [List.take_left]
    exact now bank mrq here

theorem openRow_snoc (commands : List (Option Command)) (command : Option Command) (bank : Nat) :
    openRow (commands ++ [command]) bank = opened bank (openRow commands bank) command := by
  rw [openRow, List.foldl_append, List.foldl_cons, List.foldl_nil, openRow]

theorem commands_pushed (events : List Event) (mrq : DramReq) :
    commands (events ++ [.pushed mrq]) = commands events := by
  simp [commands]

theorem commands_cycle (events : List Event) (log : CycleLog) :
    commands (events ++ [.cycle log]) = commands events ++ [log.command] := by
  simp [commands]

section

variable {config : MemoryConfig} {id : Nat} {s : DramT} {events : List Event}

structure Timed (config : MemoryConfig) (s : DramT) (events : List Event) : Prop where
  timers : CommandTimers.Timed (rules config) (commands events) s.counter
  rows : ∀ bank, (s.bk bank).row = openRow (commands events) bank
  opened : RowsOpen (commands events)

theorem Timed.same {s' : DramT} (timed : Timed config s events) (same : SameTiming s s') :
    Timed config s' events where
  timers := by
    rw [same.counter]
    exact timed.timers
  rows bank := (same.row bank).trans (timed.rows bank)
  opened := timed.opened

theorem timed_of_reaches (reaches : Reaches config id s events) : Timed config s events := by
  induction reaches with
  | new created =>
    refine ⟨CommandTimers.timed_nil _, fun bank => ?_, fun i _ _ here => by simp [commands] at here⟩
    rw [DramT.new] at created
    split at created
    · obtain ⟨rwq, -, rest⟩ := Option.bind_eq_some_iff.mp created
      obtain ⟨mrqq, -, rest'⟩ := Option.bind_eq_some_iff.mp rest
      obtain ⟨returnq, -, eq⟩ := Option.bind_eq_some_iff.mp rest'
      cases eq
      rfl
    · cases created
  | push _ run timed =>
    rw [DramT.push] at run
    split at run
    · obtain ⟨mrqq, -, eq⟩ := Option.map_eq_some_iff.mp run
      cases eq
      refine ⟨?_, ?_, ?_⟩
      · rw [commands_pushed]
        exact timed.timers
      · rw [commands_pushed]
        exact timed.rows
      · rw [commands_pushed]
        exact timed.opened
    · cases run
  | cycle _ run timed =>
    refine ⟨?_, fun bank => ?_, ?_⟩
    · rw [commands_cycle]
      exact timed.timers.cycle (DramT.cycle_timers run)
    · rw [commands_cycle, openRow_snoc, DramT.cycle_row run, timed.rows]
    · rw [commands_cycle]
      refine timed.opened.snoc fun bank mrq column => ?_
      rw [← timed.rows]
      exact DramT.cycle_open run column
  | return_queue_pop _ run timed =>
    rw [DramT.return_queue_pop] at run
    obtain ⟨popped, -, eq⟩ := Option.map_eq_some_iff.mp run
    cases eq
    exact timed.same ⟨rfl, fun _ => rfl⟩

/-- In every run, with any parameters and requests, commands are as far apart as their
    constraints ask, and a row is read and written only while its bank has it open. -/
theorem timing_safe (reaches : Reaches config id s events) :
    (∀ (i j : Nat) first second distance, i < j →
      (commands events)[i]? = some (some first) → (commands events)[j]? = some (some second) →
      Constraint config first second distance → i + distance ≤ j) ∧
    ∀ (i bank : Nat) mrq, (commands events)[i]? = some (some (.RD bank mrq)) ∨
      (commands events)[i]? = some (some (.WR bank mrq)) →
      openRow ((commands events).take i) bank = some mrq.row := by
  have timed := timed_of_reaches reaches
  refine ⟨?_, timed.opened⟩
  intro i j first second distance order here there constraint
  obtain ⟨timer, starts, needs, rfl⟩ := constraint.timer
  exact timed.timers.spaced i j first second timer order here there starts needs

/-- Activate, wait for `tRCD`, and read two bursts `tCCD` apart. -/
theorem timing_safe_read :
    let config : MemoryConfig :=
      ⟨1, 1, 2, 0, 1, 3, 1, 1, 1, 1, 1, 0, 2, 1, 4, 4, 2, 1, .DRAM_FIFO, 0, 0, false⟩
    let data : MemFetch := ⟨0, 0, 0, 7, 32, false, .GLOBAL_ACC_R⟩
    let mrq : DramReq := ⟨0, 0, 7, 32, .READ, data⟩
    let issued := [some (.ACT 0 7), none, none, some (.RD 0 mrq), none, some (.RD 0 mrq)]
    ∃ s events, Reaches config 0 s events ∧ commands events = issued ∧
      openRow (issued.take 5) 0 = some 7 := by
  intro config data mrq issued
  have ran : ((run config 0 (.push data 0 :: List.replicate 6 .cycle)).map
      fun result => commands result.2) = some issued := by decide
  obtain ⟨result, eq, commandsEq⟩ := Option.map_eq_some_iff.mp ran
  have reaches := reaches_run eq
  refine ⟨_, _, reaches, commandsEq, ?_⟩
  have open_ := (timing_safe reaches).2 5 0 mrq
  rw [commandsEq] at open_
  exact open_ (Or.inl rfl)

end

end AesOnGpu.Dram
