import AesOnGpu.Dram.DramT

/-! # What a cycle issues

The loop over the banks issues at most one command, and in the state before the loop
the branch of that command is open for its bank.
-/

namespace AesOnGpu.Dram
namespace DramT

variable {config : MemoryConfig} {s s' : DramT}

/-- The four branches of the loop. -/
inductive Issued (config : MemoryConfig) (s : DramT) : DramT → Command → Prop
  | RD {j mrq s'} : j < config.nbk → (s.bk j).mrq = some mrq → s.canRead config j mrq →
      s.transfer config j mrq .READ config.CL = some s' →
      Issued config s (s'.startRead config j) (.RD j mrq)
  | WR {j mrq s'} : j < config.nbk → (s.bk j).mrq = some mrq → s.canWrite config j mrq →
      s.transfer config j mrq .WRITE config.WL = some s' →
      Issued config s (s'.startWrite config j) (.WR j mrq)
  | ACT {j mrq} : j < config.nbk → (s.bk j).mrq = some mrq → s.canActivate j →
      Issued config s (s.activate config j mrq) (.ACT j mrq.row)
  | PRE {j mrq} : j < config.nbk → (s.bk j).mrq = some mrq → s.canPrecharge config j mrq →
      Issued config s (s.precharge config j) (.PRE j)

theorem issueBank_none {j : Nat} (run : s.issueBank config j = some (s', none)) : s' = s := by
  rw [issueBank] at run
  split at run
  · cases run
    rfl
  · split at run
    · obtain ⟨_, _, eq⟩ := Option.map_eq_some_iff.mp run
      cases eq
    · split at run
      · obtain ⟨_, _, eq⟩ := Option.map_eq_some_iff.mp run
        cases eq
      · split at run
        · cases run
        · split at run
          · cases run
          · cases run
            rfl

theorem issueBank_some {j : Nat} {command : Command} (inside : j < config.nbk)
    (run : s.issueBank config j = some (s', some command)) : Issued config s s' command := by
  rw [issueBank] at run
  split at run
  · cases run
  · rename_i mrq holds
    split at run
    · rename_i can
      obtain ⟨_, transferred, eq⟩ := Option.map_eq_some_iff.mp run
      cases eq
      exact .RD inside holds can transferred
    · split at run
      · rename_i can
        obtain ⟨_, transferred, eq⟩ := Option.map_eq_some_iff.mp run
        cases eq
        exact .WR inside holds can transferred
      · split at run
        · rename_i can
          cases run
          exact .ACT inside holds can
        · split at run
          · rename_i can
            cases run
            exact .PRE inside holds can
          · cases run

theorem issue_cases {rounds : List Nat} {command : Option Command} (banks : 0 < config.nbk)
    (run : issue config rounds s = some (s', command)) :
    command = none ∧ s' = s ∨ ∃ issued, command = some issued ∧ Issued config s s' issued := by
  induction rounds generalizing s with
  | nil =>
    cases run
    exact Or.inl ⟨rfl, rfl⟩
  | cons i rest ih =>
    rw [issue] at run
    split at run
    · cases run
    · rename_i next issued found
      cases run
      exact Or.inr ⟨issued, rfl, issueBank_some (Nat.mod_lt _ banks) found⟩
    · rename_i next found
      rw [issueBank_none found] at run
      exact ih run

theorem issue_range {command : Option Command}
    (run : issue config (List.range config.nbk) s = some (s', command)) :
    command = none ∧ s' = s ∨ ∃ issued, command = some issued ∧ Issued config s s' issued := by
  by_cases banks : 0 < config.nbk
  · exact issue_cases banks run
  · rw [Nat.eq_zero_of_not_pos banks] at run
    cases run
    exact Or.inl ⟨rfl, rfl⟩

theorem cycle_parts {log : CycleLog} (run : s.cycle config = some (s', log)) :
    ∃ drained scheduled issued,
      s.drain config = some (drained, log.popped, log.left) ∧
      drained.scheduler config = some scheduled ∧
      issue config (List.range config.nbk) scheduled = some (issued, log.command) ∧
      s' = issued.decrement config := by
  rw [cycle] at run
  split at run
  · cases run
  · rename_i drained popped left drainRun
    split at run
    · cases run
    · rename_i scheduled scheduleRun
      split at run
      · cases run
      · rename_i issued command issueRun
        cases run
        exact ⟨drained, scheduled, issued, drainRun, scheduleRun, issueRun, rfl⟩

end DramT

/-! ## Runs -/

inductive Event where
  | pushed (mrq : DramReq)
  | cycle (log : CycleLog)

inductive Reaches (config : MemoryConfig) (id : Nat) : DramT → List Event → Prop
  | new {s} : DramT.new config id = some s → Reaches config id s []
  | push {s s' events data compressedSize mrq} : Reaches config id s events →
      s.push config data compressedSize = some (s', mrq) →
      Reaches config id s' (events ++ [.pushed mrq])
  | cycle {s s' events log} : Reaches config id s events → s.cycle config = some (s', log) →
      Reaches config id s' (events ++ [.cycle log])
  | return_queue_pop {s s' events data} : Reaches config id s events →
      s.return_queue_pop = some (s', data) → Reaches config id s' events

/-! A run can be computed from what its users do. -/

inductive Input where
  | push (data : MemFetch) (compressedSize : Nat)
  | cycle
  | return_queue_pop

def step (config : MemoryConfig) (state : DramT × List Event) : Input → Option (DramT × List Event)
  | .push data compressedSize => (state.1.push config data compressedSize).map fun result =>
    (result.1, state.2 ++ [.pushed result.2])
  | .cycle => (state.1.cycle config).map fun result => (result.1, state.2 ++ [.cycle result.2])
  | .return_queue_pop => state.1.return_queue_pop.map fun result => (result.1, state.2)

def run (config : MemoryConfig) (id : Nat) (inputs : List Input) : Option (DramT × List Event) :=
  (DramT.new config id).bind fun s => inputs.foldlM (step config) (s, [])

section

variable {config : MemoryConfig} {id : Nat} {state state' : DramT × List Event}

theorem reaches_step {input : Input} (reaches : Reaches config id state.1 state.2)
    (run : step config state input = some state') : Reaches config id state'.1 state'.2 := by
  cases input with
  | push data compressedSize =>
    obtain ⟨result, eq, rfl⟩ := Option.map_eq_some_iff.mp run
    exact .push reaches eq
  | cycle =>
    obtain ⟨result, eq, rfl⟩ := Option.map_eq_some_iff.mp run
    exact .cycle reaches eq
  | return_queue_pop =>
    obtain ⟨result, eq, rfl⟩ := Option.map_eq_some_iff.mp run
    exact .return_queue_pop reaches eq

theorem reaches_steps {inputs : List Input} (reaches : Reaches config id state.1 state.2)
    (run : inputs.foldlM (step config) state = some state') :
    Reaches config id state'.1 state'.2 := by
  induction inputs generalizing state with
  | nil =>
    cases run
    exact reaches
  | cons input rest ih =>
    rw [List.foldlM_cons] at run
    obtain ⟨between, first, others⟩ := Option.bind_eq_some_iff.mp run
    exact ih (reaches_step reaches first) others

theorem reaches_run {inputs : List Input} (result : run config id inputs = some state) :
    Reaches config id state.1 state.2 := by
  obtain ⟨s, created, rest⟩ := Option.bind_eq_some_iff.mp result
  exact @reaches_steps config id (s, []) state inputs (.new created) rest

end

end AesOnGpu.Dram
