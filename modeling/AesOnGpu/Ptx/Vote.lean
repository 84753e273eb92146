import AesOnGpu.Ptx.Flags

/-! # Votes

`vote_impl` of `instructions.cc`, as `execute_warp_inst_t` runs it: the lanes of the warp
take their turns one by one, a lane whose guard skips the instruction leaves the mask,
and what the others say is gathered in static variables until the thread `last_tid` has
its turn.  That thread is the highest lane of the mask when the first one votes, whether
or not its own guard lets it vote (`run_correct_iff`).
-/

namespace AesOnGpu.Ptx.Votes

/-! ## The code -/

structure Thread where
  core : Nat
  hw_tid : Nat
  deriving DecidableEq

inductive VoteMode where
  | vote_any
  | vote_all
  | vote_uni
  | vote_ballot
  deriving DecidableEq

/-- The option that the instruction is written with. -/
inductive VoteOption where
  | ANY_OPTION
  | ALL_OPTION
  | UNI_OPTION
  | BALLOT_OPTION
  deriving DecidableEq

/-- What the parser stores in `m_vote_mode`; with `UNI_OPTION` the member stays what it
    was when the instruction was allocated. -/
def VoteOption.vote_mode (uninitialised : Option VoteMode) : VoteOption → Option VoteMode
  | ANY_OPTION => some .vote_any
  | ALL_OPTION => some .vote_all
  | UNI_OPTION => uninitialised
  | BALLOT_OPTION => some .vote_ballot

/-- A vote instruction that a warp executes.  `none` is a mode that is no enumerator. -/
structure Vote (warpSize : Nat) (Symbol : Type) where
  core : Nat
  warpId : Nat
  active : Nat → Bool
  inside : ∀ lane, active lane = true → lane < warpSize
  pred : Option (Symbol × Flags.PredMod)
  src1 : Symbol
  is_neg_pred : Bool
  dst : Symbol
  option : VoteOption
  uninitialised : Option VoteMode

/-- The static variables of `vote_impl`. -/
structure Statics where
  first_in_warp : Bool
  and_all : Bool
  or_all : Bool
  ballot_result : BitVec 32
  threads_in_warp : List Thread
  last_tid : Nat

structure State (Symbol : Type) where
  statics : Statics
  regs : Thread → Regs Symbol

section

variable {warpSize : Nat} {Symbol : Type} [DecidableEq Symbol]

def Vote.thread (vote : Vote warpSize Symbol) (lane : Nat) : Thread :=
  { core := vote.core, hw_tid := warpSize * vote.warpId + lane }

/-- The block that the first thread of the warp runs; `none` is a failed assertion. -/
def Statics.enter (warpSize : Nat) (active : Nat → Bool) (thread : Thread) (statics : Statics) :
    Option Statics :=
  if statics.first_in_warp then
    ((List.range 32).reverse.find? active).map fun offset =>
      { first_in_warp := false
        and_all := true
        or_all := false
        ballot_result := 0
        threads_in_warp := []
        last_tid := thread.hw_tid - thread.hw_tid % warpSize + offset }
  else some statics

def Statics.add (warpSize : Nat) (statics : Statics) (thread : Thread) (value : Bool) : Statics :=
  { statics with
    threads_in_warp := statics.threads_in_warp ++ [thread]
    and_all := statics.and_all && value
    or_all := statics.or_all || value
    ballot_result :=
      if value then statics.ballot_result ||| BitVec.twoPow 32 (thread.hw_tid % warpSize)
      else statics.ballot_result }

/-- `data.pred`: 1 is false and 0 is true. -/
def predData (pred_value : Bool) : RegValue := if pred_value then 0 else 1

/-- What is published; the switch aborts on a mode that is no enumerator. -/
def Statics.data (statics : Statics) : Option VoteMode → Option RegValue
  | some .vote_ballot => some (statics.ballot_result.setWidth 64)
  | some .vote_any => some (predData statics.or_all)
  | some .vote_all => some (predData statics.and_all)
  | some .vote_uni => some (predData (xor statics.or_all statics.and_all))
  | none => none

def publish (regs : Thread → Regs Symbol) (dst : Symbol) (data : RegValue) (threads : List Thread) :
    Thread → Regs Symbol :=
  threads.foldl (fun regs t => Function.update regs t (set_reg (regs t) dst data)) regs

def Vote.value (vote : Vote warpSize Symbol) (regs : Regs Symbol) : Bool :=
  let pred_value := !(regs vote.src1).getLsbD 0
  xor vote.is_neg_pred pred_value

def vote_impl (vote : Vote warpSize Symbol) (active : Nat → Bool) (thread : Thread)
    (state : State Symbol) : Option (State Symbol) := do
  let statics ← state.statics.enter warpSize active thread
  let statics := statics.add warpSize thread (vote.value (state.regs thread))
  if thread.hw_tid = statics.last_tid then
    let data ← statics.data (vote.option.vote_mode vote.uninitialised)
    return { statics := { statics with first_in_warp := true }
             regs := publish state.regs vote.dst data statics.threads_in_warp }
  else
    return { state with statics }

/-- The guard of `ptx_exec_inst`. -/
def Vote.skip (vote : Vote warpSize Symbol) (regs : Regs Symbol) : Bool :=
  match vote.pred with
  | none => false
  | some (pred, pred_mod) => Flags.skip pred_mod (regs pred)

/-- One turn of the loop of `execute_warp_inst_t`, with the mask of the instruction. -/
def ptx_exec_inst (vote : Vote warpSize Symbol) (exec : (Nat → Bool) × State Symbol) (lane : Nat) :
    Option ((Nat → Bool) × State Symbol) :=
  if exec.1 lane then
    if vote.skip (exec.2.regs (vote.thread lane)) then
      some (Function.update exec.1 lane false, exec.2)
    else (vote_impl vote exec.1 (vote.thread lane) exec.2).map (exec.1, ·)
  else some exec

def execute_warp_inst_t (vote : Vote warpSize Symbol) (state : State Symbol) :
    Option (State Symbol) :=
  ((List.range warpSize).foldlM (ptx_exec_inst vote) (vote.active, state)).map Prod.snd

/-! ## What a vote is -/

def Vote.votes (vote : Vote warpSize Symbol) (regs : Thread → Regs Symbol) (lane : Nat) : Bool :=
  vote.active lane && !vote.skip (regs (vote.thread lane))

def Vote.voters (vote : Vote warpSize Symbol) (regs : Thread → Regs Symbol) : List Nat :=
  (List.range warpSize).filter (vote.votes regs)

def Vote.opinion (vote : Vote warpSize Symbol) (regs : Thread → Regs Symbol) (lane : Nat) : Bool :=
  vote.value (regs (vote.thread lane))

def Vote.Expects (vote : Vote warpSize Symbol) (regs : Thread → Regs Symbol) (data : RegValue) :
    Prop :=
  match vote.option with
  | .ANY_OPTION => data = predData ((vote.voters regs).any (vote.opinion regs))
  | .ALL_OPTION => data = predData ((vote.voters regs).all (vote.opinion regs))
  | .UNI_OPTION => data = predData
      ((vote.voters regs).all (vote.opinion regs) || (vote.voters regs).all (!vote.opinion regs ·))
  | .BALLOT_OPTION => ∀ i, data.getLsbD i = (decide (i ∈ vote.voters regs) && vote.opinion regs i)

structure Vote.Correct (vote : Vote warpSize Symbol) (before after : State Symbol) : Prop where
  received : ∀ lane ∈ vote.voters before.regs,
    vote.Expects before.regs (after.regs (vote.thread lane) vote.dst)
  fresh : after.statics.first_in_warp = true

def RunCorrect : List (Vote warpSize Symbol) → State Symbol → Prop
  | [], _ => True
  | vote :: votes, state => ∃ after, execute_warp_inst_t vote state = some after ∧
      vote.Correct state after ∧ RunCorrect votes after

def Vote.UniformByChance (vote : Vote warpSize Symbol) (regs : Thread → Regs Symbol) : Prop :=
  match vote.uninitialised with
  | some .vote_any => ∀ lane ∈ vote.voters regs, vote.opinion regs lane = true
  | some .vote_all => ∃ lane ∈ vote.voters regs, vote.opinion regs lane = true
  | some .vote_ballot => (∀ lane ∈ vote.voters regs, vote.opinion regs lane = false) ∨
      ((∀ lane ∈ vote.voters regs, vote.opinion regs lane = true ↔ lane = 0) ∧
        0 ∈ vote.voters regs ∧ ∃ lane ∈ vote.voters regs, lane ≠ 0)
  | some .vote_uni | none => False

def Vote.Published (vote : Vote warpSize Symbol) (regs : Thread → Regs Symbol) : Prop :=
  ∃ last ∈ vote.voters regs, ∀ lane, vote.active lane = true → lane ≤ last

def Vote.Sound (vote : Vote warpSize Symbol) (regs : Thread → Regs Symbol) : Prop :=
  vote.voters regs = [] ∨
    vote.Published regs ∧ (vote.option = .UNI_OPTION → vote.UniformByChance regs)

def RunSound : List (Vote warpSize Symbol) → State Symbol → Prop
  | [], _ => True
  | vote :: votes, state => vote.Sound state.regs ∧
      ∀ after, execute_warp_inst_t vote state = some after → RunSound votes after

end

/-! ## Lanes that gather -/

section

variable {warpSize : Nat} {Symbol : Type}

variable {vote : Vote warpSize Symbol} {regs : Thread → Regs Symbol} {state : State Symbol}

theorem thread_lane {lane : Nat} (inside : lane < warpSize) :
    (vote.thread lane).hw_tid % warpSize = lane := by
  rw [Vote.thread, Nat.mul_add_mod, Nat.mod_eq_of_lt inside]

theorem mem_voters {lane : Nat} : lane ∈ vote.voters regs ↔ vote.votes regs lane = true := by
  rw [Vote.voters, List.mem_filter, List.mem_range, and_iff_right_of_imp]
  intro voting
  rw [Vote.votes, Bool.and_eq_true] at voting
  exact vote.inside lane voting.1

theorem find_highest {active : Nat → Bool} {last : Nat} (holds : active last = true) :
    ∀ n, last < n → (∀ lane < n, active lane = true → lane ≤ last) →
      (List.range n).reverse.find? active = some last := by
  intro n
  induction n with
  | zero => intro inside; omega
  | succ n ih =>
    intro inside highest
    rw [List.range_succ, List.reverse_append, List.reverse_singleton, List.singleton_append,
      List.find?_cons]
    cases top : active n with
    | true =>
      have below := highest n (by omega) top
      have same : n = last := by omega
      rw [same]
    | false =>
      have other : last ≠ n := by
        rintro rfl
        rw [holds] at top
        cases top
      exact ih (by omega) fun lane before => highest lane (by omega)

def gathered (vote : Vote warpSize Symbol) (regs : Thread → Regs Symbol) (last : Nat)
    (lanes : List Nat) : Statics :=
  lanes.foldl (fun statics lane => statics.add warpSize (vote.thread lane) (vote.opinion regs lane))
    { first_in_warp := false
      and_all := true
      or_all := false
      ballot_result := 0
      threads_in_warp := []
      last_tid := (vote.thread last).hw_tid }

variable {last : Nat}

theorem gathered_snoc (lanes : List Nat) (lane : Nat) :
    gathered vote regs last (lanes ++ [lane]) =
      (gathered vote regs last lanes).add warpSize (vote.thread lane) (vote.opinion regs lane) := by
  rw [gathered, List.foldl_append]
  rfl

theorem gathered_open (lanes : List Nat) :
    (gathered vote regs last lanes).first_in_warp = false := by
  induction lanes using List.reverseRecOn with
  | nil => rfl
  | append_singleton lanes lane ih => rw [gathered_snoc]; exact ih

theorem gathered_last (lanes : List Nat) :
    (gathered vote regs last lanes).last_tid = (vote.thread last).hw_tid := by
  induction lanes using List.reverseRecOn with
  | nil => rfl
  | append_singleton lanes lane ih => rw [gathered_snoc]; exact ih

theorem gathered_threads (lanes : List Nat) :
    (gathered vote regs last lanes).threads_in_warp = lanes.map vote.thread := by
  induction lanes using List.reverseRecOn with
  | nil => rfl
  | append_singleton lanes lane ih =>
    rw [gathered_snoc, Statics.add, ih, List.map_append]
    rfl

theorem gathered_and (vote : Vote warpSize Symbol) (regs : Thread → Regs Symbol) (last : Nat)
    (lanes : List Nat) :
    (gathered vote regs last lanes).and_all = lanes.all (vote.opinion regs) := by
  induction lanes using List.reverseRecOn with
  | nil => rfl
  | append_singleton lanes lane ih =>
    rw [gathered_snoc, Statics.add, ih, List.all_append]
    simp

theorem gathered_or (vote : Vote warpSize Symbol) (regs : Thread → Regs Symbol) (last : Nat)
    (lanes : List Nat) :
    (gathered vote regs last lanes).or_all = lanes.any (vote.opinion regs) := by
  induction lanes using List.reverseRecOn with
  | nil => rfl
  | append_singleton lanes lane ih =>
    rw [gathered_snoc, Statics.add, ih, List.any_append]
    simp

theorem gathered_ballot (small : warpSize ≤ 32) (lanes : List Nat) :
    (∀ lane ∈ lanes, lane < warpSize) → ∀ i,
      (gathered vote regs last lanes).ballot_result.getLsbD i =
        (decide (i ∈ lanes) && vote.opinion regs i) := by
  induction lanes using List.reverseRecOn with
  | nil => intro _ i; simp [gathered]
  | append_singleton lanes lane ih =>
    intro inside i
    have here : lane < warpSize := inside lane (by simp)
    have before := ih (fun lane member => inside lane (by simp [member])) i
    rw [gathered_snoc, Statics.add, thread_lane here]
    by_cases same : i = lane
    · subst same
      cases said : vote.opinion regs i with
      | true => simp [show i < 32 by omega]
      | false => simp [before, said]
    · have apart : lane ≠ i := fun equal => same equal.symm
      split
      · rw [BitVec.getLsbD_or, before, BitVec.getLsbD_twoPow]
        simp [same, apart]
      · simp [before, same]

/-! ## Turns -/

def below (vote : Vote warpSize Symbol) (regs : Thread → Regs Symbol) (lane : Nat) : List Nat :=
  (List.range lane).filter (vote.votes regs)

theorem below_succ (lane : Nat) :
    below vote regs (lane + 1) =
      if vote.votes regs lane then below vote regs lane ++ [lane] else below vote regs lane := by
  rw [below, List.range_succ, List.filter_append, List.filter_singleton]
  cases vote.votes regs lane with
  | true => rfl
  | false => exact List.append_nil _

def maskAfter (vote : Vote warpSize Symbol) (regs : Thread → Regs Symbol) (turns lane : Nat) : Bool :=
  vote.active lane && (decide (turns ≤ lane) || vote.votes regs lane)

theorem maskAfter_succ (turns : Nat) :
    maskAfter vote regs (turns + 1) =
      Function.update (maskAfter vote regs turns) turns (vote.votes regs turns) := by
  funext lane
  by_cases same : lane = turns
  · subst same
    rw [Function.update_self, maskAfter, Vote.votes]
    cases vote.active lane <;> simp
  · have reached : turns + 1 ≤ lane ↔ turns ≤ lane := by omega
    rw [Function.update_of_ne same, maskAfter, maskAfter, decide_eq_decide.mpr reached]

theorem maskAfter_start : maskAfter vote regs 0 = vote.active := by
  funext lane
  simp [maskAfter]

theorem maskAfter_self (vote : Vote warpSize Symbol) (regs : Thread → Regs Symbol) (turns : Nat) :
    maskAfter vote regs turns turns = vote.active turns := by
  simp [maskAfter]

def stateAfter (vote : Vote warpSize Symbol) (state : State Symbol) (last turns : Nat) :
    State Symbol :=
  if below vote state.regs turns = [] then state
  else { state with statics := gathered vote state.regs last (below vote state.regs turns) }

theorem stateAfter_regs (turns : Nat) :
    (stateAfter vote state last turns).regs = state.regs := by
  rw [stateAfter]
  split <;> rfl

structure Highest (vote : Vote warpSize Symbol) (last : Nat) : Prop where
  active : vote.active last = true
  above : ∀ lane, vote.active lane = true → lane ≤ last

theorem resumed (small : warpSize ≤ 32) (fresh : state.statics.first_in_warp = true)
    (highest : Highest vote last) {turns : Nat} (voting : vote.votes state.regs turns = true) :
    (stateAfter vote state last turns).statics.enter warpSize (maskAfter vote state.regs turns)
        (vote.thread turns) =
      some (gathered vote state.regs last (below vote state.regs turns)) := by
  have active : vote.active turns = true := by
    rw [Vote.votes, Bool.and_eq_true] at voting
    exact voting.1
  have inside := vote.inside turns active
  by_cases first : below vote state.regs turns = []
  · have reached := highest.above turns active
    have top : last < 32 := by
      have := vote.inside last highest.active
      omega
    have holds : maskAfter vote state.regs turns last = true := by
      simp [maskAfter, highest.active, reached]
    have found := find_highest holds 32 top fun lane _ member =>
      highest.above lane (Bool.and_eq_true _ _ ▸ member).1
    rw [stateAfter, if_pos first, Statics.enter, if_pos fresh, found, first, thread_lane inside]
    simp [gathered, Vote.thread]
  · simp [stateAfter, first, Statics.enter, gathered_open]

variable [DecidableEq Symbol]

/-- What a lane that votes leaves. -/
def voted (vote : Vote warpSize Symbol) (state : State Symbol) (last turns : Nat) :
    Option (State Symbol) :=
  let statics := gathered vote state.regs last (below vote state.regs (turns + 1))
  if turns = last then
    (statics.data (vote.option.vote_mode vote.uninitialised)).map fun data =>
      { statics := { statics with first_in_warp := true }
        regs := publish state.regs vote.dst data statics.threads_in_warp }
  else some { state with statics }

theorem vote_impl_eq (small : warpSize ≤ 32) (fresh : state.statics.first_in_warp = true)
    (highest : Highest vote last) {turns : Nat} (voting : vote.votes state.regs turns = true) :
    vote_impl vote (maskAfter vote state.regs turns) (vote.thread turns)
        (stateAfter vote state last turns) = voted vote state last turns := by
  have joined : below vote state.regs (turns + 1) = below vote state.regs turns ++ [turns] := by
    rw [below_succ, if_pos voting]
  have statics := resumed small fresh highest voting
  have added : (gathered vote state.regs last (below vote state.regs turns)).add warpSize
      (vote.thread turns) (vote.value (state.regs (vote.thread turns))) =
      gathered vote state.regs last (below vote state.regs (turns + 1)) := by
    rw [joined, gathered_snoc]
    rfl
  have turn : (vote.thread turns).hw_tid = (gathered vote state.regs last
      (below vote state.regs (turns + 1))).last_tid ↔ turns = last := by
    rw [gathered_last]
    simp [Vote.thread]
  rw [vote_impl, statics, voted, Option.bind_eq_bind, Option.bind_some, stateAfter_regs, added]
  by_cases here : turns = last
  · simp only [if_pos here, if_pos (turn.mpr here)]
    cases (gathered vote state.regs last (below vote state.regs (turns + 1))).data
      (vote.option.vote_mode vote.uninitialised) <;> rfl
  · simp only [if_neg here, if_neg fun same => here (turn.mp same)]
    rfl

theorem exec_of_votes (small : warpSize ≤ 32) (fresh : state.statics.first_in_warp = true)
    (highest : Highest vote last) {turns : Nat} (voting : vote.votes state.regs turns = true) :
    ptx_exec_inst vote (maskAfter vote state.regs turns, stateAfter vote state last turns) turns =
      (voted vote state last turns).map (maskAfter vote state.regs (turns + 1), ·) := by
  have both := voting
  rw [Vote.votes, Bool.and_eq_true, Bool.not_eq_true'] at both
  have mask : maskAfter vote state.regs turns turns = true := maskAfter_self vote state.regs turns ▸ both.1
  have kept : maskAfter vote state.regs (turns + 1) = maskAfter vote state.regs turns := by
    rw [maskAfter_succ, voting, ← mask, Function.update_eq_self]
  have executed := vote_impl_eq small fresh highest voting
  simp only [ptx_exec_inst, mask, stateAfter_regs, both.2, executed, kept]
  rfl

theorem exec_of_silent {turns : Nat} (silent : vote.votes state.regs turns = false) :
    ptx_exec_inst vote (maskAfter vote state.regs turns, stateAfter vote state last turns) turns =
      some (maskAfter vote state.regs (turns + 1), stateAfter vote state last (turns + 1)) := by
  have same : stateAfter vote state last (turns + 1) = stateAfter vote state last turns := by
    simp [stateAfter, below_succ, silent]
  have mask := maskAfter_self vote state.regs turns
  rw [same, maskAfter_succ, silent]
  cases active : vote.active turns with
  | false =>
    rw [active] at mask
    have kept := Function.update_eq_self turns (maskAfter vote state.regs turns)
    rw [mask] at kept
    simp only [ptx_exec_inst, mask, kept]
    rfl
  | true =>
    rw [active] at mask
    have skipped : vote.skip (state.regs (vote.thread turns)) = true := by
      simpa [Vote.votes, active] using silent
    simp only [ptx_exec_inst, mask, stateAfter_regs, skipped]
    rfl

theorem turn (small : warpSize ≤ 32) (fresh : state.statics.first_in_warp = true)
    (highest : Highest vote last) {turns : Nat}
    (quiet : vote.votes state.regs turns = true → turns ≠ last) :
    ptx_exec_inst vote (maskAfter vote state.regs turns, stateAfter vote state last turns) turns =
      some (maskAfter vote state.regs (turns + 1), stateAfter vote state last (turns + 1)) := by
  cases voting : vote.votes state.regs turns with
  | true =>
    rw [exec_of_votes small fresh highest voting, voted, if_neg (quiet voting), stateAfter,
      below_succ, if_pos voting]
    simp
  | false => exact exec_of_silent voting

theorem turns_quiet (small : warpSize ≤ 32) (fresh : state.statics.first_in_warp = true)
    (highest : Highest vote last) : ∀ turns,
    (∀ lane < turns, vote.votes state.regs lane = true → lane ≠ last) →
      (List.range turns).foldlM (ptx_exec_inst vote) (vote.active, state) =
        some (maskAfter vote state.regs turns, stateAfter vote state last turns) := by
  intro turns
  induction turns with
  | zero =>
    intro _
    rw [maskAfter_start]
    rfl
  | succ turns ih =>
    intro quiet
    rw [List.range_succ, List.foldlM_append, ih fun lane before => quiet lane (by omega)]
    have next := turn small fresh highest (quiet turns (by omega))
    simpa using next

/-! ## Warps -/

omit [DecidableEq Symbol] in
theorem voters_eq_below (highest : Highest vote last) :
    vote.voters regs = below vote regs (last + 1) := by
  have inside := vote.inside last highest.active
  have settled : ∀ lanes, last + 1 ≤ lanes → below vote regs lanes = below vote regs (last + 1) := by
    intro lanes reached
    induction lanes, reached using Nat.le_induction with
    | base => rfl
    | succ lanes reached ih =>
      have silent : ¬ vote.votes regs lanes = true := by
        intro voting
        rw [Vote.votes, Bool.and_eq_true] at voting
        have := highest.above lanes voting.1
        omega
      rw [below_succ, if_neg silent, ih]
  exact settled warpSize inside

def published (vote : Vote warpSize Symbol) (state : State Symbol) (last : Nat) (data : RegValue) :
    State Symbol :=
  let statics := gathered vote state.regs last (vote.voters state.regs)
  { statics := { statics with first_in_warp := true }
    regs := publish state.regs vote.dst data statics.threads_in_warp }

theorem execute_of_last_votes (small : warpSize ≤ 32) (fresh : state.statics.first_in_warp = true)
    (highest : Highest vote last) (voting : vote.votes state.regs last = true) :
    execute_warp_inst_t vote state =
      ((gathered vote state.regs last (vote.voters state.regs)).data
        (vote.option.vote_mode vote.uninitialised)).map (published vote state last) := by
  have inside := vote.inside last highest.active
  have result : voted vote state last last =
      ((gathered vote state.regs last (vote.voters state.regs)).data
        (vote.option.vote_mode vote.uninitialised)).map (published vote state last) := by
    rw [voted, if_pos rfl, ← voters_eq_below highest]
    rfl
  have turns : ∀ lanes, last + 1 ≤ lanes →
      (List.range lanes).foldlM (ptx_exec_inst vote) (vote.active, state) =
        (voted vote state last last).map (maskAfter vote state.regs (last + 1), ·) := by
    intro lanes reached
    induction lanes, reached using Nat.le_induction with
    | base =>
      have before := turns_quiet small fresh highest last fun lane earlier _ => by omega
      rw [List.range_succ, List.foldlM_append, before]
      have next := exec_of_votes small fresh highest voting
      simpa using next
    | succ lanes reached ih =>
      rw [List.range_succ, List.foldlM_append, ih]
      -- No lane above the last one is active.
      have inactive : maskAfter vote state.regs (last + 1) lanes = false := by
        rw [maskAfter]
        cases active : vote.active lanes with
        | false => rfl
        | true =>
          have := highest.above lanes active
          omega
      cases voted vote state last last with
      | none => rfl
      | some after => simp [ptx_exec_inst, inactive]
  rw [execute_warp_inst_t, turns warpSize inside, ← result, Option.map_map]
  exact Option.map_id'

theorem execute_of_last_silent (small : warpSize ≤ 32) (fresh : state.statics.first_in_warp = true)
    (highest : Highest vote last) (silent : vote.votes state.regs last = false) :
    execute_warp_inst_t vote state = some (stateAfter vote state last warpSize) := by
  have turns := turns_quiet small fresh highest warpSize fun lane _ voting => by
    rintro rfl
    rw [silent] at voting
    cases voting
  rw [execute_warp_inst_t, turns]
  rfl

theorem execute_of_inactive (inactive : ∀ lane, vote.active lane = false) :
    execute_warp_inst_t vote state = some state := by
  have turns : ∀ lanes, (List.range lanes).foldlM (ptx_exec_inst vote) (vote.active, state) =
      some (vote.active, state) := by
    intro lanes
    induction lanes with
    | zero => rfl
    | succ lanes ih =>
      rw [List.range_succ, List.foldlM_append, ih]
      simp [ptx_exec_inst, inactive]
  rw [execute_warp_inst_t, turns]
  rfl

omit [DecidableEq Symbol] in
theorem inactive_or_highest (vote : Vote warpSize Symbol) :
    (∀ lane, vote.active lane = false) ∨ ∃ last, Highest vote last := by
  by_cases any : ∃ lane, vote.active lane = true
  · obtain ⟨lane, active⟩ := any
    refine .inr ⟨Nat.findGreatest (fun lane => vote.active lane = true) warpSize, ?_, ?_⟩
    · exact Nat.findGreatest_spec (P := fun lane => vote.active lane = true)
        (vote.inside lane active).le active
    · intro other also
      exact Nat.le_findGreatest (vote.inside other also).le also
  · refine .inl fun lane => ?_
    exact eq_false_of_ne_true fun active => any ⟨lane, active⟩

theorem execute_of_no_voters (small : warpSize ≤ 32) (fresh : state.statics.first_in_warp = true)
    (nobody : vote.voters state.regs = []) : execute_warp_inst_t vote state = some state := by
  rcases inactive_or_highest vote with inactive | ⟨last, highest⟩
  · exact execute_of_inactive inactive
  · have silent : vote.votes state.regs last = false := by
      refine eq_false_of_ne_true fun voting => ?_
      have member := mem_voters.mpr voting
      rw [nobody] at member
      cases member
    have none : below vote state.regs warpSize = [] := nobody
    rw [execute_of_last_silent small fresh highest silent, stateAfter, if_pos none]

/-! ## What the lanes receive -/

theorem publish_mem {dst : Symbol} {data : RegValue} {thread : Thread} (threads : List Thread) :
    ∀ regs : Thread → Regs Symbol, thread ∈ threads ∨ regs thread dst = data →
      publish regs dst data threads thread dst = data := by
  induction threads with
  | nil => exact fun regs received => received.resolve_left List.not_mem_nil
  | cons first threads ih =>
    intro regs received
    refine ih (Function.update regs first (set_reg (regs first) dst data)) ?_
    by_cases same : thread = first
    · subst same
      exact .inr (by rw [Function.update_self, set_reg, Function.update_self])
    · rw [Function.update_of_ne same]
      simpa [same] using received

theorem published_received (data : RegValue) {lane : Nat} (member : lane ∈ vote.voters state.regs) :
    (published vote state last data).regs (vote.thread lane) vote.dst = data := by
  refine publish_mem _ _ (.inl ?_)
  rw [gathered_threads]
  exact List.mem_map_of_mem member

theorem published_correct_iff (last : Nat) (data : RegValue) (anybody : vote.voters state.regs ≠ []) :
    vote.Correct state (published vote state last data) ↔ vote.Expects state.regs data := by
  constructor
  · intro correct
    obtain ⟨lane, member⟩ := List.exists_mem_of_ne_nil _ anybody
    have received := correct.received lane member
    rwa [published_received data member] at received
  · intro expected
    refine ⟨fun lane member => ?_, rfl⟩
    rwa [published_received data member]

section

omit [DecidableEq Symbol]

theorem voters_inside {lane : Nat} (member : lane ∈ vote.voters regs) : lane < warpSize :=
  List.mem_range.mp (List.mem_of_mem_filter member)

theorem predData_inj {a b : Bool} : predData a = predData b ↔ a = b := by
  revert a b
  decide

theorem ballot_bits (vote : Vote warpSize Symbol) (regs : Thread → Regs Symbol) (last : Nat)
    (small : warpSize ≤ 32) (i : Nat) :
    ((gathered vote regs last (vote.voters regs)).ballot_result.setWidth 64).getLsbD i =
      (decide (i ∈ vote.voters regs) && vote.opinion regs i) := by
  rw [BitVec.getLsbD_setWidth,
    gathered_ballot small (vote.voters regs) (fun _ => voters_inside) i]
  by_cases member : i ∈ vote.voters regs
  · have := voters_inside member
    simp [show i < 64 by omega]
  · simp [member]

theorem any_of_all {lanes : List Nat} (anybody : lanes ≠ []) {f : Nat → Bool}
    (all : lanes.all f = true) : lanes.any f = true := by
  obtain ⟨lane, member⟩ := List.exists_mem_of_ne_nil lanes anybody
  exact List.any_eq_true.mpr ⟨lane, member, List.all_eq_true.mp all lane member⟩

theorem uniform_values : ∀ {a b : Bool}, (a = true → b = true) →
    (b = (a || !b) ↔ a = true) ∧ (a = (a || !b) ↔ b = true) ∧ xor b a ≠ (a || !b) := by
  decide

section Bits

variable {ballot : RegValue} {lanes : List Nat} {f : Nat → Bool}
  (bits : ∀ i, ballot.getLsbD i = (decide (i ∈ lanes) && f i))

include bits

theorem bits_eq_true_iff : ballot = predData true ↔ ∀ lane ∈ lanes, f lane = false := by
  constructor
  · intro zero lane member
    have bit := bits lane
    rw [zero, decide_eq_true member, Bool.true_and] at bit
    simpa [predData] using bit.symm
  · intro nobody
    refine BitVec.eq_of_getLsbD_eq fun i _ => ?_
    rw [bits i]
    by_cases member : i ∈ lanes
    · simp [nobody i member, predData]
    · simp [member, predData]

theorem bits_eq_false_iff : ballot = predData false ↔
    (∀ lane ∈ lanes, f lane = true ↔ lane = 0) ∧ 0 ∈ lanes := by
  have one (i : Nat) : (predData false).getLsbD i = decide (i = 0) := by simp [predData]
  constructor
  · intro same
    have each (i : Nat) : (decide (i ∈ lanes) && f i) = decide (i = 0) := by
      rw [← bits i, same, one]
    constructor
    · intro lane member
      have bit := each lane
      rw [decide_eq_true member, Bool.true_and] at bit
      rw [bit, decide_eq_true_iff]
    · have bit := each 0
      rw [decide_eq_true rfl, Bool.and_eq_true, decide_eq_true_iff] at bit
      exact bit.1
  · intro lowest
    refine BitVec.eq_of_getLsbD_eq fun i _ => ?_
    rw [bits i, one, Bool.eq_iff_iff, Bool.and_eq_true, decide_eq_true_iff, decide_eq_true_iff]
    constructor
    · rintro ⟨there, said⟩
      exact (lowest.1 i there).mp said
    · rintro rfl
      exact ⟨lowest.2, (lowest.1 0 lowest.2).mpr rfl⟩

end Bits

theorem ballot_uniform_iff (vote : Vote warpSize Symbol) (regs : Thread → Regs Symbol) (last : Nat)
    (small : warpSize ≤ 32) :
    (gathered vote regs last (vote.voters regs)).ballot_result.setWidth 64 = predData
        ((vote.voters regs).all (vote.opinion regs) || (vote.voters regs).all (!vote.opinion regs ·)) ↔
      (∀ lane ∈ vote.voters regs, vote.opinion regs lane = false) ∨
        ((∀ lane ∈ vote.voters regs, vote.opinion regs lane = true ↔ lane = 0) ∧
          0 ∈ vote.voters regs ∧ ∃ lane ∈ vote.voters regs, lane ≠ 0) := by
  have bits := ballot_bits vote regs last small
  cases uniform : (vote.voters regs).all (vote.opinion regs) ||
      (vote.voters regs).all (!vote.opinion regs ·) with
  | true =>
    rw [bits_eq_true_iff bits, or_iff_left]
    rintro ⟨lowest, first, other, voting, apart⟩
    rw [Bool.or_eq_true, List.all_eq_true, List.all_eq_true] at uniform
    -- lane 0 agrees and the other voter does not
    cases uniform with
    | inl everybody => exact apart ((lowest other voting).mp (everybody other voting))
    | inr nobody =>
      have against := nobody 0 first
      rw [(lowest 0 first).mpr rfl] at against
      cases against
  | false =>
    rw [Bool.or_eq_false_iff, List.all_eq_false, List.all_eq_false] at uniform
    obtain ⟨⟨other, voting, against⟩, voter, member, agrees⟩ := uniform
    rw [bits_eq_false_iff bits, or_iff_right]
    · constructor
      · rintro ⟨lowest, first⟩
        exact ⟨lowest, first, other, voting, fun zero => against ((lowest other voting).mpr zero)⟩
      · rintro ⟨lowest, first, -⟩
        exact ⟨lowest, first⟩
    · intro nobody
      exact agrees (by rw [nobody voter member]; rfl)

theorem data_expected_iff (last : Nat) (small : warpSize ≤ 32) (anybody : vote.voters regs ≠ []) :
    (∃ data, (gathered vote regs last (vote.voters regs)).data
        (vote.option.vote_mode vote.uninitialised) = some data ∧ vote.Expects regs data) ↔
      (vote.option = .UNI_OPTION → vote.UniformByChance regs) := by
  have andAll := gathered_and vote regs last (vote.voters regs)
  have orAll := gathered_or vote regs last (vote.voters regs)
  cases option : vote.option with
  | ANY_OPTION => simp [Vote.Expects, option, VoteOption.vote_mode, Statics.data, orAll]
  | ALL_OPTION => simp [Vote.Expects, option, VoteOption.vote_mode, Statics.data, andAll]
  | BALLOT_OPTION =>
    have bits := ballot_bits vote regs last small
    simpa [Vote.Expects, option, VoteOption.vote_mode, Statics.data] using bits
  | UNI_OPTION =>
    have values := uniform_values (any_of_all anybody (f := vote.opinion regs))
    have nobody : (vote.voters regs).all (!vote.opinion regs ·) =
        !(vote.voters regs).any (vote.opinion regs) := (List.not_any_eq_all_not).symm
    simp only [Vote.Expects, option, VoteOption.vote_mode, Vote.UniformByChance, true_imp_iff]
    cases mode : vote.uninitialised with
    | none => simp [Statics.data]
    | some stored =>
      cases stored with
      | vote_ballot =>
        have chance := ballot_uniform_iff vote regs last small
        simpa only [Statics.data, Option.some.injEq, exists_eq_left'] using chance
      | vote_any =>
        rw [← List.all_eq_true]
        simp only [Statics.data, Option.some.injEq, exists_eq_left', orAll, predData_inj, nobody]
        exact values.1
      | vote_all =>
        rw [← List.any_eq_true]
        simp only [Statics.data, Option.some.injEq, exists_eq_left', andAll, predData_inj, nobody]
        exact values.2.1
      | vote_uni =>
        simp only [Statics.data, Option.some.injEq, exists_eq_left', orAll, andAll, predData_inj, nobody]
        exact iff_of_false values.2.2 not_false

end

/-! ## Runs -/

theorem correct_iff_sound (small : warpSize ≤ 32) (fresh : state.statics.first_in_warp = true) :
    (∃ after, execute_warp_inst_t vote state = some after ∧ vote.Correct state after) ↔
      vote.Sound state.regs := by
  by_cases nobody : vote.voters state.regs = []
  · refine iff_of_true ⟨state, execute_of_no_voters small fresh nobody, ?_, fresh⟩ (.inl nobody)
    simp [nobody]
  · obtain ⟨voter, member⟩ := List.exists_mem_of_ne_nil _ nobody
    have active : vote.active voter = true := by
      have voting := mem_voters.mp member
      rw [Vote.votes, Bool.and_eq_true] at voting
      exact voting.1
    obtain inactive | ⟨last, highest⟩ := inactive_or_highest vote
    · rw [inactive] at active
      cases active
    rw [Vote.Sound, or_iff_right nobody]
    cases voting : vote.votes state.regs last with
    | true =>
      have reached : vote.Published state.regs := ⟨last, mem_voters.mpr voting, highest.above⟩
      rw [and_iff_right reached, ← data_expected_iff last small nobody,
        execute_of_last_votes small fresh highest voting]
      cases published : (gathered vote state.regs last (vote.voters state.regs)).data
        (vote.option.vote_mode vote.uninitialised) with
      | none => simp
      | some data =>
        have received := published_correct_iff last data nobody
        simpa using received
    | false =>
      refine iff_of_false ?_ ?_
      · rintro ⟨after, executed, correct⟩
        have anybody : below vote state.regs warpSize ≠ [] := nobody
        rw [execute_of_last_silent small fresh highest voting, Option.some.injEq] at executed
        have carried := correct.fresh
        rw [← executed, stateAfter, if_neg anybody] at carried
        simp [gathered_open] at carried
      · rintro ⟨⟨other, there, above⟩, -⟩
        have same : other = last := by
          have voting := mem_voters.mp there
          rw [Vote.votes, Bool.and_eq_true] at voting
          exact le_antisymm (highest.above other voting.1) (above last highest.active)
        rw [← same, mem_voters.mp there] at voting
        cases voting

/-- A run of votes is right if and only if every vote is sound: its highest active lane
    votes, if any lane does, and it is not a uniform vote but by chance. -/
theorem run_correct_iff (small : warpSize ≤ 32) (votes : List (Vote warpSize Symbol)) :
    ∀ state : State Symbol, state.statics.first_in_warp = true →
      (RunCorrect votes state ↔ RunSound votes state) := by
  induction votes with
  | nil => exact fun _ _ => Iff.rfl
  | cons vote votes ih =>
    intro state fresh
    rw [RunCorrect, RunSound, ← correct_iff_sound small fresh]
    constructor
    · rintro ⟨after, executed, correct, rest⟩
      refine ⟨⟨after, executed, correct⟩, fun other same => ?_⟩
      have equal : after = other := Option.some.inj (executed.symm.trans same)
      exact equal ▸ (ih after correct.fresh).mp rest
    · rintro ⟨⟨after, executed, correct⟩, rest⟩
      exact ⟨after, executed, correct, (ih after correct.fresh).mpr (rest after executed)⟩

end

/-- Two lanes, of which register 0 guards the first one only or both. -/
def sampleVote (option : VoteOption) (uninitialised : Option VoteMode)
    (pred : Option (Nat × Flags.PredMod)) : Vote 2 Nat where
  core := 0
  warpId := 0
  active := fun lane => decide (lane < 2)
  inside := fun _ active => of_decide_eq_true active
  pred := pred
  src1 := 1
  is_neg_pred := false
  dst := 2
  option := option
  uninitialised := uninitialised

def sampleState : State Nat where
  statics :=
    { first_in_warp := true
      and_all := false
      or_all := false
      ballot_result := 0
      threads_in_warp := []
      last_tid := 0 }
  regs := fun thread reg => if reg = 0 then BitVec.ofNat 64 thread.hw_tid else 2

/-- The highest active lane is predicated off, and no lane receives anything; a uniform
    vote of lanes that all say true is false. -/
theorem run_wrong :
    ¬ RunCorrect [sampleVote .ANY_OPTION none (some (0, .plain false))] sampleState ∧
      ¬ RunCorrect [sampleVote .UNI_OPTION (some .vote_uni) none] sampleState := by
  constructor
  · rintro ⟨after, executed, correct, -⟩
    have received : after.regs ⟨0, 0⟩ 2 = 0 := correct.received 0 (by decide)
    have kept : (execute_warp_inst_t _ sampleState).map (·.regs ⟨0, 0⟩ 2) = some 0 :=
      (congrArg _ executed).trans (congrArg some received)
    exact absurd kept (by decide)
  · rintro ⟨after, executed, correct, -⟩
    have received : after.regs ⟨0, 0⟩ 2 = 0 := correct.received 0 (by decide)
    have written : (execute_warp_inst_t _ sampleState).map (·.regs ⟨0, 0⟩ 2) = some 0 :=
      (congrArg _ executed).trans (congrArg some received)
    exact absurd written (by decide)

/-- Two votes of both lanes. -/
theorem run_correct_pair :
    RunCorrect [sampleVote .ALL_OPTION none none, sampleVote .BALLOT_OPTION none none]
      sampleState := by
  have last : ∀ regs option, (sampleVote option none none).Published regs := fun regs option =>
    ⟨1, mem_voters.mpr rfl, fun lane active => Nat.le_of_lt_succ (of_decide_eq_true active)⟩
  refine (run_correct_iff (by decide) _ sampleState rfl).mpr ⟨.inr ⟨last _ _, nofun⟩, ?_⟩
  exact fun after _ => ⟨.inr ⟨last _ _, nofun⟩, fun _ _ => trivial⟩

end AesOnGpu.Ptx.Votes
