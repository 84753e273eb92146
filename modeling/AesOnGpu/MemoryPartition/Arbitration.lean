import Mathlib

/-! # Credits of the sub-partitions

`memory_partition_unit::arbitration_metadata` of `gpgpu-sim/l2cache.cc`, and the loop of
`dram_cycle` that lets a sub-partition issue a request.  Each sub-partition has a
private credit, and they share the others.

`none` is an index out of bounds or a failed assertion.
-/

namespace AesOnGpu.MemoryPartition

/-- What the constructor reads of `memory_config`. -/
structure Config where
  m_n_sub_partition_per_memory_channel : BitVec 32
  gpgpu_frfcfs_dram_sched_queue_size : BitVec 32
  gpgpu_dram_return_queue_size : BitVec 32

def Config.n (config : Config) : Nat := config.m_n_sub_partition_per_memory_channel.toNat

structure ArbitrationMetadata where
  m_last_borrower : Int
  m_shared_credit_limit : Int
  m_private_credit_limit : Int
  m_private_credit : Nat → Int
  m_shared_credit : Int

namespace ArbitrationMetadata

/-- The limit is computed in `unsigned` and assigned to an `int`. -/
def sharedLimit (config : Config) : Int :=
  if config.gpgpu_frfcfs_dram_sched_queue_size = 0 ∨ config.gpgpu_dram_return_queue_size = 0 then 0
  else (config.gpgpu_frfcfs_dram_sched_queue_size + config.gpgpu_dram_return_queue_size -
    (config.m_n_sub_partition_per_memory_channel - 1)).toInt

def new (config : Config) : Option ArbitrationMetadata :=
  if sharedLimit config ≥ 0 then
    some {
      m_last_borrower := (config.m_n_sub_partition_per_memory_channel - 1).toInt
      m_shared_credit_limit := sharedLimit config
      m_private_credit_limit := 1
      m_private_credit _ := 0
      m_shared_credit := 0 }
  else none

def has_credits (m : ArbitrationMetadata) (spid : Nat) : Bool :=
  if m.m_private_credit spid < m.m_private_credit_limit then true
  else m.m_shared_credit_limit = 0 ∨ m.m_shared_credit < m.m_shared_credit_limit

def addPrivate (m : ArbitrationMetadata) (spid : Nat) (change : Int) : Nat → Int :=
  Function.update m.m_private_credit spid (m.m_private_credit spid + change)

def borrow_credit (config : Config) (m : ArbitrationMetadata) (spid : Nat) :
    Option ArbitrationMetadata :=
  if spid < config.n then
    if m.m_private_credit spid < m.m_private_credit_limit then
      some { m with m_private_credit := m.addPrivate spid 1, m_last_borrower := spid }
    else if m.m_shared_credit_limit = 0 ∨ m.m_shared_credit < m.m_shared_credit_limit then
      some { m with m_shared_credit := m.m_shared_credit + 1, m_last_borrower := spid }
    else none
  else none

def return_credit (config : Config) (m : ArbitrationMetadata) (spid : Nat) :
    Option ArbitrationMetadata :=
  if spid < config.n then
    let returned :=
      if m.m_private_credit spid > 0 then { m with m_private_credit := m.addPrivate spid (-1) }
      else { m with m_shared_credit := m.m_shared_credit - 1 }
    if returned.m_shared_credit ≥ 0 then some returned else none
  else none

/-- `can_issue_to_dram`, where `full` says whose `dram_L2_queue` is full. -/
def can_issue_to_dram (full : Nat → Bool) (m : ArbitrationMetadata) (spid : Nat) : Bool :=
  m.has_credits spid && !full spid

/-- The loop of `dram_cycle` over the sub-partitions, for the remaining `p`; `waiting`
    says whose `L2_dram_queue` has a request.  Returns who has issued. -/
def arbitrate (config : Config) (full waiting : Nat → Bool) (m : ArbitrationMetadata) :
    List Nat → Option (ArbitrationMetadata × Option Nat)
  | [] => some (m, none)
  | p :: rest =>
    let spid := ((p + m.m_last_borrower + 1) % config.n).toNat
    if waiting spid && m.can_issue_to_dram full spid then
      (borrow_credit config m spid).map fun borrowed => (borrowed, some spid)
    else arbitrate config full waiting m rest

end ArbitrationMetadata

open ArbitrationMetadata

/-- A request that has borrowed a credit, for the sub-partition it came from. -/
structure Request where
  uid : Nat
  spid : Nat
  deriving DecidableEq

/-- Runs in which credits are borrowed only by those that have some, and each request
    gives back the credit it has borrowed, whenever it is done. -/
inductive Reaches (config : Config) : ArbitrationMetadata → List Request → Prop
  | new {m} : ArbitrationMetadata.new config = some m → Reaches config m []
  | borrow {m m' outstanding uid spid} : Reaches config m outstanding →
      m.has_credits spid → m.borrow_credit config spid = some m' →
      Reaches config m' (⟨uid, spid⟩ :: outstanding)
  | giveBack {m m' outstanding request} : Reaches config m outstanding →
      request ∈ outstanding → m.return_credit config request.spid = some m' →
      Reaches config m' (outstanding.erase request)

/-- The requests of a sub-partition. -/
def requestsOf (outstanding : List Request) (spid : Nat) : Nat :=
  outstanding.countP (·.spid = spid)

structure Balanced (config : Config) (m : ArbitrationMetadata) (outstanding : List Request) :
    Prop where
  limit : m.m_private_credit_limit = 1
  lower : ∀ spid, 0 ≤ m.m_private_credit spid
  upper : ∀ spid, m.m_private_credit spid ≤ 1
  covered : ∀ spid, m.m_private_credit spid ≤ requestsOf outstanding spid
  shared : m.m_shared_credit = ∑ spid ∈ Finset.range config.n,
    ((requestsOf outstanding spid : Int) - m.m_private_credit spid)
  inside : ∀ request ∈ outstanding, request.spid < config.n

variable {config : Config} {m m' : ArbitrationMetadata} {outstanding : List Request}

theorem arbitrate_borrows {full waiting : Nat → Bool} {rounds : List Nat} {spid : Nat}
    (run : m.arbitrate config full waiting rounds = some (m', some spid)) :
    m.has_credits spid ∧ m.borrow_credit config spid = some m' := by
  induction rounds with
  | nil => cases run
  | cons p rest ih =>
    rw [arbitrate] at run
    split at run
    · rename_i can
      obtain ⟨borrowed, borrow, eq⟩ := Option.map_eq_some_iff.mp run
      cases eq
      rw [Bool.and_eq_true, can_issue_to_dram, Bool.and_eq_true] at can
      exact ⟨can.2.1, borrow⟩
    · exact ih run

theorem Reaches.arbitrate {full waiting : Nat → Bool} {rounds : List Nat} {spid : Nat}
    (reaches : Reaches config m outstanding) (uid : Nat)
    (run : m.arbitrate config full waiting rounds = some (m', some spid)) :
    Reaches config m' (⟨uid, spid⟩ :: outstanding) := by
  obtain ⟨has, borrow⟩ := arbitrate_borrows run
  exact .borrow reaches has borrow

/-! ## The invariant -/

theorem requestsOf_cons (request : Request) (spid : Nat) :
    requestsOf (request :: outstanding) spid =
      requestsOf outstanding spid + if request.spid = spid then 1 else 0 := by
  rw [requestsOf, List.countP_cons, requestsOf]
  simp

theorem requestsOf_erase {request : Request} (here : request ∈ outstanding) (spid : Nat) :
    requestsOf outstanding spid =
      requestsOf (outstanding.erase request) spid + if request.spid = spid then 1 else 0 := by
  rw [← requestsOf_cons]
  exact (List.perm_cons_erase here).countP_eq _

theorem sum_change {n place : Nat} {f g : Nat → Int} {change : Int} (inside : place < n)
    (here : g place = f place + change) (there : ∀ other, other ≠ place → g other = f other) :
    ∑ spid ∈ Finset.range n, g spid = ∑ spid ∈ Finset.range n, f spid + change := by
  have mem := Finset.mem_range.mpr inside
  rw [← Finset.add_sum_erase _ g mem, ← Finset.add_sum_erase _ f mem, here]
  have others : ∑ spid ∈ (Finset.range n).erase place, g spid =
      ∑ spid ∈ (Finset.range n).erase place, f spid :=
    Finset.sum_congr rfl fun other mem => there other (Finset.ne_of_mem_erase mem)
  rw [others]
  omega

theorem addPrivate_apply (spid : Nat) (change : Int) (other : Nat) :
    m.addPrivate spid change other =
      m.m_private_credit other + if spid = other then change else 0 := by
  rw [addPrivate, Function.update_apply]
  by_cases here : other = spid
  · rw [if_pos here, if_pos here.symm, here]
  · rw [if_neg here, if_neg (Ne.symm here), add_zero]

theorem balanced_new (created : ArbitrationMetadata.new config = some m) :
    Balanced config m [] := by
  rw [ArbitrationMetadata.new] at created
  split at created
  · cases created
    exact ⟨rfl, fun _ => le_rfl, fun _ => Int.zero_le_ofNat 1, fun _ => le_rfl,
      by simp [requestsOf], fun _ inside => by cases inside⟩
  · cases created

theorem Balanced.borrow {uid spid : Nat} (balanced : Balanced config m outstanding)
    (run : m.borrow_credit config spid = some m') :
    Balanced config m' (⟨uid, spid⟩ :: outstanding) := by
  rw [borrow_credit] at run
  split at run
  on_goal 2 => cases run
  rename_i inside
  have insideAll : ∀ request ∈ (⟨uid, spid⟩ : Request) :: outstanding,
      request.spid < config.n := by
    intro request here
    cases List.mem_cons.mp here with
    | inl new => exact new ▸ inside
    | inr old => exact balanced.inside request old
  split at run
  · rename_i free
    rw [balanced.limit] at free
    cases run
    refine ⟨balanced.limit, fun other => ?_, fun other => ?_, fun other => ?_, ?_, insideAll⟩
    · have lower := balanced.lower other
      dsimp only
      rw [addPrivate_apply]
      split <;> omega
    · have upper := balanced.upper other
      dsimp only
      rw [addPrivate_apply]
      split
      · rename_i here
        rw [← here]
        omega
      · omega
    · have covered := balanced.covered other
      dsimp only
      rw [addPrivate_apply, requestsOf_cons]
      split <;> simp <;> omega
    · -- one more request and one more private credit
      dsimp only
      rw [balanced.shared]
      refine Finset.sum_congr rfl fun other _ => ?_
      rw [addPrivate_apply, requestsOf_cons]
      dsimp only
      split <;> simp
  · split at run
    on_goal 2 => cases run
    cases run
    refine ⟨balanced.limit, balanced.lower, balanced.upper, fun other => ?_, ?_, insideAll⟩
    · have covered := balanced.covered other
      rw [requestsOf_cons]
      push_cast
      split <;> omega
    · dsimp only
      rw [balanced.shared]
      refine (sum_change inside ?_ fun other different => ?_).symm
      · rw [requestsOf_cons]
        simp
        omega
      · rw [requestsOf_cons]
        simp [Ne.symm different]

theorem Balanced.giveBack {request : Request} (balanced : Balanced config m outstanding)
    (here : request ∈ outstanding) :
    ∃ m', m.return_credit config request.spid = some m' ∧
      Balanced config m' (outstanding.erase request) := by
  have inside := balanced.inside request here
  have one : requestsOf outstanding request.spid =
      requestsOf (outstanding.erase request) request.spid + 1 := by
    rw [requestsOf_erase here, if_pos rfl]
  have insideAll : ∀ other ∈ outstanding.erase request, other.spid < config.n :=
    fun other still => balanced.inside other (List.mem_of_mem_erase still)
  have nonneg : ∀ spid ∈ Finset.range config.n,
      (0 : Int) ≤ requestsOf outstanding spid - m.m_private_credit spid :=
    fun spid _ => sub_nonneg.mpr (balanced.covered spid)
  have enough := Finset.single_le_sum nonneg (Finset.mem_range.mpr inside)
  have sharedNonneg := Finset.sum_nonneg nonneg
  rw [← balanced.shared] at enough sharedNonneg
  rw [return_credit, if_pos inside]
  by_cases own : m.m_private_credit request.spid > 0
  · refine ⟨{ m with m_private_credit := m.addPrivate request.spid (-1) }, ?_, ?_⟩
    · simp only [own, if_true]
      exact if_pos sharedNonneg
    · refine ⟨balanced.limit, fun other => ?_, fun other => ?_, fun other => ?_, ?_, insideAll⟩
      · have lower := balanced.lower other
        dsimp only
        rw [addPrivate_apply]
        split
        · rename_i same
          rw [← same]
          omega
        · omega
      · have upper := balanced.upper other
        dsimp only
        rw [addPrivate_apply]
        split <;> omega
      · have covered := balanced.covered other
        rw [requestsOf_erase here] at covered
        dsimp only
        rw [addPrivate_apply]
        split
        · rename_i same
          rw [if_pos same] at covered
          push_cast at covered
          omega
        · rename_i different
          rw [if_neg different] at covered
          push_cast at covered
          omega
      · dsimp only
        rw [balanced.shared]
        refine Finset.sum_congr rfl fun other _ => ?_
        rw [addPrivate_apply, requestsOf_erase here]
        split <;> push_cast <;> ring
  · refine ⟨{ m with m_shared_credit := m.m_shared_credit - 1 }, ?_, ?_⟩
    · simp only [own, if_false]
      -- a request without the private credit has a shared one
      exact if_pos (by omega)
    · refine ⟨balanced.limit, balanced.lower, balanced.upper, fun other => ?_, ?_, insideAll⟩
      · have covered := balanced.covered other
        rw [requestsOf_erase here] at covered
        by_cases same : request.spid = other
        · rw [← same]
          have lower := balanced.lower request.spid
          dsimp only
          omega
        · rw [if_neg same] at covered
          exact covered
      · dsimp only
        rw [balanced.shared]
        refine (sum_change inside ?_ fun other different => ?_).symm
        · rw [one]
          push_cast
          omega
        · rw [requestsOf_erase here, if_neg (Ne.symm different), Nat.add_zero]

theorem balanced_of_reaches (reaches : Reaches config m outstanding) :
    Balanced config m outstanding := by
  induction reaches with
  | new created => exact balanced_new created
  | borrow _ _ run balanced => exact balanced.borrow run
  | giveBack _ here run balanced =>
    obtain ⟨m', run', after⟩ := balanced.giveBack here
    cases run.symm.trans run'
    exact after

theorem sum_requestsOf (inside : ∀ request ∈ outstanding, request.spid < config.n) :
    ∑ spid ∈ Finset.range config.n, (requestsOf outstanding spid : Int) = outstanding.length := by
  induction outstanding with
  | nil => simp [requestsOf]
  | cons request rest ih =>
    have tail := ih fun other here => inside other (List.mem_cons_of_mem _ here)
    rw [List.length_cons, Nat.cast_succ, ← tail]
    refine sum_change (inside request List.mem_cons_self) ?_ fun other different => ?_
    · rw [requestsOf_cons, if_pos rfl]
      push_cast
      rfl
    · rw [requestsOf_cons, if_neg (Ne.symm different), Nat.add_zero]

/-- All credits together are as many as requests are out; each is within its limit; no
    assertion fails, neither for one that has credits nor for a request that comes back;
    and when none is out, no credit is. -/
theorem credits_balanced (reaches : Reaches config m outstanding) :
    ∑ spid ∈ Finset.range config.n, m.m_private_credit spid + m.m_shared_credit =
      outstanding.length ∧
    (∀ spid < config.n, 0 ≤ m.m_private_credit spid ∧
      m.m_private_credit spid ≤ m.m_private_credit_limit) ∧
    0 ≤ m.m_shared_credit ∧
    (∀ spid < config.n, m.has_credits spid → (m.borrow_credit config spid).isSome) ∧
    (∀ request ∈ outstanding, (m.return_credit config request.spid).isSome) ∧
    (outstanding = [] → m.m_shared_credit = 0 ∧
      ∀ spid < config.n, m.m_private_credit spid = 0 ∧ m.has_credits spid) := by
  have balanced := balanced_of_reaches reaches
  have nonneg : ∀ spid ∈ Finset.range config.n,
      (0 : Int) ≤ requestsOf outstanding spid - m.m_private_credit spid :=
    fun spid _ => sub_nonneg.mpr (balanced.covered spid)
  refine ⟨?_, fun spid _ => ⟨balanced.lower spid, balanced.limit ▸ balanced.upper spid⟩, ?_, ?_,
    ?_, ?_⟩
  · rw [balanced.shared, Finset.sum_sub_distrib, sum_requestsOf balanced.inside]
    omega
  · rw [balanced.shared]
    exact Finset.sum_nonneg nonneg
  · intro spid inside has
    rw [borrow_credit, if_pos inside]
    rw [has_credits] at has
    split
    · rfl
    · rename_i noPrivate
      rw [if_neg noPrivate] at has
      rw [if_pos (of_decide_eq_true has)]
      rfl
  · intro request here
    obtain ⟨m', run, -⟩ := balanced.giveBack here
    rw [run]
    rfl
  · intro none_
    have zero : ∀ spid, m.m_private_credit spid = 0 := by
      intro spid
      have covered := balanced.covered spid
      have lower := balanced.lower spid
      rw [none_] at covered
      simp [requestsOf] at covered
      omega
    refine ⟨?_, fun spid _ => ⟨zero spid, ?_⟩⟩
    · rw [balanced.shared, none_]
      simp [requestsOf, zero]
    · rw [has_credits, zero, balanced.limit]
      rfl

/-- Two requests of one sub-partition, the other one waiting for nothing: the shared credit is
    given back last. -/
theorem credits_balanced_shared :
    ∃ m outstanding, Reaches ⟨2, 4, 4⟩ m outstanding ∧ outstanding.length = 1 ∧
      m.m_private_credit 0 = 0 ∧ 0 ≤ m.m_shared_credit := by
  have created : ∃ m, ArbitrationMetadata.new ⟨2, 4, 4⟩ = some m := ⟨_, rfl⟩
  obtain ⟨m, eq⟩ := created
  cases eq
  have first := @Reaches.arbitrate ⟨2, 4, 4⟩ _ _ [] (fun _ => false) (· == 0) [0, 1] 0
    (.new rfl) 7 rfl
  have second := @Reaches.arbitrate ⟨2, 4, 4⟩ _ _ _ (fun _ => false) (· == 0) [0, 1] 0 first 8 rfl
  have back := @Reaches.giveBack ⟨2, 4, 4⟩ _ _ _ ⟨7, 0⟩ second (by decide) rfl
  exact ⟨_, _, back, rfl, rfl, (credits_balanced back).2.2.1⟩

end AesOnGpu.MemoryPartition
