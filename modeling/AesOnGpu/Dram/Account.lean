import AesOnGpu.Dram.Config

/-! # The account of a request

How many bursts of a request have been issued and how many have come back, where it is
held until the last one is issued, and whether it has left.  Both sides count the bytes
in the same way, so that they agree on which burst is the last.
-/

namespace AesOnGpu.Dram

theorem u32_natCast (n : Nat) : u32 n = n % 2 ^ 32 := by
  rw [u32, ← Int.toNat_natCast (n % 2 ^ 32)]
  congr 1

theorem u32_add (n atom : Nat) : u32 (u32 n + atom) = u32 ((n + atom : Nat) : Int) := by
  have sum : ((u32 n : Int) + atom) = ((u32 n + atom : Nat) : Int) := rfl
  rw [sum, u32_natCast, u32_natCast, u32_natCast, Nat.mod_add_mod]

/-- The bytes counted for `k` bursts. -/
def counted (config : MemoryConfig) (k : Nat) : Nat := u32 ((k * config.dram_atom_size : Nat) : Int)

theorem counted_succ (config : MemoryConfig) (k : Nat) :
    u32 (counted config k + config.dram_atom_size) = counted config (k + 1) := by
  rw [counted, u32_add, counted, Nat.succ_mul]

/-- With `k` bursts, and not with fewer, the transfer is over. -/
def Last (config : MemoryConfig) (req : DramReq) (k : Nat) : Prop :=
  0 < k ∧ req.nbytes ≤ counted config k ∧
    ∀ fewer, 0 < fewer → fewer < k → counted config fewer < req.nbytes

/-- After `k` bursts the transfer is not over. -/
def Short (config : MemoryConfig) (req : DramReq) (k : Nat) : Prop :=
  ∀ fewer, 0 < fewer → fewer ≤ k → counted config fewer < req.nbytes

variable {config : MemoryConfig} {req : DramReq} {k l : Nat}

theorem short_zero : Short config req 0 := fun _ positive none_ => absurd positive (by omega)

theorem Short.succ (short : Short config req k) (more : counted config (k + 1) < req.nbytes) :
    Short config req (k + 1) := by
  intro fewer positive le
  rcases Nat.lt_or_ge k fewer with above | below
  · obtain rfl : fewer = k + 1 := by omega
    exact more
  · exact short fewer positive below

theorem Short.last (short : Short config req k) (enough : req.nbytes ≤ counted config (k + 1)) :
    Last config req (k + 1) :=
  ⟨Nat.succ_pos k, enough, fun fewer positive lt => short fewer positive (Nat.le_of_lt_succ lt)⟩

theorem Short.lt_last (short : Short config req k) (last : Last config req l) : k < l := by
  by_contra le
  exact absurd (short l last.1 (Nat.not_lt.mp le)) (Nat.not_lt.mpr last.2.1)

theorem Last.eq (first : Last config req k) (second : Last config req l) : k = l := by
  rcases Nat.lt_trichotomy k l with lt | eq | gt
  · exact absurd (second.2.2 k first.1 lt) (Nat.not_lt.mpr first.2.1)
  · exact eq
  · exact absurd (first.2.2 l second.1 gt) (Nat.not_lt.mpr second.2.1)

def DramReq.outcome (req : DramReq) : Outcome :=
  if req.data.isWriteback then .done else .answered

/-- `held` counts the places before the pipeline that refer to the request, `piped` the
    entries in the pipeline.  A request without `progress` has been deleted. -/
structure Account (config : MemoryConfig) (req : DramReq) (held piped : Nat)
    (progress : Option Progress) (issued popped : Nat) (left : List Outcome) : Prop where
  pipe : issued = popped + piped
  phase : held = 1 ∧ Short config req issued ∨ held = 0 ∧ Last config req issued
  live : ∀ counts, progress = some counts → left = [] ∧ Short config req popped ∧
    counts.txbytes = counted config issued ∧ counts.dqbytes = counted config popped
  deleted : progress = none → left = [req.outcome] ∧ held = 0 ∧ piped = 0

section

variable {held piped issued popped : Nat} {progress : Option Progress} {counts : Progress}
  {left : List Outcome}

theorem account_new : Account config req 1 0 (some ⟨0, 0⟩) 0 0 [] where
  pipe := rfl
  phase := Or.inl ⟨rfl, short_zero⟩
  live counts eq := by
    obtain rfl := Option.some.inj eq
    have zero : counted config 0 = 0 := by rw [counted, Nat.zero_mul]; rfl
    exact ⟨rfl, short_zero, zero.symm, zero.symm⟩
  deleted eq := by cases eq

theorem Account.pop (account : Account config req held (piped + 1) (some counts) issued popped left)
    (more : ¬ u32 (counts.dqbytes + config.dram_atom_size) ≥ req.nbytes) :
    Account config req held piped
      (some { counts with dqbytes := u32 (counts.dqbytes + config.dram_atom_size) })
      issued (popped + 1) left := by
  obtain ⟨noneLeft, short, tx, dq⟩ := account.live counts rfl
  rw [dq, counted_succ] at more ⊢
  have pipe := account.pipe
  refine ⟨by omega, account.phase, ?_, fun eq => by cases eq⟩
  intro counts' eq
  obtain rfl := Option.some.inj eq
  exact ⟨noneLeft, short.succ (Nat.not_le.mp more), tx, rfl⟩

theorem Account.leave (account : Account config req held (piped + 1) (some counts) issued popped left)
    (enough : u32 (counts.dqbytes + config.dram_atom_size) ≥ req.nbytes) :
    Account config req held piped none issued (popped + 1) (left ++ [req.outcome]) := by
  obtain ⟨noneLeft, short, tx, dq⟩ := account.live counts rfl
  rw [dq, counted_succ] at enough
  have last := short.last enough
  have pipe := account.pipe
  have all : held = 0 ∧ issued = popped + 1 := by
    cases account.phase with
    | inl early => exact absurd (early.2.lt_last last) (by omega)
    | inr finished => exact ⟨finished.1, finished.2.eq last⟩
  refine ⟨by omega, account.phase, fun counts eq => (by cases eq), fun _ => ⟨?_, all.1, by omega⟩⟩
  rw [noneLeft, List.nil_append]

theorem Account.alive (account : Account config req held piped progress issued popped left)
    (holds : 0 < held) : held = 1 ∧ Short config req issued ∧ ∃ counts, progress = some counts := by
  cases account.phase with
  | inr finished => omega
  | inl early =>
    cases progress with
    | none => exact absurd (account.deleted rfl).2.1 (by omega)
    | some counts => exact ⟨early.1, early.2, counts, rfl⟩

theorem Account.issue (account : Account config req held piped (some counts) issued popped left)
    (holds : 0 < held) :
    Account config req
      (if u32 (counts.txbytes + config.dram_atom_size) < req.nbytes then held else held - 1)
      (piped + 1) (some { counts with txbytes := u32 (counts.txbytes + config.dram_atom_size) })
      (issued + 1) popped left := by
  obtain ⟨one, short, -⟩ := account.alive holds
  obtain ⟨noneLeft, shortPopped, tx, dq⟩ := account.live counts rfl
  rw [tx, counted_succ]
  have pipe := account.pipe
  refine ⟨by omega, ?_, ?_, fun eq => by cases eq⟩
  · split
    · rename_i more
      exact Or.inl ⟨one, short.succ more⟩
    · rename_i enough
      exact Or.inr ⟨by omega, short.last (Nat.not_lt.mp enough)⟩
  · intro counts' eq
    obtain rfl := Option.some.inj eq
    exact ⟨noneLeft, shortPopped, rfl, dq⟩

end

end AesOnGpu.Dram
