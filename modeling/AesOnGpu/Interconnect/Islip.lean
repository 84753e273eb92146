import AesOnGpu.Lib.FinLiterals
import AesOnGpu.Lib.RoundRobin

/-! # The allocator of a router

`iSLIP_Sparse` matches the inputs of a router with its outputs.  In an iteration each free output
grants one free input that asks for it, and each input accepts one of its grants.  Both choose round
robin, and only what is accepted in the first iteration moves the offsets.

The allocator is modelled without the labels and the priorities of its requests, which it does not
look at.  `none` is a failed assertion.
-/

namespace AesOnGpu.Interconnect

open RoundRobin

/-- `iSLIP_Sparse`.  The requests are maps from ports, so that they are in order. -/
structure ISlip (I O : Nat) where
  in_req : Fin I → List (Fin O)
  out_req : Fin O → List (Fin I)
  inmatch : Fin I → Option (Fin O)
  outmatch : Fin O → Option (Fin I)
  dirty : Bool
  gptrs : Fin O → Nat
  aptrs : Fin I → Nat

namespace ISlip

variable {I O : Nat}

def new : ISlip I O :=
  ⟨fun _ => [], fun _ => [], fun _ => none, fun _ => none, false, fun _ => 0, fun _ => 0⟩

def Clear (s : ISlip I O) : ISlip I O :=
  let s := { s with in_req := fun _ => [], out_req := fun _ => [] }
  if s.dirty then { s with inmatch := fun _ => none, outmatch := fun _ => none, dirty := false }
  else s

def AddRequest (s : ISlip I O) (request : Fin I × Fin O) : Option (ISlip I O) :=
  let input := request.1
  let output := request.2
  if (s.in_req input).count output = 0 ∧ (s.out_req output).count input = 0 then
    some { s with
      in_req := Function.update s.in_req input ((s.in_req input).orderedInsert (· ≤ ·) output)
      out_req := Function.update s.out_req output ((s.out_req output).orderedInsert (· ≤ ·) input)
      dirty := true }
  else none

/-! ## An iteration -/

def grants (s : ISlip I O) (output : Fin O) : Option (Fin I) :=
  if s.out_req output = [] ∨ s.outmatch output ≠ none then none
  else search (s.gptrs output) (fun input => s.inmatch input = none) (s.out_req output)

def accepted (grants : Fin O → Option (Fin I)) (s : ISlip I O) (input : Fin I) : Option (Fin O) :=
  if s.in_req input = [] then none
  else search (s.aptrs input) (fun output => grants output = some input) (s.in_req input)

def accept (iter : Nat) (grants : Fin O → Option (Fin I)) (s : ISlip I O) (input : Fin I) :
    ISlip I O :=
  match s.accepted grants input with
  | none => s
  | some output =>
    let s := { s with
      inmatch := Function.update s.inmatch input (some output)
      outmatch := Function.update s.outmatch output (some input) }
    -- only update pointers if accepted during the 1st iteration
    if iter = 0 then { s with
      gptrs := Function.update s.gptrs output ((input + 1) % I)
      aptrs := Function.update s.aptrs input ((output + 1) % O) }
    else s

def iteration (s : ISlip I O) (iter : Nat) : ISlip I O :=
  (List.finRange I).foldl (accept iter s.grants) s

def Allocate (iters : Nat) (s : ISlip I O) : ISlip I O := (List.range iters).foldl iteration s

/-! ## Runs -/

/-- What a router asks for before it lets the allocator work. -/
def load (s : ISlip I O) (requests : List (Fin I × Fin O)) : Option (ISlip I O) :=
  requests.foldlM AddRequest s.Clear

/-- The allocator after the first cycles of a router. -/
def run (iters : Nat) (requests : Nat → List (Fin I × Fin O)) : Nat → Option (ISlip I O)
  | 0 => some new
  | t + 1 => do
    let s ← run iters requests t
    let s ← s.load (requests t)
    return s.Allocate iters

/-- What a router can make of the allocator, in any order. -/
inductive Reachable (iters : Nat) : ISlip I O → Prop where
  | new : Reachable iters new
  | clear {s} : Reachable iters s → Reachable iters s.Clear
  | add {s s' request} : Reachable iters s → s.AddRequest request = some s' → Reachable iters s'
  | allocate {s} : Reachable iters s → Reachable iters (s.Allocate iters)

/-! ## The invariant -/

structure Inv (s : ISlip I O) : Prop where
  mirrored : ∀ i o, o ∈ s.in_req i ↔ i ∈ s.out_req o
  in_sorted : ∀ i, (s.in_req i).Pairwise (· < ·)
  out_sorted : ∀ o, (s.out_req o).Pairwise (· < ·)
  matched : ∀ i o, s.inmatch i = some o ↔ s.outmatch o = some i
  requested : ∀ i o, s.inmatch i = some o → o ∈ s.in_req i
  dirty : ∀ i o, o ∈ s.in_req i → s.dirty = true
  gptrs_lt : ∀ o, 0 < I → s.gptrs o < I
  aptrs_lt : ∀ i, 0 < O → s.aptrs i < O

theorem Inv.new : Inv (new : ISlip I O) where
  mirrored := fun i o => by simp [ISlip.new]
  in_sorted := fun i => List.Pairwise.nil
  out_sorted := fun o => List.Pairwise.nil
  matched := fun i o => by simp [ISlip.new]
  requested := fun i o some => by cases some
  dirty := fun i o inside => by cases inside
  gptrs_lt := fun o some => some
  aptrs_lt := fun i some => some

variable {s s' : ISlip I O}

theorem Inv.Clear_eq (inv : Inv s) : s.Clear =
    { s with in_req := fun _ => [], out_req := fun _ => [], inmatch := fun _ => none,
             outmatch := fun _ => none, dirty := false } := by
  rw [ISlip.Clear]
  cases clean : s.dirty with
  | true => rfl
  | false =>
    have unasked : ∀ i o, o ∉ s.in_req i := fun i o inside => by
      have dirty := inv.dirty i o inside
      rw [clean] at dirty
      cases dirty
    have inFree : s.inmatch = fun _ => none := by
      funext i
      cases matched : s.inmatch i with
      | none => rfl
      | some o => exact absurd (inv.requested i o matched) (unasked i o)
    have outFree : s.outmatch = fun _ => none := by
      funext o
      cases matched : s.outmatch o with
      | none => rfl
      | some i => exact absurd (inv.requested i o ((inv.matched i o).mpr matched)) (unasked i o)
    simp only [Bool.false_eq_true, if_false]
    rw [inFree, outFree]

theorem Inv.clear (inv : Inv s) : Inv s.Clear := by
  rw [inv.Clear_eq]
  exact {
    mirrored := fun i o => by simp
    in_sorted := fun i => List.Pairwise.nil
    out_sorted := fun o => List.Pairwise.nil
    matched := fun i o => by simp
    requested := fun i o some => by cases some
    dirty := fun i o inside => by cases inside
    gptrs_lt := inv.gptrs_lt
    aptrs_lt := inv.aptrs_lt }

theorem orderedInsert_pairwise {n : Nat} {ports : List (Fin n)} {p : Fin n}
    (sorted : ports.Pairwise (· < ·)) (fresh : p ∉ ports) :
    (ports.orderedInsert (· ≤ ·) p).Pairwise (· < ·) := by
  induction ports with
  | nil => exact List.pairwise_singleton _ _
  | cons q ports ih =>
    rw [List.mem_cons, not_or] at fresh
    rw [List.pairwise_cons] at sorted
    rw [List.orderedInsert_cons]
    split
    next low =>
      have less : p < q := lt_of_le_of_ne low fresh.1
      refine List.pairwise_cons.mpr ⟨fun r inside => ?_, List.pairwise_cons.mpr sorted⟩
      rcases List.mem_cons.mp inside with rfl | later
      · exact less
      · exact less.trans (sorted.1 r later)
    next high =>
      refine List.pairwise_cons.mpr ⟨fun r inside => ?_, ih sorted.2 fresh.2⟩
      rcases (List.mem_orderedInsert _).mp inside with rfl | later
      · exact not_le.mp high
      · exact sorted.1 r later

theorem AddRequest_eq {i : Fin I} {o : Fin O} (added : s.AddRequest (i, o) = some s') :
    (o ∉ s.in_req i ∧ i ∉ s.out_req o) ∧
      s' = { s with
        in_req := Function.update s.in_req i ((s.in_req i).orderedInsert (· ≤ ·) o)
        out_req := Function.update s.out_req o ((s.out_req o).orderedInsert (· ≤ ·) i)
        dirty := true } := by
  simp only [AddRequest] at added
  split at added
  next fresh =>
    rw [List.count_eq_zero, List.count_eq_zero] at fresh
    exact ⟨fresh, (Option.some.inj added).symm⟩
  next => cases added

theorem mem_update_orderedInsert {m n : Nat} {ports : Fin m → List (Fin n)} {i j : Fin m}
    {p q : Fin n} :
    q ∈ Function.update ports i ((ports i).orderedInsert (· ≤ ·) p) j ↔
      (j = i ∧ q = p) ∨ q ∈ ports j := by
  by_cases same : j = i
  · subst same
    simp [List.mem_orderedInsert]
  · simp [same]

theorem Inv.add {request : Fin I × Fin O} (inv : Inv s)
    (added : s.AddRequest request = some s') : Inv s' := by
  obtain ⟨i, o⟩ := request
  obtain ⟨⟨inFresh, outFresh⟩, rfl⟩ := AddRequest_eq added
  exact {
    mirrored := fun j p => by
      rw [mem_update_orderedInsert, mem_update_orderedInsert, inv.mirrored, and_comm]
    in_sorted := fun j => by
      by_cases own : j = i
      · subst own
        simpa only [Function.update_self] using orderedInsert_pairwise (inv.in_sorted j) inFresh
      · simpa only [Function.update_of_ne own] using inv.in_sorted j
    out_sorted := fun p => by
      by_cases own : p = o
      · subst own
        simpa only [Function.update_self] using orderedInsert_pairwise (inv.out_sorted p) outFresh
      · simpa only [Function.update_of_ne own] using inv.out_sorted p
    matched := inv.matched
    requested := fun j p some => mem_update_orderedInsert.mpr (Or.inr (inv.requested j p some))
    dirty := fun _ _ _ => rfl
    gptrs_lt := inv.gptrs_lt
    aptrs_lt := inv.aptrs_lt }

/-! ## What an iteration does -/

def taker (s : ISlip I O) (grants : Fin O → Option (Fin I)) (turns : List (Fin I))
    (output : Fin O) : Option (Fin I) :=
  (grants output).filter fun input => turns.contains input ∧ s.accepted grants input = some output

/-- The allocator when some inputs have had their turn. -/
def afterTurns (s : ISlip I O) (iter : Nat) (grants : Fin O → Option (Fin I))
    (turns : List (Fin I)) : ISlip I O :=
  { s with
    inmatch := fun i =>
      if turns.contains i then (s.accepted grants i).or (s.inmatch i) else s.inmatch i
    outmatch := fun o => (s.taker grants turns o).or (s.outmatch o)
    gptrs := fun o =>
      if iter = 0 then (s.taker grants turns o).elim (s.gptrs o) fun i => (i + 1) % I
      else s.gptrs o
    aptrs := fun i =>
      if iter = 0 ∧ turns.contains i then
        (s.accepted grants i).elim (s.aptrs i) fun o => (o + 1) % O
      else s.aptrs i }

variable {iter iters : Nat} {g : Fin O → Option (Fin I)} {turns : List (Fin I)} {i j : Fin I}
  {o q : Fin O}

theorem accepted_some (some : s.accepted g i = some o) : o ∈ s.in_req i ∧ g o = .some i := by
  rw [accepted] at some
  split at some
  · cases some
  · obtain ⟨inside, granted⟩ := search_some some
    exact ⟨inside, by simpa using granted⟩

theorem taker_eq_some :
    s.taker g turns o = some i ↔ i ∈ turns ∧ s.accepted g i = some o := by
  rw [taker, Option.filter_eq_some_iff]
  constructor
  · rintro ⟨-, taken⟩
    simpa using taken
  · intro taken
    exact ⟨(accepted_some taken.2).2, by simpa using taken⟩

theorem taker_append (other : s.accepted g i ≠ some o) :
    s.taker g (turns ++ [i]) o = s.taker g turns o := by
  rw [taker, taker]
  congr 1
  funext j
  by_cases own : j = i
  · subst own
    simp [other]
  · simp [own]

theorem accept_afterTurns (fresh : i ∉ turns) :
    accept iter g (s.afterTurns iter g turns) i = s.afterTurns iter g (turns ++ [i]) := by
  have same : (s.afterTurns iter g turns).accepted g i = s.accepted g i := by
    simp [accepted, afterTurns, fresh]
  have others : ∀ j, j ≠ i → (turns ++ [i]).contains j = turns.contains j :=
    fun j other => by simp [other]
  rw [accept, same]
  cases choice : s.accepted g i with
  | none =>
    have takers : s.taker g (turns ++ [i]) = s.taker g turns :=
      funext fun o => taker_append (by rw [choice]; exact nofun)
    simp only [afterTurns, takers]
    congr 1
    · funext j
      by_cases own : j = i
      · subst own
        simp [fresh, choice]
      · simp only [others j own]
    · funext j
      by_cases own : j = i
      · subst own
        simp [fresh, choice]
      · simp only [others j own]
  | some o =>
    have taken : s.taker g (turns ++ [i]) o = some i := taker_eq_some.mpr ⟨by simp, choice⟩
    have untaken : ∀ q, q ≠ o → s.taker g (turns ++ [i]) q = s.taker g turns q :=
      fun q other => taker_append (by rw [choice]; exact fun eq => other (Option.some.inj eq).symm)
    have inmatches : Function.update (s.afterTurns iter g turns).inmatch i (some o) =
        (s.afterTurns iter g (turns ++ [i])).inmatch := by
      funext j
      by_cases own : j = i
      · subst own
        simp [afterTurns, choice]
      · simp only [Function.update_of_ne own, afterTurns, others j own]
    have outmatches : Function.update (s.afterTurns iter g turns).outmatch o (some i) =
        (s.afterTurns iter g (turns ++ [i])).outmatch := by
      funext q
      by_cases own : q = o
      · subst own
        simp [afterTurns, taken]
      · simp only [Function.update_of_ne own, afterTurns, untaken q own]
    have gptrs : (if iter = 0 then
          Function.update (s.afterTurns iter g turns).gptrs o ((i + 1) % I)
        else (s.afterTurns iter g turns).gptrs) = (s.afterTurns iter g (turns ++ [i])).gptrs := by
      funext q
      by_cases first : iter = 0
      · by_cases own : q = o
        · subst own
          simp [afterTurns, first, taken]
        · simp [afterTurns, first, own, untaken q own]
      · simp [afterTurns, first]
    have aptrs : (if iter = 0 then
          Function.update (s.afterTurns iter g turns).aptrs i ((o + 1) % O)
        else (s.afterTurns iter g turns).aptrs) = (s.afterTurns iter g (turns ++ [i])).aptrs := by
      funext j
      by_cases first : iter = 0
      · by_cases own : j = i
        · subst own
          simp [afterTurns, first, choice]
        · simp [afterTurns, first, own]
      · simp [afterTurns, first]
    simp only
    rw [inmatches, outmatches]
    split
    next first =>
      rw [if_pos first] at gptrs aptrs
      rw [gptrs, aptrs]
      rfl
    next later =>
      rw [if_neg later] at gptrs aptrs
      rw [gptrs, aptrs]
      rfl

theorem iteration_eq :
    s.iteration iter = s.afterTurns iter s.grants (List.finRange I) := by
  -- an input's turn looks at its own requests and offset, which no turn before has changed
  have turned : ∀ later turns : List (Fin I), (turns ++ later).Nodup →
      later.foldl (accept iter s.grants) (s.afterTurns iter s.grants turns) =
        s.afterTurns iter s.grants (turns ++ later) := by
    intro later
    induction later with
    | nil => intro turns _; rw [List.append_nil, List.foldl_nil]
    | cons i later ih =>
      intro turns nodup
      have fresh : i ∉ turns := fun inside =>
        (List.disjoint_of_nodup_append nodup) inside List.mem_cons_self
      rw [List.append_cons] at nodup ⊢
      rw [List.foldl_cons, accept_afterTurns fresh, ih _ nodup]
  have start : s.afterTurns iter s.grants [] = s := by
    simp [afterTurns, taker]
  have all := turned (List.finRange I) [] (List.nodup_finRange I)
  rwa [start, List.nil_append] at all

@[simp] theorem iteration_in_req : (s.iteration iter).in_req = s.in_req := by
  rw [iteration_eq]
  rfl

@[simp] theorem iteration_out_req : (s.iteration iter).out_req = s.out_req := by
  rw [iteration_eq]
  rfl

@[simp] theorem iteration_dirty : (s.iteration iter).dirty = s.dirty := by
  rw [iteration_eq]
  rfl

theorem iteration_inmatch :
    (s.iteration iter).inmatch i = (s.accepted s.grants i).or (s.inmatch i) := by
  rw [iteration_eq]
  simp [afterTurns]

theorem iteration_outmatch :
    (s.iteration iter).outmatch o =
      (s.taker s.grants (List.finRange I) o).or (s.outmatch o) := by
  rw [iteration_eq]
  rfl

theorem taker_finRange : s.taker g (List.finRange I) o = some i ↔ s.accepted g i = some o := by
  rw [taker_eq_some]
  exact ⟨And.right, fun accepted => ⟨List.mem_finRange i, accepted⟩⟩

theorem grants_some (granted : s.grants o = some i) :
    s.outmatch o = none ∧ i ∈ s.out_req o ∧ s.inmatch i = none := by
  rw [grants] at granted
  split at granted
  next => cases granted
  next free =>
    rw [not_or, not_not] at free
    obtain ⟨inside, unmatched⟩ := search_some granted
    exact ⟨free.2, inside, by simpa using unmatched⟩

theorem grants_of_free (asked : i ∈ s.out_req o) (inFree : s.inmatch i = none)
    (outFree : s.outmatch o = none) : ∃ j, s.grants o = some j := by
  rw [grants, if_neg (by rw [not_or, not_not]; exact ⟨List.ne_nil_of_mem asked, outFree⟩)]
  exact search_finds asked (by simpa using inFree)

theorem accepted_of_granted (asked : o ∈ s.in_req i) (granted : g o = some i) :
    ∃ q, s.accepted g i = some q := by
  rw [accepted, if_neg (List.ne_nil_of_mem asked)]
  exact search_finds asked (by simpa using granted)

theorem free_of_accepted (accepted : s.accepted s.grants i = some o) :
    s.inmatch i = none ∧ s.outmatch o = none := by
  obtain ⟨outFree, -, inFree⟩ := grants_some (accepted_some accepted).2
  exact ⟨inFree, outFree⟩

theorem iteration_kept (matched : s.inmatch i = some o) :
    (s.iteration iter).inmatch i = some o := by
  rw [iteration_inmatch]
  cases choice : s.accepted s.grants i with
  | none => exact matched
  | some q =>
    rw [(free_of_accepted choice).1] at matched
    cases matched

theorem iteration_inmatch_eq_some (some : (s.iteration iter).inmatch i = .some o) :
    s.accepted s.grants i = .some o ∨ s.inmatch i = .some o := by
  rw [iteration_inmatch] at some
  cases choice : s.accepted s.grants i with
  | none => exact Or.inr (by rwa [choice] at some)
  | some q => exact Or.inl (by rwa [choice] at some)

theorem Inv.iteration (inv : Inv s) : Inv (s.iteration iter) where
  mirrored := by simpa using inv.mirrored
  in_sorted := by simpa using inv.in_sorted
  out_sorted := by simpa using inv.out_sorted
  matched := by
    intro i o
    constructor
    · intro matched
      rw [iteration_outmatch]
      rcases iteration_inmatch_eq_some matched with accepted | old
      · rw [taker_finRange.mpr accepted]
        rfl
      · have before := (inv.matched i o).mp old
        cases taken : s.taker s.grants (List.finRange I) o with
        | none => exact before
        | some j =>
          rw [(free_of_accepted (taker_finRange.mp taken)).2] at before
          cases before
    · intro matched
      rw [iteration_outmatch] at matched
      cases taken : s.taker s.grants (List.finRange I) o with
      | none =>
        rw [taken] at matched
        exact iteration_kept ((inv.matched i o).mpr matched)
      | some j =>
        rw [taken] at matched
        obtain rfl : j = i := Option.some.inj matched
        rw [iteration_inmatch, taker_finRange.mp taken]
        rfl
  requested := by
    intro i o matched
    rw [iteration_in_req]
    rcases iteration_inmatch_eq_some matched with accepted | old
    · exact (accepted_some accepted).1
    · exact inv.requested i o old
  dirty := by simpa using inv.dirty
  gptrs_lt := by
    intro o some
    rw [iteration_eq]
    simp only [afterTurns]
    split
    · cases s.taker s.grants (List.finRange I) o with
      | none => exact inv.gptrs_lt o some
      | some i => exact Nat.mod_lt _ some
    · exact inv.gptrs_lt o some
  aptrs_lt := by
    intro i some
    rw [iteration_eq]
    simp only [afterTurns]
    split
    · cases s.accepted s.grants i with
      | none => exact inv.aptrs_lt i some
      | some o => exact Nat.mod_lt _ some
    · exact inv.aptrs_lt i some

theorem Allocate_succ : s.Allocate (iters + 1) = (s.Allocate iters).iteration iters := by
  rw [Allocate, Allocate, List.range_succ, List.foldl_append]
  rfl

theorem Inv.allocate (inv : Inv s) : Inv (s.Allocate iters) := by
  induction iters with
  | zero => exact inv
  | succ iters ih =>
    rw [Allocate_succ]
    exact ih.iteration

theorem Reachable.inv (reachable : Reachable iters s) : Inv s := by
  induction reachable with
  | new => exact Inv.new
  | clear _ ih => exact ih.clear
  | add _ added ih => exact ih.add added
  | allocate _ ih => exact ih.allocate

@[simp] theorem Allocate_in_req : (s.Allocate iters).in_req = s.in_req := by
  induction iters with
  | zero => rfl
  | succ iters ih => rw [Allocate_succ, iteration_in_req, ih]

theorem Allocate_kept (matched : s.inmatch i = some o) :
    (s.Allocate iters).inmatch i = some o := by
  induction iters with
  | zero => exact matched
  | succ iters ih =>
    rw [Allocate_succ]
    exact iteration_kept ih

/-! ## How much is matched -/

/-- No request is left between a free input and a free output. -/
def Maximal (s : ISlip I O) : Prop :=
  ∀ i o, o ∈ s.in_req i → s.inmatch i ≠ none ∨ s.outmatch o ≠ none

def matchedInputs (s : ISlip I O) : Finset (Fin I) :=
  Finset.univ.filter fun i => s.inmatch i ≠ none

theorem mem_matchedInputs : i ∈ s.matchedInputs ↔ s.inmatch i ≠ none := by
  simp [matchedInputs]

theorem matchedInputs_subset : s.matchedInputs ⊆ (s.iteration iter).matchedInputs := by
  intro i matched
  rw [mem_matchedInputs] at matched ⊢
  obtain ⟨o, matched⟩ := Option.ne_none_iff_exists'.mp matched
  rw [iteration_kept matched]
  exact nofun

theorem iteration_matches (inv : Inv s) (improvable : ¬ Maximal s) :
    s.matchedInputs.card < (s.iteration iter).matchedInputs.card := by
  simp only [Maximal, not_forall, not_or, not_not] at improvable
  obtain ⟨i, o, asked, inFree, outFree⟩ := improvable
  obtain ⟨j, granted⟩ := grants_of_free ((inv.mirrored i o).mp asked) inFree outFree
  obtain ⟨-, inside, free⟩ := grants_some granted
  obtain ⟨q, accepted⟩ := accepted_of_granted ((inv.mirrored j o).mpr inside) granted
  refine Finset.card_lt_card ((Finset.ssubset_iff_of_subset matchedInputs_subset).mpr ⟨j, ?_, ?_⟩)
  · rw [mem_matchedInputs, iteration_inmatch, accepted]
    exact nofun
  · rw [mem_matchedInputs, not_not]
    exact free

theorem Maximal.iteration (inv : Inv s) (maximal : Maximal s) : Maximal (s.iteration iter) := by
  intro i o asked
  rw [iteration_in_req] at asked
  rcases maximal i o asked with matched | matched
  · obtain ⟨q, matched⟩ := Option.ne_none_iff_exists'.mp matched
    rw [iteration_kept matched]
    exact Or.inl nofun
  · obtain ⟨j, matched⟩ := Option.ne_none_iff_exists'.mp matched
    have kept : (s.iteration iter).inmatch j = some o :=
      iteration_kept ((inv.matched j o).mpr matched)
    rw [(inv.iteration.matched j o).mp kept]
    exact Or.inr nofun

theorem Allocate_progress (inv : Inv s) :
    Maximal (s.Allocate iters) ∨ iters ≤ (s.Allocate iters).matchedInputs.card := by
  induction iters with
  | zero => exact Or.inr (Nat.zero_le _)
  | succ iters ih =>
    rw [Allocate_succ]
    by_cases maximal : Maximal (s.Allocate iters)
    · exact Or.inl (maximal.iteration inv.allocate)
    · have counted := ih.resolve_left maximal
      have more := @iteration_matches _ _ _ iters inv.allocate maximal
      exact Or.inr (by omega)

theorem matched_lt (inv : Inv s) (improvable : ¬ Maximal s) :
    s.matchedInputs.card < min I O := by
  simp only [Maximal, not_forall, not_or, not_not] at improvable
  obtain ⟨i, o, -, inFree, outFree⟩ := improvable
  rw [lt_min_iff]
  constructor
  · have proper : s.matchedInputs.card < (Finset.univ : Finset (Fin I)).card := by
      refine Finset.card_lt_card (Finset.ssubset_univ_iff.mpr fun all => ?_)
      have inside : i ∈ s.matchedInputs := all ▸ Finset.mem_univ i
      exact mem_matchedInputs.mp inside inFree
    rwa [Finset.card_fin] at proper
  · have bounded : s.matchedInputs.card ≤ (Finset.univ.erase o).card := by
      refine Finset.card_le_card_of_injOn (fun j => (s.inmatch j).getD o) ?_ ?_
      · intro j inside
        obtain ⟨q, matched⟩ := Option.ne_none_iff_exists'.mp (mem_matchedInputs.mp inside)
        have other : q ≠ o := by
          rintro rfl
          rw [(inv.matched j q).mp matched] at outFree
          cases outFree
        simpa [matched] using other
      · intro j inside k inside' same
        obtain ⟨q, matched⟩ := Option.ne_none_iff_exists'.mp (mem_matchedInputs.mp inside)
        obtain ⟨r, matched'⟩ := Option.ne_none_iff_exists'.mp (mem_matchedInputs.mp inside')
        obtain rfl : q = r := by simpa [matched, matched'] using same
        have taken := (inv.matched j q).mp matched
        rw [(inv.matched k q).mp matched'] at taken
        exact (Option.some.inj taken).symm
    have some : 0 < O := o.pos
    rw [Finset.card_erase_of_mem (Finset.mem_univ o), Finset.card_fin] at bounded
    omega

/-- Whatever the router has made of the allocator, it matches inputs and outputs that ask for each
    other, keeps what was matched, and leaves nothing to match or has matched a pair for each
    iteration. -/
theorem allocates (reachable : Reachable iters s) :
    (∀ i o, (s.Allocate iters).inmatch i = some o ↔ (s.Allocate iters).outmatch o = some i) ∧
      (∀ i o, (s.Allocate iters).inmatch i = some o → o ∈ s.in_req i) ∧
      (∀ i o, s.inmatch i = some o → (s.Allocate iters).inmatch i = some o) ∧
      (Maximal (s.Allocate iters) ∨
        iters < min I O ∧ iters ≤ (s.Allocate iters).matchedInputs.card) := by
  have inv := reachable.inv
  refine ⟨inv.allocate.matched, fun i o matched => ?_, fun i o => Allocate_kept, ?_⟩
  · rw [← @Allocate_in_req _ _ s iters]
    exact inv.allocate.requested i o matched
  · by_cases maximal : Maximal (s.Allocate iters)
    · exact Or.inl maximal
    · have counted := (Allocate_progress inv).resolve_left maximal
      exact Or.inr ⟨counted.trans_lt (matched_lt inv.allocate maximal), counted⟩

theorem allocates_a_request : ∃ s : ISlip 2 2, new.AddRequest (1, 0) = some s ∧
    (Maximal (s.Allocate 1) ∨ 1 < min 2 2 ∧ 1 ≤ (s.Allocate 1).matchedInputs.card) :=
  ⟨_, rfl, (allocates (.add .new rfl)).2.2.2⟩

/-! ## Loading -/

/-- The allocator when a router asks, with nothing matched. -/
structure Loaded (requests : List (Fin I × Fin O)) (s s' : ISlip I O) : Prop where
  inv : Inv s'
  asked : ∀ i o, o ∈ s'.in_req i ↔ (i, o) ∈ requests
  inFree : ∀ i, s'.inmatch i = none
  outFree : ∀ o, s'.outmatch o = none
  gptrs : s'.gptrs = s.gptrs
  aptrs : s'.aptrs = s.aptrs

theorem adds (requests : List (Fin I × Fin O)) (inv : Inv s) (nodup : requests.Nodup)
    (fresh : ∀ request ∈ requests, request.2 ∉ s.in_req request.1) :
    ∃ s', requests.foldlM AddRequest s = some s' ∧ Inv s' ∧
      (∀ i o, o ∈ s'.in_req i ↔ (i, o) ∈ requests ∨ o ∈ s.in_req i) ∧
      s'.inmatch = s.inmatch ∧ s'.outmatch = s.outmatch ∧
      s'.gptrs = s.gptrs ∧ s'.aptrs = s.aptrs := by
  induction requests generalizing s with
  | nil => exact ⟨s, rfl, inv, fun i o => by simp, rfl, rfl, rfl, rfl⟩
  | cons request requests ih =>
    obtain ⟨i, o⟩ := request
    rw [List.nodup_cons] at nodup
    have unasked : o ∉ s.in_req i := fresh (i, o) List.mem_cons_self
    have unasked' : i ∉ s.out_req o := fun inside => unasked ((inv.mirrored i o).mpr inside)
    have added : ∃ s', s.AddRequest (i, o) = some s' := by
      simp only [AddRequest]
      rw [if_pos ⟨List.count_eq_zero.mpr unasked, List.count_eq_zero.mpr unasked'⟩]
      exact ⟨_, rfl⟩
    obtain ⟨s₁, added⟩ := added
    obtain ⟨-, eq⟩ := AddRequest_eq added
    have asks : ∀ j p, p ∈ s₁.in_req j ↔ (j = i ∧ p = o) ∨ p ∈ s.in_req j := by
      intro j p
      rw [eq]
      exact mem_update_orderedInsert
    obtain ⟨s', loaded, inv', asked, inmatch, outmatch, gptrs, aptrs⟩ :=
      ih (inv.add added) nodup.2 fun other inside => by
        rw [asks]
        rintro (same | old)
        · obtain rfl : other = (i, o) := Prod.ext same.1 same.2
          exact nodup.1 inside
        · exact fresh other (List.mem_cons_of_mem _ inside) old
    refine ⟨s', ?_, inv', fun j p => ?_, ?_, ?_, ?_, ?_⟩
    · rw [List.foldlM_cons, added]
      exact loaded
    · rw [asked, asks, List.mem_cons, Prod.mk.injEq, ← or_assoc, or_comm (a := (j, p) ∈ requests)]
    · rw [inmatch, eq]
    · rw [outmatch, eq]
    · rw [gptrs, eq]
    · rw [aptrs, eq]

theorem loads {requests : List (Fin I × Fin O)} (inv : Inv s) (nodup : requests.Nodup) :
    ∃ s', s.load requests = some s' ∧ Loaded requests s s' := by
  have cleared := inv.Clear_eq
  obtain ⟨s', loaded, inv', asked, inmatch, outmatch, gptrs, aptrs⟩ :=
    adds requests inv.clear nodup fun request _ => by rw [cleared]; exact List.not_mem_nil
  rw [cleared] at asked inmatch outmatch gptrs aptrs
  exact ⟨s', loaded, {
    inv := inv'
    asked := fun i o => by rw [asked]; simp
    inFree := fun i => congrFun inmatch i
    outFree := fun o => congrFun outmatch o
    gptrs := gptrs
    aptrs := aptrs }⟩

theorem run_succ {requests : Nat → List (Fin I × Fin O)} (nodup : ∀ t, (requests t).Nodup)
    (t : Nat) :
    ∃ s s', run iters requests t = some s ∧ Inv s ∧ Loaded (requests t) s s' ∧
      run iters requests (t + 1) = some (s'.Allocate iters) := by
  have running : ∃ s, run iters requests t = some s ∧ Inv s := by
    induction t with
    | zero => exact ⟨new, rfl, Inv.new⟩
    | succ t ih =>
      obtain ⟨s, ran, inv⟩ := ih
      obtain ⟨s', loaded, fresh⟩ := loads inv (nodup t)
      exact ⟨s'.Allocate iters, by simp [run, ran, loaded], fresh.inv.allocate⟩
  obtain ⟨s, ran, inv⟩ := running
  obtain ⟨s', loaded, fresh⟩ := loads inv (nodup t)
  exact ⟨s, s', ran, inv, fresh, by simp [run, ran, loaded]⟩

/-! ## No input starves -/

/-- How long an input can wait for an output: the distance of the input from the output's offset
    counts most, then the distance of the input that is granted, then the distance of the output
    from that input's offset. -/
def wait (s : ISlip I O) (i : Fin I) (o : Fin O) : Nat :=
  match s.grants o with
  | none => 0
  | some j =>
    (ahead I (s.gptrs o) i * I + ahead I (s.gptrs o) j) * O + ahead O (s.aptrs j) o

theorem digit_lt {a a' b b' n : Nat} (low : b' < n) (less : a' < a) : a' * n + b' < a * n + b := by
  have whole : (a' + 1) * n ≤ a * n := Nat.mul_le_mul_right n less
  rw [Nat.succ_mul] at whole
  omega

theorem wait_lt (inv : Inv s) : s.wait i o < I * I * O := by
  have ports : 0 < I := i.pos
  have ports' : 0 < O := o.pos
  rw [wait]
  split
  next => exact Nat.mul_pos (Nat.mul_pos ports ports) ports'
  next j _ =>
    have outer : ahead I (s.gptrs o) i < I := ahead_lt (inv.gptrs_lt o ports) i.isLt
    have inner : ahead I (s.gptrs o) j < I := ahead_lt (inv.gptrs_lt o ports) j.isLt
    have last : ahead O (s.aptrs j) o < O := ahead_lt (inv.aptrs_lt j ports') o.isLt
    have whole : ahead I (s.gptrs o) i * I + ahead I (s.gptrs o) j < I * I := by
      have := digit_lt (b := 0) inner outer
      omega
    have := digit_lt (b := 0) last whole
    omega

theorem Allocate_pointers (iterating : 0 < iters) :
    (s.Allocate iters).gptrs = (s.iteration 0).gptrs ∧
      (s.Allocate iters).aptrs = (s.iteration 0).aptrs := by
  induction iters with
  | zero => cases iterating
  | succ iters ih =>
    rw [Allocate_succ]
    cases iters with
    | zero => exact ⟨rfl, rfl⟩
    | succ iters =>
      obtain ⟨gptrs, aptrs⟩ := ih (Nat.succ_pos _)
      rw [iteration_eq]
      exact ⟨gptrs, by rw [← aptrs]; simp [afterTurns]⟩

theorem Allocate_of_accepted (iterating : 0 < iters) (accepted : s.accepted s.grants i = some o) :
    (s.Allocate iters).inmatch i = some o := by
  induction iters with
  | zero => cases iterating
  | succ iters ih =>
    rw [Allocate_succ]
    cases iters with
    | zero =>
      have matched : (s.iteration 0).inmatch i = (some o).or (s.inmatch i) := by
        rw [iteration_inmatch, accepted]
      exact matched
    | succ iters => exact iteration_kept (ih (Nat.succ_pos _))

/-- While an input that asks for an output is not matched with it, its wait grows shorter, if those
    that ask for the output keep asking until they are matched with it. -/
theorem wait_lt_wait (iterating : 0 < iters) (inv : Inv s) (inv' : Inv s')
    (inFree' : ∀ i, s'.inmatch i = none) (outFree' : ∀ o, s'.outmatch o = none)
    (inFree : ∀ i, s.inmatch i = none) (outFree : ∀ o, s.outmatch o = none)
    (gptrs : s'.gptrs = (s.Allocate iters).gptrs) (aptrs : s'.aptrs = (s.Allocate iters).aptrs)
    (asked : o ∈ s.in_req i) (unserved : (s.Allocate iters).outmatch o ≠ some i)
    (kept : ∀ j, o ∈ s.in_req j → (s.Allocate iters).outmatch o ≠ some j → o ∈ s'.in_req j) :
    s'.wait i o < s.wait i o := by
  have ports : 0 < I := i.pos
  have ports' : 0 < O := o.pos
  have start := inv.gptrs_lt o ports
  obtain ⟨j, granted⟩ := grants_of_free ((inv.mirrored i o).mp asked) (inFree i) (outFree o)
  have asked' := kept i asked unserved
  obtain ⟨k, granted'⟩ := grants_of_free ((inv'.mirrored i o).mp asked') (inFree' i) (outFree' o)
  have nearest : ∀ {s : ISlip I O} {j l : Fin I}, Inv s → s.grants o = some j →
      s.inmatch l = none → o ∈ s.in_req l →
      ahead I (s.gptrs o) j ≤ ahead I (s.gptrs o) l := by
    intro s j l inv granted free asks
    rw [grants] at granted
    split at granted
    · cases granted
    · exact search_nearest (inv.gptrs_lt o ports) (inv.out_sorted o) granted
        ((inv.mirrored l o).mp asks) (by simpa using free)
  have asks : o ∈ s.in_req j := (inv.mirrored j o).mpr (grants_some granted).2.1
  obtain ⟨q, accepted⟩ := accepted_of_granted asks granted
  have matched := Allocate_of_accepted iterating accepted
  have near' := ahead_lt (p := k.val) (inv'.gptrs_lt o ports) k.isLt
  have last' := ahead_lt (p := o.val) (inv'.aptrs_lt k ports') o.isLt
  have pointers := @Allocate_pointers _ _ s _ iterating
  rw [iteration_eq] at pointers
  rw [wait, wait, granted, granted']
  simp only
  by_cases own : q = o
  · -- the output's offset passes the input that accepts
    subst own
    have other : j ≠ i := by
      rintro rfl
      exact unserved ((inv.allocate.matched j q).mp matched)
    have nearer : ahead I (s.gptrs q) j < ahead I (s.gptrs q) i :=
      lt_of_le_of_ne (nearest inv granted (inFree i) asked)
        fun same => other (Fin.ext (ahead_inj start j.isLt i.isLt same))
    have moved : s'.gptrs q = (j + 1) % I := by
      rw [gptrs, pointers.1]
      simp [afterTurns, taker_finRange.mpr accepted]
    have next := ahead_next start i.isLt j.isLt nearer
    rw [moved] at near' ⊢
    exact digit_lt last' (digit_lt near' (by omega))
  · -- the offset stays, and the input that refuses moves its own towards the output
    have stays : s'.gptrs o = s.gptrs o := by
      have untaken : s.taker s.grants (List.finRange I) o = none := by
        rw [taker, granted, Option.filter_some, if_neg]
        simp [accepted, own]
      rw [gptrs, pointers.1]
      simp [afterTurns, untaken]
    have refused : (s.Allocate iters).outmatch o ≠ some j := by
      intro taken
      rw [(inv.allocate.matched j o).mpr taken] at matched
      exact own (Option.some.inj matched).symm
    have near := nearest inv' granted' (inFree' j) (kept j asks refused)
    rw [stays] at near near' ⊢
    rcases Nat.lt_or_eq_of_le near with nearer | same
    · exact digit_lt last' (Nat.add_lt_add_left nearer _)
    · obtain rfl : k = j := Fin.ext (ahead_inj start k.isLt j.isLt same)
      have moved : s'.aptrs k = (q + 1) % O := by
        rw [aptrs, pointers.2]
        simp [afterTurns, accepted]
      have first : ahead O (s.aptrs k) q < ahead O (s.aptrs k) o := by
        have choice := accepted
        rw [ISlip.accepted, if_neg (List.ne_nil_of_mem asks)] at choice
        exact lt_of_le_of_ne
          (search_nearest (inv.aptrs_lt k ports') (inv.in_sorted k) choice asks
            (by simpa using granted))
          fun same => own (Fin.ext (ahead_inj (inv.aptrs_lt k ports') q.isLt o.isLt same))
      have next := ahead_next (inv.aptrs_lt k ports') o.isLt q.isLt first
      rw [moved]
      omega

/-- If those that ask for an output keep asking until they are matched with it, then each of them is
    matched with it in time. -/
theorem no_input_starves (iterating : 0 < iters) {requests : Nat → List (Fin I × Fin O)}
    (nodup : ∀ t, (requests t).Nodup) {t : Nat}
    (kept : ∀ k ≥ t, ∀ s, run iters requests (k + 1) = some s → ∀ j, (j, o) ∈ requests k →
      s.outmatch o ≠ some j → (j, o) ∈ requests (k + 1))
    (asked : (i, o) ∈ requests t) :
    ∃ k < I * I * O, ∃ s, run iters requests (t + k + 1) = some s ∧ s.outmatch o = some i := by
  choose before loaded ran inv fresh next using
    fun k => @run_succ I O iters requests nodup k
  have follows : ∀ k, before (k + 1) = (loaded k).Allocate iters := fun k =>
    Option.some.inj ((ran (k + 1)).symm.trans (next k))
  -- the input asks as long as it is not served, so that its wait falls in each cycle
  have asking : ∀ k ≥ t, (∀ m, t ≤ m → m < k → ((loaded m).Allocate iters).outmatch o ≠ some i) →
      (i, o) ∈ requests k := by
    intro k later
    induction k, later using Nat.le_induction with
    | base => exact fun _ => asked
    | succ k later ih =>
      intro unserved
      exact kept k later _ (next k) i
        (ih fun m from_t sooner => unserved m from_t (by omega))
        (unserved k later (Nat.lt_succ_self k))
  have served := @served_of_falls
    (fun k => ((loaded k).Allocate iters).outmatch o = some i)
    (fun k => (loaded k).wait i o) t (I * I * O) (wait_lt (fresh t).inv)
    fun k later unserved => by
      have asks := asking k later fun m from_t sooner => unserved m from_t (Nat.le_of_lt sooner)
      refine wait_lt_wait iterating (fresh k).inv (fresh (k + 1)).inv (fresh (k + 1)).inFree
        (fresh (k + 1)).outFree (fresh k).inFree (fresh k).outFree ?_ ?_
        (((fresh k).asked i o).mpr asks) (unserved k later (Nat.le_refl k)) ?_
      · rw [(fresh (k + 1)).gptrs, follows k]
      · rw [(fresh (k + 1)).aptrs, follows k]
      · intro j asks unmatched
        exact ((fresh (k + 1)).asked j o).mpr
          (kept k later _ (next k) j (((fresh k).asked j o).mp asks) unmatched)
  obtain ⟨k, inTime, served⟩ := served
  exact ⟨k, inTime, _, next (t + k), served⟩

theorem no_input_starves_at_one_output :
    ∃ k < 2 * 2 * 2, ∃ s : ISlip 2 2, run 1 (fun _ => [(0, 0), (1, 0)]) (0 + k + 1) = some s ∧
      s.outmatch 0 = some 1 :=
  no_input_starves (by decide) (fun _ => by decide) (fun _ _ _ _ _ asks _ => asks) (by decide)

end ISlip

end AesOnGpu.Interconnect
