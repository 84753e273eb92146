import AesOnGpu.Dram.FrfcfsScheduler

/-! # What the scheduler keeps, and in which order

The calls made so far say which requests wait at each bank and whether a row is being
served there.  The scheduler's lists and bins hold exactly the waiting requests, and
`schedule` returns the oldest one of the row that is due.
-/

namespace AesOnGpu.Dram
namespace FrfcfsScheduler

/-! ## The calls made so far -/

inductive Event where
  | added (node : ListNode)
  | scheduled (bank curr_row : Nat) (node : ListNode)

def pending : List Event → Nat → List ListNode
  | [], _ => []
  | .added node :: events, bank =>
    if node.req.bk = bank then node :: pending events bank else pending events bank
  | .scheduled bank' _ node :: events, bank =>
    if bank' = bank then (pending events bank).filter (·.iterator ≠ node.iterator)
    else pending events bank

def inRow (nodes : List ListNode) (row : Nat) : List ListNode :=
  nodes.filter (·.req.row = row)

/-- The row of the last request returned for the bank, if it had more requests then. -/
def serving : List Event → Nat → Option Nat
  | [], _ => none
  | .added _ :: events, bank => serving events bank
  | .scheduled bank' curr_row node :: events, bank =>
    if bank' = bank then
      if inRow (pending (.scheduled bank' curr_row node :: events) bank) node.req.row = [] then none
      else some node.req.row
    else serving events bank

def added : List Event → List ListNode
  | [] => []
  | .added node :: events => node :: added events
  | .scheduled _ _ _ :: events => added events

def returned : List Event → List ListNode
  | [] => []
  | .added _ :: events => returned events
  | .scheduled _ _ node :: events => node :: returned events

/-- The request that is due: the oldest of its row.  A row is served until none of its
    requests is left; then the bank's current row is selected if it has requests, and
    otherwise the row of the bank's oldest request. -/
structure IsNext (events : List Event) (bank curr_row : Nat) (node : ListNode) : Prop where
  oldest : (inRow (pending events bank) node.req.row).getLast? = some node
  kept : ∀ row, serving events bank = some row → node.req.row = row
  current : serving events bank = none → inRow (pending events bank) curr_row ≠ [] →
    node.req.row = curr_row
  otherwise : serving events bank = none → inRow (pending events bank) curr_row = [] →
    ∃ back, (pending events bank).getLast? = some back ∧ node.req.row = back.req.row

inductive Reaches (nbk : Nat) : FrfcfsScheduler → List Event → Prop
  | new : Reaches nbk (.new nbk) []
  | add {s s' events req} : Reaches nbk s events → s.add_req req = some s' →
      Reaches nbk s' (.added ⟨s.fresh, req⟩ :: events)
  | idle {s s' events bank curr_row} : Reaches nbk s events →
      s.schedule bank curr_row = some (s', none) → Reaches nbk s' events
  | schedule {s s' events bank curr_row node} : Reaches nbk s events →
      s.schedule bank curr_row = some (s', some node) →
      Reaches nbk s' (.scheduled bank curr_row node :: events)

/-! ## Taking the oldest out -/

section

variable {nodes : List ListNode} {node : ListNode} {row : Nat}

theorem mem_of_oldest (oldest : (inRow nodes row).getLast? = some node) :
    node ∈ nodes ∧ node.req.row = row := by
  have inside := List.mem_filter.mp (List.mem_of_getLast? oldest)
  exact ⟨inside.1, of_decide_eq_true inside.2⟩

theorem oldest_of_ne_nil (some_ : inRow nodes row ≠ []) :
    ∃ node, (inRow nodes row).getLast? = some node :=
  ⟨_, List.getLast?_eq_getLast_of_ne_nil some_⟩

theorem eq_of_iterator (distinct : (nodes.map ListNode.iterator).Nodup) {other : ListNode}
    (here : node ∈ nodes) (there : other ∈ nodes) (same : other.iterator = node.iterator) :
    other = node :=
  List.inj_on_of_nodup_map distinct there here same

theorem without_eq_erase (distinct : (nodes.map ListNode.iterator).Nodup) (here : node ∈ nodes) :
    nodes.filter (·.iterator ≠ node.iterator) = nodes.erase node := by
  rw [(distinct.of_map _).erase_eq_filter]
  refine List.filter_congr fun other there => ?_
  by_cases eq : other = node
  · simp [eq]
  · have kept : other.iterator ≠ node.iterator := fun same => eq
      (eq_of_iterator distinct here there same)
    simp [eq, kept]

theorem inRow_without (distinct : (nodes.map ListNode.iterator).Nodup)
    (oldest : (inRow nodes row).getLast? = some node) :
    inRow (nodes.filter (·.iterator ≠ node.iterator)) row = (inRow nodes row).dropLast := by
  have split := List.dropLast_append_getLast? node oldest
  have distinct' : ((inRow nodes row).map ListNode.iterator).Nodup :=
    distinct.sublist (List.filter_sublist.map _)
  rw [← split, List.map_append, List.map_singleton] at distinct'
  have others : ∀ other ∈ (inRow nodes row).dropLast, other.iterator ≠ node.iterator :=
    fun other inside same => (List.disjoint_of_nodup_append distinct')
      (List.mem_map_of_mem inside) (List.mem_singleton.mpr same)
  have comm : inRow (nodes.filter (·.iterator ≠ node.iterator)) row =
      (inRow nodes row).filter (·.iterator ≠ node.iterator) := by
    rw [inRow, inRow, List.filter_filter, List.filter_filter]
    exact List.filter_congr fun other _ => Bool.and_comm _ _
  rw [comm, ← split, List.filter_append, List.dropLast_concat]
  have kept := List.filter_eq_self.mpr fun other inside => decide_eq_true (others other inside)
  rw [kept]
  simp

theorem inRow_without_other (distinct : (nodes.map ListNode.iterator).Nodup) {other : Nat}
    (here : node ∈ nodes) (different : node.req.row ≠ other) :
    inRow (nodes.filter (·.iterator ≠ node.iterator)) other = inRow nodes other := by
  rw [inRow, inRow, List.filter_filter]
  refine List.filter_congr fun found there => ?_
  by_cases same : found.iterator = node.iterator
  · have eq := eq_of_iterator distinct here there same
    simp [eq, different]
  · simp [same]

end

/-! ## The invariant -/

/-- A bin: `none` without a request. -/
def binOf (nodes : List ListNode) (row : Nat) : Option (List Nat) :=
  if inRow nodes row = [] then none else some ((inRow nodes row).map ListNode.iterator)

structure Sound (nbk : Nat) (s : FrfcfsScheduler) (events : List Event) : Prop where
  banks : s.nbk = nbk
  queue : s.m_queue = pending events
  bins : ∀ bank row, s.m_bins bank row = binOf (pending events bank) row
  last_row : s.m_last_row = serving events
  served : ∀ bank row, serving events bank = some row → inRow (pending events bank) row ≠ []
  bank : ∀ bank, ∀ node ∈ pending events bank, node.req.bk = bank ∧ bank < nbk
  distinct : ∀ bank, ((pending events bank).map ListNode.iterator).Nodup
  fresh : ∀ node ∈ added events, node.iterator < s.fresh
  once : (added events).Nodup
  count : ∀ node, (added events).count node =
    (returned events).count node + (pending events node.req.bk).count node
  num : s.m_num_pending = ∑ bank ∈ Finset.range nbk, (pending events bank).length

variable {nbk : Nat} {s s' : FrfcfsScheduler} {events : List Event}

theorem sound_new : Sound nbk (.new nbk) [] where
  banks := rfl
  queue := rfl
  bins _ _ := rfl
  last_row := rfl
  served _ _ due := by cases due
  bank _ _ inside := by cases inside
  distinct _ := .nil
  fresh _ inside := by cases inside
  once := .nil
  count _ := rfl
  num := by simp [FrfcfsScheduler.new, pending]

theorem Sound.pending_added (sound : Sound nbk s events) {bank : Nat} {node : ListNode}
    (waits : node ∈ pending events bank) : node ∈ added events := by
  have here := (sound.bank bank node waits).1
  have count := sound.count node
  rw [here] at count
  have positive := List.count_pos_iff.mpr waits
  exact List.count_pos_iff.mp (by omega)

/-! ## Adding -/

theorem inRow_cons (node : ListNode) (nodes : List ListNode) (row : Nat) :
    inRow (node :: nodes) row = if node.req.row = row then node :: inRow nodes row
      else inRow nodes row := by
  rw [inRow, List.filter_cons]
  simp [inRow]

theorem binOf_cons_self (node : ListNode) (nodes : List ListNode) :
    binOf (node :: nodes) node.req.row =
      some (node.iterator :: (binOf nodes node.req.row).getD []) := by
  rw [binOf, binOf, inRow_cons, if_pos rfl]
  by_cases none_ : inRow nodes node.req.row = [] <;> simp [none_]

theorem binOf_cons_other {node : ListNode} (nodes : List ListNode) {row : Nat}
    (different : node.req.row ≠ row) : binOf (node :: nodes) row = binOf nodes row := by
  rw [binOf, binOf, inRow_cons, if_neg different]

theorem Sound.add {req : DramReq} (sound : Sound nbk s events)
    (run : s.add_req req = some s') : Sound nbk s' (.added ⟨s.fresh, req⟩ :: events) := by
  rw [add_req] at run
  split at run
  on_goal 2 => cases run
  rename_i inside
  obtain rfl := Option.some.inj run
  have new : (⟨s.fresh, req⟩ : ListNode) ∉ added events :=
    fun old => Nat.lt_irrefl _ (sound.fresh _ old)
  constructor
  · exact sound.banks
  · funext bank
    dsimp only
    rw [pending, Function.update_apply, sound.queue]
    by_cases here : bank = req.bk
    · rw [if_pos here, if_pos here.symm, here]
    · rw [if_neg here, if_neg (Ne.symm here)]
  · intro bank row
    dsimp only
    rw [setBin, Function.update_apply, pending]
    by_cases here : bank = req.bk
    · rw [if_pos here, if_pos here.symm, Function.update_apply, here]
      by_cases sameRow : row = req.row
      · rw [if_pos sameRow, sameRow, sound.bins]
        exact (binOf_cons_self ⟨s.fresh, req⟩ _).symm
      · rw [if_neg sameRow, sound.bins]
        exact (binOf_cons_other _ (Ne.symm sameRow)).symm
    · rw [if_neg here, if_neg (Ne.symm here), sound.bins]
  · exact sound.last_row
  · intro bank row due
    have before := sound.served bank row due
    rw [pending]
    split
    · rw [inRow_cons]
      split
      · exact List.cons_ne_nil _ _
      · exact before
    · exact before
  · intro bank node waits
    rw [pending] at waits
    split at waits
    · rename_i here
      cases List.mem_cons.mp waits with
      | inl eq => exact ⟨eq ▸ here, here ▸ sound.banks ▸ inside⟩
      | inr old => exact sound.bank bank node old
    · exact sound.bank bank node waits
  · intro bank
    rw [pending]
    split
    · refine List.nodup_cons.mpr ⟨fun old => ?_, sound.distinct bank⟩
      obtain ⟨node, waits, same⟩ := List.mem_map.mp old
      have low := sound.fresh node (sound.pending_added waits)
      rw [same] at low
      exact Nat.lt_irrefl _ low
    · exact sound.distinct bank
  · intro node inside
    cases List.mem_cons.mp inside with
    | inl eq => rw [eq]; exact Nat.lt_succ_self s.fresh
    | inr old => exact Nat.lt_succ_of_lt (sound.fresh node old)
  · exact List.nodup_cons.mpr ⟨new, sound.once⟩
  · intro node
    rw [added, returned, pending, List.count_cons, sound.count node]
    by_cases eq : (⟨s.fresh, req⟩ : ListNode) = node
    · rw [eq, if_pos (beq_self_eq_true node), if_pos rfl, List.count_cons_self]
      rfl
    · rw [if_neg (fun same => eq (eq_of_beq same)), Nat.add_zero]
      split
      · rw [List.count_cons_of_ne eq]
      · rfl
  · dsimp only
    rw [sound.num]
    have here : req.bk ∈ Finset.range nbk := Finset.mem_range.mpr (sound.banks ▸ inside)
    rw [← Finset.add_sum_erase _ _ here, ← Finset.add_sum_erase _ _ here]
    have others : ∑ bank ∈ (Finset.range nbk).erase req.bk,
        (pending (.added ⟨s.fresh, req⟩ :: events) bank).length =
        ∑ bank ∈ (Finset.range nbk).erase req.bk, (pending events bank).length := by
      refine Finset.sum_congr rfl fun bank there => ?_
      rw [pending, if_neg (Ne.symm (Finset.ne_of_mem_erase there))]
    rw [others, pending, if_pos rfl, List.length_cons, Nat.add_right_comm]

/-! ## Serving -/

section

variable {bank row : Nat} {node : ListNode}

/-- The state after `node`, the oldest request of a row, has been taken out. -/
def without (s : FrfcfsScheduler) (bank : Nat) (node : ListNode) : FrfcfsScheduler :=
  let rest := (s.m_queue bank).filter (·.iterator ≠ node.iterator)
  { s with
    m_num_pending := s.m_num_pending - 1
    m_queue := Function.update s.m_queue bank rest
    m_bins := s.setBin bank node.req.row (binOf rest node.req.row)
    m_last_row := Function.update s.m_last_row bank
      (if inRow rest node.req.row = [] then none else some node.req.row) }

theorem Sound.num_pos (sound : Sound nbk s events) (waits : node ∈ pending events bank) :
    s.m_num_pending ≠ 0 := by
  have inside := Finset.mem_range.mpr (sound.bank bank node waits).2
  have one := Finset.single_le_sum (fun other _ => Nat.zero_le (pending events other).length) inside
  have positive := List.length_pos_of_mem waits
  have num := sound.num
  omega

theorem Sound.deref_eq (sound : Sound nbk s events) (waits : node ∈ pending events bank) :
    s.deref bank node.iterator = some node := by
  rw [deref, sound.queue]
  cases found : (pending events bank).find? (·.iterator = node.iterator) with
  | none =>
    have absent := List.find?_eq_none.mp found node waits
    simp at absent
  | some other =>
    have same : other.iterator = node.iterator := by simpa using List.find?_some found
    rw [eq_of_iterator (sound.distinct bank) waits (List.mem_of_find?_eq_some found) same]

theorem Sound.serve_eq (sound : Sound nbk s events)
    (oldest : (inRow (pending events bank) row).getLast? = some node) :
    s.serve bank row = some (s.without bank node, node) := by
  obtain ⟨waits, rfl⟩ := mem_of_oldest oldest
  have some_ : inRow (pending events bank) node.req.row ≠ [] := by
    intro nil
    rw [nil] at oldest
    cases oldest
  have bin : s.m_bins bank node.req.row =
      some ((inRow (pending events bank) node.req.row).map ListNode.iterator) := by
    rw [sound.bins, binOf, if_neg some_]
  have last : ((inRow (pending events bank) node.req.row).map ListNode.iterator).getLast? =
      some node.iterator := by
    rw [List.getLast?_map, oldest, Option.map_some]
  have rest : inRow ((pending events bank).filter (·.iterator ≠ node.iterator)) node.req.row =
      (inRow (pending events bank) node.req.row).dropLast :=
    inRow_without (sound.distinct bank) oldest
  rw [serve, bin]
  dsimp only
  rw [last]
  dsimp only
  rw [sound.deref_eq waits]
  dsimp only
  rw [if_neg (sound.num_pos waits), without, sound.queue, binOf, rest, ← List.map_dropLast]
  by_cases nil : (inRow (pending events bank) node.req.row).dropLast = []
  · -- the bin is erased
    rw [nil, List.map_nil, if_pos rfl, if_pos rfl, if_pos rfl]
    simp only [setBin, Function.update_self, Function.update_idem]
  · rw [if_neg nil, if_neg nil, if_neg (fun empty => nil (List.map_eq_nil_iff.mp empty))]

theorem Sound.without (sound : Sound nbk s events) (curr_row : Nat)
    (oldest : (inRow (pending events bank) row).getLast? = some node) :
    Sound nbk (s.without bank node) (.scheduled bank curr_row node :: events) := by
  obtain ⟨waits, rfl⟩ := mem_of_oldest oldest
  have after : pending (.scheduled bank curr_row node :: events) bank =
      (pending events bank).filter (·.iterator ≠ node.iterator) := by
    rw [pending, if_pos rfl]
  have elsewhere : ∀ other, other ≠ bank →
      pending (.scheduled bank curr_row node :: events) other = pending events other :=
    fun other different => by rw [pending, if_neg (Ne.symm different)]
  have smaller : ∀ other, List.Sublist
      (pending (.scheduled bank curr_row node :: events) other) (pending events other) := by
    intro other
    rw [pending]
    split
    · exact List.filter_sublist
    · exact List.Sublist.refl _
  constructor
  · exact sound.banks
  · funext other
    rw [FrfcfsScheduler.without, sound.queue]
    dsimp only
    rw [Function.update_apply]
    split
    · rename_i here
      rw [here, after]
    · rename_i there
      rw [elsewhere other there]
  · intro other row
    rw [FrfcfsScheduler.without, sound.queue]
    dsimp only
    rw [setBin, Function.update_apply]
    split
    · rename_i here
      rw [here, after, Function.update_apply]
      split
      · rename_i sameRow
        rw [sameRow]
      · rename_i otherRow
        rw [sound.bins, binOf, binOf,
          inRow_without_other (sound.distinct bank) waits (Ne.symm otherRow)]
    · rename_i there
      rw [elsewhere other there, sound.bins]
  · funext other
    rw [FrfcfsScheduler.without, sound.queue]
    dsimp only
    rw [Function.update_apply, serving]
    split
    · rename_i here
      rw [if_pos here.symm, here, after]
    · rename_i there
      rw [if_neg (Ne.symm there), sound.last_row]
  · intro other row due
    rw [serving] at due
    by_cases here : bank = other
    · rw [if_pos here] at due
      subst here
      by_cases nil : inRow (pending (.scheduled bank curr_row node :: events) bank) node.req.row = []
      · rw [if_pos nil] at due
        cases due
      · rw [if_neg nil] at due
        exact Option.some.inj due ▸ nil
    · rw [if_neg here] at due
      rw [elsewhere other (Ne.symm here)]
      exact sound.served other row due
  · exact fun other left inside => sound.bank other left ((smaller other).subset inside)
  · exact fun other => (sound.distinct other).sublist ((smaller other).map _)
  · exact sound.fresh
  · exact sound.once
  · intro other
    rw [added, returned, sound.count other]
    by_cases eq : other = node
    · -- it leaves the queue and is returned
      have here := (sound.bank bank node waits).1
      have gone : node ∉ (pending events bank).filter (·.iterator ≠ node.iterator) := by
        simp
      have one := List.count_eq_one_of_mem ((sound.distinct bank).of_map _) waits
      rw [eq, here, after, one, List.count_eq_zero_of_not_mem gone, List.count_cons_self]
    · rw [List.count_cons_of_ne (Ne.symm eq), pending]
      split
      · rename_i here
        congr 1
        by_cases inside : other ∈ pending events other.req.bk
        · have kept : other.iterator ≠ node.iterator := fun same => eq
            (eq_of_iterator (sound.distinct bank) waits (here ▸ inside) same)
          rw [List.count_filter (by simpa using kept)]
        · have absent : other ∉ (pending events other.req.bk).filter
              (·.iterator ≠ node.iterator) := fun found => inside (List.mem_of_mem_filter found)
          rw [List.count_eq_zero_of_not_mem inside, List.count_eq_zero_of_not_mem absent]
      · rfl
  · have here : bank ∈ Finset.range nbk := Finset.mem_range.mpr (sound.bank bank node waits).2
    have one : ((pending events bank).filter (·.iterator ≠ node.iterator)).length + 1 =
        (pending events bank).length := by
      have erased := List.length_erase_of_mem waits
      have positive := List.length_pos_of_mem waits
      rw [without_eq_erase (sound.distinct bank) waits, erased]
      omega
    have others : ∑ other ∈ (Finset.range nbk).erase bank,
        (pending (.scheduled bank curr_row node :: events) other).length =
        ∑ other ∈ (Finset.range nbk).erase bank, (pending events other).length :=
      Finset.sum_congr rfl fun other there => by
        rw [elsewhere other (Finset.ne_of_mem_erase there)]
    rw [FrfcfsScheduler.without]
    dsimp only
    rw [sound.num, ← Finset.add_sum_erase _ _ here, ← Finset.add_sum_erase _ _ here, others,
      after, ← one]
    omega

theorem inRow_ne_nil_of_mem (waits : node ∈ pending events bank) :
    inRow (pending events bank) node.req.row ≠ [] :=
  List.ne_nil_of_mem (List.mem_filter.mpr ⟨waits, decide_eq_true rfl⟩)

theorem Sound.schedule_empty (sound : Sound nbk s events) (inside : bank < nbk) (curr_row : Nat)
    (nil : pending events bank = []) : s.schedule bank curr_row = some (s, none) := by
  have idle : s.m_last_row bank = none := by
    rw [sound.last_row]
    cases due : serving events bank with
    | none => rfl
    | some row =>
      have waiting := sound.served bank row due
      rw [nil] at waiting
      exact absurd rfl waiting
  rw [schedule, if_pos (sound.banks ▸ inside), idle, sound.queue, nil]
  rfl

theorem Sound.schedule_next (sound : Sound nbk s events) (inside : bank < nbk) (curr_row : Nat)
    (waiting : pending events bank ≠ []) :
    ∃ node, IsNext events bank curr_row node ∧
      s.schedule bank curr_row = some (s.without bank node, some node) := by
  rw [schedule, if_pos (sound.banks ▸ inside)]
  cases due : serving events bank with
  | some row =>
    obtain ⟨node, oldest⟩ := oldest_of_ne_nil (sound.served bank row due)
    have sameRow := (mem_of_oldest oldest).2
    refine ⟨node, ⟨sameRow ▸ oldest, ?_, ?_, ?_⟩, ?_⟩
    · intro row' due'
      exact sameRow.trans (Option.some.inj (due.symm.trans due'))
    · intro idle
      rw [due] at idle
      cases idle
    · intro idle
      rw [due] at idle
      cases idle
    · rw [sound.last_row, due]
      dsimp only
      rw [sound.serve_eq oldest]
      rfl
  | none =>
    -- row selection
    have back : (pending events bank).getLast? =
        some ((pending events bank).getLast waiting) := List.getLast?_eq_getLast_of_ne_nil waiting
    rw [sound.last_row, due]
    dsimp only
    rw [sound.queue, back]
    dsimp only
    by_cases hit : inRow (pending events bank) curr_row = []
    · have miss : (s.m_bins bank curr_row).isSome = false := by
        rw [sound.bins, binOf, if_pos hit]
        rfl
      rw [miss, if_neg Bool.false_ne_true]
      obtain ⟨node, oldest⟩ := oldest_of_ne_nil
        (inRow_ne_nil_of_mem (List.getLast_mem waiting))
      have sameRow := (mem_of_oldest oldest).2
      refine ⟨node, ⟨sameRow.symm ▸ oldest, ?_, ?_, ?_⟩, ?_⟩
      · intro row' due'
        rw [due] at due'
        cases due'
      · exact fun _ some_ => absurd hit some_
      · exact fun _ _ => ⟨_, back, sameRow⟩
      · rw [sound.serve_eq oldest]
        rfl
    · have found : (s.m_bins bank curr_row).isSome = true := by
        rw [sound.bins, binOf, if_neg hit]
        rfl
      rw [found, if_pos rfl]
      obtain ⟨node, oldest⟩ := oldest_of_ne_nil hit
      have sameRow := (mem_of_oldest oldest).2
      refine ⟨node, ⟨sameRow.symm ▸ oldest, ?_, ?_, ?_⟩, ?_⟩
      · intro row' due'
        rw [due] at due'
        cases due'
      · exact fun _ _ => sameRow
      · exact fun _ nil => absurd nil hit
      · rw [sound.serve_eq oldest]
        rfl

end

theorem Sound.schedule_inside {bank curr_row : Nat} {result : Option ListNode}
    (sound : Sound nbk s events) (run : s.schedule bank curr_row = some (s', result)) :
    bank < nbk := by
  by_contra outside
  rw [schedule, if_neg (sound.banks ▸ outside)] at run
  cases run

theorem Sound.schedule_none {bank curr_row : Nat} (sound : Sound nbk s events)
    (run : s.schedule bank curr_row = some (s', none)) : s' = s := by
  have inside := sound.schedule_inside run
  by_cases nil : pending events bank = []
  · rw [sound.schedule_empty inside curr_row nil] at run
    cases run
    rfl
  · obtain ⟨node, -, next⟩ := sound.schedule_next inside curr_row nil
    rw [next] at run
    cases run

theorem Sound.schedule_some {bank curr_row : Nat} {node : ListNode} (sound : Sound nbk s events)
    (run : s.schedule bank curr_row = some (s', some node)) :
    IsNext events bank curr_row node ∧ s' = s.without bank node := by
  have inside := sound.schedule_inside run
  by_cases nil : pending events bank = []
  · rw [sound.schedule_empty inside curr_row nil] at run
    cases run
  · obtain ⟨node, due, next⟩ := sound.schedule_next inside curr_row nil
    rw [next] at run
    cases run
    exact ⟨due, rfl⟩

theorem sound_of_reaches (reaches : Reaches nbk s events) : Sound nbk s events := by
  induction reaches with
  | new => exact sound_new
  | add _ run sound => exact sound.add run
  | idle _ run sound =>
    obtain rfl := sound.schedule_none run
    exact sound
  | schedule _ run sound =>
    obtain ⟨due, rfl⟩ := sound.schedule_some run
    exact sound.without _ due.oldest

/-- Whatever calls have been made: list and bins of a bank hold its waiting requests
    once each, every request added either waits or has been returned, and that once,
    and the next call for a bank returns the request that is due there.  No assertion
    fails. -/
theorem frfcfs_order (reaches : Reaches nbk s events) :
    (∀ bank, s.m_queue bank = pending events bank ∧
      ((pending events bank).map ListNode.iterator).Nodup ∧
      ∀ row, s.m_bins bank row = binOf (pending events bank) row) ∧
    s.m_num_pending = ∑ bank ∈ Finset.range nbk, (pending events bank).length ∧
    (added events).Nodup ∧
    (∀ node, (added events).count node =
      (returned events).count node + (pending events node.req.bk).count node) ∧
    (∀ req, (s.add_req req).isSome ↔ req.bk < nbk) ∧
    ∀ bank < nbk, ∀ curr_row, ∃ s' result, s.schedule bank curr_row = some (s', result) ∧
      (result = none ↔ pending events bank = []) ∧
      ∀ node, result = some node → IsNext events bank curr_row node := by
  have sound := sound_of_reaches reaches
  refine ⟨fun bank => ⟨congrFun sound.queue bank, sound.distinct bank, sound.bins bank⟩,
    sound.num, sound.once, sound.count, ?_, ?_⟩
  · intro req
    rw [add_req, sound.banks]
    by_cases inside : req.bk < nbk
    · rw [if_pos inside]
      exact ⟨fun _ => inside, fun _ => rfl⟩
    · rw [if_neg inside]
      exact ⟨fun accepted => (by cases accepted), fun inside' => absurd inside' inside⟩
  · intro bank inside curr_row
    by_cases nil : pending events bank = []
    · exact ⟨s, none, sound.schedule_empty inside curr_row nil, ⟨fun _ => nil, fun _ => rfl⟩,
        fun node eq => (by cases eq)⟩
    · obtain ⟨node, due, next⟩ := sound.schedule_next inside curr_row nil
      refine ⟨_, _, next, ⟨fun eq => (by cases eq), fun empty => absurd empty nil⟩, ?_⟩
      intro other eq
      exact Option.some.inj eq ▸ due

/-- A request of row 5 that came after one of row 3 is returned first, as row 5 is open. -/
theorem frfcfs_order_hit :
    let data : MemFetch := ⟨0, 0, 0, 3, 32, false, .GLOBAL_ACC_R⟩
    let first : ListNode := ⟨0, ⟨0, 0, 3, 32, .READ, data⟩⟩
    let second : ListNode := ⟨1, ⟨1, 0, 5, 32, .READ, data⟩⟩
    ∃ s' result,
      (((FrfcfsScheduler.new 1).add_req first.req).bind (·.add_req second.req)).bind
        (·.schedule 0 5) = some (s', result) ∧
      ∀ node, result = some node → IsNext [.added second, .added first] 0 5 node := by
  intro data first second
  have one : Reaches 1 _ [.added first] := @Reaches.add 1 _ _ [] first.req .new rfl
  have two : Reaches 1 _ [.added second, .added first] :=
    @Reaches.add 1 _ _ [.added first] second.req one rfl
  obtain ⟨s', result, run, -, next⟩ := (frfcfs_order two).2.2.2.2.2 0 Nat.one_pos 5
  exact ⟨s', result, run, next⟩

end FrfcfsScheduler
end AesOnGpu.Dram
